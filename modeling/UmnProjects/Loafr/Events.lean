import Mathlib.Order.Lattice

/-!
The data of the log file analyzer: events with their data items and log files. Every field
is a text, as in the source.
-/
namespace UmnProjects.Loafr

abbrev Text := List Char

structure DataItem where
  dataName : Text
  value : Text
  deriving Repr, DecidableEq

/-- The list of data items is null for an event of one field only. -/
structure Event where
  time : Text
  eventSource : Text
  eventName : Text
  dataItems : Option (List DataItem)
  deriving Repr, DecidableEq

structure Logfile where
  events : List Event
  deriving Repr, DecidableEq

def Logfile.addEvent (event : Event) (lf : Logfile) : Logfile :=
  { lf with events := lf.events ++ [event] }

/-- The exceptions the analyzer does not catch. -/
inductive Thrown where
  | NumberFormatException
  | NullPointerException
  | IndexOutOfBoundsException
  deriving Repr, DecidableEq

/-! ### Floating point numbers -/

/-- A parsed number: not a number, or a value of a linear order. -/
inductive Double (V : Type) where
  | NaN
  | number (v : V)
  deriving Repr, DecidableEq

namespace Double

variable {V : Type} [LinearOrder V]

def equal : Double V → Double V → Bool
  | number v, number w => decide (v = w)
  | _, _ => false

def less : Double V → Double V → Bool
  | number v, number w => decide (v < w)
  | _, _ => false

end Double

end UmnProjects.Loafr
