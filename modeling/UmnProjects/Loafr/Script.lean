import Mathlib.Data.Nat.Basic
import UmnProjects.Foundations.Objects
import UmnProjects.Loafr.Operations

/-!
Scripts, and what is left of a script once it has been applied: its operations have eaten
up parts of their texts, so that a script object serves one log file only.
-/
namespace UmnProjects.Loafr

open Text Objects

/-- An entry of the list may be null; the parser adds none. -/
structure Script where
  ops : List (Option Operation)
  deriving Repr, DecidableEq

def Script.addOp (operation : Option Operation) (s : Script) : Script :=
  { s with ops := s.ops ++ [operation] }

/-! ### Parsing -/

namespace ScriptParser

def parseLine (line : Text) : Option Operation :=
  if contains "SEARCH".toList line then some (.search line)
  else if contains "FILTER".toList line then some (.filter line)
  else none

def parseScript (scriptFile : Text) : Option Script :=
  (lines scriptFile).foldlM
    (fun s line => (parseLine line).map fun operation => s.addOp (some operation)) ⟨[]⟩

end ScriptParser

/-! ### Alerts -/

namespace Script

variable {V : Type} [LinearOrder V] (parseDouble : Text → Option (Double V))

/-- The loop of `alert`, with what it leaves of the operations. -/
def applyAll : List (Option Operation) → Option (List Event) →
    Except Thrown (Option (List Event)) × List (Option Operation)
  | [], output => (.ok output, [])
  | none :: ops, _ => (.ok none, none :: ops)
  | some op :: ops, output =>
      match op.applyOp parseDouble output with
      | (.error e, op) => (.error e, some op :: ops)
      | (.ok output, op) =>
          let result := applyAll ops output
          (result.1, some op :: result.2)

def alert (script : Script) (events : Option (List Event)) :
    Except Thrown (Option (List Event)) × Script :=
  let result := applyAll parseDouble script.ops events
  (result.1, ⟨result.2⟩)

/-- The script object handed a list of events. -/
def alertOn (script : Script) (events : List Event) :
    Except Thrown (Option (List Event)) × Script :=
  script.alert parseDouble (some events)

/-- No operation of an inert script is ever applied: the first is missing, null, or
refuses its own text. -/
def Inert (script : Script) : Prop :=
  ∀ op, script.ops.head? = some (some op) → op.accepts = false

theorem applyAll_null (ops : List (Option Operation)) :
    applyAll parseDouble ops none = (.ok none, ops) := by
  induction ops with
  | nil => rfl
  | cons op ops ih =>
      cases op with
      | none => rfl
      | some op => simp [applyAll, Operation.applyOp_null, ih]

theorem applyAll_refused {op : Operation} (h : op.accepts = false)
    (ops : List (Option Operation)) (output : Option (List Event)) :
    applyAll parseDouble (some op :: ops) output = (.ok none, some op :: ops) := by
  simp [applyAll, Operation.applyOp_refused parseDouble h, applyAll_null]

/-- The first operation of a script is left as its own application leaves it. -/
theorem head_applyAll (op : Operation) (ops : List (Option Operation))
    (output : Option (List Event)) :
    (applyAll parseDouble (some op :: ops) output).2.head? =
      some (some (op.applyOp parseDouble output).2) := by
  simp only [applyAll]
  split
  · next h => simp [h]
  · next h => simp [h]

variable {parseDouble} {script : Script}

theorem Inert.alertOn_unchanged (h : script.Inert) (events : List Event) :
    (script.alertOn parseDouble events).2 = script := by
  obtain ⟨ops⟩ := script
  cases ops with
  | nil => rfl
  | cons op ops =>
      cases op with
      | none => rfl
      | some op => simp [alertOn, alert, applyAll_refused parseDouble (h op rfl)]

theorem Inert.alertOn_null (h : script.Inert) (hops : script.ops ≠ []) (events : List Event) :
    (script.alertOn parseDouble events).1 = .ok none := by
  obtain ⟨ops⟩ := script
  cases ops with
  | nil => exact absurd rfl hops
  | cons op ops =>
      cases op with
      | none => rfl
      | some op => simp [alertOn, alert, applyAll_refused parseDouble (h op rfl)]

/-- The length of the first operation's text. -/
def headLength (script : Script) : Nat :=
  match script.ops with
  | some op :: _ => op.getOp.length
  | _ => 0

/-- An alert either finds the script inert or leaves less of its first operation. -/
theorem alertOn_wears (hops : script.ops ≠ []) (events : List Event) :
    (script.alertOn parseDouble events).1 = .ok none ∨
      (script.alertOn parseDouble events).2.ops ≠ [] ∧
        (script.alertOn parseDouble events).2.headLength < script.headLength := by
  by_cases hinert : script.Inert
  · exact .inl (hinert.alertOn_null hops events)
  · simp only [Inert, not_forall, Bool.not_eq_false] at hinert
    obtain ⟨op, hhead, haccepts⟩ := hinert
    obtain ⟨ops, hcons⟩ := List.head?_eq_some_iff.mp hhead
    have hafter := head_applyAll parseDouble op ops (some events)
    obtain ⟨rest, hrest⟩ := List.head?_eq_some_iff.mp hafter
    have hleft : (script.alertOn parseDouble events).2.ops =
        some (op.applyOp parseDouble (some events)).2 :: rest := by
      simp only [alertOn, alert, hcons, hrest]
    refine .inr ⟨?_, ?_⟩
    · simp [hleft]
    · simp only [headLength, hleft, hcons]
      exact Operation.applyOp_shorter parseDouble haccepts events

theorem alertOn_no_operations (hops : script.ops = []) (events : List Event) :
    script.alertOn parseDouble events = (.ok (some events), script) := by
  obtain ⟨ops⟩ := script
  cases hops
  rfl

/-- A script object gives the results of fresh copies when it is called at most once or is
inert. A script that works on some list of events does so for all sequences of calls only
when it has no operation at all. -/
theorem alerts_like_fresh (parseDouble : Text → Option (Double V)) (script : Script) :
    (∀ calls : List (List Event), calls.length ≤ 1 ∨ script.Inert →
      outputs (alertOn parseDouble) script calls =
        calls.map fun events => (script.alertOn parseDouble events).1) ∧
    (∀ events output, (script.alertOn parseDouble events).1 = .ok (some output) →
      (Repeatable (alertOn parseDouble) script ↔ script.ops = [])) := by
  refine ⟨?_, ?_⟩
  · intro calls h
    obtain hlen | hinert := h
    · exact outputs_of_length_le_one hlen
    · exact repeatable_of_unchanged hinert.alertOn_unchanged calls
  · intro events output hworks
    constructor
    · intro hrepeat
      by_contra hops
      obtain ⟨n, hn⟩ := worn_out (alertOn parseDouble) events headLength
        (fun s => s.ops ≠ []) (fun _ hs => alertOn_wears hs events) hops
      have hnull := hrepeat.output_of_worn_out hn
      rw [hworks] at hnull
      cases hnull
    · intro hops
      exact repeatable_of_unchanged fun es => by rw [alertOn_no_operations hops es]

/-- The numbers written in digits only. -/
def parseDigits (text : Text) : Option (Double Nat) :=
  if text ≠ [] ∧ text.all Char.isDigit then
    some (.number (text.foldl (fun n c => 10 * n + (c.toNat - '0'.toNat)) 0))
  else none

/-- The script of the one line `SEARCH a`. -/
def searchA : Script := ⟨[some (.search "SEARCH a".toList)]⟩

def eventA : Event := ⟨"0".toList, [], "a".toList, none⟩

/-- The script finds the event in the first log file, and gives null for the second log file
with the same event. -/
theorem alerts_searchA :
    ScriptParser.parseScript "SEARCH a".toList = some searchA ∧
      outputs (alertOn parseDigits) searchA [[eventA], [eventA]] =
        [.ok (some [eventA]), .ok none] ∧
      outputs (alertOn parseDigits) searchA [[eventA], [eventA]] ≠
        [[eventA], [eventA]].map fun events => (searchA.alertOn parseDigits events).1 := by
  decide

/-- One call on the script, and the two sides of its repeated use. -/
theorem alerts_like_fresh_searchA :
    outputs (alertOn parseDigits) searchA [[eventA]] =
        [.ok (some [eventA])] ∧
      ¬ Repeatable (alertOn parseDigits) searchA := by
  refine ⟨?_, ?_⟩
  · exact (alerts_like_fresh _ searchA).1 [[eventA]] (.inl (Nat.le_refl 1))
  · intro hrepeat
    have hops := ((alerts_like_fresh _ searchA).2 [eventA] [eventA] rfl).mp hrepeat
    cases hops

end Script

end UmnProjects.Loafr
