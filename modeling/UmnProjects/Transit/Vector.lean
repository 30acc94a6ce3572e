import Mathlib.Data.Nat.Sqrt

/-!
Three-dimensional vectors over any type of numbers with the operations the simulation
uses. No law is assumed of them here.
-/
namespace UmnProjects.Transit

class Scalar (K : Type) extends Add K, Sub K, Mul K, Div K where
  ofInt : Int → K
  sqrt : K → K
  sin : K → K
  cos : K → K
  less : K → K → Bool
  isZero : K → Bool

/-- Whole numbers, for runs on given inputs; the angle of every rotation is taken as zero. -/
instance : Scalar Int where
  ofInt n := n
  sqrt n := Nat.sqrt n.toNat
  sin _ := 0
  cos _ := 1
  less a b := decide (a < b)
  isZero a := decide (a = 0)

structure Vector3 (K : Type) where
  x : K
  y : K
  z : K
deriving DecidableEq

namespace Vector3

variable {K : Type} [Scalar K]

def zero : Vector3 K := ⟨Scalar.ofInt 0, Scalar.ofInt 0, Scalar.ofInt 0⟩

def add (u v : Vector3 K) : Vector3 K := ⟨u.x + v.x, u.y + v.y, u.z + v.z⟩

def sub (u v : Vector3 K) : Vector3 K := ⟨u.x - v.x, u.y - v.y, u.z - v.z⟩

def mul (u : Vector3 K) (m : K) : Vector3 K := ⟨m * u.x, m * u.y, m * u.z⟩

def div (u : Vector3 K) (m : K) : Vector3 K := ⟨u.x / m, u.y / m, u.z / m⟩

def magnitude (u : Vector3 K) : K := Scalar.sqrt (u.x * u.x + u.y * u.y + u.z * u.z)

def unit (u : Vector3 K) : Vector3 K :=
  if Scalar.isZero u.magnitude then u else u.div u.magnitude

def distance (u v : Vector3 K) : K := (v.sub u).magnitude

/-- The rotation about the vertical axis that several entities share. -/
def rotate (u : Vector3 K) (angle : K) : Vector3 K :=
  { u with
    x := u.x * Scalar.cos angle - u.z * Scalar.sin angle
    z := u.x * Scalar.sin angle + u.z * Scalar.cos angle }

end Vector3

end UmnProjects.Transit
