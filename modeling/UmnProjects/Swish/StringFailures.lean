import UmnProjects.Swish.StringVector

/-!
String vectors when allocations fail. `strvec_init` sets the capacity before it knows whether there
is an array, so after a failure the vector claims four elements that it does not have. Elsewhere a
failure leaves what was there.
-/
namespace UmnProjects.Swish.StringVector
open Runs

/-- The vectors of a program, by variable; none is a variable not in use yet. -/
abbrev Vectors := Nat → Option StrVec

def Vectors.start : Vectors := fun _ => none

def Vectors.put (vectors : Vectors) (v : Nat) (vec : StrVec) : Vectors :=
  Function.update vectors v (some vec)

inductive Operation where
  | init (v : Nat)
  | add (v : Nat) (s : String)
  | take (v n : Nat)
  | clear (v : Nat)
  | slice (src dest : Nat) (start stop : Int)

/-- An operation and which of its allocations succeed; those of a slice are by element, and its
array is that of element 0. -/
structure Call where
  operation : Operation
  allocs : Nat → Allocs

/-- The vectors after a call, and what it returns; `strvec_take` and `strvec_clear` return nothing.
None is undefined behaviour. -/
def call (vectors : Vectors) (c : Call) : Option (Vectors × Int) :=
  match c.operation with
  | .init v =>
      let (vec, result) := strvecInit (c.allocs 0).init
      some (vectors.put v vec, result)
  | .add v s => match vectors v with
    | none => none
    | some vec => match strvecAdd (c.allocs 0) vec s with
      | none => none
      | some (vec, result) => some (vectors.put v vec, result)
  | .take v n => match vectors v with
    | none => none
    | some vec => match strvecTake vec n with
      | none => none
      | some vec => some (vectors.put v vec, 0)
  | .clear v => match vectors v with
    | none => none
    | some vec => match strvecClear vec with
      | none => none
      | some vec => some (vectors.put v vec, 0)
  | .slice src dest start stop => match vectors src with
    | none => none
    | some vec => match strvecSlice (c.allocs 0).init c.allocs vec start stop with
      | none => none
      | some (vec, result) => some (vectors.put dest vec, result)

def step (vectors : Vectors) (c : Call) : Option Vectors :=
  match call vectors c with
  | none => none
  | some (vectors, _) => some vectors

/-! ### What is asked for -/

/-- A positive capacity is that of the array. -/
def Slots (vec : StrVec) : Prop :=
  0 < vec.capacity → ∃ elements, vec.data = some elements ∧ elements.length = vec.capacity

def AllSlots (vectors : Vectors) : Prop :=
  ∀ v vec, vectors v = some vec → Slots vec

/-- The functions that only read the vector have a result. -/
def Readable (vec : StrVec) : Prop :=
  (∀ i, (strvecGet vec i).isSome) ∧ ∀ s, (strvecFind vec s).isSome ∧
    (strvecFindLast vec s).isSome ∧ (strvecNumOccurrences vec s).isSome

/-- Every vector stands for the list it stood for. -/
def SameLists (vectors vectors' : Vectors) : Prop :=
  ∀ v vec l, vectors v = some vec → Represents vec l →
    ∃ vec', vectors' v = some vec' ∧ Represents vec' l

/-- The call has a result; one that reports failure leaves the lists, and all arrays are there. -/
def Robust (vectors : Vectors) (c : Call) : Prop :=
  ∃ vectors' result, call vectors c = some (vectors', result) ∧ AllSlots vectors' ∧
    (result ≠ 0 → SameLists vectors vectors')

/-- The vectors that are used are in use, and a slice is made in another variable. -/
def Usable (vectors : Vectors) : Operation → Prop
  | .init _ => True
  | .add v _ => (vectors v).isSome
  | .take v _ => (vectors v).isSome
  | .clear v => (vectors v).isSome
  | .slice src dest _ stop => (vectors src).isSome ∧ dest ≠ src ∧
      -2147483648 ≤ stop ∧ stop < 2147483648

/-- The call begins with the allocation of an array. -/
def Begins (vectors : Vectors) : Operation → Prop
  | .init _ => True
  | .add v _ => ∃ vec, vectors v = some vec ∧ vec.capacity = 0
  | .take _ _ => False
  | .clear _ => False
  | .slice _ _ _ _ => True

/-- No vector gets as many strings as an `int` cannot count. -/
def Countable (vectors : Vectors) : Operation → Prop
  | .add v _ => ∀ vec, vectors v = some vec → vec.length + 1 < 2147483648
  | _ => True

/-- A slice is made in a variable not in use, or all of it is allocated. -/
def Fresh (vectors : Vectors) (c : Call) : Prop :=
  match c.operation with
  | .slice _ dest _ _ => vectors dest = none ∨
      ∀ k, (c.allocs k).realloc = true ∧ (c.allocs k).string = true
  | _ => True

structure Allowed (vectors : Vectors) (c : Call) : Prop where
  usable : Usable vectors c.operation
  begins : Begins vectors c.operation → (c.allocs 0).init = true
  countable : Countable vectors c.operation
  fresh : Fresh vectors c

/-! ### What every allowed call keeps -/

/-- Every vector in use stands for a list that an `int` can count. -/
def Lists (vectors : Vectors) : Prop :=
  ∀ v vec, vectors v = some vec → ∃ l, Represents vec l ∧ l.length < 2147483648

variable {vectors vectors' : Vectors} {v : Nat} {vec vec' : StrVec} {l : List String} {c : Call}

theorem lists_start : Lists .start := nofun

theorem Represents.slots (h : Represents vec l) : Slots vec := by
  intro hpositive
  obtain ⟨room, hdata, hsize⟩ := h.stored (Nat.ne_of_gt hpositive)
  refine ⟨_, hdata, ?_⟩
  rw [List.length_append, List.length_map]
  exact hsize

theorem Lists.allSlots (h : Lists vectors) : AllSlots vectors := by
  intro v vec hvec
  obtain ⟨l, hrep, _⟩ := h v vec hvec
  exact hrep.slots

theorem Lists.readable (h : Lists vectors) (hvec : vectors v = some vec) : Readable vec := by
  obtain ⟨l, hrep, hcount⟩ := h v vec hvec
  constructor
  · intro i
    rw [hrep.get]
    rfl
  · intro s
    obtain ⟨index, hfind, _⟩ := hrep.find s
    rw [hfind, hrep.findLast_eq hcount, hrep.numOccurrences]
    exact ⟨rfl, rfl, rfl⟩

theorem Lists.put (h : Lists vectors) (hrep : Represents vec l) (hfew : l.length < 2147483648) :
    Lists (vectors.put v vec) := by
  intro other vec' hvec'
  by_cases heq : other = v
  · rw [heq, Vectors.put, Function.update_self] at hvec'
    cases hvec'
    exact ⟨l, hrep, hfew⟩
  · rw [Vectors.put, Function.update_of_ne heq] at hvec'
    exact h other vec' hvec'

/-- The other vectors are not touched. -/
theorem sameLists_put (hsame : ∀ vec l, vectors v = some vec → Represents vec l →
    Represents vec' l) : SameLists vectors (vectors.put v vec') := by
  intro other vec l hvec hrep
  by_cases heq : other = v
  · rw [heq, Vectors.put, Function.update_self]
    rw [heq] at hvec
    exact ⟨vec', rfl, hsame vec l hvec hrep⟩
  · rw [Vectors.put, Function.update_of_ne heq]
    exact ⟨vec, hvec, hrep⟩

/-- The call has a result, and one that reports failure leaves the lists. -/
def Keeps (vectors : Vectors) (c : Call) : Prop :=
  ∃ vectors' result, call vectors c = some (vectors', result) ∧ Lists vectors' ∧
    (result ≠ 0 → SameLists vectors vectors')

theorem Keeps.robust (h : Keeps vectors c) : Robust vectors c := by
  obtain ⟨vectors', result, hcall, hlists, hsame⟩ := h
  exact ⟨vectors', result, hcall, hlists.allSlots, hsame⟩

variable {allocs : Nat → Allocs}

theorem keeps_init (h : Lists vectors) (hinit : (allocs 0).init = true) :
    Keeps vectors ⟨.init v, allocs⟩ := by
  refine ⟨vectors.put v (strvecInit true).1, 0, ?_, h.put represents_init (by decide), ?_⟩
  · simp only [call, hinit]
    rfl
  · exact fun hne => absurd rfl hne

theorem keeps_add (h : Lists vectors) (hvec : vectors v = some vec)
    (hinit : vec.capacity = 0 → (allocs 0).init = true) (hfew : vec.length + 1 < 2147483648)
    (s : String) : Keeps vectors ⟨.add v s, allocs⟩ := by
  obtain ⟨l, hrep, hcount⟩ := h v vec hvec
  rw [hrep.length] at hfew
  obtain ⟨vec', result, hadd, _, ⟨hresult, hrep'⟩ | ⟨_, _, hrep'⟩⟩ :=
    hrep.addAny hfew (allocs 0) hinit s
  · refine ⟨vectors.put v vec', result, by simp only [call, hvec, hadd], h.put hrep' ?_, ?_⟩
    · rw [List.length_append, List.length_singleton]
      exact hfew
    · exact fun hne => absurd hresult hne
  · refine ⟨vectors.put v vec', result, by simp only [call, hvec, hadd], h.put hrep' hcount, ?_⟩
    intro _
    refine sameLists_put fun old l' hold hrepOld => ?_
    rw [hvec] at hold
    cases hold
    rw [hrepOld.unique hrep]
    exact hrep'

theorem keeps_take (h : Lists vectors) (hvec : vectors v = some vec) (n : Nat) :
    Keeps vectors ⟨.take v n, allocs⟩ := by
  obtain ⟨l, hrep, hcount⟩ := h v vec hvec
  obtain ⟨vec', htake, hrep', _⟩ := hrep.take n
  refine ⟨vectors.put v vec', 0, by simp only [call, hvec, htake], h.put hrep' ?_, ?_⟩
  · exact Nat.lt_of_le_of_lt (List.length_take_le' n l) hcount
  · exact fun hne => absurd rfl hne

theorem keeps_clear (h : Lists vectors) (hvec : vectors v = some vec) :
    Keeps vectors ⟨.clear v, allocs⟩ := by
  obtain ⟨l, hrep, _⟩ := h v vec hvec
  obtain ⟨vec', hclear, hrep', _⟩ := hrep.clear
  refine ⟨vectors.put v vec', 0, by simp only [call, hvec, hclear], h.put hrep' (by decide), ?_⟩
  exact fun hne => absurd rfl hne

theorem length_sliced_le (l : List String) (start stop : Int) :
    (sliced l start stop).length ≤ l.length := by
  refine Nat.le_trans (List.length_take_le' _ _) ?_
  rw [List.length_drop]
  exact Nat.sub_le _ _

theorem keeps_slice {src dest : Nat} {start stop : Int} (h : Lists vectors)
    (hvec : vectors src = some vec) (hlow : -2147483648 ≤ stop) (hhigh : stop < 2147483648)
    (hinit : (allocs 0).init = true)
    (hfresh : vectors dest = none ∨ ∀ k, (allocs k).realloc = true ∧ (allocs k).string = true) :
    Keeps vectors ⟨.slice src dest start stop, allocs⟩ := by
  obtain ⟨l, hrep, hcount⟩ := h src vec hvec
  obtain ⟨vec', result, hslice, ⟨hresult, hrep'⟩ | ⟨_, ⟨k, hfailed⟩, n, _, hrep'⟩⟩ :=
    hrep.sliceAny (by omega) allocs start hlow hhigh
  · refine ⟨vectors.put dest vec', result, by simp only [call, hvec, hinit, hslice],
      h.put hrep' ?_, fun hne => absurd hresult hne⟩
    exact Nat.lt_of_le_of_lt (length_sliced_le l start stop) hcount
  · refine ⟨vectors.put dest vec', result, by simp only [call, hvec, hinit, hslice],
      h.put hrep' ?_, fun _ => sameLists_put fun old l' hold _ => ?_⟩
    · exact Nat.lt_of_le_of_lt (Nat.le_trans (List.length_take_le' n _)
        (length_sliced_le l start stop)) hcount
    · cases hfresh with
      | inl hnone =>
          rw [hnone] at hold
          cases hold
      | inr hall => exact absurd (hall k) hfailed

theorem keeps_of_allowed (h : Lists vectors) (hallowed : Allowed vectors c) : Keeps vectors c := by
  obtain ⟨operation, allocs⟩ := c
  obtain ⟨husable, hbegins, hcountable, hfresh⟩ := hallowed
  cases operation with
  | init v => exact keeps_init h (hbegins trivial)
  | add v s =>
      obtain ⟨vec, hvec⟩ := Option.isSome_iff_exists.mp husable
      exact keeps_add h hvec (fun hzero => hbegins ⟨vec, hvec, hzero⟩) (hcountable vec hvec) s
  | take v n =>
      obtain ⟨vec, hvec⟩ := Option.isSome_iff_exists.mp husable
      exact keeps_take h hvec n
  | clear v =>
      obtain ⟨vec, hvec⟩ := Option.isSome_iff_exists.mp husable
      exact keeps_clear h hvec
  | slice src dest start stop =>
      obtain ⟨hsome, _, hlow, hhigh⟩ := husable
      obtain ⟨vec, hvec⟩ := Option.isSome_iff_exists.mp hsome
      exact keeps_slice h hvec hlow hhigh (hbegins trivial) hfresh

theorem lists_of_run (h : Run step Allowed .start vectors) : Lists vectors := by
  refine h.invariant ?_ lists_start
  intro before c after hallowed hstep hlists
  obtain ⟨vectors', result, hcall, hlists', _⟩ := keeps_of_allowed hlists hallowed
  rw [step, hcall] at hstep
  cases hstep
  exact hlists'

/-! ### What the failure of a first array does -/

theorem not_slots_init : ¬ Slots (strvecInit false).1 := by
  intro h
  obtain ⟨elements, hdata, _⟩ := h (by decide)
  cases hdata

theorem not_allSlots_put (h : ¬ Slots vec) : ¬ AllSlots (vectors.put v vec) := by
  intro hall
  apply h (hall v vec _)
  rw [Vectors.put, Function.update_self]

theorem broken_of_begins (husable : Usable vectors c.operation)
    (hbegins : Begins vectors c.operation) (hfailed : (c.allocs 0).init = false) :
    ∃ vectors' result, call vectors c = some (vectors', result) ∧ ¬ AllSlots vectors' := by
  obtain ⟨operation, allocs⟩ := c
  change (allocs 0).init = false at hfailed
  cases operation with
  | init v =>
      refine ⟨vectors.put v (strvecInit false).1, 1, ?_, not_allSlots_put not_slots_init⟩
      simp only [call, hfailed]
      rfl
  | add v s =>
      obtain ⟨vec, hvec, hzero⟩ := hbegins
      refine ⟨vectors.put v (strvecInit false).1, -1, ?_, not_allSlots_put not_slots_init⟩
      simp only [call, hvec, strvecAdd, if_pos hzero, hfailed]
      rfl
  | take v n => exact hbegins.elim
  | clear v => exact hbegins.elim
  | slice src dest start stop =>
      obtain ⟨vec, hvec⟩ := Option.isSome_iff_exists.mp husable.1
      refine ⟨vectors.put dest (strvecInit false).1, -1, ?_, not_allSlots_put not_slots_init⟩
      simp only [call, hvec, strvecSlice, hfailed]
      rfl

theorem strvec_robust (h : Run step Allowed .start vectors) :
    AllSlots vectors ∧ (∀ v vec, vectors v = some vec → Readable vec) ∧
      (∀ c, Allowed vectors c → Robust vectors c) ∧
      ∀ c, Usable vectors c.operation → Begins vectors c.operation →
        (c.allocs 0).init = false →
          ∃ vectors' result, call vectors c = some (vectors', result) ∧ ¬ AllSlots vectors' := by
  have hlists := lists_of_run h
  refine ⟨hlists.allSlots, fun v vec => hlists.readable, ?_, fun c => broken_of_begins⟩
  exact fun c hallowed => (keeps_of_allowed hlists hallowed).robust

def Call.sampleInit : Call where
  operation := .init 0
  allocs := fun _ => .succeed

/-- Adding `ls` when there is no memory for the copy of the string. -/
def Call.sampleAdd : Call where
  operation := .add 0 "ls"
  allocs := fun _ => { Allocs.succeed with string := false }

theorem strvec_robust_sample : ∃ vectors,
    step .start .sampleInit = some vectors ∧ AllSlots vectors ∧ Robust vectors .sampleAdd := by
  have hallowed : Allowed .start .sampleInit := ⟨trivial, fun _ => rfl, trivial, trivial⟩
  have hrun : Run step Allowed .start (Vectors.start.put 0 (strvecInit true).1) :=
    .tail .refl hallowed rfl
  obtain ⟨hslots, _, hrobust, _⟩ := strvec_robust hrun
  refine ⟨_, rfl, hslots, hrobust .sampleAdd ⟨rfl, fun _ => rfl, ?_, trivial⟩⟩
  intro vec hvec
  cases hvec
  decide

/-- After a clear, the array of the next add is not allocated, and the add reports it. -/
def sampleCalls : List Call :=
  [.sampleInit, ⟨.clear 0, fun _ => .succeed⟩,
    ⟨.add 0 "ls", fun _ => { Allocs.succeed with init := false }⟩]

theorem not_robust_after_clear : ∃ vectors, perform step .start sampleCalls = some vectors ∧
    ¬ AllSlots vectors ∧ call vectors ⟨.add 0 "ls", fun _ => .succeed⟩ = none := by
  exact ⟨_, rfl, not_allSlots_put not_slots_init, rfl⟩

end UmnProjects.Swish.StringVector
