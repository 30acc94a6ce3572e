import Mathlib.Logic.Function.Basic

/-!
Descriptor tables of a process: finitely many open descriptors, the lowest free one
handed out first.
-/
namespace UmnProjects.Descriptors

structure Table (F : Type) where
  files : Nat → Option F
  bound : Nat
  closed : ∀ fd, bound ≤ fd → files fd = none

variable {F : Type}

/-- The first free descriptor among the `fuel` from `fd` on, or the one after them. -/
def firstFree (files : Nat → Option F) : Nat → Nat → Nat
  | 0, fd => fd
  | fuel + 1, fd => match files fd with
    | none => fd
    | some _ => firstFree files fuel (fd + 1)

theorem firstFree_spec (files : Nat → Option F) (fuel fd : Nat)
    (h : files (fd + fuel) = none) : files (firstFree files fuel fd) = none := by
  induction fuel generalizing fd with
  | zero => exact h
  | succ fuel ih =>
      simp only [firstFree]
      cases hfd : files fd with
      | none => exact hfd
      | some f =>
          apply ih
          rw [Nat.add_right_comm]
          exact h

namespace Table

def put (t : Table F) (fd : Nat) (f : Option F) : Table F where
  files := Function.update t.files fd f
  bound := max t.bound (fd + 1)
  closed := by
    intro e he
    rw [Function.update_of_ne (by omega)]
    exact t.closed e (by omega)

@[simp] theorem put_files (t : Table F) (fd : Nat) (f : Option F) :
    (t.put fd f).files = Function.update t.files fd f := rfl

def lowestFree (t : Table F) : Nat := firstFree t.files t.bound 0

theorem files_lowestFree (t : Table F) : t.files t.lowestFree = none :=
  firstFree_spec t.files t.bound 0 (t.closed _ (by omega))

/-- Open a file at the lowest free descriptor. -/
def alloc (t : Table F) (f : F) : Nat × Table F :=
  (t.lowestFree, t.put t.lowestFree (some f))

/-- Fails when the descriptor is not open. -/
def close (t : Table F) (fd : Nat) : Option (Table F) :=
  match t.files fd with
  | none => none
  | some _ => some (t.put fd none)

/-- Fails when the old descriptor is not open. -/
def dup2 (t : Table F) (oldfd newfd : Nat) : Option (Table F) :=
  match t.files oldfd with
  | none => none
  | some f => some (t.put newfd (some f))

theorem close_of_open {t : Table F} {fd : Nat} {f : F} (h : t.files fd = some f) :
    t.close fd = some (t.put fd none) := by
  simp [close, h]

theorem dup2_of_open {t : Table F} {oldfd newfd : Nat} {f : F} (h : t.files oldfd = some f) :
    t.dup2 oldfd newfd = some (t.put newfd (some f)) := by
  simp [dup2, h]

end Table

/-- The table `t` is `base` with the descriptors of `ends` open besides. -/
structure Extends (base t : Table F) (ends : List (Nat × F)) : Prop where
  nodup : (ends.map Prod.fst).Nodup
  free : ∀ e ∈ ends, base.files e.1 = none
  opened : ∀ e ∈ ends, t.files e.1 = some e.2
  rest : ∀ fd, fd ∉ ends.map Prod.fst → t.files fd = base.files fd

namespace Extends

variable {base t : Table F} {ends : List (Nat × F)}

theorem refl (t : Table F) : Extends t t [] where
  nodup := List.nodup_nil
  free := by simp
  opened := by simp
  rest := fun _ _ => rfl

theorem perm (h : Extends base t ends) {ends' : List (Nat × F)} (hp : ends.Perm ends') :
    Extends base t ends' := by
  have hfst := hp.map Prod.fst
  refine ⟨hfst.nodup_iff.mp h.nodup, ?_, ?_, ?_⟩
  · intro e he
    exact h.free e (hp.mem_iff.mpr he)
  · intro e he
    exact h.opened e (hp.mem_iff.mpr he)
  · intro fd hfd
    exact h.rest fd (mt hfst.mem_iff.mp hfd)

theorem of_base (h : Extends base t ends) {fd : Nat} (hb : base.files fd ≠ none) :
    t.files fd = base.files fd := by
  apply h.rest
  intro hmem
  obtain ⟨e, he, heq⟩ := List.mem_map.mp hmem
  exact hb (heq ▸ h.free e he)

theorem origin (h : Extends base t ends) {fd : Nat} {f : F} (hf : t.files fd = some f) :
    base.files fd = some f ∨ (fd, f) ∈ ends := by
  by_cases hmem : fd ∈ ends.map Prod.fst
  · right
    obtain ⟨e, he, heq⟩ := List.mem_map.mp hmem
    have hopen := h.opened e he
    rw [heq, hf] at hopen
    have hef : e = (fd, f) := Prod.ext heq (Option.some.inj hopen).symm
    exact hef ▸ he
  · left
    rw [← h.rest fd hmem]
    exact hf

/-- A free descriptor of the table was not open before and is none of the new ones. -/
theorem of_free (h : Extends base t ends) {fd : Nat} (hf : t.files fd = none) :
    base.files fd = none ∧ fd ∉ ends.map Prod.fst := by
  have hmem : fd ∉ ends.map Prod.fst := by
    intro hmem
    obtain ⟨e, he, heq⟩ := List.mem_map.mp hmem
    have hopen := h.opened e he
    rw [heq, hf] at hopen
    cases hopen
  refine ⟨?_, hmem⟩
  rw [← h.rest fd hmem]
  exact hf

theorem alloc (h : Extends base t ends) (f : F) :
    Extends base (t.alloc f).2 (((t.alloc f).1, f) :: ends) := by
  obtain ⟨hfree, hmem⟩ := h.of_free t.files_lowestFree
  refine ⟨?_, ?_, ?_, ?_⟩
  · exact List.nodup_cons.mpr ⟨hmem, h.nodup⟩
  · intro e he
    cases he with
    | head => exact hfree
    | tail _ he => exact h.free e he
  · intro e he
    cases he with
    | head => simp [Table.alloc]
    | tail _ he =>
        have hne : e.1 ≠ t.lowestFree := by
          intro heq
          exact hmem (heq ▸ List.mem_map_of_mem he)
        simpa [Table.alloc, Function.update_of_ne hne] using h.opened e he
  · intro fd hfd
    have hparts : fd ≠ t.lowestFree ∧ fd ∉ ends.map Prod.fst := by
      simpa [Table.alloc] using hfd
    simpa [Table.alloc, Function.update_of_ne hparts.1] using h.rest fd hparts.2

theorem close {e : Nat × F} (h : Extends base t (e :: ends)) :
    Extends base (t.put e.1 none) ends := by
  have hnodup := List.nodup_cons.mp h.nodup
  refine ⟨hnodup.2, ?_, ?_, ?_⟩
  · intro e' he'
    exact h.free e' (List.mem_cons_of_mem _ he')
  · intro e' he'
    have hne : e'.1 ≠ e.1 := by
      intro heq
      exact hnodup.1 (heq ▸ List.mem_map_of_mem he')
    simpa [Function.update_of_ne hne] using h.opened e' (List.mem_cons_of_mem _ he')
  · intro fd hfd
    by_cases hfe : fd = e.1
    · subst fd
      simp [h.free e List.mem_cons_self]
    · have hout : fd ∉ (e :: ends).map Prod.fst := by
        simpa [hfe] using hfd
      simpa [Function.update_of_ne hfe] using h.rest fd hout

end Extends

end UmnProjects.Descriptors
