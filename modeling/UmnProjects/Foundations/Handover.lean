import Mathlib.Data.List.Basic

/-!
Resources whose names are used again. Each resource is accepted under a name that no open
resource has, later taken over by one agent, in the order of acceptance, and closed by it.
The table says for which resource a name stands, by its number in that order.
-/
namespace UmnProjects.Handover

variable {T D : Type}

structure Ledger (T D : Type) where
  accepted : List D
  taken : List (T × D)
  held : T → Option D
  table : D → Option Nat
  closed : List (T × Option Nat)

namespace Ledger

def accept [DecidableEq D] (l : Ledger T D) (d : D) : Ledger T D :=
  { l with
    accepted := l.accepted ++ [d]
    table := fun x => if x = d then some l.accepted.length else l.table x }

def take [DecidableEq T] (l : Ledger T D) (t : T) (d : D) : Ledger T D :=
  { l with
    taken := l.taken ++ [(t, d)]
    held := fun u => if u = t then some d else l.held u }

def close [DecidableEq T] [DecidableEq D] (l : Ledger T D) (t : T) (d : D) : Ledger T D :=
  { l with
    held := fun u => if u = t then none else l.held u
    table := fun x => if x = d then none else l.table x
    closed := l.closed ++ [(t, l.table d)] }

inductive Step [DecidableEq T] [DecidableEq D] (l : Ledger T D) : Ledger T D → Prop where
  | accept (d : D) (free : l.table d = none) : Step l (l.accept d)
  | take (t : T) (d : D) (idle : l.held t = none) (next : l.accepted[l.taken.length]? = some d) :
      Step l (l.take t d)
  | close (t : T) (d : D) (holds : l.held t = some d) : Step l (l.close t d)

/-- A resource is taken by the one who then holds it. -/
theorem Step.taken_cases [DecidableEq T] [DecidableEq D] {l l' : Ledger T D} (h : Step l l') :
    l'.taken = l.taken ∨ ∃ t d, l'.taken = l.taken ++ [(t, d)] ∧ l'.held t = some d := by
  cases h with
  | accept d _ | close t d _ => exact .inl rfl
  | take t d _ _ => exact .inr ⟨t, d, rfl, by simp [Ledger.take]⟩

/-- Who closed the resource. -/
def closings (l : Ledger T D) (i : Nat) : List (T × Option Nat) :=
  l.closed.filter (fun e => e.2 = some i)

/-- Each resource is open and in its place, or was closed once, by the agent that took it. -/
structure Valid (l : Ledger T D) : Prop where
  opened : ∀ d i, l.table d = some i → l.accepted[i]? = some d ∧ l.closings i = []
  held : ∀ t d, l.held t = some d → ∃ i, l.taken[i]? = some (t, d) ∧ l.table d = some i
  taken : ∀ i t d, l.taken[i]? = some (t, d) →
    (l.held t = some d ∧ l.table d = some i) ∨ l.closings i = [(t, some i)]
  waiting : ∀ i d, l.accepted[i]? = some d → l.taken.length ≤ i → l.table d = some i
  closed : ∀ e ∈ l.closed, ∃ i < l.accepted.length, e.2 = some i

namespace Valid

variable {l l' : Ledger T D}

theorem empty : Valid (⟨[], [], fun _ => none, fun _ => none, []⟩ : Ledger T D) where
  opened := by simp
  held := by simp
  taken := by simp
  waiting := by simp
  closed := by simp

/-- Two names never stand for one resource. -/
theorem name_unique (h : l.Valid) {c d : D} {i : Nat} (hc : l.table c = some i)
    (hd : l.table d = some i) : c = d := by
  have hac := (h.opened c i hc).1
  rw [(h.opened d i hd).1] at hac
  exact (Option.some.inj hac).symm

/-- A resource still to come was not closed. -/
theorem closings_new (h : l.Valid) : l.closings l.accepted.length = [] := by
  apply List.filter_eq_nil_iff.mpr
  intro e he
  obtain ⟨i, hi, hei⟩ := h.closed e he
  simp only [hei, Option.some.injEq, decide_eq_true_eq]
  omega

theorem accept [DecidableEq D] (h : l.Valid) {d : D} (free : l.table d = none) :
    (l.accept d).Valid := by
  refine ⟨?_, ?_, ?_, ?_, ?_⟩
  · intro c i hc
    by_cases hcd : c = d
    · subst c
      simp only [Ledger.accept, if_true, Option.some.injEq] at hc
      subst hc
      exact ⟨by simp [Ledger.accept], h.closings_new⟩
    · obtain ⟨ha, hn⟩ := h.opened c i (by simpa [Ledger.accept, hcd] using hc)
      refine ⟨?_, hn⟩
      have hi := (List.getElem?_eq_some_iff.mp ha).1
      simpa [Ledger.accept, List.getElem?_append_left hi] using ha
  · intro t c ht
    obtain ⟨i, hi, hc⟩ := h.held t c ht
    have hcd : c ≠ d := by
      rintro rfl
      simp [free] at hc
    exact ⟨i, hi, by simpa [Ledger.accept, hcd] using hc⟩
  · intro i t c hi
    obtain ⟨ht, hc⟩ | hdone := h.taken i t c hi
    · have hcd : c ≠ d := by
        rintro rfl
        simp [free] at hc
      exact .inl ⟨ht, by simpa [Ledger.accept, hcd] using hc⟩
    · exact .inr hdone
  · intro i c hc hlen
    by_cases hi : i < l.accepted.length
    · have ha : l.accepted[i]? = some c := by
        simpa [Ledger.accept, List.getElem?_append_left hi] using hc
      have hw := h.waiting i c ha hlen
      have hcd : c ≠ d := by
        rintro rfl
        simp [free] at hw
      simpa [Ledger.accept, hcd] using hw
    · obtain ⟨hlt, hget⟩ := List.getElem?_eq_some_iff.mp hc
      have hieq : i = l.accepted.length := by
        simp only [Ledger.accept, List.length_append, List.length_singleton] at hlt
        omega
      subst hieq
      have hcd : c = d := by simpa [Ledger.accept] using hget.symm
      simp [Ledger.accept, hcd]
  · intro e he
    obtain ⟨i, hi, hei⟩ := h.closed e he
    exact ⟨i, by simp [Ledger.accept]; omega, hei⟩

theorem take [DecidableEq T] (h : l.Valid) {t : T} {d : D} (idle : l.held t = none)
    (next : l.accepted[l.taken.length]? = some d) : (l.take t d).Valid := by
  have hopen := h.waiting _ d next (Nat.le_refl _)
  refine ⟨h.opened, ?_, ?_, ?_, h.closed⟩
  · intro u c hu
    by_cases hut : u = t
    · subst u
      have hcd : d = c := by simpa [Ledger.take] using hu
      subst hcd
      exact ⟨l.taken.length, by simp [Ledger.take], hopen⟩
    · obtain ⟨i, hi, hc⟩ := h.held u c (by simpa [Ledger.take, hut] using hu)
      have hlt := (List.getElem?_eq_some_iff.mp hi).1
      exact ⟨i, by simpa [Ledger.take, List.getElem?_append_left hlt] using hi, hc⟩
  · intro i u c hi
    by_cases hlt : i < l.taken.length
    · have hold : l.taken[i]? = some (u, c) := by
        simpa [Ledger.take, List.getElem?_append_left hlt] using hi
      obtain ⟨hu, hc⟩ | hdone := h.taken i u c hold
      · have hut : u ≠ t := by
          rintro rfl
          simp [idle] at hu
        exact .inl ⟨by simpa [Ledger.take, hut] using hu, hc⟩
      · exact .inr hdone
    · obtain ⟨hlen, hget⟩ := List.getElem?_eq_some_iff.mp hi
      have hieq : i = l.taken.length := by
        simp only [Ledger.take, List.length_append, List.length_singleton] at hlen
        omega
      subst hieq
      have hpair : t = u ∧ d = c := by simpa [Ledger.take] using hget
      obtain ⟨rfl, rfl⟩ := hpair
      exact .inl ⟨by simp [Ledger.take], hopen⟩
  · intro i c hc hlen
    apply h.waiting i c hc
    simp only [Ledger.take, List.length_append, List.length_singleton] at hlen
    omega

/-- What an agent closes is the resource it took, whatever the name stands for elsewhere. -/
theorem close [DecidableEq T] [DecidableEq D] (h : l.Valid) {t : T} {d : D}
    (holds : l.held t = some d) : (l.close t d).Valid := by
  obtain ⟨i, hi, hd⟩ := h.held t d holds
  have closings : ∀ j, j ≠ i → (l.close t d).closings j = l.closings j := by
    intro j hj
    simp [Ledger.close, Ledger.closings, List.filter_append, hd, Ne.symm hj]
  have here : (l.close t d).closings i = [(t, some i)] := by
    have hnone := (h.opened d i hd).2
    simp only [Ledger.closings] at hnone
    simp [Ledger.close, Ledger.closings, List.filter_append, hd, hnone]
  have other : ∀ c j, c ≠ d → l.table c = some j → j ≠ i := by
    rintro c j hcd hc rfl
    exact hcd (h.name_unique hc hd)
  refine ⟨?_, ?_, ?_, ?_, ?_⟩
  · intro c j hc
    have hcd : c ≠ d := by
      rintro rfl
      simp [Ledger.close] at hc
    have hold : l.table c = some j := by simpa [Ledger.close, hcd] using hc
    rw [closings j (other c j hcd hold)]
    exact h.opened c j hold
  · intro u c hu
    have hut : u ≠ t := by
      rintro rfl
      simp [Ledger.close] at hu
    obtain ⟨j, hj, hc⟩ := h.held u c (by simpa [Ledger.close, hut] using hu)
    have hcd : c ≠ d := by
      rintro rfl
      rw [hd] at hc
      cases hc
      rw [hi] at hj
      cases hj
      exact hut rfl
    exact ⟨j, hj, by simpa [Ledger.close, hcd] using hc⟩
  · intro j u c hj
    by_cases hji : j = i
    · subst j
      right
      rw [show l.taken[i]? = some (u, c) from hj] at hi
      cases hi
      exact here
    · rw [closings j hji]
      obtain ⟨hu, hc⟩ | hdone := h.taken j u c hj
      · left
        have hcd : c ≠ d := by
          rintro rfl
          rw [hd] at hc
          exact hji (Option.some.inj hc).symm
        have hut : u ≠ t := by
          rintro rfl
          rw [holds] at hu
          exact hcd (Option.some.inj hu).symm
        exact ⟨by simpa [Ledger.close, hut] using hu, by simpa [Ledger.close, hcd] using hc⟩
      · exact .inr hdone
  · intro j c hc hlen
    have hw := h.waiting j c hc hlen
    have hcd : c ≠ d := by
      rintro rfl
      rw [hd] at hw
      cases hw
      have hlt := (List.getElem?_eq_some_iff.mp hi).1
      exact absurd hlt (Nat.not_lt.mpr hlen)
    simpa [Ledger.close, hcd] using hw
  · intro e he
    obtain he | he := List.mem_append.mp he
    · exact h.closed e he
    · rw [List.mem_singleton.mp he, hd]
      exact ⟨i, (List.getElem?_eq_some_iff.mp (h.opened d i hd).1).1, rfl⟩

theorem step [DecidableEq T] [DecidableEq D] (h : l.Valid) (hs : Step l l') : l'.Valid := by
  cases hs with
  | accept d free => exact h.accept free
  | take t d idle next => exact h.take idle next
  | close t d holds => exact h.close holds

/-- When nobody holds anything, what was taken was closed, and by the one that took it. -/
theorem closed_once (h : l.Valid) (free : ∀ t, l.held t = none) {i : Nat} {t : T} {d : D}
    (ht : l.taken[i]? = some (t, d)) : l.closings i = [(t, some i)] := by
  obtain ⟨hheld, _⟩ | hdone := h.taken i t d ht
  · simp [free] at hheld
  · exact hdone

/-- When besides nothing is left to take, no name stands for anything. -/
theorem table_empty (h : l.Valid) (free : ∀ t, l.held t = none)
    (all : l.taken.length = l.accepted.length) (d : D) : l.table d = none := by
  cases hd : l.table d with
  | none => rfl
  | some i =>
      obtain ⟨hacc, hnone⟩ := h.opened d i hd
      have hi := (List.getElem?_eq_some_iff.mp hacc).1
      have hget : l.taken[i]? = some l.taken[i] := List.getElem?_eq_getElem (all ▸ hi)
      have hone := h.closed_once free hget
      simp [hnone] at hone

end Valid

end Ledger

end UmnProjects.Handover
