import Mathlib.Data.List.Basic

/-!
Histories that grow at the end, and events of one kind that must be separated by an
event of another kind.
-/
namespace UmnProjects.History

variable {E : Type} {A R : E → Prop} {l : List E}

/-- Between any two events of kind `A` there is one of kind `R`. -/
def Separated (A R : E → Prop) (l : List E) : Prop :=
  ∀ l₁ a l₂ b l₃, l = l₁ ++ a :: l₂ ++ b :: l₃ → A a → A b → ∃ r ∈ l₂, R r

/-- After every event of kind `A` there is one of kind `R`. -/
def Ready (A R : E → Prop) (l : List E) : Prop :=
  ∀ l₁ a l₂, l = l₁ ++ a :: l₂ → A a → ∃ r ∈ l₂, R r

theorem separated_nil : Separated A R [] := by
  intro l₁ a l₂ b l₃ h
  simp at h

theorem ready_nil : Ready A R [] := by
  intro l₁ a l₂ h
  simp at h

/-- An event of a grown history is the new one or lies in the old history. -/
theorem split_append {n a : E} {l₁ l₂ : List E} (h : l ++ [n] = l₁ ++ a :: l₂) :
    (l₂ = [] ∧ a = n ∧ l = l₁) ∨ ∃ l₂', l₂ = l₂' ++ [n] ∧ l = l₁ ++ a :: l₂' := by
  obtain h₂ | ⟨l₂', m, h₂⟩ := List.eq_nil_or_concat l₂
  · subst h₂
    have hparts := List.append_inj' h rfl
    exact .inl ⟨rfl, (List.cons.inj hparts.2).1.symm, hparts.1⟩
  · subst h₂
    rw [List.concat_eq_append, ← List.cons_append, ← List.append_assoc] at h
    have hparts := List.append_inj' h rfl
    have hm : n = m := (List.cons.inj hparts.2).1
    exact .inr ⟨l₂', by rw [hm, List.concat_eq_append], hparts.1⟩

theorem Ready.append (h : Ready A R l) {n : E} (hn : ¬ A n) : Ready A R (l ++ [n]) := by
  intro l₁ a l₂ heq ha
  obtain ⟨_, han, _⟩ | ⟨l₂', h₂, hl⟩ := split_append heq
  · exact absurd (han ▸ ha) hn
  · obtain ⟨r, hr, hR⟩ := h l₁ a l₂' hl ha
    exact ⟨r, by simp [h₂, hr], hR⟩

theorem Separated.append_other (h : Separated A R l) {n : E} (hn : ¬ A n) :
    Separated A R (l ++ [n]) := by
  intro l₁ a l₂ b l₃ heq ha hb
  obtain ⟨_, hbn, _⟩ | ⟨l₃', _, hl⟩ := split_append heq
  · exact absurd (hbn ▸ hb) hn
  · exact h l₁ a l₂ b l₃' hl ha hb

/-- An event of kind `A` may be added once the history is ready for it. -/
theorem Separated.append (h : Separated A R l) (ready : Ready A R l) (n : E) :
    Separated A R (l ++ [n]) := by
  intro l₁ a l₂ b l₃ heq ha hb
  obtain ⟨_, _, hl⟩ | ⟨l₃', _, hl⟩ := split_append heq
  · exact ready l₁ a l₂ hl ha
  · exact h l₁ a l₂ b l₃' hl ha hb

theorem Ready.append_list (h : Ready A R l) {ns : List E} (hns : ∀ n ∈ ns, ¬ A n) :
    Ready A R (l ++ ns) := by
  induction ns generalizing l with
  | nil => simpa using h
  | cons n ns ih =>
      have hstep := ih (h.append (hns n List.mem_cons_self))
        (fun m hm => hns m (List.mem_cons_of_mem _ hm))
      simpa using hstep

theorem Separated.append_list (h : Separated A R l) {ns : List E} (hns : ∀ n ∈ ns, ¬ A n) :
    Separated A R (l ++ ns) := by
  induction ns generalizing l with
  | nil => simpa using h
  | cons n ns ih =>
      have hstep := ih (h.append_other (hns n List.mem_cons_self))
        (fun m hm => hns m (List.mem_cons_of_mem _ hm))
      simpa using hstep

/-! ### What every event finds before it -/

/-- Every event stands in the relation to the history before it. -/
def Always (P : List E → E → Prop) (l : List E) : Prop :=
  ∀ l₁ a l₂, l = l₁ ++ a :: l₂ → P l₁ a

theorem always_nil {P : List E → E → Prop} : Always P [] := by
  intro l₁ a l₂ h
  simp at h

theorem Always.append {P : List E → E → Prop} (h : Always P l) {n : E} (hn : P l n) :
    Always P (l ++ [n]) := by
  intro l₁ a l₂ heq
  obtain ⟨_, han, hl⟩ | ⟨l₂', _, hl⟩ := split_append heq
  · rw [han, ← hl]
    exact hn
  · exact h l₁ a l₂' hl

theorem Always.append_list {P : List E → E → Prop} (h : Always P l) {ns : List E}
    (hns : ∀ n ∈ ns, ∀ l, P l n) : Always P (l ++ ns) := by
  induction ns generalizing l with
  | nil => simpa using h
  | cons n ns ih =>
      have hstep := ih (h.append (hns n List.mem_cons_self l))
        (fun m hm => hns m (List.mem_cons_of_mem _ hm))
      simpa using hstep

/-! ### The latest of what a history says -/

section Latest

variable {V : Type} {f : E → Option V}

def latest (f : E → Option V) (l : List E) : Option V :=
  l.reverse.findSome? f

theorem latest_append_some (l : List E) {n : E} {v : V} (h : f n = some v) :
    latest f (l ++ [n]) = some v := by
  simp [latest, h]

theorem latest_append (l l' : List E) : latest f (l ++ l') = (latest f l').or (latest f l) := by
  rw [latest, List.reverse_append, List.findSome?_append]
  rfl

theorem latest_cons (n : E) (l : List E) : latest f (n :: l) = (latest f l).or (f n) := by
  rw [latest, latest, List.reverse_cons, List.findSome?_append]
  congr 1
  cases h : f n <;> simp [h]

theorem latest_congr {g : E → Option V} (h : ∀ n ∈ l, f n = g n) : latest f l = latest g l := by
  induction l with
  | nil => rfl
  | cons n l ih =>
      obtain ⟨hn, hl⟩ := List.forall_mem_cons.mp h
      rw [latest_cons, latest_cons, hn, ih hl]

/-- What says nothing of the matter changes nothing. -/
theorem latest_append_quiet {ns : List E} (h : ∀ n ∈ ns, f n = none) :
    latest f (l ++ ns) = latest f l := by
  have quiet : ns.reverse.findSome? f = none := by
    apply List.findSome?_eq_none_iff.mpr
    intro n hn
    exact h n (List.mem_reverse.mp hn)
  simp [latest, List.findSome?_append, quiet]

theorem latest_of_mem {n : E} (hn : n ∈ l) (h : f n ≠ none) : ∃ v, latest f l = some v := by
  apply Option.ne_none_iff_exists'.mp
  intro hnone
  exact h (List.findSome?_eq_none_iff.mp hnone n (List.mem_reverse.mpr hn))

/-- The latest word is said somewhere and not revoked later. -/
theorem latest_eq_some {v : V} (h : latest f l = some v) :
    ∃ l₁ n l₂, l = l₁ ++ n :: l₂ ∧ f n = some v ∧ ∀ m ∈ l₂, f m = none := by
  obtain ⟨l₁, n, l₂, hl, hn, hquiet⟩ := List.findSome?_eq_some_iff.mp h
  refine ⟨l₂.reverse, n, l₁.reverse, ?_, hn, ?_⟩
  · have hrev := congrArg List.reverse hl
    simpa using hrev
  · intro m hm
    exact hquiet m (List.mem_reverse.mp hm)

end Latest

end UmnProjects.History
