import Mathlib.Data.List.Basic
import Mathlib.Data.List.TakeWhile

/-!
Tokens: the longest stretches of a text without blanks, over any alphabet. The second token of
a text, and what is left of it in a text that is cut off.
-/
namespace UmnProjects.Tokens

/-! ### Stretches -/

section Stretches

variable {A : Type} {p : A → Bool} {xs ys : List A}

theorem head_dropWhile {a : A} (h : (xs.dropWhile p).head? = some a) : p a = false := by
  have hnot := List.head?_dropWhile_not p xs
  rw [h] at hnot
  exact hnot

theorem dropWhile_stretch (hxs : ∀ a ∈ xs, p a = true)
    (hys : ∀ a, ys.head? = some a → p a = false) : (xs ++ ys).dropWhile p = ys := by
  rw [List.dropWhile_append_of_pos hxs]
  cases ys with
  | nil => rfl
  | cons a ys => rw [List.dropWhile_cons_of_neg (ne_true_of_eq_false (hys a rfl))]

theorem takeWhile_stretch (hxs : ∀ a ∈ xs, p a = true)
    (hys : ∀ a, ys.head? = some a → p a = false) : (xs ++ ys).takeWhile p = xs := by
  rw [List.takeWhile_append_of_pos hxs]
  cases ys with
  | nil => exact List.append_nil xs
  | cons a ys =>
      rw [List.takeWhile_cons_of_neg (ne_true_of_eq_false (hys a rfl)), List.append_nil]

/-- Every place in a list is its first or one of the rest. -/
theorem forall_place_cons {P : List A → A → List A → Prop} {first : A} {rest : List A} :
    (∀ before a after, first :: rest = before ++ a :: after → P before a after) ↔
      P [] first rest ∧
        ∀ before a after, rest = before ++ a :: after → P (first :: before) a after := by
  constructor
  · intro h
    refine ⟨h [] first rest rfl, ?_⟩
    intro before a after hrest
    exact h (first :: before) a after (by rw [hrest, List.cons_append])
  · intro h before a after hsplit
    cases before with
    | nil =>
        cases hsplit
        exact h.1
    | cons b before =>
        cases hsplit
        exact h.2 before a after rfl

end Stretches

/-! ### The second token -/

variable {A : Type} {blank : A} {text shown before token : List A}

/-- The second token of the text, and what is before it. -/
structure IsSecond (blank : A) (text before token : List A) : Prop where
  start : ∃ blanks first gap, before = blanks ++ (first ++ gap) ∧ (∀ a ∈ blanks, a = blank) ∧
    first ≠ [] ∧ blank ∉ first ∧ gap ≠ [] ∧ ∀ a ∈ gap, a = blank
  token_ne_nil : token ≠ []
  not_mem_token : blank ∉ token
  stop : ∃ after, text = before ++ (token ++ after) ∧ ∀ a, after.head? = some a → a = blank

/-- A second token that is shown completely. -/
theorem IsSecond.of_shown (h : IsSecond blank text before token) (hshown : shown <+: text)
    (htoken : (before ++ token).length ≤ shown.length) : IsSecond blank shown before token where
  start := h.start
  token_ne_nil := h.token_ne_nil
  not_mem_token := h.not_mem_token
  stop := by
    obtain ⟨after, htext, hafter⟩ := h.stop
    have hinside : before ++ token <+: text := by
      rw [htext, ← List.append_assoc]
      exact List.prefix_append _ _
    obtain ⟨rest, rfl⟩ := List.prefix_of_prefix_length_le hinside hshown htoken
    obtain ⟨more, hmore⟩ := hshown
    refine ⟨rest, List.append_assoc _ _ _, fun a ha => hafter a ?_⟩
    rw [htext, List.append_assoc, List.append_assoc, List.append_cancel_left_eq,
      List.append_cancel_left_eq] at hmore
    rw [← hmore, List.head?_append, ha]
    rfl

variable [DecidableEq A]

/-- What follows the first token and the blanks behind it. -/
def skipFirst (blank : A) (text : List A) : List A :=
  ((text.dropWhile (· == blank)).dropWhile (· != blank)).dropWhile (· == blank)

theorem ne_of_head_append {xs ys : List A} (hne : xs ≠ []) (h : blank ∉ xs) (a : A)
    (hhead : (xs ++ ys).head? = some a) : (a == blank) = false := by
  rw [List.head?_append_of_ne_nil _ hne] at hhead
  rw [beq_eq_false_iff_ne]
  intro heq
  exact h (heq ▸ List.mem_of_head? hhead)

theorem eq_of_head_append {xs ys : List A} (hne : xs ≠ []) (h : ∀ b ∈ xs, b = blank) (a : A)
    (hhead : (xs ++ ys).head? = some a) : (a != blank) = false := by
  rw [List.head?_append_of_ne_nil _ hne] at hhead
  rw [h a (List.mem_of_head? hhead)]
  exact bne_self_eq_false blank

theorem bne_of_not_mem {xs : List A} (h : blank ∉ xs) : ∀ a ∈ xs, (a != blank) = true := by
  intro a ha
  rw [bne_iff_ne]
  intro heq
  exact h (heq ▸ ha)

theorem beq_of_forall_eq {xs : List A} (h : ∀ a ∈ xs, a = blank) :
    ∀ a ∈ xs, (a == blank) = true := by
  intro a ha
  rw [h a ha]
  exact beq_self_eq_true blank

theorem IsSecond.skipFirst (h : IsSecond blank text before token) :
    before ++ skipFirst blank text = text ∧
      (skipFirst blank text).takeWhile (· != blank) = token := by
  obtain ⟨blanks, first, gap, rfl, hblanks, hfirst, hnot, hgap, hgaps⟩ := h.start
  obtain ⟨after, rfl, hafter⟩ := h.stop
  have hskip : Tokens.skipFirst blank (blanks ++ (first ++ gap) ++ (token ++ after)) =
      token ++ after := by
    rw [Tokens.skipFirst, List.append_assoc, List.append_assoc,
      dropWhile_stretch (beq_of_forall_eq hblanks) (ne_of_head_append hfirst hnot),
      dropWhile_stretch (bne_of_not_mem hnot) (eq_of_head_append hgap hgaps),
      dropWhile_stretch (beq_of_forall_eq hgaps)
        (ne_of_head_append h.token_ne_nil h.not_mem_token)]
  rw [hskip]
  refine ⟨rfl, takeWhile_stretch (bne_of_not_mem h.not_mem_token) ?_⟩
  intro a ha
  rw [hafter a ha]
  exact bne_self_eq_false blank

theorem isSecond_skipFirst (h : (skipFirst blank text).takeWhile (· != blank) ≠ []) :
    ∃ before, IsSecond blank text before ((skipFirst blank text).takeWhile (· != blank)) := by
  have hblanks : text.takeWhile (· == blank) ++ text.dropWhile (· == blank) = text :=
    List.takeWhile_append_dropWhile
  generalize hfromFirst : text.dropWhile (· == blank) = fromFirst at hblanks
  have hfirst : fromFirst.takeWhile (· != blank) ++ fromFirst.dropWhile (· != blank) = fromFirst :=
    List.takeWhile_append_dropWhile
  generalize hfromGap : fromFirst.dropWhile (· != blank) = fromGap at hfirst
  have hgap : fromGap.takeWhile (· == blank) ++ fromGap.dropWhile (· == blank) = fromGap :=
    List.takeWhile_append_dropWhile
  have hskip : skipFirst blank text = fromGap.dropWhile (· == blank) := by
    rw [skipFirst, hfromFirst, hfromGap]
  rw [hskip] at h ⊢
  have hfromGapNe : fromGap ≠ [] := by
    intro hnil
    rw [hnil] at h
    exact h rfl
  obtain ⟨g, gs, rfl⟩ := List.exists_cons_of_ne_nil hfromGapNe
  have hg : g = blank := by
    have hhead : (fromFirst.dropWhile (· != blank)).head? = some g := by rw [hfromGap]; rfl
    simpa using head_dropWhile hhead
  have hfromFirstNe : fromFirst ≠ [] := by
    intro hnil
    rw [hnil] at hfromGap
    cases hfromGap
  obtain ⟨f, fs, rfl⟩ := List.exists_cons_of_ne_nil hfromFirstNe
  have hf : f ≠ blank := by
    have hhead : (text.dropWhile (· == blank)).head? = some f := by rw [hfromFirst]; rfl
    simpa using head_dropWhile hhead
  refine ⟨text.takeWhile (· == blank) ++ ((f :: fs).takeWhile (· != blank) ++
    (g :: gs).takeWhile (· == blank)), ⟨_, _, _, rfl, ?_, ?_, ?_, ?_, ?_⟩, h, ?_,
    ((g :: gs).dropWhile (· == blank)).dropWhile (· != blank), ?_, ?_⟩
  · intro a ha
    simpa using List.mem_takeWhile_imp ha
  · simp [hf]
  · intro hmem
    simpa using List.mem_takeWhile_imp hmem
  · simp [hg]
  · intro a ha
    simpa using List.mem_takeWhile_imp ha
  · intro hmem
    simpa using List.mem_takeWhile_imp hmem
  · rw [List.takeWhile_append_dropWhile, List.append_assoc, List.append_assoc, hgap, hfirst,
      hblanks]
  · intro a ha
    simpa using head_dropWhile ha

/-- A text has one second token. -/
theorem IsSecond.unique {before' token' : List A} (h : IsSecond blank text before token)
    (h' : IsSecond blank text before' token') : before = before' ∧ token = token' := by
  obtain ⟨htext, htoken⟩ := h.skipFirst
  obtain ⟨htext', htoken'⟩ := h'.skipFirst
  refine ⟨?_, htoken.symm.trans htoken'⟩
  exact List.append_cancel_right (htext.trans htext'.symm)

/-- What is shown of a second token begins where the token begins. -/
theorem IsSecond.of_cut (h : IsSecond blank shown before token) (hshown : shown <+: text) :
    ∃ token', IsSecond blank text before token' := by
  obtain ⟨after, hsplit, hafter⟩ := h.stop
  obtain ⟨more, rfl⟩ := hshown
  cases after with
  | nil =>
      refine ⟨token ++ more.takeWhile (· != blank), h.start, ?_, ?_,
        more.dropWhile (· != blank), ?_, ?_⟩
      · exact List.append_ne_nil_of_left_ne_nil h.token_ne_nil _
      · intro hmem
        obtain hmem | hmem := List.mem_append.mp hmem
        · exact h.not_mem_token hmem
        · simpa using List.mem_takeWhile_imp hmem
      · rw [hsplit, List.append_nil, List.append_assoc, List.append_assoc,
          List.takeWhile_append_dropWhile]
      · intro a ha
        simpa using head_dropWhile ha
  | cons a after =>
      refine ⟨token, h.start, h.token_ne_nil, h.not_mem_token, a :: after ++ more, ?_, ?_⟩
      · rw [hsplit, List.append_assoc, List.append_assoc]
      · intro b hb
        exact hafter b hb

end UmnProjects.Tokens
