import Mathlib.Data.Finset.Card
import Mathlib.Data.Fintype.Card
import Mathlib.Data.List.Count

/-!
Lists built in rounds: as long as a round is open each element is taken at most once, and
after one turn for every element of the type the next round begins.
-/
namespace UmnProjects.Rounds

variable {α : Type} [DecidableEq α] [Fintype α]

/-- What the round that is still open has taken. -/
def openRound (l : List α) : List α := l.drop (l.length / Fintype.card α * Fintype.card α)

/-- Each whole round has taken every element once, and the open one none twice. -/
structure InRounds (l : List α) : Prop where
  count : ∀ a, l.count a = l.length / Fintype.card α + (openRound l).count a
  nodup : (openRound l).Nodup

/-- No element occurs two times more often than another. -/
def Balanced (l : List α) : Prop := ∀ a b, l.count a ≤ l.count b + 1

theorem inRounds_nil : InRounds ([] : List α) := ⟨by simp [openRound], by simp [openRound]⟩

theorem InRounds.balanced {l : List α} (h : InRounds l) : Balanced l := by
  intro a b
  have hone := List.nodup_iff_count_le_one.mp h.nodup a
  rw [h.count a, h.count b]
  omega

theorem count_eq_one_of_card {l : List α} (hl : l.Nodup) (hcard : l.length = Fintype.card α)
    (a : α) : l.count a = 1 := by
  have huniv : l.toFinset = Finset.univ := by
    rw [← Finset.card_eq_iff_eq_univ, List.toFinset_card_of_nodup hl, hcard]
  have hmem : a ∈ l := by
    rw [← List.mem_toFinset, huniv]
    exact Finset.mem_univ a
  exact List.count_eq_one_of_mem hl hmem

omit [DecidableEq α] in
theorem length_openRound (l : List α) :
    (openRound l).length = l.length % Fintype.card α := by
  rw [openRound, List.length_drop]
  have hdiv := Nat.div_add_mod' l.length (Fintype.card α)
  omega

omit [DecidableEq α] in
/-- The next element goes into the open round, and may complete it. -/
theorem openRound_append (l : List α) (a : α) :
    (l.length + 1) / Fintype.card α = l.length / Fintype.card α ∧
        openRound (l ++ [a]) = openRound l ++ [a] ∨
      (l.length + 1) / Fintype.card α = l.length / Fintype.card α + 1 ∧
        openRound (l ++ [a]) = [] ∧ (openRound l ++ [a]).length = Fintype.card α := by
  have hpos : 0 < Fintype.card α := Fintype.card_pos_iff.mpr ⟨a⟩
  have hdiv := Nat.div_add_mod' l.length (Fintype.card α)
  have hmod := Nat.mod_lt l.length hpos
  by_cases hopen : l.length % Fintype.card α + 1 < Fintype.card α
  · have hsame : (l.length + 1) / Fintype.card α = l.length / Fintype.card α := by
      rw [Nat.div_eq_iff hpos]
      omega
    refine .inl ⟨hsame, ?_⟩
    rw [openRound, List.length_append, List.length_singleton, hsame,
      List.drop_append_of_le_length (by omega)]
    rfl
  · have hnext : (l.length + 1) / Fintype.card α = l.length / Fintype.card α + 1 := by
      rw [Nat.div_eq_iff hpos, Nat.add_mul]
      omega
    refine .inr ⟨hnext, ?_, ?_⟩
    · rw [openRound, List.length_append, List.length_singleton, hnext, List.drop_eq_nil_iff,
        List.length_append, List.length_singleton, Nat.add_mul]
      omega
    · rw [List.length_append, List.length_singleton, length_openRound]
      omega

theorem InRounds.append {l : List α} {a : α} (h : InRounds l) (ha : a ∉ openRound l) :
    InRounds (l ++ [a]) := by
  have hnodup : (openRound l ++ [a]).Nodup := by
    simpa [List.nodup_append, h.nodup] using fun b hb => ne_of_mem_of_not_mem hb ha
  obtain ⟨hdiv, hopen⟩ | ⟨hdiv, hopen, hcard⟩ := openRound_append l a
  · refine ⟨fun b => ?_, ?_⟩
    · rw [hopen, List.length_append, List.length_singleton, hdiv, List.count_append,
        List.count_append, h.count b, Nat.add_assoc]
    · rwa [hopen]
  · refine ⟨fun b => ?_, ?_⟩
    · have hone := count_eq_one_of_card hnodup hcard b
      rw [List.count_append] at hone
      rw [hopen, List.length_append, List.length_singleton, hdiv, List.count_append, h.count b,
        List.count_nil]
      omega
    · rw [hopen]
      exact List.nodup_nil

/-- An element taken twice in one round upsets the balance at once. -/
theorem InRounds.not_balanced_append {l : List α} {a : α} (h : InRounds l)
    (ha : a ∈ openRound l) : ¬ Balanced (l ++ [a]) := by
  intro hbalanced
  have hpos : 0 < Fintype.card α := Fintype.card_pos_iff.mpr ⟨a⟩
  -- The open round is too short to have taken every element.
  obtain ⟨b, hb⟩ : ∃ b, b ∉ openRound l := by
    by_contra hall
    have huniv : (openRound l).toFinset = Finset.univ :=
      Finset.eq_univ_iff_forall.mpr fun b =>
        List.mem_toFinset.mpr (not_not.mp (not_exists.mp hall b))
    have hcard := List.toFinset_card_of_nodup h.nodup
    rw [huniv, Finset.card_univ, length_openRound] at hcard
    have hmod := Nat.mod_lt l.length hpos
    omega
  have hab : b ≠ a := fun heq => hb (heq ▸ ha)
  have hcounts := hbalanced a b
  rw [List.count_append, List.count_append, h.count a, h.count b,
    List.count_eq_one_of_mem h.nodup ha, List.count_eq_zero_of_not_mem hb,
    List.count_singleton_self, List.count_singleton, if_neg (by simpa using hab.symm)] at hcounts
  omega

end UmnProjects.Rounds
