import UmnProjects.Foundations.Text

/-!
Texts made of words with a blank between them, over any alphabet: where a word that has no
blank in it occurs in such a text, and splitting the text at a word between two blanks.
-/
namespace UmnProjects.Text

variable {A : Type} {blank : A} {word text before after : List A}

/-! ### Occurrences -/

theorem prefix_of_prefix_append_cons (hblank : blank ∉ word)
    (h : word <+: before ++ blank :: after) : word <+: before := by
  induction before generalizing word with
  | nil =>
      cases word with
      | nil => exact List.prefix_rfl
      | cons c cs =>
          have hhead : c = blank := (List.cons_prefix_cons.mp h).1
          exact absurd (hhead ▸ List.mem_cons_self) hblank
  | cons d before ih =>
      cases word with
      | nil => exact List.nil_prefix
      | cons c cs =>
          obtain ⟨hhead, htail⟩ := List.cons_prefix_cons.mp h
          have hrest : blank ∉ cs := fun hmem => hblank (List.mem_cons_of_mem c hmem)
          exact List.cons_prefix_cons.mpr ⟨hhead, ih hrest htail⟩

/-- A word occurs on one side of a blank or on the other. -/
theorem infix_append_cons_iff (hblank : blank ∉ word) (hword : word ≠ []) :
    word <:+: before ++ blank :: after ↔ word <:+: before ∨ word <:+: after := by
  constructor
  · intro h
    induction before with
    | nil =>
        obtain hstart | hinside := List.infix_cons_iff.mp h
        · have hnil : word <+: [] := prefix_of_prefix_append_cons hblank hstart
          exact absurd (List.prefix_nil.mp hnil) hword
        · exact .inr hinside
    | cons c before ih =>
        obtain hstart | hinside := List.infix_cons_iff.mp h
        · have hbefore : word <+: c :: before := prefix_of_prefix_append_cons hblank hstart
          exact .inl hbefore.isInfix
        · obtain hbefore | hafter := ih hinside
          · exact .inl (List.infix_cons hbefore)
          · exact .inr hafter
  · intro h
    obtain hbefore | hafter := h
    · exact hbefore.trans (List.prefix_append _ _).isInfix
    · exact hafter.trans ((List.suffix_cons _ _).trans (List.suffix_append _ _)).isInfix

/-- The word with a blank before and after it. -/
def spaced (blank : A) (word : List A) : List A := blank :: word ++ [blank]

theorem append_spaced (blank : A) (word before after : List A) :
    before ++ spaced blank word ++ after = before ++ blank :: (word ++ blank :: after) := by
  simp [spaced]

theorem infix_spaced (blank : A) (word : List A) : word <:+: spaced blank word :=
  ⟨[blank], [blank], rfl⟩

theorem not_infix_spaced (h : ¬ word <:+: text) : ¬ spaced blank word <:+: text :=
  fun hinside => h ((infix_spaced blank word).trans hinside)

theorem infix_append_spaced_iff {middle : List A} (hblank : blank ∉ word) (hword : word ≠ []) :
    word <:+: before ++ spaced blank middle ++ after ↔
      word <:+: before ∨ word <:+: middle ∨ word <:+: after := by
  rw [append_spaced, infix_append_cons_iff hblank hword, infix_append_cons_iff hblank hword]

/-! ### Separators -/

variable [DecidableEq A] {separator : List A}

theorem breakOn_eq_none_iff : breakOn separator text = none ↔ ¬ separator <:+: text := by
  induction text with
  | nil => simp [breakOn, List.infix_nil]
  | cons c text ih =>
      rw [breakOn, List.infix_cons_iff]
      by_cases hstart : separator <+: c :: text
      · simp [hstart]
      · simp [hstart, ih]

theorem contains_iff : contains separator text = true ↔ separator <:+: text := by
  rw [contains, Option.isSome_iff_ne_none, Ne, breakOn_eq_none_iff, not_not]

theorem contains_eq_false (h : ¬ separator <:+: text) : contains separator text = false := by
  rw [← Bool.not_eq_true, contains_iff]
  exact h

theorem breakOn_append (separator after : List A) :
    breakOn separator (separator ++ after) = some ([], after) := by
  cases hsep : separator ++ after with
  | nil =>
      obtain ⟨rfl, rfl⟩ := List.append_eq_nil_iff.mp hsep
      rfl
  | cons c text =>
      have hstart : separator <+: c :: text := hsep ▸ List.prefix_append separator after
      rw [breakOn, if_pos hstart, ← hsep, List.drop_left]

theorem replaceFirst_append (separator replacement after : List A) :
    replaceFirst separator replacement (separator ++ after) = replacement ++ after := by
  simp [replaceFirst, breakOn_append]

/-- A text breaks at the first blanks with the word between them. -/
theorem breakOn_spaced (after : List A) (hblank : blank ∉ word) (h : ¬ word <:+: before) :
    breakOn (spaced blank word) (before ++ spaced blank word ++ after) = some (before, after) := by
  induction before with
  | nil => exact breakOn_append _ _
  | cons c before ih =>
      have hrest : ¬ word <:+: before := fun hinside => h (List.infix_cons hinside)
      have hnot : ¬ spaced blank word <+: c :: (before ++ spaced blank word ++ after) := by
        intro hstart
        have htail : word ++ [blank] <+: before ++ spaced blank word ++ after :=
          (List.cons_prefix_cons.mp hstart).2
        rw [append_spaced] at htail
        have hword := (List.prefix_append word [blank]).trans htail
        exact hrest (prefix_of_prefix_append_cons hblank hword).isInfix
      have hcons : c :: before ++ spaced blank word ++ after =
          c :: (before ++ spaced blank word ++ after) := rfl
      rw [hcons, breakOn, if_neg hnot, ih hrest]
      rfl

theorem split_eq_rdropWhile (h : breakOn separator text = some (before, after))
    (hsep : separator ≠ []) :
    ∃ cuts, split separator text =
      (before :: splitLimit separator cuts after).rdropWhile List.isEmpty := by
  have hpos : 0 < text.length := by
    have hlength := congrArg List.length (eq_append_of_breakOn h)
    have hseparator := List.length_pos_iff.mpr hsep
    simp only [List.length_append] at hlength
    omega
  obtain ⟨cuts, hcuts⟩ := Nat.exists_eq_succ_of_ne_zero hpos.ne'
  have hcontains : contains separator text = true := by rw [contains, h]; rfl
  refine ⟨cuts, ?_⟩
  rw [split, if_pos hcontains, hcuts, splitLimit, h]
  rfl

/-- A text that breaks once is split into the two parts, of which an empty second one is
dropped. -/
theorem split_of_breakOn (h : breakOn separator text = some (before, after))
    (hsep : separator ≠ []) (honce : ¬ separator <:+: after) :
    split separator text = [before, after].rdropWhile List.isEmpty := by
  obtain ⟨cuts, hsplit⟩ := split_eq_rdropWhile h hsep
  have hlast : splitLimit separator cuts after = [after] := by
    cases cuts with
    | zero => rfl
    | succ cuts => rw [splitLimit, breakOn_eq_none_iff.mpr honce]
  rw [hsplit, hlast]

theorem split_of_breakOn_of_ne_nil (h : breakOn separator text = some (before, after))
    (hsep : separator ≠ []) (honce : ¬ separator <:+: after) (hafter : after ≠ []) :
    split separator text = [before, after] := by
  rw [split_of_breakOn h hsep honce]
  exact List.rdropWhile_concat_neg _ [before] after (by simpa using hafter)

theorem length_split_of_breakOn_nil (h : breakOn separator text = some (before, []))
    (hsep : separator ≠ []) : (split separator text).length ≤ 1 := by
  have honce : ¬ separator <:+: [] := fun hinside => hsep (List.infix_nil.mp hinside)
  have hdrop : [before, []].rdropWhile List.isEmpty = [before].rdropWhile List.isEmpty :=
    List.rdropWhile_concat_pos _ [before] [] rfl
  rw [split_of_breakOn h hsep honce, hdrop]
  exact (List.rdropWhile_prefix List.isEmpty [before]).length_le

/-- A text is split at the blanks with the word between them when the word is on neither side. -/
theorem split_append_spaced (hblank : blank ∉ word) (hbefore : ¬ word <:+: before)
    (hafter : ¬ word <:+: after) (hne : after ≠ []) :
    split (spaced blank word) (before ++ spaced blank word ++ after) = [before, after] :=
  split_of_breakOn_of_ne_nil (breakOn_spaced after hblank hbefore) (by simp [spaced])
    (not_infix_spaced hafter) hne

/-- The first of several parts is shorter than the text. -/
theorem length_lt_of_split {rest : List (List A)} (hsep : separator ≠ []) (hrest : rest ≠ [])
    (h : split separator text = before :: rest) : before.length < text.length := by
  cases hbreak : breakOn separator text with
  | none =>
      have hcontains : ¬ contains separator text = true := by simp [contains, hbreak]
      rw [split, if_neg hcontains] at h
      exact absurd (List.cons.inj h).2.symm hrest
  | some parts =>
      obtain ⟨cuts, hsplit⟩ := split_eq_rdropWhile hbreak hsep
      have hstart : before :: rest <+: parts.1 :: splitLimit separator cuts parts.2 := by
        rw [← h, hsplit]
        exact List.rdropWhile_prefix _ _
      have hhead : before = parts.1 := (List.cons_prefix_cons.mp hstart).1
      have hlength := congrArg List.length (eq_append_of_breakOn hbreak)
      have hseparator := List.length_pos_iff.mpr hsep
      simp only [List.length_append] at hlength
      rw [hhead]
      omega

example : split (spaced ' ' "AND".toList) "on AND off".toList = ["on".toList, "off".toList] := by
  decide

end UmnProjects.Text
