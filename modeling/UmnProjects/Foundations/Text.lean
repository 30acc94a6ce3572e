import Mathlib.Data.List.DropRight
import Mathlib.Data.List.Infix
import UmnProjects.Foundations.Segments

/-!
Texts as lists of characters: the first occurrence of a separator, replacing it, and
splitting a text at the occurrences of a separator or at the ends of its lines.
-/
namespace UmnProjects.Text

section Separators

variable {A : Type} [DecidableEq A] {separator text before after : List A}

/-- What stands before and after the first occurrence of the separator. -/
def breakOn (separator : List A) : List A → Option (List A × List A)
  | [] => if separator = [] then some ([], []) else none
  | c :: cs =>
      if separator <+: c :: cs then some ([], (c :: cs).drop separator.length)
      else (breakOn separator cs).map fun parts => (c :: parts.1, parts.2)

def contains (separator text : List A) : Bool := (breakOn separator text).isSome

/-- The text with the first occurrence of the separator replaced. -/
def replaceFirst (separator replacement text : List A) : List A :=
  match breakOn separator text with
  | none => text
  | some (before, after) => before ++ replacement ++ after

/-- The parts of the text between the first `cuts` occurrences of the separator. -/
def splitLimit (separator : List A) : Nat → List A → List (List A)
  | 0, text => [text]
  | cuts + 1, text =>
      match breakOn separator text with
      | none => [text]
      | some (before, after) => before :: splitLimit separator cuts after

/-- The parts of the text between all occurrences of the separator, without the empty
parts at the end; a text in which the separator does not occur is its own only part. -/
def split (separator text : List A) : List (List A) :=
  if contains separator text then
    ((splitLimit separator text.length text).reverse.dropWhile List.isEmpty).reverse
  else [text]

theorem eq_append_of_breakOn (h : breakOn separator text = some (before, after)) :
    text = before ++ separator ++ after := by
  induction text generalizing before with
  | nil =>
      simp only [breakOn] at h
      split at h
      · next hs =>
          cases h
          simp [hs]
      · cases h
  | cons c cs ih =>
      simp only [breakOn] at h
      split at h
      · next hs =>
          cases h
          exact (List.prefix_iff_eq_append.mp hs).symm
      · obtain ⟨parts, hp, heq⟩ := Option.map_eq_some_iff.mp h
        cases heq
        rw [ih hp]
        rfl

theorem contains_of_startsWith (h : separator <+: text) : contains separator text = true := by
  cases text with
  | nil => simp [contains, breakOn, List.prefix_nil.mp h]
  | cons c cs => simp [contains, breakOn, h]

theorem length_replaceFirst (replacement : List A) (h : contains separator text = true) :
    (replaceFirst separator replacement text).length + separator.length =
      text.length + replacement.length := by
  obtain ⟨parts, hp⟩ := Option.isSome_iff_exists.mp h
  have htext := eq_append_of_breakOn hp
  have hlen := congrArg List.length htext
  simp only [List.length_append] at hlen
  simp only [replaceFirst, hp, List.length_append]
  omega

theorem length_replaceFirst_nil_le (separator text : List A) :
    (replaceFirst separator [] text).length ≤ text.length := by
  cases h : contains separator text with
  | true =>
      have hlen := length_replaceFirst [] h
      simp only [List.length_nil] at hlen
      omega
  | false =>
      have hnone : breakOn separator text = none := by simpa [contains] using h
      simp [replaceFirst, hnone]

/-! ### Separators of one element -/

section Singleton

variable {a : A}

theorem breakOn_of_not_mem (h : a ∉ text) : breakOn [a] text = none := by
  induction text with
  | nil => rfl
  | cons c cs ih =>
      have hne : a ≠ c := fun heq => h (heq ▸ List.mem_cons_self)
      have hrest := ih fun hmem => h (List.mem_cons_of_mem c hmem)
      simp [breakOn, List.cons_prefix_cons, hne, hrest]

theorem breakOn_append_cons (after : List A) (h : a ∉ before) :
    breakOn [a] (before ++ a :: after) = some (before, after) := by
  induction before with
  | nil => simp [breakOn]
  | cons c cs ih =>
      have hne : a ≠ c := fun heq => h (heq ▸ List.mem_cons_self)
      have hrest := ih fun hmem => h (List.mem_cons_of_mem c hmem)
      simp [breakOn, List.cons_prefix_cons, hne, hrest]

theorem contains_singleton_iff : contains [a] text = true ↔ a ∈ text := by
  constructor
  · intro h
    obtain ⟨parts, hparts⟩ := Option.isSome_iff_exists.mp h
    rw [eq_append_of_breakOn hparts]
    simp
  · intro h
    obtain ⟨before, after, htext, hbefore⟩ := List.eq_append_cons_of_mem h
    simp [contains, htext, breakOn_append_cons after hbefore]

/-- With cuts enough for every occurrence. -/
theorem splitLimit_singleton {cuts : Nat} (h : text.count a ≤ cuts) :
    splitLimit [a] cuts text = text.splitOn a := by
  induction cuts generalizing text with
  | zero =>
      have hnot : a ∉ text := List.count_eq_zero.mp (Nat.le_zero.mp h)
      rw [splitLimit, List.splitOn_eq_singleton hnot]
  | succ cuts ih =>
      by_cases hmem : a ∈ text
      · obtain ⟨before, after, htext, hbefore⟩ := List.eq_append_cons_of_mem hmem
        have hcount : after.count a ≤ cuts := by
          rw [htext, List.count_append, List.count_cons_self] at h
          omega
        rw [htext, splitLimit, breakOn_append_cons after hbefore,
          List.splitOn_append_cons_self, List.splitOn_eq_singleton hbefore]
        simp [ih hcount]
      · rw [splitLimit, breakOn_of_not_mem hmem, List.splitOn_eq_singleton hmem]

theorem split_of_not_mem (h : a ∉ text) : split [a] text = [text] := by
  have hnot : ¬ contains [a] text = true := fun hcontains => h (contains_singleton_iff.mp hcontains)
  rw [split, if_neg hnot]

theorem split_of_mem (h : a ∈ text) :
    split [a] text = (text.splitOn a).rdropWhile List.isEmpty := by
  rw [split, if_pos (contains_singleton_iff.mpr h), splitLimit_singleton List.count_le_length]
  rfl

/-- A text that does not end in an empty part is split into all its parts. -/
theorem split_of_getLast (h : a ∈ text) (hlast : (text.splitOn a).getLast? ≠ some []) :
    split [a] text = text.splitOn a := by
  rw [split_of_mem h, List.rdropWhile_eq_self_iff]
  intro hne hempty
  refine hlast ?_
  rw [List.getLast?_eq_some_getLast hne, List.isEmpty_iff.mp hempty]

/-- The last part is not empty. -/
theorem getLast?_split_of_mem (h : a ∈ text) : (split [a] text).getLast? ≠ some [] := by
  rw [split_of_mem h]
  intro hlast
  have hne : (text.splitOn a).rdropWhile List.isEmpty ≠ [] := by
    intro hnil
    rw [hnil] at hlast
    cases hlast
  rw [List.getLast?_eq_some_getLast hne] at hlast
  refine List.rdropWhile_last_not _ _ hne ?_
  rw [Option.some.inj hlast]
  rfl

theorem sublist_of_mem_split {part : List A} (h : part ∈ split [a] text) : part.Sublist text := by
  by_cases hmem : a ∈ text
  · rw [split_of_mem hmem] at h
    exact Segments.sublist_of_mem_splitOn ((List.rdropWhile_prefix _ _).subset h)
  · rw [split_of_not_mem hmem, List.mem_singleton] at h
    exact h ▸ List.Sublist.refl _

/-- The separator is in no part. -/
theorem not_mem_of_mem_split {part : List A} (h : part ∈ split [a] text) : a ∉ part := by
  by_cases hmem : a ∈ text
  · rw [split_of_mem hmem] at h
    exact Segments.not_mem_of_mem_splitOn ((List.rdropWhile_prefix _ _).subset h)
  · rw [split_of_not_mem hmem, List.mem_singleton] at h
    rw [h]
    exact hmem

end Singleton

end Separators

/-- The lines of a text, each ended by a line feed, a carriage return, or the two in this
order, or by the end of the text. -/
def lines : List Char → List (List Char)
  | [] => []
  | '\n' :: text => [] :: lines text
  | '\r' :: '\n' :: text => [] :: lines text
  | '\r' :: text => [] :: lines text
  | c :: text =>
      match lines text with
      | [] => [[c]]
      | line :: rest => (c :: line) :: rest

/-- A line is read up to its line feed. -/
theorem lines_append_cons {line : List Char} (text : List Char)
    (h : ∀ c ∈ line, c ≠ '\n' ∧ c ≠ '\r') : lines (line ++ '\n' :: text) = line :: lines text := by
  induction line with
  | nil => rfl
  | cons c cs ih =>
      obtain ⟨⟨hfeed, hreturn⟩, hcs⟩ := List.forall_mem_cons.mp h
      rw [List.cons_append, lines]
      · rw [ih hcs]
      · exact hfeed
      · intro rest heq
        exact absurd heq hreturn
      · exact hreturn

theorem eq_nil_of_lines {text : List Char} (h : lines text = []) : text = [] := by
  induction text using lines.induct with
  | case1 => rfl
  | case2 text ih => simp [lines] at h
  | case3 text ih => simp [lines] at h
  | case4 text hnot ih =>
      rw [lines] at h
      · cases h
      · exact hnot
  | case5 c text hfeed hpair hreturn hnil ih => simp [lines, hnil] at h
  | case6 c text hfeed hpair hreturn first rest hlines ih => simp [lines, hlines] at h

/-- The text is empty or ends in a line feed. -/
def Ended (text : List Char) : Prop := text = [] ∨ text.getLast? = some '\n'

theorem ended_of_cons {c : Char} {text : List Char} (h : Ended (c :: text))
    (hc : c = '\n' ∨ text ≠ []) : Ended text := by
  cases text with
  | nil => exact .inl rfl
  | cons d text =>
      obtain hnil | hlast := h
      · cases hnil
      · exact .inr (by simpa using hlast)

/-- A text that ends in a line feed keeps its lines when it is continued. -/
theorem lines_append {old : List Char} (text : List Char) (h : Ended old) :
    lines (old ++ text) = lines old ++ lines text := by
  induction old using lines.induct with
  | case1 => rfl
  | case2 old ih =>
      have hrest := ih (ended_of_cons h (.inl rfl))
      simpa [lines] using hrest
  | case3 old ih =>
      have hrest := ih (ended_of_cons (ended_of_cons h (.inr (by simp))) (.inl rfl))
      simpa [lines] using hrest
  | case4 old hnot ih =>
      cases old with
      | nil => simp [Ended] at h
      | cons c old =>
          have hfeed : c ≠ '\n' := fun heq => hnot old (heq ▸ rfl)
          have hrest := ih (ended_of_cons h (.inr (by simp)))
          have hleft : lines ('\r' :: c :: old) = [] :: lines (c :: old) := by
            rw [lines]
            intro rest heq
            exact hfeed (List.cons.inj heq).1
          have hright : lines ('\r' :: c :: (old ++ text)) = [] :: lines (c :: (old ++ text)) := by
            rw [lines]
            intro rest heq
            exact hfeed (List.cons.inj heq).1
          rw [List.cons_append, List.cons_append, hright, hleft, ← List.cons_append, hrest]
          rfl
  | case5 c old hfeed hpair hreturn hnil ih =>
      have hold : old = [] := eq_nil_of_lines hnil
      rw [hold, Ended] at h
      exact absurd (by simpa using h) hfeed
  | case6 c old hfeed hpair hreturn first rest hlines ih =>
      have hne : old ≠ [] := by
        intro hold
        rw [hold] at hlines
        cases hlines
      have hrest := ih (ended_of_cons h (.inr hne))
      have hleft : lines (c :: old) = (c :: first) :: rest := by simp [lines, hlines]
      have hright : lines (c :: (old ++ text)) = (c :: first) :: (rest ++ lines text) := by
        rw [lines, hrest, hlines]
        · rfl
        · exact hfeed
        · exact fun rest heq => absurd heq hreturn
        · exact hreturn
      rw [List.cons_append, hright, hleft, List.cons_append]

/-- No line contains a line break. -/
theorem not_break_of_mem_lines {text line : List Char} (h : line ∈ lines text) :
    ∀ c ∈ line, c ≠ '\n' ∧ c ≠ '\r' := by
  induction text using lines.induct generalizing line with
  | case1 => simp [lines] at h
  | case2 text ih =>
      obtain rfl | h := List.mem_cons.mp h
      · simp
      · exact ih h
  | case3 text ih =>
      obtain rfl | h := List.mem_cons.mp h
      · simp
      · exact ih h
  | case4 text hnot ih =>
      rw [lines] at h
      · obtain rfl | h := List.mem_cons.mp h
        · simp
        · exact ih h
      · exact hnot
  | case5 c text hfeed hpair hreturn hnil ih =>
      have hline : line = [c] := by simpa [lines, hnil] using h
      rw [hline]
      simpa using ⟨hfeed, hreturn⟩
  | case6 c text hfeed hpair hreturn first rest hlines ih =>
      have hmem : line = c :: first ∨ line ∈ rest := by simpa [lines, hlines] using h
      rw [hlines] at ih
      obtain rfl | hmem := hmem
      · exact List.forall_mem_cons.mpr ⟨⟨hfeed, hreturn⟩, ih List.mem_cons_self⟩
      · exact ih (List.mem_cons_of_mem _ hmem)

example : lines "a,b\r\n\nc".toList = ["a,b".toList, [], "c".toList] := by decide

example : split ",".toList "a,,b,,".toList = ["a".toList, [], "b".toList] := by decide

end UmnProjects.Text
