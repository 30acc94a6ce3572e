import UmnProjects.Foundations.Words
import UmnProjects.Loafr.LogfileReader
import UmnProjects.Loafr.Script

/-!
The grammar of scripts: a command is known by the word its line starts with. The parser looks
for the words anywhere in the line, the one for a search first.
-/
namespace UmnProjects.Loafr

open Text

theorem mapM_eq_none_iff {A B : Type} (f : A → Option B) (l : List A) :
    l.mapM f = none ↔ ∃ a ∈ l, f a = none := by
  rw [← Option.not_isSome_iff_eq_none, mapM_isSome_iff]
  simp

/-- Two passes over a list, of which the second fails where the first one does, agree when the
first fails or they agree on every element. -/
theorem mapM_eq_mapM_iff {A B : Type} {f g : A → Option B} {l : List A}
    (h : ∀ a ∈ l, f a = none → g a = none) :
    l.mapM f = l.mapM g ↔ (∃ a ∈ l, f a = none) ∨ ∀ a ∈ l, f a = g a := by
  by_cases hnone : ∃ a ∈ l, f a = none
  · obtain ⟨a, ha, hf⟩ := hnone
    have hleft := (mapM_eq_none_iff f l).mpr ⟨a, ha, hf⟩
    have hright := (mapM_eq_none_iff g l).mpr ⟨a, ha, h a ha hf⟩
    exact iff_of_true (hleft.trans hright.symm) (.inl ⟨a, ha, hf⟩)
  · rw [or_iff_right hnone]
    constructor
    · intro heq
      obtain ⟨bs, hbs⟩ := Option.ne_none_iff_exists'.mp (mt (mapM_eq_none_iff f l).mp hnone)
      have hleft := (mapM_eq_some_iff f l bs).mp hbs
      have hright := (mapM_eq_some_iff g l bs).mp (heq.symm.trans hbs)
      clear h hnone heq hbs
      induction hleft with
      | nil => simp
      | cons hf _ ih =>
          obtain ⟨hg, hrest⟩ := List.forall₂_cons.mp hright
          exact List.forall_mem_cons.mpr ⟨hf.trans hg.symm, ih hrest⟩
    · intro hall
      clear h hnone
      induction l with
      | nil => rfl
      | cons a l ih =>
          obtain ⟨hhead, htail⟩ := List.forall_mem_cons.mp hall
          rw [List.mapM_cons, List.mapM_cons, hhead, ih htail]

namespace ScriptParser

/-- The command of a line, by the word it starts with. -/
def command (line : Text) : Option Operation :=
  if "SEARCH ".toList <+: line then some (.search line)
  else if "FILTER ".toList <+: line then some (.filter line)
  else none

/-- The script that has the command of every line, in order. -/
def commands (scriptFile : Text) : Option Script :=
  ((lines scriptFile).mapM command).map fun ops => ⟨ops.map some⟩

theorem parseScript_eq (scriptFile : Text) :
    parseScript scriptFile = ((lines scriptFile).mapM parseLine).map fun ops => ⟨ops.map some⟩ := by
  have hloop (s : Script) (rest : List Text) :
      rest.foldlM (fun s line => (parseLine line).map fun operation => s.addOp (some operation)) s =
        (rest.mapM parseLine).map fun ops => ⟨s.ops ++ ops.map some⟩ := by
    induction rest generalizing s with
    | nil => simp
    | cons line rest ih =>
        rw [List.foldlM_cons, List.mapM_cons]
        cases parseLine line with
        | none => rfl
        | some operation =>
            simp only [Option.map_some, Option.bind_eq_bind, Option.bind_some, ih]
            cases rest.mapM parseLine with
            | none => rfl
            | some ops => simp [Script.addOp]
  rw [parseScript, hloop]
  rfl

theorem parseLine_eq_none_iff (line : Text) :
    parseLine line = none ↔ ¬ "SEARCH".toList <:+: line ∧ ¬ "FILTER".toList <:+: line := by
  rw [parseLine, ← contains_iff, ← contains_iff]
  cases contains "SEARCH".toList line with
  | true => exact iff_of_false (Option.some_ne_none _) fun h => h.1 rfl
  | false =>
      rw [if_neg Bool.false_ne_true]
      cases contains "FILTER".toList line with
      | true => exact iff_of_false (Option.some_ne_none _) fun h => h.2 rfl
      | false => exact iff_of_true rfl ⟨Bool.false_ne_true, Bool.false_ne_true⟩

theorem search_of_startsWith {line : Text} (h : "SEARCH ".toList <+: line) :
    "SEARCH".toList <:+: line :=
  ((List.prefix_append "SEARCH".toList " ".toList).trans h).isInfix

theorem filter_of_startsWith {line : Text} (h : "FILTER ".toList <+: line) :
    "FILTER".toList <:+: line :=
  ((List.prefix_append "FILTER".toList " ".toList).trans h).isInfix

theorem command_eq_none {line : Text} (h : parseLine line = none) : command line = none := by
  obtain ⟨hsearch, hfilter⟩ := (parseLine_eq_none_iff line).mp h
  rw [command, if_neg (mt search_of_startsWith hsearch), if_neg (mt filter_of_startsWith hfilter)]

/-- A line that is parsed at all is parsed for its command. -/
theorem parseLine_eq_command_iff {line : Text} (h : parseLine line ≠ none) :
    parseLine line = command line ↔ "SEARCH ".toList <+: line ∨
      ("FILTER ".toList <+: line ∧ ¬ "SEARCH".toList <:+: line) := by
  rw [parseLine] at h ⊢
  by_cases hsearch : "SEARCH".toList <:+: line
  · rw [if_pos (contains_iff.mpr hsearch), command]
    by_cases hstart : "SEARCH ".toList <+: line
    · rw [if_pos hstart]
      exact iff_of_true rfl (.inl hstart)
    · rw [if_neg hstart]
      refine iff_of_false ?_ (not_or.mpr ⟨hstart, fun hfilter => hfilter.2 hsearch⟩)
      by_cases hfilter : "FILTER ".toList <+: line
      · rw [if_pos hfilter]
        exact fun heq => by cases heq
      · rw [if_neg hfilter]
        exact fun heq => by cases heq
  · rw [contains_eq_false hsearch, if_neg Bool.false_ne_true] at h ⊢
    have hfound : contains "FILTER".toList line = true := by
      by_contra hnot
      exact h (if_neg hnot)
    rw [if_pos hfound, command, if_neg (mt search_of_startsWith hsearch)]
    by_cases hfilter : "FILTER ".toList <+: line
    · rw [if_pos hfilter]
      exact iff_of_true rfl (.inr ⟨hfilter, hsearch⟩)
    · rw [if_neg hfilter]
      refine iff_of_false (fun heq => by cases heq) ?_
      exact not_or.mpr ⟨mt search_of_startsWith hsearch, fun hf => hfilter hf.1⟩

/-- The parser gives every line its command, or null, exactly when some line has neither word
in it or every line starts with its word and no line of a filter mentions a search. -/
theorem parseScript_eq_commands_iff (scriptFile : Text) :
    parseScript scriptFile = commands scriptFile ↔
      (∃ line ∈ lines scriptFile, ¬ "SEARCH".toList <:+: line ∧ ¬ "FILTER".toList <:+: line) ∨
        ∀ line ∈ lines scriptFile, "SEARCH ".toList <+: line ∨
          ("FILTER ".toList <+: line ∧ ¬ "SEARCH".toList <:+: line) := by
  have hinjective : Function.Injective fun ops : List Operation => Script.mk (ops.map some) := by
    intro ops ops' heq
    exact List.map_injective_iff.mpr (fun _ _ h => Option.some.inj h) (congrArg Script.ops heq)
  rw [parseScript_eq, commands, (Option.map_injective hinjective).eq_iff,
    mapM_eq_mapM_iff fun line _ => command_eq_none]
  simp only [parseLine_eq_none_iff]
  by_cases hnone : ∃ line ∈ lines scriptFile,
      ¬ "SEARCH".toList <:+: line ∧ ¬ "FILTER".toList <:+: line
  · simp only [hnone, true_or]
  · rw [or_iff_right hnone, or_iff_right hnone]
    refine forall₂_congr fun line hline => parseLine_eq_command_iff ?_
    intro hparse
    exact hnone ⟨line, hline, (parseLine_eq_none_iff line).mp hparse⟩

/-- The value of the filter makes it a search. -/
theorem filter_for_search_parsed :
    parseScript "FILTER state = SEARCHING".toList =
        some ⟨[some (.search "FILTER state = SEARCHING".toList)]⟩ ∧
      commands "FILTER state = SEARCHING".toList =
        some ⟨[some (.filter "FILTER state = SEARCHING".toList)]⟩ := by
  decide

end ScriptParser

end UmnProjects.Loafr
