import UmnProjects.Foundations.Words
import UmnProjects.Loafr.Script

/-!
What the lines of a search give: the plain search, its negation, and the three searches by
context. A line is read by looking for words in it, so that a name may not carry the words
that are looked for.
-/
namespace UmnProjects.Loafr

open Text

namespace Search

/-- The events of the name, in order. -/
def named (name : Text) (events : List Event) : List Event :=
  events.filter fun event => decide (name = event.eventName)

/-- The event has another name. -/
def isOther (name : Text) (event : Event) : Bool := !decide (name = event.eventName)

@[simp] theorem isOther_iff {name : Text} {event : Event} :
    isOther name event = true ↔ name ≠ event.eventName := by
  simp [isOther]

@[simp] theorem isOther_eq_false {name : Text} {event : Event} :
    isOther name event = false ↔ name = event.eventName := by
  simp [isOther]

def others (name : Text) (events : List Event) : List Event := events.filter (isOther name)

theorem named_cons (name : Text) (event : Event) (events : List Event) :
    named name (event :: events) =
      if name = event.eventName then event :: named name events else named name events := by
  simp [named, List.filter_cons]

/-! ### The loops -/

theorem before_eq (key limit : Text) (events : List Event) :
    before key limit events =
      named key (events.takeWhile (isOther limit)) := by
  induction events with
  | nil => rfl
  | cons event events ih =>
      by_cases hlimit : limit = event.eventName
      · simp [before, named, hlimit]
      · rw [before, if_neg hlimit, List.takeWhile_cons_of_pos (isOther_iff.mpr hlimit), named_cons,
          ih]

theorem after_reached (key limit : Text) (events : List Event) :
    after key limit true events = named key events := by
  induction events with
  | nil => rfl
  | cons event events ih => simp [after, named_cons, ih]

theorem after_eq (key limit : Text) (events : List Event) :
    after key limit false events =
      named key (events.dropWhile (isOther limit)) := by
  induction events with
  | nil => rfl
  | cons event events ih =>
      by_cases hlimit : limit = event.eventName
      · rw [List.dropWhile_cons_of_neg (by simpa using hlimit), ← after_reached key limit]
        simp [after, hlimit]
      · rw [List.dropWhile_cons_of_pos (isOther_iff.mpr hlimit), ← ih]
        simp [after, hlimit]

/-- The latch of the second loop, in the events the first loop would look at. -/
theorem between_eq_after (key limit1 limit2 : Text) (reached : Bool) (events : List Event) :
    between key limit1 limit2 reached events =
      after key limit1 reached (events.takeWhile (isOther limit2)) := by
  induction events generalizing reached with
  | nil => rfl
  | cons event events ih =>
      by_cases hlimit : limit2 = event.eventName
      · rw [List.takeWhile_cons_of_neg (by simpa using hlimit)]
        simp [between, after, hlimit]
      · rw [List.takeWhile_cons_of_pos (isOther_iff.mpr hlimit), after, ← ih]
        simp [between, hlimit]

/-- The two loops cut the events at the same place. -/
theorem before_append_after (key limit : Text) (events : List Event) :
    before key limit events ++ after key limit false events = named key events := by
  rw [before_eq, after_eq, named, named, ← List.filter_append, List.takeWhile_append_dropWhile]
  rfl

/-! ### Lines -/

/-- The words that make a search one by context. -/
def contexts : List Text :=
  ["BEFORE".toList, "AFTER".toList, "BETWEEN".toList, "AND".toList]

def HasContext (op : Text) : Prop := ∃ word ∈ contexts, spaced ' ' word <:+: op

def KeywordFree (name : Text) : Prop := ∀ word ∈ contexts ++ ["SEARCH".toList], ¬ word <:+: name

instance : DecidablePred KeywordFree := fun name =>
  inferInstanceAs (Decidable (∀ word ∈ contexts ++ ["SEARCH".toList], ¬ word <:+: name))

theorem contains_context_iff (op : Text) :
    (contains " BEFORE ".toList op || contains " AFTER ".toList op ||
      contains " BETWEEN ".toList op || contains " AND ".toList op) = true ↔ HasContext op := by
  have hlist : HasContext op ↔ " BEFORE ".toList <:+: op ∨ " AFTER ".toList <:+: op ∨
      " BETWEEN ".toList <:+: op ∨ " AND ".toList <:+: op := by
    simp [HasContext, contexts, spaced]
  rw [hlist, Bool.or_eq_true, Bool.or_eq_true, Bool.or_eq_true, contains_iff, contains_iff,
    contains_iff, contains_iff, or_assoc, or_assoc]

theorem accepts_line {op : Text} (h : op ≠ []) : accepts ("SEARCH ".toList ++ op) = true := by
  have hcontains := contains_of_startsWith (List.prefix_append "SEARCH ".toList op)
  have hpos := List.length_pos_iff.mpr h
  have hlength : 8 ≤ ("SEARCH ".toList ++ op).length := by
    have hword : "SEARCH ".toList.length = 7 := rfl
    rw [List.length_append, hword]
    omega
  rw [accepts, hcontains, decide_eq_false (Nat.not_lt.mpr hlength)]
  rfl

theorem applyOp_context {op : Text} (h : HasContext op) (events : List Event) :
    (applyOp ("SEARCH ".toList ++ op) (some events)).1 = doContext op events := by
  have hne : op ≠ [] := by
    intro hnil
    obtain ⟨word, _, hinside⟩ := h
    rw [hnil] at hinside
    cases List.infix_nil.mp hinside
  have hcontext := (contains_context_iff op).mpr h
  rw [applyOp, if_pos (accepts_line hne), replaceFirst_append, List.nil_append]
  dsimp only
  rw [if_pos hcontext]

theorem applyOp_plain {op : Text} (hne : op ≠ []) (h : ¬ HasContext op) (events : List Event) :
    (applyOp ("SEARCH ".toList ++ op) (some events)).1 = (doSearch op events).1 := by
  have hcontext := mt (contains_context_iff op).mp h
  rw [applyOp, if_pos (accepts_line hne), replaceFirst_append, List.nil_append]
  dsimp only
  rw [if_neg hcontext]

theorem doSearch_named {name : Text} (h : ¬ "<>".toList <:+: name) (events : List Event) :
    (doSearch name events).1 = some (named name events) := by
  rw [doSearch]
  simp only [contains_eq_false h, Bool.false_eq_true, if_false, Bool.false_bne]
  rfl

theorem doSearch_others (name : Text) (events : List Event) :
    (doSearch ("<>".toList ++ name) events).1 = some (others name events) := by
  have hcontains := contains_of_startsWith (List.prefix_append "<>".toList name)
  rw [doSearch]
  simp only [hcontains, if_true, replaceFirst_append, List.nil_append, Bool.true_bne]
  rfl

/-! ### Contexts -/

section Contexts

variable {key limit limit1 limit2 : Text}

/-- The word is not found in a line made of another word and names without words. -/
theorem not_infix_line {word middle : Text} (hword : word ∈ contexts ++ ["SEARCH".toList])
    (hkey : KeywordFree key) (hmiddle : ¬ word <:+: middle) (hlimit : ¬ word <:+: limit) :
    ¬ word <:+: key ++ spaced ' ' middle ++ limit := by
  have hplain : ∀ w ∈ contexts ++ ["SEARCH".toList], ' ' ∉ w ∧ w ≠ [] := by decide
  obtain ⟨hblank, hne⟩ := hplain word hword
  rw [infix_append_spaced_iff hblank hne]
  exact not_or.mpr ⟨hkey word hword, not_or.mpr ⟨hmiddle, hlimit⟩⟩

theorem infix_line (word key limit : Text) : word <:+: key ++ spaced ' ' word ++ limit := by
  have hspaced := infix_spaced ' ' word
  rw [List.append_assoc]
  exact hspaced.trans ((List.prefix_append _ _).isInfix.trans (List.suffix_append _ _).isInfix)

theorem doContext_before (hkey : KeywordFree key) (hlimit : KeywordFree limit) (hne : limit ≠ [])
    (events : List Event) :
    doContext (key ++ " BEFORE ".toList ++ limit) events = some (before key limit events) := by
  have hspaced : " BEFORE ".toList = spaced ' ' "BEFORE".toList := rfl
  have hsplit := split_append_spaced (by decide : ' ' ∉ "BEFORE".toList)
    (hkey "BEFORE".toList (by decide)) (hlimit "BEFORE".toList (by decide)) hne
  rw [hspaced, doContext, if_pos (contains_iff.mpr (infix_line _ key limit)), hspaced, hsplit]

theorem doContext_after (hkey : KeywordFree key) (hlimit : KeywordFree limit) (hne : limit ≠ [])
    (events : List Event) :
    doContext (key ++ " AFTER ".toList ++ limit) events =
      some (after key limit false events) := by
  have hspaced : " AFTER ".toList = spaced ' ' "AFTER".toList := rfl
  have hbefore : ¬ "BEFORE".toList <:+: key ++ spaced ' ' "AFTER".toList ++ limit :=
    not_infix_line (by decide) hkey (by decide) (hlimit _ (by decide))
  have hsplit := split_append_spaced (by decide : ' ' ∉ "AFTER".toList)
    (hkey "AFTER".toList (by decide)) (hlimit "AFTER".toList (by decide)) hne
  rw [hspaced, doContext, contains_eq_false hbefore, if_neg Bool.false_ne_true,
    if_pos (contains_iff.mpr (infix_line _ key limit)), hspaced, hsplit]

/-- The line of the third context is taken apart at its first word. -/
theorem doContext_between_eq (hkey : KeywordFree key) (hlimit1 : KeywordFree limit1)
    (hlimit2 : KeywordFree limit2) (events : List Event) :
    doContext (key ++ " BETWEEN ".toList ++ (limit1 ++ " AND ".toList ++ limit2)) events =
      match split " AND ".toList (limit1 ++ " AND ".toList ++ limit2) with
      | [limit1, limit2] => some (between key limit1 limit2 false events)
      | _ => none := by
  have hspaced : " BETWEEN ".toList = spaced ' ' "BETWEEN".toList := rfl
  have hand : " AND ".toList = spaced ' ' "AND".toList := rfl
  generalize hrest : limit1 ++ " AND ".toList ++ limit2 = rest
  rw [hand] at hrest
  have hnot (word : Text) (hword : word ∈ contexts ++ ["SEARCH".toList])
      (hmiddle : ¬ word <:+: "AND".toList) : ¬ word <:+: rest := by
    rw [← hrest]
    exact not_infix_line hword hlimit1 hmiddle (hlimit2 word hword)
  have hbefore : ¬ "BEFORE".toList <:+: key ++ spaced ' ' "BETWEEN".toList ++ rest :=
    not_infix_line (by decide) hkey (by decide) (hnot _ (by decide) (by decide))
  have hafter : ¬ "AFTER".toList <:+: key ++ spaced ' ' "BETWEEN".toList ++ rest :=
    not_infix_line (by decide) hkey (by decide) (hnot _ (by decide) (by decide))
  have hsecond : "AND".toList <:+: key ++ spaced ' ' "BETWEEN".toList ++ rest := by
    have hinside : "AND".toList <:+: rest := hrest ▸ infix_line _ limit1 limit2
    exact hinside.trans (List.suffix_append _ _).isInfix
  have hne : rest ≠ [] := by simp [← hrest, spaced]
  have hsplit := split_append_spaced (by decide : ' ' ∉ "BETWEEN".toList)
    (hkey "BETWEEN".toList (by decide)) (hnot "BETWEEN".toList (by decide) (by decide)) hne
  rw [hspaced, doContext, contains_eq_false hbefore, if_neg Bool.false_ne_true,
    contains_eq_false hafter, if_neg Bool.false_ne_true,
    contains_iff.mpr (infix_line _ key rest), contains_iff.mpr hsecond, hspaced, hsplit]
  rfl

theorem doContext_between (hkey : KeywordFree key) (hlimit1 : KeywordFree limit1)
    (hlimit2 : KeywordFree limit2) (hne : limit2 ≠ []) (events : List Event) :
    doContext (key ++ " BETWEEN ".toList ++ (limit1 ++ " AND ".toList ++ limit2)) events =
      some (between key limit1 limit2 false events) := by
  have hand : " AND ".toList = spaced ' ' "AND".toList := rfl
  have hsplit := split_append_spaced (by decide : ' ' ∉ "AND".toList)
    (hlimit1 "AND".toList (by decide)) (hlimit2 "AND".toList (by decide)) hne
  rw [doContext_between_eq hkey hlimit1 hlimit2, hand, hsplit]

/-- A missing last name is dropped from the parts of the line. -/
theorem doContext_between_nil (hkey : KeywordFree key) (hlimit1 : KeywordFree limit1)
    (events : List Event) :
    doContext (key ++ " BETWEEN ".toList ++ (limit1 ++ " AND ".toList ++ [])) events = none := by
  have hand : " AND ".toList = spaced ' ' "AND".toList := rfl
  have hnil : KeywordFree [] := by simp [KeywordFree, contexts]
  have hlength := length_split_of_breakOn_nil
    (breakOn_spaced [] (by decide : ' ' ∉ "AND".toList) (hlimit1 "AND".toList (by decide)))
    (by simp [spaced])
  rw [doContext_between_eq hkey hlimit1 hnil, hand]
  generalize split (spaced ' ' "AND".toList) (limit1 ++ spaced ' ' "AND".toList ++ []) = parts
    at hlength
  cases parts with
  | nil => rfl
  | cons part parts =>
      have hparts : parts = [] := by simpa using hlength
      rw [hparts]

theorem hasContext_line (word : Text) (hword : word ∈ contexts) (key limit : Text) :
    HasContext (key ++ spaced ' ' word ++ limit) := by
  refine ⟨word, hword, ?_⟩
  rw [List.append_assoc]
  exact (List.prefix_append _ _).isInfix.trans (List.suffix_append _ _).isInfix

theorem KeywordFree.not_hasContext (h : KeywordFree key) : ¬ HasContext key := by
  intro hcontext
  obtain ⟨word, hword, hinside⟩ := hcontext
  exact not_infix_spaced (h word (List.mem_append_left _ hword)) hinside

/-- The searches before and after an event, whether it occurs or not, share out the events of
the plain search. -/
theorem before_and_after_lines (hkey : KeywordFree key) (hlimit : KeywordFree limit)
    (hnot : ¬ "<>".toList <:+: key) (hkeyName : key ≠ []) (hlimitName : limit ≠ [])
    (events : List Event) :
    ∃ earlier later,
      (applyOp ("SEARCH ".toList ++ (key ++ " BEFORE ".toList ++ limit)) (some events)).1 =
          some earlier ∧
        (applyOp ("SEARCH ".toList ++ (key ++ " AFTER ".toList ++ limit)) (some events)).1 =
          some later ∧
        (applyOp ("SEARCH ".toList ++ key) (some events)).1 = some (earlier ++ later) := by
  refine ⟨before key limit events, after key limit false events, ?_, ?_, ?_⟩
  · have hcontext : HasContext (key ++ " BEFORE ".toList ++ limit) :=
      hasContext_line "BEFORE".toList (by decide) key limit
    rw [applyOp_context hcontext, doContext_before hkey hlimit hlimitName]
  · have hcontext : HasContext (key ++ " AFTER ".toList ++ limit) :=
      hasContext_line "AFTER".toList (by decide) key limit
    rw [applyOp_context hcontext, doContext_after hkey hlimit hlimitName]
  · rw [applyOp_plain hkeyName hkey.not_hasContext, doSearch_named hnot, before_append_after]

def eventNamed (name : Text) : Event := ⟨"0".toList, [], name, none⟩

/-- A stop, and a start up to the next stop. -/
def cycle : List Event :=
  ["stop".toList, "start".toList, "count".toList, "stop".toList].map eventNamed

theorem cycle_before_and_after :
    (applyOp ("SEARCH ".toList ++ ("count".toList ++ " BEFORE ".toList ++ "stop".toList))
          (some (eventNamed "count".toList :: cycle))).1 = some [eventNamed "count".toList] ∧
      (applyOp ("SEARCH ".toList ++ ("count".toList ++ " AFTER ".toList ++ "stop".toList))
          (some (eventNamed "count".toList :: cycle))).1 = some [eventNamed "count".toList] ∧
      (applyOp ("SEARCH ".toList ++ "count".toList)
          (some (eventNamed "count".toList :: cycle))).1 =
        some [eventNamed "count".toList, eventNamed "count".toList] := by
  obtain ⟨earlier, later, hbefore, hafter, hplain⟩ := before_and_after_lines
    (by decide : KeywordFree "count".toList) (by decide : KeywordFree "stop".toList) (by decide)
    (by decide) (by decide) (eventNamed "count".toList :: cycle)
  obtain rfl : [eventNamed "count".toList] = earlier :=
    Option.some.inj (Eq.trans (by decide) hbefore)
  obtain rfl : [eventNamed "count".toList] = later :=
    Option.some.inj (Eq.trans (by decide) hafter)
  exact ⟨hbefore, hafter, hplain⟩

/-- The events from the first one named `limit1` up to the next one named `limit2`. -/
def stretch (limit1 limit2 : Text) (events : List Event) : List Event :=
  (events.dropWhile (isOther limit1)).takeWhile (isOther limit2)

/-- What the third loop finds in the stretch, if it has not stopped before it. -/
theorem between_eq_stretch_iff (key limit1 limit2 : Text) (events : List Event) :
    between key limit1 limit2 false events = named key (stretch limit1 limit2 events) ↔
      (∀ event ∈ events.takeWhile (isOther limit1), limit2 ≠ event.eventName) ∨
        ∀ event ∈ stretch limit1 limit2 events, key ≠ event.eventName := by
  rw [between_eq_after, after_eq]
  by_cases hstopped : ∀ event ∈ events.takeWhile (isOther limit1), limit2 ≠ event.eventName
  · have hswap := Segments.dropWhile_takeWhile_of_forall (q := isOther limit2)
      fun event hevent => isOther_iff.mpr (hstopped event hevent)
    exact iff_of_true (congrArg (named key) hswap) (.inl hstopped)
  · have hearly : ∃ event ∈ events.takeWhile (isOther limit1), isOther limit2 event = false := by
      simpa using hstopped
    have hnone : named key (stretch limit1 limit2 events) = [] ↔
        ∀ event ∈ stretch limit1 limit2 events, key ≠ event.eventName := by
      simp [named, List.filter_eq_nil_iff]
    rw [Segments.dropWhile_takeWhile_of_exists hearly, ← hnone, or_iff_right hstopped]
    exact eq_comm

/-- The search between two events finds the events of the stretch exactly when the second
name is there, and no event of this name comes before the first one or the stretch has
nothing to find. -/
theorem between_line_iff (hkey : KeywordFree key) (hlimit1 : KeywordFree limit1)
    (hlimit2 : KeywordFree limit2) (events : List Event) :
    (applyOp ("SEARCH ".toList ++
          (key ++ " BETWEEN ".toList ++ (limit1 ++ " AND ".toList ++ limit2))) (some events)).1 =
        some (named key (stretch limit1 limit2 events)) ↔
      limit2 ≠ [] ∧
        ((∀ event ∈ events.takeWhile (isOther limit1), limit2 ≠ event.eventName) ∨
          ∀ event ∈ stretch limit1 limit2 events, key ≠ event.eventName) := by
  have hcontext : HasContext
      (key ++ " BETWEEN ".toList ++ (limit1 ++ " AND ".toList ++ limit2)) :=
    hasContext_line "BETWEEN".toList (by decide) key _
  rw [applyOp_context hcontext]
  by_cases hne : limit2 = []
  · rw [hne, doContext_between_nil hkey hlimit1]
    simp
  · rw [doContext_between hkey hlimit1 hlimit2 hne, Option.some_inj, between_eq_stretch_iff]
    simp [hne]

/-- The search stops at the stop before the start. -/
theorem cycle_not_found :
    KeywordFree "count".toList ∧ KeywordFree "start".toList ∧ KeywordFree "stop".toList ∧
      eventNamed "start".toList ∈ cycle ∧
      (applyOp "SEARCH count BETWEEN start AND stop".toList (some cycle)).1 = some [] ∧
      named "count".toList (stretch "start".toList "stop".toList cycle) =
        [eventNamed "count".toList] := by
  decide

theorem cycle_tail_found :
    (applyOp ("SEARCH ".toList ++ ("count".toList ++ " BETWEEN ".toList ++
          ("start".toList ++ " AND ".toList ++ "stop".toList))) (some cycle.tail)).1 =
      some (named "count".toList (stretch "start".toList "stop".toList cycle.tail)) :=
  (between_line_iff (by decide) (by decide) (by decide) cycle.tail).mpr (by decide)

end Contexts

/-! ### Script lines -/

section Scripts

variable {V : Type} [LinearOrder V] (parseDouble : Text → Option (Double V))

/-- What the script in the file gives for the events. -/
def answer (scriptFile : Text) (events : List Event) :
    Option (Except Thrown (Option (List Event))) :=
  (ScriptParser.parseScript scriptFile).map fun script => (script.alertOn parseDouble events).1

theorem answer_of_line {scriptFile op : Text} (h : lines scriptFile = ["SEARCH ".toList ++ op])
    (events : List Event) :
    answer parseDouble scriptFile events =
      some (.ok (applyOp ("SEARCH ".toList ++ op) (some events)).1) := by
  have hword : contains "SEARCH".toList ("SEARCH ".toList ++ op) = true :=
    contains_of_startsWith ⟨' ' :: op, rfl⟩
  have hparsed : ScriptParser.parseScript scriptFile =
      some ⟨[some (.search ("SEARCH ".toList ++ op))]⟩ := by
    rw [ScriptParser.parseScript, h, List.foldlM_cons, ScriptParser.parseLine, if_pos hword]
    rfl
  rw [answer, hparsed]
  rfl

/-- A search by context only finds events with names shorter than its text. -/
theorem length_lt_of_doContext {op : Text} {events found : List Event}
    (h : doContext op events = some found) {event : Event} (hevent : event ∈ found) :
    event.eventName.length < op.length := by
  have hnamed (word : Text) {key limit : Text} {rest : List Event}
      (hsplit : split (spaced ' ' word) op = [key, limit]) (hfound : named key rest = found) :
      event.eventName.length < op.length := by
    have hkey : key = event.eventName := by
      rw [← hfound] at hevent
      simpa using (List.mem_filter.mp hevent).2
    rw [← hkey]
    exact length_lt_of_split (by simp [spaced]) (by simp) hsplit
  simp only [doContext] at h
  split at h
  · split at h
    · next key limit hsplit =>
        have hfound := Option.some.inj h
        rw [before_eq] at hfound
        exact hnamed "BEFORE".toList hsplit hfound
    · cases h
  · split at h
    · split at h
      · next key limit hsplit =>
          have hfound := Option.some.inj h
          rw [after_eq] at hfound
          exact hnamed "AFTER".toList hsplit hfound
      · cases h
    · split at h
      · split at h
        · next key rest hsplit =>
            split at h
            · next limit1 limit2 _ =>
                have hfound := Option.some.inj h
                rw [between_eq_after, after_eq] at hfound
                exact hnamed "BETWEEN".toList hsplit hfound
            · cases h
        · cases h
      · cases h

theorem hasContext_negated_iff (name : Text) :
    HasContext ("<>".toList ++ name) ↔ HasContext name := by
  refine exists_congr fun word => and_congr_right fun _ => ?_
  have hnegated : "<>".toList ++ name = '<' :: '>' :: name := rfl
  have hstart (c : Char) (hc : ' ' ≠ c) (text : Text) : ¬ spaced ' ' word <+: c :: text :=
    fun h => hc (List.cons_prefix_cons.mp h).1
  rw [hnegated, List.infix_cons_iff, List.infix_cons_iff,
    or_iff_right (hstart '<' (by decide) _), or_iff_right (hstart '>' (by decide) _)]

variable {parseDouble} {name : Text}

theorem answer_negated_iff {negated : Text}
    (hnegated : lines negated = ["SEARCH ".toList ++ ("<>".toList ++ name)]) :
    (∀ events, answer parseDouble negated events = some (.ok (some (others name events)))) ↔
      ¬ HasContext name := by
  constructor
  · intro h hcontext
    -- an event with the name that the line is left with is another event, but is not found
    have hfound := h [eventNamed ("<>".toList ++ name)]
    have hother : others name [eventNamed ("<>".toList ++ name)] =
        [eventNamed ("<>".toList ++ name)] := by
      apply List.filter_eq_self.mpr
      intro event hevent
      rw [List.mem_singleton.mp hevent, isOther_iff]
      intro heq
      have hlength : name.length = name.length + 2 := congrArg List.length heq
      omega
    rw [answer_of_line parseDouble hnegated,
      applyOp_context ((hasContext_negated_iff name).mpr hcontext), hother] at hfound
    have hshort := length_lt_of_doContext (Except.ok.inj (Option.some.inj hfound))
      List.mem_cons_self
    exact absurd hshort (Nat.lt_irrefl _)
  · intro hcontext events
    have hplain := mt (hasContext_negated_iff name).mp hcontext
    rw [answer_of_line parseDouble hnegated, applyOp_plain (by simp) hplain, doSearch_others]

theorem answer_plain_iff {plain : Text} (hne : name ≠ []) (hnot : ¬ "<>".toList <:+: name)
    (hplain : lines plain = ["SEARCH ".toList ++ name]) :
    (∀ events, answer parseDouble plain events = some (.ok (some (named name events)))) ↔
      ¬ HasContext name := by
  constructor
  · intro h hcontext
    have hfound := h [eventNamed name]
    have hnamed : named name [eventNamed name] = [eventNamed name] := by
      simp [named, eventNamed]
    rw [answer_of_line parseDouble hplain, applyOp_context hcontext, hnamed] at hfound
    have hshort := length_lt_of_doContext (Except.ok.inj (Option.some.inj hfound))
      List.mem_cons_self
    exact absurd hshort (Nat.lt_irrefl _)
  · intro hcontext events
    rw [answer_of_line parseDouble hplain, applyOp_plain hne hcontext, doSearch_named hnot]

/-- The two lines of a search by name do what they say for the names in which no word of a
context stands between blanks; a name with the sign of the negation in it is left to the
negated line. -/
theorem search_lines_iff {plain negated : Text} (hne : name ≠ [])
    (hplain : lines plain = ["SEARCH ".toList ++ name])
    (hnegated : lines negated = ["SEARCH ".toList ++ ("<>".toList ++ name)]) :
    ((∀ events, answer parseDouble negated events = some (.ok (some (others name events)))) ↔
        ¬ HasContext name) ∧
      (¬ "<>".toList <:+: name →
        ((∀ events, answer parseDouble plain events = some (.ok (some (named name events)))) ↔
          ¬ HasContext name)) :=
  ⟨answer_negated_iff hnegated, fun hnot => answer_plain_iff hne hnot hplain⟩

/-- One name is read as a search by context without its first word, the other as a negation. -/
theorem names_not_searched :
    answer Script.parseDigits "SEARCH salt AND pepper".toList
        [eventNamed "salt AND pepper".toList] = some (.ok none) ∧
      answer Script.parseDigits "SEARCH a<>b".toList [eventNamed "c".toList] =
        some (.ok (some [eventNamed "c".toList])) ∧
      named "a<>b".toList [eventNamed "c".toList] = [] := by
  decide

theorem salt_lines :
    (∀ events, answer Script.parseDigits "SEARCH <>salt\n".toList events =
        some (.ok (some (others "salt".toList events)))) ∧
      (∀ events, answer Script.parseDigits "SEARCH salt".toList events =
        some (.ok (some (named "salt".toList events)))) ∧
      ¬ ∀ events, answer Script.parseDigits "SEARCH <>salt AND pepper".toList events =
        some (.ok (some (others "salt AND pepper".toList events))) := by
  have hfree : KeywordFree "salt".toList := by decide
  have hcontext : HasContext "salt AND pepper".toList :=
    hasContext_line "AND".toList (by decide) "salt".toList "pepper".toList
  have hplain : lines "SEARCH salt".toList = ["SEARCH ".toList ++ "salt".toList] := by decide
  have hnegated : lines "SEARCH <>salt\n".toList =
      ["SEARCH ".toList ++ ("<>".toList ++ "salt".toList)] := by decide
  have hpepper : lines "SEARCH salt AND pepper".toList =
      ["SEARCH ".toList ++ "salt AND pepper".toList] := by decide
  have hothers : lines "SEARCH <>salt AND pepper".toList =
      ["SEARCH ".toList ++ ("<>".toList ++ "salt AND pepper".toList)] := by decide
  refine ⟨(search_lines_iff (by decide) hplain hnegated).1.mpr hfree.not_hasContext,
    ((search_lines_iff (by decide) hplain hnegated).2 (by decide)).mpr hfree.not_hasContext, ?_⟩
  intro hall
  exact (search_lines_iff (by decide) hpepper hothers).1.mp hall hcontext

end Scripts

end Search

end UmnProjects.Loafr
