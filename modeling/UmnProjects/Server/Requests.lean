import UmnProjects.Foundations.Tokens
import UmnProjects.Server.Http

/-!
What is made of the bytes a client sends. The request line is read into a buffer, which cuts off
what does not fit, and is taken apart there.
-/
namespace UmnProjects.Server.Http

open Tokens

/-! ### Lines -/

/-- The lines of a stream, each with its end; the last one may have none. -/
def streamLines : List Char → List (List Char)
  | [] => []
  | c :: text =>
      if c = '\n' then [c] :: streamLines text
      else
        match streamLines text with
        | [] => [[c]]
        | line :: rest => (c :: line) :: rest

/-- The first line of a stream, with its end. -/
def requestLine (text : List Char) : List Char := ((streamLines text).head?).getD []

theorem streamLines_append_cons {body : List Char} (h : '\n' ∉ body) (text : List Char) :
    streamLines (body ++ '\n' :: text) = (body ++ ['\n']) :: streamLines text := by
  induction body with
  | nil => rfl
  | cons c body ih =>
      obtain ⟨hc, hbody⟩ := not_or.mp (mt List.mem_cons.mpr h)
      rw [List.cons_append, streamLines, if_neg (Ne.symm hc), ih hbody]
      rfl

theorem streamLines_of_not_mem {body : List Char} (h : '\n' ∉ body) (hne : body ≠ []) :
    streamLines body = [body] := by
  induction body with
  | nil => exact absurd rfl hne
  | cons c body ih =>
      obtain ⟨hc, hbody⟩ := not_or.mp (mt List.mem_cons.mpr h)
      rw [streamLines, if_neg (Ne.symm hc)]
      cases body with
      | nil => rfl
      | cons d body => rw [ih hbody (List.cons_ne_nil d body)]

/-- Line by line, up to the end of the stream. -/
theorem lines_induction {P : List Char → Prop} (nil : P [])
    (last : ∀ body, '\n' ∉ body → body ≠ [] → P body)
    (line : ∀ body text, '\n' ∉ body → P text → P (body ++ '\n' :: text)) (text : List Char) :
    P text := by
  induction hlength : text.length using Nat.strongRecOn generalizing text with
  | ind length ih =>
      by_cases hmem : '\n' ∈ text
      · obtain ⟨body, rest, rfl, hbody⟩ := List.eq_append_cons_of_mem hmem
        apply line body rest hbody
        apply ih rest.length ?_ rest rfl
        rw [← hlength, List.length_append, List.length_cons]
        omega
      · by_cases hne : text = []
        · rw [hne]
          exact nil
        · exact last text hmem hne

theorem flatten_streamLines (text : List Char) : (streamLines text).flatten = text := by
  induction text using lines_induction with
  | nil => rfl
  | last body hbody hne =>
      rw [streamLines_of_not_mem hbody hne, List.flatten_singleton]
  | line body text hbody ih =>
      rw [streamLines_append_cons hbody, List.flatten_cons, ih, List.append_assoc]
      rfl

theorem requestLine_cons (c : Char) (text : List Char) :
    requestLine (c :: text) = if c = '\n' then [c] else c :: requestLine text := by
  rw [requestLine, requestLine, streamLines]
  split
  · rfl
  · cases streamLines text with
    | nil => rfl
    | cons line rest => rfl

theorem requestLine_append {body : List Char} (h : '\n' ∉ body) (text : List Char) :
    requestLine (body ++ text) = body ++ requestLine text := by
  induction body with
  | nil => rfl
  | cons c body ih =>
      obtain ⟨hc, hbody⟩ := not_or.mp (mt List.mem_cons.mpr h)
      rw [List.cons_append, requestLine_cons, if_neg (Ne.symm hc), ih hbody]
      rfl

/-- `fgets` sees as much of the line as it has room for. -/
theorem takeLine_eq (n : Nat) (text : List Char) :
    takeLine n text = (requestLine text).take n := by
  induction text generalizing n with
  | nil => cases n with
    | zero => rfl
    | succ n => rfl
  | cons c text ih =>
      cases n with
      | zero => rfl
      | succ n =>
          rw [takeLine, requestLine_cons]
          split
          · exact (List.take_of_length_le (by simp)).symm
          · rw [ih, List.take_succ_cons]

/-! ### The resource name -/

theorem secondToken_eq_some_iff {buf token : List Char} :
    secondToken buf = some token ↔ ∃ before, IsSecond ' ' (cString buf) before token := by
  have hskip : ((((cString buf).dropWhile (· == ' ')).dropWhile (· != ' ')).dropWhile
      (· == ' ')).takeWhile (· != ' ') = (skipFirst ' ' (cString buf)).takeWhile (· != ' ') := rfl
  simp only [secondToken, hskip]
  cases hword : (skipFirst ' ' (cString buf)).takeWhile (· != ' ') with
  | nil =>
      apply iff_of_false (fun h => by cases h)
      intro h
      obtain ⟨before, hsecond⟩ := h
      rw [hsecond.skipFirst.2] at hword
      exact hsecond.token_ne_nil hword
  | cons c cs =>
      have hne : (skipFirst ' ' (cString buf)).takeWhile (· != ' ') ≠ [] := by
        rw [hword]
        exact List.cons_ne_nil c cs
      have hsecond := isSecond_skipFirst hne
      rw [hword] at hsecond
      simp only [Option.some.injEq]
      constructor
      · intro h
        rw [← h]
        exact hsecond
      · intro h
        obtain ⟨before, hbefore⟩ := h
        rw [← hbefore.skipFirst.2, hword]

/-- The part of the request line that is taken apart: as much as fits, up to a zero. -/
def shown (text : List Char) : List Char := cString ((requestLine text).take (BUFSIZE - 1))

theorem shown_isPrefix (text : List Char) : shown text <+: requestLine text :=
  (List.takeWhile_prefix _).trans (List.take_prefix _ _)

theorem length_le_shown_iff {text start : List Char} (h : start <+: requestLine text) :
    start.length ≤ (shown text).length ↔ start.length < BUFSIZE ∧ '\x00' ∉ start := by
  constructor
  · intro hlength
    have hstart := List.prefix_of_prefix_length_le h (shown_isPrefix text) hlength
    have hle := (List.takeWhile_prefix (p := (· != '\x00'))
      (l := (requestLine text).take (BUFSIZE - 1))).length_le
    rw [List.length_take] at hle
    have hshown : shown text = ((requestLine text).take (BUFSIZE - 1)).takeWhile (· != '\x00') :=
      rfl
    refine ⟨?_, fun hmem => ?_⟩
    · rw [hshown] at hlength
      simp only [BUFSIZE] at hle hlength ⊢
      omega
    · have hzero := List.mem_takeWhile_imp (hstart.subset hmem)
      simp at hzero
  · intro hfits
    obtain ⟨hshort, hzero⟩ := hfits
    have htake : start <+: (requestLine text).take (BUFSIZE - 1) := by
      rw [List.prefix_take_iff]
      exact ⟨h, by omega⟩
    obtain ⟨rest, hrest⟩ := htake
    have hshown : shown text = start ++ rest.takeWhile (· != '\x00') := by
      rw [shown, cString, ← hrest, List.takeWhile_append_of_pos]
      intro c hc
      rw [bne_iff_ne]
      intro heq
      exact hzero (heq ▸ hc)
    rw [hshown, List.length_append]
    omega

/-- The call is safe and gives the second word of the request line. -/
def Meets (text : List Char) : Request → Prop
  | .crashed => False
  | .returned ret resourceName =>
      (∀ token, resourceName = some token → token.length < BUFSIZE) ∧
        (ret = -1 ∨ ret = 0 ∧ ∃ before token, resourceName = some token ∧ '\x00' ∉ token ∧
          IsSecond ' ' (requestLine text) before token)

theorem meets_failed (text : List Char) : Meets text (.returned (-1) none) :=
  ⟨fun _ hname => (by cases hname), .inl rfl⟩

theorem meets_failed_later (text : List Char) {token : List Char}
    (h : token.length < BUFSIZE) : Meets text (.returned (-1) (some token)) := by
  refine ⟨?_, .inl rfl⟩
  intro name hname
  cases hname
  exact h

theorem fgets_nil (error : Bool) : fgets BUFSIZE ⟨[], error⟩ = none := by
  cases error with
  | false => decide
  | true => decide

theorem fgets_some {size : Nat} {s rest : Stream} {buf : List Char}
    (h : fgets size s = some (buf, rest)) :
    buf = (requestLine s.text).take (size - 1) ∧ rest.error = s.error := by
  simp only [fgets, takeLine_eq] at h
  split at h
  · cases h
    exact ⟨rfl, rfl⟩
  · split at h
    · cases h
    · cases h
      exact ⟨rfl, rfl⟩

theorem fgets_of_no_error {size : Nat} {text : List Char} (hne : text ≠ []) (hsize : 1 < size) :
    ∃ buf rest, fgets size ⟨text, false⟩ = some (buf, rest) := by
  have hline : takeLine (size - 1) text ≠ [] := by
    obtain ⟨c, text, rfl⟩ := List.exists_cons_of_ne_nil hne
    obtain ⟨n, hn⟩ : ∃ n, size - 1 = n + 1 := ⟨size - 2, by omega⟩
    rw [hn, takeLine]
    split
    · exact List.cons_ne_nil _ _
    · exact List.cons_ne_nil _ _
  simp only [fgets, hline, Bool.false_eq_true, or_self, if_false]
  split
  · exact ⟨_, _, rfl⟩
  · exact ⟨_, _, rfl⟩

theorem readRest_of_none {s : Stream} (h : fgets BUFSIZE s = none) : readRest s = s.error := by
  rw [readRest]
  split
  · rfl
  · next buf rest hsome =>
      rw [h] at hsome
      cases hsome

theorem readRest_of_some {s rest : Stream} {buf : List Char}
    (h : fgets BUFSIZE s = some (buf, rest)) :
    readRest s = if cString buf = ['\r', '\n'] then false else readRest rest := by
  rw [readRest]
  split
  · next hnone =>
      rw [h] at hnone
      cases hnone
  · next buf' rest' hsome =>
      rw [h] at hsome
      cases hsome
      rfl

theorem readRest_of_no_error {s : Stream} (h : s.error = false) : readRest s = false := by
  induction s using readRest.induct with
  | case1 s hnone =>
      rw [readRest_of_none hnone]
      exact h
  | case2 s buf rest hsome hend =>
      rw [readRest_of_some hsome, if_pos hend]
  | case3 s buf rest hsome hend ih =>
      rw [readRest_of_some hsome, if_neg hend]
      exact ih ((fgets_some hsome).2.trans h)

/-- A client that sends nothing gets -1. All others get a safe answer with the second word of
their request line exactly when there is one, which ends before the buffer does and before a
zero byte. -/
theorem readHttpRequest_meets_iff (text : List Char) :
    (∀ opens closes error, Meets text (readHttpRequest opens closes ⟨text, error⟩)) ↔
      text = [] ∨ ∃ before token, IsSecond ' ' (requestLine text) before token ∧
        (before ++ token).length < BUFSIZE ∧ '\x00' ∉ before ++ token := by
  constructor
  · intro h
    by_cases hempty : text = []
    · exact .inl hempty
    · right
      have hmeets := h true true false
      obtain ⟨buf, rest, hread⟩ : ∃ buf rest, fgets BUFSIZE ⟨text, false⟩ = some (buf, rest) :=
        fgets_of_no_error hempty (by decide)
      obtain ⟨hbuf, herror⟩ := fgets_some hread
      simp only [readHttpRequest, if_true, hread, readRest_of_no_error herror] at hmeets
      cases htoken : secondToken buf with
      | none =>
          rw [htoken] at hmeets
          exact absurd hmeets id
      | some token =>
          rw [htoken] at hmeets
          obtain ⟨_, hfail | hanswer⟩ := hmeets
          · exact absurd hfail (by decide)
          · obtain ⟨_, before, token', hname, _, hline⟩ := hanswer
            cases hname
            obtain ⟨before', hshown⟩ := secondToken_eq_some_iff.mp htoken
            rw [hbuf] at hshown
            obtain ⟨whole, hwhole⟩ := hshown.of_cut (shown_isPrefix text)
            obtain ⟨rfl, rfl⟩ := hline.unique hwhole
            obtain ⟨after, hsplit, _⟩ := hshown.stop
            have hstart : before ++ token <+: shown text := by
              rw [shown, hsplit, ← List.append_assoc]
              exact List.prefix_append _ _
            have hfits := (length_le_shown_iff (hstart.trans (shown_isPrefix text))).mp
              hstart.length_le
            exact ⟨before, token, hline, hfits⟩
  · intro h opens closes error
    cases hread : fgets BUFSIZE ⟨text, error⟩ with
    | none =>
        cases opens with
        | false => exact meets_failed text
        | true =>
            simp only [readHttpRequest, if_true, hread]
            exact meets_failed text
    | some result =>
        obtain ⟨buf, rest⟩ := result
        obtain ⟨hbuf, _⟩ := fgets_some hread
        have hne : text ≠ [] := by
          intro hempty
          rw [hempty, fgets_nil] at hread
          cases hread
        obtain ⟨before, token, hline, hshort, hzero⟩ := h.resolve_left hne
        obtain ⟨after, hsplit, _⟩ := hline.stop
        have hstart : before ++ token <+: requestLine text := by
          rw [hsplit, ← List.append_assoc]
          exact List.prefix_append _ _
        have hshown := hline.of_shown (shown_isPrefix text)
          ((length_le_shown_iff hstart).mpr ⟨hshort, hzero⟩)
        have htoken : secondToken buf = some token := by
          rw [secondToken_eq_some_iff, hbuf]
          exact ⟨before, hshown⟩
        have hlength : token.length < BUFSIZE := by
          rw [List.length_append] at hshort
          omega
        cases opens with
        | false => exact meets_failed text
        | true =>
            simp only [readHttpRequest, if_true, hread, htoken]
            split
            · exact meets_failed_later text hlength
            · cases closes with
              | false => exact meets_failed_later text hlength
              | true =>
                  refine ⟨?_, .inr ⟨rfl, before, token, rfl, fun hmem => ?_, hline⟩⟩
                  · intro name hname
                    cases hname
                    exact hlength
                  · exact hzero (List.mem_append_right _ hmem)

/-- A request line of one word: its second word is copied from the null pointer. -/
theorem readHttpRequest_one_word :
    readHttpRequest true true ⟨"GET\r\n\r\n".toList, false⟩ = .crashed ∧
      ¬ Meets "GET\r\n\r\n".toList
        (readHttpRequest true true ⟨"GET\r\n\r\n".toList, false⟩) := by
  have hread : fgets BUFSIZE ⟨"GET\r\n\r\n".toList, false⟩ =
      some ("GET\r\n".toList, ⟨"\r\n".toList, false⟩) := by decide
  have htoken : secondToken "GET\r\n".toList = none := by decide
  have hcrashed : readHttpRequest true true ⟨"GET\r\n\r\n".toList, false⟩ = .crashed := by
    simp only [readHttpRequest, if_true, hread, htoken]
  refine ⟨hcrashed, ?_⟩
  rw [hcrashed]
  exact id

end UmnProjects.Server.Http
