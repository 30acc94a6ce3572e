import UmnProjects.Server.Requests

/-!
The loop over the rest of a request's header. It is to end at the first empty line, but looks at
the pieces of lines that fit into its buffer.
-/
namespace UmnProjects.Server.Http

/-- How the loop of `readRest` ends: whether it has seen an empty line, and what it leaves of the
stream. -/
def headerEnd (s : Stream) : Bool × Stream :=
  match _h : fgets BUFSIZE s with
  | none => (false, { s with text := [] })
  | some (buf, rest) => if cString buf = ['\r', '\n'] then (true, rest) else headerEnd rest
termination_by s.text.length
decreasing_by exact length_fgets (by decide) _h

theorem headerEnd_of_none {s : Stream} (h : fgets BUFSIZE s = none) :
    headerEnd s = (false, { s with text := [] }) := by
  rw [headerEnd]
  split
  · rfl
  · next buf rest hsome =>
      rw [h] at hsome
      cases hsome

theorem headerEnd_of_some {s rest : Stream} {buf : List Char}
    (h : fgets BUFSIZE s = some (buf, rest)) :
    headerEnd s = if cString buf = ['\r', '\n'] then (true, rest) else headerEnd rest := by
  rw [headerEnd]
  split
  · next hnone =>
      rw [h] at hnone
      cases hnone
  · next buf' rest' hsome =>
      rw [h] at hsome
      cases hsome
      rfl

/-- The rest of a request fails on an error of the stream before any empty line. -/
theorem readRest_eq (s : Stream) : readRest s = (!(headerEnd s).1 && s.error) := by
  induction s using readRest.induct with
  | case1 s hnone =>
      rw [readRest_of_none hnone, headerEnd_of_none hnone]
      rfl
  | case2 s buf rest hsome hend =>
      rw [readRest_of_some hsome, headerEnd_of_some hsome, if_pos hend, if_pos hend]
      rfl
  | case3 s buf rest hsome hend ih =>
      rw [readRest_of_some hsome, headerEnd_of_some hsome, if_neg hend, if_neg hend, ih,
        (fgets_some hsome).2]

/-! ### Pieces -/

section Pieces

variable {body : List Char}

theorem fgets_short (hbody : '\n' ∉ body) (hlength : body.length < BUFSIZE - 1)
    (text : List Char) (error : Bool) : fgets BUFSIZE ⟨body ++ '\n' :: text, error⟩ =
      some (body ++ ['\n'], ⟨text, error⟩) := by
  have hline : takeLine (BUFSIZE - 1) (body ++ '\n' :: text) = body ++ ['\n'] := by
    rw [takeLine_eq, requestLine_append hbody, requestLine_cons, if_pos rfl]
    apply List.take_of_length_le
    rw [List.length_append, List.length_singleton]
    omega
  have hlast : (body ++ ['\n']).getLast? = some '\n' := List.getLast?_concat
  have hdrop : (body ++ '\n' :: text).drop (body ++ ['\n']).length = text := by
    have hsplit : body ++ '\n' :: text = (body ++ ['\n']) ++ text := by simp
    rw [hsplit, List.drop_left]
  simp only [fgets, hline, hlast, or_true, if_true, hdrop]

theorem fgets_long (hbody : '\n' ∉ body) (hlength : BUFSIZE - 1 ≤ body.length)
    (text : List Char) (error : Bool) : fgets BUFSIZE ⟨body ++ text, error⟩ =
      some (body.take (BUFSIZE - 1), ⟨body.drop (BUFSIZE - 1) ++ text, error⟩) := by
  have hline : takeLine (BUFSIZE - 1) (body ++ text) = body.take (BUFSIZE - 1) := by
    rw [takeLine_eq, requestLine_append hbody, List.take_append_of_le_length hlength]
  have hfull : (body.take (BUFSIZE - 1)).length = BUFSIZE - 1 := List.length_take_of_le hlength
  simp only [fgets, hline, hfull, true_or, if_true, List.drop_append_of_le_length hlength]

/-- The end of a stream, behind its last line. -/
theorem fgets_last (hbody : '\n' ∉ body) (hlength : body.length < BUFSIZE - 1) (error : Bool) :
    fgets BUFSIZE ⟨body, error⟩ = none ∨
      fgets BUFSIZE ⟨body, error⟩ = some (body, ⟨[], error⟩) := by
  have hline : takeLine (BUFSIZE - 1) body = body := by
    have happend := requestLine_append hbody []
    have hnil : requestLine [] = [] := rfl
    rw [hnil, List.append_nil] at happend
    rw [takeLine_eq, happend]
    exact List.take_of_length_le (Nat.le_of_lt hlength)
  have hopen : ¬ (body.length = BUFSIZE - 1 ∨ body.getLast? = some '\n') := by
    intro hends
    obtain hfull | hlast := hends
    · omega
    · exact hbody (List.mem_of_getLast? hlast)
  simp only [fgets, hline, if_neg hopen]
  split
  · exact .inl rfl
  · exact .inr rfl

theorem cString_ne_of_not_mem {buf : List Char} (h : '\n' ∉ buf) :
    cString buf ≠ ['\r', '\n'] := by
  intro heq
  have hmem : '\n' ∈ cString buf := by
    rw [heq]
    decide
  exact h ((List.takeWhile_prefix _).subset hmem)

theorem cString_line_iff (hbody : '\n' ∉ body) :
    cString (body ++ ['\n']) = ['\r', '\n'] ↔ body = ['\r'] := by
  constructor
  · intro h
    have hstart : ['\r', '\n'] <+: body ++ ['\n'] := by
      rw [← h]
      exact List.takeWhile_prefix _
    cases body with
    | nil => exact absurd hstart (by decide)
    | cons c body =>
        obtain ⟨hc, hrest⟩ := List.cons_prefix_cons.mp hstart
        cases body with
        | nil => rw [hc]
        | cons d body =>
            obtain ⟨hd, _⟩ := List.cons_prefix_cons.mp hrest
            exact absurd (hd ▸ List.mem_cons_of_mem c List.mem_cons_self) hbody
  · intro h
    rw [h]
    decide

/-- The last piece of the line is taken for an empty line. -/
def EndsHeader (body : List Char) : Prop :=
  body.length % (BUFSIZE - 1) = 1 ∧ body.getLast? = some '\r'

instance : DecidablePred EndsHeader := fun body =>
  inferInstanceAs (Decidable (body.length % (BUFSIZE - 1) = 1 ∧ body.getLast? = some '\r'))

theorem endsHeader_of_short (hlength : body.length < BUFSIZE - 1) :
    EndsHeader body ↔ body = ['\r'] := by
  rw [EndsHeader, Nat.mod_eq_of_lt hlength]
  constructor
  · intro h
    obtain ⟨hone, hlast⟩ := h
    obtain ⟨c, rfl⟩ := List.length_eq_one_iff.mp hone
    cases hlast
    rfl
  · intro h
    rw [h]
    exact ⟨rfl, rfl⟩

theorem endsHeader_drop (hlength : BUFSIZE - 1 ≤ body.length) :
    EndsHeader (body.drop (BUFSIZE - 1)) ↔ EndsHeader body := by
  rw [EndsHeader, EndsHeader, List.length_drop, ← Nat.mod_eq_sub_mod hlength,
    List.getLast?_drop]
  by_cases hfull : body.length ≤ BUFSIZE - 1
  · have hzero : body.length % (BUFSIZE - 1) ≠ 1 := by
      rw [Nat.le_antisymm hfull hlength]
      decide
    exact iff_of_false (fun h => hzero h.1) (fun h => hzero h.1)
  · rw [if_neg hfull]

/-- Buffer by buffer, up to the end of the line. -/
theorem pieces_induction {P : List Char → Prop}
    (short : ∀ body, '\n' ∉ body → body.length < BUFSIZE - 1 → P body)
    (long : ∀ body, '\n' ∉ body → '\n' ∉ body.take (BUFSIZE - 1) →
      BUFSIZE - 1 ≤ body.length → P (body.drop (BUFSIZE - 1)) → P body)
    (hbody : '\n' ∉ body) : P body := by
  induction hlength : body.length using Nat.strongRecOn generalizing body with
  | ind length ih =>
      by_cases hlong : BUFSIZE - 1 ≤ body.length
      · have hless : (body.drop (BUFSIZE - 1)).length < length := by
          rw [List.length_drop, hlength]
          simp only [BUFSIZE] at hlong ⊢
          omega
        exact long body hbody (fun hmem => hbody (List.mem_of_mem_take hmem)) hlong
          (ih _ hless (fun hmem => hbody (List.mem_of_mem_drop hmem)) rfl)
      · exact short body hbody (Nat.not_le.mp hlong)

theorem headerEnd_line (hbody : '\n' ∉ body) (text : List Char) (error : Bool) :
    headerEnd ⟨body ++ '\n' :: text, error⟩ =
      if EndsHeader body then (true, ⟨text, error⟩) else headerEnd ⟨text, error⟩ := by
  refine pieces_induction (P := fun body => headerEnd ⟨body ++ '\n' :: text, error⟩ =
    if EndsHeader body then (true, ⟨text, error⟩) else headerEnd ⟨text, error⟩) ?_ ?_ hbody
  · intro body hbody hshort
    rw [headerEnd_of_some (fgets_short hbody hshort text error)]
    simp only [cString_line_iff hbody, endsHeader_of_short hshort]
  · intro body hbody hpiece hlong ih
    rw [headerEnd_of_some (fgets_long hbody hlong _ error),
      if_neg (cString_ne_of_not_mem hpiece), ih]
    simp only [endsHeader_drop hlong]

theorem headerEnd_last (hbody : '\n' ∉ body) (error : Bool) :
    (headerEnd ⟨body, error⟩).2.text = [] := by
  refine pieces_induction (P := fun body => (headerEnd ⟨body, error⟩).2.text = []) ?_ ?_ hbody
  · intro body hbody hshort
    obtain hnone | hsome := fgets_last hbody hshort error
    · rw [headerEnd_of_none hnone]
    · rw [headerEnd_of_some hsome, if_neg (cString_ne_of_not_mem hbody),
        headerEnd_of_none (fgets_nil error)]
  · intro body hbody hpiece hlong ih
    have hread := fgets_long hbody hlong [] error
    rw [List.append_nil, List.append_nil] at hread
    rw [headerEnd_of_some hread, if_neg (cString_ne_of_not_mem hpiece)]
    exact ih

end Pieces

/-! ### Empty lines -/

def emptyLine : List Char := ['\r', '\n']

/-- What follows the first empty line. -/
def behindEmpty (lines : List (List Char)) : List Char :=
  (lines.dropWhile (· != emptyLine)).tail.flatten

theorem behindEmpty_cons {line : List Char} (h : line ≠ emptyLine) (lines : List (List Char)) :
    behindEmpty (line :: lines) = behindEmpty lines := by
  have hother : (line != emptyLine) = true := bne_iff_ne.mpr h
  rw [behindEmpty, List.dropWhile_cons, if_pos hother]
  rfl

/-- What follows the first empty line behind the request line. -/
def afterEmptyLine (text : List Char) : List Char := behindEmpty (streamLines text).tail

/-- A long line whose end is alone in the last piece of it. -/
def CutLine (line : List Char) : Prop :=
  emptyLine <:+ line ∧ ∃ n, line.length = (n + 1) * (BUFSIZE - 1) + 2

/-- None of the lines up to the first empty one is cut before its end, unless nothing follows. -/
def Uncut (lines : List (List Char)) : Prop :=
  ∀ before line after, lines = before ++ line :: after → emptyLine ∉ before → CutLine line →
    after = []

theorem endsHeader_iff_cutLine {body : List Char} (hne : body ≠ ['\r']) :
    EndsHeader body ↔ CutLine (body ++ ['\n']) := by
  constructor
  · intro h
    obtain ⟨hone, hlast⟩ := h
    obtain ⟨start, rfl⟩ := List.getLast?_eq_some_iff.mp hlast
    refine ⟨⟨start, by simp [emptyLine]⟩, start.length / (BUFSIZE - 1) - 1, ?_⟩
    have hlong : start.length ≠ 0 := by
      intro hzero
      rw [List.length_eq_zero_iff.mp hzero] at hne
      exact hne rfl
    simp only [List.length_append, List.length_singleton, BUFSIZE] at hone ⊢
    omega
  · intro h
    obtain ⟨hend, n, hn⟩ := h
    obtain ⟨start, hstart⟩ := hend
    have hbody : start ++ ['\r'] = body := by
      have hline : (start ++ ['\r']) ++ ['\n'] = body ++ ['\n'] := by
        rw [← hstart, List.append_assoc]
        rfl
      exact List.append_cancel_right hline
    refine ⟨?_, ?_⟩
    · simp only [List.length_append, List.length_singleton, BUFSIZE] at hn ⊢
      omega
    · rw [← hbody]
      exact List.getLast?_concat

theorem not_cutLine_emptyLine : ¬ CutLine emptyLine := by
  intro h
  obtain ⟨_, n, hn⟩ := h
  have htwo : emptyLine.length = 2 := rfl
  simp only [htwo, BUFSIZE] at hn
  omega

theorem uncut_cons {line : List Char} {lines : List (List Char)} (hne : line ≠ emptyLine) :
    Uncut (line :: lines) ↔ (CutLine line → lines = []) ∧ Uncut lines := by
  have hbefore (before : List (List Char)) : emptyLine ∉ line :: before ↔ emptyLine ∉ before :=
    ⟨fun h hmem => h (List.mem_cons_of_mem _ hmem),
      List.not_mem_cons_of_ne_of_not_mem (Ne.symm hne)⟩
  rw [Uncut, Tokens.forall_place_cons]
  apply and_congr
  · exact ⟨fun h => h List.not_mem_nil, fun h _ => h⟩
  · simp only [hbefore]
    rfl

theorem uncut_nil : Uncut [] := by
  intro before line after hsplit
  exact absurd hsplit.symm (List.append_ne_nil_of_right_ne_nil _ (List.cons_ne_nil _ _))

theorem uncut_emptyLine (lines : List (List Char)) : Uncut (emptyLine :: lines) := by
  rw [Uncut, Tokens.forall_place_cons]
  refine ⟨fun _ hcut => absurd hcut not_cutLine_emptyLine, ?_⟩
  intro before line after _ hbefore
  exact absurd List.mem_cons_self hbefore

theorem length_behindEmpty_lt {text : List Char} (hne : text ≠ []) :
    (behindEmpty (streamLines text)).length < text.length := by
  have hsplit := congrArg List.flatten
    (List.takeWhile_append_dropWhile (p := (· != emptyLine)) (l := streamLines text))
  rw [flatten_streamLines, List.flatten_append] at hsplit
  rw [behindEmpty]
  cases hdrop : (streamLines text).dropWhile (· != emptyLine) with
  | nil => exact List.length_pos_iff.mpr hne
  | cons line lines =>
      have hhead : ((streamLines text).dropWhile (· != emptyLine)).head? = some line := by
        rw [hdrop]
        rfl
      have hline := Tokens.head_dropWhile hhead
      have htwo : line.length = 2 := by
        rw [bne_eq_false_iff_eq.mp hline]
        rfl
      have hlength := congrArg List.length hsplit
      rw [hdrop, List.flatten_cons, List.length_append, List.length_append, htwo] at hlength
      rw [List.tail_cons]
      omega

/-- A line behind which the loop ends or goes on. -/
theorem stop_iff {body text : List Char} {error : Bool} (hne : body ≠ ['\r'])
    (ih : (headerEnd ⟨text, error⟩).2.text = behindEmpty (streamLines text) ↔
      Uncut (streamLines text)) :
    (if EndsHeader body then (true, (⟨text, error⟩ : Stream))
      else headerEnd ⟨text, error⟩).2.text = behindEmpty (streamLines text) ↔
        (CutLine (body ++ ['\n']) → streamLines text = []) ∧ Uncut (streamLines text) := by
  by_cases hends : EndsHeader body
  · rw [if_pos hends]
    have hcut := (endsHeader_iff_cutLine hne).mp hends
    by_cases hempty : text = []
    · rw [hempty]
      exact iff_of_true rfl ⟨fun _ => rfl, uncut_nil⟩
    · apply iff_of_false
      · intro heq
        have hless := length_behindEmpty_lt hempty
        rw [← heq] at hless
        exact Nat.lt_irrefl _ hless
      · intro h
        have hflatten := flatten_streamLines text
        rw [h.1 hcut] at hflatten
        exact hempty hflatten.symm
  · rw [if_neg hends, ih]
    have hcut := mt (endsHeader_iff_cutLine hne).mpr hends
    exact ⟨fun h => ⟨fun hline => absurd hline hcut, h⟩, fun h => h.2⟩

theorem headerEnd_text_iff (text : List Char) (error : Bool) :
    (headerEnd ⟨text, error⟩).2.text = behindEmpty (streamLines text) ↔
      Uncut (streamLines text) := by
  induction text using lines_induction with
  | nil =>
      rw [headerEnd_of_none (fgets_nil error)]
      exact iff_of_true rfl uncut_nil
  | last body hbody hne =>
      have hother : body ≠ emptyLine := by
        intro heq
        rw [heq] at hbody
        exact absurd hbody (by decide)
      rw [headerEnd_last hbody, streamLines_of_not_mem hbody hne, behindEmpty_cons hother]
      exact iff_of_true rfl ((uncut_cons hother).mpr ⟨fun _ => rfl, uncut_nil⟩)
  | line body text hbody ih =>
      rw [headerEnd_line hbody, streamLines_append_cons hbody]
      by_cases hempty : body = ['\r']
      · rw [hempty]
        have hends : EndsHeader ['\r'] := by decide
        have hbehind : behindEmpty (emptyLine :: streamLines text) = text :=
          flatten_streamLines text
        rw [if_pos hends]
        exact iff_of_true hbehind.symm (uncut_emptyLine _)
      · have hother : body ++ ['\n'] ≠ ['\r'] ++ ['\n'] := fun heq =>
          hempty (List.append_cancel_right heq)
        rw [behindEmpty_cons hother, uncut_cons hother]
        exact stop_iff hempty ih

/-- The same for a stream, whose first line is the request line. -/
def UncutHeader (text : List Char) : Prop :=
  ∀ before line after, streamLines text = before ++ line :: after → emptyLine ∉ before.tail →
    CutLine line → after = []

theorem uncutHeader_iff {text : List Char} {line : List Char} {lines : List (List Char)}
    (h : streamLines text = line :: lines) :
    UncutHeader text ↔ (CutLine line → lines = []) ∧ Uncut lines := by
  rw [UncutHeader, h, Tokens.forall_place_cons]
  exact and_congr ⟨fun h => h List.not_mem_nil, fun h _ => h⟩ Iff.rfl

/-- The loop consumes the header up to the first empty line, or all of the stream, exactly when
no line up to there is cut just before its end. -/
theorem headerEnd_iff {s rest : Stream} {buf : List Char}
    (h : fgets BUFSIZE s = some (buf, rest)) :
    (headerEnd rest).2.text = afterEmptyLine s.text ↔ UncutHeader s.text := by
  obtain ⟨text, error⟩ := s
  simp only
  rw [afterEmptyLine]
  induction text using lines_induction with
  | nil =>
      rw [fgets_nil] at h
      cases h
  | last body hbody hne =>
      have hlines := streamLines_of_not_mem hbody hne
      have huncut : UncutHeader body := (uncutHeader_iff hlines).mpr ⟨fun _ => rfl, uncut_nil⟩
      rw [hlines]
      apply iff_of_true ?_ huncut
      by_cases hlong : BUFSIZE - 1 ≤ body.length
      · have hread := fgets_long hbody hlong [] error
        rw [List.append_nil, List.append_nil, h] at hread
        cases hread
        exact headerEnd_last (fun hmem => hbody (List.mem_of_mem_drop hmem)) error
      · obtain hnone | hsome := fgets_last hbody (Nat.not_le.mp hlong) error
        · rw [h] at hnone
          cases hnone
        · rw [h] at hsome
          cases hsome
          exact headerEnd_last List.not_mem_nil error
  | line body text hbody _ =>
      have hlines := streamLines_append_cons hbody text
      rw [uncutHeader_iff hlines, hlines, List.tail_cons]
      have ih := headerEnd_text_iff text error
      by_cases hlong : BUFSIZE - 1 ≤ body.length
      · have hne : body ≠ ['\r'] := by
          intro heq
          rw [heq] at hlong
          exact absurd hlong (by decide)
        have hread := fgets_long hbody hlong ('\n' :: text) error
        rw [h] at hread
        cases hread
        rw [headerEnd_line fun hmem => hbody (List.mem_of_mem_drop hmem)]
        simp only [endsHeader_drop hlong]
        exact stop_iff hne ih
      · have hread := fgets_short hbody (Nat.not_le.mp hlong) text error
        rw [h] at hread
        cases hread
        have hcut : ¬ CutLine (body ++ ['\n']) := by
          intro hcut
          obtain ⟨_, n, hn⟩ := hcut
          rw [List.length_append, List.length_singleton] at hn
          simp only [BUFSIZE] at hn hlong
          omega
        rw [ih]
        exact ⟨fun h => ⟨fun hline => absurd hline hcut, h⟩, fun h => h.2⟩

theorem headerEnd_iff_short :
    UncutHeader "GET /a.txt\r\n\r\nmore".toList ∧
      (headerEnd ⟨"\r\nmore".toList, false⟩).2.text = "more".toList := by
  have hread : fgets BUFSIZE ⟨"GET /a.txt\r\n\r\nmore".toList, false⟩ =
      some ("GET /a.txt\r\n".toList, ⟨"\r\nmore".toList, false⟩) := by decide
  have hlines : streamLines "GET /a.txt\r\n\r\nmore".toList =
      ["GET /a.txt\r\n".toList, emptyLine, "more".toList] := by decide
  have hshort : ¬ CutLine "GET /a.txt\r\n".toList := by
    intro hcut
    obtain ⟨_, n, hn⟩ := hcut
    have hlength : 12 = (n + 1) * (BUFSIZE - 1) + 2 := hn
    simp only [BUFSIZE] at hlength
    omega
  have huncut : UncutHeader "GET /a.txt\r\n\r\nmore".toList :=
    (uncutHeader_iff hlines).mpr ⟨fun hcut => absurd hcut hshort, uncut_emptyLine _⟩
  refine ⟨huncut, ((headerEnd_iff hread).mpr huncut).trans ?_⟩
  rw [afterEmptyLine, hlines]
  rfl

/-- A header line of 511 bytes before its end. -/
def longLine : List Char := List.replicate 511 'x' ++ ['\r']

/-- A request with this line in its header, which is ended by an empty line. -/
def longRequest : List Char :=
  "GET /a.txt HTTP/1.0".toList ++ '\r' :: '\n' :: (longLine ++ '\n' :: emptyLine)

/-- The loop takes the end of the long line for the empty line, and leaves that unread. -/
theorem headerEnd_longLine :
    fgets BUFSIZE ⟨longRequest, false⟩ = some ("GET /a.txt HTTP/1.0\r\n".toList,
        ⟨longLine ++ '\n' :: emptyLine, false⟩) ∧
      (headerEnd ⟨longLine ++ '\n' :: emptyLine, false⟩).2.text = emptyLine ∧
      afterEmptyLine longRequest = [] := by
  have hrequest : '\n' ∉ "GET /a.txt HTTP/1.0\r".toList := by decide
  have hlong : '\n' ∉ longLine := by
    intro hmem
    obtain hx | hreturn := List.mem_append.mp hmem
    · exact absurd (List.eq_of_mem_replicate hx) (by decide)
    · exact absurd (List.mem_singleton.mp hreturn) (by decide)
  have hlength : longLine.length = 512 := by
    rw [longLine, List.length_append, List.length_replicate, List.length_singleton]
  have hends : EndsHeader longLine := by
    rw [EndsHeader, hlength]
    exact ⟨by decide, List.getLast?_concat⟩
  have hsplit : longRequest =
      "GET /a.txt HTTP/1.0\r".toList ++ '\n' :: (longLine ++ '\n' :: emptyLine) := by
    change "GET /a.txt HTTP/1.0".toList ++ '\r' :: '\n' :: (longLine ++ '\n' :: emptyLine) = _
    simp
  refine ⟨?_, ?_, ?_⟩
  · have hread := fgets_short hrequest (by decide) (longLine ++ '\n' :: emptyLine) false
    have hline : "GET /a.txt HTTP/1.0\r\n".toList = "GET /a.txt HTTP/1.0\r".toList ++ ['\n'] := by
      simp
    rw [hsplit, hread, hline]
  · rw [headerEnd_line hlong, if_pos hends]
  · have hother : longLine ++ ['\n'] ≠ emptyLine := by
      intro heq
      have hlengths := congrArg List.length heq
      rw [List.length_append, hlength] at hlengths
      exact absurd hlengths (by decide)
    have hlines := streamLines_append_cons hrequest (longLine ++ '\n' :: emptyLine)
    rw [afterEmptyLine, hsplit, hlines, List.tail_cons, streamLines_append_cons hlong,
      behindEmpty_cons hother]
    decide

end UmnProjects.Server.Http
