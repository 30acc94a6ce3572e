import UmnProjects.Foundations.Runs
import UmnProjects.Server.Http

/-!
What the two calls of the protocol do with the stream they open. Each is a step function over
the points between its stdio and system calls; a label is one of these calls with what it
returned, which may be anything at any point.
-/
namespace UmnProjects.Server.Http
open Runs

/-- What a call does to the stream it opens. -/
inductive StreamCall where
  | opened
  | openFailed
  | used
  | closed
deriving DecidableEq

inductive Point (P : Type) where
  | running (p : P)
  | returned (ret : Int)
  | crashed
deriving DecidableEq

structure Session (P : Type) where
  point : Point P
  trace : List StreamCall
deriving DecidableEq

/-- One stdio or system call moves the session on and adds what it does to the stream. -/
def Session.step {P A : Type} (next : P → A → Option (Point P × List StreamCall))
    (s : Session P) (a : A) : Option (Session P) :=
  match s.point with
  | .running p =>
      match next p a with
      | some (q, calls) => some ⟨q, s.trace ++ calls⟩
      | none => none
  | _ => none

/-! ### Reading a request -/

inductive ReadCall where
  | dup (sockFdCopy : Int)
  | fdopen (opens : Bool)
  | close (result : Int)
  | setvbuf (result : Int)
  | fgets (buf : Option (List Char))
  | ferror (result : Int)
  | fclose (result : Int)

/-- The calls of `read_http_request`; `abandon` is the `fclose` before an error is returned. -/
inductive ReadPoint where
  | dup
  | fdopen
  | closeCopy
  | setvbuf
  | requestLine
  | requestError
  | header
  | headerError
  | fclose
  | abandon
deriving DecidableEq

def readNext : ReadPoint → ReadCall → Option (Point ReadPoint × List StreamCall)
  | .dup, .dup sockFdCopy =>
      some (if sockFdCopy = -1 then .returned (-1) else .running .fdopen, [])
  | .fdopen, .fdopen true => some (.running .setvbuf, [.opened])
  | .fdopen, .fdopen false => some (.running .closeCopy, [.openFailed])
  | .closeCopy, .close _ => some (.returned (-1), [])
  | .setvbuf, .setvbuf result =>
      some (.running (if result ≠ 0 then .abandon else .requestLine), [.used])
  | .requestLine, .fgets none => some (.running .requestError, [.used])
  | .requestLine, .fgets (some buf) =>
      -- `strcpy` from the null pointer when the line has no second token
      some (if secondToken buf = none then .crashed else .running .header, [.used])
  | .requestError, .ferror _ => some (.running .abandon, [.used])
  | .header, .fgets none => some (.running .headerError, [.used])
  | .header, .fgets (some buf) =>
      some (.running (if cString buf = ['\r', '\n'] then .headerError else .header), [.used])
  | .headerError, .ferror result =>
      -- this exit leaves the stream open
      some (if result ≠ 0 then .returned (-1) else .running .fclose, [.used])
  | .fclose, .fclose result => some (.returned (if result ≠ 0 then -1 else 0), [.closed])
  | .abandon, .fclose _ => some (.returned (-1), [.closed])
  | _, _ => none

/-! ### Writing a response -/

inductive WriteCall where
  | stat (result : Stat)
  | fopen (opens : Bool)
  | fread (count : Nat)
  | ferror (result : Int)
  | write (result : Int)
  | fclose (result : Int)

/-- The calls of `write_http_response`: `body` to `head` are those for the first buffer, `fp` is
not the null pointer when it holds true. -/
inductive WritePoint where
  | stat
  | fopen
  | body (fp : Bool)
  | bodyError
  | head
  | contents
  | block
  | contentsError
  | fclose
  | abandon
deriving DecidableEq

def writeNext (fd : Int) (resourcePath : List Char) :
    WritePoint → WriteCall → Option (Point WritePoint × List StreamCall)
  | .stat, .stat .missing => some (.returned 0, [])
  | .stat, .stat .failed => some (.returned (-1), [])
  | .stat, .stat (.regular _) =>
      match fileExtension resourcePath with
      | none => some (.crashed, [])
      | some fileExtension =>
          match getMimeType fileExtension with
          | none => some (.returned (-1), [])
          | some _ => some (.running .fopen, [])
  | .fopen, .fopen opens =>
      -- the test looks at the socket, not at the file
      some (if fd = -1 then .returned (-1) else .running (.body opens),
        [if opens then .opened else .openFailed])
  | .body fp, .fread _ => some (if fp then .running .bodyError else .crashed, [.used])
  | .bodyError, .ferror result =>
      some (.running (if result ≠ 0 then .abandon else .head), [.used])
  | .head, .write result => some (.running (if result = -1 then .abandon else .contents), [])
  | .contents, .fread count =>
      some (.running (if 0 < count then .block else .contentsError), [.used])
  | .block, .write result => some (.running (if result = -1 then .abandon else .contents), [])
  | .contentsError, .ferror result =>
      some (.running (if result ≠ 0 then .abandon else .fclose), [.used])
  | .fclose, .fclose result => some (.returned (if result ≠ 0 then -1 else 0), [.closed])
  | .abandon, .fclose _ => some (.returned (-1), [.closed])
  | _, _ => none

def readStart : Session ReadPoint := ⟨.running .dup, []⟩

def writeStart : Session WritePoint := ⟨.running .stat, []⟩

/-! ### Streams that deliver a text -/

def Request.point : Request → Point ReadPoint
  | .returned ret _ => .returned ret
  | .crashed => .crashed

def Outcome.point : Outcome → Point WritePoint
  | .returned ret => .returned ret
  | .crashed => .crashed

theorem readRest_reaches (s : Stream) (trace : List StreamCall) :
    ∃ trace', Reaches (Session.step readNext) ⟨.running .header, trace⟩
      ⟨if readRest s then .returned (-1) else .running .fclose, trace'⟩ := by
  fun_induction readRest s generalizing trace with
  | case1 s _ =>
      cases herror : s.error with
      | true =>
          exact ⟨_, .head (a := .fgets none) trivial rfl
            (.head (a := .ferror 1) trivial rfl .refl)⟩
      | false =>
          exact ⟨_, .head (a := .fgets none) trivial rfl
            (.head (a := .ferror 0) trivial rfl .refl)⟩
  | case2 s buf rest _ hend =>
      have hline : Session.step readNext ⟨.running .header, trace⟩ (.fgets (some buf)) =
          some ⟨.running .headerError, trace ++ [.used]⟩ := by simp [Session.step, readNext, hend]
      exact ⟨_, .head trivial hline (.head (a := .ferror 0) trivial rfl .refl)⟩
  | case3 s buf rest _ hmore ih =>
      obtain ⟨trace', hrest⟩ := ih (trace ++ [.used])
      have hline : Session.step readNext ⟨.running .header, trace⟩ (.fgets (some buf)) =
          some ⟨.running .header, trace ++ [.used]⟩ := by simp [Session.step, readNext, hmore]
      exact ⟨trace', .head trivial hline hrest⟩

/-- Reading a request from a stream that delivers a text is one of the runs. -/
theorem readHttpRequest_reaches (opens closes : Bool) (s : Stream) :
    ∃ trace, Reaches (Session.step readNext) readStart
      ⟨(readHttpRequest opens closes s).point, trace⟩ := by
  cases opens with
  | false => exact ⟨_, .head (a := .dup (-1)) trivial rfl .refl⟩
  | true =>
      have hopen : Reaches (Session.step readNext) readStart
          ⟨.running .requestLine, [.opened, .used]⟩ :=
        .head (a := .dup 0) trivial rfl (.head (a := .fdopen true) trivial rfl
          (.head (a := .setvbuf 0) trivial rfl .refl))
      cases hline : fgets BUFSIZE s with
      | none =>
          simp only [readHttpRequest, hline, if_true]
          exact ⟨_, hopen.trans (.head (a := .fgets none) trivial rfl
            (.head (a := .ferror 0) trivial rfl (.head (a := .fclose 0) trivial rfl .refl)))⟩
      | some read =>
          obtain ⟨buf, rest⟩ := read
          cases htoken : secondToken buf with
          | none =>
              simp only [readHttpRequest, hline, htoken, if_true]
              have hcrash : Session.step readNext ⟨.running .requestLine, [.opened, .used]⟩
                  (.fgets (some buf)) = some ⟨.crashed, [.opened, .used, .used]⟩ := by
                simp [Session.step, readNext, htoken]
              exact ⟨_, hopen.tail trivial hcrash⟩
          | some token =>
              simp only [readHttpRequest, hline, htoken, if_true]
              have hname : Session.step readNext ⟨.running .requestLine, [.opened, .used]⟩
                  (.fgets (some buf)) = some ⟨.running .header, [.opened, .used, .used]⟩ := by
                simp [Session.step, readNext, htoken]
              obtain ⟨trace, hrest⟩ := readRest_reaches rest [.opened, .used, .used]
              have hread := (hopen.tail trivial hname).trans hrest
              cases herror : readRest rest with
              | true =>
                  rw [herror] at hread
                  exact ⟨trace, hread⟩
              | false =>
                  rw [herror] at hread
                  cases closes with
                  | true => exact ⟨_, hread.tail (a := .fclose 0) trivial rfl⟩
                  | false => exact ⟨_, hread.tail (a := .fclose 1) trivial rfl⟩

section Responses

variable {fd : Int} {resourcePath : List Char}

theorem writeContents_reaches (fd : Int) (resourcePath : List Char) (calls : Calls) (n : Nat)
    (response contents : Bytes) (trace : List StreamCall) :
    ∃ trace', Reaches (Session.step (writeNext fd resourcePath)) ⟨.running .contents, trace⟩
      ⟨(writeContents calls n response contents).outcome.point, trace'⟩ := by
  fun_induction writeContents calls n response contents generalizing trace with
  | case1 n response contents _ =>
      exact ⟨_, .head (a := .fread 0) trivial rfl (.head (a := .ferror 1) trivial rfl
        (.head (a := .fclose 0) trivial rfl .refl))⟩
  | case2 n response _ =>
      cases calls.fclose with
      | true =>
          exact ⟨_, .head (a := .fread 0) trivial rfl (.head (a := .ferror 0) trivial rfl
            (.head (a := .fclose 0) trivial rfl .refl))⟩
      | false =>
          exact ⟨_, .head (a := .fread 0) trivial rfl (.head (a := .ferror 0) trivial rfl
            (.head (a := .fclose 1) trivial rfl .refl))⟩
  | case3 n response contents _ _ _ _ _ ih =>
      obtain ⟨trace', hrest⟩ := ih (trace ++ [.used] ++ [])
      exact ⟨trace', .head (a := .fread BUFSIZE) trivial rfl
        (.head (a := .write BUFSIZE) trivial rfl hrest)⟩
  | case4 n response contents _ _ _ =>
      exact ⟨_, .head (a := .fread BUFSIZE) trivial rfl (.head (a := .write (-1)) trivial rfl
        (.head (a := .fclose 0) trivial rfl .refl))⟩

/-- Writing a response to a socket is one of the runs. -/
theorem writeHttpResponse_reaches (socket : fd ≠ -1) (calls : Calls) (response : Bytes)
    (stat : Stat) :
    ∃ trace, Reaches (Session.step (writeNext fd resourcePath)) writeStart
      ⟨(writeHttpResponse calls response resourcePath stat).outcome.point, trace⟩ := by
  cases stat with
  | missing => exact ⟨_, .head (a := .stat .missing) trivial rfl .refl⟩
  | failed => exact ⟨_, .head (a := .stat .failed) trivial rfl .refl⟩
  | regular contents =>
      cases hextension : fileExtension resourcePath with
      | none =>
          have hcrash : Session.step (writeNext fd resourcePath) writeStart
              (.stat (.regular contents)) = some ⟨.crashed, []⟩ := by
            simp [Session.step, writeNext, writeStart, hextension]
          simp only [writeHttpResponse, hextension]
          exact ⟨_, .head trivial hcrash .refl⟩
      | some extension =>
          cases htype : getMimeType extension with
          | none =>
              have hinvalid : Session.step (writeNext fd resourcePath) writeStart
                  (.stat (.regular contents)) = some ⟨.returned (-1), []⟩ := by
                simp [Session.step, writeNext, writeStart, hextension, htype]
              simp only [writeHttpResponse, hextension, htype]
              exact ⟨_, .head trivial hinvalid .refl⟩
          | some type =>
              have hstat : Session.step (writeNext fd resourcePath) writeStart
                  (.stat (.regular contents)) = some ⟨.running .fopen, []⟩ := by
                simp [Session.step, writeNext, writeStart, hextension, htype]
              have hopen (opens : Bool) : Session.step (writeNext fd resourcePath)
                  ⟨.running .fopen, []⟩ (.fopen opens) = some ⟨.running (.body opens),
                    [if opens then .opened else .openFailed]⟩ := by
                simp [Session.step, writeNext, socket]
              simp only [writeHttpResponse, hextension, htype]
              split
              · exact ⟨_, .head trivial hstat (.head trivial (hopen false)
                  (.head (a := .fread 0) trivial rfl .refl))⟩
              split
              · exact ⟨_, .head trivial hstat (.head trivial (hopen true)
                  (.head (a := .fread 0) trivial rfl (.head (a := .ferror 1) trivial rfl
                    (.head (a := .fclose 0) trivial rfl .refl))))⟩
              have hhead : Reaches (Session.step (writeNext fd resourcePath)) writeStart
                  ⟨.running .head, [.opened, .used, .used]⟩ :=
                .head trivial hstat (.head trivial (hopen true)
                  (.head (a := .fread 0) trivial rfl (.head (a := .ferror 0) trivial rfl .refl)))
              split
              · obtain ⟨trace, hrest⟩ := writeContents_reaches fd resourcePath calls 1 _ _ _
                exact ⟨trace, (hhead.tail (a := .write BUFSIZE) trivial rfl).trans hrest⟩
              · exact ⟨_, hhead.trans (.head (a := .write (-1)) trivial rfl
                  (.head (a := .fclose 0) trivial rfl .refl))⟩

end Responses

/-! ### What is expected of a stream -/

section Traces

variable {P : Type}

def Session.Ended (s : Session P) : Prop := ∀ p, s.point ≠ .running p

/-- A stream that was opened has been closed exactly once when the call returns; one whose
opening failed is not touched. -/
structure Session.Disciplined (s : Session P) : Prop where
  one : s.trace.count .opened ≤ 1
  closes : ∀ ret, s.point = .returned ret → s.trace.count .closed = s.trace.count .opened
  untouched : .openFailed ∈ s.trace → .used ∉ s.trace ∧ .closed ∉ s.trace

/-- The stream is open. -/
def Held (trace : List StreamCall) : Prop := ∃ n, trace = .opened :: List.replicate n .used

/-- There is no stream, or there is none any more. -/
inductive Settled : List StreamCall → Prop where
  | untried : Settled []
  | failed : Settled [.openFailed]
  | released (n : Nat) : Settled (.opened :: (List.replicate n .used ++ [.closed]))

theorem Held.opened : Held [.opened] := ⟨0, rfl⟩

theorem Held.used {trace : List StreamCall} (h : Held trace) : Held (trace ++ [.used]) := by
  obtain ⟨n, rfl⟩ := h
  exact ⟨n + 1, by rw [List.replicate_succ', List.cons_append]⟩

theorem Held.closed {trace : List StreamCall} (h : Held trace) : Settled (trace ++ [.closed]) := by
  obtain ⟨n, rfl⟩ := h
  exact .released n

theorem Settled.disciplined {point : Point P} {trace : List StreamCall} (h : Settled trace) :
    Session.Disciplined ⟨point, trace⟩ := by
  cases h with
  | untried => exact ⟨by simp, by simp, by simp⟩
  | failed => exact ⟨by simp, by simp, by simp⟩
  | released n =>
      exact ⟨by simp [List.count_replicate], by simp [List.count_replicate], by simp⟩

/-- An open stream may be left only by a crash. -/
theorem Held.disciplined {point : Point P} {trace : List StreamCall} (h : Held trace) :
    Session.Disciplined ⟨point, trace⟩ ↔ ∀ ret, point ≠ .returned ret := by
  obtain ⟨n, rfl⟩ := h
  constructor
  · intro disciplined ret heq
    have hcount := disciplined.closes ret heq
    simp [List.count_replicate] at hcount
  · intro running
    exact ⟨by simp [List.count_replicate], fun ret heq => absurd heq (running ret), by simp⟩

/-- What holds at the start and is kept by every call holds of the calls made and the session
they lead to. -/
theorem Session.induction {A : Type} {next : P → A → Option (Point P × List StreamCall)}
    {I : List A → List StreamCall → Point P → Prop} {s t : Session P} {as : List A}
    (start : I [] s.trace s.point)
    (keep : ∀ done trace p a q calls, next p a = some (q, calls) → I done trace (.running p) →
      I (done ++ [a]) (trace ++ calls) q)
    (run : perform (Session.step next) s as = some t) : I as t.trace t.point := by
  refine perform_induction (I := fun done u => I done u.trace u.point) start ?_ run
  intro done u a u' hs hdone
  obtain ⟨point, trace⟩ := u
  cases point with
  | running p =>
      simp only [Session.step] at hs
      cases hnext : next p a with
      | none => simp [hnext] at hs
      | some moved =>
          simp only [hnext, Option.some.injEq] at hs
          rw [← hs]
          exact keep done trace p a moved.1 moved.2 hnext hdone
  | returned ret => cases hs
  | crashed => cases hs

end Traces

/-! ### The stream of a request -/

def LineRead (as : List ReadCall) : Prop := ∃ buf, .fgets (some buf) ∈ as

def ErrorReported (as : List ReadCall) : Prop := ∃ result, result ≠ 0 ∧ .ferror result ∈ as

/-- A line of the request has been read before the stream reports an error. -/
def HeaderError (as : List ReadCall) : Prop := LineRead as ∧ ErrorReported as

@[simp] theorem lineRead_concat (as : List ReadCall) (a : ReadCall) :
    LineRead (as ++ [a]) ↔ LineRead as ∨ ∃ buf, a = .fgets (some buf) := by
  simp [LineRead, exists_or, eq_comm]

@[simp] theorem errorReported_concat (as : List ReadCall) (a : ReadCall) :
    ErrorReported (as ++ [a]) ↔ ErrorReported as ∨ ∃ result, result ≠ 0 ∧ a = .ferror result := by
  simp [ErrorReported, and_or_left, exists_or, eq_comm]

/-- What has been done with the stream when the calls `as` have led to a point. -/
def ReadInv (as : List ReadCall) (trace : List StreamCall) : Point ReadPoint → Prop
  | .running .dup | .running .fdopen => trace = [] ∧ ¬ LineRead as ∧ ¬ ErrorReported as
  | .running .closeCopy => trace = [.openFailed] ∧ ¬ LineRead as
  | .running .setvbuf | .running .requestLine =>
      Held trace ∧ ¬ LineRead as ∧ ¬ ErrorReported as
  | .running .requestError | .running .abandon => Held trace ∧ ¬ LineRead as
  | .running .header | .running .headerError =>
      Held trace ∧ LineRead as ∧ ¬ ErrorReported as
  | .running .fclose => Held trace ∧ ¬ ErrorReported as
  | .returned _ => Settled trace ∧ ¬ HeaderError as ∨ Held trace ∧ HeaderError as
  | .crashed => Held trace ∧ ¬ ErrorReported as

theorem ReadInv.step (done : List ReadCall) (trace : List StreamCall) (p : ReadPoint)
    (a : ReadCall) (q : Point ReadPoint) (calls : List StreamCall)
    (hs : readNext p a = some (q, calls)) (h : ReadInv done trace (.running p)) :
    ReadInv (done ++ [a]) (trace ++ calls) q := by
  unfold readNext at hs
  split at hs
  case h_1 sockFdCopy =>
    cases hs
    obtain ⟨rfl, unread, quiet⟩ := h
    split
    · exact .inl ⟨.untried, by simp [HeaderError, unread]⟩
    · exact ⟨rfl, by simpa using unread, by simpa using quiet⟩
  case h_2 =>
    cases hs
    obtain ⟨rfl, unread, quiet⟩ := h
    exact ⟨.opened, by simpa using unread, by simpa using quiet⟩
  case h_3 =>
    cases hs
    obtain ⟨rfl, unread, _⟩ := h
    exact ⟨rfl, by simpa using unread⟩
  case h_4 result =>
    cases hs
    obtain ⟨rfl, unread⟩ := h
    exact .inl ⟨.failed, by simp [HeaderError, unread]⟩
  case h_5 result =>
    cases hs
    obtain ⟨held, unread, quiet⟩ := h
    split
    · exact ⟨held.used, by simpa using unread⟩
    · exact ⟨held.used, by simpa using unread, by simpa using quiet⟩
  case h_6 =>
    cases hs
    obtain ⟨held, unread, _⟩ := h
    exact ⟨held.used, by simpa using unread⟩
  case h_7 buf =>
    cases hs
    obtain ⟨held, _, quiet⟩ := h
    split
    · exact ⟨held.used, by simpa using quiet⟩
    · exact ⟨held.used, by simp, by simpa using quiet⟩
  case h_8 result =>
    cases hs
    obtain ⟨held, unread⟩ := h
    exact ⟨held.used, by simpa using unread⟩
  case h_9 =>
    cases hs
    obtain ⟨held, read, quiet⟩ := h
    exact ⟨held.used, by simpa using read, by simpa using quiet⟩
  case h_10 buf =>
    cases hs
    obtain ⟨held, _, quiet⟩ := h
    split
    · exact ⟨held.used, by simp, by simpa using quiet⟩
    · exact ⟨held.used, by simp, by simpa using quiet⟩
  case h_11 result =>
    cases hs
    obtain ⟨held, read, quiet⟩ := h
    by_cases hresult : result = 0
    · rw [if_neg (fun hne => hne hresult)]
      exact ⟨held.used, by simp [quiet, hresult]⟩
    · rw [if_pos hresult]
      exact .inr ⟨held.used, by simp [HeaderError, read, hresult]⟩
  case h_12 result =>
    cases hs
    obtain ⟨held, quiet⟩ := h
    exact .inl ⟨held.closed, by simp [HeaderError, quiet]⟩
  case h_13 result =>
    cases hs
    obtain ⟨held, unread⟩ := h
    exact .inl ⟨held.closed, by simp [HeaderError, unread]⟩
  · cases hs

theorem readInv_of_perform {as : List ReadCall} {s : Session ReadPoint}
    (run : perform (Session.step readNext) readStart as = some s) : ReadInv as s.trace s.point :=
  Session.induction (I := ReadInv) (s := readStart)
    ⟨rfl, by simp [LineRead], by simp [ErrorReported]⟩ ReadInv.step run

/-- A call that has come to its end kept to the rules for its stream unless the stream reported
an error after a line was read. -/
theorem disciplined_read {as : List ReadCall} {s : Session ReadPoint}
    (run : perform (Session.step readNext) readStart as = some s) (ended : s.Ended) :
    s.Disciplined ↔ ¬ HeaderError as := by
  have inv := readInv_of_perform run
  obtain ⟨point, trace⟩ := s
  cases point with
  | running p => exact absurd rfl (ended p)
  | returned ret =>
      obtain ⟨settled, notError⟩ | ⟨held, error⟩ := inv
      · exact ⟨fun _ => notError, fun _ => settled.disciplined⟩
      · rw [held.disciplined]
        exact ⟨fun leaves => absurd rfl (leaves ret), fun notError => absurd error notError⟩
  | crashed =>
      obtain ⟨held, quiet⟩ := inv
      rw [held.disciplined]
      exact ⟨fun _ error => quiet error.2, fun _ _ => by simp⟩

/-! ### The stream of a response -/

/-- The file is opened just when the test after `fopen` lets the call go on. -/
def Matched (fd : Int) (as : List WriteCall) : Prop :=
  ∀ opens, .fopen opens ∈ as → (opens = true ↔ fd ≠ -1)

@[simp] theorem matched_concat (fd : Int) (as : List WriteCall) (a : WriteCall) :
    Matched fd (as ++ [a]) ↔
      Matched fd as ∧ ∀ opens, a = .fopen opens → (opens = true ↔ fd ≠ -1) := by
  simp only [Matched, List.mem_append, List.mem_singleton, or_imp, forall_and, eq_comm]

/-- What has been done with the stream when the calls `as` have led to a point. -/
def WriteInv (fd : Int) (as : List WriteCall) (trace : List StreamCall) : Point WritePoint → Prop
  | .running .stat | .running .fopen => trace = [] ∧ Matched fd as
  | .running (.body false) => trace = [.openFailed] ∧ ¬ Matched fd as
  | .running (.body true) | .running .bodyError | .running .head | .running .contents
  | .running .block | .running .contentsError | .running .fclose
  | .running .abandon => Held trace ∧ Matched fd as
  | .returned _ => Settled trace ∧ Matched fd as ∨ Held trace ∧ ¬ Matched fd as
  | .crashed => trace = [] ∧ Matched fd as ∨ trace = [.openFailed, .used] ∧ ¬ Matched fd as

theorem WriteInv.step (fd : Int) (resourcePath : List Char) (done : List WriteCall)
    (trace : List StreamCall) (p : WritePoint) (a : WriteCall) (q : Point WritePoint)
    (calls : List StreamCall) (hs : writeNext fd resourcePath p a = some (q, calls))
    (h : WriteInv fd done trace (.running p)) : WriteInv fd (done ++ [a]) (trace ++ calls) q := by
  unfold writeNext at hs
  split at hs
  case h_1 | h_2 =>
    cases hs
    obtain ⟨rfl, matched⟩ := h
    exact .inl ⟨.untried, by simpa using matched⟩
  case h_3 contents =>
    obtain ⟨rfl, matched⟩ := h
    split at hs
    · cases hs
      exact .inl ⟨rfl, by simpa using matched⟩
    · split at hs
      · cases hs
        exact .inl ⟨.untried, by simpa using matched⟩
      · cases hs
        exact ⟨rfl, by simpa using matched⟩
  case h_4 opens =>
    cases hs
    obtain ⟨rfl, matched⟩ := h
    by_cases hfd : fd = -1
    · rw [if_pos hfd]
      cases opens with
      | true => exact .inr ⟨.opened, by simp [hfd]⟩
      | false => exact .inl ⟨.failed, (matched_concat fd done _).mpr ⟨matched, by simp [hfd]⟩⟩
    · rw [if_neg hfd]
      cases opens with
      | true => exact ⟨.opened, by simp [matched, hfd]⟩
      | false => exact ⟨rfl, by simp [hfd]⟩
  case h_5 fp count =>
    cases hs
    cases fp with
    | true =>
        obtain ⟨held, matched⟩ := h
        exact ⟨held.used, by simpa using matched⟩
    | false =>
        obtain ⟨rfl, unmatched⟩ := h
        exact .inr ⟨rfl, by simpa using unmatched⟩
  case h_6 result | h_8 count | h_10 result =>
    cases hs
    obtain ⟨held, matched⟩ := h
    split
    · exact ⟨held.used, by simpa using matched⟩
    · exact ⟨held.used, by simpa using matched⟩
  case h_7 result | h_9 result =>
    cases hs
    obtain ⟨held, matched⟩ := h
    rw [List.append_nil]
    split
    · exact ⟨held, by simpa using matched⟩
    · exact ⟨held, by simpa using matched⟩
  case h_11 result | h_12 result =>
    cases hs
    obtain ⟨held, matched⟩ := h
    exact .inl ⟨held.closed, by simpa using matched⟩
  · cases hs

theorem writeInv_of_perform {fd : Int} {resourcePath : List Char} {as : List WriteCall}
    {s : Session WritePoint}
    (run : perform (Session.step (writeNext fd resourcePath)) writeStart as = some s) :
    WriteInv fd as s.trace s.point :=
  Session.induction (I := WriteInv fd) (s := writeStart) ⟨rfl, by simp [Matched]⟩
    (WriteInv.step fd resourcePath) run

/-- A call that has come to its end kept to the rules for its stream just when the file was
opened or not as the test of the socket supposes. -/
theorem disciplined_write {fd : Int} {resourcePath : List Char} {as : List WriteCall}
    {s : Session WritePoint}
    (run : perform (Session.step (writeNext fd resourcePath)) writeStart as = some s)
    (ended : s.Ended) : s.Disciplined ↔ Matched fd as := by
  have inv := writeInv_of_perform run
  obtain ⟨point, trace⟩ := s
  cases point with
  | running p => exact absurd rfl (ended p)
  | returned ret =>
      obtain ⟨settled, matched⟩ | ⟨held, unmatched⟩ := inv
      · exact ⟨fun _ => matched, fun _ => settled.disciplined⟩
      · rw [held.disciplined]
        exact ⟨fun leaves => absurd rfl (leaves ret), fun matched => absurd matched unmatched⟩
  | crashed =>
      obtain ⟨htrace, matched⟩ | ⟨htrace, unmatched⟩ := inv
      · have htrace : trace = [] := htrace
        subst htrace
        exact ⟨fun _ => matched, fun _ => Settled.untried.disciplined⟩
      · have htrace : trace = [.openFailed, .used] := htrace
        subst htrace
        refine ⟨fun disciplined => ?_, fun matched => absurd matched unmatched⟩
        exact absurd (by simp) (disciplined.untouched (by simp)).1

/-- Whatever the stdio and system calls return and however many lines and blocks there are, a
call that has come to its end has closed the stream it opened exactly once and left alone one
that failed to open, just when no error is reported after a line of the request was read, and
the file is opened just when the socket is not -1. -/
theorem streams_disciplined_iff (reads : List ReadCall) (fd : Int) (resourcePath : List Char)
    (writes : List WriteCall) :
    (∀ s, perform (Session.step readNext) readStart reads = some s → s.Ended →
      (s.Disciplined ↔ ¬ HeaderError reads)) ∧
    ∀ t, perform (Session.step (writeNext fd resourcePath)) writeStart writes = some t → t.Ended →
      (t.Disciplined ↔ Matched fd writes) :=
  ⟨fun _ run ended => disciplined_read run ended, fun _ run ended => disciplined_write run ended⟩

/-- A request that is read and a response that is written. -/
def servedRequest : List ReadCall :=
  [.dup 4, .fdopen true, .setvbuf 0, .fgets (some "GET /a\r\n".toList),
    .fgets (some "\r\n".toList), .ferror 0, .fclose 0]

def servedResponse : List WriteCall :=
  [.stat (.regular []), .fopen true, .fread 0, .ferror 0, .write 512, .fread 0, .ferror 0,
    .fclose 0]

theorem streams_disciplined_served :
    ∃ s t, perform (Session.step readNext) readStart servedRequest = some s ∧
      s.point = .returned 0 ∧ s.Disciplined ∧
      perform (Session.step (writeNext 5 "/a.txt".toList)) writeStart servedResponse = some t ∧
      t.point = .returned 0 ∧ t.Disciplined := by
  obtain ⟨s, hread, hs⟩ : ∃ s, perform (Session.step readNext) readStart servedRequest = some s ∧
      s.point = .returned 0 := ⟨_, rfl, rfl⟩
  obtain ⟨t, hwrite, ht⟩ : ∃ t, perform (Session.step (writeNext 5 "/a.txt".toList)) writeStart
      servedResponse = some t ∧ t.point = .returned 0 := ⟨_, rfl, rfl⟩
  refine ⟨s, t, hread, hs, ?_, hwrite, ht, ?_⟩
  · exact ((streams_disciplined_iff servedRequest 5 [] servedResponse).1 s hread
      (by simp [Session.Ended, hs])).mpr (by simp [HeaderError, ErrorReported, servedRequest])
  · exact ((streams_disciplined_iff servedRequest 5 _ servedResponse).2 t hwrite
      (by simp [Session.Ended, ht])).mpr (by simp [Matched, servedResponse])

/-- The socket fails within the header: the stream stays open. A file that cannot be opened is
read from. -/
theorem streams_undisciplined :
    ∃ s t, perform (Session.step readNext) readStart [.dup 4, .fdopen true, .setvbuf 0,
        .fgets (some "GET /a\r\n".toList), .fgets none, .ferror 1] = some s ∧
      s.point = .returned (-1) ∧ s.trace.count .opened = 1 ∧ s.trace.count .closed = 0 ∧
      perform (Session.step (writeNext 5 "/a.txt".toList)) writeStart
        [.stat (.regular []), .fopen false, .fread 0] = some t ∧
      t.trace = [.openFailed, .used] ∧ ¬ s.Disciplined ∧ ¬ t.Disciplined := by
  refine ⟨_, _, rfl, rfl, rfl, rfl, rfl, rfl, ?_, ?_⟩
  · intro disciplined
    exact absurd (disciplined.closes (-1) rfl) (by decide)
  · intro disciplined
    exact absurd (by decide) (disciplined.untouched (by decide)).1

end UmnProjects.Server.Http
