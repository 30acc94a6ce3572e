import UmnProjects.Server.ServedPaths

/-!
What a worker has sent to a client when it closes the client's descriptor. The reply to a request
for a missing file is put together but never sent.
-/
namespace UmnProjects.Server.Http

/-! ### Headers -/

def crlf : Bytes := [13, 10]

/-- A line of a header, without its end. -/
def HeaderLine (line : Bytes) : Prop := line ≠ [] ∧ 13 ∉ line ∧ 10 ∉ line

instance : DecidablePred HeaderLine := fun line =>
  inferInstanceAs (Decidable (line ≠ [] ∧ 13 ∉ line ∧ 10 ∉ line))

/-- The header of a response: the status line, header fields, and an empty line. -/
def CompleteHeader (bytes : Bytes) : Prop :=
  ∃ (statusLine : Bytes) (fields : List Bytes), ascii "HTTP/".toList <+: statusLine ∧
    HeaderLine statusLine ∧ (∀ field ∈ fields, HeaderLine field) ∧
      bytes = statusLine ++ crlf ++ (fields.flatMap fun field => field ++ crlf) ++ crlf

/-- The client has been sent a whole header, maybe with more behind it. -/
def HeaderSent (sent : Bytes) : Prop := ∃ head, head <+: sent ∧ CompleteHeader head

theorem not_headerSent_nil : ¬ HeaderSent [] := by
  intro h
  obtain ⟨head, hsent, statusLine, fields, _, _, _, hlines⟩ := h
  rw [List.prefix_nil.mp hsent] at hlines
  have hlength := congrArg List.length hlines
  simp only [List.length_append, List.length_nil, crlf, List.length_cons] at hlength
  omega

theorem headerLine_type {suffix : List Char} {type : String} (h : getMimeType suffix = some type) :
    HeaderLine (ascii "Content-Type: ".toList ++ ascii type.toList) := by
  apply getMimeType_cases
    (P := fun _ type => HeaderLine (ascii "Content-Type: ".toList ++ ascii type.toList)) h <;>
    decide

theorem headerLine_length (size : Nat) :
    HeaderLine (ascii "Content-Length: ".toList ++ ascii (Nat.toDigits 10 size)) := by
  have hname : ∀ byte ∈ ascii "Content-Length: ".toList, byte ≠ 13 ∧ byte ≠ 10 := by
    simp [ascii, Char.toUInt8]
  have hdigits : ∀ byte ∈ ascii (Nat.toDigits 10 size), byte ≠ 13 ∧ byte ≠ 10 := by
    intro byte hbyte
    obtain ⟨c, hc, rfl⟩ := List.mem_map.mp hbyte
    obtain ⟨heq, hlow, _⟩ := toNat_toUInt8 (Nat.isDigit_of_mem_toDigits (by omega) (by omega) hc)
    have hthirteen : (13 : UInt8).toNat = 13 := rfl
    have hten : (10 : UInt8).toNat = 10 := rfl
    refine ⟨fun hreturn => ?_, fun hfeed => ?_⟩
    · rw [hreturn] at heq
      omega
    · rw [hfeed] at heq
      omega
  have hline : ∀ byte ∈ ascii "Content-Length: ".toList ++ ascii (Nat.toDigits 10 size),
      byte ≠ 13 ∧ byte ≠ 10 := by
    intro byte hbyte
    exact (List.mem_append.mp hbyte).elim (hname byte) (hdigits byte)
  refine ⟨?_, fun hmem => (hline 13 hmem).1 rfl, fun hmem => (hline 10 hmem).2 rfl⟩
  apply List.append_ne_nil_of_left_ne_nil
  decide

/-- The header of a file that is sent. -/
theorem completeHeader_header {suffix : List Char} {type : String}
    (h : getMimeType suffix = some type) (size : Nat) : CompleteHeader (header type size) := by
  refine ⟨ascii "HTTP/1.0 200 ok".toList, [ascii "Content-Type: ".toList ++ ascii type.toList,
    ascii "Content-Length: ".toList ++ ascii (Nat.toDigits 10 size)], ?_, ?_, ?_, ?_⟩
  · decide
  · decide
  · intro field hfield
    obtain rfl | hfield := List.mem_cons.mp hfield
    · exact headerLine_type h
    · rw [List.mem_singleton.mp hfield]
      exact headerLine_length size
  · have hfirst : ascii "HTTP/1.0 200 ok\r\nContent-Type: ".toList =
        ascii "HTTP/1.0 200 ok".toList ++ crlf ++ ascii "Content-Type: ".toList := by decide
    have hsecond : ascii "\r\nContent-Length: ".toList =
        crlf ++ ascii "Content-Length: ".toList := by decide
    have hthird : ascii "\r\n\r\n".toList = crlf ++ crlf := by decide
    rw [header, hfirst, hsecond, hthird]
    simp only [List.flatMap_cons, List.flatMap_nil, List.append_nil, List.append_assoc]

/-! ### A round of the worker's loop -/

/-- What was sent to the client, and whether an error was reported, when its descriptor is
closed. -/
structure Closing where
  sent : Bytes
  failed : Bool
  deriving Repr, DecidableEq

/-- How a response ends; none is a crash. -/
def closing (response : Response) : Option Closing :=
  match response.outcome with
  | .crashed => none
  | .returned ret => some ⟨response.written, decide (ret = -1)⟩

/-- From the descriptor taken out of the queue to its `close`; none is a crash. The buffers of
`thread_func` hold whatever they held before. -/
def serveClient (opens closes : Bool) (calls : Calls) (response : Bytes) (serveDir : List Char)
    (stat : List Char → Stat) (s : Stream) : Option Closing :=
  match readHttpRequest opens closes s with
  | .crashed => none
  | .returned ret request =>
      if ret = -1 then some ⟨[], true⟩
      else
        let path := resourcePath serveDir (request.getD [])
        closing (writeHttpResponse calls response path (stat path))

section Round

variable {opens closes : Bool} {calls : Calls} {response contents sent : Bytes}
  {serveDir request path : List Char} {stat : List Char → Stat} {s : Stream}

theorem serveClient_of_read (h : readHttpRequest opens closes s = .returned 0 (some request)) :
    serveClient opens closes calls response serveDir stat s =
      closing (writeHttpResponse calls response (resourcePath serveDir request)
        (stat (resourcePath serveDir request))) := by
  have hret : ¬ (0 : Int) = -1 := by decide
  simp only [serveClient, h, if_neg hret, Option.getD_some]

theorem ret_writeContents {n : Nat} {ret : Int}
    (h : (writeContents calls n response contents).outcome = .returned ret) :
    ret = 0 ∨ ret = -1 := by
  induction hlength : contents.length using Nat.strongRecOn generalizing n response contents with
  | ind length ih =>
      rw [writeContents] at h
      by_cases hfails : (!calls.fread n) = true
      · rw [if_pos hfails] at h
        cases h
        exact .inr rfl
      · rw [if_neg hfails] at h
        by_cases hnil : contents = []
        · rw [dif_pos hnil] at h
          cases h
          split
          · exact .inl rfl
          · exact .inr rfl
        · rw [dif_neg hnil] at h
          by_cases hwrite : calls.write n = true
          · simp only [hwrite, if_true] at h
            apply ih (contents.drop BUFSIZE).length ?_ h rfl
            have hpos := List.length_pos_iff.mpr hnil
            rw [List.length_drop, hlength]
            simp only [BUFSIZE]
            omega
          · simp only [hwrite] at h
            cases h
            exact .inr rfl

theorem ret_writeHttpResponse {stat : Stat} {ret : Int}
    (h : (writeHttpResponse calls response path stat).outcome = .returned ret) :
    ret = 0 ∨ ret = -1 := by
  cases stat with
  | missing =>
      cases h
      exact .inl rfl
  | failed =>
      cases h
      exact .inr rfl
  | regular contents =>
      simp only [writeHttpResponse] at h
      split at h
      · cases h
      · split at h
        · cases h
          exact .inr rfl
        · split at h
          · cases h
          · split at h
            · cases h
              exact .inr rfl
            · split at h
              · exact ret_writeContents h
              · cases h
                exact .inr rfl

/-- No error is reported for a response that returns 0. -/
theorem returned_of_closing {stat : Stat}
    (h : closing (writeHttpResponse calls response path stat) = some ⟨sent, false⟩) :
    (writeHttpResponse calls response path stat).outcome = .returned 0 ∧
      (writeHttpResponse calls response path stat).written = sent := by
  rw [closing] at h
  split at h
  · cases h
  · next ret hret =>
      simp only [Option.some.injEq, Closing.mk.injEq, decide_eq_false_iff_not] at h
      exact ⟨hret.trans (congrArg _ ((ret_writeHttpResponse hret).resolve_right h.2)), h.1⟩

theorem supported_of_returned
    (h : (writeHttpResponse calls response path (.regular contents)).outcome = .returned 0) :
    ∃ suffix type, fileExtension path = some suffix ∧ getMimeType suffix = some type := by
  cases hsuffix : fileExtension path with
  | none => simp [writeHttpResponse, hsuffix] at h
  | some suffix =>
      cases htype : getMimeType suffix with
      | none => simp [writeHttpResponse, hsuffix, htype] at h
      | some type => exact ⟨suffix, type, rfl, htype⟩

/-- A client whose request is handled without an error has been sent a whole header exactly when
the file is not missing. -/
theorem headerSent_iff (hbuffer : response.length = BUFSIZE)
    (hread : readHttpRequest opens closes s = .returned 0 (some request))
    (hserved : serveClient opens closes calls response serveDir stat s = some ⟨sent, false⟩) :
    HeaderSent sent ↔ stat (resourcePath serveDir request) ≠ .missing := by
  rw [serveClient_of_read hread] at hserved
  obtain ⟨hreturned, rfl⟩ := returned_of_closing hserved
  cases hstat : stat (resourcePath serveDir request) with
  | missing => exact iff_of_false not_headerSent_nil fun h => h rfl
  | failed =>
      rw [hstat] at hreturned
      cases hreturned
  | regular contents =>
      rw [hstat] at hreturned
      obtain ⟨suffix, type, hsuffix, htype⟩ := supported_of_returned hreturned
      obtain ⟨stale, hwritten, _⟩ := padded_writeHttpResponse hbuffer hsuffix htype hreturned
      apply iff_of_true
      · refine ⟨header type (contents.length % 2 ^ 32), ?_, completeHeader_header htype _⟩
        rw [hwritten, List.append_assoc]
        exact List.prefix_append _ _
      · exact fun h => by cases h

end Round

/-- The request line of the two requests below. -/
theorem readHttpRequest_textFile :
    readHttpRequest true true ⟨"GET /a.txt HTTP/1.0\r\n\r\n".toList, false⟩ =
      .returned 0 (some "/a.txt".toList) := by
  have hline : fgets BUFSIZE ⟨"GET /a.txt HTTP/1.0\r\n\r\n".toList, false⟩ =
      some ("GET /a.txt HTTP/1.0\r\n".toList, ⟨['\r', '\n'], false⟩) := by decide
  have htoken : secondToken "GET /a.txt HTTP/1.0\r\n".toList = some "/a.txt".toList := by decide
  have hend : fgets BUFSIZE ⟨['\r', '\n'], false⟩ = some (['\r', '\n'], ⟨[], false⟩) := by decide
  simp only [readHttpRequest, hline, htoken, readRest_of_blank hend]
  rfl

/-- A text file of one byte. -/
def oneFile (path : List Char) : Stat :=
  if path = "www/a.txt".toList then .regular [65] else .missing

theorem headerSent_textFile :
    ∃ sent, serveClient true true succeeding (List.replicate BUFSIZE 0) "www".toList oneFile
        ⟨"GET /a.txt HTTP/1.0\r\n\r\n".toList, false⟩ = some ⟨sent, false⟩ ∧
      HeaderSent sent := by
  have hreturned : (writeHttpResponse succeeding (List.replicate BUFSIZE 0) "www/a.txt".toList
      (.regular [65])).outcome = .returned 0 :=
    returned_of_short textFile.1 textFile.2 (by decide)
  have hpath : resourcePath "www".toList "/a.txt".toList = "www/a.txt".toList := by decide
  have hstat : oneFile "www/a.txt".toList = .regular [65] := by decide
  have hserved : serveClient true true succeeding (List.replicate BUFSIZE 0) "www".toList oneFile
      ⟨"GET /a.txt HTTP/1.0\r\n\r\n".toList, false⟩ = some ⟨(writeHttpResponse succeeding
        (List.replicate BUFSIZE 0) "www/a.txt".toList (.regular [65])).written, false⟩ := by
    rw [serveClient_of_read readHttpRequest_textFile, hpath, hstat, closing, hreturned]
    rfl
  refine ⟨_, hserved, (headerSent_iff (List.length_replicate ..) readHttpRequest_textFile
    hserved).mpr ?_⟩
  rw [hpath, hstat]
  exact fun h => by cases h

/-- The same request where there is no such file: the client is sent nothing, and no error is
reported. -/
theorem nothing_sent_for_missing :
    serveClient true true succeeding (List.replicate BUFSIZE 0) "public".toList oneFile
        ⟨"GET /a.txt HTTP/1.0\r\n\r\n".toList, false⟩ = some ⟨[], false⟩ ∧
      ¬ HeaderSent [] := by
  have hstat : oneFile (resourcePath "public".toList "/a.txt".toList) = .missing := by decide
  refine ⟨?_, not_headerSent_nil⟩
  rw [serveClient_of_read readHttpRequest_textFile, hstat]
  rfl

end UmnProjects.Server.Http
