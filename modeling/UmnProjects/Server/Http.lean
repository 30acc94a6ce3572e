import Mathlib.Algebra.Group.Nat.Defs
import UmnProjects.Server.HttpServer

/-!
Reading a request and writing a response. A socket or file delivers bytes; the texts of the
protocol are characters, one byte each.
-/
namespace UmnProjects.Server.Http

/-! ### Reading a request -/

/-- What a client's stream delivers before its end, which may be an error. -/
structure Stream where
  text : List Char
  error : Bool
  deriving Repr, DecidableEq

def takeLine : Nat → List Char → List Char
  | 0, _ => []
  | _, [] => []
  | n + 1, c :: cs => if c = '\n' then [c] else c :: takeLine n cs

/-- Up to the end of the line and to `size - 1` characters; none is the null pointer. -/
def fgets (size : Nat) (s : Stream) : Option (List Char × Stream) :=
  let line := takeLine (size - 1) s.text
  if line.length = size - 1 ∨ line.getLast? = some '\n' then
    some (line, { s with text := s.text.drop line.length })
  else if s.error ∨ line = [] then none
  else some (line, { s with text := [] })

/-- The characters before the final zero. -/
def cString (buf : List Char) : List Char := buf.takeWhile (· != '\x00')

/-- The second token of `strtok_r` with the delimiter ' '; none is the null pointer. -/
def secondToken (buf : List Char) : Option (List Char) :=
  let rest := ((cString buf).dropWhile (· == ' ')).dropWhile (· != ' ')
  match (rest.dropWhile (· == ' ')).takeWhile (· != ' ') with
  | [] => none
  | token => some token

theorem takeLine_length_le (n : Nat) (text : List Char) :
    (takeLine n text).length ≤ n ∧ (takeLine n text).length ≤ text.length := by
  induction n generalizing text with
  | zero => simp [takeLine]
  | succ n ih =>
      cases text with
      | nil => simp [takeLine]
      | cons c cs =>
          simp only [takeLine]
          split
          · simp
          · have hrest := ih cs
            simp only [List.length_cons]
            omega

/-- Every line that is read shortens what is left. -/
theorem length_fgets {size : Nat} (hsize : 1 < size) {s rest : Stream} {line : List Char}
    (h : fgets size s = some (line, rest)) : rest.text.length < s.text.length := by
  have hle := takeLine_length_le (size - 1) s.text
  simp only [fgets] at h
  split at h
  · next hfull =>
      cases h
      have hne : (takeLine (size - 1) s.text).length ≠ 0 := by
        obtain hlen | hlast := hfull
        · omega
        · intro hnil
          rw [List.length_eq_zero_iff.mp hnil] at hlast
          cases hlast
      simp only [List.length_drop]
      omega
  · split at h
    · cases h
    · next hnot =>
        cases h
        have hne : (takeLine (size - 1) s.text).length ≠ 0 := by
          intro hnil
          exact hnot (.inr (List.length_eq_zero_iff.mp hnil))
        simp only [List.length_nil]
        omega

/-- The loop over the rest of the header; whether it ends in an error. -/
def readRest (s : Stream) : Bool :=
  match _h : fgets BUFSIZE s with
  | none => s.error
  | some (buf, rest) => if cString buf = ['\r', '\n'] then false else readRest rest
termination_by s.text.length
decreasing_by exact length_fgets (by decide) _h

/-- `crashed` is a copy from the null pointer. -/
inductive Request where
  | returned (ret : Int) (resourceName : Option (List Char))
  | crashed
  deriving Repr, DecidableEq

/-- The stream may fail to open and to close. -/
def readHttpRequest (opens closes : Bool) (s : Stream) : Request :=
  if opens then
    match fgets BUFSIZE s with
    | none => .returned (-1) none
    | some (buf, rest) =>
        match secondToken buf with
        | none => .crashed
        | some token =>
            if readRest rest then .returned (-1) (some token)
            else .returned (if closes then 0 else -1) (some token)
  else .returned (-1) none

/-! ### Writing a response -/

/-- From the first dot on; none is the null pointer. -/
def fileExtension (resourcePath : List Char) : Option (List Char) :=
  match resourcePath.dropWhile (· != '.') with
  | [] => none
  | suffix => some suffix

def getMimeType (fileExtension : List Char) : Option String :=
  if fileExtension = ".txt".toList then some "text/plain"
  else if fileExtension = ".html".toList then some "text/html"
  else if fileExtension = ".jpg".toList then some "image/jpeg"
  else if fileExtension = ".png".toList then some "image/png"
  else if fileExtension = ".pdf".toList then some "application/pdf"
  else none

abbrev Bytes := List UInt8

def ascii (text : List Char) : Bytes := text.map Char.toUInt8

/-- The status line and headers of a file of the type and size. -/
def header (type : String) (size : Nat) : Bytes :=
  ascii "HTTP/1.0 200 ok\r\nContent-Type: ".toList ++ ascii type.toList ++
    ascii "\r\nContent-Length: ".toList ++ ascii (Nat.toDigits 10 size) ++ ascii "\r\n\r\n".toList

/-- What `stat` says of the path; a regular file has its contents. -/
inductive Stat where
  | missing
  | failed
  | regular (contents : Bytes)
  deriving Repr, DecidableEq

/-- Which calls succeed: `fopen`, `fclose` and, counted from 0, the reads and writes. -/
structure Calls where
  fopen : Bool
  fread : Nat → Bool
  write : Nat → Bool
  fclose : Bool

inductive Outcome where
  | returned (ret : Int)
  | crashed
  deriving Repr, DecidableEq

/-- The bytes written to the socket, and how the call ends. -/
structure Response where
  written : Bytes
  outcome : Outcome
  deriving Repr, DecidableEq

/-- Bytes stored in a buffer from the offset on. -/
def overwrite (buffer : Bytes) (offset : Nat) (bytes : Bytes) : Bytes :=
  buffer.take offset ++ bytes ++ buffer.drop (offset + bytes.length)

/-- The loop that reads from the file and writes its contents; `n` chunks went before. All of
the buffer is written, whatever part of it was read. -/
def writeContents (calls : Calls) (n : Nat) (response contents : Bytes) : Response :=
  if !calls.fread n then ⟨[], .returned (-1)⟩
  else if h : contents = [] then ⟨[], .returned (if calls.fclose then 0 else -1)⟩
  else
    let response := overwrite response 0 (contents.take BUFSIZE)
    if calls.write n then
      let rest := writeContents calls (n + 1) response (contents.drop BUFSIZE)
      ⟨response ++ rest.written, rest.outcome⟩
    else ⟨[], .returned (-1)⟩
termination_by contents.length
decreasing_by
  have hpos := List.length_pos_iff.mpr h
  simp only [List.length_drop, BUFSIZE]
  omega

/-- The size goes through an unsigned; `response` is what the buffer holds before. -/
def writeHttpResponse (calls : Calls) (response : Bytes) (resourcePath : List Char) :
    Stat → Response
  -- the response to a missing file is put together and never written
  | .missing => ⟨[], .returned 0⟩
  | .failed => ⟨[], .returned (-1)⟩
  | .regular contents =>
      match fileExtension resourcePath with
      | none => ⟨[], .crashed⟩
      | some fileExtension =>
          match getMimeType fileExtension with
          | none => ⟨[], .returned (-1)⟩
          | some type =>
              let head := header type (contents.length % 2 ^ 32)
              let response := overwrite response 0 (head ++ [0])
              -- the test after `fopen` looks at the socket, not at the file
              if !calls.fopen then ⟨[], .crashed⟩
              else if !calls.fread 0 then ⟨[], .returned (-1)⟩
              else
                let room := BUFSIZE - head.length
                let response := overwrite response head.length (contents.take room)
                if calls.write 0 then
                  let rest := writeContents calls 1 response (contents.drop room)
                  ⟨response ++ rest.written, rest.outcome⟩
                else ⟨[], .returned (-1)⟩

/-! ### The header -/

theorem length_header (type : String) (size : Nat) :
    (header type size).length = 53 + type.length + (Nat.toDigits 10 size).length := by
  have hfirst : (ascii "HTTP/1.0 200 ok\r\nContent-Type: ".toList).length = 31 := by decide
  have hsecond : (ascii "\r\nContent-Length: ".toList).length = 18 := by decide
  have hthird : (ascii "\r\n\r\n".toList).length = 4 := by decide
  simp only [header, List.length_append, hfirst, hsecond, hthird]
  simp only [ascii, List.length_map, String.length_toList]
  omega

/-- The extensions that are supported, one by one. -/
theorem getMimeType_cases {P : List Char → String → Prop} {fileExtension : List Char}
    {type : String} (h : getMimeType fileExtension = some type)
    (txt : P ".txt".toList "text/plain") (html : P ".html".toList "text/html")
    (jpg : P ".jpg".toList "image/jpeg") (png : P ".png".toList "image/png")
    (pdf : P ".pdf".toList "application/pdf") : P fileExtension type := by
  rw [getMimeType] at h
  split at h
  · next heq => cases h; rw [heq]; exact txt
  split at h
  · next heq => cases h; rw [heq]; exact html
  split at h
  · next heq => cases h; rw [heq]; exact jpg
  split at h
  · next heq => cases h; rw [heq]; exact png
  split at h
  · next heq => cases h; rw [heq]; exact pdf
  · cases h

theorem length_getMimeType {fileExtension : List Char} {type : String}
    (h : getMimeType fileExtension = some type) : type.length ≤ 15 := by
  apply getMimeType_cases (P := fun _ type => type.length ≤ 15) h <;> decide

/-- A header fits into the buffer and leaves room for more. -/
theorem length_header_lt {fileExtension : List Char} {type : String}
    (h : getMimeType fileExtension = some type) (n : Nat) :
    (header type (n % 2 ^ 32)).length < BUFSIZE - 1 := by
  have htype := length_getMimeType h
  have hdigits : (Nat.toDigits 10 (n % 2 ^ 32)).length ≤ 10 := by
    rw [Nat.length_toDigits_le_iff (by omega) (by omega)]
    omega
  rw [length_header]
  simp only [BUFSIZE]
  omega

theorem toNat_toUInt8 {c : Char} (h : c.isDigit = true) :
    c.toUInt8.toNat = c.toNat ∧ 48 ≤ c.toNat ∧ c.toNat ≤ 57 := by
  simp only [Char.isDigit, Bool.and_eq_true, decide_eq_true_eq, ge_iff_le,
    UInt32.le_iff_toNat_le] at h
  have hlow : 48 ≤ c.toNat := h.1
  have hhigh : c.toNat ≤ 57 := h.2
  refine ⟨?_, hlow, hhigh⟩
  change c.val.toNat % 2 ^ 8 = c.val.toNat
  exact Nat.mod_eq_of_lt (Nat.lt_of_le_of_lt hhigh (by decide))

/-- Digits do not end a line. -/
theorem takeWhile_digits (n : Nat) (rest : Bytes) :
    (ascii (Nat.toDigits 10 n) ++ (13 :: rest)).takeWhile (· != 13) =
      ascii (Nat.toDigits 10 n) := by
  rw [List.takeWhile_append_of_pos]
  · simp
  · intro b hb
    obtain ⟨c, hc, rfl⟩ := List.mem_map.mp hb
    obtain ⟨heq, hlow, _⟩ := toNat_toUInt8 (Nat.isDigit_of_mem_toDigits (by omega) (by omega) hc)
    simp only [bne_iff_ne, ne_eq]
    intro hreturn
    rw [hreturn] at heq
    have hthirteen : (13 : UInt8).toNat = 13 := rfl
    omega

theorem ascii_digits_injective {m n : Nat}
    (h : ascii (Nat.toDigits 10 m) = ascii (Nat.toDigits 10 n)) : m = n := by
  have hback (k : Nat) : (ascii (Nat.toDigits 10 k)).map (fun b => Char.ofNat b.toNat) =
      Nat.toDigits 10 k := by
    have hsame : ∀ c ∈ Nat.toDigits 10 k,
        ((fun b => Char.ofNat b.toNat) ∘ Char.toUInt8) c = id c := by
      intro c hc
      obtain ⟨heq, _, _⟩ := toNat_toUInt8 (Nat.isDigit_of_mem_toDigits (by omega) (by omega) hc)
      simp only [Function.comp_apply, heq, Char.ofNat_toNat, id]
    rw [ascii, List.map_map, List.map_congr_left hsame, List.map_id]
  have hdigits : Nat.toDigits 10 m = Nat.toDigits 10 n := by
    rw [← hback m, h, hback n]
  have hvalue := congrArg (fun digits => Nat.ofDigitChars 10 digits 0) hdigits
  simpa only [Nat.ofDigitChars_ten_toDigits] using hvalue

/-- The header tells the size. -/
theorem size_of_header {type : String} {m n : Nat} {rest rest' : Bytes}
    (h : header type m ++ rest = header type n ++ rest') : m = n := by
  simp only [header, List.append_assoc, List.append_cancel_left_eq] at h
  have hline (k : Nat) (rest : Bytes) :
      (ascii (Nat.toDigits 10 k) ++ (ascii "\r\n\r\n".toList ++ rest)).takeWhile (· != 13) =
        ascii (Nat.toDigits 10 k) := takeWhile_digits k _
  have hdigits := congrArg (List.takeWhile (· != 13)) h
  rw [hline, hline] at hdigits
  exact ascii_digits_injective hdigits

/-! ### What is written -/

theorem overwrite_full {buffer bytes : Bytes} {offset : Nat}
    (h : buffer.length = offset + bytes.length) :
    overwrite buffer offset bytes = buffer.take offset ++ bytes := by
  rw [overwrite, List.drop_of_length_le (Nat.le_of_eq h), List.append_nil]

theorem length_overwrite {buffer bytes : Bytes} {offset : Nat}
    (h : offset + bytes.length ≤ buffer.length) :
    (overwrite buffer offset bytes).length = buffer.length := by
  simp only [overwrite, List.length_append, List.length_take, List.length_drop]
  omega

/-- What follows the contents in whole buffers: less than one buffer of other bytes. -/
def Padded (written front contents : Bytes) : Prop :=
  ∃ stale, written = front ++ contents ++ stale ∧ stale.length < BUFSIZE ∧
    BUFSIZE ∣ front.length + contents.length + stale.length

theorem Padded.nil {written : Bytes} (h : Padded written [] []) : written = [] := by
  obtain ⟨stale, hwritten, hless, hdvd⟩ := h
  simp only [List.length_nil, Nat.zero_add] at hdvd
  have hzero := Nat.eq_zero_of_dvd_of_lt hdvd hless
  simpa [List.length_eq_zero_iff.mp hzero] using hwritten

/-- A buffer filled from the offset on, then the buffers written after it. -/
theorem Padded.buffer {response front contents rest : Bytes} (hbuffer : response.length = BUFSIZE)
    (hfront : response.take front.length = front) (hroom : front.length < BUFSIZE)
    (hsome : front ≠ [] ∨ contents ≠ [])
    (hrest : Padded rest [] (contents.drop (BUFSIZE - front.length))) :
    Padded (overwrite response front.length (contents.take (BUFSIZE - front.length)) ++ rest)
      front contents := by
  by_cases hfull : BUFSIZE - front.length ≤ contents.length
  · obtain ⟨stale, hrest, hless, hdvd⟩ := hrest
    refine ⟨stale, ?_, hless, ?_⟩
    · have hfits : response.length =
          front.length + (contents.take (BUFSIZE - front.length)).length := by
        rw [List.length_take]
        omega
      rw [overwrite_full hfits, hfront, hrest]
      simp only [List.nil_append, List.append_assoc]
      rw [← List.append_assoc (contents.take _), List.take_append_drop]
    · simp only [List.length_drop, List.length_nil, Nat.zero_add] at hdvd
      have hsum : front.length + contents.length + stale.length =
          BUFSIZE + (contents.length - (BUFSIZE - front.length) + stale.length) := by omega
      rw [hsum]
      exact Nat.dvd_add (Nat.dvd_refl _) hdvd
  · have htake : contents.take (BUFSIZE - front.length) = contents :=
      List.take_of_length_le (by omega)
    have hdrop : contents.drop (BUFSIZE - front.length) = [] :=
      List.drop_of_length_le (by omega)
    rw [hdrop] at hrest
    rw [htake, hrest.nil, List.append_nil]
    refine ⟨response.drop (front.length + contents.length), ?_, ?_, ?_⟩
    · rw [overwrite, hfront]
    · have hpos : 0 < front.length + contents.length := by
        obtain hne | hne := hsome
        · have hlen := List.length_pos_iff.mpr hne
          omega
        · have hlen := List.length_pos_iff.mpr hne
          omega
      rw [List.length_drop]
      omega
    · have hsum : front.length + contents.length +
          (response.drop (front.length + contents.length)).length = BUFSIZE := by
        rw [List.length_drop]
        omega
      exact ⟨1, by omega⟩

/-- The loop writes the contents, and then what is left in the buffer of an earlier chunk. -/
theorem padded_writeContents {calls : Calls} {n : Nat} {response contents : Bytes}
    (hbuffer : response.length = BUFSIZE)
    (hreturned : (writeContents calls n response contents).outcome = .returned 0) :
    Padded (writeContents calls n response contents).written [] contents := by
  induction hlen : contents.length using Nat.strongRecOn generalizing n response contents with
  | ind length ih =>
      rw [writeContents] at hreturned ⊢
      by_cases hfails : (!calls.fread n) = true
      · rw [if_pos hfails] at hreturned
        cases hreturned
      · rw [if_neg hfails] at hreturned ⊢
        by_cases hnil : contents = []
        · rw [dif_pos hnil, hnil]
          exact ⟨[], rfl, by decide, by decide⟩
        · rw [dif_neg hnil] at hreturned ⊢
          by_cases hwrite : calls.write n = true
          · simp only [hwrite, if_true] at hreturned ⊢
            have hpos := List.length_pos_iff.mpr hnil
            have hchunk : (overwrite response 0 (contents.take BUFSIZE)).length = BUFSIZE := by
              rw [length_overwrite, hbuffer]
              rw [List.length_take]
              omega
            have hless : (contents.drop BUFSIZE).length < length := by
              rw [List.length_drop]
              simp only [BUFSIZE]
              omega
            have hrest := ih _ hless hchunk hreturned rfl
            have hempty : response.take ([] : Bytes).length = [] := rfl
            exact Padded.buffer hbuffer hempty (by decide) (.inr hnil) hrest
          · simp only [hwrite] at hreturned
            cases hreturned

/-- The part of a successful response to a file of a supported type. -/
theorem padded_writeHttpResponse {calls : Calls} {response contents : Bytes}
    {resourcePath suffix : List Char} {type : String} (hbuffer : response.length = BUFSIZE)
    (hsuffix : fileExtension resourcePath = some suffix) (htype : getMimeType suffix = some type)
    (hreturned : (writeHttpResponse calls response resourcePath (.regular contents)).outcome =
      .returned 0) :
    Padded (writeHttpResponse calls response resourcePath (.regular contents)).written
      (header type (contents.length % 2 ^ 32)) contents := by
  simp only [writeHttpResponse, hsuffix, htype] at hreturned ⊢
  have hroom := length_header_lt htype contents.length
  have hhead : header type (contents.length % 2 ^ 32) ≠ [] := by
    rw [← List.length_pos_iff, length_header]
    omega
  generalize header type (contents.length % 2 ^ 32) = head at hreturned hroom hhead ⊢
  by_cases hopen : (!calls.fopen) = true
  · rw [if_pos hopen] at hreturned
    cases hreturned
  · rw [if_neg hopen] at hreturned ⊢
    by_cases hfails : (!calls.fread 0) = true
    · rw [if_pos hfails] at hreturned
      cases hreturned
    · rw [if_neg hfails] at hreturned ⊢
      by_cases hwrite : calls.write 0 = true
      · simp only [hwrite, if_true] at hreturned ⊢
        have hfits : 0 + (head ++ [0]).length ≤ response.length := by
          simp only [List.length_append, List.length_singleton, hbuffer]
          omega
        have hlength : (overwrite response 0 (head ++ [0])).length = BUFSIZE := by
          rw [length_overwrite hfits, hbuffer]
        have hfront : (overwrite response 0 (head ++ [0])).take head.length = head := by
          simp [overwrite]
        have hchunk : (overwrite (overwrite response 0 (head ++ [0])) head.length
            (contents.take (BUFSIZE - head.length))).length = BUFSIZE := by
          rw [length_overwrite, hlength]
          rw [hlength, List.length_take]
          omega
        exact Padded.buffer hlength hfront (by omega) (.inl hhead)
          (padded_writeContents hchunk hreturned)
      · simp only [hwrite] at hreturned
        cases hreturned

theorem written_ne_nil {calls : Calls} {response contents : Bytes}
    {resourcePath suffix : List Char} {type : String} (hbuffer : response.length = BUFSIZE)
    (hsuffix : fileExtension resourcePath = some suffix) (htype : getMimeType suffix = some type)
    (hreturned : (writeHttpResponse calls response resourcePath (.regular contents)).outcome =
      .returned 0) :
    (writeHttpResponse calls response resourcePath (.regular contents)).written ≠ [] := by
  obtain ⟨stale, hwritten, _⟩ := padded_writeHttpResponse hbuffer hsuffix htype hreturned
  rw [hwritten, ← List.length_pos_iff, List.length_append, List.length_append, length_header]
  omega

/-- What the header and the file are followed by, and where the size is right. -/
theorem written_exactly_iff {calls : Calls} {response contents : Bytes}
    {resourcePath suffix : List Char} {type : String} (hbuffer : response.length = BUFSIZE)
    (hsuffix : fileExtension resourcePath = some suffix) (htype : getMimeType suffix = some type)
    (hreturned : (writeHttpResponse calls response resourcePath (.regular contents)).outcome =
      .returned 0) :
    (writeHttpResponse calls response resourcePath (.regular contents)).written =
        header type contents.length ++ contents ↔
      contents.length < 2 ^ 32 ∧
        BUFSIZE ∣
          53 + type.length + (Nat.toDigits 10 contents.length).length + contents.length := by
  obtain ⟨stale, hwritten, hless, hdvd⟩ := padded_writeHttpResponse hbuffer hsuffix htype hreturned
  rw [hwritten, ← length_header]
  constructor
  · intro hexact
    rw [List.append_assoc] at hexact
    have hsize := size_of_header hexact
    rw [hsize] at hexact hdvd
    have hnone : stale = [] := by simpa using hexact
    rw [hnone, List.length_nil, Nat.add_zero] at hdvd
    have hsmall : contents.length % 2 ^ 32 < 2 ^ 32 := Nat.mod_lt _ (by decide)
    rw [hsize] at hsmall
    exact ⟨hsmall, hdvd⟩
  · intro hcond
    obtain ⟨hsmall, haligned⟩ := hcond
    rw [Nat.mod_eq_of_lt hsmall] at hdvd ⊢
    have hzero := Nat.eq_zero_of_dvd_of_lt ((Nat.dvd_add_right haligned).mp hdvd) hless
    rw [List.length_eq_zero_iff.mp hzero, List.append_nil]

def succeeding : Calls := ⟨true, fun _ => true, fun _ => true, true⟩

/-- A file that fits into the first buffer is sent. -/
theorem returned_of_short {response contents : Bytes} {resourcePath suffix : List Char}
    {type : String} (hsuffix : fileExtension resourcePath = some suffix)
    (htype : getMimeType suffix = some type)
    (h : contents.length ≤ BUFSIZE - (header type (contents.length % 2 ^ 32)).length) :
    (writeHttpResponse succeeding response resourcePath (.regular contents)).outcome =
      .returned 0 := by
  simp only [writeHttpResponse, hsuffix, htype, succeeding, List.drop_of_length_le h]
  rw [writeContents]
  rfl

theorem textFile : fileExtension "www/a.txt".toList = some ".txt".toList ∧
    getMimeType ".txt".toList = some "text/plain" := by decide

/-- A text file of one byte is answered with a whole buffer. -/
theorem one_byte_file_padded :
    (writeHttpResponse succeeding (List.replicate BUFSIZE 0) "www/a.txt".toList
        (.regular [65])).outcome = .returned 0 ∧
      (writeHttpResponse succeeding (List.replicate BUFSIZE 0) "www/a.txt".toList
        (.regular [65])).written ≠ header "text/plain" 1 ++ [65] := by
  have hreturned : (writeHttpResponse succeeding (List.replicate BUFSIZE 0) "www/a.txt".toList
      (.regular [65])).outcome = .returned 0 :=
    returned_of_short textFile.1 textFile.2 (by decide)
  refine ⟨hreturned, ?_⟩
  obtain ⟨stale, hwritten, _, hdvd⟩ := padded_writeHttpResponse (List.length_replicate ..)
    textFile.1 textFile.2 hreturned
  rw [hwritten]
  intro hexact
  have hnone : stale = [] := by simpa using hexact
  rw [hnone] at hdvd
  exact absurd hdvd (by decide)

/-- A file of 446 bytes fills the first buffer, and nothing else is written. -/
theorem full_buffer_file_exact :
    (writeHttpResponse succeeding (List.replicate BUFSIZE 0) "www/a.txt".toList
        (.regular (List.replicate 446 65))).written =
      header "text/plain" 446 ++ List.replicate 446 65 := by
  have hreturned : (writeHttpResponse succeeding (List.replicate BUFSIZE 0) "www/a.txt".toList
      (.regular (List.replicate 446 65))).outcome = .returned 0 := by
    refine returned_of_short textFile.1 textFile.2 ?_
    rw [List.length_replicate]
    decide
  have hiff := written_exactly_iff (List.length_replicate ..) textFile.1 textFile.2 hreturned
  simp only [List.length_replicate] at hiff
  exact hiff.mpr (by decide)

end UmnProjects.Server.Http
