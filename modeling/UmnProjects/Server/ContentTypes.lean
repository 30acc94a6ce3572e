import Mathlib.Data.List.DropRight
import UmnProjects.Foundations.Tokens
import UmnProjects.Server.ServedPaths

/-!
Which content type a file is announced with. The extension of a file is what its name ends in,
while the response is made up with what follows the first dot of the whole path.
-/
namespace UmnProjects.Server.Http

open Tokens

/-! ### Extensions -/

/-- The name of the file, behind the last '/' of the path. -/
def lastComponent (path : List Char) : List Char := path.rtakeWhile (· != '/')

/-- The last component from its last dot on, if it has one. -/
def extension (path : List Char) : Option (List Char) :=
  if '.' ∈ lastComponent path then some ('.' :: (lastComponent path).rtakeWhile (· != '.'))
  else none

theorem rtakeWhile_append_cons {before after : List Char} {c : Char} (h : c ∉ after) :
    (before ++ c :: after).rtakeWhile (· != c) = after := by
  have hreverse : (before ++ c :: after).reverse = after.reverse ++ c :: before.reverse := by simp
  rw [List.rtakeWhile, hreverse, takeWhile_stretch]
  · exact List.reverse_reverse after
  · intro d hd
    rw [bne_iff_ne]
    intro heq
    exact h (heq ▸ List.mem_reverse.mp hd)
  · intro d hd
    cases hd
    exact bne_self_eq_false c

theorem exists_eq_append_cons {path : List Char} {c : Char} (h : c ∈ path) :
    ∃ before after, path = before ++ c :: after ∧ c ∉ after := by
  obtain ⟨after, before, hsplit, hafter⟩ :=
    List.eq_append_cons_of_mem (List.mem_reverse.mpr h)
  refine ⟨before.reverse, after.reverse, ?_, fun hmem => hafter (List.mem_reverse.mp hmem)⟩
  rw [← List.reverse_reverse path, hsplit]
  simp

/-- An extension is the end of the path from a dot on. -/
theorem eq_append_of_extension {path suffix : List Char} (h : extension path = some suffix) :
    ∃ before after, path = before ++ suffix ∧ suffix = '.' :: after := by
  rw [extension] at h
  split at h
  · next hdot =>
      obtain ⟨start, after, hname, hafter⟩ := exists_eq_append_cons hdot
      obtain ⟨directory, hpath⟩ : lastComponent path <:+ path := List.rtakeWhile_suffix _ _
      rw [hname, rtakeWhile_append_cons hafter] at h
      cases h
      refine ⟨directory ++ start, after, ?_, rfl⟩
      rw [← hpath, hname, List.append_assoc]
  · cases h

theorem extension_append {before after : List Char} (hdot : '.' ∉ after) (hslash : '/' ∉ after) :
    extension (before ++ '.' :: after) = some ('.' :: after) := by
  have hplain : '/' ∉ '.' :: after :=
    List.not_mem_cons_of_ne_of_not_mem (by decide) hslash
  have hname : ∃ start, lastComponent (before ++ '.' :: after) = start ++ '.' :: after := by
    by_cases hmem : '/' ∈ before
    · obtain ⟨directory, start, rfl, hstart⟩ := exists_eq_append_cons hmem
      refine ⟨start, ?_⟩
      rw [lastComponent, List.append_assoc, List.cons_append]
      apply rtakeWhile_append_cons
      exact fun hslash => (List.mem_append.mp hslash).elim hstart hplain
    · refine ⟨before, ?_⟩
      rw [lastComponent, List.rtakeWhile_eq_self_iff]
      intro c hc
      rw [bne_iff_ne]
      intro heq
      rw [heq] at hc
      exact (List.mem_append.mp hc).elim hmem hplain
  obtain ⟨start, hname⟩ := hname
  have hmem : '.' ∈ start ++ '.' :: after := List.mem_append_right _ List.mem_cons_self
  rw [extension, hname, if_pos hmem, rtakeWhile_append_cons hdot]

theorem fileExtension_append {before : List Char} (hbefore : '.' ∉ before) (after : List Char) :
    fileExtension (before ++ '.' :: after) = some ('.' :: after) := by
  have hdrop : (before ++ '.' :: after).dropWhile (· != '.') = '.' :: after := by
    apply dropWhile_stretch
    · intro c hc
      rw [bne_iff_ne]
      exact fun heq => hbefore (heq ▸ hc)
    · intro c hc
      cases hc
      exact bne_self_eq_false '.'
  simp only [fileExtension, hdrop]

theorem fileExtension_eq_none_iff (path : List Char) :
    fileExtension path = none ↔ '.' ∉ path := by
  constructor
  · intro h hmem
    obtain ⟨before, after, rfl, hbefore⟩ := List.eq_append_cons_of_mem hmem
    rw [fileExtension_append hbefore] at h
    cases h
  · intro h
    have hdrop : path.dropWhile (· != '.') = [] := by
      apply List.dropWhile_eq_nil_iff.mpr
      intro c hc
      rw [bne_iff_ne]
      exact fun heq => h (heq ▸ hc)
    simp only [fileExtension, hdrop]

theorem slash_not_mem_of_getMimeType {suffix : List Char} {type : String}
    (h : getMimeType suffix = some type) : '/' ∉ suffix := by
  apply getMimeType_cases (P := fun suffix _ => '/' ∉ suffix) h <;> decide

/-- What the response takes for the extension is the extension, where it is supported. -/
theorem extension_of_supported {path suffix : List Char} {type : String}
    (hsuffix : fileExtension path = some suffix) (htype : getMimeType suffix = some type) :
    extension path = some suffix := by
  have hmem : '.' ∈ path := by
    by_contra hnot
    rw [(fileExtension_eq_none_iff path).mpr hnot] at hsuffix
    cases hsuffix
  obtain ⟨before, after, rfl, hbefore⟩ := List.eq_append_cons_of_mem hmem
  rw [fileExtension_append hbefore] at hsuffix
  cases hsuffix
  obtain ⟨hcount, _, _⟩ := dot_of_getMimeType htype
  have hdot : '.' ∉ after := by
    rw [List.count_cons_self] at hcount
    exact List.count_eq_zero.mp (Nat.succ.inj hcount)
  exact extension_append hdot fun hslash =>
    slash_not_mem_of_getMimeType htype (List.mem_cons_of_mem _ hslash)

/-- The other way round this needs that no dot is before the extension. -/
theorem fileExtension_of_count {path suffix : List Char} (h : extension path = some suffix)
    (hcount : path.count '.' = 1) : fileExtension path = some suffix := by
  obtain ⟨before, after, rfl, rfl⟩ := eq_append_of_extension h
  apply fileExtension_append
  rw [List.count_append, List.count_cons_self] at hcount
  exact List.count_eq_zero.mp (by omega)

/-! ### Announcements -/

/-- The response to an existing file announces the type of its extension, as soon as the first
calls on the file and the socket succeed, or fails where the extension gives no type. -/
def Announced (path : List Char) : Prop :=
  ∀ calls response contents, response.length = BUFSIZE →
    (∀ type, (extension path).bind getMimeType = some type →
      calls.fopen = true → calls.fread 0 = true → calls.write 0 = true →
        ∃ size, header type size <+:
          (writeHttpResponse calls response path (.regular contents)).written) ∧
    ((extension path).bind getMimeType = none →
      (writeHttpResponse calls response path (.regular contents)).outcome = .returned (-1))

theorem header_of_written {calls : Calls} {path suffix : List Char} {type : String}
    (hsuffix : fileExtension path = some suffix) (htype : getMimeType suffix = some type)
    (hopen : calls.fopen = true) (hread : calls.fread 0 = true) (hwrite : calls.write 0 = true)
    (response contents : Bytes) : header type (contents.length % 2 ^ 32) <+:
      (writeHttpResponse calls response path (.regular contents)).written := by
  simp only [writeHttpResponse, hsuffix, htype, hopen, hread, hwrite, Bool.not_true,
    Bool.false_eq_true, if_false, if_true]
  generalize header type (contents.length % 2 ^ 32) = head
  have hfront : (overwrite response 0 (head ++ [0])).take head.length = head := by
    simp [overwrite]
  rw [overwrite, hfront, List.append_assoc, List.append_assoc]
  exact List.prefix_append _ _

theorem extension_of_no_dot {path : List Char} (h : '.' ∉ path) : extension path = none := by
  have hname : '.' ∉ lastComponent path := fun hmem =>
    h ((List.rtakeWhile_suffix _ _).subset hmem)
  rw [extension, if_neg hname]

/-- The announced type is that of the extension, and a missing or unsupported extension is
refused, exactly when the path has a dot, and a supported extension the only one. -/
theorem announced_iff (path : List Char) :
    Announced path ↔ '.' ∈ path ∧
      ∀ type, (extension path).bind getMimeType = some type → path.count '.' = 1 := by
  have hbuffer : (List.replicate BUFSIZE (0 : UInt8)).length = BUFSIZE := List.length_replicate
  constructor
  · intro h
    refine ⟨?_, ?_⟩
    · by_contra hnot
      have hrefused := (h succeeding _ [] hbuffer).2 (by rw [extension_of_no_dot hnot]; rfl)
      simp only [writeHttpResponse, (fileExtension_eq_none_iff path).mpr hnot] at hrefused
      cases hrefused
    · intro type htype
      obtain ⟨size, rest, hwritten⟩ := (h succeeding _ [] hbuffer).1 type htype rfl rfl rfl
      have hsome : (writeHttpResponse succeeding (List.replicate BUFSIZE 0) path
          (.regular [])).written ≠ [] := by
        rw [← hwritten, ← List.length_pos_iff, List.length_append, length_header]
        omega
      obtain ⟨suffix, type', hsuffix, htype'⟩ := supported_of_written hsome
      exact (dot_of_supported hsuffix htype').1
  · intro h calls response contents _
    obtain ⟨hdot, hcount⟩ := h
    refine ⟨?_, ?_⟩
    · intro type htype hopen hread hwrite
      have hone := hcount type htype
      obtain ⟨suffix, hsuffix, hmime⟩ := Option.bind_eq_some_iff.mp htype
      exact ⟨contents.length % 2 ^ 32, header_of_written (fileExtension_of_count hsuffix hone)
        hmime hopen hread hwrite response contents⟩
    · intro hnone
      cases hsuffix : fileExtension path with
      | none => exact absurd hdot ((fileExtension_eq_none_iff path).mp hsuffix)
      | some suffix =>
          cases hmime : getMimeType suffix with
          | none => simp only [writeHttpResponse, hsuffix, hmime]
          | some type =>
              rw [extension_of_supported hsuffix hmime, Option.bind_some, hmime] at hnone
              cases hnone

/-- A file without an extension, and a text file in a directory with a dot in its name. -/
theorem not_announced_readme :
    (writeHttpResponse succeeding (List.replicate BUFSIZE 0) "www/readme".toList
        (.regular [])).outcome = .crashed ∧
      (writeHttpResponse succeeding (List.replicate BUFSIZE 0) "./www/a.txt".toList
        (.regular [])).outcome = .returned (-1) ∧
      ¬ Announced "www/readme".toList ∧ ¬ Announced "./www/a.txt".toList := by
  have hbuffer : (List.replicate BUFSIZE (0 : UInt8)).length = BUFSIZE := List.length_replicate
  have hreadme : fileExtension "www/readme".toList = none := by decide
  have hdots : fileExtension "./www/a.txt".toList = some "./www/a.txt".toList ∧
      getMimeType "./www/a.txt".toList = none := by decide
  have hcrashed : (writeHttpResponse succeeding (List.replicate BUFSIZE 0) "www/readme".toList
      (.regular [])).outcome = .crashed := by
    simp only [writeHttpResponse, hreadme]
  refine ⟨hcrashed, ?_, ?_, ?_⟩
  · simp only [writeHttpResponse, hdots.1, hdots.2]
  · intro h
    have hrefused := (h succeeding _ [] hbuffer).2 (by decide)
    rw [hcrashed] at hrefused
    cases hrefused
  · intro h
    obtain ⟨size, rest, hwritten⟩ := (h succeeding _ [] hbuffer).1 "text/plain" (by decide)
      rfl rfl rfl
    have hlength := congrArg List.length hwritten
    simp only [writeHttpResponse, hdots.1, hdots.2, List.length_append, length_header,
      List.length_nil] at hlength
    omega

end UmnProjects.Server.Http
