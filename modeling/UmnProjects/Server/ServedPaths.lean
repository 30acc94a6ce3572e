import UmnProjects.Foundations.Segments
import UmnProjects.Server.Http
import Mathlib.Data.List.TakeWhile

/-!
Which file a request is answered with. The target is put right behind the directory to serve,
and the only check is on what follows the first dot of the whole path.
-/
namespace UmnProjects.Server.Http

open Segments

/-- The path is the directory, a '/' unless the directory ends in one, and components none of
which is "..". -/
def Inside (serveDir path : List Char) : Prop :=
  ∃ rest, path = serveDir ++ (if serveDir.getLast? = some '/' then [] else ['/']) ++ rest ∧
    ['.', '.'] ∉ rest.splitOn '/'

/-- Only files of a supported type are sent. -/
theorem supported_of_written {calls : Calls} {response : Bytes} {resourcePath : List Char}
    {stat : Stat} (h : (writeHttpResponse calls response resourcePath stat).written ≠ []) :
    ∃ suffix type, fileExtension resourcePath = some suffix ∧ getMimeType suffix = some type := by
  cases stat with
  | missing | failed => exact absurd rfl h
  | regular contents =>
      cases hsuffix : fileExtension resourcePath with
      | none => simp [writeHttpResponse, hsuffix] at h
      | some suffix =>
          cases htype : getMimeType suffix with
          | none => simp [writeHttpResponse, hsuffix, htype] at h
          | some type => exact ⟨suffix, type, rfl, htype⟩

/-- A supported extension has one dot, its first character, and no '/'. -/
theorem dot_of_getMimeType {suffix : List Char} {type : String}
    (h : getMimeType suffix = some type) :
    suffix.count '.' = 1 ∧ suffix ≠ [] ∧ suffix.getLast? ≠ some '/' := by
  apply getMimeType_cases
    (P := fun suffix _ => suffix.count '.' = 1 ∧ suffix ≠ [] ∧ suffix.getLast? ≠ some '/') h <;>
    decide

theorem eq_append_of_fileExtension {resourcePath suffix : List Char}
    (h : fileExtension resourcePath = some suffix) :
    resourcePath = resourcePath.takeWhile (· != '.') ++ suffix := by
  simp only [fileExtension] at h
  cases hdrop : resourcePath.dropWhile (· != '.') with
  | nil => simp [hdrop] at h
  | cons c cs =>
      rw [hdrop] at h
      rw [← Option.some.inj h, ← hdrop, List.takeWhile_append_dropWhile]

/-- The path of a file that is sent has one dot and does not end in '/'. -/
theorem dot_of_supported {resourcePath suffix : List Char} {type : String}
    (hsuffix : fileExtension resourcePath = some suffix) (htype : getMimeType suffix = some type) :
    resourcePath.count '.' = 1 ∧ resourcePath.getLast? ≠ some '/' := by
  obtain ⟨hcount, hne, hlast⟩ := dot_of_getMimeType htype
  rw [eq_append_of_fileExtension hsuffix]
  refine ⟨?_, ?_⟩
  · have hnone : (resourcePath.takeWhile (· != '.')).count '.' = 0 := by
      rw [List.count_eq_zero]
      intro hmem
      have hdot := List.mem_takeWhile_imp hmem
      simp at hdot
    rw [List.count_append, hnone, hcount]
  · rw [List.getLast?_append_of_ne_nil _ hne]
    exact hlast

theorem no_parent_of_count {rest : List Char} (h : rest.count '.' ≤ 1) :
    ['.', '.'] ∉ rest.splitOn '/' := by
  intro hmem
  have hle := (sublist_of_mem_splitOn hmem).count_le '.'
  have htwo : (['.', '.'] : List Char).count '.' = 2 := by decide
  omega

theorem resourcePath_of_short {serveDir : List Char} (request : List Char)
    (h : serveDir.length < BUFSIZE - 1) :
    resourcePath serveDir request =
      serveDir ++ request.take (BUFSIZE - 1 - serveDir.length) := by
  simp only [resourcePath, List.take_of_length_le (Nat.le_of_lt h)]

theorem resourcePath_of_long {serveDir : List Char} (request : List Char)
    (h : BUFSIZE - 1 ≤ serveDir.length) :
    resourcePath serveDir request = serveDir.take (BUFSIZE - 1) := by
  have hlength : (serveDir.take (BUFSIZE - 1)).length = BUFSIZE - 1 := by
    rw [List.length_take]
    omega
  simp [resourcePath, hlength]

/-- A path inside a directory that fits goes on behind a '/'. A directory that is cut off and
contains its own beginning would end in '/'. -/
theorem slash_of_inside {serveDir request : List Char}
    (hlast : (resourcePath serveDir request).getLast? ≠ some '/')
    (h : Inside serveDir (resourcePath serveDir request)) :
    serveDir.length < BUFSIZE - 1 ∧
      (serveDir.getLast? = some '/' ∨ request.head? = some '/') := by
  obtain ⟨rest, hpath, _⟩ := h
  by_cases hshort : serveDir.length < BUFSIZE - 1
  · refine ⟨hshort, ?_⟩
    rw [resourcePath_of_short request hshort, List.append_assoc,
      List.append_cancel_left_eq] at hpath
    by_cases hslash : serveDir.getLast? = some '/'
    · exact .inl hslash
    · rw [if_neg hslash] at hpath
      have hhead : (request.take (BUFSIZE - 1 - serveDir.length)).head? = some '/' := by
        simp [hpath]
      rw [List.head?_take, if_neg (by omega)] at hhead
      exact .inr hhead
  · have hlength := congrArg List.length hpath
    have hcut := resourcePath_of_long request (Nat.not_lt.mp hshort)
    rw [hcut] at hlength
    simp only [List.length_append, List.length_take] at hlength
    by_cases hslash : serveDir.getLast? = some '/'
    · have hwhole : serveDir.take (BUFSIZE - 1) = serveDir :=
        List.take_of_length_le (by omega)
      rw [hcut, hwhole] at hlast
      exact absurd hslash hlast
    · rw [if_neg hslash, List.length_singleton] at hlength
      omega

theorem inside_of_slash {serveDir request : List Char}
    (hcount : (resourcePath serveDir request).count '.' = 1)
    (hshort : serveDir.length < BUFSIZE - 1)
    (hslash : serveDir.getLast? = some '/' ∨ request.head? = some '/') :
    Inside serveDir (resourcePath serveDir request) := by
  rw [resourcePath_of_short request hshort] at hcount ⊢
  by_cases hdir : serveDir.getLast? = some '/'
  · refine ⟨request.take (BUFSIZE - 1 - serveDir.length), by simp [hdir], no_parent_of_count ?_⟩
    rw [List.count_append] at hcount
    omega
  · have hhead := hslash.resolve_left hdir
    obtain ⟨cs, hrequest⟩ := List.head?_eq_some_iff.mp hhead
    obtain ⟨room, hroom⟩ : ∃ room, BUFSIZE - 1 - serveDir.length = room + 1 :=
      ⟨BUFSIZE - 1 - serveDir.length - 1, by omega⟩
    rw [hrequest, hroom, List.take_succ_cons] at hcount ⊢
    refine ⟨cs.take room, by simp [hdir], no_parent_of_count ?_⟩
    rw [List.count_append, List.count_cons] at hcount
    omega

/-- The path of a file that is sent lies inside the directory exactly when the directory is not
cut off and it or the target brings the '/' between the two. -/
theorem inside_iff {calls : Calls} {response : Bytes} {stat : Stat} {serveDir request : List Char}
    (h : (writeHttpResponse calls response (resourcePath serveDir request) stat).written ≠ []) :
    Inside serveDir (resourcePath serveDir request) ↔
      serveDir.length < BUFSIZE - 1 ∧
        (serveDir.getLast? = some '/' ∨ request.head? = some '/') := by
  obtain ⟨suffix, type, hsuffix, htype⟩ := supported_of_written h
  obtain ⟨hcount, hlast⟩ := dot_of_supported hsuffix htype
  exact ⟨slash_of_inside hlast, fun hcond => inside_of_slash hcount hcond.1 hcond.2⟩

theorem readRest_of_blank {s rest : Stream}
    (h : fgets BUFSIZE s = some (['\r', '\n'], rest)) : readRest s = false := by
  rw [readRest]
  split
  · next hnone =>
      rw [h] at hnone
      cases hnone
  · next buf rest' hsome =>
      rw [h] at hsome
      cases hsome
      rfl

theorem textFile_sent {resourcePath : List Char}
    (h : fileExtension resourcePath = some ".txt".toList) :
    (writeHttpResponse succeeding (List.replicate BUFSIZE 0) resourcePath
      (.regular [65])).written ≠ [] :=
  written_ne_nil (List.length_replicate ..) h textFile.2
    (returned_of_short h textFile.2 (by decide))

/-- A request whose target does not begin with '/' is answered with a file beside the directory. -/
theorem sibling_file_served :
    readHttpRequest true true ⟨"GET evil.txt HTTP/1.0\r\n\r\n".toList, false⟩ =
        .returned 0 (some "evil.txt".toList) ∧
      (writeHttpResponse succeeding (List.replicate BUFSIZE 0)
        (resourcePath "www".toList "evil.txt".toList) (.regular [65])).written ≠ [] ∧
      ¬ Inside "www".toList (resourcePath "www".toList "evil.txt".toList) := by
  refine ⟨?_, textFile_sent (by decide), ?_⟩
  · have hline : fgets BUFSIZE ⟨"GET evil.txt HTTP/1.0\r\n\r\n".toList, false⟩ =
        some ("GET evil.txt HTTP/1.0\r\n".toList, ⟨['\r', '\n'], false⟩) := by decide
    have htoken : secondToken "GET evil.txt HTTP/1.0\r\n".toList = some "evil.txt".toList := by
      decide
    have hend : fgets BUFSIZE ⟨['\r', '\n'], false⟩ = some (['\r', '\n'], ⟨[], false⟩) := by
      decide
    simp only [readHttpRequest, hline, htoken, readRest_of_blank hend]
    rfl
  · intro hinside
    obtain ⟨rest, hpath, _⟩ := hinside
    have hpath : "wwwevil.txt".toList = "www".toList ++ ['/'] ++ rest := hpath
    cases hpath

/-- A target that begins with '/' stays inside. -/
theorem rooted_file_inside : Inside "www".toList (resourcePath "www".toList "/a.txt".toList) :=
  (inside_iff (textFile_sent (by decide))).mpr (by decide)

end UmnProjects.Server.Http
