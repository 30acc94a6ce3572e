import Mathlib.Data.List.ReduceOption
import UmnProjects.Loafr.Analysis

/-!
The files an analysis leaves in the output directory. It takes the name of the first script
file for all of them.
-/
namespace UmnProjects.Loafr

open Text Loops

namespace Controller

/-! ### Names -/

theorem not_mem_toDigits {c : Char} (h : c.isDigit = false) (n : Nat) :
    c ∉ Nat.toDigits 10 n := by
  intro hmem
  have hdigit := Nat.isDigit_of_mem_toDigits (by decide) (by decide) hmem
  exact absurd (h.symm.trans hdigit) Bool.false_ne_true

/-- The distance of the last underscore from the end. -/
theorem idxOf_reverse_outputName (logfile scriptfile : Text) :
    (outputName logfile scriptfile).reverse.idxOf '_' =
      ((getName scriptfile).reverse ++ ['_']).idxOf '_' := by
  have hreverse : (outputName logfile scriptfile).reverse =
      ((getName scriptfile).reverse ++ ['_']) ++ (outputPath ++ getName logfile).reverse := by
    simp [outputName]
  rw [hreverse, List.idxOf_append_of_mem]
  exact List.mem_append_right _ List.mem_cons_self

theorem idxOf_reverse_candidate (logfile scriptfile : Text) (i : Nat) :
    (candidate (outputName logfile scriptfile) (i + 1)).reverse.idxOf '_' =
      (Nat.toDigits 10 (i + 1)).length + 2 +
        (outputName logfile scriptfile).reverse.idxOf '_' := by
  have hreverse : (candidate (outputName logfile scriptfile) (i + 1)).reverse =
      (')' :: (Nat.toDigits 10 (i + 1)).reverse ++ ['(']) ++
        (outputName logfile scriptfile).reverse := by
    simp [candidate]
  have hdigits : '_' ∉ (Nat.toDigits 10 (i + 1)).reverse := by
    rw [List.mem_reverse]
    exact not_mem_toDigits (by decide) (i + 1)
  rw [hreverse, List.idxOf_append_of_notMem]
  · simp
  · simp [hdigits]

/-- A plain name is no name with a suffix where the script files have the same name. -/
theorem candidate_eq_outputName {logfile other scriptfile : Text} {i : Nat}
    (h : candidate (outputName other scriptfile) i = outputName logfile scriptfile) :
    i = 0 ∧ getName other = getName logfile := by
  cases i with
  | zero =>
      refine ⟨rfl, ?_⟩
      simp only [candidate, outputName, List.append_assoc] at h
      exact List.append_cancel_right (List.append_cancel_left h)
  | succ i =>
      have hidx := congrArg (fun name => name.reverse.idxOf '_') h
      simp only [idxOf_reverse_candidate, idxOf_reverse_outputName] at hidx
      omega

theorem candidate_succ_injective {name other : Text} {i j : Nat}
    (h : candidate name (i + 1) = candidate other (j + 1)) : name = other := by
  have hreverse (name : Text) (i : Nat) : (candidate name (i + 1)).reverse =
      ')' :: ((Nat.toDigits 10 (i + 1)).reverse ++ '(' :: name.reverse) := by
    simp [candidate]
  have hdigits (i : Nat) : '(' ∉ (Nat.toDigits 10 (i + 1)).reverse := by
    rw [List.mem_reverse]
    exact not_mem_toDigits (by decide) (i + 1)
  have heq := congrArg List.reverse h
  rw [hreverse, hreverse] at heq
  have hbreak := congrArg (breakOn ['(']) (List.cons.inj heq).2
  rw [breakOn_append_cons _ (hdigits i), breakOn_append_cons _ (hdigits j)] at hbreak
  have hnames := congrArg Prod.snd (Option.some.inj hbreak)
  exact List.reverse_injective hnames

theorem outputName_right_injective {logfile scriptfile other : Text}
    (h : outputName logfile scriptfile = outputName logfile other) :
    getName scriptfile = getName other := List.append_cancel_left h

/-- The first free name is the plain one, unless this is taken. -/
theorem freeName_eq_candidate (disk : Disk) (name : Text) :
    ∃ i, freeName disk name = candidate name i ∧ (i ≠ 0 → disk.pathExists name = true) := by
  rw [freeName]
  split
  · exact ⟨0, rfl, fun h => absurd rfl h⟩
  · next i hfound =>
      refine ⟨i, rfl, fun hi => ?_⟩
      obtain ⟨_, _, hbefore⟩ := List.find?_range_eq_some.mp hfound
      have hplain := hbefore 0 (Nat.pos_of_ne_zero hi)
      simpa [candidate] using hplain

end Controller

/-! ### New files -/

namespace Disk

/-- What has changed between two disks are new files of these paths, and maybe the output
directory. -/
structure Created (before after : Disk) (created : List Text) : Prop where
  files : after.files.map Prod.fst = before.files.map Prod.fst ++ created
  directories : before.directories ⊆ after.directories
  made : after.directories ⊆ Controller.directory :: before.directories
  nodup : created.Nodup
  fresh : ∀ path ∈ created, before.pathExists path = false
  unchanged : ∀ path content, before.content path = some content →
    after.content path = some content

variable {first second third : Disk} {created created' : List Text}

theorem Created.refl (disk : Disk) : Created disk disk [] where
  files := (List.append_nil _).symm
  directories := List.Subset.refl _
  made := List.subset_cons_self _ _
  nodup := .nil
  fresh := fun _ hpath => absurd hpath List.not_mem_nil
  unchanged := fun _ _ hcontent => hcontent

theorem created_directory (disk : Disk) :
    Created disk { disk with directories := disk.directories ++ [Controller.directory] } [] where
  files := (List.append_nil _).symm
  directories := List.subset_append_left _ _
  made := by
    apply List.append_subset.mpr
    exact ⟨List.subset_cons_self _ _, List.cons_subset_cons _ (List.nil_subset _)⟩
  nodup := .nil
  fresh := fun _ hpath => absurd hpath List.not_mem_nil
  unchanged := fun _ _ hcontent => hcontent

theorem Created.pathExists (h : Created first second created) {path : Text}
    (hpath : first.pathExists path = true) : second.pathExists path = true := by
  rw [pathExists_iff] at hpath ⊢
  obtain hfile | hdirectory := List.mem_append.mp hpath
  · apply List.mem_append_left
    rw [h.files]
    exact List.mem_append_left _ hfile
  · exact List.mem_append_right _ (h.directories hdirectory)

theorem Created.pathExists_created (h : Created first second created) {path : Text}
    (hpath : path ∈ created) : second.pathExists path = true := by
  rw [pathExists_iff]
  apply List.mem_append_left
  rw [h.files]
  exact List.mem_append_right _ hpath

theorem Created.pathExists_cases (h : Created first second created) {path : Text}
    (hpath : second.pathExists path = true) (hne : path ≠ Controller.directory) :
    first.pathExists path = true ∨ path ∈ created := by
  rw [pathExists_iff] at hpath ⊢
  obtain hfile | hdirectory := List.mem_append.mp hpath
  · rw [h.files] at hfile
    obtain hfile | hcreated := List.mem_append.mp hfile
    · exact .inl (List.mem_append_left _ hfile)
    · exact .inr hcreated
  · obtain heq | hold := List.mem_cons.mp (h.made hdirectory)
    · exact absurd heq hne
    · exact .inl (List.mem_append_right _ hold)

theorem Created.trans (h : Created first second created)
    (h' : Created second third created') : Created first third (created ++ created') where
  files := by rw [h'.files, h.files, List.append_assoc]
  directories := List.Subset.trans h.directories h'.directories
  made := by
    apply List.Subset.trans h'.made
    apply List.cons_subset.mpr
    exact ⟨List.mem_cons_self, h.made⟩
  nodup := by
    apply h.nodup.append h'.nodup
    intro path hpath hpath'
    have hexists := h.pathExists_created hpath
    rw [h'.fresh path hpath'] at hexists
    cases hexists
  fresh := by
    intro path hpath
    obtain hpath | hpath := List.mem_append.mp hpath
    · exact h.fresh path hpath
    · by_contra hexists
      have hsecond := h.pathExists (eq_true_of_ne_false hexists)
      rw [h'.fresh path hpath] at hsecond
      cases hsecond
  unchanged := fun path content hcontent =>
    h'.unchanged path content (h.unchanged path content hcontent)

/-- The disks differ in the content of this file alone. -/
structure OnlyAt (path : Text) (before after : Disk) : Prop where
  files : after.files.map Prod.fst = before.files.map Prod.fst
  directories : after.directories = before.directories
  other : ∀ path', path' ≠ path → after.content path' = before.content path'

variable {path : Text}

theorem OnlyAt.refl (path : Text) (disk : Disk) : OnlyAt path disk disk where
  files := rfl
  directories := rfl
  other := fun _ _ => rfl

theorem OnlyAt.trans (h : OnlyAt path first second) (h' : OnlyAt path second third) :
    OnlyAt path first third where
  files := h'.files.trans h.files
  directories := h'.directories.trans h.directories
  other := fun path' hne => (h'.other path' hne).trans (h.other path' hne)

theorem onlyAt_append (disk : Disk) (path text : Text) :
    OnlyAt path disk (disk.append path text) where
  files := by
    rw [append, List.map_map]
    apply List.map_congr_left
    intro file _
    rw [Function.comp_apply]
    split
    · next heq => exact heq.symm
    · rfl
  directories := rfl
  other := by
    intro path' hne
    rw [append, content, content]
    induction disk.files with
    | nil => rfl
    | cons file files ih =>
        obtain ⟨name, old⟩ := file
        rw [List.map_cons, List.lookup_cons]
        by_cases hname : name = path
        · have hskip : (path' == name) = false := beq_eq_false_iff_ne.mpr (hname ▸ hne)
          have hskip' : (path' == path) = false := beq_eq_false_iff_ne.mpr hne
          rw [if_pos hname, hskip', List.lookup_cons, hskip]
          exact ih
        · rw [if_neg hname, List.lookup_cons, ih]

/-- A new file, whatever is written to it. -/
theorem created_of_onlyAt {disk after : Disk} {text : Text} (hfree : disk.pathExists path = false)
    (h : OnlyAt path { disk with files := disk.files ++ [(path, text)] } after) :
    Created disk after [path] where
  files := by
    rw [h.files]
    exact List.map_append
  directories := by
    rw [h.directories]
    exact List.Subset.refl _
  made := by
    rw [h.directories]
    exact List.subset_cons_self _ _
  nodup := List.nodup_singleton path
  fresh := by
    intro path' hpath'
    rw [List.mem_singleton.mp hpath', hfree]
  unchanged := by
    intro path' content' hcontent
    have hne : path' ≠ path := by
      intro heq
      have hfile : disk.isFile path = true := by
        rw [isFile, ← heq, hcontent]
        rfl
      rw [isFile_of_free hfree] at hfile
      cases hfile
    rw [h.other path' hne, content, List.lookup_append]
    rw [content] at hcontent
    rw [hcontent]
    rfl

end Disk

/-! ### One file -/

namespace LogfileWriter

theorem onlyAt_writeEntry (writable : Text → Bool) (path : Text) (event : Event) (disk : Disk) :
    Disk.OnlyAt path disk (writeEntry writable (some event) ⟨some path⟩ disk).2 := by
  simp only [writeEntry]
  split
  · split
    · exact .refl path disk
    · exact Disk.onlyAt_append disk path _
  · exact .refl path disk

theorem onlyAt_writeEvents (writable : Text → Bool) (path : Text) (events : List Event)
    (disk : Disk) : Disk.OnlyAt path disk (writeEvents writable ⟨some path⟩ events disk).2 := by
  induction events generalizing disk with
  | nil => exact .refl path disk
  | cons event events ih =>
      have hentry := onlyAt_writeEntry writable path event disk
      rw [writeEvents, loop]
      split
      · next hgoes =>
          rw [hgoes] at hentry
          exact hentry.trans (ih _)
      · exact hentry

end LogfileWriter

namespace Controller

section Effects

variable {V : Type} [LinearOrder V] {parseDouble : Text → Option (Double V)} {io : Io}

/-- What the loops of an analysis keep of the controller. -/
structure Kept (before after : Controller) : Prop where
  scriptfiles : after.scriptfiles = before.scriptfiles
  scripts : after.scripts.length = before.scripts.length

theorem Kept.trans {first second third : Controller} (h : Kept first second)
    (h' : Kept second third) : Kept first third :=
  ⟨h'.scriptfiles.trans h.scriptfiles, h'.scripts.trans h.scripts⟩

theorem onlyAt_alertAndWrite (parseDouble : Text → Option (Double V)) (io : Io) (l : Logfile)
    (k : Nat) (script : Script) {s : Controller} {path : Text}
    (hpath : s.logfileWriter = ⟨some path⟩) :
    Disk.OnlyAt path s.disk (alertAndWrite parseDouble io l k script s).2.disk ∧
      Kept s (alertAndWrite parseDouble io l k script s).2 := by
  have hlength : (s.scripts.set k (script.alert parseDouble (some l.events)).2).length =
      s.scripts.length := List.length_set
  rw [alertAndWrite]
  split
  · exact ⟨.refl path _, rfl, hlength⟩
  · exact ⟨.refl path _, rfl, hlength⟩
  · next output _ =>
      have hwrite := LogfileWriter.onlyAt_writeEvents io.writable path output s.disk
      rw [← hpath] at hwrite
      exact ⟨hwrite, rfl, hlength⟩

theorem created_writeTo {l : Logfile} {k : Nat} {script : Script} {name : Text}
    {s t : Controller} (h : writeTo parseDouble io l k script name s = (.ok true, t)) :
    Disk.Created s.disk t.disk [freeName s.disk name] ∧ Kept s t := by
  have hfree := pathExists_freeName s.disk name
  rw [writeTo] at h
  generalize freeName s.disk name = path at h hfree
  rw [Disk.createNewFile_of_free io hfree] at h
  cases hcreate : io.create path with
  | false =>
      simp [hcreate, LogfileWriter.setCurrentFile, Disk.isFile_of_free hfree] at h
  | true =>
      simp only [hcreate, if_true, LogfileWriter.setCurrentFile, Disk.isFile_new] at h
      rw [if_neg (by decide)] at h
      obtain ⟨honly, hkept⟩ := onlyAt_alertAndWrite parseDouble io l k
        script (s := { s with
          disk := { s.disk with files := s.disk.files ++ [(path, [])] }
          logfileWriter := ⟨some path⟩ }) rfl
      rw [h] at honly hkept
      exact ⟨Disk.created_of_onlyAt hfree honly, hkept.scriptfiles, hkept.scripts⟩

end Effects

/-! ### All files -/

theorem outputName_ne_directory (logfile scriptfile : Text) :
    outputName logfile scriptfile ≠ directory := by
  intro heq
  have hlength := congrArg List.length heq
  have hpath : outputPath.length = 7 := by decide
  have hdirectory : directory.length = 6 := by decide
  rw [hdirectory, outputName, List.length_append, List.length_append, List.length_append,
    hpath] at hlength
  omega

/-- The files created so far, one for each of these log files, named after them and one script
file. -/
def Written (scriptfile : Text) (before : Disk) (logs : List Text) (now : Disk) : Prop :=
  ∃ created, Disk.Created before now created ∧ created.length = logs.length ∧
    ∀ k logfile path, logs[k]? = some logfile → created[k]? = some path →
      ∃ i, path = candidate (outputName logfile scriptfile) i ∧
        (i ≠ 0 → before.pathExists (outputName logfile scriptfile) = true ∨
          outputName logfile scriptfile ∈ created.take k)

theorem Written.nil (scriptfile : Text) (disk : Disk) : Written scriptfile disk [] disk :=
  ⟨[], .refl disk, rfl, fun _ _ _ hlog => by cases hlog⟩

theorem Written.concat {scriptfile logfile : Text} {before now next : Disk} {logs : List Text}
    (h : Written scriptfile before logs now)
    (hnext : Disk.Created now next [freeName now (outputName logfile scriptfile)]) :
    Written scriptfile before (logs ++ [logfile]) next := by
  obtain ⟨created, hcreated, hlength, hnames⟩ := h
  refine ⟨created ++ [freeName now (outputName logfile scriptfile)], hcreated.trans hnext, ?_, ?_⟩
  · rw [List.length_append, List.length_append, hlength]
    rfl
  · intro k logfile' path hlog hpath
    obtain hk | hk := Nat.lt_or_ge k logs.length
    · rw [List.getElem?_append_left hk] at hlog
      rw [List.getElem?_append_left (by omega)] at hpath
      rw [List.take_append_of_le_length (by omega)]
      exact hnames k logfile' path hlog hpath
    · have hlast : k = logs.length := by
        have hbound := (List.getElem?_eq_some_iff.mp hlog).1
        rw [List.length_append, List.length_singleton] at hbound
        omega
      rw [hlast, List.getElem?_concat_length] at hlog
      rw [hlast, ← hlength, List.getElem?_concat_length] at hpath
      cases hlog
      cases hpath
      obtain ⟨i, hname, htaken⟩ := freeName_eq_candidate now (outputName logfile scriptfile)
      refine ⟨i, hname, fun hi => ?_⟩
      rw [hlast, ← hlength, List.take_left]
      exact hcreated.pathExists_cases (htaken hi) (outputName_ne_directory logfile scriptfile)

section Runs

variable {V : Type} [LinearOrder V] {parseDouble : Text → Option (Double V)} {io : Io}
  {scriptfile : Text} {before : Disk} {logs : List Text} {s t : Controller}

theorem written_runScript {l : Logfile} {logfile : Text} {k : Nat}
    (h : runScript parseDouble io l logfile (some scriptfile) k s = (.ok true, t))
    (hk : k < s.scripts.length) (hwritten : Written scriptfile before logs s.disk) :
    Written scriptfile before (logs ++ [logfile]) t.disk ∧ Kept s t := by
  rw [runScript, lastPart_eq, List.getElem?_eq_getElem hk] at h
  simp only [lastPart_eq] at h
  obtain ⟨hcreated, hkept⟩ := created_writeTo h
  exact ⟨hwritten.concat hcreated, hkept⟩

theorem written_runScripts {l : Logfile} {logfile : Text}
    (h : runScripts parseDouble io l logfile (some scriptfile) s = (.ok true, t))
    (hwritten : Written scriptfile before logs s.disk) :
    Written scriptfile before (logs ++ List.replicate s.scripts.length logfile) t.disk ∧
      Kept s t := by
  rw [runScripts] at h
  have hloop := loop_induction (P := fun done u =>
    Written scriptfile before (logs ++ List.replicate done.length logfile) u.disk ∧ Kept s u)
    ?_ ?_ h
  · rw [List.length_range] at hloop
    exact hloop
  · intro done k rest u u' hsplit hdone hbody
    obtain ⟨hwritten, hkept⟩ := hdone
    have hk := (length_of_range_eq hsplit).2
    rw [← hkept.scripts] at hk
    obtain ⟨hnext, hkept'⟩ := written_runScript hbody hk hwritten
    rw [List.append_assoc] at hnext
    rw [List.length_append, List.length_singleton, List.replicate_succ']
    exact ⟨hnext, hkept.trans hkept'⟩
  · rw [List.length_nil, List.replicate_zero, List.append_nil]
    exact ⟨hwritten, rfl, rfl⟩

theorem Written.of_created {now next : Disk} (h : Written scriptfile before logs now)
    (hnext : Disk.Created now next []) : Written scriptfile before logs next := by
  obtain ⟨created, hcreated, hlength, hnames⟩ := h
  have htrans := hcreated.trans hnext
  rw [List.append_nil] at htrans
  exact ⟨created, htrans, hlength, hnames⟩

theorem created_makeDirectory (h : makeDirectory io s = (true, t)) :
    Disk.Created s.disk t.disk [] ∧ Kept s t := by
  rw [makeDirectory] at h
  split at h
  · cases h
    exact ⟨.refl _, rfl, rfl⟩
  · next hexists =>
      cases hmkdir : io.mkdir directory with
      | false => simp [Disk.mkdir, hmkdir] at h
      | true =>
          simp only [Disk.mkdir, hmkdir, if_true, Prod.mk.injEq, true_and] at h
          rw [← h]
          exact ⟨Disk.created_directory s.disk, rfl, rfl⟩

theorem getLogfile_snd (s : Controller) :
    ∃ reader, (getLogfile s).2 = { s with logfileReader := reader } := by
  rw [getLogfile]
  split
  · exact ⟨s.logfileReader, rfl⟩
  · exact ⟨s.logfileReader, rfl⟩
  · exact ⟨_, rfl⟩

theorem written_runFile {logfile : Text}
    (h : runFile parseDouble io (some logfile) s = (.ok true, t))
    (hscript : s.scriptfiles[0]? = some (some scriptfile))
    (hwritten : Written scriptfile before logs s.disk) :
    Written scriptfile before (logs ++ List.replicate s.scripts.length logfile) t.disk ∧
      Kept s t := by
  cases hfile : s.disk.isFile logfile with
  | false => simp [runFile, LogfileReader.setCurrentFile, Disk.file, hfile] at h
  | true =>
      rw [runFile_of_isFile _ _ hfile] at h
      obtain ⟨reader, hreader⟩ := getLogfile_snd (s.opened logfile)
      cases hget : getLogfile (s.opened logfile) with
      | mk result u =>
          rw [hget] at h hreader
          cases hreader
          cases result with
          | error e => cases h
          | ok l =>
              cases l with
              | none => cases h
              | some l =>
                  simp only [runLogfile, opened, hscript] at h
                  split at h
                  · cases h
                  · next v hmake =>
                      obtain ⟨hmade, hkept⟩ := created_makeDirectory hmake
                      obtain ⟨hruns, hkept'⟩ :=
                        written_runScripts h (hwritten.of_created hmade)
                      rw [hkept.scripts] at hruns
                      exact ⟨hruns, Kept.trans ⟨hkept.scriptfiles, hkept.scripts⟩ hkept'⟩

theorem length_parseScripts {disk : Disk} {scripts : List Text} {parsed : List Script}
    (h : parseScripts disk (scripts.map some) = .ok (some parsed)) :
    parsed.length = scripts.length := by
  induction scripts generalizing parsed with
  | nil =>
      cases h
      rfl
  | cons path scripts ih =>
      rw [List.map_cons, parseScripts] at h
      cases hfile : parseFile disk path with
      | none => simp [hfile] at h
      | some script =>
          simp only [hfile] at h
          cases hrest : parseScripts disk (scripts.map some) with
          | error e => simp [hrest, Except.map] at h
          | ok result =>
              cases result with
              | none => simp [hrest, Except.map] at h
              | some rest =>
                  simp only [hrest, Except.map, Option.map_some, Except.ok.injEq,
                    Option.some.injEq] at h
                  rw [← h, List.length_cons, List.length_cons, ih hrest]

/-- Every file of an analysis is named after its log file and the first script file. -/
theorem written_startAnalysis {rest : List Text}
    (h : startAnalysis parseDouble io s = (.ok true, t)) (hlogs : s.logfilefiles = logs.map some)
    (hscripts : s.scriptfiles = (scriptfile :: rest).map some) :
    Written scriptfile s.disk
      (logs.flatMap fun logfile => List.replicate (scriptfile :: rest).length logfile)
      t.disk := by
  rw [startAnalysis] at h
  cases hparse : parseScripts s.disk s.scriptfiles with
  | error e => simp [hparse] at h
  | ok result =>
      cases result with
      | none => simp [hparse] at h
      | some parsed =>
          simp only [hparse, hlogs] at h
          rw [hscripts] at hparse
          have hlength := length_parseScripts hparse
          have hloop := loop_induction (P := fun done u =>
            Written scriptfile s.disk
              (done.reduceOption.flatMap fun logfile => List.replicate parsed.length logfile)
              u.disk ∧ Kept { s with scripts := parsed } u) ?_ ?_ h
          · rw [List.reduceOption, List.filterMap_map, hlength] at hloop
            simpa using hloop.1
          · intro done logfile after u u' hsplit hdone hbody
            obtain ⟨hwritten, hkept⟩ := hdone
            have hmem : logfile ∈ logs.map some := by
              rw [hsplit]
              exact List.mem_append_right _ List.mem_cons_self
            obtain ⟨path, _, rfl⟩ := List.mem_map.mp hmem
            have hfirst : u.scriptfiles[0]? = some (some scriptfile) := by
              rw [hkept.scriptfiles, hscripts]
              rfl
            obtain ⟨hnext, hkept'⟩ := written_runFile hbody hfirst hwritten
            rw [hkept.scripts] at hnext
            refine ⟨?_, hkept.trans hkept'⟩
            rw [List.reduceOption_append, List.reduceOption_singleton, List.flatMap_append]
            rw [Option.toList_some, List.flatMap_singleton]
            exact hnext
          · exact ⟨Written.nil scriptfile s.disk, rfl, rfl⟩

end Runs

/-! ### The names of the files -/

def pairs (logs scripts : List Text) : List (Text × Text) :=
  logs.flatMap fun logfile => scripts.map fun scriptfile => (logfile, scriptfile)

/-- A name made of the two names of the pair, with a suffix only if the plain name was taken
before the analysis or by an earlier pair with the same names. -/
def NamedAfter (disk : Disk) (earlier : List (Text × Text)) (pair : Text × Text)
    (path : Text) : Prop :=
  ∃ i, path = candidate (outputName pair.1 pair.2) i ∧
    (i ≠ 0 → disk.pathExists (outputName pair.1 pair.2) = true ∨
      ∃ other ∈ earlier, getName other.1 = getName pair.1 ∧ getName other.2 = getName pair.2)

/-- All that an analysis has changed are new files, one for each pair, named after it. -/
def Delivered (logs scripts : List Text) (before after : Disk) : Prop :=
  ∃ created, Disk.Created before after created ∧ created.length = (pairs logs scripts).length ∧
    ∀ k pair path, (pairs logs scripts)[k]? = some pair → created[k]? = some path →
      NamedAfter before ((pairs logs scripts).take k) pair path

theorem map_fst_pairs (logs scripts : List Text) :
    (pairs logs scripts).map Prod.fst =
      logs.flatMap fun logfile => List.replicate scripts.length logfile := by
  rw [pairs, List.map_flatMap]
  simp [Function.comp_def]

theorem mem_pairs {logs scripts : List Text} {pair : Text × Text} :
    pair ∈ pairs logs scripts ↔ pair.1 ∈ logs ∧ pair.2 ∈ scripts := by
  obtain ⟨logfile, scriptfile⟩ := pair
  simp [pairs]

theorem Written.delivered {scriptfile : Text} {before after : Disk} {logs scripts : List Text}
    (h : Written scriptfile before ((pairs logs scripts).map Prod.fst) after)
    (hscript : ∀ other ∈ scripts, getName other = getName scriptfile) :
    Delivered logs scripts before after := by
  obtain ⟨created, hcreated, hlength, hnames⟩ := h
  rw [List.length_map] at hlength
  have hname (pair : Text × Text) (hpair : pair ∈ pairs logs scripts) :
      outputName pair.1 pair.2 = outputName pair.1 scriptfile := by
    rw [outputName, outputName, hscript pair.2 (mem_pairs.mp hpair).2]
  refine ⟨created, hcreated, hlength, ?_⟩
  intro k pair path hpair hpath
  have hlog : ((pairs logs scripts).map Prod.fst)[k]? = some pair.1 := by
    rw [List.getElem?_map, hpair]
    rfl
  obtain ⟨i, hcandidate, htaken⟩ := hnames k pair.1 path hlog hpath
  have hmem : pair ∈ pairs logs scripts := List.mem_of_getElem? hpair
  refine ⟨i, ?_, fun hi => ?_⟩
  · rw [hcandidate, hname pair hmem]
  · rw [hname pair hmem]
    obtain hold | hearlier := htaken hi
    · exact .inl hold
    · right
      obtain ⟨j, hj⟩ := List.mem_iff_getElem?.mp hearlier
      rw [List.getElem?_take] at hj
      split at hj
      · next hlt =>
          have hbound : j < (pairs logs scripts).length := by
            rw [← hlength]
            exact (List.getElem?_eq_some_iff.mp hj).1
          have hother := List.getElem?_eq_getElem hbound
          have hotherLog : ((pairs logs scripts).map Prod.fst)[j]? =
              some (pairs logs scripts)[j].1 := by
            rw [List.getElem?_map, hother]
            rfl
          obtain ⟨i', hcandidate', _⟩ := hnames j _ _ hotherLog hj
          obtain ⟨_, hlogs⟩ := candidate_eq_outputName hcandidate'.symm
          have hotherMem : (pairs logs scripts)[j] ∈ pairs logs scripts := List.getElem_mem hbound
          refine ⟨(pairs logs scripts)[j], ?_, hlogs, ?_⟩
          · apply List.mem_iff_getElem?.mpr
            refine ⟨j, ?_⟩
            rw [List.getElem?_take, if_pos hlt, hother]
          · rw [hscript _ (mem_pairs.mp hotherMem).2, hscript _ (mem_pairs.mp hmem).2]
      · cases hj

end Controller

end UmnProjects.Loafr
