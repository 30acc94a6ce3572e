import UmnProjects.Loafr.OutputFiles
import UmnProjects.Loafr.Searches

/-!
Which script files an analysis can be given so that every output file is named after its own
script. The runs that show it search for nothing in log files without events, on a disk where
all plain names are taken.
-/
namespace UmnProjects.Loafr

open Text Loops

/-! ### Searches that can be repeated -/

namespace Search

/-- A search that is still one after it has been applied so many times. -/
def repeated : Nat → Text
  | 0 => "x".toList
  | n + 1 => "SEARCH ".toList ++ repeated n

theorem mem_repeated {n : Nat} {c : Char} (h : c ∈ repeated n) : c ∈ "SEARCH x".toList := by
  have hword : ∀ c ∈ "SEARCH ".toList, c ∈ "SEARCH x".toList := by simp
  have hlast : ∀ c ∈ "x".toList, c ∈ "SEARCH x".toList := by simp
  induction n with
  | zero => exact hlast c h
  | succ n ih =>
      obtain hfirst | hrest := List.mem_append.mp h
      · exact hword c hfirst
      · exact ih hrest

theorem not_infix_repeated {word : Text} {c : Char} (hc : c ∈ word)
    (hother : c ∉ "SEARCH x".toList) (n : Nat) : ¬ word <:+: repeated n := by
  intro hinside
  exact hother (mem_repeated (hinside.subset hc))

theorem repeated_ne_nil (n : Nat) : repeated n ≠ [] := by
  have hword : "SEARCH ".toList ≠ [] := by decide
  have hlast : "x".toList ≠ [] := by decide
  cases n with
  | zero => exact hlast
  | succ n => exact List.append_ne_nil_of_left_ne_nil hword _

theorem not_hasContext_repeated (n : Nat) : ¬ HasContext (repeated n) := by
  intro h
  obtain ⟨word, hword, hinside⟩ := h
  have hchar : ∀ word ∈ contexts, ∃ c ∈ word, c ∉ "SEARCH x".toList := by simp [contexts]
  obtain ⟨c, hc, hother⟩ := hchar word hword
  exact not_infix_repeated hc hother n ((infix_spaced ' ' word).trans hinside)

theorem applyOp_nothing {op : Text} (hne : op ≠ []) (h : ¬ HasContext op)
    (hnot : ¬ "<>".toList <:+: op) :
    applyOp ("SEARCH ".toList ++ op) (some []) = (some [], op) := by
  have hcontext := mt (contains_context_iff op).mp h
  have hsearch : doSearch op [] = (some [], op) := by
    simp only [doSearch, contains_eq_false hnot, Bool.false_eq_true, if_false, List.filter_nil]
  rw [applyOp, if_pos (accepts_line hne), replaceFirst_append, List.nil_append]
  dsimp only
  rw [if_neg hcontext]
  exact hsearch

theorem applyOp_repeated (n : Nat) :
    applyOp (repeated (n + 1)) (some []) = (some [], repeated n) := by
  have hmem : '<' ∈ "<>".toList := by decide
  have hother : '<' ∉ "SEARCH x".toList := by decide
  exact applyOp_nothing (repeated_ne_nil n) (not_hasContext_repeated n)
    (not_infix_repeated hmem hother n)

end Search

/-- The script of this one search. -/
def searching (n : Nat) : Script := ⟨[some (.search (Search.repeated n))]⟩

/-- A file of this one line. -/
def searchFile (n : Nat) : Text := Search.repeated n ++ "\n".toList

theorem lines_searchFile (n : Nat) : lines (searchFile n) = [Search.repeated n] := by
  have hplain : ∀ c ∈ "SEARCH x".toList, c ≠ '\n' ∧ c ≠ '\r' := by simp
  exact lines_append_cons [] fun c hc => hplain c (Search.mem_repeated hc)

theorem parseScript_searchFile (n : Nat) :
    ScriptParser.parseScript (searchFile (n + 1)) = some (searching (n + 1)) := by
  have hstart : "SEARCH".toList <+: Search.repeated (n + 1) :=
    (List.prefix_append "SEARCH".toList " ".toList).trans
      (List.prefix_append "SEARCH ".toList (Search.repeated n))
  have hline : ScriptParser.parseLine (Search.repeated (n + 1)) =
      some (.search (Search.repeated (n + 1))) := by
    rw [ScriptParser.parseLine, contains_of_startsWith hstart, if_pos rfl]
  rw [ScriptParser.parseScript, lines_searchFile, List.foldlM_cons, hline]
  rfl

namespace Controller

section Runs

variable {V : Type} [LinearOrder V] (parseDouble : Text → Option (Double V))

theorem alert_searching (n : Nat) :
    (searching (n + 1)).alert parseDouble (some []) = (.ok (some []), searching n) := by
  have hsearch := Search.applyOp_repeated n
  rw [Script.alert, searching, Script.applyAll, Operation.applyOp, hsearch]
  rfl

/-- The log files hold nothing but their header, and one of them is the configuration file. -/
structure Ready (logs scripts : List Text) (n : Nat) (s : Controller) : Prop where
  logfiles : ∀ path ∈ logs, s.disk.content path = some (searchFile n)
  directory : directory ∈ s.disk.directories
  scriptfiles : s.scriptfiles = scripts.map some
  configfile : ∃ path ∈ logs, s.configfile = some path
  reader : s.logfileReader.reader = none

variable {logs scripts : List Text} {n : Nat} {s : Controller}

/-- What one iteration of the loop over the scripts changes. -/
theorem Ready.written (h : Ready logs scripts n s) (done : List Script) (file : Text × Text)
    (w : LogfileWriter) : Ready logs scripts n
      { s with
        scripts := done
        logfileWriter := w
        disk := { s.disk with files := s.disk.files ++ [file] } } where
  logfiles := by
    intro path hpath
    have hcontent := h.logfiles path hpath
    rw [Disk.content] at hcontent ⊢
    rw [List.lookup_append, hcontent]
    rfl
  directory := h.directory
  scriptfiles := h.scriptfiles
  configfile := h.configfile
  reader := h.reader

theorem writeTo_searching (h : Ready logs scripts n s) (k m : Nat) (name : Text) :
    ∃ t, writeTo parseDouble willingIo ⟨[]⟩ k (searching (m + 1)) name s = (.ok true, t) ∧
      t.scripts = s.scripts.set k (searching m) ∧ Ready logs scripts n t := by
  have hfree := pathExists_freeName s.disk name
  have hcreated := Disk.createNewFile_of_free willingIo hfree
  have halert := alert_searching parseDouble m
  rw [writeTo, hcreated]
  simp only [willingIo, if_true, LogfileWriter.setCurrentFile, Disk.isFile_new]
  rw [if_neg (by decide), alertAndWrite]
  simp only [halert]
  exact ⟨_, rfl, rfl, h.written _ _ _⟩

theorem runScripts_searching (h : Ready logs scripts n s) (m : Nat) (logfile scriptfile : Text)
    (hscripts : s.scripts = List.replicate scripts.length (searching (m + 1))) :
    ∃ t, runScripts parseDouble willingIo ⟨[]⟩ logfile (some scriptfile) s = (.ok true, t) ∧
      t.scripts = List.replicate scripts.length (searching m) ∧ Ready logs scripts n t := by
  rw [runScripts]
  have hloop := loop_eq_true (runScript parseDouble willingIo ⟨[]⟩ logfile (some scriptfile))
    (List.range s.scripts.length) s
    (P := fun done u => u.scripts = List.replicate done.length (searching m) ++
      List.replicate (scripts.length - done.length) (searching (m + 1)) ∧
        Ready logs scripts n u) ?_ ?_
  · rw [hscripts, List.length_range, List.length_replicate, Nat.sub_self, List.replicate_zero,
      List.append_nil] at hloop
    rw [hscripts, List.length_replicate]
    exact hloop
  · intro done k rest u hsplit hdone
    obtain ⟨hdone, hready⟩ := hdone
    obtain ⟨hlength, hk⟩ := length_of_range_eq hsplit
    rw [hscripts, List.length_replicate] at hk
    have hrest : scripts.length - k = scripts.length - (k + 1) + 1 := by omega
    rw [hlength, hrest, List.replicate_succ] at hdone
    have hget : u.scripts[k]? = some (searching (m + 1)) := by simp [hdone]
    have hset : u.scripts.set k (searching m) = List.replicate (k + 1) (searching m) ++
        List.replicate (scripts.length - (k + 1)) (searching (m + 1)) := by
      rw [hdone, List.set_append_right _ _ (by simp), List.replicate_succ']
      simp
    rw [runScript, lastPart_eq, hget]
    simp only [lastPart_eq]
    obtain ⟨t, hwrite, hnext, hready'⟩ := writeTo_searching parseDouble hready k m
      (outputPath ++ getName logfile ++ "_".toList ++ getName scriptfile)
    refine ⟨t, hwrite, ?_, hready'⟩
    rw [hnext, hset, List.length_append, hlength]
    rfl
  · rw [List.length_nil, List.replicate_zero, List.nil_append, Nat.sub_zero]
    exact ⟨hscripts, h⟩

theorem getLogfile_searching (h : Ready logs scripts n s) {path : Text} (hpath : path ∈ logs) :
    ∃ t, getLogfile (s.opened path) = (.ok (some ⟨[]⟩), t) ∧ t.scripts = s.scripts ∧
      Ready logs scripts n t := by
  obtain ⟨config, hconfig, hconfigfile⟩ := h.configfile
  have hread : LogfileReader.readAll ⟨[]⟩ (s.opened path).logfileReader =
      (some ⟨[]⟩, ⟨some (s.disk.file path), none⟩) := by
    have hcontent : (s.disk.file path).content = searchFile n := by
      rw [Disk.file, h.logfiles path hpath]
      rfl
    have hopened : (s.opened path).logfileReader = ⟨some (s.disk.file path), none⟩ := by
      have hfile : s.disk.isFile path = true := by
        rw [Disk.isFile, h.logfiles path hpath]
        rfl
      simp [opened, LogfileReader.setCurrentFile, Disk.file, hfile, h.reader]
    rw [hopened, LogfileReader.readAll_eq, hcontent, Option.getD_none, lines_searchFile]
    rfl
  have hconfigRead : ConfigFileReader.readConfigFile (s.opened path).disk
      (s.opened path).configfile = .ok (some []) := by
    simp only [opened, hconfigfile, ConfigFileReader.readConfigFile, h.logfiles config hconfig,
      lines_searchFile]
    rfl
  rw [getLogfile, hconfigRead]
  simp only [hread]
  refine ⟨_, rfl, rfl, ?_⟩
  exact ⟨h.logfiles, h.directory, h.scriptfiles, h.configfile, rfl⟩

theorem runFile_searching (h : Ready logs scripts n s) (m : Nat) {path : Text}
    (hpath : path ∈ logs) (hne : scripts ≠ [])
    (hscripts : s.scripts = List.replicate scripts.length (searching (m + 1))) :
    ∃ t, runFile parseDouble willingIo (some path) s = (.ok true, t) ∧
      t.scripts = List.replicate scripts.length (searching m) ∧ Ready logs scripts n t := by
  have hfile : s.disk.isFile path = true := by
    rw [Disk.isFile, h.logfiles path hpath]
    rfl
  obtain ⟨u, hget, hkept, hready⟩ := getLogfile_searching h hpath
  have hmake : makeDirectory willingIo u = (true, u) := by
    have hexists := (u.disk.pathExists_iff directory).mpr
      (List.mem_append_right _ hready.directory)
    rw [makeDirectory, if_pos hexists]
  obtain ⟨scriptfile, hfirst⟩ : ∃ scriptfile, u.scriptfiles[0]? = some (some scriptfile) := by
    rw [hready.scriptfiles]
    cases hcases : scripts with
    | nil => exact absurd hcases hne
    | cons scriptfile rest => exact ⟨scriptfile, rfl⟩
  rw [runFile_of_isFile _ _ hfile, hget]
  simp only [runLogfile, hfirst, hmake]
  exact runScripts_searching parseDouble hready m path scriptfile (hkept.trans hscripts)

theorem parseScripts_searching {disk : Disk}
    (h : ∀ path ∈ scripts, disk.content path = some (searchFile (n + 1))) :
    parseScripts disk (scripts.map some) =
      .ok (some (List.replicate scripts.length (searching (n + 1)))) := by
  induction scripts with
  | nil => rfl
  | cons path scripts ih =>
      obtain ⟨hpath, hrest⟩ := List.forall_mem_cons.mp h
      have hfile : parseFile disk path = some (searching (n + 1)) := by
        rw [parseFile, hpath]
        exact parseScript_searchFile n
      rw [List.map_cons, parseScripts, hfile, ih hrest]
      rfl

theorem startAnalysis_searching (h : Ready logs scripts logs.length s) (hne : scripts ≠ [])
    (hlogs : s.logfilefiles = logs.map some)
    (hscripts : ∀ path ∈ scripts, s.disk.content path = some (searchFile logs.length)) :
    ∃ t, startAnalysis parseDouble willingIo s = (.ok true, t) := by
  obtain ⟨config, hconfig, _⟩ := h.configfile
  have hlength : logs.length = logs.length - 1 + 1 := by
    have hpos := List.length_pos_of_mem hconfig
    omega
  have hparse := parseScripts_searching (n := logs.length - 1) (by rwa [← hlength])
  rw [← hlength, ← h.scriptfiles] at hparse
  have hloop := loop_eq_true (runFile parseDouble willingIo) (logs.map some)
    { s with scripts := List.replicate scripts.length (searching logs.length) }
    (P := fun done u =>
      u.scripts = List.replicate scripts.length (searching (logs.length - done.length)) ∧
        Ready logs scripts logs.length u) ?_ ?_
  · obtain ⟨t, hrun, _⟩ := hloop
    refine ⟨t, ?_⟩
    rw [startAnalysis, hparse]
    simp only [hlogs]
    rw [hlogs] at hrun
    exact hrun
  · intro done logfile rest u hsplit hdone
    obtain ⟨hdone, hready⟩ := hdone
    have hmem : logfile ∈ logs.map some := by
      rw [hsplit]
      exact List.mem_append_right _ List.mem_cons_self
    obtain ⟨path, hpath, rfl⟩ := List.mem_map.mp hmem
    have hcount := congrArg List.length hsplit
    rw [List.length_map, List.length_append, List.length_cons] at hcount
    have hrest : logs.length - done.length = logs.length - (done.length + 1) + 1 := by omega
    rw [hrest] at hdone
    rw [List.length_append, List.length_singleton]
    exact runFile_searching parseDouble hready _ hpath hne hdone
  · exact ⟨rfl, h.logfiles, h.directory, h.scriptfiles, h.configfile, h.reader⟩

end Runs

/-! ### Taken names -/

/-- The files of the analysis, and the plain names of all its pairs. -/
def takenDisk (logs scripts : List Text) : Disk where
  files := (logs ++ scripts).map (fun path => (path, searchFile logs.length)) ++
    (pairs logs scripts).map fun pair => (outputName pair.1 pair.2, [])
  directories := [directory]

def takenNames (logs scripts : List Text) : Controller where
  logfilefiles := logs.map some
  scriptfiles := scripts.map some
  scripts := []
  configfile := logs.head?
  logfileReader := .new
  logfileWriter := .new
  disk := takenDisk logs scripts

theorem content_takenDisk {logs scripts : List Text} {path : Text} (h : path ∈ logs ++ scripts) :
    (takenDisk logs scripts).content path = some (searchFile logs.length) := by
  rw [Disk.content, takenDisk, List.lookup_append]
  generalize logs ++ scripts = paths at h
  induction paths with
  | nil => cases h
  | cons first paths ih =>
      rw [List.map_cons, List.lookup_cons]
      by_cases hfirst : path = first
      · rw [hfirst, beq_self_eq_true]
        rfl
      · rw [beq_eq_false_iff_ne.mpr hfirst]
        exact ih (List.mem_of_ne_of_mem hfirst h)

theorem pathExists_takenDisk {logs scripts : List Text} {pair : Text × Text}
    (h : pair ∈ pairs logs scripts) :
    (takenDisk logs scripts).pathExists (outputName pair.1 pair.2) = true := by
  rw [Disk.pathExists_iff]
  apply List.mem_append_left
  rw [takenDisk, List.map_append, List.map_map, List.map_map]
  exact List.mem_append_right _ (List.mem_map.mpr ⟨pair, h, rfl⟩)

theorem ready_takenNames {logs : List Text} (hne : logs ≠ []) (scripts : List Text) :
    Ready logs scripts logs.length (takenNames logs scripts) where
  logfiles := fun path hpath => content_takenDisk (List.mem_append_left _ hpath)
  directory := List.mem_singleton_self _
  scriptfiles := rfl
  configfile := by
    cases logs with
    | nil => exact absurd rfl hne
    | cons path logs => exact ⟨path, List.mem_cons_self, rfl⟩
  reader := rfl

/-- Where the plain names are taken, files named after the first script file are named after
their own script only if the names are the same. -/
theorem same_names_of_delivered {before after : Disk} {logs scripts : List Text}
    {scriptfile : Text} (hscript : scriptfile ∈ scripts)
    (htaken : ∀ pair ∈ pairs logs scripts,
      before.pathExists (outputName pair.1 pair.2) = true)
    (hwritten : Written scriptfile before ((pairs logs scripts).map Prod.fst) after)
    (hdelivered : Delivered logs scripts before after) (hne : logs ≠ []) :
    ∀ other ∈ scripts, getName other = getName scriptfile := by
  intro other hother
  obtain ⟨created, hcreated, hlength, hnames⟩ := hwritten
  obtain ⟨created', hcreated', _, hnames'⟩ := hdelivered
  have hsame : created = created' :=
    List.append_cancel_left (hcreated.files.symm.trans hcreated'.files)
  obtain ⟨logfile, hlogfile⟩ := List.exists_mem_of_ne_nil logs hne
  have hpair : (logfile, other) ∈ pairs logs scripts := mem_pairs.mpr ⟨hlogfile, hother⟩
  obtain ⟨k, hk⟩ := List.mem_iff_getElem?.mp hpair
  have hlog : ((pairs logs scripts).map Prod.fst)[k]? = some logfile := by
    rw [List.getElem?_map, hk]
    rfl
  obtain ⟨path, hpath⟩ : ∃ path, created[k]? = some path := by
    have hbound := (List.getElem?_eq_some_iff.mp hlog).1
    rw [← hlength] at hbound
    exact ⟨created[k], List.getElem?_eq_getElem hbound⟩
  have hfree := hcreated.fresh path (List.mem_of_getElem? hpath)
  obtain ⟨i, hi, _⟩ := hnames k logfile path hlog hpath
  rw [hsame] at hpath
  obtain ⟨j, hj, _⟩ := hnames' k _ path hk hpath
  -- Both plain names are taken, so that the new file has a suffix either way.
  have hsuffix (scriptfile : Text) (hscript : scriptfile ∈ scripts) (i : Nat)
      (hpath : path = candidate (outputName logfile scriptfile) i) : ∃ i', i = i' + 1 := by
    cases i with
    | zero =>
        have hexists := htaken (logfile, scriptfile) (mem_pairs.mpr ⟨hlogfile, hscript⟩)
        rw [hpath, candidate, hexists] at hfree
        cases hfree
    | succ i => exact ⟨i, rfl⟩
  obtain ⟨i', rfl⟩ := hsuffix scriptfile hscript i hi
  obtain ⟨j', rfl⟩ := hsuffix other hother j hj
  exact outputName_right_injective (candidate_succ_injective (hj.symm.trans hi))

section Empty

variable {V : Type} [LinearOrder V] {parseDouble : Text → Option (Double V)} {io : Io}
  {logs scripts : List Text} {s after : Controller}

theorem delivered_of_no_logs (hlogs : s.logfilefiles = [])
    (h : startAnalysis parseDouble io s = (.ok true, after)) :
    Delivered [] scripts s.disk after.disk := by
  rw [startAnalysis, hlogs] at h
  split at h
  · cases h
  · cases h
  · cases h
    exact ⟨[], .refl _, rfl, fun _ _ _ hpair => by cases hpair⟩

/-- The first script file is asked for in any case. -/
theorem runFile_of_no_scripts (hscripts : s.scriptfiles = []) (path : Text) :
    runFile parseDouble io (some path) s ≠ (.ok true, after) := by
  intro h
  cases hfile : s.disk.isFile path with
  | false => simp [runFile, LogfileReader.setCurrentFile, Disk.file, hfile] at h
  | true =>
      rw [runFile_of_isFile _ _ hfile] at h
      obtain ⟨reader, hreader⟩ := getLogfile_snd (s.opened path)
      have hfirst : (getLogfile (s.opened path)).2.scriptfiles = [] := by
        rw [hreader]
        exact hscripts
      cases hget : getLogfile (s.opened path) with
      | mk result u =>
          rw [hget] at h hfirst
          cases result with
          | error e => cases h
          | ok l =>
              cases l with
              | none => cases h
              | some l =>
                  have hnone : u.scriptfiles[0]? = none := by rw [hfirst, List.getElem?_nil]
                  simp only [runLogfile, hnone] at h
                  cases h

theorem not_startAnalysis_of_no_scripts (hne : logs ≠ [])
    (hlogs : s.logfilefiles = logs.map some) (hscripts : s.scriptfiles = []) :
    startAnalysis parseDouble io s ≠ (.ok true, after) := by
  intro h
  cases logs with
  | nil => exact hne rfl
  | cons path logs =>
      rw [startAnalysis, hlogs, hscripts] at h
      obtain ⟨u, hbody, _⟩ := body_of_loop_cons h
      exact runFile_of_no_scripts (s := { s with
        logfilefiles := (path :: logs).map some
        scriptfiles := []
        scripts := [] }) rfl path hbody

end Empty

/-- Every successful analysis of these files delivers one output file for each log file and
script, named after them, whatever else there is on the disk, exactly when there is no log file
or all script files have the same name. -/
theorem startAnalysis_delivers_iff {V : Type} [LinearOrder V]
    (parseDouble : Text → Option (Double V)) (logs scripts : List Text) :
    (∀ io s after, s.logfilefiles = logs.map some → s.scriptfiles = scripts.map some →
      startAnalysis parseDouble io s = (.ok true, after) →
        Delivered logs scripts s.disk after.disk) ↔
      logs = [] ∨ ∀ first ∈ scripts, ∀ other ∈ scripts, getName first = getName other := by
  constructor
  · intro h
    by_cases hlogs : logs = []
    · exact .inl hlogs
    · right
      intro first hfirst other hother
      have hready := ready_takenNames hlogs scripts
      obtain ⟨after, hafter⟩ := startAnalysis_searching parseDouble hready
        (List.ne_nil_of_mem hfirst) rfl
        fun path hpath => content_takenDisk (List.mem_append_right _ hpath)
      have hdelivered := h willingIo (takenNames logs scripts) after rfl rfl hafter
      cases scripts with
      | nil => cases hfirst
      | cons scriptfile rest =>
          have hwritten := written_startAnalysis hafter rfl rfl
          rw [← map_fst_pairs] at hwritten
          have hsame := same_names_of_delivered List.mem_cons_self
            (fun pair hpair => pathExists_takenDisk hpair) hwritten hdelivered hlogs
          rw [hsame first hfirst, hsame other hother]
  · intro h io s after hlogs hscripts hafter
    by_cases hempty : logs = []
    · rw [hempty] at hlogs ⊢
      exact delivered_of_no_logs hlogs hafter
    · have hsame := h.resolve_left hempty
      cases scripts with
      | nil => exact absurd hafter (not_startAnalysis_of_no_scripts hempty hlogs hscripts)
      | cons scriptfile rest =>
          have hwritten := written_startAnalysis hafter hlogs hscripts
          rw [← map_fst_pairs] at hwritten
          exact hwritten.delivered fun other hother =>
            hsame other hother scriptfile List.mem_cons_self

def oneLog : List Text := ["log.csv".toList]

def twoScripts : List Text := ["a.txt".toList, "b.txt".toList]

/-- An analysis whose plain names are taken: both of its new files are named after the first
script. -/
theorem startAnalysis_twoScripts :
    (startAnalysis Script.parseDigits willingIo (takenNames oneLog twoScripts)).1 = .ok true ∧
      ¬ Delivered oneLog twoScripts (takenNames oneLog twoScripts).disk
        (startAnalysis Script.parseDigits willingIo (takenNames oneLog twoScripts)).2.disk := by
  have hne : oneLog ≠ [] := List.cons_ne_nil _ _
  obtain ⟨after, hafter⟩ := startAnalysis_searching Script.parseDigits
    (ready_takenNames hne twoScripts) (List.cons_ne_nil _ _) rfl
    fun path hpath => content_takenDisk (List.mem_append_right _ hpath)
  rw [hafter]
  refine ⟨rfl, fun hdelivered => ?_⟩
  have hwritten : Written "a.txt".toList (takenNames oneLog twoScripts).disk
      (oneLog.flatMap fun logfile => List.replicate twoScripts.length logfile) after.disk :=
    written_startAnalysis hafter rfl rfl
  rw [← map_fst_pairs] at hwritten
  have hsame := same_names_of_delivered List.mem_cons_self
    (fun pair hpair => pathExists_takenDisk hpair) hwritten hdelivered hne
  have hnames := hsame "b.txt".toList (List.mem_cons_of_mem _ List.mem_cons_self)
  exact absurd hnames (by decide)

end Controller

end UmnProjects.Loafr
