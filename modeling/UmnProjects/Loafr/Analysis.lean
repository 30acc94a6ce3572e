import UmnProjects.Loafr.Controller
import UmnProjects.Loafr.Failures

/-!
When an analysis returns and when it throws. Failures signalled by null end the analysis
with `false` in most places, but neither in the loop over the selected events nor in the
writer.
-/
namespace UmnProjects.Loafr

open Text Loops

namespace LogfileWriter

/-- The writer throws on an event without a data list, but not before it has the file open. -/
theorem returns_writeEvents_iff (writable : Text → Bool) (path : Text) (events : List Event)
    (disk : Disk) : Returns (writeEvents writable ⟨some path⟩ events disk) ↔
      (writable path = true → ∀ event ∈ events, event.dataItems.isSome = true) := by
  cases hwritable : writable path with
  | false =>
      have hreturns : Returns (writeEvents writable ⟨some path⟩ events disk) := by
        cases events with
        | nil => exact returns_ok true disk
        | cons event events =>
            simp only [writeEvents, loop, writeEntry, hwritable]
            exact returns_ok false disk
      simp [hreturns]
  | true =>
      simp only [true_implies]
      induction events generalizing disk with
      | nil =>
          have hreturns : Returns (writeEvents writable ⟨some path⟩ [] disk) := returns_ok true disk
          simp [hreturns]
      | cons event events ih =>
          rw [List.forall_mem_cons]
          cases hlist : event.dataItems with
          | none =>
              have hthrown :
                  ¬ Returns (writeEvents writable ⟨some path⟩ (event :: events) disk) := by
                simp only [writeEvents, loop, writeEntry, hwritable, row, hlist]
                exact not_returns_error
              simp [hthrown]
          | some dataItems =>
              have hgoes : writeEvents writable ⟨some path⟩ (event :: events) disk =
                  writeEvents writable ⟨some path⟩ events (disk.append path
                    (rowText event.time event.eventSource event.eventName dataItems ++
                      "\n".toList)) := by
                simp only [writeEvents, loop, writeEntry, hwritable, row, hlist, if_true]
              rw [hgoes, ih]
              simp

end LogfileWriter

namespace Controller

section Serving

variable {V : Type} [LinearOrder V] (parseDouble : Text → Option (Double V)) (io : Io)

def outputName (logfile scriptfile : Text) : Text :=
  outputPath ++ getName logfile ++ "_".toList ++ getName scriptfile

/-- What a script needs to be applied to the events: every operation fits, and what it selects
has data lists to be written. -/
def Served (events : List Event) (path : Text) (script : Script) : Prop :=
  Script.FitsAll parseDouble script.ops events ∧
    ∀ output, (script.alert parseDouble (some events)).1 = .ok (some output) →
      io.writable path = true → ∀ event ∈ output, event.dataItems.isSome = true

theorem returns_alertAndWrite_iff (l : Logfile) (k : Nat) (script : Script) {s : Controller}
    {path : Text} (hpath : s.logfileWriter = ⟨some path⟩) :
    Returns (alertAndWrite parseDouble io l k script s) ↔
      Served parseDouble io l.events path script := by
  have hfits : (∃ output, (script.alert parseDouble (some l.events)).1 = .ok (some output)) ↔
      Script.FitsAll parseDouble script.ops l.events := Script.applyAll_some_iff parseDouble _ _
  rw [Served, ← hfits, alertAndWrite]
  cases halert : (script.alert parseDouble (some l.events)).1 with
  | error e => simp [not_returns_error]
  | ok output =>
      cases output with
      | none => simp [not_returns_error]
      | some output =>
          simp only [writeOutput, hpath]
          have hwrite := LogfileWriter.returns_writeEvents_iff io.writable path output s.disk
          constructor
          · intro h
            refine ⟨⟨output, rfl⟩, fun output' houtput => ?_⟩
            cases houtput
            exact hwrite.mp h
          · intro h
            exact hwrite.mpr (h.2 output rfl)

/-- A file that cannot be created ends the analysis with `false`. -/
theorem returns_writeTo_iff (l : Logfile) (k : Nat) (script : Script) (name : Text)
    (s : Controller) : Returns (writeTo parseDouble io l k script name s) ↔
      (io.create (freeName s.disk name) = true →
        Served parseDouble io l.events (freeName s.disk name) script) := by
  have hfree := pathExists_freeName s.disk name
  rw [writeTo]
  generalize freeName s.disk name = path at hfree
  rw [Disk.createNewFile_of_free io hfree]
  cases hcreate : io.create path with
  | false =>
      simp [LogfileWriter.setCurrentFile, Disk.isFile_of_free hfree, returns_ok]
  | true =>
      simp only [if_true, LogfileWriter.setCurrentFile, Disk.isFile_new]
      rw [if_neg (by decide), true_implies]
      exact returns_alertAndWrite_iff parseDouble io l k script rfl

/-- What iteration `k` of the loop over the scripts needs. -/
def ScriptServed (l : Logfile) (logfile : Text) (scriptfile : Option Text) (k : Nat)
    (s : Controller) : Prop :=
  ∀ script, s.scripts[k]? = some script → ∃ scriptPath, scriptfile = some scriptPath ∧
    (io.create (freeName s.disk (outputName logfile scriptPath)) = true →
      Served parseDouble io l.events (freeName s.disk (outputName logfile scriptPath)) script)

theorem returns_runScript_iff (l : Logfile) (logfile : Text) (scriptfile : Option Text) (k : Nat)
    (s : Controller) : Returns (runScript parseDouble io l logfile scriptfile k s) ↔
      ScriptServed parseDouble io l logfile scriptfile k s := by
  rw [runScript, ScriptServed, lastPart_eq]
  cases s.scripts[k]? with
  | none => simp [returns_ok]
  | some script =>
      cases scriptfile with
      | none => simp [not_returns_error]
      | some scriptPath =>
          dsimp only
          rw [lastPart_eq]
          simp only [returns_writeTo_iff, outputName, Option.some.injEq, forall_eq',
            exists_eq_left']

/-- The controller with the log file set in its reader. -/
def opened (path : Text) (s : Controller) : Controller :=
  { s with
    logfileReader :=
      (LogfileReader.setCurrentFile (some (s.disk.file path)) s.logfileReader).2 }

/-- What the controller needs once it has read the log file `l`. -/
def ScriptsServed (l : Logfile) (logfile : Text) (s : Controller) : Prop :=
  ∃ scriptfile, s.scriptfiles[0]? = some scriptfile ∧
    ∀ started, makeDirectory io s = (true, started) → ∀ k reached, k < started.scripts.length →
      loop (runScript parseDouble io l logfile scriptfile) (List.range k) started =
        (.ok true, reached) → ScriptServed parseDouble io l logfile scriptfile k reached

/-- What the controller needs of a log file when its turn comes. -/
def LogfileServed (logfile : Option Text) (s : Controller) : Prop :=
  ∀ path, logfile = some path → s.disk.isFile path = true →
    s.configfile ≠ none ∧ ∀ l reader, getLogfile (s.opened path) = (.ok (some l), reader) →
      ScriptsServed parseDouble io l path reader

/-- The configuration file is the only one that is read without a null check. -/
theorem getLogfile_error_iff (s : Controller) :
    (∃ e, (getLogfile s).1 = .error e) ↔ s.configfile = none := by
  cases hconfig : s.configfile with
  | none => simp [getLogfile, ConfigFileReader.readConfigFile, hconfig]
  | some path =>
      cases hcontent : s.disk.content path with
      | none => simp [getLogfile, ConfigFileReader.readConfigFile, hconfig, hcontent]
      | some content =>
          cases hentries : (lines content).tail.mapM ConfigFileReader.parseEntry with
          | none =>
              simp [getLogfile, ConfigFileReader.readConfigFile, hconfig, hcontent, hentries]
          | some entries =>
              simp [getLogfile, ConfigFileReader.readConfigFile, hconfig, hcontent, hentries]

theorem returns_runScripts_iff (l : Logfile) (logfile : Text) (scriptfile : Option Text)
    (s : Controller) : Returns (runScripts parseDouble io l logfile scriptfile s) ↔
      ∀ k reached, k < s.scripts.length →
        loop (runScript parseDouble io l logfile scriptfile) (List.range k) s =
          (.ok true, reached) → ScriptServed parseDouble io l logfile scriptfile k reached := by
  rw [runScripts, returns_loop_range_iff]
  simp only [returns_runScript_iff]

theorem returns_runLogfile_iff (l : Logfile) (logfile : Text) (s : Controller) :
    Returns (runLogfile parseDouble io l logfile s) ↔
      ScriptsServed parseDouble io l logfile s := by
  rw [runLogfile, ScriptsServed]
  cases s.scriptfiles[0]? with
  | none => simp [not_returns_error]
  | some scriptfile =>
      cases hmake : makeDirectory io s with
      | mk made started =>
          cases made with
          | false => simp [returns_ok]
          | true => simp [returns_runScripts_iff]

theorem runFile_of_isFile {path : Text} {s : Controller} (h : s.disk.isFile path = true) :
    runFile parseDouble io (some path) s =
      match getLogfile (s.opened path) with
      | (.error e, s) => (.error e, s)
      | (.ok none, s) => (.ok false, s)
      | (.ok (some l), s) => runLogfile parseDouble io l path s := by
  have hset : LogfileReader.setCurrentFile (some (s.disk.file path)) s.logfileReader =
      (true, (s.opened path).logfileReader) := by
    simp [LogfileReader.setCurrentFile, Disk.file, opened, h]
  simp only [runFile, hset, if_true]
  rfl

theorem returns_runFile_iff (logfile : Option Text) (s : Controller) :
    Returns (runFile parseDouble io logfile s) ↔ LogfileServed parseDouble io logfile s := by
  cases logfile with
  | none => simp [runFile, LogfileServed, returns_ok]
  | some path =>
      cases hfile : s.disk.isFile path with
      | false =>
          simp [runFile, LogfileReader.setCurrentFile, Disk.file, LogfileServed, hfile, returns_ok]
      | true =>
          have hserved : LogfileServed parseDouble io (some path) s ↔
              (s.opened path).configfile ≠ none ∧
                ∀ l reader, getLogfile (s.opened path) = (.ok (some l), reader) →
                  ScriptsServed parseDouble io l path reader := by
            simp [LogfileServed, hfile, opened]
          rw [runFile_of_isFile parseDouble io hfile, hserved, Ne, ← getLogfile_error_iff]
          cases hget : getLogfile (s.opened path) with
          | mk result reader =>
              cases result with
              | error e => simp [not_returns_error]
              | ok l =>
                  cases l with
                  | none => simp [returns_ok]
                  | some l => simp [returns_runLogfile_iff]

/-! ### The whole analysis -/

/-- Every null script file stands behind one that cannot be parsed. -/
def ScriptFilesGiven (disk : Disk) (scriptfiles : List (Option Text)) : Prop :=
  ∀ before after, scriptfiles = before ++ none :: after →
    ∃ path, some path ∈ before ∧ parseFile disk path = none

theorem not_scriptFilesGiven_none (disk : Disk) (files : List (Option Text)) :
    ¬ ScriptFilesGiven disk (none :: files) := by
  intro h
  obtain ⟨path, hpath, _⟩ := h [] files rfl
  cases hpath

/-- Behind a file that cannot be parsed, whatever follows. -/
theorem scriptFilesGiven_of_unparsed {disk : Disk} {path : Text}
    (hparse : parseFile disk path = none) (files : List (Option Text)) :
    ScriptFilesGiven disk (some path :: files) := by
  intro before after hsplit
  cases before with
  | nil => cases hsplit
  | cons first before =>
      cases hsplit
      exact ⟨path, List.mem_cons_self, hparse⟩

theorem scriptFilesGiven_of_parsed {disk : Disk} {path : Text} {script : Script}
    (hparse : parseFile disk path = some script) (files : List (Option Text)) :
    ScriptFilesGiven disk (some path :: files) ↔ ScriptFilesGiven disk files := by
  constructor
  · intro h before after hsplit
    obtain ⟨failed, hmem, hfailed⟩ :=
      h (some path :: before) after (by rw [hsplit, List.cons_append])
    obtain heq | hmem := List.mem_cons.mp hmem
    · cases heq
      rw [hparse] at hfailed
      cases hfailed
    · exact ⟨failed, hmem, hfailed⟩
  · intro h before after hsplit
    cases before with
    | nil => cases hsplit
    | cons first before =>
        cases hsplit
        obtain ⟨failed, hmem, hfailed⟩ := h before after rfl
        exact ⟨failed, List.mem_cons_of_mem _ hmem, hfailed⟩

theorem parseScripts_ok_iff (disk : Disk) (scriptfiles : List (Option Text)) :
    (∃ scripts, parseScripts disk scriptfiles = .ok scripts) ↔
      ScriptFilesGiven disk scriptfiles := by
  induction scriptfiles with
  | nil => simp [parseScripts, ScriptFilesGiven]
  | cons file files ih =>
      cases file with
      | none => simp [parseScripts, not_scriptFilesGiven_none]
      | some path =>
          cases hparse : parseFile disk path with
          | none => simp [parseScripts, hparse, scriptFilesGiven_of_unparsed hparse files]
          | some script =>
              have hok : (∃ scripts, parseScripts disk (some path :: files) = .ok scripts) ↔
                  ∃ scripts, parseScripts disk files = .ok scripts := by
                rw [parseScripts, hparse]
                cases parseScripts disk files <;> simp [Except.map]
              rw [hok, ih, scriptFilesGiven_of_parsed hparse]

/-- What an analysis needs of its files: the script files are given, and each log file is
served when its turn comes. -/
def AnalysisServed (s : Controller) : Prop :=
  ScriptFilesGiven s.disk s.scriptfiles ∧
    ∀ scripts, parseScripts s.disk s.scriptfiles = .ok (some scripts) →
      ∀ before logfile after reached, s.logfilefiles = before ++ logfile :: after →
        loop (runFile parseDouble io) before { s with scripts } = (.ok true, reached) →
          LogfileServed parseDouble io logfile reached

/-- An analysis returns, and does not throw, exactly when it is served. -/
theorem startAnalysis_returns_iff (s : Controller) :
    Returns (startAnalysis parseDouble io s) ↔ AnalysisServed parseDouble io s := by
  rw [AnalysisServed, ← parseScripts_ok_iff, startAnalysis]
  cases hparse : parseScripts s.disk s.scriptfiles with
  | error e => simp [not_returns_error]
  | ok scripts =>
      cases scripts with
      | none => simp [returns_ok]
      | some scripts =>
          dsimp only
          rw [returns_loop_iff]
          simp only [returns_runFile_iff, Except.ok.injEq, Option.some.injEq, forall_eq',
            exists_eq', true_and]

end Serving

/-! ### A script that reports failure -/

/-- A file system in which every call succeeds. -/
def willingIo : Io := ⟨fun _ => true, fun _ => true, fun _ => true⟩

/-- The script of the one line `SEARCH` is parsed, but names nothing to search for. -/
def emptySearch : Controller where
  logfilefiles := [some "log.csv".toList]
  scriptfiles := [some "script.txt".toList]
  scripts := []
  configfile := some "config.csv".toList
  logfileReader := .new
  logfileWriter := .new
  disk := {
    files := [("log.csv".toList, "time,source,name\n0,sensor,on".toList),
      ("script.txt".toList, "SEARCH".toList), ("config.csv".toList, "item,type".toList)]
    directories := [] }

/-- The null of the search is not turned into `false`. -/
theorem startAnalysis_emptySearch :
    (Search.applyOp "SEARCH".toList (some [])).1 = none ∧
      (startAnalysis Script.parseDigits willingIo emptySearch).1 =
        .error .NullPointerException := by
  refine ⟨by decide, ?_⟩
  let log : Text := "log.csv".toList
  let parsed : Controller := { emptySearch with scripts := [⟨[some (.search "SEARCH".toList)]⟩] }
  have hread : LogfileReader.readAll ⟨[]⟩ (parsed.opened log).logfileReader =
      (some ⟨[⟨"0".toList, "sensor".toList, "on".toList, some []⟩]⟩,
        (parsed.opened log).logfileReader) := by
    have hopened : (parsed.opened log).logfileReader =
        ⟨some ⟨true, "time,source,name\n0,sensor,on".toList⟩, none⟩ := rfl
    rw [hopened, LogfileReader.readAll_eq]
    rfl
  have hget : getLogfile (parsed.opened log) =
      (.ok (some ⟨[⟨"0".toList, "sensor".toList, "on".toList, some []⟩]⟩), parsed.opened log) := by
    have hconfig : ConfigFileReader.readConfigFile (parsed.opened log).disk
        (parsed.opened log).configfile = .ok (some []) := rfl
    rw [getLogfile, hconfig]
    simp only [hread]
  have hstart : startAnalysis Script.parseDigits willingIo emptySearch =
      loop (runFile Script.parseDigits willingIo) [some log] parsed := rfl
  rw [hstart, loop, runFile_of_isFile _ _ rfl, hget]
  rfl

end Controller

end UmnProjects.Loafr
