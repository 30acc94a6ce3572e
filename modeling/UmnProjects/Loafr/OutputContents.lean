import UmnProjects.Loafr.OutputFiles
import UmnProjects.Loafr.RoundTrip

/-!
What an analysis writes: one file for each log file and script, with the rows of the events that
the script object selects. The reader and the script objects are used for one log file after the
other, as they were left by the one before.
-/
namespace UmnProjects.Loafr

open Text Loops Objects

/-! ### The last file of a disk -/

theorem Disk.append_last {files : List (Text × Text)} {directories : List Text} {path old : Text}
    (hpath : path ∉ files.map Prod.fst) (text : Text) :
    Disk.append ⟨files ++ [(path, old)], directories⟩ path text =
      ⟨files ++ [(path, old ++ text)], directories⟩ := by
  have hold : files.map (fun file => if file.1 = path then (path, file.2 ++ text) else file) =
      files.map id := by
    apply List.map_congr_left
    intro file hfile
    rw [if_neg, id]
    intro heq
    exact hpath (heq ▸ List.mem_map_of_mem hfile)
  rw [List.map_id] at hold
  simp [append, hold]

theorem Disk.file_append {disk : Disk} {path : Text} (h : disk.isFile path = true)
    (files : List (Text × Text)) (directories : List Text) :
    Disk.isFile ⟨disk.files ++ files, directories⟩ path = true ∧
      Disk.file ⟨disk.files ++ files, directories⟩ path = disk.file path := by
  have hcontent : Disk.content ⟨disk.files ++ files, directories⟩ path = disk.content path := by
    obtain ⟨text, htext⟩ := Option.isSome_iff_exists.mp h
    rw [content] at htext
    rw [content, content, List.lookup_append, htext]
    rfl
  refine ⟨?_, ?_⟩
  · rw [isFile, hcontent]
    exact h
  · rw [file, file, isFile, isFile, hcontent]

namespace LogfileWriter

/-- A loop over events that ends well has written a row for each of them. -/
theorem writeEvents_last {writable : Text → Bool} {path old : Text} {files : List (Text × Text)}
    {directories : List Text} {events : List Event} {disk : Disk}
    (hpath : path ∉ files.map Prod.fst)
    (h : writeEvents writable ⟨some path⟩ events ⟨files ++ [(path, old)], directories⟩ =
      (.ok true, disk)) :
    disk = ⟨files ++ [(path, old ++ rows events)], directories⟩ ∧
      ∀ event ∈ events, event.dataItems.isSome = true := by
  induction events generalizing old with
  | nil =>
      cases h
      simp [rows]
  | cons event events ih =>
      obtain ⟨middle, hentry, hrest⟩ := body_of_loop_cons h
      simp only [writeEntry, row] at hentry
      split at hentry
      · cases hitems : event.dataItems with
        | none => simp [hitems] at hentry
        | some dataItems =>
            have hrow : rowOf event =
                rowText event.time event.eventSource event.eventName dataItems := by
              rw [rowOf, hitems]
              rfl
            simp only [hitems, Disk.append_last hpath, Prod.mk.injEq, true_and] at hentry
            rw [← hentry] at hrest
            obtain ⟨hdisk, hall⟩ := ih hrest
            refine ⟨?_, List.forall_mem_cons.mpr ⟨by rw [hitems]; rfl, hall⟩⟩
            rw [hdisk, rows_cons, hrow]
            simp
      · cases hentry

end LogfileWriter

/-! ### What the scripts select -/

section Selections

variable {V : Type} [LinearOrder V] (parseDouble : Text → Option (Double V))

/-- What the scripts give for the events of one log file after the other. -/
def selections : List Script → List (List Event) →
    List (List (Except Thrown (Option (List Event))))
  | _, [] => []
  | scripts, events :: rest =>
      scripts.map (fun script => (script.alertOn parseDouble events).1) ::
        selections (scripts.map fun script => (script.alertOn parseDouble events).2) rest

/-- The reader set to a file and asked for all of it. -/
def readFile (r : LogfileReader) (file : File) : Option Logfile × LogfileReader :=
  LogfileReader.readAll ⟨[]⟩ (LogfileReader.setCurrentFile (some file) r).2

end Selections

namespace Controller

section Runs

variable {V : Type} [LinearOrder V] {parseDouble : Text → Option (Double V)} {io : Io}
  {s t : Controller} {l : Logfile} {logfile scriptfile : Text}

/-- The file that an iteration creates is written as a whole. -/
theorem runScript_ok {k : Nat} {script : Script} (hscript : s.scripts[k]? = some script)
    (h : runScript parseDouble io l logfile (some scriptfile) k s = (.ok true, t)) :
    ∃ path found, (script.alertOn parseDouble l.events).1 = .ok (some found) ∧
      (∀ event ∈ found, event.dataItems.isSome = true) ∧
      t = { s with
        scripts := s.scripts.set k (script.alertOn parseDouble l.events).2
        logfileWriter := ⟨some path⟩
        disk := { s.disk with files := s.disk.files ++ [(path, rows found)] } } := by
  rw [runScript, lastPart_eq, hscript] at h
  simp only [lastPart_eq, writeTo] at h
  have hfree := pathExists_freeName s.disk
    (outputPath ++ getName logfile ++ "_".toList ++ getName scriptfile)
  generalize freeName s.disk _ = path at h hfree
  rw [Disk.createNewFile_of_free io hfree] at h
  cases hcreate : io.create path with
  | false => simp [hcreate, LogfileWriter.setCurrentFile, Disk.isFile_of_free hfree] at h
  | true =>
      simp only [hcreate, if_true, LogfileWriter.setCurrentFile, Disk.isFile_new] at h
      rw [if_neg (by decide), alertAndWrite] at h
      cases halert : script.alert parseDouble (some l.events) with
      | mk answer left =>
          rw [halert] at h
          cases answer with
          | error e => cases h
          | ok output =>
              cases output with
              | none => cases h
              | some found =>
                  have hpath : path ∉ s.disk.files.map Prod.fst := by
                    intro hmem
                    have htaken := (s.disk.pathExists_iff path).mpr (List.mem_append_left _ hmem)
                    rw [hfree] at htaken
                    cases htaken
                  simp only [writeOutput, Prod.mk.injEq] at h
                  generalize hwrite : LogfileWriter.writeEvents _ _ _ _ = written at h
                  obtain ⟨answer, disk⟩ := written
                  obtain ⟨rfl, rfl⟩ := h
                  obtain ⟨rfl, hitems⟩ := LogfileWriter.writeEvents_last hpath hwrite
                  refine ⟨path, found, ?_, hitems, ?_⟩
                  · rw [Script.alertOn, halert]
                  · rw [Script.alertOn, halert]
                    rfl

/-- The files added since, with the events whose rows they hold. -/
def Wrote (s t : Controller) (found : List (List Event)) : Prop :=
  (∃ files, t.disk.files = s.disk.files ++ files ∧ files.map Prod.snd = found.map rows) ∧
    ∀ events ∈ found, ∀ event ∈ events, event.dataItems.isSome = true

theorem Wrote.refl (s : Controller) : Wrote s s [] :=
  ⟨⟨[], (List.append_nil _).symm, rfl⟩, fun _ h => absurd h List.not_mem_nil⟩

theorem Wrote.trans {u : Controller} {found found' : List (List Event)} (h : Wrote s t found)
    (h' : Wrote t u found') : Wrote s u (found ++ found') := by
  obtain ⟨⟨files, hfiles, hrows⟩, hitems⟩ := h
  obtain ⟨⟨files', hfiles', hrows'⟩, hitems'⟩ := h'
  refine ⟨⟨files ++ files', ?_, ?_⟩, List.forall_mem_append.mpr ⟨hitems, hitems'⟩⟩
  · rw [hfiles', hfiles, List.append_assoc]
  · rw [List.map_append, List.map_append, hrows, hrows']

/-- What the iterations over the scripts leave alone. -/
def Settled (s t : Controller) : Prop :=
  t.logfilefiles = s.logfilefiles ∧ t.scriptfiles = s.scriptfiles ∧ t.configfile = s.configfile ∧
    t.logfileReader = s.logfileReader

theorem runScripts_ok (h : runScripts parseDouble io l logfile (some scriptfile) s =
      (.ok true, t)) :
    ∃ found, s.scripts.map (fun script => (script.alertOn parseDouble l.events).1) =
        found.map (fun events => .ok (some events)) ∧
      t.scripts = s.scripts.map (fun script => (script.alertOn parseDouble l.events).2) ∧
      Wrote s t found ∧ Settled s t := by
  rw [runScripts] at h
  have hloop := loop_induction (P := fun done u => ∃ found,
    (s.scripts.take done.length).map (fun script => (script.alertOn parseDouble l.events).1) =
        found.map (fun events => .ok (some events)) ∧
      u.scripts = (s.scripts.take done.length).map
          (fun script => (script.alertOn parseDouble l.events).2) ++
        s.scripts.drop done.length ∧
      Wrote s u found ∧ Settled s u) ?_ ?_ h
  · rw [List.length_range, List.take_length, List.drop_length, List.append_nil] at hloop
    exact hloop
  · intro done k rest u u' hsplit hdone hbody
    obtain ⟨found, hanswers, hscripts, hwrote, hsettled⟩ := hdone
    obtain ⟨hk, hlt⟩ := length_of_range_eq hsplit
    subst hk
    have hget : u.scripts[done.length]? = some s.scripts[done.length] := by
      rw [hscripts, List.getElem?_append_right (by simp)]
      simp [hlt.le]
    obtain ⟨path, events, halert, hitems, rfl⟩ := runScript_ok hget hbody
    refine ⟨found ++ [events], ?_, ?_, ?_, hsettled⟩
    · rw [List.length_append, List.length_singleton, List.take_succ_eq_append_getElem hlt,
        List.map_append, List.map_append, hanswers, List.map_singleton, List.map_singleton, halert]
    · have hlength : ((s.scripts.take done.length).map
          fun script => (script.alertOn parseDouble l.events).2).length = done.length := by
        simp [hlt.le]
      rw [List.length_append, List.length_singleton, hscripts,
        List.set_append_right _ _ (Nat.le_of_eq hlength), hlength, Nat.sub_self,
        List.drop_eq_getElem_cons hlt, List.take_succ_eq_append_getElem hlt, List.map_append,
        List.append_assoc]
      rfl
    · refine hwrote.trans ⟨⟨[(path, rows events)], rfl, rfl⟩, ?_⟩
      intro events' hevents'
      rw [List.mem_singleton.mp hevents']
      exact hitems
  · exact ⟨[], rfl, rfl, .refl s, rfl, rfl, rfl, rfl⟩

theorem makeDirectory_ok (h : makeDirectory io s = (true, t)) :
    ∃ directories, t = { s with disk := ⟨s.disk.files, directories⟩ } := by
  rw [makeDirectory] at h
  split at h
  · cases h
    exact ⟨s.disk.directories, rfl⟩
  · cases hmkdir : io.mkdir directory with
    | false => simp [Disk.mkdir, hmkdir] at h
    | true =>
        simp only [Disk.mkdir, hmkdir, if_true, Prod.mk.injEq, true_and] at h
        exact ⟨_, h.symm⟩

/-- One log file: what the reader makes of it, and what each script object of that. -/
theorem runFile_ok (hscript : ∀ f ∈ s.scriptfiles, f.isSome = true)
    (hfile : s.disk.isFile logfile = true)
    (h : runFile parseDouble io (some logfile) s = (.ok true, t)) :
    ∃ events found, (readFile s.logfileReader (s.disk.file logfile)).1 = some ⟨events⟩ ∧
      t.logfileReader = (readFile s.logfileReader (s.disk.file logfile)).2 ∧
      s.scripts.map (fun script => (script.alertOn parseDouble events).1) =
        found.map (fun events => .ok (some events)) ∧
      t.scripts = s.scripts.map (fun script => (script.alertOn parseDouble events).2) ∧
      t.scriptfiles = s.scriptfiles ∧ Wrote s t found := by
  rw [runFile_of_isFile _ _ hfile] at h
  change ∃ events found,
    (LogfileReader.readAll ⟨[]⟩ (s.opened logfile).logfileReader).1 = some ⟨events⟩ ∧
      t.logfileReader = (LogfileReader.readAll ⟨[]⟩ (s.opened logfile).logfileReader).2 ∧ _
  cases hconfig : ConfigFileReader.readConfigFile (s.opened logfile).disk
      (s.opened logfile).configfile with
  | error e => simp [getLogfile, hconfig] at h
  | ok config =>
      cases config with
      | none => simp [getLogfile, hconfig] at h
      | some config =>
          simp only [getLogfile, hconfig] at h
          cases hread : LogfileReader.readAll ⟨[]⟩ (s.opened logfile).logfileReader with
          | mk answer reader =>
              rw [hread] at h
              cases answer with
              | none => cases h
              | some l =>
                  cases hfirst : s.scriptfiles[0]? with
                  | none => simp [runLogfile, opened, hfirst] at h
                  | some first =>
                      obtain ⟨scriptfile, rfl⟩ :=
                        Option.isSome_iff_exists.mp (hscript first (List.mem_of_getElem? hfirst))
                      simp only [runLogfile, opened, hfirst] at h
                      split at h
                      · cases h
                      · next v hmake =>
                          obtain ⟨directories, rfl⟩ := makeDirectory_ok hmake
                          obtain ⟨found, hanswers, hscripts, hwrote, hsettled⟩ := runScripts_ok h
                          exact ⟨l.events, found, rfl, hsettled.2.2.2, hanswers, hscripts,
                            hsettled.2.1, hwrote⟩

/-- The loop over the log files; the induction follows the state that is handed on. -/
theorem runFiles_ok {logs : List Text} {file : Text → File}
    (hscript : ∀ f ∈ s.scriptfiles, f.isSome = true)
    (hfiles : ∀ path ∈ logs, s.disk.isFile path = true ∧ s.disk.file path = file path)
    (h : loop (runFile parseDouble io) (logs.map some) s = (.ok true, t)) :
    ∃ (eventss : List (List Event)) (found : List (List (List Event))),
      outputs readFile s.logfileReader (logs.map file) =
        eventss.map (fun events => some ⟨events⟩) ∧
      selections parseDouble s.scripts eventss =
        found.map (List.map fun events => .ok (some events)) ∧
      Wrote s t found.flatten := by
  induction logs generalizing s with
  | nil =>
      cases h
      exact ⟨[], [], rfl, rfl, .refl _⟩
  | cons logfile logs ih =>
      obtain ⟨u, hbody, hrest⟩ := body_of_loop_cons h
      obtain ⟨⟨hfile, heq⟩, hfiles⟩ := List.forall_mem_cons.mp hfiles
      obtain ⟨events, found, hread, hreader, hanswers, hscripts, hscriptfiles, hwrote⟩ :=
        runFile_ok hscript hfile hbody
      rw [heq] at hread hreader
      have hfiles' : ∀ path ∈ logs, u.disk.isFile path = true ∧ u.disk.file path = file path := by
        intro path hpath
        obtain ⟨hold, hsame⟩ := hfiles path hpath
        obtain ⟨files, hadded, -⟩ := hwrote.1
        have hdisk : u.disk = ⟨s.disk.files ++ files, u.disk.directories⟩ := by rw [← hadded]
        rw [hdisk, ← hsame]
        exact Disk.file_append hold files u.disk.directories
      obtain ⟨eventss, founds, hreads, hselections, hwrote'⟩ :=
        ih (hscriptfiles ▸ hscript) hfiles' hrest
      refine ⟨events :: eventss, found :: founds, ?_, ?_, ?_⟩
      · rw [List.map_cons, outputs, hread, ← hreader, hreads, List.map_cons]
      · rw [selections, hanswers, ← hscripts, hselections, List.map_cons]
      · rw [List.flatten_cons]
        exact hwrote.trans hwrote'

theorem isSome_of_parseScripts {disk : Disk} {scriptfiles : List (Option Text)}
    {scripts : List Script} (h : parseScripts disk scriptfiles = .ok (some scripts)) :
    ∀ f ∈ scriptfiles, f.isSome = true := by
  induction scriptfiles generalizing scripts with
  | nil => simp
  | cons f files ih =>
      cases f with
      | none => cases h
      | some path =>
          rw [parseScripts] at h
          cases hfile : parseFile disk path with
          | none => simp [hfile] at h
          | some script =>
              simp only [hfile] at h
              cases hrest : parseScripts disk files with
              | error e => simp [hrest, Except.map] at h
              | ok result =>
                  cases result with
                  | none => simp [hrest, Except.map] at h
                  | some rest => exact List.forall_mem_cons.mpr ⟨rfl, ih hrest⟩

/-- New files, each named after its log file and the one script file, with a number where the plain
name is taken. -/
structure NamedFor (disk : Disk) (scriptfile : Text) (logs : List Text)
    (files : List (Text × Text)) : Prop where
  length : files.length = logs.length
  fresh : ∀ file ∈ files, disk.pathExists file.1 = false
  nodup : (files.map Prod.fst).Nodup
  names : ∀ k logfile file, logs[k]? = some logfile → files[k]? = some file →
    ∃ i, file.1 = candidate (outputName logfile scriptfile) i ∧
      (i ≠ 0 → disk.pathExists (outputName logfile scriptfile) = true ∨
        outputName logfile scriptfile ∈ (files.take k).map Prod.fst)

theorem Written.namedFor {scriptfile : Text} {before after : Disk} {logs : List Text}
    {files : List (Text × Text)} (h : Written scriptfile before logs after)
    (hfiles : after.files = before.files ++ files) : NamedFor before scriptfile logs files := by
  obtain ⟨created, hcreated, hlength, hnames⟩ := h
  have hpaths : files.map Prod.fst = created := by
    have hadded := hcreated.files
    rw [hfiles, List.map_append] at hadded
    exact List.append_cancel_left hadded
  rw [← hpaths] at hcreated hlength hnames
  refine ⟨by rwa [List.length_map] at hlength, ?_, hcreated.nodup, ?_⟩
  · exact fun file hfile => hcreated.fresh file.1 (List.mem_map_of_mem hfile)
  · intro k logfile file hlog hfile
    rw [List.map_take]
    exact hnames k logfile file.1 hlog (by rw [List.getElem?_map, hfile]; rfl)

/-- An analysis that succeeds reads every log file with the one reader, hands the events of each
to every script object in turn, and adds to the disk exactly one file for each answer, with the
rows of the events of this answer, in this order, new and named after the log file and the first
script file; no file that was there before is changed. -/
theorem analysis_contents {logs : List Text} (hlogs : s.logfilefiles = logs.map some)
    (hfiles : ∀ path ∈ logs, s.disk.isFile path = true)
    (h : startAnalysis parseDouble io s = (.ok true, t)) :
    ∃ (scripts : List Script) (eventss : List (List Event))
      (found : List (List (List Event))) (files : List (Text × Text)),
      parseScripts s.disk s.scriptfiles = .ok (some scripts) ∧
      outputs readFile s.logfileReader (logs.map s.disk.file) =
        eventss.map (fun events => some ⟨events⟩) ∧
      selections parseDouble scripts eventss =
        found.map (List.map fun events => .ok (some events)) ∧
      t.disk.files = s.disk.files ++ files ∧ files.map Prod.snd = found.flatten.map rows ∧
      ∀ scriptfile rest, s.scriptfiles = (scriptfile :: rest).map some →
        NamedFor s.disk scriptfile
          (logs.flatMap fun logfile => List.replicate (scriptfile :: rest).length logfile)
          files := by
  have hwritten (scriptfile : Text) (rest : List Text)
      (hscripts : s.scriptfiles = (scriptfile :: rest).map some) :=
    written_startAnalysis h hlogs hscripts
  rw [startAnalysis] at h
  cases hparse : parseScripts s.disk s.scriptfiles with
  | error e => simp [hparse] at h
  | ok result =>
      cases result with
      | none => simp [hparse] at h
      | some scripts =>
          simp only [hparse, hlogs] at h
          obtain ⟨eventss, found, hreads, hselections, ⟨files, hadded, hrows⟩, -⟩ :=
            runFiles_ok (s := { s with logfilefiles := logs.map some, scripts })
              (isSome_of_parseScripts hparse) (fun path hpath => ⟨hfiles path hpath, rfl⟩) h
          exact ⟨scripts, eventss, found, files, rfl, hreads, hselections, hadded, hrows,
            fun scriptfile rest hscripts => (hwritten scriptfile rest hscripts).namedFor hadded⟩

end Runs

/-- One log file of two events and a search for one of them. -/
def searchOn : Controller where
  logfilefiles := [some "log.csv".toList]
  scriptfiles := [some "script.txt".toList]
  scripts := []
  configfile := some "config.csv".toList
  logfileReader := .new
  logfileWriter := .new
  disk := {
    files := [("log.csv".toList, "time,source,name\n0,sensor,on\n1,sensor,off".toList),
      ("script.txt".toList, "SEARCH on".toList), ("config.csv".toList, "item,type".toList)]
    directories := [] }

theorem analysis_contents_searchOn :
    (startAnalysis Script.parseDigits willingIo searchOn).1 = .ok true ∧
      (startAnalysis Script.parseDigits willingIo searchOn).2.disk.files =
        searchOn.disk.files ++ [("output/log.csv_script.txt".toList,
          rows [⟨"0".toList, "sensor".toList, "on".toList, some []⟩])] := by
  let log : Text := "log.csv".toList
  let events : List Event := [⟨"0".toList, "sensor".toList, "on".toList, some []⟩,
    ⟨"1".toList, "sensor".toList, "off".toList, some []⟩]
  let parsed : Controller :=
    { searchOn with scripts := [⟨[some (.search "SEARCH on".toList)]⟩] }
  have hread : LogfileReader.readAll ⟨[]⟩ (parsed.opened log).logfileReader =
      (some ⟨events⟩, (parsed.opened log).logfileReader) := by
    have hopened : (parsed.opened log).logfileReader =
        ⟨some ⟨true, "time,source,name\n0,sensor,on\n1,sensor,off".toList⟩, none⟩ := rfl
    rw [hopened, LogfileReader.readAll_eq]
    rfl
  have hget : getLogfile (parsed.opened log) = (.ok (some ⟨events⟩), parsed.opened log) := by
    have hconfig : ConfigFileReader.readConfigFile (parsed.opened log).disk
        (parsed.opened log).configfile = .ok (some []) := rfl
    rw [getLogfile, hconfig]
    simp only [hread]
  have hstart : startAnalysis Script.parseDigits willingIo searchOn =
      loop (runFile Script.parseDigits willingIo) [some log] parsed := rfl
  have htrue : (startAnalysis Script.parseDigits willingIo searchOn).1 = .ok true := by
    rw [hstart, loop, runFile_of_isFile _ _ rfl, hget]
    rfl
  have hlogs : searchOn.logfilefiles = [log].map some := rfl
  obtain ⟨scripts, eventss, found, files, hparse, hreads, hselections, hadded, hrows, hnamed⟩ :=
    analysis_contents hlogs (by decide) (Prod.ext htrue rfl)
  have hreads' : outputs readFile .new [searchOn.disk.file log] = [some ⟨events⟩] := by
    rw [outputs, readFile]
    exact congrArg (fun result => [result]) (congrArg Prod.fst hread)
  have hfound : selections Script.parseDigits [⟨[some (.search "SEARCH on".toList)]⟩] [events] =
      [[.ok (some [⟨"0".toList, "sensor".toList, "on".toList, some []⟩])]] := rfl
  obtain ⟨event, rfl, hevents⟩ := List.map_eq_singleton_iff.mp (hreads.symm.trans hreads')
  cases hevents
  cases hparse
  obtain ⟨answers, rfl, hanswers⟩ := List.map_eq_singleton_iff.mp (hselections.symm.trans hfound)
  obtain ⟨answer, rfl, hanswer⟩ := List.map_eq_singleton_iff.mp hanswers
  cases hanswer
  obtain ⟨⟨path, text⟩, rfl, hrow⟩ := List.map_eq_singleton_iff.mp hrows
  -- The plain name is free, so the file has it.
  have hname : path = outputName log "script.txt".toList := by
    obtain ⟨i, hpath, htaken⟩ := (hnamed "script.txt".toList [] rfl).names 0 log _ rfl rfl
    by_cases hi : i = 0
    · rw [hi] at hpath
      exact hpath
    · obtain hexists | hearlier := htaken hi
      · exact absurd hexists (by decide)
      · cases hearlier
  refine ⟨htrue, hadded.trans ?_⟩
  rw [hname, show text = _ from hrow]
  rfl

end Controller

end UmnProjects.Loafr
