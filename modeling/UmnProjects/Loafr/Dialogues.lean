import UmnProjects.Loafr.UI

/-!
Whole runs of the program: what its controller has been given when an analysis starts, and what
no run does to the files that are there before.
-/
namespace UmnProjects.Loafr

open Text Loops

/-! ### Added files -/

/-- No file that was there has changed, and each new file is named after one of the log files and
one of the script files. -/
def Disk.Adds (logs scripts : List (Option Text)) (before after : Disk) : Prop :=
  ∃ created, Created before after created ∧ ∀ path ∈ created, ∃ logfile scriptfile i,
    some logfile ∈ logs ∧ some scriptfile ∈ scripts ∧
      path = Controller.candidate (Controller.outputName logfile scriptfile) i

namespace Disk

variable {first second third : Disk} {logs scripts : List (Option Text)}

theorem Adds.refl (logs scripts : List (Option Text)) (disk : Disk) : Adds logs scripts disk disk :=
  ⟨[], .refl disk, fun _ hpath => absurd hpath List.not_mem_nil⟩

theorem Adds.trans (h : Adds logs scripts first second) (h' : Adds logs scripts second third) :
    Adds logs scripts first third := by
  obtain ⟨created, hcreated, hnames⟩ := h
  obtain ⟨created', hcreated', hnames'⟩ := h'
  exact ⟨created ++ created', hcreated.trans hcreated',
    List.forall_mem_append.mpr ⟨hnames, hnames'⟩⟩

end Disk

namespace Controller

section Runs

variable {V : Type} [LinearOrder V] (parseDouble : Text → Option (Double V)) (io : Io)

/-- What a part of an analysis does to the controller, however it ends. -/
structure Adding (s t : Controller) : Prop where
  logfilefiles : t.logfilefiles = s.logfilefiles
  scriptfiles : t.scriptfiles = s.scriptfiles
  disk : Disk.Adds s.logfilefiles s.scriptfiles s.disk t.disk

theorem Adding.refl (s : Controller) : Adding s s := ⟨rfl, rfl, .refl _ _ _⟩

theorem Adding.trans {s t u : Controller} (h : Adding s t) (h' : Adding t u) : Adding s u where
  logfilefiles := h'.logfilefiles.trans h.logfilefiles
  scriptfiles := h'.scriptfiles.trans h.scriptfiles
  disk := by
    have hdisk := h'.disk
    rw [h.logfilefiles, h.scriptfiles] at hdisk
    exact h.disk.trans hdisk

/-- A change of the other parts of the controller. -/
theorem Adding.of_eq {s t : Controller} (hlogs : t.logfilefiles = s.logfilefiles)
    (hscripts : t.scriptfiles = s.scriptfiles) (hdisk : t.disk = s.disk) : Adding s t where
  logfilefiles := hlogs
  scriptfiles := hscripts
  disk := by
    rw [hdisk]
    exact .refl _ _ _

theorem alertAndWrite_files (l : Logfile) (k : Nat) (script : Script) (s : Controller) :
    (alertAndWrite parseDouble io l k script s).2.logfilefiles = s.logfilefiles ∧
      (alertAndWrite parseDouble io l k script s).2.scriptfiles = s.scriptfiles := by
  rw [alertAndWrite]
  split <;> exact ⟨rfl, rfl⟩

theorem adding_writeTo (l : Logfile) (k : Nat) (script : Script) {s : Controller}
    {logfile scriptfile : Text} (hlog : some logfile ∈ s.logfilefiles)
    (hscript : some scriptfile ∈ s.scriptfiles) :
    Adding s (writeTo parseDouble io l k script (outputName logfile scriptfile) s).2 := by
  have hfree := pathExists_freeName s.disk (outputName logfile scriptfile)
  obtain ⟨i, hname, -⟩ := freeName_eq_candidate s.disk (outputName logfile scriptfile)
  rw [writeTo]
  generalize freeName s.disk (outputName logfile scriptfile) = path at hfree hname
  rw [Disk.createNewFile_of_free io hfree]
  cases hcreate : io.create path with
  | false =>
      simp only [Bool.false_eq_true, if_false, reduceCtorEq, LogfileWriter.setCurrentFile,
        Disk.isFile_of_free hfree]
      exact .of_eq rfl rfl rfl
  | true =>
      simp only [if_true, LogfileWriter.setCurrentFile, Disk.isFile_new]
      rw [if_neg (by decide)]
      obtain ⟨honly, -⟩ := onlyAt_alertAndWrite parseDouble io l k script (s := { s with
        disk := { s.disk with files := s.disk.files ++ [(path, [])] }
        logfileWriter := ⟨some path⟩ }) rfl
      obtain ⟨hlogs, hscripts⟩ := alertAndWrite_files parseDouble io l k script { s with
        disk := { s.disk with files := s.disk.files ++ [(path, [])] }
        logfileWriter := ⟨some path⟩ }
      refine ⟨hlogs, hscripts, [path], Disk.created_of_onlyAt hfree honly, ?_⟩
      intro path' hpath'
      rw [List.mem_singleton.mp hpath']
      exact ⟨logfile, scriptfile, i, hlog, hscript, hname⟩

theorem adding_runScript (l : Logfile) (k : Nat) {s : Controller} {logfile : Text}
    {scriptfile : Option Text} (hlog : some logfile ∈ s.logfilefiles)
    (hscript : scriptfile ∈ s.scriptfiles) :
    Adding s (runScript parseDouble io l logfile scriptfile k s).2 := by
  cases hk : s.scripts[k]? with
  | none =>
      rw [runScript, hk]
      exact .refl s
  | some script =>
      cases scriptfile with
      | none =>
          simp only [runScript, hk, lastPart_eq]
          exact .refl s
      | some scriptfile =>
          simp only [runScript, hk, lastPart_eq]
          exact adding_writeTo parseDouble io l k script hlog hscript

theorem adding_makeDirectory (s : Controller) : Adding s (makeDirectory io s).2 := by
  rw [makeDirectory]
  split
  · exact .refl s
  · refine ⟨rfl, rfl, ?_⟩
    simp only [Disk.mkdir]
    split
    · exact ⟨[], Disk.created_directory _, fun _ hpath => absurd hpath List.not_mem_nil⟩
    · exact .refl _ _ _

theorem adding_runScripts (l : Logfile) {s : Controller} {logfile : Text}
    {scriptfile : Option Text} (hlog : some logfile ∈ s.logfilefiles)
    (hscript : scriptfile ∈ s.scriptfiles) :
    Adding s (runScripts parseDouble io l logfile scriptfile s).2 := by
  apply loop_keeps (P := Adding s) _ (.refl s)
  intro k _ t ht
  rw [← ht.logfilefiles] at hlog
  rw [← ht.scriptfiles] at hscript
  exact ht.trans (adding_runScript parseDouble io l k hlog hscript)

theorem adding_runLogfile (l : Logfile) {s : Controller} {logfile : Text}
    (hlog : some logfile ∈ s.logfilefiles) :
    Adding s (runLogfile parseDouble io l logfile s).2 := by
  cases hfirst : s.scriptfiles[0]? with
  | none =>
      rw [runLogfile, hfirst]
      exact .refl s
  | some scriptfile =>
      have hmade := adding_makeDirectory io s
      have hscript : scriptfile ∈ s.scriptfiles := List.mem_of_getElem? hfirst
      rw [runLogfile, hfirst]
      cases hmake : makeDirectory io s with
      | mk made t =>
          rw [hmake] at hmade
          cases made with
          | false => exact hmade
          | true =>
              rw [← hmade.logfilefiles] at hlog
              rw [← hmade.scriptfiles] at hscript
              exact hmade.trans (adding_runScripts parseDouble io l hlog hscript)

theorem adding_runFile {s : Controller} {logfile : Option Text}
    (hlog : logfile ∈ s.logfilefiles) : Adding s (runFile parseDouble io logfile s).2 := by
  cases logfile with
  | none => exact .refl s
  | some path =>
      cases hfile : s.disk.isFile path with
      | false =>
          have hset : runFile parseDouble io (some path) s = (.ok false, s) := by
            simp [runFile, LogfileReader.setCurrentFile, Disk.file, hfile]
          rw [hset]
          exact .refl s
      | true =>
          rw [runFile_of_isFile parseDouble io hfile]
          have hopened : Adding s (opened path s) := .of_eq rfl rfl rfl
          obtain ⟨reader, hreader⟩ := getLogfile_snd (s.opened path)
          cases hget : getLogfile (s.opened path) with
          | mk result t =>
              rw [hget] at hreader
              have hread : Adding s t := by
                cases hreader
                exact hopened.trans (.of_eq rfl rfl rfl)
              cases result with
              | error e => exact hread
              | ok l =>
                  cases l with
                  | none => exact hread
                  | some l =>
                      rw [← hread.logfilefiles] at hlog
                      exact hread.trans (adding_runLogfile parseDouble io l hlog)

theorem adding_startAnalysis (s : Controller) :
    Adding s (startAnalysis parseDouble io s).2 := by
  rw [startAnalysis]
  split
  · exact .refl s
  · exact .refl s
  · next scripts _ =>
      have hparsed : Adding s { s with scripts } := .of_eq rfl rfl rfl
      refine hparsed.trans ?_
      apply loop_keeps (P := Adding { s with scripts }) _ (.refl _)
      intro logfile hlogfile t ht
      refine ht.trans (adding_runFile parseDouble io ?_)
      rw [ht.logfilefiles]
      exact hlogfile

end Runs

end Controller

/-! ### Dialogues -/

/-- What the shell reads between two menus. -/
inductive Command where
  | stop
  | malformed
  | add (kind : Kind) (filename : Text)
  | unanswered (kind : Kind)
  | start
  | auto
  | unknown
  deriving Repr, DecidableEq

namespace Command

/-- The commands up to the one that ends the shell. -/
def dialogue (digit : Char → Option Nat) : List Text → List Command
  | [] => []
  | input :: rest =>
      if input = "stop".toList then [stop]
      else
        match Integer.parseInt digit input with
        | none => malformed :: dialogue digit rest
        | some option =>
            match Kind.ofOption option, rest with
            | some kind, [] => [unanswered kind]
            | some kind, filename :: rest => add kind filename :: dialogue digit rest
            | none, rest =>
                if option = 4 then [start]
                else if option = 9 then [auto]
                else unknown :: dialogue digit rest

def printed (disk : Disk) : Command → List Text
  | stop => [UI.menu, "Stopping...".toList]
  | malformed => [UI.menu, "Invalid input\n".toList]
  | add kind filename => [UI.menu, kind.question, kind.answer (disk.pathExists filename), []]
  | unanswered kind => [UI.menu, kind.question]
  | start => [UI.menu, "Starting analysis...".toList]
  | auto => [UI.menu, "Running auto".toList]
  | unknown => [UI.menu, "Invalid option".toList, []]

/-- The file the command gives for this purpose, if it exists. -/
def file (disk : Disk) (kind : Kind) : Command → Option Text
  | add kind' filename =>
      if kind' = kind ∧ disk.pathExists filename = true then some filename else none
  | _ => none

def files (disk : Disk) (kind : Kind) (commands : List Command) : List Text :=
  commands.filterMap (file disk kind)

/-- A command behind which the shell asks for the next one. -/
def GoesOn : Command → Prop
  | malformed => True
  | add _ _ => True
  | unknown => True
  | _ => False

end Command

namespace Controller

/-- The controller with the existing files of a dialogue. -/
def given (commands : List Command) (s : Controller) : Controller :=
  { s with
    logfilefiles := s.logfilefiles ++ (Command.files s.disk .log commands).map some
    scriptfiles := s.scriptfiles ++ (Command.files s.disk .script commands).map some
    configfile := (Command.files s.disk .config commands).getLast?.or s.configfile }

end Controller

namespace UI

section Shell

variable {V : Type} [LinearOrder V] (parseDouble : Text → Option (Double V)) (io : Io)
  (digit : Char → Option Nat)

def given (commands : List Command) (ui : UI) : UI :=
  { ui with controller := ui.controller.given commands }

/-- What the last command makes of the files. -/
def conclude : Option Command → UI → Session
  | some .stop, ui => ⟨[], .returned, ui⟩
  | some (.unanswered _), ui => ⟨[], .NoSuchElementException, ui⟩
  | some .start, ui =>
      let analysed := startAnalysis parseDouble io ui
      ⟨[], analysed.1, analysed.2⟩
  | some .auto, ui =>
      let analysed := runDefault parseDouble io ui
      ⟨[], analysed.1, analysed.2⟩
  | _, ui => ⟨[menu], .NoSuchElementException, ui⟩

theorem given_nil (ui : UI) : ui.given [] = ui := by
  simp [given, Controller.given, Command.files]

theorem given_append (commands commands' : List Command) (ui : UI) :
    ui.given (commands ++ commands') = (ui.given commands).given commands' := by
  simp only [given, Controller.given, Command.files, List.filterMap_append,
    List.getLast?_append, Option.or_assoc, List.map_append, List.append_assoc]

theorem conclude_cons {command : Command} (h : command.GoesOn) (commands : List Command)
    (ui : UI) : conclude parseDouble io (command :: commands).getLast? ui =
      conclude parseDouble io commands.getLast? ui := by
  cases commands with
  | nil => cases command <;> first | rfl | cases h
  | cons next commands => rw [List.getLast?_cons_cons]

theorem add_eq (kind : Kind) (filename : Text) (ui : UI) :
    add kind filename ui =
      (ui.controller.disk.pathExists filename, ui.given [.add kind filename]) := by
  cases hexists : ui.controller.disk.pathExists filename <;> cases kind <;>
    simp [add, addLogFile, addScriptFile, addConfigFile, addFile, fileExists, given,
      Controller.given, Controller.addLogFile, Controller.addScriptFile,
      Controller.addConfigFile, Command.files, Command.file, hexists]

theorem behind_behind (printed printed' : List Text) (session : Session) :
    (session.behind printed').behind printed = session.behind (printed ++ printed') := by
  rw [Session.behind, Session.behind, Session.behind, List.append_assoc]

/-- The shell does on this input what the dialogue says. -/
def Follows (input : List Text) (ui : UI) : Prop :=
  shell parseDouble io digit input ui =
    (conclude parseDouble io (Command.dialogue digit input).getLast?
      (ui.given (Command.dialogue digit input))).behind
      ((Command.dialogue digit input).flatMap (Command.printed ui.controller.disk))

variable {parseDouble io digit} {input rest : List Text} {ui : UI}

theorem follows_cons (command : Command) (hgoes : command.GoesOn)
    (hdialogue : Command.dialogue digit input = command :: Command.dialogue digit rest)
    (hshell : shell parseDouble io digit input ui =
      (shell parseDouble io digit rest (ui.given [command])).behind
        (command.printed ui.controller.disk))
    (h : Follows parseDouble io digit rest (ui.given [command])) :
    Follows parseDouble io digit input ui := by
  have hgiven := given_append [command] (Command.dialogue digit rest) ui
  rw [List.singleton_append] at hgiven
  rw [Follows, hshell, h, hdialogue, conclude_cons parseDouble io hgoes, hgiven,
    behind_behind, List.flatMap_cons]
  rfl

theorem follows_last (command : Command) (hdialogue : Command.dialogue digit input = [command])
    (hgiven : ui.given [command] = ui)
    (hshell : shell parseDouble io digit input ui =
      (conclude parseDouble io (some command) ui).behind (command.printed ui.controller.disk)) :
    Follows parseDouble io digit input ui := by
  rw [Follows, hshell, hdialogue, hgiven, List.flatMap_singleton]
  rfl

theorem given_of_not_add {command : Command} (h : ∀ kind filename, command ≠ .add kind filename) :
    ui.given [command] = ui := by
  cases command with
  | add kind filename => exact absurd rfl (h kind filename)
  | _ => simp [given, Controller.given, Command.files, List.filterMap_cons, Command.file]

theorem follows (input : List Text) (ui : UI) : Follows parseDouble io digit input ui := by
  induction input using Command.dialogue.induct digit generalizing ui with
  | case1 =>
      rw [Follows, Command.dialogue, given_nil]
      rfl
  | case2 rest =>
      apply follows_last .stop
      · rw [Command.dialogue, if_pos rfl]
      · exact given_of_not_add (by simp)
      · rw [shell, if_pos rfl]
        rfl
  | case3 line rest hstop hnumber ih =>
      apply follows_cons .malformed trivial ?_ ?_ (ih _)
      · rw [Command.dialogue, if_neg hstop, hnumber]
      · rw [shell, if_neg hstop, hnumber, given_of_not_add (by simp)]
        rfl
  | case4 line hstop option hnumber kind hkind =>
      apply follows_last (.unanswered kind)
      · rw [Command.dialogue, if_neg hstop, hnumber]
        simp only [hkind]
      · exact given_of_not_add (by simp)
      · rw [shell, if_neg hstop, hnumber]
        simp only [hkind]
        rfl
  | case5 line hstop option hnumber kind filename rest hkind ih =>
      apply follows_cons (.add kind filename) trivial ?_ ?_ (ih _)
      · rw [Command.dialogue, if_neg hstop, hnumber]
        simp only [hkind]
      · rw [shell, if_neg hstop, hnumber]
        simp only [hkind, add_eq]
        rfl
  | case6 line hstop rest hnumber hkind =>
      apply follows_last .start
      · rw [Command.dialogue, if_neg hstop, hnumber]
        simp only [hkind, if_true]
      · exact given_of_not_add (by simp)
      · rw [shell, if_neg hstop, hnumber]
        simp only [hkind, if_true]
        rfl
  | case7 line hstop rest hnumber hkind hfour =>
      apply follows_last .auto
      · rw [Command.dialogue, if_neg hstop, hnumber]
        simp only [hkind, hfour, if_true, if_false]
      · exact given_of_not_add (by simp)
      · rw [shell, if_neg hstop, hnumber]
        simp only [hkind, hfour, if_true, if_false]
        rfl
  | case8 line hstop option hnumber rest hkind hfour hnine ih =>
      apply follows_cons .unknown trivial ?_ ?_ (ih _)
      · rw [Command.dialogue, if_neg hstop, hnumber]
        simp only [hkind, hfour, hnine, if_false]
      · rw [shell, if_neg hstop, hnumber, given_of_not_add (by simp)]
        simp only [hkind, hfour, hnine, if_false]
        rfl

variable (parseDouble io digit)

/-- A run of the program prints the dialogue that its input makes, and then does what the last
command says with the files of the dialogue that exist, in the order they were given. -/
theorem main_session (input : List Text) (disk : Disk) :
    main parseDouble io digit input disk =
      (conclude parseDouble io (Command.dialogue digit input).getLast?
        ((new disk).given (Command.dialogue digit input))).behind
        ("Loafr running".toList ::
          (Command.dialogue digit input).flatMap (Command.printed disk)) := by
  have hshell : shell parseDouble io digit input (new disk) = _ := follows input (new disk)
  rw [main, startShell, if_neg (fun hmode => hmode rfl), hshell, behind_behind]
  rfl

theorem adding_startAnalysis (ui : UI) :
    Controller.Adding ui.controller (startAnalysis parseDouble io ui).2.controller := by
  have hanalysis := Controller.adding_startAnalysis parseDouble io ui.controller
  rw [startAnalysis]
  split <;> exact hanalysis

/-- The commands that give the files of the option nobody is told of. -/
def defaults : List Command :=
  [.add .log defaultLogFile, .add .script defaultScriptFile, .add .config defaultConfigFile]

theorem runDefault_eq (ui : UI) :
    runDefault parseDouble io ui = startAnalysis parseDouble io (ui.given defaults) := by
  have hlog : addLogFile defaultLogFile ui = add .log defaultLogFile ui := rfl
  have hscript (ui : UI) :
      addScriptFile defaultScriptFile ui = add .script defaultScriptFile ui := rfl
  have hconfig (ui : UI) :
      addConfigFile defaultConfigFile ui = add .config defaultConfigFile ui := rfl
  rw [runDefault, hlog, hscript, hconfig, add_eq, add_eq, add_eq, ← given_append, ← given_append]
  rfl

/-- What has been added are output files, each named after a log file and a script file that these
commands give and that exist. -/
def AddsFor (commands : List Command) (before after : Disk) : Prop :=
  Disk.Adds ((Command.files before .log commands).map some)
    ((Command.files before .script commands).map some) before after

theorem addsFor_startAnalysis (commands : List Command) (disk : Disk) :
    AddsFor commands disk
      (startAnalysis parseDouble io ((new disk).given commands)).2.controller.disk :=
  (adding_startAnalysis parseDouble io ((new disk).given commands)).disk

/-- No run of the program changes a file that is there before. Where its last command asks for an
analysis, it adds files in the output directory, each named after a log file and a script file that
the commands gave or that the hidden option stands for, and that exist; otherwise it leaves the
disk as it is. -/
theorem main_adds (input : List Text) (disk : Disk) :
    ((Command.dialogue digit input).getLast? = some .start →
      AddsFor (Command.dialogue digit input) disk
        (main parseDouble io digit input disk).ui.controller.disk) ∧
    ((Command.dialogue digit input).getLast? = some .auto →
      AddsFor (Command.dialogue digit input ++ defaults) disk
        (main parseDouble io digit input disk).ui.controller.disk) ∧
    ((Command.dialogue digit input).getLast? ≠ some .start →
      (Command.dialogue digit input).getLast? ≠ some .auto →
        (main parseDouble io digit input disk).ui.controller.disk = disk) := by
  have hshell : shell parseDouble io digit input (new disk) = _ := follows input (new disk)
  have hmain : (main parseDouble io digit input disk).ui =
      (conclude parseDouble io (Command.dialogue digit input).getLast?
        ((new disk).given (Command.dialogue digit input))).ui := by
    rw [main, startShell, if_neg (fun hmode => hmode rfl), hshell]
    rfl
  rw [hmain]
  refine ⟨?_, ?_, ?_⟩
  · intro hlast
    rw [hlast]
    exact addsFor_startAnalysis parseDouble io _ disk
  · intro hlast
    rw [hlast, conclude, runDefault_eq, ← given_append]
    exact addsFor_startAnalysis parseDouble io _ disk
  · intro hstart hauto
    cases hlast : (Command.dialogue digit input).getLast? with
    | none => rfl
    | some command =>
        cases command with
        | start => exact absurd hlast hstart
        | auto => exact absurd hlast hauto
        | _ => rfl

end Shell

end UI

end UmnProjects.Loafr
