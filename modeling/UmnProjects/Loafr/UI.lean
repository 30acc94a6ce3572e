import UmnProjects.Loafr.OutputFiles

/-!
The shell: it asks for files on the standard input until it is told to stop or to analyse, and a
path that does not exist is not taken. The input is the list of the lines that `nextLine` gives.
-/
namespace UmnProjects.Loafr

open Text Loops

/-! ### Numbers -/

namespace Integer

/-- The value of a decimal numeral. The value of a digit is that of `Character.digit`. -/
def parseDigits (digit : Char → Option Nat) (text : Text) : Option Nat :=
  if text.isEmpty then none
  else (text.mapM digit).map fun digits => digits.foldl (fun n d => 10 * n + d) 0

/-- None stands for a `NumberFormatException`. -/
def parseInt (digit : Char → Option Nat) (text : Text) : Option Int :=
  let within (value : Int) : Option Int :=
    if -2147483648 ≤ value ∧ value ≤ 2147483647 then some value else none
  match text with
  | '-' :: digits => (parseDigits digit digits).bind fun n => within (-n)
  | '+' :: digits => (parseDigits digit digits).bind fun n => within n
  | digits => (parseDigits digit digits).bind fun n => within n

end Integer

namespace Controller

def new (disk : Disk) : Controller where
  logfilefiles := []
  scriptfiles := []
  scripts := []
  configfile := none
  logfileReader := .new
  logfileWriter := .new
  disk := disk

def addLogFile (log_file : Text) (s : Controller) : Bool × Controller :=
  (true, { s with logfilefiles := s.logfilefiles ++ [some log_file] })

def addScriptFile (script_file : Text) (s : Controller) : Bool × Controller :=
  (true, { s with scriptfiles := s.scriptfiles ++ [some script_file] })

def addConfigFile (config_file : Text) (s : Controller) : Bool × Controller :=
  (true, { s with configfile := some config_file })

end Controller

/-! ### The shell -/

structure UI where
  uiMode : Int
  controller : Controller
  deriving Repr, DecidableEq

/-- How a run of the shell ends. -/
inductive Ending where
  | returned
  | NoSuchElementException
  | thrown (e : Thrown)
  deriving Repr, DecidableEq

/-- The texts the shell has printed, one for each call, and what it leaves. The line
`N Results Found` that the controller prints for each output file is not among them. -/
structure Session where
  printed : List Text
  ending : Ending
  ui : UI
  deriving Repr, DecidableEq

def Session.behind (printed : List Text) (session : Session) : Session :=
  { session with printed := printed ++ session.printed }

/-- What the shell asks a file name for. -/
inductive Kind where
  | log
  | script
  | config
  deriving Repr, DecidableEq

namespace Kind

def ofOption (option : Int) : Option Kind :=
  if option = 1 then some log
  else if option = 2 then some script
  else if option = 3 then some config
  else none

def question : Kind → Text
  | log => "Enter log file path: ".toList
  | script => "Enter script file path: ".toList
  | config => "Enter config file path: ".toList

def answer : Kind → Bool → Text
  | log, true => "Log file added".toList
  | log, false => "Could not add log file".toList
  | script, true => "Script file added".toList
  | script, false => "Could not add script file".toList
  | config, true => "Config file added".toList
  | config, false => "Could not add config file".toList

end Kind

namespace UI

def new (disk : Disk) : UI := ⟨0, .new disk⟩

def fileExists (ui : UI) (filePath : Text) : Bool := ui.controller.disk.pathExists filePath

def addFile (add : Text → Controller → Bool × Controller) (filename : Text) (ui : UI) :
    Bool × UI :=
  if ui.fileExists filename then
    let added := add filename ui.controller
    (added.1, { ui with controller := added.2 })
  else (false, ui)

def addLogFile (filename : Text) (ui : UI) : Bool × UI := addFile Controller.addLogFile filename ui

def addScriptFile (filename : Text) (ui : UI) : Bool × UI :=
  addFile Controller.addScriptFile filename ui

def addConfigFile (filename : Text) (ui : UI) : Bool × UI :=
  addFile Controller.addConfigFile filename ui

def add : Kind → Text → UI → Bool × UI
  | .log => addLogFile
  | .script => addScriptFile
  | .config => addConfigFile

def menu : Text :=
  ("Input number for command or type 'stop':\n1) Input log file\n2) Input script file\n" ++
    "3) Add config file\n4) Start LOAFR").toList

def defaultPath : Text := "D:\\School\\5801\\example files".toList

def defaultLogFile : Text := defaultPath ++ "/search_test_1.csv".toList

def defaultScriptFile : Text := defaultPath ++ "/example_script_search.txt".toList

def defaultConfigFile : Text := defaultPath ++ "/example_config_file.csv".toList

section Shell

variable {V : Type} [LinearOrder V] (parseDouble : Text → Option (Double V)) (io : Io)
  (digit : Char → Option Nat)

/-- The call of the controller, whose answer nobody reads. -/
def startAnalysis (ui : UI) : Ending × UI :=
  let result := Controller.startAnalysis parseDouble io ui.controller
  let ui := { ui with controller := result.2 }
  match result.1 with
  | .error e => (.thrown e, ui)
  | .ok _ => (.returned, ui)

def runDefault (ui : UI) : Ending × UI :=
  startAnalysis parseDouble io
    (addConfigFile defaultConfigFile
      (addScriptFile defaultScriptFile (addLogFile defaultLogFile ui).2).2).2

/-- The loop of the shell. -/
def shell : List Text → UI → Session
  | [], ui => ⟨[menu], .NoSuchElementException, ui⟩
  | input :: rest, ui =>
      if input = "stop".toList then ⟨[menu, "Stopping...".toList], .returned, ui⟩
      else
        match Integer.parseInt digit input with
        | none => (shell rest ui).behind [menu, "Invalid input\n".toList]
        | some option =>
            match Kind.ofOption option, rest with
            | some kind, [] => ⟨[menu, kind.question], .NoSuchElementException, ui⟩
            | some kind, filename :: rest =>
                let added := add kind filename ui
                (shell rest added.2).behind [menu, kind.question, kind.answer added.1, []]
            | none, rest =>
                if option = 4 then
                  let analysed := startAnalysis parseDouble io ui
                  ⟨[menu, "Starting analysis...".toList], analysed.1, analysed.2⟩
                else if option = 9 then
                  let analysed := runDefault parseDouble io ui
                  ⟨[menu, "Running auto".toList], analysed.1, analysed.2⟩
                else (shell rest ui).behind [menu, "Invalid option".toList, []]

/-- A message on the error stream is left out. -/
def startShell (input : List Text) (ui : UI) : Session :=
  if ui.uiMode ≠ 0 then ⟨[], .returned, ui⟩ else shell parseDouble io digit input ui

/-- A run of the program. -/
def main (input : List Text) (disk : Disk) : Session :=
  (startShell parseDouble io digit input (.new disk)).behind ["Loafr running".toList]

end Shell

end UI

end UmnProjects.Loafr
