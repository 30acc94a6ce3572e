import Mathlib.Data.List.DropRight
import Mathlib.Data.List.Nodup
import Mathlib.Data.List.Perm.Subperm
import UmnProjects.Loafr.LogfileWriter
import UmnProjects.Loafr.Script

/-!
The controller: it parses the scripts, reads each log file, and writes what each script
selects of it to a new file. A `File` object is a path here, and null is `none`.
-/
namespace UmnProjects.Loafr

open Text Loops

/-! ### Files -/

/-- What the file system makes of the calls whose success the contents of the disk do not
settle. A file that cannot be created gives an `IOException`. -/
structure Io where
  mkdir : Text → Bool
  create : Text → Bool
  writable : Text → Bool

/-- The part of the path behind its last slash. -/
def getName (path : Text) : Text := path.rtakeWhile fun c => decide (c ≠ '/')

namespace Disk

def paths (disk : Disk) : List Text := disk.files.map Prod.fst ++ disk.directories

theorem pathExists_iff (disk : Disk) (path : Text) :
    disk.pathExists path = true ↔ path ∈ disk.paths := by
  simp [pathExists, isFile, content, paths]

def mkdir (io : Io) (path : Text) (disk : Disk) : Bool × Disk :=
  if io.mkdir path then (true, { disk with directories := disk.directories ++ [path] })
  else (false, disk)

/-- None stands for an `IOException`. -/
def createNewFile (io : Io) (path : Text) (disk : Disk) : Option Bool × Disk :=
  if disk.pathExists path then (some false, disk)
  else if io.create path then (some true, { disk with files := disk.files ++ [(path, [])] })
  else (none, disk)

theorem createNewFile_of_free (io : Io) {path : Text} {disk : Disk}
    (h : disk.pathExists path = false) :
    disk.createNewFile io path =
      if io.create path then (some true, { disk with files := disk.files ++ [(path, [])] })
      else (none, disk) := by
  simp [createNewFile, h]

theorem isFile_new (disk : Disk) (path : Text) :
    isFile { disk with files := disk.files ++ [(path, [])] } path = true := by
  simp [isFile, content]

theorem isFile_of_free {path : Text} {disk : Disk} (h : disk.pathExists path = false) :
    disk.isFile path = false := by
  rw [pathExists, Bool.or_eq_false_iff] at h
  exact h.1

end Disk

namespace ConfigFileReader

def isSpace (c : Char) : Bool := decide (c ≤ ' ')

def trim (text : Text) : Text := (text.dropWhile isSpace).rdropWhile isSpace

def parseEntry (line : Text) : Option (Text × Text) :=
  match split ",".toList line with
  | [dataItem, dataType] =>
      if (trim dataItem).isEmpty || (trim dataType).isEmpty then none
      else some (trim dataItem, trim dataType)
  | _ => none

/-- The entries of the map in the order in which they are put, or null. -/
def readConfigFile (disk : Disk) (configFile : Option Text) :
    Except Thrown (Option (List (Text × Text))) :=
  match configFile with
  | none => .error .NullPointerException
  | some path =>
      match disk.content path with
      | none => .ok none
      | some content => .ok ((lines content).tail.mapM parseEntry)

end ConfigFileReader

/-! ### The controller -/

/-- The reader and the writer of the pipe keep a state of their own. -/
structure Controller where
  logfilefiles : List (Option Text)
  scriptfiles : List (Option Text)
  scripts : List Script
  configfile : Option Text
  logfileReader : LogfileReader
  logfileWriter : LogfileWriter
  disk : Disk
  deriving Repr, DecidableEq

namespace Controller

def outputPath : Text := "output/".toList

/-- The directory `outputPath` denotes. -/
def directory : Text := "output".toList

/-- The last part of the name of a file. -/
def lastPart (path : Text) : Except Thrown Text :=
  match (split "/".toList (getName path)).getLast? with
  | none => .error .IndexOutOfBoundsException
  | some part => .ok part

/-- The names tried for an output file, from the plain one on. -/
def candidate (name : Text) : Nat → Text
  | 0 => name
  | i + 1 => name ++ "(".toList ++ Nat.toDigits 10 (i + 1) ++ ")".toList

/-- The loop `while (outputFile.exists())`. -/
def freeName (disk : Disk) (name : Text) : Text :=
  match (List.range (disk.paths.length + 1)).find? fun i => !disk.pathExists (candidate name i) with
  | none => name
  | some i => candidate name i

theorem lastPart_eq (path : Text) : lastPart path = .ok (getName path) := by
  have hnot : '/' ∉ getName path := fun hmem => by
    simpa using List.mem_rtakeWhile_imp hmem
  have hsplit : split "/".toList (getName path) = [getName path] := split_of_not_mem (a := '/') hnot
  rw [lastPart, hsplit]
  rfl

theorem candidate_injective (name : Text) : Function.Injective (candidate name) := by
  intro i j h
  cases i with
  | zero =>
      cases j with
      | zero => rfl
      | succ j =>
          have hlength := congrArg List.length h
          simp [candidate] at hlength
  | succ i =>
      cases j with
      | zero =>
          have hlength := congrArg List.length h
          simp [candidate] at hlength
      | succ j =>
          have hdigits : Nat.toDigits 10 (i + 1) = Nat.toDigits 10 (j + 1) := by
            simpa [candidate] using h
          rw [← Nat.ofDigitChars_ten_toDigits (n := i + 1), hdigits, Nat.ofDigitChars_ten_toDigits]

/-- There are more candidates than paths, so that one of them is free. -/
theorem pathExists_freeName (disk : Disk) (name : Text) :
    disk.pathExists (freeName disk name) = false := by
  rw [freeName]
  split
  · next hnone =>
      have htaken : (List.range (disk.paths.length + 1)).map (candidate name) ⊆ disk.paths := by
        intro path hpath
        obtain ⟨i, hi, rfl⟩ := List.mem_map.mp hpath
        have hexists := List.find?_eq_none.mp hnone i hi
        exact (disk.pathExists_iff _).mp (by simpa using hexists)
      have hnodup : ((List.range (disk.paths.length + 1)).map (candidate name)).Nodup :=
        List.nodup_range.map (candidate_injective name)
      have hlength := (List.subperm_of_subset hnodup htaken).length_le
      rw [List.length_map, List.length_range] at hlength
      omega
  · next i hfound =>
      simpa using List.find?_some hfound

def getLogfile (s : Controller) : Except Thrown (Option Logfile) × Controller :=
  match ConfigFileReader.readConfigFile s.disk s.configfile with
  | .error e => (.error e, s)
  | .ok none => (.ok none, s)
  | .ok (some _) =>
      let result := LogfileReader.readAll ⟨[]⟩ s.logfileReader
      (.ok result.1, { s with logfileReader := result.2 })

def makeDirectory (io : Io) (s : Controller) : Bool × Controller :=
  if s.disk.pathExists directory then (true, s)
  else
    let result := s.disk.mkdir io directory
    (result.1, { s with disk := result.2 })

section Runs

variable {V : Type} [LinearOrder V] (parseDouble : Text → Option (Double V)) (io : Io)

/-- The loop over the events a script has selected. -/
def writeOutput (output : List Event) (s : Controller) : Except Thrown Bool × Controller :=
  let result := LogfileWriter.writeEvents io.writable s.logfileWriter output s.disk
  (result.1, { s with disk := result.2 })

/-- The alert of the script and the writing of what it selects. -/
def alertAndWrite (l : Logfile) (k : Nat) (script : Script) (s : Controller) :
    Except Thrown Bool × Controller :=
  let result := script.alert parseDouble (some l.events)
  let s := { s with scripts := s.scripts.set k result.2 }
  match result.1 with
  | .error e => (.error e, s)
  | .ok none => (.error .NullPointerException, s)
  | .ok (some output) => writeOutput io output s

/-- The part of an iteration that makes the output file, of which both names are known. -/
def writeTo (l : Logfile) (k : Nat) (script : Script) (name : Text) (s : Controller) :
    Except Thrown Bool × Controller :=
  let outputFile := freeName s.disk name
  let created := s.disk.createNewFile io outputFile
  let s := { s with disk := created.2 }
  if created.1 = some false then (.ok false, s)
  else
    let set := LogfileWriter.setCurrentFile s.disk (some outputFile) s.logfileWriter
    let s := { s with logfileWriter := set.2 }
    if set.1 then alertAndWrite parseDouble io l k script s else (.ok false, s)

/-- One iteration of the loop over the scripts. -/
def runScript (l : Logfile) (logfile : Text) (scriptfile : Option Text) (k : Nat)
    (s : Controller) : Except Thrown Bool × Controller :=
  match s.scripts[k]? with
  | none => (.ok true, s)
  | some script =>
      match lastPart logfile with
      | .error e => (.error e, s)
      | .ok logfileName =>
          match scriptfile with
          | none => (.error .NullPointerException, s)
          | some scriptfile =>
              match lastPart scriptfile with
              | .error e => (.error e, s)
              | .ok scriptName =>
                  writeTo parseDouble io l k script
                    (outputPath ++ logfileName ++ "_".toList ++ scriptName) s

def runScripts (l : Logfile) (logfile : Text) (scriptfile : Option Text) (s : Controller) :
    Except Thrown Bool × Controller :=
  loop (runScript parseDouble io l logfile scriptfile) (List.range s.scripts.length) s

/-- The part of `runFile` behind the reading of the log file. -/
def runLogfile (l : Logfile) (logfile : Text) (s : Controller) : Except Thrown Bool × Controller :=
  match s.scriptfiles[0]? with
  | none => (.error .IndexOutOfBoundsException, s)
  | some scriptfile =>
      match makeDirectory io s with
      | (false, s) => (.ok false, s)
      | (true, s) => runScripts parseDouble io l logfile scriptfile s

def runFile (logfile : Option Text) (s : Controller) : Except Thrown Bool × Controller :=
  match logfile with
  | none => (.ok false, s)
  | some path =>
      let set := LogfileReader.setCurrentFile (some (s.disk.file path)) s.logfileReader
      let s := { s with logfileReader := set.2 }
      if set.1 then
        match getLogfile s with
        | (.error e, s) => (.error e, s)
        | (.ok none, s) => (.ok false, s)
        | (.ok (some l), s) => runLogfile parseDouble io l path s
      else (.ok false, s)

/-- A file that cannot be read is no script. -/
def parseFile (disk : Disk) (path : Text) : Option Script :=
  (disk.content path).bind ScriptParser.parseScript

/-- The loop over the script files. -/
def parseScripts (disk : Disk) : List (Option Text) → Except Thrown (Option (List Script))
  | [] => .ok (some [])
  | none :: _ => .error .NullPointerException
  | some path :: files =>
      match parseFile disk path with
      | none => .ok none
      | some script => (parseScripts disk files).map fun scripts => scripts.map (script :: ·)

def startAnalysis (s : Controller) : Except Thrown Bool × Controller :=
  match parseScripts s.disk s.scriptfiles with
  | .error e => (.error e, s)
  | .ok none => (.ok false, s)
  | .ok (some scripts) =>
      loop (runFile parseDouble io) s.logfilefiles { s with scripts }

end Runs

end Controller

end UmnProjects.Loafr
