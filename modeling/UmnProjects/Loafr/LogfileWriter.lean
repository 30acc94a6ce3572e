import UmnProjects.Foundations.Loops
import UmnProjects.Loafr.LogfileReader

/-!
The files the analyzer reads and writes, and the writer of log files.
-/
namespace UmnProjects.Loafr

open Text Loops

/-- The contents of the regular files by their paths, and the paths of the directories. -/
structure Disk where
  files : List (Text × Text)
  directories : List Text
  deriving Repr, DecidableEq

namespace Disk

def content (disk : Disk) (path : Text) : Option Text := disk.files.lookup path

def isFile (disk : Disk) (path : Text) : Bool := (disk.content path).isSome

def pathExists (disk : Disk) (path : Text) : Bool :=
  disk.isFile path || disk.directories.contains path

/-- What a reader of the path sees. -/
def file (disk : Disk) (path : Text) : File := ⟨disk.isFile path, (disk.content path).getD []⟩

def append (disk : Disk) (path text : Text) : Disk :=
  { disk with files := disk.files.map fun file =>
      if file.1 = path then (path, file.2 ++ text) else file }

theorem content_append (disk : Disk) (path text : Text) :
    (disk.append path text).content path = (disk.content path).map (· ++ text) := by
  simp only [append, content]
  induction disk.files with
  | nil => rfl
  | cons file files ih =>
      obtain ⟨name, old⟩ := file
      by_cases hname : name = path
      · simp [hname]
      · have hne : (path == name) = false := by simpa using fun heq => hname heq.symm
        simp [hname, List.lookup_cons, hne, ih]

theorem content_file_append {disk : Disk} {path old : Text} (text : Text)
    (h : disk.content path = some old) :
    ((disk.append path text).file path).content = old ++ text := by
  simp [file, content_append, h]

end Disk

/-! ### Writing -/

/-- The writer has its current file by path. -/
structure LogfileWriter where
  currentFile : Option Text
  deriving Repr, DecidableEq

/-- The row of an event, without its line feed. -/
def rowText (time eventSource eventName : Text) (dataItems : List DataItem) : Text :=
  dataItems.foldl (fun row item => row ++ ",".toList ++ item.dataName ++ "=".toList ++ item.value)
    (time ++ ",".toList ++ eventSource ++ ",".toList ++ eventName)

/-- The loop over the data items fails on the null list. -/
def row (event : Event) : Except Thrown Text :=
  match event.dataItems with
  | none => .error .NullPointerException
  | some dataItems =>
      .ok (rowText event.time event.eventSource event.eventName dataItems ++ "\n".toList)

namespace LogfileWriter

def new : LogfileWriter := ⟨none⟩

def setCurrentFile (disk : Disk) (logFile : Option Text) (w : LogfileWriter) :
    Bool × LogfileWriter :=
  match logFile with
  | some path => if disk.isFile path then (true, ⟨some path⟩) else (false, w)
  | none => (false, w)

/-- A file that is not writable gives an `IOException`, which is caught. -/
def writeEntry (writable : Text → Bool) (event : Option Event) (w : LogfileWriter) (disk : Disk) :
    Except Thrown Bool × Disk :=
  match w.currentFile, event with
  | none, _ => (.ok false, disk)
  | _, none => (.ok false, disk)
  | some path, some event =>
      if writable path then
        match row event with
        | .error e => (.error e, disk)
        | .ok row => (.ok true, disk.append path row)
      else (.ok false, disk)

/-- The loop of `writeAll`. -/
def writeEvents (writable : Text → Bool) (w : LogfileWriter) :
    List Event → Disk → Except Thrown Bool × Disk :=
  loop fun event => writeEntry writable (some event) w

def header : Text :=
  "Timestamp,Event Source,Event Name,Data item 1,Data item 2,Data item 3, Data item 4".toList

/-- The header is written without a line feed. -/
def writeAll (writable : Text → Bool) (l : Option Logfile) (w : LogfileWriter) (disk : Disk) :
    Except Thrown Bool × Disk :=
  match w.currentFile, l with
  | none, _ => (.ok false, disk)
  | _, none => (.ok false, disk)
  | some path, some l =>
      if writable path then writeEvents writable w l.events (disk.append path header)
      else (.ok false, disk)

end LogfileWriter

end UmnProjects.Loafr
