import Mathlib.Data.List.Forall2
import UmnProjects.Foundations.Objects
import UmnProjects.Foundations.Text
import UmnProjects.Loafr.Events

/-!
The reader of log files. It keeps the current file and, apart from it, an open reader that
is dropped only at the end of the file.
-/
namespace UmnProjects.Loafr

open Text Objects

/-- `isFile` is also false where nothing exists. -/
structure File where
  isFile : Bool
  content : Text
  deriving Repr, DecidableEq

/-- The open reader is the list of the lines it has not handed out yet. -/
structure LogfileReader where
  currentFile : Option File
  reader : Option (List Text)
  deriving Repr, DecidableEq

/-! ### One line -/

def parseDataItem (text : Text) : Option DataItem :=
  match split "=".toList text with
  | dataName :: value :: _ => some ⟨dataName, value⟩
  | _ => none

/-- The event made of the fields of a line: one field, or at least three. -/
def parseEvent (data_list : List Text) : Option Event :=
  match data_list with
  | [time] => some ⟨time, [], [], none⟩
  | time :: eventSource :: eventName :: items =>
      (items.mapM parseDataItem).map fun dataItems =>
        ⟨time, eventSource, eventName, some dataItems⟩
  | _ => none

def eventOfLine (line : Text) : Option Event := parseEvent (split ",".toList line)

/-- What the source takes for a full definition of an event. -/
def WellFormed (line : Text) : Prop :=
  let data_list := split ",".toList line
  data_list.length = 1 ∨
    3 ≤ data_list.length ∧ ∀ item ∈ data_list.drop 3, 2 ≤ (split "=".toList item).length

instance : DecidablePred WellFormed := fun line =>
  inferInstanceAs (Decidable ((split ",".toList line).length = 1 ∨
    3 ≤ (split ",".toList line).length ∧
      ∀ item ∈ (split ",".toList line).drop 3, 2 ≤ (split "=".toList item).length))

theorem parseDataItem_isSome_iff (text : Text) :
    (parseDataItem text).isSome = true ↔ 2 ≤ (split "=".toList text).length := by
  simp only [parseDataItem]
  generalize split "=".toList text = parts
  cases parts with
  | nil => simp
  | cons dataName parts =>
      cases parts with
      | nil => simp
      | cons value parts => simp

theorem mapM_isSome_iff {A B : Type} (f : A → Option B) (l : List A) :
    (l.mapM f).isSome = true ↔ ∀ a ∈ l, (f a).isSome = true := by
  induction l with
  | nil => simp
  | cons a l ih =>
      cases ha : f a with
      | none => simp [List.mapM_cons, ha]
      | some b =>
          have hcons : ((a :: l).mapM f).isSome = (l.mapM f).isSome := by
            cases hl : l.mapM f with
            | none => simp [List.mapM_cons, ha, hl]
            | some bs => simp [List.mapM_cons, ha, hl]
          rw [hcons, ih, List.forall_mem_cons, ha]
          simp

theorem mapM_eq_some_iff {A B : Type} (f : A → Option B) (l : List A) (bs : List B) :
    l.mapM f = some bs ↔ List.Forall₂ (fun a b => f a = some b) l bs := by
  induction l generalizing bs with
  | nil => cases bs <;> simp
  | cons a l ih =>
      cases ha : f a with
      | none =>
          cases bs <;> simp [List.mapM_cons, ha]
      | some b =>
          cases bs with
          | nil => cases hl : l.mapM f <;> simp [List.mapM_cons, ha, hl]
          | cons c cs =>
              rw [List.forall₂_cons, ← ih, ha]
              cases hl : l.mapM f <;> simp [List.mapM_cons, ha, hl]

theorem eventOfLine_isSome_iff (line : Text) :
    (eventOfLine line).isSome = true ↔ WellFormed line := by
  simp only [eventOfLine, WellFormed]
  generalize split ",".toList line = data_list
  cases data_list with
  | nil => simp [parseEvent]
  | cons time rest =>
      cases rest with
      | nil => simp [parseEvent]
      | cons eventSource rest =>
          cases rest with
          | nil => simp [parseEvent]
          | cons eventName items =>
              simp [parseEvent, mapM_isSome_iff, parseDataItem_isSome_iff]

/-! ### The reader -/

namespace LogfileReader

def new : LogfileReader := ⟨none, none⟩

def setCurrentFile (logFile : Option File) (r : LogfileReader) : Bool × LogfileReader :=
  match logFile with
  | some file => if file.isFile then (true, { r with currentFile := some file }) else (false, r)
  | none => (false, r)

/-- A reader of the file, opened at its first line. -/
def initializeReader (file : File) : List Text := lines file.content

def readLine (r : LogfileReader) : Option (List Text) × LogfileReader :=
  match r.currentFile with
  | none => (none, r)
  | some file =>
      match r.reader.getD (initializeReader file) with
      | [] => (none, { r with reader := none })
      | line :: rest => (some (split ",".toList line), { r with reader := some rest })

def getEvent (r : LogfileReader) : Option Event × LogfileReader :=
  match r.readLine with
  | (none, r) => (none, r)
  | (some data_list, r) => (parseEvent data_list, r)

/-- The lines a sequence of reads will hand out. -/
def unread (r : LogfileReader) : List Text :=
  match r.currentFile with
  | none => []
  | some file => r.reader.getD (initializeReader file)

theorem getEvent_of_some {file : File} {r : LogfileReader} (hfile : r.currentFile = some file) :
    r.getEvent = match r.reader.getD (initializeReader file) with
      | [] => (none, { r with reader := none })
      | line :: rest => (eventOfLine line, { r with reader := some rest }) := by
  simp only [getEvent, readLine, hfile]
  cases r.reader.getD (initializeReader file) with
  | nil => rfl
  | cons line rest => rfl

/-- A read event uses up a line. -/
theorem getEvent_unread {r r' : LogfileReader} {e : Event} (h : r.getEvent = (some e, r')) :
    r'.unread.length < r.unread.length := by
  cases hfile : r.currentFile with
  | none => simp [getEvent, readLine, hfile] at h
  | some file =>
      rw [getEvent_of_some hfile] at h
      cases hlines : r.reader.getD (initializeReader file) with
      | nil => simp [hlines] at h
      | cons line rest =>
          simp only [hlines, Prod.mk.injEq] at h
          simp [unread, ← h.2, hfile, hlines]

/-- The loop of `readAll`. -/
def readEvents (lf : Logfile) (r : LogfileReader) : Logfile × LogfileReader :=
  match _h : r.getEvent with
  | (none, r) => (lf, r)
  | (some e, r') => readEvents (lf.addEvent e) r'
termination_by r.unread.length
decreasing_by exact getEvent_unread _h

theorem readEvents_of_none {r r' : LogfileReader} (h : r.getEvent = (none, r'))
    (lf : Logfile) : readEvents lf r = (lf, r') := by
  rw [readEvents]
  split
  · next heq =>
      rw [h] at heq
      cases heq
      rfl
  · next heq =>
      rw [h] at heq
      cases heq

theorem readEvents_of_some {r r' : LogfileReader} {e : Event}
    (h : r.getEvent = (some e, r')) (lf : Logfile) :
    readEvents lf r = readEvents (lf.addEvent e) r' := by
  rw [readEvents]
  split
  · next heq =>
      rw [h] at heq
      cases heq
  · next heq =>
      rw [h] at heq
      cases heq
      rfl

def readAll (lf : Logfile) (r : LogfileReader) : Option Logfile × LogfileReader :=
  match r.currentFile with
  | none => (none, r)
  | some _ =>
      match r.readLine with
      | (none, r) => (none, r)
      | (some _, r) =>
          let result := readEvents lf r
          (some result.1, result.2)

/-- The events of the lines before the first malformed one, and what the reader has left
after them. -/
def recorded : List Text → List Event × Option (List Text)
  | [] => ([], none)
  | line :: rest =>
      match eventOfLine line with
      | none => ([], some rest)
      | some e => (e :: (recorded rest).1, (recorded rest).2)

theorem readEvents_open (file : File) (rest : List Text) (lf : Logfile) :
    readEvents lf ⟨some file, some rest⟩ =
      ({ lf with events := lf.events ++ (recorded rest).1 }, ⟨some file, (recorded rest).2⟩) := by
  induction rest generalizing lf with
  | nil =>
      have hend : getEvent ⟨some file, some []⟩ = (none, ⟨some file, none⟩) := rfl
      simp [readEvents_of_none hend, recorded]
  | cons line rest ih =>
      have hline : getEvent ⟨some file, some (line :: rest)⟩ =
          (eventOfLine line, ⟨some file, some rest⟩) := rfl
      cases he : eventOfLine line with
      | none =>
          rw [he] at hline
          simp [readEvents_of_none hline, recorded, he]
      | some e =>
          rw [he] at hline
          simp [readEvents_of_some hline, ih, recorded, he, Logfile.addEvent]

/-- `readAll` takes the next unread line for the header and records the lines after it. -/
theorem readAll_eq {file : File} (lf : Logfile) (reader : Option (List Text)) :
    readAll lf ⟨some file, reader⟩ = match reader.getD (lines file.content) with
      | [] => (none, ⟨some file, none⟩)
      | _ :: rest => (some { lf with events := lf.events ++ (recorded rest).1 },
          ⟨some file, (recorded rest).2⟩) := by
  simp only [readAll, readLine, initializeReader]
  cases reader.getD (lines file.content) with
  | nil => rfl
  | cons header rest => simp only [readEvents_open]

theorem forall₂_recorded {rest : List Text} (h : ∀ line ∈ rest, WellFormed line) :
    List.Forall₂ (fun line e => eventOfLine line = some e) rest (recorded rest).1 := by
  induction rest with
  | nil => exact .nil
  | cons line rest ih =>
      obtain ⟨hline, hrest⟩ := List.forall_mem_cons.mp h
      obtain ⟨e, he⟩ := Option.isSome_iff_exists.mp ((eventOfLine_isSome_iff line).mpr hline)
      simp only [recorded, he]
      exact .cons he (ih hrest)

/-- The end of the file is reached exactly past well-formed lines. -/
theorem recorded_closed_iff (rest : List Text) :
    (recorded rest).2 = none ↔ ∀ line ∈ rest, WellFormed line := by
  induction rest with
  | nil => simp [recorded]
  | cons line rest ih =>
      rw [List.forall_mem_cons, ← ih, ← eventOfLine_isSome_iff]
      cases he : eventOfLine line with
      | none => simp [recorded, he]
      | some e => simp [recorded, he]

/-- What can be read as one event a line is well formed throughout. -/
theorem wellFormed_of_forall₂ {rest : List Text} {events : List Event}
    (h : List.Forall₂ (fun line e => eventOfLine line = some e) rest events) :
    ∀ line ∈ rest, WellFormed line := by
  induction h with
  | nil => simp
  | cons he _ ih =>
      refine List.forall_mem_cons.mpr ⟨?_, ih⟩
      exact (eventOfLine_isSome_iff _).mp (by simp [he])

/-! ### Complete log files -/

/-- The reader after its first `setCurrentFile`. -/
def opened (content : Text) : LogfileReader := (new.setCurrentFile (some ⟨true, content⟩)).2

theorem opened_eq (content : Text) : opened content = ⟨some ⟨true, content⟩, none⟩ := rfl

/-- The answer is null, or the log file with one event for every line after the header. -/
def AllOrNull (content : Text) (lf : Logfile) (answer : Option Logfile) : Prop :=
  answer = none ∨ ∃ events,
    List.Forall₂ (fun line e => eventOfLine line = some e) (lines content).tail events ∧
      answer = some { lf with events := lf.events ++ events }

/-- A file is read in full or refused exactly when it is empty or every line after the header
is well formed. -/
theorem readAll_allOrNull_iff (content : Text) (lf : Logfile) :
    AllOrNull content lf (readAll lf (opened content)).1 ↔
      lines content = [] ∨ ∀ line ∈ (lines content).tail, WellFormed line := by
  rw [opened_eq, readAll_eq, Option.getD_none]
  simp only [AllOrNull]
  cases lines content with
  | nil => simp
  | cons header rest =>
      constructor
      · intro h
        obtain hnone | ⟨events, hforall, _⟩ := h
        · cases hnone
        · exact .inr (wellFormed_of_forall₂ hforall)
      · intro h
        obtain hnil | hformed := h
        · cases hnil
        · exact .inr ⟨_, forall₂_recorded hformed, rfl⟩

/-- A log file whose second line has no event name. -/
def shortLine : Text := "time,source,name\n0,sensor\n1,sensor,on\n2,sensor,off".toList

/-- The log file is returned without the events of its last two lines. -/
theorem readAll_shortLine :
    (readAll ⟨[]⟩ (opened shortLine)).1 = some ⟨[]⟩ ∧
      ¬ AllOrNull shortLine ⟨[]⟩ (readAll ⟨[]⟩ (opened shortLine)).1 := by
  have hlines : lines shortLine =
      ["time,source,name".toList, "0,sensor".toList, "1,sensor,on".toList,
        "2,sensor,off".toList] := rfl
  have hanswer : (readAll ⟨[]⟩ (opened shortLine)).1 = some ⟨[]⟩ := by
    rw [opened_eq, readAll_eq, Option.getD_none, hlines]
    rfl
  refine ⟨hanswer, ?_⟩
  rw [hanswer]
  intro h
  obtain hnone | ⟨events, hforall, _⟩ := h
  · cases hnone
  · rw [hlines] at hforall
    exact absurd (wellFormed_of_forall₂ hforall "0,sensor".toList (by simp)) (by decide)

/-! ### One reader for several files -/

inductive Call where
  | setCurrentFile (logFile : Option File)
  | readLine
  | readAll (lf : Logfile)
  deriving Repr, DecidableEq

inductive Reply where
  | accepted (success : Bool)
  | fields (data_list : Option (List Text))
  | logfile (lf : Option Logfile)
  deriving Repr, DecidableEq

def call (r : LogfileReader) : Call → Reply × LogfileReader
  | .setCurrentFile logFile =>
      (.accepted (setCurrentFile logFile r).1, (setCurrentFile logFile r).2)
  | .readLine => (.fields r.readLine.1, r.readLine.2)
  | .readAll lf => (.logfile (readAll lf r).1, (readAll lf r).2)

/-- The reply to a `readAll` that directly follows `setCurrentFile` on a regular file. -/
def readAllFrom (content : Text) (lf : Logfile) (r : LogfileReader) : Option Logfile :=
  (readAll lf (r.setCurrentFile (some ⟨true, content⟩)).2).1

theorem readAllFrom_eq (content : Text) (lf : Logfile) (r : LogfileReader) :
    readAllFrom content lf r = match r.reader.getD (lines content) with
      | [] => none
      | _ :: rest => some { lf with events := lf.events ++ (recorded rest).1 } := by
  have hset : (r.setCurrentFile (some ⟨true, content⟩)).2 = ⟨some ⟨true, content⟩, r.reader⟩ := rfl
  rw [readAllFrom, hset, readAll_eq]
  cases r.reader.getD (lines content) with
  | nil => rfl
  | cons header rest => rfl

/-- `readAll` on a newly opened file leaves the reader open exactly when it has stopped at
a malformed line. -/
theorem reader_after_readAll_iff (content : Text) (lf : Logfile) :
    (readAll lf (opened content)).2.reader = none ↔
      ∀ line ∈ (lines content).tail, WellFormed line := by
  rw [opened_eq, readAll_eq, Option.getD_none]
  cases lines content with
  | nil => simp
  | cons header rest => exact recorded_closed_iff rest

/-- After any calls, a file just set is read from its first line, whatever the file, exactly
when no reader was left open. -/
theorem readAllFrom_fresh_iff (calls : List Call) :
    (∀ content lf, readAllFrom content lf (stateAfter call new calls) =
        readAllFrom content lf new) ↔
      (stateAfter call new calls).reader = none := by
  generalize stateAfter call new calls = r
  constructor
  · intro h
    cases hreader : r.reader with
    | none => rfl
    | some unread =>
        cases unread with
        | nil =>
            have hheader := h "h".toList ⟨[]⟩
            rw [readAllFrom_eq, readAllFrom_eq, hreader] at hheader
            cases hheader
        | cons line rest =>
            have hempty := h [] ⟨[]⟩
            rw [readAllFrom_eq, readAllFrom_eq, hreader] at hempty
            cases hempty
  · intro h content lf
    rw [readAllFrom_eq, readAllFrom_eq, h]
    rfl

/-- Reading the log file with the short line, up to that line. -/
def shortLineCalls : List Call :=
  [.setCurrentFile (some ⟨true, shortLine⟩), .readAll ⟨[]⟩]

def nextFile : Text := "time,source,name\n7,switch,pressed".toList

/-- The answer for the next log file holds the last event of the file before it. -/
theorem readAllFrom_nextFile :
    readAllFrom nextFile ⟨[]⟩ (stateAfter call new shortLineCalls) =
        some ⟨[⟨"2".toList, "sensor".toList, "off".toList, some []⟩]⟩ ∧
      readAllFrom nextFile ⟨[]⟩ (stateAfter call new shortLineCalls) ≠
        readAllFrom nextFile ⟨[]⟩ new := by
  have hstate : stateAfter call new shortLineCalls = (readAll ⟨[]⟩ (opened shortLine)).2 := rfl
  have hleft : readAllFrom nextFile ⟨[]⟩ (stateAfter call new shortLineCalls) =
      some ⟨[⟨"2".toList, "sensor".toList, "off".toList, some []⟩]⟩ := by
    rw [hstate, opened_eq, readAll_eq, readAllFrom_eq]
    rfl
  refine ⟨hleft, ?_⟩
  rw [hleft, readAllFrom_eq]
  decide

end LogfileReader

end UmnProjects.Loafr
