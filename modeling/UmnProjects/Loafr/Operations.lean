import UmnProjects.Foundations.Text
import UmnProjects.Loafr.Events

/-!
The two operations of a script. An operation keeps its text in a field, and `applyOp`
rewrites this field while it takes the text apart.
-/
namespace UmnProjects.Loafr

open Text

/-! ### Search -/

namespace Search

/-- The events named `key` before the first event named `limit`. -/
def before (key limit : Text) : List Event → List Event
  | [] => []
  | event :: events =>
      if limit = event.eventName then []
      else if key = event.eventName then event :: before key limit events
      else before key limit events

def after (key limit : Text) (reached : Bool) : List Event → List Event
  | [] => []
  | event :: events =>
      let reached := reached || decide (limit = event.eventName)
      if reached && decide (key = event.eventName) then event :: after key limit reached events
      else after key limit reached events

def between (key limit1 limit2 : Text) (reached : Bool) : List Event → List Event
  | [] => []
  | event :: events =>
      let reached := reached || decide (limit1 = event.eventName)
      if limit2 = event.eventName then []
      else if reached && decide (key = event.eventName) then
        event :: between key limit1 limit2 reached events
      else between key limit1 limit2 reached events

def doSearch (op : Text) (events : List Event) : Option (List Event) × Text :=
  let not := contains "<>".toList op
  let op := if not then replaceFirst "<>".toList [] op else op
  (some (events.filter fun event => not != decide (op = event.eventName)), op)

def doContext (op : Text) (events : List Event) : Option (List Event) :=
  if contains "BEFORE".toList op then
    match split " BEFORE ".toList op with
    | [key, limit] => some (before key limit events)
    | _ => none
  else if contains "AFTER".toList op then
    match split " AFTER ".toList op with
    | [key, limit] => some (after key limit false events)
    | _ => none
  else if contains "BETWEEN".toList op && contains "AND".toList op then
    match split " BETWEEN ".toList op with
    | [key, rest] =>
        match split " AND ".toList rest with
        | [limit1, limit2] => some (between key limit1 limit2 false events)
        | _ => none
    | _ => none
  else none

/-- The tests at the head of `applyOp`. -/
def accepts (op : Text) : Bool :=
  contains "SEARCH ".toList op && !decide (op.length < 8)

def applyOp (op : Text) (events : Option (List Event)) : Option (List Event) × Text :=
  if accepts op then
    match events with
    | none => (none, op)
    | some events =>
        let op := replaceFirst "SEARCH ".toList [] op
        if contains " BEFORE ".toList op || contains " AFTER ".toList op ||
            contains " BETWEEN ".toList op || contains " AND ".toList op then
          (doContext op events, op)
        else doSearch op events
  else (none, op)

theorem length_doSearch_le (op : Text) (events : List Event) :
    (doSearch op events).2.length ≤ op.length := by
  simp only [doSearch]
  split
  · exact length_replaceFirst_nil_le _ _
  · exact Nat.le_refl _

theorem applyOp_null (op : Text) : applyOp op none = (none, op) := by
  simp [applyOp]

theorem applyOp_refused {op : Text} (h : accepts op = false) (events : Option (List Event)) :
    applyOp op events = (none, op) := by
  simp [applyOp, h]

theorem applyOp_shorter {op : Text} (h : accepts op = true) (events : List Event) :
    (applyOp op (some events)).2.length < op.length := by
  have hcontains : contains "SEARCH ".toList op = true := by
    simp only [accepts, Bool.and_eq_true] at h
    exact h.1
  have hlen := length_replaceFirst [] hcontains
  have hword : "SEARCH ".toList.length = 7 := rfl
  simp only [List.length_nil] at hlen
  simp only [applyOp, h, if_true]
  split
  · dsimp only
    omega
  · have hsearch := length_doSearch_le (replaceFirst "SEARCH ".toList [] op) events
    omega

end Search

/-! ### Filter -/

namespace Filter

def compareStringValues (eventValue operator comparisonValue : Text) : Bool :=
  if operator = "=".toList then decide (eventValue = comparisonValue)
  else if operator = "<>".toList then !decide (eventValue = comparisonValue)
  else false

variable {V : Type} [LinearOrder V]

def compareNumericValues (eventValue : Double V) (operator : Text)
    (comparisonValue : Double V) : Bool :=
  if operator = "=".toList then eventValue.equal comparisonValue
  else if operator = "<".toList then eventValue.less comparisonValue
  else if operator = ">".toList then comparisonValue.less eventValue
  else if operator = "<>".toList then !eventValue.equal comparisonValue
  else false

variable (parseDouble : Text → Option (Double V))

/-- The values are compared as numbers when both of them are numeric. -/
def compareValues (eventValue operator comparisonValue : Text) : Bool :=
  match parseDouble eventValue, parseDouble comparisonValue with
  | some eventValue, some comparisonValue =>
      compareNumericValues eventValue operator comparisonValue
  | _, _ => compareStringValues eventValue operator comparisonValue

/-- The first data item named `key` decides; only without one may the key mean the time. -/
def matchesFilterCriteria (event : Event) (key operator value : Text) : Except Thrown Bool :=
  match (event.dataItems.getD []).find? fun item => decide (item.dataName = key) with
  | some item => .ok (compareValues parseDouble item.value operator value)
  | none =>
      if key = "time".toList then
        match parseDouble event.time, parseDouble value with
        | some eventTime, some comparisonValue =>
            .ok (compareNumericValues eventTime operator comparisonValue)
        | _, _ => .error .NumberFormatException
      else .ok false

/-- The test at the head of `applyOp`. -/
def accepts (op : Text) : Bool := decide ("FILTER ".toList <+: op)

def applyOp (op : Text) (events : Option (List Event)) :
    Except Thrown (Option (List Event)) × Text :=
  if accepts op then
    match events with
    | none => (.ok none, op)
    | some events =>
        let op := replaceFirst "FILTER ".toList [] op
        match splitLimit " ".toList 2 op with
        | [key, operator, value] =>
            (some <$> events.filterM fun event =>
              matchesFilterCriteria parseDouble event key operator value, op)
        | _ => (.ok none, op)
  else (.ok none, op)

theorem applyOp_null (op : Text) : applyOp parseDouble op none = (.ok none, op) := by
  simp [applyOp]

theorem applyOp_refused {op : Text} (h : accepts op = false) (events : Option (List Event)) :
    applyOp parseDouble op events = (.ok none, op) := by
  simp [applyOp, h]

theorem applyOp_shorter {op : Text} (h : accepts op = true) (events : List Event) :
    (applyOp parseDouble op (some events)).2.length < op.length := by
  have hprefix : "FILTER ".toList <+: op := of_decide_eq_true h
  have hlen := length_replaceFirst [] (contains_of_startsWith hprefix)
  have hword : "FILTER ".toList.length = 7 := rfl
  simp only [List.length_nil] at hlen
  simp only [applyOp, h, if_true]
  split
  all_goals
    dsimp only
    omega

end Filter

/-! ### Operations -/

inductive Operation where
  | search (op : Text)
  | filter (op : Text)
  deriving Repr, DecidableEq

namespace Operation

def getOp : Operation → Text
  | search op => op
  | filter op => op

/-- The tests an operation makes of its own text before it looks at the events. -/
def accepts : Operation → Bool
  | search op => Search.accepts op
  | filter op => Filter.accepts op

variable {V : Type} [LinearOrder V] (parseDouble : Text → Option (Double V))

def applyOp : Operation → Option (List Event) →
    Except Thrown (Option (List Event)) × Operation
  | search op, events =>
      let result := Search.applyOp op events
      (.ok result.1, search result.2)
  | filter op, events =>
      let result := Filter.applyOp parseDouble op events
      (result.1, filter result.2)

/-- Without events an operation does nothing. -/
theorem applyOp_null (op : Operation) : op.applyOp parseDouble none = (.ok none, op) := by
  cases op with
  | search op => simp [applyOp, Search.applyOp_null]
  | filter op => simp [applyOp, Filter.applyOp_null]

theorem applyOp_refused {op : Operation} (h : op.accepts = false)
    (events : Option (List Event)) : op.applyOp parseDouble events = (.ok none, op) := by
  cases op with
  | search op => simp [applyOp, Search.applyOp_refused h]
  | filter op => simp [applyOp, Filter.applyOp_refused parseDouble h]

/-- An operation that is applied to events eats up a part of its own text. -/
theorem applyOp_shorter {op : Operation} (h : op.accepts = true) (events : List Event) :
    (op.applyOp parseDouble (some events)).2.getOp.length < op.getOp.length := by
  cases op with
  | search op => exact Search.applyOp_shorter h events
  | filter op => exact Filter.applyOp_shorter parseDouble h events

end Operation

end UmnProjects.Loafr
