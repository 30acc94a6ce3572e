import UmnProjects.Foundations.Splits
import UmnProjects.Foundations.Words
import UmnProjects.Loafr.Failures
import UmnProjects.Loafr.LogfileReader

/-!
What filters find. The first data item of the key decides for each event, as a number or as a
text; a filter on the time also takes the time of an event for a number.
-/
namespace UmnProjects.Loafr

open Text UmnProjects.Splits

namespace Filter

def firstItem (key : Text) (event : Event) : Option DataItem :=
  (event.dataItems.getD []).find? fun item => decide (item.dataName = key)

/-- The events whose first item of the key passes the test. -/
def found (key : Text) (test : DataItem → Bool) (events : List Event) : List Event :=
  events.filter fun event => (firstItem key event).any test

/-- The text a filter is built from. -/
def filterText (key operator value : Text) : Text :=
  "FILTER ".toList ++ (key ++ ' ' :: (operator ++ ' ' :: value))

def hasItem (key : Text) (event : Event) : Bool := (firstItem key event).isSome

section Texts

variable {key operator : Text}

theorem splitLimit_text (hkey : ' ' ∉ key) (hoperator : ' ' ∉ operator) (value : Text) :
    splitLimit " ".toList 2 (key ++ ' ' :: (operator ++ ' ' :: value)) =
      [key, operator, value] := by
  have hfirst := breakOn_append_cons (operator ++ ' ' :: value) hkey
  have hsecond := breakOn_append_cons value hoperator
  have hblank : " ".toList = [' '] := rfl
  rw [hblank, splitLimit, hfirst]
  simp only
  rw [splitLimit, hsecond]
  rfl

variable {V : Type} [LinearOrder V] (parseDouble : Text → Option (Double V))

theorem matchesFilterCriteria_of_ne (htime : key ≠ "time".toList) (event : Event)
    (operator value : Text) :
    matchesFilterCriteria parseDouble event key operator value =
      .ok ((firstItem key event).any fun item =>
        compareValues parseDouble item.value operator value) := by
  rw [matchesFilterCriteria, firstItem]
  cases (event.dataItems.getD []).find? fun item => decide (item.dataName = key) with
  | none =>
      simp only
      rw [if_neg htime]
      rfl
  | some item => rfl

theorem accepts_filterText (key operator value : Text) :
    accepts (filterText key operator value) = true := by
  have hstart : "FILTER ".toList <+: filterText key operator value :=
    List.prefix_append "FILTER ".toList (key ++ ' ' :: (operator ++ ' ' :: value))
  simp only [accepts, hstart, decide_true]

theorem replaceFirst_filterText (key operator value : Text) :
    replaceFirst "FILTER ".toList [] (filterText key operator value) =
      key ++ ' ' :: (operator ++ ' ' :: value) :=
  replaceFirst_append "FILTER ".toList [] (key ++ ' ' :: (operator ++ ' ' :: value))

/-- A filter on anything but the time. -/
theorem applyOp_text (hkey : ' ' ∉ key) (hoperator : ' ' ∉ operator)
    (htime : key ≠ "time".toList) (value : Text) (events : List Event) :
    (applyOp parseDouble (filterText key operator value) (some events)).1 =
      .ok (some (found key (fun item => compareValues parseDouble item.value operator value)
        events)) := by
  have hmatches (event : Event) :=
    matchesFilterCriteria_of_ne parseDouble htime event operator value
  rw [applyOp, if_pos (accepts_filterText key operator value)]
  simp only [replaceFirst_filterText, splitLimit_text hkey hoperator]
  rw [filterM_ok hmatches]
  rfl

end Texts

/-! ### Splits -/

section FilterResults

variable {V : Type} [LinearOrder V] (parseDouble : Text → Option (Double V)) {key : Text}

/-- The events a filter on a data item lets through. -/
def passing (key operator value : Text) (events : List Event) : List Event :=
  found key (fun item => compareValues parseDouble item.value operator value) events

def isNumber : Double V → Bool
  | .NaN => false
  | .number _ => true

def hasNumber (key : Text) (event : Event) : Bool :=
  (firstItem key event).any fun item => (parseDouble item.value).any isNumber

theorem isSplit_found (whole : DataItem → Bool) (tests : List (DataItem → Bool))
    (h : ∀ item, (tests.countP fun test => test item) = if whole item then 1 else 0)
    (key : Text) (events : List Event) :
    IsSplit events (fun event => (firstItem key event).any whole)
      (tests.map fun test => found key test events) := by
  have hsplit := isSplit_filter events (fun event => (firstItem key event).any whole)
    (tests.map fun test event => (firstItem key event).any test)
  rw [List.map_map] at hsplit
  apply hsplit
  intro event _
  rw [List.countP_map]
  cases hitem : firstItem key event with
  | none => simp [Function.comp_def, hitem]
  | some item => simpa [Function.comp_def, hitem] using h item

theorem compareStringValues_other (eventValue comparisonValue : Text) :
    compareStringValues eventValue "<>".toList comparisonValue =
      !compareStringValues eventValue "=".toList comparisonValue := by
  rw [compareStringValues, if_neg (by decide), if_pos rfl, compareStringValues, if_pos rfl]

theorem compareNumericValues_other (eventValue comparisonValue : Double V) :
    compareNumericValues eventValue "<>".toList comparisonValue =
      !compareNumericValues eventValue "=".toList comparisonValue := by
  rw [compareNumericValues, if_neg (by decide), if_neg (by decide), if_neg (by decide),
    if_pos rfl, compareNumericValues, if_pos rfl]

theorem compareValues_other (eventValue comparisonValue : Text) :
    compareValues parseDouble eventValue "<>".toList comparisonValue =
      !compareValues parseDouble eventValue "=".toList comparisonValue := by
  rw [compareValues, compareValues]
  cases parseDouble eventValue with
  | none => apply compareStringValues_other
  | some x =>
      cases parseDouble comparisonValue with
      | none => apply compareStringValues_other
      | some y => apply compareNumericValues_other

/-- At most one of the three comparisons with a number holds, and one of them does exactly when
the other value is a number too. -/
theorem count_comparisons {value : Text} {w : V} (hvalue : parseDouble value = some (.number w))
    (eventValue : Text) :
    (["<".toList, "=".toList, ">".toList].countP fun operator =>
        compareValues parseDouble eventValue operator value) =
      if (parseDouble eventValue).any isNumber then 1 else 0 := by
  have hless (x y : Double V) : compareNumericValues x "<".toList y = x.less y := by
    rw [compareNumericValues, if_neg (by decide), if_pos rfl]
  have hequal (x y : Double V) : compareNumericValues x "=".toList y = x.equal y := by
    rw [compareNumericValues, if_pos rfl]
  have hgreater (x y : Double V) : compareNumericValues x ">".toList y = y.less x := by
    rw [compareNumericValues, if_neg (by decide), if_neg (by decide), if_pos rfl]
  simp only [List.countP_cons, List.countP_nil, compareValues, hvalue]
  cases hevent : parseDouble eventValue with
  | none =>
      have hne : eventValue ≠ value := by
        intro heq
        rw [heq, hvalue] at hevent
        cases hevent
      simp [compareStringValues, hne]
  | some x =>
      simp only [hless, hequal, hgreater]
      cases x with
      | NaN => rfl
      | number x =>
          obtain hlt | heq | hgt := lt_trichotomy x w
          · simp [Double.less, Double.equal, isNumber, hlt, hlt.ne, hlt.not_gt]
          · simp [Double.less, Double.equal, isNumber, heq]
          · simp [Double.less, Double.equal, isNumber, hgt, hgt.ne', hgt.not_gt]

/-- The filters `=` and `<>` split the events with an item of the key, and the filters `<`, `=`
and `>` with a number split those whose first item of the key is a number. -/
theorem filters_split (hkey : ' ' ∉ key) (htime : key ≠ "time".toList) (value : Text)
    (events : List Event) :
    (∀ operator ∈ ["=".toList, "<>".toList, "<".toList, ">".toList],
      (applyOp parseDouble (filterText key operator value) (some events)).1 =
        .ok (some (passing parseDouble key operator value events))) ∧
    IsSplit events (hasItem key)
      (["=".toList, "<>".toList].map fun operator =>
        passing parseDouble key operator value events) ∧
    ∀ w, parseDouble value = some (.number w) →
      IsSplit events (hasNumber parseDouble key)
        (["<".toList, "=".toList, ">".toList].map fun operator =>
          passing parseDouble key operator value events) := by
  refine ⟨?_, ?_, ?_⟩
  · intro operator hoperator
    apply applyOp_text parseDouble hkey ?_ htime
    revert operator
    decide
  · have hsplit := isSplit_found (fun _ => true)
      (["=".toList, "<>".toList].map fun operator item =>
        compareValues parseDouble item.value operator value) ?_ key events
    · have hwhole : (fun event => (firstItem key event).any fun _ => true) = hasItem key := by
        funext event
        rw [hasItem]
        cases firstItem key event with
        | none => rfl
        | some item => rfl
      rw [hwhole, List.map_map] at hsplit
      exact hsplit
    · intro item
      have hother := compareValues_other parseDouble item.value value
      rw [List.countP_map, List.countP_cons, List.countP_singleton]
      simp only [Function.comp_apply]
      by_cases hequal : compareValues parseDouble item.value "=".toList value = true
      · have hnot : ¬ compareValues parseDouble item.value "<>".toList value = true := by
          simp only [hother, hequal, Bool.not_true, Bool.false_eq_true, not_false_eq_true]
        rw [if_pos hequal, if_neg hnot]
        rfl
      · have htrue : compareValues parseDouble item.value "<>".toList value = true := by
          simp only [hother, hequal, Bool.not_false]
        rw [if_neg hequal, if_pos htrue]
        rfl
  · intro w hvalue
    have hsplit := isSplit_found (fun item => (parseDouble item.value).any isNumber)
      (["<".toList, "=".toList, ">".toList].map fun operator item =>
        compareValues parseDouble item.value operator value) ?_ key events
    · rw [List.map_map] at hsplit
      exact hsplit
    · intro item
      rw [List.countP_map]
      exact count_comparisons parseDouble hvalue item.value

/-- An event with one data item. -/
def measured (value : Text) : Event :=
  ⟨"0".toList, [], "a".toList, some [⟨"k".toList, value⟩]⟩

theorem filters_split_measured :
    IsSplit [measured "7".toList, measured "x".toList, Script.eventA] (hasItem "k".toList)
        (["=".toList, "<>".toList].map fun operator => passing Script.parseDigits "k".toList
          operator "5".toList [measured "7".toList, measured "x".toList, Script.eventA]) ∧
      IsSplit [measured "7".toList, measured "x".toList, Script.eventA]
        (hasNumber Script.parseDigits "k".toList)
        (["<".toList, "=".toList, ">".toList].map fun operator => passing Script.parseDigits
          "k".toList operator "5".toList
          [measured "7".toList, measured "x".toList, Script.eventA]) := by
  have hsplit := filters_split Script.parseDigits (by decide : ' ' ∉ "k".toList)
    (by decide : "k".toList ≠ "time".toList) "5".toList
    [measured "7".toList, measured "x".toList, Script.eventA]
  exact ⟨hsplit.2.1, hsplit.2.2 5 (by decide)⟩

end FilterResults

/-! ### Times that are no numbers -/

section Times

variable {V : Type} [LinearOrder V] (parseDouble : Text → Option (Double V))

def hasTimeItem (event : Event) : Bool :=
  decide (∃ item ∈ event.dataItems.getD [], item.dataName = "time".toList)

/-- A filter on the time of the events is taken apart into the operator and the value. -/
def OnTime (op operator value : Text) : Prop :=
  accepts op = true ∧ splitLimit " ".toList 2 (replaceFirst "FILTER ".toList [] op) =
    ["time".toList, operator, value]

theorem hasTimeItem_eq_false_iff (event : Event) :
    hasTimeItem event = false ↔
      ∀ item ∈ event.dataItems.getD [], item.dataName ≠ "time".toList := by
  rw [hasTimeItem, decide_eq_false_iff_not]
  simp only [not_exists, not_and]

/-- A filter gives a list or null, and does not throw, exactly when it is none on the time, or
the value of the filter and the times of all events without a data item of this name are
numbers. -/
theorem applyOp_returns_iff (op : Text) (events : List Event) :
    (∃ result, (applyOp parseDouble op (some events)).1 = .ok result) ↔
      ∀ operator value, OnTime op operator value → ∀ event ∈ events, hasTimeItem event = false →
        (parseDouble event.time).isSome = true ∧ (parseDouble value).isSome = true := by
  simp only [applyOp, OnTime]
  cases haccepts : accepts op with
  | false => simp
  | true =>
      rw [if_pos rfl]
      simp only [true_and]
      generalize splitLimit " ".toList 2 (replaceFirst "FILTER ".toList [] op) = filterParts
      split
      · next key operator value =>
          have hmap (result : Except Thrown (List Event)) :
              (∃ output, some <$> result = .ok output) ↔ ∃ output, result = .ok output := by
            cases result with
            | error e => simp
            | ok output => simp
          rw [hmap, filterM_ok_iff]
          simp only [matchesFilterCriteria_ok_iff, hasTimeItem_eq_false_iff]
          constructor
          · intro h operator' value' hparts event hevent
            cases hparts
            exact h event hevent rfl
          · intro h event hevent htime
            rw [htime] at h ⊢
            exact h operator value rfl event hevent
      · next hparts =>
          apply iff_of_true ⟨none, rfl⟩
          intro operator value htime
          exact absurd htime (hparts _ operator value)

/-- An empty line of a log file is an event with an empty time. -/
theorem applyOp_empty_time :
    ((LogfileReader.readAllFrom "time,source,name\n\n".toList ⟨[]⟩ .new).map fun lf =>
        (applyOp Script.parseDigits "FILTER time > 5".toList (some lf.events)).1) =
      some (.error .NumberFormatException) := by
  rw [LogfileReader.readAllFrom_eq]
  decide

end Times

end Filter

end UmnProjects.Loafr
