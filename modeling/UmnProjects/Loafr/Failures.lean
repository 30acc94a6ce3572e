import UmnProjects.Loafr.Script

/-!
Which texts and events an operation can be applied to: on all others it reports failure with
null, or throws.
-/
namespace UmnProjects.Loafr

open Text

/-! ### Search -/

namespace Search

def contextFits (op : Text) : Bool :=
  if contains "BEFORE".toList op then decide ((split " BEFORE ".toList op).length = 2)
  else if contains "AFTER".toList op then decide ((split " AFTER ".toList op).length = 2)
  else if contains "BETWEEN".toList op && contains "AND".toList op then
    match split " BETWEEN ".toList op with
    | [_, rest] => decide ((split " AND ".toList rest).length = 2)
    | _ => false
  else false

/-- The text passes every test a search makes of it. -/
def Fits (op : Text) : Prop :=
  accepts op = true ∧
    let op := replaceFirst "SEARCH ".toList [] op
    (contains " BEFORE ".toList op || contains " AFTER ".toList op ||
      contains " BETWEEN ".toList op || contains " AND ".toList op) = true → contextFits op = true

theorem isSome_doContext (op : Text) (events : List Event) :
    (doContext op events).isSome = contextFits op := by
  simp only [doContext, contextFits]
  split
  · generalize split " BEFORE ".toList op = parts
    rcases parts with _ | ⟨key, _ | ⟨limit, _ | ⟨_, _⟩⟩⟩ <;> simp
  · split
    · generalize split " AFTER ".toList op = parts
      rcases parts with _ | ⟨key, _ | ⟨limit, _ | ⟨_, _⟩⟩⟩ <;> simp
    · split
      · generalize split " BETWEEN ".toList op = parts
        rcases parts with _ | ⟨key, _ | ⟨rest, _ | ⟨_, _⟩⟩⟩
        · rfl
        · rfl
        · dsimp only
          generalize split " AND ".toList rest = limits
          rcases limits with _ | ⟨limit1, _ | ⟨limit2, _ | ⟨_, _⟩⟩⟩ <;> simp
        · rfl
      · rfl

theorem applyOp_some_iff (op : Text) (events : List Event) :
    (∃ output, (applyOp op (some events)).1 = some output) ↔ Fits op := by
  rw [← Option.isSome_iff_exists]
  simp only [applyOp, Fits]
  cases accepts op with
  | false => simp
  | true =>
      simp only [if_true, true_and]
      split
      · next hcontext =>
          rw [isSome_doContext]
          exact ⟨fun h _ => h, fun h => h hcontext⟩
      · next hcontext => exact ⟨fun _ h => absurd h hcontext, fun _ => rfl⟩

end Search

/-! ### Filter -/

namespace Filter

variable {V : Type} [LinearOrder V] (parseDouble : Text → Option (Double V))

/-- The text passes every test a filter makes of it, and a filter on the time meets numbers
only wherever no data item of the event decides. -/
def Fits (op : Text) (events : List Event) : Prop :=
  accepts op = true ∧ ∃ key operator value,
    splitLimit " ".toList 2 (replaceFirst "FILTER ".toList [] op) = [key, operator, value] ∧
      (key = "time".toList → ∀ event ∈ events,
        (∀ item ∈ event.dataItems.getD [], item.dataName ≠ key) →
          (parseDouble event.time).isSome = true ∧ (parseDouble value).isSome = true)

theorem filterAuxM_ok_iff {A E : Type} (f : A → Except E Bool) (l acc : List A) :
    (∃ output, l.filterAuxM f acc = .ok output) ↔ ∀ a ∈ l, ∃ b, f a = .ok b := by
  induction l generalizing acc with
  | nil => simp [pure, Except.pure]
  | cons a l ih =>
      cases ha : f a with
      | error e => simp [ha, bind, Except.bind]
      | ok b => simp [ha, bind, Except.bind, ih]

theorem filterM_ok {A E : Type} {f : A → Except E Bool} {test : A → Bool}
    (h : ∀ a, f a = .ok (test a)) (l : List A) : l.filterM f = .ok (l.filter test) := by
  have haux (acc : List A) : l.filterAuxM f acc = .ok ((l.filter test).reverse ++ acc) := by
    induction l generalizing acc with
    | nil => rfl
    | cons a l ih =>
        rw [List.filterAuxM, h a]
        change l.filterAuxM f (cond (test a) (a :: acc) acc) = _
        rw [ih, List.filter_cons]
        cases test a with
        | false => rfl
        | true => simp
  rw [List.filterM, haux]
  simp [bind, Except.bind, pure, Except.pure]

theorem filterM_ok_iff {A E : Type} (f : A → Except E Bool) (l : List A) :
    (∃ output, l.filterM f = .ok output) ↔ ∀ a ∈ l, ∃ b, f a = .ok b := by
  rw [← filterAuxM_ok_iff f l []]
  cases hl : l.filterAuxM f [] with
  | error e => simp [List.filterM, hl, bind, Except.bind]
  | ok output => simp [List.filterM, hl, bind, Except.bind, pure, Except.pure]

theorem matchesFilterCriteria_ok_iff (event : Event) (key operator value : Text) :
    (∃ b, matchesFilterCriteria parseDouble event key operator value = .ok b) ↔
      (key = "time".toList → (∀ item ∈ event.dataItems.getD [], item.dataName ≠ key) →
        (parseDouble event.time).isSome = true ∧ (parseDouble value).isSome = true) := by
  simp only [matchesFilterCriteria]
  cases hfind : (event.dataItems.getD []).find? fun item => decide (item.dataName = key) with
  | some item =>
      have hitem : item.dataName = key := by simpa using List.find?_some hfind
      have hmem := List.mem_of_find?_eq_some hfind
      simp only [Except.ok.injEq, exists_eq', true_iff]
      exact fun _ hnone => absurd hitem (hnone item hmem)
  | none =>
      have hnone : ∀ item ∈ event.dataItems.getD [], item.dataName ≠ key := by
        simpa using hfind
      by_cases htime : key = "time".toList
      · rw [if_pos htime]
        have hreached : (key = "time".toList → (∀ item ∈ event.dataItems.getD [],
            item.dataName ≠ key) → (parseDouble event.time).isSome = true ∧
              (parseDouble value).isSome = true) ↔
            (parseDouble event.time).isSome = true ∧ (parseDouble value).isSome = true :=
          ⟨fun h => h htime hnone, fun h _ _ => h⟩
        rw [hreached]
        cases parseDouble event.time <;> cases parseDouble value <;> simp
      · rw [if_neg htime]
        exact ⟨fun _ h => absurd h htime, fun _ => ⟨false, rfl⟩⟩

theorem applyOp_some_iff (op : Text) (events : List Event) :
    (∃ output, (applyOp parseDouble op (some events)).1 = .ok (some output)) ↔
      Fits parseDouble op events := by
  simp only [applyOp, Fits]
  cases accepts op with
  | false => simp
  | true =>
      simp only [if_true, true_and]
      generalize splitLimit " ".toList 2 (replaceFirst "FILTER ".toList [] op) = filterParts
      split
      · next key operator value =>
          have hmap (result : Except Thrown (List Event)) :
              (∃ output, some <$> result = .ok (some output)) ↔ ∃ output, result = .ok output := by
            cases result <;> simp
          rw [hmap, filterM_ok_iff]
          simp only [matchesFilterCriteria_ok_iff]
          constructor
          · intro h
            exact ⟨key, operator, value, rfl, fun htime event hevent => h event hevent htime⟩
          · intro h event hevent htime
            obtain ⟨_, _, _, heq, hnumbers⟩ := h
            cases heq
            exact hnumbers htime event hevent
      · next hparts =>
          constructor
          · intro h
            obtain ⟨_, houtput⟩ := h
            cases houtput
          · intro h
            obtain ⟨key, operator, value, heq, _⟩ := h
            exact absurd heq (hparts key operator value)

end Filter

/-! ### Operations and scripts -/

section Fitting

variable {V : Type} [LinearOrder V] (parseDouble : Text → Option (Double V))

def Operation.Fits : Operation → List Event → Prop
  | .search op, _ => Search.Fits op
  | .filter op, events => Filter.Fits parseDouble op events

theorem Operation.applyOp_some_iff (op : Operation) (events : List Event) :
    (∃ output, (op.applyOp parseDouble (some events)).1 = .ok (some output)) ↔
      op.Fits parseDouble events := by
  cases op with
  | search op =>
      rw [Operation.Fits, ← Search.applyOp_some_iff op events]
      simp [applyOp]
  | filter op => exact Filter.applyOp_some_iff parseDouble op events

/-- Every operation fits the events its predecessors leave of the list. -/
def Script.FitsAll : List (Option Operation) → List Event → Prop
  | [], _ => True
  | none :: _, _ => False
  | some op :: ops, events =>
      op.Fits parseDouble events ∧ ∀ output,
        (op.applyOp parseDouble (some events)).1 = .ok (some output) → FitsAll ops output

/-- An alert gives a list exactly when all operations fit. -/
theorem Script.applyAll_some_iff (ops : List (Option Operation)) (events : List Event) :
    (∃ output, (applyAll parseDouble ops (some events)).1 = .ok (some output)) ↔
      FitsAll parseDouble ops events := by
  induction ops generalizing events with
  | nil => simp [applyAll, FitsAll]
  | cons op ops ih =>
      cases op with
      | none => simp [applyAll, FitsAll]
      | some op =>
          rw [FitsAll, ← Operation.applyOp_some_iff]
          cases happly : op.applyOp parseDouble (some events) with
          | mk result op' =>
              cases result with
              | error e => simp [applyAll, happly]
              | ok output =>
                  cases output with
                  | none => simp [applyAll, happly, applyAll_null]
                  | some output => simp [applyAll, happly, ih]

end Fitting

end UmnProjects.Loafr
