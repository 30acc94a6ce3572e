import UmnProjects.Foundations.Runs
import UmnProjects.Swish.Pipeline
import Mathlib.Algebra.Group.Nat.Defs

/-!
`string_vector.c`. The array of a cleared vector is freed, and so are the strings that
`strvec_take` drops; a function has no result where it would read either of these, or store
outside the array.
-/
namespace UmnProjects.Swish.StringVector
open Runs

def INITIAL_SIZE : Nat := 4

/-- An `unsigned int` stored in an `int`. -/
def asInt (n : Nat) : Int :=
  if n < 2147483648 then n else (n : Int) - 4294967296

/-- An element that is not stored yet, or freed, is none. -/
structure StrVec where
  length : Nat
  capacity : Nat
  data : Option (List (Option String))

def StrVec.element (vec : StrVec) (i : Nat) : Option String :=
  match vec.data with
  | none => none
  | some elements => match elements[i]? with
    | none => none
    | some element => element

def StrVec.store (vec : StrVec) (i : Nat) (element : Option String) : Option StrVec :=
  match vec.data with
  | none => none
  | some elements =>
      if i < elements.length then some { vec with data := some (elements.set i element) }
      else none

/-- Which of the allocations of `strvec_add` succeed. -/
structure Allocs where
  init : Bool
  realloc : Bool
  string : Bool

def Allocs.succeed : Allocs where
  init := true
  realloc := true
  string := true

def strvecInit (malloc : Bool) : StrVec × Int :=
  if malloc then
    ({ length := 0, capacity := INITIAL_SIZE, data := some (List.replicate INITIAL_SIZE none) }, 0)
  else ({ length := 0, capacity := INITIAL_SIZE, data := none }, 1)

/-- The loop of `free`, over as many elements from `i` on. -/
def freeFrom (vec : StrVec) (i : Nat) : Nat → Option StrVec
  | 0 => some vec
  | count + 1 => match vec.element i with
    | none => none
    | some _ => match vec.store i none with
      | none => none
      | some vec => freeFrom vec (i + 1) count

def strvecClear (vec : StrVec) : Option StrVec :=
  if vec.capacity = 0 then some vec
  else match freeFrom vec 0 vec.length with
    | none => none
    | some _ => some { length := 0, capacity := 0, data := none }

/-- Expand the array of a full vector; none when `realloc` fails. -/
def expand (realloc : Bool) (vec : StrVec) : Option StrVec :=
  if vec.length = vec.capacity then
    if realloc then
      let size := asUnsigned (2 * vec.capacity)
      let elements := vec.data.getD []
      some { vec with
        data := some (elements.take size ++ List.replicate (size - elements.length) none)
        capacity := asUnsigned (vec.capacity * 2) }
    else none
  else some vec

def strvecAdd (allocs : Allocs) (vec : StrVec) (s : String) : Option (StrVec × Int) :=
  let (vec, result) := if vec.capacity = 0 then strvecInit allocs.init else (vec, 0)
  if result ≠ 0 then some (vec, -1)
  else match expand allocs.realloc vec with
    | none => some (vec, -1)
    | some vec =>
        if allocs.string then
          match vec.store vec.length (some s) with
          | none => none
          | some vec => some ({ vec with length := asUnsigned (vec.length + 1) }, 0)
        else match vec.store vec.length none with
          | none => none
          | some vec => some (vec, -1)

/-- `NULL` is none, of the inner option. -/
def strvecGet (vec : StrVec) (i : Nat) : Option (Option String) :=
  if i ≥ vec.length then some none
  else match vec.element i with
    | none => none
    | some s => some (some s)

/-- The loop of `strvec_find`, over as many elements from `i` on. -/
def findFrom (vec : StrVec) (s : String) (i : Nat) : Nat → Option Int
  | 0 => some (-1)
  | count + 1 => match vec.element i with
    | none => none
    | some t => if t = s then some i else findFrom vec s (i + 1) count

def strvecFind (vec : StrVec) (s : String) : Option Int :=
  findFrom vec s 0 vec.length

/-- The loop of `strvec_find_last`, from the index below `i` downwards. -/
def findLastBelow (vec : StrVec) (s : String) : Nat → Option Int
  | 0 => some (-1)
  | i + 1 => match vec.element i with
    | none => none
    | some t => if t = s then some i else findLastBelow vec s i

def strvecFindLast (vec : StrVec) (s : String) : Option Int :=
  findLastBelow vec s (asInt (asUnsigned ((vec.length : Int) - 1)) + 1).toNat

/-- The loop of `strvec_num_occurrences`, over as many elements from `i` on. -/
def countFrom (vec : StrVec) (s : String) (i occurrences : Nat) : Nat → Option Nat
  | 0 => some occurrences
  | count + 1 => match vec.element i with
    | none => none
    | some t => countFrom vec s (i + 1) (if t = s then occurrences + 1 else occurrences) count

def strvecNumOccurrences (vec : StrVec) (s : String) : Option Nat :=
  countFrom vec s 0 0 vec.length

def strvecTake (vec : StrVec) (n : Nat) : Option StrVec :=
  let n := if n > vec.length then vec.length else n
  match freeFrom vec n (vec.length - n) with
  | none => none
  | some vec => some { vec with length := n }

/-- The loop of `strvec_slice`, over as many elements from `i` on; `allocs` is by element. -/
def addFrom (allocs : Nat → Allocs) (src dest : StrVec) (i : Nat) : Nat → Option (StrVec × Int)
  | 0 => some (dest, 0)
  | count + 1 => match strvecGet src i with
    | some (some s) => match strvecAdd (allocs i) dest s with
      | none => none
      | some (dest, result) =>
          if result ≠ 0 then some (dest, -1) else addFrom allocs src dest (i + 1) count
    | _ => none

def strvecSlice (malloc : Bool) (allocs : Nat → Allocs) (src : StrVec) (start stop : Int) :
    Option (StrVec × Int) :=
  let start := if start < 0 then 0 else start
  let stop := if asUnsigned stop > src.length then asInt src.length else stop
  let (dest, result) := strvecInit malloc
  if result ≠ 0 then some (dest, -1)
  else addFrom allocs src dest start.toNat (stop - start).toNat

/-! ### The list a vector stands for -/

/-- The capacities that doubling leads to. -/
def Doubled (capacity : Nat) : Prop := ∃ k, capacity = INITIAL_SIZE * 2 ^ k

/-- The vector holds the strings of the list, and then room. -/
structure Represents (vec : StrVec) (l : List String) : Prop where
  length : vec.length = l.length
  capacity : vec.capacity = 0 ∨ Doubled vec.capacity
  cleared : vec.capacity = 0 → l = []
  stored : vec.capacity ≠ 0 →
    ∃ room, vec.data = some (l.map some ++ room) ∧ l.length + room.length = vec.capacity

variable {vec vec' : StrVec} {l : List String} {s : String}

theorem Represents.bounded (h : Represents vec l) : vec.length ≤ vec.capacity := by
  by_cases hcapacity : vec.capacity = 0
  · rw [h.length, h.cleared hcapacity]
    exact Nat.zero_le _
  · obtain ⟨room, _, hsize⟩ := h.stored hcapacity
    rw [h.length, ← hsize]
    exact Nat.le_add_right _ _

theorem Represents.element (h : Represents vec l) {i : Nat} (hi : i < l.length) :
    vec.element i = some (l.get ⟨i, hi⟩) := by
  have hcapacity : vec.capacity ≠ 0 := by
    intro hzero
    rw [h.cleared hzero] at hi
    exact absurd hi (Nat.not_lt_zero i)
  obtain ⟨room, hdata, _⟩ := h.stored hcapacity
  have hmap : i < (l.map some).length := by
    rw [List.length_map]
    exact hi
  rw [StrVec.element, hdata]
  simp only [List.getElem?_append_left hmap, List.getElem?_map, List.getElem?_eq_getElem hi,
    Option.map_some, List.get_eq_getElem]

theorem Represents.unique (h : Represents vec l) {l' : List String} (h' : Represents vec l') :
    l = l' := by
  have hlength : l.length = l'.length := h.length.symm.trans h'.length
  refine List.ext_getElem hlength ?_
  intro i hi hi'
  have hsame := h.element hi
  rw [h'.element hi'] at hsame
  exact (Option.some.inj hsame).symm

/-! ### What each function does to the array -/

section

variable {front rest : List (Option String)} {element : Option String}

theorem element_append (hdata : vec.data = some (front ++ element :: rest)) :
    vec.element front.length = element := by
  rw [StrVec.element, hdata]
  simp only [List.getElem?_append_right (Nat.le_refl _), Nat.sub_self, List.getElem?_cons_zero]

theorem store_append (hdata : vec.data = some (front ++ element :: rest))
    (element' : Option String) :
    vec.store front.length element' =
      some { vec with data := some (front ++ element' :: rest) } := by
  have hinside : front.length < (front ++ element :: rest).length := by
    rw [List.length_append, List.length_cons]
    omega
  simp only [StrVec.store, hdata, if_pos hinside]
  rw [List.set_append_right _ _ (Nat.le_refl _), Nat.sub_self, List.set_cons_zero]

/-- Freeing strings in the middle of an array leaves room for as many. -/
theorem freeFrom_eq {freed : List String}
    (hdata : vec.data = some (front ++ (freed.map some ++ rest))) :
    freeFrom vec front.length freed.length =
      some { vec with data := some (front ++ (List.replicate freed.length none ++ rest)) } := by
  induction freed generalizing vec front with
  | nil =>
      change some vec = some { vec with data := some (front ++ rest) }
      rw [← show vec.data = some (front ++ rest) from hdata]
  | cons s freed ih =>
      have hcons : vec.data = some (front ++ some s :: (freed.map some ++ rest)) := hdata
      simp only [List.length_cons, freeFrom, element_append hcons, store_append hcons none]
      have hnext := @ih { vec with data := some (front ++ none :: (freed.map some ++ rest)) }
        (front ++ [none]) (congrArg some (List.append_cons _ _ _))
      rw [List.length_append, List.length_singleton] at hnext
      rw [hnext, List.replicate_succ, List.append_assoc]
      rfl

end

theorem represents_init : Represents (strvecInit true).1 [] where
  length := rfl
  capacity := .inr ⟨0, rfl⟩
  cleared := fun _ => rfl
  stored := fun _ => ⟨List.replicate INITIAL_SIZE none, rfl, rfl⟩

/-- Truncation keeps the capacity. -/
theorem Represents.take (h : Represents vec l) (n : Nat) :
    ∃ vec', strvecTake vec n = some vec' ∧ Represents vec' (l.take n) ∧
      vec'.capacity = vec.capacity := by
  have hkept : (if n > vec.length then vec.length else n) = (l.take n).length := by
    rw [h.length, List.length_take]
    split <;> omega
  have hfreed : vec.length - (l.take n).length = (l.drop n).length := by
    rw [h.length, List.length_take, List.length_drop]
    omega
  simp only [strvecTake, hkept, hfreed]
  by_cases hcapacity : vec.capacity = 0
  · have hnil := h.cleared hcapacity
    subst hnil
    refine ⟨{ vec with length := 0 }, ?_, ?_, rfl⟩
    · simp only [List.take_nil, List.drop_nil, List.length_nil, freeFrom]
    · rw [List.take_nil]
      exact ⟨rfl, h.capacity, fun _ => rfl, fun hne => absurd hcapacity hne⟩
  · obtain ⟨room, hdata, hsize⟩ := h.stored hcapacity
    have hparts : vec.data =
        some ((l.take n).map some ++ ((l.drop n).map some ++ room)) := by
      rw [hdata, ← List.append_assoc, ← List.map_append, List.take_append_drop]
    have hfree := freeFrom_eq hparts
    rw [List.length_map] at hfree
    rw [hfree]
    refine ⟨_, rfl, ⟨rfl, h.capacity, fun hzero => absurd hzero hcapacity, fun _ => ?_⟩, rfl⟩
    refine ⟨_, rfl, ?_⟩
    rw [List.length_append, List.length_replicate, List.length_take, List.length_drop]
    change _ = vec.capacity
    omega

theorem Represents.clear (h : Represents vec l) :
    ∃ vec', strvecClear vec = some vec' ∧ Represents vec' [] ∧ vec'.capacity = 0 := by
  by_cases hcapacity : vec.capacity = 0
  · have hnil := h.cleared hcapacity
    subst hnil
    exact ⟨vec, by rw [strvecClear, if_pos hcapacity], h, hcapacity⟩
  · obtain ⟨room, hdata, _⟩ := h.stored hcapacity
    have hwhole : vec.data = some ([] ++ (l.map some ++ room)) := hdata
    have hfree := freeFrom_eq hwhole
    rw [← h.length] at hfree
    refine ⟨{ length := 0, capacity := 0, data := none }, ?_, ?_, rfl⟩
    · rw [strvecClear, if_neg hcapacity]
      simp only [List.length_nil] at hfree
      rw [hfree]
    · exact ⟨rfl, .inl rfl, fun _ => rfl, fun hne => absurd rfl hne⟩

/-- Storing one more string in a vector with room. -/
theorem Represents.push (h : Represents vec l) (hroom : vec.length < vec.capacity)
    (hfew : l.length + 1 < 4294967296) :
    ∃ vec', vec.store vec.length (some s) = some vec' ∧ vec'.capacity = vec.capacity ∧
      Represents { vec' with length := asUnsigned (vec'.length + 1) } (l ++ [s]) := by
  have hcapacity : vec.capacity ≠ 0 := Nat.ne_of_gt (Nat.zero_lt_of_lt hroom)
  obtain ⟨room, hdata, hsize⟩ := h.stored hcapacity
  rw [h.length] at hroom
  cases room with
  | nil =>
      rw [List.length_nil] at hsize
      omega
  | cons element room =>
      have hstore := store_append hdata (some s)
      rw [List.length_map, ← h.length] at hstore
      refine ⟨_, hstore, rfl, ?_, h.capacity, fun hzero => absurd hzero hcapacity, fun _ => ?_⟩
      · change asUnsigned (vec.length + 1) = _
        rw [List.length_append, List.length_singleton, h.length, asUnsigned]
        omega
      · refine ⟨room, ?_, ?_⟩
        · rw [List.map_append, List.append_assoc]
          rfl
        · rw [List.length_append, List.length_singleton]
          rw [List.length_cons] at hsize
          change _ = vec.capacity
          omega

/-- A null pointer in the room behind the strings changes nothing. -/
theorem Represents.pushNull (h : Represents vec l) (hroom : vec.length < vec.capacity) :
    ∃ vec', vec.store vec.length none = some vec' ∧ vec'.capacity = vec.capacity ∧
      Represents vec' l := by
  have hcapacity : vec.capacity ≠ 0 := Nat.ne_of_gt (Nat.zero_lt_of_lt hroom)
  obtain ⟨room, hdata, hsize⟩ := h.stored hcapacity
  rw [h.length] at hroom
  cases room with
  | nil =>
      rw [List.length_nil] at hsize
      omega
  | cons element room =>
      have hstore := store_append hdata none
      rw [List.length_map, ← h.length] at hstore
      exact ⟨_, hstore, rfl, h.length, h.capacity, h.cleared, fun _ => ⟨none :: room, rfl, hsize⟩⟩

/-- A full vector that is not cleared is expanded to twice its capacity. -/
theorem Represents.expand (h : Represents vec l) (hcapacity : vec.capacity ≠ 0)
    (hfew : l.length < 2147483648) :
    ∃ vec', expand true vec = some vec' ∧ Represents vec' l ∧ vec'.length < vec'.capacity := by
  by_cases hfull : vec.length = vec.capacity
  · obtain ⟨room, hdata, hsize⟩ := h.stored hcapacity
    have hwrap : ∀ n : Nat, n = 2 * l.length → asUnsigned n = n := by
      intro n hn
      rw [asUnsigned]
      omega
    have hlength := h.length
    have hdouble : asUnsigned (2 * vec.capacity) = 2 * vec.capacity :=
      hwrap (2 * vec.capacity) (by omega)
    have hdouble' : asUnsigned (vec.capacity * 2) = vec.capacity * 2 :=
      hwrap (vec.capacity * 2) (by omega)
    have hroom : room = [] := List.eq_nil_of_length_eq_zero (by omega)
    subst hroom
    rw [List.append_nil] at hdata
    refine ⟨_, by rw [StringVector.expand, if_pos hfull, if_pos rfl], ?_, ?_⟩
    · refine ⟨h.length, .inr ?_, fun hzero => ?_, fun _ => ?_⟩
      · change Doubled (asUnsigned (vec.capacity * 2))
        obtain ⟨k, hk⟩ := h.capacity.resolve_left hcapacity
        refine ⟨k + 1, ?_⟩
        rw [hdouble', hk, Nat.pow_succ, Nat.mul_assoc]
      · change asUnsigned (vec.capacity * 2) = 0 at hzero
        omega
      · refine ⟨List.replicate vec.capacity none, ?_, ?_⟩
        · change some (List.take _ (vec.data.getD []) ++ List.replicate _ none) = _
          rw [hdata, Option.getD_some, List.length_map, hdouble,
            List.take_of_length_le (by rw [List.length_map]; omega)]
          congr 3
          omega
        · change _ = asUnsigned (vec.capacity * 2)
          rw [List.length_replicate, hdouble']
          omega
    · change vec.length < asUnsigned (vec.capacity * 2)
      omega
  · refine ⟨vec, by rw [StringVector.expand, if_neg hfull], h, ?_⟩
    exact Nat.lt_of_le_of_ne h.bounded hfull

theorem Represents.expandAny (h : Represents vec l) (hcapacity : vec.capacity ≠ 0)
    (hfew : l.length < 2147483648) (realloc : Bool) :
    (realloc = false ∧ StringVector.expand realloc vec = none) ∨
      ∃ vec', StringVector.expand realloc vec = some vec' ∧ Represents vec' l ∧
        vec'.length < vec'.capacity := by
  cases realloc with
  | true => exact .inr (h.expand hcapacity hfew)
  | false =>
      rw [StringVector.expand]
      by_cases hfull : vec.length = vec.capacity
      · exact .inl ⟨rfl, if_pos hfull⟩
      · exact .inr ⟨vec, if_neg hfull, h, Nat.lt_of_le_of_ne h.bounded hfull⟩

/-- A cleared vector is initialised again. -/
theorem Represents.reinit (h : Represents vec l) {malloc : Bool}
    (hmalloc : vec.capacity = 0 → malloc = true) :
    ∃ start, (if vec.capacity = 0 then strvecInit malloc else (vec, 0)) = (start, 0) ∧
      Represents start l ∧ start.capacity ≠ 0 := by
  by_cases hzero : vec.capacity = 0
  · refine ⟨(strvecInit true).1, ?_, ?_, nofun⟩
    · rw [if_pos hzero, hmalloc hzero]
      rfl
    · rw [h.cleared hzero]
      exact represents_init
  · exact ⟨vec, by rw [if_neg hzero], h, hzero⟩

/-- When an allocation after the first one fails, the vector stands for the list it stood for. -/
theorem Represents.addAny (h : Represents vec l) (hfew : l.length + 1 < 2147483648)
    (allocs : Allocs) (hinit : vec.capacity = 0 → allocs.init = true) (s : String) :
    ∃ vec' result, strvecAdd allocs vec s = some (vec', result) ∧ vec'.capacity ≠ 0 ∧
      ((result = 0 ∧ Represents vec' (l ++ [s])) ∨
        (result = -1 ∧ ¬ (allocs.realloc = true ∧ allocs.string = true) ∧
          Represents vec' l)) := by
  obtain ⟨start, hstart, hrep, hcapacity⟩ := h.reinit hinit
  simp only [strvecAdd, hstart]
  rw [if_neg (by decide)]
  obtain ⟨hrealloc, hexpand⟩ | ⟨grown, hexpand, hrep', hroom⟩ :=
    hrep.expandAny hcapacity (by omega) allocs.realloc
  · rw [hexpand]
    refine ⟨start, -1, rfl, hcapacity, .inr ⟨rfl, ?_, hrep⟩⟩
    intro hboth
    rw [hrealloc] at hboth
    cases hboth.1
  · have hpositive : grown.capacity ≠ 0 := Nat.ne_of_gt (Nat.zero_lt_of_lt hroom)
    rw [hexpand]
    cases hstring : allocs.string with
    | true =>
        obtain ⟨vec', hstore, hkept, hpushed⟩ := hrep'.push hroom (by omega)
        refine ⟨{ vec' with length := asUnsigned (vec'.length + 1) }, 0, ?_, hkept ▸ hpositive,
          .inl ⟨rfl, hpushed⟩⟩
        simp only [if_true, hstore]
    | false =>
        obtain ⟨vec', hstore, hkept, hsame⟩ := hrep'.pushNull hroom
        refine ⟨vec', -1, ?_, hkept ▸ hpositive, .inr ⟨rfl, ?_, hsame⟩⟩
        · simp only [Bool.false_eq_true, if_false, hstore]
        · intro hboth
          cases hboth.2

theorem Represents.add (h : Represents vec l) (hfew : l.length + 1 < 2147483648) :
    ∃ vec', strvecAdd .succeed vec s = some (vec', 0) ∧ Represents vec' (l ++ [s]) := by
  obtain ⟨vec', result, hadd, _, ⟨hresult, hrep⟩ | ⟨_, hfailed, _⟩⟩ :=
    h.addAny hfew .succeed (fun _ => rfl) s
  · rw [hresult] at hadd
    exact ⟨vec', hadd, hrep⟩
  · exact absurd ⟨rfl, rfl⟩ hfailed

/-! ### Reading a vector -/

theorem Represents.get (h : Represents vec l) (i : Nat) : strvecGet vec i = some l[i]? := by
  rw [strvecGet, h.length]
  split
  · next hout => rw [List.getElem?_eq_none hout]
  · next hin =>
      have hi := Nat.lt_of_not_le hin
      rw [h.element hi, List.getElem?_eq_getElem hi]
      rfl

/-- The index of the first occurrence, or `-1`. -/
def FirstIndex (l : List String) (s : String) (index : Int) : Prop :=
  (index = -1 ∧ s ∉ l) ∨ ∃ i : Nat, index = i ∧ l[i]? = some s ∧ ∀ j < i, l[j]? ≠ some s

/-- The index of the last occurrence, or `-1`. -/
def LastIndex (l : List String) (s : String) (index : Int) : Prop :=
  (index = -1 ∧ s ∉ l) ∨ ∃ i : Nat, index = i ∧ l[i]? = some s ∧ ∀ j > i, l[j]? ≠ some s

theorem not_mem_of_getElem? (h : ∀ i < l.length, l[i]? ≠ some s) : s ∉ l := by
  intro hmem
  obtain ⟨i, hi, hget⟩ := List.getElem_of_mem hmem
  exact h i hi (by rw [List.getElem?_eq_getElem hi, hget])

/-- Induction on the elements left; none of those before is the string. -/
theorem Represents.findFrom (h : Represents vec l) (count : Nat) :
    ∀ i, i + count = l.length → (∀ j < i, l[j]? ≠ some s) →
      ∃ index, findFrom vec s i count = some index ∧ FirstIndex l s index := by
  induction count with
  | zero =>
      intro i hi hbefore
      refine ⟨-1, rfl, .inl ⟨rfl, not_mem_of_getElem? ?_⟩⟩
      rw [← hi]
      exact hbefore
  | succ count ih =>
      intro i hi hbefore
      have hin : i < l.length := by omega
      have hread := h.element hin
      have hget : l[i]? = some (l.get ⟨i, hin⟩) := List.getElem?_eq_getElem hin
      simp only [StringVector.findFrom, hread]
      by_cases heq : l.get ⟨i, hin⟩ = s
      · rw [if_pos heq]
        rw [heq] at hget
        exact ⟨i, rfl, .inr ⟨i, rfl, hget, hbefore⟩⟩
      · rw [if_neg heq]
        refine ih (i + 1) (by omega) ?_
        intro j hj
        by_cases hlast : j = i
        · rw [hlast, hget]
          exact fun hsome => heq (Option.some.inj hsome)
        · exact hbefore j (by omega)

theorem Represents.find (h : Represents vec l) (s : String) :
    ∃ index, strvecFind vec s = some index ∧ FirstIndex l s index := by
  rw [strvecFind, h.length]
  exact h.findFrom l.length 0 (Nat.zero_add _) fun j hj => absurd hj (Nat.not_lt_zero j)

/-- Downwards the loop is the one over the list. -/
theorem Represents.findLastBelow (h : Represents vec l) {i : Nat} (hi : i ≤ l.length) :
    findLastBelow vec s i = some (Swish.findLastBelow l s i) := by
  induction i with
  | zero => rfl
  | succ i ih =>
      have hget : l[i]? = some (l.get ⟨i, hi⟩) := List.getElem?_eq_getElem hi
      simp only [StringVector.findLastBelow, Swish.findLastBelow, h.element hi, hget,
        Option.some.injEq]
      by_cases heq : l.get ⟨i, hi⟩ = s
      · rw [if_pos heq, if_pos heq]
      · rw [if_neg heq, if_neg heq]
        exact ih (Nat.le_of_succ_le hi)

theorem lastIndex_findLastBelow (l : List String) (s : String) (i : Nat)
    (hafter : ∀ j ≥ i, l[j]? ≠ some s) : LastIndex l s (Swish.findLastBelow l s i) := by
  induction i with
  | zero => exact .inl ⟨rfl, not_mem_of_getElem? fun j _ => hafter j (Nat.zero_le j)⟩
  | succ i ih =>
      rw [Swish.findLastBelow]
      by_cases heq : l[i]? = some s
      · rw [if_pos heq]
        exact .inr ⟨i, rfl, heq, hafter⟩
      · rw [if_neg heq]
        refine ih fun j hj => ?_
        by_cases hlast : j = i
        · rw [hlast]
          exact heq
        · exact hafter j (by omega)

/-- The length less one is wrapped around twice when the vector is empty. -/
theorem asInt_pred {n : Nat} (h : n < 2147483648) :
    asInt (asUnsigned ((n : Int) - 1)) = (n : Int) - 1 := by
  cases n with
  | zero => rfl
  | succ n =>
      have hsame : asUnsigned (((n + 1 : Nat) : Int) - 1) = n := by
        rw [asUnsigned]
        omega
      rw [hsame, asInt, if_pos (Nat.lt_of_succ_lt h)]
      omega

theorem Represents.findLast_eq (h : Represents vec l) (hfew : l.length < 2147483648) (s : String) :
    strvecFindLast vec s = some (Swish.strvecFindLast l s) := by
  have hstart : (asInt (asUnsigned ((l.length : Int) - 1)) + 1).toNat = l.length := by
    rw [asInt_pred hfew]
    omega
  rw [strvecFindLast, h.length, hstart, h.findLastBelow (Nat.le_refl _)]
  rfl

theorem Represents.findLast (h : Represents vec l) (hfew : l.length < 2147483648) (s : String) :
    ∃ index, strvecFindLast vec s = some index ∧ LastIndex l s index := by
  refine ⟨_, h.findLast_eq hfew s, lastIndex_findLastBelow l s l.length fun j hj => ?_⟩
  rw [List.getElem?_eq_none hj]
  exact nofun

theorem Represents.countFrom (h : Represents vec l) (count : Nat) :
    ∀ i occurrences, i + count = l.length →
      countFrom vec s i occurrences count = some (occurrences + (l.drop i).count s) := by
  induction count with
  | zero =>
      intro i occurrences hi
      rw [List.drop_of_length_le (by omega)]
      rfl
  | succ count ih =>
      intro i occurrences hi
      have hin : i < l.length := by omega
      simp only [StringVector.countFrom, h.element hin]
      rw [ih (i + 1) _ (by omega), List.drop_eq_getElem_cons hin, List.count_cons]
      rw [List.get_eq_getElem]
      by_cases heq : l[i] = s
      · rw [if_pos heq, if_pos (beq_iff_eq.mpr heq)]
        exact congrArg some (by omega)
      · rw [if_neg heq, if_neg fun hbeq => heq (beq_iff_eq.mp hbeq)]
        rfl

theorem Represents.numOccurrences (h : Represents vec l) (s : String) :
    strvecNumOccurrences vec s = some (l.count s) := by
  rw [strvecNumOccurrences, h.length, h.countFrom l.length 0 0 (Nat.zero_add _), List.drop_zero,
    Nat.zero_add]

/-! ### Slices -/

/-- Induction on the elements left. Where an allocation fails, those before it have been added. -/
theorem Represents.addFromAny {src : StrVec} (h : Represents src l) (allocs : Nat → Allocs)
    (count : Nat) : ∀ (i : Nat) (dest : StrVec) (added : List String), Represents dest added →
      dest.capacity ≠ 0 → count ≤ l.length - i → added.length + count < 2147483648 →
        ∃ dest' result, addFrom allocs src dest i count = some (dest', result) ∧
          ((result = 0 ∧ Represents dest' (added ++ (l.drop i).take count)) ∨
            (result = -1 ∧ (∃ k, ¬ ((allocs k).realloc = true ∧ (allocs k).string = true)) ∧
              ∃ k < count, Represents dest' (added ++ (l.drop i).take k))) := by
  induction count with
  | zero =>
      intro i dest added hdest _ _ _
      refine ⟨dest, 0, rfl, .inl ⟨rfl, ?_⟩⟩
      rw [List.take_zero, List.append_nil]
      exact hdest
  | succ count ih =>
      intro i dest added hdest hcapacity hi hfew
      have hin : i < l.length := by omega
      have htake : ∀ k, added ++ (l.drop i).take (k + 1) =
          added ++ [l[i]] ++ (l.drop (i + 1)).take k := by
        intro k
        rw [List.drop_eq_getElem_cons hin, List.take_succ_cons, List.append_cons]
      obtain ⟨next, result, hadd, hnext, ⟨hresult, hrep⟩ | ⟨hresult, hfailed, hrep⟩⟩ :=
        hdest.addAny (by omega) (allocs i) (fun hzero => absurd hzero hcapacity) l[i]
      · have hsize : (added ++ [l[i]]).length + count < 2147483648 := by
          rw [List.length_append, List.length_singleton]
          omega
        obtain ⟨dest', result', hrest, hdone⟩ := ih (i + 1) next _ hrep hnext (by omega) hsize
        refine ⟨dest', result', ?_, ?_⟩
        · simp only [addFrom, h.get, List.getElem?_eq_getElem hin, hadd, hresult]
          exact hrest
        · rw [htake]
          cases hdone with
          | inl hdone => exact .inl hdone
          | inr hdone =>
              obtain ⟨hminus, hfails, k, hk, hpart⟩ := hdone
              refine .inr ⟨hminus, hfails, k + 1, Nat.succ_lt_succ hk, ?_⟩
              rw [htake]
              exact hpart
      · refine ⟨next, -1, ?_, .inr ⟨rfl, ⟨i, hfailed⟩, 0, Nat.succ_pos count, ?_⟩⟩
        · simp only [addFrom, h.get, List.getElem?_eq_getElem hin, hadd, hresult]
          rfl
        · rw [List.take_zero, List.append_nil]
          exact hrep

/-- The index that ends a slice, after the comparison of `end` with the length. -/
def sliceStop (length : Nat) (stop : Int) : Int :=
  if asUnsigned stop > length then asInt length else stop

/-- The strings of a slice, whatever the length. -/
def sliced (l : List String) (start stop : Int) : List String :=
  let first := if start < 0 then 0 else start
  (l.drop first.toNat).take (sliceStop l.length stop - first).toNat

theorem sliceStop_le {n : Nat} (hn : n < 4294967296) {stop : Int} (hlow : -2147483648 ≤ stop)
    (hhigh : stop < 2147483648) : sliceStop n stop ≤ n ∧ sliceStop n stop < 2147483648 := by
  rw [sliceStop]
  split
  · rw [asInt]
    split <;> omega
  · next hsmall =>
      rw [asUnsigned] at hsmall
      omega

/-- A slice whose array can be allocated. Where a later allocation fails, it stands for the strings
before it. -/
theorem Represents.sliceAny (h : Represents vec l) (hlength : l.length < 4294967296)
    (allocs : Nat → Allocs) (start : Int) {stop : Int} (hlow : -2147483648 ≤ stop)
    (hhigh : stop < 2147483648) :
    ∃ dest result, strvecSlice true allocs vec start stop = some (dest, result) ∧
      ((result = 0 ∧ Represents dest (sliced l start stop)) ∨
        (result = -1 ∧ (∃ k, ¬ ((allocs k).realloc = true ∧ (allocs k).string = true)) ∧
          ∃ k < (sliced l start stop).length,
            Represents dest ((sliced l start stop).take k))) := by
  obtain ⟨hinside, hsmall⟩ := sliceStop_le hlength hlow hhigh
  generalize hfirst : (if start < 0 then 0 else start) = first
  have hpositive : 0 ≤ first := by
    rw [← hfirst]
    split <;> omega
  have hsliced : sliced l start stop =
      (l.drop first.toNat).take (sliceStop l.length stop - first).toNat := by
    rw [← hfirst]
    rfl
  have hcount : (sliceStop l.length stop - first).toNat ≤ l.length - first.toNat := by omega
  obtain ⟨dest, result, hadd, hdone⟩ := h.addFromAny allocs (sliceStop l.length stop - first).toNat
    first.toNat (strvecInit true).1 [] represents_init nofun hcount (by
      rw [List.length_nil]
      omega)
  refine ⟨dest, result, ?_, ?_⟩
  · simp only [strvecSlice, h.length, hfirst]
    exact hadd
  · rw [hsliced]
    cases hdone with
    | inl hdone => exact .inl hdone
    | inr hdone =>
        obtain ⟨hminus, hfails, k, hk, hpart⟩ := hdone
        refine .inr ⟨hminus, hfails, k, ?_, ?_⟩
        · rw [List.length_take, List.length_drop]
          omega
        · rw [List.take_take, Nat.min_eq_left (Nat.le_of_lt hk)]
          exact hpart

theorem Represents.slice (h : Represents vec l) (hlength : l.length < 4294967296) (start : Int)
    {stop : Int} (hlow : -2147483648 ≤ stop) (hhigh : stop < 2147483648) :
    ∃ dest, strvecSlice true (fun _ => .succeed) vec start stop = some (dest, 0) ∧
      Represents dest (sliced l start stop) := by
  obtain ⟨dest, result, hslice, ⟨hresult, hrep⟩ | ⟨_, ⟨k, hfailed⟩, _⟩⟩ :=
    h.sliceAny hlength (fun _ => .succeed) start hlow hhigh
  · rw [hresult] at hslice
    exact ⟨dest, hslice, hrep⟩
  · exact absurd ⟨rfl, rfl⟩ hfailed

/-- Where indices fit, this is the slice that the pipeline is given. -/
theorem Represents.slice_eq (h : Represents vec l) (hfew : l.length < 2147483648) (start : Int)
    {stop : Int} (hlow : -2147483648 ≤ stop) (hhigh : stop < 2147483648) :
    ∃ dest, strvecSlice true (fun _ => .succeed) vec start stop = some (dest, 0) ∧
      Represents dest (Swish.strvecSlice l start stop) := by
  have hsame : sliced l start stop = Swish.strvecSlice l start stop := by
    rw [sliced, Swish.strvecSlice, sliceStop, asInt, if_pos hfew]
  exact hsame ▸ h.slice (Nat.lt_trans hfew (by decide)) start hlow hhigh

/-! ### Sequences of operations -/

inductive Op where
  | init
  | add (s : String)
  | take (n : Nat)
  | clear

/-- One operation, with allocations that succeed. -/
def Op.run (vec : StrVec) : Op → Option StrVec
  | .init => some (strvecInit true).1
  | .add s => match strvecAdd .succeed vec s with
    | none => none
    | some (vec, _) => some vec
  | .take n => strvecTake vec n
  | .clear => strvecClear vec

/-- What the operation does to the list. -/
def Op.onList (l : List String) : Op → List String
  | .init => []
  | .add s => l ++ [s]
  | .take n => l.take n
  | .clear => []

theorem Represents.run (h : Represents vec l) (op : Op)
    (hfew : (op.onList l).length < 2147483648) :
    ∃ vec', op.run vec = some vec' ∧ Represents vec' (op.onList l) := by
  cases op with
  | init => exact ⟨_, rfl, represents_init⟩
  | add s =>
      rw [Op.onList, List.length_append, List.length_singleton] at hfew
      obtain ⟨vec', hadd, hrep⟩ := h.add hfew
      exact ⟨vec', by rw [Op.run, hadd], hrep⟩
  | take n =>
      obtain ⟨vec', htake, hrep, _⟩ := h.take n
      exact ⟨vec', htake, hrep⟩
  | clear =>
      obtain ⟨vec', hclear, hrep, _⟩ := h.clear
      exact ⟨vec', hclear, hrep⟩

theorem Represents.runs {ops : List Op} (h : Represents vec l)
    (hfew : ∀ before, before <+: ops → (before.foldl Op.onList l).length < 2147483648) :
    ∃ vec', perform Op.run vec ops = some vec' ∧ Represents vec' (ops.foldl Op.onList l) := by
  induction ops generalizing vec l with
  | nil => exact ⟨vec, rfl, h⟩
  | cons op ops ih =>
      obtain ⟨next, hrun, hrep⟩ := h.run op (hfew [op] ⟨ops, rfl⟩)
      obtain ⟨vec', hruns, hrep'⟩ := ih hrep fun before hbefore =>
        hfew (op :: before) (List.cons_prefix_cons.mpr ⟨rfl, hbefore⟩)
      refine ⟨vec', ?_, hrep'⟩
      rw [perform, hrun]
      exact hruns

def listOf (ops : List Op) : List String :=
  ops.foldl Op.onList []

/-- A vector that was initialised and then went through any operations stands for the list they
make, and is read as that list. -/
theorem strvec_represents (ops : List Op)
    (hfew : ∀ before, before <+: ops → (listOf before).length < 2147483648) :
    ∃ vec, perform Op.run (strvecInit true).1 ops = some vec ∧ Represents vec (listOf ops) ∧
      vec.length ≤ vec.capacity ∧ (vec.capacity = 0 ∨ Doubled vec.capacity) ∧
      (∀ i, strvecGet vec i = some (listOf ops)[i]?) ∧
      ∀ s, (∃ index, strvecFind vec s = some index ∧ FirstIndex (listOf ops) s index) ∧
        (∃ index, strvecFindLast vec s = some index ∧ LastIndex (listOf ops) s index) ∧
        strvecNumOccurrences vec s = some ((listOf ops).count s) := by
  obtain ⟨vec, hruns, hrep⟩ := represents_init.runs hfew
  refine ⟨vec, hruns, hrep, hrep.bounded, hrep.capacity, hrep.get, ?_⟩
  intro s
  exact ⟨hrep.find s, hrep.findLast (hfew ops (List.prefix_refl ops)) s, hrep.numOccurrences s⟩

/-- An operation makes the list longer by one string at most. -/
theorem length_onList_le (l : List String) (op : Op) : (op.onList l).length ≤ l.length + 1 := by
  cases op with
  | init => exact Nat.zero_le _
  | add s => exact Nat.le_of_eq List.length_append
  | take n => exact Nat.le_succ_of_le (List.length_take_le' n l)
  | clear => exact Nat.zero_le _

theorem length_listOf_le (ops : List Op) : (listOf ops).length ≤ ops.length := by
  suffices gen : ∀ l : List String, (ops.foldl Op.onList l).length ≤ l.length + ops.length from
    Nat.le_trans (gen []) (Nat.le_of_eq (Nat.zero_add _))
  induction ops with
  | nil => exact fun l => Nat.le_refl _
  | cons op ops ih =>
      intro l
      have hop := length_onList_le l op
      have hrest := ih (op.onList l)
      rw [List.foldl_cons, List.length_cons]
      omega

def sampleOps : List Op :=
  [.add "a", .add "|", .add "b", .add "|", .add "c", .take 4, .clear, .add "x", .add "y", .add "x"]

theorem strvec_represents_sample : ∃ vec, perform Op.run (strvecInit true).1 sampleOps = some vec ∧
    vec.capacity = 4 ∧ strvecGet vec 1 = some (some "y") ∧ strvecGet vec 3 = some none ∧
    strvecNumOccurrences vec "x" = some 2 := by
  have hfew : ∀ before, before <+: sampleOps → (listOf before).length < 2147483648 := by
    intro before hbefore
    have hshort : before.length ≤ 10 := hbefore.length_le
    have hlength := length_listOf_le before
    omega
  obtain ⟨vec, hruns, _, _, _, hget, hread⟩ := strvec_represents sampleOps hfew
  refine ⟨vec, hruns, ?_, hget 1, hget 3, (hread "x").2.2⟩
  cases hruns
  rfl

end UmnProjects.Swish.StringVector
