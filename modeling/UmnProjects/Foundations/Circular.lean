import Mathlib.Data.List.Basic

/-!
Circular buffers: `count` slots of an array of length `cap`, read from `start`
onwards and around its end.
-/
namespace UmnProjects.Circular

variable {α : Type}

def contents (slots : Int → α) (cap start : Int) (count : Nat) : List α :=
  (List.range count).map fun (i : Nat) => slots ((start + i) % cap)

/-- Stepping past an index inside the array by a comparison is addition modulo the length. -/
theorem succ_emod {cap i : Int} (h0 : 0 ≤ i) (h1 : i < cap) :
    (i + 1) % cap = if i + 1 = cap then 0 else i + 1 := by
  by_cases h : i + 1 = cap
  · simp [h]
  · rw [if_neg h]
    exact Int.emod_eq_of_lt (by omega) (by omega)

theorem slot_ne {cap start : Int} {i n : Nat} (hi : i < n) (hn : (n : Int) < cap) :
    (start + i) % cap ≠ (start + n) % cap := by
  intro h
  have hz := Int.emod_eq_emod_iff_emod_sub_eq_zero.mp h.symm
  have hd : (start + n) - (start + i) = (n : Int) - i := by omega
  rw [hd, Int.emod_eq_of_lt (by omega) (by omega)] at hz
  omega

theorem contents_congr {slots slots' : Int → α} {cap start : Int} {count : Nat}
    (h : ∀ i : Nat, i < count → slots ((start + i) % cap) = slots' ((start + i) % cap)) :
    contents slots cap start count = contents slots' cap start count := by
  apply List.map_congr_left
  intro i hi
  exact h i (List.mem_range.mp hi)

/-- Writing the slot after the last one appends. -/
theorem contents_push (slots : Int → α) {cap : Int} (start : Int) {count : Nat} (v : α)
    (h : (count : Int) < cap) :
    contents (fun i => if i = (start + count) % cap then v else slots i) cap start (count + 1) =
      contents slots cap start count ++ [v] := by
  have hold : contents (fun i => if i = (start + count) % cap then v else slots i)
      cap start count = contents slots cap start count := by
    apply contents_congr
    intro i hi
    rw [if_neg (slot_ne hi h)]
  unfold contents at hold ⊢
  rw [List.range_succ, List.map_append, hold]
  simp

/-- Moving `start` forward drops the first slot. -/
theorem contents_pop (slots : Int → α) {cap start : Int} (count : Nat)
    (h0 : 0 ≤ start) (h1 : start < cap) :
    contents slots cap start (count + 1) =
      slots start :: contents slots cap ((start + 1) % cap) count := by
  unfold contents
  rw [List.range_succ_eq_map, List.map_cons, List.map_map]
  congr 1
  · simp [Int.emod_eq_of_lt h0 h1]
  · apply List.map_congr_left
    intro i _
    have hi : start + ((i + 1 : Nat) : Int) = start + 1 + i := by omega
    simp only [Function.comp, Nat.succ_eq_add_one, Int.emod_add_emod, hi]

/-- The fields `length`, `readIdx`, `writeIdx` of an array of length `cap` describe the list
`xs`. -/
structure Represents (cap : Int) (slots : Int → α) (length readIdx writeIdx : Int)
    (xs : List α) : Prop where
  length_eq : length = xs.length
  length_le : length ≤ cap
  read_nonneg : 0 ≤ readIdx
  read_lt : readIdx < cap
  write_eq : writeIdx = (readIdx + length) % cap
  contents_eq : contents slots cap readIdx xs.length = xs

namespace Represents

variable {cap : Int} {slots : Int → α} {length readIdx writeIdx : Int} {xs : List α}

theorem empty (slots : Int → α) (h : 0 < cap) : Represents cap slots 0 0 0 [] where
  length_eq := rfl
  length_le := by omega
  read_nonneg := by omega
  read_lt := h
  write_eq := by simp
  contents_eq := rfl

theorem write_bounds (h : Represents cap slots length readIdx writeIdx xs) :
    0 ≤ writeIdx ∧ writeIdx < cap := by
  have hpos : 0 < cap := by have := h.read_nonneg; have := h.read_lt; omega
  rw [h.write_eq]
  exact ⟨Int.emod_nonneg _ (by omega), Int.emod_lt_of_pos _ hpos⟩

theorem push (h : Represents cap slots length readIdx writeIdx xs) (v : α)
    (room : length ≠ cap) :
    Represents cap (fun i => if i = writeIdx then v else slots i) (length + 1) readIdx
      ((writeIdx + 1) % cap) (xs ++ [v]) := by
  have hlen := h.length_eq
  have hle := h.length_le
  refine ⟨?_, by omega, h.read_nonneg, h.read_lt, ?_, ?_⟩
  · simp [hlen]
  · rw [h.write_eq, Int.emod_add_emod, Int.add_assoc]
  · rw [h.write_eq, hlen, List.length_append, List.length_singleton,
      contents_push slots readIdx v (by omega), h.contents_eq]

theorem pop (h : Represents cap slots length readIdx writeIdx xs) (some : length ≠ 0) :
    ∃ rest, xs = slots readIdx :: rest ∧
      Represents cap slots (length - 1) ((readIdx + 1) % cap) writeIdx rest := by
  have hlen := h.length_eq
  have hle := h.length_le
  cases xs with
  | nil => exact absurd hlen some
  | cons x rest =>
      have hpos : 0 < cap := by have := h.read_nonneg; have := h.read_lt; omega
      have hc := h.contents_eq
      rw [List.length_cons, contents_pop slots rest.length h.read_nonneg h.read_lt] at hc
      obtain ⟨hx, hrest⟩ := List.cons.inj hc
      rw [List.length_cons] at hlen
      refine ⟨rest, by rw [hx], by omega, by omega, Int.emod_nonneg _ (by omega),
        Int.emod_lt_of_pos _ hpos, ?_, hrest⟩
      rw [h.write_eq, Int.emod_add_emod]
      congr 1
      omega

end Represents

end UmnProjects.Circular
