import Mathlib.Algebra.Order.Field.Basic
import Mathlib.Tactic.Positivity
import UmnProjects.Foundations.Tables

/-!
`BoundingBox` and `GraphBase::GetBoundingBox`. Where a position has fewer coordinates than
the box, the ones it lacks read as zero.
-/
namespace UmnProjects.Viewer
open Tables

structure BoundingBox (K : Type) where
  min : List K
  max : List K

section

variable {K : Type} [Field K] [LinearOrder K]

/-- One coordinate of a normalized point; an extent that is too small is not divided by. -/
def share (lo hi v : K) : K := if hi - lo < 1 / (100000 : ℕ) then 0 else (v - lo) / (hi - lo)

def BoundingBox.normalize (bb : BoundingBox K) (point : List K) : List K :=
  point.mapIdx fun i p => share (bb.min.getD i 0) (bb.max.getD i 0) p

/-- One round of the loop over the nodes. -/
def BoundingBox.extend (bb : BoundingBox K) (pos : List K) : BoundingBox K where
  min := bb.min.mapIdx fun j m => match pos[j]? with
    | some p => if m > p then p else m
    | none => m
  max := bb.max.mapIdx fun j m => match pos[j]? with
    | some p => if m < p then p else m
    | none => m

def getBoundingBox : List (List K) → BoundingBox K
  | [] => ⟨[], []⟩
  | pos :: rest => rest.foldl BoundingBox.extend ⟨pos, pos⟩

/-- No coordinate of the position lies outside the box. -/
def BoundingBox.Holds (bb : BoundingBox K) (pos : List K) : Prop :=
  ∀ i, bb.min.getD i 0 ≤ pos.getD i 0 ∧ pos.getD i 0 ≤ bb.max.getD i 0

variable {bb : BoundingBox K} {pos : List K} {lo hi v : K} {i : ℕ}

theorem getD_normalize (bb : BoundingBox K) (h : i < pos.length) :
    (bb.normalize pos).getD i 0 = share (bb.min.getD i 0) (bb.max.getD i 0) (pos.getD i 0) := by
  simp only [BoundingBox.normalize, List.getD_eq_getElem?_getD, List.getElem?_mapIdx,
    List.getElem?_eq_getElem h, Option.map_some, Option.getD_some]

theorem getD_extend (hmin : bb.min.length = pos.length) (hmax : bb.max.length = pos.length)
    (i : ℕ) :
    (bb.extend pos).min.getD i 0 = Min.min (bb.min.getD i 0) (pos.getD i 0) ∧
      (bb.extend pos).max.getD i 0 = Max.max (bb.max.getD i 0) (pos.getD i 0) := by
  by_cases hi : i < pos.length
  · have hi' : i < bb.min.length := hmin ▸ hi
    have hi'' : i < bb.max.length := hmax ▸ hi
    simp only [BoundingBox.extend, List.getD_eq_getElem?_getD, List.getElem?_mapIdx,
      List.getElem?_eq_getElem hi, List.getElem?_eq_getElem hi', List.getElem?_eq_getElem hi'',
      Option.map_some, Option.getD_some]
    constructor
    · split
      · next hgt => exact (min_eq_right hgt.le).symm
      · next hle => exact (min_eq_left (not_lt.mp hle)).symm
    · split
      · next hlt => exact (max_eq_right hlt.le).symm
      · next hle => exact (max_eq_left (not_lt.mp hle)).symm
  · have hnone : pos[i]? = none := List.getElem?_eq_none (by omega)
    have hnone' : bb.min[i]? = none := List.getElem?_eq_none (by omega)
    have hnone'' : bb.max[i]? = none := List.getElem?_eq_none (by omega)
    simp only [BoundingBox.extend, List.getD_eq_getElem?_getD, List.getElem?_mapIdx, hnone, hnone',
      hnone'', Option.map_none, Option.getD_none, min_self, max_self, and_self]

/-- Positions with the same number of coordinates all lie in their box. -/
theorem holds_getBoundingBox {positions : List (List K)} {n : ℕ}
    (h : ∀ pos ∈ positions, pos.length = n) :
    ∀ pos ∈ positions, (getBoundingBox positions).Holds pos := by
  cases positions with
  | nil => simp
  | cons first rest =>
      have hfirst := h first List.mem_cons_self
      have hloop : ((rest.foldl BoundingBox.extend ⟨first, first⟩).min.length = n ∧
          (rest.foldl BoundingBox.extend ⟨first, first⟩).max.length = n) ∧
          ∀ pos ∈ first :: rest, (rest.foldl BoundingBox.extend ⟨first, first⟩).Holds pos := by
        refine foldl_invariant (fun done (bb : BoundingBox K) =>
          (bb.min.length = n ∧ bb.max.length = n) ∧ ∀ pos ∈ first :: done, bb.Holds pos) ?_ ?_
        · refine ⟨⟨hfirst, hfirst⟩, fun pos hpos i => ?_⟩
          rw [List.mem_singleton.mp hpos]
          exact ⟨le_rfl, le_rfl⟩
        · intro done pos after bb hsplit hbb
          obtain ⟨⟨hmin, hmax⟩, hholds⟩ := hbb
          have hpos : pos.length = n := by
            refine h pos (List.mem_cons_of_mem _ ?_)
            rw [hsplit]
            exact List.mem_append_right _ List.mem_cons_self
          refine ⟨⟨?_, ?_⟩, fun other hother i => ?_⟩
          · rw [BoundingBox.extend, List.length_mapIdx, hmin]
          · rw [BoundingBox.extend, List.length_mapIdx, hmax]
          · obtain ⟨hlow, hhigh⟩ :=
              getD_extend (hmin.trans hpos.symm) (hmax.trans hpos.symm) i
            rw [hlow, hhigh]
            rw [← List.cons_append] at hother
            cases List.mem_append.mp hother with
            | inl hold =>
                obtain ⟨hlo, hhi⟩ := hholds other hold i
                exact ⟨(min_le_left _ _).trans hlo, hhi.trans (le_max_left _ _)⟩
            | inr hnew =>
                rw [List.mem_singleton.mp hnew]
                exact ⟨min_le_right _ _, le_max_right _ _⟩
      exact hloop.2

variable [IsStrictOrderedRing K]

theorem share_nonneg (h : lo ≤ v) : 0 ≤ share lo hi v := by
  rw [share]
  split
  · exact le_rfl
  · next hextent =>
      have hpos : (0 : K) < 1 / (100000 : ℕ) := by positivity
      exact div_nonneg (sub_nonneg.mpr h) (hpos.le.trans (not_lt.mp hextent))

theorem share_le_one (h : v ≤ hi) : share lo hi v ≤ 1 := by
  rw [share]
  split
  · exact zero_le_one
  · next hextent =>
      have hpos : (0 : K) < hi - lo := lt_of_lt_of_le (by positivity) (not_lt.mp hextent)
      exact (div_le_one hpos).mpr (sub_le_sub_right h lo)

/-- Only what lies on the upper border is normalized to one. -/
theorem share_lt_one_iff : share lo hi v < 1 ↔ hi - lo < 1 / (100000 : ℕ) ∨ v < hi := by
  rw [share]
  split
  · next hextent => exact iff_of_true zero_lt_one (.inl hextent)
  · next hextent =>
      have hpos : (0 : K) < hi - lo := lt_of_lt_of_le (by positivity) (not_lt.mp hextent)
      rw [div_lt_one hpos, sub_lt_sub_iff_right]
      exact (or_iff_right hextent).symm

end

end UmnProjects.Viewer
