import UmnProjects.Swish.StringVector

/-!
Which slices `strvec_slice` makes. A negative `end` is compared as an unsigned number, which is
larger than the length, so the slice goes on to the end of the vector.
-/
namespace UmnProjects.Swish.StringVector

variable {vec : StrVec} {l : List String}

/-- The elements whose index is in the bounds, in order. -/
def between (l : List String) (start stop : Int) : List String :=
  (l.zipIdx.filter fun p => max start 0 ≤ p.2 ∧ p.2 < min stop l.length).map Prod.fst

/-- `strvec_slice` succeeds, and its vector stands for the elements in the bounds. -/
def Slices (vec : StrVec) (l : List String) (start stop : Int) : Prop :=
  ∃ dest, strvecSlice true (fun _ => .succeed) vec start stop = some (dest, 0) ∧
    Represents dest (between l start stop)

/-- Indices from `k` on. -/
theorem filter_zipIdx (a b k : Nat) :
    ((l.zipIdx k).filter fun p => a ≤ p.2 ∧ p.2 < b).map Prod.fst =
      (l.drop (a - k)).take (b - max a k) := by
  induction l generalizing k with
  | nil => simp
  | cons s l ih =>
      rw [List.zipIdx_cons, List.filter_cons]
      by_cases ha : a ≤ k
      · have hrest := ih (k + 1)
        rw [Nat.sub_eq_zero_of_le (Nat.le_succ_of_le ha), List.drop_zero,
          Nat.max_eq_right (Nat.le_succ_of_le ha)] at hrest
        rw [Nat.sub_eq_zero_of_le ha, List.drop_zero, Nat.max_eq_right ha]
        by_cases hb : k < b
        · rw [if_pos (decide_eq_true ⟨ha, hb⟩), List.map_cons, hrest,
            show b - k = b - (k + 1) + 1 by omega, List.take_succ_cons]
        · rw [if_neg (by simp [hb]), hrest, Nat.sub_eq_zero_of_le (Nat.le_of_not_lt hb),
            Nat.sub_eq_zero_of_le (by omega), List.take_zero, List.take_zero]
      · rw [if_neg (by simp [ha]), ih (k + 1), show a - k = a - (k + 1) + 1 by omega,
          List.drop_succ_cons]
        congr 1
        omega

theorem between_eq (start stop : Int) :
    between l start stop =
      (l.drop (max start 0).toNat).take (min stop l.length - max start 0).toNat := by
  have hbounds : (fun p : String × Nat => decide (max start 0 ≤ p.2 ∧ p.2 < min stop l.length)) =
      fun p => decide ((max start 0).toNat ≤ p.2 ∧ p.2 < (min stop l.length).toNat) := by
    funext p
    refine decide_eq_decide.mpr ?_
    omega
  rw [between, hbounds, filter_zipIdx, Nat.sub_zero]
  congr 1
  omega

/-- The two ends agree unless `end` is negative, with strings left and a length that fits in an
`int`. -/
theorem sliced_eq_between_iff (hlength : l.length < 4294967296) (start : Int) {stop : Int}
    (hlow : -2147483648 ≤ stop) (hhigh : stop < 2147483648) :
    sliced l start stop = between l start stop ↔
      0 ≤ stop ∨ (l.length : Int) ≤ max start 0 ∨ 2147483648 ≤ l.length := by
  have hfirst : (if start < 0 then 0 else start) = max start 0 := by
    split <;> omega
  rw [between_eq, sliced, hfirst, List.take_eq_take_iff, List.length_drop, sliceStop, asInt,
    asUnsigned]
  split
  · split <;> omega
  · omega

/-- Slices are those between the bounds if and only if `end` is not negative, or no string is left
behind the start, or the length does not fit in an `int`. -/
theorem strvecSlice_iff (h : Represents vec l) (hlength : l.length < 4294967296) (start : Int)
    {stop : Int} (hlow : -2147483648 ≤ stop) (hhigh : stop < 2147483648) :
    Slices vec l start stop ↔
      0 ≤ stop ∨ (l.length : Int) ≤ max start 0 ∨ 2147483648 ≤ l.length := by
  rw [← sliced_eq_between_iff hlength start hlow hhigh]
  obtain ⟨dest, hslice, hrep⟩ := h.slice hlength start hlow hhigh
  constructor
  · intro hslices
    obtain ⟨dest', hslice', hrep'⟩ := hslices
    rw [hslice] at hslice'
    cases hslice'
    exact hrep.unique hrep'
  · intro hsame
    exact ⟨dest, hslice, hsame ▸ hrep⟩

/-- A vector of three strings. -/
def threeStrings : StrVec where
  length := 3
  capacity := 4
  data := some [some "ls", some "-l", some "src", none]

theorem threeStrings_represents : Represents threeStrings ["ls", "-l", "src"] where
  length := rfl
  capacity := .inr ⟨0, rfl⟩
  cleared := nofun
  stored := fun _ => ⟨[none], rfl, rfl⟩

theorem strvecSlice_threeStrings : Slices threeStrings ["ls", "-l", "src"] (-1) 2 ∧
    between ["ls", "-l", "src"] (-1) 2 = ["ls", "-l"] :=
  ⟨(strvecSlice_iff threeStrings_represents (by decide) (-1) (by decide) (by decide)).mpr
    (.inl (by decide)), rfl⟩

/-- With `end` at `-1` nothing is between the bounds, but the slice holds every string. -/
theorem strvecSlice_negative : between ["ls", "-l", "src"] 0 (-1) = [] ∧
    (∃ dest, strvecSlice true (fun _ => .succeed) threeStrings 0 (-1) = some (dest, 0) ∧
      Represents dest ["ls", "-l", "src"]) ∧
    ¬ Slices threeStrings ["ls", "-l", "src"] 0 (-1) := by
  obtain ⟨dest, hslice, hrep⟩ :=
    threeStrings_represents.slice (by decide) 0 (show -2147483648 ≤ (-1 : Int) by decide)
      (by decide)
  have hwhole : sliced ["ls", "-l", "src"] 0 (-1) = ["ls", "-l", "src"] := rfl
  rw [hwhole] at hrep
  refine ⟨rfl, ⟨dest, hslice, hrep⟩, ?_⟩
  intro hslices
  obtain ⟨dest', hslice', hrep'⟩ := hslices
  rw [hslice] at hslice'
  cases hslice'
  exact absurd (hrep.unique hrep') (by decide)

end UmnProjects.Swish.StringVector
