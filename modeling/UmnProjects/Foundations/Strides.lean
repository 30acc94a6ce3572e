import Mathlib.Algebra.Order.Round
import Mathlib.Logic.Function.Iterate
import Mathlib.Tactic.Linarith
import Mathlib.Tactic.Ring

/-!
Strides of one length along a line towards its origin. A stride is never shortened, so the
walk can pass over the origin and back again; it arrives where it comes nearer than `r`.
-/
namespace UmnProjects.Strides

variable {K : Type} [Field K] [LinearOrder K]

def stride (L x : K) : K :=
  if 0 < x then x - L else if x < 0 then x + L else 0

/-- Less than `r` away from a whole number of strides. -/
def Within (r L x : K) : Prop := ∃ k : ℤ, |x - k * L| < r

open Classical in
/-- Where a walk from `x` arrives that makes at least one stride. -/
noncomputable def landing (r L x : K) : K :=
  if x = 0 then 0
  else if h : ∃ j : ℕ, 0 < j ∧ |x - j * L| < r then x - Nat.find h * L else x

variable {r L x : K}

theorem stride_of_pos (h : 0 < x) : stride L x = x - L := if_pos h

theorem stride_of_neg (h : x < 0) : stride L x = x + L := by
  rw [stride, if_neg (not_lt.mpr h.le), if_pos h]

theorem stride_zero : stride L (0 : K) = 0 := by
  simp [stride]

theorem Within.of_near (h : |x| < r) : Within r L x := ⟨0, by simpa using h⟩

theorem within_add_mul (m : ℤ) : Within r L (x + m * L) ↔ Within r L x := by
  constructor
  · rintro ⟨k, hk⟩
    refine ⟨k - m, ?_⟩
    have heq : x - ((k - m : ℤ) : K) * L = x + m * L - k * L := by push_cast; ring
    rwa [heq]
  · rintro ⟨k, hk⟩
    refine ⟨k + m, ?_⟩
    have heq : x + m * L - ((k + m : ℤ) : K) * L = x - k * L := by push_cast; ring
    rwa [heq]

theorem within_stride : Within r L (stride L x) ↔ Within r L x := by
  obtain hneg | rfl | hpos := lt_trichotomy x 0
  · have heq : x + L = x + ((1 : ℤ) : K) * L := by push_cast; ring
    rw [stride_of_neg hneg, heq, within_add_mul]
  · rw [stride_zero]
  · have heq : x - L = x + ((-1 : ℤ) : K) * L := by push_cast; ring
    rw [stride_of_pos hpos, heq, within_add_mul]

theorem within_iterate (n : ℕ) : Within r L ((stride L)^[n] x) ↔ Within r L x := by
  induction n with
  | zero => rfl
  | succ n ih => rw [Function.iterate_succ_apply', within_stride, ih]

variable [IsStrictOrderedRing K]

/-- While the walk has not arrived it goes straight on. -/
theorem iterate_straight (hL : 0 < L) (hx : 0 < x) {n : ℕ}
    (hfar : ∀ j : ℕ, 0 < j → j < n → ¬ |x - j * L| < r) (hnear : |x - n * L| < r) {j : ℕ}
    (hj : j ≤ n) : (stride L)^[j] x = x - j * L := by
  induction j with
  | zero => simp
  | succ j ih =>
      have hpos : 0 < x - j * L := by
        obtain rfl | hj0 := Nat.eq_zero_or_pos j
        · simpa using hx
        · -- Beyond the origin the walk would be past its arrival as well.
          by_contra hnot
          have hbeyond : (j : K) * L < n * L :=
            mul_lt_mul_of_pos_right (Nat.cast_lt.mpr hj) hL
          have habs := abs_lt.mp hnear
          exact hfar j hj0 hj (abs_lt.mpr ⟨by linarith, by linarith⟩)
      rw [Function.iterate_succ_apply', ih (by omega), stride_of_pos hpos]
      push_cast
      ring

/-- A stretch that is within reach with nothing ahead starts near its origin. -/
theorem near_of_nothing_ahead (hL : 0 < L) (hpos : 0 < x) (h : Within r L x)
    (hahead : ¬ ∃ j : ℕ, 0 < j ∧ |x - j * L| < r) : |x| < r := by
  obtain ⟨k, hk⟩ := h
  obtain hneg | hk0 := le_or_gt k 0
  · have hkL : (k : K) * L ≤ 0 :=
      mul_nonpos_of_nonpos_of_nonneg (Int.cast_nonpos.mpr hneg) hL.le
    have habs := abs_lt.mp hk
    exact abs_lt.mpr ⟨by linarith, by linarith⟩
  · refine absurd ⟨k.toNat, by omega, ?_⟩ hahead
    have hcast : ((k.toNat : ℕ) : K) = k := by
      rw [← Int.cast_natCast, Int.toNat_of_nonneg hk0.le]
    rwa [hcast]

/-- With nothing ahead the first stride passes over the origin and the second returns. -/
theorem there_and_back (hL : 0 < L) (hpos : 0 < x) (hnear : |x| < r)
    (hahead : ¬ ∃ j : ℕ, 0 < j ∧ |x - j * L| < r) :
    ¬ |(stride L)^[1] x| < r ∧ (stride L)^[2] x = x := by
  have hfirst : (stride L)^[1] x = x - L := stride_of_pos hpos
  have hone : ¬ |x - L| < r := fun hnear => hahead ⟨1, one_pos, by simpa using hnear⟩
  have hover : x - L < 0 := by
    by_contra hnot
    have habs := abs_lt.mp hnear
    exact hone (abs_lt.mpr ⟨by linarith, by linarith⟩)
  refine ⟨by rwa [hfirst], ?_⟩
  rw [Function.iterate_succ_apply', hfirst, stride_of_neg hover]
  ring

/-- A walk of at least one stride arrives at its landing if it starts within reach. -/
theorem exists_arrival (hr : 0 < r) (hL : 0 < L) (hx : 0 ≤ x) (h : Within r L x) :
    ∃ n, 0 < n ∧ |(stride L)^[n] x| < r ∧ (∀ m, 0 < m → m < n → ¬ |(stride L)^[m] x| < r) ∧
      (stride L)^[n] x = landing r L x := by
  obtain rfl | hpos := hx.eq_or_lt
  · refine ⟨1, one_pos, ?_, by omega, ?_⟩
    · simpa [stride_zero] using hr
    · simp [stride_zero, landing]
  · by_cases hahead : ∃ j : ℕ, 0 < j ∧ |x - j * L| < r
    · classical
      obtain ⟨hfirst, hnear⟩ := Nat.find_spec hahead
      have hfar : ∀ j : ℕ, 0 < j → j < Nat.find hahead → ¬ |x - j * L| < r :=
        fun j hj0 hj hnot => Nat.find_min hahead hj ⟨hj0, hnot⟩
      refine ⟨Nat.find hahead, hfirst, ?_, ?_, ?_⟩
      · rwa [iterate_straight hL hpos hfar hnear le_rfl]
      · intro m hm0 hm
        rw [iterate_straight hL hpos hfar hnear hm.le]
        exact hfar m hm0 hm
      · rw [iterate_straight hL hpos hfar hnear le_rfl, landing, if_neg hpos.ne', dif_pos hahead]
    · have hxr := near_of_nothing_ahead hL hpos h hahead
      obtain ⟨hfirst, hsecond⟩ := there_and_back hL hpos hxr hahead
      refine ⟨2, two_pos, ?_, ?_, ?_⟩
      · rwa [hsecond]
      · intro m hm0 hm
        obtain rfl : m = 1 := by omega
        exact hfirst
      · rw [hsecond, landing, if_neg hpos.ne', dif_neg hahead]

/-- A walk comes near its origin exactly when it starts within reach of it. -/
theorem exists_near_iff (hr : 0 < r) (hL : 0 < L) (hx : 0 ≤ x) :
    (∃ n, |(stride L)^[n] x| < r) ↔ Within r L x := by
  constructor
  · rintro ⟨n, hn⟩
    exact (within_iterate n).mp (.of_near hn)
  · intro h
    obtain ⟨n, _, hn, _⟩ := exists_arrival hr hL hx h
    exact ⟨n, hn⟩

/-- Every start is within reach exactly when a stride is shorter than the way across the
region near the origin. -/
theorem forall_within_iff [FloorRing K] (hL : 0 < L) :
    (∀ x : K, 0 ≤ x → Within r L x) ↔ L < 2 * r := by
  constructor
  · intro h
    obtain ⟨k, hk⟩ := h (L / 2) (by linarith)
    have habs := abs_lt.mp hk
    obtain hle | hge := le_or_gt k 0
    · have hkL : (k : K) * L ≤ 0 :=
        mul_nonpos_of_nonpos_of_nonneg (Int.cast_nonpos.mpr hle) hL.le
      linarith
    · have hkL : 1 * L ≤ (k : K) * L :=
        mul_le_mul_of_nonneg_right (by exact_mod_cast hge) hL.le
      linarith
  · intro hshort x _
    refine ⟨round (x / L), ?_⟩
    have hround := abs_sub_round (x / L)
    have heq : x - round (x / L) * L = (x / L - round (x / L)) * L := by
      rw [sub_mul, div_mul_cancel₀ x hL.ne']
    rw [heq, abs_mul, abs_of_pos hL]
    have hle := mul_le_mul_of_nonneg_right hround hL.le
    linarith

end UmnProjects.Strides
