import Mathlib.Analysis.Real.Sqrt
import Mathlib.Tactic.Linarith

/-!
`Image::DrawLine` in exact arithmetic. A line is drawn from its start up to, but not onto, its
end, so only the start can lie on the lower and right borders of the image.
-/
namespace UmnProjects.Viewer

abbrev Pixel := ℤ × ℤ

/-- A float that becomes an int. -/
noncomputable def truncate (x : ℝ) : ℤ := if 0 ≤ x then ⌊x⌋ else ⌈x⌉

/-- The loop of `DrawLine`, by the rounds to go, with the pixels it sets. -/
noncomputable def setPixels (dx dy : ℝ) : ℕ → ℝ → ℝ → List Pixel
  | 0, _, _ => []
  | rounds + 1, x, y => (truncate x, truncate y) :: setPixels dx dy rounds (x + dx) (y + dy)

noncomputable def distance (start stop : Pixel) : ℝ :=
  Real.sqrt (((stop.1 - start.1) * (stop.1 - start.1) +
    (stop.2 - start.2) * (stop.2 - start.2) : ℤ) : ℝ)

/-- The `SetPixel` calls of `DrawLine`; the loop runs while its counter is below the distance. -/
noncomputable def drawLine (start stop : Pixel) : List Pixel :=
  let dist := distance start stop
  let dx := ((stop.1 - start.1 : ℤ) : ℝ) / dist
  let dy := ((stop.2 - start.2 : ℤ) : ℝ) / dist
  setPixels dx dy ⌈dist⌉₊ start.1 start.2

/-- The coordinates are those of a pixel of the image. -/
def Inside (width height : ℤ) (pixel : Pixel) : Prop :=
  (0 ≤ pixel.1 ∧ pixel.1 < width) ∧ 0 ≤ pixel.2 ∧ pixel.2 < height

/-- The coordinates are those of a pixel or of the border behind the last one. -/
def Touches (width height : ℤ) (pixel : Pixel) : Prop :=
  (0 ≤ pixel.1 ∧ pixel.1 ≤ width) ∧ 0 ≤ pixel.2 ∧ pixel.2 ≤ height

variable {start stop : Pixel} {width height : ℤ} {x : ℝ} {n : ℤ}

theorem truncate_nonneg (h : 0 ≤ x) : 0 ≤ truncate x := by
  rw [truncate, if_pos h]
  exact Int.floor_nonneg.mpr h

theorem truncate_lt_iff (h : 0 ≤ x) : truncate x < n ↔ x < n := by
  rw [truncate, if_pos h]
  exact Int.floor_lt

theorem truncate_le (h : 0 ≤ x) (hx : x ≤ n) : truncate x ≤ n := by
  have hlt := (truncate_lt_iff h (n := n + 1)).mpr (by push_cast; linarith)
  omega

theorem truncate_intCast (n : ℤ) : truncate n = n := by
  rw [truncate, Int.floor_intCast, Int.ceil_intCast, ite_self]

theorem distance_pos (h : start ≠ stop) : 0 < distance start stop := by
  rw [distance, Real.sqrt_pos, Int.cast_pos]
  by_contra hle
  have h1 := mul_self_nonneg (stop.1 - start.1)
  have h2 := mul_self_nonneg (stop.2 - start.2)
  have hx : stop.1 - start.1 = 0 := mul_self_eq_zero.mp (by omega)
  have hy : stop.2 - start.2 = 0 := mul_self_eq_zero.mp (by omega)
  exact h (Prod.ext (by omega) (by omega))

theorem drawLine_self (pixel : Pixel) : drawLine pixel pixel = [] := by
  have hzero : distance pixel pixel = 0 := by
    rw [distance, sub_self, sub_self, mul_zero, add_zero, Int.cast_zero, Real.sqrt_zero]
  rw [drawLine, hzero, Nat.ceil_zero]
  rfl

/-- Every pixel is a whole number of steps behind the start. -/
theorem exists_of_mem_setPixels {dx dy : ℝ} {rounds : ℕ} {y : ℝ} {pixel : Pixel}
    (h : pixel ∈ setPixels dx dy rounds x y) :
    ∃ i : ℕ, i < rounds ∧ pixel = (truncate (x + i * dx), truncate (y + i * dy)) := by
  induction rounds generalizing x y with
  | zero => cases h
  | succ rounds ih =>
      rw [setPixels, List.mem_cons] at h
      cases h with
      | inl h =>
          refine ⟨0, Nat.succ_pos _, ?_⟩
          simpa using h
      | inr h =>
          obtain ⟨i, hi, heq⟩ := ih h
          refine ⟨i + 1, by omega, ?_⟩
          rw [heq]
          push_cast
          ring_nf

/-- The start is drawn first, if anything is drawn. -/
theorem start_mem_drawLine (h : start ≠ stop) : start ∈ drawLine start stop := by
  have hpos := Nat.ceil_pos.mpr (distance_pos h)
  obtain ⟨rounds, hrounds⟩ := Nat.exists_eq_add_of_lt hpos
  rw [drawLine, hrounds, Nat.zero_add, setPixels, truncate_intCast, truncate_intCast]
  exact List.mem_cons_self

/-- A coordinate strictly between the two ends, or at the start. -/
theorem truncate_between {a b : ℤ} {t : ℝ} (ha : 0 ≤ a) (hb : 0 ≤ b) (ha' : a < n) (hb' : b ≤ n)
    (ht : 0 ≤ t) (ht' : t < 1) :
    0 ≤ truncate (a + t * ((b - a : ℤ) : ℝ)) ∧ truncate (a + t * ((b - a : ℤ) : ℝ)) < n := by
  have hconvex : (a : ℝ) + t * ((b - a : ℤ) : ℝ) = (1 - t) * a + t * b := by
    push_cast
    ring
  have ha₀ : (0 : ℝ) ≤ a := Int.cast_nonneg ha
  have hb₀ : (0 : ℝ) ≤ b := Int.cast_nonneg hb
  have ha₁ : (a : ℝ) < n := Int.cast_lt.mpr ha'
  have hb₁ : (b : ℝ) ≤ n := Int.cast_le.mpr hb'
  have hnonneg : 0 ≤ (1 - t) * (a : ℝ) + t * b :=
    add_nonneg (mul_nonneg (by linarith) ha₀) (mul_nonneg ht hb₀)
  have hlt : (1 - t) * (a : ℝ) + t * b < n := by
    have hfirst : (1 - t) * (a : ℝ) < (1 - t) * n := mul_lt_mul_of_pos_left ha₁ (by linarith)
    have hsecond : t * (b : ℝ) ≤ t * n := mul_le_mul_of_nonneg_left hb₁ ht
    linarith
  rw [hconvex]
  exact ⟨truncate_nonneg hnonneg, (truncate_lt_iff hnonneg).mpr hlt⟩

/-- Of a line that begins inside nothing is drawn outside. -/
theorem inside_of_mem_drawLine (hstart : Inside width height start)
    (hstop : Touches width height stop) {pixel : Pixel} (h : pixel ∈ drawLine start stop) :
    Inside width height pixel := by
  by_cases heq : start = stop
  · rw [heq, drawLine_self] at h
    cases h
  · have hdist := distance_pos heq
    obtain ⟨i, hi, rfl⟩ := exists_of_mem_setPixels h
    have ht : 0 ≤ (i : ℝ) / distance start stop := div_nonneg (Nat.cast_nonneg i) hdist.le
    have ht' : (i : ℝ) / distance start stop < 1 := by
      rw [div_lt_one hdist]
      exact Nat.lt_ceil.mp hi
    have hstep : ∀ d : ℝ, (i : ℝ) * (d / distance start stop) =
        (i : ℝ) / distance start stop * d := fun d => by ring
    simp only [hstep]
    exact ⟨truncate_between hstart.1.1 hstop.1.1 hstart.1.2 hstop.1.2 ht ht',
      truncate_between hstart.2.1 hstop.2.1 hstart.2.2 hstop.2.2 ht ht'⟩

/-- A line is drawn inside if and only if it begins there or draws nothing. -/
theorem drawLine_inside_iff (hstop : Touches width height stop) :
    (∀ pixel ∈ drawLine start stop, Inside width height pixel) ↔
      start ≠ stop → Inside width height start := by
  constructor
  · intro h hne
    exact h start (start_mem_drawLine hne)
  · intro h pixel hpixel
    by_cases heq : start = stop
    · rw [heq, drawLine_self] at hpixel
      cases hpixel
    · exact inside_of_mem_drawLine (h heq) hstop hpixel

end UmnProjects.Viewer
