import Mathlib.Analysis.Complex.Trigonometric
import Mathlib.Analysis.Real.Sqrt
import Mathlib.Tactic.FieldSimp
import Mathlib.Tactic.LinearCombination
import UmnProjects.Foundations.Strides
import UmnProjects.Transit.Celebrations
import UmnProjects.Transit.Sessions

/-!
Strategies that are moved again and again with one time step, in exact arithmetic. A
step is as long as speed and time make it, wherever the waypoint is.
-/
namespace UmnProjects.Transit

open Strides

/-- The real numbers in the place of `double` and `float`. -/
@[reducible]
noncomputable def realScalar : Scalar ℝ := exactScalar ⟨Real.sqrt, Real.sin, Real.cos⟩

/-- An entity that takes the position it is given, and keeps its speed. -/
class LawfulMovable (K : outParam Type) (E : Type) [Movable K E] : Prop where
  getPosition_setPosition (pos : Vector3 K) (e : E) :
    Movable.getPosition (Movable.setPosition pos e) = pos
  getPosition_setDirection (dir : Vector3 K) (e : E) :
    Movable.getPosition (Movable.setDirection dir e) = Movable.getPosition e
  getSpeed_setPosition (pos : Vector3 K) (e : E) :
    Movable.getSpeed (Movable.setPosition pos e) = Movable.getSpeed e
  getSpeed_setDirection (dir : Vector3 K) (e : E) :
    Movable.getSpeed (Movable.setDirection dir e) = Movable.getSpeed e

section Instances

variable {K : Type} [Scalar K]

instance : LawfulMovable K (Drone K) where
  getPosition_setPosition _ _ := rfl
  getPosition_setDirection _ _ := rfl
  getSpeed_setPosition _ _ := rfl
  getSpeed_setDirection _ _ := rfl

instance : LawfulMovable K (Human K) where
  getPosition_setPosition _ _ := rfl
  getPosition_setDirection _ _ := rfl
  getSpeed_setPosition _ _ := rfl
  getSpeed_setDirection _ _ := rfl

instance : LawfulMovable K (Helicopter K) where
  getPosition_setPosition _ _ := rfl
  getPosition_setDirection _ _ := rfl
  getSpeed_setPosition _ _ := rfl
  getSpeed_setDirection _ _ := rfl

end Instances

/-! ### One step on a line -/

namespace Vector3

noncomputable def realDistance (p v : Vector3 ℝ) : ℝ := @distance ℝ realScalar p v

/-- The direction from one point to another. -/
noncomputable def heading (p v : Vector3 ℝ) : Vector3 ℝ :=
  @unit ℝ realScalar (@sub ℝ realScalar v p)

/-- Where a step in a direction ends. -/
noncomputable def advance (p dir : Vector3 ℝ) (speed dt : ℝ) : Vector3 ℝ :=
  @add ℝ realScalar p (@mul ℝ realScalar (@mul ℝ realScalar dir speed) dt)

def IsDirection (u : Vector3 ℝ) : Prop := u.x * u.x + u.y * u.y + u.z * u.z = 1

/-- The point from which it is `x` in the direction `u` to the point `v`. -/
noncomputable def before (v u : Vector3 ℝ) (x : ℝ) : Vector3 ℝ :=
  ⟨v.x - x * u.x, v.y - x * u.y, v.z - x * u.z⟩

variable {u v : Vector3 ℝ} {x : ℝ}

theorem realDistance_before (hu : u.IsDirection) : (before v u x).realDistance v = |x| := by
  have hsquare : (v.x - (v.x - x * u.x)) * (v.x - (v.x - x * u.x)) +
      (v.y - (v.y - x * u.y)) * (v.y - (v.y - x * u.y)) +
      (v.z - (v.z - x * u.z)) * (v.z - (v.z - x * u.z)) = x ^ 2 := by
    rw [IsDirection] at hu
    linear_combination x ^ 2 * hu
  change √_ = |x|
  rw [← Real.sqrt_sq_eq_abs, ← hsquare]
  rfl

theorem heading_before (hu : u.IsDirection) :
    (before v u x).heading v = ⟨x / |x| * u.x, x / |x| * u.y, x / |x| * u.z⟩ := by
  have hmagnitude := realDistance_before (v := v) (x := x) hu
  change (if decide ((before v u x).realDistance v = 0) then _ else _) = _
  rw [hmagnitude]
  by_cases hx : x = 0
  · subst hx
    rw [if_pos (by simp)]
    change Vector3.mk (v.x - (v.x - 0 * u.x)) (v.y - (v.y - 0 * u.y)) (v.z - (v.z - 0 * u.z)) = _
    congr 1 <;> ring
  · rw [if_neg (by simpa using hx)]
    change Vector3.mk ((v.x - (v.x - x * u.x)) / (before v u x).realDistance v)
      ((v.y - (v.y - x * u.y)) / (before v u x).realDistance v)
      ((v.z - (v.z - x * u.z)) / (before v u x).realDistance v) = _
    rw [hmagnitude]
    congr 1 <;> ring

/-- One step towards a point on the line is one stride. -/
theorem advance_before (hu : u.IsDirection) (speed dt : ℝ) :
    (before v u x).advance ((before v u x).heading v) speed dt =
      before v u (stride (speed * dt) x) := by
  have hstride : stride (speed * dt) x = x - x / |x| * (speed * dt) := by
    obtain hneg | rfl | hpos := lt_trichotomy x 0
    · rw [stride_of_neg hneg, abs_of_neg hneg, div_neg, div_self hneg.ne]
      ring
    · simp [stride_zero]
    · rw [stride_of_pos hpos, abs_of_pos hpos, div_self hpos.ne', one_mul]
  rw [heading_before hu, hstride]
  change Vector3.mk (v.x - x * u.x + dt * (speed * (x / |x| * u.x)))
    (v.y - x * u.y + dt * (speed * (x / |x| * u.y)))
    (v.z - x * u.z + dt * (speed * (x / |x| * u.z))) = _
  rw [before]
  congr 1 <;> ring

/-- Where a leg from `p` to the waypoint `v` ends, in steps of length `L`. -/
noncomputable def legEnd (L : ℝ) (p v : Vector3 ℝ) : Vector3 ℝ :=
  before v (p.heading v) (landing 4 L (p.realDistance v))

theorem realDistance_sq (p v : Vector3 ℝ) :
    p.realDistance v ^ 2 =
      (v.x - p.x) * (v.x - p.x) + (v.y - p.y) * (v.y - p.y) + (v.z - p.z) * (v.z - p.z) := by
  change √_ ^ 2 = _
  rw [Real.sq_sqrt]
  · rfl
  · exact add_nonneg (add_nonneg (mul_self_nonneg _) (mul_self_nonneg _)) (mul_self_nonneg _)

theorem realDistance_nonneg (p v : Vector3 ℝ) : 0 ≤ p.realDistance v := Real.sqrt_nonneg _

/-- The leg from `p` to `v` lies on a line. -/
theorem exists_direction (L : ℝ) (p v : Vector3 ℝ) :
    ∃ u : Vector3 ℝ, u.IsDirection ∧ p = before v u (p.realDistance v) ∧
      legEnd L p v = before v u (landing 4 L (p.realDistance v)) := by
  have hsq := realDistance_sq p v
  by_cases hd : p.realDistance v = 0
  · -- No direction leads from a point to itself; any will do.
    have hlanding : landing 4 L (p.realDistance v) = 0 := by rw [landing, if_pos hd]
    have hself (w : Vector3 ℝ) : before v w 0 = v := by simp [before]
    have hpv : p = v := by
      rw [hd] at hsq
      have hx := mul_self_nonneg (v.x - p.x)
      have hy := mul_self_nonneg (v.y - p.y)
      have hz := mul_self_nonneg (v.z - p.z)
      have hx0 : v.x - p.x = 0 := mul_self_eq_zero.mp (by linarith)
      have hy0 : v.y - p.y = 0 := mul_self_eq_zero.mp (by linarith)
      have hz0 : v.z - p.z = 0 := mul_self_eq_zero.mp (by linarith)
      cases p
      cases v
      simp only [mk.injEq] at hx0 hy0 hz0 ⊢
      exact ⟨by linarith, by linarith, by linarith⟩
    refine ⟨⟨1, 0, 0⟩, by simp [IsDirection], ?_, ?_⟩
    · rw [hd, hself, hpv]
    · rw [legEnd, hlanding, hself, hself]
  · have hheading : p.heading v = ⟨(v.x - p.x) / p.realDistance v, (v.y - p.y) / p.realDistance v,
        (v.z - p.z) / p.realDistance v⟩ := by
      change (if decide (p.realDistance v = 0) then _ else _) = _
      rw [if_neg (by simpa using hd)]
      rfl
    refine ⟨p.heading v, ?_, ?_, rfl⟩
    · rw [hheading, IsDirection]
      field_simp
      linear_combination -hsq
    · rw [hheading, before]
      cases p
      simp only [mk.injEq]
      refine ⟨?_, ?_, ?_⟩ <;> field_simp <;> ring

end Vector3

/-! ### Steps on end -/

/-- Near enough to a whole number of steps of length `L`. -/
def WithinReach (L : ℝ) (p v : Vector3 ℝ) : Prop := Within 4 L (p.realDistance v)

/-- Each waypoint is within reach of the place where the leg before it ends. -/
def Walkable (L : ℝ) : Vector3 ℝ → List (Vector3 ℝ) → Prop
  | _, [] => True
  | p, v :: points => WithinReach L p v ∧ Walkable L (p.legEnd L v) points

section Moves

variable {E : Type} [Movable ℝ E]

/-- One call of `Move` of a strategy on an entity. -/
noncomputable def realMove (dt : ℝ) (p : IStrategy ℝ × E) : IStrategy ℝ × E :=
  @IStrategy.move ℝ E realScalar _ dt p.1 p.2

def RealCompleted (s : IStrategy ℝ) : Prop := @IStrategy.isCompleted ℝ realScalar s = true

/-- Calls of `Move` with the same time step complete the strategy. -/
def Completes (dt : ℝ) (s : IStrategy ℝ) (e : E) : Prop :=
  ∃ n, RealCompleted ((realMove dt)^[n] (s, e)).1

theorem realCompleted_beeline (position destination : Vector3 ℝ) :
    RealCompleted (.beeline position destination) ↔ position.realDistance destination < 4 := by
  change decide (position.realDistance destination < ((4 : ℤ) : ℝ)) = true ↔ _
  simp

theorem realCompleted_path (points : List (Vector3 ℝ)) (index : ℕ) :
    RealCompleted (.path points index) ↔ points.length ≤ index := by
  simp [RealCompleted, IStrategy.isCompleted]

theorem celebrationsLast : @IStrategy.CelebrationsLast ℝ realScalar := by
  change decide (((0 : ℤ) : ℝ) < ((4 : ℤ) : ℝ)) = true
  simp

theorem phased_moves (dt : ℝ) {s : IStrategy ℝ} (e : E) (hs : @IStrategy.Phased ℝ realScalar s)
    (n : ℕ) : @IStrategy.Phased ℝ realScalar ((realMove dt)^[n] (s, e)).1 := by
  induction n with
  | zero => exact hs
  | succ n ih =>
      rw [Function.iterate_succ_apply']
      exact @IStrategy.Phased.move ℝ E realScalar _ celebrationsLast _ ih dt _

/-- Whether calls complete the strategy can be decided after any number of them. -/
theorem completes_iff_of_moves {dt : ℝ} {s s' : IStrategy ℝ} {e e' : E} {n : ℕ}
    (hs : @IStrategy.Phased ℝ realScalar s) (h : (realMove dt)^[n] (s, e) = (s', e')) :
    Completes dt s e ↔ Completes dt s' e' := by
  constructor
  · rintro ⟨m, hm⟩
    refine ⟨m, ?_⟩
    have hrest := @IStrategy.move_of_completed ℝ E realScalar _ celebrationsLast _
      (phased_moves dt e hs m) hm dt ((realMove dt)^[m] (s, e)).2
    rw [← h, ← Function.iterate_add_apply, Nat.add_comm, Function.iterate_add_apply,
      Function.iterate_fixed hrest]
    exact hm
  · rintro ⟨m, hm⟩
    refine ⟨m + n, ?_⟩
    rwa [Function.iterate_add_apply, h]

variable [LawfulMovable ℝ E] {u v : Vector3 ℝ} {x dt : ℝ} {e : E}

/-- A call of `Move` on the line to the next waypoint is a stride. -/
theorem path_stride (dt : ℝ) {points : List (Vector3 ℝ)} {index : ℕ} (hu : u.IsDirection)
    (hv : points[index]? = some v) (hpos : Movable.getPosition e = v.before u x) :
    ∃ e' : E, Movable.getPosition e' = v.before u (stride (Movable.getSpeed e * dt) x) ∧
      Movable.getSpeed e' = Movable.getSpeed e ∧
      realMove dt (.path points index, e) =
        (.path points (if |stride (Movable.getSpeed e * dt) x| < 4 then index + 1 else index),
          e') := by
  let pos := Vector3.advance (v.before u x) ((v.before u x).heading v) (Movable.getSpeed e) dt
  let e' : E := Movable.setDirection ((v.before u x).heading v) (Movable.setPosition pos e)
  have hpos' : Movable.getPosition e' = v.before u (stride (Movable.getSpeed e * dt) x) := by
    rw [LawfulMovable.getPosition_setDirection, LawfulMovable.getPosition_setPosition]
    exact Vector3.advance_before hu _ dt
  refine ⟨e', hpos', ?_, ?_⟩
  · rw [LawfulMovable.getSpeed_setDirection, LawfulMovable.getSpeed_setPosition]
  · have hdistance : (Movable.getPosition e').realDistance v =
        |stride (Movable.getSpeed e * dt) x| := by
      rw [hpos', Vector3.realDistance_before hu]
    simp only [realMove, IStrategy.move, hv, hpos]
    change (IStrategy.path points (if decide ((Movable.getPosition e').realDistance v <
      ((4 : ℤ) : ℝ)) = true then index + 1 else index), e') = _
    rw [hdistance]
    simp

/-- Until the waypoint comes near the calls are strides of one walk. -/
theorem path_strides (dt : ℝ) {points : List (Vector3 ℝ)} {index : ℕ} (hu : u.IsDirection)
    (hv : points[index]? = some v) (hpos : Movable.getPosition e = v.before u x) {n : ℕ}
    (hfar : ∀ m, 0 < m → m ≤ n → ¬ |(stride (Movable.getSpeed e * dt))^[m] x| < 4) :
    ∃ e' : E, Movable.getPosition e' = v.before u ((stride (Movable.getSpeed e * dt))^[n] x) ∧
      Movable.getSpeed e' = Movable.getSpeed e ∧
      (realMove dt)^[n] (.path points index, e) = (.path points index, e') := by
  induction n with
  | zero => exact ⟨e, hpos, rfl, rfl⟩
  | succ n ih =>
      obtain ⟨e₁, hpos₁, hspeed₁, hmoves⟩ := ih (fun m hm0 hm => hfar m hm0 (by omega))
      obtain ⟨e₂, hpos₂, hspeed₂, hmove⟩ := path_stride dt hu hv hpos₁
      rw [hspeed₁, ← Function.iterate_succ_apply' (stride (Movable.getSpeed e * dt))] at hpos₂ hmove
      rw [if_neg (hfar (n + 1) (by omega) le_rfl)] at hmove
      refine ⟨e₂, hpos₂, hspeed₂.trans hspeed₁, ?_⟩
      rw [Function.iterate_succ_apply', hmoves, hmove]

/-- The waypoints that are left are reached one after another. -/
theorem path_completes_iff (hdt : 0 < dt) {points rest : List (Vector3 ℝ)} {index : ℕ}
    (hspeed : 0 < (Movable.getSpeed e : ℝ)) (hrest : points.drop index = rest) :
    Completes dt (.path points index) e ↔
      Walkable (Movable.getSpeed e * dt) (Movable.getPosition e) rest := by
  induction rest generalizing index e with
  | nil =>
      have hend : points.length ≤ index := List.drop_eq_nil_iff.mp hrest
      exact iff_of_true ⟨0, (realCompleted_path _ _).mpr hend⟩ trivial
  | cons v rest ih =>
      have hv : points[index]? = some v := by
        rw [← List.head?_drop, hrest, List.head?_cons]
      have hnext : points.drop (index + 1) = rest := by
        rw [← List.tail_drop, hrest, List.tail_cons]
      obtain ⟨u, hu, hpos, hend⟩ :=
        (Movable.getPosition e).exists_direction (Movable.getSpeed e * dt) v
      have hL := mul_pos hspeed hdt
      rw [Walkable, WithinReach]
      by_cases hreach : Within 4 (Movable.getSpeed e * dt) ((Movable.getPosition e).realDistance v)
      · -- The leg ends at its landing, and the rest is walked from there.
        obtain ⟨n, hn, hnear, hfar, hlanding⟩ :=
          exists_arrival (by norm_num) hL (Vector3.realDistance_nonneg _ _) hreach
        obtain ⟨n, rfl⟩ := Nat.exists_eq_add_one.mpr hn
        obtain ⟨e₁, hpos₁, hspeed₁, hmoves⟩ := path_strides dt hu hv hpos
          (fun m hm0 hm => hfar m hm0 (Nat.lt_succ_of_le hm))
        obtain ⟨e₂, hpos₂, hspeed₂, hmove⟩ := path_stride dt hu hv hpos₁
        rw [hspeed₁, ← Function.iterate_succ_apply' (stride (Movable.getSpeed e * dt))]
          at hpos₂ hmove
        rw [if_pos hnear] at hmove
        rw [hlanding, ← hend] at hpos₂
        have harrive : (realMove dt)^[n + 1] (.path points index, e) =
            (.path points (index + 1), e₂) := by
          rw [Function.iterate_succ_apply', hmoves, hmove]
        have hspeed' : Movable.getSpeed e₂ = Movable.getSpeed e := hspeed₂.trans hspeed₁
        rw [completes_iff_of_moves (s := .path points index) trivial harrive,
          ih (by rwa [hspeed']) hnext, hspeed', hpos₂]
        exact (and_iff_right hreach).symm
      · -- The entity passes over the waypoint for ever.
        refine iff_of_false ?_ (fun hwalk => hreach hwalk.1)
        rintro ⟨n, hn⟩
        obtain ⟨e', _, _, hmoves⟩ := path_strides dt (n := n) hu hv hpos
          (fun m _ _ hnear => hreach ((within_iterate m).mp (.of_near hnear)))
        rw [hmoves, realCompleted_path] at hn
        rw [List.getElem?_eq_none hn] at hv
        cases hv

theorem beeline_stride (dt : ℝ) {position destination : Vector3 ℝ} (hu : u.IsDirection)
    (hpos : position = destination.before u x) (hfar : ¬ |x| < 4) :
    ∃ e' : E, Movable.getSpeed e' = Movable.getSpeed e ∧
      realMove dt (.beeline position destination, e) =
        (.beeline (destination.before u (stride (Movable.getSpeed e * dt) x)) destination, e') := by
  have hnot : ¬ RealCompleted (.beeline position destination) := by
    rwa [realCompleted_beeline, hpos, Vector3.realDistance_before hu]
  let dir := position.heading destination
  let e' : E := Movable.setDirection dir
    (Movable.setPosition (position.advance dir (Movable.getSpeed e) dt) e)
  refine ⟨e', ?_, ?_⟩
  · rw [LawfulMovable.getSpeed_setDirection, LawfulMovable.getSpeed_setPosition]
  · have hmove : realMove dt (.beeline position destination, e) =
        (.beeline (position.advance dir (Movable.getSpeed e) dt) destination, e') := by
      rw [RealCompleted] at hnot
      simp only [realMove, IStrategy.move, if_neg hnot]
      rfl
    rw [hmove]
    simp only [dir, hpos, Vector3.advance_before hu]

theorem beeline_strides (dt : ℝ) {position destination : Vector3 ℝ} (hu : u.IsDirection)
    (hpos : position = destination.before u x) {n : ℕ}
    (hfar : ∀ m, m < n → ¬ |(stride (Movable.getSpeed e * dt))^[m] x| < 4) :
    ∃ e' : E, Movable.getSpeed e' = Movable.getSpeed e ∧
      (realMove dt)^[n] (.beeline position destination, e) =
        (.beeline (destination.before u ((stride (Movable.getSpeed e * dt))^[n] x)) destination,
          e') := by
  induction n with
  | zero => exact ⟨e, rfl, by rw [hpos]; rfl⟩
  | succ n ih =>
      obtain ⟨e₁, hspeed₁, hmoves⟩ := ih (fun m hm => hfar m (by omega))
      obtain ⟨e₂, hspeed₂, hmove⟩ :=
        beeline_stride (e := e₁) dt hu rfl (hfar n (Nat.lt_succ_self n))
      rw [hspeed₁, ← Function.iterate_succ_apply' (stride (Movable.getSpeed e * dt))] at hmove
      refine ⟨e₂, hspeed₂.trans hspeed₁, ?_⟩
      rw [Function.iterate_succ_apply', hmoves, hmove]

theorem beeline_completes_iff (hdt : 0 < dt) (hspeed : 0 < (Movable.getSpeed e : ℝ))
    (position destination : Vector3 ℝ) :
    Completes dt (.beeline position destination) e ↔
      WithinReach (Movable.getSpeed e * dt) position destination := by
  obtain ⟨u, hu, hpos, _⟩ :=
    position.exists_direction (Movable.getSpeed e * dt) destination
  have hL := mul_pos hspeed hdt
  have hcompleted {n : ℕ}
      (hfar : ∀ m, m < n → ¬ |(stride (Movable.getSpeed e * dt))^[m]
        (position.realDistance destination)| < 4) :
      RealCompleted ((realMove dt)^[n] (.beeline position destination, e)).1 ↔
        |(stride (Movable.getSpeed e * dt))^[n] (position.realDistance destination)| < 4 := by
    obtain ⟨e', _, hmoves⟩ := beeline_strides dt hu hpos hfar
    rw [hmoves, realCompleted_beeline, Vector3.realDistance_before hu]
  rw [WithinReach, ← exists_near_iff (by norm_num) hL (Vector3.realDistance_nonneg _ _)]
  constructor
  · rintro ⟨n, hn⟩
    by_contra hnever
    have hfar := not_exists.mp hnever
    exact hfar n ((hcompleted fun m _ => hfar m).mp hn)
  · intro hnear
    classical
    exact ⟨Nat.find hnear, (hcompleted fun m hm => Nat.find_min hnear hm).mpr
      (Nat.find_spec hnear)⟩

/-- Steps too short to pass over a waypoint are the ones with which everything is walkable. -/
theorem forall_withinReach_iff {L : ℝ} (hL : 0 < L) :
    (∀ p v : Vector3 ℝ, WithinReach L p v) ↔ L < 8 := by
  have hiff := forall_within_iff (r := 4) hL
  rw [show (2 : ℝ) * 4 = 8 by norm_num] at hiff
  rw [← hiff]
  constructor
  · intro h x hx
    have hpoint := h (Vector3.before ⟨0, 0, 0⟩ ⟨1, 0, 0⟩ x) ⟨0, 0, 0⟩
    rwa [WithinReach, Vector3.realDistance_before (by simp [Vector3.IsDirection]),
      abs_of_nonneg hx] at hpoint
  · exact fun h p v => h _ (Vector3.realDistance_nonneg p v)

theorem forall_walkable_iff {L : ℝ} :
    (∀ (p : Vector3 ℝ) points, Walkable L p points) ↔ ∀ p v : Vector3 ℝ, WithinReach L p v := by
  constructor
  · exact fun h p v => (h p [v]).1
  · intro h p points
    induction points generalizing p with
    | nil => trivial
    | cons v points ih => exact ⟨h p v, ih _⟩

/-- Calls of `Move` complete a path exactly when each waypoint is within reach of the end of
the leg before it, and a beeline exactly when the destination is within reach. All of them are
completed exactly when a step is shorter than 8. -/
theorem completes_iff (dt : ℝ) (e : E) (hdt : 0 < dt) (hspeed : 0 < (Movable.getSpeed e : ℝ)) :
    (∀ points, Completes dt (.path points 0) e ↔
      Walkable (Movable.getSpeed e * dt) (Movable.getPosition e) points) ∧
    (∀ position destination, Completes dt (.beeline position destination) e ↔
      WithinReach (Movable.getSpeed e * dt) position destination) ∧
    ((∀ pos points, Completes dt (.path points 0) (Movable.setPosition pos e)) ↔
      Movable.getSpeed e * dt < 8) ∧
    ((∀ position destination, Completes dt (.beeline position destination) e) ↔
      Movable.getSpeed e * dt < 8) := by
  have hL := mul_pos hspeed hdt
  have hpath (e' : E) (hspeed' : (Movable.getSpeed e' : ℝ) = Movable.getSpeed e) (points) :
      Completes dt (.path points 0) e' ↔
        Walkable (Movable.getSpeed e * dt) (Movable.getPosition e') points := by
    rw [← hspeed']
    exact path_completes_iff hdt (by rwa [hspeed']) List.drop_zero
  refine ⟨hpath e rfl, beeline_completes_iff hdt hspeed, ?_, ?_⟩
  · rw [← forall_withinReach_iff hL, ← forall_walkable_iff]
    refine forall_congr' fun pos => forall_congr' fun points => ?_
    rw [hpath _ (LawfulMovable.getSpeed_setPosition pos e),
      LawfulMovable.getPosition_setPosition]
  · rw [← forall_withinReach_iff hL]
    exact forall_congr' fun position => forall_congr' fun destination =>
      beeline_completes_iff hdt hspeed position destination

end Moves

/-! ### Longer steps -/

/-- Someone who makes 10 in a tenth of a second. -/
noncomputable def runner : Human ℝ where
  details := ⟨"human", "runner", ⟨0, 0, 0⟩, ⟨1, 0, 0⟩, (100 : ℕ)⟩
  position := ⟨0, 0, 0⟩
  direction := ⟨1, 0, 0⟩
  destination := ⟨0, 0, 0⟩
  speed := (100 : ℕ)
  toDestination := none

theorem withinReach_ten {d : ℝ} :
    WithinReach 10 ⟨0, 0, 0⟩ ⟨d, 0, 0⟩ ↔ Within 4 10 |d| := by
  have hstart : (⟨0, 0, 0⟩ : Vector3 ℝ) = Vector3.before ⟨d, 0, 0⟩ ⟨1, 0, 0⟩ d := by
    simp [Vector3.before]
  rw [WithinReach, hstart, Vector3.realDistance_before (by simp [Vector3.IsDirection])]

theorem runner_step : (Movable.getSpeed runner : ℝ) * (1 / 10) = 10 := by
  change ((100 : ℕ) : ℝ) * (1 / 10) = 10
  norm_num

theorem runner_arrives : Completes (1 / 10) (.path [⟨12, 0, 0⟩] 0) runner := by
  have hspeed : (0 : ℝ) < Movable.getSpeed runner := by
    change (0 : ℝ) < (100 : ℕ)
    norm_num
  obtain ⟨hpath, _⟩ := completes_iff (1 / 10) runner (by norm_num) hspeed
  rw [hpath, runner_step]
  refine ⟨withinReach_ten.mpr ⟨1, ?_⟩, trivial⟩
  norm_num [abs_lt]

/-- From five metres before a waypoint the steps go back and forth over it. -/
theorem runner_never_arrives :
    (0 : ℝ) < Movable.getSpeed runner ∧
      ¬ Completes (1 / 10) (.path [⟨5, 0, 0⟩] 0) runner ∧
      ¬ Completes (1 / 10) (.beeline ⟨0, 0, 0⟩ ⟨5, 0, 0⟩) runner := by
  have hspeed : (0 : ℝ) < Movable.getSpeed runner := by
    change (0 : ℝ) < (100 : ℕ)
    norm_num
  have hfar : ¬ WithinReach 10 ⟨0, 0, 0⟩ ⟨5, 0, 0⟩ := by
    rw [withinReach_ten]
    rintro ⟨k, hk⟩
    rw [abs_of_pos (by norm_num : (0 : ℝ) < 5), abs_lt] at hk
    obtain ⟨hlow, hhigh⟩ := hk
    have hbelow : ((k : ℤ) : ℝ) < 1 := by linarith
    have habove : (0 : ℝ) < k := by linarith
    have hk1 : k < 1 := by exact_mod_cast hbelow
    have hk0 : 0 < k := by exact_mod_cast habove
    omega
  refine ⟨hspeed, ?_, ?_⟩
  · rw [path_completes_iff (by norm_num) hspeed List.drop_zero, runner_step]
    exact fun hwalk => hfar hwalk.1
  · rw [beeline_completes_iff (by norm_num) hspeed, runner_step]
    exact hfar

end UmnProjects.Transit
