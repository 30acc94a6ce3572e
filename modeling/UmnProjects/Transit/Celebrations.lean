import UmnProjects.Foundations.Runs
import UmnProjects.Transit.Entities

/-!
Strategies inside celebrations, and the order in which their layers take their turns. Each
call of `Move` may come with an entity and a time of its own.
-/
namespace UmnProjects.Transit

open Runs

namespace IStrategy

section Layers

variable {K : Type}

/-- The strategy `n` layers down, or the innermost one where there are not so many. -/
def inside : Nat → IStrategy K → IStrategy K
  | n + 1, .jump strategy _ | n + 1, .spin strategy _ => strategy.inside n
  | _, strategy => strategy

@[simp] theorem inside_zero (s : IStrategy K) : s.inside 0 = s := by
  cases s <;> rfl

theorem inside_add (s : IStrategy K) (n m : Nat) : (s.inside n).inside m = s.inside (n + m) := by
  induction s generalizing n with
  | beeline _ _ | path _ _ => cases n <;> cases m <;> rfl
  | jump strategy time ih | spin strategy time ih =>
      cases n with
      | zero => rw [inside_zero, Nat.zero_add]
      | succ n =>
          rw [Nat.succ_add_eq_add_succ]
          exact ih n

variable [Scalar K]

/-- What the constructors of the strategies and of the celebrations can build. -/
inductive Built : IStrategy K → Prop where
  | beeline (position destination : Vector3 K) : Built (.beeline position destination)
  | path (points : List (Vector3 K)) : Built (.path points 0)
  | jump {strategy : IStrategy K} : Built strategy → Built (.jump strategy (Scalar.ofInt 0))
  | spin {strategy : IStrategy K} : Built strategy → Built (.spin strategy (Scalar.ofInt 0))

/-- No celebration starts before the strategy inside it has ended. -/
def Phased : IStrategy K → Prop
  | .beeline _ _ | .path _ _ => True
  | .jump strategy time | .spin strategy time =>
      strategy.Phased ∧ (strategy.isCompleted = false → time = Scalar.ofInt 0)

theorem Built.phased {s : IStrategy K} (h : Built s) : s.Phased := by
  induction h with
  | beeline _ _ | path _ => trivial
  | jump _ ih | spin _ ih => exact ⟨ih, fun _ => rfl⟩

theorem Phased.inside {s : IStrategy K} (h : s.Phased) (n : Nat) : (s.inside n).Phased := by
  induction s generalizing n with
  | beeline _ _ | path _ _ => cases n <;> trivial
  | jump strategy time ih | spin strategy time ih =>
      cases n with
      | zero => exact h
      | succ n => exact ih h.1 n

/-- The celebrations last longer than no time at all. -/
def CelebrationsLast (K : Type) [Scalar K] : Prop :=
  Scalar.less (Scalar.ofInt 0 : K) (Scalar.ofInt 4) = true

/-- A layer that has ended has waited for what is inside it. -/
theorem Phased.wrapped_completed (hlast : CelebrationsLast K) {strategy : IStrategy K} {time : K}
    (h : strategy.isCompleted = false → time = Scalar.ofInt 0)
    (hdone : (!Scalar.less time (Scalar.ofInt 4)) = true) : strategy.isCompleted = true := by
  cases hinner : strategy.isCompleted with
  | true => rfl
  | false =>
      have hless : Scalar.less (Scalar.ofInt 0 : K) (Scalar.ofInt 4) = true := hlast
      rw [h hinner, hless] at hdone
      exact hdone

theorem Phased.inside_completed (hlast : CelebrationsLast K) {s : IStrategy K} (h : s.Phased)
    (hdone : s.isCompleted = true) (n : Nat) : (s.inside n).isCompleted = true := by
  induction s generalizing n with
  | beeline _ _ | path _ _ => cases n <;> exact hdone
  | jump strategy time ih | spin strategy time ih =>
      cases n with
      | zero => exact hdone
      | succ n => exact ih h.1 (wrapped_completed hlast h.2 hdone) n

end Layers

section Moves

variable {K E : Type} [Scalar K] [Movable K E]

/-- Where everything has ended nothing moves any more. -/
theorem move_of_completed (hlast : CelebrationsLast K) {s : IStrategy K} (h : s.Phased)
    (hdone : s.isCompleted = true) (dt : K) (e : E) : s.move dt e = (s, e) := by
  induction s with
  | beeline position destination =>
      rw [move, if_pos hdone]
  | path points index =>
      have hend : points.length ≤ index := by simpa [isCompleted] using hdone
      rw [move, List.getElem?_eq_none hend]
  | jump strategy time ih | spin strategy time ih =>
      rw [move, hdone, ih h.1 (Phased.wrapped_completed hlast h.2 hdone)]
      simp

theorem Phased.move (hlast : CelebrationsLast K) {s : IStrategy K} (h : s.Phased) (dt : K)
    (e : E) : (s.move dt e).1.Phased := by
  induction s with
  | beeline _ _ | path _ _ =>
      rw [IStrategy.move]
      split <;> trivial
  | jump strategy time ih | spin strategy time ih =>
      rw [IStrategy.move]
      split
      · next hturn =>
          have hended := (Bool.and_eq_true_iff.mp hturn).1
          exact ⟨h.1, fun hnot => absurd (hended.symm.trans hnot) (by decide)⟩
      · refine ⟨ih h.1, fun hnot => h.2 ?_⟩
        -- Moving what has ended would have left it as it was.
        cases hended : strategy.isCompleted with
        | false => rfl
        | true =>
            rw [move_of_completed hlast h.1 hended] at hnot
            exact absurd (hended.symm.trans hnot) (by decide)

/-- What has ended at some depth is not started again by a call. -/
theorem Phased.inside_move_completed (hlast : CelebrationsLast K) {s : IStrategy K} (h : s.Phased)
    (dt : K) (e : E) {n : Nat} (hdone : (s.inside n).isCompleted = true) :
    ((s.move dt e).1.inside n).isCompleted = true := by
  induction s generalizing n with
  | beeline position destination =>
      have hself : (beeline position destination).isCompleted = true := by cases n <;> exact hdone
      rw [move_of_completed hlast h hself]
      exact hdone
  | path points index =>
      have hself : (path points index).isCompleted = true := by cases n <;> exact hdone
      rw [move_of_completed hlast h hself]
      exact hdone
  | jump strategy time ih | spin strategy time ih =>
      cases n with
      | zero =>
          rw [inside_zero] at hdone ⊢
          rw [move_of_completed hlast h hdone]
          exact hdone
      | succ n =>
          rw [IStrategy.move]
          split
          · exact hdone
          · exact ih h.1 hdone

/-! ### Sequences of calls -/

/-- One call of `Move`: the time and the entity that are passed. -/
def moveStep (s : IStrategy K) (call : K × E) : Option (IStrategy K) :=
  some (s.move call.1 call.2).1

theorem Phased.of_reaches (hlast : CelebrationsLast K) {s t : IStrategy K}
    (hr : Reaches (moveStep (E := E)) s t) (h : s.Phased) : t.Phased := by
  refine hr.invariant (fun s call t _ hstep hs => ?_) h
  cases hstep
  exact hs.move hlast call.1 call.2

/-- In every sequence of calls each celebration waits for all that is inside it, what has ended
at some depth stays so, and once the outermost layer has ended nothing is moved. -/
theorem celebrations_in_turn (hlast : CelebrationsLast K) {s t : IStrategy K} (hs : Built s)
    (hr : Reaches (moveStep (E := E)) s t) :
    (∀ n strategy time, t.inside n = .jump strategy time ∨ t.inside n = .spin strategy time →
      strategy.isCompleted = false → time = Scalar.ofInt 0) ∧
    (∀ n m, n ≤ m → (t.inside n).isCompleted = true → (t.inside m).isCompleted = true) ∧
    (∀ u, Reaches (moveStep (E := E)) t u → ∀ n, (t.inside n).isCompleted = true →
      (u.inside n).isCompleted = true) ∧
    (t.isCompleted = true → ∀ dt (e : E), t.move dt e = (t, e)) := by
  have ht := hs.phased.of_reaches hlast hr
  refine ⟨?_, ?_, ?_, ?_⟩
  · intro n strategy time hlayer hnot
    have hphased := ht.inside n
    obtain hlayer | hlayer := hlayer <;> rw [hlayer] at hphased <;> exact hphased.2 hnot
  · intro n m hle hdone
    obtain ⟨k, rfl⟩ := Nat.exists_eq_add_of_le hle
    rw [← inside_add]
    exact (ht.inside n).inside_completed hlast hdone k
  · intro u hu n hdone
    have hkeep : u.Phased ∧ (u.inside n).isCompleted = true := by
      refine hu.invariant (I := fun s => s.Phased ∧ (s.inside n).isCompleted = true)
        (fun s call t _ hstep hs => ?_) ⟨ht, hdone⟩
      cases hstep
      exact ⟨hs.1.move hlast call.1 call.2, hs.1.inside_move_completed hlast call.1 call.2 hs.2⟩
    exact hkeep.2
  · exact fun hdone dt e => move_of_completed hlast ht hdone dt e

end Moves

/-- Someone on the last metre of a path. -/
def guest : Human Int where
  details := ⟨"human", "guest", ⟨5, 0, 0⟩, ⟨1, 0, 0⟩, 1⟩
  position := ⟨5, 0, 0⟩
  direction := ⟨1, 0, 0⟩
  destination := ⟨6, 0, 0⟩
  speed := 1
  toDestination := none

/-- A path with two celebrations at its end, and both after the calls `partyCalls`. -/
def party (index : Nat) (jumped spun : Int) : IStrategy Int :=
  .spin (.jump (.path [⟨6, 0, 0⟩] index) jumped) spun

def partyCalls : List (Int × Human Int) := [(1, guest), (4, guest), (4, guest)]

theorem party_in_turn :
    ((party 1 4 4).inside 2).isCompleted = true ∧
      (party 1 4 4).move 1 guest = (party 1 4 4, guest) := by
  have hlast : CelebrationsLast Int := rfl
  have hbuilt : Built (party 0 0 0) := .spin (.jump (.path _))
  have hcalls : Reaches moveStep (party 0 0 0) (party 1 4 4) :=
    run_of_perform (show perform moveStep (party 0 0 0) partyCalls = some (party 1 4 4) from rfl)
      (fun _ _ _ => trivial)
  obtain ⟨_, hdepth, _, hrest⟩ := celebrations_in_turn hlast hbuilt hcalls
  exact ⟨hdepth 0 2 (by decide) rfl, hrest rfl 1 guest⟩

end IStrategy

end UmnProjects.Transit
