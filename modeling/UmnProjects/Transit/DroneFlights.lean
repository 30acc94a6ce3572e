import UmnProjects.Foundations.Progress
import UmnProjects.Transit.DroneStates
import UmnProjects.Transit.EntityList

/-!
What becomes of one drone: its own calls of `Update` fly it on, a handler may send it out, and
nothing that is done to another entity changes it.
-/
namespace UmnProjects.Transit

open Runs Progress

variable {K : Type}

/-! ### One call of `Update` -/

namespace Drone

variable [Scalar K]

/-- On the way to the robot. -/
def fetch (dt : K) (strategy : IStrategy K) (d : Drone K) : Drone K :=
  if (strategy.move dt d).1.isCompleted then
    { (strategy.move dt d).2 with toRobot := none, pickedUp := true }
  else { (strategy.move dt d).2 with toRobot := some (strategy.move dt d).1 }

/-- On the way to the final destination. -/
def deliver (dt : K) (strategy : IStrategy K) (d : Drone K) : Drone K :=
  let d' := { (strategy.move dt d).2 with toFinalDestination := some (strategy.move dt d).1 }
  if (strategy.move dt d).1.isCompleted then d'.finish else d'

/-- The drone after its `Update`, whatever becomes of its rider. -/
def fly (dt : K) (d : Drone K) : Drone K :=
  match d.toRobot, d.toFinalDestination with
  | some strategy, _ => d.fetch dt strategy
  | none, some strategy => d.deliver dt strategy
  | none, none => d

theorem fly_idle (dt : K) {d : Drone K} (h : d.Idle) : d.fly dt = d := by
  rw [fly, h.toRobot, h.toFinalDestination]

theorem speed_fly (dt : K) (d : Drone K) : (d.fly dt).speed = d.speed := by
  have hspeed (strategy : IStrategy K) : (strategy.move dt d).2.speed = d.speed :=
    move_frame Drone.speed (fun _ => rfl) dt strategy d
  unfold fly
  split
  · unfold fetch
    split <;> exact hspeed _
  · unfold deliver
    simp only
    split <;> exact hspeed _
  · rfl

end Drone

namespace SimulationModel

variable {s : SimulationModel K} {id : Nat} {d : Drone K}

/-- Riders are robots, so that none of them is the drone. -/
theorem Paired.rider_ne (h : Paired s) (hd : s.objects id = some (.drone d)) {a : Nat}
    {r : TypeDecorator} (hr : s.riderOf a = some r) : r.getId ≠ id := by
  obtain ⟨robot, hrobot⟩ := Paired.robot_of_scheduler h.wellFormed (h.listed a r hr)
  intro heq
  rw [heq, hd] at hrobot
  cases hrobot

theorem riderOf_of_drone (hd : s.objects id = some (.drone d)) :
    s.riderOf id = d.nearestEntity := by
  rw [riderOf, hd]
  rfl

theorem objects_carry (pos dir : Vector3 K) {a : Nat} (hne : a ≠ id) :
    ((s.modify a (Object.setPosition pos)).modify a (Object.setDirection dir)).objects id =
      s.objects id :=
  (Paired.modify_of_ne _ _ hne.symm).trans (Paired.modify_of_ne s _ hne.symm)

/-- The rider of the drone may be moved, if it is another object. -/
theorem objects_ride (t : SimulationModel K) (a : Nat) (d' : Drone K)
    (hrider : ∀ r, d'.nearestEntity = some r → r.getId ≠ a) :
    (match d'.nearestEntity, d'.pickedUp with
      | some rider, true => (t.modify rider.getId (Object.setPosition d'.position)).modify
          rider.getId (Object.setDirection d'.direction)
      | _, _ => t).objects a = t.objects a := by
  split
  · next rider hr _ => exact objects_carry _ _ (hrider rider hr)
  · rfl

variable [Scalar K]

theorem objects_updateDrone (hd : s.objects id = some (.drone d)) (dt : K)
    (hrider : ∀ r, d.nearestEntity = some r → r.getId ≠ id) :
    (s.updateDrone id d dt).objects id = some (.drone (d.fly dt)) := by
  unfold updateDrone Drone.fly
  cases hrobot : d.toRobot with
  | some strategy => exact Paired.modify_self s _ hd
  | none =>
      cases hfinal : d.toFinalDestination with
      | none => exact hd
      | some strategy =>
          have hnearest : (strategy.move dt d).2.nearestEntity = d.nearestEntity :=
            Drone.move_frame Drone.nearestEntity (fun _ => rfl) dt strategy d
          have hride := (objects_ride _ id (strategy.move dt d).2
            (fun r hr => hrider r (hnearest ▸ hr))).trans
            (Paired.modify_self s (fun _ => .drone { (strategy.move dt d).2 with
              toFinalDestination := some (strategy.move dt d).1 }) hd)
          simp only [Drone.deliver]
          split
          · exact Paired.modify_self _ _ hride
          · exact hride

/-- Apart from the drone and its rider nothing is changed. -/
theorem objects_updateDrone_of_ne (dt : K) {a : Nat} (hne : a ≠ id)
    (hrider : ∀ r, d.nearestEntity = some r → r.getId ≠ a) :
    (s.updateDrone id d dt).objects a = s.objects a := by
  unfold updateDrone
  cases hrobot : d.toRobot with
  | some strategy => exact Paired.modify_of_ne s _ hne
  | none =>
      cases hfinal : d.toFinalDestination with
      | none => rfl
      | some strategy =>
          have hnearest : (strategy.move dt d).2.nearestEntity = d.nearestEntity :=
            Drone.move_frame Drone.nearestEntity (fun _ => rfl) dt strategy d
          have hride := (objects_ride _ a (strategy.move dt d).2
            (fun r hr => hrider r (hnearest ▸ hr))).trans
            (Paired.modify_of_ne s (fun _ => .drone { (strategy.move dt d).2 with
              toFinalDestination := some (strategy.move dt d).1 }) hne)
          simp only
          split
          · exact (Paired.modify_of_ne _ _ hne).trans hride
          · exact hride

variable (world : World K)

/-- A call of `Update` flies the drone on if it is the drone's own. -/
theorem drone_updateEntity (h : Paired s) (hd : s.objects id = some (.drone d))
    (e : TypeDecorator) (dt : K) :
    (s.updateEntity world e dt).objects id =
      some (.drone (if e.getId = id then d.fly dt else d)) := by
  have hrider (a : Nat) (d' : Drone K) (hd' : s.objects a = some (.drone d')) (r : TypeDecorator)
      (hr : d'.nearestEntity = some r) : r.getId ≠ id :=
    h.rider_ne hd (a := a) (by rw [riderOf_of_drone hd', hr])
  unfold updateEntity
  by_cases he : e.getId = id
  · subst he
    simp only [note, hd, if_true]
    exact objects_updateDrone (s := s.note (.updated e dt)) hd dt (hrider _ d hd)
  · rw [if_neg he, ← hd]
    simp only [note]
    split
    · next d' hd' =>
        exact objects_updateDrone_of_ne (s := s.note (.updated e dt)) dt (Ne.symm he)
          (hrider _ d' hd')
    · simp only [updateHuman]
      repeat' split
      all_goals exact Paired.modify_of_ne _ _ (Ne.symm he)
    · simp only [updateHelicopter]
      repeat' split
      all_goals exact Paired.modify_of_ne _ _ (Ne.symm he)
    · simp only [updateUfo]
      repeat' split
      all_goals exact Paired.modify_of_ne _ _ (Ne.symm he)
    · rfl
    · rfl

/-! ### One entity in its turn -/

theorem objects_updateOne (s : SimulationModel K) (dt : K) (e : TypeDecorator) :
    (s.updateOne world dt e).objects = (handle world dt e s.scheduler chain s).objects := by
  simp only [updateOne]
  split <;> rfl

theorem Paired.handle (h : Paired s) (dt : K) {e : TypeDecorator} (he : e ∈ s.entities)
    {handlers : List HandlerClass} (links : ∀ c ∈ handlers, c ∈ chain) :
    Paired (handle world dt e s.scheduler handlers s) :=
  invariant_of_stages (fun _ _ hs hp => hp.stage world hs) (stages_handle world s dt he links) h

theorem Paired.updateOne (h : Paired s) (dt : K) {e : TypeDecorator} (he : e ∈ s.entities) :
    Paired (s.updateOne world dt e) :=
  invariant_of_stages (fun _ _ hs hp => hp.stage world hs) (stages_updateOne world s dt he) h

theorem drone_assign_of_ne (h : Paired s) (hd : s.objects id = some (.drone d)) {c : HandlerClass}
    {e rider : TypeDecorator} (hne : e.getId ≠ id) (handled : s.handles c e = true)
    (found : s.findRider c s.scheduler = some rider) :
    (s.assign world c e rider).objects id = some (.drone d) := by
  obtain ⟨d', robot, hd', hrobot, _, hother, _, _⟩ :=
    Paired.found_spec h.wellFormed handled found
  rw [(Paired.assign_spec world c hd' hrobot hother).others id (Ne.symm hne), hd]
  intro heq
  rw [← heq, hd] at hrobot
  cases hrobot

/-- The turn of another entity. -/
theorem drone_handle_of_ne (h : Paired s) (hd : s.objects id = some (.drone d)) (dt : K)
    {e : TypeDecorator} (he : e ∈ s.entities) (hne : e.getId ≠ id) {handlers : List HandlerClass}
    (links : ∀ c ∈ handlers, c ∈ chain) :
    (handle world dt e s.scheduler handlers s).objects id = some (.drone d) := by
  induction handlers with
  | nil => exact hd
  | cons c next ih =>
      have hsame (t : SimulationModel K) (ht : Paired t)
          (htd : t.objects id = some (.drone d)) :
          (t.updateEntity world e dt).objects id = some (.drone d) := by
        rw [drone_updateEntity world ht htd, if_neg hne]
      have hnext : ∀ c' ∈ next, c' ∈ chain := fun c' hc' => links c' (List.mem_cons_of_mem _ hc')
      simp only [SimulationModel.handle]
      split
      · next handled =>
          split
          · next available =>
              split
              · exact hsame s h hd
              · next rider found =>
                  refine hsame _ ?_ (drone_assign_of_ne world h hd hne handled found)
                  exact h.stage world (.assigned c e rider (links c List.mem_cons_self) he handled
                    available found)
          · exact hsame s h hd
      · exact hsame _ (h.handle world dt he hnext) (ih hnext)

/-- The drone's own turn, when it is not free. -/
theorem drone_handle_busy (h : Paired s) (hd : s.objects id = some (.drone d))
    (hbusy : d.available = false) (dt : K) {e : TypeDecorator} (he : e ∈ s.entities)
    (hid : e.getId = id) {handlers : List HandlerClass} (links : ∀ c ∈ handlers, c ∈ chain) :
    ∃ k, (handlers ≠ [] → 0 < k) ∧
      (handle world dt e s.scheduler handlers s).objects id =
        some (.drone ((Drone.fly dt)^[k] d)) := by
  induction handlers with
  | nil => exact ⟨0, fun hnil => absurd rfl hnil, hd⟩
  | cons c next ih =>
      have hnext : ∀ c' ∈ next, c' ∈ chain := fun c' hc' => links c' (List.mem_cons_of_mem _ hc')
      simp only [SimulationModel.handle]
      split
      · have havailable : (s.objects e.getId).bind Object.getAvailability ≠ some true := by
          simp [hid, hd, Object.getAvailability, hbusy]
        refine ⟨1, fun _ => Nat.one_pos, ?_⟩
        rw [if_neg havailable, drone_updateEntity world h hd, if_pos hid]
        rfl
      · obtain ⟨k, _, hk⟩ := ih hnext
        refine ⟨k + 1, fun _ => Nat.succ_pos k, ?_⟩
        rw [drone_updateEntity world (h.handle world dt he hnext) hk, if_pos hid,
          Function.iterate_succ_apply']

/-- The drone's own turn, when it is idle and nobody waits for it. -/
theorem drone_handle_idle (h : Paired s) (hd : s.objects id = some (.drone d)) (hidle : d.Idle)
    (dt : K) {e : TypeDecorator} (he : e ∈ s.entities) {handlers : List HandlerClass}
    (links : ∀ c ∈ handlers, c ∈ chain)
    (hnone : ∀ c ∈ handlers, s.handles c e = true → s.findRider c s.scheduler = none) :
    (handle world dt e s.scheduler handlers s).objects id = some (.drone d) := by
  have hsame (t : SimulationModel K) (ht : Paired t) (htd : t.objects id = some (.drone d)) :
      (t.updateEntity world e dt).objects id = some (.drone d) := by
    rw [drone_updateEntity world ht htd, Drone.fly_idle dt hidle, ite_self]
  induction handlers with
  | nil => exact hd
  | cons c next ih =>
      have hnext : ∀ c' ∈ next, c' ∈ chain := fun c' hc' => links c' (List.mem_cons_of_mem _ hc')
      simp only [SimulationModel.handle]
      split
      · next handled =>
          rw [hnone c List.mem_cons_self handled]
          simp only [ite_self]
          exact hsame s h hd
      · exact hsame _ (h.handle world dt he hnext)
          (ih hnext fun c' hc' => hnone c' (List.mem_cons_of_mem _ hc'))

/-- The turns of other entities. -/
theorem drone_foldl (h : Paired s) (hd : s.objects id = some (.drone d)) (dt : K)
    (es : List TypeDecorator) (hes : ∀ e ∈ es, e ∈ s.entities) (hne : ∀ e ∈ es, e.getId ≠ id) :
    Paired (es.foldl (SimulationModel.updateOne world dt) s) ∧
      (es.foldl (SimulationModel.updateOne world dt) s).objects id = some (.drone d) := by
  induction es generalizing s with
  | nil => exact ⟨h, hd⟩
  | cons e es ih =>
      have he := hes e List.mem_cons_self
      rw [List.foldl_cons]
      refine ih (h.updateOne world dt he) ?_ ?_ fun a ha => hne a (List.mem_cons_of_mem _ ha)
      · rw [objects_updateOne]
        exact drone_handle_of_ne world h hd dt he (hne e List.mem_cons_self) fun _ hc => hc
      · intro a ha
        rw [(Steady.updateOne world dt s e).entities]
        exact hes a (List.mem_cons_of_mem _ ha)

/-! ### One update of the simulation -/

/-- No update makes a robot available. -/
theorem robotFree_handle (h : Paired s) (dt : K) {e : TypeDecorator} (he : e ∈ s.entities)
    {handlers : List HandlerClass} (links : ∀ c ∈ handlers, c ∈ chain) {a : Nat}
    (ha : (handle world dt e s.scheduler handlers s).robotFree a = some true) :
    s.robotFree a = some true := by
  induction handlers with
  | nil => exact ha
  | cons c next ih =>
      have hcalm (t : SimulationModel K) :=
        Paired.robotFree_calm (Calm.updateEntity world t e dt) a
      simp only [SimulationModel.handle] at ha
      split at ha
      · next handled =>
          rw [hcalm] at ha
          split at ha
          · split at ha
            · exact ha
            · next rider found =>
                have hpairs := h.assign_pairs world he handled found
                by_cases hrider : a = rider.getId
                · rw [hrider, hpairs.isTaken] at ha
                  cases ha
                · rwa [hpairs.freeOther a hrider] at ha
          · exact ha
      · rw [hcalm] at ha
        exact ih (fun c' hc' => links c' (List.mem_cons_of_mem _ hc')) ha

theorem robotFree_updateOne (h : Paired s) (dt : K) {e : TypeDecorator} (he : e ∈ s.entities)
    {a : Nat} (ha : (s.updateOne world dt e).robotFree a = some true) :
    s.robotFree a = some true := by
  rw [robotFree, objects_updateOne] at ha
  exact robotFree_handle world h dt he (fun _ hc => hc) ha

theorem robotFree_foldl (h : Paired s) (dt : K) (es : List TypeDecorator)
    (hes : ∀ e ∈ es, e ∈ s.entities) {a : Nat}
    (ha : (es.foldl (SimulationModel.updateOne world dt) s).robotFree a = some true) :
    s.robotFree a = some true := by
  induction es generalizing s with
  | nil => exact ha
  | cons e es ih =>
      have he := hes e List.mem_cons_self
      refine robotFree_updateOne world h dt he (ih (h.updateOne world dt he) ?_ ha)
      intro a ha
      rw [(Steady.updateOne world dt s e).entities]
      exact hes a (List.mem_cons_of_mem _ ha)

/-- An update up to the turn of a drone's entity, the turn, and the rest. -/
theorem update_turn (h : Paired s) (hl : Listed s) {e : TypeDecorator} (he : e ∈ s.entities)
    (hd : s.objects e.getId = some (.drone d)) (dt : K) :
    ∃ (t : SimulationModel K) (es' : List TypeDecorator), Paired t ∧ Steady s t ∧
      t.objects e.getId = some (.drone d) ∧
      (∀ a, t.robotFree a = some true → s.robotFree a = some true) ∧
      s.update world dt = es'.foldl (SimulationModel.updateOne world dt)
        (t.updateOne world dt e) ∧
      (∀ a ∈ es', a ∈ s.entities) ∧ ∀ a ∈ es', a.getId ≠ e.getId := by
  obtain ⟨es, es', hsplit, hbefore, hafter⟩ := hl.turn he
  have hmem : ∀ a ∈ es, a ∈ s.entities := fun a ha => by
    rw [hsplit]
    exact List.mem_append_left _ ha
  obtain ⟨ht, htd⟩ := drone_foldl world h hd dt es hmem hbefore
  refine ⟨_, es', ht, Steady.foldl_updateOne world dt es s, htd,
    fun a => robotFree_foldl world h dt es hmem, ?_, ?_, hafter⟩
  · rw [update, hsplit, List.foldl_append, List.foldl_cons]
  · intro a ha
    rw [hsplit]
    exact List.mem_append_right _ (List.mem_cons_of_mem _ ha)

/-- What its own turn makes of a drone is left of the update. -/
theorem drone_update (h : Paired s) (hl : Listed s) {e : TypeDecorator} (he : e ∈ s.entities)
    (hd : s.objects e.getId = some (.drone d)) (dt : K) {P : Drone K → Prop}
    (hturn : ∀ t, Paired t → Steady s t → t.objects e.getId = some (.drone d) →
      (∀ a, t.robotFree a = some true → s.robotFree a = some true) →
      ∃ d', (handle world dt e t.scheduler chain t).objects e.getId = some (.drone d') ∧ P d') :
    ∃ d', (s.update world dt).objects e.getId = some (.drone d') ∧ P d' := by
  obtain ⟨t, es', ht, hsteady, htd, hfree, heq, hmem, hne⟩ := update_turn world h hl he hd dt
  obtain ⟨d', hd', hP⟩ := hturn t ht hsteady htd hfree
  have het : e ∈ t.entities := by
    rw [hsteady.entities]
    exact he
  refine ⟨d', ?_, hP⟩
  rw [heq]
  refine (drone_foldl world (ht.updateOne world dt het) ?_ dt es' ?_ hne).2
  · rw [objects_updateOne]
    exact hd'
  · intro a ha
    rw [(Steady.updateOne world dt t e).entities, hsteady.entities]
    exact hmem a ha

/-- A drone on a trip is flown on, as often as the handlers call its `Update`. -/
theorem drone_update_busy (h : Paired s) (hl : Listed s) (hd : s.objects id = some (.drone d))
    (hbusy : d.available = false) (dt : K) :
    ∃ k, 0 < k ∧ (s.update world dt).objects id = some (.drone ((Drone.fly dt)^[k] d)) := by
  obtain ⟨e, he, rfl⟩ := hl.all id (by simp [hd])
  obtain ⟨d', hd', k, hk, rfl⟩ := drone_update world h hl he hd dt
    (P := fun d' => ∃ k, 0 < k ∧ d' = (Drone.fly dt)^[k] d) (by
      intro t ht hsteady htd _
      obtain ⟨k, hk, hfly⟩ := drone_handle_busy world ht htd hbusy dt
        (hsteady.entities.symm ▸ he) rfl fun _ hc => hc
      exact ⟨_, hfly, k, hk (List.cons_ne_nil _ _), rfl⟩)
  exact ⟨k, hk, hd'⟩

end SimulationModel

end UmnProjects.Transit
