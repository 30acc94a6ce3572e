import Mathlib.Data.Finset.Card
import UmnProjects.Server.QueueInvariant

/-!
Who is about to take what a sleeping thread waits for. Each update is followed by one
signal under the same mutex, so the threads on their way to an item or a free slot are
short of the number on offer by at most the one that has not been announced yet.
-/
namespace UmnProjects.Server
open Runs

/-- At least `n` members satisfy the predicate. -/
def AtLeast (n : Int) (P : ThreadId → Prop) : Prop :=
  ∃ S : Finset ThreadId, (∀ u ∈ S, P u) ∧ n ≤ S.card

namespace AtLeast

variable {n : Int} {P Q : ThreadId → Prop}

theorem of_nonpos (h : n ≤ 0) : AtLeast n P :=
  ⟨∅, by simp, by simpa using h⟩

theorem mono (h : AtLeast n P) (sub : ∀ u, P u → Q u) {m : Int} (le : m ≤ n) :
    AtLeast m Q := by
  obtain ⟨S, hS, hn⟩ := h
  exact ⟨S, fun u hu => sub u (hS u hu), le.trans hn⟩

/-- One member may be lost. -/
theorem erase (h : AtLeast n P) (t : ThreadId) (sub : ∀ u, u ≠ t → P u → Q u) :
    AtLeast (n - 1) Q := by
  obtain ⟨S, hS, hn⟩ := h
  refine ⟨S.erase t, ?_, ?_⟩
  · intro u hu
    obtain ⟨hne, hmem⟩ := Finset.mem_erase.mp hu
    exact sub u hne (hS u hmem)
  · have hcard := Finset.pred_card_le_card_erase (s := S) (a := t)
    omega

/-- A new member counts. -/
theorem insert (h : AtLeast (n - 1) P) {t : ThreadId} (new : ¬ P t) (ht : Q t)
    (sub : ∀ u, P u → Q u) : AtLeast n Q := by
  obtain ⟨S, hS, hn⟩ := h
  have hout : t ∉ S := fun hmem => new (hS t hmem)
  refine ⟨Insert.insert t S, ?_, ?_⟩
  · intro u hu
    obtain rfl | hu := Finset.mem_insert.mp hu
    · exact ht
    · exact sub u (hS u hu)
  · rw [Finset.card_insert_of_notMem hout]
    omega

end AtLeast

/-- The thread is in a call that waits on the condition, awake, and has yet to test the
`while` condition again or to change the queue. -/
def Thread.Pending (k : Cond) : Thread → Prop
  | .locking c | .testing c | .woken c | .updating c => c.waitsOn = k
  | _ => False

/-- The thread has changed the queue and not yet signalled the condition. -/
def Thread.Announcing (k : Cond) : Thread → Prop
  | .signalling c _ => c.signals = k
  | _ => False

/-- The thread has found the `while` condition true and still holds the mutex. -/
def Thread.Refused (c : Call) (p : Thread) : Prop :=
  p = .flagTest c ∨ p = .entering c

/-- What is there for a thread that waits on the condition: items, or free slots. -/
def Ring.onOffer (CAPACITY : Nat) (r : Ring) : Cond → Int
  | .empty => r.length
  | .full => CAPACITY - r.length

/-- The offers are taken care of, up to the one that is still to be announced. -/
def State.Attended (CAPACITY : Nat) (s : State) (k : Cond) : Prop :=
  AtLeast (s.ring.onOffer CAPACITY k) (fun u => (s.threads u).Pending k) ∨
    (∃ u, (s.threads u).Announcing k) ∧
      AtLeast (s.ring.onOffer CAPACITY k - 1) (fun u => (s.threads u).Pending k)

structure Watched (CAPACITY : Nat) (s : State) : Prop where
  refused : ∀ t c, (s.threads t).Refused c → c.blocked CAPACITY s.ring = true
  attended : ∀ k, s.waitSet k ≠ [] → s.Attended CAPACITY k

@[simp] theorem Thread.announcing_wake (p : Thread) (k : Cond) :
    p.wake.Announcing k ↔ p.Announcing k := by
  cases p <;> rfl

@[simp] theorem Thread.refused_wake (p : Thread) (c : Call) :
    p.wake.Refused c ↔ p.Refused c := by
  cases p <;> simp [Thread.Refused, Thread.wake]

theorem Thread.Pending.wake {p : Thread} {k : Cond} (h : p.Pending k) : p.wake.Pending k := by
  cases p with
  | locking c | testing c | woken c | updating c => exact h
  | _ => exact h.elim

theorem Thread.Refused.inSection {p : Thread} {c : Call} (h : p.Refused c) : p.InSection := by
  obtain rfl | rfl := h
  · trivial
  · trivial

theorem Thread.Announcing.inSection {p : Thread} {k : Cond} (h : p.Announcing k) :
    p.InSection := by
  cases p with
  | signalling c ret => trivial
  | _ => exact h.elim

theorem Call.eq_signals {c : Call} {k : Cond} (h : k ≠ c.waitsOn) : k = c.signals := by
  cases c with
  | enqueue _ | dequeue =>
      cases k with
      | empty | full => simp_all [Call.waitsOn, Call.signals]

section Offers

variable {CAPACITY : Nat} {r : Ring} {c : Call}

theorem onOffer_of_blocked (h : c.blocked CAPACITY r = true) :
    r.onOffer CAPACITY c.waitsOn = 0 := by
  cases c with
  | enqueue connectionFd => simp_all [Call.blocked, Call.waitsOn, Ring.onOffer]
  | dequeue => simpa [Call.blocked, Call.waitsOn, Ring.onOffer] using h

theorem onOffer_update_waitsOn :
    (c.update CAPACITY r).2.onOffer CAPACITY c.waitsOn =
      r.onOffer CAPACITY c.waitsOn - 1 := by
  cases c with
  | enqueue connectionFd =>
      simp only [Call.waitsOn, Call.update, Ring.onOffer]
      omega
  | dequeue => rfl

theorem onOffer_update_signals :
    (c.update CAPACITY r).2.onOffer CAPACITY c.signals =
      r.onOffer CAPACITY c.signals + 1 := by
  cases c with
  | enqueue connectionFd => rfl
  | dequeue =>
      simp only [Call.signals, Call.update, Ring.onOffer]
      omega

end Offers

namespace Watched

variable {CAPACITY : Nat} {s : State}

theorem init : Watched CAPACITY connectionQueueInit where
  refused := by
    intro t c h
    obtain h | h := h
    · cases h
    · cases h
  attended := by
    intro k h
    exact absurd rfl h

/-- A step that leaves the ring alone, puts nobody to sleep and takes nobody away from
what is on offer. -/
theorem keep (h : Watched CAPACITY s) {s' : State} (ring : s'.ring = s.ring)
    (refused : ∀ t c, (s'.threads t).Refused c → (s.threads t).Refused c ∨
      c.blocked CAPACITY s.ring = true)
    (waitSet : ∀ k, s.waitSet k = [] → s'.waitSet k = [])
    (pending : ∀ t k, (s.threads t).Pending k → (s'.threads t).Pending k ∨
      s.ring.onOffer CAPACITY k = 0)
    (announcing : ∀ t k, (s.threads t).Announcing k → (s'.threads t).Announcing k) :
    Watched CAPACITY s' := by
  have offers : ∀ k, s'.ring.onOffer CAPACITY k = s.ring.onOffer CAPACITY k := by
    intro k
    rw [ring]
  refine ⟨?_, ?_⟩
  · intro t c ht
    rw [ring]
    obtain ht | hb := refused t c ht
    · exact h.refused t c ht
    · exact hb
  · intro k hk
    unfold State.Attended
    rw [offers]
    by_cases h0 : s.ring.onOffer CAPACITY k = 0
    · exact .inl (.of_nonpos h0.le)
    · have still : ∀ u, (s.threads u).Pending k → (s'.threads u).Pending k := by
        intro u hu
        exact (pending u k hu).resolve_right h0
      obtain hall | hmost := h.attended k (mt (waitSet k) hk)
      · exact .inl (hall.mono still le_rfl)
      · obtain ⟨⟨u, hu⟩, hmost⟩ := hmost
        exact .inr ⟨⟨u, announcing u k hu⟩, hmost.mono still le_rfl⟩

theorem goto (h : Watched CAPACITY s) {t : ThreadId} {p : Thread}
    (refused : ∀ c, p.Refused c → (s.threads t).Refused c ∨ c.blocked CAPACITY s.ring = true)
    (pending : ∀ k, (s.threads t).Pending k → p.Pending k ∨ s.ring.onOffer CAPACITY k = 0)
    (announcing : ∀ k, (s.threads t).Announcing k → p.Announcing k) :
    Watched CAPACITY (s.goto t p) := by
  refine h.keep rfl ?_ (fun _ hk => hk) ?_ ?_
  · intro u c hu
    by_cases hut : u = t
    · subst u
      exact refused c (by simpa using hu)
    · exact .inl (by simpa [hut] using hu)
  · intro u k hu
    by_cases hut : u = t
    · subst u
      simpa using pending k hu
    · exact .inl (by simpa [hut] using hu)
  · intro u k hu
    by_cases hut : u = t
    · subst u
      simpa using announcing k hu
    · simpa [hut] using hu

theorem wake (h : Watched CAPACITY s) (k : Cond) (chosen : List ThreadId) :
    Watched CAPACITY (s.wake k chosen) := by
  refine h.keep rfl ?_ ?_ ?_ ?_
  · intro u c hu
    obtain hp | hp := s.wake_cases k chosen u
    · exact .inl (hp ▸ hu)
    · exact .inl (by simpa [hp] using hu)
  · intro k' hk'
    apply List.eq_nil_iff_forall_not_mem.mpr
    intro u hu
    have hmem := ((s.mem_wake_waitSet k chosen k' u).mp hu).1
    simp [hk'] at hmem
  · intro u k' hu
    obtain hp | hp := s.wake_cases k chosen u
    · exact .inl (hp.symm ▸ hu)
    · exact .inl (hp.symm ▸ hu.wake)
  · intro u k' hu
    obtain hp | hp := s.wake_cases k chosen u
    · exact hp.symm ▸ hu
    · simpa [hp] using hu

/-- A thread moves on that has nothing to announce and does not turn to waiting. -/
theorem pass (h : Watched CAPACITY s) {t : ThreadId} {q p : Thread} (pc : s.threads t = q)
    (refused : ∀ c, ¬ p.Refused c) (pending : ∀ k, q.Pending k → p.Pending k)
    (quiet : ∀ k, ¬ q.Announcing k) : Watched CAPACITY (s.goto t p) := by
  subst pc
  apply h.goto
  · intro c hc
    exact absurd hc (refused c)
  · intro k hk
    exact .inl (pending k hk)
  · intro k hk
    exact absurd hk (quiet k)

/-- The mutex and the shutdown are not looked at. -/
theorem withFields (h : Watched CAPACITY s) (m : Option ThreadId) (flag : Int) (p : Shutdown) :
    Watched CAPACITY { s with mutex := m, shutdown := flag, closing := p } :=
  ⟨h.refused, h.attended⟩

/-- Only the one who holds the mutex sleeps, so nothing is on offer then. -/
theorem sleep (h : Watched CAPACITY s) {t : ThreadId} {c : Call}
    (pc : s.threads t = .entering c) :
    Watched CAPACITY { s.goto t (.waiting c) with
      mutex := none
      waitSet := fun k => if k = c.waitsOn then s.waitSet k ++ [t] else s.waitSet k } := by
  have nothing := onOffer_of_blocked (h.refused t c (.inr pc))
  have moved : Watched CAPACITY (s.goto t (.waiting c)) :=
    h.pass pc (by simp [Thread.Refused]) (by simp [Thread.Pending]) (by simp [Thread.Announcing])
  refine ⟨moved.refused, ?_⟩
  intro k hk
  by_cases hkc : k = c.waitsOn
  · subst hkc
    exact .inl (.of_nonpos nothing.le)
  · exact moved.attended k (by simpa [hkc] using hk)

/-- After the update there is one item less or one more, and it is still to be announced. -/
theorem update (h : Watched CAPACITY s) (inv : Inv CAPACITY s) {t : ThreadId} {c : Call}
    (pc : s.threads t = .updating c) :
    Watched CAPACITY { (s.record t (c.update CAPACITY s.ring).1 c).goto t
        (.signalling c (c.update CAPACITY s.ring).1) with
      ring := (c.update CAPACITY s.ring).2 } := by
  have inside : (s.threads t).InSection := by simp [pc, Thread.InSection]
  have others : ∀ k u, u ≠ t → (s.threads u).Pending k →
      (((s.record t (c.update CAPACITY s.ring).1 c).goto t
        (.signalling c (c.update CAPACITY s.ring).1)).threads u).Pending k := by
    intro k u hut hu
    simpa [hut] using hu
  refine ⟨?_, ?_⟩
  · intro u c' hu
    by_cases hut : u = t
    · subst u
      simp [Thread.Refused] at hu
    · have hu' : (s.threads u).Refused c' := by simpa [hut] using hu
      exact absurd (inv.alone inside hu'.inSection) hut
  · intro k hk
    have all : AtLeast (s.ring.onOffer CAPACITY k) (fun u => (s.threads u).Pending k) := by
      obtain hall | hmost := h.attended k (by simpa using hk)
      · exact hall
      · -- nobody else holds the mutex, so nothing was left to announce
        obtain ⟨⟨u, hu⟩, _⟩ := hmost
        have hut := inv.alone inside hu.inSection
        subst u
        simp [pc, Thread.Announcing] at hu
    by_cases hkc : k = c.waitsOn
    · subst hkc
      left
      rw [onOffer_update_waitsOn]
      exact all.erase t (others _)
    · have hks := Call.eq_signals hkc
      subst hks
      right
      refine ⟨⟨t, ?_⟩, ?_⟩
      · simp [Thread.Announcing]
      · rw [onOffer_update_signals]
        refine all.mono ?_ (by omega)
        intro u hu
        by_cases hut : u = t
        · subst u
          simp only [pc, Thread.Pending] at hu
          exact absurd hu.symm hkc
        · exact others _ u hut hu

/-- The signal makes up for the update: it wakes one more for the item, or nobody is asleep. -/
theorem signal (h : Watched CAPACITY s) (inv : Inv CAPACITY s) {t : ThreadId} {c : Call}
    {ret : Int} {chosen : List ThreadId} (pc : s.threads t = .signalling c ret)
    (waiters : ∀ u ∈ chosen, u ∈ s.waitSet c.signals)
    (some : chosen = [] → s.waitSet c.signals = []) :
    Watched CAPACITY ((s.wake c.signals chosen).goto t (.unlocking c ret)) := by
  have awake : (s.wake c.signals chosen).threads t = .signalling c ret := by
    obtain hp | hp := s.wake_cases c.signals chosen t
    · rw [hp, pc]
    · rw [hp, pc]
      rfl
  have inside : (s.threads t).InSection := by simp [pc, Thread.InSection]
  have still : ∀ k u, (s.threads u).Pending k →
      (((s.wake c.signals chosen).goto t (.unlocking c ret)).threads u).Pending k := by
    intro k u hu
    by_cases hut : u = t
    · subst u
      simp [pc, Thread.Pending] at hu
    · obtain hp | hp := s.wake_cases c.signals chosen u
      · simpa [hut, hp] using hu
      · simpa [hut, hp] using hu.wake
  refine ⟨?_, ?_⟩
  · intro u c' hu
    by_cases hut : u = t
    · subst u
      simp [Thread.Refused] at hu
    · exact (h.wake c.signals chosen).refused u c' (by simpa [hut] using hu)
  · intro k hk
    have slept : s.waitSet k ≠ [] := by
      obtain ⟨u, hu⟩ := List.exists_mem_of_ne_nil _ hk
      exact List.ne_nil_of_mem ((s.mem_wake_waitSet c.signals chosen k u).mp hu).1
    left
    obtain hall | hmost := h.attended k slept
    · exact hall.mono (still k) le_rfl
    · obtain ⟨⟨u, hu⟩, hmost⟩ := hmost
      have hut := inv.alone inside hu.inSection
      subst u
      have hks : c.signals = k := by simpa [pc, Thread.Announcing] using hu
      subst hks
      obtain ⟨v, hv⟩ := List.exists_mem_of_ne_nil _ (mt some slept)
      obtain ⟨c', hvc, hck⟩ := (inv.waiters v _).mp (waiters v hv)
      have hvt : v ≠ t := by
        rintro rfl
        simp [hvc] at pc
      refine hmost.insert (t := v) ?_ ?_ (still _)
      · simp [hvc, Thread.Pending]
      · simpa [hvt, s.wake_threads, hv, hvc, Thread.wake, Thread.Pending] using hck

theorem step {s' : State} {a : Action} (hs : step CAPACITY s a = some s')
    (succeeds : a.Succeeds) (inv : Inv CAPACITY s) (h : Watched CAPACITY s) :
    Watched CAPACITY s' := by
  cases effect_of_step hs with
  | call t c ready =>
      obtain pc | ⟨c', ret, pc⟩ := ready
      all_goals
        exact h.pass pc (by simp [Thread.Refused]) (by simp [Thread.Pending])
          (by simp [Thread.Announcing])
  | lock t c pc _ | relock t c pc _ =>
      have moved := h.pass pc (p := .testing c) (by simp [Thread.Refused])
        (by simp [Thread.Pending]) (by simp [Thread.Announcing])
      exact moved.withFields (some t) _ _
  | lockFailed _ _ _ | waitFailed _ _ _ | signalFailed _ _ _ _ _ | unlockFailed _ _ _ _
  | broadcastEmptyFailed _ | broadcastFullFailed _ _ => cases succeeds
  | blocked t c pc test =>
      have nothing := onOffer_of_blocked test
      apply h.goto
      · intro c' hc'
        obtain hc' | hc' := hc' <;> cases hc'
        exact .inr test
      · intro k hk
        simp only [pc, Thread.Pending] at hk
        exact .inr (hk ▸ nothing)
      · simp [pc, Thread.Announcing]
  | passed t c pc _ =>
      exact h.pass pc (by simp [Thread.Refused]) (by simp [Thread.Pending])
        (by simp [Thread.Announcing])
  | stayed t c pc _ =>
      apply h.goto
      · intro c' hc'
        obtain hc' | hc' := hc' <;> cases hc'
        exact .inl (.inl pc)
      · simp [pc, Thread.Pending]
      · simp [pc, Thread.Announcing]
  | turnedAway t c pc _ =>
      exact h.pass pc (by simp [Thread.Refused]) (by simp [Thread.Pending])
        (by simp [Thread.Announcing])
  | wait t c pc => exact h.sleep pc
  | wakeup t c pc => exact h.wake _ _
  | update t c pc => exact h.update inv pc
  | signal t c ret chosen pc waiters some => exact h.signal inv pc waiters some
  | unlock t c ret pc =>
      have moved := h.pass pc (p := .returned c ret) (by simp [Thread.Refused])
        (by simp [Thread.Pending]) (by simp [Thread.Announcing])
      exact moved.withFields none _ _
  | setFlag pc => exact h.withFields s.mutex 1 .flagSet
  | broadcastEmpty pc => exact (h.wake .empty _).withFields _ _ _
  | broadcastFull retVal pc => exact (h.wake .full _).withFields _ _ _

theorem of_run (hc : 1 ≤ CAPACITY)
    (h : Run (Server.step CAPACITY) (fun _ a => a.Succeeds) connectionQueueInit s) :
    Inv CAPACITY s ∧ Watched CAPACITY s := by
  apply h.invariant (I := fun s => Inv CAPACITY s ∧ Watched CAPACITY s)
  · intro _ _ _ ok hs hi
    exact ⟨hi.1.step hs, hi.2.step hs ok hi.1⟩
  · exact ⟨Inv.init hc, init⟩

end Watched

/-- Over what is on offer to a sleeping thread others are awake and on their way to it, but
for one item or slot whose producer or consumer holds the mutex and is about to signal it. -/
theorem nobody_sleeps_over_offers {CAPACITY : Nat} (hc : 1 ≤ CAPACITY) {s : State}
    (h : Run (step CAPACITY) (fun _ a => a.Succeeds) connectionQueueInit s)
    {t : ThreadId} {c : Call} (asleep : s.threads t = .waiting c) :
    AtLeast (s.ring.onOffer CAPACITY c.waitsOn)
      (fun u => u ≠ t ∧ (s.threads u).Pending c.waitsOn) ∨
    (∃ u, s.mutex = some u ∧ (s.threads u).Announcing c.waitsOn) ∧
      AtLeast (s.ring.onOffer CAPACITY c.waitsOn - 1)
        (fun u => u ≠ t ∧ (s.threads u).Pending c.waitsOn) := by
  obtain ⟨inv, watched⟩ := Watched.of_run hc h
  have other : ∀ u, (s.threads u).Pending c.waitsOn → u ≠ t ∧ (s.threads u).Pending c.waitsOn := by
    intro u hu
    refine ⟨?_, hu⟩
    rintro rfl
    simp [asleep, Thread.Pending] at hu
  have member : t ∈ s.waitSet c.waitsOn := (inv.waiters t _).mpr ⟨c, asleep, rfl⟩
  obtain hall | hmost := watched.attended c.waitsOn (List.ne_nil_of_mem member)
  · exact .inl (hall.mono other le_rfl)
  · obtain ⟨⟨u, hu⟩, hmost⟩ := hmost
    exact .inr ⟨⟨u, inv.holder u hu.inSection, hu⟩, hmost.mono other le_rfl⟩

/-- A consumer asleep when a producer has put in a descriptor and not yet signalled it. -/
def unannouncedItem : List Action :=
  [.call 1 .dequeue, .lock 1 true, .test 1, .readFlag 1, .wait 1 true,
    .call 0 (.enqueue 7), .lock 0 true, .test 0, .update 0]

theorem unannouncedItem_run {s : State}
    (hs : perform (step 5) connectionQueueInit unannouncedItem = some s) :
    Run (step 5) (fun _ a => a.Succeeds) connectionQueueInit s := by
  apply run_of_perform hs
  intro a ha _
  have all : ∀ a ∈ unannouncedItem, a.Succeeds := by decide
  exact all a ha

theorem nobody_sleeps_over_offers_unannouncedItem :
    ∃ s, perform (step 5) connectionQueueInit unannouncedItem = some s ∧
      s.threads 1 = .waiting .dequeue ∧
      (AtLeast (s.ring.onOffer 5 .empty) (fun u => u ≠ 1 ∧ (s.threads u).Pending .empty) ∨
        (∃ u, s.mutex = some u ∧ (s.threads u).Announcing .empty) ∧
          AtLeast (s.ring.onOffer 5 .empty - 1)
            (fun u => u ≠ 1 ∧ (s.threads u).Pending .empty)) := by
  obtain ⟨s, hs⟩ : ∃ s, perform (step 5) connectionQueueInit unannouncedItem = some s :=
    ⟨_, rfl⟩
  have asleep : s.threads 1 = .waiting .dequeue := by
    cases hs
    rfl
  exact ⟨s, hs, asleep, nobody_sleeps_over_offers (by decide) (unannouncedItem_run hs) asleep⟩

theorem sleeps_over_unannouncedItem :
    ∃ s, Run (step 5) (fun _ a => a.Succeeds) connectionQueueInit s ∧ s.shutdown = 0 ∧
      s.threads 1 = .waiting .dequeue ∧ s.ring.length = 1 ∧
      ¬ AtLeast s.ring.length (fun u => u ≠ 1 ∧ (s.threads u).Pending .empty) := by
  obtain ⟨s, hs⟩ : ∃ s, perform (step 5) connectionQueueInit unannouncedItem = some s :=
    ⟨_, rfl⟩
  refine ⟨s, unannouncedItem_run hs, ?_⟩
  cases hs
  refine ⟨rfl, rfl, rfl, ?_⟩
  intro hsome
  obtain ⟨S, hS, hcard⟩ := hsome
  have hpos : 0 < S.card := by
    have hlen : (1 : Int) ≤ S.card := hcard
    omega
  obtain ⟨u, hu⟩ := Finset.card_pos.mp hpos
  obtain ⟨hu1, hp⟩ := hS u hu
  by_cases hu0 : u = 0
  · subst hu0
    simp [State.goto, Thread.Pending] at hp
  · simp [State.goto, State.record, connectionQueueInit, hu0, hu1, Thread.Pending] at hp

end UmnProjects.Server
