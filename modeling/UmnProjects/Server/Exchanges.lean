import UmnProjects.Server.Connections

/-!
What happens to each client: whatever the schedule, its request is read once, by the worker that
took it out of the queue, it is answered at most once, by the same worker and with the path made
of its own request, and then its connection is closed.
-/
namespace UmnProjects.Server
open Runs

inductive Happening where
  | accepted
  | read (t : ThreadId) (request : Option (List Char))
  | written (t : ThreadId) (path : List Char)
  | closed (t : ThreadId)

/-- The entries for one client. -/
def told (i : Nat) (log : List (Option Nat × Happening)) : List Happening :=
  (log.filter (fun e => e.1 = some i)).map Prod.snd

theorem told_append (i : Nat) (log log' : List (Option Nat × Happening)) :
    told i (log ++ log') = told i log ++ told i log' := by
  simp [told]

@[simp] theorem told_nil (i : Nat) : told i [] = [] := rfl

@[simp] theorem told_self (i : Nat) (h : Happening) : told i [(some i, h)] = [h] := by
  simp [told]

theorem told_other {i j : Nat} (hij : j ≠ i) (h : Happening) : told i [(some j, h)] = [] := by
  simp [told, hij]

/-- Nothing is told of clients that no entry is about. -/
theorem told_eq_nil {i n : Nat} {log : List (Option Nat × Happening)} (hi : n ≤ i)
    (hlog : ∀ e ∈ log, ∃ j < n, e.1 = some j) : told i log = [] := by
  rw [told, List.map_eq_nil_iff, List.filter_eq_nil_iff]
  intro e he
  obtain ⟨j, hj, heq⟩ := hlog e he
  simp only [heq, Option.some.injEq, decide_eq_true_eq]
  omega

namespace HttpServer

/-- What a step does to a client, and to which: the one its descriptor stands for. -/
def happening (s : HttpServer) : Event → Option (Option Nat × Happening)
  | .accept (.client _) =>
      match s.main with
      | .accepting => some (some s.accepted.length, .accepted)
      | _ => none
  | .readHttpRequest t request =>
      match s.workers t with
      | .reading clientFd => some (s.descriptors clientFd, .read t request)
      | _ => none
  | .writeHttpResponse t _ =>
      match s.workers t with
      | .responding clientFd path => some (s.descriptors clientFd, .written t path)
      | _ => none
  | .close t =>
      match s.workers t with
      | .closing clientFd => some (s.descriptors clientFd, .closed t)
      | _ => none
  | .closeRefused =>
      match s.main with
      | .refused clientFd => some (s.descriptors clientFd, .closed 0)
      | _ => none
  | _ => none

section Logs

variable (N_THREADS CAPACITY : Nat) (serveDir : List Char)

/-- What happens to clients in a run. -/
def log : HttpServer → List Event → List (Option Nat × Happening)
  | _, [] => []
  | s, e :: es => (s.happening e).toList ++
      match step N_THREADS CAPACITY serveDir s e with
      | some s' => log s' es
      | none => []

theorem log_concat {s u : HttpServer} {es : List Event} {e : Event}
    (h : perform (step N_THREADS CAPACITY serveDir) s es = some u)
    (he : (step N_THREADS CAPACITY serveDir u e).isSome) :
    log N_THREADS CAPACITY serveDir s (es ++ [e]) =
      log N_THREADS CAPACITY serveDir s es ++ (u.happening e).toList := by
  induction es generalizing s with
  | nil =>
      cases h
      obtain ⟨v, hv⟩ := Option.isSome_iff_exists.mp he
      simp [log, hv]
  | cons a es ih =>
      rw [perform] at h
      cases ha : step N_THREADS CAPACITY serveDir s a with
      | none => simp [ha] at h
      | some v =>
          simp only [ha] at h
          simp only [List.cons_append, log, ha, ih h, List.append_assoc]

end Logs

/-- How far a client is, by the point of the worker that has it in hand. -/
inductive Course (serveDir : List Char) (t : ThreadId) : Worker → List Happening → Prop where
  | dequeuing : Course serveDir t .dequeuing [.accepted]
  | reading (clientFd : Int) : Course serveDir t (.reading clientFd) [.accepted]
  | responding (clientFd : Int) (request : List Char) :
      Course serveDir t (.responding clientFd (resourcePath serveDir request))
        [.accepted, .read t (some request)]
  | failed (clientFd : Int) : Course serveDir t (.closing clientFd) [.accepted, .read t none]
  | answered (clientFd : Int) (request : List Char) :
      Course serveDir t (.closing clientFd)
        [.accepted, .read t (some request), .written t (resourcePath serveDir request)]

/-- All that happens to a client that worker `t` serves. -/
inductive Served (serveDir : List Char) (t : ThreadId) : List Happening → Prop where
  | failed : Served serveDir t [.accepted, .read t none, .closed t]
  | answered (request : List Char) :
      Served serveDir t [.accepted, .read t (some request),
        .written t (resourcePath serveDir request), .closed t]

/-- What is told of the clients accepted so far. -/
structure Told (serveDir : List Char) (s : HttpServer)
    (log : List (Option Nat × Happening)) : Prop where
  numbered : ∀ e ∈ log, ∃ i < s.accepted.length, e.1 = some i
  waiting : ∀ i, s.queue.dequeued.length ≤ i → i < s.accepted.length → told i log = [.accepted]
  held : ∀ t clientFd i, s.inHand t = some clientFd → s.descriptors clientFd = some i →
    Course serveDir t (s.workers t) (told i log)
  done : ∀ i t clientFd, s.queue.dequeued[i]? = some (t, clientFd) →
    ¬ (s.inHand t = some clientFd ∧ s.descriptors clientFd = some i) →
    Served serveDir t (told i log)

theorem Course.begins_served {serveDir : List Char} {t : ThreadId} {w : Worker}
    {l : List Happening} (h : Course serveDir t w l) :
    ∃ l', Served serveDir t l' ∧ l <+: l' := by
  cases h with
  | dequeuing | reading clientFd | failed clientFd =>
      exact ⟨_, .failed, by simp⟩
  | responding clientFd request | answered clientFd request =>
      exact ⟨_, .answered request, by simp⟩

section Steps

variable {N_THREADS CAPACITY : Nat} {serveDir : List Char} {s s' : HttpServer} {e : Event}
  {log : List (Option Nat × Happening)}

/-- The ledger moves with one of its logs. -/
theorem ledger_quiet (hi : Invariant N_THREADS CAPACITY s)
    (h : Effect N_THREADS CAPACITY s e s') (succeeds : e.Succeeds)
    (accepted : s'.accepted = s.accepted) (dequeued : s'.queue.dequeued = s.queue.dequeued)
    (closed : s'.closed = s.closed) : s'.ledger = s.ledger := by
  obtain same | hstep := ledger_step h succeeds hi.control hi.queue.1 hi.accounts
  · exact same
  · have haccepted : s'.ledger.accepted = s.ledger.accepted := accepted
    have htaken : s'.ledger.taken = s.ledger.taken := dequeued
    have hclosed : s'.ledger.closed = s.ledger.closed := closed
    generalize s'.ledger = l' at hstep haccepted htaken hclosed
    cases hstep with
    | accept d _ => simp [Handover.Ledger.accept] at haccepted
    | take t d _ _ => simp [Handover.Ledger.take] at htaken
    | close t d _ => simp [Handover.Ledger.close] at hclosed

theorem Told.frame (h : Told serveDir s log) (ledger : s'.ledger = s.ledger)
    (course : ∀ t clientFd l, s.inHand t = some clientFd → Course serveDir t (s.workers t) l →
      Course serveDir t (s'.workers t) l) : Told serveDir s' log := by
  have accepted : s'.accepted = s.accepted := congrArg Handover.Ledger.accepted ledger
  have dequeued : s'.queue.dequeued = s.queue.dequeued := congrArg Handover.Ledger.taken ledger
  have inHand : s'.inHand = s.inHand := congrArg Handover.Ledger.held ledger
  have descriptors : s'.descriptors = s.descriptors := congrArg Handover.Ledger.table ledger
  refine ⟨?_, ?_, ?_, ?_⟩
  · rw [accepted]
    exact h.numbered
  · rw [accepted, dequeued]
    exact h.waiting
  · rw [inHand, descriptors]
    intro t clientFd i ht hd
    exact course t clientFd _ ht (h.held t clientFd i ht hd)
  · rw [inHand, descriptors, dequeued]
    exact h.done

/-- Whoever holds a client holds the one its descriptor stands for. -/
theorem held_number (hi : Invariant N_THREADS CAPACITY s) {t : ThreadId} {clientFd : Int}
    (ht : s.inHand t = some clientFd) :
    ∃ i, s.queue.dequeued[i]? = some (t, clientFd) ∧ s.descriptors clientFd = some i ∧
      i < s.accepted.length := by
  obtain ⟨i, htaken, htable⟩ := hi.ledger.held t clientFd ht
  exact ⟨i, htaken, htable, (List.getElem?_eq_some_iff.mp (hi.ledger.opened _ i htable).1).1⟩

/-- No two workers hold one client. -/
theorem held_unique (hi : Invariant N_THREADS CAPACITY s) {t u : ThreadId} {c d : Int} {i : Nat}
    (ht : s.inHand t = some c) (hc : s.descriptors c = some i) (hu : s.inHand u = some d)
    (hd : s.descriptors d = some i) : t = u := by
  obtain ⟨j, htj, hcj, _⟩ := held_number hi ht
  obtain ⟨k, huk, hdk, _⟩ := held_number hi hu
  rw [hc] at hcj
  rw [hd] at hdk
  cases hcj
  cases hdk
  rw [htj] at huk
  cases huk
  rfl

/-- A worker does something to the client it holds, and goes on holding it. -/
theorem Told.served (hi : Invariant N_THREADS CAPACITY s) (h : Told serveDir s log)
    {t : ThreadId} {w : Worker} {clientFd : Int} {i : Nat} {what : Happening}
    (ht : s.inHand t = some clientFd) (hd : s.descriptors clientFd = some i)
    (ledger : (s.goto t w).ledger = s.ledger)
    (course : ∀ l, Course serveDir t (s.workers t) l → Course serveDir t w (l ++ [what])) :
    Told serveDir (s.goto t w) (log ++ [(some i, what)]) := by
  have inHand : (s.goto t w).inHand = s.inHand := congrArg Handover.Ledger.held ledger
  obtain ⟨j, htaken, hj, hlt⟩ := held_number hi ht
  rw [hd] at hj
  cases hj
  refine ⟨?_, ?_, ?_, ?_⟩
  · intro e he
    obtain he | he := List.mem_append.mp he
    · exact h.numbered e he
    · rw [List.mem_singleton.mp he]
      exact ⟨i, hlt, rfl⟩
  · intro k hk hka
    have hik : i ≠ k := by
      have := (List.getElem?_eq_some_iff.mp htaken).1
      have hk' : s.queue.dequeued.length ≤ k := hk
      omega
    rw [told_append, told_other hik, List.append_nil]
    exact h.waiting k hk hka
  · rw [inHand]
    intro u d k hu hdk
    have hdk' : s.descriptors d = some k := hdk
    by_cases hki : i = k
    · subst hki
      obtain rfl := held_unique hi ht hd hu hdk'
      rw [told_append, told_self]
      simpa [goto] using course _ (h.held t d i hu hdk')
    · have hut : u ≠ t := by
        intro hut
        subst hut
        rw [ht] at hu
        cases hu
        rw [hd] at hdk'
        exact hki (Option.some.inj hdk')
      rw [told_append, told_other hki, List.append_nil]
      simpa [goto, hut] using h.held u d k hu hdk'
  · rw [inHand]
    intro k u d hk hfree
    have hki : i ≠ k := by
      intro hki
      subst hki
      have hk' : s.queue.dequeued[i]? = some (u, d) := hk
      rw [htaken] at hk'
      cases hk'
      exact hfree ⟨ht, hd⟩
    rw [told_append, told_other hki, List.append_nil]
    exact h.done k u d hk hfree

/-- The next client is told of first. -/
theorem Told.accepted (hi : Invariant N_THREADS CAPACITY s) (h : Told serveDir s log)
    {clientFd : Int} (free : s.descriptors clientFd = none) :
    Told serveDir { s.accept clientFd with main := .enqueue clientFd }
      (log ++ [(some s.accepted.length, .accepted)]) := by
  have other {d : Int} (hd : s.descriptors d ≠ none) : d ≠ clientFd := by
    intro heq
    rw [heq] at hd
    exact hd free
  have length : { s.accept clientFd with main := .enqueue clientFd }.accepted.length =
      s.accepted.length + 1 := by simp [accept]
  refine ⟨?_, ?_, ?_, ?_⟩
  · rw [length]
    intro e he
    obtain he | he := List.mem_append.mp he
    · obtain ⟨i, hlt, heq⟩ := h.numbered e he
      exact ⟨i, by omega, heq⟩
    · rw [List.mem_singleton.mp he]
      exact ⟨_, by omega, rfl⟩
  · rw [length]
    intro i hd hlt
    rw [told_append]
    by_cases hnew : s.accepted.length = i
    · subst hnew
      rw [told_eq_nil (Nat.le_refl _) h.numbered, told_self]
      rfl
    · rw [told_other hnew, List.append_nil]
      exact h.waiting i hd (by omega)
  · intro t d i ht hd
    have ht' : s.inHand t = some d := ht
    obtain ⟨j, -, hj, hlt⟩ := held_number hi ht'
    have hold : s.descriptors d = some i := by
      simpa [accept, other (d := d) (by simp [hj])] using hd
    rw [hj] at hold
    cases hold
    rw [told_append, told_other (by omega), List.append_nil]
    exact h.held t d _ ht' hj
  · intro i t d hi' hfree
    have hi'' : s.queue.dequeued[i]? = some (t, d) := hi'
    have hlt : s.accepted.length ≠ i := by
      intro heq
      subst heq
      obtain ⟨-, htable⟩ | hclosed := hi.ledger.taken _ t d hi''
      · have hget := (hi.ledger.opened d _ htable).1
        exact absurd (List.getElem?_eq_some_iff.mp hget).1 (Nat.lt_irrefl _)
      · have hnone : s.ledger.closings s.accepted.length = [] := hi.ledger.closings_new
        rw [hnone] at hclosed
        cases hclosed
    rw [told_append, told_other hlt, List.append_nil]
    refine h.done i t d hi'' ?_
    intro hboth
    refine hfree ⟨hboth.1, ?_⟩
    simpa [accept, other (d := d) (by simp [hboth.2])] using hboth.2

/-- A worker takes the next client out of the queue. -/
theorem Told.taken (hi : Invariant N_THREADS CAPACITY s) (h : Told serveDir s log) {t : ThreadId}
    {clientFd : Int} (workers : s'.workers = s.workers)
    (next : s.accepted[s.queue.dequeued.length]? = some clientFd) (idle : s.inHand t = none)
    (ledger : s'.ledger = s.ledger.take t clientFd) : Told serveDir s' log := by
  have accepted : s'.accepted = s.accepted := congrArg Handover.Ledger.accepted ledger
  have dequeued : s'.queue.dequeued = s.queue.dequeued ++ [(t, clientFd)] :=
    congrArg Handover.Ledger.taken ledger
  have inHand (u : ThreadId) : s'.inHand u = if u = t then some clientFd else s.inHand u :=
    congrFun (congrArg Handover.Ledger.held ledger) u
  have descriptors : s'.descriptors = s.descriptors := congrArg Handover.Ledger.table ledger
  have hnumber : s.descriptors clientFd = some s.queue.dequeued.length :=
    hi.ledger.waiting _ clientFd next (Nat.le_refl _)
  have hlt := (List.getElem?_eq_some_iff.mp next).1
  have hdequeuing : s.workers t = .dequeuing := by
    by_contra hne
    have hsame : s'.inHand t = s.inHand t :=
      inHand_congr (by rw [workers]) fun hd => absurd hd hne
    rw [idle, inHand] at hsame
    simp at hsame
  refine ⟨?_, ?_, ?_, ?_⟩
  · rw [accepted]
    exact h.numbered
  · rw [accepted, dequeued]
    intro i hlen hlt'
    rw [List.length_append] at hlen
    exact h.waiting i (by omega) hlt'
  · rw [descriptors, workers]
    intro u d i hu hd
    rw [inHand] at hu
    by_cases hut : u = t
    · subst hut
      rw [if_pos rfl] at hu
      cases hu
      rw [hnumber] at hd
      cases hd
      rw [hdequeuing, h.waiting _ (Nat.le_refl _) hlt]
      exact .dequeuing
    · rw [if_neg hut] at hu
      exact h.held u d i hu hd
  · rw [descriptors, dequeued]
    intro i u d hget hfree
    rw [inHand] at hfree
    by_cases hold : i < s.queue.dequeued.length
    · rw [List.getElem?_append_left hold] at hget
      refine h.done i u d hget ?_
      intro hboth
      refine hfree ⟨?_, hboth.2⟩
      have hut : u ≠ t := by
        intro hut
        rw [hut, idle] at hboth
        cases hboth.1
      rw [if_neg hut]
      exact hboth.1
    · rw [List.getElem?_append_right (Nat.le_of_not_lt hold), List.getElem?_singleton] at hget
      split at hget
      · next hzero =>
          cases hget
          exact absurd ⟨if_pos rfl, hnumber.trans (congrArg some (by omega))⟩ hfree
      · cases hget

theorem inHand_close (t : ThreadId) (clientFd : Int) (u : ThreadId) :
    ((s.close t clientFd).goto t .dequeue).inHand u = if u = t then none else s.inHand u := by
  by_cases hut : u = t
  · subst hut
    simp [inHand, goto, Worker.clientFd]
  · rw [if_neg hut]
    exact inHand_congr (by simp [goto, close, hut]) fun _ => rfl

/-- The connection is closed and nothing more is told of its client. -/
theorem Told.closed (hi : Invariant N_THREADS CAPACITY s) (h : Told serveDir s log)
    {t : ThreadId} {clientFd : Int} {i : Nat} (ht : s.inHand t = some clientFd)
    (hd : s.descriptors clientFd = some i)
    (course : ∀ l, Course serveDir t (s.workers t) l → Served serveDir t (l ++ [.closed t])) :
    Told serveDir ((s.close t clientFd).goto t .dequeue) (log ++ [(some i, .closed t)]) := by
  obtain ⟨j, htaken, hj, hlt⟩ := held_number hi ht
  rw [hd] at hj
  cases hj
  have same {d : Int} (hne : d ≠ clientFd) :
      ((s.close t clientFd).goto t .dequeue).descriptors d = s.descriptors d := by
    simp [goto, close, hne]
  refine ⟨?_, ?_, ?_, ?_⟩
  · intro e he
    obtain he | he := List.mem_append.mp he
    · exact h.numbered e he
    · rw [List.mem_singleton.mp he]
      exact ⟨i, hlt, rfl⟩
  · intro k hk hka
    have hik : i ≠ k := by
      have htlt := (List.getElem?_eq_some_iff.mp htaken).1
      have hk' : s.queue.dequeued.length ≤ k := hk
      omega
    rw [told_append, told_other hik, List.append_nil]
    exact h.waiting k hk hka
  · intro u d k hu hdk
    rw [inHand_close] at hu
    have hut : u ≠ t := by
      intro hut
      rw [if_pos hut] at hu
      cases hu
    have hdc : d ≠ clientFd := by
      intro hdc
      simp [goto, close, hdc] at hdk
    rw [if_neg hut] at hu
    rw [same hdc] at hdk
    have hki : i ≠ k := by
      intro hki
      subst hki
      exact hut (held_unique hi hu hdk ht hd)
    rw [told_append, told_other hki, List.append_nil]
    simpa [goto, close, hut] using h.held u d k hu hdk
  · intro k u d hk hfree
    rw [inHand_close] at hfree
    have hk' : s.queue.dequeued[k]? = some (u, d) := hk
    by_cases hki : i = k
    · subst hki
      rw [htaken] at hk'
      cases hk'
      rw [told_append, told_self]
      exact course _ (h.held t clientFd i ht hd)
    · rw [told_append, told_other hki, List.append_nil]
      refine h.done k u d hk' ?_
      intro hboth
      have hut : u ≠ t := by
        intro hut
        rw [hut, ht] at hboth
        have hcd := Option.some.inj hboth.1
        rw [← hcd, hd] at hboth
        exact hki (Option.some.inj hboth.2)
      have hdc : d ≠ clientFd := by
        intro hdc
        rw [hdc, hd] at hboth
        exact hki (Option.some.inj hboth.2)
      exact hfree ⟨(if_neg hut).trans hboth.1, (same hdc).trans hboth.2⟩

/-- A step inside the queue's functions tells of nobody, but may hand a client over. -/
theorem Told.queue (hi : Invariant N_THREADS CAPACITY s) (h : Told serveDir s log) {q : State}
    (he : Effect N_THREADS CAPACITY s e { s with queue := q }) (succeeds : e.Succeeds) :
    Told serveDir { s with queue := q } log := by
  obtain same | hstep := ledger_step he succeeds hi.control hi.queue.1 hi.accounts
  · exact h.frame same fun _ _ _ _ hl => hl
  · generalize hl : { s with queue := q }.ledger = l' at hstep
    have haccepted : l'.accepted = s.ledger.accepted := by
      rw [← hl]
      rfl
    have hclosed : l'.closed = s.ledger.closed := by
      rw [← hl]
      rfl
    cases hstep with
    | accept d _ => simp [Handover.Ledger.accept] at haccepted
    | take t d idle next => exact h.taken hi rfl next idle hl
    | close t d _ => simp [Handover.Ledger.close] at hclosed

/-- The steps by what they do to clients. -/
inductive Dealing (serveDir : List Char) (s : HttpServer) : Event → HttpServer → Prop where
  | quiet {e : Event} {s' : HttpServer} (silent : s.happening e = none)
      (accepted : s'.accepted = s.accepted) (dequeued : s'.queue.dequeued = s.queue.dequeued)
      (closed : s'.closed = s.closed)
      (course : ∀ t clientFd l, s.inHand t = some clientFd → Course serveDir t (s.workers t) l →
        Course serveDir t (s'.workers t) l) : Dealing serveDir s e s'
  | accepted (clientFd : Int) (pc : s.main = .accepting) (free : s.descriptors clientFd = none) :
      Dealing serveDir s (.accept (.client clientFd))
        { s.accept clientFd with main := .enqueue clientFd }
  | queue (a : Action) (q : State) : Dealing serveDir s (.queue a) { s with queue := q }
  | read (t : ThreadId) (clientFd : Int) (request : List Char)
      (pc : s.workers t = .reading clientFd) :
      Dealing serveDir s (.readHttpRequest t (some request))
        (s.goto t (.responding clientFd (resourcePath serveDir request)))
  | unread (t : ThreadId) (clientFd : Int) (pc : s.workers t = .reading clientFd) :
      Dealing serveDir s (.readHttpRequest t none) (s.goto t (.closing clientFd))
  | written (t : ThreadId) (clientFd : Int) (path : List Char) (ok : Bool)
      (pc : s.workers t = .responding clientFd path) :
      Dealing serveDir s (.writeHttpResponse t ok) (s.goto t (.closing clientFd))
  | closed (t : ThreadId) (clientFd : Int) (pc : s.workers t = .closing clientFd) :
      Dealing serveDir s (.close t) ((s.close t clientFd).goto t .dequeue)

/-- What `main` does beside accepting concerns no client. -/
theorem Dealing.main {e : Event} (silent : s.happening e = none)
    (workers : s'.workers = s.workers) (accepted : s'.accepted = s.accepted)
    (dequeued : s'.queue.dequeued = s.queue.dequeued) (closed : s'.closed = s.closed) :
    Dealing serveDir s e s' := by
  refine .quiet silent accepted dequeued closed ?_
  intro t clientFd l _ hl
  rw [workers]
  exact hl

/-- A worker between two clients, or one that learns which client is its next. -/
theorem Dealing.worker {e : Event} {t : ThreadId} {w : Worker} {q : State}
    (silent : s.happening e = none) (dequeued : q.dequeued = s.queue.dequeued)
    (course : ∀ clientFd l, s.inHand t = some clientFd → Course serveDir t (s.workers t) l →
      Course serveDir t w l) : Dealing serveDir s e { s.goto t w with queue := q } := by
  refine .quiet silent rfl dequeued rfl ?_
  intro u clientFd l hu hl
  by_cases hut : u = t
  · subst hut
    simpa [goto] using course clientFd l hu hl
  · simpa [goto, hut] using hl

theorem dealing_of_step (hi : Invariant N_THREADS CAPACITY s)
    (hs : HttpServer.step N_THREADS CAPACITY serveDir s e = some s') :
    Dealing serveDir s e s' := by
  cases e with
  | handleSigint =>
      cases hs
      exact .main rfl rfl rfl rfl rfl
  | testKeepGoing =>
      simp only [HttpServer.step] at hs
      split at hs
      · cases hs
        exact .main rfl rfl rfl rfl rfl
      · cases hs
  | accept result =>
      simp only [HttpServer.step] at hs
      split at hs
      · case h_1 clientFd pc =>
          split at hs
          · case isTrue hc =>
              cases hs
              exact .accepted clientFd pc hc.2
          · cases hs
      · cases hs
        exact .main rfl rfl rfl rfl rfl
      · cases hs
        exact .main rfl rfl rfl rfl rfl
      · cases hs
  | enqueue =>
      simp only [HttpServer.step] at hs
      split at hs
      · split at hs
        · case h_1 q hq =>
            cases hs
            cases call_eq hq
            exact .main rfl rfl rfl rfl rfl
        · cases hs
      · cases hs
  | enqueued =>
      simp only [HttpServer.step] at hs
      split at hs
      · cases hs
        exact .main rfl rfl rfl rfl rfl
      · cases hs
  | closeRefused =>
      simp only [HttpServer.step] at hs
      split at hs
      · case h_1 clientFd pc => exact absurd pc (hi.accounts.refused clientFd)
      · cases hs
  | shutdownReturned =>
      simp only [HttpServer.step] at hs
      split at hs
      · cases hs
        exact .main rfl rfl rfl rfl rfl
      · cases hs
  | join =>
      simp only [HttpServer.step] at hs
      split at hs
      · split at hs
        · split at hs
          · cases hs
            exact .main rfl rfl rfl rfl rfl
          · cases hs
        · cases hs
          exact .main rfl rfl rfl rfl rfl
      · cases hs
  | queue a =>
      simp only [HttpServer.step] at hs
      split at hs
      · split at hs
        · cases hs
          exact .queue a _
        · cases hs
      · cases hs
  | dequeue t =>
      simp only [HttpServer.step] at hs
      split at hs
      · case h_1 pc =>
          split at hs
          · case h_1 q hq =>
              cases hs
              cases call_eq hq
              refine .worker rfl rfl ?_
              intro clientFd l ht
              simp [inHand, pc, Worker.clientFd] at ht
          · cases hs
      · cases hs
  | dequeued t =>
      simp only [HttpServer.step] at hs
      split at hs
      · case h_1 c ret pc returned =>
          cases hs
          refine .worker (q := s.queue) rfl rfl ?_
          intro clientFd l ht hl
          rw [inHand_dequeuing pc, returned] at ht
          have hret : ret ≠ -1 := by
            intro hret
            simp [Thread.result, hret, Option.filter_some] at ht
          rw [if_neg hret]
          rw [pc] at hl
          cases hl
          exact .reading ret
      · cases hs
  | readHttpRequest t request =>
      simp only [HttpServer.step] at hs
      split at hs
      · case h_1 clientFd request pc =>
          cases hs
          exact .read t clientFd request pc
      · case h_2 clientFd pc =>
          cases hs
          exact .unread t clientFd pc
      · cases hs
  | writeHttpResponse t ok =>
      simp only [HttpServer.step] at hs
      split at hs
      · case h_1 clientFd path pc =>
          cases hs
          exact .written t clientFd path ok pc
      · cases hs
  | close t =>
      simp only [HttpServer.step] at hs
      split at hs
      · case h_1 clientFd pc =>
          cases hs
          exact .closed t clientFd pc
      · cases hs

/-- A step with a client in hand leaves the ledger as it is. -/
theorem ledger_served {t : ThreadId} {w : Worker} {clientFd : Int}
    (pc : (s.workers t).clientFd = some clientFd) (target : w.clientFd = some clientFd) :
    (s.goto t w).ledger = s.ledger := by
  refine ledger_goto (q := s.queue) rfl (fun _ _ => rfl) ?_
  rw [inHand_of_clientFd pc]
  exact inHand_of_clientFd (by simpa [goto] using target)

/-- What is told stays true with every step. -/
theorem Told.step (hi : Invariant N_THREADS CAPACITY s)
    (hs : HttpServer.step N_THREADS CAPACITY serveDir s e = some s') (succeeds : e.Succeeds)
    (h : Told serveDir s log) : Told serveDir s' (log ++ (s.happening e).toList) := by
  have he := effect_of_step hs
  have number {t : ThreadId} {clientFd : Int} (pc : (s.workers t).clientFd = some clientFd) :
      s.inHand t = some clientFd ∧ ∃ i, s.descriptors clientFd = some i := by
    obtain ⟨i, -, hd, -⟩ := held_number hi (inHand_of_clientFd pc)
    exact ⟨inHand_of_clientFd pc, i, hd⟩
  cases dealing_of_step hi hs with
  | quiet silent accepted dequeued closed course =>
      rw [silent, Option.toList_none, List.append_nil]
      exact h.frame (ledger_quiet hi he succeeds accepted dequeued closed) course
  | accepted clientFd pc free =>
      simp only [happening, pc]
      exact h.accepted hi free
  | queue a q =>
      simp only [happening, Option.toList_none, List.append_nil]
      exact h.queue hi he succeeds
  | read t clientFd request pc =>
      have hpc : (s.workers t).clientFd = some clientFd := by rw [pc]; rfl
      obtain ⟨ht, i, hd⟩ := number hpc
      simp only [happening, pc, hd]
      refine h.served hi ht hd (ledger_served hpc rfl) ?_
      intro l hl
      rw [pc] at hl
      cases hl
      exact .responding clientFd request
  | unread t clientFd pc =>
      have hpc : (s.workers t).clientFd = some clientFd := by rw [pc]; rfl
      obtain ⟨ht, i, hd⟩ := number hpc
      simp only [happening, pc, hd]
      refine h.served hi ht hd (ledger_served hpc rfl) ?_
      intro l hl
      rw [pc] at hl
      cases hl
      exact .failed clientFd
  | written t clientFd path ok pc =>
      have hpc : (s.workers t).clientFd = some clientFd := by rw [pc]; rfl
      obtain ⟨ht, i, hd⟩ := number hpc
      simp only [happening, pc, hd]
      refine h.served hi ht hd (ledger_served hpc rfl) ?_
      intro l hl
      rw [pc] at hl
      cases hl with
      | responding _ request => exact .answered clientFd request
  | closed t clientFd pc =>
      have hpc : (s.workers t).clientFd = some clientFd := by rw [pc]; rfl
      obtain ⟨ht, i, hd⟩ := number hpc
      simp only [happening, pc, hd]
      refine h.closed hi ht hd ?_
      intro l hl
      rw [pc] at hl
      cases hl with
      | failed _ => exact .failed
      | answered _ request => exact .answered request

theorem Told.start : Told serveDir (HttpServer.start N_THREADS) [] := by
  refine ⟨?_, fun i _ hi => absurd hi (Nat.not_lt_zero i), ?_, ?_⟩
  · intro e he
    cases he
  · intro t clientFd i _ hd
    cases hd
  · intro i t clientFd hi
    cases hi

theorem told_of_perform (hc : 1 ≤ CAPACITY) {es : List Event} (hes : ∀ e ∈ es, e.Succeeds)
    (h : perform (HttpServer.step N_THREADS CAPACITY serveDir) (HttpServer.start N_THREADS) es =
      some s) :
    Told serveDir s
      (HttpServer.log N_THREADS CAPACITY serveDir (HttpServer.start N_THREADS) es) := by
  have hall := perform_induction
    (I := fun es s => perform (HttpServer.step N_THREADS CAPACITY serveDir)
      (HttpServer.start N_THREADS) es = some s ∧ ((∀ e ∈ es, e.Succeeds) →
      Invariant N_THREADS CAPACITY s ∧ Told serveDir s
        (HttpServer.log N_THREADS CAPACITY serveDir (HttpServer.start N_THREADS) es)))
    ⟨rfl, fun _ => ⟨.start N_THREADS hc, .start⟩⟩ ?_ h
  · exact (hall.2 hes).2
  · intro done u e u' he hdone
    obtain ⟨hperform, htold⟩ := hdone
    refine ⟨perform_concat hperform he, ?_⟩
    intro hok
    have hok' := List.forall_mem_append.mp hok
    obtain ⟨hi, hu⟩ := htold hok'.1
    have hsucceeds := hok'.2 e (List.mem_singleton_self e)
    rw [log_concat _ _ _ hperform (by rw [he]; rfl)]
    exact ⟨hi.step (effect_of_step he) hsucceeds, hu.step hi he hsucceeds⟩

end Steps

/-- Whatever the schedule: every read, answer and close meets a client that was accepted. A client
in the queue was not spoken to; to one that a worker took only this worker speaks, and what it
does is a beginning of reading one request, answering it with the path made of it and closing,
or of failing to read one and closing. Past the join this has been gone through to the end for
every client. -/
theorem clients_served {N_THREADS CAPACITY : Nat} (hc : 1 ≤ CAPACITY) {serveDir : List Char}
    {es : List Event} (hes : ∀ e ∈ es, e.Succeeds) {s : HttpServer}
    (h : perform (step N_THREADS CAPACITY serveDir) (start N_THREADS) es = some s) :
    (∀ e ∈ log N_THREADS CAPACITY serveDir (start N_THREADS) es,
      ∃ i < s.accepted.length, e.1 = some i) ∧
    (∀ i, s.queue.dequeued.length ≤ i → i < s.accepted.length →
      told i (log N_THREADS CAPACITY serveDir (start N_THREADS) es) = [.accepted]) ∧
    (∀ i t clientFd, s.queue.dequeued[i]? = some (t, clientFd) →
      ∃ l, Served serveDir t l ∧
        told i (log N_THREADS CAPACITY serveDir (start N_THREADS) es) <+: l) ∧
    (1 ≤ N_THREADS → s.main = .joined → ∀ i < s.accepted.length,
      ∃ t, 1 ≤ t ∧ t ≤ N_THREADS ∧
        Served serveDir t (told i (log N_THREADS CAPACITY serveDir (start N_THREADS) es))) := by
  have htold := told_of_perform hc hes h
  have hi := Invariant.of_run hc (run_of_perform h fun e he _ => hes e he)
  refine ⟨htold.numbered, htold.waiting, ?_, ?_⟩
  · intro i t clientFd htaken
    by_cases hheld : s.inHand t = some clientFd ∧ s.descriptors clientFd = some i
    · exact (htold.held t clientFd i hheld.1 hheld.2).begins_served
    · exact ⟨_, htold.done i t clientFd htaken hheld, List.prefix_refl _⟩
  · intro hn joined i hlt
    have hall := hi.all_taken hn joined
    rw [← hall, List.length_map] at hlt
    have htaken : s.queue.dequeued[i]? = some s.queue.dequeued[i] := List.getElem?_eq_getElem hlt
    obtain ⟨ht, htn⟩ := hi.takers _ (List.getElem_mem hlt)
    refine ⟨_, ht, htn, htold.done i _ _ htaken ?_⟩
    intro hboth
    rw [inHand_exited (hi.exited joined _)] at hboth
    cases hboth.1

/-- The second client has the descriptor of the first, and is not mistaken for it. -/
theorem clients_served_reusedDescriptor :
    ∃ s, perform (step 1 5 ['.']) (start 1) reusedDescriptor = some s ∧ s.accepted = [4, 4] ∧
      told 0 (log 1 5 ['.'] (start 1) reusedDescriptor) =
        [.accepted, .read 1 (some ['/']), .written 1 ['.', '/'], .closed 1] ∧
      told 1 (log 1 5 ['.'] (start 1) reusedDescriptor) = [.accepted, .read 1 none, .closed 1] ∧
      ∀ i < 2, Served ['.'] 1 (told i (log 1 5 ['.'] (start 1) reusedDescriptor)) := by
  obtain ⟨s, hs⟩ : ∃ s, perform (step 1 5 ['.']) (start 1) reusedDescriptor = some s := ⟨_, rfl⟩
  have joined : s.main = .joined := by
    cases hs
    rfl
  have accepted : s.accepted = [4, 4] := by
    cases hs
    rfl
  have served := (clients_served (by decide)
    (by simp [reusedDescriptor, Event.Succeeds, Action.Succeeds]) hs).2.2.2 (by decide) joined
  refine ⟨s, hs, accepted, rfl, rfl, ?_⟩
  intro i hi
  obtain ⟨t, ht, ht', hserved⟩ := served i (by rw [accepted]; exact hi)
  obtain rfl : t = 1 := by omega
  exact hserved

end HttpServer

end UmnProjects.Server
