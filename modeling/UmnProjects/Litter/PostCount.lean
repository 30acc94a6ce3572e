import UmnProjects.Foundations.Flights
import UmnProjects.Foundations.Runs
import UmnProjects.Litter.Queries

/-!
The cached number of posts under calls that interleave at their awaits: a query is issued,
executed by the database at some later time, and its caller resumed later still.
-/
namespace UmnProjects.Litter.PostCount

open Rows Flights Runs

/-! ### Calls and their program points -/

/-- A page of posts, by the time of posting or by likes. -/
structure Page where
  liked : Bool
  page : Nat
  deriving Repr, DecidableEq

inductive DataCall (V : Type) where
  | getRecentPosts (page : Nat)
  | getLikedPosts (page : Nat)
  | addPost (user posttext : V)
  | deletePost (id : V)
  deriving Repr, DecidableEq

inductive Write where
  | insert
  | delete
  deriving Repr, DecidableEq

/-- What a write that affected one row adds to the total. -/
def Write.change : Write → Int
  | insert => 1
  | delete => -1

/-- Where a call awaits. A reader is the page request that awaits `getTotalPosts`; after a
write nobody does. -/
inductive Task (V : Type) where
  | inserting (user posttext : V)
  | deleting (id : V)
  | written (write : Write) (affectedRows : Nat)
  | refused
  | counting (change : Int) (reader : Option Page)
  | counted (change : Int) (reader : Option Page) (count : Nat)
  | sized (reader : Page) (size : Int)
  | selecting (reader : Page)
  | selected (reader : Page)
  deriving Repr, DecidableEq

/-- `called` remembers whether any call has been made. -/
structure Site (V T : Type) where
  posts : Posts T
  total : Int
  tasks : List (Task V)
  called : Bool

def serverStart {V T : Type} (posts : Posts T) : Site V T := ⟨posts, -1, [], false⟩

section Steps

variable {V T : Type}

/-- The end of `getTotalPosts`. -/
def returnTotal (reader : Option Page) (total : Int) : Int × List (Task V) :=
  (total, match reader with
    | some page => [.sized page total]
    | none => [])

/-- `getTotalPosts` up to its first await: the total, and what it leaves in flight. -/
def getTotalPosts (total change : Int) (reader : Option Page) : Int × List (Task V) :=
  if total = -1 then (total, [.counting change reader])
  else returnTotal reader (total + change)

inductive Action (V : Type) where
  | call (c : DataCall V)
  | execute (i : Nat) (now : Nat)
  | resume (i : Nat)
  deriving Repr, DecidableEq

def start (total : Int) : DataCall V → Int × List (Task V)
  | .getRecentPosts page => getTotalPosts total 0 (some ⟨false, page⟩)
  | .getLikedPosts page => getTotalPosts total 0 (some ⟨true, page⟩)
  | .addPost user posttext => (total, [.inserting user posttext])
  | .deletePost id => (total, [.deleting id])

/-- A query that fails leaves the table alone. -/
def writeResult (write : Write) (posts : Posts T) (result : Option (Nat × Posts T)) :
    Posts T × Task V :=
  match result with
  | none => (posts, .refused)
  | some (affectedRows, posts) => (posts, .written write affectedRows)

/-- The database executes the query a call awaits. -/
def execute (services : Services V T) (now : Nat) (posts : Posts T) :
    Task V → Option (Posts T × Task V)
  | .inserting user posttext =>
      some (writeResult .insert posts (insertPost services user posttext now posts))
  | .deleting id => some (writeResult .delete posts (deleteRows services id posts))
  | .counting change reader => some (posts, .counted change reader posts.rows.length)
  | .selecting reader => some (posts, .selected reader)
  | _ => none

/-- A call goes on after an await. -/
def resume (total : Int) : Task V → Option (Int × List (Task V))
  | .written write affectedRows =>
      some (if affectedRows = 1 then getTotalPosts total write.change none else (total, []))
  | .refused => some (total, [])
  | .counted change reader count => some (returnTotal reader (count + change))
  | .sized reader size =>
      some (total, if (reader.page * 10 : Int) > size then [] else [.selecting reader])
  | .selected _ => some (total, [])
  | _ => none

def step (services : Services V T) (s : Site V T) : Action V → Option (Site V T)
  | .call c =>
      some { s with
        total := (start s.total c).1
        tasks := s.tasks ++ (start s.total c).2
        called := true }
  | .execute i now =>
      match s.tasks[i]? with
      | none => none
      | some task => (execute services now s.posts task).map fun result =>
          { s with posts := result.1, tasks := replaceAt s.tasks i [result.2] }
  | .resume i =>
      match s.tasks[i]? with
      | none => none
      | some task => (resume s.total task).map fun result =>
          { s with total := result.1, tasks := replaceAt s.tasks i result.2 }

/-! ### What holds when no call is in flight -/

def Counted (s : Site V T) : Prop :=
  (s.total = -1 ∧ s.called = false) ∨ s.total = s.posts.rows.length

instance (s : Site V T) : Decidable (Counted s) :=
  inferInstanceAs (Decidable ((s.total = -1 ∧ s.called = false) ∨
    s.total = s.posts.rows.length))

/-- What a task has changed in the table and not yet added to the total. -/
def Task.pending : Task V → Int
  | .written write affectedRows => write.change * affectedRows
  | .counting change _ => change
  | .counted change _ _ => change
  | _ => 0

def pending (s : Site V T) : Int := (s.tasks.map Task.pending).sum

/-- A stored count is the number of rows less the pending changes, a delete affects at most
one row, and a call that changes nothing is not the last one in flight while the total is
not known. -/
def Sound (s : Site V T) : Action V → Prop
  | .resume i =>
      match s.tasks[i]? with
      | some (.counted _ _ count) => (count : Int) = s.posts.rows.length - pending s
      | some (.written _ affectedRows) =>
          affectedRows = 1 ∨ affectedRows = 0 ∧ (s.total = -1 → 2 ≤ s.tasks.length)
      | some .refused => s.total = -1 → 2 ≤ s.tasks.length
      | _ => True
  | _ => True

instance (s : Site V T) (a : Action V) : Decidable (Sound s a) :=
  match a with
  | .call _ | .execute _ _ => isTrue trivial
  | .resume i =>
      match h : s.tasks[i]? with
      | some (.counted _ _ count) =>
          decidable_of_iff ((count : Int) = s.posts.rows.length - pending s) (by simp [Sound, h])
      | some (.written _ affectedRows) =>
          decidable_of_iff (affectedRows = 1 ∨ affectedRows = 0 ∧
            (s.total = -1 → 2 ≤ s.tasks.length)) (by simp [Sound, h])
      | some .refused =>
          decidable_of_iff (s.total = -1 → 2 ≤ s.tasks.length) (by simp [Sound, h])
      | none => isTrue (by simp [Sound, h])
      | some (.inserting _ _) | some (.deleting _) | some (.counting _ _) | some (.sized _ _)
      | some (.selecting _) | some (.selected _) => isTrue (by simp [Sound, h])

/-! ### The invariant -/

/-- A call past its `getTotalPosts`. -/
def Task.reading : Task V → Bool
  | .sized _ _ => true
  | .selecting _ => true
  | .selected _ => true
  | _ => false

/-- Nothing has been counted yet, and some call still will be. -/
structure Unfilled (s : Site V T) : Prop where
  total : s.total = -1
  reading : ∀ task ∈ s.tasks, task.reading = false
  tasks : s.called = true → s.tasks ≠ []

structure Inv (s : Site V T) : Prop where
  called : s.tasks ≠ [] → s.called = true
  total : Unfilled s ∨ s.total = s.posts.rows.length - pending s

theorem Inv.counted {s : Site V T} (h : Inv s) (hquiet : s.tasks = []) : Counted s := by
  obtain hunfilled | htotal := h.total
  · refine .inl ⟨hunfilled.total, ?_⟩
    cases hcalled : s.called with
    | false => rfl
    | true => exact absurd hquiet (hunfilled.tasks hcalled)
  · refine .inr ?_
    have hnone : pending s = 0 := by simp [pending, hquiet]
    omega

theorem inv_serverStart (posts : Posts T) : Inv (serverStart posts : Site V T) where
  called h := absurd rfl h
  total := .inl ⟨rfl, by simp [serverStart], by simp [serverStart]⟩

/-- What is left in flight by the start of `getTotalPosts` makes up for its change. -/
theorem getTotalPosts_balance (total change : Int) (reader : Option Page) :
    (getTotalPosts total change reader : Int × List (Task V)).1 +
      ((getTotalPosts total change reader : Int × List (Task V)).2.map Task.pending).sum =
        total + change := by
  simp only [getTotalPosts, returnTotal]
  split
  · simp [Task.pending]
  · cases reader <;> simp [Task.pending]

theorem start_balance (total : Int) (c : DataCall V) :
    (start total c).1 + ((start total c).2.map Task.pending).sum = total := by
  cases c with
  | getRecentPosts page => simpa [start] using getTotalPosts_balance (V := V) total 0 _
  | getLikedPosts page => simpa [start] using getTotalPosts_balance (V := V) total 0 _
  | addPost user posttext => simp [start, Task.pending]
  | deletePost id => simp [start, Task.pending]

theorem start_ne_nil (total : Int) (c : DataCall V) : (start total c).2 ≠ [] := by
  cases c with
  | getRecentPosts page | getLikedPosts page =>
      simp only [start, getTotalPosts, returnTotal]
      split <;> simp
  | addPost user posttext | deletePost id => simp [start]

/-- Before anything is counted a new call counts or writes. -/
theorem start_unfilled (c : DataCall V) :
    (start (-1) c).1 = -1 ∧ ∀ task ∈ (start (-1) c).2, task.reading = false := by
  cases c <;> simp [start, getTotalPosts, Task.reading]

theorem writeResult_balance (write : Write) (posts : Posts T) (result : Option (Nat × Posts T))
    (h : ∀ affectedRows posts', result = some (affectedRows, posts') →
      (posts'.rows.length : Int) = posts.rows.length + write.change * affectedRows) :
    ((writeResult (V := V) write posts result).1.rows.length : Int) -
        (writeResult (V := V) write posts result).2.pending = posts.rows.length ∧
      (writeResult (V := V) write posts result).2.reading = false := by
  cases result with
  | none => simp [writeResult, Task.pending, Task.reading]
  | some result =>
      have hlen := h result.1 result.2 rfl
      refine ⟨?_, rfl⟩
      simp only [writeResult, Task.pending]
      omega

/-- The database keeps the balance of rows and pending changes. -/
theorem execute_balance {services : Services V T} {now : Nat} {posts posts' : Posts T}
    {task task' : Task V} (h : execute services now posts task = some (posts', task')) :
    (posts'.rows.length : Int) - task'.pending = posts.rows.length - task.pending ∧
      task'.reading = task.reading := by
  cases task with
  | inserting user posttext =>
      have hbalance := writeResult_balance (V := V) .insert posts
        (insertPost services user posttext now posts) (by
          intro affectedRows inserted hresult
          obtain ⟨hone, hlen⟩ := length_insertPost services hresult
          simp only [Write.change]
          omega)
      rw [Option.some.inj h] at hbalance
      simpa [Task.pending, Task.reading] using hbalance
  | deleting id =>
      have hbalance := writeResult_balance (V := V) .delete posts
        (deleteRows services id posts) (by
          intro affectedRows kept hresult
          have hlen := length_deleteRows services hresult
          simp only [Write.change]
          omega)
      rw [Option.some.inj h] at hbalance
      simpa [Task.pending, Task.reading] using hbalance
  | counting change reader =>
      cases h
      exact ⟨rfl, rfl⟩
  | selecting reader =>
      cases h
      exact ⟨rfl, rfl⟩
  | _ => cases h

/-- What a resumed task starts from: the stored count, or the total as it is. -/
def Task.base (total : Int) : Task V → Int
  | .counted _ _ count => count
  | _ => total

/-- A resumed task adds what was pending of it, when its write affected at most one row. -/
theorem resume_balance {total total' : Int} {task : Task V} {left : List (Task V)}
    (h : resume total task = some (total', left))
    (hwritten : ∀ write affectedRows, task = .written write affectedRows →
      affectedRows = 1 ∨ affectedRows = 0) :
    total' + (left.map Task.pending).sum = task.base total + task.pending := by
  cases task with
  | written write affectedRows =>
      have hbalance := getTotalPosts_balance (V := V) total write.change none
      obtain hone | hzero := hwritten write affectedRows rfl
      · cases hone
        simp only [resume, if_true, Option.some.injEq] at h
        rw [h] at hbalance
        simpa [Task.base, Task.pending] using hbalance
      · cases hzero
        cases h
        simp [Task.base, Task.pending]
  | refused =>
      cases h
      simp [Task.base, Task.pending]
  | counted change reader count =>
      cases h
      cases reader <;> simp [Task.base, Task.pending]
  | sized reader size =>
      simp only [resume, Option.some.injEq, Prod.mk.injEq] at h
      obtain ⟨rfl, rfl⟩ := h
      split <;> simp [Task.base, Task.pending]
  | selected reader =>
      cases h
      simp [Task.base, Task.pending]
  | inserting user posttext | deleting id | counting change reader | selecting reader => cases h

/-! ### Steps keep the invariant -/

section Preservation

variable {services : Services V T} {s : Site V T}

theorem Inv.call (h : Inv s) (c : DataCall V) :
    Inv { s with
      total := (start s.total c).1
      tasks := s.tasks ++ (start s.total c).2
      called := true } where
  called _ := rfl
  total := by
    obtain hunfilled | htotal := h.total
    · obtain ⟨hstart, hreading⟩ := start_unfilled c
      refine .inl ⟨?_, ?_, ?_⟩
      · rw [hunfilled.total]
        exact hstart
      · rw [hunfilled.total]
        intro task htask
        obtain htask | htask := List.mem_append.mp htask
        · exact hunfilled.reading task htask
        · exact hreading task htask
      · intro _ hnil
        exact start_ne_nil _ c (List.append_eq_nil_iff.mp hnil).2
    · refine .inr ?_
      have hbalance := start_balance s.total c
      simp only [pending, List.map_append, List.sum_append]
      simp only [pending] at htotal
      omega

theorem Inv.execute (h : Inv s) {i now : Nat} {task task' : Task V} {posts' : Posts T}
    (htask : s.tasks[i]? = some task)
    (hexecute : PostCount.execute services now s.posts task = some (posts', task')) :
    Inv { s with posts := posts', tasks := replaceAt s.tasks i [task'] } where
  called _ := h.called (List.ne_nil_of_mem (List.mem_of_getElem? htask))
  total := by
    obtain ⟨hbalance, hreading⟩ := execute_balance hexecute
    obtain hunfilled | htotal := h.total
    · refine .inl ⟨hunfilled.total, ?_, ?_⟩
      · intro other hother
        obtain hother | hother := mem_of_mem_replaceAt hother
        · exact hunfilled.reading other hother
        · rw [List.mem_singleton.mp hother, hreading]
          exact hunfilled.reading task (List.mem_of_getElem? htask)
      · intro _ hnil
        exact List.cons_ne_nil _ _ (eq_singleton_of_replaceAt htask hnil).2
    · refine .inr ?_
      have hsum := sum_replaceAt Task.pending [task'] htask
      simp only [List.map_singleton, List.sum_singleton] at hsum
      simp only [pending] at htotal
      simp only [pending, hsum]
      omega

/-- A count that is stored makes the total known. -/
theorem filled_of_resume {i : Nat} {task : Task V} {total' : Int} {left : List (Task V)}
    (htask : s.tasks[i]? = some task)
    (hresume : PostCount.resume s.total task = some (total', left))
    (hwritten : ∀ write affectedRows, task = .written write affectedRows →
      affectedRows = 1 ∨ affectedRows = 0)
    (hbase : task.base s.total = s.posts.rows.length - pending s) :
    total' = s.posts.rows.length -
      pending { s with total := total', tasks := replaceAt s.tasks i left } := by
  have hbalance := resume_balance hresume hwritten
  have hsum := sum_replaceAt Task.pending left htask
  simp only [pending] at hbase
  simp only [pending, hsum]
  omega

/-- While nothing is counted, what a task other than a counted one leaves behind still is to
count. -/
theorem Unfilled.resume (h : Unfilled s) {i : Nat} {task : Task V} {total' : Int}
    {left : List (Task V)} (htask : s.tasks[i]? = some task)
    (hresume : PostCount.resume s.total task = some (total', left)) (hsound : Sound s (.resume i))
    (hcounted : ∀ change reader count, task ≠ .counted change reader count) :
    Unfilled { s with total := total', tasks := replaceAt s.tasks i left } := by
  have hreading := h.reading task (List.mem_of_getElem? htask)
  have hlen := length_replaceAt left htask
  simp only [Sound, htask] at hsound
  suffices hleft : total' = -1 ∧ (∀ other ∈ left, other.reading = false) ∧
      (left = [] → 2 ≤ s.tasks.length) by
    obtain ⟨htotal, hothers, hmore⟩ := hleft
    refine ⟨htotal, ?_, ?_⟩
    · intro other hother
      obtain hother | hother := mem_of_mem_replaceAt hother
      · exact h.reading other hother
      · exact hothers other hother
    · intro _ hnil
      obtain ⟨htasks, hleft⟩ := eq_singleton_of_replaceAt htask hnil
      have htwo := hmore hleft
      rw [htasks, List.length_singleton] at htwo
      omega
  cases task with
  | written write affectedRows =>
      simp only [PostCount.resume, h.total, getTotalPosts, if_true, Option.some.injEq] at hresume
      obtain hone | ⟨hzero, hmore⟩ := hsound
      · cases hone
        cases hresume
        simp [Task.reading]
      · cases hzero
        cases hresume
        exact ⟨rfl, by simp, fun _ => hmore h.total⟩
  | refused =>
      cases hresume
      exact ⟨h.total, by simp, fun _ => hsound h.total⟩
  | counted change reader count => exact absurd rfl (hcounted change reader count)
  | sized reader size | selected reader => cases hreading
  | inserting user posttext | deleting id | counting change reader | selecting reader =>
      cases hresume

theorem Inv.resume (h : Inv s) {i : Nat} {task : Task V} {total' : Int} {left : List (Task V)}
    (htask : s.tasks[i]? = some task)
    (hresume : PostCount.resume s.total task = some (total', left))
    (hsound : Sound s (.resume i)) :
    Inv { s with total := total', tasks := replaceAt s.tasks i left } where
  called _ := h.called (List.ne_nil_of_mem (List.mem_of_getElem? htask))
  total := by
    have hwritten : ∀ write affectedRows, task = .written write affectedRows →
        affectedRows = 1 ∨ affectedRows = 0 := by
      intro write affectedRows heq
      simp only [Sound, htask, heq] at hsound
      exact hsound.imp id And.left
    have filled (hbase : task.base s.total = s.posts.rows.length - pending s) :
        total' = s.posts.rows.length -
          pending { s with total := total', tasks := replaceAt s.tasks i left } :=
      filled_of_resume htask hresume hwritten hbase
    by_cases hcounted : ∃ change reader count, task = .counted change reader count
    · obtain ⟨change, reader, count, heq⟩ := hcounted
      simp only [Sound, htask, heq] at hsound
      rw [heq] at filled
      exact .inr (filled hsound)
    · have hother : ∀ change reader count, task ≠ .counted change reader count :=
        fun change reader count heq => hcounted ⟨change, reader, count, heq⟩
      obtain hunfilled | htotal := h.total
      · exact .inl (hunfilled.resume htask hresume hsound hother)
      · cases task with
        | counted change reader count => exact absurd rfl (hother change reader count)
        | _ => exact .inr (filled htotal)

theorem inv_of_step {a : Action V} {t : Site V T} (h : Inv s) (hsound : Sound s a)
    (hstep : step services s a = some t) : Inv t := by
  cases a with
  | call c =>
      cases hstep
      exact h.call c
  | execute i now =>
      cases htask : s.tasks[i]? with
      | none => simp [step, htask] at hstep
      | some task =>
          simp only [step, htask] at hstep
          obtain ⟨result, hexecute, heq⟩ := Option.map_eq_some_iff.mp hstep
          cases heq
          exact h.execute htask hexecute
  | resume i =>
      cases htask : s.tasks[i]? with
      | none => simp [step, htask] at hstep
      | some task =>
          simp only [step, htask] at hstep
          obtain ⟨result, hresume, heq⟩ := Option.map_eq_some_iff.mp hstep
          cases heq
          exact h.resume htask hresume hsound

/-- A step that ends the last call in flight with the right total meets the condition. -/
theorem sound_of_counted {a : Action V} {t : Site V T} (h : Inv s)
    (hstep : step services s a = some t) (hquiet : t.tasks = []) (hcounted : Counted t) :
    Sound s a := by
  cases a with
  | call c => trivial
  | execute i now => trivial
  | resume i =>
      cases htask : s.tasks[i]? with
      | none => simp [Sound, htask]
      | some task =>
          simp only [step, htask] at hstep
          obtain ⟨result, hresume, heq⟩ := Option.map_eq_some_iff.mp hstep
          cases heq
          obtain ⟨htasks, hleft⟩ := eq_singleton_of_replaceAt htask hquiet
          have hcalled : s.called = true := h.called (by simp [htasks])
          have htotal : result.1 = s.posts.rows.length := by
            obtain ⟨_, hnot⟩ | htotal := hcounted
            · rw [hcalled] at hnot
              cases hnot
            · exact htotal
          have hpending : pending s = task.pending := by simp [pending, htasks]
          simp only [Sound, htask]
          cases task with
          | written write affectedRows =>
              by_cases hone : affectedRows = 1
              · exact .inl hone
              · simp only [resume, hone, if_false, Option.some.injEq] at hresume
                have hsame : s.total = s.posts.rows.length := by rw [← htotal, ← hresume]
                obtain hunfilled | hfilled := h.total
                · have hunknown := hunfilled.total
                  omega
                · refine .inr ⟨?_, fun hunknown => by omega⟩
                  have hzero : write.change * (affectedRows : Int) = 0 := by
                    rw [hpending, Task.pending] at hfilled
                    omega
                  cases write <;> simp only [Write.change] at hzero <;> omega
          | refused =>
              have hsame : s.total = s.posts.rows.length := by
                rw [← htotal, ← Option.some.inj hresume]
              intro hunknown
              omega
          | counted change reader count =>
              have hsum : (count : Int) + change = s.posts.rows.length := by
                rw [← htotal, ← Option.some.inj hresume]
                rfl
              rw [hpending, Task.pending]
              omega
          | _ => trivial

end Preservation

/-! ### Runs -/

/-- In a run from the start of the server whose steps all meet the condition, the total is
right whenever no call is in flight; and a next step after which no call is in flight leaves
it right exactly when that step meets the condition as well. -/
theorem total_counts_posts (services : Services V T) (posts : Posts T) {s : Site V T}
    (run : Run (step services) Sound (serverStart posts) s) :
    (s.tasks = [] → Counted s) ∧
      ∀ a t, step services s a = some t → t.tasks = [] → (Counted t ↔ Sound s a) := by
  have hinv : Inv s := run.invariant (I := Inv)
    (fun _ _ _ hsound hstep h => inv_of_step h hsound hstep) (inv_serverStart posts)
  refine ⟨hinv.counted, ?_⟩
  intro a t hstep hquiet
  constructor
  · exact sound_of_counted hinv hstep hquiet
  · intro hsound
    exact (inv_of_step hinv hsound hstep).counted hquiet

end Steps

/-- The first post on an empty table is counted twice. -/
theorem first_addPost_counted_twice :
    ∃ t, perform (step plainServices) (serverStart Table.empty)
        [.call (.addPost (.inr "alice") (.inr "hello")), .execute 0 5, .resume 0, .execute 0 6,
          .resume 0] = some t ∧
      t.posts.rows.length = 1 ∧ t.total = 2 ∧ t.tasks = [] ∧ ¬ Counted t :=
  ⟨_, rfl, rfl, rfl, rfl, by decide⟩

/-- A page is read, two posts are added and one of them deleted while another page is read. -/
def readsAndWrites : List (Action (Nat ⊕ String)) :=
  [.call (.getRecentPosts 0), .execute 0 0, .resume 0,
    .call (.addPost (.inr "alice") (.inr "hello")), .call (.addPost (.inr "bob") (.inr "hi")),
    .execute 2 5, .execute 1 6, .resume 2, .resume 1, .call (.getLikedPosts 0),
    .call (.deletePost (.inl 1)), .execute 2 7, .resume 1, .resume 2, .resume 0, .execute 0 8,
    .execute 1 9, .resume 1, .resume 0]

theorem counted_readsAndWrites :
    ∃ s, perform (step plainServices) (serverStart Table.empty) readsAndWrites = some s ∧
      s.tasks = [] ∧ s.posts.rows.length = 1 ∧ Counted s := by
  have hrun : Run (step plainServices) Sound (serverStart Table.empty) _ :=
    run_of_checked (fun _ _ h => of_decide_eq_true h) readsAndWrites rfl
  exact ⟨_, rfl, rfl, rfl, (total_counts_posts plainServices Table.empty hrun).1 rfl⟩

end UmnProjects.Litter.PostCount
