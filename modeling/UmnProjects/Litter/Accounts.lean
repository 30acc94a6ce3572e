import Mathlib.Data.List.Induction
import UmnProjects.Foundations.History
import UmnProjects.Litter.Requests

/-!
The accounts and the sessions over any sequence of requests: an account is never changed, and a
session is logged in only as a user whose password it has given.
-/
namespace UmnProjects.Litter

open Rows Objects History

section Accounts

variable {V T : Type} {services : Services V T}

/-! ### Accounts -/

/-- The request has made an account with this name and this hash of a password. -/
structure Registers (services : Services V T) (s : State V T) (r : Request V) (name hpass : T) :
    Prop where
  route : ∃ user password, r.route = .createLogin (some user) (some password) ∧
    services.loginUser user = some name ∧ services.hash r.salt password = some hpass
  unused : ∀ row ∈ s.logins.rows, services.sameName name row.user = false
  answer : (handle services s r).1 = .send 200 "success"
  rows : (handle services s r).2.logins.rows = s.logins.rows ++ [⟨s.logins.next, name, hpass⟩]
  loginuser : (handle services s r).2.loginuser = s.loginuser

theorem addLogin_cases (services : Services V T) (user password : V) (salt : Nat) (s : State V T) :
    (addLogin services user password salt s).2 = s ∨
      ∃ name hpass, services.loginUser user = some name ∧
        services.hash salt password = some hpass ∧
        (∀ row ∈ s.logins.rows, services.sameName name row.user = false) ∧
        (addLogin services user password salt s).1 = some true ∧
        (addLogin services user password salt s).2.logins.rows =
          s.logins.rows ++ [⟨s.logins.next, name, hpass⟩] ∧
        (addLogin services user password salt s).2.loginuser = s.loginuser := by
  simp only [addLogin]
  cases selectLogins services user s.logins with
  | none => exact .inl rfl
  | some found =>
      by_cases hone : found.length = 1
      · exact .inl (by simp [hone])
      · cases hhash : services.hash salt password with
        | none => exact .inl (by simp [hone])
        | some hpass =>
            cases hname : services.loginUser user with
            | none => exact .inl (by simp [hone, insertLogin, hname])
            | some name =>
                cases hused : s.logins.rows.any fun row => services.sameName name row.user with
                | true => exact .inl (by simp [hone, insertLogin, hname, hused])
                | false =>
                    refine .inr ⟨name, hpass, rfl, rfl, ?_, ?_, ?_, ?_⟩
                    · intro row hrow
                      simpa using List.any_eq_false.mp hused row hrow
                    · simp [hone, insertLogin, hname, hused]
                    · simp [hone, insertLogin, hname, hused, Table.insert]
                    · simp [hone, insertLogin, hname, hused]

/-- The request logs its session in as this user. -/
def LogsIn (services : Services V T) (s : State V T) (r : Request V) (user : V) : Prop :=
  ∃ password, r.route = .login (some user) (some password) ∧
    checkLogin services user password s = some true

/-- A request changes the posts alone, makes an account, or logs its session in or out. -/
theorem handle_cases (services : Services V T) (s : State V T) (r : Request V) :
    (∃ posts, (handle services s r).2 = { s with posts }) ∨
      (∃ name hpass, Registers services s r name hpass) ∨
      (∃ user, LogsIn services s r user ∧ (handle services s r).2 =
        { s with loginuser := fun n => if n = r.session then some user else s.loginuser n }) ∨
      (r.route = .logout ∧ (handle services s r).2 =
        { s with loginuser := fun n => if n = r.session then none else s.loginuser n }) := by
  have hhandled := handled services s r
  generalize hafter : (handle services s r).2 = after at hhandled
  cases hhandled with
  | idle _ => exact .inl ⟨s.posts, rfl⟩
  | post _ | delete | put | liked => exact .inl (affected_eq _ s)
  | login hcheck => exact .inr (.inr (.inl ⟨_, ⟨_, rfl, hcheck⟩, rfl⟩))
  | logout => exact .inr (.inr (.inr ⟨rfl, rfl⟩))
  | @createLogin session now salt user password =>
      obtain hsame | ⟨name, hpass, hname, hhash, hunused, htrue, hrows, hsessions⟩ :=
        addLogin_cases services user password salt s
      · exact .inl ⟨s.posts, hsame⟩
      · refine .inr (.inl ⟨name, hpass, ⟨user, password, rfl, hname, hhash⟩, hunused, ?_,
          hafter ▸ hrows, hafter ▸ hsessions⟩)
        simp [handle, answer, htrue]

theorem logins_handle (services : Services V T) (s : State V T) (r : Request V) :
    (handle services s r).2.logins.rows = s.logins.rows ∨
      ∃ name hpass, Registers services s r name hpass := by
  obtain ⟨posts, hposts⟩ | hregisters | ⟨user, -, hlogin⟩ | ⟨-, hlogout⟩ :=
    handle_cases services s r
  · exact .inl (by rw [hposts])
  · exact .inr hregisters
  · exact .inl (by rw [hlogin])
  · exact .inl (by rw [hlogout])

/-- The hash in the first row found decides, and rows are only added behind it. -/
theorem checkLogin_of_append {s t : State V T} {rows : List (Login T)}
    (h : t.logins.rows = s.logins.rows ++ rows) {user password : V} {valid : Bool}
    (hcheck : checkLogin services user password s = some valid) :
    checkLogin services user password t = some valid := by
  rw [checkLogin, selectLogins] at hcheck ⊢
  cases hfound : services.whereUser user with
  | none => simp [hfound] at hcheck
  | some found =>
      rw [hfound, Option.map_some] at hcheck
      rw [Option.map_some, h, List.filter_append]
      cases hrows : s.logins.rows.filter found with
      | nil => simp [hrows] at hcheck
      | cons row rest =>
          rw [hrows] at hcheck
          exact hcheck

/-- Over any sequence of requests the accounts stay, and each new one is of a request that was
told of its success, under a name that no account before it has; so what the password check has
once found of a user and a password it finds for ever. -/
theorem accounts_kept (s : State V T) (requests : List (Request V)) :
    ∃ rows, (stateAfter (handle services) s requests).logins.rows = s.logins.rows ++ rows ∧
      (∀ row ∈ rows, ∃ before r after, requests = before ++ r :: after ∧
        Registers services (stateAfter (handle services) s before) r row.user row.password) ∧
      (s.logins.rows.Pairwise (fun row row' => services.sameName row'.user row.user = false) →
        (s.logins.rows ++ rows).Pairwise
          fun row row' => services.sameName row'.user row.user = false) ∧
      ∀ user password valid, checkLogin services user password s = some valid →
        checkLogin services user password (stateAfter (handle services) s requests) =
          some valid := by
  suffices hkept : ∃ rows,
      (stateAfter (handle services) s requests).logins.rows = s.logins.rows ++ rows ∧
      (∀ row ∈ rows, ∃ before r after, requests = before ++ r :: after ∧
        Registers services (stateAfter (handle services) s before) r row.user row.password) ∧
      (s.logins.rows.Pairwise (fun row row' => services.sameName row'.user row.user = false) →
        (s.logins.rows ++ rows).Pairwise
          fun row row' => services.sameName row'.user row.user = false) by
    obtain ⟨rows, hrows, hmade, hnames⟩ := hkept
    exact ⟨rows, hrows, hmade, hnames, fun _ _ _ hcheck => checkLogin_of_append hrows hcheck⟩
  induction requests using List.reverseRecOn with
  | nil => exact ⟨[], by simp [stateAfter], by simp, by simp⟩
  | append_singleton requests r ih =>
      obtain ⟨rows, hrows, hmade, hnames⟩ := ih
      have hearlier : ∀ row ∈ rows, ∃ before r' after, requests ++ [r] = before ++ r' :: after ∧
          Registers services (stateAfter (handle services) s before) r' row.user
            row.password := by
        intro row hrow
        obtain ⟨before, r', after, hsplit, hregisters⟩ := hmade row hrow
        exact ⟨before, r', after ++ [r], by simp [hsplit], hregisters⟩
      have hlast : stateAfter (handle services) s (requests ++ [r]) =
          (handle services (stateAfter (handle services) s requests) r).2 := by
        rw [stateAfter_append]
        rfl
      rw [hlast]
      obtain hsame | ⟨name, hpass, hregisters⟩ :=
        logins_handle services (stateAfter (handle services) s requests) r
      · exact ⟨rows, hsame.trans hrows, hearlier, hnames⟩
      · refine ⟨rows ++ [⟨(stateAfter (handle services) s requests).logins.next, name, hpass⟩],
          ?_, ?_, ?_⟩
        · rw [hregisters.rows, hrows, List.append_assoc]
        · intro row hrow
          obtain hrow | hrow := List.mem_append.mp hrow
          · exact hearlier row hrow
          · rw [List.mem_singleton.mp hrow]
            exact ⟨requests, r, [], rfl, hregisters⟩
        · intro hstart
          rw [← List.append_assoc]
          refine List.pairwise_append.mpr ⟨hnames hstart, List.pairwise_singleton _ _, ?_⟩
          intro row hrow row' hrow'
          rw [← hrows] at hrow
          rw [List.mem_singleton.mp hrow']
          exact hregisters.unused row hrow

/-! ### Sessions -/

/-- The request logs its session in or out. -/
def Switches (services : Services V T) (s : State V T) (r : Request V) : Prop :=
  r.route = .logout ∨ ∃ user, LogsIn services s r user

/-- None of the requests logs the session in or out. -/
def Untouched (services : Services V T) (n : Nat) (s : State V T) (requests : List (Request V)) :
    Prop :=
  ∀ before r after, requests = before ++ r :: after → r.session = n →
    ¬ Switches services (stateAfter (handle services) s before) r

theorem Untouched.append {n : Nat} {s : State V T} {requests : List (Request V)} {r : Request V}
    (h : Untouched services n s requests)
    (hr : r.session = n → ¬ Switches services (stateAfter (handle services) s requests) r) :
    Untouched services n s (requests ++ [r]) := by
  intro before r' after hsplit hsession
  obtain ⟨-, rfl, rfl⟩ | ⟨after', -, hsplit'⟩ := split_append hsplit
  · exact hr hsession
  · exact h before r' after' hsplit' hsession

/-- A session keeps its user through what does not log it in or out. -/
theorem loginuser_handle_of_not {s : State V T} {r : Request V} {n : Nat}
    (h : r.session = n → ¬ Switches services s r) :
    (handle services s r).2.loginuser n = s.loginuser n := by
  obtain ⟨posts, hposts⟩ | ⟨name, hpass, hregisters⟩ | ⟨user, hlogs, hlogin⟩ | ⟨hroute, hlogout⟩ :=
    handle_cases services s r
  · rw [hposts]
  · rw [hregisters.loginuser]
  · rw [hlogin]
    exact if_neg fun hsession => h hsession.symm (.inr ⟨user, hlogs⟩)
  · rw [hlogout]
    exact if_neg fun hsession => h hsession.symm (.inl hroute)

theorem loginuser_handle {s : State V T} {r : Request V} {n : Nat} {user : V}
    (h : (handle services s r).2.loginuser n = some user) :
    (s.loginuser n = some user ∧ (r.session = n → ¬ Switches services s r)) ∨
      r.session = n ∧ LogsIn services s r user := by
  by_cases hswitches : r.session = n → ¬ Switches services s r
  · rw [loginuser_handle_of_not hswitches] at h
    exact .inl ⟨h, hswitches⟩
  · push Not at hswitches
    obtain ⟨hsession, hroute | ⟨user', password, hroute, hcheck⟩⟩ := hswitches
    · simp [handle, hroute, hsession] at h
    · have hlogin : (handle services s r).2.loginuser n = some user' := by
        simp [handle, hroute, hcheck, hsession]
      cases h.symm.trans hlogin
      exact .inr ⟨hsession, password, hroute, hcheck⟩

theorem rows_append_handle (services : Services V T) (s : State V T) (r : Request V) :
    ∃ rows, (handle services s r).2.logins.rows = s.logins.rows ++ rows := by
  obtain hsame | ⟨name, hpass, hregisters⟩ := logins_handle services s r
  · exact ⟨[], by rw [hsame, List.append_nil]⟩
  · exact ⟨_, hregisters.rows⟩

end Accounts

/-! ### A session of alice -/

/-- No posts, no accounts and no session. -/
def newSite : State (Nat ⊕ String) String where
  posts := .empty
  logins := .empty
  loginuser _ := none

/-- Alice makes an account, logs in twice, and fails to log in. -/
def alicesLogin : List (Request (Nat ⊕ String)) :=
  [⟨0, 1, 0, .createLogin (some (.inr "alice")) (some (.inr "secret"))⟩,
    ⟨0, 2, 0, .login (some (.inr "alice")) (some (.inr "secret"))⟩,
    ⟨0, 3, 0, .login (some (.inr "alice")) (some (.inr "secret"))⟩,
    ⟨0, 4, 0, .login (some (.inr "alice")) (some (.inr "guess"))⟩]

end UmnProjects.Litter
