import UmnProjects.Foundations.Runs
import UmnProjects.Litter.Queries
import Mathlib.Data.List.Pairwise

/-!
Registrations and logins that interleave at their awaits. A query, a hash and a comparison are
each awaited: what they wait for happens at some later time, and the call goes on later still.
-/
namespace UmnProjects.Litter.LoginCalls

open Rows Runs

/-! ### Calls and their program points -/

/-- Where `addLogin` stands; `refused` is an awaited promise that was rejected. -/
inductive Adding (T : Type) where
  | counting
  | counted (count : Nat)
  | hashing
  | hashed (hpass : T)
  | inserting (hpass : T)
  | inserted (affectedRows : Nat)
  | refused
  | returned (value : Bool)
  | rejected
  deriving Repr, DecidableEq

/-- Where `checkLogin` stands. -/
inductive Checking (T : Type) where
  | selecting
  | selected (passwords : List T)
  | comparing (hashed : T)
  | compared (valid : Bool)
  | refused
  | returned (value : Bool)
  | rejected
  deriving Repr, DecidableEq

inductive Call (V T : Type) where
  | addLogin (user password : V) (point : Adding T)
  | checkLogin (user password : V) (point : Checking T)
  deriving Repr, DecidableEq

/-- The boolean a call has resolved to. -/
def Call.value {V T : Type} : Call V T → Option Bool
  | .addLogin _ _ (.returned value) => some value
  | .checkLogin _ _ (.returned value) => some value
  | _ => none

def Call.rejected {V T : Type} : Call V T → Bool
  | .addLogin _ _ .rejected => true
  | .checkLogin _ _ .rejected => true
  | _ => false

/-- A call that has rejected or is bound to. -/
def Call.failed {V T : Type} : Call V T → Bool
  | .addLogin _ _ .refused => true
  | .addLogin _ _ .rejected => true
  | .checkLogin _ _ (.selected []) => true
  | .checkLogin _ _ .refused => true
  | .checkLogin _ _ .rejected => true
  | _ => false

structure Site (V T : Type) where
  logins : Logins T
  calls : List (Call V T)

inductive Action (V : Type) where
  | addLogin (user password : V)
  | checkLogin (user password : V)
  | advance (i salt : Nat)
  deriving Repr, DecidableEq

section Steps

variable {V T : Type} (services : Services V T)

/-- The next thing that happens to an `addLogin`. -/
def addLogin (salt : Nat) (user password : V) (logins : Logins T) :
    Adding T → Option (Logins T × Adding T)
  | .counting => some (logins, match selectLogins services user logins with
      | none => .refused
      | some rows => .counted rows.length)
  | .counted count => some (logins, if count = 1 then .returned false else .hashing)
  | .hashing => some (logins, match services.hash salt password with
      | none => .refused
      | some hpass => .hashed hpass)
  | .hashed hpass => some (logins, .inserting hpass)
  | .inserting hpass => some (match insertLogin services user hpass logins with
      | none => (logins, .refused)
      | some (affectedRows, logins) => (logins, .inserted affectedRows))
  | .inserted affectedRows => some (logins, .returned (affectedRows == 1))
  | .refused => some (logins, .rejected)
  | .returned _ => none
  | .rejected => none

/-- The next thing that happens to a `checkLogin`: without a row it fails on `retval[0]`. -/
def checkLogin (user password : V) (logins : Logins T) : Checking T → Option (Checking T)
  | .selecting => some (match selectLogins services user logins with
      | none => .refused
      | some rows => .selected (rows.map Login.password))
  | .selected [] => some .rejected
  | .selected (hashed :: _) => some (.comparing hashed)
  | .comparing hashed => some (match services.compare password hashed with
      | none => .refused
      | some valid => .compared valid)
  | .compared valid => some (.returned valid)
  | .refused => some .rejected
  | .returned _ => none
  | .rejected => none

def advance (salt : Nat) (logins : Logins T) : Call V T → Option (Logins T × Call V T)
  | .addLogin user password point =>
      (addLogin services salt user password logins point).map fun result =>
        (result.1, .addLogin user password result.2)
  | .checkLogin user password point =>
      (checkLogin services user password logins point).map fun point =>
        (logins, .checkLogin user password point)

def step (s : Site V T) : Action V → Option (Site V T)
  | .addLogin user password =>
      some { s with calls := s.calls ++ [.addLogin user password .counting] }
  | .checkLogin user password =>
      some { s with calls := s.calls ++ [.checkLogin user password .selecting] }
  | .advance i salt =>
      match s.calls[i]? with
      | none => none
      | some call => (advance services salt s.logins call).map fun result =>
          ⟨result.1, s.calls.set i result.2⟩

/-! ### What the database and bcrypt are relied on for -/

/-- Names that are the same under the collation of the column. -/
structure Collation : Prop where
  refl : ∀ name, services.sameName name name = true
  symm : ∀ name name', services.sameName name name' = true → services.sameName name' name = true
  trans : ∀ name name' name'', services.sameName name name' = true →
    services.sameName name' name'' = true → services.sameName name name'' = true

/-- `bcrypt.compare` is true exactly on the hashes of the password. -/
def Bcrypt : Prop :=
  ∀ password hashed, services.compare password hashed = some true ↔
    ∃ salt, services.hash salt password = some hashed

/-- `UNIQUE(user)` -/
def Unique (logins : Logins T) : Prop :=
  logins.rows.Pairwise fun row row' => services.sameName row.user row'.user = false

/-! ### The condition -/

/-- The row is of the user. -/
def names (user : V) (row : Login T) : Bool :=
  (services.loginUser user).any fun name => services.sameName name row.user

def hasRow (user : V) (logins : Logins T) : Bool := logins.rows.any (names services user)

/-- The user is a text that fits into the column, and queries compare it as it is stored; the
password is one that bcrypt hashes and compares. -/
structure Accepted (user password : V) : Prop where
  user : (services.loginUser user).isSome ∧ services.whereUser user = some (names services user)
  hash : ∀ salt, (services.hash salt password).isSome
  compare : ∀ hashed, (services.compare password hashed).isSome

/-- The INSERT finds no row of the user, the SELECT of a login finds one. -/
def Call.sound (logins : Logins T) : Call V T → Bool
  | .addLogin user _ (.inserting _) => !hasRow services user logins
  | .checkLogin user _ .selecting => hasRow services user logins
  | _ => true

def Sound (s : Site V T) : Action V → Prop
  | .addLogin user password => Accepted services user password
  | .checkLogin user password => Accepted services user password
  | .advance i _ => ∀ call, s.calls[i]? = some call → call.sound services s.logins = true

/-! ### Rows of a name -/

/-- The call registers the name. -/
def Call.isFor (name : T) : Call V T → Bool
  | .addLogin user _ _ => (services.loginUser user).any (services.sameName name)
  | .checkLogin _ _ _ => false

/-- A registration that has inserted its row. -/
def Adding.entered : Adding T → Bool
  | .inserted affectedRows => affectedRows == 1
  | .returned value => value
  | _ => false

/-- A registration that has returned false or is bound to. -/
def Adding.denied : Adding T → Bool
  | .counted count => count == 1
  | .inserted affectedRows => affectedRows != 1
  | .returned value => !value
  | _ => false

def Call.entered : Call V T → Bool
  | .addLogin _ _ point => point.entered
  | .checkLogin _ _ _ => false

def Call.denied : Call V T → Bool
  | .addLogin _ _ point => point.denied
  | .checkLogin _ _ _ => false

def rowsOf (name : T) (logins : Logins T) : Nat :=
  logins.rows.countP fun row => services.sameName name row.user

variable {services}

theorem names_eq {user : V} {name : T} {row : Login T} (h : services.loginUser user = some name) :
    names services user row = services.sameName name row.user := by
  simp [names, h]

theorem rowsOf_le_one (hcollation : Collation services) {logins : Logins T}
    (h : Unique services logins) (name : T) : rowsOf services name logins ≤ 1 := by
  simp only [Unique] at h
  simp only [rowsOf]
  generalize logins.rows = rows at h ⊢
  induction rows with
  | nil => simp
  | cons row rows ih =>
      obtain ⟨hrow, hrows⟩ := List.pairwise_cons.mp h
      cases hname : services.sameName name row.user with
      | false => simpa [hname] using ih hrows
      | true =>
          have hnone : rows.countP (fun row' => services.sameName name row'.user) = 0 := by
            rw [List.countP_eq_zero]
            intro row' hmem hname'
            have hsame := hcollation.trans _ _ _ (hcollation.symm _ _ hname) hname'
            rw [hrow row' hmem] at hsame
            cases hsame
          simp [hname, hnone]

theorem unique_symm (hcollation : Collation services) :
    Std.Symm fun row row' : Login T => services.sameName row.user row'.user = false := by
  refine ⟨?_⟩
  intro row row' h
  cases hsame : services.sameName row'.user row.user with
  | false => rfl
  | true =>
      rw [hcollation.symm _ _ hsame] at h
      cases h

/-- Two rows of one user are the same row. -/
theorem eq_of_names (hcollation : Collation services) {logins : Logins T}
    (h : Unique services logins) {user : V} {row row' : Login T} (hrow : row ∈ logins.rows)
    (hrow' : row' ∈ logins.rows) (hnames : names services user row = true)
    (hnames' : names services user row' = true) : row = row' := by
  cases huser : services.loginUser user with
  | none => simp [names, huser] at hnames
  | some name =>
      rw [names_eq huser] at hnames hnames'
      have hsame := hcollation.trans _ _ _ (hcollation.symm _ _ hnames) hnames'
      have hsymm := unique_symm hcollation
      by_contra hne
      have hdiffer : services.sameName row.user row'.user = false :=
        List.Pairwise.forall h hrow hrow' hne
      rw [hdiffer] at hsame
      cases hsame

/-- An INSERT that succeeds. -/
theorem insertLogin_eq_some {user : V} {password : T} {affectedRows : Nat}
    {logins logins' : Logins T}
    (h : insertLogin services user password logins = some (affectedRows, logins')) :
    affectedRows = 1 ∧ ∃ name, services.loginUser user = some name ∧
      (∀ row ∈ logins.rows, services.sameName name row.user = false) ∧
      logins'.rows = logins.rows ++ [⟨logins.next, name, password⟩] := by
  cases huser : services.loginUser user with
  | none => simp [insertLogin, huser] at h
  | some name =>
      simp only [insertLogin, huser] at h
      split at h
      · cases h
      · next hnew =>
          cases h
          refine ⟨rfl, name, rfl, ?_, rfl⟩
          simpa using hnew

theorem hasRow_iff {user : V} {logins : Logins T} :
    hasRow services user logins = true ↔ ∃ row ∈ logins.rows, names services user row = true := by
  simp [hasRow]

/-- An INSERT is refused exactly for a user who has a row. -/
theorem insertLogin_eq_none {user : V} {password : T} {logins : Logins T}
    (huser : (services.loginUser user).isSome) :
    insertLogin services user password logins = none ↔ hasRow services user logins = true := by
  obtain ⟨name, huser⟩ := Option.isSome_iff_exists.mp huser
  simp only [insertLogin, hasRow, huser]
  have hnames : names services user = fun row => services.sameName name row.user := by
    funext row
    exact names_eq huser
  rw [hnames]
  split <;> simp_all

/-! ### What a step does -/

theorem exists_of_step {s t : Site V T} {i salt : Nat}
    (h : step services s (.advance i salt) = some t) :
    ∃ call logins next, s.calls[i]? = some call ∧
      advance services salt s.logins call = some (logins, next) ∧
      t = ⟨logins, s.calls.set i next⟩ := by
  cases hcall : s.calls[i]? with
  | none => simp [step, hcall] at h
  | some call =>
      simp only [step, hcall] at h
      obtain ⟨result, hadvance, heq⟩ := Option.map_eq_some_iff.mp h
      exact ⟨call, result.1, result.2, rfl, hadvance, heq.symm⟩

/-- A registration leaves the table alone or inserts the row of a new user. -/
theorem addLogin_effect {salt : Nat} {user password : V} {logins logins' : Logins T}
    {point point' : Adding T}
    (h : addLogin services salt user password logins point = some (logins', point')) :
    (logins' = logins ∧ point'.entered = point.entered) ∨
      (point.entered = false ∧ point' = .inserted 1 ∧ ∃ name hpass,
        services.loginUser user = some name ∧
        (∀ row ∈ logins.rows, services.sameName name row.user = false) ∧
        logins'.rows = logins.rows ++ [⟨logins.next, name, hpass⟩]) := by
  cases point with
  | inserting hpass =>
      cases hinsert : insertLogin services user hpass logins with
      | none =>
          simp only [addLogin, hinsert, Option.some.injEq, Prod.mk.injEq] at h
          obtain ⟨rfl, rfl⟩ := h
          exact .inl ⟨rfl, rfl⟩
      | some result =>
          simp only [addLogin, hinsert, Option.some.injEq, Prod.mk.injEq] at h
          obtain ⟨rfl, rfl⟩ := h
          obtain ⟨hone, name, huser, hnew, hrows⟩ := insertLogin_eq_some hinsert
          exact .inr ⟨rfl, by rw [hone], name, hpass, huser, hnew, hrows⟩
  | counted count =>
      simp only [addLogin, Option.some.injEq, Prod.mk.injEq] at h
      obtain ⟨rfl, rfl⟩ := h
      refine .inl ⟨rfl, ?_⟩
      split <;> rfl
  | counting | hashing =>
      simp only [addLogin, Option.some.injEq, Prod.mk.injEq] at h
      obtain ⟨rfl, rfl⟩ := h
      refine .inl ⟨rfl, ?_⟩
      split <;> rfl
  | hashed hpass | inserted affectedRows | refused =>
      cases h
      exact .inl ⟨rfl, rfl⟩
  | returned value | rejected => cases h

theorem unique_of_append (hcollation : Collation services) {logins logins' : Logins T}
    {row : Login T} (h : Unique services logins)
    (hnew : ∀ row' ∈ logins.rows, services.sameName row.user row'.user = false)
    (hrows : logins'.rows = logins.rows ++ [row]) : Unique services logins' := by
  simp only [Unique, hrows]
  refine List.pairwise_append.mpr ⟨h, List.pairwise_singleton _ _, ?_⟩
  intro row' hmem last hlast
  rw [List.mem_singleton.mp hlast]
  exact (unique_symm hcollation).symm _ _ (hnew row' hmem)

section Advance

variable {salt : Nat} {logins logins' : Logins T} {call next : Call V T}
  {user password : V} {point point' : Adding T}

theorem advance_unique (hcollation : Collation services) (hunique : Unique services logins)
    (h : advance services salt logins call = some (logins', next)) : Unique services logins' := by
  cases call with
  | addLogin user password point =>
      obtain ⟨result, hpoint, heq⟩ := Option.map_eq_some_iff.mp h
      cases heq
      obtain ⟨heq, _⟩ | ⟨_, _, name, hpass, _, hnew, hrows⟩ := addLogin_effect hpoint
      · rw [heq]
        exact hunique
      · exact unique_of_append hcollation hunique hnew hrows
  | checkLogin user password point =>
      obtain ⟨point', _, heq⟩ := Option.map_eq_some_iff.mp h
      cases heq
      exact hunique

/-- The rows of a name are accounted for by the registrations that have entered them. -/
theorem advance_rowsOf (h : advance services salt logins call = some (logins', next)) (name : T) :
    next.isFor services name = call.isFor services name ∧
      rowsOf services name logins' +
          (if call.isFor services name && call.entered then 1 else 0) =
        rowsOf services name logins +
          (if next.isFor services name && next.entered then 1 else 0) := by
  cases call with
  | addLogin user password point =>
      obtain ⟨result, hpoint, heq⟩ := Option.map_eq_some_iff.mp h
      cases heq
      refine ⟨rfl, ?_⟩
      obtain ⟨heq, hentered⟩ | ⟨hentered, hpoint', user', hpass, huser, _, hrows⟩ :=
        addLogin_effect hpoint
      · simp [heq, Call.isFor, Call.entered, hentered]
      · have hpoint : (Adding.inserted 1 : Adding T).entered = true := rfl
        simp [rowsOf, hrows, Call.isFor, Call.entered, hentered, hpoint', huser, hpoint]
  | checkLogin user password point =>
      obtain ⟨point', _, heq⟩ := Option.map_eq_some_iff.mp h
      cases heq
      exact ⟨rfl, rfl⟩

theorem rowsOf_mono (h : advance services salt logins call = some (logins', next)) (name : T) :
    rowsOf services name logins ≤ rowsOf services name logins' := by
  cases call with
  | addLogin user password point =>
      obtain ⟨result, hpoint, heq⟩ := Option.map_eq_some_iff.mp h
      cases heq
      obtain ⟨heq, _⟩ | ⟨_, _, _, _, _, _, hrows⟩ := addLogin_effect hpoint
      · exact Nat.le_of_eq (congrArg (rowsOf services name) heq.symm)
      · simp only [rowsOf, hrows, List.countP_append]
        omega
  | checkLogin user password point =>
      obtain ⟨point', _, heq⟩ := Option.map_eq_some_iff.mp h
      cases heq
      exact Nat.le_refl _

/-- What the SELECTs of an accepted user find. -/
theorem selectLogins_accepted (h : Accepted services user password)
    (logins : Logins T) :
    selectLogins services user logins = some (logins.rows.filter (names services user)) := by
  simp [selectLogins, h.user.2]

def Call.Accepted (services : Services V T) : Call V T → Prop
  | .addLogin user password _ => LoginCalls.Accepted services user password
  | .checkLogin user password _ => LoginCalls.Accepted services user password

theorem advance_accepted (h : advance services salt logins call = some (logins', next))
    (haccepted : call.Accepted services) : next.Accepted services := by
  cases call with
  | addLogin user password point =>
      obtain ⟨result, _, heq⟩ := Option.map_eq_some_iff.mp h
      cases heq
      exact haccepted
  | checkLogin user password point =>
      obtain ⟨point', _, heq⟩ := Option.map_eq_some_iff.mp h
      cases heq
      exact haccepted

/-- A row that the SELECT of a registration finds is one of the name it registers. -/
theorem rowsOf_of_found (hcollation : Collation services) {row : Login T} {name : T}
    (hrow : row ∈ logins.rows.filter (names services user))
    (hfor : (services.loginUser user).any (services.sameName name) = true) :
    1 ≤ rowsOf services name logins := by
  obtain ⟨hrows, hnames⟩ := List.mem_filter.mp hrow
  obtain ⟨user', huser, hsame⟩ := (Option.any_eq_true _ _).mp hfor
  rw [names_eq huser] at hnames
  refine List.countP_pos_iff.mpr ⟨row, hrows, ?_⟩
  exact hcollation.trans _ _ _ hsame hnames

/-- Whoever is told that the name is taken has seen a row of it. -/
theorem addLogin_denied (hcollation : Collation services)
    (h : addLogin services salt user password logins point = some (logins', point'))
    (haccepted : Accepted services user password) {name : T}
    (hfor : (services.loginUser user).any (services.sameName name) = true)
    (hdenied : point'.denied = true) :
    point.denied = true ∨ 1 ≤ rowsOf services name logins' := by
  cases point with
  | counting =>
      simp only [addLogin, selectLogins_accepted haccepted, Option.some.injEq] at h
      cases h
      have hone : (logins.rows.filter (names services user)).length = 1 :=
        beq_iff_eq.mp hdenied
      obtain ⟨row, hrow⟩ := List.length_eq_one_iff.mp hone
      have hmem : row ∈ logins.rows.filter (names services user) := by simp [hrow]
      exact .inr (rowsOf_of_found hcollation hmem hfor)
  | counted count =>
      simp only [addLogin, Option.some.injEq] at h
      cases h
      refine .inl ?_
      by_cases hone : count = 1
      · simp [Adding.denied, hone]
      · simp [Adding.denied, hone] at hdenied
  | hashing =>
      simp only [addLogin, Option.some.injEq] at h
      cases h
      cases hhash : services.hash salt password <;>
        simp [Adding.denied, hhash] at hdenied
  | inserting hpass =>
      cases hinsert : insertLogin services user hpass logins with
      | none =>
          simp only [addLogin, hinsert, Option.some.injEq] at h
          cases h
          cases hdenied
      | some inserted =>
          simp only [addLogin, hinsert, Option.some.injEq] at h
          cases h
          obtain ⟨hone, _⟩ := insertLogin_eq_some hinsert
          simp [Adding.denied, hone] at hdenied
  | inserted affectedRows =>
      cases h
      exact .inl hdenied
  | hashed hpass | refused =>
      cases h
      cases hdenied
  | returned value | rejected => cases h

theorem advance_denied (hcollation : Collation services)
    (h : advance services salt logins call = some (logins', next))
    (haccepted : call.Accepted services) {name : T} (hfor : next.isFor services name = true)
    (hdenied : next.denied = true) :
    call.denied = true ∨ 1 ≤ rowsOf services name logins' := by
  cases call with
  | addLogin user password point =>
      obtain ⟨result, hpoint, heq⟩ := Option.map_eq_some_iff.mp h
      cases heq
      exact addLogin_denied hcollation hpoint haccepted hfor hdenied
  | checkLogin user password point =>
      obtain ⟨point', _, heq⟩ := Option.map_eq_some_iff.mp h
      cases heq
      cases hdenied

/-- Where the condition is met, and only there, no registration comes to reject. -/
theorem addLogin_failed
    (h : addLogin services salt user password logins point = some (logins', point'))
    (haccepted : Accepted services user password)
    (hhealthy : (Call.addLogin user password point).failed = false) :
    (Call.addLogin user password point').failed = false ↔
      (Call.addLogin user password point).sound services logins = true := by
  cases point with
  | counting =>
      simp only [addLogin, selectLogins_accepted haccepted, Option.some.injEq] at h
      cases h
      simp [Call.failed, Call.sound]
  | counted count =>
      simp only [addLogin, Option.some.injEq] at h
      cases h
      by_cases hone : count = 1 <;> simp [Call.failed, Call.sound, hone]
  | hashing =>
      obtain ⟨hpass, hhash⟩ := Option.isSome_iff_exists.mp (haccepted.hash salt)
      simp only [addLogin, hhash, Option.some.injEq] at h
      cases h
      simp [Call.failed, Call.sound]
  | inserting hpass =>
      have hnone : insertLogin services user hpass logins = none ↔
          hasRow services user logins = true := insertLogin_eq_none haccepted.user.1
      cases hinsert : insertLogin services user hpass logins with
      | none =>
          simp only [addLogin, hinsert, Option.some.injEq] at h
          cases h
          simp [Call.failed, Call.sound, hnone.mp hinsert]
      | some inserted =>
          simp only [addLogin, hinsert, Option.some.injEq] at h
          cases h
          have hnew : ¬ hasRow services user logins = true := by
            rw [← hnone, hinsert]
            simp
          simp [Call.failed, Call.sound, hnew]
  | hashed hpass | inserted affectedRows =>
      cases h
      simp [Call.failed, Call.sound]
  | refused => cases hhealthy
  | returned value | rejected => cases h

theorem checkLogin_failed {point point' : Checking T}
    (h : checkLogin services user password logins point = some point')
    (haccepted : Accepted services user password)
    (hhealthy : (Call.checkLogin user password point).failed = false) :
    (Call.checkLogin user password point').failed = false ↔
      (Call.checkLogin user password point).sound services logins = true := by
  cases point with
  | selecting =>
      simp only [checkLogin, selectLogins_accepted haccepted, Option.some.injEq] at h
      cases h
      have hrow : hasRow services user logins = true ↔
          ∃ row ∈ logins.rows, names services user row = true := hasRow_iff
      cases hfound : logins.rows.filter (names services user) with
      | nil =>
          have hnot : ¬ ∃ row ∈ logins.rows, names services user row = true := by
            simpa [List.filter_eq_nil_iff] using hfound
          simp [Call.failed, Call.sound, hrow, hnot]
      | cons row rows =>
          have hmem : row ∈ logins.rows.filter (names services user) := by simp [hfound]
          have hex := hrow.mpr ⟨row, List.mem_filter.mp hmem⟩
          simp [Call.failed, Call.sound, hex]
  | selected passwords =>
      cases passwords with
      | nil => cases hhealthy
      | cons hashed rest =>
          cases h
          simp [Call.failed, Call.sound]
  | comparing hashed =>
      obtain ⟨valid, hcompare⟩ := Option.isSome_iff_exists.mp (haccepted.compare hashed)
      simp only [checkLogin, hcompare, Option.some.injEq] at h
      cases h
      simp [Call.failed, Call.sound]
  | compared valid =>
      cases h
      simp [Call.failed, Call.sound]
  | refused => cases hhealthy
  | returned value | rejected => cases h

theorem advance_failed (h : advance services salt logins call = some (logins', next))
    (haccepted : call.Accepted services) (hhealthy : call.failed = false) :
    next.failed = false ↔ call.sound services logins = true := by
  cases call with
  | addLogin user password point =>
      obtain ⟨result, hpoint, heq⟩ := Option.map_eq_some_iff.mp h
      cases heq
      exact addLogin_failed hpoint haccepted hhealthy
  | checkLogin user password point =>
      obtain ⟨point', hpoint, heq⟩ := Option.map_eq_some_iff.mp h
      cases heq
      exact checkLogin_failed hpoint haccepted hhealthy

/-- The number of steps a call still takes at most. -/
def Call.left : Call V T → Nat
  | .addLogin _ _ .counting => 7
  | .addLogin _ _ (.counted _) => 6
  | .addLogin _ _ .hashing => 5
  | .addLogin _ _ (.hashed _) => 4
  | .addLogin _ _ (.inserting _) => 3
  | .addLogin _ _ (.inserted _) => 2
  | .addLogin _ _ .refused => 1
  | .checkLogin _ _ .selecting => 5
  | .checkLogin _ _ (.selected _) => 4
  | .checkLogin _ _ (.comparing _) => 3
  | .checkLogin _ _ (.compared _) => 2
  | .checkLogin _ _ .refused => 1
  | _ => 0

theorem advance_left (h : advance services salt logins call = some (logins', next)) :
    next.left < call.left := by
  cases call with
  | addLogin user password point =>
      obtain ⟨result, hpoint, heq⟩ := Option.map_eq_some_iff.mp h
      cases heq
      cases point with
      | counting | counted count | hashing | inserting hpass =>
          simp only [addLogin, Option.some.injEq] at hpoint
          cases hpoint
          split <;> simp [Call.left]
      | hashed hpass | inserted affectedRows | refused =>
          cases hpoint
          simp [Call.left]
      | returned value | rejected => cases hpoint
  | checkLogin user password point =>
      obtain ⟨point', hpoint, heq⟩ := Option.map_eq_some_iff.mp h
      cases heq
      cases point with
      | selecting | comparing hashed =>
          simp only [checkLogin, Option.some.injEq] at hpoint
          cases hpoint
          split <;> simp [Call.left]
      | selected passwords =>
          cases passwords <;> cases hpoint <;> simp [Call.left]
      | compared valid | refused =>
          cases hpoint
          simp [Call.left]
      | returned value | rejected => cases hpoint

/-- A call takes steps until it has resolved or rejected. -/
theorem advance_eq_none (h : advance services salt logins call = none) :
    call.value.isSome ∨ call.rejected = true := by
  cases call with
  | addLogin user password point =>
      cases point <;> simp_all [advance, addLogin, Call.value, Call.rejected]
  | checkLogin user password point =>
      cases point with
      | selected passwords => cases passwords <;> simp_all [advance, checkLogin]
      | _ => simp_all [advance, checkLogin, Call.value, Call.rejected]

theorem advance_of_failed (salt : Nat) (logins : Logins T) (h : call.failed = true)
    (hnot : call.rejected = false) :
    ∃ next, advance services salt logins call = some (logins, next) ∧ next.rejected = true := by
  cases call with
  | addLogin user password point =>
      cases point with
      | refused => exact ⟨_, rfl, rfl⟩
      | rejected => cases hnot
      | _ => cases h
  | checkLogin user password point =>
      cases point with
      | refused => exact ⟨_, rfl, rfl⟩
      | selected passwords =>
          cases passwords with
          | nil => exact ⟨_, rfl, rfl⟩
          | cons hashed rest => cases h
      | rejected => cases hnot
      | _ => cases h

/-- A query that misses the condition does not reject its call at once. -/
theorem advance_not_sound (h : advance services salt logins call = some (logins', next))
    (hmisses : call.sound services logins = false) : next.rejected = false := by
  cases call with
  | addLogin user password point =>
      obtain ⟨result, hpoint, heq⟩ := Option.map_eq_some_iff.mp h
      cases heq
      cases point with
      | inserting hpass =>
          simp only [addLogin, Option.some.injEq] at hpoint
          cases hpoint
          split <;> rfl
      | _ => cases hmisses
  | checkLogin user password point =>
      obtain ⟨point', hpoint, heq⟩ := Option.map_eq_some_iff.mp h
      cases heq
      cases point with
      | selecting =>
          simp only [checkLogin, Option.some.injEq] at hpoint
          cases hpoint
          split <;> rfl
      | _ => cases hmisses

theorem rejected_of_failed (h : call.failed = false) : call.rejected = false := by
  cases call with
  | addLogin user password point => cases point <;> simp_all [Call.failed, Call.rejected]
  | checkLogin user password point => cases point <;> simp_all [Call.failed, Call.rejected]

end Advance

end Steps

end UmnProjects.Litter.LoginCalls
