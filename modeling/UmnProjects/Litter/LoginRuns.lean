import UmnProjects.Foundations.Flights
import UmnProjects.Litter.LoginCalls

/-!
Runs of overlapping registrations and logins: when every call resolves, which registration
of a name succeeds and what a login is answered.
-/
namespace UmnProjects.Litter.LoginCalls

open Rows Flights Runs

section Steps

variable {V T : Type} {services : Services V T}

/-! ### What holds in a run -/

structure Inv (services : Services V T) (s : Site V T) : Prop where
  unique : Unique services s.logins
  accepted : ∀ call ∈ s.calls, call.Accepted services
  healthy : ∀ call ∈ s.calls, call.failed = false

/-- What is kept of a name that had no row at the start. -/
structure Entries (services : Services V T) (name : T) (s : Site V T) : Prop where
  entered : rowsOf services name s.logins =
    s.calls.countP fun call => call.isFor services name && call.entered
  denied : ∀ call ∈ s.calls, call.isFor services name = true → call.denied = true →
    1 ≤ rowsOf services name s.logins

theorem Inv.begin {s : Site V T} (h : Inv services s) {call : Call V T}
    (haccepted : call.Accepted services) (hhealthy : call.failed = false) :
    Inv services { s with calls := s.calls ++ [call] } where
  unique := h.unique
  accepted := by simpa [or_imp, forall_and] using ⟨h.accepted, haccepted⟩
  healthy := by simpa [or_imp, forall_and] using ⟨h.healthy, hhealthy⟩

theorem Inv.of_step (hcollation : Collation services) {s t : Site V T} {a : Action V}
    (h : Inv services s) (hsound : Sound services s a) (hstep : step services s a = some t) :
    Inv services t := by
  cases a with
  | addLogin user password | checkLogin user password =>
      cases hstep
      exact h.begin hsound rfl
  | advance i salt =>
      obtain ⟨call, logins, next, hcall, hadvance, rfl⟩ := exists_of_step hstep
      have hmem := List.mem_of_getElem? hcall
      refine ⟨advance_unique hcollation h.unique hadvance, ?_, ?_⟩
      · intro other hother
        obtain hother | rfl := List.mem_or_eq_of_mem_set hother
        · exact h.accepted other hother
        · exact advance_accepted hadvance (h.accepted call hmem)
      · intro other hother
        obtain hother | rfl := List.mem_or_eq_of_mem_set hother
        · exact h.healthy other hother
        · exact (advance_failed hadvance (h.accepted call hmem) (h.healthy call hmem)).mpr
            (hsound call hcall)

theorem Entries.begin {s : Site V T} {name : T} (h : Entries services name s) {call : Call V T}
    (hentered : call.entered = false) (hdenied : call.denied = false) :
    Entries services name { s with calls := s.calls ++ [call] } where
  entered := by simpa [List.countP_append, hentered] using h.entered
  denied := by
    intro other hother hfor hother'
    obtain hother | hother := List.mem_append.mp hother
    · exact h.denied other hother hfor hother'
    · rw [List.mem_singleton.mp hother, hdenied] at hother'
      cases hother'

theorem Entries.of_step (hcollation : Collation services) {s t : Site V T} {a : Action V}
    {name : T} (h : Entries services name s) (hinv : Inv services s)
    (hstep : step services s a = some t) : Entries services name t := by
  cases a with
  | addLogin user password | checkLogin user password =>
      cases hstep
      exact h.begin rfl rfl
  | advance i salt =>
      obtain ⟨call, logins, next, hcall, hadvance, rfl⟩ := exists_of_step hstep
      have hmem := List.mem_of_getElem? hcall
      obtain ⟨hfor, hrows⟩ := advance_rowsOf hadvance name
      refine ⟨?_, ?_⟩
      · have hcount := countP_set (fun call => call.isFor services name && call.entered) next hcall
        have hentered := h.entered
        simp only at hcount ⊢
        omega
      · intro other hother hname hdenied
        have hmono := rowsOf_mono hadvance name
        obtain hother | rfl := List.mem_or_eq_of_mem_set hother
        · exact Nat.le_trans (h.denied other hother hname hdenied) hmono
        · obtain hbefore | hrow := advance_denied hcollation hadvance (hinv.accepted call hmem)
            hname hdenied
          · rw [hfor] at hname
            exact Nat.le_trans (h.denied call hmem hname hbefore) hmono
          · exact hrow

/-! ### Of the registrations of a name exactly one succeeds -/

def OneSucceeds (services : Services V T) (name : T) (s : Site V T) : Prop :=
  (∃ call ∈ s.calls, call.isFor services name = true) →
    (∀ call ∈ s.calls, call.isFor services name = true → call.value.isSome) →
      s.calls.countP (fun call => call.isFor services name && call.value == some true) = 1

theorem Entries.oneSucceeds (hcollation : Collation services) {s : Site V T} {name : T}
    (h : Entries services name s) (hunique : Unique services s.logins) :
    OneSucceeds services name s := by
  intro hcalled hended
  obtain ⟨call, hmem, hfor⟩ := hcalled
  have hsame : s.calls.countP (fun call => call.isFor services name && call.value == some true) =
      rowsOf services name s.logins := by
    rw [h.entered]
    refine List.countP_congr ?_
    intro other hother
    cases hname : other.isFor services name with
    | false => simp
    | true =>
        have hvalue := hended other hother hname
        cases other with
        | checkLogin user password point => cases hname
        | addLogin user password point =>
            cases point <;> simp_all [Call.value, Call.entered, Adding.entered]
  have hmost := rowsOf_le_one hcollation hunique name
  have hleast : 1 ≤ rowsOf services name s.logins := by
    obtain ⟨value, hvalue⟩ := Option.isSome_iff_exists.mp (hended call hmem hfor)
    cases value with
    | true =>
        rw [← hsame]
        exact List.countP_pos_iff.mpr ⟨call, hmem, by simp [hfor, hvalue]⟩
    | false =>
        refine h.denied call hmem hfor ?_
        cases call with
        | checkLogin user password point => cases hfor
        | addLogin user password point =>
            cases point <;> simp_all [Call.value, Call.denied, Adding.denied]
  omega

/-! ### What a login has read decides its answer -/

def Checking.Seen (services : Services V T) (password : V) (hashed : T) : Checking T → Prop
  | .selecting => False
  | .selected passwords => passwords.head? = some hashed
  | .comparing hashed' => hashed' = hashed
  | .compared valid => services.compare password hashed = some valid
  | .returned value => services.compare password hashed = some value
  | .refused => services.compare password hashed = none
  | .rejected => services.compare password hashed = none

theorem Checking.Seen.checkLogin {user password : V} {hashed : T} {logins : Logins T}
    {point point' : Checking T} (h : point.Seen services password hashed)
    (hpoint : LoginCalls.checkLogin services user password logins point = some point') :
    point'.Seen services password hashed := by
  cases point with
  | selecting => exact h.elim
  | selected passwords =>
      cases passwords with
      | nil => cases h
      | cons hashed' rest =>
          cases hpoint
          exact Option.some.inj h
  | comparing hashed' =>
      cases h
      simp only [LoginCalls.checkLogin, Option.some.injEq] at hpoint
      cases hpoint
      cases hcompare : services.compare password hashed <;> simp [Checking.Seen, hcompare]
  | compared valid | refused =>
      cases hpoint
      exact h
  | returned value | rejected => cases hpoint

theorem seen_of_run {ok : Site V T → Action V → Prop} {s t : Site V T}
    (run : Run (step services) ok s t) {i : Nat} {user password : V} {hashed : T}
    (h : ∃ point, s.calls[i]? = some (.checkLogin user password point) ∧
      point.Seen services password hashed) :
    ∃ point, t.calls[i]? = some (.checkLogin user password point) ∧
      point.Seen services password hashed := by
  refine run.invariant (I := fun s => ∃ point,
    s.calls[i]? = some (.checkLogin user password point) ∧ point.Seen services password hashed)
    ?_ h
  intro s a t _ hstep hs
  obtain ⟨point, hcall, hseen⟩ := hs
  obtain ⟨hlen, _⟩ := List.getElem?_eq_some_iff.mp hcall
  cases a with
  | addLogin user' password' | checkLogin user' password' =>
      cases hstep
      exact ⟨point, by rw [List.getElem?_append_left hlen, hcall], hseen⟩
  | advance j salt =>
      obtain ⟨call, logins, next, hcall', hadvance, rfl⟩ := exists_of_step hstep
      by_cases hij : j = i
      · subst hij
        cases hcall.symm.trans hcall'
        obtain ⟨point', hpoint, heq⟩ := Option.map_eq_some_iff.mp hadvance
        cases heq
        exact ⟨point', by simp [hlen], hseen.checkLogin hpoint⟩
      · exact ⟨point, by rw [List.getElem?_set_ne hij, hcall], hseen⟩

/-- A row of the user with a matching password. -/
def Matching (services : Services V T) (user password : V) (logins : Logins T) : Prop :=
  ∃ row ∈ logins.rows, names services user row = true ∧
    ∃ salt, services.hash salt password = some row.password

/-- A login is answered by what the table is when the login reads it. -/
def ReadsRight (services : Services V T) (s : Site V T) : Prop :=
  ∀ i salt user password value t u,
    s.calls[i]? = some (.checkLogin user password .selecting) →
    Sound services s (.advance i salt) → step services s (.advance i salt) = some t →
    Run (step services) (Sound services) t u →
    u.calls[i]? = some (.checkLogin user password (.returned value)) →
      (value = true ↔ Matching services user password s.logins)

theorem Inv.readsRight (hcollation : Collation services) (hbcrypt : Bcrypt services)
    {s : Site V T} (h : Inv services s) : ReadsRight services s := by
  intro i salt user password value t u hcall hsound hstep run hvalue
  have haccepted := h.accepted _ (List.mem_of_getElem? hcall)
  obtain ⟨row, hrow, hnames⟩ := hasRow_iff.mp (hsound _ hcall)
  have hread : t.calls[i]? = some (.checkLogin user password
      (.selected ((s.logins.rows.filter (names services user)).map Login.password))) := by
    obtain ⟨hlen, _⟩ := List.getElem?_eq_some_iff.mp hcall
    obtain ⟨call, logins, next, hcall', hadvance, rfl⟩ := exists_of_step hstep
    cases hcall.symm.trans hcall'
    simp only [advance, LoginCalls.checkLogin, selectLogins_accepted haccepted,
      Option.map_some, Option.some.injEq, Prod.mk.injEq] at hadvance
    simp [← hadvance.2, hlen]
  have honly : ∀ row' ∈ s.logins.rows, names services user row' = true → row' = row :=
    fun row' hrow' hnames' => eq_of_names hcollation h.unique hrow' hrow hnames' hnames
  have hhead : ((s.logins.rows.filter (names services user)).map Login.password).head? =
      some row.password := by
    cases hfound : s.logins.rows.filter (names services user) with
    | nil =>
        have hmem := List.mem_filter.mpr ⟨hrow, hnames⟩
        rw [hfound] at hmem
        cases hmem
    | cons row' rows =>
        have hmem : row' ∈ s.logins.rows.filter (names services user) := by simp [hfound]
        obtain ⟨hrow', hnames'⟩ := List.mem_filter.mp hmem
        simp [honly row' hrow' hnames']
  obtain ⟨point, hpoint, hseen⟩ := seen_of_run run ⟨_, hread, hhead⟩
  cases hvalue.symm.trans hpoint
  have hcompare : services.compare password row.password = some value := hseen
  have hmatch : value = true ↔ services.compare password row.password = some true := by
    rw [hcompare, Option.some.injEq]
  rw [hmatch, hbcrypt]
  constructor
  · intro hhashed
    exact ⟨row, hrow, hnames, hhashed⟩
  · intro hmatching
    obtain ⟨row', hrow', hnames', hhashed⟩ := hmatching
    rw [← honly row' hrow' hnames']
    exact hhashed

/-! ### Runs -/

def siteStart (logins : Logins T) : Site V T := ⟨logins, []⟩

/-- The calls made so far go on to their ends. -/
def goOn (services : Services V T) (s : Site V T) (a : Nat × Nat) : Option (Site V T) :=
  step services s (.advance a.1 a.2)

theorem terminates_goOn (services : Services V T) (s : Site V T) :
    Terminates (goOn services) s := by
  refine terminates_of_measure (I := fun _ => True) Nat.lt_wfRel.wf
    (fun s => (s.calls.map Call.left).sum) (fun _ _ _ _ _ => trivial) ?_ trivial
  intro s a t hstep _
  obtain ⟨call, logins, next, hcall, hadvance, rfl⟩ := exists_of_step hstep
  have hsum := sum_map_set Call.left next hcall
  have hless := advance_left hadvance
  change ((s.calls.set a.1 next).map Call.left).sum < (s.calls.map Call.left).sum
  omega

theorem ended_of_final {s : Site V T} (h : Final (goOn services) s) :
    ∀ call ∈ s.calls, call.value.isSome ∨ call.rejected = true := by
  intro call hmem
  obtain ⟨i, hi, hcall⟩ := List.mem_iff_getElem.mp hmem
  have hget : s.calls[i]? = some call := List.getElem?_eq_some_iff.mpr ⟨hi, hcall⟩
  have hnone := h (i, 0)
  simp only [goOn, step, hget, Option.map_eq_none_iff] at hnone
  exact advance_eq_none hnone

/-- A query that misses the condition makes its call reject. -/
theorem rejects_of_not_sound {s t : Site V T} {i salt : Nat} (h : Inv services s)
    (hstep : step services s (.advance i salt) = some t)
    (hsound : ¬ Sound services s (.advance i salt)) :
    ∃ u call, step services t (.advance i salt) = some u ∧ u.calls[i]? = some call ∧
      call.rejected = true := by
  obtain ⟨call, logins, next, hcall, hadvance, rfl⟩ := exists_of_step hstep
  obtain ⟨hlen, _⟩ := List.getElem?_eq_some_iff.mp hcall
  have hmem := List.mem_of_getElem? hcall
  have hmisses : call.sound services s.logins = false := by
    cases hcallsound : call.sound services s.logins with
    | false => rfl
    | true =>
        refine absurd ?_ hsound
        intro other hother
        cases hcall.symm.trans hother
        exact hcallsound
  have hfailed : next.failed = true := by
    have hiff := advance_failed hadvance (h.accepted call hmem) (h.healthy call hmem)
    rw [hmisses] at hiff
    simpa using hiff
  have hreject : ∃ next', advance services salt logins next = some (logins, next') ∧
      next'.rejected = true :=
    advance_of_failed salt logins hfailed (advance_not_sound hadvance hmisses)
  obtain ⟨next', hnext, hrejected⟩ := hreject
  refine ⟨⟨logins, (s.calls.set i next).set i next'⟩, next', ?_, by simp [hlen], hrejected⟩
  have hget : (s.calls.set i next)[i]? = some next := by simp [hlen]
  simp only [step, hget, hnext, Option.map_some]

/-- In a run whose steps all meet the condition no call rejects, the calls come to an end and
all resolve, of the registrations of a new name exactly one succeeds, and a login is answered
by the row it reads. A step of a call that misses the condition makes that call reject. -/
theorem calls_resolve (hcollation : Collation services) (hbcrypt : Bcrypt services)
    {logins : Logins T} (hunique : Unique services logins) {s : Site V T}
    (run : Run (step services) (Sound services) (siteStart logins) s) :
    (∀ call ∈ s.calls, call.rejected = false) ∧
      Terminates (goOn services) s ∧
      (Final (goOn services) s → ∀ call ∈ s.calls, call.value.isSome) ∧
      (∀ name, (∀ row ∈ logins.rows, services.sameName name row.user = false) →
        OneSucceeds services name s) ∧
      ReadsRight services s ∧
      ∀ i salt t, step services s (.advance i salt) = some t →
        ¬ Sound services s (.advance i salt) →
        ∃ u call, step services t (.advance i salt) = some u ∧ u.calls[i]? = some call ∧
          call.rejected = true := by
  have hstart : Inv services (siteStart logins : Site V T) := by
    refine ⟨hunique, ?_, ?_⟩ <;> simp [siteStart]
  have hinv : Inv services s := run.invariant (I := Inv services)
    (fun _ _ _ hsound hstep h => h.of_step hcollation hsound hstep) hstart
  have hresolved : ∀ call ∈ s.calls, call.rejected = false :=
    fun call hmem => rejected_of_failed (hinv.healthy call hmem)
  refine ⟨hresolved, terminates_goOn services s, ?_, ?_, hinv.readsRight hcollation hbcrypt, ?_⟩
  · intro hfinal call hmem
    obtain hvalue | hrejected := ended_of_final hfinal call hmem
    · exact hvalue
    · rw [hresolved call hmem] at hrejected
      cases hrejected
  · intro name hnew
    have hentries : Entries services name (siteStart logins : Site V T) := by
      refine ⟨?_, ?_⟩
      · simpa [rowsOf, siteStart, List.countP_eq_zero] using hnew
      · simp [siteStart]
    have hboth := run.invariant (I := fun s => Inv services s ∧ Entries services name s)
      (fun _ _ _ hsound hstep h =>
        ⟨h.1.of_step hcollation hsound hstep, h.2.of_step hcollation h.1 hstep⟩)
      ⟨hstart, hentries⟩
    exact hboth.2.oneSucceeds hcollation hinv.unique
  · intro i salt t hstep hsound
    exact rejects_of_not_sound hinv hstep hsound

end Steps

/-- Names compared without regard to case, in queries and by the constraint. -/
def textServices : Services (Nat ⊕ String) String :=
  { plainServices with
    whereUser := fun value => some fun row => match value with
      | .inl _ => false
      | .inr text => text.toList.map Char.toLower == row.user.toList.map Char.toLower
    sameName := fun name name' =>
      name.toList.map Char.toLower == name'.toList.map Char.toLower }

theorem collation_textServices : Collation textServices where
  refl := by simp [textServices]
  symm := by
    intro name name' h
    simp only [textServices, beq_iff_eq] at h ⊢
    exact h.symm
  trans := by
    intro name name' name'' h h'
    simp only [textServices, beq_iff_eq] at h h' ⊢
    exact h.trans h'

theorem bcrypt_textServices : Bcrypt textServices := by
  intro password hashed
  cases password <;> simp [textServices, plainServices]

theorem accepted_text {user password : String} (h : user.length ≤ 32) :
    Accepted textServices (.inr user) (.inr password) where
  user := by
    have hstored : textServices.loginUser (.inr user) = some user := if_pos h
    refine ⟨by rw [hstored]; rfl, congrArg some (funext fun row => ?_)⟩
    exact (names_eq hstored).symm
  hash _ := rfl
  compare _ := rfl

/-- Whether the condition holds, where the values are texts. -/
def textSound (s : Site (Nat ⊕ String) String) : Action (Nat ⊕ String) → Bool
  | .addLogin (.inr user) (.inr _) | .checkLogin (.inr user) (.inr _) => user.length ≤ 32
  | .advance i _ => s.calls[i]?.all fun call => call.sound textServices s.logins
  | _ => false

theorem sound_of_textSound (s : Site (Nat ⊕ String) String) (a : Action (Nat ⊕ String))
    (h : textSound s a = true) : Sound textServices s a := by
  cases a with
  | addLogin user password | checkLogin user password =>
      cases user with
      | inl _ => cases h
      | inr user =>
          cases password with
          | inl _ => cases h
          | inr password => exact accepted_text (of_decide_eq_true h)
  | advance i salt =>
      intro call hcall
      rw [textSound, hcall] at h
      exact h

/-- Two names are registered, one of them once more, and both log in. -/
def registrations : List (Action (Nat ⊕ String)) :=
  [.addLogin (.inr "alice") (.inr "one"), .addLogin (.inr "bob") (.inr "two"), .advance 0 0,
    .advance 1 0, .advance 0 0, .advance 1 0, .advance 0 0, .advance 0 0, .advance 1 0,
    .advance 0 0, .addLogin (.inr "Alice") (.inr "three"), .advance 2 0, .advance 1 0,
    .advance 2 0, .advance 1 0, .checkLogin (.inr "alice") (.inr "one"), .advance 3 0,
    .advance 0 0, .advance 1 0, .checkLogin (.inr "BOB") (.inr "one"), .advance 3 0, .advance 4 0,
    .advance 3 0, .advance 4 0, .advance 3 0, .advance 4 0, .advance 4 0]

theorem calls_resolve_registrations :
    ∃ s, perform (step textServices) (siteStart Table.empty) registrations = some s ∧
      s.calls = [.addLogin (.inr "alice") (.inr "one") (.returned true),
        .addLogin (.inr "bob") (.inr "two") (.returned true),
        .addLogin (.inr "Alice") (.inr "three") (.returned false),
        .checkLogin (.inr "alice") (.inr "one") (.returned true),
        .checkLogin (.inr "BOB") (.inr "one") (.returned false)] ∧
      OneSucceeds textServices "alice" s ∧ OneSucceeds textServices "bob" s ∧
      ReadsRight textServices s := by
  have hrun : Run (step textServices) (Sound textServices) (siteStart Table.empty) _ :=
    run_of_checked sound_of_textSound registrations rfl
  have hunique : Unique textServices Table.empty := List.Pairwise.nil
  obtain ⟨_, _, _, hone, hreads, _⟩ := calls_resolve collation_textServices bcrypt_textServices
    hunique hrun
  exact ⟨_, rfl, rfl, hone "alice" (by simp [Table.empty]), hone "bob" (by simp [Table.empty]),
    hreads⟩

/-- Two registrations of one name overlap and one rejects; so does a login without a row. -/
theorem overlapping_addLogin_rejects :
    (∃ t, perform (step textServices) (siteStart Table.empty)
        [.addLogin (.inr "alice") (.inr "one"), .addLogin (.inr "alice") (.inr "two"),
          .advance 0 0, .advance 1 0, .advance 0 0, .advance 1 0, .advance 0 0, .advance 1 0,
          .advance 0 0, .advance 1 0, .advance 0 0, .advance 1 0, .advance 0 0, .advance 1 0]
        = some t ∧
      t.calls = [.addLogin (.inr "alice") (.inr "one") (.returned true),
        .addLogin (.inr "alice") (.inr "two") .rejected]) ∧
    ∃ t, perform (step textServices) (siteStart Table.empty)
        [.checkLogin (.inr "alice") (.inr "one"), .advance 0 0, .advance 0 0] = some t ∧
      t.calls = [.checkLogin (.inr "alice") (.inr "one") .rejected] :=
  ⟨⟨_, rfl, rfl⟩, _, rfl, rfl⟩

end UmnProjects.Litter.LoginCalls
