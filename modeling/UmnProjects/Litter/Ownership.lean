import UmnProjects.Litter.Requests

/-!
Who changes a post: which requests leave the posts of other users alone, and which give a
user no like of the user's own.
-/
namespace UmnProjects.Litter

open Rows Objects

/-! ### What a change of the table must respect -/

section Tables

variable {T : Type} {owns : Post T → Prop} {before : Posts T}

/-- No post of the table is the post with the same text and edit time. -/
def Altered (after : Posts T) (p : Post T) : Prop :=
  ∀ q ∈ after.rows, q.id = p.id → ¬ (q.posttext = p.posttext ∧ q.edittime = p.edittime)

/-- Only the owner's posts are changed, deleted or made, and none of them gets a like. -/
structure Respected (owns : Post T → Prop) (before after : Posts T) : Prop where
  altered : ∀ p ∈ before.rows, Altered after p → owns p
  made : ∀ p ∈ after.rows, (∀ q ∈ before.rows, q.id ≠ p.id) → owns p
  likes : ∀ p ∈ before.rows, ∀ q ∈ after.rows, q.id = p.id → owns p → q.likes ≤ p.likes

theorem not_altered {after : Posts T} {p q : Post T} (hq : q ∈ after.rows) (hid : q.id = p.id)
    (htext : q.posttext = p.posttext) (htime : q.edittime = p.edittime) : ¬ Altered after p :=
  fun h => h q hq hid ⟨htext, htime⟩

theorem respected_refl (owns : Post T → Prop) (posts : Posts T) :
    Respected owns posts posts where
  altered _ hp h := absurd h (not_altered hp rfl rfl rfl)
  made p hp h := absurd rfl (h p hp)
  likes _ hp _ hq hid _ := Nat.le_of_eq (congrArg Post.likes (posts.eq_of_key hq hp hid))

theorem respected_insert {make : Nat → Post T} {h : ∀ n, (make n).id = n}
    (howns : owns (make before.next)) : Respected owns before (before.insert make h) where
  altered p hp halt := absurd halt (not_altered (Table.mem_insert.mpr (.inl hp)) rfl rfl rfl)
  made p hp hnew := by
    obtain hp | hp := Table.mem_insert.mp hp
    · exact absurd rfl (hnew p hp)
    · rw [hp]
      exact howns
  likes p hp q hq hid _ := by
    obtain hq | hq := Table.mem_insert.mp hq
    · exact Nat.le_of_eq (congrArg Post.likes (before.eq_of_key hq hp hid))
    · have hless := before.fresh p hp
      rw [← hid, hq, h] at hless
      exact absurd hless (Nat.lt_irrefl _)

/-- An update respects the owner when what it changes of a post's text and edit time is the
owner's, and what gets a like is not. -/
theorem respected_update_iff {f : Post T → Post T} {h : ∀ p, (f p).id = p.id} :
    Respected owns before (before.update f h) ↔
      ∀ p ∈ before.rows,
        (owns p ∨ ((f p).posttext = p.posttext ∧ (f p).edittime = p.edittime)) ∧
          (owns p → (f p).likes ≤ p.likes) := by
  have image : ∀ p ∈ before.rows, ∀ q ∈ (before.update f h).rows, q.id = p.id → q = f p := by
    intro p hp q hq hid
    obtain ⟨r, hr, hrq⟩ := Table.mem_update.mp hq
    rw [← hrq, h] at hid
    rw [← hrq, before.eq_of_key hr hp hid]
  have kept : ∀ p ∈ before.rows, f p ∈ (before.update f h).rows :=
    fun p hp => Table.mem_update.mpr ⟨p, hp, rfl⟩
  constructor
  · intro hrespected p hp
    refine ⟨?_, ?_⟩
    · by_cases hsame : (f p).posttext = p.posttext ∧ (f p).edittime = p.edittime
      · exact .inr hsame
      · refine .inl (hrespected.altered p hp ?_)
        intro q hq hid
        rw [image p hp q hq hid]
        exact hsame
    · exact hrespected.likes p hp (f p) (kept p hp) (h p)
  · intro hall
    refine ⟨?_, ?_, ?_⟩
    · intro p hp halt
      obtain howns | ⟨htext, htime⟩ := (hall p hp).1
      · exact howns
      · exact absurd halt (not_altered (kept p hp) (h p) htext htime)
    · intro p hp hnew
      obtain ⟨r, hr, hrp⟩ := Table.mem_update.mp hp
      rw [← hrp] at hnew
      exact absurd (h r).symm (hnew r hr)
    · intro p hp q hq hid howns
      rw [image p hp q hq hid]
      exact (hall p hp).2 howns

theorem respected_delete_iff {cond : Post T → Bool} :
    Respected owns before (before.delete cond) ↔
      ∀ p ∈ before.rows, cond p = true → owns p := by
  constructor
  · intro hrespected p hp hcond
    refine hrespected.altered p hp ?_
    intro q hq hid
    obtain ⟨hq, hkept⟩ := Table.mem_delete.mp hq
    rw [before.eq_of_key hq hp hid, hcond] at hkept
    cases hkept
  · intro hall
    refine ⟨?_, ?_, ?_⟩
    · intro p hp halt
      cases hcond : cond p with
      | true => exact hall p hp hcond
      | false => exact absurd halt (not_altered (Table.mem_delete.mpr ⟨hp, hcond⟩) rfl rfl rfl)
    · intro p hp hnew
      exact absurd rfl (hnew p (Table.mem_delete.mp hp).1)
    · intro p hp q hq hid _
      have hsame := before.eq_of_key (Table.mem_delete.mp hq).1 hp hid
      exact Nat.le_of_eq (congrArg Post.likes hsame)

end Tables

/-! ### Requests -/

section Requests

variable {V T : Type} (services : Services V T)

/-- The post is of the user the request's session is logged in as. -/
def Owns (s : State V T) (r : Request V) (p : Post T) : Prop :=
  ∃ user, s.loginuser r.session = some user ∧ services.postUser user = some p.user

def Selects (id : V) (p : Post T) : Prop :=
  ∃ found, services.whereId id = some found ∧ found p = true

/-- A text that a post is to get by a PUT is bound as one value. -/
def BindsText (r : Request V) : Prop :=
  ∀ id posttext, r.route = .put (some id) (some posttext) → services.single posttext = true

/-- A request edits with texts only, deletes or edits only posts of its session's user, or edits
nothing, and likes only posts of others. -/
def Permitted (s : State V T) (r : Request V) : Prop :=
  BindsText services r ∧ ∀ p ∈ s.posts.rows, match r.route with
    | .delete (some id) => Selects services id p → Owns services s r p
    | .put (some id) (some posttext) => Selects services id p → Owns services s r p ∨
        ∀ text, services.posttext posttext = some text →
          text = p.posttext ∧ some r.now = p.edittime
    | .liked (some id) => Selects services id p → ¬ Owns services s r p
    | _ => True

/-- The posts before and after a request. -/
def RespectedBy (s : State V T) (r : Request V) : Prop :=
  Respected (Owns services s r) s.posts (handle services s r).2.posts

variable {services} {s : State V T} {owns : Post T → Prop}

theorem respected_unchanged {query : Option (Nat × Posts T)}
    (h : (query.map Prod.snd).getD s.posts = s.posts) :
    Respected owns s.posts (affected query s).2.posts := by
  rw [affected_posts, h]
  exact respected_refl _ _

theorem respected_insertPost {user text : V} {now : Nat}
    (howns : ∀ p : Post T, services.postUser user = some p.user → owns p) :
    Respected owns s.posts (affected (insertPost services user text now s.posts) s).2.posts := by
  cases huser : services.postUser user with
  | none => exact respected_unchanged (by simp [insertPost, huser])
  | some owner =>
      cases htext : services.insertText user text with
      | none => exact respected_unchanged (by simp [insertPost, huser, htext])
      | some stored =>
          simp only [affected_posts, insertPost, huser, htext, Option.map_some, Option.getD_some]
          exact respected_insert (howns _ huser)

theorem respected_deleteRows_iff {id : V} :
    Respected owns s.posts (affected (deleteRows services id s.posts) s).2.posts ↔
      ∀ p ∈ s.posts.rows, Selects services id p → owns p := by
  cases hfound : services.whereId id with
  | none => simp [deleteRows, respected_unchanged, Selects, hfound]
  | some found =>
      simp only [affected_posts, deleteRows, hfound, Option.map_some, Option.getD_some,
        respected_delete_iff, Selects]
      simp

theorem respected_updateText_iff {id posttext : V} {now : Nat}
    (hsingle : services.single posttext = true) :
    Respected owns s.posts (affected (updateText services id posttext now s.posts) s).2.posts ↔
      ∀ p ∈ s.posts.rows, Selects services id p → owns p ∨
        ∀ text, services.posttext posttext = some text →
          text = p.posttext ∧ some now = p.edittime := by
  rw [updateText_of_single services hsingle]
  cases hfound : services.whereId id with
  | none => simp [respected_unchanged, Selects, hfound]
  | some found =>
      by_cases hany : s.posts.rows.any found = true
      · cases htext : services.posttext posttext with
        | none =>
            rw [Option.bind_some, if_pos hany, iff_true_left (respected_unchanged rfl)]
            intro p _ _
            simp
        | some text =>
            simp only [affected_posts, hany, if_true, Option.bind_some, Option.map_some,
              Option.getD_some, respected_update_iff, Selects, hfound]
            refine forall_congr' fun p => forall_congr' fun _ => ?_
            cases hp : found p with
            | true => simp [hp]
            | false => simp [hp]
      · rw [Option.bind_some, if_neg hany, iff_true_left (respected_unchanged rfl)]
        intro p hp hselects
        obtain ⟨cond, hcond, htrue⟩ := hselects
        cases hfound.symm.trans hcond
        exact absurd (List.any_eq_true.mpr ⟨p, hp, htrue⟩) hany

theorem respected_updateLikes_iff {id : V} :
    Respected owns s.posts (affected (updateLikes services id s.posts) s).2.posts ↔
      ∀ p ∈ s.posts.rows, Selects services id p → ¬ owns p := by
  cases hfound : services.whereId id with
  | none => simp [updateLikes, respected_unchanged, Selects, hfound]
  | some found =>
      simp only [affected_posts, updateLikes, hfound, Option.map_some, Option.getD_some,
        respected_update_iff, Selects]
      refine forall_congr' fun p => forall_congr' fun _ => ?_
      have hmore : ¬ p.likes + 1 ≤ p.likes := Nat.not_succ_le_self _
      cases hp : found p with
      | true => simp [hp, hmore]
      | false => simp [hp]

theorem permitted_of_idle {r : Request V} (h : Idle s r) : Permitted services s r := by
  refine ⟨fun id posttext hroute => absurd hroute (h.put id posttext), ?_⟩
  intro p _
  split
  · next id hroute => exact absurd hroute (h.delete id)
  · next id posttext hroute => exact absurd hroute (h.put id posttext)
  · next id hroute => exact absurd hroute (h.liked id)
  · trivial

/-- A request whose text is bound as one value respects the owners of posts exactly when it is
permitted. -/
theorem respectedBy_iff_permitted (s : State V T) {r : Request V} (hbinds : BindsText services r) :
    RespectedBy services s r ↔ Permitted services s r := by
  have hhandled := handled services s r
  rw [RespectedBy, Permitted, and_iff_right hbinds]
  generalize (handle services s r).2 = after at hhandled
  cases hhandled with
  | idle h => exact iff_of_true (respected_refl _ _) (permitted_of_idle h).2
  | post hlogin =>
      exact iff_of_true (respected_insertPost fun p huser => ⟨_, hlogin, huser⟩)
        fun _ _ => trivial
  | delete => exact respected_deleteRows_iff
  | put => exact respected_updateText_iff (hbinds _ _ rfl)
  | liked => exact respected_updateLikes_iff
  | createLogin =>
      rw [addLogin_posts]
      exact iff_of_true (respected_refl _ _) fun _ _ => trivial
  | login _ | logout => exact iff_of_true (respected_refl _ _) fun _ _ => trivial

/-- In every sequence of requests, from any tables and sessions, all of which are permitted, every
request respects the owners of the posts; and where every text is bound as one value, only then. -/
theorem respected_iff_permitted (services : Services V T) (start : State V T)
    (requests : List (Request V)) :
    (Throughout (handle services) (Permitted services) start requests →
      Throughout (handle services) (RespectedBy services) start requests) ∧
    ((∀ r ∈ requests, BindsText services r) →
      (Throughout (handle services) (RespectedBy services) start requests ↔
        Throughout (handle services) (Permitted services) start requests)) := by
  have hforth : Throughout (handle services) (Permitted services) start requests →
      Throughout (handle services) (RespectedBy services) start requests :=
    Throughout.mono fun s _ _ h => (respectedBy_iff_permitted s h.1).mpr h
  refine ⟨hforth, fun hbinds => ⟨?_, hforth⟩⟩
  exact Throughout.mono fun s r hr => (respectedBy_iff_permitted s (hbinds r hr)).mp

end Requests

/-! ### Alice's post -/

/-- One post of alice, and nobody logged in. -/
def alicesPost : State (Nat ⊕ String) String where
  posts := Table.empty.insert (fun id => ⟨id, "hello", "alice", 0, none, 0⟩) fun _ => rfl
  logins := Table.empty.insert (fun id => ⟨id, "alice", "secret"⟩) fun _ => rfl
  loginuser _ := none

/-- A session without a login deletes alice's post; alice logs in and likes it. -/
theorem alicesPost_not_respected :
    ¬ Throughout (handle plainServices) (RespectedBy plainServices) alicesPost
        [⟨0, 5, 0, .delete (some (.inl 1))⟩] ∧
      ¬ Throughout (handle plainServices) (RespectedBy plainServices) alicesPost
        [⟨1, 5, 0, .login (some (.inr "alice")) (some (.inr "secret"))⟩,
          ⟨1, 6, 0, .liked (some (.inl 1))⟩] := by
  refine ⟨?_, ?_⟩
  · intro h
    have hdelete := (respectedBy_iff_permitted alicesPost (by simp [BindsText])).mp h.1
    obtain ⟨user, hlogin, _⟩ := hdelete.2 _ (List.mem_singleton.mpr rfl) ⟨_, rfl, rfl⟩
    cases hlogin
  · intro h
    have hliked := (respectedBy_iff_permitted _ (by simp [BindsText])).mp h.2.1
    exact hliked.2 _ (List.mem_singleton.mpr rfl) ⟨_, rfl, rfl⟩ ⟨.inr "alice", rfl, rfl⟩

end UmnProjects.Litter
