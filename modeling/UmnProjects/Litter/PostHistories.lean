import UmnProjects.Foundations.History
import UmnProjects.Litter.Requests

/-!
The table of posts after any sequence of requests, read off the requests: each post is the one
that was made, with the last of its edits and all of its likes, and is there unless a request has
deleted it.
-/
namespace UmnProjects.Litter

open Rows Objects History

section Histories

variable {V T : Type} (services : Services V T)

/-! ### What a request does to one post -/

/-- For this value the database selects a row by its id alone. -/
def ById (id : V) : Prop :=
  ∀ found p q, services.whereId id = some found → p.id = q.id → found p = found q

/-- The ids that the request gives stand for themselves, and so does the text of an edit. -/
structure Plain (r : Request V) : Prop where
  delete : ∀ id, r.route = .delete (some id) → ById services id
  liked : ∀ id, r.route = .liked (some id) → ById services id
  put : ∀ id posttext, r.route = .put (some id) (some posttext) →
    ById services id ∧ services.single posttext = true

def selected (id : V) (p : Post T) : Bool := (services.whereId id).any fun found => found p

def deletes (r : Request V) (p : Post T) : Bool :=
  match r.route with
  | .delete (some id) => selected services id p
  | _ => false

def likes (r : Request V) (p : Post T) : Bool :=
  match r.route with
  | .liked (some id) => selected services id p
  | _ => false

/-- The text and the time of an edit. -/
def edit (p : Post T) (r : Request V) : Option (T × Nat) :=
  match r.route with
  | .put (some id) (some posttext) =>
      if selected services id p then (services.posttext posttext).map fun text => (text, r.now)
      else none
  | _ => none

def Post.edited (p : Post T) : Option (T × Nat) → Post T
  | none => p
  | some (text, now) => { p with posttext := text, edittime := some now }

def Post.liked (p : Post T) (n : Nat) : Post T := { p with likes := p.likes + n }

def effect (r : Request V) (p : Post T) : Option (Post T) :=
  if deletes services r p then none
  else some ((p.liked (if likes services r p then 1 else 0)).edited (edit services p r))

/-- The post that a request of a session that is logged in makes. -/
def made (s : State V T) (r : Request V) : Option (Post T) :=
  match r.route, s.loginuser r.session with
  | .post (some posttext), some user =>
      match services.postUser user, services.insertText user posttext with
      | some user, some text => some ⟨s.posts.next, text, user, r.now, none, 0⟩
      | _, _ => none
  | _, _ => none

/-- The requests leave this of a post. -/
def Became (requests : List (Request V)) (q p : Post T) : Prop :=
  (∀ r ∈ requests, deletes services r q = false) ∧
    p = (q.liked (requests.countP fun r => likes services r q)).edited
      (latest (edit services q) requests)

/-! ### One request -/

variable {services}

@[simp]
theorem id_liked (p : Post T) (n : Nat) : (p.liked n).id = p.id := rfl

@[simp]
theorem id_edited (p : Post T) (e : Option (T × Nat)) : (p.edited e).id = p.id := by
  cases e <;> rfl

theorem filterMap_effect {r : Request V} {posts : List (Post T)}
    (heffect : ∀ p ∈ posts, effect services r p = some p) :
    posts.filterMap (effect services r) = posts := by
  rw [List.filterMap_congr heffect, List.filterMap_some]

theorem effect_of_idle {s : State V T} {r : Request V} (h : Idle s r) (p : Post T) :
    effect services r p = some p := by
  have hdeletes : deletes services r p = false := by
    rw [deletes]
    split
    · next id hroute => exact absurd hroute (h.delete id)
    · rfl
  have hlikes : likes services r p = false := by
    rw [likes]
    split
    · next id hroute => exact absurd hroute (h.liked id)
    · rfl
  have hedit : edit services p r = none := by
    rw [edit]
    split
    · next id posttext hroute => exact absurd hroute (h.put id posttext)
    · rfl
  simp [effect, hdeletes, hlikes, hedit, Post.liked, Post.edited]

theorem made_of_idle {s : State V T} {r : Request V} (h : Idle s r) : made services s r = none := by
  rw [made]
  split
  · next posttext user hroute hlogin =>
      rw [h.post posttext hroute] at hlogin
      cases hlogin
  · rfl

theorem insertPost_eq (s : State V T) {session now salt : Nat} {user posttext : V}
    (hlogin : s.loginuser session = some user) :
    (affected (insertPost services user posttext now s.posts) s).2.posts.rows =
        s.posts.rows ++ (made services s ⟨session, now, salt, .post (some posttext)⟩).toList ∧
      (affected (insertPost services user posttext now s.posts) s).2.posts.next = s.posts.next +
        (made services s ⟨session, now, salt, .post (some posttext)⟩).toList.length := by
  simp only [affected_posts, made, hlogin, insertPost]
  cases services.postUser user with
  | none => simp
  | some owner => cases services.insertText user posttext <;> simp [Table.insert]

theorem rows_deleteRows (s : State V T) {session now salt : Nat} (id : V) :
    (affected (deleteRows services id s.posts) s).2.posts.rows =
      s.posts.rows.filterMap (effect services ⟨session, now, salt, .delete (some id)⟩) := by
  rw [affected_posts, deleteRows]
  cases hfound : services.whereId id with
  | none =>
      rw [filterMap_effect fun p _ => by
        simp [effect, deletes, selected, hfound, likes, edit, Post.liked, Post.edited]]
      rfl
  | some found =>
      have heffect : effect services ⟨session, now, salt, .delete (some id)⟩ =
          Option.guard fun p => !found p := by
        funext p
        cases hp : found p <;> simp [effect, deletes, selected, hfound, likes, edit, hp,
          Post.liked, Post.edited, Option.guard]
      rw [heffect, List.filterMap_eq_filter]
      rfl

theorem rows_updateLikes (s : State V T) {session now salt : Nat} (id : V) :
    (affected (updateLikes services id s.posts) s).2.posts.rows =
      s.posts.rows.filterMap (effect services ⟨session, now, salt, .liked (some id)⟩) := by
  rw [affected_posts, updateLikes]
  cases hfound : services.whereId id with
  | none =>
      rw [filterMap_effect fun p _ => by
        simp [effect, deletes, selected, hfound, likes, edit, Post.liked, Post.edited]]
      rfl
  | some found =>
      have heffect : effect services ⟨session, now, salt, .liked (some id)⟩ =
          some ∘ fun p => if found p then { p with likes := p.likes + 1 } else p := by
        funext p
        cases hp : found p <;> simp [effect, deletes, selected, hfound, likes, edit, hp,
          Post.liked, Post.edited]
      rw [heffect, List.filterMap_eq_map]
      rfl

theorem rows_updateText (s : State V T) {session now salt : Nat} (id : V) {posttext : V}
    (hsingle : services.single posttext = true) :
    (affected (updateText services id posttext now s.posts) s).2.posts.rows =
      s.posts.rows.filterMap
        (effect services ⟨session, now, salt, .put (some id) (some posttext)⟩) := by
  have unchanged (hedit : ∀ p ∈ s.posts.rows,
      edit services p ⟨session, now, salt, .put (some id) (some posttext)⟩ = none) :
      s.posts.rows.filterMap
        (effect services ⟨session, now, salt, .put (some id) (some posttext)⟩) = s.posts.rows :=
    filterMap_effect fun p hp => by
      simp [effect, deletes, likes, hedit p hp, Post.liked, Post.edited]
  rw [affected_posts, updateText_of_single services hsingle]
  cases hfound : services.whereId id with
  | none =>
      rw [unchanged fun p _ => by simp [edit, selected, hfound]]
      rfl
  | some found =>
      rw [Option.bind_some]
      by_cases hany : s.posts.rows.any found = true
      · rw [if_pos hany]
        cases htext : services.posttext posttext with
        | none =>
            rw [unchanged fun p _ => by simp [edit, htext]]
            rfl
        | some text =>
            have heffect : effect services
                ⟨session, now, salt, .put (some id) (some posttext)⟩ = some ∘ fun p =>
                  if found p then { p with posttext := text, edittime := some now } else p := by
              funext p
              cases hp : found p <;> simp [effect, deletes, selected, hfound, likes, edit, hp,
                htext, Post.liked, Post.edited]
            rw [heffect, List.filterMap_eq_map]
            rfl
      · rw [if_neg hany, unchanged]
        · rfl
        · intro p hp
          have hnot : found p = false := by
            by_contra hyes
            exact hany (List.any_eq_true.mpr ⟨p, hp, by simpa using hyes⟩)
          simp [edit, selected, hfound, hnot]

/-- A plain request treats each post by itself, and makes one post at most. -/
theorem rows_handle (s : State V T) {r : Request V} (hplain : Plain services r) :
    (handle services s r).2.posts.rows =
      s.posts.rows.filterMap (effect services r) ++ (made services s r).toList := by
  have hhandled := handled services s r
  generalize (handle services s r).2 = after at hhandled
  cases hhandled with
  | idle h =>
      rw [filterMap_effect fun p _ => effect_of_idle h p, made_of_idle h, Option.toList_none,
        List.append_nil]
  | post hlogin =>
      rw [(insertPost_eq s hlogin).1, filterMap_effect fun _ _ => rfl]
  | delete => exact (rows_deleteRows s _).trans (List.append_nil _).symm
  | put => exact (rows_updateText s _ (hplain.put _ _ rfl).2).trans (List.append_nil _).symm
  | liked => exact (rows_updateLikes s _).trans (List.append_nil _).symm
  | createLogin =>
      rw [addLogin_posts, filterMap_effect fun _ _ => rfl]
      exact (List.append_nil _).symm
  | login _ | logout =>
      rw [filterMap_effect fun _ _ => rfl]
      exact (List.append_nil _).symm

/-! ### Many requests -/

theorem selected_congr {id : V} (hid : ById services id) {p q : Post T} (h : p.id = q.id) :
    selected services id p = selected services id q := by
  cases hfound : services.whereId id with
  | none => simp [selected, hfound]
  | some found => simp [selected, hfound, hid found p q hfound h]

section Congr

variable {r : Request V} (hplain : Plain services r) {p q : Post T} (h : p.id = q.id)
include hplain h

theorem deletes_congr : deletes services r p = deletes services r q := by
  rw [deletes, deletes]
  split
  · next id hroute => exact selected_congr (hplain.delete id hroute) h
  · rfl

theorem likes_congr : likes services r p = likes services r q := by
  rw [likes, likes]
  split
  · next id hroute => exact selected_congr (hplain.liked id hroute) h
  · rfl

theorem edit_congr : edit services p r = edit services q r := by
  rw [edit, edit]
  split
  · next id posttext hroute => rw [selected_congr (hplain.put id posttext hroute).1 h]
  · rfl

end Congr

theorem edited_liked_edited (p : Post T) (m n : Nat) (e e' : Option (T × Nat)) :
    (((p.liked m).edited e).liked n).edited e' = (p.liked (n + m)).edited (e'.or e) := by
  cases e <;> cases e' <;> simp [Post.liked, Post.edited, Nat.add_assoc, Nat.add_comm n m]

/-- What becomes of a post depends on its id alone. -/
theorem became_congr {requests : List (Request V)} (hplain : ∀ r ∈ requests, Plain services r)
    {q q' : Post T} (h : q.id = q'.id) :
    ((∀ r ∈ requests, deletes services r q = false) ↔
        ∀ r ∈ requests, deletes services r q' = false) ∧
      requests.countP (fun r => likes services r q) =
        requests.countP (fun r => likes services r q') ∧
      latest (edit services q) requests = latest (edit services q') requests := by
  refine ⟨forall₂_congr fun r hr => ?_, List.countP_congr fun r hr => ?_, ?_⟩
  · rw [deletes_congr (hplain r hr) h]
  · rw [likes_congr (hplain r hr) h]
  · exact latest_congr fun r hr => edit_congr (hplain r hr) h

theorem fate_iff {requests : List (Request V)} (hplain : ∀ r ∈ requests, Plain services r)
    (q p : Post T) : fate (effect services) requests q = some p ↔ Became services requests q p := by
  induction requests generalizing q with
  | nil =>
      simp only [fate, Became, latest, Option.some.injEq, List.countP_nil, List.reverse_nil,
        List.findSome?_nil]
      exact ⟨fun h => ⟨fun _ hr => absurd hr List.not_mem_nil, h.symm⟩, fun h => h.2.symm⟩
  | cons r requests ih =>
      have hrest : ∀ r ∈ requests, Plain services r :=
        fun r' hr' => hplain r' (List.mem_cons_of_mem r hr')
      rw [fate, effect]
      cases hdeletes : deletes services r q with
      | true => simp [Became, hdeletes]
      | false =>
          rw [if_neg Bool.false_ne_true, Option.bind_some, ih hrest]
          have hsame : ((q.liked (if likes services r q then 1 else 0)).edited
              (edit services q r)).id = q.id := by simp
          obtain ⟨hkept, hliked, hedited⟩ := became_congr hrest hsame
          simp only [Became, hkept, hliked, hedited, edited_liked_edited, ← List.countP_cons,
            ← latest_cons, List.forall_mem_cons, hdeletes, true_and]

/-! ### Numbers -/

theorem next_updateText (id : V) {posttext : V} (hsingle : services.single posttext = true)
    (now : Nat) (posts : Posts T) :
    (((updateText services id posttext now posts).map Prod.snd).getD posts).next = posts.next := by
  rw [updateText_of_single services hsingle]
  cases services.whereId id with
  | none => rfl
  | some found =>
      rw [Option.bind_some]
      split
      · cases services.posttext posttext <;> rfl
      · rfl

theorem next_updateLikes (id : V) (posts : Posts T) :
    (((updateLikes services id posts).map Prod.snd).getD posts).next = posts.next := by
  rw [updateLikes]
  cases services.whereId id <;> rfl

theorem next_deleteRows (id : V) (posts : Posts T) :
    (((deleteRows services id posts).map Prod.snd).getD posts).next = posts.next := by
  rw [deleteRows]
  cases services.whereId id <;> rfl

/-- Only a post that is made takes a number. -/
theorem next_handle (s : State V T) {r : Request V} (hplain : Plain services r) :
    (handle services s r).2.posts.next = s.posts.next + (made services s r).toList.length := by
  have hhandled := handled services s r
  generalize (handle services s r).2 = after at hhandled
  cases hhandled with
  | idle h => rw [made_of_idle h, Option.toList_none, List.length_nil, Nat.add_zero]
  | post hlogin => exact (insertPost_eq s hlogin).2
  | delete => rw [affected_posts, next_deleteRows]; rfl
  | put => rw [affected_posts, next_updateText _ (hplain.put _ _ rfl).2]; rfl
  | liked => rw [affected_posts, next_updateLikes]; rfl
  | createLogin => rw [addLogin_posts]; rfl
  | login _ | logout => rfl

theorem next_le_stateAfter (s : State V T) {requests : List (Request V)}
    (hplain : ∀ r ∈ requests, Plain services r) :
    s.posts.next ≤ (stateAfter (handle services) s requests).posts.next := by
  induction requests generalizing s with
  | nil => exact Nat.le_refl _
  | cons r requests ih =>
      have hstep : s.posts.next ≤ (handle services s r).2.posts.next := by
        rw [next_handle s (hplain r List.mem_cons_self)]
        exact Nat.le_add_right _ _
      exact Nat.le_trans hstep (ih _ fun r' hr' => hplain r' (List.mem_cons_of_mem r hr'))

theorem id_made {s : State V T} {r : Request V} (hplain : Plain services r) {q : Post T}
    (h : made services s r = some q) :
    q.id = s.posts.next ∧ q.id < (handle services s r).2.posts.next := by
  have hnext : q.id = s.posts.next := by
    simp only [made] at h
    split at h
    · split at h
      · cases h
        rfl
      · cases h
    · cases h
  refine ⟨hnext, ?_⟩
  rw [next_handle s hplain, h, hnext]
  exact Nat.lt_succ_self _

/-- The posts after any sequence of plain requests are those of the start and those made on the way,
each with the likes and the last edit that the requests behind it give it, less those that a
request behind it deletes. The number of a post is above all numbers used before it was made,
whether or not their posts are still there. -/
theorem posts_history (s : State V T) {requests : List (Request V)}
    (hplain : ∀ r ∈ requests, Plain services r) :
    (∀ p, p ∈ (stateAfter (handle services) s requests).posts.rows ↔
      (∃ q ∈ s.posts.rows, Became services requests q p) ∨
        ∃ before r after q, requests = before ++ r :: after ∧
          made services (stateAfter (handle services) s before) r = some q ∧
            Became services after q p) ∧
      (∀ before r after q, requests = before ++ r :: after →
        made services (stateAfter (handle services) s before) r = some q →
          (∀ q' ∈ s.posts.rows, q'.id < q.id) ∧
            ∀ before' r' after' q', before = before' ++ r' :: after' →
              made services (stateAfter (handle services) s before') r' = some q' →
                q'.id < q.id) := by
  refine ⟨fun p => ?_, ?_⟩
  · have hstep (s : State V T) (r : Request V) (hr : r ∈ requests) :
        (handle services s r).2.posts.rows =
          s.posts.rows.filterMap (effect services r) ++ (made services s r).toList :=
      rows_handle s (hplain r hr)
    rw [mem_rows_stateAfter (fun s : State V T => s.posts.rows) s requests hstep]
    refine or_congr ?_ ?_
    · simp only [fate_iff hplain]
    · constructor
      · rintro ⟨before, r, after, q, rfl, hmade, hfate⟩
        refine ⟨before, r, after, q, rfl, hmade, (fate_iff ?_ q p).mp hfate⟩
        exact fun r' hr' => hplain r' (by simp [hr'])
      · rintro ⟨before, r, after, q, rfl, hmade, hbecame⟩
        refine ⟨before, r, after, q, rfl, hmade, (fate_iff ?_ q p).mpr hbecame⟩
        exact fun r' hr' => hplain r' (by simp [hr'])
  · intro before r after q hsplit hmade
    have hbefore : ∀ r' ∈ before, Plain services r' :=
      fun r' hr' => hplain r' (by simp [hsplit, hr'])
    obtain ⟨hnumber, -⟩ := id_made (hplain r (by simp [hsplit])) hmade
    rw [hnumber]
    refine ⟨?_, ?_⟩
    · intro q' hq'
      exact Nat.lt_of_lt_of_le (s.posts.fresh q' hq') (next_le_stateAfter s hbefore)
    · intro before' r' after' q' hsplit' hmade'
      have hlater : stateAfter (handle services) s before =
          stateAfter (handle services)
            (handle services (stateAfter (handle services) s before') r').2 after' := by
        rw [hsplit', stateAfter_append]
        rfl
      rw [hlater]
      refine Nat.lt_of_lt_of_le (id_made (hbefore r' (by simp [hsplit'])) hmade').2
        (next_le_stateAfter _ ?_)
      exact fun r'' hr'' => hbefore r'' (by simp [hsplit', hr''])

end Histories

/-! ### Two posts -/

theorem plain_plainServices (r : Request (Nat ⊕ String)) : Plain plainServices r := by
  have hid (id : Nat ⊕ String) : ById plainServices id := by
    intro found p q hfound heq
    cases hfound
    cases id <;> simp [heq]
  exact ⟨fun id _ => hid id, fun id _ => hid id, fun id _ _ => ⟨hid id, rfl⟩⟩

/-- Nobody has posted, and alice is logged in. -/
def noPosts : State (Nat ⊕ String) String where
  posts := .empty
  logins := .empty
  loginuser n := if n = 0 then some (.inr "alice") else none

/-- Alice makes two posts; the first is liked and edited, the second deleted. -/
def twoPosts : List (Request (Nat ⊕ String)) :=
  [⟨0, 3, 0, .post (some (.inr "hi"))⟩, ⟨1, 4, 0, .liked (some (.inl 1))⟩,
    ⟨0, 5, 0, .post (some (.inr "you"))⟩, ⟨0, 6, 0, .put (some (.inl 1)) (some (.inr "ho"))⟩,
    ⟨0, 7, 0, .delete (some (.inl 2))⟩]

theorem posts_history_twoPosts :
    (stateAfter (handle plainServices) noPosts twoPosts).posts.rows =
        [⟨1, "ho", "alice", 3, some 6, 1⟩] ∧
      made plainServices noPosts ⟨0, 3, 0, .post (some (.inr "hi"))⟩ =
        some ⟨1, "hi", "alice", 3, none, 0⟩ ∧
      Became plainServices (twoPosts.drop 1) ⟨1, "hi", "alice", 3, none, 0⟩
        ⟨1, "ho", "alice", 3, some 6, 1⟩ := by
  have hrows : (stateAfter (handle plainServices) noPosts twoPosts).posts.rows =
      [⟨1, "ho", "alice", 3, some 6, 1⟩] := by decide
  have hplain : ∀ r ∈ twoPosts, Plain plainServices r := fun r _ => plain_plainServices r
  obtain ⟨hposts, -⟩ := posts_history noPosts hplain
  obtain ⟨q, hq, -⟩ | ⟨before, r, after, q, hsplit, hmade, hbecame⟩ :=
    (hposts _).mp (hrows ▸ List.mem_singleton_self _)
  · cases hq
  · have hnumber : 1 = q.id := by
      have hid := congrArg Post.id hbecame.2
      rwa [id_edited, id_liked] at hid
    obtain _ | ⟨r₁, _ | ⟨r₂, _ | ⟨r₃, _ | ⟨r₄, _ | ⟨r₅, rest⟩⟩⟩⟩⟩ := before
    · cases hsplit
      cases hmade
      exact ⟨hrows, rfl, hbecame⟩
    · cases hsplit
      cases hmade
    · -- the second post has another number
      cases hsplit
      cases hmade
      exact absurd hnumber (by decide)
    · cases hsplit
      cases hmade
    · cases hsplit
      cases hmade
    · have hlength := congrArg List.length hsplit
      simp [twoPosts] at hlength

end UmnProjects.Litter
