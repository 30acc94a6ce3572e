import UmnProjects.Litter.Pages

/-!
The routes for the pages of posts, and which page numbers they answer. A page is refused when
its offset is past the number of posts, so one empty page is answered when the last is full.
-/
namespace UmnProjects.Litter

open Rows Paging

variable {T : Type} {sortKey : Post T → Nat} {posts : Posts T}

/-! ### The routes -/

inductive Response (T : Type) where
  | mainpage (posts : List (Post T)) (pagenum : Nat) (morepages liked : Bool)
  | error (status : Nat) (template location : String)
  deriving Repr, DecidableEq

/-- What is rendered for an answer of the database, or for `false`. -/
def renderPosts (retval : Option (PostPage T)) (pagenum : Nat) (liked : Bool)
    (otherwise : Response T) : Response T :=
  match retval with
  | some retval => .mainpage retval.posts pagenum retval.morePages liked
  | none => otherwise

/-- `GET /` -/
def getRoot (posts : Posts T) (order : Sorting Post.posttime posts.rows) (total : Int) :
    Response T :=
  renderPosts (getRecentPosts posts order 0 total).1 0 false (.error 500 "500.pug" "getting posts")

/-- `GET /:pagenum([0-9]*)` -/
def getPagenum (posts : Posts T) (order : Sorting Post.posttime posts.rows) (total : Int)
    (pagenum : Nat) (path : String) : Response T :=
  renderPosts (getRecentPosts posts order pagenum total).1 pagenum false
    (.error 400 "404.pug" path)

/-- `GET /liked` -/
def getLiked (posts : Posts T) (order : Sorting Post.likes posts.rows) (total : Int) :
    Response T :=
  renderPosts (getLikedPosts posts order 0 total).1 0 true (.error 500 "500.pug" "getting posts")

/-- `GET /liked/:pagenum([0-9]*)` -/
def getLikedPagenum (posts : Posts T) (order : Sorting Post.likes posts.rows) (total : Int)
    (pagenum : Nat) (path : String) : Response T :=
  renderPosts (getLikedPosts posts order pagenum total).1 pagenum true
    (.error 400 "404.pug" path)

/-- The page that the link below the posts leads to. -/
def Response.nextPage : Response T → Option Nat
  | .mainpage _ pagenum morepages _ => if morepages then some (pagenum + 1) else none
  | .error _ _ _ => none

/-! ### Page numbers -/

/-- The queries that answer a page number, in whatever order the database sorts. -/
abbrev PageQuery (sortKey : Post T → Nat) (posts : Posts T) : Type :=
  Sorting sortKey posts.rows → Nat → Int → Option (PostPage T) × Int

def Accepts (getPage : PageQuery sortKey posts) (page : Nat) (total : Int) : Prop :=
  ∀ order, (getPage order page total).1.isSome = true

/-- The numbers around `page` agree with the posts there are. -/
structure Numbered (getPage : PageQuery sortKey posts) (total : Int) (page : Nat) : Prop where
  nonempty : 0 < page → ∀ order : Sorting sortKey posts.rows,
    Accepts getPage page total ↔ limit order.list (page * 10) 10 ≠ []
  first : Accepts getPage 0 total
  next : ∀ order answer, (getPage order page total).1 = some answer →
    (answer.morePages = true ↔ Accepts getPage (page + 1) (getPage order page total).2)

theorem accepts_getPosts {total : Int} (h : total = -1 ∨ total = posts.rows.length) (page : Nat) :
    Accepts (getPosts sortKey posts) page total ↔ page * 10 ≤ posts.rows.length := by
  simp only [Accepts, getPosts, totalPosts_eq h]
  constructor
  · intro haccepts
    have hfirst := haccepts (.merge sortKey posts.rows)
    by_contra hlt
    rw [if_pos (by omega)] at hfirst
    cases hfirst
  · intro hle order
    rw [if_neg (by omega)]
    rfl

theorem limit_ne_nil (order : Sorting sortKey posts.rows) (page : Nat) :
    limit order.list (page * 10) 10 ≠ [] ↔ page * 10 < posts.rows.length := by
  rw [← order.perm.length_eq, ← List.length_pos_iff, limit, List.length_take, List.length_drop]
  omega

theorem morePages_getPosts {total : Int} (h : total = -1 ∨ total = posts.rows.length)
    {order : Sorting sortKey posts.rows} {page : Nat} {answer : PostPage T}
    (hanswer : (getPosts sortKey posts order page total).1 = some answer) :
    (answer.morePages = true ↔ page * 10 + 10 < posts.rows.length) ∧
      page * 10 ≤ posts.rows.length ∧
      (getPosts sortKey posts order page total).2 = posts.rows.length := by
  simp only [getPosts, totalPosts_eq h] at hanswer ⊢
  by_cases hlt : ((page * 10 : Nat) : Int) > posts.rows.length
  · rw [if_pos hlt] at hanswer
    cases hanswer
  · rw [if_neg hlt] at hanswer ⊢
    rw [← Option.some.inj hanswer, decide_eq_true_iff]
    refine ⟨?_, ?_, rfl⟩ <;> omega

/-- The numbers go wrong only at the end of a full last page: the empty page after it is
accepted, and the last page does not announce it. -/
theorem numbered_iff (sortKey : Post T → Nat) (posts : Posts T) (total : Int)
    (h : total = -1 ∨ total = posts.rows.length) (page : Nat) :
    Numbered (getPosts sortKey posts) total page ↔
      (0 < page → posts.rows.length ≠ page * 10) ∧ posts.rows.length ≠ (page + 1) * 10 := by
  let order := Sorting.merge sortKey posts.rows
  constructor
  · intro hnumbered
    refine ⟨fun hpos heq => ?_, fun heq => ?_⟩
    · have hlt := (hnumbered.nonempty hpos order).mp ((accepts_getPosts h page).mpr (by omega))
      rw [limit_ne_nil] at hlt
      omega
    · have hsome := (accepts_getPosts h page).mpr (by omega) order
      obtain ⟨answer, hanswer⟩ := Option.isSome_iff_exists.mp hsome
      obtain ⟨hmore, _, htotal⟩ := morePages_getPosts h hanswer
      have hnext := hnumbered.next order answer hanswer
      rw [hmore, htotal, accepts_getPosts (.inr rfl)] at hnext
      omega
  · intro hfull
    refine ⟨fun hpos order => ?_, ?_, fun order answer hanswer => ?_⟩
    · have hne := hfull.1 hpos
      rw [accepts_getPosts h, limit_ne_nil]
      omega
    · rw [accepts_getPosts h]
      omega
    · obtain ⟨hmore, _, htotal⟩ := morePages_getPosts h hanswer
      rw [hmore, htotal, accepts_getPosts (.inr rfl)]
      omega

/-- A link leads to a page with posts, as they are sorted then. -/
theorem nextPage_answered {total : Int} (h : total = -1 ∨ total = posts.rows.length)
    {order : Sorting sortKey posts.rows} {page next : Nat} {liked : Bool} {otherwise : Response T}
    (herror : otherwise.nextPage = none)
    (hnext : (renderPosts (getPosts sortKey posts order page total).1 page liked
      otherwise).nextPage = some next) (order' : Sorting sortKey posts.rows) :
    ∃ answer, (getPosts sortKey posts order' next total).1 = some answer ∧ answer.posts ≠ [] := by
  cases hanswer : (getPosts sortKey posts order page total).1 with
  | none =>
      rw [hanswer, renderPosts, herror] at hnext
      cases hnext
  | some answer =>
      rw [hanswer, renderPosts, Response.nextPage] at hnext
      obtain ⟨hmore, _⟩ := morePages_getPosts h hanswer
      split at hnext
      · next hpages =>
          have hlt := hmore.mp hpages
          have hsucc : next = page + 1 := (Option.some.inj hnext).symm
          have hoffset : ¬ ((next * 10 : Nat) : Int) > posts.rows.length := by omega
          have hposts := (limit_ne_nil order' next).mpr (by omega)
          simp only [getPosts, totalPosts_eq h, if_neg hoffset]
          exact ⟨_, rfl, hposts⟩
      · cases hnext

theorem renderPosts_some {answer : PostPage T} {retval : Option (PostPage T)} {pagenum : Nat}
    {liked : Bool} {otherwise : Response T} (h : retval = some answer) :
    renderPosts retval pagenum liked otherwise =
      .mainpage answer.posts pagenum answer.morePages liked := by
  rw [h, renderPosts]

/-- The front pages are never refused, and a link below the posts leads to more of them. -/
theorem routes_answered (posts : Posts T) (total : Int)
    (h : total = -1 ∨ total = posts.rows.length) :
    (∀ order, ∃ shown more, getRoot posts order total = .mainpage shown 0 more false) ∧
    (∀ order, ∃ shown more, getLiked posts order total = .mainpage shown 0 more true) ∧
    (∀ order page path next, (getPagenum posts order total page path).nextPage = some next →
      ∀ order' path', ∃ shown more, shown ≠ [] ∧
        getPagenum posts order' total next path' = .mainpage shown next more false) ∧
    (∀ order page path next, (getLikedPagenum posts order total page path).nextPage = some next →
      ∀ order' path', ∃ shown more, shown ≠ [] ∧
        getLikedPagenum posts order' total next path' = .mainpage shown next more true) := by
  refine ⟨fun order => ?_, fun order => ?_, ?_, ?_⟩
  · have hfirst := (accepts_getPosts h 0).mpr (by omega) order
    obtain ⟨answer, hanswer⟩ := Option.isSome_iff_exists.mp hfirst
    exact ⟨_, _, renderPosts_some hanswer⟩
  · have hfirst := (accepts_getPosts h 0).mpr (by omega) order
    obtain ⟨answer, hanswer⟩ := Option.isSome_iff_exists.mp hfirst
    exact ⟨_, _, renderPosts_some hanswer⟩
  · intro order page path next hnext order' path'
    obtain ⟨answer, hanswer, hposts⟩ := nextPage_answered h rfl hnext order'
    exact ⟨_, _, hposts, renderPosts_some hanswer⟩
  · intro order page path next hnext order' path'
    obtain ⟨answer, hanswer, hposts⟩ := nextPage_answered h rfl hnext order'
    exact ⟨_, _, hposts, renderPosts_some hanswer⟩

/-- The numbers agree with the posts for a page unless it, or the page after it, is the empty
one behind a full last page. -/
theorem pageNumbers_iff (posts : Posts T) (total : Int)
    (h : total = -1 ∨ total = posts.rows.length) (page : Nat) :
    (Numbered (getRecentPosts posts) total page ↔
      (0 < page → posts.rows.length ≠ page * 10) ∧ posts.rows.length ≠ (page + 1) * 10) ∧
    (Numbered (getLikedPosts posts) total page ↔
      (0 < page → posts.rows.length ≠ page * 10) ∧ posts.rows.length ≠ (page + 1) * 10) :=
  ⟨numbered_iff Post.posttime posts total h page, numbered_iff Post.likes posts total h page⟩

/-- The second page of the eleven posts has one post and is the last. -/
theorem pageNumbers_iff_elevenPosts :
    Numbered (getRecentPosts elevenPosts) 11 1 ∧ Numbered (getLikedPosts elevenPosts) 11 1 :=
  have h := pageNumbers_iff elevenPosts 11 (.inr rfl) 1
  ⟨h.1.mpr (by decide), h.2.mpr (by decide)⟩

/-- As many posts as fit on one page. -/
def tenPosts : Posts String where
  rows := (List.range 10).map fun i => ⟨i + 1, "post", "user", 1700000000, none, 0⟩
  next := 11
  unique := by decide
  fresh := by decide

/-- The page after the only one is accepted, though empty, and not announced. -/
theorem tenPosts_not_numbered :
    ¬ Numbered (getRecentPosts tenPosts) 10 0 ∧ ¬ Numbered (getLikedPosts tenPosts) 10 0 ∧
    ¬ Numbered (getRecentPosts tenPosts) 10 1 ∧ ¬ Numbered (getLikedPosts tenPosts) 10 1 := by
  have hrecent := numbered_iff Post.posttime tenPosts 10 (.inr rfl)
  have hliked := numbered_iff Post.likes tenPosts 10 (.inr rfl)
  refine ⟨fun h => ?_, fun h => ?_, fun h => ?_, fun h => ?_⟩
  · exact ((hrecent 0).mp h).2 rfl
  · exact ((hliked 0).mp h).2 rfl
  · exact ((hrecent 1).mp h).1 Nat.one_pos rfl
  · exact ((hliked 1).mp h).1 Nat.one_pos rfl

end UmnProjects.Litter
