import Mathlib.Data.List.Range
import UmnProjects.Foundations.Paging
import UmnProjects.Litter.Queries

/-!
The pages of posts, read one after the other while nothing is written. The database may
answer each query in an order of its own among the posts with equal keys.
-/
namespace UmnProjects.Litter

open Rows Paging

variable {T : Type} {sortKey : Post T → Nat} {posts : Posts T}

/-! ### The queries -/

/-- `getTotalPosts(0)`: the cached total, counted at the first call. -/
def totalPosts (posts : Posts T) (total : Int) : Int :=
  if total = -1 then posts.rows.length else total

structure PostPage (T : Type) where
  posts : List (Post T)
  morePages : Bool
  deriving Repr, DecidableEq

/-- The answer for a page, where none stands for `false`, and the cached total. -/
def getPosts (sortKey : Post T → Nat) (posts : Posts T) (order : Sorting sortKey posts.rows)
    (page : Nat) (total : Int) : Option (PostPage T) × Int :=
  let size := totalPosts posts total
  let offset := page * 10
  if (offset : Int) > size then (none, size)
  else (some ⟨limit order.list offset 10, decide (size > offset + 10)⟩, size)

/-- `SELECT * FROM posts ORDER BY posttime DESC LIMIT ?,10` -/
def getRecentPosts (posts : Posts T) (order : Sorting Post.posttime posts.rows) (page : Nat)
    (total : Int) : Option (PostPage T) × Int :=
  getPosts Post.posttime posts order page total

/-- `SELECT * FROM posts ORDER BY likes DESC LIMIT ?,10` -/
def getLikedPosts (posts : Posts T) (order : Sorting Post.likes posts.rows) (page : Nat)
    (total : Int) : Option (PostPage T) × Int :=
  getPosts Post.likes posts order page total

/-- The posts of this page and the pages after it, as long as more are announced. -/
def readPages (getPage : Nat → Int → Option (PostPage T) × Int) :
    Nat → Nat → Int → Option (List (Post T))
  | 0, _, _ => none
  | rounds + 1, page, total =>
      match getPage page total with
      | (none, _) => none
      | (some answer, total) =>
          if answer.morePages then
            (readPages getPage rounds (page + 1) total).map (answer.posts ++ ·)
          else some answer.posts

/-- However each query is answered, the pages end and hold every post exactly once. -/
def CoversOnce (getPage : Sorting sortKey posts.rows → Nat → Int → Option (PostPage T) × Int) :
    Prop :=
  ∀ (orders : Nat → Sorting sortKey posts.rows) (total : Int),
    total = -1 ∨ total = posts.rows.length →
      ∃ rounds pages,
        readPages (fun page => getPage (orders page) page) rounds 0 total = some pages ∧
          pages.Perm posts.rows

/-! ### The pages of a run -/

/-- The last page announced. -/
def lastPage (posts : Posts T) : Nat := (posts.rows.length - 1) / 10

theorem totalPosts_eq {total : Int} (h : total = -1 ∨ total = posts.rows.length) :
    totalPosts posts total = posts.rows.length := by
  rw [totalPosts]
  split
  · rfl
  · next hne => exact h.resolve_left hne

theorem getPosts_eq (order : Sorting sortKey posts.rows) {page : Nat} {total : Int}
    (htotal : total = -1 ∨ total = posts.rows.length) (hpage : page ≤ lastPage posts) :
    getPosts sortKey posts order page total =
      (some ⟨limit order.list (page * 10) 10, decide (page < lastPage posts)⟩,
        (posts.rows.length : Int)) := by
  have hlast : page ≤ (posts.rows.length - 1) / 10 := hpage
  have hoffset : ¬ ((page * 10 : Nat) : Int) > posts.rows.length := by omega
  have hmore : ((posts.rows.length : Int) > (page * 10 : Nat) + 10) ↔ page < lastPage posts := by
    rw [lastPage]
    omega
  simp only [getPosts, totalPosts_eq htotal, if_neg hoffset, hmore]

/-- With rounds enough the pages are read to the last one announced. -/
theorem readPages_eq (orders : Nat → Sorting sortKey posts.rows) (rounds page : Nat) {total : Int}
    (htotal : total = -1 ∨ total = posts.rows.length) (hpage : page ≤ lastPage posts) :
    readPages (fun page => getPosts sortKey posts (orders page) page) rounds page total =
      if lastPage posts < page + rounds then
        some ((List.range' page (lastPage posts + 1 - page)).flatMap fun page =>
          limit (orders page).list (page * 10) 10)
      else none := by
  induction rounds generalizing page total with
  | zero => rw [readPages, if_neg (by omega)]
  | succ rounds ih =>
      rw [readPages, getPosts_eq (orders page) htotal hpage]
      by_cases hlast : page < lastPage posts
      · have hcount : lastPage posts + 1 - page = lastPage posts + 1 - (page + 1) + 1 := by omega
        have hrounds : page + (rounds + 1) = page + 1 + rounds := by omega
        simp only [hlast, decide_true, if_true]
        rw [ih (page + 1) (.inr rfl) hlast, hcount, List.range'_succ, hrounds]
        split <;> simp
      · have heq : lastPage posts + 1 - page = 1 := by omega
        simp only [hlast, decide_false, Bool.false_eq_true, if_false]
        rw [heq, if_pos (by omega)]
        simp

theorem pages_of_readPages {orders : Nat → Sorting sortKey posts.rows} {rounds : Nat}
    {total : Int} {pages : List (Post T)} (htotal : total = -1 ∨ total = posts.rows.length)
    (h : readPages (fun page => getPosts sortKey posts (orders page) page) rounds 0 total =
      some pages) :
    pages = (List.range (lastPage posts + 1)).flatMap fun page =>
      limit (orders page).list (page * 10) 10 := by
  rw [readPages_eq orders rounds 0 htotal (Nat.zero_le _)] at h
  split at h
  · rw [List.range_eq_range']
    exact (Option.some.inj h).symm
  · cases h

/-! ### Every post once -/

theorem coversOnce_of_not_straddles
    (h : ∀ page, ¬ Straddles sortKey posts.rows (page * 10)) :
    CoversOnce (getPosts sortKey posts) := by
  intro orders total htotal
  have hread := readPages_eq orders (lastPage posts + 1) 0 htotal (Nat.zero_le _)
  rw [if_pos (by omega)] at hread
  refine ⟨_, _, hread, ?_⟩
  have hperm := flatMap_limit_perm orders h (lastPage posts + 1)
  have hlength := (orders 0).perm.length_eq
  have hall : (orders 0).list.take ((lastPage posts + 1) * 10) = (orders 0).list := by
    refine List.take_of_length_le ?_
    rw [hlength, lastPage]
    omega
  rw [hall, List.range_eq_range'] at hperm
  exact hperm.trans (orders 0).perm

theorem not_coversOnce_of_straddles {page : Nat} (h : Straddles sortKey posts.rows (page * 10)) :
    ¬ CoversOnce (getPosts sortKey posts) := by
  intro hcovers
  obtain ⟨_, _, habove, hwith⟩ := id h
  have hlength := Nat.lt_of_lt_of_le hwith List.countP_le_length
  cases page with
  | zero => omega
  | succ page =>
      let o := Sorting.merge sortKey posts.rows
      obtain ⟨o', r, hr, hr'⟩ := exists_shared o h
      let orders : Nat → Sorting sortKey posts.rows := fun q => if q = page + 1 then o' else o
      obtain ⟨rounds, pages, hread, hperm⟩ := hcovers orders (-1) (.inl rfl)
      have hnodup : pages.Nodup := hperm.nodup_iff.mpr posts.unique.of_map
      rw [pages_of_readPages (.inl rfl) hread, List.nodup_flatMap] at hnodup
      have hdisjoint := List.pairwise_iff_getElem.mp hnodup.2 page (page + 1)
        (by rw [List.length_range, lastPage]; omega) (by rw [List.length_range, lastPage]; omega)
        (Nat.lt_succ_self page)
      rw [List.getElem_range, List.getElem_range] at hdisjoint
      refine hdisjoint (a := r) ?_ ?_
      · simpa [orders] using hr
      · simpa [orders] using hr'

theorem coversOnce_iff (sortKey : Post T → Nat) (posts : Posts T) :
    CoversOnce (getPosts sortKey posts) ↔
      ∀ page, ¬ Straddles sortKey posts.rows (page * 10) := by
  constructor
  · intro h page hstraddles
    exact not_coversOnce_of_straddles hstraddles h
  · exact coversOnce_of_not_straddles

/-- The pages hold every post exactly once exactly when no posts of one time, or of one number
of likes, stand on both sides of the end of a page. -/
theorem pages_cover_iff (posts : Posts T) :
    (CoversOnce (getRecentPosts posts) ↔
      ∀ page, ¬ Straddles Post.posttime posts.rows (page * 10)) ∧
    (CoversOnce (getLikedPosts posts) ↔
      ∀ page, ¬ Straddles Post.likes posts.rows (page * 10)) :=
  ⟨coversOnce_iff Post.posttime posts, coversOnce_iff Post.likes posts⟩

/-- Eleven posts of one second, none of them liked. -/
def elevenPosts : Posts String where
  rows := (List.range 11).map fun i => ⟨i + 1, "post", "user", 1700000000, none, 0⟩
  next := 12
  unique := by decide
  fresh := by decide

theorem elevenPosts_not_covered :
    ¬ CoversOnce (getRecentPosts elevenPosts) ∧ ¬ CoversOnce (getLikedPosts elevenPosts) := by
  have hrecent : Straddles Post.posttime elevenPosts.rows (1 * 10) := by decide
  have hliked : Straddles Post.likes elevenPosts.rows (1 * 10) := by decide
  exact ⟨not_coversOnce_of_straddles hrecent, not_coversOnce_of_straddles hliked⟩

end UmnProjects.Litter
