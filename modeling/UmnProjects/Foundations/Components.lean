import Mathlib.Data.Set.Card
import Mathlib.Logic.Relation

/-!
Marking the vertices of a graph with labels. A flood marks what can be reached from its
roots past unmarked vertices; flooding a symmetric graph from one unmarked vertex after
another labels its connected components.
-/
namespace UmnProjects.Components

open Relation

variable {V L : Type} {edge : V → V → Prop} {label : L}

/-- The vertices that a path from `a` reaches. -/
def component (edge : V → V → Prop) (a : V) : Set V := {x | ReflTransGen edge a x}

theorem reaches_symm (hsymm : ∀ x y, edge x y → edge y x) {a b : V}
    (h : ReflTransGen edge a b) : ReflTransGen edge b a :=
  ReflTransGen.mono (fun x y hxy => hsymm y x hxy) _ _ (reflTransGen_swap.mpr h)

/-- `after` extends `before` by marks with `label` that the roots explain, and no edge
leads from a new mark to an unmarked vertex. -/
structure Flood (edge : V → V → Prop) (label : L) (roots : V → Prop)
    (before after : V → Option L) : Prop where
  kept : ∀ x l, before x = some l → after x = some l
  fresh : ∀ x, before x = none → after x ≠ none →
    after x = some label ∧ ∃ r, roots r ∧ ReflTransGen edge r x
  covered : ∀ r, roots r → after r ≠ none
  closed : ∀ x y, before x = none → after x ≠ none → edge x y → after y ≠ none

namespace Flood

variable {roots roots' : V → Prop} {before mid after : V → Option L}

theorem marked (h : Flood edge label roots before after) {x : V} (hx : before x ≠ none) :
    after x ≠ none := by
  obtain ⟨l, hl⟩ := Option.ne_none_iff_exists'.mp hx
  rw [h.kept x l hl]
  exact Option.some_ne_none l

/-- Nothing happens where every root is marked. -/
theorem skip (h : ∀ r, roots r → before r ≠ none) : Flood edge label roots before before :=
  ⟨fun _ _ hx => hx, fun _ hnone hsome => absurd hnone hsome, h,
    fun _ _ hnone hsome _ => absurd hnone hsome⟩

theorem append (h : Flood edge label roots before mid) (h' : Flood edge label roots' mid after) :
    Flood edge label (fun r => roots r ∨ roots' r) before after := by
  refine ⟨fun x l hx => h'.kept x l (h.kept x l hx), ?_, ?_, ?_⟩
  · intro x hnone hsome
    by_cases hmid : mid x = none
    · obtain ⟨hlabel, r, hr, hreach⟩ := h'.fresh x hmid hsome
      exact ⟨hlabel, r, .inr hr, hreach⟩
    · obtain ⟨hlabel, r, hr, hreach⟩ := h.fresh x hnone hmid
      exact ⟨h'.kept x label hlabel, r, .inl hr, hreach⟩
  · intro r hr
    cases hr with
    | inl hr => exact h'.marked (h.covered r hr)
    | inr hr => exact h'.covered r hr
  · intro x y hnone hsome hedge
    by_cases hmid : mid x = none
    · exact h'.closed x y hmid hsome hedge
    · exact h'.marked (h.closed x y hnone hmid hedge)

theorem congr (h : Flood edge label roots before after) (hroots : ∀ r, roots r ↔ roots' r) :
    Flood edge label roots' before after := by
  have heq : roots = roots' := by
    funext r
    exact propext (hroots r)
  exact heq ▸ h

/-- Mark a vertex and flood from its successors. -/
theorem enter [DecidableEq V] {a : V} (ha : before a = none)
    (h : Flood edge label (edge a) (Function.update before a (some label)) after) :
    Flood edge label (fun r => r = a) before after := by
  have hmark : after a = some label := h.kept a label (Function.update_self a _ before)
  have hother : ∀ x, x ≠ a → Function.update before a (some label) x = before x :=
    fun x hx => Function.update_of_ne hx _ before
  refine ⟨?_, ?_, ?_, ?_⟩
  · intro x l hx
    have hxa : x ≠ a := by
      intro heq
      rw [heq, ha] at hx
      cases hx
    exact h.kept x l ((hother x hxa).trans hx)
  · intro x hnone hsome
    by_cases hxa : x = a
    · rw [hxa]
      exact ⟨hmark, a, rfl, .refl⟩
    · obtain ⟨hlabel, r, hr, hreach⟩ := h.fresh x ((hother x hxa).trans hnone) hsome
      exact ⟨hlabel, a, rfl, .head hr hreach⟩
  · intro r hr
    rw [hr, hmark]
    exact Option.some_ne_none label
  · intro x y hnone hsome hedge
    by_cases hxa : x = a
    · exact h.covered y (hxa ▸ hedge)
    · exact h.closed x y ((hother x hxa).trans hnone) hsome hedge

end Flood

/-- Labels below `count` that mark whole components, each label one of them. -/
structure Labelled (edge : V → V → Prop) (count : ℕ) (mark : V → Option ℕ) : Prop where
  closed : ∀ x y l, mark x = some l → edge x y → mark y = some l
  joined : ∀ x y l, mark x = some l → mark y = some l → ReflTransGen edge x y
  below : ∀ x l, mark x = some l → l < count
  used : ∀ l, l < count → ∃ x, mark x = some l

namespace Labelled

variable {count : ℕ} {mark after : V → Option ℕ}

theorem empty (edge : V → V → Prop) : Labelled edge 0 (fun _ => none) := by
  refine ⟨?_, ?_, ?_, ?_⟩
  · intro x y l hx
    cases hx
  · intro x y l hx
    cases hx
  · intro x l hx
    cases hx
  · intro l hl
    exact absurd hl (Nat.not_lt_zero l)

/-- A marked vertex shares its label with what it reaches. -/
theorem same_of_reaches (h : Labelled edge count mark) {x y : V} {l : ℕ} (hx : mark x = some l)
    (hxy : ReflTransGen edge x y) : mark y = some l := by
  induction hxy with
  | refl => exact hx
  | tail _ hedge ih => exact h.closed _ _ l ih hedge

theorem component_eq (h : Labelled edge count mark) {x : V} {l : ℕ} (hx : mark x = some l) :
    component edge x = {y | mark y = some l} := by
  ext y
  constructor
  · exact h.same_of_reaches hx
  · exact h.joined x y l hx

/-- There are as many components with marks as labels. -/
theorem ncard_components (h : Labelled edge count mark) :
    {C | ∃ x, mark x ≠ none ∧ C = component edge x}.ncard = count := by
  have himage : {C | ∃ x, mark x ≠ none ∧ C = component edge x} =
      Set.image (fun l => {y | mark y = some l}) ↑(Finset.range count) := by
    ext C
    constructor
    · intro hgiven
      obtain ⟨x, hx, rfl⟩ := hgiven
      obtain ⟨l, hl⟩ := Option.ne_none_iff_exists'.mp hx
      have hrange : l ∈ Finset.range count := Finset.mem_range.mpr (h.below x l hl)
      exact ⟨l, Finset.mem_coe.mpr hrange, (h.component_eq hl).symm⟩
    · intro hgiven
      obtain ⟨l, hl, rfl⟩ := hgiven
      obtain ⟨x, hx⟩ := h.used l (Finset.mem_range.mp (Finset.mem_coe.mp hl))
      exact ⟨x, by rw [hx]; exact Option.some_ne_none l, (h.component_eq hx).symm⟩
  rw [himage, Set.InjOn.ncard_image, Set.ncard_coe_finset, Finset.card_range]
  intro l hl l' _ hsame
  obtain ⟨x, hx⟩ := h.used l (Finset.mem_range.mp (Finset.mem_coe.mp hl))
  have hx' : mark x = some l' := (Set.ext_iff.mp hsame x).mp hx
  exact Option.some.inj (hx.symm.trans hx')

/-- Flooding a symmetric graph from an unmarked vertex with the next label. -/
theorem flood (h : Labelled edge count mark) (hsymm : ∀ x y, edge x y → edge y x) {a : V}
    (ha : mark a = none) (hflood : Flood edge count (fun r => r = a) mark after) :
    Labelled edge (count + 1) after := by
  have hreach : ∀ x, mark x = none → after x ≠ none →
      after x = some count ∧ ReflTransGen edge a x := by
    intro x hnone hsome
    obtain ⟨hlabel, r, hr, hrx⟩ := hflood.fresh x hnone hsome
    exact ⟨hlabel, hr ▸ hrx⟩
  have hold : ∀ x l, after x = some l → mark x = some l ∨ (mark x = none ∧ l = count) := by
    intro x l hx
    cases hmark : mark x with
    | some l' =>
        rw [hflood.kept x l' hmark] at hx
        exact .inl hx
    | none =>
        have hcount := (hreach x hmark (by rw [hx]; exact Option.some_ne_none l)).1
        rw [hx] at hcount
        exact .inr ⟨rfl, Option.some.inj hcount⟩
  refine ⟨?_, ?_, ?_, ?_⟩
  · intro x y l hx hedge
    obtain hmark | ⟨hmark, hl⟩ := hold x l hx
    · exact hflood.kept y l (h.closed x y l hmark hedge)
    · have hsome : after y ≠ none := by
        refine hflood.closed x y hmark ?_ hedge
        rw [hx]
        exact Option.some_ne_none l
      cases hy : mark y with
      | none => exact hl ▸ (hreach y hy hsome).1
      | some l' =>
          have hback := h.closed y x l' hy (hsymm x y hedge)
          rw [hmark] at hback
          cases hback
  · intro x y l hx hy
    obtain hmark | ⟨hmark, hl⟩ := hold x l hx
    · obtain hmark' | ⟨_, hl'⟩ := hold y l hy
      · exact h.joined x y l hmark hmark'
      · exact absurd (h.below x l hmark) (by omega)
    · obtain hmark' | ⟨hmark', _⟩ := hold y l hy
      · exact absurd (h.below y l hmark') (by omega)
      · have hax := (hreach x hmark (by rw [hx]; exact Option.some_ne_none l)).2
        have hay := (hreach y hmark' (by rw [hy]; exact Option.some_ne_none l)).2
        exact (reaches_symm hsymm hax).trans hay
  · intro x l hx
    obtain hmark | ⟨_, hl⟩ := hold x l hx
    · exact Nat.lt_succ_of_lt (h.below x l hmark)
    · omega
  · intro l hl
    by_cases hlt : l < count
    · obtain ⟨x, hx⟩ := h.used l hlt
      exact ⟨x, hflood.kept x l hx⟩
    · have heq : l = count := by omega
      exact ⟨a, heq ▸ (hreach a ha (hflood.covered a rfl)).1⟩

end Labelled

end UmnProjects.Components
