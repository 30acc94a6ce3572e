import Mathlib.Data.List.AList

/-!
Hash tables as finite maps whose iteration order is unknown, and the rules for loops
over a list that may raise an exception.
-/
namespace UmnProjects.Tables

/-- What is fixed by nothing in a program: the order in which the tables it fills hand
out their entries. -/
structure HashOrder where
  order : {A : Type} → List A → List A
  perm : ∀ {A : Type} (l : List A), (order l).Perm l

theorem HashOrder.mem_order (hash : HashOrder) {A : Type} {l : List A} {a : A} :
    a ∈ hash.order l ↔ a ∈ l := (hash.perm l).mem_iff

/-- The order of insertion. -/
def HashOrder.insertion : HashOrder where
  order l := l
  perm l := .refl l

section Loops

variable {A B X : Type}

/-- A loop whose rounds keep an invariant about the part of the list behind them ends
with the invariant about the whole list. -/
theorem foldl_invariant {f : B → A → B} {l : List A} {b : B} (I : List A → B → Prop)
    (start : I [] b) (step : ∀ done a rest b, l = done ++ a :: rest → I done b →
      I (done ++ [a]) (f b a)) : I l (l.foldl f b) := by
  suffices gen : ∀ done rest b, l = done ++ rest → I done b → I l (rest.foldl f b) from
    gen [] l b rfl start
  intro done rest
  induction rest generalizing done with
  | nil =>
      intro b hl hb
      rw [hl, List.append_nil]
      exact hb
  | cons a rest ih =>
      intro b hl hb
      exact ih (done ++ [a]) (f b a) (by rw [hl, List.append_assoc]; rfl) (step done a rest b hl hb)

theorem foldlM_invariant {f : B → A → Except X B} {l : List A} {b : B} (I : List A → B → Prop)
    (start : I [] b) (step : ∀ done a rest b, l = done ++ a :: rest → I done b →
      ∃ b', f b a = .ok b' ∧ I (done ++ [a]) b') :
    ∃ b', l.foldlM f b = .ok b' ∧ I l b' := by
  suffices gen : ∀ done rest b, l = done ++ rest → I done b →
      ∃ b', rest.foldlM f b = .ok b' ∧ I l b' from gen [] l b rfl start
  intro done rest
  induction rest generalizing done with
  | nil =>
      intro b hl hb
      refine ⟨b, rfl, ?_⟩
      rw [hl, List.append_nil]
      exact hb
  | cons a rest ih =>
      intro b hl hb
      obtain ⟨b', hf, hb'⟩ := step done a rest b hl hb
      have hrest := ih (done ++ [a]) b' (by rw [hl, List.append_assoc]; rfl) hb'
      rw [List.foldlM_cons, hf]
      exact hrest

theorem of_bind_ok {x : Except X A} {f : A → Except X B} {b : B} (h : (x >>= f) = .ok b) :
    ∃ a, x = .ok a ∧ f a = .ok b := by
  cases x with
  | error e => cases h
  | ok a => exact ⟨a, rfl, h⟩

/-- What holds after a loop that has ended without an exception. -/
theorem foldlM_of_ok {f : B → A → Except X B} {l : List A} {b b' : B} (I : List A → B → Prop)
    (start : I [] b) (step : ∀ done a b b', I done b → f b a = .ok b' → I (done ++ [a]) b')
    (h : l.foldlM f b = .ok b') : I l b' := by
  suffices gen : ∀ done rest b, l = done ++ rest → I done b → rest.foldlM f b = .ok b' → I l b' from
    gen [] l b rfl start h
  intro done rest
  induction rest generalizing done with
  | nil =>
      intro b hl hb hrest
      cases hrest
      rw [hl, List.append_nil]
      exact hb
  | cons a rest ih =>
      intro b hl hb hrest
      rw [List.foldlM_cons] at hrest
      obtain ⟨next, hf, hrest⟩ := of_bind_ok hrest
      exact ih (done ++ [a]) next (by rw [hl, List.append_assoc]; rfl)
        (step done a b next hb hf) hrest

/-- A loop ends as before when its rounds do. -/
theorem foldlM_ok_mono {f g : B → A → Except X B} {l : List A} {b b' : B}
    (step : ∀ b a b', f b a = .ok b' → g b a = .ok b') (h : l.foldlM f b = .ok b') :
    l.foldlM g b = .ok b' := by
  induction l generalizing b with
  | nil => exact h
  | cons a l ih =>
      rw [List.foldlM_cons] at h
      obtain ⟨next, hf, hrest⟩ := of_bind_ok h
      rw [List.foldlM_cons, step b a next hf]
      exact ih hrest

/-- With distinct keys, the elements of a key are those of one element of the list. -/
theorem flatMap_of_nodup_keys {K : Type} [DecidableEq K] {key : A → K} {g : A → List B}
    {l : List A} (hkeys : (l.map key).Nodup) {a : A} (ha : a ∈ l) :
    (l.flatMap fun b => if key a = key b then g b else []) = g a := by
  obtain ⟨before, after, rfl⟩ := List.append_of_mem ha
  rw [List.map_append, List.nodup_append, List.map_cons, List.nodup_cons] at hkeys
  obtain ⟨_, ⟨hafter, _⟩, hbefore⟩ := hkeys
  have hnone : ∀ {others : List A}, (∀ b ∈ others, key a ≠ key b) →
      (others.flatMap fun b => if key a = key b then g b else []) = [] :=
    fun hne => List.flatMap_eq_nil_iff.mpr fun b hb => if_neg (hne b hb)
  rw [List.flatMap_append, List.flatMap_cons, hnone, hnone, if_pos rfl, List.nil_append,
    List.append_nil]
  · exact fun b hb heq => hafter (heq ▸ List.mem_map_of_mem hb)
  · exact fun b hb heq => hbefore _ (List.mem_map_of_mem hb) _ List.mem_cons_self heq.symm

end Loops

abbrev Table (K V : Type) := AList (fun _ : K => V)

namespace Table

variable {K V : Type} [DecidableEq K]

/-- Insertion that leaves an existing entry alone. -/
def emplace (m : Table K V) (k : K) (v : V) : Table K V :=
  if k ∈ m then m else m.insert k v

theorem lookup_emplace_self (m : Table K V) {k : K} (v : V) (hk : k ∉ m) :
    (m.emplace k v).lookup k = some v := by
  rw [emplace, if_neg hk, AList.lookup_insert]

theorem lookup_emplace_ne (m : Table K V) {k x : K} (v : V) (hx : x ≠ k) :
    (m.emplace k v).lookup x = m.lookup x := by
  unfold emplace
  split
  · rfl
  · exact AList.lookup_insert_ne hx

theorem lookup_emplace_mem {m : Table K V} {k : K} (v : V) (hk : k ∈ m) (x : K) :
    (m.emplace k v).lookup x = m.lookup x := by
  rw [emplace, if_pos hk]

theorem mem_emplace {m : Table K V} {k x : K} {v : V} : x ∈ m.emplace k v ↔ x = k ∨ x ∈ m := by
  unfold emplace
  split
  · next hk =>
      constructor
      · exact .inr
      · intro hx
        cases hx with
        | inl hx => exact hx ▸ hk
        | inr hx => exact hx
  · exact AList.mem_insert m

/-- Entries with distinct keys can all be looked up after they have been inserted. -/
theorem lookup_foldl_emplace {A : Type} {key : A → K} {value : A → V} {l : List A}
    (hkeys : (l.map key).Nodup) {k : K} {v : V} :
    (l.foldl (fun (m : Table K V) a => m.emplace (key a) (value a)) ∅).lookup k = some v ↔
      ∃ a ∈ l, key a = k ∧ value a = v := by
  refine foldl_invariant (fun done (m : Table K V) => ∀ k v, m.lookup k = some v ↔
    ∃ a ∈ done, key a = k ∧ value a = v) ?_ ?_ k v
  · simp
  · intro done a rest m hsplit hm k v
    rw [hsplit, List.map_append, List.nodup_append] at hkeys
    have hnew : ∀ old ∈ done, key old ≠ key a :=
      fun old hold => hkeys.2.2 _ (List.mem_map_of_mem hold) (key a) List.mem_cons_self
    have hfresh : key a ∉ m := by
      rw [← AList.lookup_eq_none, Option.eq_none_iff_forall_ne_some]
      intro w hw
      obtain ⟨old, hold, hkey, _⟩ := (hm _ w).mp hw
      exact hnew old hold hkey
    by_cases hk : k = key a
    · subst hk
      rw [lookup_emplace_self _ _ hfresh, Option.some.injEq]
      constructor
      · intro heq
        exact ⟨a, List.mem_append_right _ (List.mem_singleton.mpr rfl), rfl, heq⟩
      · intro h
        obtain ⟨b, hb, hkey, hvalue⟩ := h
        obtain hb | hb := List.mem_append.mp hb
        · exact absurd hkey (hnew b hb)
        · rw [← hvalue, List.mem_singleton.mp hb]
    · rw [lookup_emplace_ne _ _ hk, hm]
      constructor
      · intro h
        obtain ⟨b, hb, hkey⟩ := h
        exact ⟨b, List.mem_append_left _ hb, hkey⟩
      · intro h
        obtain ⟨b, hb, hkey, hvalue⟩ := h
        obtain hb | hb := List.mem_append.mp hb
        · exact ⟨b, hb, hkey, hvalue⟩
        · exact absurd (hkey.symm.trans (by rw [List.mem_singleton.mp hb])) hk

theorem lookup_eq_some_iff {m : Table K V} {k : K} {v : V} :
    m.lookup k = some v ↔ Sigma.mk k v ∈ m.entries := AList.mem_lookup_iff

end Table

end UmnProjects.Tables
