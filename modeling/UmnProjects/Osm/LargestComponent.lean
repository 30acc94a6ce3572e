import UmnProjects.Osm.Components

/-!
The choice of a largest component: `count_value_occurrences`, `argmax` and
`where_equal` on the record of `ConnectedComponents`.
-/
namespace UmnProjects.Osm

open Tables Components Relation

namespace GraphUtils

variable (hash : HashOrder)

/-! ### Counting -/

/-- The entries with the value `l`. -/
def occurrences (l : ℕ) (entries : List (Sigma fun _ : String => ℕ)) : ℕ :=
  entries.countP (fun kv => kv.2 == l)

theorem occurrences_snoc (l : ℕ) (entries : List (Sigma fun _ : String => ℕ))
    (kv : Sigma fun _ : String => ℕ) :
    occurrences l (entries ++ [kv]) = occurrences l entries + if kv.2 = l then 1 else 0 := by
  simp [occurrences, List.countP_append, List.countP_cons]

/-- The table has an entry for exactly the values that occur. -/
theorem lookup_countValueOccurrences (record : Table String ℕ) (l : ℕ) :
    (countValueOccurrences hash record).lookup l =
      if occurrences l record.entries = 0 then none
      else some (occurrences l record.entries : ℤ) := by
  have horder : occurrences l (hash.order record.entries) = occurrences l record.entries :=
    (hash.perm record.entries).countP_eq _
  rw [← horder]
  refine foldl_invariant (fun done (result : Table ℕ ℤ) => ∀ l, result.lookup l =
    if occurrences l done = 0 then none else some (occurrences l done : ℤ)) ?_ ?_ l
  · intro l
    simp [occurrences]
  · intro done kv rest result _ hdone l
    rw [occurrences_snoc]
    have hself := hdone kv.2
    by_cases hl : l = kv.2
    · subst hl
      rw [if_pos rfl, if_neg (by omega)]
      split
      · case h_1 hnone =>
          rw [hnone] at hself
          have hzero : occurrences kv.2 done = 0 := by
            by_contra hne
            rw [if_neg hne] at hself
            cases hself
          rw [AList.lookup_insert, hzero]
          rfl
      · case h_2 count hcount =>
          rw [hcount] at hself
          split at hself
          · cases hself
          · rw [AList.lookup_insert, Option.some.inj hself]
            rfl
    · rw [if_neg (Ne.symm hl), Nat.add_zero, ← hdone l]
      split <;> exact AList.lookup_insert_ne hl

/-- Counting entries counts the names with a label. -/
theorem occurrences_eq_ncard (record : Table String ℕ) (l : ℕ) :
    occurrences l record.entries = {x | marks record x = some l}.ncard := by
  have hset : {x | marks record x = some l} =
      ((record.entries.filter (fun kv => kv.2 == l)).map Sigma.fst).toFinset := by
    ext x
    simp only [Set.mem_ofPred_eq, List.coe_toFinset, List.mem_map, List.mem_filter, beq_iff_eq]
    rw [marks, Table.lookup_eq_some_iff]
    constructor
    · intro h
      exact ⟨⟨x, l⟩, ⟨h, rfl⟩, rfl⟩
    · intro h
      obtain ⟨kv, ⟨hkv, hl⟩, hx⟩ := h
      rw [← hl, ← hx]
      exact hkv
  have hnodup : ((record.entries.filter (fun kv => kv.2 == l)).map Sigma.fst).Nodup :=
    (List.filter_sublist.map Sigma.fst).nodup record.nodupKeys
  rw [hset, Set.ncard_coe_finset, List.toFinset_card_of_nodup hnodup, List.length_map,
    occurrences, List.countP_eq_length_filter]

/-! ### The largest value -/

/-- The first loop ends with an upper bound that an entry attains, unless it never
moves. -/
theorem maxValue_spec (entries : List (Sigma fun _ : ℕ => ℤ)) :
    (∀ kv ∈ entries, kv.2 ≤ maxValue entries) ∧
      (maxValue entries = intMin ∨ ∃ kv ∈ entries, kv.2 = maxValue entries) := by
  refine foldl_invariant (fun (done : List (Sigma fun _ : ℕ => ℤ)) max =>
    (∀ kv ∈ done, kv.2 ≤ max) ∧ (max = intMin ∨ ∃ kv ∈ done, kv.2 = max)) ?_ ?_
  · simp
  · intro done kv rest max _ hdone
    obtain ⟨hle, hfrom⟩ := hdone
    by_cases hgreater : kv.2 > max
    · rw [if_pos hgreater]
      refine ⟨?_, .inr ⟨kv, List.mem_append_right _ (List.mem_singleton.mpr rfl), rfl⟩⟩
      intro other hother
      obtain hother | hother := List.mem_append.mp hother
      · exact le_trans (hle other hother) (le_of_lt hgreater)
      · rw [List.mem_singleton.mp hother]
    · rw [if_neg hgreater]
      refine ⟨?_, ?_⟩
      · intro other hother
        obtain hother | hother := List.mem_append.mp hother
        · exact hle other hother
        · rw [List.mem_singleton.mp hother]
          exact not_lt.mp hgreater
      · refine hfrom.imp id ?_
        intro h
        obtain ⟨other, hother, heq⟩ := h
        exact ⟨other, List.mem_append_left _ hother, heq⟩

theorem argmax_ok {mapping : Table ℕ ℤ} {k : ℕ} {v : ℤ} (hk : mapping.lookup k = some v)
    (hv : intMin < v) : ∃ l w, argmax hash mapping = .ok l ∧ mapping.lookup l = some w ∧
      ∀ l' w', mapping.lookup l' = some w' → w' ≤ w := by
  have hmem : ∀ l w, mapping.lookup l = some w ↔ Sigma.mk l w ∈ hash.order mapping.entries := by
    intro l w
    rw [Table.lookup_eq_some_iff]
    exact hash.mem_order.symm
  obtain ⟨hle, hfrom⟩ := maxValue_spec (hash.order mapping.entries)
  have hattained : ∃ kv ∈ hash.order mapping.entries,
      kv.2 = maxValue (hash.order mapping.entries) := by
    refine hfrom.resolve_left ?_
    intro hmin
    have hkv := hle ⟨k, v⟩ ((hmem k v).mp hk)
    rw [hmin] at hkv
    exact absurd hv (not_lt.mpr hkv)
  simp only [argmax]
  split
  · case h_1 kv hfind =>
      have heq : kv.2 = maxValue (hash.order mapping.entries) := by
        simpa using List.find?_some hfind
      refine ⟨kv.1, kv.2, rfl, (hmem _ _).mpr (List.mem_of_find?_eq_some hfind), ?_⟩
      intro l' w' hl'
      rw [heq]
      exact hle _ ((hmem l' w').mp hl')
  · case h_2 hfind =>
      obtain ⟨kv, hkv, heq⟩ := hattained
      exact absurd (by simpa using heq) (List.find?_eq_none.mp hfind kv hkv)

theorem lookup_whereEqual (record : Table String ℕ) (l : ℕ) {x : String} {b : Bool} :
    (whereEqual hash record l).lookup x = some b ↔
      ∃ l', marks record x = some l' ∧ b = (l' == l) := by
  have hkeys : ((hash.order record.entries).map Sigma.fst).Nodup :=
    ((hash.perm record.entries).map Sigma.fst).nodup_iff.mpr record.nodupKeys
  rw [whereEqual, Table.lookup_foldl_emplace hkeys]
  constructor
  · intro h
    obtain ⟨kv, hkv, hx, hb⟩ := h
    refine ⟨kv.2, ?_, hb.symm⟩
    rw [marks, ← hx]
    exact Table.lookup_eq_some_iff.mpr (hash.mem_order.mp hkv)
  · intro h
    obtain ⟨l', hl', hb⟩ := h
    exact ⟨⟨x, l'⟩, hash.mem_order.mpr (Table.lookup_eq_some_iff.mp hl'), rfl, hb.symm⟩

/-! ### The label of a largest component -/

theorem occurrences_ne_zero {record : Table String ℕ} {x : String} {l : ℕ}
    (h : marks record x = some l) : occurrences l record.entries ≠ 0 := by
  have hpos : 0 < occurrences l record.entries :=
    List.countP_pos_iff.mpr ⟨⟨x, l⟩, Table.lookup_eq_some_iff.mp h, by simp⟩
  omega

theorem exists_marked {record : Table String ℕ} {l : ℕ}
    (h : occurrences l record.entries ≠ 0) : ∃ x, marks record x = some l := by
  obtain ⟨entry, hentry, hvalue⟩ := List.countP_pos_iff.mp (Nat.pos_of_ne_zero h)
  have hlookup : marks record entry.1 = some entry.2 := Table.lookup_eq_some_iff.mpr hentry
  rw [beq_iff_eq.mp hvalue] at hlookup
  exact ⟨entry.1, hlookup⟩

/-- On a record with an entry the choice is defined, and no label marks more names. -/
theorem argmax_countValueOccurrences {record : Table String ℕ} {a : String} {la : ℕ}
    (ha : marks record a = some la) :
    ∃ l root, argmax hash (countValueOccurrences hash record) = .ok l ∧
      marks record root = some l ∧ ∀ x l', marks record x = some l' →
        {y | marks record y = some l'}.ncard ≤ {y | marks record y = some l}.ncard := by
  have hcount : ∀ x l, marks record x = some l →
      (countValueOccurrences hash record).lookup l = some (occurrences l record.entries : ℤ) := by
    intro x l hx
    rw [lookup_countValueOccurrences, if_neg (occurrences_ne_zero hx)]
  have hmin : intMin < (occurrences la record.entries : ℤ) := by
    rw [intMin]
    omega
  obtain ⟨l, w, hargmax, hl, hmost⟩ := argmax_ok hash (hcount a la ha) hmin
  rw [lookup_countValueOccurrences] at hl
  split at hl
  · cases hl
  · case isFalse hoccurs =>
      have hw := Option.some.inj hl
      obtain ⟨root, hroot⟩ := exists_marked hoccurs
      refine ⟨l, root, hargmax, hroot, ?_⟩
      intro x l' hx
      have hle := hmost l' _ (hcount x l' hx)
      rw [← occurrences_eq_ncard, ← occurrences_eq_ncard]
      omega

end GraphUtils

end UmnProjects.Osm
