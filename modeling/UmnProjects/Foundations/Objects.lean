import Mathlib.Data.List.Basic

/-!
An object called again and again: every call returns an output and leaves the object in
a state that may differ from the one before.
-/
namespace UmnProjects.Objects

variable {S I O : Type} {call : S → I → O × S} {s : S}

/-- The outputs of a sequence of calls on one object. -/
def outputs (call : S → I → O × S) : S → List I → List O
  | _, [] => []
  | s, i :: inputs => (call s i).1 :: outputs call (call s i).2 inputs

def stateAfter (call : S → I → O × S) (s : S) (inputs : List I) : S :=
  inputs.foldl (fun s i => (call s i).2) s

/-- Every call of a sequence meets a condition on the state before it and its input. -/
def Throughout (call : S → I → O × S) (P : S → I → Prop) : S → List I → Prop
  | _, [] => True
  | s, i :: inputs => P s i ∧ Throughout call P (call s i).2 inputs

theorem Throughout.mono {P Q : S → I → Prop} {inputs : List I}
    (h : ∀ s, ∀ i ∈ inputs, P s i → Q s i) {s : S} (hP : Throughout call P s inputs) :
    Throughout call Q s inputs := by
  induction inputs generalizing s with
  | nil => trivial
  | cons i inputs ih =>
      exact ⟨h s i List.mem_cons_self hP.1,
        ih (fun s j hj => h s j (List.mem_cons_of_mem i hj)) hP.2⟩

/-- No output depends on the calls made before it. -/
def Repeatable (call : S → I → O × S) (s : S) : Prop :=
  ∀ inputs, outputs call s inputs = inputs.map fun i => (call s i).1

theorem repeatable_of_unchanged (h : ∀ i, (call s i).2 = s) : Repeatable call s := by
  intro inputs
  induction inputs with
  | nil => rfl
  | cons i inputs ih => rw [outputs, h i, ih, List.map_cons]

theorem outputs_of_length_le_one {inputs : List I} (h : inputs.length ≤ 1) :
    outputs call s inputs = inputs.map fun i => (call s i).1 := by
  cases inputs with
  | nil => rfl
  | cons i rest =>
      have hrest : rest = [] := by simpa using h
      rw [hrest]
      rfl

/-- An object that every call on one input either finds worn out or wears further ends up
worn out. -/
theorem worn_out (call : S → I → O × S) (i : I) {o : O} (measure : S → Nat) (Usable : S → Prop)
    (wear : ∀ s, Usable s → (call s i).1 = o ∨
      Usable (call s i).2 ∧ measure (call s i).2 < measure s) (hs : Usable s) :
    ∃ n, o ∈ outputs call s (List.replicate n i) := by
  induction hm : measure s using Nat.strongRecOn generalizing s with
  | _ m ih =>
      obtain ho | ⟨husable, hless⟩ := wear s hs
      · exact ⟨1, by simp [outputs, ho]⟩
      · obtain ⟨n, hn⟩ := ih (measure (call s i).2) (hm ▸ hless) husable rfl
        exact ⟨n + 1, by simp [List.replicate_succ, outputs, hn]⟩

/-- A repeatable object that wears out on an input has never given anything else for it. -/
theorem Repeatable.output_of_worn_out (h : Repeatable call s) {i : I} {o : O} {n : Nat}
    (ho : o ∈ outputs call s (List.replicate n i)) : (call s i).1 = o := by
  rw [h, List.map_replicate] at ho
  exact (List.eq_of_mem_replicate ho).symm

theorem stateAfter_append (call : S → I → O × S) (s : S) (inputs inputs' : List I) :
    stateAfter call s (inputs ++ inputs') = stateAfter call (stateAfter call s inputs) inputs' :=
  List.foldl_append

/-! ### Objects that hold rows -/

section Rows

variable {R : Type} {effect : I → R → Option R} {made : S → I → Option R}

/-- What the inputs make of a row, each of them by itself. -/
def fate (effect : I → R → Option R) : List I → R → Option R
  | [], r => some r
  | i :: inputs, r => (effect i r).bind (fate effect inputs)

/-- Where every call treats each row by itself and adds one row at most, the rows after a sequence
of calls are what the calls have made of the rows of the start, and what the later calls have made
of each row that was added. -/
theorem mem_rows_stateAfter (rows : S → List R)
    (s : S) (inputs : List I) (hstep : ∀ s, ∀ i ∈ inputs,
      rows (call s i).2 = (rows s).filterMap (effect i) ++ (made s i).toList) (r : R) :
    r ∈ rows (stateAfter call s inputs) ↔
      (∃ q ∈ rows s, fate effect inputs q = some r) ∨
        ∃ before i after q, inputs = before ++ i :: after ∧
          made (stateAfter call s before) i = some q ∧ fate effect after q = some r := by
  induction inputs generalizing s with
  | nil => simp [stateAfter, fate]
  | cons i inputs ih =>
      have hafter : stateAfter call s (i :: inputs) = stateAfter call (call s i).2 inputs := rfl
      have hmem (q : R) : q ∈ rows (call s i).2 ↔
          (∃ q' ∈ rows s, effect i q' = some q) ∨ made s i = some q := by
        simp [hstep s i List.mem_cons_self]
      rw [hafter, ih _ fun s j hj => hstep s j (List.mem_cons_of_mem i hj)]
      constructor
      · intro h
        obtain ⟨q, hq, hfate⟩ | ⟨before, j, after, q, hsplit, hmade, hfate⟩ := h
        · obtain ⟨q', hq', heffect⟩ | hnew := (hmem q).mp hq
          · refine .inl ⟨q', hq', ?_⟩
            rw [fate, heffect]
            exact hfate
          · exact .inr ⟨[], i, inputs, q, rfl, hnew, hfate⟩
        · exact .inr ⟨i :: before, j, after, q, by rw [hsplit]; rfl, hmade, hfate⟩
      · intro h
        obtain ⟨q, hq, hfate⟩ | ⟨before, j, after, q, hsplit, hmade, hfate⟩ := h
        · obtain ⟨q', heffect, hrest⟩ := Option.bind_eq_some_iff.mp hfate
          exact .inl ⟨q', (hmem q').mpr (.inl ⟨q, hq, heffect⟩), hrest⟩
        · cases before with
          | nil =>
              cases hsplit
              exact .inl ⟨q, (hmem q).mpr (.inr hmade), hfate⟩
          | cons i' before =>
              cases hsplit
              exact .inr ⟨before, j, after, q, rfl, hmade, hfate⟩

end Rows

end UmnProjects.Objects
