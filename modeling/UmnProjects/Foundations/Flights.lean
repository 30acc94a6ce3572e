import Mathlib.Algebra.BigOperators.Group.List.Basic
import Mathlib.Algebra.Order.Ring.Int

/-!
Tasks in flight as a list: a task that takes a step is replaced by what it leaves in
flight, nothing when it has come to its end.
-/
namespace UmnProjects.Flights

variable {A : Type} {tasks left : List A} {i : Nat} {a : A}

def replaceAt (tasks : List A) (i : Nat) (left : List A) : List A :=
  tasks.take i ++ left ++ tasks.drop (i + 1)

theorem eq_take_append_cons_drop (h : tasks[i]? = some a) :
    tasks = tasks.take i ++ a :: tasks.drop (i + 1) := by
  obtain ⟨hlen, ha⟩ := List.getElem?_eq_some_iff.mp h
  have hdrop : tasks.drop i = a :: tasks.drop (i + 1) := by
    rw [List.drop_eq_getElem_cons hlen, ha]
  rw [← hdrop, List.take_append_drop]

theorem mem_of_mem_replaceAt {b : A} (h : b ∈ replaceAt tasks i left) : b ∈ tasks ∨ b ∈ left := by
  simp only [replaceAt, List.mem_append] at h
  obtain (h | h) | h := h
  · exact .inl (List.mem_of_mem_take h)
  · exact .inr h
  · exact .inl (List.mem_of_mem_drop h)

theorem length_replaceAt (left : List A) (h : tasks[i]? = some a) :
    (replaceAt tasks i left).length + 1 = tasks.length + left.length := by
  have hlen := congrArg List.length (eq_take_append_cons_drop h)
  simp only [List.length_append, List.length_cons] at hlen
  simp only [replaceAt, List.length_append]
  omega

theorem sum_replaceAt (weight : A → Int) (left : List A) (h : tasks[i]? = some a) :
    ((replaceAt tasks i left).map weight).sum =
      (tasks.map weight).sum - weight a + (left.map weight).sum := by
  have hsum := congrArg (fun l => (l.map weight).sum) (eq_take_append_cons_drop h)
  simp only [List.map_append, List.map_cons, List.sum_append, List.sum_cons] at hsum
  simp only [replaceAt, List.map_append, List.sum_append]
  omega

/-- The last task in flight comes to its end. -/
theorem eq_singleton_of_replaceAt (h : tasks[i]? = some a) (hend : replaceAt tasks i left = []) :
    tasks = [a] ∧ left = [] := by
  simp only [replaceAt, List.append_eq_nil_iff] at hend
  have htasks := eq_take_append_cons_drop h
  rw [hend.1.1, hend.2, List.nil_append] at htasks
  exact ⟨htasks, hend.1.2⟩

/-! ### A task replaced in place by another one -/

theorem set_eq_take_append_cons_drop (b : A) (h : tasks[i]? = some a) :
    tasks.set i b = tasks.take i ++ b :: tasks.drop (i + 1) := by
  obtain ⟨hlen, _⟩ := List.getElem?_eq_some_iff.mp h
  rw [List.set_eq_take_append_cons_drop, if_pos hlen]

theorem countP_set (p : A → Bool) (b : A) (h : tasks[i]? = some a) :
    (tasks.set i b).countP p + (if p a then 1 else 0) =
      tasks.countP p + (if p b then 1 else 0) := by
  have hcount := congrArg (List.countP p) (eq_take_append_cons_drop h)
  rw [set_eq_take_append_cons_drop b h]
  simp only [List.countP_append, List.countP_cons] at hcount ⊢
  omega

theorem sum_map_set (weight : A → Nat) (b : A) (h : tasks[i]? = some a) :
    ((tasks.set i b).map weight).sum + weight a = (tasks.map weight).sum + weight b := by
  have hsum := congrArg (fun l => (l.map weight).sum) (eq_take_append_cons_drop h)
  rw [set_eq_take_append_cons_drop b h]
  simp only [List.map_append, List.map_cons, List.sum_append, List.sum_cons] at hsum ⊢
  omega

end UmnProjects.Flights
