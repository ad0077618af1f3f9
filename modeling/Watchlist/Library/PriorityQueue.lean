import Mathlib

/-!
Queues that hand out their least value first. Such a queue is kept as the list of
its values in ascending key order, which is a field: the head is the least value,
and popping it leaves a queue. Values with equal keys are all kept.
-/

/-- Values in ascending order of their keys. -/
@[ext] structure PriorityQueue {α κ : Type*} [LinearOrder κ] (key : α → κ) where
  toList : List α
  sorted : toList.Pairwise (fun a b => key a ≤ key b)

namespace PriorityQueue

variable {α κ : Type*} [LinearOrder κ] {key : α → κ} {q : PriorityQueue key} {a b : α}

def empty : PriorityQueue key := ⟨[], List.Pairwise.nil⟩

@[simp] theorem toList_empty : (empty : PriorityQueue key).toList = [] := rfl

/-- The least value. -/
def top (q : PriorityQueue key) : Option α := q.toList.head?

def pop (q : PriorityQueue key) : PriorityQueue key := ⟨q.toList.tail, q.sorted.tail⟩

instance instTotalKey : Std.Total (fun a b : α => key a ≤ key b) :=
  ⟨fun a b => le_total (key a) (key b)⟩

instance instIsTransKey : IsTrans α (fun a b => key a ≤ key b) := ⟨fun _ _ _ => le_trans⟩

def push (q : PriorityQueue key) (a : α) : PriorityQueue key :=
  ⟨q.toList.orderedInsert (fun x y => key x ≤ key y) a, q.sorted.orderedInsert a _⟩

/-! ### What a queue holds -/

theorem perm_push (q : PriorityQueue key) (a : α) : (q.push a).toList.Perm (a :: q.toList) :=
  List.perm_orderedInsert _ a q.toList

@[simp] theorem mem_push {c : α} : c ∈ (q.push a).toList ↔ c = a ∨ c ∈ q.toList := by
  rw [(perm_push q a).mem_iff, List.mem_cons]

/-- A queue with a least value is that value and the rest. -/
theorem toList_of_top (h : q.top = some a) : q.toList = a :: q.pop.toList := by
  obtain ⟨l, hl⟩ := List.head?_eq_some_iff.mp h
  simp only [pop, hl, List.tail_cons]

theorem mem_of_top (h : q.top = some a) : a ∈ q.toList := by
  rw [toList_of_top h]
  exact List.mem_cons_self

/-- No value has a smaller key than the first. -/
theorem le_of_top (h : q.top = some a) (hb : b ∈ q.toList) : key a ≤ key b := by
  have hsorted := q.sorted
  rw [toList_of_top h] at hsorted hb
  rcases List.mem_cons.mp hb with rfl | hb
  · exact le_rfl
  · exact (List.pairwise_cons.mp hsorted).1 b hb

end PriorityQueue
