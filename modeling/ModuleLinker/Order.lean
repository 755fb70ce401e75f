/-
# ModuleLinker.Order -- ordered and duplicate-free lists

Insertion into a sorted list, the sort built from it, and the first occurrences of a list. The
sort is stable: elements that neither precede the other keep their order.
-/

namespace ModuleLinker

/-- Puts `a` in front of the first element that does not precede it. -/
def insertSorted (precedes : α → α → Bool) (a : α) : List α → List α
  | [] => [a]
  | b :: bs => if precedes b a then b :: insertSorted precedes a bs else a :: b :: bs

/-- The elements in the order of `precedes`. -/
def sorted (precedes : α → α → Bool) : List α → List α
  | [] => []
  | a :: as => insertSorted precedes a (sorted precedes as)

/-- The list without the repetitions of an element that it already had. -/
def distinct [DecidableEq α] : List α → List α
  | [] => []
  | a :: as => a :: (distinct as).filter (· ≠ a)

theorem insertSorted_perm (precedes : α → α → Bool) (a : α) (as : List α) :
    (insertSorted precedes a as).Perm (a :: as) := by
  induction as with
  | nil => exact .refl _
  | cons b bs ih =>
    unfold insertSorted
    split
    · exact (ih.cons b).trans (.swap a b bs)
    · exact .refl _

/-- Sorting only reorders. -/
theorem sorted_perm (precedes : α → α → Bool) (as : List α) :
    (sorted precedes as).Perm as := by
  induction as with
  | nil => exact .refl _
  | cons a as ih => exact (insertSorted_perm precedes a _).trans (ih.cons a)

@[simp] theorem mem_distinct [DecidableEq α] {a : α} {as : List α} :
    a ∈ distinct as ↔ a ∈ as := by
  induction as with
  | nil => simp [distinct]
  | cons b bs ih => by_cases h : a = b <;> simp [distinct, ih, h]

theorem distinct_nodup [DecidableEq α] (as : List α) : (distinct as).Nodup := by
  induction as with
  | nil => simp [distinct]
  | cons a as ih => exact List.nodup_cons.2 ⟨by simp, ih.filter _⟩

end ModuleLinker
