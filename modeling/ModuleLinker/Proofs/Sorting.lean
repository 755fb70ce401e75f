/-
# ModuleLinker.Proofs.Sorting -- sorted lists and lists without repetitions

A sorted list goes up in rank, strictly where no two of its elements have the same
(`sorted_pairwise` and `sorted_pairwise_lt`), and a list without repetitions keeps the order in
which its elements first came (`distinct_pairwise_idxOf`).
-/

import Mathlib.Data.List.Basic
import Mathlib.Order.Lattice
import ModuleLinker.Order

namespace ModuleLinker

/-! ## Sorting -/

section Sorting

variable {α β : Type} [LinearOrder β] {precedes : α → α → Bool} {rank : α → β}

theorem insertSorted_pairwise (h : ∀ a b, precedes a b ↔ rank a < rank b) {as : List α}
    (has : as.Pairwise fun a b => rank a ≤ rank b) (a : α) :
    (insertSorted precedes a as).Pairwise fun a b => rank a ≤ rank b := by
  induction as with
  | nil => exact List.pairwise_singleton _ _
  | cons b bs ih =>
      obtain ⟨hb, hbs⟩ := List.pairwise_cons.1 has
      unfold insertSorted
      split
      · next hprecedes =>
        have hlt : rank b < rank a := (h b a).1 hprecedes
        refine List.pairwise_cons.2 ⟨fun x hx => ?_, ih hbs⟩
        rcases List.mem_cons.1 ((insertSorted_perm precedes a bs).mem_iff.1 hx) with rfl | hx
        · exact hlt.le
        · exact hb x hx
      · next hprecedes =>
        have hle : rank a ≤ rank b := not_lt.1 fun hlt => hprecedes ((h b a).2 hlt)
        refine List.pairwise_cons.2 ⟨fun x hx => ?_, has⟩
        rcases List.mem_cons.1 hx with rfl | hx
        · exact hle
        · exact hle.trans (hb x hx)

theorem sorted_pairwise (h : ∀ a b, precedes a b ↔ rank a < rank b) (as : List α) :
    (sorted precedes as).Pairwise fun a b => rank a ≤ rank b := by
  induction as with
  | nil => exact List.Pairwise.nil
  | cons a as ih => exact insertSorted_pairwise h ih a

/-- Where no two elements have one rank, sorting forgets the order. -/
theorem sorted_eq_of_perm (h : ∀ a b, precedes a b ↔ rank a < rank b)
    (hrank : Function.Injective rank) {as bs : List α} (hperm : as.Perm bs) :
    sorted precedes as = sorted precedes bs := by
  have hsorted : (sorted precedes as).Perm (sorted precedes bs) :=
    (sorted_perm precedes as).trans (hperm.trans (sorted_perm precedes bs).symm)
  exact hsorted.eq_of_pairwise (fun _ _ _ _ hab hba => hrank (le_antisymm hab hba))
    (sorted_pairwise h as) (sorted_pairwise h bs)

/-- Where no two elements of the list have one rank, every element is below those behind it. -/
theorem sorted_pairwise_lt (h : ∀ a b, precedes a b ↔ rank a < rank b) {as : List α}
    (hapart : (as.map rank).Nodup) : (sorted precedes as).Pairwise fun a b => rank a < rank b := by
  have hne : ((sorted precedes as).map rank).Nodup :=
    ((sorted_perm precedes as).map rank).nodup_iff.2 hapart
  rw [List.Nodup, List.pairwise_map] at hne
  exact (hne.and (sorted_pairwise h as)).imp fun hab => lt_of_le_of_ne hab.2 hab.1

end Sorting

/-! ## First occurrences -/

/-- What is left without repetitions stands in the order of its first occurrences. -/
theorem distinct_pairwise_idxOf {α : Type} [DecidableEq α] (as : List α) :
    (distinct as).Pairwise fun a b => as.idxOf a < as.idxOf b := by
  induction as with
  | nil => exact List.Pairwise.nil
  | cons a as ih =>
      have hbehind : ∀ b, b ≠ a → (a :: as).idxOf b = as.idxOf b + 1 :=
        fun b hb => List.idxOf_cons_ne as hb.symm
      refine List.pairwise_cons.2 ⟨fun b hb => ?_, ?_⟩
      · have hne : b ≠ a := by simpa using (List.mem_filter.1 hb).2
        rw [List.idxOf_cons_self, hbehind b hne]
        omega
      · refine List.pairwise_filter.2 ?_
        refine ih.imp fun hlt hb hc => ?_
        rw [hbehind _ (by simpa using hb), hbehind _ (by simpa using hc)]
        omega

end ModuleLinker
