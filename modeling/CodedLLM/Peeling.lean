import Mathlib
/-!
# Peeling — equations with one unknown, and the sets that stop them

An equation is the set of its unknowns.  A step solves an equation that has exactly one unknown left in `R` and takes
that unknown out of `R`.  Whatever the order of the steps, they cannot touch a set that no equation meets in exactly
one element (`exists_stopping_iff`).  Nothing here is about one particular code.
-/
namespace Peeling

variable {α : Type*} [DecidableEq α] {E : Set (Finset α)} {R R' S T : Finset α}

/-- **A stopping set**: no equation has exactly one unknown in it. -/
def Stopping (E : Set (Finset α)) (S : Finset α) : Prop := ∀ e ∈ E, (e ∩ S).card ≠ 1

inductive Step (E : Set (Finset α)) : Finset α → Finset α → Prop
  | solve {R : Finset α} (e : Finset α) (x : α) (he : e ∈ E) (hx : e ∩ R = {x}) : Step E R (R.erase x)

theorem Step.subset (h : Step E R R') : R' ⊆ R := by
  cases h with
  | solve e x he hx => exact Finset.erase_subset x R

theorem Step.keeps (h : Step E R R') (hS : Stopping E S) (hle : S ⊆ R) : S ⊆ R' := by
  cases h with
  | solve e x he hx =>
    intro y hy
    refine Finset.mem_erase.2 ⟨?_, hle hy⟩
    rintro rfl
    -- `e` would meet `S` in `y` alone
    apply hS e he
    have hye : y ∈ e ∩ R := by
      rw [hx]
      exact Finset.mem_singleton_self y
    have honly : e ∩ S = {y} := by
      apply Finset.Subset.antisymm
      · rw [← hx]
        exact Finset.inter_subset_inter_left hle
      · rw [Finset.singleton_subset_iff, Finset.mem_inter]
        exact ⟨(Finset.mem_inter.1 hye).1, hy⟩
    rw [honly, Finset.card_singleton]

theorem subset_of_steps (h : Relation.ReflTransGen (Step E) R R') : R' ⊆ R := by
  induction h with
  | refl => exact Finset.Subset.refl R
  | tail _ hstep ih => exact hstep.subset.trans ih

theorem keeps_of_steps (h : Relation.ReflTransGen (Step E) R R') (hS : Stopping E S) (hle : S ⊆ R) : S ⊆ R' := by
  induction h with
  | refl => exact hle
  | tail _ hstep ih => exact hstep.keeps hS ih

/-- **What stops the steps is there from the start to the end**, whatever their order. -/
theorem exists_stopping_iff (h : Relation.ReflTransGen (Step E) R R') :
    (∃ S ⊆ R', S.Nonempty ∧ Stopping E S) ↔ ∃ S ⊆ R, S.Nonempty ∧ Stopping E S := by
  constructor
  · rintro ⟨S, hle, hne, hS⟩
    exact ⟨S, hle.trans (subset_of_steps h), hne, hS⟩
  · rintro ⟨S, hle, hne, hS⟩
    exact ⟨S, keeps_of_steps h hS hle, hne, hS⟩

end Peeling
