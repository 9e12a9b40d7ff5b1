import Mathlib
/-!
# OrderStatistics — the value at a rank of a list

`ranked l i` is entry `i` of the sorted list.  It is described by two counts (`ranked_iff`), and the counts carry over
from one list to another: smaller values have smaller order statistics (`ranked_le_of_forall₂`).
-/
namespace OrderStatistics

variable {α : Type*} [LinearOrder α]

def ranked (l : List α) (i : Nat) : Option α := (l.insertionSort (· ≤ ·))[i]?

def atMost (l : List α) (v : α) : Nat := l.countP (· ≤ v)

def below (l : List α) (v : α) : Nat := l.countP (· < v)

theorem ranked_isSome {l : List α} {i : Nat} : (ranked l i).isSome ↔ i < l.length := by
  rw [ranked, isSome_getElem?, List.length_insertionSort]

theorem atMost_le_below {l : List α} {v w : α} (h : v < w) : atMost l v ≤ below l w := by
  apply List.countP_mono_left
  intro x _ hx
  rw [decide_eq_true_iff] at hx ⊢
  exact lt_of_le_of_lt hx h

theorem atMost_perm {l l' : List α} (h : l.Perm l') (v : α) : atMost l v = atMost l' v := h.countP_eq _

theorem below_perm {l l' : List α} (h : l.Perm l') (v : α) : below l v = below l' v := h.countP_eq _

theorem counts_of_pairwise {l : List α} (h : l.Pairwise (· ≤ ·)) {i : Nat} {v : α} (hi : l[i]? = some v) :
    i < atMost l v ∧ below l v ≤ i := by
  obtain ⟨hlt, rfl⟩ := List.getElem?_eq_some_iff.1 hi
  have hle := List.pairwise_iff_getElem.1 h
  constructor
  · have hsub : (l.take (i + 1)).countP (· ≤ l[i]) ≤ l.countP (· ≤ l[i]) := (List.take_sublist (i + 1) l).countP_le
    have hall : (l.take (i + 1)).countP (· ≤ l[i]) = i + 1 := by
      rw [List.countP_eq_length.2, List.length_take, Nat.min_eq_left hlt]
      intro x hx
      obtain ⟨j, hj, rfl⟩ := List.mem_take_iff_getElem.1 hx
      rw [decide_eq_true_iff]
      rcases Nat.lt_or_ge j i with hji | hij
      · exact hle j i (by omega) hlt hji
      · have heq : j = i := by omega
        simp only [heq, le_refl]
    rw [atMost]
    omega
  · have hsplit : l.countP (· < l[i]) = (l.take i).countP (· < l[i]) + (l.drop i).countP (· < l[i]) := by
      rw [← List.countP_append, List.take_append_drop]
    have htail : (l.drop i).countP (· < l[i]) = 0 := by
      rw [List.countP_eq_zero]
      intro x hx
      obtain ⟨j, hj, rfl⟩ := List.mem_drop_iff_getElem.1 hx
      rw [decide_eq_true_iff, not_lt]
      rcases Nat.eq_zero_or_pos j with rfl | hpos
      · simp
      · exact hle i (i + j) hlt (by omega) (by omega)
    have hhead : (l.take i).countP (· < l[i]) ≤ i :=
      List.countP_le_length.trans (List.length_take_le i l)
    rw [below, hsplit, htail]
    omega

/-- **The value at rank `i`** is the one with at most `i` values below it and more than `i` values at most as great. -/
theorem ranked_iff {l : List α} {i : Nat} {v : α} : ranked l i = some v ↔ below l v ≤ i ∧ i < atMost l v := by
  have hcounts : ∀ w, ranked l i = some w → i < atMost l w ∧ below l w ≤ i := by
    intro w hw
    have hperm := List.perm_insertionSort (· ≤ ·) l
    rw [← atMost_perm hperm, ← below_perm hperm]
    exact counts_of_pairwise (List.pairwise_insertionSort _ l) hw
  constructor
  · intro h
    exact (hcounts v h).symm
  · rintro ⟨hbelow, hmost⟩
    have hlen : i < l.length := hmost.trans_le List.countP_le_length
    obtain ⟨w, hw⟩ := Option.isSome_iff_exists.1 (ranked_isSome.2 hlen)
    obtain ⟨hwmost, hwbelow⟩ := hcounts w hw
    rcases lt_trichotomy w v with hlt | rfl | hlt
    · have := atMost_le_below (l := l) hlt
      omega
    · exact hw
    · have := atMost_le_below (l := l) hlt
      omega

theorem ranked_mono {l : List α} {i j : Nat} {v w : α} (h : i ≤ j) (hv : ranked l i = some v)
    (hw : ranked l j = some w) : v ≤ w := by
  by_contra hlt
  rw [not_le] at hlt
  have hcount := atMost_le_below (l := l) hlt
  obtain ⟨hbelow, -⟩ := ranked_iff.1 hv
  obtain ⟨-, hmost⟩ := ranked_iff.1 hw
  omega

theorem ranked_le_of_atMost {l l' : List α} (h : ∀ v, atMost l v ≤ atMost l' v) {i : Nat} {v w : α}
    (hv : ranked l i = some v) (hw : ranked l' i = some w) : w ≤ v := by
  by_contra hlt
  rw [not_le] at hlt
  have hcount := atMost_le_below (l := l') hlt
  obtain ⟨-, hmost⟩ := ranked_iff.1 hv
  obtain ⟨hbelow, -⟩ := ranked_iff.1 hw
  have := h v
  omega

theorem atMost_le_of_forall₂ {l l' : List α} (h : List.Forall₂ (· ≤ ·) l' l) (v : α) : atMost l v ≤ atMost l' v := by
  induction h with
  | nil => exact le_rfl
  | @cons a b as bs hab hrest ih =>
    unfold atMost at ih ⊢
    rw [List.countP_cons, List.countP_cons]
    by_cases hb : b ≤ v
    · have ha : a ≤ v := hab.trans hb
      simp only [ha, hb, decide_true, if_true]
      omega
    · simp only [hb, decide_false, Bool.false_eq_true, if_false]
      omega

theorem ranked_le_of_forall₂ {l l' : List α} (h : List.Forall₂ (· ≤ ·) l' l) {i : Nat} {v w : α}
    (hv : ranked l i = some v) (hw : ranked l' i = some w) : w ≤ v :=
  ranked_le_of_atMost (atMost_le_of_forall₂ h) hv hw

end OrderStatistics
