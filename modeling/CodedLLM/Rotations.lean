import Mathlib
/-!
# Rotations — windows of a list that goes round

The `r`-th window of width `m` of a list is the first `m` entries of the list rotated by `r * m`: the windows follow
one another around the list.  After as many windows as the list has entries, the list has been read `m` times over, so
every entry is in exactly `m` of them (`countP_windows`), whether or not `m` divides the length or has a factor in
common with it.
-/
namespace Rotations

variable {α : Type*}

def window (l : List α) (m r : Nat) : List α := (l.rotate (r * m)).take m

theorem window_length {l : List α} {m : Nat} (hm : m ≤ l.length) (r : Nat) : (window l m r).length = m := by
  rw [window, List.length_take, List.length_rotate, Nat.min_eq_left hm]

theorem window_nodup {l : List α} (hl : l.Nodup) (m r : Nat) : (window l m r).Nodup :=
  (List.nodup_rotate.2 hl).sublist (List.take_sublist ..)

theorem mem_of_mem_window {l : List α} {m r : Nat} {a : α} (h : a ∈ window l m r) : a ∈ l :=
  List.mem_rotate.1 (List.mem_of_mem_take h)

theorem window_mod (l : List α) (m r : Nat) : window l m (r % l.length) = window l m r := by
  unfold window
  rw [← List.rotate_mod, Nat.mod_mul_mod, List.rotate_mod]

theorem mem_window {l : List α} (hl : l.Nodup) {m : Nat} (hm : m ≤ l.length) (r : Nat) {p : Nat} {a : α}
    (ha : l[p]? = some a) : a ∈ window l m r ↔ ∃ i < m, (r * m + i) % l.length = p := by
  obtain ⟨hp, -⟩ := List.getElem?_eq_some_iff.1 ha
  have hget : ∀ i < m, (window l m r)[i]? = l[(r * m + i) % l.length]? := by
    intro i hi
    rw [window, List.getElem?_take_of_lt hi, List.getElem?_rotate (by omega), Nat.add_comm]
  rw [List.mem_iff_getElem?]
  constructor
  · rintro ⟨i, hi⟩
    have him : i < m := by
      obtain ⟨hlt, -⟩ := List.getElem?_eq_some_iff.1 hi
      rwa [window_length hm] at hlt
    rw [hget i him] at hi
    refine ⟨i, him, ?_⟩
    exact (List.getElem?_inj (Nat.mod_lt _ (by omega)) hl).1 (hi.trans ha.symm)
  · rintro ⟨i, hi, hip⟩
    exact ⟨i, by rw [hget i hi, hip, ha]⟩

theorem count_block {k m : Nat} (hm : m ≤ k) (p s : Nat) :
    Nat.count (fun i => (s + i) % k = p) m = if ∃ i < m, (s + i) % k = p then 1 else 0 := by
  induction m with
  | zero => simp
  | succ m ih =>
    rw [Nat.count_succ, ih (by omega)]
    by_cases hlast : (s + m) % k = p
    · -- the last number has the residue, so none before it has
      have hnone : ¬ ∃ i < m, (s + i) % k = p := by
        rintro ⟨i, hi, hp⟩
        have hmod : s + i ≡ s + m [MOD k] := hp.trans hlast.symm
        have hlt := Nat.ModEq.add_left_cancel' s hmod
        rw [Nat.ModEq, Nat.mod_eq_of_lt (by omega), Nat.mod_eq_of_lt (by omega)] at hlt
        omega
      rw [if_neg hnone, if_pos hlast, if_pos ⟨m, by omega, hlast⟩]
    · rw [if_neg hlast, Nat.add_zero]
      refine if_congr ⟨fun ⟨i, hi, hp⟩ => ⟨i, by omega, hp⟩, fun ⟨i, hi, hp⟩ => ⟨i, ?_, hp⟩⟩ rfl rfl
      rcases Nat.lt_succ_iff_lt_or_eq.1 hi with hi | rfl
      · exact hi
      · exact absurd hp hlast

theorem countP_blocks {k m : Nat} (hm : m ≤ k) (p : Nat) : ∀ n : Nat,
    (List.range n).countP (fun r => ∃ i < m, (r * m + i) % k = p) = Nat.count (fun x => x % k = p) (n * m)
  | 0 => by simp
  | n + 1 => by
    rw [List.range_succ, List.countP_append, countP_blocks hm p n, Nat.succ_mul, Nat.count_add, count_block hm,
      List.countP_singleton]
    simp only [decide_eq_true_eq]

theorem countP_windows [DecidableEq α] {l : List α} (hl : l.Nodup) {m : Nat} (hm : m ≤ l.length) {a : α} (ha : a ∈ l) :
    (List.range l.length).countP (fun r => a ∈ window l m r) = m := by
  obtain ⟨p, hp⟩ := List.mem_iff_getElem?.1 ha
  obtain ⟨hlt, -⟩ := List.getElem?_eq_some_iff.1 hp
  have hpos : 0 < l.length := by omega
  have hcount : Nat.count (fun x => x % l.length = p) (l.length * m) = m := by
    have h := Nat.count_modEq_card (l.length * m) hpos p
    simp only [Nat.ModEq, Nat.mod_eq_of_lt hlt] at h
    rw [h, Nat.mul_div_cancel_left m hpos, Nat.mul_mod_right, if_neg (by omega), Nat.add_zero]
  refine Eq.trans (List.countP_congr (fun r _ => ?_)) ((countP_blocks hm p l.length).trans hcount)
  rw [decide_eq_true_iff, decide_eq_true_iff, mem_window hl hm r hp]

/-- **And so it is over any numbers with every residue once**, in any order. -/
theorem countP_windows_of_residues [DecidableEq α] {l : List α} (hl : l.Nodup) {m : Nat} (hm : m ≤ l.length) {a : α}
    (ha : a ∈ l) {rs : List Nat} (hlen : rs.length = l.length) (hrs : (rs.map (· % l.length)).Nodup) :
    rs.countP (fun r => a ∈ window l m r) = m := by
  have hpos : 0 < l.length := List.length_pos_of_mem ha
  have hsub : rs.map (· % l.length) ⊆ List.range l.length := by
    intro x hx
    obtain ⟨r, -, rfl⟩ := List.mem_map.1 hx
    exact List.mem_range.2 (Nat.mod_lt _ hpos)
  have hperm : (rs.map (· % l.length)).Perm (List.range l.length) := by
    apply (List.subperm_of_subset hrs hsub).perm_of_length_le
    rw [List.length_map, List.length_range, hlen]
  have hturn := countP_windows hl hm ha
  rw [← hperm.countP_eq, List.countP_map] at hturn
  refine Eq.trans (List.countP_congr (fun r _ => ?_)) hturn
  rw [Function.comp_apply, window_mod]

end Rotations
