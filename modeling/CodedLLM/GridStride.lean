import Mathlib
/-!
# GridStride — which indices the threads of a grid visit

A grid has `blocks` blocks of `threads` threads.  Thread `t` of block `b` starts at `b * threads + t` and advances by
the size of the grid until it passes the bound; together the threads visit every index below the bound, each exactly
once.
-/
namespace GridStride

/-- `for (index = start; index < bound; index += stride)`. -/
def visits (stride bound start : Nat) : List Nat :=
  if 0 < stride ∧ start < bound then start :: visits stride bound (start + stride) else []
termination_by bound - start

def threads (blocks threadsPerBlock : Nat) :
    List (Nat × Nat) := (List.range blocks).product (List.range threadsPerBlock)

theorem mem_threads {blocks threadsPerBlock : Nat} {x : Nat × Nat} :
    x ∈ threads blocks threadsPerBlock ↔ x.1 < blocks ∧ x.2 < threadsPerBlock := by
  obtain ⟨b, t⟩ := x
  rw [threads, List.pair_mem_product, List.mem_range, List.mem_range]

theorem mem_visits {stride bound : Nat} (hs : 0 < stride) (start i : Nat) :
    i ∈ visits stride bound start ↔ i < bound ∧ ∃ k, i = start + k * stride := by
  induction start using visits.induct stride bound with
  | case1 start h ih =>
    rw [visits, if_pos h, List.mem_cons, ih]
    constructor
    · rintro (rfl | ⟨hb, k, rfl⟩)
      · exact ⟨h.2, 0, by simp⟩
      · exact ⟨hb, k + 1, by rw [Nat.succ_mul]; omega⟩
    · rintro ⟨hb, k, rfl⟩
      cases k with
      | zero => exact .inl (by simp)
      | succ k => exact .inr ⟨hb, k, by rw [Nat.succ_mul]; omega⟩
  | case2 start h =>
    rw [visits, if_neg h]
    simp only [List.not_mem_nil, false_iff, not_and, not_exists]
    rintro hb k rfl
    exact h ⟨hs, by omega⟩

theorem exists_visit {blocks threadsPerBlock bound i : Nat} (hb : 0 < blocks) (ht : 0 < threadsPerBlock)
    (hi : i < bound) : ∃ x ∈ threads blocks threadsPerBlock,
      i ∈ visits (threadsPerBlock * blocks) bound (x.1 * threadsPerBlock + x.2) := by
  have hs : 0 < threadsPerBlock * blocks := Nat.mul_pos ht hb
  have hr : i % (threadsPerBlock * blocks) < threadsPerBlock * blocks := Nat.mod_lt i hs
  refine ⟨(i % (threadsPerBlock * blocks) / threadsPerBlock, i % (threadsPerBlock * blocks) % threadsPerBlock),
    mem_threads.2 ⟨Nat.div_lt_of_lt_mul hr, Nat.mod_lt _ ht⟩,
      (mem_visits hs _ _).2 ⟨hi, i / (threadsPerBlock * blocks), ?_⟩⟩
  have h1 := Nat.div_add_mod' (i % (threadsPerBlock * blocks)) threadsPerBlock
  have h2 := Nat.mod_add_div' i (threadsPerBlock * blocks)
  simp only
  rw [h1, h2]

theorem visits_nodup {stride : Nat} (hs : 0 < stride) (bound start : Nat) : (visits stride bound start).Nodup := by
  induction start using visits.induct stride bound with
  | case1 start h ih =>
    rw [visits, if_pos h, List.nodup_cons]
    refine ⟨fun hmem => ?_, ih⟩
    obtain ⟨-, k, hk⟩ := (mem_visits hs _ _).1 hmem
    omega
  | case2 start h =>
    rw [visits, if_neg h]
    exact List.nodup_nil

theorem eq_of_visits {blocks threadsPerBlock bound i : Nat} {x y : Nat × Nat} (hx : x ∈ threads blocks threadsPerBlock)
    (hy : y ∈ threads blocks threadsPerBlock)
    (hix : i ∈ visits (threadsPerBlock * blocks) bound (x.1 * threadsPerBlock + x.2))
    (hiy : i ∈ visits (threadsPerBlock * blocks) bound (y.1 * threadsPerBlock + y.2)) : x = y := by
  obtain ⟨hxb, hxt⟩ := mem_threads.1 hx
  have hs : 0 < threadsPerBlock * blocks := Nat.mul_pos (by omega) (by omega)
  have hmod : ∀ z ∈ threads blocks threadsPerBlock,
      i ∈ visits (threadsPerBlock * blocks) bound (z.1 * threadsPerBlock + z.2) →
      i % (threadsPerBlock * blocks) = z.1 * threadsPerBlock + z.2 ∧
        i % (threadsPerBlock * blocks) % threadsPerBlock = z.2 := by
    intro z hz hiz
    obtain ⟨hzb, hzt⟩ := mem_threads.1 hz
    obtain ⟨-, k, rfl⟩ := (mem_visits hs _ _).1 hiz
    have hlt : z.1 * threadsPerBlock + z.2 < threadsPerBlock * blocks := by
      have hle : (z.1 + 1) * threadsPerBlock ≤ blocks * threadsPerBlock := Nat.mul_le_mul_right _ hzb
      rw [Nat.succ_mul, Nat.mul_comm blocks] at hle
      omega
    rw [Nat.add_mul_mod_self_right, Nat.mod_eq_of_lt hlt]
    exact ⟨rfl, by rw [Nat.mul_add_mod_self_right, Nat.mod_eq_of_lt hzt]⟩
  obtain ⟨hxi, hx2⟩ := hmod x hx hix
  obtain ⟨hyi, hy2⟩ := hmod y hy hiy
  have h2 : x.2 = y.2 := hx2.symm.trans hy2
  have h1 : x.1 * threadsPerBlock = y.1 * threadsPerBlock := by omega
  exact Prod.ext (Nat.eq_of_mul_eq_mul_right (by omega) h1) h2

/-- **The threads of a grid share the indices out**: together they visit every index once. -/
theorem visits_perm {blocks threadsPerBlock : Nat} (hb : 0 < blocks) (ht : 0 < threadsPerBlock) (bound : Nat) :
    ((threads blocks threadsPerBlock).flatMap fun x =>
      visits (threadsPerBlock * blocks) bound (x.1 * threadsPerBlock + x.2)).Perm (List.range bound) := by
  have hs : 0 < threadsPerBlock * blocks := Nat.mul_pos ht hb
  have hnd : (threads blocks threadsPerBlock).Nodup := List.nodup_range.product List.nodup_range
  refine (List.perm_ext_iff_of_nodup (List.nodup_flatMap.2 ⟨fun x _ => visits_nodup hs .., ?_⟩) List.nodup_range).2
    (fun i => ?_)
  · refine List.Pairwise.imp_of_mem (fun hx hy hne => ?_) hnd
    intro i hix hiy
    exact hne (eq_of_visits hx hy hix hiy)
  · rw [List.mem_flatMap, List.mem_range]
    constructor
    · rintro ⟨x, -, hi⟩
      exact ((mem_visits hs _ _).1 hi).1
    · exact exists_visit hb ht

end GridStride
