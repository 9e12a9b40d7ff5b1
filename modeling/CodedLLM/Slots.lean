import Mathlib
/-!
# Slots — jobs of one length on a bank of slots

Each slot is the time at which it is next free; a job goes to the earliest one (`assign`).  Seen at a time `now`,
slots that are free already are all alike: what a scheduler can tell is the multiset `free now`.  With jobs of one
length `S`, a slot that frees at `v` still owes `waves S now v` of them, and the counts below are exact.  Nothing here
is about one particular queue.
-/
namespace Slots

def assign (slots : List ℤ) (h : slots ≠ []) (completion : ℤ) :
    List ℤ := slots.set (slots.idxOf (slots.min h)) completion

theorem set_idxOf_perm {α : Type*} [DecidableEq α] (a b : α) : ∀ (l : List α), a ∈ l →
    (l.set (l.idxOf a) b).Perm (b :: l.erase a)
  | [], h => by cases h
  | x :: l, h => by
    by_cases hx : x = a
    · subst hx
      simp
    · have ha : a ∈ l := (List.mem_cons.1 h).resolve_left (Ne.symm hx)
      rw [List.idxOf_cons_ne l hx, List.set_cons_succ, List.erase_cons_tail (by simpa using hx)]
      exact ((set_idxOf_perm a b l ha).cons x).trans (List.Perm.swap b x _)

theorem assign_perm (slots : List ℤ) (h : slots ≠ []) (c : ℤ) :
    (assign slots h c).Perm (c :: slots.erase (slots.min h)) :=
  set_idxOf_perm _ _ slots (List.min_mem h)

theorem length_assign (slots : List ℤ) (h : slots ≠ []) (c : ℤ) : (assign slots h c).length = slots.length :=
  List.length_set

theorem assign_ne_nil {slots : List ℤ} (h : slots ≠ []) (c : ℤ) : assign slots h c ≠ [] := by
  intro hnil
  apply h
  apply List.length_eq_zero_iff.1
  rw [← length_assign slots h c, hnil, List.length_nil]

theorem mem_assign {slots : List ℤ} (h : slots ≠ []) {c x : ℤ} (hx : x ∈ assign slots h c) : x = c ∨ x ∈ slots := by
  rcases List.mem_cons.1 ((assign_perm slots h c).mem_iff.1 hx) with hx | hx
  · exact .inl hx
  · exact .inr (List.mem_of_mem_erase hx)

theorem mem_assign_of_mem {slots : List ℤ} (h : slots ≠ []) {c x : ℤ} (hx : x ∈ slots) :
    x = slots.min h ∨ x ∈ assign slots h c := by
  by_cases hm : x = slots.min h
  · exact .inl hm
  · exact .inr ((assign_perm slots h c).mem_iff.2 (List.mem_cons_of_mem _ ((List.mem_erase_of_ne hm).2 hx)))

theorem self_mem_assign {slots : List ℤ} (h : slots ≠ []) (c : ℤ) : c ∈ assign slots h c :=
  (assign_perm slots h c).mem_iff.2 (List.mem_cons_self ..)

theorem countP_assign_le (p : ℤ → Bool) (slots : List ℤ) (h : slots ≠ []) (c : ℤ) :
    (assign slots h c).countP p ≤ slots.countP p + 1 := by
  have herase : (slots.erase (slots.min h)).countP p ≤ slots.countP p := List.erase_sublist.countP_le
  rw [(assign_perm slots h c).countP_eq, List.countP_cons]
  split <;> omega

/-! ## What a scheduler sees at `now` -/

def free (now : ℤ) (slots : List ℤ) : Multiset ℤ := (slots.map (max now) : List ℤ)

def start (now : ℤ) (slots : List ℤ) (h : slots ≠ []) : ℤ := max now (slots.min h)

theorem now_le_start (now : ℤ) (slots : List ℤ) (h : slots ≠ []) : now ≤ start now slots h := le_max_left _ _

theorem min_le_start (now : ℤ) (slots : List ℤ) (h : slots ≠ []) : slots.min h ≤ start now slots h := le_max_right _ _

theorem start_mem (now : ℤ) (slots : List ℤ) (h : slots ≠ []) : start now slots h ∈ free now slots := by
  unfold free start
  rw [Multiset.mem_coe]
  exact List.mem_map.2 ⟨_, List.min_mem h, rfl⟩

theorem start_le {now : ℤ} {slots : List ℤ} (h : slots ≠ []) {x : ℤ} (hx : x ∈ free now slots) :
    start now slots h ≤ x := by
  unfold free at hx
  rw [Multiset.mem_coe] at hx
  obtain ⟨y, hy, rfl⟩ := List.mem_map.1 hx
  exact max_le_max le_rfl (List.min_le_of_mem hy)

theorem start_congr {now : ℤ} {a b : List ℤ} (ha : a ≠ []) (hb : b ≠ []) (h : free now a = free now b) :
    start now a ha = start now b hb := by
  apply le_antisymm
  · exact start_le ha (h ▸ start_mem now b hb)
  · exact start_le hb (h ▸ start_mem now a ha)

/-- **A job takes the earliest start away and leaves its completion.** -/
theorem free_assign {now : ℤ} {slots : List ℤ} (h : slots ≠ []) {c : ℤ} (hc : now ≤ c) :
    free now (assign slots h c) = c ::ₘ (free now slots).erase (start now slots h) := by
  have hperm : (slots.map (max now)).Perm (start now slots h :: (slots.erase (slots.min h)).map (max now)) :=
    (List.perm_cons_erase (List.min_mem h)).map (max now)
  have hafter : ((assign slots h c).map (max now)).Perm (c :: (slots.erase (slots.min h)).map (max now)) := by
    refine ((assign_perm slots h c).map (max now)).trans ?_
    rw [List.map_cons, max_eq_right hc]
  unfold free
  rw [Multiset.coe_eq_coe.2 hperm, Multiset.coe_eq_coe.2 hafter, ← Multiset.cons_coe, ← Multiset.cons_coe,
    Multiset.erase_cons_head]

/-- **One job more**, at every time from `now` on: the slots that are busy are one more exactly while it runs. -/
theorem countP_assign {now t s : ℤ} {slots : List ℤ} (h : slots ≠ []) (hs : 0 < s) (ht : now ≤ t) :
    (assign slots h (start now slots h + s)).countP (t < ·) =
      slots.countP (t < ·) + if start now slots h ≤ t ∧ t < start now slots h + s then 1 else 0 := by
  have hmin := min_le_start now slots h
  have hbefore := (List.perm_cons_erase (List.min_mem h)).countP_eq (t < ·)
  rw [(assign_perm slots h _).countP_eq, hbefore, List.countP_cons, List.countP_cons]
  simp only [decide_eq_true_eq]
  by_cases hlt : t < start now slots h
  · -- the earliest slot is busy until the job starts
    have hbusy : t < slots.min h := by
      unfold start at hlt
      exact (lt_max_iff.1 hlt).resolve_left (not_lt.2 ht)
    rw [if_pos (hlt.trans (by omega)), if_pos hbusy, if_neg (fun hc => hc.1.not_gt hlt)]
  · have hfree : ¬ t < slots.min h := fun hc => hlt (hc.trans_le hmin)
    rw [if_neg hfree]
    by_cases hend : t < start now slots h + s
    · rw [if_pos hend, if_pos ⟨not_lt.1 hlt, hend⟩]
    · rw [if_neg hend, if_neg (fun hc => hend hc.2)]

theorem countP_of_lt_start {now t : ℤ} {slots : List ℤ} (h : slots ≠ []) (ht : now ≤ t) (hlt : t < start now slots h) :
    slots.countP (t < ·) = slots.length := by
  have hbusy : t < slots.min h := by
    unfold start at hlt
    exact (lt_max_iff.1 hlt).resolve_left (not_lt.2 ht)
  refine List.countP_eq_length.2 (fun x hx => ?_)
  simpa using hbusy.trans_le (List.min_le_of_mem hx)

theorem start_le_start_assign {now later c : ℤ} {slots : List ℤ} (h : slots ≠ []) (hle : now ≤ later)
    (hc : start now slots h ≤ c) (h' : assign slots h c ≠ []) :
    start now slots h ≤ start later (assign slots h c) h' := by
  have hmin : slots.min h ≤ (assign slots h c).min h' := by
    rcases mem_assign h (List.min_mem h') with heq | hold
    · rw [heq]
      exact (min_le_start now slots h).trans hc
    · exact List.min_le_of_mem hold
  exact max_le_max hle hmin

theorem free_mono {now later : ℤ} (hle : now ≤ later) (slots : List ℤ) :
    free later slots = (free now slots).map (max later) := by
  unfold free
  rw [Multiset.map_coe, List.map_map]
  congr 1
  refine List.map_congr_left (fun x _ => ?_)
  simp only [Function.comp_apply, ← max_assoc, max_eq_left hle]

theorem free_congr_later {now later : ℤ} (hle : now ≤ later) {a b : List ℤ} (h : free now a = free now b) :
    free later a = free later b := by
  rw [free_mono hle, free_mono hle, h]

theorem free_of_idle {now : ℤ} {slots : List ℤ} (h : ∀ x ∈ slots, x ≤ now) :
    free now slots = Multiset.replicate slots.length now := by
  unfold free
  rw [← Multiset.coe_replicate]
  congr 1
  refine List.eq_replicate_iff.2 ⟨List.length_map .., fun x hx => ?_⟩
  obtain ⟨y, hy, rfl⟩ := List.mem_map.1 hx
  exact max_eq_left (h y hy)

/-! ## Jobs of one length -/

/-- How many jobs of length `S` a slot that frees at `v` still has before it, at `now`. -/
def waves (S now v : ℤ) : ℕ := ((v - now + (S - 1)) / S).toNat

variable {S now : ℤ} (hS : 0 < S)

include hS

/-- **`waves` is the least number of jobs that reaches `v`.** -/
theorem waves_le_iff (v : ℤ) (n : ℕ) : waves S now v ≤ n ↔ v ≤ now + n * S := by
  unfold waves
  rw [Int.toNat_le, ← Int.lt_add_one_iff, Int.ediv_lt_iff_lt_mul hS, add_mul, one_mul]
  constructor <;> intro h <;> linarith

theorem waves_eq_zero_iff (v : ℤ) : waves S now v = 0 ↔ v ≤ now := by
  rw [← Nat.le_zero, waves_le_iff hS]
  simp

theorem le_add_waves (v : ℤ) : v ≤ now + waves S now v * S := (waves_le_iff hS v _).1 le_rfl

theorem waves_mono {v v' : ℤ} (h : v ≤ v') : waves S now v ≤ waves S now v' :=
  (waves_le_iff hS v _).2 (h.trans (le_add_waves hS v'))

/-- **One more job on a slot is one more wave**, at every time until it completes. -/
theorem waves_push {t m : ℤ} (ht : now ≤ t) :
    waves S t (max now m + S) = waves S t m + if t < max now m + S then 1 else 0 := by
  have hm : m ≤ max now m := le_max_right now m
  by_cases hc : t < max now m + S
  · rw [if_pos hc]
    refine eq_of_forall_ge_iff (fun n => ?_)
    cases n with
    | zero =>
      rw [waves_le_iff hS]
      constructor <;> intro h
      · simp only [Nat.cast_zero, zero_mul, add_zero] at h
        exact absurd h (not_le.2 hc)
      · omega
    | succ n =>
      have hn : (0 : ℤ) ≤ n * S := mul_nonneg (Int.natCast_nonneg n) hS.le
      rw [waves_le_iff hS, Nat.add_le_add_iff_right, waves_le_iff hS, Nat.cast_succ, add_mul, one_mul, ← add_assoc,
        add_le_add_iff_right, max_le_iff]
      exact ⟨fun h => h.2, fun h => ⟨by linarith, h⟩⟩
  · have hle := not_lt.1 hc
    rw [if_neg hc, (waves_eq_zero_iff hS _).2 hle, (waves_eq_zero_iff hS m).2 (by linarith)]

theorem sum_waves_assign {slots : List ℤ} (h : slots ≠ []) {t : ℤ} (ht : now ≤ t) :
    ((assign slots h (start now slots h + S)).map (waves S t)).sum =
      (slots.map (waves S t)).sum + if t < start now slots h + S then 1 else 0 := by
  have hbefore := ((List.perm_cons_erase (List.min_mem h)).map (waves S t)).sum_eq
  have hafter := ((assign_perm slots h (start now slots h + S)).map (waves S t)).sum_eq
  rw [List.map_cons, List.sum_cons] at hbefore hafter
  have hpush := waves_push hS (m := slots.min h) ht
  unfold start at hafter ⊢
  omega

/-- **The earliest slot has at most its share of the jobs.** -/
theorem length_mul_waves_le (slots : List ℤ) (h : slots ≠ []) :
    slots.length * waves S now (slots.min h) ≤ (slots.map (waves S now)).sum := by
  have hle := List.card_nsmul_le_sum (slots.map (waves S now)) (waves S now (slots.min h)) (fun x hx => by
    obtain ⟨v, hv, rfl⟩ := List.mem_map.1 hx
    exact waves_mono hS (List.min_le_of_mem hv))
  rwa [List.length_map, smul_eq_mul] at hle

/-! ## A burst -/

omit hS in
/-- The slots after `n` jobs of length `S` that all came at `now`, when every slot was free. -/
def Level (S now : ℤ) (c n : ℕ) (slots : List ℤ) : Prop :=
  free now slots = Multiset.replicate (n % c) (now + (n / c : ℕ) * S + S) + Multiset.replicate (c - n % c)
    (now + (n / c : ℕ) * S)

theorem Level.start_eq {c n : ℕ} (hc : 0 < c) {slots : List ℤ} (hl : Level S now c n slots) (h : slots ≠ []) :
    start now slots h = now + (n / c : ℕ) * S := by
  have hr := Nat.mod_lt n hc
  apply le_antisymm
  · apply start_le h
    rw [hl, Multiset.mem_add, Multiset.mem_replicate, Multiset.mem_replicate]
    exact .inr ⟨by omega, rfl⟩
  · have hmem := start_mem now slots h
    rw [hl, Multiset.mem_add, Multiset.mem_replicate, Multiset.mem_replicate] at hmem
    rcases hmem with ⟨-, he⟩ | ⟨-, he⟩ <;> omega

/-- **One job more of the burst** goes to a slot of the lowest level. -/
theorem Level.assign {c n : ℕ} (hc : 0 < c) {slots : List ℤ} (hl : Level S now c n slots) (h : slots ≠ []) :
    Level S now c (n + 1) (assign slots h (start now slots h + S)) := by
  have hr := Nat.mod_lt n hc
  have hstart := hl.start_eq hS hc h
  have hnow := now_le_start now slots h
  have hlow : c - n % c = (c - (n % c + 1)) + 1 := by omega
  have hnot : now + (n / c : ℕ) * S ∉ Multiset.replicate (n % c) (now + (n / c : ℕ) * S + S) := by
    rw [Multiset.mem_replicate]
    omega
  have hfree : free now (Slots.assign slots h (start now slots h + S)) =
      Multiset.replicate (n % c + 1) (now + (n / c : ℕ) * S + S) +
        Multiset.replicate (c - (n % c + 1)) (now + (n / c : ℕ) * S) := by
    rw [free_assign h (by omega), hl, hstart, Multiset.erase_add_right_neg _ hnot, hlow, Multiset.replicate_succ,
      Multiset.erase_cons_head, Multiset.replicate_succ, Multiset.cons_add]
  have hn := Nat.mod_add_div n c
  unfold Level
  rw [hfree]
  by_cases hlast : n % c + 1 < c
  · obtain ⟨hq, hm⟩ := (Nat.div_mod_unique hc).2 ⟨show n % c + 1 + c * (n / c) = n + 1 by omega, hlast⟩
    rw [hq, hm]
  · -- the level is full, and the next one begins
    obtain ⟨hq, hm⟩ := (Nat.div_mod_unique hc).2
      ⟨show 0 + c * (n / c + 1) = n + 1 by rw [Nat.mul_succ]; omega, hc⟩
    have hfull : n % c + 1 = c := by omega
    rw [hq, hm, hfull, Nat.sub_self, Nat.sub_zero, Multiset.replicate_zero, Multiset.replicate_zero, add_zero, zero_add,
      Nat.cast_succ, add_mul, one_mul, add_assoc]

end Slots
