import Mathlib
/-!
# Batches — a list cut into runs of equal keys

`group key` cuts a list at every change of the key, as a loop that consumes elements while the key stays the same.
The grouping is the only one of its kind (`group_unique`), and on a list sorted by the key each group holds all the
elements of its key (`eq_filter_of_mem_group`), so that reordering the list within equal keys reorders within the
groups only (`group_perm`). Nothing here is about one particular key.
-/
namespace Batches

variable {α κ : Type*} [DecidableEq κ] (key : α → κ)

def prepend (a : α) : List (κ × List α) → List (κ × List α)
  | [] => [(key a, [a])]
  | g :: rest => if key a = g.1 then (g.1, a :: g.2) :: rest else (key a, [a]) :: g :: rest

def group : List α → List (κ × List α)
  | []      => []
  | a :: as => prepend key a (group as)

/-- **A grouping**: no group is empty, the elements of a group have its key, and neighbouring groups have different
keys. -/
structure Grouped (gs : List (κ × List α)) : Prop where
  inhabited : ∀ g ∈ gs, g.2 ≠ []
  keyed : ∀ g ∈ gs, ∀ a ∈ g.2, key a = g.1
  distinct : (gs.map Prod.fst).IsChain (· ≠ ·)

variable {key}

theorem prepend_flatMap (a : α) (gs : List (κ × List α)) :
    (prepend key a gs).flatMap Prod.snd = a :: gs.flatMap Prod.snd := by
  cases gs with
  | nil => rfl
  | cons g rest =>
    rw [prepend]
    split
    · rfl
    · rfl

@[simp] theorem group_flatMap (key : α → κ) : ∀ (l : List α), (group key l).flatMap Prod.snd = l
  | [] => rfl
  | a :: as => by rw [group, prepend_flatMap, group_flatMap key as]

theorem Grouped.prepend {gs : List (κ × List α)} (h : Grouped key gs) (a : α) : Grouped key (prepend key a gs) := by
  cases gs with
  | nil => exact ⟨by simp [Batches.prepend], by simp [Batches.prepend], by simp [Batches.prepend]⟩
  | cons g rest =>
    rw [Batches.prepend]
    split
    · rename_i hk
      refine ⟨fun x hx => ?_, fun x hx b hb => ?_, h.distinct⟩
      · rcases List.mem_cons.1 hx with rfl | hx
        · simp
        · exact h.inhabited x (by simp [hx])
      · rcases List.mem_cons.1 hx with rfl | hx
        · rcases List.mem_cons.1 hb with rfl | hb
          · exact hk
          · exact h.keyed g (by simp) b hb
        · exact h.keyed x (by simp [hx]) b hb
    · rename_i hk
      refine ⟨fun x hx => ?_, fun x hx b hb => ?_, ?_⟩
      · rcases List.mem_cons.1 hx with rfl | hx
        · simp
        · exact h.inhabited x hx
      · rcases List.mem_cons.1 hx with rfl | hx
        · rw [List.mem_singleton.1 hb]
        · exact h.keyed x hx b hb
      · exact h.distinct.cons_cons hk

theorem group_grouped (key : α → κ) : ∀ (l : List α), Grouped key (group key l)
  | [] => ⟨by simp [group], by simp [group], by simp [group]⟩
  | a :: as => (group_grouped key as).prepend a

theorem group_append_run {k : κ} : ∀ (b : List α) (gs : List (κ × List α)), b ≠ [] → (∀ a ∈ b, key a = k) →
    (∀ g ∈ gs.head?, k ≠ g.1) → group key (gs.flatMap Prod.snd) = gs →
    group key (b ++ gs.flatMap Prod.snd) = (k, b) :: gs
  | [], _, hne, _, _, _ => absurd rfl hne
  | [a], gs, _, hk, hhead, hgs => by
    have ha : key a = k := hk a (by simp)
    rw [List.singleton_append, group, hgs]
    cases gs with
    | nil => rw [prepend, ha]
    | cons g rest => rw [prepend, ha, if_neg (hhead g (by simp))]
  | a :: a' :: b, gs, _, hk, hhead, hgs => by
    have ha : key a = k := hk a (by simp)
    rw [List.cons_append, group, group_append_run (a' :: b) gs (by simp) (fun x hx => hk x (by simp [hx])) hhead hgs,
      prepend, if_pos ha]

theorem group_unique : ∀ (gs : List (κ × List α)), Grouped key gs → group key (gs.flatMap Prod.snd) = gs
  | [], _ => rfl
  | (k, b) :: gs, h => by
    have hrest : Grouped key gs :=
      ⟨fun g hg => h.inhabited g (by simp [hg]), fun g hg => h.keyed g (by simp [hg]),
        (List.isChain_cons.1 h.distinct).2⟩
    rw [List.flatMap_cons]
    refine group_append_run b gs (h.inhabited (k, b) (by simp)) (h.keyed (k, b) (by simp)) (fun g hg => ?_)
      (group_unique gs hrest)
    apply (List.isChain_cons.1 h.distinct).1
    rw [List.head?_map, Option.mem_def.1 hg]
    rfl

/-! ## Sorted lists -/

section Sorted

variable [LinearOrder κ] {l l' : List α}

theorem group_of_strict (key : α → κ) : ∀ (l : List α), l.Pairwise (fun a b => key a < key b) →
    group key l = l.map (fun a => (key a, [a]))
  | [], _ => rfl
  | [_], _ => rfl
  | a :: b :: l, h => by
    obtain ⟨hfirst, hrest⟩ := List.pairwise_cons.1 h
    rw [group, group_of_strict key (b :: l) hrest, List.map_cons, prepend, if_neg (hfirst b List.mem_cons_self).ne]
    rfl

theorem prepend_sorted {a : α} {gs : List (κ × List α)} (hs : (gs.map Prod.fst).Pairwise (· < ·))
    (ha : ∀ g ∈ gs, key a ≤ g.1) : ((prepend key a gs).map Prod.fst).Pairwise (· < ·) := by
  cases gs with
  | nil => simp [prepend]
  | cons g rest =>
    rw [prepend]
    split
    · exact hs
    · rename_i hk
      have hlt : key a < g.1 := lt_of_le_of_ne (ha g (by simp)) hk
      rw [List.map_cons, List.pairwise_cons]
      refine ⟨fun k hkm => ?_, hs⟩
      rcases List.mem_cons.1 hkm with rfl | hkm
      · exact hlt
      · exact hlt.trans ((List.pairwise_cons.1 hs).1 k hkm)

theorem group_sorted : ∀ {l : List α}, l.Pairwise (fun a b => key a ≤ key b) →
    ((group key l).map Prod.fst).Pairwise (· < ·)
  | [], _ => by simp [group]
  | a :: as, h => by
    rw [List.pairwise_cons] at h
    refine prepend_sorted (group_sorted h.2) (fun g hg => ?_)
    obtain ⟨b, hb⟩ := List.exists_mem_of_ne_nil _ ((group_grouped key as).inhabited g hg)
    rw [← (group_grouped key as).keyed g hg b hb]
    apply h.1
    rw [← group_flatMap key as]
    exact List.mem_flatMap.2 ⟨g, hg, hb⟩

theorem eq_filter_of_mem_group (h : l.Pairwise (fun a b => key a ≤ key b)) {g : κ × List α} (hg : g ∈ group key l) :
    g.2 = l.filter (fun a => key a = g.1) := by
  have hkeyed := (group_grouped key l).keyed
  have hsorted := group_sorted h
  obtain ⟨pre, post, he⟩ := List.append_of_mem hg
  have hl : l = pre.flatMap Prod.snd ++ (g.2 ++ post.flatMap Prod.snd) := by
    rw [← group_flatMap key l, he, List.flatMap_append, List.flatMap_cons]
  rw [he, List.map_append, List.map_cons, List.pairwise_append, List.pairwise_cons] at hsorted
  have hself : g.2.filter (fun a => key a = g.1) = g.2 :=
    List.filter_eq_self.2 (fun a ha => by simpa using hkeyed g hg a ha)
  have hnone : ∀ gs : List (κ × List α), gs ⊆ group key l → (∀ x ∈ gs, x.1 ≠ g.1) →
      (gs.flatMap Prod.snd).filter (fun a => key a = g.1) = [] := by
    intro gs hsub hne
    refine List.filter_eq_nil_iff.2 (fun a ha => ?_)
    obtain ⟨x, hx, hax⟩ := List.mem_flatMap.1 ha
    simpa [hkeyed x (hsub hx) a hax] using hne x hx
  have hpre := hnone pre (by rw [he]; exact List.subset_append_left ..) (fun x hx =>
    ne_of_lt (hsorted.2.2 x.1 (List.mem_map.2 ⟨x, hx, rfl⟩) g.1 (by simp)))
  have hpost := hnone post (by rw [he]; exact fun x hx => List.mem_append_right _ (by simp [hx])) (fun x hx =>
    ne_of_gt (hsorted.2.1.1 x.1 (List.mem_map.2 ⟨x, hx, rfl⟩)))
  rw [hl, List.filter_append, List.filter_append, hpre, hpost, hself]
  simp

/-- **The groups of a sorted list depend, up to the order within a group, on its elements only.** -/
theorem group_perm (h : l.Pairwise (fun a b => key a ≤ key b)) (h' : l'.Pairwise (fun a b => key a ≤ key b))
    (hp : l.Perm l') :
    List.Forall₂ (fun g g' => g.1 = g'.1 ∧ g.2.Perm g'.2) (group key l) (group key l') := by
  have hmem : ∀ (m : List α) (k : κ), k ∈ (group key m).map Prod.fst ↔ ∃ a ∈ m, key a = k := by
    intro m k
    constructor
    · intro hk
      obtain ⟨g, hg, rfl⟩ := List.mem_map.1 hk
      obtain ⟨a, ha⟩ := List.exists_mem_of_ne_nil _ ((group_grouped key m).inhabited g hg)
      refine ⟨a, ?_, (group_grouped key m).keyed g hg a ha⟩
      rw [← group_flatMap key m]
      exact List.mem_flatMap.2 ⟨g, hg, ha⟩
    · rintro ⟨a, ha, rfl⟩
      rw [← group_flatMap key m] at ha
      obtain ⟨g, hg, hag⟩ := List.mem_flatMap.1 ha
      exact List.mem_map.2 ⟨g, hg, ((group_grouped key m).keyed g hg a hag).symm⟩
  have hkeys : (group key l).map Prod.fst = (group key l').map Prod.fst := by
    have hperm : ((group key l).map Prod.fst).Perm ((group key l').map Prod.fst) := by
      refine (List.perm_ext_iff_of_nodup ((group_sorted h).imp ne_of_lt) ((group_sorted h').imp ne_of_lt)).2
        (fun k => ?_)
      rw [hmem, hmem]
      exact exists_congr (fun a => and_congr_left (fun _ => hp.mem_iff))
    exact hperm.eq_of_pairwise (fun a b _ _ hab hba => absurd hab (lt_asymm hba)) (group_sorted h) (group_sorted h')
  rw [List.forall₂_iff_get]
  have hlen : (group key l).length = (group key l').length := by simpa using congrArg List.length hkeys
  refine ⟨hlen, fun i hi hi' => ?_⟩
  have hkey : ((group key l).get ⟨i, hi⟩).1 = ((group key l').get ⟨i, hi'⟩).1 := by
    have := congrArg (fun ks => ks[i]?) hkeys
    simpa [hi, hi'] using this
  refine ⟨hkey, ?_⟩
  rw [eq_filter_of_mem_group h (List.get_mem ..), eq_filter_of_mem_group h' (List.get_mem ..), hkey]
  exact hp.filter _

end Sorted

end Batches
