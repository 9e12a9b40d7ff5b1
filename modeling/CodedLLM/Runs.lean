import Mathlib
/-!
# Runs — step functions, their runs, and the induction rules over them

A component is a partial step function `step : σ → α → Option σ`: `none` says the action is not enabled.  A run is a
list of actions; the rules below carry an invariant, or a relation between two states of one run, from single steps to
whole runs.  Nothing here is about one particular system.
-/
namespace Runs

variable {σ α : Type*} (step : σ → α → Option σ)

/-- The state a list of actions leads to, if every one of them is enabled when its turn comes. -/
def run : σ → List α → Option σ
  | s, []      => some s
  | s, a :: as => (step s a).bind (fun s' => run s' as)

/-- Every step of a run meets `P`, read at the state before it. -/
def Along (P : σ → α → Prop) : σ → List α → Prop
  | _, []      => True
  | s, a :: as => P s a ∧ ∀ s', step s a = some s' → Along P s' as

variable {step}

@[simp] theorem run_nil (s : σ) : run step s [] = some s := rfl

theorem run_cons (s : σ) (a : α) (as : List α) (t : σ) :
    run step s (a :: as) = some t ↔ ∃ s', step s a = some s' ∧ run step s' as = some t := by
  simp [run, Option.bind_eq_some_iff]

theorem run_append_bind (as bs : List α) : ∀ s : σ, run step s (as ++ bs) = (run step s as).bind (run step · bs) := by
  induction as with
  | nil => exact fun s => rfl
  | cons a as ih =>
    intro s
    rw [List.cons_append, run, run, Option.bind_assoc]
    congr 1
    funext s'
    exact ih s'

theorem run_append (as bs : List α) (s t : σ) :
    run step s (as ++ bs) = some t ↔ ∃ u, run step s as = some u ∧ run step u bs = some t := by
  rw [run_append_bind, Option.bind_eq_some_iff]

theorem run_map {β : Type*} (f : β → α) : ∀ (bs : List β) (s : σ),
    run step s (bs.map f) = run (fun s b => step s (f b)) s bs
  | [], _ => rfl
  | b :: bs, s => by
    rw [List.map_cons, run, run]
    congr 1
    funext s'
    exact run_map f bs s'

/-- **A run of runs is a run.** -/
theorem run_flatMap {β : Type*} (f : β → List α) : ∀ (bs : List β) (s : σ),
    run step s (bs.flatMap f) = run (fun s b => run step s (f b)) s bs
  | [], _ => rfl
  | b :: bs, s => by
    rw [List.flatMap_cons, run_append_bind, run]
    congr 1
    funext s'
    exact run_flatMap f bs s'

/-- **An invariant every step keeps holds after every run.** -/
theorem run_inv {I : σ → Prop} (hstep : ∀ s a s', I s → step s a = some s' → I s') :
    ∀ (as : List α) (s t : σ), I s → run step s as = some t → I t
  | [], s, t, hs, h => by
    simp only [run_nil, Option.some.injEq] at h
    exact h ▸ hs
  | a :: as, s, t, hs, h => by
    obtain ⟨s', ha, hr⟩ := (run_cons s a as t).1 h
    exact run_inv hstep as s' t (hstep s a s' hs ha) hr

/-- **An invariant kept by every step that meets `P` holds after every run whose steps meet it.** -/
theorem run_inv_along {I : σ → Prop} {P : σ → α → Prop}
    (hstep : ∀ s a s', I s → P s a → step s a = some s' → I s') :
    ∀ (as : List α) (s t : σ), I s → Along step P s as → run step s as = some t → I t
  | [], s, t, hs, _, h => by
    simp only [run_nil, Option.some.injEq] at h
    exact h ▸ hs
  | a :: as, s, t, hs, hP, h => by
    obtain ⟨s', ha, hr⟩ := (run_cons s a as t).1 h
    exact run_inv_along hstep as s' t (hstep s a s' hs hP.1 ha) (hP.2 s' ha) hr

/-- **A preorder that every step respects, under an invariant, relates the ends of every run.** -/
theorem run_rel {I : σ → Prop} {R : σ → σ → Prop} (hrefl : ∀ s, R s s) (htrans : ∀ s t u, R s t → R t u → R s u)
    (hinv : ∀ s a s', I s → step s a = some s' → I s') (hstep : ∀ s a s', I s → step s a = some s' → R s s') :
    ∀ (as : List α) (s t : σ), I s → run step s as = some t → R s t
  | [], s, t, _, h => by
    simp only [run_nil, Option.some.injEq] at h
    exact h ▸ hrefl s
  | a :: as, s, t, hs, h => by
    obtain ⟨s', ha, hr⟩ := (run_cons s a as t).1 h
    exact htrans s s' t (hstep s a s' hs ha) (run_rel hrefl htrans hinv hstep as s' t (hinv s a s' hs ha) hr)

/-- **An invariant that speaks of the actions done so far**: what every step of `whole` keeps holds at its end. -/
theorem run_prefix {I : List α → σ → Prop} {whole : List α}
    (hstep : ∀ done a rest s s', whole = done ++ a :: rest → I done s → step s a = some s' → I (done ++ [a]) s') :
    ∀ (as done : List α) (s t : σ), whole = done ++ as → I done s → run step s as = some t → I whole t
  | [], done, s, t, hw, hs, h => by
    simp only [run_nil, Option.some.injEq] at h
    rw [hw, List.append_nil]
    exact h ▸ hs
  | a :: as, done, s, t, hw, hs, h => by
    obtain ⟨s', ha, hr⟩ := (run_cons s a as t).1 h
    refine run_prefix hstep as (done ++ [a]) s' t (by rw [hw]; simp) ?_ hr
    exact hstep done a as s s' hw hs ha

/-- **An invariant under which every action of `whole` is enabled**: the run reaches its end. -/
theorem run_prefix_total {I : List α → σ → Prop} {whole : List α}
    (hstep : ∀ done a rest s, whole = done ++ a :: rest → I done s → ∃ s', step s a = some s' ∧ I (done ++ [a]) s') :
    ∀ (as done : List α) (s : σ), whole = done ++ as → I done s → ∃ t, run step s as = some t ∧ I whole t
  | [], done, s, hw, hs => by
    refine ⟨s, rfl, ?_⟩
    rw [hw, List.append_nil]
    exact hs
  | a :: as, done, s, hw, hs => by
    obtain ⟨s', ha, hs'⟩ := hstep done a as s hw hs
    obtain ⟨t, hr, ht⟩ := run_prefix_total hstep as (done ++ [a]) s' (by rw [hw]; simp) hs'
    exact ⟨t, (run_cons s a as t).2 ⟨s', ha, hr⟩, ht⟩

/-- **A counting loop** whose state after `m` rounds is `g m`. -/
theorem run_range {f : σ → Nat → Option σ} {g : Nat → σ} : ∀ (n : Nat), (∀ m < n, f (g m) m = some (g (m + 1))) →
    run f (g 0) (List.range n) = some (g n)
  | 0, _ => rfl
  | n + 1, h => by
    rw [List.range_succ]
    refine (run_append (List.range n) [n] (g 0) (g (n + 1))).2 ⟨g n, run_range n (fun m hm => h m (by omega)), ?_⟩
    exact (run_cons (g n) n [] (g (n + 1))).2 ⟨g (n + 1), h n (by omega), rfl⟩

/-- **A loop that never undoes what it has done**: if every action of the list is enabled, keeps `I`, brings about
what it is meant to and undoes nothing, then the whole run ends, keeps `I` and has brought about everything. -/
theorem run_collect {ι : Type*} {I : σ → Prop} {D : ι → σ → Prop} {E : α → ι → Prop} : ∀ (as : List α) (s : σ), I s →
    (∀ a ∈ as, ∀ u, I u → ∃ u', step u a = some u' ∧ I u' ∧ (∀ i, E a i → D i u') ∧ ∀ i, D i u → D i u') →
    ∃ t, run step s as = some t ∧ I t ∧ (∀ a ∈ as, ∀ i, E a i → D i t) ∧ ∀ i, D i s → D i t
  | [], s, hs, _ => ⟨s, rfl, hs, by simp, fun _ h => h⟩
  | a :: as, s, hs, h => by
    obtain ⟨s', ha, hs', hdo, hkeep⟩ := h a (by simp) s hs
    obtain ⟨t, hr, ht, hdone, hkept⟩ := run_collect as s' hs' (fun b hb => h b (by simp [hb]))
    refine ⟨t, (run_cons s a as t).2 ⟨s', ha, hr⟩, ht, fun b hb i hi => ?_, fun i hi => hkept i (hkeep i hi)⟩
    rcases List.mem_cons.1 hb with rfl | hb
    · exact hkept i (hdo i hi)
    · exact hdone b hb i hi

/-- **A guarded step**: where `f` is `g` behind a condition on the action alone, a run of `f` is a run of `g` whose
actions all pass. -/
theorem run_guarded {f g : σ → α → Option σ} {P : α → Prop} (h : ∀ s a t, f s a = some t ↔ P a ∧ g s a = some t) :
    ∀ (as : List α) (s t : σ), run f s as = some t ↔ (∀ a ∈ as, P a) ∧ run g s as = some t
  | [], s, t => by simp
  | a :: as, s, t => by
    rw [run_cons, run_cons]
    constructor
    · rintro ⟨s', hs, hr⟩
      obtain ⟨ha, hs⟩ := (h s a s').1 hs
      obtain ⟨has, hr⟩ := (run_guarded h as s' t).1 hr
      refine ⟨fun b hb => ?_, s', hs, hr⟩
      rcases List.mem_cons.1 hb with rfl | hb
      · exact ha
      · exact has b hb
    · rintro ⟨has, s', hs, hr⟩
      exact ⟨s', (h s a s').2 ⟨has a (by simp), hs⟩, (run_guarded h as s' t).2 ⟨fun b hb => has b (by simp [hb]), hr⟩⟩

theorem Along.cons {P : σ → α → Prop} {s s' : σ} {a : α} {as : List α} (ha : step s a = some s') (hP : P s a)
    (h : Along step P s' as) : Along step P s (a :: as) := by
  refine ⟨hP, fun t ht => ?_⟩
  obtain rfl := Option.some.inj (ha.symm.trans ht)
  exact h

theorem Along.and {P : σ → α → Prop} {Q : α → Prop} : ∀ (as : List α) (s : σ), (∀ a ∈ as, Q a) → Along step P s as →
    Along step (fun s a => Q a ∧ P s a) s as
  | [], _, _, _ => trivial
  | a :: as, _, hQ, h => ⟨⟨hQ a (by simp), h.1⟩, fun s' hs => (h.2 s' hs).and as s' (fun b hb => hQ b (by simp [hb]))⟩

instance Along.decidable {P : σ → α → Prop} [∀ s a, Decidable (P s a)] :
    ∀ (as : List α) (s : σ), Decidable (Along step P s as)
  | [], _ => isTrue trivial
  | a :: as, s =>
    match h : step s a with
    | none => decidable_of_iff (P s a) (by simp [Along, h])
    | some s' =>
      have : Decidable (Along step P s' as) := Along.decidable as s'
      decidable_of_iff (P s a ∧ Along step P s' as) (by simp [Along, h])

theorem along_iff {P : σ → α → Prop} : ∀ (as : List α) (s : σ),
    Along step P s as ↔ ∀ pre a post, as = pre ++ a :: post → ∀ u, run step s pre = some u → P u a
  | [], s => by simp [Along]
  | a :: as, s => by
    simp only [Along]
    constructor
    · rintro ⟨ha, h⟩ pre b post hs u hu
      cases pre with
      | nil =>
        obtain ⟨rfl, -⟩ := List.cons.inj hs
        obtain rfl := Option.some.inj hu
        exact ha
      | cons c pre =>
        obtain ⟨rfl, htail⟩ := List.cons.inj hs
        obtain ⟨s', hs', hr⟩ := (run_cons s _ pre u).1 hu
        exact (along_iff as s').1 (h s' hs') pre b post htail u hr
    · intro h
      refine ⟨h [] a as rfl s rfl, fun s' hs' => (along_iff as s').2 (fun pre b post hs u hu => ?_)⟩
      exact h (a :: pre) b post (by rw [hs]; rfl) u ((run_cons s a pre u).2 ⟨s', hs', hu⟩)

end Runs
