import CodedLLM.Runs
/-!
# Progress — ranks that steps use up, and refinement with steps that leave the abstract state alone

A rank bounds how often the steps of one kind can be taken: each of them costs something, and other steps may pay
something in.  Where no such step is left the run has settled, and every state can be settled.  Nothing here is about
one particular system.
-/
namespace Runs

variable {σ τ α β : Type*} {step : σ → α → Option σ}

/-- **A rank pays for the steps**: what a run costs is covered by the rank at its start and by what was paid in on the
way. -/
theorem run_cost {I : σ → Prop} {Q : α → Prop} {rank : σ → Nat} {cost gain : α → Nat}
    (hinv : ∀ s a s', I s → step s a = some s' → I s')
    (hrank : ∀ s a s', I s → Q a → step s a = some s' → rank s' + cost a ≤ rank s + gain a) :
    ∀ (as : List α) (s t : σ), (∀ a ∈ as, Q a) → I s → run step s as = some t →
      rank t + (as.map cost).sum ≤ rank s + (as.map gain).sum
  | [], s, t, _, _, h => by
    obtain rfl := Option.some.inj h
    exact le_rfl
  | a :: as, s, t, hQ, hs, h => by
    obtain ⟨s', ha, hr⟩ := (run_cons s a as t).1 h
    have hhead := hrank s a s' hs (hQ a (by simp)) ha
    have htail := run_cost hinv hrank as s' t (fun b hb => hQ b (by simp [hb])) (hinv s a s' hs ha) hr
    simp only [List.map_cons, List.sum_cons]
    omega

theorem along_of_forall {P : α → Prop} : ∀ (as : List α) (s : σ), (∀ a ∈ as, P a) → Along step (fun _ a => P a) s as
  | [], _, _ => trivial
  | a :: as, _, h => ⟨h a (by simp), fun s' _ => along_of_forall as s' (fun b hb => h b (by simp [hb]))⟩

theorem sum_indicator (own : α → Bool) (n : Nat) : ∀ as : List α,
    (as.map (fun a => if own a = true then n else 0)).sum = n * as.countP own
  | [] => rfl
  | a :: as => by
    rw [List.map_cons, List.sum_cons, sum_indicator own n as, List.countP_cons]
    split <;> ring

theorem sum_map_set {γ : Type*} (f : γ → Nat) {l : List γ} {i : Nat} {x : γ} (hx : l[i]? = some x) (y : γ) :
    ((l.set i y).map f).sum + f x = (l.map f).sum + f y := by
  obtain ⟨hi, rfl⟩ := List.getElem?_eq_some_iff.1 hx
  have hsplit : l = l.take i ++ l[i] :: l.drop (i + 1) := by
    rw [List.getElem_cons_drop, List.take_append_drop]
  rw [List.set_eq_take_append_cons_drop, if_pos hi]
  conv => rhs; rw [hsplit]
  simp only [List.map_append, List.map_cons, List.sum_append, List.sum_cons]
  omega

theorem sum_update_add {ι : Type*} [DecidableEq ι] {γ : Type*} (f : γ → Nat) (h : ι → γ) {i : ι} {s : Finset ι}
    (hi : i ∈ s) (y : γ) : ∑ j ∈ s, f (Function.update h i y j) + f (h i) = ∑ j ∈ s, f (h j) + f y := by
  have hcomp : (fun j => f (Function.update h i y j)) = Function.update (fun j => f (h j)) i (f y) := by
    funext j
    by_cases hj : j = i
    · rw [hj, Function.update_self, Function.update_self]
    · rw [Function.update_of_ne hj, Function.update_of_ne hj]
  rw [hcomp, Finset.sum_update_of_mem hi, ← Finset.sum_sdiff (Finset.singleton_subset_iff.2 hi), Finset.sum_singleton]
  omega

/-- No action of a kind is enabled. -/
def Settled (step : σ → α → Option σ) (own : α → Bool) (s : σ) : Prop := ∀ a, own a = true → step s a = none

/-- **Every state settles**: actions of a kind that each lower the rank lead to a state where none of them is
enabled. -/
theorem exists_settled {I : σ → Prop} {rank : σ → Nat} (own : α → Bool)
    (hinv : ∀ s a s', I s → step s a = some s' → I s')
    (hrank : ∀ s a s', I s → own a = true → step s a = some s' → rank s' < rank s) :
    ∀ (n : Nat) (s : σ), rank s = n → I s →
      ∃ as t, (∀ a ∈ as, own a = true) ∧ run step s as = some t ∧ I t ∧ Settled step own t := by
  intro n
  induction n using Nat.strong_induction_on with
  | _ n ih =>
    intro s hn hs
    by_cases hset : Settled step own s
    · exact ⟨[], s, by simp, rfl, hs, hset⟩
    · simp only [Settled, not_forall] at hset
      obtain ⟨a, ha, hne⟩ := hset
      obtain ⟨s', hstep⟩ := Option.ne_none_iff_exists'.1 hne
      obtain ⟨as, t, hown, hrun, ht, hdone⟩ :=
        ih (rank s') (hn ▸ hrank s a s' hs ha hstep) s' rfl (hinv s a s' hs hstep)
      refine ⟨a :: as, t, ?_, (run_cons s a as t).2 ⟨s', hstep, hrun⟩, ht, hdone⟩
      intro b hb
      rcases List.mem_cons.1 hb with rfl | hb
      · exact ha
      · exact hown b hb

/-- **Refinement with stuttering**: where every step is a run of the other system, so is every run. -/
theorem run_refines {f : σ → α → Option σ} {g : τ → β → Option τ} {I : σ → Prop} {R : σ → τ → Prop}
    (hinv : ∀ s a s', I s → f s a = some s' → I s')
    (hstep : ∀ s a s' u, I s → R s u → f s a = some s' → ∃ bs u', run g u bs = some u' ∧ R s' u') :
    ∀ (as : List α) (s t : σ) (u : τ), I s → R s u → run f s as = some t → ∃ bs u', run g u bs = some u' ∧ R t u'
  | [], s, t, u, _, hR, h => by
    obtain rfl := Option.some.inj h
    exact ⟨[], u, rfl, hR⟩
  | a :: as, s, t, u, hs, hR, h => by
    obtain ⟨s', ha, hr⟩ := (run_cons s a as t).1 h
    obtain ⟨bs, u', hbs, hR'⟩ := hstep s a s' u hs hR ha
    obtain ⟨cs, u'', hcs, hR''⟩ := run_refines hinv hstep as s' t u' (hinv s a s' hs ha) hR' hr
    exact ⟨bs ++ cs, u'', (run_append bs cs u u'').2 ⟨u', hbs, hcs⟩, hR''⟩

end Runs
