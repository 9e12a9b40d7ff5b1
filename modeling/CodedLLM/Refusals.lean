import Mathlib
/-!
# Refusals — calls that answer, and refusals that leave no trace

A component is a total function `call : σ → α → σ × β`: every call changes the state and answers.  If the calls that are
refused leave the state as it is, they can be taken out of any sequence of calls: the others answer the same and lead to
the same state (`answers_accepted`).
-/
namespace Refusals

variable {σ α β : Type*} (call : σ → α → σ × β)

def after : σ → List α → σ
  | s, []      => s
  | s, a :: as => after (call s a).1 as

def answers : σ → List α → List (α × β)
  | _, []      => []
  | s, a :: as => (a, (call s a).2) :: answers (call s a).1 as

def accepted (refused : β → Bool) (s : σ) (as : List α) : List α :=
  ((answers call s as).filter (fun x => !refused x.2)).map Prod.fst

variable {call} {refused : β → Bool} {I : σ → Prop}

theorem inv_after : ∀ (as : List α) (s : σ), (∀ a ∈ as, ∀ s, I s → I (call s a).1) → I s → I (after call s as)
  | [], _, _, hs => hs
  | a :: as, s, h, hs => inv_after as (call s a).1 (fun b hb => h b (by simp [hb])) (h a (by simp) s hs)

/-- **Refused calls can be taken out**: the others answer the same and lead to the same state. -/
theorem answers_accepted : ∀ (as : List α) (s : σ), (∀ a ∈ as, ∀ s, I s → I (call s a).1) →
    (∀ a ∈ as, ∀ s, I s → refused (call s a).2 = true → (call s a).1 = s) → I s →
    answers call s (accepted call refused s as) = (answers call s as).filter (fun x => !refused x.2) ∧
      after call s (accepted call refused s as) = after call s as
  | [], _, _, _, _ => ⟨rfl, rfl⟩
  | a :: as, s, hinv, hkeep, hs => by
    obtain ⟨hans, hafter⟩ := answers_accepted as (call s a).1 (fun b hb => hinv b (by simp [hb]))
      (fun b hb => hkeep b (by simp [hb])) (hinv a (by simp) s hs)
    cases hr : refused (call s a).2 with
    | true =>
      have hstay : (call s a).1 = s := hkeep a (by simp) s hs hr
      have hacc : accepted call refused s (a :: as) = accepted call refused (call s a).1 as := by
        simp [accepted, answers, hr]
      rw [hstay] at hans hafter hacc
      rw [hacc]
      refine ⟨?_, ?_⟩
      · rw [hans, answers, hstay, List.filter_cons_of_neg (by simp [hr])]
      · rw [hafter, after, hstay]
    | false =>
      have hacc : accepted call refused s (a :: as) = a :: accepted call refused (call s a).1 as := by
        simp [accepted, answers, hr]
      rw [hacc]
      refine ⟨?_, hafter⟩
      rw [answers, hans, answers, List.filter_cons_of_pos (by simp [hr])]

/-- **A state that refuses everything**, and keeps doing so, refuses every call of a list. -/
theorem refused_of_closed {C : σ → Prop} : ∀ (as : List α) (s : σ),
    (∀ a ∈ as, ∀ s, C s → C (call s a).1 ∧ refused (call s a).2 = true) → C s →
    ∀ x ∈ answers call s as, refused x.2 = true
  | [], _, _, _, x, hx => by cases hx
  | a :: as, s, h, hs, x, hx => by
    obtain ⟨hs', ha⟩ := h a (by simp) s hs
    rcases List.mem_cons.1 hx with rfl | hx
    · exact ha
    · exact refused_of_closed as (call s a).1 (fun b hb => h b (by simp [hb])) hs' x hx

/-- **Nothing is accepted after a call that closes the component.** -/
theorem pairwise_of_closes {C : σ → Prop} {closes : α × β → Prop} : ∀ (as : List α) (s : σ),
    (∀ a ∈ as, ∀ s, I s → I (call s a).1 ∧ (closes (a, (call s a).2) → C (call s a).1)) →
    (∀ a ∈ as, ∀ s, C s → C (call s a).1 ∧ refused (call s a).2 = true) → I s →
    (answers call s as).Pairwise (fun x y => closes x → refused y.2 = true)
  | [], _, _, _, _ => .nil
  | a :: as, s, hinv, hclosed, hs => by
    obtain ⟨hs', hcl⟩ := hinv a (by simp) s hs
    refine .cons (fun y hy hx => ?_) (pairwise_of_closes as (call s a).1 (fun b hb => hinv b (by simp [hb]))
      (fun b hb => hclosed b (by simp [hb])) hs')
    exact refused_of_closed as (call s a).1 (fun b hb => hclosed b (by simp [hb])) (hcl hx) y hy

end Refusals
