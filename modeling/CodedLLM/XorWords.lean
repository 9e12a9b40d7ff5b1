import Mathlib
/-!
# XorWords — pointwise combination of word lists under a self-inverse operation

Lists of words under the pointwise lift of a commutative, associative operation with a neutral word, in which every
word cancels itself (`Laws`).  `combineAll` is the accumulator loop that starts from `n` neutral words and folds the
inputs in.
-/
namespace XorWords

variable {α : Type*}

/-- **A self-inverse commutative operation**: `op` behaves as exclusive or does. -/
structure Laws (op : α → α → α) (zero : α) : Prop where
  comm : ∀ a b, op a b = op b a
  assoc : ∀ a b c, op (op a b) c = op a (op b c)
  zeroLeft : ∀ a, op zero a = a
  self : ∀ a, op a a = zero

def combine (op : α → α → α) (acc input : List α) : List α := List.zipWith op acc input

def combineAll (op : α → α → α) (zero : α) (n : Nat) (inputs : List (List α)) : List α :=
  inputs.foldl (combine op) (List.replicate n zero)

theorem length_combine {op : α → α → α} {acc input : List α} {n : Nat} (ha : acc.length = n) (hi : input.length = n) :
    (combine op acc input).length = n := by
  simp [combine, ha, hi]

theorem length_foldl_combine {op : α → α → α} {n : Nat} : ∀ (inputs : List (List α)) (acc : List α), acc.length = n →
    (∀ w ∈ inputs, w.length = n) → (inputs.foldl (combine op) acc).length = n
  | [], _, ha, _ => ha
  | w :: ws, acc, ha, h => by
    rw [List.foldl_cons]
    exact length_foldl_combine ws _ (length_combine ha (h w (by simp))) (fun x hx => h x (by simp [hx]))

theorem length_combineAll {op : α → α → α} {zero : α} {n : Nat} (inputs : List (List α))
    (h : ∀ w ∈ inputs, w.length = n) : (combineAll op zero n inputs).length = n :=
  length_foldl_combine inputs _ (by simp) h

theorem getElem?_foldl_combine {op : α → α → α} {n i : Nat} (hi : i < n) : ∀ (inputs : List (List α)) (acc : List α)
    (x : α), acc[i]? = some x → (∀ w ∈ inputs, w.length = n) →
    (inputs.foldl (combine op) acc)[i]? = some ((inputs.filterMap (·[i]?)).foldl op x)
  | [], _, _, ha, _ => ha
  | w :: ws, acc, x, ha, h => by
    have hw : i < w.length := by rw [h w (by simp)]; exact hi
    have hc : (combine op acc w)[i]? = some (op x w[i]) := by
      simp [combine, List.getElem?_zipWith, ha, List.getElem?_eq_getElem hw]
    rw [List.foldl_cons, getElem?_foldl_combine hi ws _ _ hc (fun y hy => h y (by simp [hy]))]
    simp [List.getElem?_eq_getElem hw]

/-- **Word `i` of the loop's result is the fold of the inputs' words `i`.** -/
theorem getElem?_combineAll {op : α → α → α} {zero : α} {n i : Nat} (hi : i < n) (inputs : List (List α))
    (h : ∀ w ∈ inputs, w.length = n) :
    (combineAll op zero n inputs)[i]? = some ((inputs.filterMap (·[i]?)).foldl op zero) :=
  getElem?_foldl_combine hi inputs _ zero (by simp [hi]) h

variable {op : α → α → α} {zero : α} (L : Laws op zero)

include L

theorem combine_comm (a b : List α) : combine op a b = combine op b a := by
  unfold combine
  rw [List.zipWith_comm]
  congr 1
  funext x y
  exact L.comm _ _

theorem combine_assoc : ∀ (a b c : List α), combine op (combine op a b) c = combine op a (combine op b c)
  | [], _, _ => by simp [combine]
  | _ :: _, [], _ => by simp [combine]
  | _ :: _, _ :: _, [] => by simp [combine]
  | x :: a, y :: b, z :: c => by
    have ih := combine_assoc a b c
    simp only [combine, List.zipWith_cons_cons, List.cons.injEq] at ih ⊢
    exact ⟨L.assoc x y z, ih⟩

theorem replicate_combine : ∀ (n : Nat) (a : List α), a.length = n → combine op (List.replicate n zero) a = a
  | 0, a, h => by
    rw [List.length_eq_zero_iff.1 h]
    rfl
  | n + 1, x :: a, h => by
    have ih := replicate_combine n a (by simpa using h)
    simp only [combine, List.replicate_succ, List.zipWith_cons_cons] at ih ⊢
    rw [ih, L.zeroLeft]

theorem combineAll_perm {n : Nat} {us ws : List (List α)} (h : us.Perm ws) :
    combineAll op zero n us = combineAll op zero n ws := by
  have : RightCommutative (combine op) :=
    ⟨fun a b c => by rw [combine_assoc L, combine_comm L b c, ← combine_assoc L]⟩
  exact h.foldl_eq _

theorem foldl_combine_combine : ∀ (ws : List (List α)) (a acc : List α),
    ws.foldl (combine op) (combine op a acc) = combine op a (ws.foldl (combine op) acc)
  | [], _, _ => rfl
  | w :: ws, a, acc => by
    rw [List.foldl_cons, List.foldl_cons, combine_assoc L, foldl_combine_combine ws a]

theorem combineAll_cons (n : Nat) (w : List α) (ws : List (List α)) :
    combineAll op zero n (w :: ws) = combine op w (combineAll op zero n ws) := by
  unfold combineAll
  rw [List.foldl_cons, combine_comm L, foldl_combine_combine L]

theorem combine_self : ∀ (a : List α), combine op a a = List.replicate a.length zero
  | [] => rfl
  | x :: a => by
    have ih := combine_self a
    simp only [combine, List.zipWith_cons_cons, List.length_cons, List.replicate_succ] at ih ⊢
    rw [ih, L.self]

theorem combine_cancel {a b : List α} (h : a.length = b.length) : combine op (combine op a b) b = a := by
  rw [combine_assoc L, combine_self L, combine_comm L]
  exact replicate_combine L _ _ h

/-- **Erasure recovery of one input**: the total of all inputs, combined with all inputs but one, is that one. -/
theorem combineAll_recover {n : Nat} (x : List α) (ws : List (List α)) (hx : x.length = n)
    (hw : ∀ w ∈ ws, w.length = n) :
    combineAll op zero n (combineAll op zero n (x :: ws) :: ws) = x := by
  have hlen : x.length = (combineAll op zero n ws).length := by rw [hx, length_combineAll ws hw]
  rw [combineAll_cons L, combineAll_cons L]
  exact combine_cancel L hlen

end XorWords
