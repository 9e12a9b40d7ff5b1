import CodedLLM.Runs
/-!
# Traced — partial computations that log what they do

A `Traced` computation fails, or returns a value, the next state and the events it has logged on the way.  `erase`
forgets the log; `Logs` says what a computation returns and logs from every state with a given invariant, with one
rule for each way to put computations together.
-/
universe u

def Traced (σ ε α : Type u) : Type u := σ → Option (α × σ × List ε)

namespace Traced

open Runs

variable {σ ε α β : Type u}

instance : Monad (Traced σ ε) where
  pure a := fun s => some (a, s, [])
  bind m f := fun s => (m s).bind fun r => (f r.1 r.2.1).map fun r' => (r'.1, r'.2.1, r.2.2 ++ r'.2.2)

def lift (a : Option α) : Traced σ ε α := fun s => a.map fun a => (a, s, [])

def each {ι : Type*} (body : ι → Traced σ ε PUnit) : List ι → Traced σ ε PUnit
  | [] => pure ⟨⟩
  | i :: is => do
    body i
    each body is

def fold {ι : Type*} (body : β → ι → Traced σ ε β) : List ι → β → Traced σ ε β
  | [], b => pure b
  | i :: is, b => do
    let b ← body b i
    fold body is b

/-! ## Without the log -/

def erase (m : Traced σ ε α) (s : σ) : Option (α × σ) := (m s).map fun r => (r.1, r.2.1)

@[simp] theorem erase_pure (a : α) (s : σ) : erase (pure a : Traced σ ε α) s = some (a, s) := rfl

@[simp] theorem erase_lift (a : Option α) (s : σ) : erase (lift a : Traced σ ε α) s = a.map (·, s) := by
  cases a <;> rfl

@[simp] theorem erase_bind (m : Traced σ ε α) (f : α → Traced σ ε β) (s : σ) :
    erase (m >>= f) s = (erase m s).bind fun r => erase (f r.1) r.2 := by
  unfold erase
  change ((m s).bind _).map _ = ((m s).map _).bind _
  cases m s with
  | none => rfl
  | some r =>
    simp only [Option.bind_some, Option.map_some, Option.map_map]
    rfl

theorem erase_each {ι : Type*} {body : ι → Traced σ ε PUnit} {step : σ → ι → Option σ}
    (h : ∀ i s, erase (body i) s = (step s i).map (⟨⟩, ·)) : ∀ (is : List ι) (s : σ),
    erase (each body is) s = (run step s is).map (⟨⟩, ·)
  | [], s => rfl
  | i :: is, s => by
    rw [each, erase_bind, h, run]
    cases step s i with
    | none => rfl
    | some s' => exact erase_each h is s'

theorem erase_fold {ι : Type*} {body : β → ι → Traced σ ε β} {s : σ} {step : β → ι → Option β}
    (h : ∀ b i, erase (body b i) s = (step b i).map (·, s)) : ∀ (is : List ι) (b : β),
    erase (fold body is b) s = (run step b is).map (·, s)
  | [], b => rfl
  | i :: is, b => by
    rw [fold, erase_bind, h, run]
    cases step b i with
    | none => rfl
    | some b' => exact erase_fold h is b'

/-! ## What is logged -/

/-- **From every state with `I` the computation returns `a`, logs `l` and keeps `I`.** -/
def Logs (I : σ → Prop) (m : Traced σ ε α) (a : α) (l : List ε) : Prop :=
  ∀ s, I s → ∃ s', m s = some (a, s', l) ∧ I s'

variable {I : σ → Prop}

theorem Logs.pure (a : α) : Logs I (Pure.pure a : Traced σ ε α) a [] := fun s hs => ⟨s, rfl, hs⟩

theorem Logs.lift {o : Option α} {a : α} (h : o = some a) : Logs I (Traced.lift o : Traced σ ε α) a [] := by
  subst h
  exact fun s hs => ⟨s, rfl, hs⟩

theorem Logs.bind {m : Traced σ ε α} {f : α → Traced σ ε β} {a : α} {b : β} {l l' : List ε} (hm : Logs I m a l)
    (hf : Logs I (f a) b l') : Logs I (m >>= f) b (l ++ l') := by
  intro s hs
  obtain ⟨s', hms, hs'⟩ := hm s hs
  obtain ⟨s'', hfs, hs''⟩ := hf s' hs'
  refine ⟨s'', ?_, hs''⟩
  change (m s).bind _ = _
  rw [hms, Option.bind_some, hfs]
  rfl

theorem Logs.each {ι : Type*} {body : ι → Traced σ ε PUnit} {l : ι → List ε} : ∀ (is : List ι),
    (∀ i ∈ is, Logs I (body i) ⟨⟩ (l i)) → Logs I (Traced.each body is) ⟨⟩ (is.flatMap l)
  | [], _ => Logs.pure PUnit.unit
  | i :: is, h => by
    rw [List.flatMap_cons]
    exact (h i (by simp)).bind (Logs.each is (fun j hj => h j (by simp [hj])))

theorem Logs.fold_range {f : β → Nat → Traced σ ε β} {g : Nat → β} {l : Nat → List ε} : ∀ (n start : Nat),
    (∀ j, start ≤ j → j < start + n → Logs I (f (g j) j) (g (j + 1)) (l j)) →
    Logs I (Traced.fold f (List.range' start n) (g start)) (g (start + n)) ((List.range' start n).flatMap l)
  | 0, start, _ => Logs.pure _
  | n + 1, start, h => by
    rw [List.range'_succ, List.flatMap_cons, show start + (n + 1) = start + 1 + n by omega]
    exact (h start le_rfl (by omega)).bind (Logs.fold_range n (start + 1) (fun j hj hjn => h j (by omega) (by omega)))

theorem Logs.erase {m : Traced σ ε α} {a : α} {l : List ε} (h : Logs I m a l) {s s' : σ} (hs : I s) {b : α}
    (he : Traced.erase m s = some (b, s')) : m s = some (a, s', l) := by
  obtain ⟨t, ht, -⟩ := h s hs
  unfold Traced.erase at he
  rw [ht, Option.map_some] at he
  cases he
  exact ht

end Traced
