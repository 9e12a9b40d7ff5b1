import CodedLLM.Runs
/-!
# Core — ids, words, shard slots and exceptions

The vocabulary every other module uses.  Shard ids (the source's 32-bit `ShardId`) and request ids (`std::size_t`) are
`Nat`; where the source casts to the narrow type, or wraps in it, the model says so (`toShardId`).  A shard is a list of
32-bit words, and the slot vector holds one optional shard per id.  An exception is its class and its text.
-/
namespace CodedLLM

abbrev ShardWord := UInt32
abbrev WordShard := List ShardWord
abbrev ShardSlots := List (Option WordShard)

def shardIdMax : Nat := 2 ^ 32 - 1

/-- `static_cast<ShardId>` of a `std::size_t`. -/
def toShardId (n : Nat) : Nat := n % 2 ^ 32

inductive Exn where
  | invalidArgument (text : String)
  | logicError (text : String)
  | runtimeError (text : String)
  | outOfRange (text : String)
  | lengthError (text : String)
  deriving DecidableEq, Repr

def Exn.what : Exn → String
  | .invalidArgument t => t
  | .logicError t      => t
  | .runtimeError t    => t
  | .outOfRange t      => t
  | .lengthError t     => t

/-- What `std::vector::at` throws. -/
def vectorAt : Exn := .outOfRange "vector::_M_range_check"

/-- What a constructor of `std::vector` throws for more elements than `max_size()`. -/
def vectorTooLarge : Exn := .lengthError "cannot create std::vector larger than max_size()"

/-- What `std::vector::reserve` throws there. -/
def reserveTooLarge : Exn := .lengthError "vector::reserve"

/-- **How a call that updates `σ` in place ends**: it returns, or it throws and leaves what it had updated so far. -/
inductive Outcome (σ : Type) where
  | returns (state : σ)
  | throws (state : σ) (exn : Exn)
  deriving DecidableEq, Repr

def Outcome.state {σ : Type} : Outcome σ → σ
  | .returns s  => s
  | .throws s _ => s

def Outcome.returned {σ : Type} : Outcome σ → Option σ
  | .returns s  => some s
  | .throws _ _ => none

/-- A loop whose body only checks: it stops at the first element whose check throws. -/
def forEach {α : Type} (body : α → Except Exn Unit) : List α → Except Exn Unit
  | []      => .ok ()
  | a :: as =>
    match body a with
    | .error e => .error e
    | .ok ()   => forEach body as

theorem forEach_ok {α : Type} (body : α → Except Exn Unit) : ∀ (as : List α),
    forEach body as = .ok () ↔ ∀ a ∈ as, body a = .ok ()
  | [] => by simp [forEach]
  | a :: as => by
    unfold forEach
    cases h : body a with
    | error e => simp [h]
    | ok u => simp [h, forEach_ok body as]

/-- A loop over local state: it stops at the first element whose body throws. -/
def loop {ε σ α : Type} (body : σ → α → Except ε σ) : List α → σ → Except ε σ
  | [], s => .ok s
  | a :: as, s =>
    match body s a with
    | .error e => .error e
    | .ok s'   => loop body as s'

/-- A loop that updates `σ` in place: a throw keeps what the elements before it have done. -/
def loopInPlace {σ α : Type} (body : σ → α → Outcome σ) : List α → σ → Outcome σ
  | [], s => .returns s
  | a :: as, s =>
    match body s a with
    | .throws s' e => .throws s' e
    | .returns s'  => loopInPlace body as s'

theorem toOption_eq_some {ε α : Type} {x : Except ε α} {a : α} : x.toOption = some a ↔ x = .ok a := by
  cases x <;> simp [Except.toOption]

/-- **Two calls end alike**: both throw, or both return the same value. -/
def SameOutcome {α : Type} (x y : Except Exn α) : Prop :=
  (∃ e e', x = .error e ∧ y = .error e') ∨ ∃ a, x = .ok a ∧ y = .ok a

theorem SameOutcome.of_eq {α : Type} {x y : Except Exn α} (h : x = y) : SameOutcome x y := by
  subst h
  cases x with
  | error e => exact .inl ⟨e, e, rfl, rfl⟩
  | ok a => exact .inr ⟨a, rfl, rfl⟩

theorem loop_cons_ok {ε σ α : Type} {body : σ → α → Except ε σ} {a : α} {as : List α} {s t : σ} :
    loop body (a :: as) s = .ok t ↔ ∃ u, body s a = .ok u ∧ loop body as u = .ok t := by
  rw [loop]
  cases body s a with
  | error e => simp
  | ok u => simp

theorem loop_eq_run {ε σ α : Type} {body : σ → α → Except ε σ} : ∀ (as : List α) (s t : σ),
    loop body as s = .ok t ↔ Runs.run (fun s a => (body s a).toOption) s as = some t
  | [], s, t => by simp [loop]
  | a :: as, s, t => by
    rw [Runs.run_cons]
    unfold loop
    cases h : body s a with
    | error e => simp [Except.toOption]
    | ok s' => simp [Except.toOption, loop_eq_run as s' t]

theorem loop_guarded {ε σ α : Type} {body body' : σ → α → Except ε σ} {P : α → Prop}
    (h : ∀ s a t, body s a = .ok t ↔ P a ∧ body' s a = .ok t) (as : List α) (s t : σ) :
    loop body as s = .ok t ↔ (∀ a ∈ as, P a) ∧ loop body' as s = .ok t := by
  rw [loop_eq_run, loop_eq_run]
  refine Runs.run_guarded (fun s a t => ?_) as s t
  rw [toOption_eq_some, toOption_eq_some]
  exact h s a t

theorem bind_eq_ok {ε α β : Type} {x : Except ε α} {f : α → Except ε β} {b : β} :
    (x >>= f) = .ok b ↔ ∃ a, x = .ok a ∧ f a = .ok b := by
  cases x with
  | error e => simp [bind, Except.bind]
  | ok a => simp [bind, Except.bind]

/-- **An invariant every round keeps holds after the loop.** -/
theorem loop_inv {ε σ α : Type} {body : σ → α → Except ε σ} {I : σ → Prop} : ∀ (as : List α),
    (∀ s, ∀ a ∈ as, ∀ s', I s → body s a = .ok s' → I s') → ∀ (s t : σ), I s → loop body as s = .ok t → I t
  | [], _, s, t, hs, h => by
    obtain rfl := Except.ok.inj h
    exact hs
  | a :: as, hbody, s, t, hs, h => by
    obtain ⟨s', ha, hrest⟩ := loop_cons_ok.1 h
    exact loop_inv as (fun u b hb => hbody u b (by simp [hb])) s' t (hbody s a (by simp) s' hs ha) hrest

theorem loop_range {ε σ : Type} {body : σ → Nat → Except ε σ} {g : Nat → σ} (n : Nat)
    (h : ∀ m < n, body (g m) m = .ok (g (m + 1))) : loop body (List.range n) (g 0) = .ok (g n) := by
  refine (loop_eq_run _ _ _).2 (Runs.run_range n (fun m hm => ?_))
  rw [h m hm]
  rfl

/-- `Runs.run_collect` for a loop over local state. -/
theorem loop_collect {ε σ α ι : Type} {body : σ → α → Except ε σ} {I : σ → Prop} {D : ι → σ → Prop}
    {E : α → ι → Prop} (as : List α) (s : σ) (hs : I s)
    (h : ∀ a ∈ as, ∀ u, I u → ∃ u', body u a = .ok u' ∧ I u' ∧ (∀ i, E a i → D i u') ∧ ∀ i, D i u → D i u') :
    ∃ t, loop body as s = .ok t ∧ I t ∧ (∀ a ∈ as, ∀ i, E a i → D i t) ∧ ∀ i, D i s → D i t := by
  have hstep : ∀ a ∈ as, ∀ u, I u → ∃ u', (fun s a => (body s a).toOption) u a = some u' ∧ I u' ∧
      (∀ i, E a i → D i u') ∧ ∀ i, D i u → D i u' := by
    intro a ha u hu
    obtain ⟨u', hb, hu'⟩ := h a ha u hu
    exact ⟨u', by simp only [hb]; rfl, hu'⟩
  obtain ⟨t, hr, ht⟩ := Runs.run_collect as s hs hstep
  exact ⟨t, (loop_eq_run as s t).2 hr, ht⟩

theorem loopInPlace_eq_run {σ α : Type} {body : σ → α → Outcome σ} : ∀ (as : List α) (s t : σ),
    loopInPlace body as s = .returns t ↔ Runs.run (fun s a => (body s a).returned) s as = some t
  | [], s, t => by simp [loopInPlace]
  | a :: as, s, t => by
    rw [Runs.run_cons]
    unfold loopInPlace
    cases h : body s a with
    | throws s' e => simp [Outcome.returned]
    | returns s' => simp [Outcome.returned, loopInPlace_eq_run as s' t]

theorem Outcome.returned_eq_some {σ : Type} {o : Outcome σ} {s : σ} : o.returned = some s ↔ o = .returns s := by
  cases o <;> simp [Outcome.returned]

theorem loopInPlace_guarded {σ α : Type} {body body' : σ → α → Outcome σ} {P : α → Prop}
    (h : ∀ s a t, body s a = .returns t ↔ P a ∧ body' s a = .returns t) (as : List α) (s t : σ) :
    loopInPlace body as s = .returns t ↔ (∀ a ∈ as, P a) ∧ loopInPlace body' as s = .returns t := by
  rw [loopInPlace_eq_run, loopInPlace_eq_run]
  refine Runs.run_guarded (fun s a t => ?_) as s t
  rw [Outcome.returned_eq_some, Outcome.returned_eq_some]
  exact h s a t

theorem loopInPlace_append {σ α : Type} {body : σ → α → Outcome σ} : ∀ (as bs : List α) (s : σ),
    loopInPlace body (as ++ bs) s =
      match loopInPlace body as s with
      | .throws s' e => .throws s' e
      | .returns s' => loopInPlace body bs s'
  | [], _, _ => rfl
  | a :: as, bs, s => by
    rw [List.cons_append, loopInPlace, loopInPlace]
    cases body s a with
    | throws s' e => rfl
    | returns s' => exact loopInPlace_append as bs s'

theorem loopInPlace_map {σ α β : Type} {body : σ → β → Outcome σ} (f : α → β) : ∀ (as : List α) (s : σ),
    loopInPlace body (as.map f) s = loopInPlace (fun s a => body s (f a)) as s
  | [], _ => rfl
  | a :: as, s => by
    rw [List.map_cons, loopInPlace, loopInPlace]
    cases body s (f a) with
    | throws s' e => rfl
    | returns s' => exact loopInPlace_map f as s'

theorem loopInPlace_flatMap {σ α β : Type} {body : σ → β → Outcome σ} {outer : σ → α → Outcome σ} {f : α → List β}
    (h : ∀ s a, outer s a = loopInPlace body (f a) s) : ∀ (as : List α) (s : σ),
    loopInPlace outer as s = loopInPlace body (as.flatMap f) s
  | [], _ => rfl
  | a :: as, s => by
    rw [List.flatMap_cons, loopInPlace_append, loopInPlace, h s a]
    cases loopInPlace body (f a) s with
    | throws s' e => rfl
    | returns s' => exact loopInPlace_flatMap h as s'

/-- **What every round keeps, however it ends**, holds of what the loop leaves. -/
theorem loopInPlace_state {σ α : Type} {body : σ → α → Outcome σ} {I : σ → Prop} (h : ∀ s a, I s → I (body s a).state) :
    ∀ (as : List α) (s : σ), I s → I (loopInPlace body as s).state
  | [], _, hs => hs
  | a :: as, s, hs => by
    have ha := h s a hs
    rw [loopInPlace]
    cases hb : body s a with
    | throws s' e =>
      rw [hb] at ha
      exact ha
    | returns s' =>
      rw [hb] at ha
      exact loopInPlace_state h as s' ha

def Outcome.Alike {σ : Type} (R : σ → σ → Prop) : Outcome σ → Outcome σ → Prop
  | .returns s, .returns s'   => R s s'
  | .throws _ e, .throws _ e' => e = e'
  | _, _                      => False

/-- **Two loops in step**: rounds that end alike from related states make loops that end alike. -/
theorem loopInPlace_alike {σ α : Type} {body : σ → α → Outcome σ} {R : σ → σ → Prop}
    (h : ∀ s s' a, R s s' → (body s a).Alike R (body s' a)) : ∀ (as : List α) (s s' : σ), R s s' →
    (loopInPlace body as s).Alike R (loopInPlace body as s')
  | [], _, _, hs => hs
  | a :: as, s, s', hs => by
    have ha := h s s' a hs
    rw [loopInPlace, loopInPlace]
    cases hb : body s a with
    | throws u e =>
      cases hb' : body s' a with
      | throws u' e' =>
        rw [hb, hb'] at ha
        exact ha
      | returns u' =>
        rw [hb, hb'] at ha
        exact ha.elim
    | returns u =>
      cases hb' : body s' a with
      | throws u' e' =>
        rw [hb, hb'] at ha
        exact ha.elim
      | returns u' =>
        rw [hb, hb'] at ha
        exact loopInPlace_alike h as u u' ha

/-! ## Slots -/

/-- The shard in slot `i`, if `i` is a slot and `shards.at(i).has_value()`. -/
def slotAt (slots : ShardSlots) (i : Nat) : Option WordShard := slots[i]?.join

theorem slotAt_of_length_le {slots : ShardSlots} {i : Nat} (h : slots.length ≤ i) : slotAt slots i = none := by
  simp [slotAt, List.getElem?_eq_none h]

theorem slotAt_eq_some {slots : ShardSlots} {i : Nat} {w : WordShard} :
    slotAt slots i = some w ↔ slots[i]? = some (some w) := by
  unfold slotAt
  cases slots[i]? <;> simp

theorem lt_length_of_slotAt {slots : ShardSlots} {i : Nat} {w : WordShard} (h : slotAt slots i = some w) :
    i < slots.length := by
  by_contra hn
  rw [slotAt_of_length_le (Nat.le_of_not_lt hn)] at h
  cases h

theorem slotAt_set {slots : ShardSlots} {i : Nat} (hi : i < slots.length) (v : Option WordShard) (j : Nat) :
    slotAt (slots.set i v) j = if j = i then v else slotAt slots j := by
  unfold slotAt
  by_cases hji : j = i
  · subst hji
    simp [hi]
  · simp [Ne.symm hji, hji]

theorem slots_ext {a b : ShardSlots} (hlen : a.length = b.length) (h : ∀ i, slotAt a i = slotAt b i) : a = b := by
  apply List.ext_getElem?
  intro i
  by_cases hi : i < a.length
  · have hb : i < b.length := hlen ▸ hi
    have := h i
    simp only [slotAt, List.getElem?_eq_getElem hi, List.getElem?_eq_getElem hb, Option.join_some] at this
    rw [List.getElem?_eq_getElem hi, List.getElem?_eq_getElem hb, this]
  · rw [List.getElem?_eq_none (Nat.le_of_not_lt hi), List.getElem?_eq_none (by omega)]

/-! ## Plans -/

structure XorOperation where
  output : Nat
  sources : List Nat
  deriving DecidableEq, Repr

/-- `dependencies[i]` lists the operations that must complete before `operations[i]`. -/
structure DecodePlan where
  operations : List XorOperation
  dependencies : List (List Nat)
  isRecoverable : Bool
  deriving DecidableEq, Repr

def DecodePlan.unrecoverable : DecodePlan := ⟨[], [], false⟩

end CodedLLM
