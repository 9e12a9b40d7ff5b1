import CodedLLM.Runs
/-!
# Dataflow — single-assignment operations over a partial store

An operation reads some cells of a store and fills one empty cell with a value computed from what it read.  A list of
operations that runs to the end does so in every order that keeps producers before consumers, with the same final
store (`run_exec_perm`): a successful run is a `Solution`, which does not mention an order, together with a `Ready`
order. `assign` is the same operation without its checks, for code that has validated a list beforehand and then runs
it blindly.
-/
namespace Dataflow

open Runs

variable {ι V W O : Type*}

/-- Which cell an operation fills, which cells it reads, and how it computes its value from theirs. -/
structure Code (ι V O : Type*) where
  out : O → ι
  srcs : O → List ι
  eval : List V → Option V

/-- The value an operation computes from a store; `none` if a cell it reads is empty, or `eval` refuses. -/
def Code.value (C : Code ι V O) (st : ι → Option V) (o : O) : Option V := ((C.srcs o).mapM st).bind C.eval

theorem mapM_congr {f g : ι → Option V} : ∀ (l : List ι), (∀ x ∈ l, f x = g x) → l.mapM f = l.mapM g
  | [], _ => rfl
  | x :: l, h => by
    rw [List.mapM_cons, List.mapM_cons, h x (by simp), mapM_congr l (fun y hy => h y (by simp [hy]))]

theorem mapM_map (st : ι → Option V) (h : V → W) : ∀ (l : List ι),
    l.mapM (fun x => (st x).map h) = (l.mapM st).map (List.map h)
  | [] => rfl
  | x :: l => by
    rw [List.mapM_cons, List.mapM_cons, mapM_map st h l]
    cases st x <;> cases l.mapM st <;> rfl

theorem mapM_cons_eq_some {f : ι → Option V} {x : ι} {l : List ι} {vs : List V} :
    (x :: l).mapM f = some vs ↔ ∃ v ws, f x = some v ∧ l.mapM f = some ws ∧ vs = v :: ws := by
  rw [List.mapM_cons]
  cases f x with
  | none => simp
  | some v =>
    cases l.mapM f with
    | none => simp
    | some ws => simp [eq_comm]

theorem length_of_mapM {f : ι → Option V} : ∀ (l : List ι) (vs : List V), l.mapM f = some vs → vs.length = l.length
  | [], vs, h => by
    obtain rfl : [] = vs := Option.some.inj h
    rfl
  | x :: l, vs, h => by
    obtain ⟨v, ws, -, hws, rfl⟩ := mapM_cons_eq_some.1 h
    rw [List.length_cons, List.length_cons, length_of_mapM l ws hws]

theorem getElem?_of_mapM {f : ι → Option V} : ∀ (l : List ι) (vs : List V), l.mapM f = some vs →
    ∀ (j : Nat), vs[j]? = l[j]?.bind f
  | [], vs, h, j => by
    obtain rfl : [] = vs := Option.some.inj h
    rfl
  | x :: l, vs, h, j => by
    obtain ⟨v, ws, hv, hws, rfl⟩ := mapM_cons_eq_some.1 h
    cases j with
    | zero => exact hv.symm
    | succ j => exact getElem?_of_mapM l ws hws j

theorem mem_of_mapM {f : ι → Option V} {l : List ι} {vs : List V} (h : l.mapM f = some vs) {v : V} (hv : v ∈ vs) :
    ∃ x ∈ l, f x = some v := by
  obtain ⟨j, hj⟩ := List.mem_iff_getElem?.1 hv
  rw [getElem?_of_mapM l vs h] at hj
  obtain ⟨x, hx, hfx⟩ := Option.bind_eq_some_iff.1 hj
  exact ⟨x, List.mem_of_getElem? hx, hfx⟩

theorem mem_mapM {f : ι → Option V} {l : List ι} {vs : List V} (h : l.mapM f = some vs) {x : ι} (hx : x ∈ l) :
    ∃ v ∈ vs, f x = some v := by
  obtain ⟨j, hj⟩ := List.mem_iff_getElem?.1 hx
  have hlt : j < vs.length := by
    rw [length_of_mapM l vs h]
    exact (List.getElem?_eq_some_iff.1 hj).1
  have hget := getElem?_of_mapM l vs h j
  rw [hj, Option.bind_some, List.getElem?_eq_getElem hlt] at hget
  exact ⟨vs[j], List.getElem_mem hlt, hget.symm⟩

theorem mapM_forall₂ {f : ι → Option V} {R : ι → V → Prop} : ∀ (l : List ι), (∀ x ∈ l, ∃ v, f x = some v ∧ R x v) →
    ∃ vs, l.mapM f = some vs ∧ List.Forall₂ R l vs
  | [], _ => ⟨[], rfl, .nil⟩
  | x :: l, h => by
    obtain ⟨v, hv, hR⟩ := h x (by simp)
    obtain ⟨vs, hvs, hRs⟩ := mapM_forall₂ l (fun y hy => h y (by simp [hy]))
    exact ⟨v :: vs, mapM_cons_eq_some.2 ⟨v, vs, hv, hvs, rfl⟩, .cons hR hRs⟩

theorem Code.value_congr (C : Code ι V O) {st st' : ι → Option V} {o : O} (h : ∀ x ∈ C.srcs o, st x = st' x) :
    C.value st o = C.value st' o := by
  unfold Code.value
  rw [mapM_congr _ h]

theorem Code.isSome_of_value {C : Code ι V O} {st : ι → Option V} {o : O} {v : V} (h : C.value st o = some v) :
    ∀ x ∈ C.srcs o, (st x).isSome := by
  intro x hx
  obtain ⟨vs, hvs, -⟩ := Option.bind_eq_some_iff.1 h
  obtain ⟨v, -, hv⟩ := mem_mapM hvs hx
  rw [hv]
  rfl

variable (C : Code ι V O)

/-- **What the final store of a run is**, without its order: only outputs change, every output was empty, no two
operations share one, and each output holds its operation's value. -/
structure Code.Solution (st final : ι → Option V) (ops : List O) : Prop where
  frame : ∀ x, x ∉ ops.map C.out → final x = st x
  fresh : ∀ o ∈ ops, st (C.out o) = none
  nodup : (ops.map C.out).Nodup
  value : ∀ o ∈ ops, ∃ v, C.value final o = some v ∧ final (C.out o) = some v

/-- **An order that keeps producers first**: every cell an operation reads is filled at the start or by an earlier
one. -/
def Code.Ready (st : ι → Option V) (ops : List O) : Prop :=
  ∀ pre o post, ops = pre ++ o :: post → ∀ x ∈ C.srcs o, (st x).isSome ∨ x ∈ pre.map C.out

variable {C}

theorem Code.Solution.perm {st final : ι → Option V} {ops ops' : List O} (h : C.Solution st final ops)
    (hp : ops'.Perm ops) : C.Solution st final ops' where
  frame x hx := h.frame x (fun hm => hx ((hp.map C.out).mem_iff.2 hm))
  fresh o ho := h.fresh o (hp.mem_iff.1 ho)
  nodup := (hp.map C.out).nodup_iff.2 h.nodup
  value o ho := h.value o (hp.mem_iff.1 ho)

theorem Code.Solution.kept {st final : ι → Option V} {ops : List O} (h : C.Solution st final ops) {x : ι}
    (hx : (st x).isSome) : final x = st x := by
  refine h.frame x (fun hm => ?_)
  obtain ⟨o, ho, rfl⟩ := List.mem_map.1 hm
  rw [h.fresh o ho] at hx
  cases hx

theorem Code.Solution.out_notMem_srcs {st final : ι → Option V} {ops : List O} (h : C.Solution st final ops)
    (hr : C.Ready st ops) {o : O} (ho : o ∈ ops) : C.out o ∉ C.srcs o := by
  intro hm
  obtain ⟨pre, post, hs⟩ := List.append_of_mem ho
  rcases hr pre o post hs _ hm with h1 | h1
  · rw [h.fresh o ho] at h1
    cases h1
  · have hnd := h.nodup
    rw [hs, List.map_append, List.map_cons, List.nodup_append] at hnd
    exact hnd.2.2 _ h1 _ (by simp) rfl

variable [DecidableEq ι]

variable (C) in
/-- One checked operation: the output cell is empty and the sources have a value. -/
def Code.exec (st : ι → Option V) (o : O) : Option (ι → Option V) :=
  if (st (C.out o)).isSome then none else (C.value st o).map (fun v => Function.update st (C.out o) (some v))

theorem Code.exec_eq_some {st st' : ι → Option V} {o : O} :
    C.exec st o = some st' ↔
      st (C.out o) = none ∧ ∃ v, C.value st o = some v ∧ st' = Function.update st (C.out o) (some v) := by
  unfold Code.exec
  cases hst : st (C.out o) with
  | some w => simp
  | none =>
    simp only [Option.isSome_none, Bool.false_eq_true, if_false, Option.map_eq_some_iff, true_and]
    constructor
    · rintro ⟨v, hv, rfl⟩
      exact ⟨v, hv, rfl⟩
    · rintro ⟨v, hv, rfl⟩
      exact ⟨v, hv, rfl⟩

/-- **A run that ends is a solution, in an order that was ready.** -/
theorem solution_of_run : ∀ (ops : List O) (st final : ι → Option V), run C.exec st ops = some final →
    C.Solution st final ops ∧ C.Ready st ops
  | [], st, final, h => by
    simp only [run_nil, Option.some.injEq] at h
    subst h
    refine ⟨⟨fun _ _ => rfl, by simp, by simp, by simp⟩, fun pre o post hs => ?_⟩
    cases pre <;> cases hs
  | o :: ops, st, final, h => by
    obtain ⟨st', he, hr⟩ := (run_cons st o ops final).1 h
    obtain ⟨hnone, v, hv, rfl⟩ := Code.exec_eq_some.1 he
    obtain ⟨hsol, hready⟩ := solution_of_run ops _ final hr
    have hsrc : ∀ x ∈ C.srcs o, x ≠ C.out o := fun x hx hxo => by
      have := Code.isSome_of_value hv x hx
      rw [hxo, hnone] at this
      cases this
    have hnew : ∀ o' ∈ ops, C.out o' ≠ C.out o := fun o' ho' he' => by
      have := hsol.fresh o' ho'
      rw [he', Function.update_self] at this
      cases this
    have hnot : C.out o ∉ ops.map C.out := fun hm => by
      obtain ⟨o', ho', he'⟩ := List.mem_map.1 hm
      exact hnew o' ho' he'
    refine ⟨⟨fun x hx => ?_, fun o' ho' => ?_, ?_, fun o' ho' => ?_⟩, fun pre o' post hs x hx => ?_⟩
    · simp only [List.map_cons, List.mem_cons, not_or] at hx
      rw [hsol.frame x hx.2, Function.update_of_ne hx.1]
    · rcases List.mem_cons.1 ho' with rfl | ho'
      · exact hnone
      · have := hsol.fresh o' ho'
        rwa [Function.update_of_ne (hnew o' ho')] at this
    · exact List.nodup_cons.2 ⟨hnot, hsol.nodup⟩
    · rcases List.mem_cons.1 ho' with rfl | ho'
      · refine ⟨v, ?_, by rw [hsol.frame _ hnot, Function.update_self]⟩
        rw [← hv]
        refine C.value_congr (fun x hx => ?_)
        have hsome : (Function.update st (C.out o') (some v) x).isSome := by
          rw [Function.update_of_ne (hsrc x hx)]
          exact Code.isSome_of_value hv x hx
        rw [hsol.kept hsome, Function.update_of_ne (hsrc x hx)]
      · exact hsol.value o' ho'
    · cases pre with
      | nil =>
        simp only [List.nil_append, List.cons.injEq] at hs
        obtain ⟨rfl, rfl⟩ := hs
        exact .inl (Code.isSome_of_value hv x hx)
      | cons p pre =>
        simp only [List.cons_append, List.cons.injEq] at hs
        obtain ⟨rfl, rfl⟩ := hs
        rcases hready pre o' post rfl x hx with h1 | h1
        · by_cases hxo : x = C.out o
          · exact .inr (by simp [hxo])
          · rw [Function.update_of_ne hxo] at h1
            exact .inl h1
        · exact .inr (by simp [h1])

/-- **A solution is what every ready order runs to.** -/
theorem run_of_solution : ∀ (ops : List O) (st final : ι → Option V), C.Solution st final ops → C.Ready st ops →
    run C.exec st ops = some final
  | [], st, final, h, _ => by
    rw [run_nil, Option.some.injEq]
    funext x
    exact (h.frame x (by simp)).symm
  | o :: ops, st, final, h, hr => by
    obtain ⟨v, hv, hout⟩ := h.value o (by simp)
    have hsrc : ∀ x ∈ C.srcs o, (st x).isSome := fun x hx => by
      rcases hr [] o ops rfl x hx with h1 | h1
      · exact h1
      · cases h1
    have hv' : C.value st o = some v := by
      rw [← hv]
      exact C.value_congr (fun x hx => (h.kept (hsrc x hx)).symm)
    have hnd := List.nodup_cons.1 h.nodup
    have hnew : ∀ o' ∈ ops, C.out o' ≠ C.out o := fun o' ho' he' => hnd.1 (he' ▸ List.mem_map.2 ⟨o', ho', rfl⟩)
    refine (run_cons st o ops final).2 ⟨_, Code.exec_eq_some.2 ⟨h.fresh o (by simp), v, hv', rfl⟩, ?_⟩
    refine run_of_solution ops _ final ⟨fun x hx => ?_, fun o' ho' => ?_, hnd.2, fun o' ho' => ?_⟩ ?_
    · by_cases hxo : x = C.out o
      · rw [hxo, Function.update_self, hout]
      · rw [Function.update_of_ne hxo]
        exact h.frame x (by simp only [List.map_cons, List.mem_cons, not_or]; exact ⟨hxo, hx⟩)
    · rw [Function.update_of_ne (hnew o' ho')]
      exact h.fresh o' (by simp [ho'])
    · exact h.value o' (by simp [ho'])
    · intro pre o' post hs x hx
      by_cases hxo : x = C.out o
      · exact .inl (by rw [hxo, Function.update_self]; rfl)
      · rcases hr (o :: pre) o' post (by rw [hs]; rfl) x hx with h1 | h1
        · exact .inl (by rwa [Function.update_of_ne hxo])
        · exact .inr ((List.mem_cons.1 h1).resolve_left hxo)

/-- **Reordering**: a list of operations that runs to the end runs to the same store in every ready order. -/
theorem run_exec_perm {ops ops' : List O} {st final : ι → Option V} (h : run C.exec st ops = some final)
    (hp : ops'.Perm ops) (hr : C.Ready st ops') : run C.exec st ops' = some final :=
  run_of_solution ops' st final ((solution_of_run ops st final h).1.perm hp) hr

/-! ## Running without the checks -/

variable (C) in
/-- The operation with no check: the output cell is overwritten with whatever value there is. -/
def Code.assign (st : ι → Option V) (o : O) : ι → Option V := Function.update st (C.out o) (C.value st o)

/-- **Blind execution of a validated list**: from any store that agrees with the validated one on the cells read and not
produced, every output ends with the validated run's value, whatever it held before. -/
theorem foldl_assign {ops : List O} {st final : ι → Option V} (hsol : C.Solution st final ops) (hr : C.Ready st ops) :
    ∀ (rest pre : List O) (c : ι → Option V), ops = pre ++ rest → (∀ x ∈ pre.map C.out, c x = final x) →
      (∀ o ∈ ops, ∀ x ∈ C.srcs o, x ∉ ops.map C.out → c x = st x) →
      ∀ x, rest.foldl C.assign c x = if x ∈ rest.map C.out then final x else c x
  | [], _, _, _, _, _, x => by simp
  | o :: rest, pre, c, hs, hpre, hin, x => by
    have ho : o ∈ ops := by rw [hs]; simp
    obtain ⟨v, hv, hout⟩ := hsol.value o ho
    have hval : C.value c o = final (C.out o) := by
      rw [hout, ← hv]
      refine C.value_congr (fun y hy => ?_)
      rcases hr pre o rest hs y hy with h1 | h1
      · rw [hsol.kept h1]
        refine hin o ho y hy (fun hm => ?_)
        obtain ⟨o', ho', rfl⟩ := List.mem_map.1 hm
        rw [hsol.fresh o' ho'] at h1
        cases h1
      · exact hpre y h1
    have hstep : ∀ y, C.assign c o y = if y = C.out o then final y else c y := fun y => by
      unfold Code.assign
      by_cases hy : y = C.out o
      · subst hy
        rw [Function.update_self, hval, if_pos rfl]
      · rw [Function.update_of_ne hy, if_neg hy]
    rw [List.foldl_cons, foldl_assign hsol hr rest (pre ++ [o]) _ (by rw [hs]; simp) (fun y hy => ?_)
      (fun o' ho' y hy hy' => ?_), hstep x]
    · by_cases h1 : x ∈ rest.map C.out <;> by_cases h2 : x = C.out o <;> simp [h1, h2]
    · rw [hstep y]
      split
      · rfl
      · rename_i hne
        rw [List.map_append, List.mem_append] at hy
        exact hpre y (hy.resolve_right (by simpa using hne))
    · have hne : y ≠ C.out o := fun he => hy' (he ▸ List.mem_map.2 ⟨o, ho, rfl⟩)
      rw [hstep y, if_neg hne]
      exact hin o' ho' y hy hy'

/-! ## Shapes -/

theorem exec_map (D : Code ι W O) (h : V → W) (hout : D.out = C.out) (hsrcs : D.srcs = C.srcs)
    (heval : ∀ vs, D.eval (vs.map h) = (C.eval vs).map h) (st : ι → Option V) (o : O) :
    D.exec (fun x => (st x).map h) o = (C.exec st o).map (fun st' x => (st' x).map h) := by
  have hval : D.value (fun x => (st x).map h) o = (C.value st o).map h := by
    unfold Code.value
    rw [hsrcs, mapM_map]
    cases (C.srcs o).mapM st with
    | none => rfl
    | some vs => exact heval vs
  unfold Code.exec
  rw [hval, hout]
  cases hst : st (C.out o) with
  | some v => simp [hst]
  | none =>
    cases hv : C.value st o with
    | none => simp [hst]
    | some v =>
      simp only [hst, Option.map_none, Option.isSome_none, Bool.false_eq_true, if_false, Option.map_some,
        Option.some.injEq]
      funext x
      by_cases hx : x = C.out o
      · subst hx
        simp
      · simp [hx]

/-- **A map of values that commutes with `eval`** carries runs over: the images run exactly when the values do. -/
theorem run_exec_map (D : Code ι W O) (h : V → W) (hout : D.out = C.out) (hsrcs : D.srcs = C.srcs)
    (heval : ∀ vs, D.eval (vs.map h) = (C.eval vs).map h) : ∀ (ops : List O) (st : ι → Option V),
    run D.exec (fun x => (st x).map h) ops = (run C.exec st ops).map (fun final x => (final x).map h)
  | [], _ => rfl
  | o :: ops, st => by
    unfold run
    rw [exec_map D h hout hsrcs heval]
    cases C.exec st o with
    | none => rfl
    | some st' => exact run_exec_map D h hout hsrcs heval ops st'

end Dataflow
