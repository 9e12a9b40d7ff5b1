import CodedLLM.Codec
/-!
# PlanLayout — how the CUDA executors check a plan before they run it

The three CUDA executors share this code word for word: they replay the plan on word counts alone, reject what could
not run, and record which shards need a buffer, the concatenated sources and where each operation's sources start.
The replay is a run of the operations over lengths (`layoutOperations_ok`), so it accepts exactly what the CPU
executor executes.
-/
namespace CodedLLM

open Runs Dataflow

structure PlanLayout where
  wordCounts : List (Option Nat)
  requiredShards : List Bool
  availableShards : List Bool
  flattenedSources : List Nat
  sourceOffsets : List Nat
  deriving DecidableEq, Repr

def PlanLayout.count (l : PlanLayout) (id : Nat) : Option Nat := l.wordCounts[id]?.join

/-- The source loop of one operation, with `operation_word_count` so far. -/
def layoutSources (shardCount : Nat) : List Nat → PlanLayout → Option Nat → Except Exn (PlanLayout × Option Nat)
  | [], l, operationWordCount => .ok (l, operationWordCount)
  | source :: rest, l, operationWordCount =>
    if shardCount ≤ source ∨ l.availableShards.getD source false = false ∨ l.count source = none then
      .error (.invalidArgument "DecodePlan source shard is unavailable")
    else if operationWordCount ≠ none ∧ operationWordCount ≠ l.count source then
      .error (.invalidArgument "DecodePlan sources must be available and equally sized")
    else
      layoutSources shardCount rest { l with
        requiredShards := l.requiredShards.set source true, flattenedSources := l.flattenedSources ++ [source] }
        (if operationWordCount = none then l.count source else operationWordCount)

def layoutOperation (shardCount : Nat) (l : PlanLayout) (operation : XorOperation) : Except Exn PlanLayout :=
  if shardCount ≤ operation.output then .error (.invalidArgument "DecodePlan output shard is out of bounds")
  else if operation.sources = [] then .error (.invalidArgument "DecodePlan XOR operation has no sources")
  else if l.availableShards.getD operation.output false = true then
    .error (.invalidArgument "DecodePlan output shard is already present")
  else
    match layoutSources shardCount operation.sources
        { l with sourceOffsets := l.sourceOffsets ++ [l.flattenedSources.length] } none with
    | .error e => .error e
    | .ok (l, operationWordCount) => .ok { l with
        wordCounts := l.wordCounts.set operation.output operationWordCount
        availableShards := l.availableShards.set operation.output true
        requiredShards := l.requiredShards.set operation.output true }

def layoutOperations (shardCount : Nat) (operations : List XorOperation) (l : PlanLayout) : Except Exn PlanLayout :=
  loop (layoutOperation shardCount) operations l

/-- The layout before the first operation, from the counts of the shards that are there. -/
def PlanLayout.initial (wordCounts : List (Option Nat)) : PlanLayout :=
  ⟨wordCounts, List.replicate wordCounts.length false, wordCounts.map Option.isSome, [], []⟩

/-- The loop over the host slots that `prepare_decode_plan_cuda` and `RunDecodePlanCuda` start with. -/
def measureShards : ShardSlots → Except Exn (List (Option Nat))
  | [] => .ok []
  | none :: rest =>
    match measureShards rest with
    | .error e => .error e
    | .ok counts => .ok (none :: counts)
  | some shard :: rest =>
    if shard = [] then .error (.invalidArgument "DecodePlan source shards must be non-empty")
    else
      match measureShards rest with
      | .error e => .error e
      | .ok counts => .ok (some shard.length :: counts)

/-! ## The replay is a run over lengths -/

/-- An operation's word count from its sources': there is one, it is not zero and they all have it. -/
def countEval : List Nat → Option Nat
  | [] => none
  | n :: ns => if 0 < n ∧ ∀ x ∈ ns, x = n then some n else none

def countCode : Code Nat Nat XorOperation := ⟨XorOperation.output, XorOperation.sources, countEval⟩

theorem countEval_eq_some {ns : List Nat} {v : Nat} :
    countEval ns = some v ↔ 0 < v ∧ ns ≠ [] ∧ ∀ x ∈ ns, x = v := by
  cases ns with
  | nil => simp [countEval]
  | cons n ns =>
    simp only [countEval]
    constructor
    · intro h
      split at h
      · rename_i hc
        obtain rfl := Option.some.inj h
        exact ⟨hc.1, by simp, by simpa using hc.2⟩
      · cases h
    · rintro ⟨hv, -, hall⟩
      obtain rfl : n = v := hall n (by simp)
      rw [if_pos ⟨hv, fun x hx => hall x (by simp [hx])⟩]

theorem countEval_map (ws : List WordShard) : countEval (ws.map List.length) = (xorEval ws).map List.length := by
  cases h : xorEval ws with
  | some v =>
    obtain ⟨n, hn, hne, hl, rfl⟩ := xorEval_eq_some.1 h
    rw [Option.map_some, xorAll, XorWords.length_combineAll ws hl]
    exact countEval_eq_some.2 ⟨hn, by simpa using hne, by simpa using hl⟩
  | none =>
    rw [Option.map_none, Option.eq_none_iff_forall_not_mem]
    intro v hv
    obtain ⟨hpos, hne, hall⟩ := countEval_eq_some.1 hv
    rw [xorEval_eq_some.2 ⟨v, hpos, by simpa using hne, by simpa using hall, rfl⟩] at h
    cases h

/-- **A layout is coherent**: the vectors have one entry per slot, a shard is available exactly if it has a count, and
no count is zero. -/
structure PlanLayout.Coherent (l : PlanLayout) (shardCount : Nat) : Prop where
  counts : l.wordCounts.length = shardCount
  required : l.requiredShards.length = shardCount
  available : l.availableShards = l.wordCounts.map Option.isSome
  positive : ∀ id n, l.count id = some n → 0 < n

theorem PlanLayout.Coherent.getD_available {l : PlanLayout} {shardCount : Nat} (h : l.Coherent shardCount) (id : Nat) :
    l.availableShards.getD id false = (l.count id).isSome := by
  rw [h.available, List.getD_eq_getElem?_getD, List.getElem?_map, PlanLayout.count]
  cases l.wordCounts[id]? <;> rfl

theorem PlanLayout.Coherent.count_lt {l : PlanLayout} {shardCount : Nat} (h : l.Coherent shardCount) {id : Nat}
    (hc : l.count id ≠ none) : id < shardCount := by
  by_contra hn
  rw [PlanLayout.count, List.getElem?_eq_none (by rw [h.counts]; omega)] at hc
  exact hc rfl

def PlanLayout.read (l : PlanLayout) (sources : List Nat) : PlanLayout :=
  { l with requiredShards := sources.foldl (fun r s => r.set s true) l.requiredShards
           flattenedSources := l.flattenedSources ++ sources }

theorem layoutSources_ok {shardCount : Nat} : ∀ (sources : List Nat) (l : PlanLayout) (n : Option Nat),
    l.Coherent shardCount → ∀ r, layoutSources shardCount sources l n = .ok r ↔
      ∃ ns, sources.mapM l.count = some ns ∧ (∃ c, ∀ x ∈ n.toList ++ ns, x = c) ∧
        r = (l.read sources, (n.toList ++ ns).head?)
  | [], l, n, _, r => by
    simp only [layoutSources, List.mapM_nil, Except.ok.injEq]
    constructor
    · rintro rfl
      refine ⟨[], rfl, ⟨n.getD 0, ?_⟩, ?_⟩
      · cases n <;> simp
      · cases n <;> simp [PlanLayout.read]
    · rintro ⟨ns, hns, -, rfl⟩
      obtain rfl : [] = ns := Option.some.inj hns
      cases n <;> simp [PlanLayout.read]
  | s :: sources, l, n, hl, r => by
    unfold layoutSources
    cases hs : l.count s with
    | none =>
      simp only [or_true, if_true, reduceCtorEq, false_iff, not_exists, not_and]
      intro ns hns
      obtain ⟨x, -, hx, -⟩ := mapM_cons_eq_some.1 hns
      rw [hs] at hx
      cases hx
    | some m =>
      have hlt : ¬ shardCount ≤ s := Nat.not_le.2 (hl.count_lt (by rw [hs]; simp))
      have hav : l.availableShards.getD s false = true := by rw [hl.getD_available, hs]; rfl
      simp only [hlt, hav, Bool.true_eq_false, reduceCtorEq, or_self, if_false]
      have hl' : ({ l with requiredShards := l.requiredShards.set s true
                           flattenedSources := l.flattenedSources ++ [s] } : PlanLayout).Coherent shardCount :=
        ⟨hl.counts, by simp [hl.required], hl.available, hl.positive⟩
      have hread : ({ l with requiredShards := l.requiredShards.set s true
                             flattenedSources := l.flattenedSources ++ [s] } : PlanLayout).read sources =
          l.read (s :: sources) := by
        simp [PlanLayout.read]
      cases n with
      | none =>
        simp only [ne_eq, not_true_eq_false, false_and, if_false, if_true]
        rw [layoutSources_ok sources _ (some m) hl', hread]
        constructor
        · rintro ⟨ns, hns, hall, rfl⟩
          exact ⟨m :: ns, mapM_cons_eq_some.2 ⟨m, ns, hs, hns, rfl⟩, by simpa using hall, by simp⟩
        · rintro ⟨ns', hns', hall, rfl⟩
          obtain ⟨m', ns, hm', hns, rfl⟩ := mapM_cons_eq_some.1 hns'
          obtain rfl : m = m' := Option.some.inj (hs.symm.trans hm')
          exact ⟨ns, hns, by simpa using hall, by simp⟩
      | some k =>
        by_cases hk : k = m
        · subst hk
          simp only [ne_eq, not_true_eq_false, and_false, if_false, reduceCtorEq]
          rw [layoutSources_ok sources _ (some k) hl', hread]
          constructor
          · rintro ⟨ns, hns, hall, rfl⟩
            exact ⟨k :: ns, mapM_cons_eq_some.2 ⟨k, ns, hs, hns, rfl⟩, by simpa using hall, by simp⟩
          · rintro ⟨ns', hns', hall, rfl⟩
            obtain ⟨m', ns, hm', hns, rfl⟩ := mapM_cons_eq_some.1 hns'
            obtain rfl : k = m' := Option.some.inj (hs.symm.trans hm')
            exact ⟨ns, hns, by simpa using hall, by simp⟩
        · simp only [ne_eq, reduceCtorEq, not_false_eq_true, Option.some.injEq, hk, and_self, if_true, false_iff,
            not_exists, not_and]
          rintro ns' hns' ⟨c, hc⟩
          obtain ⟨m', ns, hm', -, rfl⟩ := mapM_cons_eq_some.1 hns'
          obtain rfl : m = m' := Option.some.inj (hs.symm.trans hm')
          have h1 := hc k (by simp)
          have h2 := hc m (by simp)
          exact absurd (h1.trans h2.symm) hk

def PlanLayout.after (l : PlanLayout) (operation : XorOperation) (v : Nat) : PlanLayout where
  wordCounts := l.wordCounts.set operation.output (some v)
  requiredShards := (l.read operation.sources).requiredShards.set operation.output true
  availableShards := l.availableShards.set operation.output true
  flattenedSources := l.flattenedSources ++ operation.sources
  sourceOffsets := l.sourceOffsets ++ [l.flattenedSources.length]

/-- **One operation of the replay**: it passes exactly if the run over lengths makes the step. -/
theorem layoutOperation_ok {shardCount : Nat} {l l' : PlanLayout} (hl : l.Coherent shardCount) {op : XorOperation} :
    layoutOperation shardCount l op = .ok l' ↔ op.output < shardCount ∧ l.count op.output = none ∧
      ∃ v, countCode.value l.count op = some v ∧ l' = l.after op v := by
  have hval : countCode.value l.count op = (op.sources.mapM l.count).bind countEval := rfl
  have hl' : ({ l with sourceOffsets := l.sourceOffsets ++ [l.flattenedSources.length] } : PlanLayout).Coherent
      shardCount := ⟨hl.counts, hl.required, hl.available, hl.positive⟩
  have hpos : ∀ ns, op.sources.mapM l.count = some ns → ∀ x ∈ ns, 0 < x := by
    intro ns hns x hx
    obtain ⟨s, -, hs⟩ := mem_of_mapM hns hx
    exact hl.positive s x hs
  rw [hval]
  unfold layoutOperation
  by_cases hout : shardCount ≤ op.output
  · simp [hout, Nat.not_lt.2 hout]
  rw [if_neg hout]
  by_cases hsrc : op.sources = []
  · simp [hsrc, countEval]
  rw [if_neg hsrc, hl.getD_available]
  cases hc : l.count op.output with
  | some n => simp
  | none =>
    simp only [Option.isSome_none, Bool.false_eq_true, if_false, Nat.lt_of_not_le hout, true_and]
    constructor
    · intro h
      split at h
      · cases h
      · rename_i l₁ n hls
        obtain ⟨ns, hns, ⟨c, hall⟩, hr⟩ := (layoutSources_ok op.sources _ none hl' _).1 hls
        obtain ⟨rfl, rfl⟩ := Prod.mk.inj hr
        cases ns with
        | nil =>
          exfalso
          cases hos : op.sources with
          | nil => exact hsrc hos
          | cons s rest =>
            rw [hos] at hns
            obtain ⟨x, ws, -, -, hx⟩ := mapM_cons_eq_some.1 hns
            cases hx
        | cons n ns =>
          have hns' : op.sources.mapM l.count = some (n :: ns) := hns
          refine ⟨n, ?_, ?_⟩
          · rw [hns', Option.bind_some]
            refine countEval_eq_some.2 ⟨hpos _ hns' n (by simp), by simp, fun x hx => ?_⟩
            have h1 := hall x (by simpa using hx)
            have h2 := hall n (by simp)
            exact h1.trans h2.symm
          · rw [← Except.ok.inj h]
            rfl
    · rintro ⟨v, hv, rfl⟩
      obtain ⟨ns, hns, hev⟩ := Option.bind_eq_some_iff.1 hv
      obtain ⟨-, hne, hall⟩ := countEval_eq_some.1 hev
      rw [(layoutSources_ok op.sources _ none hl' _).2 ⟨ns, hns, ⟨v, by simpa using hall⟩, rfl⟩]
      cases ns with
      | nil => exact absurd rfl hne
      | cons n ns =>
        obtain rfl : n = v := hall n (by simp)
        rfl

theorem PlanLayout.Coherent.after {l : PlanLayout} {shardCount : Nat} (hl : l.Coherent shardCount) {op : XorOperation}
    (ho : op.output < shardCount) {v : Nat} (hv : 0 < v) :
    (l.after op v).Coherent shardCount ∧ (l.after op v).count = Function.update l.count op.output (some v) := by
  have hcount : (l.after op v).count = Function.update l.count op.output (some v) := by
    funext i
    rw [Function.update_apply]
    unfold PlanLayout.count PlanLayout.after
    by_cases hi : i = op.output
    · subst hi
      simp [hl.counts, ho]
    · simp [Ne.symm hi, hi]
  have hread : ∀ (ss : List Nat) (r : List Bool), (ss.foldl (fun r s => r.set s true) r).length = r.length := by
    intro ss
    induction ss with
    | nil => exact fun _ => rfl
    | cons s ss ih =>
      intro r
      rw [List.foldl_cons, ih, List.length_set]
  refine ⟨⟨by simp [PlanLayout.after, hl.counts], ?_, ?_, fun i n hn => ?_⟩, hcount⟩
  · simp [PlanLayout.after, PlanLayout.read, hread, hl.required]
  · show l.availableShards.set op.output true = (l.wordCounts.set op.output (some v)).map Option.isSome
    rw [List.map_set, hl.available]
    rfl
  · rw [hcount, Function.update_apply] at hn
    split at hn
    · rwa [← Option.some.inj hn]
    · exact hl.positive i n hn

theorem countCode_pos {st : Nat → Option Nat} {op : XorOperation} {v : Nat} (h : countCode.value st op = some v) :
    0 < v := by
  obtain ⟨ns, -, hev⟩ := Option.bind_eq_some_iff.1 h
  exact (countEval_eq_some.1 hev).1

/-- **The replay accepts exactly the operations that run over lengths**, and ends with their counts. -/
theorem layoutOperations_ok {shardCount : Nat} : ∀ (ops : List XorOperation) (l : PlanLayout), l.Coherent shardCount →
    ((∃ l', layoutOperations shardCount ops l = .ok l') ↔
      (∀ o ∈ ops, o.output < shardCount) ∧ ∃ final, run countCode.exec l.count ops = some final) ∧
    ∀ l', layoutOperations shardCount ops l = .ok l' →
      l'.Coherent shardCount ∧ run countCode.exec l.count ops = some l'.count
  | [], l, hl => by
    refine ⟨by simp [layoutOperations, loop], fun l' h => ?_⟩
    obtain rfl := Except.ok.inj h
    exact ⟨hl, rfl⟩
  | op :: ops, l, hl => by
    unfold layoutOperations loop
    cases hop : layoutOperation shardCount l op with
    | error e =>
      refine ⟨?_, fun l' h => by cases h⟩
      simp only [reduceCtorEq, exists_false, false_iff, not_and, not_exists, List.mem_cons, forall_eq_or_imp]
      rintro ⟨ho, -⟩ final hr
      obtain ⟨st', hex, -⟩ := (run_cons _ _ _ _).1 hr
      obtain ⟨hnone, v, hv, -⟩ := Code.exec_eq_some.1 hex
      rw [(layoutOperation_ok hl).2 ⟨ho, hnone, v, hv, rfl⟩] at hop
      cases hop
    | ok l₁ =>
      obtain ⟨ho, hnone, v, hv, rfl⟩ := (layoutOperation_ok hl).1 hop
      obtain ⟨hl₁, hcount⟩ := hl.after ho (countCode_pos hv)
      have hstep : countCode.exec l.count op = some (l.after op v).count := by
        rw [hcount]
        exact Code.exec_eq_some.2 ⟨hnone, v, hv, rfl⟩
      obtain ⟨hiff, hend⟩ := layoutOperations_ok ops (l.after op v) hl₁
      refine ⟨?_, fun l' h => ?_⟩
      · refine hiff.trans ?_
        simp only [List.mem_cons, forall_eq_or_imp, ho, true_and, run_cons, hstep, Option.some.injEq, exists_eq_left']
      · obtain ⟨hl', hr⟩ := hend l' h
        exact ⟨hl', (run_cons _ _ _ _).2 ⟨_, hstep, hr⟩⟩

/-! ## What the layout records -/

/-- **What the launch of the operations relies on**: where each one's sources start, and that every shard it touches
has a buffer. -/
structure PlanLayout.Lays (l : PlanLayout) (ops : List XorOperation) : Prop where
  offsets : l.sourceOffsets.length = ops.length
  sources : ∀ (i : Nat) (o : XorOperation), ops[i]? = some o → ∃ offset, l.sourceOffsets[i]? = some offset ∧
    offset ≤ l.flattenedSources.length ∧ o.sources <+: l.flattenedSources.drop offset
  required : ∀ o ∈ ops, ∀ s, s = o.output ∨ s ∈ o.sources → l.requiredShards[s]? = some true

theorem getElem?_set_true {r : List Bool} {s t : Nat} (h : r[t]? = some true) : (r.set s true)[t]? = some true := by
  by_cases hst : s = t
  · subst hst
    rw [List.getElem?_set_self (List.getElem?_eq_some_iff.1 h).1]
  · rw [List.getElem?_set_ne hst, h]

theorem foldl_set_true : ∀ (ss : List Nat) (r : List Bool) (t : Nat), (∀ s ∈ ss, s < r.length) →
    r[t]? = some true ∨ t ∈ ss → (ss.foldl (fun r s => r.set s true) r)[t]? = some true
  | [], r, t, _, h => h.resolve_right (by simp)
  | s :: ss, r, t, hlt, h => by
    rw [List.foldl_cons]
    refine foldl_set_true ss _ t (fun x hx => by rw [List.length_set]; exact hlt x (by simp [hx])) ?_
    rcases h with h | h
    · exact .inl (getElem?_set_true h)
    · rcases List.mem_cons.1 h with rfl | h
      · exact .inl (List.getElem?_set_self (hlt t (by simp)))
      · exact .inr h

theorem PlanLayout.Lays.after {l : PlanLayout} {shardCount : Nat} (hl : l.Coherent shardCount) {pre : List XorOperation}
    (h : l.Lays pre) {op : XorOperation} (ho : op.output < shardCount) {v : Nat}
    (hv : countCode.value l.count op = some v) : (l.after op v).Lays (pre ++ [op]) := by
  have hlt : ∀ s ∈ op.sources, s < l.requiredShards.length := by
    intro s hs
    have hsome := Code.isSome_of_value hv s hs
    rw [hl.required]
    refine hl.count_lt (fun hn => ?_)
    rw [hn] at hsome
    cases hsome
  have hlen : (op.sources.foldl (fun r s => r.set s true) l.requiredShards).length = l.requiredShards.length := by
    have := (hl.after ho (countCode_pos hv)).1.required
    simpa [PlanLayout.after, PlanLayout.read, hl.required] using this
  refine ⟨by simp [PlanLayout.after, h.offsets], fun i o hi => ?_, fun o hm s hs => ?_⟩
  · rw [List.getElem?_append] at hi
    split at hi
    · obtain ⟨offset, hoff, hle, hpre⟩ := h.sources i o hi
      refine ⟨offset, ?_, ?_, ?_⟩
      · show (l.sourceOffsets ++ [l.flattenedSources.length])[i]? = some offset
        rw [List.getElem?_append_left (List.getElem?_eq_some_iff.1 hoff).1, hoff]
      · show offset ≤ (l.flattenedSources ++ op.sources).length
        rw [List.length_append]
        omega
      · show o.sources <+: (l.flattenedSources ++ op.sources).drop offset
        rw [List.drop_append_of_le_length hle]
        exact hpre.trans (List.prefix_append ..)
    · rename_i hge
      obtain ⟨hzero, rfl⟩ : i - pre.length = 0 ∧ op = o := by simpa [List.getElem?_singleton] using hi
      refine ⟨l.flattenedSources.length, ?_, ?_, ?_⟩
      · show (l.sourceOffsets ++ [l.flattenedSources.length])[i]? = some l.flattenedSources.length
        rw [List.getElem?_append_right (by rw [h.offsets]; omega), h.offsets, hzero]
        rfl
      · show l.flattenedSources.length ≤ (l.flattenedSources ++ op.sources).length
        rw [List.length_append]
        omega
      · show op.sources <+: (l.flattenedSources ++ op.sources).drop l.flattenedSources.length
        rw [List.drop_left]
  · show ((op.sources.foldl (fun r s => r.set s true) l.requiredShards).set op.output true)[s]? = some true
    rcases List.mem_append.1 hm with hm | hm
    · exact getElem?_set_true (foldl_set_true _ _ _ hlt (.inl (h.required o hm s hs)))
    · obtain rfl := List.mem_singleton.1 hm
      rcases hs with rfl | hs
      · exact List.getElem?_set_self (by rw [hlen, hl.required]; exact ho)
      · exact getElem?_set_true (foldl_set_true _ _ _ hlt (.inr hs))

theorem layoutOperations_lays {shardCount : Nat} : ∀ (ops pre : List XorOperation) (l l' : PlanLayout),
    l.Coherent shardCount → l.Lays pre → layoutOperations shardCount ops l = .ok l' → l'.Lays (pre ++ ops)
  | [], pre, l, l', _, h, hr => by
    obtain rfl := Except.ok.inj hr
    rwa [List.append_nil]
  | op :: ops, pre, l, l', hl, h, hr => by
    unfold layoutOperations loop at hr
    split at hr
    · cases hr
    · rename_i l₁ hop
      obtain ⟨ho, -, v, hv, rfl⟩ := (layoutOperation_ok hl).1 hop
      have := layoutOperations_lays ops (pre ++ [op]) _ l' (hl.after ho (countCode_pos hv)).1 (h.after hl ho hv) hr
      rwa [List.append_assoc] at this

theorem mem_of_foldl_set_true : ∀ (ss : List Nat) (r : List Bool) (t : Nat),
    (ss.foldl (fun r s => r.set s true) r)[t]? = some true → r[t]? = some true ∨ t ∈ ss
  | [], _, _, h => .inl h
  | s :: ss, r, t, h => by
    rw [List.foldl_cons] at h
    rcases mem_of_foldl_set_true ss _ t h with h | h
    · by_cases hst : s = t
      · exact .inr (by simp [hst])
      · rw [List.getElem?_set_ne hst] at h
        exact .inl h
    · exact .inr (by simp [h])

theorem layoutOperations_touched {shardCount : Nat} : ∀ (ops : List XorOperation) (l l' : PlanLayout),
    l.Coherent shardCount → layoutOperations shardCount ops l = .ok l' → ∀ s, l'.requiredShards[s]? = some true →
      l.requiredShards[s]? = some true ∨ ∃ o ∈ ops, s = o.output ∨ s ∈ o.sources
  | [], l, l', _, hr, s, hs => by
    obtain rfl := Except.ok.inj hr
    exact .inl hs
  | op :: ops, l, l', hl, hr, s, hs => by
    unfold layoutOperations loop at hr
    split at hr
    · cases hr
    · rename_i l₁ hop
      obtain ⟨ho, -, v, hv, rfl⟩ := (layoutOperation_ok hl).1 hop
      rcases layoutOperations_touched ops _ l' (hl.after ho (countCode_pos hv)).1 hr s hs with h | ⟨o, hm, hs⟩
      · by_cases hso : op.output = s
        · exact .inr ⟨op, by simp, .inl hso.symm⟩
        · replace h : ((op.sources.foldl (fun r s => r.set s true) l.requiredShards).set op.output true)[s]? =
            some true := h
          rw [List.getElem?_set_ne hso] at h
          rcases mem_of_foldl_set_true _ _ _ h with h | h
          · exact .inl h
          · exact .inr ⟨op, by simp, .inr h⟩
      · exact .inr ⟨o, by simp [hm], hs⟩

/-! ## The replay against the CPU executor -/

def wordCountsOf (shards : ShardSlots) : List (Option Nat) := shards.map (Option.map List.length)

theorem measureShards_ok : ∀ (shards : ShardSlots), (∀ i w, slotAt shards i = some w → w ≠ []) →
    measureShards shards = .ok (wordCountsOf shards)
  | [], _ => rfl
  | none :: rest, h => by
    rw [measureShards, measureShards_ok rest (fun i w hw => h (i + 1) w (by simpa [slotAt] using hw))]
    rfl
  | some shard :: rest, h => by
    rw [measureShards, if_neg (h 0 shard rfl),
      measureShards_ok rest (fun i w hw => h (i + 1) w (by simpa [slotAt] using hw))]
    rfl

theorem measureShards_nonempty :
    ∀ (shards : ShardSlots) (counts : List (Option Nat)), measureShards shards = .ok counts →
    ∀ i w, slotAt shards i = some w → w ≠ []
  | [], _, _, i, w, hw => by simp [slotAt] at hw
  | none :: rest, counts, h, i, w, hw => by
    rw [measureShards] at h
    split at h
    · cases h
    · rename_i counts' hrest
      cases i with
      | zero => cases hw
      | succ i => exact measureShards_nonempty rest counts' hrest i w (by simpa [slotAt] using hw)
  | some shard :: rest, counts, h, i, w, hw => by
    rw [measureShards] at h
    split at h
    · cases h
    · rename_i hshard
      split at h
      · cases h
      · rename_i counts' hrest
        cases i with
        | zero =>
          obtain rfl : shard = w := by simpa [slotAt] using hw
          exact hshard
        | succ i => exact measureShards_nonempty rest counts' hrest i w (by simpa [slotAt] using hw)

theorem count_initial (shards : ShardSlots) :
    (PlanLayout.initial (wordCountsOf shards)).count = fun i => (slotAt shards i).map List.length := by
  funext i
  unfold PlanLayout.count PlanLayout.initial wordCountsOf slotAt
  rw [List.getElem?_map]
  cases shards[i]? with
  | none => rfl
  | some o => cases o <;> rfl

theorem coherent_initial {shards : ShardSlots} (h : ∀ i w, slotAt shards i = some w → w ≠ []) :
    (PlanLayout.initial (wordCountsOf shards)).Coherent shards.length := by
  refine ⟨by simp [PlanLayout.initial, wordCountsOf], by simp [PlanLayout.initial, wordCountsOf], rfl, fun i n hn => ?_⟩
  rw [count_initial] at hn
  obtain ⟨w, hw, rfl⟩ := Option.map_eq_some_iff.1 hn
  exact List.length_pos_iff.2 (h i w hw)

theorem lays_initial (counts : List (Option Nat)) : (PlanLayout.initial counts).Lays [] :=
  ⟨rfl, by simp, by simp⟩

/-- **The replay and the CPU executor accept the same operations**; the counts it ends with are the lengths of the
shards the executor ends with. -/
theorem layoutOperations_execute {shards : ShardSlots} (h : ∀ i w, slotAt shards i = some w → w ≠ [])
    (ops : List XorOperation) :
    ((∃ l, layoutOperations shards.length ops (.initial (wordCountsOf shards)) = .ok l) ↔
      ∃ shards', executeOperations ops shards = .returns shards') ∧
    ∀ l shards', layoutOperations shards.length ops (.initial (wordCountsOf shards)) = .ok l →
      executeOperations ops shards = .returns shards' →
      l.Lays ops ∧ ∀ i, l.count i = (slotAt shards' i).map List.length := by
  obtain ⟨hiff, hend⟩ := layoutOperations_ok ops _ (coherent_initial h)
  have hmap := run_exec_map (C := xorCode) countCode List.length rfl rfl countEval_map ops (slotAt shards)
  rw [count_initial] at hiff hend
  rw [hmap] at hiff hend
  refine ⟨hiff.trans ?_, fun l shards' hl hex => ⟨?_, fun i => ?_⟩⟩
  · simp only [Option.map_eq_some_iff]
    constructor
    · rintro ⟨hout, -, final, hr, -⟩
      obtain ⟨shards', hex, -⟩ := executeOperations_of_run hout hr
      exact ⟨shards', hex⟩
    · rintro ⟨shards', hex⟩
      obtain ⟨hout, -, hr⟩ := (executeOperations_returns ops shards shards').1 hex
      exact ⟨hout, _, _, hr, rfl⟩
  · exact layoutOperations_lays ops [] _ l (coherent_initial h) (lays_initial _) hl
  · obtain ⟨-, hr⟩ := hend l hl
    rw [((executeOperations_returns ops shards shards').1 hex).2.2, Option.map_some, Option.some.injEq] at hr
    exact (congrFun hr i).symm

end CodedLLM
