import CodedLLM.CudaStaging
import CodedLLM.Traced
/-!
# KernelAccesses — every load and store of the XOR kernels

The kernels of `Kernels`, with each load and store of a shard word logged: by which thread, in the vector loop or in
the tail, through which pointer and at which word.  Without the log they are the same kernels (`erase_tracedRound`,
`launchKernel_eq_erase`).  The threads interleave: a schedule is any order of the rounds of all threads.  Whatever the
schedule, every word of the output is stored once and no access is out of bounds.  The indices do not wrap: a vector
index is below `2 ^ 62`, and a stride is the product of two `int`s.
-/
namespace CodedLLM

open Runs

inductive Phase where
  | vectorLoop
  | tail
  deriving DecidableEq, Repr

structure Access where
  thread : Nat × Nat
  phase : Phase
  isStore : Bool
  pointer : Nat
  wordIndex : Nat
  deriving DecidableEq, Repr

/-- `shard_table[source_ids[source_index]]`. -/
def KernelArgs.sourcePointer (a : KernelArgs) (sourceIndex : Nat) : Option Nat :=
  a.sourceIds[sourceIndex]?.bind (fun id => a.shardTable[id]?.join)

def tracedLoad (thread : Nat × Nat) (phase : Phase) (pointer wordIndex : Nat) : Traced DeviceMemory Access ShardWord :=
  fun mem => ((slotAt mem pointer).bind (·[wordIndex]?)).map fun word =>
    (word, mem, [⟨thread, phase, false, pointer, wordIndex⟩])

def tracedStore (thread : Nat × Nat) (phase : Phase) (pointer wordIndex : Nat) (value : ShardWord) :
    Traced DeviceMemory Access Unit :=
  fun mem => (storeWord pointer mem wordIndex value).map fun mem =>
    ((), mem, [⟨thread, phase, true, pointer, wordIndex⟩])

def tracedLoadVector (thread : Nat × Nat) (pointer vectorIndex : Nat) : Traced DeviceMemory Access UInt4 := do
  let x ← tracedLoad thread .vectorLoop pointer (4 * vectorIndex)
  let y ← tracedLoad thread .vectorLoop pointer (4 * vectorIndex + 1)
  let z ← tracedLoad thread .vectorLoop pointer (4 * vectorIndex + 2)
  let w ← tracedLoad thread .vectorLoop pointer (4 * vectorIndex + 3)
  return ⟨x, y, z, w⟩

def tracedStoreVector (thread : Nat × Nat) (pointer vectorIndex : Nat) (value : UInt4) :
    Traced DeviceMemory Access Unit := do
  tracedStore thread .vectorLoop pointer (4 * vectorIndex) value.x
  tracedStore thread .vectorLoop pointer (4 * vectorIndex + 1) value.y
  tracedStore thread .vectorLoop pointer (4 * vectorIndex + 2) value.z
  tracedStore thread .vectorLoop pointer (4 * vectorIndex + 3) value.w

def tracedXorVector (a : KernelArgs) (sourceCount : Nat) (thread : Nat × Nat) (vectorIndex : Nat) :
    Traced DeviceMemory Access UInt4 :=
  Traced.fold (fun (value : UInt4) sourceIndex => do
    let source ← Traced.lift (a.sourcePointer sourceIndex)
    let input ← tracedLoadVector thread source vectorIndex
    return ⟨value.x ^^^ input.x, value.y ^^^ input.y, value.z ^^^ input.z, value.w ^^^ input.w⟩)
    (List.range sourceCount) ⟨0, 0, 0, 0⟩

def tracedXorWord (a : KernelArgs) (sourceCount : Nat) (thread : Nat × Nat) (wordIndex : Nat) :
    Traced DeviceMemory Access ShardWord :=
  Traced.fold (fun value sourceIndex => do
    let source ← Traced.lift (a.sourcePointer sourceIndex)
    let word ← tracedLoad thread .tail source wordIndex
    return value ^^^ word) (List.range sourceCount) 0

/-- What a thread does: rounds of the vector loop, and at most one word of the tail. -/
inductive Round where
  | vectorLoop (vectorIndex : Nat)
  | tail (wordIndex : Nat)
  deriving DecidableEq, Repr

def threadRounds (wordCount blockDim gridDim : Nat) (thread : Nat × Nat) : List Round :=
  let vectorWordCount := wordCount / 4
  let stride := blockDim * gridDim
  let tailStart := vectorWordCount * 4
  let tailCount := wordCount - tailStart
  (GridStride.visits stride vectorWordCount (thread.1 * blockDim + thread.2)).map .vectorLoop ++
    if thread.1 = 0 ∧ thread.2 < tailCount then [.tail (tailStart + thread.2)] else []

def tracedRound (a : KernelArgs) (sourceCount : Nat) : (Nat × Nat) × Round → Traced DeviceMemory Access Unit
  | (thread, .vectorLoop vectorIndex) => do
    let value ← tracedXorVector a sourceCount thread vectorIndex
    tracedStoreVector thread a.output vectorIndex value
  | (thread, .tail wordIndex) => do
    let value ← tracedXorWord a sourceCount thread wordIndex
    tracedStore thread .tail a.output wordIndex value

def tracedLaunch (kernel : Kernel) (a : KernelArgs) (sourceCount : Nat) (schedule : List ((Nat × Nat) × Round)) :
    Traced DeviceMemory Access Unit :=
  Traced.each (tracedRound a (kernel.degree sourceCount)) schedule

/-- **The schedule of a launch**: the rounds of all threads of the grid, in any order. -/
def IsSchedule (wordCount blockDim gridDim : Nat) (schedule : List ((Nat × Nat) × Round)) : Prop :=
  schedule.Perm ((GridStride.threads gridDim blockDim).flatMap fun thread =>
    (threadRounds wordCount blockDim gridDim thread).map (thread, ·))

/-! ## Without the log -/

def round (a : KernelArgs) (sourceCount : Nat) (mem : DeviceMemory) : Round → Option DeviceMemory
  | .vectorLoop vectorIndex => vectorRound a sourceCount mem vectorIndex
  | .tail wordIndex => (xorWord a sourceCount mem wordIndex).bind (storeWord a.output mem wordIndex)

@[simp] theorem erase_tracedLoad (thread : Nat × Nat) (phase : Phase) (pointer wordIndex : Nat) (mem : DeviceMemory) :
    Traced.erase (tracedLoad thread phase pointer wordIndex) mem =
      ((slotAt mem pointer).bind (·[wordIndex]?)).map (·, mem) := by
  unfold Traced.erase tracedLoad
  rw [Option.map_map]
  rfl

@[simp] theorem erase_tracedStore (thread : Nat × Nat) (phase : Phase) (pointer wordIndex : Nat) (value : ShardWord)
    (mem : DeviceMemory) :
    Traced.erase (tracedStore thread phase pointer wordIndex value) mem =
      (storeWord pointer mem wordIndex value).map ((), ·) := by
  unfold Traced.erase tracedStore
  rw [Option.map_map]
  rfl

theorem erase_tracedLoadVector (thread : Nat × Nat) (pointer v : Nat) (mem : DeviceMemory) :
    Traced.erase (tracedLoadVector thread pointer v) mem =
      ((slotAt mem pointer).bind (loadVector · v)).map (·, mem) := by
  unfold tracedLoadVector
  simp only [Traced.erase_bind, erase_tracedLoad, Traced.erase_pure]
  cases hslot : slotAt mem pointer with
  | none => rfl
  | some buffer =>
    -- one word after the other, until one is out of bounds
    simp only [Option.bind_some, loadVector]
    cases buffer[4 * v]? with
    | none => rfl
    | some x =>
      simp only [Option.map_some, Option.bind_some, hslot]
      cases buffer[4 * v + 1]? with
      | none => rfl
      | some y =>
        simp only [Option.map_some, Option.bind_some, hslot]
        cases buffer[4 * v + 2]? with
        | none => rfl
        | some z =>
          simp only [Option.map_some, Option.bind_some, hslot]
          cases buffer[4 * v + 3]? with
          | none => rfl
          | some w => rfl

theorem erase_tracedStoreVector (thread : Nat × Nat) (pointer v : Nat) (value : UInt4) (mem : DeviceMemory) :
    Traced.erase (tracedStoreVector thread pointer v value) mem = (storeVector pointer mem v value).map ((), ·) := by
  unfold tracedStoreVector storeVector
  simp only [Traced.erase_bind, erase_tracedStore]
  cases storeWord pointer mem (4 * v) value.x with
  | none => rfl
  | some mem =>
    simp only [Option.map_some, Option.bind_some]
    cases storeWord pointer mem (4 * v + 1) value.y with
    | none => rfl
    | some mem =>
      simp only [Option.map_some, Option.bind_some]
      cases storeWord pointer mem (4 * v + 2) value.z with
      | none => rfl
      | some mem => rfl

theorem KernelArgs.source_eq (a : KernelArgs) (mem : DeviceMemory) (sourceIndex : Nat) :
    a.source mem sourceIndex = (a.sourcePointer sourceIndex).bind (slotAt mem) := by
  unfold KernelArgs.source KernelArgs.sourcePointer
  rw [Option.bind_assoc]

theorem erase_tracedXorVector (a : KernelArgs) (sourceCount : Nat) (thread : Nat × Nat) (v : Nat) (mem : DeviceMemory) :
    Traced.erase (tracedXorVector a sourceCount thread v) mem = (xorVector a sourceCount mem v).map (·, mem) := by
  refine Traced.erase_fold (fun value j => ?_) _ _
  rw [KernelArgs.source_eq, Traced.erase_bind, Traced.erase_lift]
  cases a.sourcePointer j with
  | none => rfl
  | some pointer =>
    simp only [Option.map_some, Option.bind_some, Traced.erase_bind, erase_tracedLoadVector, Traced.erase_pure]
    cases slotAt mem pointer with
    | none => rfl
    | some buffer =>
      simp only [Option.bind_some]
      cases loadVector buffer v <;> rfl

theorem erase_tracedXorWord (a : KernelArgs) (sourceCount : Nat) (thread : Nat × Nat) (i : Nat) (mem : DeviceMemory) :
    Traced.erase (tracedXorWord a sourceCount thread i) mem = (xorWord a sourceCount mem i).map (·, mem) := by
  refine Traced.erase_fold (fun value j => ?_) _ _
  rw [KernelArgs.source_eq, Traced.erase_bind, Traced.erase_lift]
  cases a.sourcePointer j with
  | none => rfl
  | some pointer =>
    simp only [Option.map_some, Option.bind_some, Traced.erase_bind, erase_tracedLoad, Traced.erase_pure]
    cases slotAt mem pointer with
    | none => rfl
    | some buffer =>
      simp only [Option.bind_some]
      cases buffer[i]? <;> rfl

theorem erase_tracedRound (a : KernelArgs) (sourceCount : Nat) (x : (Nat × Nat) × Round) (mem : DeviceMemory) :
    Traced.erase (tracedRound a sourceCount x) mem = (round a sourceCount mem x.2).map ((), ·) := by
  obtain ⟨thread, v | i⟩ := x
  · simp only [tracedRound, round, vectorRound, Traced.erase_bind, erase_tracedXorVector, erase_tracedStoreVector]
    cases xorVector a sourceCount mem v <;> rfl
  · simp only [tracedRound, round, Traced.erase_bind, erase_tracedXorWord, erase_tracedStore]
    cases xorWord a sourceCount mem i <;> rfl

theorem erase_tracedLaunch (kernel : Kernel) (a : KernelArgs) (sourceCount : Nat)
    (schedule : List ((Nat × Nat) × Round))
    (mem : DeviceMemory) : Traced.erase (tracedLaunch kernel a sourceCount schedule) mem =
      (run (fun mem x => round a (kernel.degree sourceCount) mem x.2) mem schedule).map ((), ·) :=
  Traced.erase_each (fun x mem => erase_tracedRound a (kernel.degree sourceCount) x mem) schedule mem

theorem xorReconstructThread_eq_run (a : KernelArgs) (sourceCount blockDim gridDim : Nat) (mem : DeviceMemory)
    (thread : Nat × Nat) : xorReconstructThread a sourceCount blockDim gridDim mem thread =
      run (round a sourceCount) mem (threadRounds a.wordCount blockDim gridDim thread) := by
  unfold xorReconstructThread threadRounds
  simp only
  rw [run_append_bind, run_map]
  refine congrArg (Option.bind (run (vectorRound a sourceCount) mem _)) ?_
  funext mem
  split
  · simp [run, round]
  · rfl

def threadByThread (wordCount blockDim gridDim : Nat) (order : List (Nat × Nat)) : List ((Nat × Nat) × Round) :=
  order.flatMap fun thread => (threadRounds wordCount blockDim gridDim thread).map (thread, ·)

theorem threadByThread_isSchedule {wordCount blockDim gridDim : Nat} {order : List (Nat × Nat)}
    (ho : order.Perm (GridStride.threads gridDim blockDim)) :
    IsSchedule wordCount blockDim gridDim (threadByThread wordCount blockDim gridDim order) :=
  ho.flatMap_right _

/-- **A launch of `Kernels` is the launch whose threads do not interleave**, without its log. -/
theorem launchKernel_eq_erase (kernel : Kernel) (a : KernelArgs) (sourceCount blockDim gridDim : Nat)
    (order : List (Nat × Nat)) (mem : DeviceMemory) : launchKernel kernel a sourceCount blockDim gridDim order mem =
      (Traced.erase (tracedLaunch kernel a sourceCount (threadByThread a.wordCount blockDim gridDim order)) mem).map
        Prod.snd := by
  rw [erase_tracedLaunch, Option.map_map]
  unfold launchKernel threadByThread
  rw [run_flatMap]
  refine Eq.trans ?_ Option.map_id'.symm
  congr 1
  funext mem thread
  rw [run_map, xorReconstructThread_eq_run]

/-! ## Which words are stored -/

def Round.words : Round → List Nat
  | .vectorLoop vectorIndex => [4 * vectorIndex, 4 * vectorIndex + 1, 4 * vectorIndex + 2, 4 * vectorIndex + 3]
  | .tail wordIndex => [wordIndex]

def Round.InBounds (wordCount : Nat) : Round → Prop
  | .vectorLoop vectorIndex => vectorIndex < wordCount / 4
  | .tail wordIndex => wordCount / 4 * 4 ≤ wordIndex ∧ wordIndex < wordCount

theorem range_vectors : ∀ n : Nat,
    (List.range n).flatMap (fun v => [4 * v, 4 * v + 1, 4 * v + 2, 4 * v + 3]) = List.range (n * 4)
  | 0 => rfl
  | n + 1 => by
    rw [List.range_succ, List.flatMap_append, range_vectors n, List.flatMap_singleton, Nat.add_mul n 1 4,
      List.range_add, Nat.mul_comm n 4]
    rfl

theorem tail_perm {blocks threadsPerBlock tailCount : Nat} (hb : 0 < blocks) (ht : tailCount ≤ threadsPerBlock)
    (tailStart : Nat) :
    ((GridStride.threads blocks threadsPerBlock).flatMap
      (fun thread => if thread.1 = 0 ∧ thread.2 < tailCount then [tailStart + thread.2] else [])).Perm
      ((List.range tailCount).map (tailStart + ·)) := by
  have hmem : ∀ (thread : Nat × Nat) (i : Nat),
      i ∈ (if thread.1 = 0 ∧ thread.2 < tailCount then [tailStart + thread.2] else []) ↔
        thread.1 = 0 ∧ thread.2 < tailCount ∧ i = tailStart + thread.2 := by
    intro thread i
    split
    · rename_i h
      simp [h]
    · rename_i h
      exact ⟨fun hi => (by cases hi), fun ⟨h0, hlt, _⟩ => absurd ⟨h0, hlt⟩ h⟩
  have hnd : (GridStride.threads blocks threadsPerBlock).Nodup := List.nodup_range.product List.nodup_range
  refine (List.perm_ext_iff_of_nodup (List.nodup_flatMap.2 ⟨fun thread _ => ?_, ?_⟩)
    (List.nodup_range.map (add_right_injective tailStart))).2 (fun i => ?_)
  · split
    · exact List.nodup_singleton _
    · exact List.nodup_nil
  · refine List.Pairwise.imp (fun hne i hix hiy => hne ?_) hnd
    obtain ⟨hx, -, hxi⟩ := (hmem _ _).1 hix
    obtain ⟨hy, -, hyi⟩ := (hmem _ _).1 hiy
    exact Prod.ext (hx.trans hy.symm) (by omega)
  · rw [List.mem_flatMap, List.mem_map]
    constructor
    · rintro ⟨thread, -, hi⟩
      obtain ⟨-, hlt, rfl⟩ := (hmem _ _).1 hi
      exact ⟨thread.2, List.mem_range.2 hlt, rfl⟩
    · rintro ⟨t, hlt, rfl⟩
      rw [List.mem_range] at hlt
      exact ⟨(0, t), GridStride.mem_threads.2 ⟨hb, hlt.trans_le ht⟩, (hmem _ _).2 ⟨rfl, hlt, rfl⟩⟩

theorem rounds_words_perm {wordCount blockDim gridDim : Nat} (hb : 3 ≤ blockDim) (hg : 1 ≤ gridDim) :
    ((GridStride.threads gridDim blockDim).flatMap fun thread =>
      (threadRounds wordCount blockDim gridDim thread).flatMap Round.words).Perm (List.range wordCount) := by
  have hsplit : ∀ thread, (threadRounds wordCount blockDim gridDim thread).flatMap Round.words =
      (GridStride.visits (blockDim * gridDim) (wordCount / 4) (thread.1 * blockDim + thread.2)).flatMap
        (fun v => [4 * v, 4 * v + 1, 4 * v + 2, 4 * v + 3]) ++
      if thread.1 = 0 ∧ thread.2 < wordCount - wordCount / 4 * 4 then [wordCount / 4 * 4 + thread.2] else [] := by
    intro thread
    unfold threadRounds
    rw [List.flatMap_append, List.flatMap_map]
    split
    · rfl
    · rfl
  have hvectors := (GridStride.visits_perm hg (show 0 < blockDim by omega) (wordCount / 4)).flatMap_right
    (fun v => [4 * v, 4 * v + 1, 4 * v + 2, 4 * v + 3])
  rw [range_vectors, List.flatMap_assoc] at hvectors
  have htail := tail_perm hg (show wordCount - wordCount / 4 * 4 ≤ blockDim by omega) (wordCount / 4 * 4)
  have hwords : List.range wordCount = List.range (wordCount / 4 * 4) ++
      (List.range (wordCount - wordCount / 4 * 4)).map (wordCount / 4 * 4 + ·) := by
    rw [← List.range_add, Nat.add_sub_cancel' (Nat.div_mul_le_self wordCount 4)]
  simp only [hsplit]
  rw [hwords]
  exact (List.flatMap_append_perm _ _ _).symm.trans (hvectors.append htail)

theorem IsSchedule.words {wordCount blockDim gridDim : Nat} (hb : 3 ≤ blockDim) (hg : 1 ≤ gridDim)
    {schedule : List ((Nat × Nat) × Round)} (hs : IsSchedule wordCount blockDim gridDim schedule) :
    (schedule.flatMap fun x => x.2.words).Perm (List.range wordCount) := by
  have hperm := hs.flatMap_right (fun x => x.2.words)
  rw [List.flatMap_assoc] at hperm
  simp only [List.flatMap_map] at hperm
  exact hperm.trans (rounds_words_perm hb hg)

theorem IsSchedule.thread {wordCount blockDim gridDim : Nat} {schedule : List ((Nat × Nat) × Round)}
    (h : IsSchedule wordCount blockDim gridDim schedule) {x : (Nat × Nat) × Round} (hx : x ∈ schedule) :
    x.1 ∈ GridStride.threads gridDim blockDim := by
  obtain ⟨thread, hthread, hx⟩ := List.mem_flatMap.1 (h.mem_iff.1 hx)
  obtain ⟨r, -, rfl⟩ := List.mem_map.1 hx
  exact hthread

theorem IsSchedule.inBounds {wordCount blockDim gridDim : Nat} (hs : 0 < blockDim * gridDim)
    {schedule : List ((Nat × Nat) × Round)} (h : IsSchedule wordCount blockDim gridDim schedule) :
    ∀ x ∈ schedule, x.2.InBounds wordCount := by
  intro x hx
  obtain ⟨thread, -, hx⟩ := List.mem_flatMap.1 (h.mem_iff.1 hx)
  obtain ⟨r, hr, rfl⟩ := List.mem_map.1 hx
  unfold threadRounds at hr
  rcases List.mem_append.1 hr with hr | hr
  · obtain ⟨v, hv, rfl⟩ := List.mem_map.1 hr
    exact ((GridStride.mem_visits hs _ _).1 hv).1
  · split at hr
    · rename_i hcond
      rw [List.mem_singleton.1 hr]
      refine ⟨Nat.le_add_right .., ?_⟩
      omega
    · cases hr

/-! ## What is logged -/

def Round.phase : Round → Phase
  | .vectorLoop _ => .vectorLoop
  | .tail _ => .tail

def roundLog (a : KernelArgs) (sourceCount : Nat) (x : (Nat × Nat) × Round) : List Access :=
  (List.range sourceCount).flatMap (fun j =>
    x.2.words.map (fun i => ⟨x.1, x.2.phase, false, (a.sourcePointer j).getD 0, i⟩)) ++
    x.2.words.map (fun i => ⟨x.1, x.2.phase, true, a.output, i⟩)

section Logs

variable {a : KernelArgs} {inputs : List WordShard} {mem : DeviceMemory}

theorem KernelArgs.Legal.pointer (h : a.Legal inputs mem) {j : Nat} (hj : j < inputs.length) :
    a.sourcePointer j = some ((a.sourcePointer j).getD 0) ∧ (a.sourcePointer j).getD 0 ≠ a.output := by
  obtain ⟨ptr, hp, hne, -⟩ := h.sources j hj
  unfold KernelArgs.sourcePointer
  rw [hp]
  exact ⟨rfl, hne⟩

theorem logs_tracedLoad (h : a.Legal inputs mem) (thread : Nat × Nat) (phase : Phase) {j i : Nat}
    (hj : j < inputs.length) {word : ShardWord} (hword : inputs[j][i]? = some word) :
    Traced.Logs (Launching a mem) (tracedLoad thread phase ((a.sourcePointer j).getD 0) i) word
      [⟨thread, phase, false, (a.sourcePointer j).getD 0, i⟩] := by
  intro u hu
  have hsource := (hu.legal h).source hj
  rw [KernelArgs.source_eq, (h.pointer hj).1, Option.bind_some] at hsource
  refine ⟨u, ?_, hu⟩
  unfold tracedLoad
  rw [hsource, Option.bind_some, hword]
  rfl

theorem logs_tracedStore (h : a.Legal inputs mem) (thread : Nat × Nat) (phase : Phase) {i : Nat}
    (hi : i < a.wordCount) : Traced.Logs (Launching a mem) (tracedStore thread phase a.output i (xorAt inputs i)) ()
      [⟨thread, phase, true, a.output, i⟩] := by
  intro u hu
  obtain ⟨u', hstore, hu', -⟩ := storeWord_written h hu hi
  refine ⟨u', ?_, hu'⟩
  unfold tracedStore
  rw [hstore]
  rfl

theorem logs_tracedXorVector (h : a.Legal inputs mem) (thread : Nat × Nat) {v : Nat} (hv : v < a.wordCount / 4) :
    Traced.Logs (Launching a mem) (tracedXorVector a inputs.length thread v)
      ⟨xorAt inputs (4 * v), xorAt inputs (4 * v + 1), xorAt inputs (4 * v + 2), xorAt inputs (4 * v + 3)⟩
      ((List.range inputs.length).flatMap fun j => (Round.vectorLoop v).words.map
        fun i => ⟨thread, .vectorLoop, false, (a.sourcePointer j).getD 0, i⟩) := by
  have hfold := Traced.Logs.fold_range (I := Launching a mem)
    (g := fun m =>
      (⟨xorAt (inputs.take m) (4 * v), xorAt (inputs.take m) (4 * v + 1), xorAt (inputs.take m) (4 * v + 2),
      xorAt (inputs.take m) (4 * v + 3)⟩ : UInt4))
    (f := fun (value : UInt4) sourceIndex => (do
      let source ← Traced.lift (a.sourcePointer sourceIndex)
      let input ← tracedLoadVector thread source v
      return ⟨value.x ^^^ input.x, value.y ^^^ input.y, value.z ^^^ input.z, value.w ^^^ input.w⟩))
    (l := fun j => (Round.vectorLoop v).words.map fun i => ⟨thread, .vectorLoop, false, (a.sourcePointer j).getD 0, i⟩)
    inputs.length 0 (fun j _ hj => ?_)
  · rw [Nat.zero_add, List.take_length, ← List.range_eq_range'] at hfold
    exact hfold
  · rw [Nat.zero_add] at hj
    obtain ⟨x, hx⟩ := h.word hj (show 4 * v < a.wordCount by omega)
    obtain ⟨y, hy⟩ := h.word hj (show 4 * v + 1 < a.wordCount by omega)
    obtain ⟨z, hz⟩ := h.word hj (show 4 * v + 2 < a.wordCount by omega)
    obtain ⟨w, hw⟩ := h.word hj (show 4 * v + 3 < a.wordCount by omega)
    have hload :
        Traced.Logs (Launching a mem) (tracedLoadVector thread ((a.sourcePointer j).getD 0) v) ⟨x, y, z, w⟩ _ :=
      (logs_tracedLoad h thread .vectorLoop hj hx).bind ((logs_tracedLoad h thread .vectorLoop hj hy).bind
        ((logs_tracedLoad h thread .vectorLoop hj hz).bind ((logs_tracedLoad h thread .vectorLoop hj hw).bind
          (Traced.Logs.pure _))))
    rw [xorAt_take_succ hj hx, xorAt_take_succ hj hy, xorAt_take_succ hj hz, xorAt_take_succ hj hw]
    exact (Traced.Logs.lift (h.pointer hj).1).bind (hload.bind (Traced.Logs.pure _))

theorem logs_tracedXorWord (h : a.Legal inputs mem) (thread : Nat × Nat) {i : Nat} (hi : i < a.wordCount) :
    Traced.Logs (Launching a mem) (tracedXorWord a inputs.length thread i) (xorAt inputs i)
      ((List.range inputs.length).flatMap fun j => (Round.tail i).words.map
        fun i => ⟨thread, .tail, false, (a.sourcePointer j).getD 0, i⟩) := by
  have hfold := Traced.Logs.fold_range (I := Launching a mem) (g := fun m => xorAt (inputs.take m) i)
    (f := fun value sourceIndex => (do
      let source ← Traced.lift (a.sourcePointer sourceIndex)
      let word ← tracedLoad thread .tail source i
      return value ^^^ word))
    (l := fun j => (Round.tail i).words.map fun i => ⟨thread, .tail, false, (a.sourcePointer j).getD 0, i⟩)
    inputs.length 0 (fun j _ hj => ?_)
  · rw [Nat.zero_add, List.take_length, ← List.range_eq_range'] at hfold
    exact hfold
  · rw [Nat.zero_add] at hj
    obtain ⟨x, hx⟩ := h.word hj hi
    rw [xorAt_take_succ hj hx]
    exact (Traced.Logs.lift (h.pointer hj).1).bind ((logs_tracedLoad h thread .tail hj hx).bind (Traced.Logs.pure _))

/-- **One round** loads its words from every source and stores them. -/
theorem logs_tracedRound (h : a.Legal inputs mem) {x : (Nat × Nat) × Round} (hx : x.2.InBounds a.wordCount) :
    Traced.Logs (Launching a mem) (tracedRound a inputs.length x) () (roundLog a inputs.length x) := by
  obtain ⟨thread, v | i⟩ := x
  · change v < a.wordCount / 4 at hx
    have hstore : ∀ d < 4, Traced.Logs (Launching a mem)
        (tracedStore thread .vectorLoop a.output (4 * v + d) (xorAt inputs (4 * v + d))) () _ :=
      fun d hd => logs_tracedStore h thread .vectorLoop (by omega)
    exact (logs_tracedXorVector h thread hx).bind ((hstore 0 (by decide)).bind ((hstore 1 (by decide)).bind
      ((hstore 2 (by decide)).bind (hstore 3 (by decide)))))
  · exact (logs_tracedXorWord h thread hx.2).bind (logs_tracedStore h thread .tail hx.2)

theorem round_written (h : a.Legal inputs mem) {r : Round} (hr : r.InBounds a.wordCount) {u : DeviceMemory}
    (hu : Launching a mem u) :
    ∃ u', round a inputs.length u r = some u' ∧ Launching a mem u' ∧ (∀ i, i ∈ r.words → Written a inputs i u') ∧
      ∀ j, Written a inputs j u → Written a inputs j u' := by
  cases r with
  | vectorLoop v =>
    obtain ⟨u', hround, hu', hw, hk⟩ := vectorRound_written h hu hr
    refine ⟨u', hround, hu', fun i hi => hw i ?_, hk⟩
    simp only [Round.words, List.mem_cons, List.not_mem_nil, or_false] at hi
    omega
  | tail i =>
    obtain ⟨u', hround, hu', hw, hk⟩ := tailWord_written h hu hr.2
    refine ⟨u', hround, hu', fun j hj => ?_, hk⟩
    rw [List.mem_singleton.1 hj]
    exact hw

/-- **A launch on any schedule** leaves the XOR of the sources in the output buffer, and logs its rounds. -/
theorem tracedLaunch_ok (h : a.Legal inputs mem) {kernel : Kernel} (hk : kernel.degree inputs.length = inputs.length)
    {blockDim gridDim : Nat} (hb : 3 ≤ blockDim) (hg : 1 ≤ gridDim) {schedule : List ((Nat × Nat) × Round)}
    (hs : IsSchedule a.wordCount blockDim gridDim schedule) :
    tracedLaunch kernel a inputs.length schedule mem =
      some ((), mem.set a.output (some (xorAll a.wordCount inputs)), schedule.flatMap (roundLog a inputs.length)) := by
  have hbounds := hs.inBounds (Nat.mul_pos (by omega) hg)
  obtain ⟨u, hr, hu, hw, -⟩ := run_collect (E := fun (x : (Nat × Nat) × Round) i => i ∈ x.2.words) schedule mem
    (Launching.refl h) (fun x hx u hu => round_written h (hbounds x hx) hu)
  have hall : ∀ i < a.wordCount, Written a inputs i u := by
    intro i hi
    obtain ⟨x, hx, hxi⟩ := List.mem_flatMap.1 ((hs.words hb hg).mem_iff.2 (List.mem_range.2 hi))
    exact hw x hx i hxi
  have hlogs : Traced.Logs (Launching a mem) (tracedLaunch kernel a inputs.length schedule) ()
      (schedule.flatMap (roundLog a inputs.length)) := by
    unfold tracedLaunch
    rw [hk]
    exact Traced.Logs.each schedule (fun x hx => logs_tracedRound h (hbounds x hx))
  refine hlogs.erase (Launching.refl h) (b := ()) ?_
  rw [erase_tracedLaunch, hk, hr, hu.eq_xorAll h hall]
  rfl

/-- **What a round logs**: accesses of its thread and its phase, at its words, to the output if and only if they
store. -/
theorem mem_roundLog (h : a.Legal inputs mem) {x : (Nat × Nat) × Round} {access : Access}
    (hacc : access ∈ roundLog a inputs.length x) :
    access.thread = x.1 ∧ access.phase = x.2.phase ∧ access.wordIndex ∈ x.2.words ∧
      (access.isStore = true ↔ access.pointer = a.output) := by
  unfold roundLog at hacc
  rcases List.mem_append.1 hacc with hacc | hacc
  · obtain ⟨j, hj, hacc⟩ := List.mem_flatMap.1 hacc
    obtain ⟨i, hi, rfl⟩ := List.mem_map.1 hacc
    have hne := (h.pointer (List.mem_range.1 hj)).2
    exact ⟨rfl, rfl, hi, by simpa using hne⟩
  · obtain ⟨i, hi, rfl⟩ := List.mem_map.1 hacc
    exact ⟨rfl, rfl, hi, by simp⟩

theorem Round.InBounds.words {wordCount : Nat} {r : Round} (hr : r.InBounds wordCount) {i : Nat} (hi : i ∈ r.words) :
    i < wordCount ∧ (r.phase = .tail ↔ wordCount / 4 * 4 ≤ i) := by
  cases r with
  | vectorLoop v =>
    change v < wordCount / 4 at hr
    simp only [Round.words, List.mem_cons, List.not_mem_nil, or_false] at hi
    refine ⟨by omega, iff_of_false (by simp [Round.phase]) (by omega)⟩
  | tail w =>
    rw [List.mem_singleton.1 hi]
    exact ⟨hr.2, iff_of_true rfl hr.1⟩

theorem stored_words (a : KernelArgs) (sourceCount : Nat) (schedule : List ((Nat × Nat) × Round)) :
    ((schedule.flatMap (roundLog a sourceCount)).filter Access.isStore).map Access.wordIndex =
      schedule.flatMap fun x => x.2.words := by
  rw [List.filter_flatMap, List.map_flatMap]
  congr 1
  funext x
  have hloads : ((List.range sourceCount).flatMap (fun j => x.2.words.map (fun i =>
      (⟨x.1, x.2.phase, false, (a.sourcePointer j).getD 0, i⟩ : Access)))).filter Access.isStore = [] := by
    rw [List.filter_eq_nil_iff]
    intro access hacc
    obtain ⟨j, -, hacc⟩ := List.mem_flatMap.1 hacc
    obtain ⟨i, -, rfl⟩ := List.mem_map.1 hacc
    exact Bool.false_ne_true
  have hstores : (x.2.words.map (fun i => (⟨x.1, x.2.phase, true, a.output, i⟩ : Access))).filter Access.isStore =
      x.2.words.map (fun i => ⟨x.1, x.2.phase, true, a.output, i⟩) := by
    rw [List.filter_eq_self]
    intro access hacc
    obtain ⟨i, -, rfl⟩ := List.mem_map.1 hacc
    rfl
  unfold roundLog
  rw [List.filter_append, hloads, hstores, List.nil_append, List.map_map]
  exact List.map_id' _

/-- **The kernels store every word once.**  On legal arguments, with the grid that `CalculateGridBlocks` gives, the
dynamic kernel and the one unrolled for the number of sources end with the XOR of the sources in the output, however
their threads interleave.  The accesses are those of threads of the grid and within the buffers, only the output is
stored to, and each of its words by one access of one thread, in the tail if and only if it is past the last vector.
So `LaunchXorOperationCuda` returns the same output whichever kernel it selects. -/
theorem xorKernels_store_each_word_once (h : a.Legal inputs mem) {kernel : Kernel}
    (hk : kernel.degree inputs.length = inputs.length) {config : DeviceTuningConfig}
    (hthreads : 3 ≤ config.threadsPerBlock)
    {schedule : List ((Nat × Nat) × Round)}
    (hs : IsSchedule a.wordCount config.threadsPerBlock (calculateGridBlocks a.wordCount 4 config) schedule) :
    (∃ log, tracedLaunch kernel a inputs.length schedule mem =
        some ((), mem.set a.output (some (xorAll a.wordCount inputs)), log) ∧
      (∀ access ∈ log,
        access.thread ∈ GridStride.threads (calculateGridBlocks a.wordCount 4 config) config.threadsPerBlock ∧
        access.wordIndex < a.wordCount ∧ (access.isStore = true ↔ access.pointer = a.output)) ∧
      ∀ i < a.wordCount, ∃ access, log.filter (fun x => x.isStore && x.wordIndex == i) = [access] ∧
        (access.phase = .tail ↔ a.wordCount / 4 * 4 ≤ i)) ∧
    (∀ i < a.wordCount, (xorAll a.wordCount inputs)[i]? = some (xorAt inputs i)) ∧
    ∀ dev : Device, dev.Healthy → ∀ (index : Nat) (operation : XorOperation), operation.sources.length = inputs.length →
      launchXorOperationCuda dev index operation a.wordCount a.shardTable a.sourceIds a.output mem =
        .returns (mem.set a.output (some (xorAll a.wordCount inputs))) := by
  have hg := one_le_calculateGridBlocks a.wordCount 4 config
  have hbounds := hs.inBounds (Nat.mul_pos (by omega) hg)
  refine ⟨⟨_, tracedLaunch_ok h hk hthreads hg hs, fun access hacc => ?_, fun i hi => ?_⟩,
    fun i hi => getElem?_xorAll hi h.words, fun dev hdev index operation hlen => ?_⟩
  · obtain ⟨x, hx, hacc⟩ := List.mem_flatMap.1 hacc
    obtain ⟨hthread, -, hword, hstore⟩ := mem_roundLog h hacc
    rw [hthread]
    exact ⟨hs.thread hx, ((hbounds x hx).words hword).1, hstore⟩
  · have hone : ((schedule.flatMap (roundLog a inputs.length)).filter
        (fun x => x.isStore && x.wordIndex == i)).length = 1 := by
      have hcount :=
        ((hs.words hthreads hg).count_eq i).trans (List.count_eq_one_of_mem List.nodup_range (List.mem_range.2 hi))
      rw [← stored_words a inputs.length, List.count, List.countP_map, List.countP_filter,
        List.countP_eq_length_filter] at hcount
      rw [← hcount]
      congr 1
      refine List.filter_congr (fun x _ => ?_)
      rw [Function.comp_apply, Bool.and_comm]
    obtain ⟨access, hfilter⟩ := List.length_eq_one_iff.1 hone
    refine ⟨access, hfilter, ?_⟩
    have hmem :
        access ∈ (schedule.flatMap (roundLog a inputs.length)).filter (fun x => x.isStore && x.wordIndex == i) := by
      rw [hfilter]
      exact List.mem_singleton_self access
    obtain ⟨hacc, hstore⟩ := List.mem_filter.1 hmem
    obtain ⟨x, hx, hacc⟩ := List.mem_flatMap.1 hacc
    obtain ⟨-, hphase, hword, -⟩ := mem_roundLog h hacc
    rw [Bool.and_eq_true, beq_iff_eq] at hstore
    rw [hphase, ← hstore.2]
    exact ((hbounds x hx).words hword).2
  · exact launchXorOperationCuda_legal hdev index h hlen.symm

end Logs

def fiveWordArgs : KernelArgs := ⟨[some 0, some 1, some 2], [0, 1], 2, 5⟩

theorem xorKernels_store_each_word_once_fiveWords : ∃ log,
    tracedLaunch (.xorReconstructKernelOptimized 2) fiveWordArgs 2 (threadByThread 5 32 1 (GridStride.threads 1 32))
      [some [1, 2, 3, 4, 5], some [6, 7, 8, 9, 10], some [0, 0, 0, 0, 0]] =
      some ((), [some [1, 2, 3, 4, 5], some [6, 7, 8, 9, 10], some [7, 5, 11, 13, 15]], log) ∧
    ∀ i < 5, ∃ access, log.filter (fun x => x.isStore && x.wordIndex == i) = [access] ∧
    (access.phase = .tail ↔ 4 ≤ i) := by
  have hlegal : fiveWordArgs.Legal [[1, 2, 3, 4, 5], [6, 7, 8, 9, 10]]
      [some [1, 2, 3, 4, 5], some [6, 7, 8, 9, 10], some [0, 0, 0, 0, 0]] := by
    refine ⟨fun j hj => ⟨j, ?_⟩, by decide, _, rfl, rfl⟩
    change j < 2 at hj
    interval_cases j <;> decide
  obtain ⟨⟨log, hrun, -, hone⟩, -⟩ := @xorKernels_store_each_word_once fiveWordArgs _ _ hlegal
    (.xorReconstructKernelOptimized 2) rfl ⟨32, 2⟩ (by decide) _
    (threadByThread_isSchedule (.refl (GridStride.threads 1 32)))
  exact ⟨log, hrun, hone⟩

end CodedLLM
