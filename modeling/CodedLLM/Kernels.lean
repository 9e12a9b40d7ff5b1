import CodedLLM.Codec
import CodedLLM.GridStride
/-!
# Kernels — the XOR kernels, thread by thread

Device memory holds one buffer per shard slot; a device pointer is the slot it belongs to.  A thread reads and writes
through the pointer table as the kernels do, and an access outside a buffer, or through a null pointer, is `none`.  The
threads of a grid run in an arbitrary order.  `launchKernel_ok`: whatever the order and the grid, the output buffer ends
up as the XOR of the sources.
-/
namespace CodedLLM

open Runs

/-- The device buffers, in the order of `device_shards`; `none` is a slot without a buffer. -/
abbrev DeviceMemory := ShardSlots

structure DeviceTuningConfig where
  threadsPerBlock : Nat
  maxGridBlocks : Nat
  deriving DecidableEq, Repr

def calculateGridBlocks (wordCount wordsPerThread : Nat) (config : DeviceTuningConfig) : Nat :=
  let wordsPerBlock := config.threadsPerBlock * wordsPerThread
  let requiredBlocks := wordCount / wordsPerBlock + if wordCount % wordsPerBlock ≠ 0 then 1 else 0
  max 1 (min requiredBlocks config.maxGridBlocks)

/-- What a kernel is launched with: the pointer table, the source ids (already offset), the output and its size. -/
structure KernelArgs where
  shardTable : List (Option Nat)
  sourceIds : List Nat
  output : Nat
  wordCount : Nat

def KernelArgs.source (a : KernelArgs) (mem : DeviceMemory) (sourceIndex : Nat) : Option WordShard :=
  a.sourceIds[sourceIndex]?.bind (fun id => a.shardTable[id]?.join.bind (slotAt mem))

structure UInt4 where
  x : ShardWord
  y : ShardWord
  z : ShardWord
  w : ShardWord

def loadVector (buffer : WordShard) (vectorIndex : Nat) : Option UInt4 :=
  buffer[4 * vectorIndex]?.bind fun x => buffer[4 * vectorIndex + 1]?.bind fun y =>
    buffer[4 * vectorIndex + 2]?.bind fun z => buffer[4 * vectorIndex + 3]?.map fun w => ⟨x, y, z, w⟩

def storeWord (output : Nat) (mem : DeviceMemory) (wordIndex : Nat) (value : ShardWord) : Option DeviceMemory :=
  (slotAt mem output).bind fun buffer =>
    if wordIndex < buffer.length then some (mem.set output (some (buffer.set wordIndex value))) else none

def storeVector (output : Nat) (mem : DeviceMemory) (vectorIndex : Nat) (value : UInt4) : Option DeviceMemory :=
  (storeWord output mem (4 * vectorIndex) value.x).bind fun mem =>
    (storeWord output mem (4 * vectorIndex + 1) value.y).bind fun mem =>
      (storeWord output mem (4 * vectorIndex + 2) value.z).bind fun mem =>
        storeWord output mem (4 * vectorIndex + 3) value.w

def xorVector (a : KernelArgs) (sourceCount : Nat) (mem : DeviceMemory) (vectorIndex : Nat) : Option UInt4 :=
  run (fun (value : UInt4) sourceIndex => (a.source mem sourceIndex).bind fun buffer =>
    (loadVector buffer vectorIndex).map fun input =>
      ⟨value.x ^^^ input.x, value.y ^^^ input.y, value.z ^^^ input.z, value.w ^^^ input.w⟩)
    ⟨0, 0, 0, 0⟩ (List.range sourceCount)

def xorWord (a : KernelArgs) (sourceCount : Nat) (mem : DeviceMemory) (wordIndex : Nat) : Option ShardWord :=
  run (fun value sourceIndex => (a.source mem sourceIndex).bind fun buffer =>
    buffer[wordIndex]?.map fun input => value ^^^ input) 0 (List.range sourceCount)

def vectorRound (a : KernelArgs) (sourceCount : Nat) (mem : DeviceMemory) (vectorIndex : Nat) : Option DeviceMemory :=
  (xorVector a sourceCount mem vectorIndex).bind (storeVector a.output mem vectorIndex)

/-- One thread of a kernel over `sourceCount` sources: the grid-stride loop over vectors, then the tail. -/
def xorReconstructThread (a : KernelArgs) (sourceCount blockDim gridDim : Nat) (mem : DeviceMemory)
    (thread : Nat × Nat) : Option DeviceMemory :=
  let vectorWordCount := a.wordCount / 4
  let stride := blockDim * gridDim
  (run (vectorRound a sourceCount) mem
      (GridStride.visits stride vectorWordCount (thread.1 * blockDim + thread.2))).bind fun mem =>
    let tailStart := vectorWordCount * 4
    let tailCount := a.wordCount - tailStart
    if thread.1 = 0 ∧ thread.2 < tailCount then
      (xorWord a sourceCount mem (tailStart + thread.2)).bind (storeWord a.output mem (tailStart + thread.2))
    else some mem

/-- The two kernels: the unrolled one for a fixed degree, and the one that takes the degree as an argument. -/
inductive Kernel where
  | xorReconstructKernelOptimized (degree : Nat)
  | xorReconstructKernelDynamic
  deriving DecidableEq, Repr

def Kernel.degree : Kernel → Nat → Nat
  | .xorReconstructKernelOptimized degree, _ => degree
  | .xorReconstructKernelDynamic, sourceCount => sourceCount

/-- The degree switch of `LaunchXorOperationCuda`. -/
def selectKernel (sourceCount : Nat) : Kernel :=
  match sourceCount with
  | 2 => .xorReconstructKernelOptimized 2
  | 3 => .xorReconstructKernelOptimized 3
  | 4 => .xorReconstructKernelOptimized 4
  | 5 => .xorReconstructKernelOptimized 5
  | 6 => .xorReconstructKernelOptimized 6
  | _ => .xorReconstructKernelDynamic

def launchKernel (kernel : Kernel) (a : KernelArgs) (sourceCount blockDim gridDim : Nat) (order : List (Nat × Nat))
    (mem : DeviceMemory) : Option DeviceMemory :=
  run (xorReconstructThread a (kernel.degree sourceCount) blockDim gridDim) mem order

/-! ## What a launch computes -/

theorem selectKernel_degree (sourceCount : Nat) : (selectKernel sourceCount).degree sourceCount = sourceCount := by
  unfold selectKernel
  split <;> rfl

theorem one_le_calculateGridBlocks (wordCount wordsPerThread : Nat) (config : DeviceTuningConfig) :
    1 ≤ calculateGridBlocks wordCount wordsPerThread config :=
  Nat.le_max_left ..

def xorAt (inputs : List WordShard) (i : Nat) : ShardWord := (inputs.filterMap (·[i]?)).foldl (· ^^^ ·) 0

theorem getElem?_xorAll {n i : Nat} (hi : i < n) {ws : List WordShard} (h : ∀ w ∈ ws, w.length = n) :
    (xorAll n ws)[i]? = some (xorAt ws i) :=
  XorWords.getElem?_combineAll hi ws h

/-- **The launch is legal**: the sources are there, all of the output's size, and none of them is the output. -/
structure KernelArgs.Legal (a : KernelArgs) (inputs : List WordShard) (mem : DeviceMemory) : Prop where
  sources : ∀ j < inputs.length, ∃ ptr, a.sourceIds[j]?.bind (fun id => a.shardTable[id]?.join) = some ptr ∧
    ptr ≠ a.output ∧ slotAt mem ptr = inputs[j]?
  words : ∀ w ∈ inputs, w.length = a.wordCount
  output : ∃ buffer, slotAt mem a.output = some buffer ∧ buffer.length = a.wordCount

theorem KernelArgs.Legal.source {a : KernelArgs} {inputs : List WordShard} {mem : DeviceMemory} (h : a.Legal inputs mem)
    {j : Nat} (hj : j < inputs.length) : a.source mem j = some inputs[j] := by
  obtain ⟨ptr, hp, -, hs⟩ := h.sources j hj
  obtain ⟨id, hid, hptr⟩ := Option.bind_eq_some_iff.1 hp
  unfold KernelArgs.source
  rw [hid, Option.bind_some, hptr, Option.bind_some, hs, List.getElem?_eq_getElem hj]

theorem xorAt_take_succ {inputs : List WordShard} {m i : Nat} (hm : m < inputs.length) {x : ShardWord}
    (hx : inputs[m][i]? = some x) : xorAt (inputs.take (m + 1)) i = xorAt (inputs.take m) i ^^^ x := by
  have hsplit : inputs.take (m + 1) = inputs.take m ++ [inputs[m]] := by
    rw [List.take_add_one, List.getElem?_eq_getElem hm]
    rfl
  unfold xorAt
  rw [hsplit, List.filterMap_append, List.foldl_append]
  simp [hx]

section Launch

variable {a : KernelArgs} {inputs : List WordShard} {mem : DeviceMemory}

theorem KernelArgs.Legal.word (h : a.Legal inputs mem) {m i : Nat} (hm : m < inputs.length) (hi : i < a.wordCount) :
    ∃ x, inputs[m][i]? = some x := by
  have hl : i < inputs[m].length := by
    rw [h.words _ (List.getElem_mem hm)]
    exact hi
  exact ⟨_, List.getElem?_eq_getElem hl⟩

theorem xorWord_eq (h : a.Legal inputs mem) {i : Nat} (hi : i < a.wordCount) :
    xorWord a inputs.length mem i = some (xorAt inputs i) := by
  have hrun := run_range (f := fun value j => (a.source mem j).bind fun buffer =>
    buffer[i]?.map fun input => value ^^^ input) (g := fun m => xorAt (inputs.take m) i) inputs.length (fun m hm => by
      obtain ⟨x, hx⟩ := h.word hm hi
      simp only [h.source hm, Option.bind_some, hx, Option.map_some, xorAt_take_succ hm hx])
  rw [List.take_length] at hrun
  exact hrun

theorem xorVector_eq (h : a.Legal inputs mem) {v : Nat} (hv : 4 * v + 3 < a.wordCount) :
    xorVector a inputs.length mem v = some ⟨xorAt inputs (4 * v), xorAt inputs (4 * v + 1), xorAt inputs (4 * v + 2),
      xorAt inputs (4 * v + 3)⟩ := by
  have hrun := run_range (f := fun (value : UInt4) j => (a.source mem j).bind fun buffer =>
    (loadVector buffer v).map fun input =>
      (⟨value.x ^^^ input.x, value.y ^^^ input.y, value.z ^^^ input.z, value.w ^^^ input.w⟩ : UInt4))
    (g := fun m => ⟨xorAt (inputs.take m) (4 * v), xorAt (inputs.take m) (4 * v + 1), xorAt (inputs.take m) (4 * v + 2),
      xorAt (inputs.take m) (4 * v + 3)⟩) inputs.length (fun m hm => by
      obtain ⟨x, hx⟩ := h.word hm (show 4 * v < a.wordCount by omega)
      obtain ⟨y, hy⟩ := h.word hm (show 4 * v + 1 < a.wordCount by omega)
      obtain ⟨z, hz⟩ := h.word hm (show 4 * v + 2 < a.wordCount by omega)
      obtain ⟨w, hw⟩ := h.word hm hv
      simp only [h.source hm, Option.bind_some, loadVector, hx, hy, hz, hw, Option.map_some, xorAt_take_succ hm hx,
        xorAt_take_succ hm hy, xorAt_take_succ hm hz, xorAt_take_succ hm hw])
  rw [List.take_length] at hrun
  exact hrun

/-- What a launch has done so far: only the output buffer differs, and it keeps its size. -/
def Launching (a : KernelArgs) (mem u : DeviceMemory) : Prop :=
  ∃ buffer : WordShard, u = mem.set a.output (some buffer) ∧ buffer.length = a.wordCount

def Written (a : KernelArgs) (inputs : List WordShard) (i : Nat) (u : DeviceMemory) : Prop :=
  (slotAt u a.output).bind (·[i]?) = some (xorAt inputs i)

theorem KernelArgs.Legal.bound (h : a.Legal inputs mem) : a.output < mem.length := by
  obtain ⟨buffer, hb, -⟩ := h.output
  exact lt_length_of_slotAt hb

theorem Launching.legal (h : a.Legal inputs mem) {u : DeviceMemory} (hu : Launching a mem u) : a.Legal inputs u := by
  obtain ⟨buffer, rfl, hl⟩ := hu
  refine ⟨fun j hj => ?_, h.words, buffer, by rw [slotAt_set h.bound, if_pos rfl], hl⟩
  obtain ⟨ptr, hp, hne, hs⟩ := h.sources j hj
  exact ⟨ptr, hp, hne, by rw [slotAt_set h.bound, if_neg hne, hs]⟩

/-- **One store of a final word**: legal, and no final word is undone. -/
theorem storeWord_written (h : a.Legal inputs mem) {u : DeviceMemory} (hu : Launching a mem u) {i : Nat}
    (hi : i < a.wordCount) :
    ∃ u', storeWord a.output u i (xorAt inputs i) = some u' ∧ Launching a mem u' ∧ Written a inputs i u' ∧
      ∀ j, Written a inputs j u → Written a inputs j u' := by
  obtain ⟨buffer, rfl, hl⟩ := hu
  have hb : i < buffer.length := by
    rw [hl]
    exact hi
  have hslot : ∀ b : WordShard, slotAt (mem.set a.output (some b)) a.output = some b := fun b => by
    rw [slotAt_set h.bound, if_pos rfl]
  refine ⟨mem.set a.output (some (buffer.set i (xorAt inputs i))), ?_, ⟨_, rfl, by rw [List.length_set, hl]⟩, ?_,
    fun j hj => ?_⟩
  · unfold storeWord
    rw [hslot, Option.bind_some, if_pos hb, List.set_set]
  · unfold Written
    rw [hslot, Option.bind_some, List.getElem?_set_self hb]
  · unfold Written at hj ⊢
    rw [hslot, Option.bind_some] at hj ⊢
    by_cases hij : i = j
    · subst hij
      rw [List.getElem?_set_self hb]
    · rw [List.getElem?_set_ne hij, hj]

theorem storeVector_written (h : a.Legal inputs mem) {u : DeviceMemory} (hu : Launching a mem u) {v : Nat}
    (hv : 4 * v + 3 < a.wordCount) :
    ∃ u', storeVector a.output u v ⟨xorAt inputs (4 * v), xorAt inputs (4 * v + 1), xorAt inputs (4 * v + 2),
        xorAt inputs (4 * v + 3)⟩ = some u' ∧ Launching a mem u' ∧ (∀ i, i / 4 = v → Written a inputs i u') ∧
      ∀ j, Written a inputs j u → Written a inputs j u' := by
  obtain ⟨u₁, h₁, hu₁, hw₁, hk₁⟩ := storeWord_written h hu (show 4 * v < a.wordCount by omega)
  obtain ⟨u₂, h₂, hu₂, hw₂, hk₂⟩ := storeWord_written h hu₁ (show 4 * v + 1 < a.wordCount by omega)
  obtain ⟨u₃, h₃, hu₃, hw₃, hk₃⟩ := storeWord_written h hu₂ (show 4 * v + 2 < a.wordCount by omega)
  obtain ⟨u₄, h₄, hu₄, hw₄, hk₄⟩ := storeWord_written h hu₃ hv
  refine ⟨u₄, ?_, hu₄, fun i hi => ?_, fun j hj => hk₄ j (hk₃ j (hk₂ j (hk₁ j hj)))⟩
  · unfold storeVector
    rw [h₁, Option.bind_some, h₂, Option.bind_some, h₃, Option.bind_some, h₄]
  · obtain rfl | rfl | rfl | rfl : i = 4 * v ∨ i = 4 * v + 1 ∨ i = 4 * v + 2 ∨ i = 4 * v + 3 := by omega
    · exact hk₄ _ (hk₃ _ (hk₂ _ hw₁))
    · exact hk₄ _ (hk₃ _ hw₂)
    · exact hk₄ _ hw₃
    · exact hw₄

def threadCovers (wordCount blockDim gridDim : Nat) (thread : Nat × Nat) (i : Nat) : Prop :=
  i / 4 ∈ GridStride.visits (blockDim * gridDim) (wordCount / 4) (thread.1 * blockDim + thread.2) ∨
    thread.1 = 0 ∧ thread.2 < wordCount - wordCount / 4 * 4 ∧ i = wordCount / 4 * 4 + thread.2

/-- **One round of the vector loop**: its four words are final when it ends. -/
theorem vectorRound_written (h : a.Legal inputs mem) {u : DeviceMemory} (hu : Launching a mem u) {v : Nat}
    (hv : v < a.wordCount / 4) :
    ∃ u', vectorRound a inputs.length u v = some u' ∧ Launching a mem u' ∧ (∀ i, i / 4 = v → Written a inputs i u') ∧
      ∀ j, Written a inputs j u → Written a inputs j u' := by
  have hlt : 4 * v + 3 < a.wordCount := by omega
  unfold vectorRound
  rw [xorVector_eq (hu.legal h) hlt, Option.bind_some]
  exact storeVector_written h hu hlt

theorem tailWord_written (h : a.Legal inputs mem) {u : DeviceMemory} (hu : Launching a mem u) {i : Nat}
    (hi : i < a.wordCount) :
    ∃ u', (xorWord a inputs.length u i).bind (storeWord a.output u i) = some u' ∧ Launching a mem u' ∧
      Written a inputs i u' ∧ ∀ j, Written a inputs j u → Written a inputs j u' := by
  rw [xorWord_eq (hu.legal h) hi, Option.bind_some]
  exact storeWord_written h hu hi

/-- **One thread**: it makes only legal accesses, and its words are final when it ends. -/
theorem xorReconstructThread_written (h : a.Legal inputs mem) {blockDim gridDim : Nat} (hs : 0 < blockDim * gridDim)
    (thread : Nat × Nat) {u : DeviceMemory} (hu : Launching a mem u) :
    ∃ u', xorReconstructThread a inputs.length blockDim gridDim u thread = some u' ∧ Launching a mem u' ∧
      (∀ i, threadCovers a.wordCount blockDim gridDim thread i → Written a inputs i u') ∧
      ∀ j, Written a inputs j u → Written a inputs j u' := by
  obtain ⟨u₁, hr, hu₁, hw₁, hk₁⟩ := run_collect (E := fun v i => i / 4 = v)
    (GridStride.visits (blockDim * gridDim) (a.wordCount / 4) (thread.1 * blockDim + thread.2)) u hu
    (fun v hv u hu => vectorRound_written h hu ((GridStride.mem_visits hs _ _).1 hv).1)
  unfold xorReconstructThread
  simp only [hr, Option.bind_some]
  by_cases ht : thread.1 = 0 ∧ thread.2 < a.wordCount - a.wordCount / 4 * 4
  · rw [if_pos ht]
    obtain ⟨u₂, h₂, hu₂, hw₂, hk₂⟩ := tailWord_written h hu₁ (i := a.wordCount / 4 * 4 + thread.2) (by omega)
    refine ⟨u₂, h₂, hu₂, fun i hi => ?_, fun j hj => hk₂ j (hk₁ j hj)⟩
    rcases hi with hi | ⟨-, -, rfl⟩
    · exact hk₂ i (hw₁ _ hi i rfl)
    · exact hw₂
  · rw [if_neg ht]
    refine ⟨u₁, rfl, hu₁, fun i hi => ?_, hk₁⟩
    rcases hi with hi | ⟨h0, hlt, -⟩
    · exact hw₁ _ hi i rfl
    · exact absurd ⟨h0, hlt⟩ ht

theorem exists_threadCovers {wordCount blockDim gridDim i : Nat} (hb : 3 ≤ blockDim) (hg : 1 ≤ gridDim)
    (hi : i < wordCount) :
    ∃ thread ∈ GridStride.threads gridDim blockDim, threadCovers wordCount blockDim gridDim thread i := by
  by_cases hv : i / 4 < wordCount / 4
  · obtain ⟨thread, ht, hvis⟩ := GridStride.exists_visit hg (show 0 < blockDim by omega) hv
    exact ⟨thread, ht, .inl hvis⟩
  · refine ⟨(0, i - wordCount / 4 * 4), GridStride.mem_threads.2 ⟨hg, ?_⟩, .inr ⟨rfl, ?_, ?_⟩⟩
    · show i - wordCount / 4 * 4 < blockDim
      omega
    · show i - wordCount / 4 * 4 < wordCount - wordCount / 4 * 4
      omega
    · show i = wordCount / 4 * 4 + (i - wordCount / 4 * 4)
      omega

theorem Launching.refl (h : a.Legal inputs mem) : Launching a mem mem := by
  obtain ⟨buffer, hbuf, hl⟩ := h.output
  refine ⟨buffer, ?_, hl⟩
  obtain ⟨hlt, hget⟩ := List.getElem?_eq_some_iff.1 (slotAt_eq_some.1 hbuf)
  rw [← hget, List.set_getElem_self]

/-- **A launch is over when every word is final**: the output buffer is the XOR of the sources. -/
theorem Launching.eq_xorAll (h : a.Legal inputs mem) {u : DeviceMemory} (hu : Launching a mem u)
    (hw : ∀ i < a.wordCount, Written a inputs i u) : u = mem.set a.output (some (xorAll a.wordCount inputs)) := by
  obtain ⟨buffer, rfl, hl⟩ := hu
  have hx : buffer = xorAll a.wordCount inputs := by
    apply List.ext_getElem?
    intro i
    by_cases hi : i < a.wordCount
    · have hfin := hw i hi
      unfold Written at hfin
      rw [slotAt_set h.bound, if_pos rfl, Option.bind_some] at hfin
      rw [hfin, getElem?_xorAll hi h.words]
    · rw [List.getElem?_eq_none (by omega), List.getElem?_eq_none]
      rw [xorAll, XorWords.length_combineAll inputs h.words]
      omega
  rw [hx]

/-- **A launch leaves the XOR of the sources in the output buffer** and nothing else changed, in whatever order the
threads of the grid run. -/
theorem launchKernel_ok (h : a.Legal inputs mem) {kernel : Kernel} (hk : kernel.degree inputs.length = inputs.length)
    {blockDim gridDim : Nat} (hb : 3 ≤ blockDim) (hg : 1 ≤ gridDim) {order : List (Nat × Nat)}
    (ho : order.Perm (GridStride.threads gridDim blockDim)) :
    launchKernel kernel a inputs.length blockDim gridDim order mem =
      some (mem.set a.output (some (xorAll a.wordCount inputs))) := by
  obtain ⟨u, hr, hu, hw, -⟩ := run_collect (E := threadCovers a.wordCount blockDim gridDim) order mem (Launching.refl h)
    (fun thread _ u hu => xorReconstructThread_written h (Nat.mul_pos (by omega) hg) thread hu)
  have hall : ∀ i < a.wordCount, Written a inputs i u := by
    intro i hi
    obtain ⟨thread, ht, hcov⟩ := exists_threadCovers hb hg hi
    exact hw thread (ho.mem_iff.2 ht) i hcov
  unfold launchKernel
  rw [hk, hr, hu.eq_xorAll h hall]

end Launch

end CodedLLM
