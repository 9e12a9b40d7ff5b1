import CodedLLM.Kernels
/-!
# LaunchTuning — launch configurations and their cache

`GetCachedOptimalLaunchConfig` asks the occupancy calculator for a kernel on a device and keeps the answer.  Its calls
come from any thread, one at a time under the lock; the current device is the calling thread's.  Whatever fails in a
run of calls, the cache has one configuration for a kernel and device, and a launch with it stays within the device's
limits (`cached_configs_fit`).
-/
namespace CodedLLM
namespace LaunchTuning

inductive RuntimeCall where
  | getDevice | setDevice | getDeviceProperties | maxPotentialBlockSize | maxActiveBlocks | restoreDevice
  deriving DecidableEq, Repr

/-- What the runtime answers during one call: which of its calls fail, and what the others say about a kernel and a
device. -/
structure Driver (κ : Type) where
  fails : RuntimeCall → Option Exn
  multiProcessorCount : Nat → Int
  maxGridSize : Nat → Nat
  minGridSize : κ → Nat → Nat
  blockSize : κ → Nat → Nat
  activeBlocks : κ → Nat → Nat → Nat

structure TuningConfig extends DeviceTuningConfig where
  blocksPerSm : Nat
  vectorizationThresholdWords : Nat
  deriving DecidableEq, Repr

variable {κ : Type}

def Driver.check (driver : Driver κ) (call : RuntimeCall) : Except Exn Unit :=
  match driver.fails call with
  | some e => .error e
  | none   => .ok ()

def intMax : Nat := 2 ^ 31 - 1

def queryOccupancy (driver : Driver κ) (kernel : κ) (deviceId : Nat) : Except Exn TuningConfig :=
  match driver.check .getDeviceProperties with
  | .error e => .error e
  | .ok () =>
    if driver.multiProcessorCount deviceId ≤ 0 then
      .error (.runtimeError "CUDA device reports no streaming multiprocessors")
    else
      match forEach driver.check [.maxPotentialBlockSize, .maxActiveBlocks] with
      | .error e => .error e
      | .ok () =>
        let processors := (driver.multiProcessorCount deviceId).toNat
        let blockSize := driver.blockSize kernel deviceId
        let potentialBlocksPerSm := max 1 ((driver.minGridSize kernel deviceId + processors - 1) / processors)
        let blocksPerSm := max 1 (min potentialBlocksPerSm (driver.activeBlocks kernel deviceId blockSize))
        let requestedGridBlocks := processors * blocksPerSm * 2
        .ok { threadsPerBlock := blockSize
              maxGridBlocks := min (min requestedGridBlocks (driver.maxGridSize deviceId)) intMax
              blocksPerSm := blocksPerSm
              vectorizationThresholdWords := blockSize * 4 }

/-- `GetOptimalLaunchConfig` on a thread whose current device is `device`, and the device it leaves. -/
def getOptimalLaunchConfig (driver : Driver κ) (kernel : κ) (deviceId device : Nat) : Except Exn TuningConfig × Nat :=
  match driver.check .getDevice with
  | .error e => (.error e, device)
  | .ok () =>
    match if device ≠ deviceId then driver.check .setDevice else .ok () with
    | .error e => (.error e, device)
    | .ok () =>
      match queryOccupancy driver kernel deviceId with
      | .error e => (.error e, deviceId)
      | .ok config =>
        match if device ≠ deviceId then driver.check .restoreDevice else .ok () with
        | .error e => (.error e, deviceId)
        | .ok ()   => (.ok config, device)

/-! ## One query -/

/-- What the runtime documents: block sizes are whole warps, and a grid may have a block. -/
structure Driver.Documented (limit : Nat → Nat) (driver : Driver κ) : Prop where
  grid : ∀ deviceId, driver.maxGridSize deviceId = limit deviceId ∧ 1 ≤ limit deviceId
  warps : ∀ kernel deviceId, 32 ≤ driver.blockSize kernel deviceId

/-- A configuration that the device can be launched with; a warp is more than the three threads that the kernels'
tails need. -/
structure TuningConfig.Fits (limit : Nat) (config : TuningConfig) : Prop where
  warps : 32 ≤ config.threadsPerBlock
  grid : 1 ≤ config.maxGridBlocks ∧ config.maxGridBlocks ≤ limit ∧ config.maxGridBlocks ≤ intMax
  blocks : 1 ≤ config.blocksPerSm
  threshold : config.vectorizationThresholdWords = config.threadsPerBlock * 4

theorem queryOccupancy_fits {limit : Nat → Nat} {driver : Driver κ} (hdriver : driver.Documented limit) {kernel : κ}
    {deviceId : Nat}
    {config : TuningConfig} (h : queryOccupancy driver kernel deviceId = .ok config) :
    config.Fits (limit deviceId) := by
  obtain ⟨hgrid, hlimit⟩ := hdriver.grid deviceId
  have hwarps := hdriver.warps kernel deviceId
  unfold queryOccupancy at h
  split at h
  · cases h
  · split at h
    · cases h
    case isFalse hprocessors =>
      split at h
      · cases h
      · obtain rfl := Except.ok.inj h
        refine ⟨hwarps, ⟨?_, ?_, ?_⟩, le_max_left _ _, rfl⟩
        · -- at least one processor runs at least one block
          have hpos : 1 ≤ (driver.multiProcessorCount deviceId).toNat := by omega
          refine le_min (le_min ?_ (hgrid ▸ hlimit)) (by decide)
          exact Nat.mul_pos (Nat.mul_pos hpos (lt_of_lt_of_le Nat.one_pos (le_max_left _ _))) (by decide)
        · exact (min_le_left _ _).trans ((min_le_right _ _).trans_eq hgrid)
        · exact min_le_right _ _

theorem getOptimalLaunchConfig_cases (driver : Driver κ) (kernel : κ) (deviceId device : Nat) :
    (∃ config, queryOccupancy driver kernel deviceId = .ok config ∧
      getOptimalLaunchConfig driver kernel deviceId device = (.ok config, device)) ∨
    ∃ e device', (device' = device ∨ device' = deviceId) ∧
      getOptimalLaunchConfig driver kernel deviceId device = (.error e, device') := by
  unfold getOptimalLaunchConfig
  cases driver.check .getDevice with
  | error e => exact .inr ⟨e, device, .inl rfl, rfl⟩
  | ok u =>
    cases (if device ≠ deviceId then driver.check .setDevice else .ok ()) with
    | error e => exact .inr ⟨e, device, .inl rfl, rfl⟩
    | ok u =>
      cases hquery : queryOccupancy driver kernel deviceId with
      | error e => exact .inr ⟨e, deviceId, .inr rfl, rfl⟩
      | ok config =>
        cases (if device ≠ deviceId then driver.check .restoreDevice else .ok ()) with
        | error e => exact .inr ⟨e, deviceId, .inr rfl, rfl⟩
        | ok u => exact .inl ⟨config, rfl, rfl⟩

/-! ## The cache -/

structure CacheEntry (κ : Type) where
  deviceId : Nat
  kernel : κ
  config : TuningConfig
  deriving DecidableEq

structure Tuning (κ : Type) where
  cache : List (CacheEntry κ)
  device : Nat → Nat

structure Call (κ : Type) where
  thread : Nat
  driver : Driver κ
  kernel : κ
  deviceId : Nat

def CacheEntry.key (entry : CacheEntry κ) : Nat × κ := (entry.deviceId, entry.kernel)

def Call.key (call : Call κ) : Nat × κ := (call.deviceId, call.kernel)

variable [DecidableEq κ]

def getCachedOptimalLaunchConfig (s : Tuning κ) (call : Call κ) : Except Exn TuningConfig × Tuning κ :=
  match s.cache.find? (fun entry => entry.deviceId == call.deviceId && entry.kernel == call.kernel) with
  | some entry => (.ok entry.config, s)
  | none =>
    match getOptimalLaunchConfig call.driver call.kernel call.deviceId (s.device call.thread) with
    | (.error e, device)   => (.error e, { s with device := Function.update s.device call.thread device })
    | (.ok config, device) =>
      (.ok config, ⟨s.cache ++ [⟨call.deviceId, call.kernel, config⟩], Function.update s.device call.thread device⟩)

def after (s : Tuning κ) (calls : List (Call κ)) :
    Tuning κ := calls.foldl (fun s call => (getCachedOptimalLaunchConfig s call).2) s

/-- **What a call does**: it finds its configuration, or it asks for one and enters it, or it throws. -/
theorem getCached_cases (s : Tuning κ) (call : Call κ) :
    (∃ entry ∈ s.cache, entry.key = call.key ∧ getCachedOptimalLaunchConfig s call = (.ok entry.config, s)) ∨
    call.key ∉ s.cache.map CacheEntry.key ∧
      ((∃ config, queryOccupancy call.driver call.kernel call.deviceId = .ok config ∧
          getCachedOptimalLaunchConfig s call =
            (.ok config, { s with cache := s.cache ++ [⟨call.deviceId, call.kernel, config⟩] })) ∨
        ∃ e device, (device = s.device call.thread ∨ device = call.deviceId) ∧
          getCachedOptimalLaunchConfig s call =
            (.error e, { s with device := Function.update s.device call.thread device })) := by
  unfold getCachedOptimalLaunchConfig
  cases hfind : s.cache.find? (fun entry => entry.deviceId == call.deviceId && entry.kernel == call.kernel) with
  | some entry =>
    have hkey := List.find?_some hfind
    rw [Bool.and_eq_true, beq_iff_eq, beq_iff_eq] at hkey
    exact .inl ⟨entry, List.mem_of_find?_eq_some hfind, Prod.ext hkey.1 hkey.2, rfl⟩
  | none =>
    right
    constructor
    · intro hmem
      obtain ⟨entry, hentry, hkey⟩ := List.mem_map.1 hmem
      apply List.find?_eq_none.1 hfind entry hentry
      rw [Bool.and_eq_true, beq_iff_eq, beq_iff_eq]
      exact Prod.mk.inj hkey
    · rcases getOptimalLaunchConfig_cases call.driver call.kernel call.deviceId (s.device call.thread) with
        ⟨config, hquery, hcall⟩ | ⟨e, device, hdevice, hcall⟩
      · left
        refine ⟨config, hquery, ?_⟩
        simp only [hcall, Function.update_eq_self]
      · right
        refine ⟨e, device, hdevice, ?_⟩
        simp only [hcall]

structure Kept (limit : Nat → Nat) (s : Tuning κ) : Prop where
  nodup : (s.cache.map CacheEntry.key).Nodup
  fits : ∀ entry ∈ s.cache, entry.config.Fits (limit entry.deviceId)

theorem getCached_extends (s : Tuning κ) (call : Call κ) :
    s.cache <+: (getCachedOptimalLaunchConfig s call).2.cache := by
  rcases getCached_cases s call with ⟨entry, -, -, h⟩ | ⟨-, ⟨config, -, h⟩ | ⟨e, device, -, h⟩⟩
  · rw [h]
  · rw [h]
    exact List.prefix_append _ _
  · rw [h]

theorem getCached_nodup {s : Tuning κ} (hs : (s.cache.map CacheEntry.key).Nodup) (call : Call κ) :
    ((getCachedOptimalLaunchConfig s call).2.cache.map CacheEntry.key).Nodup := by
  rcases getCached_cases s call with ⟨entry, -, -, h⟩ | ⟨hfresh, ⟨config, -, h⟩ | ⟨e, device, -, h⟩⟩
  · rwa [h]
  · rw [h, List.map_append]
    apply hs.append (List.nodup_singleton _)
    exact List.disjoint_singleton.2 hfresh
  · rwa [h]

theorem getCached_kept {limit : Nat → Nat} {s : Tuning κ} (hs : Kept limit s) {call : Call κ}
    (hcall : call.driver.Documented limit) : Kept limit (getCachedOptimalLaunchConfig s call).2 := by
  refine ⟨getCached_nodup hs.nodup call, ?_⟩
  rcases getCached_cases s call with ⟨entry, -, -, h⟩ | ⟨-, ⟨config, hquery, h⟩ | ⟨e, device, -, h⟩⟩
  · rw [h]
    exact hs.fits
  · rw [h]
    intro entry hentry
    rcases List.mem_append.1 hentry with hentry | hentry
    · exact hs.fits entry hentry
    · rw [List.mem_singleton.1 hentry]
      exact queryOccupancy_fits hcall hquery
  · rw [h]
    exact hs.fits

/-! ## Runs -/

theorem after_extends : ∀ (calls : List (Call κ)) (s : Tuning κ), s.cache <+: (after s calls).cache
  | [], _ => List.prefix_rfl
  | call :: calls, s => (getCached_extends s call).trans (after_extends calls _)

theorem after_nodup : ∀ (calls : List (Call κ)) (s : Tuning κ), (s.cache.map CacheEntry.key).Nodup →
    ((after s calls).cache.map CacheEntry.key).Nodup
  | [], _, hs => hs
  | call :: calls, _, hs => after_nodup calls _ (getCached_nodup hs call)

theorem after_kept {limit : Nat → Nat} : ∀ (calls : List (Call κ)) (s : Tuning κ), Kept limit s →
    (∀ call ∈ calls, call.driver.Documented limit) → Kept limit (after s calls)
  | [], _, hs, _ => hs
  | call :: calls, _, hs, hcalls =>
    after_kept calls _ (getCached_kept hs (hcalls call List.mem_cons_self))
      (fun c hc => hcalls c (List.mem_cons_of_mem _ hc))

theorem getCached_of_mem {s : Tuning κ} (hs : (s.cache.map CacheEntry.key).Nodup) {entry : CacheEntry κ}
    (hentry : entry ∈ s.cache) {call : Call κ} (hkey : call.key = entry.key) :
    getCachedOptimalLaunchConfig s call = (.ok entry.config, s) := by
  rcases getCached_cases s call with ⟨entry', hentry', hkey', h⟩ | ⟨hfresh, -⟩
  · obtain rfl := List.inj_on_of_nodup_map hs hentry' hentry (hkey'.trans hkey)
    exact h
  · exact absurd (List.mem_map.2 ⟨entry, hentry, hkey.symm⟩) hfresh

theorem getCached_entered {s s' : Tuning κ} {call : Call κ} {config : TuningConfig}
    (h : getCachedOptimalLaunchConfig s call = (.ok config, s')) :
    s'.device = s.device ∧ ∃ entry ∈ s'.cache, entry.key = call.key ∧ entry.config = config := by
  rcases getCached_cases s call with ⟨entry, hentry, hkey, hcall⟩ | ⟨-, ⟨config', -, hcall⟩ | ⟨e, device, -, hcall⟩⟩
  · obtain ⟨hconfig, rfl⟩ := Prod.mk.inj (hcall.symm.trans h)
    exact ⟨rfl, entry, hentry, hkey, Except.ok.inj hconfig⟩
  · obtain ⟨hconfig, rfl⟩ := Prod.mk.inj (hcall.symm.trans h)
    exact ⟨rfl, _, List.mem_append_right _ (List.mem_singleton_self _), rfl, Except.ok.inj hconfig⟩
  · cases (Prod.mk.inj (hcall.symm.trans h)).1

/-- **Every configuration fits its device and stays.**  Behind any run of calls, with any failures, the cache has one
entry for a kernel and device.  A call that returns leaves every thread its device, its configuration keeps all
launches within the device's limits, and all later calls for the key return the same.  A call that throws leaves the
cache alone, and at most its own thread on the device that it asked about. -/
theorem cached_configs_fit (limit : Nat → Nat) (device : Nat → Nat) {calls : List (Call κ)} {call : Call κ}
    (hcalls : ∀ c ∈ call :: calls, c.driver.Documented limit) {s s' : Tuning κ} {result : Except Exn TuningConfig}
    (hs : after ⟨[], device⟩ calls = s) (h : getCachedOptimalLaunchConfig s call = (result, s')) :
    (s'.cache.map CacheEntry.key).Nodup ∧
      (∀ config, result = .ok config → s'.device = s.device ∧ config.Fits (limit call.deviceId) ∧
        (∀ wordCount, 1 ≤ calculateGridBlocks wordCount 4 config.toDeviceTuningConfig ∧
          calculateGridBlocks wordCount 4 config.toDeviceTuningConfig ≤ limit call.deviceId) ∧
        ∀ (more : List (Call κ)) (call' : Call κ), call'.key = call.key →
          getCachedOptimalLaunchConfig (after s' more) call' = (.ok config, after s' more)) ∧
      ∀ e, result = .error e → s'.cache = s.cache ∧ ∀ thread, s'.device thread = s.device thread ∨
        thread = call.thread ∧ s'.device thread = call.deviceId := by
  have hkept : Kept limit s := by
    rw [← hs]
    exact after_kept calls _ ⟨List.nodup_nil, fun entry hentry => by cases hentry⟩
      (fun c hc => hcalls c (List.mem_cons_of_mem _ hc))
  have hkept' : Kept limit s' := by
    have hcall := getCached_kept hkept (hcalls call List.mem_cons_self)
    rwa [h] at hcall
  refine ⟨hkept'.nodup, ?_, ?_⟩
  · rintro config rfl
    obtain ⟨hdevice, entry, hentry, hkey, rfl⟩ := getCached_entered h
    have hfits := hkept'.fits entry hentry
    rw [(Prod.mk.inj hkey).1] at hfits
    refine ⟨hdevice, hfits, fun wordCount => ⟨one_le_calculateGridBlocks .., ?_⟩, fun more call' hkey' => ?_⟩
    · obtain ⟨hone, hlimit, -⟩ := hfits.grid
      exact max_le (hone.trans hlimit) ((min_le_right _ _).trans hlimit)
    · exact getCached_of_mem (after_nodup more _ hkept'.nodup) ((after_extends more s').subset hentry)
        (hkey'.trans hkey.symm)
  · rintro e rfl
    rcases getCached_cases s call with ⟨entry, -, -, hcall⟩ | ⟨-, ⟨config, -, hcall⟩ | ⟨e', device', hdevice, hcall⟩⟩
    · cases (Prod.mk.inj (hcall.symm.trans h)).1
    · cases (Prod.mk.inj (hcall.symm.trans h)).1
    · obtain ⟨-, rfl⟩ := Prod.mk.inj (hcall.symm.trans h)
      refine ⟨rfl, fun thread => ?_⟩
      by_cases hthread : thread = call.thread
      · subst hthread
        simp only [Function.update_self, true_and]
        exact hdevice
      · left
        exact Function.update_of_ne hthread _ _

/-- A device of 80 processors that runs two blocks of 256 threads on each, with one runtime call that may fail. -/
def exampleDriver (failing : Option RuntimeCall) : Driver Kernel where
  fails call := if some call = failing then some (.runtimeError "unknown error") else none
  multiProcessorCount _ := 80
  maxGridSize _ := 2 ^ 31 - 1
  minGridSize _ _ := 160
  blockSize _ _ := 256
  activeBlocks _ _ _ := 2

def exampleCall (failing : Option RuntimeCall) :
    Call Kernel := ⟨5, exampleDriver failing, .xorReconstructKernelDynamic, 1⟩

theorem exampleDriver_documented (failing : Option RuntimeCall) :
    (exampleDriver failing).Documented (fun _ => 2 ^ 31 - 1) where
  grid _ := ⟨rfl, by decide⟩
  warps _ _ := show 32 ≤ 256 by decide

/-- The second call succeeds behind one that fails on its way back. -/
theorem cached_configs_fit_secondCall : ∃ config s',
    getCachedOptimalLaunchConfig (after ⟨[], fun _ => 0⟩ [exampleCall (some .restoreDevice)]) (exampleCall none) =
      (.ok config, s') ∧
    config.maxGridBlocks = 320 ∧ s'.device = (after ⟨[], fun _ => 0⟩ [exampleCall (some .restoreDevice)]).device ∧
    config.Fits (2 ^ 31 - 1) ∧ (∀ wordCount, 1 ≤ calculateGridBlocks wordCount 4 config.toDeviceTuningConfig ∧
      calculateGridBlocks wordCount 4 config.toDeviceTuningConfig ≤ 2 ^ 31 - 1) ∧
    ∀ (more : List (Call Kernel)) (call' : Call Kernel), call'.key = (exampleCall none).key →
      getCachedOptimalLaunchConfig (after s' more) call' = (.ok config, after s' more) := by
  have hcalls :
      ∀ c ∈ [exampleCall none, exampleCall (some .restoreDevice)], c.driver.Documented (fun _ => 2 ^ 31 - 1) := by
    intro c hc
    simp only [List.mem_cons, List.not_mem_nil, or_false] at hc
    rcases hc with rfl | rfl
    · exact exampleDriver_documented none
    · exact exampleDriver_documented (some .restoreDevice)
  obtain ⟨hdevice, hfits, hgrid, hmore⟩ := (cached_configs_fit _ (fun _ => 0) hcalls rfl rfl).2.1 _ rfl
  exact ⟨_, _, rfl, rfl, hdevice, hfits, hgrid, hmore⟩

end LaunchTuning
end CodedLLM
