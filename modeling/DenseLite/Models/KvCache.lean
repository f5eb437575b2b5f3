import DenseLite.Gguf.Config
import DenseLite.Models.Manager

/-! # Caches for keys and values

`KVCache` keeps its buffer in host memory, whatever the device is. Caches are made, allocated, moved and given up in
any order; `sound_run` says what holds of all of them then: the device is never touched, a buffer has the size that its
cache reports, and no count of tokens exceeds the capacity. -/

namespace DenseLite.Models.KvCache

open DenseLite.Models.Pool DenseLite.Models.Manager
open DenseLite.Gguf.Config (ModelConfig)

/-! ### One cache -/

/-- `KVCache`; of the host buffer, its length, and of the pointer to the device, whether there is one. -/
structure KVCache where
  placement : DevicePlacement := .CPU_RAM
  gpuDevice : Bool := false
  capacityTokens : UInt64 := 0
  currentTokens : UInt64 := 0
  bytesPerToken : UInt64 := 0
  allocatedBytes : UInt64 := 0
  hostBuffer : ℕ := 0
deriving DecidableEq, Repr

/-- `head_dim` of `calculate_bytes_per_token`. -/
def headDimOf (config : ModelConfig) : UInt32 :=
  let headDim :=
    if config.headDim = 0 ∧ 0 < config.numHeads then config.embeddingLength / config.numHeads else config.headDim
  if headDim = 0 then 128 else headDim

/-- `KVCache::calculate_bytes_per_token`. -/
def calculateBytesPerToken (config : ModelConfig) : UInt64 :=
  config.numLayers.toUInt64 * 2 * config.numKvHeads.toUInt64 * (headDimOf config).toUInt64 * 2

/-- `effective_tokens`. -/
def effectiveTokens (config : ModelConfig) (maxContextBudget : UInt64) : UInt64 :=
  let modelContextLimit := if 0 < config.contextLength then config.contextLength.toUInt64 else 2048
  if 0 < maxContextBudget then min modelContextLimit maxContextBudget else modelContextLimit

/-- `KVCache::release`, with the device. -/
def release (c : KVCache) (d : VulkanDevice) : KVCache × VulkanDevice :=
  ({ c with
      placement := .CPU_RAM
      gpuDevice := if c.placement = .VULKAN_GPU ∧ c.gpuDevice then false else c.gpuDevice
      capacityTokens := 0
      currentTokens := 0
      allocatedBytes := 0
      hostBuffer := 0 },
    if c.placement = .VULKAN_GPU ∧ c.gpuDevice then Manager.release d c.allocatedBytes else d)

/-- What `allocate` enters before the buffer is resized. -/
def planned (config : ModelConfig) (maxContextBudget : UInt64) (c : KVCache) : KVCache :=
  { c with
    placement := .CPU_RAM
    gpuDevice := false
    capacityTokens := effectiveTokens config maxContextBudget
    currentTokens := 0
    bytesPerToken := calculateBytesPerToken config
    allocatedBytes := effectiveTokens config maxContextBudget * calculateBytesPerToken config }

/-- `KVCache::allocate`; `resized` says whether the host has the memory. -/
def allocate (config : ModelConfig) (maxContextBudget : UInt64) (resized : Bool) (c : KVCache) (d : VulkanDevice) :
    KVCache × VulkanDevice :=
  let c' := planned config maxContextBudget (release c d).1
  if resized then ({ c' with hostBuffer := c'.allocatedBytes.toNat }, (release c d).2)
  else release c' (release c d).2

/-- A cache that was moved from. -/
def movedFrom (c : KVCache) : KVCache :=
  { c with gpuDevice := false, capacityTokens := 0, currentTokens := 0, allocatedBytes := 0, hostBuffer := 0 }

/-- `KVCache::can_append`. -/
def canAppend (c : KVCache) (numTokens : UInt64) : Bool := c.currentTokens + numTokens ≤ c.capacityTokens

/-- `KVCache::advance`. -/
def advance (numTokens : UInt64) (c : KVCache) : KVCache :=
  { c with currentTokens := min c.capacityTokens (c.currentTokens + numTokens) }

/-- `KVCache::reset`. -/
def reset (c : KVCache) : KVCache := { c with currentTokens := 0 }

/-! ### Runs -/

/-- The caches that are there, by their places, and the device. -/
structure State where
  caches : ℕ → Option KVCache
  device : VulkanDevice

/-- What a program does with its caches. A cache is made in a place that has none. -/
inductive Action
  | construct (k : ℕ)
  | moveConstruct (k src : ℕ)
  | moveAssign (k src : ℕ)
  | destroy (k : ℕ)
  | allocate (k : ℕ) (config : ModelConfig) (maxContextBudget : UInt64) (resized : Bool)
  | release (k : ℕ)
  | advance (k : ℕ) (numTokens : UInt64)
  | reset (k : ℕ)

/-- A cache in a place. -/
def State.put (s : State) (k : ℕ) (c : Option KVCache) : State := { s with caches := Function.update s.caches k c }

/-- A cache and the device after a call of the cache. -/
def State.after (s : State) (k : ℕ) (r : KVCache × VulkanDevice) : State :=
  { caches := Function.update s.caches k (some r.1), device := r.2 }

/-- One action; nothing is done where there is no cache. -/
def step (s : State) : Action → State
  | .construct k => if s.caches k = none then s.put k (some {}) else s
  | .moveConstruct k src =>
    match s.caches k, s.caches src with
    | none, some o => (s.put k (some o)).put src (some (movedFrom o))
    | _, _ => s
  | .moveAssign k src =>
    match s.caches k, s.caches src with
    | some c, some o =>
      if k = src then s
      else (({ s with device := (release c s.device).2 } : State).put k (some o)).put src (some (movedFrom o))
    | _, _ => s
  | .destroy k =>
    match s.caches k with
    | some c => ({ s with device := (release c s.device).2 } : State).put k none
    | none => s
  | .allocate k config maxContextBudget resized =>
    match s.caches k with
    | some c => s.after k (allocate config maxContextBudget resized c s.device)
    | none => s
  | .release k =>
    match s.caches k with
    | some c => s.after k (release c s.device)
    | none => s
  | .advance k numTokens =>
    match s.caches k with
    | some c => s.put k (some (advance numTokens c))
    | none => s
  | .reset k =>
    match s.caches k with
    | some c => s.put k (some (reset c))
    | none => s

/-- What holds of every cache: it is in host memory, its buffer has the size that it reports, which is that of its
capacity in 64 bits, and it counts no more tokens than its capacity. -/
structure Sound (c : KVCache) : Prop where
  placement : c.placement = .CPU_RAM
  gpuDevice : c.gpuDevice = false
  hostBuffer : c.hostBuffer = c.allocatedBytes.toNat
  allocatedBytes : c.allocatedBytes = c.capacityTokens * c.bytesPerToken
  currentTokens : c.currentTokens ≤ c.capacityTokens

/-! ### What one call keeps -/

theorem toNat_min (a b : UInt64) : (min a b).toNat = min a.toNat b.toNat := by
  have hmin : min a b = if a ≤ b then a else b := rfl
  rw [hmin]
  split_ifs with h
  · have hle := UInt64.le_iff_toNat_le.mp h
    omega
  · have hlt := mt UInt64.le_iff_toNat_le.mpr h
    omega

section Calls

variable {c : KVCache} {d : VulkanDevice} {n : UInt64}

theorem sound_default : Sound {} := ⟨rfl, rfl, rfl, rfl, by decide⟩

theorem snd_release (h : c.placement = .CPU_RAM) : (release c d).2 = d := by
  simp [release, h]

theorem sound_release (h : c.gpuDevice = false) : Sound (release c d).1 := by
  refine ⟨rfl, ?_, rfl, ?_, UInt64.le_refl _⟩
  · simp [release, h]
  · simp [release]

theorem sound_movedFrom (h : Sound c) : Sound (movedFrom c) := by
  refine ⟨h.placement, rfl, rfl, ?_, UInt64.le_refl _⟩
  simp [movedFrom]

theorem sound_allocate (config : ModelConfig) (budget : UInt64) (resized : Bool) (d : VulkanDevice) (h : Sound c) :
    Sound (allocate config budget resized c d).1 ∧ (allocate config budget resized c d).2 = d := by
  have hdevice := snd_release (d := d) h.placement
  unfold allocate
  cases resized with
  | true =>
    refine ⟨⟨rfl, rfl, rfl, rfl, ?_⟩, hdevice⟩
    exact UInt64.le_iff_toNat_le.mpr (Nat.zero_le _)
  | false => exact ⟨sound_release rfl, (snd_release rfl).trans hdevice⟩

theorem sound_advance (h : Sound c) : Sound (advance n c) := by
  refine ⟨h.placement, h.gpuDevice, h.hostBuffer, h.allocatedBytes, UInt64.le_iff_toNat_le.mpr ?_⟩
  have hmin := toNat_min c.capacityTokens (c.currentTokens + n)
  simp only [advance]
  omega

theorem sound_reset (h : Sound c) : Sound (reset c) :=
  ⟨h.placement, h.gpuDevice, h.hostBuffer, h.allocatedBytes, UInt64.le_iff_toNat_le.mpr (Nat.zero_le _)⟩

end Calls

/-! ### Runs -/

section Run

variable {s : State} {d : VulkanDevice}

theorem caches_put_self {k : ℕ} {c : Option KVCache} : (s.put k c).caches k = c := by
  simp [State.put]

theorem caches_put_of_ne {k k' : ℕ} {c : Option KVCache} (h : k' ≠ k) : (s.put k c).caches k' = s.caches k' := by
  simp [State.put, h]

/-- All caches are sound, and the device is the one of the beginning. -/
structure Kept (d : VulkanDevice) (s : State) : Prop where
  device : s.device = d
  sound : ∀ k c, s.caches k = some c → Sound c

theorem Kept.put (h : Kept d s) (k : ℕ) {c : Option KVCache} (hc : ∀ x, c = some x → Sound x) : Kept d (s.put k c) := by
  refine ⟨h.device, fun k' c' hc' => ?_⟩
  by_cases hk : k' = k
  · subst hk
    rw [caches_put_self] at hc'
    exact hc c' hc'
  · rw [caches_put_of_ne hk] at hc'
    exact h.sound k' c' hc'

theorem Kept.put_some (h : Kept d s) (k : ℕ) {c : KVCache} (hc : Sound c) : Kept d (s.put k (some c)) :=
  h.put k fun _ hx => Option.some.inj hx ▸ hc

theorem Kept.after (h : Kept d s) (k : ℕ) {r : KVCache × VulkanDevice} (hr : Sound r.1) (hd : r.2 = s.device) :
    Kept d (s.after k r) := by
  have hput := h.put_some k hr
  exact ⟨hd.trans h.device, hput.sound⟩

/-- Giving up a sound cache does not touch the device. -/
theorem Kept.released (h : Kept d s) {k : ℕ} {c : KVCache} (hc : s.caches k = some c) :
    Kept d { s with device := (release c s.device).2 } :=
  ⟨(snd_release (h.sound k c hc).placement).trans h.device, h.sound⟩

theorem Kept.step (h : Kept d s) (a : Action) : Kept d (step s a) := by
  cases a with
  | construct k =>
    rw [KvCache.step]
    split_ifs
    · exact h.put_some k sound_default
    · exact h
  | moveConstruct k src =>
    rw [KvCache.step]
    split
    · rename_i o _ ho
      have hsound := h.sound src o ho
      exact (h.put_some k hsound).put_some src (sound_movedFrom hsound)
    · exact h
  | moveAssign k src =>
    rw [KvCache.step]
    split
    · rename_i c o hc ho
      split_ifs
      · exact h
      · have hsound := h.sound src o ho
        exact ((h.released hc).put_some k hsound).put_some src (sound_movedFrom hsound)
    · exact h
  | destroy k =>
    rw [KvCache.step]
    split
    · rename_i c hc
      exact (h.released hc).put k nofun
    · exact h
  | allocate k config budget resized =>
    rw [KvCache.step]
    split
    · rename_i c hc
      obtain ⟨hsound, hdevice⟩ := sound_allocate config budget resized s.device (h.sound k c hc)
      exact h.after k hsound hdevice
    · exact h
  | release k =>
    rw [KvCache.step]
    split
    · rename_i c hc
      have hsound := h.sound k c hc
      exact h.after k (sound_release hsound.gpuDevice) (snd_release hsound.placement)
    · exact h
  | advance k n =>
    rw [KvCache.step]
    split
    · rename_i c hc
      exact h.put_some k (sound_advance (h.sound k c hc))
    · exact h
  | reset k =>
    rw [KvCache.step]
    split
    · rename_i c hc
      exact h.put_some k (sound_reset (h.sound k c hc))
    · exact h

/-- **Caches in host memory.** Whatever a program does with its caches, the device is as it was, and every cache that is
there has just the buffer that it reports. -/
theorem sound_run (d : VulkanDevice) (acts : List Action) :
    (acts.foldl step ⟨fun _ => none, d⟩).device = d ∧
      ∀ k c, (acts.foldl step ⟨fun _ => none, d⟩).caches k = some c → Sound c := by
  have hrun : ∀ (acts : List Action) (s : State), Kept d s → Kept d (acts.foldl step s) := by
    intro acts
    induction acts with
    | nil => exact fun _ h => h
    | cons a acts ih => exact fun s h => ih _ (h.step a)
  have hkept := hrun acts ⟨fun _ => none, d⟩ ⟨rfl, nofun⟩
  exact ⟨hkept.device, hkept.sound⟩

end Run

/-! ### Tokens -/

section Tokens

variable {c : KVCache} {n : UInt64}

theorem toNat_currentTokens_advance (hn : c.currentTokens.toNat + n.toNat < 2 ^ 64) :
    (advance n c).currentTokens.toNat = min c.capacityTokens.toNat (c.currentTokens.toNat + n.toNat) := by
  have hsum : (c.currentTokens + n).toNat = c.currentTokens.toNat + n.toNat := by
    rw [UInt64.toNat_add, Nat.mod_eq_of_lt hn]
  rw [advance, toNat_min, hsum]

/-- **Counting tokens.** After any calls of `advance` that add too few tokens to leave 64 bits, the count is the sum cut
off at the capacity, and `can_append` says whether all the tokens so far and the new ones fit. -/
theorem advances_count (h : Sound c) {ns : List UInt64}
    (hns : ∀ n ∈ ns, c.capacityTokens.toNat + n.toNat < 2 ^ 64) :
    (ns.foldl (fun c n => advance n c) c).currentTokens.toNat =
        min c.capacityTokens.toNat (c.currentTokens.toNat + (ns.map (·.toNat)).sum) ∧
      ∀ n, 0 < n → c.capacityTokens.toNat + n.toNat < 2 ^ 64 →
        (canAppend (ns.foldl (fun c n => advance n c) c) n = true ↔
          c.currentTokens.toNat + (ns.map (·.toNat)).sum + n.toNat ≤ c.capacityTokens.toNat) := by
  induction ns generalizing c with
  | nil =>
    have hle := UInt64.le_iff_toNat_le.mp h.currentTokens
    refine ⟨by simp [min_eq_right hle], fun n _ hn => ?_⟩
    have hsum : (c.currentTokens + n).toNat = c.currentTokens.toNat + n.toNat := by
      rw [UInt64.toNat_add, Nat.mod_eq_of_lt (by omega)]
    simp [canAppend, UInt64.le_iff_toNat_le, hsum]
  | cons m ns ih =>
    have hle := UInt64.le_iff_toNat_le.mp h.currentTokens
    obtain ⟨hm, hrest⟩ := List.forall_mem_cons.mp hns
    obtain ⟨hcount, happend⟩ := ih (sound_advance h) hrest
    have hstep : (advance m c).currentTokens.toNat = min c.capacityTokens.toNat (c.currentTokens.toNat + m.toNat) :=
      toNat_currentTokens_advance (by omega)
    have hcapacity : (advance m c).capacityTokens = c.capacityTokens := rfl
    rw [hstep, hcapacity] at hcount happend
    rw [List.foldl_cons, List.map_cons, List.sum_cons]
    refine ⟨by rw [hcount]; omega, fun n hpos hn => ?_⟩
    have hpos' : 0 < n.toNat := UInt64.lt_iff_toNat_lt.mp hpos
    rw [happend n hpos hn]
    omega

theorem advances_count_full :
    canAppend ([2, 3].foldl (fun c n => advance n c) { capacityTokens := 4 }) 1 = false := by
  have hbound : ∀ n ∈ ([2, 3] : List UInt64), (4 : UInt64).toNat + n.toNat < 2 ^ 64 := by simp
  have hcount := advances_count (c := { capacityTokens := 4 }) ⟨rfl, rfl, rfl, rfl, by decide⟩ hbound
  have happend := hcount.2 1 (by decide) (by decide)
  exact Bool.eq_false_iff.mpr (mt happend.mp (by decide))

end Tokens

end DenseLite.Models.KvCache
