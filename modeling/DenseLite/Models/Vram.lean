import DenseLite.Models.Manager

/-! # Device memory

The bytes that the device counts as allocated are those of the entries placed on it, but for the bytes of a
model that is allocated and not yet added, or removed and not yet released. The admission check adds in 64
bits: a request that is so large that the sum wraps is admitted. -/

namespace DenseLite.Models.Vram

open DenseLite.Lib.ByteStream DenseLite.Lib.KeyMap DenseLite.Lib.Live DenseLite.Lib.Runs
open DenseLite.Models.Pool DenseLite.Models.Manager

/-! ### The device -/

section Device

variable {d : VulkanDevice} {bytes : UInt64}

theorem canAdmit_iff : canAdmit d bytes = true ↔
    d.available = true ∧ (d.allocatedBytes.toNat + bytes.toNat) % 2 ^ 64 ≤ d.safeCeilingBytes.toNat := by
  unfold canAdmit
  rw [decide_eq_true_eq, UInt64.le_iff_toNat_le, UInt64.toNat_add]

/-- What has room is allocated. -/
theorem allocate_eq (havailable : d.available = true)
    (hroom : d.allocatedBytes.toNat + bytes.toNat ≤ d.safeCeilingBytes.toNat) :
    (allocate d bytes).allocatedBytes.toNat = d.allocatedBytes.toNat + bytes.toNat ∧
      (allocate d bytes).safeCeilingBytes = d.safeCeilingBytes := by
  have hlt := d.safeCeilingBytes.toNat_lt
  have hsum : (d.allocatedBytes + bytes).toNat = d.allocatedBytes.toNat + bytes.toNat := by
    rw [UInt64.toNat_add, Nat.mod_eq_of_lt (by omega)]
  have hle : ¬ d.safeCeilingBytes < d.allocatedBytes + bytes := by
    rw [UInt64.lt_iff_toNat_lt, hsum]
    omega
  unfold allocate
  rw [if_neg (by simp [havailable]), if_neg hle]
  exact ⟨hsum, rfl⟩

theorem release_eq (hle : bytes.toNat ≤ d.allocatedBytes.toNat) :
    (release d bytes).allocatedBytes.toNat = d.allocatedBytes.toNat - bytes.toNat ∧
      (release d bytes).safeCeilingBytes = d.safeCeilingBytes := by
  unfold release
  split_ifs with hall
  · rw [UInt64.le_iff_toNat_le] at hall
    refine ⟨?_, rfl⟩
    show (0 : UInt64).toNat = _
    rw [UInt64.toNat_zero]
    omega
  · exact ⟨UInt64.toNat_sub_of_le _ _ (UInt64.le_iff_toNat_le.mpr hle), rfl⟩

end Device

/-! ### Conservation -/

/-- The bytes that are allocated while no entry has them. -/
def pending : Option Section → ℕ
  | some (.adding _ .VULKAN_GPU bytes) | some (.releasing .VULKAN_GPU bytes) => bytes.toNat
  | _ => 0

/-- What the holder of the mutex has made sure of. -/
def Ensured (m : ManagerState) : Section → Prop
  | .loading _ .VULKAN_GPU bytes => m.device.available = true ∧
      m.device.allocatedBytes.toNat + bytes.toNat ≤ m.device.safeCeilingBytes.toNat
  | .readingBytes id placement => ∀ e, find id m.pool.entries = some e → e.placement = placement
  | .removing id placement bytes => ∀ e, find id m.pool.entries = some e →
      e.placement = placement ∧ e.memoryBytes = bytes
  | _ => True

/-- The allocated bytes are those of the entries on the device and the pending ones, and are within the
ceiling. -/
structure Conserved (m : ManagerState) : Prop where
  tidy : Tidy m
  bytes : m.device.allocatedBytes.toNat = total gpuBytes m.pool.entries + pending m.holder
  ceiling : m.device.allocatedBytes.toNat ≤ m.device.safeCeilingBytes.toNat
  ensured : ∀ sec, m.holder = some sec → Ensured m sec

/-- The descriptor of the model that the holder of the mutex is about to admit. -/
def admitting (m : ManagerState) : Option ModelDescriptor :=
  match m.holder with
  | some (.admitting id) => m.registry id
  | _ => none

/-- The sum that admits a model to the device does not wrap. -/
def Unwrapped (m : ManagerState) : Action → Prop
  | .next _ _ => ∀ d ∈ admitting m, d.isGguf = true → admittedPlacement m.device d = .VULKAN_GPU →
      m.device.allocatedBytes.toNat + (totalGpuRequired d).toNat < 2 ^ 64
  | _ => True

instance (m : ManagerState) (a : Action) : Decidable (Unwrapped m a) := by
  cases a <;> unfold Unwrapped <;> infer_instance

section Steps

variable {m : ManagerState}

theorem admitted_iff {device : VulkanDevice} {d : ModelDescriptor} :
    admittedPlacement device d = .VULKAN_GPU ↔ d.placementPolicy = .GPU_PREFERRED ∧
      canAdmit device (totalGpuRequired d) = true := by
  unfold admittedPlacement
  split_ifs with h
  · exact iff_of_true rfl ⟨h.2.1, h.2.2⟩
  · refine iff_of_false (by simp) fun hadmit => h ⟨?_, hadmit.1, hadmit.2⟩
    exact (canAdmit_iff.mp hadmit.2).1

/-- What is read of an entry is what it has. -/
theorem getPlacement_eq {s : PoolState} {id : Bytes} {e : ModelEntry} (he : find id s.entries = some e) :
    e.placement = getPlacement s id := by
  rw [getPlacement, he, Option.map_some, Option.getD_some]

theorem getMemoryBytes_eq {s : PoolState} {id : Bytes} {e : ModelEntry} (he : find id s.entries = some e) :
    e.memoryBytes = getMemoryBytes s id := by
  rw [getMemoryBytes, he, Option.map_some, Option.getD_some]

/-- The step of a lease leaves everything that the bytes depend on. -/
theorem Conserved.lease (h : Conserved m) {b : Leases.Action} (hb : LeaseCall m.pool b) :
    Conserved { m with pool := Leases.step m.pool b } := by
  have hsame := h.tidy.leaseCall hb
  refine ⟨h.tidy.lease hsame, by rw [hsame.bytes]; exact h.bytes, h.ceiling, fun sec hsec => ?_⟩
  have hensured := h.ensured sec hsec
  have hentry {id : Bytes} {e' : ModelEntry} (he' : find id (Leases.step m.pool b).entries = some e') :
      ∃ e, find id m.pool.entries = some e ∧ e'.placement = e.placement ∧ e'.memoryBytes = e.memoryBytes := by
    obtain ⟨e, he, hcore⟩ := hsame.find_some he'
    exact ⟨e, he, congrArg (·.2.2.1) hcore, congrArg (·.2.2.2) hcore⟩
  cases sec with
  | loading id placement bytes => cases placement <;> exact hensured
  | readingBytes id placement =>
    intro e' he'
    obtain ⟨e, he, hplacement, -⟩ := hentry he'
    rw [hplacement]
    exact hensured e he
  | removing id placement bytes =>
    intro e' he'
    obtain ⟨e, he, hplacement, hbytes⟩ := hentry he'
    rw [hplacement, hbytes]
    exact hensured e he
  | _ => trivial

/-- The holder of the mutex goes on and touches neither pool nor device. -/
theorem Conserved.hold (h : Conserved m) {holder : Option Section} (htidy : Tidy { m with holder := holder })
    (hpending : pending holder = pending m.holder) (hensured : ∀ sec, holder = some sec → Ensured m sec) :
    Conserved { m with holder := holder } := by
  refine ⟨htidy, by rw [hpending]; exact h.bytes, h.ceiling, fun sec hsec => ?_⟩
  have hensured := hensured sec hsec
  cases sec with
  | loading id placement bytes => cases placement <;> exact hensured
  | readingBytes id placement => exact hensured
  | removing id placement bytes => exact hensured
  | _ => trivial

theorem Conserved.unlock (h : Conserved m) (htidy : Tidy { m with holder := none })
    (hpending : pending m.holder = 0) : Conserved { m with holder := none } :=
  h.hold htidy hpending.symm fun _ hsec => absurd hsec (by simp)

/-- The model is admitted. -/
theorem Conserved.admit (h : Conserved m) {id : Bytes} (hsec : m.holder = some (.admitting id)) {loaded : Bool}
    {now : ℤ} (hexact : Unwrapped m (.next loaded now)) : Conserved (advance m loaded now (.admitting id)) := by
  have hzero : pending m.holder = 0 := by rw [hsec]; rfl
  have htidy := h.tidy.advance hsec loaded now
  revert htidy
  dsimp only [advance]
  split
  · exact fun htidy => h.unlock htidy hzero
  · next d hd =>
    split_ifs with hgguf
    · intro htidy
      refine h.hold htidy hzero.symm fun sec hnext => ?_
      rw [← Option.some.inj hnext]
      cases hplacement : admittedPlacement m.device d with
      | CPU_RAM => trivial
      | VULKAN_GPU =>
        have hlt := hexact d (by rw [admitting, hsec]; exact hd) hgguf hplacement
        obtain ⟨havailable, hroom⟩ := canAdmit_iff.mp (admitted_iff.mp hplacement).2
        rw [Nat.mod_eq_of_lt hlt] at hroom
        exact ⟨havailable, hroom⟩
    · intro htidy
      refine h.hold htidy hzero.symm fun sec hnext => ?_
      rw [← Option.some.inj hnext]
      trivial

/-- The bytes of the model are allocated before it is added. -/
theorem Conserved.load (h : Conserved m) {id : Bytes} {placement : DevicePlacement} {bytes : UInt64}
    (hsec : m.holder = some (.loading id placement bytes)) (loaded : Bool) (now : ℤ) :
    Conserved (advance m loaded now (.loading id placement bytes)) := by
  have htidy := h.tidy.advance hsec loaded now
  have hbytes := h.bytes
  rw [hsec] at hbytes
  cases loaded with
  | false => exact h.unlock htidy (by rw [hsec]; rfl)
  | true =>
    cases placement with
    | CPU_RAM =>
      refine ⟨htidy, hbytes, h.ceiling, fun sec hnext => ?_⟩
      rw [← Option.some.inj hnext]
      trivial
    | VULKAN_GPU =>
      obtain ⟨havailable, hroom⟩ := h.ensured _ hsec
      obtain ⟨hallocated, hceiling⟩ := allocate_eq havailable hroom
      refine ⟨htidy, ?_, ?_, fun sec hnext => ?_⟩
      · show (allocate m.device bytes).allocatedBytes.toNat = total gpuBytes m.pool.entries + bytes.toNat
        rw [hallocated, hbytes]
        rfl
      · show (allocate m.device bytes).allocatedBytes.toNat ≤ (allocate m.device bytes).safeCeilingBytes.toNat
        rw [hallocated, hceiling]
        exact hroom
      · rw [← Option.some.inj hnext]
        trivial

theorem Conserved.add (h : Conserved m) {id : Bytes} {placement : DevicePlacement} {bytes : UInt64}
    (hsec : m.holder = some (.adding id placement bytes)) (loaded : Bool) (now : ℤ) :
    Conserved (advance m loaded now (.adding id placement bytes)) := by
  refine ⟨h.tidy.advance hsec loaded now, ?_, h.ceiling, fun _ hnext => absurd hnext (by simp [advance])⟩
  have hbytes := h.bytes
  rw [hsec] at hbytes
  show m.device.allocatedBytes.toNat = total gpuBytes (addModel m.pool id now placement bytes).entries + 0
  unfold addModel
  rw [total_set_new (h.tidy.absent _ id hsec rfl), hbytes]
  cases placement <;> rfl

/-- The bytes of a model that is removed are still to be released. -/
theorem Conserved.remove (h : Conserved m) {id : Bytes} {placement : DevicePlacement} {bytes : UInt64}
    (hsec : m.holder = some (.removing id placement bytes)) (loaded : Bool) (now : ℤ) :
    Conserved (advance m loaded now (.removing id placement bytes)) := by
  have htidy := h.tidy.advance hsec loaded now
  have hbytes := h.bytes
  have hensured := h.ensured _ hsec
  rw [hsec] at hbytes
  revert htidy
  dsimp only [advance]
  rcases removeModel_cases m.pool id with heq | ⟨e, he, -, heq⟩
  · rw [heq]
    exact fun htidy => ⟨htidy, hbytes, h.ceiling, fun _ hnext => absurd hnext (by simp)⟩
  · rw [heq]
    intro htidy
    refine ⟨htidy, ?_, h.ceiling, fun sec hnext => ?_⟩
    · show m.device.allocatedBytes.toNat = total gpuBytes (erase id m.pool.entries) +
        pending (some (.releasing placement bytes))
      obtain ⟨hplacement, hmemory⟩ := hensured e he
      rw [hbytes, total_erase h.tidy.ids he, gpuBytes, hplacement, hmemory]
      cases placement <;> rfl
    · rw [← Option.some.inj hnext]
      trivial

theorem Conserved.release (h : Conserved m) {placement : DevicePlacement} {bytes : UInt64}
    (hsec : m.holder = some (.releasing placement bytes)) (loaded : Bool) (now : ℤ) :
    Conserved (advance m loaded now (.releasing placement bytes)) := by
  have htidy := h.tidy.advance hsec loaded now
  have hbytes := h.bytes
  rw [hsec] at hbytes
  cases placement with
  | CPU_RAM => exact h.unlock htidy (by rw [hsec]; rfl)
  | VULKAN_GPU =>
    have hsum : m.device.allocatedBytes.toNat = total gpuBytes m.pool.entries + bytes.toNat := hbytes
    obtain ⟨hreleased, hceiling⟩ := release_eq (d := m.device) (show bytes.toNat ≤ _ by omega)
    have hle := h.ceiling
    refine ⟨htidy, ?_, ?_, fun _ hnext => absurd hnext (by simp [advance])⟩
    · show (Manager.release m.device bytes).allocatedBytes.toNat = total gpuBytes m.pool.entries + 0
      omega
    · show (Manager.release m.device bytes).allocatedBytes.toNat ≤
        (Manager.release m.device bytes).safeCeilingBytes.toNat
      rw [hceiling]
      omega

theorem Conserved.advance (h : Conserved m) {sec : Section} (hsec : m.holder = some sec) {loaded : Bool} {now : ℤ}
    (hexact : Unwrapped m (.next loaded now)) : Conserved (advance m loaded now sec) := by
  have htidy := h.tidy.advance hsec loaded now
  cases sec with
  | admitting id => exact h.admit hsec hexact
  | loading id placement bytes => exact h.load hsec loaded now
  | adding id placement bytes => exact h.add hsec loaded now
  | removing id placement bytes => exact h.remove hsec loaded now
  | releasing placement bytes => exact h.release hsec loaded now
  | stateHot id | stateWarm id | checkingUse id =>
    refine h.hold htidy ?_ fun sec hnext => ?_
    · rw [hsec]
      split_ifs <;> rfl
    · split_ifs at hnext
      rw [← Option.some.inj hnext]
      trivial
  | readingPlacement id =>
    refine h.hold htidy (by rw [hsec]; rfl) fun sec hnext => ?_
    rw [← Option.some.inj hnext]
    exact fun e he => getPlacement_eq he
  | readingBytes id placement =>
    refine h.hold htidy (by rw [hsec]; rfl) fun sec hnext => ?_
    rw [← Option.some.inj hnext]
    exact fun e he => ⟨h.ensured _ hsec e he, getMemoryBytes_eq he⟩

/-- **Every step without a wrapped sum conserves the bytes.** -/
theorem Conserved.step (h : Conserved m) {a : Action} (hexact : Unwrapped m a) : Conserved (step m a) := by
  have hstep := stepped m a
  have htidy := h.tidy.step a
  generalize Manager.step m a = m' at hstep htidy ⊢
  cases hstep with
  | same => exact h
  | load id hfree | unload id hfree =>
    refine h.hold htidy (by rw [hfree]; rfl) fun sec hnext => ?_
    rw [← Option.some.inj hnext]
    trivial
  | next loaded now sec hsec => exact h.advance hsec hexact
  | lease _ b hb => exact h.lease hb

end Steps

/-- Between the calls of `load` and `unload` the allocated bytes are those of the entries on the device; they
are always within the ceiling. -/
structure Balanced (m : ManagerState) : Prop where
  bytes : m.holder = none → m.device.allocatedBytes.toNat = total gpuBytes m.pool.entries
  ceiling : m.device.allocatedBytes.toNat ≤ m.device.safeCeilingBytes.toNat

theorem Conserved.balanced {m : ManagerState} (h : Conserved m) : Balanced m := by
  refine ⟨fun hfree => ?_, h.ceiling⟩
  have hbytes := h.bytes
  rwa [hfree] at hbytes

/-- **Accounting of the device memory.** In every run of `load` and `unload`, with any ids, any successes of the
loader, and with leases taken and given up in between, in which no sum of an admission check wraps, the allocated
bytes are the bytes of the entries on the device and within the ceiling. (A lease on the empty id is never given
back, so its entry stays; its bytes are counted all the same.) -/
theorem vram_balanced (registry : Bytes → Option ModelDescriptor) (available : Bool) (ceiling : UInt64)
    (acts : List Action)
    (h : EveryStep step Unwrapped
      { registry := registry, device := { available := available, safeCeilingBytes := ceiling } } acts) :
    EveryStep step (fun m a => Balanced (step m a))
        { registry := registry, device := { available := available, safeCeilingBytes := ceiling } } acts ∧
      Balanced (acts.foldl step
        { registry := registry, device := { available := available, safeCeilingBytes := ceiling } }) := by
  have hstart : Conserved
      { registry := registry, device := { available := available, safeCeilingBytes := ceiling } } :=
    ⟨tidy_start _ _, rfl, Nat.zero_le _, fun _ hsec => absurd hsec (by simp)⟩
  obtain ⟨hsteps, hend⟩ := everyStep_of_invariant (I := Conserved) (P := fun m a => Balanced (step m a))
    (fun m a hm hexact => ⟨(hm.step hexact).balanced, hm.step hexact⟩) acts _ hstart h
  exact ⟨hsteps, hend.balanced⟩

/-- A device with 100 bytes, and two models: `a` needs 50 bytes, `b` so many that 50 bytes more wrap to 30. -/
def smallDevice : ManagerState where
  registry id :=
    if id = [97] then some { estimatedWeightBytes := 50 }
    else if id = [98] then some { estimatedWeightBytes := 0xffffffffffffffec }
    else none
  device := { available := true, safeCeilingBytes := 100 }

/-- All steps of a `load`. -/
def loadSteps (id : Bytes) : List Action :=
  [.load id, .next true 0, .next true 0, .next true 0, .next true 0, .next true 0]

theorem vram_balanced_small :
    Balanced ((loadSteps [97]).foldl step smallDevice) := by
  refine (vram_balanced smallDevice.registry true 100 (loadSteps [97]) ?_).2
  refine ⟨?_, ?_, ?_, ?_, ?_, ?_, trivial⟩ <;> decide +kernel

/-- The second model is admitted to a device that has no room for it. -/
theorem vram_unbalanced : ¬ ∀ acts : List Action, Balanced (acts.foldl step smallDevice) := by
  intro h
  have hrun := (h (loadSteps [97] ++ loadSteps [98])).bytes (by decide +kernel)
  exact absurd hrun (by decide +kernel)

end DenseLite.Models.Vram
