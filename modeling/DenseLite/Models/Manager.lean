import DenseLite.Models.Leases

/-! # The model manager

`ModelManager::load` and `unload` run under `manager_mutex_`, but call the pool several times, and between
these calls other threads acquire and give up leases. So a manager method is a sequence of steps of the one
call that holds the mutex (`Section`), one step for each call of the pool or the device, and the steps of
the leases come in between in any order. `acquire` is two attempts of `acquire_lease` into a new lease, with
a `load` in the middle. -/

namespace DenseLite.Models.Manager

open DenseLite.Lib.ByteStream DenseLite.Lib.KeyMap DenseLite.Lib.Live DenseLite.Lib.Runs
open DenseLite.Models.Pool DenseLite.Models.Leases

/-! ### Registry and device -/

/-- `PlacementPolicy`. -/
inductive PlacementPolicy
  | GPU_PREFERRED | CPU_RAM_ONLY
deriving DecidableEq, Repr

/-- `ModelDescriptor`, as far as `load` reads it; what the loader makes of the file is an input. -/
structure ModelDescriptor where
  isGguf : Bool := true
  placementPolicy : PlacementPolicy := .GPU_PREFERRED
  estimatedWeightBytes : UInt64 := 0
  estimatedScratchBytes : UInt64 := 0
deriving DecidableEq, Repr

/-- `VulkanDevice`: whether there is one, the admission ceiling and the allocated bytes. -/
structure VulkanDevice where
  available : Bool
  safeCeilingBytes : UInt64
  allocatedBytes : UInt64 := 0
deriving DecidableEq, Repr

/-- `VulkanDevice::can_admit`. -/
def canAdmit (d : VulkanDevice) (bytes : UInt64) : Bool :=
  d.available ∧ d.allocatedBytes + bytes ≤ d.safeCeilingBytes

/-- `VulkanDevice::allocate`. -/
def allocate (d : VulkanDevice) (bytes : UInt64) : VulkanDevice :=
  if ¬ d.available then d
  else if d.safeCeilingBytes < d.allocatedBytes + bytes then d
  else { d with allocatedBytes := d.allocatedBytes + bytes }

/-- `VulkanDevice::release`. -/
def release (d : VulkanDevice) (bytes : UInt64) : VulkanDevice :=
  if d.allocatedBytes ≤ bytes then { d with allocatedBytes := 0 }
  else { d with allocatedBytes := d.allocatedBytes - bytes }

/-! ### The steps -/

/-- How far the call that holds `manager_mutex_` has come: the two calls of `get_state`, admission, the
loader, `add_model`; or `is_in_use`, `get_placement`, `get_memory_bytes`, `remove_model` and the release of
the device memory. -/
inductive Section
  | stateHot (id : Bytes)
  | stateWarm (id : Bytes)
  | admitting (id : Bytes)
  | loading (id : Bytes) (placement : DevicePlacement) (bytes : UInt64)
  | adding (id : Bytes) (placement : DevicePlacement) (bytes : UInt64)
  | checkingUse (id : Bytes)
  | readingPlacement (id : Bytes)
  | readingBytes (id : Bytes) (placement : DevicePlacement)
  | removing (id : Bytes) (placement : DevicePlacement) (bytes : UInt64)
  | releasing (placement : DevicePlacement) (bytes : UInt64)
deriving DecidableEq, Repr

/-- The manager with its pool and device, and the call that holds its mutex. -/
structure ManagerState where
  registry : Bytes → Option ModelDescriptor
  device : VulkanDevice
  pool : PoolState := {}
  holder : Option Section := none

/-- `total_gpu_required`. -/
def totalGpuRequired (d : ModelDescriptor) : UInt64 := d.estimatedWeightBytes + d.estimatedScratchBytes

/-- `admitted_placement`. -/
def admittedPlacement (device : VulkanDevice) (d : ModelDescriptor) : DevicePlacement :=
  if device.available ∧ d.placementPolicy = .GPU_PREFERRED ∧ canAdmit device (totalGpuRequired d) then .VULKAN_GPU
  else .CPU_RAM

/-- The next step of the call that holds the mutex; `loaded` says whether the loader succeeds. -/
def advance (m : ManagerState) (loaded : Bool) (now : ℤ) : Section → ManagerState
  | .stateHot id => { m with holder := if getState m.pool id = .HOT then none else some (.stateWarm id) }
  | .stateWarm id => { m with holder := if getState m.pool id = .WARM then none else some (.admitting id) }
  | .admitting id =>
    match m.registry id with
    | none => { m with holder := none }
    | some d =>
      if d.isGguf then
        { m with holder := some (.loading id (admittedPlacement m.device d) (totalGpuRequired d)) }
      else { m with holder := some (.adding id .CPU_RAM 0) }
  | .loading id placement bytes =>
    if loaded then
      { m with
        device := if placement = .VULKAN_GPU then allocate m.device bytes else m.device
        holder := some (.adding id placement bytes) }
    else { m with holder := none }
  | .adding id placement bytes =>
    { m with pool := addModel m.pool id now placement bytes, holder := none }
  | .checkingUse id => { m with holder := if isInUse m.pool id then none else some (.readingPlacement id) }
  | .readingPlacement id => { m with holder := some (.readingBytes id (getPlacement m.pool id)) }
  | .readingBytes id placement =>
    { m with holder := some (.removing id placement (getMemoryBytes m.pool id)) }
  | .removing id placement bytes =>
    { m with
      pool := (removeModel m.pool id).1
      holder := if (removeModel m.pool id).2 then some (.releasing placement bytes) else none }
  | .releasing placement bytes =>
    { m with device := if placement = .VULKAN_GPU then release m.device bytes else m.device, holder := none }

/-- A step of a thread: it takes the mutex for `load` or `unload`, goes on with what it does under it, or
works on a lease. -/
inductive Action
  | load (id : Bytes)
  | unload (id : Bytes)
  | next (loaded : Bool) (now : ℤ)
  /-- `acquire_lease` of `acquire`, into its new lease `v`. -/
  | acquire (id : Bytes) (v : ℕ) (now : ℤ)
  | destroyLease (v : ℕ) (now : ℤ)
  | moveConstruct (v w : ℕ)
  | moveAssign (v w : ℕ) (now : ℤ)
deriving DecidableEq, Repr

/-- One step; a thread that finds the mutex taken waits. -/
def step (m : ManagerState) : Action → ManagerState
  | .load id => if m.holder.isNone then { m with holder := some (.stateHot id) } else m
  | .unload id => if m.holder.isNone then { m with holder := some (.checkingUse id) } else m
  | .next loaded now =>
    match m.holder with
    | some sec => advance m loaded now sec
    | none => m
  | .acquire id v now =>
    if (find v m.pool.leases).isNone then { m with pool := Leases.step m.pool (.acquireLease id v now) }
    else m
  | .destroyLease v now => { m with pool := Leases.step m.pool (.destroyLease v now) }
  | .moveConstruct v w => { m with pool := Leases.step m.pool (.moveConstruct v w) }
  | .moveAssign v w now => { m with pool := Leases.step m.pool (.moveAssign v w now) }

/-- The id that a step is given is not empty. -/
def Action.Named : Action → Prop
  | .load id | .unload id | .acquire id _ _ => id ≠ []
  | .next _ _ | .destroyLease _ _ | .moveConstruct _ _ | .moveAssign _ _ _ => True

/-- A step of a thread that uses no empty id. -/
abbrev NamedAction := { a : Action // a.Named }

/-! ### What the steps of leases leave alone -/

/-- What a lease does not change of an entry. -/
def core (e : ModelEntry) : ℕ × ModelState × DevicePlacement × UInt64 :=
  (e.address, e.state, e.placement, e.memoryBytes)

/-- The bytes of an entry on the device. -/
def gpuBytes (e : ModelEntry) : ℕ := if e.placement = .VULKAN_GPU then e.memoryBytes.toNat else 0

/-- The same entries, but for their users, and nobody who waits for the mutex. -/
structure SameEntries (s s' : PoolState) : Prop where
  core : ∀ id, (find id s'.entries).map core = (find id s.entries).map core
  bytes : total gpuBytes s'.entries = total gpuBytes s.entries
  ids : (keys s.entries).Nodup → (keys s'.entries).Nodup
  stuck : s'.stuck = s.stuck

/-- All entries are hot. -/
def Hot (s : PoolState) : Prop := ∀ id e, find id s.entries = some e → e.state = .HOT

section Frame

variable {s s' : PoolState}

theorem SameEntries.refl (s : PoolState) : SameEntries s s := ⟨fun _ => rfl, rfl, fun hids => hids, rfl⟩

theorem sameEntries_set (hids : (keys s.entries).Nodup) {id : Bytes} {e : ModelEntry}
    (he : find id s.entries = some e) (e' : ModelEntry) (hcore : Manager.core e' = Manager.core e)
    {leases : List (ℕ × ModelLease)} :
    SameEntries s { s with entries := set id e' s.entries, leases := leases } := by
  refine ⟨map_find_set he hcore, total_set hids he ?_, nodup_keys_set, rfl⟩
  unfold Manager.core at hcore
  rw [Prod.mk.injEq, Prod.mk.injEq, Prod.mk.injEq] at hcore
  rw [gpuBytes, gpuBytes, hcore.2.2.1, hcore.2.2.2]

theorem sameEntries_giveUp (hids : (keys s.entries).Nodup) (now : ℤ) (l : ModelLease)
    (leases : List (ℕ × ModelLease)) : SameEntries s { giveUp s now l with leases := leases } := by
  unfold giveUp releaseLease
  split_ifs
  · split
    · next e he =>
      exact sameEntries_set hids he { e with activeUsers := e.activeUsers - 1, lastAccessed := now } rfl
    · exact ⟨fun _ => rfl, rfl, fun hids => hids, rfl⟩
  · exact ⟨fun _ => rfl, rfl, fun hids => hids, rfl⟩

/-- A new variable holds no lease that would be given back under the mutex. -/
theorem sameEntries_acquire (hids : (keys s.entries).Nodup) (hhot : Hot s) (id : Bytes) (now : ℤ) {v : ℕ}
    (hv : find v s.leases = none) : SameEntries s (acquireLease s id now v).1 := by
  have hreleases : ((find v s.leases).getD {}).releases = false := by
    rw [hv]
    rfl
  unfold acquireLease
  split
  · next e he =>
    have hcore : Manager.core { e with activeUsers := e.activeUsers + 1, lastAccessed := now, state := .HOT } =
        Manager.core e := by
      rw [Manager.core, Manager.core, hhot id e he]
    split_ifs with hcold hheld
    · exact SameEntries.refl s
    · exact absurd hheld (by rw [hreleases]; decide)
    · exact sameEntries_set hids he _ hcore
  · exact SameEntries.refl s

theorem sameEntries_destroy (hids : (keys s.entries).Nodup) (now : ℤ) (v : ℕ) :
    SameEntries s (destroyLease s now v) := by
  unfold destroyLease
  split
  · exact sameEntries_giveUp hids now _ _
  · exact SameEntries.refl s

theorem sameEntries_moveConstruct (v w : ℕ) : SameEntries s (moveConstruct s v w) := by
  unfold moveConstruct
  split
  · exact ⟨fun _ => rfl, rfl, fun hids => hids, rfl⟩
  · exact SameEntries.refl s

theorem sameEntries_moveAssign (hids : (keys s.entries).Nodup) (now : ℤ) (v w : ℕ) :
    SameEntries s (moveAssign s now v w) := by
  unfold moveAssign
  split
  · split_ifs
    · exact SameEntries.refl s
    · exact sameEntries_giveUp hids now _ _
  · exact SameEntries.refl s

theorem SameEntries.find_some (h : SameEntries s s') {id : Bytes} {e' : ModelEntry}
    (he' : find id s'.entries = some e') : ∃ e, find id s.entries = some e ∧ Manager.core e' = Manager.core e := by
  have hcore := h.core id
  rw [he', Option.map_some] at hcore
  obtain ⟨e, he, heq⟩ := Option.map_eq_some_iff.mp hcore.symm
  exact ⟨e, he, heq.symm⟩

theorem SameEntries.find_none (h : SameEntries s s') {id : Bytes} (hid : find id s.entries = none) :
    find id s'.entries = none := by
  have hcore := h.core id
  rw [hid, Option.map_none] at hcore
  exact Option.map_eq_none_iff.mp hcore

theorem SameEntries.hot (h : SameEntries s s') (hhot : Hot s) : Hot s' := by
  intro id e' he'
  obtain ⟨e, he, hcore⟩ := h.find_some he'
  have hstate : e'.state = e.state := congrArg (·.2.1) hcore
  rw [hstate, hhot id e he]

end Frame

/-! ### Leases under the manager -/

/-- The model that is being loaded, once it was found not to be resident. -/
def Section.absent : Section → Option Bytes
  | .stateWarm id | .admitting id | .loading id _ _ | .adding id _ _ => some id
  | _ => none

/-- Nobody waits for the mutex of the pool, each id has one entry, all entries are hot, and a model that is being
loaded is not resident. -/
structure Tidy (m : ManagerState) : Prop where
  free : m.pool.stuck = false
  ids : (keys m.pool.entries).Nodup
  hot : Hot m.pool
  absent : ∀ sec id, m.holder = some sec → sec.absent = some id → find id m.pool.entries = none

section Tidy

variable {m : ManagerState}

/-- A step on leases that keeps the entries. -/
theorem Tidy.lease (h : Tidy m) {s : PoolState} (hsame : SameEntries m.pool s) : Tidy { m with pool := s } :=
  ⟨hsame.stuck.trans h.free, hsame.ids h.ids, hsame.hot h.hot,
    fun sec id hsec habsent => hsame.find_none (h.absent sec id hsec habsent)⟩

theorem getState_of_hot {s : PoolState} (h : Hot s) {id : Bytes} (hstate : getState s id ≠ .HOT) :
    find id s.entries = none := by
  unfold getState at hstate
  cases he : find id s.entries with
  | none => rfl
  | some e =>
    rw [he, Option.map_some, Option.getD_some] at hstate
    exact absurd (h id e he) hstate

/-- The holder of the mutex goes on, without touching the pool. -/
theorem Tidy.hold (h : Tidy m) {sec : Section} {device : VulkanDevice}
    (habsent : ∀ id, sec.absent = some id → find id m.pool.entries = none) :
    Tidy { m with holder := some sec, device := device } :=
  ⟨h.free, h.ids, h.hot, fun _ id hsec hid => habsent id (Option.some.inj hsec ▸ hid)⟩

theorem Tidy.unlock (h : Tidy m) {device : VulkanDevice} : Tidy { m with holder := none, device := device } :=
  ⟨h.free, h.ids, h.hot, fun _ _ hsec => absurd hsec (by simp)⟩

theorem Tidy.add (h : Tidy m) (id : Bytes) (now : ℤ) (placement : DevicePlacement) (bytes : UInt64) :
    Tidy { m with pool := addModel m.pool id now placement bytes, holder := none } := by
  refine ⟨h.free, nodup_keys_set h.ids, fun id' e he => ?_, fun sec id hsec => absurd hsec (by simp)⟩
  rcases find_set_cases he with ⟨-, rfl⟩ | he
  · rfl
  · exact h.hot id' e he

theorem find_removeModel {s : PoolState} {id id' : Bytes} {e : ModelEntry}
    (he : find id' (removeModel s id).1.entries = some e) : find id' s.entries = some e := by
  rcases removeModel_cases s id with heq | ⟨e₁, he₁, -, heq⟩
  · rwa [heq] at he
  · rw [heq] at he
    exact find_of_find_erase he

theorem Tidy.remove (h : Tidy m) (id : Bytes) :
    Tidy { m with pool := (removeModel m.pool id).1, holder := none } := by
  have hpool : (removeModel m.pool id).1.stuck = false ∧ (keys (removeModel m.pool id).1.entries).Nodup := by
    rcases removeModel_cases m.pool id with heq | ⟨e, -, -, heq⟩
    · rw [heq]
      exact ⟨h.free, h.ids⟩
    · rw [heq]
      exact ⟨h.free, nodup_keys_erase h.ids⟩
  exact ⟨hpool.1, hpool.2, fun id' e he => h.hot id' e (find_removeModel he), fun _ _ hsec => absurd hsec (by simp)⟩

theorem Tidy.advance (h : Tidy m) {sec : Section} (hsec : m.holder = some sec) (loaded : Bool) (now : ℤ) :
    Tidy (advance m loaded now sec) := by
  have habsent := h.absent sec
  cases sec with
  | stateHot id =>
    dsimp only [Manager.advance]
    split_ifs with hstate
    · exact h.unlock
    · exact h.hold fun id' hid' => Option.some.inj hid' ▸ getState_of_hot h.hot hstate
  | stateWarm id =>
    dsimp only [Manager.advance]
    split_ifs
    · exact h.unlock
    · exact h.hold fun id' hid' => habsent id' hsec hid'
  | admitting id =>
    dsimp only [Manager.advance]
    split
    · exact h.unlock
    · split_ifs
      · exact h.hold fun id' hid' => habsent id' hsec hid'
      · exact h.hold fun id' hid' => habsent id' hsec hid'
  | loading id placement bytes =>
    cases loaded with
    | true => exact h.hold fun id' hid' => habsent id' hsec hid'
    | false => exact h.unlock
  | adding id placement bytes => exact h.add id now placement bytes
  | checkingUse id =>
    dsimp only [Manager.advance]
    split_ifs
    · exact h.unlock
    · exact h.hold fun id' hid' => absurd hid' (by simp [Section.absent])
  | readingPlacement id | readingBytes id placement =>
    exact h.hold fun id' hid' => absurd hid' (by simp [Section.absent])
  | removing id placement bytes =>
    dsimp only [Manager.advance]
    split_ifs
    · exact (h.remove id).hold fun id' hid' => absurd hid' (by simp [Section.absent])
    · exact h.remove id
  | releasing placement bytes => exact h.unlock

/-- The steps of leases that the users of the manager can make. -/
def LeaseCall (s : PoolState) : Leases.Action → Prop
  | .acquireLease _ v _ => find v s.leases = none
  | .destroyLease _ _ | .moveConstruct _ _ | .moveAssign _ _ _ => True
  | .addModel _ _ _ _ | .setState _ _ | .removeModel _ => False

/-- They touch no entry but for its users. -/
theorem Tidy.leaseCall (h : Tidy m) {b : Leases.Action} (hb : LeaseCall m.pool b) :
    SameEntries m.pool (Leases.step m.pool b) := by
  have hstep : Leases.step m.pool b = _ := if_neg (by rw [h.free]; decide)
  cases b with
  | acquireLease id v now => exact hstep ▸ sameEntries_acquire h.ids h.hot id now hb
  | destroyLease v now => exact hstep ▸ sameEntries_destroy h.ids now v
  | moveConstruct v w => exact hstep ▸ sameEntries_moveConstruct v w
  | moveAssign v w now => exact hstep ▸ sameEntries_moveAssign h.ids now v w
  | addModel _ _ _ _ | setState _ _ | removeModel _ => exact hb.elim

/-- What a step can do: take the mutex, go on under it, or work on a lease. -/
inductive Stepped (m : ManagerState) : Action → ManagerState → Prop
  | same (a : Action) : Stepped m a m
  | load (id : Bytes) (hfree : m.holder = none) :
    Stepped m (.load id) { m with holder := some (.stateHot id) }
  | unload (id : Bytes) (hfree : m.holder = none) :
    Stepped m (.unload id) { m with holder := some (.checkingUse id) }
  | next (loaded : Bool) (now : ℤ) (sec : Section) (hsec : m.holder = some sec) :
    Stepped m (.next loaded now) (advance m loaded now sec)
  | lease (a : Action) (b : Leases.Action) (hb : LeaseCall m.pool b) :
    Stepped m a { m with pool := Leases.step m.pool b }

theorem stepped (m : ManagerState) (a : Action) : Stepped m a (step m a) := by
  cases a with
  | load id =>
    dsimp only [step]
    split_ifs with hfree
    · exact Stepped.load id (Option.isNone_iff_eq_none.mp hfree)
    · exact Stepped.same _
  | unload id =>
    dsimp only [step]
    split_ifs with hfree
    · exact Stepped.unload id (Option.isNone_iff_eq_none.mp hfree)
    · exact Stepped.same _
  | next loaded now =>
    dsimp only [step]
    split
    · next sec hsec => exact Stepped.next loaded now sec hsec
    · exact Stepped.same _
  | acquire id v now =>
    dsimp only [step]
    split_ifs with hv
    · exact Stepped.lease _ _ (Option.isNone_iff_eq_none.mp hv)
    · exact Stepped.same _
  | destroyLease v now => exact Stepped.lease _ (.destroyLease v now) trivial
  | moveConstruct v w => exact Stepped.lease _ (.moveConstruct v w) trivial
  | moveAssign v w now => exact Stepped.lease _ (.moveAssign v w now) trivial

/-- **Every step keeps the manager tidy**, with whatever ids. -/
theorem Tidy.step (h : Tidy m) (a : Action) : Tidy (step m a) := by
  have hstep := stepped m a
  generalize Manager.step m a = m' at hstep ⊢
  cases hstep with
  | same => exact h
  | load id | unload id => exact h.hold fun id' hid' => absurd hid' (by simp [Section.absent])
  | next loaded now sec hsec => exact h.advance hsec loaded now
  | lease _ b hb => exact h.lease (h.leaseCall hb)

theorem tidy_start (registry : Bytes → Option ModelDescriptor) (device : VulkanDevice) :
    Tidy { registry := registry, device := device } :=
  ⟨rfl, List.nodup_nil, fun _ _ he => absurd he (by simp [find]), fun _ _ hsec => absurd hsec (by simp)⟩

end Tidy

/-! ### The books, where no id is empty -/

/-- The id that a call was given, until its entry is removed. -/
def Section.modelId : Section → Option Bytes
  | .stateHot id | .stateWarm id | .admitting id | .loading id _ _ | .adding id _ _ | .checkingUse id
  | .readingPlacement id | .readingBytes id _ | .removing id _ _ => some id
  | .releasing _ _ => none

/-- The books are in order, and neither an entry nor the call that holds the mutex has the empty id. -/
structure Orderly (m : ManagerState) : Prop where
  tidy : Tidy m
  books : Accounted m.pool
  named : find [] m.pool.entries = none
  holder : ∀ sec id, m.holder = some sec → sec.modelId = some id → id ≠ []

section Orderly

variable {m : ManagerState}

/-- Every lease is on an id that is not empty. -/
theorem Orderly.named_lease (h : Orderly m) (v : ℕ) : Named (leaseOf m.pool v) := by
  intro hpool hid
  obtain ⟨l, hv, hpool⟩ := exists_lease hpool
  rw [leaseOf_some hv] at hid
  obtain ⟨e, he, -⟩ := h.books.current v l hv hpool
  rw [hid, h.named] at he
  exact absurd he (by simp)

/-- The steps of leases are proper. -/
theorem Orderly.leaseCall (h : Orderly m) {b : Leases.Action} (hb : LeaseCall m.pool b) :
    Accounted (Leases.step m.pool b) := by
  cases b with
  | acquireLease id v now =>
    have hproper : Proper m.pool (.acquireLease id v now) := by
      intro _
      rw [leaseOf, hb, Option.getD_none]
    exact h.books.step hproper
  | destroyLease v now => exact h.books.step (h.named_lease v)
  | moveConstruct v w => exact h.books.step trivial
  | moveAssign v w now => exact h.books.step fun _ _ => h.named_lease v
  | addModel _ _ _ _ | setState _ _ | removeModel _ => exact hb.elim

/-- A call stays with the id it was given. -/
theorem modelId_advance {loaded : Bool} {now : ℤ} {sec sec' : Section} {id : Bytes}
    (hnext : (advance m loaded now sec).holder = some sec') (hid : sec'.modelId = some id) :
    sec.modelId = some id := by
  cases sec with
  | stateHot _ | stateWarm _ | checkingUse _ =>
    dsimp only [advance] at hnext
    split_ifs at hnext
    rw [← Option.some.inj hnext] at hid
    exact hid
  | loading _ _ _ =>
    cases loaded with
    | true =>
      rw [← Option.some.inj hnext] at hid
      exact hid
    | false => exact absurd hnext (by simp [advance])
  | admitting _ =>
    dsimp only [advance] at hnext
    split at hnext
    · exact absurd hnext (by simp)
    · split_ifs at hnext
      · rw [← Option.some.inj hnext] at hid
        exact hid
      · rw [← Option.some.inj hnext] at hid
        exact hid
  | removing _ _ _ =>
    dsimp only [advance] at hnext
    split_ifs at hnext
    rw [← Option.some.inj hnext] at hid
    exact absurd hid (by simp [Section.modelId])
  | readingPlacement _ | readingBytes _ _ =>
    rw [← Option.some.inj hnext] at hid
    exact hid
  | adding _ _ _ | releasing _ _ => exact absurd hnext (by simp [advance])

/-- What a step under the mutex does to the pool. -/
theorem pool_advance (m : ManagerState) (loaded : Bool) (now : ℤ) (sec : Section) :
    (advance m loaded now sec).pool = m.pool ∨
    (∃ id placement bytes, sec = .adding id placement bytes ∧
      (advance m loaded now sec).pool = addModel m.pool id now placement bytes) ∨
    ∃ id placement bytes, sec = .removing id placement bytes ∧
      (advance m loaded now sec).pool = (removeModel m.pool id).1 := by
  cases sec with
  | adding id placement bytes => exact Or.inr (Or.inl ⟨id, placement, bytes, rfl, rfl⟩)
  | removing id placement bytes => exact Or.inr (Or.inr ⟨id, placement, bytes, rfl, rfl⟩)
  | admitting id =>
    refine Or.inl ?_
    dsimp only [advance]
    split
    · rfl
    · split_ifs <;> rfl
  | loading id placement bytes => cases loaded <;> exact Or.inl rfl
  | stateHot _ | stateWarm _ | checkingUse _ | readingPlacement _ | readingBytes _ _ | releasing _ _ =>
    exact Or.inl rfl

theorem Orderly.advance (h : Orderly m) {sec : Section} (hsec : m.holder = some sec) (loaded : Bool) (now : ℤ) :
    Orderly (advance m loaded now sec) := by
  have htidy := h.tidy.advance hsec loaded now
  have hholder (sec' : Section) (id : Bytes) (hnext : (Manager.advance m loaded now sec).holder = some sec')
      (hid : sec'.modelId = some id) : id ≠ [] := h.holder sec id hsec (modelId_advance hnext hid)
  rcases pool_advance m loaded now sec with hpool | ⟨id, placement, bytes, rfl, hpool⟩ |
    ⟨id, placement, bytes, rfl, hpool⟩
  · exact ⟨htidy, hpool ▸ h.books, hpool ▸ h.named, hholder⟩
  · have hid : find id m.pool.entries = none := h.tidy.absent _ id hsec rfl
    have hproper : Proper m.pool (.addModel id placement bytes now) := by
      intro e he
      rw [hid] at he
      exact absurd he (by simp)
    have hnamed : find [] (addModel m.pool id now placement bytes).entries = none :=
      (find_set_of_ne (h.holder _ id hsec rfl).symm).trans h.named
    exact ⟨htidy, hpool ▸ h.books.addModel hproper, hpool ▸ hnamed, hholder⟩
  · have hnamed : find [] (removeModel m.pool id).1.entries = none := by
      by_contra hsome
      obtain ⟨e, he⟩ := Option.ne_none_iff_exists'.mp hsome
      exact absurd (find_removeModel he) (by rw [h.named]; simp)
    exact ⟨htidy, hpool ▸ h.books.removeModel id, hpool ▸ hnamed, hholder⟩

/-- **Every step with a named model keeps the manager orderly.** -/
theorem Orderly.step (h : Orderly m) {a : Action} (ha : a.Named) : Orderly (step m a) := by
  have hstep := stepped m a
  have htidy := h.tidy.step a
  generalize Manager.step m a = m' at hstep htidy ⊢
  cases hstep with
  | same => exact h
  | load id | unload id =>
    refine ⟨htidy, h.books, h.named, fun sec id' hsec hid' => ?_⟩
    rw [← Option.some.inj hsec] at hid'
    exact Option.some.inj hid' ▸ ha
  | next loaded now sec hsec => exact h.advance hsec loaded now
  | lease _ b hb => exact ⟨htidy, h.leaseCall hb, (h.tidy.leaseCall hb).find_none h.named, h.holder⟩

/-! ### Entries with leases stay -/

/-- A valid lease on the id. -/
def leaseOn (id : Bytes) (l : ModelLease) : Bool := l.isValid ∧ l.modelId = id

/-- The leases on an id are those on its entry. -/
theorem count_leaseOn {s : PoolState} (h : Accounted s) {id : Bytes} {e : ModelEntry}
    (he : find id s.entries = some e) : count (onEntry e.address) s.leases = count (leaseOn id) s.leases := by
  refine List.countP_congr fun x hx => ?_
  have hv := find_of_mem h.names hx
  rw [onEntry_iff h (h.current x.1 x.2 hv) he]
  unfold leaseOn ModelLease.isValid
  simp only [decide_eq_true_eq]
  constructor
  · rintro ⟨hpool, hid⟩
    obtain ⟨e', -, hptr⟩ := h.current x.1 x.2 hv hpool
    exact ⟨⟨hpool, by rw [hptr]; rfl⟩, hid⟩
  · rintro ⟨⟨hpool, -⟩, hid⟩
    exact ⟨hpool, hid⟩

/-- Every entry with leases is still there. -/
def KeepsLeased (s s' : PoolState) : Prop :=
  ∀ id e, find id s.entries = some e → count (leaseOn id) s.leases ≠ 0 →
    ∃ e', find id s'.entries = some e' ∧ e'.address = e.address

theorem KeepsLeased.refl (s : PoolState) : KeepsLeased s s := fun _ e he _ => ⟨e, he, rfl⟩

theorem SameEntries.keeps {s s' : PoolState} (h : SameEntries s s') : KeepsLeased s s' := by
  intro id e he _
  have hcore := h.core id
  rw [he, Option.map_some] at hcore
  obtain ⟨e', he', heq⟩ := Option.map_eq_some_iff.mp hcore
  exact ⟨e', he', congrArg Prod.fst heq⟩

theorem keeps_add {s : PoolState} {id : Bytes} (hid : find id s.entries = none) (now : ℤ)
    (placement : DevicePlacement) (bytes : UInt64) : KeepsLeased s (addModel s id now placement bytes) := by
  intro id' e he _
  have hne : id' ≠ id := by
    rintro rfl
    rw [hid] at he
    exact absurd he (by simp)
  exact ⟨e, (find_set_of_ne hne).trans he, rfl⟩

theorem keeps_remove {s : PoolState} (h : Accounted s) (id : Bytes) : KeepsLeased s (removeModel s id).1 := by
  rcases removeModel_cases s id with heq | ⟨e₁, he₁, huse, heq⟩
  · rw [heq]
    exact KeepsLeased.refl s
  · rw [heq]
    intro id' e he hleased
    have hne : id' ≠ id := by
      rintro rfl
      rw [← count_leaseOn h he] at hleased
      have husers := h.users id' e he
      rw [he] at he₁
      rw [← Option.some.inj he₁] at huse
      omega
    exact ⟨e, (find_erase_of_ne hne).trans he, rfl⟩

theorem Orderly.keeps_advance (h : Orderly m) {sec : Section} (hsec : m.holder = some sec) (loaded : Bool)
    (now : ℤ) : KeepsLeased m.pool (Manager.advance m loaded now sec).pool := by
  rcases pool_advance m loaded now sec with hpool | ⟨id, placement, bytes, rfl, hpool⟩ |
    ⟨id, placement, bytes, rfl, hpool⟩
  · rw [hpool]
    exact KeepsLeased.refl _
  · rw [hpool]
    exact keeps_add (h.tidy.absent _ id hsec rfl) now placement bytes
  · rw [hpool]
    exact keeps_remove h.books id

theorem Orderly.keeps (h : Orderly m) (a : Action) : KeepsLeased m.pool (Manager.step m a).pool := by
  have hstep := stepped m a
  generalize Manager.step m a = m' at hstep ⊢
  cases hstep with
  | same | load | unload => exact KeepsLeased.refl _
  | next loaded now sec hsec => exact h.keeps_advance hsec loaded now
  | lease _ b hb => exact (h.tidy.leaseCall hb).keeps

end Orderly

/-- The books as a user of the manager sees them. -/
structure LeasesCounted (s : PoolState) : Prop where
  users : ∀ id e, find id s.entries = some e → e.activeUsers = count (leaseOn id) s.leases
  current : ∀ v l, find v s.leases = some l → l.isValid = true → Current s l

theorem Orderly.leasesCounted {m : ManagerState} (h : Orderly m) : LeasesCounted m.pool := by
  refine ⟨fun id e he => ?_, fun v l hl hvalid => ?_⟩
  · rw [← count_leaseOn h.books he]
    exact h.books.users id e he
  · exact h.books.current v l hl (of_decide_eq_true hvalid).1

theorem orderly_start (registry : Bytes → Option ModelDescriptor) (device : VulkanDevice) :
    Orderly { registry := registry, device := device } :=
  ⟨tidy_start registry device, accounted_start, rfl, fun _ _ hsec => absurd hsec (by simp)⟩

/-- **Lease accounting.** However the steps of `acquire`, `load` and `unload` and of the leases interleave,
on ids that are not empty, no step removes or replaces an entry with a lease, and in every state reached
`active_users` of every entry is the number of valid leases on its id and every valid lease points to the entry
under its id. -/
theorem leases_accounted (registry : Bytes → Option ModelDescriptor) (device : VulkanDevice)
    (acts : List NamedAction) :
    EveryStep step (fun m a => KeepsLeased m.pool (step m a).pool ∧ LeasesCounted (step m a).pool)
        { registry := registry, device := device } (acts.map (·.1)) ∧
      LeasesCounted ((acts.map (·.1)).foldl step { registry := registry, device := device }).pool := by
  have hnamed : ∀ a ∈ acts.map (·.1), a.Named := by
    intro a ha
    obtain ⟨b, -, rfl⟩ := List.mem_map.mp ha
    exact b.2
  obtain ⟨hsteps, hend⟩ := everyStep_of_invariant_mem (I := Orderly) (C := fun _ _ => True) (Q := Action.Named)
    (P := fun m a => KeepsLeased m.pool (step m a).pool ∧ LeasesCounted (step m a).pool)
    (fun m a hm ha _ => ⟨⟨hm.keeps a, (hm.step ha).leasesCounted⟩, hm.step ha⟩) (acts.map (·.1))
    { registry := registry, device := device } (orderly_start registry device) hnamed (everyStep_true _ _)
  exact ⟨hsteps, hend.leasesCounted⟩

end DenseLite.Models.Manager
