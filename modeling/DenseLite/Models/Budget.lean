import DenseLite.Lib.Mutex
import DenseLite.Models.Manager

/-! # Budget enforcement

`ModelManager::enforce_budget` and `unload` as what one thread does, with the mutexes it takes on the way:
`manager_mutex_`, the mutex of the pool and the one of the device. None of them is recursive.
`enforce_budget` keeps `manager_mutex_` over its loop and calls `unload` in it, which wants the same mutex:
the first entry it means to evict is where it stays. A thread that holds none of them comes back from `unload`, with
what the steps of `Manager` do (`unload_tidy`). -/

namespace DenseLite.Models.Budget

open DenseLite.Lib.ByteStream DenseLite.Lib.KeyMap DenseLite.Lib.Live DenseLite.Lib.Mutex DenseLite.Lib.Runs
open DenseLite.Models.Pool DenseLite.Models.Manager

/-- `ModelRole`. -/
inductive ModelRole
  | ROUTER | EMBEDDING | FORMATTER | GENERAL_REASONER | CODER | SPEECH_TO_TEXT | IMAGE_GENERATOR
deriving DecidableEq, Repr

/-- The mutexes: `ModelManager::manager_mutex_`, `ModelPool::mutex_`, `VulkanDevice::alloc_mutex_`. -/
inductive Mutex
  | manager | pool | alloc
deriving DecidableEq, Repr

/-- A thread that works on the manager. -/
abbrev ManagerThread := Thread Mutex ManagerState

/-! ### The code -/

/-- A method of the pool that reads. -/
def readPool {α : Type} (f : PoolState → α) : ManagerThread α :=
  withLock .pool (act fun m => (f m.pool, m))

/-- `ModelPool::remove_model`. -/
def poolRemove (id : Bytes) : ManagerThread Bool :=
  withLock .pool (act fun m => ((removeModel m.pool id).2, { m with pool := (removeModel m.pool id).1 }))

/-- `VulkanDevice::release`. -/
def deviceRelease (bytes : UInt64) : ManagerThread Unit :=
  withLock .alloc (act fun m => ((), { m with device := release m.device bytes }))

/-- `ModelManager::unload`. -/
def unload (id : Bytes) : ManagerThread Bool :=
  withLock .manager do
    if ← readPool (isInUse · id) then return false
    let plc ← readPool (getPlacement · id)
    let memBytes ← readPool (getMemoryBytes · id)
    if ← poolRemove id then
      if plc = .VULKAN_GPU then deviceRelease memBytes
      return true
    return false

section Enforce

-- `role` is the role in the descriptor that is registered for an id; `now` is the clock of
-- `get_evictable_model_ids`, in nanoseconds, `idleTimeout` in seconds.
variable (role : Bytes → ModelRole) (now idleTimeout : ℤ)

/-- The seconds since the last access, cut off at the decimal point. -/
def idleSeconds (e : ModelEntry) : ℤ := (now - e.lastAccessed).tdiv 1000000000

/-- An entry without users that is idle for long enough. -/
def idle (e : ModelEntry) : Bool := e.activeUsers = 0 ∧ idleTimeout ≤ idleSeconds now e

/-- `ModelPool::get_evictable_model_ids`. -/
def getEvictableModelIds (s : PoolState) : List Bytes :=
  (s.entries.filter fun p => idle now idleTimeout p.2).map Prod.fst

/-- The roles whose models are evicted. -/
def evictedRole : ModelRole → Bool
  | .CODER | .SPEECH_TO_TEXT | .IMAGE_GENERATOR => true
  | _ => false

/-- The descriptor of the id, if there is one, has such a role. -/
def evicts (m : ManagerState) (id : Bytes) : Bool := (m.registry id).isSome && evictedRole (role id)

/-- One round of the loop. -/
def evict (id : Bytes) : ManagerThread PUnit := do
  let evicts ← act fun m => (evicts role m id, m)
  if evicts then
    let _ ← unload id

/-- `ModelManager::enforce_budget`. -/
def enforceBudget : ManagerThread PUnit :=
  withLock .manager do
    let evictable ← readPool (getEvictableModelIds now idleTimeout)
    forM evictable (evict role)

end Enforce

/-! ### Unloading -/

/-- A thread that holds `manager_mutex_` waits for ever in `unload`. -/
theorem run_unload_held (id : Bytes) {held : List Mutex} (h : .manager ∈ held) (m : ManagerState) :
    run (unload id) held m = none :=
  run_withLock_of_mem h _

/-! ### The blocks under the locks -/

section Blocks

variable {held : List Mutex} (m : ManagerState)

theorem run_readPool {α : Type} (f : PoolState → α) (h : .pool ∉ held) :
    run (readPool f) held m = some (f m.pool, m) := by
  rw [readPool, run_withLock_of_not_mem h, run_act]

theorem run_poolRemove (id : Bytes) (h : .pool ∉ held) :
    run (poolRemove id) held m =
      some ((removeModel m.pool id).2, { m with pool := (removeModel m.pool id).1 }) := by
  rw [poolRemove, run_withLock_of_not_mem h, run_act]

theorem run_deviceRelease (bytes : UInt64) (h : .alloc ∉ held) :
    run (deviceRelease bytes) held m = some ((), { m with device := release m.device bytes }) := by
  rw [deviceRelease, run_withLock_of_not_mem h, run_act]

end Blocks

/-- A thread without locks comes back from `unload`, and has gone through the steps of `Manager` for it. -/
theorem run_unload_free (id : Bytes) (m : ManagerState) (hfree : m.holder = none) (now : ℤ) :
    (run (unload id) [] m).map Prod.snd =
      some ((List.replicate 5 (Action.next true now)).foldl step (step m (.unload id))) := by
  have hpool : Mutex.pool ∉ [Mutex.manager] := by decide
  have halloc : Mutex.alloc ∉ [Mutex.manager] := by decide
  obtain ⟨registry, device, pool, holder⟩ := m
  subst hfree
  rw [unload, run_withLock_of_not_mem List.not_mem_nil]
  simp only [run_bind, run_readPool _ _ hpool, run_poolRemove _ _ hpool, run_deviceRelease _ _ halloc,
    Option.bind_some, run_ite, run_pure, List.replicate, List.foldl_cons, List.foldl_nil]
  by_cases huse : isInUse pool id
  · simp [step, advance, huse]
  · cases hr : (removeModel pool id).2 with
    | false => simp [step, advance, huse, hr]
    | true =>
      by_cases hp : getPlacement pool id = .VULKAN_GPU
      · simp [step, advance, huse, hr, hp]
      · simp [step, advance, huse, hr, hp]

/-- **`unload` of a thread without locks** comes back and leaves the manager tidy. -/
theorem unload_tidy {m : ManagerState} (h : Tidy m) (hfree : m.holder = none) (id : Bytes) :
    ∃ unloaded m', run (unload id) [] m = some (unloaded, m') ∧ Tidy m' := by
  obtain ⟨⟨unloaded, m'⟩, hrun, hsteps⟩ := Option.map_eq_some_iff.mp (run_unload_free id m hfree 0)
  have hstep (m : ManagerState) (a : Action) (hm : Tidy m) (_ : True) : Tidy (step m a) := hm.step a
  have htidy := foldl_invariant hstep (List.replicate 5 (Action.next true 0)) _ (h.step (.unload id)) fun _ _ => trivial
  rw [← hsteps] at htidy
  exact ⟨unloaded, m', hrun, htidy⟩

/-! ### Enforcing the budget -/

section Enforce

variable (role : Bytes → ModelRole) (now idleTimeout : ℤ) (m : ManagerState)

/-- An entry that `enforce_budget` is there to evict. -/
def Evictable (p : Bytes × ModelEntry) : Prop := idle now idleTimeout p.2 ∧ evicts role m p.1

instance : DecidablePred (Evictable role now idleTimeout m) := fun _ => instDecidableAnd

/-- `enforce_budget` returns, has evicted the entries it is there to evict, and has left the others as they
are. -/
def Enforces : Prop :=
  ∃ m', run (enforceBudget role now idleTimeout) [] m = some ((), m') ∧
    ∀ p, p ∈ m'.pool.entries ↔ p ∈ m.pool.entries ∧ ¬ Evictable role now idleTimeout m p

theorem run_evict (id : Bytes) {held : List Mutex} (h : .manager ∈ held) :
    run (evict role id) held m = if evicts role m id then none else some ((), m) := by
  unfold evict
  rw [run_bind, run_act, Option.bind_some, run_ite, run_bind, run_unload_held id h]
  rfl

/-- What `enforce_budget` does: nothing if there is nothing to evict, and else it does not come back. -/
theorem run_enforceBudget :
    run (enforceBudget role now idleTimeout) [] m =
      if ∃ p ∈ m.pool.entries, Evictable role now idleTimeout m p then none else some ((), m) := by
  have hround : ∀ id ∈ getEvictableModelIds now idleTimeout m.pool,
      run (evict role id) [Mutex.manager] m = if evicts role m id then none else some ((), m) :=
    fun id _ => run_evict role m id List.mem_cons_self
  have hpool : Mutex.pool ∉ [Mutex.manager] := by decide
  rw [enforceBudget, run_withLock_of_not_mem List.not_mem_nil, run_bind, run_readPool m _ hpool,
    Option.bind_some, run_forM_of_still _ _ hround]
  refine if_congr ?_ rfl rfl
  constructor
  · rintro ⟨id, hid, hev⟩
    obtain ⟨p, hp, rfl⟩ := List.mem_map.mp hid
    exact ⟨p, (List.mem_filter.mp hp).1, (List.mem_filter.mp hp).2, hev⟩
  · rintro ⟨p, hp, hidle, hev⟩
    exact ⟨p.1, List.mem_map_of_mem (List.mem_filter.mpr ⟨hp, hidle⟩), hev⟩

/-- **Budget enforcement** works exactly when there is nothing to evict. -/
theorem enforces_iff :
    Enforces role now idleTimeout m ↔ ∀ p ∈ m.pool.entries, ¬ Evictable role now idleTimeout m p := by
  unfold Enforces
  rw [run_enforceBudget]
  constructor
  · rintro ⟨m', hrun, -⟩ p hp hev
    rw [if_pos ⟨p, hp, hev⟩] at hrun
    cases hrun
  · intro hnone
    have hne : ¬ ∃ p ∈ m.pool.entries, Evictable role now idleTimeout m p := by
      rintro ⟨p, hp, hev⟩
      exact hnone p hp hev
    refine ⟨m, if_neg hne, fun p => ⟨fun hp => ⟨hp, hnone p hp⟩, And.left⟩⟩

end Enforce

/-- The id `coder`. -/
def coderId : Bytes := [99, 111, 100, 101, 114]

/-- A coder that nobody has used for ten minutes. -/
def idleCoder : ManagerState where
  registry id := if id = coderId then some {} else none
  device := { available := false, safeCeilingBytes := 0 }
  pool := addModel {} coderId 0 .CPU_RAM 0

theorem not_enforces_idleCoder : ¬ Enforces (fun _ => .CODER) 600000000000 180 idleCoder := by
  rintro ⟨m', hrun, -⟩
  have hev : ∃ p ∈ idleCoder.pool.entries, Evictable (fun _ => .CODER) 600000000000 180 idleCoder p := by decide
  rw [run_enforceBudget, if_pos hev] at hrun
  cases hrun

end DenseLite.Models.Budget
