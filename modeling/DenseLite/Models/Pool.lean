import DenseLite.Lib.ByteStream
import DenseLite.Lib.Live
import DenseLite.Lib.Runs

/-! # The model pool

`ModelPool` and `ModelLease`: the entries of the pool by model id, the lease variables of its users, and
the operations on both. An entry has an address, which no later entry has again, so that it can be said
whether a lease still points to the entry it was handed out on. All operations of the pool take its
mutex, which is not recursive: an operation that needs it while it is held is stuck. -/

namespace DenseLite.Models.Pool

open DenseLite.Lib.ByteStream DenseLite.Lib.KeyMap DenseLite.Lib.Live DenseLite.Lib.Runs

/-! ### Entries and leases -/

/-- `DevicePlacement`. -/
inductive DevicePlacement
  | VULKAN_GPU | CPU_RAM
deriving DecidableEq, Repr

/-- `ModelState`. -/
inductive ModelState
  | COLD | LOADING | HOT | WARM | FAILED
deriving DecidableEq, Repr

/-- `ModelEntry`; the address stands for the model it holds. -/
structure ModelEntry where
  address : ℕ
  state : ModelState
  placement : DevicePlacement
  activeUsers : ℤ
  lastAccessed : ℤ
  memoryBytes : UInt64
deriving DecidableEq, Repr

/-- `ModelLease`; `pool` says that `pool_` is not null. -/
structure ModelLease where
  pool : Bool := false
  modelId : Bytes := []
  modelPtr : Option ℕ := none
  placement : DevicePlacement := .CPU_RAM
deriving DecidableEq, Repr

/-- `ModelLease::is_valid`. -/
def ModelLease.isValid (l : ModelLease) : Bool := l.pool ∧ l.modelPtr.isSome

/-- Destruction and assignment give the lease back. -/
def ModelLease.releases (l : ModelLease) : Bool := l.pool ∧ l.modelId ≠ []

/-- The pool, the address of the next entry, the lease variables, and whether a thread waits for the
mutex it holds. -/
structure PoolState where
  entries : List (Bytes × ModelEntry) := []
  next : ℕ := 0
  leases : List (ℕ × ModelLease) := []
  stuck : Bool := false
deriving DecidableEq, Repr

/-! ### Operations -/

section Operations

variable (s : PoolState) (id : Bytes) (now : ℤ)

/-- `ModelPool::release_lease`. -/
def releaseLease : PoolState :=
  match find id s.entries with
  | some e =>
    { s with entries := set id { e with activeUsers := e.activeUsers - 1, lastAccessed := now } s.entries }
  | none => s

/-- The pool when a lease is given up: its id is released unless it is empty. -/
def giveUp (l : ModelLease) : PoolState := if l.releases then releaseLease s l.modelId now else s

/-- `ModelPool::acquire_lease` into the variable `v`. The assignment to the variable runs under the
mutex: if it has to release what the variable holds, it waits for it. -/
def acquireLease (v : ℕ) : PoolState × Bool :=
  match find id s.entries with
  | some e =>
    if e.state ≠ .HOT ∧ e.state ≠ .WARM then (s, false)
    else
      let s' := { s with
        entries := set id
          { e with activeUsers := e.activeUsers + 1, lastAccessed := now, state := .HOT } s.entries }
      let lease : ModelLease :=
        { pool := true, modelId := id, modelPtr := some e.address, placement := e.placement }
      if ((find v s.leases).getD {}).releases then ({ s' with stuck := true }, true)
      else ({ s' with leases := set v lease s.leases }, true)
  | none => (s, false)

/-- `ModelPool::add_model`: an entry that stands under the id is destroyed. -/
def addModel (placement : DevicePlacement) (memBytes : UInt64) : PoolState :=
  { s with
    entries := set id
      { address := s.next, state := .HOT, placement := placement, activeUsers := 0
        lastAccessed := now, memoryBytes := memBytes } s.entries
    next := s.next + 1 }

/-- `ModelPool::remove_model`. -/
def removeModel : PoolState × Bool :=
  match find id s.entries with
  | some e => if 0 < e.activeUsers then (s, false) else ({ s with entries := erase id s.entries }, true)
  | none => (s, false)

/-- `ModelPool::is_in_use`. -/
def isInUse : Bool := (find id s.entries).any fun e => 0 < e.activeUsers

/-- `ModelPool::get_state`. -/
def getState : ModelState := ((find id s.entries).map (·.state)).getD .COLD

/-- `ModelPool::set_state`. -/
def setState (state : ModelState) : PoolState :=
  match find id s.entries with
  | some e => { s with entries := set id { e with state := state } s.entries }
  | none => s

/-- `ModelPool::get_placement`. -/
def getPlacement : DevicePlacement := ((find id s.entries).map (·.placement)).getD .CPU_RAM

/-- `ModelPool::get_memory_bytes`. -/
def getMemoryBytes : UInt64 := ((find id s.entries).map (·.memoryBytes)).getD 0

/-- The destructor of the lease `v`. -/
def destroyLease (v : ℕ) : PoolState :=
  match find v s.leases with
  | some l => { giveUp s now l with leases := erase v s.leases }
  | none => s

/-- What a move leaves behind. -/
def ModelLease.moved (l : ModelLease) : ModelLease := { l with pool := false, modelId := [], modelPtr := none }

/-- The move constructor: the new variable `v` from `w`. -/
def moveConstruct (v w : ℕ) : PoolState :=
  match find v s.leases, find w s.leases with
  | none, some l => { s with leases := set v l (set w l.moved s.leases) }
  | _, _ => s

/-- The move assignment of `w` to `v`. -/
def moveAssign (v w : ℕ) : PoolState :=
  match find v s.leases, find w s.leases with
  | some old, some l =>
    if v = w then s else { giveUp s now old with leases := set v l (set w l.moved s.leases) }
  | _, _ => s

/-- What a removal can do. -/
theorem removeModel_cases : removeModel s id = (s, false) ∨
    ∃ e, find id s.entries = some e ∧ e.activeUsers ≤ 0 ∧
      removeModel s id = ({ s with entries := erase id s.entries }, true) := by
  unfold removeModel
  split
  · next e he =>
    split_ifs with huse
    · exact Or.inl rfl
    · exact Or.inr ⟨e, he, by omega, rfl⟩
  · exact Or.inl rfl

end Operations

end DenseLite.Models.Pool
