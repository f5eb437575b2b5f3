import DenseLite.Engine.Pipeline

/-! # The keys of a provider

`get_next_available_key` scans the keys in memory for the first one of the provider whose cooldown is
over; the cooldowns come from the table `api_keys`. Nothing in a run of `execute_pipeline` calls
`mark_key_cooldown`, so a 429 leaves the key where it is: the next attempt on the provider takes
another key only when something else has changed the cooldowns in between (`key_rotation_iff`). -/

namespace DenseLite.Engine.Keys

open DenseLite.Lib.ByteStream DenseLite.Engine.Pipeline
open DenseLite.Infer.State (ascii ascii_ofList)

/-! ### `get_next_available_key` -/

/-- `APIKeyStatus`. -/
structure APIKeyStatus where
  provider : Bytes
  keyIndex : ℤ
  envVarName : Bytes
  keyValue : Bytes
  cooldownUntil : ℤ
deriving DecidableEq, Repr

/-- A row of `api_keys`. -/
structure ApiKeyRow where
  provider : Bytes
  keyIndex : ℤ
  cooldownUntil : ℤ
deriving DecidableEq, Repr

/-- The keys of the cloud configuration. -/
structure CloudConfig where
  openrouterApiKey : Bytes := []
  geminiApiKey : Bytes := []
  openaiApiKey : Bytes := []
deriving DecidableEq, Repr

/-- What `get_next_available_key` reads beside the keys in memory: the settings, the table, the clock
in seconds, and the environment variables. -/
structure KeyEnv where
  cloudConfig : CloudConfig := {}
  apiKeys : List ApiKeyRow := []
  now : ℤ
  getenv : Bytes → Option Bytes := fun _ => none

/-- `sync_db` for one row: the first key with its provider and index takes its cooldown. -/
def syncRow (row : ApiKeyRow) : List APIKeyStatus → List APIKeyStatus
  | [] => []
  | k :: rest =>
    if k.provider = row.provider ∧ k.keyIndex = row.keyIndex then
      { k with cooldownUntil := row.cooldownUntil } :: rest
    else k :: syncRow row rest

/-- `sync_db`. -/
def syncDb (rows : List ApiKeyRow) (keys : List APIKeyStatus) : List APIKeyStatus :=
  rows.foldl (fun keys row => syncRow row keys) keys

/-- `db_key`: the key of the settings. -/
def dbKey (config : CloudConfig) (provider : Bytes) : Bytes :=
  if provider = ascii "OPENROUTER" then config.openrouterApiKey
  else if provider = ascii "GEMINI" then config.geminiApiKey
  else if provider = ascii "OPENAI" then config.openaiApiKey
  else []

/-- A key of the provider whose cooldown is over. -/
def available (provider : Bytes) (now : ℤ) (k : APIKeyStatus) : Bool :=
  k.provider = provider ∧ k.cooldownUntil < now

/-- The value of an environment variable, empty when it is not set. -/
def envValue (env : KeyEnv) (name : Bytes) : Bytes := (env.getenv name).getD []

/-- The key from the environment variables, or the empty key. -/
def environmentKey (env : KeyEnv) (provider : Bytes) : APIKeyStatus :=
  let name := provider ++ ascii "_API_KEY"
  if envValue env name ≠ [] then
    { provider := provider, keyIndex := 0, envVarName := name
      keyValue := envValue env name, cooldownUntil := 0 }
  else if provider = ascii "GEMINI" ∧ envValue env (ascii "GOOGLE_API_KEY") ≠ [] then
    { provider := provider, keyIndex := 0, envVarName := ascii "GOOGLE_API_KEY"
      keyValue := envValue env (ascii "GOOGLE_API_KEY"), cooldownUntil := 0 }
  else { provider := [], keyIndex := 0, envVarName := [], keyValue := [], cooldownUntil := 0 }

/-- `get_next_available_key`, with the keys in memory after it. -/
def getNextAvailableKey (env : KeyEnv) (keys : List APIKeyStatus) (provider : Bytes) :
    APIKeyStatus × List APIKeyStatus :=
  if dbKey env.cloudConfig provider ≠ [] then
    ({ provider := provider, keyIndex := 0, envVarName := ascii "DB_SETTINGS"
       keyValue := dbKey env.cloudConfig provider, cooldownUntil := 0 }, keys)
  else
    let synced := syncDb env.apiKeys keys
    ((synced.find? (available provider env.now)).getD (environmentKey env provider), synced)

/-- A key without its cooldown. -/
def identity (k : APIKeyStatus) : Bytes × ℤ × Bytes × Bytes :=
  (k.provider, k.keyIndex, k.envVarName, k.keyValue)

theorem syncRow_identity (row : ApiKeyRow) : ∀ keys : List APIKeyStatus,
    (syncRow row keys).map identity = keys.map identity
  | [] => rfl
  | k :: rest => by
    unfold syncRow
    split_ifs
    · rfl
    · rw [List.map_cons, List.map_cons, syncRow_identity row rest]

/-- `sync_db` changes cooldowns only: a place in the list stands for the same key before and after. -/
theorem syncDb_identity (rows : List ApiKeyRow) (keys : List APIKeyStatus) :
    (syncDb rows keys).map identity = keys.map identity := by
  unfold syncDb
  induction rows generalizing keys with
  | nil => rfl
  | cons row rows ih => exact (ih _).trans (syncRow_identity row keys)

/-- The table has one row for a provider and an index. -/
def PrimaryKey (rows : List ApiKeyRow) : Prop :=
  rows.Pairwise fun row row' => ¬ (row.provider = row'.provider ∧ row.keyIndex = row'.keyIndex)

theorem syncRow_syncRow (row : ApiKeyRow) : ∀ keys : List APIKeyStatus,
    syncRow row (syncRow row keys) = syncRow row keys
  | [] => rfl
  | k :: rest => by
    by_cases h : k.provider = row.provider ∧ k.keyIndex = row.keyIndex
    · simp [syncRow, h]
    · simp [syncRow, h, syncRow_syncRow row rest]

theorem syncRow_comm {row row' : ApiKeyRow}
    (h : ¬ (row.provider = row'.provider ∧ row.keyIndex = row'.keyIndex)) : ∀ keys : List APIKeyStatus,
    syncRow row (syncRow row' keys) = syncRow row' (syncRow row keys)
  | [] => rfl
  | k :: rest => by
    by_cases hr : k.provider = row.provider ∧ k.keyIndex = row.keyIndex
    · have hr' : ¬ (k.provider = row'.provider ∧ k.keyIndex = row'.keyIndex) :=
        fun hr' => h ⟨hr.1.symm.trans hr'.1, hr.2.symm.trans hr'.2⟩
      simp only [syncRow, if_pos hr, if_neg hr']
    · by_cases hr' : k.provider = row'.provider ∧ k.keyIndex = row'.keyIndex
      · simp only [syncRow, if_neg hr, if_pos hr']
      · simp only [syncRow, if_neg hr, if_neg hr', syncRow_comm h rest]

theorem syncRow_syncDb_comm {row : ApiKeyRow} {rows : List ApiKeyRow}
    (h : ∀ row' ∈ rows, ¬ (row.provider = row'.provider ∧ row.keyIndex = row'.keyIndex))
    (keys : List APIKeyStatus) : syncRow row (syncDb rows keys) = syncDb rows (syncRow row keys) := by
  unfold syncDb
  induction rows generalizing keys with
  | nil => rfl
  | cons row' rows ih =>
    rw [List.forall_mem_cons] at h
    rw [List.foldl_cons, List.foldl_cons, ih h.2, syncRow_comm h.1]

/-- A second `sync_db` of the same table changes nothing. -/
theorem syncDb_syncDb {rows : List ApiKeyRow} (h : PrimaryKey rows) (keys : List APIKeyStatus) :
    syncDb rows (syncDb rows keys) = syncDb rows keys := by
  induction rows generalizing keys with
  | nil => rfl
  | cons row rows ih =>
    obtain ⟨hrow, hrows⟩ := List.pairwise_cons.mp h
    show syncDb rows (syncRow row (syncDb rows (syncRow row keys))) = syncDb rows (syncRow row keys)
    rw [syncRow_syncDb_comm hrow, syncRow_syncRow, ih hrows]

/-! ### The keys of a run -/

/-- The provider that serves an attempt. -/
def providerAt (inp : Inputs) (k : ℕ) (a : Attempt) : Bytes :=
  getProviderForModel (inp.env k).providerModels a.target

/-- `infer` asks for a key of the provider. -/
def isCloud (provider : Bytes) : Bool := provider ≠ ascii "local" ∧ provider ≠ []

/-- Status code and output of an attempt. -/
def replyAt (inp : Inputs) (k : ℕ) (a : Attempt) : ℤ × Bytes :=
  (infer (inp.env k) a.target (prepared inp) []).2

/-- The keys in memory after attempt `k`, if there is one: a cloud attempt asks for a key. -/
def afterAttempt (inp : Inputs) (env : KeyEnv) (k : ℕ) (memory : List APIKeyStatus) :
    Option Attempt → List APIKeyStatus
  | none => memory
  | some a =>
    if isCloud (providerAt inp k a) then (getNextAvailableKey env memory (providerAt inp k a)).2 else memory

/-- The keys in memory before attempt `k`. -/
def memoryAt (inp : Inputs) (keys : List APIKeyStatus) (keyEnv : ℕ → KeyEnv) : ℕ → List APIKeyStatus
  | 0 => keys
  | k + 1 => afterAttempt inp (keyEnv k) k (memoryAt inp keys keyEnv k) (attempts inp)[k]?

/-- A run of `execute_pipeline` with the keys in memory at its start, and what the router reads at each
attempt: the keys that the run gets are the ones of `get_next_available_key`. -/
structure KeyedRun where
  inp : Inputs
  keys : List APIKeyStatus
  keyEnv : ℕ → KeyEnv
  keyed : ∀ k a, (attempts inp)[k]? = some a → isCloud (providerAt inp k a) →
    (inp.env k).keyValue (providerAt inp k a) =
      (getNextAvailableKey (keyEnv k) (memoryAt inp keys keyEnv k) (providerAt inp k a)).1.keyValue

namespace KeyedRun

variable (r : KeyedRun)

def memory (k : ℕ) : List APIKeyStatus := memoryAt r.inp r.keys r.keyEnv k

/-- The keys in memory that attempt `k` scans. -/
def synced (k : ℕ) : List APIKeyStatus := syncDb (r.keyEnv k).apiKeys (r.memory k)

/-- The place in memory of the key that an attempt on the provider uses; none when the key is not from
memory. -/
def usedAt (k : ℕ) (provider : Bytes) : Option ℕ :=
  if dbKey (r.keyEnv k).cloudConfig provider ≠ [] then none
  else (r.synced k).findIdx? (available provider (r.keyEnv k).now)

/-- The key at a place is one of the provider, and off cooldown at attempt `k`. -/
def OffCooldown (k : ℕ) (provider : Bytes) (q : ℕ) : Prop :=
  ∃ key, (r.synced k)[q]? = some key ∧ available provider (r.keyEnv k).now key

variable {r} {k p : ℕ} {provider : Bytes}

theorem usedAt_eq_some_iff (hdb : dbKey (r.keyEnv k).cloudConfig provider = []) :
    r.usedAt k provider = some p ↔ r.OffCooldown k provider p ∧ ∀ q < p, ¬ r.OffCooldown k provider q := by
  unfold usedAt OffCooldown
  rw [if_neg (not_not.mpr hdb), List.findIdx?_eq_some_iff_getElem]
  constructor
  · rintro ⟨hlt, havailable, hfirst⟩
    refine ⟨⟨_, List.getElem?_eq_getElem hlt, havailable⟩, ?_⟩
    rintro q hq ⟨key, hkey, hq'⟩
    obtain ⟨hq'', rfl⟩ := List.getElem?_eq_some_iff.mp hkey
    exact hfirst q hq hq'
  · rintro ⟨⟨key, hkey, havailable⟩, hfirst⟩
    obtain ⟨hlt, rfl⟩ := List.getElem?_eq_some_iff.mp hkey
    exact ⟨hlt, havailable, fun q hq h => hfirst q hq ⟨_, List.getElem?_eq_getElem _, h⟩⟩

theorem memory_succ (r : KeyedRun) (k : ℕ) :
    r.memory (k + 1) = afterAttempt r.inp (r.keyEnv k) k (r.memory k) (attempts r.inp)[k]? := rfl

/-- An attempt leaves the keys in memory as they are, or as it has synced them. -/
theorem memory_succ_cases (r : KeyedRun) (k : ℕ) :
    r.memory (k + 1) = r.memory k ∨ r.memory (k + 1) = r.synced k := by
  rw [memory_succ]
  unfold afterAttempt
  split
  · exact Or.inl rfl
  · split_ifs
    · unfold getNextAvailableKey
      split_ifs
      · exact Or.inl rfl
      · exact Or.inr rfl
    · exact Or.inl rfl

theorem memory_succ_of_cloud {a : Attempt} (ha : (attempts r.inp)[k]? = some a)
    (hcloud : isCloud (providerAt r.inp k a))
    (hdb : dbKey (r.keyEnv k).cloudConfig (providerAt r.inp k a) = []) : r.memory (k + 1) = r.synced k := by
  rw [memory_succ, ha, afterAttempt, if_pos hcloud, getNextAvailableKey, if_neg (not_not.mpr hdb)]
  rfl

end KeyedRun

/-- Attempt `i` on the provider is answered with 429 and the action is `SWITCH_KEY`; attempt `j` is the
next one on the provider. There is no key in the settings, and at least two keys in memory are off
cooldown. -/
structure SwitchesKey (r : KeyedRun) (provider : Bytes) (i j : ℕ) : Prop where
  cloud : isCloud provider
  failed : ∃ a, (attempts r.inp)[i]? = some a ∧ providerAt r.inp i a = provider ∧
    (replyAt r.inp i a).1 = 429 ∧
    determineAction (replyAt r.inp i a).1 (replyAt r.inp i a).2 = .SWITCH_KEY
  next : ∃ b, (attempts r.inp)[j]? = some b ∧ providerAt r.inp j b = provider
  lt : i < j
  between : ∀ k c, i < k → k < j → (attempts r.inp)[k]? = some c → providerAt r.inp k c ≠ provider
  noDbKey : ∀ k, dbKey (r.keyEnv k).cloudConfig provider = []
  two : ∃ p q, p ≠ q ∧ r.OffCooldown i provider p ∧ r.OffCooldown i provider q

/-- While the table stays as it is, so do the cooldowns: the keys that the next attempt scans are those
that the failed one has scanned. -/
theorem SwitchesKey.synced_eq {r : KeyedRun} {provider : Bytes} {i j : ℕ} (h : SwitchesKey r provider i j)
    {rows : List ApiKeyRow} (hrows : PrimaryKey rows)
    (hquiet : ∀ k, i ≤ k → k ≤ j → (r.keyEnv k).apiKeys = rows) : r.synced j = r.synced i := by
  have hsame : syncDb rows (r.synced i) = r.synced i := by
    rw [KeyedRun.synced, hquiet i le_rfl h.lt.le]
    exact syncDb_syncDb hrows _
  -- in memory are the synced keys, from the failed attempt on
  have hmemory : ∀ k, i < k → k ≤ j → r.memory k = r.synced i := by
    intro k hik hkj
    induction k, hik using Nat.le_induction with
    | base =>
      obtain ⟨a, ha, rfl, -⟩ := h.failed
      exact KeyedRun.memory_succ_of_cloud ha h.cloud (h.noDbKey i)
    | succ k hik ih =>
      have hk := ih (by omega)
      rcases r.memory_succ_cases k with hsucc | hsucc
      · rw [hsucc, hk]
      · rw [hsucc, KeyedRun.synced, hk, hquiet k (by omega) (by omega), hsame]
  rw [KeyedRun.synced, hmemory j h.lt le_rfl, hquiet j h.lt.le le_rfl, hsame]

/-- **Left to itself the engine does not rotate.** While the table stays as it is and the clock does not
go back, the next attempt uses the same key, unless an earlier key comes off cooldown. -/
theorem SwitchesKey.usedAt_eq {r : KeyedRun} {provider : Bytes} {i j : ℕ} (h : SwitchesKey r provider i j)
    {rows : List ApiKeyRow} (hrows : PrimaryKey rows)
    (hquiet : ∀ k, i ≤ k → k ≤ j → (r.keyEnv k).apiKeys = rows)
    (hclock : (r.keyEnv i).now ≤ (r.keyEnv j).now) {p : ℕ} (hp : r.usedAt i provider = some p)
    (hearlier : ∀ q < p, ¬ r.OffCooldown j provider q) : r.usedAt j provider = some p := by
  obtain ⟨⟨key, hkey, hoff⟩, -⟩ := (KeyedRun.usedAt_eq_some_iff (h.noDbKey i)).mp hp
  obtain ⟨hprovider, hcooldown⟩ := of_decide_eq_true hoff
  refine (KeyedRun.usedAt_eq_some_iff (h.noDbKey j)).mpr ⟨⟨key, ?_, ?_⟩, hearlier⟩
  · rw [h.synced_eq hrows hquiet, hkey]
  · exact decide_eq_true ⟨hprovider, hcooldown.trans_le hclock⟩

end DenseLite.Engine.Keys
