import DenseLite.Engine.EnvFile

/-! # Cooldowns

`mark_key_cooldown` writes the end of a cooldown to the first key in memory with the provider and the index, and to the
table `api_keys`; `sync_db` copies the table back to the keys, again to the first one of each provider and index. So a
second key with the same index is never on cooldown, and `get_next_available_key` goes on to it. Where there is only
one key of an index on cooldown, the cooldown holds over every history of calls (`cooldowns_hold`). -/

namespace DenseLite.Engine.Cooldowns

open DenseLite.Lib.ByteStream DenseLite.Engine.Keys DenseLite.Engine.EnvFile
open DenseLite.Infer.State (ascii)

/-! ### The router -/

/-- `SQLiteRouter`: the keys in memory, and the rows of `api_keys` in the order in which they are read, if the database
could be opened. -/
structure Router where
  keys : List APIKeyStatus := []
  db : Option (List ApiKeyRow)

/-- A row as `sync_db` reads it: the provider as a C string, the index as an `int`. -/
def readRow (row : ApiKeyRow) : ApiKeyRow :=
  { row with provider := cstr row.provider, keyIndex := (Int32.ofInt row.keyIndex).toInt }

/-- The rows that `sync_db` reads. -/
def Router.read (r : Router) : List ApiKeyRow := (r.db.getD []).map readRow

/-- The keys in memory after `sync_db`. -/
def Router.synced (r : Router) : List APIKeyStatus := syncDb r.read r.keys

/-- The rows with another primary key. -/
def otherRows (row : ApiKeyRow) (rows : List ApiKeyRow) : List ApiKeyRow :=
  rows.filter fun r => ¬ (r.provider = row.provider ∧ r.keyIndex = row.keyIndex)

/-- `INSERT OR REPLACE`: the row takes the place of one with its provider and index, and is read last. -/
def replaceRow (row : ApiKeyRow) (rows : List ApiKeyRow) : List ApiKeyRow := otherRows row rows ++ [row]

/-- `mark_key_cooldown`. -/
def Router.mark (r : Router) (provider : Bytes) (keyIndex : Int32) (cooldownUntil : ℤ) : Router :=
  match r.db with
  | none => r
  | some rows =>
    { keys := syncRow ⟨provider, keyIndex.toInt, cooldownUntil⟩ r.keys
      db := some (replaceRow ⟨cstr provider, keyIndex.toInt, cooldownUntil⟩ rows) }

/-- `load_env`, with nothing for a file that cannot be opened. -/
def Router.load (r : Router) (file : Option Bytes) : Router :=
  match file with
  | none => r
  | some text => { r with keys := loadEnv r.read text r.keys }

/-- What `get_next_available_key` reads beside the router. -/
def Router.keyEnv (r : Router) (config : CloudConfig) (getenv : Bytes → Option Bytes) (now : ℤ) : KeyEnv where
  cloudConfig := config
  apiKeys := r.read
  now := now
  getenv := getenv

/-- The key in memory that `get_next_available_key` returns, if it returns one. -/
def Router.memoryKey (r : Router) (config : CloudConfig) (provider : Bytes) (now : ℤ) : Option APIKeyStatus :=
  if dbKey config provider ≠ [] then none else r.synced.find? (available provider now)

/-- `get_next_available_key` returns it, or the key of the settings or of the environment. -/
theorem getNextAvailableKey_eq (r : Router) (config : CloudConfig) (getenv : Bytes → Option Bytes) (provider : Bytes)
    (now : ℤ) : (getNextAvailableKey (r.keyEnv config getenv now) r.keys provider).1 =
      if dbKey config provider ≠ [] then
        { provider := provider, keyIndex := 0, envVarName := ascii "DB_SETTINGS", keyValue := dbKey config provider
          cooldownUntil := 0 }
      else (r.memoryKey config provider now).getD (environmentKey (r.keyEnv config getenv now) provider) := by
  unfold getNextAvailableKey Router.memoryKey
  show Prod.fst (if dbKey config provider ≠ [] then _ else _) = _
  split_ifs <;> rfl

/-- A call of the router. -/
inductive Call
  | markKeyCooldown (provider : Bytes) (keyIndex : Int32) (seconds : ℤ)
  | syncDb
  | loadEnv (file : Option Bytes)
  | getNextAvailableKey (provider : Bytes) (config : CloudConfig) (getenv : Bytes → Option Bytes)

/-- A call, and the time in seconds that the clock shows to it. -/
structure TimedCall where
  call : Call
  now : ℤ

/-- The router after a call. -/
def after (r : Router) (c : TimedCall) : Router :=
  match c.call with
  | .markKeyCooldown provider keyIndex seconds => r.mark provider keyIndex (c.now + seconds)
  | .syncDb => { r with keys := r.synced }
  | .loadEnv file => r.load file
  | .getNextAvailableKey provider config getenv =>
    { r with keys := (getNextAvailableKey (r.keyEnv config getenv c.now) r.keys provider).2 }

/-- The router after the calls of a history, the newest call first. -/
def routerAfter (start : Router) : List TimedCall → Router
  | [] => start
  | c :: earlier => after (routerAfter start earlier) c

/-! ### Cooldowns -/

/-- The call puts the key of the provider and the index on cooldown until the given time. -/
def Marks (c : TimedCall) (provider : Bytes) (keyIndex cooldownUntil : ℤ) : Prop :=
  ∃ i : Int32, ∃ seconds, c.call = .markKeyCooldown provider i seconds ∧ i.toInt = keyIndex ∧
    c.now + seconds = cooldownUntil

/-- The last cooldown of a history for the provider and the index ends at the given time. -/
inductive LastMark (provider : Bytes) (keyIndex cooldownUntil : ℤ) : List TimedCall → Prop
  | marked {c : TimedCall} {earlier : List TimedCall} : Marks c provider keyIndex cooldownUntil →
      LastMark provider keyIndex cooldownUntil (c :: earlier)
  | other {c : TimedCall} {earlier : List TimedCall} : (∀ cooldownUntil, ¬ Marks c provider keyIndex cooldownUntil) →
      LastMark provider keyIndex cooldownUntil earlier → LastMark provider keyIndex cooldownUntil (c :: earlier)

/-- No key in memory that the call returns is on cooldown: a call that has marked its index until a later time is
followed by one that has marked it until an earlier one. -/
def KeepsCooldowns (start : Router) (c : TimedCall) (earlier : List TimedCall) : Prop :=
  ∀ provider config getenv, c.call = .getNextAvailableKey provider config getenv →
    ∀ k, (routerAfter start earlier).memoryKey config provider c.now = some k →
      ∀ later m before cooldownUntil, earlier = later ++ m :: before → Marks m provider k.keyIndex cooldownUntil →
        c.now < cooldownUntil → ∃ m' ∈ later, ∃ shorter < cooldownUntil, Marks m' provider k.keyIndex shorter

/-- The number of keys with a provider and an index. -/
def keysOf (provider : Bytes) (keyIndex : ℤ) (keys : List APIKeyStatus) : ℕ :=
  keys.countP fun k => k.provider = provider ∧ k.keyIndex = keyIndex

/-- The call is a cooldown for a provider without a zero byte, in an open database; or it asks for a key of a provider
of which, for every index on cooldown, there is at most one key in memory; or it is another one. -/
def Distinct (start : Router) (c : TimedCall) (earlier : List TimedCall) : Prop :=
  match c.call with
  | .markKeyCooldown provider _ _ => 0 ∉ provider ∧ (routerAfter start earlier).db ≠ none
  | .getNextAvailableKey provider config _ => dbKey config provider = [] → ∀ keyIndex cooldownUntil,
      LastMark provider keyIndex cooldownUntil earlier → c.now < cooldownUntil →
        keysOf provider keyIndex (routerAfter start earlier).keys ≤ 1
  | _ => True

/-- A condition on every call of a history and on the calls before it. -/
def Throughout (P : TimedCall → List TimedCall → Prop) : List TimedCall → Prop
  | [] => True
  | c :: earlier => Throughout P earlier ∧ P c earlier

/-! ### One copy of the table -/

section Copy

variable {provider : Bytes} {keyIndex cooldownUntil : ℤ} {row : ApiKeyRow} {rows : List ApiKeyRow}
  {keys : List APIKeyStatus} {k : APIKeyStatus}

theorem keysOf_eq (provider : Bytes) (keyIndex : ℤ) (keys : List APIKeyStatus) : keysOf provider keyIndex keys =
    (keys.map identity).countP fun e => decide (e.1 = provider ∧ e.2.1 = keyIndex) := by
  rw [List.countP_map]
  rfl

/-- `sync_db` leaves the keys of an index as many as they are. -/
theorem keysOf_syncDb (rows : List ApiKeyRow) (keys : List APIKeyStatus) :
    keysOf provider keyIndex (syncDb rows keys) = keysOf provider keyIndex keys := by
  rw [keysOf_eq, keysOf_eq, syncDb_identity]

theorem keysOf_cons_of_pos (h : k.provider = provider ∧ k.keyIndex = keyIndex) (keys : List APIKeyStatus) :
    keysOf provider keyIndex (k :: keys) = keysOf provider keyIndex keys + 1 :=
  List.countP_cons_of_pos (decide_eq_true h)

theorem keysOf_cons_of_neg (h : ¬ (k.provider = provider ∧ k.keyIndex = keyIndex)) (keys : List APIKeyStatus) :
    keysOf provider keyIndex (k :: keys) = keysOf provider keyIndex keys :=
  List.countP_cons_of_neg (by rwa [decide_eq_true_eq])

/-- A row of another key leaves the keys of the index as they are. -/
theorem mem_of_mem_syncRow (hrow : ¬ (row.provider = provider ∧ row.keyIndex = keyIndex))
    (hk : k.provider = provider ∧ k.keyIndex = keyIndex) : ∀ {keys : List APIKeyStatus}, k ∈ syncRow row keys → k ∈ keys
  | k' :: keys, h => by
    unfold syncRow at h
    split_ifs at h with hfirst
    · rcases List.mem_cons.mp h with rfl | h
      · exact absurd ⟨hfirst.1.symm.trans hk.1, hfirst.2.symm.trans hk.2⟩ hrow
      · exact List.mem_cons_of_mem _ h
    · rcases List.mem_cons.mp h with rfl | h
      · exact List.mem_cons_self
      · exact List.mem_cons_of_mem _ (mem_of_mem_syncRow hrow hk h)

theorem mem_of_mem_syncDb (hrows : ∀ row ∈ rows, ¬ (row.provider = provider ∧ row.keyIndex = keyIndex))
    (hk : k.provider = provider ∧ k.keyIndex = keyIndex) (h : k ∈ syncDb rows keys) : k ∈ keys := by
  unfold syncDb at h
  induction rows generalizing keys with
  | nil => exact h
  | cons row rows ih =>
    rw [List.forall_mem_cons] at hrows
    exact mem_of_mem_syncRow hrows.1 hk (ih hrows.2 h)

/-- The row of an index with one key sets the cooldown of that key. -/
theorem cooldown_syncRow (hrow : row.provider = provider ∧ row.keyIndex = keyIndex)
    (hk : k.provider = provider ∧ k.keyIndex = keyIndex) : ∀ {keys : List APIKeyStatus},
    keysOf provider keyIndex keys ≤ 1 → k ∈ syncRow row keys → k.cooldownUntil = row.cooldownUntil
  | k' :: keys, hone, h => by
    unfold syncRow at h
    rw [hrow.1, hrow.2] at h
    split_ifs at h with hfirst
    · rcases List.mem_cons.mp h with rfl | h
      · rfl
      · -- there is no second key of the index
        rw [keysOf_cons_of_pos hfirst] at hone
        exact absurd (List.countP_eq_zero.mp (by omega : keysOf provider keyIndex keys = 0) k h) (by simpa using hk)
    · rcases List.mem_cons.mp h with rfl | h
      · exact absurd hk hfirst
      · rw [keysOf_cons_of_neg hfirst] at hone
        exact cooldown_syncRow hrow hk hone h

/-- The last row of an index with one key sets its cooldown. -/
theorem cooldown_syncDb {rows' : List ApiKeyRow} (hrow : row.provider = provider ∧ row.keyIndex = keyIndex)
    (hlast : ∀ row ∈ rows', ¬ (row.provider = provider ∧ row.keyIndex = keyIndex))
    (hk : k.provider = provider ∧ k.keyIndex = keyIndex) (hone : keysOf provider keyIndex keys ≤ 1)
    (h : k ∈ syncDb (rows ++ row :: rows') keys) : k.cooldownUntil = row.cooldownUntil := by
  have hsplit : syncDb (rows ++ row :: rows') keys = syncDb rows' (syncRow row (syncDb rows keys)) := by
    unfold syncDb
    rw [List.foldl_append, List.foldl_cons]
  rw [hsplit] at h
  exact cooldown_syncRow hrow hk ((keysOf_syncDb rows keys).trans_le hone) (mem_of_mem_syncDb hlast hk h)

end Copy

/-! ### The table -/

section Table

variable {provider provider' : Bytes} {keyIndex cooldownUntil cooldownUntil' : ℤ} {i : Int32} {rows : List ApiKeyRow}

/-- The last row that is read for the provider and the index has the given end of its cooldown. -/
def Written (rows : List ApiKeyRow) (provider : Bytes) (keyIndex cooldownUntil : ℤ) : Prop :=
  ∃ first row rest, rows = first ++ row :: rest ∧ readRow row = ⟨provider, keyIndex, cooldownUntil⟩ ∧
    ∀ r ∈ rest, ¬ ((readRow r).provider = provider ∧ (readRow r).keyIndex = keyIndex)

/-- A row of `mark_key_cooldown` is read as it was meant. -/
theorem readRow_marked (h : 0 ∉ provider) (i : Int32) (cooldownUntil : ℤ) :
    readRow ⟨cstr provider, i.toInt, cooldownUntil⟩ = ⟨provider, i.toInt, cooldownUntil⟩ := by
  have hcstr : cstr (cstr provider) = provider := by rw [cstr_of_not_mem h, cstr_of_not_mem h]
  show ApiKeyRow.mk (cstr (cstr provider)) (Int32.ofInt i.toInt).toInt cooldownUntil = _
  rw [hcstr, Int32.ofInt_toInt]

theorem written_replaceRow (h : 0 ∉ provider) (rows : List ApiKeyRow) :
    Written (replaceRow ⟨cstr provider, i.toInt, cooldownUntil⟩ rows) provider i.toInt cooldownUntil :=
  ⟨_, _, [], rfl, readRow_marked h i cooldownUntil, fun _ h => absurd h List.not_mem_nil⟩

/-- A row with another primary key keeps its place among the rows that are left. -/
theorem otherRows_append_cons {new row : ApiKeyRow} (first rest : List ApiKeyRow)
    (h : ¬ (row.provider = new.provider ∧ row.keyIndex = new.keyIndex)) :
    otherRows new (first ++ row :: rest) = otherRows new first ++ row :: otherRows new rest := by
  unfold otherRows
  rw [List.filter_append, List.filter_cons, if_pos (decide_eq_true h)]

/-- A cooldown of another key leaves the row. -/
theorem Written.replaceRow (h : Written rows provider keyIndex cooldownUntil) (hprovider : 0 ∉ provider')
    (hne : ¬ (provider' = provider ∧ i.toInt = keyIndex)) :
    Written (replaceRow ⟨cstr provider', i.toInt, cooldownUntil'⟩ rows) provider keyIndex cooldownUntil := by
  obtain ⟨first, row, rest, rfl, hrow, hrest⟩ := h
  have hread := readRow_marked hprovider i cooldownUntil'
  have hstays : ¬ (row.provider = cstr provider' ∧ row.keyIndex = i.toInt) := by
    rintro ⟨hp, hi⟩
    have hsame : readRow ⟨cstr provider', i.toInt, row.cooldownUntil⟩ = ⟨provider, keyIndex, cooldownUntil⟩ := by
      rw [← hp, ← hi]
      exact hrow
    rw [readRow_marked hprovider] at hsame
    exact hne ⟨(ApiKeyRow.mk.inj hsame).1, (ApiKeyRow.mk.inj hsame).2.1⟩
  refine ⟨otherRows ⟨cstr provider', i.toInt, cooldownUntil'⟩ first, row,
    otherRows ⟨cstr provider', i.toInt, cooldownUntil'⟩ rest ++ [⟨cstr provider', i.toInt, cooldownUntil'⟩], ?_,
    hrow, ?_⟩
  · rw [Cooldowns.replaceRow, otherRows_append_cons first rest hstays, List.append_assoc, List.cons_append]
  · intro r hr
    rcases List.mem_append.mp hr with hr | hr
    · exact hrest r (List.mem_of_mem_filter hr)
    · rw [List.mem_singleton.mp hr, hread]
      exact hne

end Table

/-! ### Histories -/

section History

variable {start r : Router} {provider : Bytes} {keyIndex cooldownUntil : ℤ} {c : TimedCall}
  {history earlier later before : List TimedCall}

/-- Only a cooldown changes the table. -/
theorem db_after (h : ∀ provider i seconds, c.call ≠ .markKeyCooldown provider i seconds) : (after r c).db = r.db := by
  unfold after
  split
  · next hcall => exact absurd hcall (h _ _ _)
  · rfl
  · next file _ => cases file <;> rfl
  · rfl

theorem db_after_mark {i : Int32} {seconds : ℤ} {rows : List ApiKeyRow}
    (hcall : c.call = .markKeyCooldown provider i seconds) (hdb : r.db = some rows) :
    (after r c).db = some (replaceRow ⟨cstr provider, i.toInt, c.now + seconds⟩ rows) := by
  unfold after
  rw [hcall]
  dsimp only
  rw [Router.mark, hdb]

/-- **What is written stays**: the last cooldown of a key is the one that is read for it. -/
theorem written_of_lastMark (h : Throughout (Distinct start) history)
    (hlast : LastMark provider keyIndex cooldownUntil history) :
    ∃ rows, (routerAfter start history).db = some rows ∧ Written rows provider keyIndex cooldownUntil := by
  induction hlast with
  | @marked c earlier hmarks =>
    obtain ⟨i, seconds, hcall, rfl, rfl⟩ := hmarks
    have hcond := h.2
    unfold Distinct at hcond
    rw [hcall] at hcond
    obtain ⟨rows, hdb⟩ := Option.ne_none_iff_exists'.mp hcond.2
    exact ⟨_, db_after_mark hcall hdb, written_replaceRow hcond.1 rows⟩
  | @other c earlier hnot _ ih =>
    obtain ⟨rows, hdb, hwritten⟩ := ih h.1
    cases hcall : c.call with
    | markKeyCooldown provider' i seconds =>
      have hcond := h.2
      unfold Distinct at hcond
      rw [hcall] at hcond
      have hne : ¬ (provider' = provider ∧ i.toInt = keyIndex) := by
        rintro ⟨rfl, hi⟩
        exact hnot _ ⟨i, seconds, hcall, hi, rfl⟩
      exact ⟨_, db_after_mark hcall hdb, hwritten.replaceRow hcond.1 hne⟩
    | syncDb => exact ⟨rows, (db_after fun _ _ _ h' => by rw [hcall] at h'; cases h').trans hdb, hwritten⟩
    | loadEnv file => exact ⟨rows, (db_after fun _ _ _ h' => by rw [hcall] at h'; cases h').trans hdb, hwritten⟩
    | getNextAvailableKey => exact ⟨rows, (db_after fun _ _ _ h' => by rw [hcall] at h'; cases h').trans hdb, hwritten⟩

/-- A key that has been marked has a last cooldown: the one of that call, or one of a later call. -/
theorem exists_lastMark {m : TimedCall} (hm : Marks m provider keyIndex cooldownUntil) (before : List TimedCall) :
    ∀ later : List TimedCall, LastMark provider keyIndex cooldownUntil (later ++ m :: before) ∨
      ∃ m' ∈ later, ∃ until', Marks m' provider keyIndex until' ∧
        LastMark provider keyIndex until' (later ++ m :: before)
  | [] => Or.inl (.marked hm)
  | c :: later => by
    by_cases hc : ∃ until', Marks c provider keyIndex until'
    · obtain ⟨until', hmarks⟩ := hc
      exact Or.inr ⟨c, List.mem_cons_self, until', hmarks, .marked hmarks⟩
    · have hnot : ∀ until', ¬ Marks c provider keyIndex until' := fun until' h => hc ⟨until', h⟩
      rcases exists_lastMark hm before later with hlast | ⟨m', hm', until', hmarks, hlast⟩
      · exact Or.inl (.other hnot hlast)
      · exact Or.inr ⟨m', List.mem_cons_of_mem c hm', until', hmarks, .other hnot hlast⟩

/-- A key in memory that is returned is not on cooldown. -/
theorem not_onCooldown (h : Throughout (Distinct start) earlier) (hc : Distinct start c earlier)
    {config : CloudConfig} {getenv : Bytes → Option Bytes} {k : APIKeyStatus}
    (hcall : c.call = .getNextAvailableKey provider config getenv)
    (hk : (routerAfter start earlier).memoryKey config provider c.now = some k)
    (hlast : LastMark provider k.keyIndex cooldownUntil earlier) : cooldownUntil ≤ c.now := by
  unfold Router.memoryKey at hk
  split_ifs at hk with hsettings
  rw [not_not] at hsettings
  have havailable : k.provider = provider ∧ k.cooldownUntil < c.now :=
    of_decide_eq_true (show available provider c.now k = true from List.find?_some hk)
  have hmem := List.mem_of_find?_eq_some hk
  by_contra hnow
  unfold Distinct at hc
  rw [hcall] at hc
  have hone := hc hsettings k.keyIndex cooldownUntil hlast (Int.not_le.mp hnow)
  obtain ⟨rows, hdb, first, row, rest, rfl, hrow, hrest⟩ := written_of_lastMark h hlast
  rw [Router.synced, Router.read, hdb, Option.getD_some, List.map_append, List.map_cons, hrow] at hmem
  have hcooldown := cooldown_syncDb ⟨rfl, rfl⟩ (fun r hr => by
    obtain ⟨r', hr', rfl⟩ := List.mem_map.mp hr
    exact hrest r' hr') ⟨havailable.1, rfl⟩ hone hmem
  rw [hcooldown] at havailable
  exact absurd havailable.2 (by dsimp only; omega)

theorem keepsCooldowns_of_distinct (start : Router) : ∀ history : List TimedCall,
    Throughout (Distinct start) history → Throughout (KeepsCooldowns start) history
  | [], _ => trivial
  | c :: earlier, ⟨h, hc⟩ => by
    refine ⟨keepsCooldowns_of_distinct start earlier h, ?_⟩
    rintro provider config getenv hcall k hk later m before cooldownUntil rfl hm hnow
    rcases exists_lastMark hm before later with hlast | ⟨m', hm', until', hmarks, hlast⟩
    · have hle := not_onCooldown h hc hcall hk hlast
      omega
    · have hle := not_onCooldown h hc hcall hk hlast
      exact ⟨m', hm', until', by omega, hmarks⟩

/-- **Cooldowns hold.** `get_next_available_key` returns a key of memory that is not on cooldown, or the key of the
settings or of the environment; and a cooldown of such a key holds over every history whose cooldowns reach the database
and in which no key of an index on cooldown has a second one beside it when it is asked for. -/
theorem cooldowns_hold (start : Router) :
    (∀ (r : Router) (config : CloudConfig) (getenv : Bytes → Option Bytes) (provider : Bytes) (now : ℤ),
      (getNextAvailableKey (r.keyEnv config getenv now) r.keys provider).1 =
        if dbKey config provider ≠ [] then
          { provider := provider, keyIndex := 0, envVarName := ascii "DB_SETTINGS", keyValue := dbKey config provider
            cooldownUntil := 0 }
        else (r.memoryKey config provider now).getD (environmentKey (r.keyEnv config getenv now) provider)) ∧
    ∀ history : List TimedCall, Throughout (Distinct start) history → Throughout (KeepsCooldowns start) history :=
  ⟨getNextAvailableKey_eq, keepsCooldowns_of_distinct start⟩

end History

/-! ### A second key of the same index -/

/-- A line with a key of index 1 for the provider `G`. -/
def keyLine (value : UInt8) : Bytes := [0x47] ++ marker ++ [95, 0x31, 61, value]

/-- The key is loaded from the file and marked for 300 seconds at the time 100; at 101 there is asked for a key. -/
def markedKey (file : Bytes) : List TimedCall :=
  [⟨.getNextAvailableKey [0x47] {} fun _ => none, 101⟩, ⟨.markKeyCooldown [0x47] 1 300, 100⟩,
    ⟨.loadEnv (some file), 99⟩]

/-- With one key in the file its cooldown holds. -/
theorem cooldowns_hold_one : Throughout (KeepsCooldowns { db := some [] }) (markedKey (keyLine 0x61)) := by
  refine (cooldowns_hold _).2 _ ⟨⟨⟨trivial, trivial⟩, by decide, Option.some_ne_none _⟩, fun _ _ _ _ _ => ?_⟩
  exact List.countP_le_length.trans (by decide +kernel)

/-- With a second one of its index in the file, that one is returned. -/
theorem not_keepsCooldowns_second :
    ¬ Throughout (KeepsCooldowns { db := some [] }) (markedKey (keyLine 0x61 ++ 10 :: keyLine 0x62)) := by
  rintro ⟨-, h⟩
  have hkey : (routerAfter { db := some [] } (markedKey (keyLine 0x61 ++ 10 :: keyLine 0x62)).tail).memoryKey {} [0x47]
      101 = some ⟨[0x47], 1, [0x47] ++ marker ++ [95, 0x31], [0x62], 0⟩ := by decide +kernel
  obtain ⟨m', hm', -⟩ := h [0x47] {} (fun _ => none) rfl _ hkey [] _ _ 400 rfl ⟨1, 300, rfl, rfl, rfl⟩ (by decide)
  exact List.not_mem_nil hm'

end DenseLite.Engine.Cooldowns
