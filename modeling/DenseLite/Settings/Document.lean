import DenseLite.Settings.Cache

/-! # The settings as a document

The configurations that `SettingsManager` reads and writes (`settings_dtos.cpp`), and the JSON document of all of
them: `get_all_settings_json` and `apply_settings_json` (`tray_routes_settings.cpp`). A configuration is the list
of its fields, each with what sets it apart: a default, an older key, a variable of the environment, whether it
is a secret, a percentage, or not in the document. The fields and the configurations stand in the order in which
a document is applied.

A configuration is written as soon as its part of the document is read, and what is written stays when a later
part throws. No other connection writes the database here, so a set call is one write of its record: the steps that the
manager goes through for it come to the same (`write_eq_run`). -/

namespace DenseLite.Settings.Document

open DenseLite.Lib.ByteStream DenseLite.Lib.KeyMap DenseLite.Lib.Live
open DenseLite.Infer.State DenseLite.Settings.Values DenseLite.Settings.Cache

/-! ### JSON values -/

/-- A JSON value, with numbers as the library keeps them. -/
inductive Json
  | null
  | bool (b : Bool)
  | integer (i : ℤ)
  | float (x : ℚ)
  | string (s : Bytes)
  | array (items : List Json)
  | object (members : List (Bytes × Json))

namespace Json

/-- `type_name`. -/
def typeName : Json → Bytes
  | .null => ascii "null"
  | .bool _ => ascii "boolean"
  | .integer _ => ascii "number"
  | .float _ => ascii "number"
  | .string _ => ascii "string"
  | .array _ => ascii "array"
  | .object _ => ascii "object"

/-- The member of an object, if it is one and has the key: `contains`, and `operator[]`. -/
def get? (j : Json) (key : Bytes) : Option Json :=
  match j with
  | .object members => find key members
  | _ => none

/-- What `type_error` 302 says. -/
def typeError (expected : Bytes) (j : Json) : Bytes :=
  ascii "[json.exception.type_error.302] type must be " ++ expected ++ ascii ", but is " ++ j.typeName

end Json

/-- `static_cast<int>` of a float; out of range the least `int`, as the hardware has it. -/
def castInt (x : ℚ) : Int32 :=
  let t := if 0 ≤ x then ⌊x⌋ else ⌈x⌉
  if -2 ^ 31 ≤ t ∧ t < 2 ^ 31 then Int32.ofInt t else Int32.ofInt (-2 ^ 31)

/-- A JSON value assigned to a variable of the type of `v`. Numbers of any type are taken from each other, and
from booleans. -/
def assign (v : Value ℚ) (j : Json) : Except Bytes (Value ℚ) :=
  match v, j with
  | .string _, .string s => .ok (.string s)
  | .string _, j => .error (j.typeError (ascii "string"))
  | .int _, .integer i => .ok (.int (Int32.ofInt i))
  | .int _, .float x => .ok (.int (castInt x))
  | .int _, .bool b => .ok (.int (if b then 1 else 0))
  | .int _, j => .error (j.typeError (ascii "number"))
  | .float _, .integer i => .ok (.float i)
  | .float _, .float x => .ok (.float x)
  | .float _, .bool b => .ok (.float (if b then 1 else 0))
  | .float _, j => .error (j.typeError (ascii "number"))
  | .bool _, .bool b => .ok (.bool b)
  | .bool _, j => .error (j.typeError (ascii "boolean"))

/-! ### Configurations -/

/-- A field of a configuration. -/
structure Field where
  key : Bytes
  fallback : Value ℚ
  olderKey : Option Bytes := none
  env : Option Bytes := none
  secret : Bool := false
  percent : Bool := false
  shown : Bool := true

/-- A configuration. -/
structure Config where
  module : Bytes
  fields : List Field

/-- `InferenceConfig`. -/
def inferenceConfig : Config where
  module := ascii "inference"
  fields :=
    [{ key := ascii "routing_mode", fallback := .string (ascii "modernbert"), olderKey := ascii "needle3_mode" },
      { key := ascii "enable_tool_dedup", fallback := .bool true },
      { key := ascii "enable_context_injection", fallback := .bool true },
      { key := ascii "context_window", fallback := .int 65536 },
      { key := ascii "default_temperature", fallback := .float (7 / 10) },
      { key := ascii "default_top_p", fallback := .float (9 / 10) },
      { key := ascii "repeat_penalty", fallback := .float (115 / 100) },
      { key := ascii "repeat_last_n", fallback := .int 64 },
      { key := ascii "top_k", fallback := .int 40 },
      { key := ascii "min_p", fallback := .float (5 / 100) },
      { key := ascii "max_output_tokens", fallback := .int 512 },
      { key := ascii "system_prompt",
        fallback := .string (ascii "You are DenseLite, a fast, concise programming and chat assistant.") }]

/-- `MultimodalConfig`. -/
def multimodalConfig : Config where
  module := ascii "multimodal"
  fields :=
    [{ key := ascii "sd_steps", fallback := .int 20 },
      { key := ascii "sd_cfg_scale", fallback := .float (75 / 10) },
      { key := ascii "sd_width", fallback := .int 512 },
      { key := ascii "sd_height", fallback := .int 512 },
      { key := ascii "sd_negative_prompt", fallback := .string (ascii "ugly, blurry, distorted, low quality") },
      { key := ascii "whisper_language", fallback := .string (ascii "auto") },
      { key := ascii "whisper_beam_size", fallback := .int 5 }]

/-- `MemoryConfig`. -/
def memoryConfig : Config where
  module := ascii "memory"
  fields :=
    [{ key := ascii "search_top_k", fallback := .int 5 },
      { key := ascii "similarity_threshold", fallback := .float (70 / 100) },
      { key := ascii "max_snippet_lines", fallback := .int 60 },
      { key := ascii "excluded_paths", fallback := .string (ascii "vendor,node_modules,storage,.git,build") }]

/-- `CloudConfig`; the keys are taken from the environment where none is stored. -/
def cloudConfig : Config where
  module := ascii "cloud"
  fields :=
    [{ key := ascii "openrouter_api_key", fallback := .string [], env := ascii "OPENROUTER_API_KEY", secret := true },
      { key := ascii "gemini_api_key", fallback := .string [], env := ascii "GEMINI_API_KEY", secret := true },
      { key := ascii "openai_api_key", fallback := .string [], env := ascii "OPENAI_API_KEY", secret := true },
      { key := ascii "cloud_priority", fallback := .string (ascii "openrouter,gemini,openai") },
      { key := ascii "cloud_fallback_enabled", fallback := .bool true }]

/-- `ServerConfig`. -/
def serverConfig : Config where
  module := ascii "server"
  fields :=
    [{ key := ascii "host", fallback := .string (ascii "127.0.0.1") },
      { key := ascii "port", fallback := .int 9501 },
      { key := ascii "threads", fallback := .int 0 },
      { key := ascii "max_payload_mb", fallback := .int 32 },
      { key := ascii "enable_api_auth", fallback := .bool true },
      { key := ascii "api_secret_key", fallback := .string [], secret := true },
      { key := ascii "cors_allowed_origins", fallback := .string [] },
      { key := ascii "n_batch", fallback := .int 512 }]

/-- `ResourceConfig`. -/
def resourceConfig : Config where
  module := ascii "resource"
  fields :=
    [{ key := ascii "ram_budget_percent", fallback := .float (50 / 100), percent := true },
      { key := ascii "gpu_budget_percent", fallback := .float (85 / 100), shown := false },
      { key := ascii "headroom_safety_multiplier", fallback := .float (110 / 100), shown := false },
      { key := ascii "max_kv_tokens", fallback := .int 65536, shown := false },
      { key := ascii "enable_gpu", fallback := .bool true },
      { key := ascii "vram_budget_mb", fallback := .int 2048 }]

/-- `StorageConfig`. -/
def storageConfig : Config where
  module := ascii "storage"
  fields :=
    [{ key := ascii "models_dir", fallback := .string (ascii "~/.denselite/models") },
      { key := ascii "data_dir", fallback := .string (ascii "~/.denselite/data") },
      { key := ascii "kv_cache_dir", fallback := .string (ascii "~/.denselite/kv_cache") },
      { key := ascii "logs_dir", fallback := .string (ascii "~/.denselite/logs") }]

/-- `LoggingConfig`. -/
def loggingConfig : Config where
  module := ascii "logging"
  fields :=
    [{ key := ascii "level", fallback := .string (ascii "INFO") },
      { key := ascii "enable_file_logging", fallback := .bool true },
      { key := ascii "enable_console", fallback := .bool true },
      { key := ascii "log_path", fallback := .string (ascii "denselite.log") }]

/-- The configurations, in the order of `apply_settings_json`. -/
def configs : List Config :=
  [inferenceConfig, multimodalConfig, memoryConfig, cloudConfig, serverConfig, resourceConfig, storageConfig,
    loggingConfig]

/-! ### Reading and writing configurations -/

/-- The table of the settings, and the cache. -/
structure Store where
  table : Table
  cache : Entries

/-- No settings yet. -/
def noSettings : Store where
  table := ⟨[], List.nodup_nil, fun _ h => by cases h⟩
  cache := []

/-- The values of a configuration. -/
abbrev Values := List (Field × Value ℚ)

/-- `update_setting` with its record. -/
def Store.write (st : Store) (r : SettingRecord) : Store where
  table := upsert r st.table
  cache := Lib.Live.set (makeCacheKey r.id) r st.cache

/-- A set call of the manager that no other thread meets writes its record. -/
theorem write_eq_run {ι : Type*} [DecidableEq ι] (st : ManagerState ι) (t : ι) (hidle : st.pc t = .idle)
    (hwriter : st.writer = none) (r : SettingRecord) :
    let st' := [.call t (.set r), .step t, .step t, .step t, .step t].foldl step st
    ⟨st'.db.now.1, st'.cache⟩ = Store.write ⟨st.db.now.1, st.cache⟩ r ∧ st'.pc t = .idle ∧ st'.writer = none := by
  simp [step, hidle, hwriter, ManagerState.start, ManagerState.goto, ManagerState.advance, Store.write]

/-- A field read in a `get_*_config`. -/
def Field.get (stof : Stof) (env : Bytes → Option Bytes) (module : Bytes) (st : Store) (f : Field) : Value ℚ :=
  let read (key : Bytes) (fallback : Value ℚ) := fallback.read stoi stof.parse (cached (module, key) st.cache)
  let v := read f.key (f.olderKey.elim f.fallback fun key => read key f.fallback)
  match f.env, v with
  | some var, .string [] => .string ((env var).getD [])
  | _, v => v

/-- A `get_*_config`. -/
def getConfig (stof : Stof) (env : Bytes → Option Bytes) (st : Store) (c : Config) : Values :=
  c.fields.map fun f => (f, f.get stof env c.module st)

/-- The record that a setting is written as; `now` is the time at which each is written. -/
def record (now : Id → Int64) (id : Id) (v : Value ℚ) : SettingRecord where
  module := id.1
  key := id.2
  value := v.text
  valType := v.valType
  updatedAt := now id

/-- The records of a `set_*_config`. -/
def records (now : Id → Int64) (c : Config) (values : Values) : List SettingRecord :=
  values.map fun x => record now (c.module, x.1.key) x.2

/-- A `set_*_config`. -/
def setConfig (now : Id → Int64) (c : Config) (values : Values) (st : Store) : Store :=
  (records now c values).foldl Store.write st

/-! ### The document -/

/-- `mask_secret`. -/
def maskSecret (secret : Bytes) : Bytes :=
  if secret = [] then []
  else if secret.length ≤ 4 then List.replicate secret.length 42
  else List.replicate (secret.length - 4) 42 ++ secret.drop (secret.length - 4)

/-- A budget as it is shown. -/
def percentOf (x : ℚ) : Int32 := if x ≤ 1 then castInt (x * 100) else castInt x

/-- A budget as it is read. -/
def budgetOf (p : ℚ) : ℚ := if 1 < p then p / 100 else p

/-- A field of the document. -/
def Field.toJson (f : Field) : Value ℚ → Json
  | .string s => .string (if f.secret then maskSecret s else s)
  | .int i => .integer i.toInt
  | .float x => if f.percent then .integer (percentOf x).toInt else .float x
  | .bool b => .bool b

/-- A part of the document. -/
def configJson (values : Values) : Json :=
  .object ((values.filter fun x => x.1.shown).map fun x => (x.1.key, x.1.toJson x.2))

/-- `get_all_settings_json`. -/
def getAllSettingsJson (stof : Stof) (env : Bytes → Option Bytes) (st : Store) : Json :=
  .object (configs.map fun c => (c.module, configJson (getConfig stof env st c)))

/-- What a field is set to by what stands in the document. -/
def Field.assign (f : Field) (v : Value ℚ) (j : Json) : Except Bytes (Value ℚ) :=
  (Document.assign v j).map fun w =>
    match f.percent, w with
    | true, .float p => .float (budgetOf p)
    | _, w => w

/-- A field and its part of the document. -/
def Field.apply (j : Json) (f : Field) (v : Value ℚ) : Except Bytes (Value ℚ) :=
  match (j.get? f.key).or (f.olderKey.bind j.get?), f.shown with
  | some x, true => f.assign v x
  | _, _ => .ok v

/-- The fields of a configuration, one after the other. -/
def applyFields (j : Json) : Values → Except Bytes Values
  | [] => .ok []
  | x :: xs =>
    match x.1.apply j x.2 with
    | .error e => .error e
    | .ok v => (applyFields j xs).map fun rest => (x.1, v) :: rest

/-- The configurations, one after the other: what the store is then, and what was thrown. -/
def applyConfigs (stof : Stof) (env : Bytes → Option Bytes) (now : Id → Int64) (body : Json) :
    List Config → Store → Store × Except Bytes Unit
  | [], st => (st, .ok ())
  | c :: cs, st =>
    match body.get? c.module with
    | none => applyConfigs stof env now body cs st
    | some j =>
      match applyFields j (getConfig stof env st c) with
      | .error e => (st, .error e)
      | .ok values => applyConfigs stof env now body cs (setConfig now c values st)

/-- `apply_settings_json`. -/
def applySettingsJson (stof : Stof) (env : Bytes → Option Bytes) (now : Id → Int64) (body : Json) (st : Store) :
    Store × Except Bytes Unit :=
  applyConfigs stof env now body configs st

/-! ### Names -/

/-- Module and keys have no colon and no zero byte, and no key occurs twice. -/
def WellNamed (c : Config) : Prop :=
  (58 ∉ c.module ∧ 0 ∉ c.module) ∧ (c.fields.map (·.key)).Nodup ∧
    ∀ f ∈ c.fields, (58 ∉ f.key ∧ 0 ∉ f.key) ∧ ∀ key ∈ f.olderKey, 58 ∉ key

instance (c : Config) : Decidable (WellNamed c) := inferInstanceAs (Decidable (_ ∧ _ ∧ _))

theorem configs_wellNamed : ∀ c ∈ configs, WellNamed c := by
  unfold configs inferenceConfig multimodalConfig memoryConfig cloudConfig serverConfig resourceConfig storageConfig
    loggingConfig
  repeat rw [ascii_ofList]
  decide +kernel

theorem configs_nodup : (configs.map (·.module)).Nodup := by decide +kernel

/-- A record of a configuration, written as it is. -/
theorem mem_records {now : Id → Int64} {c : Config} {values : Values} {r : SettingRecord}
    (h : r ∈ records now c values) : ∃ x ∈ values, r = record now (c.module, x.1.key) x.2 := by
  obtain ⟨x, hx, rfl⟩ := List.mem_map.mp h
  exact ⟨x, hx, rfl⟩

/-! ### What is written -/

section Writes

variable (stof : Stof) (env : Bytes → Option Bytes) (now : Id → Int64) (body : Json) (st : Store)

/-- What a configuration becomes by its part of the document, if it has one. -/
def parsed (c : Config) : Option (Except Bytes Values) :=
  (body.get? c.module).map fun j => applyFields j (getConfig stof env st c)

/-- The records that the configurations before the first ill-typed one write. -/
def writes : List Config → List SettingRecord
  | [] => []
  | c :: cs =>
    match parsed stof env body st c with
    | none => writes cs
    | some (.error _) => []
    | some (.ok values) => records now c values ++ writes cs

/-- What is thrown at the first ill-typed configuration. -/
def thrown : List Config → Except Bytes Unit
  | [] => .ok ()
  | c :: cs =>
    match parsed stof env body st c with
    | none => thrown cs
    | some (.error e) => .error e
    | some (.ok _) => thrown cs

end Writes

section Apply

variable {stof : Stof} {env : Bytes → Option Bytes} {now : Id → Int64} {body : Json} {st : Store}

theorem cache_foldl_write (rs : List SettingRecord) (st : Store) :
    (rs.foldl Store.write st).cache = setAll (rs.map fun r => (makeCacheKey r.id, r)) st.cache := by
  unfold setAll
  induction rs generalizing st with
  | nil => rfl
  | cons r rs ih => exact ih (st.write r)

theorem byId_foldl_write (rs : List SettingRecord) (st : Store) :
    byId (rs.foldl Store.write st).table.rows =
      setAll (rs.map fun r => ((bound r).id, bound r)) (byId st.table.rows) := by
  unfold setAll
  induction rs generalizing st with
  | nil => rfl
  | cons r rs ih =>
    rw [List.foldl_cons, ih, List.map_cons, List.foldl_cons]
    congr 1
    exact byId_upsert (bound r) st.table.rows

/-- A setting after writes is as it was, or as it was written. -/
theorem cached_foldl_write_cases {id : Id} (hid : ColonFree id) : ∀ (rs : List SettingRecord) (st : Store),
    cached id (rs.foldl Store.write st).cache = cached id st.cache ∨
      ∃ r ∈ rs, r.id = id ∧ cached id (rs.foldl Store.write st).cache = some r.value
  | [], _ => Or.inl rfl
  | r :: rs, st => by
    rcases cached_foldl_write_cases hid rs (st.write r) with h | ⟨r', hr', hrest⟩
    · rw [List.foldl_cons, h]
      unfold Store.write cached
      by_cases heq : r.id = id
      · rw [heq, find_set_self]
        exact Or.inr ⟨r, List.mem_cons_self, heq, rfl⟩
      · rw [find_set_of_ne fun hkey => heq (makeCacheKey_inj hid hkey).symm]
        exact Or.inl rfl
    · exact Or.inr ⟨r', List.mem_cons_of_mem r hr', hrest⟩

/-- What is written elsewhere leaves a setting as it is. -/
theorem cached_foldl_write {id : Id} (hid : ColonFree id) {rs : List SettingRecord} (h : ∀ r ∈ rs, r.id ≠ id) :
    cached id (rs.foldl Store.write st).cache = cached id st.cache :=
  (cached_foldl_write_cases hid rs st).resolve_right fun ⟨r, hr, heq, _⟩ => h r hr heq

/-- A configuration is read as before after writes to other modules. -/
theorem getConfig_foldl_write {c : Config} (hc : WellNamed c) {rs : List SettingRecord}
    (h : ∀ r ∈ rs, r.module ≠ c.module) :
    getConfig stof env (rs.foldl Store.write st) c = getConfig stof env st c := by
  have hread : ∀ key, 58 ∉ key → cached (c.module, key) (rs.foldl Store.write st).cache =
      cached (c.module, key) st.cache := fun key hkey =>
    cached_foldl_write ⟨hc.1.1, hkey⟩ fun r hr heq => h r hr (congrArg Prod.fst heq)
  refine List.map_congr_left fun f hf => ?_
  obtain ⟨⟨hkey, -⟩, holder⟩ := hc.2.2 f hf
  unfold Field.get
  cases hol : f.olderKey with
  | none => simp only [hread f.key hkey, Option.elim_none]
  | some key => simp only [hread f.key hkey, hread key (holder key hol), Option.elim_some]

/-- **What `apply_settings_json` does**: the configurations before an ill-typed one are written. -/
theorem applyConfigs_eq : ∀ {cs : List Config} {rs : List SettingRecord}, (∀ c ∈ cs, WellNamed c) →
    (cs.map (·.module)).Nodup → (∀ r ∈ rs, ∀ c ∈ cs, r.module ≠ c.module) →
      applyConfigs stof env now body cs (rs.foldl Store.write st) =
        ((rs ++ writes stof env now body st cs).foldl Store.write st, thrown stof env body st cs)
  | [], rs, _, _, _ => by
    rw [writes, List.append_nil]
    rfl
  | c :: cs, rs, hnamed, hnd, hother => by
    obtain ⟨hnot, hnd'⟩ := List.nodup_cons.mp hnd
    have hnamed' : ∀ c' ∈ cs, WellNamed c' := fun c' hc' => hnamed c' (List.mem_cons_of_mem c hc')
    have hother' : ∀ r ∈ rs, ∀ c' ∈ cs, r.module ≠ c'.module :=
      fun r hr c' hc' => hother r hr c' (List.mem_cons_of_mem c hc')
    have hget : getConfig stof env (rs.foldl Store.write st) c = getConfig stof env st c :=
      getConfig_foldl_write (hnamed c List.mem_cons_self) fun r hr => hother r hr c List.mem_cons_self
    unfold applyConfigs writes thrown parsed
    cases body.get? c.module with
    | none => exact applyConfigs_eq hnamed' hnd' hother'
    | some j =>
      dsimp only [Option.map_some]
      rw [hget]
      cases applyFields j (getConfig stof env st c) with
      | error e =>
        dsimp only
        rw [List.append_nil]
      | ok values =>
        dsimp only
        unfold setConfig
        rw [← List.foldl_append, ← List.append_assoc]
        refine applyConfigs_eq hnamed' hnd' fun r hr c' hc' => ?_
        rcases List.mem_append.mp hr with hr | hr
        · exact hother' r hr c' hc'
        · obtain ⟨x, -, rfl⟩ := mem_records hr
          exact fun heq => hnot (List.mem_map.mpr ⟨c', hc', heq.symm⟩)

theorem applySettingsJson_eq : applySettingsJson stof env now body st =
    ((writes stof env now body st configs).foldl Store.write st, thrown stof env body st configs) :=
  @applyConfigs_eq stof env now body st configs [] configs_wellNamed configs_nodup fun r hr => by cases hr

/-- Fields are kept, and only their values change. -/
theorem fst_applyFields {j : Json} : ∀ {xs vs : Values}, applyFields j xs = .ok vs →
    vs.map Prod.fst = xs.map Prod.fst
  | [], vs, h => by
    cases h
    rfl
  | x :: xs, vs, h => by
    unfold applyFields at h
    cases hv : x.1.apply j x.2 with
    | error e =>
      rw [hv] at h
      cases h
    | ok v =>
      rw [hv] at h
      cases hrest : applyFields j xs with
      | error e =>
        rw [hrest] at h
        cases h
      | ok rest =>
        rw [hrest] at h
        cases h
        exact congrArg (x.1 :: ·) (fst_applyFields hrest)

theorem fst_getConfig (stof : Stof) (env : Bytes → Option Bytes) (st : Store) (c : Config) :
    (getConfig stof env st c).map Prod.fst = c.fields := by
  unfold getConfig
  rw [List.map_map]
  exact List.map_id _

/-- The records of a configuration have its keys. -/
theorem ids_of_parsed {c : Config} {values : Values} (h : parsed stof env body st c = some (.ok values)) :
    (records now c values).map (·.id) = c.fields.map fun f => (c.module, f.key) := by
  obtain ⟨j, -, h⟩ := Option.map_eq_some_iff.mp h
  rw [← fst_getConfig stof env st c, ← fst_applyFields h]
  unfold records
  rw [List.map_map, List.map_map]
  rfl

theorem id_of_mem_writes : ∀ {cs : List Config} {r : SettingRecord}, r ∈ writes stof env now body st cs →
    ∃ c ∈ cs, ∃ f ∈ c.fields, r.id = (c.module, f.key)
  | c :: cs, r, hr => by
    unfold writes at hr
    rcases hparsed : parsed stof env body st c with _ | e | values
    · rw [hparsed] at hr
      obtain ⟨c', hc', hrest⟩ := id_of_mem_writes hr
      exact ⟨c', List.mem_cons_of_mem c hc', hrest⟩
    · rw [hparsed] at hr
      cases hr
    · rw [hparsed] at hr
      rcases List.mem_append.mp hr with hr | hr
      · have hid := List.mem_map_of_mem (f := (·.id)) hr
        rw [ids_of_parsed hparsed] at hid
        obtain ⟨f, hf, heq⟩ := List.mem_map.mp hid
        exact ⟨c, List.mem_cons_self, f, hf, heq.symm⟩
      · obtain ⟨c', hc', hrest⟩ := id_of_mem_writes hr
        exact ⟨c', List.mem_cons_of_mem c hc', hrest⟩

/-- No setting is written twice. -/
theorem nodup_writes : ∀ {cs : List Config}, (∀ c ∈ cs, WellNamed c) → (cs.map (·.module)).Nodup →
    ((writes stof env now body st cs).map (·.id)).Nodup
  | [], _, _ => List.nodup_nil
  | c :: cs, hnamed, hnd => by
    obtain ⟨hnot, hnd'⟩ := List.nodup_cons.mp hnd
    have ih : ((writes stof env now body st cs).map (·.id)).Nodup :=
      nodup_writes (fun c' hc' => hnamed c' (List.mem_cons_of_mem c hc')) hnd'
    unfold writes
    rcases hparsed : parsed stof env body st c with _ | e | values
    · exact ih
    · exact List.nodup_nil
    · dsimp only
      rw [List.map_append, ids_of_parsed hparsed]
      refine List.nodup_append.mpr ⟨?_, ih, fun id hid id' hid' heq => ?_⟩
      · have hkeys := (hnamed c List.mem_cons_self).2.1
        refine List.Nodup.of_map Prod.snd ?_
        rw [List.map_map]
        exact hkeys
      · obtain ⟨f, -, rfl⟩ := List.mem_map.mp hid
        obtain ⟨r, hr, rfl⟩ := List.mem_map.mp hid'
        obtain ⟨c', hc', f', -, hid'⟩ := id_of_mem_writes hr
        exact hnot (List.mem_map.mpr ⟨c', hc', (congrArg Prod.fst (heq.trans hid')).symm⟩)

/-- What is written can be told apart, in the table and in the cache. -/
theorem wellNamed_of_mem_writes {r : SettingRecord} (hr : r ∈ writes stof env now body st configs) :
    ColonFree r.id ∧ (bound r).id = r.id := by
  obtain ⟨c, hc, f, hf, hid⟩ := id_of_mem_writes hr
  obtain ⟨⟨hcolon, hzero⟩, -, hfields⟩ := configs_wellNamed c hc
  obtain ⟨⟨hcolon', hzero'⟩, -⟩ := hfields f hf
  have hmodule : r.module = c.module := congrArg Prod.fst hid
  have hkey : r.key = f.key := congrArg Prod.snd hid
  constructor
  · rw [hid]
    exact ⟨hcolon, hcolon'⟩
  · exact Prod.ext (cstr_of_not_mem (hmodule ▸ hzero)) (cstr_of_not_mem (hkey ▸ hzero'))

theorem nodup_cacheKeys : (keys ((writes stof env now body st configs).map fun r =>
    (makeCacheKey r.id, r))).Nodup := by
  unfold keys
  rw [List.map_map]
  refine List.Nodup.map_on (fun r hr r' hr' heq => ?_) ?_
  · have hid := makeCacheKey_inj (wellNamed_of_mem_writes hr).1 heq
    exact List.inj_on_of_nodup_map (nodup_writes configs_wellNamed configs_nodup) hr hr' hid
  · exact List.Nodup.of_map (·.id) (nodup_writes configs_wellNamed configs_nodup)

theorem nodup_tableKeys : (keys ((writes stof env now body st configs).map fun r =>
    ((bound r).id, bound r))).Nodup := by
  unfold keys
  rw [List.map_map]
  change (List.map (fun r => (bound r).id) _).Nodup
  rw [List.map_congr_left (g := (·.id)) fun r hr => (wellNamed_of_mem_writes hr).2]
  exact nodup_writes configs_wellNamed configs_nodup

/-- Without an ill-typed configuration, all that the document has is written. -/
theorem mem_writes_iff {r : SettingRecord} : ∀ {cs : List Config},
    (∀ c ∈ cs, ∀ e, parsed stof env body st c ≠ some (.error e)) →
      (r ∈ writes stof env now body st cs ↔
        ∃ c ∈ cs, ∃ values, parsed stof env body st c = some (.ok values) ∧ r ∈ records now c values)
  | [], _ => by simp [writes]
  | c :: cs, h => by
    have ih := mem_writes_iff (r := r) fun c' hc' => h c' (List.mem_cons_of_mem c hc')
    rw [writes]
    rcases hparsed : parsed stof env body st c with _ | e | values
    · simp only [ih, List.mem_cons, exists_eq_or_imp, hparsed]
      simp
    · exact absurd hparsed (h c List.mem_cons_self e)
    · simp only [List.mem_append, ih, List.mem_cons, exists_eq_or_imp, hparsed]
      simp

/-- The first ill-typed configuration ends what is written, and throws. -/
theorem writes_of_split {c : Config} {e : Bytes} (hc : parsed stof env body st c = some (.error e))
    {post : List Config} : ∀ {pre : List Config},
      (∀ c' ∈ pre, ∀ e', parsed stof env body st c' ≠ some (.error e')) →
        writes stof env now body st (pre ++ c :: post) = writes stof env now body st pre ∧
          thrown stof env body st (pre ++ c :: post) = .error e
  | [], _ => by
    rw [List.nil_append, writes, writes, thrown, hc]
    exact ⟨rfl, rfl⟩
  | c' :: pre, hpre => by
    have ⟨hwrites, hthrown⟩ := @writes_of_split c e hc post pre fun c'' hc'' =>
      hpre c'' (List.mem_cons_of_mem c' hc'')
    rw [List.cons_append, writes, writes, thrown, hwrites, hthrown]
    rcases hparsed : parsed stof env body st c' with _ | e' | values
    · exact ⟨rfl, rfl⟩
    · exact absurd hparsed (hpre c' List.mem_cons_self e')
    · exact ⟨rfl, rfl⟩

end Apply

end DenseLite.Settings.Document
