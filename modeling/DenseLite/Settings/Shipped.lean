import DenseLite.Lib.Defaults
import DenseLite.Settings.Frame

/-! # Settings across starts and resets

The table of the settings is filled with the shipped rows by every start (`INSERT OR IGNORE`), written by `set_*`, and
put back by a reset, which is two statements: `DELETE`, and a plain `INSERT` that fails as a whole on the first row
whose key is there. Server and tray are two processes, so starts, sets and the statements of resets come in any order.
`lookup_run_iff` says what is stored then, and `complete_run_iff` when all settings are there. The shipped rows are
those of the fields of the configurations (`perm_shipped`), and read as their defaults but for four
(`read_shippedValue`). -/

namespace DenseLite.Settings.Shipped

open DenseLite.Lib.ByteStream DenseLite.Lib.KeyMap DenseLite.Lib.Live DenseLite.Lib.Defaults
open DenseLite.Infer.State DenseLite.Settings.Values DenseLite.Settings.Cache DenseLite.Settings.Document
open DenseLite.Settings.Frame

/-! ### The rows -/

/-- A row as it is shipped. -/
def row (module key value valType : String) : SettingRecord where
  module := ascii module
  key := ascii key
  value := ascii value
  valType := ascii valType
  updatedAt := 1700000000000

/-- The rows in `bootstrap_settings_db` and in `reset_settings_to_defaults`. -/
def shipped : List SettingRecord :=
    [row "server" "host" "127.0.0.1" "string",
      row "server" "port" "9501" "int",
      row "server" "threads" "0" "int",
      row "server" "max_payload_mb" "32" "int",
      row "server" "enable_api_auth" "true" "bool",
      row "server" "api_secret_key" "" "string",
      row "server" "cors_allowed_origins" "" "string",
      row "server" "n_batch" "512" "int",
      row "resource" "ram_budget_percent" "0.50" "float",
      row "resource" "gpu_budget_percent" "0.85" "float",
      row "resource" "headroom_safety_multiplier" "1.10" "float",
      row "resource" "max_kv_tokens" "65536" "int",
      row "resource" "enable_gpu" "true" "bool",
      row "resource" "vram_budget_mb" "2048" "int",
      row "inference" "default_temperature" "0.7" "float",
      row "inference" "default_top_p" "0.9" "float",
      row "inference" "repeat_penalty" "1.15" "float",
      row "inference" "repeat_last_n" "64" "int",
      row "inference" "top_k" "40" "int",
      row "inference" "min_p" "0.05" "float",
      row "inference" "max_output_tokens" "512" "int",
      row "inference" "routing_mode" "modernbert" "string",
      row "inference" "enable_tool_dedup" "true" "bool",
      row "inference" "context_window" "65536" "int",
      row "inference" "enable_context_injection" "true" "bool",
      row "inference" "system_prompt" "You are DenseLite, a fast, concise programming and chat assistant." "string",
      row "multimodal" "sd_steps" "4" "int",
      row "multimodal" "sd_cfg_scale" "1.5" "float",
      row "multimodal" "sd_width" "1024" "int",
      row "multimodal" "sd_height" "1024" "int",
      row "multimodal" "sd_negative_prompt" "ugly, blurry, distorted, low quality" "string",
      row "multimodal" "whisper_language" "auto" "string",
      row "multimodal" "whisper_beam_size" "5" "int",
      row "memory" "search_top_k" "5" "int",
      row "memory" "similarity_threshold" "0.70" "float",
      row "memory" "max_snippet_lines" "60" "int",
      row "memory" "excluded_paths" "vendor,node_modules,storage,.git,build" "string",
      row "cloud" "openrouter_api_key" "" "string",
      row "cloud" "gemini_api_key" "" "string",
      row "cloud" "openai_api_key" "" "string",
      row "cloud" "cloud_fallback_enabled" "true" "bool",
      row "cloud" "cloud_priority" "openrouter,gemini,openai" "string",
      row "logging" "level" "INFO" "string",
      row "logging" "enable_file_logging" "true" "bool",
      row "logging" "enable_console" "true" "bool",
      row "logging" "log_path" "denselite.log" "string",
      row "storage" "models_dir" "~/.denselite/models" "string",
      row "storage" "data_dir" "~/.denselite/data" "string",
      row "storage" "kv_cache_dir" "~/.denselite/kv_cache" "string",
      row "storage" "logs_dir" "~/.denselite/logs" "string"]

/-- The table without rows, which `DELETE FROM system_settings` leaves. -/
def emptied : Table := noSettings.table

/-- There is a row with the primary key. -/
def Stored (id : Id) (t : Table) : Prop := id ∈ keys (byId t.rows)

instance (id : Id) (t : Table) : Decidable (Stored id t) := inferInstanceAs (Decidable (_ ∈ _))

/-- `INSERT` of a row, which fails if the key is there. -/
def insertRow (t : Table) (r : SettingRecord) : Option Table :=
  if Stored (bound r).id t then none else some (upsert r t)

/-- `INSERT OR IGNORE` of a row. -/
def insertOrIgnore (t : Table) (r : SettingRecord) : Table := (insertRow t r).getD t

/-- The settings of `bootstrap_settings_db`. -/
def bootstrapSettings (t : Table) : Table := shipped.foldl insertOrIgnore t

/-- The second statement of `reset_settings_to_defaults`; a row that fails takes back those before it. -/
def insertShipped (t : Table) : Option Table := shipped.foldlM insertRow t

/-! ### Runs -/

/-- What is done to the table: a start, a call of `set_*`, and the two statements of a reset. -/
inductive Action
  | bootstrap
  | set (r : SettingRecord)
  | deleteAll
  | insertShipped
deriving DecidableEq

/-- One action. -/
def step (t : Table) : Action → Table
  | .bootstrap => bootstrapSettings t
  | .set r => upsert r t
  | .deleteAll => emptied
  | .insertShipped => (insertShipped t).getD t

/-- The actions write no value of the setting and take none away. -/
def Spared (id : Id) (acts : List Action) : Prop :=
  .deleteAll ∉ acts ∧ ∀ r, .set r ∈ acts → (bound r).id ≠ id

/-- The shipped value of a setting. -/
def shippedValue (id : Id) : Option Bytes := (find id (byId shipped)).map (·.value)

/-- After a `DELETE` the actions insert the shipped rows: by a start, or by the second statement of a reset that comes
before any setting with a shipped row is set. -/
def Refilled (acts : List Action) : Prop :=
  .bootstrap ∈ acts ∨ ∃ before after, acts = before ++ .insertShipped :: after ∧
    ∀ r, .set r ∈ before → shippedValue (bound r).id = none

/-! ### The rows together -/

/-- A row from its characters, which are faster to evaluate. -/
theorem row_ofList (module key value valType : List Char) :
    row (String.ofList module) (String.ofList key) (String.ofList value) (String.ofList valType) =
      { module := module.map fun c => UInt8.ofNat c.toNat
        key := key.map fun c => UInt8.ofNat c.toNat
        value := value.map fun c => UInt8.ofNat c.toNat
        valType := valType.map fun c => UInt8.ofNat c.toNat
        updatedAt := 1700000000000 } := by
  simp only [row, ascii_ofList]

theorem bound_of_shipped : ∀ r ∈ shipped, bound r = r := by
  unfold shipped
  repeat rw [row_ofList]
  decide +kernel

theorem nodup_shipped : (keys (byId shipped)).Nodup := by
  unfold shipped
  repeat rw [row_ofList]
  decide +kernel

/-- The shipped rows are those of the fields of the configurations. -/
theorem perm_shipped : (keys (byId shipped)).Perm (keys kinds) := by
  unfold shipped kinds configs inferenceConfig multimodalConfig memoryConfig cloudConfig serverConfig resourceConfig
    storageConfig loggingConfig
  repeat rw [row_ofList]
  repeat rw [ascii_ofList]
  decide +kernel

theorem shippedValue_of_mem {r : SettingRecord} (hr : r ∈ shipped) : shippedValue r.id = some r.value := by
  have hmem : (r.id, r) ∈ byId shipped := List.mem_map.mpr ⟨r, hr, rfl⟩
  rw [shippedValue, find_of_mem nodup_shipped hmem]
  rfl

theorem exists_of_shippedValue {id : Id} {v : Bytes} (h : shippedValue id = some v) :
    ∃ r ∈ shipped, r.id = id ∧ r.value = v := by
  obtain ⟨r, hfind, hv⟩ := Option.map_eq_some_iff.mp h
  obtain ⟨r', hr', heq⟩ := List.mem_map.mp (mem_of_find hfind)
  obtain ⟨hid, rfl⟩ := Prod.mk.inj heq
  exact ⟨r', hr', hid, hv⟩

/-- The settings of the image generator that are shipped with other values than `MultimodalConfig` has. -/
def retuned : List Bytes := [ascii "sd_steps", ascii "sd_cfg_scale", ascii "sd_width", ascii "sd_height"]

/-- A shipped row reads as the default of its field, but for these. -/
theorem read_shippedValue : ∀ c ∈ configs, ∀ f ∈ c.fields,
    (f.fallback.read stoi decimalStof.parse (shippedValue (c.module, f.key)) = f.fallback ↔ f.key ∉ retuned) := by
  unfold shippedValue shipped retuned configs inferenceConfig multimodalConfig memoryConfig cloudConfig serverConfig
    resourceConfig storageConfig loggingConfig
  repeat rw [row_ofList]
  repeat rw [ascii_ofList]
  decide +kernel

/-! ### Statements -/

section Statements

variable {t : Table} {r : SettingRecord} {id : Id} {rs : List SettingRecord}

theorem stored_iff : Stored id t ↔ ∃ v, lookup id t = some v := by
  unfold Stored lookup
  rw [← not_iff_not, ← find_eq_none_iff]
  cases find id (byId t.rows) <;> simp

theorem lookup_eq_none_iff : lookup id t = none ↔ ¬ Stored id t := by
  rw [stored_iff]
  cases lookup id t <;> simp

theorem lookup_upsert_self : lookup (bound r).id (upsert r t) = some (bound r).value := by
  unfold lookup upsert
  rw [byId_upsert, find_set_self]
  rfl

theorem lookup_upsert (t : Table) (r : SettingRecord) :
    (fun id => lookup id (upsert r t)) =
      Function.update (fun id => lookup id t) (bound r).id (some (bound r).value) := by
  funext id
  by_cases hid : id = (bound r).id
  · rw [hid, lookup_upsert_self, Function.update_self]
  · rw [lookup_upsert_of_ne hid, Function.update_of_ne hid]

theorem lookup_insertOrIgnore : lookup id (insertOrIgnore t r) =
    (lookup id t).or (if (bound r).id = id then some (bound r).value else none) := by
  unfold insertOrIgnore insertRow
  by_cases hstored : Stored (bound r).id t
  · rw [if_pos hstored, Option.getD_none]
    split_ifs with hid
    · obtain ⟨v, hv⟩ := stored_iff.mp (hid ▸ hstored)
      rw [hv, Option.some_or]
    · rw [Option.or_none]
  · rw [if_neg hstored, Option.getD_some]
    split_ifs with hid
    · rw [← hid, lookup_upsert_self, lookup_eq_none_iff.mpr hstored, Option.none_or]
    · rw [lookup_upsert_of_ne (Ne.symm hid), Option.or_none]

theorem lookup_foldl_insertOrIgnore : lookup id (rs.foldl insertOrIgnore t) =
    (lookup id t).or ((find id (byId (rs.map bound))).map (·.value)) := by
  induction rs generalizing t with
  | nil => simp [byId, find]
  | cons r rs ih =>
    rw [List.foldl_cons, ih, lookup_insertOrIgnore, Option.or_assoc]
    congr 1
    change _ = (if (bound r).id = id then some (bound r) else find id (byId (rs.map bound))).map (·.value)
    split_ifs <;> simp

/-- A start gives the settings that are not stored their shipped values. -/
theorem lookup_bootstrapSettings : lookup id (bootstrapSettings t) = (lookup id t).or (shippedValue id) := by
  rw [bootstrapSettings, lookup_foldl_insertOrIgnore, List.map_congr_left bound_of_shipped, List.map_id']
  rfl

/-- A plain `INSERT` of several rows adds all of them, or none. -/
theorem foldlM_insertRow (hnd : (keys (byId (rs.map bound))).Nodup) :
    rs.foldlM insertRow t = if ∃ r ∈ rs, Stored (bound r).id t then none else some (rs.foldl insertOrIgnore t) := by
  induction rs generalizing t with
  | nil => simp
  | cons r rs ih =>
    obtain ⟨hnot, hnd⟩ := List.nodup_cons.mp hnd
    rw [List.foldlM_cons, List.foldl_cons]
    by_cases hstored : Stored (bound r).id t
    · rw [if_pos ⟨r, List.mem_cons_self, hstored⟩, insertRow, if_pos hstored]
      rfl
    · have hinsert : insertRow t r = some (insertOrIgnore t r) := by
        simp [insertOrIgnore, insertRow, hstored]
      rw [hinsert]
      refine (ih hnd).trans ?_
      have hiff : (∃ x ∈ rs, Stored (bound x).id (insertOrIgnore t r)) ↔ ∃ x ∈ r :: rs, Stored (bound x).id t := by
        rw [List.exists_mem_cons_iff, or_iff_right hstored]
        refine exists_congr fun x => and_congr_right fun hx => ?_
        have hkey : (bound x).id ∈ keys (byId (rs.map bound)) :=
          mem_keys.mpr ⟨bound x, List.mem_map.mpr ⟨bound x, List.mem_map_of_mem hx, rfl⟩⟩
        have hne : (bound r).id ≠ (bound x).id := by
          intro h
          rw [← h] at hkey
          exact hnot hkey
        simp only [stored_iff, lookup_insertOrIgnore, if_neg hne, Option.or_none]
      simp only [hiff]

theorem insertShipped_eq (t : Table) : insertShipped t =
    if ∃ r ∈ shipped, Stored r.id t then none else some (bootstrapSettings t) := by
  have hmap : shipped.map bound = shipped := by
    rw [List.map_congr_left bound_of_shipped, List.map_id']
  rw [insertShipped, foldlM_insertRow (by rw [hmap]; exact nodup_shipped)]
  have hiff : (∃ r ∈ shipped, Stored (bound r).id t) ↔ ∃ r ∈ shipped, Stored r.id t :=
    exists_congr fun r => and_congr_right fun hr => by rw [bound_of_shipped r hr]
  simp only [hiff]
  rfl

end Statements

/-! ### The actions as events -/

/-- The event that an action is for the values; a plain `INSERT` that fails is none. -/
def event (t : Table) : Action → Option (Event Id Bytes)
  | .bootstrap => some .fill
  | .set r => some (.write (bound r).id (bound r).value)
  | .deleteAll => some (.remove fun _ => true)
  | .insertShipped => if ∃ r ∈ shipped, Stored r.id t then none else some .fill

/-- The values that are stored. -/
def view (t : Table) (id : Id) : Option Bytes := lookup id t

theorem view_bootstrapSettings (t : Table) : view (bootstrapSettings t) = apply shippedValue (view t) .fill :=
  funext fun _ => lookup_bootstrapSettings

theorem view_step (t : Table) (a : Action) :
    view (step t a) = (event t a).toList.foldl (apply shippedValue) (view t) := by
  cases a with
  | bootstrap =>
    rw [step, view_bootstrapSettings, event, Option.toList_some, List.foldl_cons, List.foldl_nil]
  | set r => exact lookup_upsert t r
  | deleteAll => rfl
  | insertShipped =>
    rw [step, insertShipped_eq, event]
    split_ifs with hclash
    · rfl
    · rw [Option.getD_some, view_bootstrapSettings, Option.toList_some, List.foldl_cons, List.foldl_nil]

section Run

variable {t : Table} {acts : List Action} {id : Id} {v : Bytes}

theorem view_run : view (acts.foldl step t) = (trace step event t acts).foldl (apply shippedValue) (view t) :=
  foldl_trace view_step

theorem mem_trace_write : .write id v ∈ trace step event t acts ↔
    ∃ r, .set r ∈ acts ∧ (bound r).id = id ∧ (bound r).value = v := by
  rw [mem_trace]
  constructor
  · rintro ⟨before, a, after, rfl, ha⟩
    cases a with
    | set r =>
      obtain ⟨hid, hv⟩ := Event.write.inj (Option.some.inj ha)
      exact ⟨r, by simp, hid, hv⟩
    | bootstrap | deleteAll => simp [event] at ha
    | insertShipped =>
      rw [event] at ha
      split_ifs at ha
      simp at ha
  · rintro ⟨r, hr, rfl, rfl⟩
    obtain ⟨before, after, rfl⟩ := List.append_of_mem hr
    exact ⟨before, .set r, after, rfl, rfl⟩

theorem mem_trace_remove : (∃ e ∈ trace step event t acts, e.Removes id) ↔ .deleteAll ∈ acts := by
  constructor
  · rintro ⟨e, he, hremoves⟩
    obtain ⟨before, a, after, rfl, ha⟩ := mem_trace.mp he
    cases a with
    | deleteAll => simp
    | set r | bootstrap =>
      obtain rfl := Option.some.inj ha
      exact hremoves.elim
    | insertShipped =>
      rw [event] at ha
      split_ifs at ha
      obtain rfl := Option.some.inj ha
      exact hremoves.elim
  · intro h
    obtain ⟨before, after, rfl⟩ := List.append_of_mem h
    exact ⟨.remove fun _ => true, mem_trace.mpr ⟨before, .deleteAll, after, rfl, rfl⟩, rfl⟩

/-- The actions spare a setting if and only if their events do. -/
theorem spares_trace_iff : (∀ e ∈ trace step event t acts, e.Spares id) ↔ Spared id acts := by
  constructor
  · intro h
    refine ⟨fun hdelete => ?_, fun r hr hid => ?_⟩
    · have hremove : ∃ e ∈ trace step event t acts, e.Removes id := mem_trace_remove.mpr hdelete
      obtain ⟨e, he, hremoves⟩ := hremove
      exact hremoves.not_spares (h e he)
    · exact h _ (mem_trace_write.mpr ⟨r, hr, rfl, rfl⟩) hid
  · rintro ⟨hdelete, hset⟩ e he
    obtain hspares | ⟨v, rfl⟩ | hremoves := spares_cases id e
    · exact hspares
    · obtain ⟨r, hr, hid, -⟩ := mem_trace_write.mp he
      exact absurd hid (hset r hr)
    · exact absurd (mem_trace_remove.mp ⟨e, he, hremoves⟩) hdelete

/-- A setting that is written and not taken away is stored. -/
theorem stored_of_set {r : SettingRecord} (hr : .set r ∈ acts) (hdelete : .deleteAll ∉ acts) :
    Stored (bound r).id (acts.foldl step t) := by
  refine stored_iff.mpr ?_
  by_contra hnone
  have hview : (trace step event t acts).foldl (apply shippedValue) (view t) (bound r).id = none := by
    rw [← view_run]
    exact lookup_eq_none_iff.mpr fun h => hnone (stored_iff.mp h)
  obtain hall | ⟨before, e, after, heq, hnot, hafter⟩ := exists_last (bound r).id (trace step event t acts)
  · exact absurd rfl ((spares_trace_iff.mp hall).2 r hr)
  · obtain he | ⟨v, rfl⟩ | he := spares_cases (bound r).id e
    · exact hnot he
    · have hv : (trace step event t acts).foldl (apply shippedValue) (view t) (bound r).id = some v :=
        value_iff.mpr (.inl ⟨before, after, heq, hafter⟩)
      simp [hview] at hv
    · exact hdelete (mem_trace_remove.mp ⟨e, by rw [heq]; simp, he⟩)

end Run

/-! ### What is stored -/

section Result

variable {t : Table} {acts : List Action} {id : Id} {v : Bytes}

/-- If no shipped setting is set and the shipped rows are not inserted, none of them comes to be stored. -/
theorem not_stored_of_not_fill (hset : ∀ r, .set r ∈ acts → shippedValue (bound r).id = none)
    (hfill : .fill ∉ trace step event emptied acts) : ∀ r ∈ shipped, ¬ Stored r.id (acts.foldl step emptied) := by
  intro r hr hstored
  obtain ⟨v, hv⟩ := stored_iff.mp hstored
  have hview : (trace step event emptied acts).foldl (apply shippedValue) (view emptied) r.id = some v := by
    rw [← view_run]
    exact hv
  obtain ⟨before, after, heq, -⟩ | ⟨before, e, after, heq, -, -, hmem, -⟩ | ⟨-, hempty | ⟨-, hmem, -⟩⟩ :=
    value_iff.mp hview
  · obtain ⟨r', hr', hid, -⟩ := mem_trace_write.mp (show Event.write r.id v ∈ _ by rw [heq]; simp)
    have hnone := hset r' hr'
    rw [hid, shippedValue_of_mem hr] at hnone
    simp at hnone
  · exact hfill (by rw [heq]; simp [hmem])
  · simp [view, lookup, emptied, noSettings, byId, find] at hempty
  · exact hfill hmem

/-- From the empty table on, the shipped rows are inserted if and only if the actions refill it. -/
theorem mem_trace_fill (hdelete : .deleteAll ∉ acts) : .fill ∈ trace step event emptied acts ↔ Refilled acts := by
  constructor
  · rw [mem_trace]
    rintro ⟨before, a, after, rfl, ha⟩
    cases a with
    | bootstrap => exact .inl (by simp)
    | set r | deleteAll => simp [event] at ha
    | insertShipped =>
      rw [event] at ha
      split_ifs at ha with hclash
      refine .inr ⟨before, after, rfl, fun r hr => ?_⟩
      by_contra hsome
      obtain ⟨v, hv⟩ := Option.ne_none_iff_exists'.mp hsome
      obtain ⟨r', hr', hid, -⟩ := exists_of_shippedValue hv
      refine hclash ⟨r', hr', ?_⟩
      rw [hid]
      exact stored_of_set hr fun h => hdelete (by simp [h])
  · rintro (hboot | ⟨before, after, rfl, hset⟩)
    · obtain ⟨before, after, rfl⟩ := List.append_of_mem hboot
      exact mem_trace.mpr ⟨before, .bootstrap, after, rfl, rfl⟩
    · by_cases hfill : .fill ∈ trace step event emptied before
      · rw [trace_append]
        exact List.mem_append_left _ hfill
      · refine mem_trace.mpr ⟨before, .insertShipped, after, rfl, ?_⟩
        rw [event, if_neg]
        rintro ⟨r, hr, hstored⟩
        exact not_stored_of_not_fill hset hfill r hr hstored

/-- **What is stored of a setting** after any run that follows a start is the value that was set last; after a
`DELETE`, the shipped value, if the table was refilled since; and without either, what was there at the start. -/
theorem lookup_run_iff (t : Table) (acts : List Action) (id : Id) (v : Bytes) :
    lookup id (acts.foldl step (bootstrapSettings t)) = some v ↔
      (∃ before r after, acts = before ++ .set r :: after ∧ (bound r).id = id ∧ (bound r).value = v ∧
        Spared id after) ∨
      (∃ before after, acts = before ++ .deleteAll :: after ∧ Spared id after ∧ Refilled after ∧
        shippedValue id = some v) ∨
      Spared id acts ∧ ((lookup id t).or (shippedValue id)) = some v := by
  rw [← lookup_bootstrapSettings]
  change view _ id = some v ↔ _
  rw [view_run, value_iff, spares_trace_iff]
  refine or_congr ?_ (or_congr ?_ (and_congr_right fun _ => ?_))
  · constructor
    · rintro ⟨xs, ys, heq, hys⟩
      obtain ⟨before, a, after, rfl, -, ha, rfl⟩ := trace_eq_append_cons.mp heq
      cases a with
      | set r =>
        obtain ⟨hid, hv⟩ := Event.write.inj (Option.some.inj ha)
        exact ⟨before, r, after, rfl, hid, hv, spares_trace_iff.mp hys⟩
      | bootstrap | deleteAll => simp [event] at ha
      | insertShipped =>
        rw [event] at ha
        split_ifs at ha
        simp at ha
    · rintro ⟨before, r, after, rfl, rfl, rfl, hspared⟩
      refine ⟨_, _, trace_eq_append_cons.mpr ⟨before, .set r, after, rfl, rfl, rfl, rfl⟩, ?_⟩
      exact spares_trace_iff.mpr hspared
  · constructor
    · rintro ⟨xs, e, ys, heq, he, hys, hfill, hv⟩
      obtain ⟨before, a, after, rfl, -, ha, rfl⟩ := trace_eq_append_cons.mp heq
      cases a with
      | deleteAll =>
        have hspared := spares_trace_iff.mp hys
        exact ⟨before, after, rfl, hspared, (mem_trace_fill hspared.1).mp hfill, hv⟩
      | set r | bootstrap =>
        obtain rfl := Option.some.inj ha
        exact he.elim
      | insertShipped =>
        rw [event] at ha
        split_ifs at ha
        obtain rfl := Option.some.inj ha
        exact he.elim
    · rintro ⟨before, after, rfl, hspared, hrefilled, hv⟩
      refine ⟨_, _, _, trace_eq_append_cons.mpr ⟨before, .deleteAll, after, rfl, rfl, rfl, rfl⟩, rfl, ?_⟩
      exact ⟨spares_trace_iff.mpr hspared, (mem_trace_fill hspared.1).mpr hrefilled, hv⟩
  · -- a start leaves no setting without its shipped value
    refine or_iff_left fun h => ?_
    obtain ⟨hnone, -, hv⟩ := h
    change lookup id (bootstrapSettings t) = none at hnone
    rw [lookup_bootstrapSettings, Option.or_eq_none_iff, hv] at hnone
    simp at hnone

/-- All shipped settings are stored. -/
def Complete (t : Table) : Prop := ∀ r ∈ shipped, Stored r.id t

/-- A setting is stored if it has a value without the sets, or was set. -/
theorem stored_run (hdelete : .deleteAll ∉ acts)
    (h : Spared id acts → ∃ v, lookup id (acts.foldl step t) = some v) : Stored id (acts.foldl step t) := by
  by_cases hspared : Spared id acts
  · exact stored_iff.mpr (h hspared)
  · unfold Spared at hspared
    push Not at hspared
    obtain ⟨r, hr, rfl⟩ := hspared hdelete
    exact stored_of_set hr hdelete

theorem complete_emptied_iff (hdelete : .deleteAll ∉ acts) : Complete (acts.foldl step emptied) ↔
    Refilled acts ∨ ∀ r ∈ shipped, ∃ r', .set r' ∈ acts ∧ (bound r').id = r.id := by
  have hvalue : ∀ {id v}, Spared id acts → (lookup id (acts.foldl step emptied) = some v ↔
      Refilled acts ∧ shippedValue id = some v) := by
    intro id v hspared
    change view _ id = some v ↔ _
    rw [view_run, foldl_of_spares (spares_trace_iff.mpr hspared), mem_trace_fill hdelete]
    simp [view, lookup, emptied, noSettings, byId, find]
  constructor
  · intro hcomplete
    refine or_iff_not_imp_right.mpr fun hset => ?_
    push Not at hset
    obtain ⟨r, hr, hunset⟩ := hset
    obtain ⟨v, hv⟩ := stored_iff.mp (hcomplete r hr)
    exact ((hvalue ⟨hdelete, hunset⟩).mp hv).1
  · rintro (hrefilled | hset) r hr
    · exact stored_run hdelete fun hspared => ⟨r.value, (hvalue hspared).mpr ⟨hrefilled, shippedValue_of_mem hr⟩⟩
    · obtain ⟨r', hr', hid⟩ := hset r hr
      rw [← hid]
      exact stored_of_set hr' hdelete

/-- **The table is complete** after a run that follows a start if and only if there was no `DELETE`, or the table was
refilled since the last one, or all shipped settings were set since. -/
theorem complete_run_iff (t : Table) (acts : List Action) :
    Complete (acts.foldl step (bootstrapSettings t)) ↔
      .deleteAll ∉ acts ∨ ∃ before after, acts = before ++ .deleteAll :: after ∧ .deleteAll ∉ after ∧
        (Refilled after ∨ ∀ r ∈ shipped, ∃ r', .set r' ∈ after ∧ (bound r').id = r.id) := by
  constructor
  · intro hcomplete
    refine or_iff_not_imp_left.mpr fun hdelete => ?_
    obtain ⟨after, before, heq, hlast⟩ := List.eq_append_cons_of_mem (List.mem_reverse.mpr (not_not.mp hdelete))
    obtain rfl : acts = before.reverse ++ .deleteAll :: after.reverse := by
      rw [← List.reverse_reverse acts, heq]
      simp
    have hlast : Action.deleteAll ∉ after.reverse := fun h => hlast (List.mem_reverse.mp h)
    rw [List.foldl_append, List.foldl_cons] at hcomplete
    exact ⟨before.reverse, after.reverse, rfl, hlast, (complete_emptied_iff hlast).mp hcomplete⟩
  · rintro (hdelete | ⟨before, after, rfl, hlast, h⟩)
    · refine fun r hr => stored_run hdelete fun hspared => ?_
      have hsome : ((lookup r.id t).or (shippedValue r.id)).isSome := by
        rw [shippedValue_of_mem hr, Option.isSome_or]
        simp
      obtain ⟨v, hv⟩ := Option.isSome_iff_exists.mp hsome
      exact ⟨v, (lookup_run_iff t acts r.id v).mpr (.inr (.inr ⟨hspared, hv⟩))⟩
    · rw [List.foldl_append, List.foldl_cons]
      exact (complete_emptied_iff hlast).mpr h

end Result

end DenseLite.Settings.Shipped
