import DenseLite.Settings.Document

/-! # Applying a document

`apply_settings_json` throws at the first configuration with an ill-typed field. What the configurations before
it have written stays, in the table and in the cache; a part of the document that is no object throws nothing,
and has the configuration written as it is. `allOrNothing_iff` says for which documents a request that throws
leaves the settings as they were. -/

namespace DenseLite.Settings.Apply

open DenseLite.Lib.ByteStream DenseLite.Lib.KeyMap DenseLite.Lib.Live
open DenseLite.Infer.State DenseLite.Settings.Values DenseLite.Settings.Cache DenseLite.Settings.Document

section Statements

variable (stof : Stof) (env : Bytes → Option Bytes) (now : Id → Int64) (body : Json) (st : Store)

/-- Table and cache have the same records. -/
def Same (st' : Store) : Prop :=
  (∀ id, find id (byId st'.table.rows) = find id (byId st.table.rows)) ∧
    ∀ key, find key st'.cache = find key st.cache

/-- A request that throws leaves the settings as they were. -/
def AllOrNothing : Prop :=
  ∀ e, (applySettingsJson stof env now body st).2 = .error e →
    Same st (applySettingsJson stof env now body st).1

/-- The record is in the table and in the cache. -/
def Holds (r : SettingRecord) : Prop :=
  find r.id (byId st.table.rows) = some (bound r) ∧ find (makeCacheKey r.id) st.cache = some r

/-- Before the first ill-typed configuration, the document has only configurations that are stored as it has
them, with the time of the request. -/
def StoredBefore : Prop :=
  ∀ pre c post e, configs = pre ++ c :: post → parsed stof env body st c = some (.error e) →
    (∀ c' ∈ pre, ∀ e', parsed stof env body st c' ≠ some (.error e')) →
      ∀ c' ∈ pre, ∀ values, parsed stof env body st c' = some (.ok values) →
        ∀ r ∈ records now c' values, Holds st r

end Statements

section Writes

variable {stof : Stof} {env : Bytes → Option Bytes} {now : Id → Int64} {body : Json} {st : Store}

/-- Nothing has changed exactly when all that is written was there. -/
theorem same_iff : Same st (applySettingsJson stof env now body st).1 ↔
    ∀ r ∈ writes stof env now body st configs, Holds st r := by
  unfold Same
  rw [applySettingsJson_eq, byId_foldl_write, cache_foldl_write, find_setAll_eq_iff nodup_tableKeys,
    find_setAll_eq_iff nodup_cacheKeys, List.forall_mem_map, List.forall_mem_map]
  constructor
  · rintro ⟨htable, hcache⟩ r hr
    have hrow := htable r hr
    rw [(wellNamed_of_mem_writes hr).2] at hrow
    exact ⟨hrow, hcache r hr⟩
  · intro h
    refine ⟨fun r hr => ?_, fun r hr => (h r hr).2⟩
    rw [(wellNamed_of_mem_writes hr).2]
    exact (h r hr).1

/-- What is thrown is thrown at a first ill-typed configuration. -/
theorem exists_of_thrown {e : Bytes} {cs : List Config} (h : thrown stof env body st cs = .error e) :
    ∃ pre c post, cs = pre ++ c :: post ∧ parsed stof env body st c = some (.error e) ∧
      ∀ c' ∈ pre, ∀ e', parsed stof env body st c' ≠ some (.error e') := by
  induction cs with
  | nil => cases h
  | cons c cs ih =>
    rw [thrown] at h
    by_cases hthrows : ∃ e', parsed stof env body st c = some (.error e')
    · obtain ⟨e', hparsed⟩ := hthrows
      rw [hparsed] at h
      cases h
      exact ⟨[], c, cs, rfl, hparsed, fun _ h => by cases h⟩
    · have hrest : thrown stof env body st cs = .error e := by
        rcases hparsed : parsed stof env body st c with _ | e' | values
        · rwa [hparsed] at h
        · exact absurd ⟨e', hparsed⟩ hthrows
        · rwa [hparsed] at h
      obtain ⟨pre, c', post, rfl, hc', hpre⟩ := ih hrest
      exact ⟨c :: pre, c', post, rfl, hc', List.forall_mem_cons.mpr ⟨not_exists.mp hthrows, hpre⟩⟩

end Writes

/-- **A request that throws leaves the settings as they were** exactly when before the first ill-typed
configuration the document has only what is stored. -/
theorem allOrNothing_iff (stof : Stof) (env : Bytes → Option Bytes) (now : Id → Int64) (body : Json)
    (st : Store) :
    AllOrNothing stof env now body st ↔ StoredBefore stof env now body st := by
  unfold AllOrNothing StoredBefore
  simp only [same_iff]
  rw [applySettingsJson_eq]
  constructor
  · intro h pre c post e hconfigs hc hpre c' hc' values hvalues r hr
    obtain ⟨hwrites, hthrown⟩ : writes stof env now body st (pre ++ c :: post) = writes stof env now body st pre ∧
      thrown stof env body st (pre ++ c :: post) = .error e := writes_of_split hc hpre
    rw [← hconfigs] at hwrites hthrown
    refine h e hthrown r ?_
    rw [hwrites]
    exact (mem_writes_iff hpre).mpr ⟨c', hc', values, hvalues, hr⟩
  · intro h e hthrown r hr
    obtain ⟨pre, c, post, hconfigs, hc, hpre⟩ := exists_of_thrown hthrown
    rw [hconfigs, (writes_of_split hc hpre).1] at hr
    obtain ⟨c', hc', values, hvalues, hmem⟩ := (mem_writes_iff hpre).mp hr
    exact h pre c post e hconfigs hc hpre c' hc' values hvalues r hmem

/-- A document whose first part is applied, and whose port is no number. -/
def textualPort : Json := .object
  [(ascii "inference", .object [(ascii "top_k", .integer 50)]),
    (ascii "server", .object [(ascii "port", .string (ascii "http"))])]

theorem not_allOrNothing_textualPort :
    ¬ AllOrNothing decimalStof (fun _ => none) (fun _ => 0) textualPort noSettings := by
  intro h
  have hthrown : (applySettingsJson decimalStof (fun _ => none) (fun _ => 0) textualPort noSettings).2 =
      .error (ascii "[json.exception.type_error.302] type must be number, but is string") := by
    unfold applySettingsJson textualPort configs inferenceConfig multimodalConfig memoryConfig cloudConfig serverConfig
      resourceConfig storageConfig loggingConfig
    repeat rw [ascii_ofList]
    decide +kernel
  obtain ⟨-, hcache⟩ := h _ hthrown
  have htopK := hcache (ascii "inference:top_k")
  exact absurd (congrArg Option.isSome htopK) (by decide +kernel)

end DenseLite.Settings.Apply
