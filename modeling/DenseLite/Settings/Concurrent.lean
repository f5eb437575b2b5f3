import DenseLite.Lib.Atomic
import DenseLite.Settings.Frame

/-! # Two documents at once

Two requests apply their documents in two threads of the server. An operation of the settings manager is atomic, a
call of `apply_settings_json` is not: it reads a configuration setting by setting, and later writes it setting by
setting, the settings that its document does not name with what it has read. `settings_survive_iff` says for which
documents every setting has in the end the value it was given, in whatever order the operations come. -/

namespace DenseLite.Settings.Concurrent

open DenseLite.Lib.ByteStream DenseLite.Lib.KeyMap DenseLite.Lib.Live DenseLite.Lib.Atomic
open DenseLite.Infer.State DenseLite.Settings.Values DenseLite.Settings.Cache DenseLite.Settings.Document
open DenseLite.Settings.Export DenseLite.Settings.Frame

deriving instance DecidableEq for Document.Field

/-! ### The order of access -/

/-- The keys in the order of `get_*_config` and `set_*_config`, where it is not that of the document. -/
def accessKeys : List (Bytes × List Bytes) :=
  [(ascii "inference",
      [ascii "default_temperature", ascii "default_top_p", ascii "repeat_penalty", ascii "repeat_last_n",
        ascii "top_k", ascii "min_p", ascii "max_output_tokens", ascii "routing_mode", ascii "enable_tool_dedup",
        ascii "context_window", ascii "enable_context_injection", ascii "system_prompt"]),
    (ascii "cloud",
      [ascii "openrouter_api_key", ascii "gemini_api_key", ascii "openai_api_key", ascii "cloud_fallback_enabled",
        ascii "cloud_priority"])]

/-- A configuration with its fields in the order of access. -/
def accessed (c : Config) : Config :=
  match find c.module accessKeys with
  | none => c
  | some keys => { c with fields := keys.filterMap fun key => c.fields.find? fun f => f.key = key }

theorem module_accessed (c : Config) : (accessed c).module = c.module := by
  unfold accessed
  cases find c.module accessKeys <;> rfl

theorem perm_accessed : ∀ c ∈ configs, (accessed c).fields.Perm c.fields := by
  unfold configs inferenceConfig multimodalConfig memoryConfig cloudConfig serverConfig resourceConfig storageConfig
    loggingConfig accessed accessKeys
  repeat rw [ascii_ofList]
  decide +kernel

/-! ### The threads -/

section Threads

variable (stof : Stof) (env : Bytes → Option Bytes) (now : Id → Int64)

/-- One setting read in a `get_*_config`; the older key is read first. -/
def readField (module : Bytes) (f : Field) (next : Value ℚ → Prog Store) : Prog Store :=
  match f.olderKey with
  | none => .act (fun st => st) fun st =>
    next (orEnv env f (f.fallback.read stoi stof.parse (cached (module, f.key) st.cache)))
  | some key => .act (fun st => st) fun st =>
    let fallback := f.fallback.read stoi stof.parse (cached (module, key) st.cache)
    .act (fun st => st) fun st =>
      next (orEnv env f (fallback.read stoi stof.parse (cached (module, f.key) st.cache)))

/-- A `get_*_config`. -/
def readFields (module : Bytes) : List Field → (Values → Prog Store) → Prog Store
  | [], next => next []
  | f :: fs, next => readField stof env module f fun v => readFields module fs fun vs => next ((f, v) :: vs)

/-- The calls of a `set_*_config`. -/
def writeAll : List SettingRecord → Prog Store → Prog Store
  | [], rest => rest
  | r :: rs, rest => .act (fun st => st.write r) fun _ => writeAll rs rest

/-- `apply_settings_json`, one operation after the other. -/
def applyProg (body : Json) : List Config → Prog Store
  | [] => .done
  | c :: cs =>
    match body.get? c.module with
    | none => applyProg body cs
    | some j => readFields stof env c.module c.fields fun vs =>
      match applyFields j vs with
      | .error _ => .done
      | .ok values => writeAll (records now c values) (applyProg body cs)

/-- The thread of a request. -/
def thread (body : Json) : Prog Store := applyProg stof env now body (configs.map accessed)

end Threads

/-! ### One setting of the store -/

section Setting

variable {stof : Stof} {env : Bytes → Option Bytes} {now : Id → Int64} {body : Json} {c : Config} {f : Field}
  {d : Value ℚ} {P Q : Option Bytes → Prop}

/-- The setting has a text with `P`, and `d` is what it would be read as without one. -/
def At (stof : Stof) (c : Config) (f : Field) (d : Value ℚ) (P : Option Bytes → Prop) (st : Store) : Prop :=
  olderValue stof c.module st f = d ∧ P (cached (c.module, f.key) st.cache)

/-- The record is one of a configuration. -/
def Known (r : SettingRecord) : Prop := ∃ c ∈ configs, ∃ f ∈ c.fields, r.id = (c.module, f.key)

theorem colonFree_field (hc : c ∈ configs) (hf : f ∈ c.fields) : ColonFree (c.module, f.key) :=
  ⟨(configs_wellNamed c hc).1.1, ((configs_wellNamed c hc).2.2 f hf).1.1⟩

/-- What a write does to a setting. -/
theorem at_write (hc : c ∈ configs) (hf : f ∈ c.fields) {r : SettingRecord} (hr : Known r) {st : Store}
    (h : At stof c f d P st) (hsame : r.id = (c.module, f.key) → Q (some r.value))
    (hother : r.id ≠ (c.module, f.key) → ∀ t, P t → Q t) : At stof c f d Q (st.write r) := by
  obtain ⟨c', hc', f', hf', hid⟩ := hr
  constructor
  · rw [← h.1]
    unfold olderValue
    cases holder : f.olderKey with
    | none => rfl
    | some key =>
      have hcolon : ColonFree (c.module, key) :=
        ⟨(configs_wellNamed c hc).1.1, ((configs_wellNamed c hc).2.2 f hf).2 key holder⟩
      have hkept : cached (c.module, key) (st.write r).cache = cached (c.module, key) st.cache := by
        refine @cached_foldl_write st _ hcolon [r] fun r' hr' => ?_
        rw [List.mem_singleton.mp hr', hid]
        exact olderKey_ne c hc f hf key holder c' hc' f' hf'
      rw [Option.elim_some, Option.elim_some, hkept]
  · by_cases heq : r.id = (c.module, f.key)
    · have hset : cached (c.module, f.key) (st.write r).cache = some r.value := by
        unfold Store.write cached
        rw [heq, find_set_self]
        rfl
      rw [hset]
      exact hsame heq
    · have hkept : cached (c.module, f.key) (st.write r).cache = cached (c.module, f.key) st.cache :=
        @cached_foldl_write st _ (colonFree_field hc hf) [r] fun r' hr' => by rwa [List.mem_singleton.mp hr']
      rw [hkept]
      exact hother heq _ h.2

/-! ### What the parts of a thread do -/

/-- The records keep both predicates of the setting. -/
theorem respects_writeAll (hc : c ∈ configs) (hf : f ∈ c.fields) {rest : Prog Store} :
    ∀ {rs : List SettingRecord},
      (∀ r ∈ rs, Known r ∧ (r.id = (c.module, f.key) → P (some r.value) ∧ Q (some r.value))) →
      Respects (At stof c f d P) (At stof c f d Q) rest →
        Respects (At stof c f d P) (At stof c f d Q) (writeAll rs rest)
  | [], _, hrest => hrest
  | r :: rs, hrs, hrest => by
    obtain ⟨hknown, hgood⟩ := hrs r List.mem_cons_self
    exact fun s _ => ⟨fun hP => at_write hc hf hknown hP (fun h => (hgood h).1) fun _ _ h => h,
      fun hQ => at_write hc hf hknown hQ (fun h => (hgood h).2) fun _ _ h => h,
      respects_writeAll hc hf (fun r' hr' => hrs r' (List.mem_cons_of_mem r hr')) hrest⟩

/-- One of the records is for the setting. -/
theorem establishes_writeAll (hc : c ∈ configs) (hf : f ∈ c.fields) {rest : Prog Store} :
    ∀ {rs : List SettingRecord}, (∀ r ∈ rs, Known r ∧ (r.id = (c.module, f.key) → Q (some r.value))) →
      (∃ r ∈ rs, r.id = (c.module, f.key)) → Respects (At stof c f d Q) (At stof c f d Q) rest →
        Establishes (At stof c f d P) (At stof c f d Q) (writeAll rs rest)
  | [], _, hex, _ => by simp at hex
  | r :: rs, hrs, hex, hrest => by
    intro s hP
    obtain ⟨hknown, hgood⟩ := hrs r List.mem_cons_self
    have hrs' : ∀ r' ∈ rs, Known r' ∧ (r'.id = (c.module, f.key) → Q (some r'.value)) :=
      fun r' hr' => hrs r' (List.mem_cons_of_mem r hr')
    by_cases heq : r.id = (c.module, f.key)
    · refine Or.inl ⟨at_write hc hf hknown hP hgood fun h => absurd heq h, keeps_of_respects ?_⟩
      exact respects_writeAll hc hf (fun r' hr' => ⟨(hrs' r' hr').1, fun h => ⟨(hrs' r' hr').2 h,
        (hrs' r' hr').2 h⟩⟩) hrest
    · refine Or.inr ⟨at_write hc hf hknown hP (fun h => absurd h heq) fun _ _ h => h, ?_⟩
      obtain ⟨r', hr', hid⟩ := hex
      refine establishes_writeAll hc hf hrs' ⟨r', (List.mem_cons.mp hr').resolve_left ?_, hid⟩ hrest
      rintro rfl
      exact heq hid

/-- None of the records is for the setting. -/
theorem establishes_writeAll_of_ne (hc : c ∈ configs) (hf : f ∈ c.fields) {rest : Prog Store} :
    ∀ {rs : List SettingRecord}, (∀ r ∈ rs, Known r ∧ r.id ≠ (c.module, f.key)) →
      Establishes (At stof c f d P) (At stof c f d Q) rest →
        Establishes (At stof c f d P) (At stof c f d Q) (writeAll rs rest)
  | [], _, hrest => hrest
  | r :: rs, hrs, hrest => by
    obtain ⟨hknown, hne⟩ := hrs r List.mem_cons_self
    exact fun s hP => Or.inr ⟨at_write hc hf hknown hP (fun h => absurd h hne) fun _ _ h => h,
      establishes_writeAll_of_ne hc hf (fun r' hr' => hrs r' (List.mem_cons_of_mem r hr')) hrest⟩

/-- What is read: values of the right type, and of the setting what one of its texts is read as. -/
def Read (stof : Stof) (env : Bytes → Option Bytes) (c : Config) (f : Field) (d : Value ℚ)
    (P : Option Bytes → Prop) (module : Bytes) (x : Field × Value ℚ) : Prop :=
  SameKind x.2 x.1.fallback ∧
    (module = c.module → x.1 = f → ∃ t, P t ∧ x.2 = orEnv env f (d.read stoi stof.parse t))

/-- A predicate of programs that passes over reads passes over the reading of a configuration. -/
theorem readField_of_passes {K : Store → Prop} {R : Prog Store → Prop} (hpass : PassesReads K R)
    (hK : ∀ s, K s → At stof c f d P s) {module : Bytes} {f' : Field} {next : Value ℚ → Prog Store}
    (h : ∀ v, Read stof env c f d P module (f', v) → R (next v)) : R (readField stof env module f' next) := by
  unfold readField
  cases holder : f'.olderKey with
  | none =>
    refine hpass _ fun s hs => h _ ⟨sameKind_orEnv (sameKind_read _ _ _), ?_⟩
    rintro rfl rfl
    refine ⟨_, (hK s hs).2, ?_⟩
    rw [← (hK s hs).1, olderValue, holder]
    rfl
  | some key =>
    refine hpass _ fun s hs => hpass _ fun s' hs' => h _ ⟨?_, ?_⟩
    · exact sameKind_orEnv (sameKind_trans (sameKind_read _ _ _) (sameKind_read _ _ _))
    · rintro rfl rfl
      refine ⟨_, (hK s' hs').2, ?_⟩
      rw [← (hK s hs).1, olderValue, holder]
      rfl

theorem readFields_of_passes {K : Store → Prop} {R : Prog Store → Prop} (hpass : PassesReads K R)
    (hK : ∀ s, K s → At stof c f d P s) {module : Bytes} : ∀ {fs : List Field} {next : Values → Prog Store},
    (∀ vs : Values, vs.map Prod.fst = fs → (∀ x ∈ vs, Read stof env c f d P module x) → R (next vs)) →
      R (readFields stof env module fs next)
  | [], _, h => h [] rfl fun _ hx => by cases hx
  | f' :: fs, _, h => readField_of_passes hpass hK fun v hv => readFields_of_passes hpass hK fun vs hfst hvs =>
      h ((f', v) :: vs) (by rw [List.map_cons, hfst]) (List.forall_mem_cons.mpr ⟨hv, hvs⟩)

/-! ### What a thread does -/

/-- What a part of the document makes of values that were read. -/
def patched (j : Json) (vs : Values) : Values := vs.map fun x => (x.1, (given j x.1).getD x.2)

theorem mem_fields {c' : Config} (hc' : c' ∈ configs) {vs : Values} (hfst : vs.map Prod.fst = (accessed c').fields)
    {x : Field × Value ℚ} (hx : x ∈ vs) : x.1 ∈ c'.fields :=
  (perm_accessed c' hc').mem_iff.mp (hfst ▸ List.mem_map_of_mem hx)

theorem applyFields_eq_patched (h : WellTyped body) {c' : Config} (hc' : c' ∈ configs) {j : Json}
    (hj : body.get? c'.module = some j) {vs : Values} (hfst : vs.map Prod.fst = (accessed c').fields)
    (hkind : ∀ x ∈ vs, SameKind x.2 x.1.fallback) : applyFields j vs = .ok (patched j vs) :=
  applyFields_of_forall (g := fun f v => (given j f).getD v) fun x hx =>
    apply_eq h hc' (mem_fields hc' hfst hx) hj (hkind x hx)

/-- A record of a configuration that was read and patched. -/
theorem mem_records_patched {c' : Config} (hc' : c' ∈ configs) {j : Json} {vs : Values}
    (hfst : vs.map Prod.fst = (accessed c').fields) {r : SettingRecord}
    (hr : r ∈ records now (accessed c') (patched j vs)) :
    Known r ∧ ∃ x ∈ vs, r.id = (c'.module, x.1.key) ∧ r.value = ((given j x.1).getD x.2).text := by
  obtain ⟨y, hy, rfl⟩ := mem_records hr
  obtain ⟨x, hx, rfl⟩ := List.mem_map.mp hy
  have hid : (record now ((accessed c').module, x.1.key) ((given j x.1).getD x.2)).id = (c'.module, x.1.key) :=
    congrArg (·, x.1.key) (module_accessed c')
  exact ⟨⟨c', hc', x.1, mem_fields hc' hfst hx, hid⟩, x, hx, hid, rfl⟩

/-- The records of a configuration that was read: what is written of the setting was read of it. -/
theorem value_of_mem_records {R : Option Bytes → Prop} (hc : c ∈ configs) (hf : f ∈ c.fields) {c' : Config}
    (hc' : c' ∈ configs) {j : Json} {vs : Values} (hfst : vs.map Prod.fst = (accessed c').fields)
    (hvs : ∀ x ∈ vs, Read stof env c f d R c'.module x) {r : SettingRecord}
    (hr : r ∈ records now (accessed c') (patched j vs)) (hid : r.id = (c.module, f.key)) :
    c' = c ∧ ∃ t, R t ∧ r.value = ((given j f).getD (orEnv env f (d.read stoi stof.parse t))).text := by
  obtain ⟨-, x, hx, hid', hvalue⟩ := mem_records_patched hc' hfst hr
  obtain ⟨hmodule, hkey⟩ := Prod.mk.inj (hid'.symm.trans hid)
  obtain rfl := eq_of_module hc' hc hmodule
  have hxf : x.1 = f :=
    List.inj_on_of_nodup_map (configs_wellNamed c' hc).2.1 (mem_fields hc' hfst hx) hf hkey
  obtain ⟨t, ht, hread⟩ := (hvs x hx).2 rfl hxf
  rw [hxf, hread] at hvalue
  exact ⟨rfl, t, ht, hvalue⟩

/-- The configuration has a record for each of its settings. -/
theorem exists_mem_records (hc : c ∈ configs) (hf : f ∈ c.fields) {j : Json} {vs : Values}
    (hfst : vs.map Prod.fst = (accessed c).fields) :
    ∃ r ∈ records now (accessed c) (patched j vs), r.id = (c.module, f.key) := by
  have hmem : f ∈ vs.map Prod.fst := by
    rw [hfst]
    exact (perm_accessed c hc).mem_iff.mpr hf
  obtain ⟨x, hx, rfl⟩ := List.mem_map.mp hmem
  exact ⟨_, List.mem_map_of_mem (List.mem_map_of_mem hx), congrArg (·, x.1.key) (module_accessed c)⟩

/-- **A thread respects** what holds of a setting if what it would write of it has it too. -/
theorem respects_applyProg (h : WellTyped body) (hc : c ∈ configs) (hf : f ∈ c.fields) : ∀ {cs : List Config},
    (∀ c' ∈ cs, c' ∈ configs) →
    (c ∈ cs → ∀ t j, P t ∨ Q t → body.get? c.module = some j →
      P (some ((given j f).getD (orEnv env f (d.read stoi stof.parse t))).text) ∧
        Q (some ((given j f).getD (orEnv env f (d.read stoi stof.parse t))).text)) →
      Respects (At stof c f d P) (At stof c f d Q) (applyProg stof env now body (cs.map accessed))
  | [], _, _ => trivial
  | c' :: cs, hcs, hw => by
    have ih : Respects (At stof c f d P) (At stof c f d Q) (applyProg stof env now body (cs.map accessed)) :=
      respects_applyProg h hc hf (fun c'' hc'' => hcs c'' (List.mem_cons_of_mem c' hc''))
        fun hmem => hw (List.mem_cons_of_mem c' hmem)
    have hc' : c' ∈ configs := hcs c' List.mem_cons_self
    rw [List.map_cons, applyProg, module_accessed]
    cases hj : body.get? c'.module with
    | none => exact ih
    | some j =>
      have hK : ∀ s, At stof c f d P s ∨ At stof c f d Q s → At stof c f d (fun t => P t ∨ Q t) s :=
        fun s hs => hs.elim (fun hP => ⟨hP.1, Or.inl hP.2⟩) fun hQ => ⟨hQ.1, Or.inr hQ.2⟩
      refine readFields_of_passes (passesReads_respects _ _) hK fun vs hfst hvs => ?_
      rw [applyFields_eq_patched h hc' hj hfst fun x hx => (hvs x hx).1]
      refine respects_writeAll hc hf (fun r hr => ⟨(mem_records_patched hc' hfst hr).1, fun hid => ?_⟩) ih
      obtain ⟨rfl, t, ht, hvalue⟩ := value_of_mem_records hc hf hc' hfst hvs hr hid
      rw [hvalue]
      exact hw List.mem_cons_self t j ht hj

/-- **A thread establishes** what it writes of a setting of one of its configurations. -/
theorem establishes_applyProg (h : WellTyped body) (hc : c ∈ configs) (hf : f ∈ c.fields) {j : Json}
    (hj : body.get? c.module = some j)
    (hw : ∀ t, P t → Q (some ((given j f).getD (orEnv env f (d.read stoi stof.parse t))).text)) :
    ∀ {cs : List Config}, (∀ c' ∈ cs, c' ∈ configs) → cs.Nodup → c ∈ cs →
      Establishes (At stof c f d P) (At stof c f d Q) (applyProg stof env now body (cs.map accessed))
  | [], _, _, hmem => by simp at hmem
  | c' :: cs, hcs, hnd, hmem => by
    obtain ⟨hnot, hnd'⟩ := List.nodup_cons.mp hnd
    have hcs' : ∀ c'' ∈ cs, c'' ∈ configs := fun c'' hc'' => hcs c'' (List.mem_cons_of_mem c' hc'')
    have hc' : c' ∈ configs := hcs c' List.mem_cons_self
    rw [List.map_cons, applyProg, module_accessed]
    by_cases heq : c' = c
    · subst heq
      rw [hj]
      refine readFields_of_passes (passesReads_establishes _ _) (fun _ hs => hs) fun vs hfst hvs => ?_
      rw [applyFields_eq_patched h hc' hj hfst fun x hx => (hvs x hx).1]
      refine establishes_writeAll hc hf (fun r hr => ⟨(mem_records_patched hc' hfst hr).1, fun hid => ?_⟩)
        (exists_mem_records hc hf hfst) (respects_applyProg h hc hf hcs' fun hmem => absurd hmem hnot)
      obtain ⟨-, t, ht, hvalue⟩ := value_of_mem_records hc hf hc' hfst hvs hr hid
      rw [hvalue]
      exact hw t ht
    · have ih : Establishes (At stof c f d P) (At stof c f d Q) (applyProg stof env now body (cs.map accessed)) :=
        establishes_applyProg h hc hf hj hw hcs' hnd' ((List.mem_cons.mp hmem).resolve_left (Ne.symm heq))
      cases hj' : body.get? c'.module with
      | none => exact ih
      | some j' =>
        refine readFields_of_passes (passesReads_establishes _ _) (fun _ hs => hs) fun vs hfst hvs => ?_
        rw [applyFields_eq_patched h hc' hj' hfst fun x hx => (hvs x hx).1]
        exact establishes_writeAll_of_ne hc hf (fun r hr => ⟨(mem_records_patched hc' hfst hr).1, fun hid =>
          heq (value_of_mem_records hc hf hc' hfst hvs hr hid).1⟩) ih

/-- None of the records is for the setting. -/
theorem offers_writeAll_of_ne (hc : c ∈ configs) (hf : f ∈ c.fields) {E : Prog Store → Prop} {rest : Prog Store} :
    ∀ {rs : List SettingRecord}, (∀ r ∈ rs, Known r ∧ r.id ≠ (c.module, f.key)) →
      Offers (At stof c f d P) E rest → Offers (At stof c f d P) E (writeAll rs rest)
  | [], _, hrest => hrest
  | r :: rs, hrs, hrest => by
    obtain ⟨hknown, hne⟩ := hrs r List.mem_cons_self
    exact offers_act fun s hP => ⟨at_write hc hf hknown hP (fun h => absurd h hne) fun _ _ h => h,
      offers_writeAll_of_ne hc hf (fun r' hr' => hrs r' (List.mem_cons_of_mem r hr')) hrest⟩

/-- **A thread can be caught** between reading a setting and writing it. -/
theorem offers_applyProg (h : WellTyped body) (hc : c ∈ configs) (hf : f ∈ c.fields) {j : Json}
    (hj : body.get? c.module = some j)
    (hw : ∀ t, P t → Q (some ((given j f).getD (orEnv env f (d.read stoi stof.parse t))).text)) :
    ∀ {cs : List Config}, (∀ c' ∈ cs, c' ∈ configs) → cs.Nodup → c ∈ cs →
      Offers (At stof c f d P) (Establishes (At stof c f d fun _ => True) (At stof c f d Q))
        (applyProg stof env now body (cs.map accessed))
  | [], _, _, hmem => by simp at hmem
  | c' :: cs, hcs, hnd, hmem => by
    obtain ⟨hnot, hnd'⟩ := List.nodup_cons.mp hnd
    have hcs' : ∀ c'' ∈ cs, c'' ∈ configs := fun c'' hc'' => hcs c'' (List.mem_cons_of_mem c' hc'')
    have hc' : c' ∈ configs := hcs c' List.mem_cons_self
    rw [List.map_cons, applyProg, module_accessed]
    by_cases heq : c' = c
    · subst heq
      rw [hj]
      refine readFields_of_passes (passesReads_offers _ _) (fun _ hs => hs) fun vs hfst hvs => ?_
      rw [applyFields_eq_patched h hc' hj hfst fun x hx => (hvs x hx).1]
      refine offers_of_rest (establishes_writeAll hc hf (fun r hr => ⟨(mem_records_patched hc' hfst hr).1, fun hid =>
        ?_⟩) (exists_mem_records hc hf hfst) (respects_applyProg h hc hf hcs' fun hmem => absurd hmem hnot))
      obtain ⟨-, t, ht, hvalue⟩ := value_of_mem_records hc hf hc' hfst hvs hr hid
      rw [hvalue]
      exact hw t ht
    · have ih : Offers (At stof c f d P) (Establishes (At stof c f d fun _ => True) (At stof c f d Q))
          (applyProg stof env now body (cs.map accessed)) :=
        offers_applyProg h hc hf hj hw hcs' hnd' ((List.mem_cons.mp hmem).resolve_left (Ne.symm heq))
      cases hj' : body.get? c'.module with
      | none => exact ih
      | some j' =>
        refine readFields_of_passes (passesReads_offers _ _) (fun _ hs => hs) fun vs hfst hvs => ?_
        rw [applyFields_eq_patched h hc' hj' hfst fun x hx => (hvs x hx).1]
        exact offers_writeAll_of_ne hc hf (fun r hr => ⟨(mem_records_patched hc' hfst hr).1, fun hid =>
          heq (value_of_mem_records hc hf hc' hfst hvs hr hid).1⟩) ih

end Setting

/-! ### Which settings survive -/

section Statements

variable (stof : Stof) (env : Bytes → Option Bytes) (now now' : Id → Int64) (body body' : Json) (st : Store)

/-- Every setting that the document gives a value has it. -/
def HasGiven : Prop :=
  ∀ c ∈ configs, ∀ j, body.get? c.module = some j → ∀ f ∈ c.fields, ∀ v, given j f = some v →
    f.fallback.read stoi stof.parse (cached (c.module, f.key) st.cache) = v

/-- No setting is given a value by both documents. -/
def DisjointDocuments : Prop :=
  ∀ c ∈ configs, ∀ j j', body.get? c.module = some j → body'.get? c.module = some j' → ∀ f ∈ c.fields,
    given j f = none ∨ given j' f = none

/-- Whatever the order of the operations, when both requests are done all settings have the values given. -/
def NoneLost : Prop :=
  ∀ schedule, let p := Pair.run ⟨st, thread stof env now body, thread stof env now' body'⟩ schedule
    p.left = .done → p.right = .done → HasGiven stof body p.state ∧ HasGiven stof body' p.state

/-- The settings that the first document gives a value are safe from the second one: the value is stored as it is;
and if the second document has the same configuration, the setting has that value already, and an empty key is not
replaced by the environment. -/
def Safe : Prop :=
  ∀ c ∈ configs, ∀ j, body.get? c.module = some j → ∀ f ∈ c.fields, ∀ v, given j f = some v →
    v.stored = v ∧ ((body'.get? c.module).isSome = true →
      (f.get stof env c.module st).stored = v ∧ orEnv env f v = v)

end Statements

/-- What a document gives is of the type of the setting. -/
theorem sameKind_assign {f : Field} {w y : Value ℚ} {x : Json} (h : f.assign w x = .ok y) : SameKind y w := by
  unfold Field.assign at h
  cases hz : Document.assign w x with
  | error e =>
    rw [hz] at h
    cases h
  | ok z =>
    have hkind : SameKind z w := by
      revert hz
      cases w <;> cases x <;> intro hz <;> cases hz <;> trivial
    rw [hz] at h
    cases h
    cases f.percent with
    | false => exact hkind
    | true => cases z <;> cases w <;> exact hkind

theorem sameKind_given {j : Json} {f : Field} {v : Value ℚ} (h : given j f = some v) : SameKind v f.fallback := by
  unfold given at h
  split_ifs at h
  obtain ⟨x, -, hx⟩ := Option.bind_eq_some_iff.mp h
  cases hassign : f.assign f.fallback x with
  | error e =>
    rw [hassign] at hx
    cases hx
  | ok y =>
    rw [hassign] at hx
    cases hx
    exact sameKind_assign hassign

theorem configs_nodup' : configs.Nodup := List.Nodup.of_map _ configs_nodup

section Proofs

variable {stof : Stof} {env : Bytes → Option Bytes} {now now' : Id → Int64} {body body' : Json} {st : Store}

/-- The text of a value that is stored as `v`. -/
def Good (f : Field) (v : Value ℚ) (t : Option Bytes) : Prop :=
  ∃ w, SameKind w f.fallback ∧ t = some w.text ∧ w.stored = v

theorem read_of_good {f : Field} {v d : Value ℚ} {t : Option Bytes} (h : Good f v t) (hd : SameKind f.fallback d) :
    d.read stoi stof.parse t = v := by
  obtain ⟨w, hkind, rfl, hstored⟩ := h
  rw [read_text stof (sameKind_trans hkind hd), hstored]

theorem sameKind_symm {v w : Value ℚ} (h : SameKind v w) : SameKind w v := by
  cases v <;> cases w <;> exact h

/-- What is safe from the other thread is there in the end. -/
theorem hasGiven_of_safe (h : WellTyped body) (h' : WellTyped body') (hdisj : DisjointDocuments body body')
    (hsafe : Safe stof env body body' st) (schedule : List Bool)
    (hend : (Pair.run ⟨st, thread stof env now body, thread stof env now' body'⟩ schedule).left = .done) :
    HasGiven stof body (Pair.run ⟨st, thread stof env now body, thread stof env now' body'⟩ schedule).state := by
  intro c hc j hj f hf v hv
  obtain ⟨hstored, hshared⟩ := hsafe c hc j hj f hf v hv
  have hkind : SameKind v f.fallback := sameKind_given hv
  have holder : SameKind f.fallback (olderValue stof c.module st f) :=
    sameKind_symm (sameKind_olderValue stof c.module st f)
  have hgood : Good f v (some v.text) := ⟨v, hkind, rfl, hstored⟩
  -- up to its write, the setting has its old text or a good one; then a good one
  have hest : Establishes
      (At stof c f (olderValue stof c.module st f) fun t => t = cached (c.module, f.key) st.cache ∨ Good f v t)
      (At stof c f (olderValue stof c.module st f) (Good f v)) (thread stof env now body) :=
    establishes_applyProg h hc hf hj (fun t _ => by rw [hv]; exact hgood) (fun _ hc' => hc') configs_nodup' hc
  have hrespects : Respects
      (At stof c f (olderValue stof c.module st f) fun t => t = cached (c.module, f.key) st.cache ∨ Good f v t)
      (At stof c f (olderValue stof c.module st f) (Good f v)) (thread stof env now' body') := by
    refine respects_applyProg h' hc hf (fun _ hc' => hc') fun _ t j' ht hj' => ?_
    obtain ⟨hinitial, henv⟩ := hshared (by rw [hj']; rfl)
    have hnone : given j' f = none := (hdisj c hc j j' hj hj' f hf).resolve_left (by rw [hv]; simp)
    have hwritten : Good f v
        (some (orEnv env f ((olderValue stof c.module st f).read stoi stof.parse t)).text) := by
      rcases or_assoc.mp ht with rfl | ht
      · exact ⟨_, sameKind_get stof env c.module st f, rfl, hinitial⟩
      · rw [read_of_good (ht.elim (fun h => h) fun h => h) holder, henv]
        exact hgood
    rw [hnone, Option.getD_none]
    exact ⟨Or.inr hwritten, hwritten⟩
  have hfinal := end_of_establishes ⟨rfl, Or.inl rfl⟩ hest hrespects schedule hend
  exact read_of_good hfinal.2 (SameKind.refl _)

/-- The threads, exchanged. -/
theorem noneLost_swap (h : NoneLost stof env now now' body body' st) : NoneLost stof env now' now body' body st := by
  intro schedule p hleft hright
  have hswap := swap_run ⟨st, thread stof env now' body', thread stof env now body⟩ schedule
  obtain ⟨hbody, hbody'⟩ := h (schedule.map (! ·))
    (show (Pair.run (Pair.swap ⟨st, thread stof env now' body', thread stof env now body⟩) _).left = .done by
      rw [← hswap]; exact hright)
    (show (Pair.run (Pair.swap ⟨st, thread stof env now' body', thread stof env now body⟩) _).right = .done by
      rw [← hswap]; exact hleft)
  have hstate : p.state = (Pair.run ⟨st, thread stof env now body, thread stof env now' body'⟩
      (schedule.map (! ·))).state := by
    show p.swap.state = _
    rw [hswap]
    rfl
  rw [hstate]
  exact ⟨hbody', hbody⟩

/-- The second thread runs for a while, then the first one runs, then the second one ends. -/
theorem hasGiven_of_steps (h : NoneLost stof env now now' body body' st) {s₁ s₂ s₃ : Store} {rest : Prog Store}
    (hbefore : Steps (st, thread stof env now' body') (s₁, rest))
    (hleft : Steps (s₁, thread stof env now body) (s₂, .done)) (hafter : Steps (s₂, rest) (s₃, .done)) :
    HasGiven stof body s₃ := by
  obtain ⟨before, hbefore⟩ := exists_schedule_of_steps_right (thread stof env now body) hbefore
  obtain ⟨between, hleft⟩ := exists_schedule_of_steps rest hleft
  obtain ⟨after, hafter⟩ := exists_schedule_of_steps_right .done hafter
  have hrun : Pair.run ⟨st, thread stof env now body, thread stof env now' body'⟩ (before ++ (between ++ after)) =
      ⟨s₃, .done, .done⟩ := by
    rw [run_append, hbefore, run_append, hleft, hafter]
  have hgiven := (h (before ++ (between ++ after)) (by rw [hrun]) (by rw [hrun])).1
  rwa [hrun] at hgiven

/-- A thread alone writes the value that its document gives. -/
theorem at_of_steps_thread (h : WellTyped body) {c : Config} (hc : c ∈ configs) {j : Json}
    (hj : body.get? c.module = some j) {f : Field} (hf : f ∈ c.fields) {v : Value ℚ} (hv : given j f = some v)
    {s s' : Store} (hsteps : Steps (s, thread stof env now body) (s', .done)) :
    At stof c f (olderValue stof c.module s f) (· = some v.text) s' := by
  have hest : Establishes (At stof c f (olderValue stof c.module s f) fun _ => True)
      (At stof c f (olderValue stof c.module s f) (· = some v.text)) (thread stof env now body) :=
    establishes_applyProg h hc hf hj (fun _ _ => by rw [hv]; rfl) (fun _ hc' => hc') configs_nodup' hc
  exact hsteps.establishes ⟨rfl, trivial⟩ hest

/-- What `apply_settings_json` leaves in the cache of a configuration that the document has. -/
theorem cached_apply (h : WellTyped body) {c : Config} (hc : c ∈ configs) {f : Field} (hf : f ∈ c.fields) {j : Json}
    (hj : body.get? c.module = some j) :
    cached (c.module, f.key) (applySettingsJson stof env now body st).1.cache =
      some ((given j f).getD (f.get stof env c.module st)).text := by
  have hwritten : record now (c.module, f.key) ((given j f).getD (f.get stof env c.module st)) ∈
      writes stof env now body st configs :=
    record_mem_writes (g := fun f v => (given j f).getD v) (parsed_ne_error h) hc hf (parsed_eq h hc hj)
  exact cached_of_mem_writes hwritten

theorem cached_apply_of_absent (h : WellTyped body) {c : Config} (hc : c ∈ configs) {f : Field} (hf : f ∈ c.fields)
    (hj : body.get? c.module = none) :
    cached (c.module, f.key) (applySettingsJson stof env now body st).1.cache =
      cached (c.module, f.key) st.cache := by
  rw [applySettingsJson_eq]
  refine cached_foldl_write (colonFree_field hc hf) fun r hr hid => ?_
  obtain ⟨c', hc', values, hparsed, hrecord⟩ := (mem_writes_iff (parsed_ne_error h)).mp hr
  have hkeys := List.mem_map_of_mem (f := (·.id)) hrecord
  rw [ids_of_parsed hparsed] at hkeys
  obtain ⟨f', hf', hid'⟩ := List.mem_map.mp hkeys
  obtain rfl := eq_of_module hc' hc (congrArg Prod.fst (hid'.trans hid))
  simp [parsed, hj] at hparsed

/-- A thread alone leaves every setting as `apply_settings_json` does. -/
theorem cached_thread (h : WellTyped body) {c : Config} (hc : c ∈ configs) {f : Field} (hf : f ∈ c.fields) {s' : Store}
    (hsteps : Steps (st, thread stof env now body) (s', .done)) :
    cached (c.module, f.key) s'.cache =
      cached (c.module, f.key) (applySettingsJson stof env now body st).1.cache := by
  cases hj : body.get? c.module with
  | none =>
    have hkeeps : Keeps (At stof c f (olderValue stof c.module st f) (· = cached (c.module, f.key) st.cache))
        (thread stof env now body) :=
      keeps_of_respects (respects_applyProg h hc hf (fun _ hc' => hc') fun _ _ j _ hj' => by simp [hj] at hj')
    rw [cached_apply_of_absent h hc hf hj]
    exact (hsteps.keeps ⟨rfl, rfl⟩ hkeeps).1.2
  | some j =>
    have hest : Establishes (At stof c f (olderValue stof c.module st f) (· = cached (c.module, f.key) st.cache))
        (At stof c f (olderValue stof c.module st f) (· = some ((given j f).getD (f.get stof env c.module st)).text))
        (thread stof env now body) := by
      refine establishes_applyProg h hc hf hj (fun t ht => ?_) (fun _ hc' => hc') configs_nodup' hc
      rw [ht, get_eq_orEnv]
    rw [cached_apply h hc hf hj]
    exact (hsteps.establishes ⟨rfl, rfl⟩ hest).2

/-- Only a key comes from the environment, and keys are stored as they are. -/
theorem orEnv_eq_of_stored {f : Field} {v : Value ℚ} (h : (orEnv env f v).stored = v) : orEnv env f v = v := by
  revert h
  unfold orEnv
  split
  · exact fun h => h
  · exact fun _ => rfl

/-- What is there in the end of every run was safe. -/
theorem safe_of_noneLost (h : WellTyped body) (h' : WellTyped body') (hdisj : DisjointDocuments body body')
    (hnone : NoneLost stof env now now' body body' st) : Safe stof env body body' st := by
  intro c hc j hj f hf v hv
  have hkind : SameKind v f.fallback := sameKind_given hv
  -- the second request is over when the first one starts
  have hstored : v.stored = v := by
    obtain ⟨s₁, hright⟩ := Steps.exists_done (thread stof env now' body') st
    obtain ⟨s₂, hleft⟩ := Steps.exists_done (thread stof env now body) s₁
    have hread := hasGiven_of_steps hnone hright hleft (Steps.refl _) c hc j hj f hf v hv
    rwa [(at_of_steps_thread h hc hj hf hv hleft).2, read_text stof hkind] at hread
  refine ⟨hstored, fun hsome => ?_⟩
  obtain ⟨j', hj'⟩ := Option.isSome_iff_exists.mp hsome
  have hnone' : given j' f = none := (hdisj c hc j j' hj hj' f hf).resolve_left (by rw [hv]; simp)
  have hwritten : ∀ {d : Value ℚ} {t : Option Bytes},
      (given j' f).getD (orEnv env f (d.read stoi stof.parse t)) = orEnv env f (d.read stoi stof.parse t) := by
    intro d t
    rw [hnone', Option.getD_none]
  constructor
  · -- the second request has read the configuration when the first one starts, and writes it after that
    have hoffers : Offers
        (At stof c f (olderValue stof c.module st f) (· = cached (c.module, f.key) st.cache))
        (Establishes (At stof c f (olderValue stof c.module st f) fun _ => True)
          (At stof c f (olderValue stof c.module st f) (· = some (f.get stof env c.module st).text)))
        (thread stof env now' body') := by
      refine offers_applyProg h' hc hf hj' (fun t ht => ?_) (fun _ hc' => hc') configs_nodup' hc
      rw [hwritten, ht, get_eq_orEnv]
    obtain ⟨s₁, rest, hbefore, hs₁, hrest⟩ := hoffers st ⟨rfl, rfl⟩
    obtain ⟨s₂, hleft⟩ := Steps.exists_done (thread stof env now body) s₁
    obtain ⟨s₃, hafter⟩ := Steps.exists_done rest s₂
    have hs₂ := (at_of_steps_thread h hc hj hf hv hleft).1
    rw [hs₁.1] at hs₂
    have hs₃ := hafter.establishes ⟨hs₂, trivial⟩ hrest
    have hread := hasGiven_of_steps hnone hbefore hleft hafter c hc j hj f hf v hv
    rwa [hs₃.2, read_text stof (sameKind_get stof env c.module st f)] at hread
  · -- the first request is over when the second one starts
    obtain ⟨s₂, hleft⟩ := Steps.exists_done (thread stof env now body) st
    obtain ⟨s₃, hright⟩ := Steps.exists_done (thread stof env now' body') s₂
    have hs₂ := at_of_steps_thread h hc hj hf hv hleft
    have holder : SameKind v (olderValue stof c.module st f) :=
      sameKind_trans hkind (sameKind_symm (sameKind_olderValue stof c.module st f))
    have hest : Establishes (At stof c f (olderValue stof c.module st f) (· = some v.text))
        (At stof c f (olderValue stof c.module st f) (· = some (orEnv env f v).text)) (thread stof env now' body') := by
      refine establishes_applyProg h' hc hf hj' (fun t ht => ?_) (fun _ hc' => hc') configs_nodup' hc
      rw [hwritten, ht, read_text stof holder, hstored]
    have hread := hasGiven_of_steps hnone (Steps.refl _) hleft hright c hc j hj f hf v hv
    rw [(hright.establishes hs₂ hest).2, read_text stof (sameKind_orEnv hkind)] at hread
    exact orEnv_eq_of_stored hread

end Proofs

/-- **Concurrent documents lose no settings** exactly when the settings that each of them gives are safe from the
other one; a thread alone leaves every setting as `apply_settings_json` does. -/
theorem settings_survive_iff (stof : Stof) (env : Bytes → Option Bytes) (now now' : Id → Int64) (body body' : Json)
    (st : Store) (h : WellTyped body) (h' : WellTyped body') (hdisj : DisjointDocuments body body') :
    (NoneLost stof env now now' body body' st ↔ Safe stof env body body' st ∧ Safe stof env body' body st) ∧
    ∀ c ∈ configs, ∀ f ∈ c.fields, ∀ s', Steps (st, thread stof env now body) (s', .done) →
      cached (c.module, f.key) s'.cache = cached (c.module, f.key) (applySettingsJson stof env now body st).1.cache := by
  have hdisj' : DisjointDocuments body' body :=
    fun c hc j j' hj hj' f hf => (hdisj c hc j' j hj' hj f hf).symm
  refine ⟨?_, fun c hc f hf s' hsteps => cached_thread h hc hf hsteps⟩
  constructor
  · exact fun hnone => ⟨safe_of_noneLost h h' hdisj hnone, safe_of_noneLost h' h hdisj' (noneLost_swap hnone)⟩
  · rintro ⟨hsafe, hsafe'⟩ schedule p hleft hright
    refine ⟨hasGiven_of_safe h h' hdisj hsafe schedule hleft, ?_⟩
    have hswap : p.swap = Pair.run ⟨st, thread stof env now' body', thread stof env now body⟩
        (schedule.map (! ·)) := swap_run _ _
    have hend := @hasGiven_of_safe stof env now' now body' body st h' h hdisj' hsafe' (schedule.map (! ·))
      (by rw [← hswap]; exact hright)
    rwa [← hswap] at hend

/-! ### Two settings of one configuration -/

/-- A number and a switch of the inference configuration. -/
def topK : Document.Field := { key := ascii "top_k", fallback := .int 40 }

def enableToolDedup : Document.Field := { key := ascii "enable_tool_dedup", fallback := .bool true }

/-- A document for each of them. -/
def topKFifty : Json := oneMember inferenceConfig.module topK.key (.integer 50)

def dedupOff : Json := oneMember inferenceConfig.module enableToolDedup.key (.bool false)

theorem inferenceConfig_mem : inferenceConfig ∈ configs := by simp [configs]

theorem topK_mem : topK ∈ inferenceConfig.fields := by simp [inferenceConfig, topK]

theorem enableToolDedup_mem : enableToolDedup ∈ inferenceConfig.fields := by
  simp [inferenceConfig, enableToolDedup]

theorem wellTyped_topKFifty : WellTyped topKFifty := wellTyped_oneMember inferenceConfig_mem topK_mem rfl

theorem wellTyped_dedupOff : WellTyped dedupOff := wellTyped_oneMember inferenceConfig_mem enableToolDedup_mem rfl

theorem disjoint_topKFifty_dedupOff : DisjointDocuments topKFifty dedupOff := by
  intro c hc j j' hj hj' f hf
  obtain ⟨hmodule, rfl⟩ := get?_oneMember hj
  obtain ⟨-, rfl⟩ := get?_oneMember hj'
  obtain rfl := eq_of_module hc inferenceConfig_mem hmodule
  revert f
  decide +kernel

/-- The switch is written with the old number, which the other request has replaced. -/
theorem not_noneLost_topKFifty :
    WellTyped topKFifty ∧ WellTyped dedupOff ∧ DisjointDocuments topKFifty dedupOff ∧
      ¬ NoneLost decimalStof (fun _ => none) (fun _ => 0) (fun _ => 0) topKFifty dedupOff noSettings := by
  refine ⟨wellTyped_topKFifty, wellTyped_dedupOff, disjoint_topKFifty_dedupOff, fun hnone => ?_⟩
  have hsafe := safe_of_noneLost wellTyped_topKFifty wellTyped_dedupOff disjoint_topKFifty_dedupOff hnone
  have hread := ((hsafe inferenceConfig inferenceConfig_mem _ rfl topK topK_mem (.int 50) rfl).2 rfl).1
  exact absurd hread (by decide +kernel)

theorem settings_survive_iff_topKFifty :
    NoneLost decimalStof (fun _ => none) (fun _ => 0) (fun _ => 0) topKFifty dedupOff noSettings ↔
      Safe decimalStof (fun _ => none) topKFifty dedupOff noSettings ∧
        Safe decimalStof (fun _ => none) dedupOff topKFifty noSettings :=
  (settings_survive_iff decimalStof (fun _ => none) (fun _ => 0) (fun _ => 0) topKFifty dedupOff noSettings
    wellTyped_topKFifty wellTyped_dedupOff disjoint_topKFifty_dedupOff).1

end DenseLite.Settings.Concurrent
