import DenseLite.Settings.Export

/-! # Settings that a document leaves out

A configuration that is in the document is read as a whole and written as a whole, with the fields that the document
does not name as they were read. Reading puts a default in the place of what cannot be read, and a variable of the
environment in the place of an empty key, and a float is written with six decimals. `keepsUnnamed_iff` says which
stored texts come through that. -/

namespace DenseLite.Settings.Frame

open DenseLite.Lib.ByteStream DenseLite.Lib.KeyMap DenseLite.Lib.Live DenseLite.Lib.Decimal
open DenseLite.Infer.State DenseLite.Settings.Values DenseLite.Settings.Cache DenseLite.Settings.Document
open DenseLite.Settings.Export

/-! ### What a document names -/

/-- What the part of a document has for a field. -/
def memberOf (j : Json) (f : Field) : Option Json := (j.get? f.key).or (f.olderKey.bind j.get?)

/-- The document has a member for the setting, under its key or, for a field with an older key, under that one. -/
def Names (body : Json) (id : Id) : Prop :=
  ∃ j, body.get? id.1 = some j ∧ ((j.get? id.2).isSome = true ∨ ∃ c ∈ configs, c.module = id.1 ∧
    ∃ f ∈ c.fields, f.key = id.2 ∧ (memberOf j f).isSome = true)

/-- Whatever the document has for a field is of its type. -/
def WellTyped (body : Json) : Prop :=
  ∀ c ∈ configs, ∀ j, body.get? c.module = some j → ∀ f ∈ c.fields, f.shown = true →
    ∀ x, memberOf j f = some x → ∃ v, f.assign f.fallback x = .ok v

/-! ### Stored values -/

/-- The types of the settings, as their defaults. -/
def kinds : List (Id × Value ℚ) := configs.flatMap fun c => c.fields.map fun f => ((c.module, f.key), f.fallback)

/-- The type of a setting; what no configuration reads is a text. -/
def kindOf (id : Id) : Value ℚ := (find id kinds).getD (.string [])

/-- A stored text, parsed by a type. -/
def parsedAs (stof : Stof) : Value ℚ → Bytes → Option (Value ℚ)
  | .string _, t => some (.string t)
  | .int _, t => (stoi t).map .int
  | .float _, t => (stof.parse t).map .float
  | .bool _, t => some (.bool (t == ascii "true" || t == ascii "1"))

section Statements

variable (stof : Stof) (env : Bytes → Option Bytes) (now : Id → Int64) (body : Json) (table : Table)

/-- The table after a document is applied, with a cache that shows the table. -/
def tableAfter : Table := (applySettingsJson stof env now body ⟨table, fill table⟩).1.table

/-- What is stored and not named has the value it had. -/
def KeepsUnnamed : Prop :=
  ∀ id t, lookup id table = some t → ¬ Names body id →
    (lookup id (tableAfter stof env now body table)).map (parsedAs stof (kindOf id)) =
      some (parsedAs stof (kindOf id) t)

/-- A text comes through: it can be read as what it is, a float has at most six decimals, and an empty text is not
replaced by the environment. Texts of SQLite have no zero byte. -/
def Survives (f : Field) (t : Bytes) : Prop :=
  match f.fallback with
  | .string _ => 0 ∉ t ∧ (t = [] → ∀ var ∈ f.env, cstr ((env var).getD []) = [])
  | .int _ => stoi t ≠ none
  | .float _ => ∃ x, stof.parse t = some x ∧ rounded x = x
  | .bool _ => True

/-- In the configurations that the document has, all stored texts that it does not name come through. -/
def Harmless : Prop :=
  ∀ c ∈ configs, (body.get? c.module).isSome = true → ∀ f ∈ c.fields, ¬ Names body (c.module, f.key) →
    ∀ t, lookup (c.module, f.key) table = some t → Survives stof env f t

end Statements

/-! ### Names and types -/

section Fields

variable {body : Json} {c : Config} {f : Field}

/-- No two fields have one id: the modules differ, and so do the keys of each. -/
theorem nodup_kinds : (keys kinds).Nodup := by
  have hkeys : keys kinds = configs.flatMap fun c => c.fields.map fun f => (c.module, f.key) := by
    simp only [keys, kinds, List.map_flatMap, List.map_map]
    rfl
  rw [hkeys, List.nodup_flatMap]
  refine ⟨fun c hc => ?_, (List.pairwise_map.mp configs_nodup).imp fun {c c'} hne id hid hid' => ?_⟩
  · exact .of_map Prod.snd (by rw [List.map_map]; exact (configs_wellNamed c hc).2.1)
  · obtain ⟨f, -, rfl⟩ := List.mem_map.mp hid
    obtain ⟨f', -, heq⟩ := List.mem_map.mp hid'
    exact hne (congrArg Prod.fst heq).symm

theorem kindOf_field (hc : c ∈ configs) (hf : f ∈ c.fields) : kindOf (c.module, f.key) = f.fallback := by
  have hmem : ((c.module, f.key), f.fallback) ∈ kinds :=
    List.mem_flatMap.mpr ⟨c, hc, List.mem_map.mpr ⟨f, hf, rfl⟩⟩
  rw [kindOf, find_of_mem nodup_kinds hmem, Option.getD_some]

/-- A field of a configuration is named exactly when its part of the document has a member for it. -/
theorem names_iff (hc : c ∈ configs) (hf : f ∈ c.fields) {j : Json} (hj : body.get? c.module = some j) :
    Names body (c.module, f.key) ↔ (memberOf j f).isSome = true := by
  constructor
  · rintro ⟨j', hj', h⟩
    obtain rfl : j = j' := Option.some.inj (hj.symm.trans hj')
    rcases h with h | ⟨c', hc', hmodule, f', hf', hkey, h⟩
    · rw [memberOf, Option.isSome_or, h, Bool.true_or]
    · obtain rfl : c' = c := eq_of_module hc' hc hmodule
      obtain rfl : f' = f := List.inj_on_of_nodup_map (configs_wellNamed c' hc').2.1 hf' hf hkey
      exact h
  · exact fun h => ⟨j, hj, Or.inr ⟨c, hc, rfl, f, hf, rfl, h⟩⟩

/-- Assigning to a variable asks only for its type. -/
theorem assign_congr {v w : Value ℚ} (h : SameKind v w) (x : Json) : f.assign v x = f.assign w x := by
  have hassign : Document.assign v x = Document.assign w x := by
    cases v <;> cases w <;> first | exact h.elim | (cases x <;> rfl)
  unfold Field.assign
  rw [hassign]

theorem sameKind_trans {u v w : Value ℚ} (huv : SameKind u v) (hvw : SameKind v w) : SameKind u w := by
  cases u <;> cases v <;> first | exact huv.elim | (cases w <;> exact hvw)

theorem sameKind_read (stof : Bytes → Option ℚ) (t : Option Bytes) (v : Value ℚ) :
    SameKind (v.read stoi stof t) v := by
  cases v <;> exact trivial

/-- The value that a field is read with where its row is missing. -/
def olderValue (stof : Stof) (module : Bytes) (st : Store) (f : Field) : Value ℚ :=
  f.olderKey.elim f.fallback fun key => f.fallback.read stoi stof.parse (cached (module, key) st.cache)

theorem sameKind_olderValue (stof : Stof) (module : Bytes) (st : Store) (f : Field) :
    SameKind (olderValue stof module st f) f.fallback := by
  unfold olderValue
  cases f.olderKey with
  | none => exact SameKind.refl _
  | some key => exact sameKind_read _ _ _

theorem get_eq_orEnv (stof : Stof) (env : Bytes → Option Bytes) (module : Bytes) (st : Store) (f : Field) :
    f.get stof env module st =
      orEnv env f ((olderValue stof module st f).read stoi stof.parse (cached (module, f.key) st.cache)) := rfl

/-- What is read of a setting is of its type. -/
theorem sameKind_get (stof : Stof) (env : Bytes → Option Bytes) (module : Bytes) (st : Store) (f : Field) :
    SameKind (f.get stof env module st) f.fallback := by
  rw [get_eq_orEnv]
  exact sameKind_orEnv (sameKind_trans (sameKind_read _ _ _) (sameKind_olderValue stof module st f))

/-! ### What is written -/

/-- The value that a part of a document gives a field, if it gives it one. -/
def given (j : Json) (f : Field) : Option (Value ℚ) :=
  if f.shown then (memberOf j f).bind fun x => (f.assign f.fallback x).toOption else none

theorem given_eq_none {j : Json} (h : (memberOf j f).isSome ≠ true) : given j f = none := by
  rw [Ne, Option.isSome_iff_ne_none, not_not] at h
  unfold given
  rw [h]
  split_ifs <;> rfl

/-- A field of a well-typed document becomes what it is given, or stays as it was read. -/
theorem apply_eq (h : WellTyped body) (hc : c ∈ configs) (hf : f ∈ c.fields) {j : Json}
    (hj : body.get? c.module = some j) {v : Value ℚ} (hv : SameKind v f.fallback) :
    f.apply j v = .ok ((given j f).getD v) := by
  have hmember : (j.get? f.key).or (f.olderKey.bind j.get?) = memberOf j f := rfl
  unfold Field.apply
  rw [hmember]
  cases hm : memberOf j f with
  | none => rw [given_eq_none (by simp [hm]), Option.getD_none]
  | some x =>
    unfold given
    cases hshown : f.shown with
    | false => rfl
    | true =>
      obtain ⟨w, hw⟩ := h c hc j hj f hf hshown x hm
      show f.assign v x = _
      rw [assign_congr hv, hw, if_pos rfl, hm, Option.bind_some, hw]
      rfl

variable {stof : Stof} {env : Bytes → Option Bytes} {now : Id → Int64} {st : Store}

theorem parsed_eq (h : WellTyped body) (hc : c ∈ configs) {j : Json} (hj : body.get? c.module = some j) :
    parsed stof env body st c =
      some (.ok ((getConfig stof env st c).map fun x => (x.1, (given j x.1).getD x.2))) := by
  unfold parsed
  rw [hj, Option.map_some, applyFields_of_forall (g := fun f v => (given j f).getD v)]
  intro x hx
  obtain ⟨f, hf, rfl⟩ := List.mem_map.mp hx
  exact apply_eq h hc hf hj (sameKind_get stof env c.module st f)

theorem parsed_ne_error (h : WellTyped body) : ∀ c ∈ configs, ∀ e, parsed stof env body st c ≠ some (.error e) := by
  intro c hc e
  cases hj : body.get? c.module with
  | none => simp [parsed, hj]
  | some j =>
    rw [parsed_eq h hc hj]
    exact nofun

/-- The row of a field after a document that has its configuration. -/
theorem lookup_apply (h : WellTyped body) (hc : c ∈ configs) (hf : f ∈ c.fields) {j : Json}
    (hj : body.get? c.module = some j) :
    lookup (c.module, f.key) (applySettingsJson stof env now body st).1.table =
      some (cstr ((given j f).getD (f.get stof env c.module st)).text) := by
  have hwritten : record now (c.module, f.key) ((given j f).getD (f.get stof env c.module st)) ∈
      writes stof env now body st configs :=
    record_mem_writes (g := fun f v => (given j f).getD v) (parsed_ne_error h) hc hf (parsed_eq h hc hj)
  have hid := (wellNamed_of_mem_writes hwritten).2
  have hfind := find_setAll_of_mem (m := byId st.table.rows) nodup_tableKeys
    (List.mem_map.mpr ⟨_, hwritten, rfl⟩)
  rw [hid] at hfind
  unfold lookup
  rw [applySettingsJson_eq, byId_foldl_write, show (c.module, f.key) = (record now (c.module, f.key)
    ((given j f).getD (f.get stof env c.module st))).id from rfl, hfind]
  rfl

/-- What belongs to no configuration of the document keeps its row. -/
theorem lookup_apply_of_absent (h : WellTyped body) {id : Id}
    (hid : ∀ c ∈ configs, (body.get? c.module).isSome = true → ∀ f ∈ c.fields, (c.module, f.key) ≠ id) :
    lookup id (applySettingsJson stof env now body st).1.table = lookup id st.table := by
  have hnot : id ∉ keys ((writes stof env now body st configs).map fun r => ((bound r).id, bound r)) := by
    intro hmem
    obtain ⟨r', hr'⟩ := mem_keys.mp hmem
    obtain ⟨r, hr, heq⟩ := List.mem_map.mp hr'
    have hbound : r.id = id := (wellNamed_of_mem_writes hr).2.symm.trans (congrArg Prod.fst heq)
    obtain ⟨c, hc, values, hparsed, hrecord⟩ := (mem_writes_iff (parsed_ne_error h)).mp hr
    have hkeys := List.mem_map_of_mem (f := (·.id)) hrecord
    rw [ids_of_parsed hparsed] at hkeys
    obtain ⟨f, hf, hid'⟩ := List.mem_map.mp hkeys
    obtain ⟨j, hj, -⟩ := Option.map_eq_some_iff.mp hparsed
    exact hid c hc (by rw [hj]; rfl) f hf (hid'.trans hbound)
  unfold lookup
  rw [applySettingsJson_eq, byId_foldl_write, find_setAll_of_not_mem hnot]

end Fields

/-! ### What comes through -/

theorem cstr_eq_self_iff {s : Bytes} : cstr s = s ↔ 0 ∉ s :=
  ⟨fun h => h ▸ not_mem_cstr s, cstr_of_not_mem⟩

theorem zero_notMem_intText (i : ℤ) : 0 ∉ intText i := by
  have hdigits : 0 ∉ natText i.natAbs := fun h => absurd (isDigit_natText 0 h) (by decide)
  unfold intText signed
  split_ifs
  · simp [hdigits]
  · exact hdigits

theorem zero_notMem_fixedText (k : ℕ) (neg : Bool) (n : ℕ) : 0 ∉ fixedText k neg n := by
  have hwhole : 0 ∉ natText (n / 10 ^ k) := fun h => absurd (isDigit_natText 0 h) (by decide)
  have hdigits : 0 ∉ digits k n := fun h => absurd (isDigit_of_mem_digits h) (by decide)
  unfold fixedText signed
  split_ifs
  · simp [hwhole, hdigits]
  · simp [hwhole, hdigits]

/-- A text that is read and written again keeps its value exactly when it survives. -/
theorem survives_iff (stof : Stof) (env : Bytes → Option Bytes) {f : Field} {d : Value ℚ}
    (hkind : SameKind d f.fallback) (t : Bytes) :
    parsedAs stof f.fallback (cstr (orEnv env f (d.read stoi stof.parse (some t))).text) =
      parsedAs stof f.fallback t ↔ Survives stof env f t := by
  unfold Survives
  generalize hfallback : f.fallback = fallback at hkind
  cases d <;> cases fallback <;> try exact hkind.elim
  case string.string d fallback =>
    show some (Value.string (cstr (orEnv env f (.string t)).text)) = some (.string t) ↔ _
    rw [Option.some_inj, Value.string.injEq]
    cases t with
    | cons b t =>
      have henv : orEnv env f (.string (b :: t)) = .string (b :: t) := by
        unfold orEnv
        cases f.env <;> rfl
      rw [henv]
      show cstr (b :: t) = b :: t ↔ _
      rw [cstr_eq_self_iff]
      simp
    | nil =>
      unfold orEnv
      cases hvar : f.env with
      | none => simp [Value.text, cstr]
      | some var => simp [Value.text]
  case int.int d fallback =>
    have henv : orEnv env f (.int ((stoi t).getD d)) = .int ((stoi t).getD d) := by
      unfold orEnv
      cases f.env <;> rfl
    show (stoi (cstr (orEnv env f (.int ((stoi t).getD d))).text)).map Value.int = (stoi t).map Value.int ↔ _
    rw [henv, Value.text, cstr_of_not_mem (zero_notMem_intText _), stoi_intText]
    cases stoi t with
    | none => simp
    | some i => simp
  case float.float d fallback =>
    have henv : orEnv env f (.float ((stof.parse t).getD d)) = .float ((stof.parse t).getD d) := by
      unfold orEnv
      cases f.env <;> rfl
    show (stof.parse (cstr (orEnv env f (.float ((stof.parse t).getD d))).text)).map Value.float =
      (stof.parse t).map Value.float ↔ _
    rw [henv, Value.text, cstr_of_not_mem (zero_notMem_fixedText _ _ _), ← Value.text, parse_text_float]
    cases stof.parse t with
    | none => simp
    | some x => simp
  case bool.bool d fallback =>
    have henv : orEnv env f (.bool (t == ascii "true" || t == ascii "1")) =
        .bool (t == ascii "true" || t == ascii "1") := by
      unfold orEnv
      cases f.env <;> rfl
    refine iff_of_true ?_ trivial
    show some (Value.bool (cstr (orEnv env f (.bool (t == ascii "true" || t == ascii "1"))).text == ascii "true" ||
      cstr (orEnv env f (.bool (t == ascii "true" || t == ascii "1"))).text == ascii "1")) = some (.bool _)
    rw [henv]
    cases t == ascii "true" || t == ascii "1" with
    | false => decide
    | true => decide

/-- **Settings that a document leaves out keep their values** exactly when, in the configurations that it has, every
stored text that it does not name comes through. -/
theorem keepsUnnamed_iff (stof : Stof) (env : Bytes → Option Bytes) (now : Id → Int64) (body : Json) (table : Table)
    (h : WellTyped body) : KeepsUnnamed stof env now body table ↔ Harmless stof env body table := by
  have hfield : ∀ c ∈ configs, (body.get? c.module).isSome = true → ∀ f ∈ c.fields,
      ¬ Names body (c.module, f.key) → ∀ t, lookup (c.module, f.key) table = some t →
        ((lookup (c.module, f.key) (tableAfter stof env now body table)).map
            (parsedAs stof (kindOf (c.module, f.key))) = some (parsedAs stof (kindOf (c.module, f.key)) t) ↔
          Survives stof env f t) := by
    intro c hc hbody f hf hunnamed t ht
    obtain ⟨j, hj⟩ := Option.isSome_iff_exists.mp hbody
    obtain ⟨⟨hmodule, -⟩, -, hfields⟩ := configs_wellNamed c hc
    have hcached : cached (c.module, f.key) (fill table) = some t := by
      rw [cached_fill ⟨hmodule, (hfields f hf).1.1⟩, ht]
    unfold tableAfter
    rw [lookup_apply h hc hf hj, given_eq_none fun hm => hunnamed ((names_iff hc hf hj).mpr hm), Option.getD_none,
      Option.map_some, Option.some_inj, kindOf_field hc hf, get_eq_orEnv, hcached]
    exact survives_iff stof env (sameKind_olderValue stof c.module _ f) t
  constructor
  · exact fun hkeeps c hc hbody f hf hunnamed t ht => (hfield c hc hbody f hf hunnamed t ht).mp
      (hkeeps _ t ht hunnamed)
  · intro hharmless id t ht hunnamed
    by_cases hid : ∃ c ∈ configs, (body.get? c.module).isSome = true ∧ ∃ f ∈ c.fields, (c.module, f.key) = id
    · obtain ⟨c, hc, hbody, f, hf, rfl⟩ := hid
      exact (hfield c hc hbody f hf hunnamed t ht).mpr (hharmless c hc hbody f hf hunnamed t ht)
    · unfold tableAfter
      rw [lookup_apply_of_absent h fun c hc hbody f hf heq => hid ⟨c, hc, hbody, f, hf, heq⟩, ht, Option.map_some]

/-! ### A document with one setting -/

/-- A document that names one setting. -/
def oneMember (module key : Bytes) (x : Json) : Json := .object [(module, .object [(key, x)])]

section OneMember

variable {c c' : Config} {f f' : Field} {x : Json}

theorem get?_oneMember {module module' key : Bytes} {j : Json}
    (h : (oneMember module key x).get? module' = some j) : module' = module ∧ j = .object [(key, x)] := by
  have hfind : (if module = module' then some (Json.object [(key, x)]) else none) = some j := h
  split_ifs at hfind with hmodule
  exact ⟨hmodule.symm, (Option.some.inj hfind).symm⟩

/-- The one field that the document has a member for. -/
theorem eq_of_memberOf_oneMember (hc : c ∈ configs) (hf : f ∈ c.fields) (hf' : f' ∈ c.fields) {y : Json}
    (h : memberOf (.object [(f.key, x)]) f' = some y) : f' = f ∧ y = x := by
  have hget : ∀ key, (Json.object [(f.key, x)]).get? key = if f.key = key then some x else none := fun _ => rfl
  unfold memberOf at h
  rcases Option.or_eq_some_iff.mp h with hkey | ⟨-, holder⟩
  · rw [hget] at hkey
    split_ifs at hkey with heq
    exact ⟨List.inj_on_of_nodup_map (configs_wellNamed c hc).2.1 hf' hf heq.symm, (Option.some.inj hkey).symm⟩
  · obtain ⟨key, hkey, hy⟩ := Option.bind_eq_some_iff.mp holder
    rw [hget] at hy
    split_ifs at hy with heq
    exact absurd (congrArg (Prod.mk c.module) heq) (olderKey_ne c hc f' hf' key hkey c hc f hf)

theorem wellTyped_oneMember (hc : c ∈ configs) (hf : f ∈ c.fields) {v : Value ℚ}
    (hx : f.assign f.fallback x = .ok v) : WellTyped (oneMember c.module f.key x) := by
  intro c' hc' j hj f' hf' _ y hy
  obtain ⟨hmodule, rfl⟩ := get?_oneMember hj
  obtain rfl := eq_of_module hc' hc hmodule
  obtain ⟨rfl, rfl⟩ := eq_of_memberOf_oneMember hc hf hf' hy
  exact ⟨v, hx⟩

/-- Another setting is not named. -/
theorem not_names_oneMember (hc : c ∈ configs) (hf : f ∈ c.fields) (hc' : c' ∈ configs) (hf' : f' ∈ c'.fields)
    (hne : (c'.module, f'.key) ≠ (c.module, f.key)) : ¬ Names (oneMember c.module f.key x) (c'.module, f'.key) := by
  intro h
  obtain ⟨j, hj, -⟩ := id h
  obtain ⟨hmodule, rfl⟩ := get?_oneMember hj
  obtain rfl := eq_of_module hc' hc hmodule
  obtain ⟨y, hy⟩ := Option.isSome_iff_exists.mp ((names_iff hc' hf' hj).mp h)
  obtain ⟨rfl, -⟩ := eq_of_memberOf_oneMember hc hf hf' hy
  exact hne rfl

end OneMember

/-- The field of a key for a cloud provider. -/
def openaiKey : Field :=
  { key := ascii "openai_api_key", fallback := .string [], env := ascii "OPENAI_API_KEY", secret := true }

/-- The field that says whether there is a fallback. -/
def cloudFallback : Field := { key := ascii "cloud_fallback_enabled", fallback := .bool true }

/-- A table with an empty key for a cloud provider. -/
def emptyKey : Table where
  rows := [{ module := ascii "cloud", key := ascii "openai_api_key", value := [] }]
  nodup := by decide
  text := by decide

/-- An environment with a key for the provider. -/
def openaiEnv (var : Bytes) : Option Bytes := if var = ascii "OPENAI_API_KEY" then some (ascii "sk") else none

/-- A document that turns the fallback off. -/
def fallbackOff : Json := oneMember cloudConfig.module cloudFallback.key (.bool false)

theorem cloudConfig_mem : cloudConfig ∈ configs := by simp [configs]

theorem cloudFallback_mem : cloudFallback ∈ cloudConfig.fields := by simp [cloudConfig, cloudFallback]

theorem openaiKey_mem : openaiKey ∈ cloudConfig.fields := by simp [cloudConfig, openaiKey]

theorem wellTyped_fallbackOff : WellTyped fallbackOff := wellTyped_oneMember cloudConfig_mem cloudFallback_mem rfl

/-- The key of the environment is stored. -/
theorem not_keepsUnnamed_fallbackOff :
    WellTyped fallbackOff ∧ ¬ KeepsUnnamed decimalStof openaiEnv (fun _ => 0) fallbackOff emptyKey := by
  refine ⟨wellTyped_fallbackOff, fun h => ?_⟩
  have hunnamed : ¬ Names fallbackOff (cloudConfig.module, openaiKey.key) :=
    not_names_oneMember cloudConfig_mem cloudFallback_mem cloudConfig_mem openaiKey_mem (by decide)
  have hkept := h (cloudConfig.module, openaiKey.key) [] (by decide) hunnamed
  have hafter : lookup (cloudConfig.module, openaiKey.key)
      (tableAfter decimalStof openaiEnv (fun _ => 0) fallbackOff emptyKey) = some (ascii "sk") :=
    (lookup_apply wellTyped_fallbackOff cloudConfig_mem openaiKey_mem rfl).trans (by rfl)
  rw [hafter, kindOf_field cloudConfig_mem openaiKey_mem] at hkept
  exact absurd hkept (by decide)

theorem keepsUnnamed_iff_fallbackOff :
    KeepsUnnamed decimalStof openaiEnv (fun _ => 0) fallbackOff emptyKey ↔
      Harmless decimalStof openaiEnv fallbackOff emptyKey :=
  keepsUnnamed_iff decimalStof openaiEnv (fun _ => 0) fallbackOff emptyKey wellTyped_fallbackOff

end DenseLite.Settings.Frame
