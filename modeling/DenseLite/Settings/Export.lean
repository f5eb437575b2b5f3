import DenseLite.Settings.Document

/-! # Importing what was exported

The document that is exported has the secrets masked, and the budget of memory as a whole percentage. An import
takes both as they stand. `roundTrip_iff` says for which settings the import of an export leaves every setting
with the value it had. -/

namespace DenseLite.Settings.Export

open DenseLite.Lib.ByteStream DenseLite.Lib.KeyMap DenseLite.Lib.Live
open DenseLite.Infer.State DenseLite.Settings.Values DenseLite.Settings.Cache DenseLite.Settings.Document

/-! ### The stored settings -/

/-- A call of a `set_*_config`. -/
structure SetCall where
  config : Config
  values : Values
  now : Id → Int64
  mem : config ∈ configs
  fields : values.map Prod.fst = config.fields
  kinds : ∀ x ∈ values, SameKind x.2 x.1.fallback

/-- The settings after calls of `set_*_config`. -/
def settingsAfter (calls : List SetCall) : Store :=
  calls.foldl (fun st call => setConfig call.now call.config call.values st) noSettings

/-- The value of a setting, or its default. -/
def settingValue (stof : Stof) (c : Config) (st : Store) (f : Field) : Value ℚ :=
  f.fallback.read stoi stof.parse (cached (c.module, f.key) st.cache)

/-- Every setting is unset, or has a text of its type; and nothing stands under an older key. -/
def Typed (st : Store) : Prop :=
  ∀ c ∈ configs, ∀ f ∈ c.fields,
    (cached (c.module, f.key) st.cache = none ∨
      ∃ v, SameKind v f.fallback ∧ cached (c.module, f.key) st.cache = some v.text) ∧
    ∀ key ∈ f.olderKey, cached (c.module, key) st.cache = none

/-- An older key is the key of no field. -/
theorem olderKey_ne : ∀ c ∈ configs, ∀ f ∈ c.fields, ∀ key ∈ f.olderKey, ∀ c' ∈ configs, ∀ f' ∈ c'.fields,
    (c'.module, f'.key) ≠ (c.module, key) := by decide +kernel

theorem eq_of_module {c c' : Config} (hc : c ∈ configs) (hc' : c' ∈ configs) (h : c.module = c'.module) : c = c' :=
  List.inj_on_of_nodup_map configs_nodup hc hc' h

theorem typed_setConfig {st : Store} (h : Typed st) (call : SetCall) :
    Typed (setConfig call.now call.config call.values st) := by
  intro c hc f hf
  obtain ⟨hvalue, holder⟩ := h c hc f hf
  obtain ⟨⟨hmodule, -⟩, hkeys, hfields⟩ := configs_wellNamed c hc
  obtain ⟨⟨hkey, -⟩, hcolon⟩ := hfields f hf
  have hrecord : ∀ r ∈ records call.now call.config call.values, ∃ x ∈ call.values,
      x.1 ∈ call.config.fields ∧ r = record call.now (call.config.module, x.1.key) x.2 := fun r hr => by
    obtain ⟨x, hx, rfl⟩ := mem_records hr
    exact ⟨x, hx, call.fields ▸ List.mem_map_of_mem hx, rfl⟩
  unfold setConfig
  constructor
  · rcases cached_foldl_write_cases (show ColonFree (c.module, f.key) from ⟨hmodule, hkey⟩)
      (records call.now call.config call.values) st with heq | ⟨r, hr, hid, hcached⟩
    · rw [heq]
      exact hvalue
    · obtain ⟨x, hx, hfield, rfl⟩ := hrecord r hr
      obtain rfl := eq_of_module call.mem hc (congrArg Prod.fst hid)
      have hfx : x.1 = f := List.inj_on_of_nodup_map hkeys hfield hf (congrArg Prod.snd hid)
      exact Or.inr ⟨x.2, hfx ▸ call.kinds x hx, hcached⟩
  · intro key hkey'
    rw [cached_foldl_write ⟨hmodule, hcolon key hkey'⟩]
    · exact holder key hkey'
    · intro r hr
      obtain ⟨x, -, hfield, rfl⟩ := hrecord r hr
      exact olderKey_ne c hc f hf key hkey' call.config call.mem x.1 hfield

theorem typed_settingsAfter (calls : List SetCall) : Typed (settingsAfter calls) := by
  suffices h : ∀ st, Typed st →
      Typed (calls.foldl (fun st call => setConfig call.now call.config call.values st) st) from
    h noSettings fun c _ f _ => ⟨Or.inl rfl, fun _ _ => rfl⟩
  induction calls with
  | nil => exact fun st h => h
  | cons call calls ih => exact fun st h => ih _ (typed_setConfig h call)

/-- The defaults have at most six decimals. -/
theorem stored_fallback : ∀ c ∈ configs, ∀ f ∈ c.fields, f.fallback.stored = f.fallback := by decide +kernel

/-! ### What a field becomes -/

/-- What becomes of a value on its way into the document and back. -/
def carried (f : Field) : Value ℚ → Value ℚ
  | .string s => .string (if f.secret then maskSecret s else s)
  | .float x => .float (if f.percent then budgetOf (percentOf x).toInt else x)
  | v => v

theorem assign_toJson (f : Field) (v : Value ℚ) : f.assign v (f.toJson v) = .ok (carried f v) := by
  unfold Field.assign
  cases v with
  | string s => cases f.percent <;> rfl
  | int i =>
    have hi : Int32.ofInt i.toInt = i := Int32.ofInt_toInt i
    unfold Field.toJson carried Document.assign
    dsimp only
    rw [hi]
    cases f.percent <;> rfl
  | float x =>
    unfold Field.toJson carried
    cases f.percent <;> rfl
  | bool b => cases f.percent <;> rfl

/-- What is not in the document is neither a secret nor a percentage, and what is taken from the environment is
a secret. -/
theorem field_kinds : ∀ c ∈ configs, ∀ f ∈ c.fields,
    (f.shown = false → f.secret = false ∧ f.percent = false) ∧ (f.secret = false → f.env = none) := by
  decide +kernel

theorem carried_of_not_shown {c : Config} (hc : c ∈ configs) {f : Field} (hf : f ∈ c.fields)
    (h : f.shown = false) (v : Value ℚ) : carried f v = v := by
  obtain ⟨hsecret, hpercent⟩ := (field_kinds c hc f hf).1 h
  unfold carried
  rw [hsecret, hpercent]
  cases v <;> rfl

/-! ### What an import writes -/

section Import

variable {stof : Stof} {env : Bytes → Option Bytes} {now : Id → Int64} {st : Store}

/-- The part of the document that a configuration is shown in. -/
theorem get?_getAllSettingsJson {c : Config} (hc : c ∈ configs) :
    (getAllSettingsJson stof env st).get? c.module = some (configJson (getConfig stof env st c)) := by
  refine find_of_mem ?_ (List.mem_map.mpr ⟨c, hc, rfl⟩)
  unfold keys
  rw [List.map_map]
  exact configs_nodup

theorem get?_configJson {c : Config} (hc : c ∈ configs) {f : Field} (hf : f ∈ c.fields)
    (hshown : f.shown = true) :
    (configJson (getConfig stof env st c)).get? f.key = some (f.toJson (f.get stof env c.module st)) := by
  refine find_of_mem ?_ (List.mem_map.mpr ⟨(f, f.get stof env c.module st), ?_, rfl⟩)
  · have hkeys := (configs_wellNamed c hc).2.1
    rw [← fst_getConfig stof env st c, List.map_map] at hkeys
    unfold keys
    rw [List.map_map]
    exact hkeys.sublist (List.filter_sublist.map _)
  · exact List.mem_filter.mpr ⟨List.mem_map_of_mem hf, hshown⟩

theorem apply_configJson {c : Config} (hc : c ∈ configs) {f : Field} (hf : f ∈ c.fields) :
    f.apply (configJson (getConfig stof env st c)) (f.get stof env c.module st) =
      .ok (carried f (f.get stof env c.module st)) := by
  unfold Field.apply
  cases hshown : f.shown with
  | true =>
    rw [get?_configJson hc hf hshown]
    exact assign_toJson f _
  | false =>
    rw [carried_of_not_shown hc hf hshown]
    split
    · exact absurd ‹false = true› Bool.false_ne_true
    · rfl

theorem applyFields_of_forall {j : Json} {g : Field → Value ℚ → Value ℚ} : ∀ {xs : Values},
    (∀ x ∈ xs, x.1.apply j x.2 = .ok (g x.1 x.2)) → applyFields j xs = .ok (xs.map fun x => (x.1, g x.1 x.2))
  | [], _ => rfl
  | x :: xs, h => by
    rw [applyFields, h x List.mem_cons_self, applyFields_of_forall fun y hy => h y (List.mem_cons_of_mem x hy)]
    rfl

theorem parsed_getAllSettingsJson {c : Config} (hc : c ∈ configs) :
    parsed stof env (getAllSettingsJson stof env st) st c =
      some (.ok ((getConfig stof env st c).map fun x => (x.1, carried x.1 x.2))) := by
  unfold parsed
  rw [get?_getAllSettingsJson hc, Option.map_some, applyFields_of_forall]
  intro x hx
  obtain ⟨f, hf, rfl⟩ := List.mem_map.mp hx
  exact apply_configJson hc hf

/-- What a configuration of the document gives for a field is written. -/
theorem record_mem_writes {body : Json} (hok : ∀ c ∈ configs, ∀ e, parsed stof env body st c ≠ some (.error e))
    {c : Config} (hc : c ∈ configs) {f : Field} (hf : f ∈ c.fields) {g : Field → Value ℚ → Value ℚ}
    (hparsed : parsed stof env body st c =
      some (.ok ((getConfig stof env st c).map fun x => (x.1, g x.1 x.2)))) :
    record now (c.module, f.key) (g f (f.get stof env c.module st)) ∈ writes stof env now body st configs := by
  refine (mem_writes_iff hok).mpr ⟨c, hc, _, hparsed, ?_⟩
  refine List.mem_map.mpr ⟨(f, g f (f.get stof env c.module st)), ?_, rfl⟩
  exact List.mem_map.mpr ⟨(f, f.get stof env c.module st), List.mem_map_of_mem hf, rfl⟩

/-- What is written is what the cache holds in the end. -/
theorem cached_of_mem_writes {body : Json} {id : Id} {v : Value ℚ}
    (hwritten : record now id v ∈ writes stof env now body st configs) :
    cached id (applySettingsJson stof env now body st).1.cache = some v.text := by
  have hfind : find (makeCacheKey id) (setAll ((writes stof env now body st configs).map
      fun r => (makeCacheKey r.id, r)) st.cache) = some (record now id v) :=
    find_setAll_of_mem nodup_cacheKeys (List.mem_map.mpr ⟨_, hwritten, rfl⟩)
  unfold cached
  rw [applySettingsJson_eq, cache_foldl_write, hfind]
  rfl

/-- What a setting holds after an import of what was exported. -/
theorem cached_import {c : Config} (hc : c ∈ configs) {f : Field} (hf : f ∈ c.fields) :
    cached (c.module, f.key) (applySettingsJson stof env now (getAllSettingsJson stof env st) st).1.cache =
      some (carried f (f.get stof env c.module st)).text := by
  refine cached_of_mem_writes (record_mem_writes (fun c' hc' e => ?_) hc hf (parsed_getAllSettingsJson hc))
  rw [parsed_getAllSettingsJson hc']
  exact nofun

end Import

/-! ### Percentages -/

theorem toInt_castInt (x : ℚ) : (castInt x).toInt =
    if -2 ^ 31 ≤ (if 0 ≤ x then ⌊x⌋ else ⌈x⌉) ∧ (if 0 ≤ x then ⌊x⌋ else ⌈x⌉) < 2 ^ 31 then
      (if 0 ≤ x then ⌊x⌋ else ⌈x⌉) else -2 ^ 31 := by
  unfold castInt
  dsimp only
  split_ifs with h1 h2 h2
  · exact Int32.toInt_ofInt_of_le h2.1 h2.2
  · decide
  · exact Int32.toInt_ofInt_of_le h2.1 h2.2
  · decide

theorem rounded_budgetOf (n : ℤ) : rounded (budgetOf n) = budgetOf n := by
  unfold budgetOf
  split_ifs
  · refine rounded_of_natCast (n := n.natAbs * 10 ^ 4) ?_
    rw [abs_div, Nat.cast_mul, Nat.cast_natAbs, Int.cast_abs]
    norm_num
    ring
  · refine rounded_of_natCast (n := n.natAbs * 10 ^ 6) ?_
    rw [Nat.cast_mul, Nat.cast_natAbs, Int.cast_abs]
    norm_num

/-- The budgets that come back: none, a whole percentage from two to a hundred, and what is left of a number
that is out of range. -/
def BudgetKept (x : ℚ) : Prop := x = 0 ∨ (∃ k : ℕ, 2 ≤ k ∧ k ≤ 100 ∧ x = k / 100) ∨ x = -2 ^ 31

theorem toInt_castInt_intCast {n : ℤ} (hlow : -2 ^ 31 ≤ n) (hhigh : n < 2 ^ 31) : (castInt (n : ℚ)).toInt = n := by
  rw [toInt_castInt, Int.floor_intCast, Int.ceil_intCast, ite_self, if_pos ⟨hlow, hhigh⟩]

theorem budgetKept_of_le {x : ℚ} (hx : x ≤ 1) (h : budgetOf (castInt (x * 100)).toInt = x) : BudgetKept x := by
  rw [toInt_castInt] at h
  generalize ht : (if 0 ≤ x * 100 then ⌊x * 100⌋ else ⌈x * 100⌉) = t at h
  by_cases hrange : -2 ^ 31 ≤ t ∧ t < 2 ^ 31
  · rw [if_pos hrange] at h
    unfold budgetOf at h
    split_ifs at h with hlt
    · have hlt' : 1 < t := by exact_mod_cast hlt
      have hle : t ≤ 100 := by
        have hdiv : (t : ℚ) ≤ 100 := by linarith
        exact_mod_cast hdiv
      refine Or.inr (Or.inl ⟨t.toNat, by omega, by omega, ?_⟩)
      have hcast : ((t.toNat : ℕ) : ℚ) = t := by
        rw [← Int.cast_natCast, Int.toNat_of_nonneg (by omega)]
      rw [hcast, h]
    · -- the budget is a whole number, and its percentage a hundred times as much
      have hx100 : x * 100 = ((t * 100 : ℤ) : ℚ) := by rw [← h, Int.cast_mul, Int.cast_ofNat]
      rw [hx100, Int.floor_intCast, Int.ceil_intCast, ite_self] at ht
      have hzero : t = 0 := by omega
      rw [hzero, Int.cast_zero] at h
      exact Or.inl h.symm
  · rw [if_neg hrange] at h
    unfold budgetOf at h
    rw [if_neg (by norm_num)] at h
    refine Or.inr (Or.inr ?_)
    rw [← h]
    norm_num

theorem not_budgetOf_of_lt {x : ℚ} (hx : 1 < x) : budgetOf (castInt x).toInt ≠ x := by
  intro h
  have hnonneg : 0 ≤ x := by linarith
  rw [toInt_castInt] at h
  simp only [if_pos hnonneg] at h
  by_cases hrange : -2 ^ 31 ≤ ⌊x⌋ ∧ ⌊x⌋ < 2 ^ 31
  · rw [if_pos hrange] at h
    have hfloor : (⌊x⌋ : ℚ) ≤ x := Int.floor_le x
    unfold budgetOf at h
    split_ifs at h with hlt
    · linarith
    · linarith
  · rw [if_neg hrange] at h
    unfold budgetOf at h
    rw [if_neg (by norm_num)] at h
    norm_num at h
    linarith

theorem budgetOf_percentOf (x : ℚ) : budgetOf (percentOf x).toInt = x ↔ BudgetKept x := by
  constructor
  · intro h
    unfold percentOf at h
    split_ifs at h with hx
    · exact budgetKept_of_le hx h
    · exact absurd h (not_budgetOf_of_lt (not_le.mp hx))
  · rintro (rfl | ⟨k, hlow, hhigh, rfl⟩ | rfl)
    · decide +kernel
    · have hle : (k : ℚ) / 100 ≤ 1 := by
        rw [div_le_one (by norm_num)]
        exact_mod_cast hhigh
      have hcast : (k : ℚ) / 100 * 100 = ((k : ℤ) : ℚ) := by
        rw [Int.cast_natCast]
        field_simp
      unfold percentOf budgetOf
      rw [if_pos hle, hcast, toInt_castInt_intCast (by omega) (by omega), if_pos (by exact_mod_cast hlow),
        Int.cast_natCast]
    · decide +kernel

/-! ### The round trip -/

section RoundTrip

variable (stof : Stof) (env : Bytes → Option Bytes)

/-- A value, or what the environment has where none is stored. -/
def orEnv (f : Field) (v : Value ℚ) : Value ℚ :=
  match f.env, v with
  | some var, .string [] => .string ((env var).getD [])
  | _, v => v

/-- An import of what was exported leaves every setting with its value. -/
def RoundTrip (now : Id → Int64) (st : Store) : Prop :=
  ∀ c ∈ configs, ∀ f ∈ c.fields,
    settingValue stof c (applySettingsJson stof env now (getAllSettingsJson stof env st) st).1 f =
      settingValue stof c st f

/-- The value comes back: a secret is its own mask, and if none is stored the environment has none either; a
budget is kept. -/
def Kept (f : Field) : Value ℚ → Prop
  | .string s => f.secret = true → maskSecret s = s ∧ ∀ var ∈ f.env, s = [] → (env var).getD [] = []
  | .float x => f.percent = true → BudgetKept x
  | _ => True

end RoundTrip

variable {stof : Stof} {env : Bytes → Option Bytes} {st : Store} {c : Config} {f : Field}

/-- In a typed state, a setting is of its type, and has at most six decimals. -/
theorem settingValue_spec (h : Typed st) (hc : c ∈ configs) (hf : f ∈ c.fields) :
    SameKind (settingValue stof c st f) f.fallback ∧
      (settingValue stof c st f).stored = settingValue stof c st f := by
  unfold settingValue
  rcases (h c hc f hf).1 with hnone | ⟨v, hkind, hsome⟩
  · rw [hnone, read_none]
    exact ⟨SameKind.refl _, stored_fallback c hc f hf⟩
  · rw [hsome, read_text stof hkind, stored_stored]
    exact ⟨hkind.stored, rfl⟩

/-- What is exported of a setting is its value, or what the environment has instead. -/
theorem get_eq (h : Typed st) (hc : c ∈ configs) (hf : f ∈ c.fields) :
    f.get stof env c.module st = orEnv env f (settingValue stof c st f) := by
  unfold Field.get settingValue
  cases holder : f.olderKey with
  | none => rfl
  | some key =>
    simp only [Option.elim_some, (h c hc f hf).2 key holder, read_none]
    rfl

theorem sameKind_orEnv {v w : Value ℚ} (h : SameKind v w) : SameKind (orEnv env f v) w := by
  unfold orEnv
  split
  · cases w <;> exact h
  · exact h

theorem sameKind_carried {v w : Value ℚ} (h : SameKind v w) : SameKind (carried f v) w := by
  cases v <;> cases w <;> exact h

theorem maskSecret_eq_nil_iff {s : Bytes} : maskSecret s = [] ↔ s = [] := by
  unfold maskSecret
  split_ifs with hempty hshort
  · exact iff_of_true rfl hempty
  · simp [hempty]
  · refine iff_of_false (fun h => ?_) hempty
    have hlen := congrArg List.length h
    rw [List.length_append, List.length_replicate, List.length_nil] at hlen
    omega

/-- The setting that an import of what was exported leaves. -/
theorem settingValue_import (h : Typed st) (hc : c ∈ configs) (hf : f ∈ c.fields) (now : Id → Int64) :
    settingValue stof c (applySettingsJson stof env now (getAllSettingsJson stof env st) st).1 f =
      (carried f (f.get stof env c.module st)).stored := by
  have hkind : SameKind (carried f (f.get stof env c.module st)) f.fallback := by
    rw [get_eq h hc hf]
    exact sameKind_carried (sameKind_orEnv (settingValue_spec h hc hf).1)
  unfold settingValue
  rw [cached_import hc hf, read_text stof hkind]

/-- A secret comes back exactly when it is its own mask, and the environment has none in its place. -/
theorem carried_secret_iff (hsecret : f.secret = true) {s : Bytes} :
    (carried f (orEnv env f (.string s))).stored = .string s ↔
      maskSecret s = s ∧ ∀ var ∈ f.env, s = [] → (env var).getD [] = [] := by
  have hcarried : ∀ t, (carried f (.string t)).stored = .string (maskSecret t) := fun t => by
    unfold carried
    rw [hsecret]
    rfl
  by_cases hs : s = []
  · rw [hs]
    unfold orEnv
    cases henv : f.env with
    | none =>
      dsimp only
      rw [hcarried]
      exact iff_of_true rfl ⟨rfl, nofun⟩
    | some var =>
      dsimp only
      rw [hcarried, Value.string.injEq, maskSecret_eq_nil_iff]
      constructor
      · rintro hnone
        exact ⟨rfl, fun var' hvar' _ => Option.some.inj hvar' ▸ hnone⟩
      · exact fun h => h.2 var rfl rfl
  · have hget : orEnv env f (.string s) = .string s := by
      obtain ⟨b, s, rfl⟩ := List.exists_cons_of_ne_nil hs
      unfold orEnv
      cases f.env <;> rfl
    rw [hget, hcarried, Value.string.injEq]
    exact (and_iff_left fun var _ h => absurd h hs).symm

/-- A budget comes back exactly when it is kept. -/
theorem carried_percent_iff (hpercent : f.percent = true) {x : ℚ} :
    (carried f (.float x)).stored = .float x ↔ BudgetKept x := by
  unfold carried Value.stored
  rw [hpercent]
  dsimp only
  rw [if_pos rfl, rounded_budgetOf, Value.float.injEq, budgetOf_percentOf]

/-- One setting comes back exactly when it is kept. -/
theorem carried_get_iff (h : Typed st) (hc : c ∈ configs) (hf : f ∈ c.fields) :
    (carried f (f.get stof env c.module st)).stored = settingValue stof c st f ↔
      Kept env f (settingValue stof c st f) := by
  have hstored : (settingValue stof c st f).stored = settingValue stof c st f := (settingValue_spec h hc hf).2
  have henv := (field_kinds c hc f hf).2
  rw [get_eq h hc hf]
  generalize settingValue stof c st f = v at hstored
  cases v with
  | int i => exact iff_of_true (by unfold orEnv; cases f.env <;> rfl) trivial
  | bool b => exact iff_of_true (by unfold orEnv; cases f.env <;> rfl) trivial
  | float x =>
    have hget : orEnv env f (.float x) = .float x := by
      unfold orEnv
      cases f.env <;> rfl
    rw [hget]
    cases hpercent : f.percent with
    | false =>
      refine iff_of_true ?_ fun h => absurd (hpercent.symm.trans h) Bool.false_ne_true
      unfold carried
      rw [hpercent]
      exact hstored
    | true =>
      exact (carried_percent_iff hpercent).trans ⟨fun h _ => h, fun h => h hpercent⟩
  | string s =>
    cases hsecret : f.secret with
    | false =>
      refine iff_of_true ?_ fun h => absurd (hsecret.symm.trans h) Bool.false_ne_true
      unfold orEnv carried
      rw [henv hsecret, hsecret]
      rfl
    | true => exact (carried_secret_iff hsecret).trans ⟨fun h _ => h, fun h => h hsecret⟩

/-- **An import of what was exported leaves every setting with its value** exactly when every setting is kept. -/
theorem roundTrip_iff (stof : Stof) (env : Bytes → Option Bytes) (calls : List SetCall) (now : Id → Int64) :
    RoundTrip stof env now (settingsAfter calls) ↔
      ∀ c ∈ configs, ∀ f ∈ c.fields, Kept env f (settingValue stof c (settingsAfter calls) f) := by
  have h := typed_settingsAfter calls
  refine forall₂_congr fun c hc => forall₂_congr fun f hf => ?_
  rw [settingValue_import h hc hf]
  exact carried_get_iff h hc hf

/-- The defaults of the server, with an API secret. -/
def setSecret : SetCall where
  config := serverConfig
  values := serverConfig.fields.map fun f => (f, if f.secret then .string (ascii "abcdefgh") else f.fallback)
  now := fun _ => 0
  mem := by simp [configs]
  fields := by
    rw [List.map_map]
    exact List.map_id _
  kinds := by
    intro x hx
    obtain ⟨f, hf, rfl⟩ := List.mem_map.mp hx
    simp only [serverConfig, List.mem_cons, List.not_mem_nil, or_false] at hf
    rcases hf with rfl | rfl | rfl | rfl | rfl | rfl | rfl | rfl <;> trivial

/-- The field of the API secret. -/
def secretField : Field := { key := ascii "api_secret_key", fallback := .string [], secret := true }

theorem not_roundTrip_setSecret :
    ¬ RoundTrip decimalStof (fun _ => none) (fun _ => 0) (settingsAfter [setSecret]) := by
  intro h
  have hc : serverConfig ∈ configs := by simp [configs]
  have hf : secretField ∈ serverConfig.fields := by simp [serverConfig, secretField]
  have hvalue : settingValue decimalStof serverConfig (settingsAfter [setSecret]) secretField =
      .string (ascii "abcdefgh") := by rfl
  have hkept := h serverConfig hc secretField hf
  rw [settingValue_import (typed_settingsAfter [setSecret]) hc hf, get_eq (typed_settingsAfter [setSecret]) hc hf,
    hvalue] at hkept
  exact absurd (Value.string.inj hkept) (by decide)

end DenseLite.Settings.Export
