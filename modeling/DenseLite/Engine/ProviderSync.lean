import DenseLite.Engine.Analyzer
import DenseLite.Lib.UniqueRows
import Mathlib.Data.List.Dedup

/-! # Provider sync

`sync_models_from_provider` asks a provider for its models and writes them to the table `provider_models`. Once the
reply has parsed, the rows of the provider are deleted, whatever the reply holds: a reply without model names leaves the
provider without a row. The rows of other providers stay. -/

namespace DenseLite.Engine.ProviderSync

open DenseLite.Lib.ByteStream DenseLite.Lib.UniqueRows DenseLite.Engine.Pipeline DenseLite.Engine.Analyzer
open DenseLite.Infer.State (ascii occursIn)

/-! ### The table -/

/-- The rows have the provider and the name in common, which are `UNIQUE` together. -/
def SameRow (r x : ProviderModel) : Prop := r.provider = x.provider ∧ r.modelName = x.modelName

instance : DecidableRel SameRow := fun _ _ => inferInstanceAs (Decidable (_ ∧ _))

theorem sameRow_equivalence : Equivalence SameRow where
  refl _ := ⟨rfl, rfl⟩
  symm h := ⟨h.1.symm, h.2.symm⟩
  trans h h' := ⟨h.1.trans h'.1, h.2.trans h'.2⟩

/-- The table `provider_models`, its rows in no order. -/
structure ProviderModels where
  rows : List ProviderModel
  unique : rows.Pairwise fun x y => ¬ SameRow x y

/-- The rows of a provider. -/
def ProviderModels.own (t : ProviderModels) (provider : Bytes) : List ProviderModel :=
  t.rows.filter fun r => r.provider = provider

/-- The rows of the other providers. -/
def ProviderModels.others (t : ProviderModels) (provider : Bytes) : List ProviderModel :=
  t.rows.filter fun r => r.provider ≠ provider

/-- `DELETE` of the rows of a provider. -/
def ProviderModels.delete (t : ProviderModels) (provider : Bytes) : ProviderModels where
  rows := t.others provider
  unique := t.unique.sublist List.filter_sublist

/-- `INSERT` of rows, where a row that is not unique is not written. -/
def ProviderModels.insert (t : ProviderModels) (news : List ProviderModel) : ProviderModels where
  rows := insertAll SameRow t.rows news
  unique := pairwise_insertAll t.unique

/-! ### The request and the reply -/

/-- A `GET`, with the value of its header `Authorization`. -/
structure Request where
  host : Bytes
  path : Bytes
  authorization : Option Bytes
deriving DecidableEq, Repr

/-- The part of a response that is read. -/
structure Response where
  status : ℤ
  body : Bytes
deriving DecidableEq, Repr

/-- The host, the path and if the key is part of the path, for the providers whose models can be fetched. -/
def endpoint (provider apiKey : Bytes) : Option (Bytes × Bytes × Bool) :=
  if provider = ascii "GROQ" then some (ascii "https://api.groq.com", ascii "/openai/v1/models", false)
  else if provider = ascii "OPENROUTER" then some (ascii "https://openrouter.ai", ascii "/api/v1/models", false)
  else if provider = ascii "NOVITA" then some (ascii "https://api.novita.ai", ascii "/v3/openai/models", false)
  else if provider = ascii "MISTRAL" then some (ascii "https://api.mistral.ai", ascii "/v1/models", false)
  else if provider = ascii "COHERE" then some (ascii "https://api.cohere.com", ascii "/v1/models", false)
  else if provider = ascii "GEMINI" then
    some (ascii "https://generativelanguage.googleapis.com", ascii "/v1beta/models?key=" ++ apiKey, true)
  else none

/-- The request that is sent, if the provider is one of them. -/
def request (provider apiKey : Bytes) : Option Request :=
  (endpoint provider apiKey).map fun e =>
    { host := e.1
      path := cstr e.2.1
      authorization := if e.2.2 then none else some (ascii "Bearer " ++ apiKey) }

/-- The strings under `field` in the elements of the array under `list`. -/
def namesUnder (list field : Bytes) (j : Json) : List Bytes :=
  match j.get? list with
  | some (.array items) => items.filterMap fun item => item.stringOf field
  | _ => []

/-- `model_names`. -/
def modelNames (provider : Bytes) (j : Json) : List Bytes :=
  if provider = ascii "COHERE" ∨ provider = ascii "GEMINI" then namesUnder (ascii "models") (ascii "name") j
  else namesUnder (ascii "data") (ascii "id") j

/-- `model_name`: without the prefix `models/` of Gemini. -/
def strippedName (provider name : Bytes) : Bytes :=
  if provider = ascii "GEMINI" ∧ (ascii "models/").isPrefixOf name then name.drop 7 else name

/-- `m_type`. -/
def modelType (name : Bytes) : Bytes :=
  let lower := name.map lowerByte
  if occursIn (ascii "vision") lower || occursIn (ascii "vl") lower then ascii "image"
  else if occursIn (ascii "coder") lower || occursIn (ascii "code") lower then ascii "coding"
  else ascii "text"

/-- The row of a name, as the statement binds it. -/
def rowOf (provider name : Bytes) (priority : ℤ) : ProviderModel where
  provider := cstr provider
  modelName := cstr (strippedName provider name)
  modelType := modelType (strippedName provider name)
  priority := priority

/-- The rows of all names, which are counted from 1. -/
def rowsOf (provider : Bytes) (names : List Bytes) : List ProviderModel :=
  names.mapIdx fun i name => rowOf provider name (i + 1)

/-- The transaction. -/
def replaceModels (t : ProviderModels) (provider : Bytes) (names : List Bytes) : ProviderModels :=
  (t.delete (cstr provider)).insert (rowsOf provider names)

/-- The names in the body of a response, if its text parses. -/
def namesIn (parse : Bytes → Option Json) (provider : Bytes) (res : Response) : Option (List Bytes) :=
  (parse res.body).map (modelNames provider)

/-- `sync_models_from_provider`. -/
def syncModelsFromProvider (parse : Bytes → Option Json) (get : Request → Option Response) (t : ProviderModels)
    (provider apiKey : Bytes) : ProviderModels :=
  match (request provider apiKey).bind get with
  | none => t
  | some res =>
    if res.status ≠ 200 then t
    else
      match namesIn parse provider res with
      | none => t
      | some names => replaceModels t provider names

/-! ### The rows after the transaction -/

variable {t : ProviderModels} {provider apiKey : Bytes} {names : List Bytes} {r : ProviderModel}

/-- A provider whose models can be fetched has no zero byte in its name. -/
theorem cstr_of_endpoint (provider apiKey : Bytes) (h : endpoint provider apiKey ≠ none) :
    cstr provider = provider := by
  unfold endpoint at h
  split_ifs at h <;> first | (subst provider; decide) | exact absurd rfl h

theorem mem_rowsOf : r ∈ rowsOf provider names ↔ ∃ i, ∃ hi : i < names.length, rowOf provider names[i] (i + 1) = r :=
  List.mem_mapIdx

theorem provider_of_mem_rowsOf (hr : r ∈ rowsOf provider names) : r.provider = cstr provider := by
  obtain ⟨i, hi, rfl⟩ := mem_rowsOf.mp hr
  rfl

theorem mem_own : r ∈ t.own provider ↔ r ∈ t.rows ∧ r.provider = provider := by simp [ProviderModels.own]

theorem mem_others : r ∈ t.others provider ↔ r ∈ t.rows ∧ r.provider ≠ provider := by simp [ProviderModels.others]

theorem rows_nodup (t : ProviderModels) : t.rows.Nodup := by
  refine t.unique.imp ?_
  rintro x y h rfl
  exact h (sameRow_equivalence.refl x)

/-- The rows of a provider have different names. -/
theorem own_names_nodup (t : ProviderModels) (provider : Bytes) : ((t.own provider).map (·.modelName)).Nodup := by
  refine List.pairwise_map.mpr ((t.unique.sublist List.filter_sublist).imp_of_mem fun hx hy h heq => h ⟨?_, heq⟩)
  rw [(mem_own.mp hx).2, (mem_own.mp hy).2]

/-- The rows afterwards are those of other providers, and each found name that has not been found before. -/
theorem mem_replaceModels (hp : cstr provider = provider) : r ∈ (replaceModels t provider names).rows ↔
    r ∈ t.others provider ∨ FirstIn SameRow r (rowsOf provider names) := by
  have hrows : (replaceModels t provider names).rows =
      insertAll SameRow (t.others provider) (rowsOf provider names) := by
    rw [replaceModels, hp]
    rfl
  rw [hrows, mem_insertAll sameRow_equivalence]
  refine or_congr_right (and_iff_right_of_imp fun hfirst y hy hsame => ?_)
  exact (mem_others.mp hy).2 (hsame.1.symm.trans ((provider_of_mem_rowsOf hfirst.mem).trans hp))

theorem mem_own_replaceModels (hp : cstr provider = provider) :
    r ∈ (replaceModels t provider names).own provider ↔ FirstIn SameRow r (rowsOf provider names) := by
  rw [mem_own, mem_replaceModels hp]
  constructor
  · rintro ⟨hother | hfirst, heq⟩
    · exact absurd heq (mem_others.mp hother).2
    · exact hfirst
  · exact fun hfirst => ⟨.inr hfirst, (provider_of_mem_rowsOf hfirst.mem).trans hp⟩

/-- The transaction leaves the rows of other providers. -/
theorem others_replaceModels (hp : cstr provider = provider) :
    ((replaceModels t provider names).others provider).Perm (t.others provider) := by
  refine (List.perm_ext_iff_of_nodup ((rows_nodup _).filter _) ((rows_nodup _).filter _)).mpr fun r => ?_
  rw [← ProviderModels.others, mem_others, mem_replaceModels hp, ← ProviderModels.others]
  constructor
  · rintro ⟨hother | hfirst, hne⟩
    · exact hother
    · exact absurd ((provider_of_mem_rowsOf hfirst.mem).trans hp) hne
  · exact fun hother => ⟨.inl hother, (mem_others.mp hother).2⟩

/-- The names of the provider afterwards are the found names, each up to its first zero byte. -/
theorem mem_own_names_replaceModels (hp : cstr provider = provider) {name : Bytes} :
    name ∈ ((replaceModels t provider names).own provider).map (·.modelName) ↔
      ∃ n ∈ names, cstr (strippedName provider n) = name := by
  rw [List.mem_map]
  constructor
  · rintro ⟨r, hr, rfl⟩
    obtain ⟨i, hi, rfl⟩ := mem_rowsOf.mp ((mem_own_replaceModels hp).mp hr).mem
    exact ⟨names[i], List.getElem_mem hi, rfl⟩
  · rintro ⟨n, hn, rfl⟩
    obtain ⟨i, hi, rfl⟩ := List.mem_iff_getElem.mp hn
    obtain ⟨r, hfirst, hsame⟩ := exists_firstIn sameRow_equivalence (mem_rowsOf.mpr ⟨i, hi, rfl⟩)
    exact ⟨r, (mem_own_replaceModels hp).mpr hfirst, hsame.2.symm⟩

/-- Some name has been found, and no name would be cut off at a zero byte. -/
def WritesAll (provider : Bytes) (names : List Bytes) : Prop := names ≠ [] ∧ ∀ n ∈ names, 0 ∉ strippedName provider n

/-- The rows of the provider are the rows of the found names already, the first row of each name. -/
def UpToDate (t : ProviderModels) (provider : Bytes) (names : List Bytes) : Prop :=
  ∀ r, r ∈ t.own provider ↔ FirstIn SameRow r (rowsOf provider names)

theorem rows_replaceModels_perm_iff (hp : cstr provider = provider) :
    (replaceModels t provider names).rows.Perm t.rows ↔ UpToDate t provider names := by
  rw [List.perm_ext_iff_of_nodup (rows_nodup _) (rows_nodup _)]
  constructor
  · intro h r
    rw [← mem_own_replaceModels (t := t) hp, mem_own, mem_own, h r]
  · intro h r
    rw [mem_replaceModels hp, ← h r, mem_others, mem_own, ← and_or_left]
    exact and_iff_left (ne_or_eq _ _)

/-- The names of the provider are the distinct found names when no found name is cut off. -/
theorem names_replaceModels_perm_iff (hp : cstr provider = provider) :
    (((replaceModels t provider names).own provider).map (·.modelName)).Perm (names.map (strippedName provider)).dedup ↔
      ∀ n ∈ names, 0 ∉ strippedName provider n := by
  rw [List.perm_ext_iff_of_nodup (own_names_nodup _ _) (List.nodup_dedup _)]
  constructor
  · intro h n hn
    obtain ⟨m, -, hm⟩ := (mem_own_names_replaceModels hp).mp
      ((h _).mpr (List.mem_dedup.mpr (List.mem_map_of_mem hn)))
    exact hm ▸ not_mem_cstr _
  · intro h name
    rw [mem_own_names_replaceModels hp, List.mem_dedup, List.mem_map]
    exact exists_congr fun n => and_congr_right fun hn => by rw [cstr_of_not_mem (h n hn)]

/-! ### Replace or keep -/

/-- The rows of other providers stay, and the table is the same, or the names of the provider are the distinct names of
a list that has been found and is not empty. -/
def ReplacesOrKeeps (provider : Bytes) (found : Option (List Bytes)) (before after : ProviderModels) : Prop :=
  (after.others provider).Perm (before.others provider) ∧
    (after.rows.Perm before.rows ∨ ∃ names, found = some names ∧ names ≠ [] ∧
      ((after.own provider).map (·.modelName)).Perm (names.map (strippedName provider)).dedup)

theorem replacesOrKeeps_self {found : Option (List Bytes)} : ReplacesOrKeeps provider found t t :=
  ⟨.refl _, .inl (.refl _)⟩

theorem replacesOrKeeps_replaceModels_iff (hp : cstr provider = provider) :
    ReplacesOrKeeps provider (some names) t (replaceModels t provider names) ↔
      WritesAll provider names ∨ UpToDate t provider names := by
  have hfound : (∃ names', some names = some names' ∧ names' ≠ [] ∧
      (((replaceModels t provider names).own provider).map (·.modelName)).Perm
        (names'.map (strippedName provider)).dedup) ↔ WritesAll provider names := by
    rw [WritesAll, ← names_replaceModels_perm_iff (t := t) hp]
    exact ⟨fun ⟨_, heq, h⟩ => Option.some.inj heq ▸ h, fun h => ⟨names, rfl, h⟩⟩
  rw [ReplacesOrKeeps, hfound, rows_replaceModels_perm_iff hp, and_iff_right (others_replaceModels hp), or_comm]

/-- What the function does with the response: a reply of status 200 that parses is written to the table. -/
theorem syncModelsFromProvider_cases (parse : Bytes → Option Json) (get : Request → Option Response)
    (t : ProviderModels) (provider apiKey : Bytes) :
    (∃ res names, (request provider apiKey).bind get = some res ∧ res.status = 200 ∧
      namesIn parse provider res = some names ∧
      syncModelsFromProvider parse get t provider apiKey = replaceModels t provider names) ∨
    ((∀ res names, (request provider apiKey).bind get = some res → res.status = 200 →
      namesIn parse provider res ≠ some names) ∧ syncModelsFromProvider parse get t provider apiKey = t) := by
  unfold syncModelsFromProvider
  rcases hres : (request provider apiKey).bind get with _ | res
  · exact .inr ⟨nofun, rfl⟩
  · by_cases hstatus : res.status = 200
    · rcases hnames : namesIn parse provider res with _ | names
      · refine .inr ⟨fun res' names heq _ => ?_, by simp [hstatus, hnames]⟩
        obtain rfl := Option.some.inj heq
        simp [hnames]
      · exact .inl ⟨res, names, rfl, hstatus, hnames, by simp [hstatus, hnames]⟩
    · refine .inr ⟨fun res' names heq h => absurd (Option.some.inj heq ▸ h) hstatus, by simp [hstatus]⟩

/-- A sync replaces or keeps, exactly if a reply of status 200 that parses has names, none with a zero byte, or has the
rows that the table has. -/
theorem syncModelsFromProvider_replacesOrKeeps_iff (parse : Bytes → Option Json) (get : Request → Option Response)
    (t : ProviderModels) (provider apiKey : Bytes) :
    ReplacesOrKeeps provider (((request provider apiKey).bind get).bind (namesIn parse provider)) t
        (syncModelsFromProvider parse get t provider apiKey) ↔
      ∀ res names, (request provider apiKey).bind get = some res → res.status = 200 →
        namesIn parse provider res = some names → WritesAll provider names ∨ UpToDate t provider names := by
  rcases syncModelsFromProvider_cases parse get t provider apiKey with
    ⟨res, names, hres, hstatus, hnames, heq⟩ | ⟨hnone, heq⟩
  · have hp : cstr provider = provider := cstr_of_endpoint provider apiKey fun h => by simp [request, h] at hres
    rw [heq, hres, Option.bind_some, hnames, replacesOrKeeps_replaceModels_iff hp]
    constructor
    · intro h res' names' hres' _ hnames'
      obtain rfl := Option.some.inj hres'
      obtain rfl := Option.some.inj (hnames.symm.trans hnames')
      exact h
    · exact fun h => h res names rfl hstatus hnames
  · rw [heq]
    exact iff_of_true replacesOrKeeps_self fun res names hres hstatus hnames =>
      absurd hnames (hnone res names hres hstatus)

/-- One row of Groq. -/
def groqTable : ProviderModels where
  rows := [⟨ascii "GROQ", ascii "m", ascii "text", 1⟩]
  unique := List.pairwise_singleton _ _

/-- A server that replies with an empty object. -/
def emptyReply (_ : Request) : Option Response := some ⟨200, ascii "\x7b\x7d"⟩

/-- A parser that knows the empty object. -/
def parseEmptyObject (s : Bytes) : Option Json := if s = ascii "\x7b\x7d" then some (.object []) else none

/-- An empty object as the reply leaves Groq without a row. -/
theorem not_replacesOrKeeps_emptyReply :
    ¬ ReplacesOrKeeps (ascii "GROQ")
      (((request (ascii "GROQ") (ascii "key")).bind emptyReply).bind (namesIn parseEmptyObject (ascii "GROQ")))
      groqTable
      (syncModelsFromProvider parseEmptyObject emptyReply groqTable (ascii "GROQ") (ascii "key")) := by
  have hfound : ((request (ascii "GROQ") (ascii "key")).bind emptyReply).bind
      (namesIn parseEmptyObject (ascii "GROQ")) = some [] := rfl
  rintro ⟨-, hperm | ⟨names, heq, hne, -⟩⟩
  · exact absurd hperm.length_eq (by decide)
  · exact hne (Option.some.inj (hfound.symm.trans heq)).symm

end DenseLite.Engine.ProviderSync
