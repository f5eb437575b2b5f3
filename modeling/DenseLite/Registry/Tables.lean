import DenseLite.Lib.UniqueRows
import DenseLite.SessionKV.Manager
import Mathlib.Data.List.Sort

/-! # The model registry

`ModelRegistryDB` over the tables `local_models` and `model_roles`. Both are written with `INSERT OR REPLACE`, and
`local_models` has two unique columns, so a registration takes away the row of its id and the row of its path. The
foreign key of `model_roles` is not enforced. -/

namespace DenseLite.Registry.Tables

open DenseLite.Lib.ByteStream DenseLite.Lib.UniqueRows
open DenseLite.Infer.State (ascii)
open DenseLite.SessionKV.Manager (bytesLt)

/-- `LocalModelRecord`. -/
structure LocalModelRecord where
  modelId : Bytes
  filePath : Bytes
  architecture : Bytes := []
  paramCount : UInt64 := 0
  paramSizeStr : Bytes := []
  quantType : Bytes := []
  contextLength : UInt32 := 0
  isVerified : Bool := false
  updatedAt : Int64 := 0
deriving DecidableEq

/-- `ModelRoleBinding`. -/
structure ModelRoleBinding where
  role : Bytes
  modelId : Bytes
  isActive : Bool := true
  updatedAt : Int64 := 0
deriving DecidableEq

/-- The rows have the id in common or the path, which are `PRIMARY KEY` and `UNIQUE`. -/
def SameModel (r x : LocalModelRecord) : Prop := r.modelId = x.modelId ∨ r.filePath = x.filePath

instance : DecidableRel SameModel := fun _ _ => inferInstanceAs (Decidable (_ ∨ _))

/-- The rows have the role in common, which is `PRIMARY KEY`. -/
def SameRole (b x : ModelRoleBinding) : Prop := b.role = x.role

instance : DecidableRel SameRole := fun _ _ => inferInstanceAs (Decidable (_ = _))

/-- The two tables; a text of a row has no zero byte. -/
structure ModelTables where
  localModels : List LocalModelRecord
  modelRoles : List ModelRoleBinding
  uniqueModels : localModels.Pairwise fun x y => ¬ SameModel x y
  uniqueRoles : modelRoles.Pairwise fun x y => ¬ SameRole x y
  text : ∀ m ∈ localModels, 0 ∉ m.modelId ∧ 0 ∉ m.filePath

/-- A record as its statement binds it: a text ends at its first zero byte, and a record without a time gets one. -/
def boundModel (now : Int64) (rec : LocalModelRecord) : LocalModelRecord :=
  { rec with
    modelId := cstr rec.modelId
    filePath := cstr rec.filePath
    architecture := cstr rec.architecture
    paramSizeStr := cstr rec.paramSizeStr
    quantType := cstr rec.quantType
    updatedAt := if 0 < rec.updatedAt then rec.updatedAt else now }

/-- `register_model`. -/
def registerModel (now : Int64) (rec : LocalModelRecord) (t : ModelTables) : ModelTables where
  localModels := insertOrReplace SameModel (boundModel now rec) t.localModels
  modelRoles := t.modelRoles
  uniqueModels := pairwise_insertOrReplace t.uniqueModels
  uniqueRoles := t.uniqueRoles
  text := by
    intro m hm
    rcases mem_insertOrReplace.mp hm with rfl | ⟨hm, -⟩
    · exact ⟨not_mem_cstr _, not_mem_cstr _⟩
    · exact t.text m hm

/-- `delete_model`. -/
def deleteModel (modelId : Bytes) (t : ModelTables) : ModelTables where
  localModels := t.localModels.filter fun m => m.modelId ≠ cstr modelId
  modelRoles := t.modelRoles
  uniqueModels := t.uniqueModels.sublist List.filter_sublist
  uniqueRoles := t.uniqueRoles
  text := fun m hm => t.text m (List.mem_of_mem_filter hm)

/-- `bind_role`. -/
def bindRole (now : Int64) (role modelId : Bytes) (isActive : Bool) (t : ModelTables) : ModelTables :=
  { t with
    modelRoles := insertOrReplace SameRole ⟨cstr role, cstr modelId, isActive, now⟩ t.modelRoles
    uniqueRoles := pairwise_insertOrReplace t.uniqueRoles }

/-- The row of a role after `set_role_active`. -/
def toggled (now : Int64) (role : Bytes) (isActive : Bool) (b : ModelRoleBinding) : ModelRoleBinding :=
  if b.role = cstr role then { b with isActive := isActive, updatedAt := now } else b

theorem role_toggled (now : Int64) (role : Bytes) (isActive : Bool) (b : ModelRoleBinding) :
    (toggled now role isActive b).role = b.role := by
  unfold toggled
  split_ifs <;> rfl

/-- `set_role_active`. -/
def setRoleActive (now : Int64) (role : Bytes) (isActive : Bool) (t : ModelTables) : ModelTables :=
  { t with
    modelRoles := t.modelRoles.map (toggled now role isActive)
    uniqueRoles := by
      refine List.pairwise_map.mpr (t.uniqueRoles.imp fun {a b} h => ?_)
      unfold SameRole at h ⊢
      rwa [role_toggled, role_toggled] }

/-- `get_all_models`, in the order of the ids. -/
def getAllModels (t : ModelTables) : List LocalModelRecord :=
  t.localModels.insertionSort fun a b => bytesLt b.modelId a.modelId = false

theorem mem_getAllModels {m : LocalModelRecord} {t : ModelTables} : m ∈ getAllModels t ↔ m ∈ t.localModels :=
  (List.perm_insertionSort _ _).mem_iff

/-! ### Bootstrap -/

/-- The rows of `model_roles` that `bootstrap_settings_db` inserts. -/
def seedRoles : List ModelRoleBinding :=
  [(ascii "general", ascii "llama-3_2-1b-instruct-abliterated_i1-q4_0"),
    (ascii "coder", ascii "deepseek-r1-distill-qwen-1_5b-q4_0"), (ascii "compressor", ascii "smollm2"),
    (ascii "embedding", ascii "nomic_embed"), (ascii "image_gen", ascii "sdxl_lightning_4step"),
    (ascii "vision_sd", ascii "sdxl_lightning_4step"), (ascii "audio_stt", ascii "whisper_turbo"),
    (ascii "router", ascii "modernbert_router")].map fun s => ⟨s.1, s.2, true, 1700000000000⟩

/-- One row of the seed. -/
def seedRole (t : ModelTables) (b : ModelRoleBinding) : ModelTables :=
  { t with
    modelRoles := insertOrIgnore SameRole b t.modelRoles
    uniqueRoles := pairwise_insertOrIgnore t.uniqueRoles }

/-- What `bootstrap_settings_db` does to the two tables. -/
def bootstrap (t : ModelTables) : ModelTables := seedRoles.foldl seedRole t

/-- Tables without rows. -/
def empty : ModelTables := ⟨[], [], List.Pairwise.nil, List.Pairwise.nil, nofun⟩

/-- The bootstrap leaves the models alone. -/
theorem localModels_bootstrap (t : ModelTables) : (bootstrap t).localModels = t.localModels := by
  have hfold : ∀ (bs : List ModelRoleBinding) (t : ModelTables), (bs.foldl seedRole t).localModels = t.localModels := by
    intro bs
    induction bs with
    | nil => exact fun _ => rfl
    | cons b bs ih => exact fun t => ih (seedRole t b)
  exact hfold seedRoles t

theorem modelRoles_bootstrap (t : ModelTables) : (bootstrap t).modelRoles =
    seedRoles.foldl (fun rows b => insertOrIgnore SameRole b rows) t.modelRoles := by
  have hfold : ∀ (bs : List ModelRoleBinding) (t : ModelTables),
      (bs.foldl seedRole t).modelRoles = bs.foldl (fun rows b => insertOrIgnore SameRole b rows) t.modelRoles := by
    intro bs
    induction bs with
    | nil => exact fun _ => rfl
    | cons b bs ih => exact fun t => ih (seedRole t b)
  exact hfold seedRoles t

/-! ### What a registration does -/

section Facts

variable {now : Int64} {rec m : LocalModelRecord} {t : ModelTables}

/-- An id is registered. -/
def Registered (t : ModelTables) (modelId : Bytes) : Prop := ∃ m ∈ t.localModels, m.modelId = modelId

instance (t : ModelTables) (modelId : Bytes) : Decidable (Registered t modelId) :=
  inferInstanceAs (Decidable (∃ m ∈ _, _))

/-- A row is lost to a registration when it has its id or its path. -/
theorem mem_registerModel : m ∈ (registerModel now rec t).localModels ↔
    m = boundModel now rec ∨ m ∈ t.localModels ∧ cstr rec.modelId ≠ m.modelId ∧ cstr rec.filePath ≠ m.filePath := by
  unfold registerModel
  rw [mem_insertOrReplace]
  exact or_congr_right (and_congr_right fun _ => not_or)

theorem registered_registerModel : Registered (registerModel now rec t) (cstr rec.modelId) :=
  ⟨boundModel now rec, mem_insertOrReplace_self, rfl⟩

/-- Two rows with one id are one. -/
theorem eq_of_modelId {m m' : LocalModelRecord} (hm : m ∈ t.localModels) (hm' : m' ∈ t.localModels)
    (h : m.modelId = m'.modelId) : m = m' := by
  have hsymm : Std.Symm fun x y => ¬ SameModel x y := ⟨fun _ _ hxy hyx => hxy (hyx.imp Eq.symm Eq.symm)⟩
  by_contra hne
  exact t.uniqueModels.forall hm hm' hne (Or.inl h)

end Facts

end DenseLite.Registry.Tables
