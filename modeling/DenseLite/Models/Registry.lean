import DenseLite.Lib.OrderedMap
import DenseLite.Models.Budget
import DenseLite.SessionKV.Manager

/-! # The registry of the model manager

A role is given to the first id that is registered for it, and a later registration replaces what is known of its id.
So a role leads to the newest descriptor of its first id (`getByRole_run`), which may have another role by then. After
`initialize_from_env` it does not: every role leads to the file that the environment names for it
(`getByRole_initializeFromEnv`). -/

namespace DenseLite.Models.Registry

open DenseLite.Lib.ByteStream DenseLite.Lib.KeyMap DenseLite.Lib.OrderedMap
open DenseLite.Infer.State (ascii ascii_ofList)
open DenseLite.Models.Manager DenseLite.Models.Budget
open DenseLite.SessionKV.Manager (bytesLt)

/-! ### The registry -/

/-- `ModelDescriptor`, with the fields that `load` does not read. -/
structure RegisteredModel extends ModelDescriptor where
  id : Bytes
  role : ModelRole
  filePath : Bytes
deriving DecidableEq

/-- The order of the roles. -/
def roleLt (r r' : ModelRole) : Bool := r.ctorIdx < r'.ctorIdx

/-- `ModelRegistry`. -/
structure ModelRegistry where
  modelsById : List (Bytes × RegisteredModel) := []
  primaryModelForRole : List (ModelRole × Bytes) := []

/-- `ModelRegistry::register_model`. -/
def registerModel (r : ModelRegistry) (desc : RegisteredModel) : ModelRegistry where
  modelsById := assignBy bytesLt desc.id desc r.modelsById
  primaryModelForRole :=
    if find desc.role r.primaryModelForRole = none then assignBy roleLt desc.role desc.id r.primaryModelForRole
    else r.primaryModelForRole

/-- `ModelRegistry::get`. -/
def get (id : Bytes) (r : ModelRegistry) : Option RegisteredModel := find id r.modelsById

/-- `ModelRegistry::get_by_role`. -/
def getByRole (role : ModelRole) (r : ModelRegistry) : Option RegisteredModel :=
  (find role r.primaryModelForRole).bind fun id => get id r

/-! ### Runs -/

section Run

variable {descs : List RegisteredModel} {id : Bytes} {role : ModelRole}

/-- An id has the descriptor that was registered last. -/
theorem get_run (r : ModelRegistry) (descs : List RegisteredModel) (id : Bytes) :
    get id (descs.foldl registerModel r) = (descs.reverse.find? fun d => d.id = id).or (get id r) := by
  induction descs generalizing r with
  | nil => rfl
  | cons d descs ih =>
    rw [List.foldl_cons, ih, List.reverse_cons, List.find?_append, Option.or_assoc]
    congr 1
    by_cases hid : d.id = id
    · subst hid
      simp [get, registerModel]
    · simp [get, registerModel, find_assignBy_of_ne (Ne.symm hid), hid]

/-- A role keeps the first id. -/
theorem primary_run (r : ModelRegistry) (descs : List RegisteredModel) (role : ModelRole) :
    find role (descs.foldl registerModel r).primaryModelForRole =
      (find role r.primaryModelForRole).or ((descs.find? fun d => d.role = role).map (·.id)) := by
  induction descs generalizing r with
  | nil => simp
  | cons d descs ih =>
    rw [List.foldl_cons, ih, List.find?_cons]
    by_cases hrole : d.role = role
    · subst hrole
      cases hfind : find d.role r.primaryModelForRole with
      | none => simp [registerModel, hfind]
      | some id => simp [registerModel, hfind]
    · have hkept : find role (registerModel r d).primaryModelForRole = find role r.primaryModelForRole := by
        simp only [registerModel]
        split_ifs
        · exact find_assignBy_of_ne (Ne.symm hrole)
        · rfl
      simp [hkept, hrole]

/-- **What a role leads to** after any registrations is the newest descriptor of the id that was the first to be
registered for it. -/
theorem getByRole_run (descs : List RegisteredModel) (role : ModelRole) :
    getByRole role (descs.foldl registerModel {}) =
      (descs.find? fun d => d.role = role).bind fun first => descs.reverse.find? fun d => d.id = first.id := by
  have hempty : ∀ id : Bytes, get id {} = none := fun _ => rfl
  rw [getByRole, primary_run]
  cases hfirst : descs.find? fun d => d.role = role with
  | none => rfl
  | some first =>
    change get first.id _ = _
    rw [get_run, hempty, Option.or_none]
    rfl

end Run

/-! ### The environment -/

/-- What `initialize_from_env` reads: the base directory, the variables, and the sizes of the files that exist. A path
that `file_size` throws for, such as that of a directory, is left out. -/
structure Surroundings where
  baseDir : Bytes
  env : Bytes → Option Bytes
  fileSize : Bytes → Option UInt64

/-- A call of `register_def`. -/
structure Definition where
  id : Bytes
  role : ModelRole
  envKeys : List Bytes

variable (w : Surroundings)

/-- `filename`: the value of the first variable that is set, even if it is empty. -/
def filenameOf (envKeys : List Bytes) : Bytes := ((envKeys.find? fun k => (w.env k).isSome).bind w.env).getD []

/-- The descriptor of a file in the directory of the models. -/
def described (d : Definition) : RegisteredModel :=
  let fullPath := w.baseDir ++ ascii "/models/" ++ filenameOf w d.envKeys
  { id := d.id
    role := d.role
    filePath := fullPath
    isGguf := true
    placementPolicy := .GPU_PREFERRED
    estimatedWeightBytes := (w.fileSize fullPath).getD 0
    estimatedScratchBytes := (w.fileSize fullPath).elim 0 fun size => max (64 * 1024 * 1024) (size / 8) }

/-- `register_def`. -/
def registerDef (r : ModelRegistry) (d : Definition) : ModelRegistry :=
  if filenameOf w d.envKeys = [] then r else registerModel r (described w d)

/-- `router_desc`. -/
def routerDesc : RegisteredModel :=
  let filePath := w.baseDir ++ ascii "/models/modernbert"
  { id := ascii "modernbert"
    role := .ROUTER
    filePath := filePath
    isGguf := false
    placementPolicy := .CPU_RAM_ONLY
    estimatedWeightBytes := (w.fileSize (filePath ++ ascii "/model.onnx")).getD (398 * 1024 * 1024)
    estimatedScratchBytes := 64 * 1024 * 1024 }

/-- The variables that name the file of a role. -/
def envKeysOf : ModelRole → List Bytes
  | .ROUTER => []
  | .EMBEDDING => [ascii "MODEL_NOMIC_FILE"]
  | .FORMATTER => [ascii "MODEL_SMOLLM2_FILE"]
  | .GENERAL_REASONER => [ascii "MODEL_MAIN_FILE", ascii "MODEL_LLAMA_FILE", ascii "MODEL_QWEN_MAIN_FILE"]
  | .CODER => [ascii "MODEL_CODER_FILE", ascii "MODEL_DEEPSEEK_FILE", ascii "MODEL_QWEN_CODER_FILE"]
  | .SPEECH_TO_TEXT => [ascii "MODEL_WHISPER_FILE"]
  | .IMAGE_GENERATOR => [ascii "MODEL_VISION_FILE", ascii "MODEL_SD_FILE"]

/-- The calls of `register_def`, in their order. -/
def definitions : List Definition :=
  [(ascii "nomic", ModelRole.EMBEDDING), (ascii "smollm2", .FORMATTER), (ascii "general", .GENERAL_REASONER),
    (ascii "llama_main", .GENERAL_REASONER), (ascii "qwen_main", .GENERAL_REASONER), (ascii "coder", .CODER),
    (ascii "deepseek_coder", .CODER), (ascii "qwen_coder", .CODER), (ascii "whisper", .SPEECH_TO_TEXT),
    (ascii "whisper_turbo", .SPEECH_TO_TEXT), (ascii "audio_stt", .SPEECH_TO_TEXT), (ascii "vision", .IMAGE_GENERATOR),
    (ascii "sdxl_lightning", .IMAGE_GENERATOR), (ascii "stable_diffusion", .IMAGE_GENERATOR)].map
      fun d => ⟨d.1, d.2, envKeysOf d.2⟩

/-- `ModelManager::initialize_from_env`. -/
def initializeFromEnv (r : ModelRegistry) : ModelRegistry :=
  definitions.foldl (registerDef w) (registerModel r (routerDesc w))

/-! ### The roles after the start -/

/-- What the start registers, in its order. -/
def startList : List RegisteredModel :=
  routerDesc w :: (definitions.filter fun d => filenameOf w d.envKeys ≠ []).map (described w)

/-- The id that a role leads to after the start. -/
def firstId : ModelRole → Bytes
  | .ROUTER => ascii "modernbert"
  | .EMBEDDING => ascii "nomic"
  | .FORMATTER => ascii "smollm2"
  | .GENERAL_REASONER => ascii "general"
  | .CODER => ascii "coder"
  | .SPEECH_TO_TEXT => ascii "whisper"
  | .IMAGE_GENERATOR => ascii "vision"

/-- The descriptor that a role leads to after the start. -/
def descriptorOf (role : ModelRole) : RegisteredModel := described w ⟨firstId role, role, envKeysOf role⟩

section Start

variable {w} {role : ModelRole} {descs : List RegisteredModel}

theorem foldl_registerDef (ds : List Definition) (r : ModelRegistry) : ds.foldl (registerDef w) r =
    ((ds.filter fun d => filenameOf w d.envKeys ≠ []).map (described w)).foldl registerModel r := by
  induction ds generalizing r with
  | nil => rfl
  | cons d ds ih =>
    rw [List.foldl_cons, ih]
    by_cases hname : filenameOf w d.envKeys = []
    · simp [registerDef, hname]
    · simp [registerDef, hname]

theorem initializeFromEnv_eq : initializeFromEnv w {} = (startList w).foldl registerModel {} :=
  foldl_registerDef definitions _

/-- If no id is registered twice, a role leads to the first descriptor that has it. -/
theorem getByRole_of_nodup (h : (descs.map (·.id)).Nodup) :
    getByRole role (descs.foldl registerModel {}) = descs.find? fun d => d.role = role := by
  rw [getByRole_run]
  cases hfirst : descs.find? fun d => d.role = role with
  | none => rfl
  | some first =>
    have hmem := List.mem_of_find?_eq_some hfirst
    rw [Option.bind_some]
    cases hlast : descs.reverse.find? fun d => d.id = first.id with
    | none =>
      have hnone := List.find?_eq_none.mp hlast first (List.mem_reverse.mpr hmem)
      simp at hnone
    | some last =>
      have hid : last.id = first.id := by simpa using List.find?_some hlast
      have hlastMem := List.mem_reverse.mp (List.mem_of_find?_eq_some hlast)
      rw [List.inj_on_of_nodup_map h hlastMem hmem hid]

theorem nodup_ids : (definitions.map (·.id)).Nodup ∧ ascii "modernbert" ∉ definitions.map (·.id) := by
  unfold definitions
  repeat rw [ascii_ofList]
  decide +kernel

theorem nodup_startList : ((startList w).map (·.id)).Nodup := by
  have hsub : ((definitions.filter fun d => filenameOf w d.envKeys ≠ []).map (·.id)).Sublist (definitions.map (·.id)) :=
    List.filter_sublist.map _
  have hmap : (startList w).map (·.id) =
      ascii "modernbert" :: (definitions.filter fun d => filenameOf w d.envKeys ≠ []).map (·.id) := by
    simp [startList, routerDesc, described, Function.comp_def]
  rw [hmap]
  exact List.nodup_cons.mpr ⟨fun h => nodup_ids.2 (hsub.subset h), nodup_ids.1.sublist hsub⟩

/-- The variables of a definition are those of its role. -/
theorem envKeys_of_mem {d : Definition} (hd : d ∈ definitions) : d.envKeys = envKeysOf d.role := by
  obtain ⟨s, -, rfl⟩ := List.mem_map.mp hd
  rfl

theorem find_definitions (hrole : role ≠ .ROUTER) :
    (definitions.find? fun d => d.role = role) = some ⟨firstId role, role, envKeysOf role⟩ := by
  cases role with
  | ROUTER => exact absurd rfl hrole
  | EMBEDDING | FORMATTER | GENERAL_REASONER | CODER | SPEECH_TO_TEXT | IMAGE_GENERATOR => rfl

theorem find_startList (hrole : role ≠ .ROUTER) : ((startList w).find? fun d => d.role = role) =
    if filenameOf w (envKeysOf role) = [] then none else some (descriptorOf w role) := by
  have hrouter : (routerDesc w).role ≠ role := Ne.symm hrole
  rw [startList, List.find?_cons_of_neg (by simpa using hrouter), List.find?_map, List.find?_filter]
  split_ifs with hname
  · rw [Option.map_eq_none_iff, List.find?_eq_none]
    intro d hd
    have hkeys := envKeys_of_mem hd
    simp only [Function.comp_apply, described, decide_eq_true_eq, not_and]
    intro hfile hrole'
    rw [hkeys, of_decide_eq_true hrole'] at hfile
    exact hfile hname
  · obtain ⟨-, before, after, heq, hbefore⟩ := List.find?_eq_some_iff_append.mp (find_definitions hrole)
    have hfirst : (definitions.find? fun d => filenameOf w d.envKeys ≠ [] ∧ (described w d).role = role) =
        some ⟨firstId role, role, envKeysOf role⟩ := by
      refine List.find?_eq_some_iff_append.mpr ⟨by simp [hname, described], before, after, heq, fun d hd => ?_⟩
      have hother := hbefore d hd
      simp only [Bool.not_eq_true', decide_eq_false_iff_not] at hother
      simp [described, hother]
    simp only [Function.comp_apply, decide_eq_true_eq] at hfirst ⊢
    rw [hfirst]
    rfl

/-- **The roles after the start.** A role leads to its first id, with the file that the first set variable of the role
names; if that variable is empty or none is set, the role leads nowhere, even if a later variable names a file. -/
theorem getByRole_initializeFromEnv (w : Surroundings) (role : ModelRole) :
    getByRole role (initializeFromEnv w {}) =
      if role = .ROUTER then some (routerDesc w)
      else if filenameOf w (envKeysOf role) = [] then none else some (descriptorOf w role) := by
  rw [initializeFromEnv_eq, getByRole_of_nodup nodup_startList]
  split_ifs with hrole hname
  · subst hrole
    rfl
  · rw [find_startList hrole, if_pos hname]
  · rw [find_startList hrole, if_neg hname]

end Start

end DenseLite.Models.Registry
