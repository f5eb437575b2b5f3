import DenseLite.Infer.State
import DenseLite.Lib.Greedy
import DenseLite.Models.Manager
import Mathlib.Data.List.Dedup

/-! # Resident models

`load_resident_models` goes through the role bindings and gives every file that it loads a device. Its check asks
whether the file fits into what is free on the device, and nothing is charged to the device afterwards: every file
that fits alone is marked for the GPU (`gpuFiles_eq`), whether or not they fit together. -/

namespace DenseLite.Models.Resident

open DenseLite.Lib.ByteStream DenseLite.Lib.KeyMap DenseLite.Lib.Greedy
open DenseLite.Models.Manager (VulkanDevice)
open DenseLite.Infer.State (ascii)

/-! ### The data -/

/-- `DeviceContext`. -/
inductive DeviceContext
  | CPU | GPU
deriving DecidableEq, Repr

/-- `ModelRoleBinding`, as far as the loop reads it. -/
structure ModelRoleBinding where
  role : Bytes
  modelId : Bytes
deriving DecidableEq, Repr

/-- `LocalModelRecord`, with the path that `resolve_model_path` makes of its own. -/
structure LocalModelRecord where
  modelId : Bytes
  path : Bytes
  architecture : Bytes
  isVerified : Bool
deriving DecidableEq, Repr

/-- What the loop reads: the registry, the sizes of files (0 where there is none), whether `load_model` succeeds,
and the product of a size and the headroom multiplier. -/
structure Host where
  getModel : Bytes → Option LocalModelRecord
  fileSize : Bytes → UInt64
  loads : Bytes → Bool
  headroom : UInt64 → UInt64

/-- A resident model: its file, its id and its device. -/
structure ResidentModel where
  path : Bytes
  modelId : Bytes
  executionContext : DeviceContext
deriving DecidableEq, Repr

/-- The state of the loop. `loaded` are the files that were loaded, with the device each was given. -/
structure LoopState where
  device : VulkanDevice
  availableRam : UInt64
  pathToLoadedRole : List (Bytes × Bytes) := []
  residentModels : List (Bytes × ResidentModel)
  loaded : List (Bytes × DeviceContext) := []
deriving DecidableEq, Repr

/-! ### The code -/

/-- `get_role_priority`. -/
def getRolePriority (role : Bytes) : ℕ :=
  if role = ascii "router" then 1
  else if role = ascii "embedding" then 2
  else if role = ascii "general" then 3
  else if role = ascii "compressor" then 4
  else if role = ascii "coder" then 5
  else if role = ascii "audio_stt" then 6
  else if role = ascii "image_gen" ∨ role = ascii "vision_sd" then 7
  else 99

/-- `overhead`: 200 MB for files of less than 3 GB, else 300 MB. -/
def overhead (fileBytes : UInt64) : UInt64 :=
  if fileBytes < 3 * 1024 * 1024 * 1024 then 200 * 1024 * 1024 else 300 * 1024 * 1024

/-- `ResourceGovernor::can_admit_gpu_vram`. -/
def canAdmitGpuVram (d : VulkanDevice) (modelBytes staticOverheadBytes : UInt64) : Bool :=
  d.available ∧
    modelBytes + staticOverheadBytes ≤
      if d.allocatedBytes < d.safeCeilingBytes then d.safeCeilingBytes - d.allocatedBytes else 0

/-- What the loop does with a binding. -/
inductive Turn
  | skip
  | share (srcRole : Bytes)
  | load (r : LocalModelRecord)

/-- A role that is loaded on demand only. -/
def onDemand (role architecture : Bytes) : Bool :=
  role = ascii "audio_stt" ∨ role = ascii "image_gen" ∨ architecture = ascii "whisper" ∨
    architecture = ascii "diffusion"

section Loop

variable (host : Host)

/-- The decisions of a round. -/
def turn (availableRam : UInt64) (pathToLoadedRole : List (Bytes × Bytes)) (b : ModelRoleBinding) : Turn :=
  match host.getModel b.modelId with
  | none => .skip
  | some r =>
    if ¬ r.isVerified ∨ b.role = ascii "router" then .skip
    else if 5 ≤ getRolePriority b.role ∧ onDemand b.role r.architecture then .skip
    else if 5 ≤ getRolePriority b.role ∧ availableRam < host.headroom (host.fileSize r.path) then .skip
    else
      match find r.path pathToLoadedRole with
      | some srcRole => .share srcRole
      | none => if host.loads r.path then .load r else .skip

/-- The other names of the model of a role. -/
def aliases (role : Bytes) : List Bytes :=
  if role = ascii "general" then [ascii "llama_main", ascii "qwen_main", ascii "qwen25_main"]
  else if role = ascii "coder" then [ascii "deepseek_coder", ascii "qwen_coder", ascii "qwen25_coder"]
  else if role = ascii "compressor" then [ascii "smollm2"]
  else if role = ascii "embedding" then [ascii "nomic", ascii "nomic_embed"]
  else []

/-- `resident_models[key] = m`. -/
def assign (models : List (Bytes × ResidentModel)) (key : Bytes) (m : ResidentModel) :
    List (Bytes × ResidentModel) := (key, m) :: erase key models

/-- A model under its role, its id and the other names of the role. -/
def nameModel (models : List (Bytes × ResidentModel)) (b : ModelRoleBinding) (m : ResidentModel) :
    List (Bytes × ResidentModel) := (b.role :: b.modelId :: aliases b.role).foldl (assign · · m) models

/-- What is left of the memory after a file is loaded. -/
def ramAfter (availableRam fileBytes : UInt64) : UInt64 :=
  if fileBytes < availableRam then availableRam - fileBytes else 0

/-- One round of the loop. -/
def round (s : LoopState) (b : ModelRoleBinding) : LoopState :=
  match turn host s.availableRam s.pathToLoadedRole b with
  | .skip => s
  | .share srcRole =>
    match find srcRole s.residentModels with
    | none => s
    | some m => { s with residentModels := nameModel s.residentModels b m }
  | .load r =>
    let fileBytes := host.fileSize r.path
    let executionContext :=
      if canAdmitGpuVram s.device fileBytes (overhead fileBytes) then DeviceContext.GPU else DeviceContext.CPU
    { s with
      residentModels := nameModel s.residentModels b ⟨r.path, r.modelId, executionContext⟩
      pathToLoadedRole := (r.path, b.role) :: s.pathToLoadedRole
      availableRam := ramAfter s.availableRam fileBytes
      loaded := s.loaded ++ [(r.path, executionContext)] }

/-- `load_resident_models`, for the bindings in the order in which they are sorted. The device is made at the
beginning, so it counts nothing as allocated. -/
def loadResidentModels (available : Bool) (safeCeilingBytes availableRam : UInt64)
    (residentModels : List (Bytes × ResidentModel)) (bindings : List ModelRoleBinding) : LoopState :=
  bindings.foldl (round host)
    { device := { available, safeCeilingBytes }, availableRam, residentModels }

end Loop

/-- The files that are marked for the GPU. -/
def gpuFiles (s : LoopState) : List Bytes := (s.loaded.filter fun p => p.2 = .GPU).map Prod.fst

/-! ### What is marked and what fits -/

section Marks

variable (host : Host)

/-- The files that the loop loads, whatever device there is. -/
def filesLoaded (availableRam : UInt64) (pathToLoadedRole : List (Bytes × Bytes)) :
    List ModelRoleBinding → List Bytes
  | [] => []
  | b :: bindings =>
    match turn host availableRam pathToLoadedRole b with
    | .load r => r.path :: filesLoaded (ramAfter availableRam (host.fileSize r.path))
        ((r.path, b.role) :: pathToLoadedRole) bindings
    | _ => filesLoaded availableRam pathToLoadedRole bindings

/-- What a file needs on the device. -/
def need (path : Bytes) : ℕ := (host.fileSize path).toNat + (overhead (host.fileSize path)).toNat

/-- A file that fits into the device alone. The need is added up in 64 bits. -/
def fitsAlone (available : Bool) (safeCeilingBytes : UInt64) (path : Bytes) : Bool :=
  available ∧ host.fileSize path + overhead (host.fileSize path) ≤ safeCeilingBytes

variable {host} {available : Bool} {safeCeilingBytes : UInt64} {s : LoopState}

theorem canAdmitGpuVram_new (path : Bytes) :
    canAdmitGpuVram { available, safeCeilingBytes } (host.fileSize path) (overhead (host.fileSize path)) =
      fitsAlone host available safeCeilingBytes path := by
  have hfree : (if (0 : UInt64) < safeCeilingBytes then safeCeilingBytes - 0 else 0) = safeCeilingBytes := by
    split_ifs with h
    · exact UInt64.sub_zero _
    · exact (UInt64.le_zero_iff.mp (UInt64.not_lt.mp h)).symm
  unfold canAdmitGpuVram fitsAlone
  rw [hfree]

/-- A file that is loaded was not loaded before. -/
theorem turn_load {availableRam : UInt64} {pathToLoadedRole : List (Bytes × Bytes)} {b : ModelRoleBinding}
    {r : LocalModelRecord} (h : turn host availableRam pathToLoadedRole b = .load r) :
    r.path ∉ keys pathToLoadedRole := by
  unfold turn at h
  cases hrec : host.getModel b.modelId with
  | none => simp [hrec] at h
  | some r' =>
    cases hfind : find r'.path pathToLoadedRole with
    | some srcRole =>
      simp only [hrec, hfind] at h
      split_ifs at h
    | none =>
      simp only [hrec, hfind] at h
      split_ifs at h
      cases h
      exact find_eq_none_iff.mp hfind

/-- A binding that loads nothing changes only the names. -/
theorem round_of_ne_load {b : ModelRoleBinding}
    (h : ∀ r, turn host s.availableRam s.pathToLoadedRole b ≠ .load r) :
    ∃ models, round host s b = { s with residentModels := models } := by
  unfold round
  cases hturn : turn host s.availableRam s.pathToLoadedRole b with
  | skip => exact ⟨s.residentModels, rfl⟩
  | share srcRole =>
    dsimp only
    cases find srcRole s.residentModels with
    | none => exact ⟨s.residentModels, rfl⟩
    | some m => exact ⟨_, rfl⟩
  | load r => exact absurd hturn (h r)

theorem filesLoaded_of_ne_load {availableRam : UInt64} {pathToLoadedRole : List (Bytes × Bytes)}
    {b : ModelRoleBinding} {bindings : List ModelRoleBinding}
    (h : ∀ r, turn host availableRam pathToLoadedRole b ≠ .load r) :
    filesLoaded host availableRam pathToLoadedRole (b :: bindings) =
      filesLoaded host availableRam pathToLoadedRole bindings := by
  rw [filesLoaded]
  cases hturn : turn host availableRam pathToLoadedRole b with
  | skip => rfl
  | share srcRole => rfl
  | load r => exact absurd hturn (h r)

theorem filesLoaded_of_load {availableRam : UInt64} {pathToLoadedRole : List (Bytes × Bytes)}
    {b : ModelRoleBinding} {bindings : List ModelRoleBinding} {r : LocalModelRecord}
    (h : turn host availableRam pathToLoadedRole b = .load r) :
    filesLoaded host availableRam pathToLoadedRole (b :: bindings) =
      r.path :: filesLoaded host (ramAfter availableRam (host.fileSize r.path))
        ((r.path, b.role) :: pathToLoadedRole) bindings := by
  rw [filesLoaded, h]

/-- **The device never changes**, and the files that are loaded are marked if they fit alone. -/
theorem loaded_foldl_round (bindings : List ModelRoleBinding) : ∀ s : LoopState,
    s.device = { available, safeCeilingBytes } →
    (bindings.foldl (round host) s).loaded =
      s.loaded ++ (filesLoaded host s.availableRam s.pathToLoadedRole bindings).map fun path =>
        (path, if fitsAlone host available safeCeilingBytes path then .GPU else .CPU) := by
  induction bindings with
  | nil => intro s _; simp [filesLoaded]
  | cons b bindings ih =>
    intro s hdevice
    rw [List.foldl_cons]
    by_cases hload : ∃ r, turn host s.availableRam s.pathToLoadedRole b = .load r
    · obtain ⟨r, hr⟩ := hload
      have hround : (round host s b).device = { available, safeCeilingBytes } := by
        unfold round
        rw [hr]
        exact hdevice
      rw [ih _ hround, filesLoaded_of_load hr]
      unfold round
      rw [hr]
      dsimp only
      rw [hdevice, canAdmitGpuVram_new, List.map_cons, List.append_assoc, List.singleton_append]
    · have hne := not_exists.mp hload
      obtain ⟨models, hround⟩ := round_of_ne_load hne
      rw [hround, ih { s with residentModels := models } hdevice, filesLoaded_of_ne_load hne]

/-- No file is loaded twice. -/
theorem nodup_filesLoaded (bindings : List ModelRoleBinding) :
    ∀ (availableRam : UInt64) (pathToLoadedRole : List (Bytes × Bytes)),
      (filesLoaded host availableRam pathToLoadedRole bindings).Nodup ∧
        ∀ path ∈ filesLoaded host availableRam pathToLoadedRole bindings, path ∉ keys pathToLoadedRole := by
  induction bindings with
  | nil => intro ram seen; exact ⟨List.nodup_nil, by simp [filesLoaded]⟩
  | cons b bindings ih =>
    intro ram seen
    by_cases hload : ∃ r, turn host ram seen b = .load r
    · obtain ⟨r, hr⟩ := hload
      obtain ⟨hnodup, hnew⟩ := ih (ramAfter ram (host.fileSize r.path)) ((r.path, b.role) :: seen)
      rw [filesLoaded_of_load hr]
      refine ⟨List.nodup_cons.mpr ⟨fun hmem => hnew _ hmem List.mem_cons_self, hnodup⟩, fun path hpath => ?_⟩
      rcases List.mem_cons.mp hpath with rfl | hrest
      · exact turn_load hr
      · exact fun hmem => hnew path hrest (List.mem_cons_of_mem _ hmem)
    · rw [filesLoaded_of_ne_load (not_exists.mp hload)]
      exact ih ram seen

/-- **The files on the GPU** are those that are loaded and fit alone. -/
theorem gpuFiles_eq (availableRam : UInt64) (residentModels : List (Bytes × ResidentModel))
    (bindings : List ModelRoleBinding) :
    gpuFiles (loadResidentModels host available safeCeilingBytes availableRam residentModels bindings) =
      (filesLoaded host availableRam [] bindings).filter (fitsAlone host available safeCeilingBytes) := by
  unfold gpuFiles loadResidentModels
  rw [loaded_foldl_round bindings _ rfl, List.nil_append, List.filter_map, List.map_map]
  have hid : (Prod.fst ∘ fun path => (path, if fitsAlone host available safeCeilingBytes path then
      DeviceContext.GPU else DeviceContext.CPU)) = id := rfl
  rw [hid, List.map_id]
  refine List.filter_congr fun path _ => ?_
  cases hfits : fitsAlone host available safeCeilingBytes path with
  | false => simp [hfits]
  | true => simp [hfits]

/-- **The files on the GPU stay within the ceiling** if and only if the loaded files that fit into the device one by
one fit together into what `before` bytes have left of it. -/
theorem gpuFiles_within_ceiling_iff (host : Host) (available : Bool) (safeCeilingBytes availableRam : UInt64)
    (residentModels : List (Bytes × ResidentModel)) (bindings : List ModelRoleBinding) (before : ℕ) :
    total (need host) (gpuFiles (loadResidentModels host available safeCeilingBytes availableRam residentModels
        bindings)).dedup ≤ safeCeilingBytes.toNat - before ↔
      total (need host) ((filesLoaded host availableRam [] bindings).filter
        (fitsAlone host available safeCeilingBytes)) ≤ safeCeilingBytes.toNat - before := by
  rw [gpuFiles_eq, List.dedup_eq_self.mpr ((nodup_filesLoaded bindings availableRam []).1.filter _)]

end Marks

/-- A host with two files of 4 GB and their records. -/
def twoFiles : Host where
  getModel id := if id = ascii "a" ∨ id = ascii "b" then some ⟨id, id, ascii "llama", true⟩ else none
  fileSize _ := 4 * 1024 * 1024 * 1024
  loads _ := true
  headroom := id

/-- The models of two roles are put on a device of 6 GB. -/
theorem gpuFiles_twoFiles : ¬ total (need twoFiles) (gpuFiles (loadResidentModels twoFiles true
    (6 * 1024 * 1024 * 1024) (16 * 1024 * 1024 * 1024) []
    [⟨ascii "general", ascii "a"⟩, ⟨ascii "compressor", ascii "b"⟩])).dedup ≤ 6 * 1024 * 1024 * 1024 - 0 := by
  decide

end DenseLite.Models.Resident
