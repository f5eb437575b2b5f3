import DenseLite.Lib.Adoption
import DenseLite.Registry.Inspection
import DenseLite.Registry.Tables

/-! # Discovery

`ModelDiscovery::auto_discover_and_register` goes through the files of the search directories. A file that fits a
record, by the id that is derived from its name or by its bare name, is taken for the file of that record, which moves
there if its own file is missing; a file that fits none is registered. `visit_cases` says what one file does. -/

namespace DenseLite.Registry.Discovery

open DenseLite.Lib.ByteStream DenseLite.Lib.Adoption DenseLite.Registry.Tables DenseLite.Registry.Inspection
open DenseLite.Infer.State (ascii occursIn)
open DenseLite.Memory.Cache (lower)

/-! ### Files and ids -/

/-- The files, some of which cannot be opened, and the regular files in the search directories in the order in which
they are found. The system takes a path up to its first zero byte. -/
structure Disk where
  entry : Bytes → Option (Option Bytes)
  found : List Bytes
  found_exists : ∀ path ∈ found, (entry path).isSome = true
  found_text : ∀ path ∈ found, 0 ∉ path

/-- `fs::exists`. -/
def Disk.exists (disk : Disk) (path : Bytes) : Bool := (disk.entry (cstr path)).isSome

/-- The parts of a name that tell a known model, and its id. -/
def knownIds : List (List Bytes × Bytes) :=
  [([ascii "llama-3.2-1b", ascii "llama-3_2"], ascii "llama-3_2-1b-instruct-abliterated_i1-q4_0"),
    ([ascii "deepseek-r1"], ascii "deepseek-r1-distill-qwen-1_5b-q4_0"),
    ([ascii "qwen2.5-coder"], ascii "qwen25_coder"), ([ascii "qwen2.5"], ascii "qwen25_main"),
    ([ascii "smollm2", ascii "smol"], ascii "smollm2"), ([ascii "nomic-embed", ascii "nomic"], ascii "nomic_embed"),
    ([ascii "whisper-large-v3-turbo", ascii "turbo"], ascii "whisper_turbo"),
    ([ascii "whisper", ascii "ggml-base"], ascii "whisper_base"),
    ([ascii "sdxl_lightning", ascii "sdxl-lightning"], ascii "sdxl_lightning_4step"),
    ([ascii "stable-diffusion", ascii "sd15"], ascii "sd15")]

/-- A byte of a name as it stands in an id. -/
def cleanByte (c : UInt8) : UInt8 :=
  if 0x30 ≤ c ∧ c ≤ 0x39 ∨ 0x61 ≤ c ∧ c ≤ 0x7a ∨ c = 0x5f ∨ c = 0x2d then c
  else if 0x41 ≤ c ∧ c ≤ 0x5a then c + 0x20
  else 0x5f

/-- `derive_model_id`. -/
def deriveModelId (name : Bytes) : Bytes :=
  match knownIds.find? fun known => known.1.any fun part => occursIn part (lower name) with
  | some known => known.2
  | none =>
    let clean := (stem name).map cleanByte
    if clean = [] then ascii "custom_model" else clean

/-- The kinds of files that are registered. -/
inductive Kind
  | gguf | audio | diffusion
deriving DecidableEq

/-- The kind of a file, by its name. -/
def kindOf (path : Bytes) : Option Kind :=
  if extension path = ascii ".gguf" then some .gguf
  else if filename path = ascii "ggml-base.en.bin" ∨ occursIn (ascii "whisper") (filename path) then some .audio
  else if extension path = ascii ".safetensors" ∨ occursIn (ascii "v1-5-pruned") (filename path) then some .diffusion
  else none

/-- The id that a file is registered under. -/
def identify (path : Bytes) : Option Bytes :=
  (kindOf path).map fun
    | .gguf => deriveModelId (filename path)
    | .audio => ascii "whisper_base"
    | .diffusion => ascii "sd15"

/-- The id is that of the bare name. -/
theorem identify_congr {path path' : Bytes} (h : filename path = filename path') : identify path = identify path' := by
  unfold identify kindOf extension
  rw [h]

/-! ### Roles -/

/-- One branch of `bind_roles_for_id`: the ids that it is for, the role that must be free, the roles that are bound. -/
structure RoleRule where
  ids : List Bytes
  role : Bytes
  binds : List Bytes

/-- The branches of `bind_roles_for_id`. -/
def roleRules : List RoleRule :=
  [⟨[ascii "llama-3_2-1b-instruct-abliterated_i1-q4_0", ascii "qwen25_main"], ascii "general", [ascii "general"]⟩,
    ⟨[ascii "deepseek-r1-distill-qwen-1_5b-q4_0", ascii "qwen25_coder"], ascii "coder", [ascii "coder"]⟩,
    ⟨[ascii "smollm2"], ascii "compressor", [ascii "compressor"]⟩,
    ⟨[ascii "nomic_embed"], ascii "embedding", [ascii "embedding"]⟩,
    ⟨[ascii "whisper_turbo", ascii "whisper_base"], ascii "audio_stt", [ascii "audio_stt"]⟩,
    ⟨[ascii "sdxl_lightning_4step", ascii "sd15"], ascii "image_gen", [ascii "image_gen", ascii "vision_sd"]⟩]

/-- `has_role`. -/
def hasRole (t : ModelTables) (role : Bytes) : Bool := t.modelRoles.any fun b => b.role = role ∧ b.modelId ≠ []

/-- `bind_roles_for_id`. -/
def bindRolesForId (now : Int64) (modelId : Bytes) (t : ModelTables) : ModelTables :=
  match roleRules.find? fun rule => rule.ids.contains modelId && !hasRole t rule.role with
  | none => t
  | some rule => rule.binds.foldl (fun t role => bindRole now role modelId true t) t

/-! ### One file -/

section Visit

variable (format : UInt64 → Bytes) (now : Int64) (disk : Disk)

/-- `ModelInspector::inspect` on the disk. -/
def Disk.inspect (path : Bytes) : ModelInspectionResult := Inspection.inspect format path (disk.entry (cstr path))

/-- The record of a file that is new, if it passes the checks for its kind. -/
def newRecord (modelId path : Bytes) : Kind → Option LocalModelRecord
  | .gguf =>
    let insp := disk.inspect format path
    if insp.isValid && insp.isSupportedEdgeSize && insp.nativeTensorCompatible then
      some ⟨modelId, path, insp.architecture, insp.paramCount, insp.paramSizeStr, insp.quantType, insp.contextLength,
        true, 0⟩
    else none
  | .audio => some ⟨modelId, path, ascii "whisper", 72593920, ascii "72M", ascii "FP32", 448, true, 0⟩
  | .diffusion => some ⟨modelId, path, ascii "diffusion", 860000000, ascii "860M", ascii "FP16", 77, true, 0⟩

/-- The record fits the file. -/
def fits (file : Bytes × Bytes) (m : LocalModelRecord) : Bool :=
  m.modelId = file.1 ∨ filename m.filePath = filename file.2

/-- The record, which fits the file, moves there. -/
def movesTo (path : Bytes) (m : LocalModelRecord) : Bool :=
  m.filePath ≠ path ∧ disk.exists m.filePath = false ∧ disk.exists path = true

/-- The record after it has moved to a file. -/
def relocated (file : Bytes × Bytes) (m : LocalModelRecord) : LocalModelRecord :=
  let insp := disk.inspect format file.2
  if extension file.2 = ascii ".gguf" ∧ insp.isValid = true then
    { m with
      filePath := file.2
      architecture := insp.architecture
      paramCount := insp.paramCount
      paramSizeStr := insp.paramSizeStr
      quantType := insp.quantType
      contextLength := insp.contextLength }
  else { m with filePath := file.2 }

/-- The tables, `existing_models` and `registered_count` in the course of a discovery. -/
structure Scan where
  tables : ModelTables
  existing : List LocalModelRecord
  registeredCount : ℕ

/-- The body of the loop for a file that is registered under an id. -/
def visitAs (modelId : Bytes) (kind : Kind) (s : Scan) (path : Bytes) : Scan :=
  match s.existing.find? (fits (modelId, path)) with
  | some m =>
    { s with
      tables :=
        if movesTo disk path m then registerModel now (relocated format disk (modelId, path) m) s.tables else s.tables
      existing := settle fits (movesTo disk path) (relocated format disk) (modelId, path) s.existing }
  | none =>
    match newRecord format disk modelId path kind with
    | none => s
    | some rec =>
      ⟨bindRolesForId now modelId (registerModel now rec s.tables), s.existing ++ [rec], s.registeredCount + 1⟩

/-- The body of the loop. -/
def visit (s : Scan) (path : Bytes) : Scan :=
  match kindOf path, identify path with
  | some kind, some modelId => visitAs format now disk modelId kind s path
  | _, _ => s

/-- `auto_discover_and_register`. -/
def autoDiscoverAndRegister (t : ModelTables) : Scan := disk.found.foldl (visit format now disk) ⟨t, getAllModels t, 0⟩

end Visit

/-! ### What one file does -/

section Facts

variable {format : UInt64 → Bytes} {now : Int64} {disk : Disk} {s : Scan} {path modelId : Bytes}

/-- The file of the record is missing. -/
def missing (disk : Disk) (m : LocalModelRecord) : Bool := !disk.exists m.filePath

theorem exists_of_mem_found (h : path ∈ disk.found) : disk.exists path = true := by
  unfold Disk.exists
  rw [cstr_of_not_mem (disk.found_text path h)]
  exact disk.found_exists path h

/-- A record moves to a file that is there if and only if its own file is missing. -/
theorem movesTo_eq (h : disk.exists path = true) : movesTo disk path = missing disk := by
  funext m
  unfold movesTo missing
  cases hm : disk.exists m.filePath with
  | true => simp
  | false =>
    have hne : m.filePath ≠ path := by
      rintro rfl
      rw [h] at hm
      cases hm
    simp [hne, h]

theorem modelId_relocated (file : Bytes × Bytes) (m : LocalModelRecord) :
    (relocated format disk file m).modelId = m.modelId := by
  unfold relocated
  dsimp only
  split_ifs <;> rfl

theorem filePath_relocated (file : Bytes × Bytes) (m : LocalModelRecord) :
    (relocated format disk file m).filePath = file.2 := by
  unfold relocated
  dsimp only
  split_ifs <;> rfl

theorem isVerified_relocated (file : Bytes × Bytes) (m : LocalModelRecord) :
    (relocated format disk file m).isVerified = m.isVerified := by
  unfold relocated
  dsimp only
  split_ifs <;> rfl

/-- The record of a new file has its id and its path, and is verified. -/
theorem newRecord_spec {kind : Kind} {rec : LocalModelRecord} (h : newRecord format disk modelId path kind = some rec) :
    rec.modelId = modelId ∧ rec.filePath = path ∧ rec.isVerified = true := by
  cases kind with
  | gguf =>
    unfold newRecord at h
    dsimp only at h
    split_ifs at h
    cases h
    exact ⟨rfl, rfl, rfl⟩
  | audio =>
    cases h
    exact ⟨rfl, rfl, rfl⟩
  | diffusion =>
    cases h
    exact ⟨rfl, rfl, rfl⟩

theorem kindOf_of_identify (h : identify path = some modelId) : ∃ kind, kindOf path = some kind := by
  obtain ⟨kind, hkind, -⟩ := Option.map_eq_some_iff.mp h
  exact ⟨kind, hkind⟩

/-- A record whose file is missing would move to the file. -/
def Claims (disk : Disk) (existing : List LocalModelRecord) (path : Bytes) : Prop :=
  ∃ modelId, identify path = some modelId ∧ Claimed fits (missing disk) (modelId, path) existing

variable (format now s) in
/-- **What one file does**: nothing; or the first record that fits it, whose file is missing, moves to it; or it fits
no record, passes the checks, and is registered. -/
theorem visit_cases (h : disk.exists path = true) :
    (¬ Claims disk s.existing path ∧ visit format now disk s path = s) ∨
    (∃ modelId m, identify path = some modelId ∧ s.existing.find? (fits (modelId, path)) = some m ∧
      missing disk m = true ∧ visit format now disk s path =
        ⟨registerModel now (relocated format disk (modelId, path) m) s.tables,
          settle fits (missing disk) (relocated format disk) (modelId, path) s.existing, s.registeredCount⟩) ∨
    ∃ modelId kind rec, identify path = some modelId ∧ kindOf path = some kind ∧
      s.existing.find? (fits (modelId, path)) = none ∧ newRecord format disk modelId path kind = some rec ∧
        visit format now disk s path = ⟨bindRolesForId now modelId (registerModel now rec s.tables),
          s.existing ++ [rec], s.registeredCount + 1⟩ := by
  cases hid : identify path with
  | none =>
    refine Or.inl ⟨?_, ?_⟩
    · rintro ⟨modelId, hid', -⟩
      rw [hid] at hid'
      cases hid'
    · unfold visit
      rw [hid]
      cases kindOf path <;> rfl
  | some modelId =>
    obtain ⟨kind, hkind⟩ := kindOf_of_identify hid
    have hvisit : visit format now disk s path = visitAs format now disk modelId kind s path := by
      unfold visit
      rw [hid, hkind]
    rw [hvisit]
    unfold visitAs
    cases hfind : s.existing.find? (fits (modelId, path)) with
    | some m =>
      simp only [movesTo_eq h]
      cases hmissing : missing disk m with
      | true => exact Or.inr (Or.inl ⟨modelId, m, rfl, hfind, hmissing, rfl⟩)
      | false =>
        have hclaimed : ¬ Claimed fits (missing disk) (modelId, path) s.existing := by
          rintro ⟨a, hfind', ha⟩
          rw [hfind] at hfind'
          obtain rfl := Option.some.inj hfind'
          rw [hmissing] at ha
          cases ha
        rw [settle_eq_self hclaimed]
        refine Or.inl ⟨?_, rfl⟩
        rintro ⟨modelId', hid', hclaimed'⟩
        rw [hid] at hid'
        obtain rfl := Option.some.inj hid'
        exact hclaimed hclaimed'
    | none =>
      cases hrec : newRecord format disk modelId path kind with
      | none =>
        refine Or.inl ⟨?_, rfl⟩
        rintro ⟨modelId', hid', a, hfind', -⟩
        rw [hid] at hid'
        obtain rfl := Option.some.inj hid'
        rw [hfind] at hfind'
        cases hfind'
      | some rec => exact Or.inr (Or.inr ⟨modelId, kind, rec, rfl, hkind, hfind, hrec, rfl⟩)

end Facts

end DenseLite.Registry.Discovery
