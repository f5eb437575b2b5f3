import DenseLite.Gguf.Inspector
import DenseLite.Memory.Cache

/-! # Inspections

What `ModelInspector::inspect` decides from what it has read of a file: the role that the architecture is for, the
size, and whether the tensors are ones that the native engine reads. How a number of parameters is shown (`format`)
is a matter of floating point and is left open. -/

namespace DenseLite.Registry.Inspection

open DenseLite.Lib.ByteStream DenseLite.Lib.Seek DenseLite.Gguf.Inspector DenseLite.Gguf.Loader
open DenseLite.Infer.State (ascii occursIn)
open DenseLite.Memory.Cache (lower)

/-! ### Paths -/

/-- `filename()` of a path: what stands behind its last separator. -/
def filename (path : Bytes) : Bytes := (path.reverse.takeWhile (· ≠ 0x2f)).reverse

/-- What stands behind the last dot of a file name; there is no extension if that dot comes first. -/
def extensionOf (name : Bytes) : Option Bytes :=
  let back := name.reverse.takeWhile (· ≠ 0x2e)
  if back.length + 1 < name.length ∧ name ≠ ascii ".." then some back.reverse else none

/-- `extension()` of a path. -/
def extension (path : Bytes) : Bytes := (extensionOf (filename path)).elim [] fun ext => 0x2e :: ext

/-- `stem()` of a path. -/
def stem (path : Bytes) : Bytes := (filename path).take ((filename path).length - (extension path).length)

/-! ### Inspecting -/

/-- `ModelInspectionResult`, without what it says about the native architecture. -/
structure ModelInspectionResult where
  isValid : Bool := false
  nativeTensorCompatible : Bool := false
  unsupportedNativeTensors : List Bytes := []
  architecture : Bytes := []
  paramCount : UInt64 := 0
  paramSizeStr : Bytes := []
  quantType : Bytes := ascii "UNKNOWN"
  contextLength : UInt32 := 0
  compatibleRoles : List Bytes := []
  errorMessage : Bytes := []
deriving DecidableEq

/-- The architectures that have a larger limit. -/
def isDiffusion (architecture : Bytes) : Bool := architecture = ascii "diffusion" ∨ architecture = ascii "unet"

/-- The number of parameters that is allowed. -/
def maxAllowedParams (architecture : Bytes) : UInt64 := if isDiffusion architecture then 4000000000 else 1850000000

/-- `is_supported_edge_size`. -/
def ModelInspectionResult.isSupportedEdgeSize (res : ModelInspectionResult) : Bool :=
  res.paramCount ≤ maxAllowedParams res.architecture

/-- `is_role_compatible` of a result. -/
def ModelInspectionResult.isRoleCompatible (res : ModelInspectionResult) (role : Bytes) : Bool :=
  res.compatibleRoles.contains role

/-- `ModelInspector::is_role_compatible`. -/
def isRoleCompatible (arch role : Bytes) : Bool :=
  if [ascii "general", ascii "coder", ascii "compressor", ascii "router"].contains role then
    [ascii "qwen2", ascii "llama", ascii "gemma", ascii "phi", ascii "mistral", ascii "bert",
      ascii "modernbert"].contains arch
  else if role = ascii "embedding" then
    [ascii "nomic-bert", ascii "nomic-bert-moe", ascii "bert", ascii "modernbert"].contains arch
  else if role = ascii "audio_stt" then arch = ascii "whisper"
  else if role = ascii "image_gen" then
    [ascii "diffusion", ascii "unet", ascii "stable-diffusion", ascii "sd1"].contains arch
  else false

/-- The roles that an architecture is tried for. -/
def allRoles : List Bytes :=
  [ascii "general", ascii "coder", ascii "compressor", ascii "router", ascii "embedding", ascii "audio_stt",
    ascii "image_gen"]

/-- One type against the best so far, which counts ties for the smaller number. -/
def dominantOf (types : List UInt32) (best : Option UInt32) (t : UInt32) : Option UInt32 :=
  match best with
  | none => some t
  | some b => if types.count b < types.count t ∨ types.count b = types.count t ∧ t < b then some t else some b

/-- The type that most tensors have. -/
def dominantType (types : List UInt32) : UInt32 := (types.foldl (dominantOf types) none).getD 8

/-- The architecture, which is guessed from the file name where the file has none. -/
def guessedArchitecture (architecture filePath : Bytes) : Bytes :=
  if architecture = [] ∧ (occursIn (ascii "diffusion") (lower (filename filePath)) ∨
      occursIn (ascii "sd") (lower (filename filePath))) then ascii "diffusion"
  else architecture

section Inspect

variable (format : UInt64 → Bytes)

/-- What `inspect` makes of a file that it has read. -/
def judge (filePath : Bytes) (read : Inspection) (good : Bool) : ModelInspectionResult :=
  let architecture := guessedArchitecture read.architecture filePath
  let res : ModelInspectionResult :=
    { unsupportedNativeTensors := read.unsupportedNativeTensors
      architecture := architecture
      paramCount := read.paramCount
      paramSizeStr := format read.paramCount
      quantType := tensorTypeName (tensorType (dominantType (read.tensors.map Prod.snd)))
      contextLength := read.contextLength }
  if maxAllowedParams architecture < read.paramCount then
    { res with
      errorMessage := ascii "Parameter count (" ++ format read.paramCount ++ ascii ") exceeds maximum limit." }
  else
    { res with
      compatibleRoles := allRoles.filter (isRoleCompatible architecture)
      -- with a good stream, tensors were read if the header announces some
      nativeTensorCompatible := good && !read.tensors.isEmpty && read.unsupportedNativeTensors.isEmpty
      isValid := good }

/-- `ModelInspector::inspect` of a path and the file it leads to, if there is one and it can be opened. -/
def inspect (filePath : Bytes) : Option (Option Bytes) → ModelInspectionResult
  | none => { errorMessage := ascii "File does not exist: " ++ filePath }
  | some none => { errorMessage := ascii "Failed to open file: " ++ filePath }
  | some (some content) =>
    match inspectStream content ⟨0, true⟩ with
    | none => {}
    | some (read, stream) =>
      if read.errorMessage = [] then judge format filePath read stream.good
      else { errorMessage := read.errorMessage }

end Inspect

end DenseLite.Registry.Inspection
