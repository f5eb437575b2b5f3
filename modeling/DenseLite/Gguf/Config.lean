import DenseLite.Infer.State

/-! # The configuration of a model

`ModelConfig` with all the fields that `load_gguf_model` fills in and that the context compiler
reads. -/

namespace DenseLite.Gguf.Config

open DenseLite.Lib.ByteStream DenseLite.Infer.State

/-- `ModelConfig`, with `RopeConfig`. The defaults are those of the source; floats are their bits. -/
structure ModelConfig extends DenseLite.Infer.State.ModelConfig where
  ropeBase := 0x461c4000
  embeddingLength : UInt32 := 0
  rmsNormEps : F32 := 0x358637bd
  alignment : UInt32 := 32
  chatTemplate : Bytes := []
  ropeScale : F32 := 0x3f800000
  ropeType : Bytes := ascii "default"
deriving DecidableEq, Repr

end DenseLite.Gguf.Config
