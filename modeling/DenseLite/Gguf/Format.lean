import DenseLite.Gguf.Config
import DenseLite.Lib.Cursor

/-! # The GGUF format

A well-formed GGUF v3 file: metadata entries over the 13 value types, arrays nested to any depth, then
tensor infos, then the data of the tensors. A value carries its type, the elements of an array all have
the declared one, and every length fits its field, so that a `File` can be written down. -/

namespace DenseLite.Gguf.Format

open DenseLite.Lib.ByteStream DenseLite.Lib.Cursor DenseLite.Gguf.Config
open DenseLite.Infer.State (ascii F32)

/-! ### Values -/

/-- The value types of the format. -/
inductive ValueType
  | UINT8 | INT8 | UINT16 | INT16 | UINT32 | INT32 | FLOAT32 | BOOL | STRING | ARRAY | UINT64 | INT64 | FLOAT64
deriving DecidableEq, Repr

/-- The number that stands for a type. -/
def ValueType.code : ValueType → UInt32
  | .UINT8 => 0 | .INT8 => 1 | .UINT16 => 2 | .INT16 => 3 | .UINT32 => 4 | .INT32 => 5 | .FLOAT32 => 6
  | .BOOL => 7 | .STRING => 8 | .ARRAY => 9 | .UINT64 => 10 | .INT64 => 11 | .FLOAT64 => 12

/-- The bytes of a scalar of the type. -/
def ValueType.width : ValueType → ℕ
  | .UINT8 | .INT8 | .BOOL => 1
  | .UINT16 | .INT16 => 2
  | .UINT32 | .INT32 | .FLOAT32 => 4
  | .UINT64 | .INT64 | .FLOAT64 => 8
  | .STRING | .ARRAY => 0

/-- The types whose values are all of one size. -/
def ValueType.isScalar (t : ValueType) : Bool := t.width ≠ 0

/-- A string whose length fits its field. -/
abbrev Str := { s : Bytes // s.length < 2 ^ 64 }

/-- A value of a type: the bytes of a scalar, a string, or an array of values of one type. -/
inductive Value : ValueType → Type
  | scalar (t : ValueType) (ht : t.isScalar = true) (bytes : Bytes) (hb : bytes.length = t.width) : Value t
  | string (s : Str) : Value .STRING
  | array (t : ValueType) (n : UInt64) (vs : Fin n.toNat → Value t) : Value .ARRAY

/-- A string with its length in front. -/
def encodeStr (s : Str) : Bytes := encodeU64 (UInt64.ofNat s.1.length) ++ s.1

/-- The bytes of a value. -/
def Value.encode {t : ValueType} : Value t → Bytes
  | .scalar _ _ bytes _ => bytes
  | .string s => encodeStr s
  | .array t n vs => encodeU32 t.code ++ encodeU64 n ++ (List.ofFn fun i => (vs i).encode).flatten

/-- The bytes of a scalar or a string, without the length of the string. -/
def Value.raw {t : ValueType} : Value t → Bytes
  | .scalar _ _ bytes _ => bytes
  | .string s => s.1
  | .array _ _ _ => []

/-- The strings of an array of strings. -/
def Value.strings {t : ValueType} : Value t → List Bytes
  | .array .STRING _ vs => List.ofFn fun i => (vs i).raw
  | _ => []

/-- The floats of an array of floats. -/
def Value.floats {t : ValueType} : Value t → List F32
  | .array .FLOAT32 _ vs => List.ofFn fun i => decodeU32 (vs i).raw
  | _ => []

/-- The length of an array. -/
def Value.count {t : ValueType} : Value t → UInt64
  | .array _ n _ => n
  | _ => 0

/-! ### Files -/

/-- A metadata entry. -/
structure Entry where
  key : Str
  type : ValueType
  value : Value type

/-- A tensor info; the dimensions are below `2 ^ 32`. -/
structure TensorInfo where
  name : Str
  dims : List UInt32
  dims_lt : dims.length < 2 ^ 32
  type : UInt32
  offset : UInt64

def Entry.encode (e : Entry) : Bytes := encodeStr e.key ++ encodeU32 e.type.code ++ e.value.encode

def encodeDim (d : UInt32) : Bytes := encodeU64 d.toUInt64

def TensorInfo.encode (t : TensorInfo) : Bytes :=
  encodeStr t.name ++ encodeU32 (UInt32.ofNat t.dims.length) ++ t.dims.flatMap encodeDim ++
    encodeU32 t.type ++ encodeU64 t.offset

/-- `GGUF_MAGIC`. -/
def ggufMagic : UInt32 := 0x46554747

/-- Header, metadata and tensor infos, as bytes. -/
def encodeMeta (entries : List Entry) (tensors : List TensorInfo) : Bytes :=
  encodeU32 ggufMagic ++ encodeU32 3 ++ encodeU64 (UInt64.ofNat tensors.length) ++
    encodeU64 (UInt64.ofNat entries.length) ++ entries.flatMap Entry.encode ++
    tensors.flatMap TensorInfo.encode

/-- A well-formed file: distinct keys, distinct tensor names, and a size that is the size of a file. -/
structure File where
  entries : List Entry
  tensors : List TensorInfo
  data : Bytes
  keys : entries.Pairwise fun e e' => e.key ≠ e'.key
  names : tensors.Pairwise fun t t' => t.name ≠ t'.name
  size : (encodeMeta entries tensors ++ data).length < 2 ^ 63

/-- The bytes of a file. -/
def File.encode (g : File) : Bytes := encodeMeta g.entries g.tensors ++ g.data

/-! ### Lengths -/

theorem length_encodeStr (s : Str) : (encodeStr s).length = 8 + s.1.length := by
  rw [encodeStr, List.length_append, length_encodeU64]

theorem encodeStr_ne_nil (s : Str) : encodeStr s ≠ [] :=
  List.ne_nil_of_length_pos (by rw [length_encodeStr]; omega)

theorem toNat_ofNat_length (s : Str) : (UInt64.ofNat s.1.length).toNat = s.1.length := by
  have := s.2
  rw [UInt64.toNat_ofNat', Nat.mod_eq_of_lt this]

theorem Value.encode_array {t : ValueType} {n : UInt64} (vs : Fin n.toNat → Value t) :
    (Value.array t n vs).encode =
      encodeU32 t.code ++ encodeU64 n ++ (List.ofFn vs).flatMap Value.encode := by
  rw [Value.encode, List.flatMap, List.map_ofFn]
  rfl

theorem Value.encode_ne_nil {t : ValueType} (v : Value t) : v.encode ≠ [] := by
  refine List.ne_nil_of_length_pos ?_
  cases v with
  | scalar t ht bytes hb =>
    rw [Value.encode, hb]
    exact Nat.pos_of_ne_zero (by simpa [ValueType.isScalar] using ht)
  | string s => rw [Value.encode, length_encodeStr]; omega
  | array t n vs => rw [Value.encode, List.length_append, List.length_append, length_encodeU32]; omega

theorem Entry.encode_ne_nil (e : Entry) : e.encode ≠ [] :=
  List.ne_nil_of_length_pos (by
    simp only [Entry.encode, List.length_append, length_encodeStr]; omega)

theorem TensorInfo.encode_ne_nil (t : TensorInfo) : t.encode ≠ [] :=
  List.ne_nil_of_length_pos (by
    simp only [TensorInfo.encode, List.length_append, length_encodeStr]; omega)

theorem encodeDim_ne_nil (d : UInt32) : encodeDim d ≠ [] :=
  List.ne_nil_of_length_pos (by rw [encodeDim, length_encodeU64]; omega)

end DenseLite.Gguf.Format
