import DenseLite.Gguf.Loader

/-! # The loader on an encoded file

Value by value and entry by entry the loader consumes what was encoded, except for an entry that takes
the branch of `general.alignment`. Without such an entry, what it loads is a pure function of the
entries and tensor infos (`load_encode`): the entries are applied one after the other, in their order. -/

namespace DenseLite.Gguf.ParseEncode

open DenseLite.Lib.ByteStream DenseLite.Lib.Cursor DenseLite.Gguf.Config DenseLite.Gguf.Format
open DenseLite.Gguf.Loader
open DenseLite.Infer.State (ascii occursIn F32 Token TensorType)

/-! ### What an entry does -/

/-- The vocabulary with the tokens added in their order. -/
def addTokens (m : DenseModel) (tokens : List Bytes) : DenseModel :=
  tokens.zipIdx.foldl (fun m p => addToken m p.2 p.1) m

/-- What an entry does to the model. -/
def applyEntry (m : DenseModel) (e : Entry) : DenseModel :=
  match branchOf e.key.1 e.type.code with
  | .alignment => { m with config := { m.config with alignment := decodeU32 e.value.raw } }
  | .tokens =>
    let m := addTokens m e.value.strings
    { m with config := { m.config with vocabSize := e.value.count.toUInt32 } }
  | .scores => { m with vocab := { m.vocab with scores := m.vocab.scores ++ e.value.floats } }
  | .field fld => { m with config := setField m.config e.value.raw fld }
  | .skip => m

/-- The tensor of an info, before it has data. -/
def tensorOf (t : TensorInfo) : Tensor :=
  { name := t.name.1, type := tensorType t.type, shape := t.dims, dataOffset := t.offset }

/-- The model after all entries and infos. -/
def loaded (entries : List Entry) (tensors : List TensorInfo) : DenseModel :=
  let m := entries.foldl applyEntry {}
  { m with config := deriveDims m.config, tensors := tensors.map tensorOf }

/-- The allocator grants what a file of this size calls for. -/
def Ample (f : Bytes) (grants : ℕ → Bool) : Prop := ∀ n ≤ 32 * f.length, grants n = true

/-! ### Types of branches -/

section Branches

variable {key : Bytes} {type : UInt32}

/-- The types that a branch reads. -/
def Branch.types : Branch → List UInt32
  | .alignment => [4]
  | .tokens | .scores => [9]
  | .field fld => if fld.isText then [8] else [4, 5, 6]
  | .skip => []

theorem rules_types : ∀ r ∈ rules, r.types ⊆ Branch.types r.branch := by decide +kernel

theorem type_of_branch (h : branchOf key type ≠ .skip) : type ∈ Branch.types (branchOf key type) := by
  obtain ⟨r, hr, hbranch, -, htype⟩ := exists_rule h
  rw [← hbranch]
  exact rules_types r hr htype

theorem code_eq_eight {t : ValueType} : t.code = 8 ↔ t = .STRING := by cases t <;> decide

theorem code_eq_nine {t : ValueType} : t.code = 9 ↔ t = .ARRAY := by cases t <;> decide

theorem code_eq_six {t : ValueType} : t.code = 6 ↔ t = .FLOAT32 := by cases t <;> decide

theorem width_of_code {t : ValueType} (h : t.code = 4 ∨ t.code = 5 ∨ t.code = 6) :
    t.width = 4 := by
  cases t <;> simp [ValueType.code, ValueType.width] at h ⊢

end Branches

/-! ### Values -/

section Values

variable {f : Bytes} {grants : ℕ → Bool} {k : ℕ}

theorem allocate_ok {n : ℕ} (h : grants n = true) : allocate grants n k = .ok ((), k) := by
  rw [allocate, if_pos h]
  rfl

theorem readString_has (ha : Ample f grants) {s : Str} (h : Has f k (encodeStr s)) :
    readString f grants k = .ok (s.1, k + (encodeStr s).length) := by
  have hlen := h.length_le (encodeStr_ne_nil s)
  rw [length_encodeStr] at hlen ⊢
  obtain ⟨h1, h2⟩ := has_append.mp h
  rw [length_encodeU64] at h2
  have hread := h2.read
  rw [readString, bind_ok h1.u64, toNat_ofNat_length,
    bind_ok (allocate_ok (ha s.1.length (by omega))), hread, Nat.add_assoc]

/-- A value of type string is a string. -/
theorem exists_string (v : Value .STRING) : ∃ s : Str, v = .string s := by
  cases v with
  | scalar _ ht _ _ => exact absurd ht (by decide)
  | string s => exact ⟨s, rfl⟩

/-- A value of type array is an array. -/
theorem exists_array (v : Value .ARRAY) : ∃ t n vs, v = .array t n vs := by
  cases v with
  | scalar _ ht _ _ => exact absurd ht (by decide)
  | array t n vs => exact ⟨t, n, vs, rfl⟩

/-- A value of a scalar type is its bytes. -/
theorem length_raw {t : ValueType} (ht : t.isScalar = true) (v : Value t) :
    v.encode = v.raw ∧ v.raw.length = t.width := by
  cases v with
  | scalar _ _ _ hb => exact ⟨rfl, hb⟩
  | string s => exact absurd ht (by decide)
  | array t n vs => exact absurd ht (by decide)

/-- A word of four bytes. -/
theorem read_word {t : ValueType} (ht : t.width = 4) {v : Value t} (h : Has f k v.encode) :
    read f 4 k = .ok (v.raw, k + v.encode.length) := by
  obtain ⟨hraw, hlen⟩ := length_raw (by simp [ValueType.isScalar, ht]) v
  rw [hraw] at h ⊢
  have hread := h.read
  rw [hlen, ht] at hread
  rw [hread, hlen, ht]

theorem skipWidth_code {t : ValueType} (ht : t.isScalar = true) :
    skipWidth t.code = t.width ∧ t.code ≠ 8 ∧ t.code ≠ 9 := by
  revert ht
  cases t <;> decide

/-- The header of an array: the type of its elements and their number. -/
theorem readHeader_has {t : ValueType} {n : UInt64} {vs : Fin n.toNat → Value t}
    (h : Has f k (Value.array t n vs).encode) :
    u32 f k = .ok (t.code, k + 4) ∧ u64 f (k + 4) = .ok (n, k + 12) ∧
      Has f (k + 12) ((List.ofFn vs).flatMap Value.encode) ∧
      n.toNat ≤ ((List.ofFn vs).flatMap Value.encode).length := by
  rw [Value.encode_array, has_append, has_append] at h
  obtain ⟨⟨h1, h2⟩, h3⟩ := h
  simp only [length_encodeU32, length_encodeU64, List.length_append] at h2 h3
  refine ⟨h1.u32, h2.u64, h3, ?_⟩
  have := length_le_flatMap (fun v : Value t => v.encode_ne_nil) (List.ofFn vs)
  rwa [List.length_ofFn] at this

theorem length_encode_array {t : ValueType} {n : UInt64} (vs : Fin n.toNat → Value t) :
    (Value.array t n vs).encode.length = 12 + ((List.ofFn vs).flatMap Value.encode).length := by
  simp only [Value.encode_array, List.length_append, length_encodeU32, length_encodeU64]

theorem length_le_of_mem_flatMap {ι : Type} {enc : ι → Bytes} {x : ι} {xs : List ι} (hx : x ∈ xs) :
    (enc x).length ≤ (xs.flatMap enc).length := by
  obtain ⟨as, bs, rfl⟩ := List.append_of_mem hx
  simp only [List.flatMap_append, List.flatMap_cons, List.length_append]
  omega

/-- **Skipping a value** goes over its encoding, whatever it is. -/
theorem skipValue_has (ha : Ample f grants) {t : ValueType} (v : Value t) : ∀ (fuel k : ℕ),
    v.encode.length ≤ fuel → Has f k v.encode →
      skipValue f grants fuel t.code k = .ok ((), k + v.encode.length) := by
  induction v with
  | scalar t ht bytes hb =>
    intro fuel k _ _
    obtain ⟨hwidth, h8, h9⟩ := skipWidth_code ht
    rw [skipValue_other f grants fuel h8 h9, skip, hwidth, Value.encode, hb]
  | string s =>
    intro fuel k _ h
    rw [code_eq_eight.mpr rfl, skipValue_string]
    exact map_ok (readString_has ha h) _
  | array t n vs ih =>
    intro fuel k hfuel h
    obtain ⟨h1, h2, h3, -⟩ := readHeader_has h
    rw [length_encode_array] at hfuel ⊢
    obtain ⟨fuel, rfl⟩ := Nat.exists_eq_succ_of_ne_zero (show fuel ≠ 0 by omega)
    have hitem : ∀ v ∈ List.ofFn vs, ∀ (_ : ℕ) (_ : Unit) (k : ℕ), Has f k v.encode →
        skipValue f grants fuel t.code k = .ok ((), k + v.encode.length) := by
      intro v hv _ _ k' hk'
      have hle : v.encode.length ≤ ((List.ofFn vs).flatMap Value.encode).length :=
        length_le_of_mem_flatMap hv
      obtain ⟨i, rfl⟩ := List.mem_ofFn.mp hv
      exact ih i fuel k' (by omega) hk'
    have hloop := loop_list Value.encode (fun _ _ _ => ()) (fun v => v.encode_ne_nil) (List.ofFn vs) 0
      (k + 12) () hitem h3 (by omega)
    rw [List.length_ofFn] at hloop
    rw [code_eq_nine.mpr rfl, skipValue_array, bind_ok h1, bind_ok h2, hloop,
      Nat.add_assoc]

/-- Skipping a value from the loops of the loader. -/
theorem skipValue_depth (ha : Ample f grants) {t : ValueType} {v : Value t} (h : Has f k v.encode) :
    skipValue f grants (depth f) t.code k = .ok ((), k + v.encode.length) := by
  have := h.length_le v.encode_ne_nil
  exact skipValue_has ha v (depth f) k (by rw [depth]; omega) h

end Values

/-! ### Entries -/

section Entries

variable {f : Bytes} {grants : ℕ → Bool} {k : ℕ} {m : DenseModel}

theorem strings_of_ne {t : ValueType} {n : UInt64} (vs : Fin n.toNat → Value t) (ht : t ≠ .STRING) :
    (Value.array t n vs).strings = [] := by
  cases t <;> first | rfl | exact absurd rfl ht

theorem floats_of_ne {t : ValueType} {n : UInt64} (vs : Fin n.toNat → Value t) (ht : t ≠ .FLOAT32) :
    (Value.array t n vs).floats = [] := by
  cases t <;> first | rfl | exact absurd rfl ht

/-- The rounds of a loop over an array whose elements are skipped. -/
theorem skip_loop (ha : Ample f grants) {t : ValueType} {n : UInt64} (vs : Fin n.toNat → Value t)
    {body : ℕ → DenseModel → Reader DenseModel}
    (hbody : ∀ j m, body j m = do skipValue f grants (depth f) t.code; return m)
    (h : Has f k ((List.ofFn vs).flatMap Value.encode)) :
    loop f body n.toNat 0 m k = .ok (m, k + ((List.ofFn vs).flatMap Value.encode).length) := by
  have hitem : ∀ v ∈ List.ofFn vs, ∀ j m k, Has f k v.encode →
      body j m k = .ok (m, k + v.encode.length) := by
    intro v _ j m k hk
    rw [hbody, bind_ok (skipValue_depth ha hk)]
    rfl
  have hloop := loop_list Value.encode (fun _ m _ => m) (fun v => v.encode_ne_nil) (List.ofFn vs) 0 k m
    hitem h (Nat.zero_le k)
  rw [List.length_ofFn, List.foldl_fixed] at hloop
  exact hloop

/-- The token loop adds the strings of the array. -/
theorem readToken_loop (ha : Ample f grants) {t : ValueType} {n : UInt64} (vs : Fin n.toNat → Value t)
    (h : Has f k ((List.ofFn vs).flatMap Value.encode)) :
    loop f (readToken f grants t.code) n.toNat 0 m k =
      .ok (addTokens m (Value.array t n vs).strings,
        k + ((List.ofFn vs).flatMap Value.encode).length) := by
  by_cases ht : t = .STRING
  · subst ht
    have hitem : ∀ v ∈ List.ofFn vs, ∀ j m k, Has f k v.encode →
        readToken f grants ValueType.STRING.code j m k =
          .ok (addToken m j v.raw, k + v.encode.length) := by
      intro v _ j m k hk
      obtain ⟨s, rfl⟩ := exists_string v
      rw [readToken, if_pos (code_eq_eight.mpr rfl), bind_ok (readString_has ha hk)]
      rfl
    have hloop := loop_list Value.encode (fun j m v => addToken m j v.raw) (fun v => v.encode_ne_nil)
      (List.ofFn vs) 0 k m hitem h (Nat.zero_le k)
    have hstrings : (Value.array .STRING n vs).strings = (List.ofFn vs).map Value.raw := by
      rw [List.map_ofFn]
      rfl
    rw [List.length_ofFn] at hloop
    rw [hloop, hstrings, addTokens, List.zipIdx_map, List.foldl_map]
    rfl
  · rw [strings_of_ne vs ht]
    refine skip_loop ha vs (fun j m => ?_) h
    rw [readToken, if_neg (mt code_eq_eight.mp ht)]

/-- The score loop adds the floats of the array. -/
theorem readScore_loop (ha : Ample f grants) {t : ValueType} {n : UInt64} (vs : Fin n.toNat → Value t)
    (h : Has f k ((List.ofFn vs).flatMap Value.encode)) :
    loop f (readScore f grants t.code) n.toNat 0 m k =
      .ok ({ m with vocab := { m.vocab with
          scores := m.vocab.scores ++ (Value.array t n vs).floats } },
        k + ((List.ofFn vs).flatMap Value.encode).length) := by
  by_cases ht : t = .FLOAT32
  · subst ht
    let add (m : DenseModel) (v : Value .FLOAT32) : DenseModel :=
      { m with vocab := { m.vocab with scores := m.vocab.scores ++ [decodeU32 v.raw] } }
    have hitem : ∀ v ∈ List.ofFn vs, ∀ j m k, Has f k v.encode →
        readScore f grants ValueType.FLOAT32.code j m k = .ok (add m v, k + v.encode.length) := by
      intro v _ j m k hk
      rw [readScore, if_pos (code_eq_six.mpr rfl), u32, bind_ok (map_ok (read_word rfl hk) _)]
      rfl
    have hloop := loop_list Value.encode (fun _ m v => add m v) (fun v => v.encode_ne_nil)
      (List.ofFn vs) 0 k m hitem h (Nat.zero_le k)
    have hfold : ∀ (ps : List (Value .FLOAT32 × ℕ)) (m : DenseModel),
        ps.foldl (fun m p => add m p.1) m = { m with vocab := { m.vocab with
          scores := m.vocab.scores ++ ps.map fun p => decodeU32 p.1.raw } } := by
      intro ps
      induction ps with
      | nil => intro m; simp
      | cons p ps ih => intro m; rw [List.foldl_cons, ih]; simp [add]
    have hfloats : (Value.array .FLOAT32 n vs).floats =
        (List.ofFn vs).zipIdx.map fun p => decodeU32 p.1.raw := by
      rw [show (fun p : Value .FLOAT32 × ℕ => decodeU32 p.1.raw) =
        (fun v => decodeU32 v.raw) ∘ Prod.fst from rfl, ← List.map_map, List.zipIdx_map_fst, List.map_ofFn]
      rfl
    rw [List.length_ofFn] at hloop
    rw [hloop, hfold, hfloats]
  · rw [floats_of_ne vs ht, List.append_nil]
    refine skip_loop ha vs (fun j m => ?_) h
    rw [readScore, if_neg (mt code_eq_six.mp ht)]

/-- **Reading a value** consumes it and does what the entry says, on every branch but one. -/
theorem readValue_has (ha : Ample f grants) (e : Entry) (hb : branchOf e.key.1 e.type.code ≠ .alignment)
    (h : Has f k e.value.encode) :
    readValue f grants e.type.code m (branchOf e.key.1 e.type.code) k =
      .ok (applyEntry m e, k + e.value.encode.length) := by
  obtain ⟨key, type, v⟩ := e
  have htype : branchOf key.1 type.code ≠ .skip → type.code ∈ Branch.types (branchOf key.1 type.code) :=
    type_of_branch
  have hlen := h.length_le v.encode_ne_nil
  unfold applyEntry
  cases hbranch : branchOf key.1 type.code with
  | alignment => exact absurd hbranch hb
  | skip =>
    simp only [readValue]
    rw [bind_ok (skipValue_depth ha h)]
    rfl
  | field fld =>
    simp only [readValue]
    have htype := htype (by rw [hbranch]; simp)
    rw [hbranch, Branch.types] at htype
    split_ifs at htype with htext
    · obtain rfl := code_eq_eight.mp (List.mem_singleton.mp htype)
      obtain ⟨s, rfl⟩ := exists_string v
      rw [if_pos htext, bind_ok (readString_has ha h)]
      rfl
    · have hwidth := width_of_code (by simpa using htype)
      rw [if_neg htext, bind_ok (read_word hwidth h)]
      rfl
  | tokens =>
    have htype := htype (by rw [hbranch]; simp)
    rw [hbranch] at htype
    obtain rfl := code_eq_nine.mp (List.mem_singleton.mp htype)
    obtain ⟨t, n, vs, rfl⟩ := exists_array v
    obtain ⟨h1, h2, h3, h4⟩ := readHeader_has h
    rw [length_encode_array] at hlen ⊢
    simp only [readValue]
    rw [bind_ok h1, bind_ok h2, bind_ok (allocate_ok (ha _ (by omega))), bind_ok (readToken_loop ha vs h3),
      Nat.add_assoc]
    rfl
  | scores =>
    have htype := htype (by rw [hbranch]; simp)
    rw [hbranch] at htype
    obtain rfl := code_eq_nine.mp (List.mem_singleton.mp htype)
    obtain ⟨t, n, vs, rfl⟩ := exists_array v
    obtain ⟨h1, h2, h3, h4⟩ := readHeader_has h
    rw [length_encode_array] at hlen ⊢
    simp only [readValue]
    rw [bind_ok h1, bind_ok h2, bind_ok (allocate_ok (ha _ (by omega))), readScore_loop ha vs h3,
      Nat.add_assoc]

/-- The key and the type of an entry, and where its value stands. -/
theorem readEntry_value (ha : Ample f grants) {e : Entry} (h : Has f k e.encode) (j : ℕ) :
    ∃ k', readEntry f grants j m k =
        readValue f grants e.type.code m (branchOf e.key.1 e.type.code) k' ∧
      Has f k' e.value.encode ∧ k' + e.value.encode.length = k + e.encode.length := by
  rw [Entry.encode, has_append, has_append] at h
  obtain ⟨⟨h1, h2⟩, h3⟩ := h
  rw [List.length_append, length_encodeU32] at h3
  refine ⟨_, ?_, h3, ?_⟩
  · rw [readEntry, bind_ok (readString_has ha h1), bind_ok h2.u32, Nat.add_assoc]
  · simp only [Entry.encode, List.length_append, length_encodeU32]
    omega

theorem readEntry_has (ha : Ample f grants) {e : Entry} (hb : branchOf e.key.1 e.type.code ≠ .alignment)
    (h : Has f k e.encode) (j : ℕ) :
    readEntry f grants j m k = .ok (applyEntry m e, k + e.encode.length) := by
  obtain ⟨k', hread, hval, hlen⟩ := readEntry_value (m := m) ha h j
  rw [hread, readValue_has ha e hb hval, hlen]

end Entries

/-! ### Tensor infos -/

section Tensors

variable {f : Bytes} {grants : ℕ → Bool} {k : ℕ} {m : DenseModel}

theorem readDims_has {dims : List UInt32} (h : Has f k (dims.flatMap encodeDim)) :
    loop f (readDim f) dims.length 0 [] k = .ok (dims, k + (dims.flatMap encodeDim).length) := by
  have hitem : ∀ d ∈ dims, ∀ j s k, Has f k (encodeDim d) →
      readDim f j s k = .ok (s ++ [d], k + (encodeDim d).length) := by
    intro d _ j s k hk
    rw [readDim, bind_ok hk.u64, UInt32.toUInt32_toUInt64, encodeDim, length_encodeU64]
    rfl
  have happend : ∀ (ds : List UInt32) (s : List UInt32), ds.foldl (fun s d => s ++ [d]) s = s ++ ds := by
    intro ds
    induction ds with
    | nil => simp
    | cons d ds ih => simp [ih]
  rw [loop_foldl encodeDim (fun s d => s ++ [d]) encodeDim_ne_nil dims 0 k [] hitem h (Nat.zero_le k),
    happend, List.nil_append]

theorem toNat_ofNat_dims (t : TensorInfo) : (UInt32.ofNat t.dims.length).toNat = t.dims.length := by
  rw [UInt32.toNat_ofNat', Nat.mod_eq_of_lt t.dims_lt]

/-- **Reading a tensor info** consumes it and adds the tensor. -/
theorem readTensor_has (ha : Ample f grants) {t : TensorInfo} (h : Has f k t.encode) (j : ℕ) :
    readTensor f grants j m k =
      .ok ({ m with tensors := insertTensor m.tensors (tensorOf t) }, k + t.encode.length) := by
  simp only [TensorInfo.encode, has_append, List.length_append, length_encodeU32, ← Nat.add_assoc] at h
  obtain ⟨⟨⟨⟨h1, h2⟩, h3⟩, h4⟩, h5⟩ := h
  rw [readTensor, bind_ok (readString_has ha h1), bind_ok h2.u32, toNat_ofNat_dims,
    bind_ok (readDims_has h3), bind_ok h4.u32, bind_ok h5.u64]
  simp only [TensorInfo.encode, List.length_append, length_encodeU32, length_encodeU64, ← Nat.add_assoc]
  rfl

/-- Infos with new names are added behind those that are there. -/
theorem foldl_insertTensor : ∀ (ts : List TensorInfo) (m : DenseModel),
    (∀ t ∈ ts, ∀ t' ∈ m.tensors, t'.name ≠ t.name.1) → ts.Pairwise (fun t t' => t.name ≠ t'.name) →
    ts.foldl (fun m t => { m with tensors := insertTensor m.tensors (tensorOf t) }) m =
      { m with tensors := m.tensors ++ ts.map tensorOf }
  | [], m, _, _ => by simp
  | t :: ts, m, hnew, hnames => by
    obtain ⟨ht, hnames⟩ := List.pairwise_cons.mp hnames
    have hinsert : insertTensor m.tensors (tensorOf t) = m.tensors ++ [tensorOf t] := by
      rw [insertTensor, if_neg]
      rw [List.any_eq_true]
      rintro ⟨t', ht', heq⟩
      exact hnew t (by simp) t' ht' (of_decide_eq_true heq)
    rw [List.foldl_cons, hinsert, foldl_insertTensor ts _ ?_ hnames]
    · simp
    · intro u hu t' ht'
      rcases List.mem_append.mp ht' with ht' | ht'
      · exact hnew u (by simp [hu]) t' ht'
      · rw [List.mem_singleton.mp ht']
        exact fun heq => ht u hu (Subtype.ext heq)

end Tensors

/-! ### Files -/

/-- No entry takes the branch of `general.alignment`. -/
def NoAlignment (entries : List Entry) : Prop :=
  ∀ e ∈ entries, branchOf e.key.1 e.type.code ≠ .alignment

section Files

variable (g : File) {grants : ℕ → Bool}

theorem lengths_lt : g.entries.length < 2 ^ 64 ∧ g.tensors.length < 2 ^ 64 := by
  have hsize := g.size
  have hentries := length_le_flatMap Entry.encode_ne_nil g.entries
  have htensors := length_le_flatMap TensorInfo.encode_ne_nil g.tensors
  simp only [encodeMeta, List.length_append] at hsize
  omega

/-- The parts of a file, with their offsets. -/
structure Layout (f : Bytes) (g : File) : Prop where
  magic : Has f 0 (encodeU32 ggufMagic)
  version : Has f 4 (encodeU32 3)
  tensorCount : Has f 8 (encodeU64 (UInt64.ofNat g.tensors.length))
  kvCount : Has f 16 (encodeU64 (UInt64.ofNat g.entries.length))
  entries : Has f 24 (g.entries.flatMap Entry.encode)
  tensors : Has f (24 + (g.entries.flatMap Entry.encode).length) (g.tensors.flatMap TensorInfo.encode)

theorem layout : Layout g.encode g := by
  have h : Has g.encode 0 g.encode := List.prefix_rfl
  nth_rewrite 2 [File.encode] at h
  simp only [encodeMeta, has_append, List.length_append, length_encodeU32, length_encodeU64,
    Nat.zero_add] at h
  obtain ⟨⟨⟨⟨⟨⟨h1, h2⟩, h3⟩, h4⟩, h5⟩, h6⟩, -⟩ := h
  exact ⟨h1, h2, h3, h4, h5, h6⟩

theorem length_encodeMeta (entries : List Entry) (tensors : List TensorInfo) :
    (encodeMeta entries tensors).length =
      24 + (entries.flatMap Entry.encode).length + (tensors.flatMap TensorInfo.encode).length := by
  simp only [encodeMeta, List.length_append, length_encodeU32, length_encodeU64]

/-- The metadata loop and the tensor loop. -/
def readLoops (f : Bytes) (grants : ℕ → Bool) (kvCount tensorCount : ℕ) : Reader DenseModel := do
  let m ← loop f (readEntry f grants) kvCount 0 {}
  loop f (readTensor f grants) tensorCount 0 { m with config := deriveDims m.config }

/-- The loader comes to the metadata loop. -/
theorem load_start : loadGgufModel g.encode grants =
    (readLoops g.encode grants g.entries.length g.tensors.length 24).bind fun r => finish r.1 r.2 := by
  have hl := layout g
  have hne : g.encode ≠ [] := List.ne_nil_of_length_pos (by
    have := hl.magic.length_le (List.ne_nil_of_length_pos (by rw [length_encodeU32]; omega))
    rw [length_encodeU32] at this
    omega)
  have hbody : readBody g.encode grants 4 =
      readLoops g.encode grants g.entries.length g.tensors.length 24 := by
    rw [readBody, bind_ok hl.version.u32, bind_ok hl.tensorCount.u64, bind_ok hl.kvCount.u64,
      UInt64.toNat_ofNat', UInt64.toNat_ofNat', Nat.mod_eq_of_lt (lengths_lt g).1,
      Nat.mod_eq_of_lt (lengths_lt g).2]
    rfl
  rw [loadGgufModel, if_neg hne, hl.magic.u32, ← hbody]
  dsimp only [bind, Except.bind]
  rw [if_neg (not_not.mpr rfl)]

/-- The metadata loop on entries of which none is an alignment. -/
theorem readEntries_has {f : Bytes} (ha : Ample f grants) {entries : List Entry} {k j : ℕ}
    (hna : NoAlignment entries) (h : Has f k (entries.flatMap Entry.encode)) (hjk : j ≤ k) (m : DenseModel) :
    loop f (readEntry f grants) entries.length j m k =
      .ok (entries.foldl applyEntry m, k + (entries.flatMap Entry.encode).length) :=
  loop_foldl Entry.encode applyEntry Entry.encode_ne_nil entries j k m
    (fun e he j _ _ hk => readEntry_has ha (hna e he) hk j) h hjk

theorem applyEntry_tensors (m : DenseModel) (e : Entry) : (applyEntry m e).tensors = m.tensors := by
  have htokens (tokens : List (Bytes × ℕ)) (m : DenseModel) :
      (tokens.foldl (fun m p => addToken m p.2 p.1) m).tensors = m.tensors := by
    induction tokens generalizing m with
    | nil => rfl
    | cons p ps ih => rw [List.foldl_cons, ih]; rfl
  unfold applyEntry
  cases branchOf e.key.1 e.type.code with
  | tokens => exact htokens _ m
  | alignment | scores | field fld | skip => rfl

theorem foldl_applyEntry_tensors (entries : List Entry) (m : DenseModel) :
    (entries.foldl applyEntry m).tensors = m.tensors := by
  induction entries generalizing m with
  | nil => rfl
  | cons e es ih => rw [List.foldl_cons, ih, applyEntry_tensors]

/-- **The loader on a file without an alignment entry.** -/
theorem load_encode (ha : Ample g.encode grants) (hna : NoAlignment g.entries) :
    loadGgufModel g.encode grants =
      finish (loaded g.entries g.tensors) (encodeMeta g.entries g.tensors).length := by
  have hl := layout g
  have htensors := loop_foldl TensorInfo.encode
    (fun m t => { m with tensors := insertTensor m.tensors (tensorOf t) }) TensorInfo.encode_ne_nil
    g.tensors 0 (24 + (g.entries.flatMap Entry.encode).length)
    { g.entries.foldl applyEntry {} with config := deriveDims (g.entries.foldl applyEntry {}).config }
    (fun t _ j _ _ hk => readTensor_has ha hk j) hl.tensors (Nat.zero_le _)
  rw [foldl_insertTensor g.tensors _ (by simp [foldl_applyEntry_tensors]) g.names] at htensors
  rw [load_start, readLoops, bind_ok (readEntries_has ha hna hl.entries (Nat.zero_le 24) {}), htensors,
    length_encodeMeta]
  simp only [foldl_applyEntry_tensors, List.nil_append]
  rfl

end Files

end DenseLite.Gguf.ParseEncode
