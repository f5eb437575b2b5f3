import DenseLite.Vector.Index

/-! # The file of the vector index

`TurboQuantIndex::save` and `load`: a header of four words, a record for each slot, and a marker at the end.
`save` writes every id, in front of it its length in 32 bits; `load` takes ids of one to 4096 bytes only, and
clears the index before it reads the first record.

`Holds` says which records stand in a file. `load_cases` is what `load` makes of any file; from it
`roundTrips_iff` (what is loaded of a saved index) and `loadKeeps_iff` (what a rejected file changes). -/

namespace DenseLite.Vector.Persist

open DenseLite.Lib.ByteStream DenseLite.Lib.KeyMap DenseLite.Lib.Live DenseLite.Vector.Index

/-- `magic`. -/
def dlvqMagic : UInt32 := 0x444C5651

/-- `eof_marker`. -/
def eofMarker : UInt32 := 0x454F4621

/-- `packed_len`. -/
def packedLen (dim : ℕ) : ℕ := (dim + 1) / 2

/-! ### Writing -/

/-- A record as it stands in the file: the active flag is a byte. -/
structure Record (dim : ℕ) where
  id : Bytes
  codes : Codes dim
  activeB : UInt8
deriving DecidableEq, Repr

section Code

variable {dim : ℕ}

/-- The bytes of a record. -/
def Record.encode (r : Record dim) : Bytes :=
  encodeU32 (UInt32.ofNat r.id.length) ++ r.id.take (r.id.length % 2 ^ 32) ++ encodeU32 r.codes.scale ++
    encodeU32 r.codes.offset ++ [r.activeB] ++ r.codes.packed

/-- The slot that is made of a record. -/
def Record.vector (r : Record dim) : QuantizedVector dim := { toCodes := r.codes, active := r.activeB ≠ 0 }

/-- The record of a slot. -/
def recordOf (id : Bytes) (v : QuantizedVector dim) : Record dim :=
  ⟨id, v.toCodes, if v.active then 1 else 0⟩

/-- The header. -/
def header (version : UInt32) (dim n : ℕ) : Bytes :=
  encodeU32 dlvqMagic ++ encodeU32 version ++ encodeU32 (UInt32.ofNat dim) ++ encodeU32 (UInt32.ofNat n)

/-- The records that `save` writes; their number is a 32-bit one. -/
def recordsOf (s : TurboQuantIndex dim) : List (Record dim) :=
  ((s.idByIndex.zip s.vectors).map fun p => recordOf p.1 p.2).take (s.vectors.length % 2 ^ 32)

/-- `TurboQuantIndex::save`. -/
def save (s : TurboQuantIndex dim) : Bytes :=
  header 2 dim s.vectors.length ++ (recordsOf s).flatMap Record.encode ++ encodeU32 eofMarker

/-! ### Reading -/

/-- A byte read into a variable that holds zero. -/
def readByte (i : IStream) : UInt8 × IStream := (((i.readString 1).1.headD 0), (i.readString 1).2)

/-- One round of the loop of `load`; none is the jump to `load_error`. -/
def readRecord (dim : ℕ) (i : IStream) : Option (Record dim × IStream) :=
  if i.good = false then none
  else
    let (idLen, i) := i.readU32
    if idLen = 0 ∨ 4096 < idLen ∨ i.good = false then none
    else
      let (id, i) := i.readString idLen.toNat
      let (scale, i) := i.readU32
      let (offset, i) := i.readU32
      let (activeB, i) := readByte i
      let got := i.readString (packedLen dim)
      if got.2.good = false then none
      else some (⟨id, ⟨scale, offset, got.1, length_readString _ _⟩, activeB⟩, got.2)

/-- The loop of `load` over the records. -/
def readRecords : ℕ → TurboQuantIndex dim → IStream → Option (TurboQuantIndex dim × IStream)
  | 0, s, i => some (s, i)
  | n + 1, s, i => (readRecord dim i).bind fun r => readRecords n (push s r.1.id r.1.vector) r.2

/-- `min_expected_size`. -/
def minExpectedSize (dim n : ℕ) : ℕ := 16 + n * (13 + packedLen dim)

/-- What `load` does after the checks of the header, with the version and the number of records, on the
stream behind the header; none is the jump to `load_error`. -/
def loadRecords (dim : ℕ) (version n : UInt32) (i : IStream) : Option (TurboQuantIndex dim) :=
  (readRecords n.toNat {} i).bind fun r =>
    if version = 2 ∧ (r.2.readU32.1 ≠ eofMarker ∨ r.2.readU32.2.good = false) then none else some r.1

/-- `TurboQuantIndex::load` of a file into the index `t`; `reserved` says whether there is memory for the
number of slots in the header. -/
def load (t : TurboQuantIndex dim) (f : Bytes) (reserved : Bool) : TurboQuantIndex dim × Bool :=
  if f.length < 16 then (t, false)
  else
    let (magic, i) := (IStream.mk f true).readU32
    let (version, i) := i.readU32
    let (d, i) := i.readU32
    let (n, i) := i.readU32
    if magic ≠ dlvqMagic ∨ (version ≠ 1 ∧ version ≠ 2) ∨ d.toNat ≠ dim then (t, false)
    else if 10000000 < n then (t, false)
    else if f.length < minExpectedSize dim n.toNat then (t, false)
    else if version = 2 ∧ f.length < minExpectedSize dim n.toNat + 4 then (t, false)
    else if reserved = false then ({}, false)
    else
      match loadRecords dim version n i with
      | some s => (s, true)
      | none => ({}, false)

end Code

/-! ### Records -/

section Records

variable {dim : ℕ} {r : Record dim} {i i' : IStream}

/-- The reader takes the id. -/
def Record.Valid (r : Record dim) : Prop := 1 ≤ r.id.length ∧ r.id.length ≤ 4096

instance (r : Record dim) : Decidable r.Valid := instDecidableAnd

theorem toNat_ofNat_length (h : r.Valid) : (UInt32.ofNat r.id.length).toNat = r.id.length := by
  rw [UInt32.toNat_ofNat', Nat.mod_eq_of_lt (h.2.trans_lt (by decide))]

/-- The bytes of a record that the reader takes. -/
theorem encode_of_valid (h : r.Valid) : r.encode = encodeU32 (UInt32.ofNat r.id.length) ++ (r.id ++
    (encodeU32 r.codes.scale ++ (encodeU32 r.codes.offset ++ ([r.activeB] ++ r.codes.packed)))) := by
  unfold Record.encode
  rw [Nat.mod_eq_of_lt (h.2.trans_lt (by decide)), List.take_length]
  simp only [List.append_assoc]

theorem readByte_append (b : UInt8) (bs : Bytes) : readByte ⟨[b] ++ bs, true⟩ = (b, ⟨bs, true⟩) := by
  have hread := readString_append [b] bs
  rw [List.length_singleton] at hread
  rw [readByte, hread]
  rfl

theorem eq_of_readByte_good (h : (readByte i).2.good = true) :
    i = ⟨[(readByte i).1] ++ (readByte i).2.rest, true⟩ := by
  obtain ⟨b, hb⟩ := List.length_eq_one_iff.mp (length_readString 1 i)
  have hbyte : [(readByte i).1] = (i.readString 1).1 := by
    rw [readByte, hb]
    rfl
  rw [hbyte]
  exact eq_of_readString_good h

/-- A record is read back. -/
theorem readRecord_encode (h : r.Valid) (rest : Bytes) :
    readRecord dim ⟨r.encode ++ rest, true⟩ = some (r, ⟨rest, true⟩) := by
  obtain ⟨id, ⟨scale, offset, packed, hpacked⟩, activeB⟩ := r
  have hlen := toNat_ofNat_length h
  have hpos : UInt32.ofNat id.length ≠ 0 := by
    intro h0
    rw [h0] at hlen
    exact absurd (hlen ▸ h.1) (by decide)
  have hle : ¬ 4096 < UInt32.ofNat id.length := by
    rw [UInt32.lt_iff_toNat_lt, hlen, not_lt]
    exact h.2
  have hid : ∀ bs, (IStream.mk (id ++ bs) true).readString (UInt32.ofNat id.length).toNat = (id, ⟨bs, true⟩) := by
    intro bs
    rw [hlen]
    exact readString_append id bs
  have hstring : ∀ bs, (IStream.mk (packed ++ bs) true).readString (packedLen dim) = (packed, ⟨bs, true⟩) := by
    intro bs
    rw [packedLen, ← hpacked]
    exact readString_append packed bs
  rw [encode_of_valid h]
  unfold readRecord
  simp only [List.append_assoc, readU32_append, hid, readByte_append, hstring]
  simp [hpos, hle]

theorem rest_eq {a b c : Bytes} (h : i = ⟨a ++ b, true⟩) (hb : b = c) : i.rest = a ++ c := by
  rw [h, hb]

/-- What is read is a record that stands there. -/
theorem readRecord_eq_some (h : readRecord dim i = some (r, i')) :
    r.Valid ∧ i = ⟨r.encode ++ i'.rest, true⟩ ∧ i'.good = true := by
  unfold readRecord at h
  dsimp only at h
  split_ifs at h with h1 h2 h3
  cases h
  -- the stream is good at the end, so every read got what it asked for
  have hgood := Bool.eq_true_of_not_eq_false h3
  have e5 := eq_of_readString_good hgood
  have e4 := eq_of_readByte_good (congrArg IStream.good e5)
  have e3 := eq_of_readU32_good (congrArg IStream.good e4)
  have e2 := eq_of_readU32_good (congrArg IStream.good e3)
  have e1 := eq_of_readString_good (congrArg IStream.good e2)
  have e0 := eq_of_readU32_good (congrArg IStream.good e1)
  obtain ⟨hne, hle⟩ := not_or.mp h2
  have hlen := length_readString i.readU32.1.toNat i.readU32.2
  have hvalid : 1 ≤ (i.readU32.2.readString i.readU32.1.toNat).1.length ∧
      (i.readU32.2.readString i.readU32.1.toNat).1.length ≤ 4096 := by
    rw [hlen]
    have hpos : i.readU32.1.toNat ≠ 0 := fun h0 => hne (UInt32.toNat_inj.mp h0)
    have hle' : ¬ (4096 : UInt32).toNat < i.readU32.1.toNat := (not_or.mp hle).1
    have h4096 : (4096 : UInt32).toNat = 4096 := rfl
    omega
  refine ⟨hvalid, ?_, hgood⟩
  rw [encode_of_valid]
  · rw [hlen, UInt32.ofNat_toNat]
    refine e0.trans (congrArg (IStream.mk · true) ?_)
    simp only [List.append_assoc]
    exact congrArg _ (rest_eq e1 (rest_eq e2 (rest_eq e3 (rest_eq e4 (rest_eq e5 rfl)))))
  · exact hvalid

/-- The index with the slots of records added to it. -/
def pushAll (s : TurboQuantIndex dim) (rs : List (Record dim)) : TurboQuantIndex dim :=
  rs.foldl (fun s r => push s r.id r.vector) s

theorem readRecords_encode : ∀ (rs : List (Record dim)) (s : TurboQuantIndex dim) (rest : Bytes),
    (∀ r ∈ rs, r.Valid) →
    readRecords rs.length s ⟨rs.flatMap Record.encode ++ rest, true⟩ = some (pushAll s rs, ⟨rest, true⟩)
  | [], _, _, _ => rfl
  | r :: rs, s, rest, h => by
    rw [List.length_cons, readRecords, List.flatMap_cons, List.append_assoc,
      readRecord_encode (h r List.mem_cons_self), Option.bind_some]
    exact readRecords_encode rs _ rest fun r' hr' => h r' (List.mem_cons_of_mem r hr')

theorem readRecords_eq_some : ∀ (n : ℕ) {s s' : TurboQuantIndex dim} {i i' : IStream}, i.good = true →
    readRecords n s i = some (s', i') → ∃ rs : List (Record dim), rs.length = n ∧ (∀ r ∈ rs, r.Valid) ∧
      i.rest = rs.flatMap Record.encode ++ i'.rest ∧ i'.good = true ∧ s' = pushAll s rs
  | 0, s, s', i, i', hgood, h => by
    cases h
    exact ⟨[], rfl, by simp, rfl, hgood, rfl⟩
  | n + 1, s, s', i, i', _, h => by
    obtain ⟨⟨r, i1⟩, hr, hrest⟩ := Option.bind_eq_some_iff.mp h
    obtain ⟨hvalid, hi, hgood⟩ := readRecord_eq_some hr
    obtain ⟨rs, hlen, hall, hbytes, hgood', rfl⟩ := readRecords_eq_some n hgood hrest
    refine ⟨r :: rs, by rw [List.length_cons, hlen], ?_, ?_, hgood', rfl⟩
    · exact List.forall_mem_cons.mpr ⟨hvalid, hall⟩
    · rw [List.flatMap_cons, List.append_assoc]
      exact rest_eq hi hbytes

end Records

/-! ### Files -/

section Files

variable {dim : ℕ} {f : Bytes} {t : TurboQuantIndex dim} {rs : List (Record dim)}

/-- The checks of the header: the size of the file, the magic number, the version, the dimension, the number
of records, and the size again. -/
def HeaderOk (dim : ℕ) (f : Bytes) : Prop :=
  16 ≤ f.length ∧ u32At f 0 = dlvqMagic ∧ (u32At f 4 = 1 ∨ u32At f 4 = 2) ∧ (u32At f 8).toNat = dim ∧
    u32At f 12 ≤ 10000000 ∧ minExpectedSize dim (u32At f 12).toNat ≤ f.length ∧
    (u32At f 4 = 2 → minExpectedSize dim (u32At f 12).toNat + 4 ≤ f.length)

instance (dim : ℕ) (f : Bytes) : Decidable (HeaderOk dim f) := by unfold HeaderOk; infer_instance

/-- What comes after the records. -/
def trailer (version : UInt32) : Bytes := if version = 2 then encodeU32 eofMarker else []

/-- After the header stand the records, as many as it says and each with an id that the reader takes, and
what has to come after them. -/
structure Holds (f : Bytes) (rs : List (Record dim)) : Prop where
  length : rs.length = (u32At f 12).toNat
  valid : ∀ r ∈ rs, r.Valid
  bytes : ∃ rest, f.drop 16 = rs.flatMap Record.encode ++ (trailer (u32At f 4) ++ rest)

theorem loadRecords_eq_some {version n : UInt32} {i : IStream} {s : TurboQuantIndex dim} (hgood : i.good = true) :
    loadRecords dim version n i = some s ↔ ∃ rs : List (Record dim), rs.length = n.toNat ∧
      (∀ r ∈ rs, r.Valid) ∧ (∃ rest, i.rest = rs.flatMap Record.encode ++ (trailer version ++ rest)) ∧
      s = pushAll {} rs := by
  unfold loadRecords
  constructor
  · intro h
    obtain ⟨⟨s1, i1⟩, hr, hlast⟩ := Option.bind_eq_some_iff.mp h
    obtain ⟨rs, hlen, hvalid, hbytes, hgood1, rfl⟩ := readRecords_eq_some n.toNat hgood hr
    split_ifs at hlast with hmarker
    cases hlast
    refine ⟨rs, hlen, hvalid, ?_, rfl⟩
    by_cases hv : version = 2
    · have hread : ¬ (i1.readU32.1 ≠ eofMarker ∨ i1.readU32.2.good = false) := fun hbad => hmarker ⟨hv, hbad⟩
      obtain ⟨heof, hend⟩ := not_or.mp hread
      have hi1 := eq_of_readU32_good (Bool.eq_true_of_not_eq_false hend)
      rw [not_not.mp heof] at hi1
      refine ⟨i1.readU32.2.rest, ?_⟩
      rw [hbytes, trailer, if_pos hv]
      exact congrArg _ (congrArg IStream.rest hi1)
    · refine ⟨i1.rest, ?_⟩
      rw [hbytes, trailer, if_neg hv, List.nil_append]
  · rintro ⟨rs, hlen, hvalid, ⟨rest, hbytes⟩, rfl⟩
    have hi : i = ⟨rs.flatMap Record.encode ++ (trailer version ++ rest), true⟩ := by
      rw [← hbytes, ← hgood]
    rw [hi, ← hlen, readRecords_encode rs _ _ hvalid, Option.bind_some]
    by_cases hv : version = 2
    · rw [trailer, if_pos hv, readU32_append]
      simp
    · rw [if_neg fun hbad => hv hbad.1]

theorem headerOk_of_checks (h1 : ¬ f.length < 16)
    (h2 : ¬ (u32At f 0 ≠ dlvqMagic ∨ (u32At f 4 ≠ 1 ∧ u32At f 4 ≠ 2) ∨ (u32At f 8).toNat ≠ dim))
    (h3 : ¬ 10000000 < u32At f 12) (h4 : ¬ f.length < minExpectedSize dim (u32At f 12).toNat)
    (h5 : ¬ (u32At f 4 = 2 ∧ f.length < minExpectedSize dim (u32At f 12).toNat + 4)) : HeaderOk dim f := by
  obtain ⟨hmagic, h2⟩ := not_or.mp h2
  obtain ⟨hversion, hdim⟩ := not_or.mp h2
  exact ⟨Nat.not_lt.mp h1, not_not.mp hmagic, by tauto, not_not.mp hdim, UInt32.not_lt.mp h3, Nat.not_lt.mp h4,
    fun hv => Nat.not_lt.mp fun hlt => h5 ⟨hv, hlt⟩⟩

/-- A header that is not in order: nothing happens. -/
theorem load_of_not_headerOk (h : ¬ HeaderOk dim f) (reserved : Bool) : load t f reserved = (t, false) := by
  unfold load
  simp only [streamAt_zero, readU32_streamAt, Nat.zero_add, Nat.reduceAdd]
  split_ifs with h1 h2 h3 h4 h5 h6
  · rfl
  · rfl
  · rfl
  · rfl
  · rfl
  · exact absurd (headerOk_of_checks h1 h2 h3 h4 h5) h
  · exact absurd (headerOk_of_checks h1 h2 h3 h4 h5) h

/-- A header that is in order: the index is cleared, and the records are read if there is memory for them. -/
theorem load_of_headerOk (h : HeaderOk dim f) (reserved : Bool) : load t f reserved =
    if reserved = false then ({}, false)
    else
      match loadRecords dim (u32At f 4) (u32At f 12) (streamAt f 16) with
      | some s => (s, true)
      | none => ({}, false) := by
  obtain ⟨hsize, hmagic, hversion, hdim, hn, hmin, heof⟩ := h
  have hmagic' : ¬ (u32At f 0 ≠ dlvqMagic ∨ (u32At f 4 ≠ 1 ∧ u32At f 4 ≠ 2) ∨ (u32At f 8).toNat ≠ dim) := by
    rintro (hbad | ⟨h1, h2⟩ | hbad)
    · exact hbad hmagic
    · exact hversion.elim h1 h2
    · exact hbad hdim
  unfold load
  simp only [streamAt_zero, readU32_streamAt, Nat.zero_add, Nat.reduceAdd]
  rw [if_neg (Nat.not_lt.mpr hsize), if_neg hmagic', if_neg (UInt32.not_lt.mpr hn), if_neg (Nat.not_lt.mpr hmin),
    if_neg fun hbad => Nat.not_lt.mpr (heof hbad.1) hbad.2]

/-- **Loading.** A file whose header is in order and whose records are there is taken. -/
theorem load_of_holds (hok : HeaderOk dim f) (h : Holds f rs) : load t f true = (pushAll {} rs, true) := by
  have hgood : (streamAt f 16).good = true := by
    rw [streamAt_good]
    exact decide_eq_true hok.1
  have hrest : (streamAt f 16).rest = f.drop 16 := by
    unfold streamAt
    rw [if_pos hok.1]
  have hload := (loadRecords_eq_some hgood).mpr
    ⟨rs, h.length, h.valid, by rw [hrest]; exact h.bytes, rfl⟩
  rw [load_of_headerOk hok, if_neg (by decide), hload]

/-- **Loading.** Without memory, or without the records, the index is left empty. -/
theorem load_of_not_holds (hok : HeaderOk dim f) {reserved : Bool}
    (h : reserved = false ∨ ∀ rs : List (Record dim), ¬ Holds f rs) : load t f reserved = ({}, false) := by
  rw [load_of_headerOk hok]
  split_ifs with hreserved
  · rfl
  · have hgood : (streamAt f 16).good = true := by
      rw [streamAt_good]
      exact decide_eq_true hok.1
    have hrest : (streamAt f 16).rest = f.drop 16 := by
      unfold streamAt
      rw [if_pos hok.1]
    cases hload : loadRecords dim (u32At f 4) (u32At f 12) (streamAt f 16) with
    | none => rfl
    | some s =>
      obtain ⟨rs, hlen, hvalid, hbytes, -⟩ := (loadRecords_eq_some hgood).mp hload
      exact absurd ⟨hlen, hvalid, hrest ▸ hbytes⟩ (h.resolve_left hreserved rs)

end Files

/-! ### The index that is loaded -/

section Loaded

variable {dim : ℕ} {s : TurboQuantIndex dim} {rs : List (Record dim)}

/-- The two id tables are inverse to each other. -/
def Inverse (s : TurboQuantIndex dim) : Prop := ∀ id i, find id s.indexById = some i ↔ s.idByIndex[i]? = some id

theorem Inverse.nodup (h : Inverse s) : s.idByIndex.Nodup := by
  rw [List.nodup_iff_getElem?_ne_getElem?]
  intro i j hij hj heq
  obtain ⟨id, hid⟩ : ∃ id, s.idByIndex[j]? = some id := ⟨_, List.getElem?_eq_getElem hj⟩
  have hi := (h id i).mpr (heq.trans hid)
  rw [(h id j).mpr hid] at hi
  exact hij.ne (Option.some.inj hi).symm

/-- A list to which every push adds one entry. -/
theorem list_pushAll {α : Type} {list : TurboQuantIndex dim → List α} {entry : Record dim → α}
    (hpush : ∀ s r, list (push s r.id r.vector) = list s ++ [entry r]) :
    ∀ (rs : List (Record dim)) (s : TurboQuantIndex dim), list (pushAll s rs) = list s ++ rs.map entry
  | [], s => by simp [pushAll]
  | r :: rs, s => by
    have hrest := list_pushAll hpush rs (push s r.id r.vector)
    rw [pushAll, List.foldl_cons, ← pushAll, hrest, hpush, List.map_cons, List.append_assoc,
      List.singleton_append]

theorem vectors_pushAll (rs : List (Record dim)) (s : TurboQuantIndex dim) :
    (pushAll s rs).vectors = s.vectors ++ rs.map Record.vector :=
  list_pushAll (fun _ _ => rfl) rs s

theorem idByIndex_pushAll (rs : List (Record dim)) (s : TurboQuantIndex dim) :
    (pushAll s rs).idByIndex = s.idByIndex ++ rs.map Record.id :=
  list_pushAll (fun _ _ => rfl) rs s

/-- Records with ids of their own. -/
theorem consistent_pushAll : ∀ (rs : List (Record dim)) {s : TurboQuantIndex dim}, Consistent s →
    (rs.map Record.id).Nodup → (∀ r ∈ rs, find r.id s.indexById = none) →
    s.vectors.length + rs.length ≤ 2 ^ 32 → Consistent (pushAll s rs)
  | [], _, hs, _, _, _ => hs
  | r :: rs, s, hs, hnd, hnew, hlen => by
    rw [List.map_cons, List.nodup_cons] at hnd
    rw [List.length_cons] at hlen
    refine consistent_pushAll rs (consistent_push hs (hnew r List.mem_cons_self) (by omega) r.vector) hnd.2 ?_ ?_
    · intro r' hr'
      have hne : r'.id ≠ r.id := fun heq => hnd.1 (heq ▸ List.mem_map_of_mem hr')
      exact (find_set_of_ne hne).trans (hnew r' (List.mem_cons_of_mem r hr'))
    · have hpush : (push s r.id r.vector).vectors.length = s.vectors.length + 1 := List.length_append
      dsimp only
      omega

/-- The tables of a loaded index are inverse exactly when the ids in the file are distinct. -/
theorem inverse_pushAll_iff (hlen : rs.length ≤ 2 ^ 32) :
    Inverse (pushAll {} rs) ↔ (rs.map Record.id).Nodup := by
  constructor
  · intro h
    have hnd := h.nodup
    rwa [idByIndex_pushAll, List.nil_append] at hnd
  · intro hnd
    exact (consistent_pushAll rs consistent_empty hnd (fun _ _ => rfl) (by simpa using hlen)).inverse

end Loaded

/-! ### A rejected file -/

section Rejected

variable {dim : ℕ}

/-- A file that is rejected leaves the index as it is, and one that is taken has tables that are inverse to each
other. -/
def LoadKeeps (t : TurboQuantIndex dim) (f : Bytes) (reserved : Bool) : Prop :=
  ((load t f reserved).2 = false → (load t f reserved).1 = t) ∧
    ((load t f reserved).2 = true → Inverse (load t f reserved).1)

/-- **Loading keeps** what it should exactly when the header is rejected, or the records are there with
distinct ids, or there was nothing in the index. -/
theorem loadKeeps_iff (t : TurboQuantIndex dim) (f : Bytes) (reserved : Bool) :
    LoadKeeps t f reserved ↔ ¬ HeaderOk dim f ∨
      (reserved = true ∧ ∃ rs : List (Record dim), Holds f rs ∧ (rs.map Record.id).Nodup) ∨
      (t = {} ∧ (reserved = false ∨ ∀ rs : List (Record dim), ¬ Holds f rs)) := by
  unfold LoadKeeps
  by_cases hok : HeaderOk dim f
  · by_cases hholds : reserved = false ∨ ∀ rs : List (Record dim), ¬ Holds f rs
    · rw [load_of_not_holds hok hholds]
      constructor
      · exact fun h => Or.inr (Or.inr ⟨(h.1 rfl).symm, hholds⟩)
      · rintro (hbad | ⟨rfl, rs, hrs, -⟩ | ⟨rfl, -⟩)
        · exact absurd hok hbad
        · exact absurd hrs (hholds.resolve_left (by decide) rs)
        · exact ⟨fun _ => rfl, fun h => by cases h⟩
    · obtain ⟨hreserved, hsome⟩ := not_or.mp hholds
      rw [Bool.not_eq_false] at hreserved
      push Not at hsome
      obtain ⟨rs, hrs⟩ := hsome
      subst hreserved
      have hlen : ∀ {rs : List (Record dim)}, Holds f rs → rs.length ≤ 2 ^ 32 := fun hrs =>
        hrs.length ▸ (u32At f 12).toNat_lt.le
      constructor
      · rw [load_of_holds hok hrs]
        exact fun h => Or.inr (Or.inl ⟨rfl, rs, hrs, (inverse_pushAll_iff (hlen hrs)).mp (h.2 rfl)⟩)
      · rintro (hbad | ⟨-, rs', hrs', hnd⟩ | ⟨-, h⟩)
        · exact absurd hok hbad
        · rw [load_of_holds hok hrs']
          exact ⟨fun h => (by cases h), fun _ => (inverse_pushAll_iff (hlen hrs')).mpr hnd⟩
        · exact absurd hrs (h.resolve_left (by decide) rs)
  · rw [load_of_not_headerOk hok]
    exact iff_of_true ⟨fun _ => rfl, fun h => by cases h⟩ (Or.inl hok)

theorem length_oneByte (c : UInt8) : [c].length = (1 + 1) / 2 := rfl

/-- Codes of one coordinate. -/
def oneByte (c : UInt8) : Codes 1 where
  scale := 0
  offset := 0
  packed := [c]
  length_packed := length_oneByte c

/-- An index with one slot. -/
def oneSlot : TurboQuantIndex 1 := add {} [97] (oneByte 7)

/-- A file for one record, whose id has no bytes. -/
def emptyIdFile : Bytes := header 2 1 1 ++ List.replicate 18 0

theorem not_loadKeeps_oneSlot : ¬ LoadKeeps oneSlot emptyIdFile true := by
  intro h
  have hload : load oneSlot emptyIdFile true = ({}, false) := by decide
  have hkeeps := h.1 (by rw [hload])
  rw [hload] at hkeeps
  revert hkeeps
  decide

end Rejected

/-! ### The round trip -/

section RoundTrip

variable {dim : ℕ} {s : TurboQuantIndex dim}

/-- The same slots, the same ids, and the same slot for each id. -/
def SameIndex (s s' : TurboQuantIndex dim) : Prop :=
  s'.vectors = s.vectors ∧ s'.idByIndex = s.idByIndex ∧ ∀ id, find id s'.indexById = find id s.indexById

/-- What is saved of an index is loaded into any other one of the same dimension. -/
def RoundTrips (s : TurboQuantIndex dim) : Prop :=
  ∀ t : TurboQuantIndex dim, (load t (save s) true).2 = true ∧ SameIndex s (load t (save s) true).1

theorem Consistent.sameIndex {s' : TurboQuantIndex dim} (hs : Consistent s) (hs' : Consistent s')
    (hvectors : s'.vectors = s.vectors) (hids : s'.idByIndex = s.idByIndex) : SameIndex s s' := by
  refine ⟨hvectors, hids, fun id => Option.ext fun i => ?_⟩
  rw [hs'.inverse, hs.inverse, hids]

theorem length_recordsOf (hs : Consistent s) (hlen : s.vectors.length < 2 ^ 32) :
    (recordsOf s).length = s.vectors.length := by
  rw [recordsOf, Nat.mod_eq_of_lt hlen, List.length_take, List.length_map, List.length_zip, hs.length_ids]
  omega

theorem recordsOf_eq (hlen : s.vectors.length < 2 ^ 32) :
    recordsOf s = (s.idByIndex.zip s.vectors).map fun p => recordOf p.1 p.2 := by
  rw [recordsOf, Nat.mod_eq_of_lt hlen, List.take_of_length_le]
  rw [List.length_map, List.length_zip]
  omega

theorem map_id_recordsOf (hs : Consistent s) (hlen : s.vectors.length < 2 ^ 32) :
    (recordsOf s).map Record.id = s.idByIndex := by
  rw [recordsOf_eq hlen, List.map_map]
  exact List.map_fst_zip hs.length_ids.le

theorem vector_recordOf (id : Bytes) (v : QuantizedVector dim) : (recordOf id v).vector = v := by
  obtain ⟨codes, active⟩ := v
  cases active <;> rfl

theorem map_vector_recordsOf (hs : Consistent s) (hlen : s.vectors.length < 2 ^ 32) :
    (recordsOf s).map Record.vector = s.vectors := by
  rw [recordsOf_eq hlen, List.map_map]
  have hfun : (Record.vector ∘ fun p : Bytes × QuantizedVector dim => recordOf p.1 p.2) = Prod.snd :=
    funext fun p => vector_recordOf p.1 p.2
  rw [hfun]
  exact List.map_snd_zip hs.length_ids.ge

/-- The fields of a header. -/
theorem header_fields (version : UInt32) (dim n : ℕ) (rest : Bytes) :
    u32At (header version dim n ++ rest) 0 = dlvqMagic ∧ u32At (header version dim n ++ rest) 4 = version ∧
      u32At (header version dim n ++ rest) 8 = UInt32.ofNat dim ∧
      u32At (header version dim n ++ rest) 12 = UInt32.ofNat n ∧ (header version dim n ++ rest).drop 16 = rest :=
  ⟨decodeU32_encodeU32 _, decodeU32_encodeU32 _, decodeU32_encodeU32 _, decodeU32_encodeU32 _, rfl⟩

theorem length_encode (r : Record dim) :
    r.encode.length = 13 + packedLen dim + (r.id.take (r.id.length % 2 ^ 32)).length := by
  simp only [Record.encode, packedLen, List.length_append, length_encodeU32, List.length_singleton,
    r.codes.length_packed]
  omega

theorem length_flatMap_encode : ∀ rs : List (Record dim),
    rs.length * (13 + packedLen dim) ≤ (rs.flatMap Record.encode).length
  | [] => by simp
  | r :: rs => by
    have hrest := length_flatMap_encode rs
    rw [List.length_cons, List.flatMap_cons, List.length_append, length_encode, Nat.add_mul]
    omega

/-- The header that is written passes the checks. -/
theorem headerOk_save (hs : Consistent s) (hlen : s.vectors.length ≤ 10000000) (hdim : dim < 2 ^ 32) :
    HeaderOk dim (save s) := by
  have hsize := length_flatMap_encode (recordsOf s)
  rw [length_recordsOf hs (by omega)] at hsize
  have hsave : save s = header 2 dim s.vectors.length ++
      ((recordsOf s).flatMap Record.encode ++ encodeU32 eofMarker) := List.append_assoc _ _ _
  have hlength : (save s).length = 16 + (((recordsOf s).flatMap Record.encode).length + 4) := by
    rw [hsave, List.length_append, List.length_append, length_encodeU32]
    rfl
  obtain ⟨hmagic, hversion, hd, hn, -⟩ := header_fields 2 dim s.vectors.length
    ((recordsOf s).flatMap Record.encode ++ encodeU32 eofMarker)
  rw [← hsave] at hmagic hversion hd hn
  have hcount : (u32At (save s) 12).toNat = s.vectors.length := by
    rw [hn, UInt32.toNat_ofNat', Nat.mod_eq_of_lt (by omega)]
  refine ⟨by omega, hmagic, Or.inr hversion, ?_, ?_, ?_, fun _ => ?_⟩
  · rw [hd, UInt32.toNat_ofNat', Nat.mod_eq_of_lt hdim]
  · rw [UInt32.le_iff_toNat_le, hcount]
    exact hlen
  · rw [minExpectedSize, hcount]
    omega
  · rw [minExpectedSize, hcount]
    omega

/-- The records that are written stand in the file, if the reader takes their ids. -/
theorem holds_save (hs : Consistent s) (hlen : s.vectors.length < 2 ^ 32)
    (hids : ∀ id ∈ s.idByIndex, 1 ≤ id.length ∧ id.length ≤ 4096) : Holds (save s) (recordsOf s) := by
  have hsave : save s = header 2 dim s.vectors.length ++
      ((recordsOf s).flatMap Record.encode ++ encodeU32 eofMarker) := List.append_assoc _ _ _
  obtain ⟨-, hversion, -, hn, hrest⟩ := header_fields 2 dim s.vectors.length
    ((recordsOf s).flatMap Record.encode ++ encodeU32 eofMarker)
  rw [← hsave] at hversion hn hrest
  refine ⟨?_, fun r hr => ?_, [], ?_⟩
  · rw [length_recordsOf hs (by omega), hn, UInt32.toNat_ofNat', Nat.mod_eq_of_lt (by omega)]
  · refine hids r.id ?_
    rw [← map_id_recordsOf hs (by omega)]
    exact List.mem_map_of_mem hr
  · rw [hrest, hversion, trailer, if_pos rfl, List.append_nil]

/-- **A saved index is loaded** if it has not too many slots and the reader takes their ids. -/
theorem load_save (hs : Consistent s) (hlen : s.vectors.length ≤ 10000000) (hdim : dim < 2 ^ 32)
    (hids : ∀ id ∈ s.idByIndex, 1 ≤ id.length ∧ id.length ≤ 4096) (t : TurboQuantIndex dim) :
    ∃ s', load t (save s) true = (s', true) ∧ Consistent s' ∧ SameIndex s s' := by
  have hlt : s.vectors.length < 2 ^ 32 := hlen.trans_lt (by decide)
  have hmap := map_id_recordsOf hs hlt
  have hcons : Consistent (pushAll {} (recordsOf s)) := by
    refine consistent_pushAll _ consistent_empty ?_ (fun _ _ => rfl) ?_
    · rw [hmap]
      exact Inverse.nodup hs.inverse
    · rw [length_recordsOf hs hlt]
      simp only [List.length_nil]
      omega
  refine ⟨_, load_of_holds (headerOk_save hs hlen hdim) (holds_save hs hlt hids), hcons,
    Consistent.sameIndex hs hcons ?_ ?_⟩
  · rw [vectors_pushAll, List.nil_append, map_vector_recordsOf hs hlt]
  · rw [idByIndex_pushAll, List.nil_append, hmap]

/-- A record whose id is too short or too long for the reader. -/
theorem readRecord_invalid {r : Record dim} (h : ¬ r.Valid) (hlt : r.id.length < 2 ^ 32) (rest : Bytes) :
    readRecord dim ⟨r.encode ++ rest, true⟩ = none := by
  have hword : (UInt32.ofNat r.id.length).toNat = r.id.length := by
    rw [UInt32.toNat_ofNat', Nat.mod_eq_of_lt hlt]
  have hbad : UInt32.ofNat r.id.length = 0 ∨ 4096 < UInt32.ofNat r.id.length := by
    rw [UInt32.lt_iff_toNat_lt, hword, ← UInt32.toNat_inj, hword]
    have h4096 : (4096 : UInt32).toNat = 4096 := rfl
    have h0 : (0 : UInt32).toNat = 0 := rfl
    unfold Record.Valid at h
    omega
  unfold readRecord Record.encode
  simp only [List.append_assoc, readU32_append]
  rw [if_neg (by decide), if_pos (hbad.imp_right Or.inl)]

theorem readRecords_invalid : ∀ (rs : List (Record dim)) (s : TurboQuantIndex dim) (rest : Bytes),
    (∀ r ∈ rs, r.id.length < 2 ^ 32) → (∃ r ∈ rs, ¬ r.Valid) →
    readRecords rs.length s ⟨rs.flatMap Record.encode ++ rest, true⟩ = none
  | [], _, _, _, h => by simp at h
  | r :: rs, s, rest, hlt, h => by
    rw [List.length_cons, readRecords, List.flatMap_cons, List.append_assoc]
    by_cases hr : r.Valid
    · rw [readRecord_encode hr, Option.bind_some]
      refine readRecords_invalid rs _ rest (fun r' hr' => hlt r' (List.mem_cons_of_mem r hr')) ?_
      obtain ⟨r', hmem, hinvalid⟩ := h
      rcases List.mem_cons.mp hmem with rfl | hmem
      · exact absurd hr hinvalid
      · exact ⟨r', hmem, hinvalid⟩
    · rw [readRecord_invalid hr (hlt r List.mem_cons_self), Option.bind_none]

/-- **A saved index is lost** if it has too many slots, or an id that the reader does not take. -/
theorem load_save_lost (hs : Consistent s) (hlen : s.vectors.length < 2 ^ 32)
    (hlt : ∀ id ∈ s.idByIndex, id.length < 2 ^ 32)
    (h : 10000000 < s.vectors.length ∨ ∃ id ∈ s.idByIndex, ¬ (1 ≤ id.length ∧ id.length ≤ 4096)) :
    load ({} : TurboQuantIndex dim) (save s) true = ({}, false) := by
  have hsave : save s = header 2 dim s.vectors.length ++
      ((recordsOf s).flatMap Record.encode ++ encodeU32 eofMarker) := List.append_assoc _ _ _
  obtain ⟨-, -, -, hn, hrest⟩ := header_fields 2 dim s.vectors.length
    ((recordsOf s).flatMap Record.encode ++ encodeU32 eofMarker)
  rw [← hsave] at hn hrest
  have hcount : (u32At (save s) 12).toNat = s.vectors.length := by
    rw [hn, UInt32.toNat_ofNat', Nat.mod_eq_of_lt hlen]
  by_cases hok : HeaderOk dim (save s)
  · have hbad : ∃ r ∈ recordsOf s, ¬ r.Valid := by
      have hle := UInt32.le_iff_toNat_le.mp hok.2.2.2.2.1
      rw [hcount] at hle
      obtain ⟨id, hid, hinvalid⟩ := h.resolve_left (Nat.not_lt.mpr hle)
      rw [← map_id_recordsOf hs hlen] at hid
      obtain ⟨r, hr, rfl⟩ := List.mem_map.mp hid
      exact ⟨r, hr, hinvalid⟩
    have hshort : ∀ r ∈ recordsOf s, r.id.length < 2 ^ 32 := fun r hr => by
      refine hlt r.id ?_
      rw [← map_id_recordsOf hs hlen]
      exact List.mem_map_of_mem hr
    have hstream : streamAt (save s) 16 = ⟨(recordsOf s).flatMap Record.encode ++ encodeU32 eofMarker, true⟩ := by
      unfold streamAt
      rw [if_pos hok.1, hrest]
    rw [load_of_headerOk hok, if_neg (by decide), hstream, loadRecords, hcount, ← length_recordsOf hs hlen,
      readRecords_invalid _ _ _ hshort hbad]
    rfl
  · exact load_of_not_headerOk hok true

/-- The round trip of a consistent index, exactly. -/
theorem roundTrips_of_consistent (hs : Consistent s) (hlen : s.vectors.length < 10000000) :
    RoundTrips s ↔ dim < 2 ^ 32 ∧ ∀ id ∈ s.idByIndex, 1 ≤ id.length ∧ id.length ≤ 4096 := by
  constructor
  · intro h
    obtain ⟨htrue, -, hids, -⟩ := h {}
    by_cases hok : HeaderOk dim (save s)
    · by_cases hsome : ∃ rs : List (Record dim), Holds (save s) rs
      · obtain ⟨rs, hrs⟩ := hsome
        rw [load_of_holds hok hrs, idByIndex_pushAll, List.nil_append] at hids
        refine ⟨hok.2.2.2.1 ▸ (u32At (save s) 8).toNat_lt, fun id hid => ?_⟩
        rw [← hids] at hid
        obtain ⟨r, hr, rfl⟩ := List.mem_map.mp hid
        exact hrs.valid r hr
      · rw [load_of_not_holds hok (Or.inr fun rs hrs => hsome ⟨rs, hrs⟩)] at htrue
        cases htrue
    · rw [load_of_not_headerOk hok] at htrue
      cases htrue
  · rintro ⟨hdim, hids⟩ t
    obtain ⟨s', hload, -, hsame⟩ := load_save hs hlen.le hdim hids t
    rw [hload]
    exact ⟨rfl, hsame⟩

/-- **The round trip** of an index that calls lead to. -/
theorem roundTrips_iff (ops : List (Op dim)) (hlen : (ops.foldl step {}).vectors.length < 10000000) :
    RoundTrips (ops.foldl step {}) ↔
      dim < 2 ^ 32 ∧ ∀ id codes, Op.add id codes ∈ ops → 1 ≤ id.length ∧ id.length ≤ 4096 := by
  have hlt : (ops.foldl step {}).vectors.length < 2 ^ 32 := hlen.trans (by decide)
  rw [roundTrips_of_consistent (consistent_run ops consistent_empty hlt) hlen]
  simp only [mem_idByIndex_run _ ops consistent_empty hlt, List.not_mem_nil, false_or, forall_exists_index]

/-- A slot with an id without bytes. -/
def emptyId : List (Op 1) := [.add [] (oneByte 7)]

theorem not_roundTrips_emptyId : ¬ RoundTrips (emptyId.foldl step {}) := by
  intro h
  have hload : (load ({} : TurboQuantIndex 1) (save (emptyId.foldl step {})) true).2 = false := by decide
  rw [(h {}).1] at hload
  cases hload

/-- Two ids, of which one is removed. -/
def twoIds : List (Op 1) := [.add [97] (oneByte 7), .add [98] (oneByte 8), .remove [97]]

theorem roundTrips_twoIds : RoundTrips (twoIds.foldl step {}) :=
  (roundTrips_iff twoIds (by decide)).mpr ⟨by decide, fun id codes hmem => by
    simp only [twoIds, List.mem_cons, Op.add.injEq, reduceCtorEq, List.not_mem_nil, or_false] at hmem
    rcases hmem with ⟨rfl, -⟩ | ⟨rfl, -⟩ <;> decide⟩

end RoundTrip

end DenseLite.Vector.Persist
