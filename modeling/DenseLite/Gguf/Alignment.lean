import DenseLite.Gguf.Fields

/-! # After an alignment entry

The branch of `general.alignment` reads its value and leaves the cursor before it. If the entry is the
very last thing that is read, this does no harm (`load_nothing_follows`). Otherwise the loader takes the
value, followed by the low half of the next length, for a length of at least `2 ^ 32`, and no such
string is in a file of up to that many bytes (`load_followed`). -/

namespace DenseLite.Gguf.Alignment

open DenseLite.Lib.ByteStream DenseLite.Lib.Cursor DenseLite.Gguf.Config DenseLite.Gguf.Format
open DenseLite.Gguf.Loader DenseLite.Gguf.ParseEncode DenseLite.Gguf.Fields
open DenseLite.Infer.State (ascii occursIn F32 Token TensorType)

/-- The value of `general.alignment`, or its default. -/
def alignmentOf (entries : List Entry) : UInt32 :=
  match entries.find? fun e => branch e = .alignment with
  | some e => decodeU32 e.value.raw
  | none => 32

/-- Nothing follows an alignment entry: no other entry and no tensor info. -/
def NothingFollows (entries : List Entry) (tensors : List TensorInfo) : Prop :=
  ∀ es e es', entries = es ++ e :: es' → branch e = .alignment → es' = [] ∧ tensors = []

/-- A file of up to 4 GiB whose keys and tensor names are not empty. -/
structure Moderate (g : File) : Prop where
  keys : ∀ e ∈ g.entries, e.key.1 ≠ []
  names : ∀ t ∈ g.tensors, t.name.1 ≠ []
  size : g.encode.length ≤ 2 ^ 32

/-! ### The first alignment entry -/

section First

variable {entries : List Entry}

theorem first_alignment (entries : List Entry) : NoAlignment entries ∨
    ∃ es e es', entries = es ++ e :: es' ∧ NoAlignment es ∧ branch e = .alignment := by
  cases hfind : entries.find? fun e => branch e = .alignment with
  | none =>
    refine Or.inl fun e he => ?_
    simpa using List.find?_eq_none.mp hfind e he
  | some e =>
    obtain ⟨hb, es, es', heq, hes⟩ := List.find?_eq_some_iff_append.mp hfind
    exact Or.inr ⟨es, e, es', heq, fun x hx => by simpa using hes x hx, of_decide_eq_true hb⟩

theorem alignmentOf_eq_default (h : NoAlignment entries) : alignmentOf entries = 32 := by
  have hfind : entries.find? (fun e => branch e = .alignment) = none :=
    List.find?_eq_none.mpr fun e he => by simpa using h e he
  rw [alignmentOf, hfind]

theorem alignmentOf_eq {es es' : List Entry} {e : Entry} (h : NoAlignment es)
    (hb : branch e = .alignment) : alignmentOf (es ++ e :: es') = decodeU32 e.value.raw := by
  have hfind : (es ++ e :: es').find? (fun e => branch e = .alignment) = some e :=
    List.find?_eq_some_iff_append.mpr ⟨by simpa using hb, es, es', rfl, fun x hx => by simpa using h x hx⟩
  rw [alignmentOf, hfind]

theorem nothingFollows_of_noAlignment (h : NoAlignment entries) (tensors : List TensorInfo) :
    NothingFollows entries tensors := by
  rintro es e es' rfl hb
  exact absurd hb (h e (by simp))

theorem nothingFollows_concat (h : NoAlignment entries) (e : Entry) : NothingFollows (entries ++ [e]) [] := by
  intro es d ds heq hd
  refine ⟨?_, rfl⟩
  rcases List.eq_nil_or_concat ds with hnil | ⟨ds', x, rfl⟩
  · exact hnil
  · rw [List.concat_eq_append, ← List.cons_append, ← List.append_assoc] at heq
    have hmem : d ∈ entries := by rw [(List.append_inj' heq rfl).1]; simp
    exact absurd hd (h d hmem)

/-- The alignment after all entries, when nothing follows the one that sets it. -/
theorem alignment_of_nothingFollows {tensors : List TensorInfo} (h : NothingFollows entries tensors) :
    (entries.foldl applyEntry {}).config.alignment = alignmentOf entries := by
  rcases first_alignment entries with hna | ⟨es, e, es', rfl, hna, hb⟩
  · rw [alignment_foldl hna, alignmentOf_eq_default hna]
  · obtain ⟨rfl, -⟩ := h es e es' rfl hb
    rw [alignmentOf_eq hna hb, List.foldl_append, List.foldl_cons, List.foldl_nil]
    unfold applyEntry
    rw [show branchOf e.key.1 e.type.code = .alignment from hb]

end First

/-! ### Reading past it -/

section Read

variable {f : Bytes} {grants : ℕ → Bool} {k : ℕ} {m : DenseModel}

/-- An alignment entry is applied, and the cursor stays before its value. -/
theorem readEntry_alignment (ha : Ample f grants) {e : Entry} (hb : branch e = .alignment)
    (h : Has f k e.encode) (j : ℕ) :
    ∃ k', readEntry f grants j m k = .ok (applyEntry m e, k') ∧ Has f k' e.value.encode ∧
      e.value.encode.length = 4 ∧ k' + 4 = k + e.encode.length := by
  obtain ⟨k', hread, hval, hlen⟩ := readEntry_value (m := m) ha h j
  have hskip : branch e ≠ .skip := by rw [hb]; simp
  have htype : e.type.code ∈ Branch.types (branch e) := type_of_branch hskip
  rw [hb] at htype
  have hwidth := width_of_code (Or.inl (List.mem_singleton.mp htype))
  obtain ⟨hraw, hrawlen⟩ := length_raw (by simp [ValueType.isScalar, hwidth]) e.value
  have hfour : e.value.encode.length = 4 := by rw [hraw, hrawlen, hwidth]
  refine ⟨k', ?_, hval, hfour, by omega⟩
  have hpeek : peekU32 f k' = .ok (decodeU32 e.value.raw, k') := by
    rw [peekU32, u32, map_ok (read_word hwidth hval)]
    rfl
  rw [hread, show branchOf e.key.1 e.type.code = .alignment from hb, readValue, bind_ok hpeek]
  unfold applyEntry
  rw [show branchOf e.key.1 e.type.code = .alignment from hb]
  rfl

/-- A number of four bytes, followed by the eight bytes of a length below `2 ^ 32`, read as a number
of eight bytes. -/
theorem leVal_misread {w : Bytes} (hw : w.length = 4) (n : ℕ) :
    leVal ((w ++ leBytes 8 n).take 8) = leVal w + 2 ^ 32 * (n % 2 ^ 32) := by
  have htake : (w ++ leBytes 8 n).take 8 = w ++ leBytes 4 n := by
    rw [List.take_append, List.take_of_length_le (by omega), hw, take_leBytes 4 4]
  rw [htake, leVal_append, hw, leVal_leBytes]
  rfl

/-- A string that is read four bytes too early, with something before its length that is not part
of it. -/
theorem readString_misread {w : Bytes} {s : Str} (hw : w.length = 4) (hs : s.1 ≠ [])
    (hsize : f.length ≤ 2 ^ 32) (h : Has f k (w ++ encodeStr s)) :
    ∃ e, readString f grants k = .error e := by
  have hlen := h.length_le (by simp [encodeStr_ne_nil])
  have hpos := List.length_pos_iff.mpr hs
  rw [List.length_append, length_encodeStr, hw] at hlen
  have hread : u64 f k = .ok (decodeU64 ((w ++ leBytes 8 s.1.length).take 8), k + 8) := by
    have hhas : Has f k ((w ++ leBytes 8 s.1.length).take 8) := by
      refine (List.take_prefix _ _).trans ?_
      have hsplit : w ++ encodeStr s = (w ++ leBytes 8 s.1.length) ++ s.1 := by
        rw [encodeStr, encodeU64, toNat_ofNat_length, List.append_assoc]
      rw [hsplit] at h
      exact (List.prefix_append _ _).trans h
    have hread := hhas.read
    rw [show ((w ++ leBytes 8 s.1.length).take 8).length = 8 by simp [hw]] at hread
    exact map_ok hread _
  have hval : 2 ^ 32 ≤ (decodeU64 ((w ++ leBytes 8 s.1.length).take 8)).toNat := by
    have hwlt := leVal_lt w
    rw [hw] at hwlt
    rw [decodeU64, UInt64.toNat_ofNat', leVal_misread hw, Nat.mod_eq_of_lt (by omega)]
    omega
  rw [readString, bind_ok hread]
  by_cases hgrant : grants (decodeU64 ((w ++ leBytes 8 s.1.length).take 8)).toNat = true
  · refine ⟨.outside, ?_⟩
    rw [bind_ok (allocate_ok hgrant), DenseLite.Lib.Cursor.read, if_neg (by omega)]
  · refine ⟨.threw, ?_⟩
    rw [bind_error]
    rw [allocate, if_neg hgrant]
    rfl

end Read

/-! ### Loading -/

section Load

variable (g : File) {grants : ℕ → Bool} {es es' : List Entry} {e : Entry}

/-- The metadata loop up to and with the first alignment entry. -/
theorem read_to_alignment (ha : Ample g.encode grants) (heq : g.entries = es ++ e :: es')
    (hna : NoAlignment es) (hb : branch e = .alignment) :
    ∃ k', loop g.encode (readEntry g.encode grants) g.entries.length 0 {} 24 =
        loop g.encode (readEntry g.encode grants) es'.length (es.length + 1)
          ((es ++ [e]).foldl applyEntry {}) k' ∧
      e.value.encode.length = 4 ∧ Has g.encode k' (e.value.encode ++
        (es'.flatMap Entry.encode ++ g.tensors.flatMap TensorInfo.encode)) := by
  have hhas := has_append.mpr ⟨(layout g).entries, (layout g).tensors⟩
  rw [heq, List.flatMap_append, List.flatMap_cons, List.append_assoc, List.append_assoc, has_append,
    has_append] at hhas
  obtain ⟨hes, he, hrest⟩ := hhas
  obtain ⟨k', hread, hval, hfour, hk'⟩ := readEntry_alignment (m := es.foldl applyEntry {}) ha hb he es.length
  have hlen := he.length_le e.encode_ne_nil
  have hle := length_le_flatMap Entry.encode_ne_nil es
  refine ⟨k', ?_, hfour, has_append.mpr ⟨hval, ?_⟩⟩
  · rw [heq, List.length_append, List.length_cons, loop_add,
      bind_ok (readEntries_has ha hna hes (Nat.zero_le 24) {}), Nat.zero_add, loop_succ (by omega),
      bind_ok hread, List.foldl_append]
    rfl
  · rw [hfour, hk']
    exact hrest

/-- **The loader when nothing follows an alignment entry** goes through all entries and infos; where it
ends then matters only if there are tensors. -/
theorem load_nothing_follows (ha : Ample g.encode grants) (h : NothingFollows g.entries g.tensors) :
    ∃ k, loadGgufModel g.encode grants = finish (loaded g.entries g.tensors) k ∧
      (g.tensors ≠ [] → k = (encodeMeta g.entries g.tensors).length) := by
  rcases first_alignment g.entries with hna | ⟨es, e, es', heq, hna, hb⟩
  · exact ⟨_, load_encode g ha hna, fun _ => rfl⟩
  · obtain ⟨rfl, htensors⟩ := h es e es' heq hb
    obtain ⟨k', hloop, -, -⟩ := read_to_alignment g ha heq hna hb
    refine ⟨k', ?_, fun hne => absurd htensors hne⟩
    rw [load_start, readLoops, bind_ok hloop, htensors, ← heq]
    have hnone : (g.entries.foldl applyEntry {}).tensors = [] := foldl_applyEntry_tensors g.entries {}
    unfold loaded
    rw [hnone]
    rfl

/-- An alignment of zero makes the padding a division by zero. -/
theorem load_zero_alignment {g : File} (ha : Ample g.encode grants)
    (h : NothingFollows g.entries g.tensors) (hzero : alignmentOf g.entries = 0) :
    loadGgufModel g.encode grants = .error .divByZero := by
  obtain ⟨k, hload, -⟩ := load_nothing_follows g ha h
  have halign : (loaded g.entries g.tensors).config.alignment = 0 :=
    (alignment_of_nothingFollows h).trans hzero
  rw [hload, finish, if_pos halign]

/-- The first round of a loop fails. -/
theorem loop_fails {σ : Type} {f : Bytes} {body : ℕ → σ → Reader σ} {left j k : ℕ} {s : σ}
    (h : ∃ e, body j s k = .error e) : ∃ e, loop f body (left + 1) j s k = .error e := by
  obtain ⟨e, he⟩ := h
  by_cases hj : j < f.length
  · exact ⟨e, by rw [loop_succ hj, bind_error he]⟩
  · exact ⟨.longLoop, loop_long (by omega)⟩

/-- **The loader when something follows an alignment entry** of a moderate file: it does not get
through. -/
theorem load_followed (ha : Ample g.encode grants) (hg : Moderate g)
    (h : ¬ NothingFollows g.entries g.tensors) : ∃ e, loadGgufModel g.encode grants = .error e := by
  rcases first_alignment g.entries with hna | ⟨es, e, es', heq, hna, hb⟩
  · exact absurd (nothingFollows_of_noAlignment hna g.tensors) h
  obtain ⟨k', hloop, hfour, hhas⟩ := read_to_alignment g ha heq hna hb
  have hfails : ∃ e, readLoops g.encode grants g.entries.length g.tensors.length 24 = .error e := by
    cases es' with
    | cons d ds =>
      rw [List.flatMap_cons, List.append_assoc, Entry.encode, List.append_assoc, List.append_assoc,
        ← List.append_assoc, has_append] at hhas
      have hmisread : ∃ e, readString g.encode grants k' = .error e :=
        readString_misread hfour (hg.keys d (by simp [heq])) hg.size hhas.1
      obtain ⟨err, herr⟩ := hmisread
      obtain ⟨err', herr'⟩ : ∃ err, loop g.encode (readEntry g.encode grants) (ds.length + 1) (es.length + 1)
          ((es ++ [e]).foldl applyEntry {}) k' = .error err := loop_fails ⟨err, bind_error herr⟩
      exact ⟨err', bind_error (hloop.trans herr')⟩
    | nil =>
      -- the metadata loop is over, and the first name is misread
      cases htensors : g.tensors with
      | nil => exact absurd (by rw [heq, htensors]; exact nothingFollows_concat hna e) h
      | cons t ts =>
        rw [htensors, List.flatMap_nil, List.nil_append, List.flatMap_cons, TensorInfo.encode,
          List.append_assoc, List.append_assoc, List.append_assoc, List.append_assoc, ← List.append_assoc,
          has_append] at hhas
        have hmisread : ∃ e, readString g.encode grants k' = .error e :=
          readString_misread hfour (hg.names t (by simp [htensors])) hg.size hhas.1
        obtain ⟨err, herr⟩ := hmisread
        rw [readLoops, bind_ok hloop]
        exact loop_fails ⟨err, bind_error herr⟩
  obtain ⟨err, herr⟩ := hfails
  exact ⟨err, by rw [load_start, herr]; rfl⟩

end Load

end DenseLite.Gguf.Alignment
