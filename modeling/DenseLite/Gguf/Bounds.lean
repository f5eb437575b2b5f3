import DenseLite.Lib.Extent
import DenseLite.Gguf.Loader

/-! # Loading within the file

The loader checks no bounds. It stays within a file exactly when the parts that it goes through, one
after the other, all lie within it: this is `WithinFile`, stated without the loader, by the offsets at
which strings, values, entries and tensor infos start and end. -/

namespace DenseLite.Gguf.Bounds

open DenseLite.Lib.ByteStream DenseLite.Lib.Cursor DenseLite.Lib.Extent DenseLite.Gguf.Config
open DenseLite.Gguf.Format DenseLite.Gguf.Loader
open DenseLite.Infer.State (ascii occursIn TensorType)

/-! ### Where things are -/

section Layout

variable (f : Bytes)

/-- The length or count at offset `k`. -/
def lenAt (k : ℕ) : ℕ := (u64At f k).toNat

/-- The end of the string at `k`. -/
def stringEnd (k : ℕ) : ℕ := k + 8 + lenAt f k

/-- The string at `k` ends at `k'`, within the file. -/
def StringAt (k k' : ℕ) : Prop := k' = stringEnd f k ∧ k' ≤ f.length

/-- A number of four bytes that is read. -/
def WordAt (k k' : ℕ) : Prop := k' = k + 4 ∧ k' ≤ f.length

/-- The value at `k` ends at `k'`; what has to be read to know this is within the file. Numbers are
passed over without being read. -/
inductive ValueAt : UInt32 → ℕ → ℕ → Prop
  | string {k k' : ℕ} (h : StringAt f k k') : ValueAt 8 k k'
  | array {k k' : ℕ} (ends : ℕ → ℕ) (head : k + 12 ≤ f.length) (count : lenAt f (k + 4) ≤ f.length)
      (first : ends 0 = k + 12) (last : ends (lenAt f (k + 4)) = k')
      (items : ∀ i < lenAt f (k + 4), ValueAt (u32At f k) (ends i) (ends (i + 1))) : ValueAt 9 k k'
  | number {type : UInt32} {k : ℕ} (h8 : type ≠ 8) (h9 : type ≠ 9) : ValueAt type k (k + skipWidth type)

/-- A score: floats are read, anything else is skipped. -/
def ScoreAt (arrType : UInt32) (k k' : ℕ) : Prop :=
  if arrType = 6 then WordAt f k k' else ValueAt f arrType k k'

/-- An array whose elements are items of the given kind. -/
def ArrayAt (item : UInt32 → ℕ → ℕ → Prop) (k k' : ℕ) : Prop :=
  k + 12 ≤ f.length ∧ lenAt f (k + 4) ≤ f.length ∧
    ∃ ends, Chain (item (u32At f k)) (lenAt f (k + 4)) ends (k + 12) k'

/-- The value of an entry, by its branch. After the value of an alignment the loader goes on where it
starts. -/
def BranchAt (type : UInt32) (k k' : ℕ) : Branch → Prop
  | .alignment => k + 4 ≤ f.length ∧ k' = k
  | .tokens => ArrayAt f (ValueAt f) k k'
  | .scores => ArrayAt f (ScoreAt f) k k'
  | .field fld => if fld.isText then StringAt f k k' else WordAt f k k'
  | .skip => ValueAt f type k k'

/-- The string at `k`. -/
def stringOf (k : ℕ) : Bytes := (f.drop (k + 8)).take (lenAt f k)

/-- The branch of the entry at `k`. -/
def branchAt (k : ℕ) : Branch := branchOf (stringOf f k) (u32At f (stringEnd f k))

/-- The entry at `k` ends at `k'`. -/
def EntryAt (k k' : ℕ) : Prop :=
  stringEnd f k + 4 ≤ f.length ∧
    BranchAt f (u32At f (stringEnd f k)) (stringEnd f k + 4) k' (branchAt f k)

/-- The end of the dimensions of the tensor info at `k`. -/
def dimsEnd (k : ℕ) : ℕ := stringEnd f k + 4 + 8 * (u32At f (stringEnd f k)).toNat

/-- The tensor info at `k` ends at `k'`. -/
def InfoAt (k k' : ℕ) : Prop := k' = dimsEnd f k + 12 ∧ k' ≤ f.length

/-- The tensor of the info at `k`. -/
def infoOf (k : ℕ) : Tensor where
  name := stringOf f k
  type := tensorType (u32At f (dimsEnd f k))
  shape := (List.range (u32At f (stringEnd f k)).toNat).map fun i =>
    (u64At f (stringEnd f k + 4 + 8 * i)).toUInt32
  dataOffset := u64At f (dimsEnd f k + 4)

/-- The entries start at the offsets `entries`, the tensor infos at the offsets `infos`, and end at
`k`. -/
structure Metadata (entries infos : ℕ → ℕ) (k : ℕ) : Prop where
  header : 24 ≤ f.length
  kvCount : lenAt f 16 ≤ f.length
  entries : Chain (EntryAt f) (lenAt f 16) entries 24 (infos 0)
  tensorCount : lenAt f 8 ≤ f.length
  infos : Chain (InfoAt f) (lenAt f 8) infos (infos 0) k

/-- The alignment after the entry at `k`. -/
def alignStep (k : ℕ) (alignment : UInt32) : UInt32 :=
  if branchAt f k = .alignment then u32At f (stringEnd f k + 4) else alignment

/-- The alignment after all entries. -/
def alignmentIn (entries : ℕ → ℕ) : UInt32 := along (alignStep f) (lenAt f 16) entries 32

/-- The tensors of all infos. -/
def tensorsIn (infos : ℕ → ℕ) : List Tensor :=
  along (fun k ts => insertTensor ts (infoOf f k)) (lenAt f 8) infos []

/-- The tensors, aligned as they have to be, have their data within the file. -/
def DataWithin (byteSize : List UInt32 → TensorType → ℕ) (start : ℕ) (ts : List Tensor) : Prop :=
  (∀ t ∈ ts, absoluteOffset start t % 32 = 0) →
    ∀ t ∈ ts, absoluteOffset start t + byteSize t.shape t.type ≤ f.length

/-- All that the loader goes through is within the file. -/
def WithinFile (byteSize : List UInt32 → TensorType → ℕ) : Prop :=
  ∃ entries infos k, Metadata f entries infos k ∧ alignmentIn f entries ≠ 0 ∧
    DataWithin f byteSize (dataStart (alignmentIn f entries) k) (tensorsIn f infos)

end Layout

/-! ### Up to failed allocations -/

/-- An allocator that grants everything. -/
def freely : ℕ → Bool := fun _ => true

section Unless

variable (f : Bytes) (grants : ℕ → Bool)

theorem unless_allocate (n : ℕ) : Unless (allocate grants n) (allocate freely n) := by
  intro k
  by_cases h : grants n = true
  · exact Or.inr (by rw [allocate, allocate, if_pos h, if_pos (show freely n = true from rfl)])
  · exact Or.inl (by rw [allocate, if_neg h]; rfl)

theorem unless_readString : Unless (readString f grants) (readString f freely) :=
  (Unless.refl _).bind fun len => (unless_allocate grants len.toNat).bind fun _ => Unless.refl _

theorem unless_skipValue : ∀ (fuel : ℕ) (type : UInt32),
    Unless (skipValue f grants fuel type) (skipValue f freely fuel type) := by
  intro fuel
  induction fuel with
  | zero =>
    intro type
    unfold skipValue
    split_ifs with h8 h9
    · exact (unless_readString f grants).map _
    · exact Unless.refl _
    · exact Unless.refl _
  | succ fuel ih =>
    intro type
    unfold skipValue
    split_ifs with h8 h9
    · exact (unless_readString f grants).map _
    · exact (Unless.refl _).bind fun arrType => (Unless.refl _).bind fun arrLen =>
        Unless.loop (fun _ _ => ih arrType) _ 0 ()
    · exact Unless.refl _

theorem unless_readToken (arrType : UInt32) (j : ℕ) (m : DenseModel) :
    Unless (readToken f grants arrType j m) (readToken f freely arrType j m) := by
  unfold readToken
  split_ifs
  · exact (unless_readString f grants).bind fun _ => Unless.refl _
  · exact (unless_skipValue f grants _ arrType).bind fun _ => Unless.refl _

theorem unless_readScore (arrType : UInt32) (j : ℕ) (m : DenseModel) :
    Unless (readScore f grants arrType j m) (readScore f freely arrType j m) := by
  unfold readScore
  split_ifs
  · exact Unless.refl _
  · exact (unless_skipValue f grants _ arrType).bind fun _ => Unless.refl _

theorem unless_readValue (type : UInt32) (m : DenseModel) (b : Branch) :
    Unless (readValue f grants type m b) (readValue f freely type m b) := by
  cases b with
  | alignment => exact Unless.refl _
  | tokens =>
    exact (Unless.refl _).bind fun arrType => (Unless.refl _).bind fun arrLen =>
      (unless_allocate grants _).bind fun _ =>
        (Unless.loop (unless_readToken f grants arrType) _ 0 m).bind fun _ => Unless.refl _
  | scores =>
    exact (Unless.refl _).bind fun arrType => (Unless.refl _).bind fun arrLen =>
      (unless_allocate grants _).bind fun _ => Unless.loop (unless_readScore f grants arrType) _ 0 m
  | field fld =>
    simp only [readValue]
    split_ifs
    · exact (unless_readString f grants).bind fun _ => Unless.refl _
    · exact Unless.refl _
  | skip => exact (unless_skipValue f grants _ type).bind fun _ => Unless.refl _

theorem unless_readEntry (j : ℕ) (m : DenseModel) :
    Unless (readEntry f grants j m) (readEntry f freely j m) :=
  (unless_readString f grants).bind fun key => (Unless.refl _).bind fun type =>
    unless_readValue f grants type m (branchOf key type)

theorem unless_readTensor (j : ℕ) (m : DenseModel) :
    Unless (readTensor f grants j m) (readTensor f freely j m) :=
  (unless_readString f grants).bind fun _ => Unless.refl _

/-- **A failed allocation** stops the loader; otherwise it does what it does when all are granted. -/
theorem unless_load : loadGgufModel f grants = .error .threw ∨
    loadGgufModel f grants = loadGgufModel f freely := by
  have hbody : Unless (readBody f grants) (readBody f freely) :=
    (Unless.refl _).bind fun _ => (Unless.refl _).bind fun tensorCount => (Unless.refl _).bind fun kvCount =>
      (Unless.loop (unless_readEntry f grants) _ 0 {}).bind fun _ =>
        Unless.loop (unless_readTensor f grants) _ 0 _
  unfold loadGgufModel
  split_ifs with hnil
  · exact Or.inr rfl
  · cases hmagic : u32 f 0 with
    | error e =>
      dsimp only [bind, Except.bind]
      exact Or.inr rfl
    | ok p =>
      dsimp only [bind, Except.bind]
      split_ifs with hne
      · exact Or.inr rfl
      · rcases hbody p.2 with h | h
        · exact Or.inl (by rw [h])
        · exact Or.inr (by rw [h])

end Unless

/-! ### When allocations are granted -/

section Values

variable {f : Bytes} {k k' : ℕ}

theorem allocate_freely (n : ℕ) : allocate freely n k = .ok ((), k) := rfl

theorem readString_eq_ok {s : Bytes} :
    readString f freely k = .ok (s, k') ↔ StringAt f k k' ∧ s = stringOf f k := by
  unfold StringAt stringEnd
  constructor
  · intro h
    obtain ⟨len, k₁, hlen, h⟩ := bind_eq_ok.mp h
    obtain ⟨hin, rfl, rfl⟩ := u64_eq_ok.mp hlen
    rw [bind_ok (allocate_freely _)] at h
    obtain ⟨hread, rfl, rfl⟩ := read_eq_ok.mp h
    have hcount : (u64At f k).toNat = lenAt f k := rfl
    exact ⟨⟨rfl, by omega⟩, rfl⟩
  · rintro ⟨⟨rfl, hin⟩, rfl⟩
    refine bind_eq_ok.mpr ⟨u64At f k, k + 8, u64_eq_ok.mpr ⟨by omega, rfl, rfl⟩, ?_⟩
    rw [bind_ok (allocate_freely _)]
    exact read_eq_ok.mpr ⟨Or.inr hin, rfl, rfl⟩

theorem read_word_eq_ok {raw : Bytes} :
    read f 4 k = .ok (raw, k') ↔ WordAt f k k' ∧ raw = (f.drop k).take 4 := by
  rw [read_eq_ok]
  constructor
  · rintro ⟨h, rfl, rfl⟩
    exact ⟨⟨rfl, by omega⟩, rfl⟩
  · rintro ⟨⟨rfl, h⟩, rfl⟩
    exact ⟨Or.inr h, rfl, rfl⟩

/-- The header of an array. -/
theorem readHeader_eq_ok {α : Type} {g : UInt32 → UInt64 → Reader α} {a : α} :
    (do let arrType ← u32 f; let arrLen ← u64 f; g arrType arrLen : Reader α) k = .ok (a, k') ↔
      k + 12 ≤ f.length ∧ g (u32At f k) (u64At f (k + 4)) (k + 12) = .ok (a, k') := by
  constructor
  · intro h
    obtain ⟨arrType, k₁, htype, h⟩ := bind_eq_ok.mp h
    obtain ⟨-, rfl, rfl⟩ := u32_eq_ok.mp htype
    obtain ⟨arrLen, k₂, hlen, h⟩ := bind_eq_ok.mp h
    obtain ⟨hin, rfl, rfl⟩ := u64_eq_ok.mp hlen
    exact ⟨hin, h⟩
  · rintro ⟨hin, h⟩
    rw [bind_ok (u32_eq_ok.mpr ⟨by omega, rfl, rfl⟩), bind_ok (u64_eq_ok.mpr ⟨by omega, rfl, rfl⟩)]
    exact h

theorem ValueAt.le {type : UInt32} (h : ValueAt f type k k') : k ≤ k' := by
  induction h with
  | string h =>
    have := h.1
    unfold stringEnd at this
    omega
  | array ends head count first last items ih =>
    have hchain : Chain (· ≤ ·) _ ends _ _ := ⟨first, last, ih⟩
    exact (Nat.le_add_right _ 12).trans (last ▸ hchain.le _ le_rfl)
  | number h8 h9 => exact Nat.le_add_right _ _

theorem skip_eq_ok {n : ℕ} : skip n k = .ok ((), k') ↔ k' = k + n := by
  show Except.ok ((), k + n) = Except.ok ((), k') ↔ _
  rw [Except.ok.injEq, Prod.mk.injEq, eq_comm]
  exact ⟨fun h => h.2.symm, fun h => ⟨rfl, h.symm⟩⟩

/-- A value that is no array. -/
theorem skipValue_flat {type : UInt32} (h9 : type ≠ 9) (fuel : ℕ) :
    skipValue f freely fuel type k = .ok ((), k') ↔ ValueAt f type k k' := by
  by_cases h8 : type = 8
  · subst h8
    rw [skipValue_string]
    constructor
    · intro h
      obtain ⟨s, hs, -⟩ := map_eq_ok.mp h
      exact ValueAt.string (readString_eq_ok.mp hs).1
    · intro h
      cases h with
      | string h => exact map_eq_ok.mpr ⟨_, readString_eq_ok.mpr ⟨h, rfl⟩, rfl⟩
      | number h8 => exact absurd rfl h8
  · rw [skipValue_other f freely fuel h8 h9, skip_eq_ok]
    constructor
    · rintro rfl
      exact ValueAt.number h8 h9
    · intro h
      cases h with
      | string h => exact absurd rfl h8
      | array ends head count first last items => exact absurd rfl h9
      | number => rfl

/-- What is skipped has its parts within the file. -/
theorem valueAt_of_skip : ∀ (fuel : ℕ) (type : UInt32) (k k' : ℕ),
    skipValue f freely fuel type k = .ok ((), k') → ValueAt f type k k' := by
  intro fuel
  induction fuel with
  | zero =>
    intro type k k' h
    by_cases h9 : type = 9
    · subst h9
      exact absurd h (by simp [skipValue, throw, throwThe, MonadExceptOf.throw, StateT.lift])
    · exact (skipValue_flat h9 0).mp h
  | succ fuel ih =>
    intro type k k' h
    by_cases h9 : type = 9
    · subst h9
      rw [skipValue_array, readHeader_eq_ok] at h
      obtain ⟨hhead, hloop⟩ := h
      have hround : ∀ (j : ℕ) (s : Unit) (k₁ : ℕ) (s' : Unit) (k₂ : ℕ),
          skipValue f freely fuel (u32At f k) k₁ = .ok (s', k₂) →
            ValueAt f (u32At f k) k₁ k₂ ∧ () = () := fun _ _ k₁ _ k₂ h => ⟨ih _ k₁ k₂ h, rfl⟩
      obtain ⟨hcount, ends, hchain, -⟩ := chain_of_loop (fun _ => ()) (fun _ v => v) hround _ 0 () _ () k' hloop
      exact ValueAt.array ends hhead (by unfold lenAt; omega) hchain.first hchain.last hchain.step
    · exact (skipValue_flat h9 (fuel + 1)).mp h

/-- A value whose parts are within the file is skipped. -/
theorem skip_of_valueAt {type : UInt32} (h : ValueAt f type k k') : ∀ fuel, f.length ≤ k + fuel →
    skipValue f freely fuel type k = .ok ((), k') := by
  induction h with
  | string h => exact fun fuel _ => (skipValue_flat (by decide) fuel).mpr (ValueAt.string h)
  | number h8 h9 => exact fun fuel _ => (skipValue_flat h9 fuel).mpr (ValueAt.number h8 h9)
  | array ends head count first last items ih =>
    rename_i k k'
    intro fuel hfuel
    obtain ⟨fuel, rfl⟩ := Nat.exists_eq_succ_of_ne_zero (show fuel ≠ 0 by omega)
    have hchain : Chain (· ≤ ·) (lenAt f (k + 4)) ends (k + 12) k' :=
      ⟨first, last, fun i hi => (items i hi).le⟩
    -- each item starts behind the head, so that one unit of fuel less is enough for it
    have hround : ∀ i < lenAt f (k + 4), ∀ (j : ℕ) (s : Unit), ∃ s' : Unit,
        skipValue f freely fuel (u32At f k) (ends i) = .ok (s', ends (i + 1)) ∧ () = () := by
      intro i hi j s
      have hbehind := hchain.le i (by omega)
      exact ⟨(), ih i hi fuel (by omega), rfl⟩
    obtain ⟨_, hloop, -⟩ := loop_of_chain (f := f) (fun _ : Unit => ()) (fun _ v => v) (lenAt f (k + 4)) 0 ()
      ends (Or.inr (by omega)) hround
    rw [first, last] at hloop
    rw [skipValue_array, readHeader_eq_ok]
    exact ⟨head, hloop⟩

end Values

/-! ### Entries -/

/-- What the bounds depend on in a model. -/
def kept (m : DenseModel) : UInt32 × List Tensor := (m.config.alignment, m.tensors)

/-- The reader ends at exactly the offsets in `R`, and leaves `v` of the model. -/
structure Yields (x : Reader DenseModel) (k : ℕ) (R : ℕ → Prop) (v : UInt32 × List Tensor) : Prop where
  sound : ∀ m' k', x k = .ok (m', k') → R k' ∧ kept m' = v
  complete : ∀ k', R k' → ∃ m', x k = .ok (m', k') ∧ kept m' = v

section Entries

variable {f : Bytes} {k k' : ℕ} {m : DenseModel}

/-- A reader that returns a model made from what it has read. -/
theorem yields_of_iff {α : Type} {x : Reader α} {R : ℕ → Prop} {a : α} {g : α → DenseModel}
    {v : UInt32 × List Tensor} (hx : ∀ a' k', x k = .ok (a', k') → R k' ∧ a' = a)
    (hx' : ∀ k', R k' → x k = .ok (a, k')) (hg : kept (g a) = v) :
    Yields (do let a ← x; return g a) k R v where
  sound m' k' h := by
    obtain ⟨a', k₁, hread, h⟩ := bind_eq_ok.mp h
    obtain ⟨rfl, rfl⟩ := pure_eq_ok.mp h
    obtain ⟨hR, rfl⟩ := hx a' _ hread
    exact ⟨hR, hg⟩
  complete k' hR := ⟨g a, by rw [bind_ok (hx' k' hR)]; rfl, hg⟩

theorem yields_skip (type : UInt32) :
    Yields (do skipValue f freely (depth f) type; return m) k (ValueAt f type k) (kept m) :=
  yields_of_iff (fun _ k' h => ⟨valueAt_of_skip _ type k k' h, rfl⟩)
    (fun _ h => skip_of_valueAt h (depth f) (Nat.le_add_left _ _)) rfl

theorem yields_readToken (arrType : UInt32) (j : ℕ) :
    Yields (readToken f freely arrType j m) k (ValueAt f arrType k) (kept m) := by
  unfold readToken
  split_ifs with h8
  · subst h8
    have hstring : ∀ k', ValueAt f 8 k k' ↔ StringAt f k k' := by
      intro k'
      constructor
      · intro h
        cases h with
        | string h => exact h
        | number h8 => exact absurd rfl h8
      · exact ValueAt.string
    refine yields_of_iff (a := stringOf f k) (fun s k' h => ?_) (fun k' h => ?_) rfl
    · obtain ⟨hs, rfl⟩ := readString_eq_ok.mp h
      exact ⟨(hstring k').mpr hs, rfl⟩
    · exact readString_eq_ok.mpr ⟨(hstring k').mp h, rfl⟩
  · exact yields_skip arrType

theorem yields_readScore (arrType : UInt32) (j : ℕ) :
    Yields (readScore f freely arrType j m) k (ScoreAt f arrType k) (kept m) := by
  unfold readScore ScoreAt
  split_ifs with h6
  · refine yields_of_iff (a := u32At f k) (fun u k' h => ?_) (fun k' h => ?_) rfl
    · obtain ⟨hin, rfl, rfl⟩ := u32_eq_ok.mp h
      exact ⟨⟨rfl, hin⟩, rfl⟩
    · obtain ⟨rfl, hin⟩ := h
      exact u32_eq_ok.mpr ⟨hin, rfl, rfl⟩
  · exact yields_skip arrType

/-- A loop over the elements of an array. -/
theorem yields_items {item : UInt32 → ℕ → ℕ → Prop} {b : UInt32 → ℕ → DenseModel → Reader DenseModel}
    (hround : ∀ arrType j m k, Yields (b arrType j m) k (item arrType k) (kept m)) (n : ℕ)
    (g : UInt64 → DenseModel → DenseModel) (hg : ∀ n m, kept (g n m) = kept m) :
    Yields (do
      let arrType ← u32 f
      let arrLen ← u64 f
      allocate freely (n * arrLen.toNat)
      let m ← loop f (b arrType) arrLen.toNat 0 m
      return g arrLen m) k (ArrayAt f item k) (kept m) where
  sound m' k' h := by
    obtain ⟨hhead, h⟩ := readHeader_eq_ok.mp h
    rw [bind_ok (allocate_freely _)] at h
    obtain ⟨m₁, k₁, hloop, h⟩ := bind_eq_ok.mp h
    obtain ⟨rfl, rfl⟩ := pure_eq_ok.mp h
    obtain ⟨hlen, ends, hchain, hkept⟩ := chain_of_loop kept (fun _ v => v)
      (fun j m k => (hround _ j m k).sound) _ 0 m _ m₁ _ hloop
    refine ⟨⟨hhead, by unfold lenAt; omega, ends, hchain⟩, ?_⟩
    rw [hg, hkept, along, List.foldl_fixed]
  complete k' h := by
    obtain ⟨hhead, hlen, ends, hchain⟩ := h
    obtain ⟨m', hloop, hkept⟩ := loop_of_chain (f := f) kept (fun _ v => v) (lenAt f (k + 4)) 0 m ends
      (Or.inr (by omega)) fun i hi j m => (hround _ j m _).complete _ (hchain.step i hi)
    rw [hchain.first, hchain.last] at hloop
    refine ⟨g (u64At f (k + 4)) m', readHeader_eq_ok.mpr ⟨hhead, ?_⟩, ?_⟩
    · rw [bind_ok (allocate_freely _)]
      exact bind_eq_ok.mpr ⟨m', k', hloop, rfl⟩
    · rw [hg, hkept, along, List.foldl_fixed]

theorem kept_setField (raw : Bytes) (fld : Field) :
    kept { m with config := setField m.config raw fld } = kept m := by
  cases fld <;> rfl

theorem yields_alignment (type : UInt32) :
    Yields (readValue f freely type m .alignment) k (BranchAt f type k · .alignment)
      (u32At f k, m.tensors) := by
  refine yields_of_iff (a := u32At f k) (fun u k' h => ?_) (fun k' h => ?_) rfl
  · obtain ⟨hin, rfl, rfl⟩ := peekU32_eq_ok.mp h
    exact ⟨⟨hin, rfl⟩, rfl⟩
  · obtain ⟨hin, rfl⟩ := h
    exact peekU32_eq_ok.mpr ⟨hin, rfl, rfl⟩

/-- A value that is no alignment. -/
theorem yields_readValue (type : UInt32) {b : Branch} (hb : b ≠ .alignment) :
    Yields (readValue f freely type m b) k (BranchAt f type k · b) (kept m) := by
  cases b with
  | alignment => exact absurd rfl hb
  | tokens =>
    exact yields_items (fun arrType j m k => yields_readToken arrType j) 32
      (fun arrLen m => { m with config := { m.config with vocabSize := arrLen.toUInt32 } }) fun _ _ => rfl
  | scores =>
    have hitems := yields_items (f := f) (m := m) (k := k)
      (fun arrType j m k => yields_readScore (f := f) arrType j) 4 (fun _ m => m) fun _ _ => rfl
    simp only [bind_pure] at hitems
    exact hitems
  | field fld =>
    simp only [readValue, BranchAt]
    split_ifs with htext
    · refine yields_of_iff (a := stringOf f k) (fun s k' h => ?_) (fun k' h => ?_) (kept_setField _ fld)
      · exact readString_eq_ok.mp h
      · exact readString_eq_ok.mpr ⟨h, rfl⟩
    · refine yields_of_iff (a := (f.drop k).take 4) (fun s k' h => ?_) (fun k' h => ?_) (kept_setField _ fld)
      · exact read_word_eq_ok.mp h
      · exact read_word_eq_ok.mpr ⟨h, rfl⟩
  | skip => exact yields_skip type

/-- **An entry.** -/
theorem yields_readEntry (j : ℕ) :
    Yields (readEntry f freely j m) k (EntryAt f k) (alignStep f k m.config.alignment, m.tensors) := by
  have hvalue : Yields (readValue f freely (u32At f (stringEnd f k)) m (branchAt f k)) (stringEnd f k + 4)
      (BranchAt f (u32At f (stringEnd f k)) (stringEnd f k + 4) · (branchAt f k))
      (alignStep f k m.config.alignment, m.tensors) := by
    unfold alignStep
    split_ifs with hb
    · rw [hb]
      exact yields_alignment _
    · exact yields_readValue _ hb
  constructor
  · intro m' k' h
    obtain ⟨key, k₁, hkey, h⟩ := bind_eq_ok.mp h
    obtain ⟨⟨rfl, -⟩, rfl⟩ := readString_eq_ok.mp hkey
    obtain ⟨type, k₂, htype, h⟩ := bind_eq_ok.mp h
    obtain ⟨hin, rfl, rfl⟩ := u32_eq_ok.mp htype
    obtain ⟨hb, hkept⟩ := hvalue.sound m' k' h
    exact ⟨⟨hin, hb⟩, hkept⟩
  · rintro k' ⟨hin, hb⟩
    obtain ⟨m', hread, hkept⟩ := hvalue.complete k' hb
    refine ⟨m', ?_, hkept⟩
    rw [readEntry, bind_ok (readString_eq_ok.mpr ⟨⟨rfl, by omega⟩, rfl⟩),
      bind_ok (u32_eq_ok.mpr ⟨hin, rfl, rfl⟩)]
    exact hread

end Entries

/-! ### Tensor infos -/

section Infos

variable {f : Bytes} {k k' : ℕ} {m : DenseModel}

/-- A dimension. -/
theorem readDim_eq_ok {j : ℕ} {shape shape' : List UInt32} : readDim f j shape k = .ok (shape', k') ↔
    (k + 8 ≤ f.length ∧ k' = k + 8) ∧ shape' = shape ++ [(u64At f k).toUInt32] := by
  constructor
  · intro h
    obtain ⟨d, k₁, hd, h⟩ := bind_eq_ok.mp h
    obtain ⟨hin, rfl, rfl⟩ := u64_eq_ok.mp hd
    obtain ⟨rfl, rfl⟩ := pure_eq_ok.mp h
    exact ⟨⟨hin, rfl⟩, rfl⟩
  · rintro ⟨⟨hin, rfl⟩, rfl⟩
    rw [readDim, bind_ok (u64_eq_ok.mpr ⟨hin, rfl, rfl⟩)]
    rfl

theorem foldl_concat {α β : Type} (φ : α → β) : ∀ (xs : List α) (ys : List β),
    xs.foldl (fun ys x => ys ++ [φ x]) ys = ys ++ xs.map φ
  | [], ys => by simp
  | x :: xs, ys => by rw [List.foldl_cons, foldl_concat φ xs, List.map_cons]; simp

/-- The dimensions. -/
theorem readDims_eq_ok {n : ℕ} {shape : List UInt32} : loop f (readDim f) n 0 [] k = .ok (shape, k') ↔
    (n = 0 ∨ k' ≤ f.length) ∧ k' = k + 8 * n ∧
      shape = (List.range n).map fun i => (u64At f (k + 8 * i)).toUInt32 := by
  have halong (ends : ℕ → ℕ) (hends : ∀ i < n, ends i = k + 8 * i) :
      along (fun k shape => shape ++ [(u64At f k).toUInt32]) n ends [] =
        (List.range n).map fun i => (u64At f (k + 8 * i)).toUInt32 := by
    rw [along, foldl_concat, List.nil_append]
    exact List.map_congr_left fun i hi => by rw [hends i (List.mem_range.mp hi)]
  constructor
  · intro h
    obtain ⟨hlen, ends, hchain, hshape⟩ := chain_of_loop id (fun k shape => shape ++ [(u64At f k).toUInt32])
      (fun j s k s' k' h => readDim_eq_ok.mp h) n 0 [] k shape k' h
    have hends : ∀ i ≤ n, ends i = k + 8 * i := by
      intro i
      induction i with
      | zero => intro _; exact hchain.first
      | succ i ih =>
        intro hi
        have hstep := (hchain.step i (by omega)).2
        have hi' := ih (by omega)
        omega
    have hk' := (hchain.last).symm.trans (hends n le_rfl)
    refine ⟨?_, hk', hshape.trans (halong ends fun i hi => hends i (by omega))⟩
    rcases Nat.eq_zero_or_pos n with hn | hn
    · exact Or.inl hn
    · have hlast := hchain.step (n - 1) (by omega)
      rw [Nat.sub_add_cancel hn, hchain.last] at hlast
      exact Or.inr (by omega)
  · rintro ⟨hin, rfl, rfl⟩
    obtain ⟨shape, hloop, hshape⟩ := loop_of_chain (f := f) (b := readDim f) id
      (fun k shape => shape ++ [(u64At f k).toUInt32]) n 0 [] (fun i => k + 8 * i) (by omega)
      fun i hi j s => ⟨_, readDim_eq_ok.mpr ⟨⟨by omega, by omega⟩, rfl⟩, rfl⟩
    have hshape' : shape = _ := hshape.trans (halong (fun i => k + 8 * i) fun i hi => rfl)
    rw [← hshape']
    exact hloop

/-- **A tensor info.** -/
theorem yields_readTensor (j : ℕ) : Yields (readTensor f freely j m) k (InfoAt f k)
    (m.config.alignment, insertTensor m.tensors (infoOf f k)) := by
  constructor
  · intro m' k' h
    obtain ⟨name, k₁, hname, h⟩ := bind_eq_ok.mp h
    obtain ⟨⟨rfl, -⟩, rfl⟩ := readString_eq_ok.mp hname
    obtain ⟨nDims, k₂, hdims, h⟩ := bind_eq_ok.mp h
    obtain ⟨-, rfl, rfl⟩ := u32_eq_ok.mp hdims
    obtain ⟨shape, k₃, hshape, h⟩ := bind_eq_ok.mp h
    obtain ⟨-, rfl, rfl⟩ := readDims_eq_ok.mp hshape
    obtain ⟨type, k₄, htype, h⟩ := bind_eq_ok.mp h
    obtain ⟨-, rfl, rfl⟩ := u32_eq_ok.mp htype
    obtain ⟨offset, k₅, hoffset, h⟩ := bind_eq_ok.mp h
    obtain ⟨hin, rfl, rfl⟩ := u64_eq_ok.mp hoffset
    obtain ⟨rfl, rfl⟩ := pure_eq_ok.mp h
    exact ⟨⟨by unfold dimsEnd; omega, hin⟩, rfl⟩
  · rintro k' ⟨rfl, hin⟩
    unfold dimsEnd at hin
    refine ⟨{ m with tensors := insertTensor m.tensors (infoOf f k) }, ?_, rfl⟩
    rw [readTensor, bind_ok (readString_eq_ok.mpr ⟨⟨rfl, by omega⟩, rfl⟩),
      bind_ok (u32_eq_ok.mpr ⟨by omega, rfl, rfl⟩), bind_ok (readDims_eq_ok.mpr ⟨by omega, rfl, rfl⟩),
      bind_ok (u32_eq_ok.mpr ⟨by omega, rfl, rfl⟩), bind_ok (u64_eq_ok.mpr ⟨by omega, rfl, rfl⟩)]
    rfl

end Infos

/-! ### Loading -/

/-- No read of the loader is outside the file, no loop is longer than the file, the alignment is not
zero when it divides, and if loading succeeds, each tensor has its data within the file; `byteSize` says
how many bytes a tensor takes. -/
structure Safe (byteSize : List UInt32 → TensorType → ℕ) (f : Bytes) (grants : ℕ → Bool) : Prop where
  reads : loadGgufModel f grants ≠ .error .outside
  loops : loadGgufModel f grants ≠ .error .longLoop
  nesting : loadGgufModel f grants ≠ .error .fuel
  modulo : loadGgufModel f grants ≠ .error .divByZero
  data : ∀ m, loadGgufModel f grants = .ok (true, m) →
    ∀ t ∈ m.tensors, t.data + byteSize t.shape t.type ≤ f.length

/-- The file is empty, or has another magic number, or holds all that the loader goes through. -/
def Contained (byteSize : List UInt32 → TensorType → ℕ) (f : Bytes) : Prop :=
  f = [] ∨ (4 ≤ f.length ∧ u32At f 0 ≠ ggufMagic) ∨ WithinFile f byteSize

section Load

variable {f : Bytes} {grants : ℕ → Bool} {byteSize : List UInt32 → TensorType → ℕ}

/-- What the loader does behind the magic number. -/
theorem readBody_eq_ok {m : DenseModel} {k : ℕ} : readBody f freely 4 = .ok (m, k) ↔
    24 ≤ f.length ∧ ∃ m₁ k₁, loop f (readEntry f freely) (lenAt f 16) 0 {} 24 = .ok (m₁, k₁) ∧
      loop f (readTensor f freely) (lenAt f 8) 0 { m₁ with config := deriveDims m₁.config } k₁ =
        .ok (m, k) := by
  constructor
  · intro h
    obtain ⟨version, k₁, hversion, h⟩ := bind_eq_ok.mp h
    obtain ⟨-, -, hk₁⟩ := u32_eq_ok.mp hversion
    rw [show k₁ = 8 from hk₁] at h
    obtain ⟨tensorCount, k₂, htensors, h⟩ := bind_eq_ok.mp h
    obtain ⟨-, rfl, hk₂⟩ := u64_eq_ok.mp htensors
    rw [show k₂ = 16 from hk₂] at h
    obtain ⟨kvCount, k₃, hkv, h⟩ := bind_eq_ok.mp h
    obtain ⟨hheader, rfl, hk₃⟩ := u64_eq_ok.mp hkv
    rw [show k₃ = 24 from hk₃] at h
    exact ⟨hheader, bind_eq_ok.mp h⟩
  · rintro ⟨hheader, h⟩
    rw [readBody, bind_ok (u32_eq_ok.mpr ⟨by omega, rfl, rfl⟩), bind_ok (u64_eq_ok.mpr ⟨by omega, rfl, rfl⟩),
      bind_ok (u64_eq_ok.mpr ⟨by omega, rfl, rfl⟩)]
    exact bind_eq_ok.mpr h

theorem kept_deriveDims (m : DenseModel) : kept { m with config := deriveDims m.config } = kept m := rfl

theorem along_fst (step : ℕ → UInt32 → UInt32) (n : ℕ) (ends : ℕ → ℕ) (v : UInt32 × List Tensor) :
    along (fun k v => (step k v.1, v.2)) n ends v = (along step n ends v.1, v.2) := by
  induction n generalizing ends v with
  | zero => rfl
  | succ n ih => rw [along_succ, along_succ, ih]

theorem along_snd (step : ℕ → List Tensor → List Tensor) (n : ℕ) (ends : ℕ → ℕ)
    (v : UInt32 × List Tensor) :
    along (fun k v => (v.1, step k v.2)) n ends v = (v.1, along step n ends v.2) := by
  induction n generalizing ends v with
  | zero => rfl
  | succ n ih => rw [along_succ, along_succ, ih]

/-- What is kept after the entries and the infos. -/
theorem kept_along {m m₁ : DenseModel} {entries infos : ℕ → ℕ}
    (hentries : kept m₁ = along (fun k v => (alignStep f k v.1, v.2)) (lenAt f 16) entries (kept {}))
    (hinfos : kept m = along (fun k v => (v.1, insertTensor v.2 (infoOf f k))) (lenAt f 8) infos
      (kept { m₁ with config := deriveDims m₁.config })) :
    kept m = (alignmentIn f entries, tensorsIn f infos) := by
  have hempty : kept {} = (32, []) := rfl
  rw [along_fst, hempty] at hentries
  rw [along_snd fun k ts => insertTensor ts (infoOf f k), kept_deriveDims, hentries] at hinfos
  exact hinfos

/-- Metadata and infos that are read are within the file. -/
theorem metadata_of_readBody {m : DenseModel} {k : ℕ} (h : readBody f freely 4 = .ok (m, k)) :
    ∃ entries infos, Metadata f entries infos k ∧ kept m = (alignmentIn f entries, tensorsIn f infos) := by
  obtain ⟨hheader, m₁, k₁, hentries, hinfos⟩ := readBody_eq_ok.mp h
  have hentry : ∀ j m k m' k', readEntry f freely j m k = .ok (m', k') →
      EntryAt f k k' ∧ kept m' = (alignStep f k (kept m).1, (kept m).2) :=
    fun j m k => (yields_readEntry j).sound
  have hinfo : ∀ j m k m' k', readTensor f freely j m k = .ok (m', k') →
      InfoAt f k k' ∧ kept m' = ((kept m).1, insertTensor (kept m).2 (infoOf f k)) :=
    fun j m k => (yields_readTensor j).sound
  obtain ⟨hlen, entries, hchain, hkept⟩ := chain_of_loop kept (fun k v => (alignStep f k v.1, v.2)) hentry
    _ 0 _ 24 m₁ k₁ hentries
  obtain ⟨hlen', infos, hchain', hkept'⟩ := chain_of_loop kept
    (fun k v => (v.1, insertTensor v.2 (infoOf f k))) hinfo _ 0 _ k₁ m k hinfos
  rw [← hchain'.first] at hchain hchain'
  exact ⟨entries, infos, ⟨hheader, by omega, hchain, by omega, hchain'⟩, kept_along hkept hkept'⟩

/-- Metadata and infos that are within the file are read. -/
theorem readBody_of_metadata {entries infos : ℕ → ℕ} {k : ℕ} (h : Metadata f entries infos k) :
    ∃ m, readBody f freely 4 = .ok (m, k) ∧ kept m = (alignmentIn f entries, tensorsIn f infos) := by
  obtain ⟨m₁, hentries, hkept⟩ := loop_of_chain (f := f) kept (fun k v => (alignStep f k v.1, v.2)) (lenAt f 16)
    0 {} entries (by have := h.kvCount; omega)
    fun i hi j m => (yields_readEntry j).complete _ (h.entries.step i hi)
  obtain ⟨m, hinfos, hkept'⟩ := loop_of_chain (f := f) kept (fun k v => (v.1, insertTensor v.2 (infoOf f k)))
    (lenAt f 8) 0 { m₁ with config := deriveDims m₁.config } infos (by have := h.tensorCount; omega)
    fun i hi j m => (yields_readTensor j).complete _ (h.infos.step i hi)
  rw [h.entries.first, h.entries.last] at hentries
  rw [h.infos.last] at hinfos
  exact ⟨m, readBody_eq_ok.mpr ⟨h.header, m₁, infos 0, hentries, hinfos⟩, kept_along hkept hkept'⟩

/-- The loader on a file that is not empty and has four bytes. -/
theorem load_magic (hne : f ≠ []) (hlen : 4 ≤ f.length) : loadGgufModel f grants =
    if u32At f 0 ≠ ggufMagic then .ok (false, {})
    else (readBody f grants 4).bind fun r => finish r.1 r.2 := by
  have hmagic : u32 f 0 = .ok (u32At f 0, 4) := u32_eq_ok.mpr ⟨hlen, rfl, rfl⟩
  rw [loadGgufModel, if_neg hne, hmagic]
  rfl

/-- A loader that stops with an exception, or returns false, or returns tensors with their data within the
file, is safe. -/
theorem safe_of_result (h : loadGgufModel f grants = .error .threw ∨
    ∃ b m, loadGgufModel f grants = .ok (b, m) ∧
      (b = true → ∀ t ∈ m.tensors, t.data + byteSize t.shape t.type ≤ f.length)) : Safe byteSize f grants := by
  rcases h with h | ⟨b, m, h, hdata⟩
  · constructor <;> rw [h] <;> simp
  · refine ⟨?_, ?_, ?_, ?_, fun m' hm' => ?_⟩
    · rw [h]; simp
    · rw [h]; simp
    · rw [h]; simp
    · rw [h]; simp
    · rw [h, Except.ok.injEq, Prod.mk.injEq] at hm'
      rw [← hm'.2]
      exact hdata hm'.1

/-- The tensors after loading. -/
theorem finish_eq (f : Bytes) (byteSize : List UInt32 → TensorType → ℕ) {m : DenseModel} (k : ℕ) {a : UInt32}
    {ts : List Tensor} (hm : kept m = (a, ts)) (ha : a ≠ 0) :
    ∃ b m', finish m k = .ok (b, m') ∧
      ((b = true → ∀ t ∈ m'.tensors, t.data + byteSize t.shape t.type ≤ f.length) ↔
        DataWithin f byteSize (dataStart a k) ts) := by
  obtain ⟨rfl, rfl⟩ := Prod.mk.inj hm
  rw [finish, if_neg ha]
  dsimp only
  unfold DataWithin
  by_cases hany : (m.tensors.any fun t => absoluteOffset (dataStart m.config.alignment k) t % 32 ≠ 0) = true
  · rw [if_pos hany]
    refine ⟨false, m, rfl, ?_⟩
    rw [List.any_eq_true] at hany
    obtain ⟨t, ht, hbad⟩ := hany
    constructor
    · exact fun _ hal => absurd (hal t ht) (of_decide_eq_true hbad)
    · exact fun _ hb => absurd hb (by decide)
  · rw [if_neg hany]
    refine ⟨true, _, rfl, ?_⟩
    have hal : ∀ t ∈ m.tensors, absoluteOffset (dataStart m.config.alignment k) t % 32 = 0 := by
      intro t ht
      by_contra hbad
      exact hany (List.any_eq_true.mpr ⟨t, ht, decide_eq_true hbad⟩)
    simp only [List.forall_mem_map, forall_const]
    exact ⟨fun h _ => h, fun h => h hal⟩

/-- **Loading is safe** when all that the loader goes through is within the file; and if no allocation
stops it, only then. -/
theorem load_safe (byteSize : List UInt32 → TensorType → ℕ) (f : Bytes) (grants : ℕ → Bool) :
    (Contained byteSize f → Safe byteSize f grants) ∧
      (loadGgufModel f grants ≠ .error .threw → Safe byteSize f grants → Contained byteSize f) := by
  constructor
  · intro h
    apply safe_of_result
    rcases unless_load f grants with hthrew | hfree
    · exact Or.inl hthrew
    refine Or.inr ?_
    rw [hfree]
    rcases h with rfl | ⟨hlen, hmagic⟩ | ⟨entries, infos, k, hmeta, halign, hdata⟩
    · exact ⟨false, {}, rfl, fun hb => absurd hb (by decide)⟩
    · have hne : f ≠ [] := List.ne_nil_of_length_pos (by omega)
      exact ⟨false, {}, by rw [load_magic hne hlen, if_pos hmagic], fun hb => absurd hb (by decide)⟩
    · have hheader := hmeta.header
      have hne : f ≠ [] := List.ne_nil_of_length_pos (by omega)
      rw [load_magic hne (by omega)]
      split_ifs with hmagic
      · exact ⟨false, {}, rfl, fun hb => absurd hb (by decide)⟩
      · obtain ⟨m, hbody, hkept⟩ := readBody_of_metadata hmeta
        obtain ⟨b, m', hfinish, hiff⟩ := finish_eq f byteSize k hkept halign
        exact ⟨b, m', by rw [hbody]; exact hfinish, hiff.mpr hdata⟩
  · intro hthrew h
    have hfree := (unless_load f grants).resolve_left hthrew
    by_cases hnil : f = []
    · exact Or.inl hnil
    refine Or.inr ?_
    by_cases hlen : 4 ≤ f.length
    · by_cases hmagic : u32At f 0 ≠ ggufMagic
      · exact Or.inl ⟨hlen, hmagic⟩
      refine Or.inr ?_
      have hload : loadGgufModel f grants = (readBody f freely 4).bind fun r => finish r.1 r.2 := by
        rw [hfree, load_magic hnil hlen, if_neg hmagic]
      cases hbody : readBody f freely 4 with
      | error e =>
        rw [hbody] at hload
        cases e with
        | outside => exact absurd hload h.reads
        | longLoop => exact absurd hload h.loops
        | threw => exact absurd hload hthrew
        | divByZero => exact absurd hload h.modulo
        | fuel => exact absurd hload h.nesting
      | ok p =>
        obtain ⟨m, k⟩ := p
        rw [hbody] at hload
        obtain ⟨entries, infos, hmeta, hkept⟩ := metadata_of_readBody hbody
        have halign : alignmentIn f entries ≠ 0 := by
          intro hzero
          have hm : m.config.alignment = 0 := (congrArg Prod.fst hkept).trans hzero
          refine h.modulo (hload.trans ?_)
          show finish m k = _
          rw [finish, if_pos hm]
        obtain ⟨b, m', hfinish, hiff⟩ := finish_eq f byteSize k hkept halign
        refine ⟨entries, infos, k, hmeta, halign, hiff.mp fun hb => ?_⟩
        rw [hb] at hfinish
        exact h.data m' (hload.trans hfinish)
    · have hmagic : u32 f 0 = .error .outside := by
        have hread : read f 4 0 = .error .outside := by
          rw [DenseLite.Lib.Cursor.read, if_neg (by omega)]
        show (read f 4 0).bind (fun p => .ok (decodeU32 p.1, p.2)) = _
        rw [hread]
        rfl
      refine absurd ?_ h.reads
      rw [loadGgufModel, if_neg hnil, hmagic]
      rfl

end Load

/-- The bytes of a tensor of floats. -/
def floatBytes (shape : List UInt32) (_ : TensorType) : ℕ := 4 * (shape.map UInt32.toNat).prod

/-- A file with one tensor of three floats. -/
def oneTensor : Bytes :=
  encodeMeta [] [⟨⟨ascii "w", by decide +kernel⟩, [3], by decide, 0, 0⟩] ++ List.replicate 19 0

theorem load_safe_oneTensor : Contained floatBytes oneTensor ∧ Safe floatBytes oneTensor freely := by
  have hkv : lenAt oneTensor 16 = 0 := by decide +kernel
  have htensors : lenAt oneTensor 8 = 1 := by decide +kernel
  have hinfo : InfoAt oneTensor 24 57 := by
    unfold InfoAt
    decide +kernel
  have hcontained : Contained floatBytes oneTensor := by
    refine Or.inr (Or.inr ⟨fun _ => 24, fun i => if i = 0 then 24 else 57, 57, ⟨?_, ?_, ?_, ?_, ?_⟩, ?_, ?_⟩)
    · decide +kernel
    · rw [hkv]
      exact Nat.zero_le _
    · refine ⟨rfl, rfl, fun i hi => ?_⟩
      rw [hkv] at hi
      exact absurd hi (Nat.not_lt_zero i)
    · rw [htensors]
      decide +kernel
    · rw [htensors]
      refine ⟨rfl, rfl, fun i hi => ?_⟩
      obtain rfl := Nat.lt_one_iff.mp hi
      exact hinfo
    · rw [alignmentIn, hkv]
      decide
    · unfold DataWithin tensorsIn alignmentIn
      rw [hkv, htensors]
      decide +kernel
  exact ⟨hcontained, (load_safe floatBytes oneTensor freely).1 hcontained⟩

/-- A file that ends after its magic number is read outside. -/
theorem load_unsafe_truncated : ¬ Safe floatBytes (encodeU32 ggufMagic) freely := by
  intro h
  refine h.reads ?_
  rw [load_magic (by decide +kernel) (by decide +kernel), if_neg (by decide +kernel)]
  rfl

end DenseLite.Gguf.Bounds
