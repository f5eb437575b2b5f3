import DenseLite.Memory.Store
import DenseLite.Vector.Persist

/-! # The memory table and its vector index

A `MemoryStore` with a vector path writes every memory twice: into the table, under the key up to its first
zero byte, and into the vector index, under the whole key. Each change of the index is saved to its file, and
the next start loads it from there, or starts with an empty index if the file is not taken.

`inSync` says in which runs the active ids of the index are the keys of the embedded rows. -/

namespace DenseLite.Memory.VectorSync

open DenseLite.Lib.ByteStream DenseLite.Lib.KeyMap DenseLite.Lib.Runs DenseLite.Infer.State
open DenseLite.Memory.Store DenseLite.Vector.Index DenseLite.Vector.Persist

/-- A store with a vector path: the table, the index, and the file of the index. -/
structure SyncState where
  rows : List Row := []
  index : TurboQuantIndex 128 := {}
  file : Option Bytes := none

/-- A call, or a restart: `close`, and `init` on the same files. -/
inductive Call
  | put (e : MemoryEntry) (embedding : List F32) (hne : embedding ≠ [])
  | supersede (oldKey newKey : Bytes)
  | delete (key : Bytes)
  | restart

section Code

-- what the floating-point code makes of a text and of a vector
variable (embedText : Bytes → List F32) (quantize : List F32 → Codes 128)

/-- The index of `init`: what is loaded from the file, if there is one. -/
def loadIndex (file : Option Bytes) : TurboQuantIndex 128 :=
  match file with
  | some f => (load {} f true).1
  | none => {}

/-- One call. -/
def step (st : SyncState) : Call → SyncState
  | .put e embedding _ =>
    { rows := putMemory embedText e embedding st.rows
      index := add st.index e.key (quantize embedding)
      file := some (save (add st.index e.key (quantize embedding))) }
  | .supersede oldKey newKey => { st with rows := supersedeMemory oldKey newKey st.rows }
  | .delete key =>
    { rows := deleteMemory key st.rows
      index := (remove st.index key).1
      file := some (save (remove st.index key).1) }
  | .restart => { st with index := loadIndex st.file }

end Code

/-- The key has a row with an embedding. -/
def Embedded (rows : List Row) (key : Bytes) : Prop := ∃ r ∈ rows, r.entry.key = key ∧ r.embedding.isSome = true

/-- The active ids of the index are the keys of the embedded rows. -/
def InSync (st : SyncState) : Prop := ∀ key, IsActive st.index key ↔ Embedded st.rows key

/-- The next slot has a 32-bit number, and SQLite takes the key, as a text of at most `10^9` bytes. -/
def Fits (st : SyncState) : Call → Prop
  | .put e _ _ =>
    (find e.key st.index.indexById = none → st.index.vectors.length + 1 < 2 ^ 32) ∧ e.key.length ≤ 1000000000
  | _ => True

/-- The reader of the index takes what is saved of it. -/
def Loadable (index : TurboQuantIndex 128) : Prop :=
  index.vectors.length ≤ 10000000 ∧ ∀ id ∈ index.idByIndex, 1 ≤ id.length ∧ id.length ≤ 4096

/-- The call meets the condition: a key that is put has no zero byte; one that is deleted has none either, or
what is in front of it is no key; and a restart finds an index that can be loaded, or a table without
embeddings. -/
def KeepsSync (st : SyncState) : Call → Prop
  | .put e _ _ => 0 ∉ e.key
  | .supersede _ _ => True
  | .delete key => 0 ∉ key ∨ ¬ Embedded st.rows (cstr key)
  | .restart => Loadable st.index ∨ ∀ key, ¬ Embedded st.rows key

/-! ### The table -/

section Table

variable {rows : List Row} {key : Bytes}

/-- Who is embedded after a put: the key that was put, and who was before. -/
theorem embedded_upsert {new : Row} (h : new.embedding.isSome = true) :
    Embedded (upsert new rows) key ↔ key = new.entry.key ∨ Embedded rows key := by
  constructor
  · rintro ⟨r, hr, rfl, hemb⟩
    rcases mem_upsert_iff.mp hr with ⟨hold, -⟩ | ⟨rfl, -⟩ | ⟨old, -, heq, rfl⟩
    · exact Or.inr ⟨r, hold, rfl, hemb⟩
    · exact Or.inl rfl
    · exact Or.inl heq
  · intro hkey
    by_cases heq : key = new.entry.key
    · obtain ⟨r, hr, hrkey, hremb⟩ := exists_mem_upsert new rows
      exact ⟨r, hr, hrkey.trans heq.symm, hremb ▸ h⟩
    · obtain ⟨r, hr, rfl, hemb⟩ := hkey.resolve_left heq
      exact ⟨r, mem_upsert_iff.mpr (Or.inl ⟨hr, heq⟩), rfl, hemb⟩

theorem embedded_delete {key' : Bytes} :
    Embedded (deleteMemory key' rows) key ↔ key ≠ cstr key' ∧ Embedded rows key := by
  unfold Embedded deleteMemory
  constructor
  · rintro ⟨r, hr, rfl, hemb⟩
    obtain ⟨hmem, hne⟩ := List.mem_filter.mp hr
    exact ⟨of_decide_eq_true hne, r, hmem, rfl, hemb⟩
  · rintro ⟨hne, r, hmem, rfl, hemb⟩
    exact ⟨r, List.mem_filter.mpr ⟨hmem, decide_eq_true hne⟩, rfl, hemb⟩

theorem embedded_supersede {oldKey newKey : Bytes} :
    Embedded (supersedeMemory oldKey newKey rows) key ↔ Embedded rows key := by
  unfold Embedded supersedeMemory
  split_ifs with hold
  · rfl
  · constructor
    · rintro ⟨r, hr, rfl, hemb⟩
      obtain ⟨old, hold, rfl⟩ := List.mem_map.mp hr
      refine ⟨old, hold, ?_, ?_⟩
      · split_ifs <;> rfl
      · split_ifs at hemb <;> exact hemb
    · rintro ⟨r, hr, rfl, hemb⟩
      refine ⟨_, List.mem_map_of_mem hr, ?_, ?_⟩
      · split_ifs <;> rfl
      · split_ifs <;> exact hemb

end Table

/-! ### Keeping in sync -/

section Sync

variable {embedText : Bytes → List F32} {quantize : List F32 → Codes 128} {st : SyncState}

/-- What the file is for the index: what was saved of it, or a file that leaves the index empty, as it is. -/
def FileOf (st : SyncState) : Prop :=
  st.file = some (save st.index) ∨ (st.index = {} ∧ loadIndex st.file = {})

/-- The invariant beside the agreement. -/
structure Sound (st : SyncState) : Prop where
  consistent : Consistent st.index
  slots : st.index.vectors.length < 2 ^ 32
  ids : ∀ id ∈ st.index.idByIndex, 0 ∉ id ∧ id.length ≤ 1000000000
  file : FileOf st

theorem isActive_sameIndex {s s' : TurboQuantIndex 128} (h : SameIndex s s') (id : Bytes) :
    IsActive s' id ↔ IsActive s id := by
  unfold IsActive ActiveAt
  rw [h.1, h.2.2]

theorem mem_ids_of_isActive (hs : Sound st) {id : Bytes} (h : IsActive st.index id) : id ∈ st.index.idByIndex := by
  obtain ⟨i, hi, -⟩ := h
  exact List.mem_of_getElem? ((hs.consistent.inverse id i).mp hi)

theorem not_isActive_empty (id : Bytes) : ¬ IsActive ({} : TurboQuantIndex 128) id :=
  not_isActive rfl

/-- The index after a restart: the same one if it can be loaded, and else an empty one. -/
theorem loadIndex_spec (hs : Sound st) :
    (Loadable st.index → SameIndex st.index (loadIndex st.file) ∧ Consistent (loadIndex st.file)) ∧
      (¬ Loadable st.index → loadIndex st.file = {}) := by
  rcases hs.file with hfile | ⟨hempty, hload⟩
  · rw [hfile, loadIndex]
    constructor
    · rintro ⟨hlen, hids⟩
      obtain ⟨s', hload, hcons, hsame⟩ := load_save hs.consistent hlen (by decide) hids {}
      rw [hload]
      exact ⟨hsame, hcons⟩
    · intro hnot
      have hlost : load ({} : TurboQuantIndex 128) (save st.index) true = ({}, false) := by
        refine load_save_lost hs.consistent hs.slots (fun id hid => (hs.ids id hid).2.trans_lt (by decide)) ?_
        unfold Loadable at hnot
        rw [not_and_or, not_le] at hnot
        push Not at hnot ⊢
        exact hnot
      rw [hlost]
  · rw [hload, hempty]
    exact ⟨fun _ => ⟨⟨rfl, rfl, fun _ => rfl⟩, consistent_empty⟩, fun _ => rfl⟩

theorem save_sameIndex {s s' : TurboQuantIndex 128} (h : SameIndex s s') : save s' = save s := by
  unfold save recordsOf
  rw [h.1, h.2.1]

/-- The slots after an add: the old ones, and one more for a new id. -/
theorem length_add_lt (hs : Sound st) {id : Bytes} {codes : Codes 128}
    (hnew : find id st.index.indexById = none → st.index.vectors.length + 1 < 2 ^ 32) :
    (add st.index id codes).vectors.length < 2 ^ 32 := by
  have hlen := @length_add _ st.index id codes
  have hslots := hs.slots
  cases hfind : find id st.index.indexById with
  | none =>
    have hnext := hnew hfind
    rw [hfind, Option.isNone_none, if_pos rfl] at hlen
    omega
  | some i =>
    rw [hfind, Option.isNone_some, if_neg (by decide)] at hlen
    omega

theorem sound_put (hs : Sound st) {e : MemoryEntry} {embedding : List F32} {hne : embedding ≠ []}
    (hfits : Fits st (.put e embedding hne)) (hkeeps : 0 ∉ e.key) :
    Sound (step embedText quantize st (.put e embedding hne)) where
  consistent := consistent_add hs.consistent fun hnew => by
    have hslots := hfits.1 hnew
    omega
  slots := length_add_lt hs hfits.1
  ids id hid := by
    rcases (mem_idByIndex_step hs.consistent (.add e.key (quantize embedding)) id).mp hid with hid | ⟨_, heq⟩
    · exact hs.ids id hid
    · cases heq
      exact ⟨hkeeps, hfits.2⟩
  file := Or.inl rfl

theorem sound_delete (hs : Sound st) (key : Bytes) : Sound (step embedText quantize st (.delete key)) where
  consistent := consistent_remove hs.consistent
  slots := length_remove.trans_lt hs.slots
  ids id hid := by
    rcases (mem_idByIndex_step hs.consistent (.remove key) id).mp hid with hid | ⟨_, heq⟩
    · exact hs.ids id hid
    · cases heq
  file := Or.inl rfl

theorem sound_restart (hs : Sound st) : Sound (step embedText quantize st .restart) := by
  obtain ⟨hload, hlost⟩ := loadIndex_spec hs
  by_cases hloadable : Loadable st.index
  · obtain ⟨hsame, hcons⟩ := hload hloadable
    refine ⟨hcons, ?_, ?_, ?_⟩
    · dsimp only [step]
      rw [hsame.1]
      exact hs.slots
    · dsimp only [step]
      rw [hsame.2.1]
      exact hs.ids
    · rcases hs.file with hfile | ⟨-, hempty⟩
      · exact Or.inl (hfile.trans (congrArg some (save_sameIndex hsame).symm))
      · exact Or.inr ⟨hempty, hempty⟩
  · have hempty := hlost hloadable
    have hindex : (step embedText quantize st .restart).index = {} := hempty
    refine ⟨hindex ▸ consistent_empty, hindex ▸ by decide, fun id hid => ?_, Or.inr ⟨hempty, hempty⟩⟩
    rw [hindex] at hid
    cases hid

theorem sound_step (hs : Sound st) {a : Call} (hfits : Fits st a) (hkeeps : KeepsSync st a) :
    Sound (step embedText quantize st a) := by
  cases a with
  | put e embedding hne => exact sound_put hs hfits hkeeps
  | supersede oldKey newKey => exact ⟨hs.consistent, hs.slots, hs.ids, hs.file⟩
  | delete key => exact sound_delete hs key
  | restart => exact sound_restart hs

/-- A put keeps the agreement exactly when the key has no zero byte. -/
theorem inSync_put_iff (hs : Sound st) (hsync : InSync st) {e : MemoryEntry} {embedding : List F32}
    {hne : embedding ≠ []} (hfits : Fits st (.put e embedding hne)) :
    InSync (step embedText quantize st (.put e embedding hne)) ↔ 0 ∉ e.key := by
  have hactive : ∀ key, IsActive (step embedText quantize st (.put e embedding hne)).index key ↔
      key = e.key ∨ IsActive st.index key := fun key => isActive_add hs.consistent fun hnew => by
    have hslots := hfits.1 hnew
    omega
  have hembedded : ∀ key, Embedded (step embedText quantize st (.put e embedding hne)).rows key ↔
      key = cstr e.key ∨ Embedded st.rows key := fun key => by
    dsimp only [step, putMemory]
    rw [if_neg hne, if_neg hne]
    exact embedded_upsert rfl
  unfold InSync
  simp only [hactive, hembedded]
  constructor
  · intro h
    rcases (h e.key).mp (Or.inl rfl) with heq | hemb
    · rw [heq]
      exact not_mem_cstr e.key
    · exact (hs.ids e.key (mem_ids_of_isActive hs ((hsync e.key).mpr hemb))).1
  · intro h0 key
    rw [cstr_of_not_mem h0, hsync key]

/-- A removal keeps the agreement exactly when the key has no zero byte, or is no key up to it. -/
theorem inSync_delete_iff (hs : Sound st) (hsync : InSync st) (key : Bytes) :
    InSync (step embedText quantize st (.delete key)) ↔ 0 ∉ key ∨ ¬ Embedded st.rows (cstr key) := by
  have hactive : ∀ key', IsActive (step embedText quantize st (.delete key)).index key' ↔
      key' ≠ key ∧ IsActive st.index key' := fun key' => isActive_remove hs.consistent
  have hembedded : ∀ key', Embedded (step embedText quantize st (.delete key)).rows key' ↔
      key' ≠ cstr key ∧ Embedded st.rows key' := fun key' => embedded_delete
  unfold InSync
  simp only [hactive, hembedded]
  by_cases h0 : 0 ∈ key
  · constructor
    · intro h
      refine Or.inr fun hemb => ?_
      have hne : cstr key ≠ key := by
        intro heq
        rw [← heq] at h0
        exact not_mem_cstr key h0
      exact ((h (cstr key)).mp ⟨hne, (hsync _).mpr hemb⟩).1 rfl
    · intro h key'
      rw [hsync key']
      have hnot := h.resolve_left (not_not.mpr h0)
      constructor
      · rintro ⟨-, hemb⟩
        exact ⟨fun heq => hnot (heq ▸ hemb), hemb⟩
      · rintro ⟨-, hemb⟩
        refine ⟨fun heq => ?_, hemb⟩
        exact (hs.ids key' (mem_ids_of_isActive hs ((hsync key').mpr hemb))).1 (heq ▸ h0)
  · refine iff_of_true (fun key' => ?_) (Or.inl h0)
    rw [cstr_of_not_mem h0, hsync key']

/-- A restart keeps the agreement exactly when the index can be loaded, or nothing is embedded. -/
theorem inSync_restart_iff (hs : Sound st) (hsync : InSync st) :
    InSync (step embedText quantize st .restart) ↔
      Loadable st.index ∨ ∀ key, ¬ Embedded st.rows key := by
  obtain ⟨hload, hlost⟩ := loadIndex_spec hs
  by_cases hloadable : Loadable st.index
  · refine iff_of_true (fun key => ?_) (Or.inl hloadable)
    exact (isActive_sameIndex (hload hloadable).1 key).trans (hsync key)
  · have hindex : (step embedText quantize st .restart).index = {} := hlost hloadable
    unfold InSync
    rw [hindex]
    constructor
    · exact fun h => Or.inr fun key hemb => not_isActive_empty key ((h key).mpr hemb)
    · exact fun h key => iff_of_false (not_isActive_empty key) (h.resolve_left hloadable key)

theorem inSync_step_iff (hs : Sound st) (hsync : InSync st) {a : Call} (hfits : Fits st a) :
    InSync (step embedText quantize st a) ↔ KeepsSync st a := by
  cases a with
  | put e embedding hne => exact inSync_put_iff hs hsync hfits
  | supersede oldKey newKey =>
    exact iff_of_true (fun key => (hsync key).trans embedded_supersede.symm) trivial
  | delete key => exact inSync_delete_iff hs hsync key
  | restart => exact inSync_restart_iff hs hsync

/-- **The table and the index agree** after every call of a run whose calls meet the condition, and, as long
as the slots and the keys fit, in no other run. -/
theorem inSync (embedText : Bytes → List F32) (quantize : List F32 → Codes 128) (calls : List Call) :
    (EveryStep (step embedText quantize) (fun st a => Fits st a ∧ KeepsSync st a) {} calls →
      EveryStep (step embedText quantize) (fun st a => InSync (step embedText quantize st a)) {} calls) ∧
    (EveryStep (step embedText quantize) Fits {} calls →
      EveryStep (step embedText quantize) (fun st a => InSync (step embedText quantize st a)) {} calls →
      EveryStep (step embedText quantize) KeepsSync {} calls) := by
  have hstart : Sound {} ∧ InSync {} := by
    refine ⟨⟨consistent_empty, by decide, by simp, Or.inr ⟨rfl, rfl⟩⟩, fun key => ?_⟩
    exact iff_of_false (not_isActive_empty key) (by simp [Embedded])
  constructor
  · intro hkeeps
    refine (everyStep_of_invariant (I := fun st => Sound st ∧ InSync st) (fun st a hI hC => ?_) calls _
      hstart hkeeps).1
    have hsync : InSync (step embedText quantize st a) := (inSync_step_iff hI.1 hI.2 hC.1).mpr hC.2
    exact ⟨hsync, sound_step hI.1 hC.1 hC.2, hsync⟩
  · intro hfits hsync
    refine (everyStep_of_invariant (I := fun st => Sound st ∧ InSync st) (fun st a hI hC => ?_) calls _
      hstart ((everyStep_and calls _).mpr ⟨hfits, hsync⟩)).1
    have hkeeps := (inSync_step_iff hI.1 hI.2 hC.1).mp hC.2
    exact ⟨hkeeps, sound_step hI.1 hC.1 hkeeps, hC.2⟩

end Sync

/-- The codes of the vector zero. -/
def zeroCodes : Codes 128 where
  scale := 0x33D6BF95
  offset := 0
  packed := List.replicate 64 0x77
  length_packed := rfl

/-- A memory under the empty key, and a restart. -/
def emptyKey : List Call := [.put { value := ascii "v" } [0] (by decide), .restart]

theorem not_inSync_emptyKey : ¬ EveryStep (step (fun _ => []) fun _ => zeroCodes)
    (fun st a => InSync (step (fun _ => []) (fun _ => zeroCodes) st a)) {} emptyKey := by
  rintro ⟨-, hlast, -⟩
  have hrow : Embedded (emptyKey.foldl (step (fun _ => []) fun _ => zeroCodes) {}).rows [] :=
    ⟨_, List.mem_cons_self, rfl, rfl⟩
  have hlost : load ({} : TurboQuantIndex 128) (save (add {} [] zeroCodes)) true = ({}, false) :=
    load_save_lost (consistent_add consistent_empty fun _ => by decide) (by decide) (by decide)
      (Or.inr ⟨[], List.mem_cons_self, by decide⟩)
  have hindex : (emptyKey.foldl (step (fun _ => []) fun _ => zeroCodes) {}).index = {} := congrArg Prod.fst hlost
  exact not_isActive_empty [] (hindex ▸ (hlast []).mpr hrow)

end DenseLite.Memory.VectorSync
