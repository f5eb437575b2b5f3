import DenseLite.Memory.Recall

/-! # What is deleted or superseded stays gone

`delete_memory` and `supersede_memory` change the table alone, and recall takes the entries in RAM first. So
an entry that is in RAM when its row is deleted or superseded is still recalled, and printed into every
context. `stays_gone` says in which runs this does not happen: no active entry of the key is in RAM then. -/

namespace DenseLite.Memory.Forget

open DenseLite.Lib.ByteStream DenseLite.Lib.KeyMap DenseLite.Lib.Live DenseLite.Lib.Runs
open DenseLite.Infer.State DenseLite.Memory.Store DenseLite.Memory.Cache DenseLite.Memory.Recall

/-! ### Runs of the engine -/

/-- What happens to an engine: a call of it or of its store, a touch, a call of its persistent memory, or a new
start on the same database. -/
inductive Event
  | call (c : Call)
  | touch (key : Bytes) (now : Int64)
  | setEntry (e : MemoryEntry) (now : Int64)
  | removeEntry (key : Bytes)
  | clear
  | restart (now : Int64)

/-- `touch_memory`. -/
def touchMemory (key : Bytes) (now : Int64) (rows : List Row) : List Row :=
  if key = [] then rows
  else rows.map fun r => if r.entry.key = cstr key then
    { r with entry := { r.entry with accessCount := r.entry.accessCount + 1, lastAccessedAt := now } } else r

section Code

variable (embedText : Bytes → List F32)

/-- The engine after an event. -/
def engineStep (st : EngineState) : Event → EngineState
  | .call c => step embedText st c
  | .touch key now => { st with rows := touchMemory key now st.rows }
  | .setEntry e now => { st with entries := setEntry now e st.entries }
  | .removeEntry key => { st with entries := erase key st.entries }
  | .clear => { st with entries := [] }
  | .restart now => init now st.rows

/-- The entry is put under the key: the key names the entry, or the row that is written. -/
def PutsKey (key : Bytes) (e : MemoryEntry) : Prop := e.key = key ∨ cstr e.key = key

instance (key : Bytes) (e : MemoryEntry) : Decidable (PutsKey key e) := inferInstanceAs (Decidable (_ ∨ _))

/-- The entries that an event puts. -/
def puts : Event → List MemoryEntry
  | .call (.endSessionAndArchive session newId _) => extractedMemories newId session
  | .call (.put e _) => [e]
  | .setEntry e _ => [e]
  | _ => []

/-- The key that an event deletes or supersedes, if it succeeds. -/
def removes : Event → Option Bytes
  | .call (.delete key) => some key
  | .call (.supersede oldKey _) => if oldKey = [] then none else some oldKey
  | _ => none

/-- The engine, and the keys that were deleted or superseded and not put since. -/
structure RunState where
  engine : EngineState
  gone : List Bytes := []

/-- One event. -/
def runStep (st : RunState) (ev : Event) : RunState where
  engine := engineStep embedText st.engine ev
  gone := (removes ev).toList ++ st.gone.filter fun key => ∀ e ∈ puts ev, ¬ PutsKey key e

end Code

/-- The entry is recalled for some query, or printed into some context, with a filter for active entries. -/
def Shown (b : Recaller) (st : EngineState) (e : MemoryEntry) : Prop :=
  ∃ query filter, filter.activeOnly = true ∧
    ((∃ limit, ∃ rm ∈ memoryRecall b query limit filter st, rm.entry = e) ∨ e ∈ printed b query filter st)

/-- Nothing is shown of the keys that are gone. -/
def StaysGone (b : Recaller) (st : RunState) : Prop := ∀ key ∈ st.gone, ∀ e, Shown b st.engine e → e.key ≠ key

/-- The event meets the condition: if it deletes or supersedes a key, no active entry of the key is in RAM. -/
def Removable (st : RunState) (ev : Event) : Prop :=
  ∀ key ∈ removes ev, ∀ m, find key st.engine.entries = some m → m.status ≠ ascii "active"

/-! ### The invariant -/

/-- No active entry of the key is in RAM, and the rows of the key are superseded. -/
structure Gone (key : Bytes) (st : EngineState) : Prop where
  entries : ∀ m, find key st.entries = some m → m.status ≠ ascii "active"
  rows : ∀ r ∈ st.rows, r.entry.key = key → r.entry.status = ascii "superseded"

/-- The entries in RAM stand under their keys, once each, and the keys of the table have no zero byte. -/
structure Keyed (st : EngineState) : Prop where
  nodup : (keys st.entries).Nodup
  key : ∀ key m, find key st.entries = some m → m.key = key
  text : ∀ r ∈ st.rows, 0 ∉ r.entry.key

section Shown

variable {b : Recaller} {st : EngineState} {e : MemoryEntry} {key : Bytes}

theorem find_of_mem_getAll {filter : MemoryScopeFilter} (hk : Keyed st) (h : e ∈ getAll filter st.entries) :
    find e.key st.entries = some e ∧ filter.matches e = true := by
  obtain ⟨⟨key, hmem⟩, hm⟩ := mem_getAll_iff.mp h
  have hfind := find_of_mem hk.nodup hmem
  rw [hk.key key e hfind]
  exact ⟨hfind, hm⟩

/-- What is shown of the entries is active in RAM, or active in the table. -/
theorem shown_cases (hk : Keyed st) (h : Shown b st e) :
    (find e.key st.entries = some e ∧ e.status = ascii "active") ∨
      ∃ r ∈ st.rows, r.entry.key = e.key ∧ r.entry.status = ascii "active" := by
  obtain ⟨query, filter, hactive, h⟩ := h
  have hram {filter : MemoryScopeFilter} (hactive : filter.activeOnly = true)
      (h : e ∈ getAll filter st.entries) : find e.key st.entries = some e ∧ e.status = ascii "active" := by
    obtain ⟨hfind, hm⟩ := find_of_mem_getAll hk h
    exact ⟨hfind, status_of_matches hactive hm⟩
  have hrecall {limit : ℕ} {rm : RecalledMemory} (hrm : rm ∈ memoryRecall b query limit filter st)
      (he : rm.entry = e) : (find e.key st.entries = some e ∧ e.status = ascii "active") ∨
      ∃ r ∈ st.rows, r.entry.key = e.key ∧ r.entry.status = ascii "active" := by
    subst he
    rcases mem_recall hrm with h | h
    · exact Or.inl (hram hactive h)
    · obtain ⟨r, hr, hstatus, heq, -⟩ := mem_queryMemoriesKeyword h
      exact Or.inr ⟨r, hr, by rw [heq]; rfl, hstatus⟩
  rcases h with ⟨limit, rm, hrm, he⟩ | h
  · exact hrecall hrm he
  · rcases List.mem_append.mp h with h | h
    · exact Or.inl (hram rfl h)
    · obtain ⟨rm, hrm, he⟩ := List.mem_map.mp h
      unfold recalledFor at hrm
      split_ifs at hrm with hquery
      · cases hrm
      · exact hrecall hrm he

/-- **Nothing is shown of a key that is gone.** -/
theorem Gone.not_shown (hk : Keyed st) (h : Gone key st) (hs : Shown b st e) : e.key ≠ key := by
  rintro rfl
  rcases shown_cases hk hs with ⟨hfind, hactive⟩ | ⟨r, hr, hkey, hactive⟩
  · exact h.entries e hfind hactive
  · rw [h.rows r hr hkey] at hactive
    exact absurd hactive (by decide)

end Shown

/-! ### One event -/

section Events

variable {embedText : Bytes → List F32} {st : EngineState} {key : Bytes} {now : Int64}

theorem find_setEntry_of_ne {e : MemoryEntry} {entries : Entries} (h : key ≠ e.key) :
    find key (setEntry now e entries) = find key entries := find_set_of_ne h

theorem keyed_setEntry (now : Int64) {entries : Entries} (hnd : (keys entries).Nodup)
    (hkey : ∀ key m, find key entries = some m → m.key = key) (e : MemoryEntry) :
    (keys (setEntry now e entries)).Nodup ∧ ∀ key m, find key (setEntry now e entries) = some m → m.key = key := by
  refine ⟨nodup_keys_set hnd, fun key m hfind => ?_⟩
  rcases find_set_cases hfind with ⟨rfl, rfl⟩ | hold
  · split_ifs <;> rfl
  · exact hkey key m hold

theorem text_putMemory {rows : List Row} (h : ∀ r ∈ rows, 0 ∉ r.entry.key) (e : MemoryEntry)
    (embedding : List F32) : ∀ r ∈ putMemory embedText e embedding rows, 0 ∉ r.entry.key := by
  intro r hr
  rcases mem_upsert_iff.mp hr with ⟨hold, -⟩ | ⟨rfl, -⟩ | ⟨old, hold, -, rfl⟩
  · exact h r hold
  · exact not_mem_cstr e.key
  · exact h old hold

theorem Keyed.commit (h : Keyed st) (e : MemoryEntry) : Keyed (commit embedText now st e) := by
  obtain ⟨hnd, hkey⟩ := keyed_setEntry now h.nodup h.key e
  exact ⟨hnd, hkey, text_putMemory h.text e _⟩

theorem keyed_foldl_setEntry (now : Int64) : ∀ (es : List MemoryEntry) {entries : Entries}, (keys entries).Nodup →
    (∀ key m, find key entries = some m → m.key = key) →
    (keys (es.foldl (fun entries e => setEntry now e entries) entries)).Nodup ∧
      ∀ key m, find key (es.foldl (fun entries e => setEntry now e entries) entries) = some m → m.key = key
  | [], _, hnd, hkey => ⟨hnd, hkey⟩
  | e :: es, _, hnd, hkey => by
    obtain ⟨hnd', hkey'⟩ := keyed_setEntry now hnd hkey e
    exact keyed_foldl_setEntry now es hnd' hkey'

theorem keyed_init {rows : List Row} (h : ∀ r ∈ rows, 0 ∉ r.entry.key) : Keyed (init now rows) := by
  have hnone : (keys ([] : Entries)).Nodup := List.nodup_nil
  have hempty : ∀ key m, find key ([] : Entries) = some m → m.key = key := fun _ _ hfind => by cases hfind
  obtain ⟨hnd, hkey⟩ := keyed_foldl_setEntry now (loadAllPersistent {} rows) hnone hempty
  exact ⟨hnd, hkey, h⟩

theorem Keyed.step (h : Keyed st) (c : Call) : Keyed (step embedText st c) := by
  cases c with
  | endSessionAndArchive session newId now =>
    exact foldl_invariant (C := fun _ => True) (fun _ e hst _ => hst.commit e) _ _ h fun _ _ => trivial
  | supersede oldKey newKey =>
    refine ⟨h.nodup, h.key, fun r hr => ?_⟩
    change r ∈ supersedeMemory oldKey newKey st.rows at hr
    unfold supersedeMemory at hr
    split_ifs at hr
    · exact h.text r hr
    · obtain ⟨old, hold, rfl⟩ := List.mem_map.mp hr
      split_ifs <;> exact h.text old hold
  | put e embedding => exact ⟨h.nodup, h.key, text_putMemory h.text e embedding⟩
  | delete key => exact ⟨h.nodup, h.key, fun r hr => h.text r (List.mem_of_mem_filter hr)⟩

theorem Keyed.engineStep (h : Keyed st) (ev : Event) : Keyed (engineStep embedText st ev) := by
  cases ev with
  | call c => exact h.step c
  | touch key now =>
    refine ⟨h.nodup, h.key, fun r hr => ?_⟩
    change r ∈ touchMemory key now st.rows at hr
    unfold touchMemory at hr
    split_ifs at hr
    · exact h.text r hr
    · obtain ⟨old, hold, rfl⟩ := List.mem_map.mp hr
      split_ifs <;> exact h.text old hold
  | setEntry e now =>
    obtain ⟨hnd, hkey⟩ := keyed_setEntry now h.nodup h.key e
    exact ⟨hnd, hkey, h.text⟩
  | removeEntry key =>
    exact ⟨nodup_keys_erase h.nodup, fun key m hfind => h.key key m (find_of_find_erase hfind), h.text⟩
  | clear => exact ⟨List.nodup_nil, fun _ _ hfind => (by cases hfind), h.text⟩
  | restart now => exact keyed_init h.text

/-- A put under another key leaves the rows of the key. -/
theorem rows_putMemory {e : MemoryEntry} {embedding : List F32} {rows : List Row} (hne : ¬ PutsKey key e)
    (h : ∀ r ∈ rows, r.entry.key = key → r.entry.status = ascii "superseded") :
    ∀ r ∈ putMemory embedText e embedding rows, r.entry.key = key → r.entry.status = ascii "superseded" := by
  intro r hr hkey
  rcases mem_upsert_iff.mp hr with ⟨hold, -⟩ | ⟨rfl, -⟩ | ⟨old, hold, heq, rfl⟩
  · exact h r hold hkey
  · exact absurd (Or.inr hkey) hne
  · exact absurd (Or.inr (heq.symm.trans hkey)) hne

theorem Gone.commit {e : MemoryEntry} (h : Gone key st) (hne : ¬ PutsKey key e) :
    Gone key (commit embedText now st e) where
  entries m hfind := h.entries m ((find_setEntry_of_ne fun heq => hne (Or.inl heq.symm)).symm.trans hfind)
  rows := rows_putMemory hne h.rows

/-- What is loaded is active, so a superseded row is not. -/
theorem gone_init {rows : List Row} (h : ∀ r ∈ rows, r.entry.key = key → r.entry.status = ascii "superseded") :
    Gone key (init now rows) where
  entries m hfind := by
    rcases find_foldl_setEntry _ _ hfind with ⟨e, he, hkey, -⟩ | hnone
    · obtain ⟨hmem, hm⟩ := List.mem_filter.mp he
      obtain ⟨r, hr, rfl⟩ := List.mem_map.mp hmem
      have hactive := status_of_matches rfl hm
      change (if r.entry.status = [] then ascii "active" else r.entry.status) = ascii "active" at hactive
      rw [h r hr hkey] at hactive
      exact absurd hactive (by decide)
    · cases hnone
  rows := h

/-- **A key that is gone stays gone** through every event that does not put it. -/
theorem Gone.engineStep {ev : Event} (h : Gone key st) (hne : ∀ e ∈ puts ev, ¬ PutsKey key e) :
    Gone key (engineStep embedText st ev) := by
  cases ev with
  | call c =>
    cases c with
    | endSessionAndArchive session newId now =>
      exact foldl_invariant (fun _ _ hst he => hst.commit he) _ _ h hne
    | supersede oldKey newKey =>
      refine ⟨h.entries, fun r hr hkey => ?_⟩
      change r ∈ supersedeMemory oldKey newKey st.rows at hr
      unfold supersedeMemory at hr
      split_ifs at hr
      · exact h.rows r hr hkey
      · obtain ⟨old, hold, rfl⟩ := List.mem_map.mp hr
        split_ifs at hkey ⊢
        · rfl
        · exact h.rows old hold hkey
    | put e embedding => exact ⟨h.entries, rows_putMemory (hne e List.mem_cons_self) h.rows⟩
    | delete key => exact ⟨h.entries, fun r hr => h.rows r (List.mem_of_mem_filter hr)⟩
  | touch key' now =>
    refine ⟨h.entries, fun r hr hkey => ?_⟩
    change r ∈ touchMemory key' now st.rows at hr
    unfold touchMemory at hr
    split_ifs at hr
    · exact h.rows r hr hkey
    · obtain ⟨old, hold, rfl⟩ := List.mem_map.mp hr
      split_ifs at hkey ⊢ <;> exact h.rows old hold hkey
  | setEntry e now =>
    have hother : key ≠ e.key := fun heq => hne e List.mem_cons_self (Or.inl heq.symm)
    exact ⟨fun m hfind => h.entries m ((find_setEntry_of_ne hother).symm.trans hfind), h.rows⟩
  | removeEntry key' => exact ⟨fun m hfind => h.entries m (find_of_find_erase hfind), h.rows⟩
  | clear => exact ⟨fun _ hfind => (by cases hfind), h.rows⟩
  | restart now => exact gone_init h.rows

/-- A key that is deleted or superseded while no active entry of it is in RAM is gone. -/
theorem gone_of_removes {ev : Event} (hk : Keyed st) (h : key ∈ removes ev)
    (hram : ∀ m, find key st.entries = some m → m.status ≠ ascii "active") :
    Gone key (engineStep embedText st ev) := by
  have hzero {r : Row} (hr : r ∈ st.rows) (hkey : r.entry.key = key) : cstr key = key :=
    cstr_of_not_mem (hkey ▸ hk.text r hr)
  cases ev with
  | call c =>
    cases c with
    | supersede oldKey newKey =>
      change (if oldKey = [] then none else some oldKey) = some key at h
      split_ifs at h with hempty
      cases h
      refine ⟨hram, fun r hr hkey => ?_⟩
      change r ∈ supersedeMemory key newKey st.rows at hr
      unfold supersedeMemory at hr
      rw [if_neg hempty] at hr
      obtain ⟨old, hold, rfl⟩ := List.mem_map.mp hr
      split_ifs at hkey ⊢ with heq
      · rfl
      · exact absurd (hkey.trans (hzero hold hkey).symm) heq
    | delete key' =>
      cases h
      refine ⟨hram, fun r hr hkey => ?_⟩
      obtain ⟨hold, hne⟩ := List.mem_filter.mp hr
      exact absurd (hkey.trans (hzero hold hkey).symm) (of_decide_eq_true hne)
    | endSessionAndArchive session newId now => cases h
    | put e embedding => cases h
  | touch key' now => cases h
  | setEntry e now => cases h
  | removeEntry key' => cases h
  | clear => cases h
  | restart now => cases h

end Events

/-! ### The runs -/

/-- Everything that is gone is gone. -/
def AllGone (st : RunState) : Prop := Keyed st.engine ∧ ∀ key ∈ st.gone, Gone key st.engine

theorem allGone_step (embedText : Bytes → List F32) {st : RunState} {ev : Event} (h : AllGone st)
    (hok : Removable st ev) : AllGone (runStep embedText st ev) := by
  obtain ⟨hk, hgone⟩ := h
  refine ⟨hk.engineStep ev, fun key hkey => ?_⟩
  rcases List.mem_append.mp hkey with hkey | hkey
  · have hremoved : key ∈ removes ev := Option.mem_toList.mp hkey
    exact gone_of_removes hk hremoved (hok key hremoved)
  · obtain ⟨hold, hne⟩ := List.mem_filter.mp hkey
    exact (hgone key hold).engineStep (of_decide_eq_true hne)

/-- **Deleted and superseded memories stay gone** in every run whose events meet the condition. -/
theorem stays_gone (b : Recaller) (embedText : Bytes → List F32) (now : Int64) (rows : List Row)
    (htext : ∀ r ∈ rows, 0 ∉ r.entry.key) (events : List Event)
    (hok : EveryStep (runStep embedText) Removable { engine := init now rows } events) :
    EveryStep (runStep embedText) (fun st ev => StaysGone b (runStep embedText st ev))
      { engine := init now rows } events := by
  have hinit : AllGone { engine := init now rows } := ⟨keyed_init htext, fun _ hkey => by cases hkey⟩
  refine (everyStep_of_invariant (fun st ev hI hC => ?_) events _ hinit hok).1
  obtain ⟨hk, hgone⟩ := allGone_step embedText hI hC
  exact ⟨fun key hkey e hs => (hgone key hkey).not_shown hk hs, hk, hgone⟩

/-- A fact is superseded by a later one. -/
def supersedeFramework : Event := .call (.supersede (ascii "framework") (ascii "framework_v2"))

/-- The fact is put, and not in RAM when it is superseded. -/
theorem stays_gone_put : EveryStep (runStep fun _ => [])
    (fun st ev => StaysGone plainRecaller (runStep (fun _ => []) st ev)) { engine := init 1 [] }
    [.call (.put frameworkFact []), supersedeFramework] := by
  refine stays_gone plainRecaller (fun _ => []) 1 [] (fun r hr => by cases hr) _ ⟨?_, ?_, trivial⟩
  · intro key hkey
    cases hkey
  · intro key _ m hfind
    cases hfind

/-- The fact is in the table when the engine starts. -/
theorem not_stays_gone_loaded : ¬ EveryStep (runStep fun _ => [])
    (fun st ev => StaysGone plainRecaller (runStep (fun _ => []) st ev))
    { engine := init 1 [{ entry := frameworkFact, embedding := none }] } [supersedeFramework] := by
  rintro ⟨hgone, -⟩
  have hshown : Shown plainRecaller (runStep (fun _ => [])
      { engine := init 1 [{ entry := frameworkFact, embedding := none }] } supersedeFramework).engine
      { frameworkFact with updatedAt := 1 } := by
    refine ⟨[], {}, rfl, Or.inr (List.mem_append_left _ (mem_getAll_iff.mpr ⟨⟨ascii "framework", ?_⟩, ?_⟩))⟩
    · exact List.mem_cons_self
    · decide
  exact hgone (ascii "framework") (by decide) _ hshown rfl

end DenseLite.Memory.Forget
