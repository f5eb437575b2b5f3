import DenseLite.Lib.Live
import DenseLite.Lib.Runs
import DenseLite.Memory.Store
import Mathlib.Data.List.DropRight

/-! # The persistent memory and its copy in RAM

`MemoryEngine` keeps the entries of `PersistentMemory` in RAM, next to the table of `MemoryStore`. `init` fills
them from the table, and `end_session_and_archive` writes every fact it extracts to both; all other writes go
to the table alone. A fact in RAM is the extracted entry as a whole, while its row, if there was one, keeps its
category and its scope.

`mirrored` says in which runs the entries in RAM are those of the table. -/

namespace DenseLite.Memory.Cache

open DenseLite.Lib.ByteStream DenseLite.Lib.KeyMap DenseLite.Lib.Live DenseLite.Lib.Runs
open DenseLite.Infer.State DenseLite.Memory.Store

/-! ### Extracting facts -/

/-- `::tolower` on every byte. -/
def lower (s : Bytes) : Bytes := s.map fun c => if 0x41 ≤ c ∧ c ≤ 0x5a then c + 0x20 else c

/-- The lines of `std::getline`. -/
def lines (text : Bytes) : List Bytes := text.splitOn 10

/-- `erase` up to `find_first_not_of` and from behind `find_last_not_of`. -/
def trim (chars s : Bytes) : Bytes := (s.dropWhile chars.contains).rdropWhile chars.contains

/-- The characters taken off a key. -/
def keyTrim : Bytes := ascii " \t-*\r\n"

/-- The characters taken off a value. -/
def valueTrim : Bytes := ascii " \t\r\n"

/-- The words that make a line durable. -/
def triggers : List Bytes :=
  [ascii "remember", ascii "always", ascii "never", ascii "rule:", ascii "decision:", ascii "convention:",
    ascii "stack:", ascii "database:", ascii "framework:", ascii "architecture:", ascii "configured",
    ascii "using version", ascii "updated to"]

/-- `MemoryConsolidator::is_durable_candidate`. -/
def isDurableCandidate (text : Bytes) : Bool :=
  10 ≤ text.length && triggers.any fun trig => occursIn trig (lower text)

/-- The category that the text of a key names. -/
def categoryOf (key : Bytes) : MemoryCategory :=
  if occursIn (ascii "rule") (lower key) then .rule
  else if occursIn (ascii "decision") (lower key) then .architecturalDecision
  else if occursIn (ascii "convention") (lower key) then .convention
  else .discovery

/-- What stands on both sides of the byte `pos`, without the space around it. -/
def splitAt (pos : ℕ) (s : Bytes) : Bytes × Bytes := (trim keyTrim (s.take pos), trim valueTrim (s.drop (pos + 1)))

/-- The key and the value of a line with a colon at `pos`, and the category of its first key: after a key such
as `rule` the value may hold a key of its own. -/
def keyValue (pos : ℕ) (line : Bytes) : Bytes × Bytes × MemoryCategory :=
  let (key, val) := splitAt pos line
  let cat := categoryOf key
  if (cat ≠ .discovery ∨ occursIn (ascii "remember") (lower key)) ∧ 58 ∈ val then
    ((splitAt (val.idxOf 58) val).1, (splitAt (val.idxOf 58) val).2, cat)
  else (key, val, cat)

/-- The fact of a line, if it has one; `newId` is the id with the time in it. -/
def extractFact (newId : Bytes) (line : Bytes) : Option MemoryEntry :=
  let pos := line.idxOf 58
  if isDurableCandidate line ∧ 58 ∈ line ∧ 2 < pos ∧ pos + 2 < line.length then
    let (key, val, cat) := keyValue pos line
    if key ≠ [] ∧ val ≠ [] then
      some { id := newId, key := key, value := val, category := if cat = .discovery then categoryOf key else cat }
    else none
  else none

/-- `MemoryConsolidator::extract_facts`. -/
def extractFacts (newId : Bytes) (text : Bytes) : List MemoryEntry := (lines text).filterMap (extractFact newId)

/-- `SessionMemory`, as far as it is consolidated: its decisions, and its turns as role and content. -/
structure SessionMemory where
  decisions : List Bytes := []
  turns : List (Bytes × Bytes) := []

/-- `extracted_memories` of `MemoryConsolidator::consolidate`. -/
def extractedMemories (newId : Bytes) (session : SessionMemory) : List MemoryEntry :=
  session.decisions.flatMap (extractFacts newId) ++
    (session.turns.filter fun t => t.1 = ascii "user" ∨ t.1 = ascii "assistant").flatMap fun t =>
      extractFacts newId t.2

/-! ### The engine -/

/-- The entries of `PersistentMemory`. -/
abbrev Entries := List (Bytes × MemoryEntry)

/-- `MemoryEngine`: the table, and the entries in RAM. -/
structure EngineState where
  rows : List Row := []
  entries : Entries := []

/-- `PersistentMemory::set_entry`, at the time `now`. -/
def setEntry (now : Int64) (e : MemoryEntry) (entries : Entries) : Entries :=
  set e.key (if e.updatedAt = 0 then { e with updatedAt := now } else e) entries

/-- `MemoryEngine::init` on the rows of a database. -/
def init (now : Int64) (rows : List Row) : EngineState where
  rows := rows
  entries := (loadAllPersistent {} rows).foldl (fun entries e => setEntry now e entries) []

/-- A call of the engine, or of its store. -/
inductive Call
  | endSessionAndArchive (session : SessionMemory) (newId : Bytes) (now : Int64)
  | supersede (oldKey newKey : Bytes)
  | put (e : MemoryEntry) (embedding : List F32)
  | delete (key : Bytes)

section Code

variable (embedText : Bytes → List F32)

/-- Commits a fact to the store and to RAM. -/
def commit (now : Int64) (st : EngineState) (e : MemoryEntry) : EngineState where
  rows := putMemory embedText e (embedText e.value) st.rows
  entries := setEntry now e st.entries

/-- One call. -/
def step (st : EngineState) : Call → EngineState
  | .endSessionAndArchive session newId now => (extractedMemories newId session).foldl (commit embedText now) st
  | .supersede oldKey newKey => { st with rows := supersedeMemory oldKey newKey st.rows }
  | .put e embedding => { st with rows := putMemory embedText e embedding st.rows }
  | .delete key => { st with rows := deleteMemory key st.rows }

end Code

/-! ### The agreement -/

/-- Value, category, workspace, visibility and status are the same. -/
def SameContent (e e' : MemoryEntry) : Prop :=
  e.value = e'.value ∧ e.category = e'.category ∧ e.workspaceId = e'.workspaceId ∧ e.visibility = e'.visibility ∧
    e.status = e'.status

/-- Every entry in RAM has a row, and the content that is read of it. -/
def Mirrored (st : EngineState) : Prop :=
  ∀ key e, find key st.entries = some e → (∃ r ∈ st.rows, r.entry.key = key) ∧
    ∀ r ∈ st.rows, r.entry.key = key → SameContent e (extractMemoryEntry r)

/-- A fact may be committed: it has no zero byte in key and value, and a row of its key has its category, the
default workspace and the visibility `workspace`. -/
def Committable (st : EngineState) (e : MemoryEntry) : Prop :=
  0 ∉ e.key ∧ 0 ∉ e.value ∧ ∀ r ∈ st.rows, r.entry.key = e.key →
    r.entry.category = e.category ∧ r.entry.workspaceId = ascii "default" ∧ r.entry.visibility = ascii "workspace"

/-- The call meets the condition: every fact may be committed when it is its turn; what is superseded or deleted
is not in RAM; and what is put is not there either, or has the value and the status that are there. -/
def KeepsMirror (embedText : Bytes → List F32) (st : EngineState) : Call → Prop
  | .endSessionAndArchive session newId now =>
    EveryStep (commit embedText now) Committable st (extractedMemories newId session)
  | .supersede oldKey _ => oldKey = [] ∨ find (cstr oldKey) st.entries = none
  | .put e _ => ∀ m, find (cstr e.key) st.entries = some m →
    m.value = cstr e.value ∧ m.status = if cstr e.status = [] then ascii "active" else cstr e.status
  | .delete key => find (cstr key) st.entries = none

/-! ### The facts -/

/-- A fact has the default scope and is active. -/
def DefaultScope (e : MemoryEntry) : Prop :=
  e.workspaceId = ascii "default" ∧ e.visibility = ascii "workspace" ∧ e.status = ascii "active"

theorem defaultScope_of_extractFact {newId line : Bytes} {e : MemoryEntry} (h : extractFact newId line = some e) :
    DefaultScope e := by
  unfold extractFact at h
  dsimp only at h
  split_ifs at h with hline hne hcat
  · cases h
    exact ⟨rfl, rfl, rfl⟩
  · cases h
    exact ⟨rfl, rfl, rfl⟩

theorem defaultScope_of_mem {newId : Bytes} {session : SessionMemory} {e : MemoryEntry}
    (h : e ∈ extractedMemories newId session) : DefaultScope e := by
  have htext : ∀ {text}, e ∈ extractFacts newId text → DefaultScope e := fun hmem => by
    obtain ⟨line, -, hline⟩ := List.mem_filterMap.mp hmem
    exact defaultScope_of_extractFact hline
  rcases List.mem_append.mp h with h | h
  · obtain ⟨d, -, hd⟩ := List.mem_flatMap.mp h
    exact htext hd
  · obtain ⟨t, -, ht⟩ := List.mem_flatMap.mp h
    exact htext ht

/-! ### What a call does -/

section Calls

variable {embedText : Bytes → List F32} {st : EngineState} {now : Int64} {key : Bytes} {m : MemoryEntry}

/-- The time that `set_entry` fills in is not among what is compared. -/
theorem find_setEntry {e : MemoryEntry} {entries : Entries} (h : find key (setEntry now e entries) = some m) :
    key = e.key ∧ (∀ e', SameContent e e' → SameContent m e') ∨ key ≠ e.key ∧ find key entries = some m := by
  unfold setEntry at h
  by_cases hkey : key = e.key
  · rw [hkey, find_set_self] at h
    refine Or.inl ⟨hkey, fun e' he' => ?_⟩
    rw [← Option.some.inj h]
    split_ifs <;> exact he'
  · rw [find_set_of_ne hkey] at h
    exact Or.inr ⟨hkey, h⟩

/-- An entry of another key is mirrored after an insert if it was before. -/
theorem mirrored_upsert_other {new : Row} {rows : List Row} (hne : key ≠ new.entry.key)
    (h : (∃ r ∈ rows, r.entry.key = key) ∧ ∀ r ∈ rows, r.entry.key = key → SameContent m (extractMemoryEntry r)) :
    (∃ r ∈ upsert new rows, r.entry.key = key) ∧
      ∀ r ∈ upsert new rows, r.entry.key = key → SameContent m (extractMemoryEntry r) := by
  obtain ⟨⟨r, hr, hkey⟩, hsame⟩ := h
  refine ⟨⟨r, mem_upsert_iff.mpr (Or.inl ⟨hr, hkey ▸ hne⟩), hkey⟩, fun r' hr' hkey' => ?_⟩
  rcases mem_upsert_iff.mp hr' with ⟨hold, -⟩ | ⟨rfl, -⟩ | ⟨old, -, heq, rfl⟩
  · exact hsame r' hold hkey'
  · exact absurd hkey'.symm hne
  · exact absurd (hkey'.symm.trans heq) hne

/-- A bound entry of the default scope that is active reads as it is, whatever its row was before. -/
theorem sameContent_of_mem_upsert {e : MemoryEntry} {embedding : Option (List F32)} {r : Row}
    (hscope : DefaultScope e) (hok : Committable st e) (hr : r ∈ upsert ⟨bound e, embedding⟩ st.rows)
    (hkey : r.entry.key = e.key) : SameContent e (extractMemoryEntry r) := by
  obtain ⟨hws, hvis, hstatus⟩ := hscope
  obtain ⟨hkey0, hvalue0, hrows⟩ := hok
  have hbound : (bound e).key = e.key := cstr_of_not_mem hkey0
  have hvalue : cstr e.value = e.value := cstr_of_not_mem hvalue0
  have hactive : cstr e.status = ascii "active" := by rw [hstatus]; decide
  rcases mem_upsert_iff.mp hr with ⟨-, hne⟩ | ⟨rfl, -⟩ | ⟨old, hold, heq, rfl⟩
  · exact absurd (hkey.trans hbound.symm) hne
  · refine ⟨hvalue.symm, rfl, ?_, ?_, ?_⟩
    · show e.workspaceId = cstr e.workspaceId
      rw [hws]
      decide
    · show e.visibility = cstr e.visibility
      rw [hvis]
      decide
    · show e.status = if cstr e.status = [] then ascii "active" else cstr e.status
      rw [hactive, hstatus]
      decide
  · obtain ⟨hcat, hws', hvis'⟩ := hrows old hold (heq.trans hbound)
    refine ⟨hvalue.symm, hcat.symm, hws.trans hws'.symm, hvis.trans hvis'.symm, ?_⟩
    show e.status = if cstr e.status = [] then ascii "active" else cstr e.status
    rw [hactive, hstatus]
    decide

/-- **A fact that may be committed** is in RAM as it is in the table. -/
theorem mirrored_commit (h : Mirrored st) {e : MemoryEntry} (hscope : DefaultScope e) (hok : Committable st e) :
    Mirrored (commit embedText now st e) := by
  have hbound : (bound e).key = e.key := cstr_of_not_mem hok.1
  intro key m hfind
  unfold commit putMemory
  dsimp only
  generalize (if (if embedText e.value = [] then embedText e.value else embedText e.value) = [] then none
    else some (if embedText e.value = [] then embedText e.value else embedText e.value)) = embedding
  rcases find_setEntry hfind with ⟨rfl, hsame⟩ | ⟨hne, hfind⟩
  · obtain ⟨r, hr, hkey, -⟩ := exists_mem_upsert ⟨bound e, embedding⟩ st.rows
    exact ⟨⟨r, hr, hkey.trans hbound⟩, fun r hr hkey => hsame _ (sameContent_of_mem_upsert hscope hok hr hkey)⟩
  · exact mirrored_upsert_other (by rwa [hbound]) (h key m hfind)

/-- The facts of a session, one after the other. -/
theorem mirrored_commits {facts : List MemoryEntry} (h : Mirrored st) (hscope : ∀ e ∈ facts, DefaultScope e)
    (hok : EveryStep (commit embedText now) Committable st facts) :
    Mirrored (facts.foldl (commit embedText now) st) := by
  refine (everyStep_of_invariant_mem (P := fun _ _ => True) (fun st e hI hQ hC => ?_) facts st h hscope hok).2
  exact ⟨trivial, mirrored_commit hI hQ hC⟩

/-- A put rewrites value and status of a row that is in RAM. -/
theorem mirrored_put (h : Mirrored st) {e : MemoryEntry} {embedding : List F32}
    (hok : KeepsMirror embedText st (.put e embedding)) : Mirrored (step embedText st (.put e embedding)) := by
  intro key m hfind
  change find key st.entries = some m at hfind
  unfold step putMemory
  dsimp only
  generalize (if (if embedding = [] then embedText e.value else embedding) = [] then none
    else some (if embedding = [] then embedText e.value else embedding)) = emb
  by_cases hkey : key = cstr e.key
  · rw [hkey] at hfind ⊢
    obtain ⟨hvalue, hstatus⟩ := hok m hfind
    obtain ⟨⟨old, hold, hkey'⟩, hsame⟩ := h _ m hfind
    obtain ⟨new, hnew, hkeynew, -⟩ := exists_mem_upsert ⟨bound e, emb⟩ st.rows
    refine ⟨⟨new, hnew, hkeynew⟩, fun r hr hkeyr => ?_⟩
    rcases mem_upsert_iff.mp hr with ⟨-, hne⟩ | ⟨-, hnone⟩ | ⟨old', hold', heq, rfl⟩
    · exact absurd hkeyr hne
    · exact absurd hkey' (hnone old hold)
    · obtain ⟨-, hcat, hws, hvis, -⟩ := hsame old' hold' heq
      exact ⟨hvalue, hcat, hws, hvis, hstatus⟩
  · exact mirrored_upsert_other hkey (h key m hfind)

/-- A row that is superseded is not in RAM. -/
theorem mirrored_supersede (h : Mirrored st) {oldKey newKey : Bytes}
    (hok : oldKey = [] ∨ find (cstr oldKey) st.entries = none) :
    Mirrored (step embedText st (.supersede oldKey newKey)) := by
  intro key m hfind
  change find key st.entries = some m at hfind
  unfold step supersedeMemory
  dsimp only
  by_cases hempty : oldKey = []
  · rw [if_pos hempty]
    exact h key m hfind
  · rw [if_neg hempty]
    have hne : key ≠ cstr oldKey := by
      rintro rfl
      rw [hok.resolve_left hempty] at hfind
      cases hfind
    obtain ⟨⟨r, hr, hkey⟩, hsame⟩ := h key m hfind
    refine ⟨⟨r, List.mem_map.mpr ⟨r, hr, if_neg (hkey ▸ hne)⟩, hkey⟩, fun r' hr' hkey' => ?_⟩
    obtain ⟨old, hold, rfl⟩ := List.mem_map.mp hr'
    split_ifs at hkey' ⊢ with heq
    · exact absurd (hkey'.symm.trans heq) hne
    · exact hsame old hold hkey'

/-- A row that is deleted is not in RAM. -/
theorem mirrored_delete (h : Mirrored st) {key : Bytes} (hok : find (cstr key) st.entries = none) :
    Mirrored (step embedText st (.delete key)) := by
  intro key' m hfind
  change find key' st.entries = some m at hfind
  have hne : key' ≠ cstr key := by
    rintro rfl
    rw [hok] at hfind
    cases hfind
  obtain ⟨⟨r, hr, hkey⟩, hsame⟩ := h key' m hfind
  exact ⟨⟨r, List.mem_filter.mpr ⟨hr, decide_eq_true (hkey ▸ hne)⟩, hkey⟩,
    fun r' hr' => hsame r' (List.mem_of_mem_filter hr')⟩

theorem mirrored_step (h : Mirrored st) {a : Call} (hok : KeepsMirror embedText st a) :
    Mirrored (step embedText st a) := by
  cases a with
  | endSessionAndArchive session newId now =>
    exact mirrored_commits h (fun e he => defaultScope_of_mem he) hok
  | supersede oldKey newKey => exact mirrored_supersede h hok
  | put e embedding => exact mirrored_put h hok
  | delete key => exact mirrored_delete h hok

end Calls

/-! ### The start, and the runs -/

/-- What is in RAM after `init` is an entry of the table. -/
theorem find_foldl_setEntry {now : Int64} {key : Bytes} {m : MemoryEntry} : ∀ (es : List MemoryEntry)
    (entries : Entries), find key (es.foldl (fun entries e => setEntry now e entries) entries) = some m →
      (∃ e ∈ es, e.key = key ∧ SameContent m e) ∨ find key entries = some m
  | [], _, h => Or.inr h
  | e :: es, entries, h => by
    rcases find_foldl_setEntry es (setEntry now e entries) h with ⟨e', he', hkey⟩ | h
    · exact Or.inl ⟨e', List.mem_cons_of_mem e he', hkey⟩
    · rcases find_setEntry h with ⟨rfl, hsame⟩ | ⟨-, h⟩
      · exact Or.inl ⟨e, List.mem_cons_self, rfl, hsame e ⟨rfl, rfl, rfl, rfl, rfl⟩⟩
      · exact Or.inr h

theorem mirrored_init {now : Int64} {rows : List Row} (hkeys : (rows.map fun r => r.entry.key).Nodup) :
    Mirrored (init now rows) := by
  intro key m hfind
  rcases find_foldl_setEntry _ _ hfind with ⟨e, he, hkey, hsame⟩ | hnone
  · obtain ⟨r, hr, rfl⟩ := List.mem_map.mp (List.mem_of_mem_filter he)
    refine ⟨⟨r, hr, hkey⟩, fun r' hr' hkey' => ?_⟩
    rw [List.inj_on_of_nodup_map hkeys hr' hr (hkey'.trans hkey.symm)]
    exact hsame
  · cases hnone

/-- **The entries in RAM are those of the table** after every call of a run whose calls meet the condition. -/
theorem mirrored (embedText : Bytes → List F32) (now : Int64) (rows : List Row)
    (hkeys : (rows.map fun r => r.entry.key).Nodup) (calls : List Call)
    (hkeeps : EveryStep (step embedText) (KeepsMirror embedText) (init now rows) calls) :
    EveryStep (step embedText) (fun st a => Mirrored (step embedText st a)) (init now rows) calls := by
  refine (everyStep_of_invariant (I := Mirrored) (fun st a hI hC => ?_) calls _ (mirrored_init hkeys) hkeeps).1
  exact ⟨mirrored_step hI hC, mirrored_step hI hC⟩

/-- A session that decides for a framework. -/
def frameworkDecided : SessionMemory where
  decisions := [ascii "framework: Laravel 12"]

/-- Its one fact. -/
def frameworkFact : MemoryEntry where
  key := ascii "framework"
  value := ascii "Laravel 12"

theorem extractedMemories_frameworkDecided : extractedMemories [] frameworkDecided = [frameworkFact] := by
  decide +kernel

/-- The session is archived. -/
def archive : Call := .endSessionAndArchive frameworkDecided [] 1

theorem step_archive :
    step (fun _ => []) (init 0 []) archive = commit (fun _ => []) 1 (init 0 []) frameworkFact := by
  change (extractedMemories [] frameworkDecided).foldl (commit (fun _ => []) 1) (init 0 []) = _
  rw [extractedMemories_frameworkDecided]
  rfl

/-- Its fact is put once more. -/
theorem mirrored_archivePut : EveryStep (step fun _ => [])
    (fun st a => Mirrored (step (fun _ => []) st a)) (init 0 []) [archive, .put frameworkFact []] := by
  refine mirrored (fun _ => []) 0 [] List.nodup_nil _ ⟨?_, ?_, trivial⟩
  · change EveryStep _ _ _ (extractedMemories [] frameworkDecided)
    rw [extractedMemories_frameworkDecided]
    exact ⟨⟨by decide, by decide, fun r hr => by cases hr⟩, trivial⟩
  · rw [step_archive]
    intro m hm
    cases hm
    decide

/-- Its fact is deleted. -/
theorem not_mirrored_archiveDelete : ¬ EveryStep (step fun _ => [])
    (fun st a => Mirrored (step (fun _ => []) st a)) (init 0 []) [archive, .delete (ascii "framework")] := by
  rintro ⟨-, hlast, -⟩
  rw [step_archive] at hlast
  obtain ⟨⟨r, hr, -⟩, -⟩ := hlast (ascii "framework") { frameworkFact with updatedAt := 1 } rfl
  cases hr

end DenseLite.Memory.Cache
