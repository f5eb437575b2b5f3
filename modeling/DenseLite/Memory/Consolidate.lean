import DenseLite.Lib.Decimal
import DenseLite.Lib.Separated
import DenseLite.Lib.Upserts
import DenseLite.Memory.Cache
import DenseLite.Memory.LastWrite

/-! # Consolidation of a session

`MemoryConsolidator::consolidate` extracts the facts of a session and puts them one after the other into the store and
into RAM. It counts a fact as updated if its key is in the store when it is its turn, so of two facts with a key that
was absent only the first is counted as added. What the counters say, and what is read afterwards, is
`consolidate_accounts`; rows and RAM are left as by the call of the engine (`consolidate_step`). -/

namespace DenseLite.Memory.Consolidate

open DenseLite.Lib.ByteStream DenseLite.Lib.Decimal DenseLite.Lib.Separated DenseLite.Lib.Upserts
open DenseLite.Infer.State (ascii F32)
open DenseLite.Memory.Store DenseLite.Memory.Cache DenseLite.Memory.LastWrite

/-! ### The archive -/

/-- A row of `consolidated_archives`. -/
structure Archive where
  archiveId : Bytes
  sessionId : Bytes
  summary : Bytes
  extractedFacts : Bytes
  createdAt : Int64
deriving DecidableEq, Repr

/-- The tables of `MemoryStore` that are written. -/
structure Tables where
  rows : List Row := []
  archives : List Archive := []

/-- `save_archive`: a row of the same id keeps its session. -/
def saveArchive (a : Archive) (archives : List Archive) : List Archive :=
  let new : Archive :=
    { a with
      archiveId := cstr a.archiveId
      sessionId := cstr a.sessionId
      summary := cstr a.summary
      extractedFacts := cstr a.extractedFacts }
  if archives.any fun r => r.archiveId = new.archiveId then
    archives.map fun r => if r.archiveId = new.archiveId then { new with sessionId := r.sessionId } else r
  else archives ++ [new]

/-! ### The function -/

/-- A session with its id. -/
structure Session extends SessionMemory where
  sessionId : Bytes := []

/-- What is read off the clock: the id of the facts, and the times of the archive id, of the entries in RAM and of the
archive row. -/
structure Clock where
  newId : Bytes := []
  archivedAt : Int64 := 0
  setAt : Int64 := 0
  savedAt : Int64 := 0

/-- `ConsolidationResult`. -/
structure ConsolidationResult where
  archiveId : Bytes
  sessionId : Bytes
  summary : Bytes
  extractedMemories : List MemoryEntry
  ignoredCount : ℕ := 0
  updatedCount : ℕ := 0
  addedCount : ℕ := 0

/-- The state of the loop: the store and the entries in RAM, where they are given, the counters and `facts_oss`. -/
structure Progress where
  store : Option Tables
  entries : Option Entries
  updatedCount : ℕ := 0
  addedCount : ℕ := 0
  facts : Bytes := []

/-- `summary_oss`. -/
def summaryOf (session : Session) : Bytes :=
  ascii "Session Archive [" ++ session.sessionId ++ ascii "] - Turns: " ++ natText session.turns.length ++ ascii "\n" ++
    if session.decisions ≠ [] then
      ascii "Decisions:\n" ++ session.decisions.flatMap fun d => ascii " - " ++ d ++ ascii "\n"
    else []

section Code

variable (embedText : Bytes → List F32)

/-- The store and the counters after a fact. -/
def putFact (mem : MemoryEntry) (p : Progress) : Progress :=
  match p.store with
  | none => p
  | some t =>
    let p := if (getMemory mem.key t.rows).isSome then { p with updatedCount := p.updatedCount + 1 }
      else { p with addedCount := p.addedCount + 1 }
    { p with store := some { t with rows := putMemory embedText mem (embedText mem.value) t.rows } }

/-- One round of the loop. -/
def commitFact (clock : Clock) (p : Progress) (mem : MemoryEntry) : Progress :=
  let p := putFact embedText mem { p with
    facts := p.facts ++ (ascii "[" ++ mem.key ++ ascii "]: " ++ mem.value ++ ascii "\n") }
  { p with entries := p.entries.map (setEntry clock.setAt mem) }

/-- `MemoryConsolidator::consolidate`, with the store and the entries in RAM that the consolidator has. -/
def consolidate (clock : Clock) (session : Session) (store : Option Tables) (entries : Option Entries) :
    ConsolidationResult × Option Tables × Option Entries :=
  let mems := extractedMemories clock.newId session.toSessionMemory
  let p := mems.foldl (commitFact embedText clock) { store := store, entries := entries }
  let result : ConsolidationResult :=
    { archiveId := ascii "arch_" ++ intText clock.archivedAt.toInt
      sessionId := session.sessionId
      summary := summaryOf session
      extractedMemories := mems
      updatedCount := p.updatedCount
      addedCount := p.addedCount }
  let archive : Archive := ⟨result.archiveId, result.sessionId, result.summary, p.facts, clock.savedAt⟩
  (result, p.store.map fun t => { t with archives := saveArchive archive t.archives }, p.entries)

end Code

/-! ### The facts -/

/-- The text neither begins nor ends with one of the characters. -/
def Trimmed (chars s : Bytes) : Prop := (∀ c, s.head? = some c → c ∉ chars) ∧ ∀ c, s.getLast? = some c → c ∉ chars

/-- Key and value of a fact are not empty, and have no space around them. -/
structure Tidy (e : MemoryEntry) : Prop where
  key_ne_nil : e.key ≠ []
  value_ne_nil : e.value ≠ []
  key_trimmed : Trimmed keyTrim e.key
  value_trimmed : Trimmed valueTrim e.value

theorem trim_subset (chars s : Bytes) : trim chars s ⊆ s :=
  List.Subset.trans (List.rdropWhile_prefix _ _).subset (List.dropWhile_sublist _).subset

theorem trimmed_trim (chars s : Bytes) : Trimmed chars (trim chars s) := by
  refine ⟨fun c hc => ?_, fun c hc => ?_⟩
  · -- what is left begins as the text without its first characters does
    have hpre : trim chars s <+: s.dropWhile chars.contains := List.rdropWhile_prefix _ _
    obtain ⟨rest, hrest⟩ := List.head?_eq_some_iff.mp hc
    rw [hrest] at hpre
    have hhead : (s.dropWhile chars.contains).head? = some c := by
      obtain ⟨t, ht⟩ := hpre
      rw [← ht]
      rfl
    have hnot := List.head?_dropWhile_not chars.contains s
    rw [hhead] at hnot
    simpa using hnot
  · have hne : trim chars s ≠ [] := fun hnil => by simp [hnil] at hc
    have hlast := List.rdropWhile_last_not chars.contains (s.dropWhile chars.contains) hne
    have hc' : (trim chars s).getLast hne = c := Option.some_inj.mp ((List.getLast?_eq_some_getLast hne).symm.trans hc)
    rw [show (List.rdropWhile chars.contains (s.dropWhile chars.contains)).getLast hne = c from hc'] at hlast
    simpa using hlast

/-- Key and value of a line stand on the two sides of a colon, in the line or in a part of it. -/
theorem keyValue_eq (pos : ℕ) (line : Bytes) : ∃ p s, s ⊆ line ∧
    (keyValue pos line).1 = (splitAt p s).1 ∧ (keyValue pos line).2.1 = (splitAt p s).2 := by
  unfold keyValue
  dsimp only
  split_ifs
  · exact ⟨_, _, List.Subset.trans (trim_subset _ _) (List.drop_subset _ _), rfl, rfl⟩
  · exact ⟨pos, line, List.Subset.refl _, rfl, rfl⟩

theorem extractFact_spec {newId line : Bytes} {e : MemoryEntry} (h : extractFact newId line = some e) :
    Tidy e ∧ e.key ⊆ line ∧ e.value ⊆ line := by
  obtain ⟨p, s, hs, hkey, hvalue⟩ := keyValue_eq (line.idxOf 58) line
  unfold extractFact at h
  dsimp only at h
  rw [Option.ite_none_right_eq_some, Option.ite_none_right_eq_some, hkey, hvalue] at h
  obtain ⟨-, ⟨hkey_ne, hvalue_ne⟩, heq⟩ := h
  obtain rfl := Option.some_inj.mp heq
  refine ⟨⟨hkey_ne, hvalue_ne, trimmed_trim _ _, trimmed_trim _ _⟩, ?_, ?_⟩
  · exact List.Subset.trans (List.Subset.trans (trim_subset _ _) (List.take_subset _ _)) hs
  · exact List.Subset.trans (List.Subset.trans (trim_subset _ _) (List.drop_subset _ _)) hs

theorem extractFacts_spec {newId text : Bytes} {e : MemoryEntry} (h : e ∈ extractFacts newId text) :
    Tidy e ∧ e.key ⊆ text ∧ e.value ⊆ text := by
  obtain ⟨line, hline, hfact⟩ := List.mem_filterMap.mp h
  obtain ⟨htidy, hkey, hvalue⟩ := extractFact_spec hfact
  have hsub : line ⊆ text := subset_of_mem_splitOn hline
  exact ⟨htidy, List.Subset.trans hkey hsub, List.Subset.trans hvalue hsub⟩

/-- The texts of the session have no zero byte. -/
structure PlainTexts (session : Session) : Prop where
  decisions : ∀ d ∈ session.decisions, 0 ∉ d
  turns : ∀ t ∈ session.turns, 0 ∉ t.2

/-- A fact of the session is extracted from one of its texts. -/
theorem exists_text {newId : Bytes} {session : Session} {e : MemoryEntry}
    (h : e ∈ extractedMemories newId session.toSessionMemory) :
    ∃ text, e ∈ extractFacts newId text ∧ (PlainTexts session → 0 ∉ text) := by
  rcases List.mem_append.mp h with h | h
  · obtain ⟨d, hd, hmem⟩ := List.mem_flatMap.mp h
    exact ⟨d, hmem, fun hplain => hplain.decisions d hd⟩
  · obtain ⟨t, ht, hmem⟩ := List.mem_flatMap.mp h
    exact ⟨t.2, hmem, fun hplain => hplain.turns t (List.mem_of_mem_filter ht)⟩

theorem tidy_of_mem {newId : Bytes} {session : Session} {e : MemoryEntry}
    (h : e ∈ extractedMemories newId session.toSessionMemory) : Tidy e := by
  obtain ⟨text, hmem, -⟩ := exists_text h
  exact (extractFacts_spec hmem).1

/-- Key and value have no zero byte. -/
def Plain (e : MemoryEntry) : Prop := 0 ∉ e.key ∧ 0 ∉ e.value

theorem PlainTexts.plain {newId : Bytes} {session : Session} (hplain : PlainTexts session) :
    ∀ e ∈ extractedMemories newId session.toSessionMemory, Plain e := by
  intro e h
  obtain ⟨text, hmem, htext⟩ := exists_text h
  obtain ⟨-, hkey, hvalue⟩ := extractFacts_spec hmem
  exact ⟨fun h0 => htext hplain (hkey h0), fun h0 => htext hplain (hvalue h0)⟩

/-! ### The loop -/

/-- The value that is read under a key. -/
def readValue (key : Bytes) (t : Tables) : Option Bytes := (rowOf key t.rows).map fun r => r.entry.value

section Loop

variable (embedText : Bytes → List F32)

/-- The tables after a fact. -/
def putTables (t : Tables) (mem : MemoryEntry) : Tables :=
  { t with rows := putMemory embedText mem (embedText mem.value) t.rows }

theorem keyValued : KeyValued readValue (putTables embedText) (fun e => e.key) (fun e => e.value) Plain where
  get_self := by
    rintro e ⟨hkey, hvalue⟩ t
    obtain ⟨embedding, hput⟩ : ∃ embedding, (putTables embedText t e).rows = upsert ⟨bound e, embedding⟩ t.rows :=
      ⟨_, rfl⟩
    have hbound : (bound e).key = e.key := cstr_of_not_mem hkey
    have hread := rowOf_upsert ⟨bound e, embedding⟩ t.rows
    rw [hbound] at hread
    rw [readValue, hput, hread, Option.map_some]
    cases rowOf e.key t.rows with
    | none => exact congrArg some (cstr_of_not_mem hvalue)
    | some old => exact congrArg some (cstr_of_not_mem hvalue)
  get_ne := by
    rintro e key ⟨hkey, -⟩ hne t
    obtain ⟨embedding, hput⟩ : ∃ embedding, (putTables embedText t e).rows = upsert ⟨bound e, embedding⟩ t.rows :=
      ⟨_, rfl⟩
    have hbound : (bound e).key = e.key := cstr_of_not_mem hkey
    rw [readValue, readValue, hput, rowOf_upsert_of_ne (hbound.symm ▸ hne)]

/-- `get_memory` finds a value exactly under the keys that have a row. -/
theorem map_getMemory {key : Bytes} (hkey : 0 ∉ key) (t : Tables) :
    (getMemory key t.rows).map (fun e => e.value) = readValue key t := by
  rw [getMemory, cstr_of_not_mem hkey, readValue, Option.map_map]
  rfl

theorem isSome_getMemory {key : Bytes} (hkey : 0 ∉ key) (t : Tables) :
    (getMemory key t.rows).isSome = (readValue key t).isSome := by
  rw [← map_getMemory hkey, Option.isSome_map]

variable {embedText} {clock : Clock} {mems : List MemoryEntry}

/-- One round with a store. -/
theorem commitFact_some (t : Tables) (entries : Option Entries) (updated added : ℕ) (facts : Bytes) (e : MemoryEntry) :
    commitFact embedText clock ⟨some t, entries, updated, added, facts⟩ e =
      ⟨some (putTables embedText t e), entries.map (setEntry clock.setAt e),
        if (getMemory e.key t.rows).isSome then updated + 1 else updated,
        if (getMemory e.key t.rows).isSome then added else added + 1,
        facts ++ (ascii "[" ++ e.key ++ ascii "]: " ++ e.value ++ ascii "\n")⟩ := by
  unfold commitFact putFact
  dsimp only
  split_ifs <;> rfl

/-- The rows and the entries in RAM are those of the engine's model. -/
theorem foldl_commitFact_commit (t : Tables) (entries : Entries) (updated added : ℕ) (facts : Bytes) :
    let p := mems.foldl (commitFact embedText clock) ⟨some t, some entries, updated, added, facts⟩
    let st := mems.foldl (commit embedText clock.setAt) ⟨t.rows, entries⟩
    p.store.map (fun t => t.rows) = some st.rows ∧ p.entries = some st.entries := by
  induction mems generalizing t entries updated added facts with
  | nil => exact ⟨rfl, rfl⟩
  | cons e mems ih =>
    rw [List.foldl_cons, List.foldl_cons, commitFact_some]
    exact ih ..

/-- **The loop counts** as the puts do. -/
theorem foldl_commitFact (hplain : ∀ e ∈ mems, Plain e) (t : Tables) (entries : Option Entries) (updated added : ℕ)
    (facts : Bytes) :
    let c := Counted.run readValue (putTables embedText) (fun e => e.key) ⟨t, added, updated⟩ mems
    ∃ entries' facts', mems.foldl (commitFact embedText clock) ⟨some t, entries, updated, added, facts⟩ =
      ⟨some c.state, entries', c.updated, c.added, facts'⟩ := by
  induction mems generalizing t entries updated added facts with
  | nil => exact ⟨entries, facts, rfl⟩
  | cons e mems ih =>
    obtain ⟨he, hrest⟩ := List.forall_mem_cons.mp hplain
    rw [List.foldl_cons, commitFact_some, isSome_getMemory he.1]
    exact ih hrest ..

end Loop

/-- Rows and entries in RAM after a consolidation are those after the call of the engine. -/
theorem consolidate_step (embedText : Bytes → List F32) (clock : Clock) (session : Session) (t : Tables)
    (entries : Entries) :
    let call : Call := .endSessionAndArchive session.toSessionMemory clock.newId clock.setAt
    (consolidate embedText clock session (some t) (some entries)).2.1.map (fun t => t.rows) =
        some (step embedText ⟨t.rows, entries⟩ call).rows ∧
      (consolidate embedText clock session (some t) (some entries)).2.2 =
        some (step embedText ⟨t.rows, entries⟩ call).entries := by
  obtain ⟨hrows, hentries⟩ := foldl_commitFact_commit t entries 0 0 []
  exact ⟨(Option.map_map ..).trans hrows, hentries⟩

/-! ### What the counters say -/

/-- The puts of the facts of a session. -/
def counted (embedText : Bytes → List F32) (t : Tables) (mems : List MemoryEntry) : Counted Tables :=
  Counted.run readValue (putTables embedText) (fun e => e.key) ⟨t, 0, 0⟩ mems

theorem consolidate_eq (embedText : Bytes → List F32) (clock : Clock) {session : Session} (t : Tables)
    (entries : Option Entries) (hplain : PlainTexts session) :
    let mems := extractedMemories clock.newId session.toSessionMemory
    ∃ archives entries', consolidate embedText clock session (some t) entries =
      (⟨ascii "arch_" ++ intText clock.archivedAt.toInt, session.sessionId, summaryOf session, mems, 0,
        (counted embedText t mems).updated, (counted embedText t mems).added⟩,
        some ⟨(counted embedText t mems).state.rows, archives⟩, entries') := by
  intro mems
  have hmems : ∀ e ∈ mems, Plain e := hplain.plain
  obtain ⟨entries', facts', hloop⟩ := foldl_commitFact hmems t entries 0 0 []
  unfold consolidate
  dsimp only
  rw [hloop]
  exact ⟨_, entries', rfl⟩

/-- **Consolidation keeps account**: the facts are tidy, every fact is counted, as added if its key was absent before
the session and the fact is the first one of it, and the last fact of a key is read afterwards. -/
theorem consolidate_accounts (embedText : Bytes → List F32) (clock : Clock) (session : Session) (t : Tables)
    (entries : Option Entries) (hplain : PlainTexts session) :
    ∃ result t' entries', consolidate embedText clock session (some t) entries = (result, some t', entries') ∧
      (∀ e ∈ result.extractedMemories, Tidy e) ∧
      result.addedCount + result.updatedCount = result.extractedMemories.length ∧
      result.addedCount = ((result.extractedMemories.map fun e => e.key).toFinset.filter
        fun key => getMemory key t.rows = none).card ∧
      ∀ e ∈ result.extractedMemories, ∃ last, lastOf (fun e => e.key) e.key result.extractedMemories = some last ∧
        (getMemory e.key t'.rows).map (fun e => e.value) = some last.value := by
  obtain ⟨archives, entries', heq⟩ := consolidate_eq embedText clock t entries hplain
  refine ⟨_, _, _, heq, fun e he => tidy_of_mem he, ?_⟩
  have hmems : ∀ e ∈ extractedMemories clock.newId session.toSessionMemory, Plain e := hplain.plain
  dsimp only
  generalize extractedMemories clock.newId session.toSessionMemory = mems at hmems ⊢
  refine ⟨?_, ?_, fun e he => ?_⟩
  · have hsum : (counted embedText t mems).added + (counted embedText t mems).updated = 0 + 0 + mems.length :=
      added_add_updated_run
    omega
  · have hadded : (counted embedText t mems).added = 0 + _ := added_run (keyValued embedText) hmems
    rw [hadded, Nat.zero_add]
    refine congrArg Finset.card (Finset.filter_congr fun key hkey => ?_)
    obtain ⟨e, he, rfl⟩ := List.mem_map.mp (List.mem_toFinset.mp hkey)
    rw [← map_getMemory (hmems e he).1, Option.isNone_map, Option.isNone_iff_eq_none]
  · obtain ⟨last, hlast⟩ : ∃ last, lastOf (fun e => e.key) e.key mems = some last := exists_lastOf he
    have hread : readValue e.key (counted embedText t mems).state = _ := get_run (keyValued embedText) hmems e.key
    rw [hlast, Option.map_some, Option.some_or, ← map_getMemory (hmems e he).1] at hread
    exact ⟨last, hlast, hread⟩

/-- A session that decides twice. -/
def decidedTwice : Session where
  decisions := [ascii "framework: Laravel 12", ascii "framework: Laravel 13"]

theorem consolidate_decidedTwice : (consolidate (fun _ => []) {} decidedTwice (some {}) none).1.addedCount = 1 ∧
    (consolidate (fun _ => []) {} decidedTwice (some {}) none).1.updatedCount = 1 := by
  obtain ⟨result, t', entries', heq, -, hsum, hadded, -⟩ :=
    consolidate_accounts (fun _ => []) {} decidedTwice {} none ⟨by decide +kernel, by simp [decidedTwice]⟩
  have hmems : extractedMemories [] decidedTwice.toSessionMemory =
      [frameworkFact, { frameworkFact with value := ascii "Laravel 13" }] := by
    decide +kernel
  have hresult : result.extractedMemories = extractedMemories [] decidedTwice.toSessionMemory :=
    congrArg (fun r => r.1.extractedMemories) heq.symm
  rw [hresult, hmems] at hsum hadded
  have hone : result.addedCount = 1 := hadded.trans (by decide +kernel)
  rw [heq]
  exact ⟨hone, by simpa [hone, Nat.add_comm] using hsum⟩

end DenseLite.Memory.Consolidate
