import DenseLite.Memory.Consolidate
import DenseLite.Settings.Frame

/-! # Archives of sessions

`save_archive` finds its row by the archive id, which is the millisecond of the consolidation, and leaves the session of
a row that is there as it is. `get_archive` finds the newest row of a session. So a session is answered with the last
summary that was saved under an id that the session was the first to use (`isArchive_run_iff`): with its own last
summary if no two consolidations fall into one millisecond (`archived_run`), and else perhaps with that of another
session. -/

namespace DenseLite.Memory.Archives

open DenseLite.Lib.ByteStream DenseLite.Lib.Decimal
open DenseLite.Infer.State (ascii F32)
open DenseLite.Memory.Consolidate DenseLite.Memory.Cache DenseLite.Memory.Store
open DenseLite.Settings.Frame (zero_notMem_intText)

/-! ### Reading an archive -/

/-- What `get_archive` may answer: the summary of a row of the session that no row of the session is newer than. -/
def IsArchive (sessionId : Bytes) (archives : List Archive) : Option Bytes → Prop
  | none => ∀ r ∈ archives, r.sessionId ≠ cstr sessionId
  | some summary => ∃ r ∈ archives, r.sessionId = cstr sessionId ∧ r.summary = summary ∧
      ∀ r' ∈ archives, r'.sessionId = cstr sessionId → r'.createdAt.toInt ≤ r.createdAt.toInt

/-- The archives after some calls of `save_archive`. -/
def afterSaves (saves : List Archive) : List Archive := saves.foldl (fun archives a => saveArchive a archives) []

/-- A row as its statement binds it. -/
def bound (a : Archive) : Archive :=
  { a with
    archiveId := cstr a.archiveId
    sessionId := cstr a.sessionId
    summary := cstr a.summary
    extractedFacts := cstr a.extractedFacts }

/-- The first save under an id. -/
def firstOf (saves : List Archive) (id : Bytes) : Option Archive := saves.find? fun a => cstr a.archiveId = id

/-- The last save under an id. -/
def lastOf (saves : List Archive) (id : Bytes) : Option Archive := saves.reverse.find? fun a => cstr a.archiveId = id

/-- A row with the session of one save and the rest of another. -/
def rowOf (first last : Archive) : Archive := { bound last with sessionId := cstr first.sessionId }

/-- The session was the first to use the id of the save. -/
def OwnedBy (saves : List Archive) (sessionId : Bytes) (a : Archive) : Prop :=
  (firstOf saves (cstr a.archiveId)).map (fun first => cstr first.sessionId) = some (cstr sessionId)

instance (saves : List Archive) (sessionId : Bytes) : DecidablePred (OwnedBy saves sessionId) := fun a =>
  inferInstanceAs (Decidable ((firstOf saves (cstr a.archiveId)).map _ = _))

/-! ### The rows -/

section Rows

variable {saves : List Archive} {a r : Archive} {id sessionId : Bytes}

theorem mem_saveArchive {archives : List Archive} : r ∈ saveArchive a archives ↔
    r ∈ archives ∧ r.archiveId ≠ cstr a.archiveId ∨
    (∃ r' ∈ archives, r'.archiveId = cstr a.archiveId ∧ r = { bound a with sessionId := r'.sessionId }) ∨
    (∀ r' ∈ archives, r'.archiveId ≠ cstr a.archiveId) ∧ r = bound a := by
  unfold saveArchive
  by_cases hany : ∃ r' ∈ archives, r'.archiveId = cstr a.archiveId
  · rw [if_pos (by simpa using hany), List.mem_map]
    have hsome : ¬ ∀ r' ∈ archives, r'.archiveId ≠ cstr a.archiveId := by
      push Not
      exact hany
    simp only [hsome, false_and, or_false]
    constructor
    · rintro ⟨r', hr', rfl⟩
      split_ifs with hid
      · exact .inr ⟨r', hr', hid, rfl⟩
      · exact .inl ⟨hr', hid⟩
    · rintro (⟨hr, hid⟩ | ⟨r', hr', hid, rfl⟩)
      · exact ⟨r, hr, if_neg hid⟩
      · exact ⟨r', hr', if_pos hid⟩
  · rw [if_neg (by simpa using hany), List.mem_append, List.mem_singleton]
    push Not at hany
    constructor
    · rintro (hr | hr)
      · exact .inl ⟨hr, hany r hr⟩
      · exact .inr (.inr ⟨hany, hr⟩)
    · rintro (⟨hr, -⟩ | ⟨r', hr', hid, -⟩ | ⟨-, hr⟩)
      · exact .inl hr
      · exact absurd hid (hany r' hr')
      · exact .inr hr

theorem firstOf_concat : firstOf (saves ++ [a]) id =
    (firstOf saves id).or (if cstr a.archiveId = id then some a else none) := by
  unfold firstOf
  rw [List.find?_append]
  by_cases hid : cstr a.archiveId = id <;> simp [hid]

theorem lastOf_concat : lastOf (saves ++ [a]) id = if cstr a.archiveId = id then some a else lastOf saves id := by
  unfold lastOf
  by_cases hid : cstr a.archiveId = id <;> simp [hid]

theorem afterSaves_concat : afterSaves (saves ++ [a]) = saveArchive a (afterSaves saves) := by
  simp [afterSaves]

theorem firstOf_eq_none_iff : firstOf saves id = none ↔ ∀ a ∈ saves, cstr a.archiveId ≠ id := by
  simp [firstOf]

theorem lastOf_eq_none_iff : lastOf saves id = none ↔ ∀ a ∈ saves, cstr a.archiveId ≠ id := by
  simp [lastOf]

/-- **A row** has the session of the first save under its id, and else what the last one brought. -/
theorem mem_afterSaves : r ∈ afterSaves saves ↔ ∃ first last, firstOf saves r.archiveId = some first ∧
    lastOf saves r.archiveId = some last ∧ r = rowOf first last := by
  induction saves using List.reverseRecOn generalizing r with
  | nil => simp [afterSaves, firstOf]
  | append_singleton saves a ih =>
    rw [afterSaves_concat, mem_saveArchive, firstOf_concat, lastOf_concat]
    by_cases hid : cstr a.archiveId = r.archiveId
    · simp only [hid, if_pos, Option.some.injEq]
      have hnew : r ∈ afterSaves saves ∧ r.archiveId ≠ r.archiveId ↔ False := by simp
      rw [hnew, false_or]
      cases hfirst : firstOf saves r.archiveId with
      | none =>
        have hfree : ∀ r' ∈ afterSaves saves, r'.archiveId ≠ r.archiveId := by
          intro r' hr' hid'
          obtain ⟨first, -, hfirst', -⟩ := ih.mp hr'
          rw [hid', hfirst] at hfirst'
          simp at hfirst'
        constructor
        · rintro (⟨r', hr', hid', -⟩ | ⟨-, hr⟩)
          · exact absurd hid' (hfree r' hr')
          · exact ⟨a, a, rfl, rfl, hr⟩
        · rintro ⟨first, last, hfirst', rfl, hr⟩
          obtain rfl := Option.some.inj hfirst'
          exact .inr ⟨hfree, hr⟩
      | some first =>
        have hlast : ∃ last, lastOf saves r.archiveId = some last := by
          refine Option.ne_none_iff_exists'.mp fun hnone => ?_
          rw [firstOf_eq_none_iff.mpr (lastOf_eq_none_iff.mp hnone)] at hfirst
          simp at hfirst
        obtain ⟨last, hlast⟩ := hlast
        have hlastId : cstr last.archiveId = r.archiveId := by simpa using List.find?_some hlast
        have hrow : rowOf first last ∈ afterSaves saves :=
          ih.mpr ⟨first, last, by simpa [rowOf, bound, hlastId] using hfirst,
            by simpa [rowOf, bound, hlastId] using hlast, rfl⟩
        constructor
        · rintro (⟨r', hr', hid', hr⟩ | ⟨hfree, -⟩)
          · obtain ⟨first', last', hfirst', -, rfl⟩ := ih.mp hr'
            rw [hid', hfirst] at hfirst'
            obtain rfl := Option.some.inj hfirst'
            exact ⟨first, a, rfl, rfl, hr⟩
          · exact absurd hlastId (hfree _ hrow)
        · rintro ⟨first', last', hfirst', rfl, hr⟩
          obtain rfl := Option.some.inj hfirst'
          exact .inl ⟨_, hrow, hlastId, hr⟩
    · simp only [hid, if_neg, not_false_eq_true, Option.or_none]
      rw [← ih]
      constructor
      · rintro (⟨hr, -⟩ | ⟨r', -, -, hr⟩ | ⟨-, hr⟩)
        · exact hr
        · exact absurd (congrArg Archive.archiveId hr).symm hid
        · exact absurd (congrArg Archive.archiveId hr).symm hid
      · exact fun hr => .inl ⟨hr, Ne.symm hid⟩

/-- A row of the session is the last save under an id that the session was the first to use. -/
theorem exists_owned (hr : r ∈ afterSaves saves) (hsession : r.sessionId = cstr sessionId) :
    ∃ a ∈ saves, OwnedBy saves sessionId a ∧ r.summary = cstr a.summary ∧ r.createdAt = a.createdAt := by
  obtain ⟨first, last, hfirst, hlast, heq⟩ := mem_afterSaves.mp hr
  have hlastId : cstr last.archiveId = r.archiveId := by simpa using List.find?_some hlast
  refine ⟨last, List.mem_reverse.mp (List.mem_of_find?_eq_some hlast), ?_, by rw [heq]; rfl, by rw [heq]; rfl⟩
  have howner : r.sessionId = cstr first.sessionId := congrArg Archive.sessionId heq
  unfold OwnedBy
  rw [hlastId, hfirst, Option.map_some, ← howner, hsession]

/-- The newest save that the session owns. -/
def newest (saves : List Archive) (sessionId : Bytes) : Option Archive :=
  saves.reverse.find? fun a => OwnedBy saves sessionId a

theorem newest_spec (h : newest saves sessionId = some a) :
    OwnedBy saves sessionId a ∧ ∃ before after, saves = before ++ a :: after ∧
      ∀ a' ∈ after, ¬ OwnedBy saves sessionId a' := by
  obtain ⟨howned, after, before, heq, hafter⟩ := List.find?_eq_some_iff_append.mp h
  refine ⟨of_decide_eq_true howned, before.reverse, after.reverse, ?_, fun a' ha' => ?_⟩
  · rw [← List.reverse_reverse saves, heq]
    simp
  · simpa using hafter a' (List.mem_reverse.mp ha')

/-- The row of that save. -/
theorem exists_row (h : newest saves sessionId = some a) :
    ∃ r ∈ afterSaves saves, r.sessionId = cstr sessionId ∧ r.summary = cstr a.summary ∧ r.createdAt = a.createdAt := by
  obtain ⟨howned, before, after, heq, hafter⟩ := newest_spec h
  obtain ⟨first, hfirst, hsession⟩ := Option.map_eq_some_iff.mp howned
  have hlast : lastOf saves (cstr a.archiveId) = some a := by
    refine List.find?_eq_some_iff_append.mpr ⟨by simp, after.reverse, before.reverse, by rw [heq]; simp, ?_⟩
    intro a' ha'
    have hother := hafter a' (List.mem_reverse.mp ha')
    simp only [Bool.not_eq_true', decide_eq_false_iff_not]
    intro hid
    rw [OwnedBy, hid] at hother
    exact hother howned
  have hrow : rowOf first a ∈ afterSaves saves := mem_afterSaves.mpr ⟨first, a, hfirst, hlast, rfl⟩
  exact ⟨rowOf first a, hrow, hsession, rfl, rfl⟩

end Rows

/-! ### What a session is answered with -/

section Answers

variable {saves : List Archive} {a : Archive} {sessionId : Bytes}

/-- No save that the session owns is newer than the newest one. -/
theorem createdAt_le (htimes : saves.Pairwise fun a b => a.createdAt.toInt < b.createdAt.toInt)
    (h : newest saves sessionId = some a) {a' : Archive} (ha' : a' ∈ saves) (howned : OwnedBy saves sessionId a') :
    a' = a ∨ a'.createdAt.toInt < a.createdAt.toInt := by
  obtain ⟨-, before, after, heq, hafter⟩ := newest_spec h
  rw [heq] at htimes
  have hmem : a' ∈ before ++ a :: after := heq ▸ ha'
  rcases List.mem_append.mp hmem with hbefore | hrest
  · exact .inr (List.pairwise_append.mp htimes |>.2.2 a' hbefore a (by simp))
  · rcases List.mem_cons.mp hrest with rfl | hrest
    · exact .inl rfl
    · exact absurd howned (hafter a' hrest)

/-- **What `get_archive` answers** after any saves at different times is the summary of the last save under an id that
the session was the first to use. -/
theorem isArchive_run_iff (saves : List Archive)
    (htimes : saves.Pairwise fun a b => a.createdAt.toInt < b.createdAt.toInt) (sessionId : Bytes)
    (ans : Option Bytes) :
    IsArchive sessionId (afterSaves saves) ans ↔ ans = (newest saves sessionId).map fun a => cstr a.summary := by
  cases hnewest : newest saves sessionId with
  | none =>
    have hnone : ∀ r ∈ afterSaves saves, r.sessionId ≠ cstr sessionId := by
      intro r hr hsession
      obtain ⟨a, ha, howned, -⟩ := exists_owned hr hsession
      have hnot := List.find?_eq_none.mp hnewest a (List.mem_reverse.mpr ha)
      exact hnot (decide_eq_true howned)
    cases ans with
    | none => exact iff_of_true hnone rfl
    | some summary =>
      refine iff_of_false ?_ (by simp)
      rintro ⟨r, hr, hsession, -⟩
      exact hnone r hr hsession
  | some a =>
    obtain ⟨r, hr, hsession, hsummary, hcreated⟩ := exists_row hnewest
    cases ans with
    | none => exact iff_of_false (fun hnone => hnone r hr hsession) (by simp)
    | some summary =>
      rw [Option.map_some, Option.some.injEq]
      constructor
      · rintro ⟨r', hr', hsession', rfl, hmax⟩
        obtain ⟨a', ha', howned, hsummary', hcreated'⟩ := exists_owned hr' hsession'
        have hle := hmax r hr hsession
        rw [hcreated, hcreated'] at hle
        rcases createdAt_le htimes hnewest ha' howned with rfl | hlt
        · exact hsummary'
        · omega
      · rintro rfl
        refine ⟨r, hr, hsession, hsummary, fun r' hr' hsession' => ?_⟩
        obtain ⟨a', ha', howned, -, hcreated'⟩ := exists_owned hr' hsession'
        rw [hcreated, hcreated']
        rcases createdAt_le htimes hnewest ha' howned with rfl | hlt
        · exact le_rfl
        · exact hlt.le

/-- Two sessions that are archived in one millisecond: the first is answered with the summary of the second. -/
theorem isArchive_run_iff_shared :
    IsArchive [0x61] (afterSaves [⟨[1], [0x61], [2], [], 5⟩, ⟨[1], [0x62], [3], [], 6⟩]) (some [3]) :=
  (isArchive_run_iff [⟨[1], [0x61], [2], [], 5⟩, ⟨[1], [0x62], [3], [], 6⟩] (by decide) [0x61] (some [3])).mpr
    (by decide)

/-- Where no id is used twice, a session owns what it saved. -/
theorem ownedBy_iff (hids : saves.Pairwise fun a b => cstr a.archiveId ≠ cstr b.archiveId) (ha : a ∈ saves) :
    OwnedBy saves sessionId a ↔ cstr a.sessionId = cstr sessionId := by
  obtain ⟨before, after, rfl⟩ := List.append_of_mem ha
  have hfirst : firstOf (before ++ a :: after) (cstr a.archiveId) = some a := by
    refine List.find?_eq_some_iff_append.mpr ⟨by simp, before, after, rfl, fun a' ha' => ?_⟩
    have hne := (List.pairwise_append.mp hids).2.2 a' ha' a (by simp)
    simpa using hne
  rw [OwnedBy, hfirst, Option.map_some, Option.some.injEq]

end Answers

/-! ### Consolidations -/

section Consolidations

variable (embedText : Bytes → List F32)

/-- What a consolidation archives. -/
def archiveOf (c : Clock × Session) : Archive where
  archiveId := ascii "arch_" ++ intText c.1.archivedAt.toInt
  sessionId := c.2.sessionId
  summary := summaryOf c.2
  extractedFacts := (extractedMemories c.1.newId c.2.toSessionMemory).flatMap fun mem =>
    ascii "[" ++ mem.key ++ ascii "]: " ++ mem.value ++ ascii "\n"
  createdAt := c.1.savedAt

/-- The store and the entries in RAM after some consolidations. -/
def consolidations (cs : List (Clock × Session)) (s : Option Tables × Option Entries) :
    Option Tables × Option Entries :=
  cs.foldl (fun s c => (consolidate embedText c.1 c.2 s.1 s.2).2) s

variable {embedText}

/-- The loop leaves the archives alone. -/
theorem archives_foldl_commitFact (embedText : Bytes → List F32) (clock : Clock) (mems : List MemoryEntry)
    (p : Progress) :
    (mems.foldl (commitFact embedText clock) p).store.map (·.archives) = p.store.map (·.archives) ∧
      (mems.foldl (commitFact embedText clock) p).facts = p.facts ++ mems.flatMap fun mem =>
        ascii "[" ++ mem.key ++ ascii "]: " ++ mem.value ++ ascii "\n" := by
  induction mems generalizing p with
  | nil => simp
  | cons mem mems ih =>
    obtain ⟨harchives, hfacts⟩ := ih (commitFact embedText clock p mem)
    obtain ⟨store, entries, updated, added, facts⟩ := p
    rw [List.foldl_cons, harchives, hfacts, List.flatMap_cons]
    cases store with
    | none => exact ⟨rfl, List.append_assoc ..⟩
    | some t =>
      rw [commitFact_some]
      exact ⟨rfl, List.append_assoc ..⟩

/-- A consolidation saves its archive. -/
theorem archives_consolidate (c : Clock × Session) (store : Option Tables) (entries : Option Entries) :
    (consolidate embedText c.1 c.2 store entries).2.1.map (·.archives) =
      (store.map (·.archives)).map (saveArchive (archiveOf c)) := by
  obtain ⟨harchives, hfacts⟩ := archives_foldl_commitFact embedText c.1
    (extractedMemories c.1.newId c.2.toSessionMemory) { store := store, entries := entries }
  unfold consolidate
  dsimp only
  rw [hfacts, ← harchives, Option.map_map, Option.map_map]
  rfl

theorem archives_consolidations (embedText : Bytes → List F32) (cs : List (Clock × Session))
    (s : Option Tables × Option Entries) :
    (consolidations embedText cs s).1.map (·.archives) =
      (s.1.map (·.archives)).map ((cs.map archiveOf).foldl fun archives a => saveArchive a archives) := by
  induction cs generalizing s with
  | nil => cases hstore : s.1 <;> simp [consolidations, hstore]
  | cons c cs ih =>
    rw [consolidations, List.foldl_cons, ← consolidations, ih, archives_consolidate, Option.map_map]
    rfl

/-- The ids of two milliseconds are different. -/
theorem archivedAt_of_archiveId {c c' : Clock × Session}
    (h : cstr (archiveOf c).archiveId = cstr (archiveOf c').archiveId) : c.1.archivedAt = c'.1.archivedAt := by
  have hword : (0 : UInt8) ∉ ascii "arch_" := by decide +kernel
  have hplain : ∀ c : Clock × Session, cstr (archiveOf c).archiveId = ascii "arch_" ++ intText c.1.archivedAt.toInt :=
    fun c => cstr_of_not_mem fun hmem => (List.mem_append.mp hmem).elim hword (zero_notMem_intText _)
  rw [hplain, hplain, List.append_cancel_left_eq] at h
  have hparsed := congrArg parseInt h
  rw [parseInt_intText, parseInt_intText] at hparsed
  exact Int64.toInt_inj.mp (Option.some.inj hparsed)

theorem find?_congr {α : Type*} {p q : α → Bool} : ∀ {l : List α}, (∀ a ∈ l, p a = q a) → l.find? p = l.find? q
  | [], _ => rfl
  | a :: l, h => by
    obtain ⟨ha, hl⟩ := List.forall_mem_cons.mp h
    rw [List.find?_cons, List.find?_cons, ha, find?_congr hl]

/-- **The archives of a run.** If every consolidation has a millisecond of its own, a session is answered with the
summary of its last consolidation. -/
theorem archived_run (embedText : Bytes → List F32) (cs : List (Clock × Session)) (rows : List Row)
    (entries : Option Entries) (hids : cs.Pairwise fun c c' => c.1.archivedAt ≠ c'.1.archivedAt)
    (htimes : cs.Pairwise fun c c' => c.1.savedAt.toInt < c'.1.savedAt.toInt) (sessionId : Bytes) :
    ∃ t, (consolidations embedText cs (some { rows := rows }, entries)).1 = some t ∧
      ∀ ans, IsArchive sessionId t.archives ans ↔
        ans = (cs.reverse.find? fun c => cstr c.2.sessionId = cstr sessionId).map fun c => cstr (summaryOf c.2) := by
  obtain ⟨t, ht, heq⟩ := Option.map_eq_some_iff.mp
    (archives_consolidations embedText cs (some { rows := rows }, entries))
  refine ⟨t, ht, fun ans => ?_⟩
  have hsaves : t.archives = afterSaves (cs.map archiveOf) := heq
  have hids' : (cs.map archiveOf).Pairwise fun a b => cstr a.archiveId ≠ cstr b.archiveId :=
    List.pairwise_map.mpr (hids.imp fun hne h => hne (archivedAt_of_archiveId h))
  have htimes' : (cs.map archiveOf).Pairwise fun a b => a.createdAt.toInt < b.createdAt.toInt :=
    List.pairwise_map.mpr htimes
  rw [hsaves, isArchive_run_iff _ htimes']
  have hnewest : newest (cs.map archiveOf) sessionId =
      (cs.map archiveOf).reverse.find? fun a => cstr a.sessionId = cstr sessionId :=
    find?_congr fun a ha => decide_eq_decide.mpr (ownedBy_iff hids' (List.mem_reverse.mp ha))
  rw [hnewest, ← List.map_reverse, List.find?_map, Option.map_map]
  rfl

/-- A session of some turns with one decision. -/
def decided (sessionId : Bytes) (turns : ℕ) : Session where
  turns := List.replicate turns (ascii "user", ascii "hi")
  decisions := [ascii "Use WAL mode"]
  sessionId := sessionId

/-- A session is consolidated, then another one, and then the first one again, which has gone on. -/
def twoSessions : List (Clock × Session) :=
  [({ archivedAt := 1, savedAt := 1 }, decided [0x61] 1), ({ archivedAt := 2, savedAt := 2 }, decided [0x62] 3),
    ({ archivedAt := 3, savedAt := 3 }, decided [0x61] 2)]

/-- The first session is answered with its second summary. -/
theorem archived_run_two : ∃ t, (consolidations (fun _ => []) twoSessions (some {}, none)).1 = some t ∧
    IsArchive [0x61] t.archives (some (cstr (summaryOf (decided [0x61] 2)))) ∧
    ¬ IsArchive [0x61] t.archives (some (cstr (summaryOf (decided [0x61] 1)))) := by
  obtain ⟨t, ht, hanswer⟩ := archived_run (fun _ => []) twoSessions [] none (by decide) (by decide) [0x61]
  have hlast : (twoSessions.reverse.find? fun c => cstr c.2.sessionId = cstr [0x61]).map
      (fun c => cstr (summaryOf c.2)) = some (cstr (summaryOf (decided [0x61] 2))) := rfl
  refine ⟨t, ht, (hanswer _).mpr hlast.symm, fun hfirst => ?_⟩
  rw [hanswer, hlast] at hfirst
  exact absurd hfirst (by decide +kernel)

end Consolidations

end DenseLite.Memory.Archives
