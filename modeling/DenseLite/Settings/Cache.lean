import DenseLite.Lib.Live
import DenseLite.Lib.Runs
import DenseLite.Lib.Timeline
import DenseLite.Settings.Values
import Mathlib.Logic.Function.Basic

/-! # The cache of the settings

`SettingsManager` reads settings from a cache, whole tables read from the database that other connections write
too. Whether the cache is old is told by SQLite's `data_version`, here the number of commits of other
connections: a call of `get_*` compares it with the version of the last reload. The version is taken at three
places. `check_and_reload` takes it before the table; `reload` and `update_setting` take it after the cache is
written.

Calls run in threads, step by step, and other connections commit between any two steps. `answers_fresh` says in
which runs a `get_*` answers with what was committed when it was called, or since. -/

namespace DenseLite.Settings.Cache

open DenseLite.Lib.ByteStream DenseLite.Lib.KeyMap DenseLite.Lib.Live DenseLite.Lib.Runs DenseLite.Lib.Timeline
open DenseLite.Infer.State DenseLite.Settings.Values

/-! ### The table -/

/-- Records by their primary key. -/
def byId (rows : List SettingRecord) : List (Id × SettingRecord) := rows.map fun r => (r.id, r)

/-- The rows of `system_settings`: no two of one primary key, and texts as they are read, without zero bytes. -/
structure Table where
  rows : List SettingRecord
  nodup : (keys (byId rows)).Nodup
  text : ∀ r ∈ rows, 0 ∉ r.module ∧ 0 ∉ r.key

/-- The value in a row. -/
def lookup (id : Id) (t : Table) : Option Bytes := (find id (byId t.rows)).map (·.value)

/-- The record as its columns are bound. -/
def bound (r : SettingRecord) : SettingRecord :=
  { r with
    module := cstr r.module
    key := cstr r.key
    value := cstr r.value
    valType := cstr r.valType }

theorem byId_upsert (r : SettingRecord) (rows : List SettingRecord) :
    byId (r :: rows.filter fun r' => r'.id ≠ r.id) = set r.id r (byId rows) := by
  unfold byId Lib.Live.set erase
  rw [List.map_cons, List.filter_map]
  rfl

/-- `SettingsDB::upsert`. -/
def upsert (r : SettingRecord) (t : Table) : Table where
  rows := bound r :: t.rows.filter fun r' => r'.id ≠ (bound r).id
  nodup := by
    rw [byId_upsert]
    exact nodup_keys_set t.nodup
  text := by
    intro r' hr'
    rcases List.mem_cons.mp hr' with rfl | hr'
    · exact ⟨not_mem_cstr _, not_mem_cstr _⟩
    · exact t.text r' (List.mem_of_mem_filter hr')

theorem lookup_upsert_of_ne {r : SettingRecord} {t : Table} {id : Id} (hne : id ≠ (bound r).id) :
    lookup id (upsert r t) = lookup id t := by
  unfold lookup upsert
  rw [byId_upsert, find_set_of_ne hne]

/-- A key of the table has no zero byte. -/
theorem text_of_lookup {t : Table} {id : Id} {v : Bytes} (h : lookup id t = some v) : 0 ∉ id.1 ∧ 0 ∉ id.2 := by
  obtain ⟨r, hr, -⟩ := Option.map_eq_some_iff.mp h
  obtain ⟨r', hr', heq⟩ := List.mem_map.mp (mem_of_find hr)
  have hid : r'.id = id := congrArg Prod.fst heq
  rw [← hid]
  exact t.text r' hr'

/-! ### The cache -/

/-- The cache. -/
abbrev Entries := List (Bytes × SettingRecord)

/-- `SettingsManager::make_cache_key`. -/
def makeCacheKey (id : Id) : Bytes := id.1 ++ 58 :: id.2

/-- The cache of a table: `clear`, and an entry for each record. -/
def fill (t : Table) : Entries := t.rows.foldl (fun cache r => set (makeCacheKey r.id) r cache) []

/-- The value in the cache. -/
def cached (id : Id) (cache : Entries) : Option Bytes := (find (makeCacheKey id) cache).map (·.value)

/-- Neither module nor key has a colon. -/
def ColonFree (id : Id) : Prop := 58 ∉ id.1 ∧ 58 ∉ id.2

instance (id : Id) : Decidable (ColonFree id) := inferInstanceAs (Decidable (_ ∧ _))

theorem makeCacheKey_inj {id id' : Id} (h : ColonFree id) (heq : makeCacheKey id = makeCacheKey id') :
    id = id' := by
  obtain ⟨hmodule, -, hkey⟩ := (List.append_cons_inj_of_notMem h.1 h.2).mp heq
  exact Prod.ext hmodule hkey

theorem find_foldl_set {id : Id} (hid : ColonFree id) : ∀ (rows : List SettingRecord) (cache : Entries),
    (keys (byId rows)).Nodup →
      find (makeCacheKey id) (rows.foldl (fun cache r => set (makeCacheKey r.id) r cache) cache) =
        (find id (byId rows)).or (find (makeCacheKey id) cache)
  | [], _, _ => rfl
  | r :: rows, cache, hnd => by
    obtain ⟨hnot, hnd'⟩ := List.nodup_cons.mp hnd
    rw [List.foldl_cons, find_foldl_set hid rows _ hnd']
    change _ = (if r.id = id then some r else find id (byId rows)).or _
    by_cases heq : r.id = id
    · rw [if_pos heq, heq, find_set_self, find_eq_none_iff.mpr (heq ▸ hnot)]
      rfl
    · rw [if_neg heq, find_set_of_ne fun hkey => heq (makeCacheKey_inj hid hkey).symm]

/-- The cache of a table shows the table. -/
theorem cached_fill {id : Id} (hid : ColonFree id) (t : Table) : cached id (fill t) = lookup id t := by
  unfold cached fill lookup
  rw [find_foldl_set hid _ _ t.nodup]
  cases find id (byId t.rows) <;> rfl

/-! ### The manager and its threads -/

/-- A call; the type of its default says which accessor is called. -/
inductive Call
  | get (fallback : Value F32) (id : Id)
  | set (rec : SettingRecord)
  | reload

/-- Where a thread stands: what its next step is. `began` is the moment of its call, `at` the moment of the
table it has read or written. -/
inductive Pc
  | idle
  | getDataVersion (fallback : Value F32) (id : Id) (began : ℕ)
  | compare (fallback : Value F32) (id : Id) (began curVer : ℕ)
  | getAll (fallback : Value F32) (id : Id) (began curVer : ℕ)
  | refill (fallback : Value F32) (id : Id) (began curVer : ℕ) (all : Table) (moment : ℕ)
  | read (fallback : Value F32) (id : Id) (began : ℕ)
  | upsert (rec : SettingRecord)
  | write (rec : SettingRecord) (moment : ℕ)
  | reload
  | reloadFill (all : Table) (moment : ℕ)
  | sample
  | store (version : ℕ)

/-- A `SettingsManager` with its database. The database is the table and `data_version`, with its history;
`asOf` is the moment of the table that the cache was last filled from, `written` that of the last commit that
a set wrote to the cache. No step looks at these two, or at the past. -/
structure ManagerState (ι : Type*) where
  db : History (Table × ℕ)
  cache : Entries
  lastDataVersion : ℕ
  writer : Option ι := none
  pc : ι → Pc := fun _ => .idle
  asOf : ℕ := 0
  written : ℕ := 0

/-- What happens: a thread makes a call, a thread takes its next step, another connection commits. -/
inductive Event (ι : Type*)
  | call (t : ι) (c : Call)
  | step (t : ι)
  | commit (table : Table)

variable {ι : Type*} [DecidableEq ι]

/-- After `init` on a table. -/
def init (ι : Type*) (table : Table) : ManagerState ι where
  db := ⟨[], (table, 0)⟩
  cache := fill table
  lastDataVersion := 0

namespace ManagerState

variable (st : ManagerState ι)

/-- The thread goes on to `pc`. -/
def goto (t : ι) (pc : Pc) : ManagerState ι := { st with pc := Function.update st.pc t pc }

/-- The first step of a call. -/
def start (t : ι) : Call → ManagerState ι
  | .get fallback id => st.goto t (.getDataVersion fallback id st.db.moment)
  | .set rec => st.goto t (.upsert rec)
  | .reload => st.goto t .reload

/-- The next step of a thread. What needs the lock waits while another thread has it. -/
def advance (t : ι) : Pc → ManagerState ι
  | .idle => st
  | .getDataVersion fallback id began => st.goto t (.compare fallback id began st.db.now.2)
  | .compare fallback id began curVer =>
    if curVer ≠ st.lastDataVersion then st.goto t (.getAll fallback id began curVer)
    else st.goto t (.read fallback id began)
  | .getAll fallback id began curVer => st.goto t (.refill fallback id began curVer st.db.now.1 st.db.moment)
  | .refill fallback id began curVer all moment =>
    if st.writer.isSome then st
    else { st with cache := fill all, lastDataVersion := curVer, asOf := moment }.goto t (.read fallback id began)
  | .read _ _ _ => if st.writer.isSome then st else st.goto t .idle
  | .upsert rec =>
    { st with db := st.db.commit (Cache.upsert rec st.db.now.1, st.db.now.2) }.goto t
      (.write rec (st.db.moment + 1))
  | .write rec moment =>
    if st.writer.isSome then st
    else { st with
      cache := Lib.Live.set (makeCacheKey rec.id) rec st.cache
      writer := some t
      written := max st.written moment }.goto t .sample
  | .reload => st.goto t (.reloadFill st.db.now.1 st.db.moment)
  | .reloadFill all moment =>
    if st.writer.isSome then st
    else { st with cache := fill all, writer := some t, asOf := moment }.goto t .sample
  | .sample => st.goto t (.store st.db.now.2)
  | .store version => { st with lastDataVersion := version, writer := none }.goto t .idle

end ManagerState

/-- An event. A thread that is in a call makes no other one. -/
def step (st : ManagerState ι) : Event ι → ManagerState ι
  | .call t c =>
    match st.pc t with
    | .idle => st.start t c
    | _ => st
  | .step t => st.advance t (st.pc t)
  | .commit table => { st with db := st.db.commit (table, st.db.now.2 + 1) }

/-! ### Fresh answers -/

section Fresh

variable (stoi : Bytes → Option Int32) (stof : Bytes → Option F32)

/-- What a call that is at its last step answers was right at some moment not before the call. -/
def Fresh (st : ManagerState ι) : Event ι → Prop
  | .step t =>
    match st.pc t with
    | .read fallback id began => st.writer = none → ColonFree id → ∃ n, began ≤ n ∧ n ≤ st.db.moment ∧
      fallback.read stoi stof (cached id st.cache) = fallback.read stoi stof (lookup id (st.db.valueAt n).1)
    | _ => True
  | _ => True

end Fresh

/-- A set has committed to `id` at the moment `a`, and has still to write the cache. -/
def Waiting (st : ManagerState ι) (id : Id) (a : ℕ) : Prop :=
  ∃ t rec, st.pc t = .write rec a ∧ (bound rec).id = id

/-- The step meets the condition, unless it waits for the lock: an answer is not read while a set of its key
that committed before the call has still to write the cache; the cache is not filled with a table older than
what it has; a set writes the cache only while the row is as it has written it; and the version is not taken
after a commit of another connection that the cache does not have. -/
def KeepsFresh (st : ManagerState ι) : Event ι → Prop
  | .step t =>
    match st.pc t with
    | .read _ id began => st.writer = none → ∀ a, Waiting st id a → began < a
    | .refill _ _ _ _ _ moment => st.writer = none → st.asOf ≤ moment ∧ st.written ≤ moment
    | .reloadFill _ moment => st.writer = none → st.asOf ≤ moment ∧ st.written ≤ moment
    | .write rec _ => st.writer = none → lookup rec.id st.db.now.1 = some rec.value
    | .sample => st.db.now.2 = (st.db.valueAt st.asOf).2
    | _ => True
  | _ => True

/-! ### The invariant -/

/-- What is known of a thread, if the cache has the commits of other connections up to `seen`. -/
def PcSound (db : History (Table × ℕ)) (seen : ℕ) : Pc → Prop
  | .getDataVersion _ _ began => began ≤ db.moment
  | .compare _ _ began curVer => began ≤ db.moment ∧ (db.valueAt began).2 ≤ curVer ∧ curVer ≤ db.now.2
  | .getAll _ _ began curVer => began ≤ db.moment ∧ curVer ≤ db.now.2
  | .refill _ _ began curVer all moment =>
    began ≤ moment ∧ moment ≤ db.moment ∧ all = (db.valueAt moment).1 ∧ curVer ≤ (db.valueAt moment).2
  | .read _ _ began => began ≤ db.moment ∧ (db.valueAt began).2 ≤ seen
  | .reloadFill all moment => moment ≤ db.moment ∧ all = (db.valueAt moment).1
  | .store version => version ≤ seen
  | _ => True

/-- The cache serves `id` from the moment `c` on. -/
def CacheServes (st : ManagerState ι) (id : Id) (c : ℕ) : Prop :=
  st.db.Serves (fun x => lookup id x.1) (Waiting st id) c (cached id st.cache)

/-- The invariant. The cache serves every moment up to the commits of other connections that it has, which
the version it is compared by does not exceed; and an own commit is in the cache, or waiting. -/
structure Sound (st : ManagerState ι) : Prop where
  versions : Monotone fun n => (st.db.valueAt n).2
  asOf_le : st.asOf ≤ st.db.moment
  serves : ∀ c ≤ st.db.moment, (st.db.valueAt c).2 ≤ (st.db.valueAt st.asOf).2 →
    ∀ id, ColonFree id → CacheServes st id c
  last : st.lastDataVersion ≤ (st.db.valueAt st.asOf).2
  threads : ∀ t, PcSound st.db (st.db.valueAt st.asOf).2 (st.pc t)
  own : ∀ m < st.db.moment, (st.db.valueAt (m + 1)).2 = (st.db.valueAt m).2 → ∃ id,
    (∀ id', id' ≠ id → lookup id' (st.db.valueAt (m + 1)).1 = lookup id' (st.db.valueAt m).1) ∧
      (Waiting st id (m + 1) ∨ m + 1 ≤ st.written)

theorem PcSound.mono {db : History (Table × ℕ)} {seen seen' : ℕ} {pc : Pc} (h : PcSound db seen pc)
    (hle : seen ≤ seen') : PcSound db seen' pc := by
  cases pc with
  | read fallback id began => exact ⟨h.1, h.2.trans hle⟩
  | store version => exact le_trans h hle
  | _ => exact h

theorem PcSound.commit {db : History (Table × ℕ)} {seen : ℕ} {x : Table × ℕ} {pc : Pc} (h : PcSound db seen pc)
    (hx : db.now.2 ≤ x.2) : PcSound (db.commit x) seen pc := by
  have hmoment : db.moment ≤ (db.commit x).moment := by simp
  cases pc with
  | getDataVersion fallback id began => exact h.trans hmoment
  | compare fallback id began curVer =>
    obtain ⟨hb, hlow, hhigh⟩ := h
    refine ⟨hb.trans hmoment, ?_, hhigh.trans hx⟩
    rw [History.valueAt_commit_of_le hb]
    exact hlow
  | getAll fallback id began curVer => exact ⟨h.1.trans hmoment, h.2.trans hx⟩
  | refill fallback id began curVer all moment =>
    obtain ⟨hb, hm, hall, hver⟩ := h
    refine ⟨hb, hm.trans hmoment, ?_, ?_⟩
    · rw [History.valueAt_commit_of_le hm]
      exact hall
    · rw [History.valueAt_commit_of_le hm]
      exact hver
  | read fallback id began =>
    refine ⟨h.1.trans hmoment, ?_⟩
    rw [History.valueAt_commit_of_le h.1]
    exact h.2
  | reloadFill all moment =>
    refine ⟨h.1.trans hmoment, ?_⟩
    rw [History.valueAt_commit_of_le h.1]
    exact h.2
  | _ => exact h

/-! ### The steps -/

section Steps

variable {st : ManagerState ι} {t : ι} {pc : Pc} {id : Id} {a : ℕ}

/-- The thread is not about to write a committed record to the cache. -/
def NotWriting (pc : Pc) : Prop := ∀ rec a, pc ≠ .write rec a

@[simp] theorem pc_goto_self : (st.goto t pc).pc t = pc := Function.update_self ..

theorem pc_goto_of_ne {t' : ι} (hne : t' ≠ t) : (st.goto t pc).pc t' = st.pc t' := Function.update_of_ne hne ..

/-- A step from and to where nothing waits changes nothing that waits. -/
theorem waiting_goto {old : Pc} (hpc : st.pc t = old) (hfrom : NotWriting old) (hto : NotWriting pc) :
    Waiting (st.goto t pc) id a ↔ Waiting st id a := by
  constructor
  · rintro ⟨t', rec, hwrite, hid⟩
    by_cases heq : t' = t
    · rw [heq, pc_goto_self] at hwrite
      exact absurd hwrite (hto rec a)
    · rw [pc_goto_of_ne heq] at hwrite
      exact ⟨t', rec, hwrite, hid⟩
  · rintro ⟨t', rec, hwrite, hid⟩
    have hne : t' ≠ t := by
      rintro rfl
      exact hfrom rec a (hpc.symm.trans hwrite)
    exact ⟨t', rec, (pc_goto_of_ne hne).trans hwrite, hid⟩

theorem threads_goto {db : History (Table × ℕ)} {seen : ℕ} (h : ∀ t', PcSound db seen (st.pc t'))
    (hpc : PcSound db seen pc) (t' : ι) : PcSound db seen ((st.goto t pc).pc t') := by
  by_cases heq : t' = t
  · rw [heq, pc_goto_self]
    exact hpc
  · rw [pc_goto_of_ne heq]
    exact h t'

/-- A step that moves the thread alone. -/
theorem sound_goto {old : Pc} (h : Sound st) (hpc : st.pc t = old) (hfrom : NotWriting old)
    (hto : NotWriting pc) (hsound : PcSound st.db (st.db.valueAt st.asOf).2 pc) : Sound (st.goto t pc) where
  versions := h.versions
  asOf_le := h.asOf_le
  serves c hc hver id hid := (h.serves c hc hver id hid).mono fun _ => (waiting_goto hpc hfrom hto).mpr
  last := h.last
  threads := threads_goto h.threads hsound
  own m hm hver := by
    obtain ⟨id, hsame, hown⟩ := h.own m hm hver
    exact ⟨id, hsame, hown.imp_left (waiting_goto hpc hfrom hto).mpr⟩

/-- The version that a set or a reload has taken is stored. -/
theorem sound_store (h : Sound st) {version : ℕ} (hpc : st.pc t = .store version) :
    Sound ({ st with lastDataVersion := version, writer := none }.goto t .idle) := by
  have hversion : version ≤ (st.db.valueAt st.asOf).2 := by
    have hsound := h.threads t
    rwa [hpc] at hsound
  have hstored : Sound { st with lastDataVersion := version, writer := none } :=
    ⟨h.versions, h.asOf_le, h.serves, hversion, h.threads, h.own⟩
  exact sound_goto hstored hpc nofun nofun trivial

omit [DecidableEq ι] in
/-- The cache is filled with a table that is not older than what it has. -/
theorem sound_fill (h : Sound st) {moment version : ℕ} {writer : Option ι} (hmoment : moment ≤ st.db.moment)
    (hasOf : st.asOf ≤ moment) (hwritten : st.written ≤ moment)
    (hversion : version ≤ (st.db.valueAt moment).2) :
    Sound { st with
      cache := fill (st.db.valueAt moment).1
      lastDataVersion := version
      writer := writer
      asOf := moment } where
  versions := h.versions
  asOf_le := hmoment
  serves c hc hver id hid := by
    change c ≤ st.db.moment at hc
    unfold CacheServes
    rw [cached_fill hid]
    rcases le_total c moment with hle | hle
    · exact ⟨moment, hmoment, rfl, Or.inl hle⟩
    · refine History.serves_of_waiting (f := fun x => lookup id x.1) hle hc fun m hm hmc => ?_
      -- all versions from the table to `c` are the same: the commits between them are own ones
      have hsame : (st.db.valueAt (m + 1)).2 = (st.db.valueAt m).2 :=
        le_antisymm ((h.versions (show m + 1 ≤ c by omega)).trans (hver.trans (h.versions hm)))
          (h.versions m.le_succ)
      obtain ⟨id', hother, hown⟩ := h.own m (by omega) hsame
      by_cases heq : id = id'
      · exact Or.inr (heq ▸ hown.resolve_right (by omega))
      · exact Or.inl (hother id heq)
  last := hversion
  threads t' := (h.threads t').mono (h.versions hasOf)
  own := h.own

/-- A set writes the cache while the row is as it has written it. -/
theorem sound_write (h : Sound st) {rec : SettingRecord} {moment : ℕ} (hpc : st.pc t = .write rec moment)
    (hrow : lookup rec.id st.db.now.1 = some rec.value) :
    Sound ({ st with
      cache := Lib.Live.set (makeCacheKey rec.id) rec st.cache
      writer := some t
      written := max st.written moment }.goto t .sample) := by
  obtain ⟨hmodule, hkey⟩ := text_of_lookup hrow
  have hbound : (bound rec).id = rec.id := Prod.ext (cstr_of_not_mem hmodule) (cstr_of_not_mem hkey)
  have hwait : ∀ {id a}, Waiting st id a → (id = rec.id ∧ a = moment) ∨ Waiting (ManagerState.goto
      { st with
        cache := Lib.Live.set (makeCacheKey rec.id) rec st.cache
        writer := some t
        written := max st.written moment } t .sample) id a := by
    rintro id a ⟨t', rec', hpc', hid⟩
    by_cases heq : t' = t
    · rw [heq, hpc] at hpc'
      cases hpc'
      exact Or.inl ⟨hid.symm.trans hbound, rfl⟩
    · exact Or.inr ⟨t', rec', (pc_goto_of_ne heq).trans hpc', hid⟩
  refine ⟨h.versions, h.asOf_le, fun c hc hver id hid => ?_, h.last, threads_goto h.threads trivial,
    fun m hm hver => ?_⟩
  · by_cases heq : id = rec.id
    · refine History.serves_now hc ?_
      unfold cached ManagerState.goto
      rw [heq, find_set_self]
      exact hrow
    · have hserves := h.serves c hc hver id hid
      unfold CacheServes cached at hserves ⊢
      unfold ManagerState.goto
      rw [find_set_of_ne fun hkey => heq (makeCacheKey_inj hid hkey)]
      exact hserves.mono fun a ha => (hwait ha).resolve_left fun h => heq h.1
  · obtain ⟨id, hother, hwaiting | hwritten⟩ := h.own m hm hver
    · refine ⟨id, hother, ?_⟩
      rcases hwait hwaiting with ⟨-, hmoment⟩ | hwaiting
      · exact Or.inr (hmoment ▸ le_max_right _ _)
      · exact Or.inl hwaiting
    · exact ⟨id, hother, Or.inr (hwritten.trans (le_max_left _ _))⟩

omit [DecidableEq ι] in
/-- A commit, of either kind: what is asked of the new moment alone. -/
theorem sound_db_commit (h : Sound st) {x : Table × ℕ} {pcs : ι → Pc} (hx : st.db.now.2 ≤ x.2)
    (hwait : ∀ {id a}, Waiting st id a → Waiting { st with db := st.db.commit x, pc := pcs } id a)
    (hserves : x.2 ≤ (st.db.valueAt st.asOf).2 → ∀ id, ColonFree id →
      CacheServes { st with db := st.db.commit x, pc := pcs } id (st.db.moment + 1))
    (hthreads : ∀ t, PcSound (st.db.commit x) (st.db.valueAt st.asOf).2 (pcs t))
    (hown : x.2 = st.db.now.2 → ∃ id, (∀ id', id' ≠ id → lookup id' x.1 = lookup id' st.db.now.1) ∧
      Waiting { st with db := st.db.commit x, pc := pcs } id (st.db.moment + 1)) :
    Sound { st with db := st.db.commit x, pc := pcs } where
  versions := History.monotone_commit h.versions hx
  asOf_le := h.asOf_le.trans (by simp)
  serves c hc hver id hid := by
    rw [History.moment_commit] at hc
    rw [History.valueAt_commit_of_le h.asOf_le] at hver
    rcases Nat.lt_or_eq_of_le hc with hlt | rfl
    · have hle : c ≤ st.db.moment := Nat.le_of_lt_succ hlt
      rw [History.valueAt_commit_of_le hle] at hver
      exact ((h.serves c hle hver id hid).mono fun _ => hwait).commit
    · rw [History.valueAt_commit_succ] at hver
      exact hserves hver id hid
  last := by
    rw [History.valueAt_commit_of_le h.asOf_le]
    exact h.last
  threads := by
    rw [History.valueAt_commit_of_le h.asOf_le]
    exact hthreads
  own m hm hver := by
    rw [History.moment_commit] at hm
    rcases Nat.lt_or_eq_of_le (Nat.le_of_lt_succ hm) with hlt | rfl
    · rw [History.valueAt_commit_of_le hlt, History.valueAt_commit_of_le hlt.le] at hver ⊢
      obtain ⟨id, hother, hown⟩ := h.own m hlt hver
      exact ⟨id, hother, hown.imp_left hwait⟩
    · rw [History.valueAt_commit_succ, History.valueAt_commit_of_le le_rfl, History.valueAt_moment] at hver ⊢
      obtain ⟨id, hother, hnew⟩ := hown hver
      exact ⟨id, hother, Or.inl hnew⟩

omit [DecidableEq ι] in
/-- A commit of another connection: the cache has no version as new as its own. -/
theorem sound_commit (h : Sound st) (table : Table) :
    Sound { st with db := st.db.commit (table, st.db.now.2 + 1) } := by
  refine sound_db_commit h (Nat.le_succ _) id (fun hver => ?_) (fun t => (h.threads t).commit (Nat.le_succ _))
    fun hver => absurd hver (Nat.succ_ne_self _)
  have hasOf := h.versions h.asOf_le
  dsimp only at hver hasOf
  rw [History.valueAt_moment] at hasOf
  omega

/-- A set commits its record, which then waits for the cache. -/
theorem sound_upsert (h : Sound st) {rec : SettingRecord} (hpc : st.pc t = .upsert rec) :
    Sound ({ st with db := st.db.commit (upsert rec st.db.now.1, st.db.now.2) }.goto t
      (.write rec (st.db.moment + 1))) := by
  have hwait : ∀ {id a}, Waiting st id a → Waiting (ManagerState.goto
      { st with db := st.db.commit (upsert rec st.db.now.1, st.db.now.2) } t
      (.write rec (st.db.moment + 1))) id a := by
    rintro id a ⟨t', rec', hpc', hid⟩
    have hne : t' ≠ t := by
      rintro rfl
      rw [hpc] at hpc'
      cases hpc'
    exact ⟨t', rec', (pc_goto_of_ne hne).trans hpc', hid⟩
  have hnew : Waiting (ManagerState.goto
      { st with db := st.db.commit (upsert rec st.db.now.1, st.db.now.2) } t (.write rec (st.db.moment + 1)))
      (bound rec).id (st.db.moment + 1) := ⟨t, rec, pc_goto_self, rfl⟩
  refine sound_db_commit h le_rfl hwait (fun hver id hid => ?_)
    (threads_goto (fun t' => (h.threads t').commit le_rfl) trivial)
    fun _ => ⟨(bound rec).id, fun id' hne => lookup_upsert_of_ne hne, hnew⟩
  have hnow := (h.serves st.db.moment le_rfl (by rwa [History.valueAt_moment]) id hid).mono fun _ => hwait
  refine hnow.commit_succ ?_
  by_cases heq : id = (bound rec).id
  · exact Or.inr (heq ▸ hnew)
  · exact Or.inl (lookup_upsert_of_ne heq)

theorem sound_advance (h : Sound st) (hok : KeepsFresh st (.step t)) : Sound (st.advance t (st.pc t)) := by
  have hthread := h.threads t
  unfold KeepsFresh at hok
  dsimp only at hok
  cases hpc : st.pc t with
  | idle => exact h
  | getDataVersion fallback id began =>
    rw [hpc] at hthread
    refine sound_goto h hpc nofun nofun ⟨hthread, ?_, le_rfl⟩
    have hmono := h.versions hthread
    dsimp only at hmono
    rwa [History.valueAt_moment] at hmono
  | compare fallback id began curVer =>
    rw [hpc] at hthread
    obtain ⟨hbegan, hlow, hhigh⟩ := hthread
    unfold ManagerState.advance
    dsimp only
    split_ifs with hver
    · exact sound_goto h hpc nofun nofun ⟨hbegan, hhigh⟩
    · rw [not_not] at hver
      exact sound_goto h hpc nofun nofun ⟨hbegan, hlow.trans (hver ▸ h.last)⟩
  | getAll fallback id began curVer =>
    rw [hpc] at hthread
    refine sound_goto h hpc nofun nofun ⟨hthread.1, le_rfl, ?_, ?_⟩
    · rw [History.valueAt_moment]
    · rw [History.valueAt_moment]
      exact hthread.2
  | refill fallback id began curVer all moment =>
    rw [hpc] at hthread hok
    obtain ⟨hbegan, hmoment, rfl, hver⟩ := hthread
    unfold ManagerState.advance
    dsimp only
    split_ifs with hwriter
    · exact h
    · obtain ⟨hasOf, hwritten⟩ := hok (by simpa using hwriter)
      exact sound_goto (sound_fill h hmoment hasOf hwritten hver) hpc nofun nofun
        ⟨hbegan.trans hmoment, h.versions hbegan⟩
  | read fallback id began =>
    unfold ManagerState.advance
    dsimp only
    split_ifs
    · exact h
    · exact sound_goto h hpc nofun nofun trivial
  | upsert rec => exact sound_upsert h hpc
  | write rec moment =>
    rw [hpc] at hok
    unfold ManagerState.advance
    dsimp only
    split_ifs with hwriter
    · exact h
    · exact sound_write h hpc (hok (by simpa using hwriter))
  | reload =>
    refine sound_goto h hpc nofun nofun ⟨le_rfl, ?_⟩
    rw [History.valueAt_moment]
  | reloadFill all moment =>
    rw [hpc] at hthread hok
    obtain ⟨hmoment, rfl⟩ := hthread
    unfold ManagerState.advance
    dsimp only
    split_ifs with hwriter
    · exact h
    · obtain ⟨hasOf, hwritten⟩ := hok (by simpa using hwriter)
      exact sound_goto (sound_fill h hmoment hasOf hwritten (h.last.trans (h.versions hasOf))) hpc nofun nofun
        trivial
  | sample =>
    rw [hpc] at hok
    exact sound_goto h hpc nofun nofun hok.le
  | store version => exact sound_store h hpc

theorem sound_start (h : Sound st) (hpc : st.pc t = .idle) (c : Call) : Sound (st.start t c) := by
  cases c with
  | get fallback id => exact sound_goto h hpc nofun nofun (le_refl st.db.moment)
  | set rec => exact sound_goto h hpc nofun nofun trivial
  | reload => exact sound_goto h hpc nofun nofun trivial

theorem sound_step (h : Sound st) {e : Event ι} (hok : KeepsFresh st e) : Sound (step st e) := by
  cases e with
  | call t c =>
    unfold step
    dsimp only
    split
    · exact sound_start h ‹_› c
    · exact h
  | step t => exact sound_advance h hok
  | commit table => exact sound_commit h table

end Steps

omit [DecidableEq ι] in
theorem sound_init (table : Table) : Sound (init ι table) where
  versions := fun _ _ _ => le_rfl
  asOf_le := le_rfl
  serves _ hc _ _ hid := History.serves_now hc (cached_fill hid table).symm
  last := le_rfl
  threads _ := trivial
  own m hm _ := absurd hm (Nat.not_lt_zero m)

omit [DecidableEq ι] in
/-- An answer that is read when nothing older waits is fresh. -/
theorem fresh_of_sound {st : ManagerState ι} (h : Sound st) (stoi : Bytes → Option Int32)
    (stof : Bytes → Option F32) {e : Event ι} (hok : KeepsFresh st e) : Fresh stoi stof st e := by
  cases e with
  | call t c => trivial
  | commit table => trivial
  | step t =>
    have hthread := h.threads t
    unfold KeepsFresh at hok
    unfold Fresh
    dsimp only at hok ⊢
    cases hpc : st.pc t with
    | read fallback id began =>
      rw [hpc] at hthread hok
      intro hwriter hid
      have hserves := h.serves began hthread.1 hthread.2 id hid
      obtain ⟨n, hbegan, hn, hvalue⟩ := hserves.exists_eq (hok hwriter)
      exact ⟨n, hbegan, hn, by rw [← hvalue]⟩
    | _ => trivial

/-- **Answers are fresh** in every run whose steps meet the condition. -/
theorem answers_fresh (stoi : Bytes → Option Int32) (stof : Bytes → Option F32) (table : Table)
    (events : List (Event ι)) (hkeeps : EveryStep step KeepsFresh (init ι table) events) :
    EveryStep step (Fresh stoi stof) (init ι table) events := by
  refine (everyStep_of_invariant (fun st e hI hC => ?_) events _ (sound_init table) hkeeps).1
  exact ⟨fresh_of_sound hI stoi stof hC, sound_step hI hC⟩

/-- A table with the port of the server alone. -/
def portTable (port : Bytes) : Table where
  rows := [{ module := ascii "server", key := ascii "port", value := port }]
  nodup := List.nodup_singleton _
  text := by
    intro r hr
    rw [List.mem_singleton.mp hr]
    exact ⟨show 0 ∉ ascii "server" by decide, show 0 ∉ ascii "port" by decide⟩

/-- A read of the port. -/
def getPort : Call := .get (.string []) (ascii "server", ascii "port")

/-- A set of the host. -/
def setHost : Call := .set { module := ascii "server", key := ascii "host", value := ascii "localhost" }

/-- Another connection changes the port; it is read, then the host is set, and the port read again. -/
def readThenSet : List (Event Unit) :=
  [.commit (portTable (ascii "9090")), .call () getPort, .step (), .step (), .step (), .step (), .step (),
    .call () setHost, .step (), .step (), .step (), .step (), .call () getPort, .step (), .step (), .step ()]

theorem answers_fresh_readThenSet : EveryStep step (Fresh (fun _ => none) fun _ => none)
    (init Unit (portTable (ascii "8080"))) readThenSet := by
  refine answers_fresh (fun _ => none) (fun _ => none) _ readThenSet
    ⟨trivial, trivial, trivial, trivial, trivial, ?_, ?_, trivial, trivial, ?_, ?_, trivial, trivial, trivial,
      trivial, ?_, trivial⟩
  · exact fun _ => ⟨by decide, by decide⟩
  · rintro - a ⟨t, rec, hpc, -⟩
    cases t
    cases hpc
  · exact fun _ => by decide
  · rfl
  · rintro - a ⟨t, rec, hpc, -⟩
    cases t
    cases hpc

/-- Another connection changes the port; before it is read, the host is set. -/
def setThenRead : List (Event Unit) :=
  [.commit (portTable (ascii "9090")), .call () setHost, .step (), .step (), .step (), .step (),
    .call () getPort, .step (), .step (), .step ()]

theorem not_answers_fresh_setThenRead : ¬ EveryStep step (Fresh (fun _ => none) fun _ => none)
    (init Unit (portTable (ascii "8080"))) setThenRead := by
  rintro ⟨-, -, -, -, -, -, -, -, -, hlast, -⟩
  obtain ⟨n, hbegan, hn, hanswer⟩ := hlast rfl (by decide)
  obtain rfl : n = 2 := le_antisymm hn hbegan
  exact absurd hanswer (by decide)

end DenseLite.Settings.Cache
