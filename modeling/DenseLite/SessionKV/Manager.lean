import Mathlib.Logic.Function.Basic
import DenseLite.Lib.KeyMap
import DenseLite.SessionKV.Dlkv
import DenseLite.SessionKV.FileNames

/-! # The session manager and the requests that use it

`SessionKVCacheManager` (`SessionKVCache.cpp`) and `infer_local` (`ModelEngine.cpp`) as one system. A
`shared_ptr` is a handle into `heap`; the map `sessions_` and the requests in flight hold handles, so a
state that was evicted lives on while a request holds it. A request calls `get_or_create`, `generate`
under the lock of its state, `save_to_disk`, and returns; each of these is one step, and the steps of
different requests come in any order.

The file of a session is where the path `cache_dir/id.kv` leads: two ids may lead to one file, and a file may
not open. What the operating system makes of paths is a parameter, the same throughout a run; a file that
opens is written whole. `latest` records what the last `generate` on a session left, and `written` the
session and the state that a file was last written for. -/

namespace DenseLite.SessionKV.Manager

open DenseLite.Lib.ByteStream DenseLite.Lib.KeyMap DenseLite.Infer.State DenseLite.Infer.Generate
open DenseLite.SessionKV.Dlkv DenseLite.SessionKV.FileNames

/-! ### The system -/

/-- The cache directory, and what the operating system makes of paths: the file that a path leads to, and
whether that opens for reading and for writing. -/
structure FileSystem where
  cacheDir : Bytes := ascii "kv"
  resolve : Bytes → Bytes := cstr
  readable : Bytes → Bool := fun _ => true
  writable : Bytes → Bool := fun _ => true

/-- The file of a session. -/
def FileSystem.file (files : FileSystem) (id : Bytes) : Bytes := files.resolve (cachePath files.cacheDir id)

/-- A request in flight: its session, its model, and the state it holds. -/
structure Request where
  id : Bytes
  model : DenseModel
  handle : ℕ

/-- The manager, the files and their contents, and the requests in flight. -/
structure System where
  maxActive : ℕ
  files : FileSystem := {}
  heap : List SessionKVState := []
  sessions : List (Bytes × ℕ) := []
  disk : Bytes → Option Bytes := fun _ => none
  requests : List Request := []
  written : Bytes → Option (Bytes × SessionKVState) := fun _ => none
  latest : Bytes → Option SessionKVState := fun _ => none

/-- The order of the keys of `sessions_`. -/
def bytesLt : Bytes → Bytes → Bool
  | _, [] => false
  | [], _ :: _ => true
  | a :: as, b :: bs => if a = b then bytesLt as bs else decide (a < b)

/-- The state behind a handle. -/
def System.stateOf (sys : System) (h : ℕ) : SessionKVState := sys.heap.getD h {}

/-- What is read from the file of a session, if it is there and opens. -/
def System.read (sys : System) (id : Bytes) : Option Bytes :=
  if sys.files.readable (sys.files.file id) then sys.disk (sys.files.file id) else none

/-- `use_count() == 1 && !in_use` for a state of the map: no request holds it. -/
def System.idle (sys : System) (h : ℕ) : Bool :=
  !(sys.requests.any fun r => r.handle == h) && !(sys.stateOf h).inUse

/-! ### Eviction -/

/-- The loop of `evict_oldest_session_locked`: the candidate so far, and its time. A held state is
passed over only once there is a candidate. -/
def oldestLoop (sys : System) : List (Bytes × ℕ) → Option (Bytes × ℕ) → ℤ → Option (Bytes × ℕ)
  | [], oldest, _ => oldest
  | e :: es, oldest, time =>
    if (sys.idle e.2 || oldest.isNone) && decide ((sys.stateOf e.2).lastAccessedMs < time) then
      oldestLoop sys es (some e) (sys.stateOf e.2).lastAccessedMs
    else oldestLoop sys es oldest time

/-- The session that is evicted next; the times start below the largest `int64_t`. -/
def System.oldest (sys : System) : Option (Bytes × ℕ) := oldestLoop sys sys.sessions none (2 ^ 63 - 1)

/-- `save_to_disk_internal` for the state behind `h`: nothing happens if the file does not open. -/
def System.save (sys : System) (id : Bytes) (h : ℕ) : System :=
  match saveToDiskInternal (sys.stateOf h) with
  | some f =>
    if sys.files.writable (sys.files.file id) then
      { sys with
        disk := Function.update sys.disk (sys.files.file id) (some f)
        written := Function.update sys.written (sys.files.file id) (some (id, sys.stateOf h)) }
    else sys
  | none => sys

/-- `evict_oldest_session_locked`. -/
def evictOldest (sys : System) : System :=
  match sys.oldest with
  | some e => { sys.save e.1 e.2 with sessions := erase e.1 sys.sessions }
  | none => sys

/-- The loop of `get_or_create` that makes room, for `n` rounds at most: as long as the times are below
the largest `int64_t`, every round takes a session away. -/
def makeRoom : ℕ → System → System
  | 0, sys => sys
  | n + 1, sys => if sys.maxActive ≤ sys.sessions.length then makeRoom n (evictOldest sys) else sys

/-! ### The operations -/

/-- A state with the time of its last use. -/
def touched (s : SessionKVState) (now : ℤ) : SessionKVState := { s with lastAccessedMs := now }

/-- `get_or_create`: the system after it, and the handle it returns. -/
def getOrCreate (sys : System) (id : Bytes) (c : ModelConfig) (now : ℤ) : System × ℕ :=
  if id = [] then ({ sys with heap := sys.heap ++ [{}] }, sys.heap.length)
  else
    match find id sys.sessions with
    | some h => ({ sys with heap := sys.heap.set h (touched (sys.stateOf h) now) }, h)
    | none =>
      let room := makeRoom sys.sessions.length sys
      ({ room with
        heap := room.heap ++ [createState c now (room.read id)]
        sessions := insertBy bytesLt id room.heap.length room.sessions }, room.heap.length)

/-- The state that `get_or_create` returns. -/
def returned (sys : System) (id : Bytes) (m : DenseModel) (now : ℤ) : SessionKVState :=
  (getOrCreate sys id m.config now).1.stateOf (getOrCreate sys id m.config now).2

/-- `save_to_disk`. -/
def saveToDisk (sys : System) (id : Bytes) : System :=
  if id = [] then sys
  else
    match find id sys.sessions with
    | some h => sys.save id h
    | none => sys

/-- The steps of requests. -/
inductive Action
  | get (id : Bytes) (model : DenseModel) (now : ℤ)
  | generate (request : ℕ) (call : Call)
  | save (request : ℕ)
  | finish (request : ℕ)

/-- `get_or_create` of a new request. -/
def getStep (sys : System) (id : Bytes) (m : DenseModel) (now : ℤ) : System :=
  { (getOrCreate sys id m.config now).1 with
    requests := sys.requests ++ [⟨id, m, (getOrCreate sys id m.config now).2⟩] }

/-- `generate` of the request `r`. -/
def generateStep (sys : System) (r : Request) (c : Call) : System :=
  { sys with
    heap := sys.heap.set r.handle (generate r.model (sys.stateOf r.handle) c).session
    latest := Function.update sys.latest r.id (some (generate r.model (sys.stateOf r.handle) c).session) }

/-- One step; steps of a request that is not there do nothing. -/
def step (sys : System) : Action → System
  | .get id m now => getStep sys id m now
  | .generate i c => (sys.requests[i]?).elim sys fun r => generateStep sys r c
  | .save i => (sys.requests[i]?).elim sys fun r => saveToDisk sys r.id
  | .finish i => { sys with requests := sys.requests.eraseIdx i }

/-! ### What the operations change -/

section Frame

variable {sys : System} {h : ℕ} {s : SessionKVState}

theorem stateOf_set_self {heap : List SessionKVState} (hh : h < heap.length) :
    (heap.set h s).getD h {} = s := by
  simp [List.getD, hh]

theorem stateOf_set_ne {heap : List SessionKVState} {h' : ℕ} (hne : h' ≠ h) :
    (heap.set h s).getD h' {} = heap.getD h' {} := by
  simp [List.getD, List.getElem?_set_ne (Ne.symm hne)]

theorem stateOf_append {heap : List SessionKVState} {h' : ℕ} (hh : h' < heap.length) :
    (heap ++ [s]).getD h' {} = heap.getD h' {} := by
  simp [List.getD, List.getElem?_append_left hh]

theorem stateOf_append_self {heap : List SessionKVState} : (heap ++ [s]).getD heap.length {} = s := by
  simp [List.getD]

/-- Saving writes the file of one session, if that is initialised and its file opens, and nothing else. -/
theorem save_cases (sys : System) (id : Bytes) (h : ℕ) :
    (((sys.stateOf h).isInitialized = false ∨ sys.files.writable (sys.files.file id) = false) ∧
      sys.save id h = sys) ∨
    ∃ f, saveToDiskInternal (sys.stateOf h) = some f ∧ sys.files.writable (sys.files.file id) = true ∧
      sys.save id h = { sys with
        disk := Function.update sys.disk (sys.files.file id) (some f)
        written := Function.update sys.written (sys.files.file id) (some (id, sys.stateOf h)) } := by
  unfold System.save
  cases hf : saveToDiskInternal (sys.stateOf h) with
  | none => exact Or.inl ⟨Or.inl (save_eq_none_iff.mp hf), rfl⟩
  | some f =>
    cases hw : sys.files.writable (sys.files.file id) with
    | false => exact Or.inl ⟨Or.inr rfl, rfl⟩
    | true => exact Or.inr ⟨f, rfl, rfl, rfl⟩

/-- What saving leaves as it is. -/
theorem save_frame (sys : System) (id : Bytes) (h : ℕ) :
    (sys.save id h).maxActive = sys.maxActive ∧ (sys.save id h).heap = sys.heap ∧
      (sys.save id h).sessions = sys.sessions ∧ (sys.save id h).requests = sys.requests ∧
      (sys.save id h).latest = sys.latest ∧ (sys.save id h).files = sys.files := by
  rcases save_cases sys id h with ⟨-, heq⟩ | ⟨f, -, -, heq⟩ <;> rw [heq] <;>
    exact ⟨rfl, rfl, rfl, rfl, rfl, rfl⟩

theorem getOrCreate_found {id : Bytes} {c : ModelConfig} {now : ℤ} (hid : id ≠ [])
    (hf : find id sys.sessions = some h) : getOrCreate sys id c now =
      ({ sys with heap := sys.heap.set h (touched (sys.stateOf h) now) }, h) := by
  unfold getOrCreate
  rw [if_neg hid, hf]

theorem getOrCreate_missing {id : Bytes} {c : ModelConfig} {now : ℤ} {room : System} (hid : id ≠ [])
    (hf : find id sys.sessions = none) (hroom : makeRoom sys.sessions.length sys = room) :
    getOrCreate sys id c now = ({ room with
      heap := room.heap ++ [createState c now (room.read id)]
      sessions := insertBy bytesLt id room.heap.length room.sessions }, room.heap.length) := by
  unfold getOrCreate
  rw [if_neg hid, hf, ← hroom]

theorem step_generate {i : ℕ} {r : Request} {c : Call} (hr : sys.requests[i]? = some r) :
    step sys (.generate i c) = generateStep sys r c := by
  rw [step, hr]
  rfl

theorem step_save {i : ℕ} {r : Request} (hr : sys.requests[i]? = some r) :
    step sys (.save i) = saveToDisk sys r.id := by
  rw [step, hr]
  rfl

theorem saveToDisk_found {id : Bytes} (hid : id ≠ []) (hf : find id sys.sessions = some h) :
    saveToDisk sys id = sys.save id h := by
  unfold saveToDisk
  rw [if_neg hid, hf]

/-- The loop keeps its candidate or takes a later entry. -/
theorem oldestLoop_mem (sys : System) : ∀ (es : List (Bytes × ℕ)) (e : Bytes × ℕ) (time : ℤ),
    ∃ v, oldestLoop sys es (some e) time = some v ∧ (v = e ∨ v ∈ es)
  | [], e, _ => ⟨e, rfl, Or.inl rfl⟩
  | d :: es, e, time => by
    unfold oldestLoop
    split_ifs
    · obtain ⟨v, hv, hmem⟩ := oldestLoop_mem sys es d (sys.stateOf d.2).lastAccessedMs
      exact ⟨v, hv, Or.inr (List.mem_cons.mpr hmem)⟩
    · obtain ⟨v, hv, hmem⟩ := oldestLoop_mem sys es e time
      exact ⟨v, hv, hmem.imp id (List.mem_cons_of_mem d)⟩

/-- The loop ends with an idle session if it starts with one, or passes an idle one that is older. -/
theorem oldestLoop_idle (sys : System) : ∀ (es : List (Bytes × ℕ)) (e v : Bytes × ℕ) (time : ℤ),
    sys.idle e.2 = true ∨ (∃ d ∈ es, sys.idle d.2 = true ∧ (sys.stateOf d.2).lastAccessedMs < time) →
    oldestLoop sys es (some e) time = some v → sys.idle v.2 = true
  | [], e, v, time, h, hv => by
    rw [← Option.some.inj hv]
    simpa using h
  | d :: es, e, v, time, h, hv => by
    unfold oldestLoop at hv
    split_ifs at hv with hd
    · simp only [Option.isNone_some, Bool.or_false, Bool.and_eq_true, decide_eq_true_eq] at hd
      exact oldestLoop_idle sys es d v _ (Or.inl hd.1) hv
    · refine oldestLoop_idle sys es e v time (h.imp id ?_) hv
      rintro ⟨d', hmem, hidle, hlt⟩
      rcases List.mem_cons.mp hmem with rfl | hmem
      · simp [hidle, hlt] at hd
      · exact ⟨d', hmem, hidle, hlt⟩

/-- The first session of the map is idle, or some idle session was used before it: then the session
that is evicted is idle. -/
def VictimIdle (sys : System) : Prop :=
  ∀ e es, sys.sessions = e :: es → sys.idle e.2 = true ∨
    ∃ d ∈ es, sys.idle d.2 = true ∧ (sys.stateOf d.2).lastAccessedMs < (sys.stateOf e.2).lastAccessedMs

/-- The session that the scan finds is saved and taken away. -/
theorem evictOldest_eq {v : Bytes × ℕ} (h : sys.oldest = some v) :
    evictOldest sys = { sys.save v.1 v.2 with sessions := erase v.1 sys.sessions } := by
  rw [evictOldest, h]

/-- A session is found as long as the times are below the largest `int64_t`. -/
theorem oldest_spec (hne : sys.sessions ≠ [])
    (hclock : ∀ e ∈ sys.sessions, (sys.stateOf e.2).lastAccessedMs < 2 ^ 63 - 1) :
    ∃ v ∈ sys.sessions, sys.oldest = some v ∧ (VictimIdle sys → sys.idle v.2 = true) := by
  obtain ⟨e, es, hes⟩ := List.exists_cons_of_ne_nil hne
  have hstart : sys.oldest = oldestLoop sys es (some e) (sys.stateOf e.2).lastAccessedMs := by
    have he := hclock e (by rw [hes]; exact List.mem_cons_self)
    unfold System.oldest
    rw [hes, oldestLoop, if_pos (by simpa only [Option.isNone_none, Bool.or_true, Bool.true_and,
      decide_eq_true_eq] using he)]
  obtain ⟨v, hv, hmem⟩ := oldestLoop_mem sys es e (sys.stateOf e.2).lastAccessedMs
  refine ⟨v, by rw [hes]; exact List.mem_cons.mpr hmem, hstart.trans hv, fun hidle => ?_⟩
  exact oldestLoop_idle sys es e v _ (hidle e es hes) hv

end Frame

end DenseLite.SessionKV.Manager
