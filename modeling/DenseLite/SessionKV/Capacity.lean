import DenseLite.Lib.Live
import DenseLite.Lib.While
import DenseLite.SessionKV.Eviction

/-! # Room for a session

`get_or_create` evicts sessions until there are fewer than the limit. A round removes a session as long as there is one
whose time is below the largest `int64_t`, and else it changes nothing: the loop ends exactly when fewer sessions than
the limit have that time, and with the limit 0 it never ends (`exits_makesRoom_iff`). A session that is found leaves
the others where they are, also when the limit has been lowered below their number (`returnsWithin_iff`). -/

namespace DenseLite.SessionKV.Capacity

open DenseLite.Lib.ByteStream DenseLite.Lib.KeyMap DenseLite.Lib.Live DenseLite.Lib.While
open DenseLite.Infer.State DenseLite.SessionKV.Dlkv DenseLite.SessionKV.Manager DenseLite.SessionKV.Eviction

/-! ### One call -/

/-- The condition of the loop of `get_or_create`. -/
def Full (sys : System) : Prop := sys.maxActive ≤ sys.sessions.length

/-- The rest of `get_or_create`, when there is room: the session is made, from its file when there is a model. -/
def entered (room : System) (id : Bytes) (config : Option ModelConfig) (now : ℤ) : System :=
  { room with
    heap := room.heap ++ [(config.map fun c => createState c now (room.read id)).getD (touched {} now)]
    sessions := insertBy bytesLt id room.heap.length room.sessions }

/-- `get_or_create` returns, and the system is `out` then. -/
def Returns (sys : System) (id : Bytes) (config : Option ModelConfig) (now : ℤ) (out : System) : Prop :=
  if id = [] then out = { sys with heap := sys.heap ++ [{}] }
  else
    match find id sys.sessions with
    | some h => out = { sys with heap := sys.heap.set h (touched (sys.stateOf h) now) }
    | none => ∃ room, Exits Full evictOldest sys room ∧ out = entered room id config now

/-- `get_or_create` returns with at most `max limit 1` sessions. -/
def ReturnsWithin (sys : System) (id : Bytes) (config : Option ModelConfig) (now : ℤ) : Prop :=
  ∃ out, Returns sys id config now out ∧ out.sessions.length ≤ max sys.maxActive 1

/-- The number of sessions with the largest time, which no eviction takes. -/
def stuck (sys : System) : ℕ := count (fun h => decide ¬ (sys.stateOf h).lastAccessedMs < 2 ^ 63 - 1) sys.sessions

/-! ### One round -/

section Round

variable {sys : System}

/-- An eviction takes a session with a time below the largest one, if there is one. -/
theorem evictOldest_cases (sys : System) :
    (∀ e ∈ sys.sessions, ¬ time sys e < 2 ^ 63 - 1) ∧ evictOldest sys = sys ∨
      ∃ v ∈ sys.sessions, time sys v < 2 ^ 63 - 1 ∧
        evictOldest sys = { sys.save v.1 v.2 with sessions := erase v.1 sys.sessions } := by
  rcases oldestLoop_none sys sys.sessions with ⟨hfind, hloop⟩ | ⟨f, before, after, hsplit, hfind, -, hloop⟩
  · refine Or.inl ⟨fun e he hlt => ?_, ?_⟩
    · exact List.find?_eq_none.mp hfind e he ((isCandidate_iff sys).mpr hlt)
    · rw [evictOldest, System.oldest, hloop]
  · obtain ⟨v, hv, hwho, -⟩ := oldestLoop_some sys after f
    have hf : time sys f < 2 ^ 63 - 1 := (isCandidate_iff sys).mp (List.find?_some hfind)
    refine Or.inr ⟨v, ?_, ?_, ?_⟩
    · rw [hsplit]
      rcases hwho with rfl | ⟨hmem, -⟩
      · simp
      · simp [hmem]
    · rcases hwho with rfl | ⟨-, -, hlt⟩
      · exact hf
      · exact hlt.trans hf
    · rw [evictOldest, System.oldest, hloop, hv]

theorem stuck_le (sys : System) : stuck sys ≤ sys.sessions.length := List.countP_le_length

/-- Where every session is stuck, none has a time below the largest one. -/
theorem length_le_stuck (h : ∀ e ∈ sys.sessions, ¬ time sys e < 2 ^ 63 - 1) : sys.sessions.length ≤ stuck sys :=
  (List.countP_eq_length.mpr fun e he => decide_eq_true (h e he)).ge

/-- What a round leaves as it is, when the ids of the sessions are distinct. -/
theorem evictOldest_frame (hkeys : (keys sys.sessions).Nodup) :
    (keys (evictOldest sys).sessions).Nodup ∧ (evictOldest sys).maxActive = sys.maxActive ∧
      stuck (evictOldest sys) = stuck sys := by
  rcases evictOldest_cases sys with ⟨-, heq⟩ | ⟨v, hv, hlt, heq⟩
  · rw [heq]
    exact ⟨hkeys, rfl, rfl⟩
  · obtain ⟨hmax, hheap, -⟩ := save_frame sys v.1 v.2
    have hstate : ∀ h, (evictOldest sys).stateOf h = sys.stateOf h := fun h => by
      rw [heq]
      exact congrArg (List.getD · h {}) hheap
    have hcount := count_erase (p := fun h => decide ¬ (sys.stateOf h).lastAccessedMs < 2 ^ 63 - 1) hkeys
      (find_of_mem hkeys hv)
    rw [if_neg (by rw [decide_eq_true_eq]; exact not_not.mpr hlt), Nat.add_zero] at hcount
    refine ⟨?_, ?_, ?_⟩
    · rw [heq]
      exact nodup_keys_erase hkeys
    · rw [heq]
      exact hmax
    · unfold stuck
      rw [hcount]
      simp only [hstate]
      rw [heq]

theorem length_evictOldest_lt (h : stuck sys < sys.sessions.length) :
    (evictOldest sys).sessions.length < sys.sessions.length := by
  rcases evictOldest_cases sys with ⟨hstuck, -⟩ | ⟨v, hv, -, heq⟩
  · exact absurd (length_le_stuck hstuck) (Nat.not_le.mpr h)
  · rw [heq]
    exact List.length_filter_lt_length_iff_exists.mpr ⟨v, hv, by simp⟩

end Round

/-! ### The loop -/

section Loop

variable {sys room : System} {id : Bytes} {config : Option ModelConfig} {now : ℤ}

/-- **The loop of `get_or_create` ends** exactly when fewer sessions than the limit have the largest time. -/
theorem exits_makesRoom_iff (hkeys : (keys sys.sessions).Nodup) :
    (∃ room, Exits Full evictOldest sys room) ↔ stuck sys < sys.maxActive := by
  constructor
  · intro hexits
    by_contra hstuck
    refine not_exits_of_invariant (I := fun s => (keys s.sessions).Nodup ∧ s.maxActive ≤ stuck s) (fun s hs => ?_)
      ⟨hkeys, Nat.not_lt.mp hstuck⟩ hexits
    obtain ⟨hnodup, hmax, hsame⟩ := evictOldest_frame hs.1
    refine ⟨hs.2.trans (stuck_le s), hnodup, ?_⟩
    rw [hmax, hsame]
    exact hs.2
  · intro hstuck
    refine exits_of_measure (I := fun s => (keys s.sessions).Nodup ∧ stuck s < s.maxActive)
      (fun s => s.sessions.length) (fun s hs hfull => ?_) ⟨hkeys, hstuck⟩
    obtain ⟨hnodup, hmax, hsame⟩ := evictOldest_frame hs.1
    refine ⟨⟨hnodup, ?_⟩, length_evictOldest_lt (hs.2.trans_le hfull)⟩
    rw [hmax, hsame]
    exact hs.2

theorem maxActive_of_exits (h : Exits Full evictOldest sys room) : room.maxActive = sys.maxActive := by
  refine h.invariant (I := fun s => s.maxActive = sys.maxActive) (fun s hs _ => ?_) rfl
  rw [← hs]
  rcases evictOldest_cases s with ⟨-, heq⟩ | ⟨v, -, -, heq⟩
  · rw [heq]
  · rw [heq]
    exact (save_frame s v.1 v.2).1

theorem length_entered (room : System) (id : Bytes) (config : Option ModelConfig) (now : ℤ) :
    (entered room id config now).sessions.length = room.sessions.length + 1 :=
  (insertBy_perm bytesLt id room.heap.length room.sessions).length_eq

/-- **A call of `get_or_create` returns within the limit** exactly when the loop ends, for a session that is not there;
and for one that is, when the number of sessions was within the limit before. -/
theorem returnsWithin_iff (hkeys : (keys sys.sessions).Nodup) : ReturnsWithin sys id config now ↔
    if id ≠ [] ∧ find id sys.sessions = none then stuck sys < sys.maxActive
    else sys.sessions.length ≤ max sys.maxActive 1 := by
  unfold ReturnsWithin Returns
  by_cases hid : id = []
  · rw [if_neg fun h => h.1 hid]
    simp only [if_pos hid]
    exact exists_eq_left
  · simp only [if_neg hid]
    cases hfind : find id sys.sessions with
    | some h =>
      rw [if_neg fun h => by cases h.2]
      exact exists_eq_left
    | none =>
      rw [if_pos ⟨hid, rfl⟩, ← exits_makesRoom_iff hkeys]
      constructor
      · rintro ⟨out, ⟨room, hexits, -⟩, -⟩
        exact ⟨room, hexits⟩
      · rintro ⟨room, hexits⟩
        refine ⟨_, ⟨room, hexits, rfl⟩, ?_⟩
        have hroom : ¬ room.maxActive ≤ room.sessions.length := hexits.not_cond
        rw [maxActive_of_exits hexits] at hroom
        rw [length_entered]
        omega

/-- Where the loop ends, the rounds that the number of sessions bounds are enough for it. -/
theorem makeRoom_of_exits (h : Exits Full evictOldest sys room) :
    ∀ {n : ℕ}, sys.sessions.length ≤ n → makeRoom n sys = room := by
  refine h.bounded (fun s => s.sessions.length) (fun n s hnot => ?_) (fun n s hfull => if_pos hfull)
    fun s hfull ⟨t, hrest⟩ => ?_
  · cases n with
    | zero => rfl
    | succ n => exact if_neg hnot
  · rcases evictOldest_cases s with ⟨-, heq⟩ | ⟨v, hv, -, heq⟩
    · -- a round that changes nothing would be followed by another one for ever
      rw [heq] at hrest
      refine absurd ⟨t, hrest⟩ (not_exits_of_invariant (I := (· = s)) ?_ rfl)
      rintro _ rfl
      exact ⟨hfull, heq⟩
    · rw [heq]
      exact List.length_filter_lt_length_iff_exists.mpr ⟨v, hv, by simp⟩

/-- A call that returns leaves what `getOrCreate` computes. -/
theorem Returns.eq_getOrCreate {c : ModelConfig} {out : System} (h : Returns sys id (some c) now out) :
    out = (getOrCreate sys id c now).1 := by
  unfold Returns at h
  unfold getOrCreate
  by_cases hid : id = []
  · rw [if_pos hid] at h ⊢
    exact h
  · rw [if_neg hid] at h ⊢
    cases hfind : find id sys.sessions with
    | some _ =>
      rw [hfind] at h
      exact h
    | none =>
      rw [hfind] at h
      obtain ⟨room, hexits, rfl⟩ := h
      dsimp only
      rw [makeRoom_of_exits hexits le_rfl]
      rfl

end Loop

end DenseLite.SessionKV.Capacity
