import DenseLite.Engine.ToolRegistry
import DenseLite.Lib.While
import DenseLite.SessionKV.Capacity

/-! # The limit of the tool catalogues

`register_tools` under any limit of `set_max_sessions`. Its loop goes on while there are as many catalogues as the
limit and none of the session. Every eviction removes an entry of one of the two maps, so with a positive limit the
loop ends in every state (`exits_full_iff`); with the limit 0 it goes on after the last catalogue is gone. -/

namespace DenseLite.Engine.ToolLimit

open DenseLite.Lib.ByteStream DenseLite.Lib.KeyMap DenseLite.Lib.Live DenseLite.Lib.While
open DenseLite.Engine.Context DenseLite.Engine.ToolRegistry
open DenseLite.SessionKV.Manager (bytesLt)

/-! ### One call -/

/-- The condition of the loop of `register_tools`. -/
def Full (limit : ℕ) (id : Bytes) (r : Registry) : Prop :=
  limit ≤ r.sessionCatalogs.length ∧ find id r.sessionCatalogs = none

instance (limit : ℕ) (id : Bytes) (r : Registry) : Decidable (Full limit id r) := inferInstanceAs (Decidable (_ ∧ _))

/-- The tools of a call go to the catalogue by their names; those without a name are left out. -/
def enterTools (catalog : Catalog) (tools : List OpenAITool) : Catalog :=
  tools.foldl (fun c t => if t.name = [] then c else assign t.name t c) catalog

/-- The rest of `register_tools`, when there is room. -/
def entered (r : Registry) (id : Bytes) (tools : List OpenAITool) (now : ℤ) : Registry where
  sessionCatalogs := assign id (enterTools ((find id r.sessionCatalogs).getD []) tools) r.sessionCatalogs
  accessTimestamps := assign id now r.accessTimestamps

/-- `register_tools` returns, and the registry is `out` then. -/
def Returns (limit : ℕ) (r : Registry) (id : Bytes) (tools : List OpenAITool) (now : ℤ) (out : Registry) : Prop :=
  if id = [] ∨ tools = [] then out = r
  else ∃ room, Exits (Full limit id) Registry.evictOldest r room ∧ out = entered room id tools now

/-- `register_tools` returns with at most `max limit 1` catalogues. -/
def ReturnsWithin (limit : ℕ) (r : Registry) (id : Bytes) (tools : List OpenAITool) (now : ℤ) : Prop :=
  ∃ out, Returns limit r id tools now out ∧ out.sessionCatalogs.length ≤ max limit 1

/-- The loop that makes room under the limit, at most `left` times around. -/
def makeRoomFor (limit : ℕ) (id : Bytes) : (left : ℕ) → Registry → Registry
  | 0, r => r
  | left + 1, r => if Full limit id r then makeRoomFor limit id left r.evictOldest else r

/-- `register_tools` under the limit. -/
def registerToolsFor (limit : ℕ) (r : Registry) (id : Bytes) (tools : List OpenAITool) (now : ℤ) : Registry :=
  if id = [] ∨ tools = [] then r else entered (makeRoomFor limit id r.size r) id tools now

/-! ### The loop -/

section Loop

variable {limit : ℕ} {r room : Registry} {id other : Bytes} {tools : List OpenAITool} {now : ℤ}

theorem find_evictOldest (h : find other r.sessionCatalogs = none) :
    find other r.evictOldest.sessionCatalogs = none := by
  unfold Registry.evictOldest
  split
  · exact h
  · exact Registry.find_drop h

/-- While the condition holds under a positive limit, there is a catalogue to evict. -/
theorem Full.size_evictOldest_lt (hlimit : 0 < limit) (h : Full limit id r) : r.evictOldest.size < r.size := by
  refine Registry.size_evictOldest_lt fun hnil => ?_
  have hfull := h.1
  rw [hnil] at hfull
  exact absurd hlimit (Nat.not_lt.mpr hfull)

/-- **The loop of `register_tools` ends** exactly when the limit is positive or the session has a catalogue. -/
theorem exits_full_iff : (∃ room, Exits (Full limit id) Registry.evictOldest r room) ↔
    0 < limit ∨ find id r.sessionCatalogs ≠ none := by
  constructor
  · intro hexits
    by_contra hnot
    rw [not_or, not_not] at hnot
    refine not_exits_of_invariant (I := fun r => find id r.sessionCatalogs = none) (fun r hr => ?_) hnot.2 hexits
    exact ⟨⟨(Nat.not_lt.mp hnot.1).trans (Nat.zero_le _), hr⟩, find_evictOldest hr⟩
  · rintro (hlimit | hfound)
    · exact exits_of_measure (I := fun _ => True) Registry.size
        (fun r _ hfull => ⟨trivial, hfull.size_evictOldest_lt hlimit⟩) trivial
    · exact ⟨r, .done fun hfull => hfound hfull.2⟩

/-- Where the loop ends, the rounds that the number of entries bounds are enough for it. -/
theorem makeRoomFor_of_exits (hlimit : 0 < limit) (h : Exits (Full limit id) Registry.evictOldest r room) :
    ∀ {left : ℕ}, r.size ≤ left → makeRoomFor limit id left r = room := by
  refine h.bounded Registry.size (fun left r hnot => ?_) (fun left r hfull => if_pos hfull)
    fun r hfull _ => hfull.size_evictOldest_lt hlimit
  cases left with
  | zero => rfl
  | succ left => exact if_neg hnot

theorem makeRoomFor_maxSessions (id : Bytes) : ∀ (left : ℕ) (r : Registry),
    makeRoomFor maxSessions id left r = makeRoom id left r
  | 0, _ => rfl
  | left + 1, r => by
    rw [makeRoomFor, makeRoom, makeRoomFor_maxSessions id left]
    rfl

/-- Under the limit that the registry begins with, this is the function of the registry. -/
theorem registerToolsFor_maxSessions (r : Registry) (id : Bytes) (tools : List OpenAITool) (now : ℤ) :
    registerToolsFor maxSessions r id tools now = r.registerTools id tools now := by
  unfold registerToolsFor
  rw [makeRoomFor_maxSessions]
  rfl

/-! ### How many catalogues there are then -/

theorem length_assign {α : Type} (k : Bytes) (a : α) (m : List (Bytes × α)) :
    (assign k a m).length = (erase k m).length + 1 :=
  (insertBy_perm bytesLt k a (erase k m)).length_eq

theorem length_assign_of_none {α : Type} {k : Bytes} {m : List (Bytes × α)} (a : α) (h : find k m = none) :
    (assign k a m).length = m.length + 1 := by
  rw [length_assign, erase_eq_self h]

theorem length_assign_of_some {α : Type} {k : Bytes} {m : List (Bytes × α)} {b : α} (a : α) (hkeys : (keys m).Nodup)
    (h : find k m = some b) : (assign k a m).length = m.length := by
  rw [length_assign, (perm_cons_erase hkeys h).length_eq, List.length_cons]

theorem find_of_exits (h : Exits (Full limit id) Registry.evictOldest r room)
    (hfind : find other r.sessionCatalogs = none) : find other room.sessionCatalogs = none :=
  h.invariant (I := fun r => find other r.sessionCatalogs = none) (fun _ hr _ => find_evictOldest hr) hfind

/-- **A call of `register_tools` returns within the limit** exactly when the limit is positive, for a session without
a catalogue; and else when the number of catalogues was within the limit before. -/
theorem returnsWithin_iff (hkeys : (keys r.sessionCatalogs).Nodup) : ReturnsWithin limit r id tools now ↔
    if id ≠ [] ∧ tools ≠ [] ∧ find id r.sessionCatalogs = none then 0 < limit
    else r.sessionCatalogs.length ≤ max limit 1 := by
  unfold ReturnsWithin Returns
  by_cases hskip : id = [] ∨ tools = []
  · rw [if_neg fun h => hskip.elim h.1 h.2.1]
    simp only [if_pos hskip]
    exact exists_eq_left
  · simp only [if_neg hskip]
    rw [not_or] at hskip
    cases hfind : find id r.sessionCatalogs with
    | some c =>
      -- the loop is not entered, and the catalogue is replaced
      rw [if_neg fun h => by cases h.2.2]
      have hexits : Exits (Full limit id) Registry.evictOldest r r := .done fun hfull => by
        cases hfind.symm.trans hfull.2
      have hlength := length_assign_of_some (enterTools ((find id r.sessionCatalogs).getD []) tools) hkeys hfind
      constructor
      · rintro ⟨_, ⟨room, hroom, rfl⟩, hle⟩
        rw [hroom.unique hexits] at hle
        exact hlength ▸ hle
      · exact fun hle => ⟨_, ⟨r, hexits, rfl⟩, hlength.trans_le hle⟩
    | none =>
      rw [if_pos ⟨hskip.1, hskip.2, rfl⟩]
      constructor
      · rintro ⟨_, ⟨room, hroom, -⟩, -⟩
        exact (exits_full_iff.mp ⟨room, hroom⟩).resolve_right (not_not.mpr hfind)
      · intro hlimit
        obtain ⟨room, hroom⟩ := exits_full_iff.mpr (Or.inl hlimit)
        refine ⟨_, ⟨room, hroom, rfl⟩, ?_⟩
        have hnone := find_of_exits hroom hfind
        have hlt : room.sessionCatalogs.length < limit := Nat.not_le.mp fun hle => hroom.not_cond ⟨hle, hnone⟩
        have hlength := length_assign_of_none (enterTools ((find id room.sessionCatalogs).getD []) tools) hnone
        exact hlength.trans_le (by omega)

end Loop

/-! ### Both caches -/

/-- **The calls that make room return within their limits.** A new session of `get_or_create` is there within the limit
exactly when fewer sessions than the limit have the largest time, and a new catalogue of `register_tools` exactly when
the limit is positive; all other calls do so when the limit was met before. -/
theorem limits_iff (sys : SessionKV.Manager.System) (r : Registry) (hsessions : (keys sys.sessions).Nodup)
    (hcatalogs : (keys r.sessionCatalogs).Nodup) (id : Bytes) (config : Option Infer.State.ModelConfig)
    (limit : ℕ) (tools : List OpenAITool) (now : ℤ) :
    (SessionKV.Capacity.ReturnsWithin sys id config now ↔
      if id ≠ [] ∧ find id sys.sessions = none then SessionKV.Capacity.stuck sys < sys.maxActive
      else sys.sessions.length ≤ max sys.maxActive 1) ∧
    (ReturnsWithin limit r id tools now ↔
      if id ≠ [] ∧ tools ≠ [] ∧ find id r.sessionCatalogs = none then 0 < limit
      else r.sessionCatalogs.length ≤ max limit 1) :=
  ⟨SessionKV.Capacity.returnsWithin_iff hsessions, returnsWithin_iff hcatalogs⟩

/-- The tool of the examples. -/
def readTool : OpenAITool := { type := [], name := [0x72], description := [], parametersSchema := [] }

/-- A manager whose only place has an idle session. -/
def fullManager : SessionKV.Manager.System where
  maxActive := 1
  heap := [{ lastAccessedMs := 7 }]
  sessions := [([0x61], 0)]

/-- A registry whose only place has the catalogue of an idle session. -/
def fullRegistry : Registry := ⟨[([0x61], [([0x72], readTool)])], [([0x61], 7)]⟩

/-- Where the limits are 1, a second session takes the place of the first one. -/
theorem capacity_one : SessionKV.Capacity.ReturnsWithin fullManager [0x73] none 9 ∧
    ReturnsWithin 1 fullRegistry [0x73] [readTool] 9 := by
  obtain ⟨hsessions, hcatalogs⟩ := limits_iff fullManager fullRegistry (by decide) (by decide) [0x73] none 1
    [readTool] 9
  exact ⟨hsessions.mpr (by decide), hcatalogs.mpr (by decide)⟩

/-- Where the limits are 0, the loops for a first session do not end. -/
theorem not_capacity_zero : ¬ SessionKV.Capacity.ReturnsWithin { maxActive := 0 } [0x73] none 0 ∧
    ¬ ReturnsWithin 0 ⟨[], []⟩ [0x73] [readTool] 0 := by
  constructor
  · exact fun h => absurd ((SessionKV.Capacity.returnsWithin_iff (by exact List.nodup_nil)).mp h) (by decide)
  · exact fun h => absurd ((returnsWithin_iff (by exact List.nodup_nil)).mp h) (by decide)

end DenseLite.Engine.ToolLimit
