import DenseLite.Engine.Context
import DenseLite.Lib.Live
import DenseLite.SessionKV.Manager

/-! # The tool catalogues of the sessions

`SessionToolRegistry`: at most 32 catalogues, the least recently used one evicted for a new one. What
the life cycle of a session needs of it: only `register_tools` makes a catalogue, and only for the
session it is called for; `clear_session` removes it. -/

namespace DenseLite.Engine.ToolRegistry

open DenseLite.Lib.ByteStream DenseLite.Lib.KeyMap DenseLite.Lib.Live DenseLite.Engine.Context
open DenseLite.SessionKV.Manager (bytesLt)

/-- The tools of a session by their names. -/
abbrev Catalog := List (Bytes × OpenAITool)

/-- `SessionToolRegistry`, with its two maps in the order of their keys. -/
structure Registry where
  sessionCatalogs : List (Bytes × Catalog)
  accessTimestamps : List (Bytes × ℤ)
deriving DecidableEq, Repr

/-- `max_sessions_`. -/
def maxSessions : ℕ := 32

/-- `m[k] = a`. -/
def assign {α : Type} (k : Bytes) (a : α) (m : List (Bytes × α)) : List (Bytes × α) :=
  insertBy bytesLt k a (erase k m)

/-- The scan of `evict_oldest_locked`: the oldest session so far, and its time. -/
def oldestLoop : List (Bytes × ℤ) → Option Bytes → ℤ → Option Bytes
  | [], oldest, _ => oldest
  | e :: es, oldest, time => if e.2 < time then oldestLoop es (some e.1) e.2 else oldestLoop es oldest time

/-- The registry without a session. -/
def Registry.drop (r : Registry) (id : Bytes) : Registry :=
  { sessionCatalogs := erase id r.sessionCatalogs, accessTimestamps := erase id r.accessTimestamps }

/-- `evict_oldest_locked`; without a time below the largest `int64_t`, the first catalogue goes. -/
def Registry.evictOldest (r : Registry) : Registry :=
  match r.sessionCatalogs with
  | [] => r
  | first :: _ => r.drop ((oldestLoop r.accessTimestamps none (2 ^ 63 - 1)).getD first.1)

/-- The loop of `register_tools` that makes room, at most `left` times around. -/
def makeRoom (id : Bytes) : (left : ℕ) → Registry → Registry
  | 0, r => r
  | left + 1, r =>
    if maxSessions ≤ r.sessionCatalogs.length ∧ find id r.sessionCatalogs = none then
      makeRoom id left r.evictOldest
    else r

/-- The number of entries in the two maps, which bounds the evictions. -/
def Registry.size (r : Registry) : ℕ := r.sessionCatalogs.length + r.accessTimestamps.length

/-- `register_tools`. -/
def Registry.registerTools (r : Registry) (id : Bytes) (tools : List OpenAITool) (now : ℤ) : Registry :=
  if id = [] ∨ tools = [] then r
  else
    let r := makeRoom id r.size r
    let catalog := tools.foldl (fun c t => if t.name = [] then c else assign t.name t c)
      ((find id r.sessionCatalogs).getD [])
    { sessionCatalogs := assign id catalog r.sessionCatalogs
      accessTimestamps := assign id now r.accessTimestamps }

/-- `has_tools`. -/
def Registry.hasTools (r : Registry) (id : Bytes) : Bool :=
  id ≠ [] ∧ (find id r.sessionCatalogs).any fun c => !c.isEmpty

/-- The registry after `has_tools`, and `get_all_tools` where it follows: the session was used. -/
def Registry.touch (r : Registry) (id : Bytes) (now : ℤ) : Registry :=
  if r.hasTools id then { r with accessTimestamps := assign id now r.accessTimestamps } else r

/-- `clear_session`. -/
def Registry.clearSession (r : Registry) (id : Bytes) : Registry := if id = [] then r else r.drop id

/-! ### The loop makes room -/

theorem erase_length_le {α : Type} (k : Bytes) (m : List (Bytes × α)) : (erase k m).length ≤ m.length :=
  List.length_filter_le _ _

theorem erase_length_lt {α : Type} {k : Bytes} {m : List (Bytes × α)} (h : k ∈ keys m) :
    (erase k m).length < m.length := by
  obtain ⟨e, he, rfl⟩ := List.mem_map.mp h
  exact List.length_filter_lt_length_iff_exists.mpr ⟨e, he, by simp⟩

theorem oldestLoop_mem : ∀ (es : List (Bytes × ℤ)) (oldest : Option Bytes) (time : ℤ) (id : Bytes),
    oldestLoop es oldest time = some id → id ∈ keys es ∨ oldest = some id
  | [], _, _, _, h => Or.inr h
  | e :: es, oldest, time, id, h => by
    unfold oldestLoop at h
    split_ifs at h
    · rcases oldestLoop_mem es _ _ id h with h | h
      · exact Or.inl (List.mem_cons_of_mem _ h)
      · exact Or.inl (Option.some.inj h ▸ List.mem_cons_self)
    · rcases oldestLoop_mem es _ _ id h with h | h
      · exact Or.inl (List.mem_cons_of_mem _ h)
      · exact Or.inr h

theorem Registry.size_drop_lt {r : Registry} {id : Bytes}
    (h : id ∈ keys r.sessionCatalogs ∨ id ∈ keys r.accessTimestamps) : (r.drop id).size < r.size := by
  have hcatalogs := erase_length_le id r.sessionCatalogs
  have htimes := erase_length_le id r.accessTimestamps
  unfold Registry.size Registry.drop
  rcases h with h | h
  · have hlt := erase_length_lt h
    dsimp only
    omega
  · have hlt := erase_length_lt h
    dsimp only
    omega

/-- While there are catalogues, an eviction removes an entry. -/
theorem Registry.size_evictOldest_lt {r : Registry} (h : r.sessionCatalogs ≠ []) :
    r.evictOldest.size < r.size := by
  unfold Registry.evictOldest
  split
  · next hnil => exact absurd hnil h
  · next first rest hcons =>
    refine Registry.size_drop_lt ?_
    cases hold : oldestLoop r.accessTimestamps none (2 ^ 63 - 1) with
    | none => exact Or.inl (hcons ▸ List.mem_cons_self)
    | some id =>
      rcases oldestLoop_mem _ _ _ id hold with h | h
      · exact Or.inr h
      · exact absurd h (by simp)

/-- **The loop of `register_tools` ends**: the given bound is enough for its condition to fail. -/
theorem makeRoom_done (id : Bytes) : ∀ (left : ℕ) (r : Registry), r.size ≤ left →
    ¬ (maxSessions ≤ (makeRoom id left r).sessionCatalogs.length ∧
      find id (makeRoom id left r).sessionCatalogs = none)
  | 0, r, hsize => by
    rintro ⟨hfull, -⟩
    unfold maxSessions at hfull
    unfold makeRoom at hfull
    unfold Registry.size at hsize
    omega
  | left + 1, r, hsize => by
    unfold makeRoom
    split_ifs with hfull
    · have hne : r.sessionCatalogs ≠ [] := by
        intro hnil
        rw [hnil] at hfull
        exact absurd hfull.1 (by decide)
      have hlt := Registry.size_evictOldest_lt hne
      exact makeRoom_done id left r.evictOldest (by omega)
    · exact hfull

/-! ### Whose catalogue there is -/

section Catalogs

variable {r : Registry} {id other : Bytes}

theorem Registry.find_drop (h : find other r.sessionCatalogs = none) :
    find other (r.drop id).sessionCatalogs = none := by
  rw [find_eq_none_iff] at h ⊢
  exact fun hmem => h (((erase_sublist id r.sessionCatalogs).map Prod.fst).subset hmem)

theorem find_makeRoom (h : find other r.sessionCatalogs = none) (left : ℕ) :
    find other (makeRoom id left r).sessionCatalogs = none := by
  induction left generalizing r with
  | zero => exact h
  | succ left ih =>
    unfold makeRoom
    split_ifs
    · refine ih ?_
      unfold Registry.evictOldest
      split
      · exact h
      · exact Registry.find_drop h
    · exact h

theorem find_assign_of_ne {α : Type} {m : List (Bytes × α)} {a : α} (hne : other ≠ id)
    (h : find other m = none) : find other (assign id a m) = none := by
  rw [find_eq_none_iff] at h ⊢
  intro hmem
  obtain ⟨b, hb⟩ := mem_keys.mp hmem
  rcases mem_insertBy.mp hb with heq | hb
  · exact hne (Prod.ext_iff.mp heq).1
  · exact h (mem_keys.mpr ⟨b, (mem_erase.mp hb).1⟩)

/-- Registering tools makes no catalogue for another session. -/
theorem Registry.find_registerTools (hne : other ≠ id) (h : find other r.sessionCatalogs = none)
    (tools : List OpenAITool) (now : ℤ) :
    find other (r.registerTools id tools now).sessionCatalogs = none := by
  unfold Registry.registerTools
  split_ifs
  · exact h
  · exact find_assign_of_ne hne (find_makeRoom h _)

theorem Registry.touch_catalogs (r : Registry) (id : Bytes) (now : ℤ) :
    (r.touch id now).sessionCatalogs = r.sessionCatalogs := by
  unfold Registry.touch
  split_ifs <;> rfl

theorem Registry.find_clearSession_self (hid : id ≠ []) :
    find id (r.clearSession id).sessionCatalogs = none := by
  rw [Registry.clearSession, if_neg hid]
  exact find_erase_self

theorem Registry.find_clearSession (h : find other r.sessionCatalogs = none) :
    find other (r.clearSession id).sessionCatalogs = none := by
  unfold Registry.clearSession
  split_ifs
  · exact h
  · exact Registry.find_drop h

end Catalogs

end DenseLite.Engine.ToolRegistry
