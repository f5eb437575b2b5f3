import DenseLite.Engine.ToolLimit
import DenseLite.Lib.OrderedMap

/-! # The tool catalogues over a history of calls

What the registry holds after any calls under a positive limit: both maps have the same sessions (`Tracks`), each with
the time of its last use, so an eviction takes a session whose last use is the longest ago; and the catalogue of a
session has, for every name, the tool that was registered last (`registry_history`). -/

namespace DenseLite.Engine.ToolHistory

open DenseLite.Lib.ByteStream DenseLite.Lib.KeyMap DenseLite.Lib.Live DenseLite.Lib.While DenseLite.Lib.OrderedMap
open DenseLite.Engine.Context DenseLite.Engine.ToolRegistry DenseLite.Engine.ToolLimit

/-! ### Calls -/

/-- A call of the registry. -/
inductive Call
  | registerTools (id : Bytes) (tools : List OpenAITool)
  | hasTools (id : Bytes)
  | getAllTools (id : Bytes)
  | getToolsByNames (id : Bytes) (toolNames : List Bytes)
  | clearSession (id : Bytes)

/-- A call, and the time that the clock shows to it, an `int64_t`. -/
structure TimedCall where
  call : Call
  now : ℤ
  now_lt : now < 2 ^ 63

/-- A lookup that finds the session writes its time. -/
def lookedUp (r : Registry) (id : Bytes) (now : ℤ) : Registry :=
  if find id r.sessionCatalogs = none then r else { r with accessTimestamps := assign id now r.accessTimestamps }

/-- `get_all_tools`: what it returns. -/
def getAllTools (r : Registry) (id : Bytes) : List OpenAITool :=
  if id = [] then [] else ((find id r.sessionCatalogs).getD []).map Prod.snd

/-- `get_tools_by_names`: what it returns. -/
def getToolsByNames (r : Registry) (id : Bytes) (toolNames : List Bytes) : List OpenAITool :=
  if id = [] ∨ toolNames = [] then []
  else toolNames.filterMap fun name => find name ((find id r.sessionCatalogs).getD [])

/-- The registry after a call. -/
def after (limit : ℕ) (r : Registry) (c : TimedCall) : Registry :=
  match c.call with
  | .registerTools id tools => registerToolsFor limit r id tools c.now
  | .hasTools id => r.touch id c.now
  | .getAllTools id => if id = [] then r else lookedUp r id c.now
  | .getToolsByNames id toolNames => if id = [] ∨ toolNames = [] then r else lookedUp r id c.now
  | .clearSession id => r.clearSession id

/-- The registry after the calls of a history, the newest call first. -/
def registryAfter (limit : ℕ) : List TimedCall → Registry
  | [] => ⟨[], []⟩
  | c :: earlier => after limit (registryAfter limit earlier) c

/-! ### What a history says -/

/-- The call uses the session: it registers tools for it, or finds its catalogue. -/
def uses (r : Registry) (id : Bytes) : Call → Prop
  | .registerTools id' tools => id' = id ∧ id ≠ [] ∧ tools ≠ []
  | .hasTools id' => id' = id ∧ r.hasTools id = true
  | .getAllTools id' => id' = id ∧ id ≠ [] ∧ find id r.sessionCatalogs ≠ none
  | .getToolsByNames id' toolNames => id' = id ∧ id ≠ [] ∧ toolNames ≠ [] ∧ find id r.sessionCatalogs ≠ none
  | .clearSession _ => False

instance (r : Registry) (id : Bytes) : ∀ c : Call, Decidable (uses r id c)
  | .registerTools _ _ => inferInstanceAs (Decidable (_ ∧ _))
  | .hasTools _ => inferInstanceAs (Decidable (_ ∧ _))
  | .getAllTools _ => inferInstanceAs (Decidable (_ ∧ _))
  | .getToolsByNames _ _ => inferInstanceAs (Decidable (_ ∧ _))
  | .clearSession _ => inferInstanceAs (Decidable False)

/-- The time of the last call that used the session. -/
def lastUse (limit : ℕ) : List TimedCall → Bytes → Option ℤ
  | [], _ => none
  | c :: earlier, id =>
    if uses (registryAfter limit earlier) id c.call then some c.now else lastUse limit earlier id

/-- The tools that the call registers for the session. -/
def registeredBy (c : TimedCall) (id : Bytes) : List OpenAITool :=
  match c.call with
  | .registerTools id' tools => if id' = id ∧ id ≠ [] then tools else []
  | _ => []

/-- The last tool of the name in a list. -/
def lastNamed (tools : List OpenAITool) (name : Bytes) : Option OpenAITool := tools.reverse.find? (·.name = name)

/-- The tool of the name that was registered last for the session. -/
def lastRegistered : List TimedCall → Bytes → Bytes → Option OpenAITool
  | [], _, _ => none
  | c :: earlier, id, name => (lastNamed (registeredBy c id) name).or (lastRegistered earlier id name)

/-- The session is evicted or cleared by the call. -/
def Removes (limit : ℕ) (earlier : List TimedCall) (c : TimedCall) (id : Bytes) : Prop :=
  find id (registryAfter limit earlier).sessionCatalogs ≠ none ∧
    find id (registryAfter limit (c :: earlier)).sessionCatalogs = none

/-- No later call removes the session. -/
def Kept (limit : ℕ) (id : Bytes) (earlier : List TimedCall) : List TimedCall → Prop
  | [] => True
  | c :: later => Kept limit id earlier later ∧ ¬ Removes limit (later ++ earlier) c id

/-! ### Both maps -/

/-- The maps have the same sessions, with the times of their last uses, and catalogues by the names of the tools. -/
structure Tracks (last : Bytes → Option ℤ) (r : Registry) : Prop where
  catalogs : (keys r.sessionCatalogs).Nodup
  times : (keys r.accessTimestamps).Nodup
  same : ∀ id, id ∈ keys r.sessionCatalogs ↔ id ∈ keys r.accessTimestamps
  recent : ∀ id t, find id r.accessTimestamps = some t → last id = some t ∧ t < 2 ^ 63
  names : ∀ id c, find id r.sessionCatalogs = some c → (keys c).Nodup ∧ ∀ e ∈ c, e.2.name = e.1

section Tracks

variable {last : Bytes → Option ℤ} {r : Registry} {id : Bytes} {tools : List OpenAITool} {now : ℤ}

theorem mem_keys_drop {id' : Bytes} {α : Type} {m : List (Bytes × α)} :
    id' ∈ keys (erase id m) ↔ id' ∈ keys m ∧ id' ≠ id := by
  rw [mem_keys, mem_keys]
  constructor
  · rintro ⟨a, ha⟩
    exact ⟨⟨a, (mem_erase.mp ha).1⟩, (mem_erase.mp ha).2⟩
  · rintro ⟨⟨a, ha⟩, hne⟩
    exact ⟨a, mem_erase.mpr ⟨ha, hne⟩⟩

theorem Tracks.drop (h : Tracks last r) (id : Bytes) : Tracks last (r.drop id) where
  catalogs := nodup_keys_erase h.catalogs
  times := nodup_keys_erase h.times
  same id' := by
    show id' ∈ keys (erase id r.sessionCatalogs) ↔ id' ∈ keys (erase id r.accessTimestamps)
    rw [mem_keys_drop, mem_keys_drop, h.same]
  recent id' t ht := h.recent id' t (find_of_find_erase ht)
  names id' c hc := h.names id' c (find_of_find_erase hc)

/-- A time that is written is the one of the last use. -/
theorem Tracks.recent_assign (h : Tracks last r) (hnow : now < 2 ^ 63) (id' : Bytes) (t : ℤ)
    (ht : find id' (assign id now r.accessTimestamps) = some t) :
    Function.update last id (some now) id' = some t ∧ t < 2 ^ 63 := by
  by_cases hid : id' = id
  · rw [hid] at ht ⊢
    obtain rfl : now = t := Option.some.inj (find_assignBy_self.symm.trans ht)
    exact ⟨Function.update_self .., hnow⟩
  · rw [Function.update_of_ne hid]
    exact h.recent id' t ((find_assignBy_of_ne hid).symm.trans ht)

/-- A use of a session that is there. -/
theorem Tracks.used (h : Tracks last r) (hid : find id r.sessionCatalogs ≠ none) (hnow : now < 2 ^ 63) :
    Tracks (Function.update last id (some now)) { r with accessTimestamps := assign id now r.accessTimestamps } where
  catalogs := h.catalogs
  times := nodup_keys_assignBy h.times
  same id' := by
    rw [show keys (assign id now r.accessTimestamps) = keys (assignBy _ id now r.accessTimestamps) from rfl,
      mem_keys_assignBy, h.same]
    refine ⟨Or.inr, ?_⟩
    rintro (rfl | hmem)
    · exact (h.same _).mp (find_ne_none_iff.mp hid)
    · exact hmem
  recent := h.recent_assign hnow
  names := h.names

theorem enterTools_concat (catalog : Catalog) (tools : List OpenAITool) (t : OpenAITool) :
    enterTools catalog (tools ++ [t]) =
      if t.name = [] then enterTools catalog tools else assign t.name t (enterTools catalog tools) := by
  unfold enterTools
  rw [List.foldl_append]
  rfl

/-- A catalogue keeps the tools by their names. -/
theorem names_enterTools {catalog : Catalog} (h : (keys catalog).Nodup ∧ ∀ e ∈ catalog, e.2.name = e.1)
    (tools : List OpenAITool) :
    (keys (enterTools catalog tools)).Nodup ∧ ∀ e ∈ enterTools catalog tools, e.2.name = e.1 := by
  induction tools using List.reverseRecOn with
  | nil => exact h
  | append_singleton tools t ih =>
    rw [enterTools_concat]
    split_ifs
    · exact ih
    · refine ⟨nodup_keys_assignBy ih.1, fun e he => ?_⟩
      rcases mem_assignBy.mp he with rfl | ⟨he, -⟩
      · rfl
      · exact ih.2 e he

/-- The entry of a session. -/
theorem Tracks.entered (h : Tracks last r) (hnow : now < 2 ^ 63) :
    Tracks (Function.update last id (some now)) (entered r id tools now) where
  catalogs := nodup_keys_assignBy h.catalogs
  times := nodup_keys_assignBy h.times
  same id' := by
    show id' ∈ keys (assignBy _ id _ r.sessionCatalogs) ↔ id' ∈ keys (assignBy _ id now r.accessTimestamps)
    rw [mem_keys_assignBy, mem_keys_assignBy, h.same]
  recent := h.recent_assign hnow
  names id' c hc := by
    by_cases hid : id' = id
    · rw [hid] at hc
      obtain rfl := Option.some.inj (find_assignBy_self.symm.trans hc)
      refine names_enterTools ?_ tools
      cases hold : find id r.sessionCatalogs with
      | none => exact ⟨List.nodup_nil, fun e he => absurd he List.not_mem_nil⟩
      | some old => exact h.names id old hold
    · exact h.names id' c ((find_assignBy_of_ne hid).symm.trans hc)

/-! ### Evictions -/

/-- The session is held, and no held session was used last before it was. -/
def LeastRecent (last : Bytes → Option ℤ) (r : Registry) (id : Bytes) : Prop :=
  id ∈ keys r.sessionCatalogs ∧
    ∃ s, last id = some s ∧ ∀ d ∈ keys r.sessionCatalogs, ∃ t, last d = some t ∧ s ≤ t

/-- The scan of `evict_oldest_locked` ends with the smallest time, if one is below the given one. -/
theorem oldestLoop_spec : ∀ (es : List (Bytes × ℤ)) (oldest : Option Bytes) (time : ℤ),
    (oldestLoop es oldest time = oldest ∧ ∀ e ∈ es, time ≤ e.2) ∨
      ∃ e ∈ es, oldestLoop es oldest time = some e.1 ∧ e.2 < time ∧ ∀ d ∈ es, e.2 ≤ d.2
  | [], _, _ => Or.inl ⟨rfl, by simp⟩
  | e :: es, oldest, time => by
    unfold oldestLoop
    split_ifs with hlt
    · refine Or.inr ?_
      rcases oldestLoop_spec es (some e.1) e.2 with ⟨hkeep, hmin⟩ | ⟨d, hd, hloop, hdlt, hmin⟩
      · refine ⟨e, List.mem_cons_self, hkeep, hlt, fun d hd => ?_⟩
        rcases List.mem_cons.mp hd with rfl | hd
        · exact le_rfl
        · exact hmin d hd
      · refine ⟨d, List.mem_cons_of_mem _ hd, hloop, hdlt.trans hlt, fun d' hd' => ?_⟩
        rcases List.mem_cons.mp hd' with rfl | hd'
        · exact hdlt.le
        · exact hmin d' hd'
    · rcases oldestLoop_spec es oldest time with ⟨hkeep, hmin⟩ | ⟨d, hd, hloop, hdlt, hmin⟩
      · refine Or.inl ⟨hkeep, fun d hd => ?_⟩
        rcases List.mem_cons.mp hd with rfl | hd
        · exact Int.not_lt.mp hlt
        · exact hmin d hd
      · refine Or.inr ⟨d, List.mem_cons_of_mem _ hd, hloop, hdlt, fun d' hd' => ?_⟩
        rcases List.mem_cons.mp hd' with rfl | hd'
        · exact hdlt.le.trans (Int.not_lt.mp hlt)
        · exact hmin d' hd'

/-- A held session has a time, the one of its last use. -/
theorem Tracks.time_of_held (h : Tracks last r) (hid : id ∈ keys r.sessionCatalogs) :
    ∃ t, (id, t) ∈ r.accessTimestamps ∧ last id = some t ∧ t < 2 ^ 63 := by
  obtain ⟨t, ht⟩ := mem_keys.mp ((h.same id).mp hid)
  exact ⟨t, ht, h.recent id t (find_of_mem h.times ht)⟩

/-- **An eviction takes a session whose last use is the longest ago.** -/
theorem Tracks.evictOldest (h : Tracks last r) (hne : r.sessionCatalogs ≠ []) :
    ∃ v, LeastRecent last r v ∧ r.evictOldest = r.drop v := by
  obtain ⟨first, rest, hcatalogs⟩ := List.exists_cons_of_ne_nil hne
  have hevict : r.evictOldest = r.drop ((oldestLoop r.accessTimestamps none (2 ^ 63 - 1)).getD first.1) := by
    unfold Registry.evictOldest
    rw [hcatalogs]
  rcases oldestLoop_spec r.accessTimestamps none (2 ^ 63 - 1) with ⟨hloop, hmin⟩ | ⟨e, he, hloop, -, hmin⟩
  · -- every time is the largest one, and the first session goes
    have hfirst : first.1 ∈ keys r.sessionCatalogs := by
      rw [hcatalogs]
      exact List.mem_cons_self
    obtain ⟨s, hs, hlast, hlt⟩ := h.time_of_held hfirst
    refine ⟨first.1, ⟨hfirst, s, hlast, fun d hd => ?_⟩, by rw [hevict, hloop]; rfl⟩
    obtain ⟨t, ht, hdlast, -⟩ := h.time_of_held hd
    have hle := hmin _ ht
    exact ⟨t, hdlast, by dsimp only at hle; omega⟩
  · have hheld : e.1 ∈ keys r.sessionCatalogs := (h.same e.1).mpr (mem_keys.mpr ⟨e.2, he⟩)
    have hlast := (h.recent e.1 e.2 (find_of_mem h.times he)).1
    refine ⟨e.1, ⟨hheld, e.2, hlast, fun d hd => ?_⟩, by rw [hevict, hloop]; rfl⟩
    obtain ⟨t, ht, hdlast, -⟩ := h.time_of_held hd
    exact ⟨t, hdlast, hmin _ ht⟩

/-- Under a positive limit a full registry has a session to evict. -/
theorem Full.ne_nil {limit : ℕ} (hlimit : 0 < limit) (h : Full limit id r) : r.sessionCatalogs ≠ [] := by
  intro hnil
  have hfull := h.1
  rw [hnil] at hfull
  exact absurd hlimit (Nat.not_lt.mpr hfull)

theorem Tracks.round {limit : ℕ} (hlimit : 0 < limit) (h : Tracks last r) (hfull : Full limit id r) :
    Tracks last r.evictOldest := by
  obtain ⟨v, -, heq⟩ := h.evictOldest (Full.ne_nil hlimit hfull)
  rw [heq]
  exact h.drop v

end Tracks

/-! ### One call -/

section Call

variable {limit : ℕ} {last : Bytes → Option ℤ} {r : Registry} {id : Bytes} {c : TimedCall}

/-- The loop of `register_tools` under a positive limit. -/
theorem makeRoomFor_spec (hlimit : 0 < limit) (r : Registry) (id : Bytes) :
    Exits (Full limit id) Registry.evictOldest r (makeRoomFor limit id r.size r) := by
  obtain ⟨room, hexits⟩ := exits_full_iff.mpr (Or.inl hlimit)
  rw [makeRoomFor_of_exits hlimit hexits le_rfl]
  exact hexits

/-- What a call does: nothing, or it uses a session that is there, or it clears one, or it registers tools. -/
theorem after_cases (limit : ℕ) (r : Registry) (c : TimedCall) :
    (after limit r c = r ∧ (∀ id, ¬ uses r id c.call) ∧ ∀ id, registeredBy c id = []) ∨
    (∃ id, find id r.sessionCatalogs ≠ none ∧
      after limit r c = { r with accessTimestamps := assign id c.now r.accessTimestamps } ∧
      (∀ id', uses r id' c.call ↔ id' = id) ∧ ∀ id, registeredBy c id = []) ∨
    (∃ id, after limit r c = r.drop id ∧ (∀ id, ¬ uses r id c.call) ∧ ∀ id, registeredBy c id = []) ∨
    ∃ id tools, id ≠ [] ∧ tools ≠ [] ∧
      after limit r c = entered (makeRoomFor limit id r.size r) id tools c.now ∧
      (∀ id', uses r id' c.call ↔ id' = id) ∧ ∀ id', registeredBy c id' = if id' = id then tools else [] := by
  obtain ⟨call, now, -⟩ := c
  cases call with
  | registerTools id tools =>
    by_cases hskip : id = [] ∨ tools = []
    · refine Or.inl ⟨if_pos hskip, ?_, ?_⟩
      · rintro id' ⟨rfl, hid, htools⟩
        exact hskip.elim hid htools
      · intro id'
        show (if id = id' ∧ id' ≠ [] then tools else []) = []
        split_ifs with h
        · exact hskip.resolve_left (h.1 ▸ h.2)
        · rfl
    · rw [not_or] at hskip
      refine Or.inr (Or.inr (Or.inr ⟨id, tools, hskip.1, hskip.2, if_neg (not_or.mpr hskip), fun id' => ?_,
        fun id' => ?_⟩))
      · exact ⟨fun h => h.1.symm, fun h => ⟨h.symm, h ▸ hskip.1, hskip.2⟩⟩
      · refine if_congr ⟨fun h => h.1.symm, fun h => ⟨h.symm, h ▸ hskip.1⟩⟩ rfl rfl
  | hasTools id =>
    by_cases hhas : r.hasTools id = true
    · refine Or.inr (Or.inl ⟨id, ?_, if_pos hhas, fun id' => ?_, fun _ => rfl⟩)
      · intro hnone
        rw [Registry.hasTools, hnone] at hhas
        simp at hhas
      · exact ⟨fun h => h.1.symm, fun h => ⟨h.symm, h ▸ hhas⟩⟩
    · exact Or.inl ⟨if_neg hhas, fun id' h => hhas (h.1 ▸ h.2), fun _ => rfl⟩
  | getAllTools id =>
    by_cases hskip : id = []
    · exact Or.inl ⟨if_pos hskip, fun id' h => h.2.1 (h.1 ▸ hskip), fun _ => rfl⟩
    · by_cases hnone : find id r.sessionCatalogs = none
      · exact Or.inl ⟨(if_neg hskip).trans (if_pos hnone), fun id' h => h.2.2 (h.1 ▸ hnone), fun _ => rfl⟩
      · refine Or.inr (Or.inl ⟨id, hnone, (if_neg hskip).trans (if_neg hnone), fun id' => ?_, fun _ => rfl⟩)
        exact ⟨fun h => h.1.symm, fun h => ⟨h.symm, h ▸ hskip, h ▸ hnone⟩⟩
  | getToolsByNames id toolNames =>
    by_cases hskip : id = [] ∨ toolNames = []
    · refine Or.inl ⟨if_pos hskip, ?_, fun _ => rfl⟩
      rintro id' ⟨rfl, hid, hnames, -⟩
      exact hskip.elim hid hnames
    · by_cases hnone : find id r.sessionCatalogs = none
      · refine Or.inl ⟨(if_neg hskip).trans (if_pos hnone), ?_, fun _ => rfl⟩
        rintro id' ⟨rfl, -, -, hfound⟩
        exact hfound hnone
      · refine Or.inr (Or.inl ⟨id, hnone, (if_neg hskip).trans (if_neg hnone), fun id' => ?_, fun _ => rfl⟩)
        rw [not_or] at hskip
        exact ⟨fun h => h.1.symm, fun h => ⟨h.symm, h ▸ hskip.1, hskip.2, h ▸ hnone⟩⟩
  | clearSession id =>
    by_cases hid : id = []
    · exact Or.inl ⟨if_pos hid, fun _ h => h, fun _ => rfl⟩
    · exact Or.inr (Or.inr (Or.inl ⟨id, if_neg hid, fun _ h => h, fun _ => rfl⟩))

/-- What is known of the registry after a call: its uses are those before, and the ones of the call. -/
theorem Tracks.after (hlimit : 0 < limit) (h : Tracks last r) (c : TimedCall) :
    Tracks (fun id => if uses r id c.call then some c.now else last id) (after limit r c) := by
  have hsame (hnone : ∀ id, ¬ uses r id c.call) : (fun id => if uses r id c.call then some c.now else last id) = last :=
    funext fun id => if_neg (hnone id)
  have hupdate {id : Bytes} (huses : ∀ id', uses r id' c.call ↔ id' = id) :
      (fun id => if uses r id c.call then some c.now else last id) = Function.update last id (some c.now) := by
    funext id'
    rw [Function.update_apply]
    exact if_congr (huses id') rfl rfl
  rcases after_cases limit r c with ⟨heq, hnone, -⟩ | ⟨id, hfound, heq, huses, -⟩ | ⟨id, heq, hnone, -⟩ |
    ⟨id, tools, -, -, heq, huses, -⟩
  · rw [heq, hsame hnone]
    exact h
  · rw [heq, hupdate huses]
    exact h.used hfound c.now_lt
  · rw [heq, hsame hnone]
    exact h.drop id
  · rw [heq, hupdate huses]
    exact Tracks.entered ((makeRoomFor_spec hlimit r id).invariant (fun _ hr hfull => hr.round hlimit hfull) h) c.now_lt

/-- What is gone was last used no later than what is left. -/
def EvictsOldest (last : Bytes → Option ℤ) (r out : Registry) : Prop :=
  ∀ v ∈ keys r.sessionCatalogs, v ∉ keys out.sessionCatalogs → ∀ w ∈ keys r.sessionCatalogs,
    w ∈ keys out.sessionCatalogs → ∃ s t, last v = some s ∧ last w = some t ∧ s ≤ t

/-- A round that evicts the least recent session, after rounds that did so. -/
theorem EvictsOldest.drop {s : Registry} {v : Bytes} (h : EvictsOldest last r s) (hv : LeastRecent last s v) :
    EvictsOldest last r (s.drop v) := by
  intro u hu hgone w hw hleft
  obtain ⟨hwin, -⟩ := mem_keys_drop.mp hleft
  by_cases hin : u ∈ keys s.sessionCatalogs
  · -- it goes in this round
    have huv : u = v := by_contra fun hne => hgone (mem_keys_drop.mpr ⟨hin, hne⟩)
    obtain ⟨-, time, htime, hleast⟩ := hv
    obtain ⟨t, ht, hle⟩ := hleast w hwin
    exact ⟨time, t, huv ▸ htime, ht, hle⟩
  · exact h u hu hin w hw hwin

/-- The loop evicts the least recent sessions. -/
theorem evictsOldest_room {room : Registry} (hlimit : 0 < limit) (h : Tracks last r)
    (hexits : Exits (Full limit id) Registry.evictOldest r room) : EvictsOldest last r room := by
  refine (hexits.invariant (I := fun s => Tracks last s ∧ EvictsOldest last r s) (fun s hs hfull => ?_)
    ⟨h, fun v hv hgone => absurd hv hgone⟩).2
  obtain ⟨v, hv, heq⟩ := hs.1.evictOldest (Full.ne_nil hlimit hfull)
  exact ⟨hs.1.round hlimit hfull, heq ▸ hs.2.drop hv⟩

/-- **`register_tools` evicts the least recent sessions.** -/
theorem evictsOldest_registerToolsFor (hlimit : 0 < limit) (h : Tracks last r) (id : Bytes) (tools : List OpenAITool)
    (now : ℤ) : EvictsOldest last r (registerToolsFor limit r id tools now) := by
  unfold registerToolsFor
  split_ifs
  · exact fun v hv hgone => absurd hv hgone
  · have hexits := makeRoomFor_spec hlimit r id
    generalize makeRoomFor limit id r.size r = room at hexits
    have hkeys (w : Bytes) : w ∈ keys (entered room id tools now).sessionCatalogs ↔
        w = id ∨ w ∈ keys room.sessionCatalogs := mem_keys_assignBy
    intro v hv hgone w hw hleft
    rw [hkeys, not_or] at hgone
    rcases (hkeys w).mp hleft with rfl | hleft
    · -- a session that is there is given no room
      have hroom : room = r := hexits.unique (.done fun hfull => find_ne_none_iff.mpr hw hfull.2)
      exact absurd (hroom ▸ hv) hgone.2
    · exact evictsOldest_room hlimit h hexits v hv hgone.2 w hw hleft

/-- A call keeps the number of catalogues within the limit. -/
theorem length_after_le (hlimit : 0 < limit) (h : Tracks last r) (hle : r.sessionCatalogs.length ≤ limit)
    (c : TimedCall) : (after limit r c).sessionCatalogs.length ≤ limit := by
  rcases after_cases limit r c with ⟨heq, -⟩ | ⟨id, -, heq, -⟩ | ⟨id, heq, -⟩ | ⟨id, tools, -, -, heq, -⟩
  · rw [heq]
    exact hle
  · rw [heq]
    exact hle
  · rw [heq]
    exact (erase_length_le id r.sessionCatalogs).trans hle
  · rw [heq]
    have hexits := makeRoomFor_spec hlimit r id
    generalize makeRoomFor limit id r.size r = room at hexits
    show (assign id _ room.sessionCatalogs).length ≤ limit
    cases hfind : find id r.sessionCatalogs with
    | some old =>
      -- the loop is not entered
      have hroom : room = r := hexits.unique (.done fun hfull => by cases hfind.symm.trans hfull.2)
      rw [hroom, length_assign_of_some _ h.catalogs hfind]
      exact hle
    | none =>
      have hnone := find_of_exits hexits hfind
      rw [length_assign_of_none _ hnone]
      exact Nat.not_le.mp fun hfull => hexits.not_cond ⟨hfull, hnone⟩

theorem find_erase_cases {α : Type} {m : List (Bytes × α)} (id v : Bytes) :
    find id (erase v m) = none ∨ find id (erase v m) = find id m := by
  by_cases hid : id = v
  · rw [hid]
    exact Or.inl find_erase_self
  · exact Or.inr (find_erase_of_ne hid)

/-- The loop evicts the session or leaves its catalogue as it is. -/
theorem find_room_cases {room : Registry} {id' : Bytes} (h : Exits (Full limit id') Registry.evictOldest r room)
    (id : Bytes) : find id room.sessionCatalogs = none ∨ find id room.sessionCatalogs = find id r.sessionCatalogs := by
  refine h.invariant (I := fun s => find id s.sessionCatalogs = none ∨ find id s.sessionCatalogs =
    find id r.sessionCatalogs) (fun s hs _ => ?_) (Or.inr rfl)
  rcases hs with hs | hs
  · exact Or.inl (find_evictOldest hs)
  · unfold Registry.evictOldest
    split
    · exact Or.inr hs
    · rw [← hs]
      exact find_erase_cases id _

/-- For the session that is registered, the loop leaves its catalogue as it is. -/
theorem find_room_self {room : Registry} (h : Exits (Full limit id) Registry.evictOldest r room) :
    find id room.sessionCatalogs = find id r.sessionCatalogs := by
  cases hfind : find id r.sessionCatalogs with
  | some old =>
    rw [h.unique (.done fun hfull => by cases hfind.symm.trans hfull.2)]
    exact hfind
  | none => exact find_of_exits h hfind

/-- The catalogue of a session that is there after a call: the one before, with the tools that the call registers. -/
theorem find_after (hlimit : 0 < limit) (r : Registry) (c : TimedCall) (id : Bytes)
    (hheld : find id (after limit r c).sessionCatalogs ≠ none) :
    find id (after limit r c).sessionCatalogs =
      if registeredBy c id = [] then find id r.sessionCatalogs
      else some (enterTools ((find id r.sessionCatalogs).getD []) (registeredBy c id)) := by
  rcases after_cases limit r c with ⟨heq, -, hnone⟩ | ⟨id', -, heq, -, hnone⟩ | ⟨id', heq, -, hnone⟩ |
    ⟨id', tools, -, htools, heq, -, hregistered⟩
  · rw [heq, if_pos (hnone id)]
  · rw [heq, if_pos (hnone id)]
  · rw [if_pos (hnone id)]
    rw [heq] at hheld ⊢
    exact (find_erase_cases id id').resolve_left hheld
  · rw [heq] at hheld ⊢
    have hexits := makeRoomFor_spec hlimit r id'
    rw [hregistered]
    by_cases hid : id = id'
    · rw [if_pos hid, if_neg htools, hid, ← find_room_self hexits]
      exact find_assignBy_self
    · rw [if_neg hid, if_pos rfl]
      have hroom : find id (entered (makeRoomFor limit id' r.size r) id' tools c.now).sessionCatalogs =
          find id (makeRoomFor limit id' r.size r).sessionCatalogs := find_assignBy_of_ne hid
      rw [hroom] at hheld ⊢
      exact (find_room_cases hexits id).resolve_left hheld

end Call

/-! ### The last tool of a name -/

section Names

variable {name : Bytes}

theorem lastNamed_concat (tools : List OpenAITool) (t : OpenAITool) (name : Bytes) :
    lastNamed (tools ++ [t]) name = if t.name = name then some t else lastNamed tools name := by
  unfold lastNamed
  rw [List.reverse_append, List.reverse_singleton, List.singleton_append]
  by_cases h : t.name = name
  · rw [if_pos h, List.find?_cons_of_pos (by simpa using h)]
  · rw [if_neg h, List.find?_cons_of_neg (by simpa using h)]

theorem exists_lastNamed {tools : List OpenAITool} {t : OpenAITool} (ht : t ∈ tools) :
    ∃ last, lastNamed tools t.name = some last :=
  Option.isSome_iff_exists.mp (List.find?_isSome.mpr ⟨t, List.mem_reverse.mpr ht, by simp⟩)

/-- Under a name the catalogue has the last tool of the call, or what it had. -/
theorem find_enterTools (hname : name ≠ []) (catalog : Catalog) (tools : List OpenAITool) :
    find name (enterTools catalog tools) = (lastNamed tools name).or (find name catalog) := by
  induction tools using List.reverseRecOn with
  | nil => rfl
  | append_singleton tools t ih =>
    rw [enterTools_concat, lastNamed_concat]
    by_cases ht : t.name = name
    · rw [if_neg (ht ▸ hname), if_pos ht, ht]
      exact find_assignBy_self
    · rw [if_neg ht, ← ih]
      split_ifs
      · rfl
      · exact find_assignBy_of_ne (Ne.symm ht)

end Names

/-! ### Histories -/

section History

variable {limit : ℕ} {history earlier later : List TimedCall} {c : TimedCall} {id : Bytes} {t : OpenAITool}

theorem tracks_nil : Tracks (lastUse limit []) (registryAfter limit []) where
  catalogs := List.nodup_nil
  times := List.nodup_nil
  same _ := Iff.rfl
  recent _ _ h := by cases h
  names _ _ h := by cases h

/-- **Both maps are in step** after every history. -/
theorem tracks_registryAfter (hlimit : 0 < limit) : ∀ history : List TimedCall,
    Tracks (lastUse limit history) (registryAfter limit history)
  | [] => tracks_nil
  | c :: earlier => (tracks_registryAfter hlimit earlier).after hlimit c

theorem length_registryAfter_le (hlimit : 0 < limit) : ∀ history : List TimedCall,
    (registryAfter limit history).sessionCatalogs.length ≤ limit
  | [] => Nat.zero_le limit
  | c :: earlier =>
    length_after_le hlimit (tracks_registryAfter hlimit earlier) (length_registryAfter_le hlimit earlier) c

/-- The session has the tool that was registered last under a name. -/
def HasLast (limit : ℕ) (history : List TimedCall) (id name : Bytes) : Prop :=
  ∃ catalog last, find id (registryAfter limit history).sessionCatalogs = some catalog ∧
    lastRegistered history id name = some last ∧ find name catalog = some last

/-- A session that tools are registered for is there after it. -/
theorem held_of_registeredBy (r : Registry) (ht : t ∈ registeredBy c id) :
    find id (after limit r c).sessionCatalogs ≠ none := by
  have hne : registeredBy c id ≠ [] := List.ne_nil_of_mem ht
  rcases after_cases limit r c with ⟨-, -, hnone⟩ | ⟨-, -, -, -, hnone⟩ | ⟨-, -, -, hnone⟩ |
    ⟨id', tools, -, -, heq, -, hregistered⟩
  · exact absurd (hnone id) hne
  · exact absurd (hnone id) hne
  · exact absurd (hnone id) hne
  · have hid : id = id' := by
      by_contra hid
      exact hne ((hregistered id).trans (if_neg hid))
    rw [heq, hid]
    exact ne_of_eq_of_ne find_assignBy_self (Option.some_ne_none _)

/-- A call that registers a tool of the name. -/
theorem hasLast_of_registeredBy (hlimit : 0 < limit) (ht : t ∈ registeredBy c id) (hname : t.name ≠ [])
    (earlier : List TimedCall) : HasLast limit (c :: earlier) id t.name := by
  obtain ⟨last, hlast⟩ := exists_lastNamed ht
  have hfind := find_after hlimit (registryAfter limit earlier) c id (held_of_registeredBy _ ht)
  rw [if_neg (List.ne_nil_of_mem ht)] at hfind
  refine ⟨_, last, hfind, ?_, ?_⟩
  · rw [lastRegistered, hlast, Option.some_or]
  · rw [find_enterTools hname, hlast, Option.some_or]

/-- A call that leaves the session there. -/
theorem HasLast.cons {name : Bytes} (hlimit : 0 < limit) (hname : name ≠ []) (h : HasLast limit history id name)
    (hkept : ¬ Removes limit history c id) : HasLast limit (c :: history) id name := by
  obtain ⟨catalog, last, hcatalog, hlast, hfind⟩ := h
  have hheld : find id (after limit (registryAfter limit history) c).sessionCatalogs ≠ none := fun hgone =>
    hkept ⟨ne_of_eq_of_ne hcatalog (Option.some_ne_none _), hgone⟩
  have hafter := find_after hlimit (registryAfter limit history) c id hheld
  rw [hcatalog] at hafter
  by_cases hnone : registeredBy c id = []
  · rw [if_pos hnone] at hafter
    refine ⟨catalog, last, hafter, ?_, hfind⟩
    rw [lastRegistered, hnone]
    exact hlast
  · rw [if_neg hnone] at hafter
    have hor : (lastNamed (registeredBy c id) name).or (some last) =
        lastRegistered (c :: history) id name := by rw [lastRegistered, hlast]
    cases hnamed : lastNamed (registeredBy c id) name with
    | none =>
      rw [hnamed] at hor
      refine ⟨_, last, hafter, hor.symm, ?_⟩
      rw [Option.getD_some, find_enterTools hname, hnamed, hfind]
      rfl
    | some newest =>
      rw [hnamed] at hor
      refine ⟨_, newest, hafter, hor.symm, ?_⟩
      rw [Option.getD_some, find_enterTools hname, hnamed]
      rfl

theorem hasLast_of_kept (hlimit : 0 < limit) (ht : t ∈ registeredBy c id) (hname : t.name ≠ [])
    (earlier : List TimedCall) : ∀ later : List TimedCall, Kept limit id (c :: earlier) later →
      HasLast limit (later ++ c :: earlier) id t.name
  | [], _ => hasLast_of_registeredBy hlimit ht hname earlier
  | _ :: later, ⟨hkept, hnot⟩ => (hasLast_of_kept hlimit ht hname earlier later hkept).cons hlimit hname hnot

/-- **What `get_all_tools` returns** under a name is the tool that was registered last. -/
theorem HasLast.getAllTools {name : Bytes} (hlimit : 0 < limit) (hid : id ≠ []) (h : HasLast limit history id name) :
    ∃ last, lastRegistered history id name = some last ∧
      (getAllTools (registryAfter limit history) id).filter (fun t => decide (t.name = name)) = [last] := by
  obtain ⟨catalog, last, hcatalog, hlast, hfind⟩ := h
  obtain ⟨hkeys, hnames⟩ := (tracks_registryAfter hlimit history).names id catalog hcatalog
  refine ⟨last, hlast, ?_⟩
  rw [ToolHistory.getAllTools, if_neg hid, hcatalog, Option.getD_some, List.filter_map]
  have hsame : catalog.filter ((fun t => decide (t.name = name)) ∘ Prod.snd) =
      catalog.filter fun e => decide (e.1 = name) :=
    List.filter_congr fun e he => by rw [Function.comp_apply, hnames e he]
  rw [hsame, filter_key_eq hkeys hfind]
  rfl

theorem ne_nil_of_registeredBy (ht : t ∈ registeredBy c id) : id ≠ [] := by
  unfold registeredBy at ht
  split at ht
  · split_ifs at ht with h
    · exact h.2
    · exact absurd ht List.not_mem_nil
  · exact absurd ht List.not_mem_nil

/-- **The tool registry.** After every history of calls under a positive limit, both maps have the same sessions, at
most as many as the limit; whatever the next call evicts for a new session is, at that moment, a session whose last use
is the longest ago, so that those which `register_tools` evicts were last used no later than those which it leaves; and a
session that has been registered for, and not been evicted or cleared since, has under every name the tool that was
registered last. -/
theorem registry_history (limit : ℕ) (hlimit : 0 < limit) (history : List TimedCall) :
    (∀ id, id ∈ keys (registryAfter limit history).sessionCatalogs ↔
      id ∈ keys (registryAfter limit history).accessTimestamps) ∧
    (registryAfter limit history).sessionCatalogs.length ≤ limit ∧
    (∀ id r, Rounds (Full limit id) Registry.evictOldest (registryAfter limit history) r → Full limit id r →
      ∃ v, LeastRecent (lastUse limit history) r v ∧ r.evictOldest = r.drop v) ∧
    (∀ id tools now, EvictsOldest (lastUse limit history) (registryAfter limit history)
      (registerToolsFor limit (registryAfter limit history) id tools now)) ∧
    ∀ later c earlier, history = later ++ c :: earlier → ∀ id, ∀ t ∈ registeredBy c id, t.name ≠ [] →
      Kept limit id (c :: earlier) later → ∃ last, lastRegistered history id t.name = some last ∧
        (getAllTools (registryAfter limit history) id).filter (fun t' => decide (t'.name = t.name)) = [last] := by
  have htracks := tracks_registryAfter hlimit history
  refine ⟨htracks.same, length_registryAfter_le hlimit history, fun id r hrounds hfull => ?_,
    evictsOldest_registerToolsFor hlimit htracks, ?_⟩
  · have hr : Tracks (lastUse limit history) r := hrounds.invariant (fun _ hs hfull => hs.round hlimit hfull) htracks
    exact hr.evictOldest (Full.ne_nil hlimit hfull)
  · rintro later c earlier rfl id t ht hname hkept
    exact (hasLast_of_kept hlimit ht hname earlier later hkept).getAllTools hlimit (ne_nil_of_registeredBy ht)

end History

/-- Two sessions, where there is room for one; the second one is used again. -/
def twoSessions : List TimedCall :=
  [⟨.hasTools [0x62], 3, by decide⟩, ⟨.registerTools [0x62] [readTool], 2, by decide⟩,
    ⟨.registerTools [0x61] [readTool], 1, by decide⟩]

/-- The second one has taken the place of the first one, and keeps its tool. -/
theorem registry_history_two : (registryAfter 1 twoSessions).sessionCatalogs.length ≤ 1 ∧
    ∃ last, lastRegistered twoSessions [0x62] [0x72] = some last ∧
      (getAllTools (registryAfter 1 twoSessions) [0x62]).filter (fun t => decide (t.name = [0x72])) = [last] := by
  obtain ⟨-, hlength, -, -, hlast⟩ := registry_history 1 Nat.one_pos twoSessions
  refine ⟨hlength, hlast [twoSessions.head (by decide)] _ _ rfl [0x62] readTool (by decide) (by decide)
    ⟨trivial, fun hremoves => ?_⟩⟩
  exact absurd hremoves.2 (by decide)

end DenseLite.Engine.ToolHistory
