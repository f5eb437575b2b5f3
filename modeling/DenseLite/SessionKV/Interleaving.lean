import DenseLite.SessionKV.Manager
import DenseLite.SessionKV.Persistence
import DenseLite.SessionKV.Restore

/-! # Interleaved requests

Any number of requests on any sessions, their steps in any order, over any file system. `no_lost_update`: as
long as no eviction takes a session that a request still holds, and no session is read back from a file that
does not carry it (one that another session has written over, or that never opened), there is one live state
per session, and `get_or_create` returns what the last `generate` on the session left. An eviction that takes
a held session breaks both (`update_lost`). -/

namespace DenseLite.SessionKV.Interleaving

open DenseLite.Lib.ByteStream DenseLite.Lib.KeyMap DenseLite.Lib.Runs
open DenseLite.Infer.State DenseLite.Infer.Generate DenseLite.Infer.Setup DenseLite.Infer.Reuse
open DenseLite.SessionKV.Dlkv DenseLite.SessionKV.RoundTrip DenseLite.SessionKV.Persistence
open DenseLite.SessionKV.Restore DenseLite.SessionKV.Manager

/-! ### What is claimed of a step -/

/-- A state that belongs to the session `id`: it is in the map, or a request holds it. -/
def Live (sys : System) (id : Bytes) (h : ℕ) : Prop :=
  (id, h) ∈ sys.sessions ∨ ∃ r ∈ sys.requests, r.id = id ∧ r.handle = h

/-- At most one live state per session; an empty id names no session. -/
def OneLive (sys : System) : Prop := ∀ id h h', id ≠ [] → Live sys id h → Live sys id h' → h = h'

/-- The tokens and rows of `s0` are in `s`. -/
structure Contains (s s0 : SessionKVState) : Prop where
  tokens : s0.cachedTokens <+: s.cachedTokens
  rows : ∀ p < s0.cachedTokens.length,
    kvRowAt (rowWidth s0) p s.state.cache = kvRowAt (rowWidth s0) p s0.state.cache

/-- `get_or_create` returns what the last `generate` on the session left. -/
def NoLostUpdate (sys : System) : Action → Prop
  | .get id m now => id ≠ [] → ∀ s0, sys.latest id = some s0 → Contains (returned sys id m now) s0
  | _ => True

/-- What `save_to_disk_internal` reads of the layers is there. -/
def SaveInside (s : SessionKVState) : Prop :=
  s.isInitialized = true → ∀ l ∈ s.state.cache,
    s.state.currentPos * orDefault s.numKvHeads 2 * orDefault s.headDim 128 ≤ l.k.length ∧
      s.state.currentPos * orDefault s.numKvHeads 2 * orDefault s.headDim 128 ≤ l.v.length

/-- Nothing that a step does is undefined: what it saves, reads and computes stays inside its vectors. -/
def StepDefined (sys : System) : Action → Prop
  | .get id m now => id ≠ [] → id ∉ keys sys.sessions →
      (sys.maxActive ≤ sys.sessions.length → ∀ v, sys.oldest = some v → SaveInside (sys.stateOf v.2)) ∧
        ∀ f, (makeRoom sys.sessions.length sys).read id = some f →
          (restore m.config f (newState m.config now)).inside = true
  | .generate i c => ∀ r, sys.requests[i]? = some r → Defined r.model (sys.stateOf r.handle) c
  | .save i => ∀ r, sys.requests[i]? = some r → ∀ h, find r.id sys.sessions = some h →
      SaveInside (sys.stateOf h)
  | .finish _ => True

/-- A step that is defined, leaves one live state per session, and loses no update. -/
def Sound (sys : System) (a : Action) : Prop :=
  StepDefined sys a ∧ OneLive (step sys a) ∧ NoLostUpdate sys a

/-! ### Under which condition -/

/-- The file of `s` carries its tokens and all their rows for the model `m`. -/
structure Restorable (m : DenseModel) (s : SessionKVState) : Prop where
  sessionOf : SessionOf m.config s
  carried : Carried s
  addressable : Addressable m.config s.maxContextAllocated
  tokens : (s.cachedTokens.length : ℤ) ≤ s.maxContextAllocated
  beyond : ∀ p < s.cachedTokens.length, diskRows m s ≤ p →
    kvRowAt (rowWidth s) p s.state.cache = zeroRow (rowWidth s) m.config.numLayers.toNat

/-- The contents of a file that the model `m` may read: they are rejected; or the head dimension is even, and
they were written for a session that they carry, or are complete and fit the vectors. -/
def FileSafe (m : DenseModel) (written : Option (Bytes × SessionKVState)) (f : Bytes) : Prop :=
  Rejected m.config f ∨ EvenHead m.config ∧
    ((∃ id s, written = some (id, s) ∧ Restorable m s) ∨
      f.length < 2 ^ 63 ∧ Complete m.config f ∧ Fits m.config f)

/-- When `get_or_create` does not find the session: no held session is evicted, the one that is evicted can be
saved and has another file, the file of the session is safe to read, and what the last `generate` left is in
it, unless that is nothing. -/
structure GetSafe (sys : System) (id : Bytes) (m : DenseModel) : Prop where
  victim : sys.maxActive ≤ sys.sessions.length → VictimIdle sys
  evicted : sys.maxActive ≤ sys.sessions.length → ∀ v, sys.oldest = some v →
    SaveInside (sys.stateOf v.2) ∧ sys.files.file v.1 ≠ sys.files.file id
  file : ∀ f, sys.read id = some f → FileSafe m (sys.written (sys.files.file id)) f
  carried : ∀ s0, sys.latest id = some s0 → s0.cachedTokens ≠ [] →
    sys.files.readable (sys.files.file id) = true ∧
      ∃ s, sys.written (sys.files.file id) = some (id, s) ∧ Restorable m s

/-- The steps that keep updates: `get_or_create` as above, calls that are defined, and saves of rows that are
there. -/
def Safe (sys : System) : Action → Prop
  | .get id m now => now < 2 ^ 63 - 1 ∧ (id ≠ [] → id ∉ keys sys.sessions → GetSafe sys id m)
  | .generate i c => ∀ r, sys.requests[i]? = some r → StartsDefined r.model c
  | .save i => ∀ r, sys.requests[i]? = some r → ∀ h, find r.id sys.sessions = some h →
      SaveInside (sys.stateOf h)
  | .finish _ => True

/-! ### States with the same contents -/

/-- `s` has the tokens, the dimensions and the rows of `s0`. -/
structure Same (s s0 : SessionKVState) : Prop where
  cachedTokens : s.cachedTokens = s0.cachedTokens
  numKvHeads : s.numKvHeads = s0.numKvHeads
  headDim : s.headDim = s0.headDim
  rows : ∀ p < s0.cachedTokens.length,
    kvRowAt (rowWidth s0) p s.state.cache = kvRowAt (rowWidth s0) p s0.state.cache

/-- `s` has the contents of `s0`, if there are any. -/
def Kept (s s0 : SessionKVState) : Prop := s0.cachedTokens = [] ∨ Same s s0

section Contents

variable {m : DenseModel} {s s0 s1 : SessionKVState} {now : ℤ} {f : Bytes}

theorem Same.refl (s : SessionKVState) : Same s s := ⟨rfl, rfl, rfl, fun _ _ => rfl⟩

theorem Same.trans (h : Same s s1) (h' : Same s1 s0) : Same s s0 := by
  have hw : rowWidth s1 = rowWidth s0 := by
    unfold rowWidth
    rw [h'.numKvHeads, h'.headDim]
  refine ⟨h.cachedTokens.trans h'.cachedTokens, h.numKvHeads.trans h'.numKvHeads,
    h.headDim.trans h'.headDim, fun p hp => ?_⟩
  rw [← h'.rows p hp, ← hw]
  exact h.rows p (by rw [h'.cachedTokens]; exact hp)

theorem Kept.contains (h : Kept s s0) : Contains s s0 := by
  rcases h with h | h
  · refine ⟨by rw [h]; exact List.nil_prefix, fun p hp => ?_⟩
    rw [h] at hp
    exact absurd hp (Nat.not_lt_zero p)
  · exact ⟨⟨[], by rw [List.append_nil, h.cachedTokens]⟩, h.rows⟩

/-- **A session that its file carries comes back with its contents.** -/
theorem same_createState (h : Restorable m s) (hf : saveToDiskInternal s = some f) :
    Same (createState m.config now (some f)) s := by
  have hcreate : createState m.config now (some f) =
      restoredFrom m.config now s (restoredCache m.config s) := by
    rw [createState, restore_save h.sessionOf h.carried hf]
  have hall := h.sessionOf.allocated
  have htok := h.tokens
  unfold IsInt32 at hall
  rw [hcreate]
  refine ⟨?_, h.sessionOf.numKvHeads.symm, h.sessionOf.headDim.symm, fun p hp => ?_⟩
  · show s.cachedTokens.take (s.cachedTokens.length % 2 ^ 32) = s.cachedTokens
    rw [Nat.mod_eq_of_lt (by omega), List.take_length]
  · refine (kvRowAt_restoredCache h.sessionOf h.carried h.addressable (p := p) (by omega)).trans ?_
    split_ifs with hdisk
    · rfl
    · exact (h.beyond p hp (by omega)).symm

/-- Such a session is read back inside the vectors. -/
theorem restore_inside (h : Restorable m s) (heven : EvenHead m.config) (hf : saveToDiskInternal s = some f) :
    (restore m.config f (newState m.config now)).inside = true := by
  rw [restore_save h.sessionOf h.carried hf, Bool.and_eq_true, decide_eq_true_eq, decide_eq_true_eq,
    invFreqInBounds_iff]
  refine ⟨heven, Or.inr (Or.inr ?_)⟩
  have hpos := h.sessionOf.pos
  rw [activeFloats_eq h.sessionOf h.carried]
  rcases Int.lt_or_le 0 s.maxContextAllocated with h0 | h0
  · rw [layerFloats_context h.sessionOf h.carried h0 h.addressable]
    exact Nat.mul_le_mul_right _ (by omega)
  · rw [show s.state.currentPos.toNat = 0 by omega, Nat.zero_mul]
    exact Nat.zero_le _

/-- **A file that is safe to read** is read inside the vectors. -/
theorem FileSafe.inside {written : Option (Bytes × SessionKVState)} (h : FileSafe m written f)
    (hw : ∀ id s, written = some (id, s) → saveToDiskInternal s = some f) :
    (restore m.config f (newState m.config now)).inside = true := by
  rcases h with hrej | ⟨heven, ⟨id, s, hwritten, hs⟩ | ⟨hlen, hcomplete, hfits⟩⟩
  · exact (restore_rejected hrej).2
  · exact restore_inside hs heven (hw id s hwritten)
  · exact ((restore_safe_iff m.config f now hlen).mpr (Or.inr ⟨heven, hcomplete, hfits⟩)).inside

/-- A state that was not read from a file has no tokens. -/
theorem createState_empty (c : ModelConfig) (now : ℤ) (f : Option Bytes) :
    (createState c now f).isInitialized = true ∨ (createState c now f).cachedTokens = [] := by
  cases f with
  | none => exact Or.inr rfl
  | some f =>
    unfold createState restore
    simp only
    split_ifs
    · exact Or.inl rfl
    · exact Or.inr rfl
    · exact Or.inr rfl

theorem createState_lastAccessedMs (c : ModelConfig) (now : ℤ) (f : Option Bytes) :
    (createState c now f).lastAccessedMs = now := by
  cases f with
  | none => rfl
  | some f =>
    unfold createState restore
    simp only
    split_ifs <;> rfl

end Contents

/-! ### The invariant -/

/-- An entry of the map: its state is there, and has what the last `generate` on the session left. -/
structure Entry (sys : System) (id : Bytes) (h : ℕ) : Prop where
  bound : h < sys.heap.length
  clock : (sys.stateOf h).lastAccessedMs < 2 ^ 63 - 1
  empty : (sys.stateOf h).isInitialized = true ∨ (sys.stateOf h).cachedTokens = []
  latest : ∀ s0, sys.latest id = some s0 → Kept (sys.stateOf h) s0

/-- What the last `generate` on a session left is in the state whose file was written, if it was written for
that session last. -/
def Stored (sys : System) (id : Bytes) : Prop :=
  ∀ s0, sys.latest id = some s0 → s0.cachedTokens = [] ∨
    ∀ s, sys.written (sys.files.file id) = some (id, s) → Same s s0

/-- The map has one entry per session and per state, every request holds the state of its entry, or one
of its own, and the contents of each session are in its entry, or else in its file. -/
structure Good (sys : System) : Prop where
  pos : 1 ≤ sys.maxActive
  room : sys.sessions.length ≤ sys.maxActive
  unique : (keys sys.sessions).Nodup
  named : [] ∉ keys sys.sessions
  handles : (sys.sessions.map Prod.snd).Nodup
  entries : ∀ e ∈ sys.sessions, Entry sys e.1 e.2
  held : ∀ r ∈ sys.requests, r.id ≠ [] → (r.id, r.handle) ∈ sys.sessions
  own : ∀ r ∈ sys.requests, r.id = [] → r.handle < sys.heap.length ∧ ∀ e ∈ sys.sessions, e.2 ≠ r.handle
  stored : ∀ id, id ∉ keys sys.sessions → id ≠ [] → Stored sys id
  files : ∀ p id s, sys.written p = some (id, s) → saveToDiskInternal s = sys.disk p
  opened : ∀ p id s, sys.written p = some (id, s) → sys.files.writable p = true

section Steps

variable {sys : System} {id : Bytes} {h : ℕ} {s : SessionKVState}

/-- An entry stays one as long as its state and what it is compared with do not change. -/
theorem Entry.congr {sys' : System} (e : Entry sys id h) (hb : sys.heap.length ≤ sys'.heap.length)
    (hst : sys'.stateOf h = sys.stateOf h) (hl : sys'.latest id = sys.latest id) : Entry sys' id h where
  bound := Nat.lt_of_lt_of_le e.bound hb
  clock := by rw [hst]; exact e.clock
  empty := by rw [hst]; exact e.empty
  latest := by rw [hst, hl]; exact e.latest

/-- A handle belongs to one entry. -/
theorem Good.entry_ne (g : Good sys) (hmem : (id, h) ∈ sys.sessions) {e : Bytes × ℕ}
    (he : e ∈ sys.sessions) (hne : e.1 ≠ id) : e.2 ≠ h := by
  intro heq
  have := List.inj_on_of_nodup_map g.handles he hmem heq
  exact hne (congrArg Prod.fst this)

/-- A new state for an entry, and a new record of what the last `generate` left. -/
theorem Good.setState (g : Good sys) (hmem : (id, h) ∈ sys.sessions)
    (hclock : s.lastAccessedMs < 2 ^ 63 - 1) (hempty : s.isInitialized = true ∨ s.cachedTokens = [])
    {l : Option SessionKVState} (hl : ∀ s0, l = some s0 → Kept s s0) :
    Good { sys with heap := sys.heap.set h s, latest := Function.update sys.latest id l } := by
  have hbound : h < sys.heap.length := (g.entries _ hmem).bound
  refine ⟨g.pos, g.room, g.unique, g.named, g.handles, ?_, g.held, ?_, ?_, g.files, g.opened⟩
  · intro e he
    have hold := g.entries e he
    by_cases hid : e.1 = id
    · have hh : e.2 = h := eq_of_mem g.unique (by rw [← hid] at hmem ⊢; exact he) hmem
      have hst : (sys.heap.set h s).getD e.2 {} = s := by
        rw [hh]
        exact stateOf_set_self hbound
      refine ⟨by simpa using hold.bound, ?_, ?_, ?_⟩ <;> unfold System.stateOf <;> simp only [hst]
      · exact hclock
      · exact hempty
      · intro s0 hs0
        rw [hid, Function.update_self] at hs0
        exact hl s0 hs0
    · exact hold.congr (List.length_set ..).ge (stateOf_set_ne (g.entry_ne hmem he hid))
        (Function.update_of_ne hid ..)
  · intro r hr h0
    simpa using g.own r hr h0
  · intro i hi hi0 s0 hs0
    have hne : i ≠ id := fun heq => hi (by rw [heq]; exact mem_keys.mpr ⟨h, hmem⟩)
    simp only [Function.update_of_ne hne] at hs0
    exact g.stored i hi hi0 s0 hs0

/-- A new state for a request without a session. -/
theorem Good.setOwn (g : Good sys) (hown : ∀ e ∈ sys.sessions, e.2 ≠ h) {l : Option SessionKVState} :
    Good { sys with heap := sys.heap.set h s, latest := Function.update sys.latest [] l } := by
  refine ⟨g.pos, g.room, g.unique, g.named, g.handles, ?_, g.held, ?_, ?_, g.files, g.opened⟩
  · intro e he
    have hid : e.1 ≠ [] := fun heq => g.named (by rw [← heq]; exact List.mem_map_of_mem he)
    exact (g.entries e he).congr (List.length_set ..).ge (stateOf_set_ne (hown e he))
      (Function.update_of_ne hid ..)
  · intro r hr h0
    simpa using g.own r hr h0
  · intro i hi hi0 s0 hs0
    simp only [Function.update_of_ne hi0] at hs0
    exact g.stored i hi hi0 s0 hs0

theorem Good.save (g : Good sys) (hmem : (id, h) ∈ sys.sessions) : Good (sys.save id h) := by
  rcases save_cases sys id h with ⟨-, heq⟩ | ⟨f, hf, hopen, heq⟩
  · rw [heq]
    exact g
  rw [heq]
  refine ⟨g.pos, g.room, g.unique, g.named, g.handles, ?_, g.held, g.own, ?_, ?_, ?_⟩
  · exact fun e he => (g.entries e he).congr le_rfl rfl rfl
  · intro i hi hi0 s0 hs0
    refine (g.stored i hi hi0 s0 hs0).imp (fun h0 => h0) fun hold s hw => ?_
    by_cases hfile : sys.files.file i = sys.files.file id
    · -- the file that two sessions share was written for the other one
      change Function.update sys.written (sys.files.file id) _ (sys.files.file i) = _ at hw
      rw [hfile, Function.update_self, Option.some.injEq, Prod.mk.injEq] at hw
      exact absurd (mem_keys.mpr ⟨h, by rw [← hw.1]; exact hmem⟩) hi
    · refine hold s ?_
      change Function.update sys.written (sys.files.file id) _ (sys.files.file i) = _ at hw
      rwa [Function.update_of_ne hfile] at hw
  · intro p i s hw
    by_cases hp : p = sys.files.file id
    · subst hp
      simp only [Function.update_self, Option.some.injEq, Prod.mk.injEq] at hw ⊢
      rw [← hw.2]
      exact hf
    · simp only [Function.update_of_ne hp] at hw ⊢
      exact g.files p i s hw
  · intro p i s hw
    by_cases hp : p = sys.files.file id
    · rw [hp]
      exact hopen
    · simp only [Function.update_of_ne hp] at hw
      exact g.opened p i s hw

/-- An entry that no request holds may leave the map once its contents are in its file. -/
theorem Good.forget (g : Good sys) (hheld : ∀ r ∈ sys.requests, r.id ≠ id) (hst : Stored sys id) :
    Good { sys with sessions := erase id sys.sessions } := by
  have hsub := erase_sublist id sys.sessions
  refine ⟨g.pos, hsub.length_le.trans g.room, g.unique.sublist (hsub.map _), ?_,
    g.handles.sublist (hsub.map _), ?_, ?_, ?_, ?_, g.files, g.opened⟩
  · exact fun h0 => g.named ((hsub.map Prod.fst).subset h0)
  · exact fun e he => (g.entries e (hsub.subset he)).congr le_rfl rfl rfl
  · intro r hr hr0
    exact mem_erase.mpr ⟨g.held r hr hr0, hheld r hr⟩
  · exact fun r hr hr0 => ⟨(g.own r hr hr0).1, fun e he => (g.own r hr hr0).2 e (hsub.subset he)⟩
  · intro i hi hi0
    by_cases heq : i = id
    · rw [heq]
      exact hst
    · refine g.stored i (fun hmem => hi ?_) hi0
      obtain ⟨x, hx⟩ := mem_keys.mp hmem
      exact mem_keys.mpr ⟨x, mem_erase.mpr ⟨hx, heq⟩⟩

/-- **Evicting an idle session.** -/
theorem Good.evict (g : Good sys) (hne : sys.sessions ≠ []) (hidle : VictimIdle sys) :
    Good (evictOldest sys) ∧ (evictOldest sys).sessions.length < sys.sessions.length := by
  obtain ⟨v, hv, hold, hvi⟩ := oldest_spec hne fun e he => (g.entries e he).clock
  have hfree : ∀ r ∈ sys.requests, r.id ≠ v.1 := by
    intro r hr heq
    have hentry := g.held r hr (fun h0 => g.named (by rw [← h0, heq]; exact List.mem_map_of_mem hv))
    have hh : r.handle = v.2 := eq_of_mem g.unique (by rw [← heq]; exact hentry) hv
    have hi := hvi hidle
    unfold System.idle at hi
    rw [Bool.and_eq_true, Bool.not_eq_true', List.any_eq_false] at hi
    exact hi.1 r hr (by simpa using hh)
  have hlen : (erase v.1 sys.sessions).length < sys.sessions.length := by
    refine lt_of_le_of_ne (erase_sublist _ _).length_le fun heq => ?_
    have hmem := hv
    rw [← (erase_sublist v.1 sys.sessions).eq_of_length heq] at hmem
    exact (mem_erase.mp hmem).2 rfl
  have gs : Good (sys.save v.1 v.2) := g.save hv
  have hentry := g.entries v hv
  rw [evictOldest_eq hold]
  refine ⟨?_, hlen⟩
  rcases save_cases sys v.1 v.2 with ⟨hi, heq⟩ | ⟨f, -, -, heq⟩ <;> rw [heq] at gs ⊢
  · refine gs.forget hfree fun s0 hs0 => ?_
    rcases hi with hi | hclosed
    · -- a session that is not initialised has no tokens
      left
      have htok : (sys.stateOf v.2).cachedTokens = [] :=
        hentry.empty.resolve_left (by rw [hi]; exact Bool.false_ne_true)
      rcases hentry.latest s0 hs0 with h0 | h0
      · exact h0
      · rw [← h0.cachedTokens, htok]
    · -- nothing was ever written to a file that does not open
      right
      intro s hw
      rw [gs.opened _ _ _ hw] at hclosed
      cases hclosed
  · refine gs.forget hfree fun s0 hs0 => ?_
    refine (hentry.latest s0 hs0).imp id fun hsame s hw => ?_
    change Function.update sys.written (sys.files.file v.1) _ (sys.files.file v.1) = _ at hw
    rw [Function.update_self, Option.some.injEq, Prod.mk.injEq] at hw
    rwa [← hw.2]

/-- A new entry. -/
theorem Good.insert (g : Good sys) (hid : id ≠ []) (hnew : id ∉ keys sys.sessions)
    (hlen : sys.sessions.length < sys.maxActive) (hclock : s.lastAccessedMs < 2 ^ 63 - 1)
    (hempty : s.isInitialized = true ∨ s.cachedTokens = [])
    (hl : ∀ s0, sys.latest id = some s0 → Kept s s0) :
    Good { sys with
      heap := sys.heap ++ [s]
      sessions := insertBy bytesLt id sys.heap.length sys.sessions } := by
  have hlength : (sys.heap ++ [s]).length = sys.heap.length + 1 := by simp
  have hperm := insertBy_perm bytesLt id sys.heap.length sys.sessions
  refine ⟨g.pos, ?_, nodup_keys_insertBy g.unique hnew, ?_, nodup_values_insertBy g.handles ?_, ?_, ?_, ?_,
    ?_, g.files, g.opened⟩
  · show (insertBy bytesLt id sys.heap.length sys.sessions).length ≤ sys.maxActive
    rw [hperm.length_eq, List.length_cons]
    omega
  · intro h0
    obtain ⟨x, hx⟩ := mem_keys.mp h0
    rcases mem_insertBy.mp hx with heq | hx
    · exact hid (Prod.mk.inj heq).1.symm
    · exact g.named (mem_keys.mpr ⟨x, hx⟩)
  · intro hmem
    obtain ⟨e, he, heq⟩ := List.mem_map.mp hmem
    have := (g.entries e he).bound
    omega
  · intro e he
    rcases mem_insertBy.mp he with rfl | he
    · have hst : (sys.heap ++ [s]).getD sys.heap.length {} = s := stateOf_append_self
      refine ⟨by rw [hlength]; exact Nat.lt_succ_self _, ?_, ?_, ?_⟩ <;> unfold System.stateOf <;>
        simp only [hst]
      · exact hclock
      · exact hempty
      · exact hl
    · exact (g.entries e he).congr (by rw [hlength]; exact Nat.le_succ _)
        (stateOf_append (g.entries e he).bound) rfl
  · exact fun r hr hr0 => mem_insertBy.mpr (Or.inr (g.held r hr hr0))
  · intro r hr hr0
    obtain ⟨hb, hne⟩ := g.own r hr hr0
    refine ⟨by rw [hlength]; exact Nat.lt_succ_of_lt hb, fun e he => ?_⟩
    rcases mem_insertBy.mp he with rfl | he
    · exact fun heq => absurd hb (by rw [← heq]; exact Nat.lt_irrefl _)
    · exact hne e he
  · intro i hi hi0
    refine g.stored i (fun hmem => hi ?_) hi0
    obtain ⟨x, hx⟩ := mem_keys.mp hmem
    exact mem_keys.mpr ⟨x, mem_insertBy.mpr (Or.inr hx)⟩

/-- A state that only its request will know. -/
theorem Good.fresh (g : Good sys) : Good { sys with heap := sys.heap ++ [s] } := by
  have hlength : (sys.heap ++ [s]).length = sys.heap.length + 1 := by simp
  refine ⟨g.pos, g.room, g.unique, g.named, g.handles, ?_, g.held, ?_, g.stored, g.files, g.opened⟩
  · intro e he
    exact (g.entries e he).congr (by rw [hlength]; exact Nat.le_succ _)
      (stateOf_append (g.entries e he).bound) rfl
  · intro r hr hr0
    exact ⟨by rw [hlength]; exact Nat.lt_succ_of_lt (g.own r hr hr0).1, (g.own r hr hr0).2⟩

/-- `sys'` is `sys` after evictions: the sessions that were not in the map are as they were, and so are the
files but those of the sessions evicted. -/
structure Evicted (sys sys' : System) : Prop where
  good : Good sys'
  room : sys'.sessions.length < sys'.maxActive
  heap : sys'.heap = sys.heap
  requests : sys'.requests = sys.requests
  latest : sys'.latest = sys.latest
  files : sys'.files = sys.files
  absent : ∀ id, id ∉ keys sys.sessions → id ∉ keys sys'.sessions
  apart : ∀ p, (sys.maxActive ≤ sys.sessions.length → ∀ v, sys.oldest = some v → sys.files.file v.1 ≠ p) →
    sys'.disk p = sys.disk p ∧ sys'.written p = sys.written p

/-- **Making room.** The map has at most `max_active_sessions_` entries, so one eviction is enough. -/
theorem Good.evicted (g : Good sys) (hidle : sys.maxActive ≤ sys.sessions.length → VictimIdle sys) :
    Evicted sys (makeRoom sys.sessions.length sys) := by
  have hpos := g.pos
  have hroom := g.room
  by_cases hfull : sys.maxActive ≤ sys.sessions.length
  · obtain ⟨n, hn⟩ : ∃ n, sys.sessions.length = n + 1 := ⟨sys.sessions.length - 1, by omega⟩
    have hne : sys.sessions ≠ [] := by
      rw [← List.length_pos_iff]
      omega
    obtain ⟨v, hv, hold, -⟩ := oldest_spec hne fun e he => (g.entries e he).clock
    obtain ⟨hgood, hlen⟩ := g.evict hne (hidle hfull)
    have hev := evictOldest_eq hold
    obtain ⟨hmax, hheap, -, hreq, hlat, hfiles⟩ := save_frame sys v.1 v.2
    have hmax' : (evictOldest sys).maxActive = sys.maxActive := by
      rw [hev]
      exact hmax
    have hstop : makeRoom sys.sessions.length sys = evictOldest sys := by
      rw [hn, makeRoom, if_pos hfull]
      cases n with
      | zero => rfl
      | succ n => rw [makeRoom, if_neg (by omega)]
    rw [hstop]
    refine ⟨hgood, by omega, by rw [hev]; exact hheap, by rw [hev]; exact hreq, by rw [hev]; exact hlat,
      by rw [hev]; exact hfiles, fun id hid hmem => hid ?_, fun p hp => ?_⟩
    · rw [hev] at hmem
      exact ((erase_sublist v.1 sys.sessions).map Prod.fst).subset hmem
    · have hne' := hp hfull v hold
      rcases save_cases sys v.1 v.2 with ⟨-, heq⟩ | ⟨f, -, -, heq⟩ <;> rw [hev, heq]
      · exact ⟨rfl, rfl⟩
      · exact ⟨Function.update_of_ne hne'.symm .., Function.update_of_ne hne'.symm ..⟩
  · have hstop : makeRoom sys.sessions.length sys = sys := by
      cases sys.sessions.length with
      | zero => rfl
      | succ n => rw [makeRoom, if_neg hfull]
    rw [hstop]
    exact ⟨g, by omega, rfl, rfl, rfl, rfl, fun id hid => hid, fun p _ => ⟨rfl, rfl⟩⟩

/-- The file of a session that is missing is read as it was before the eviction. -/
theorem Evicted.read_eq {sys' : System} (h : Evicted sys sys')
    (hp : sys.maxActive ≤ sys.sessions.length → ∀ v, sys.oldest = some v →
      sys.files.file v.1 ≠ sys.files.file id) : sys'.read id = sys.read id := by
  unfold System.read
  rw [h.files, (h.apart _ hp).1]

/-- What `get_or_create` leaves, and the handle it returns. -/
structure Got (sys : System) (id : Bytes) (r : System × ℕ) : Prop where
  good : Good r.1
  requests : r.1.requests = sys.requests
  entry : id ≠ [] → (id, r.2) ∈ r.1.sessions
  kept : id ≠ [] → ∀ s0, sys.latest id = some s0 → Kept (r.1.stateOf r.2) s0
  own : id = [] → r.2 < r.1.heap.length ∧ ∀ e ∈ r.1.sessions, e.2 ≠ r.2

/-- **`get_or_create`.** -/
theorem Good.got {m : DenseModel} {now : ℤ} (g : Good sys) (hsafe : Safe sys (.get id m now)) :
    Got sys id (getOrCreate sys id m.config now) := by
  obtain ⟨hnow, hmiss⟩ := hsafe
  by_cases hid : id = []
  · unfold getOrCreate
    rw [if_pos hid]
    refine ⟨g.fresh, rfl, fun h0 => absurd hid h0, fun h0 => absurd hid h0, fun _ => ⟨by simp, ?_⟩⟩
    exact fun e he heq => absurd (g.entries e he).bound (by rw [heq]; exact Nat.lt_irrefl _)
  cases hfind : find id sys.sessions with
  | some h =>
    have hmem := mem_of_find hfind
    have hentry := g.entries _ hmem
    have hkept : ∀ s0, sys.latest id = some s0 → Kept (touched (sys.stateOf h) now) s0 := fun s0 hs0 =>
      (hentry.latest s0 hs0).imp (fun h0 => h0) fun hs =>
        ⟨hs.cachedTokens, hs.numKvHeads, hs.headDim, hs.rows⟩
    have hgood := g.setState (s := touched (sys.stateOf h) now) hmem hnow hentry.empty hkept
    rw [Function.update_eq_self] at hgood
    rw [getOrCreate_found hid hfind]
    refine ⟨hgood, rfl, fun _ => hmem, fun _ s0 hs0 => ?_, fun h0 => absurd h0 hid⟩
    unfold System.stateOf
    rw [stateOf_set_self hentry.bound]
    exact hkept s0 hs0
  | none =>
    have hnot := find_eq_none_iff.mp hfind
    have hget := hmiss hid hnot
    have hev := g.evicted hget.victim
    have hnot' := hev.absent id hnot
    have hread := hev.read_eq fun hfull v hv => (hget.evicted hfull v hv).2
    rw [getOrCreate_missing hid hfind rfl]
    generalize makeRoom sys.sessions.length sys = room at hev hnot' hread
    have hkept : ∀ s0, sys.latest id = some s0 →
        Kept (createState m.config now (room.read id)) s0 := by
      intro s0 hs0
      by_cases hnone : s0.cachedTokens = []
      · exact Or.inl hnone
      obtain ⟨hopen, s, hw, hr⟩ := hget.carried s0 hs0 hnone
      have hsame := (g.stored id hnot hid s0 hs0).resolve_left hnone s hw
      have hfile := g.files _ id s hw
      rw [save_eq hr.sessionOf.initialized] at hfile
      rw [hread, System.read, if_pos hopen, ← hfile]
      exact Or.inr ((same_createState hr (save_eq hr.sessionOf.initialized)).trans hsame)
    refine ⟨hev.good.insert hid hnot' hev.room ?_ (createState_empty ..) ?_, hev.requests,
      fun _ => mem_insertBy.mpr (Or.inl rfl), fun _ s0 hs0 => ?_, fun h0 => absurd h0 hid⟩
    · rw [createState_lastAccessedMs]
      exact hnow
    · rw [hev.latest]
      exact hkept
    · unfold System.stateOf
      rw [stateOf_append_self]
      exact hkept s0 hs0

theorem Good.generated {r : Request} (g : Good sys) (c : Call) (hr : r ∈ sys.requests) :
    Good (generateStep sys r c) := by
  unfold generateStep
  by_cases hid : r.id = []
  · rw [hid]
    exact g.setOwn (g.own r hr hid).2
  have hentry := g.entries _ (g.held r hr hid)
  refine g.setState (g.held r hr hid) ?_ ?_ ?_
  · rw [generate_lastAccessedMs]
    exact hentry.clock
  · by_cases hp : c.prompt = []
    · rw [generate_empty hp]
      exact hentry.empty
    · exact Or.inl (generate_initialized hp)
  · intro s0 hs0
    rw [← Option.some.inj hs0]
    exact Or.inr (Same.refl _)

end Steps

end DenseLite.SessionKV.Interleaving
