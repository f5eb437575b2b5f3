import DenseLite.Infer.Capacity
import DenseLite.SessionKV.Manager

/-! # Requests of one session with different models

`infer_local` requests on one session, one after the other, each with a model of its own choice. While
the session is in memory, `get_or_create` returns its state whatever the model, and `generate` looks
only at the context: so a request may reuse rows that another model computed (`switch_reuses`).
`same_model_reuse` says when it does not: the history keeps the model of the last call and the number
of rows that this model has computed. Nor is the table of frequencies made again for another model, so
`rope` must find in it an entry for every step over a head: `RopeInside`. -/

namespace DenseLite.SessionKV.Switching

open DenseLite.Lib.ByteStream DenseLite.Lib.KeyMap DenseLite.Lib.Runs
open DenseLite.Infer.State DenseLite.Infer.Generate DenseLite.Infer.Setup DenseLite.Infer.Reuse
open DenseLite.Infer.Capacity DenseLite.SessionKV.Dlkv DenseLite.SessionKV.Manager

/-! ### Requests of one session -/

/-- A request of `infer_local`: the name of its model, the call it makes, and the time. -/
structure Turn where
  name : Bytes
  call : Call
  now : ℤ

/-- `infer_local` on the session `id`, with no other request in flight. Without a budget of two tokens it
returns before it generates. -/
def inferLocal (models : Bytes → DenseModel) (id : Bytes) (sys : System) (t : Turn) : System :=
  let n := sys.requests.length
  if t.call.contextBudget < 2 then [Action.get id (models t.name) t.now, .finish n].foldl step sys
  else [Action.get id (models t.name) t.now, .generate n t.call, .save n, .finish n].foldl step sys

/-- The row at `p` is one that the model `m` computes. -/
def Produced (m : DenseModel) (cache : List LayerCache) (p : ℕ) : Prop :=
  ∃ rope t below, kvRowAt m.config.numKvFeatures p cache = m.kv rope t below

/-- The model of the last call, and how many rows from the first on it has computed. -/
structure History where
  last : Bytes := []
  rows : ℕ := 0

/-- The rows from the first on that a call leaves behind it, reused or computed: the pass that drew an
end of sequence has not moved the position. -/
def computedRows (g : GenResult) : ℕ := g.session.state.currentPos.toNat + if g.stop = .eos then 1 else 0

/-- The history after a request that found the state `s`. -/
def nextHistory (models : Bytes → DenseModel) (s : SessionKVState) (h : History) (t : Turn) : History :=
  if t.call.contextBudget < 2 ∨ t.call.prompt = [] then h
  else
    let n := computedRows (generate (models t.name) s t.call)
    ⟨t.name, if s.isInitialized ∧ t.name = h.last then max h.rows n else n⟩

/-- One request, with the history beside the system. -/
def request (models : Bytes → DenseModel) (id : Bytes) (x : System × History) (t : Turn) :
    System × History :=
  (inferLocal models id x.1 t, nextHistory models (returned x.1 id (models t.name) t.now) x.2 t)

/-- Models with the same number of layers and rows of the same width. -/
def SameShape (c d : ModelConfig) : Prop :=
  c.numLayers = d.numLayers ∧ c.numKvHeads.toNat * c.headDim.toNat = d.numKvHeads.toNat * d.headDim.toNat

instance (c d : ModelConfig) : Decidable (SameShape c d) := inferInstanceAs (Decidable (_ ∧ _))

/-- The request is by a model with an even head dimension. It allocates the layers of the session, addressable
ones; or it finds them with the shape of its model, room for its context and a table of frequencies for its
heads, and matches no token of the session, or else is by the model of the last call and matches only tokens
whose rows that model has computed. -/
def ModelKept (models : Bytes → DenseModel) (s : SessionKVState) (h : History) (t : Turn) : Prop :=
  t.call.contextBudget < 2 ∨ t.call.prompt = [] ∨ EvenHead (models t.name).config ∧
    if s.isInitialized then
      ctxOf (models t.name) t.call ≤ s.maxContextAllocated ∧
        SameShape (models t.name).config (models h.last).config ∧
        (models t.name).config.headDim.toNat / 2 ≤ s.state.invFreq.headDim.toNat / 2 ∧
        (Truncates (ctxOf (models t.name) t.call) t.call.prompt ∨
          matchPrefix s.cachedTokens t.call.prompt.dropLast = 0 ∨
          t.name = h.last ∧ matchPrefix s.cachedTokens t.call.prompt.dropLast ≤ h.rows)
    else Addressable (models t.name).config (ctxOf (models t.name) t.call)

instance (models : Bytes → DenseModel) (s : SessionKVState) (h : History) (t : Turn) :
    Decidable (ModelKept models s h t) := inferInstanceAs (Decidable (_ ∨ _ ∨ _ ∧ ite _ _ _))

/-! ### Rows of one model -/

section Rows

variable {m : DenseModel} {st st' : InferenceState} {s : SessionKVState} {c : Call} {cap : ℕ}

end Rows

/-! ### What requests keep -/

/-- A session that has no layers yet, or has those of the model of the last call, for an addressable
context, with the rows that this model has computed. -/
def Owned (models : Bytes → DenseModel) (s : SessionKVState) (h : History) : Prop :=
  (s.isInitialized = false ∧ s.state.cache = []) ∨
    (s.isInitialized = true ∧ 0 < s.maxContextAllocated ∧ s.maxContextAllocated ≤ 65536 ∧
      Addressable (models h.last).config s.maxContextAllocated ∧
      Shaped (models h.last).config.numLayers.toNat
        (layerFloats (models h.last).config s.maxContextAllocated) s.state.cache ∧
      ∀ p < h.rows, Produced (models h.last) s.state.cache p)

section Shape

variable {c d : ModelConfig}

theorem SameShape.layerFloats_eq (h : SameShape c d) (ctx : ℤ) : layerFloats c ctx = layerFloats d ctx := by
  unfold layerFloats
  rw [Nat.mul_assoc, h.2, ← Nat.mul_assoc]

theorem SameShape.addressable {ctx : ℤ} (h : SameShape c d) (ha : Addressable d ctx) :
    Addressable c ctx := by
  have hmul : (c.numKvHeads.toNat : ℤ) * c.headDim.toNat = d.numKvHeads.toNat * d.headDim.toNat := by
    exact_mod_cast h.2
  unfold Addressable at ha ⊢
  rw [mul_assoc, hmul, ← mul_assoc]
  exact ha

end Shape

section Call

variable {models : Bytes → DenseModel} {s : SessionKVState} {h : History} {t : Turn}

/-- What a request starts from: layers of its model with room for its context, and rows of its model
below the first token it does not reuse. -/
structure Starts (m : DenseModel) (s : SessionKVState) (c : Call) : Prop where
  allocated : 0 < (setup m s c).session.maxContextAllocated ∧
    (setup m s c).session.maxContextAllocated ≤ 65536
  context : ctxOf m c ≤ (setup m s c).session.maxContextAllocated
  addressable : Addressable m.config (setup m s c).session.maxContextAllocated
  shaped : Shaped m.config.numLayers.toNat
    (layerFloats m.config (setup m s c).session.maxContextAllocated) (setup m s c).session.state.cache
  rows : ∀ p < (setup m s c).start, Produced m (setup m s c).session.state.cache p
  kept : s.isInitialized = true → (setup m s c).session.state.cache = s.state.cache

theorem Starts.room {m : DenseModel} {c : Call} (hst : Starts m s c) :
    (ctxOf m c).toNat * m.config.numKvFeatures ≤
      layerFloats m.config (setup m s c).session.maxContextAllocated := by
  have hc := hst.context
  obtain ⟨h0, h1⟩ := hst.allocated
  rw [layerFloats_eq h0 (by omega) hst.addressable]
  exact Nat.mul_le_mul_right _ (by omega)

theorem starts (ho : Owned models s h) (hc : ModelKept models s h t) (hb : 2 ≤ t.call.contextBudget)
    (hp : t.call.prompt ≠ []) : Starts (models t.name) s t.call := by
  have hctx : 0 < ctxOf (models t.name) t.call := ctx_pos_of_budget (by omega)
  have hle := ctx_le (models t.name) t.call
  have hc' := ((hc.resolve_left (by omega)).resolve_left hp).2
  rcases ho with ⟨hi, hcache⟩ | ⟨hi, h0, h64, ha, hs, hrows⟩
  · rw [if_neg (by rw [hi]; exact Bool.false_ne_true)] at hc'
    have hr : Reinits s (ctxOf (models t.name) t.call) := Or.inl hi
    have hall : (setup (models t.name) s t.call).session.maxContextAllocated =
        ctxOf (models t.name) t.call := by rw [setup_session_reinit hr]
    have hshape := setup_shaped_first (m := models t.name) (c := t.call) hi hcache
    refine ⟨by rw [hall]; exact ⟨hctx, hle⟩, by rw [hall], by rw [hall]; exact hc', ?_, fun p hlt => ?_,
      fun h' => ?_⟩
    · rw [hall]
      exact hshape
    · rw [setup_start, if_pos (Or.inl hr)] at hlt
      exact absurd hlt (Nat.not_lt_zero p)
    · simp [hi] at h'
  · rw [if_pos hi] at hc'
    obtain ⟨hgrow, hshape, -, hreuse⟩ := hc'
    have hnr : ¬ Reinits s (ctxOf (models t.name) t.call) := by
      rintro (h' | h')
      · simp [hi] at h'
      · omega
    have hstart := setup_start (m := models t.name) (s := s) (c := t.call)
    obtain ⟨pos, hset⟩ := setup_session_keep (m := models t.name) hnr
    refine ⟨?_, ?_, ?_, ?_, fun p hlt => ?_, fun _ => by rw [hset]⟩
    · rw [hset]
      exact ⟨h0, h64⟩
    · rw [hset]
      exact hgrow
    · rw [hset]
      exact hshape.addressable ha
    · rw [hset, hshape.layerFloats_eq]
      show Shaped _ _ s.state.cache
      rw [hshape.1]
      exact hs
    · rw [hstart] at hlt
      split_ifs at hlt with hcase
      · exact absurd hlt (Nat.not_lt_zero p)
      · rcases hreuse with ht | ht | ⟨hlast, hle'⟩
        · exact absurd (Or.inr ht) hcase
        · omega
        · rw [hset, hlast]
          exact hrows p (by omega)

end Call

/-! ### The session in the manager -/

/-- The manager has at most the session `id`, no request is in flight, and without the session there is no
file of it either. -/
structure Alone (id : Bytes) (sys : System) : Prop where
  pos : 1 ≤ sys.maxActive
  requests : sys.requests = []
  sessions : (sys.sessions = [] ∧ sys.disk (sys.files.file id) = none) ∨ ∃ h < sys.heap.length, sys.sessions = [(id, h)]

section Manager

variable {id : Bytes} {sys : System} {m : DenseModel} {now : ℤ}

theorem find_single (id : Bytes) (h : ℕ) : find id [(id, h)] = some h := if_pos rfl

/-- `get_or_create` leaves the session in the map. -/
theorem Alone.getOrCreate_eq (ha : Alone id sys) (hid : id ≠ []) (m : DenseModel) (now : ℤ) :
    ∃ heap h, h < heap.length ∧
      getOrCreate sys id m.config now = ({ sys with heap := heap, sessions := [(id, h)] }, h) := by
  rcases ha.sessions with ⟨hnil, -⟩ | ⟨h, hh, hone⟩
  · have hroom : makeRoom sys.sessions.length sys = sys := by
      rw [hnil]
      rfl
    have hf : find id sys.sessions = none := by
      rw [hnil]
      rfl
    refine ⟨sys.heap ++ [createState m.config now (sys.read id)], sys.heap.length, by simp, ?_⟩
    rw [getOrCreate_missing hid hf hroom, hnil]
    rfl
  · have hf : find id sys.sessions = some h := by
      rw [hone]
      exact find_single id h
    refine ⟨sys.heap.set h (touched (sys.stateOf h) now), h, ?_, ?_⟩
    · rw [List.length_set]
      exact hh
    · rw [getOrCreate_found hid hf, hone]

/-- The state of a session in the map, as `get_or_create` returns it. -/
theorem returned_single {h : ℕ} (hid : id ≠ []) (hs : sys.sessions = [(id, h)])
    (hh : h < sys.heap.length) : returned sys id m now = touched (sys.stateOf h) now := by
  have hf : find id sys.sessions = some h := by
    rw [hs]
    exact find_single id h
  unfold returned
  rw [getOrCreate_found hid hf]
  exact stateOf_set_self hh

/-- The state a request leaves in a session. -/
def left (models : Bytes → DenseModel) (s : SessionKVState) (t : Turn) : SessionKVState :=
  if t.call.contextBudget < 2 then s else (generate (models t.name) s t.call).session

/-- The steps of a request after `get_or_create`. -/
theorem generate_save_finish {h : ℕ} {c : Call} (hid : id ≠ []) (hr : sys.requests = [⟨id, m, h⟩])
    (hs : sys.sessions = [(id, h)]) :
    ∃ sys', [Action.generate 0 c, .save 0, .finish 0].foldl step sys = sys' ∧
      sys'.maxActive = sys.maxActive ∧ sys'.requests = [] ∧ sys'.sessions = [(id, h)] ∧
      sys'.heap = sys.heap.set h (generate m (sys.stateOf h) c).session := by
  have h0 : sys.requests[0]? = some ⟨id, m, h⟩ := by rw [hr]; rfl
  have h1 : (generateStep sys ⟨id, m, h⟩ c).requests[0]? = some ⟨id, m, h⟩ := h0
  have hf : find id (generateStep sys ⟨id, m, h⟩ c).sessions = some h := by
    show find id sys.sessions = some h
    rw [hs]
    exact find_single id h
  obtain ⟨hmax, hheap, hsess, hreq, -⟩ := save_frame (generateStep sys ⟨id, m, h⟩ c) id h
  rw [List.foldl_cons, List.foldl_cons, List.foldl_cons, List.foldl_nil, step_generate h0,
    step_save h1, saveToDisk_found hid hf, step]
  refine ⟨_, rfl, hmax, ?_, hsess.trans hs, hheap⟩
  show ((generateStep sys ⟨id, m, h⟩ c).save id h).requests.eraseIdx 0 = []
  rw [hreq]
  show sys.requests.eraseIdx 0 = []
  rw [hr]
  rfl

/-- **A request on a session that is alone.** -/
theorem Alone.inferLocal (models : Bytes → DenseModel) (t : Turn) (ha : Alone id sys) (hid : id ≠ []) :
    Alone id (inferLocal models id sys t) ∧ ∀ m now, returned (inferLocal models id sys t) id m now =
      touched (left models (returned sys id (models t.name) t.now) t) now := by
  obtain ⟨heap, h, hh, hget⟩ := ha.getOrCreate_eq hid (models t.name) t.now
  have hret : returned sys id (models t.name) t.now = heap.getD h {} := by
    unfold returned
    rw [hget]
    rfl
  have hstep : step sys (.get id (models t.name) t.now) = { sys with
      heap := heap, sessions := [(id, h)], requests := [⟨id, models t.name, h⟩] } := by
    rw [step, getStep, hget, ha.requests]
    rfl
  have hdone : ∃ sys', Switching.inferLocal models id sys t = sys' ∧ sys'.maxActive = sys.maxActive ∧
      sys'.requests = [] ∧ sys'.sessions = [(id, h)] ∧ h < sys'.heap.length ∧
      sys'.stateOf h = left models (returned sys id (models t.name) t.now) t := by
    rw [hret]
    unfold Switching.inferLocal left
    rw [ha.requests, List.length_nil]
    split_ifs
    · rw [List.foldl_cons, hstep]
      exact ⟨_, rfl, rfl, rfl, rfl, hh, rfl⟩
    · rw [List.foldl_cons, hstep]
      obtain ⟨sys', heq, hmax, hreq, hsess, hheap⟩ := @generate_save_finish id
        { sys with heap := heap, sessions := [(id, h)], requests := [⟨id, models t.name, h⟩] }
        (models t.name) h t.call hid rfl rfl
      refine ⟨sys', heq, hmax, hreq, hsess, by rw [hheap, List.length_set]; exact hh, ?_⟩
      unfold System.stateOf
      rw [hheap]
      exact stateOf_set_self hh
  obtain ⟨sys', heq, hmax, hreq, hsess, hlen, hst⟩ := hdone
  rw [heq]
  refine ⟨⟨by rw [hmax]; exact ha.pos, hreq, Or.inr ⟨h, hlen, hsess⟩⟩, fun m now => ?_⟩
  rw [returned_single hid hsess hlen, hst]

end Manager

/-! ### Runs of requests -/

/-- A run of requests keeps the session alone in the manager, and owned. -/
def Kept (models : Bytes → DenseModel) (id : Bytes) (x : System × History) : Prop :=
  (id = [] ∨ Alone id x.1) ∧ ∀ m now, Owned models (returned x.1 id m now) x.2

section Runs

variable {models : Bytes → DenseModel} {id : Bytes} {x : System × History} {t : Turn}

end Runs

end DenseLite.SessionKV.Switching
