import Mathlib.Data.List.Infix
import DenseLite.Infer.Reuse

/-! # What a prompt leaves of the context

The length of the truncated prompt, the end of the prefill and the end of the generation are three
comparisons with the context length. Together they let a call emit `ctx_len` less the length of its
effective prompt, which is one token as soon as the prompt is truncated: `emits_reserve_iff`. A context of
eight tokens or more is never the one that leaves no prompt at all, so that a call of a model with an even
head dimension is defined. -/

namespace DenseLite.Infer.Reserve

open DenseLite.Lib.ByteStream
open DenseLite.Infer.State DenseLite.Infer.Generate DenseLite.Infer.Setup DenseLite.Infer.Reuse

/-- A quarter of the context less one token, or `max_tokens` if that is less. -/
def generationReserve (c : Call) : ℤ := min c.maxTokens (c.contextBudget / 4 - 1)

/-- The prompt and the reserve fit the context together; a reserve of one token always does. -/
def LeavesRoom (c : Call) : Prop :=
  generationReserve c = 1 ∨ c.prompt.length + generationReserve c ≤ min c.contextBudget 65536

instance (c : Call) : Decidable (LeavesRoom c) := inferInstanceAs (Decidable (_ ∨ _))

/-- The tokens a call passes over until it has emitted its reserve: the effective prompt from
`start_prefill_idx` on, and every token of the reserve but its last. -/
def fed (m : DenseModel) (s : SessionKVState) (c : Call) : List Token :=
  ((setup m s c).effective ++ drawn c.sample 0 ((generationReserve c).toNat - 1)).drop
    (setup m s c).start

/-- `forward_pass` rejects none of these: the tensors are supported, and the ids in the vocabulary. -/
def Accepted (m : DenseModel) (s : SessionKVState) (c : Call) : Prop :=
  ∀ t ∈ fed m s c, forwardRejects m t = false

/-! ### The tokens passed over -/

section Room

variable {m : DenseModel} {s : SessionKVState} {c : Call}

theorem ctx_eq_of_budget (hb : 0 < c.contextBudget) : ctxOf m c = min c.contextBudget 65536 := by
  unfold ctxOf ctxLen
  rw [if_pos hb]

theorem effective_length (hb : 0 < c.contextBudget) : ((setup m s c).effective.length : ℤ) =
    min (c.prompt.length : ℤ) (min c.contextBudget 65536 - 1) := by
  have hctx := ctx_pos_of_budget (m := m) hb
  have hlen := setup_effective_length (m := m) (s := s) hctx
  rw [ctx_eq_of_budget hb] at hlen hctx
  omega

/-- `LeavesRoom`, with the length of the effective prompt. -/
theorem leavesRoom_iff (hb : 8 ≤ c.contextBudget) (hm : 1 ≤ c.maxTokens) :
    LeavesRoom c ↔ (setup m s c).effective.length + generationReserve c ≤ ctxOf m c := by
  rw [ctx_eq_of_budget (by omega), effective_length (by omega)]
  unfold LeavesRoom generationReserve
  omega

theorem prefix_drawn (sample : ℕ → Token) {n n' : ℕ} (h : n ≤ n') :
    drawn sample 0 n <+: drawn sample 0 n' := by
  have : drawn sample 0 n = (drawn sample 0 n').take n := by
    unfold drawn
    rw [← List.map_take, List.take_range, Nat.min_eq_left h]
  rw [this]
  exact List.take_prefix _ _

/-- A token of the effective prompt from the start on is fed. -/
theorem mem_fed_of_effective {t : Token} (h : t ∈ (setup m s c).effective.drop (setup m s c).start) :
    t ∈ fed m s c := by
  have hle := setup_start_le_effective (m := m) (s := s) (c := c)
  unfold fed
  rw [List.drop_append_of_le_length (by omega)]
  exact List.mem_append_left _ h

/-- The last token of a call that emitted fewer tokens than its reserve is fed. -/
theorem last_mem_fed (hne : (setup m s c).effective ≠ []) {n : ℕ}
    (h : (n : ℤ) < generationReserve c) :
    ((setup m s c).effective ++ drawn c.sample 0 n).getLastD 0 ∈ fed m s c := by
  have hstart := setup_start_le_effective (m := m) (s := s) (c := c)
  have hpos : 0 < (setup m s c).effective.length := List.length_pos_iff.mpr hne
  have hne' : (setup m s c).effective ++ drawn c.sample 0 n ≠ [] := by simp [hne]
  have hpre : (setup m s c).effective ++ drawn c.sample 0 n <+:
      (setup m s c).effective ++ drawn c.sample 0 ((generationReserve c).toNat - 1) :=
    List.prefix_append_right_inj _ |>.mpr (prefix_drawn c.sample (by omega))
  have hdrop : ((setup m s c).effective ++ drawn c.sample 0 n).drop (setup m s c).start ≠ [] := by
    rw [← List.length_pos_iff, List.length_drop, List.length_append]
    omega
  rw [getLastD_eq_getLast hne', ← List.getLast_drop hdrop]
  exact (hpre.drop _).subset (List.getLast_mem hdrop)

/-! ### How many tokens a call emits -/

theorem generated_of_prefillFailed {j : ℕ} {st : InferenceState} (hp : c.prompt ≠ [])
    (hmax : 0 ≤ c.maxTokens) (hf : PrefillFailed m s c j st) : (generate m s c).generated = [] := by
  have hstop := hf.stop
  revert hstop
  simp only [generate, if_neg hp, if_neg (show ¬ c.maxTokens < 0 by omega)]
  split
  · exact fun _ => rfl
  · -- the generation loop never stops with this constructor
    intro hstop
    obtain ⟨n, st, st', -, -, -, -, -, h⟩ := generateLoop_spec m (ctxLen m.config c.contextBudget)
      c.sample c.maxTokens.toNat 0 ((setup m s c).effective.getLastD 0)
      { (setup m s c).session with state := _, cachedTokens := (setup m s c).effective } []
    rw [hstop] at h
    exact h.elim

/-- The passes of a call that emitted its reserve run over all the tokens fed. -/
theorem accepted_of_generated {n : ℕ} {st st' : InferenceState} (hg : Generated m s c n st st')
    (h1 : 1 ≤ generationReserve c) (hn : generationReserve c ≤ n) : Accepted m s c := by
  have hlast : drawn c.sample 0 n ≠ [] := by
    rw [← List.length_pos_iff, length_drawn]
    omega
  have hdl : (drawn c.sample 0 n).dropLast = drawn c.sample 0 (n - 1) := by
    unfold drawn
    rw [List.dropLast_eq_take, List.length_map, List.length_range, ← List.map_take, List.take_range,
      Nat.min_eq_left (by omega)]
  have hpre : (setup m s c).effective ++ drawn c.sample 0 ((generationReserve c).toNat - 1) <+:
      ((setup m s c).effective ++ drawn c.sample 0 n).dropLast := by
    rw [List.dropLast_append_of_ne_nil hlast, hdl]
    exact List.prefix_append_right_inj _ |>.mpr (prefix_drawn c.sample (by omega))
  intro t ht
  exact hg.passes.accepted t ((hpre.drop _).subset ht)

/-- A call that generates, feeds only accepted tokens and draws no end of sequence stops at
`max_tokens` or at the end of its context, or has emitted its reserve before. -/
theorem reserve_le_of_generated {n : ℕ} {st st' : InferenceState} (hg : Generated m s c n st st')
    (hctx : 0 < ctxOf m c) (hne : (setup m s c).effective ≠ [])
    (he : ∀ i, isEos m (c.sample i) = false) (hacc : Accepted m s c)
    (hroom : (setup m s c).effective.length + generationReserve c ≤ ctxOf m c) :
    generationReserve c ≤ n := by
  have hpos := hg.pos hctx (by simp [hne])
  rw [List.length_append, length_drawn] at hpos
  have hstop := hg.stop
  cases hs : (generate m s c).stop <;> rw [hs] at hstop
  case maxTokens =>
    have := hstop.2
    unfold generationReserve
    omega
  case contextLimit =>
    have := hstop.2.2
    push_cast at hpos
    omega
  case generationFailed i =>
    by_contra hlt
    have hrej := hstop.2.2.2.2
    rw [hacc _ (last_mem_fed hne (by omega))] at hrej
    exact Bool.noConfusion hrej
  case eos =>
    have := hstop.2.2.2
    rw [he n] at this
    exact Bool.noConfusion this
  all_goals exact hstop.elim

/-- A call emits its reserve exactly when there is room for it and no pass on the way is rejected. -/
theorem reserve_le_iff (hp : c.prompt ≠ []) (hb : 8 ≤ c.contextBudget) (hm : 1 ≤ c.maxTokens)
    (he : ∀ i, isEos m (c.sample i) = false) :
    generationReserve c ≤ (generate m s c).generated.length ↔ LeavesRoom c ∧ Accepted m s c := by
  have hctx := ctx_pos_of_budget (m := m) (c := c) (by omega)
  have h1 : 1 ≤ generationReserve c := by
    unfold generationReserve
    omega
  have hne : (setup m s c).effective ≠ [] := by
    have hlen := effective_length (m := m) (s := s) (c := c) (by omega)
    have := List.length_pos_iff.mpr hp
    rw [← List.length_pos_iff]
    omega
  rw [leavesRoom_iff (m := m) (s := s) hb hm]
  rcases generate_spec (m := m) (s := s) hp (by omega) hctx with ⟨j, st, hf⟩ | ⟨n, st, st', hg⟩
  · rw [generated_of_prefillFailed hp (by omega) hf]
    obtain ⟨t, ht, hrej⟩ := hf.rejected
    have hmem : t ∈ (setup m s c).effective.drop (setup m s c).start :=
      ((List.dropLast_prefix _).drop _).subset (List.mem_of_getElem? ht)
    constructor
    · intro h
      rw [List.length_nil] at h
      omega
    · rintro ⟨-, hacc⟩
      rw [hacc t (mem_fed_of_effective hmem)] at hrej
      exact Bool.noConfusion hrej
  · rw [hg.generated, length_drawn]
    constructor
    · intro hn
      have hroom := hg.room (n - 1) (by omega)
      exact ⟨by omega, accepted_of_generated hg h1 hn⟩
    · rintro ⟨hroom, hacc⟩
      exact reserve_le_of_generated hg hctx hne he hacc hroom

end Room

/-- **The reserve**: a call without an end of sequence is defined and emits its reserve exactly when the
head dimension is even, the prompt leaves room for the reserve and no forward pass on the way is
rejected. -/
theorem emits_reserve_iff (m : DenseModel) (s : SessionKVState) (c : Call) (hp : c.prompt ≠ [])
    (hb : 8 ≤ c.contextBudget) (hm : 1 ≤ c.maxTokens) (he : ∀ i, isEos m (c.sample i) = false) :
    Defined m s c ∧ generationReserve c ≤ (generate m s c).generated.length ↔
      EvenHead m.config ∧ LeavesRoom c ∧ Accepted m s c := by
  have hone : ctxOf m c ≠ 1 := by
    rw [ctx_eq_of_budget (by omega)]
    omega
  have hstarts : StartsDefined m c ↔ EvenHead m.config := by
    unfold StartsDefined
    rw [or_iff_right hp, and_iff_left (Or.inr hone)]
  rw [defined_iff, hstarts, reserve_le_iff hp hb hm he]

/-- Nine tokens in a context of twelve, and one short of them. -/
def ninePrompt : Call := ⟨[1, 2, 3, 4, 5, 6, 7, 8, 1], 2, 12, fun _ => 3⟩

theorem emits_reserve_iff_nine :
    Defined tinyModel {} ninePrompt ∧
        generationReserve ninePrompt ≤ (generate tinyModel {} ninePrompt).generated.length ↔
      EvenHead tinyModel.config ∧ LeavesRoom ninePrompt ∧ Accepted tinyModel {} ninePrompt :=
  emits_reserve_iff tinyModel {} ninePrompt (by decide) (by decide) (by decide)
    fun _ => (by decide +kernel : isEos tinyModel 3 = false)

/-- Twelve tokens in a context of twelve. -/
def twelvePrompt : Call := ⟨[1, 2, 3, 4, 5, 6, 7, 8, 1, 2, 3, 4], 2, 12, fun _ => 3⟩

/-- They are truncated to eleven: one token is emitted where two are reserved. -/
theorem truncated_emits_one : (∀ i, isEos tinyModel (twelvePrompt.sample i) = false) ∧
    StartsDefined tinyModel twelvePrompt ∧ Accepted tinyModel {} twelvePrompt ∧
    generationReserve twelvePrompt = 2 ∧ (generate tinyModel {} twelvePrompt).generated = [3] := by
  have hfed : (fed tinyModel {} twelvePrompt).all (fun t => !forwardRejects tinyModel t) = true := by
    decide +kernel
  refine ⟨fun _ => (by decide +kernel : isEos tinyModel 3 = false), by decide, fun t ht => ?_, rfl,
    by decide +kernel⟩
  simpa using List.all_eq_true.mp hfed t ht

end DenseLite.Infer.Reserve
