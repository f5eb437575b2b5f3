import DenseLite.Lib.TopK
import DenseLite.Vector.Index
import Mathlib.Data.Prod.Lex

/-! # The search of the vector index

`TurboQuantIndex::search` goes over the slots with a 32-bit number, passes over those that the mask or `remove` has
taken out, and keeps the best `top_k` in a queue of pairs of score and slot. What a score is does not matter here: it
is any function of the codes of a slot into a linear order.

`search_spec` says what comes back of a consistent index with fewer than `2 ^ 32` slots; on more slots the loop does
not end (`search_eq_none`). -/

namespace DenseLite.Vector.Search

open DenseLite.Lib.BitMask DenseLite.Lib.ByteStream DenseLite.Lib.KeyMap DenseLite.Lib.TopK
open DenseLite.Vector.Index

/-- `TurboQuantHit`. -/
structure TurboQuantHit (K : Type) where
  id : Bytes
  internalIdx : ℕ
  score : K
deriving DecidableEq, Repr

section Code

variable {dim : ℕ} {K : Type} [LinearOrder K] (s : TurboQuantIndex dim) (score : Codes dim → K) (topK : ℕ)

/-- Whether the mask has the bit of a slot; nothing if the mask has no word for it. -/
def readMask (mask : Option Mask) (j : ℕ) : Option Bool :=
  match mask with
  | none => some true
  | some m => (m[j / 64]?).map fun w => (w &&& 1#64 <<< (j % 64)) ≠ 0#64

/-- `min_heap` before and after the slot `j`. -/
def visit (mask : Option Mask) (heap : List (K ×ₗ ℕ)) (j : ℕ) : Option (List (K ×ₗ ℕ)) := do
  let allowed ← readMask mask j
  let qv ← s.vectors[j]?
  if allowed && qv.active then pure (push (fun p => (ofLex p).1) topK heap (toLex (score qv.toCodes, j))) else pure heap

/-- The loop over the slots, whose number has 32 bits, for at most `fuel` rounds. -/
def scan (mask : Option Mask) : (fuel : ℕ) → UInt32 → List (K ×ₗ ℕ) → Option (List (K ×ₗ ℕ))
  | 0, _, _ => none
  | fuel + 1, j, heap =>
    if j.toNat < s.vectors.length then
      (visit s score topK mask heap j.toNat).bind fun heap => scan mask fuel (j + 1) heap
    else some heap

/-- A pair of `min_heap` as a result. -/
def hitOf (p : K ×ₗ ℕ) : Option (TurboQuantHit K) :=
  (s.idByIndex[(ofLex p).2]?).map fun id => ⟨id, (ofLex p).2, (ofLex p).1⟩

/-- `TurboQuantIndex::search`; `normed` says whether the query has a length. -/
def search (fuel : ℕ) (normed : Bool) (mask : Option Mask) : Option (List (TurboQuantHit K)) :=
  if s.vectors.isEmpty ∨ topK = 0 then some []
  else if normed = false then some []
  else (scan s score topK mask fuel 0 []).bind fun heap => (heap.mapM (hitOf s)).map List.reverse

/-- The slot is active, and its id is one of those that are allowed. -/
def Eligible (ids : List Bytes) (j : ℕ) : Prop := ∃ id ∈ ids, ActiveAt s id j

instance (ids : List Bytes) (j : ℕ) : Decidable (Eligible s ids j) := List.decidableBEx _ _

/-- The pair that a slot is kept as, if it is eligible. -/
def candidate (ids : List Bytes) (j : ℕ) : Option (K ×ₗ ℕ) :=
  if Eligible s ids j then (s.vectors[j]?).map fun qv => toLex (score qv.toCodes, j) else none

/-- The hits are the best `top_k` of the eligible slots, the best one first. -/
structure ExactTopK (ids : List Bytes) (hits : List (TurboQuantHit K)) : Prop where
  length : hits.length = min topK ((List.range s.vectors.length).countP fun j => Eligible s ids j)
  sorted : hits.Pairwise fun h h' => h'.score ≤ h.score
  distinct : (hits.map (·.id)).Nodup
  eligible : ∀ h ∈ hits, Eligible s ids h.internalIdx ∧ s.idByIndex[h.internalIdx]? = some h.id ∧
    ∃ qv, s.vectors[h.internalIdx]? = some qv ∧ h.score = score qv.toCodes
  best : ∀ j qv, Eligible s ids j → s.vectors[j]? = some qv → (∀ h ∈ hits, h.internalIdx ≠ j) →
    ∀ h ∈ hits, score qv.toCodes ≤ h.score

end Code

/-! ### The loop -/

section Loop

variable {dim : ℕ} {K : Type} [LinearOrder K] {s : TurboQuantIndex dim} {score : Codes dim → K} {topK : ℕ}
  {mask : Option Mask}

/-- On `2 ^ 32` slots or more the loop does not end. -/
theorem scan_eq_none (hlen : 2 ^ 32 ≤ s.vectors.length) : ∀ (fuel : ℕ) (j : UInt32) (heap : List (K ×ₗ ℕ)),
    scan s score topK mask fuel j heap = none
  | 0, _, _ => rfl
  | fuel + 1, j, heap => by
    rw [scan, if_pos (lt_of_lt_of_le j.toNat_lt hlen)]
    cases visit s score topK mask heap j.toNat with
    | none => rfl
    | some heap' => exact scan_eq_none hlen fuel (j + 1) heap'

/-- On fewer slots it visits those that are left, one after the other. -/
theorem scan_eq_foldlM (hlen : s.vectors.length < 2 ^ 32) : ∀ (n fuel j : ℕ) (heap : List (K ×ₗ ℕ)),
    j + n = s.vectors.length → n < fuel →
    scan s score topK mask fuel (UInt32.ofNat j) heap = (List.range' j n).foldlM (visit s score topK mask) heap
  | n, 0, _, _, _, hfuel => absurd hfuel (Nat.not_lt_zero n)
  | 0, fuel + 1, j, heap, hj, _ => by
    have hnat : (UInt32.ofNat j).toNat = j := by
      rw [UInt32.toNat_ofNat', Nat.mod_eq_of_lt (by omega)]
    rw [scan, hnat, if_neg (by omega)]
    rfl
  | n + 1, fuel + 1, j, heap, hj, hfuel => by
    have hnat : (UInt32.ofNat j).toNat = j := by
      rw [UInt32.toNat_ofNat', Nat.mod_eq_of_lt (by omega)]
    have hsucc : UInt32.ofNat j + 1 = UInt32.ofNat (j + 1) := (UInt32.ofNat_add j 1).symm
    rw [scan, hnat, if_pos (by omega), hsucc, List.range'_succ, List.foldlM_cons]
    refine congrArg _ (funext fun heap' => ?_)
    exact scan_eq_foldlM hlen n fuel (j + 1) heap' (by omega) (by omega)

end Loop

/-! ### The mask of some ids -/

section Mask

variable {dim : ℕ} {K : Type} [LinearOrder K] {s : TurboQuantIndex dim} {score : Codes dim → K} {topK : ℕ}
  {ids : List Bytes} {j : ℕ}

/-- The mask of some ids has the bits of their slots. -/
theorem readMask_buildAllowlistMask (hs : Consistent s) (hj : j < s.vectors.length) :
    readMask (some (buildAllowlistMask s ids)) j = some (decide (∃ id ∈ ids, find id s.indexById = some j)) := by
  have hempty : ¬ s.vectors.isEmpty = true := fun h => by
    rw [List.isEmpty_iff] at h
    rw [h] at hj
    exact absurd hj (Nat.not_lt_zero j)
  have hwords : ∀ i ∈ ids.filterMap (find · s.indexById), i / 64 < (zeros (wordsFor s.vectors.length)).length := by
    intro i hi
    obtain ⟨id, -, hid⟩ := List.mem_filterMap.mp hi
    rw [length_zeros]
    exact div_lt_wordsFor_of_lt (hs.lt hid)
  have hlen : j / 64 < (buildAllowlistMask s ids).length := by
    rw [buildAllowlistMask, if_neg hempty, length_foldl_setBit, length_zeros]
    exact div_lt_wordsFor_of_lt hj
  have hbit : bit (buildAllowlistMask s ids) j = decide (∃ id ∈ ids, find id s.indexById = some j) := by
    rw [buildAllowlistMask, if_neg hempty, bit_foldl_setBit _ hwords, bit_zeros, Bool.false_or]
    exact decide_eq_decide.mpr List.mem_filterMap
  rw [← hbit, bit, readMask, List.getElem?_eq_getElem hlen]
  rfl

/-- A slot is put into the queue exactly when it is eligible. -/
theorem visit_eq (hs : Consistent s) (hj : j < s.vectors.length) (heap : List (K ×ₗ ℕ)) :
    visit s score topK (some (buildAllowlistMask s ids)) heap j =
      some ((candidate s score ids j).toList.foldl (push (fun p => (ofLex p).1) topK) heap) := by
  obtain ⟨qv, hqv⟩ : ∃ qv, s.vectors[j]? = some qv := ⟨_, List.getElem?_eq_getElem hj⟩
  have heligible : Eligible s ids j ↔ (∃ id ∈ ids, find id s.indexById = some j) ∧ qv.active = true := by
    unfold Eligible ActiveAt
    rw [hqv]
    constructor
    · rintro ⟨id, hid, hfind, hactive⟩
      exact ⟨⟨id, hid, hfind⟩, hactive⟩
    · rintro ⟨⟨id, hid, hfind⟩, hactive⟩
      exact ⟨id, hid, hfind, hactive⟩
  unfold visit candidate
  rw [readMask_buildAllowlistMask hs hj, hqv]
  by_cases h : Eligible s ids j
  · obtain ⟨hfind, hactive⟩ := heligible.mp h
    rw [if_pos h, decide_eq_true hfind]
    simp [hactive]
  · rw [if_neg h]
    have hnot : ¬ (decide (∃ id ∈ ids, find id s.indexById = some j) && qv.active) = true := by
      rw [Bool.and_eq_true, decide_eq_true_iff]
      exact fun hboth => h (heligible.mpr hboth)
    show (if (decide (∃ id ∈ ids, find id s.indexById = some j) && qv.active) = true then _ else some heap) = some heap
    rw [if_neg hnot]

theorem foldlM_visit (hs : Consistent s) : ∀ (js : List ℕ) (heap : List (K ×ₗ ℕ)), (∀ j ∈ js, j < s.vectors.length) →
    js.foldlM (visit s score topK (some (buildAllowlistMask s ids))) heap =
      some ((js.filterMap (candidate s score ids)).foldl (push (fun p => (ofLex p).1) topK) heap)
  | [], _, _ => rfl
  | j :: js, heap, hjs => by
    rw [List.foldlM_cons, visit_eq hs (hjs j List.mem_cons_self)]
    have hrest := foldlM_visit hs js ((candidate s score ids j).toList.foldl (push (fun p => (ofLex p).1) topK) heap)
      fun i hi => hjs i (List.mem_cons_of_mem j hi)
    rw [Option.bind_eq_bind, Option.bind_some, hrest, List.filterMap_cons]
    cases candidate s score ids j <;> rfl

end Mask

/-! ### What comes back -/

section Candidates

variable {dim : ℕ} {K : Type} {s : TurboQuantIndex dim} {score : Codes dim → K} {ids : List Bytes}

/-- The pairs of the eligible slots. -/
def candidates (s : TurboQuantIndex dim) (score : Codes dim → K) (ids : List Bytes) : List (K ×ₗ ℕ) :=
  (List.range s.vectors.length).filterMap (candidate s score ids)

theorem candidate_eq_some {j : ℕ} {p : K ×ₗ ℕ} : candidate s score ids j = some p ↔
    Eligible s ids j ∧ ∃ qv, s.vectors[j]? = some qv ∧ p = toLex (score qv.toCodes, j) := by
  unfold candidate
  split_ifs with h
  · rw [Option.map_eq_some_iff]
    simp only [h, true_and, eq_comm]
  · exact iff_of_false (by simp) fun hp => h hp.1

/-- An eligible slot is there. -/
theorem Eligible.lt {j : ℕ} (h : Eligible s ids j) : j < s.vectors.length := by
  obtain ⟨id, -, -, hactive⟩ := h
  by_contra hlt
  rw [List.getElem?_eq_none (Nat.le_of_not_lt hlt)] at hactive
  cases hactive

/-- An eligible slot has an id. -/
theorem Eligible.idByIndex (hs : Consistent s) {j : ℕ} (h : Eligible s ids j) :
    s.idByIndex[j]? = some (s.idByIndex.getD j []) := by
  have hlt := h.lt
  rw [← hs.length_ids] at hlt
  rw [List.getD_eq_getElem?_getD, List.getElem?_eq_getElem hlt, Option.getD_some]

theorem mem_candidates {p : K ×ₗ ℕ} : p ∈ candidates s score ids ↔
    Eligible s ids (ofLex p).2 ∧ ∃ qv, s.vectors[(ofLex p).2]? = some qv ∧ (ofLex p).1 = score qv.toCodes := by
  unfold candidates
  simp only [List.mem_filterMap, List.mem_range, candidate_eq_some]
  constructor
  · rintro ⟨j, -, heligible, qv, hqv, rfl⟩
    exact ⟨heligible, qv, hqv, rfl⟩
  · rintro ⟨heligible, qv, hqv, hscore⟩
    exact ⟨(ofLex p).2, heligible.lt, heligible, qv, hqv, congrArg toLex (Prod.ext hscore rfl)⟩

/-- The slots of the candidates are the eligible ones. -/
theorem map_candidates (score : Codes dim → K) : (candidates s score ids).map (fun p => (ofLex p).2) =
    (List.range s.vectors.length).filter fun j => Eligible s ids j := by
  have hslots : ∀ js : List ℕ, (js.filterMap (candidate s score ids)).map (fun p => (ofLex p).2) =
      js.filter fun j => Eligible s ids j := by
    intro js
    induction js with
    | nil => rfl
    | cons j js ih =>
      by_cases h : Eligible s ids j
      · obtain ⟨qv, hqv⟩ : ∃ qv, s.vectors[j]? = some qv := ⟨_, List.getElem?_eq_getElem h.lt⟩
        have hsome : candidate s score ids j = some (toLex (score qv.toCodes, j)) :=
          candidate_eq_some.mpr ⟨h, qv, hqv, rfl⟩
        rw [List.filterMap_cons_some hsome, List.map_cons, ih, List.filter_cons, if_pos (decide_eq_true h)]
        rfl
      · have hnone : candidate s score ids j = none := if_neg h
        rw [List.filterMap_cons_none hnone, ih, List.filter_cons, if_neg fun htrue => h (of_decide_eq_true htrue)]
  exact hslots _

theorem nodup_slots (score : Codes dim → K) : ((candidates s score ids).map fun p => (ofLex p).2).Nodup := by
  rw [map_candidates]
  exact List.nodup_range.filter _

theorem length_candidates :
    (candidates s score ids).length = (List.range s.vectors.length).countP fun j => Eligible s ids j := by
  rw [List.countP_eq_length_filter, ← map_candidates score, List.length_map]

end Candidates

section Result

variable {dim : ℕ} {K : Type} [LinearOrder K] {s : TurboQuantIndex dim}

theorem mapM_some {α β : Type} {f : α → Option β} {g : α → β} : ∀ {l : List α}, (∀ a ∈ l, f a = some (g a)) →
    l.mapM f = some (l.map g)
  | [], _ => rfl
  | a :: l, h => by
    rw [List.mapM_cons, h a List.mem_cons_self, mapM_some fun b hb => h b (List.mem_cons_of_mem a hb)]
    rfl

/-- The result for a pair whose slot has an id. -/
def hit (s : TurboQuantIndex dim) (p : K ×ₗ ℕ) : TurboQuantHit K :=
  ⟨s.idByIndex.getD (ofLex p).2 [], (ofLex p).2, (ofLex p).1⟩

/-- The best pairs, the best one first, are exact. -/
theorem exactTopK_of_best (hs : Consistent s) {score : Codes dim → K} {topK : ℕ} {ids : List Bytes}
    {heap : List (K ×ₗ ℕ)} (h : Best (fun p => (ofLex p).1) topK (candidates s score ids) heap) :
    ExactTopK s score topK ids (heap.map (hit s)).reverse := by
  have hid : ∀ p ∈ heap, s.idByIndex[(ofLex p).2]? = some (hit s p).id := fun p hp =>
    (mem_candidates.mp (h.mem hp)).1.idByIndex hs
  constructor
  case length => rw [List.length_reverse, List.length_map, h.length, length_candidates]
  case sorted =>
    rw [List.pairwise_reverse, List.pairwise_map]
    exact h.sorted.imp fun hle => Prod.Lex.monotone_fst _ _ hle
  case distinct =>
    rw [List.map_reverse, List.nodup_reverse, List.map_map]
    have hslots := List.pairwise_map.mp (h.nodup_map (nodup_slots score))
    refine List.pairwise_map.mpr (hslots.imp_of_mem fun {p q} hp hq hne heq => hne ?_)
    have hsame : (hit s p).id = (hit s q).id := heq
    -- two slots with one id are one
    have hfind := (hs.inverse _ _).mpr (hid p hp)
    rw [hsame, (hs.inverse _ _).mpr (hid q hq)] at hfind
    exact (Option.some.inj hfind).symm
  case eligible =>
    intro x hx
    obtain ⟨p, hp, rfl⟩ := List.mem_map.mp (List.mem_reverse.mp hx)
    obtain ⟨heligible, hscore⟩ := mem_candidates.mp (h.mem hp)
    exact ⟨heligible, hid p hp, hscore⟩
  case best =>
    intro j qv heligible hqv hout x hx
    obtain ⟨p, hp, rfl⟩ := List.mem_map.mp (List.mem_reverse.mp hx)
    have hin : toLex (score qv.toCodes, j) ∈ candidates s score ids := mem_candidates.mpr ⟨heligible, qv, hqv, rfl⟩
    refine h.key_le hin (fun hkept => ?_) hp
    exact hout _ (List.mem_reverse.mpr (List.mem_map_of_mem hkept)) rfl

/-- The pairs that are kept, the smallest one first. -/
def best (s : TurboQuantIndex dim) (score : Codes dim → K) (topK : ℕ) (ids : List Bytes) : List (K ×ₗ ℕ) :=
  (candidates s score ids).foldl (push (fun p => (ofLex p).1) topK) []

theorem best_candidates (s : TurboQuantIndex dim) (score : Codes dim → K) (topK : ℕ) (ids : List Bytes) :
    Best (fun p => (ofLex p).1) topK (candidates s score ids) (best s score topK ids) := by
  have hbest := best_foldl (k := topK) Prod.Lex.monotone_fst_ofLex (candidates s score ids) best_nil
  rwa [List.nil_append] at hbest

/-- What the search returns of a consistent index with fewer than `2 ^ 32` slots. -/
theorem search_eq (hs : Consistent s) (hlen : s.vectors.length < 2 ^ 32) (score : Codes dim → K) (topK : ℕ)
    (ids : List Bytes) {fuel : ℕ} (hfuel : 2 ^ 32 ≤ fuel) :
    search s score topK fuel true (some (buildAllowlistMask s ids)) =
      some ((best s score topK ids).map (hit s)).reverse := by
  have hbest := best_candidates s score topK ids
  unfold search
  by_cases hnothing : s.vectors.isEmpty = true ∨ topK = 0
  · -- there are no slots, or none are asked for
    have hnone : best s score topK ids = [] := by
      refine List.eq_nil_of_length_eq_zero ?_
      rw [hbest.length]
      rcases hnothing with hempty | hzero
      · rw [candidates, List.isEmpty_iff.mp hempty]
        simp
      · rw [hzero, Nat.zero_min]
    rw [if_pos hnothing, hnone]
    rfl
  · have hloop := @scan_eq_foldlM _ _ _ s score topK (some (buildAllowlistMask s ids)) hlen
      s.vectors.length fuel 0 [] (Nat.zero_add _) (by omega)
    rw [← List.range_eq_range', foldlM_visit hs _ [] fun j hj => List.mem_range.mp hj] at hloop
    have hscan : scan s score topK (some (buildAllowlistMask s ids)) fuel 0 [] = some (best s score topK ids) := hloop
    have hhits : (best s score topK ids).mapM (hitOf s) = some ((best s score topK ids).map (hit s)) := by
      refine mapM_some fun p hp => ?_
      rw [hitOf, (mem_candidates.mp (hbest.mem hp)).1.idByIndex hs, Option.map_some, hit]
    rw [if_neg hnothing, if_neg (by decide), hscan, Option.bind_some, hhits, Option.map_some]

/-- On more slots it does not come back, if there is anything to do. -/
theorem search_eq_none (hlen : 2 ^ 32 ≤ s.vectors.length) (score : Codes dim → K) {topK : ℕ} (htop : topK ≠ 0)
    (mask : Option Mask) (fuel : ℕ) : search s score topK fuel true mask = none := by
  have hnothing : ¬ (s.vectors.isEmpty = true ∨ topK = 0) := by
    rintro (hempty | hzero)
    · rw [List.isEmpty_iff.mp hempty, List.length_nil] at hlen
      omega
    · exact htop hzero
  rw [search, if_neg hnothing, if_neg (by decide), scan_eq_none hlen]
  rfl

/-- **The search is exact** on a consistent index with fewer than `2 ^ 32` slots. -/
theorem search_spec (hs : Consistent s) (hlen : s.vectors.length < 2 ^ 32) (score : Codes dim → K) (topK : ℕ)
    (ids : List Bytes) :
    ∃ hits, (∀ fuel, 2 ^ 32 ≤ fuel → search s score topK fuel true (some (buildAllowlistMask s ids)) = some hits) ∧
      ExactTopK s score topK ids hits :=
  ⟨_, fun _ hfuel => search_eq hs hlen score topK ids hfuel, exactTopK_of_best hs (best_candidates s score topK ids)⟩

end Result

/-! ### Any calls -/

section Runs

variable {dim : ℕ} {K : Type} [LinearOrder K]

/-- **Whatever was added and removed**, the search is exact, as long as fewer than `2 ^ 32` ids have slots. -/
theorem search_run (ops : List (Op dim)) (score : Codes dim → K) (topK : ℕ) (ids : List Bytes)
    (hlen : (ops.foldl step {}).vectors.length < 2 ^ 32) :
    ∃ hits, (∀ fuel, 2 ^ 32 ≤ fuel → search (ops.foldl step {}) score topK fuel true
        (some (buildAllowlistMask (ops.foldl step {}) ids)) = some hits) ∧
      ExactTopK (ops.foldl step {}) score topK ids hits :=
  search_spec (consistent_run ops consistent_empty hlen) hlen score topK ids

theorem length_seven : ([7] : Bytes).length = (1 + 1) / 2 := rfl

/-- Codes of one coordinate, with a scale. -/
def scaled (scale : UInt32) : Codes 1 := ⟨scale, 0, [7], length_seven⟩

/-- Three ids that are added, of which one is removed. -/
def twoAdded : List (Op 1) := [.add [97] (scaled 1), .add [98] (scaled 2), .add [99] (scaled 3), .remove [97]]

theorem search_run_twoAdded :
    ∃ hits, (∀ fuel, 2 ^ 32 ≤ fuel → search (twoAdded.foldl step {}) (fun c => c.scale.toNat) 1 fuel true
        (some (buildAllowlistMask (twoAdded.foldl step {}) [[97], [99]])) = some hits) ∧
      ExactTopK (twoAdded.foldl step {}) (fun c => c.scale.toNat) 1 [[97], [99]] hits :=
  search_run twoAdded _ 1 _ (by decide)

/-- Ids without slots get slots of their own. -/
theorem length_adds (codes : Codes dim) : ∀ (ids : List Bytes) (s : TurboQuantIndex dim), ids.Nodup →
    (∀ id ∈ ids, find id s.indexById = none) →
    ((ids.map fun id => Op.add id codes).foldl step s).vectors.length = s.vectors.length + ids.length
  | [], _, _, _ => rfl
  | id :: ids, s, hnodup, hnew => by
    obtain ⟨hnot, hnodup⟩ := List.nodup_cons.mp hnodup
    have hid := hnew id List.mem_cons_self
    have hrest : ∀ id' ∈ ids, find id' (add s id codes).indexById = none := by
      intro id' hid'
      have hne : id' ≠ id := fun heq => hnot (heq ▸ hid')
      rw [find_add, if_neg hne]
      exact hnew id' (List.mem_cons_of_mem id hid')
    have hlen : (add s id codes).vectors.length = s.vectors.length + 1 := by
      rw [length_add, hid]
      rfl
    rw [List.map_cons, List.foldl_cons]
    show ((ids.map fun id => Op.add id codes).foldl step (add s id codes)).vectors.length = _
    rw [length_adds codes ids _ hnodup hrest, hlen, List.length_cons]
    omega

/-- More ids than a 32-bit number counts. -/
def manyIds : List Bytes := (List.range 4294967296).map (leBytes 5)

theorem nodup_manyIds : manyIds.Nodup := by
  refine List.Nodup.map_on (fun k hk l hl heq => ?_) List.nodup_range
  rw [List.mem_range] at hk hl
  have hval := congrArg leVal heq
  rw [leVal_leBytes, leVal_leBytes] at hval
  omega

def manyAdds : List (Op 1) := manyIds.map fun id => .add id (scaled 1)

/-- The search does not come back of an index with so many slots. -/
theorem search_manyAdds : ¬ ∃ fuel hits, search (manyAdds.foldl step {}) (fun c => c.scale.toNat) 1 fuel true
    (some (buildAllowlistMask (manyAdds.foldl step {}) [])) = some hits := by
  rintro ⟨fuel, hits, hsearch⟩
  have hids : manyIds.length = 4294967296 := by rw [manyIds, List.length_map, List.length_range]
  have hlen : (manyAdds.foldl step {}).vectors.length = 4294967296 := by
    have hadds := length_adds (scaled 1) manyIds ({} : TurboQuantIndex 1) nodup_manyIds fun _ _ => rfl
    rw [hids] at hadds
    exact hadds
  rw [search_eq_none (by rw [hlen]; decide) _ (by decide)] at hsearch
  cases hsearch

end Runs

end DenseLite.Vector.Search
