import DenseLite.Lib.BitMask
import DenseLite.Lib.ByteStream
import DenseLite.Lib.Live
import DenseLite.Lib.Runs

/-! # The vector index

`TurboQuantIndex`: a table of slots that only grows, the id of each slot, and the slot of each id. `remove`
marks the slot of an id as not active, and `add` of a known id writes its slot anew. What rotation and
quantization make of a vector is an input (`Codes`), since it is computed in floating point.

An index is `Consistent` when its two id tables are inverse to each other; `isActive_add` and
`isActive_remove` say which ids are active after a step. -/

namespace DenseLite.Vector.Index

open DenseLite.Lib.BitMask DenseLite.Lib.ByteStream DenseLite.Lib.KeyMap DenseLite.Lib.Live

/-! ### Slots -/

/-- What `quantize_rotated` writes into a slot: two floats as their bit patterns, and four bits for each
coordinate. -/
structure Codes (dim : ℕ) where
  scale : UInt32
  offset : UInt32
  packed : Bytes
  length_packed : packed.length = (dim + 1) / 2
deriving DecidableEq, Repr

/-- `QuantizedVector`. -/
structure QuantizedVector (dim : ℕ) extends Codes dim where
  active : Bool := true
deriving DecidableEq, Repr

/-- `TurboQuantIndex`. -/
structure TurboQuantIndex (dim : ℕ) where
  vectors : List (QuantizedVector dim) := []
  idByIndex : List Bytes := []
  indexById : List (Bytes × ℕ) := []
deriving DecidableEq, Repr

section Operations

variable {dim : ℕ} (s : TurboQuantIndex dim) (id : Bytes)

/-- The slot that `add` writes: that of a known id, or the next one, in 32 bits. -/
def slotFor : ℕ := (find id s.indexById).getD (s.vectors.length % 2 ^ 32)

/-- A new slot for the id; its number is a 32-bit one. -/
def push (qv : QuantizedVector dim) : TurboQuantIndex dim where
  vectors := s.vectors ++ [qv]
  idByIndex := s.idByIndex ++ [id]
  indexById := set id (s.vectors.length % 2 ^ 32) s.indexById

/-- `TurboQuantIndex::add`. -/
def add (codes : Codes dim) : TurboQuantIndex dim :=
  match find id s.indexById with
  | some i => { s with vectors := s.vectors.set i { toCodes := codes } }
  | none => push s id { toCodes := codes }

/-- `TurboQuantIndex::remove`. -/
def remove : TurboQuantIndex dim × Bool :=
  match find id s.indexById with
  | some i => ({ s with vectors := s.vectors.modify i fun v => { v with active := false } }, true)
  | none => (s, false)

/-- `TurboQuantIndex::size`: the number of active slots. -/
def size : ℕ := s.vectors.countP (·.active)

/-- `TurboQuantIndex::build_allowlist_mask`. -/
def buildAllowlistMask (allowedIds : List Bytes) : Mask :=
  if s.vectors.isEmpty then []
  else (allowedIds.filterMap (find · s.indexById)).foldl setBit (zeros (wordsFor s.vectors.length))

/-- The words of its mask that `TurboQuantIndex::search` reads: it goes through the slots with a number of 32
bits, unless the query has length zero (`normed`) or there is nothing to do. -/
def wordsRead (normed : Bool) (topK : ℕ) : List ℕ :=
  if s.vectors.isEmpty ∨ topK = 0 ∨ normed = false then []
  else (List.range (min s.vectors.length (2 ^ 32))).map (· / 64)

/-- `i` is the slot of the id, and it is active. -/
def ActiveAt (i : ℕ) : Prop := find id s.indexById = some i ∧ (s.vectors[i]?).any (·.active) = true

/-- The id has a slot that is active. -/
def IsActive : Prop := ∃ i, ActiveAt s id i

instance (i : ℕ) : Decidable (ActiveAt s id i) := instDecidableAnd

instance : Decidable (IsActive s id) :=
  decidable_of_iff ((find id s.indexById).any fun i => (s.vectors[i]?).any (·.active)) (by
    rw [Option.any_eq_true]
    exact Iff.rfl)

/-- The two id tables are inverse to each other, and every slot has an id. -/
structure Consistent : Prop where
  length_ids : s.idByIndex.length = s.vectors.length
  inverse : ∀ id i, find id s.indexById = some i ↔ s.idByIndex[i]? = some id

end Operations

/-! ### What a step does -/

section Steps

variable {dim : ℕ} {s : TurboQuantIndex dim} {id id' : Bytes} {codes : Codes dim} {i : ℕ}

theorem consistent_empty : Consistent ({} : TurboQuantIndex dim) := ⟨rfl, by simp [find]⟩

theorem Consistent.lt (h : Consistent s) (hid : find id s.indexById = some i) : i < s.vectors.length := by
  rw [← h.length_ids]
  exact (List.getElem?_eq_some_iff.mp ((h.inverse id i).mp hid)).1

theorem Consistent.slot_inj (h : Consistent s) (hid : find id s.indexById = some i)
    (hid' : find id' s.indexById = some i) : id' = id := by
  rw [h.inverse] at hid hid'
  exact Option.some.inj (hid'.symm.trans hid)

/-- A list with one more element at its end. -/
theorem getElem?_concat {α : Type*} (l : List α) (a : α) (j : ℕ) :
    (l ++ [a])[j]? = if j = l.length then some a else l[j]? := by
  by_cases hj : j = l.length
  · rw [hj, if_pos rfl, List.getElem?_concat_length]
  · rw [if_neg hj]
    rcases Nat.lt_or_gt_of_ne hj with hlt | hgt
    · exact List.getElem?_append_left hlt
    · have hlen : (l ++ [a]).length = l.length + 1 := List.length_append
      rw [List.getElem?_eq_none (by omega), List.getElem?_eq_none (by omega)]

/-- The slots of the ids after an addition. -/
theorem find_add : find id' (add s id codes).indexById =
    if id' = id then some (slotFor s id) else find id' s.indexById := by
  unfold add slotFor
  split
  · next i hid =>
    split_ifs with h
    · rw [h, hid, Option.getD_some]
    · rfl
  · next hid =>
    dsimp only [push]
    split_ifs with h
    · rw [h, find_set_self, hid, Option.getD_none]
    · rw [find_set_of_ne h]

/-- The table of slots after an addition: a new id is put at the end. -/
theorem vectors_add (h : Consistent s) (hfits : find id s.indexById = none → s.vectors.length < 2 ^ 32)
    (j : ℕ) : (add s id codes).vectors[j]? =
      if j = slotFor s id then some { toCodes := codes } else s.vectors[j]? := by
  unfold add slotFor
  split
  · next i hid =>
    have hi := h.lt hid
    dsimp only
    rw [hid, Option.getD_some, List.getElem?_set]
    by_cases hij : i = j
    · subst hij
      rw [if_pos rfl, if_pos hi, if_pos rfl]
    · rw [if_neg hij, if_neg (Ne.symm hij)]
  · next hid =>
    dsimp only [push]
    rw [hid, Option.getD_none, Nat.mod_eq_of_lt (hfits hid)]
    exact getElem?_concat _ _ _

theorem slotFor_eq (h : Consistent s) (hfits : find id s.indexById = none → s.vectors.length < 2 ^ 32)
    (hid' : find id' s.indexById = some (slotFor s id)) : id' = id := by
  unfold slotFor at hid'
  cases hid : find id s.indexById with
  | some i =>
    rw [hid, Option.getD_some] at hid'
    exact h.slot_inj hid hid'
  | none =>
    rw [hid, Option.getD_none, Nat.mod_eq_of_lt (hfits hid)] at hid'
    exact absurd (h.lt hid') (lt_irrefl _)

theorem length_add : (add s id codes).vectors.length =
    s.vectors.length + if (find id s.indexById).isNone then 1 else 0 := by
  unfold add
  split
  · next i hid =>
    rw [hid]
    simp
  · next hid =>
    rw [hid]
    exact List.length_append

/-- A new id with a slot of its own. -/
theorem consistent_push (h : Consistent s) (hnew : find id s.indexById = none)
    (hfits : s.vectors.length < 2 ^ 32) (qv : QuantizedVector dim) : Consistent (push s id qv) := by
  refine ⟨?_, fun id' j => ?_⟩
  · dsimp only [push]
    rw [List.length_append, List.length_append, h.length_ids]
    rfl
  · dsimp only [push]
    rw [Nat.mod_eq_of_lt hfits, ← h.length_ids, getElem?_concat]
    by_cases hid : id' = id
    · subst hid
      rw [find_set_self, Option.some.injEq]
      split_ifs with hj
      · exact iff_of_true hj.symm rfl
      · refine iff_of_false (Ne.symm hj) fun hids => ?_
        rw [(h.inverse id' j).mpr hids] at hnew
        cases hnew
    · rw [find_set_of_ne hid]
      split_ifs with hj
      · refine iff_of_false (fun hfind => ?_) fun heq => hid (Option.some.inj heq).symm
        have hlt := h.lt hfind
        rw [hj, h.length_ids] at hlt
        exact lt_irrefl _ hlt
      · exact h.inverse id' j

theorem consistent_add (h : Consistent s) (hfits : find id s.indexById = none → s.vectors.length < 2 ^ 32) :
    Consistent (add s id codes) := by
  unfold add
  split
  · exact ⟨h.length_ids.trans (List.length_set).symm, h.inverse⟩
  · next hid => exact consistent_push h hid (hfits hid) _

/-- The active slots of the ids after an addition. -/
theorem activeAt_add (h : Consistent s) (hfits : find id s.indexById = none → s.vectors.length < 2 ^ 32)
    {j : ℕ} : ActiveAt (add s id codes) id' j ↔
      id' = id ∧ j = slotFor s id ∨ id' ≠ id ∧ ActiveAt s id' j := by
  unfold ActiveAt
  rw [find_add, vectors_add h hfits]
  by_cases hid : id' = id
  · rw [if_pos hid]
    simp only [hid, true_and, ne_eq, not_true, false_and, or_false]
    constructor
    · exact fun hj => (Option.some.inj hj.1).symm
    · intro hj
      rw [if_pos hj, hj]
      exact ⟨rfl, rfl⟩
  · rw [if_neg hid]
    simp only [hid, false_and, false_or, ne_eq, not_false_eq_true, true_and]
    refine and_congr_right fun hfind => ?_
    have hj : j ≠ slotFor s id := fun heq => hid (slotFor_eq h hfits (heq ▸ hfind))
    rw [if_neg hj]

/-- The ids that are active after an addition. -/
theorem isActive_add (h : Consistent s)
    (hfits : find id s.indexById = none → s.vectors.length < 2 ^ 32) :
    IsActive (add s id codes) id' ↔ id' = id ∨ IsActive s id' := by
  unfold IsActive
  simp only [activeAt_add h hfits]
  by_cases hid : id' = id
  · simp [hid]
  · simp [hid]

theorem consistent_remove (h : Consistent s) : Consistent (remove s id).1 := by
  unfold remove
  split
  · exact ⟨h.length_ids.trans (List.length_modify _ _ _).symm, h.inverse⟩
  · exact h

theorem length_remove : (remove s id).1.vectors.length = s.vectors.length := by
  unfold remove
  split
  · exact List.length_modify _ _ _
  · rfl

theorem find_remove : find id' (remove s id).1.indexById = find id' s.indexById := by
  unfold remove
  split <;> rfl

theorem vectors_remove (j : ℕ) : (remove s id).1.vectors[j]? =
    if find id s.indexById = some j then s.vectors[j]?.map fun v => { v with active := false }
    else s.vectors[j]? := by
  unfold remove
  split
  · next i hid =>
    rw [hid]
    by_cases hij : i = j
    · rw [if_pos (congrArg some hij), hij]
      exact List.getElem?_modify_eq _ _ _
    · rw [if_neg fun heq => hij (Option.some.inj heq)]
      exact List.getElem?_modify_ne _ _ hij
  · next hid => rw [hid, if_neg (by simp)]

/-- The active slots of the ids after a removal. -/
theorem activeAt_remove (h : Consistent s) {j : ℕ} :
    ActiveAt (remove s id).1 id' j ↔ id' ≠ id ∧ ActiveAt s id' j := by
  unfold ActiveAt
  rw [find_remove, vectors_remove]
  by_cases hid : find id s.indexById = some j
  · rw [if_pos hid]
    constructor
    · rintro ⟨-, hactive⟩
      cases hv : s.vectors[j]? with
      | none => simp [hv] at hactive
      | some v => simp [hv] at hactive
    · rintro ⟨hne, hfind, -⟩
      exact absurd (h.slot_inj hid hfind) hne
  · rw [if_neg hid]
    constructor
    · exact fun hactive => ⟨fun heq => hid (heq ▸ hactive.1), hactive⟩
    · exact And.right

/-- The ids that are active after a removal. -/
theorem isActive_remove (h : Consistent s) : IsActive (remove s id).1 id' ↔ id' ≠ id ∧ IsActive s id' := by
  unfold IsActive
  simp only [activeAt_remove h, exists_and_left]

/-! ### The number of active ids -/

theorem isActive_iff (hid : find id s.indexById = some i) {v : QuantizedVector dim} (hv : s.vectors[i]? = some v) :
    IsActive s id ↔ v.active = true := by
  unfold IsActive ActiveAt
  rw [hid]
  constructor
  · rintro ⟨j, hj, hactive⟩
    cases hj
    rwa [hv] at hactive
  · intro hactive
    exact ⟨i, rfl, by rwa [hv]⟩

theorem not_isActive (hid : find id s.indexById = none) : ¬ IsActive s id := by
  rintro ⟨i, hi, -⟩
  rw [hid] at hi
  cases hi

theorem size_le : size s ≤ s.vectors.length := List.countP_le_length

/-- The active slots, with one slot written anew. -/
theorem countP_set_add {α : Type*} {p : α → Bool} {l : List α} {i : ℕ} {a b : α} (h : l[i]? = some a) :
    (l.set i b).countP p + (if p a then 1 else 0) = l.countP p + if p b then 1 else 0 := by
  obtain ⟨hi, rfl⟩ := List.getElem?_eq_some_iff.mp h
  have hle : (if p l[i] then 1 else 0) ≤ l.countP p := by
    split_ifs with hp
    · exact List.countP_pos_iff.mpr ⟨l[i], List.getElem_mem hi, hp⟩
    · exact Nat.zero_le _
  rw [List.countP_set hi]
  omega

/-- An addition makes one more slot active, unless the id is active. -/
theorem size_add (h : Consistent s) :
    size (add s id codes) = size s + if IsActive s id then 0 else 1 := by
  unfold add size
  split
  · next i hid =>
    obtain ⟨v, hv⟩ : ∃ v, s.vectors[i]? = some v := ⟨_, List.getElem?_eq_getElem (h.lt hid)⟩
    have hcount := countP_set_add (p := fun v => v.active) (b := { toCodes := codes }) hv
    simp only [isActive_iff hid hv]
    by_cases hactive : v.active = true
    · simpa [hactive] using hcount
    · simpa [hactive] using hcount
  · next hid =>
    rw [if_neg (not_isActive hid), push, List.countP_append]
    rfl

/-- A removal makes one slot less active, if the id is active. -/
theorem size_remove (h : Consistent s) :
    size (remove s id).1 + (if IsActive s id then 1 else 0) = size s := by
  unfold remove size
  split
  · next i hid =>
    obtain ⟨v, hv⟩ : ∃ v, s.vectors[i]? = some v := ⟨_, List.getElem?_eq_getElem (h.lt hid)⟩
    have hset : (s.vectors.modify i fun v => { v with active := false }) =
        s.vectors.set i { v with active := false } := by
      rw [List.modify_eq_set_getElem?, hv]
      rfl
    have hcount := countP_set_add (p := fun v => v.active) (b := { v with active := false }) hv
    simp only [isActive_iff hid hv, hset]
    simpa using hcount
  · next hid =>
    rw [if_neg (not_isActive hid)]
    rfl

end Steps

/-! ### Runs -/

/-- A call that changes the index. -/
inductive Op (dim : ℕ)
  | add (id : Bytes) (codes : Codes dim)
  | remove (id : Bytes)
deriving DecidableEq, Repr

section Runs

variable {dim : ℕ}

/-- One call. -/
def step (s : TurboQuantIndex dim) : Op dim → TurboQuantIndex dim
  | .add id codes => add s id codes
  | .remove id => (remove s id).1

theorem length_step (s : TurboQuantIndex dim) (op : Op dim) :
    s.vectors.length ≤ (step s op).vectors.length := by
  cases op with
  | add id codes => exact length_add ▸ Nat.le_add_right _ _
  | remove id => exact length_remove.ge

theorem length_run : ∀ (ops : List (Op dim)) (s : TurboQuantIndex dim),
    s.vectors.length ≤ (ops.foldl step s).vectors.length
  | [], _ => le_rfl
  | op :: ops, s => (length_step s op).trans (length_run ops (step s op))

/-- A run that stays below `2 ^ 32` slots keeps the tables consistent. -/
theorem consistent_run : ∀ (ops : List (Op dim)) {s : TurboQuantIndex dim}, Consistent s →
    (ops.foldl step s).vectors.length < 2 ^ 32 → Consistent (ops.foldl step s)
  | [], _, hs, _ => hs
  | op :: ops, s, hs, hlen => by
    refine consistent_run ops ?_ hlen
    have hlt : s.vectors.length < 2 ^ 32 := ((length_step s op).trans (length_run ops _)).trans_lt hlen
    cases op with
    | add id codes => exact consistent_add hs fun _ => hlt
    | remove id => exact consistent_remove hs

theorem mem_idByIndex_step {s : TurboQuantIndex dim} (hs : Consistent s) (op : Op dim) (id : Bytes) :
    id ∈ (step s op).idByIndex ↔ id ∈ s.idByIndex ∨ ∃ codes, op = .add id codes := by
  cases op with
  | add id' codes =>
    unfold step add
    dsimp only
    split
    · next i hid =>
      refine ⟨Or.inl, ?_⟩
      rintro (hmem | ⟨codes', heq⟩)
      · exact hmem
      · cases heq
        exact List.mem_of_getElem? ((hs.inverse id i).mp hid)
    · next hid => simp [push, eq_comm]
  | remove id' =>
    unfold step remove
    dsimp only
    split <;> simp

/-- The ids that have slots are those that were added. -/
theorem mem_idByIndex_run (id : Bytes) : ∀ (ops : List (Op dim)) {s : TurboQuantIndex dim}, Consistent s →
    (ops.foldl step s).vectors.length < 2 ^ 32 →
    (id ∈ (ops.foldl step s).idByIndex ↔ id ∈ s.idByIndex ∨ ∃ codes, Op.add id codes ∈ ops)
  | [], _, _, _ => by simp
  | op :: ops, s, hs, hlen => by
    have hlt : s.vectors.length < 2 ^ 32 := ((length_step s op).trans (length_run ops _)).trans_lt hlen
    have hstep : Consistent (step s op) := consistent_run [op] hs ((length_run ops _).trans_lt hlen)
    rw [List.foldl_cons, mem_idByIndex_run id ops hstep hlen, mem_idByIndex_step hs, or_assoc]
    simp only [List.mem_cons, exists_or, eq_comm]

end Runs

end DenseLite.Vector.Index
