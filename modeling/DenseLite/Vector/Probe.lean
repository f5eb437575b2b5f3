import DenseLite.Vector.Ivf
import DenseLite.Vector.Search

/-! # The search by clusters

`TurboQuantIVF::search` gives the search of the base index the mask of the probed clusters. On an index that was built by
adding ids, each once, this mask is that of the ids which are recorded for these clusters, so the search returns exactly
the best hits among them; few vectors or many probes give the plain search. -/

namespace DenseLite.Vector.Probe

open DenseLite.Lib.BitMask DenseLite.Lib.ByteStream DenseLite.Lib.KeyMap DenseLite.Lib.Runs
open DenseLite.Vector.Index DenseLite.Vector.Ivf DenseLite.Vector.Search

/-! ### Masks of ids -/

section Masks

variable {dim : ℕ} {s : TurboQuantIndex dim} {ids : List Bytes}

theorem length_buildAllowlistMask (hne : s.vectors ≠ []) :
    (buildAllowlistMask s ids).length = wordsFor s.vectors.length := by
  rw [buildAllowlistMask, if_neg (by simpa using hne), length_foldl_setBit, length_zeros]

theorem bit_buildAllowlistMask (hs : Consistent s) (hne : s.vectors ≠ []) (i : ℕ) :
    bit (buildAllowlistMask s ids) i = decide (∃ id ∈ ids, find id s.indexById = some i) := by
  have hwords : ∀ i ∈ ids.filterMap (find · s.indexById), i / 64 < (zeros (wordsFor s.vectors.length)).length := by
    intro i hi
    obtain ⟨id, -, hid⟩ := List.mem_filterMap.mp hi
    rw [length_zeros]
    exact div_lt_wordsFor_of_lt (hs.lt hid)
  rw [buildAllowlistMask, if_neg (by simpa using hne), bit_foldl_setBit _ hwords, bit_zeros, Bool.false_or]
  exact decide_eq_decide.mpr List.mem_filterMap

variable {K : Type} [LinearOrder K] {score : Codes dim → K} {topK : ℕ}

/-- The loop depends on the mask only where it has slots. -/
theorem scan_congr {mask mask' : Option Mask} (h : ∀ j < s.vectors.length, readMask mask j = readMask mask' j) :
    ∀ (fuel : ℕ) (j : UInt32) (heap : List (K ×ₗ ℕ)), scan s score topK mask fuel j heap =
      scan s score topK mask' fuel j heap
  | 0, _, _ => rfl
  | fuel + 1, j, heap => by
    rw [scan, scan]
    split_ifs with hj
    · rw [visit, visit, h j.toNat hj]
      exact congrArg _ (funext fun heap' => scan_congr h fuel (j + 1) heap')
    · rfl

/-- Without a mask every id is allowed. -/
theorem search_none (hs : Consistent s) (fuel : ℕ) (normed : Bool) : Search.search s score topK fuel normed none =
    Search.search s score topK fuel normed (some (buildAllowlistMask s s.idByIndex)) := by
  have hread : ∀ j < s.vectors.length, readMask none j = readMask (some (buildAllowlistMask s s.idByIndex)) j := by
    intro j hj
    obtain ⟨id, hid⟩ : ∃ id, s.idByIndex[j]? = some id := ⟨_, List.getElem?_eq_getElem (hs.length_ids.symm ▸ hj)⟩
    rw [readMask_buildAllowlistMask hs hj,
      decide_eq_true ⟨_, List.mem_of_getElem? hid, (hs.inverse _ _).mpr hid⟩]
    rfl
  unfold Search.search
  rw [scan_congr hread]

end Masks

/-! ### Indexes that ids were added to -/

section Built

variable {dim : ℕ} {V C S : Type} {g : Geometry dim V C S} {s : TurboQuantIVF dim C}

/-- Every slot is active and listed in the cluster of its id, and the lists have no other numbers. -/
structure Built (s : TurboQuantIVF dim C) : Prop where
  sound : Sound s
  membership : Membership s
  full : size s.baseIndex = s.baseIndex.vectors.length
  below : ∀ c, ∀ i ∈ members s c, i < size s.baseIndex

theorem built_create (n : ℕ) : Built (create g n) where
  sound := sound_create n
  membership := membership_create n
  full := rfl
  below c i hi := by
    unfold members create at hi
    rw [List.getElem?_map] at hi
    cases hc : (List.range (max 2 n))[c]? <;> simp [hc] at hi

/-- A new id. -/
theorem Built.add (h : Built s) {id : Bytes} (v : V) (hnew : find id s.baseIndex.indexById = none)
    (hlen : s.baseIndex.vectors.length < 2 ^ 32) : Built (add g s id v) := by
  have hfits : Fits s (.add id v : Step V) := fun _ => hlen
  have hinactive : ¬ IsActive s.baseIndex id := not_isActive hnew
  have hslot : slotFor s.baseIndex id = s.baseIndex.vectors.length := by
    rw [slotFor, hnew, Option.getD_none, Nat.mod_eq_of_lt hlen]
  have hidx : internalIdx s = s.baseIndex.vectors.length := by rw [internalIdx, h.full, Nat.mod_eq_of_lt hlen]
  have hwith : sizeWith s id = s.baseIndex.vectors.length + 1 := by rw [sizeWith, if_neg hinactive, h.full]
  have hactive : ∀ id' i, ActiveAt s.baseIndex id' i → i < s.baseIndex.vectors.length := fun id' i hat =>
    h.sound.base.lt hat.1
  have hkeeps : Keeps g s (.add id v) := by
    refine ⟨.inl (hslot.trans hidx.symm), fun c _ hmem => ?_, fun id' _ hat => ?_, fun _ _ id' _ i hat => ?_,
      fun _ _ => ?_⟩
    · have := h.below c _ hmem
      rw [hslot, h.full] at this
      exact absurd this (lt_irrefl _)
    · have := hactive id' _ hat
      rw [hidx] at this
      exact absurd this (lt_irrefl _)
    · rw [hwith]
      exact Nat.lt_succ_of_lt (hactive id' i hat)
    · rw [hwith, hslot]
      exact Nat.lt_succ_self _
  have hsize : size (Ivf.add g s id v).baseIndex = sizeWith s id := size_add h.sound.base
  refine ⟨sound_step h.sound (.add id v) hfits, (membership_step_iff h.sound h.membership (.add id v) hfits).mpr hkeeps,
    ?_, fun c i hi => ?_⟩
  · rw [hsize, hwith]
    show _ = (Index.add s.baseIndex id (g.quantize v)).vectors.length
    rw [length_add, hnew]
    rfl
  · rw [hsize, hwith]
    rcases (mem_members_add h.sound.clusters).mp hi with hi | ⟨-, rfl⟩
    · have := h.below c i hi
      rw [h.full] at this
      exact Nat.lt_succ_of_lt this
    · rw [hidx]
      exact Nat.lt_succ_self _

/-- Every slot has an id, which is active there. -/
theorem Built.exists_activeAt (h : Built s) {i : ℕ} (hi : i < s.baseIndex.vectors.length) :
    ∃ id ∈ s.baseIndex.idByIndex, ActiveAt s.baseIndex id i := by
  obtain ⟨id, hid⟩ : ∃ id, s.baseIndex.idByIndex[i]? = some id :=
    ⟨_, List.getElem?_eq_getElem (h.sound.base.length_ids.symm ▸ hi)⟩
  refine ⟨id, List.mem_of_getElem? hid, (h.sound.base.inverse _ _).mpr hid, ?_⟩
  have hall := List.countP_eq_length.mp h.full
  rw [List.getElem?_eq_getElem hi]
  exact hall _ (List.getElem_mem hi)

/-- The ids that are recorded for some clusters. -/
def idsIn (s : TurboQuantIVF dim C) (probes : List ℕ) : List Bytes :=
  s.baseIndex.idByIndex.filter fun id => (find id s.clusterAssignment).any (· ∈ probes)

/-- **The mask of the probed clusters is the mask of their ids.** -/
theorem Built.clusterMask_eq (h : Built s) (hne : s.baseIndex.vectors ≠ []) (probes : List ℕ) :
    clusterMask s probes = buildAllowlistMask s.baseIndex (idsIn s probes) := by
  refine eq_of_bit_eq ?_ fun i => ?_
  · rw [length_buildAllowlistMask hne, clusterMask, length_foldl_setBit, length_zeros, h.full]
  · rw [Bool.eq_iff_iff, bit_clusterMask, bit_buildAllowlistMask h.sound.base hne, decide_eq_true_eq]
    constructor
    · rintro ⟨hi, c, hc, hmem⟩
      rw [h.full] at hi
      obtain ⟨id, hid, hat⟩ := h.exists_activeAt hi
      obtain ⟨c', hc', hlisted, -⟩ := h.membership id i hat
      obtain rfl : c = c' := by_contra fun hne => hlisted.2 c hne hmem
      exact ⟨id, List.mem_filter.mpr ⟨hid, by simpa [hc'] using hc⟩, hat.1⟩
    · rintro ⟨id, hid, hfind⟩
      obtain ⟨-, hany⟩ := List.mem_filter.mp hid
      obtain ⟨id', -, hat⟩ := h.exists_activeAt (h.sound.base.lt hfind)
      obtain rfl := h.sound.base.slot_inj hat.1 hfind
      obtain ⟨c, hc, hlisted, -⟩ := h.membership _ i hat
      rw [hc] at hany
      exact ⟨h.full ▸ h.sound.base.lt hfind, c, by simpa using hany, hlisted.1⟩

end Built

/-! ### Searching -/

section Search

variable {dim : ℕ} {V C S K : Type} [LinearOrder K] (g : Geometry dim V C S) (s : TurboQuantIVF dim C) (q : V)
  (score : V → Codes dim → K) (topK nprobe : ℕ)

/-- `TurboQuantIVF::search`. -/
def search (fuel : ℕ) (allowlist : Option Mask) : Option (List (TurboQuantHit K)) :=
  match searchMask g s q topK nprobe allowlist with
  | none => some []
  | some mask => Search.search s.baseIndex (score q) topK fuel (g.normed q) mask

/-- The ids that the search is about: those that are allowed and, if it goes by clusters, recorded for a probed one. -/
def reached (allowed : Option (List Bytes)) : List Bytes :=
  (if partitioned s topK nprobe then idsIn s (probed g s q nprobe) else s.baseIndex.idByIndex).filter fun id =>
    allowed.all (·.contains id)

variable {g s q topK nprobe}

/-- Two masks of ids intersect in the mask of the ids that are in both. -/
theorem intersect_buildAllowlistMask (hs : Consistent s.baseIndex) (hne : s.baseIndex.vectors ≠ [])
    (ids allowed : List Bytes) :
    intersect (buildAllowlistMask s.baseIndex ids) (buildAllowlistMask s.baseIndex allowed) =
      buildAllowlistMask s.baseIndex (ids.filter (allowed.contains ·)) := by
  refine eq_of_bit_eq ?_ fun i => ?_
  · rw [length_intersect, length_buildAllowlistMask hne, length_buildAllowlistMask hne]
  · rw [bit_intersect (by rw [length_buildAllowlistMask hne, length_buildAllowlistMask hne]),
      bit_buildAllowlistMask hs hne, bit_buildAllowlistMask hs hne, bit_buildAllowlistMask hs hne,
      ← Bool.decide_and, decide_eq_decide]
    constructor
    · rintro ⟨⟨id, hid, hfind⟩, id', hid', hfind'⟩
      obtain rfl := hs.slot_inj hfind hfind'
      exact ⟨_, List.mem_filter.mpr ⟨hid, by simpa using hid'⟩, hfind⟩
    · rintro ⟨id, hid, hfind⟩
      obtain ⟨hid, hid'⟩ := List.mem_filter.mp hid
      exact ⟨⟨id, hid, hfind⟩, id, by simpa using hid', hfind⟩

/-- A mask of some ids is that of those among them that have slots. -/
theorem buildAllowlistMask_filter (hs : Consistent s.baseIndex) (hne : s.baseIndex.vectors ≠ [])
    (allowed : List Bytes) : buildAllowlistMask s.baseIndex allowed =
      buildAllowlistMask s.baseIndex (s.baseIndex.idByIndex.filter (allowed.contains ·)) := by
  refine eq_of_bit_eq ?_ fun i => ?_
  · rw [length_buildAllowlistMask hne, length_buildAllowlistMask hne]
  · rw [bit_buildAllowlistMask hs hne, bit_buildAllowlistMask hs hne, decide_eq_decide]
    constructor
    · rintro ⟨id, hid, hfind⟩
      exact ⟨id, List.mem_filter.mpr ⟨List.mem_of_getElem? ((hs.inverse _ _).mp hfind), by simpa using hid⟩, hfind⟩
    · rintro ⟨id, hid, hfind⟩
      exact ⟨id, by simpa using (List.mem_filter.mp hid).2, hfind⟩

/-- The search of the base index among the ids that are reached. -/
theorem Built.search_eq (h : Built s) (hq : g.normed q = true) (fuel : ℕ) (allowed : Option (List Bytes)) :
    search g s q score topK nprobe fuel (allowed.map (buildAllowlistMask s.baseIndex)) =
      Search.search s.baseIndex (score q) topK fuel true
        (some (buildAllowlistMask s.baseIndex (reached g s q topK nprobe allowed))) := by
  have hs := h.sound.base
  by_cases hnothing : size s.baseIndex = 0 ∨ topK = 0
  · have hempty : s.baseIndex.vectors.isEmpty = true ∨ topK = 0 := by
      rw [h.full, List.length_eq_zero_iff] at hnothing
      exact hnothing.imp_left List.isEmpty_iff.mpr
    unfold search searchMask Search.search
    rw [if_pos hnothing, if_pos hempty]
  have hne : s.baseIndex.vectors ≠ [] := fun hnil => hnothing (.inl (by rw [h.full, hnil]; rfl))
  unfold search searchMask
  rw [if_neg hnothing, hq]
  by_cases hflat : size s.baseIndex < 500 ∨ s.clusters.length ≤ nprobe
  · have hpart : partitioned s topK nprobe = false := by
      unfold partitioned
      rw [decide_eq_false_iff_not]
      omega
    rw [if_pos hflat, reached, hpart, if_neg (by decide)]
    cases allowed with
    | none => simp [search_none hs]
    | some ids =>
      simp only [Option.map_some, Option.all_some]
      rw [buildAllowlistMask_filter hs hne ids]
  · have hpart : partitioned s topK nprobe = true := by
      unfold partitioned
      rw [decide_eq_true_iff]
      omega
    rw [if_neg hflat, reached, hpart, if_pos rfl, h.clusterMask_eq hne]
    cases allowed with
    | none => simp
    | some ids =>
      simp only [Option.map_some, Option.all_some]
      rw [intersect_buildAllowlistMask hs hne]

/-- The run that adds some vectors. -/
def adds (entries : List (Bytes × V)) : List (Step V) := entries.map fun e => .add e.1 e.2

theorem built_run (g : Geometry dim V C S) : ∀ (entries : List (Bytes × V)) {s : TurboQuantIVF dim C}, Built s →
    (entries.map (·.1)).Nodup → (∀ e ∈ entries, find e.1 s.baseIndex.indexById = none) →
    s.baseIndex.vectors.length + entries.length ≤ 2 ^ 32 →
    Built ((adds entries).foldl (step g) s) ∧
      ((adds entries).foldl (step g) s).baseIndex.vectors.length = s.baseIndex.vectors.length + entries.length
  | [], _, h, _, _, _ => ⟨h, rfl⟩
  | (id, v) :: entries, s, h, hnodup, hnew, hlen => by
    rw [List.map_cons, List.nodup_cons] at hnodup
    rw [List.length_cons] at hlen
    have hid := hnew (id, v) List.mem_cons_self
    have hbuilt : Built (Ivf.add g s id v) := h.add v hid (by omega)
    have hlength : (Ivf.add g s id v).baseIndex.vectors.length = s.baseIndex.vectors.length + 1 := by
      show (Index.add s.baseIndex id (g.quantize v)).vectors.length = _
      rw [length_add, hid]
      rfl
    have hrest : ∀ e ∈ entries, find e.1 (Ivf.add g s id v).baseIndex.indexById = none := by
      intro e he
      have hne : e.1 ≠ id := fun heq => hnodup.1 (List.mem_map.mpr ⟨e, he, heq⟩)
      show find e.1 (Index.add s.baseIndex id (g.quantize v)).indexById = none
      rw [find_add, if_neg hne]
      exact hnew e (List.mem_cons_of_mem _ he)
    obtain ⟨hend, hcount⟩ := built_run g entries hbuilt hnodup.2 hrest (by omega)
    refine ⟨hend, hcount.trans ?_⟩
    rw [hlength, List.length_cons]
    omega

/-- **The search by clusters is exact.** On an index to which fewer than `2 ^ 32` ids were added, each once, it returns the
best hits among the allowed ids, or, if it goes by clusters, among those of them that are recorded for a probed
cluster. -/
theorem search_exact (g : Geometry dim V C S) (n : ℕ) (entries : List (Bytes × V)) (q : V)
    (score : V → Codes dim → K) (topK nprobe : ℕ) (allowed : Option (List Bytes))
    (hnodup : (entries.map (·.1)).Nodup) (hlen : entries.length < 2 ^ 32) (hq : g.normed q = true) :
    ∃ hits, (∀ fuel, 2 ^ 32 ≤ fuel → search g ((adds entries).foldl (step g) (create g n)) q score topK nprobe fuel
        (allowed.map (buildAllowlistMask ((adds entries).foldl (step g) (create g n)).baseIndex)) = some hits) ∧
      ExactTopK ((adds entries).foldl (step g) (create g n)).baseIndex (score q) topK
        (reached g ((adds entries).foldl (step g) (create g n)) q topK nprobe allowed) hits := by
  have hzero : (create g n).baseIndex.vectors.length = 0 := rfl
  obtain ⟨hbuilt, hcount⟩ := built_run g entries (@built_create _ _ _ _ g n) hnodup (fun _ _ => rfl) (by omega)
  obtain ⟨hits, hhits, hexact⟩ := search_spec hbuilt.sound.base (by omega) (score q) topK
    (reached g ((adds entries).foldl (step g) (create g n)) q topK nprobe allowed)
  exact ⟨hits, fun fuel hfuel => (hbuilt.search_eq score hq fuel allowed).trans (hhits fuel hfuel), hexact⟩

end Search

/-! ### A search that goes by clusters -/

/-- As many ids as make the search go by clusters, on both sides of the two centroids. -/
def manyEntries : List (Bytes × ℤ) := Ivf.manyIds.zipIdx.map fun p => (p.1, if p.2 % 2 = 0 then 1 else -1)

theorem ids_manyEntries : manyEntries.map (·.1) = Ivf.manyIds := by
  rw [manyEntries, List.map_map]
  exact List.zipIdx_map_fst 0 Ivf.manyIds

theorem nodup_manyEntries : (manyEntries.map (·.1)).Nodup := by
  rw [ids_manyEntries]
  exact Ivf.nodup_manyIds

theorem length_manyEntries : manyEntries.length = 513 := by
  rw [manyEntries, List.length_map, List.length_zipIdx, Ivf.manyIds, List.length_map, List.length_range]

/-- The index with these ids. -/
def manyAdded : TurboQuantIVF 1 ℤ := (adds manyEntries).foldl (step line) (create line 2)

theorem partitioned_manyAdded : partitioned manyAdded 1 1 = true := by
  have hlen : (create line 2).baseIndex.vectors.length + manyEntries.length ≤ 2 ^ 32 := by
    rw [length_manyEntries]
    decide
  obtain ⟨hbuilt, hcount⟩ := built_run line manyEntries (built_create 2) nodup_manyEntries (fun _ _ => rfl)
    hlen
  have hclusters : ∀ (as : List (Step ℤ)) (s : TurboQuantIVF 1 ℤ), s.clusters.length = 2 →
      (∀ a ∈ as, ∃ id v, a = .add id v) → (as.foldl (step line) s).clusters.length = 2 := by
    refine foldl_invariant fun s a hs ha => ?_
    obtain ⟨id, v, rfl⟩ := ha
    exact (List.length_modify ..).trans hs
  have htwo := hclusters (adds manyEntries) (create line 2) rfl fun a ha => by
    obtain ⟨e, -, rfl⟩ := List.mem_map.mp ha
    exact ⟨e.1, e.2, rfl⟩
  have hsize : size manyAdded.baseIndex = 513 :=
    hbuilt.full.trans (hcount.trans (by rw [length_manyEntries]; rfl))
  refine decide_eq_true ⟨Nat.one_ne_zero, ?_, ?_⟩
  · rw [hsize]
    decide
  · exact htwo.symm ▸ Nat.one_lt_two

/-- Of two allowed ids, one in each cluster, the search probes one. -/
theorem search_exact_line : partitioned manyAdded 1 1 = true ∧ ∃ hits, (∀ fuel, 2 ^ 32 ≤ fuel →
      search line manyAdded (1 : ℤ) (fun v c => v * c.packed.length) 1 1 fuel
        ((some [leBytes 2 0, leBytes 2 1]).map (buildAllowlistMask manyAdded.baseIndex)) = some hits) ∧
    ExactTopK manyAdded.baseIndex (fun c => (1 : ℤ) * c.packed.length) 1
      (reached line manyAdded (1 : ℤ) 1 1 (some [leBytes 2 0, leBytes 2 1])) hits :=
  ⟨partitioned_manyAdded, search_exact line 2 manyEntries 1 (fun v c => v * c.packed.length) 1 1
    (some [leBytes 2 0, leBytes 2 1]) nodup_manyEntries (by rw [length_manyEntries]; decide)
    (by decide)⟩

end DenseLite.Vector.Probe
