import DenseLite.Lib.BitMask
import DenseLite.Vector.Index

/-! # The partitioned index

`TurboQuantIVF` keeps, over a vector index, a list of slots for each cluster and the cluster of each id.
`add` writes into the list of the closest cluster the number of active vectors, which is the slot of the id
only when it is a new one and no slot is inactive; `train` empties the lists and does not fill them again.

What is computed in floating point comes from a `Geometry`. `memberships` says which runs keep every active
id in the list of its cluster. -/

namespace DenseLite.Vector.Ivf

open DenseLite.Lib.ByteStream DenseLite.Lib.KeyMap DenseLite.Lib.Live DenseLite.Lib.Runs DenseLite.Lib.BitMask
open DenseLite.Vector.Index

/-- What is computed in floating point, on vectors `V`, centroids `C` and scores `S`: `quantize` is the
rotation and quantization of `add`, `seed` the random centroids, `score`, `greater` and `worst` what
`find_closest_centroid` compares with, `findTopCentroids` the clusters that a search probes, `normed` whether
a search takes the norm of its query for more than zero, `kmeans` the centroids after training. -/
structure Geometry (dim : ℕ) (V C S : Type) where
  quantize : V → Codes dim
  seed : ℕ → C
  score : C → V → S
  greater : S → S → Bool
  worst : S
  findTopCentroids : List C → V → ℕ → List ℕ
  normed : V → Bool
  kmeans : List V → ℕ → ℕ → List C
  length_kmeans : ∀ vs k iters, (kmeans vs k iters).length = k

/-- `IVFCluster`. -/
structure IVFCluster (C : Type) where
  centroid : C
  memberIndices : List ℕ := []
deriving DecidableEq, Repr

/-- `TurboQuantIVF`. -/
structure TurboQuantIVF (dim : ℕ) (C : Type) where
  numClusters : ℕ
  isTrained : Bool := false
  baseIndex : TurboQuantIndex dim := {}
  clusters : List (IVFCluster C)
  clusterAssignment : List (Bytes × ℕ) := []
deriving DecidableEq, Repr

/-! ### Operations -/

section Operations

variable {dim : ℕ} {V C S : Type} (g : Geometry dim V C S)

/-- The constructor. -/
def create (numClusters : ℕ) : TurboQuantIVF dim C where
  numClusters := max 2 numClusters
  clusters := (List.range (max 2 numClusters)).map fun c => { centroid := g.seed c }

/-- One round of the loop of `find_closest_centroid`: the next cluster, the best one and its score. -/
def closestStep (v : V) (best : ℕ × ℕ × S) (cent : C) : ℕ × ℕ × S :=
  if g.greater (g.score cent v) best.2.2 then (best.1 + 1, best.1, g.score cent v)
  else (best.1 + 1, best.2.1, best.2.2)

/-- `TurboQuantIVF::find_closest_centroid`. -/
def findClosestCentroid (cs : List C) (v : V) : ℕ := (cs.foldl (closestStep g v) (0, 0, g.worst)).2.1

/-- The closest cluster of a vector. -/
def closestCluster (s : TurboQuantIVF dim C) (v : V) : ℕ := findClosestCentroid g (s.clusters.map (·.centroid)) v

/-- What `add` takes for the slot of the new vector. -/
def internalIdx (s : TurboQuantIVF dim C) : ℕ := size s.baseIndex % 2 ^ 32

/-- `TurboQuantIVF::add`. -/
def add (s : TurboQuantIVF dim C) (id : Bytes) (v : V) : TurboQuantIVF dim C :=
  { s with
    baseIndex := Index.add s.baseIndex id (g.quantize v)
    clusters := s.clusters.modify (closestCluster g s v) fun cl =>
      { cl with memberIndices := cl.memberIndices ++ [internalIdx s] }
    clusterAssignment := set id (closestCluster g s v) s.clusterAssignment }

/-- `TurboQuantIVF::remove`. -/
def remove (s : TurboQuantIVF dim C) (id : Bytes) : TurboQuantIVF dim C × Bool :=
  ({ s with baseIndex := (Index.remove s.baseIndex id).1 }, (Index.remove s.baseIndex id).2)

/-- `TurboQuantIVF::train`. -/
def train (s : TurboQuantIVF dim C) (vs : List V) (maxIters : ℕ) : TurboQuantIVF dim C :=
  if vs.isEmpty then s
  else
    { s with
      clusters := (g.kmeans vs (min s.numClusters vs.length) maxIters).map fun cent => { centroid := cent }
      isTrained := true }

/-- A call that changes the index. -/
inductive Step (V : Type)
  | add (id : Bytes) (v : V)
  | remove (id : Bytes)
  | train (vs : List V) (maxIters : ℕ)

/-- One call. -/
def step (s : TurboQuantIVF dim C) : Step V → TurboQuantIVF dim C
  | .add id v => add g s id v
  | .remove id => (remove s id).1
  | .train vs maxIters => train g s vs maxIters

/-- The list of a cluster. -/
def members (s : TurboQuantIVF dim C) (c : ℕ) : List ℕ := ((s.clusters[c]?).map (·.memberIndices)).getD []

/-- `cluster_mask` of a search that probes the clusters `probes`. -/
def clusterMask (s : TurboQuantIVF dim C) (probes : List ℕ) : Mask :=
  ((probes.flatMap (members s)).filter fun idx => idx < size s.baseIndex).foldl setBit
    (zeros (wordsFor (size s.baseIndex)))

end Operations

/-! ### What a step does -/

section Steps

variable {dim : ℕ} {V C S : Type} {g : Geometry dim V C S} {s : TurboQuantIVF dim C} {id : Bytes} {v : V}

/-- The closest cluster is one of those that were compared, or the one to begin with. -/
theorem foldl_closestStep : ∀ (cs : List C) (best : ℕ × ℕ × S),
    (cs.foldl (closestStep g v) best).2.1 = best.2.1 ∨
      (best.1 ≤ (cs.foldl (closestStep g v) best).2.1 ∧
        (cs.foldl (closestStep g v) best).2.1 < best.1 + cs.length)
  | [], _ => Or.inl rfl
  | cent :: cs, best => by
    have hrest := foldl_closestStep cs (closestStep g v best cent)
    rw [List.foldl_cons, List.length_cons]
    have hnext : (closestStep g v best cent).1 = best.1 + 1 := by
      unfold closestStep
      split_ifs <;> rfl
    have hbest : (closestStep g v best cent).2.1 = best.2.1 ∨ (closestStep g v best cent).2.1 = best.1 := by
      unfold closestStep
      split_ifs
      · exact Or.inr rfl
      · exact Or.inl rfl
    omega

theorem findClosestCentroid_lt {cs : List C} (h : cs ≠ []) : findClosestCentroid g cs v < cs.length := by
  have hpos := List.length_pos_iff.mpr h
  have hcases := foldl_closestStep (g := g) (v := v) cs (0, 0, g.worst)
  unfold findClosestCentroid
  dsimp only at hcases
  omega

theorem closestCluster_lt (h : s.clusters ≠ []) : closestCluster g s v < s.clusters.length := by
  have hlt := findClosestCentroid_lt (g := g) (v := v) (show s.clusters.map (·.centroid) ≠ [] by simpa using h)
  rwa [List.length_map] at hlt

/-- The lists after an addition. -/
theorem mem_members_add (h : s.clusters ≠ []) {c i : ℕ} : i ∈ members (add g s id v) c ↔
    i ∈ members s c ∨ c = closestCluster g s v ∧ i = internalIdx s := by
  unfold members add
  dsimp only
  rw [List.getElem?_modify]
  by_cases hc : closestCluster g s v = c
  · obtain ⟨cl, hcl⟩ : ∃ cl, s.clusters[c]? = some cl :=
      ⟨_, List.getElem?_eq_getElem (hc ▸ closestCluster_lt h)⟩
    simp [hc, hcl]
  · have hne : c ≠ closestCluster g s v := Ne.symm hc
    simp [hc, hne]

/-- After a training every list is empty. -/
theorem members_train {vs : List V} (h : vs ≠ []) {maxIters c : ℕ} : members (train g s vs maxIters) c = [] := by
  unfold members train
  rw [if_neg (by simpa using h)]
  dsimp only
  rw [List.getElem?_map]
  cases (g.kmeans vs (min s.numClusters vs.length) maxIters)[c]? <;> rfl

/-- The bits of the mask: the members of the probed clusters, below the number of active vectors. -/
theorem bit_clusterMask {probes : List ℕ} {i : ℕ} : bit (clusterMask s probes) i = true ↔
    i < size s.baseIndex ∧ ∃ c ∈ probes, i ∈ members s c := by
  have hwords : ∀ idx ∈ (probes.flatMap (members s)).filter (fun idx => idx < size s.baseIndex),
      idx / 64 < (zeros (wordsFor (size s.baseIndex))).length := fun idx hidx => by
    rw [length_zeros]
    exact div_lt_wordsFor_of_lt (by simpa using (List.mem_filter.mp hidx).2)
  rw [clusterMask, bit_foldl_setBit _ hwords, bit_zeros, Bool.false_or, decide_eq_true_eq, List.mem_filter,
    List.mem_flatMap, decide_eq_true_eq, and_comm]

end Steps

/-! ### Membership -/

section Membership

variable {dim : ℕ} {V C S : Type} (g : Geometry dim V C S)

/-- The slot stands in the list of the cluster, and in no other one. -/
def Listed (s : TurboQuantIVF dim C) (c i : ℕ) : Prop := i ∈ members s c ∧ ∀ c', c' ≠ c → i ∉ members s c'

/-- The slot `i` of the id is listed in the cluster that is recorded for it, and a search that probes this
cluster, among fewer than there are, has the bit of the slot in its mask. -/
def Placed (s : TurboQuantIVF dim C) (id : Bytes) (i : ℕ) : Prop :=
  ∃ c, find id s.clusterAssignment = some c ∧ Listed s c i ∧
    (500 ≤ size s.baseIndex → ∀ probes, c ∈ probes → probes.length < s.clusters.length →
      bit (clusterMask s probes) i = true)

/-- Every active id is placed. -/
def Membership (s : TurboQuantIVF dim C) : Prop := ∀ id i, ActiveAt s.baseIndex id i → Placed s id i

/-- The numbers of slots fit 32 bits. -/
def Fits (s : TurboQuantIVF dim C) : Step V → Prop
  | .add id _ => find id s.baseIndex.indexById = none → s.baseIndex.vectors.length < 2 ^ 32
  | .remove _ => True
  | .train _ _ => True

/-- If `n` vectors are enough for a search of the clusters, the active slots of the ids but `id` are
below `n`. -/
def OthersBelow (s : TurboQuantIVF dim C) (id : Bytes) (n : ℕ) : Prop :=
  500 ≤ n → 2 ≤ s.clusters.length → ∀ id', id' ≠ id → ∀ i, ActiveAt s.baseIndex id' i → i < n

/-- The active vectors after an addition of the id. -/
def sizeWith (s : TurboQuantIVF dim C) (id : Bytes) : ℕ :=
  size s.baseIndex + if IsActive s.baseIndex id then 0 else 1

/-- The active vectors after a removal of the id. -/
def sizeWithout (s : TurboQuantIVF dim C) (id : Bytes) : ℕ :=
  size s.baseIndex - if IsActive s.baseIndex id then 1 else 0

/-- The call meets the condition: the number that `add` records is the slot of the id, or the slot is listed
already, in both cases in no other cluster; no active id of another cluster has this number for its slot;
the active slots stay below the number of active vectors, where searches depend on it; and a training with
vectors comes when nothing is active. -/
def Keeps (s : TurboQuantIVF dim C) : Step V → Prop
  | .add id v =>
    (slotFor s.baseIndex id = internalIdx s ∨ slotFor s.baseIndex id ∈ members s (closestCluster g s v)) ∧
      (∀ c, c ≠ closestCluster g s v → slotFor s.baseIndex id ∉ members s c) ∧
      (∀ id', id' ≠ id → ActiveAt s.baseIndex id' (internalIdx s) →
        find id' s.clusterAssignment = some (closestCluster g s v)) ∧
      OthersBelow s id (sizeWith s id) ∧
      (500 ≤ sizeWith s id → 2 ≤ s.clusters.length → slotFor s.baseIndex id < sizeWith s id)
  | .remove id => OthersBelow s id (sizeWithout s id)
  | .train vs _ => vs = [] ∨ ∀ id, ¬ IsActive s.baseIndex id

variable {g} {s : TurboQuantIVF dim C} {id : Bytes} {i : ℕ}

/-- What a search needs of a listed slot. -/
theorem placed_iff : Placed s id i ↔ ∃ c, find id s.clusterAssignment = some c ∧ Listed s c i ∧
    (500 ≤ size s.baseIndex → 2 ≤ s.clusters.length → i < size s.baseIndex) := by
  unfold Placed
  refine exists_congr fun c => and_congr_right fun _ => and_congr_right fun hlisted => ?_
  refine imp_congr_right fun _ => ⟨fun h hlen => ?_, fun h probes hc hlen => ?_⟩
  · exact (bit_clusterMask.mp (h [c] List.mem_cons_self hlen)).1
  · have hpos : 0 < probes.length := List.length_pos_of_mem hc
    exact bit_clusterMask.mpr ⟨h (by omega), c, hc, hlisted.1⟩

/-- The invariant beside the membership. -/
structure Sound (s : TurboQuantIVF dim C) : Prop where
  base : Consistent s.baseIndex
  clusters : s.clusters ≠ []
  numClusters : s.numClusters ≠ 0

theorem sound_create (n : ℕ) : Sound (create g n) where
  base := consistent_empty
  clusters := by simp [create]
  numClusters := by simp [create]

theorem sound_step (hs : Sound s) (a : Step V) (hfits : Fits s a) : Sound (step g s a) := by
  cases a with
  | add id v =>
    exact ⟨consistent_add hs.base hfits, by simpa [step, add] using hs.clusters, hs.numClusters⟩
  | remove id => exact ⟨consistent_remove hs.base, hs.clusters, hs.numClusters⟩
  | train vs maxIters =>
    unfold step train
    dsimp only
    split_ifs with hvs
    · exact hs
    · refine ⟨hs.base, ?_, hs.numClusters⟩
      have hvs' : vs.length ≠ 0 := by simpa using hvs
      have hnum := hs.numClusters
      rw [← List.length_pos_iff, List.length_map, g.length_kmeans]
      omega

/-- The slot of the added id is listed in the closest cluster. -/
theorem listed_add_own (hs : Sound s) (v : V) : Listed (add g s id v) (closestCluster g s v) i ↔
    (i = internalIdx s ∨ i ∈ members s (closestCluster g s v)) ∧
      ∀ c, c ≠ closestCluster g s v → i ∉ members s c := by
  unfold Listed
  simp only [mem_members_add hs.clusters, true_and]
  refine and_congr or_comm (forall_congr' fun c => forall_congr' fun hc => ?_)
  simp [hc]

/-- A listed slot stays listed, unless its number is recorded for another cluster. -/
theorem listed_add_other (hs : Sound s) (v : V) {c : ℕ} (h : Listed s c i) :
    Listed (add g s id v) c i ↔ (i = internalIdx s → c = closestCluster g s v) := by
  unfold Listed
  simp only [mem_members_add hs.clusters, h.1, true_or, true_and]
  constructor
  · intro hother hi
    by_contra hc
    exact hother (closestCluster g s v) (Ne.symm hc) (Or.inr ⟨rfl, hi⟩)
  · rintro hown c' hc' (hmem | ⟨rfl, hi⟩)
    · exact h.2 c' hc' hmem
    · exact hc' (hown hi).symm

theorem membership_add_iff (hs : Sound s) (hmem : Membership s) (v : V) (hfits : Fits s (.add id v)) :
    Membership (step g s (.add id v)) ↔ Keeps g s (.add id v) := by
  have hsize : size (step g s (.add id v)).baseIndex = sizeWith s id := size_add hs.base
  have hlen : (step g s (.add id v)).clusters.length = s.clusters.length := List.length_modify _ _ _
  have hactive : ∀ id' j, ActiveAt (step g s (.add id v)).baseIndex id' j ↔
      id' = id ∧ j = slotFor s.baseIndex id ∨ id' ≠ id ∧ ActiveAt s.baseIndex id' j :=
    fun id' j => activeAt_add hs.base hfits
  have hfind : ∀ id', id' ≠ id →
      find id' (step g s (.add id v)).clusterAssignment = find id' s.clusterAssignment :=
    fun id' hne => find_set_of_ne hne
  have hfind_self : find id (step g s (.add id v)).clusterAssignment = some (closestCluster g s v) :=
    find_set_self
  unfold Membership
  simp only [placed_iff, hsize, hlen, hactive]
  constructor
  · intro h
    obtain ⟨c, hc, hlisted, hbelow⟩ := h id _ (Or.inl ⟨rfl, rfl⟩)
    rw [hfind_self] at hc
    cases hc
    obtain ⟨hown, hnone⟩ := (listed_add_own hs v).mp hlisted
    refine ⟨hown, hnone, fun id' hne hat => ?_, fun hbig hclusters id' hne j hat => ?_, hbelow⟩
    · obtain ⟨c, hc, hlisted, -⟩ := h id' _ (Or.inr ⟨hne, hat⟩)
      obtain ⟨c', hc', hlisted', -⟩ := hmem id' _ hat
      rw [hfind id' hne, hc'] at hc
      cases hc
      rw [hc', (listed_add_other hs v hlisted').mp hlisted rfl]
    · obtain ⟨c, -, -, hbelow⟩ := h id' j (Or.inr ⟨hne, hat⟩)
      exact hbelow hbig hclusters
  · rintro ⟨hown, hnone, hothers, hbelow, hbelow_own⟩ id' j (⟨rfl, rfl⟩ | ⟨hne, hat⟩)
    · exact ⟨_, hfind_self, (listed_add_own hs v).mpr ⟨hown, hnone⟩, hbelow_own⟩
    · obtain ⟨c, hc, hlisted, -⟩ := hmem id' j hat
      refine ⟨c, (hfind id' hne).trans hc, (listed_add_other hs v hlisted).mpr fun hj => ?_,
        fun hbig hclusters => hbelow hbig hclusters id' hne j hat⟩
      have hassigned := hothers id' hne (hj ▸ hat)
      rw [hc] at hassigned
      exact Option.some.inj hassigned

theorem membership_remove_iff (hs : Sound s) (hmem : Membership s) :
    Membership (step g s (.remove id)) ↔ Keeps g s (.remove id) := by
  have hsize : size (step g s (.remove id)).baseIndex = sizeWithout s id := by
    have hremove := @size_remove _ _ id hs.base
    have hstep : (step g s (.remove id)).baseIndex = (Index.remove s.baseIndex id).1 := rfl
    rw [hstep, sizeWithout]
    omega
  have hactive : ∀ id' j, ActiveAt (step g s (.remove id)).baseIndex id' j ↔
      id' ≠ id ∧ ActiveAt s.baseIndex id' j :=
    fun id' j => activeAt_remove hs.base
  unfold Membership
  simp only [placed_iff, hsize, hactive]
  constructor
  · intro h hbig hclusters id' hne j hat
    obtain ⟨c, -, -, hbelow⟩ := h id' j ⟨hne, hat⟩
    exact hbelow hbig hclusters
  · rintro hbelow id' j ⟨hne, hat⟩
    obtain ⟨c, hc, hlisted, -⟩ := hmem id' j hat
    exact ⟨c, hc, hlisted, fun hbig hclusters => hbelow hbig hclusters id' hne j hat⟩

theorem membership_train_iff (hmem : Membership s) (vs : List V) (maxIters : ℕ) :
    Membership (step g s (.train vs maxIters)) ↔ Keeps g s (.train vs maxIters) := by
  have hbase : (step g s (.train vs maxIters)).baseIndex = s.baseIndex := by
    unfold step train
    dsimp only
    split_ifs <;> rfl
  constructor
  · intro h
    by_contra hnot
    obtain ⟨hvs, hsome⟩ := not_or.mp hnot
    push Not at hsome
    obtain ⟨id, i, hat⟩ := hsome
    obtain ⟨c, -, hlisted, -⟩ := h id i (hbase ▸ hat)
    have hempty : members (step g s (.train vs maxIters)) c = [] := members_train hvs
    rw [Listed, hempty] at hlisted
    cases hlisted.1
  · rintro (rfl | hnone)
    · exact hmem
    · intro id i hat
      exact absurd ⟨i, hbase ▸ hat⟩ (hnone id)

/-- A call that fits keeps the membership exactly when it meets the condition. -/
theorem membership_step_iff (hs : Sound s) (hmem : Membership s) (a : Step V) (hfits : Fits s a) :
    Membership (step g s a) ↔ Keeps g s a := by
  cases a with
  | add id v => exact membership_add_iff hs hmem v hfits
  | remove id => exact membership_remove_iff hs hmem
  | train vs maxIters => exact membership_train_iff hmem vs maxIters

theorem membership_create (n : ℕ) : Membership (create g n) := by
  intro id i hat
  exact absurd hat.2 (by simp [create])

/-- **Membership.** A run whose calls meet the condition has every active id in its cluster after every call,
and, as long as slot numbers fit, no other run has. -/
theorem memberships (g : Geometry dim V C S) (n : ℕ) (steps : List (Step V)) :
    (EveryStep (step g) (fun s a => Fits s a ∧ Keeps g s a) (create g n) steps →
      EveryStep (step g) (fun s a => Membership (step g s a)) (create g n) steps) ∧
    (EveryStep (step g) Fits (create g n) steps →
      EveryStep (step g) (fun s a => Membership (step g s a)) (create g n) steps →
      EveryStep (step g) (Keeps g) (create g n) steps) := by
  have hstart : Sound (create g n) ∧ Membership (create g n) := ⟨sound_create n, membership_create n⟩
  constructor
  · intro hkeeps
    refine (everyStep_of_invariant (I := fun s => Sound s ∧ Membership s) (fun s a hI hC => ?_) steps _
      hstart hkeeps).1
    have hmem := (membership_step_iff hI.1 hI.2 a hC.1).mpr hC.2
    exact ⟨hmem, sound_step hI.1 a hC.1, hmem⟩
  · intro hfits hmem
    refine (everyStep_of_invariant (I := fun s => Sound s ∧ Membership s) (fun s a hI hC => ?_) steps _
      hstart ((everyStep_and steps _).mpr ⟨hfits, hmem⟩)).1
    exact ⟨(membership_step_iff hI.1 hI.2 a hC.1).mp hC.2, sound_step hI.1 a hC.1, hC.2⟩

end Membership

/-! ### A line -/

/-- Vectors of one coordinate, between the centroids `1` and `-1`; the codes are those of the vector `1`. -/
def line : Geometry 1 ℤ ℤ ℤ where
  quantize _ := { scale := 0x33D6BF95, offset := 0x3F800000, packed := [7], length_packed := rfl }
  seed c := if c = 0 then 1 else -1
  score cent v := cent * v
  greater a b := decide (b < a)
  worst := -1000000000
  findTopCentroids cs _ nprobe := (List.range cs.length).take nprobe
  normed v := v ≠ 0
  kmeans vs k _ := (List.range k).map fun c => vs.getD c 1
  length_kmeans := by simp

/-- An id is added and removed, and another one is added. -/
def addAfterRemove : List (Step ℤ) := [.add [97] 1, .remove [97], .add [98] 1]

theorem not_membership_addAfterRemove :
    ¬ EveryStep (step line) (fun s a => Membership (step line s a)) (create line 2) addAfterRemove := by
  rintro ⟨-, -, hlast, -⟩
  obtain ⟨c, hc, ⟨hmem, -⟩, -⟩ := hlast [98] 1 (by decide)
  have hc0 : c = 0 := by
    have hassigned : some c = some 0 := hc.symm.trans (by decide)
    exact Option.some.inj hassigned
  subst hc0
  revert hmem
  decide

/-! ### Searching -/

section Searching

variable {dim : ℕ} {V C S : Type} (g : Geometry dim V C S) (s : TurboQuantIVF dim C) (q : V) (topK nprobe : ℕ)

/-- The clusters that a search probes. -/
def probed : List ℕ := g.findTopCentroids (s.clusters.map (·.centroid)) q nprobe

/-- The search goes by clusters. -/
def partitioned : Bool := topK ≠ 0 ∧ 500 ≤ size s.baseIndex ∧ nprobe < s.clusters.length

/-- The mask that `TurboQuantIVF::search` gives to the search of the base index, if it comes to it. -/
def searchMask (allowlist : Option Mask) : Option (Option Mask) :=
  if size s.baseIndex = 0 ∨ topK = 0 then none
  else if size s.baseIndex < 500 ∨ s.clusters.length ≤ nprobe then some allowlist
  else
    match allowlist with
    | none => some (some (clusterMask s (probed g s q nprobe)))
    | some a => some (some (intersect (clusterMask s (probed g s q nprobe)) a))

/-- Every word that the scan reads of a mask lies in it, and so does the word of every member slot of a
probed cluster. The allowlist is the mask of some ids. -/
def MaskCovers (allowed : Option (List Bytes)) : Prop :=
  ∀ mask, searchMask g s q topK nprobe (allowed.map (buildAllowlistMask s.baseIndex)) = some (some mask) →
    (∀ w ∈ wordsRead s.baseIndex (g.normed q) topK, w < mask.length) ∧
      (partitioned s topK nprobe → ∀ c ∈ probed g s q nprobe, ∀ i ∈ members s c,
        i < s.baseIndex.vectors.length → i / 64 < mask.length)

/-- The member slots of the probed clusters have words in the mask. -/
def MembersFit : Prop := ∀ c ∈ probed g s q nprobe, ∀ i ∈ members s c,
  i < s.baseIndex.vectors.length → i / 64 < wordsFor (size s.baseIndex)

variable {g s q topK nprobe}

theorem mem_members_add_imp {id : Bytes} {v : V} {c i : ℕ} (h : i ∈ members (add g s id v) c) :
    i ∈ members s c ∨ i = internalIdx s := by
  unfold members add at h
  dsimp only at h
  rw [List.getElem?_modify] at h
  unfold members
  cases hcl : s.clusters[c]? with
  | none => simp [hcl] at h
  | some cl =>
    by_cases hc : closestCluster g s v = c
    · simpa [hcl, hc] using h
    · left
      simpa [hcl, hc] using h

/-- The numbers in the lists are 32-bit numbers. -/
def SmallMembers (s : TurboQuantIVF dim C) : Prop := ∀ c, ∀ i ∈ members s c, i < 2 ^ 32

theorem smallMembers_step (hs : SmallMembers s) (a : Step V) : SmallMembers (step g s a) := by
  intro c i hi
  cases a with
  | add id v =>
    rcases mem_members_add_imp hi with hi | rfl
    · exact hs c i hi
    · exact Nat.mod_lt _ (by decide)
  | remove id => exact hs c i hi
  | train vs maxIters =>
    by_cases hvs : vs = []
    · subst hvs
      exact hs c i hi
    · have hempty : members (step g s (.train vs maxIters)) c = [] := members_train hvs
      rw [hempty] at hi
      cases hi

theorem smallMembers_run (n : ℕ) (steps : List (Step V)) : SmallMembers (steps.foldl (step g) (create g n)) := by
  refine foldl_invariant (I := SmallMembers) (C := fun _ => True) (fun s a hs _ => smallMembers_step hs a) steps _
    ?_ fun _ _ => trivial
  intro c i hi
  unfold members create at hi
  dsimp only at hi
  rw [List.getElem?_map] at hi
  cases hc : (List.range (max 2 n))[c]? with
  | none => simp [hc] at hi
  | some c' => simp [hc] at hi

theorem forall_div_lt_iff {n m : ℕ} : (∀ j < n, j / 64 < m) ↔ wordsFor n ≤ m := by
  unfold wordsFor
  constructor
  · intro h
    by_contra hlt
    have hlast := h ((n + 63) / 64 * 64 - 64) (by omega)
    omega
  · intro h j hj
    omega

/-- The words that a search by clusters reads. -/
theorem forall_wordsRead_iff (h : partitioned s topK nprobe = true) (normed : Bool) (m : ℕ) :
    (∀ w ∈ wordsRead s.baseIndex normed topK, w < m) ↔
      (normed = true → wordsFor (min s.baseIndex.vectors.length (2 ^ 32)) ≤ m) := by
  unfold partitioned at h
  rw [decide_eq_true_eq] at h
  have hne : s.baseIndex.vectors ≠ [] := by
    rintro hnil
    have hle := size_le (s := s.baseIndex)
    rw [hnil, List.length_nil] at hle
    omega
  unfold wordsRead
  cases normed with
  | false =>
    rw [if_pos (Or.inr (Or.inr rfl))]
    simp
  | true =>
    rw [if_neg (by simp [hne, h.1])]
    simp only [List.forall_mem_map, List.mem_range, forall_div_lt_iff, true_imp_iff]

theorem searchMask_partitioned (h : partitioned s topK nprobe = true) (allowlist : Option Mask) :
    ∃ mask, searchMask g s q topK nprobe allowlist = some (some mask) ∧
      mask.length = wordsFor (size s.baseIndex) := by
  unfold partitioned at h
  rw [decide_eq_true_eq] at h
  have hlen : (clusterMask s (probed g s q nprobe)).length = wordsFor (size s.baseIndex) := by
    rw [clusterMask, length_foldl_setBit, length_zeros]
  unfold searchMask
  rw [if_neg (by omega), if_neg (by omega)]
  cases allowlist with
  | none => exact ⟨_, rfl, hlen⟩
  | some a => exact ⟨_, rfl, (length_intersect _ _).trans hlen⟩

/-- A mask of ids has a word for every slot. -/
theorem lt_length_allowlist {ids : List Bytes} {normed : Bool} {w : ℕ}
    (hw : w ∈ wordsRead s.baseIndex normed topK) : w < (buildAllowlistMask s.baseIndex ids).length := by
  unfold wordsRead at hw
  split_ifs at hw with hcond
  · cases hw
  · obtain ⟨j, hj, rfl⟩ := List.mem_map.mp hw
    have hlt : j < s.baseIndex.vectors.length := lt_of_lt_of_le (List.mem_range.mp hj) (Nat.min_le_left _ _)
    unfold buildAllowlistMask
    rw [if_neg fun hempty => hcond (Or.inl hempty), length_foldl_setBit, length_zeros]
    exact div_lt_wordsFor_of_lt hlt

/-- A search of a state is covered exactly when it does not go by clusters, or the slots need no more words
than the active vectors, or the query has length zero and the members of the probed clusters fit. -/
theorem maskCovers_of_small (hs : SmallMembers s) (allowed : Option (List Bytes)) :
    MaskCovers g s q topK nprobe allowed ↔ (partitioned s topK nprobe = true →
      wordsFor (min s.baseIndex.vectors.length (2 ^ 32)) ≤ wordsFor (size s.baseIndex) ∨
        (g.normed q = false ∧ MembersFit g s q nprobe)) := by
  unfold MaskCovers
  cases hpart : partitioned s topK nprobe with
  | true =>
    obtain ⟨mask, hmask, hlen⟩ := searchMask_partitioned (g := g) (q := q) hpart
      (allowed.map (buildAllowlistMask s.baseIndex))
    simp only [hmask, Option.some.injEq, forall_eq', forall_wordsRead_iff hpart, hlen, forall_const]
    constructor
    · rintro ⟨hread, hfit⟩
      cases hnormed : g.normed q with
      | true => exact Or.inl (hread hnormed)
      | false => exact Or.inr ⟨rfl, hfit⟩
    · rintro (hle | ⟨hnormed, hfit⟩)
      · refine ⟨fun _ => hle, fun c _ i hi hlt => ?_⟩
        have hmin : i < min s.baseIndex.vectors.length (2 ^ 32) := lt_min hlt (hs c i hi)
        exact lt_of_lt_of_le (div_lt_wordsFor_of_lt hmin) hle
      · refine ⟨fun htrue => ?_, hfit⟩
        rw [hnormed] at htrue
        cases htrue
  | false =>
    refine iff_of_true (fun mask hmask => ⟨fun w hw => ?_, fun htrue => ?_⟩) (fun htrue => ?_)
    · unfold searchMask at hmask
      unfold partitioned at hpart
      rw [decide_eq_false_iff_not] at hpart
      split_ifs at hmask with hnothing hflat
      · cases allowed with
        | none => cases hmask
        | some ids =>
          rw [← Option.some.inj (Option.some.inj hmask)]
          exact lt_length_allowlist hw
      · omega
    · cases htrue
    · cases htrue

/-- **The mask of a search** in every state that calls lead to. -/
theorem maskCovers_iff (g : Geometry dim V C S) (n : ℕ) (steps : List (Step V)) (q : V) (topK nprobe : ℕ)
    (allowed : Option (List Bytes)) :
    MaskCovers g (steps.foldl (step g) (create g n)) q topK nprobe allowed ↔
      (partitioned (steps.foldl (step g) (create g n)) topK nprobe = true →
        wordsFor (min (steps.foldl (step g) (create g n)).baseIndex.vectors.length (2 ^ 32)) ≤
            wordsFor (size (steps.foldl (step g) (create g n)).baseIndex) ∨
          (g.normed q = false ∧ MembersFit g (steps.foldl (step g) (create g n)) q nprobe)) :=
  maskCovers_of_small (smallMembers_run n steps) allowed

/-- New ids added one after the other: each gets a slot of its own, and all of them are active. -/
theorem adds_run (v : V) : ∀ (ids : List Bytes) {s : TurboQuantIVF dim C}, Sound s → ids.Nodup →
    (∀ id ∈ ids, find id s.baseIndex.indexById = none) →
    s.baseIndex.vectors.length + ids.length ≤ 2 ^ 32 →
    Sound ((ids.map (Step.add · v)).foldl (step g) s) ∧
      ((ids.map (Step.add · v)).foldl (step g) s).baseIndex.vectors.length =
        s.baseIndex.vectors.length + ids.length ∧
      size ((ids.map (Step.add · v)).foldl (step g) s).baseIndex = size s.baseIndex + ids.length ∧
      ((ids.map (Step.add · v)).foldl (step g) s).clusters.length = s.clusters.length ∧
      ∀ id, id ∈ ids ∨ IsActive s.baseIndex id →
        IsActive ((ids.map (Step.add · v)).foldl (step g) s).baseIndex id
  | [], s, hs, _, _, _ => ⟨hs, rfl, rfl, rfl, fun id hid => hid.resolve_left (List.not_mem_nil)⟩
  | id :: ids, s, hs, hnd, hnew, hlen => by
    rw [List.length_cons] at hlen
    have hnone : find id s.baseIndex.indexById = none := hnew id List.mem_cons_self
    have hfits : Fits s (.add id v) := fun _ => by omega
    have hbase : (step g s (.add id v)).baseIndex = Index.add s.baseIndex id (g.quantize v) := rfl
    have hlen' : (step g s (.add id v)).baseIndex.vectors.length = s.baseIndex.vectors.length + 1 := by
      rw [hbase, length_add, hnone]
      rfl
    have hsize : size (step g s (.add id v)).baseIndex = size s.baseIndex + 1 := by
      rw [hbase, size_add hs.base, if_neg (not_isActive hnone)]
    have hnew' : ∀ id' ∈ ids, find id' (step g s (.add id v)).baseIndex.indexById = none := by
      intro id' hid'
      have hne : id' ≠ id := fun heq => (List.nodup_cons.mp hnd).1 (heq ▸ hid')
      rw [hbase, find_add, if_neg hne]
      exact hnew id' (List.mem_cons_of_mem id hid')
    obtain ⟨hsound, hl, hn, hc, hact⟩ := adds_run v ids (sound_step (g := g) hs (.add id v) hfits)
      (List.nodup_cons.mp hnd).2 hnew' (by omega)
    rw [List.map_cons, List.foldl_cons, List.length_cons]
    refine ⟨hsound, by omega, by omega, hc.trans (List.length_modify _ _ _), fun id' hid' => hact id' ?_⟩
    rw [hbase, isActive_add hs.base hfits]
    rcases hid' with hid' | hid'
    · rcases List.mem_cons.mp hid' with rfl | hid'
      · exact Or.inr (Or.inl rfl)
      · exact Or.inl hid'
    · exact Or.inr (Or.inr hid')

end Searching

/-! ### A removal that needs a word less -/

/-- As many ids as need nine words. -/
def manyIds : List Bytes := (List.range 513).map (leBytes 2)

theorem nodup_manyIds : manyIds.Nodup := by
  refine List.Nodup.map_on (fun k hk l hl heq => ?_) List.nodup_range
  rw [List.mem_range] at hk hl
  have hval := congrArg leVal heq
  rw [leVal_leBytes, leVal_leBytes] at hval
  omega

/-- All of them are added, and the first one is removed. -/
def manyAndOneRemoved : List (Step ℤ) := manyIds.map (Step.add · 1) ++ [.remove (leBytes 2 0)]

theorem not_maskCovers_of_remove {s : TurboQuantIVF 1 ℤ} {id : Bytes} (hs : Sound s)
    (hsmall : SmallMembers s) (hslots : s.baseIndex.vectors.length = 513) (hsize : size s.baseIndex = 513)
    (hclusters : s.clusters.length = 2) (hact : IsActive s.baseIndex id) :
    ¬ MaskCovers line (step line s (.remove id)) 1 1 1 none := by
  have hremove := @size_remove _ _ id hs.base
  rw [if_pos hact, hsize] at hremove
  have hsize' : size (step line s (.remove id)).baseIndex = 512 := Nat.succ.inj hremove
  have hslots' : (step line s (.remove id)).baseIndex.vectors.length = 513 := length_remove.trans hslots
  have hclusters' : (step line s (.remove id)).clusters.length = 2 := hclusters
  rw [maskCovers_of_small (smallMembers_step hsmall _), hslots', hsize', partitioned, hsize', hclusters']
  intro h
  rcases h (by decide) with hwords | ⟨hnormed, -⟩
  · revert hwords
    decide
  · cases hnormed

theorem not_maskCovers_manyAndOneRemoved :
    ¬ MaskCovers line (manyAndOneRemoved.foldl (step line) (create line 2)) 1 1 1 none := by
  have hlen : manyIds.length = 513 := by rw [manyIds, List.length_map, List.length_range]
  obtain ⟨hsound, hl, hn, hc, hact⟩ := adds_run (g := line) 1 manyIds (sound_create (g := line) 2)
    nodup_manyIds (fun _ _ => rfl) (by rw [hlen]; decide)
  have hfirst : leBytes 2 0 ∈ manyIds := List.mem_map_of_mem (List.mem_range.mpr (by decide))
  rw [hlen] at hl hn
  rw [manyAndOneRemoved, List.foldl_append, List.foldl_cons, List.foldl_nil]
  exact not_maskCovers_of_remove hsound (smallMembers_run 2 _) hl hn hc (hact _ (Or.inl hfirst))

end DenseLite.Vector.Ivf
