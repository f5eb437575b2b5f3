import DenseLite.Lib.Ranking
import DenseLite.Memory.Store
import DenseLite.Vector.Search

/-! # The vector query

`query_memories_vector` of a store with an index lets an SQL text choose the keys that are searched, takes the best
`limit` of their slots, and applies `MemoryScopeFilter::matches` to the rows of those. The text says less than `matches`
does, and says something else when a quote is in the name of the workspace, so that a slot whose row does not match can
take the place of one whose row does. `answersVector_iff` says when no row is lost. -/

namespace DenseLite.Memory.VectorQuery

open DenseLite.Lib.ByteStream DenseLite.Lib.KeyMap DenseLite.Lib.Ranking DenseLite.Lib.TopK DenseLite.Infer.State
open DenseLite.Memory.Store DenseLite.Vector.Index DenseLite.Vector.Search

/-- A store with an index: the key of a row is its primary key, and was bound as a C string. -/
structure VectorStore (dim : ℕ) where
  rows : List Row
  index : TurboQuantIndex dim
  distinct : (rows.map fun r => r.entry.key).Nodup
  nulFree : ∀ r ∈ rows, 0 ∉ r.entry.key
  consistent : index.vectors.length < 4294967296 → Consistent index

/-- What SQLite and the arithmetic of the vectors make of a query: the keys that a text selects, the number of
parameters that a text can have, whether the vector has a length, and the score of a slot. -/
structure Machine (dim : ℕ) (K : Type) where
  selectKeys : Bytes → List Row → List Bytes
  maxVariables : ℕ
  normed : List F32 → Bool
  score : List F32 → Codes dim → K

section Code

variable {dim : ℕ} {K : Type}

/-- What `query_memories_vector` makes of a hit, among the rows whose keys were bound. -/
def answerTo (reaches : K → Bool) (filter : MemoryScopeFilter) (rows : List Row) (keys : List Bytes)
    (h : Bytes × K) : Option (MemoryEntry × K) :=
  let selected := rows.filter fun r => keys.contains r.entry.key
  let entries := (selected.map extractMemoryEntry).filter filter.matches
  if reaches h.2 then (entries.find? fun e => e.key = h.1).map fun e => (e, h.2) else none

/-- What `query_memories_vector` makes of the hits. -/
def answer (reaches : K → Bool) (limit : ℕ) (filter : MemoryScopeFilter) (rows : List Row) (hits : List (Bytes × K)) :
    List (MemoryEntry × K) :=
  (hits.filterMap (answerTo reaches filter rows (hits.map fun h => cstr h.1))).take (max limit 1)

variable [LinearOrder K] (m : Machine dim K) (st : VectorStore dim) (queryVec : List F32) (limit : ℕ) (threshold : K)
  (filter : MemoryScopeFilter)

/-- `query_memories_vector` with an index; a text with too many parameters is not prepared. -/
def queryMemoriesVector (fuel : ℕ) : Option (List (MemoryEntry × K)) :=
  if queryVec = [] then some []
  else
    let allowedIds := m.selectKeys (scopeSql filter) st.rows
    (search st.index (m.score queryVec) limit fuel (m.normed queryVec)
      (some (buildAllowlistMask st.index allowedIds))).map fun tqHits =>
        if m.maxVariables < tqHits.length then []
        else answer (threshold ≤ ·) limit filter st.rows (tqHits.map fun h => (h.id, h.score))

/-- The index score of a row, if it has an active slot and the query has a length. -/
def scoreOf (r : Row) : Option K :=
  if queryVec = [] ∨ m.normed queryVec = false then none
  else (find r.entry.key st.index.indexById).bind fun j => (st.index.vectors[j]?).bind fun qv =>
    if qv.active then some (m.score queryVec qv.toCodes) else none

/-- The row as a result, if the filter matches it and its score reaches the threshold. -/
def wantedAs (r : Row) : Option (MemoryEntry × K) :=
  if filter.matches (extractMemoryEntry r) then
    (scoreOf m st queryVec r).bind fun x => if threshold ≤ x then some (extractMemoryEntry r, x) else none
  else none

/-- The query comes back with the best `limit` of the rows that are wanted. -/
def AnswersVector : Prop :=
  ∃ result, (∀ fuel, 4294967296 ≤ fuel →
      queryMemoriesVector m st queryVec limit threshold filter fuel = some result) ∧
    Top (·.2) limit (st.rows.filterMap (wantedAs m st queryVec threshold filter)) result

/-- The best `limit` slots of the keys that the SQL text selects. -/
def kept : List (K ×ₗ ℕ) :=
  best st.index (m.score queryVec) limit (m.selectKeys (scopeSql filter) st.rows)

def IsKept (r : Row) : Prop :=
  ∃ p ∈ kept m st queryVec limit filter, find r.entry.key st.index.indexById = some (ofLex p).2

/-- No wanted row loses its place: all of them are kept, or only such rows are, and as many as were asked for, of which
none has a lower score than one that is not kept. -/
def NoneHidden : Prop :=
  (∀ r ∈ st.rows, ∀ w, wantedAs m st queryVec threshold filter r = some w → IsKept m st queryVec limit filter r) ∨
  ((kept m st queryVec limit filter).length = limit ∧
    (∀ p ∈ kept m st queryVec limit filter, ∃ r ∈ st.rows, ∃ w, wantedAs m st queryVec threshold filter r = some w ∧
      find r.entry.key st.index.indexById = some (ofLex p).2) ∧
    ∀ r ∈ st.rows, ∀ w, wantedAs m st queryVec threshold filter r = some w → ¬ IsKept m st queryVec limit filter r →
      ∀ p ∈ kept m st queryVec limit filter, w.2 ≤ (ofLex p).1)

end Code

/-! ### Rows and hits -/

section Rows

variable {dim : ℕ} {K : Type} [LinearOrder K] {m : Machine dim K} {st : VectorStore dim} {queryVec : List F32}
  {limit : ℕ} {threshold : K} {filter : MemoryScopeFilter}

theorem VectorStore.row_unique {r r' : Row} (hr : r ∈ st.rows) (hr' : r' ∈ st.rows)
    (hkey : r.entry.key = r'.entry.key) : r = r' :=
  List.inj_on_of_nodup_map st.distinct hr hr' hkey

theorem wantedAs_eq_some {r : Row} {w : MemoryEntry × K} : wantedAs m st queryVec threshold filter r = some w ↔
    filter.matches (extractMemoryEntry r) = true ∧ scoreOf m st queryVec r = some w.2 ∧ threshold ≤ w.2 ∧
      w.1 = extractMemoryEntry r := by
  obtain ⟨e, x⟩ := w
  unfold wantedAs
  split_ifs with hmatches
  · rw [Option.bind_eq_some_iff]
    constructor
    · rintro ⟨y, hy, hsome⟩
      split_ifs at hsome with hle
      cases hsome
      exact ⟨hmatches, hy, hle, rfl⟩
    · rintro ⟨-, hscore, hle, rfl⟩
      exact ⟨x, hscore, if_pos hle⟩
  · exact iff_of_false (by simp) fun h => hmatches h.1

/-- A wanted row is known by its result. -/
theorem row_unique_of_wantedAs {r r' : Row} {w w' : MemoryEntry × K} (hr : r ∈ st.rows) (hr' : r' ∈ st.rows)
    (hw : wantedAs m st queryVec threshold filter r = some w)
    (hw' : wantedAs m st queryVec threshold filter r' = some w') (heq : w = w') : r = r' := by
  obtain ⟨-, -, -, hentry⟩ := wantedAs_eq_some.mp hw
  obtain ⟨-, -, -, hentry'⟩ := wantedAs_eq_some.mp hw'
  refine st.row_unique hr hr' ?_
  have hkey : (extractMemoryEntry r).key = (extractMemoryEntry r').key := by rw [← hentry, ← hentry', heq]
  exact hkey

theorem nodup_wanted : (st.rows.filterMap (wantedAs m st queryVec threshold filter)).Nodup := by
  refine List.pairwise_filterMap.mpr ((List.Nodup.of_map _ st.distinct).imp_of_mem fun hr hr' hne w hw w' hw' heq => ?_)
  exact hne (row_unique_of_wantedAs hr hr' hw hw' heq)

/-- The entry that is found for a hit is that of the row with its key, if that matches. -/
theorem find_entries {keys : List Bytes} {id : Bytes} (hid : cstr id ∈ keys) {e : MemoryEntry} :
    (((st.rows.filter fun r => keys.contains r.entry.key).map extractMemoryEntry).filter filter.matches).find?
        (fun e => e.key = id) = some e ↔
      ∃ r ∈ st.rows, r.entry.key = id ∧ filter.matches (extractMemoryEntry r) = true ∧ e = extractMemoryEntry r := by
  set entries := ((st.rows.filter fun r => keys.contains r.entry.key).map extractMemoryEntry).filter filter.matches
  have hmem : ∀ e ∈ entries, ∃ r ∈ st.rows, e = extractMemoryEntry r ∧ filter.matches e = true := by
    intro e he
    obtain ⟨he, hmatches⟩ := List.mem_filter.mp he
    obtain ⟨r, hr, rfl⟩ := List.mem_map.mp he
    exact ⟨r, (List.mem_filter.mp hr).1, rfl, hmatches⟩
  constructor
  · intro hfind
    obtain ⟨r, hr, rfl, hmatches⟩ := hmem e (List.mem_of_find?_eq_some hfind)
    have hkey : (extractMemoryEntry r).key = id := by simpa using List.find?_some hfind
    exact ⟨r, hr, hkey, hmatches, rfl⟩
  · rintro ⟨r, hr, rfl, hmatches, rfl⟩
    rw [cstr_of_not_mem (st.nulFree r hr)] at hid
    have hselected : r ∈ st.rows.filter fun r => keys.contains r.entry.key :=
      List.mem_filter.mpr ⟨hr, List.contains_iff_mem.mpr hid⟩
    have hthere : extractMemoryEntry r ∈ entries := List.mem_filter.mpr ⟨List.mem_map_of_mem hselected, hmatches⟩
    obtain ⟨e', he'⟩ : ∃ e', entries.find? (fun e => e.key = r.entry.key) = some e' :=
      Option.isSome_iff_exists.mp (List.find?_isSome.mpr ⟨_, hthere, decide_eq_true rfl⟩)
    obtain ⟨r', hr', rfl, -⟩ := hmem e' (List.mem_of_find?_eq_some he')
    have hkey : (extractMemoryEntry r').key = r.entry.key := by simpa using List.find?_some he'
    exact he'.trans (congrArg (fun r => some (extractMemoryEntry r)) (st.row_unique hr' hr hkey))

end Rows

/-! ### What is returned -/

section Answer

variable {dim : ℕ} {K : Type} [LinearOrder K] {m : Machine dim K} {st : VectorStore dim} {queryVec : List F32}
  {limit : ℕ} {threshold : K} {filter : MemoryScopeFilter}

/-- The result of a slot that is kept. -/
def resultOf (m : Machine dim K) (st : VectorStore dim) (queryVec : List F32) (limit : ℕ) (threshold : K)
    (filter : MemoryScopeFilter) (p : K ×ₗ ℕ) : Option (MemoryEntry × K) :=
  answerTo (threshold ≤ ·) filter st.rows
    ((kept m st queryVec limit filter).reverse.map fun p => cstr (hit st.index p).id)
    ((hit st.index p).id, (ofLex p).1)

theorem length_kept_le : (kept m st queryVec limit filter).length ≤ limit := by
  rw [kept, (best_candidates _ _ _ _).length]
  exact Nat.min_le_left _ _

/-- The answer to the hits: the results of the slots that are kept, the best one first. -/
theorem answer_eq : answer (threshold ≤ ·) limit filter st.rows
    (((kept m st queryVec limit filter).map (hit st.index)).reverse.map fun h => (h.id, h.score)) =
      (kept m st queryVec limit filter).reverse.filterMap (resultOf m st queryVec limit threshold filter) := by
  have hle : ((kept m st queryVec limit filter).reverse.filterMap
      (resultOf m st queryVec limit threshold filter)).length ≤ max limit 1 := by
    refine (List.length_filterMap_le _ _).trans ?_
    rw [List.length_reverse]
    exact length_kept_le.trans (Nat.le_max_left _ _)
  have hhits : (((kept m st queryVec limit filter).map (hit st.index)).reverse.map fun h => (h.id, h.score)) =
      (kept m st queryVec limit filter).reverse.map fun p => ((hit st.index p).id, (ofLex p).1) := by
    rw [← List.map_reverse, List.map_map]
    rfl
  rw [answer, hhits, List.filterMap_map, List.map_map]
  exact List.take_of_length_le hle

variable (hs : Consistent st.index) (hquery : queryVec ≠ [] ∧ m.normed queryVec = true)

include hquery in
/-- The score of a slot that is kept is that of its row. -/
theorem scoreOf_kept {p : K ×ₗ ℕ} (hp : p ∈ kept m st queryVec limit filter) {r : Row}
    (hfind : find r.entry.key st.index.indexById = some (ofLex p).2) : scoreOf m st queryVec r = some (ofLex p).1 := by
  obtain ⟨⟨id, -, hactive⟩, qv, hqv, hscore⟩ := mem_candidates.mp ((best_candidates _ _ _ _).mem hp)
  have htrue : qv.active = true := by
    have hany := hactive.2
    rwa [hqv] at hany
  rw [scoreOf, if_neg (by simp [hquery]), hfind, Option.bind_some, hqv, Option.bind_some, if_pos htrue, hscore]

include hs

/-- The row with the id of a slot that is kept is the one with that slot. -/
theorem find_eq_iff {p : K ×ₗ ℕ} (hp : p ∈ kept m st queryVec limit filter) (id : Bytes) :
    find id st.index.indexById = some (ofLex p).2 ↔ id = (hit st.index p).id := by
  have hid := (mem_candidates.mp ((best_candidates _ _ _ _).mem hp)).1.idByIndex hs
  rw [hs.inverse, hid, Option.some_inj, eq_comm]
  rfl

include hquery

/-- The results of a slot that is kept: the wanted row with that slot. -/
theorem resultOf_eq_some {p : K ×ₗ ℕ} (hp : p ∈ kept m st queryVec limit filter) {w : MemoryEntry × K} :
    resultOf m st queryVec limit threshold filter p = some w ↔
      ∃ r ∈ st.rows, wantedAs m st queryVec threshold filter r = some w ∧
        find r.entry.key st.index.indexById = some (ofLex p).2 := by
  have hid : cstr (hit st.index p).id ∈
      (kept m st queryVec limit filter).reverse.map fun p => cstr (hit st.index p).id :=
    List.mem_map.mpr ⟨p, List.mem_reverse.mpr hp, rfl⟩
  obtain ⟨e, x⟩ := w
  unfold resultOf answerTo
  simp only [decide_eq_true_eq]
  constructor
  · intro hsome
    split_ifs at hsome with hle
    obtain ⟨e', hfound, hpair⟩ := Option.map_eq_some_iff.mp hsome
    cases hpair
    obtain ⟨r, hr, hkey, hmatches, rfl⟩ := (find_entries hid).mp hfound
    have hfind := (find_eq_iff hs hp r.entry.key).mpr hkey
    exact ⟨r, hr, wantedAs_eq_some.mpr ⟨hmatches, scoreOf_kept hquery hp hfind, hle, rfl⟩, hfind⟩
  · rintro ⟨r, hr, hwanted, hfind⟩
    obtain ⟨hmatches, hscore, hle, hentry⟩ := wantedAs_eq_some.mp hwanted
    rw [scoreOf_kept hquery hp hfind, Option.some_inj] at hscore
    dsimp only at hscore hle hentry
    have hfound := (find_entries hid).mpr ⟨r, hr, (find_eq_iff hs hp r.entry.key).mp hfind, hmatches, rfl⟩
    rw [hscore, if_pos hle, hfound, Option.map_some, hentry]

/-- What is returned if the text is prepared. -/
def results (m : Machine dim K) (st : VectorStore dim) (queryVec : List F32) (limit : ℕ) (threshold : K)
    (filter : MemoryScopeFilter) : List (MemoryEntry × K) :=
  (kept m st queryVec limit filter).reverse.filterMap (resultOf m st queryVec limit threshold filter)

/-- A wanted row is returned exactly when it is kept. -/
theorem mem_results_iff {r : Row} (hr : r ∈ st.rows) {w : MemoryEntry × K}
    (hw : wantedAs m st queryVec threshold filter r = some w) :
    w ∈ results m st queryVec limit threshold filter ↔ IsKept m st queryVec limit filter r := by
  rw [results, List.mem_filterMap]
  constructor
  · rintro ⟨p, hp, hresult⟩
    have hp := List.mem_reverse.mp hp
    obtain ⟨r', hr', hw', hfind⟩ := (resultOf_eq_some hs hquery hp).mp hresult
    rw [row_unique_of_wantedAs hr hr' hw hw' rfl]
    exact ⟨p, hp, hfind⟩
  · rintro ⟨p, hp, hfind⟩
    exact ⟨p, List.mem_reverse.mpr hp, (resultOf_eq_some hs hquery hp).mpr ⟨r, hr, hw, hfind⟩⟩

theorem results_subset : results m st queryVec limit threshold filter ⊆
    st.rows.filterMap (wantedAs m st queryVec threshold filter) := by
  intro w hw
  obtain ⟨p, hp, hresult⟩ := List.mem_filterMap.mp hw
  obtain ⟨r, hr, hwanted, -⟩ := (resultOf_eq_some hs hquery (List.mem_reverse.mp hp)).mp hresult
  exact List.mem_filterMap.mpr ⟨r, hr, hwanted⟩

theorem score_of_resultOf {p : K ×ₗ ℕ} (hp : p ∈ kept m st queryVec limit filter) {w : MemoryEntry × K}
    (hresult : resultOf m st queryVec limit threshold filter p = some w) : w.2 = (ofLex p).1 := by
  obtain ⟨r, -, hwanted, hfind⟩ := (resultOf_eq_some hs hquery hp).mp hresult
  obtain ⟨-, hscore, -⟩ := wantedAs_eq_some.mp hwanted
  rw [scoreOf_kept hquery hp hfind, Option.some_inj] at hscore
  exact hscore.symm

theorem nodup_results : (results m st queryVec limit threshold filter).Nodup := by
  have hslots := (best_candidates st.index (m.score queryVec) limit (m.selectKeys (scopeSql filter) st.rows)).nodup_map
    (nodup_slots (m.score queryVec))
  refine List.pairwise_filterMap.mpr (List.pairwise_reverse.mpr ?_)
  refine (List.pairwise_map.mp hslots).imp_of_mem fun {p q} hp hq hne w hw w' hw' heq => hne ?_
  obtain ⟨r, hr, hwanted, hfind⟩ := (resultOf_eq_some hs hquery hq).mp hw
  obtain ⟨r', hr', hwanted', hfind'⟩ := (resultOf_eq_some hs hquery hp).mp hw'
  rw [row_unique_of_wantedAs hr hr' hwanted hwanted' heq, hfind', Option.some_inj] at hfind
  exact hfind

theorem sorted_results : (results m st queryVec limit threshold filter).Pairwise fun x y => y.2 ≤ x.2 := by
  have hsorted := (best_candidates st.index (m.score queryVec) limit (m.selectKeys (scopeSql filter) st.rows)).sorted
  refine List.pairwise_filterMap.mpr (List.pairwise_reverse.mpr ?_)
  refine hsorted.imp_of_mem fun {p q} hp hq hle w hw w' hw' => ?_
  rw [score_of_resultOf hs hquery hq hw, score_of_resultOf hs hquery hp hw']
  exact Prod.Lex.monotone_fst _ _ hle

/-- As many results as were asked for: the slots that are kept are as many, and each has a wanted row. -/
theorem length_results_iff : (results m st queryVec limit threshold filter).length = limit ↔
    (kept m st queryVec limit filter).length = limit ∧ ∀ p ∈ kept m st queryVec limit filter, ∃ r ∈ st.rows, ∃ w,
      wantedAs m st queryVec threshold filter r = some w ∧
        find r.entry.key st.index.indexById = some (ofLex p).2 := by
  have hle : (kept m st queryVec limit filter).length ≤ limit := length_kept_le
  have hfilter := List.length_filterMap_le (resultOf m st queryVec limit threshold filter)
    (kept m st queryVec limit filter).reverse
  rw [List.length_reverse] at hfilter
  have hall : (results m st queryVec limit threshold filter).length = (kept m st queryVec limit filter).length ↔
      ∀ p ∈ kept m st queryVec limit filter, ∃ r ∈ st.rows, ∃ w,
        wantedAs m st queryVec threshold filter r = some w ∧
          find r.entry.key st.index.indexById = some (ofLex p).2 := by
    have hreverse : (kept m st queryVec limit filter).reverse.length = (kept m st queryVec limit filter).length :=
      List.length_reverse
    rw [results, ← hreverse, List.filterMap_length_eq_length]
    refine forall_congr' fun p => ?_
    rw [List.mem_reverse]
    refine forall_congr' fun hp => ?_
    rw [Option.isSome_iff_exists]
    simp only [resultOf_eq_some hs hquery hp]
    constructor
    · rintro ⟨w, r, hr, h⟩
      exact ⟨r, hr, w, h⟩
    · rintro ⟨r, hr, w, h⟩
      exact ⟨w, r, hr, h⟩
  rw [← hall]
  unfold results at *
  omega

/-- The results are the best of the wanted rows exactly when no such row loses its place. -/
theorem top_results_iff : Top (·.2) limit (st.rows.filterMap (wantedAs m st queryVec threshold filter))
    (results m st queryVec limit threshold filter) ↔ NoneHidden m st queryVec limit threshold filter := by
  have hle : (results m st queryVec limit threshold filter).length ≤ limit := by
    refine (List.length_filterMap_le _ _).trans ?_
    rw [List.length_reverse]
    exact length_kept_le
  rw [top_iff nodup_wanted (nodup_results hs hquery) (results_subset hs hquery) hle (sorted_results hs hquery),
    length_results_iff hs hquery, NoneHidden, and_assoc]
  refine or_congr ?_ (and_congr_right fun _ => and_congr_right fun hkept => ?_)
  · constructor
    · exact fun hall r hr w hw => (mem_results_iff hs hquery hr hw).mp (hall (List.mem_filterMap.mpr ⟨r, hr, hw⟩))
    · intro hall w hw
      obtain ⟨r, hr, hwanted⟩ := List.mem_filterMap.mp hw
      exact (mem_results_iff hs hquery hr hwanted).mpr (hall r hr w hwanted)
  · constructor
    · intro hbest r hr w hw hnot p hp
      -- the slot has a result, which has its score
      obtain ⟨r', hr', w', hw', hfind⟩ := hkept p hp
      have hresult := (resultOf_eq_some hs hquery hp).mpr ⟨r', hr', hw', hfind⟩
      rw [← score_of_resultOf hs hquery hp hresult]
      exact hbest w (List.mem_filterMap.mpr ⟨r, hr, hw⟩) (fun hin => hnot ((mem_results_iff hs hquery hr hw).mp hin)) w'
        (List.mem_filterMap.mpr ⟨p, List.mem_reverse.mpr hp, hresult⟩)
    · intro hbest w hw hout w' hw'
      obtain ⟨r, hr, hwanted⟩ := List.mem_filterMap.mp hw
      obtain ⟨p, hp, hresult⟩ := List.mem_filterMap.mp hw'
      have hp := List.mem_reverse.mp hp
      rw [score_of_resultOf hs hquery hp hresult]
      exact hbest r hr w hwanted (fun hin => hout ((mem_results_iff hs hquery hr hwanted).mpr hin)) p hp

end Answer

section Query

variable {dim : ℕ} {K : Type} [LinearOrder K] {m : Machine dim K} {st : VectorStore dim} {queryVec : List F32}
  {limit : ℕ} {threshold : K} {filter : MemoryScopeFilter}

/-- No results are right when none are asked for or wanted. -/
theorem top_nil_iff : Top (·.2) limit (st.rows.filterMap (wantedAs m st queryVec threshold filter)) [] ↔
    limit = 0 ∨ st.rows.filterMap (wantedAs m st queryVec threshold filter) = [] := by
  rw [top_iff nodup_wanted .nil (List.nil_subset _) (Nat.zero_le _) .nil, List.subset_nil, List.length_nil]
  simp only [List.not_mem_nil, IsEmpty.forall_iff, implies_true, and_true]
  rw [or_comm, eq_comm]

/-- No row is wanted by a vector without a length. -/
theorem wanted_eq_nil (hquery : queryVec = [] ∨ m.normed queryVec = false) :
    st.rows.filterMap (wantedAs m st queryVec threshold filter) = [] := by
  refine List.filterMap_eq_nil_iff.mpr fun r _ => Option.eq_none_iff_forall_ne_some.mpr fun w hw => ?_
  obtain ⟨-, hscore, -⟩ := wantedAs_eq_some.mp hw
  rw [scoreOf, if_pos hquery] at hscore
  cases hscore

/-- What the query returns of an index with fewer than `2 ^ 32` slots. -/
theorem queryMemoriesVector_eq (hs : Consistent st.index) (hlen : st.index.vectors.length < 4294967296)
    (hquery : queryVec ≠ [] ∧ m.normed queryVec = true) {fuel : ℕ} (hfuel : 4294967296 ≤ fuel) :
    queryMemoriesVector m st queryVec limit threshold filter fuel =
      some (if m.maxVariables < (kept m st queryVec limit filter).length then []
        else results m st queryVec limit threshold filter) := by
  have hsearch := search_eq hs hlen (m.score queryVec) limit (m.selectKeys (scopeSql filter) st.rows) hfuel
  rw [queryMemoriesVector, if_neg hquery.1, hquery.2]
  dsimp only
  rw [hsearch, Option.map_some, List.length_reverse, List.length_map]
  exact congrArg (fun l => some (if m.maxVariables < _ then [] else l)) answer_eq

/-- What the query returns when there is nothing to search for. -/
theorem queryMemoriesVector_eq_nil (h : limit = 0 ∨ queryVec = [] ∨ m.normed queryVec = false) (fuel : ℕ) :
    queryMemoriesVector m st queryVec limit threshold filter fuel = some [] := by
  unfold queryMemoriesVector search
  split_ifs with hempty hnothing hnot
  · rfl
  · simp [answer]
  · simp [answer]
  · rcases h with hzero | hquery | hnormed
    · exact absurd (Or.inr hzero) hnothing
    · exact absurd hquery hempty
    · exact absurd hnormed hnot

end Query

/-- **The vector query is right** when nothing is asked for, when the vector has no length, and, on an index with
fewer than `2 ^ 32` slots, when nothing is wanted or no wanted row loses its place and the kept ones fit into one SQL
text; and only then. -/
theorem answersVector_iff {dim : ℕ} {K : Type} [LinearOrder K] (m : Machine dim K) (st : VectorStore dim)
    (queryVec : List F32) (limit : ℕ) (threshold : K) (filter : MemoryScopeFilter) :
    AnswersVector m st queryVec limit threshold filter ↔
      limit = 0 ∨ queryVec = [] ∨ m.normed queryVec = false ∨ st.index.vectors.length < 4294967296 ∧
        (st.rows.filterMap (wantedAs m st queryVec threshold filter) = [] ∨
          (kept m st queryVec limit filter).length ≤ m.maxVariables ∧
            NoneHidden m st queryVec limit threshold filter) := by
  unfold AnswersVector
  by_cases hnothing : limit = 0 ∨ queryVec = [] ∨ m.normed queryVec = false
  · refine iff_of_true ⟨[], fun fuel _ => queryMemoriesVector_eq_nil hnothing fuel, top_nil_iff.mpr ?_⟩ (by tauto)
    exact hnothing.imp_right wanted_eq_nil
  · push Not at hnothing
    obtain ⟨hlimit, hne, hnormed⟩ := hnothing
    have hquery : queryVec ≠ [] ∧ m.normed queryVec = true := ⟨hne, Bool.not_eq_false _ ▸ hnormed⟩
    simp only [hlimit, hne, hquery.2, Bool.true_eq_false, false_or]
    by_cases hlen : st.index.vectors.length < 4294967296
    · have hs := st.consistent hlen
      have hresult : ∀ result, (∀ fuel, 4294967296 ≤ fuel →
          queryMemoriesVector m st queryVec limit threshold filter fuel = some result) ↔
          (if m.maxVariables < (kept m st queryVec limit filter).length then []
            else results m st queryVec limit threshold filter) = result := by
        intro result
        constructor
        · intro h
          have hsome := h 4294967296 le_rfl
          rwa [queryMemoriesVector_eq hs hlen hquery le_rfl, Option.some_inj] at hsome
        · rintro rfl fuel hfuel
          exact queryMemoriesVector_eq hs hlen hquery hfuel
      simp only [hresult, exists_eq_left', hlen, true_and]
      split_ifs with hmany
      · -- the text is not prepared
        rw [top_nil_iff]
        have hnot : ¬ (kept m st queryVec limit filter).length ≤ m.maxVariables := not_le.mpr hmany
        tauto
      · rw [top_results_iff hs hquery]
        refine ⟨fun h => Or.inr ⟨not_lt.mp hmany, h⟩, ?_⟩
        rintro (hnone | ⟨-, h⟩)
        · refine Or.inl fun r hr w hw => ?_
          have hin := List.mem_filterMap.mpr ⟨r, hr, hw⟩
          rw [hnone] at hin
          cases hin
        · exact h
    · -- the search does not come back
      refine iff_of_false ?_ fun h => hlen h.1
      rintro ⟨result, hresult, -⟩
      have hsome := hresult 4294967296 le_rfl
      rw [queryMemoriesVector, if_neg hne, hquery.2] at hsome
      dsimp only at hsome
      rw [search_eq_none (not_lt.mp hlen) _ hlimit] at hsome
      cases hsome

/-- A row for the workspace `alpha`, and one with a better score that is private. -/
def sharedRow : Row := ⟨{ key := ascii "a", value := ascii "tabs", workspaceId := ascii "alpha" }, some [0x3F800000]⟩

def privateRow : Row :=
  ⟨{ key := ascii "b", value := ascii "tabs", workspaceId := ascii "alpha", visibility := ascii "private" },
    some [0x3F800000]⟩

theorem distinct_twoRows : ([sharedRow, privateRow].map fun r => r.entry.key).Nodup := by
  decide +kernel

theorem nulFree_twoRows : ∀ r ∈ [sharedRow, privateRow], 0 ∉ r.entry.key := by
  decide +kernel

/-- The index with a slot for each. -/
def twoSlots : TurboQuantIndex 1 := add (add {} (ascii "a") (scaled 1)) (ascii "b") (scaled 2)

theorem consistent_twoSlots : Consistent twoSlots :=
  consistent_add (consistent_add consistent_empty fun _ => by decide) fun _ => by decide

/-- Both of them, with their slots. -/
def twoRows : VectorStore 1 := ⟨[sharedRow, privateRow], twoSlots, distinct_twoRows, nulFree_twoRows,
  fun _ => consistent_twoSlots⟩

/-- The SQL text selects the active rows of the workspace, and a score is the scale of a slot. -/
def scaleMachine : Machine 1 ℕ where
  selectKeys _ rows := (rows.filter fun r => r.entry.workspaceId = ascii "alpha" &&
    r.entry.status = ascii "active").map fun r => r.entry.key
  maxVariables := 32766
  normed _ := true
  score _ codes := codes.scale.toNat

/-- The row is wanted, and the query for one row returns nothing. -/
theorem not_answersVector :
    let filter : MemoryScopeFilter := { workspaceId := ascii "alpha" }
    wantedAs scaleMachine twoRows [0x3F800000] 0 filter sharedRow = some (sharedRow.entry, 1) ∧
      queryMemoriesVector scaleMachine twoRows [0x3F800000] 1 0 filter 4294967296 = some [] ∧
      ¬ AnswersVector scaleMachine twoRows [0x3F800000] 1 0 filter := by
  intro filter
  have hwanted : wantedAs scaleMachine twoRows [0x3F800000] 0 filter sharedRow = some (sharedRow.entry, 1) := by
    decide +kernel
  have hquery : queryMemoriesVector scaleMachine twoRows [0x3F800000] 1 0 filter 4294967296 = some [] := by
    decide +kernel
  refine ⟨hwanted, hquery, ?_⟩
  rintro ⟨result, hresult, htop⟩
  have hnone := hresult 4294967296 le_rfl
  rw [hquery, Option.some_inj] at hnone
  rw [← hnone, top_nil_iff] at htop
  have hrow : sharedRow ∈ twoRows.rows := List.mem_cons_self
  have hin := List.mem_filterMap.mpr ⟨sharedRow, hrow, hwanted⟩
  rw [htop.resolve_left Nat.one_ne_zero] at hin
  cases hin

end DenseLite.Memory.VectorQuery
