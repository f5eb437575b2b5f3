import DenseLite.Memory.Store

/-! # The keyword query

`query_memories_keyword` applies the scope twice: as clauses of its SQL text, and by `MemoryScopeFilter::matches` on
what it reads. The clauses ask for the workspace itself or the visibility `global`, where `matches` accepts the
workspace `default` and the visibility `public`, and for the session of every row, where `matches` asks for it only on
rows of the visibility `session`. `answersKeyword_iff` says when no row is lost by this. -/

namespace DenseLite.Memory.Keyword

open DenseLite.Lib.ByteStream DenseLite.Infer.State DenseLite.Memory.Store

section Query

variable (b : Backend) (query : Bytes) (limit : ℕ) (filter : MemoryScopeFilter) (rows : List Row)

/-- The row matches in key or value, is active and accepted by the filter. -/
def wanted (r : Row) : Bool :=
  let pattern := cstr (ascii "%" ++ query ++ ascii "%")
  (b.like pattern r.entry.key || b.like pattern r.entry.value) &&
    (extractMemoryEntry r).status = ascii "active" && filter.matches (extractMemoryEntry r)

/-- The clauses of the SQL text that are not about the pattern. -/
def inClauses (r : Row) : Bool :=
  r.entry.status = ascii "active" &&
    (filter.workspaceId = [] || r.entry.workspaceId = cstr filter.workspaceId ||
      r.entry.visibility = ascii "global") &&
    (filter.sessionId = [] || r.entry.sessionId = cstr filter.sessionId)

/-- The rows that are wanted, as entries. -/
def wantedEntries : List MemoryEntry := (rows.filter (wanted b query filter)).map extractMemoryEntry

/-- At most `limit` entries, all of them wanted ones in their order; and all of the wanted ones if they are fewer. -/
def AnswersKeyword : Prop :=
  (queryMemoriesKeyword b query limit filter rows).length ≤ limit ∧
    (queryMemoriesKeyword b query limit filter rows).Sublist (wantedEntries b query filter rows) ∧
    ((queryMemoriesKeyword b query limit filter rows).length < limit →
      queryMemoriesKeyword b query limit filter rows = wantedEntries b query filter rows)

theorem wanted_and_inClauses (r : Row) :
    (keywordWhere b query filter r && filter.matches (extractMemoryEntry r)) =
      (wanted b query filter r && inClauses filter r) := by
  have hactive : r.entry.status = ascii "active" → (extractMemoryEntry r).status = ascii "active" := fun h => by
    show (if r.entry.status = [] then ascii "active" else r.entry.status) = ascii "active"
    rw [h]
    decide
  rw [Bool.eq_iff_iff]
  simp only [keywordWhere, wanted, inClauses, Bool.and_eq_true, decide_eq_true_eq]
  tauto

/-- The query takes the first of the wanted rows that are in its clauses. -/
theorem queryMemoriesKeyword_eq : queryMemoriesKeyword b query limit filter rows =
    (((rows.filter (wanted b query filter)).filter (inClauses filter)).map extractMemoryEntry).take (max limit 1) := by
  have hrows : (rows.filter (keywordWhere b query filter)).filter
      (fun r => filter.matches (extractMemoryEntry r)) =
      (rows.filter (wanted b query filter)).filter (inClauses filter) := by
    rw [List.filter_filter, List.filter_filter]
    refine List.filter_congr fun r _ => ?_
    rw [Bool.and_comm, wanted_and_inClauses, Bool.and_comm]
  rw [queryMemoriesKeyword, List.filter_map, ← hrows]
  rfl

end Query

/-- **The keyword query is right** exactly when a limit that is not zero is reached by the wanted rows that are in its
clauses, or they are all of the wanted ones; and a limit of zero, when there are none. -/
theorem answersKeyword_iff (b : Backend) (query : Bytes) (limit : ℕ) (filter : MemoryScopeFilter) (rows : List Row) :
    AnswersKeyword b query limit filter rows ↔
      if limit = 0 then ∀ r ∈ rows, wanted b query filter r = true → inClauses filter r = false
      else limit ≤ ((rows.filter (wanted b query filter)).countP (inClauses filter)) ∨
        ∀ r ∈ rows, wanted b query filter r = true → inClauses filter r = true := by
  unfold AnswersKeyword wantedEntries
  rw [queryMemoriesKeyword_eq]
  set found := rows.filter (wanted b query filter) with hfound
  have hmem : ∀ r, r ∈ found ↔ r ∈ rows ∧ wanted b query filter r = true := fun r => List.mem_filter
  have hlen : ((found.filter (inClauses filter)).map extractMemoryEntry).length = found.countP (inClauses filter) := by
    rw [List.length_map, List.countP_eq_length_filter]
  have hsub : (((found.filter (inClauses filter)).map extractMemoryEntry).take (max limit 1)).Sublist
      (found.map extractMemoryEntry) :=
    (List.take_sublist _ _).trans (List.filter_sublist.map _)
  split_ifs with hzero
  · subst hzero
    have htake : (((found.filter (inClauses filter)).map extractMemoryEntry).take (max 0 1)).length ≤ 0 ↔
        found.countP (inClauses filter) = 0 := by
      rw [List.length_take, hlen]
      omega
    rw [htake, List.countP_eq_zero]
    constructor
    · exact fun h r hr hwanted => eq_false_of_ne_true (h.1 r ((hmem r).mpr ⟨hr, hwanted⟩))
    · intro h
      refine ⟨fun r hr => ?_, hsub, fun hlt => absurd hlt (Nat.not_lt_zero _)⟩
      rw [h r ((hmem r).mp hr).1 ((hmem r).mp hr).2]
      exact Bool.false_ne_true
  · have hmax : max limit 1 = limit := by omega
    rw [hmax] at hsub ⊢
    have htake : (((found.filter (inClauses filter)).map extractMemoryEntry).take limit).length =
        min limit (found.countP (inClauses filter)) := by rw [List.length_take, hlen]
    rw [htake]
    constructor
    · rintro ⟨-, -, hall⟩
      by_cases hreached : limit ≤ found.countP (inClauses filter)
      · exact Or.inl hreached
      · -- all wanted rows were returned, so none is outside of the clauses
        refine Or.inr fun r hr hwanted => ?_
        have hlength := congrArg List.length (hall (by omega))
        rw [htake, List.length_map, Nat.min_eq_right (by omega)] at hlength
        exact (List.countP_eq_length.mp hlength) r ((hmem r).mpr ⟨hr, hwanted⟩)
    · intro h
      refine ⟨by omega, hsub, fun hlt => ?_⟩
      rcases h with hreached | hall
      · omega
      · have hself : found.filter (inClauses filter) = found :=
          List.filter_eq_self.mpr fun r hr => hall r ((hmem r).mp hr).1 ((hmem r).mp hr).2
        rw [hself] at hlen ⊢
        exact List.take_of_length_le (by omega)

/-- A rule of the workspace `default`, and the filter of another workspace, which accepts it. -/
def defaultRule : Row := ⟨{ key := ascii "style", value := ascii "tabs" }, none⟩

def alphaFilter : MemoryScopeFilter := { workspaceId := ascii "alpha" }

/-- A backend for which every text matches. -/
def anyLike : Backend where
  like _ _ := true
  selectKeys _ _ := []
  search _ _ _ := []
  cosineSimilarity _ _ := 0
  ge _ _ := true
  gt _ _ := false

/-- The rule is wanted, and the query returns nothing; and a limit of zero returns a row. -/
theorem not_answersKeyword :
    (wanted anyLike (ascii "tabs") alphaFilter defaultRule = true ∧
      queryMemoriesKeyword anyLike (ascii "tabs") 5 alphaFilter [defaultRule] = [] ∧
      ¬ AnswersKeyword anyLike (ascii "tabs") 5 alphaFilter [defaultRule]) ∧
    ¬ AnswersKeyword anyLike (ascii "tabs") 0 {} [defaultRule] := by
  have hnone : queryMemoriesKeyword anyLike (ascii "tabs") 5 alphaFilter [defaultRule] = [] := by decide +kernel
  have hone : (queryMemoriesKeyword anyLike (ascii "tabs") 0 {} [defaultRule]).length = 1 := by decide +kernel
  refine ⟨⟨by decide +kernel, hnone, fun h => ?_⟩, fun h => ?_⟩
  · have hall := h.2.2 (by rw [hnone]; decide)
    rw [hnone] at hall
    exact absurd hall (by decide +kernel)
  · have hle := h.1
    rw [hone] at hle
    omega

end DenseLite.Memory.Keyword
