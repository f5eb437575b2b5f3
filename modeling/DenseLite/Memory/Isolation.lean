import DenseLite.Lib.Runs
import DenseLite.Memory.Store

/-! # Workspace isolation of the memories

Rows are found by their key alone, and a `put_memory` on a key that exists writes its value into the row
that is there, whose workspace and visibility stay. So a value can end up in the row of another
workspace, and queries of that workspace return it. `workspace_isolated` says in which runs this does
not happen: every put on an existing key has a scope that covers that of the row. -/

namespace DenseLite.Memory.Isolation

open DenseLite.Lib.ByteStream DenseLite.Lib.Runs DenseLite.Infer.State DenseLite.Memory.Store

/-- The writes to a store. -/
inductive Write
  | put (e : MemoryEntry) (embedding : List F32)
  | supersede (oldKey newKey : Bytes)
  | delete (key : Bytes)

/-- The table, and the entries that were put so far. -/
structure State where
  rows : List Row := []
  puts : List MemoryEntry := []

/-- One write. -/
def step (embedText : Bytes → List F32) (st : State) : Write → State
  | .put e embedding => ⟨putMemory embedText e embedding st.rows, st.puts ++ [e]⟩
  | .supersede oldKey newKey => { st with rows := supersedeMemory oldKey newKey st.rows }
  | .delete key => { st with rows := deleteMemory key st.rows }

/-- The workspace `w` may see the entry: it is its own, of the default workspace, or public. -/
def Visible (w : Bytes) (e : MemoryEntry) : Prop :=
  e.workspaceId = w ∨ e.workspaceId = ascii "default" ∨ e.visibility = ascii "public"

/-- An entry that a query for the workspace of the filter returns. -/
def Returned (b : Backend) (indexed : Bool) (filter : MemoryScopeFilter) (rows : List Row)
    (e : MemoryEntry) : Prop :=
  (∃ query limit, e ∈ queryMemoriesKeyword b query limit filter rows) ∨
    (∃ queryVec limit threshold score,
      (e, score) ∈ queryMemoriesVector b indexed queryVec limit threshold filter rows) ∨
    e ∈ loadAllPersistent filter rows

/-- **Isolation**: whatever a query for a workspace returns carries a value that was put for that workspace,
for the default workspace, or publicly. -/
def Isolated (b : Backend) (indexed : Bool) (st : State) : Prop :=
  ∀ filter : MemoryScopeFilter, filter.workspaceId ≠ [] → ∀ e, Returned b indexed filter st.rows e →
    ∃ put ∈ st.puts, put.value = e.value ∧ Visible filter.workspaceId put

/-- The scope of an entry covers that of a row: it is of the default workspace or public, or it is of the
workspace of the row, and the row is not public. -/
def Covers (e : MemoryEntry) (r : Row) : Prop :=
  e.workspaceId = ascii "default" ∨ e.visibility = ascii "public" ∨
    (r.entry.workspaceId = e.workspaceId ∧ r.entry.visibility ≠ ascii "public")

/-- A write that keeps values in their scope: value, workspace and visibility of a put have no zero byte, and
a put on an existing key covers the scope of the row. -/
def ScopeKept (st : State) : Write → Prop
  | .put e _ => (0 ∉ e.value ∧ 0 ∉ e.workspaceId ∧ 0 ∉ e.visibility) ∧
    ∀ r ∈ st.rows, r.entry.key = cstr e.key → Covers e r
  | _ => True

/-! ### What the queries return -/

section Queries

variable {b : Backend} {indexed : Bool} {filter : MemoryScopeFilter} {rows : List Row} {e : MemoryEntry}

/-- An entry that the filter of a workspace matches is visible there. -/
theorem visible_of_matches (hw : filter.workspaceId ≠ []) (h : filter.matches e = true) :
    Visible filter.workspaceId e := by
  by_contra hv
  unfold Visible at hv
  obtain ⟨h1, h2⟩ := not_or.mp hv
  obtain ⟨h2, h3⟩ := not_or.mp h2
  unfold MemoryScopeFilter.matches at h
  rw [if_pos (⟨hw, h1, h2, h3⟩ : filter.workspaceId ≠ [] ∧ _ ∧ _ ∧ _)] at h
  split_ifs at h

/-- **Every query returns rows of the table that the filter matches.** -/
theorem returned_spec (h : Returned b indexed filter rows e) :
    ∃ r ∈ rows, e = extractMemoryEntry r ∧ filter.matches e = true := by
  rcases h with ⟨query, limit, hk⟩ | ⟨queryVec, limit, threshold, score, hv⟩ | hall
  · have hmem := List.mem_of_mem_take hk
    simp only [List.mem_filter, List.mem_map] at hmem
    obtain ⟨⟨r, ⟨hr, -⟩, rfl⟩, hm⟩ := hmem
    exact ⟨r, hr, rfl, hm⟩
  · unfold queryMemoriesVector at hv
    split_ifs at hv with hq hi
    · cases hv
    · have hmem := List.mem_of_mem_take hv
      simp only [List.mem_filterMap, Option.ite_none_right_eq_some, Option.map_eq_some_iff] at hmem
      obtain ⟨hit, -, -, e', hfind, heq⟩ := hmem
      have he' := List.mem_of_find?_eq_some hfind
      simp only [List.mem_filter, List.mem_map] at he'
      obtain ⟨⟨r, ⟨hr, -⟩, rfl⟩, hm⟩ := he'
      rw [← (Prod.mk.inj heq).1]
      exact ⟨r, hr, rfl, hm⟩
    · have hmem := List.mem_mergeSort.mp (List.mem_of_mem_take hv)
      simp only [List.mem_filterMap, Option.ite_none_right_eq_some] at hmem
      obtain ⟨r, hr, hm, hsome⟩ := hmem
      cases hemb : r.embedding with
      | none =>
        rw [hemb] at hsome
        cases hsome
      | some vec =>
        rw [hemb] at hsome
        simp only [Option.ite_none_right_eq_some, Option.some.injEq] at hsome
        rw [← (Prod.mk.inj hsome.2).1]
        exact ⟨r, hr, rfl, hm⟩
  · unfold loadAllPersistent at hall
    simp only [List.mem_filter, List.mem_map] at hall
    obtain ⟨⟨r, hr, rfl⟩, hm⟩ := hall
    exact ⟨r, hr, rfl, hm⟩

end Queries

/-! ### The invariant -/

/-- Every row has the value of a put that may be seen by every workspace that sees the row. -/
def Sourced (st : State) : Prop :=
  ∀ r ∈ st.rows, ∃ put ∈ st.puts, put.value = r.entry.value ∧ ∀ w, Visible w r.entry → Visible w put

section Writes

variable {st : State} {embedText : Bytes → List F32}

/-- A row that a covering entry is written into is seen only by workspaces that may see the entry. -/
theorem visible_of_covers {e : MemoryEntry} {r : Row} {w : Bytes} (h : Covers e r) (hv : Visible w r.entry) :
    Visible w e := by
  rcases h with h | h | ⟨hw, hpub⟩
  · exact Or.inr (Or.inl h)
  · exact Or.inr (Or.inr h)
  · rcases hv with hv | hv | hv
    · exact Or.inl (hw.symm.trans hv)
    · exact Or.inr (Or.inl (hw.symm.trans hv))
    · exact absurd hv hpub

theorem sourced_put {e : MemoryEntry} {embedding : List F32} (h : Sourced st)
    (hk : ScopeKept st (.put e embedding)) : Sourced (step embedText st (.put e embedding)) := by
  obtain ⟨⟨hvalue, hws, hvis⟩, hcover⟩ := hk
  intro r hr
  rcases mem_upsert_iff.mp hr with ⟨hold, -⟩ | ⟨rfl, -⟩ | ⟨old, hold, hkey, rfl⟩
  · obtain ⟨put, hput, hval, hsee⟩ := h r hold
    exact ⟨put, List.mem_append_left _ hput, hval, hsee⟩
  · refine ⟨e, List.mem_append_right _ (List.mem_singleton.mpr rfl), (cstr_of_not_mem hvalue).symm, ?_⟩
    intro w hv
    change cstr e.workspaceId = w ∨ cstr e.workspaceId = _ ∨ cstr e.visibility = _ at hv
    rw [cstr_of_not_mem hws, cstr_of_not_mem hvis] at hv
    exact hv
  · refine ⟨e, List.mem_append_right _ (List.mem_singleton.mpr rfl), (cstr_of_not_mem hvalue).symm, ?_⟩
    intro w hv
    exact visible_of_covers (hcover old hold hkey) hv

theorem sourced_supersede (h : Sourced st) (oldKey newKey : Bytes) :
    Sourced (step embedText st (.supersede oldKey newKey)) := by
  intro r hr
  change r ∈ supersedeMemory oldKey newKey st.rows at hr
  unfold supersedeMemory at hr
  split_ifs at hr with h0
  · exact h r hr
  · obtain ⟨old, hold, rfl⟩ := List.mem_map.mp hr
    obtain ⟨put, hput, hval, hsee⟩ := h old hold
    refine ⟨put, hput, ?_, ?_⟩
    · split_ifs <;> exact hval
    · intro w hv
      split_ifs at hv <;> exact hsee w hv

theorem sourced_delete (h : Sourced st) (key : Bytes) : Sourced (step embedText st (.delete key)) :=
  fun r hr => h r (List.mem_filter.mp hr).1

/-- **A write that keeps values in their scope leaves every row sourced.** -/
theorem sourced_step {a : Write} (h : Sourced st) (hk : ScopeKept st a) : Sourced (step embedText st a) := by
  cases a with
  | put e embedding => exact sourced_put h hk
  | supersede oldKey newKey => exact sourced_supersede h oldKey newKey
  | delete key => exact sourced_delete h key

theorem isolated_of_sourced (h : Sourced st) (b : Backend) (indexed : Bool) : Isolated b indexed st := by
  intro filter hw e he
  obtain ⟨r, hr, rfl, hm⟩ := returned_spec he
  obtain ⟨put, hput, hval, hsee⟩ := h r hr
  have hv : Visible filter.workspaceId (extractMemoryEntry r) := visible_of_matches hw hm
  exact ⟨put, hput, hval, hsee _ hv⟩

end Writes

/-- **Workspace isolation.** In a run from an empty store whose writes all keep values in their scope, every
state that is reached is isolated. -/
theorem workspace_isolated (b : Backend) (indexed : Bool) (embedText : Bytes → List F32) (as : List Write)
    (h : EveryStep (step embedText) ScopeKept {} as) :
    EveryStep (step embedText) (fun st a => Isolated b indexed (step embedText st a)) {} as ∧
      Isolated b indexed (as.foldl (step embedText) {}) := by
  have hstep : ∀ st a, Sourced st → ScopeKept st a →
      Isolated b indexed (step embedText st a) ∧ Sourced (step embedText st a) := by
    intro st a hst ha
    have hnext : Sourced (step embedText st a) := sourced_step hst ha
    exact ⟨isolated_of_sourced hnext b indexed, hnext⟩
  have hstart : Sourced {} := fun r hr => absurd hr List.not_mem_nil
  obtain ⟨hall, hend⟩ := everyStep_of_invariant hstep as {} hstart h
  exact ⟨hall, isolated_of_sourced hend b indexed⟩

/-- A backend in which everything matches. -/
def plainBackend : Backend where
  like := fun _ _ => true
  selectKeys := fun _ rows => rows.map fun r => r.entry.key
  search := fun _ _ ids => ids.map fun id => (id, 0)
  cosineSimilarity := fun _ _ => 0
  ge := fun _ _ => true
  gt := fun _ _ => false

/-- A memory of the key `db`. -/
def dbEntry (workspace value : String) : MemoryEntry :=
  { key := ascii "db", value := ascii value, workspaceId := ascii workspace }

theorem workspace_isolated_own :
    EveryStep (step fun _ => []) (fun st a => Isolated plainBackend true (step (fun _ => []) st a)) {}
      [.put (dbEntry "alpha" "port 5432") [], .put (dbEntry "alpha" "port 5433") []] ∧
    Isolated plainBackend true ([.put (dbEntry "alpha" "port 5432") [],
      .put (dbEntry "alpha" "port 5433") []].foldl (step fun _ => []) {}) := by
  refine workspace_isolated plainBackend true (fun _ => []) _
    ⟨⟨by decide +kernel, ?_⟩, ⟨by decide +kernel, ?_⟩, trivial⟩
  · intro r hr
    cases hr
  · intro r hr _
    rw [List.mem_singleton.mp hr]
    exact Or.inr (Or.inr (by decide +kernel))

/-- The store after two workspaces used one key. -/
def sharedKey : State :=
  [.put (dbEntry "beta" "port 3306") [], .put (dbEntry "alpha" "password") []].foldl (step fun _ => []) {}

/-- The second value is returned to the first workspace. -/
theorem workspace_not_isolated : ¬ Isolated plainBackend true sharedKey := by
  intro h
  obtain ⟨put, hput, hval, hsee⟩ := h { workspaceId := ascii "beta" } (by decide +kernel)
    { dbEntry "beta" "password" with accessCount := 1 } (Or.inr (Or.inr (by decide +kernel)))
  have hall : ∀ e ∈ sharedKey.puts, e.value = ascii "password" →
      ¬ (e.workspaceId = ascii "beta" ∨ e.workspaceId = ascii "default" ∨ e.visibility = ascii "public") := by
    decide +kernel
  exact hall put hput hval hsee

end DenseLite.Memory.Isolation
