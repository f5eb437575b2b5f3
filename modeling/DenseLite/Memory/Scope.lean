import DenseLite.Memory.Recall
import Mathlib.Data.Fintype.EquivFin

/-! # The scope of an assembled context

Two states of an engine that agree on the entries a filter matches. What is recalled for the filter is the
same in both; the section of the rules is taken with the default filter, and is the same only if the filter
matches all that the default one does (`respects_iff`). -/

namespace DenseLite.Memory.Scope

open DenseLite.Lib.ByteStream DenseLite.Lib.KeyMap DenseLite.Lib.Live
open DenseLite.Infer.State DenseLite.Memory.Store DenseLite.Memory.Cache DenseLite.Memory.Recall

/-! ### Agreement -/

/-- The rows that the filter matches. -/
def matching (filter : MemoryScopeFilter) (rows : List Row) : List Row :=
  rows.filter fun r => filter.matches (extractMemoryEntry r)

/-- The states have the same entries that the filter matches, in RAM and in the table. -/
structure AgreeOn (filter : MemoryScopeFilter) (st st' : EngineState) : Prop where
  entries : ∀ key e, filter.matches e = true → (find key st.entries = some e ↔ find key st'.entries = some e)
  rows : matching filter st.rows = matching filter st'.rows

/-- The entries of a `std::map` stand under their keys, once each. -/
structure MapOk (entries : Entries) : Prop where
  nodup : (keys entries).Nodup
  key : ∀ key e, find key entries = some e → e.key = key

/-- The keys that have an entry which the filter matches are at most as many as the context recalls. -/
def Few (filter : MemoryScopeFilter) (st : EngineState) : Prop :=
  ((getAll filter st.entries).map (·.key) ++ (matching filter st.rows).map (·.entry.key)).dedup.length ≤
    contextLimit

/-- **The context respects the filter**: entries that it does not match make no difference to it. -/
def Respects (b : Recaller) (query : Bytes) (filter : MemoryScopeFilter) (st : EngineState) : Prop :=
  Few filter st → ∀ st', MapOk st'.entries → AgreeOn filter st st' →
    persistentSection st' = persistentSection st ∧
      recalledSection b query filter st' = recalledSection b query filter st

/-- The filter names no workspace, and allows both visibilities that the default one does. -/
def Wide (filter : MemoryScopeFilter) : Prop :=
  filter.workspaceId = [] ∧ (filter.allowedVisibilities = [] ∨
    ascii "public" ∈ filter.allowedVisibilities ∧ ascii "workspace" ∈ filter.allowedVisibilities)

/-! ### The order of the map -/

theorem toNat_map_injective : Function.Injective (List.map UInt8.toNat) :=
  List.map_injective_iff.mpr fun _ _ => UInt8.toNat_inj.mp

theorem keyLe_trans (x y z : Bytes × MemoryEntry) (hxy : keyLe x y = true) (hyz : keyLe y z = true) :
    keyLe x z = true := by
  unfold keyLe at *
  rw [decide_eq_true_eq] at *
  exact le_trans hxy hyz

theorem keyLe_total (x y : Bytes × MemoryEntry) : (keyLe x y || keyLe y x) = true := by
  unfold keyLe
  rw [Bool.or_eq_true, decide_eq_true_eq, decide_eq_true_eq]
  exact le_total _ _

section Entries

variable {filter : MemoryScopeFilter} {entries entries' : Entries}

/-- The pairs of `get_all`, in their order. -/
def pairs (filter : MemoryScopeFilter) (entries : Entries) : Entries :=
  (entries.mergeSort keyLe).filter fun p => filter.matches p.2

theorem getAll_eq_pairs : getAll filter entries = (pairs filter entries).map Prod.snd := by
  unfold getAll pairs
  rw [List.filter_map]
  rfl

theorem mem_pairs_iff (h : (keys entries).Nodup) {key : Bytes} {e : MemoryEntry} :
    (key, e) ∈ pairs filter entries ↔ find key entries = some e ∧ filter.matches e = true := by
  unfold pairs
  rw [List.mem_filter, List.mem_mergeSort]
  exact and_congr_left fun _ => ⟨find_of_mem h, mem_of_find⟩

theorem nodup_keys_pairs (filter : MemoryScopeFilter) (h : (keys entries).Nodup) : ((pairs filter entries).map Prod.fst).Nodup := by
  have hperm : (keys (entries.mergeSort keyLe)).Nodup := ((List.mergeSort_perm _ _).map Prod.fst).nodup_iff.mpr h
  exact hperm.sublist (List.filter_sublist.map Prod.fst)

theorem sorted_pairs : (pairs filter entries).Pairwise fun x y => keyLe x y = true :=
  (List.pairwise_mergeSort keyLe_trans keyLe_total entries).filter _

/-- **Maps with the same matching entries are listed alike.** -/
theorem getAll_congr (h : (keys entries).Nodup) (h' : (keys entries').Nodup)
    (hsame : ∀ key e, filter.matches e = true → (find key entries = some e ↔ find key entries' = some e)) :
    getAll filter entries = getAll filter entries' := by
  have hnd := nodup_keys_pairs filter h
  have hperm : (pairs filter entries).Perm (pairs filter entries') := by
    refine (List.perm_ext_iff_of_nodup (List.Nodup.of_map _ hnd)
      (List.Nodup.of_map _ (nodup_keys_pairs filter h'))).mpr fun ⟨key, e⟩ => ?_
    rw [mem_pairs_iff h, mem_pairs_iff h']
    exact and_congr_left fun hm => hsame key e hm
  rw [getAll_eq_pairs, getAll_eq_pairs]
  refine congrArg _ (hperm.eq_of_pairwise (fun x y hx hy hxy hyx => ?_) sorted_pairs sorted_pairs)
  -- two pairs with the same key are the same pair
  unfold keyLe at hxy hyx
  have hkey : x.1 = y.1 := toNat_map_injective (le_antisymm (of_decide_eq_true hxy) (of_decide_eq_true hyx))
  exact List.inj_on_of_nodup_map hnd hx (hperm.mem_iff.mpr hy) hkey

end Entries

/-! ### What is recalled -/

section Recalled

variable {b : Recaller} {query : Bytes} {limit : ℕ} {filter : MemoryScopeFilter} {st st' : EngineState}

/-- A query of the table looks at matching rows only. -/
theorem queryMemoriesKeyword_matching (b : Backend) (rows : List Row) :
    queryMemoriesKeyword b query limit filter (matching filter rows) =
      queryMemoriesKeyword b query limit filter rows := by
  unfold queryMemoriesKeyword matching
  congr 1
  rw [List.filter_map, List.filter_map, List.filter_filter, List.filter_filter, List.filter_filter]
  congr 1
  refine List.filter_congr fun r _ => ?_
  dsimp only [Function.comp_apply]
  cases filter.matches (extractMemoryEntry r) <;> simp

theorem recall_congr (h : (keys st.entries).Nodup) (h' : (keys st'.entries).Nodup) (hagree : AgreeOn filter st st') :
    memoryRecall b query limit filter st = memoryRecall b query limit filter st' := by
  unfold memoryRecall recallCached
  rw [getAll_congr h h' hagree.entries, ← queryMemoriesKeyword_matching _ st.rows, hagree.rows,
    queryMemoriesKeyword_matching]

end Recalled

/-! ### The rules -/

section Rules

variable {filter : MemoryScopeFilter} {e : MemoryEntry}

/-- A wide filter matches what the default one does. -/
theorem matches_of_wide (h : Wide filter) (hm : ({} : MemoryScopeFilter).matches e = true) :
    filter.matches e = true := by
  obtain ⟨hws, hvis⟩ := h
  have hstatus := status_of_matches rfl hm
  have hdefault : [ascii "public", ascii "workspace"].contains e.visibility = true := by
    unfold MemoryScopeFilter.matches at hm
    split_ifs at hm
    simpa using hm
  have hvisible : e.visibility = ascii "public" ∨ e.visibility = ascii "workspace" := by
    simpa using hdefault
  unfold MemoryScopeFilter.matches
  rw [if_neg (by simp [hstatus]), if_neg (fun hne => hne.1 hws), if_neg ?_]
  · rcases hvis with hempty | ⟨hpublic, hworkspace⟩
    · rw [hempty]
      rfl
    · rcases hvisible with heq | heq <;> rw [heq, Bool.or_eq_true, List.contains_iff_mem]
      · exact Or.inr hpublic
      · exact Or.inr hworkspace
  · rintro ⟨-, hsession, -⟩
    rcases hvisible with heq | heq <;> exact absurd (heq.symm.trans hsession) (by decide)

/-- A filter that is not wide leaves out an entry that the default one matches, under any key. -/
theorem exists_of_not_wide (h : ¬ Wide filter) (key : Bytes) :
    ∃ e : MemoryEntry, e.key = key ∧ ({} : MemoryScopeFilter).matches e = true ∧ filter.matches e = false := by
  by_cases hws : filter.workspaceId = []
  · have hvis : ∃ v, (v = ascii "public" ∨ v = ascii "workspace") ∧ filter.allowedVisibilities ≠ [] ∧
        v ∉ filter.allowedVisibilities := by
      unfold Wide at h
      rw [not_and] at h
      obtain ⟨hne, hmissing⟩ := not_or.mp (h hws)
      rcases not_and_or.mp hmissing with hmissing | hmissing
      · exact ⟨_, Or.inl rfl, hne, hmissing⟩
      · exact ⟨_, Or.inr rfl, hne, hmissing⟩
    obtain ⟨v, hv, hne, hmissing⟩ := hvis
    refine ⟨{ key := key, visibility := v }, rfl, ?_, ?_⟩
    · rcases hv with rfl | rfl <;> rfl
    · unfold MemoryScopeFilter.matches
      split_ifs
      · rfl
      · rfl
      · rfl
      · rw [Bool.or_eq_false_iff]
        refine ⟨by simpa using hne, ?_⟩
        rw [← Bool.not_eq_true, List.contains_iff_mem]
        exact hmissing
  · -- the entry of a workspace that is neither the one of the filter nor the default one
    refine ⟨{ key := key, workspaceId := filter.workspaceId ++ ascii "default" }, rfl, rfl, ?_⟩
    have hown : filter.workspaceId ++ ascii "default" ≠ filter.workspaceId := by
      rw [ne_eq, List.append_right_eq_self]
      decide
    have hdefault : filter.workspaceId ++ ascii "default" ≠ ascii "default" := by
      rw [ne_eq, List.append_left_eq_self]
      exact hws
    have hpublic : ascii "workspace" ≠ ascii "public" := by decide
    unfold MemoryScopeFilter.matches
    rw [if_neg (by simp), if_pos ⟨hws, hown, hdefault, hpublic⟩]

end Rules

/-! ### The context -/

section Context

variable {st : EngineState} {filter : MemoryScopeFilter}

/-- The section of the rules has a line for each rule. -/
theorem formatContextRules_eq (entries : Entries) : formatContextRules filter entries =
    if getAll filter entries = [] then []
    else ascii "[Persistent System Knowledge & Rules]\n" ++ (getAll filter entries).flatMap ruleLine := by
  unfold formatContextRules
  by_cases hempty : entries = []
  · have hnone : getAll filter [] = [] := by simp [getAll]
    rw [if_pos hempty, hempty, if_pos hnone]
  · rw [if_neg hempty]

theorem length_formatContextRules (entries : Entries) : (formatContextRules filter entries).length =
    if getAll filter entries = [] then 0
    else (ascii "[Persistent System Knowledge & Rules]\n").length +
      ((getAll filter entries).map fun e => (ruleLine e).length).sum := by
  rw [formatContextRules_eq]
  split_ifs
  · rfl
  · rw [List.length_append, List.length_flatMap]

/-- A new entry among the rules makes their section longer. -/
theorem length_formatContextRules_cons (entries : Entries) (key : Bytes) {e : MemoryEntry}
    (h : filter.matches e = true) :
    (formatContextRules filter entries).length < (formatContextRules filter ((key, e) :: entries)).length := by
  have hperm : (getAll filter ((key, e) :: entries)).Perm (e :: getAll filter entries) := by
    have hsorted : (((key, e) :: entries).mergeSort keyLe).Perm ((key, e) :: entries.mergeSort keyLe) :=
      (List.mergeSort_perm _ _).trans ((List.mergeSort_perm _ _).symm.cons _)
    have hfilter := (hsorted.map Prod.snd).filter filter.matches
    rwa [List.map_cons, List.filter_cons_of_pos h] at hfilter
  have hne : getAll filter ((key, e) :: entries) ≠ [] := fun hnil => by
    rw [hnil] at hperm
    exact absurd hperm.length_eq (by simp)
  rw [length_formatContextRules, length_formatContextRules, if_neg hne, (hperm.map _).sum_nat, List.map_cons,
    List.sum_cons]
  have hline : 0 < (ruleLine e).length := by simp [ruleLine, ascii]
  split_ifs <;> omega

/-- A new entry that the filter does not match makes no difference to agreement. -/
theorem agreeOn_cons {key : Bytes} {e : MemoryEntry} (hkey : key ∉ keys st.entries)
    (h : filter.matches e = false) : AgreeOn filter st { st with entries := (key, e) :: st.entries } where
  entries key' e' hm := by
    by_cases heq : key = key'
    · subst heq
      rw [find_eq_none_iff.mpr hkey, find, if_pos rfl]
      refine iff_of_false (by simp) fun hsome => ?_
      have heq : e = e' := Option.some.inj hsome
      rw [heq, hm] at h
      exact absurd h (by decide)
    · rw [find, if_neg heq]
  rows := rfl

theorem MapOk.cons {key : Bytes} {e : MemoryEntry} (h : MapOk st.entries) (hkey : key ∉ keys st.entries)
    (he : e.key = key) : MapOk ((key, e) :: st.entries) where
  nodup := List.nodup_cons.mpr ⟨hkey, h.nodup⟩
  key key' e' hfind := by
    rw [find] at hfind
    split_ifs at hfind with heq
    · rw [← Option.some.inj hfind]
      exact he.trans heq
    · exact h.key key' e' hfind

/-- A filter that is not wide does not keep out the rules of others. -/
theorem not_respects {b : Recaller} {query : Bytes} (hmap : MapOk st.entries) (hfew : Few filter st)
    (hwide : ¬ Wide filter) : ¬ Respects b query filter st := by
  intro h
  obtain ⟨key, hkey⟩ := Infinite.exists_notMem_finset (keys st.entries).toFinset
  rw [List.mem_toFinset] at hkey
  obtain ⟨e, he, hm, hnot⟩ := exists_of_not_wide hwide key
  have hsame := (h hfew _ (hmap.cons hkey he) (agreeOn_cons hkey hnot)).1
  have hlonger := length_formatContextRules_cons st.entries key hm
  exact absurd (congrArg List.length hsame) hlonger.ne'

/-- The rules of a state are those of any other that agrees with it on a wide filter. -/
theorem persistentSection_congr {st' : EngineState} (hwide : Wide filter) (hmap : MapOk st.entries)
    (hmap' : MapOk st'.entries) (hagree : AgreeOn filter st st') :
    persistentSection st' = persistentSection st := by
  have hrules : getAll {} st'.entries = getAll {} st.entries := getAll_congr hmap'.nodup hmap.nodup
    fun key e hm => (hagree.entries key e (matches_of_wide hwide hm)).symm
  unfold persistentSection
  rw [formatContextRules_eq, formatContextRules_eq, hrules]

/-- What is recalled is that of any other state that agrees on the filter. -/
theorem recalledSection_congr {b : Recaller} {query : Bytes} {st' : EngineState} (hmap : MapOk st.entries)
    (hmap' : MapOk st'.entries) (hagree : AgreeOn filter st st') :
    recalledSection b query filter st' = recalledSection b query filter st := by
  unfold recalledSection recalledFor
  rw [recall_congr hmap.nodup hmap'.nodup hagree]

/-- **The whole context of a wide filter** is that of any other state that agrees on the filter. -/
theorem assembleMemoryContext_congr (b : Recaller) (workingMemory query : Bytes) {st' : EngineState}
    (hwide : Wide filter) (hmap : MapOk st.entries) (hmap' : MapOk st'.entries) (hagree : AgreeOn filter st st') :
    assembleMemoryContext b workingMemory query filter st' = assembleMemoryContext b workingMemory query filter st := by
  unfold assembleMemoryContext
  rw [persistentSection_congr hwide hmap hmap' hagree, recalledSection_congr hmap hmap' hagree]

/-- **The context respects the filter** exactly when the filter is wide, where there are at most as many
matching entries as are recalled. -/
theorem respects_iff (b : Recaller) (query : Bytes) (filter : MemoryScopeFilter) (st : EngineState)
    (hmap : MapOk st.entries) : Respects b query filter st ↔ (Few filter st → Wide filter) := by
  constructor
  · intro h hfew
    by_contra hwide
    exact not_respects hmap hfew hwide h
  · intro hwide hfew st' hmap' hagree
    exact ⟨persistentSection_congr (hwide hfew) hmap hmap' hagree, recalledSection_congr hmap hmap' hagree⟩

/-- An engine with a fact for everybody, and one of a session. -/
def sharedState : EngineState where
  rows := [⟨{ key := ascii "db", value := ascii "postgres" }, none⟩,
    ⟨{ key := ascii "os", value := ascii "linux", sessionId := ascii "s", visibility := ascii "session" }, none⟩]
  entries := [(ascii "db", { key := ascii "db", value := ascii "postgres" }),
    (ascii "os", { key := ascii "os", value := ascii "linux", sessionId := ascii "s", visibility := ascii "session" })]

/-- A context taken with the default filter, which matches the first fact and not the second. -/
theorem respects_default : Respects plainRecaller (ascii "db") {} sharedState := by
  have hnodup : (keys sharedState.entries).Nodup := by decide
  have hkeys : ∀ p ∈ sharedState.entries, p.2.key = p.1 := by decide
  have hmap : MapOk sharedState.entries := ⟨hnodup, fun key e hfind => hkeys (key, e) (mem_of_find hfind)⟩
  exact (respects_iff plainRecaller (ascii "db") {} sharedState hmap).mpr fun _ =>
    ⟨rfl, Or.inr ⟨by decide, by decide⟩⟩

/-- The filter of a workspace does not keep out the rules of another one. -/
theorem not_respects_workspace :
    ¬ Respects plainRecaller (ascii "db") { workspaceId := ascii "alpha" } {} := by
  refine not_respects ⟨List.nodup_nil, fun _ _ h => by cases h⟩ ?_ fun h => absurd h.1 (by decide)
  unfold Few
  simp [getAll, matching]

end Context

end DenseLite.Memory.Scope
