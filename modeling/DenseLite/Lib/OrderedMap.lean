import DenseLite.Lib.Live

/-! # Assignments to a map in the order of its keys

`assignBy lt k a m` is `m[k] = a` for a map whose entries are listed in an order of their keys. Which order that is
does not matter for what is found: after the assignment `k` has the value `a`, and the other keys have what they had. -/

namespace DenseLite.Lib.OrderedMap

open DenseLite.Lib.KeyMap DenseLite.Lib.Live

variable {κ α : Type*} [DecidableEq κ] (lt : κ → κ → Bool)

/-- `m[k] = a`. -/
def assignBy (k : κ) (a : α) (m : List (κ × α)) : List (κ × α) := insertBy lt k a (erase k m)

variable {lt} {k k' : κ} {a b : α} {m : List (κ × α)}

theorem mem_assignBy {e : κ × α} : e ∈ assignBy lt k a m ↔ e = (k, a) ∨ e ∈ m ∧ e.1 ≠ k := by
  unfold assignBy
  rw [mem_insertBy, mem_erase]

theorem mem_keys_assignBy : k' ∈ keys (assignBy lt k a m) ↔ k' = k ∨ k' ∈ keys m := by
  rw [mem_keys, mem_keys]
  constructor
  · rintro ⟨b, hb⟩
    rcases mem_assignBy.mp hb with heq | ⟨hb, -⟩
    · exact Or.inl (Prod.ext_iff.mp heq).1
    · exact Or.inr ⟨b, hb⟩
  · intro h
    by_cases hk : k' = k
    · exact ⟨a, mem_assignBy.mpr (Or.inl (by rw [hk]))⟩
    · obtain ⟨b, hb⟩ := h.resolve_left hk
      exact ⟨b, mem_assignBy.mpr (Or.inr ⟨hb, hk⟩)⟩

theorem nodup_keys_assignBy (h : (keys m).Nodup) : (keys (assignBy lt k a m)).Nodup :=
  nodup_keys_insertBy (nodup_keys_erase h) not_mem_keys_erase

theorem find_insertBy_self : ∀ {m : List (κ × α)}, k ∉ keys m → find k (insertBy lt k a m) = some a
  | [], _ => if_pos rfl
  | e :: es, h => by
    unfold insertBy
    split_ifs
    · exact if_pos rfl
    · have hne : e.1 ≠ k := fun heq => h (List.mem_cons.mpr (Or.inl heq.symm))
      exact (if_neg hne).trans (find_insertBy_self fun hmem => h (List.mem_cons_of_mem _ hmem))

theorem find_insertBy_of_ne (hne : k' ≠ k) : ∀ m : List (κ × α), find k' (insertBy lt k a m) = find k' m
  | [] => if_neg hne.symm
  | e :: es => by
    unfold insertBy
    split_ifs
    · exact if_neg hne.symm
    · rw [find, find, find_insertBy_of_ne hne es]

@[simp] theorem find_assignBy_self : find k (assignBy lt k a m) = some a := find_insertBy_self not_mem_keys_erase

theorem find_assignBy_of_ne (hne : k' ≠ k) : find k' (assignBy lt k a m) = find k' m :=
  (find_insertBy_of_ne hne _).trans (find_erase_of_ne hne)

theorem find_ne_none_iff : find k m ≠ none ↔ k ∈ keys m := by
  rw [ne_eq, find_eq_none_iff, not_not]

/-- The entries of one key are the one that is found. -/
theorem filter_key_eq (hkeys : (keys m).Nodup) (h : find k m = some a) :
    (m.filter fun e => decide (e.1 = k)) = [(k, a)] := by
  have hperm := (perm_cons_erase hkeys h).filter fun e => decide (e.1 = k)
  have hrest : (erase k m).filter (fun e => decide (e.1 = k)) = [] := by
    refine List.filter_eq_nil_iff.mpr fun e he => ?_
    simpa using (mem_erase.mp he).2
  rw [List.filter_cons_of_pos (by simp), hrest] at hperm
  exact List.perm_singleton.mp hperm

end DenseLite.Lib.OrderedMap
