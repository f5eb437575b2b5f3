import Mathlib.Data.Finset.Card
import Mathlib.Data.List.Induction

/-! # Puts that are counted

Elements are put into a store one after the other, and before each put it is counted if its key is there already. The
store changes during the count, but what is counted is told by the start: the keys that were absent, each once
(`added_run`), and all elements together (`added_add_updated_run`). A key has the value of its last element
afterwards (`get_run`). -/

namespace DenseLite.Lib.Upserts

variable {σ κ ν ε : Type*}

/-- How a store is read: a put of an element that is `ok` gives its key its value, and leaves the other keys. -/
structure KeyValued (get : κ → σ → Option ν) (put : σ → ε → σ) (key : ε → κ) (value : ε → ν)
    (ok : ε → Prop) : Prop where
  get_self : ∀ {e}, ok e → ∀ s, get (key e) (put s e) = some (value e)
  get_ne : ∀ {e k}, ok e → k ≠ key e → ∀ s, get k (put s e) = get k s

/-- A store, and how many elements were put on a new key and on a key that was there. -/
structure Counted (σ : Type*) where
  state : σ
  added : ℕ := 0
  updated : ℕ := 0

/-- The last element of a key. -/
def lastOf [DecidableEq κ] (key : ε → κ) (k : κ) (es : List ε) : Option ε := (es.filter fun e => key e = k).getLast?

theorem lastOf_concat_self [DecidableEq κ] (key : ε → κ) (es : List ε) (e : ε) :
    lastOf key (key e) (es ++ [e]) = some e := by
  simp [lastOf]

theorem lastOf_concat_of_ne [DecidableEq κ] {key : ε → κ} {k : κ} {e : ε} (h : k ≠ key e) (es : List ε) :
    lastOf key k (es ++ [e]) = lastOf key k es := by
  simp [lastOf, h.symm]

theorem exists_lastOf [DecidableEq κ] {key : ε → κ} {es : List ε} {e : ε} (h : e ∈ es) :
    ∃ last, lastOf key (key e) es = some last := by
  have hne : es.filter (fun e' => key e' = key e) ≠ [] :=
    List.ne_nil_of_mem (List.mem_filter.mpr ⟨h, decide_eq_true rfl⟩)
  exact ⟨_, List.getLast?_eq_some_getLast hne⟩

variable (get : κ → σ → Option ν) (put : σ → ε → σ) (key : ε → κ)

/-- One put. -/
def Counted.step (c : Counted σ) (e : ε) : Counted σ where
  state := put c.state e
  added := if (get (key e) c.state).isSome then c.added else c.added + 1
  updated := if (get (key e) c.state).isSome then c.updated + 1 else c.updated

/-- The puts of a list. -/
def Counted.run (c : Counted σ) (es : List ε) : Counted σ := es.foldl (Counted.step get put key) c

variable {get put key} {value : ε → ν} {ok : ε → Prop} {c : Counted σ} {es : List ε}

theorem run_cons (e : ε) (es : List ε) :
    c.run get put key (e :: es) = (c.step get put key e).run get put key es := rfl

theorem run_concat (es : List ε) (e : ε) :
    c.run get put key (es ++ [e]) = (c.run get put key es).step get put key e :=
  List.foldl_concat ..

theorem added_add_updated_run :
    (c.run get put key es).added + (c.run get put key es).updated = c.added + c.updated + es.length := by
  induction es using List.reverseRecOn with
  | nil => rfl
  | append_singleton es e ih =>
    rw [run_concat, List.length_append, List.length_singleton, Counted.step]
    dsimp only
    split_ifs <;> omega

section Reads

variable [DecidableEq κ] (h : KeyValued get put key value ok)
include h

/-- **The last element of a key** is read afterwards. -/
theorem get_run (hok : ∀ e ∈ es, ok e) (k : κ) :
    get k (c.run get put key es).state = ((lastOf key k es).map value).or (get k c.state) := by
  induction es using List.reverseRecOn with
  | nil => rfl
  | append_singleton es e ih =>
    have he : ok e := hok e (by simp)
    rw [run_concat, Counted.step]
    dsimp only
    by_cases hk : k = key e
    · rw [hk, h.get_self he, lastOf_concat_self, Option.map_some, Option.some_or]
    · rw [h.get_ne he hk, lastOf_concat_of_ne hk, ih fun e' he' => hok e' (by simp [he'])]

/-- **The keys that were absent** are counted, each once. -/
theorem added_run (hok : ∀ e ∈ es, ok e) : (c.run get put key es).added =
    c.added + ((es.map key).toFinset.filter fun k => (get k c.state).isNone).card := by
  induction es generalizing c with
  | nil => rfl
  | cons e es ih =>
    obtain ⟨he, hrest⟩ := List.forall_mem_cons.mp hok
    -- after the put the key is there, and the other keys are as before
    have hfilter : (es.map key).toFinset.filter (fun k => (get k (c.step get put key e).state).isNone) =
        ((es.map key).toFinset.filter fun k => (get k c.state).isNone).erase (key e) := by
      ext k
      rw [Finset.mem_erase, Finset.mem_filter, Finset.mem_filter, Counted.step]
      by_cases hk : k = key e
      · simp [hk, h.get_self he]
      · simp [hk, h.get_ne he hk]
    rw [run_cons, ih hrest, hfilter, List.map_cons, List.toFinset_cons, Finset.filter_insert, Counted.step]
    dsimp only
    by_cases hsome : (get (key e) c.state).isSome = true
    · have hnone : (get (key e) c.state).isNone = false := by simpa using hsome
      have hnot : key e ∉ (es.map key).toFinset.filter fun k => (get k c.state).isNone :=
        fun hmem => Bool.false_ne_true (hnone.symm.trans (Finset.mem_filter.mp hmem).2)
      rw [if_pos hsome, if_neg (by simp [hnone]), Finset.erase_eq_of_notMem hnot]
    · have hnone : (get (key e) c.state).isNone = true := by simpa using hsome
      rw [if_neg hsome, if_pos hnone, ← Finset.erase_insert_eq_erase, Nat.add_assoc, Nat.add_comm 1,
        Finset.card_erase_add_one (Finset.mem_insert_self _ _)]

end Reads

end DenseLite.Lib.Upserts
