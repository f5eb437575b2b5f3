import Mathlib.Data.List.Basic
import Mathlib.Tactic.Common

/-! # Buffers that loops fill

A loop writes its blocks one after another into a buffer of zeros, each behind the ones before. Such a loop leaves the
blocks in order (`foldlM_fill`), and is itself a block for the loop around it. -/

namespace DenseLite.Lib.Raster

variable {β : Type*}

/-- `buf[i] = b`, which must be inside the buffer. -/
def write (buf : List β) (i : ℕ) (b : β) : Option (List β) := if i < buf.length then some (buf.set i b) else none

/-- `buf[i + 0] = b`, `buf[i + 1] = b'` and so on. -/
def writeBlock (buf : List β) (i : ℕ) : List β → Option (List β)
  | [] => some buf
  | b :: bs => do writeBlock (← write buf i b) (i + 1) bs

variable {z : β} {before bs : List β} {i m : ℕ}

theorem write_fill (b : β) (h : before.length = i) :
    write (before ++ List.replicate (m + 1) z) i b = some (before ++ b :: List.replicate m z) := by
  subst h
  unfold write
  rw [if_pos (by simp), List.set_append_right _ _ (Nat.le_refl _), Nat.sub_self, List.replicate_succ, List.set_cons_zero]

/-- A block that starts where the zeros start takes the place of as many zeros. -/
theorem writeBlock_fill (h : before.length = i) :
    writeBlock (before ++ List.replicate (bs.length + m) z) i bs = some (before ++ bs ++ List.replicate m z) := by
  induction bs generalizing before i with
  | nil => simp [writeBlock]
  | cons b bs ih =>
    have hlen : (b :: bs).length + m = bs.length + m + 1 := by
      rw [List.length_cons]
      omega
    have hcons : before ++ b :: List.replicate (bs.length + m) z = (before ++ [b]) ++ List.replicate (bs.length + m) z := by
      simp
    rw [hlen, writeBlock, write_fill b h, Option.bind_eq_bind, Option.bind_some, hcons,
      ih (by rw [List.length_append, h]; rfl)]
    simp

theorem mapM_eq_some_iff {α γ : Type*} {f : α → Option γ} {as : List α} {cs : List γ} :
    as.mapM f = some cs ↔ as.map f = cs.map some := by
  induction as generalizing cs with
  | nil => cases cs <;> simp
  | cons a as ih =>
    simp only [List.mapM_cons, Option.bind_eq_bind, Option.pure_def, Option.bind_eq_some_iff, ih, List.map_cons,
      Option.some.injEq]
    constructor
    · rintro ⟨c, hc, cs, hcs, rfl⟩
      rw [hc, hcs, List.map_cons]
    · cases cs with
      | nil => simp
      | cons c cs =>
        intro h
        obtain ⟨hc, hcs⟩ := List.cons.inj h
        exact ⟨c, hc, cs, hcs, rfl⟩

theorem mapM_eq_some_map {α γ : Type*} {f : α → Option γ} {g : α → γ} {as : List α} (h : ∀ a ∈ as, f a = some (g a)) :
    as.mapM f = some (as.map g) := by
  rw [mapM_eq_some_iff, List.map_map]
  exact List.map_congr_left h

/-- Blocks of one length, put together. -/
theorem length_flatten_mapM {c n : ℕ} {block : ℕ → Option (List β)} {bss : List (List β)}
    (hlen : ∀ k bs, block k = some bs → bs.length = c) (h : (List.range n).mapM block = some bss) :
    bss.flatten.length = n * c := by
  rw [mapM_eq_some_iff] at h
  have hcard : bss.length = n := by
    simpa using (congrArg List.length h).symm
  have hall : ∀ bs ∈ bss, bs.length = c := by
    intro bs hbs
    have hmem : some bs ∈ (List.range n).map block := by
      rw [h]
      exact List.mem_map_of_mem hbs
    obtain ⟨k, -, hk⟩ := List.mem_map.mp hmem
    exact hlen k bs hk
  rw [List.length_flatten, List.map_congr_left hall, List.map_const', List.sum_replicate_nat, hcard]

/-- The body of a loop puts its block of length `c` behind the ones before. -/
def Fills (z : β) (start c : ℕ) (block : ℕ → Option (List β)) (body : List β → ℕ → Option (List β)) : Prop :=
  ∀ k before m, before.length = start + k * c →
    body (before ++ List.replicate (c + m) z) k = (block k).map fun bs => before ++ bs ++ List.replicate m z

/-- **A loop that fills a buffer** leaves the blocks in order, if all of them are there. -/
theorem foldlM_fill {start c n : ℕ} {block : ℕ → Option (List β)} {body : List β → ℕ → Option (List β)}
    (hbody : Fills z start c block body) (hlen : ∀ k bs, block k = some bs → bs.length = c)
    (h : before.length = start) :
    (List.range n).foldlM body (before ++ List.replicate (n * c + m) z) =
      ((List.range n).mapM block).map fun bss => before ++ bss.flatten ++ List.replicate m z := by
  induction n generalizing m with
  | zero => simp
  | succ n ih =>
    have hn : (n + 1) * c + m = n * c + (c + m) := by
      rw [Nat.succ_mul]
      omega
    rw [List.range_succ, List.foldlM_append, hn, ih, List.mapM_append]
    cases hbss : (List.range n).mapM block with
    | none => rfl
    | some bss =>
      have hlength : (before ++ bss.flatten).length = start + n * c := by
        rw [List.length_append, h, length_flatten_mapM hlen hbss]
      simp only [Option.map_some, Option.bind_eq_bind, Option.bind_some, List.foldlM_cons, List.foldlM_nil,
        hbody n _ m hlength, List.mapM_cons, List.mapM_nil]
      cases block n <;> simp

end DenseLite.Lib.Raster
