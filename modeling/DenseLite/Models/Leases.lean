import DenseLite.Models.Pool

/-! # Leases and their entries

The books of the pool are in order (`Accounted`) when every lease points to the entry that stands under
its id and `active_users` of every entry is the number of leases on it. Each operation of the pool keeps
them in order exactly when it is proper: it does not acquire into a variable that holds a lease, does not
give up a lease on the empty id, and does not add a model over an entry with leases. -/

namespace DenseLite.Models.Leases

open DenseLite.Lib.ByteStream DenseLite.Lib.KeyMap DenseLite.Lib.Live DenseLite.Lib.Runs
open DenseLite.Models.Pool

/-! ### Calls -/

/-- A call of the pool or a step of a lease. -/
inductive Action
  | addModel (id : Bytes) (placement : DevicePlacement) (memBytes : UInt64) (now : ℤ)
  | setState (id : Bytes) (state : ModelState)
  | acquireLease (id : Bytes) (v : ℕ) (now : ℤ)
  | removeModel (id : Bytes)
  | destroyLease (v : ℕ) (now : ℤ)
  | moveConstruct (v w : ℕ)
  | moveAssign (v w : ℕ) (now : ℤ)
deriving DecidableEq, Repr

/-- One call; when the mutex is never released again, nothing happens. -/
def step (s : PoolState) (a : Action) : PoolState :=
  if s.stuck then s
  else match a with
    | .addModel id placement memBytes now => addModel s id now placement memBytes
    | .setState id state => setState s id state
    | .acquireLease id v now => (acquireLease s id now v).1
    | .removeModel id => (removeModel s id).1
    | .destroyLease v now => destroyLease s now v
    | .moveConstruct v w => moveConstruct s v w
    | .moveAssign v w now => moveAssign s now v w

/-! ### The books -/

/-- A lease on the entry with this address. -/
def onEntry (address : ℕ) (l : ModelLease) : Bool := l.pool ∧ l.modelPtr = some address

/-- The lease points to the entry that stands under its id. -/
def Current (s : PoolState) (l : ModelLease) : Prop :=
  ∃ e, find l.modelId s.entries = some e ∧ l.modelPtr = some e.address

/-- The books are in order. -/
structure Accounted (s : PoolState) : Prop where
  free : s.stuck = false
  names : (keys s.leases).Nodup
  ids : (keys s.entries).Nodup
  fresh : ∀ id e, find id s.entries = some e → e.address < s.next
  addresses : ∀ id id' e e', find id s.entries = some e → find id' s.entries = some e' →
    e.address = e'.address → id = id'
  users : ∀ id e, find id s.entries = some e → e.activeUsers = count (onEntry e.address) s.leases
  current : ∀ v l, find v s.leases = some l → l.pool = true → Current s l

/-- The entries are those of before, each with as many users more or less as it has leases. -/
structure Rebalanced (s s' : PoolState) : Prop where
  free : s'.stuck = false
  names : (keys s'.leases).Nodup
  ids : (keys s'.entries).Nodup
  next : s'.next = s.next
  back : ∀ id e', find id s'.entries = some e' → ∃ e, find id s.entries = some e ∧ e'.address = e.address ∧
    e'.activeUsers + count (onEntry e.address) s.leases = e.activeUsers + count (onEntry e.address) s'.leases
  forth : ∀ id e, find id s.entries = some e → ∃ e', find id s'.entries = some e' ∧ e'.address = e.address
  leases : ∀ v l, find v s'.leases = some l → l.pool = true → Current s l

section Books

variable {s s' : PoolState}

theorem Accounted.rebalanced (h : Accounted s) (hr : Rebalanced s s') : Accounted s' where
  free := hr.free
  names := hr.names
  ids := hr.ids
  fresh := by
    intro id e' he'
    obtain ⟨e, he, haddr, -⟩ := hr.back id e' he'
    rw [haddr, hr.next]
    exact h.fresh id e he
  addresses := by
    intro id id' e₁ e₂ h₁ h₂ heq
    obtain ⟨e, he, haddr, -⟩ := hr.back id e₁ h₁
    obtain ⟨e', he', haddr', -⟩ := hr.back id' e₂ h₂
    exact h.addresses id id' e e' he he' (haddr.symm.trans (heq.trans haddr'))
  users := by
    intro id e' he'
    obtain ⟨e, he, haddr, hbalance⟩ := hr.back id e' he'
    have husers := h.users id e he
    rw [haddr]
    omega
  current := by
    intro v l hl hpool
    obtain ⟨e, he, hptr⟩ := hr.leases v l hl hpool
    obtain ⟨e', he', haddr⟩ := hr.forth l.modelId e he
    exact ⟨e', he', haddr ▸ hptr⟩

/-- The lease is on the entry under its id, and on no other. -/
theorem onEntry_iff (h : Accounted s) {l : ModelLease} (hcur : l.pool = true → Current s l) {id : Bytes}
    {e : ModelEntry} (he : find id s.entries = some e) :
    onEntry e.address l = true ↔ l.pool = true ∧ l.modelId = id := by
  unfold onEntry
  rw [decide_eq_true_eq]
  refine and_congr_right fun hpool => ?_
  obtain ⟨e', he', hptr⟩ := hcur hpool
  rw [hptr, Option.some.injEq]
  constructor
  · intro haddr
    exact h.addresses l.modelId id e' e he' he haddr
  · rintro rfl
    rw [he] at he'
    rw [Option.some.inj he']

/-- A changed entry, with the address it had. -/
theorem find_set_entry {id : Bytes} {e : ModelEntry} (he : find id s.entries = some e) (e₁ : ModelEntry)
    (haddr : e₁.address = e.address) (id' : Bytes) :
    (∀ e', find id' (set id e₁ s.entries) = some e' →
      (id' = id ∧ e' = e₁) ∨ (id' ≠ id ∧ find id' s.entries = some e')) ∧
    ∀ e', find id' s.entries = some e' →
      ∃ e'', find id' (set id e₁ s.entries) = some e'' ∧ e''.address = e'.address := by
  by_cases hid : id' = id
  · subst hid
    refine ⟨fun e' he' => Or.inl ⟨rfl, ?_⟩, fun e' he' => ⟨e₁, find_set_self, ?_⟩⟩
    · exact (Option.some.inj (find_set_self.symm.trans he')).symm
    · rw [haddr, Option.some.inj (he.symm.trans he')]
  · refine ⟨fun e' he' => Or.inr ⟨hid, ?_⟩, fun e' he' => ⟨e', ?_, rfl⟩⟩
    · rwa [find_set_of_ne hid] at he'
    · rwa [find_set_of_ne hid]

/-- **Giving up a lease** takes one user from its entry, and leaves the others. -/
theorem Rebalanced.giveUp (h : Accounted s) {l : ModelLease} (hcur : l.pool = true → Current s l)
    (hid : l.pool = true → l.modelId ≠ []) (now : ℤ) {leases : List (ℕ × ModelLease)}
    (hnames : (keys leases).Nodup)
    (hcount : ∀ a, count (onEntry a) s.leases = count (onEntry a) leases + if onEntry a l then 1 else 0)
    (hleases : ∀ v l', find v leases = some l' → l'.pool = true → Current s l') :
    Rebalanced s { giveUp s now l with leases := leases } := by
  by_cases hpool : l.pool = true
  · obtain ⟨e, he, -⟩ := hcur hpool
    have hreleases : l.releases = true := decide_eq_true ⟨hpool, hid hpool⟩
    have hgive : Pool.giveUp s now l =
        { s with
          entries := set l.modelId
            { e with activeUsers := e.activeUsers - 1, lastAccessed := now } s.entries } := by
      rw [Pool.giveUp, if_pos hreleases, releaseLease, he]
    rw [hgive]
    have hset := find_set_entry he { e with activeUsers := e.activeUsers - 1, lastAccessed := now } rfl
    refine ⟨h.free, hnames, nodup_keys_set h.ids, rfl, fun id e' he' => ?_, fun id e' he' => (hset id).2 e' he',
      hleases⟩
    rcases (hset id).1 e' he' with ⟨rfl, rfl⟩ | ⟨hne, he'⟩
    · have hon : onEntry e.address l = true := (onEntry_iff h hcur he).mpr ⟨hpool, rfl⟩
      have hcount := hcount e.address
      rw [hon, if_pos rfl] at hcount
      refine ⟨e, he, rfl, ?_⟩
      dsimp only
      push_cast [hcount]
      omega
    · have hon : ¬ onEntry e'.address l = true := fun hon =>
        hne ((onEntry_iff h hcur he').mp hon).2.symm
      have hcount := hcount e'.address
      rw [if_neg hon] at hcount
      exact ⟨e', he', rfl, by dsimp only; omega⟩
  · have hreleases : ¬ l.releases = true := by simp [ModelLease.releases, hpool]
    have hon (a : ℕ) : ¬ onEntry a l = true := by simp [onEntry, hpool]
    rw [Pool.giveUp, if_neg hreleases]
    refine ⟨h.free, hnames, h.ids, rfl, fun id e he => ⟨e, he, rfl, ?_⟩, fun id e he => ⟨e, he, rfl⟩, hleases⟩
    have hcount := hcount e.address
    rw [if_neg (hon _)] at hcount
    dsimp only
    omega

/-! ### Moves -/

theorem onEntry_moved (a : ℕ) (l : ModelLease) : onEntry a l.moved = false := by
  simp [onEntry, ModelLease.moved]

/-- A move takes nothing from and adds nothing to the leases on an entry, but for the lease that the
target had. -/
theorem count_move {v w : ℕ} {l : ModelLease} (h : Accounted s) (hvw : v ≠ w)
    (hw : find w s.leases = some l) (a : ℕ) :
    count (onEntry a) s.leases = count (onEntry a) (set v l (set w l.moved s.leases)) +
      if onEntry a ((find v s.leases).getD {}) then 1 else 0 := by
  have hfirst := count_set (a := l.moved) (p := onEntry a) h.names hw
  simp only [onEntry_moved, Bool.false_eq_true, if_false] at hfirst
  have hv : find v (set w l.moved s.leases) = find v s.leases := find_set_of_ne hvw
  cases hold : find v s.leases with
  | none =>
    rw [hold] at hv
    have hnone : onEntry a (Option.getD none {}) = false := by simp [onEntry]
    simp only [count_set_new hv, hnone, Bool.false_eq_true, if_false]
    omega
  | some old =>
    rw [hold] at hv
    have hsecond := count_set (a := l) (p := onEntry a) (nodup_keys_set h.names) hv
    rw [Option.getD_some]
    omega

/-- After a move every lease is one that was there, or holds nothing. -/
theorem current_move {v w : ℕ} {l : ModelLease} (h : Accounted s) (hw : find w s.leases = some l) :
    ∀ u l', find u (set v l (set w l.moved s.leases)) = some l' → l'.pool = true → Current s l' := by
  intro u l' hu hpool
  rcases find_set_cases hu with ⟨-, rfl⟩ | hu
  · exact h.current w l' hw hpool
  · rcases find_set_cases hu with ⟨-, rfl⟩ | hu
    · exact absurd hpool (by simp [ModelLease.moved])
    · exact h.current u l' hu hpool

end Books

/-! ### Proper calls -/

/-- The entry can be leased. -/
def Available (s : PoolState) (id : Bytes) : Prop :=
  ∃ e, find id s.entries = some e ∧ (e.state = .HOT ∨ e.state = .WARM)

/-- The lease that a variable holds; a new variable holds none. -/
def leaseOf (s : PoolState) (v : ℕ) : ModelLease := (find v s.leases).getD {}

/-- The lease can be given up: it is none on the empty id. -/
def Named (l : ModelLease) : Prop := l.pool = true → l.modelId ≠ []

/-- A proper call: it acquires into a variable without a lease only, gives up no lease on the empty id,
and adds no model over an entry with leases. -/
def Proper (s : PoolState) : Action → Prop
  | .addModel id _ _ _ => ∀ e, find id s.entries = some e → count (onEntry e.address) s.leases = 0
  | .acquireLease id v _ => Available s id → (leaseOf s v).pool = false
  | .destroyLease v _ => Named (leaseOf s v)
  | .moveAssign v w _ => v ≠ w → (find w s.leases).isSome → Named (leaseOf s v)
  | .setState _ _ | .removeModel _ | .moveConstruct _ _ => True

section Proper

variable {s : PoolState}

theorem leaseOf_some {v : ℕ} {l : ModelLease} (h : find v s.leases = some l) : leaseOf s v = l := by
  rw [leaseOf, h, Option.getD_some]

theorem exists_lease {v : ℕ} (h : (leaseOf s v).pool = true) :
    ∃ l, find v s.leases = some l ∧ l.pool = true := by
  unfold leaseOf at h
  cases hv : find v s.leases with
  | none => rw [hv] at h; exact absurd h (by simp)
  | some l => rw [hv] at h; exact ⟨l, rfl, h⟩

/-- An entry with leases has one that stands under its id. -/
theorem exists_onEntry (h : Accounted s) {id : Bytes} {e : ModelEntry} (he : find id s.entries = some e)
    (hpos : count (onEntry e.address) s.leases ≠ 0) :
    ∃ v l, find v s.leases = some l ∧ l.pool = true ∧ l.modelId = id ∧ l.modelPtr = some e.address := by
  obtain ⟨⟨v, l⟩, hmem, hon⟩ := List.countP_pos_iff.mp (Nat.pos_of_ne_zero hpos)
  have hv := find_of_mem h.names hmem
  obtain ⟨hpool, hid⟩ := (onEntry_iff h (h.current v l hv) he).mp hon
  exact ⟨v, l, hv, hpool, hid, (of_decide_eq_true hon).2⟩

/-- A lease counts for its entry. -/
theorem count_ne_zero (h : Accounted s) {v : ℕ} {l : ModelLease} {e : ModelEntry} (hv : find v s.leases = some l)
    (hpool : l.pool = true) (he : find l.modelId s.entries = some e) :
    count (onEntry e.address) s.leases ≠ 0 := by
  have hon := (onEntry_iff h (h.current v l hv) he).mpr ⟨hpool, rfl⟩
  have hcount := count_erase (p := onEntry e.address) h.names hv
  rw [hon, if_pos rfl] at hcount
  omega

theorem Accounted.addModel (h : Accounted s) {id : Bytes} {placement : DevicePlacement} {memBytes : UInt64}
    {now : ℤ} (hp : Proper s (.addModel id placement memBytes now)) :
    Accounted (addModel s id now placement memBytes) where
  free := h.free
  names := h.names
  ids := nodup_keys_set h.ids
  fresh := by
    intro id' e he
    rcases find_set_cases he with ⟨-, rfl⟩ | he
    · exact Nat.lt_succ_self s.next
    · exact Nat.lt_succ_of_lt (h.fresh id' e he)
  addresses := by
    intro id₁ id₂ e₁ e₂ h₁ h₂ heq
    rcases find_set_cases h₁ with ⟨hid₁, rfl⟩ | hold₁ <;> rcases find_set_cases h₂ with ⟨hid₂, rfl⟩ | hold₂
    · exact hid₁.trans hid₂.symm
    · exact absurd (h.fresh id₂ e₂ hold₂) (by rw [← heq]; exact Nat.lt_irrefl _)
    · exact absurd (h.fresh id₁ e₁ hold₁) (by rw [heq]; exact Nat.lt_irrefl _)
    · exact h.addresses id₁ id₂ e₁ e₂ hold₁ hold₂ heq
  users := by
    intro id' e he
    rcases find_set_cases he with ⟨-, rfl⟩ | he
    · -- no lease points to an address that has not been given out
      have hzero : count (onEntry s.next) s.leases = 0 := by
        by_contra hpos
        obtain ⟨⟨v, l⟩, hmem, hon⟩ := List.countP_pos_iff.mp (Nat.pos_of_ne_zero hpos)
        obtain ⟨hpool, hptr⟩ := of_decide_eq_true hon
        obtain ⟨e, he, hptr'⟩ := h.current v l (find_of_mem h.names hmem) hpool
        have haddr : s.next = e.address := Option.some.inj (hptr.symm.trans hptr')
        exact absurd (h.fresh l.modelId e he) (by omega)
      show (0 : ℤ) = _
      rw [show (Pool.addModel s id now placement memBytes).leases = s.leases from rfl, hzero]
      rfl
    · exact h.users id' e he
  current := by
    intro v l hl hpool
    obtain ⟨e, he, hptr⟩ := h.current v l hl hpool
    have hne : l.modelId ≠ id := by
      rintro rfl
      exact count_ne_zero h hl hpool he (hp e he)
    exact ⟨e, (find_set_of_ne hne).trans he, hptr⟩

theorem Accounted.removeModel (h : Accounted s) (id : Bytes) : Accounted (removeModel s id).1 := by
  rcases removeModel_cases s id with heq | ⟨e, he, huse, heq⟩
  · rw [heq]
    exact h
  · rw [heq]
    refine ⟨h.free, h.names, nodup_keys_erase h.ids, fun id' e' he' => h.fresh id' e' (find_of_find_erase he'),
      fun id₁ id₂ e₁ e₂ h₁ h₂ => h.addresses id₁ id₂ e₁ e₂ (find_of_find_erase h₁) (find_of_find_erase h₂),
      fun id' e' he' => h.users id' e' (find_of_find_erase he'), fun v l hl hpool => ?_⟩
    obtain ⟨e', he', hptr⟩ := h.current v l hl hpool
    have hne : l.modelId ≠ id := by
      rintro rfl
      have hpos := count_ne_zero h hl hpool he
      have hcount := h.users l.modelId e he
      omega
    exact ⟨e', (find_erase_of_ne hne).trans he', hptr⟩

/-- A state without new leases, in which entries keep address and users. -/
theorem Accounted.setState (h : Accounted s) (id : Bytes) (state : ModelState) :
    Accounted (setState s id state) := by
  unfold Pool.setState
  split
  · next e he =>
    have hset := find_set_entry he { e with state := state } rfl
    refine h.rebalanced ⟨h.free, h.names, nodup_keys_set h.ids, rfl, fun id' e' he' => ?_,
      fun id' e' he' => (hset id').2 e' he', h.current⟩
    rcases (hset id').1 e' he' with ⟨rfl, rfl⟩ | ⟨-, he'⟩
    · exact ⟨e, he, rfl, rfl⟩
    · exact ⟨e', he', rfl, rfl⟩
  · exact h

/-- A lease into a variable that holds none. -/
theorem count_acquire (h : Accounted s) {v : ℕ} (hv : (leaseOf s v).pool = false) (lease : ModelLease) (a : ℕ) :
    count (onEntry a) (set v lease s.leases) =
      count (onEntry a) s.leases + if onEntry a lease then 1 else 0 := by
  unfold leaseOf at hv
  cases hold : find v s.leases with
  | none => exact count_set_new hold
  | some old =>
    rw [hold, Option.getD_some] at hv
    have hset := count_set (a := lease) (p := onEntry a) h.names hold
    have hnone : onEntry a old = false := by simp [onEntry, hv]
    simp only [hnone, Bool.false_eq_true, if_false] at hset
    exact hset

theorem Accounted.acquireLease (h : Accounted s) {id : Bytes} {v : ℕ} {now : ℤ}
    (hp : Proper s (.acquireLease id v now)) : Accounted (acquireLease s id now v).1 := by
  unfold Pool.acquireLease
  split
  · next e he =>
    split_ifs with hstate hreleases
    · exact h
    · have hv := hp ⟨e, he, by tauto⟩
      unfold leaseOf at hv
      exact absurd (of_decide_eq_true hreleases).1 (by rw [hv]; decide)
    · have hv := hp ⟨e, he, by tauto⟩
      have hset := find_set_entry he
        { e with activeUsers := e.activeUsers + 1, lastAccessed := now, state := .HOT } rfl
      have hcount := count_acquire h hv
        { pool := true, modelId := id, modelPtr := some e.address, placement := e.placement }
      refine h.rebalanced ⟨h.free, nodup_keys_set h.names, nodup_keys_set h.ids, rfl, fun id' e' he' => ?_,
        fun id' e' he' => (hset id').2 e' he', fun u l hu hpool => ?_⟩
      · rcases (hset id').1 e' he' with ⟨rfl, rfl⟩ | ⟨hne, he'⟩
        · refine ⟨e, he, rfl, ?_⟩
          dsimp only
          rw [hcount, if_pos (by simp [onEntry])]
          push_cast
          omega
        · have haddr : ¬ e.address = e'.address := fun heq => hne (h.addresses id' id e' e he' he heq.symm)
          refine ⟨e', he', rfl, ?_⟩
          dsimp only
          rw [hcount, if_neg (by simp [onEntry, haddr])]
          omega
      · rcases find_set_cases hu with ⟨-, rfl⟩ | hu
        · exact ⟨e, he, rfl⟩
        · exact h.current u l hu hpool
  · exact h

theorem Accounted.destroyLease (h : Accounted s) {v : ℕ} {now : ℤ} (hp : Named (leaseOf s v)) :
    Accounted (destroyLease s now v) := by
  unfold Pool.destroyLease
  split
  · next l hv =>
    rw [leaseOf_some hv] at hp
    exact h.rebalanced (Rebalanced.giveUp h (h.current v l hv) hp now (nodup_keys_erase h.names)
      (fun a => count_erase h.names hv) fun u l' hu => h.current u l' (find_of_find_erase hu))
  · exact h

theorem Accounted.moveAssign (h : Accounted s) {v w : ℕ} {now : ℤ} (hp : Proper s (.moveAssign v w now)) :
    Accounted (moveAssign s now v w) := by
  unfold Pool.moveAssign
  split
  · next old l hv hw =>
    split_ifs with hvw
    · exact h
    · have hnamed := hp hvw (by rw [hw]; rfl)
      rw [leaseOf_some hv] at hnamed
      refine h.rebalanced (Rebalanced.giveUp h (h.current v old hv) hnamed now
        (nodup_keys_set (nodup_keys_set h.names)) (fun a => ?_) (current_move h hw))
      rw [count_move h hvw hw a, hv, Option.getD_some]
  · exact h

theorem Accounted.moveConstruct (h : Accounted s) (v w : ℕ) : Accounted (moveConstruct s v w) := by
  unfold Pool.moveConstruct
  split
  · next l hv hw =>
    have hvw : v ≠ w := by
      rintro rfl
      rw [hv] at hw
      exact absurd hw (by simp)
    refine h.rebalanced ⟨h.free, nodup_keys_set (nodup_keys_set h.names), h.ids, rfl,
      fun id e he => ⟨e, he, rfl, ?_⟩, fun id e he => ⟨e, he, rfl⟩, current_move h hw⟩
    rw [count_move h hvw hw, hv, Option.getD_none, if_neg (by simp [onEntry])]
    rfl
  · exact h

/-- **A proper call keeps the books in order.** -/
theorem Accounted.step (h : Accounted s) {a : Action} (hp : Proper s a) : Accounted (step s a) := by
  unfold Leases.step
  rw [if_neg (by rw [h.free]; decide)]
  cases a with
  | addModel id placement memBytes now => exact h.addModel hp
  | setState id state => exact h.setState id state
  | acquireLease id v now => exact h.acquireLease hp
  | removeModel id => exact h.removeModel id
  | destroyLease v now => exact h.destroyLease hp
  | moveConstruct v w => exact h.moveConstruct v w
  | moveAssign v w now => exact h.moveAssign hp

end Proper

/-! ### Safety -/

/-- No thread waits for a mutex it holds, no entry with leases has been replaced or destroyed, and
`active_users` of every entry is the number of the leases on it. -/
structure Safe (s : PoolState) : Prop where
  free : s.stuck = false
  current : ∀ v l, find v s.leases = some l → l.pool = true → Current s l
  users : ∀ id e, find id s.entries = some e → e.activeUsers = count (onEntry e.address) s.leases

section Safety

variable {s : PoolState}

theorem Accounted.safe (h : Accounted s) : Safe s := ⟨h.free, h.current, h.users⟩

/-- A lease on the empty id that is given up stays counted. -/
theorem not_users_of_dropped (h : Accounted s) {v : ℕ} {l : ModelLease} (hv : find v s.leases = some l)
    (hpool : l.pool = true) {leases : List (ℕ × ModelLease)}
    (hcount : ∀ a, count (onEntry a) s.leases = count (onEntry a) leases + if onEntry a l then 1 else 0) :
    ∃ e, find l.modelId s.entries = some e ∧ e.activeUsers ≠ count (onEntry e.address) leases := by
  obtain ⟨e, he, -⟩ := h.current v l hv hpool
  have hon := (onEntry_iff h (h.current v l hv) he).mpr ⟨hpool, rfl⟩
  have husers := h.users l.modelId e he
  have hcount := hcount e.address
  rw [hon, if_pos rfl] at hcount
  exact ⟨e, he, by omega⟩

theorem giveUp_unnamed {l : ModelLease} (hid : l.modelId = []) (now : ℤ) : giveUp s now l = s := by
  rw [giveUp, if_neg (by simp [ModelLease.releases, hid])]

theorem Safe.named_of_destroy (h : Accounted s) {v : ℕ} {now : ℤ} (hs : Safe (destroyLease s now v)) :
    Named (leaseOf s v) := by
  intro hpool hid
  obtain ⟨l, hv, hpool⟩ := exists_lease hpool
  rw [leaseOf_some hv] at hid
  obtain ⟨e, he, hne⟩ := not_users_of_dropped h hv hpool fun a => count_erase h.names hv
  unfold destroyLease at hs
  rw [hv] at hs
  dsimp only at hs
  rw [giveUp_unnamed hid] at hs
  exact hne (hs.users l.modelId e he)

theorem Safe.named_of_moveAssign (h : Accounted s) {v w : ℕ} {now : ℤ} (hs : Safe (moveAssign s now v w)) :
    Proper s (.moveAssign v w now) := by
  intro hvw hw hpool hid
  obtain ⟨old, hv, hpool⟩ := exists_lease hpool
  obtain ⟨l, hw⟩ := Option.isSome_iff_exists.mp hw
  rw [leaseOf_some hv] at hid
  have hcount (a : ℕ) := count_move h hvw hw a
  rw [hv, Option.getD_some] at hcount
  obtain ⟨e, he, hne⟩ := not_users_of_dropped h hv hpool hcount
  unfold moveAssign at hs
  rw [hv, hw] at hs
  dsimp only at hs
  rw [if_neg hvw, giveUp_unnamed hid] at hs
  exact hne (hs.users old.modelId e he)

theorem Safe.proper_of_add (h : Accounted s) {id : Bytes} {placement : DevicePlacement} {memBytes : UInt64}
    {now : ℤ} (hs : Safe (addModel s id now placement memBytes)) :
    Proper s (.addModel id placement memBytes now) := by
  intro e he
  by_contra hpos
  obtain ⟨v, l, hv, hpool, hid, hptr⟩ := exists_onEntry h he hpos
  -- the lease would have to point to the new entry
  obtain ⟨e', he', hptr'⟩ := hs.current v l hv hpool
  rw [hid] at he'
  have hnew := Option.some.inj (find_set_self.symm.trans he')
  have haddr : e.address = e'.address := Option.some.inj (hptr.symm.trans hptr')
  have hlt := h.fresh id e he
  rw [haddr, ← hnew] at hlt
  exact absurd hlt (Nat.lt_irrefl s.next)

theorem Safe.proper_of_acquire (h : Accounted s) {id : Bytes} {v : ℕ} {now : ℤ}
    (hs : Safe (acquireLease s id now v).1) : Proper s (.acquireLease id v now) := by
  rintro ⟨e, he, hstate⟩
  by_contra hheld
  obtain ⟨l, hv, hpool⟩ := exists_lease (Bool.not_eq_false _ ▸ hheld)
  unfold acquireLease at hs
  rw [he] at hs
  dsimp only at hs
  rw [if_neg (by tauto), hv, Option.getD_some] at hs
  split_ifs at hs with hreleases
  · exact absurd hs.free (by simp)
  · -- the lease that is overwritten is one on the empty id
    have hid : l.modelId = [] := by
      by_contra hid
      exact hreleases (decide_eq_true ⟨hpool, hid⟩)
    obtain ⟨e₀, he₀, -⟩ := h.current v l hv hpool
    have hon := (onEntry_iff h (h.current v l hv) he₀).mpr ⟨hpool, rfl⟩
    have husers := h.users l.modelId e₀ he₀
    have hset := count_set (a := { pool := true, modelId := id, modelPtr := some e.address, placement := e.placement })
      (p := onEntry e₀.address) h.names hv
    rw [hon, if_pos rfl] at hset
    by_cases hsame : l.modelId = id
    · have heq : e₀ = e := Option.some.inj (he₀.symm.trans (hsame ▸ he))
      have hnew := hs.users id _ find_set_self
      rw [if_pos (by simp [onEntry, heq])] at hset
      rw [heq] at husers hset
      dsimp only at hnew
      omega
    · have hother := hs.users l.modelId e₀ ((find_set_of_ne hsame).trans he₀)
      have haddr : ¬ e.address = e₀.address := fun heq =>
        hsame (h.addresses l.modelId id e₀ e he₀ he heq.symm)
      rw [if_neg (by simp [onEntry, haddr])] at hset
      dsimp only at hother
      omega

theorem Safe.proper (h : Accounted s) {a : Action} (hs : Safe (step s a)) : Proper s a := by
  unfold step at hs
  rw [if_neg (by rw [h.free]; decide)] at hs
  cases a with
  | addModel id placement memBytes now => exact Safe.proper_of_add h hs
  | acquireLease id v now => exact Safe.proper_of_acquire h hs
  | destroyLease v now => exact Safe.named_of_destroy h hs
  | moveAssign v w now => exact Safe.named_of_moveAssign h hs
  | setState _ _ | removeModel _ | moveConstruct _ _ => trivial

end Safety

theorem accounted_start : Accounted {} :=
  ⟨rfl, List.nodup_nil, List.nodup_nil, fun _ _ he => absurd he (by simp [find]),
    fun _ _ _ _ he => absurd he (by simp [find]), fun _ _ he => absurd he (by simp [find]),
    fun _ _ hl => absurd hl (by simp [find])⟩

/-- **Pool safety.** Every call of a run leaves a safe pool exactly when every call is proper. -/
theorem pool_safe_iff (acts : List Action) :
    EveryStep step (fun s a => Safe (step s a)) {} acts ↔ EveryStep step Proper {} acts :=
  everyStep_iff_of_invariant (I := Accounted) (Q := fun _ => True)
    (fun _ _ hs _ => ⟨Safe.proper hs, fun hp => (hs.step hp).safe⟩) (fun _ _ hs _ hp => hs.step hp) acts {}
    accounted_start fun _ _ => trivial

/-- A second lease into the same variable waits for the mutex that its own call holds. -/
theorem pool_unsafe_reacquire : ¬ ∀ acts : List Action, EveryStep step (fun s a => Safe (step s a)) {} acts := by
  intro h
  have hrun := h [.addModel [109] .CPU_RAM 1024 0, .acquireLease [109] 1 1, .acquireLease [109] 1 2]
  have hstuck : (step (step (step {} (.addModel [109] .CPU_RAM 1024 0)) (.acquireLease [109] 1 1))
      (.acquireLease [109] 1 2)).stuck = true := by decide +kernel
  have hfree := hrun.2.2.1.free
  rw [hstuck] at hfree
  exact absurd hfree (by decide)

end DenseLite.Models.Leases
