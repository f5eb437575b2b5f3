import DenseLite.Registry.Roles

/-! # What roles are bound to

The schema has a foreign key from `model_roles` to `local_models`, which nothing enforces. `bindings_registered` says
for which calls every active row of `model_roles` names a registered model all the time. -/

namespace DenseLite.Registry.Bindings

open DenseLite.Lib.ByteStream DenseLite.Lib.UniqueRows DenseLite.Lib.Runs
open DenseLite.Registry.Tables DenseLite.Registry.Inspection DenseLite.Registry.Discovery
open DenseLite.Registry.Relocation DenseLite.Registry.Roles
open DenseLite.Infer.State (ascii)

/-! ### Calls -/

/-- The calls that write to the tables; a request to bind a role is `bind_role` with an active row. -/
inductive Call
  | registerModel (now : Int64) (rec : LocalModelRecord)
  | deleteModel (modelId : Bytes)
  | bindRole (now : Int64) (role modelId : Bytes) (isActive : Bool)
  | setRoleActive (now : Int64) (role : Bytes) (isActive : Bool)
  | bindRequest (now : Int64) (role modelId : Bytes)
  | discover (now : Int64) (disk : Disk)

/-- The call is not a discovery. -/
def Call.Single : Call → Prop
  | .discover _ _ => False
  | _ => True

/-- One call. -/
def step (format : UInt64 → Bytes) (t : ModelTables) : Call → ModelTables
  | .registerModel now rec => Tables.registerModel now rec t
  | .deleteModel modelId => Tables.deleteModel modelId t
  | .bindRole now role modelId isActive => Tables.bindRole now role modelId isActive t
  | .setRoleActive now role isActive => Tables.setRoleActive now role isActive t
  | .bindRequest now role modelId => Tables.bindRole now role modelId true t
  | .discover now disk => (autoDiscoverAndRegister format now disk t).tables

/-- Every active row names a registered model. -/
def Bound (t : ModelTables) : Prop := ∀ b ∈ t.modelRoles, b.isActive = true → Registered t b.modelId

/-- A role is bound to the id. -/
def InUse (t : ModelTables) (modelId : Bytes) : Prop := ∃ b ∈ t.modelRoles, b.isActive = true ∧ b.modelId = modelId

/-- The calls that take no model away that is in use, and bind and activate registered models only. A registration
takes away the row of its path; a discovery may take one away whose file another record claims. -/
def Harmless (t : ModelTables) : Call → Prop
  | .registerModel _ rec =>
    ∀ m ∈ t.localModels, m.filePath = cstr rec.filePath → m.modelId ≠ cstr rec.modelId → ¬ InUse t m.modelId
  | .deleteModel modelId => ¬ InUse t (cstr modelId)
  | .bindRole _ _ modelId isActive => isActive = true → Registered t (cstr modelId)
  | .setRoleActive _ role isActive =>
    isActive = true → ∀ b ∈ t.modelRoles, b.role = cstr role → Registered t b.modelId
  | .bindRequest _ _ modelId => Registered t (cstr modelId)
  | .discover _ disk =>
    ∀ m ∈ t.localModels, InUse t m.modelId → m.filePath ∈ disk.found → ¬ Claims disk (getAllModels t) m.filePath

/-! ### Single calls -/

section Single

variable {t : ModelTables}

theorem bound_registerModel_iff (h : Bound t) (now : Int64) (rec : LocalModelRecord) :
    Bound (Tables.registerModel now rec t) ↔ Harmless t (.registerModel now rec) := by
  constructor
  · rintro hbound m hm hpath hne ⟨b, hb, hactive, hbid⟩
    obtain ⟨m', hm', hid⟩ := hbound b hb hactive
    rcases mem_registerModel.mp hm' with rfl | ⟨hm', -, hpath'⟩
    · exact hne (hbid.symm.trans hid.symm)
    · rw [eq_of_modelId hm' hm (hid.trans hbid)] at hpath'
      exact hpath' hpath.symm
  · intro hharmless b hb hactive
    obtain ⟨m, hm, hid⟩ := h b hb hactive
    by_cases heq : m.modelId = cstr rec.modelId
    · rw [← hid, heq]
      exact registered_registerModel
    · refine ⟨m, mem_registerModel.mpr (Or.inr ⟨hm, fun h => heq h.symm, fun hpath => ?_⟩), hid⟩
      exact hharmless m hm hpath.symm heq ⟨b, hb, hactive, hid.symm⟩

theorem bound_deleteModel_iff (h : Bound t) (modelId : Bytes) :
    Bound (Tables.deleteModel modelId t) ↔ Harmless t (.deleteModel modelId) := by
  constructor
  · rintro hbound ⟨b, hb, hactive, hid⟩
    obtain ⟨m, hm, hmid⟩ := hbound b hb hactive
    exact absurd (hmid.trans hid) (of_decide_eq_true (List.mem_filter.mp hm).2)
  · intro hharmless b hb hactive
    obtain ⟨m, hm, hid⟩ := h b hb hactive
    refine ⟨m, List.mem_filter.mpr ⟨hm, decide_eq_true fun heq => ?_⟩, hid⟩
    exact hharmless ⟨b, hb, hactive, hid.symm.trans heq⟩

theorem bound_bindRole_iff (h : Bound t) (now : Int64) (role modelId : Bytes) (isActive : Bool) :
    Bound (Tables.bindRole now role modelId isActive t) ↔ (isActive = true → Registered t (cstr modelId)) := by
  constructor
  · exact fun hbound hactive => hbound _ mem_insertOrReplace_self hactive
  · intro hregistered b hb hactive
    rcases mem_insertOrReplace.mp hb with rfl | ⟨hb, -⟩
    · exact hregistered hactive
    · exact h b hb hactive

theorem modelId_toggled (now : Int64) (role : Bytes) (isActive : Bool) (b : ModelRoleBinding) :
    (toggled now role isActive b).modelId = b.modelId := by
  unfold toggled
  split_ifs <;> rfl

theorem bound_setRoleActive_iff (h : Bound t) (now : Int64) (role : Bytes) (isActive : Bool) :
    Bound (Tables.setRoleActive now role isActive t) ↔ Harmless t (.setRoleActive now role isActive) := by
  constructor
  · rintro hbound hactive b hb hrole
    have hregistered := hbound (toggled now role isActive b) (List.mem_map_of_mem hb)
      (by rw [toggled, if_pos hrole]; exact hactive)
    rwa [modelId_toggled] at hregistered
  · intro hharmless b' hb' hactive
    obtain ⟨b, hb, rfl⟩ := List.mem_map.mp hb'
    rw [modelId_toggled]
    by_cases hrole : b.role = cstr role
    · rw [toggled, if_pos hrole] at hactive
      exact hharmless hactive b hb hrole
    · rw [toggled, if_neg hrole] at hactive
      exact h b hb hactive

end Single

/-- **A single call** keeps all active rows bound to registered models if and only if it is harmless. -/
theorem bound_step_iff {format : UInt64 → Bytes} {t : ModelTables} (h : Bound t) {a : Call} (ha : a.Single) :
    Bound (step format t a) ↔ Harmless t a := by
  cases a with
  | registerModel now rec => exact bound_registerModel_iff h now rec
  | deleteModel modelId => exact bound_deleteModel_iff h modelId
  | bindRole now role modelId isActive => exact bound_bindRole_iff h now role modelId isActive
  | setRoleActive now role isActive => exact bound_setRoleActive_iff h now role isActive
  | bindRequest now role modelId =>
    exact (bound_bindRole_iff h now role modelId true).trans ⟨fun h => h rfl, fun h _ => h⟩
  | discover now disk => exact ha.elim

/-! ### Discoveries -/

/-- What is bound for an id is bound to it. -/
theorem mem_bindRolesForId {now : Int64} {modelId : Bytes} {t : ModelTables} {b : ModelRoleBinding}
    (h : b ∈ (bindRolesForId now modelId t).modelRoles) : b ∈ t.modelRoles ∨ b.modelId = cstr modelId := by
  have hfold : ∀ (roles : List Bytes) (t : ModelTables),
      b ∈ (roles.foldl (fun t role => Tables.bindRole now role modelId true t) t).modelRoles →
        b ∈ t.modelRoles ∨ b.modelId = cstr modelId := by
    intro roles
    induction roles with
    | nil => exact fun _ h => Or.inl h
    | cons role roles ih =>
      intro t h
      rcases ih _ h with h | h
      · rcases mem_insertOrReplace.mp h with rfl | ⟨h, -⟩
        · exact Or.inr rfl
        · exact Or.inl h
      · exact Or.inr h
  unfold bindRolesForId at h
  split at h
  · exact Or.inl h
  · exact hfold _ t h

/-- A discovery keeps what is in use, as long as no other record claims its file. -/
theorem bound_discover {format : UInt64 → Bytes} {now : Int64} {disk : Disk} {t : ModelTables} (h : Bound t)
    (hharmless : Harmless t (.discover now disk)) : Bound (autoDiscoverAndRegister format now disk t).tables := by
  have hstart : ∀ b ∈ t.modelRoles, b.isActive = true → ∃ v, Settled disk b.modelId v (start t) := by
    intro b hb hactive
    obtain ⟨m, hm, hid⟩ := h b hb hactive
    exact ⟨m.isVerified, m, ⟨hm, hharmless m hm ⟨b, hb, hactive, hid.symm⟩⟩, hid, rfl⟩
  have hinvariant := (discover_invariant format now disk t
    (I := fun s => ∀ b ∈ s.tables.modelRoles, b.isActive = true → ∃ v, Settled disk b.modelId v s) hstart ?_).2
  · intro b hb hactive
    obtain ⟨v, hsettled⟩ := hinvariant b hb hactive
    exact registered_of_settled hsettled
  · intro s path hs hfound hI b hb hactive
    have hkept : b ∈ s.tables.modelRoles → ∃ v, Settled disk b.modelId v (visit format now disk s path) := by
      intro hb
      obtain ⟨v, hsettled⟩ := hI b hb hactive
      exact ⟨v, settled_visit hfound hs hsettled⟩
    rcases visit_cases format now s (exists_of_mem_found hfound) with
      ⟨-, hvisit⟩ | ⟨modelId, m, -, -, -, hvisit⟩ | ⟨modelId, kind, rec, hid, hkind, hfind, hrec, hvisit⟩
    · rw [hvisit] at hb
      exact hkept hb
    · rw [hvisit] at hb
      exact hkept hb
    · rw [hvisit] at hb
      rcases mem_bindRolesForId hb with hb | hb
      · exact hkept hb
      · rw [hb, cstr_of_not_mem (text_identify hid)]
        refine ⟨true, settled_visit_of_unfit ⟨hfound, hid, kind, hkind, by rw [hrec]; rfl⟩ fun m hm => ⟨?_, ?_⟩⟩
        · exact fun hmid => List.find?_eq_none.mp hfind m hm (fits_of_modelId hmid)
        · exact fun hname => List.find?_eq_none.mp hfind m hm (decide_eq_true (Or.inr hname))

/-- A harmless call keeps all active rows bound to registered models. -/
theorem bound_step {format : UInt64 → Bytes} {t : ModelTables} {a : Call} (h : Bound t) (ha : Harmless t a) :
    Bound (step format t a) := by
  by_cases hsingle : a.Single
  · exact (bound_step_iff h hsingle).mpr ha
  · cases a with
    | discover now disk => exact bound_discover h ha
    | registerModel | deleteModel | bindRole | setRoleActive | bindRequest => exact absurd trivial hsingle

/-! ### Bootstrap -/

/-- The active rows name registered models, and so do those of the seed for roles that have no row. -/
def Prepared (t : ModelTables) : Prop :=
  Bound t ∧ ∀ b ∈ seedRoles, (∀ x ∈ t.modelRoles, x.role ≠ b.role) → Registered t b.modelId

theorem mem_foldl_insertOrIgnore {b : ModelRoleBinding} : ∀ {bs rows : List ModelRoleBinding},
    (bs.Pairwise fun x y => ¬ SameRole x y) →
      (b ∈ bs.foldl (fun rows b => insertOrIgnore SameRole b rows) rows ↔
        b ∈ rows ∨ b ∈ bs ∧ ∀ x ∈ rows, ¬ SameRole b x)
  | [], _, _ => by simp
  | c :: bs, rows, h => by
    obtain ⟨hc, hbs⟩ := List.pairwise_cons.mp h
    rw [List.foldl_cons, mem_foldl_insertOrIgnore hbs]
    have hne : b ∈ bs → ¬ SameRole b c := fun hb hsame => hc b hb (Eq.symm hsame)
    unfold insertOrIgnore
    split_ifs with hclash
    · -- the role of the row has a row already
      obtain ⟨x, hx, hcx⟩ := hclash
      refine or_congr_right ⟨fun hb => ⟨List.mem_cons_of_mem c hb.1, hb.2⟩, fun hb => ⟨?_, hb.2⟩⟩
      rcases List.mem_cons.mp hb.1 with rfl | hmem
      · exact absurd hcx (hb.2 x hx)
      · exact hmem
    · simp only [List.mem_cons, forall_eq_or_imp]
      constructor
      · rintro ((rfl | hb) | ⟨hb, -, hfree⟩)
        · exact Or.inr ⟨Or.inl rfl, fun x hx hsame => hclash ⟨x, hx, hsame⟩⟩
        · exact Or.inl hb
        · exact Or.inr ⟨Or.inr hb, hfree⟩
      · rintro (hb | ⟨rfl | hb, hfree⟩)
        · exact Or.inl (Or.inr hb)
        · exact Or.inl (Or.inl rfl)
        · exact Or.inr ⟨hb, hne hb, hfree⟩

/-- What the bootstrap needs of the tables. -/
theorem bound_bootstrap_iff (t : ModelTables) : Bound (bootstrap t) ↔ Prepared t := by
  have hdistinct : seedRoles.Pairwise fun x y => ¬ SameRole x y := by decide +kernel
  have hactive : ∀ b ∈ seedRoles, b.isActive = true := by decide +kernel
  have hregistered : ∀ modelId, Registered (bootstrap t) modelId ↔ Registered t modelId := by
    intro modelId
    unfold Registered
    rw [localModels_bootstrap]
  unfold Prepared Bound
  simp only [modelRoles_bootstrap, mem_foldl_insertOrIgnore hdistinct, hregistered]
  constructor
  · refine fun h => ⟨fun b hb => h b (Or.inl hb), fun b hb hfree => ?_⟩
    exact h b (Or.inr ⟨hb, fun x hx hsame => hfree x hx (Eq.symm hsame)⟩) (hactive b hb)
  · rintro ⟨hrows, hseed⟩ b (hb | ⟨hb, hfree⟩) hb'
    · exact hrows b hb hb'
    · exact hseed b hb fun x hx heq => hfree x hx (Eq.symm heq)

/-- **Role bindings point at registered models** in every run of harmless calls from a bootstrapped database which
has the models that are bound; and only then, if no call is a discovery. -/
theorem bindings_registered (format : UInt64 → Bytes) (t : ModelTables) (calls : List Call) :
    (Prepared t ∧ EveryStep (step format) Harmless (bootstrap t) calls →
      Bound (bootstrap t) ∧ EveryStep (step format) (fun t a => Bound (step format t a)) (bootstrap t) calls) ∧
    ((∀ a ∈ calls, a.Single) →
      (Bound (bootstrap t) ∧ EveryStep (step format) (fun t a => Bound (step format t a)) (bootstrap t) calls ↔
        Prepared t ∧ EveryStep (step format) Harmless (bootstrap t) calls)) := by
  constructor
  · rintro ⟨hprepared, hharmless⟩
    have hbound := (bound_bootstrap_iff t).mpr hprepared
    exact ⟨hbound, (everyStep_of_invariant (I := Bound) (fun t a h ha => ⟨bound_step h ha, bound_step h ha⟩) calls
      (bootstrap t) hbound hharmless).1⟩
  · intro hsingle
    rw [bound_bootstrap_iff]
    refine and_congr_right fun hprepared => ?_
    exact everyStep_iff_of_invariant (I := Bound) (Q := Call.Single) (fun t a h ha => bound_step_iff h ha)
      (fun t a h ha hharmless => (bound_step_iff h ha).mpr hharmless) calls (bootstrap t)
      ((bound_bootstrap_iff t).mpr hprepared) hsingle

/-- A new database has roles and no models. -/
theorem not_bound_bootstrap_empty : ¬ Bound (bootstrap empty) := by
  rw [bound_bootstrap_iff]
  rintro ⟨-, hseed⟩
  obtain ⟨m, hm, -⟩ := hseed ⟨ascii "compressor", ascii "smollm2", true, 1700000000000⟩ (by simp [seedRoles]) nofun
  cases hm

end DenseLite.Registry.Bindings
