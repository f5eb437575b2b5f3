import DenseLite.Registry.Roles

/-! # Admission to the registry

Models are registered by a discovery, by `/api/models/register` and by the command line. Each inspects the file, and
each leaves out some of the checks: the command line does not ask whether the tensors are native, the tray not whether
the roles are compatible, and a discovery that moves a record asks neither for the size nor for the tensors.
`registry_admission` says for which calls every row that was written is one that all the checks would have let in. -/

namespace DenseLite.Registry.Admission

open DenseLite.Lib.ByteStream DenseLite.Lib.Adoption DenseLite.Lib.UniqueRows DenseLite.Lib.Runs
open DenseLite.Registry.Tables DenseLite.Registry.Inspection DenseLite.Registry.Discovery
open DenseLite.Registry.Relocation DenseLite.Registry.Roles
open DenseLite.Infer.State (ascii)
open DenseLite.Gguf.Format (encodeMeta)

/-! ### The ways into the registry -/

section Model

variable (format : UInt64 → Bytes)

/-- The record of an inspected file. -/
def recordOf (modelId path : Bytes) (insp : ModelInspectionResult) : LocalModelRecord :=
  ⟨modelId, path, insp.architecture, insp.paramCount, insp.paramSizeStr, insp.quantType, insp.contextLength, true, 0⟩

/-- `register_model`, and `bind_role` for each of the roles. -/
def registerWith (now : Int64) (rec : LocalModelRecord) (roles : List Bytes) (t : ModelTables) : ModelTables :=
  roles.foldl (fun t role => bindRole now role rec.modelId true t) (registerModel now rec t)

/-- The record that `/api/models/register` registers, if the path is safe and the checks are passed. -/
def trayRecord (disk : Disk) (safe : Bool) (path modelId : Bytes) : Option LocalModelRecord :=
  let insp := disk.inspect format path
  if safe = false then none
  else if !insp.isValid || !insp.isSupportedEdgeSize || !insp.nativeTensorCompatible then none
  else some (recordOf modelId path insp)

/-- The record that `ModelCli::handle_register` registers, if the checks are passed. -/
def cliRecord (disk : Disk) (filepath modelId : Bytes) (roles : List Bytes) : Option LocalModelRecord :=
  let modelId := if modelId = [] then stem filepath else modelId
  let insp := disk.inspect format filepath
  if insp.isValid = false then none
  else if insp.isSupportedEdgeSize = false then none
  else if roles.any fun role => !insp.isRoleCompatible role then none
  else some (recordOf modelId filepath insp)

/-- The roles that `bind_roles_for_id` binds. -/
def rolesFor (modelId : Bytes) (t : ModelTables) : List Bytes :=
  ((roleRules.find? fun rule => rule.ids.contains modelId && !hasRole t rule.role).map RoleRule.binds).getD []

/-- A registration: the row that is written, the roles that are bound with it, and the inspection of the file. -/
structure Registration where
  row : LocalModelRecord
  roles : List Bytes
  insp : ModelInspectionResult

/-- The registration of one file of a discovery. -/
def visitRegistration (now : Int64) (disk : Disk) (s : Scan) (path : Bytes) : Option Registration :=
  match kindOf path, identify path with
  | some kind, some modelId =>
    match s.existing.find? (fits (modelId, path)) with
    | some m =>
      if movesTo disk path m then
        some ⟨boundModel now (relocated format disk (modelId, path) m), [], disk.inspect format path⟩
      else none
    | none =>
      (newRecord format disk modelId path kind).map fun rec =>
        ⟨boundModel now rec, rolesFor modelId (registerModel now rec s.tables), disk.inspect format path⟩
  | _, _ => none

/-- The registrations of the files of a discovery. -/
def scanRegistrations (now : Int64) (disk : Disk) : Scan → List Bytes → List Registration
  | _, [] => []
  | s, path :: paths =>
    (visitRegistration format now disk s path).toList ++
      scanRegistrations now disk (visit format now disk s path) paths

/-- A call, with the disk as it is then. The roles of a request are those up to the first that is not a string. -/
inductive Call
  | discover (now : Int64) (disk : Disk)
  | tray (now : Int64) (disk : Disk) (safe : Bool) (path modelId : Bytes) (roles : List Bytes)
  | cli (now : Int64) (disk : Disk) (filepath modelId : Bytes) (roles : List Bytes)

/-- The disk of a call. -/
def Call.disk : Call → Disk
  | .discover _ disk => disk
  | .tray _ disk _ _ _ _ => disk
  | .cli _ disk _ _ _ => disk

/-- What a call does to the tables. -/
def apply (t : ModelTables) : Call → ModelTables
  | .discover now disk => (autoDiscoverAndRegister format now disk t).tables
  | .tray now disk safe path modelId roles =>
    (trayRecord format disk safe path modelId).elim t fun rec => registerWith now rec roles t
  | .cli now disk filepath modelId roles =>
    (cliRecord format disk filepath modelId roles).elim t fun rec => registerWith now rec roles t

/-- The registrations of a call. -/
def registrations (t : ModelTables) : Call → List Registration
  | .discover now disk => scanRegistrations format now disk (start t) disk.found
  | .tray now disk safe path modelId roles =>
    ((trayRecord format disk safe path modelId).map fun rec =>
      ⟨boundModel now rec, roles, disk.inspect format path⟩).toList
  | .cli now disk filepath modelId roles =>
    ((cliRecord format disk filepath modelId roles).map fun rec =>
      ⟨boundModel now rec, roles, disk.inspect format filepath⟩).toList

/-- The tables, and the registrations of the last call and of the rows that are still there. -/
structure Audited where
  tables : ModelTables
  written : List Registration

/-- One call. -/
def step (s : Audited) (a : Call) : Audited :=
  let tables := apply format s.tables a
  ⟨tables, registrations format s.tables a ++ s.written.filter fun r => r.row ∈ tables.localModels⟩

/-! ### Admission -/

/-- The row has what the inspection says, and the inspection passes all checks. -/
structure AdmittedBy (insp : ModelInspectionResult) (m : LocalModelRecord) : Prop where
  valid : insp.isValid = true
  size : insp.isSupportedEdgeSize = true
  native : insp.nativeTensorCompatible = true
  architecture : m.architecture = insp.architecture
  paramCount : m.paramCount = insp.paramCount
  paramSizeStr : m.paramSizeStr = insp.paramSizeStr
  quantType : m.quantType = insp.quantType
  contextLength : m.contextLength = insp.contextLength

/-- A row that has to be admitted: it is verified, and its file is a GGUF file. -/
def Subject (m : LocalModelRecord) : Prop := m.isVerified = true ∧ extension m.filePath = ascii ".gguf"

/-- The files of the rows that were written are unchanged, as far as rows and files are still there. -/
def Unchanged (s : Audited) (a : Call) : Prop :=
  ∀ r ∈ s.written, r.row ∈ s.tables.localModels → a.disk.exists r.row.filePath = true →
    a.disk.inspect format r.row.filePath = r.insp

/-- After the call every row that was written refers to a file that is admitted, and the roles that were bound with it
are compatible. -/
def Admits (s : Audited) (a : Call) : Prop :=
  ∀ r ∈ (step format s a).written,
    (r.row ∈ (step format s a).tables.localModels → a.disk.exists r.row.filePath = true → Subject r.row →
      AdmittedBy (a.disk.inspect format r.row.filePath) r.row) ∧
    ∀ role ∈ r.roles, r.insp.isRoleCompatible role = true

/-- The texts of an inspection can be stored as they are. -/
def Plain (insp : ModelInspectionResult) : Prop :=
  0 ∉ insp.architecture ∧ 0 ∉ insp.paramSizeStr ∧ 0 ∉ insp.quantType

/-- The inspection passes all checks. -/
def Passes (insp : ModelInspectionResult) : Prop :=
  insp.isValid = true ∧ insp.isSupportedEdgeSize = true ∧ insp.nativeTensorCompatible = true ∧ Plain insp

/-- What the code does not check: that a file to which a verified record moves passes, that texts can be stored, that
the roles of a new file or of a request are compatible, that the tensors of a file of the command line are native. -/
def Checked (t : ModelTables) : Call → Prop
  | .discover _ disk =>
    (∀ path ∈ disk.found, extension path = ascii ".gguf" → Claims disk (getAllModels t) path →
      ∀ modelId, identify path = some modelId → ∀ m ∈ t.localModels, m.isVerified = true → missing disk m = true →
        fits (modelId, path) m = true → Passes (disk.inspect format path)) ∧
    ∀ path ∈ disk.found, ∀ modelId kind rec, identify path = some modelId → kindOf path = some kind →
      newRecord format disk modelId path kind = some rec →
        (∀ m ∈ t.localModels, disk.exists m.filePath = true → fits (modelId, path) m = false) →
          (kind = .gguf → Plain (disk.inspect format path)) ∧
          ∀ rule ∈ roleRules, modelId ∈ rule.ids → hasRole t rule.role = false → ∀ role ∈ rule.binds,
            (disk.inspect format path).isRoleCompatible role = true
  | .tray _ disk safe path modelId roles =>
    (trayRecord format disk safe path modelId).isSome = true →
      0 ∉ path ∧ (extension path = ascii ".gguf" → Plain (disk.inspect format path)) ∧
        ∀ role ∈ roles, (disk.inspect format path).isRoleCompatible role = true
  | .cli _ disk filepath modelId roles =>
    (cliRecord format disk filepath modelId roles).isSome = true →
      0 ∉ filepath ∧ (extension filepath = ascii ".gguf" →
        (disk.inspect format filepath).nativeTensorCompatible = true ∧ Plain (disk.inspect format filepath))

end Model

/-! ### The rows and the roles of a call -/

section Rows

variable {format : UInt64 → Bytes} {now : Int64} {disk : Disk} {s : Scan} {path modelId : Bytes} {t : ModelTables}

/-- What is bound for an id are the roles of the rule. -/
theorem bindRolesForId_eq : bindRolesForId now modelId t =
    (rolesFor modelId t).foldl (fun t role => bindRole now role modelId true t) t := by
  unfold bindRolesForId rolesFor
  cases roleRules.find? fun rule => rule.ids.contains modelId && !hasRole t rule.role <;> rfl

theorem localModels_registerWith (rec : LocalModelRecord) (roles : List Bytes) :
    (registerWith now rec roles t).localModels = (registerModel now rec t).localModels := by
  have hfold : ∀ (roles : List Bytes) (t : ModelTables),
      (roles.foldl (fun t role => bindRole now role rec.modelId true t) t).localModels = t.localModels := by
    intro roles
    induction roles with
    | nil => exact fun _ => rfl
    | cons role roles ih => exact fun t => ih (bindRole now role rec.modelId true t)
  exact hfold roles _

/-- A row is one from before or the one that is written. -/
theorem mem_registerWith {rec m : LocalModelRecord} {roles : List Bytes}
    (h : m ∈ (registerWith now rec roles t).localModels) : m ∈ t.localModels ∨ boundModel now rec = m := by
  rw [localModels_registerWith] at h
  rcases mem_registerModel.mp h with heq | ⟨hmem, -⟩
  · exact Or.inr heq.symm
  · exact Or.inl hmem

/-- The registration of a file that is visited. -/
theorem mem_visit_cases {m : LocalModelRecord} (h : m ∈ (visit format now disk s path).tables.localModels) :
    m ∈ s.tables.localModels ∨ ∃ r, visitRegistration format now disk s path = some r ∧ r.row = m := by
  unfold visit at h
  unfold visitRegistration
  cases hkind : kindOf path with
  | none =>
    rw [hkind] at h
    exact Or.inl h
  | some kind =>
    cases hid : identify path with
    | none =>
      rw [hkind, hid] at h
      exact Or.inl h
    | some modelId =>
      rw [hkind, hid] at h
      replace h : m ∈ (visitAs format now disk modelId kind s path).tables.localModels := h
      unfold visitAs at h
      dsimp only
      cases hfind : s.existing.find? (fits (modelId, path)) with
      | some a =>
        rw [hfind] at h
        dsimp only at h ⊢
        split_ifs at h ⊢ with hmoves
        · rcases mem_registerModel.mp h with heq | ⟨hmem, -⟩
          · exact Or.inr ⟨_, rfl, heq.symm⟩
          · exact Or.inl hmem
        · exact Or.inl h
      | none =>
        rw [hfind] at h
        dsimp only at h ⊢
        cases hrec : newRecord format disk modelId path kind with
        | none =>
          rw [hrec] at h
          exact Or.inl h
        | some rec =>
          rw [hrec] at h
          dsimp only at h
          rw [localModels_bindRolesForId] at h
          rcases mem_registerModel.mp h with heq | ⟨hmem, -⟩
          · exact Or.inr ⟨_, rfl, heq.symm⟩
          · exact Or.inl hmem

theorem mem_scan_cases {m : LocalModelRecord} {paths : List Bytes}
    (h : m ∈ (paths.foldl (visit format now disk) s).tables.localModels) :
    m ∈ s.tables.localModels ∨ ∃ r ∈ scanRegistrations format now disk s paths, r.row = m := by
  induction paths generalizing s with
  | nil => exact Or.inl h
  | cons path paths ih =>
    rcases ih h with hmem | ⟨r, hr, hrow⟩
    · rcases mem_visit_cases hmem with hmem | ⟨r, hr, hrow⟩
      · exact Or.inl hmem
      · exact Or.inr ⟨r, List.mem_append_left _ (Option.mem_toList.mpr hr), hrow⟩
    · exact Or.inr ⟨r, List.mem_append_right _ hr, hrow⟩

/-- **The rows after a call** are rows from before and rows that the call has written. -/
theorem mem_apply_cases {m : LocalModelRecord} {a : Call} (h : m ∈ (apply format t a).localModels) :
    m ∈ t.localModels ∨ ∃ r ∈ registrations format t a, r.row = m := by
  cases a with
  | discover now disk => exact mem_scan_cases (s := start t) h
  | tray now disk safe path modelId roles =>
    unfold apply at h
    unfold registrations
    dsimp only at h ⊢
    cases hrec : trayRecord format disk safe path modelId with
    | none =>
      rw [hrec] at h
      exact Or.inl h
    | some rec =>
      rw [hrec] at h
      exact (mem_registerWith h).imp_right fun hrow => ⟨_, List.mem_singleton.mpr rfl, hrow⟩
  | cli now disk filepath modelId roles =>
    unfold apply at h
    unfold registrations
    dsimp only at h ⊢
    cases hrec : cliRecord format disk filepath modelId roles with
    | none =>
      rw [hrec] at h
      exact Or.inl h
    | some rec =>
      rw [hrec] at h
      exact (mem_registerWith h).imp_right fun hrow => ⟨_, List.mem_singleton.mpr rfl, hrow⟩

variable (now t) in
/-- What the command line accepts is registered. -/
theorem cli_registers {roles : List Bytes} {rec : LocalModelRecord}
    (h : cliRecord format disk path modelId roles = some rec) :
    ⟨boundModel now rec, roles, disk.inspect format path⟩ ∈ registrations format t (.cli now disk path modelId roles) ∧
      boundModel now rec ∈ (apply format t (.cli now disk path modelId roles)).localModels := by
  unfold registrations apply
  dsimp only
  rw [h]
  refine ⟨List.mem_singleton.mpr rfl, ?_⟩
  show _ ∈ (registerWith now rec roles t).localModels
  rw [localModels_registerWith]
  exact mem_insertOrReplace_self

end Rows

/-! ### Sound registrations -/

/-- What a registration has to be: its row is admitted by its inspection, if it has to be, and so are its roles. -/
structure Sound (r : Registration) : Prop where
  row : Subject r.row → AdmittedBy r.insp r.row
  roles : ∀ role ∈ r.roles, r.insp.isRoleCompatible role = true

section Registrations

variable {format : UInt64 → Bytes} {now : Int64} {disk : Disk} {s : Scan} {path modelId : Bytes} {t : ModelTables}
  {insp : ModelInspectionResult} {rec : LocalModelRecord}

/-- A record with the data of an inspection that passes is admitted as it is bound. -/
theorem admittedBy_boundModel (hpass : Passes insp) (harchitecture : rec.architecture = insp.architecture)
    (hcount : rec.paramCount = insp.paramCount) (hsize : rec.paramSizeStr = insp.paramSizeStr)
    (hquant : rec.quantType = insp.quantType) (hcontext : rec.contextLength = insp.contextLength) :
    AdmittedBy insp (boundModel now rec) := by
  obtain ⟨hvalid, hedge, hnative, harch, hstr, htype⟩ := hpass
  refine ⟨hvalid, hedge, hnative, ?_, hcount, ?_, ?_, hcontext⟩
  · show cstr _ = _
    rw [harchitecture, cstr_of_not_mem harch]
  · show cstr _ = _
    rw [hsize, cstr_of_not_mem hstr]
  · show cstr _ = _
    rw [hquant, cstr_of_not_mem htype]

theorem filePath_boundModel (h : 0 ∉ rec.filePath) : (boundModel now rec).filePath = rec.filePath :=
  cstr_of_not_mem h

/-- A record of an inspection that passes is a sound registration. -/
theorem sound_recordOf {roles : List Bytes} (hpath : 0 ∉ path) (hpass : extension path = ascii ".gguf" → Passes insp)
    (hroles : ∀ role ∈ roles, insp.isRoleCompatible role = true) :
    Sound ⟨boundModel now (recordOf modelId path insp), roles, insp⟩ := by
  refine ⟨fun ⟨_, hext⟩ => admittedBy_boundModel (hpass ?_) rfl rfl rfl rfl rfl, hroles⟩
  replace hext : extension (cstr path) = ascii ".gguf" := hext
  rwa [cstr_of_not_mem hpath] at hext

/-! ### The files of a discovery -/

/-- The scan of a discovery that began with the tables: what is missing was so from the beginning, what is claimed was
so too, and what was there, or bound, still is. -/
structure Follows (disk : Disk) (t : ModelTables) (s : Scan) : Prop where
  missing : ∀ m ∈ s.existing, missing disk m = true → m ∈ t.localModels
  claims : ∀ path, Claims disk s.existing path → Claims disk (getAllModels t) path
  kept : ∀ m ∈ t.localModels, disk.exists m.filePath = true → m ∈ s.existing
  roles : ∀ role, hasRole t role = true → hasRole s.tables role = true

theorem follows_start (disk : Disk) (t : ModelTables) : Follows disk t (start t) where
  missing := fun _ hm _ => mem_getAllModels.mp hm
  claims := fun _ h => h
  kept := fun _ hm _ => mem_getAllModels.mpr hm
  roles := fun _ h => h

theorem identify_ne_nil (h : identify path = some modelId) : modelId ≠ [] := by
  obtain ⟨kind, -, rfl⟩ := Option.map_eq_some_iff.mp h
  cases kind with
  | gguf =>
    show deriveModelId _ ≠ []
    unfold deriveModelId
    split
    · rename_i known hfind
      exact (text_knownIds known (List.mem_of_find?_eq_some hfind)).1
    · dsimp only
      split_ifs with hclean
      · decide
      · exact hclean
  | audio => exact show ascii "whisper_base" ≠ [] by decide
  | diffusion => exact show ascii "sd15" ≠ [] by decide

/-- A role that is bound stays bound, perhaps to another model. -/
theorem hasRole_bindRole {role role' : Bytes} (hid : cstr modelId ≠ []) (h : hasRole t role = true) :
    hasRole (bindRole now role' modelId true t) role = true := by
  obtain ⟨b, hb, hbound⟩ := List.any_eq_true.mp h
  obtain ⟨hrole, hne⟩ := of_decide_eq_true hbound
  by_cases hsame : SameRole ⟨cstr role', cstr modelId, true, now⟩ b
  · exact List.any_eq_true.mpr ⟨_, mem_insertOrReplace_self, decide_eq_true ⟨hsame.trans hrole, hid⟩⟩
  · exact List.any_eq_true.mpr ⟨b, mem_insertOrReplace.mpr (Or.inr ⟨hb, hsame⟩), hbound⟩

theorem hasRole_bindRolesForId {role : Bytes} (hid : cstr modelId ≠ []) (h : hasRole t role = true) :
    hasRole (bindRolesForId now modelId t) role = true := by
  rw [bindRolesForId_eq]
  exact foldl_invariant (I := fun t => hasRole t role = true) (C := fun _ => True)
    (fun t role' ht _ => hasRole_bindRole hid ht) _ t h fun _ _ => trivial

theorem follows_visit (hfound : path ∈ disk.found) (h : Follows disk t s) :
    Follows disk t (visit format now disk s path) := by
  have hexists := exists_of_mem_found hfound
  refine ⟨?_, fun path' hclaims => h.claims path' ?_,
    fun m hm hexists' => mem_existing_visit hexists' hfound (h.kept m hm hexists'), ?_⟩
  · intro m hm hmissing
    rcases visit_cases format now s hexists with
      ⟨-, hvisit⟩ | ⟨modelId, a, -, -, -, hvisit⟩ | ⟨modelId, kind, rec, -, -, -, hrec, hvisit⟩
    · rw [hvisit] at hm
      exact h.missing m hm hmissing
    · rw [hvisit] at hm
      rcases mem_settle_cases hm with hm | ⟨b, -, -, rfl⟩
      · exact h.missing m hm hmissing
      · rw [missing_relocated hexists] at hmissing
        cases hmissing
    · rw [hvisit] at hm
      rcases List.mem_append.mp hm with hm | hm
      · exact h.missing m hm hmissing
      · rw [List.mem_singleton.mp hm, missing_new hexists hrec] at hmissing
        cases hmissing
  · by_contra hnot
    exact not_claims_visit hfound hnot hclaims
  · intro role hrole
    have hbefore := h.roles role hrole
    rcases visit_cases format now s hexists with
      ⟨-, hvisit⟩ | ⟨modelId, a, -, -, -, hvisit⟩ | ⟨modelId, kind, rec, hid, -, -, -, hvisit⟩
    · rwa [hvisit]
    · rw [hvisit]
      exact hbefore
    · rw [hvisit]
      refine hasRole_bindRolesForId (t := registerModel now rec s.tables) ?_ hbefore
      rw [cstr_of_not_mem (text_identify hid)]
      exact identify_ne_nil hid

/-- The kind of a file that is no GGUF file. -/
theorem extension_of_kindOf {kind : Kind} (h : kindOf path = some kind) :
    extension path = ascii ".gguf" ↔ kind = .gguf := by
  unfold kindOf at h
  split_ifs at h with hgguf haudio hdiffusion
  · cases h
    exact iff_of_true hgguf rfl
  · cases h
    exact iff_of_false hgguf nofun
  · cases h
    exact iff_of_false hgguf nofun

/-- A GGUF file that is registered anew is registered with its inspection, which passes if its texts can be stored. -/
theorem newRecord_gguf (h : newRecord format disk modelId path .gguf = some rec)
    (hplain : Plain (disk.inspect format path)) :
    rec = recordOf modelId path (disk.inspect format path) ∧ Passes (disk.inspect format path) := by
  unfold newRecord at h
  dsimp only at h
  split_ifs at h with hchecks
  obtain ⟨hvalid, hnative⟩ := Bool.and_eq_true_iff.mp hchecks
  obtain ⟨hvalid, hsize⟩ := Bool.and_eq_true_iff.mp hvalid
  exact ⟨(Option.some.inj h).symm, hvalid, hsize, hnative, hplain⟩

/-- A record that moves to a file that passes has the data of its inspection. -/
theorem admittedBy_relocated (m : LocalModelRecord) (hext : extension path = ascii ".gguf")
    (hpass : Passes (disk.inspect format path)) :
    AdmittedBy (disk.inspect format path) (boundModel now (relocated format disk (modelId, path) m)) := by
  unfold relocated
  dsimp only
  rw [if_pos ⟨hext, hpass.1⟩]
  exact admittedBy_boundModel hpass rfl rfl rfl rfl rfl

/-- The rule by which roles are bound for an id. -/
theorem mem_rolesFor {role : Bytes} (h : role ∈ rolesFor modelId t) :
    ∃ rule ∈ roleRules, modelId ∈ rule.ids ∧ hasRole t rule.role = false ∧ role ∈ rule.binds := by
  unfold rolesFor at h
  cases hfind : roleRules.find? fun rule => rule.ids.contains modelId && !hasRole t rule.role with
  | none =>
    rw [hfind] at h
    cases h
  | some rule =>
    rw [hfind] at h
    have hmatch := List.find?_some hfind
    obtain ⟨hids, hfree⟩ := Bool.and_eq_true_iff.mp hmatch
    exact ⟨rule, List.mem_of_find?_eq_some hfind, List.contains_iff_mem.mp hids, by simpa using hfree, h⟩

/-- **One file** of a discovery is registered soundly, and with the inspection of the path that its row has. -/
theorem sound_visitRegistration {r : Registration} (hfound : path ∈ disk.found) (hs : Follows disk t s)
    (hchecked : Checked format t (.discover now disk)) (h : visitRegistration format now disk s path = some r) :
    Sound r ∧ disk.inspect format r.row.filePath = r.insp := by
  have hexists := exists_of_mem_found hfound
  have hpath := disk.found_text path hfound
  obtain ⟨hmoves, hnews⟩ := hchecked
  unfold visitRegistration at h
  cases hkind : kindOf path with
  | none =>
    rw [hkind] at h
    cases h
  | some kind =>
    cases hid : identify path with
    | none =>
      rw [hkind, hid] at h
      cases h
    | some modelId =>
      rw [hkind, hid] at h
      dsimp only at h
      cases hfind : s.existing.find? (fits (modelId, path)) with
      | some m =>
        rw [hfind] at h
        dsimp only at h
        rw [movesTo_eq hexists] at h
        split_ifs at h with hmissing
        obtain rfl := Option.some.inj h
        have hrow : (boundModel now (relocated format disk (modelId, path) m)).filePath = path := by
          rw [filePath_boundModel, filePath_relocated]
          rwa [filePath_relocated]
        refine ⟨⟨fun ⟨hverified, hext⟩ => ?_, nofun⟩, by rw [hrow]⟩
        rw [hrow] at hext
        replace hverified : (relocated format disk (modelId, path) m).isVerified = true := hverified
        rw [isVerified_relocated] at hverified
        have hclaims := hs.claims path ⟨modelId, hid, m, hfind, hmissing⟩
        have hm := hs.missing m (List.mem_of_find?_eq_some hfind) hmissing
        exact admittedBy_relocated m hext
          (hmoves path hfound hext hclaims modelId hid m hm hverified hmissing (List.find?_some hfind))
      | none =>
        rw [hfind] at h
        obtain ⟨rec, hrec, rfl⟩ := Option.map_eq_some_iff.mp h
        obtain ⟨hrecId, hrecPath, hrecVerified⟩ := newRecord_spec hrec
        have hrow : (boundModel now rec).filePath = path := by
          rw [filePath_boundModel, hrecPath]
          rwa [hrecPath]
        obtain ⟨hplain, hroles⟩ := hnews path hfound modelId kind rec hid hkind hrec fun m hm hm' => by
          simpa using List.find?_eq_none.mp hfind m (hs.kept m hm hm')
        refine ⟨⟨fun ⟨_, hext⟩ => ?_, fun role hrole => ?_⟩, by rw [hrow]⟩
        · rw [hrow] at hext
          obtain rfl := (extension_of_kindOf hkind).mp hext
          obtain ⟨rfl, hpass⟩ := newRecord_gguf hrec (hplain rfl)
          exact admittedBy_boundModel hpass rfl rfl rfl rfl rfl
        · obtain ⟨rule, hrule, hids, hfree, hbinds⟩ := mem_rolesFor hrole
          refine hroles rule hrule hids ?_ role hbinds
          -- a role that is free now was free when the discovery began
          by_contra hbound
          have hbound' := hs.roles rule.role (by simpa using hbound)
          rw [show hasRole s.tables rule.role = false from hfree] at hbound'
          cases hbound'

/-- The registrations of a discovery are sound. -/
theorem sound_scanRegistrations (hchecked : Checked format t (.discover now disk)) {paths : List Bytes}
    (hpaths : ∀ path ∈ paths, path ∈ disk.found) (hs : Follows disk t s) :
    ∀ r ∈ scanRegistrations format now disk s paths, Sound r ∧ disk.inspect format r.row.filePath = r.insp := by
  induction paths generalizing s with
  | nil => exact nofun
  | cons path paths ih =>
    have hfound := hpaths path List.mem_cons_self
    intro r hr
    rcases List.mem_append.mp hr with hr | hr
    · exact sound_visitRegistration hfound hs hchecked (Option.mem_toList.mp hr)
    · exact ih (fun path' h' => hpaths path' (List.mem_cons_of_mem path h')) (follows_visit hfound hs) r hr

end Registrations

/-! ### Runs -/

section Run

variable {format : UInt64 → Bytes} {t : ModelTables} {a : Call}

/-- **The registrations of a call** that meets the condition are sound. -/
theorem sound_registrations (hchecked : Checked format t a) : ∀ r ∈ registrations format t a,
    Sound r ∧ a.disk.inspect format r.row.filePath = r.insp := by
  cases a with
  | discover now disk => exact sound_scanRegistrations hchecked (fun _ h => h) (follows_start disk t)
  | tray now disk safe path modelId roles =>
    intro r hr
    obtain ⟨rec, hrec, rfl⟩ := Option.map_eq_some_iff.mp (Option.mem_toList.mp hr)
    obtain ⟨hpath, hplain, hroles⟩ := hchecked (by rw [hrec]; rfl)
    unfold trayRecord at hrec
    dsimp only at hrec
    split_ifs at hrec with hsafe hchecks
    obtain rfl := Option.some.inj hrec
    refine ⟨sound_recordOf hpath (fun hext => ?_) hroles, congrArg _ (filePath_boundModel hpath)⟩
    simp only [Bool.or_eq_true, Bool.not_eq_true', not_or, Bool.not_eq_false] at hchecks
    exact ⟨hchecks.1.1, hchecks.1.2, hchecks.2, hplain hext⟩
  | cli now disk filepath modelId roles =>
    intro r hr
    obtain ⟨rec, hrec, rfl⟩ := Option.map_eq_some_iff.mp (Option.mem_toList.mp hr)
    obtain ⟨hpath, hunchecked⟩ := hchecked (by rw [hrec]; rfl)
    unfold cliRecord at hrec
    dsimp only at hrec
    split_ifs at hrec with hvalid hsize hroles
    all_goals
      obtain rfl := Option.some.inj hrec
      refine ⟨sound_recordOf hpath (fun hext => ?_) fun role hrole => ?_, congrArg _ (filePath_boundModel hpath)⟩
      · obtain ⟨hnative, hplain⟩ := hunchecked hext
        exact ⟨by simpa using hvalid, by simpa using hsize, hnative, hplain⟩
      · by_contra hnot
        exact hroles (List.any_eq_true.mpr ⟨role, hrole, by simpa using hnot⟩)

/-- Where what was written is sound, a call that meets the condition leaves it admitted. -/
theorem admits_step {s : Audited} (hsound : ∀ r ∈ s.written, Sound r) (hunchanged : Unchanged format s a)
    (hchecked : Checked format s.tables a) :
    Admits format s a ∧ ∀ r ∈ (step format s a).written, Sound r := by
  have hregistrations := sound_registrations hchecked
  have hwritten : ∀ r ∈ (step format s a).written, r ∈ registrations format s.tables a ∨
      r ∈ s.written ∧ r.row ∈ (apply format s.tables a).localModels := by
    intro r hr
    rcases List.mem_append.mp hr with hr | hr
    · exact Or.inl hr
    · obtain ⟨hr, hrow⟩ := List.mem_filter.mp hr
      exact Or.inr ⟨hr, of_decide_eq_true hrow⟩
  have hnew : ∀ r ∈ registrations format s.tables a, Subject r.row →
      AdmittedBy (a.disk.inspect format r.row.filePath) r.row := by
    intro r hr hsubject
    rw [(hregistrations r hr).2]
    exact (hregistrations r hr).1.row hsubject
  refine ⟨fun r hr => ⟨fun hrow hexists hsubject => ?_, fun role hrole => ?_⟩, fun r hr => ?_⟩
  · rcases hwritten r hr with hr | ⟨hr, -⟩
    · exact hnew r hr hsubject
    · rcases mem_apply_cases hrow with hbefore | ⟨r', hr', heq⟩
      · rw [hunchanged r hr hbefore hexists]
        exact (hsound r hr).row hsubject
      · -- the row was lost, and this call has written it again
        rw [← heq] at hsubject ⊢
        exact hnew r' hr' hsubject
  · rcases hwritten r hr with hr | ⟨hr, -⟩
    · exact (hregistrations r hr).1.roles role hrole
    · exact (hsound r hr).roles role hrole
  · rcases hwritten r hr with hr | ⟨hr, -⟩
    · exact (hregistrations r hr).1
    · exact hsound r hr

end Run

/-- **Admission**: in a run of discoveries and registrations in which the files do not change, and each of which meets
the condition, every row that was written is admitted after every call, with compatible roles. -/
theorem registry_admission (format : UInt64 → Bytes) (t : ModelTables) (calls : List Call)
    (hunchanged : EveryStep (step format) (Unchanged format) ⟨t, []⟩ calls)
    (hchecked : EveryStep (step format) (fun s a => Checked format s.tables a) ⟨t, []⟩ calls) :
    EveryStep (step format) (Admits format) ⟨t, []⟩ calls :=
  (everyStep_of_invariant (C := fun s a => Unchanged format s a ∧ Checked format s.tables a)
    (fun _ _ hsound h => admits_step hsound h.1 h.2) calls ⟨t, []⟩ nofun
    ((everyStep_and calls _).mpr ⟨hunchanged, hchecked⟩)).1

/-! ### A model of one tensor -/

/-- A disk with a model of one tensor of the type. -/
def modelDisk (type : UInt32) : Disk where
  entry := fun path =>
    if path = ascii "/models/w.gguf" then
      some (some (encodeMeta [] [⟨⟨ascii "token_embd", by decide +kernel⟩, [256], by decide, type, 0⟩] ++
        List.replicate 163 0))
    else none
  found := []
  found_exists := nofun
  found_text := nofun

theorem isSome_modelDisk (type : UInt32) : ∀ path ∈ [ascii "/models/w.gguf"],
    ((modelDisk type).entry path).isSome = true := by
  simp [modelDisk]

theorem text_modelDisk : ∀ path ∈ [ascii "/models/w.gguf"], 0 ∉ path := by
  decide +kernel

/-- The disk, when its model is in a search directory. -/
def searchedDisk (type : UInt32) : Disk where
  entry := (modelDisk type).entry
  found := [ascii "/models/w.gguf"]
  found_exists := isSome_modelDisk type
  found_text := text_modelDisk

/-- A model that is quantized to `Q4_0`, which the native engine reads, is registered by the tray, found by a discovery,
and registered under another id by the command line. -/
def quantizedCalls : List Call :=
  [.tray 1 (modelDisk 2) true (ascii "/models/w.gguf") (ascii "w") [], .discover 2 (searchedDisk 2),
    .cli 3 (modelDisk 2) (ascii "/models/w.gguf") (ascii "v") []]

/-- The tables and the rows after some of these calls. -/
def afterCalls (n : ℕ) : Audited := (quantizedCalls.take n).foldl (step fun _ => []) ⟨empty, []⟩

/-- The file of the one row is the file that the discovery finds. -/
theorem rows_afterCalls : (afterCalls 1).tables.localModels ≠ [] ∧
    ∀ m ∈ (afterCalls 1).tables.localModels, m.filePath = ascii "/models/w.gguf" ∧
      missing (searchedDisk 2) m = false := by
  decide +kernel

theorem inspect_afterCalls : ∀ r ∈ (afterCalls 1).written ++ (afterCalls 2).written,
    (modelDisk 2).inspect (fun _ => []) r.row.filePath = r.insp ∧
      (searchedDisk 2).inspect (fun _ => []) r.row.filePath = r.insp := by
  decide +kernel

/-- The rows that the three calls write are admitted after each of them. -/
theorem registry_admission_tray : EveryStep (step fun _ => []) (Admits fun _ => []) ⟨empty, []⟩ quantizedCalls := by
  have hplain : ((modelDisk 2).inspect (fun _ => []) (ascii "/models/w.gguf")).nativeTensorCompatible = true ∧
      Plain ((modelDisk 2).inspect (fun _ => []) (ascii "/models/w.gguf")) := by
    unfold Plain
    decide +kernel
  refine registry_admission (fun _ => []) empty _
    ⟨nofun, fun r hr _ _ => (inspect_afterCalls r (List.mem_append_left _ hr)).2,
      fun r hr _ _ => (inspect_afterCalls r (List.mem_append_right _ hr)).1, trivial⟩
    ⟨fun _ => ⟨by decide, fun _ => hplain.2, nofun⟩, ⟨fun _ _ _ _ _ _ m hm _ hmissing => ?_,
      fun path hpath modelId _ _ _ _ _ hfree => ?_⟩, fun _ => ⟨by decide, fun _ => hplain⟩, trivial⟩
  · rw [(rows_afterCalls.2 m hm).2] at hmissing
    cases hmissing
  · -- the file is that of a row
    obtain ⟨m, hm⟩ := List.exists_mem_of_ne_nil _ rows_afterCalls.1
    obtain ⟨hpathm, hthere⟩ := rows_afterCalls.2 m hm
    obtain rfl := List.mem_singleton.mp hpath
    have hfits : fits (modelId, ascii "/models/w.gguf") m = true := by simp [fits, hpathm]
    rw [hfree m hm (by simpa [missing] using hthere)] at hfits
    cases hfits

/-- A model that is quantized to `Q2_K`, which it does not read, is registered by the command line. -/
theorem not_admits_cli : EveryStep (step fun _ => []) (Unchanged fun _ => []) ⟨empty, []⟩
      [.cli 1 (modelDisk 10) (ascii "/models/w.gguf") [] []] ∧
    ¬ EveryStep (step fun _ => []) (Admits fun _ => []) ⟨empty, []⟩
      [.cli 1 (modelDisk 10) (ascii "/models/w.gguf") [] []] := by
  refine ⟨⟨nofun, trivial⟩, fun h => ?_⟩
  have hrec : cliRecord (fun _ => []) (modelDisk 10) (ascii "/models/w.gguf") [] [] =
      some (recordOf (ascii "w") (ascii "/models/w.gguf")
        ((modelDisk 10).inspect (fun _ => []) (ascii "/models/w.gguf"))) := by decide +kernel
  obtain ⟨hregistered, hrow⟩ := cli_registers 1 empty hrec
  have hadmitted := (h.1 _ (List.mem_append_left _ hregistered)).1 hrow (by decide +kernel) ⟨rfl, by decide +kernel⟩
  have hnative := hadmitted.native
  revert hnative
  decide +kernel

end DenseLite.Registry.Admission
