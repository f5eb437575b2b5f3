import DenseLite.Engine.Sessions
import DenseLite.Lib.LexicalPath

/-! # The files of sessions

`save_to_disk_internal` and `get_or_create` put the session id of a request into a path as it is, and the operating
system reads that path up to its first zero byte. `files_confined_iff` says for which ids the files stand directly
in the cache directory, one for each id: an id without separator and zero byte is one of them, but an id may as well
climb out of the directory, or name the file of another one. -/

namespace DenseLite.SessionKV.FileNames

open DenseLite.Lib.ByteStream DenseLite.Lib.LexicalPath DenseLite.Engine.Sessions
open DenseLite.Infer.State (ascii)

/-! ### Paths -/

/-- `cache_dir_ + "/" + session_id + ".kv"`, in `save_to_disk_internal` and `get_or_create`. -/
def cachePath (cacheDir sessionId : Bytes) : Bytes := cacheDir ++ ascii "/" ++ sessionId ++ ascii ".kv"

/-- A part of a path. -/
def part (s : Bytes) : PathPart Bytes :=
  if s = [] ∨ s = ascii "." then .here else if s = ascii ".." then .up else .name s

/-- The parts of a path. -/
def parts (path : Bytes) : List (PathPart Bytes) := (path.splitOn 0x2f).map part

/-- `lexically_normal`: the location, and whether its last part is a file name. A path that ends in a separator or in
dots is that of a directory. -/
def normalise (path : Bytes) : Location Bytes × Bool :=
  (Location.walk ⟨path.head? = some 0x2f, 0, []⟩ (parts path),
    ((parts path).getLast?.map PathPart.isName).getD false)

/-- Where a path leads: the operating system reads it up to its first zero byte. -/
def located (path : Bytes) : Location Bytes × Bool := normalise (cstr path)

/-- The path of a session is that of a file directly in the cache directory. -/
def Confined (cacheDir sessionId : Bytes) : Prop :=
  ∃ n, located (cachePath cacheDir sessionId) = ((located cacheDir).1.child n, true)

/-! ### What an id does to the path -/

/-- The id in its path, up to the first zero byte. -/
def idText (sessionId : Bytes) : Bytes := cstr (sessionId ++ ascii ".kv")

/-- What stands in the id after its last separator. -/
def lastPart (sessionId : Bytes) : Bytes := ((idText sessionId).splitOn 0x2f).getLastD []

/-- The normal form of what stands before. -/
def leading (sessionId : Bytes) : Location Bytes := relative (parts (idText sessionId)).dropLast

/-- The id ends in a file name, and what stands before it climbs so many directories and names the same ones again.
Where the cache directory is not rooted it climbs no higher than that has names. -/
structure Stays (cacheDir sessionId : Bytes) : Prop where
  dir_ne_nil : cacheDir ≠ []
  dir_zero : 0 ∉ cacheDir
  isName : (part (lastPart sessionId)).isName = true
  climbs : (located cacheDir).1.rooted = true ∨ (leading sessionId).ups ≤ (located cacheDir).1.names.length
  returns : (leading sessionId).names =
    (located cacheDir).1.names.drop ((located cacheDir).1.names.length - (leading sessionId).ups)

section Paths

variable {cacheDir sessionId : Bytes}

theorem cstr_append {path : Bytes} (h : 0 ∉ path) (rest : Bytes) : cstr (path ++ rest) = path ++ cstr rest :=
  List.takeWhile_append_of_pos fun b hb => by simpa using fun h0 : b = 0 => h (h0 ▸ hb)

theorem cstr_append_of_mem {path : Bytes} (h : 0 ∈ path) (rest : Bytes) : cstr (path ++ rest) = cstr path := by
  induction path with
  | nil => simp at h
  | cons b path ih =>
    unfold cstr at ih ⊢
    rw [List.cons_append, List.takeWhile_cons, List.takeWhile_cons]
    by_cases hb : b = 0
    · simp [hb]
    · rw [ih ((List.mem_cons.mp h).resolve_left (Ne.symm hb))]

theorem parts_append (path rest : Bytes) : parts (path ++ 0x2f :: rest) = parts path ++ parts rest := by
  unfold parts
  rw [List.splitOn_append_cons_self, List.map_append]

theorem part_eq_name {s n : Bytes} (h : part s = .name n) : n = s := by
  unfold part at h
  split_ifs at h
  exact (PathPart.name.inj h).symm

theorem parts_eq_concat (path : Bytes) :
    parts path = (parts path).dropLast ++ [part ((path.splitOn 0x2f).getLastD [])] := by
  have hne : path.splitOn 0x2f ≠ [] := List.splitOn_ne_nil _ _
  have hsplit : path.splitOn 0x2f = (path.splitOn 0x2f).dropLast ++ [(path.splitOn 0x2f).getLastD []] := by
    rw [List.getLastD_eq_getLast?, List.getLast?_eq_getLast_of_ne_nil hne, Option.getD_some,
      List.dropLast_append_getLast hne]
  unfold parts
  rw [← List.map_dropLast, ← List.map_singleton, ← List.map_append, ← hsplit]

/-- The path of a session is a walk from the cache directory. -/
theorem located_cachePath (sessionId : Bytes) (hne : cacheDir ≠ []) (hzero : 0 ∉ cacheDir) :
    located (cachePath cacheDir sessionId) =
      (((located cacheDir).1.walk (parts (idText sessionId)).dropLast).go (part (lastPart sessionId)),
        (part (lastPart sessionId)).isName) := by
  have hpath : cstr (cachePath cacheDir sessionId) = cacheDir ++ 0x2f :: idText sessionId := by
    have hcons : cachePath cacheDir sessionId = (cacheDir ++ [0x2f]) ++ (sessionId ++ ascii ".kv") := by
      simp [cachePath, show ascii "/" = [0x2f] from rfl]
    rw [hcons, cstr_append (by simpa using hzero), List.append_assoc, List.singleton_append, idText]
  have hhead : (cacheDir ++ 0x2f :: idText sessionId).head? = cacheDir.head? := by
    rw [List.head?_append_of_ne_nil _ hne]
  have hparts : parts (idText sessionId) =
      (parts (idText sessionId)).dropLast ++ [part (lastPart sessionId)] := parts_eq_concat _
  unfold located normalise
  rw [hpath, cstr_of_not_mem hzero, hhead, parts_append, walk_append, hparts, List.dropLast_concat, walk_concat,
    ← List.append_assoc, List.getLast?_concat]
  rfl

end Paths

/-! ### Which ids are confined and distinct -/

section Ids

variable {cacheDir sessionId : Bytes}

/-- Without a cache directory the files are in the root. -/
theorem not_confined_nil (sessionId : Bytes) : ¬ Confined [] sessionId := by
  rintro ⟨n, h⟩
  have hroot := congrArg (fun q => q.1.rooted) h
  have hhead : (cstr (cachePath [] sessionId)).head? = some 0x2f := by
    rw [cachePath, List.nil_append, List.append_assoc]
    rfl
  simp only [located, normalise, rooted_walk, Location.child, hhead] at hroot
  simp [cstr] at hroot

/-- With a zero byte in the cache directory all ids have one path, that of the directory. -/
theorem not_confined_of_mem (h : 0 ∈ cacheDir) (sessionId : Bytes) : ¬ Confined cacheDir sessionId := by
  rintro ⟨n, hn⟩
  have hpath : cstr (cachePath cacheDir sessionId) = cstr cacheDir := by
    rw [cachePath, List.append_assoc, List.append_assoc, cstr_append_of_mem h]
  rw [located, hpath] at hn
  exact child_ne_self (congrArg Prod.fst hn).symm

theorem name_lastPart (h : (part (lastPart sessionId)).isName = true) :
    part (lastPart sessionId) = .name (lastPart sessionId) := by
  cases hp : part (lastPart sessionId) with
  | here => simp [hp, PathPart.isName] at h
  | up => simp [hp, PathPart.isName] at h
  | name n => rw [part_eq_name hp]

/-- The file of an id that stays in the cache directory has its last part as the name. -/
theorem located_of_stays (h : Stays cacheDir sessionId) :
    located (cachePath cacheDir sessionId) = ((located cacheDir).1.child (lastPart sessionId), true) := by
  have hback : (located cacheDir).1.walk (parts (idText sessionId)).dropLast = (located cacheDir).1 :=
    walk_eq_self_iff.mpr ⟨h.climbs, h.returns⟩
  rw [located_cachePath sessionId h.dir_ne_nil h.dir_zero, hback, name_lastPart h.isName]
  rfl

/-- **An id is confined** if and only if it stays in the cache directory. -/
theorem confined_iff : Confined cacheDir sessionId ↔ Stays cacheDir sessionId := by
  refine ⟨fun h => ?_, fun h => ⟨_, located_of_stays h⟩⟩
  have hne : cacheDir ≠ [] := by
    rintro rfl
    exact not_confined_nil sessionId h
  have hzero : 0 ∉ cacheDir := fun hmem => not_confined_of_mem hmem sessionId h
  obtain ⟨n, hn⟩ := h
  rw [located_cachePath sessionId hne hzero] at hn
  have hname : (part (lastPart sessionId)).isName = true := congrArg Prod.snd hn
  rw [name_lastPart hname] at hn
  obtain ⟨hback, -⟩ := child_injective.mp (congrArg Prod.fst hn)
  obtain ⟨hclimbs, hreturns⟩ := walk_eq_self_iff.mp hback
  exact ⟨hne, hzero, hname, hclimbs, hreturns⟩

/-- An id without separator and zero byte stays in every cache directory, and is the name of its file. -/
theorem stays_of_plain (hne : cacheDir ≠ []) (hzero : 0 ∉ cacheDir) (hslash : 0x2f ∉ sessionId)
    (hid : 0 ∉ sessionId) : Stays cacheDir sessionId ∧ lastPart sessionId = sessionId ++ ascii ".kv" := by
  have htext : idText sessionId = sessionId ++ ascii ".kv" := by
    rw [idText, cstr_append hid]
    rfl
  have hsplit : (sessionId ++ ascii ".kv").splitOn 0x2f = [sessionId ++ ascii ".kv"] :=
    List.splitOn_eq_singleton (by simp [hslash, show ascii ".kv" = [0x2e, 0x6b, 0x76] from rfl])
  have hlast : lastPart sessionId = sessionId ++ ascii ".kv" := by
    rw [lastPart, htext, hsplit]
    rfl
  have hleading : leading sessionId = ⟨false, 0, []⟩ := by
    rw [leading, htext, parts, hsplit]
    rfl
  have hlong : 3 ≤ (sessionId ++ ascii ".kv").length := by simp [show (ascii ".kv").length = 3 from rfl]
  refine ⟨⟨hne, hzero, ?_, Or.inr (by rw [hleading]; exact Nat.zero_le _), by simp [hleading]⟩, hlast⟩
  have hshort : ∀ s : Bytes, s.length < 3 → sessionId ++ ascii ".kv" ≠ s := fun s hs heq => by
    rw [heq] at hlong
    omega
  rw [hlast, part, if_neg (not_or.mpr ⟨hshort _ (by decide), hshort _ (by decide)⟩), if_neg (hshort _ (by decide))]
  rfl

/-- Every text that is not empty is the session id of some request. -/
theorem exists_parsedSessionId (hid : sessionId ≠ []) (ms : ℤ) :
    parsedSessionId ⟨some sessionId, none, none⟩ ms = sessionId := by
  have hkeep : nonEmpty (some sessionId) = some sessionId := Option.filter_eq_some_iff.mpr ⟨rfl, by simpa using hid⟩
  rw [parsedSessionId, RequestIds.explicitId, hkeep]
  rfl

/-- **Session files are confined and distinct** for the ids of a set if and only if all of them stay in the cache
directory and no two have the same last part. -/
theorem files_confined_iff (cacheDir : Bytes) (ids : Set Bytes) :
    ((∀ id ∈ ids, Confined cacheDir id) ∧ ∀ id ∈ ids, ∀ id' ∈ ids, id ≠ id' →
      located (cachePath cacheDir id) ≠ located (cachePath cacheDir id')) ↔
    (∀ id ∈ ids, Stays cacheDir id) ∧ ∀ id ∈ ids, ∀ id' ∈ ids, id ≠ id' → lastPart id ≠ lastPart id' := by
  simp only [confined_iff]
  refine and_congr_right fun hstays => ?_
  refine forall₂_congr fun id hid => forall₂_congr fun id' hid' => ?_
  refine imp_congr_right fun _ => not_congr ?_
  rw [located_of_stays (hstays id hid), located_of_stays (hstays id' hid'), Prod.mk.injEq, child_injective]
  simp

/-- The ids `../a`, `a` and `./a` of three requests: the first one leaves the directory, and the others have one
file. -/
theorem ids_escape_and_collide :
    (¬ ∀ req : RequestIds, ∀ ms, Confined (ascii "/var/kv") (parsedSessionId req ms)) ∧
    ¬ ∀ req req' : RequestIds, ∀ ms, parsedSessionId req ms ≠ parsedSessionId req' ms →
      located (cachePath (ascii "/var/kv") (parsedSessionId req ms)) ≠
        located (cachePath (ascii "/var/kv") (parsedSessionId req' ms)) := by
  refine ⟨fun h => ?_, fun h => ?_⟩
  · obtain ⟨n, hn⟩ := h ⟨some (ascii "../a"), none, none⟩ 0
    rw [exists_parsedSessionId (by decide)] at hn
    have hup : located (cachePath (ascii "/var/kv") (ascii "../a")) =
        (⟨true, 0, [ascii "var", ascii "a.kv"]⟩, true) := by decide
    have hlen := congrArg (fun q => q.1.names.length) (hup.symm.trans hn)
    have hdir : (located (ascii "/var/kv")).1.names = [ascii "var", ascii "kv"] := by decide
    simp [Location.child, hdir] at hlen
  · have hne := h ⟨some (ascii "a"), none, none⟩ ⟨some (ascii "./a"), none, none⟩ 0
    rw [exists_parsedSessionId (by decide), exists_parsedSessionId (by decide)] at hne
    exact hne (by decide) (by decide)

end Ids

end DenseLite.SessionKV.FileNames
