import DenseLite.Engine.Events
import DenseLite.Lib.JsonSize
import DenseLite.Lib.OrderedMap
import DenseLite.Registry.Tables

/-! # The list of models

`GET /v1/models` lists the server itself, the registered models and those that are resident, each id once. The text is
put together with the ids as they are. `modelsReply_iff` says for which ids it is a document with this list. -/

namespace DenseLite.Engine.ModelList

open DenseLite.Lib DenseLite.Lib.ByteStream DenseLite.Lib.JsonText DenseLite.Lib.KeyMap DenseLite.Lib.OrderedMap
open DenseLite.Infer.State (ascii ascii_ofList)
open DenseLite.Registry.Tables
open DenseLite.SessionKV.Manager (bytesLt)

/-! ### The reply -/

/-- `model_ids.insert(id)`. -/
def insertId (ids : List (Bytes × Unit)) (id : Bytes) : List (Bytes × Unit) := assignBy bytesLt id () ids

/-- `model_ids`, in the order of the set. -/
def modelIds (registered : List LocalModelRecord) (resident : List Bytes) : List Bytes :=
  keys ((registered.map (·.modelId) ++ resident).foldl insertId (insertId [] (ascii "denselite")))

/-- `state`. -/
def stateOf (resident : List Bytes) (id : Bytes) : Bytes :=
  if id = ascii "denselite" then ascii "ready" else if resident.contains id then ascii "loaded" else ascii "registered"

/-- What the loop appends for an id. -/
def entryText (resident : List Bytes) (id : Bytes) : Bytes :=
  ascii "\x7b\"id\":\"" ++ id ++
    ascii "\",\"object\":\"model\",\"created\":1700000000,\"owned_by\":\"denselite\",\"state\":\"" ++
    stateOf resident id ++ ascii "\"\x7d"

/-- The body of the loop; the second part of the state is `first`. -/
def appendEntry (resident : List Bytes) (s : Bytes × Bool) (id : Bytes) : Bytes × Bool :=
  ((if s.2 then s.1 else s.1 ++ ascii ",") ++ entryText resident id, false)

/-- `json_str`. -/
def modelsReply (registered : List LocalModelRecord) (resident : List Bytes) : Bytes :=
  ((modelIds registered resident).foldl (appendEntry resident)
    (ascii "\x7b\"object\":\"list\",\"data\":[", true)).1 ++ ascii "]\x7d"

/-! ### The list -/

/-- An entry of the list. -/
def entryOf (resident : List Bytes) (id : Bytes) : Value :=
  .object [(ascii "id", .string id), (ascii "object", .string (ascii "model")),
    (ascii "created", .number (ascii "1700000000")), (ascii "owned_by", .string (ascii "denselite")),
    (ascii "state", .string (stateOf resident id))]

/-- The list. -/
def listOf (resident ids : List Bytes) : Value :=
  .object [(ascii "object", .string (ascii "list")), (ascii "data", .array (ids.map (entryOf resident)))]

/-! ### Writing -/

variable {resident ids : List Bytes} {id : Bytes}

theorem entryText_eq (resident : List Bytes) (id : Bytes) : entryText resident id =
    0x7b :: (0x22 :: ascii "id" ++ [0x22] ++ 0x3a :: (0x22 :: id ++ [0x22]) ++ 0x2c ::
      (0x22 :: ascii "object" ++ [0x22] ++ 0x3a :: (0x22 :: ascii "model" ++ [0x22]) ++ 0x2c ::
        (0x22 :: ascii "created" ++ [0x22] ++ 0x3a :: ascii "1700000000" ++ 0x2c ::
          (0x22 :: ascii "owned_by" ++ [0x22] ++ 0x3a :: (0x22 :: ascii "denselite" ++ [0x22]) ++ 0x2c ::
            (0x22 :: ascii "state" ++ [0x22] ++ 0x3a :: (0x22 :: stateOf resident id ++ [0x22])))))) ++ [0x7d] := by
  unfold entryText
  repeat rw [ascii_ofList]
  simp only [List.map_cons, List.map_nil, List.append_assoc, List.cons_append, List.nil_append]
  rfl

/-- What the loop appends for the ids. -/
def entries (resident : List Bytes) : List Bytes → Bytes
  | [] => []
  | id :: ids => entryText resident id ++ ids.flatMap fun id => 0x2c :: entryText resident id

theorem foldl_appendEntry (s : Bytes) : ids.foldl (appendEntry resident) (s, false) =
    (s ++ ids.flatMap fun id => 0x2c :: entryText resident id, false) := by
  induction ids generalizing s with
  | nil => simp
  | cons id ids ih =>
    have hstep : appendEntry resident (s, false) id = (s ++ 0x2c :: entryText resident id, false) := by
      simp [appendEntry, ascii]
    rw [List.foldl_cons, hstep, ih, List.flatMap_cons, List.append_assoc]

theorem foldl_appendEntry_first (s : Bytes) :
    (ids.foldl (appendEntry resident) (s, true)).1 = s ++ entries resident ids := by
  cases ids with
  | nil => simp [entries]
  | cons id ids =>
    have hstep : appendEntry resident (s, true) id = (s ++ entryText resident id, false) := rfl
    rw [List.foldl_cons, hstep, foldl_appendEntry, entries, List.append_assoc]

theorem modelsReply_eq_append (registered : List LocalModelRecord) (resident : List Bytes) :
    modelsReply registered resident = ascii "\x7b\"object\":\"list\",\"data\":[" ++
      (entries resident (modelIds registered resident) ++ ascii "]\x7d") := by
  unfold modelsReply
  rw [foldl_appendEntry_first, List.append_assoc]

theorem reply_eq (registered : List LocalModelRecord) (resident : List Bytes) : modelsReply registered resident =
    0x7b :: (0x22 :: ascii "object" ++ [0x22] ++ 0x3a :: (0x22 :: ascii "list" ++ [0x22]) ++ 0x2c ::
      (0x22 :: ascii "data" ++ [0x22] ++ 0x3a :: (0x5b :: entries resident (modelIds registered resident) ++ [0x5d]))) ++
      [0x7d] := by
  rw [modelsReply_eq_append]
  simp only [List.append_assoc, List.cons_append, List.nil_append]
  rfl

/-- The words of the reply, which stand for themselves. -/
theorem plain_words : ∀ w ∈ [ascii "id", ascii "object", ascii "model", ascii "created", ascii "owned_by",
    ascii "denselite", ascii "state", ascii "list", ascii "data"], Plain w ∧ Utf8.valid w = true := by
  repeat rw [ascii_ofList]
  decide +kernel

theorem stateOf_mem (resident : List Bytes) (id : Bytes) :
    stateOf resident id ∈ [ascii "ready", ascii "loaded", ascii "registered"] := by
  unfold stateOf
  split_ifs <;> simp

theorem plain_stateOf (resident : List Bytes) (id : Bytes) :
    Plain (stateOf resident id) ∧ Utf8.valid (stateOf resident id) = true := by
  have hwords : ∀ w ∈ [ascii "ready", ascii "loaded", ascii "registered"], Plain w ∧ Utf8.valid w = true := by
    repeat rw [ascii_ofList]
    decide +kernel
  exact hwords (stateOf resident id) (stateOf_mem resident id)

theorem writes_entryText (h : Plain id) (hvalid : Utf8.valid id = true) :
    Writes (entryOf resident id) (entryText resident id) := by
  have hword := fun w hw => (plain_words w hw).1.decodes
  have hutf8 := fun w hw => (plain_words w hw).2
  have hstate := plain_stateOf resident id
  rw [entryText_eq]
  refine writes_object (writesMembers_more (hutf8 _ (by simp)) (hword _ (by simp)) (writes_string hvalid h.decodes) ?_)
  refine writesMembers_more (hutf8 _ (by simp)) (hword _ (by simp))
    (writes_string (hutf8 _ (by simp)) (hword _ (by simp))) ?_
  refine writesMembers_more (hutf8 _ (by simp)) (hword _ (by simp)) (writes_number (by decide +kernel)) ?_
  refine writesMembers_more (hutf8 _ (by simp)) (hword _ (by simp))
    (writes_string (hutf8 _ (by simp)) (hword _ (by simp))) ?_
  exact writesMembers_last (hutf8 _ (by simp)) (hword _ (by simp)) (writes_string hstate.2 hstate.1.decodes)

theorem writesItems_entries (h : ∀ i ∈ id :: ids, Plain i ∧ Utf8.valid i = true) :
    WritesItems ((id :: ids).map (entryOf resident)) (entries resident (id :: ids)) := by
  induction ids generalizing id with
  | nil =>
    have hid := h id (by simp)
    rw [entries, List.flatMap_nil, List.append_nil]
    exact writesItems_last (writes_entryText hid.1 hid.2)
  | cons id' ids ih =>
    obtain ⟨hid, hrest⟩ := List.forall_mem_cons.mp h
    rw [entries, List.flatMap_cons]
    exact writesItems_more (writes_entryText hid.1 hid.2) (ih hrest)

/-! ### Ids that are not plain -/

theorem size_entryOf : (entryOf resident id).size = (entryText resident id).length := by
  rw [entryText_eq]
  simp only [entryOf, Value.size, sizeMembers, List.length_append, List.length_cons, List.length_nil]
  omega

theorem sizeItems_entries : sizeItems ((id :: ids).map (entryOf resident)) =
    (entries resident (id :: ids)).length + 1 := by
  induction ids generalizing id with
  | nil => simp [entries, sizeItems, size_entryOf]
  | cons id' ids ih =>
    rw [List.map_cons, sizeItems, ih, size_entryOf]
    simp only [entries, List.flatMap_cons, List.length_append, List.length_cons]
    omega

theorem entryText_append (t : Bytes) : entryText resident id ++ t = ascii "\x7b\"id\":\"" ++ (id ++
    (ascii "\",\"object\":\"model\",\"created\":1700000000,\"owned_by\":\"denselite\",\"state\":\"" ++
      (stateOf resident id ++ ascii "\"\x7d") ++ t)) := by
  simp only [entryText, List.append_assoc]

theorem valid_entryText (t : Bytes) : Utf8.valid (entryText resident id ++ t) = (Utf8.valid id && Utf8.valid t) := by
  have hhead : ∀ b ∈ ascii "\x7b\"id\":\"", b < 0x80 := by
    rw [ascii_ofList]
    decide +kernel
  have hmiddle : ∀ b ∈ ascii "\",\"object\":\"model\",\"created\":1700000000,\"owned_by\":\"denselite\",\"state\":\"",
      b < 0x80 := by
    rw [ascii_ofList]
    decide +kernel
  have hstate : ∀ state ∈ [ascii "ready", ascii "loaded", ascii "registered"], ∀ b ∈ state ++ ascii "\"\x7d",
      b < 0x80 := by
    repeat rw [ascii_ofList]
    decide +kernel
  have htail := List.forall_mem_append.mpr ⟨hmiddle, hstate (stateOf resident id) (stateOf_mem resident id)⟩
  have hne : stateOf resident id ++ ascii "\"\x7d" ≠ [] := by
    rw [ascii_ofList]
    exact List.append_ne_nil_of_right_ne_nil _ (List.cons_ne_nil _ _)
  rw [entryText_append, Utf8.valid_ascii_append hhead,
    Utf8.valid_append_ascii_append id (List.append_ne_nil_of_right_ne_nil _ hne) htail t]

theorem valid_of_entries {t : Bytes} (h : Utf8.valid (entries resident ids ++ t) = true) :
    ∀ i ∈ ids, Utf8.valid i = true := by
  have hrest : ∀ ids : List Bytes, Utf8.valid ((ids.flatMap fun id => 0x2c :: entryText resident id) ++ t) = true →
      ∀ i ∈ ids, Utf8.valid i = true := by
    intro ids
    induction ids with
    | nil => simp
    | cons id ids ih =>
      intro h
      rw [List.flatMap_cons, List.append_assoc, List.cons_append, Utf8.valid_cons (by decide), valid_entryText,
        Bool.and_eq_true] at h
      exact List.forall_mem_cons.mpr ⟨h.1, ih h.2⟩
  cases ids with
  | nil => simp
  | cons id ids =>
    rw [entries, List.append_assoc, valid_entryText, Bool.and_eq_true] at h
    exact List.forall_mem_cons.mpr ⟨h.1, hrest ids h.2⟩

theorem plain_of_plainItems (h : plainItems (ids.map (entryOf resident)) = true) : ∀ i ∈ ids, Plain i := by
  induction ids with
  | nil => simp
  | cons id ids ih =>
    simp only [List.map_cons, plainItems, entryOf, Value.plain, plainMembers, Bool.and_eq_true, decide_eq_true_eq] at h
    exact List.forall_mem_cons.mpr ⟨h.1.2.1, ih h.2⟩

/-! ### Which lists are read -/

section Reply

variable {registered : List LocalModelRecord}

theorem mem_modelIds : id ∈ modelIds registered resident ↔
    id = ascii "denselite" ∨ (∃ m ∈ registered, m.modelId = id) ∨ id ∈ resident := by
  have hfold : ∀ (new : List Bytes) (ids : List (Bytes × Unit)),
      id ∈ keys (new.foldl insertId ids) ↔ id ∈ new ∨ id ∈ keys ids := by
    intro new
    induction new with
    | nil => simp
    | cons i new ih =>
      intro ids
      rw [List.foldl_cons, ih, insertId, mem_keys_assignBy, List.mem_cons]
      tauto
  rw [modelIds, hfold, insertId, mem_keys_assignBy, List.mem_append, List.mem_map]
  simp only [keys, List.map_nil, List.not_mem_nil, or_false]
  exact or_comm

theorem nodup_modelIds : (modelIds registered resident).Nodup := by
  have hfold : ∀ (new : List Bytes) (ids : List (Bytes × Unit)), (keys ids).Nodup →
      (keys (new.foldl insertId ids)).Nodup := by
    intro new
    induction new with
    | nil => exact fun _ h => h
    | cons i new ih => exact fun ids h => ih _ (nodup_keys_assignBy h)
  exact hfold _ _ (nodup_keys_assignBy List.nodup_nil)

/-- **The list of models** has each id once. The reply is a document with this list, and no other, if all ids are plain
UTF-8; if one is not, the reply is no document with this list. -/
theorem modelsReply_iff (registered : List LocalModelRecord) (resident : List Bytes) :
    (modelIds registered resident).Nodup ∧
      (∀ id, id ∈ modelIds registered resident ↔
        id = ascii "denselite" ∨ (∃ m ∈ registered, m.modelId = id) ∨ id ∈ resident) ∧
      ((∀ w, Document (modelsReply registered resident) w ↔ w = listOf resident (modelIds registered resident)) ↔
        ∀ id ∈ modelIds registered resident, Plain id ∧ Utf8.valid id = true) := by
  refine ⟨nodup_modelIds, fun _ => mem_modelIds, ?_⟩
  have hself : ascii "denselite" ∈ modelIds registered resident := mem_modelIds.mpr (.inl rfl)
  obtain ⟨id, ids, heq⟩ := List.exists_cons_of_ne_nil (List.ne_nil_of_mem hself)
  constructor
  · intro hread
    have hdocument := (hread _).mpr rfl
    have hvalid := hdocument.1
    rw [modelsReply_eq_append, Utf8.valid_ascii_append (by decide +kernel)] at hvalid
    rw [reply_eq, heq] at hdocument
    have hplain := hdocument.plain (by
      simp only [listOf, Value.size, sizeMembers, sizeItems_entries, List.length_append, List.length_cons,
        List.length_nil]
      omega)
    simp only [listOf, Value.plain, plainMembers, Bool.and_eq_true] at hplain
    rw [heq] at hvalid ⊢
    exact fun i hi => ⟨plain_of_plainItems hplain.2.2.2.1 i hi, valid_of_entries hvalid i hi⟩
  · intro h w
    rw [heq] at h
    rw [reply_eq, heq]
    have hword := fun w hw => (plain_words w hw).1.decodes
    have hutf8 := fun w hw => (plain_words w hw).2
    refine document_iff (writes_object (writesMembers_more (hutf8 _ (by simp)) (hword _ (by simp))
      (writes_string (hutf8 _ (by simp)) (hword _ (by simp))) ?_)) w
    exact writesMembers_last (hutf8 _ (by simp)) (hword _ (by simp)) (writes_array (writesItems_entries h))

end Reply

end DenseLite.Engine.ModelList
