import DenseLite.Engine.Keys
import DenseLite.Lib.Substring
import DenseLite.Settings.Values

/-! # Keys from a file

`load_env` adds the keys of a `.env` file to the ones in memory. It cuts a name at its last underscore and looks for
`_API_KEY` before it; the name is searched as a whole only when nothing follows the last underscore. So `P_API_KEY`,
whose last underscore stands inside the marker, is never read, and names that end in an underscore are.
`loadsKeys_iff` says which files are read as they are meant. -/

namespace DenseLite.Engine.EnvFile

open DenseLite.Lib.ByteStream DenseLite.Lib.Decimal DenseLite.Lib.Substring DenseLite.Engine.Keys
open DenseLite.Infer.State (ascii)
open DenseLite.Settings.Values (stoi)

/-! ### The code -/

/-- `_API_KEY`. -/
def marker : Bytes := [0x5f, 0x41, 0x50, 0x49, 0x5f, 0x4b, 0x45, 0x59]

/-- Name and value of a line; none for a comment or a line without `=`. -/
def splitLine (line : Bytes) : Option (Bytes × Bytes) :=
  if line.head? = some 35 ∨ 61 ∉ line then none
  else some (line.takeWhile (· ≠ 61), (line.dropWhile (· ≠ 61)).tail)

/-- A value without one pair of quotes around it. -/
def unquote (val : Bytes) : Bytes :=
  if 2 ≤ val.length ∧ val.head? = some 34 ∧ val.getLast? = some 34 then (val.drop 1).take (val.length - 2) else val

/-- The key that `load_env` makes of a name and a value. -/
def keyOfName (name val : Bytes) : Option APIKeyStatus :=
  match splitLast 95 name with
  | some (pre, suf) =>
    if suf ≠ [] then
      (before marker pre).bind fun provider => (stoi suf).map fun index =>
        { provider := provider, keyIndex := index.toInt, envVarName := name, keyValue := val, cooldownUntil := 0 }
    else
      (before marker name).map fun provider =>
        { provider := provider, keyIndex := 1, envVarName := name, keyValue := val, cooldownUntil := 0 }
  | none =>
    (before marker name).map fun provider =>
      { provider := provider, keyIndex := 1, envVarName := name, keyValue := val, cooldownUntil := 0 }

/-- The key of a line, if it is read as one. -/
def keyOfLine (line : Bytes) : Option APIKeyStatus := (splitLine line).bind fun e => keyOfName e.1 (unquote e.2)

/-- The lines of a file. -/
def lines (text : Bytes) : List Bytes := text.splitOn 10

/-- `load_env` of a file that can be opened: the keys in memory, with the cooldowns of the table. -/
def loadEnv (rows : List ApiKeyRow) (text : Bytes) (keys : List APIKeyStatus) : List APIKeyStatus :=
  syncDb rows (keys ++ (lines text).filterMap keyOfLine)

/-! ### What a file says -/

/-- The provider of a name: not empty, and without the marker. -/
def IsProvider (provider : Bytes) : Prop := provider ≠ [] ∧ ¬ marker <:+: provider

/-- The name stands for a key of the provider: `P_API_KEY` for the first one, `P_API_KEY_n` for the one of index `n`. -/
inductive Declares (name : Bytes) : Bytes → ℤ → Prop
  | first {provider : Bytes} : IsProvider provider → name = provider ++ marker → Declares name provider 1
  | numbered {provider ds : Bytes} : IsProvider provider → ds ≠ [] → (∀ c ∈ ds, isDigit c = true) →
      valueOf ds < 2 ^ 31 → name = provider ++ marker ++ 95 :: ds → Declares name provider (valueOf ds)

/-- The line adds the key that its name stands for, with the value of the line, and no key if it stands for none. -/
def LoadsLine (line : Bytes) : Prop :=
  (∀ name text provider index, splitLine line = some (name, text) → Declares name provider index →
    ∃ k, keyOfLine line = some k ∧ k.provider = provider ∧ k.keyIndex = index ∧ k.keyValue = unquote text) ∧
  ((∀ name text provider index, splitLine line = some (name, text) → ¬ Declares name provider index) →
    keyOfLine line = none)

/-- A name that is not read as it is meant: `P_API_KEY`; a name with the marker that ends in an underscore; and a name
with the marker before its last underscore and a number behind it that is not `P_API_KEY_n`. -/
inductive Misread (name : Bytes) : Prop
  | unnumbered {provider : Bytes} : IsProvider provider → name = provider ++ marker → Misread name
  | ends {pre : Bytes} : name = pre ++ [95] → marker <:+: name → Misread name
  | other {pre suf : Bytes} : name = pre ++ 95 :: suf → 95 ∉ suf → suf ≠ [] → marker <:+: pre → (stoi suf).isSome →
      (∀ provider, IsProvider provider → pre = provider ++ marker → ¬ ∀ c ∈ suf, isDigit c = true) → Misread name

/-- The lines of a file that have a name have one that is read as it is meant. -/
def ReadAsMeant (text : Bytes) : Prop :=
  ∀ line ∈ lines text, ∀ name val, splitLine line = some (name, val) → ¬ Misread name

/-! ### Names -/

theorem marker_ne_nil : marker ≠ [] := by decide

theorem unbordered_marker : Unbordered marker := by
  intro x hne hbegins hsuffix
  have hlt : ∀ k < 8, 0 < k → ¬ marker.take k <:+ marker := by decide
  rw [List.prefix_iff_eq_take] at hbegins
  by_contra hx
  have hlength : x.length < 8 := by
    refine lt_of_le_of_ne (hsuffix.length_le.trans_eq rfl) fun h8 => hx ?_
    rw [hbegins, h8]
    rfl
  rw [hbegins] at hsuffix
  exact hlt x.length hlength (List.length_pos_iff.mpr hne) hsuffix

/-! ### Which branch reads a name -/

section Names

variable {name val pre suf provider : Bytes} {index : ℤ} {k : APIKeyStatus}

theorem before_marker_iff {s p : Bytes} : before marker s = some p ↔ (∃ t, s = p ++ marker ++ t) ∧ ¬ marker <:+: p :=
  before_eq_some_iff marker_ne_nil unbordered_marker

/-- Nothing follows the last underscore, or there is none: the whole name is searched. -/
theorem keyOfName_whole (h : 95 ∉ name ∨ ∃ pre, name = pre ++ [95]) : keyOfName name val =
    (before marker name).map fun provider =>
      { provider := provider, keyIndex := 1, envVarName := name, keyValue := val, cooldownUntil := 0 } := by
  unfold keyOfName
  rcases h with h | ⟨pre, h⟩
  · rw [splitLast_eq_none_iff.mpr h]
  · rw [splitLast_eq_some_iff.mpr ⟨h, List.not_mem_nil⟩]
    exact if_neg (not_not.mpr rfl)

/-- Something follows it: the marker has to stand before it, and a number behind. -/
theorem keyOfName_split (hname : name = pre ++ 95 :: suf) (h : 95 ∉ suf) (hne : suf ≠ []) : keyOfName name val =
    (before marker pre).bind fun provider => (stoi suf).map fun index =>
      { provider := provider, keyIndex := index.toInt, envVarName := name, keyValue := val, cooldownUntil := 0 } := by
  unfold keyOfName
  rw [splitLast_eq_some_iff.mpr ⟨hname, h⟩]
  exact if_pos hne

/-- A name with an underscore has one last of them. -/
theorem name_cases (name : Bytes) : 95 ∉ name ∨ (∃ pre, name = pre ++ [95]) ∨
    ∃ pre suf, name = pre ++ 95 :: suf ∧ 95 ∉ suf ∧ suf ≠ [] := by
  cases h : splitLast 95 name with
  | none => exact Or.inl (splitLast_eq_none_iff.mp h)
  | some e =>
    obtain ⟨hname, hsuf⟩ := splitLast_eq_some_iff.mp h
    by_cases hnil : e.2 = []
    · exact Or.inr (Or.inl ⟨e.1, hnil ▸ hname⟩)
    · exact Or.inr (Or.inr ⟨e.1, e.2, hname, hsuf, hnil⟩)

theorem split_unique {pre' suf' : Bytes} (h : pre ++ 95 :: suf = pre' ++ 95 :: suf') (hsuf : 95 ∉ suf)
    (hsuf' : 95 ∉ suf') : pre = pre' ∧ suf = suf' :=
  Prod.mk.inj (Option.some.inj ((splitLast_eq_some_iff.mpr ⟨rfl, hsuf⟩).symm.trans
    (splitLast_eq_some_iff.mpr ⟨h, hsuf'⟩)))

/-- The marker up to its own underscore. -/
def markerStart : Bytes := [0x5f, 0x41, 0x50, 0x49]

theorem provider_append_marker (provider : Bytes) :
    provider ++ marker = (provider ++ markerStart) ++ 95 :: [0x4b, 0x45, 0x59] := by
  rw [List.append_assoc]
  rfl

/-- The marker does not end in its own beginning. -/
theorem not_infix_markerStart (h : ¬ marker <:+: provider) : ¬ marker <:+: provider ++ markerStart := by
  rw [List.infix_append_iff]
  rintro (hocc | hocc | ⟨l₁, l₂, heq, hsuffix, hbegins⟩)
  · exact h hocc
  · exact absurd hocc.length_le (by decide)
  · by_cases hnil : l₂ = []
    · rw [hnil, List.append_nil] at heq
      exact h (heq ▸ hsuffix.isInfix)
    · have hwhole := unbordered_marker l₂ hnil (hbegins.trans ⟨[0x5f, 0x4b, 0x45, 0x59], rfl⟩) ⟨l₁, heq.symm⟩
      exact absurd (hwhole ▸ hbegins.length_le) (by decide)

theorem keyOfName_first (hprovider : IsProvider provider) : keyOfName (provider ++ marker) val = none := by
  rw [keyOfName_split (provider_append_marker provider) (by decide) (by decide),
    (before_eq_none_iff marker_ne_nil).mpr (not_infix_markerStart hprovider.2)]
  rfl

theorem not_mem_digits {ds : Bytes} (h : ∀ c ∈ ds, isDigit c = true) : 95 ∉ ds := fun hmem =>
  absurd (h 95 hmem) (by decide)

/-- `stoi` of digits alone. -/
theorem stoi_digits {ds : Bytes} (hne : ds ≠ []) (h : ∀ c ∈ ds, isDigit c = true) :
    stoi ds = if valueOf ds < 2 ^ 31 then some (Int32.ofInt (valueOf ds)) else none := by
  have hsign : unsign (ds.dropWhile isSpace) = (false, ds) := by
    have hsigned : unsign ((signed false (ds ++ [])).dropWhile isSpace) = (false, ds ++ []) := unsign_signed hne h
    rw [List.append_nil] at hsigned
    exact hsigned
  have hparse : parseInt ds = some (valueOf ds : ℤ) := by
    unfold parseInt
    rw [hsign]
    dsimp only
    rw [List.takeWhile_eq_self_iff.mpr h, if_neg hne]
    rfl
  unfold stoi
  rw [hparse, Option.bind_some]
  exact if_congr (by omega) rfl rfl

theorem keyOfName_numbered {ds : Bytes} (hprovider : IsProvider provider) (hne : ds ≠ [])
    (hds : ∀ c ∈ ds, isDigit c = true) (hlt : valueOf ds < 2 ^ 31) :
    keyOfName (provider ++ marker ++ 95 :: ds) val = some
      { provider := provider, keyIndex := valueOf ds, envVarName := provider ++ marker ++ 95 :: ds, keyValue := val
        cooldownUntil := 0 } := by
  have hbefore : before marker (provider ++ marker) = some provider :=
    before_marker_iff.mpr ⟨⟨[], by rw [List.append_nil]⟩, hprovider.2⟩
  have hindex : (Int32.ofInt (valueOf ds)).toInt = (valueOf ds : ℤ) :=
    Int32.toInt_ofInt_of_le (by omega) (by omega)
  rw [keyOfName_split rfl (not_mem_digits hds) hne, hbefore, Option.bind_some, stoi_digits hne hds, if_pos hlt,
    Option.map_some, hindex]

theorem Declares.split (h : Declares name provider index) :
    ∃ pre suf, name = pre ++ 95 :: suf ∧ 95 ∉ suf ∧ suf ≠ [] := by
  cases h with
  | first _ hname => exact ⟨_, _, hname.trans (provider_append_marker provider), by decide, by decide⟩
  | numbered _ hne hds _ hname => exact ⟨_, _, hname, not_mem_digits hds, hne⟩

/-- A name that stands for a key is read as one, and no other. -/
def LoadsName (name val : Bytes) : Prop :=
  (∀ provider index, Declares name provider index → ∃ k, keyOfName name val = some k ∧ k.provider = provider ∧
    k.keyIndex = index ∧ k.keyValue = val) ∧
  ((∀ provider index, ¬ Declares name provider index) → keyOfName name val = none)

theorem not_declares_of_ends (hname : name = pre ++ [95]) (provider : Bytes) (index : ℤ) :
    ¬ Declares name provider index := by
  intro h
  obtain ⟨pre', suf', hname', hsuf', hne'⟩ := h.split
  exact hne' (split_unique (hname.symm.trans hname') List.not_mem_nil hsuf').2.symm

theorem LoadsName.not_misread (h : LoadsName name val) : ¬ Misread name := by
  rintro (⟨hprovider, hname⟩ | ⟨hname, hocc⟩ | ⟨hname, hsuf, hne, hocc, hstoi, hother⟩)
  · -- the name of a first key is not read
    obtain ⟨k, hk, -⟩ := h.1 _ 1 (.first hprovider hname)
    rw [hname, keyOfName_first hprovider] at hk
    cases hk
  · have hnone := h.2 (not_declares_of_ends hname)
    rw [keyOfName_whole (Or.inr ⟨_, hname⟩), Option.map_eq_none_iff, before_eq_none_iff marker_ne_nil] at hnone
    exact hnone hocc
  · have hnone := h.2 fun provider index hdeclares => by
      cases hdeclares with
      | first hprovider hname' =>
        have hpre := (split_unique (hname.symm.trans (hname'.trans (provider_append_marker provider))) hsuf
          (by decide)).1
        exact not_infix_markerStart hprovider.2 (hpre ▸ hocc)
      | numbered hprovider _ hds _ hname' =>
        obtain ⟨hpre, hds'⟩ := split_unique (hname.symm.trans hname') hsuf (not_mem_digits hds)
        exact hother provider hprovider hpre (hds' ▸ hds)
    rw [keyOfName_split hname hsuf hne] at hnone
    obtain ⟨p, hp⟩ := Option.ne_none_iff_exists'.mp fun hnone' =>
      (before_eq_none_iff marker_ne_nil).mp hnone' hocc
    obtain ⟨i, hi⟩ := Option.isSome_iff_exists.mp hstoi
    rw [hp, hi] at hnone
    cases hnone

theorem loadsName_of_not_misread (h : ¬ Misread name) (val : Bytes) : LoadsName name val := by
  constructor
  · rintro provider index (⟨hprovider, hname⟩ | ⟨hprovider, hne, hds, hlt, hname⟩)
    · exact absurd (.unnumbered hprovider hname) h
    · exact ⟨_, hname ▸ keyOfName_numbered hprovider hne hds hlt, rfl, rfl, rfl⟩
  · intro hnot
    rcases name_cases name with hname | ⟨pre, hname⟩ | ⟨pre, suf, hname, hsuf, hne⟩
    · have hbefore : before marker name = none := (before_eq_none_iff marker_ne_nil).mpr fun hocc =>
        hname (hocc.subset (by decide))
      rw [keyOfName_whole (Or.inl hname), hbefore]
      rfl
    · have hbefore : before marker name = none := (before_eq_none_iff marker_ne_nil).mpr fun hocc =>
        h (.ends hname hocc)
      rw [keyOfName_whole (Or.inr ⟨_, hname⟩), hbefore]
      rfl
    · rw [keyOfName_split hname hsuf hne]
      cases hbefore : before marker pre with
      | none => rfl
      | some p =>
        cases hstoi : stoi suf with
        | none => rfl
        | some i =>
          -- a number behind the marker that is not one of a key
          have hocc : marker <:+: pre := by
            by_contra hocc
            rw [(before_eq_none_iff marker_ne_nil).mpr hocc] at hbefore
            cases hbefore
          refine absurd (.other hname hsuf hne hocc (by rw [hstoi]; rfl) fun provider hprovider hpre hds => ?_) h
          have hlt : valueOf suf < 2 ^ 31 := by
            by_contra hlt
            rw [stoi_digits hne hds, if_neg hlt] at hstoi
            cases hstoi
          exact hnot provider _ (.numbered hprovider hne hds hlt (hpre ▸ hname))

end Names

/-! ### Lines -/

theorem loadsLine_iff (line : Bytes) :
    LoadsLine line ↔ ∀ name val, splitLine line = some (name, val) → ¬ Misread name := by
  unfold LoadsLine keyOfLine
  cases h : splitLine line with
  | none => exact iff_of_true ⟨fun _ _ _ _ h => (by cases h), fun _ => rfl⟩ fun _ _ h => (by cases h)
  | some e =>
    obtain ⟨name, text⟩ := e
    rw [Option.bind_some]
    constructor
    · rintro ⟨hdeclared, hnone⟩ name' val' hsplit
      obtain ⟨rfl, rfl⟩ := Prod.mk.inj (Option.some.inj hsplit)
      exact LoadsName.not_misread ⟨fun provider index => hdeclared name text provider index rfl, fun hnot =>
        hnone fun name' text' provider index hsplit => by
          obtain ⟨rfl, rfl⟩ := Prod.mk.inj (Option.some.inj hsplit)
          exact hnot provider index⟩
    · intro hread
      obtain ⟨hdeclared, hnone⟩ := loadsName_of_not_misread (hread name text rfl) (unquote text)
      refine ⟨fun name' text' provider index hsplit => ?_, fun hnot => hnone fun provider index => ?_⟩
      · obtain ⟨rfl, rfl⟩ := Prod.mk.inj (Option.some.inj hsplit)
        exact hdeclared provider index
      · exact hnot name text provider index rfl

/-- **Environment keys.** `load_env` adds to the keys in memory those of the lines, in their order; and each line adds
the key that its name stands for, or none if it stands for none, exactly when no name of the file is misread. -/
theorem loadsKeys_iff (rows : List ApiKeyRow) (text : Bytes) (keys : List APIKeyStatus) :
    (loadEnv rows text keys).map identity = keys.map identity ++ ((lines text).filterMap keyOfLine).map identity ∧
      ((∀ line ∈ lines text, LoadsLine line) ↔ ReadAsMeant text) := by
  refine ⟨?_, forall₂_congr fun line _ => loadsLine_iff line⟩
  rw [loadEnv, syncDb_identity, List.map_append]

/-- The name of a first key, `GROQ_API_KEY`, in a file of one line. -/
def groqLine : Bytes := [0x47, 0x52, 0x4f, 0x51] ++ marker ++ 61 :: [0x6b]

/-- The first key of a provider is not loaded. -/
theorem not_loadsLine_groqLine : ¬ (∀ line ∈ lines groqLine, LoadsLine line) ∧ loadEnv [] groqLine [] = [] := by
  have hlines : lines groqLine = [groqLine] := by decide +kernel
  have hprovider : IsProvider [0x47, 0x52, 0x4f, 0x51] := ⟨by decide, by decide⟩
  have hsplit : splitLine groqLine = some ([0x47, 0x52, 0x4f, 0x51] ++ marker, [0x6b]) := by decide +kernel
  refine ⟨fun h => ?_, ?_⟩
  · rw [hlines] at h
    exact (loadsLine_iff groqLine).mp (h groqLine List.mem_cons_self) _ _ hsplit (.unnumbered hprovider rfl)
  · have hnone : keyOfLine groqLine = none := by
      rw [keyOfLine, hsplit, Option.bind_some]
      exact keyOfName_first hprovider
    rw [loadEnv, hlines, List.filterMap_cons_none hnone]
    rfl

end DenseLite.Engine.EnvFile
