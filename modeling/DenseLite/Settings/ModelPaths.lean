import DenseLite.Settings.Paths
import DenseLite.Lib.Separated

/-! # Safe model paths

`is_safe_model_path` compares the canonical form of a path with those of the approved directories, and with the
forbidden directories, as texts: the text of a directory is that of the path, or the path begins with it and a slash.
For paths in canonical form this is containment name by name (`within_joined_iff`, `within_text_iff`), with the root
directory as the one exception. -/

namespace DenseLite.Settings.ModelPaths

open DenseLite.Lib.ByteStream DenseLite.Lib.Separated DenseLite.Settings.Paths
open DenseLite.Infer.State (ascii)

/-! ### Canonical paths -/

/-- The text can be a name in a normalised path. -/
def IsName (n : Bytes) : Prop := n ≠ [] ∧ 0x2f ∉ n ∧ n ≠ ascii "." ∧ n ≠ ascii ".."

instance (n : Bytes) : Decidable (IsName n) := inferInstanceAs (Decidable (_ ∧ _))

/-- An absolute normalised path. -/
structure CanonicalPath where
  names : List Bytes
  normal : ∀ n ∈ names, IsName n

/-- `path::string`: without a trailing slash, but for the root directory. -/
def CanonicalPath.text (c : CanonicalPath) : Bytes := if c.names = [] then ascii "/" else joined 0x2f c.names

/-- The names in the text of a path. -/
def components (path : Bytes) : List Bytes := (path.splitOn 0x2f).filter (· ≠ [])

/-- The directory is the path or contains it, name by name. -/
def ComponentPrefix (dir path : Bytes) : Prop := components dir <+: components path

instance (dir path : Bytes) : Decidable (ComponentPrefix dir path) := inferInstanceAs (Decidable (_ <+: _))

/-! ### The check -/

/-- What the check reads of the process and the file system: the home directory, two variables, the working directory,
and canonical forms, with `none` for an error. -/
structure PathEnv where
  home : Option Bytes
  xdgDataHome : Option Bytes
  allowAny : Option Bytes
  currentPath : Bytes
  weaklyCanonical : Bytes → Option CanonicalPath

/-- `xdg_data_home`. -/
def PathEnv.dataHome (env : PathEnv) : Bytes :=
  match env.xdgDataHome with
  | some p => if p ≠ [] then p ++ ascii "/denselite" else expandUser env.home (ascii "~/.local/share/denselite")
  | none => expandUser env.home (ascii "~/.local/share/denselite")

/-- `path::operator/` with a relative path. -/
def slash (dir name : Bytes) : Bytes := if dir = [] ∨ dir.getLast? = some 0x2f then dir ++ name else dir ++ 0x2f :: name

/-- `forbidden`. -/
def forbidden : List Bytes :=
  [ascii "/etc", ascii "/proc", ascii "/sys", ascii "/dev", ascii "/root", ascii "/boot", ascii "/bin", ascii "/sbin",
    ascii "/usr/bin", ascii "/usr/sbin"]

/-- `roots`. -/
def modelRoots (env : PathEnv) (p : PathService) : List Bytes :=
  (if p.modelsDir ≠ [] then [p.modelsDir] else []) ++ (if p.baseDir ≠ [] then [p.baseDir ++ ascii "/models"] else []) ++
    [expandUser env.home (ascii "~/.denselite/models"), expandUser env.home (ascii "~/models"),
      env.dataHome ++ ascii "/models", slash env.currentPath (ascii "models")]

/-- `cs == dir || cs.rfind(dir + "/", 0) == 0`. -/
def within (cs dir : Bytes) : Bool := cs = dir || (dir ++ ascii "/").isPrefixOf cs

/-- `is_safe_model_path`. -/
def isSafeModelPath (env : PathEnv) (p : PathService) (path : Bytes) : Bool :=
  if path = [] then false
  else
    match env.weaklyCanonical (expandUser env.home path) with
    | none => false
    | some canon =>
      if forbidden.any (within canon.text) then false
      else if env.allowAny = some (ascii "1") ∨ env.allowAny = some (ascii "true") then true
      else (modelRoots env p).any fun r =>
        match if r = [] then none else env.weaklyCanonical r with
        | none => false
        | some cr => within canon.text cr.text

/-! ### Texts and names -/

variable {c d : CanonicalPath} {names : List Bytes}

theorem CanonicalPath.slash_notMem (c : CanonicalPath) : ∀ n ∈ c.names, 0x2f ∉ n := fun n hn => (c.normal n hn).2.1

theorem CanonicalPath.ne_nil (c : CanonicalPath) : ∀ n ∈ c.names, n ≠ [] := fun n hn => (c.normal n hn).1

theorem within_eq_true {cs dir : Bytes} : within cs dir = true ↔ cs = dir ∨ dir ++ [0x2f] <+: cs := by
  rw [within, Bool.or_eq_true, decide_eq_true_iff, List.isPrefixOf_iff_prefix]
  rfl

theorem components_joined (hslash : ∀ n ∈ names, 0x2f ∉ n) (hne : ∀ n ∈ names, n ≠ []) :
    components (joined 0x2f names) = names := by
  rw [components, splitOn_joined hslash, List.filter_cons_of_neg (by simp), List.filter_eq_self]
  exact fun n hn => decide_eq_true (hne n hn)

/-- The text of a canonical path has its names. -/
@[simp] theorem components_text (c : CanonicalPath) : components c.text = c.names := by
  unfold CanonicalPath.text
  split_ifs with h
  · rw [h]
    rfl
  · exact components_joined c.slash_notMem c.ne_nil

theorem text_ne_root_iff : c.text ≠ ascii "/" ↔ c.names ≠ [] := by
  constructor
  · exact fun h hnil => h (if_pos hnil)
  · intro h heq
    have hnames := congrArg components heq
    rw [components_text] at hnames
    exact h hnames

/-- The test of the code, for a directory that is not the root. -/
theorem within_joined_iff (hne : names ≠ []) (hslash : ∀ n ∈ names, 0x2f ∉ n) (hnil : ∀ n ∈ names, n ≠ []) :
    within c.text (joined 0x2f names) = true ↔ names <+: c.names := by
  rw [within_eq_true]
  by_cases hc : c.names = []
  · -- the root is in no other directory
    have htext : c.text = [0x2f] := if_pos hc
    rw [htext, hc, List.prefix_nil]
    refine iff_of_false ?_ hne
    rintro (heq | hpre)
    · have hnames := congrArg components heq
      rw [components_joined hslash hnil] at hnames
      exact hne hnames.symm
    · have hlen := hpre.length_le
      rw [List.length_append, List.length_singleton] at hlen
      have hempty : joined 0x2f names = [] := List.eq_nil_of_length_eq_zero (by omega)
      exact hne (joined_eq_nil_iff.mp hempty)
  · have htext : c.text = joined 0x2f c.names := if_neg hc
    rw [htext]
    exact eq_or_prefix_joined_iff hslash c.slash_notMem

theorem within_text_iff (hd : d.text ≠ ascii "/") :
    within c.text d.text = true ↔ ComponentPrefix d.text c.text := by
  have hne : d.names ≠ [] := text_ne_root_iff.mp hd
  have htext : d.text = joined 0x2f d.names := if_neg hne
  rw [ComponentPrefix, components_text, components_text, htext, within_joined_iff hne d.slash_notMem d.ne_nil]

/-- A forbidden directory is the text of its names. -/
theorem forbidden_joined : ∀ f ∈ forbidden, f = joined 0x2f (components f) ∧ components f ≠ [] ∧
    ∀ n ∈ components f, 0x2f ∉ n ∧ n ≠ [] := by
  decide

theorem within_forbidden_iff {f : Bytes} (hf : f ∈ forbidden) :
    within c.text f = true ↔ ComponentPrefix f c.text := by
  obtain ⟨heq, hne, hnames⟩ := forbidden_joined f hf
  have hslash : ∀ n ∈ components f, 0x2f ∉ n := fun n hn => (hnames n hn).1
  rw [ComponentPrefix, components_text, ← within_joined_iff hne hslash fun n hn => (hnames n hn).2, ← heq]

/-! ### Which paths are safe -/

variable {env : PathEnv} {p : PathService} {path : Bytes}

theorem expandUser_ne_nil {home : Option Bytes} {rest : Bytes} :
    expandUser home (126 :: 47 :: rest) ≠ [] := by
  cases home <;> simp [expandUser]

/-- No approved directory is the empty text. -/
theorem ne_nil_of_mem_modelRoots {r : Bytes} (hr : r ∈ modelRoots env p) : r ≠ [] := by
  simp only [modelRoots, List.mem_append, List.mem_cons, List.not_mem_nil, or_false] at hr
  rcases hr with (hr | hr) | rfl | rfl | rfl | rfl
  · split_ifs at hr with hmodels
    · rw [List.mem_singleton.mp hr]
      exact hmodels
    · simp at hr
  · split_ifs at hr with hbase
    · rw [List.mem_singleton.mp hr]
      exact List.append_ne_nil_of_left_ne_nil hbase _
    · simp at hr
  · exact expandUser_ne_nil
  · exact expandUser_ne_nil
  · exact List.append_ne_nil_of_right_ne_nil _ (by decide)
  · unfold slash
    split_ifs
    · exact List.append_ne_nil_of_right_ne_nil _ (by decide)
    · exact List.append_ne_nil_of_right_ne_nil _ (List.cons_ne_nil _ _)

/-- A path is safe exactly if its canonical form is in an approved directory and in no forbidden one. -/
theorem isSafeModelPath_iff (env : PathEnv) (p : PathService) (path : Bytes) (hany : env.allowAny = none)
    (hroots : ∀ r ∈ modelRoots env p, ∀ cr, env.weaklyCanonical r = some cr → cr.text ≠ ascii "/") :
    isSafeModelPath env p path = true ↔ path ≠ [] ∧
      ∃ canon, env.weaklyCanonical (expandUser env.home path) = some canon ∧
        (∃ r ∈ modelRoots env p, ∃ cr, env.weaklyCanonical r = some cr ∧ ComponentPrefix cr.text canon.text) ∧
        ∀ f ∈ forbidden, ¬ ComponentPrefix f canon.text := by
  unfold isSafeModelPath
  by_cases hpath : path = []
  · simp [hpath]
  rw [if_neg hpath, and_iff_right hpath]
  rcases hcanon : env.weaklyCanonical (expandUser env.home path) with _ | canon
  · simp
  have hforbidden : forbidden.any (within canon.text) = true ↔ ∃ f ∈ forbidden, ComponentPrefix f canon.text := by
    rw [List.any_eq_true]
    exact exists_congr fun f => and_congr_right fun hf => within_forbidden_iff hf
  have happroved : ((modelRoots env p).any fun r =>
      match if r = [] then none else env.weaklyCanonical r with
      | none => false
      | some cr => within canon.text cr.text) = true ↔
      ∃ r ∈ modelRoots env p, ∃ cr, env.weaklyCanonical r = some cr ∧ ComponentPrefix cr.text canon.text := by
    rw [List.any_eq_true]
    refine exists_congr fun r => and_congr_right fun hr => ?_
    rw [if_neg (ne_nil_of_mem_modelRoots hr)]
    rcases hcr : env.weaklyCanonical r with _ | cr
    · simp
    · simpa using within_text_iff (hroots r hr cr hcr)
  simp only [Option.some.injEq, exists_eq_left']
  by_cases hf : forbidden.any (within canon.text) = true
  · obtain ⟨f, hmem, hpre⟩ := hforbidden.mp hf
    rw [if_pos hf]
    exact iff_of_false Bool.false_ne_true fun h => h.2 f hmem hpre
  · rw [if_neg hf, if_neg (by simp [hany]), happroved]
    exact (and_iff_left fun f hmem hpre => hf (hforbidden.mpr ⟨f, hmem, hpre⟩)).symm

/-- Canonical forms where nothing is a link and no text is relative. -/
def plainCanonical (path : Bytes) : Option CanonicalPath :=
  if h : ∀ n ∈ components path, IsName n then some ⟨components path, h⟩ else none

theorem plainCanonical_eq_some {path : Bytes} :
    plainCanonical path = some c ↔ (∀ n ∈ components path, IsName n) ∧ c.names = components path := by
  unfold plainCanonical
  split_ifs with h
  · rw [Option.some.injEq, and_iff_right h]
    exact ⟨fun heq => heq ▸ rfl, fun hnames => by cases c; cases hnames; rfl⟩
  · simp [h]

/-- A process under `/srv`. -/
def srvEnv : PathEnv where
  home := some (ascii "/home/u")
  xdgDataHome := none
  allowAny := none
  currentPath := ascii "/srv"
  weaklyCanonical := plainCanonical

/-- A service with the base directory `/srv`. -/
def srvPaths : PathService := setBaseDir (ascii "/srv") ⟨[], [], [], [], [], []⟩

theorem isSafeModelPath_srv : isSafeModelPath srvEnv srvPaths (ascii "/srv/models/a") = true := by
  have hroots : ∀ r ∈ modelRoots srvEnv srvPaths, components r ≠ [] := by decide
  have hmodels : ascii "/srv/models" ∈ modelRoots srvEnv srvPaths := by decide
  obtain ⟨canon, hcanon⟩ : ∃ canon, plainCanonical (ascii "/srv/models/a") = some canon :=
    ⟨⟨components (ascii "/srv/models/a"), by decide⟩, plainCanonical_eq_some.mpr ⟨by decide, rfl⟩⟩
  obtain ⟨cr, hcr⟩ : ∃ cr, plainCanonical (ascii "/srv/models") = some cr :=
    ⟨⟨components (ascii "/srv/models"), by decide⟩, plainCanonical_eq_some.mpr ⟨by decide, rfl⟩⟩
  have hnames : components canon.text = components (ascii "/srv/models/a") :=
    (components_text canon).trans (plainCanonical_eq_some.mp hcanon).2
  refine (isSafeModelPath_iff srvEnv srvPaths (ascii "/srv/models/a") rfl fun r hr cr hcr => ?_).mpr
    ⟨by decide, canon, hcanon, ⟨ascii "/srv/models", hmodels, cr, hcr, ?_⟩, fun f hf => ?_⟩
  · rw [text_ne_root_iff, (plainCanonical_eq_some.mp hcr).2]
    exact hroots r hr
  · rw [ComponentPrefix, hnames, components_text, (plainCanonical_eq_some.mp hcr).2]
    decide
  · rw [ComponentPrefix, hnames]
    revert f
    decide

end DenseLite.Settings.ModelPaths
