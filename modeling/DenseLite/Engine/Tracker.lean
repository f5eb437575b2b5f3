import DenseLite.Infer.State
import DenseLite.Lib.Live
import DenseLite.Lib.Runs

/-! # One local inference at a time

`infer_local` constructs a `ConcurrencyTracker`, which raises the counter of its model, refuses the call
when the counter was not zero before, runs the inference otherwise, and destroys the tracker in either
case. The calls run in any number of threads, and their four steps interleave in any order. -/

namespace DenseLite.Engine.Tracker

open DenseLite.Lib.ByteStream DenseLite.Lib.KeyMap DenseLite.Lib.Live DenseLite.Lib.Runs
open DenseLite.Infer.State (ascii)

/-! ### The steps -/

/-- Where a call with a live tracker is: before the check, past it with the body to run, after the
body, or refused. -/
inductive Phase
  | constructed | passed | ran | refused
deriving DecidableEq, Repr

/-- A call of `infer_local` with a live tracker. -/
structure Call where
  model : Bytes
  /-- `count_` of the tracker. -/
  previous : ℤ
  phase : Phase
  /-- Whether a call for the model was past the check when the tracker was constructed; the code does
  not look at it. -/
  sawPast : Bool
deriving DecidableEq, Repr

/-- Past the busy check and not yet returned. -/
def Call.past (c : Call) : Bool := c.phase = .passed ∨ c.phase = .ran

/-- The global counters and the calls. The counters are of type `int`; each live tracker belongs to a
thread of the process, of which there are fewer than an `int` can count. -/
structure System where
  /-- `g_concurrent_sessions`. -/
  counters : Bytes → Option ℤ := fun _ => none
  calls : List (ℕ × Call) := []

/-- An atomic step of the call `id`. -/
inductive Action
  | construct (id : ℕ) (model : Bytes)
  | check (id : ℕ)
  | body (id : ℕ)
  | destroy (id : ℕ)
deriving DecidableEq, Repr

/-- The constructor of `ConcurrencyTracker`. -/
def construct (s : System) (id : ℕ) (model : Bytes) : System :=
  let value := (s.counters model).getD 0
  { counters := Function.update s.counters model (some (value + 1))
    calls := set id
      { model := model
        previous := value
        phase := .constructed
        sawPast := s.calls.any fun e => e.2.model = model ∧ e.2.past = true } s.calls }

/-- The destructor of `ConcurrencyTracker`. -/
def destroy (s : System) (id : ℕ) (model : Bytes) : System :=
  { counters :=
      match s.counters model with
      | some value => Function.update s.counters model (some (value - 1))
      | none => s.counters
    calls := erase id s.calls }

/-- The call in another phase. -/
def move (s : System) (id : ℕ) (c : Call) (phase : Phase) : System :=
  { s with calls := set id { c with phase := phase } s.calls }

/-- One step; a step that is not the next one of its call does nothing. -/
def step (s : System) : Action → System
  | .construct id model => if (find id s.calls).isNone then construct s id model else s
  | .check id =>
    match find id s.calls with
    | some c => if c.phase = .constructed then move s id c (if 1 ≤ c.previous then .refused else .passed) else s
    | none => s
  | .body id =>
    match find id s.calls with
    | some c => if c.phase = .passed then move s id c .ran else s
    | none => s
  | .destroy id =>
    match find id s.calls with
    | some c => if c.phase = .ran ∨ c.phase = .refused then destroy s id c.model else s
    | none => s

/-- What a step can do. -/
inductive Stepped (s : System) : Action → System → Prop
  | same (a : Action) : Stepped s a s
  | construct (id : ℕ) (model : Bytes) (h : find id s.calls = none) :
    Stepped s (.construct id model) (construct s id model)
  | check (id : ℕ) (c : Call) (h : find id s.calls = some c) :
    Stepped s (.check id) (move s id c (if 1 ≤ c.previous then .refused else .passed))
  | body (id : ℕ) (c : Call) (h : find id s.calls = some c) (hc : c.phase = .passed) :
    Stepped s (.body id) (move s id c .ran)
  | destroy (id : ℕ) (c : Call) (h : find id s.calls = some c) :
    Stepped s (.destroy id) (destroy s id c.model)

theorem stepped (s : System) (a : Action) : Stepped s a (step s a) := by
  cases a with
  | construct id model =>
    dsimp only [step]
    split_ifs with h
    · exact Stepped.construct id model (Option.isNone_iff_eq_none.mp h)
    · exact Stepped.same _
  | check id =>
    dsimp only [step]
    split
    · next c h =>
      by_cases hc : c.phase = .constructed
      · rw [if_pos hc]
        exact Stepped.check id c h
      · rw [if_neg hc]
        exact Stepped.same _
    · exact Stepped.same _
  | body id =>
    dsimp only [step]
    split
    · next c h =>
      split_ifs with hc
      · exact Stepped.body id c h hc
      · exact Stepped.same _
    · exact Stepped.same _
  | destroy id =>
    dsimp only [step]
    split
    · next c h =>
      split_ifs with hc
      · exact Stepped.destroy id c h
      · exact Stepped.same _
    · exact Stepped.same _

/-! ### The invariant -/

/-- The call is for the model. -/
def onModel (model : Bytes) (c : Call) : Bool := c.model = model

/-- The call is for the model and found its counter below one. -/
def firstOn (model : Bytes) (c : Call) : Bool := c.model = model ∧ c.previous < 1

/-- The call is for the model and past the check. -/
def pastOn (model : Bytes) (c : Call) : Bool := c.model = model ∧ c.past = true

/-- The counter of a model; without an entry it is zero. -/
def System.counter (s : System) (model : Bytes) : ℤ := (s.counters model).getD 0

/-- The counters count the live trackers, and of the calls for a model one at most has found no other. -/
structure Counted (s : System) : Prop where
  names : (keys s.calls).Nodup
  counter : ∀ model, s.counter model = count (onModel model) s.calls
  entry : ∀ id c, find id s.calls = some c → (s.counters c.model).isSome
  first : ∀ model, count (firstOn model) s.calls ≤ 1
  past : ∀ id c, find id s.calls = some c → c.past = true → c.previous < 1

section Steps

variable {s : System}

theorem count_le_of_imp {p q : Call → Bool} (h : ∀ e ∈ s.calls, p e.2 = true → q e.2 = true) :
    count p s.calls ≤ count q s.calls := List.countP_mono_left h

theorem counter_update (model model' : Bytes) (value : ℤ) :
    ((Function.update s.counters model (some value)) model').getD 0 =
      if model' = model then value else s.counter model' := by
  by_cases h : model' = model
  · rw [if_pos h, h, Function.update_self, Option.getD_some]
  · rw [if_neg h, Function.update_of_ne h]
    rfl

theorem Counted.construct (h : Counted s) {id : ℕ} {model : Bytes} (hid : find id s.calls = none) :
    Counted (construct s id model) where
  names := nodup_keys_set h.names
  counter := by
    intro model'
    have hcount : (s.counters model').getD 0 = _ := h.counter model'
    show ((Function.update s.counters model (some _)) model').getD 0 = _
    rw [counter_update]
    unfold Tracker.construct
    rw [count_set_new hid]
    unfold System.counter
    by_cases hm : model' = model
    · simp only [hm, onModel, decide_true, if_true] at hcount ⊢
      push_cast
      omega
    · have hm' : ¬ model = model' := fun h => hm h.symm
      simp only [hm, hm', onModel, decide_false, Bool.false_eq_true, if_false] at hcount ⊢
      omega
  entry := by
    intro id' c hc
    show (Function.update s.counters model (some _) c.model).isSome
    by_cases hm : c.model = model
    · rw [hm, Function.update_self]
      rfl
    · rw [Function.update_of_ne hm]
      rcases find_set_cases hc with ⟨-, rfl⟩ | hc
      · exact absurd rfl hm
      · exact h.entry id' c hc
  first := by
    intro model'
    have hcount := h.counter model'
    have hle := h.first model'
    have hmono : count (firstOn model') s.calls ≤ count (onModel model') s.calls :=
      count_le_of_imp fun e _ he => by
        simp only [firstOn, decide_eq_true_eq] at he
        simpa [onModel] using he.1
    unfold Tracker.construct
    rw [count_set_new hid]
    split_ifs with hfirst
    · -- the counter was not positive, so that there was no live tracker
      obtain ⟨hm, hzero⟩ := of_decide_eq_true hfirst
      have hmodel : model = model' := hm
      subst hmodel
      have hvalue : s.counter model < 1 := hzero
      omega
    · omega
  past := by
    intro id' c hc hpast
    rcases find_set_cases hc with ⟨-, rfl⟩ | hc
    · exact absurd hpast (by simp [Call.past])
    · exact h.past id' c hc hpast

/-- A change of phase is no change of the numbers. -/
theorem count_move (h : Counted s) {id : ℕ} {c : Call} (hc : find id s.calls = some c) (phase : Phase)
    {p : Call → Bool} (hp : p { c with phase := phase } = p c) :
    count p (move s id c phase).calls = count p s.calls := by
  have hset := count_set (a := { c with phase := phase }) (p := p) h.names hc
  rw [hp] at hset
  exact Nat.add_right_cancel hset

theorem Counted.move (h : Counted s) {id : ℕ} {c : Call} (hc : find id s.calls = some c) {phase : Phase}
    (hphase : phase = .passed ∨ phase = .ran → c.previous < 1) : Counted (move s id c phase) where
  names := nodup_keys_set h.names
  counter := fun model => by
    rw [count_move h hc phase rfl]
    exact h.counter model
  entry := by
    intro id' c' hc'
    rcases find_set_cases hc' with ⟨-, rfl⟩ | hc'
    · exact h.entry id c hc
    · exact h.entry id' c' hc'
  first := fun model => by
    rw [count_move h hc phase rfl]
    exact h.first model
  past := by
    intro id' c' hc' hpast
    rcases find_set_cases hc' with ⟨-, rfl⟩ | hc'
    · exact hphase (of_decide_eq_true hpast)
    · exact h.past id' c' hc' hpast

theorem Counted.destroy (h : Counted s) {id : ℕ} {c : Call} (hc : find id s.calls = some c) :
    Counted (destroy s id c.model) := by
  obtain ⟨value, hvalue⟩ := Option.isSome_iff_exists.mp (h.entry id c hc)
  have hcounters : (Tracker.destroy s id c.model).counters =
      Function.update s.counters c.model (some (value - 1)) := by
    unfold Tracker.destroy
    rw [hvalue]
  refine ⟨nodup_keys_erase h.names, fun model => ?_, fun id' c' hc' => ?_, fun model => ?_,
    fun id' c' hc' => h.past id' c' (find_of_find_erase hc')⟩
  · have hcount := h.counter model
    rw [count_erase h.names hc] at hcount
    unfold System.counter
    rw [hcounters, counter_update]
    by_cases hm : model = c.model
    · have hold : s.counter model = value := by
        unfold System.counter
        rw [hm, hvalue, Option.getD_some]
      have hon : onModel model c = true := decide_eq_true hm.symm
      rw [if_pos hm]
      rw [hon, if_pos rfl, hold] at hcount
      push_cast at hcount
      exact sub_eq_of_eq_add hcount
    · have hon : onModel model c = false := decide_eq_false fun h => hm h.symm
      rw [if_neg hm, hcount, hon]
      rfl
  · rw [hcounters]
    by_cases hm : c'.model = c.model
    · rw [hm, Function.update_self]
      rfl
    · rw [Function.update_of_ne hm]
      exact h.entry id' c' (find_of_find_erase hc')
  · have hfirst := h.first model
    rw [count_erase h.names hc] at hfirst
    exact (Nat.le_add_right _ _).trans hfirst

/-- **Every step keeps the invariant.** -/
theorem Counted.step (h : Counted s) (a : Action) : Counted (step s a) := by
  have hstep := stepped s a
  generalize Tracker.step s a = s' at hstep ⊢
  cases hstep with
  | same => exact h
  | construct id model hid => exact h.construct hid
  | check id c hc =>
    refine h.move hc fun hnext => ?_
    by_contra hbusy
    rw [if_pos (by omega)] at hnext
    exact absurd hnext (by decide)
  | body id c hc hphase => exact h.move hc fun _ => h.past id c hc (by simp [Call.past, hphase])
  | destroy id c hc => exact h.destroy hc

end Steps

theorem counted_start : Counted {} :=
  ⟨List.nodup_nil, fun _ => rfl, fun _ _ hc => absurd hc (by simp [find]), fun _ => Nat.zero_le 1,
    fun _ _ hc => absurd hc (by simp [find])⟩

theorem counted_run (acts : List Action) : Counted (acts.foldl step {}) :=
  foldl_invariant (I := Counted) (C := fun _ => True) (fun _ a h _ => h.step a) acts {} counted_start
    fun _ _ => trivial

/-- **Exclusion.** However the steps of any number of calls interleave, one call at most for each model is
past the busy check, and the counter of the model is the number of its live trackers. -/
theorem one_inference_per_model (acts : List Action) (model : Bytes) :
    count (pastOn model) (acts.foldl step {}).calls ≤ 1 ∧
      (acts.foldl step {}).counter model = count (onModel model) (acts.foldl step {}).calls := by
  have h := counted_run acts
  refine ⟨?_, h.counter model⟩
  refine (count_le_of_imp fun e he hpast => ?_).trans (h.first model)
  obtain ⟨hmodel, hpast⟩ := of_decide_eq_true hpast
  exact decide_eq_true ⟨hmodel, h.past e.1 e.2 (find_of_mem h.names he) hpast⟩

/-! ### Refusals -/

/-- Every refused call saw another one past the check. -/
def Truthful (s : System) : Prop := ∀ id c, find id s.calls = some c → c.phase = .refused → c.sawPast = true

/-- No tracker is constructed while the live ones for its model all belong to calls that were refused
or have not come to their check. -/
def Clear (s : System) : Action → Prop
  | .construct _ model => 0 < count (onModel model) s.calls → 0 < count (pastOn model) s.calls
  | _ => True

instance (s : System) (a : Action) : Decidable (Clear s a) := by
  cases a <;> unfold Clear <;> infer_instance

/-- Whoever found the counter above zero saw a call past the check, and only such calls are refused. -/
structure Honest (s : System) : Prop where
  counted : Counted s
  saw : ∀ id c, find id s.calls = some c → 1 ≤ c.previous → c.sawPast = true
  refused : ∀ id c, find id s.calls = some c → c.phase = .refused → 1 ≤ c.previous

section Refusals

variable {s : System}

theorem Honest.truthful (h : Honest s) : Truthful s := fun id c hc hphase =>
  h.saw id c hc (h.refused id c hc hphase)

theorem Honest.construct (h : Honest s) {id : ℕ} {model : Bytes} (hid : find id s.calls = none)
    (hclear : Clear s (.construct id model)) : Honest (construct s id model) := by
  refine ⟨h.counted.construct hid, fun id' c hc hbusy => ?_, fun id' c hc hphase => ?_⟩
  · rcases find_set_cases hc with ⟨-, rfl⟩ | hc
    · have hvalue : 1 ≤ s.counter model := hbusy
      rw [h.counted.counter model] at hvalue
      obtain ⟨e, he, hpast⟩ := List.countP_pos_iff.mp (hclear (by omega))
      exact List.any_eq_true.mpr ⟨e, he, hpast⟩
    · exact h.saw id' c hc hbusy
  · rcases find_set_cases hc with ⟨-, rfl⟩ | hc
    · exact absurd hphase (by simp)
    · exact h.refused id' c hc hphase

theorem Honest.move (h : Honest s) {id : ℕ} {c : Call} (hc : find id s.calls = some c) {phase : Phase}
    (hcounted : Counted (move s id c phase)) (hphase : phase = .refused → 1 ≤ c.previous) :
    Honest (move s id c phase) := by
  refine ⟨hcounted, fun id' c' hc' hbusy => ?_, fun id' c' hc' hrefused => ?_⟩
  · rcases find_set_cases hc' with ⟨-, rfl⟩ | hc'
    · exact h.saw id c hc hbusy
    · exact h.saw id' c' hc' hbusy
  · rcases find_set_cases hc' with ⟨-, rfl⟩ | hc'
    · exact hphase hrefused
    · exact h.refused id' c' hc' hrefused

theorem Honest.step (h : Honest s) {a : Action} (hclear : Clear s a) : Honest (step s a) := by
  have hstep := stepped s a
  have hcounted := h.counted.step a
  generalize Tracker.step s a = s' at hstep hcounted ⊢
  cases hstep with
  | same => exact h
  | construct id model hid => exact h.construct hid hclear
  | check id c hc =>
    refine h.move hc hcounted fun hnext => ?_
    by_contra hfree
    rw [if_neg hfree] at hnext
    exact absurd hnext (by decide)
  | body id c hc => exact h.move hc hcounted fun hnext => absurd hnext (by decide)
  | destroy id c hc =>
    exact ⟨hcounted, fun id' c' hc' => h.saw id' c' (find_of_find_erase hc'),
      fun id' c' hc' => h.refused id' c' (find_of_find_erase hc')⟩

end Refusals

/-- **Busy refusals.** In a run in which no tracker is constructed while the live ones for its model all
belong to calls that were refused or have not come to their check, every refused call saw another one
past the check. -/
theorem busy_truthful (acts : List Action) (h : EveryStep step Clear {} acts) :
    EveryStep step (fun s a => Truthful (step s a)) {} acts ∧ Truthful (acts.foldl step {}) := by
  have hstart : Honest {} :=
    ⟨counted_start, fun _ _ hc => absurd hc (by simp [find]), fun _ _ hc => absurd hc (by simp [find])⟩
  obtain ⟨hsteps, hend⟩ := everyStep_of_invariant (I := Honest) (P := fun s a => Truthful (step s a))
    (fun s a hs hclear => ⟨(hs.step hclear).truthful, hs.step hclear⟩) acts {} hstart h
  exact ⟨hsteps, hend.truthful⟩

/-- Two calls for one model, the second while the first runs. -/
theorem busy_truthful_overlap :
    EveryStep step (fun s a => Truthful (step s a)) {}
      [.construct 1 (ascii "m"), .check 1, .construct 2 (ascii "m"), .check 2, .body 1] ∧
    Truthful ([.construct 1 (ascii "m"), .check 1, .construct 2 (ascii "m"), .check 2, .body 1].foldl
      step {}) := by
  refine busy_truthful _ ⟨?_, trivial, ?_, trivial, trivial, trivial⟩
  · decide +kernel
  · decide +kernel

/-- The first call has returned, the second was refused and has not yet given up its tracker: the third
is refused although no inference runs. -/
theorem busy_untruthful : ¬ ∀ acts : List Action, Truthful (acts.foldl step {}) := by
  intro h
  have hrun := h [.construct 1 (ascii "m"), .check 1, .construct 2 (ascii "m"), .check 2, .body 1,
    .destroy 1, .construct 3 (ascii "m"), .check 3]
  have hthird : find 3 ([.construct 1 (ascii "m"), .check 1, .construct 2 (ascii "m"), .check 2, .body 1,
      .destroy 1, .construct 3 (ascii "m"), .check 3].foldl step {}).calls =
      some { model := ascii "m", previous := 1, phase := .refused, sawPast := false } := by decide +kernel
  exact absurd (hrun 3 _ hthird rfl) (by decide)

end DenseLite.Engine.Tracker
