import DenseLite.Lib.Runs
import Mathlib.Logic.Function.Iterate

/-! # Two threads of atomic operations

A thread is a program of atomic operations on a state that it shares with another one; what it does next depends on
what it has seen. `end_of_establishes` is the rule for what holds when both threads are at their end, in whatever
order they took their steps: one of them brings it about (`Establishes`), and the other one disturbs it neither
before nor after (`Respects`). A thread that runs for a while alone is `Steps`, and is a run of the two
(`exists_schedule_of_steps`). -/

namespace DenseLite.Lib.Atomic

open DenseLite.Lib.Runs

variable {σ : Type*}

/-- A program: at its end, or an atomic operation that changes the state and chooses how to go on. -/
inductive Prog (σ : Type*)
  | done
  | act (effect : σ → σ) (next : σ → Prog σ)

/-- The state and the two programs that work on it. -/
structure Pair (σ : Type*) where
  state : σ
  left : Prog σ
  right : Prog σ

/-- One step of a program; at its end it takes none. -/
def Prog.step : σ × Prog σ → σ × Prog σ
  | (s, .done) => (s, .done)
  | (s, .act effect next) => (effect s, next s)

/-- A step of the left thread, or of the right one. -/
def Pair.step (p : Pair σ) : Bool → Pair σ
  | true => ⟨(Prog.step (p.state, p.left)).1, (Prog.step (p.state, p.left)).2, p.right⟩
  | false => ⟨(Prog.step (p.state, p.right)).1, p.left, (Prog.step (p.state, p.right)).2⟩

/-- The run of a schedule. -/
def Pair.run (p : Pair σ) (schedule : List Bool) : Pair σ := schedule.foldl Pair.step p

/-! ### Rules -/

/-- Every operation of the program keeps `J`. -/
def Keeps (J : σ → Prop) : Prog σ → Prop
  | .done => True
  | .act effect next => ∀ s, J s → J (effect s) ∧ Keeps J (next s)

/-- Every operation of the program keeps `I`, and keeps `J`, as long as one of them holds. -/
def Respects (I J : σ → Prop) : Prog σ → Prop
  | .done => True
  | .act effect next => ∀ s, I s ∨ J s → (I s → I (effect s)) ∧ (J s → J (effect s)) ∧ Respects I J (next s)

/-- The program keeps `I` up to an operation that makes `J` true, and keeps `J` from there on. -/
def Establishes (I J : σ → Prop) : Prog σ → Prop
  | .done => False
  | .act effect next => ∀ s, I s → (J (effect s) ∧ Keeps J (next s)) ∨ (I (effect s) ∧ Establishes I J (next s))

section Rules

variable {I J : σ → Prop}

/-- What holds of the two threads in the course of a run. -/
def Underway (I J : σ → Prop) (p : Pair σ) : Prop :=
  Respects I J p.right ∧ (I p.state ∧ Establishes I J p.left ∨ J p.state ∧ Keeps J p.left)

theorem underway_step {p : Pair σ} (h : Underway I J p) (b : Bool) : Underway I J (p.step b) := by
  obtain ⟨s, left, right⟩ := p
  obtain ⟨hright, hleft⟩ := h
  cases b with
  | true =>
    refine ⟨hright, ?_⟩
    rcases hleft with ⟨hI, hest⟩ | ⟨hJ, hkeeps⟩
    · cases left with
      | done => exact hest.elim
      | act effect next => exact (hest s hI).symm
    · cases left with
      | done => exact Or.inr ⟨hJ, hkeeps⟩
      | act effect next => exact Or.inr (hkeeps s hJ)
  | false =>
    cases right with
    | done => exact ⟨hright, hleft⟩
    | act effect next =>
      obtain ⟨hI, hJ, hnext⟩ := hright s (hleft.imp And.left And.left)
      exact ⟨hnext, hleft.imp (And.imp_left hI) (And.imp_left hJ)⟩

/-- **The rule for two threads.** What one thread brings about and the other one respects holds at the end of
every run. -/
theorem end_of_establishes {p : Pair σ} (hI : I p.state) (hleft : Establishes I J p.left)
    (hright : Respects I J p.right) (schedule : List Bool) (hend : (p.run schedule).left = .done) :
    J (p.run schedule).state := by
  have hstep : ∀ q b, Underway I J q → True → Underway I J (q.step b) := fun _ b h _ => underway_step h b
  have hrun : Underway I J (p.run schedule) :=
    foldl_invariant hstep schedule p ⟨hright, Or.inl ⟨hI, hleft⟩⟩ fun _ _ => trivial
  rcases hrun.2 with ⟨-, hest⟩ | ⟨hJ, -⟩
  · rw [hend] at hest
    exact hest.elim
  · exact hJ

theorem keeps_of_respects {p : Prog σ} (h : Respects J J p) : Keeps J p := by
  induction p with
  | done => trivial
  | act effect next ih => exact fun s hJ => ⟨(h s (Or.inl hJ)).1 hJ, ih s (h s (Or.inl hJ)).2.2⟩

/-- A predicate of programs that passes over an operation which only looks at the state, where `K` is what it can
count on. -/
def PassesReads (K : σ → Prop) (R : Prog σ → Prop) : Prop :=
  ∀ next : σ → Prog σ, (∀ s, K s → R (next s)) → R (.act (fun s => s) next)

theorem passesReads_respects (I J : σ → Prop) : PassesReads (fun s => I s ∨ J s) (Respects I J) :=
  fun _ h s hK => ⟨fun hI => hI, fun hJ => hJ, h s hK⟩

theorem passesReads_establishes (I J : σ → Prop) : PassesReads I (Establishes I J) :=
  fun _ h s hI => Or.inr ⟨hI, h s hI⟩

end Rules

/-! ### Left and right -/

/-- The threads, exchanged. -/
def Pair.swap (p : Pair σ) : Pair σ := ⟨p.state, p.right, p.left⟩

theorem swap_step (p : Pair σ) (b : Bool) : (p.step b).swap = p.swap.step !b := by
  cases b <;> rfl

theorem swap_run (p : Pair σ) (schedule : List Bool) :
    (p.run schedule).swap = p.swap.run (schedule.map (! ·)) := by
  unfold Pair.run
  induction schedule generalizing p with
  | nil => rfl
  | cons b schedule ih => rw [List.foldl_cons, ih, swap_step, List.map_cons, List.foldl_cons]

/-! ### A thread alone -/

/-- The program runs for a while alone. -/
def Steps (a b : σ × Prog σ) : Prop := ∃ n, Prog.step^[n] a = b

namespace Steps

variable {a b c : σ × Prog σ} {I J : σ → Prop}

theorem refl (a : σ × Prog σ) : Steps a a := ⟨0, rfl⟩

theorem trans (hab : Steps a b) (hbc : Steps b c) : Steps a c := by
  obtain ⟨n, rfl⟩ := hab
  obtain ⟨m, rfl⟩ := hbc
  exact ⟨m + n, Function.iterate_add_apply _ m n a⟩

/-- The first operation, and then the rest. -/
theorem head {s : σ} {effect : σ → σ} {next : σ → Prog σ} (h : Steps (effect s, next s) b) :
    Steps (s, .act effect next) b := by
  obtain ⟨n, rfl⟩ := h
  exact ⟨n + 1, rfl⟩

/-- A program that keeps what holds. -/
theorem keeps {a : σ × Prog σ} (h : Steps a b) (hJ : J a.1) (hkeeps : Keeps J a.2) : J b.1 ∧ Keeps J b.2 := by
  obtain ⟨n, rfl⟩ := h
  induction n generalizing a with
  | zero => exact ⟨hJ, hkeeps⟩
  | succ n ih =>
    obtain ⟨s, p⟩ := a
    rw [Function.iterate_succ_apply]
    cases p with
    | done => exact ih hJ hkeeps
    | act effect next => exact ih (hkeeps s hJ).1 (hkeeps s hJ).2

/-- A program that brings it about, at its end. -/
theorem establishes {a : σ × Prog σ} {s : σ} (h : Steps a (s, .done)) (hI : I a.1)
    (hest : Establishes I J a.2) : J s := by
  obtain ⟨n, hn⟩ := h
  induction n generalizing a with
  | zero =>
    rw [Function.iterate_zero_apply] at hn
    rw [hn] at hest
    exact hest.elim
  | succ n ih =>
    obtain ⟨t, p⟩ := a
    rw [Function.iterate_succ_apply] at hn
    cases p with
    | done => exact hest.elim
    | act effect next =>
      rcases hest t hI with ⟨hJ, hkeeps⟩ | ⟨hI', hest'⟩
      · exact (keeps ⟨n, hn⟩ hJ hkeeps).1
      · exact ih hI' hest' hn

/-- Every program comes to its end. -/
theorem exists_done (p : Prog σ) : ∀ s, ∃ s', Steps (s, p) (s', .done) := by
  induction p with
  | done => exact fun s => ⟨s, refl _⟩
  | act effect next ih =>
    intro s
    obtain ⟨s', h⟩ := ih s (effect s)
    exact ⟨s', head h⟩

end Steps

/-- From a state with `I` the program can come, alone, to a state with `I` and a rest of it with `E`. -/
def Offers (I : σ → Prop) (E : Prog σ → Prop) (p : Prog σ) : Prop :=
  ∀ s, I s → ∃ s' rest, Steps (s, p) (s', rest) ∧ I s' ∧ E rest

theorem offers_of_rest {I : σ → Prop} {E : Prog σ → Prop} {p : Prog σ} (h : E p) : Offers I E p :=
  fun s hI => ⟨s, p, Steps.refl _, hI, h⟩

theorem offers_act {I : σ → Prop} {E : Prog σ → Prop} {effect : σ → σ} {next : σ → Prog σ}
    (h : ∀ s, I s → I (effect s) ∧ Offers I E (next s)) : Offers I E (.act effect next) := by
  intro s hI
  obtain ⟨hI', hnext⟩ := h s hI
  obtain ⟨s', rest, hsteps, hs', hrest⟩ := hnext (effect s) hI'
  exact ⟨s', rest, Steps.head hsteps, hs', hrest⟩

theorem passesReads_offers (I : σ → Prop) (E : Prog σ → Prop) : PassesReads I (Offers I E) :=
  fun _ h => offers_act fun s hI => ⟨hI, h s hI⟩

/-- A thread that runs for a while is a run of the two. -/
theorem exists_schedule_of_steps {s s' : σ} {left left' : Prog σ} (right : Prog σ)
    (h : Steps (s, left) (s', left')) : ∃ schedule, Pair.run ⟨s, left, right⟩ schedule = ⟨s', left', right⟩ := by
  obtain ⟨n, hn⟩ := h
  refine ⟨List.replicate n true, ?_⟩
  unfold Pair.run
  induction n generalizing s left with
  | zero =>
    obtain ⟨rfl, rfl⟩ := Prod.mk.inj hn
    rfl
  | succ n ih =>
    rw [Function.iterate_succ_apply] at hn
    rw [List.replicate_succ, List.foldl_cons]
    exact ih hn

theorem exists_schedule_of_steps_right {s s' : σ} {right right' : Prog σ} (left : Prog σ)
    (h : Steps (s, right) (s', right')) : ∃ schedule, Pair.run ⟨s, left, right⟩ schedule = ⟨s', left, right'⟩ := by
  obtain ⟨schedule, hrun⟩ := exists_schedule_of_steps left h
  refine ⟨schedule.map (! ·), ?_⟩
  exact (swap_run ⟨s, right, left⟩ schedule).symm.trans (congrArg Pair.swap hrun)

theorem run_append (p : Pair σ) (schedule schedule' : List Bool) :
    p.run (schedule ++ schedule') = (p.run schedule).run schedule' :=
  List.foldl_append

end DenseLite.Lib.Atomic
