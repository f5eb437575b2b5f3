import DenseLite.Lib.Runs
import Mathlib.Logic.Function.Basic
import Mathlib.Data.List.Basic

/-! # The engine as a child of the tray

`TrayProcess` starts the engine as a child process, waits for it and stops it. Calls come from the window and from the
threads of the HTTP server, and the child may exit at any time. `is_running`, `start` and `stop` hold the mutex, but
`start` takes it twice: once in `is_running` and once around `fork`. -/

namespace DenseLite.Tray.Process

open DenseLite.Lib.Runs

/-! ### The state -/

/-- A child that was not waited for. -/
inductive Child
  | running
  | exited
deriving DecidableEq, Repr

/-- Where a thread is in its call. In `stop` there are rounds of the loop left, and `restart` goes on afterwards. -/
inductive Pc
  | idle
  | checked
  | polling (pid left : ℕ) (restart : Bool)
  | killed (pid : ℕ) (restart : Bool)
  | paused
deriving DecidableEq, Repr

/-- The children of the process, the fields of `TrayProcess`, and the threads. -/
structure State where
  children : ℕ → Option Child
  childPid : Option ℕ
  holder : Option ℕ
  pc : ℕ → Pc

def start : State where
  children _ := none
  childPid := none
  holder := none
  pc _ := .idle

namespace State

variable (s : State)

def goto (t : ℕ) (pc : Pc) : State := { s with pc := Function.update s.pc t pc }

def setChild (pid : ℕ) (c : Option Child) : State := { s with children := Function.update s.children pid c }

theorem goto_pc (t : ℕ) (pc : Pc) (u : ℕ) : (s.goto t pc).pc u = if u = t then pc else s.pc u :=
  Function.update_apply s.pc t pc u

end State

/-! ### The calls -/

/-- `is_running` with the mutex. -/
def isRunning (s : State) : State × Bool :=
  match s.childPid with
  | none => (s, false)
  | some pid =>
    if s.children pid = some .running then (s, true)
    else ({ s.setChild pid none with childPid := none }, false)

/-- The end of `stop`. -/
def finish (s : State) (t : ℕ) (restart : Bool) : State :=
  { s.goto t (if restart then .paused else .idle) with childPid := none, holder := none }

/-- What happens: a thread goes on in its call, or a child exits. `fork` gives the number of a process that is no child,
or fails. -/
inductive Action
  | isRunning (t : ℕ)
  | check (t : ℕ)
  | fork (t : ℕ) (pid : Option ℕ)
  | stop (t : ℕ) (restart : Bool)
  | poll (t : ℕ)
  | wait (t : ℕ)
  | exit (pid : ℕ)
deriving DecidableEq, Repr

/-- `is_running()` in `start`. -/
def check (s : State) (t : ℕ) : State :=
  (isRunning s).1.goto t (if (isRunning s).2 then .idle else .checked)

/-- The rest of `start`, in the parent. -/
def fork (s : State) (t : ℕ) : Option ℕ → State
  | none => s.goto t .idle
  | some pid => { (s.goto t .idle).setChild pid (some .running) with childPid := some pid }

/-- The beginning of `stop`, up to the loop; `SIGTERM` may end the child or not. -/
def stop (s : State) (t : ℕ) (restart : Bool) : State :=
  match s.childPid with
  | none => s.goto t (if restart then .paused else .idle)
  | some pid => { s.goto t (.polling pid 30 restart) with holder := some t }

/-- A round of the loop in `stop`, and `SIGKILL` after the last one. -/
def poll (s : State) (t : ℕ) : State :=
  match s.pc t with
  | .polling pid left restart =>
    if s.children pid = some .running then
      if left ≤ 1 then (s.setChild pid (some .exited)).goto t (.killed pid restart)
      else s.goto t (.polling pid (left - 1) restart)
    else finish (s.setChild pid none) t restart
  | _ => s

/-- The `waitpid` after `SIGKILL`. -/
def wait (s : State) (t : ℕ) : State :=
  match s.pc t with
  | .killed pid restart => finish (s.setChild pid none) t restart
  | _ => s

/-- A step, if the thread is there and gets the mutex. -/
def step (s : State) : Action → State
  | .isRunning t => if s.pc t = .idle ∧ s.holder = none then (isRunning s).1 else s
  | .check t => if (s.pc t = .idle ∨ s.pc t = .paused) ∧ s.holder = none then check s t else s
  | .fork t pid => if s.pc t = .checked ∧ s.holder = none ∧ ∀ p ∈ pid, s.children p = none then fork s t pid else s
  | .stop t restart => if s.pc t = .idle ∧ s.holder = none then stop s t restart else s
  | .poll t => poll s t
  | .wait t => wait s t
  | .exit pid => if s.children pid = some .running then s.setChild pid (some .exited) else s

/-! ### What a step does -/

/-- A child that no call will wait for. -/
def Lost (s : State) (pid : ℕ) : Prop := s.children pid ≠ none ∧ s.childPid ≠ some pid

/-- The child of `TrayProcess` was not waited for, and `stop` waits for it. -/
structure Orderly (s : State) : Prop where
  current : ∀ pid, s.childPid = some pid → s.children pid ≠ none
  polling : ∀ t pid left restart, s.pc t = .polling pid left restart → s.childPid = some pid ∧ s.holder = some t
  killed : ∀ t pid restart, s.pc t = .killed pid restart → s.childPid = some pid ∧ s.holder = some t

/-- `fork` starts a child while there is one already. -/
def Overwrites (s : State) : Action → Prop
  | .fork t pid =>
    s.pc t = .checked ∧ s.holder = none ∧ pid ≠ none ∧ (∀ p ∈ pid, s.children p = none) ∧ s.childPid ≠ none
  | _ => False

/-- No thread is in the loop of `stop` or behind it. -/
def Quiet (s : State) : Prop :=
  ∀ t, (∀ pid left restart, s.pc t ≠ .polling pid left restart) ∧ ∀ pid restart, s.pc t ≠ .killed pid restart

theorem orderly_of_quiet {s : State} (hcurrent : ∀ pid, s.childPid = some pid → s.children pid ≠ none)
    (hquiet : Quiet s) : Orderly s where
  current := hcurrent
  polling t pid left restart h := absurd h ((hquiet t).1 pid left restart)
  killed t pid restart h := absurd h ((hquiet t).2 pid restart)

theorem Quiet.goto {s : State} (h : Quiet s) {t : ℕ} {pc : Pc} (hpc : pc = .idle ∨ pc = .checked ∨ pc = .paused) :
    Quiet (s.goto t pc) := by
  intro t'
  by_cases ht : t' = t
  · subst ht
    rcases hpc with rfl | rfl | rfl <;> simp [State.goto]
  · simpa [State.goto, Function.update_of_ne ht] using h t'

theorem orderly_start : Orderly start :=
  orderly_of_quiet (fun _ h => by cases h) fun _ => by simp [start]

section Steps

variable {s : State}

/-- The mutex is free: nobody is in `stop`. -/
theorem Orderly.quiet (h : Orderly s) (hfree : s.holder = none) : Quiet s := by
  refine fun t => ⟨fun pid left restart ht => ?_, fun pid restart ht => ?_⟩
  · have := (h.polling t pid left restart ht).2
    rw [hfree] at this
    cases this
  · have := (h.killed t pid restart ht).2
    rw [hfree] at this
    cases this

/-- The only thread in `stop` has left it. -/
theorem Orderly.quiet_goto (h : Orderly s) {t : ℕ} (hholder : s.holder = some t) {pc : Pc}
    (hpc : pc = .idle ∨ pc = .paused) : Quiet (s.goto t pc) := by
  intro t'
  by_cases ht : t' = t
  · subst ht
    rcases hpc with rfl | rfl <;> simp [State.goto]
  · have hother : ∀ u, s.holder = some u → u ≠ t' := fun u hu => by
      have := hholder.symm.trans hu
      simp only [Option.some.injEq] at this
      exact fun heq => ht (heq ▸ this.symm)
    simp only [State.goto, Function.update_of_ne ht]
    exact ⟨fun pid left restart hp => hother t' (h.polling t' pid left restart hp).2 rfl,
      fun pid restart hp => hother t' (h.killed t' pid restart hp).2 rfl⟩

/-- What `is_running` does: nothing, or it waits for the current child, which has exited. -/
theorem isRunning_cases (s : State) : ((isRunning s).1 = s ∧ (s.childPid = none ∨
      ∃ pid, s.childPid = some pid ∧ s.children pid = some .running)) ∨
    ∃ pid, s.childPid = some pid ∧ s.children pid ≠ some .running ∧
      (isRunning s).1 = { s.setChild pid none with childPid := none } := by
  unfold isRunning
  cases hpid : s.childPid with
  | none => exact .inl ⟨rfl, .inl rfl⟩
  | some pid =>
    by_cases hrunning : s.children pid = some .running
    · exact .inl ⟨by simp [hrunning], .inr ⟨pid, rfl, hrunning⟩⟩
    · exact .inr ⟨pid, rfl, hrunning, by simp [hrunning]⟩

theorem Orderly.isRunning (h : Orderly s) (hfree : s.holder = none) :
    Orderly (isRunning s).1 ∧ (isRunning s).1.holder = none ∧ (isRunning s).1.pc = s.pc := by
  rcases isRunning_cases s with ⟨heq, -⟩ | ⟨pid, -, -, heq⟩
  · rw [heq]
    exact ⟨h, hfree, rfl⟩
  · rw [heq]
    exact ⟨orderly_of_quiet (fun _ hpid => by cases hpid) (h.quiet hfree), hfree, rfl⟩

/-- What a step does to the children. -/
inductive Effect (s : State) (a : Action) (s' : State) : Prop
  | none (hchildren : s'.children = s.children) (hpid : s'.childPid = s.childPid)
  | exits (pid : ℕ) (hrunning : s.children pid = some .running)
    (hchildren : s'.children = Function.update s.children pid (some .exited)) (hpid : s'.childPid = s.childPid)
  | reaps (pid : ℕ) (hcurrent : s.childPid = some pid) (hchildren : s'.children = Function.update s.children pid .none)
    (hpid : s'.childPid = .none)
  | forks (t pid : ℕ) (ha : a = .fork t (some pid)) (hchecked : s.pc t = .checked) (hfree : s.holder = .none)
    (hfresh : s.children pid = .none) (hchildren : s'.children = Function.update s.children pid (some .running))
    (hpid : s'.childPid = some pid)

theorem effect_isRunning (s : State) (a : Action) : Effect s a (isRunning s).1 := by
  rcases isRunning_cases s with ⟨heq, -⟩ | ⟨pid, hpid, -, heq⟩
  · rw [heq]
    exact .none rfl rfl
  · rw [heq]
    exact .reaps pid hpid rfl rfl

theorem Orderly.effect_poll (h : Orderly s) (a : Action) (t : ℕ) : Effect s a (poll s t) := by
  unfold poll
  split
  · rename_i pid left restart hpc
    split_ifs with hrunning hleft
    · exact .exits pid hrunning rfl rfl
    · exact .none rfl rfl
    · exact .reaps pid (h.polling t pid left restart hpc).1 rfl rfl
  · exact .none rfl rfl

theorem Orderly.effect_wait (h : Orderly s) (a : Action) (t : ℕ) : Effect s a (wait s t) := by
  unfold wait
  split
  · rename_i pid restart hpc
    exact .reaps pid (h.killed t pid restart hpc).1 rfl rfl
  · exact .none rfl rfl

theorem Orderly.effect (h : Orderly s) (a : Action) : Effect s a (step s a) := by
  cases a with
  | isRunning t =>
    rw [step]
    split_ifs
    · exact effect_isRunning s _
    · exact .none rfl rfl
  | check t =>
    rw [step]
    split_ifs
    · cases effect_isRunning s (.check t) with
      | none hchildren hpid => exact .none hchildren hpid
      | exits pid hrunning hchildren hpid => exact .exits pid hrunning hchildren hpid
      | reaps pid hcurrent hchildren hpid => exact .reaps pid hcurrent hchildren hpid
      | forks _ _ ha => cases ha
    · exact .none rfl rfl
  | fork t pid =>
    rw [step]
    split_ifs with hfork
    · cases pid with
      | none => exact .none rfl rfl
      | some pid => exact .forks t pid rfl hfork.1 hfork.2.1 (hfork.2.2 pid rfl) rfl rfl
    · exact .none rfl rfl
  | stop t restart =>
    rw [step]
    split_ifs
    · unfold stop
      split <;> exact .none rfl rfl
    · exact .none rfl rfl
  | poll t => exact h.effect_poll _ t
  | wait t => exact h.effect_wait _ t
  | exit pid =>
    rw [step]
    split_ifs with hrunning
    · exact .exits pid hrunning rfl rfl
    · exact .none rfl rfl

/-- What `TrayProcess` waits for next is always a child that was not waited for. -/
theorem Effect.current {a : Action} {s' : State} (heffect : Effect s a s')
    (h : ∀ pid, s.childPid = some pid → s.children pid ≠ .none) :
    ∀ pid, s'.childPid = some pid → s'.children pid ≠ .none := by
  intro p hp
  cases heffect with
  | none hchildren hpid =>
    rw [hchildren]
    exact h p (hpid ▸ hp)
  | exits pid hrunning hchildren hpid =>
    rw [hchildren, Function.update_apply]
    split_ifs
    · simp
    · exact h p (hpid ▸ hp)
  | reaps pid hcurrent hchildren hpid =>
    rw [hpid] at hp
    cases hp
  | forks t pid ha hchecked hfree hfresh hchildren hpid =>
    obtain rfl := Option.some.inj (hpid.symm.trans hp)
    simp [hchildren]

theorem Quiet.of_pc {s' : State} (h : Quiet s) (hpc : s'.pc = s.pc) : Quiet s' := by
  intro t
  rw [hpc]
  exact h t

/-- A state in which one thread is in `stop`. -/
theorem orderly_of_holder {s' : State} {t pid : ℕ} (hcurrent : ∀ p, s'.childPid = some p → s'.children p ≠ .none)
    (hpid : s'.childPid = some pid) (hholder : s'.holder = some t)
    (hpc : (∃ left restart, s'.pc t = .polling pid left restart) ∨ ∃ restart, s'.pc t = .killed pid restart)
    (hothers : ∀ u ≠ t,
      (∀ p left restart, s'.pc u ≠ .polling p left restart) ∧ ∀ p restart, s'.pc u ≠ .killed p restart) :
    Orderly s' where
  current := hcurrent
  polling u p left restart hu := by
    obtain rfl : u = t := by_contra fun hne => (hothers u hne).1 p left restart hu
    rcases hpc with ⟨_, _, hpc⟩ | ⟨_, hpc⟩
    · obtain ⟨rfl, -, -⟩ := Pc.polling.inj (hpc.symm.trans hu)
      exact ⟨hpid, hholder⟩
    · cases hpc.symm.trans hu
  killed u p restart hu := by
    obtain rfl : u = t := by_contra fun hne => (hothers u hne).2 p restart hu
    rcases hpc with ⟨_, _, hpc⟩ | ⟨_, hpc⟩
    · cases hpc.symm.trans hu
    · obtain ⟨rfl, -⟩ := Pc.killed.inj (hpc.symm.trans hu)
      exact ⟨hpid, hholder⟩

/-- While one thread is in `stop` no other one is. -/
theorem Orderly.others (h : Orderly s) {t : ℕ} (hholder : s.holder = some t) : ∀ u ≠ t,
    (∀ p left restart, s.pc u ≠ .polling p left restart) ∧ ∀ p restart, s.pc u ≠ .killed p restart := by
  intro u hu
  have hne : s.holder ≠ some u := fun heq => hu (Option.some.inj (heq.symm.trans hholder))
  exact ⟨fun p left restart hp => hne (h.polling u p left restart hp).2,
    fun p restart hp => hne (h.killed u p restart hp).2⟩

/-- The thread in `stop` goes on there. -/
theorem Orderly.goto_stop (h : Orderly s) {s' : State} {t pid : ℕ} (hholder : s.holder = some t)
    (hcurrent : ∀ p, s'.childPid = some p → s'.children p ≠ .none) (hpid : s'.childPid = some pid)
    (hholder' : s'.holder = some t) {pc : Pc} (hpc' : s'.pc = Function.update s.pc t pc)
    (hpc : (∃ left restart, pc = .polling pid left restart) ∨ ∃ restart, pc = .killed pid restart) : Orderly s' := by
  have hself : s'.pc t = pc := by rw [hpc', Function.update_self]
  refine orderly_of_holder hcurrent hpid hholder' ?_ fun u hu => ?_
  · rcases hpc with ⟨left, restart, rfl⟩ | ⟨restart, rfl⟩
    · exact .inl ⟨left, restart, hself⟩
    · exact .inr ⟨restart, hself⟩
  · rw [hpc', Function.update_of_ne hu]
    exact h.others hholder u hu

theorem Orderly.finish (h : Orderly s) {t pid : ℕ} (hholder : s.holder = some t) (restart : Bool) :
    Orderly (finish (s.setChild pid .none) t restart) := by
  refine orderly_of_quiet (fun p hp => by cases hp) ?_
  have hquiet : Quiet (s.goto t (if restart then .paused else .idle)) :=
    h.quiet_goto hholder (by cases restart <;> simp)
  exact hquiet.of_pc rfl

theorem Orderly.poll (h : Orderly s) (t : ℕ) : Orderly (poll s t) := by
  have hcurrent := (h.effect_poll (.poll t) t).current h.current
  unfold Process.poll at hcurrent ⊢
  split at hcurrent
  · rename_i pid left restart hpc
    obtain ⟨hpid, hholder⟩ := h.polling t pid left restart hpc
    split_ifs at hcurrent ⊢
    · exact h.goto_stop hholder hcurrent hpid hholder rfl (.inr ⟨restart, rfl⟩)
    · exact h.goto_stop hholder hcurrent hpid hholder rfl (.inl ⟨left - 1, restart, rfl⟩)
    · exact h.finish hholder restart
  · exact h

theorem Orderly.wait (h : Orderly s) (t : ℕ) : Orderly (wait s t) := by
  unfold Process.wait
  split
  · rename_i pid restart hpc
    exact h.finish (h.killed t pid restart hpc).2 restart
  · exact h

/-- Every step keeps order. -/
theorem Orderly.step (h : Orderly s) (a : Action) : Orderly (step s a) := by
  have hcurrent := (h.effect a).current h.current
  cases a with
  | isRunning t =>
    rw [Process.step] at hcurrent ⊢
    split_ifs with hstep
    · exact (h.isRunning hstep.2).1
    · exact h
  | check t =>
    rw [Process.step] at hcurrent ⊢
    split_ifs at hcurrent ⊢ with hstep
    · obtain ⟨horderly, hfree, -⟩ := h.isRunning hstep.2
      refine orderly_of_quiet hcurrent ((horderly.quiet hfree).goto ?_)
      cases (Process.isRunning s).2 <;> simp
    · exact h
  | fork t pid =>
    rw [Process.step] at hcurrent ⊢
    split_ifs at hcurrent ⊢ with hstep
    · have hquiet : Quiet (s.goto t .idle) := (h.quiet hstep.2.1).goto (.inl rfl)
      cases pid <;> exact orderly_of_quiet hcurrent (hquiet.of_pc rfl)
    · exact h
  | stop t restart =>
    rw [Process.step] at hcurrent ⊢
    split_ifs at hcurrent ⊢ with hstep
    · unfold Process.stop at hcurrent ⊢
      split at hcurrent
      · exact orderly_of_quiet hcurrent ((h.quiet hstep.2).goto (by cases restart <;> simp))
      · rename_i pid hpid
        have hquiet := h.quiet hstep.2
        refine orderly_of_holder (t := t) hcurrent hpid rfl
          (.inl ⟨30, restart, Function.update_self t _ _⟩) fun u hu => ?_
        simp only [State.goto, Function.update_of_ne hu]
        exact hquiet u
    · exact h
  | poll t => exact h.poll t
  | wait t => exact h.wait t
  | exit pid =>
    rw [Process.step] at hcurrent ⊢
    split_ifs at hcurrent ⊢ with hrunning
    · exact ⟨hcurrent, h.polling, h.killed⟩
    · exact h

end Steps

/-! ### Lost children -/

section Lost

variable {s : State}

/-- A lost child stays lost. -/
theorem Effect.lost {a : Action} {s' : State} (heffect : Effect s a s') {p : ℕ} (h : Lost s p) : Lost s' p := by
  obtain ⟨hchild, hother⟩ := h
  cases heffect with
  | none hchildren hpid => exact ⟨hchildren ▸ hchild, hpid ▸ hother⟩
  | exits pid hrunning hchildren hpid =>
    refine ⟨?_, hpid ▸ hother⟩
    rw [hchildren, Function.update_apply]
    split_ifs <;> simp [hchild]
  | reaps pid hcurrent hchildren hpid =>
    have hne : p ≠ pid := fun heq => hother (heq ▸ hcurrent)
    refine ⟨?_, by simp [hpid]⟩
    rwa [hchildren, Function.update_of_ne hne]
  | forks t pid ha hchecked hfree hfresh hchildren hpid =>
    have hne : p ≠ pid := fun heq => hchild (heq ▸ hfresh)
    refine ⟨?_, fun heq => hne (Option.some.inj (hpid.symm.trans heq)).symm⟩
    rwa [hchildren, Function.update_of_ne hne]

theorem lost_of_run : ∀ (acts : List Action) {s : State}, Orderly s → ∀ {p : ℕ}, Lost s p →
    Lost (acts.foldl step s) p
  | [], _, _, _, h => h
  | a :: acts, _, horderly, _, h => lost_of_run acts (horderly.step a) ((horderly.effect a).lost h)

/-- A child is lost at a step exactly when `fork` overwrites the one that is there. -/
theorem Orderly.lost_iff (horderly : Orderly s) (h : ∀ p, ¬ Lost s p) (a : Action) :
    (∃ p, Lost (Process.step s a) p) ↔ Overwrites s a := by
  have hown : ∀ p, s.children p ≠ none → s.childPid = some p := fun p hp => by_contra fun hne => h p ⟨hp, hne⟩
  constructor
  · rintro ⟨p, hchild, hother⟩
    cases horderly.effect a with
    | none hchildren hpid => exact absurd (hown p (hchildren ▸ hchild)) (hpid ▸ hother)
    | exits pid hrunning hchildren hpid =>
      rw [hpid] at hother
      refine absurd (hown p ?_) hother
      rw [hchildren, Function.update_apply] at hchild
      split_ifs at hchild with heq
      · simp [heq, hrunning]
      · exact hchild
    | reaps pid hcurrent hchildren hpid =>
      rw [hchildren, Function.update_apply] at hchild
      split_ifs at hchild with heq
      · exact absurd rfl hchild
      · exact absurd (Option.some.inj ((hown p hchild).symm.trans hcurrent)) heq
    | forks t pid ha hchecked hfree hfresh hchildren hpid =>
      subst ha
      have hne : p ≠ pid := fun heq => hother (heq ▸ hpid)
      rw [hchildren, Function.update_of_ne hne] at hchild
      exact ⟨hchecked, hfree, by simp, by simpa using hfresh, by simp [hown p hchild]⟩
  · intro hover
    cases a with
    | fork t pid =>
      obtain ⟨hchecked, hfree, hpid, hfresh, hcurrent⟩ := hover
      obtain ⟨pid, rfl⟩ := Option.ne_none_iff_exists'.mp hpid
      obtain ⟨old, hold⟩ := Option.ne_none_iff_exists'.mp hcurrent
      have hfresh := hfresh pid rfl
      have hne : old ≠ pid := fun heq => horderly.current old hold (heq ▸ hfresh)
      refine ⟨old, ?_⟩
      rw [Process.step, if_pos ⟨hchecked, hfree, by simpa using hfresh⟩]
      constructor
      · simpa [fork, State.setChild, State.goto, Function.update_of_ne hne] using horderly.current old hold
      · simpa [fork] using hne.symm
    | _ => exact hover.elim

/-- **No child is lost in a run exactly when no `fork` of it starts a child while there is one.** -/
theorem no_child_lost_iff (acts : List Action) :
    (∀ pid, ¬ Lost (acts.foldl step start) pid) ↔ EveryStep step (fun s a => ¬ Overwrites s a) start acts := by
  have hrun : ∀ (acts : List Action) (s : State), Orderly s → (∀ p, ¬ Lost s p) →
      ((∀ pid, ¬ Lost (acts.foldl step s) pid) ↔ EveryStep step (fun s a => ¬ Overwrites s a) s acts) := by
    intro acts
    induction acts with
    | nil => intro s _ h; simpa using h
    | cons a acts ih =>
      intro s horderly h
      have hiff := horderly.lost_iff h a
      rw [List.foldl_cons, everyStep_cons, ← hiff]
      by_cases hlost : ∃ p, Lost (step s a) p
      · obtain ⟨p, hp⟩ := hlost
        exact iff_of_false (fun hall => hall p (lost_of_run acts (horderly.step a) hp)) fun hand => hand.1 ⟨p, hp⟩
      · rw [ih (step s a) (horderly.step a) fun p hp => hlost ⟨p, hp⟩]
        exact (and_iff_right hlost).symm
  exact hrun acts start orderly_start fun p hp => hp.1 rfl

/-- Two calls of `start` that both find no child. -/
example : Lost ([.check 0, .check 1, .fork 0 (some 7), .fork 1 (some 8)].foldl step start) 7 := by
  unfold Lost
  decide

end Lost

/-! ### One start at a time -/

/-- No thread is between the two halves of `start`. -/
def Alone (s : State) : Action → Prop
  | .check _ => ∀ u, s.pc u ≠ .checked
  | _ => True

/-- A thread between the halves of `start` is the only one, and there is no child. -/
def Single (s : State) : Prop := ∀ t, s.pc t = .checked → s.childPid = none ∧ ∀ u, s.pc u = .checked → u = t

section Starts

variable {s : State}

theorem Single.mono (h : Single s) {s' : State} (hpc : ∀ u, s'.pc u = .checked → s.pc u = .checked)
    (hpid : s'.childPid = s.childPid ∨ s'.childPid = none) : Single s' := by
  intro t ht
  obtain ⟨hnone, hunique⟩ := h t (hpc t ht)
  refine ⟨?_, fun u hu => hunique u (hpc u hu)⟩
  rcases hpid with hpid | hpid
  · rw [hpid, hnone]
  · exact hpid

theorem checked_goto {t u : ℕ} {pc : Pc} (hpc : pc ≠ .checked) (h : (s.goto t pc).pc u = .checked) :
    s.pc u = .checked := by
  rw [State.goto_pc] at h
  split_ifs at h
  · exact absurd h hpc
  · exact h

theorem ite_ne_checked (b : Bool) : (if b then Pc.paused else .idle) ≠ .checked := by cases b <;> simp

/-- What `is_running` gives, and what it leaves. -/
theorem isRunning_result (s : State) : ((isRunning s).2 = true ∧ (isRunning s).1 = s ∧
      ∃ pid, s.childPid = some pid ∧ s.children pid = some .running) ∨
    ((isRunning s).2 = false ∧ (isRunning s).1.childPid = none ∧
      ∀ pid, s.childPid = some pid → s.children pid ≠ some .running) := by
  unfold isRunning
  cases hpid : s.childPid with
  | none => exact .inr ⟨rfl, hpid, by simp⟩
  | some pid =>
    by_cases hrunning : s.children pid = some .running
    · exact .inl ⟨by simp [hrunning], by simp [hrunning], pid, rfl, hrunning⟩
    · refine .inr ⟨by simp [hrunning], by simp [hrunning], fun p hp => ?_⟩
      rwa [← Option.some.inj hp]

theorem Single.step (h : Single s) {a : Action} (halone : Alone s a) : Single (step s a) := by
  cases a with
  | isRunning t =>
    rw [Process.step]
    split_ifs
    · rcases isRunning_cases s with ⟨heq, -⟩ | ⟨pid, -, -, heq⟩
      · rw [heq]
        exact h
      · rw [heq]
        exact h.mono (fun _ hu => hu) (.inr rfl)
    · exact h
  | check t =>
    rw [Process.step]
    split_ifs with hstep
    · have hpc : (Process.isRunning s).1.pc = s.pc := by
        rcases isRunning_cases s with ⟨heq, -⟩ | ⟨pid, -, -, heq⟩ <;> rw [heq]
        rfl
      have honly : ∀ u, (check s t).pc u = .checked → u = t := fun u hu => by_contra fun hne => by
        rw [check, State.goto_pc, if_neg hne, hpc] at hu
        exact halone u hu
      intro u hu
      obtain rfl := honly u hu
      refine ⟨?_, honly⟩
      rcases isRunning_result s with ⟨hresult, -⟩ | ⟨-, hnone, -⟩
      · simp [check, State.goto, hresult] at hu
      · exact hnone
    · exact h
  | fork t pid =>
    rw [Process.step]
    split_ifs with hstep
    · have hnone : ∀ u, (s.goto t .idle).pc u ≠ .checked := fun u hu => by
        have hchecked := checked_goto (by simp) hu
        obtain rfl := (h t hstep.1).2 u hchecked
        simp [State.goto] at hu
      cases pid <;> exact fun u hu => absurd hu (hnone u)
    · exact h
  | stop t restart =>
    rw [Process.step]
    split_ifs
    · unfold Process.stop
      split
      · exact h.mono (fun u hu => checked_goto (ite_ne_checked restart) hu) (.inl rfl)
      · exact h.mono (fun u hu => checked_goto (by simp) hu) (.inl rfl)
    · exact h
  | poll t =>
    rw [Process.step, poll]
    split
    · split_ifs
      · exact h.mono (fun u hu => checked_goto (by simp) hu) (.inl rfl)
      · exact h.mono (fun u hu => checked_goto (by simp) hu) (.inl rfl)
      · exact h.mono (fun u hu => checked_goto (ite_ne_checked _) hu) (.inr rfl)
    · exact h
  | wait t =>
    rw [Process.step, wait]
    split
    · exact h.mono (fun u hu => checked_goto (ite_ne_checked _) hu) (.inr rfl)
    · exact h
  | exit pid =>
    rw [Process.step]
    split_ifs
    · exact h.mono (fun _ hu => hu) (.inl rfl)
    · exact h

/-- The only child is the one that `TrayProcess` waits for, and `is_running` says whether it runs. -/
structure Tended (s : State) : Prop where
  child_iff : ∀ pid, s.children pid ≠ none ↔ s.childPid = some pid
  isRunning_iff : (isRunning s).2 = true ↔ ∃ pid, s.children pid = some .running

theorem Orderly.tended (horderly : Orderly s) (h : ∀ p, ¬ Lost s p) : Tended s := by
  have hown : ∀ p, s.children p ≠ none → s.childPid = some p := fun p hp => by_contra fun hne => h p ⟨hp, hne⟩
  refine ⟨fun pid => ⟨hown pid, horderly.current pid⟩, ?_⟩
  rcases isRunning_result s with ⟨hresult, -, pid, -, hrunning⟩ | ⟨hresult, -, hnot⟩
  · exact iff_of_true hresult ⟨pid, hrunning⟩
  · rw [hresult]
    refine iff_of_false (by simp) ?_
    rintro ⟨pid, hrunning⟩
    exact hnot pid (hown pid (by simp [hrunning])) hrunning

theorem Single.not_overwrites (h : Single s) (a : Action) : ¬ Overwrites s a := by
  intro hover
  cases a with
  | fork t pid => exact hover.2.2.2.2 (h t hover.1).1
  | _ => exact hover.elim

/-- **If no `start` begins while another one is between its check and its `fork`**, there is at every moment of every run
at most one child that was not waited for, it is the one that `stop` and `is_running` look at, and `is_running` is right
about it. -/
theorem one_child (acts : List Action) (halone : EveryStep step Alone start acts) :
    EveryStep step (fun s _ => Tended s) start acts ∧ Tended (acts.foldl step start) := by
  have hrun := @everyStep_of_invariant _ _ step (P := fun s _ => Tended s)
    (I := fun s => Orderly s ∧ (∀ p, ¬ Lost s p) ∧ Single s) (C := Alone)
    (fun s a hs ha => ?_) acts start ⟨orderly_start, fun p hp => hp.1 rfl, fun t ht => by cases ht⟩ halone
  · exact ⟨hrun.1, hrun.2.1.tended hrun.2.2.1⟩
  · obtain ⟨horderly, hlost, hsingle⟩ := hs
    refine ⟨horderly.tended hlost, horderly.step a, fun p hp => ?_, hsingle.step ha⟩
    exact hsingle.not_overwrites a ((horderly.lost_iff hlost a).mp ⟨p, hp⟩)

/-- The engine is started and stopped from another thread. -/
theorem one_child_stopped : EveryStep step Alone start [.check 0, .fork 0 (some 7), .stop 1 false, .exit 7, .poll 1] ∧
    EveryStep step (fun s _ => Tended s) start [.check 0, .fork 0 (some 7), .stop 1 false, .exit 7, .poll 1] ∧
    Tended ([.check 0, .fork 0 (some 7), .stop 1 false, .exit 7, .poll 1].foldl step start) := by
  have halone : EveryStep step Alone start [.check 0, .fork 0 (some 7), .stop 1 false, .exit 7, .poll 1] := by
    simp [EveryStep, Alone, start]
  exact ⟨halone, one_child _ halone⟩

end Starts

end DenseLite.Tray.Process
