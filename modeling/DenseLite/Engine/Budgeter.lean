import DenseLite.Engine.Windows

/-! # The plan of a budget in 64-bit arithmetic

`calculate_budget` computes with `size_t`: sums and products are taken modulo `2 ^ 64`, and a difference below zero
would be a huge budget. The function is given once, over the subtraction that it uses: with the one of the machine it
is the code, and with one that fails below zero it shows that no subtraction of the code ever goes there
(`calculateBudget_exact`). Only the two products can wrap, for contexts of more than `2 ^ 64 / 5` tokens, and then the
limits of 2500 and 800 tokens keep the parts within what is divided. Below them it is the plan in plain numbers that the
windows are compressed with (`calculateBudget_eq_plain`). -/

namespace DenseLite.Engine.Budgeter

open DenseLite.Engine.Windows (ContextBudgetPlan)

/-! ### The arithmetic -/

/-- A value of `size_t`. -/
def size (n : ℕ) : ℕ := n % 2 ^ 64

/-- The difference of two values of `size_t`. -/
def wrappedSub (a b : ℕ) : Id ℕ := size (a + 2 ^ 64 - b)

/-- A difference that must not be below zero. -/
def checkedSub (a b : ℕ) : Option ℕ := if b ≤ a then some (a - b) else none

theorem size_of_lt {n : ℕ} (h : n < 2 ^ 64) : size n = n := Nat.mod_eq_of_lt h

theorem checkedSub_of_le {a b : ℕ} (h : b ≤ a) : checkedSub a b = some (a - b) := if_pos h

theorem wrappedSub_of_le {a b : ℕ} (ha : a < 2 ^ 64) (h : b ≤ a) : wrappedSub a b = a - b := by
  show (a + 2 ^ 64 - b) % 2 ^ 64 = a - b
  omega

/-! ### The plan -/

/-- `calculate_budget`, over its subtraction. -/
def calculateBudgetWith {m : Type → Type} [Monad m] (sub : ℕ → ℕ → m ℕ)
    (totalContext systemTokens taskTokens minGenerationReserve : ℕ) : m ContextBudgetPlan := do
  let totalContextLimit := if 0 < totalContext then totalContext else 8192
  let quarterContext := totalContextLimit / 4
  let wanted := max minGenerationReserve quarterContext
  let generationReserve := if totalContextLimit ≤ wanted then totalContextLimit / 2 else wanted
  let maxInputTokens ← sub totalContextLimit generationReserve
  let mandatory := size (systemTokens + taskTokens)
  if maxInputTokens ≤ mandatory then
    return {
      totalContextLimit := totalContextLimit, generationReserve := generationReserve
      maxInputTokens := maxInputTokens, systemPromptTokens := systemTokens, taskPromptTokens := taskTokens
      workingMemoryBudget := 0, retrievedCodeBudget := 0, retrievedMemoryBudget := 0, historyBudget := 0
      totalAllocatedInput := mandatory }
  else
    let remaining ← sub maxInputTokens mandatory
    let historyBudget := min (remaining / 2) 2048
    let auxRemaining ← sub remaining historyBudget
    let retrievedCodeBudget := min (size (auxRemaining * 5) / 10) 2500
    let retrievedMemoryBudget := min (size (auxRemaining * 3) / 10) 800
    let afterCode ← sub auxRemaining retrievedCodeBudget
    let workingMemoryBudget ← sub afterCode retrievedMemoryBudget
    return {
      totalContextLimit := totalContextLimit, generationReserve := generationReserve
      maxInputTokens := maxInputTokens, systemPromptTokens := systemTokens, taskPromptTokens := taskTokens
      workingMemoryBudget := workingMemoryBudget, retrievedCodeBudget := retrievedCodeBudget
      retrievedMemoryBudget := retrievedMemoryBudget, historyBudget := historyBudget
      totalAllocatedInput := size (mandatory + historyBudget + workingMemoryBudget + retrievedCodeBudget +
        retrievedMemoryBudget) }

/-- `ContextBudgeter::calculate_budget`. -/
def calculateBudget (totalContext systemTokens taskTokens minGenerationReserve : ℕ) : ContextBudgetPlan :=
  calculateBudgetWith wrappedSub totalContext systemTokens taskTokens minGenerationReserve

/-- The six sections of the input. -/
def sectionSum (plan : ContextBudgetPlan) : ℕ :=
  plan.systemPromptTokens + plan.taskPromptTokens + plan.workingMemoryBudget + plan.retrievedCodeBudget +
    plan.retrievedMemoryBudget + plan.historyBudget

/-! ### No subtraction goes below zero -/

section Differences

variable {m : Type → Type} [Monad m] [LawfulMonad m] {sub : ℕ → ℕ → m ℕ}

/-- What is reserved leaves something of the context. -/
theorem reserve_lt {limit : ℕ} (wanted : ℕ) (h : 0 < limit) :
    (if limit ≤ wanted then limit / 2 else wanted) < limit := by
  split_ifs <;> omega

/-- The parts of the auxiliary tokens are at most what is divided, also where the products wrap. -/
theorem parts_le (aux : ℕ) (h : aux < 2 ^ 64) :
    min (size (aux * 5) / 10) 2500 + min (size (aux * 3) / 10) 800 ≤ aux := by
  by_cases hwrap : aux * 5 < 2 ^ 64
  · rw [size_of_lt hwrap, size_of_lt (by omega)]
    exact Windows.code_add_memory_le aux
  · -- an amount whose product wraps is more than both limits together
    have hcode := min_le_right (size (aux * 5) / 10) 2500
    have hmemory := min_le_right (size (aux * 3) / 10) 800
    omega

/-- The plan asks for differences of which the first number is below `2 ^ 64` and not less than the second; so it is
the same over every subtraction that is exact there. -/
theorem calculateBudgetWith_eq (hsub : ∀ a b, a < 2 ^ 64 → b ≤ a → sub a b = pure (a - b))
    {totalContext : ℕ} (htotal : totalContext < 2 ^ 64) (systemTokens taskTokens minGenerationReserve : ℕ) :
    calculateBudgetWith sub totalContext systemTokens taskTokens minGenerationReserve =
      pure (calculateBudgetWith (m := Id) (fun a b => a - b) totalContext systemTokens taskTokens
        minGenerationReserve) := by
  have hlimit : (if 0 < totalContext then totalContext else 8192) < 2 ^ 64 ∧
      0 < if 0 < totalContext then totalContext else 8192 := by
    split_ifs <;> omega
  obtain ⟨hlt, hpos⟩ := hlimit
  unfold calculateBudgetWith
  dsimp only
  generalize (if 0 < totalContext then totalContext else 8192) = limit at hlt hpos ⊢
  have hreserve := reserve_lt (max minGenerationReserve (limit / 4)) hpos
  generalize (if limit ≤ max minGenerationReserve (limit / 4) then limit / 2
    else max minGenerationReserve (limit / 4)) = reserve at hreserve ⊢
  rw [hsub limit reserve hlt hreserve.le, pure_bind]
  show (if limit - reserve ≤ size (systemTokens + taskTokens) then _ else _) =
    pure (if limit - reserve ≤ size (systemTokens + taskTokens) then _ else _)
  split_ifs with hfull
  · rfl
  · have hhistory := min_le_left ((limit - reserve - size (systemTokens + taskTokens)) / 2) 2048
    have hparts := parts_le (limit - reserve - size (systemTokens + taskTokens) -
      min ((limit - reserve - size (systemTokens + taskTokens)) / 2) 2048) (by omega)
    rw [hsub _ _ (by omega) (by omega), pure_bind, hsub _ _ (by omega) (by omega), pure_bind,
      hsub _ _ (by omega) (by omega), pure_bind, hsub _ _ (by omega) (by omega), pure_bind]
    rfl

end Differences

section Plan

variable {totalContext systemTokens taskTokens minGenerationReserve : ℕ}

theorem calculateBudget_eq (htotal : totalContext < 2 ^ 64) :
    calculateBudget totalContext systemTokens taskTokens minGenerationReserve =
      calculateBudgetWith (m := Id) (fun a b => a - b) totalContext systemTokens taskTokens minGenerationReserve :=
  calculateBudgetWith_eq (m := Id) (fun _ _ ha h => wrappedSub_of_le ha h) htotal _ _ _

/-- With the subtraction that fails below zero the plan is the same. -/
theorem calculateBudgetWith_checkedSub (htotal : totalContext < 2 ^ 64) :
    calculateBudgetWith checkedSub totalContext systemTokens taskTokens minGenerationReserve =
      some (calculateBudget totalContext systemTokens taskTokens minGenerationReserve) := by
  rw [calculateBudget_eq htotal]
  exact calculateBudgetWith_eq (fun _ _ _ h => checkedSub_of_le h) htotal _ _ _

/-- **The reserve and the input share the context**, at least a quarter for the reserve and never all of it. -/
theorem calculateBudget_reserve (htotal : totalContext < 2 ^ 64) {plan : ContextBudgetPlan}
    (hplan : calculateBudget totalContext systemTokens taskTokens minGenerationReserve = plan) :
    plan.generationReserve < plan.totalContextLimit ∧ plan.totalContextLimit / 4 ≤ plan.generationReserve ∧
      plan.maxInputTokens + plan.generationReserve = plan.totalContextLimit := by
  rw [← hplan, calculateBudget_eq htotal]
  unfold calculateBudgetWith
  dsimp only [bind, pure]
  split_ifs <;> dsimp only <;> omega

/-- **The sections fill the input** when the mandatory ones leave room. -/
theorem calculateBudget_sections (htotal : totalContext < 2 ^ 64) (hmandatory : systemTokens + taskTokens < 2 ^ 64)
    {plan : ContextBudgetPlan}
    (hplan : calculateBudget totalContext systemTokens taskTokens minGenerationReserve = plan)
    (hroom : systemTokens + taskTokens < plan.maxInputTokens) :
    sectionSum plan = plan.maxInputTokens ∧ plan.totalAllocatedInput = plan.maxInputTokens := by
  rw [← hplan, calculateBudget_eq htotal] at hroom ⊢
  have hlimit : (if 0 < totalContext then totalContext else 8192) < 2 ^ 64 := by
    split_ifs <;> omega
  unfold sectionSum calculateBudgetWith at *
  dsimp only [bind, pure] at hroom ⊢
  rw [size_of_lt hmandatory] at hroom ⊢
  generalize (if 0 < totalContext then totalContext else 8192) = limit at hlimit hroom ⊢
  generalize (if limit ≤ max minGenerationReserve (limit / 4) then limit / 2
    else max minGenerationReserve (limit / 4)) = reserve at hroom ⊢
  split_ifs at hroom ⊢ with hfull
  · exact absurd hroom (Nat.not_lt.mpr hfull)
  · dsimp only at hroom ⊢
    have hhistory := min_le_left ((limit - reserve - (systemTokens + taskTokens)) / 2) 2048
    generalize min ((limit - reserve - (systemTokens + taskTokens)) / 2) 2048 = history at hhistory ⊢
    have hparts := parts_le (limit - reserve - (systemTokens + taskTokens) - history) (by omega)
    generalize min (size ((limit - reserve - (systemTokens + taskTokens) - history) * 5) / 10) 2500 = code
      at hparts ⊢
    generalize min (size ((limit - reserve - (systemTokens + taskTokens) - history) * 3) / 10) 800 = memory
      at hparts ⊢
    rw [size_of_lt (by omega)]
    omega

/-- The plan repeats what it is asked for, with a default context. -/
theorem calculateBudget_arguments (htotal : totalContext < 2 ^ 64) {plan : ContextBudgetPlan}
    (hplan : calculateBudget totalContext systemTokens taskTokens minGenerationReserve = plan) :
    plan.totalContextLimit = (if 0 < totalContext then totalContext else 8192) ∧
      plan.systemPromptTokens = systemTokens ∧ plan.taskPromptTokens = taskTokens := by
  rw [← hplan, calculateBudget_eq htotal]
  unfold calculateBudgetWith
  dsimp only [bind, pure]
  generalize (if 0 < totalContext then totalContext else 8192) = limit
  split_ifs <;> exact ⟨rfl, rfl, rfl⟩

/-- Below the sizes whose products wrap, the plan is the one in plain numbers. -/
theorem calculateBudget_eq_plain (htotal : totalContext * 5 < 2 ^ 64)
    (hmandatory : systemTokens + taskTokens < 2 ^ 64) :
    calculateBudget totalContext systemTokens taskTokens 1024 =
      Windows.calculateBudget totalContext systemTokens taskTokens := by
  rw [calculateBudget_eq (by omega)]
  unfold calculateBudgetWith Windows.calculateBudget
  dsimp only [bind, pure]
  have hlimit : (if 0 < totalContext then totalContext else 8192) * 5 < 2 ^ 64 := by
    split_ifs <;> omega
  rw [size_of_lt hmandatory]
  generalize (if 0 < totalContext then totalContext else 8192) = limit at hlimit ⊢
  generalize (if limit ≤ max 1024 (limit / 4) then limit / 2 else max 1024 (limit / 4)) = reserve
  split_ifs with hfull
  · rfl
  · have hhistory := min_le_left ((limit - reserve - (systemTokens + taskTokens)) / 2) 2048
    generalize min ((limit - reserve - (systemTokens + taskTokens)) / 2) 2048 = history at hhistory ⊢
    rw [size_of_lt (by omega), size_of_lt (by omega), size_of_lt (by omega)]
end Plan

/-- **The plan of a budget is exact**, for every context and every reserve: no subtraction goes below zero, the reserve
is at least a quarter of the context and less than all of it, and the sections fill the rest. -/
theorem calculateBudget_exact (totalContext systemTokens taskTokens minGenerationReserve : ℕ)
    (htotal : totalContext < 2 ^ 64) (hmandatory : systemTokens + taskTokens < 2 ^ 64) :
    ∃ plan, calculateBudget totalContext systemTokens taskTokens minGenerationReserve = plan ∧
      calculateBudgetWith checkedSub totalContext systemTokens taskTokens minGenerationReserve = some plan ∧
      plan.totalContextLimit = (if 0 < totalContext then totalContext else 8192) ∧
      plan.systemPromptTokens = systemTokens ∧ plan.taskPromptTokens = taskTokens ∧
      plan.generationReserve < plan.totalContextLimit ∧ plan.totalContextLimit / 4 ≤ plan.generationReserve ∧
      plan.maxInputTokens + plan.generationReserve = plan.totalContextLimit ∧
      (systemTokens + taskTokens < plan.maxInputTokens →
        sectionSum plan = plan.maxInputTokens ∧ plan.totalAllocatedInput = plan.maxInputTokens) := by
  obtain ⟨hlimit, hsystem, htask⟩ := calculateBudget_arguments htotal rfl
  obtain ⟨hlt, hquarter, hinput⟩ := calculateBudget_reserve htotal rfl
  exact ⟨_, rfl, calculateBudgetWith_checkedSub htotal, hlimit, hsystem, htask, hlt, hquarter, hinput,
    calculateBudget_sections htotal hmandatory rfl⟩

/-- The largest context, whose auxiliary tokens wrap when they are multiplied. -/
theorem calculateBudget_largest : ∃ plan, calculateBudget (2 ^ 64 - 1) 150 200 1024 = plan ∧
    sectionSum plan = plan.maxInputTokens ∧ plan.totalAllocatedInput = plan.maxInputTokens := by
  obtain ⟨plan, hplan, -, -, -, -, -, -, -, hsections⟩ :=
    calculateBudget_exact (2 ^ 64 - 1) 150 200 1024 (by decide) (by decide)
  refine ⟨plan, hplan, hsections ?_⟩
  rw [← hplan]
  decide +kernel

end DenseLite.Engine.Budgeter
