import DenseLite.Engine.Context
import DenseLite.Lib.Greedy
import Mathlib.Data.List.DropRight

/-! # Budgets of a prompt

The plan of a token budget, and what `optimize_and_compile` reports of the prompt it makes. A window of a
conversation is its leading system message and the end of it; `sliding_window` keeps the longest window whose
contents fit the budget when they are counted one by one (`slidingWindow_eq_window`). The prompt is counted in one
piece and with its template, so it may still be over the budget (`meetsBudget_iff`).

The evidence of a search becomes part of the first system message before anything is counted, and no budget of the
plan limits it (`evidenceFits_iff`). -/

namespace DenseLite.Engine.Windows

open DenseLite.Lib.ByteStream DenseLite.Lib.Greedy DenseLite.Gguf.Config DenseLite.Engine.Context
open DenseLite.Infer.State (ascii)

/-! ### The plan -/

/-- `ContextBudgetPlan`. -/
structure ContextBudgetPlan where
  totalContextLimit : ℕ
  generationReserve : ℕ
  maxInputTokens : ℕ
  systemPromptTokens : ℕ
  taskPromptTokens : ℕ
  workingMemoryBudget : ℕ
  retrievedCodeBudget : ℕ
  retrievedMemoryBudget : ℕ
  historyBudget : ℕ
  totalAllocatedInput : ℕ
deriving DecidableEq, Repr

/-- `ContextBudgeter::calculate_budget`, with its generation reserve of at least 1024 tokens. -/
def calculateBudget (totalContext systemTokens taskTokens : ℕ) : ContextBudgetPlan :=
  let limit := if 0 < totalContext then totalContext else 8192
  let wanted := max 1024 (limit / 4)
  let reserve := if limit ≤ wanted then limit / 2 else wanted
  let maxInput := limit - reserve
  let mandatory := systemTokens + taskTokens
  if maxInput ≤ mandatory then
    { totalContextLimit := limit, generationReserve := reserve, maxInputTokens := maxInput
      systemPromptTokens := systemTokens, taskPromptTokens := taskTokens, workingMemoryBudget := 0
      retrievedCodeBudget := 0, retrievedMemoryBudget := 0, historyBudget := 0, totalAllocatedInput := mandatory }
  else
    let remaining := maxInput - mandatory
    let history := min (remaining / 2) 2048
    let auxiliary := remaining - history
    let code := min (auxiliary * 5 / 10) 2500
    let memory := min (auxiliary * 3 / 10) 800
    let working := auxiliary - code - memory
    { totalContextLimit := limit, generationReserve := reserve, maxInputTokens := maxInput
      systemPromptTokens := systemTokens, taskPromptTokens := taskTokens, workingMemoryBudget := working
      retrievedCodeBudget := code, retrievedMemoryBudget := memory, historyBudget := history
      totalAllocatedInput := mandatory + history + working + code + memory }

/-- The input tokens of the plan do not depend on what the messages take. -/
theorem calculateBudget_maxInputTokens (totalContext systemTokens taskTokens : ℕ) :
    (calculateBudget totalContext systemTokens taskTokens).maxInputTokens = maxInputTokens totalContext := by
  unfold calculateBudget maxInputTokens
  dsimp only
  split_ifs <;> rfl

/-- The code and the memories get no more than what is divided among them. -/
theorem code_add_memory_le (auxiliary : ℕ) :
    min (auxiliary * 5 / 10) 2500 + min (auxiliary * 3 / 10) 800 ≤ auxiliary := by
  have hcode := min_le_left (auxiliary * 5 / 10) 2500
  have hmemory := min_le_left (auxiliary * 3 / 10) 800
  omega

/-! ### The compiled prompt -/

/-- `CompiledContext`. -/
structure CompiledContext where
  prompt : Bytes
  promptTokens : ℕ
  systemTokens : ℕ
  historyTokens : ℕ
  taskTokens : ℕ
  fitsBudget : Bool
deriving DecidableEq, Repr

/-- The section of the breakdown that a message counts in: the last message is the task if the user sent it. -/
inductive Section
  | system
  | task
  | history
deriving DecidableEq, Repr

/-- The sections of the messages. -/
def sections : List OpenAIMessage → List (Section × OpenAIMessage)
  | [] => []
  | m :: rest =>
    (if m.role = ascii "system" then .system
      else if rest = [] ∧ m.role = ascii "user" then .task
      else .history, m) :: sections rest

/-- The tokens of a section. -/
def sectionTokens (tokenizer : Option Tokenizer) (s : Section) (messages : List OpenAIMessage) : ℕ :=
  total (fun p => countAny tokenizer p.2.content) ((sections messages).filter (·.1 = s))

/-- `ContextCompiler::compile`, with the assistant header. -/
def compileContext (messages : List OpenAIMessage) (tokenizer : Option Tokenizer) (maxInput : ℕ)
    (config : ModelConfig) : CompiledContext where
  prompt := compile messages config
  promptTokens := countAny tokenizer (compile messages config)
  systemTokens := sectionTokens tokenizer .system messages
  historyTokens := sectionTokens tokenizer .history messages
  taskTokens := sectionTokens tokenizer .task messages
  fitsBudget := countAny tokenizer (compile messages config) ≤ maxInput

/-- `ContextOptimizationResult`. -/
structure ContextOptimizationResult where
  compiledPrompt : Bytes
  budgetPlan : ContextBudgetPlan
  compiledContext : CompiledContext
  originalMessagesCount : ℕ
  compressedMessagesCount : ℕ
  compressionApplied : Bool
deriving DecidableEq, Repr

/-- `ContextEngine::optimize_and_compile`, without evidence. -/
def optimizeAndCompile (messages : List OpenAIMessage) (tokenizer : Option Tokenizer) (config : ModelConfig)
    (limit : ℕ) : ContextOptimizationResult :=
  let plan := calculateBudget limit (sectionTokens tokenizer .system messages)
    (sectionTokens tokenizer .task messages)
  let msgs := deduplicate messages
  let optimized := compress msgs tokenizer plan.maxInputTokens
  let compiled := compileContext optimized tokenizer plan.maxInputTokens config
  { compiledPrompt := compiled.prompt, budgetPlan := plan, compiledContext := compiled
    originalMessagesCount := messages.length, compressedMessagesCount := optimized.length
    compressionApplied := msgs.length < messages.length || optimized.length < msgs.length }

/-- `ContextEngine::optimize_and_compile`, with the evidence of a search. -/
def optimizeWithEvidence (messages : List OpenAIMessage) (evidence : List SearchResult)
    (tokenizer : Option Tokenizer) (config : ModelConfig) (limit : ℕ) : ContextOptimizationResult :=
  if evidence = [] then optimizeAndCompile messages tokenizer config limit
  else optimizeAndCompile (injectEvidence (evidenceBlock evidence) messages) tokenizer config limit

section Result

variable (messages : List OpenAIMessage) (evidence : List SearchResult) (tokenizer : Option Tokenizer)
  (config : ModelConfig) (limit : ℕ)

/-- What is compiled is what `optimize` selects. -/
theorem optimizeAndCompile_compiledContext :
    (optimizeAndCompile messages tokenizer config limit).compiledContext =
      compileContext (optimize messages [] tokenizer limit) tokenizer (maxInputTokens limit) config := by
  unfold optimizeAndCompile optimize
  dsimp only
  rw [calculateBudget_maxInputTokens, if_pos rfl]

theorem optimizeWithEvidence_compiledContext :
    (optimizeWithEvidence messages evidence tokenizer config limit).compiledContext =
      compileContext (optimize messages evidence tokenizer limit) tokenizer (maxInputTokens limit) config := by
  unfold optimizeWithEvidence
  split_ifs with hnone
  · rw [optimizeAndCompile_compiledContext, hnone]
  · rw [optimizeAndCompile_compiledContext]
    unfold optimize
    rw [if_pos rfl, if_neg hnone]

end Result

/-! ### Windows -/

/-- The system message at the front of a conversation, if there is one. -/
def leading (messages : List OpenAIMessage) : List OpenAIMessage :=
  (messages.head?.filter (·.role = ascii "system")).toList

/-- The messages after the leading system message. -/
def following (messages : List OpenAIMessage) : List OpenAIMessage := messages.drop (leading messages).length

/-- The leading system message, `n` messages before the last one, and the last one. -/
def window (n : ℕ) (messages : List OpenAIMessage) : List OpenAIMessage :=
  leading messages ++ (following messages).dropLast.rtake n ++ (following messages).getLast?.toList

/-- The tokens of the contents, counted one by one. -/
def contentTokens (tokenizer : Option Tokenizer) (messages : List OpenAIMessage) : ℕ :=
  total (fun m => countAny tokenizer m.content) messages

/-- The longest window whose contents fit the budget, or the shortest one of all. -/
def longestWindow (tokenizer : Option Tokenizer) (budget : ℕ) (messages : List OpenAIMessage) :
    List OpenAIMessage :=
  window (Nat.findGreatest (fun n => contentTokens tokenizer (window n messages) ≤ budget) messages.length) messages

section Window

variable {tokenizer : Option Tokenizer} {budget n k : ℕ} {messages : List OpenAIMessage}

theorem leading_append_following (messages : List OpenAIMessage) : leading messages ++ following messages = messages := by
  unfold following leading
  cases messages with
  | nil => rfl
  | cons m rest =>
    rw [List.head?_cons, Option.filter_some]
    split_ifs <;> rfl

theorem rtake_of_length_le {α : Type*} {l : List α} (h : l.length ≤ n) : l.rtake n = l := by
  unfold List.rtake
  rw [Nat.sub_eq_zero_of_le h, List.drop_zero]

/-- A window that is long enough is the whole conversation. -/
theorem window_of_length_le (h : (following messages).dropLast.length ≤ n) : window n messages = messages := by
  unfold window
  rw [rtake_of_length_le h, List.append_assoc]
  cases hlast : (following messages).getLast? with
  | none =>
    have hwhole := leading_append_following messages
    rw [List.getLast?_eq_none_iff.mp hlast] at hwhole ⊢
    simpa using hwhole
  | some last =>
    have hne : following messages ≠ [] := fun hnil => by rw [hnil] at hlast; cases hlast
    rw [List.getLast?_eq_getLast_of_ne_nil hne] at hlast
    rw [← Option.some.inj hlast, Option.toList_some, List.dropLast_append_getLast hne]
    exact leading_append_following messages

theorem length_dropLast_following_le : (following messages).dropLast.length ≤ messages.length := by
  have hlength := congrArg List.length (leading_append_following messages)
  rw [List.length_append] at hlength
  rw [List.length_dropLast]
  omega

/-- A window is part of each longer one. -/
theorem window_sublist (h : n ≤ k) : (window n messages).Sublist (window k messages) := by
  refine ((List.Sublist.refl _).append ?_).append (List.Sublist.refl _)
  unfold List.rtake
  have hle : (following messages).dropLast.length - k ≤ (following messages).dropLast.length - n := by omega
  exact (List.drop_suffix_drop_left _ hle).sublist

/-- What a window takes: its history, beside what every window takes. -/
theorem contentTokens_window : contentTokens tokenizer (window n messages) =
    contentTokens tokenizer (window 0 messages) +
      contentTokens tokenizer ((following messages).dropLast.rtake n) := by
  unfold contentTokens window
  rw [List.rtake_zero]
  simp only [total_append, total_nil]
  omega

theorem recentHistory_eq_fitting (count : Bytes → ℕ) : ∀ (l : List OpenAIMessage) (running : ℕ),
    recentHistory count budget running l = fitting (fun m => count m.content) budget running l
  | [], _ => rfl
  | m :: older, running => by
    unfold recentHistory fitting
    rw [recentHistory_eq_fitting count older]

/-- The history that stays is an end of the history. -/
theorem reverse_recentHistory (running : ℕ) (l : List OpenAIMessage) :
    (recentHistory (countAny tokenizer) budget running l.reverse).reverse =
      l.rtake (room (fun m => countAny tokenizer m.content) budget running l.reverse) := by
  rw [recentHistory_eq_fitting, fitting_eq_take, List.rtake_eq_reverse_take_reverse]

/-- An end of the history is within the room if and only if its window fits. -/
theorem le_room_iff_window (hn : n ≤ (following messages).dropLast.length) :
    n ≤ room (fun m => countAny tokenizer m.content) budget (contentTokens tokenizer (window 0 messages))
        (following messages).dropLast.reverse ↔
      n = 0 ∨ contentTokens tokenizer (window n messages) ≤ budget := by
  have hhistory : total (fun m : OpenAIMessage => countAny tokenizer m.content)
      ((following messages).dropLast.reverse.take n) =
      contentTokens tokenizer ((following messages).dropLast.rtake n) := by
    rw [List.rtake_eq_reverse_take_reverse]
    exact (total_perm (List.reverse_perm _)).symm
  rw [le_room_iff (by rwa [List.length_reverse]), hhistory, ← contentTokens_window]

/-- Where the conversation does not fit, the longest window is the one that has the history with room. -/
theorem findGreatest_eq_room (hover : budget < contentTokens tokenizer messages) :
    Nat.findGreatest (fun n => contentTokens tokenizer (window n messages) ≤ budget) messages.length =
      room (fun m => countAny tokenizer m.content) budget (contentTokens tokenizer (window 0 messages))
        (following messages).dropLast.reverse := by
  have hroom : room (fun m => countAny tokenizer m.content) budget (contentTokens tokenizer (window 0 messages))
      (following messages).dropLast.reverse ≤ (following messages).dropLast.length :=
    (room_le_length _ _).trans (List.length_reverse ..).le
  refine Nat.findGreatest_eq_iff.mpr ⟨hroom.trans length_dropLast_following_le, fun hne => ?_, fun n hlt _ hfit => ?_⟩
  · exact ((le_room_iff_window hroom).mp le_rfl).resolve_left hne
  · rcases Nat.lt_or_ge (following messages).dropLast.length n with hlong | hshort
    · rw [window_of_length_le hlong.le] at hfit
      omega
    · exact absurd ((le_room_iff_window hshort).mpr (Or.inr hfit)) (Nat.not_le.mpr hlt)

theorem contentTokens_eq_sum :
    contentTokens tokenizer messages = (messages.map fun m => countAny tokenizer m.content).sum := by
  unfold contentTokens
  induction messages with
  | nil => rfl
  | cons m rest ih => rw [total_cons, ih, List.map_cons, List.sum_cons]

/-- **The sliding window is the longest window whose contents fit.** -/
theorem slidingWindow_eq_longestWindow :
    slidingWindow messages tokenizer budget = longestWindow tokenizer budget messages := by
  have hsum : contentTokens tokenizer messages = (messages.map fun m => countAny tokenizer m.content).sum :=
    contentTokens_eq_sum
  by_cases hfits : contentTokens tokenizer messages ≤ budget
  · have hwhole : window messages.length messages = messages := window_of_length_le length_dropLast_following_le
    have hgreatest : Nat.findGreatest (fun n => contentTokens tokenizer (window n messages) ≤ budget)
        messages.length = messages.length := by
      refine Nat.findGreatest_eq ?_
      rwa [hwhole]
    unfold longestWindow
    rw [hgreatest, hwhole]
    unfold slidingWindow
    exact if_pos (hsum ▸ hfits)
  · unfold longestWindow
    rw [findGreatest_eq_room (Nat.not_le.mp hfits)]
    unfold slidingWindow
    refine (if_neg (hsum ▸ hfits)).trans ?_
    have htail : (if (messages.head?.filter (·.role = ascii "system")).isSome then messages.tail else messages) =
        following messages := by
      unfold following leading
      cases messages.head?.filter (·.role = ascii "system") <;> simp
    dsimp only
    rw [htail]
    cases hlast : (following messages).getLast? with
    | none => simp [window, leading, List.getLast?_eq_none_iff.mp hlast, List.rtake]
    | some last =>
      have hrunning : ((messages.head?.filter (·.role = ascii "system")).map fun m =>
          countAny tokenizer m.content).getD 0 + countAny tokenizer last.content =
          contentTokens tokenizer (window 0 messages) := by
        unfold contentTokens window leading
        rw [hlast, List.rtake_zero]
        cases messages.head?.filter (·.role = ascii "system") <;> simp
      dsimp only
      rw [hrunning, reverse_recentHistory]
      unfold window leading
      rw [hlast]
      rfl

/-- A window that fits is part of the longest one. -/
theorem window_subset_longestWindow (h : n = 0 ∨ contentTokens tokenizer (window n messages) ≤ budget) :
    window n messages ⊆ longestWindow tokenizer budget messages := by
  rcases Nat.le_total n messages.length with hn | hn
  · refine (window_sublist ?_).subset
    rcases h with rfl | hfits
    · exact Nat.zero_le _
    · refine Nat.le_findGreatest hn ?_
      exact hfits
  · rcases h with rfl | hfits
    · exact (window_sublist (Nat.zero_le _)).subset
    · -- beyond the length every window is the whole conversation
      have hwhole : window n messages = window messages.length messages := by
        rw [window_of_length_le (length_dropLast_following_le.trans hn),
          window_of_length_le length_dropLast_following_le]
      rw [hwhole] at hfits ⊢
      refine (window_sublist (Nat.le_findGreatest le_rfl ?_)).subset
      exact hfits

/-- The longest window fits, unless no window does. -/
theorem exists_window_eq_longestWindow (tokenizer : Option Tokenizer) (budget : ℕ)
    (messages : List OpenAIMessage) : ∃ n, longestWindow tokenizer budget messages = window n messages ∧
    (n = 0 ∨ contentTokens tokenizer (window n messages) ≤ budget) := by
  obtain ⟨-, hfits, -⟩ := (Nat.findGreatest_eq_iff
    (P := fun n => contentTokens tokenizer (window n messages) ≤ budget) (k := messages.length)).mp rfl
  exact ⟨_, rfl, or_iff_not_imp_left.mpr hfits⟩

end Window

/-! ### The budget of a prompt -/

/-- The messages with the evidence of a search, if there is any. -/
def enriched (evidence : List SearchResult) (messages : List OpenAIMessage) : List OpenAIMessage :=
  if evidence = [] then messages else injectEvidence (evidenceBlock evidence) messages

/-- The conversation without repeated and empty messages, as it is compressed. -/
def cleaned (messages : List OpenAIMessage) : List OpenAIMessage := deduplicate (deduplicate messages)

/-- The prompt of the messages is within the input tokens. -/
def PromptFits (tokenizer : Option Tokenizer) (config : ModelConfig) (limit : ℕ) (messages : List OpenAIMessage) :
    Prop := countAny tokenizer (compile messages config) ≤ maxInputTokens limit

instance (tokenizer : Option Tokenizer) (config : ModelConfig) (limit : ℕ) (messages : List OpenAIMessage) :
    Decidable (PromptFits tokenizer config limit messages) :=
  inferInstanceAs (Decidable (countAny tokenizer (compile messages config) ≤ maxInputTokens limit))

/-- **The budget is met** if it can be: where the leading system message and the last message fit as a prompt, the
prompt that is made fits. -/
def MeetsBudget (messages : List OpenAIMessage) (tokenizer : Option Tokenizer) (config : ModelConfig) (limit : ℕ) :
    Prop :=
  PromptFits tokenizer config limit (window 0 messages) →
    (optimizeAndCompile messages tokenizer config limit).compiledContext.fitsBudget = true

/-- A message with the evidence appended. -/
def withEvidence (evidence : List SearchResult) (m : OpenAIMessage) : OpenAIMessage :=
  { m with content := m.content ++ ascii "\n" ++ evidenceBlock evidence }

/-- The message is in the list, as it was or with the evidence. -/
def Among (evidence : List SearchResult) (messages : List OpenAIMessage) (m : OpenAIMessage) : Prop :=
  m ∈ messages ∨ withEvidence evidence m ∈ messages

/-- **Evidence does not crowd out the conversation**: where the prompt fits without it, the prompt with it fits, and
has all messages that were kept without it. -/
def EvidenceFits (messages : List OpenAIMessage) (evidence : List SearchResult) (tokenizer : Option Tokenizer)
    (config : ModelConfig) (limit : ℕ) : Prop :=
  (optimizeAndCompile messages tokenizer config limit).compiledContext.fitsBudget = true →
    (optimizeWithEvidence messages evidence tokenizer config limit).compiledContext.fitsBudget = true ∧
      ∀ m ∈ optimize messages [] tokenizer limit, Among evidence (optimize messages evidence tokenizer limit) m

section Budget

variable {messages : List OpenAIMessage} {evidence : List SearchResult} {tokenizer : Option Tokenizer}
  {config : ModelConfig} {limit : ℕ}

/-- **What is selected** is the longest window of the cleaned conversation. -/
theorem optimize_eq_longestWindow : optimize messages evidence tokenizer limit =
    longestWindow tokenizer (maxInputTokens limit) (cleaned (enriched evidence messages)) :=
  slidingWindow_eq_longestWindow

theorem fitsBudget_iff : (optimizeAndCompile messages tokenizer config limit).compiledContext.fitsBudget = true ↔
    PromptFits tokenizer config limit (optimize messages [] tokenizer limit) := by
  rw [optimizeAndCompile_compiledContext]
  exact decide_eq_true_iff

theorem fitsBudget_withEvidence_iff :
    (optimizeWithEvidence messages evidence tokenizer config limit).compiledContext.fitsBudget = true ↔
      PromptFits tokenizer config limit (optimize messages evidence tokenizer limit) := by
  rw [optimizeWithEvidence_compiledContext]
  exact decide_eq_true_iff

end Budget

/-- **The budget is met** exactly when the longest window whose contents fit one by one fits as a prompt too. -/
theorem meetsBudget_iff (messages : List OpenAIMessage) (tokenizer : Option Tokenizer) (config : ModelConfig)
    (limit : ℕ) : MeetsBudget messages tokenizer config limit ↔
      (PromptFits tokenizer config limit (window 0 messages) → PromptFits tokenizer config limit
        (longestWindow tokenizer (maxInputTokens limit) (cleaned messages))) := by
  unfold MeetsBudget
  rw [fitsBudget_iff, optimize_eq_longestWindow]
  rfl

/-- Six short messages, counted four bytes a token: the contents are six tokens, the prompt is 51. -/
theorem not_meetsBudget_short : ¬ MeetsBudget
    [{ role := ascii "user", content := ascii "a" }, { role := ascii "user", content := ascii "b" },
      { role := ascii "user", content := ascii "c" }, { role := ascii "user", content := ascii "d" },
      { role := ascii "user", content := ascii "e" }, { role := ascii "user", content := ascii "f" }]
    none {} 64 := by
  intro h
  exact absurd (h (by decide +kernel)) (by decide +kernel)

/-- **Evidence does not crowd out the conversation** exactly when the longest window of the conversation with the
evidence fits as a prompt, and a window of it that fits, counted one by one, has the messages that were kept. -/
theorem evidenceFits_iff (messages : List OpenAIMessage) (evidence : List SearchResult)
    (tokenizer : Option Tokenizer) (config : ModelConfig) (limit : ℕ) :
    EvidenceFits messages evidence tokenizer config limit ↔
      (PromptFits tokenizer config limit (longestWindow tokenizer (maxInputTokens limit) (cleaned messages)) →
        PromptFits tokenizer config limit
            (longestWindow tokenizer (maxInputTokens limit) (cleaned (enriched evidence messages))) ∧
          ∃ n, (n = 0 ∨ contentTokens tokenizer (window n (cleaned (enriched evidence messages))) ≤
              maxInputTokens limit) ∧
            ∀ m ∈ longestWindow tokenizer (maxInputTokens limit) (cleaned messages),
              Among evidence (window n (cleaned (enriched evidence messages))) m) := by
  unfold EvidenceFits
  rw [fitsBudget_iff, fitsBudget_withEvidence_iff, optimize_eq_longestWindow, optimize_eq_longestWindow]
  refine imp_congr_right fun _ => and_congr_right fun _ => ⟨fun hkeeps => ?_, ?_⟩
  · obtain ⟨n, hlongest, hfits⟩ := exists_window_eq_longestWindow tokenizer (maxInputTokens limit)
      (cleaned (enriched evidence messages))
    exact ⟨n, hfits, fun m hm => hlongest ▸ hkeeps m hm⟩
  · rintro ⟨n, hfits, hcovers⟩ m hm
    have hsubset := window_subset_longestWindow hfits
    exact (hcovers m hm).imp (fun h => hsubset h) fun h => hsubset h

/-- A result of thirteen bytes: the prompt of one message is 52 bytes of the 128 that fit, and 131 with the
evidence. -/
theorem not_evidenceFits_result : ¬ EvidenceFits [{ role := ascii "user", content := ascii "a" }]
    [{ filePath := [], symbolName := [], content := ascii "int main() {}" }] none {} 64 := by
  intro h
  exact absurd (h (by decide +kernel)).1 (by decide +kernel)

end DenseLite.Engine.Windows
