import DenseLite.Engine.Windows
import Mathlib.Data.List.Chain

/-! # Compression of a conversation

`ContextCompressor` leaves out messages twice over. `sliding_window` keeps the longest end of the history that fits
between the leading system message and the last message (`slidingWindow_spec`). `deduplicate` compares a message with
the one before it in its input, so two equal messages that stand apart by empty ones only are both kept and stand side
by side in its result (`closed_iff`).

The plan counts all system messages as mandatory; the window keeps the leading one, and a later one only together with
everything after it (`systemsSurvive_iff`). -/

namespace DenseLite.Engine.Compression

open DenseLite.Lib.ByteStream DenseLite.Lib.Greedy DenseLite.Engine.Context DenseLite.Engine.Windows
open DenseLite.Infer.State (ascii)

/-! ### The sliding window -/

/-- The messages strictly between the leading system message and the last message. -/
def between (messages : List OpenAIMessage) : List OpenAIMessage := (following messages).dropLast

/-- The last message, if it is not the leading system message. -/
def final (messages : List OpenAIMessage) : List OpenAIMessage := (following messages).getLast?.toList

section Window

variable (tokenizer : Option Tokenizer) (budget : ℕ) (messages : List OpenAIMessage)

/-- The history fits between the leading system message and the last message. -/
def HistoryFits (history : List OpenAIMessage) : Prop :=
  contentTokens tokenizer (leading messages ++ history ++ final messages) ≤ budget

/-- The history is the longest end of the messages in between that fits, or nothing if none does. -/
structure LongestHistory (history : List OpenAIMessage) : Prop where
  suffix : history <:+ between messages
  fits : history = [] ∨ HistoryFits tokenizer budget messages history
  longest : ∀ other, other <:+ between messages → HistoryFits tokenizer budget messages other →
    other.length ≤ history.length

variable {tokenizer budget messages} {n : ℕ}

theorem leading_append_between_append_final : leading messages ++ between messages ++ final messages = messages := by
  have hwhole : window (between messages).length messages = messages := window_of_length_le le_rfl
  unfold window at hwhole
  rwa [show (following messages).dropLast.rtake (between messages).length = between messages from
    rtake_of_length_le le_rfl] at hwhole

theorem rtake_length_of_suffix {α : Type*} {l s : List α} (h : s <:+ l) : l.rtake s.length = s := by
  obtain ⟨t, rfl⟩ := h
  unfold List.rtake
  rw [List.length_append, Nat.add_sub_cancel, List.drop_left]

variable (tokenizer budget messages) in
/-- The history of the longest window is the longest one that fits. -/
theorem exists_longestHistory : ∃ history, LongestHistory tokenizer budget messages history ∧
    longestWindow tokenizer budget messages = leading messages ++ history ++ final messages := by
  refine ⟨(between messages).rtake (Nat.findGreatest
    (fun n => contentTokens tokenizer (window n messages) ≤ budget) messages.length), ⟨?_, ?_, ?_⟩, rfl⟩
  · exact List.drop_suffix _ _
  · obtain ⟨-, hfits, -⟩ := (Nat.findGreatest_eq_iff
      (P := fun n => contentTokens tokenizer (window n messages) ≤ budget) (k := messages.length)).mp rfl
    rcases eq_or_ne (Nat.findGreatest (fun n => contentTokens tokenizer (window n messages) ≤ budget)
      messages.length) 0 with hzero | hne
    · rw [hzero]
      exact Or.inl (List.rtake_zero _)
    · exact Or.inr (hfits hne)
  · intro other hsuffix hfits
    have hshort : other.length ≤ (between messages).length := hsuffix.length_le
    have hwindow : contentTokens tokenizer (window other.length messages) ≤ budget := by
      unfold window
      rw [show (following messages).dropLast.rtake other.length = other from rtake_length_of_suffix hsuffix]
      exact hfits
    have hgreatest := Nat.le_findGreatest (P := fun n => contentTokens tokenizer (window n messages) ≤ budget)
      (hshort.trans length_dropLast_following_le) hwindow
    unfold List.rtake
    rw [List.length_drop]
    omega

end Window

/-- **The sliding window**: the leading system message, the longest history that fits, and the last message; within
the budget if the first and the last are, and unchanged if all messages are. -/
theorem slidingWindow_spec (messages : List OpenAIMessage) (tokenizer : Option Tokenizer) (budget : ℕ) :
    (∃ history, LongestHistory tokenizer budget messages history ∧
      slidingWindow messages tokenizer budget = leading messages ++ history ++ final messages) ∧
    (HistoryFits tokenizer budget messages [] →
      contentTokens tokenizer (slidingWindow messages tokenizer budget) ≤ budget) ∧
    (contentTokens tokenizer messages ≤ budget → slidingWindow messages tokenizer budget = messages) := by
  rw [slidingWindow_eq_longestWindow]
  obtain ⟨history, hlongest, hwindow⟩ := exists_longestHistory tokenizer budget messages
  rw [hwindow]
  refine ⟨⟨history, hlongest, rfl⟩, fun hempty => ?_, fun hall => ?_⟩
  · rcases hlongest.fits with rfl | hfits
    · exact hempty
    · exact hfits
  · -- all of the messages in between fit, so the longest history is all of them
    have hwhole : HistoryFits tokenizer budget messages (between messages) := by
      unfold HistoryFits
      rwa [leading_append_between_append_final]
    have hlength := hlongest.longest _ List.suffix_rfl hwhole
    rw [hlongest.suffix.eq_of_length_le hlength, leading_append_between_append_final]

/-! ### Duplicates -/

/-- The messages have role and content in common. -/
def Repeats (p m : OpenAIMessage) : Prop := m.role = p.role ∧ m.content = p.content

instance (p m : OpenAIMessage) : Decidable (Repeats p m) := inferInstanceAs (Decidable (_ ∧ _))

/-- The message is empty, and none of the system. -/
def Blank (m : OpenAIMessage) : Prop := m.content = [] ∧ m.role ≠ ascii "system"

/-- Deduplication is a closure: once more changes nothing, and no message of the result repeats the one before it. -/
def Closed (messages : List OpenAIMessage) : Prop :=
  deduplicate (deduplicate messages) = deduplicate messages ∧
    (deduplicate messages).IsChain fun p m => ¬ Repeats p m

/-- No message is repeated after blank messages only. -/
def Separated (messages : List OpenAIMessage) : Prop :=
  ∀ before a blanks b after, messages = before ++ a :: blanks ++ b :: after → blanks ≠ [] →
    (∀ e ∈ blanks, Blank e) → Repeats a b → Blank b

section Duplicates

variable {previous : Option OpenAIMessage} {m p : OpenAIMessage} {rest messages : List OpenAIMessage}

theorem Repeats.trans {a b c : OpenAIMessage} (h : Repeats a b) (h' : Repeats b c) : Repeats a c :=
  ⟨h'.1.trans h.1, h'.2.trans h.2⟩

theorem Repeats.symm (h : Repeats p m) : Repeats m p := ⟨h.1.symm, h.2.symm⟩

theorem Blank.of_repeats (hp : Blank p) (h : Repeats p m) : Blank m := ⟨h.2.trans hp.1, h.1 ▸ hp.2⟩

theorem forall_some {P : OpenAIMessage → Prop} : (∀ q ∈ some p, P q) ↔ P p := by simp

/-- A message that repeats the one before it, or is blank, is left out. -/
theorem deduplicateAfter_skip (h : (∃ p ∈ previous, Repeats p m) ∨ Blank m) :
    deduplicateAfter previous (m :: rest) = deduplicateAfter (some m) rest := by
  rw [deduplicateAfter]
  split_ifs with hrepeats hblank
  · rfl
  · rfl
  · rcases h with ⟨p, rfl, hm⟩ | hm
    · exact absurd (decide_eq_true hm) hrepeats
    · exact absurd hm hblank

/-- Another message is kept. -/
theorem deduplicateAfter_keep (hrepeats : ∀ p ∈ previous, ¬ Repeats p m) (hblank : ¬ Blank m) :
    deduplicateAfter previous (m :: rest) = m :: deduplicateAfter (some m) rest := by
  rw [deduplicateAfter, if_neg, if_neg (show ¬ (m.content = [] ∧ m.role ≠ ascii "system") from hblank)]
  intro h
  cases previous with
  | none => cases h
  | some p => exact hrepeats p rfl (of_decide_eq_true h)

theorem deduplicateAfter_append : ∀ (l l' : List OpenAIMessage) (previous : Option OpenAIMessage),
    deduplicateAfter previous (l ++ l') =
      deduplicateAfter previous l ++ deduplicateAfter (l.getLast?.or previous) l'
  | [], _, _ => rfl
  | m :: rest, l', previous => by
    have ih := deduplicateAfter_append rest l' (some m)
    have hlast : (m :: rest).getLast?.or previous = rest.getLast?.or (some m) := by
      rw [List.getLast?_cons]
      cases rest.getLast? <;> rfl
    rw [hlast, List.cons_append, deduplicateAfter, deduplicateAfter]
    split_ifs
    · exact ih
    · exact ih
    · rw [ih, List.cons_append]

theorem not_blank_of_mem_deduplicateAfter : ∀ (l : List OpenAIMessage) (previous : Option OpenAIMessage),
    ∀ m ∈ deduplicateAfter previous l, ¬ Blank m
  | [], _, m, hm => by cases hm
  | a :: rest, previous, m, hm => by
    rw [deduplicateAfter] at hm
    split_ifs at hm with hrepeats hblank
    · exact not_blank_of_mem_deduplicateAfter rest _ m hm
    · exact not_blank_of_mem_deduplicateAfter rest _ m hm
    · rcases List.mem_cons.mp hm with rfl | hm
      · exact hblank
      · exact not_blank_of_mem_deduplicateAfter rest _ m hm

/-- What has neither blank messages nor repetitions stays as it is. -/
theorem deduplicateAfter_eq_self : ∀ (l : List OpenAIMessage) (previous : Option OpenAIMessage),
    (previous.toList ++ l).IsChain (fun p m => ¬ Repeats p m) → (∀ m ∈ l, ¬ Blank m) → deduplicateAfter previous l = l
  | [], _, _, _ => rfl
  | m :: rest, previous, hchain, hblank => by
    have hrepeats : ∀ p ∈ previous, ¬ Repeats p m := by
      rintro p hp
      rw [Option.mem_def.mp hp] at hchain
      exact (List.isChain_cons_cons.mp hchain).1
    have hrest : (m :: rest).IsChain fun p m => ¬ Repeats p m := (List.isChain_append.mp hchain).2.1
    rw [deduplicateAfter_keep hrepeats (hblank m List.mem_cons_self),
      deduplicateAfter_eq_self rest (some m) hrest fun a ha => hblank a (List.mem_cons_of_mem m ha)]

/-- The last message that is kept repeats the last message, unless that is blank. -/
theorem exists_getLast_deduplicateAfter (l : List OpenAIMessage) (hblank : ¬ Blank m) :
    ∃ k ∈ (deduplicateAfter none (l ++ [m])).getLast?, Repeats k m := by
  induction l using List.reverseRecOn generalizing m with
  | nil =>
    have hkeep : ∀ p ∈ (none : Option OpenAIMessage), ¬ Repeats p m := nofun
    rw [List.nil_append, deduplicateAfter_keep hkeep hblank]
    exact ⟨m, rfl, rfl, rfl⟩
  | append_singleton l a ih =>
    rw [deduplicateAfter_append, List.getLast?_concat, Option.some_or]
    by_cases hrepeats : Repeats a m
    · obtain ⟨k, hk, hka⟩ := ih fun ha => hblank (ha.of_repeats hrepeats)
      rw [deduplicateAfter_skip (Or.inl ⟨a, rfl, hrepeats⟩)]
      refine ⟨k, ?_, hka.trans hrepeats⟩
      rwa [show deduplicateAfter (some m) [] = [] from rfl, List.append_nil]
    · rw [deduplicateAfter_keep (forall_some.mpr hrepeats) hblank]
      exact ⟨m, by simp [deduplicateAfter], rfl, rfl⟩

/-- Blank messages are left out. -/
theorem deduplicateAfter_blanks : ∀ (blanks : List OpenAIMessage) (previous : Option OpenAIMessage),
    (∀ e ∈ blanks, Blank e) → deduplicateAfter previous blanks = []
  | [], _, _ => rfl
  | e :: blanks, previous, h => by
    rw [deduplicateAfter_skip (Or.inr (h e List.mem_cons_self))]
    exact deduplicateAfter_blanks blanks _ fun e' h' => h e' (List.mem_cons_of_mem e h')

/-- **Separated messages leave no repetitions**: `k` is the last message that was kept, `a` one that it is repeated as,
with blank messages behind it. -/
theorem isChain_of_separated (h : Separated messages) : ∀ (l before blanks : List OpenAIMessage) (k a : OpenAIMessage),
    messages = before ++ a :: blanks ++ l → (∀ e ∈ blanks, Blank e) → Repeats k a →
      (k :: deduplicateAfter (a :: blanks).getLast? l).IsChain fun p m => ¬ Repeats p m
  | [], _, _, k, _, _, _, _ => List.isChain_singleton k
  | m :: rest, before, blanks, k, a, hmessages, hblanks, hka => by
    by_cases hblank : Blank m
    · rw [deduplicateAfter_skip (Or.inr hblank)]
      have ih := isChain_of_separated h rest before (blanks ++ [m]) k a (by rw [hmessages]; simp) ?_ hka
      · rwa [← List.cons_append, List.getLast?_concat] at ih
      · intro e he
        rcases List.mem_append.mp he with he | he
        · exact hblanks e he
        · rwa [List.mem_singleton.mp he]
    · rcases eq_or_ne blanks [] with rfl | hne
      · rw [List.getLast?_singleton]
        by_cases ham : Repeats a m
        · rw [deduplicateAfter_skip (Or.inl ⟨a, rfl, ham⟩)]
          exact isChain_of_separated h rest (before ++ [a]) [] k m (by rw [hmessages]; simp) nofun (hka.trans ham)
        · rw [deduplicateAfter_keep (forall_some.mpr ham) hblank]
          refine List.isChain_cons_cons.mpr ⟨fun hkm => ham (hka.symm.trans hkm), ?_⟩
          exact isChain_of_separated h rest (before ++ [a]) [] m m (by rw [hmessages]; simp) nofun ⟨rfl, rfl⟩
      · -- the message before is blank, and the last one that was kept is not repeated
        have hkeep : ∀ p ∈ (a :: blanks).getLast?, ¬ Repeats p m := by
          intro p hp hpm
          rw [List.getLast?_cons_of_ne_nil hne] at hp
          exact hblank ((hblanks p (List.mem_of_mem_getLast? hp)).of_repeats hpm)
        rw [deduplicateAfter_keep hkeep hblank]
        refine List.isChain_cons_cons.mpr ⟨fun hkm => ?_, ?_⟩
        · exact hblank (h before a blanks m rest hmessages hne hblanks (hka.symm.trans hkm))
        · exact isChain_of_separated h rest (before ++ a :: blanks) [] m m (by rw [hmessages]; simp) nofun ⟨rfl, rfl⟩

/-- Separated messages are deduplicated without repetitions, blank ones at the front included. -/
theorem isChain_deduplicateAfter (h : Separated messages) : ∀ (l blanks : List OpenAIMessage),
    messages = blanks ++ l → (∀ e ∈ blanks, Blank e) →
      (deduplicateAfter blanks.getLast? l).IsChain fun p m => ¬ Repeats p m
  | [], _, _, _ => List.isChain_nil
  | m :: rest, blanks, hmessages, hblanks => by
    by_cases hblank : Blank m
    · rw [deduplicateAfter_skip (Or.inr hblank)]
      have ih := isChain_deduplicateAfter h rest (blanks ++ [m]) (by rw [hmessages]; simp) ?_
      · rwa [List.getLast?_concat] at ih
      · intro e he
        rcases List.mem_append.mp he with he | he
        · exact hblanks e he
        · rwa [List.mem_singleton.mp he]
    · have hkeep : ∀ p ∈ blanks.getLast?, ¬ Repeats p m := fun p hp hpm =>
        hblank ((hblanks p (List.mem_of_mem_getLast? hp)).of_repeats hpm)
      rw [deduplicateAfter_keep hkeep hblank]
      exact isChain_of_separated h rest blanks [] m m (by rw [hmessages]; simp) nofun ⟨rfl, rfl⟩

/-- A message that is repeated after blank messages only stands beside its repetition. -/
theorem separated_of_isChain (h : (deduplicateAfter none messages).IsChain fun p m => ¬ Repeats p m) :
    Separated messages := by
  rintro before a blanks b after rfl hne hblanks hab
  by_contra hb
  have hlast : (a :: blanks).getLast? = blanks.getLast? := List.getLast?_cons_of_ne_nil hne
  have hkeep : ∀ p ∈ (before ++ a :: blanks).getLast?.or none, ¬ Repeats p b := by
    intro p hp hpb
    rw [Option.or_none, List.getLast?_append_of_ne_nil _ (List.cons_ne_nil a blanks), hlast] at hp
    exact hb ((hblanks p (List.mem_of_mem_getLast? hp)).of_repeats hpb)
  obtain ⟨k, hk, hka⟩ := exists_getLast_deduplicateAfter before fun ha => hb (ha.of_repeats hab)
  have hfront : deduplicateAfter none (before ++ a :: blanks) = deduplicateAfter none (before ++ [a]) := by
    rw [show before ++ a :: blanks = before ++ [a] ++ blanks by simp, deduplicateAfter_append,
      deduplicateAfter_blanks blanks _ hblanks, List.append_nil]
  rw [deduplicateAfter_append, hfront, deduplicateAfter_keep hkeep hb, List.isChain_append] at h
  exact h.2.2 k hk b rfl (hka.trans hab)

theorem deduplicate_eq_self (h : messages.IsChain fun p m => ¬ Repeats p m) (hblank : ∀ m ∈ messages, ¬ Blank m) :
    deduplicate messages = messages := by
  unfold deduplicate
  split_ifs
  · rfl
  · exact deduplicateAfter_eq_self messages none h hblank

end Duplicates

/-- **Deduplication is a closure** exactly on the conversations in which no message is repeated after blank messages
only. -/
theorem closed_iff (messages : List OpenAIMessage) : Closed messages ↔ Separated messages := by
  unfold Closed
  rcases Nat.lt_or_ge 1 messages.length with hlong | hshort
  · have hdeduplicate : deduplicate messages = deduplicateAfter none messages := if_neg (Nat.not_le.mpr hlong)
    rw [hdeduplicate]
    constructor
    · exact fun h => separated_of_isChain h.2
    · intro h
      have hchain := isChain_deduplicateAfter h messages [] rfl nofun
      exact ⟨deduplicate_eq_self hchain (not_blank_of_mem_deduplicateAfter messages none), hchain⟩
  · have hdeduplicate : deduplicate messages = messages := if_pos hshort
    rw [hdeduplicate, hdeduplicate]
    refine iff_of_true ⟨rfl, ?_⟩ ?_
    · rcases messages with - | ⟨m, - | ⟨m', rest⟩⟩
      · exact List.isChain_nil
      · exact List.isChain_singleton m
      · simp at hshort
    · rintro before a blanks b after rfl
      simp at hshort
      omega

/-- A message, an empty one, and the first once more. -/
theorem not_closed_apart : ¬ Closed [{ role := ascii "user", content := ascii "a" },
    { role := ascii "user", content := [] }, { role := ascii "user", content := ascii "a" }] := by
  intro h
  exact absurd h.1 (by decide +kernel)

/-! ### System messages -/

section Systems

variable (messages : List OpenAIMessage) (tokenizer : Option Tokenizer) (limit : ℕ)

/-- The tokens of the system messages and of the last message. -/
def mandatoryTokens : ℕ :=
  contentTokens tokenizer (messages.filter (·.role = ascii "system")) +
    contentTokens tokenizer (messages.getLast?.filter (·.role ≠ ascii "system")).toList

/-- A system message whose content no other message has. -/
def UniqueSystem (m : OpenAIMessage) : Prop :=
  m ∈ messages ∧ m.role = ascii "system" ∧ (messages.map (·.content)).count m.content = 1

/-- **System messages survive**: where they and the last message are within the input tokens, each of them is among the
messages that are compiled. -/
def SystemsSurvive : Prop :=
  mandatoryTokens messages tokenizer ≤ maxInputTokens limit →
    ∀ m, UniqueSystem messages m → m ∈ optimize messages [] tokenizer limit

/-- Each system message is the first or the last one of the cleaned conversation, or fits together with the leading
system message and all that comes after it. -/
def SystemsReached : Prop :=
  mandatoryTokens messages tokenizer ≤ maxInputTokens limit →
    ∀ m, UniqueSystem messages m → ∀ before after, cleaned messages = before ++ m :: after →
      before = [] ∨ after = [] ∨
        contentTokens tokenizer (leading (cleaned messages) ++ m :: after) ≤ maxInputTokens limit

variable {messages tokenizer limit} {budget n : ℕ} {m : OpenAIMessage} {before after l : List OpenAIMessage}

theorem total_sublist {l l' : List OpenAIMessage} (h : l.Sublist l') :
    contentTokens tokenizer l ≤ contentTokens tokenizer l' := by
  unfold contentTokens
  induction h with
  | slnil => exact le_rfl
  | cons a _ ih => exact ih.trans (Nat.le_add_left _ _)
  | cons_cons a _ ih => exact Nat.add_le_add_left ih _

/-- The longest window has `n` messages before the last one if that window fits, and only then. -/
theorem le_findGreatest_iff (hn : n ≠ 0) (hlength : n ≤ l.length) :
    n ≤ Nat.findGreatest (fun n => contentTokens tokenizer (window n l) ≤ budget) l.length ↔
      contentTokens tokenizer (window n l) ≤ budget := by
  constructor
  · intro hle
    obtain ⟨-, hfits, -⟩ := (Nat.findGreatest_eq_iff
      (P := fun n => contentTokens tokenizer (window n l) ≤ budget) (k := l.length)).mp rfl
    exact (total_sublist (window_sublist hle)).trans (hfits (by omega))
  · exact fun hfits => Nat.le_findGreatest hlength hfits

/-- What follows the leading system message goes on to the end. -/
theorem exists_following (hl : l = before ++ m :: after) (hbefore : before ≠ []) :
    ∃ front, following l = front ++ m :: after ∧ ∀ x ∈ leading l ++ front, x ∈ before := by
  obtain ⟨first, before', rfl⟩ := List.exists_cons_of_ne_nil hbefore
  unfold following leading
  rw [hl, List.cons_append, List.head?_cons, Option.filter_some]
  split_ifs
  · exact ⟨before', rfl, fun x hx => hx⟩
  · exact ⟨first :: before', rfl, fun x hx => hx⟩

/-- The window that begins with a message. -/
theorem window_length_after (hl : l = before ++ m :: after) (hbefore : before ≠ []) (hafter : after ≠ []) :
    window after.length l = leading l ++ m :: after := by
  obtain ⟨rest, last, rfl⟩ := after.eq_nil_or_concat'.resolve_left hafter
  obtain ⟨front, hfollowing, -⟩ := exists_following hl hbefore
  have hrtake : (front ++ m :: rest).rtake (rest ++ [last]).length = m :: rest := by
    rw [List.length_append, List.length_singleton, ← List.length_cons (a := m)]
    exact rtake_length_of_suffix (List.suffix_append _ _)
  unfold window
  rw [hfollowing, ← List.cons_append, ← List.append_assoc, List.dropLast_concat, List.getLast?_concat, hrtake,
    List.append_assoc]
  rfl

/-- A window reaches back to a message before the last one, if it has as many messages before that. -/
theorem mem_window_iff (hl : l = before ++ m :: after) (hbefore : before ≠ []) (hafter : after ≠ [])
    (hm : m ∉ before) (hm' : m ∉ after) : m ∈ window n l ↔ after.length ≤ n := by
  obtain ⟨rest, last, rfl⟩ := after.eq_nil_or_concat'.resolve_left hafter
  obtain ⟨front, hfollowing, hfront⟩ := exists_following hl hbefore
  have hlast : m ≠ last := fun heq => hm' (by simp [heq])
  have hrest : m ∉ rest := fun hmem => hm' (List.mem_append_left _ hmem)
  have hleading : m ∉ leading l := fun hmem => hm (hfront m (List.mem_append_left _ hmem))
  unfold window
  rw [hfollowing, ← List.cons_append, ← List.append_assoc, List.dropLast_concat, List.getLast?_concat,
    List.mem_append, List.mem_append, Option.toList_some, List.mem_singleton, or_iff_left hlast,
    or_iff_right hleading, List.length_append, List.length_singleton]
  unfold List.rtake
  rw [List.length_append, List.length_cons]
  rcases Nat.lt_or_ge rest.length n with hlong | hshort
  · refine iff_of_true ?_ hlong
    rw [List.drop_append_of_le_length (by omega)]
    exact List.mem_append_right _ List.mem_cons_self
  · refine iff_of_false ?_ (by omega)
    have hdrop : front.length + (rest.length + 1) - n = (front ++ [m]).length + (rest.length - n) := by
      rw [List.length_append, List.length_singleton]
      omega
    rw [hdrop, show front ++ m :: rest = front ++ [m] ++ rest by simp, List.drop_length_add_append]
    exact fun hmem => hrest (List.mem_of_mem_drop hmem)

/-- A message that stands once in a conversation, other than its first and its last one, is in the longest window if
and only if the window that begins with it fits. -/
theorem mem_longestWindow_iff (hl : l = before ++ m :: after) (hbefore : before ≠ []) (hafter : after ≠ [])
    (hm : m ∉ before) (hm' : m ∉ after) : m ∈ longestWindow tokenizer budget l ↔
      contentTokens tokenizer (leading l ++ m :: after) ≤ budget := by
  have hlength : after.length ≤ l.length := by
    rw [hl, List.length_append, List.length_cons]
    omega
  unfold longestWindow
  rw [mem_window_iff hl hbefore hafter hm hm', le_findGreatest_iff (List.length_pos_iff.mpr hafter).ne' hlength,
    window_length_after hl hbefore hafter]

/-- A leading system message and a last message are in every window. -/
theorem mem_window_of_end (hl : l = before ++ m :: after) (hrole : m.role = ascii "system")
    (h : before = [] ∨ after = []) : m ∈ window n l := by
  rcases eq_or_ne before [] with rfl | hbefore
  · refine List.mem_append_left _ (List.mem_append_left _ ?_)
    unfold leading
    rw [hl, List.nil_append, List.head?_cons, Option.filter_some, if_pos (decide_eq_true hrole)]
    exact List.mem_singleton_self m
  · obtain rfl := h.resolve_left hbefore
    obtain ⟨front, hfollowing, -⟩ := exists_following hl hbefore
    refine List.mem_append_right _ ?_
    rw [hfollowing, List.getLast?_concat]
    exact List.mem_singleton_self m

/-! ### System messages that stand once -/

theorem deduplicateAfter_sublist : ∀ (l : List OpenAIMessage) (previous : Option OpenAIMessage),
    (deduplicateAfter previous l).Sublist l
  | [], _ => List.Sublist.refl _
  | a :: rest, previous => by
    rw [deduplicateAfter]
    split_ifs
    · exact (deduplicateAfter_sublist rest _).cons a
    · exact (deduplicateAfter_sublist rest _).cons a
    · exact (deduplicateAfter_sublist rest _).cons_cons a

theorem deduplicate_sublist (l : List OpenAIMessage) : (deduplicate l).Sublist l := by
  unfold deduplicate
  split_ifs
  · exact List.Sublist.refl l
  · exact deduplicateAfter_sublist l none

/-- Of each message that is not blank, one that it repeats is kept, or is the one before. -/
theorem exists_repeats_of_mem (hblank : ¬ Blank m) : ∀ (l : List OpenAIMessage) (previous : Option OpenAIMessage),
    m ∈ l → (∃ k ∈ deduplicateAfter previous l, Repeats k m) ∨ ∃ p ∈ previous, Repeats p m
  | a :: rest, previous, hm => by
    have hself : Repeats a m → (∃ k ∈ deduplicateAfter previous (a :: rest), Repeats k m) ∨
        ∃ p ∈ previous, Repeats p m := by
      intro ham
      by_cases hprevious : ∃ p ∈ previous, Repeats p a
      · obtain ⟨p, hp, hpa⟩ := hprevious
        exact Or.inr ⟨p, hp, hpa.trans ham⟩
      · rw [deduplicateAfter_keep (fun p hp hpa => hprevious ⟨p, hp, hpa⟩) fun ha => hblank (ha.of_repeats ham)]
        exact Or.inl ⟨a, List.mem_cons_self, ham⟩
    rcases List.mem_cons.mp hm with rfl | hm
    · exact hself ⟨rfl, rfl⟩
    · rcases exists_repeats_of_mem hblank rest (some a) hm with ⟨k, hk, hkm⟩ | ⟨p, hp, hpm⟩
      · refine Or.inl ⟨k, ?_, hkm⟩
        rw [deduplicateAfter]
        split_ifs
        · exact hk
        · exact hk
        · exact List.mem_cons_of_mem a hk
      · obtain rfl := Option.some.inj hp
        exact hself hpm

theorem eq_of_count_eq_one {k : OpenAIMessage} (hm : UniqueSystem l m) (hk : k ∈ l) (h : k.content = m.content) :
    k = m := by
  obtain ⟨hmem, -, hcount⟩ := hm
  rw [List.count, List.countP_map, List.countP_eq_length_filter, List.length_eq_one_iff] at hcount
  obtain ⟨x, hx⟩ := hcount
  have honly : ∀ y ∈ l, y.content = m.content → y = x := by
    intro y hy hcontent
    refine List.mem_singleton.mp (hx ▸ List.mem_filter.mpr ⟨hy, ?_⟩)
    simpa using hcontent
  rw [honly k hk h, honly m hmem rfl]

/-- A system message that stands once is not left out as a duplicate. -/
theorem UniqueSystem.deduplicate (h : UniqueSystem l m) : UniqueSystem (deduplicate l) m := by
  have hmem : m ∈ Context.deduplicate l := by
    unfold Context.deduplicate
    split_ifs
    · exact h.1
    · rcases exists_repeats_of_mem (fun hblank => hblank.2 h.2.1) l none h.1 with ⟨k, hk, hkm⟩ | ⟨p, hp, -⟩
      · rwa [← eq_of_count_eq_one h ((deduplicateAfter_sublist l none).subset hk) hkm.2.symm]
      · cases hp
  refine ⟨hmem, h.2.1, Nat.le_antisymm ?_ (List.count_pos_iff.mpr (List.mem_map_of_mem hmem))⟩
  rw [← h.2.2]
  exact ((deduplicate_sublist l).map _).count_le _

theorem UniqueSystem.not_mem (h : UniqueSystem l m) (hl : l = before ++ m :: after) : m ∉ before ∧ m ∉ after := by
  have hcount := h.2.2
  rw [hl, List.map_append, List.map_cons, List.count_append, List.count_cons_self] at hcount
  constructor
  · intro hmem
    have hpos : 0 < (before.map (·.content)).count m.content := List.count_pos_iff.mpr (List.mem_map_of_mem hmem)
    omega
  · intro hmem
    have hpos : 0 < (after.map (·.content)).count m.content := List.count_pos_iff.mpr (List.mem_map_of_mem hmem)
    omega

end Systems

/-- **System messages survive** exactly when each of them stands at the front or at the end, or fits together with
everything after it. -/
theorem systemsSurvive_iff (messages : List OpenAIMessage) (tokenizer : Option Tokenizer) (limit : ℕ) :
    SystemsSurvive messages tokenizer limit ↔ SystemsReached messages tokenizer limit := by
  unfold SystemsSurvive SystemsReached
  rw [optimize_eq_longestWindow, show enriched [] messages = messages from if_pos rfl]
  refine imp_congr_right fun _ => forall_congr' fun m => imp_congr_right fun hm => ?_
  have hcleaned : UniqueSystem (cleaned messages) m := hm.deduplicate.deduplicate
  constructor
  · intro hmem before after hsplit
    by_cases hends : before = [] ∨ after = []
    · exact hends.imp_right Or.inl
    · obtain ⟨hbefore, hafter⟩ := not_or.mp hends
      obtain ⟨hnot, hnot'⟩ := hcleaned.not_mem hsplit
      exact Or.inr (Or.inr ((mem_longestWindow_iff hsplit hbefore hafter hnot hnot').mp hmem))
  · intro hreached
    obtain ⟨before, after, hsplit⟩ := List.append_of_mem hcleaned.1
    by_cases hends : before = [] ∨ after = []
    · exact mem_window_of_end hsplit hcleaned.2.1 hends
    · obtain ⟨hbefore, hafter⟩ := not_or.mp hends
      obtain ⟨hnot, hnot'⟩ := hcleaned.not_mem hsplit
      have hfits := ((hreached before after hsplit).resolve_left hbefore).resolve_left hafter
      exact (mem_longestWindow_iff hsplit hbefore hafter hnot hnot').mpr hfits

/-- A second system message before a long one: of the four tokens of the input it takes one, and so does the last
message. -/
theorem not_systemsSurvive_second : ¬ SystemsSurvive
    [{ role := ascii "user", content := ascii "a" }, { role := ascii "system", content := ascii "b" },
      { role := ascii "user", content := ascii "0123456789abcdef" }, { role := ascii "user", content := ascii "c" }]
    none 8 := by
  intro h
  have hmandatory := h (by decide +kernel) { role := ascii "system", content := ascii "b" }
    ⟨by decide +kernel, rfl, by decide +kernel⟩
  revert hmandatory
  decide +kernel

end DenseLite.Engine.Compression
