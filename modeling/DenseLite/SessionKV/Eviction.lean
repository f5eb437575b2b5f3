import DenseLite.Infer.Reuse
import DenseLite.SessionKV.Manager

/-! # Which session is evicted

`evict_oldest_session_locked` goes over the map once. Its test for an idle session has an alternative for the first
candidate, so the first session of the map whose time is below the largest `int64_t` is taken whether or not a request
holds it, and gives way only to an idle session that is older. `evictsOldestIdle_iff` says when the session that is
evicted is the oldest idle one. -/

namespace DenseLite.SessionKV.Eviction

open DenseLite.Lib.ByteStream DenseLite.Lib.KeyMap DenseLite.Infer.State
open DenseLite.SessionKV.Manager
open DenseLite.Infer.Reuse (tinyModel)

section Scan

variable (sys : System)

/-- `last_accessed_ms` of an entry of the map. -/
def time (e : Bytes × ℕ) : ℤ := (sys.stateOf e.2).lastAccessedMs

/-- If a session is idle, an idle one that no idle one was used before is saved and erased. -/
def EvictsOldestIdle : Prop :=
  (∃ e ∈ sys.sessions, sys.idle e.2 = true) →
    ∃ e ∈ sys.sessions, sys.oldest = some e ∧ sys.idle e.2 = true ∧
      (∀ d ∈ sys.sessions, sys.idle d.2 = true → time sys e ≤ time sys d) ∧
      evictOldest sys = { sys.save e.1 e.2 with sessions := erase e.1 sys.sessions }

/-- The time of the session is below the largest `int64_t`, with which the scan begins. -/
def isCandidate (e : Bytes × ℕ) : Bool := time sys e < 2 ^ 63 - 1

theorem isCandidate_iff {e : Bytes × ℕ} : isCandidate sys e = true ↔ time sys e < 2 ^ 63 - 1 := decide_eq_true_iff

/-- The session that the scan takes first. -/
def firstCandidate : Option (Bytes × ℕ) := sys.sessions.find? (isCandidate sys)

/-- The session that the scan takes first is idle, or an idle one is older. -/
def GivesWay : Prop :=
  (∃ e ∈ sys.sessions, sys.idle e.2 = true) →
    ∃ f, firstCandidate sys = some f ∧
      (sys.idle f.2 = true ∨ ∃ d ∈ sys.sessions, sys.idle d.2 = true ∧ time sys d < time sys f)

theorem oldestLoop_cons (e : Bytes × ℕ) (es : List (Bytes × ℕ)) (oldest : Option (Bytes × ℕ)) (t : ℤ) :
    oldestLoop sys (e :: es) oldest t =
      if (sys.idle e.2 = true ∨ oldest.isNone = true) ∧ time sys e < t then oldestLoop sys es (some e) (time sys e)
      else oldestLoop sys es oldest t := by
  rw [oldestLoop]
  refine if_congr ?_ rfl rfl
  rw [Bool.and_eq_true, Bool.or_eq_true, decide_eq_true_iff, time]

/-- What the rest of the scan makes of a candidate: it stays, or an idle session that is older takes its place, and
no idle session of the rest is older than the outcome. -/
theorem oldestLoop_some : ∀ (es : List (Bytes × ℕ)) (e : Bytes × ℕ),
    ∃ v, oldestLoop sys es (some e) (time sys e) = some v ∧
      (v = e ∨ v ∈ es ∧ sys.idle v.2 = true ∧ time sys v < time sys e) ∧
      ∀ d ∈ es, sys.idle d.2 = true → time sys v ≤ time sys d
  | [], e => ⟨e, rfl, Or.inl rfl, by simp⟩
  | d :: es, e => by
    rw [oldestLoop_cons]
    by_cases hd : sys.idle d.2 = true ∧ time sys d < time sys e
    · -- an older idle session takes the place of the candidate
      rw [if_pos ⟨Or.inl hd.1, hd.2⟩]
      obtain ⟨v, hv, hwho, hmin⟩ := oldestLoop_some es d
      refine ⟨v, hv, Or.inr ?_, fun d' hd' hidle => ?_⟩
      · rcases hwho with rfl | ⟨hmem, hidle, hlt⟩
        · exact ⟨List.mem_cons_self, hd⟩
        · exact ⟨List.mem_cons_of_mem d hmem, hidle, hlt.trans hd.2⟩
      · rcases List.mem_cons.mp hd' with rfl | hd'
        · rcases hwho with rfl | ⟨-, -, hlt⟩
          · exact le_rfl
          · exact hlt.le
        · exact hmin d' hd' hidle
    · rw [if_neg fun h => hd ⟨h.1.resolve_right Bool.false_ne_true, h.2⟩]
      obtain ⟨v, hv, hwho, hmin⟩ := oldestLoop_some es e
      have hle : time sys v ≤ time sys e := by
        rcases hwho with rfl | ⟨-, -, hlt⟩
        · exact le_rfl
        · exact hlt.le
      refine ⟨v, hv, ?_, fun d' hd' hidle => ?_⟩
      · exact hwho.imp id fun h => ⟨List.mem_cons_of_mem d h.1, h.2⟩
      · rcases List.mem_cons.mp hd' with rfl | hd'
        · exact hle.trans (not_lt.mp fun hlt => hd ⟨hidle, hlt⟩)
        · exact hmin d' hd' hidle

/-- Until there is a candidate, sessions with the largest time are passed over. -/
theorem oldestLoop_none : ∀ es : List (Bytes × ℕ),
    (es.find? (isCandidate sys) = none ∧ oldestLoop sys es none (2 ^ 63 - 1) = none) ∨
      ∃ f before after, es = before ++ f :: after ∧ es.find? (isCandidate sys) = some f ∧
        (∀ d ∈ before, ¬ time sys d < 2 ^ 63 - 1) ∧
        oldestLoop sys es none (2 ^ 63 - 1) = oldestLoop sys after (some f) (time sys f)
  | [] => Or.inl ⟨rfl, rfl⟩
  | e :: es => by
    rw [oldestLoop_cons]
    by_cases he : time sys e < 2 ^ 63 - 1
    · rw [if_pos ⟨Or.inr rfl, he⟩, List.find?_cons_of_pos ((isCandidate_iff sys).mpr he)]
      exact Or.inr ⟨e, [], es, rfl, rfl, by simp, rfl⟩
    · rw [if_neg fun h => he h.2, List.find?_cons_of_neg fun h => he ((isCandidate_iff sys).mp h)]
      rcases oldestLoop_none es with h | ⟨f, before, after, rfl, hfind, hbefore, hloop⟩
      · exact Or.inl h
      · refine Or.inr ⟨f, e :: before, after, rfl, hfind, fun d hd => ?_, hloop⟩
        rcases List.mem_cons.mp hd with rfl | hd
        · exact he
        · exact hbefore d hd

end Scan

/-- **The oldest idle session is evicted** exactly when the scan begins with an idle session or with one that an idle
session was used before. -/
theorem evictsOldestIdle_iff (sys : System) : EvictsOldestIdle sys ↔ GivesWay sys := by
  unfold EvictsOldestIdle GivesWay firstCandidate
  refine imp_congr_right fun _ => ?_
  rcases oldestLoop_none sys sys.sessions with ⟨hfind, hloop⟩ | ⟨f, before, after, hsplit, hfind, hbefore, hloop⟩
  · -- every time is the largest one, and nothing is evicted
    refine iff_of_false ?_ ?_
    · rintro ⟨e, -, hold, -⟩
      rw [System.oldest, hloop] at hold
      cases hold
    · rintro ⟨f, hf, -⟩
      rw [hfind] at hf
      cases hf
  · obtain ⟨v, hv, hwho, hmin⟩ := oldestLoop_some sys after f
    have hold : sys.oldest = some v := hloop.trans hv
    have hlt : time sys f < 2 ^ 63 - 1 := (isCandidate_iff sys).mp (List.find?_some hfind)
    have hmem : ∀ d, d ∈ sys.sessions ↔ d ∈ before ∨ d = f ∨ d ∈ after := by
      intro d
      rw [hsplit, List.mem_append, List.mem_cons]
    have hle : time sys v ≤ time sys f := by
      rcases hwho with rfl | ⟨-, -, h⟩
      · exact le_rfl
      · exact h.le
    -- the outcome is idle or the first candidate, and no idle session is older
    have holdest : ∀ d ∈ sys.sessions, sys.idle d.2 = true → d ≠ f → time sys v ≤ time sys d := by
      intro d hd hidle hne
      rcases (hmem d).mp hd with hd | rfl | hd
      · have hlarge := hbefore d hd
        omega
      · exact absurd rfl hne
      · exact hmin d hd hidle
    constructor
    · rintro ⟨e, he, hsome, hidle, -, -⟩
      obtain rfl : v = e := Option.some.inj (hold.symm.trans hsome)
      refine ⟨f, hfind, ?_⟩
      rcases hwho with rfl | ⟨-, -, hvlt⟩
      · exact Or.inl hidle
      · exact Or.inr ⟨v, he, hidle, hvlt⟩
    · rintro ⟨f', hfind', hway⟩
      obtain rfl : f = f' := Option.some.inj (hfind.symm.trans hfind')
      have hidle : sys.idle v.2 = true := by
        rcases hwho with rfl | ⟨-, hidle, -⟩
        · rcases hway with hidle | ⟨d, hd, hidle, hdlt⟩
          · exact hidle
          · have hne : d ≠ v := fun h => by
              rw [h] at hdlt
              exact lt_irrefl _ hdlt
            exact absurd hdlt (not_lt.mpr (holdest d hd hidle hne))
        · exact hidle
      have hin : v ∈ sys.sessions := (hmem v).mpr (hwho.elim (fun h => Or.inr (Or.inl h)) fun h => Or.inr (Or.inr h.1))
      refine ⟨v, hin, hold, hidle, fun d hd hd' => ?_, ?_⟩
      · by_cases hne : d = f
        · rw [hne]
          exact hle
        · exact holdest d hd hd' hne
      · rw [evictOldest, hold]

/-- Two requests, of which the second has returned: the session of the first one is held, and was used before. -/
def heldFirst : System :=
  [.get (ascii "a") tinyModel 1, .get (ascii "b") tinyModel 2, .finish 1].foldl step { maxActive := 2 }

/-- The held session is evicted, although the other one is idle. -/
theorem not_evictsOldestIdle_heldFirst :
    ¬ EvictsOldestIdle heldFirst ∧ heldFirst.idle 1 = true ∧ heldFirst.idle 0 = false ∧
      heldFirst.oldest = some (ascii "a", 0) := by
  have hsessions : heldFirst.sessions = [(ascii "a", 0), (ascii "b", 1)] := by decide +kernel
  have hidle : heldFirst.idle 0 = false ∧ heldFirst.idle 1 = true := by decide +kernel
  have hold : heldFirst.oldest = some (ascii "a", 0) := by decide +kernel
  refine ⟨fun h => ?_, hidle.2, hidle.1, hold⟩
  obtain ⟨e, -, he, hidle', -⟩ := h ⟨(ascii "b", 1), by rw [hsessions]; simp, hidle.2⟩
  obtain rfl : (ascii "a", 0) = e := Option.some.inj (hold.symm.trans he)
  rw [hidle.1] at hidle'
  cases hidle'

end DenseLite.SessionKV.Eviction
