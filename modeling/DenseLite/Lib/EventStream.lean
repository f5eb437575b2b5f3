import Mathlib.Data.UInt
import Mathlib.Data.List.Basic
import Mathlib.Tactic.Common

/-! # Event streams

What a client reads from a stream of server-sent events. A line ends with a line feed, a carriage return or both; a line
`data: ` adds to the data of the event that has begun, an empty line ends the event, and an event without data is
dropped. Fields other than `data` are read over. The reader takes byte after byte, so it does not depend on how the stream
is cut into pieces (`read_append`). -/

namespace DenseLite.Lib.EventStream

/-- The line and the data so far, and whether the last byte was a carriage return. -/
structure State where
  line : List UInt8
  data : List UInt8
  cr : Bool
deriving DecidableEq, Repr

/-- Between two events. -/
def fresh : State := ⟨[], [], false⟩

/-- The name of the field of a line. -/
def name (line : List UInt8) : List UInt8 := line.takeWhile (· ≠ 0x3a)

/-- The value of the field, without one space behind the colon. -/
def value (line : List UInt8) : List UInt8 :=
  let v := (line.dropWhile (· ≠ 0x3a)).drop 1
  if v.head? = some 0x20 then v.drop 1 else v

/-- The name of the field with the data. -/
def dataName : List UInt8 := [0x64, 0x61, 0x74, 0x61]

/-- The end of a line, and the event that ends with it. -/
def endLine (q : State) : State × List (List UInt8) :=
  if q.line = [] then (fresh, if q.data = [] then [] else [q.data.dropLast])
  else (⟨[], if name q.line = dataName then q.data ++ value q.line ++ [0x0a] else q.data, false⟩, [])

/-- One byte. -/
def step (q : State) (c : UInt8) : State × List (List UInt8) :=
  if c = 0x0a then if q.cr then ({ q with cr := false }, []) else endLine q
  else if c = 0x0d then ({ (endLine q).1 with cr := true }, (endLine q).2)
  else (⟨q.line ++ [c], q.data, false⟩, [])

/-- The bytes of a stream. -/
def read : State → List UInt8 → State × List (List UInt8)
  | q, [] => (q, [])
  | q, c :: text => ((read (step q c).1 text).1, (step q c).2 ++ (read (step q c).1 text).2)

/-- The data of the events. -/
def events (text : List UInt8) : List (List UInt8) := (read fresh text).2

theorem read_append (q : State) (s t : List UInt8) :
    read q (s ++ t) = ((read (read q s).1 t).1, (read q s).2 ++ (read (read q s).1 t).2) := by
  induction s generalizing q with
  | nil => rfl
  | cons c s ih => rw [List.cons_append, read, ih, read, List.append_assoc]

/-! ### Frames -/

/-- A text that is one line. -/
def OneLine (s : List UInt8) : Prop := ∀ c ∈ s, c ≠ 0x0a ∧ c ≠ 0x0d

/-- The event with this data. -/
def frame (s : List UInt8) : List UInt8 := dataName ++ [0x3a, 0x20] ++ s ++ [0x0a, 0x0a]

theorem read_oneLine : ∀ {s : List UInt8}, OneLine s → ∀ line data : List UInt8,
    read ⟨line, data, false⟩ s = (⟨line ++ s, data, false⟩, [])
  | [], _, line, data => by rw [List.append_nil]; rfl
  | c :: s, h, line, data => by
    have hc := h c List.mem_cons_self
    have hs : OneLine s := fun x hx => h x (List.mem_cons_of_mem c hx)
    rw [read, step, if_neg hc.1, if_neg hc.2, read_oneLine hs, List.append_assoc]
    rfl

theorem value_dataLine (s : List UInt8) :
    name (dataName ++ [0x3a, 0x20] ++ s) = dataName ∧ value (dataName ++ [0x3a, 0x20] ++ s) = s := by
  simp [name, value, dataName]

/-- The end of a line with data, and the end of its event. -/
theorem read_end {line : List UInt8} (hne : line ≠ []) (hname : name line = dataName) :
    read ⟨line, [], false⟩ [0x0a, 0x0a] = (fresh, [value line]) := by
  simp [read, step, endLine, hne, hname]

/-- **A frame is read as one event, whatever comes behind it.** -/
theorem read_frame {s : List UInt8} (h : OneLine s) (rest : List UInt8) :
    read fresh (frame s ++ rest) = ((read fresh rest).1, s :: (read fresh rest).2) := by
  have hline : OneLine (dataName ++ [0x3a, 0x20] ++ s) := by
    intro c hc
    rcases List.mem_append.mp hc with hc | hc
    · exact (show OneLine (dataName ++ [0x3a, 0x20]) from by unfold OneLine; decide +kernel) c hc
    · exact h c hc
  have hend := read_end (by simp [dataName]) (value_dataLine s).1
  rw [(value_dataLine s).2] at hend
  rw [frame, List.append_assoc, read_append, fresh, read_oneLine hline, List.nil_append, List.nil_append, read_append,
    hend]
  rfl

/-- The events of a stream of frames. -/
theorem events_frames : ∀ {ss : List (List UInt8)}, (∀ s ∈ ss, OneLine s) → events (ss.flatMap frame) = ss
  | [], _ => rfl
  | s :: ss, h => by
    have ih : (read fresh (ss.flatMap frame)).2 = ss := events_frames fun x hx => h x (List.mem_cons_of_mem s hx)
    rw [events, List.flatMap_cons, read_frame (h s List.mem_cons_self), ih]

end DenseLite.Lib.EventStream
