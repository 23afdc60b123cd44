import LosslessBasic.Proofs.Source.Position
import LosslessBasic.Source.Cursor
import Mathlib.Algebra.Group.Nat.Defs

/-!
# Where a cursor has got to

A cursor moves forward by a number of bytes or over bytes of a class, and back to positions that
were marked. Whatever the moves have been, it stands where its offset says (`Position.StandsIn`):
every move forward leads from the position of an offset to that of another one, and a mark is a
position that the cursor has been at.

## Main definitions

* `Cursor.Move` and `Cursor.Walk.run`: the moves of a cursor, and runs of them.

## Main results

* `Cursor.Walk.position_by_offset`: line and column after a run of moves are those of the offset
  reached.
-/

namespace LosslessBasic

namespace Position

/-- Whether a position is that of an offset within a source. -/
structure StandsIn (p : Position) (source : Bytes) : Prop where
  /-- The offset lies within the source, or at its end. -/
  offset_le : p.offset ≤ source.length
  /-- The line and the column are those of the offset. -/
  eq_ofOffset : p = ofOffset source p.offset

/-- The position of an offset stands in the source. -/
theorem standsIn_ofOffset {source : Bytes} {n : Nat} (hn : n ≤ source.length) :
    (ofOffset source n).StandsIn source :=
  ⟨hn, rfl⟩

/-- The beginning of a source is the position of its first offset. -/
theorem standsIn_start (source : Bytes) : ({} : Position).StandsIn source := by
  have hstart : ({} : Position) = ofOffset source 0 := by
    rw [← after_start (Nat.zero_le _)]
    rfl
  rw [hstart]
  exact standsIn_ofOffset (Nat.zero_le _)

/-- There is no way behind the end of the bytes. -/
theorem after_min (p : Position) (n : Nat) (bytes : Bytes) :
    p.after (min n bytes.length) bytes = p.after n bytes := by
  induction bytes generalizing p n with
  | nil => cases n <;> simp [after]
  | cons c rest ih =>
    cases n with
    | zero => simp [after]
    | succ n => simpa [after] using ih (p.step c rest.head?) n

/-- A walk over the bytes behind an offset leads to the position of a later offset. -/
theorem after_ofOffset {source : Bytes} {n : Nat} (hn : n ≤ source.length) (count : Nat) :
    (ofOffset source n).after count (source.drop n) =
      ofOffset source (min (n + count) source.length) := by
  rw [← after_start hn, after_after, ← after_min, after_start (Nat.min_le_right _ _)]

end Position

namespace Cursor

variable {c : Cursor}

/-- How far a cursor advances. -/
theorem position_advance (h : c.position.StandsIn c.source) (count : Nat) :
    (c.advance count).position =
      .ofOffset c.source (min (c.position.offset + count) c.source.length) := by
  rw [advance, rest]
  dsimp only
  rw [← Position.after_ofOffset h.offset_le, ← h.eq_ofOffset]

theorem standsIn_advance (h : c.position.StandsIn c.source) (count : Nat) :
    (c.advance count).position.StandsIn c.source := by
  rw [position_advance h]
  exact Position.standsIn_ofOffset (Nat.min_le_right _ _)

/-- Two advances are one, wherever the first of them ends. -/
theorem advance_advance (h : c.position.StandsIn c.source) (m n : Nat) :
    (c.advance m).advance n = c.advance (m + n) := by
  have hrest : (c.advance m).rest = c.rest.drop m := by
    have hoffset : (c.advance m).position.offset = min (c.position.offset + m) c.source.length := by
      rw [position_advance h]
      rfl
    rw [rest, hoffset, rest, List.drop_drop]
    change c.source.drop _ = _
    rcases Nat.le_total (c.position.offset + m) c.source.length with hle | hle
    · rw [Nat.min_eq_left hle]
    · -- both of them are at the end of the source
      rw [Nat.min_eq_right hle, List.drop_length, List.drop_eq_nil_of_le hle]
  rw [advance, hrest]
  simp only [advance, Position.after_after]

/-! ## Runs of moves -/

/-- A move of a cursor. -/
inductive Move where
  /-- Forward over a number of bytes. -/
  | advance (count : Nat)
  /-- Forward over the bytes of a class. -/
  | advanceWhile (inClass : UInt8 → Bool)
  /-- Not at all, but the position is marked. -/
  | mark
  /-- Back to the position that was marked as number `index`; nothing happens where there is
  none. -/
  | reset (index : Nat)
  /-- Back to the beginning. -/
  | resetToStart

/-- A cursor on its way, with the positions that were marked. -/
structure Walk where
  /-- The cursor. -/
  cursor : Cursor
  /-- The marked positions, the first mark first. -/
  marks : List Position := []

namespace Walk

/-- A walk that is about to begin. -/
def start (source : Bytes) (file : UInt32) : Walk where
  cursor := { source := source, file := file }

/-- The walk one move further. -/
def make (w : Walk) : Move → Walk
  | .advance count => { w with cursor := w.cursor.advance count }
  | .advanceWhile inClass => { w with cursor := (w.cursor.advanceWhile inClass).2 }
  | .mark => { w with marks := w.marks ++ [w.cursor.position] }
  | .reset index =>
    match w.marks[index]? with
    | none => w
    | some mark => { w with cursor := w.cursor.reset mark }
  | .resetToStart => { w with cursor := w.cursor.resetToStart }

/-- The walk some moves further. -/
def run (w : Walk) (moves : List Move) : Walk := moves.foldl make w

/-- Whether the cursor and the marks of a walk stand where their offsets say. -/
structure InStep (source : Bytes) (file : UInt32) (w : Walk) : Prop where
  /-- The source stays. -/
  source_eq : w.cursor.source = source
  /-- The number of the file stays. -/
  file_eq : w.cursor.file = file
  /-- The cursor stands in the source. -/
  standsIn : w.cursor.position.StandsIn source
  /-- The marks stand in the source. -/
  marks : ∀ m ∈ w.marks, m.StandsIn source

variable {source : Bytes} {file : UInt32} {w : Walk}

theorem inStep_start (source : Bytes) (file : UInt32) : (start source file).InStep source file where
  source_eq := rfl
  file_eq := rfl
  standsIn := Position.standsIn_start source
  marks := by simp [start]

/-- A cursor that is moved to a position in its source stays in step. -/
theorem InStep.move (h : w.InStep source file) {p : Position} (hp : p.StandsIn source) :
    { w with cursor := { w.cursor with position := p } }.InStep source file where
  source_eq := h.source_eq
  file_eq := h.file_eq
  standsIn := hp
  marks := h.marks

theorem InStep.advance (h : w.InStep source file) (count : Nat) :
    { w with cursor := w.cursor.advance count }.InStep source file := by
  obtain rfl := h.source_eq
  exact h.move (standsIn_advance h.standsIn count)

/-- A walk in step stays in step with every move. -/
theorem InStep.make (h : w.InStep source file) (move : Move) :
    (w.make move).InStep source file := by
  cases move with
  | advance count => exact h.advance count
  | advanceWhile inClass => exact h.advance _
  | mark =>
    refine ⟨h.source_eq, h.file_eq, h.standsIn, ?_⟩
    intro m hm
    rcases List.mem_append.mp hm with hold | hnew
    · exact h.marks m hold
    · obtain rfl := List.mem_singleton.mp hnew
      exact h.standsIn
  | reset index =>
    rw [Walk.make]
    split
    next => exact h
    next mark hmark => exact h.move (h.marks mark (List.mem_of_getElem? hmark))
  | resetToStart => exact h.move (Position.standsIn_start source)

/-- A walk in step stays in step with any moves. -/
theorem InStep.run (h : w.InStep source file) (moves : List Move) :
    (w.run moves).InStep source file := by
  induction moves generalizing w with
  | nil => exact h
  | cons move moves ih => exact ih (h.make move)

/-- A cursor in step is known by its offset. -/
theorem InStep.cursor_eq (h : w.InStep source file) :
    w.cursor =
      { source := source, file := file,
        position := .ofOffset source w.cursor.position.offset } := by
  rw [← h.standsIn.eq_ofOffset, ← h.source_eq, ← h.file_eq]

/-- After a run of moves the cursor stands at an offset of the source, at its end at most. Its line
is one more than the line breaks completed in front of the offset, its column one more than the
characters behind the last of them, and two runs that lead to the same offset lead to the same
cursor. The words of its location hold these numbers modulo `2 ^ 32`, so they hold the numbers
themselves in a text of fewer than `2 ^ 32 - 1` bytes. From there, two advances are one, between a
carriage return and its line feed as well. -/
theorem position_by_offset (source : Bytes) (file : UInt32) (moves : List Move) :
    let c := ((start source file).run moves).cursor
    c.position.offset ≤ source.length ∧
      c.position.line = 1 + source.breaksBefore c.position.offset ∧
      c.position.column = 1 + source.columnsBefore c.position.offset ∧
      (c.position.locate file).line.toNat = (1 + source.breaksBefore c.position.offset) % 2 ^ 32 ∧
      (c.position.locate file).column.toNat =
        (1 + source.columnsBefore c.position.offset) % 2 ^ 32 ∧
      (∀ moves', ((start source file).run moves').cursor.position.offset = c.position.offset →
        ((start source file).run moves').cursor = c) ∧
      (∀ n, (c.advance n).position.offset = min (c.position.offset + n) source.length) ∧
      ∀ m n, (c.advance m).advance n = c.advance (m + n) := by
  intro c
  -- all of it follows from one invariant: the cursor stands where its offset says
  have hstep : ((start source file).run moves).InStep source file :=
    (inStep_start source file).run moves
  have hstands : c.position.StandsIn c.source := hstep.source_eq.symm ▸ hstep.standsIn
  have hline : c.position.line = 1 + source.breaksBefore c.position.offset :=
    congrArg Position.line hstep.standsIn.eq_ofOffset
  have hcolumn : c.position.column = 1 + source.columnsBefore c.position.offset :=
    congrArg Position.column hstep.standsIn.eq_ofOffset
  refine ⟨hstep.standsIn.offset_le, hline, hcolumn, ?_, ?_, ?_, ?_, advance_advance hstands⟩
  · rw [← hline]
    exact UInt32.toNat_ofNat'
  · rw [← hcolumn]
    exact UInt32.toNat_ofNat'
  · intro moves' hoffset
    have hstep' : ((start source file).run moves').InStep source file :=
      (inStep_start source file).run moves'
    rw [hstep'.cursor_eq, hoffset, ← hstep.cursor_eq]
  · intro n
    rw [position_advance hstands, hstep.source_eq]
    rfl

/-- The offset between a carriage return and its line feed is on the line that they end. -/
example :
    ((start [0x61, 0x0D, 0x0A, 0x62] 1).run [.advance 3, .mark, .advanceWhile fun _ => true,
      .resetToStart, .advance 2]).cursor.position = { offset := 2, line := 1, column := 2 } := by
  decide

end Walk

end Cursor

end LosslessBasic
