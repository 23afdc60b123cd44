import LosslessBasic.Proofs.Document
import LosslessBasic.Proofs.Source.Position
import LosslessBasic.Proofs.Text.CodePoints

/-!
# The location of an encoding failure

A source in which no character starts at some offset has one failure, on the line that a reader of
the source reaches there. Its column counts bytes: it is larger than the column of the reader by the
number of continuation bytes in front of it on the line (`Document.encodingFailure_location`).
-/

namespace LosslessBasic

open Bytes Ascii

namespace Utf8

/-- At the offset where a text goes wrong there is no ASCII byte. -/
theorem not_ascii_of_firstInvalid? {x : Bytes} {k : Nat} (h : firstInvalid? x = some k) {c : UInt8}
    (hc : x[k]? = some c) : ¬ c < 0x80 := by
  intro hascii
  obtain ⟨-, -, hno⟩ := firstInvalid?_eq_some_iff.mp h
  have hnone : scalarWidth? (x.drop k) = none := scalarWidth?_eq_none_iff.mpr hno
  obtain ⟨hlt, rfl⟩ := List.getElem?_eq_some_iff.mp hc
  rw [List.drop_eq_getElem_cons hlt, scalarWidth?_of_ascii hascii] at hnone
  cases hnone

end Utf8

namespace Bytes

variable {source : Bytes} {k : Nat}

/-- What stands behind an offset matters to the line breaks in front of it only where it begins with
a line feed. -/
theorem completesBreak_take (hk : source[k]? ≠ some lineFeed) {i : Nat} (hi : i < k) :
    completesBreak (source.take k) i = source.completesBreak i := by
  have hhere : (source.take k)[i]? = source[i]? := by rw [List.getElem?_take, if_pos hi]
  by_cases hnext : i + 1 < k
  · have hthere : (source.take k)[i + 1]? = source[i + 1]? := by
      rw [List.getElem?_take, if_pos hnext]
    rw [completesBreak, completesBreak, hhere, hthere]
  · obtain rfl : k = i + 1 := by omega
    have hnone : (source.take (i + 1))[i + 1]? = none := by
      rw [List.getElem?_take, if_neg (Nat.lt_irrefl _)]
    have hother : (source[i + 1]? != some lineFeed) = true := by simpa using hk
    rw [completesBreak, completesBreak, hhere, hnone, hother]
    rfl

theorem breaksBefore_take (hk : source[k]? ≠ some lineFeed) :
    breaksBefore (source.take k) k = source.breaksBefore k := by
  unfold breaksBefore
  refine List.countP_congr fun i hi => ?_
  rw [completesBreak_take hk (List.mem_range.mp hi)]

theorem lineStart_take (hk : source[k]? ≠ some lineFeed) :
    lineStart (source.take k) k = source.lineStart k := by
  have hall : ∀ n ≤ k, lineStart (source.take k) n = source.lineStart n := by
    intro n hn
    induction n with
    | zero => rfl
    | succ n ih => rw [lineStart, lineStart, completesBreak_take hk (by omega), ih (by omega)]
  exact hall k (Nat.le_refl k)

/-- The first line starts with the source. -/
theorem lineStart_eq_zero {n : Nat} (h : source.breaksBefore n = 0) : source.lineStart n = 0 := by
  induction n with
  | zero => rfl
  | succ n ih =>
    rw [breaksBefore_succ] at h
    cases hbreak : source.completesBreak n with
    | true =>
      rw [hbreak, if_pos rfl] at h
      cases h
    | false =>
      rw [hbreak, if_neg Bool.false_ne_true] at h
      rw [lineStart, hbreak, if_neg Bool.false_ne_true]
      exact ih h

end Bytes

namespace Document

/-- A byte that completes a line break leads to the next line, any other one on along the line. Only
a carriage return in front of a line feed takes no column, and the line ends behind it. -/
theorem byteLocation_cons (file : UInt32) (line column : Nat) (c : UInt8) (rest : Bytes) :
    byteLocation file line column (c :: rest) =
      if completesBreak (c :: rest) 0 then byteLocation file (line + 1) 1 rest
      else if rest.head? = some lineFeed ∧ c = carriageReturn then
        byteLocation file line column rest
      else byteLocation file line (column + 1) rest := by
  rw [byteLocation, completesBreak_cons_zero]
  by_cases hfeed : c = lineFeed
  · subst hfeed
    rfl
  · by_cases hreturn : c = carriageReturn
    · have hother : carriageReturn ≠ lineFeed := by decide
      by_cases hnext : rest.head? = some lineFeed <;>
        simp [isLineBreak, hreturn, hnext, hother]
    · simp [isLineBreak, hfeed, hreturn]

/-- Where bytes lead to from a line and a column: on the first line the column goes on, on any other
one it counts the bytes from the start of the line on. -/
theorem byteLocation_eq (file : UInt32) (line column : Nat) (x : Bytes) :
    byteLocation file line column x =
      { file := file
        line := (line + breaksBefore x x.length).toUInt32
        column := ((if breaksBefore x x.length = 0 then column else 1) +
          (x.length - lineStart x x.length)).toUInt32 } := by
  induction x generalizing line column with
  | nil => rfl
  | cons c rest ih =>
    have hle := lineStart_le rest rest.length
    have hstart : breaksBefore rest rest.length = 0 → lineStart rest rest.length = 0 :=
      lineStart_eq_zero
    rw [List.length_cons, breaksBefore_cons, lineStart_cons, byteLocation_cons]
    -- the columns start anew behind a break, so the column so far counts only where none is
    -- completed
    cases hfirst : completesBreak (c :: rest) 0 with
    | true =>
      have hbreaks : ¬ 1 + breaksBefore rest rest.length = 0 := by omega
      have hstarts : true = true ∨ 0 < breaksBefore rest rest.length := .inl rfl
      rw [if_pos rfl, ih, if_pos rfl, if_pos hstarts, ite_self, if_neg hbreaks, Nat.add_assoc,
        Nat.add_sub_add_right]
    | false =>
      rw [if_neg Bool.false_ne_true, if_neg Bool.false_ne_true, Nat.zero_add]
      by_cases hbreaks : breaksBefore rest rest.length = 0
      · -- the first line goes on, so that no line feed is next
        have hnext : ¬ (rest.head? = some lineFeed ∧ c = carriageReturn) := by
          rintro ⟨hnext, -⟩
          obtain ⟨more, rfl⟩ := List.head?_eq_some_iff.mp hnext
          rw [List.length_cons, breaksBefore_cons] at hbreaks
          have hfeed : completesBreak (lineFeed :: more) 0 = true := rfl
          rw [hfeed, if_pos rfl] at hbreaks
          omega
        rw [if_neg hnext, ih, if_pos hbreaks, if_pos hbreaks, if_neg (by simp [hbreaks]),
          hstart hbreaks]
        have hcolumn : column + 1 + (rest.length - 0) = column + (rest.length + 1 - 0) := by omega
        rw [hcolumn]
      · -- the column is that of a line further down
        have hsame (column : Nat) : byteLocation file line column rest =
            { file := file
              line := (line + breaksBefore rest rest.length).toUInt32
              column := (1 + (rest.length + 1 - (lineStart rest rest.length + 1))).toUInt32 } := by
          rw [ih, if_neg hbreaks, Nat.add_sub_add_right]
        rw [hsame, hsame, ite_self, if_neg hbreaks, if_pos (.inr (Nat.pos_of_ne_zero hbreaks))]

/-- The bytes on a line in front of an offset are the columns there and the continuation bytes. -/
theorem sub_lineStart_eq {source : Bytes} {k : Nat} (hk : k ≤ source.length)
    (h : (source.take k).getLast? = some carriageReturn → source[k]? ≠ some lineFeed) :
    k - source.lineStart k = source.columnsBefore k +
      (source.extract (source.lineStart k) k).countP Utf8.isContinuation := by
  have hlength := List.length_eq_countP_add_countP takesColumn
    (l := source.extract (source.lineStart k) k)
  have hother :
      (source.extract (source.lineStart k) k).countP (fun b => decide (¬ takesColumn b = true)) =
      (source.extract (source.lineStart k) k).countP Utf8.isContinuation :=
    List.countP_congr fun b hb => by simp [takesColumn, isLineBreak_of_mem_line hk h b hb]
  rw [hother] at hlength
  rw [columnsBefore, ← List.extract_eq_drop_take', ← hlength, List.extract_eq_drop_take',
    List.length_drop, List.length_take, Nat.min_eq_left hk]

/-- A source in which no character starts at some offset has one failure, on the line that a reader
reaches there. The column is that of the reader and one more for each continuation byte on the line
in front of the offset, so that the two agree just where there is none. -/
theorem encodingFailure_location (origin source : Bytes) (file : UInt32) (k : Nat)
    (h : Utf8.firstInvalid? source = some k) :
    let p := (Cursor.advance { source := source, file := file } k).position
    let more := (source.extract (source.lineStart k) k).countP Utf8.isContinuation
    ∃ f, (read origin source file).failures = [f] ∧ f.code = "B0007" ∧ p.offset = k ∧
      f.loc = { file := file, line := p.line.toUInt32, column := (p.column + more).toUInt32 } ∧
      (source.length < 2 ^ 32 → (f.loc = p.locate file ↔ more = 0)) := by
  intro p more
  have hlt := Utf8.firstInvalid?_lt h
  -- so that the bytes in front of `k` end as many lines by themselves as in the source
  have hfeed : source[k]? ≠ some lineFeed := fun hc =>
    Utf8.not_ascii_of_firstInvalid? h hc (by decide)
  have hp : p = Position.ofOffset source k := by
    change ({} : Position).after k source = _
    exact Position.after_start (Nat.le_of_lt hlt)
  have hcolumn : k - source.lineStart k = source.columnsBefore k + more :=
    sub_lineStart_eq (Nat.le_of_lt hlt) fun _ => hfeed
  have hloc : (encodingFailure source file k).loc =
      { file := file, line := p.line.toUInt32, column := (p.column + more).toUInt32 } := by
    have hlength : (source.take k).length = k := by
      rw [List.length_take, Nat.min_eq_left (Nat.le_of_lt hlt)]
    change byteLocation file 1 1 (source.take k) = _
    rw [byteLocation_eq, hlength, ite_self, breaksBefore_take hfeed, lineStart_take hfeed,
      hcolumn, hp, ← Nat.add_assoc]
    rfl
  refine ⟨encodingFailure source file k,
    by rw [read, h], rfl, by rw [hp]; rfl, hloc, fun hsize => ?_⟩
  have hbound : p.column + more < 2 ^ 32 := by
    have hcolumns : p.column = 1 + source.columnsBefore k := by rw [hp]; rfl
    omega
  rw [hloc]
  -- the two columns are words, and words hold all columns of a source of that length
  constructor
  · intro heq
    have hwords : (UInt32.ofNat (p.column + more)).toNat = (UInt32.ofNat p.column).toNat :=
      congrArg UInt32.toNat (Location.mk.inj heq).2.2
    have hshort : p.column < 2 ^ 32 := by omega
    rw [UInt32.toNat_ofNat_of_lt' hbound, UInt32.toNat_ofNat_of_lt' hshort] at hwords
    omega
  · intro hmore
    rw [hmore]
    rfl

/-- Behind a line break and a character of two bytes the column of the failure is one too large. -/
theorem encodingFailure_location_wide :
    Utf8.firstInvalid? [0x0D, 0x0A, 0xC3, 0xA9, 0xFF] = some 4 ∧
      let p := (Cursor.advance { source := [0x0D, 0x0A, 0xC3, 0xA9, 0xFF], file := 1 } 4).position
      let more := (List.extract [0x0D, 0x0A, 0xC3, 0xA9, 0xFF]
        (Bytes.lineStart [0x0D, 0x0A, 0xC3, 0xA9, 0xFF] 4) 4).countP Utf8.isContinuation
      ∃ f, (read [] [0x0D, 0x0A, 0xC3, 0xA9, 0xFF] 1).failures = [f] ∧ f.code = "B0007" ∧
        p.offset = 4 ∧
        f.loc = { file := 1, line := p.line.toUInt32, column := (p.column + more).toUInt32 } ∧
        ([0x0D, 0x0A, 0xC3, 0xA9, 0xFF].length < 2 ^ 32 → (f.loc = p.locate 1 ↔ more = 0)) :=
  ⟨by decide, encodingFailure_location [] [0x0D, 0x0A, 0xC3, 0xA9, 0xFF] 1 4 (by decide)⟩

/-- Behind a character of two bytes alone the failure is reported in the third column, where a
reader is in the second one. -/
theorem encodingFailure_column :
    Utf8.firstInvalid? [0xC3, 0xA9, 0xFF] = some 2 ∧
      (read [] [0xC3, 0xA9, 0xFF] 0).failures.map (fun f => f.loc.column) = [3] ∧
      (Cursor.advance { source := [0xC3, 0xA9, 0xFF] } 2).position =
        { offset := 2, line := 1, column := 2 } := by
  decide

end Document

end LosslessBasic
