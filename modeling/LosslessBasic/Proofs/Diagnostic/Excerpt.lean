import LosslessBasic.Diagnostic.Excerpt
import LosslessBasic.Proofs.Lexer.Boundaries
import LosslessBasic.Proofs.Lexer.Comments

/-!
# The line of an offset

A position counts the line breaks that are completed in front of it, byte by byte; an excerpt looks
for line breaks from the start of the source on. Both number the lines alike, whatever line breaks
are mixed (`Excerpt.lineAfter?_breaksBefore`). What stands on the line in front of an offset are
bytes without a line break among them, so that columns count characters there
(`Bytes.exists_chars_lineAt`).
-/

namespace LosslessBasic

set_option maxRecDepth 2000

open Bytes Ascii

namespace Bytes

/-- The offset of the first byte of a line break from an offset on, or the end of the source. -/
def lineEnd (source : Bytes) (offset : Nat) : Nat :=
  offset + (Excerpt.firstLine (source.drop offset)).length

/-- The line that an offset lies on, without the line break that ends it. -/
def lineAt (source : Bytes) (offset : Nat) : Bytes :=
  source.extract (source.lineStart offset) (source.lineEnd offset)

end Bytes

namespace Excerpt

theorem afterBreak?_cons (c : UInt8) (rest : Bytes) :
    afterBreak? (c :: rest) =
      if completesBreak (c :: rest) 0 then some rest else afterBreak? rest := by
  rw [afterBreak?, completesBreak_cons_zero]
  by_cases hfeed : (c == lineFeed) = true
  · obtain rfl := beq_iff_eq.mp hfeed
    rfl
  · by_cases hreturn : (c == carriageReturn) = true
    · by_cases hnext : (rest.head? == some lineFeed) = true <;>
        simp_all [isLineBreak]
    · simp_all [isLineBreak]

theorem lineAfter?_succ_cons (k : Nat) (c : UInt8) (rest : Bytes) :
    lineAfter? (k + 1) (c :: rest) =
      if completesBreak (c :: rest) 0 then lineAfter? k rest else lineAfter? (k + 1) rest := by
  rw [lineAfter?, afterBreak?_cons]
  cases completesBreak (c :: rest) 0 <;> rfl

/-- Behind as many line breaks as are completed in front of an offset stands the line that begins
there. -/
theorem lineAfter?_breaksBefore (source : Bytes) (n : Nat) :
    lineAfter? (source.breaksBefore n) source =
      some (firstLine (source.drop (source.lineStart n))) := by
  -- both sides drop the first byte: a line break that it completes is one less to find behind it
  induction source generalizing n with
  | nil =>
    have hstart : lineStart [] n = 0 := by
      induction n with
      | zero => rfl
      | succ n ih => rw [lineStart, if_neg (by simp [completesBreak]), ih]
    have hbreaks : breaksBefore [] n = 0 := List.countP_eq_zero.mpr (by simp [completesBreak])
    rw [hstart, hbreaks]
    rfl
  | cons c rest ih =>
    cases n with
    | zero => rfl
    | succ n =>
      rw [breaksBefore_cons, lineStart_cons]
      cases hfirst : completesBreak (c :: rest) 0 with
      | true =>
        rw [if_pos rfl, if_pos (.inl rfl), Nat.add_comm 1, lineAfter?_succ_cons, if_pos hfirst]
        exact ih n
      | false =>
        rw [if_neg Bool.false_ne_true, Nat.zero_add]
        by_cases hpos : 0 < breaksBefore rest n
        · -- the first byte stands on a line further up
          rw [if_pos (.inr hpos), List.drop_succ_cons, ← ih n]
          obtain ⟨k, hk⟩ := Nat.exists_eq_add_one_of_ne_zero hpos.ne'
          rw [hk, lineAfter?_succ_cons, hfirst, if_neg Bool.false_ne_true]
        · rw [if_neg (by simpa using hpos), Nat.eq_zero_of_not_pos hpos]
          rfl

end Excerpt

/-! ## The bytes of a line -/

namespace Bytes

variable {source : Bytes} {n : Nat}

theorem extract_lineEnd (source : Bytes) (n : Nat) :
    source.extract n (source.lineEnd n) = Excerpt.firstLine (source.drop n) := by
  rw [List.extract_eq_take_drop, lineEnd, Nat.add_sub_cancel_left]
  exact (List.prefix_iff_eq_take.mp (List.takeWhile_prefix _)).symm

/-- A line ends at an offset where a line break or the end of the source is. -/
theorem extract_lineEnd_eq_nil_iff (source : Bytes) (n : Nat) :
    source.extract n (source.lineEnd n) = [] ↔ ∀ b ∈ source[n]?, isLineBreak b = true := by
  rw [extract_lineEnd, ← List.head?_drop, Excerpt.firstLine]
  cases source.drop n with
  | nil => simp
  | cons b rest => simp [List.takeWhile_cons]

/-- A line consists of what stands on it in front of an offset and from there on. -/
theorem lineAt_eq_append (source : Bytes) (n : Nat) :
    source.lineAt n =
      source.extract (source.lineStart n) n ++ source.extract n (source.lineEnd n) :=
  (extract_append_extract (source.lineStart_le n) (Nat.le_add_right _ _)).symm

/-- From the start of a line on stands what is in front of an offset on it, and all that follows. -/
theorem drop_lineStart_eq_append (hn : n ≤ source.length) :
    source.drop (source.lineStart n) =
      source.extract (source.lineStart n) n ++ source.drop n := by
  have hle := source.lineStart_le n
  rw [List.extract_eq_drop_take', ← List.drop_append_of_le_length (by rw [List.length_take]; omega),
    List.take_append_drop]

/-- The line that begins where the line of an offset does is that line. -/
theorem firstLine_drop_lineStart (hn : n ≤ source.length)
    (h : (source.take n).getLast? = some carriageReturn → source[n]? ≠ some lineFeed) :
    Excerpt.firstLine (source.drop (source.lineStart n)) = source.lineAt n := by
  have hline : ∀ b ∈ source.extract (source.lineStart n) n, (!isLineBreak b) = true :=
    fun b hb => by
    rw [isLineBreak_of_mem_line hn h b hb]
    rfl
  rw [drop_lineStart_eq_append hn, lineAt_eq_append, extract_lineEnd]
  exact List.takeWhile_append_of_pos hline

/-- A line starts where a character does. -/
theorem exists_ofChars_drop_lineStart (hvalid : Utf8.firstInvalid? source = none) (n : Nat) :
    ∃ cs, source.drop (source.lineStart n) = Utf8.ofChars cs := by
  obtain ⟨cs, hcs⟩ := Utf8.exists_ofChars_of_firstInvalid? hvalid
  -- a new line starts only behind a byte that completes a line break
  induction n with
  | zero => exact ⟨cs, hcs⟩
  | succ n ih =>
    rw [lineStart]
    split
    next hbreak =>
      cases hc : source[n]? with
      | none =>
        rw [completesBreak, hc] at hbreak
        cases hbreak
      | some c =>
        -- the byte that completes the line break is an ASCII byte
        have hascii : c < 0x80 := by
          refine Utf8.ascii_of_isLineBreak c ?_
          simp only [completesBreak, hc, Option.some_beq_some] at hbreak
          rw [isLineBreak, Bool.or_comm]
          rcases Bool.or_eq_true_iff.mp hbreak with hfeed | hreturn
          · rw [hfeed, Bool.true_or]
          · rw [(Bool.and_eq_true_iff.mp hreturn).1, Bool.or_true]
        obtain ⟨hlt, rfl⟩ := List.getElem?_eq_some_iff.mp hc
        have hparts : Utf8.ofChars cs = source.take n ++ source[n] :: source.drop (n + 1) := by
          rw [← hcs, ← List.drop_eq_getElem_cons, List.take_append_drop]
        obtain ⟨-, behind, -, hbehind⟩ := Utf8.exists_of_ofChars_eq_append_cons hparts hascii
        exact ⟨behind, hbehind⟩
    next => exact ih

/-- In front of a place where a character may start there are as many characters on the line as
columns. -/
theorem exists_chars_lineAt (hvalid : Utf8.firstInvalid? source = none) (hn : n ≤ source.length)
    (h : Apart (source.take n) (source.drop n)) :
    ∃ before behind : List Char,
      source.extract (source.lineStart n) n = Utf8.ofChars before ∧
      source.extract n (source.lineEnd n) = Utf8.ofChars behind ∧
      before.length = source.columnsBefore n := by
  obtain ⟨cs, hcs⟩ := exists_ofChars_drop_lineStart hvalid n
  rw [drop_lineStart_eq_append hn] at hcs
  obtain ⟨before, rest, -, hbefore, hrest⟩ := Utf8.exists_of_ofChars_eq_append hcs.symm h.character
  -- the line ends in front of an ASCII byte
  have hline : Utf8.ofChars rest = Excerpt.firstLine (source.drop n) ++
      (source.drop n).drop (Excerpt.firstLine (source.drop n)).length := by
    rw [← hrest, Excerpt.firstLine, ← Respelling.Spells.dropWhile_eq_drop,
      List.takeWhile_append_dropWhile]
  obtain ⟨behind, -, -, hbehind, -⟩ := Utf8.exists_of_ofChars_eq_append hline fun b hb => by
    have hbreak : isLineBreak b = true := by simpa using Lexer.head?_drop_takeWhile hb
    exact Utf8.isContinuation_of_ascii (Utf8.ascii_of_isLineBreak b hbreak)
  refine ⟨before, behind, hbefore, by rw [extract_lineEnd, hbehind], ?_⟩
  -- as none of these bytes breaks a line, those that take a column are those that begin a character
  rw [← Utf8.countP_ofChars, ← hbefore, columnsBefore, ← List.extract_eq_drop_take']
  refine List.countP_congr fun b hb => ?_
  rw [takesColumn, isLineBreak_of_mem_line hn h.getElem?_ne b hb, Bool.not_false, Bool.true_and]

end Bytes

namespace Excerpt

/-- The line of a number is the one that an offset lies on that has this number. -/
theorem line_eq_lineAt {source : Bytes} {n : Nat} {number : UInt32} (hn : n ≤ source.length)
    (h : (source.take n).getLast? = some carriageReturn → source[n]? ≠ some lineFeed)
    (hnumber : number.toNat = 1 + source.breaksBefore n) :
    line source number = source.lineAt n := by
  have hne : number ≠ 0 := by
    rintro rfl
    rw [Nat.add_comm] at hnumber
    cases hnumber
  rw [line, if_neg hne, hnumber, Nat.add_sub_cancel_left, lineAfter?_breaksBefore, Option.getD_some,
    Bytes.firstLine_drop_lineStart hn h]

end Excerpt

end LosslessBasic
