import LosslessBasic.Proofs.Lexer.Append

/-!
# The position of an offset

The line and the column of a position say no more than its offset does: the line is told by the line
breaks that are completed before it (`Bytes.breaksBefore`), the column by the characters that stand
on its line in front of it (`Bytes.columnsBefore`). `Position.after_start` says that a walk over the
bytes of a source leads to the position that its offset has.
-/

namespace LosslessBasic

namespace Bytes

/-- Whether a line break is completed by the byte of an index: by a line feed, or by a carriage
return that no line feed follows. -/
def completesBreak (source : Bytes) (index : Nat) : Bool :=
  source[index]? == some lineFeed ||
    (source[index]? == some carriageReturn && source[index + 1]? != some lineFeed)

/-- The number of line breaks that are completed before an offset. -/
def breaksBefore (source : Bytes) (offset : Nat) : Nat :=
  (List.range offset).countP source.completesBreak

/-- The offset behind the last line break that is completed before an offset; zero where there is
none. -/
def lineStart (source : Bytes) : (offset : Nat) → Nat
  | 0 => 0
  | n + 1 => if source.completesBreak n then n + 1 else source.lineStart n

/-- Whether a byte takes a column: a byte of a line break and a continuation byte take none. -/
def takesColumn (c : UInt8) : Bool := !Ascii.isLineBreak c && !Utf8.isContinuation c

/-- The number of columns taken on the line of an offset in front of it. -/
def columnsBefore (source : Bytes) (offset : Nat) : Nat :=
  ((source.take offset).drop (source.lineStart offset)).countP takesColumn

variable (source : Bytes)

/-- A line starts no later than the offset in it. -/
theorem lineStart_le (offset : Nat) : source.lineStart offset ≤ offset := by
  induction offset with
  | zero => exact Nat.le_refl 0
  | succ n ih =>
    rw [lineStart]
    split <;> omega

/-- There are no more line breaks in front of an offset than bytes. -/
theorem breaksBefore_le (offset : Nat) : source.breaksBefore offset ≤ offset := by
  have hle := List.countP_le_length (p := source.completesBreak) (l := List.range offset)
  rwa [List.length_range] at hle

/-- There are no more columns in front of an offset than bytes. -/
theorem columnsBefore_le (offset : Nat) : source.columnsBefore offset ≤ offset := by
  refine Nat.le_trans List.countP_le_length ?_
  rw [List.length_drop, List.length_take]
  omega

/-- One byte further there is at most one line break more. -/
theorem breaksBefore_succ (n : Nat) :
    source.breaksBefore (n + 1) =
      source.breaksBefore n + if source.completesBreak n then 1 else 0 := by
  rw [breaksBefore, List.range_succ, List.countP_append, List.countP_singleton, breaksBefore]

/-- Behind a line break a line begins. -/
theorem columnsBefore_succ_of_completesBreak {n : Nat} (h : source.completesBreak n = true) :
    source.columnsBefore (n + 1) = 0 := by
  rw [columnsBefore, lineStart, if_pos h, List.drop_eq_nil_of_le (List.length_take_le _ _),
    List.countP_nil]

/-- Otherwise the byte stands on the line of the bytes in front of it. -/
theorem columnsBefore_succ {n : Nat} {c : UInt8} (hc : source[n]? = some c)
    (h : source.completesBreak n = false) :
    source.columnsBefore (n + 1) = source.columnsBefore n + if takesColumn c then 1 else 0 := by
  have hlength : source.lineStart n ≤ (source.take n).length := by
    have hlt := (List.getElem?_eq_some_iff.mp hc).1
    have hle := source.lineStart_le n
    rw [List.length_take]
    omega
  rw [columnsBefore, lineStart, h, if_neg Bool.false_ne_true, List.take_add_one, hc,
    Option.toList_some, List.drop_append_of_le_length hlength, List.countP_append,
    List.countP_singleton, columnsBefore]

/-- No line break stands between the start of a line and an offset on it, unless the offset splits
one. -/
theorem isLineBreak_of_mem_line {source : Bytes} {n : Nat} (hn : n ≤ source.length)
    (h : (source.take n).getLast? = some carriageReturn → source[n]? ≠ some lineFeed) :
    ∀ b ∈ source.extract (source.lineStart n) n, Ascii.isLineBreak b = false := by
  rw [List.extract_eq_drop_take']
  induction n with
  | zero => exact fun b hb => absurd hb (by simp)
  | succ n ih =>
    have hc : source[n]? = some source[n] := List.getElem?_eq_getElem hn
    generalize source[n] = c at hc
    have htake : source.take (n + 1) = source.take n ++ [c] := by rw [List.take_add_one, hc]; rfl
    rw [lineStart]
    by_cases hbreak : source.completesBreak n = true
    · rw [if_pos hbreak, List.drop_eq_nil_of_le (List.length_take_le _ _)]
      exact fun b hb => absurd hb List.not_mem_nil
    -- a byte that completes no line break is neither of its bytes
    have hfeed : c ≠ lineFeed := by
      rintro rfl
      exact hbreak (by rw [completesBreak, hc]; rfl)
    have hreturn : c ≠ carriageReturn := by
      rintro rfl
      have hnext := h (by rw [htake, List.getLast?_concat])
      exact hbreak (by simp [completesBreak, hc, hnext])
    have hle := source.lineStart_le n
    rw [if_neg hbreak, htake, List.drop_append_of_le_length (by rw [List.length_take]; omega)]
    intro b hb
    rcases List.mem_append.mp hb with hb | hb
    · exact ih (by omega) (fun _ hnext => hfeed (Option.some.inj (hc.symm.trans hnext))) b hb
    · obtain rfl := List.mem_singleton.mp hb
      simp [Ascii.isLineBreak, hfeed, hreturn]

/-! Line breaks from the front on -/

variable (c : UInt8) (rest : Bytes) (n : Nat)

/-- The first byte completes a line break if it is one, unless a line feed follows a carriage
return. -/
theorem completesBreak_cons_zero :
    completesBreak (c :: rest) 0 =
      (c == lineFeed || (c == carriageReturn && rest.head? != some lineFeed)) := by
  simp [completesBreak, List.head?_eq_getElem?]

/-- Whether a later byte completes a line break does not depend on the first one. -/
theorem completesBreak_cons_succ : completesBreak (c :: rest) (n + 1) = completesBreak rest n := by
  simp [completesBreak]

/-- The line breaks behind the first byte are counted on their own. -/
theorem breaksBefore_cons :
    breaksBefore (c :: rest) (n + 1) =
      (if completesBreak (c :: rest) 0 then 1 else 0) + breaksBefore rest n := by
  have hmap : (completesBreak (c :: rest)) ∘ Nat.succ = completesBreak rest :=
    funext (completesBreak_cons_succ c rest)
  rw [breaksBefore, List.range_succ_eq_map, List.countP_cons, List.countP_map, hmap, Nat.add_comm]
  rfl

/-- A line that begins behind the first byte begins where it does without that byte. -/
theorem lineStart_cons :
    lineStart (c :: rest) (n + 1) =
      if completesBreak (c :: rest) 0 = true ∨ 0 < breaksBefore rest n then lineStart rest n + 1
      else 0 := by
  induction n with
  | zero =>
    simp only [lineStart, breaksBefore, List.range_zero, List.countP_nil, Nat.lt_irrefl, or_false]
  | succ n ih =>
    rw [lineStart, completesBreak_cons_succ, ih, breaksBefore_succ, lineStart]
    cases hbreak : completesBreak rest n with
    | true => simp
    | false => simp

end Bytes

namespace Position

/-- The position of an offset. -/
def ofOffset (source : Bytes) (offset : Nat) : Position where
  offset := offset
  line := 1 + source.breaksBefore offset
  column := 1 + source.columnsBefore offset

variable {source : Bytes} {n : Nat} {c : UInt8}

/-- The step over a byte leads from the position of its offset to that of the next one. -/
theorem step_ofOffset (hc : source[n]? = some c) :
    (ofOffset source n).step c source[n + 1]? = ofOffset source (n + 1) := by
  have hbreak : source.completesBreak n = (c == Bytes.lineFeed ||
      (c == Bytes.carriageReturn && source[n + 1]? != some Bytes.lineFeed)) := by
    simp only [Bytes.completesBreak, hc, Option.some_beq_some]
  have hline := source.breaksBefore_succ n
  unfold step
  rw [← hbreak]
  cases h : source.completesBreak n with
  | true =>
    rw [h] at hline
    simp only [if_true, ofOffset, hline, source.columnsBefore_succ_of_completesBreak h]
    rfl
  | false =>
    -- a byte of a line break that completes none is a carriage return
    have hreturn : (c == Bytes.carriageReturn || Utf8.isContinuation c) = !Bytes.takesColumn c := by
      have hfeed : (c == Bytes.lineFeed) = false := by
        rw [h] at hbreak
        exact (Bool.or_eq_false_iff.mp hbreak.symm).1
      simp [Bytes.takesColumn, Ascii.isLineBreak, hfeed]
    have hcolumn := source.columnsBefore_succ hc h
    rw [h] at hline
    rw [hreturn]
    cases htakes : Bytes.takesColumn c <;>
      simp_all [ofOffset, Nat.add_assoc]

/-- A walk over the bytes of a source leads to the position of the offset that it reaches. -/
theorem after_start (hn : n ≤ source.length) :
    ({} : Position).after n source = ofOffset source n := by
  induction n with
  | zero => simp [after, ofOffset, Bytes.breaksBefore, Bytes.columnsBefore]
  | succ n ih =>
    have hc : source[n]? = some source[n] := List.getElem?_eq_getElem hn
    rw [← after_after, ih (by omega), List.drop_eq_getElem_cons hn, after, after, List.head?_drop,
      step_ofOffset hc]

end Position

end LosslessBasic
