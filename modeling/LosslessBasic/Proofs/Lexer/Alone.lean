import LosslessBasic.Proofs.Lexer.Boundaries
import LosslessBasic.Proofs.Lexer.DateGrammar
import LosslessBasic.Proofs.Lexer.NumberGrammar

/-!
# Tokens by themselves

The readers of tokens look at bytes behind the token, but a reader finds the same token when the
text ends with it, and it finds nothing in a cut text where it finds nothing in the whole one
(`Reader.IsLocal`). The word Rem alone is read otherwise when it is cut off from what makes a name
of it.

## Main results

* `Lexer.token_alone`: a token by itself is the same token.
-/

namespace LosslessBasic.Lexer

set_option maxRecDepth 2000

open Bytes Ascii

/-- Whether a text is the word Rem. -/
def isRem (x : Bytes) : Bool := equalIgnoringCase x (ofString "REM")

/-- A reader that does not need what stands behind a token: neither to find the token, nor to find
none. -/
structure Reader.IsLocal (r : Reader) : Prop where
  /-- Where it finds nothing, it finds nothing in a cut text but the word Rem. -/
  none_take : ∀ {x : Bytes} (n : Nat), r x = none → isRem (x.take n) = false → r (x.take n) = none
  /-- What it finds, it finds in the text of the token. -/
  some_take : ∀ {x : Bytes} {found : Kind × Nat}, r x = some found → r (x.take found.2) = some found

variable {c : UInt8} {rest x y : Bytes}

/-- What one of some readers finds, it finds in the text of the token, and the readers in front of
it find nothing there. -/
theorem findSome?_take {rs : List Reader} (hlocal : ∀ r ∈ rs, r.IsLocal) {found : Kind × Nat}
    (hfound : rs.findSome? (· x) = some found) (hrem : isRem (x.take found.2) = false) :
    rs.findSome? (· (x.take found.2)) = some found := by
  -- the reader that finds the token has the same place in the order
  obtain ⟨before, r, behind, rfl, hr, hbefore⟩ := List.findSome?_eq_some_iff.mp hfound
  refine List.findSome?_eq_some_iff.mpr ⟨before, r, behind, rfl, ?_, fun s hs => ?_⟩
  · exact (hlocal r (by simp)).some_take hr
  · exact (hlocal s (List.mem_append_left _ hs)).none_take _ (hbefore s hs) hrem

/-! ## Readers that test the first bytes -/

namespace Reader

variable {p q s : UInt8 → Bool} {find : Bytes → Kind × Nat}

/-- A reader that only tests finds nothing where the test fails. -/
theorem of_eq_none_iff {test : Bytes → Bool} : Reader.of test find x = none ↔ test x = false := by
  unfold Reader.of
  cases test x <;> simp

/-- A reader with a test is local when its test is not passed by being cut, and the text of a token
passes it and is found whole. -/
theorem IsLocal.of {test : Bytes → Bool}
    (hcut : ∀ x n, test x = false → isRem (x.take n) = false → test (x.take n) = false)
    (hfind : ∀ x, test x = true → test (x.take (find x).2) = true ∧
      find (x.take (find x).2) = find x) :
    (Reader.of test find).IsLocal where
  none_take := by
    intro x n h hrem
    rw [Reader.of_eq_none_iff] at h ⊢
    exact hcut x n h hrem
  some_take := by
    intro x found h
    obtain ⟨htest, rfl⟩ := Reader.of_eq_some_iff.mp h
    exact Reader.of_eq_some_iff.mpr (hfind x htest)

/-- A test of the first byte. -/
theorem IsLocal.of_front (hp : p 0 = false)
    (hfind : ∀ x, p (front x) = true → 0 < (find x).2 ∧ find (x.take (find x).2) = find x) :
    (Reader.of (fun x => p (front x)) find).IsLocal := by
  refine .of (fun x n h _ => front_take_eq_false hp h n) fun x h => ?_
  obtain ⟨hpos, hfind⟩ := hfind x h
  exact ⟨by rw [front_take_of_pos hpos, h], hfind⟩

/-- A test for one first byte, behind which it is said what the token is. -/
theorem IsLocal.of_byte {c : UInt8} (hc : c ≠ 0) {find : Bytes → Lexeme × Nat}
    (hfind : ∀ y, ∃ n, (find y).2 = n + 1 ∧ find (y.take n) = find y) :
    (Reader.of (fun x => front x == c) fun x => (find x.tail).map .lexeme id).IsLocal := by
  refine .of_front (p := (· == c)) (by simpa using hc.symm) fun x hfront => ?_
  obtain ⟨n, hwidth, htake⟩ := hfind x.tail
  have hfound : ((find x.tail).map Kind.lexeme id).2 = n + 1 := hwidth
  rw [hfound, eq_cons_tail hc hfront, List.take_succ_cons, List.tail_cons, List.tail_cons, htake]
  exact ⟨Nat.succ_pos n, rfl⟩

/-- A test of the first byte and, where it fails, of the first two. -/
theorem IsLocal.of_two (hp : p 0 = false) (hq : q 0 = false) (hs : s 0 = false)
    (hfind : ∀ x, (p (front x) || (q (front x) && s (front x.tail))) = true →
      (p (front (x.take (find x).2)) ||
        (q (front (x.take (find x).2)) && s (front (x.take (find x).2).tail))) = true ∧
        find (x.take (find x).2) = find x) :
    (Reader.of (fun x => p (front x) || (q (front x) && s (front x.tail))) find).IsLocal := by
  refine .of (fun x n h _ => ?_) hfind
  rw [Bool.or_eq_false_iff, Bool.and_eq_false_iff] at h ⊢
  refine ⟨front_take_eq_false hp h.1 n, h.2.imp (front_take_eq_false hq · n) fun hsecond => ?_⟩
  cases x with
  | nil => rwa [List.take_nil]
  | cons c x =>
    cases n with
    | zero => exact hs
    | succ n => exact front_take_eq_false hs hsecond n

end Reader

/-! ## Line breaks, blanks and comments -/

/-- A line break alone is as wide as it is in its text. -/
theorem lineBreakWidth_take (x : Bytes) :
    Cursor.lineBreakWidth (x.take (Cursor.lineBreakWidth x)) = Cursor.lineBreakWidth x := by
  cases x with
  | nil => rfl
  | cons c x =>
    cases hreturn : c == carriageReturn with
    | false => cases hfeed : c == lineFeed <;> simp [Cursor.lineBreakWidth, hreturn, hfeed]
    | true =>
      cases x with
      | nil => simp [Cursor.lineBreakWidth, hreturn]
      | cons d x => cases hfeed : d == lineFeed <;> simp [Cursor.lineBreakWidth, hreturn, hfeed]

/-- A line break is read alone as it is in a text. -/
theorem isLocal_newline : Reader.newline.IsLocal := by
  refine .of_front (by decide) fun x hbreak => ⟨?_, by rw [lineBreakWidth_take]⟩
  exact lineBreakWidth_pos_of_front hbreak

/-- The rest of a line ends where its text ends. -/
theorem lineWidth_take (x : Bytes) : lineWidth (x.take (lineWidth x)) = lineWidth x := by
  rw [lineWidth, lineWidth, take_length_takeWhile, List.takeWhile_idem]

theorem isLocal_comment : Reader.comment.IsLocal := by
  refine .of_front (p := (· == apostrophe)) (by decide) fun x hfront => ⟨?_, by rw [lineWidth_take]⟩
  rw [eq_cons_tail (by decide) hfront]
  exact lineWidth_pos (by decide) _

theorem isLocal_blanks : Reader.blanks.IsLocal := by
  refine .of_front (by decide) fun x hblank =>
    ⟨?_, by rw [take_length_takeWhile, List.takeWhile_idem]⟩
  exact List.length_pos_of_ne_nil (takeWhile_mem_runs (by decide) hblank).1

/-- The word Rem, letter by letter. -/
theorem isRem_iff : isRem x = true ↔
    ∃ a b c, x = [a, b, c] ∧ upper a = byte 'R' ∧ upper b = byte 'E' ∧ upper c = byte 'M' := by
  have hword : (ofString "REM").map upper = [byte 'R', byte 'E', byte 'M'] := by decide
  rw [isRem, equalIgnoringCase, hword, beq_iff_eq]
  constructor
  · intro h
    obtain ⟨a, b, c, rfl⟩ := List.length_eq_three.mp (by simpa using congrArg List.length h)
    exact ⟨a, b, c, rfl, by simpa using h⟩
  · rintro ⟨a, b, c, rfl, ha, hb, hc⟩
    simp [ha, hb, hc]

/-- The word that starts a remark has three letters. -/
theorem length_of_isRem (h : isRem x = true) : x.length = 3 := by
  obtain ⟨a, b, c, rfl, -⟩ := isRem_iff.mp h
  rfl

/-- The word that starts a remark holds no line break. -/
theorem isLineBreak_of_isRem (h : isRem x = true) : ∀ c ∈ x, (!isLineBreak c) = true := by
  have hall : ∀ c, upper c ∈ [byte 'R', byte 'E', byte 'M'] → (!isLineBreak c) = true := by decide
  obtain ⟨a, b, c, rfl, ha, hb, hc⟩ := isRem_iff.mp h
  intro d hd
  refine hall d ?_
  simp only [List.mem_cons, List.not_mem_nil, or_false] at hd ⊢
  rcases hd with rfl | rfl | rfl
  · exact .inl ha
  · exact .inr (.inl hb)
  · exact .inr (.inr hc)

/-- A remark starts with its word, behind which no word and no type suffix goes on. -/
theorem startsRemComment_eq_and (x : Bytes) : startsRemComment x =
    (isRem (x.take 3) && !isWordByte (front (x.drop 3)) && !isTypeSuffix (front (x.drop 3))) := rfl

/-- A line that starts a remark does so alone. -/
theorem startsRemComment_take_lineWidth (h : startsRemComment x = true) :
    startsRemComment (x.take (lineWidth x)) = true := by
  rw [startsRemComment_eq_and, Bool.and_eq_true, Bool.and_eq_true, Bool.not_eq_true',
    Bool.not_eq_true'] at h ⊢
  obtain ⟨⟨hrem, hword⟩, hsuffix⟩ := h
  -- the line ends behind the three letters or later
  have hline : x.take (lineWidth x) = x.take 3 ++ (x.drop 3).takeWhile fun c => !isLineBreak c := by
    rw [lineWidth, take_length_takeWhile]
    conv_lhs => rw [← List.take_append_drop 3 x]
    exact List.takeWhile_append_of_pos (isLineBreak_of_isRem hrem)
  have hlength := length_of_isRem hrem
  rw [hline, List.take_left' hlength, List.drop_left' hlength, ← take_length_takeWhile]
  exact ⟨⟨hrem, front_take_eq_false (by decide) hword _⟩, front_take_eq_false (by decide) hsuffix _⟩

theorem isLocal_remComment : Reader.remComment.IsLocal := by
  refine .of (fun x n h hrem => ?_) fun x h =>
    ⟨startsRemComment_take_lineWidth h, by rw [lineWidth_take]⟩
  by_cases hn : 3 < n
  · have htake : (x.take n).take 3 = x.take 3 := by rw [List.take_take, Nat.min_eq_left hn.le]
    have hfront : front ((x.take n).drop 3) = front (x.drop 3) := by
      rw [List.drop_take, front_take_of_pos (by omega)]
    rw [startsRemComment_eq_and, htake, hfront]
    exact h
  · -- three bytes at most are Rem only as a whole
    have htake : (x.take n).take 3 = x.take n := by rw [List.take_take, Nat.min_eq_right (by omega)]
    rw [startsRemComment_eq_and, htake, hrem, Bool.false_and, Bool.false_and]

/-! ## Texts in quotes and dates -/

/-- A text in quotes is closed in its own bytes, or it is not. -/
theorem exists_closeQuote_take (seen : Nat) (x : Bytes) :
    ∃ n, (closeQuote seen x).2 = seen + n ∧ closeQuote seen (x.take n) = closeQuote seen x := by
  -- along the recursion of `closeQuote`, each step of which takes one byte or a pair of quotes
  induction seen, x using closeQuote.induct with
  | case1 seen => exact ⟨0, rfl, rfl⟩
  | case2 seen c rest hbreak =>
    refine ⟨0, ?_, ?_⟩ <;> rw [closeQuote.eq_def seen (c :: rest)]
    · exact congrArg Prod.snd (if_pos hbreak)
    · exact (if_pos hbreak).symm
  | case3 seen c hbreak hquote => exact ⟨1, by simp [closeQuote, hbreak, hquote], rfl⟩
  | case4 seen c hbreak hquote d rest hsecond ih =>
    obtain ⟨n, hwidth, htake⟩ := ih
    have hstep (y : Bytes) : closeQuote seen (c :: d :: y) = closeQuote (seen + 2) y := by
      rw [closeQuote.eq_def seen]
      simp [hbreak, hquote, hsecond]
    refine ⟨n + 2, ?_, ?_⟩
    · rw [hstep, hwidth]
      omega
    · rw [List.take_succ_cons, List.take_succ_cons, hstep, hstep, htake]
  | case5 seen c hbreak hquote d rest hsecond =>
    exact ⟨1, by simp [closeQuote, hbreak, hquote, hsecond], by
      simp [closeQuote, hbreak, hquote, hsecond]⟩
  | case6 seen c rest hbreak hquote ih =>
    obtain ⟨n, hwidth, htake⟩ := ih
    have hstep (y : Bytes) : closeQuote seen (c :: y) = closeQuote (seen + 1) y := by
      rw [closeQuote.eq_def]
      simp [hbreak, hquote]
    refine ⟨n + 1, ?_, ?_⟩
    · rw [hstep, hwidth]
      omega
    · rw [List.take_succ_cons, hstep, hstep, htake]

/-- A string literal is what its closing mark, or the end of the line, says. -/
theorem stringLiteral_eq (rest : Bytes) : stringLiteral rest =
    (if (closeQuote 1 rest).1 then .stringLiteral else .unterminatedString,
      (closeQuote 1 rest).2) := by
  unfold stringLiteral
  obtain ⟨closed, width⟩ := closeQuote 1 rest
  cases closed <;> rfl

/-- A string literal is read the same from its own bytes alone. -/
theorem stringLiteral_take (y : Bytes) :
    ∃ n, (stringLiteral y).2 = n + 1 ∧ stringLiteral (y.take n) = stringLiteral y := by
  obtain ⟨n, hwidth, htake⟩ := exists_closeQuote_take 1 y
  refine ⟨n, ?_, by rw [stringLiteral_eq, stringLiteral_eq, htake]⟩
  rw [stringLiteral_eq]
  exact hwidth.trans (Nat.add_comm 1 n)

theorem isLocal_string : Reader.string.IsLocal := .of_byte (by decide) stringLiteral_take

/-- A date is one up to the second number sign, and a number sign alone opens none. -/
theorem dateLiteral_take (y : Bytes) :
    ∃ n, (dateLiteral y).2 = n + 1 ∧ dateLiteral (y.take n) = dateLiteral y := by
  have hnone : dateLiteral [] = (.octothorpe, 1) := by decide
  rw [dateLiteral_eq_ite y]
  split
  next hdate =>
    obtain ⟨hfront, hdate⟩ := Bool.and_eq_true_iff.mp hdate
    have hin : ∀ c ∈ y.takeWhile inDate, inDate c = true := fun c => List.mem_takeWhile_imp
    have htake : y.take ((y.takeWhile inDate).length + 1) = y.takeWhile inDate ++ [byte '#'] := by
      rw [List.take_add, take_length_takeWhile, ← Respelling.Spells.dropWhile_eq_drop,
        eq_cons_tail (by decide) hfront]
      rfl
    refine ⟨(y.takeWhile inDate).length + 1, rfl, ?_⟩
    rw [htake, dateLiteral_append hin, if_pos hdate]
  next => exact ⟨0, rfl, hnone⟩

theorem isLocal_date : Reader.date.IsLocal := .of_byte (by decide) dateLiteral_take

/-! ## Line continuations -/

theorem isLocal_continuation : Reader.continuation.IsLocal where
  none_take := by
    intro x n h _
    by_contra hsome
    obtain ⟨found, hfound⟩ := Option.ne_none_iff_exists'.mp hsome
    obtain ⟨width, hwidth, -⟩ := Option.map_eq_some_iff.mp hfound
    obtain ⟨blanks, y, htake, hblanks, hbreak, -⟩ := exists_of_continuationWidth? hwidth
    -- the continuation of the cut text stands in front of the whole one
    have hx : x = byte '_' :: (blanks ++ (y ++ x.drop n)) := by
      rw [← List.append_assoc, ← List.cons_append, ← htake, List.take_append_drop]
    have hy : y ≠ [] := fun hnil => by
      rw [hnil] at hbreak
      revert hbreak
      decide
    rw [← front_append hy (x.drop n)] at hbreak
    rw [hx, Reader.continuation, continuationWidth?_append hblanks hbreak] at h
    cases h
  some_take := by
    intro x found h
    obtain ⟨width, hwidth, rfl⟩ := Option.map_eq_some_iff.mp h
    obtain ⟨blanks, y, rfl, hblanks, hbreak, rfl⟩ := exists_of_continuationWidth? hwidth
    rw [← front_take_of_pos (lineBreakWidth_pos_of_front hbreak)] at hbreak
    rw [List.take_succ_cons, List.take_length_add_append, Reader.continuation,
      continuationWidth?_append hblanks hbreak, lineBreakWidth_take]
    rfl

/-! ## Numbers -/

theorem isLocal_decimal : Reader.decimal.IsLocal := by
  refine .of_two (p := isDigit) (q := (· == byte '.')) (s := isDigit) (by decide)
    (by decide) (by decide)
    fun x h => ?_
  have hle := decimal_le x
  obtain ⟨hmem, hclass⟩ := Number.take_decimal_mem h
  obtain ⟨hstarts, hread⟩ := Number.decimal_of_mem hmem
  refine ⟨hstarts, ?_⟩
  dsimp only [Prod.map_snd, id]
  rw [hread, ← hclass, List.length_take_of_le hle]

/-- A digit behind the letter of its base is enough for a number. -/
theorem based?_isSome {letter d : UInt8} {p : UInt8 → Bool}
    (hletter : Number.radixDigit? letter = some p)
    (hd : p d = true) (y : Bytes) :
    (Number.based? (byte '&' :: letter :: d :: y)).isSome = true := by
  rw [Number.based?, if_pos (beq_self_eq_true _), hletter]
  dsimp only
  rw [List.takeWhile_cons_of_pos hd, List.length_cons, if_neg (by simp)]
  split
  · rfl
  · split <;> rfl

theorem isLocal_based : Reader.based.IsLocal where
  none_take := by
    intro x n h _
    by_contra hsome
    obtain ⟨found, hfound⟩ := Option.ne_none_iff_exists'.mp hsome
    obtain ⟨number, hnumber, -⟩ := Option.map_eq_some_iff.mp hfound
    obtain ⟨letter, p, d, s, y, htake, hletter, hd, -⟩ := Number.exists_of_based? hnumber
    -- the number of the cut text stands in front of the whole one
    obtain ⟨b, d, rfl⟩ := List.exists_cons_of_ne_nil hd.1
    have hx : x = byte '&' :: letter :: b :: (d ++ (s ++ y) ++ x.drop n) := by
      conv_lhs => rw [← List.take_append_drop n x, htake]
      rfl
    have hbased := based?_isSome hletter (hd.2 b List.mem_cons_self) (d ++ (s ++ y) ++ x.drop n)
    rw [← hx, Option.map_eq_none_iff.mp h] at hbased
    cases hbased
  some_take := by
    intro x found h
    obtain ⟨number, hnumber, rfl⟩ := Option.map_eq_some_iff.mp h
    have hle := based?_le hnumber
    obtain ⟨hmem, hclass⟩ := Number.take_based_mem hnumber
    rcases Number.read_of_mem_literals hmem with ⟨hstarts, -⟩ | hread
    · -- an ampersand starts no decimal number
      obtain ⟨letter, p, d, s, y, rfl, -⟩ := Number.exists_of_based? hnumber
      rw [front_take_of_pos (based?_pos hnumber)] at hstarts
      cases hstarts
    · rw [← hclass, List.length_take_of_le hle] at hread
      exact congrArg (Option.map (Prod.map Kind.lexeme id)) hread

/-! ## Names and signs -/

/-- A word is told by its text and by what stands behind it. -/
theorem word_append {text y : Bytes} (htext : ∀ c ∈ text, isWordByte c = true)
    (hy : isWordByte (front y) = false) : word (text ++ y) =
      if front y == byte '$' then (.lexeme .identifier, text.length + 1)
      else (Keyword.ofWord? text).elim
        (if isTypeSuffix (front y) &&
          !isWordByte (front y.tail) then (.lexeme .identifier, text.length + 1)
          else (.lexeme .identifier, text.length))
        fun keyword => (.keyword keyword, text.length) := by
  unfold word
  dsimp only
  rw [(takeWhile_append_of_front htext hy).1, List.drop_left, List.drop_one]
  cases Keyword.ofWord? text <;> rfl

/-- A word is read as such in its own text. -/
theorem word_take (x : Bytes) : word (x.take (word x).2) = word x ∧
    ∃ y, x.take (word x).2 = x.takeWhile isWordByte ++ y := by
  have hsplit : x = x.takeWhile isWordByte ++ x.dropWhile isWordByte :=
    List.takeWhile_append_dropWhile.symm
  have hfront := front_dropWhile (p := isWordByte) (by decide) x
  have htext : ∀ c ∈ x.takeWhile isWordByte, isWordByte c = true := fun c => List.mem_takeWhile_imp
  -- from here on the word is `text` with `y` behind it
  generalize x.takeWhile isWordByte = text at *
  generalize x.dropWhile isWordByte = y at *
  subst hsplit
  -- the word has a suffix, or it ends with its text
  have hsuffix (hsome : (front y == byte '$' || isTypeSuffix (front y)) = true) :
      (text ++ y).take (text.length + 1) = text ++ [front y] := by
    rw [List.take_length_add_append,
      eq_front_cons_tail (p := fun c => c == byte '$' || isTypeSuffix c) (by decide) hsome]
    rfl
  have hplain : (text ++ y).take text.length = text ++ [] := by rw [List.take_left, List.append_nil]
  have hnil : isWordByte (front []) = false := by decide
  have hend : (front [] == byte '$') = false ∧ isTypeSuffix (front []) = false := by decide
  rw [word_append htext hfront]
  cases hdollar : front y == byte '$' with
  | true =>
    rw [if_pos rfl, hsuffix (by rw [hdollar, Bool.true_or]),
      word_append (y := [front y]) htext hfront, front_cons, hdollar]
    exact ⟨rfl, _, rfl⟩
  | false =>
    rw [if_neg Bool.false_ne_true]
    cases hkeyword : Keyword.ofWord? text with
    | some keyword =>
      rw [Option.elim_some, hplain, word_append htext hnil, hend.1, hkeyword]
      exact ⟨rfl, _, rfl⟩
    | none =>
      rw [Option.elim_none]
      split
      next htype =>
        have htype := (Bool.and_eq_true_iff.mp htype).1
        rw [hsuffix (by rw [htype, Bool.or_true]),
          word_append (y := [front y]) htext hfront, front_cons, hdollar, hkeyword,
          Option.elim_none, htype, List.tail_cons, hnil]
        exact ⟨rfl, _, rfl⟩
      next =>
        rw [hplain, word_append htext hnil, hend.1, hkeyword, Option.elim_none, hend.2]
        exact ⟨rfl, _, rfl⟩

theorem isLocal_name : Reader.name.IsLocal := by
  refine .of_two (p := isLetter) (q := (· == byte '_')) (s := isWordByte) (by decide)
    (by decide) (by decide)
    fun x h => ?_
  obtain ⟨hword, y, htake⟩ := word_take x
  refine ⟨?_, hword⟩
  -- the word has its first byte, and the second one where an underscore is the first
  have hletter : ∀ c, (isLetter c || c == byte '_') = true → isWordByte c = true := by decide
  have hfirst : isWordByte (front x) = true := by
    rw [Bool.or_eq_true, Bool.and_eq_true] at h
    exact hletter _ (Bool.or_eq_true_iff.mpr (h.imp_right And.left))
  have hcons := eq_front_cons_tail (by decide) hfirst
  have htext : x.takeWhile isWordByte = front x :: x.tail.takeWhile isWordByte := by
    conv_lhs => rw [hcons]
    exact List.takeWhile_cons_of_pos hfirst
  rw [htake, htext, List.cons_append, front_cons, List.tail_cons]
  rw [Bool.or_eq_true, Bool.and_eq_true] at h ⊢
  refine h.imp_right fun ⟨hunderscore, hsecond⟩ => ⟨hunderscore, ?_⟩
  exact front_of_mem_runs (takeWhile_mem_runs (by decide) hsecond) y

/-- Punctuation is read as such in its own text. -/
theorem punctuation_take (c : UInt8) (rest : Bytes) :
    ∃ n, (punctuation c rest).2 = n + 1 ∧ punctuation c (rest.take n) = punctuation c rest := by
  have hpos := punctuation_pos c rest
  refine ⟨(punctuation c rest).2 - 1, by omega, ?_⟩
  unfold punctuation at *
  cases hpair : Lexeme.ofText? (c :: rest.take 1) with
  | some l =>
    have htake : rest.take (1 + (rest.take 1).length - 1) = rest.take 1 := by
      rw [Nat.add_sub_cancel_left, List.length_take, ← List.take_eq_take_min]
    dsimp only
    rw [htake, List.take_take, Nat.min_self, hpair]
  | none =>
    cases hone : Lexeme.ofText? [c] with
    | some l =>
      dsimp only
      rw [List.take_zero, List.take_nil, hone]
      rfl
    | none =>
      rw [hpair, hone] at hpos
      dsimp only at hpos ⊢
      generalize hwidth : min (Utf8.sequenceLength c) (1 + rest.length) = width at *
      -- what is left of the second byte makes no sign of the first one either
      have hnone : Lexeme.ofText? (c :: (rest.take (width - 1)).take 1) = none := by
        rcases Nat.eq_zero_or_pos (width - 1) with hzero | hmore
        · rw [hzero, List.take_zero, List.take_nil, hone]
        · rw [List.take_take, Nat.min_eq_left hmore, hpair]
      have hlength : (rest.take (width - 1)).length = width - 1 := List.length_take_of_le (by omega)
      rw [hnone, hlength]
      exact congrArg (Prod.mk _) (by omega)

theorem isLocal_sign : Reader.sign.IsLocal where
  none_take := by
    rintro x n ⟨⟩
  some_take := by
    rintro x found ⟨⟩
    obtain ⟨n, hwidth, htake⟩ := punctuation_take (front x) x.tail
    have hfound : ((punctuation (front x) x.tail).map Kind.lexeme id).2 = n + 1 := hwidth
    rw [hfound, Reader.sign]
    cases x with
    | nil => rfl
    | cons c x =>
      rw [front_cons, List.tail_cons] at htake
      rw [List.take_succ_cons, front_cons, List.tail_cons, List.tail_cons, front_cons, htake]

/-! ## Tokens -/

/-- Every reader reads alone what it reads in a text. -/
theorem isLocal_of_mem {r : Reader} (h : r ∈ Reader.all) : r.IsLocal := by
  simp only [Reader.all, List.mem_cons, List.not_mem_nil, or_false] at h
  rcases h with rfl | rfl | rfl | rfl | rfl | rfl | rfl | rfl | rfl | rfl | rfl
  · exact isLocal_newline
  · exact isLocal_comment
  · exact isLocal_remComment
  · exact isLocal_string
  · exact isLocal_date
  · exact isLocal_continuation
  · exact isLocal_decimal
  · exact isLocal_based
  · exact isLocal_name
  · exact isLocal_blanks
  · exact isLocal_sign

/-- A token that is not the word Rem is the same token by itself. -/
theorem isToken_take (hrem : isRem ((c :: rest).take (scan c rest).2) = false) :
    IsToken (scan c rest).1 ((c :: rest).take (scan c rest).2) := by
  have hpos := scan_pos c rest
  have hle := scan_le c rest
  have hfound := findSome?_take (fun r => isLocal_of_mem) (findSome?_readers c rest) hrem
  obtain ⟨n, hn⟩ := Nat.exists_eq_add_one_of_ne_zero hpos.ne'
  rw [hn, List.take_succ_cons, findSome?_readers, Option.some.injEq] at hfound
  rw [hn, List.take_succ_cons, isToken_iff, hfound, List.length_take_of_le (by omega), ← hn]

/-- The letter R opens a comment or a word. -/
theorem scan_of_upper_eq (hc : upper c = byte 'R') (rest : Bytes) : scan c rest =
    if startsRemComment (c :: rest) then (.trivia .remComment, lineWidth (c :: rest))
    else word (c :: rest) := by
  have hall : ∀ c, upper c = byte 'R' →
      isLineBreak c = false ∧ (c == apostrophe) = false ∧ (c == doubleQuote) = false ∧
        (c == byte '#') = false ∧ c ≠ byte '_' ∧ isDigit c = false ∧ (c == byte '.') = false ∧
          (c == byte '&') = false ∧ isLetter c = true := by
    decide
  obtain ⟨hbreak, hcomment, hquote, hnumber, hunderscore, hdigit, hdot, hampersand, hletter⟩ :=
    hall c hc
  unfold scan
  dsimp only
  rw [hbreak, hcomment, hquote, hnumber, continuationWidth?_eq_none hunderscore,
    Number.startsDecimal, hdigit, hdot, Number.based?_eq_match, front_cons, hampersand, hletter]
  rfl

/-- The word Rem is a comment by itself. -/
theorem isToken_of_isRem (h : isRem x = true) : IsToken (.trivia .remComment) x := by
  obtain ⟨a, b, c, rfl, ha, -, -⟩ := isRem_iff.mp h
  have hstarts : startsRemComment [a, b, c] = true := by
    have hend : (!isWordByte (front []) && !isTypeSuffix (front [])) = true := by decide
    change (isRem [a, b, c] && !isWordByte (front []) && !isTypeSuffix (front [])) = true
    rw [h, Bool.and_assoc, hend]
    rfl
  have hline : lineWidth [a, b, c] = 3 := by
    rw [lineWidth, List.takeWhile_eq_self_iff.mpr (isLineBreak_of_isRem h)]
    rfl
  rw [isToken_iff, scan_of_upper_eq ha, if_pos hstarts, hline]
  rfl

/-- The word Rem is a comment or a name, and no keyword. -/
theorem kind_of_isRem (h : isRem ((c :: rest).take (scan c rest).2) = true) :
    (scan c rest).1 = .trivia .remComment ∨ (scan c rest).1 = .lexeme .identifier := by
  obtain ⟨n, hn⟩ := Nat.exists_eq_add_one_of_ne_zero (scan_pos c rest).ne'
  obtain ⟨a, b, d, htake, ha, -, -⟩ := isRem_iff.mp h
  -- the token starts with the letter R, so it is a comment or a word
  obtain ⟨rfl, -⟩ : c = a ∧ _ := by
    rw [hn, List.take_succ_cons] at htake
    exact List.cons.inj htake
  clear hn htake
  revert h
  rw [scan_of_upper_eq ha]
  split
  · exact fun _ => .inl rfl
  · unfold word
    dsimp only
    split
    · exact fun _ => .inr rfl
    · split
      next keyword hkeyword =>
        intro hrem
        have hnone : Keyword.ofWord? (ofString "REM") = none := by decide +kernel
        rw [take_length_takeWhile] at hrem
        rw [Keyword.ofWord?_eq_of_map_upper (beq_iff_eq.mp hrem), hnone] at hkeyword
        cases hkeyword
      next => split <;> exact fun _ => .inr rfl

/-- A token of a source is one token by itself, of the same kind and the same text. The exceptions
are the end marker and the word Rem as a name. -/
theorem token_alone (source : Bytes) (file : UInt32) :
    ∀ t ∈ tokens source file, t.kind ≠ .lexeme .endOfFile →
      ¬ (t.kind = .lexeme .identifier ∧ equalIgnoringCase t.text (ofString "REM") = true) →
        IsToken t.kind t.text := by
  intro t ht hend hname
  obtain ⟨ts, htokens, hts⟩ := (divided_tokens source file).exists_marker
  rw [htokens, List.mem_append, List.mem_singleton] at ht
  rcases ht with ht | rfl
  · obtain ⟨m, c, rest, rfl, -, -⟩ := hts t ht
    rw [kind_tokenAt, (text_tokenAt file _ c rest).1] at hname ⊢
    cases hrem : isRem ((c :: rest).take (scan c rest).2) with
    | false => exact isToken_take hrem
    | true =>
      -- the one text that a reader refuses in front of another text and takes by itself
      rcases kind_of_isRem hrem with hkind | hkind
      · rw [hkind]
        exact isToken_of_isRem hrem
      · exact absurd ⟨hkind, hrem⟩ hname
  · exact absurd rfl hend

/-- `12.Value`: the dot and the name are no part of the number, and the number without them is the
same. -/
theorem token_alone_number :
    ∃ t ∈ tokens (ofString "12.Value") 1, t.kind ≠ .lexeme .endOfFile ∧
      ¬ (t.kind = .lexeme .identifier ∧ equalIgnoringCase t.text (ofString "REM") = true) ∧
        t.text = ofString "12" ∧ IsToken t.kind t.text := by
  let t : Token :=
    { kind := .lexeme .integerLiteral, text := ofString "12", offset := 0,
      loc := { file := 1, line := 1, column := 1 } }
  have ht : t ∈ tokens (ofString "12.Value") 1 := by decide +kernel
  have hend : t.kind ≠ .lexeme .endOfFile := by decide
  have hname :
      ¬ (t.kind = .lexeme .identifier ∧ equalIgnoringCase t.text (ofString "REM") = true) := by
        decide
  exact ⟨t, ht, hend, hname, rfl, token_alone (ofString "12.Value") 1 t ht hend hname⟩

end LosslessBasic.Lexer
