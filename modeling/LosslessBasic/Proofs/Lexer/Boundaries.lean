import LosslessBasic.Proofs.Lexer.Division
import LosslessBasic.Proofs.Text.CodePoints
import LosslessBasic.Proofs.Text.Languages

/-!
# Where tokens meet

No token ends within a character or within a line break. For characters this is what
`Lexer.scan_spells` says of a text and itself: what is left behind a token is a text again. For line
breaks it is said of the bytes of a token: only a line break and a line continuation have bytes of a
line break among theirs (`Lexer.onLine_scan`, `Lexer.onLine_of_wide`).

## Main results

* `Lexer.exists_startsAt`: every token of a source that is UTF-8 starts and ends where a character
  and a line break may start.
* `Lexer.tokens_keep_characters`: every token of such a source is UTF-8, and only line breaks and
  line continuations have bytes of a line break.
-/

namespace LosslessBasic

set_option maxRecDepth 2000

open Bytes Ascii

/-! ## Bytes on one line -/

/-- Whether none of the first `n` bytes of a text is one of a line break. -/
def Bytes.OnLine (x : Bytes) (n : Nat) : Prop := ∀ b ∈ x.take n, isLineBreak b = false

namespace Bytes.OnLine

variable {x : Bytes} {m n : Nat} {p : UInt8 → Bool}

theorem zero (x : Bytes) : x.OnLine 0 := fun _ hb => absurd hb List.not_mem_nil

/-- A first byte that breaks no line stands on the line. -/
theorem one (h : isLineBreak (front x) = false) : x.OnLine 1 := by
  cases x with
  | nil => exact fun _ hb => absurd hb List.not_mem_nil
  | cons c rest => exact List.forall_mem_singleton.mpr h

/-- In front of what stands on the line, a byte that breaks no line does so, too. -/
theorem cons {c : UInt8} (hc : isLineBreak c = false) (h : x.OnLine n) :
    OnLine (c :: x) (n + 1) := by
  rw [OnLine, List.take_succ_cons, List.forall_mem_cons]
  exact ⟨hc, h⟩

/-- What stands on the line, and what follows it on the line, do so together. -/
theorem add (hm : x.OnLine m) (hn : OnLine (x.drop m) n) : x.OnLine (m + n) := by
  intro b hb
  rw [List.take_add, List.mem_append] at hb
  rcases hb with hb | hb
  · exact hm b hb
  · exact hn b hb

/-- What is in front of something on the line stands on the line. -/
theorem mono (h : x.OnLine n) (hle : m ≤ n) : x.OnLine m := fun b hb =>
  h b ((List.take_prefix_take_left hle).subset hb)

/-- The bytes of a class that has none of a line break. -/
theorem takeWhile (hp : ∀ c, isLineBreak c = true → p c = false) (x : Bytes) :
    x.OnLine (x.takeWhile p).length := by
  have htake : x.take (x.takeWhile p).length = x.takeWhile p :=
    (List.prefix_iff_eq_take.mp (List.takeWhile_prefix p)).symm
  intro b hb
  rw [htake] at hb
  cases hbreak : isLineBreak b with
  | false => rfl
  | true =>
    have hclass := List.mem_takeWhile_imp hb
    rw [hp b hbreak] at hclass
    cases hclass

end Bytes.OnLine

/-! ## Numbers -/

namespace Number

theorem onLine_digitRun (x : Bytes) : x.OnLine (digitRun x) := .takeWhile isDigit_class.lineBreak x

theorem onLine_fractionWidth (x : Bytes) : x.OnLine (fractionWidth x) := by
  rw [fractionWidth_eq_ite]
  split
  next hdot =>
    have hone : x.OnLine 1 := .one (period_class.isLineBreak_eq_false hdot)
    split
    · exact hone.add (by simpa using onLine_digitRun x.tail)
    split
    · exact hone
    · exact .zero x
  next => exact .zero x

theorem onLine_exponentWidth (x : Bytes) : x.OnLine (exponentWidth x) := by
  rw [exponentWidth_eq_ite]
  split
  next hletter =>
    have hone : x.OnLine 1 := .one (exponent_class.isLineBreak_eq_false hletter)
    dsimp only
    generalize hwidth : (if front x.tail == byte '+' || front x.tail == byte '-' then 1 else 0) =
      width
    have hsign : OnLine (x.drop 1) width := by
      rw [List.drop_one, ← hwidth]
      split
      next hfront => exact .one (sign_class.isLineBreak_eq_false hfront)
      next => exact .zero _
    split
    · exact .zero x
    · refine (hone.add hsign).add ?_
      rw [← List.drop_drop, List.drop_one]
      exact onLine_digitRun _
  next => exact .zero x

/-- The suffix of a number breaks no line. -/
theorem isLineBreak_of_suffixed? {suffix : UInt8} {l : Lexeme} (h : suffixed? suffix = some l) :
    isLineBreak suffix = false := by
  have hall : ∀ c, suffixed? c ≠ none → isLineBreak c = false := by decide
  exact hall suffix (by rw [h]; exact Option.some_ne_none l)

theorem onLine_decimal (x : Bytes) : x.OnLine (decimal x).2 := by
  rw [decimal_eq_match]
  dsimp only
  generalize hfraction : fractionWidth (x.drop (digitRun x)) = fraction
  generalize hexponent : exponentWidth (x.drop (digitRun x + fraction)) = exponent
  have hwidth : x.OnLine (digitRun x + fraction + exponent) := by
    refine ((onLine_digitRun x).add ?_).add ?_
    · rw [← hfraction]
      exact onLine_fractionWidth _
    · rw [← hexponent]
      exact onLine_exponentWidth _
  split
  next hsuffix =>
    split
    · exact hwidth
    · exact hwidth.add (.one (isLineBreak_of_suffixed? hsuffix))
  next => exact hwidth

theorem onLine_based? {x : Bytes} {number : Lexeme × Nat} (h : based? x = some number) :
    x.OnLine number.2 := by
  rw [based?_eq_match] at h
  split at h
  next hampersand =>
    have hone : x.OnLine 1 := .one (by rw [beq_iff_eq.mp hampersand]; decide)
    split at h
    · cases h
    next isRadixDigit hradix =>
      obtain ⟨hletter, hdigit⟩ := isSolidClass_of_radixDigit? hradix
      dsimp only at h
      generalize hdigits : (x.tail.tail.takeWhile isRadixDigit).length = digits at h
      have htwo : x.OnLine 2 := by
        refine hone.add (.one ?_)
        rw [List.drop_one]
        exact hletter.isLineBreak_eq_false (beq_self_eq_true _)
      have htail : x.tail.tail = x.drop 2 := by
        rw [← List.drop_one, ← List.drop_one, List.drop_drop]
      have hrun : x.OnLine (2 + digits) := by
        refine htwo.add ?_
        rw [← hdigits, htail]
        exact .takeWhile hdigit.lineBreak _
      have hsuffix {sign : UInt8} (hfront : (front (x.tail.tail.drop digits) == sign) = true)
          (hsign : isLineBreak sign = false) : x.OnLine (digits + 3) := by
        have hall : x.OnLine (2 + digits + 1) := by
          refine hrun.add (.one ?_)
          rw [← List.drop_drop, ← htail, beq_iff_eq.mp hfront, hsign]
        exact hall.mono (by omega)
      -- without a digit there is no number, and with one there may be either of two suffixes
      split at h
      · cases h
      split at h
      next hfront =>
        cases h
        exact hsuffix hfront (by decide)
      split at h
      next hfront =>
        cases h
        exact hsuffix hfront (by decide)
      next =>
        cases h
        exact hrun.mono (by dsimp only; omega)
  next => cases h

end Number

/-! ## Tokens -/

namespace Lexer

theorem onLine_lineWidth (x : Bytes) : x.OnLine (lineWidth x) := .takeWhile (by decide) x

/-- The bytes of a quoted text that are read in one go. -/
theorem onLine_closeQuote (seen : Nat) (x : Bytes) :
    ∃ n, (closeQuote seen x).2 = seen + n ∧ x.OnLine n := by
  have hquote : isLineBreak doubleQuote = false := by decide
  have hnot {c : UInt8} (hc : ¬ isLineBreak c = true) : isLineBreak c = false := by simpa using hc
  -- along the recursion of `closeQuote`, which stops in front of a line break
  induction seen, x using closeQuote.induct with
  | case1 seen => exact ⟨0, rfl, .zero _⟩
  | case2 seen c rest hbreak =>
    refine ⟨0, ?_, .zero _⟩
    rw [closeQuote.eq_def]
    simp only [if_pos hbreak, Nat.add_zero]
  | case3 seen c hbreak hc =>
    refine ⟨1, ?_, .one (hnot hbreak)⟩
    rw [closeQuote.eq_def]
    simp only [if_neg hbreak, if_pos hc]
  | case4 seen c hbreak hc d rest hd ih =>
    obtain ⟨n, hn, honline⟩ := ih
    have hdbreak : isLineBreak d = false := by rw [beq_iff_eq.mp hd, hquote]
    refine ⟨n + 2, ?_, .cons (hnot hbreak) (.cons hdbreak honline)⟩
    rw [closeQuote.eq_def]
    simp only [if_neg hbreak, if_pos hc, if_pos hd, hn]
    omega
  | case5 seen c hbreak hc d rest hd =>
    refine ⟨1, ?_, .one (hnot hbreak)⟩
    rw [closeQuote.eq_def]
    simp only [if_neg hbreak, if_pos hc, if_neg hd]
  | case6 seen c rest hbreak hc ih =>
    obtain ⟨n, hn, honline⟩ := ih
    refine ⟨n + 1, ?_, .cons (hnot hbreak) honline⟩
    rw [closeQuote.eq_def]
    simp only [if_neg hbreak, if_neg hc, hn]
    omega

theorem onLine_stringLiteral {c : UInt8} (hc : isLineBreak c = false) (rest : Bytes) :
    OnLine (c :: rest) (stringLiteral rest).2 := by
  obtain ⟨n, hn, honline⟩ := onLine_closeQuote 1 rest
  have hwidth : (stringLiteral rest).2 = n + 1 := by
    rw [Nat.add_comm, ← hn]
    unfold stringLiteral
    split <;> simp only [*]
  rw [hwidth]
  exact honline.cons hc

theorem onLine_dateLiteral {c : UInt8} (hc : isLineBreak c = false) (rest : Bytes) :
    OnLine (c :: rest) (dateLiteral rest).2 := by
  rw [dateLiteral_eq_ite]
  split
  next hdate =>
    -- the second number sign stands behind the bytes of the date
    have hbody : rest.OnLine ((rest.takeWhile inDate).length + 1) := by
      refine (OnLine.takeWhile inDate_class.lineBreak rest).add (.one ?_)
      rw [← Respelling.Spells.dropWhile_eq_drop]
      exact numberSign_class.isLineBreak_eq_false (Bool.and_eq_true_iff.mp hdate).1
    exact hbody.cons hc
  next => exact .one hc

/-- A sign, two of them, or a character of one byte. -/
theorem onLine_punctuation {c : UInt8} (hc : isLineBreak c = false) {rest : Bytes}
    (h : (punctuation c rest).1 = .unknownCharacter → c < 0x80) :
    OnLine (c :: rest) (punctuation c rest).2 := by
  have hsigns {text : Bytes} {l : Lexeme} (hl : Lexeme.ofText? text = some l) :
      ∀ b ∈ text, isLineBreak b = false := fun b hb =>
    isPrinted_class.isLineBreak_eq_false (sign_of_ofText? hl b hb).1
  revert h
  unfold punctuation
  split
  next hpair =>
    intro _ b hb
    refine hsigns hpair b ?_
    rwa [Nat.add_comm, List.take_succ_cons,
      ← List.prefix_iff_eq_take.mp (List.take_prefix 1 rest)] at hb
  next =>
    split
    · exact fun _ => .one hc
    · intro hascii
      have hwidth : min (Utf8.sequenceLength c) (1 + rest.length) = 1 := by
        rw [Utf8.sequenceLength, if_pos (hascii rfl)]
        omega
      rw [hwidth]
      exact .one hc

/-- Only a line break, a line continuation and a character that is no ASCII byte can have bytes of a
line break among theirs. -/
theorem onLine_scan {c : UInt8} {rest : Bytes} (hnewline : (scan c rest).1 ≠ .trivia .newline)
    (hcontinuation : (scan c rest).1 ≠ .trivia .lineContinuation)
    (hunknown : (scan c rest).1 = .lexeme .unknownCharacter → c < 0x80) :
    OnLine (c :: rest) (scan c rest).2 := by
  revert hnewline hcontinuation hunknown
  unfold scan
  dsimp only
  -- reader by reader, in the order in which `scan` tries them
  split
  · exact fun h => absurd rfl h
  next hbreak =>
    rw [Bool.not_eq_true] at hbreak
    split
    · exact fun _ _ _ => onLine_lineWidth _
    split
    · exact fun _ _ _ => onLine_lineWidth _
    split
    · exact fun _ _ _ => onLine_stringLiteral hbreak rest
    split
    · exact fun _ _ _ => onLine_dateLiteral hbreak rest
    split
    · exact fun _ h => absurd rfl h
    split
    · exact fun _ _ _ => Number.onLine_decimal _
    split
    next hbased => exact fun _ _ _ => Number.onLine_based? hbased
    split
    · exact fun _ _ _ b hb => isLineBreak_of_mem_word hb
    split
    · exact fun _ _ _ => .takeWhile isBlank_class.lineBreak _
    · exact fun _ _ h => onLine_punctuation hbreak fun hlexeme => h (congrArg Kind.lexeme hlexeme)

/-- Where a line break stands in front it is some bytes wide. -/
theorem lineBreakWidth_pos_of_front {x : Bytes} (h : isLineBreak (front x) = true) :
    0 < Cursor.lineBreakWidth x := by
  rw [eq_front_cons_tail (by decide) h]
  exact Cursor.lineBreakWidth_pos_iff.mpr h

/-- A line continuation has an underscore, blanks and a line break. -/
theorem exists_of_continuationWidth? {x : Bytes} {width : Nat}
    (h : continuationWidth? x = some width) :
    ∃ blanks y, x = byte '_' :: (blanks ++ y) ∧ (∀ b ∈ blanks, isBlank b = true) ∧
      isLineBreak (front y) = true ∧ width = blanks.length + Cursor.lineBreakWidth y + 1 := by
  rw [continuationWidth?_eq_ite] at h
  obtain ⟨hfront, h⟩ := Option.ite_none_right_eq_some.mp h
  obtain ⟨hpos, h⟩ := Option.ite_none_left_eq_some.mp h
  obtain ⟨c, y, hy, hbreak⟩ :=
    Cursor.exists_cons_of_lineBreakWidth_pos (Nat.pos_of_ne_zero (mt beq_iff_eq.mpr hpos))
  have hcons := eq_front_cons_tail (p := (· == byte '_')) (by decide) hfront
  rw [beq_iff_eq.mp hfront] at hcons
  refine ⟨x.tail.takeWhile isBlank, x.tail.dropWhile isBlank, ?_, fun b =>
    List.mem_takeWhile_imp, ?_, ?_⟩
  · rwa [List.takeWhile_append_dropWhile]
  · rwa [hy]
  · have hwidth := Option.some.inj h
    omega

/-- An underscore, blanks and a line break are read as a line continuation. -/
theorem continuationWidth?_append {blanks y : Bytes} (hblanks : ∀ b ∈ blanks, isBlank b = true)
    (hbreak : isLineBreak (front y) = true) :
    continuationWidth? (byte '_' :: (blanks ++ y)) =
      some (blanks.length + Cursor.lineBreakWidth y + 1) := by
  have hblank : isBlank (front y) = false := isBlank_class.lineBreak _ hbreak
  have hpos := lineBreakWidth_pos_of_front hbreak
  obtain ⟨htake, hdrop⟩ := takeWhile_append_of_front hblanks hblank
  have hzero : ¬ (Cursor.lineBreakWidth y == 0) = true := by simpa using hpos.ne'
  rw [continuationWidth?_eq_ite, front_cons, if_pos (beq_self_eq_true _), List.tail_cons,
    htake, hdrop]
  dsimp only
  rw [if_neg hzero, Nat.add_assoc, Nat.add_comm]

/-- What is recognised as a line continuation is read as one. -/
theorem continuationWidth?_of_scan {c : UInt8} {rest : Bytes}
    (h : (scan c rest).1 = .trivia .lineContinuation) :
    continuationWidth? (c :: rest) = some (scan c rest).2 := by
  revert h
  unfold scan
  dsimp only
  -- all other readers give other kinds
  split; · rintro ⟨⟩
  split; · rintro ⟨⟩
  split; · rintro ⟨⟩
  split; · rintro ⟨⟩
  split; · rintro ⟨⟩
  split
  next hcontinuation => exact fun _ => hcontinuation
  split; · rintro ⟨⟩
  split; · rintro ⟨⟩
  split
  · unfold word
    dsimp only
    split
    · rintro ⟨⟩
    · split
      · rintro ⟨⟩
      · split <;> rintro ⟨⟩
  split
  · rintro ⟨⟩
  · rintro ⟨⟩

end Lexer

/-! ## Parts of a text -/

/-- Whether neither a character nor a line break is split between two parts of a text. -/
structure Bytes.Apart (before behind : Bytes) : Prop where
  /-- The second part begins with no byte that continues a character. -/
  character : ∀ b ∈ behind.head?, Utf8.isContinuation b = false
  /-- It does not begin with the line feed to a carriage return. -/
  lineBreak : before.getLast? = some carriageReturn → behind.head? ≠ some lineFeed

/-- What stands apart at an offset begins with the byte there. -/
theorem Bytes.Apart.getElem?_ne {source : Bytes} {n : Nat}
    (h : Apart (source.take n) (source.drop n))
    (hreturn : (source.take n).getLast? = some carriageReturn) : source[n]? ≠ some lineFeed := by
  rw [← List.head?_drop]
  exact h.lineBreak hreturn

/-- What is UTF-8 begins with no byte that continues a character. -/
theorem Utf8.isContinuation_head? {x : Bytes} (h : firstInvalid? x = none) :
    ∀ b ∈ x.head?, isContinuation b = false := by
  obtain ⟨cs, rfl⟩ := exists_ofChars_of_firstInvalid? h
  cases cs with
  | nil => rintro b ⟨⟩
  | cons c cs =>
    obtain ⟨lead, more, heq, hlead, -⟩ := exists_cons_utf8EncodeChar c
    rw [ofChars_cons, heq]
    rintro b ⟨⟩
    exact hlead

/-- A line break is read as a whole. -/
theorem Cursor.head?_drop_lineBreakWidth {x : Bytes}
    (h : (x.take (lineBreakWidth x)).getLast? = some carriageReturn) :
    (x.drop (lineBreakWidth x)).head? ≠ some lineFeed := by
  revert h
  cases x with
  | nil => rintro ⟨⟩
  | cons c rest =>
    rw [lineBreakWidth]
    split
    · split
      next hfeed =>
        -- both bytes are read, and the second one is the line feed
        obtain ⟨more, rfl⟩ := List.head?_eq_some_iff.mp (beq_iff_eq.mp hfeed)
        rintro ⟨⟩
      next hfeed =>
        intro _ hhead
        exact hfeed (beq_iff_eq.mpr hhead)
    · split
      next hfeed =>
        obtain rfl := beq_iff_eq.mp hfeed
        rintro ⟨⟩
      next => rintro ⟨⟩

namespace Respelling

/-- The way to spell a text as it is. -/
def asItIs : Respelling where
  keepsCase := True
  ends := True
  lineBreak u u' := u = u'
  cut _ _ := False

/-- A text is a spelling of itself. -/
theorem spells_asItIs {x : Bytes} (h : Utf8.IsText x) : asItIs.Spells x x := by
  induction h with
  | nil => exact .nil trivial
  | byte hascii hbreak _ ih => exact .byte hascii hbreak rfl (fun _ => rfl) ih
  | wide hu hy _ ih => exact .wide hu hy hy ih
  | lineBreak hx _ ih => exact .lineBreak hx hx rfl ih

end Respelling

namespace Lexer

variable {c : UInt8} {rest : Bytes}

/-- Behind a token of a text there is a text again. -/
theorem firstInvalid?_drop_scan (hvalid : Utf8.firstInvalid? (c :: rest) = none) :
    Utf8.firstInvalid? ((c :: rest).drop (scan c rest).2) = none := by
  have hself := Respelling.spells_asItIs (Utf8.isText_of_firstInvalid? hvalid)
  have hreads := scan_spells hself fun ⟨_, _, _, hcut, _⟩ => hcut
  exact (hreads.behind.isText fun _ _ => False.elim).firstInvalid?_eq_none

/-- The bytes of a character that is no ASCII byte are none of a line break. -/
theorem onLine_of_wide (hvalid : Utf8.firstInvalid? (c :: rest) = none) (hwide : ¬ c < 0x80) :
    OnLine (c :: rest) (scan c rest).2 := by
  have htext := Utf8.isText_of_firstInvalid? hvalid
  generalize hx : c :: rest = x at htext
  cases htext with
  | nil => cases hx
  | byte hascii =>
    obtain ⟨rfl, rfl⟩ := List.cons.inj hx
    exact absurd hascii hwide
  | @wide u y _ hu hy =>
    -- the character is read as a whole, and nothing else with it
    rw [scan_of_isWide hu (hx.trans hy), hy]
    intro b hb
    rw [List.take_left] at hb
    exact (apart_of_wide b (hu.wide b hb)).2.1
  | lineBreak hpos =>
    subst hx
    exact absurd (Utf8.ascii_of_isLineBreak c (Cursor.lineBreakWidth_pos_iff.mp hpos)) hwide

/-- Bytes end as their last part does. -/
theorem getLast?_take_add {x : Bytes} {m n : Nat} (h : (x.drop m).take n ≠ []) :
    (x.take (m + n)).getLast? = ((x.drop m).take n).getLast? := by
  rw [List.take_add, List.getLast?_append, List.getLast?_eq_some_getLast h]
  rfl

/-- No token ends between a carriage return and its line feed. -/
theorem head?_drop_scan (hvalid : Utf8.firstInvalid? (c :: rest) = none)
    (h : ((c :: rest).take (scan c rest).2).getLast? = some carriageReturn) :
    ((c :: rest).drop (scan c rest).2).head? ≠ some lineFeed := by
  -- a token whose bytes break no line does not end in a carriage return
  have honline : ¬ OnLine (c :: rest) (scan c rest).2 := fun honline =>
    absurd (honline _ (List.mem_of_getLast? h)) (by decide)
  by_cases hnewline : (scan c rest).1 = .trivia .newline
  · rw [scan_of_isLineBreak (isLineBreak_of_scan hnewline)] at h ⊢
    dsimp only at h ⊢
    exact Cursor.head?_drop_lineBreakWidth h
  by_cases hcontinuation : (scan c rest).1 = .trivia .lineContinuation
  · have hwidth := continuationWidth?_of_scan hcontinuation
    rw [continuationWidth?_eq_ite] at hwidth
    obtain ⟨-, hwidth⟩ := Option.ite_none_right_eq_some.mp hwidth
    obtain ⟨hpos, hwidth⟩ := Option.ite_none_left_eq_some.mp hwidth
    have hbehind := drop_dropWhile_tail isBlank (c :: rest) 0
    rw [Nat.add_zero, List.drop_zero] at hbehind
    rw [hbehind] at hwidth hpos
    rw [← Option.some.inj hwidth] at h ⊢
    -- what stands behind the underscore and the blanks is the line break
    generalize 1 + ((c :: rest).tail.takeWhile isBlank).length = front at *
    generalize hbreak : (c :: rest).drop front = lineBreak at *
    have hne : lineBreak.take (Cursor.lineBreakWidth lineBreak) ≠ [] := by
      rw [Ne, List.take_eq_nil_iff, not_or]
      refine ⟨by simpa using hpos, ?_⟩
      rintro rfl
      exact hpos rfl
    rw [getLast?_take_add (by rwa [hbreak]), hbreak] at h
    rw [← List.drop_drop, hbreak]
    exact Cursor.head?_drop_lineBreakWidth h
  · refine absurd (onLine_scan hnewline hcontinuation fun _ => ?_) honline
    exact Decidable.byContradiction fun hwide => honline (onLine_of_wide hvalid hwide)

end Lexer

/-! ## The tokens of a text -/

/-- What is known of a token that starts at a byte of a source that is UTF-8. -/
structure Token.StartsAt (source : Bytes) (file : UInt32) (start : Nat) (t : Token) : Prop where
  /-- The byte is one of the source, or the end of it. -/
  le : start ≤ source.length
  /-- The offset is that of the byte, as a word. -/
  offset : t.offset = start.toUInt32
  /-- The token has the position of the byte. -/
  loc : t.loc = (Position.ofOffset source start).locate file
  /-- It has the bytes that the source has there. -/
  text : t.text <+: source.drop start
  /-- It starts where a character and a line break may start, -/
  before : Apart (source.take start) (source.drop start)
  /-- and ends where one may start. -/
  behind : Apart (source.take (start + t.text.length)) (source.drop (start + t.text.length))
  /-- Only the end marker has no bytes. -/
  ne_nil : start < source.length → t.text ≠ []

namespace Lexer

variable {source : Bytes} {file : UInt32} {n : Nat} {ts : List Token}

/-- Behind a token the rest of the source is UTF-8 and starts apart from what is in front of it. -/
theorem apart_behind {c : UInt8} {rest : Bytes} (hrest : source.drop n = c :: rest)
    (hvalid : Utf8.firstInvalid? (source.drop n) = none) :
    Utf8.firstInvalid? (source.drop (n + (scan c rest).2)) = none ∧
      Apart (source.take (n + (scan c rest).2)) (source.drop (n + (scan c rest).2)) := by
  have hbehind : (c :: rest).drop (scan c rest).2 = source.drop (n + (scan c rest).2) := by
    rw [← hrest, List.drop_drop]
  have hne : (source.drop n).take (scan c rest).2 ≠ [] := by
    rw [hrest, ← (text_tokenAt 0 {} c rest).1]
    exact List.cons_ne_nil _ _
  rw [hrest] at hvalid
  have hvalid' := firstInvalid?_drop_scan hvalid
  have hlineBreak := head?_drop_scan hvalid
  rw [hbehind] at hvalid' hlineBreak
  rw [← hrest, ← getLast?_take_add hne] at hlineBreak
  exact ⟨hvalid', Utf8.isContinuation_head? hvalid', hlineBreak⟩

/-- The tokens of a source, walked over from where a character and a line break may start. -/
theorem Divided.startsAt (h : Divided source file n ts)
    (hvalid : Utf8.firstInvalid? (source.drop n) = none)
    (hapart : Apart (source.take n) (source.drop n)) :
    ∀ t ∈ ts, ∃ start, t.StartsAt source file start := by
  induction h with
  | marker =>
    intro t ht
    obtain rfl := List.mem_singleton.mp ht
    exact ⟨source.length, Nat.le_refl _, rfl, rfl, List.nil_prefix, hapart, hapart,
      fun hlt => absurd hlt (Nat.lt_irrefl _)⟩
  | @token n c rest ts hrest hts ih =>
    obtain ⟨htext, hlength⟩ := text_tokenAt file (.ofOffset source n) c rest
    obtain ⟨hvalid', hapart'⟩ := apart_behind hrest hvalid
    intro t ht
    rcases List.mem_cons.mp ht with rfl | ht
    · have hle := length_of_drop_eq_cons hrest
      refine ⟨n, by omega, rfl, rfl, ?_, hapart, ?_, fun _ => List.cons_ne_nil _ _⟩
      · rw [htext, hrest]
        exact List.take_prefix _ _
      · rw [hlength]
        exact hapart'
    · exact ih hvalid' hapart' t ht

/-- Every token of a source that is UTF-8 starts and ends where a character and a line break may
start. -/
theorem exists_startsAt (hvalid : Utf8.firstInvalid? source = none) :
    ∀ t ∈ tokens source file, ∃ start, t.StartsAt source file start := by
  refine (divided_tokens source file).startsAt hvalid ⟨Utf8.isContinuation_head? hvalid, ?_⟩
  rw [List.take_zero]
  rintro ⟨⟩

end Lexer

/-! ## The texts of the tokens -/

namespace Bytes

/-- The line breaks: a carriage return with a line feed, or one of them alone. -/
def newlines : Language UInt8 :=
  oneOf [carriageReturn] * oneOf [lineFeed] + oneOf [lineFeed] + oneOf [carriageReturn]

/-- The line continuations: an underscore, blanks and a line break. -/
def continuations : Language UInt8 := oneOf [byte '_'] * (1 + runs isBlank) * newlines

end Bytes

/-- A line break is one of the newlines. -/
theorem Cursor.take_lineBreakWidth_mem {x : Bytes} (h : isLineBreak (front x) = true) :
    x.take (lineBreakWidth x) ∈ newlines := by
  have hone (c : UInt8) : [c] ∈ oneOf [c] := singleton_mem_oneOf (List.mem_singleton_self c)
  obtain ⟨c, y, rfl⟩ : ∃ c y, x = c :: y := ⟨_, _, eq_front_cons_tail (by decide) h⟩
  rw [lineBreakWidth]
  split
  next hreturn =>
    obtain rfl := beq_iff_eq.mp hreturn
    split
    next hfeed =>
      obtain ⟨more, hmore⟩ := List.head?_eq_some_iff.mp (beq_iff_eq.mp hfeed)
      rw [hmore]
      exact .inl (.inl (Language.append_mem_mul (hone _) (hone _)))
    next => exact .inr (hone _)
  next hreturn =>
    have hfeed : (c == lineFeed) = true := (Bool.or_eq_true_iff.mp h).resolve_left hreturn
    obtain rfl := beq_iff_eq.mp hfeed
    rw [if_pos hfeed]
    exact .inl (.inr (hone _))

/-- What is known of the text of a token of a source that is UTF-8. -/
structure Token.KeepsText (t : Token) : Prop where
  /-- It is UTF-8 itself. -/
  valid : Utf8.firstInvalid? t.text = none
  /-- A line break is one and no more. -/
  newline : t.kind = .trivia .newline → t.text ∈ newlines
  /-- A line continuation has one line break, at its end. -/
  continuation : t.kind = .trivia .lineContinuation → t.text ∈ continuations
  /-- Other tokens have no byte of a line break. -/
  onLine : t.kind ≠ .trivia .newline → t.kind ≠ .trivia .lineContinuation →
    ∀ b ∈ t.text, b ≠ carriageReturn ∧ b ≠ lineFeed

namespace Lexer

variable {c : UInt8} {rest : Bytes}

/-- A token of a text is a text. -/
theorem firstInvalid?_take_scan (hvalid : Utf8.firstInvalid? (c :: rest) = none) :
    Utf8.firstInvalid? ((c :: rest).take (scan c rest).2) = none := by
  -- what is left behind the token starts a character, so none is split
  obtain ⟨cs, hcs⟩ := Utf8.exists_ofChars_of_firstInvalid? hvalid
  have hbehind := Utf8.isContinuation_head? (firstInvalid?_drop_scan hvalid)
  rw [← List.take_append_drop (scan c rest).2 (c :: rest)] at hcs
  obtain ⟨before, -, -, hbefore, -⟩ := Utf8.exists_of_ofChars_eq_append hcs.symm hbehind
  rw [hbefore, Utf8.firstInvalid?_ofChars]

/-- What is read as a continued line is one of the continuations. -/
theorem take_scan_mem_continuations (h : (scan c rest).1 = .trivia .lineContinuation) :
    (c :: rest).take (scan c rest).2 ∈ continuations := by
  obtain ⟨blanks, y, hx, hblanks, hbreak, hwidth⟩ :=
    exists_of_continuationWidth? (continuationWidth?_of_scan h)
  have htake : (c :: rest).take (scan c rest).2 =
      [byte '_'] ++ blanks ++ y.take (Cursor.lineBreakWidth y) := by
    rw [hx, hwidth, List.take_succ_cons, List.take_length_add_append, List.append_assoc]
    rfl
  rw [htake]
  exact Language.append_mem_mul (Language.append_mem_mul
    (singleton_mem_oneOf (List.mem_singleton_self _)) (mem_one_add_runs_iff.mpr hblanks))
      (Cursor.take_lineBreakWidth_mem hbreak)

/-- A token of a valid text keeps its text. -/
theorem keepsText_tokenAt (file : UInt32) (p : Position)
    (hvalid : Utf8.firstInvalid? (c :: rest) = none) :
    (tokenAt file p c rest).KeepsText := by
  have htext := (text_tokenAt file p c rest).1
  constructor
  · rw [htext]
    exact firstInvalid?_take_scan hvalid
  · intro hkind
    rw [kind_tokenAt] at hkind
    have hbreak := isLineBreak_of_scan hkind
    rw [htext, scan_of_isLineBreak hbreak]
    exact Cursor.take_lineBreakWidth_mem (x := c :: rest) hbreak
  · intro hkind
    rw [kind_tokenAt] at hkind
    rw [htext]
    exact take_scan_mem_continuations hkind
  · rw [kind_tokenAt, htext]
    intro hnewline hcontinuation b hb
    have honline : OnLine (c :: rest) (scan c rest).2 := by
      by_cases hwide : c < 0x80
      · exact onLine_scan hnewline hcontinuation fun _ => hwide
      · exact onLine_of_wide hvalid hwide
    have hbreak := honline b hb
    rw [isLineBreak, Bool.or_eq_false_iff, beq_eq_false_iff_ne, beq_eq_false_iff_ne] at hbreak
    exact hbreak

variable {source : Bytes} {file : UInt32} {n : Nat} {ts : List Token}

/-- The tokens of a valid text keep their texts. -/
theorem Divided.keepsText (h : Divided source file n ts)
    (hvalid : Utf8.firstInvalid? (source.drop n) = none) : ∀ t ∈ ts, t.KeepsText := by
  induction h with
  | marker =>
    intro t ht
    obtain rfl := List.mem_singleton.mp ht
    exact ⟨rfl, nofun, nofun, fun _ _ b hb => absurd hb List.not_mem_nil⟩
  | @token n c rest ts hrest hts ih =>
    intro t ht
    rcases List.mem_cons.mp ht with rfl | ht
    · exact keepsText_tokenAt file _ (hrest ▸ hvalid)
    · exact ih (apart_behind hrest hvalid).1 t ht

/-- Between any two tokens the source falls apart. -/
theorem Divided.apart (h : Divided source file n ts)
    (hvalid : Utf8.firstInvalid? (source.drop n) = none)
    (hapart : Apart (source.take n) (source.drop n)) {before behind : List Token}
    (hts : ts = before ++ behind) :
    Apart (source.take n ++ before.flatMap Token.text) (behind.flatMap Token.text) := by
  induction h generalizing before with
  | marker =>
    have hend : Apart (source.take source.length) [] := ⟨nofun, nofun⟩
    rcases List.cons_eq_append_iff.mp hts with ⟨rfl, rfl⟩ | ⟨before, rfl, hnil⟩
    · simpa [endMarkerAt] using hend
    · obtain ⟨rfl, rfl⟩ := List.append_eq_nil_iff.mp hnil.symm
      simpa [endMarkerAt] using hend
  | @token n c rest ts hrest hdivided ih =>
    obtain ⟨hvalid', hapart'⟩ := apart_behind hrest hvalid
    -- the source falls apart in front of the first token, or behind it
    rcases List.cons_eq_append_iff.mp hts with ⟨rfl, rfl⟩ | ⟨before, rfl, hbehind⟩
    · rw [(Divided.token hrest hdivided).texts, List.flatMap_nil, List.append_nil]
      exact hapart
    · have htake : source.take n ++ (tokenAt file (.ofOffset source n) c rest).text =
          source.take (n + (scan c rest).2) := by
        rw [(text_tokenAt file _ c rest).1, ← hrest, List.take_add]
      rw [List.flatMap_cons, ← List.append_assoc, htake]
      exact ih hvalid' hapart' hbehind

/-- The tokens of a source that is UTF-8 are UTF-8; of these only line breaks and line continuations
have bytes of a line break, of one line break each; and no character and no line break is split
between two tokens. -/
theorem tokens_keep_characters (hvalid : Utf8.firstInvalid? source = none) (file : UInt32) :
    (∀ t ∈ tokens source file, t.KeepsText) ∧
      ∀ before behind, tokens source file = before ++ behind →
        Apart (before.flatMap Token.text) (behind.flatMap Token.text) := by
  have hdivided := divided_tokens source file
  refine ⟨hdivided.keepsText hvalid, fun before behind hts => ?_⟩
  refine hdivided.apart hvalid ⟨Utf8.isContinuation_head? hvalid, ?_⟩ hts
  rw [List.take_zero]
  rintro ⟨⟩

/-- A continued line behind a letter of two bytes: the continuation has the whole line break. -/
theorem tokens_keep_characters_continued :
    let source := [0xC3, 0xA9] ++ ofString " _ " ++ [carriageReturn, lineFeed]
    Utf8.firstInvalid? source = none ∧
      (∃ t ∈ tokens source 1, t.kind = .trivia .lineContinuation ∧ t.text ∈ continuations ∧
        t.text = ofString "_ " ++ [carriageReturn, lineFeed]) ∧
        ∀ n, Apart (((tokens source 1).take n).flatMap Token.text)
          (((tokens source 1).drop n).flatMap Token.text) := by
  intro source
  have hvalid : Utf8.firstInvalid? source = none := by decide
  obtain ⟨hkeeps, hapart⟩ := tokens_keep_characters hvalid 1
  let t : Token :=
    { kind := .trivia .lineContinuation, text := ofString "_ " ++ [carriageReturn, lineFeed],
      offset := 3,
      loc := { file := 1, line := 1, column := 3 } }
  have ht : t ∈ tokens source 1 := by decide +kernel
  exact ⟨hvalid, ⟨t, ht, rfl, (hkeeps t ht).continuation rfl, rfl⟩,
    fun n => hapart _ _ (List.take_append_drop n _).symm⟩

end Lexer

end LosslessBasic
