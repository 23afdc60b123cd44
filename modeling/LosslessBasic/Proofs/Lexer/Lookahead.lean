import LosslessBasic.Proofs.Lexer.Tokens

/-!
# Recognising a token looks no further than a line feed

What a token is and how long it is does not depend on what stands behind a line feed, except for a
line break that is cut off by the end of the source and for a character that is. `Bytes.Agree`
relates byte strings that are the same up to a line feed in both; the readers of `Lexer.scan` go
through it in the order of their definitions, up to `scan_eq`.
-/

namespace LosslessBasic

namespace Bytes

/-- Bytes that are the same up to some line feed. -/
inductive Agree : Bytes → Bytes → Prop
  /-- What stands behind the line feed does not matter. -/
  | stop (rest rest' : Bytes) : Agree (lineFeed :: rest) (lineFeed :: rest')
  /-- The bytes before the line feed are the same. -/
  | cons (c : UInt8) {rest rest' : Bytes} (h : Agree rest rest') : Agree (c :: rest) (c :: rest')

namespace Agree

variable {bytes bytes' : Bytes}

/-- Bytes that end in a line feed agree with any that go on behind them. -/
theorem of_getLast? (h : bytes.getLast? = some lineFeed) (more : Bytes) :
    Agree bytes (bytes ++ more) := by
  induction bytes with
  | nil => cases h
  | cons c rest ih =>
    cases rest with
    | nil =>
      obtain rfl : c = lineFeed := by simpa using h
      exact .stop [] more
    | cons d rest => exact .cons c (ih (by simpa using h))

/-- The first byte is the same. -/
theorem exists_cons (h : Agree bytes bytes') :
    ∃ c rest rest', bytes = c :: rest ∧ bytes' = c :: rest' := by
  cases h with
  | stop rest rest' => exact ⟨_, rest, rest', rfl, rfl⟩
  | cons c => exact ⟨c, _, _, rfl, rfl⟩

/-- Texts that agree up to the end of a line have the same first byte, or none. -/
theorem head?_eq (h : Agree bytes bytes') : bytes'.head? = bytes.head? := by
  obtain ⟨c, rest, rest', rfl, rfl⟩ := h.exists_cons
  rfl

/-- Texts that agree up to the end of a line have the same byte in front. -/
theorem front_eq (h : Agree bytes bytes') : front bytes' = front bytes := by
  obtain ⟨c, rest, rest', rfl, rfl⟩ := h.exists_cons
  rfl

/-- Behind a byte that is no line feed texts agree if they did in front of it. -/
theorem tail {c : UInt8} {rest rest' : Bytes} (h : Agree (c :: rest) (c :: rest'))
    (hc : c ≠ lineFeed) : Agree rest rest' := by
  cases h with
  | stop => exact absurd rfl hc
  | cons _ h => exact h

variable {p : UInt8 → Bool}

/-- What is taken up to the line feed is the same. -/
theorem takeWhile_eq (hp : p lineFeed = false) (h : Agree bytes bytes') :
    bytes'.takeWhile p = bytes.takeWhile p := by
  induction h with
  | stop rest rest' =>
    rw [List.takeWhile_cons_of_neg (by simp [hp]), List.takeWhile_cons_of_neg (by simp [hp])]
  | cons c h ih => rw [List.takeWhile_cons, List.takeWhile_cons, ih]

/-- What is left behind it agrees. -/
theorem drop_takeWhile (hp : p lineFeed = false) (h : Agree bytes bytes') :
    Agree (bytes.drop (bytes.takeWhile p).length) (bytes'.drop (bytes.takeWhile p).length) := by
  induction h with
  | stop rest rest' =>
    rw [List.takeWhile_cons_of_neg (by simp [hp])]
    exact .stop rest rest'
  | cons c h ih =>
    rw [List.takeWhile_cons]
    split
    · exact ih
    · exact .cons c h

/-- What is left behind bytes that have no line feed among them agrees. -/
theorem drop (h : Agree bytes bytes') {n : Nat} (hn : lineFeed ∉ bytes.take n) :
    Agree (bytes.drop n) (bytes'.drop n) := by
  induction h generalizing n with
  | stop rest rest' =>
    cases n with
    | zero => exact .stop rest rest'
    | succ n => simp at hn
  | cons c h ih =>
    cases n with
    | zero => exact .cons c h
    | succ n => exact ih fun hmem => hn (List.mem_cons_of_mem _ hmem)

/-- What is left behind a first byte that is no line feed agrees. -/
theorem drop_one (h : Agree bytes bytes') (hfront : front bytes ≠ lineFeed) :
    Agree (bytes.drop 1) (bytes'.drop 1) := by
  obtain ⟨c, rest, rest', rfl, rfl⟩ := h.exists_cons
  exact h.tail hfront

end Agree

end Bytes

namespace Ascii

open Bytes

/-- A word that has no line feed in it stands in front of both or of none. -/
theorem startsWithIgnoringCase_eq {bytes bytes' word : Bytes} (h : Agree bytes bytes')
    (hword : lineFeed ∉ word.map upper) :
    startsWithIgnoringCase bytes' word = startsWithIgnoringCase bytes word := by
  unfold startsWithIgnoringCase equalIgnoringCase
  induction h generalizing word with
  | stop rest rest' =>
    cases word with
    | nil => rfl
    | cons w word =>
      have hw : (lineFeed == upper w) = false := by
        simp only [List.map_cons, List.mem_cons, not_or] at hword
        exact beq_eq_false_iff_ne.mpr hword.1
      have hupper : upper lineFeed = lineFeed := by decide
      simp [hupper, hw]
  | cons c h ih =>
    cases word with
    | nil => rfl
    | cons w word =>
      simp only [List.map_cons, List.mem_cons, not_or] at hword
      simp only [List.length_cons, List.take_succ_cons, List.map_cons, List.cons_beq_cons,
        ih hword.2]

/-- Behind such a word the bytes agree. -/
theorem agree_drop_of_startsWithIgnoringCase {bytes bytes' word : Bytes} (h : Agree bytes bytes')
    (hword : lineFeed ∉ word.map upper) (hstarts : startsWithIgnoringCase bytes word = true) :
    Agree (bytes.drop word.length) (bytes'.drop word.length) := by
  refine h.drop fun hmem => hword ?_
  have hupper : upper lineFeed = lineFeed := by decide
  have heq : (bytes.take word.length).map upper = word.map upper := by
    simpa [startsWithIgnoringCase, equalIgnoringCase] using hstarts
  rw [← heq, ← hupper]
  exact List.mem_map_of_mem hmem

end Ascii

/-! ## Numbers -/

namespace Number

open Bytes Ascii

variable {bytes bytes' : Bytes}

/-- Where texts agree a run of digits is as wide, and they agree behind it. -/
theorem digitRun_eq (h : Agree bytes bytes') :
    digitRun bytes' = digitRun bytes ∧
      Agree (bytes.drop (digitRun bytes)) (bytes'.drop (digitRun bytes)) := by
  refine ⟨?_, h.drop_takeWhile (by decide)⟩
  unfold digitRun
  rw [h.takeWhile_eq (by decide)]

/-- A fraction is read in front of the line feed. -/
theorem fractionWidth_eq (h : Agree bytes bytes') :
    fractionWidth bytes' = fractionWidth bytes ∧
      Agree (bytes.drop (fractionWidth bytes)) (bytes'.drop (fractionWidth bytes)) := by
  obtain ⟨c, rest, rest', rfl, rfl⟩ := h.exists_cons
  unfold fractionWidth
  by_cases hdot : (c == byte '.') = true
  · have hrest : Agree rest rest' := h.tail (by rintro rfl; revert hdot; decide)
    obtain ⟨hrun, hdrop⟩ := digitRun_eq hrest
    simp only [if_pos hdot, hrest.front_eq, hrun, true_and]
    split
    · simpa [Nat.add_comm 1] using hdrop
    · split
      · exact hrest
      · exact h
  · simp only [if_neg hdot, true_and]
    exact h

/-- An exponent is read in front of the line feed. -/
theorem exponentWidth_eq (h : Agree bytes bytes') :
    exponentWidth bytes' = exponentWidth bytes ∧
      Agree (bytes.drop (exponentWidth bytes)) (bytes'.drop (exponentWidth bytes)) := by
  obtain ⟨c, rest, rest', rfl, rfl⟩ := h.exists_cons
  unfold exponentWidth
  by_cases hletter : (upper c == byte 'E' || upper c == byte 'D') = true
  · have hrest : Agree rest rest' := h.tail (by rintro rfl; revert hletter; decide)
    simp only [if_pos hletter, hrest.front_eq]
    generalize hsign : (if front rest == byte '+' || front rest == byte '-' then 1 else 0) = sign
    have hdigits : Agree (rest.drop sign) (rest'.drop sign) := by
      rw [← hsign]
      split
      next hfront => exact hrest.drop_one (by rintro heq; rw [heq] at hfront; revert hfront; decide)
      next => exact hrest
    obtain ⟨hrun, hdrop⟩ := digitRun_eq hdigits
    simp only [hrun, true_and]
    split
    · exact h
    · rw [List.drop_drop, List.drop_drop] at hdrop
      rw [Nat.add_assoc, Nat.add_comm 1]
      exact hdrop
  · simp only [if_neg hletter, true_and]
    exact h

/-- A decimal number is read in front of the line feed. -/
theorem decimal_eq (h : Agree bytes bytes') : decimal bytes' = decimal bytes := by
  obtain ⟨hwhole, hbehindWhole⟩ := digitRun_eq h
  obtain ⟨hfraction, hbehindFraction⟩ := fractionWidth_eq hbehindWhole
  rw [List.drop_drop, List.drop_drop] at hbehindFraction
  obtain ⟨hexponent, hbehind⟩ := exponentWidth_eq hbehindFraction
  rw [List.drop_drop, List.drop_drop] at hbehind
  unfold decimal
  simp only [hwhole, hfraction, hexponent]
  obtain ⟨suffix, rest, rest', hrest, hrest'⟩ := hbehind.exists_cons
  rw [hrest, hrest'] at hbehind ⊢
  dsimp only
  cases hsuffix : suffixed? suffix with
  | none => rfl
  | some lexeme =>
    have hagree : Agree rest rest' := hbehind.tail (by rintro rfl; cases hsuffix)
    simp only [hagree.front_eq]

theorem startsDecimal_eq {c : UInt8} {rest rest' : Bytes} (h : Agree (c :: rest) (c :: rest')) :
    startsDecimal c rest' = startsDecimal c rest := by
  unfold startsDecimal
  by_cases hdot : (c == byte '.') = true
  · rw [(h.tail (by rintro rfl; revert hdot; decide)).front_eq]
  · simp [hdot]

/-- Neither the letter of a base nor its digits are line feeds. -/
theorem radixDigit?_ne_lineFeed {letter : UInt8} {isRadixDigit : UInt8 → Bool}
    (h : radixDigit? letter = some isRadixDigit) :
    letter ≠ lineFeed ∧ isRadixDigit lineFeed = false := by
  have hnone : radixDigit? lineFeed = none := by decide
  constructor
  · rintro rfl
    rw [hnone] at h
    cases h
  unfold radixDigit? at h
  split at h
  · cases h
    decide
  · split at h
    · cases h
      decide
    · cases h

/-- A number of base 16 or 8 is read in front of the line feed. -/
theorem based?_eq (h : Agree bytes bytes') : based? bytes' = based? bytes := by
  obtain ⟨c, rest, rest', rfl, rfl⟩ := h.exists_cons
  by_cases hampersand : (c == byte '&') = true
  · have hrest : Agree rest rest' := h.tail (by rintro rfl; revert hampersand; decide)
    obtain ⟨letter, rest, rest', rfl, rfl⟩ := hrest.exists_cons
    unfold based?
    simp only [if_pos hampersand]
    cases hradix : radixDigit? letter with
    | none => rfl
    | some isRadixDigit =>
      obtain ⟨hletter, hlineFeed⟩ := radixDigit?_ne_lineFeed hradix
      have hdigits : Agree rest rest' := hrest.tail hletter
      have hbehind := (hdigits.drop_takeWhile hlineFeed).front_eq
      simp only [hdigits.takeWhile_eq hlineFeed, hbehind]
  · have hnone (rest : Bytes) : based? (c :: rest) = none := by
      cases rest with
      | nil => rfl
      | cons letter rest => simp [based?, hampersand]
    rw [hnone, hnone]

end Number

/-! ## Tokens -/

namespace Lexer

open Bytes Ascii

variable {bytes bytes' : Bytes}

theorem lineWidth_eq (h : Agree bytes bytes') : lineWidth bytes' = lineWidth bytes := by
  unfold lineWidth
  rw [h.takeWhile_eq (by decide)]

theorem lineBreakWidth_eq (h : Agree bytes bytes') :
    Cursor.lineBreakWidth bytes' = Cursor.lineBreakWidth bytes := by
  cases h with
  | stop => rfl
  | cons c h => simp only [Cursor.lineBreakWidth, h.head?_eq]

theorem startsRemComment_eq (h : Agree bytes bytes') :
    startsRemComment bytes' = startsRemComment bytes := by
  unfold startsRemComment
  have hword : lineFeed ∉ (ofString "REM").map upper := by decide
  rw [startsWithIgnoringCase_eq h hword]
  cases hstarts : startsWithIgnoringCase bytes (ofString "REM") with
  | false => rfl
  | true =>
    have hbehind : Agree (bytes.drop 3) (bytes'.drop 3) :=
      agree_drop_of_startsWithIgnoringCase h hword hstarts
    rw [hbehind.front_eq]

theorem continuationWidth?_eq (h : Agree bytes bytes') :
    continuationWidth? bytes' = continuationWidth? bytes := by
  obtain ⟨c, rest, rest', rfl, rfl⟩ := h.exists_cons
  unfold continuationWidth?
  by_cases hunderscore : (c == byte '_') = true
  · have hrest : Agree rest rest' := h.tail (by rintro rfl; revert hunderscore; decide)
    have hbehind := lineBreakWidth_eq (hrest.drop_takeWhile (p := isBlank) (by decide))
    simp only [hrest.takeWhile_eq (p := isBlank) (by decide), hbehind]
  · simp only [if_neg hunderscore]

theorem closeQuote_eq (h : Agree bytes bytes') (seen : Nat) :
    closeQuote seen bytes' = closeQuote seen bytes := by
  have hbehind {c : UInt8} {rest rest' : Bytes} (h : Agree (c :: rest) (c :: rest'))
      (hbreak : ¬ isLineBreak c = true) : Agree rest rest' :=
    h.tail (by rintro rfl; exact hbreak (by decide))
  -- by induction on the search, which never looks past a line break
  induction seen, bytes using closeQuote.induct generalizing bytes' with
  | case1 => nomatch h
  | case2 seen c rest hbreak =>
    obtain ⟨c, rest, rest', ⟨⟩, rfl⟩ := h.exists_cons
    rw [closeQuote.eq_def, closeQuote.eq_def]
    simp only [if_pos hbreak]
  | case3 seen c hbreak hquote =>
    obtain ⟨c, rest, rest', ⟨⟩, rfl⟩ := h.exists_cons
    nomatch hbehind h hbreak
  | case4 seen c hbreak hquote d rest hd ih =>
    obtain ⟨c, rest, rest', ⟨⟩, rfl⟩ := h.exists_cons
    have hrest := hbehind h hbreak
    obtain ⟨d, rest, rest', ⟨⟩, rfl⟩ := hrest.exists_cons
    rw [closeQuote.eq_def, closeQuote.eq_def]
    simp only [if_neg hbreak, if_pos hquote, if_pos hd]
    exact ih (hrest.tail (by rintro rfl; revert hd; decide))
  | case5 seen c hbreak hquote d rest hd =>
    obtain ⟨c, rest, rest', ⟨⟩, rfl⟩ := h.exists_cons
    obtain ⟨d, rest, rest', ⟨⟩, rfl⟩ := (hbehind h hbreak).exists_cons
    rw [closeQuote.eq_def, closeQuote.eq_def]
    simp only [if_neg hbreak, if_pos hquote, if_neg hd]
  | case6 seen c rest hbreak hquote ih =>
    obtain ⟨c, rest, rest', ⟨⟩, rfl⟩ := h.exists_cons
    rw [closeQuote.eq_def, closeQuote.eq_def]
    simp only [if_neg hbreak, if_neg hquote]
    exact ih (hbehind h hbreak)

theorem dateLiteral_eq (h : Agree bytes bytes') : dateLiteral bytes' = dateLiteral bytes := by
  have hline (bytes : Bytes) :
      bytes.take (lineWidth bytes) = bytes.takeWhile fun c => !isLineBreak c :=
    (List.prefix_iff_eq_take.mp (List.takeWhile_prefix _)).symm
  unfold dateLiteral
  rw [hline, hline, h.takeWhile_eq (by decide)]

theorem word_eq (h : Agree bytes bytes') : word bytes' = word bytes := by
  have hbehind := h.drop_takeWhile (p := isWordByte) (by decide)
  unfold word
  rw [h.takeWhile_eq (by decide)]
  dsimp only
  rw [hbehind.front_eq]
  split
  · rfl
  split
  · rfl
  cases hsuffix : isTypeSuffix (front (bytes.drop (bytes.takeWhile isWordByte).length)) with
  | false => rfl
  | true =>
    have hfront : front (bytes.drop (bytes.takeWhile isWordByte).length) ≠ lineFeed := by
      intro heq
      rw [heq] at hsuffix
      revert hsuffix
      decide
    rw [(hbehind.drop_one hfront).front_eq]

/-- Only a character that the end of the source cuts off is shorter than its first byte says. -/
theorem punctuation_eq (c : UInt8) (h : Agree bytes bytes') (hlength : bytes.length ≤ bytes'.length)
    (hwidth : (punctuation c bytes).2 ≤ bytes.length) :
    punctuation c bytes' = punctuation c bytes := by
  have htake : bytes'.take 1 = bytes.take 1 := by
    obtain ⟨d, rest, rest', rfl, rfl⟩ := h.exists_cons
    rfl
  unfold punctuation at hwidth ⊢
  rw [htake]
  split
  · rfl
  next hpair =>
    rw [hpair] at hwidth
    dsimp only at hwidth ⊢
    split
    · rfl
    next hsingle =>
      rw [hsingle] at hwidth
      dsimp only at hwidth ⊢
      congr 1
      omega

/-- What a token is and how wide, up to its end or to a line feed in front, does not depend on what
stands behind the line feed. -/
theorem scan_eq {c : UInt8} {rest rest' : Bytes} (h : Agree (c :: rest) (c :: rest'))
    (hlength : rest.length ≤ rest'.length)
    (hwidth : (scan c rest).1 = .trivia .newline ∨ (scan c rest).2 ≤ rest.length) :
    scan c rest' = scan c rest := by
  unfold scan at hwidth ⊢
  simp only [lineBreakWidth_eq h, lineWidth_eq h, startsRemComment_eq h, continuationWidth?_eq h,
    Number.startsDecimal_eq h, Number.decimal_eq h, Number.based?_eq h, word_eq h,
    h.takeWhile_eq (p := isBlank) (by decide)]
  by_cases hbreak : isLineBreak c = true
  · simp only [if_pos hbreak]
  have hrest : Agree rest rest' := h.tail (by rintro rfl; exact hbreak (by decide))
  have hstring : stringLiteral rest' = stringLiteral rest := by
    unfold stringLiteral
    rw [closeQuote_eq hrest]
  simp only [if_neg hbreak, hstring, dateLiteral_eq hrest, hrest.front_eq] at hwidth ⊢
  split; · rfl
  split; · rfl
  split; · rfl
  split; · rfl
  split; · rfl
  split; · rfl
  split; · rfl
  split; · rfl
  split; · rfl
  next hcomment hrem hquote hnumberSign _ hcontinuation hdecimal _ hbased hword hblank =>
    simp only [if_neg hcomment, if_neg hrem, if_neg hquote, if_neg hnumberSign, hcontinuation,
      if_neg hdecimal, hbased, if_neg hword, if_neg hblank] at hwidth
    rw [punctuation_eq c hrest hlength (hwidth.resolve_left nofun)]

end Lexer

end LosslessBasic
