import LosslessBasic.Proofs.Kind.Lookup
import LosslessBasic.Proofs.Lexer.NumbersRespelled

/-!
# Tokens in another spelling

What `Lexer.scan` reads from a text it reads from the same text in another spelling, and what is
left behind the token is the same text in that spelling again, unless the token runs into the place
from which on the texts differ (`Lexer.scan_spells`). Only a line break, on its own or at the end of
a line continuation, may be of another width.
-/

namespace LosslessBasic.Lexer

set_option maxRecDepth 2000

open Bytes Ascii Respelling

variable {r : Respelling} {x x' : Bytes}

theorem line_class : IsClass (fun c => !isLineBreak c) := by decide

theorem isLetter_class : IsClass isLetter := by decide

/-- A reading that starts in front of another one passes what that one passes. -/
theorem passes_append {n : Nat} (u : Bytes) (h : r.Passes x n) :
    r.Passes (u ++ x) (u.length + n) := by
  obtain ⟨q, y, y', hcut, hunseen, rfl, hlt⟩ := h
  refine ⟨u ++ q, y, y', hcut, hunseen, (List.append_assoc ..).symm, ?_⟩
  rw [List.length_append]
  omega

/-- A run that does not pass the place from which on the texts differ. -/
theorem run_of_not_passes {p : UInt8 → Bool} (hp : IsClass p) (h : r.Spells x x')
    (hpass : ¬ r.Passes x (x.takeWhile p).length) :
    (x'.takeWhile p).length = (x.takeWhile p).length ∧
      r.Spells (x.drop (x.takeWhile p).length) (x'.drop (x.takeWhile p).length) := by
  obtain ⟨htext, hbehind⟩ := h.takeWhile_of_not_passes hp hpass
  have hlength : (x'.takeWhile p).length = (x.takeWhile p).length := by
    simpa using congrArg List.length htext
  rw [Spells.dropWhile_eq_drop, Spells.dropWhile_eq_drop, hlength] at hbehind
  exact ⟨hlength, hbehind⟩

/-! ## Comments and line breaks -/

/-- Whether a text starts with a word, and what follows it, does not depend on how it is spelled. -/
theorem startsWithIgnoringCase_spells {word : Bytes}
    (hword : ∀ w ∈ word, isPrinted (upper w) = true)
    (h : r.Spells x x') :
    startsWithIgnoringCase x' word = startsWithIgnoringCase x word ∧
      (startsWithIgnoringCase x word = true →
        r.Spells (x.drop word.length) (x'.drop word.length)) := by
  induction word generalizing x x' with
  | nil => exact ⟨rfl, fun _ => h⟩
  | cons w word ih =>
    obtain ⟨hw, hword⟩ := List.forall_mem_cons.mp hword
    have hclass := upper_beq_class hw
    have hempty : x'.isEmpty = x.isEmpty := by
      rw [Bool.eq_iff_iff, List.isEmpty_iff, List.isEmpty_iff]
      exact h.eq_nil_iff.symm
    rw [DateText.startsWithIgnoringCase_cons, DateText.startsWithIgnoringCase_cons,
      h.front_eq hclass.toIsClass, hempty]
    cases hstarts : upper (front x) == upper w with
    | false => simp
    | true =>
      obtain ⟨heq, hdrop⟩ := ih hword (h.tail hclass hstarts)
      rw [heq]
      refine ⟨rfl, fun hall => ?_⟩
      simp only [Bool.true_and, Bool.and_eq_true] at hall
      rw [List.length_cons, ← List.drop_tail, ← List.drop_tail]
      exact hdrop hall.2

theorem isTypeSuffix_class : IsSolidClass isTypeSuffix := by decide

/-- Whether a text starts a remark does not depend on how it is spelled. -/
theorem startsRemComment_spells (h : r.Spells x x') : startsRemComment x' = startsRemComment x := by
  have hprinted : ∀ w ∈ ofString "REM", isPrinted (upper w) = true := by decide
  obtain ⟨heq, hdrop⟩ := startsWithIgnoringCase_spells hprinted h
  unfold startsRemComment
  rw [heq]
  cases hstarts : startsWithIgnoringCase x (ofString "REM") with
  | false => rfl
  | true =>
    have hbehind : r.Spells (x.drop 3) (x'.drop 3) := hdrop hstarts
    rw [hbehind.front_eq isWordByte_class.toIsClass, hbehind.front_eq isTypeSuffix_class.toIsClass]

/-! ## Line continuations -/

/-- Whether a text starts with a line break does not depend on how it is spelled. -/
theorem lineBreakWidth_eq_zero_iff (h : r.Spells x x') :
    Cursor.lineBreakWidth x' = 0 ↔ Cursor.lineBreakWidth x = 0 := by
  have hfront := h.front_eq line_class
  have hwidth (y : Bytes) : Cursor.lineBreakWidth y = 0 ↔ (!isLineBreak (front y)) = true := by
    cases y with
    | nil => exact iff_of_true rfl (by decide)
    | cons c rest =>
      have hpos : 0 < Cursor.lineBreakWidth (c :: rest) ↔ isLineBreak c = true :=
        Cursor.lineBreakWidth_pos_iff
      rw [front, List.headD_cons, Bool.not_eq_true', ← Bool.not_eq_true, ← hpos]
      omega
  rw [hwidth, hwidth, hfront]

/-- A line is continued by an underscore, blanks and a line break. -/
theorem continuationWidth?_eq_ite (x : Bytes) : continuationWidth? x =
    if front x == byte '_' then
      let lineBreak := Cursor.lineBreakWidth (x.tail.dropWhile isBlank)
      if lineBreak == 0 then none
      else some (1 + (x.tail.takeWhile isBlank).length + lineBreak)
    else none := by
  rw [Spells.dropWhile_eq_drop]
  cases x <;> rfl

/-- A text whose first byte is known is that byte and what follows it. -/
theorem eq_cons_tail {sign : UInt8} (hsign : sign ≠ 0) (hfront : (front x == sign) = true) :
    x = sign :: x.tail := by
  cases x with
  | nil => exact absurd (beq_iff_eq.mp hfront).symm hsign
  | cons c rest => rw [List.tail_cons, ← beq_iff_eq.mp hfront]; rfl

/-- Behind the first byte and those that pass a test stands what the text has so many bytes further
on. -/
theorem drop_dropWhile_tail (p : UInt8 → Bool) (x : Bytes) (n : Nat) :
    (x.tail.dropWhile p).drop n = x.drop (1 + (x.tail.takeWhile p).length + n) := by
  rw [Spells.dropWhile_eq_drop, List.drop_drop, List.drop_tail]
  congr 1
  omega

/-- A line continuation stands for one. -/
theorem continuationWidth?_spells (h : r.Spells x x')
    (hpass : ∀ width, continuationWidth? x = some width → ¬ r.Passes x width) :
    Option.Rel (fun width width' => r.Spells (x.drop width) (x'.drop width')) (continuationWidth? x)
      (continuationWidth? x') := by
  have hunderscore : IsSolidClass (· == byte '_') := beq_class (by decide) (by decide)
  rw [continuationWidth?_eq_ite] at hpass ⊢
  rw [continuationWidth?_eq_ite, h.front_eq hunderscore.toIsClass]
  split
  next hfront =>
    rw [if_pos hfront] at hpass
    dsimp only at hpass ⊢
    -- either the blanks are the same and so is the break behind them, or the texts differ within
    -- the blanks
    rcases (h.tail hunderscore hfront).takeWhile_or isBlank_class with
      ⟨-, hbehind⟩ | ⟨q, q', y, y', hcut, hunseen, hq, hq', hupper, hmem, -⟩
    · by_cases hzero : Cursor.lineBreakWidth (x.tail.dropWhile isBlank) = 0
      · rw [hzero, (lineBreakWidth_eq_zero_iff hbehind).mpr hzero]
        exact .none
      · obtain ⟨hpos, hdrop⟩ := hbehind.lineBreak_drop (Nat.pos_of_ne_zero hzero)
        rw [if_neg (by simpa using hzero), if_neg (by simpa using Nat.ne_of_gt hpos)]
        rw [drop_dropWhile_tail, drop_dropWhile_tail] at hdrop
        exact .some hdrop
    · -- the blanks run into the place from which on the texts differ
      have hmem' := isBlank_class.forall_of_map_upper_eq hupper hmem
      have hdrop : x.tail.dropWhile isBlank = y.dropWhile isBlank := by
        rw [hq, List.dropWhile_append_of_pos hmem]
      have hdrop' : x'.tail.dropWhile isBlank = y'.dropWhile isBlank := by
        rw [hq', List.dropWhile_append_of_pos hmem']
      rw [hdrop] at hpass ⊢
      rw [hdrop']
      by_cases hzero : Cursor.lineBreakWidth (y.dropWhile isBlank) = 0
      · rw [hzero, hunseen.continuation hzero]
        exact .none
      · rw [if_neg (by simpa using hzero)] at hpass
        refine absurd ⟨byte '_' :: q, y, y', hcut, hunseen, ?_, ?_⟩ (hpass _ rfl)
        · rw [List.cons_append, ← hq]
          exact eq_cons_tail (by decide) hfront
        · rw [List.length_cons, hq, List.takeWhile_append_of_pos hmem, List.length_append]
          omega
  next => exact .none

/-! ## Strings -/

/-- The bytes that are read already are counted in. -/
theorem closeQuote_eq_add (seen : Nat) (x : Bytes) :
    closeQuote seen x = ((closeQuote 0 x).1, seen + (closeQuote 0 x).2) := by
  have hadd (more : Nat) : closeQuote (seen + more) x =
      ((closeQuote more x).1, seen + (closeQuote more x).2) := by
    induction more, x using closeQuote.induct with
    | case1 => rfl
    | case2 more c rest hbreak =>
      rw [closeQuote.eq_def, closeQuote.eq_def more]
      simp only [if_pos hbreak]
    | case3 more c hbreak hquote =>
      rw [closeQuote.eq_def, closeQuote.eq_def more]
      simp only [if_neg hbreak, if_pos hquote]
      rfl
    | case4 more c hbreak hquote d rest hd ih =>
      rw [closeQuote.eq_def, closeQuote.eq_def more]
      simp only [if_neg hbreak, if_pos hquote, if_pos hd]
      exact ih
    | case5 more c hbreak hquote d rest hd =>
      rw [closeQuote.eq_def, closeQuote.eq_def more]
      simp only [if_neg hbreak, if_pos hquote, if_neg hd]
      rfl
    | case6 more c rest hbreak hquote ih =>
      rw [closeQuote.eq_def, closeQuote.eq_def more]
      simp only [if_neg hbreak, if_neg hquote]
      exact ih
  exact hadd 0

/-- A string ends in front of a line break. -/
theorem closeQuote_of_isLineBreak {c : UInt8} (h : isLineBreak c = true) (rest : Bytes) :
    closeQuote 0 (c :: rest) = (false, 0) := by
  rw [closeQuote.eq_def]
  exact if_pos h

/-- A quotation mark closes a string unless another one follows it. -/
theorem closeQuote_doubleQuote (x : Bytes) : closeQuote 0 (doubleQuote :: x) =
    if front x == doubleQuote then ((closeQuote 0 x.tail).1, 2 + (closeQuote 0 x.tail).2)
    else (true, 1) := by
  have hbreak : ¬ isLineBreak doubleQuote = true := by decide
  rw [closeQuote.eq_def]
  dsimp only
  rw [if_neg hbreak, if_pos (beq_self_eq_true _)]
  cases x with
  | nil => rfl
  | cons d rest =>
    dsimp only
    rw [closeQuote_eq_add]
    rfl

/-- Bytes without a quote or a line break among them are read one by one. -/
theorem closeQuote_append {u : Bytes} (hu : ∀ c ∈ u, isLineBreak c = false ∧ c ≠ doubleQuote)
    (x : Bytes) :
    closeQuote 0 (u ++ x) = ((closeQuote 0 x).1, u.length + (closeQuote 0 x).2) := by
  induction u with
  | nil => simp
  | cons c u ih =>
    obtain ⟨⟨hbreak, hquote⟩, hu⟩ := List.forall_mem_cons.mp hu
    have hquote' : ¬ (c == doubleQuote) = true := by simpa using hquote
    rw [List.cons_append, closeQuote.eq_def]
    dsimp only
    rw [hbreak, if_neg Bool.false_ne_true, if_neg hquote', closeQuote_eq_add, ih hu,
      List.length_cons]
    simp only [Prod.mk.injEq, true_and]
    omega

theorem doubleQuote_class : IsSolidClass (· == doubleQuote) := beq_class (by decide) (by decide)

/-- A text in quotes stands for one of the same length, or it runs into the place from which on the
texts differ. -/
theorem closeQuote_or (h : r.Spells x x') :
    (closeQuote 0 x' = closeQuote 0 x ∧
      r.Spells (x.drop (closeQuote 0 x).2) (x'.drop (closeQuote 0 x).2)) ∨
    r.Passes x (closeQuote 0 x).2 := by
  -- by induction on the number of bytes, as two quotes are read at once
  generalize hn : x.length = n
  induction n using Nat.strongRecOn generalizing x x' with
  | ind n ih =>
    -- what is read of characters in front that are no quotes
    have hplain {u u' y y' : Bytes} (hx : x = u ++ y) (hx' : x' = u' ++ y') (hne : u ≠ [])
        (hlength : u'.length = u.length) (hu : ∀ c ∈ u, isLineBreak c = false ∧ c ≠ doubleQuote)
        (hu' : ∀ c ∈ u', isLineBreak c = false ∧ c ≠ doubleQuote) (hy : r.Spells y y') :
        (closeQuote 0 x' = closeQuote 0 x ∧
          r.Spells (x.drop (closeQuote 0 x).2) (x'.drop (closeQuote 0 x).2)) ∨
        r.Passes x (closeQuote 0 x).2 := by
      subst hx hx'
      have hpos := List.length_pos_iff.mpr hne
      rw [closeQuote_append hu, closeQuote_append hu', hlength]
      rcases ih y.length (by rw [← hn, List.length_append]; omega) hy rfl with ⟨heq, hdrop⟩ | hpass
      · rw [heq]
        refine .inl ⟨rfl, ?_⟩
        have hbehind : (u' ++ y').drop (u.length + (closeQuote 0 y).2) =
            y'.drop (closeQuote 0 y).2 := by
          rw [← hlength, List.drop_length_add_append]
        rw [List.drop_length_add_append, hbehind]
        exact hdrop
      · exact .inr (passes_append u hpass)
    have hspells := h
    cases h with
    | nil h => exact .inl ⟨rfl, .nil h⟩
    | @cut x x' hcut hunseen =>
      obtain ⟨b, v, v', hblank, rfl, rfl⟩ := hunseen.exists_cons
      refine .inr ⟨[], _, _, hcut, hunseen, rfl, ?_⟩
      obtain ⟨-, hprinted, hbreak⟩ := apart_of_isBlank b hblank
      have hother := ne_doubleQuote_of_not_isPrinted hprinted
      have hread := closeQuote_append (u := [b]) (by simpa using ⟨hbreak, hother⟩) v
      rw [List.singleton_append] at hread
      rw [hread]
      simp only [List.length_nil, List.length_cons]
      omega
    | @byte c c' y y' hascii hbreak hupper hcase hy =>
      have hclass := doubleQuote_class.eq_of_upper_eq hupper
      by_cases hquote : c = doubleQuote
      · subst hquote
        obtain rfl : c' = doubleQuote := by simpa using hclass.symm
        rw [closeQuote_doubleQuote, closeQuote_doubleQuote, hy.front_eq doubleQuote_class.toIsClass]
        split
        next hfront =>
          have htail := hy.tail doubleQuote_class hfront
          have hcons := eq_cons_tail (by decide) hfront
          have hlength := congrArg List.length hcons
          rw [List.length_cons] at hlength hn
          rcases ih y.tail.length (by omega) htail rfl with ⟨heq, hdrop⟩ | hpass
          · rw [heq]
            refine .inl ⟨rfl, ?_⟩
            simpa [Nat.add_comm 2, List.drop_tail] using hdrop
          · right
            have hpasses := passes_append [doubleQuote, doubleQuote] hpass
            rw [List.cons_append, List.singleton_append, ← hcons] at hpasses
            exact hpasses
        next => exact .inl ⟨rfl, hy⟩
      · have hquote' : c' ≠ doubleQuote := by
          rintro rfl
          exact hquote (by simpa using hclass)
        have hbreak' : isLineBreak c' = false := by
          have hline := line_class.eq_of_upper_eq hupper
          rw [hbreak] at hline
          simpa using hline.symm
        exact hplain (List.singleton_append (x := c)).symm (List.singleton_append (x := c')).symm
          (List.cons_ne_nil _ _) rfl
          (by simpa using ⟨hbreak, hquote⟩) (by simpa using ⟨hbreak', hquote'⟩) hy
    | wide hu hx hx' hy =>
      have hall {c : UInt8} (hc : ¬ c < 0x80) : isLineBreak c = false ∧ c ≠ doubleQuote := by
        obtain ⟨hprinted, hbreak, -⟩ := apart_of_wide c hc
        exact ⟨hbreak, ne_doubleQuote_of_not_isPrinted hprinted⟩
      have hall := fun c hc => hall (hu.wide c hc)
      exact hplain hx hx' hu.ne_nil rfl hall hall hy
    | lineBreak hx hx' =>
      obtain ⟨c, rest, rfl, hc⟩ := Cursor.exists_cons_of_lineBreakWidth_pos hx
      obtain ⟨c', rest', rfl, hc'⟩ := Cursor.exists_cons_of_lineBreakWidth_pos hx'
      rw [closeQuote_of_isLineBreak hc, closeQuote_of_isLineBreak hc']
      exact .inl ⟨rfl, hspells⟩

/-- A string literal is read the same however it is spelled, where it is read to its end. -/
theorem stringLiteral_spells {c c' : UInt8} {rest rest' : Bytes} (h : r.Spells rest rest')
    (hpass : ¬ r.Passes (c :: rest) (stringLiteral rest).2) :
    Reads r (c :: rest) (c' :: rest') (stringLiteral rest) (stringLiteral rest') := by
  unfold stringLiteral at hpass ⊢
  rw [closeQuote_eq_add] at hpass ⊢
  rw [closeQuote_eq_add 1 rest']
  have hread : closeQuote 0 rest' = closeQuote 0 rest ∧
      r.Spells (rest.drop (closeQuote 0 rest).2) (rest'.drop (closeQuote 0 rest).2) := by
    refine (closeQuote_or h).resolve_right fun hpasses => hpass ?_
    have hmore := passes_append [c] hpasses
    cases (closeQuote 0 rest).1 <;> exact hmore
  obtain ⟨heq, hdrop⟩ := hread
  rw [heq]
  have hbehind : r.Spells ((c :: rest).drop (1 + (closeQuote 0 rest).2))
      ((c' :: rest').drop (1 + (closeQuote 0 rest).2)) := by
    rwa [Nat.add_comm, List.drop_succ_cons, List.drop_succ_cons]
  cases (closeQuote 0 rest).1 <;> exact ⟨rfl, hbehind⟩

/-! ## Dates -/

theorem inDate_class : IsClass inDate := by decide

theorem numberSign_class : IsSolidClass (· == byte '#') := beq_class (by decide) (by decide)

/-- The text up to a second number sign on the line is a date. -/
theorem dateLiteral_eq_ite (x : Bytes) : dateLiteral x =
    if front (x.dropWhile inDate) == byte '#' && DateText.isDate (x.takeWhile inDate) then
      (.dateLiteral, (x.takeWhile inDate).length + 2)
    else (.octothorpe, 1) := by
  have hline : x.take (lineWidth x) = x.takeWhile fun c => !isLineBreak c :=
    (List.prefix_iff_eq_take.mp (List.takeWhile_prefix _)).symm
  have hbody (y : Bytes) :
      ((y.takeWhile fun c => !isLineBreak c).takeWhile fun c => c != byte '#') =
        y.takeWhile inDate ∧
      ((y.takeWhile inDate).length < (y.takeWhile fun c => !isLineBreak c).length ↔
        (front (y.dropWhile inDate) == byte '#') = true) := by
    induction y with
    | nil => exact ⟨rfl, by decide⟩
    | cons c y ih =>
      by_cases hbreak : isLineBreak c = true
      · have hnumber : (c == byte '#') = false := numberSign_class.lineBreak c hbreak
        simp [inDate, hbreak, hnumber, front]
      · by_cases hnumber : c = byte '#'
        · subst hnumber
          simp [inDate, front, hbreak]
        · simpa [inDate, hbreak, hnumber] using ih
  unfold dateLiteral
  dsimp only
  rw [hline, (hbody x).1]
  have hsecond := (hbody x).2
  by_cases hfront : (front (x.dropWhile inDate) == byte '#') = true
  · rw [hfront, Bool.true_and, decide_eq_true (hsecond.mpr hfront), Bool.true_and]
  · rw [Bool.not_eq_true] at hfront
    rw [hfront, decide_eq_false (fun hlt => by simp [hsecond.mp hlt] at hfront), Bool.false_and]

/-- A date stands for one, and a number sign that opens none for one that opens none. -/
theorem dateLiteral_spells {c c' : UInt8} {rest rest' : Bytes} (h : r.Spells rest rest')
    (hpass : ¬ r.Passes (c :: rest) (dateLiteral rest).2) :
    Reads r (c :: rest) (c' :: rest') (dateLiteral rest) (dateLiteral rest') := by
  -- either what may be a date is the same in both texts, or they differ within it
  rcases h.takeWhile_or inDate_class with
    ⟨htext, hbehind⟩ | ⟨q, q', y, y', hcut, hunseen, rfl, rfl, hupper, hmem, -⟩
  · have hlength : (rest'.takeWhile inDate).length = (rest.takeWhile inDate).length := by
      simpa using congrArg List.length htext
    rw [dateLiteral_eq_ite, dateLiteral_eq_ite, hbehind.front_eq numberSign_class.toIsClass,
      (DateText.Alike.of_map_upper_eq htext).isDate_eq, hlength]
    split
    next hdate =>
      have hfront := (Bool.and_eq_true_iff.mp hdate).1
      have htail := hbehind.tail numberSign_class hfront
      rw [Spells.dropWhile_eq_drop, Spells.dropWhile_eq_drop, List.tail_drop, List.tail_drop,
        hlength] at htail
      exact ⟨rfl, htail⟩
    next => exact ⟨rfl, h⟩
  · -- a date would run into the place from which on the texts differ
    have hkind : (dateLiteral (q ++ y)).1 = .octothorpe ∧ (dateLiteral (q ++ y)).2 = 1 := by
      rw [dateLiteral_eq_ite] at hpass ⊢
      split
      next hdate =>
        rw [if_pos hdate] at hpass
        refine absurd ⟨c :: q, y, y', hcut, hunseen, rfl, ?_⟩ hpass
        rw [List.takeWhile_append_of_pos hmem, List.length_append, List.length_cons]
        omega
      next => exact ⟨rfl, rfl⟩
    have hkind' := hunseen.octothorpe hupper hmem hkind.1
    have hwidth' : (dateLiteral (q' ++ y')).2 = 1 := by
      rw [dateLiteral_eq_ite] at hkind' ⊢
      split at hkind'
      · cases hkind'
      next hdate => rw [if_neg hdate]
    refine ⟨hkind'.trans hkind.1.symm, ?_⟩
    rw [hkind.2, hwidth']
    exact h

/-! ## Words -/

/-- A word stands for the same word. -/
theorem word_spells (h : r.Spells x x') : Reads r x x' (word x) (word x') := by
  have hdollar : IsSolidClass (· == byte '$') := beq_class (by decide) (by decide)
  obtain ⟨htext, -⟩ := h.takeWhile isWordByte_class
  obtain ⟨hlength, hbehind⟩ := h.run isWordByte_class
  unfold word
  dsimp only
  rw [hlength, Keyword.ofWord?_eq_of_map_upper htext, hbehind.front_eq hdollar.toIsClass,
    hbehind.front_eq isTypeSuffix_class.toIsClass]
  split
  next hfront =>
    have htail := hbehind.tail hdollar hfront
    rw [List.tail_drop, List.tail_drop] at htail
    exact ⟨rfl, htail⟩
  next =>
    split
    · exact ⟨rfl, hbehind⟩
    · cases hsuffix : isTypeSuffix (front (x.drop (x.takeWhile isWordByte).length)) with
      | false => exact ⟨rfl, hbehind⟩
      | true =>
        have htail := hbehind.tail isTypeSuffix_class hsuffix
        rw [List.drop_one, List.drop_one, htail.front_eq isWordByte_class.toIsClass]
        split
        · rw [List.tail_drop, List.tail_drop] at htail
          exact ⟨rfl, htail⟩
        · exact ⟨rfl, hbehind⟩

/-! ## Punctuation -/

/-- Punctuation is written in signs. -/
theorem sign_of_ofText? {text : Bytes} {l : Lexeme} (h : Lexeme.ofText? text = some l) :
    ∀ b ∈ text, isPrinted b = true ∧ isLetter b = false := by
  have hall : ∀ l ∈ Lexeme.punctuation,
      (ofString l.spelling).all (fun b => isPrinted b && !isLetter b) = true := by
    decide
  unfold Lexeme.ofText? at h
  have hspelling := List.find?_some h
  obtain rfl := beq_iff_eq.mp hspelling
  intro b hb
  simpa using List.all_eq_true.mp (hall l (List.mem_of_find?_eq_some h)) b hb

/-- A sign in front is the same in both texts. -/
theorem take_one_eq_iff {b : UInt8} (hb : isPrinted b = true ∧ isLetter b = false)
    (h : r.Spells x x') :
    x'.take 1 = [b] ↔ x.take 1 = [b] := by
  have hfront := h.front_eq (beq_class hb.1 hb.2).toIsClass
  have hzero : isPrinted 0 = false := by decide
  have htake (y : Bytes) : y.take 1 = [b] ↔ (front y == b) = true := by
    cases y with
    | nil =>
      refine iff_of_false nofun fun heq => ?_
      rw [← beq_iff_eq.mp heq, front, List.headD_nil, hzero] at hb
      exact Bool.false_ne_true hb.1
    | cons c y => simp [front]
  rw [htake, htake, hfront]

/-- Signs stand for themselves: punctuation of up to two of them is the same in both texts. -/
theorem ofText?_pair_spells {c c' : UInt8} {rest rest' : Bytes} (hupper : upper c = upper c')
    (h : r.Spells rest rest') :
    Lexeme.ofText? (c' :: rest'.take 1) = Lexeme.ofText? (c :: rest.take 1) := by
  have hone {y y' : Bytes} (hsigns : ∀ b ∈ y.take 1, isPrinted b = true ∧ isLetter b = false)
      (hnil : y = [] ↔ y' = [])
      (hiff : ∀ b, isPrinted b = true ∧ isLetter b = false → (y'.take 1 = [b] ↔ y.take 1 = [b])) :
      y'.take 1 = y.take 1 := by
    cases y with
    | nil => rw [hnil.mp rfl]
    | cons b y => exact (hiff b (hsigns b (List.mem_cons_self ..))).mpr rfl
  have hsign {b b' : UInt8} (hb : isPrinted b = true ∧ isLetter b = false)
    (hupper : upper b = upper b') :
      b' = b := by
    have hclass := (beq_class hb.1 hb.2).eq_of_upper_eq hupper
    simpa using hclass.symm
  refine Option.ext fun l => ⟨fun hl => ?_, fun hl => ?_⟩
  · obtain ⟨hc, hsigns⟩ := List.forall_mem_cons.mp (sign_of_ofText? hl)
    rw [hsign hc hupper.symm, hone hsigns h.eq_nil_iff.symm fun b hb => (take_one_eq_iff hb h).symm]
    exact hl
  · obtain ⟨hc, hsigns⟩ := List.forall_mem_cons.mp (sign_of_ofText? hl)
    rw [hsign hc hupper, hone hsigns h.eq_nil_iff fun b hb => take_one_eq_iff hb h]
    exact hl

/-- Punctuation, or a character that starts no token. -/
theorem punctuation_spells {c c' : UInt8} {rest rest' : Bytes} (hascii : c < 0x80)
    (hupper : upper c = upper c') (h : r.Spells rest rest') :
    Reads r (c :: rest) (c' :: rest') (punctuation c rest) (punctuation c' rest') := by
  have hsingle : Lexeme.ofText? [c'] = Lexeme.ofText? [c] := by
    have hpair := ofText?_pair_spells (r := { r with ends := True }) hupper (.nil trivial)
    simpa using hpair
  unfold punctuation
  rw [ofText?_pair_spells hupper h]
  -- a sign of two characters is tried before that of one, and what is left is no sign at all
  cases hl : Lexeme.ofText? (c :: rest.take 1) with
  | some l =>
    dsimp only
    obtain ⟨-, hsigns⟩ := List.forall_mem_cons.mp (sign_of_ofText? hl)
    refine ⟨rfl, ?_⟩
    cases rest with
    | nil =>
      obtain rfl := h.eq_nil_iff.mp rfl
      exact h
    | cons d rest =>
      have hd := hsigns d (List.mem_cons_self ..)
      obtain ⟨d', rest', rfl, -, -, hrest⟩ := h.cons_inv (beq_class hd.1 hd.2) (beq_self_eq_true d)
      exact hrest
  | none =>
    rw [hsingle]
    cases Lexeme.ofText? [c] with
    | some l => exact ⟨rfl, h⟩
    | none =>
      have hone : ∀ c : UInt8, c < 0x80 → Utf8.sequenceLength c = 1 := fun c hc => if_pos hc
      have hascii' : c' < 0x80 := by rwa [← upper_ascii_iff, ← hupper, upper_ascii_iff]
      have hwidth (n : Nat) : min 1 (1 + n) = 1 := by omega
      dsimp only
      rw [hone c hascii, hone c' hascii', hwidth, hwidth]
      exact ⟨rfl, h⟩

/-! ## Tokens -/

/-- A number has a byte. -/
theorem decimal_pos {c : UInt8} {rest : Bytes} (h : Number.startsDecimal c rest = true) :
    0 < (Number.decimal (c :: rest)).2 := by
  have hwidth : 0 < Number.digitRun (c :: rest) +
      Number.fractionWidth ((c :: rest).drop (Number.digitRun (c :: rest))) := by
    unfold Number.startsDecimal at h
    cases hdigit : isDigit c with
    | true =>
      have hrun : Number.digitRun (c :: rest) = Number.digitRun rest + 1 := by
        simp [Number.digitRun, hdigit]
      omega
    | false =>
      rw [hdigit, Bool.false_or, Bool.and_eq_true] at h
      have hrun : Number.digitRun (c :: rest) = 0 := by simp [Number.digitRun, hdigit]
      rw [hrun, List.drop_zero, Number.fractionWidth, if_pos h.1, if_pos h.2]
      omega
  rw [Number.decimal_eq_match]
  dsimp only
  split
  · split <;> dsimp only <;> omega
  · dsimp only
    omega

theorem lineWidth_pos {c : UInt8} (h : isLineBreak c = false) (rest : Bytes) :
    0 < lineWidth (c :: rest) := by
  simp [lineWidth, h]

theorem punctuation_pos (c : UInt8) (rest : Bytes) : 0 < (punctuation c rest).2 := by
  unfold punctuation
  split
  · exact Nat.lt_of_lt_of_le Nat.zero_lt_one (Nat.le_add_right _ _)
  · split
    · exact Nat.zero_lt_one
    · have hlength : 0 < Utf8.sequenceLength c := by
        unfold Utf8.sequenceLength
        split
        · decide
        · split
          · decide
          · split
            · decide
            · split <;> decide
      dsimp only
      omega

theorem word_pos {c : UInt8} (hc : isWordByte c = true) (rest : Bytes) :
    0 < (word (c :: rest)).2 := by
  have hrun : 0 < ((c :: rest).takeWhile isWordByte).length := by simp [hc]
  unfold word
  dsimp only
  split
  · exact Nat.succ_pos _
  · split
    · exact hrun
    · split
      · exact Nat.succ_pos _
      · exact hrun

theorem based?_pos {x : Bytes} {number : Lexeme × Nat} (h : Number.based? x = some number) :
    0 < number.2 := by
  rw [Number.based?_eq_match] at h
  split at h
  · split at h
    · cases h
    · dsimp only at h
      split at h
      · cases h
      · split at h
        · cases h; exact Nat.succ_pos _
        · split at h <;> (cases h; exact Nat.succ_pos _)
  · cases h

/-- What continues a line takes a byte. -/
theorem continuationWidth?_pos {x : Bytes} {width : Nat} (h : continuationWidth? x = some width) :
    0 < width := by
  rw [continuationWidth?_eq_ite] at h
  split at h
  · dsimp only at h
    split at h
    · cases h
    · obtain rfl := Option.some.inj h
      omega
  · cases h

/-- Every token has a byte. -/
theorem scan_pos (c : UInt8) (rest : Bytes) : 0 < (scan c rest).2 := by
  unfold scan
  dsimp only
  -- the branches in the order in which the lexer tries them; each of them takes a byte at least
  split
  next hbreak => exact Cursor.lineBreakWidth_pos_iff.mpr hbreak
  next hbreak =>
    rw [Bool.not_eq_true] at hbreak
    split
    · exact lineWidth_pos hbreak rest
    split
    · exact lineWidth_pos hbreak rest
    split
    · unfold stringLiteral
      rw [closeQuote_eq_add]
      cases (closeQuote 0 rest).1 <;> exact Nat.lt_of_lt_of_le Nat.zero_lt_one
        (Nat.le_add_right _ _)
    split
    · rw [dateLiteral_eq_ite]
      split <;> exact Nat.succ_pos _
    split
    next hcontinuation => exact continuationWidth?_pos hcontinuation
    split
    next hdecimal => exact decimal_pos hdecimal
    split
    next hbased => exact based?_pos hbased
    split
    next hword =>
      refine word_pos ?_ rest
      rw [isWordByte]
      rcases Bool.or_eq_true_iff.mp hword with hletter | hunderscore
      · rw [hletter]
        rfl
      · rw [(Bool.and_eq_true_iff.mp hunderscore).1, Bool.or_true]
    split
    next hblank => simp [hblank]
    · exact punctuation_pos c rest

/-- A byte that is no printed character of ASCII and breaks no line is a blank or starts no
token. -/
theorem scan_of_not_printed {c : UInt8} (hc : isPrinted c = false) (hbreak : isLineBreak c = false)
    (rest : Bytes) : scan c rest =
      if isBlank c then (.trivia .whitespace, ((c :: rest).takeWhile isBlank).length)
      else (.lexeme .unknownCharacter, min (Utf8.sequenceLength c) (1 + rest.length)) := by
  -- no reading starts with such a byte but that of blanks and that of unknown characters
  have hsign {b : UInt8} (hb : isPrinted b = true) : (c == b) = false := by
    rw [beq_eq_false_iff_ne]
    rintro rfl
    rw [hc] at hb
    cases hb
  have hother : ∀ c, isPrinted c = false → isLetter c = false ∧ isDigit c = false ∧
      (upper c == upper (byte 'R')) = false := by
    decide
  obtain ⟨hletter, hdigit, hfirst⟩ := hother c hc
  have hrem : startsRemComment (c :: rest) = false := by
    have hword : ofString "REM" = [byte 'R', byte 'E', byte 'M'] := by decide
    rw [startsRemComment, hword, DateText.startsWithIgnoringCase_cons, front,
      List.headD_cons, hfirst, Bool.false_and, Bool.and_false, Bool.false_and, Bool.false_and]
  have hcontinuation : continuationWidth? (c :: rest) = none := by
    rw [continuationWidth?_eq_ite]
    exact if_neg (by simp [front, hsign (b := byte '_') (by decide)])
  have hdecimal : Number.startsDecimal c rest = false := by
    rw [Number.startsDecimal, hdigit, hsign (by decide), Bool.false_and, Bool.or_false]
  have hbased : Number.based? (c :: rest) = none := by
    rw [Number.based?_eq_match]
    exact if_neg (by simp [front, hsign (b := byte '&') (by decide)])
  have hnone (text : Bytes) : Lexeme.ofText? (c :: text) = none := by
    refine Option.eq_none_iff_forall_ne_some.mpr fun l hl => ?_
    have hprinted := (sign_of_ofText? hl c List.mem_cons_self).1
    rw [hc] at hprinted
    cases hprinted
  have hunderscore : (c == byte '_') = false := hsign (by decide)
  unfold scan
  dsimp only
  rw [hbreak, hrem, if_neg Bool.false_ne_true, hsign (by decide), if_neg Bool.false_ne_true,
    if_neg Bool.false_ne_true, hsign (by decide), if_neg Bool.false_ne_true, hsign (by decide),
    if_neg Bool.false_ne_true, hcontinuation]
  dsimp only
  rw [hdecimal, if_neg Bool.false_ne_true, hbased]
  dsimp only
  rw [hletter, hunderscore, Bool.false_and, Bool.or_false, if_neg Bool.false_ne_true, punctuation,
    hnone, hnone]
  rfl

/-- A wide character starts no token. -/
theorem scan_of_isWide {u y : Bytes} {c : UInt8} {rest : Bytes} (hu : Utf8.IsWide u)
    (hx : c :: rest = u ++ y) : scan c rest = (.lexeme .unknownCharacter, u.length) := by
  obtain ⟨a, more, rfl⟩ := List.exists_cons_of_ne_nil hu.ne_nil
  obtain ⟨rfl, rfl⟩ := List.cons.inj hx
  obtain ⟨hprinted, hbreak, hblank⟩ := apart_of_wide c (hu.wide c List.mem_cons_self)
  have hannounced : Utf8.sequenceLength c = (c :: more).length := hu.announced
  have hlength : (c :: more).length ≤ 1 + (more ++ y).length := by
    rw [List.length_cons, List.length_append]
    omega
  rw [scan_of_not_printed hprinted hbreak, hblank, if_neg Bool.false_ne_true, hannounced,
    List.append_eq, Nat.min_eq_left hlength]

/-- A blank starts whitespace. -/
theorem scan_of_isBlank {c : UInt8} (h : isBlank c = true) (rest : Bytes) :
    scan c rest = (.trivia .whitespace, ((c :: rest).takeWhile isBlank).length) := by
  obtain ⟨-, hprinted, hbreak⟩ := apart_of_isBlank c h
  rw [scan_of_not_printed hprinted hbreak, if_pos h]

/-- What a token that starts with an ASCII byte is, line breaks apart. -/
theorem scan_byte_spells {c c' : UInt8} {rest rest' : Bytes} (hascii : c < 0x80)
    (hbreak : isLineBreak c = false) (hupper : upper c = upper c') (hrest : r.Spells rest rest')
    (h : r.Spells (c :: rest) (c' :: rest')) (hpass : ¬ r.Passes (c :: rest) (scan c rest).2) :
    Reads r (c :: rest) (c' :: rest') (scan c rest) (scan c' rest') := by
  -- the tests that choose a reading do not see the case of letters, so both texts take the same
  -- branch
  have hsign {b : UInt8} (hb : isPrinted b = true ∧ isLetter b = false) : (c' == b) = (c == b) :=
    ((beq_class hb.1 hb.2).eq_of_upper_eq hupper).symm
  have hbreak' : isLineBreak c' = false := by
    have hline := line_class.eq_of_upper_eq hupper
    rw [hbreak] at hline
    simpa using hline.symm
  have hletter : isLetter c' = isLetter c := (isLetter_class.eq_of_upper_eq hupper).symm
  have hblank : isBlank c' = isBlank c := (isBlank_class.eq_of_upper_eq hupper).symm
  have hdecimal : Number.startsDecimal c' rest' = Number.startsDecimal c rest := by
    unfold Number.startsDecimal
    rw [hsign (by decide), hrest.front_eq isDigit_class.toIsClass,
      isDigit_class.eq_of_upper_eq hupper]
  have hcomment {k : Kind} (hpass : ¬ r.Passes (c :: rest) (lineWidth (c :: rest))) :
      Reads r (c :: rest) (c' :: rest') (k, lineWidth (c :: rest))
        (k, lineWidth (c' :: rest')) := by
    obtain ⟨hlength, hdrop⟩ := run_of_not_passes line_class h hpass
    refine ⟨rfl, ?_⟩
    unfold lineWidth
    rw [hlength]
    exact hdrop
  unfold scan at hpass ⊢
  dsimp only at hpass ⊢
  rw [hbreak, if_neg Bool.false_ne_true] at hpass ⊢
  rw [hbreak', if_neg Bool.false_ne_true, startsRemComment_spells h, hsign (by decide),
    hsign (by decide), hsign (by decide), hdecimal, hletter, hsign (by decide),
    hrest.front_eq isWordByte_class.toIsClass,
    hblank]
  -- the branches in the order in which the lexer tries them
  by_cases happostrophe : (c == apostrophe) = true
  · rw [if_pos happostrophe] at hpass ⊢
    rw [if_pos happostrophe]
    exact hcomment hpass
  rw [if_neg happostrophe] at hpass ⊢
  rw [if_neg happostrophe]
  by_cases hrem : startsRemComment (c :: rest) = true
  · rw [if_pos hrem] at hpass ⊢
    rw [if_pos hrem]
    exact hcomment hpass
  rw [if_neg hrem] at hpass ⊢
  rw [if_neg hrem]
  by_cases hquote : (c == doubleQuote) = true
  · rw [if_pos hquote] at hpass ⊢
    rw [if_pos hquote]
    exact (stringLiteral_spells hrest hpass).lexeme
  rw [if_neg hquote] at hpass ⊢
  rw [if_neg hquote]
  by_cases hnumberSign : (c == byte '#') = true
  · rw [if_pos hnumberSign] at hpass ⊢
    rw [if_pos hnumberSign]
    exact (dateLiteral_spells hrest hpass).lexeme
  rw [if_neg hnumberSign] at hpass ⊢
  rw [if_neg hnumberSign]
  rcases DateText.rel_cases (continuationWidth?_spells h fun width hwidth => by
      rwa [hwidth] at hpass) with ⟨hnone, hnone'⟩ | ⟨width, width', hsome, hsome', hdrop⟩
  · rw [hnone] at hpass ⊢
    rw [hnone']
    dsimp only at hpass ⊢
    by_cases hstarts : Number.startsDecimal c rest = true
    · rw [if_pos hstarts, if_pos hstarts]
      exact (Number.decimal_spells h).lexeme
    rw [if_neg hstarts] at hpass ⊢
    rw [if_neg hstarts]
    rcases DateText.rel_cases (Number.based?_spells h) with
      ⟨hnone, hnone'⟩ | ⟨number, number', hsome, hsome', hreads⟩
    · rw [hnone] at hpass ⊢
      rw [hnone']
      dsimp only at hpass ⊢
      by_cases hword : (isLetter c || c == byte '_' && isWordByte (front rest)) = true
      · rw [if_pos hword, if_pos hword]
        exact word_spells h
      rw [if_neg hword] at hpass ⊢
      rw [if_neg hword]
      by_cases hblanks : isBlank c = true
      · rw [if_pos hblanks] at hpass ⊢
        rw [if_pos hblanks]
        obtain ⟨hlength, hdrop⟩ := run_of_not_passes isBlank_class h hpass
        rw [hlength]
        exact ⟨rfl, hdrop⟩
      rw [if_neg hblanks, if_neg hblanks]
      exact (punctuation_spells hascii hupper hrest).lexeme
    · rw [hsome, hsome']
      exact hreads.lexeme
  · rw [hsome, hsome']
    exact ⟨rfl, hdrop⟩

/-- What a token is, and the text behind it, is the same in another spelling, unless the token runs
into the place from which on the texts differ. -/
theorem scan_spells {c c' : UInt8} {rest rest' : Bytes} (h : r.Spells (c :: rest) (c' :: rest'))
    (hpass : ¬ r.Passes (c :: rest) (scan c rest).2) :
    Reads r (c :: rest) (c' :: rest') (scan c rest) (scan c' rest') := by
  generalize hx : c :: rest = x at h
  generalize hx' : c' :: rest' = x' at h
  have hspells := h
  cases h with
  | nil => cases hx
  | cut hcut hunseen => exact absurd ⟨[], _, _, hcut, hunseen, hx, scan_pos c rest⟩ hpass
  | wide hu hy hy' hrest =>
    rw [scan_of_isWide hu (hx.trans hy), scan_of_isWide hu (hx'.trans hy'), hy, hy']
    refine ⟨rfl, ?_⟩
    rw [List.drop_left, List.drop_left]
    exact hrest
  | lineBreak hlb hlb' _ hrest =>
    subst hx hx'
    rw [scan_of_isLineBreak (Cursor.lineBreakWidth_pos_iff.mp hlb),
      scan_of_isLineBreak (Cursor.lineBreakWidth_pos_iff.mp hlb')]
    exact ⟨rfl, hrest⟩
  | byte hascii hbreak hupper hcase hrest =>
    obtain ⟨rfl, rfl⟩ := List.cons.inj hx
    obtain ⟨rfl, rfl⟩ := List.cons.inj hx'
    exact scan_byte_spells hascii hbreak hupper hrest hspells hpass

end LosslessBasic.Lexer
