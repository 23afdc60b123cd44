import LosslessBasic.Proofs.Lexer.Names
import LosslessBasic.Proofs.Source.Position
import LosslessBasic.Proofs.Tree.Cover
import Mathlib.Data.List.Chain

/-!
# The division of a source into tokens

Every byte string is divided into tokens, whether it is UTF-8 or not: a token takes as many bytes as
it is recognised with, at least one and no more than there are (`Lexer.scan_pos`, `Lexer.scan_le`),
and the next one stands where it ends. `Lexer.Divided` is the walk over the source token by token;
what is said of the tokens is said by induction on it.

## Main results

* `Lexer.tokens_divide`: the tokens of a source, with their offsets, lines and columns.
-/

namespace LosslessBasic

namespace Lexer

open Bytes Ascii

/-! ## Widths -/

/-- No more bytes pass than there are. -/
theorem length_takeWhile_le (p : UInt8 → Bool) (x : Bytes) : (x.takeWhile p).length ≤ x.length :=
  (List.takeWhile_prefix p).length_le

/-- Bytes of which one stands behind the first `n`. -/
theorem length_of_drop_eq_cons {x rest : Bytes} {n : Nat} {c : UInt8} (h : x.drop n = c :: rest) :
    x.length = n + rest.length + 1 := by
  have hlength := congrArg List.length h
  rw [List.length_drop, List.length_cons] at hlength
  omega

/-- Where a byte is in front behind some bytes, there are more than those. -/
theorem lt_length_of_front {x : Bytes} {n : Nat} {p : UInt8 → Bool} (hp : p 0 = false)
    (h : p (front (x.drop n)) = true) : n < x.length := by
  refine Nat.lt_of_not_le fun hle => ?_
  rw [List.drop_eq_nil_of_le hle] at h
  exact Bool.false_ne_true (hp.symm.trans h)

theorem fractionWidth_le (x : Bytes) : Number.fractionWidth x ≤ x.length := by
  cases x with
  | nil => exact Nat.le_refl 0
  | cons dot rest =>
    have hrun := length_takeWhile_le isDigit rest
    rw [Number.fractionWidth, List.length_cons, Number.digitRun]
    split
    · split
      · omega
      · split <;> omega
    · omega

theorem exponentWidth_le (x : Bytes) : Number.exponentWidth x ≤ x.length := by
  cases x with
  | nil => exact Nat.le_refl 0
  | cons letter rest =>
    have hrun (n : Nat) := length_takeWhile_le isDigit (rest.drop n)
    rw [Number.exponentWidth, List.length_cons]
    dsimp only [Number.digitRun]
    split
    · generalize hsign : (if front rest == byte '+' || front rest == byte '-' then 1 else 0) = sign
      have hrun := hrun sign
      rw [List.length_drop] at hrun
      split
      · omega
      next hdigits =>
        rw [beq_iff_eq] at hdigits
        omega
    · omega

theorem decimal_le (x : Bytes) : (Number.decimal x).2 ≤ x.length := by
  have hwhole := length_takeWhile_le isDigit x
  have hfraction := fractionWidth_le (x.drop (Number.digitRun x))
  have hexponent := exponentWidth_le
    (x.drop (Number.digitRun x + Number.fractionWidth (x.drop (Number.digitRun x))))
  rw [List.length_drop] at hfraction hexponent
  unfold Number.decimal
  dsimp only
  generalize hfractionWidth : Number.fractionWidth (x.drop (Number.digitRun x)) = fraction at *
  generalize hexponentWidth : Number.exponentWidth (x.drop (Number.digitRun x + fraction)) =
    exponent at *
  have hwidth : Number.digitRun x + fraction + exponent ≤ x.length := by
    unfold Number.digitRun at *
    omega
  split
  · exact hwidth
  next suffix rest hrest =>
    have hlength := length_of_drop_eq_cons hrest
    split
    · split <;> dsimp only <;> omega
    · exact hwidth

theorem based?_le {x : Bytes} {number : Lexeme × Nat} (h : Number.based? x = some number) :
    number.2 ≤ x.length := by
  unfold Number.based? at h
  split at h
  next ampersand letter rest =>
    split at h
    · split at h
      · cases h
      next isRadixDigit _ =>
        have hrun := length_takeWhile_le isRadixDigit rest
        -- a suffix is one more byte, which is there
        have hsuffix (suffix : UInt8) (hzero : (0 == suffix) = false)
            (hfront : (front (rest.drop (rest.takeWhile isRadixDigit).length) == suffix) = true) :=
          lt_length_of_front (p := (· == suffix)) hzero hfront
        have hlong := hsuffix (byte '&') (by decide)
        have hinteger := hsuffix (byte '%') (by decide)
        grind
    · cases h
  · cases h

theorem closeQuote_le (seen : Nat) (x : Bytes) : (closeQuote seen x).2 ≤ seen + x.length := by
  induction seen, x using closeQuote.induct with
  | case1 seen => exact Nat.le_refl seen
  | case2 seen c rest hbreak =>
    rw [closeQuote.eq_def]
    simp [hbreak]
  | case3 seen c hbreak hquote => simp [closeQuote, hbreak, hquote]
  | case4 seen c hbreak hquote d rest hsecond ih =>
    rw [closeQuote.eq_def]
    simp only [hbreak, hquote, hsecond, if_true, Bool.false_eq_true, if_false, List.length_cons]
    omega
  | case5 seen c hbreak hquote d rest hsecond =>
    rw [closeQuote.eq_def]
    simp only [hbreak, hquote, hsecond, if_true, Bool.false_eq_true, if_false, List.length_cons]
    omega
  | case6 seen c rest hbreak hquote ih =>
    rw [closeQuote.eq_def]
    simp only [hbreak, hquote, Bool.false_eq_true, if_false, List.length_cons]
    omega

theorem dateLiteral_le (rest : Bytes) : (dateLiteral rest).2 ≤ rest.length + 1 := by
  have hline : (rest.take (lineWidth rest)).length ≤ rest.length := List.length_take_le' _ _
  unfold dateLiteral
  dsimp only
  split
  next hdate =>
    have hclosed := (decide_eq_true_eq.mp (Bool.and_eq_true_iff.mp hdate).1)
    dsimp only
    omega
  next => exact Nat.le_add_left 1 _

theorem continuationWidth?_le {x : Bytes} {width : Nat} (h : continuationWidth? x = some width) :
    width ≤ x.length := by
  cases x with
  | nil => cases h
  | cons c rest =>
    have hbreak := lineBreakWidth_le (rest.drop (rest.takeWhile isBlank).length)
    have hblanks := length_takeWhile_le isBlank rest
    rw [List.length_drop] at hbreak
    unfold continuationWidth? at h
    dsimp only at h
    split at h
    · split at h
      · cases h
      · obtain rfl := Option.some.inj h
        rw [List.length_cons]
        omega
    · cases h

theorem word_le (x : Bytes) : (word x).2 ≤ x.length := by
  have htext := length_takeWhile_le isWordByte x
  rcases word_width_le x with hle | ⟨hsuffix, hwidth⟩
  · exact Nat.le_trans hle htext
  · rw [hwidth]
    exact lt_length_of_front (by decide) hsuffix

theorem punctuation_le (c : UInt8) (rest : Bytes) : (punctuation c rest).2 ≤ rest.length + 1 := by
  have hpair : (rest.take 1).length ≤ rest.length := List.length_take_le' _ _
  unfold punctuation
  split
  · dsimp only
    omega
  · split <;> dsimp only <;> omega

/-- A token has no more bytes than there are. -/
theorem scan_le (c : UInt8) (rest : Bytes) : (scan c rest).2 ≤ rest.length + 1 := by
  rw [← List.length_cons (a := c)]
  have hline := length_takeWhile_le (fun c => !isLineBreak c) (c :: rest)
  unfold scan
  dsimp only
  split
  · exact lineBreakWidth_le (c :: rest)
  split
  · exact hline
  split
  · exact hline
  split
  · have hclose := closeQuote_le 1 rest
    rw [Nat.add_comm] at hclose
    unfold stringLiteral
    split <;> simpa [*] using hclose
  split
  · exact dateLiteral_le rest
  split
  next hcontinuation => exact continuationWidth?_le hcontinuation
  split
  · exact decimal_le _
  split
  next hbased => exact based?_le hbased
  split
  · exact word_le _
  split
  · exact length_takeWhile_le _ _
  · exact punctuation_le c rest

/-! ## The walk -/

/-- The tokens of a source from an offset on, one behind the other up to the end marker. -/
inductive Divided (source : Bytes) (file : UInt32) : (offset : Nat) → List Token → Prop where
  /-- The source ends. -/
  | marker : Divided source file source.length [endMarkerAt file (.ofOffset source source.length)]
  /-- A token is as wide as it is recognised, and the others stand behind it. -/
  | token {n : Nat} {c : UInt8} {rest : Bytes} {ts : List Token} (hrest : source.drop n = c :: rest)
    (hts : Divided source file (n + (scan c rest).2) ts) :
    Divided source file n (tokenAt file (.ofOffset source n) c rest :: ts)

section

variable {source : Bytes} {file : UInt32} {n : Nat} {ts : List Token}

/-- From an offset on, the tokens are divided at the position that the offset has. -/
theorem divided_tokensFrom (hn : n ≤ source.length) :
    Divided source file n (tokensFrom file 0 (.ofOffset source n) (source.drop n)) := by
  -- along the bytes that are left, since a token takes at least one of them
  generalize hleft : source.length - n = left
  induction left using Nat.strongRecOn generalizing n with
  | ind left ih =>
    cases hrest : source.drop n with
    | nil =>
      obtain rfl : n = source.length := Nat.le_antisymm hn (List.drop_eq_nil_iff.mp hrest)
      exact .marker
    | cons c rest =>
      have hlength := length_of_drop_eq_cons hrest
      have hpos := scan_pos c rest
      have hle := scan_le c rest
      -- the walk takes the first byte of a token by itself
      have hwidth : (scan c rest).2 = (scan c rest).2 - 1 + 1 := by omega
      have hdrop : rest.drop ((scan c rest).2 - 1) = source.drop (n + (scan c rest).2) := by
        rw [← List.drop_drop, hrest, hwidth, List.drop_succ_cons, ← hwidth]
      have hplace :
          ((Position.ofOffset source n).step c rest.head?).after ((scan c rest).2 - 1) rest =
          .ofOffset source (n + (scan c rest).2) := by
        rw [← Position.after_start (by omega), ← Position.after_start (by omega),
          ← Position.after_after, hrest, hwidth, Position.after, ← hwidth]
      rw [tokensFrom_cons, hdrop, hplace]
      exact .token hrest (ih _ (by omega) (by omega) rfl)

/-- The tokens of a source divide it. -/
theorem divided_tokens (source : Bytes) (file : UInt32) :
    Divided source file 0 (tokens source file) := by
  rw [tokens_eq]
  exact divided_tokensFrom (Nat.zero_le _)

/-! ## The tokens on the way -/

/-- A token has the bytes that it is recognised with. -/
theorem text_tokenAt (file : UInt32) (p : Position) (c : UInt8) (rest : Bytes) :
    (tokenAt file p c rest).text = (c :: rest).take (scan c rest).2 ∧
      (tokenAt file p c rest).text.length = (scan c rest).2 := by
  have hpos := scan_pos c rest
  have hle := scan_le c rest
  obtain ⟨width, hwidth⟩ : ∃ width, (scan c rest).2 = width + 1 := ⟨(scan c rest).2 - 1, by omega⟩
  have htext : (tokenAt file p c rest).text = c :: rest.take width := by
    rw [tokenAt, hwidth, Nat.add_sub_cancel]
  rw [hwidth, htext, List.take_succ_cons, List.length_cons, List.length_take]
  exact ⟨rfl, by omega⟩

/-- The first of the tokens stands at the offset. -/
theorem Divided.head (h : Divided source file n ts) : ∀ t ∈ ts.head?, t.offset = n.toUInt32 := by
  intro t ht
  cases h with
  | marker =>
    obtain rfl := Option.some.inj ht
    rfl
  | token =>
    obtain rfl := Option.some.inj ht
    rfl

/-- Every token stands where the one before it ends. -/
theorem Divided.contiguous (h : Divided source file n ts) :
    ts.IsChain fun t u => u.offset = t.stop := by
  induction h with
  | marker => exact .singleton _
  | @token n c rest ts hrest hts ih =>
    refine List.isChain_cons.mpr ⟨fun u hu => ?_, ih⟩
    rw [hts.head u hu, Token.stop, Token.length, (text_tokenAt _ _ c rest).2]
    exact UInt32.ofNat_add n _

/-- The texts of the tokens are the bytes from the offset on. -/
theorem Divided.texts (h : Divided source file n ts) : ts.flatMap Token.text = source.drop n := by
  induction h with
  | marker => simp [endMarkerAt]
  | @token n c rest ts hrest hts ih =>
    rw [List.flatMap_cons, ih, (text_tokenAt _ _ c rest).1, ← hrest, ← List.drop_drop]
    exact List.take_append_drop _ _

/-- Every token stands at an offset of the source and has the position of that offset. -/
theorem Divided.position (h : Divided source file n ts) :
    ∀ t ∈ ts, ∃ m ≤ source.length, t.offset = m.toUInt32 ∧
      t.loc = (Position.ofOffset source m).locate file := by
  induction h with
  | marker =>
    intro t ht
    obtain rfl := List.mem_singleton.mp ht
    exact ⟨source.length, Nat.le_refl _, rfl, rfl⟩
  | @token n c rest ts hrest hts ih =>
    intro t ht
    rcases List.mem_cons.mp ht with rfl | ht
    · have hlength := length_of_drop_eq_cons hrest
      exact ⟨n, by omega, rfl, rfl⟩
    · exact ih t ht

/-- The last of the tokens is the end marker, and all others are recognised at their offsets. -/
theorem Divided.exists_marker (h : Divided source file n ts) :
    ∃ front, ts = front ++ [endMarkerAt file (.ofOffset source source.length)] ∧
      ∀ t ∈ front, ∃ m c rest, t = tokenAt file (.ofOffset source m) c rest ∧
        m ≤ source.length ∧ source.drop m = c :: rest := by
  induction h with
  | marker => exact ⟨[], rfl, by simp⟩
  | @token n c rest ts hrest hts ih =>
    obtain ⟨front, rfl, hfront⟩ := ih
    refine ⟨tokenAt file (.ofOffset source n) c rest :: front, rfl, fun t ht => ?_⟩
    rcases List.mem_cons.mp ht with rfl | ht
    · have hlength := length_of_drop_eq_cons hrest
      exact ⟨n, c, rest, rfl, by omega, hrest⟩
    · exact hfront t ht

end

/-! ## Texts of one token -/

/-- Whether a text by itself is one token of the given kind. -/
def IsToken (kind : Kind) (text : Bytes) : Prop :=
  ∀ file, (tokens text file).map (fun t => (t.kind, t.text)) =
    [(kind, text), (.lexeme .endOfFile, [])]

/-- A text is one token where all of it is recognised at once. -/
theorem isToken_iff {kind : Kind} {c : UInt8} {rest : Bytes} :
    IsToken kind (c :: rest) ↔ scan c rest = (kind, rest.length + 1) := by
  have hfirst (file : UInt32) := (text_tokenAt file {} c rest).1
  constructor
  · intro h
    have htokens := h 0
    rw [tokens_eq, tokensFrom_cons, List.map_cons, hfirst, kind_tokenAt] at htokens
    obtain ⟨hkind, htext⟩ := Prod.mk.inj (List.cons.inj htokens).1
    have hlength := congrArg List.length htext
    rw [List.length_take, List.length_cons] at hlength
    have hle := scan_le c rest
    exact Prod.ext hkind (by dsimp only; omega)
  · intro h file
    rw [tokens_eq, tokensFrom_cons, List.map_cons, hfirst, kind_tokenAt, h, List.take_succ_cons,
      List.take_length, Nat.add_sub_cancel, List.drop_length]
    rfl

/-! ## The division -/

/-- A source is divided into tokens with an end marker behind them. -/
structure IsDivision (source : Bytes) (file : UInt32) (ts : List Token)
    (marker : Token) : Prop where
  /-- Every token in front of the marker has the kind and the width with which the bytes from its
  offset on are recognised. -/
  recognised : ∀ t ∈ ts, ∃ c rest, source.drop t.offset.toNat = c :: rest ∧
    scan c rest = (t.kind, t.text.length)
  /-- It has a text, and it is no marker. -/
  solid : ∀ t ∈ ts, t.text ≠ [] ∧ t.kind ≠ .lexeme .endOfFile
  /-- The marker has none, and it stands at the end of the source. -/
  marker_eq : marker.kind = .lexeme .endOfFile ∧ marker.text = [] ∧ marker.offset.toNat =
    source.length
  /-- The texts, one behind the other, are the source. -/
  texts : ts.flatMap Token.text = source
  /-- The first token stands at the start of the source. -/
  first : ∀ t ∈ (ts ++ [marker]).head?, t.offset = 0
  /-- Every other token stands where the one before it ends. -/
  contiguous : (ts ++ [marker]).IsChain fun t u => u.offset = t.stop
  /-- The location of a token, in 32-bit words: the line is told by the line breaks completed before
  its offset, the column by the characters in front of it on its line. -/
  location : ∀ t ∈ ts ++ [marker], t.loc =
    { file := file
      line := (1 + source.breaksBefore t.offset.toNat).toUInt32
      column := (1 + source.columnsBefore t.offset.toNat).toUInt32 }
  /-- A word is too small for the line or the column only where all of 2^32 - 1 bytes count. -/
  location_toNat : source.length + 1 < 2 ^ 32 → ∀ t ∈ ts ++ [marker],
    t.loc.line.toNat = 1 + source.breaksBefore t.offset.toNat ∧
      t.loc.column.toNat = 1 + source.columnsBefore t.offset.toNat

/-- Every source shorter than 2^32 bytes, UTF-8 or not, is divided into its tokens. -/
theorem tokens_divide (source : Bytes) (file : UInt32) (hsize : source.length < 2 ^ 32) :
    ∃ ts marker, tokens source file = ts ++ [marker] ∧ IsDivision source file ts marker := by
  have hdivided := divided_tokens source file
  obtain ⟨ts, htokens, hfront⟩ := hdivided.exists_marker
  have hoffset {m : Nat} (hm : m ≤ source.length) : m.toUInt32.toNat = m :=
    Bytes.toNat_toUInt32 hm hsize
  -- the offsets are kept by their words, so each position is that of the offset
  have hposition : ∀ t ∈ ts ++ [endMarkerAt file (.ofOffset source source.length)],
      t.offset.toNat ≤ source.length ∧
        t.loc = (Position.ofOffset source t.offset.toNat).locate file := by
    intro t ht
    obtain ⟨m, hm, hoff, hloc⟩ := hdivided.position t (htokens ▸ ht)
    rw [hoff, hoffset hm]
    exact ⟨hm, hloc⟩
  rw [htokens] at hdivided
  refine ⟨ts, _, htokens, ?_, ?_, ⟨rfl, rfl, hoffset (Nat.le_refl _)⟩, ?_, hdivided.head,
    hdivided.contiguous, fun t ht => (hposition t ht).2, fun hsmall t ht => ?_⟩
  · intro t ht
    obtain ⟨m, c, rest, rfl, hm, hrest⟩ := hfront t ht
    refine ⟨c, rest, ?_, ?_⟩
    · exact (congrArg source.drop (hoffset hm)).trans hrest
    · rw [(text_tokenAt _ _ c rest).2]
      rfl
  · intro t ht
    obtain ⟨m, c, rest, rfl, -, -⟩ := hfront t ht
    exact ⟨List.cons_ne_nil _ _, scan_ne_endOfFile c rest⟩
  · simpa [endMarkerAt] using hdivided.texts
  · -- neither the line nor the column counts a byte twice
    obtain ⟨hle, hloc⟩ := hposition t ht
    have hbreaks := source.breaksBefore_le t.offset.toNat
    have hcolumns := source.columnsBefore_le t.offset.toNat
    have hline : (Position.ofOffset source t.offset.toNat).line ≤ source.length + 1 := by
      simp only [Position.ofOffset]; omega
    have hcolumn : (Position.ofOffset source t.offset.toNat).column ≤ source.length + 1 := by
      simp only [Position.ofOffset]; omega
    rw [hloc]
    exact ⟨Bytes.toNat_toUInt32 hline hsmall, Bytes.toNat_toUInt32 hcolumn hsmall⟩

/-- A name, CR LF, a blank, two bytes of a character, a number that starts with a dot, a lone CR, a
zero byte and a character that the end of the source cuts off. -/
theorem tokens_divide_truncated :
    [0x78, 0x0D, 0x0A, 0x20, 0xC3, 0xA9, 0x2E, 0x35, 0x0D, 0x00, 0xE2, 0x82].length < 2 ^ 32 ∧
      ∃ ts marker, tokens [0x78, 0x0D, 0x0A, 0x20, 0xC3, 0xA9, 0x2E, 0x35, 0x0D, 0x00,
        0xE2, 0x82] 1 =
          ts ++ [marker] ∧
        IsDivision [0x78, 0x0D, 0x0A, 0x20, 0xC3, 0xA9, 0x2E, 0x35, 0x0D, 0x00, 0xE2, 0x82] 1
          ts marker :=
  ⟨by
    decide, tokens_divide [0x78, 0x0D, 0x0A, 0x20, 0xC3, 0xA9, 0x2E, 0x35, 0x0D, 0x00, 0xE2, 0x82] 1
    (by decide)⟩

/-- Offsets, lines and columns of the same tokens. -/
example :
    (tokens [0x78, 0x0D, 0x0A, 0x20, 0xC3, 0xA9, 0x2E, 0x35, 0x0D, 0x00, 0xE2, 0x82] 1).map
        (fun t => (t.offset, t.loc.line, t.loc.column)) =
      [(0, 1, 1), (1, 1, 2), (3, 2, 1), (4, 2, 2), (6, 2, 3), (8, 2, 5), (9, 3, 1), (10, 3, 2),
        (12, 3, 3)] := by decide +kernel

end Lexer

end LosslessBasic
