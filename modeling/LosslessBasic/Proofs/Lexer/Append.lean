import LosslessBasic.Proofs.Lexer.Lookahead
import LosslessBasic.Proofs.Relocation

/-!
# The tokens of a text behind another

A source that is cut behind a line feed has the tokens of both its parts, one after the other. Those
of the second part are the ones it has alone, put further down by the first part.

## Main results

* `Lexer.tokens_append`: the tokens of two texts;
* `Lexer.failures_map_token`: tokens further down have the same failures there;
* `Utf8.firstInvalid?_append`: two texts that are UTF-8 are so together.
-/

namespace LosslessBasic

open Bytes

/-- Whether a text is empty or ends in a line feed, so that it ends where a line does. -/
def Bytes.EndsLine (bytes : Bytes) : Prop := ∀ c ∈ bytes.getLast?, c = lineFeed

/-- The number of line breaks in a text. A carriage return in front of a line feed breaks no line of
its own. -/
def Bytes.lineBreaks : Bytes → Nat
  | [] => 0
  | c :: rest =>
    (if c == lineFeed || (c == carriageReturn && rest.head? != some lineFeed) then 1 else 0) +
      lineBreaks rest

namespace Bytes.EndsLine

variable {c : UInt8} {bytes : Bytes}

/-- A text that ends its line does so behind any of its bytes. -/
theorem drop (h : bytes.EndsLine) (n : Nat) : EndsLine (bytes.drop n) := by
  intro c hc
  rw [List.getLast?_drop] at hc
  split at hc
  · cases hc
  · exact h c hc

/-- A text that ends its line does so behind its first byte. -/
theorem tail (h : EndsLine (c :: bytes)) : EndsLine bytes := h.drop 1

/-- What stands behind such a text does not change what a byte of it is followed by, except for the
last one, a line feed. -/
theorem step_append (h : EndsLine (c :: bytes)) (more : Bytes) (p : Position) :
    p.step c (bytes ++ more).head? = p.step c bytes.head? := by
  cases bytes with
  | nil =>
    obtain rfl : c = lineFeed := h c rfl
    rfl
  | cons d rest => rfl

end Bytes.EndsLine

/-- How far down a text is put by another one in front of it. -/
def Relocation.behind (text : Bytes) : Relocation where
  offset := text.length.toUInt32
  lines := text.lineBreaks.toUInt32

/-! ## Positions -/

namespace Position

/-- A position further down, behind bytes and line breaks of the given numbers. -/
def below (p : Position) (offset lines : Nat) : Position :=
  { offset := p.offset + offset, line := p.line + lines, column := p.column }

/-- A step further down leads as much further down. -/
theorem step_below (p : Position) (offset lines : Nat) (c : UInt8) (next : Option UInt8) :
    (p.below offset lines).step c next = (p.step c next).below offset lines := by
  unfold step
  split
  · simp only [below, Position.mk.injEq, and_true]
    omega
  · split
    · simp only [below, Position.mk.injEq, and_true]
      omega
    · simp only [below, Position.mk.injEq, and_true]
      omega

variable {bytes : Bytes}

/-- What follows a text does not change the positions in it. -/
theorem after_append (h : bytes.EndsLine) (more : Bytes) {n : Nat} (hn : n ≤ bytes.length)
    (p : Position) : p.after n (bytes ++ more) = p.after n bytes := by
  induction bytes generalizing n p with
  | nil =>
    obtain rfl : n = 0 := by simpa using hn
    simp [after]
  | cons c rest ih =>
    cases n with
    | zero => simp [after]
    | succ n =>
      rw [List.cons_append, after, after, h.step_append]
      exact ih h.tail (by simpa using hn) _

/-- To go on by two widths is to go on by one and then by the other. -/
theorem after_after (p : Position) (m n : Nat) (bytes : Bytes) :
    (p.after m bytes).after n (bytes.drop m) = p.after (m + n) bytes := by
  induction m generalizing p bytes with
  | zero => simp [after]
  | succ m ih =>
    cases bytes with
    | nil => cases n <;> simp [after]
    | cons c rest =>
      rw [after, List.drop_succ_cons, ih, Nat.add_right_comm, after]

/-- Behind a text the position is as far on as the text is long, and as many lines down as it has
breaks. -/
theorem offset_line_after (p : Position) (bytes : Bytes) :
    (p.after bytes.length bytes).offset = p.offset + bytes.length ∧
      (p.after bytes.length bytes).line = p.line + bytes.lineBreaks := by
  induction bytes generalizing p with
  | nil => exact ⟨rfl, rfl⟩
  | cons c rest ih =>
    obtain ⟨hoffset, hline⟩ := ih (p.step c rest.head?)
    rw [List.length_cons, after, hoffset, hline, lineBreaks]
    unfold step
    split
    · dsimp only
      omega
    · split
      · dsimp only
        omega
      · dsimp only
        omega

/-- Behind a line feed a line begins. -/
theorem column_after (h : bytes.EndsLine) (hne : bytes ≠ []) (p : Position) :
    (p.after bytes.length bytes).column = 1 := by
  induction bytes generalizing p with
  | nil => exact absurd rfl hne
  | cons c rest ih =>
    cases rest with
    | nil =>
      obtain rfl : c = lineFeed := h c rfl
      rfl
    | cons d rest => exact ih h.tail (List.cons_ne_nil d rest) _

/-- Behind a text that ends where a line does the start of another text stands further down. -/
theorem after_eq_below (h : bytes.EndsLine) :
    ({} : Position).after bytes.length bytes = below {} bytes.length bytes.lineBreaks := by
  obtain ⟨hoffset, hline⟩ := offset_line_after {} bytes
  have hcolumn : (({} : Position).after bytes.length bytes).column = 1 := by
    cases bytes with
    | nil => rfl
    | cons c rest => exact column_after h (List.cons_ne_nil c rest) _
  generalize ({} : Position).after bytes.length bytes = q at hoffset hline hcolumn ⊢
  cases q
  simp_all [below]

/-- A position further down is located as a location that is moved. -/
theorem locate_below (p : Position) (offset lines : Nat) (file : UInt32) :
    (p.below offset lines).locate file =
      ({ offset := offset.toUInt32, lines := lines.toUInt32 } : Relocation).location
        (p.locate file) := by
  simp [locate, below, Relocation.location, UInt32.ofNat_add]

end Position

/-! ## Tokens -/

namespace Lexer

/-- Tokens further down are those of the text alone, put there. -/
theorem tokensFrom_below (file : UInt32) (within : Nat) (p : Position) (offset lines : Nat)
    (bytes : Bytes) :
    tokensFrom file within (p.below offset lines) bytes =
      (tokensFrom file within p bytes).map
        ({ offset := offset.toUInt32, lines := lines.toUInt32 } : Relocation).token := by
  have hoffset (p : Position) :
      (p.below offset lines).offset.toUInt32 = p.offset.toUInt32 + offset.toUInt32 := by
    simp [Position.below, UInt32.ofNat_add]
  induction bytes generalizing within p with
  | nil =>
    cases within <;>
      simp only [tokensFrom, endMarkerAt, List.map_cons, List.map_nil, Relocation.token, hoffset,
        Position.locate_below]
  | cons c rest ih =>
    cases within with
    | succ k => rw [tokensFrom, tokensFrom, Position.step_below, ih]
    | zero =>
      rw [tokensFrom, tokensFrom, Position.step_below, ih, List.map_cons]
      simp only [tokenAt, Relocation.token, hoffset, Position.locate_below]

/-- What belongs to the token before is passed over. -/
theorem tokensFrom_within (file : UInt32) (within : Nat) (p : Position) (bytes : Bytes) :
    tokensFrom file within p bytes =
      tokensFrom file 0 (p.after within bytes) (bytes.drop within) := by
  induction within generalizing p bytes with
  | zero => rfl
  | succ k ih =>
    cases bytes with
    | nil => rfl
    | cons c rest => exact ih _ rest

/-- The first token of a text and the tokens behind it. -/
theorem tokensFrom_cons (file : UInt32) (p : Position) (c : UInt8) (rest : Bytes) :
    tokensFrom file 0 p (c :: rest) = tokenAt file p c rest ::
      tokensFrom file 0 ((p.step c rest.head?).after ((scan c rest).2 - 1) rest)
        (rest.drop ((scan c rest).2 - 1)) := by
  rw [tokensFrom, tokensFrom_within]

/-- Only a line break is read as one. -/
theorem isLineBreak_of_scan {c : UInt8} {rest : Bytes} (h : (scan c rest).1 = .trivia .newline) :
    Ascii.isLineBreak c = true := by
  refine Decidable.byContradiction fun hbreak => ?_
  unfold scan at h
  simp only [if_neg hbreak] at h
  revert h
  split; · rintro ⟨⟩
  split; · rintro ⟨⟩
  split; · rintro ⟨⟩
  split; · rintro ⟨⟩
  split; · rintro ⟨⟩
  split; · rintro ⟨⟩
  split; · rintro ⟨⟩
  split
  · unfold word
    dsimp only
    split
    · rintro ⟨⟩
    · split
      · rintro ⟨⟩
      · split <;> rintro ⟨⟩
  split
  · rintro ⟨⟩
  · rintro ⟨⟩

/-- A line break is as wide as it is written. -/
theorem scan_of_isLineBreak {c : UInt8} (h : Ascii.isLineBreak c = true) (rest : Bytes) :
    scan c rest = (.trivia .newline, Cursor.lineBreakWidth (c :: rest)) := by
  unfold scan
  rw [if_pos h]

/-- A line break is no wider than the text. -/
theorem lineBreakWidth_le (bytes : Bytes) : Cursor.lineBreakWidth bytes ≤ bytes.length := by
  unfold Cursor.lineBreakWidth
  split
  · exact Nat.zero_le _
  next c rest =>
    split
    · split
      next hnext =>
        cases rest with
        | nil => cases hnext
        | cons d rest => simp
      next => simp
    · split <;> simp

variable {bytes : Bytes}

/-- The first token of a text that ends where a line does is the same in front of another text. -/
theorem tokenAt_append {c : UInt8} {rest : Bytes} (h : Bytes.EndsLine (c :: rest))
    (hlast : rest.drop ((scan c rest).2 - 1) = [] → (scan c rest).1 = .trivia .newline)
    (file : UInt32) (p : Position) (more : Bytes) :
    scan c (rest ++ more) = scan c rest ∧ (scan c rest).2 - 1 ≤ rest.length ∧
      tokenAt file p c (rest ++ more) = tokenAt file p c rest := by
  have hagree : Bytes.Agree (c :: rest) (c :: (rest ++ more)) := by
    refine Bytes.Agree.of_getLast? ?_ more
    obtain ⟨last, hlast⟩ := Option.isSome_iff_exists.mp
      (List.getLast?_isSome.mpr (List.cons_ne_nil c rest))
    rw [hlast, h last hlast]
  have hwidth : (scan c rest).1 = .trivia .newline ∨ (scan c rest).2 ≤ rest.length := by
    by_cases hdrop : rest.drop ((scan c rest).2 - 1) = []
    · exact .inl (hlast hdrop)
    · rw [List.drop_eq_nil_iff] at hdrop
      omega
  have hscan : scan c (rest ++ more) = scan c rest := scan_eq hagree (by simp) hwidth
  have hle : (scan c rest).2 - 1 ≤ rest.length := by
    obtain hkind | hwidth := hwidth
    · have hbreak := lineBreakWidth_le (c :: rest)
      rw [scan_of_isLineBreak (isLineBreak_of_scan hkind)]
      rw [List.length_cons] at hbreak
      dsimp only
      omega
    · omega
  refine ⟨hscan, hle, ?_⟩
  unfold tokenAt
  rw [hscan, List.take_append_of_le_length hle]

/-- The tokens of a text that ends where a line does are the same in front of another text, which
has its own tokens behind them. -/
theorem tokensFrom_append (file : UInt32) (h : bytes.EndsLine) (p : Position)
    (hlast : ∀ t ∈ (tokensFrom file 0 p bytes).dropLast.getLast?, t.kind = .trivia .newline)
    (more : Bytes) :
    tokensFrom file 0 p (bytes ++ more) = (tokensFrom file 0 p bytes).dropLast ++
      tokensFrom file 0 (p.after bytes.length bytes) more := by
  generalize hn : bytes.length = n
  -- by induction on the bytes left: the last token is a line break, so no token in front of it
  -- looks at `more`
  induction n using Nat.strongRecOn generalizing bytes p with
  | ind n ih =>
    cases bytes with
    | nil =>
      subst hn
      rfl
    | cons c rest =>
      rw [tokensFrom_cons] at hlast ⊢
      generalize hbehind : rest.drop ((scan c rest).2 - 1) = behind at hlast ⊢
      generalize hq : (p.step c rest.head?).after ((scan c rest).2 - 1) rest = q at hlast ⊢
      obtain ⟨found, marker, htokens, -⟩ := tokensFrom_eq_append file 0 q behind
      have hinit : (tokenAt file p c rest :: (found ++ [endMarkerAt file marker])).dropLast =
          tokenAt file p c rest :: found := by
        rw [← List.cons_append, List.dropLast_concat]
      have htail : ∀ t ∈ (tokensFrom file 0 q behind).dropLast.getLast?,
          t.kind = .trivia .newline := by
        intro t ht
        refine hlast t ?_
        rw [htokens, List.dropLast_concat] at ht
        rw [htokens, hinit, List.getLast?_cons, ht]
        rfl
      obtain ⟨hscan, hwidth, htoken⟩ := tokenAt_append (p := p) h (fun hnil => hlast _ (by
        obtain rfl : behind = [] := hbehind.symm.trans hnil
        rfl)) file more
      have hends : Bytes.EndsLine behind := hbehind ▸ h.tail.drop _
      have hlength : behind.length = rest.length - ((scan c rest).2 - 1) := by
        rw [← hbehind, List.length_drop]
      have hafter : q.after behind.length behind = p.after n (c :: rest) := by
        rw [hlength, ← hq, ← hbehind, Position.after_after, Nat.add_sub_cancel' hwidth, ← hn]
        rfl
      rw [List.length_cons] at hn
      have hmore := ih behind.length (by omega) hends q htail rfl
      rw [List.cons_append, tokensFrom_cons, hscan, htoken, h.step_append,
        Position.after_append h.tail more hwidth, hq, List.drop_append_of_le_length hwidth, hbehind,
        hmore, hafter, htokens, hinit, List.dropLast_concat, List.cons_append]

/-- The tokens of a source whose first part ends with a line break are those of its parts, the
second part further down. -/
theorem tokens_append (file : UInt32) (h : bytes.EndsLine)
    (hlast : ∀ t ∈ (tokens bytes file).dropLast.getLast?, t.kind = .trivia .newline)
    (more : Bytes) :
    tokens (bytes ++ more) file = (tokens bytes file).dropLast ++
      (tokens more file).map (Relocation.behind bytes).token := by
  rw [tokens_eq] at hlast
  rw [tokens_eq, tokens_eq, tokens_eq, tokensFrom_append file h {} hlast more,
    Position.after_eq_below h, tokensFrom_below]
  rfl

/-- The end marker of such a text stands behind all of its bytes. -/
theorem exists_tokens_eq_append (file : UInt32) (h : bytes.EndsLine)
    (hlast : ∀ t ∈ (tokens bytes file).dropLast.getLast?, t.kind = .trivia .newline) :
    ∃ marker, tokens bytes file = (tokens bytes file).dropLast ++ [marker] ∧
      marker.offset = bytes.length.toUInt32 := by
  have htokens := tokens_append file h hlast []
  rw [List.append_nil] at htokens
  exact ⟨_, htokens, UInt32.zero_add _⟩

/-- What is wrong with a token does not depend on where it stands. -/
theorem problem?_token (r : Relocation) (t : Token) :
    problem? (r.token t) = (problem? t).map r.problem := by
  unfold problem?
  dsimp only
  split <;> rfl

/-- Tokens further down have the same failures there. -/
theorem failures_map_token (r : Relocation) (ts : List Token) :
    failures (ts.map r.token) = (failures ts).map r.failure := by
  unfold failures
  rw [List.filterMap_map, List.map_filterMap]
  refine congrArg (List.filterMap · ts) (funext fun t => ?_)
  rw [Function.comp_apply, problem?_token]
  cases problem? t with
  | none => rfl
  | some problem => exact congrArg some (r.atToken_problem problem t)

/-- The failures of two rows of tokens are those of the first and then of the second. -/
theorem failures_append (ts us : List Token) : failures (ts ++ us) = failures ts ++ failures us :=
  List.filterMap_append ..

/-- The end marker has no failure by itself. -/
theorem failures_dropLast_tokens (source : Bytes) (file : UInt32) :
    failures (tokens source file).dropLast = failures (tokens source file) := by
  obtain ⟨ts, q, hts, -⟩ := tokensFrom_eq_append file 0 {} source
  rw [tokens_eq, hts, List.dropLast_concat, failures_append]
  exact (List.append_nil _).symm

end Lexer

/-! ## Scalars -/

namespace Utf8

/-- A scalar that is there is the same in front of more bytes. -/
theorem scalarWidth?_append {bytes : Bytes} {width : Nat} (h : scalarWidth? bytes = some width)
    (more : Bytes) : scalarWidth? (bytes ++ more) = some width ∧ width ≤ bytes.length := by
  have hif {condition : Bool} {n : Nat} (h : (if condition then some n else none) = some width) :
      width = n := by
    split at h
    · exact (Option.some.inj h).symm
    · cases h
  cases bytes with
  | nil => cases h
  | cons a rest =>
    rw [List.cons_append]
    unfold scalarWidth? at h ⊢
    by_cases hone : a < 0x80
    · simp only [if_pos hone] at h ⊢
      cases h
      simp
    -- as many bytes are looked at as the first one asks for, and all of them have been there
    by_cases htwo : (a &&& 0xE0 == 0xC0) = true
    · simp only [if_neg hone, if_pos htwo] at h ⊢
      match rest, h with
      | b :: rest, h =>
        refine ⟨h, ?_⟩
        simp [hif h]
    by_cases hthree : (a &&& 0xF0 == 0xE0) = true
    · simp only [if_neg hone, if_neg htwo, if_pos hthree] at h ⊢
      match rest, h with
      | b :: c :: rest, h =>
        refine ⟨h, ?_⟩
        simp [hif h]
    by_cases hfour : (a &&& 0xF8 == 0xF0) = true
    · simp only [if_neg hone, if_neg htwo, if_neg hthree, if_pos hfour] at h ⊢
      match rest, h with
      | b :: c :: d :: rest, h =>
        refine ⟨h, ?_⟩
        simp [hif h]
    · simp only [if_neg hone, if_neg htwo, if_neg hthree, if_neg hfour] at h
      cases h

/-- Where the first of two texts has a scalar at each of its bytes, so have both together up to the
first byte of the second one that starts no scalar. -/
theorem firstInvalidFrom_append {within offset : Nat} {bytes more : Bytes}
    (hwithin : within ≤ bytes.length) (h : firstInvalidFrom within offset bytes = none) :
    firstInvalidFrom within offset (bytes ++ more) =
      firstInvalidFrom 0 (offset + bytes.length) more := by
  induction bytes generalizing within offset with
  | nil =>
    obtain rfl : within = 0 := by simpa using hwithin
    rfl
  | cons c rest ih =>
    have hoffset : offset + (c :: rest).length = offset + 1 + rest.length := by
      rw [List.length_cons]
      omega
    rw [hoffset]
    cases within with
    | succ k => exact ih (by simpa using hwithin) h
    | zero =>
      rw [firstInvalidFrom] at h
      rw [List.cons_append, firstInvalidFrom]
      split at h
      · cases h
      next width hwidth =>
        obtain ⟨hmore, hle⟩ := scalarWidth?_append hwidth more
        rw [List.cons_append] at hmore
        rw [hmore]
        rw [List.length_cons] at hle
        exact ih (by omega) h

/-- A walk gives the offset as far behind its start as a walk over the bytes behind it says. -/
theorem firstInvalidFrom_eq_map (within offset : Nat) (bytes : Bytes) :
    firstInvalidFrom within offset bytes =
      (firstInvalid? (bytes.drop within)).map (· + (offset + within)) := by
  induction bytes generalizing within offset with
  | nil => simp [firstInvalid?, firstInvalidFrom]
  | cons c rest ih =>
    cases within with
    | succ k =>
      rw [firstInvalidFrom, ih, List.drop_succ_cons, Nat.add_right_comm, Nat.add_assoc]
    | zero =>
      rw [List.drop_zero, firstInvalid?, firstInvalidFrom, firstInvalidFrom]
      cases scalarWidth? (c :: rest) with
      | none => simp
      | some width =>
        dsimp only
        rw [ih, ih, Option.map_map]
        congr 1
        funext k
        simp only [Function.comp_apply]
        omega

/-- Two texts that are UTF-8 are so together. -/
theorem firstInvalid?_append {bytes more : Bytes} (h : firstInvalid? bytes = none)
    (hmore : firstInvalid? more = none) : firstInvalid? (bytes ++ more) = none := by
  unfold firstInvalid?
  rw [firstInvalidFrom_append (Nat.zero_le _) h, firstInvalidFrom_eq_map, List.drop_zero, hmore,
    Option.map_none]

end Utf8

end LosslessBasic
