import LosslessBasic.Lexer

/-!
# The tokens of a source

`Lexer.tokensOnto` collects the tokens of a source the latest first. `tokensFrom` gives the same
tokens in their order, and the facts about them are inductions along it: their texts are the source
(`texts_tokens`), and only the last of them is an end marker (`tokens_eq_append_endMarker`). What a
token is, the first of `Reader.all` says that finds one (`findSome?_readers`).
-/

namespace LosslessBasic.Lexer

/-- The token that starts with the byte `c` at position `p`. -/
def tokenAt (file : UInt32) (p : Position) (c : UInt8) (rest : Bytes) : Token where
  kind := (scan c rest).1
  text := c :: rest.take ((scan c rest).2 - 1)
  offset := p.offset.toUInt32
  loc := p.locate file

theorem kind_tokenAt (file : UInt32) (p : Position) (c : UInt8) (rest : Bytes) :
    (tokenAt file p c rest).kind = (scan c rest).1 := rfl

/-- The end marker at position `p`. -/
def endMarkerAt (file : UInt32) (p : Position) : Token where
  offset := p.offset.toUInt32
  loc := p.locate file

/-- The tokens from position `p` on, behind the `within` bytes that belong to the token before. -/
def tokensFrom (file : UInt32) : (within : Nat) → (p : Position) → Bytes → List Token
  | _, p, [] => [endMarkerAt file p]
  | k + 1, p, c :: rest => tokensFrom file k (p.step c rest.head?) rest
  | 0, p, c :: rest =>
    tokenAt file p c rest ::
      tokensFrom file ((scan c rest).2 - 1) (p.step c rest.head?) rest

/-- The tokens that are collected are put in front of those that were found before. -/
theorem tokensOnto_eq (file : UInt32) (found : List Token) (within : Nat) (p : Position)
    (bytes : Bytes) :
    tokensOnto file found within p bytes = (tokensFrom file within p bytes).reverse ++ found := by
  induction bytes generalizing found within p with
  | nil => cases within <;> rfl
  | cons c rest ih =>
    cases within with
    | succ k => exact ih found k _
    | zero =>
      rcases hscan : scan c rest with ⟨kind, width⟩
      simp only [tokensOnto, tokensFrom, tokenAt, hscan, ih, List.reverse_cons, List.append_assoc,
        List.cons_append, List.nil_append]

/-- The tokens of a source in their order. -/
theorem tokens_eq (source : Bytes) (file : UInt32) :
    tokens source file = tokensFrom file 0 {} source := by
  simp [tokens, tokensOnto_eq]

/-! ## Texts -/

/-- The texts of the tokens are the bytes from the first of them on. -/
theorem texts_tokensFrom (file : UInt32) (within : Nat) (p : Position) (bytes : Bytes) :
    (tokensFrom file within p bytes).flatMap Token.text = bytes.drop within := by
  induction bytes generalizing within p with
  | nil => cases within <;> rfl
  | cons c rest ih =>
    cases within with
    | succ k => exact ih k _
    | zero =>
      rw [tokensFrom, List.flatMap_cons, ih]
      simp [tokenAt]

/-- The texts of the tokens of a source, one after the other, are the source. -/
theorem texts_tokens (source : Bytes) (file : UInt32) :
    (tokens source file).flatMap Token.text = source := by
  rw [tokens_eq, texts_tokensFrom, List.drop_zero]

/-- Only the end marker has no text. -/
theorem text_ne_nil_of_mem_tokensFrom {file : UInt32} {within : Nat} {p : Position} {bytes : Bytes}
    {t : Token} (h : t ∈ tokensFrom file within p bytes) (ht : t.kind ≠ .lexeme .endOfFile) :
    t.text ≠ [] := by
  induction bytes generalizing within p with
  | nil =>
    obtain rfl : t = endMarkerAt file p := by cases within <;> simpa [tokensFrom] using h
    exact absurd rfl ht
  | cons c rest ih =>
    cases within with
    | succ k => exact ih h
    | zero =>
      rcases List.mem_cons.mp h with rfl | h
      · exact List.cons_ne_nil _ _
      · exact ih h

/-! ## Kinds -/

theorem suffixed?_ne_endOfFile {suffix : UInt8} {l : Lexeme}
    (h : Number.suffixed? suffix = some l) :
    l ≠ .endOfFile := by
  unfold Number.suffixed? at h
  grind

theorem decimal_ne_endOfFile (bytes : Bytes) : (Number.decimal bytes).1 ≠ .endOfFile := by
  unfold Number.decimal
  dsimp only
  split
  · split <;> nofun
  · split
    next h =>
      split
      · dsimp only; split <;> nofun
      · exact suffixed?_ne_endOfFile h
    next => dsimp only; split <;> nofun

theorem based?_ne_endOfFile {bytes : Bytes} {number : Lexeme × Nat}
    (h : Number.based? bytes = some number) : number.1 ≠ .endOfFile := by
  unfold Number.based? at h
  grind

theorem ofText?_ne_endOfFile {text : Bytes} {l : Lexeme} (h : Lexeme.ofText? text = some l) :
    l ≠ .endOfFile := by
  have hmem := List.mem_of_find?_eq_some h
  rintro rfl
  simp [Lexeme.punctuation] at hmem

theorem punctuation_ne_endOfFile (c : UInt8) (rest : Bytes) :
    (punctuation c rest).1 ≠ .endOfFile := by
  unfold punctuation
  split
  next h => exact ofText?_ne_endOfFile h
  next =>
    split
    next h => exact ofText?_ne_endOfFile h
    next => nofun

/-- A kind that is made of a lexeme ends a source only if the lexeme does. -/
theorem lexeme_ne_endOfFile {found : Lexeme × Nat} (h : found.1 ≠ .endOfFile) :
    (found.map Kind.lexeme id).1 ≠ .lexeme .endOfFile := by
  rw [Prod.map_fst]
  exact fun heq => h (Kind.lexeme.inj heq)

/-- No byte starts an end marker. -/
theorem scan_ne_endOfFile (c : UInt8) (rest : Bytes) : (scan c rest).1 ≠ .lexeme .endOfFile := by
  unfold scan
  dsimp only
  split; · nofun
  split; · nofun
  split; · nofun
  split
  · unfold stringLiteral
    split <;> nofun
  split
  · unfold dateLiteral
    dsimp only
    split <;> nofun
  split
  · nofun
  split
  · exact lexeme_ne_endOfFile (decimal_ne_endOfFile _)
  split
  next number hnumber => exact lexeme_ne_endOfFile (based?_ne_endOfFile hnumber)
  split
  · unfold word
    dsimp only
    split
    · nofun
    · split
      · nofun
      · split <;> nofun
  split
  · nofun
  · exact lexeme_ne_endOfFile (punctuation_ne_endOfFile _ _)

/-- The last token is an end marker, and no other one is. -/
theorem tokensFrom_eq_append (file : UInt32) (within : Nat) (p : Position) (bytes : Bytes) :
    ∃ ts q, tokensFrom file within p bytes = ts ++ [endMarkerAt file q] ∧
      ∀ t ∈ ts, t.kind ≠ .lexeme .endOfFile := by
  induction bytes generalizing within p with
  | nil => exact ⟨[], p, by cases within <;> rfl, by simp⟩
  | cons c rest ih =>
    cases within with
    | succ k =>
      rw [tokensFrom]
      exact ih k _
    | zero =>
      obtain ⟨ts, q, hts, hkinds⟩ := ih ((scan c rest).2 - 1) (p.step c rest.head?)
      refine ⟨tokenAt file p c rest :: ts, q, by rw [tokensFrom, hts, List.cons_append], ?_⟩
      rintro t (_ | ⟨_, ht⟩)
      · rw [kind_tokenAt]
        exact scan_ne_endOfFile c rest
      · exact hkinds t ht

/-! ## Readers -/

section

open Bytes Ascii

/-- What finds tokens of some kinds in front of a text. -/
abbrev Reader := Bytes → Option (Kind × Nat)

namespace Reader

/-- The reader that finds a token wherever a test says so. -/
def of (test : Bytes → Bool) (find : Bytes → Kind × Nat) : Reader := fun x =>
  if test x then some (find x) else none

/-- A line break. -/
def newline : Reader :=
  of (fun x => isLineBreak (front x)) fun x => (.trivia .newline, Cursor.lineBreakWidth x)

/-- A comment behind an apostrophe. -/
def comment : Reader :=
  of (fun x => front x == apostrophe) fun x => (.trivia .endOfLineComment, lineWidth x)

/-- A comment behind the word Rem. -/
def remComment : Reader := of startsRemComment fun x => (.trivia .remComment, lineWidth x)

/-- A text in quotes. -/
def string : Reader :=
  of (fun x => front x == doubleQuote) fun x => (stringLiteral x.tail).map .lexeme id

/-- A date or a number sign. -/
def date : Reader :=
  of (fun x => front x == byte '#') fun x => (dateLiteral x.tail).map .lexeme id

/-- A line continuation. -/
def continuation : Reader := fun x => (continuationWidth? x).map (.trivia .lineContinuation, ·)

/-- A decimal number. -/
def decimal : Reader :=
  of (fun x => Number.startsDecimal (front x) x.tail) fun x => (Number.decimal x).map .lexeme id

/-- A number of base 16 or 8. -/
def based : Reader := fun x => (Number.based? x).map (Prod.map .lexeme id)

/-- A name or a keyword. -/
def name : Reader :=
  of (fun x => isLetter (front x) || (front x == byte '_' && isWordByte (front x.tail))) word

/-- Blanks. -/
def blanks : Reader :=
  of (fun x => isBlank (front x)) fun x => (.trivia .whitespace, (x.takeWhile isBlank).length)

/-- Punctuation, or a character that starts no token. -/
def sign : Reader := fun x => some ((punctuation (front x) x.tail).map .lexeme id)

/-- All readers, in the order in which they are tried. -/
def all : List Reader :=
  [newline, comment, remComment, string, date, continuation, decimal, based, name, blanks, sign]

end Reader

/-- The first reader finds something if its test succeeds, and otherwise the others are asked. -/
theorem Reader.findSome?_of (test : Bytes → Bool) (find : Bytes → Kind × Nat) (rs : List Reader)
    (x : Bytes) :
    (of test find :: rs).findSome? (· x) = if test x then some (find x) else
      rs.findSome? (· x) := by
  rw [List.findSome?_cons]
  unfold of
  cases test x <;> rfl

/-- A reader that tests finds what it finds where its test succeeds. -/
theorem Reader.of_eq_some_iff {test : Bytes → Bool} {find : Bytes → Kind × Nat} {x : Bytes}
    {found : Kind × Nat} : of test find x = some found ↔ test x = true ∧ find x = found := by
  rw [of, Option.ite_none_right_eq_some, Option.some.injEq]

/-- What a token is, the first reader says that finds one. -/
theorem findSome?_readers (c : UInt8) (rest : Bytes) :
    Reader.all.findSome? (· (c :: rest)) = some (scan c rest) := by
  unfold scan Reader.all Reader.newline Reader.comment Reader.remComment Reader.string Reader.date
    Reader.decimal Reader.name Reader.blanks
  simp only [Reader.findSome?_of, apply_ite some]
  -- the two readers that may find nothing decide which of the others are asked
  rw [List.findSome?_cons, Reader.continuation]
  cases continuationWidth? (c :: rest) with
  | some width => rfl
  | none =>
    simp only [Option.map_none, Reader.findSome?_of, apply_ite some]
    rw [List.findSome?_cons, Reader.based]
    cases Number.based? (c :: rest) with
    | some number => rfl
    | none =>
      simp only [Option.map_none, Reader.findSome?_of, apply_ite some]
      rfl

/-- One of the readers finds the token. -/
theorem exists_reader (c : UInt8) (rest : Bytes) :
    ∃ r ∈ Reader.all, r (c :: rest) = some (scan c rest) :=
  List.exists_of_findSome?_eq_some (findSome?_readers c rest)

/-- The word Rem starts with its first letter. -/
theorem startsRemComment_eq_false {c : UInt8} (h : upper c ≠ byte 'R') (rest : Bytes) :
    startsRemComment (c :: rest) = false := by
  have hword : (ofString "REM").map upper = [byte 'R', byte 'E', byte 'M'] := by decide
  have hlength : (ofString "REM").length = 2 + 1 := by decide
  have hstarts : startsWithIgnoringCase (c :: rest) (ofString "REM") = false := by
    rw [startsWithIgnoringCase, equalIgnoringCase, hword, hlength, List.take_succ_cons,
      List.map_cons, List.cons_beq_cons, beq_eq_false_iff_ne.mpr h, Bool.false_and]
  rw [startsRemComment, hstarts, Bool.false_and, Bool.false_and]

/-- A line continuation starts with an underscore. -/
theorem continuationWidth?_eq_none {c : UInt8} (h : c ≠ byte '_') (rest : Bytes) :
    continuationWidth? (c :: rest) = none := by
  rw [continuationWidth?, if_neg (by simpa using h)]

end

end LosslessBasic.Lexer
