import LosslessBasic.Proofs.Lexer.TokensRespelled
import LosslessBasic.Proofs.Tree.Ending

/-!
# Well-formed programs

A program is a procedure whose body is made of simple statements and of blocks, whose bodies are
made in the same way, to any depth. Each line is indented by any blanks and ends with LF or CR LF.
Bodies may be empty, an `If` may have any number of `ElseIf`s, and the clauses of a `Select Case`
may come in any number and order. `Program.text` is the source of a program, and `Lines.nesting` is
how the blocks of a body are nested.

A line is known by the kinds of its tokens, wherever it stands (`Lexer.exists_tokensFrom_line`).
-/

namespace LosslessBasic

namespace Program

open Bytes

/-! ## Lines -/

/-- The line breaks that a line may end with. -/
inductive LineEnd where
  | lineFeed
  | carriageReturnLineFeed
  deriving DecidableEq

/-- The bytes of a line break. -/
def LineEnd.text : LineEnd → Bytes
  | lineFeed => [Bytes.lineFeed]
  | carriageReturnLineFeed => [carriageReturn, Bytes.lineFeed]

/-- What stands around the words of a line: the blanks in front of them and the line break behind
them. -/
structure Margin where
  /-- What the line is indented by. -/
  indent : Bytes
  /-- It is indented by blanks. -/
  blank : ∀ c ∈ indent, Ascii.isBlank c = true
  /-- How the line ends. -/
  ending : LineEnd

/-- The line with the given words. -/
def Margin.line (m : Margin) (words : String) : Bytes :=
  m.indent ++ (ofString words ++ m.ending.text)

/-- The statements that take one line wherever they stand. -/
inductive Simple where
  | assignment | accumulation | call | print | declaration | replacement | creation | message | pair
  deriving DecidableEq

/-- The words of a simple statement. -/
def Simple.words : Simple → String
  | assignment => "x = 1"
  | accumulation => "total = total + i * 2"
  | call => "Call Foo(1, 2)"
  | print => "Debug.Print \"a\"; b"
  | declaration => "Dim v As Long"
  | replacement => "s = Mid$(s, 2) & Chr$(65) ' tail"
  | creation => "Set obj = New Collection"
  | message => "MsgBox \"done\", vbOKOnly"
  | pair => "y = 1: z = 2"

/-- The blocks with one body. -/
inductive Form where
  | for_ | doWhile | do_ | while_ | with_
  deriving DecidableEq

namespace Form

/-- The words in front of the body. -/
def opening : Form → String
  | for_ => "For i = 1 To 10 Step 2"
  | doWhile => "Do While n < 5"
  | do_ => "Do"
  | while_ => "While n > 0"
  | with_ => "With obj"

/-- The words behind the body. -/
def closing : Form → String
  | for_ => "Next i"
  | doWhile | do_ => "Loop Until n > 9"
  | while_ => "Wend"
  | with_ => "End With"

/-- The node around the block. -/
def node : Form → NodeKind
  | for_ => .forStatement
  | doWhile | do_ => .doStatement
  | while_ => .whileStatement
  | with_ => .withStatement

end Form

/-- The tests that open the clauses of a `Select Case`. -/
inductive Test where
  | values | comparison | else_
  deriving DecidableEq

/-- The words of the line that opens a clause. -/
def Test.words : Test → String
  | values => "Case 1, 3 To 5"
  | comparison => "Case Is > 10"
  | else_ => "Case Else"

/-- The node around a clause. -/
def Test.node : Test → NodeKind
  | values | comparison => .caseClause
  | else_ => .caseElseClause

/-! ## Bodies -/

mutual

/-- The lines of a body, which is the body of a `With` or stands in one where the parameter says so:
there an access may start with its dot. -/
inductive Lines : (inWith : Bool) → Type
  | nil {w : Bool} : Lines w
  | simple {w : Bool} (margin : Margin) (statement : Simple) (rest : Lines w) : Lines w
  | member (margin : Margin) (rest : Lines true) : Lines true
  | block {w : Bool} (head : Margin) (form : Form) (body : Lines (w || form == .with_))
    (foot : Margin)
    (rest : Lines w) : Lines w
  | if_ {w : Bool} (head : Margin) (body : Lines w) (arms : Arms w) (foot : Margin)
    (rest : Lines w) :
      Lines w
  | select {w : Bool} (head : Margin) (clauses : Clauses w) (foot : Margin)
    (rest : Lines w) : Lines w

/-- The further arms of an `If`, of which the `Else` is the last. -/
inductive Arms : (inWith : Bool) → Type
  | nil {w : Bool} : Arms w
  | elseIf {w : Bool} (head : Margin) (body : Lines w) (rest : Arms w) : Arms w
  | else_ {w : Bool} (head : Margin) (body : Lines w) : Arms w

/-- The clauses of a `Select Case`. -/
inductive Clauses : (inWith : Bool) → Type
  | nil {w : Bool} : Clauses w
  | clause {w : Bool} (head : Margin) (test : Test) (body : Lines w) (rest : Clauses w) : Clauses w

end

mutual

/-- The source of the lines of a body. -/
def Lines.text {w : Bool} : Lines w → Bytes
  | .nil => []
  | .simple margin statement rest => margin.line statement.words ++ rest.text
  | .member margin rest => margin.line ".Value = 1" ++ rest.text
  | .block head form body foot rest =>
    head.line form.opening ++ (body.text ++ (foot.line form.closing ++ rest.text))
  | .if_ head body arms foot rest =>
    head.line "If a > 1 Then" ++ (body.text ++ (arms.text ++ (foot.line "End If" ++ rest.text)))
  | .select head clauses foot rest =>
    head.line "Select Case n" ++ (clauses.text ++ (foot.line "End Select" ++ rest.text))

/-- The source of the further arms of an `If`. -/
def Arms.text {w : Bool} : Arms w → Bytes
  | .nil => []
  | .elseIf head body rest => head.line "ElseIf a = 0 Then" ++ (body.text ++ rest.text)
  | .else_ head body => head.line "Else" ++ body.text

/-- The source of the clauses of a `Select Case`. -/
def Clauses.text {w : Bool} : Clauses w → Bytes
  | .nil => []
  | .clause head test body rest => head.line test.words ++ (body.text ++ rest.text)

end

mutual

/-- How the blocks of a body are nested. -/
def Lines.nesting {w : Bool} : Lines w → List Nesting
  | .nil => []
  | .simple _ _ rest => rest.nesting
  | .member _ rest => rest.nesting
  | .block _ form body _ rest => .of form.node body.nesting :: rest.nesting
  | .if_ _ body arms _ rest => .of .ifStatement (body.nesting ++ arms.nesting) :: rest.nesting
  | .select _ clauses _ rest => .of .selectCaseStatement clauses.nesting :: rest.nesting

/-- How the further arms of an `If` and the blocks in them are nested. -/
def Arms.nesting {w : Bool} : Arms w → List Nesting
  | .nil => []
  | .elseIf _ body rest => .of .elseIfClause body.nesting :: rest.nesting
  | .else_ _ body => [.of .elseClause body.nesting]

/-- How the clauses of a `Select Case` and the blocks in them are nested. -/
def Clauses.nesting {w : Bool} : Clauses w → List Nesting
  | .nil => []
  | .clause _ test body rest => .of test.node body.nesting :: rest.nesting

end

end Program

/-- A procedure with its body. -/
structure Program where
  /-- The margin of its header. -/
  head : Program.Margin
  /-- Its body. -/
  body : Program.Lines false
  /-- The margin of its closer. -/
  foot : Program.Margin

/-- The source of a program. -/
def Program.text (p : Program) : Bytes :=
  p.head.line "Sub Main()" ++ (p.body.text ++ p.foot.line "End Sub")

/-- A `With` in an `Else`, with line breaks of both kinds. -/
example :
    let m : Program.Margin := { indent := [], blank := by simp, ending := .lineFeed }
    let n : Program.Margin :=
      { indent := [Bytes.tab], blank := by simp [Ascii.isBlank], ending := .carriageReturnLineFeed }
    let inner : Program.Lines false := .block m .with_ (.member n .nil) m .nil
    let body : Program.Lines false :=
      .if_ n (.simple m .pair .nil) (.else_ m inner) m .nil
    Program.text { head := m, body := body, foot := m } = Bytes.ofString
      ("Sub Main()\n\tIf a > 1 Then\r\ny = 1: z = 2\nElse\n" ++
        "With obj\n\t.Value = 1\r\nEnd With\nEnd If\nEnd Sub\n") := by
  decide +kernel

/-! ## Tokens -/

namespace Lexer

open Bytes

/-- The kinds of tokens do not depend on where the text stands. -/
theorem kinds_tokensFrom (file file' : UInt32) (within : Nat) (p q : Position) (bytes : Bytes) :
    (tokensFrom file within p bytes).map Token.kind =
      (tokensFrom file' within q bytes).map Token.kind := by
  induction bytes generalizing within p q with
  | nil => cases within <;> rfl
  | cons c rest ih =>
    cases within with
    | succ k => exact ih k _ _
    | zero =>
      rw [tokensFrom, tokensFrom, List.map_cons, List.map_cons, kind_tokenAt, kind_tokenAt,
        ih _ _ (q.step c rest.head?)]

/-- Whether words are read as tokens of the given kinds, where a line break follows them. -/
def Spells (words : String) (kinds : List Kind) : Prop :=
  ∀ ending : Program.LineEnd,
    Ascii.isBlank (front (ofString words ++ ending.text)) = false ∧
      (tokens (ofString words ++ ending.text) 0).dropLast.map Token.kind =
        kinds ++ [.trivia .newline]

instance (words : String) (kinds : List Kind) : Decidable (Spells words kinds) :=
  decidable_of_iff
    (∀ ending ∈ [Program.LineEnd.lineFeed, .carriageReturnLineFeed],
      Ascii.isBlank (front (ofString words ++ ending.text)) = false ∧
        (tokens (ofString words ++ ending.text) 0).dropLast.map Token.kind =
          kinds ++ [.trivia .newline])
    ⟨fun h ending => h ending (by cases ending <;> simp), fun h ending _ => h ending⟩

variable {words : String} {kinds : List Kind}

/-- The words of a line have their kinds in front of any text. -/
theorem exists_tokensFrom_words (h : Spells words kinds) (ending : Program.LineEnd) (file : UInt32)
    (p : Position) (more : Bytes) :
    ∃ line q, tokensFrom file 0 p (ofString words ++ ending.text ++ more) =
      line ++ tokensFrom file 0 q more ∧ line.map Token.kind = kinds ++ [.trivia .newline] := by
  have hkinds : (tokensFrom file 0 p (ofString words ++ ending.text)).dropLast.map Token.kind =
      kinds ++ [.trivia .newline] := by
    rw [← (h ending).2, tokens_eq, List.map_dropLast, List.map_dropLast,
      kinds_tokensFrom file 0 0 p {}]
  have hends : EndsLine (ofString words ++ ending.text) := by
    intro c hc
    cases ending <;> simpa [Program.LineEnd.text, eq_comm] using hc
  refine ⟨_, _, tokensFrom_append file hends p ?_ more, hkinds⟩
  intro t ht
  have hlast := congrArg List.getLast? hkinds
  rw [List.getLast?_map, ht, List.getLast?_concat] at hlast
  exact Option.some.inj hlast

/-- A line has the tokens of its words behind blanks, wherever it stands. -/
theorem exists_tokensFrom_line (h : Spells words kinds) (m : Program.Margin) (file : UInt32)
    (p : Position) (more : Bytes) :
    ∃ blanks line q, tokensFrom file 0 p (m.line words ++ more) =
        blanks ++ (line ++ tokensFrom file 0 q more) ∧
      (∀ t ∈ blanks, t.kind = .trivia .whitespace) ∧
      line.map Token.kind = kinds ++ [.trivia .newline] := by
  obtain ⟨indent, hblank, ending⟩ := m
  unfold Program.Margin.line
  dsimp only
  -- blanks at the margin are one token, and no token if there are none
  cases indent with
  | nil =>
    obtain ⟨line, q, htokens, hkinds⟩ := exists_tokensFrom_words h ending file p more
    exact ⟨[], line, q, htokens, by simp, hkinds⟩
  | cons c indent =>
    have hrun : ((c :: (indent ++ (ofString words ++ ending.text) ++ more)).takeWhile
        Ascii.isBlank).length = indent.length + 1 := by
      obtain ⟨d, text, htext⟩ : ∃ d text, ofString words ++ ending.text = d :: text :=
        List.exists_cons_of_ne_nil (by cases ending <;> simp [Program.LineEnd.text])
      have hd : Ascii.isBlank d = false := by
        have hfront := (h ending).1
        rwa [htext] at hfront
      rw [htext, ← List.cons_append, ← List.cons_append, List.append_assoc,
        List.takeWhile_append_of_pos hblank, List.cons_append, @List.cons_append _ d text,
        List.takeWhile_cons_of_neg (by simp [hd]), List.append_nil, List.length_cons]
    have hscan := scan_of_isBlank (hblank c (List.mem_cons_self ..))
      (indent ++ (ofString words ++ ending.text) ++ more)
    rw [hrun] at hscan
    rw [List.cons_append, List.cons_append, tokensFrom_cons, hscan]
    dsimp only
    rw [Nat.add_sub_cancel, List.append_assoc, List.drop_left]
    obtain ⟨line, q, htokens, hkinds⟩ := exists_tokensFrom_words h ending file
      ((p.step c (indent ++ (ofString words ++ ending.text ++ more)).head?).after indent.length
        (indent ++ (ofString words ++ ending.text ++ more))) more
    refine ⟨[tokenAt file p c (indent ++ (ofString words ++ ending.text ++ more))], line, q, ?_, ?_,
      hkinds⟩
    · rw [← htokens]
      rfl
    · intro t ht
      obtain rfl := List.mem_singleton.mp ht
      rw [kind_tokenAt, ← List.append_assoc, hscan]

end Lexer

end LosslessBasic
