import LosslessBasic.Proofs.Document
import LosslessBasic.Proofs.Grammar.Line
import LosslessBasic.Tree.Path

/-!
# Layouts of trees

A list of statements holds the statements and what separates them (`Tree.IsItem`). What a statement
that holds no lines of its own extends over is one line, without the colon behind it, and the parts
of a statement extend over nothing that could end it. `Tree.LaidOut` says this of every node of a
tree.
-/

namespace LosslessBasic

namespace NodeKind

/-- The kinds of the parts of statements: expressions and their arguments, and the parts of
declarations and of the tests of a clause. -/
@[reducible]
def isFragment : NodeKind → Bool
  | .parameterList | .parameter | .variableDeclaration | .asClause | .typeReference | .arrayBounds
  | .arrayBound | .caseRange | .caseIs | .binaryExpression | .unaryExpression
  | .parenthesizedExpression | .identifierExpression | .numericLiteralExpression
  | .stringLiteralExpression | .dateLiteralExpression | .booleanLiteralExpression
  | .literalExpression | .memberAccessExpression | .dictionaryAccessExpression | .callExpression
  | .addressOfExpression | .newExpression | .typeOfExpression | .argumentList | .argument => true
  | _ => false

/-- The kinds of the statements that hold statements, members or lines of a form. -/
@[reducible]
def hasBody : NodeKind → Bool
  | .ifStatement | .selectCaseStatement | .forStatement | .forEachStatement | .doStatement
  | .whileStatement | .withStatement | .subStatement | .functionStatement | .propertyStatement
  | .typeStatement | .enumStatement | .propertiesBlock => true
  | _ => false

/-- The kinds of statements, and of what is taken for one without being one. -/
@[reducible]
def isStatement : NodeKind → Bool
  | .root | .statementList | .elseIfClause | .elseClause | .caseClause | .caseElseClause
  | .propertyAssignment | .typeMember | .enumMember => false
  | k => !k.isFragment

/-- The kinds of statements of one line. -/
@[reducible]
def isLine (k : NodeKind) : Bool := k.isStatement && !k.hasBody

/-- The kinds of nodes of which only what is below them has a layout. -/
@[reducible]
def isFrame : NodeKind → Bool
  | .statementList => false
  | k => k.hasBody || (!k.isStatement && !k.isFragment)

/-- What has a body is a statement. -/
theorem isStatement_of_hasBody {k : NodeKind} (h : k.hasBody = true) : k.isStatement = true := by
  cases k <;> first | rfl | cases h

/-- What has a body is a frame. -/
theorem isFrame_of_hasBody {k : NodeKind} (h : k.hasBody = true) : k.isFrame = true := by
  cases k <;> first | rfl | cases h

/-- A node on one line is no fragment. -/
theorem isFragment_of_isLine {k : NodeKind} (h : k.isLine = true) : k.isFragment = false := by
  cases k <;> first | rfl | cases h

end NodeKind

/-- What is no boundary of a statement is neither a line break nor a colon. -/
theorem Kind.ne_of_not_isBoundary {k : Kind} (h : ¬ k.IsBoundary) :
    k ≠ .trivia .newline ∧ k ≠ .lexeme .colon := by
  constructor <;> rintro rfl <;> exact h rfl

/-- No token but the last is a line break. -/
def IsOneLine (ts : List Token) : Prop := ∀ t ∈ ts.dropLast, t.kind ≠ .trivia .newline

/-- What separates no statements goes on one line with what follows. -/
theorem IsOneLine.append_left {ts us : List Token} (hts : ∀ t ∈ ts, t.kind ≠ .trivia .newline)
    (hus : IsOneLine us) : IsOneLine (ts ++ us) := by
  intro t ht
  by_cases hnil : us = []
  · rw [hnil, List.append_nil] at ht
    exact hts t (List.dropLast_subset _ ht)
  · rw [List.dropLast_append_of_ne_nil hnil] at ht
    exact (List.mem_append.mp ht).elim (hts t) (hus t)

/-- A single token stands on one line. -/
theorem isOneLine_singleton (t : Token) : IsOneLine [t] := by simp [IsOneLine]

namespace Tree

/-- Whether a tree is the node of a statement. -/
def IsStatement : Tree → Prop
  | leaf _ => False
  | node k _ _ => ∃ l : NodeKind, k = .node l ∧ l.isStatement = true

/-- A node of a statement kind is a statement. -/
theorem isStatement_above {k : NodeKind} (h : k.isStatement = true) (a : Anchor) (ts : List Tree) :
    (above (.node k) a ts).IsStatement := by
  cases ts <;> exact ⟨k, rfl, h⟩

/-- What a list of statements is made of: trivia, colons, and statements, each of which starts with
a token that means something to the grammar. -/
def IsItem : Tree → Prop
  | leaf t => t.kind.isTrivia = true ∨ t.kind = .lexeme .colon
  | n@(node ..) => n.IsStatement ∧ ∃ t ts, n.leaves = t :: ts ∧ t.kind.isTrivia = false

/-- A statement is an item of a list where it starts with a word. -/
theorem IsStatement.isItem {n : Tree} (h : n.IsStatement) {t : Token} {ts : List Token}
    (hleaves : n.leaves = t :: ts) (ht : t.kind.isTrivia = false) : n.IsItem := by
  cases n with
  | leaf t => exact h.elim
  | node k a cs => exact ⟨h, t, ts, hleaves, ht⟩

/-- The layout of what is in a node. -/
structure HasLayout (k : NodeKind) (cs : List Tree) : Prop where
  /-- A list of statements holds statements and what separates them. -/
  items : k = .statementList → ∀ c ∈ cs, c.IsItem
  /-- Part of a statement holds nothing that could end the statement. -/
  inside : k.isFragment = true → ∀ t ∈ leavesAll cs, ¬ t.kind.IsBoundary
  /-- A statement of one line holds at most one line break, at its end. -/
  line : k.isLine = true → IsOneLine (leavesAll cs)
  /-- It holds no colon but that of a label or one that separates nothing. -/
  colon : k.isLine = true → ∀ t ∈ leavesAll cs, t.kind = .lexeme .colon →
    k = .labelStatement ∨ k = .unknown ∧ leavesAll cs = [t]

mutual

/-- Every node of a tree has its layout. -/
def LaidOut : Tree → Prop
  | leaf _ => True
  | node k _ cs => (∀ l, k = .node l → HasLayout l cs) ∧ LaidOutAll cs

/-- Every node of some trees has its layout. -/
def LaidOutAll : List Tree → Prop
  | [] => True
  | t :: ts => t.LaidOut ∧ LaidOutAll ts

end

/-- Trees are laid out if each of them is. -/
theorem laidOutAll_iff {ts : List Tree} : LaidOutAll ts ↔ ∀ t ∈ ts, t.LaidOut := by
  induction ts with
  | nil => simp [LaidOutAll]
  | cons t ts ih => rw [LaidOutAll, ih, List.forall_mem_cons]

/-- A token is laid out. -/
theorem laidOut_of_isToken {t : Tree} (h : t.isToken = true) : t.LaidOut := by
  cases t with
  | leaf t => trivial
  | node k a cs => cases h

/-- Two rows of trees are laid out if each of them is. -/
theorem laidOutAll_append {ts us : List Tree} :
    LaidOutAll (ts ++ us) ↔ LaidOutAll ts ∧ LaidOutAll us := by
  simp only [laidOutAll_iff, List.forall_mem_append]

/-- A node that has its layout, around trees that are laid out, is laid out. -/
theorem laidOut_above {k : NodeKind} {a : Anchor} {ts : List Tree} (hlayout : HasLayout k ts)
    (hts : LaidOutAll ts) : (above (.node k) a ts).LaidOut := by
  have hlayout' : ∀ l, Kind.node k = .node l → HasLayout l ts := by
    rintro l hl
    cases hl
    exact hlayout
  cases ts <;> exact ⟨hlayout', hts⟩

/-- Around trees without anything that could end a statement, any node but a list has its layout. -/
theorem HasLayout.of_inside {k : NodeKind} {ts : List Tree}
    (hk : k ≠ .statementList) (hts : ∀ t ∈ leavesAll ts, ¬ t.kind.IsBoundary) :
    HasLayout k ts where
  items h := absurd h hk
  inside _ := hts
  line _ t ht hnewline := hts t (List.dropLast_subset _ ht) (by rw [hnewline]; rfl)
  colon _ t ht hcolon := absurd (show t.kind.IsBoundary by rw [hcolon]; rfl) (hts t ht)

/-- Nothing is asked of what a frame holds. -/
theorem HasLayout.of_isFrame {k : NodeKind} (h : k.isFrame = true) (ts : List Tree) :
    HasLayout k ts := by
  have hfragment : k.isFragment = false := by revert h; cases k <;> decide
  have hline : k.isLine = false := by revert h; cases k <;> decide
  have hlist : k ≠ .statementList := by revert h; cases k <;> decide
  exact ⟨fun hk => absurd hk hlist, by simp [hfragment], by simp [hline], by simp [hline]⟩

/-- What is below a tree with a layout has one, too. -/
theorem LaidOut.at? {path : Path} {t n : Tree} (h : t.LaidOut) (hn : t.at? path = some n) :
    n.LaidOut := by
  induction path generalizing t with
  | nil => exact Option.some.inj hn ▸ h
  | cons i path ih =>
    unfold Tree.at? at hn
    split at hn
    next => cases hn
    next c hc =>
      have hmem : c ∈ t.children := List.mem_of_getElem? hc
      cases t with
      | leaf t => cases hmem
      | node k a cs => exact ih (laidOutAll_iff.mp h.2 c hmem) hn

end Tree

end LosslessBasic
