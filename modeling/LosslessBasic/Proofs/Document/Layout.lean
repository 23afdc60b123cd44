import LosslessBasic.Proofs.Document
import LosslessBasic.Proofs.Grammar.BodyLayout

/-!
# The layout of statements

Whatever is wrong with a program, the lists in its tree hold nothing but statements and what
separates them, a statement that holds no other lines keeps to its own line, and no part of a
statement extends over what could end it (`Document.statement_layout`).

## Main definitions

* `Tree.HasStatementLayout`: what this says of the nodes of a tree;
* `NodeKind.isStatement`, `NodeKind.hasBody` and `NodeKind.isFragment`: which nodes it says it of.
-/

namespace LosslessBasic

theorem Kind.isBoundary_of_isComment {k : Kind} (h : k.isComment = true) : k.IsBoundary := by
  cases k with
  | trivia t => cases t <;> first | rfl | cases h
  | _ => cases h

namespace Tree

/-- How statements lie in a tree. A line of the block of a form is no statement: a
`PropertyAssignment` may start with a colon. -/
structure HasStatementLayout (root : Tree) : Prop where
  /-- At the top and in every list of statements there are trivia, colons, and statements, each of
  which starts with a token that is no trivia. -/
  items {path : Path} {n : Tree} : root.at? path = some n → path = [] ∨ n.kind =
    .node .statementList →
    ∀ c ∈ n.children, c.isTrivia = true ∨ c.isToken = true ∧ c.kind = .lexeme .colon ∨
      c.IsStatement ∧ ∃ t ts, c.leaves = t :: ts ∧ t.kind.isTrivia = false
  /-- An expression, an argument, a parameter, part of a declaration or the test of a clause holds
  no line break, no comment and no colon. -/
  parts {path : Path} {n : Tree} {k : NodeKind} : root.at? path = some n → n.kind = .node k →
    k.isFragment = true → ∀ t ∈ n.leaves,
      t.kind ≠ .trivia .newline ∧ t.kind.isComment = false ∧ t.kind ≠ .lexeme .colon
  /-- Of the tokens of a statement without a body only the last can be a line break. -/
  lines {path : Path} {n : Tree} {k : NodeKind} : root.at? path = some n → n.kind = .node k →
    k.isStatement = true → k.hasBody = false → ∀ t ∈ n.leaves.dropLast, t.kind ≠ .trivia .newline
  /-- A colon stands in no statement without a body but a label, and in one of unknown meaning only
  where it is all that stands in it. -/
  colons {path : Path} {n : Tree} {k : NodeKind} : root.at? path = some n → n.kind = .node k →
    k.isStatement = true → k.hasBody = false → ∀ t ∈ n.leaves, t.kind = .lexeme .colon →
      k = .labelStatement ∨ k = .unknown ∧ n.leaves = [t]

theorem IsItem.cases {n : Tree} (h : n.IsItem) :
    n.isTrivia = true ∨ n.isToken = true ∧ n.kind = .lexeme .colon ∨
      n.IsStatement ∧ ∃ t ts, n.leaves = t :: ts ∧ t.kind.isTrivia = false := by
  cases n with
  | leaf t => exact h.elim .inl fun hcolon => .inr (.inl ⟨rfl, hcolon⟩)
  | node k a cs => exact .inr (.inr h)

/-- What a tree is in which every node has its layout and the top is a list. -/
theorem LaidOut.hasStatementLayout {root : Tree} (h : root.LaidOut)
    (hroot : ∀ c ∈ root.children, c.IsItem) : root.HasStatementLayout where
  -- what is above a path is a leaf or a node that is laid out; leaves hold no further tokens
  items {path n} hn htop c hc := by
    have hlaid := h.at? hn
    refine IsItem.cases ?_
    rcases htop with rfl | hlist
    · exact hroot c (Option.some.inj hn ▸ hc)
    · cases n with
      | leaf t => cases hc
      | node k a cs => exact (hlaid.1 _ hlist).items rfl c hc
  parts {path n k} hn hkind hfragment t ht := by
    have hlaid := h.at? hn
    have hinside : ¬ t.kind.IsBoundary := by
      cases n with
      | leaf u =>
        obtain rfl : t = u := by simpa [leaves] using ht
        rw [show t.kind = .node k from hkind]
        exact Bool.false_ne_true
      | node l a cs => exact (hlaid.1 _ hkind).inside hfragment t ht
    refine ⟨(Kind.ne_of_not_isBoundary hinside).1, ?_, (Kind.ne_of_not_isBoundary hinside).2⟩
    rw [← Bool.not_eq_true]
    exact fun hcomment => hinside (Kind.isBoundary_of_isComment hcomment)
  lines {path n k} hn hkind hstatement hbody := by
    have hlaid := h.at? hn
    cases n with
    | leaf t => simp [leaves]
    | node l a cs => exact (hlaid.1 _ hkind).line (by rw [NodeKind.isLine, hstatement, hbody]; rfl)
  colons {path n k} hn hkind hstatement hbody t ht hcolon := by
    have hlaid := h.at? hn
    cases n with
    | leaf u =>
      obtain rfl : t = u := by simpa [leaves] using ht
      cases hcolon.symm.trans hkind
    | node l a cs =>
      exact (hlaid.1 _ hkind).colon (by rw [NodeKind.isLine, hstatement, hbody]; rfl) t ht hcolon

end Tree

namespace Document

open Grammar

/-- Whatever is wrong with a source, its statements lie in its tree as statements do. -/
theorem statement_layout (origin source : Bytes) (file : UInt32)
    (hvalid : Utf8.firstInvalid? source = none) :
    ∃ d, (read origin source file).document? = some d ∧ d.root.kind = .node .root ∧
      d.root.HasStatementLayout := by
  rw [read_of_valid hvalid, document?_readText]
  refine ⟨_, rfl, Tree.kind_above _ _ _, ?_⟩
  have hitems : ∀ c ∈ (State.final (.ofTokens (Lexer.tokens source file))).builder.pending.toList,
      c.IsLaidItem := fun _ hc => isLaidItem_of_mem_final hc
  refine Tree.LaidOut.hasStatementLayout (Tree.laidOut_above (.of_isFrame rfl _) ?_) ?_
  · exact Tree.laidOutAll_iff.mpr fun c hc => (hitems c hc).laidOut
  · rw [Tree.children_above]
    exact fun c hc => (hitems c hc).isItem

/-- A source with a label, stray colons and closers, an `If` on its line and a declaration that is
cut short. -/
theorem statement_layout_malformed :
    ∃ d, (read [] (Bytes.ofString "If a Then b: : Else c 'd\nFoo: Dim x As\n): Next\nType T\n:")
      1).document? =
        some d ∧ d.root.kind = .node .root ∧ d.root.HasStatementLayout :=
  statement_layout [] _ 1 (by decide +kernel)

end Document

end LosslessBasic
