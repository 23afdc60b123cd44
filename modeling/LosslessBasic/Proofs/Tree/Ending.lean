import LosslessBasic.Grammar.Designer
import LosslessBasic.Problem
import LosslessBasic.Proofs.Tree.Access
import LosslessBasic.Proofs.Tree.Builder
import LosslessBasic.Tree.Query
import Mathlib.Data.List.Forall2
import Mathlib.Data.List.TakeWhile

/-!
# The blocks of a tree

A node around a block tells which block it is (`Tree.block?`) and whether it has a closer of its
own: the words of the closer are then among its direct children, behind its header
(`Tree.HasCloser`). `Tree.blocks` lists the blocks of a tree in the order in which they end, each
with the token behind it.

An `Account` says of a block how it ended. When its closer is missing, it stands for one failure, at
the token behind the block.

`Tree.nesting` is what is left of a tree when only the nodes around blocks of statements and around
their clauses are kept, each with what is nested in it.
-/

namespace LosslessBasic

namespace Token

/-- Whether a token is a keyword. -/
def isWord (word : Keyword) (t : Token) : Bool := t.kind == .keyword word

end Token

/-- Whether a token of a kind is the first word of a closer, but for that of a group of
properties. -/
@[reducible]
def Kind.closes : Kind → Bool
  | .keyword .end_ | .keyword .next | .keyword .loop | .keyword .wend => true
  | _ => false

namespace Block

/-- The words of the closer of a block, each as a test of a token. -/
def closerWords : Block → List (Token → Bool)
  | if_ => [Token.isWord .end_, Token.isWord .if_]
  | select => [Token.isWord .end_, Token.isWord .select]
  | for_ => [Token.isWord .next]
  | do_ => [Token.isWord .loop]
  | while_ => [Token.isWord .wend]
  | with_ => [Token.isWord .end_, Token.isWord .with_]
  | sub => [Token.isWord .end_, Token.isWord .sub]
  | function => [Token.isWord .end_, Token.isWord .function]
  | property => [Token.isWord .end_, Token.isWord .property]
  | type => [Token.isWord .end_, Token.isWord .type]
  | enum => [Token.isWord .end_, Token.isWord .enum]
  | designer => [Token.isWord .end_]
  | designerProperty => [fun t => Grammar.isNamed t "EndProperty"]

end Block

namespace Tree

/-- The tokens among some trees that mean something to the grammar. -/
def words : List Tree → List Token
  | [] => []
  | leaf t :: ts => if t.kind.isTrivia then words ts else t :: words ts
  | node .. :: ts => words ts

/-- Whether a child ends the first words of a block: a node, or a token that ends a statement. -/
def endsHeader : Tree → Bool
  | leaf t => Grammar.endsStatement t.kind 0
  | node .. => true

/-- Some children without the words in front. -/
def behindHeader (children : List Tree) : List Tree := children.dropWhile fun c => !c.endsHeader

/-- The words of the closer of a block are among the direct children of a node, next to each
other. -/
def HasCloser (n : Tree) (block : Block) : Prop :=
  ∃ closer, closer <:+: words (behindHeader n.children) ∧
    List.Forall₂ (fun test t => test t = true) block.closerWords closer

/-- A list of statements follows `Then` on its line. -/
def IsOnOneLine (n : Tree) : Prop :=
  ∃ front t list rest, n.children = front ++ leaf t :: list :: rest ∧
    t.kind = .keyword .then_ ∧ list.isStatementList = true

/-- Whether the first token of a node starts a group of properties. -/
def startsGroup (n : Tree) : Bool :=
  match n.children with
  | leaf t :: _ => Grammar.isNamed t "BeginProperty"
  | _ => false

/-- The block that a node is around. -/
def block? (n : Tree) : Option Block :=
  match n.kind with
  | .node .ifStatement => some .if_
  | .node .selectCaseStatement => some .select
  | .node .forStatement | .node .forEachStatement => some .for_
  | .node .doStatement => some .do_
  | .node .whileStatement => some .while_
  | .node .withStatement => some .with_
  | .node .subStatement => some .sub
  | .node .functionStatement => some .function
  | .node .propertyStatement => some .property
  | .node .typeStatement => some .type
  | .node .enumStatement => some .enum
  | .node .propertiesBlock => some (if n.startsGroup then .designerProperty else .designer)
  | _ => none

mutual

/-- The blocks at and below a tree, in the order in which they end, each with the token behind it;
the token behind the tree is `next`. -/
def blocks (next : Token) : Tree → List (Tree × Block × Token)
  | leaf _ => []
  | node k a cs =>
    blocksAll next cs ++ ((node k a cs).block?.map fun block => (node k a cs, block, next)).toList

/-- The blocks at and below some trees. -/
def blocksAll (next : Token) : List Tree → List (Tree × Block × Token)
  | [] => []
  | t :: ts => t.blocks ((leavesAll ts).headD next) ++ blocksAll next ts

end

/-- The number of commas among some trees. -/
def commas (ts : List Tree) : Nat :=
  ts.countP fun t => t.isToken && t.kind == .lexeme .comma

mutual

/-- The number of variables behind the first one that the `Next` clauses of a tree list: each stands
behind a comma that is a direct child of a loop. -/
def furtherVariables : Tree → Nat
  | leaf _ => 0
  | node k a cs =>
    furtherVariablesAll cs + if (node k a cs).block? = some .for_ then commas cs else 0

/-- The same for some trees. -/
def furtherVariablesAll : List Tree → Nat
  | [] => 0
  | t :: ts => t.furtherVariables + furtherVariablesAll ts

end

/-! ### Lists of trees -/

/-- The blocks of two rows of trees are those of the first, in front of the second, and then of the
second. -/
theorem blocksAll_append (next : Token) (ts us : List Tree) :
    blocksAll next (ts ++ us) =
      blocksAll ((leavesAll us).headD next) ts ++ blocksAll next us := by
  induction ts with
  | nil => rfl
  | cons t ts ih =>
    have hhead : (leavesAll (ts ++ us)).headD next =
        (leavesAll ts).headD ((leavesAll us).headD next) := by
      rw [leavesAll_append]
      cases leavesAll ts <;> rfl
    rw [List.cons_append, blocksAll, blocksAll, ih, hhead, List.append_assoc]

/-- The blocks of a single tree are its own. -/
theorem blocksAll_singleton (next : Token) (t : Tree) : blocksAll next [t] = t.blocks next := by
  rw [blocksAll, blocksAll, List.append_nil]
  rfl

/-- The further variables of two rows of trees are counted together. -/
theorem furtherVariablesAll_append (ts us : List Tree) :
    furtherVariablesAll (ts ++ us) = furtherVariablesAll ts + furtherVariablesAll us := by
  induction ts with
  | nil => simp [furtherVariablesAll]
  | cons t ts ih =>
    rw [List.cons_append, furtherVariablesAll, furtherVariablesAll, ih, Nat.add_assoc]

/-- The words of two rows of trees are those of the first and then of the second. -/
theorem words_append (ts us : List Tree) : words (ts ++ us) = words ts ++ words us := by
  induction ts with
  | nil => rfl
  | cons t ts ih =>
    cases t with
    | leaf t =>
      rw [List.cons_append, words, words, ih]
      split <;> rfl
    | node k a cs => rw [List.cons_append, words, words, ih]

/-- The commas of two rows of trees are counted together. -/
theorem commas_append (ts us : List Tree) : commas (ts ++ us) = commas ts + commas us :=
  List.countP_append

/-- Behind a header that has ended stands all that follows. -/
theorem behindHeader_append_of_endsHeader {ts : List Tree} (h : ∃ c ∈ ts, c.endsHeader = true)
    (us : List Tree) : behindHeader (ts ++ us) = behindHeader ts ++ us := by
  have hne : ts.dropWhile (fun c => !c.endsHeader) ≠ [] := by
    obtain ⟨c, hc, hends⟩ := h
    intro hnil
    have hall := List.dropWhile_eq_nil_iff.mp hnil c hc
    simp [hends] at hall
  unfold behindHeader
  rw [List.dropWhile_append, if_neg (by simpa using hne)]

/-- Where no header has ended, what is behind it starts further on. -/
theorem behindHeader_append_of_not_endsHeader {ts : List Tree}
    (h : ∀ c ∈ ts, c.endsHeader = false) (us : List Tree) :
    behindHeader (ts ++ us) = behindHeader us :=
  List.dropWhile_append_of_pos fun c hc => by simp [h c hc]

/-- What is behind the header of two rows of trees is so in the first, or stands in the second. -/
theorem mem_behindHeader_append {n : Tree} {ts us : List Tree} (h : n ∈ behindHeader (ts ++ us)) :
    n ∈ behindHeader ts ∨ n ∈ us := by
  unfold behindHeader at h ⊢
  rw [List.dropWhile_append] at h
  split at h
  · exact .inr ((List.dropWhile_sublist _).subset h)
  · exact List.mem_append.mp h

/-- What is behind the header of some trees is among them. -/
theorem behindHeader_subset (ts : List Tree) : behindHeader ts ⊆ ts :=
  (List.dropWhile_sublist _).subset

/-! ### Closers -/

/-- Whether a child is the first word of the closer of a block. -/
def startsCloser (block : Block) : Tree → Bool
  | leaf t => block.closerWords.head?.any fun test => test t
  | node .. => false

/-- A child that starts no closer, but possibly that of a group of properties. -/
abbrev Inert : Tree → Prop
  | leaf t => t.kind.closes = false
  | node .. => True

/-- What starts no closer starts none of a block other than a group of properties. -/
theorem startsCloser_of_inert {block : Block} {n : Tree} (hblock : block ≠ .designerProperty)
    (h : n.Inert) : n.startsCloser block = false := by
  cases n with
  | leaf t =>
    have hword {word : Keyword} (hclose : (Kind.keyword word).closes = true) :
        t.isWord word = false := by
      refine beq_eq_false_iff_ne.mpr fun hkind => ?_
      rw [Inert, hkind, hclose] at h
      cases h
    cases block <;> first | exact hword rfl | exact absurd rfl hblock
  | node k a cs => rfl

/-- A token that is a word stands among the trees. -/
theorem leaf_mem_of_mem_words {t : Token} {ts : List Tree} (h : t ∈ words ts) : leaf t ∈ ts := by
  induction ts with
  | nil => cases h
  | cons u ts ih =>
    cases u with
    | leaf u =>
      rw [words] at h
      split at h
      · exact List.mem_cons_of_mem _ (ih h)
      · rcases List.mem_cons.mp h with rfl | h
        · exact List.mem_cons_self
        · exact List.mem_cons_of_mem _ (ih h)
    | node k a cs => exact List.mem_cons_of_mem _ (ih h)

/-- Without the first word of a closer behind its header a node has no closer. -/
theorem not_hasCloser {n : Tree} {block : Block}
    (h : ∀ c ∈ behindHeader n.children, c.startsCloser block = false) : ¬ n.HasCloser block := by
  rintro ⟨closer, hpart, hwords⟩
  obtain ⟨test, tests, htests⟩ : ∃ test tests, block.closerWords = test :: tests := by
    cases block <;> exact ⟨_, _, rfl⟩
  rw [htests] at hwords
  obtain ⟨t, more, htest, -, rfl⟩ := List.forall₂_cons_left_iff.mp hwords
  have hmem := leaf_mem_of_mem_words (hpart.subset List.mem_cons_self)
  have hstarts := h _ hmem
  simp [startsCloser, htests, htest] at hstarts

/-- The words behind the body of a block close it. -/
theorem hasCloser_of_words {n : Tree} {block : Block} {front rest : List Tree}
    {closer more : List Token}
    (hchildren : n.children = front ++ rest) (hfront : ∃ c ∈ front, c.endsHeader = true)
    (hrest : words rest = closer ++ more)
    (hcloser : List.Forall₂ (fun test t => test t = true) block.closerWords closer) :
    n.HasCloser block := by
  refine ⟨closer, ⟨words (behindHeader front), more, ?_⟩, hcloser⟩
  rw [hchildren, behindHeader_append_of_endsHeader hfront, words_append, hrest, List.append_assoc]

/-! ### Nodes -/

theorem children_above (k : Kind) (a : Anchor) (ts : List Tree) : (above k a ts).children = ts := by
  cases ts <;> rfl

/-- The blocks of a node are those of its children, and then its own. -/
theorem blocks_above (next : Token) (k : Kind) (a : Anchor) (ts : List Tree) :
    (above k a ts).blocks next = blocksAll next ts ++
      ((above k a ts).block?.map fun block => (above k a ts, block, next)).toList := by
  cases ts <;> rw [above, blocks]

/-- The further variables of a node are those of its children, and those of its own `Next`. -/
theorem furtherVariables_above (k : Kind) (a : Anchor) (ts : List Tree) :
    (above k a ts).furtherVariables = furtherVariablesAll ts +
      if (above k a ts).block? = some .for_ then commas ts else 0 := by
  cases ts <;> rw [above, furtherVariables]

end Tree

/-! ## Accounts -/

/-- How a block ends. -/
inductive Ending where
  /-- With its own closer. -/
  | closed
  /-- With a `Next` further in, which closes this loop, too. -/
  | byNext
  /-- Without the closer that it asks for. -/
  | missing
  /-- With its line: it asks for no closer. -/
  | onOneLine
  deriving DecidableEq, Repr

/-- A block of a tree and how it ends. -/
structure Account where
  /-- The node around the block. -/
  node : Tree
  /-- The block. -/
  block : Block
  /-- The token behind it. -/
  next : Token
  /-- How it ends. -/
  ending : Ending

namespace Account

/-- Where the block stands. -/
def place (a : Account) : Tree × Block × Token := (a.node, a.block, a.next)

/-- What the node shows of the ending. -/
def IsSound (a : Account) : Prop :=
  match a.ending with
  | .closed => a.node.HasCloser a.block
  | .byNext => a.block = .for_ ∧ ¬ a.node.HasCloser a.block
  | .missing => ¬ a.node.HasCloser a.block
  | .onOneLine => a.block = .if_ ∧ a.node.IsOnOneLine ∧ ¬ a.node.HasCloser a.block

/-- The failure that is reported when the closer is missing. -/
def failure? (a : Account) : Option Failure :=
  if a.ending = .missing then some (.atToken (.missingCloser a.block a.next) a.next) else none

end Account

/-- The number of loops that a `Next` further in closes. -/
def closedByNext (accounts : List Account) : Nat := accounts.countP fun a => a.ending = .byNext

/-! ## Nesting -/

/-- Whether the nodes of a kind are around a block of statements or around a clause of one. -/
def NodeKind.isNest : NodeKind → Bool
  | .ifStatement | .elseIfClause | .elseClause | .forStatement | .doStatement | .whileStatement
  | .withStatement | .selectCaseStatement | .caseClause | .caseElseClause => true
  | _ => false

/-- A block or a clause with the blocks and clauses in it. -/
inductive Nesting where
  | of (kind : NodeKind) (inner : List Nesting)

namespace Tree

mutual

/-- How the blocks of a tree are nested. -/
def nesting : Tree → List Nesting
  | leaf _ => []
  | node k _ cs =>
    match k with
    | .node k => if k.isNest then [.of k (nestingAll cs)] else nestingAll cs
    | _ => nestingAll cs

/-- How the blocks of some trees are nested. -/
def nestingAll : List Tree → List Nesting
  | [] => []
  | t :: ts => t.nesting ++ nestingAll ts

end

/-- How two rows of trees are nested is how the first is, and then the second. -/
theorem nestingAll_append (ts us : List Tree) :
    nestingAll (ts ++ us) = nestingAll ts ++ nestingAll us := by
  induction ts with
  | nil => rfl
  | cons t ts ih => rw [List.cons_append, nestingAll, nestingAll, ih, List.append_assoc]

/-- A node around blocks keeps them together, and any other node leaves them where they are. -/
theorem nesting_above (k : NodeKind) (a : Anchor) (ts : List Tree) :
    (above (.node k) a ts).nesting =
      if k.isNest then [.of k (nestingAll ts)] else nestingAll ts := by
  cases ts <;> rfl

/-- What is looked for in two rows is in one of them. -/
theorem findIn?_append_eq_none {k : Kind} {ts us : List Tree} (hts : findIn? k ts = none)
    (hus : findIn? k us = none) : findIn? k (ts ++ us) = none := by
  induction ts with
  | nil => exact hus
  | cons t ts ih =>
    rw [findIn?] at hts
    rw [List.cons_append, findIn?]
    split at hts
    · cases hts
    · exact ih hts

/-- A node of another kind has what is looked for in its children only. -/
theorem find?_above {k : Kind} {l : NodeKind} (h : k ≠ .node l) (a : Anchor) (ts : List Tree) :
    (above (.node l) a ts).find? k = findIn? k ts := by
  have hkind : ¬ (Kind.node l == k) = true := by
    intro heq
    exact h (beq_iff_eq.mp heq).symm
  cases ts <;> simp only [above, find?, if_neg hkind]

end Tree

end LosslessBasic
