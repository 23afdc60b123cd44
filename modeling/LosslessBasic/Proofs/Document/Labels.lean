import LosslessBasic.Proofs.Document.Dump
import LosslessBasic.Proofs.Grammar.StatementLines

/-!
# Labels start lines

A label is known by its place: it is the first on its line and starts with a number, or with a name
that has a colon directly behind it. Whatever is wrong with a program, the labels in its tree stand
in such places, and at the top and in the lists of its tree nothing but labels does
(`Document.labels_start_lines`).

## Main definitions

* `Tree.leavesBefore` and `Tree.leavesFrom`: the tokens around the place of a node;
* `Tree.StartsAsLabel`: whether a node starts as a label does;
* `Tree.HasLabels`: that these are the labels of a tree.
-/

namespace LosslessBasic

namespace Tree

/-- The tokens of a tree in front of what is at the end of a path. -/
def leavesBefore (root : Tree) (path : Path) : List Token :=
  root.leaves.take (root.tokensBefore path)

/-- The tokens of a tree from what is at the end of a path on. -/
def leavesFrom (root : Tree) (path : Path) : List Token := root.leaves.drop (root.tokensBefore path)

/-- What is at the end of a path starts a line, with a number or with a name that has a colon
directly behind it. -/
def StartsAsLabel (root : Tree) (path : Path) (n : Tree) : Prop :=
  ∃ t ts behind, n.leaves = t :: ts ∧ root.leavesFrom path = t :: behind ∧
    StartsLine (root.leavesBefore path) ∧ StartsLabel (t :: behind)

/-- The labels of a tree are what starts as a label does. -/
structure HasLabels (root : Tree) : Prop where
  /-- Every label starts as a label does. -/
  label {path : Path} {n : Tree} : root.at? path = some n → n.kind = .node .labelStatement →
    root.StartsAsLabel path n
  /-- At the top and in every list of statements, what starts as a label does is a label. -/
  item {path : Path} {n c : Tree} {i : Nat} : root.at? path = some n →
    n.kind = .node .root ∨ n.kind = .node .statementList → n.childAt? i = some c →
      root.StartsAsLabel (path ++ [i]) c → c.kind = .node .labelStatement

variable {root n : Tree} {path : Path} {tokens : List Token} {marker : Token}

theorem tokensBefore_append (hn : root.at? path = some n) (more : Path) :
    root.tokensBefore (path ++ more) = root.tokensBefore path + n.tokensBefore more := by
  induction path generalizing root with
  | nil =>
    obtain rfl : root = n := Option.some.inj hn
    exact (Nat.zero_add _).symm
  | cons i path ih =>
    unfold Tree.at? at hn
    split at hn
    next => cases hn
    next c hc =>
      rw [List.cons_append, tokensBefore, tokensBefore, hc]
      dsimp only
      rw [ih hn, Nat.add_assoc]

/-- What is at the end of a path starts where it stands. -/
theorem exists_leavesFrom_eq (hn : root.at? path = some n) :
    ∃ behind, root.leavesFrom path = n.leaves ++ behind := by
  obtain ⟨before, behind, hleaves, hlength⟩ := leaves_eq_of_at? hn
  exact ⟨behind, by rw [leavesFrom, hleaves, ← hlength, List.drop_left]⟩

theorem tokensBefore_le (hn : root.at? path = some n) :
    root.tokensBefore path ≤ root.leaves.length := by
  obtain ⟨before, behind, hleaves, hlength⟩ := leaves_eq_of_at? hn
  rw [hleaves, List.length_append, hlength]
  exact Nat.le_add_right _ _

/-- What stands in front of a child of a node stands in front of the node or in the children before
it. -/
theorem tokensBefore_child {k : Kind} {a : Anchor} {cs : List Tree} {c : Tree} {i : Nat}
    (hn : root.at? path = some (node k a cs)) (hc : cs[i]? = some c) :
    root.tokensBefore (path ++ [i]) = root.tokensBefore path + (leavesAll (cs.take i)).length := by
  have hchild : (node k a cs).childAt? i = some c := hc
  rw [tokensBefore_append hn, tokensBefore, hchild]
  rfl

/-- The end marker starts no label. -/
theorem startsLabel_append_marker (hmarker : marker.kind = .lexeme .endOfFile) :
    (ts : List Token) → (StartsLabel (ts ++ [marker]) ↔ StartsLabel ts)
  | [] => by simp [StartsLabel, hmarker]
  | [t] => by simp [StartsLabel, Lookahead.frontKind, hmarker]
  | t :: u :: ts => by simp [StartsLabel, Lookahead.frontKind]

/-- A tree in which labels stand where the tokens have them. -/
theorem HasLabels.of_every (htokens : tokens = root.leaves ++ [marker])
    (hmarker : marker.kind = .lexeme .endOfFile) (hkinds : ∀ t ∈ tokens, t.kind.isToken = true)
    (hrule : root.Every (LineRule tokens) 0) : root.HasLabels where
  label {path n} hn hkind := by
    have hle := tokensBefore_le hn
    obtain ⟨behind, hfrom⟩ := exists_leavesFrom_eq hn
    have hevery := hrule.at? hn
    rw [Nat.zero_add] at hevery
    cases n with
    | leaf t =>
      have htoken :=
        hkinds t (htokens ▸ List.mem_append_left _ (mem_leaves_of_at? hn (by simp [leaves])))
      rw [show t.kind = .node .labelStatement from hkind] at htoken
      cases htoken
    | node k a cs =>
      obtain ⟨hne, hline, hlabel, -⟩ := (hevery.1 _ hkind).label rfl
      obtain ⟨t, ts, hts⟩ := List.exists_cons_of_ne_nil hne
      have hleaves : (node k a cs).leaves = t :: ts := hts
      rw [htokens, List.take_append_of_le_length hle] at hline
      rw [htokens, List.drop_append_of_le_length hle, startsLabel_append_marker hmarker] at hlabel
      change StartsLabel (root.leavesFrom path) at hlabel
      rw [hfrom, hleaves] at hlabel
      exact ⟨t, ts, ts ++ behind, hleaves, by rw [hfrom, hleaves]; rfl, hline, hlabel⟩
  item {path n c i} hn hlist hc hstarts := by
    obtain ⟨t, ts, behind, -, hfrom, hline, hlabel⟩ := hstarts
    have hat : root.at? (path ++ [i]) = some c := by
      rw [at?_append, hn, Option.bind_some, Tree.at?, hc]
      rfl
    have hle := tokensBefore_le hat
    have hevery := hrule.at? hn
    rw [Nat.zero_add] at hevery
    cases n with
    | leaf t => simp [childAt?, children] at hc
    | node k a cs =>
      have hchild : cs[i]? = some c := hc
      have hitems : Along (ItemRule tokens) (root.tokensBefore path) cs := by
        rcases hlist with hroot | hlist
        · exact (hevery.1 _ hroot).items (.inl rfl)
        · exact (hevery.1 _ hlist).items (.inr rfl)
      have hitem := hitems.getElem? hchild
      rw [← tokensBefore_child hn hchild] at hitem
      -- in front of the end marker the tokens of the source are those of the tree
      refine hitem.label ?_ ?_
      · rwa [htokens, List.take_append_of_le_length hle]
      · rw [htokens, List.drop_append_of_le_length hle, startsLabel_append_marker hmarker]
        change StartsLabel (root.leavesFrom (path ++ [i]))
        rwa [hfrom]

end Tree

namespace Document

open Grammar

/-- A source is read item by item. -/
theorem lists_tokens (source : Bytes) (file : UInt32) :
    (State.start (.ofTokens (Lexer.tokens source file))).Lists (Lexer.tokens source file) True
      (State.final (.ofTokens (Lexer.tokens source file))) := by
  have hcomments : CommentsEndLines (TokenStream.ofTokens (Lexer.tokens source file)).rest := by
    rw [rest_ofTokens_tokens]
    exact Lexer.commentsEndLines_tokens source file
  have hlists := lists_final hcomments
  rwa [rest_ofTokens_tokens] at hlists

/-- Every node of the tree of a source stands where its tokens have it. -/
theorem every_lineRule (source : Bytes) (file : UInt32) (a : Anchor) :
    (Tree.above (.node .root) a
      (State.final (.ofTokens (Lexer.tokens source file))).builder.pending.toList).Every
        (Tree.LineRule (Lexer.tokens source file)) 0 := by
  obtain ⟨⟨trees, hadds, hitems⟩, hplace, -⟩ := lists_tokens source file
  have htrees :
      (State.final (.ofTokens (Lexer.tokens source file))).builder.pending.toList = trees :=
    hadds.pending
  exact Tree.every_above ⟨nofun, fun _ => htrees ▸ hitems, nofun⟩ hplace.ruled

/-- Whatever is wrong with a source, the labels in its tree are what starts a line as a label
does. -/
theorem labels_start_lines (origin source : Bytes) (file : UInt32)
    (hvalid : Utf8.firstInvalid? source = none) :
    ∃ d, (read origin source file).document? = some d ∧ d.root.HasLabels := by
  obtain ⟨d, marker, hread, hmarker, htokens, -⟩ := exists_document_of_valid hvalid origin file
  refine ⟨d, hread, .of_every htokens hmarker (fun t ht => Lexer.isToken_kind_of_mem_tokens ht) ?_⟩
  rw [read_of_valid hvalid, document?_readText] at hread
  rw [← Option.some.inj hread]
  exact every_lineRule source file _

/-- Labels and line numbers with and without blanks and colons, and names with a colon that start no
line. -/
theorem labels_start_lines_numbered :
    ∃ d,
      (read [] (Bytes.ofString "10 Foo: x\n  Bar: Baz: y\n20\nIf a Then b: 30 c Else 40\nQux :\n")
        1).document? =
      some d ∧ d.root.HasLabels :=
  labels_start_lines [] _ 1 (by decide +kernel)

end Document

end LosslessBasic
