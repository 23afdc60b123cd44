import LosslessBasic.Proofs.Document.Append
import LosslessBasic.Proofs.Document.Layout
import LosslessBasic.Proofs.Grammar.BodiesTrimmed

/-!
# Trivia stays outside of fragments

Where nothing is wrong with a source, an expression, an argument, a parameter, a part of a
declaration and the test of a clause extend from one word to another (`Document.fragments_bounded`):
blanks around them belong to the node outside (`isTrimmed_of_mem_final`), and line breaks and
comments end the statement that they are in (`isLaidItem_of_mem_final`).
-/

namespace LosslessBasic

/-- Trivia that is neither a line break nor a comment is blank. -/
theorem Kind.isTrivia_eq_false {k : Kind} (hblank : k.isInlineTrivia = false)
    (hboundary : ¬ k.IsBoundary) :
    k.isTrivia = false := by
  cases k with
  | trivia t => cases t <;> first | exact absurd rfl hboundary | cases hblank
  | _ => rfl

/-- A tree that starts and ends with a token that is no trivia, and is not empty. -/
structure Tree.IsBounded (n : Tree) : Prop where
  ne_nil : n.text ≠ []
  first : ∃ t, n.leaves.head? = some t ∧ t.kind.isTrivia = false
  last : ∃ t, n.leaves.getLast? = some t ∧ t.kind.isTrivia = false

/-- Tokens with a text of which the first and the last are no blanks, and none of which ends a
statement. -/
theorem Tree.IsBounded.of_haveEdges {n : Tree} (hedges : HaveEdges n.leaves)
    (hinside : ∀ t ∈ n.leaves, ¬ t.kind.IsBoundary) (htext : ∀ t ∈ n.leaves, t.text ≠ []) :
    n.IsBounded := by
  obtain ⟨⟨first, hfirst, hsolid⟩, last, hlast, hsolid'⟩ := hedges
  have hmem : first ∈ n.leaves := List.mem_of_mem_head? hfirst
  have hmem' : last ∈ n.leaves := List.mem_of_mem_getLast? hlast
  refine ⟨fun hnil => ?_, ⟨first, hfirst, Kind.isTrivia_eq_false hsolid (hinside _ hmem)⟩,
    last, hlast, Kind.isTrivia_eq_false hsolid' (hinside _ hmem')⟩
  rw [Tree.text_eq, List.flatMap_eq_nil_iff] at hnil
  exact htext first hmem (hnil first hmem)

/-- A fragment in a tree that is trimmed and has its layout. -/
theorem Tree.isBounded_of_at? {root n : Tree} {path : Path} {k : NodeKind}
    (htrimmed : root.IsTrimmed)
    (hlaid : root.LaidOut) (htext : ∀ t ∈ root.leaves, t.text ≠ []) (hn : root.at? path = some n)
    (hkind : n.kind = .node k) (hfragment : k.isFragment = true) : n.IsBounded := by
  have hevery := (htrimmed 0).at? hn
  have hlayout := hlaid.at? hn
  have htext' : ∀ t ∈ n.leaves, t.text ≠ [] := fun t ht => htext t (mem_leaves_of_at? hn ht)
  cases n with
  | leaf t =>
    have hkind' : t.kind = .node k := hkind
    have hblank : t.kind.isInlineTrivia = false := by rw [hkind']; rfl
    refine .of_haveEdges ⟨⟨t, rfl, hblank⟩, t, rfl, hblank⟩ ?_ htext'
    intro u hu
    obtain rfl : u = t := by simpa [leaves] using hu
    rw [hkind']
    exact Bool.false_ne_true
  | node l a cs =>
    exact .of_haveEdges (hevery.1 k hkind hfragment) ((hlayout.1 k hkind).inside hfragment) htext'

namespace Document

open Grammar

/-- Tokens that are not reported by themselves carry no error. -/
theorem isLexicalError_eq_false {tokens : List Token} (h : Lexer.failures tokens = []) :
    ∀ t ∈ tokens, t.kind.isLexicalError = false := by
  intro t ht
  rw [Lexer.failures, List.filterMap_eq_nil_iff] at h
  have hnone : Lexer.problem? t = none := by simpa using h t ht
  unfold Lexer.problem? at hnone
  split at hnone
  next => cases hnone
  next => cases hnone
  next hstring hcharacter =>
    cases hkind : t.kind with
    | lexeme l =>
      cases l <;> first | rfl | exact absurd hkind hstring | exact absurd hkind hcharacter
    | _ => rfl

/-- Every leaf of the tree of a source has a text. -/
theorem text_ne_nil_of_mem_leaves {source : Bytes} {file : UInt32} :
    ∀ t ∈ Tree.leavesAll
        (State.final (.ofTokens (Lexer.tokens source file))).builder.pending.toList,
          t.text ≠ [] := by
  obtain ⟨q, htokens⟩ := tokens_eq_append_leaves source file
  obtain ⟨ts, q', hts, hkinds⟩ := Lexer.tokensFrom_eq_append file 0 {} source
  rw [← Lexer.tokens_eq, htokens] at hts
  obtain ⟨hleaves, -⟩ := List.append_inj' hts rfl
  intro t ht
  have hmem : t ∈ Lexer.tokensFrom file 0 {} source := by
    rw [← Lexer.tokens_eq, htokens]
    exact List.mem_append_left _ ht
  exact Lexer.text_ne_nil_of_mem_tokensFrom hmem (hkinds t (hleaves ▸ ht))

/-- Where nothing is wrong with a source, every fragment in its tree starts and ends with a token
that is no trivia, and is not empty. -/
theorem fragments_bounded (origin source : Bytes) (file : UInt32)
    (hok : (read origin source file).isOk = true) :
    ∃ d, (read origin source file).document? = some d ∧
      ∀ path n k, d.root.at? path = some n → n.kind = .node k → k.isFragment = true →
        n.IsBounded := by
  rw [Reading.isOk, Bool.and_eq_true, List.isEmpty_iff] at hok
  obtain ⟨hsome, hfailures⟩ := hok
  have hvalid : Utf8.firstInvalid? source = none := by
    cases hinvalid : Utf8.firstInvalid? source with
    | none => rfl
    | some offset =>
      rw [read, hinvalid] at hsome
      cases hsome
  rw [failures_read hvalid, List.append_eq_nil_iff, grammarFailures_eq] at hfailures
  obtain ⟨hlexer, hgrammar⟩ := hfailures
  have hclean : ∀ t ∈ (TokenStream.ofTokens (Lexer.tokens source file)).rest,
      t.kind.isLexicalError = false := by
    rw [rest_ofTokens_tokens]
    exact isLexicalError_eq_false hlexer
  refine ⟨_,
    by rw [read_of_valid hvalid, document?_readText], fun path n k hn hkind hfragment => ?_⟩
  refine Tree.isBounded_of_at? ?_ ?_ ?_ hn hkind hfragment
  · refine Tree.isTrimmed_above (fun hfragment => ?_) fun _ hc =>
      isTrimmed_of_mem_final hclean (Array.toList_eq_nil_iff.mp hgrammar) hc
    cases hfragment
  · exact Tree.laidOut_above (.of_isFrame rfl _)
      (Tree.laidOutAll_iff.mpr fun _ hc => (isLaidItem_of_mem_final hc).laidOut)
  · rw [Tree.leaves_above]
    exact text_ne_nil_of_mem_leaves

/-- Blanks on both sides of operators, commas, parentheses and the words of declarations and case
tests. -/
theorem fragments_bounded_spaced :
    (read [] (Bytes.ofString
        "Dim a ( 1 To 2 ) As New B\nSelect Case f ( x , - 1 )\nCase 1 To 2 , Is > 3\nEnd Select")
          1).isOk =
      true ∧
    ∃ d, (read [] (Bytes.ofString
        "Dim a ( 1 To 2 ) As New B\nSelect Case f ( x , - 1 )\nCase 1 To 2 , Is > 3\nEnd Select")
          1).document? =
        some d ∧
      ∀ path n k, d.root.at? path = some n → n.kind = .node k → k.isFragment = true → n.IsBounded :=
  have hok : (read [] (Bytes.ofString
      "Dim a ( 1 To 2 ) As New B\nSelect Case f ( x , - 1 )\nCase 1 To 2 , Is > 3\nEnd Select")
        1).isOk =
    true := by decide +kernel
  ⟨hok, fragments_bounded [] _ 1 hok⟩

end Document

end LosslessBasic
