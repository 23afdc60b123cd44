import LosslessBasic.Document
import LosslessBasic.Proofs.Grammar.Source
import LosslessBasic.Proofs.Text.CodePoints
import Mathlib.Algebra.Group.Nat.Defs

/-!
# Losslessness

A source that is UTF-8 is read to a tree whose leaves are its tokens, whatever is wrong with the
program (`lossless`); any other source has no tree, and the one failure says where it goes wrong.
-/

namespace LosslessBasic

namespace Tree

mutual

/-- The text of a tree is the text of its tokens. -/
theorem text_eq (t : Tree) : t.text = t.leaves.flatMap Token.text := by
  cases t with
  | leaf t => simp [text, leaves]
  | node k a cs => simpa [text, leaves] using textAll_eq cs

/-- The text of some trees is the text of their tokens. -/
theorem textAll_eq (ts : List Tree) : textAll ts = (leavesAll ts).flatMap Token.text := by
  cases ts with
  | nil => rfl
  | cons t ts => rw [textAll, leavesAll, List.flatMap_append, text_eq, textAll_eq]

end

end Tree

namespace Document

open Grammar

/-- The stream over the tokens of a source holds exactly these tokens. -/
theorem rest_ofTokens_tokens (source : Bytes) (file : UInt32) :
    (TokenStream.ofTokens (Lexer.tokens source file)).rest = Lexer.tokens source file := by
  obtain ⟨ts, q, hts, -⟩ := Lexer.tokensFrom_eq_append file 0 {} source
  rw [← Lexer.tokens_eq] at hts
  rw [TokenStream.rest_ofTokens (by simp [hts])]
  have hmarked : TokenStream.endsMarked (Lexer.tokens source file) = true := by
    simp [hts, TokenStream.endsMarked, Lexer.endMarkerAt]
  simp [TokenStream.marked, hmarked]

/-- What is left when the grammar has read a source is its end marker. -/
theorem tokens_eq_append_leaves (source : Bytes) (file : UInt32) :
    ∃ q, Lexer.tokens source file =
      Tree.leavesAll
          (State.final (.ofTokens (Lexer.tokens source file))).builder.pending.toList ++
        [Lexer.endMarkerAt file q] := by
  generalize hstream : TokenStream.ofTokens (Lexer.tokens source file) = stream
  have hrest : stream.rest = Lexer.tokens source file := by
    rw [← hstream, rest_ofTokens_tokens]
  obtain ⟨ts, q, hts, hkinds⟩ := Lexer.tokensFrom_eq_append file 0 {} source
  rw [← Lexer.tokens_eq, ← hrest, leaves_final, TokenStream.rest] at hts
  have hend : (State.final stream).AtEnd := atEnd_final stream
  obtain hahead | ⟨init, last, hahead⟩ := List.eq_nil_or_concat (State.final stream).stream.ahead
  · rw [hahead] at hts
    refine ⟨q, ?_⟩
    rw [← hrest, leaves_final stream, TokenStream.rest, hahead, hts, (List.append_inj' hts rfl).1]
  · -- an end marker in front of other tokens
    rw [hahead, List.concat_eq_append, ← List.cons_append, ← List.append_assoc] at hts
    have hmem : (State.final stream).stream.current ∈ ts := by
      rw [← (List.append_inj' hts rfl).1]
      simp
    exact absurd hend (hkinds _ hmem)

/-- The document that a source is read to. -/
theorem document?_readText (origin source : Bytes) (file : UInt32) :
    (readText origin source file).document? =
      let final := State.final (.ofTokens (Lexer.tokens source file))
      some { origin := origin
             root := .above (.node .root) final.builder.anchor final.builder.pending.toList
             implicitTargets := final.implicitTargets.toList } := by
  unfold readText
  dsimp only
  rw [grammarState, finish_source, Option.map_some]
  rfl

/-- A source that is UTF-8 is read as a text. -/
theorem read_of_valid {source : Bytes} (hvalid : Utf8.firstInvalid? source = none)
    (origin : Bytes) (file : UInt32) : read origin source file = readText origin source file := by
  rw [read, hvalid]

/-- A source that is UTF-8 has a tree, and its text is that of the leaves of the tree. -/
theorem exists_document_of_valid {source : Bytes} (hvalid : Utf8.firstInvalid? source = none)
    (origin : Bytes) (file : UInt32) :
    ∃ d marker, (read origin source file).document? = some d ∧ marker.kind = .lexeme .endOfFile ∧
      Lexer.tokens source file = d.root.leaves ++ [marker] ∧ d.text = source := by
  obtain ⟨q, htokens⟩ := tokens_eq_append_leaves source file
  rw [read_of_valid hvalid]
  refine ⟨_, Lexer.endMarkerAt file q, document?_readText origin source file, rfl, ?_, ?_⟩
  · rw [Tree.leaves_above]
    exact htokens
  · have htexts := Lexer.texts_tokens source file
    rw [htokens, List.flatMap_append] at htexts
    rw [Document.text, Tree.text_eq, Tree.leaves_above]
    simpa [Lexer.endMarkerAt] using htexts

/-- A source that is UTF-8 has a tree, and the leaves of the tree are the tokens of the source
without the end marker behind them; so the text of the tree is the source. Any other source has no
tree and one failure, at the first byte at which no character starts. -/
theorem lossless (origin source : Bytes) (file : UInt32) (hsize : source.length < 2 ^ 32) :
    match Utf8.firstInvalid? source with
    | none => ∃ d marker, (read origin source file).document? = some d ∧
        marker.kind = .lexeme .endOfFile ∧
        Lexer.tokens source file = d.root.leaves ++ [marker] ∧ d.text = source
    | some offset => (read origin source file).document? = none ∧
        ∃ f, (read origin source file).failures = [f] ∧ f.code = "B0007" ∧
          f.span.offset.toNat = offset := by
  cases h : Utf8.firstInvalid? source with
  | none => exact exists_document_of_valid h origin file
  | some offset =>
    rw [read, h]
    refine ⟨rfl, encodingFailure source file offset, rfl, rfl, ?_⟩
    have hlt := Utf8.firstInvalid?_lt h
    simp only [encodingFailure, Nat.toUInt32_eq, UInt32.toNat_ofNat']
    exact Nat.mod_eq_of_lt (by omega)

/-- A closer without a block is kept, and a byte that starts no character is refused. -/
theorem lossless_loop_and_0xFF :
    (∃ d marker, (read [] [0x4C, 0x6F, 0x6F, 0x70] 0).document? = some d ∧
      marker.kind = .lexeme .endOfFile ∧
      Lexer.tokens [0x4C, 0x6F, 0x6F, 0x70] 0 = d.root.leaves ++ [marker] ∧
      d.text = [0x4C, 0x6F, 0x6F, 0x70]) ∧
    (read [] [0x78, 0xFF] 0).document? = none ∧
      ∃ f, (read [] [0x78, 0xFF] 0).failures = [f] ∧ f.code = "B0007" ∧ f.span.offset.toNat = 1 :=
  ⟨lossless [] [0x4C, 0x6F, 0x6F, 0x70] 0 (by decide), lossless [] [0x78, 0xFF] 0 (by decide)⟩

end Document

end LosslessBasic
