import LosslessBasic.Proofs.Document
import LosslessBasic.Proofs.Tree.Cover
import LosslessBasic.Proofs.Tree.Store

/-!
# Where the nodes of a document lie

Every node of the tree of a source lies where its text does: its offsets are those of its bytes, and
its children fill it without a gap and know what is above them (`Document.nodes_placed`). The tokens
of a source cover it from its start to its end; every move of the grammar keeps the row of pending
trees and the tokens ahead covering the source (`Composed.spread`), whatever nodes are opened and
closed.
-/

namespace LosslessBasic

/-! ## Tokens -/

namespace Lexer

theorem offset_step (p : Position) (c : UInt8) (next : Option UInt8) :
    (p.step c next).offset = p.offset + 1 := by
  unfold Position.step
  split_ifs <;> rfl

/-- The tokens from a position on cover the rest of the source, except for what belongs to the token
before them. -/
theorem coverAll_tokensFrom {source : Bytes} (file : UInt32) (within : Nat) {p : Position}
    {bytes : Bytes} (hbytes : source.drop p.offset = bytes) (hp : p.offset ≤ source.length) :
    Tree.CoverAll source (min (p.offset + within) source.length) source.length
      ((tokensFrom file within p bytes).map Tree.leaf) := by
  -- by induction on the bytes: within a token the next one starts where that token ends
  induction bytes generalizing within p with
  | nil =>
    have hend : p.offset = source.length := by
      have := List.drop_eq_nil_iff.mp hbytes
      omega
    have hmin : min (p.offset + within) source.length = p.offset := by omega
    have htokens : tokensFrom file within p [] = [endMarkerAt file p] := by cases within <;> rfl
    rw [htokens, hmin]
    refine ⟨p.offset, ⟨rfl, rfl, ?_⟩, hend⟩
    simp [endMarkerAt]
  | cons c rest ih =>
    have hlength : (c :: rest).length = source.length - p.offset := by
      rw [← hbytes, List.length_drop]
    have hrest : source.drop (p.step c rest.head?).offset = rest := by
      rw [offset_step, ← List.drop_drop, hbytes]
      rfl
    rw [List.length_cons] at hlength
    cases within with
    | succ k =>
      have hcover := ih k hrest (by rw [offset_step]; omega)
      rwa [offset_step, show p.offset + 1 + k = p.offset + (k + 1) by omega] at hcover
    | zero =>
      have hcover := ih ((scan c rest).2 - 1) hrest (by rw [offset_step]; omega)
      have htext :
          (tokenAt file p c rest).text.length = 1 + min ((scan c rest).2 - 1) rest.length := by
        simp [tokenAt, Nat.add_comm]
      rw [offset_step] at hcover
      rw [tokensFrom, Nat.add_zero, Nat.min_eq_left hp]
      refine ⟨min (p.offset + 1 + ((scan c rest).2 - 1)) source.length, ⟨rfl, by omega, ?_⟩, hcover⟩
      rw [List.extract_eq_take_drop, hbytes, ← List.take_length (l := (tokenAt file p c rest).text)]
      have hwidth : min (p.offset + 1 + ((scan c rest).2 - 1)) source.length - p.offset =
          (tokenAt file p c rest).text.length := by omega
      rw [hwidth]
      simp [tokenAt, List.take_take]

/-- The tokens of a source cover it. -/
theorem coverAll_tokens (source : Bytes) (file : UInt32) :
    Tree.CoverAll source 0 source.length ((tokens source file).map Tree.leaf) := by
  have hcover : Tree.CoverAll source (min (0 + 0) source.length) source.length
      ((tokensFrom file 0 {} source).map Tree.leaf) :=
    coverAll_tokensFrom file 0 (p := {}) rfl (Nat.zero_le _)
  rw [tokens_eq]
  simpa using hcover

end Lexer

/-! ## The grammar -/

namespace Grammar

/-- The row of pending trees covers a source up to where the tokens ahead go on to cover it. -/
def State.Spread (source : Bytes) (s : State) : Prop :=
  ∃ reached, Tree.CoverAll source 0 reached s.builder.pending.toList ∧
    s.builder.anchor.offset = reached.toUInt32 ∧
    Tree.CoverAll source reached source.length (s.stream.rest.map Tree.leaf)

variable {source : Bytes}

theorem State.Spread.shifted {s : State} (h : s.Spread source)
    (hend : s.stream.current.kind ≠ .lexeme .endOfFile) : s.shifted.Spread source := by
  obtain ⟨reached, hrow, -, hahead⟩ := h
  rw [TokenStream.rest_advance (TokenStream.ahead_ne_nil hend), List.map_cons] at hahead
  obtain ⟨mid, htoken, hahead⟩ := hahead
  refine ⟨mid, ?_, htoken.stop_eq, hahead⟩
  simp only [State.shifted, Builder.token, Array.toList_push, Tree.coverAll_append]
  exact ⟨reached, hrow, mid, htoken, rfl⟩

/-- A node that is closed covers what the trees that it owns do. -/
theorem State.Spread.closing {s : State} (h : s.Spread source) : s.closing.Spread source := by
  cases hopened : s.builder.opened with
  | nil => simpa [State.closing, Builder.finishNode, hopened] using h
  | cons n outer =>
    obtain ⟨reached, hrow, hanchor, hahead⟩ := h
    rw [← List.take_append_drop n.first s.builder.pending.toList] at hrow
    obtain ⟨mid, hbefore, howned⟩ := (Tree.coverAll_append _ _).mp hrow
    refine ⟨reached, ?_, by simpa [State.closing] using hanchor, hahead⟩
    simp only [State.closing, Builder.pending_finishNode hopened]
    refine (Tree.coverAll_append _ _).mpr ⟨mid, hbefore, reached, ?_, rfl⟩
    exact Tree.covers_above howned hanchor

/-- Every production keeps the source covered. -/
theorem Composed.spread {simple : Bool} {α : Type} {p : Production α} (h : Composed simple p)
    {s : State} (hs : s.Spread source) : (p.run s).2.Spread source := by
  induction h generalizing s with
  | pure | get | note | setRecovering | setSeparator | setPendingNext | addTarget
  | report => exact hs
  | bind _ _ ihp ihf => exact ihf _ (ihp hs)
  | shift =>
    by_cases hend : s.stream.current.kind = .lexeme .endOfFile
    · rwa [run_shift_of_atEnd hend]
    · rw [run_shift hend]
      exact hs.shifted hend
  | @within _ _ k _ _ ih => exact (ih (s := s.opening k) hs).closing
  | @composite _ k _ _ ih => exact (ih (s := s.opening k) hs).closing
  | @compositeFrom _ cp k _ _ ih => exact (ih (s := s.openingAt cp k) hs).closing
  | @inBlock _ block _ _ ih => exact ih (s := { s with blocks := block :: s.blocks }) hs
  | @inWith _ _ target _ _ ih =>
    exact ih (s := { s with withTargets := target :: s.withTargets }) hs
  | onOneLine _ ih => exact ih (s := { s with lineMode := s.lineMode + 1 }) hs

/-- Where only an end marker is left, a node over the row covers the whole source. -/
theorem State.Spread.covers_above {s : State} {k : Kind} {file : UInt32} {p : Position}
    (h : s.Spread source) (hrest : s.stream.rest = [Lexer.endMarkerAt file p]) :
    (Tree.above k s.builder.anchor s.builder.pending.toList).Covers source 0 source.length := by
  obtain ⟨reached, hrow, hanchor, hahead⟩ := h
  rw [hrest] at hahead
  obtain ⟨mid, hmarker, rfl⟩ := hahead
  have hreached : source.length = reached := hmarker.2.1
  rw [← hreached] at hrow hanchor
  exact Tree.covers_above hrow hanchor

end Grammar

/-! ## Documents -/

namespace Document

open Grammar

/-- Where the reading of a source ends, its row covers it. -/
theorem spread_final (source : Bytes) (file : UInt32) :
    (State.final (.ofTokens (Lexer.tokens source file))).Spread source := by
  have hbody : Composed false (statements (statementUpTo
      ((TokenStream.ofTokens (Lexer.tokens source file)).remaining + 1))) := inferInstance
  refine hbody.spread ⟨0, rfl, rfl, ?_⟩
  change Tree.CoverAll source 0 source.length
    ((TokenStream.ofTokens (Lexer.tokens source file)).rest.map Tree.leaf)
  rw [rest_ofTokens_tokens]
  exact Lexer.coverAll_tokens source file

/-- The root of a source covers it. -/
theorem covers_root (source : Bytes) (file : UInt32) :
    let final := State.final (.ofTokens (Lexer.tokens source file))
    (Tree.above (.node .root) final.builder.anchor final.builder.pending.toList).Covers source 0
      source.length := by
  intro final
  obtain ⟨q, htokens⟩ := tokens_eq_append_leaves source file
  have hspread : final.Spread source := spread_final source file
  have hleaves : Lexer.tokens source file =
      Tree.leavesAll final.builder.pending.toList ++ final.stream.rest := by
    rw [← rest_ofTokens_tokens source file]
    exact leaves_final _
  have hmarker : Lexer.tokens source file =
      Tree.leavesAll final.builder.pending.toList ++ [Lexer.endMarkerAt file q] := htokens
  clear_value final
  exact hspread.covers_above (List.append_cancel_left (hleaves.symm.trans hmarker))

/-- Every node of the tree of a source lies in the source where its text does, and its children fill
it without a gap; the root lies over the whole source. As the nodes are made, each of them is set
above its children, and nothing above the root. -/
theorem nodes_placed (origin source : Bytes) (file : UInt32)
    (hvalid : Utf8.firstInvalid? source = none) (hsize : source.length < 2 ^ 32) :
    ∃ d, (read origin source file).document? = some d ∧
      d.root.offset = 0 ∧ d.root.length.toNat = source.length ∧
      d.root.stored.2.parent? d.root.stored.1 = none ∧
      ∀ path n, d.root.at? path = some n →
        n.IsPlaced source ∧ ∃ number, d.root.stored.2.Links d.root.stored.1 number path n := by
  have hroot := covers_root source file
  have hplaced := hroot.isPlaced (Nat.le_refl _) hsize
  obtain ⟨-, hparent, hlinks⟩ := Tree.links_stored (Tree.above (.node .root)
    (State.final (.ofTokens (Lexer.tokens source file))).builder.anchor
    (State.final (.ofTokens (Lexer.tokens source file))).builder.pending.toList)
  refine ⟨_, by rw [read, hvalid, document?_readText], hroot.offset_eq, ?_, hparent, ?_⟩
  · have hstop := Bytes.toNat_toUInt32 (Nat.le_refl source.length) hsize
    simp only [Tree.length, hroot.offset_eq, hroot.stop_eq]
    simpa using hstop
  · intro path n hn
    obtain ⟨start, stop, -, hstop, hcovers⟩ := hroot.at? hn
    exact ⟨hcovers.isPlaced hstop hsize, hlinks path n hn⟩

/-- A loop without a body, an operator without operands and an error: the nodes without children and
those that were opened at a checkpoint lie where they should, too. -/
theorem nodes_placed_for_without_bounds :
    ∃ d, (read [] (Bytes.ofString "For i = -\nNext") 0).document? = some d ∧
      d.root.offset = 0 ∧ d.root.length.toNat = (Bytes.ofString "For i = -\nNext").length ∧
      d.root.stored.2.parent? d.root.stored.1 = none ∧
      ∀ path n, d.root.at? path = some n →
        n.IsPlaced (Bytes.ofString "For i = -\nNext") ∧
        ∃ number, d.root.stored.2.Links d.root.stored.1 number path n :=
  nodes_placed [] (Bytes.ofString "For i = -\nNext") 0 (by decide +kernel) (by decide +kernel)

end Document

end LosslessBasic
