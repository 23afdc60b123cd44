import LosslessBasic.Proofs.Lexer.Division
import LosslessBasic.Proofs.Document
import LosslessBasic.Proofs.Tree.Dump

/-!
# The dump of a source

The dump of the tree of a source and the dump of its tokens agree line by line
(`Document.dump_agrees`), although the one is written from the tree and the other without it. A tree
is determined by its dump up to what no line shows, and so is the source by the dump of its tree
(`Document.dump_determines`): the tokens of a source have kinds of tokens, and every move of the
grammar opens nodes of kinds of nodes only (`Composed.hasKinds`).
-/

namespace LosslessBasic

namespace Tree

/-- Trees have proper kinds if each of them has. -/
theorem haveKinds_iff {ts : List Tree} : HaveKinds ts ↔ ∀ t ∈ ts, t.HasKinds := by
  induction ts with
  | nil => simp [HaveKinds]
  | cons t ts ih => rw [HaveKinds, ih, List.forall_mem_cons]

/-- A node has proper kinds if it is of a kind of nodes and its children have proper kinds. -/
theorem hasKinds_above {k : Kind} {bare : Anchor} {ts : List Tree} (hk : k.isNode = true)
    (hts : HaveKinds ts) : (above k bare ts).HasKinds := by
  cases ts <;> exact ⟨hk, hts⟩

/-- What is below a tree with proper kinds has proper kinds. -/
theorem HasKinds.at? {path : Path} {t n : Tree} (h : t.HasKinds) (hn : t.at? path = some n) :
    n.HasKinds := by
  induction path generalizing t with
  | nil => exact Option.some.inj hn ▸ h
  | cons i path ih =>
    unfold Tree.at? at hn
    split at hn
    next => cases hn
    next c hc => exact ih (haveKinds_iff.mp h.children c (List.mem_of_getElem? hc)) hn

end Tree

/-! ## The kinds in the tree of a source -/

namespace Lexer

/-- What is scanned is of a kind of tokens. -/
theorem isToken_scan (c : UInt8) (rest : Bytes) : (scan c rest).1.isToken = true := by
  unfold scan
  dsimp only
  split; · rfl
  split; · rfl
  split; · rfl
  split; · rfl
  split
  · unfold dateLiteral
    dsimp only
    split <;> rfl
  split; · rfl
  split; · rfl
  split; · rfl
  split
  · unfold word
    dsimp only
    split
    · rfl
    · split
      · rfl
      · split <;> rfl
  split <;> rfl

/-- The tokens of a source have kinds of tokens. -/
theorem isToken_kind_of_mem_tokens {source : Bytes} {file : UInt32} {t : Token}
    (ht : t ∈ tokens source file) : t.kind.isToken = true := by
  obtain ⟨front, htokens, hfront⟩ := (divided_tokens source file).exists_marker
  rw [htokens] at ht
  rcases List.mem_append.mp ht with ht | ht
  · obtain ⟨m, c, rest, rfl, -⟩ := hfront t ht
    exact isToken_scan c rest
  · obtain rfl := List.mem_singleton.mp ht
    rfl

end Lexer

namespace Grammar

/-- The trees that are finished and those that are still open have the kinds of their sort, and so
do the tokens ahead. -/
structure State.HasKinds (s : State) : Prop where
  row : ∀ t ∈ s.builder.pending.toList, t.HasKinds
  opened : ∀ n ∈ s.builder.opened, n.kind.isNode = true
  ahead : ∀ t ∈ s.stream.rest, t.kind.isToken = true

/-- A token that is moved has a proper kind. -/
theorem State.HasKinds.shifted {s : State} (h : s.HasKinds)
    (hend : s.stream.current.kind ≠ .lexeme .endOfFile) : s.shifted.HasKinds := by
  have hrest : s.stream.rest = s.stream.current :: s.shifted.stream.rest :=
    TokenStream.rest_advance (TokenStream.ahead_ne_nil hend)
  have hahead := h.ahead
  rw [hrest, List.forall_mem_cons] at hahead
  refine ⟨?_, h.opened, hahead.2⟩
  simp only [State.shifted, Builder.token, Array.toList_push, List.forall_mem_append,
    List.forall_mem_singleton]
  exact ⟨h.row, hahead.1⟩

/-- To open a node leaves the kinds proper. -/
theorem State.HasKinds.opening {s : State} (h : s.HasKinds) (first : Nat) (k : NodeKind) :
    State.HasKinds { s with
      builder :=
        { s.builder with opened := { kind := .node k, first := first } :: s.builder.opened } } :=
  ⟨h.row, List.forall_mem_cons.mpr ⟨rfl, h.opened⟩, h.ahead⟩

/-- To close a node leaves the kinds proper. -/
theorem State.HasKinds.closing {s : State} (h : s.HasKinds) : s.closing.HasKinds := by
  cases hopened : s.builder.opened with
  | nil => simpa [State.closing, Builder.finishNode, hopened] using h
  | cons n outer =>
    have hkinds := h.opened
    rw [hopened, List.forall_mem_cons] at hkinds
    refine ⟨?_, ?_, h.ahead⟩
    · simp only [State.closing, Builder.pending_finishNode hopened, List.forall_mem_append,
        List.forall_mem_singleton]
      refine ⟨fun t ht => h.row t (List.mem_of_mem_take ht), ?_⟩
      exact Tree.hasKinds_above hkinds.1 (Tree.haveKinds_iff.mpr fun t ht =>
        h.row t (List.mem_of_mem_drop ht))
    · simpa [State.closing, Builder.opened_finishNode hopened] using hkinds.2

/-- Every production builds nodes of kinds of nodes from tokens of kinds of tokens. -/
theorem Composed.hasKinds {simple : Bool} {α : Type} {p : Production α} (h : Composed simple p)
    {s : State} (hs : s.HasKinds) : (p.run s).2.HasKinds := by
  -- only a token that is moved and a node that is opened bring in a kind
  induction h generalizing s with
  | pure | get | note | setRecovering | setSeparator | setPendingNext | addTarget | report =>
    exact ⟨hs.row, hs.opened, hs.ahead⟩
  | bind _ _ ihp ihf => exact ihf _ (ihp hs)
  | shift =>
    by_cases hend : s.stream.current.kind = .lexeme .endOfFile
    · rwa [run_shift_of_atEnd hend]
    · rw [run_shift hend]
      exact hs.shifted hend
  | @within _ _ k _ _ ih => exact (ih (s := s.opening k) (hs.opening _ k)).closing
  | @composite _ k _ _ ih => exact (ih (s := s.opening k) (hs.opening _ k)).closing
  | @compositeFrom _ cp k _ _ ih => exact (ih (s := s.openingAt cp k) (hs.opening _ k)).closing
  | @inBlock _ block _ _ ih =>
    have hbody := ih (s := { s with blocks := block :: s.blocks }) ⟨hs.row, hs.opened, hs.ahead⟩
    exact ⟨hbody.row, hbody.opened, hbody.ahead⟩
  | @inWith _ _ target _ _ ih =>
    have hbody :=
      ih (s := { s with withTargets := target :: s.withTargets }) ⟨hs.row, hs.opened, hs.ahead⟩
    exact ⟨hbody.row, hbody.opened, hbody.ahead⟩
  | onOneLine _ ih =>
    have hbody := ih (s := { s with lineMode := s.lineMode + 1 }) ⟨hs.row, hs.opened, hs.ahead⟩
    exact ⟨hbody.row, hbody.opened, hbody.ahead⟩

end Grammar

namespace Token

/-- The line that stands for an end marker at an offset. -/
def endLine (offset : UInt32) : Bytes :=
  Bytes.ofString "EndOfFile@" ++ Bytes.decimal offset.toNat ++ Bytes.ofString ".." ++
    Bytes.decimal offset.toNat ++ Bytes.ofString " \"\""

/-- In a dump of tokens the end marker is its own line. -/
theorem format_endMarkerAt (file : UInt32) (p : Position) :
    (Lexer.endMarkerAt file p).format = endLine p.offset.toUInt32 := by
  have hname : Bytes.ofString "EndOfFile" ++ [Bytes.byte '@'] = Bytes.ofString "EndOfFile@" := by
    decide +kernel
  have htext : describeText [] = Bytes.ofString " \"\"" := by decide +kernel
  have hstop : (Lexer.endMarkerAt file p).stop = p.offset.toUInt32 := UInt32.add_zero _
  rw [format, hstop, endLine, ← hname, ← htext]
  rfl

end Token

namespace Document

open Grammar Bytes

variable {source : Bytes} {file : UInt32}

/-- The tree of a source has proper kinds. -/
theorem hasKinds_final (source : Bytes) (file : UInt32) :
    (State.final (.ofTokens (Lexer.tokens source file))).HasKinds := by
  have hbody : Composed false (statements (statementUpTo
      ((TokenStream.ofTokens (Lexer.tokens source file)).remaining + 1))) := inferInstance
  refine hbody.hasKinds ⟨nofun, List.forall_mem_singleton.mpr rfl, fun t ht => ?_⟩
  change t ∈ (TokenStream.ofTokens (Lexer.tokens source file)).rest at ht
  rw [rest_ofTokens_tokens] at ht
  exact Lexer.isToken_kind_of_mem_tokens ht

/-- What is read of a source: its tokens are the leaves of its tree and the end marker behind them,
and the tree has the kinds of its sorts. -/
theorem exists_document (origin : Bytes) (hvalid : Utf8.firstInvalid? source = none)
    (file : UInt32) :
    ∃ d, (read origin source file).document? = some d ∧ d.root.HasKinds ∧
      Lexer.tokens source file =
        d.root.leaves ++ [Lexer.endMarkerAt file (.ofOffset source source.length)] := by
  obtain ⟨q, htokens⟩ := tokens_eq_append_leaves source file
  obtain ⟨front, hfront, -⟩ := (Lexer.divided_tokens source file).exists_marker
  have hmarker := (List.append_inj' (hfront.symm.trans htokens) rfl).2
  rw [read_of_valid hvalid]
  refine ⟨_, document?_readText origin source file, ?_, ?_⟩
  · exact Tree.hasKinds_above rfl (Tree.haveKinds_iff.mpr (hasKinds_final source file).row)
  · rw [Tree.leaves_above, hmarker]
    exact htokens

/-- The lines of a tree that have a quoted text, without their indentation and with the line of the
end marker behind them, are the lines of the tokens of the source. The lines of the tree are those
of its nodes in pre-order, the paths in ascending order, and each is indented by two blanks a node
above it. -/
theorem dump_agrees (origin source : Bytes) (file : UInt32)
    (hvalid : Utf8.firstInvalid? source = none) :
    ∃ d, (read origin source file).document? = some d ∧
      Token.dump (Lexer.tokens source file) =
        (Tree.tokenLines d.root.dump ++ [Token.endLine source.length.toUInt32]).flatMap
          (· ++ [lineFeed]) ∧
      ∃ paths : List Path, paths.Pairwise (· < ·) ∧
        (∀ path, path ∈ paths ↔ (d.root.at? path).isSome = true) ∧
        List.Forall₂ (fun line path => ∃ n, d.root.at? path = some n ∧
            line = List.replicate (2 * path.length) (byte ' ') ++ n.summary)
          (lines d.root.dump) paths := by
  obtain ⟨d, hd, -, htokens⟩ := exists_document origin hvalid file
  refine ⟨d, hd, ?_, d.root.paths, d.root.pairwise_paths, fun path => Tree.mem_paths,
    d.root.forall₂_lines_dump⟩
  have hdump : Token.dump (Lexer.tokens source file) =
      ((Lexer.tokens source file).map Token.format).flatMap (· ++ [lineFeed]) := by
    rw [List.flatMap_map]
    rfl
  rw [hdump, htokens, List.map_append, Tree.tokenLines_dump, List.map_singleton,
    Token.format_endMarkerAt]
  rfl

/-- Quotes, a tab and a comment, two statements on a line and none at its end. -/
theorem dump_agrees_print :
    Utf8.firstInvalid? (ofString "Print \"a\"\"b\"\t: x = 1 'c\r\n)") = none ∧
      ∃ d, (read [] (ofString "Print \"a\"\"b\"\t: x = 1 'c\r\n)") 1).document? = some d ∧
        Token.dump (Lexer.tokens (ofString "Print \"a\"\"b\"\t: x = 1 'c\r\n)") 1) =
          (Tree.tokenLines d.root.dump ++
            [Token.endLine (ofString "Print \"a\"\"b\"\t: x = 1 'c\r\n)").length.toUInt32]).flatMap
              (· ++ [lineFeed]) ∧
        ∃ paths : List Path, paths.Pairwise (· < ·) ∧
          (∀ path, path ∈ paths ↔ (d.root.at? path).isSome = true) ∧
          List.Forall₂ (fun line path => ∃ n, d.root.at? path = some n ∧
              line = List.replicate (2 * path.length) (byte ' ') ++ n.summary)
            (lines d.root.dump) paths :=
  ⟨by decide +kernel, dump_agrees [] _ 1 (by decide +kernel)⟩

/-- Trees with the same dump have nodes at the same paths, and those have the same kinds, offsets,
ends and texts of tokens. The trees of sources are among the trees with the kinds of their sorts,
and their dumps determine the sources. -/
theorem dump_determines :
    (∀ t u : Tree, t.HasKinds → u.HasKinds → t.dump = u.dump →
      ∀ path, Option.Rel Tree.SameLine (t.at? path) (u.at? path)) ∧
    ∀ (origin origin' source source' : Bytes) (file file' : UInt32),
      Utf8.firstInvalid? source = none → Utf8.firstInvalid? source' = none →
      ∃ d d', (read origin source file).document? = some d ∧
        (read origin' source' file').document? = some d' ∧ d.root.HasKinds ∧ d'.root.HasKinds ∧
        (d.root.dump = d'.root.dump → source = source') := by
  refine ⟨fun t u ht hu h => Tree.sameLines_of_dump_eq ht hu h, ?_⟩
  intro origin origin' source source' file file' hvalid hvalid'
  obtain ⟨d, hd, hkinds, htokens⟩ := exists_document origin hvalid file
  obtain ⟨d', hd', hkinds', htokens'⟩ := exists_document origin' hvalid' file'
  refine ⟨d, d', hd, hd', hkinds, hkinds', fun hdump => ?_⟩
  -- the texts are read off the lines of the tokens alone, whatever the nodes are
  have htexts {source : Bytes} {file : UInt32} {p : Position} {ts : List Token}
      (h : Lexer.tokens source file = ts ++ [Lexer.endMarkerAt file p]) :
      (ts.map Token.text).flatten = source := by
    rw [← Lexer.texts_tokens source file, h, List.flatMap_append, ← List.flatMap_def]
    exact (List.append_nil _).symm
  rw [← htexts htokens, Tree.texts_eq_of_dump_eq hdump, htexts htokens']

/-- A root over a token with a quote, a backslash and a blank, on a given line. -/
def rootOnLine (line : UInt32) : Tree :=
  .node (.node .root) {} [.leaf
    { kind := .lexeme .unknownCharacter, text := [doubleQuote, backslash, byte ' '], offset := 7
      loc := { line := line } }]

/-- Two trees that differ in the line of a token, and a source that is read under two names. -/
theorem dump_determines_elsewhere :
    ((rootOnLine 1).HasKinds ∧ (rootOnLine 2).HasKinds ∧ (rootOnLine 1).dump = (rootOnLine 2).dump ∧
      ∀ path, Option.Rel Tree.SameLine ((rootOnLine 1).at? path) ((rootOnLine 2).at? path)) ∧
    Utf8.firstInvalid? (ofString "x = \"\\\"") = none ∧
      ∃ d d', (read (ofString "a") (ofString "x = \"\\\"") 1).document? = some d ∧
        (read (ofString "b") (ofString "x = \"\\\"") 2).document? = some d' ∧
        d.root.HasKinds ∧ d'.root.HasKinds ∧
        (d.root.dump = d'.root.dump → ofString "x = \"\\\"" = ofString "x = \"\\\"") := by
  have hkinds (line : UInt32) : (rootOnLine line).HasKinds := ⟨rfl, rfl, trivial⟩
  have hvalid : Utf8.firstInvalid? (ofString "x = \"\\\"") = none := by decide +kernel
  refine ⟨⟨hkinds 1, hkinds 2, rfl, dump_determines.1 _ _ (hkinds 1) (hkinds 2) rfl⟩, hvalid, ?_⟩
  exact dump_determines.2 _ _ _ _ 1 2 hvalid hvalid

end Document

end LosslessBasic
