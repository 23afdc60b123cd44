import LosslessBasic.Proofs.Document.Append
import LosslessBasic.Proofs.Document.Cover
import LosslessBasic.Proofs.Grammar.Order
import LosslessBasic.Proofs.Lexer.Boundaries
import LosslessBasic.Source.Cursor

/-!
# Where nodes say that they stand

A node takes over the location of its first child. A node without children lies just behind the last
token that was moved before it, but it carries the location at which that token *starts*: a builder
keeps the offset behind the token together with its location. So the location of a node is the
position of its offset just when a token is where the node starts
(`Document.location_iff_startsWithToken`).

## Main definitions

* `Tree.startsWithToken`: going down from first child to first child leads to a token;
* `Anchor.IsBehind`: the anchor that the tokens of a source leave in a builder;
* `Tree.Anchored`: every node of a tree either starts with a token and lies where the token does, or
  has an anchor from behind a token.
-/

namespace LosslessBasic

/-! ## Positions ascend -/

namespace Bytes

variable {source : Bytes} {m n : Nat}

/-- On the way to a later offset the line grows, or it stays and the column does not fall. -/
theorem breaksBefore_lt_or_columnsBefore_le (hmn : m ≤ n) (hn : n ≤ source.length) :
    source.breaksBefore m < source.breaksBefore n ∨
      source.breaksBefore m = source.breaksBefore n ∧
        source.columnsBefore m ≤ source.columnsBefore n := by
  induction n, hmn using Nat.le_induction with
  | base => exact .inr ⟨rfl, Nat.le_refl _⟩
  | succ n hmn ih =>
    have hc : source[n]? = some source[n] := List.getElem?_eq_getElem hn
    have hbreaks := source.breaksBefore_succ n
    cases hbreak : source.completesBreak n with
    | true =>
      rw [hbreak, if_pos rfl] at hbreaks
      rcases ih (by omega) with hlt | ⟨heq, -⟩
      · left; omega
      · left; omega
    | false =>
      have hcolumns := source.columnsBefore_succ hc hbreak
      rw [hbreak, if_neg Bool.false_ne_true, Nat.add_zero] at hbreaks
      rw [hbreaks, hcolumns]
      rcases ih (by omega) with hlt | ⟨heq, hle⟩
      · exact .inl hlt
      · exact .inr ⟨heq, Nat.le_trans hle (Nat.le_add_right _ _)⟩

end Bytes

namespace Token.StartsAt

variable {source : Bytes} {file : UInt32} {start : Nat} {t : Token}

/-- A token with bytes ends within its source. -/
theorem stop_le (ht : t.StartsAt source file start) : start + t.text.length ≤ source.length := by
  have hlength := ht.text.length_le
  have hle := ht.le
  rw [List.length_drop] at hlength
  omega

/-- The position behind a token with bytes is further on than the one where it starts. -/
theorem position_lt (ht : t.StartsAt source file start) (hne : t.text ≠ []) :
    source.breaksBefore start < source.breaksBefore (start + t.text.length) ∨
      source.breaksBefore start = source.breaksBefore (start + t.text.length) ∧
        source.columnsBefore start < source.columnsBefore (start + t.text.length) := by
  have hpos : 0 < t.text.length := List.length_pos_iff.mpr hne
  have hstop := ht.stop_le
  have hc : source[start]? = some source[start] := List.getElem?_eq_getElem (by omega)
  have hbreaks := source.breaksBefore_succ start
  cases hbreak : source.completesBreak start with
  | true =>
    -- the first byte ends its line by itself
    rw [hbreak, if_pos rfl] at hbreaks
    rcases Bytes.breaksBefore_lt_or_columnsBefore_le (m := start + 1) (by omega) hstop with
      hlt | ⟨heq, -⟩
    · left; omega
    · left; omega
  | false =>
    rw [hbreak, if_neg Bool.false_ne_true, Nat.add_zero] at hbreaks
    have hcontinues : Utf8.isContinuation source[start] = false :=
      ht.before.character _ (by rw [List.head?_drop]; exact hc)
    cases hline : Ascii.isLineBreak source[start] with
    | false =>
      -- the first byte is that of a character and takes a column
      have hcolumns := source.columnsBefore_succ hc hbreak
      rw [Bytes.takesColumn, hline, hcontinues] at hcolumns
      simp only [Bool.not_false, Bool.and_self, if_true] at hcolumns
      rcases Bytes.breaksBefore_lt_or_columnsBefore_le (m := start + 1) (by omega) hstop with
        hlt | ⟨heq, hle⟩
      · left; omega
      · right; omega
    | true =>
      -- it is a carriage return, and the token has the line feed behind it, too
      have hfeed : source[start] = Bytes.carriageReturn ∧
          source[start + 1]? = some Bytes.lineFeed := by
        simp only [Bytes.completesBreak, hc, Bool.or_eq_false_iff, beq_eq_false_iff_ne, ne_eq,
          Option.some.injEq, Bool.and_eq_false_imp, beq_iff_eq, bne_eq_false_iff_eq] at hbreak
        have hreturn : source[start] = Bytes.carriageReturn := by
          simpa [Ascii.isLineBreak, hbreak.1] using hline
        exact ⟨hreturn, hbreak.2 hreturn⟩
      have hlength : 2 ≤ t.text.length := by
        by_contra hshort
        have hone : t.text.length = 1 := by omega
        have hbehind := ht.behind.lineBreak
        rw [hone, List.take_add_one, hc, hfeed.1, Option.toList_some, List.getLast?_concat,
          List.head?_drop] at hbehind
        exact hbehind rfl hfeed.2
      have hsecond : source.completesBreak (start + 1) = true := by
        rw [Bytes.completesBreak, hfeed.2]
        rfl
      have hbreaks' := source.breaksBefore_succ (start + 1)
      rw [hsecond, if_pos rfl] at hbreaks'
      rcases Bytes.breaksBefore_lt_or_columnsBefore_le (m := start + 1 + 1) (by omega) hstop with
        hlt | ⟨heq, -⟩
      · left; omega
      · left; omega

/-- The location of a token with bytes is not that of the byte behind it. -/
theorem loc_ne (ht : t.StartsAt source file start) (hne : t.text ≠ [])
    (hsize : source.length < 2 ^ 32) :
    t.loc ≠ (Position.ofOffset source (start + t.text.length)).locate file := by
  intro hloc
  have hstop := ht.stop_le
  have hbreaks := source.breaksBefore_le (start + t.text.length)
  have hcolumns := source.columnsBefore_le (start + t.text.length)
  rw [ht.loc] at hloc
  have hline : (1 + source.breaksBefore start) % 2 ^ 32 =
      (1 + source.breaksBefore (start + t.text.length)) % 2 ^ 32 := by
    have hwords := congrArg (fun l : Location => l.line.toNat) hloc
    simpa [Position.locate, Position.ofOffset] using hwords
  have hcolumn : (1 + source.columnsBefore start) % 2 ^ 32 =
      (1 + source.columnsBefore (start + t.text.length)) % 2 ^ 32 := by
    have hwords := congrArg (fun l : Location => l.column.toNat) hloc
    simpa [Position.locate, Position.ofOffset] using hwords
  rcases ht.position_lt hne with hlt | ⟨-, hlt⟩
  · omega
  · omega

end Token.StartsAt

/-! ## Anchors -/

/-- Whether an anchor is one that a builder has at the start, or one that a token leaves in it: the
offset where the token stops, with the location where it starts. -/
def Anchor.IsBehind (tokens : List Token) (a : Anchor) : Prop :=
  a = {} ∨ ∃ t ∈ tokens, t.kind ≠ .lexeme .endOfFile ∧ a = { offset := t.stop, loc := t.loc }

namespace Tree

/-- Whether a token is where a tree starts: the tree is one, or its first child starts with one. -/
def startsWithToken : Tree → Bool
  | leaf _ => true
  | node _ _ [] => false
  | node _ _ (c :: _) => c.startsWithToken

/-- Whether a tree lies where the token does that it starts with, or else at an anchor from behind
one. -/
def IsAnchored (tokens : List Token) (t : Tree) : Prop :=
  if t.startsWithToken then ∃ u ∈ tokens, t.anchor = { offset := u.offset, loc := u.loc }
  else t.anchor.IsBehind tokens

/-- Whether this is so of every node of a tree. -/
def Anchored (tokens : List Token) (t : Tree) : Prop :=
  ∀ path n, t.at? path = some n → n.IsAnchored tokens

variable {tokens : List Token}

theorem anchored_leaf {u : Token} (hu : u ∈ tokens) : (leaf u).Anchored tokens := by
  intro path n hn
  cases path with
  | nil =>
    obtain rfl := Option.some.inj hn
    exact ⟨u, hu, rfl⟩
  | cons i path => simp [at?, childAt?, children] at hn

/-- A node above trees lies where the first of them does; above none, it lies at the anchor
reached. -/
theorem anchored_above {k : Kind} {bare : Anchor} {ts : List Tree} (hbare : bare.IsBehind tokens)
    (hts : ∀ t ∈ ts, t.Anchored tokens) : (above k bare ts).Anchored tokens := by
  intro path n hn
  cases path with
  | nil =>
    obtain rfl := Option.some.inj hn
    cases ts with
    | nil => exact hbare
    | cons c cs => exact hts c (List.mem_cons_self ..) [] c rfl
  | cons i path =>
    have hchildren : (above k bare ts).children = ts := by cases ts <;> rfl
    unfold at? childAt? at hn
    rw [hchildren] at hn
    split at hn
    next => cases hn
    next c hc => exact hts c (List.mem_of_getElem? hc) path n hn

end Tree

namespace Grammar

/-- Whether the anchor of a state and the trees in its row are anchored behind its tokens. -/
structure State.Anchored (s : State) : Prop where
  /-- The anchor reached is one from behind a token. -/
  anchor : s.builder.anchor.IsBehind s.stream.tokens
  /-- So are those of the nodes in the row that start with no token. -/
  pending : ∀ t ∈ s.builder.pending.toList, t.Anchored s.stream.tokens

theorem State.Anchored.shifted {s : State} (h : s.Anchored) (hend : ¬ s.AtEnd) :
    s.shifted.Anchored := by
  have htokens : s.shifted.stream.tokens = s.stream.tokens := s.stream.tokens_advance
  have hcurrent : s.stream.current ∈ s.stream.tokens :=
    List.mem_of_getElem? s.stream.getElem?_position
  constructor
  · rw [htokens]
    exact .inr ⟨s.stream.current, hcurrent, hend, rfl⟩
  · rw [htokens]
    intro t ht
    simp only [State.shifted, Builder.token, Array.toList_push, List.mem_append,
      List.mem_singleton] at ht
    rcases ht with ht | rfl
    · exact h.pending t ht
    · exact Tree.anchored_leaf hcurrent

theorem State.Anchored.closing {s : State} (h : s.Anchored) : s.closing.Anchored := by
  cases hopened : s.builder.opened with
  | nil => simpa [State.closing, Builder.finishNode, hopened] using h
  | cons n outer =>
    constructor
    · simpa [State.closing] using h.anchor
    · simp only [State.closing, Builder.pending_finishNode hopened]
      intro t ht
      rcases List.mem_append.mp ht with ht | ht
      · exact h.pending t (List.mem_of_mem_take ht)
      · obtain rfl := List.mem_singleton.mp ht
        exact Tree.anchored_above h.anchor fun c hc => h.pending c (List.mem_of_mem_drop hc)

/-- Every production keeps its nodes anchored. -/
theorem Composed.anchored {simple : Bool} {α : Type} {p : Production α} (h : Composed simple p)
    {s : State} (hs : s.Anchored) : (p.run s).2.Anchored := by
  induction h generalizing s with
  | pure | get | note | setRecovering | setSeparator | setPendingNext | addTarget | report =>
    exact ⟨hs.anchor, hs.pending⟩
  | bind _ _ ihp ihf => exact ihf _ (ihp hs)
  | shift =>
    by_cases hend : s.AtEnd
    · rwa [run_shift_of_atEnd hend]
    · rw [run_shift hend]
      exact hs.shifted hend
  | @within _ _ k _ _ ih => exact (ih (s := s.opening k) ⟨hs.anchor, hs.pending⟩).closing
  | @composite _ k _ _ ih => exact (ih (s := s.opening k) ⟨hs.anchor, hs.pending⟩).closing
  | @compositeFrom _ cp k _ _ ih =>
    exact (ih (s := s.openingAt cp k) ⟨hs.anchor, hs.pending⟩).closing
  | @inBlock _ block _ _ ih =>
    have hbody := ih (s := { s with blocks := block :: s.blocks }) ⟨hs.anchor, hs.pending⟩
    exact ⟨hbody.anchor, hbody.pending⟩
  | @inWith _ _ target _ _ ih =>
    have hbody :=
      ih (s := { s with withTargets := target :: s.withTargets }) ⟨hs.anchor, hs.pending⟩
    exact ⟨hbody.anchor, hbody.pending⟩
  | onOneLine _ ih =>
    have hbody := ih (s := { s with lineMode := s.lineMode + 1 }) ⟨hs.anchor, hs.pending⟩
    exact ⟨hbody.anchor, hbody.pending⟩

end Grammar

namespace Document

open Grammar

variable {source : Bytes} {file : UInt32}

/-- The nodes of a source are anchored behind its tokens. -/
theorem anchored_final (source : Bytes) (file : UInt32) :
    let final := State.final (.ofTokens (Lexer.tokens source file))
    (Tree.above (.node .root) final.builder.anchor final.builder.pending.toList).Anchored
      (Lexer.tokens source file) := by
  intro final
  have hbody : Composed false (statements (statementUpTo
      ((TokenStream.ofTokens (Lexer.tokens source file)).remaining + 1))) := inferInstance
  have hfinal : final.Anchored := hbody.anchored ⟨.inl rfl, nofun⟩
  have htokens : final.stream.tokens = Lexer.tokens source file := by
    refine (hbody.passes (.start _)).1.trans ?_
    change (TokenStream.ofTokens (Lexer.tokens source file)).passed.reverse ++
      (TokenStream.ofTokens (Lexer.tokens source file)).rest = _
    rw [passed_ofTokens, rest_ofTokens_tokens]
    rfl
  have hanchor := hfinal.anchor
  have hpending := hfinal.pending
  rw [htokens] at hanchor hpending
  exact Tree.anchored_above hanchor hpending

/-- The anchor of a token has the location of its offset. -/
theorem loc_eq_of_token (hvalid : Utf8.firstInvalid? source = none) (hsize : source.length < 2 ^ 32)
    {u : Token} (hu : u ∈ Lexer.tokens source file) :
    u.loc =
      (Cursor.advance { source := source, file := file } u.offset.toNat).position.locate file := by
  obtain ⟨start, hstart⟩ := Lexer.exists_startsAt hvalid u hu
  have hle := hstart.le
  have hoffset : u.offset.toNat = start := by
    rw [hstart.offset]
    exact UInt32.toNat_ofNat_of_lt' (Nat.lt_of_le_of_lt hle hsize)
  rw [hstart.loc, hoffset]
  exact congrArg (·.locate file) (Position.after_start hle).symm

/-- An anchor from behind a token has not. -/
theorem loc_ne_of_isBehind (hvalid : Utf8.firstInvalid? source = none)
    (hsize : source.length < 2 ^ 32)
    {a : Anchor} (ha : a.IsBehind (Lexer.tokens source file)) :
    a.loc ≠
      (Cursor.advance { source := source, file := file } a.offset.toNat).position.locate file := by
  rcases ha with rfl | ⟨t, ht, hend, rfl⟩
  · intro hloc
    cases congrArg Location.line hloc
  · obtain ⟨start, hstart⟩ := Lexer.exists_startsAt hvalid t ht
    have hne : t.text ≠ [] := by
      rw [Lexer.tokens_eq] at ht
      exact Lexer.text_ne_nil_of_mem_tokensFrom ht hend
    have hle := hstart.stop_le
    have hstop : t.stop.toNat = start + t.text.length := by
      rw [Token.stop, Token.length, hstart.offset, UInt32.toNat_add]
      simp only [Nat.toUInt32_eq, UInt32.toNat_ofNat']
      omega
    have hafter : ({} : Position).after (start + t.text.length) source = _ :=
      Position.after_start hle
    change t.loc ≠ (({} : Position).after t.stop.toNat source).locate file
    rw [hstop, hafter]
    exact hstart.loc_ne hne hsize

/-- A node has the location of its offset just when a token is where it starts. Any other node has
an offset behind a token and the location of that token, or offset and location are zero. -/
theorem location_iff_startsWithToken (origin source : Bytes) (file : UInt32)
    (hvalid : Utf8.firstInvalid? source = none) (hsize : source.length < 2 ^ 32) :
    ∃ d, (read origin source file).document? = some d ∧ ∀ path n, d.root.at? path = some n →
      (n.anchor.loc =
          (Cursor.advance { source := source, file := file } n.anchor.offset.toNat).position.locate
            file ↔
        n.startsWithToken = true) ∧
      (n.startsWithToken = false → n.anchor.IsBehind (Lexer.tokens source file)) := by
  rw [read_of_valid hvalid]
  refine ⟨_, document?_readText origin source file, fun path n hn => ?_⟩
  have hanchored := anchored_final source file path n hn
  unfold Tree.IsAnchored at hanchored
  cases hstarts : n.startsWithToken with
  | true =>
    rw [hstarts, if_pos rfl] at hanchored
    obtain ⟨u, hu, hanchor⟩ := hanchored
    rw [hanchor]
    exact ⟨iff_of_true (loc_eq_of_token hvalid hsize hu) rfl, nofun⟩
  | false =>
    rw [hstarts, if_neg Bool.false_ne_true] at hanchored
    exact ⟨iff_of_false (loc_ne_of_isBehind hvalid hsize hanchored) Bool.false_ne_true,
      fun _ => hanchored⟩

/-- The nodes of a loop without statements. -/
theorem location_iff_startsWithToken_loop :
    Utf8.firstInvalid? (Bytes.ofString "While x\nWend\n") = none ∧
      (Bytes.ofString "While x\nWend\n").length < 2 ^ 32 ∧
      ∃ d, (read [] (Bytes.ofString "While x\nWend\n") 1).document? = some d ∧
        ∀ path n, d.root.at? path = some n →
          (n.anchor.loc = (Cursor.advance { source := Bytes.ofString "While x\nWend\n", file := 1 }
              n.anchor.offset.toNat).position.locate 1 ↔ n.startsWithToken = true) ∧
          (n.startsWithToken = false →
            n.anchor.IsBehind (Lexer.tokens (Bytes.ofString "While x\nWend\n") 1)) := by
  have hvalid : Utf8.firstInvalid? (Bytes.ofString "While x\nWend\n") = none := by decide
  have hsize : (Bytes.ofString "While x\nWend\n").length < 2 ^ 32 := by decide
  exact ⟨hvalid, hsize, location_iff_startsWithToken [] _ 1 hvalid hsize⟩

/-- Its list of statements is said to stand where the line break in front of it starts, at the end
of the first line; a reader is at the beginning of the second one there. -/
theorem location_of_emptyList :
    ((read [] (Bytes.ofString "While x\nWend\n") 1).document?.bind fun d => d.root.at? [0, 4]).map
        (fun n => (n.kind, n.anchor)) =
      some (.node .statementList, { offset := 8, loc := { file := 1, line := 1, column := 8 } }) ∧
    (Cursor.advance { source := Bytes.ofString "While x\nWend\n", file := 1 } 8).position.locate 1 =
      { file := 1, line := 2, column := 1 } := by
  decide +kernel

end Document

end LosslessBasic
