import LosslessBasic.Proofs.Grammar.BodyLayout
import LosslessBasic.Proofs.Grammar.Phrasal
import LosslessBasic.Proofs.Grammar.SimpleStatement
import LosslessBasic.Proofs.Lexer.Comments

/-!
# Where lines start

Whether a name with a colon behind it is a label, and whether a colon separates two statements, is
told by a flag of the state: what separates the next statement from the one before. Where statements
are listed, the flag says what the tokens in front of the cursor do (`State.KnowsLine`). Within a
statement it is out of date, and it is set anew where the statement ends (`knowsLine_statementEnd`).

## Main definitions

* `StartsLine`, `BehindColon` and `StartsLabel`: what tokens say of what stands behind and in front
  of them;
* `Tree.LineRule`: where in a tree labels stand and colons separate statements;
* `State.InPlace`: what has been read lies in the row as the rules have it.
-/

namespace LosslessBasic

/-! ## Places among tokens -/

/-- The last of some tokens that is no blank. -/
def lastWord? (ts : List Token) : Option Token := ts.reverse.find? TokenStream.isSolid

/-- Whether what stands behind some tokens is the first on its line. -/
def StartsLine (before : List Token) : Prop := ∀ t ∈ lastWord? before, t.kind = .trivia .newline

/-- Whether what stands behind some tokens stands behind a colon, with nothing but blanks
between. -/
def BehindColon (before : List Token) : Prop := ∃ t ∈ lastWord? before, t.kind = .lexeme .colon

/-- Whether tokens start with what a label starts with: a number, or a name with a colon directly
behind it. -/
def StartsLabel : List Token → Prop
  | [] => False
  | t :: rest => t.kind = .lexeme .integerLiteral ∨
      t.kind = .lexeme .identifier ∧ Lookahead.frontKind rest = .lexeme .colon

/-- The last word of two rows of tokens is that of the second, if it has one. -/
theorem lastWord?_append (ts us : List Token) :
    lastWord? (ts ++ us) = (lastWord? us).or (lastWord? ts) := by
  rw [lastWord?, List.reverse_append, List.find?_append]
  rfl

/-- There is no last word where all tokens are inline trivia. -/
theorem lastWord?_eq_none {ts : List Token} :
    lastWord? ts = none ↔ ∀ t ∈ ts, t.kind.isInlineTrivia = true := by
  simp [lastWord?, TokenStream.isSolid]

/-- The last word is one of the tokens. -/
theorem mem_of_lastWord? {ts : List Token} {t : Token} (h : lastWord? ts = some t) : t ∈ ts :=
  List.mem_reverse.mp (List.mem_of_find?_eq_some h)

/-- What is moved behind some tokens and is no blank is the last word. -/
theorem lastWord?_snoc (ts : List Token) {t : Token} (h : t.kind.isInlineTrivia = false) :
    lastWord? (ts ++ [t]) = some t := by
  have hlast : lastWord? [t] = some t := by simp [lastWord?, TokenStream.isSolid, h]
  rw [lastWord?_append, hlast]
  rfl

/-- Behind a token that is no inline trivia a line starts if that token is a line break. -/
theorem startsLine_snoc {ts : List Token} {t : Token} (h : t.kind.isInlineTrivia = false) :
    StartsLine (ts ++ [t]) ↔ t.kind = .trivia .newline := by
  simp [StartsLine, lastWord?_snoc ts h]

/-- Behind a token that is no inline trivia a colon has been read last if that token is a colon. -/
theorem behindColon_snoc {ts : List Token} {t : Token} (h : t.kind.isInlineTrivia = false) :
    BehindColon (ts ++ [t]) ↔ t.kind = .lexeme .colon := by
  simp [BehindColon, lastWord?_snoc ts h]

/-- What starts a line stands behind no colon. -/
theorem StartsLine.not_behindColon {ts : List Token} (h : StartsLine ts) : ¬ BehindColon ts := by
  rintro ⟨t, ht, hcolon⟩
  cases hcolon.symm.trans (h t ht)

/-! ## Rules -/

namespace NodeKind

/-- The kinds of nodes that hold lines and have no colon among their own tokens. -/
@[reducible]
def isColonFree : NodeKind → Bool
  | .ifStatement | .elseIfClause | .elseClause | .caseClause | .caseElseClause | .forStatement
  | .forEachStatement | .doStatement | .whileStatement | .withStatement | .subStatement
  | .functionStatement | .propertyStatement | .typeMember | .enumMember => true
  | _ => false

/-- The kinds of nodes that nothing is asked of. -/
@[reducible]
def isFree : NodeKind → Bool
  | .root | .statementList | .labelStatement | .unknown => false
  | k => !k.isColonFree

end NodeKind

namespace Tree

/-- What is no colon by itself. -/
def IsNoColon (c : Tree) : Prop := c.isToken = true → c.kind ≠ .lexeme .colon

/-- What a colon is, with the tokens in front of it: it does not stand directly behind another
one. -/
def ColonRule (tokens : List Token) (n : Nat) (c : Tree) : Prop :=
  c.isToken = true → c.kind = .lexeme .colon → ¬ BehindColon (tokens.take n)

/-- What an item of a list of statements is, with the tokens in front of it: a label where it starts
a line as labels do, and no second colon. -/
structure ItemRule (tokens : List Token) (n : Nat) (c : Tree) : Prop where
  label : StartsLine (tokens.take n) → StartsLabel (tokens.drop n) → c.kind = .node .labelStatement
  colon : ColonRule tokens n c

/-- What a label is: it starts a line, and its colon is no second one. -/
structure LabelRule (tokens : List Token) (n : Nat) (cs : List Tree) : Prop where
  ne_nil : leavesAll cs ≠ []
  line : StartsLine (tokens.take n)
  label : StartsLabel (tokens.drop n)
  colons : Along (ColonRule tokens) n cs

/-- Where in the tree of some tokens labels stand and colons separate statements. -/
structure LineRule (tokens : List Token) (n : Nat) (k : NodeKind) (cs : List Tree) : Prop where
  label : k = .labelStatement → LabelRule tokens n cs
  items : k = .root ∨ k = .statementList → Along (ItemRule tokens) n cs
  colonFree : k.isColonFree = true → ∀ c ∈ cs, c.IsNoColon

/-- A colon that is all that stands in a node of unknown meaning is reported. -/
def reportRule (failures : List Failure) : Rule := fun _ k cs =>
  k = .unknown → ∀ t, leavesAll cs = [t] → t.kind = .lexeme .colon →
    Failure.atToken .straySeparator t ∈ failures

/-- What is no token is no colon. -/
theorem isNoColon_above (k : Kind) (a : Anchor) (ts : List Tree) : (above k a ts).IsNoColon := by
  cases ts <;> exact nofun

/-- Trees without a colon among their leaves hold none at their top. -/
theorem isNoColon_of_leaves {ts : List Tree} (h : ∀ u ∈ leavesAll ts, u.kind ≠ .lexeme .colon) :
    ∀ c ∈ ts, c.IsNoColon := by
  intro c hc htoken
  cases c with
  | leaf t => exact h t (mem_leavesAll.mpr ⟨_, hc, List.mem_singleton_self t⟩)
  | node k a cs => cases htoken

/-- Of a node that is neither a label nor a list only the absence of colons is asked for. -/
theorem lineRule_of_ne {tokens : List Token} {k : NodeKind} (hlabel : k ≠ .labelStatement)
    (hroot : k ≠ .root)
    (hlist : k ≠ .statementList) (n : Nat) {cs : List Tree}
    (hcs : k.isColonFree = true → ∀ c ∈ cs, c.IsNoColon) : LineRule tokens n k cs :=
  ⟨fun h => absurd h hlabel, fun h => (h.elim hroot hlist).elim, hcs⟩

/-- Nodes within a statement are as the rule has it. -/
theorem lineRule_of_isPhrase {tokens : List Token} {k : NodeKind} (h : k.isPhrase = true) (n : Nat)
    (cs : List Tree) : LineRule tokens n k cs := by
  have hfree : k.isColonFree = false := by cases k <;> first | rfl | cases h
  exact lineRule_of_ne (by rintro rfl; cases h) (by rintro rfl; cases h) (by rintro rfl; cases h) n
    fun htrue => by rw [hfree] at htrue; cases htrue

/-- Nothing is asked for of a free node. -/
theorem lineRule_of_isFree {tokens : List Token} {k : NodeKind} (h : k.isFree = true) (n : Nat)
    (cs : List Tree) : LineRule tokens n k cs := by
  have hfree : k.isColonFree = false := by cases k <;> first | rfl | cases h
  exact lineRule_of_ne (by rintro rfl; cases h) (by rintro rfl; cases h) (by rintro rfl; cases h) n
    fun htrue => by rw [hfree] at htrue; cases htrue

/-- Of a node that may hold no colon nothing else is asked for. -/
theorem lineRule_of_isColonFree {tokens : List Token} {k : NodeKind}
    (h : k.isColonFree = true) (n : Nat)
    {cs : List Tree} (hcs : ∀ c ∈ cs, c.IsNoColon) : LineRule tokens n k cs :=
  lineRule_of_ne (by rintro rfl; cases h) (by rintro rfl; cases h) (by rintro rfl; cases h) n
    fun _ => hcs

/-- Only of a node of unknown meaning has a report to be there. -/
theorem reportRule_of_ne {failures : List Failure} {k : NodeKind} (h : k ≠ .unknown) (n : Nat)
    (cs : List Tree) : reportRule failures n k cs := fun hk => absurd hk h

mutual

/-- Where no colon stands in a tree, none has to be reported. -/
theorem every_reportRule {failures : List Failure} {n : Nat} :
    (t : Tree) → (∀ u ∈ t.leaves, u.kind ≠ .lexeme .colon) → t.Every (reportRule failures) n
  | leaf _, _ => trivial
  | node _ _ cs, h => by
    refine ⟨fun l _ _ u hcs hcolon => ?_, everyAll_reportRule cs h⟩
    exact absurd hcolon (h u (by rw [leaves, hcs]; exact List.mem_singleton_self u))

/-- Where no leaf is a colon nothing has to be reported. -/
theorem everyAll_reportRule {failures : List Failure} {n : Nat} :
    (ts : List Tree) → (∀ u ∈ leavesAll ts, u.kind ≠ .lexeme .colon) →
      EveryAll (reportRule failures) n ts
  | [], _ => trivial
  | t :: ts, h => ⟨every_reportRule t fun u hu => h u (List.mem_append_left _ hu),
      everyAll_reportRule ts fun u hu => h u (List.mem_append_right _ hu)⟩

end

end Tree

namespace TokenStream

/-- What comes next stands behind the inline trivia. -/
theorem peekSignificant_of_blanks {s t : TokenStream} {blanks : List Token}
    (h : s.rest = blanks ++ t.rest)
    (hblanks : ∀ u ∈ blanks, u.kind.isInlineTrivia = true) (n : Nat) :
    s.peekSignificant n = t.peekSignificant n := by
  have hlast : s.last = t.last := by
    unfold last
    simp only [h]
    exact List.getLast_append_of_ne_nil _ (List.cons_ne_nil _ _)
  have hfilter : blanks.filter isSolid = [] :=
    List.filter_eq_nil_iff.mpr fun u hu => by simp [isSolid, hblanks u hu]
  rw [peekSignificant_eq, peekSignificant_eq, h, List.filter_append, hfilter,
    List.nil_append, hlast]

end TokenStream

namespace Grammar

/-! ## What is known of the line -/

namespace State

/-- The tokens in front of the cursor. -/
def before (s : State) : List Token := Tree.leavesAll s.builder.pending.toList

/-- No colon comes next directly behind another one. -/
def NoSecondColon (s : State) : Prop :=
  (s.stream.peekSignificant 0).kind = .lexeme .colon → ¬ BehindColon s.before

/-- Whether something comes next that a label may start with. -/
def NameNext (s : State) : Prop :=
  (s.stream.peekSignificant 0).kind = .lexeme .identifier ∨
    (s.stream.peekSignificant 0).kind = .lexeme .integerLiteral

/-- In front of what a label may start with, the state tells whether a line starts there. -/
def KnowsStart (s : State) : Prop :=
  s.NameNext → (s.lastSeparator = .lineBreak ↔ StartsLine s.before)

/-- What is known between statements. -/
structure KnowsLine (s : State) : Prop where
  start : s.KnowsStart
  /-- Where nothing separates the statements yet, the next colon may. -/
  colon : s.lastSeparator = .none → s.NoSecondColon

/-- What is known right behind the end of a statement. -/
structure Ended (s : State) : Prop where
  start : s.KnowsStart
  colon : s.NoSecondColon

/-- What is known behind the first word of a statement. -/
structure Amid (s : State) : Prop where
  start : s.NameNext → ¬ StartsLine s.before
  colon : s.NoSecondColon

/-- In a single-line `If` no line break separates statements. -/
def OffBreak (s : State) : Prop := 0 < s.lineMode → s.lastSeparator ≠ .lineBreak

/-- What has been read of some tokens lies in the row as the rules have it. Where `flat` holds, no
line break separates the statements of a single-line `If`. -/
structure InPlace (tokens : List Token) (flat : Prop) (s : State) : Prop where
  comments : CommentsEndLines tokens
  innermostInRow : s.InnermostInRow
  tokens_eq : tokens = s.before ++ s.stream.rest
  ruled : s.Ruled (Tree.LineRule tokens)
  reported : s.Ruled (Tree.reportRule s.failures.toList)
  /-- Each colon is reported once. -/
  strays : ∃ ts : List Token, ts.Sublist s.before ∧ s.strays =
    ts.map (Failure.atToken .straySeparator)
  offBreak : flat → s.OffBreak

variable {s t : State} {tokens : List Token} {flat : Prop}

/-- Behind the end of a statement it is known what the line has started with. -/
theorem Ended.knowsLine (h : s.Ended) : s.KnowsLine := ⟨h.start, fun _ => h.colon⟩

/-- The first tokens of the source are those that have been read. -/
theorem InPlace.take_eq (h : s.InPlace tokens flat) : tokens.take s.before.length = s.before := by
  rw [h.tokens_eq, List.take_left]

/-- Behind the tokens that have been read stand those that are still ahead. -/
theorem InPlace.drop_eq (h : s.InPlace tokens flat) :
    tokens.drop s.before.length = s.stream.rest := by
  rw [h.tokens_eq, List.drop_left]

/-- A comment that is still ahead stands in front of the end of its line. -/
theorem InPlace.comments_ahead (h : s.InPlace tokens flat) : CommentsEndLines s.stream.rest := by
  have hcomments := h.comments
  rw [h.tokens_eq, CommentsEndLines] at hcomments
  exact hcomments.right_of_append

/-- The trees that are added to the row hold the tokens that have been read since. -/
theorem Adds.before_eq {trees : List Tree} (h : s.Adds trees t) :
    t.before = s.before ++ Tree.leavesAll trees := by
  rw [before, h.pending, Tree.leavesAll_append]
  rfl

/-- Trees are added as the rules have it. -/
theorem InPlace.of_adds {trees : List Tree} (hs : s.InPlace tokens flat) (hadds : s.Adds trees t)
    (hruled : t.Ruled (Tree.LineRule tokens))
    (hreported : Tree.EveryAll (Tree.reportRule t.failures.toList) s.before.length trees)
    (hfailures : s.failures.toList <+: t.failures.toList)
    (hstrays : ∃ ts : List Token, ts.Sublist (Tree.leavesAll trees) ∧
      t.strays = s.strays ++ ts.map (Failure.atToken .straySeparator))
    (hoff : flat → t.OffBreak) : t.InPlace tokens flat where
  comments := hs.comments
  innermostInRow := hadds.innermostInRow hs.innermostInRow
  tokens_eq := by
    rw [hadds.before_eq, List.append_assoc, ← hadds.rest]
    exact hs.tokens_eq
  ruled := hruled
  reported := by
    unfold Ruled
    rw [hadds.pending]
    refine Tree.everyAll_append.mpr ⟨hs.reported.mono fun _ _ _ h hk u hcs hcolon => ?_, ?_⟩
    · exact hfailures.subset (h hk u hcs hcolon)
    · rw [Nat.zero_add]
      exact hreported
  strays := by
    obtain ⟨ts, hts, hmap⟩ := hs.strays
    obtain ⟨more, hmore, hmap'⟩ := hstrays
    rw [hadds.before_eq, hmap', hmap]
    exact ⟨ts ++ more, hts.append hmore, by rw [List.map_append]⟩
  offBreak := hoff

/-- What moves nothing, opens nothing and reports no colon. -/
theorem InPlace.of_silent (hs : s.InPlace tokens flat) (hbuilder : t.builder = s.builder)
    (hstream : t.stream = s.stream) (hfailures : s.failures.toList <+: t.failures.toList)
    (hstrays : t.strays = s.strays) {flat' : Prop} (hoff : flat' → t.OffBreak) :
    t.InPlace tokens flat' where
  comments := hs.comments
  innermostInRow := by
    unfold InnermostInRow
    rw [hbuilder]
    exact hs.innermostInRow
  tokens_eq := by
    unfold before
    rw [hbuilder, hstream]
    exact hs.tokens_eq
  ruled := by
    unfold Ruled
    rw [hbuilder]
    exact hs.ruled
  reported := by
    unfold Ruled
    rw [hbuilder]
    exact hs.reported.mono fun _ _ _ h hk u hcs hcolon => hfailures.subset (h hk u hcs hcolon)
  strays := by
    unfold before
    rw [hbuilder, hstrays]
    exact hs.strays
  offBreak := hoff

/-- A part of a statement keeps what has been read in its place. -/
theorem InPlace.phrasal {α : Type} {p : Production α} [hp : Phrasal p] [hobeys : Obeys .part p]
    (hs : s.InPlace tokens flat) (h : s.MovesNo Kind.IsBoundary p) :
    (p.run s).2.InPlace tokens flat := by
  obtain ⟨trees, hadds, -, hinside⟩ := h.exists_adds hs.innermostInRow
  refine hs.of_adds hadds ?_ ?_ (hp.composed.follows s).failures ⟨[], List.nil_sublist _, ?_⟩
    fun hflat => ?_
  · exact hp.ruled (fun n k cs hk => Tree.lineRule_of_isPhrase hk n cs) hs.ruled
  · exact Tree.everyAll_reportRule trees fun u hu => (Kind.ne_of_not_isBoundary (hinside u hu)).2
  · rw [hp.strays_eq, List.map_nil, List.append_nil]
  · rw [OffBreak, hadds.context.lineMode, hp.lastSeparator_eq]
    exact hs.offBreak hflat

/-- A token that is moved leaves the state in place. -/
theorem InPlace.shifted (hs : s.InPlace tokens flat) (hend : ¬ s.AtEnd) :
    s.shifted.InPlace tokens flat :=
  hs.of_adds (.shifted hend) hs.ruled.shifted ⟨trivial, trivial⟩ (List.prefix_refl _)
    ⟨[], List.nil_sublist _, (List.append_nil _).symm⟩ hs.offBreak

/-- A token is moved. -/
theorem InPlace.shift (hs : s.InPlace tokens flat) :
    (Grammar.shift.run s).2.InPlace tokens flat := by
  by_cases hend : s.AtEnd
  · rwa [run_shift_of_atEnd hend]
  · rw [run_shift hend]
    exact hs.shifted hend

/-- Where a single-line list has no line break behind a statement, its place is kept. -/
theorem InPlace.setSeparator (hs : s.InPlace tokens flat) {separator : Separator}
    (hoff : flat → 0 < s.lineMode → separator ≠ .lineBreak) :
    ((Grammar.setSeparator separator).run s).2.InPlace tokens flat :=
  hs.of_silent (t := { s with lastSeparator := separator }) rfl rfl (List.prefix_refl _) rfl hoff

/-- The token at the cursor is the last of those that have been read once it is moved. -/
theorem before_shifted (s : State) : s.shifted.before = s.before ++ [s.stream.current] := by
  simp [before, State.shifted, Builder.token, Tree.leavesAll, Tree.leaves]

/-! ### Nodes -/

/-- To close a node reads no token. -/
theorem before_closing (s : State) : s.closing.before = s.before := s.builder.leavesAll_finishNode

/-- A statement has still ended once its node is closed. -/
theorem Ended.closing (h : s.Ended) : s.closing.Ended := by
  constructor
  · unfold KnowsStart
    rw [before_closing]
    exact h.start
  · unfold NoSecondColon
    rw [before_closing]
    exact h.colon

/-- To open a node leaves the state in place. -/
theorem InPlace.opening (hs : s.InPlace tokens flat) (k : NodeKind) :
    (s.opening k).InPlace tokens flat where
  comments := hs.comments
  innermostInRow := innermostInRow_opening s k
  tokens_eq := hs.tokens_eq
  ruled := hs.ruled
  reported := hs.reported
  strays := hs.strays
  offBreak := hs.offBreak

/-- A node is closed that is itself as the rules have it. -/
theorem InPlace.closing {n : OpenNode} {outer : List OpenNode} {k : NodeKind}
    (hs : s.InPlace tokens flat)
    (hinnermost : s.closing.InnermostInRow) (hopened : s.builder.opened = n :: outer)
    (hkind : n.kind = .node k)
    (hrule : Tree.LineRule tokens (Tree.leavesAll (s.builder.pending.toList.take n.first)).length k
      (s.builder.pending.toList.drop n.first))
    (hreport : Tree.reportRule s.failures.toList 0 k (s.builder.pending.toList.drop n.first)) :
    s.closing.InPlace tokens flat where
  comments := hs.comments
  innermostInRow := hinnermost
  tokens_eq := by
    rw [before_closing]
    exact hs.tokens_eq
  ruled := hs.ruled.closing hopened fun l hl => by
    obtain rfl : k = l := by simpa using hkind.symm.trans hl
    exact hrule
  reported := hs.reported.closing hopened fun l hl => by
    obtain rfl : k = l := by simpa using hkind.symm.trans hl
    exact hreport
  strays := by
    rw [before_closing]
    exact hs.strays
  offBreak := hs.offBreak

/-- A node around trees that have been added within it is closed. -/
theorem InPlace.closing_opening {k : NodeKind} {trees : List Tree} (hs : s.InnermostInRow)
    (ht : t.InPlace tokens flat) (hadds : (s.opening k).Adds trees t)
    (hrule : Tree.LineRule tokens s.before.length k trees)
    (hreport : Tree.reportRule t.failures.toList 0 k trees) : t.closing.InPlace tokens flat := by
  have hpending : t.builder.pending.toList = s.builder.pending.toList ++ trees := hadds.pending
  have hfirst : s.builder.pending.toList.length = s.builder.pending.size := Array.length_toList
  refine ht.closing (k := k) ((Adds.closing_opening hs hadds).1.innermostInRow hs)
    hadds.context.opened rfl
    ?_ ?_
  · change Tree.LineRule _
      (Tree.leavesAll (t.builder.pending.toList.take s.builder.pending.size)).length _
      (t.builder.pending.toList.drop s.builder.pending.size)
    rwa [hpending, ← hfirst, List.take_left, List.drop_left]
  · change Tree.reportRule _ _ _ (t.builder.pending.toList.drop s.builder.pending.size)
    rwa [hpending, ← hfirst, List.drop_left]

end State

/-- Closing a node that was opened in the row of a state leaves the row as it must be. -/
theorem State.innermostInRow_closing {s t : State} {n : OpenNode}
    (hopened : t.builder.opened = n :: s.builder.opened)
    (hfirst : s.builder.innermostFirst ≤ n.first)
    (ht : t.InnermostInRow) : t.closing.InnermostInRow := by
  have hinnermost : t.closing.builder.innermostFirst = s.builder.innermostFirst := by
    unfold State.closing Builder.innermostFirst
    rw [Builder.opened_finishNode hopened]
  have hsize := congrArg List.length (Builder.pending_finishNode hopened)
  have hle : n.first ≤ t.builder.pending.size := by
    unfold State.InnermostInRow Builder.innermostFirst at ht
    rwa [hopened] at ht
  rw [List.length_append, List.length_take, Array.length_toList, Array.length_toList] at hsize
  unfold State.InnermostInRow
  rw [hinnermost]
  change _ ≤ t.builder.finishNode.2.pending.size
  simp only [List.length_singleton] at hsize
  omega

/-- Every production leaves the innermost open node in the row. -/
theorem Composed.innermostInRow {simple : Bool} {α : Type} {p : Production α}
    (h : Composed simple p)
    {s : State} (hs : s.InnermostInRow) : (p.run s).2.InnermostInRow := by
  induction h generalizing s with
  | pure | get | note | setRecovering | setSeparator | setPendingNext | addTarget
  | report => exact hs
  | bind _ _ ihp ihf => exact ihf _ (ihp hs)
  | shift =>
    by_cases hend : s.AtEnd
    · rwa [run_shift_of_atEnd hend]
    · rw [run_shift hend]
      exact (State.Adds.shifted hend).innermostInRow hs
  | @within _ _ k _ h ih =>
    exact State.innermostInRow_closing (s := s) (h.sameContext (s.opening k)).opened hs
      (ih (State.innermostInRow_opening s k))
  | @composite _ k _ h ih =>
    exact State.innermostInRow_closing (s := s) (h.sameContext (s.opening k)).opened hs
      (ih (State.innermostInRow_opening s k))
  | @compositeFrom _ cp k _ h ih =>
    have hclamp : s.builder.clamp cp ≤ s.builder.pending.size := by
      unfold Builder.clamp
      exact Nat.max_le.mpr ⟨hs, Nat.min_le_right _ _⟩
    exact State.innermostInRow_closing (s := s) (h.sameContext (s.openingAt cp k)).opened
      (Nat.le_max_left _ _) (ih hclamp)
  | @inBlock _ block _ _ ih => exact ih (s := { s with blocks := block :: s.blocks }) hs
  | @inWith _ _ target _ _ ih =>
    exact ih (s := { s with withTargets := target :: s.withTargets }) hs
  | onOneLine _ ih => exact ih (s := { s with lineMode := s.lineMode + 1 }) hs

/-! ## The ends of statements -/

section

variable {s : State} {tokens : List Token} {flat P : Prop}

/-- Where neither a name nor a colon comes next, it does not matter what separates the
statements. -/
theorem State.KnowsLine.of_next (hname : ¬ s.NameNext)
    (hcolon : (s.stream.peekSignificant 0).kind ≠ .lexeme .colon) : s.KnowsLine :=
  ⟨fun h => absurd h hname, fun _ h => absurd h hcolon⟩

/-- A part of a statement moves no colon, so none comes next behind another one. -/
theorem State.NoSecondColon.moved {α : Type} {p : Production α} [hp : Composed false p]
    (hs : s.NoSecondColon) (h : s.MovesNo Kind.IsBoundary p) : (p.run s).2.NoSecondColon := by
  obtain ⟨moved, hrest, hbefore⟩ := (hp.follows s).moved
  obtain ⟨moved', hrest', hinside⟩ := h
  obtain rfl : moved = moved' := List.append_cancel_right (hrest.symm.trans hrest')
  intro hnext hbehind
  change (p.run s).2.before = s.before ++ moved at hbefore
  rw [hbefore] at hbehind
  obtain ⟨t, ht, hcolon⟩ := hbehind
  rw [lastWord?_append, Option.mem_def, Option.or_eq_some_iff] at ht
  -- the last word has been moved, or only blanks have
  rcases ht with ht | ⟨hblank, ht⟩
  · exact (Kind.ne_of_not_isBoundary (hinside t (mem_of_lastWord? ht))).2 hcolon
  · refine hs ?_ ⟨t, ht, hcolon⟩
    rw [TokenStream.peekSignificant_of_blanks hrest (lastWord?_eq_none.mp hblank)]
    exact hnext

/-- Nor does a part of a statement start a line behind its first word. -/
theorem State.Amid.moved {α : Type} {p : Production α} [hp : Composed false p]
    (hs : s.Amid) (h : s.MovesNo Kind.IsBoundary p) : (p.run s).2.Amid := by
  refine ⟨fun hnext hstart => ?_, hs.colon.moved h⟩
  obtain ⟨moved, hrest, hbefore⟩ := (hp.follows s).moved
  obtain ⟨moved', hrest', hinside⟩ := h
  obtain rfl : moved = moved' := List.append_cancel_right (hrest.symm.trans hrest')
  change (p.run s).2.before = s.before ++ moved at hbefore
  rw [hbefore, StartsLine, lastWord?_append] at hstart
  -- a word that has been moved is no line break, and behind blanks the line is as it was
  cases hlast : lastWord? moved with
  | some t =>
    have hkind : t.kind = .trivia .newline := hstart t (by rw [hlast]; rfl)
    exact (Kind.ne_of_not_isBoundary (hinside t (mem_of_lastWord? hlast))).1 hkind
  | none =>
    rw [hlast, Option.none_or] at hstart
    refine hs.start ?_ hstart
    unfold State.NameNext
    rw [TokenStream.peekSignificant_of_blanks hrest (lastWord?_eq_none.mp hlast)]
    exact hnext

/-- Behind a token that is moved and is no colon, no colon stands directly behind another one. -/
theorem State.noSecondColon_shifted (hsolid : s.stream.current.kind.isInlineTrivia = false)
    (hcolon : s.stream.current.kind ≠ .lexeme .colon) : s.shifted.NoSecondColon := by
  intro _ hbehind
  rw [State.before_shifted, behindColon_snoc hsolid] at hbehind
  exact hcolon hbehind

/-- Behind a line break that is moved a line starts. -/
theorem State.ended_behind_lineBreak (hkind : s.stream.current.kind = .trivia .newline) :
    ((setSeparator .lineBreak).run s.shifted).2.Ended := by
  have hsolid : s.stream.current.kind.isInlineTrivia = false := by rw [hkind]; rfl
  have hstart : StartsLine s.shifted.before := by
    rw [State.before_shifted, startsLine_snoc hsolid]
    exact hkind
  exact ⟨fun _ => ⟨fun _ => hstart, fun _ => rfl⟩, fun _ => hstart.not_behindColon⟩

/-- In front of what ends a statement no name comes next. -/
theorem State.not_nameNext_of_endsStatement
    (h : endsStatement s.stream.current.kind s.lineMode = true) :
    ¬ s.NameNext := by
  unfold State.NameNext
  rw [TokenStream.peekSignificant_zero (isInlineTrivia_of_endsStatement h)]
  rintro (hkind | hkind) <;> · rw [hkind] at h; cases h

/-- A line break that ends a statement is moved. -/
theorem inPlace_shiftNewline (hs : s.InPlace tokens flat) (hline : s.lineMode = 0)
    (hends : endsStatement s.stream.current.kind s.lineMode = true) (hcolon : P → s.NoSecondColon) :
    ((do
      if ← atCurrent (.trivia .newline) then
        shift
        setSeparator .lineBreak : Production Unit).run s).2.InPlace tokens flat ∧
    (P → ((do
      if ← atCurrent (.trivia .newline) then
        shift
        setSeparator .lineBreak : Production Unit).run s).2.Ended) := by
  unfold atCurrent
  rw [run_look_bind]
  split
  next hnewline =>
    have hkind : s.stream.current.kind = .trivia .newline := by simpa using hnewline
    have hend : s.stream.current.kind ≠ .lexeme .endOfFile := by rw [hkind]; nofun
    rw [run_bind, run_shift hend]
    exact ⟨(hs.shifted hend).setSeparator fun _ h => absurd h (by simp [State.shifted, hline]),
      fun _ => State.ended_behind_lineBreak hkind⟩
  next =>
    exact ⟨hs, fun h =>
      ⟨fun hname => absurd hname (State.not_nameNext_of_endsStatement hends), hcolon h⟩⟩

/-- The line break behind a statement is moved, with the comment in front of it. -/
theorem inPlace_shiftLineBreak (hs : s.InPlace tokens flat) (hline : s.lineMode = 0)
    (hends : endsStatement s.stream.current.kind s.lineMode = true) (hcolon : P → s.NoSecondColon) :
    (shiftLineBreak.run s).2.InPlace tokens flat ∧ (P → (shiftLineBreak.run s).2.Ended) := by
  unfold shiftLineBreak
  rw [run_bind, run_currentKind]
  split
  next hcomment =>
    -- a comment extends to the end of its line, so what follows it ends the statement as well
    have hends' := endsStatement_behind_comment hs.comments_ahead hcomment s.lineMode
    have hend : ¬ s.AtEnd := Kind.ne_endOfFile_of (f := Kind.isComment) hcomment rfl
    have hkind : s.stream.current.kind ≠ .lexeme .colon := by
      intro hkind
      rw [hkind] at hcomment
      cases hcomment
    rw [run_bind, run_shift hend]
    exact inPlace_shiftNewline (hs.shifted hend) hline hends' fun _ =>
      State.noSecondColon_shifted (isInlineTrivia_of_endsStatement hends) hkind
  next => exact inPlace_shiftNewline hs hline hends hcolon

/-- Where nothing is left over of a statement, its end leaves what separates it from the next as it
is. -/
theorem inPlace_statementEnd (hs : s.InPlace tokens flat)
    (hwithin : (withinStatement.run s).1 = false) :
    (statementEnd.run s).2.InPlace tokens True ∧
      (s.NoSecondColon → (statementEnd.run s).2.Ended) := by
  have hskip : Composed false skipBlanks := inferInstance
  have hmoves : MovesNo Kind.IsBoundary skipBlanks := inferInstance
  have hends : endsStatement (s.stream.peekSignificant 0).kind s.lineMode = true := by
    change (!endsStatement (s.stream.peekSignificant 0).kind s.lineMode) = false at hwithin
    simpa using hwithin
  rw [← current_skipBlanks, ← (hskip.sameContext s).lineMode] at hends
  have hplace := hs.phrasal (hmoves.movesNo s)
  have hcolon (h : s.NoSecondColon) := h.moved (hmoves.movesNo s)
  unfold statementEnd
  rw [run_bind]
  generalize (skipBlanks.run s).2 = t at hends hplace hcolon ⊢
  -- nothing separates the statement from the next one yet, unless a line break is moved
  have hseparator : ((setSeparator .none).run t).2 = { t with lastSeparator := .none } := rfl
  have hplace' : State.InPlace tokens True { t with lastSeparator := .none } :=
    hplace.of_silent (t := { t with lastSeparator := .none }) rfl rfl (List.prefix_refl _) rfl
      fun _ _ => by simp
  rw [run_bind, hseparator, run_bind, run_get]
  split
  next hline => exact inPlace_shiftLineBreak hplace' (by simpa using hline) hends hcolon
  next =>
    exact ⟨hplace', fun h => ⟨fun hname => absurd hname
      (State.not_nameNext_of_endsStatement (s := { t with lastSeparator := .none }) hends),
      hcolon h⟩⟩

/-- What is left over of a statement is reported and moved. -/
def leftover : Production Unit := do
  if ← withinStatement then
    let t ← next
    if t.kind.isLexicalError then setRecovering true
    fail (.leftover t) t
    recover

/-- A statement is finished with what is left over on its line, and then its end. -/
theorem finishStatement_eq : finishStatement = leftover >>= fun _ => statementEnd := by
  unfold finishStatement leftover statementEnd
  simp only [bind_assoc]
  refine congrArg _ (funext fun b => ?_)
  cases b with
  | false => rfl
  | true =>
    simp only [if_true, bind_assoc]
    refine congrArg _ (funext fun t => ?_)
    split <;> simp only [bind_assoc]

/-- Behind what is left over on its line a statement has come to its end. -/
theorem withinStatement_leftover (s : State) :
    (withinStatement.run (leftover.run s).2).1 = false := by
  have htest : (withinStatement.run s).2 = s := rfl
  unfold leftover
  dsimp only
  rw [run_bind, htest]
  cases hwithin : (withinStatement.run s).1 with
  | false => exact hwithin
  | true =>
    rw [if_pos rfl]
    unfold next
    rw [run_look_bind]
    split <;> exact within_recover _

instance : Phrasal leftover := by
  unfold leftover
  dsimp only
  infer_instance

instance : Obeys .part leftover := by
  unfold leftover
  dsimp only
  infer_instance

instance : MovesNo Kind.IsBoundary leftover := by
  unfold leftover
  dsimp only
  infer_instance

/-- The end of a statement tells where the next one starts. -/
theorem inPlace_finishStatement (hs : s.InPlace tokens flat) :
    (finishStatement.run s).2.InPlace tokens True ∧
      (s.NoSecondColon → (finishStatement.run s).2.Ended) := by
  have hmoves : MovesNo Kind.IsBoundary leftover := inferInstance
  have hphrasal : Phrasal leftover := inferInstance
  have hcomposed := hphrasal.composed
  obtain ⟨hplace, hended⟩ :=
    inPlace_statementEnd (hs.phrasal (hmoves.movesNo s)) (withinStatement_leftover s)
  rw [finishStatement_eq]
  exact ⟨hplace, fun h => hended (h.moved (hmoves.movesNo s))⟩

end

end Grammar

end LosslessBasic
