import LosslessBasic.Proofs.Grammar.LooseLines

/-!
# Statements and their lines

A statement is a label where a line starts with what labels start with, and no label elsewhere:
where such a token comes next, what separates the statements is known (`State.KnowsStart`), and
`atLabel` asks for that and for the tokens (`atLabel_iff`). Every other statement leads from its
first word to its end.

Statements that nest deeper than the tokens ahead allow are never read. So the labels of a whole
source are found by induction on the depth, with a statement of one line at the bottom
(`plainLine`).
-/

namespace LosslessBasic.Grammar

/-! ## Labels -/

/-- What the tokens of a stream start with shows in the first two. -/
theorem startsLabel_rest (s : TokenStream) :
    StartsLabel s.rest ↔ s.current.kind = .lexeme .integerLiteral ∨
      s.current.kind = .lexeme .identifier ∧ (s.peek 1).kind = .lexeme .colon := by
  cases hahead : s.ahead with
  | nil =>
    have hlast : s.current.kind = .lexeme .endOfFile := by
      by_contra hend
      exact TokenStream.ahead_ne_nil hend hahead
    simp [StartsLabel, TokenStream.rest, hlast]
  | cons t ahead =>
    simp [StartsLabel, TokenStream.rest, TokenStream.peek_one, hahead, Lookahead.frontKind]

/-- A label comes next behind a line break, where the tokens start with one. -/
theorem atLabel_iff (s : State) :
    (atLabel.run s).1 = true ↔ s.lastSeparator = .lineBreak ∧ StartsLabel s.stream.rest := by
  rw [run_atLabel, startsLabel_rest]
  unfold startsLabel
  generalize s.lastSeparator = separator, s.stream.current.kind = kind
  split <;> simp_all

section

variable {s : State} {tokens : List Token} {flat : Prop}

theorem nameNext_of_startsLabel (hstart : s.AtStart) (hstarts : StartsLabel s.stream.rest) :
    s.NameNext := by
  unfold State.NameNext
  rw [TokenStream.peekSignificant_zero hstart.isInlineTrivia]
  exact ((startsLabel_rest s.stream).mp hstarts).elim .inr fun h => .inl h.1

/-- Trees that are no colons by themselves are no second ones. -/
theorem State.AddsAll.addsAlong {t : State} (h : s.AddsAll Tree.IsNoColon t) :
    s.AddsAlong (Tree.ColonRule tokens) t := by
  obtain ⟨trees, hadds, htrees⟩ := h
  exact ⟨trees, hadds, Tree.along_of_forall fun c hc _ htoken hcolon =>
    absurd hcolon (htrees c hc htoken)⟩

/-- Where part of a label leads: its colon is no second one, and what is known between statements is
known behind it. -/
structure State.ReadsLabel (tokens : List Token) (flat : Prop) (s t : State) : Prop where
  addsAlong : s.AddsAlong (Tree.ColonRule tokens) t
  inPlace : t.InPlace tokens flat
  knowsLine : t.KnowsLine

/-- Behind the name of a label its line does not start again, and the colon behind it is moved with
it. -/
theorem readsLabel_labelName (hs : s.InPlace tokens flat) (hstart : s.AtStart) :
    s.ReadsLabel tokens flat (labelName.run s).2 := by
  have hsolid := hstart.isInlineTrivia
  have hplace : State.InPlace tokens flat ((setSeparator .none).run s.shifted).2 :=
    (hs.shifted hstart.not_atEnd).setSeparator fun _ _ => nofun
  have hname : s.AddsAlong (Tree.ColonRule tokens) ((setSeparator .none).run s.shifted).2 :=
    ⟨[.leaf s.stream.current], (State.Adds.shifted hstart.not_atEnd).trans
      (.of_silent rfl rfl rfl rfl rfl),
      fun _ hcolon => absurd hcolon hstart.ne_colon, trivial⟩
  have hnewline : s.stream.current.kind ≠ .trivia .newline := by
    intro hnewline
    have htrivia := hstart.isTrivia
    rw [hnewline] at htrivia
    cases htrivia
  -- behind the name no line starts, which is what the flag says now
  have hline : ((setSeparator .none).run s.shifted).2.KnowsLine := by
    refine ⟨fun _ => ⟨nofun, fun h => ?_⟩, fun _ =>
      State.noSecondColon_shifted hsolid hstart.ne_colon⟩
    change StartsLine s.shifted.before at h
    rw [State.before_shifted, startsLine_snoc hsolid] at h
    exact absurd h hnewline
  have hnone : ((setSeparator .none).run s.shifted).2.lastSeparator = .none := rfl
  unfold labelName atCurrent
  rw [run_bind, run_shift hstart.not_atEnd, run_bind]
  generalize ((setSeparator .none).run s.shifted).2 = t at hplace hname hline hnone
  rw [run_look_bind]
  split
  next hcolon =>
    have hkind : t.stream.current.kind = .lexeme .colon := beq_iff_eq.mp hcolon
    have hend : ¬ t.AtEnd := by simp [State.AtEnd, hkind]
    have hsecond :=
      hline.colon hnone (by rw [TokenStream.peekSignificant_zero (by rw [hkind]; rfl), hkind])
    rw [run_bind, run_shift hend]
    refine ⟨hname.trans ⟨[.leaf t.stream.current],
      (State.Adds.shifted hend).trans (.of_silent rfl rfl rfl rfl rfl), fun _ _ => ?_, trivial⟩,
      (hplace.shifted hend).setSeparator fun _ _ => nofun, State.knowsLine_behind_colon rfl ?_⟩
    · rwa [hplace.take_eq]
    · change ¬ StartsLine t.shifted.before
      rw [State.before_shifted, startsLine_snoc (by rw [hkind]; rfl), hkind]
      nofun
  next => exact ⟨hname, hplace, hline⟩

/-- A label that ends its line leads to the next one; another leads to the statement behind it. -/
theorem readsLabel_labelEnd (hs : s.InPlace tokens flat) (hline : s.KnowsLine) :
    s.ReadsLabel tokens flat (labelEnd.run s).2 := by
  have hfinish : Proceeds .inside .ended finishStatement := inferInstance
  have hadds : AddsOnly .any Tree.IsNoColon finishStatement := inferInstance
  have htest : (atStatementEnd.run s).2 = s := rfl
  unfold labelEnd atNext
  rw [run_bind, htest, run_look_bind]
  split
  next hend =>
    have hcolon : (s.stream.peekSignificant 0).kind ≠ .lexeme .colon := by
      intro hcolon
      simp [hcolon] at hend
    obtain ⟨hplace, hline'⟩ := hfinish.proceeds hs fun h => absurd h hcolon
    exact ⟨(hadds.addsAll hs.innermostInRow).addsAlong, hplace, hline'⟩
  next => exact ⟨.refl s, hs, hline⟩

/-- Where a label comes next it is read, and it is what the statement adds. -/
theorem inPlace_labelStatement (hs : s.InPlace tokens flat) (hstart : s.AtStart)
    (hline : s.KnowsLine)
    (hlabel : (atLabel.run s).1 = true) :
    (labelStatement.run s).2.InPlace tokens flat ∧ (labelStatement.run s).2.KnowsLine ∧
      ∀ n, s.Adds [n] (labelStatement.run s).2 → n.kind = .node .labelStatement := by
  obtain ⟨hseparator, hstarts⟩ := (atLabel_iff s).mp hlabel
  have hadvances : Advances (do labelName; labelEnd) := by unfold labelName labelEnd; infer_instance
  have hlt := hadvances.remaining_lt (s.opening .labelStatement) hstart.not_atEnd
  have hname := readsLabel_labelName (hs.opening .labelStatement)
    ⟨hstart.isTrivia, hstart.ne_colon, hstart.not_atEnd⟩
  have hend := readsLabel_labelEnd hname.inPlace hname.knowsLine
  obtain ⟨trees, hadds, hcolons⟩ := hname.addsAlong.trans hend.addsAlong
  have hnode := (hadds.closing_opening hs.innermostInRow).1
  -- a label is not empty, because its name is moved
  have hleaves : Tree.leavesAll trees ≠ [] := by
    intro hnil
    have hrest := congrArg List.length hadds.rest
    rw [hnil, List.nil_append, TokenStream.length_rest, TokenStream.length_rest] at hrest
    rw [run_bind] at hlt
    omega
  have hrule : Tree.LineRule tokens s.before.length .labelStatement trees := by
    refine ⟨fun _ => ⟨hleaves, ?_, ?_, hcolons⟩, nofun, nofun⟩
    · rw [hs.take_eq]
      exact (hline.start (nameNext_of_startsLabel hstart hstarts)).mp hseparator
    · rw [hs.drop_eq]
      exact hstarts
  rw [labelStatement_eq, run_within, run_bind]
  refine ⟨hend.inPlace.closing_opening hs.innermostInRow hadds hrule nofun,
    Standing.Holds.closing (c := .ended) hend.knowsLine, fun n hn => ?_⟩
  obtain rfl : n = _ := List.singleton_inj.mp (hn.unique hnode)
  exact Tree.kind_above _ _ _

end

/-! ## What a statement is -/

theorem isFree_of_rawKind? {keyword : Keyword} {k : NodeKind} (h : rawKind? keyword = some k) :
    k.isFree = true := by
  cases keyword <;> cases h <;> rfl

section

variable {s : State} {tokens : List Token} {flat : Prop}

/-- A statement that is read to its end. -/
theorem Proceeds.ended {c : Standing} {p : Production Unit} [h : Proceeds c .ended p]
    (hs : s.InPlace tokens flat) (hc : c.Holds s) :
    (p.run s).2.InPlace tokens flat ∧ (p.run s).2.KnowsLine :=
  h.proceeds hs hc

theorem inPlace_plainStatement (hs : s.InPlace tokens flat) (hword : s.AtWord) :
    (plainStatement.run s).2.InPlace tokens flat ∧ (plainStatement.run s).2.KnowsLine := by
  unfold plainStatement
  rw [run_bind, run_get]
  dsimp only
  split
  next production hreplacement =>
    unfold replacement? at hreplacement
    split_ifs at hreplacement <;> cases hreplacement <;> exact Proceeds.ended (c := .start) hs hword
  next => split_ifs <;> exact Proceeds.ended (c := .start) hs hword

/-- What is no label starts no line as labels do. -/
theorem not_startsLabel_of_atLabel (hstart : s.AtStart) (hline : s.KnowsLine)
    (hlabel : (atLabel.run s).1 = false) (hstarts : StartsLine s.before) :
    ¬ StartsLabel s.stream.rest := by
  intro hname
  rw [(atLabel_iff s).mpr ⟨(hline.start (nameNext_of_startsLabel hstart hname)).mpr hstarts,
    hname⟩] at hlabel
  cases hlabel

end

section

variable {statement : Production Unit} [LaysStatement statement] [ReadsItem statement]
  [Obeys accountLaw statement] [Composed false statement] [Advances statement]
  {s : State} {tokens : List Token} {flat : Prop}

instance : Proceeds .start .ended (modifiedStatement statement) where
  proceeds {_ _ s} hs hword := by
    have hdeclared {keyword : Keyword} (hkind : Lookahead.modifiedKind s.stream.rest =
      .keyword keyword) :
        Standing.declared.Holds s := ⟨hword, by rw [hkind]; exact not_isBoundary_keyword _⟩
    unfold modifiedStatement
    rw [run_look_bind]
    split
    case h_9 => exact Proceeds.ended (c := .start) hs hword
    all_goals next hkind => exact Proceeds.ended (c := .declared) hs (hdeclared hkind)

/-- What a keyword opens is read from the keyword to its end. -/
theorem inPlace_keywordStatement? {keyword : Keyword} {p : Production Unit}
    (h : keywordStatement? statement keyword = some p) (hs : s.InPlace tokens flat)
    (hword : s.AtWord)
    (hkeyword : s.stream.current.kind = .keyword keyword) :
    (p.run s).2.InPlace tokens flat ∧ (p.run s).2.KnowsLine := by
  unfold keywordStatement? at h
  split at h
  all_goals first
    | obtain rfl := Option.some.inj h
      exact Proceeds.ended (c := .start) hs hword
    | obtain rfl := Option.some.inj h
      exact Proceeds.ended (c := .declared) hs
        ⟨hword, by rw [modifiedKind_of_keyword hkeyword rfl]; exact not_isBoundary_keyword _⟩
    | obtain ⟨k, hk, rfl⟩ := Option.map_eq_some_iff.mp h
      have : IsTrue k.isFree := ⟨isFree_of_rawKind? hk⟩
      exact Proceeds.ended (c := .start) hs hword

instance : ReadsItem (statementAtCursor statement) where
  reads {tokens flat s} hs hstart hline := by
    have htest : (atLabel.run s).2 = s := run_atLabel_snd s
    unfold statementAtCursor
    rw [run_bind, htest]
    cases hlabel : (atLabel.run s).1 with
    | true =>
      obtain ⟨hplace, hline', hadds⟩ := inPlace_labelStatement hs hstart hline hlabel
      exact ⟨hplace, hline', fun _ _ => hadds⟩
    | false =>
      have hother (hstarts : StartsLine s.before) (hname : StartsLabel s.stream.rest) : False :=
        not_startsLabel_of_atLabel hstart hline hlabel hstarts hname
      rw [if_neg Bool.false_ne_true, run_look_bind]
      cases hopened : openedStatement? statement s.stream with
      | none =>
        obtain ⟨hplace, hline'⟩ := inPlace_plainStatement hs hstart.atWord
        exact ⟨hplace, hline', fun h h' => (hother h h').elim⟩
      | some p =>
        obtain ⟨keyword, hkeyword, -, hopened⟩ := exists_keyword_of_openedStatement? hopened
        obtain ⟨hplace, hline'⟩ := inPlace_keywordStatement? hopened hs hstart.atWord hkeyword
        exact ⟨hplace, hline', fun h h' => (hother h h').elim⟩

/-- In front of a statement no token is moved. -/
instance : ReadsItem (statementWith statement) where
  reads {tokens flat s} hs hstart hline := by
    have hskip : skipBlanks.run ((setRecovering false).run s).2 =
        ((), ((setRecovering false).run s).2) :=
      run_skipBlanks_of_significant hstart.isInlineTrivia
    have hat : ReadsItem (statementAtCursor statement) := inferInstance
    unfold statementWith current
    rw [run_bind, run_bind, hskip, run_look_bind, run_bind]
    -- the mark and the note are no part of what the statement depends on
    generalize ht : ((note .statement _).run ((setRecovering false).run s).2).2 = t
    have hback : t.Adds [] s := by rw [← ht]; exact .of_silent rfl rfl rfl rfl rfl
    have hplace : t.InPlace tokens flat := by rw [← ht]; exact hs.of_context rfl rfl rfl rfl rfl
    have hstart' : t.AtStart := by
      rw [← ht]
      exact ⟨hstart.isTrivia, hstart.ne_colon, hstart.not_atEnd⟩
    have hline' : t.KnowsLine := by
      rw [← ht]
      exact Standing.Holds.congr (c := .ended) (s := s) rfl rfl rfl hline
    have hbefore : t.before = s.before := by rw [← ht]; rfl
    have hrest : t.stream.rest = s.stream.rest := by rw [← ht]; rfl
    obtain ⟨hread, hended, hlabel⟩ := hat.reads hplace hstart' hline'
    rw [hbefore, hrest] at hlabel
    exact ⟨hread, hended, fun h h' n hn => hlabel h h' n (hback.trans hn)⟩

end

/-! ## Sources -/

/-- A label or a line without meaning, which is what is read where statements nest too deep. -/
def plainLine : Production Unit := do
  if ← atLabel then labelStatement else unknownStatement

instance : Composed false plainLine := by unfold plainLine; infer_instance

instance : Advances plainLine := by unfold plainLine unknownStatement; infer_instance

instance : Obeys accountLaw plainLine := by unfold plainLine; infer_instance

instance : LaysStatement plainLine where
  holds s hs hstart := by
    have htest : (atLabel.run s).2 = s := run_atLabel_snd s
    unfold plainLine
    rw [run_bind, htest]
    split <;> exact LaysStatement.holds s hs hstart

instance : ReadsItem plainLine where
  reads {tokens flat s} hs hstart hline := by
    have htest : (atLabel.run s).2 = s := run_atLabel_snd s
    unfold plainLine
    rw [run_bind, htest]
    cases hlabel : (atLabel.run s).1 with
    | true =>
      obtain ⟨hplace, hline', hadds⟩ := inPlace_labelStatement hs hstart hline hlabel
      exact ⟨hplace, hline', fun _ _ => hadds⟩
    | false =>
      obtain ⟨hplace, hline'⟩ :=
        Proceeds.ended (c := .start) (p := unknownStatement) hs hstart.atWord
      exact ⟨hplace, hline', fun h h' =>
        (not_startsLabel_of_atLabel hstart hline hlabel h h').elim⟩

section

variable {base : Production Unit} [Composed false base] [Advances base] [LaysStatement base]
  [Obeys accountLaw base] [ReadsItem base]

omit [LaysStatement base] [ReadsItem base] in
instance (depth : Nat) : Obeys accountLaw (statementOver base depth) := by
  induction depth with
  | zero => unfold statementOver; infer_instance
  | succ depth ih => unfold statementOver; infer_instance

instance (depth : Nat) : ReadsItem (statementOver base depth) := by
  induction depth with
  | zero => unfold statementOver; infer_instance
  | succ depth ih => unfold statementOver; infer_instance

end

/-- A source starts a line. -/
theorem knowsLine_start (stream : TokenStream) : (State.start stream).KnowsLine :=
  ⟨fun _ => ⟨fun _ => nofun, fun _ => rfl⟩, nofun⟩

theorem inPlace_start {stream : TokenStream} (hcomments : CommentsEndLines stream.rest) :
    (State.start stream).InPlace stream.rest True where
  comments := hcomments
  innermostInRow := State.innermostInRow_opening _ _
  tokens_eq := rfl
  ruled := trivial
  reported := trivial
  strays := ⟨[], List.nil_sublist _, rfl⟩
  offBreak := fun _ h => absurd h (Nat.lt_irrefl 0)

/-- The whole of a source is read item by item. -/
theorem lists_final {stream : TokenStream} (hcomments : CommentsEndLines stream.rest) :
    (State.start stream).Lists stream.rest True (State.final stream) := by
  have hnested : AgreeUpTo stream.remaining (statementUpTo (stream.remaining + 1))
      (statementOver plainLine (stream.remaining + 1)) :=
        agreeUpTo_statementOver (Nat.lt_succ_self _)
  have hagree : AgreeUpTo stream.remaining (statements (statementUpTo (stream.remaining + 1)))
      (statements (statementOver plainLine (stream.remaining + 1))) := inferInstance
  unfold State.final
  rw [hagree.run_eq (.start stream) (.inr (Nat.le_refl _))]
  exact lists_statements _ (inPlace_start hcomments) (knowsLine_start stream)

end LosslessBasic.Grammar
