import LosslessBasic.Proofs.Grammar.Layout
import LosslessBasic.Proofs.Grammar.Phrases
import LosslessBasic.Proofs.Grammar.Separation

/-!
# Soft keywords are assigned to

Where an equals sign comes next behind a soft keyword, or a member right behind it, the keyword is
no word of a statement but a variable, and what it starts is an assignment. It is read as such in
every list of statements, with any members and arguments and any well-formed value, and nothing is
reported (`softKeyword_assigned`): a soft keyword is no label, closes no block and starts no
procedure, and the look-ahead for an assignment ends where the variable does.

`LSet`, `RSet`, `Mid` and `MidB` open their statements in any case, and `Object` does in front of an
equals sign.
-/

namespace LosslessBasic

/-- Whether a tree is another one, or the first child of its top node begins with it. -/
inductive Tree.BeginsWith : Tree → Tree → Prop
  | self (n : Tree) : n.BeginsWith n
  | node (k : Kind) (a : Anchor) {c : Tree} (cs : List Tree) {n : Tree} (h : c.BeginsWith n) :
    (Tree.node k a (c :: cs)).BeginsWith n

namespace Grammar

open Lookahead

/-! ## Variables -/

instance : Refers .any :=
  .of_referToHeader (fun _ _ _ => trivial) fun sign access s =>
    ⟨(holds_referToHeader sign access s).1, trivial⟩

/-- The node of a name. -/
def nameTree (t : Token) : Tree := .above (.node .identifierExpression) {} [.leaf t]

section

variable {s t : State} {base first : Tree}

/-- A node that is put around an operand and what goes on it begins as the operand does. -/
theorem beginsWith_compositeFrom (hs : s.InnermostInRow) (h : s.Adds [base] t)
    (hfirst : base.BeginsWith first) (k : NodeKind) (p : Production Unit) [Obeys .any p] :
    ∃ n, s.Adds [n] ((compositeFrom s.builder.checkpoint k p).run t).2 ∧ n.BeginsWith first := by
  have hholds : Law.any.Holds s [base] t := ⟨h, trivial⟩
  obtain ⟨a, more, -, hadds, -⟩ := hholds.compositeFrom hs (p := p) (k := k) fun _ _ _ _ => trivial
  exact ⟨_, hadds, .node _ _ _ hfirst⟩

/-- An operand with what goes on it begins as the operand does. -/
theorem beginsWith_suffixesWith (hs : s.InnermostInRow) (h : s.Adds [base] t)
    (hfirst : base.BeginsWith first) (spacedCall : Bool) (given : Option Tree) :
    ∃ n, s.Adds [n] ((suffixesWith expressionAbove s.builder.checkpoint spacedCall given).run t).2 ∧
      n.BeginsWith first := by
  have hprogresses (given : Option Tree) :
    Progresses (suffixPass expressionAbove s.builder.checkpoint spacedCall given) := inferInstance
  generalize hn : t.stream.remaining = n
  -- by induction on the tokens ahead: each suffix moves one, and its node is put around what is
  -- there
  induction n using Nat.strongRecOn generalizing t base given with
  | ind n ih =>
    have hstep {given' : Option Tree}
        (hagain : ((suffixPass expressionAbove s.builder.checkpoint spacedCall given).run t).1 =
          .again given')
        (hnode : ∃ n, s.Adds [n]
            ((suffixPass expressionAbove s.builder.checkpoint spacedCall given).run t).2 ∧
          n.BeginsWith first) :
        ∃ n,
          s.Adds [n]
            ((suffixesWith expressionAbove s.builder.checkpoint spacedCall given).run t).2 ∧
          n.BeginsWith first := by
      obtain ⟨n, hadds, hbegins⟩ := hnode
      have hlt := (hprogresses given).remaining_lt t given' hagain
      rw [suffixesWith, run_iterate_of_again hagain]
      exact ih _ (hn ▸ hlt) hadds hbegins given' rfl
    cases hmember : (atMemberAccess.run t).1 with
    | true =>
      have hpass : (suffixPass expressionAbove s.builder.checkpoint spacedCall given).run t = _ :=
        run_suffixPass_of_member hmember
      refine hstep (by rw [hpass]) ?_
      rw [hpass]
      exact beginsWith_compositeFrom hs h hfirst _ (do shift; memberName)
    | false =>
      cases harguments : ((atArguments spacedCall).run t).1 with
      | true =>
        have hpass : (suffixPass expressionAbove s.builder.checkpoint spacedCall given).run t = _ :=
          run_suffixPass_of_arguments hmember harguments
        refine hstep (by rw [hpass]) ?_
        rw [hpass]
        exact beginsWith_compositeFrom hs h hfirst .callExpression
          (do skipBlanks; argumentListWith expressionAbove)
      | false =>
        have hpass : (suffixPass expressionAbove s.builder.checkpoint spacedCall given).run t = _ :=
          run_suffixPass_of_none hmember harguments
        rw [suffixesWith, run_iterate_of_done (by rw [hpass]), hpass]
        exact ⟨base, h, hfirst⟩

/-- A name with what goes on it adds a node that begins with the name. -/
theorem beginsWith_variable (hs : s.InnermostInRow) {target : Token} {rest : List Token}
    (h : s.stream.rest = target :: rest) (htarget : target.kind.isNameLike = true) :
    ∃ n, s.Adds [n] (variable_.run s).2 ∧ n.BeginsWith (nameTree target) := by
  have hcurrent : s.stream.current.kind = target.kind := kind_current h
  have hsolid : s.stream.current.kind.isInlineTrivia = false :=
    State.AtDesignator.significant (.inl (by rwa [hcurrent]))
  have hend : target.kind ≠ .lexeme .endOfFile :=
    ne_endOfFile_of_isMemberName (isMemberName_of_isNameLike htarget)
  have hname : nameExpression.run s = (some (nameTree target), s.past [target] [nameTree target]) :=
    run_composite_past (List.cons_ne_nil _ _)
      (run_shift_past (s := s.opening .identifierExpression) h hend)
  have hadds : s.Adds [nameTree target] (nameExpression.run s).2 := by
    have hobeys : Obeys .any nameExpression := inferInstance
    obtain ⟨trees, hadds, -⟩ := hobeys.holds s hs
    have hpending : (nameExpression.run s).2.builder.pending.toList =
        s.builder.pending.toList ++ [nameTree target] := by
      rw [hname]
      simp [State.past]
    rwa [List.append_cancel_left (hadds.pending.symm.trans hpending)] at hadds
  have hrun : variable_.run s = ((), ((suffixesWith expressionAbove s.builder.checkpoint true
      (nameExpression.run s).1).run (nameExpression.run s).2).2) := by
    unfold variable_ variableWith designatorWith
    rw [run_bind, run_bind, run_skipBlanks_of_significant hsolid, run_bind,
      run_checkpoint, run_bind, run_currentKind, hcurrent, isAccessSign_of_isNameLike htarget,
      if_neg Bool.false_ne_true,
      if_pos htarget]
    rfl
  rw [hrun]
  exact beginsWith_suffixesWith hs hadds (.self _) true _

end

/-! ## The ends of statements -/

section

variable {s : State}

/-- A state stands in front of blanks and of a token that is none. -/
theorem exists_blanks (s : State) : ∃ (blanks : Blanks) (t : Token) (rest : List Token),
    s.stream.rest = blanks.tokens ++ t :: rest ∧ t.kind.isInlineTrivia = false := by
  refine ⟨⟨s.stream.rest.takeWhile fun t => t.kind.isInlineTrivia, fun t ht => by
      simpa using List.mem_takeWhile_imp ht⟩,
    (skipBlanks.run s).2.stream.current, (skipBlanks.run s).2.stream.ahead, ?_,
    isInlineTrivia_skipBlanks s⟩
  have hbehind : (skipBlanks.run s).2.stream.current :: (skipBlanks.run s).2.stream.ahead =
      afterBlanks s.stream.rest := rest_skipBlanks s
  rw [hbehind]
  exact (List.takeWhile_append_dropWhile (p := fun t : Token => t.kind.isInlineTrivia)).symm

/-- To move a line break reports nothing. -/
theorem failures_shiftLineBreak (s : State) : (shiftLineBreak.run s).2.failures = s.failures := by
  have hbreak (s : State) : ((do
      if ← atCurrent (.trivia .newline) then
        shift
        setSeparator .lineBreak : Production Unit).run s).2.failures = s.failures := by
    rw [run_bind, Looks.run_snd (p := atCurrent _)]
    split
    · exact failures_shift s
    · rfl
  unfold shiftLineBreak
  rw [run_bind, run_currentKind]
  split
  · exact (hbreak _).trans (failures_shift s)
  · exact hbreak s

/-- The end of a statement reports nothing. -/
theorem failures_statementEnd (s : State) : (statementEnd.run s).2.failures = s.failures := by
  obtain ⟨blanks, t, rest, h, ht⟩ := exists_blanks s
  have hskip := readsTo_skipBlanks blanks ht h
  unfold statementEnd
  rw [run_bind, run_bind, run_bind, run_get]
  split
  · exact (failures_shiftLineBreak _).trans hskip.failures
  · exact hskip.failures

/-- Whether all tokens of a tree are without meaning for the grammar. -/
def IsTrivial (n : Tree) : Prop := ∀ u ∈ n.leaves, u.kind.isTrivia = true

/-- A token of trivia means nothing. -/
theorem isTrivial_leaf {t : Token} (h : t.kind.isTrivia = true) : IsTrivial (.leaf t) := by
  intro u hu
  obtain rfl := List.mem_singleton.mp hu
  exact h

/-- What is in trees that mean nothing is trivia. -/
theorem isTrivia_of_mem_leavesAll {trees : List Tree} (h : ∀ n ∈ trees, IsTrivial n) {u : Token}
    (hu : u ∈ Tree.leavesAll trees) : u.kind.isTrivia = true := by
  induction trees with
  | nil => cases hu
  | cons n trees ih =>
    rcases List.mem_append.mp hu with hn | hmore
    · exact h n (List.mem_cons_self ..) u hn
    · exact ih (fun m hm => h m (List.mem_cons_of_mem _ hm)) hmore

/-- To shift trivia in front of what means nothing adds nothing that means anything. -/
theorem isTrivial_shift {p : Production Unit} [hp : AddsOnly .any IsTrivial p]
    (hs : s.InnermostInRow)
    (h : s.stream.current.kind.isTrivia = true) :
    ∃ trees, Law.any.Holds s trees ((shift >>= fun _ => p).run s).2 ∧ ∀ n ∈ trees, IsTrivial n := by
  have hend : ¬ s.AtEnd := Kind.ne_endOfFile_of (f := Kind.isTrivia) h rfl
  have hadds : s.Adds [.leaf s.stream.current] s.shifted := .shifted hend
  obtain ⟨trees, hmore, htrees⟩ := hp.holds s.shifted (hadds.innermostInRow hs)
  rw [run_bind, run_shift hend]
  refine ⟨_, Law.Holds.trans ⟨hadds, trivial⟩ hmore, fun n hn => ?_⟩
  rcases List.mem_cons.mp hn with rfl | hn
  · exact isTrivial_leaf h
  · exact htrees n hn

instance : AddsOnly .any IsTrivial shiftLineBreak := by
  have hbreak : AddsOnly .any IsTrivial (do
      if ← atCurrent (.trivia .newline) then
        shift
        setSeparator .lineBreak) := by
    refine ⟨fun s hs => ?_⟩
    rw [run_bind, Looks.run_snd (p := atCurrent _)]
    split
    next hnewline =>
      have hkind : s.stream.current.kind = .trivia .newline := beq_iff_eq.mp hnewline
      exact isTrivial_shift hs (by rw [hkind]; rfl)
    next => exact ⟨[], .refl s, by simp⟩
  refine ⟨fun s hs => ?_⟩
  unfold shiftLineBreak
  rw [run_bind, run_currentKind]
  split
  next hcomment =>
    refine isTrivial_shift hs ?_
    revert hcomment
    cases s.stream.current.kind <;> simp [Kind.isComment, Kind.isTrivia]
  next => exact hbreak.holds s hs

/-- What ends a statement is without meaning for the grammar. -/
instance : AddsOnly .any IsTrivial statementEnd := by
  have hblanks : AddsOnly .any IsTrivial skipBlanks :=
    .mono (P := (·.isBlank = true)) inferInstance fun n hn => by
      cases n with
      | node => cases hn
      | leaf t =>
        refine isTrivial_leaf ?_
        change t.kind.isInlineTrivia = true at hn
        revert hn
        cases t.kind <;> simp [Kind.isInlineTrivia, Kind.isTrivia]
  unfold statementEnd
  infer_instance

/-- What ends a statement ends an expression. -/
theorem endsExpression_of_endsStatement {k : Kind} {lineMode : Nat}
    (h : endsStatement k lineMode = true) :
    EndsExpression 0 k := by
  unfold endsStatement at h
  split at h
  case h_7 => cases h
  all_goals exact ⟨⟨rfl, rfl, by decide⟩, fun _ hq => by cases hq⟩

end

/-! ## Assignments -/

/-- A token with members and arguments behind it, an equals sign and a value, in front of what ends
a statement. -/
structure State.AtTarget (s : State) (target : Token) (chain : List Token) (before : Blanks)
    (sign : Token)
    (after : Blanks) (value rest : List Token) : Prop where
  tokens : s.stream.rest =
    target :: (chain ++ (before.tokens ++ sign :: (after.tokens ++ (value ++ rest))))
  suffixes : IsSuffixes (IsExpression (s.withTargets ≠ []) 0) true chain
  equal : sign.kind = .lexeme .equal
  expression : IsExpression (s.withTargets ≠ []) 0 value
  ends : endsStatement (solidKind rest) s.lineMode = true

/-- Between two states one assignment has been added, without a failure: it begins with the name
`target`, and it has the given tokens and, behind them, those that end the statement. -/
structure State.Assigns (s : State) (target : Token) (tokens : List Token) (t : State) : Prop where
  failures : t.failures = s.failures
  node : ∃ (n : Tree) (trailing : List Token), s.Adds [n] t ∧ n.kind = .node .assignmentStatement ∧
    n.BeginsWith (nameTree target) ∧ n.leaves = tokens ++ trailing ∧
      ∀ u ∈ trailing, u.kind.isTrivia = true

section

variable {s : State} {target sign : Token} {chain value rest : List Token} {before after : Blanks}

namespace State.AtTarget

/-- The states behind the variable, the equals sign and the value. -/
theorem readsTo_variable (h : s.AtTarget target chain before sign after value rest)
    (htarget : target.kind.isNameLike = true) :
    s.ReadsTo (before.tokens ++ sign :: (after.tokens ++ (value ++ rest))) (variable_.run s).2 :=
  readsTo_designator (readsShorter _ chain.length) (.name target htarget) h.suffixes
    (Nat.le_refl _) .none
    h.tokens id (by rw [before.solidKind_eq h.equal rfl]; exact ⟨rfl, rfl, by decide⟩) .variableName

/-- Behind the variable of an assignment its sign is found. -/
theorem run_expect (h : s.AtTarget target chain before sign after value rest)
    (htarget : target.kind.isNameLike = true) :
    (expect (.lexeme .equal)).run (variable_.run s).2 =
      (true, (shiftNext.run (variable_.run s).2).2) :=
  Grammar.run_expect before h.equal rfl (h.readsTo_variable htarget).rest

/-- The sign of an assignment is read with the blanks in front of it. -/
theorem readsTo_sign (h : s.AtTarget target chain before sign after value rest)
    (htarget : target.kind.isNameLike = true) :
    s.ReadsTo (after.tokens ++ (value ++ rest)) (shiftNext.run (variable_.run s).2).2 :=
  (h.readsTo_variable htarget).trans
    (readsTo_shiftNext before h.equal rfl (by decide) (h.readsTo_variable htarget).rest)

/-- The value of an assignment is read behind its sign. -/
theorem readsTo_value (h : s.AtTarget target chain before sign after value rest)
    (htarget : target.kind.isNameLike = true) :
    s.ReadsTo rest (operand.run (shiftNext.run (variable_.run s).2).2).2 := by
  have hsign := h.readsTo_sign htarget
  refine hsign.trans (h.expression.readsTo after hsign.rest (fun hin => hsign.withTargets ▸ hin) ?_)
  exact endsExpression_of_endsStatement h.ends

/-- Nothing is left over of the statement behind the value. -/
theorem run_assignment (h : s.AtTarget target chain before sign after value rest)
    (htarget : target.kind.isNameLike = true) :
    assignment.run s = statementEnd.run (operand.run (shiftNext.run (variable_.run s).2).2).2 := by
  have hvalue := h.readsTo_value htarget
  have hended :
      (withinStatement.run (operand.run (shiftNext.run (variable_.run s).2).2).2).1 = false := by
    have hended (t : State) : (withinStatement.run t).1 =
        !endsStatement (t.stream.peekSignificant 0).kind t.lineMode := rfl
    rw [hended, kind_next hvalue.rest, hvalue.lineMode, h.ends]
    rfl
  unfold assignment
  rw [run_bind, run_bind, h.run_expect htarget]
  dsimp only
  rw [if_pos rfl, run_bind]
  exact run_finishStatement_of_ended hended

end State.AtTarget

/-- An assignment to a name is read without failure. -/
theorem assigns_assignmentStatement (hs : s.InnermostInRow)
    (h : s.AtTarget target chain before sign after value rest)
    (htarget : target.kind.isNameLike = true) :
    s.Assigns target (target :: (chain ++ (before.tokens ++ sign :: (after.tokens ++ value))))
      (assignmentStatement.run s).2 := by
  generalize hopened : s.opening .assignmentStatement = opened
  have hfailures : opened.failures = s.failures := by rw [← hopened]; rfl
  have h' : opened.AtTarget target chain before sign after value rest := by
    rw [← hopened]
    exact ⟨h.tokens, h.suffixes, h.equal, h.expression, h.ends⟩
  have hs' : opened.InnermostInRow := hopened ▸ State.innermostInRow_opening s _
  have hsign : Obeys .any shiftNext := inferInstance
  have hoperand : Obeys .any operand := inferInstance
  have htrailing : AddsOnly .any IsTrivial statementEnd := inferInstance
  -- what is read up to the end of the value
  have hread := h'.readsTo_value htarget
  obtain ⟨n, hvariable, hbegins⟩ := beginsWith_variable hs' h'.tokens htarget
  obtain ⟨trees, hadds, -⟩ := hsign.holds _ (hvariable.innermostInRow hs')
  obtain ⟨more, hmore, -⟩ := hoperand.holds _ ((hvariable.trans hadds).innermostInRow hs')
  have hvalue := (hvariable.trans hadds).trans hmore
  have hleaves : Tree.leavesAll ([n] ++ trees ++ more) =
      target :: (chain ++ (before.tokens ++ sign :: (after.tokens ++ value))) := by
    refine List.append_cancel_right (hvalue.rest.symm.trans ?_)
    rw [hread.rest, h'.tokens]
    simp
  -- and the end of the statement
  obtain ⟨last, ⟨hlast, -⟩, hlastTrivial⟩ := htrailing.holds _ (hvalue.innermostInRow hs')
  have hall := hvalue.trans hlast
  rw [← h'.run_assignment htarget, ← hopened] at hall
  have hclosed := (State.Adds.closing_opening hs hall).1
  refine ⟨?_, _, Tree.leavesAll last, hclosed, rfl, .node _ _ _ hbegins, ?_, ?_⟩
  · have hend := failures_statementEnd (operand.run (shiftNext.run (variable_.run opened).2).2).2
    rw [← h'.run_assignment htarget] at hend
    unfold assignmentStatement
    rw [run_within, hopened]
    exact hend.trans (hread.failures.trans hfailures)
  · rw [Tree.leaves_above, Tree.leavesAll_append, hleaves]
  · exact fun u hu => isTrivia_of_mem_leavesAll hlastTrivial hu

/-! ## Soft keywords -/

section

variable {keyword : Keyword}

/-- The soft keywords that are no variables in front of an equals sign. -/
def openingAnyway : List Keyword := [.lSet, .rSet, .mid, .midB, .object]

/-- Behind a soft keyword its members come right next, or the equals sign comes next. -/
theorem State.AtTarget.next (h : s.AtTarget target chain before sign after value rest)
    (hsolid : target.kind.isInlineTrivia = false) (hend : target.kind ≠ .lexeme .endOfFile)
    (hfront : chain = [] ∨ isAccessSign (frontKind chain) = true) :
    (isAccessSign (s.stream.peek 1).kind = true ∨ (s.stream.peekSignificant 1).kind =
      .lexeme .equal) ∧
      (s.stream.peekSignificant 1).kind ≠ .lexeme .leftParen := by
  rw [kind_peek_one h.tokens, kind_second h.tokens hsolid hend, List.tail_cons]
  rcases hfront with rfl | hfront
  · rw [List.nil_append, before.solidKind_eq h.equal rfl]
    exact ⟨.inr rfl, by decide⟩
  · obtain ⟨t, more, rfl⟩ : ∃ t more, chain = t :: more := by
      cases chain with
      | nil => cases hfront
      | cons t more => exact ⟨t, more, rfl⟩
    have ht : isAccessSign t.kind = true := hfront
    rw [List.cons_append,
      solidKind_cons (isInlineTrivia_of_startsExpression (startsExpression_of_isAccessSign ht))]
    refine ⟨.inl ht, fun hparen => ?_⟩
    rw [hparen] at ht
    cases ht

/-- In front of a sign of an access or of an assignment a soft keyword opens no statement of its
own. -/
theorem softKeywordOpens_of_next {stream : TokenStream} (hkeyword : keyword ∉ openingAnyway)
    (h : isAccessSign (stream.peek 1).kind = true ∨ (stream.peekSignificant 1).kind =
      .lexeme .equal) :
    softKeywordOpens keyword stream = false := by
  unfold softKeywordOpens
  split
  case h_6 =>
    rcases h with hsign | hequal
    · rw [hsign]
      rfl
    · rw [hequal]
      exact Bool.and_false _
  all_goals exact absurd (by decide) hkeyword

/-- The look-ahead sees the equals sign behind the members and arguments. -/
theorem State.AtTarget.startsAssignment (h : s.AtTarget target chain before sign after value rest)
    (htarget : target.kind.isNameLike = true) (hrecovering : s.recovering = false) :
    Lookahead.startsAssignment s.stream = true := by
  have hsolid := isInlineTrivia_of_startsExpression (startsExpression_of_isNameLike htarget)
  have hname := readsTo_nameExpression h.tokens
    (ne_endOfFile_of_isMemberName (isMemberName_of_isNameLike htarget))
  have hequal := before.solidKind_eq h.equal rfl (after.tokens ++ (value ++ rest))
  have hread := readsTo_suffixes (readsShorter _ chain.length) h.suffixes (Nat.le_refl _) hname.rest
    (fun hin => hname.withTargets ▸ hin) (by rw [hequal]; exact ⟨rfl, rfl, by decide⟩)
      s.builder.checkpoint none
  have hlength := congrArg List.length h.tokens
  rw [TokenStream.length_rest, List.length_cons] at hlength
  have hpasses : (nameExpression.run s).2.stream.rest.length < s.stream.remaining + 1 := by
    rw [hname.rest]
    omega
  have hassigned := assignedAfterSuffixes_eq hpasses
    (hread.recovering.trans (hname.recovering.trans hrecovering))
  rw [kind_next hread.rest, hequal, hname.rest] at hassigned
  unfold Lookahead.startsAssignment
  rw [h.tokens, afterBlanks_cons hsolid]
  dsimp only
  rw [isAccessSign_of_isNameLike htarget, if_neg Bool.false_ne_true, htarget, hassigned]
  rfl

/-- A soft keyword that is assigned to shows an assignment. -/
theorem statementFor_softKeyword (h : s.AtTarget target chain before sign after value rest)
    (htarget : target.kind = .keyword keyword) (hsoft : keyword.isSoft = true)
    (hkeyword : keyword ∉ openingAnyway)
    (hfront : chain = [] ∨ isAccessSign (frontKind chain) = true)
    (hrecovering : s.recovering = false) (statement : Production Unit) :
    statementFor statement s = assignmentStatement := by
  have hname : target.kind.isNameLike = true := by
    rw [htarget]
    exact hsoft
  have hcurrent : s.stream.current.kind = .keyword keyword := (kind_current h.tokens).trans htarget
  obtain ⟨hnext, hparen⟩ := h.next (by rw [htarget]; rfl)
    (ne_endOfFile_of_isMemberName (isMemberName_of_isNameLike hname)) hfront
  -- it is no label, opens no statement of its own, and is not `Mid$`
  have hlabel : (atLabel.run s).1 = false := by
    rw [run_atLabel, hcurrent]
    cases s.lastSeparator <;> rfl
  have hopened : openedStatement? statement s.stream = none := by
    unfold openedStatement?
    rw [hcurrent]
    dsimp only
    rw [hsoft, softKeywordOpens_of_next hkeyword hnext]
    rfl
  have hreplacement : replacement? s.stream = none := by
    unfold replacement?
    rw [beq_false_of_ne hparen]
    rfl
  unfold statementFor plainStatementFor
  rw [hlabel, hopened, hreplacement, h.startsAssignment hname hrecovering]
  rfl

/-- A statement that starts with a soft keyword that is assigned to is one assignment, and closes no
loop. -/
theorem assigns_statementWith (hs : s.InnermostInRow)
    (h : s.AtTarget target chain before sign after value rest)
    (htarget : target.kind = .keyword keyword)
    (hsoft : keyword.isSoft = true) (hkeyword : keyword ∉ openingAnyway)
    (hfront : chain = [] ∨ isAccessSign (frontKind chain) = true) (statement : Production Unit) :
    s.Assigns target (target :: (chain ++ (before.tokens ++ sign :: (after.tokens ++ value))))
        ((statementWith statement).run s).2 ∧
      ((statementWith statement).run s).2.pendingNext = s.pendingNext := by
  have hname : target.kind.isNameLike = true := by
    rw [htarget]
    exact hsoft
  have hcurrent : s.stream.current = target := TokenStream.current_of_rest h.tokens
  -- the state in which the token at the cursor is judged
  generalize hbegun : { s with recovering := false, log := s.log.push (.began .statement target) } =
    begun
  have hbegunTarget : begun.AtTarget target chain before sign after value rest := by
    rw [← hbegun]
    exact ⟨h.tokens, h.suffixes, h.equal, h.expression, h.ends⟩
  have hrun : (statementWith statement).run s = assignmentStatement.run begun := by
    have hnote : (note .statement target).run { s with recovering := false } = ((), begun) := by
      rw [← hbegun]
      rfl
    rw [statementWith_eq, run_bind, run_startStatement (by rw [hcurrent, htarget]; rfl),
      hcurrent, hnote, run_statementAtCursor,
      statementFor_softKeyword hbegunTarget htarget hsoft hkeyword hfront (by rw [← hbegun])]
  have hsilent : s.Adds [] begun := by
    rw [← hbegun]
    exact .of_silent rfl rfl rfl rfl rfl
  have hsimple : Composed true assignmentStatement := inferInstance
  have hread := assigns_assignmentStatement (hsilent.innermostInRow hs) hbegunTarget hname
  obtain ⟨n, trailing, hadds, hnode⟩ := hread.node
  rw [hrun]
  exact ⟨⟨hread.failures.trans (by rw [← hbegun]), n, trailing, hsilent.trans hadds, hnode⟩,
    (hsimple.pendingNext_eq rfl begun).trans (by rw [← hbegun])⟩

/-- A soft keyword closes no block. -/
theorem ofKinds?_of_isSoft (hsoft : keyword.isSoft = true) (second : Kind) :
    Closer.ofKinds? (.keyword keyword) second = none := by
  unfold Closer.ofKinds?
  split
  case h_8 => rfl
  all_goals
    rename_i h
    cases h
    cases hsoft

/-- A soft keyword starts no procedure. -/
theorem startsProcedure_of_isSoft {tokens : List Token} (htarget : target.kind = .keyword keyword)
    (hsoft : keyword.isSoft = true) : Lookahead.startsProcedure (target :: tokens) = false := by
  have hmodifier : (target.kind.isInlineTrivia || isModifier target.kind) = false := by
    rw [htarget]
    revert hsoft
    cases keyword <;> simp [Keyword.isSoft, Kind.isInlineTrivia, isModifier]
  unfold Lookahead.startsProcedure afterModifiers
  rw [List.dropWhile_cons_of_neg (by rw [hmodifier]; exact Bool.false_ne_true)]
  dsimp only
  rw [htarget]
  split
  case h_4 => rfl
  all_goals
    rename_i h
    cases h
    cases hsoft

/-- A keyword is no lexeme. -/
theorem keyword_beq_lexeme (keyword : Keyword) (l : Lexeme) :
    (Kind.keyword keyword == .lexeme l) = false := rfl

theorem isTrivia_keyword (keyword : Keyword) : (Kind.keyword keyword).isTrivia = false := rfl

theorem isInlineTrivia_keyword (keyword : Keyword) :
    (Kind.keyword keyword).isInlineTrivia = false := rfl

/-- A soft keyword is read as a statement by the lists of statements. -/
theorem run_statementsPass_of_isSoft (htarget : s.stream.current.kind = .keyword keyword)
    (hsoft : keyword.isSoft = true) (statement : Production Unit) :
    (statementsPass statement ()).run s = (statementPass statement).run s := by
  have hnext : s.stream.peekSignificant 0 = s.stream.current :=
    TokenStream.peekSignificant_zero (by rw [htarget]; rfl)
  have hcloser : nextCloser?.run s = (none, s) := by
    rw [nextCloser?, run_look, hnext, htarget, ofKinds?_of_isSoft hsoft]
  have hinside : insideProcedure.run s = (s.blocks.any (·.isProcedure), s) := rfl
  have hprocedure : atProcedureHeader.run s = (false, s) := by
    rw [atProcedureHeader, run_look, TokenStream.rest, startsProcedure_of_isSoft htarget hsoft]
  have hline : endsInlineList (.keyword keyword) = false := by
    revert hsoft
    cases keyword <;> simp [Keyword.isSoft, endsInlineList]
  have hlist : (listPass statement).run s = (statementPass statement).run s := by
    unfold listPass
    rw [run_bind, run_currentKind]
    dsimp only
    rw [htarget, isTrivia_keyword, if_neg Bool.false_ne_true, keyword_beq_lexeme,
      if_neg Bool.false_ne_true, run_bind, hcloser]
    unfold closerOrStatementPass
    rw [run_bind, run_bind, hinside]
    dsimp only
    rw [hprocedure, Bool.and_false, if_neg Bool.false_ne_true]
  unfold statementsPass current
  rw [run_look_bind, htarget, keyword_beq_lexeme, if_neg Bool.false_ne_true, run_bind,
    run_get, hline, Bool.and_false, if_neg Bool.false_ne_true]
  exact hlist

/-- A soft keyword is read as a statement in the arms of a single-line `If`. -/
theorem run_inlinePass_of_isSoft (htarget : s.stream.current.kind = .keyword keyword)
    (hsoft : keyword.isSoft = true) (statement : Production Unit) (endsAtElse : Bool) :
    (inlinePass statement endsAtElse ()).run s = (.again (), (statement.run s).2) := by
  have helse : keyword ≠ .else_ := by
    rintro rfl
    cases hsoft
  have hbreak : (Kind.keyword keyword == .trivia .newline || (Kind.keyword keyword).isComment) =
      false := rfl
  unfold inlinePass
  rw [run_bind, run_currentKind]
  dsimp only
  rw [htarget, keyword_beq_lexeme, if_neg Bool.false_ne_true, hbreak, if_neg Bool.false_ne_true,
    isInlineTrivia_keyword, if_neg Bool.false_ne_true, keyword_beq_lexeme,
    if_neg Bool.false_ne_true,
    if_neg (by simpa using helse)]
  rfl

/-- A soft keyword with members and arguments behind it is assigned to, in the list of statements of
a source or of a block and in the arms of a single-line `If`: the statement is read as one
assignment, without failure, and the list goes on behind it. -/
theorem softKeyword_assigned (hs : s.InnermostInRow)
    (h : s.AtTarget target chain before sign after value rest)
    (htarget : target.kind = .keyword keyword)
    (hsoft : keyword.isSoft = true) (hkeyword : keyword ∉ openingAnyway)
    (hfront : chain = [] ∨ isAccessSign (frontKind chain) = true) (statement : Production Unit) :
    let tokens := target :: (chain ++ (before.tokens ++ sign :: (after.tokens ++ value)))
    let listed := (statementsPass (statementWith statement) ()).run s
    s.Assigns target tokens listed.2 ∧ (s.pendingNext = 0 → listed.1 = .again ()) ∧
      ∀ endsAtElse : Bool,
        let inline := (inlinePass (statementWith statement) endsAtElse ()).run s
        s.Assigns target tokens inline.2 ∧ inline.1 = .again () := by
  intro tokens listed
  have hcurrent : s.stream.current.kind = .keyword keyword := (kind_current h.tokens).trans htarget
  obtain ⟨hassigns, hpending⟩ := assigns_statementWith hs h htarget hsoft hkeyword hfront statement
  have hlisted : listed = (statementPass (statementWith statement)).run s :=
    run_statementsPass_of_isSoft hcurrent hsoft _
  -- in a list of statements, where such a list goes on, and in an arm of a line
  refine ⟨?_, fun hnone => ?_, fun endsAtElse => ?_⟩
  · rw [hlisted]
    unfold statementPass
    rw [run_bind, run_bind, run_get]
    split
    · obtain ⟨hfailures, n, trailing, hadds, hnode⟩ := hassigns
      exact ⟨hfailures, n, trailing, hadds.trans (.of_silent rfl rfl rfl rfl rfl), hnode⟩
    · exact hassigns
  · rw [hlisted]
    unfold statementPass
    rw [run_bind, run_bind, run_get, if_neg]
    · rfl
    · rw [hpending, hnone]
      exact Bool.false_ne_true
  · rw [run_inlinePass_of_isSoft hcurrent hsoft]
    exact ⟨hassigns, rfl⟩

/-- `Width.Name(1)=-2^x` is read as an assignment to a member of a variable. -/
theorem softKeyword_assigned_width :
    let word (keyword : Keyword) : Token := { kind := .keyword keyword }
    let lexeme (l : Lexeme) : Token := { kind := .lexeme l }
    let chain :=
      [lexeme .period, word .name, lexeme .leftParen, lexeme .integerLiteral, lexeme .rightParen]
    let value := [lexeme .minus, lexeme .integerLiteral, lexeme .caret, lexeme .identifier]
    let tokens := word .width :: (chain ++ lexeme .equal :: value)
    let marker : Token := {}
    let s := (State.start (.ofTokens (tokens ++ [marker]))).opening .root
    s.AtTarget (word .width) chain .none (lexeme .equal) .none value [marker] ∧
      Keyword.isSoft .width = true ∧ .width ∉ openingAnyway ∧
        isAccessSign (frontKind chain) = true ∧
      s.Assigns (word .width) tokens ((statementsPass (statementWith statement) ()).run s).2 := by
  intro word lexeme chain value tokens marker s
  have hone : IsExpression (s.withTargets ≠ []) 0 [lexeme .integerLiteral] :=
    .operand (.primary (.literal _ rfl) .none)
  have hchain : IsSuffixes (IsExpression (s.withTargets ≠ []) 0) true chain :=
    .member _ rfl _ rfl
      (.arguments .none (fun _ => rfl) _
        rfl (.last .none (.passed (.placed hone)) .none _ rfl) .none)
  have hvalue : IsExpression (s.withTargets ≠ []) 0 value :=
    .prefixed _ 13 rfl (by decide) .none
      (.joined (.primary (.literal _ rfl) .none) .none _ 14 rfl (by decide) .none
        (.operand (.primary (.designator (.name _ rfl)) .none)))
  have htarget : s.AtTarget (word .width) chain .none (lexeme .equal) .none value [marker] :=
    ⟨rfl, hchain, rfl, hvalue, rfl⟩
  refine ⟨htarget, rfl, by decide, rfl, ?_⟩
  exact (softKeyword_assigned (State.innermostInRow_opening _ _) htarget
    rfl rfl (by decide) (.inr rfl)
    statement).1

end

end

end Grammar

end LosslessBasic
