import LosslessBasic.Document
import LosslessBasic.Proofs.Grammar.Powers
import LosslessBasic.Proofs.Grammar.Source

/-!
# Assignments of operations

A source that assigns operands with operators between and in front of them is read without failure,
and the tree on the right side is the one that the binding powers prescribe
(`Document.assignment_bound`): it is the tree of a bound operation, and of all bound operations with
the same tokens.
-/

namespace LosslessBasic

/-- Behind a word and blanks the next word is the one that follows them. -/
theorem TokenStream.peekSignificant_one_of_rest {s : TokenStream} {blanks : List Token}
    {t u : Token}
    {rest : List Token} (hblanks : ∀ u ∈ blanks, u.kind.isInlineTrivia = true)
    (ht : t.kind.isInlineTrivia = false) (hu : u.kind.isInlineTrivia = false)
    (h : s.rest = t :: (blanks ++ u :: rest)) : s.peekSignificant 1 = u := by
  have hahead : s.ahead ≠ [] := by
    rw [(List.cons.inj h).2]
    simp
  have hcurrent := current_of_rest h
  have hrest := rest_advance hahead
  rw [h, hcurrent] at hrest
  rw [← peekSignificant_advance_succ (by rw [hcurrent, ht]) hahead]
  exact peekSignificant_zero_of_rest hblanks hu (List.cons.inj hrest).2.symm

namespace Grammar

/-- At the end of the source a statement ends without anything left over. -/
theorem run_finishStatement_of_atEnd {s : State} (hend : s.AtEnd) :
    finishStatement.run s = ((), { s with lastSeparator := .none }) := by
  have hwithin : withinStatement.run s = (false, s) := by
    change (!endsStatement (s.stream.peekSignificant 0).kind s.lineMode, s) = _
    rw [kind_peekSignificant_of_atEnd hend]
    rfl
  have hskip : skipBlanks.run s = ((), s) := run_skipBlanks_of_significant (by rw [hend]; rfl)
  have hbreak : shiftLineBreak.run { s with lastSeparator := .none } =
      ((), { s with lastSeparator := .none }) := by
    unfold shiftLineBreak currentKind atCurrent
    rw [run_look_bind]
    dsimp only
    rw [hend, if_neg (by decide), run_look_bind]
    dsimp only
    rw [hend]
    rfl
  unfold finishStatement
  rw [run_bind, hwithin]
  dsimp only
  rw [if_neg Bool.false_ne_true, run_bind, run_bind, hskip, run_bind]
  change (get >>= fun s : State => if (s.lineMode == 0) = true then shiftLineBreak else pure ()).run
    { s with lastSeparator := .none } = _
  rw [run_bind, run_get]
  dsimp only
  split
  · exact hbreak
  · rfl

/-- The tree of an assignment. -/
def assignmentTree (target : Token) (before : Blanks) (sign : Token) (after : Blanks)
    (value : Tree) :
    Tree :=
  .above (.node .assignmentStatement) {}
    (.above (.node .identifierExpression) {} [.leaf target] :: (before.tokens.map .leaf ++
      .leaf sign :: (after.tokens.map .leaf ++ [value])))

/-- The value stands behind everything else in an assignment. -/
theorem assignmentTree_value {target sign : Token} {before after after' : Blanks}
    {value value' : Tree}
    (h : assignmentTree target before sign after value =
      assignmentTree target before sign after' value') : value = value' := by
  have hlast := congrArg (fun t => t.children.getLast?) h
  simpa [assignmentTree, Tree.above, Tree.children, List.getLast?_cons, List.getLast?_append]
    using hlast

section

variable {s : State} {target sign marker : Token} {before after : Blanks} {e : Operation}

/-- A source that assigns an operation. -/
structure State.AtAssignment (s : State) (target : Token) (before : Blanks) (sign : Token)
    (after : Blanks) (e : Operation) (marker : Token) : Prop where
  rest : s.stream.rest = target :: (before.tokens ++
    sign :: (after.tokens ++ (e.tokens ++ [marker])))
  target : target.kind = .lexeme .identifier
  sign : sign.kind = .lexeme .equal
  marker : marker.kind = .lexeme .endOfFile

/-- In front of an assignment sign an operand ends. -/
theorem endsOperand_equal : EndsOperand (.lexeme .equal) := ⟨rfl, rfl, by simp⟩

/-- In front of the end of the source an operand ends. -/
theorem endsOperand_endOfFile : EndsOperand (.lexeme .endOfFile) := ⟨rfl, rfl, by simp⟩

/-- A name is read as the variable when no member or argument goes on behind it. -/
theorem run_variable_past {blanks : Blanks} {t u : Token} {rest : List Token}
    (ht : t.kind = .lexeme .identifier) (hu : EndsOperand u.kind)
    (hrest : s.stream.rest = t :: (blanks.tokens ++ u :: rest)) :
    variable_.run s = ((), s.past [t] [.above (.node .identifierExpression) {} [.leaf t]]) := by
  have hcurrent : s.stream.current = t := TokenStream.current_of_rest hrest
  have hskip : skipBlanks.run s = ((), s) :=
    run_skipBlanks_of_significant (by rw [hcurrent, ht]; rfl)
  have hname : nameExpression.run s =
      (some (.above (.node .identifierExpression) {} [.leaf t]),
        s.past [t] [.above (.node .identifierExpression) {} [.leaf t]]) :=
    run_composite_past (List.cons_ne_nil _ _)
      (run_shift_past (s := s.opening .identifierExpression) hrest (by simp [ht]))
  have hpast : (s.past [t] [.above (.node .identifierExpression) {} [.leaf t]]).stream.rest =
      blanks.tokens ++ u :: rest := State.rest_past_singleton hrest (by simp) _
  unfold variable_ variableWith designatorWith
  rw [run_bind, run_bind, hskip, run_bind, run_checkpoint, run_bind, run_currentKind, hcurrent, ht]
  dsimp only
  rw [if_neg (by decide), if_pos (by decide), run_bind, hname,
    run_suffixesWith_of_endsOperand hu hpast]
  rfl

/-- A token that is asked for is moved with the trivia before it. -/
theorem run_expect_past {k : Kind} {t : Token} {rest : List Token} (blanks : Blanks)
    (ht : t.kind = k) (hsolid : k.isInlineTrivia = false) (hend : k ≠ .lexeme .endOfFile)
    (hrest : s.stream.rest = blanks.tokens ++ t :: rest) :
    (expect k).run s =
      (true, s.past (blanks.tokens ++ [t]) (blanks.tokens.map .leaf ++ [.leaf t])) := by
  subst ht
  have hnext : (atNext t.kind).run s = (true, s) := by
    rw [atNext, run_look, TokenStream.peekSignificant_zero_of_rest blanks.inline hsolid hrest,
      beq_self_eq_true]
  unfold expect accept
  rw [run_bind, run_bind, hnext]
  dsimp only
  rw [if_pos rfl, run_bind, run_shiftNext_past blanks hsolid hend hrest]
  rfl

/-- The tokens of a bound operation in front of the end of the source are read as its tree. -/
theorem run_operand_past (he : e.Bound) (hs : s.InnermostInRow)
    (hmarker : marker.kind = .lexeme .endOfFile)
    (hrest : s.stream.rest = after.tokens ++ (e.tokens ++ [marker])) :
    operand.run s =
      ((), s.past (after.tokens ++ e.tokens) (after.tokens.map .leaf ++ [e.tree])) := by
  have hends : EndsOperand marker.kind := hmarker ▸ endsOperand_endOfFile
  have hpower (q : Nat) (hq : Operator.binaryPower? marker.kind = some q) : False := by
    rw [hmarker] at hq
    cases hq
  have hbehind : s.stream.rest =
      after.tokens ++ (e.tokens ++ (Blanks.none.tokens ++ marker :: [])) := hrest
  have hread := he.isReached.run_binaryUpTo hbehind hs hends (fun q hq => (hpower q hq).elim)
    (fun _ _ => Nat.zero_le _) (Nat.lt_succ_self _)
  unfold operand expression expressionAbove
  rw [run_bind, run_look_bind, hread]
  rfl

/-- An assignment goes past its variable, its sign and its value. -/
theorem run_assignmentStatement (h : s.AtAssignment target before sign after e marker)
    (he : e.Bound) :
    assignmentStatement.run s =
      ((), { s.past (target :: (before.tokens ++ sign :: (after.tokens ++ e.tokens)))
          [assignmentTree target before sign after e.tree] with lastSeparator := .none }) := by
  -- the variable leads to `s₁`, and the sign to `s₂`, from where the value is read
  have hsign : EndsOperand sign.kind := h.sign ▸ endsOperand_equal
  have hvariable := run_variable_past (s := s.opening .assignmentStatement) h.target hsign h.rest
  generalize hs₁ : (s.opening .assignmentStatement).past [target]
    [.above (.node .identifierExpression) {} [.leaf target]] = s₁ at hvariable
  have hrest₁ :
      s₁.stream.rest = before.tokens ++ sign :: (after.tokens ++ (e.tokens ++ [marker])) := by
    rw [← hs₁]
    exact State.rest_past_singleton (s := s.opening .assignmentStatement) h.rest (by simp) _
  have hexpect := run_expect_past before h.sign rfl (by simp) hrest₁
  generalize hs₂ : s₁.past (before.tokens ++ [sign]) (before.tokens.map .leaf ++ [.leaf sign]) = s₂
    at hexpect
  have hrest₂ : s₂.stream.rest = after.tokens ++ (e.tokens ++ [marker]) := by
    rw [← hs₂]
    exact State.rest_past (by simpa using hrest₁) (by simp) _
  have hs : s₂.InnermostInRow := by
    rw [← hs₂, ← hs₁]
    exact ((State.innermostInRow_opening s _).past _ _).past _ _
  have hoperand := run_operand_past he hs h.marker hrest₂
  generalize hs₃ : s₂.past (after.tokens ++ e.tokens) (after.tokens.map .leaf ++ [e.tree]) = s₃
    at hoperand
  have hrest₃ : s₃.stream.rest = [marker] := by
    rw [← hs₃]
    exact State.rest_past (by simpa using hrest₂) (by simp) _
  have hfinish := run_finishStatement_of_atEnd (s := s₃) (by
    rw [State.AtEnd, TokenStream.current_of_rest hrest₃, h.marker])
  have hbody : assignment.run (s.opening .assignmentStatement) =
      ((), { s₃ with lastSeparator := .none }) := by
    unfold assignment
    rw [run_bind, hvariable, run_bind, hexpect]
    dsimp only
    rw [if_pos rfl, run_bind, hoperand]
    exact hfinish
  refine run_within_past (List.cons_ne_nil _ _) ?_
  rw [hbody, ← hs₃, ← hs₂, ← hs₁, State.past_past, State.past_past]
  simp

/-- The token behind the cursor is the second of the rest. -/
theorem peek_one_of_rest {s : TokenStream} {t u : Token} {rest : List Token}
    (h : s.rest = t :: u :: rest) : s.peek 1 = u :=
  TokenStream.peek_eq_of_getElem? (by rw [h]; rfl)

/-- A name in front of an equals sign is no label. -/
theorem run_atLabel_assignment (h : s.AtAssignment target before sign after e marker) :
    atLabel.run s = (false, s) := by
  have hcurrent : s.stream.current.kind = .lexeme .identifier := by
    rw [TokenStream.current_of_rest h.rest, h.target]
  have hcolon : ((s.stream.peek 1).kind == .lexeme .colon) = false := by
    obtain ⟨tokens, hinline⟩ := before
    cases tokens with
    | nil =>
      rw [peek_one_of_rest h.rest, h.sign]
      rfl
    | cons u tokens =>
      have hu : u.kind.isInlineTrivia = true := hinline u (List.mem_cons_self ..)
      rw [peek_one_of_rest h.rest, beq_eq_false_iff_ne]
      intro hcolon
      rw [hcolon] at hu
      cases hu
  unfold atLabel
  rw [run_bind, run_get]
  dsimp only
  rw [hcurrent]
  cases s.lastSeparator with
  | none | colon => rfl
  | lineBreak => exact congrArg (·, s) hcolon

/-- The equals sign behind the name shows that it is assigned to. -/
theorem startsAssignment_assignment (h : s.AtAssignment target before sign after e marker) :
    Lookahead.startsAssignment s.stream = true := by
  have hblank : target.kind.isInlineTrivia = false := by rw [h.target]; rfl
  have hfront : Lookahead.afterBlanks (before.tokens ++
      sign :: (after.tokens ++ (e.tokens ++ [marker]))) =
        sign :: (after.tokens ++ (e.tokens ++ [marker])) := by
    unfold Lookahead.afterBlanks
    rw [List.dropWhile_append_of_pos before.inline,
      List.dropWhile_cons_of_neg (by simp [h.sign, Kind.isInlineTrivia])]
  have hsuffix : Lookahead.isAccessSign (Lookahead.frontKind (before.tokens ++
      sign :: (after.tokens ++ (e.tokens ++ [marker])))) = false := by
    obtain ⟨tokens, hinline⟩ := before
    cases tokens with
    | nil =>
      change Lookahead.isAccessSign sign.kind = false
      rw [h.sign]
      rfl
    | cons u tokens =>
      have hu : u.kind.isInlineTrivia = true := hinline u (List.mem_cons_self ..)
      change Lookahead.isAccessSign u.kind = false
      revert hu
      cases u.kind <;> simp [Kind.isInlineTrivia, Lookahead.isAccessSign]
  unfold Lookahead.startsAssignment
  rw [h.rest, Lookahead.afterBlanks, List.dropWhile_cons_of_neg (by simp [hblank])]
  dsimp only
  rw [h.target, if_neg (by decide), Lookahead.assignedAfterSuffixes, hsuffix,
    if_neg Bool.false_ne_true, hfront]
  dsimp only
  rw [h.sign]
  rfl

/-- The state behind the statement that assigns an operation. -/
def State.assigned (s : State) (target : Token) (before : Blanks) (sign : Token) (after : Blanks)
    (e : Operation) : State :=
  { s.past (target :: (before.tokens ++ sign :: (after.tokens ++ e.tokens)))
      [assignmentTree target before sign after e.tree] with
    recovering := false
    lastSeparator := .none
    log := s.log.push (.began .statement target) }

/-- A statement that is an assignment is read as one. -/
theorem run_statementWith_assignment (h : s.AtAssignment target before sign after e marker)
    (he : e.Bound) (statement : Production Unit) :
    (statementWith statement).run s = ((), s.assigned target before sign after e) := by
  have hcurrent : s.stream.current = target := TokenStream.current_of_rest h.rest
  generalize hs' : { s with recovering := false, log := s.log.push (.began .statement target) } = s'
  have hstream : s'.stream = s.stream := by rw [← hs']
  have h' : s'.AtAssignment target before sign after e marker :=
    ⟨by rw [hstream, h.rest], h.target, h.sign, h.marker⟩
  have hblank : s.stream.current.kind.isInlineTrivia = false := by
    rw [hcurrent, h.target]
    rfl
  have hstart : (statementWith statement).run s = (statementAtCursor statement).run s' := by
    have hskip : skipBlanks.run { s with recovering := false } =
        ((), { s with recovering := false }) :=
      run_skipBlanks_of_significant hblank
    unfold statementWith
    rw [run_bind]
    change (skipBlanks >>= _).run { s with recovering := false } = _
    rw [run_bind, hskip, run_bind, ← hs', ← hcurrent]
    rfl
  -- an identifier opens no statement, and the sign behind it makes no other statement of it
  have hopened : openedStatement? statement s'.stream = none := by
    unfold openedStatement?
    rw [TokenStream.current_of_rest h'.rest, h.target]
  have hreplacement : replacement? s'.stream = none := by
    unfold replacement?
    rw [TokenStream.peekSignificant_one_of_rest before.inline (by rw [h.target]; rfl)
      (by rw [h.sign]; rfl) h'.rest, h.sign]
    rfl
  have hplain : plainStatement.run s' = assignmentStatement.run s' := by
    unfold plainStatement
    rw [run_bind, run_get]
    dsimp only
    rw [hreplacement]
    dsimp only
    rw [if_pos (startsAssignment_assignment h')]
  rw [hstart]
  unfold statementAtCursor
  rw [run_bind, run_atLabel_assignment h']
  dsimp only
  rw [if_neg Bool.false_ne_true, run_look_bind, hopened]
  change plainStatement.run s' = _
  rw [hplain, run_assignmentStatement h' he, ← hs']
  rfl

/-- A line that is an assignment is read as one, and the list goes on behind it. -/
theorem run_statementsPass_assignment (h : s.AtAssignment target before sign after e marker)
    (he : e.Bound) (hs : s.Outermost) (depth : Nat) :
    (statementsPass (statementUpTo (depth + 1)) ()).run s =
      (.again (), s.assigned target before sign after e) := by
  -- what a pass asks of the cursor before it takes the line for a statement
  have hcurrent : s.stream.current.kind = .lexeme .identifier := by
    rw [TokenStream.current_of_rest h.rest, h.target]
  have hnext : s.stream.peekSignificant 0 = s.stream.current :=
    TokenStream.peekSignificant_zero (by rw [hcurrent]; rfl)
  have hcloser : nextCloser?.run s = (none, s) := by
    rw [nextCloser?, run_look, hnext, hcurrent]
    rfl
  have hprocedure : insideProcedure.run s = (false, s) := by
    change (s.blocks.any (·.isProcedure), s) = _
    rw [hs.blocks]
    rfl
  have hstatement : (statementPass (statementUpTo (depth + 1))).run s =
      (.again (), s.assigned target before sign after e) := by
    unfold statementPass statementUpTo
    rw [run_bind, run_statementWith_assignment h he, run_bind, run_get, if_neg]
    · rfl
    · change ¬ (_ && s.blocks.head? == _) = true
      rw [hs.blocks]
      simp
  have hlist : (listPass (statementUpTo (depth + 1))).run s =
      (.again (), s.assigned target before sign after e) := by
    unfold listPass
    rw [run_bind, run_currentKind]
    dsimp only
    rw [hcurrent, if_neg (by decide), if_neg (by decide), run_bind, hcloser]
    unfold closerOrStatementPass
    rw [run_bind, hprocedure]
    exact hstatement
  unfold statementsPass current
  rw [run_look_bind, if_neg (by rw [hcurrent]; decide), run_bind, run_get,
    if_neg (by simp [hs.lineMode])]
  exact hlist

/-- At the end of the source a list of statements outside of every block ends. -/
theorem run_statementsPass_of_atEnd (hs : s.Outermost) (hend : s.AtEnd)
    (statement : Production Unit) :
    (statementsPass statement ()).run s = (.done .endOfInput, s) := by
  unfold statementsPass current reportMissingCloser
  rw [run_look_bind, if_pos (kind_current_of_atEnd hend), run_bind, run_bind, run_get]
  simp only [hs.blocks]
  rfl

/-- The statements of a source that assigns an operation. -/
theorem run_statements_assignment (h : s.AtAssignment target before sign after e marker)
    (he : e.Bound) (hs : s.Outermost) (depth : Nat) :
    ((statements (statementUpTo (depth + 1))).run s).2 = s.assigned target before sign after e := by
  have hpass := run_statementsPass_assignment h he hs depth
  have hrest : (s.assigned target before sign after e).stream.rest = [marker] :=
    State.rest_past (by simpa using h.rest) (by simp)
      [assignmentTree target before sign after e.tree]
  have hend : (s.assigned target before sign after e).AtEnd := by
    rw [State.AtEnd, TokenStream.current_of_rest hrest, h.marker]
  have hstop := run_statementsPass_of_atEnd (s := s.assigned target before sign after e)
    ⟨hs.blocks, hs.lineMode⟩ hend (statementUpTo (depth + 1))
  unfold statements
  rw [run_iterate_of_again (by rw [hpass]), hpass, run_iterate_of_done (by rw [hstop]), hstop]

end

end Grammar

namespace Document

open Grammar

/-- The tokens of a source that assigns a value. -/
def assignmentTokens (target : Token) (before : Blanks) (sign : Token) (value : List Token)
    (marker : Token) : List Token :=
  target :: (before.tokens ++ sign :: (value ++ [marker]))

variable {target sign marker : Token} {before after : Blanks} {e : Operation}

/-- The tree and the failures of a source that assigns a bound operation. -/
theorem grammarState_assignment (htarget : target.kind = .lexeme .identifier)
    (hsign : sign.kind = .lexeme .equal) (hmarker : marker.kind = .lexeme .endOfFile)
    (he : e.Bound) :
    (grammarState (assignmentTokens target before sign (after.tokens ++ e.tokens)
      marker)).failures =
        #[] ∧
      (grammarState
          (assignmentTokens target before sign (after.tokens ++ e.tokens)
            marker)).builder.finish.1 =
        some (.above (.node .root) {} [assignmentTree target before sign after e.tree]) := by
  generalize htokens : assignmentTokens target before sign (after.tokens ++ e.tokens)
    marker = tokens
  have hlast : tokens.getLast? = some marker := by
    rw [← htokens, assignmentTokens]
    simp [List.getLast?_cons, List.getLast?_append]
  have hrest : (TokenStream.ofTokens tokens).rest = tokens := by
    rw [TokenStream.rest_ofTokens (by rintro rfl; cases hlast), TokenStream.marked,
      if_pos (by simp [TokenStream.endsMarked, hlast, hmarker])]
  have hstart : (State.start (.ofTokens tokens)).AtAssignment target before sign after e marker :=
    ⟨by rw [← List.append_assoc]; exact hrest.trans htokens.symm, htarget, hsign, hmarker⟩
  have hfinal :=
    run_statements_assignment hstart he ⟨rfl, rfl⟩ (TokenStream.ofTokens tokens).remaining
  change State.final (.ofTokens tokens) = _ at hfinal
  unfold grammarState
  rw [finish_source, run_source, hfinal]
  refine ⟨rfl, congrArg some ?_⟩
  rfl

/-- The value that is assigned is read by the binding powers: without failure, to its end, and as
the tree of a bound operation. No other tree of a bound operation has the same tokens. -/
theorem assignment_bound (target : Token) (before : Blanks) (sign : Token) {value : List Token}
    (marker : Token) (htarget : target.kind = .lexeme .identifier)
    (hsign : sign.kind = .lexeme .equal)
    (hmarker : marker.kind = .lexeme .endOfFile) (hvalue : IsOperation value) :
    (grammarState (assignmentTokens target before sign value marker)).failures = #[] ∧
      ∃ (after : Blanks) (e : Operation), value = after.tokens ++ e.tokens ∧ e.Bound ∧
        (grammarState (assignmentTokens target before sign value marker)).builder.finish.1 =
          some (.above (.node .root) {} [assignmentTree target before sign after e.tree]) ∧
        ∀ (after' : Blanks) (e' : Operation), value = after'.tokens ++ e'.tokens → e'.Bound →
          e'.tree = e.tree := by
  obtain ⟨after, e, rfl, he⟩ := hvalue.exists_bound
  obtain ⟨hfailures, htree⟩ := grammarState_assignment htarget hsign hmarker he
  refine ⟨hfailures, after, e, rfl, he, htree, fun after' e' hvalue he' => ?_⟩
  obtain ⟨-, htree'⟩ := grammarState_assignment htarget hsign hmarker he'
  rw [← hvalue, htree] at htree'
  have hassignment := congrArg Tree.children (Option.some.inj htree')
  exact (assignmentTree_value (List.cons.inj hassignment).1).symm

/-- In `x=-2^2` it is the power that is negated. -/
theorem assignment_bound_negated_power :
    let two : Token := { kind := .lexeme .integerLiteral, text := [50] }
    let value : List Token := [{ kind := .lexeme .minus }, two, { kind := .lexeme .caret }, two]
    let tokens := assignmentTokens { kind := .lexeme .identifier, text := [120] } .none
      { kind := .lexeme .equal } value {}
    IsOperation value ∧ (grammarState tokens).failures = #[] ∧
      ∃ e : Operation, e.Bound ∧
        e.tree = (Operation.prefixed { kind := .lexeme .minus } 13 rfl .none
          (.joined (.operand two rfl) .none { kind := .lexeme .caret } 14 rfl .none
            (.operand two rfl))).tree := by
  intro two value tokens
  have hvalue : IsOperation value :=
    .prefixed .none _ 13 rfl (.joined .none two rfl .none _ 14 rfl (.last .none two rfl))
  obtain ⟨hfailures, after, e, -, he, -, hunique⟩ :=
    assignment_bound { kind := .lexeme .identifier, text := [120] } .none
      { kind := .lexeme .equal } {} rfl rfl rfl hvalue
  refine ⟨hvalue, hfailures, e, he, (hunique .none _ rfl ?_).symm⟩
  simp [Operation.Bound, Operation.power?, Operation.edgePowers]

end Document

end LosslessBasic
