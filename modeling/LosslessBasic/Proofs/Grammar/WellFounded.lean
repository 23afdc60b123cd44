import LosslessBasic.Proofs.Grammar.Depth
import LosslessBasic.Proofs.Grammar.Succession

/-!
# Reading is well-founded

Every statement, stray closer, clause and designer block moves at least one token unless the source
has ended, every pass of a loop moves at least one or leaves the loop, and every nested reading
starts behind a token that has been moved. So the tokens ahead measure all that is left to do: no
bound of the grammar ever cuts anything short, and a source is read to its end marker
(`reading_terminates`).

What reads an operand may move nothing, and so may what reads a name. The loops around them are
stated for whatever reads the operands, so nothing hangs on it.
-/

namespace LosslessBasic

namespace Lookahead

/-- What follows the tokens of one suffix, a member or a list of arguments. Where no suffix comes
next, whether an equals sign does. -/
def suffixStep (tokens : List Token) : Grammar.Pass (List Token) Bool :=
  if isAccessSign (frontKind tokens) then
    if (frontKind tokens.tail).isMemberName then .again (tokens.drop 2) else .done false
  else
    match afterBlanks tokens with
    | [] => .done false
    | t :: rest =>
      if t.kind == .lexeme .leftParen then
        match afterGroup? 1 rest with
        | none => .done false
        | some rest => .again rest
      else .done (t.kind == .lexeme .equal)

/-- A suffix is at least one token long. -/
theorem length_lt_of_suffixStep {tokens rest : List Token} (h : suffixStep tokens = .again rest) :
    rest.length < tokens.length := by
  unfold suffixStep at h
  split at h
  next hsign =>
    split at h
    · obtain rfl := Grammar.Pass.again.inj h
      cases tokens with
      | nil => cases hsign
      | cons t tokens =>
        simp only [List.length_drop, List.length_cons]
        omega
    · cases h
  next =>
    have hle : (afterBlanks tokens).length ≤ tokens.length := (List.dropWhile_suffix _).length_le
    split at h
    · cases h
    next t more hblanks =>
      rw [hblanks, List.length_cons] at hle
      split at h
      · split at h
        · cases h
        next hgroup =>
          obtain rfl := Grammar.Pass.again.inj h
          have hlt := length_afterGroup? hgroup
          omega
      · cases h

/-- The look-ahead for an assignment goes from suffix to suffix. -/
theorem assignedAfterSuffixes_succ (passes : Nat) (tokens : List Token) :
    assignedAfterSuffixes (passes + 1) tokens =
      match suffixStep tokens with
      | .again rest => assignedAfterSuffixes passes rest
      | .done assigned => assigned := by
  rw [assignedAfterSuffixes, suffixStep]
  split
  next =>
    cases (frontKind tokens.tail).isMemberName with
    | true => rfl
    | false => rfl
  next =>
    cases afterBlanks tokens with
    | nil => rfl
    | cons t rest =>
      dsimp only
      split
      next => cases afterGroup? 1 rest <;> rfl
      next => rfl

/-- It needs no bound: under every bound that suffices for the tokens ahead, the bound suffices for
what is left behind a suffix, too. -/
theorem assignedAfterSuffixes_eq {passes : Nat} {tokens : List Token}
    (h : tokens.length < passes) :
    assignedAfterSuffixes passes tokens =
      match suffixStep tokens with
      | .again rest => assignedAfterSuffixes passes rest
      | .done assigned => assigned := by
  obtain _ | passes := passes
  · omega
  rw [assignedAfterSuffixes_succ]
  cases hstep : suffixStep tokens with
  | done assigned => rfl
  | again rest =>
    have hlt := length_lt_of_suffixStep hstep
    exact assignedAfterSuffixes_eq_of_lt (by omega) (by omega)

end Lookahead

namespace Grammar

/-- A loop that ends by itself. -/
structure EndsByItself {α β : Type} (pass : α → Production (Pass α β)) : Prop where
  /-- A pass moves at least one token or leaves the loop. -/
  remaining_lt (a a' : α) (s : State) : ((pass a).run s).1 = .again a' →
    ((pass a).run s).2.stream.remaining < s.stream.remaining
  /-- The loop is the same under every bound on its passes that is above the number of tokens ahead,
  whatever it would give if the bound ended it. -/
  run_eq (exhausted exhausted' : α → β) (n m : Nat) (a : α) (s : State) :
    s.stream.remaining < n → s.stream.remaining < m →
      (iterateUpTo exhausted pass n a).run s = (iterateUpTo exhausted' pass m a).run s

theorem EndsByItself.of_progresses {α β : Type} {pass : α → Production (Pass α β)}
    [hpass : ∀ a, Progresses (pass a)] : EndsByItself pass where
  remaining_lt a a' s := (hpass a).remaining_lt s a'
  run_eq _ _ _ _ _ _ := iterateUpTo_eq

/-- What makes the reading of every source end. -/
structure Terminates : Prop where
  /-- A statement moves a token. -/
  statement (depth : Nat) : Advances (statementUpTo depth)
  /-- A closer that no block waits for is moved. -/
  strayCloser (closer : Closer) : Advances (strayCloser closer)
  /-- A clause of a `Select Case` moves a token. -/
  caseClause (depth : Nat) : Advances (caseClause (statementUpTo depth))
  /-- A designer block moves a token. -/
  designerBlock (depth : Nat) (block : Block) : Advances (designerUpTo depth block)
  /-- The statements of a source or of a body. -/
  statements (depth : Nat) : EndsByItself (statementsPass (statementUpTo depth))
  /-- The statements in the arm of a single-line `If`. -/
  inlineStatements (depth : Nat) (endsAtElse : Bool) :
    EndsByItself (inlinePass (statementUpTo depth) endsAtElse)
  /-- The clauses and stray lines of a `Select Case`. -/
  clauses (depth : Nat) : EndsByItself (selectPass (statementUpTo depth))
  /-- The members of a type. -/
  typeMembers : EndsByItself (memberPass .type .type typeMember)
  /-- The members of an enumeration. -/
  enumMembers : EndsByItself (memberPass .enum .enum enumMember)
  /-- The lines and inner blocks of a designer block. -/
  designerLines (depth : Nat) (block : Block) :
    EndsByItself (designerPass (designerUpTo depth) block)
  /-- The arguments in parentheses, whatever reads an operand. -/
  arguments (operand : Nat → Production (Option Tree)) [∀ power, Composed false (operand power)] :
    EndsByItself (argumentPass operand)
  /-- The arguments of a command. -/
  commandArguments : EndsByItself commandArgumentPass
  /-- The dimensions of an array. -/
  arrayBounds : EndsByItself (groupPass arrayBound)
  /-- The parameters of a procedure. -/
  parameters : EndsByItself (groupPass parameter)
  /-- The operators of an expression, whatever reads an operand. -/
  operators (operand : Nat → Production (Option Tree)) [∀ power, Composed false (operand power)]
    (cp : Checkpoint) (power : Nat) : EndsByItself (operatorPass operand cp power)
  /-- The members and arguments behind an operand, whatever reads the operands in them. -/
  suffixes (operand : Nat → Production (Option Tree)) [∀ power, Composed false (operand power)]
    (cp : Checkpoint) (spacedCall : Bool) : EndsByItself (suffixPass operand cp spacedCall)
  /-- The look-ahead for an assignment passes over at least one token with each suffix. -/
  suffix_length_lt (tokens rest : List Token) :
    Lookahead.suffixStep tokens = .again rest → rest.length < tokens.length
  /-- It goes from suffix to suffix until there is none. -/
  lookahead_eq (passes : Nat) (tokens : List Token) : tokens.length < passes →
    Lookahead.assignedAfterSuffixes passes tokens =
      match Lookahead.suffixStep tokens with
      | .again rest => Lookahead.assignedAfterSuffixes passes rest
      | .done assigned => assigned
  /-- An expression reads the expressions in it as it is read itself. -/
  run_expressionAbove (power : Nat) (s : State) :
    (expressionAbove power).run s = (binaryWith expressionAbove power).run s
  /-- A designer block reads the blocks in it as it is read itself. -/
  run_designerBlock (block : Block) (s : State) :
    (Grammar.designerBlock block).run s = (within .propertiesBlock do
      shift
      shiftRest
      finishStatement
      iterate (fun _ => ()) (designerPass Grammar.designerBlock block) ()).run s
  /-- A statement reads the statements in it as it is read itself. -/
  run_statement (s : State) : Grammar.statement.run s = (statementWith Grammar.statement).run s
  /-- A source is a list of such statements. -/
  run_source (s : State) :
    source.run s = (within .root do let _ ← Grammar.statements Grammar.statement).run s
  /-- Outside of every block a list of statements stops at the end of the source and nowhere else,
  whatever it would give if its bound ended it. -/
  run_statements (s : State) : s.Outermost →
    ∃ t : State, t.AtEnd ∧ ∀ exhausted : Unit → Stop,
      (iterate exhausted (statementsPass Grammar.statement) ()).run s = (.endOfInput, t)

instance : Composed false statement := by unfold statement; infer_instance

instance : Advances statement where
  remaining_lt s hend := by
    unfold statement
    rw [run_look_bind]
    exact Advances.remaining_lt s hend

/-- Outside of every block a list of statements goes on until the source ends. -/
theorem run_statements_of_outermost {s : State} (h : s.Outermost) :
    ∃ t : State, t.AtEnd ∧ (statements statement).run s = (.endOfInput, t) := by
  -- by induction on the tokens ahead: each item of the list moves at least one
  generalize hn : s.stream.remaining = n
  induction n using Nat.strongRecOn generalizing s with
  | ind n ih =>
    by_cases hend : s.AtEnd
    · exact ⟨s, hend, run_statements_of_atEnd h hend⟩
    · have hitem : Composed false (outermostItem statement s.stream) := inferInstance
      have hlt : ((outermostItem statement s.stream).run s).2.stream.remaining <
          s.stream.remaining := Advances.remaining_lt s hend
      rw [run_statements_of_inside statement h hend]
      exact ih _ (hn ▸ hlt) (h.of_sameContext (hitem.sameContext s)) rfl

/-- Every reading moves tokens, every loop ends by itself, and a source is read to its end
marker. -/
theorem reading_terminates : Terminates where
  statement _ := inferInstance
  strayCloser _ := inferInstance
  caseClause _ := inferInstance
  designerBlock _ _ := inferInstance
  statements _ := .of_progresses
  inlineStatements _ _ := .of_progresses
  clauses _ := .of_progresses
  typeMembers := .of_progresses
  enumMembers := .of_progresses
  designerLines _ _ := .of_progresses
  arguments _ := .of_progresses
  commandArguments := .of_progresses
  arrayBounds := .of_progresses
  parameters := .of_progresses
  operators _ _ _ _ := .of_progresses
  suffixes _ _ _ _ := .of_progresses
  suffix_length_lt _ _ := Lookahead.length_lt_of_suffixStep
  lookahead_eq _ _ := Lookahead.assignedAfterSuffixes_eq
  run_expressionAbove := Grammar.run_expressionAbove
  run_designerBlock := Grammar.run_designerBlock
  run_statement := Grammar.run_statement
  run_source := run_source_statement
  run_statements s h := by
    obtain ⟨t, hend, hrun⟩ := run_statements_of_outermost h
    refine ⟨t, hend, fun exhausted => ?_⟩
    rw [← hrun]
    -- the list of statements is the same loop, with a result of its own for a bound that ends it
    unfold statements iterate
    rw [run_look_bind, run_look_bind]
    exact iterateUpTo_eq (Nat.lt_succ_self _) (Nat.lt_succ_self _)

end Grammar

end LosslessBasic
