import LosslessBasic.Proofs.Grammar.Conservation

/-!
# Progress

A statement that is read away from the end of the source moves at least one token
(`advances_statementWith`), whatever the statement is and whatever is read within it. Most
statements move their first word right away: they are instances of `Advances`. The others start with
something that the dispatch has seen before.
-/

namespace LosslessBasic.Grammar

set_option synthInstance.maxSize 65536

/-- Whether the cursor stands on the end marker. -/
def State.AtEnd (s : State) : Prop := s.stream.current.kind = .lexeme .endOfFile

/-- A production that moves a token unless the source has ended. -/
class Advances {α : Type} (p : Production α) : Prop where
  remaining_lt (s : State) : ¬ s.AtEnd → (p.run s).2.stream.remaining < s.stream.remaining

/-- A production that moves no token leaves the stream as it is. -/
theorem Composed.stream_eq_of_remaining_eq {α : Type} {p : Production α}
    (h : Composed false p) {s : State}
    (hs : (p.run s).2.stream.remaining = s.stream.remaining) :
    (p.run s).2.stream.rest = s.stream.rest := by
  obtain ⟨moved, hrest, -⟩ := (h.follows s).moved
  have hlength := congrArg List.length hrest
  simp only [TokenStream.length_rest, List.length_append] at hlength
  have hmoved : moved = [] := List.eq_nil_of_length_eq_zero (by omega)
  rw [hrest, hmoved, List.nil_append]

section

variable {α β : Type} {p q : Production α}

instance : Advances shift where
  remaining_lt s hend := by
    rw [run_shift hend]
    have := TokenStream.remaining_advance (TokenStream.ahead_ne_nil hend)
    simp only [State.shifted]
    omega

instance {f : α → Production β} [hp : Advances p] [hf : ∀ a, Composed false (f a)] :
    Advances (p >>= f) where
  remaining_lt s hend := by
    exact Nat.lt_of_le_of_lt ((hf _).follows _).remaining_le (hp.remaining_lt s hend)

instance {f : α → Production β} [hp : Composed false p] [hf : ∀ a, Composed false (f a)]
    [hadv : ∀ a, Advances (f a)] : Advances (p >>= f) where
  remaining_lt s hend := by
    rw [run_bind]
    have hmoved := (hp.follows s).remaining_le
    have hmoved' := ((hf (p.run s).1).follows (p.run s).2).remaining_le
    by_cases hstay : (p.run s).2.stream.remaining = s.stream.remaining
    · -- what moves nothing leaves the cursor where it is
      have hcurrent := TokenStream.current_eq_of_rest_eq (hp.stream_eq_of_remaining_eq hstay)
      have hlt := (hadv (p.run s).1).remaining_lt (p.run s).2 (by rwa [State.AtEnd, hcurrent])
      omega
    · omega

instance {k : NodeKind} [h : Advances p] : Advances (within k p) where
  remaining_lt s hend := h.remaining_lt (s.opening k) hend

instance {k : NodeKind} {p : Production Unit} [h : Advances p] : Advances (composite k p) where
  remaining_lt s hend := h.remaining_lt (s.opening k) hend

instance {cp : Checkpoint} {k : NodeKind} {p : Production Unit} [h : Advances p] :
    Advances (compositeFrom cp k p) where
  remaining_lt s hend := h.remaining_lt (s.openingAt cp k) hend

instance {c : Prop} [Decidable c] [hp : Advances p] [hq : Advances q] :
    Advances (if c then p else q) := by
  split <;> infer_instance

end

/-! ## Statements that move their first word right away -/

instance : Advances shiftNext := by unfold shiftNext; infer_instance

instance : Advances shiftDeclarator := by unfold shiftDeclarator; infer_instance

instance : Advances nameExpression := by unfold nameExpression; infer_instance

instance : Advances leadingAccess := by unfold leadingAccess; infer_instance

instance (k : NodeKind) : Advances (rawStatement k) := by unfold rawStatement; infer_instance

instance (k : NodeKind) : Advances (wordStatement k) := by unfold wordStatement; infer_instance

instance (k : NodeKind) : Advances (jumpStatement k) := by unfold jumpStatement; infer_instance

instance (k : NodeKind) : Advances (wordedAssignment k) := by
  unfold wordedAssignment; infer_instance

instance : Advances callKeywordStatement := by unfold callKeywordStatement; infer_instance

instance : Advances raiseEventStatement := by unfold raiseEventStatement; infer_instance

instance : Advances resumeStatement := by unfold resumeStatement; infer_instance

instance : Advances exitStatement := by unfold exitStatement; infer_instance

instance : Advances onStatement := by
  unfold onStatement onErrorStatement onJumpStatement; infer_instance

instance : Advances labelStatement := by unfold labelStatement; infer_instance

instance : Advances unexpectedStatement := by
  unfold unexpectedStatement unknownStatement; infer_instance

instance : Advances constStatement := by unfold constStatement; infer_instance

instance : Advances reDimStatement := by unfold reDimStatement; infer_instance

instance : Advances eraseStatement := by unfold eraseStatement; infer_instance

instance : Advances declareStatement := by unfold declareStatement; infer_instance

instance : Advances eventStatement := by unfold eventStatement; infer_instance

instance : Advances implementsStatement := by unfold implementsStatement; infer_instance

instance : Advances typeStatement := by unfold typeStatement; infer_instance

instance : Advances enumStatement := by unfold enumStatement; infer_instance

instance (depth : Nat) (block : Block) : Advances (designerUpTo depth block) := by
  cases depth <;> unfold designerUpTo <;> infer_instance

instance : Advances designerStatement := by unfold designerStatement; infer_instance

instance : Advances shiftTrivia := by unfold shiftTrivia; infer_instance

instance : Advances separator := by unfold separator; infer_instance

instance (closer : Closer) : Advances (strayCloser closer) := by
  unfold strayCloser unknownStatement; infer_instance

section

variable {statement : Production Unit} [Composed false statement]

instance : Advances (ifStatement statement) := by unfold ifStatement ifHeader; infer_instance

instance : Advances (selectStatement statement) := by unfold selectStatement; infer_instance

instance : Advances (forStatement statement) := by unfold forStatement; infer_instance

instance : Advances (doStatement statement) := by unfold doStatement; infer_instance

instance : Advances (whileStatement statement) := by unfold whileStatement; infer_instance

instance : Advances (withStatement statement) := by unfold withStatement; infer_instance

instance : Advances (procedure statement) := by unfold procedure; infer_instance

end

/-! ## Statements that start with a name or a modifier -/

/-- What has been moved stays moved. -/
theorem remaining_bind_lt {α β : Type} {p : Production α} {f : α → Production β}
    [hf : ∀ a, Composed false (f a)] {s : State} {n : Nat} (h : (p.run s).2.stream.remaining < n) :
    ((p >>= f).run s).2.stream.remaining < n := by
  rw [run_bind]
  exact Nat.lt_of_le_of_lt ((hf _).follows _).remaining_le h

/-- What is moved under a node is moved. -/
theorem remaining_within_lt {α : Type} {k : NodeKind} {p : Production α} {s : State} {n : Nat}
    (h : (p.run (s.opening k)).2.stream.remaining < n) :
    ((within k p).run s).2.stream.remaining < n := h

/-- Repeating a production that advances advances when there is a first pass. -/
theorem remaining_repeatWhile_lt {test : Production Bool} {body : Production Unit}
    [hbody : Advances body] [Composed false test] [Composed false body] {s : State}
    (hend : ¬ s.AtEnd)
    (htest : test.run s = (true, s)) :
    ((repeatWhile test body).run s).2.stream.remaining < s.stream.remaining := by
  have hrun : (repeatWhile test body).run s =
      (repeatWhileUpTo test body s.stream.remaining).run (body.run s).2 := by
    unfold repeatWhile
    rw [run_look_bind, repeatWhileUpTo, run_bind, htest]
    rfl
  rw [hrun]
  have hrest : Composed false (repeatWhileUpTo test body s.stream.remaining) := inferInstance
  exact Nat.lt_of_le_of_lt (hrest.follows _).remaining_le (hbody.remaining_lt s hend)

/-- A repetition without a first pass does nothing. -/
theorem run_repeatWhile_of_false {test : Production Bool} {body : Production Unit} {s : State}
    (htest : test.run s = (false, s)) : (repeatWhile test body).run s = ((), s) := by
  unfold repeatWhile
  rw [run_look_bind, repeatWhileUpTo, run_bind, htest]
  rfl

/-- Away from inline trivia there is nothing to skip. -/
theorem run_skipBlanks_of_significant {s : State}
    (h : s.stream.current.kind.isInlineTrivia = false) : skipBlanks.run s = ((), s) :=
  run_repeatWhile_of_false (by rw [run_look, h])

/-- Whether a designator starts at the cursor. -/
def State.AtDesignator (s : State) : Prop :=
  s.stream.current.kind.isNameLike = true ∨ Lookahead.isAccessSign s.stream.current.kind = true

/-- What starts a designator is no inline trivia. -/
theorem State.AtDesignator.significant {s : State} (h : s.AtDesignator) :
    s.stream.current.kind.isInlineTrivia = false := by
  rcases h with h | h <;> revert h <;> cases s.stream.current.kind <;>
    simp [Kind.isNameLike, Lookahead.isAccessSign, Kind.isInlineTrivia]

/-- What starts a designator stands in front of the end of the source. -/
theorem State.AtDesignator.not_atEnd {s : State} (h : s.AtDesignator) : ¬ s.AtEnd := by
  intro hend
  rcases h with h | h <;> rw [hend] at h <;> cases h

section

variable {statement : Production Unit} [Composed false statement]
  {operand : Nat → Production (Option Tree)} [∀ power, Composed false (operand power)]

/-- A designator moves a token. -/
theorem remaining_designatorWith_lt {s : State} (h : s.AtDesignator) (wanted : Wanted)
    (spacedCall : Bool) :
    ((designatorWith operand wanted spacedCall).run s).2.stream.remaining <
      s.stream.remaining := by
  have advances {p : Production (Option Tree)} [Advances p] :
      ((p >>= suffixesWith operand s.builder.checkpoint spacedCall).run s).2.stream.remaining <
        s.stream.remaining :=
    Advances.remaining_lt s h.not_atEnd
  unfold designatorWith
  rw [run_bind, run_skipBlanks_of_significant h.significant, run_bind, run_checkpoint, run_bind,
    run_currentKind]
  split
  next => exact advances
  next hsign =>
    rw [if_pos (h.resolve_right hsign)]
    exact advances

theorem remaining_variable_lt {s : State} (h : s.AtDesignator) :
    (variable_.run s).2.stream.remaining < s.stream.remaining := by
  unfold variable_
  refine remaining_bind_lt (p := variableWith expressionAbove) ?_
  exact remaining_designatorWith_lt h _ _

theorem remaining_callee_lt {s : State} (h : s.AtDesignator) :
    (callee.run s).2.stream.remaining < s.stream.remaining := by
  unfold callee
  refine remaining_bind_lt (p := calleeWith expressionAbove) ?_
  exact remaining_designatorWith_lt h _ _

theorem remaining_assignmentStatement_lt {s : State} (h : s.AtDesignator) :
    (assignmentStatement.run s).2.stream.remaining < s.stream.remaining := by
  unfold assignmentStatement assignment
  rw [run_within]
  refine remaining_bind_lt (p := variable_) ?_
  exact remaining_variable_lt (s := s.opening .assignmentStatement) h

theorem remaining_callStatement_lt {s : State} (h : s.AtDesignator) :
    (callStatement.run s).2.stream.remaining < s.stream.remaining := by
  unfold callStatement call
  rw [run_within]
  refine remaining_bind_lt (p := callee) ?_
  exact remaining_callee_lt (s := s.opening .callStatement) h

/-- An assignment is looked for only at a designator. -/
theorem atDesignator_of_startsAssignment {s : State}
    (h : s.stream.current.kind.isInlineTrivia = false)
    (hstarts : Lookahead.startsAssignment s.stream = true) : s.AtDesignator := by
  have hfront : Lookahead.afterBlanks s.stream.rest = s.stream.rest := by
    simp [Lookahead.afterBlanks, TokenStream.rest, h]
  unfold Lookahead.startsAssignment at hstarts
  rw [hfront, TokenStream.rest] at hstarts
  dsimp only at hstarts
  split at hstarts
  next hsign => exact .inr hsign
  next => exact .inl (Bool.and_eq_true_iff.mp hstarts).1

/-- Modifiers that come next are moved. -/
theorem remaining_shiftModifiers_lt {s : State} (hend : ¬ s.AtEnd)
    (h : Lookahead.isModifier (s.stream.peekSignificant 0).kind = true) :
    (shiftModifiers.run s).2.stream.remaining < s.stream.remaining := by
  unfold shiftModifiers
  refine remaining_repeatWhile_lt hend ?_
  change (Lookahead.isModifier (s.stream.peekSignificant 0).kind, s) = _
  rw [h]

/-- Where no modifier comes next nothing is moved. -/
theorem run_shiftModifiers_of_false {s : State}
    (h : Lookahead.isModifier (s.stream.peekSignificant 0).kind = false) :
    shiftModifiers.run s = ((), s) := by
  unfold shiftModifiers
  refine run_repeatWhile_of_false ?_
  change (Lookahead.isModifier (s.stream.peekSignificant 0).kind, s) = _
  rw [h]

/-- A word that comes next is moved where it is accepted. -/
theorem remaining_accept_lt {s : State} {k : Kind} (hend : ¬ s.AtEnd)
    (h : (s.stream.peekSignificant 0).kind = k) :
    ((accept k).run s).2.stream.remaining < s.stream.remaining := by
  have hnext : ((s.stream.peekSignificant 0).kind == k) = true := by simp [h]
  unfold accept atNext
  rw [run_look_bind, hnext]
  exact remaining_bind_lt (p := shiftNext) (Advances.remaining_lt s hend)

/-- In front of modifiers or `Dim`, one of these words is moved. -/
theorem remaining_dimWords_lt {s : State}
    (h : Lookahead.isModifier s.stream.current.kind = true ∨
      s.stream.current.kind = .keyword .dim) :
    ((shiftModifiers >>= fun _ => accept (.keyword .dim)).run s).2.stream.remaining <
      s.stream.remaining := by
  have hblank : s.stream.current.kind.isInlineTrivia = false := by
    rcases h with h | h <;> revert h <;> cases s.stream.current.kind <;>
      simp [Lookahead.isModifier, Kind.isInlineTrivia]
  have hend : ¬ s.AtEnd := by
    intro hend
    rcases h with h | h <;> rw [hend] at h <;> cases h
  have hnext : (s.stream.peekSignificant 0).kind = s.stream.current.kind := by
    rw [TokenStream.peekSignificant_zero hblank]
  by_cases hmodifier : Lookahead.isModifier s.stream.current.kind = true
  · exact remaining_bind_lt (remaining_shiftModifiers_lt hend (by rw [hnext, hmodifier]))
  · rw [run_bind, run_shiftModifiers_of_false (by rw [hnext]; simpa using hmodifier)]
    exact remaining_accept_lt hend (by rw [hnext]; exact h.resolve_left hmodifier)

/-- A declaration of variables is its modifiers and `Dim`, then a list of variables. -/
theorem dimStatement_eq :
    dimStatement = within .dimStatement
      ((shiftModifiers >>= fun _ => accept (.keyword .dim)) >>= fun _ =>
        commaList variableDeclaration >>= fun _ => finishStatement) := by
  unfold dimStatement
  simp only [bind_assoc]

theorem remaining_dimStatement_lt {s : State}
    (h : Lookahead.isModifier s.stream.current.kind = true ∨
      s.stream.current.kind = .keyword .dim) :
    (dimStatement.run s).2.stream.remaining < s.stream.remaining := by
  have hwords := remaining_dimWords_lt (s := s.opening .dimStatement) h
  rw [dimStatement_eq]
  exact remaining_within_lt (remaining_bind_lt hwords)

end

/-! ## Every statement -/

section

variable {statement : Production Unit} [Composed false statement]

theorem remaining_modifiedStatement_lt {s : State}
    (h : Lookahead.isModifier s.stream.current.kind = true) :
    ((modifiedStatement statement).run s).2.stream.remaining < s.stream.remaining := by
  have hend : ¬ s.AtEnd := Kind.ne_endOfFile_of (f := Lookahead.isModifier) h rfl
  unfold modifiedStatement
  rw [run_look_bind]
  split
  case h_9 => exact remaining_dimStatement_lt (.inl h)
  all_goals exact Advances.remaining_lt s hend

theorem remaining_lineStatement_lt {s : State} (h : s.AtDesignator) :
    (lineStatement.run s).2.stream.remaining < s.stream.remaining := by
  unfold lineStatement secondKind
  rw [run_look_bind]
  split
  · exact Advances.remaining_lt s h.not_atEnd
  · rw [run_look_bind]
    split
    · exact remaining_assignmentStatement_lt h
    · exact remaining_callStatement_lt h

/-- The statements that keywords open move their keyword right away, unless it is a modifier, `Dim`
or `Line`. -/
theorem advances_of_keywordStatement {keyword : Keyword} {p : Production Unit}
    (hmodifier : Lookahead.isModifier (.keyword keyword) = false) (hdim : keyword ≠ .dim)
    (hline : keyword ≠ .line) (h : keywordStatement? statement keyword = some p) :
    Advances p := by
  unfold keywordStatement? at h
  split at h
  all_goals first
    | contradiction
    | obtain rfl := Option.some.inj h
      infer_instance
    | obtain ⟨k, -, rfl⟩ := Option.map_eq_some_iff.mp h
      infer_instance

omit [Composed false statement] in
/-- A modifier opens the statement behind it. -/
theorem eq_modifiedStatement {keyword : Keyword} {p : Production Unit}
    (hmodifier : Lookahead.isModifier (.keyword keyword) = true)
    (h : keywordStatement? statement keyword = some p) : p = modifiedStatement statement := by
  unfold Lookahead.isModifier at hmodifier
  split at hmodifier
  case h_6 => cases hmodifier
  all_goals
    next heq =>
      obtain rfl := Kind.keyword.inj heq
      exact (Option.some.inj h).symm

/-- A statement that starts with its keyword moves a token. -/
theorem remaining_keywordStatement_lt {s : State} {keyword : Keyword} {p : Production Unit}
    (hkeyword : s.stream.current.kind = .keyword keyword)
    (h : keywordStatement? statement keyword = some p) :
    (p.run s).2.stream.remaining < s.stream.remaining := by
  by_cases hmodifier : Lookahead.isModifier (.keyword keyword) = true
  · rw [eq_modifiedStatement hmodifier h]
    exact remaining_modifiedStatement_lt (by rw [hkeyword, hmodifier])
  · by_cases hdim : keyword = .dim
    · subst hdim
      obtain rfl := Option.some.inj h
      exact remaining_dimStatement_lt (.inr hkeyword)
    · by_cases hline : keyword = .line
      · subst hline
        obtain rfl := Option.some.inj h
        exact remaining_lineStatement_lt (.inl (by rw [hkeyword]; rfl))
      · have hp := advances_of_keywordStatement (by simpa using hmodifier) hdim hline h
        exact hp.remaining_lt s (by simp [State.AtEnd, hkeyword])

/-- A statement that is opened by its first word moves a token. -/
theorem remaining_openedStatement_lt {s : State} {p : Production Unit}
    (h : openedStatement? statement s.stream = some p) :
    (p.run s).2.stream.remaining < s.stream.remaining := by
  obtain ⟨keyword, hkeyword, -, h⟩ := exists_keyword_of_openedStatement? h
  exact remaining_keywordStatement_lt hkeyword h

/-- An assignment, a call or an unknown statement moves a token. -/
theorem remaining_plainStatement_lt {s : State} (hend : ¬ s.AtEnd)
    (hblank : s.stream.current.kind.isInlineTrivia = false) :
    (plainStatement.run s).2.stream.remaining < s.stream.remaining := by
  unfold plainStatement
  rw [run_bind, run_get]
  dsimp only
  cases hreplacement : replacement? s.stream with
  | some production =>
    unfold replacement? at hreplacement
    split_ifs at hreplacement <;> cases hreplacement <;> exact Advances.remaining_lt s hend
  | none =>
    dsimp only
    split
    next hstarts =>
      exact remaining_assignmentStatement_lt (atDesignator_of_startsAssignment hblank hstarts)
    next =>
      split
      next hname => exact remaining_callStatement_lt (Bool.or_eq_true_iff.mp hname)
      next => exact Advances.remaining_lt s hend

/-- Looking for a label changes nothing. -/
theorem run_atLabel_snd (s : State) : (atLabel.run s).2 = s := by
  unfold atLabel
  rw [run_bind, run_get]
  dsimp only
  split <;> rfl

/-- A statement that starts with a word moves a token. -/
theorem remaining_statementAtCursor_lt {s : State} (hend : ¬ s.AtEnd)
    (hblank : s.stream.current.kind.isInlineTrivia = false) :
    ((statementAtCursor statement).run s).2.stream.remaining < s.stream.remaining := by
  unfold statementAtCursor
  rw [run_bind, run_atLabel_snd]
  split
  · exact Advances.remaining_lt s hend
  · rw [run_look_bind]
    cases h : openedStatement? statement s.stream with
    | some production => exact remaining_openedStatement_lt h
    | none => exact remaining_plainStatement_lt hend hblank

/-- A statement away from the end of the source moves a token. -/
instance advances_statementWith : Advances (statementWith statement) where
  remaining_lt s hend := by
    unfold statementWith
    rw [run_bind]
    have hstart : ((setRecovering false).run s).2 = { s with recovering := false } := rfl
    rw [hstart]
    generalize hs₁ : { s with recovering := false } = s₁
    have hstream : s₁.stream = s.stream := by rw [← hs₁]
    have hend₁ : ¬ s₁.AtEnd := by rwa [State.AtEnd, hstream]
    rw [← hstream]
    by_cases hblank : s₁.stream.current.kind.isInlineTrivia = true
    · have hmoved : (skipBlanks.run s₁).2.stream.remaining < s₁.stream.remaining :=
        remaining_repeatWhile_lt hend₁ (by rw [run_look, hblank])
      exact remaining_bind_lt hmoved
    · rw [Bool.not_eq_true] at hblank
      rw [run_bind, run_skipBlanks_of_significant hblank]
      exact remaining_statementAtCursor_lt (s := ((note _ _).run s₁).2) hend₁ hblank

end

instance (depth : Nat) : Advances (statementUpTo depth) := by
  cases depth <;> unfold statementUpTo <;> infer_instance

end LosslessBasic.Grammar
