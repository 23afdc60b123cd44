import LosslessBasic.Lexer
import LosslessBasic.Proofs.Grammar.Balance

/-!
# The look-ahead for an assignment

An assignment is recognised before any of it is read, by going over the tokens of a variable without
reading them. The look-ahead takes a step for each suffix that the grammar reads, and both find the
next suffix at the same token: a member has two tokens, and arguments are balanced
(`suffixStep_of_again`). The last step of the one is the last of the other (`suffixStep_of_done`),
so an equals sign is seen ahead just when it comes next behind the variable that is read
(`startsAssignment_iff_equal`). A variable that is not read to its end without a failure shows
nothing of what is behind it.
-/

namespace LosslessBasic

namespace TokenStream

/-- Behind the last token there is an end marker, as there is behind a list of tokens. -/
theorem frontKind_tail_rest (s : TokenStream) :
    Lookahead.frontKind s.rest.tail = (s.peek 1).kind := by
  have hlast : s.last.kind = .lexeme .endOfFile := s.ends
  rw [peek_one, rest]
  cases s.ahead with
  | nil => exact hlast.symm
  | cons t ahead => rfl

end TokenStream

namespace Grammar

/-- Skipping blanks leads to the tokens behind them. -/
theorem rest_skipBlanks (s : State) :
    (skipBlanks.run s).2.stream.rest = Lookahead.afterBlanks s.stream.rest := by
  refine skipBlanks_induction (R := fun s t => t.stream.rest = Lookahead.afterBlanks s.stream.rest)
    (fun s hsolid => ?_) (fun s t hblank h => ?_) s
  · rw [Lookahead.afterBlanks, TokenStream.rest, List.dropWhile_cons_of_neg (by simp [hsolid])]
  · rw [h, TokenStream.rest_advance (TokenStream.ahead_ne_nil (not_atEnd_of_blank hblank)),
      Lookahead.afterBlanks, Lookahead.afterBlanks, List.dropWhile_cons]
    exact (if_pos hblank).symm

/-! ## Names and members -/

/-- A name that is moved is one token. -/
theorem rest_nameExpression {s : State} (h : s.stream.current.kind ≠ .lexeme .endOfFile) :
    (nameExpression.run s).2.stream.rest = s.stream.rest.tail := by
  have hend : ¬ (s.opening .identifierExpression).AtEnd := h
  unfold nameExpression
  rw [run_composite, run_shift hend, TokenStream.rest_advance (TokenStream.ahead_ne_nil h)]
  rfl

/-- Unless the name of a member is missing, it is the token at the cursor. -/
theorem rest_memberName {s : State} (hend : (memberName.run s).2.recovering = false) :
    s.stream.current.kind.isMemberName = true ∧
      (memberName.run s).2.stream.rest = s.stream.rest.tail := by
  unfold memberName current at hend ⊢
  rw [run_look_bind] at hend ⊢
  split at hend
  next hname =>
    rw [if_pos hname]
    refine ⟨hname, rest_nameExpression fun hmarker => ?_⟩
    rw [hmarker] at hname
    cases hname
  next =>
    rw [recovering_fail] at hend
    cases hend

/-- A sign and a name right behind it are two tokens. -/
theorem rest_member {s : State} (hsign : Lookahead.isAccessSign s.stream.current.kind = true)
    (hend : ((do shift; memberName : Production Unit).run s).2.recovering = false) :
    (Lookahead.frontKind s.stream.rest.tail).isMemberName = true ∧
      ((do shift; memberName : Production Unit).run s).2.stream.rest = s.stream.rest.drop 2 := by
  have hword : s.stream.current.kind.isNeutral = true :=
    Kind.isNeutral_of (c := (Lookahead.isAccessSign · = true)) (by decide) hsign
  have hrest : s.stream.rest = s.stream.current :: s.shifted.stream.rest :=
    TokenStream.rest_advance (TokenStream.ahead_ne_nil fun hmarker => by
      rw [hmarker] at hsign
      cases hsign)
  rw [run_bind, run_shift_of_isNeutral hword] at hend ⊢
  obtain ⟨hname, hmoved⟩ := rest_memberName hend
  rw [hrest, List.tail_cons, List.drop_succ_cons, List.drop_one]
  exact ⟨hname, hmoved⟩

instance (sign : Token) (access : Option Tree) : Still (referToHeader sign access) where
  stream_eq s := by
    unfold referToHeader
    rw [run_bind, run_get]
    split
    next => exact Still.stream_eq s
    next => exact Still.stream_eq s
    next => rfl

/-- An access that has not failed starts with such tokens. -/
theorem rest_leadingAccess {s : State} (hsign : Lookahead.isAccessSign s.stream.current.kind = true)
    (hend : (leadingAccess.run s).2.recovering = false) :
    (Lookahead.frontKind s.stream.rest.tail).isMemberName = true ∧
      (leadingAccess.run s).2.stream.rest = s.stream.rest.drop 2 := by
  let opened := s.opening (accessKind s.stream.current.kind)
  let member := (do shift; memberName : Production Unit).run opened
  let closed := member.2.closing
  have hrun : (leadingAccess.run s).2 =
      ((referToHeader s.stream.current member.2.builder.finishNode.1).run closed).2 := rfl
  rw [hrun] at hend ⊢
  -- to note which header an access refers to may fail, but it moves nothing
  obtain ⟨hclosed, -⟩ := Balances.balances closed hend
  rw [Still.stream_eq closed]
  exact rest_member (s := opened) hsign hclosed

/-! ## Suffixes -/

section

variable {operand : Nat → Production (Option Tree)} {cp : Checkpoint} {base : Option Tree}
  {spacedCall : Bool}
  {s : State}

theorem run_suffixPass_of_member (h : (atMemberAccess.run s).1 = true) :
    (suffixPass operand cp spacedCall base).run s =
      let access := (compositeFrom cp (accessKind s.stream.current.kind) do shift; memberName).run s
      (.again access.1, access.2) := by
  unfold suffixPass
  rw [run_bind, Looks.run_snd, h]
  rfl

theorem run_suffixPass_of_arguments (h : (atMemberAccess.run s).1 = false)
    (harguments : ((atArguments spacedCall).run s).1 = true) :
    (suffixPass operand cp spacedCall base).run s =
      let call := (compositeFrom cp .callExpression do skipBlanks; argumentListWith operand).run s
      (.again call.1, call.2) := by
  unfold suffixPass
  rw [run_bind, Looks.run_snd, h, if_neg Bool.false_ne_true, run_bind, Looks.run_snd, harguments]
  rfl

theorem run_suffixPass_of_none (h : (atMemberAccess.run s).1 = false)
    (harguments : ((atArguments spacedCall).run s).1 = false) :
    (suffixPass operand cp spacedCall base).run s = (.done base, s) := by
  unfold suffixPass
  rw [run_bind, Looks.run_snd, h, if_neg Bool.false_ne_true, run_bind, Looks.run_snd, harguments]
  rfl

variable [hoperand : ∀ power, Balances (operand power)]
  [hcomposed : ∀ power, Composed false (operand power)]

/-- Arguments are seen up to the parenthesis that closes them. -/
theorem suffixStep_of_arguments (harguments : ((atArguments true).run s).1 = true)
    (hend : ((do skipBlanks; argumentListWith operand : Production Unit).run s).2.recovering =
      false) :
    Lookahead.suffixStep s.stream.rest =
      .again ((do skipBlanks; argumentListWith operand : Production Unit).run s).2.stream.rest := by
  have hnext := kind_next_of_atArguments harguments
  have hsign : Lookahead.isAccessSign s.stream.current.kind = false := by
    cases hblank : s.stream.current.kind.isInlineTrivia with
    | true =>
      rw [← Bool.not_eq_true]
      intro hsign
      rw [State.AtDesignator.significant (.inr hsign)] at hblank
      cases hblank
    | false =>
      rw [TokenStream.peekSignificant_zero hblank] at hnext
      rw [hnext]
      rfl
  rw [run_bind] at hend ⊢
  generalize hskipped : (skipBlanks.run s).2 = t at hend ⊢
  have hparen : t.stream.current.kind = .lexeme .leftParen := by
    rw [← hskipped, current_skipBlanks, hnext]
  -- the brackets of a list that has been read are balanced, so the look ahead finds the same end
  obtain ⟨-, inner, closer, hinner, hbalanced, hcloser⟩ := closesTo_argumentListWith hparen hend
  have hblanks : Lookahead.afterBlanks s.stream.rest = t.stream.current ::
      (inner ++ closer :: ((argumentListWith operand).run t).2.stream.rest) := by
    rw [← rest_skipBlanks, hskipped, ← hinner]
    exact TokenStream.rest_advance (TokenStream.ahead_ne_nil fun hmarker =>
      nomatch hparen.symm.trans hmarker)
  have hfront : Lookahead.frontKind s.stream.rest = s.stream.current.kind := rfl
  rw [Lookahead.suffixStep, hfront, hsign, if_neg Bool.false_ne_true, hblanks]
  dsimp only
  rw [hparen, if_pos (beq_self_eq_true _), Lookahead.afterGroup?_of_balanced hbalanced hcloser]

/-- Where no suffix comes next, the look-ahead sees none, either, but an equals sign if that
does. -/
theorem suffixStep_of_none (hmember : (atMemberAccess.run s).1 = false)
    (harguments : ((atArguments true).run s).1 = false) :
    Lookahead.suffixStep s.stream.rest =
      .done ((s.stream.peekSignificant 0).kind == .lexeme .equal) := by
  simp only [atMemberAccess, run_look, Bool.and_eq_false_imp] at hmember
  simp only [atArguments, run_look, Bool.or_eq_false_iff, Bool.true_and,
    Bool.and_eq_false_imp] at harguments
  have hfront : Lookahead.frontKind s.stream.rest = s.stream.current.kind := rfl
  rw [Lookahead.suffixStep, hfront, TokenStream.frontKind_tail_rest]
  cases hsign : Lookahead.isAccessSign s.stream.current.kind with
  | true =>
    -- a sign without a name ends the variable, and it is no equals sign
    have hsolid : s.stream.current.kind.isInlineTrivia = false :=
      State.AtDesignator.significant (.inr hsign)
    have hequal : (s.stream.current.kind == .lexeme .equal) = false := by
      rw [beq_eq_false_iff_ne]
      intro hequal
      rw [hequal] at hsign
      cases hsign
    rw [if_pos rfl, hmember hsign, if_neg Bool.false_ne_true,
      TokenStream.peekSignificant_zero hsolid, hequal]
  | false =>
    have hparen : ((s.stream.peekSignificant 0).kind == .lexeme .leftParen) = false := by
      cases hblank : s.stream.current.kind.isInlineTrivia with
      | true => exact harguments.2 hblank
      | false =>
        rw [TokenStream.peekSignificant_zero hblank]
        exact harguments.1
    have hblanks : Lookahead.afterBlanks s.stream.rest =
        s.stream.peekSignificant 0 :: (skipBlanks.run s).2.stream.ahead := by
      rw [← rest_skipBlanks, ← current_skipBlanks]
      rfl
    rw [if_neg Bool.false_ne_true, hblanks]
    dsimp only
    rw [hparen, if_neg Bool.false_ne_true]

/-- The look-ahead takes the steps that the grammar takes. -/
theorem suffixStep_eq (hend : ((suffixPass operand cp true base).run s).2.recovering = false) :
    Lookahead.suffixStep s.stream.rest =
      match (suffixPass operand cp true base).run s with
      | (.again _, t) => .again t.stream.rest
      | (.done _, t) => .done ((t.stream.peekSignificant 0).kind == .lexeme .equal) := by
  cases hmember : (atMemberAccess.run s).1 with
  | true =>
    rw [run_suffixPass_of_member hmember] at hend ⊢
    simp only [atMemberAccess, run_look, Bool.and_eq_true] at hmember
    have hrest :=
      (rest_member (s := s.openingAt cp (accessKind s.stream.current.kind)) hmember.1 hend).2
    have hfront : Lookahead.frontKind s.stream.rest = s.stream.current.kind := rfl
    rw [Lookahead.suffixStep, hfront, TokenStream.frontKind_tail_rest, if_pos hmember.1,
      if_pos hmember.2]
    exact congrArg Pass.again hrest.symm
  | false =>
    cases harguments : ((atArguments true).run s).1 with
    | true =>
      rw [run_suffixPass_of_arguments hmember harguments] at hend ⊢
      exact suffixStep_of_arguments (s := s.openingAt cp .callExpression) harguments hend
    | false =>
      rw [run_suffixPass_of_none hmember harguments]
      exact suffixStep_of_none hmember harguments

/-- So it is at the end of the suffixes when the grammar is. -/
theorem assignedAfterSuffixes_eq {passes : Nat} (hpasses : s.stream.rest.length < passes)
    (hend : ((suffixesWith operand cp true base).run s).2.recovering = false) :
    Lookahead.assignedAfterSuffixes passes s.stream.rest =
      ((((suffixesWith operand cp true base).run s).2.stream.peekSignificant 0).kind ==
        .lexeme .equal) := by
  have hpass : ∀ base, Progresses (suffixPass operand cp true base) := inferInstance
  have hloop : ∀ base, Balances (suffixesWith operand cp true base) := inferInstance
  generalize hn : s.stream.remaining = n
  induction n using Nat.strongRecOn generalizing s base with
  | ind n ih =>
    have hstep (h : ((suffixPass operand cp true base).run s).2.recovering = false) :=
      suffixStep_eq h
    rw [← Prod.eta ((suffixPass operand cp true base).run s)] at hstep
    rw [Lookahead.assignedAfterSuffixes_eq hpasses]
    cases hresult : ((suffixPass operand cp true base).run s).1 with
    | again base' =>
      have hlt := (hpass base).remaining_lt s base' hresult
      rw [suffixesWith, run_iterate_of_again hresult] at hend ⊢
      obtain ⟨hmid, -⟩ := (hloop base').balances _ hend
      rw [hresult] at hstep
      rw [hstep hmid]
      refine ih _ (hn ▸ hlt) ?_ hend rfl
      rw [TokenStream.length_rest] at hpasses ⊢
      omega
    | done result =>
      rw [suffixesWith, run_iterate_of_done hresult] at hend ⊢
      rw [hresult] at hstep
      rw [hstep hend]

end

/-! ## Variables -/

/-- An assignment is recognised ahead of a variable just when an equals sign comes next behind it,
once the variable is read. This is said of variables that are read from a name or a sign on without
a failure; a statement that has failed before reads none. -/
theorem startsAssignment_iff_equal {s : State}
    (hstart : (s.stream.peekSignificant 0).kind.isNameLike = true ∨
      Lookahead.isAccessSign (s.stream.peekSignificant 0).kind = true)
    (hend : (variable_.run s).2.recovering = false) :
    Lookahead.startsAssignment s.stream = true ↔
      ((variable_.run s).2.stream.peekSignificant 0).kind = .lexeme .equal := by
  have hsuffixes (cp : Checkpoint) (base : Option Tree) :
      Balances (suffixesWith expressionAbove cp true base) :=
    inferInstance
  have hvariable : (variable_.run s).2 = ((variableWith expressionAbove).run s).2 := rfl
  rw [hvariable] at hend ⊢
  have hcurrent := current_skipBlanks s
  have hrest := rest_skipBlanks s
  unfold variableWith designatorWith currentKind at hend ⊢
  rw [run_bind, run_bind, run_checkpoint, run_look_bind] at hend ⊢
  generalize (skipBlanks.run s).2 = t at hcurrent hrest hend ⊢
  rw [← hcurrent] at hstart
  have hbound : t.stream.ahead.length < s.stream.remaining + 1 := by
    have hle : (Lookahead.afterBlanks s.stream.rest).length ≤ s.stream.rest.length :=
      (List.dropWhile_suffix _).length_le
    rw [← hrest, s.stream.length_rest, TokenStream.rest, List.length_cons] at hle
    omega
  rw [Lookahead.startsAssignment, ← hrest, TokenStream.rest]
  dsimp only at hend ⊢
  -- a variable starts with an access or with a name, and both sides tell them apart by one token
  cases hsign : Lookahead.isAccessSign t.stream.current.kind with
  | true =>
    rw [if_pos hsign, run_bind] at hend
    obtain ⟨haccess, -⟩ := (hsuffixes _ _).balances _ hend
    obtain ⟨hmember, hmoved⟩ := rest_leadingAccess hsign haccess
    have hname : (Lookahead.frontKind t.stream.ahead).isMemberName = true := hmember
    have hbehind : (leadingAccess.run t).2.stream.rest = t.stream.ahead.tail := by
      rw [hmoved, TokenStream.rest, List.drop_succ_cons, List.drop_one]
    have hpasses : (leadingAccess.run t).2.stream.rest.length < s.stream.remaining + 1 := by
      rw [hbehind, List.length_tail]
      omega
    have hassigned := assignedAfterSuffixes_eq hpasses hend
    rw [hbehind] at hassigned
    rw [if_pos rfl, if_pos rfl, run_bind, hassigned, hname, Bool.true_and, beq_iff_eq]
  | false =>
    have hname : t.stream.current.kind.isNameLike = true :=
      hstart.resolve_right (by rw [hsign]; exact Bool.false_ne_true)
    rw [hsign, if_neg Bool.false_ne_true, if_pos hname, run_bind] at hend
    have hbehind : (nameExpression.run t).2.stream.rest = t.stream.ahead :=
      rest_nameExpression (State.AtDesignator.not_atEnd (.inl hname))
    have hassigned := assignedAfterSuffixes_eq (by rwa [hbehind]) hend
    rw [hbehind] at hassigned
    rw [if_neg Bool.false_ne_true, if_neg Bool.false_ne_true, if_pos hname, run_bind,
      hassigned, hname, Bool.true_and, beq_iff_eq]

/-- A member of what arguments lead to, with a call among the arguments and a line continued. -/
theorem startsAssignment_iff_equal_spaced :
    let s : State :=
      { stream := .ofTokens (Lexer.tokens (Bytes.ofString "Names _\n (f(1), b).Text = c\n") 1) }
    ((s.stream.peekSignificant 0).kind.isNameLike = true ∨
        Lookahead.isAccessSign (s.stream.peekSignificant 0).kind = true) ∧
      (variable_.run s).2.recovering = false ∧
      (Lookahead.startsAssignment s.stream = true ↔
        ((variable_.run s).2.stream.peekSignificant 0).kind = .lexeme .equal) := by
  intro s
  have hstart : (s.stream.peekSignificant 0).kind.isNameLike = true := by decide +kernel
  have hend : (variable_.run s).2.recovering = false := by decide +kernel
  exact ⟨.inl hstart, hend, startsAssignment_iff_equal (.inl hstart) hend⟩

end Grammar

end LosslessBasic
