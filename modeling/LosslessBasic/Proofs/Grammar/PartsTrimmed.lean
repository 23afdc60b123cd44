import LosslessBasic.Proofs.Grammar.Trim

/-!
# The parts of statements are trimmed

The pass of `Trims` over expressions, declarations and the tests of clauses. An expression that is
not found is reported, so every operand moves a token, and the last one that it moves is no blank.
`Continues cp p` speaks of what puts nodes around an operand that was read since a checkpoint.
-/

namespace LosslessBasic.Grammar

set_option synthInstance.maxSize 65536

variable {α β : Type} {p : Production α} {s t : State} {cp : Checkpoint} {e : Edge}

/-! ## Moves and failures -/

instance : Trims .any .loose skipBlanks := by
  unfold skipBlanks
  exact .repeatWhile (fun _ => rfl) fun s hs _ => Trims.holds (c := .any) s hs trivial

/-- Behind blanks there is none at the cursor. -/
instance {f : Unit → Production α} [h : ∀ u, Trims .solid .filled (f u)]
    [hcomposed : ∀ u, Composed false (f u)] : Trims .any .filled (skipBlanks >>= f) where
  holds s hs _ := (Trims.holds (p := skipBlanks) (c := .any) (e := .loose) s hs trivial).append hs
    (hcomposed ()).failures_ne (fun ht => (h ()).holds _ ht (isInlineTrivia_skipBlanks s))
    fun _ _ _ => Edge.Holds.append_filled

instance {f : Unit → Production α} [h : ∀ u, Trims .solid .loose (f u)]
    [hcomposed : ∀ u, Composed false (f u)] : Trims .any .loose (skipBlanks >>= f) where
  holds s hs _ := (Trims.holds (p := skipBlanks) (c := .any) (e := .loose) s hs trivial).append hs
    (hcomposed ()).failures_ne (fun ht => (h ()).holds _ ht (isInlineTrivia_skipBlanks s))
    fun _ _ _ _ => trivial

instance {f : Unit → Production α} [h : ∀ u, Trims .word .filled (f u)]
    [hcomposed : ∀ u, Composed false (f u)] : Trims .next .filled (skipBlanks >>= f) where
  holds s hs hnext :=
    (Trims.holds (p := skipBlanks) (c := .any) (e := .loose) s hs trivial).append hs
    (hcomposed ()).failures_ne
    (fun ht => (h ()).holds _ ht (by rwa [Sight.Holds, current_skipBlanks]))
    fun _ _ _ => Edge.Holds.append_filled

instance {f : Unit → Production α} [h : ∀ u, Trims .word .loose (f u)]
    [hcomposed : ∀ u, Composed false (f u)] : Trims .next .loose (skipBlanks >>= f) where
  holds s hs hnext :=
    (Trims.holds (p := skipBlanks) (c := .any) (e := .loose) s hs trivial).append hs
    (hcomposed ()).failures_ne
    (fun ht => (h ()).holds _ ht (by rwa [Sight.Holds, current_skipBlanks]))
    fun _ _ _ _ => trivial

/-- What skips blanks itself may be looked at behind them. -/
theorem Trims.of_solid {f : Unit → Production α} [hcomposed : Composed false (skipBlanks >>= f)]
    (h : Trims .solid .filled (skipBlanks >>= f)) : Trims .any .filled (skipBlanks >>= f) where
  holds s hs _ := by
    have hblanks : s.Trims .loose (skipBlanks.run s).2 := Trims.holds (c := .any) s hs trivial
    rw [← run_skipBlanks_bind f s]
    exact hblanks.append hs hcomposed.failures_ne
      (fun ht => h.holds _ ht (isInlineTrivia_skipBlanks s)) fun _ _ _ => Edge.Holds.append_filled

instance : Trims .next .filled shiftNext := by unfold shiftNext; infer_instance

instance : Trims .any .loose shiftNext := by unfold shiftNext; infer_instance

instance (problem : Problem) (t : Token) : Fails (report problem t) where
  failures_ne _ _ := Array.push_ne_empty

/-- As nothing has failed before, a failure is reported. -/
instance (problem : Problem) (t : Token) : Fails (fail problem t) where
  failures_ne s hs := by
    unfold fail
    dsimp only
    rw [run_bind, run_get, if_neg (by simp [hs.recovering])]
    exact Array.push_ne_empty

instance {f : α → Production β} [hp : Fails p] [hf : ∀ a, Composed false (f a)] :
    Fails (p >>= f) where
  failures_ne s hs := (hf _).failures_ne (hp.failures_ne s hs)

instance {f : α → Production β} [hp : Looks p] [hf : ∀ a, Fails (f a)] : Fails (p >>= f) where
  failures_ne s hs := by
    rw [run_bind, hp.run_snd]
    exact (hf _).failures_ne s hs

instance : Looks next := ⟨fun _ => rfl⟩

instance (wanted : Wanted) : Fails (failExpected wanted) := by unfold failExpected; infer_instance

instance (k : Kind) [Clear Kind.IsGap k] : Trims .any .trimmed (accept k) := by
  unfold accept
  infer_instance

/-- A token that is asked for is moved, or it is missed. -/
instance (k : Kind) [hk : Clear Kind.IsGap k] : Trims .any .filled (expect k) where
  holds s hs _ := by
    by_cases hnext : (s.stream.peekSignificant 0).kind = k
    · rw [run_expect_of_eq hnext]
      exact Trims.holds (p := shiftNext) (c := .next) s hs
        (by rw [Sight.Holds, hnext]; exact hk.not)
    · have hmissing : (accept k).run s = (false, s) := by
        have hkind : ((s.stream.peekSignificant 0).kind == k) = false :=
          beq_eq_false_iff_ne.mpr hnext
        simp only [accept, atNext, run_bind, run_look, hkind, run_pure,
          Bool.false_eq_true, if_false]
      unfold expect
      rw [run_bind, hmissing]
      exact .inl (Fails.failures_ne (p := failExpected (.token k)) s hs)

instance (item : Production Unit) [Trims .any .filled item] [Composed false item] :
    Trims .any .filled (commaList item) := by
  unfold commaList
  infer_instance

/-! ## Names and members -/

instance : Trims .word .filled nameExpression := by unfold nameExpression; infer_instance

instance (wanted : Wanted) : Trims .any .filled (expectName wanted) := by
  unfold expectName
  exact .of_nextKind (d := (·.isNameLike = true)) (by decide)

instance (wanted : Wanted) : Trims .any .filled (hasName wanted) := by
  unfold hasName
  infer_instance

instance : Trims .any .filled memberName := by
  unfold memberName
  exact .of_current (d := (·.isMemberName = true)) (by decide)

instance (sign : Token) (access : Option Tree) :
    Trims .any .trimmed (referToHeader sign access) where
  holds s hs _ := by
    unfold referToHeader
    rw [run_bind, run_get]
    split
    next => exact Trims.holds (c := .any) s hs trivial
    next => exact Trims.holds (c := .any) s hs trivial
    next => exact .refl hs

instance : Trims .word .filled leadingAccess := by unfold leadingAccess; infer_instance

/-- The period and the name of a qualified name are moved one behind the other. -/
theorem trims_qualifier (hs : s.Fresh) (h : (atQualifier.run s).1 = true) :
    s.Trims .trimmed ((do shift; shift : Production Unit).run s).2 := by
  simp only [atQualifier, run_look, Bool.and_eq_true, beq_iff_eq] at h
  have hperiod : ¬ s.stream.current.kind.IsGap := by
    rw [h.1]
    exact (inferInstance : Clear Kind.IsGap (.lexeme .period)).not
  have hend : ¬ s.AtEnd := fun hend => hperiod (.inr hend)
  have hname : ¬ (shift.run s).2.stream.current.kind.IsGap := by
    have hadvance : s.stream.advance.current = s.stream.peek 1 :=
      TokenStream.current_advance (TokenStream.ahead_ne_nil hend)
    rw [run_shift hend]
    change ¬ s.stream.advance.current.kind.IsGap
    rw [hadvance]
    exact Kind.not_isGap_of (d := (·.isMemberName = true)) (by decide) h.2
  have hshift : Composed false shift := inferInstance
  exact ((State.trims_shifted hs hperiod).append hs hshift.failures_ne
    (fun ht => State.trims_shifted ht hname) fun _ _ => Edge.Holds.append).mono
    fun _ => Edge.Holds.trimmed

instance : Trims .solid .filled typeName := by
  have hqualifiers : Trims .any .trimmed (repeatWhile atQualifier (do shift; shift)) :=
    .repeatWhile (fun _ => rfl) fun _ => trims_qualifier
  have hname : Trims .any .filled (do
      if (← currentKind).isNameLike then
        shift
        repeatWhile atQualifier (do shift; shift)
      else
        failExpected .typeName) := .of_currentKind (d := (·.isNameLike = true)) (by decide)
  unfold typeName
  infer_instance

/-- The name of a parameter is moved with the sign behind it. -/
instance : Trims .any .trimmed optionalParameterName where
  holds s hs _ := by
    unfold optionalParameterName
    rw [run_bind]
    change s.Trims .trimmed ((if s.stream.current.kind.isNameLike && _ then _ else _ :
      Production Unit).run s).2
    split
    next h =>
      simp only [Bool.and_eq_true, beq_iff_eq] at h
      have hword : ¬ s.stream.current.kind.IsGap :=
        Kind.not_isGap_of (d := (·.isNameLike = true)) (by decide) h.1
      have hend : ¬ s.AtEnd := fun hend => hword (.inr hend)
      have hstream : (nameExpression.run s).2.stream = s.stream.advance := by
        have hend' : ¬ (s.opening .identifierExpression).AtEnd := hend
        unfold nameExpression
        rw [run_composite, run_shift hend']
        rfl
      have hsign : ¬ ((nameExpression.run s).2.stream.peekSignificant 0).kind.IsGap := by
        rw [hstream,
          TokenStream.peekSignificant_advance_succ (Kind.isInlineTrivia_of_not_isGap hword)
          (TokenStream.ahead_ne_nil hend), h.2]
        exact (inferInstance : Clear Kind.IsGap (.lexeme .colonEqual)).not
      have hshift : Composed false shiftNext := inferInstance
      have hname : s.Trims .filled (nameExpression.run s).2 := Trims.holds (c := .word) s hs hword
      rw [run_bind]
      exact (hname.append hs hshift.failures_ne (fun ht => Trims.holds (c := .next) _ ht hsign)
        fun _ _ => Edge.Holds.append).mono fun _ => Edge.Holds.trimmed
    next => exact .refl hs

/-! ## Around an operand -/

/-- A node around what was moved since a checkpoint and what is moved within it. -/
theorem trims_compositeFrom {k : NodeKind} {p : Production Unit} [hcomposed : Composed false p]
    (hs : s.Fresh) (hsolid : s.stream.current.kind.isInlineTrivia = false) (h : s.Trims .filled t)
    (hp : ∀ u : State, u.Fresh → u.stream = t.stream → u.Trims .trimmed (p.run u).2) :
    s.Trims .filled ((compositeFrom s.builder.checkpoint k p).run t).2 := by
  have hnode : Composed false (compositeFrom s.builder.checkpoint k p) := inferInstance
  rcases h with hfailures | ⟨hrecovering, trees, hadds, htrees, hends⟩
  · exact .inl (hnode.failures_ne hfailures)
  · have hopened : (t.openingAt s.builder.checkpoint k).Fresh :=
      ⟨hadds.innermostInRow_openingAt hs.innermostInRow k, hrecovering,
        (hs.of_adds hadds hrecovering).clean⟩
    rw [run_compositeFrom]
    rcases hp _ hopened rfl with hfailures | ⟨hrecovering', more, hmore, htrimmed, hends'⟩
    · exact .inl hfailures
    · have hclosed := (hadds.closing_openingAt hs.innermostInRow hmore).1
      have hends'' : Edge.filled.Holds (Tree.leavesAll (trees ++ more)) := by
        rw [Tree.leavesAll_append]
        exact hends.append_trimmed hends'
      have hleaves (a : Anchor) : Tree.leavesAll [.above (.node k) a (trees ++ more)] =
          Tree.leavesAll (trees ++ more) := by
        rw [Tree.leavesAll, Tree.leaves_above, Tree.leavesAll, List.append_nil]
      have hedges := hclosed.haveEdges hsolid (by rwa [hleaves])
      rw [hleaves] at hedges
      refine .inr ⟨hrecovering', _, hclosed, ?_, by rwa [hleaves]⟩
      simpa using Tree.isTrimmed_above (fun _ => hedges)
        (List.forall_mem_append.mpr ⟨htrees, htrimmed⟩)

/-- A production that goes on what was moved since a checkpoint. -/
class Continues (cp : Checkpoint) {α : Type} (p : Production α) : Prop where
  holds (s t : State) : s.Fresh → s.stream.current.kind.isInlineTrivia = false →
    s.builder.checkpoint = cp → s.Trims .filled t → s.Trims .filled (p.run t).2

instance [hp : Trims .any .trimmed p] [hcomposed : Composed false p] : Continues cp p where
  holds _ t hs _ _ h := h.append hs hcomposed.failures_ne (fun ht => hp.holds t ht trivial)
    fun _ _ => Edge.Holds.append_trimmed

theorem Continues.bind {f : α → Production β} (hp : Continues cp p) (hf : ∀ a, Continues cp (f a)) :
    Continues cp (p >>= f) where
  holds s t hs hsolid hcp h := (hf _).holds s _ hs hsolid hcp (hp.holds s t hs hsolid hcp h)

instance {f : α → Production β} [hp : Continues cp p] [hf : ∀ a, Continues cp (f a)] :
    Continues cp (p >>= f) := .bind hp hf

instance {k : NodeKind} {p : Production Unit} [hp : Trims .any .trimmed p] [Composed false p] :
    Continues cp (compositeFrom cp k p) where
  holds s t hs hsolid hcp h := by
    subst hcp
    exact trims_compositeFrom hs hsolid h fun u hu _ => hp.holds u hu trivial

/-- A test, and what goes on where it holds. -/
theorem Continues.of_test {q : Production α} {test : Production Bool} [ht : Looks test]
    (hp : ∀ {s t : State}, s.Fresh → s.stream.current.kind.isInlineTrivia = false →
      s.builder.checkpoint = cp → s.Trims .filled t → (test.run t).1 = true →
      s.Trims .filled (p.run t).2) [hq : Continues cp q] :
    Continues cp (test >>= fun b => if b then p else q) where
  holds s t hs hsolid hcp h := by
    rw [run_bind, ht.run_snd]
    cases htest : (test.run t).1 with
    | true => exact hp hs hsolid hcp h htest
    | false => exact hq.holds s t hs hsolid hcp h

/-- What goes on an operand leaves it ended by a token. -/
theorem Continues.iterate {exhausted : α → β} {pass : α → Production (Pass α β)}
    (h : ∀ a, Continues cp (pass a)) (a : α) : Continues cp (iterate exhausted pass a) := by
  have hupTo (n : Nat) (a : α) : Continues cp (iterateUpTo exhausted pass n a) := by
    induction n generalizing a with
    | zero => exact ⟨fun _ _ _ _ _ h => h⟩
    | succ n ih =>
      refine .bind (h a) fun r => ?_
      cases r with
      | again a => exact ih a
      | done b => exact ⟨fun _ _ _ _ _ h => h⟩
  refine ⟨fun s t hs hsolid hcp h => ?_⟩
  unfold Grammar.iterate
  rw [run_look_bind]
  exact (hupTo _ a).holds s t hs hsolid hcp h

/-- Behind an operand, what goes on it. -/
instance {f : Checkpoint → α → Production β} [hp : Trims .solid .filled p]
    [hf : ∀ cp a, Continues cp (f cp a)] :
    Trims .solid .filled (checkpoint >>= fun cp => p >>= f cp) where
  holds s hs hsolid := (hf _ _).holds s _ hs hsolid rfl (hp.holds s hs hsolid)

/-! ## Within an expression -/

section

variable {operand : Nat → Production (Option Tree)}
  [hoperand : ∀ power, Trims .any .filled (operand power)]
  [hcomposed : ∀ power, Composed false (operand power)]

instance : Trims .any .filled (argumentWith operand) := by
  unfold argumentWith
  infer_instance

instance (u : Unit) : Trims .any .filled (argumentPass operand u) := by
  unfold argumentPass
  infer_instance

instance : Trims .word .filled (argumentListWith operand) := by
  unfold argumentListWith
  infer_instance

instance : TestsWord Kind.IsGap atMemberAccess where
  run_eq _ := rfl
  not_bar {s} h := by
    change (Lookahead.isAccessSign s.stream.current.kind && _) = true at h
    exact Kind.not_isGap_of (d := (Lookahead.isAccessSign · = true)) (by decide)
      (Bool.and_eq_true_iff.mp h).1

omit hoperand hcomposed in
/-- Arguments come next just when their parenthesis does. -/
theorem not_isGap_of_atArguments {spacedCall : Bool}
    (h : ((atArguments spacedCall).run s).1 = true) :
    ¬ (s.stream.peekSignificant 0).kind.IsGap := by
  rw [kind_next_of_atArguments h]
  exact (inferInstance : Clear Kind.IsGap (.lexeme .leftParen)).not

instance (spacedCall : Bool) (base : Option Tree) :
    Continues cp (suffixPass operand cp spacedCall base) := by
  have hcall : Continues cp (do
      if ← atArguments spacedCall then
        let call ← compositeFrom cp .callExpression do
          skipBlanks
          argumentListWith operand
        return .again call
      return (.done base : Pass (Option Tree) (Option Tree))) :=
    .of_test fun hs hsolid hcp h harguments => by
      subst hcp
      exact trims_compositeFrom hs hsolid h fun u hu hstream =>
        (Trims.holds (p := do skipBlanks; argumentListWith operand) (c := .next) (e := .filled) u hu
          (by rw [Sight.Holds, hstream]; exact not_isGap_of_atArguments harguments)).mono
          fun _ => Edge.Holds.trimmed
  unfold suffixPass
  refine .of_test fun {s t} hs hsolid hcp h hmember => ?_
  subst hcp
  rw [run_bind, run_currentKind]
  exact trims_compositeFrom hs hsolid h fun u hu hstream =>
    (Trims.holds (p := do shift; memberName) (c := .word) (e := .filled) u hu
      (by rw [Sight.Holds, hstream]; exact TestsWord.not_bar hmember)).mono fun _ =>
        Edge.Holds.trimmed

instance (spacedCall : Bool) (base : Option Tree) :
    Continues cp (suffixesWith operand cp spacedCall base) :=
  .iterate inferInstance base

instance (wanted : Wanted) (spacedCall : Bool) :
    Trims .any .filled (designatorWith operand wanted spacedCall) := by
  have hword : Trims .solid .filled (checkpoint >>= fun cp => currentKind >>= fun kind =>
      if Lookahead.isAccessSign kind then
        leadingAccess >>= fun access => suffixesWith operand cp spacedCall access
      else if kind.isNameLike then
        nameExpression >>= fun name => suffixesWith operand cp spacedCall name
      else do
        failExpected wanted
        return none : Production (Option Tree)) := by
    refine ⟨fun s hs hsolid => ?_⟩
    rw [run_bind, run_checkpoint, run_bind, run_currentKind]
    split
    next hsign =>
      have haccess : s.Trims .filled (leadingAccess.run s).2 := Trims.holds (c := .word) s hs
        (Kind.not_isGap_of (d := (Lookahead.isAccessSign · = true)) (by decide) hsign)
      rw [run_bind]
      exact Continues.holds s _ hs hsolid rfl haccess
    next =>
      split
      next hname =>
        have hread : s.Trims .filled (nameExpression.run s).2 := Trims.holds (c := .word) s hs
          (Kind.not_isGap_of (d := (·.isNameLike = true)) (by decide) hname)
        rw [run_bind]
        exact Continues.holds s _ hs hsolid rfl hread
      next => exact Trims.holds (c := .any) s hs trivial
  unfold designatorWith
  infer_instance

instance : Trims .any .filled (variableWith operand) := by unfold variableWith; infer_instance

instance : Trims .any .filled (calleeWith operand) := by unfold calleeWith; infer_instance

/-! ## Operands -/

instance : Trims .word .filled (parenthesizedWith operand) := by
  unfold parenthesizedWith
  infer_instance

/-- No token ahead is one that was reported when it was read. -/
instance : Trims .any .filled (primaryWith operand) where
  holds s hs _ := by
    have hclean := hs.clean_current
    unfold primaryWith current
    rw [run_look_bind]
    split
    next literal hliteral =>
      have hsome : (literalKind? s.stream.current.kind).isSome = true := by rw [hliteral]; rfl
      exact Trims.holds (c := .word) s hs
        (Kind.not_isGap_of (d := fun k => (literalKind? k).isSome = true) (by decide) hsome)
    next =>
      have hword (l : Lexeme) [IsTrue l.isNoEnd] (hkind : s.stream.current.kind = .lexeme l) :
          Sight.word.Holds s.stream := by
        rw [Sight.Holds, hkind]
        exact (inferInstance : Clear Kind.IsGap (.lexeme l)).not
      split
      next hkind => exact Trims.holds (c := .word) s hs (hword _ hkind)
      next hkind => exact Trims.holds (c := .word) s hs (hword _ hkind)
      next hkind => exact Trims.holds (c := .word) s hs (hword _ hkind)
      next hkind => rw [hkind] at hclean; cases hclean
      next hkind => rw [hkind] at hclean; cases hclean
      next =>
        split
        next hname =>
          exact Trims.holds (c := .word) s hs
            (Kind.not_isGap_of (d := (·.isNameLike = true)) (by decide) hname)
        next => exact Trims.holds (c := .any) s hs trivial

instance : Trims .word .filled (typeOfWith operand) := by unfold typeOfWith; infer_instance

instance (primary : Option Tree) : Continues cp (operandSuffixes operand cp primary) := by
  cases primary <;> unfold operandSuffixes <;> infer_instance

instance : Trims .any .filled (unaryWith operand) := by
  have hsolid : Trims .solid .filled (unaryWith operand) := by
    refine ⟨fun s hs hsolid => ?_⟩
    have hword (k : Keyword) (hkind : s.stream.current.kind = .keyword k) :
        Sight.word.Holds s.stream := by
      rw [Sight.Holds, hkind]
      exact (inferInstance : Clear Kind.IsGap (.keyword k)).not
    unfold unaryWith
    rw [run_bind, run_skipBlanks_of_significant hsolid]
    dsimp only
    rw [run_bind, run_currentKind]
    split
    next power hpower =>
      have hsome : (Operator.unaryPower? s.stream.current.kind).isSome = true := by
        rw [hpower]
        rfl
      exact Trims.holds (c := .word) s hs
        (Kind.not_isGap_of (d := fun k => (Operator.unaryPower? k).isSome = true) (by decide) hsome)
    next =>
      split
      next hkind => exact Trims.holds (c := .word) s hs (hword _ hkind)
      next hkind => exact Trims.holds (c := .word) s hs (hword _ hkind)
      next hkind => exact Trims.holds (c := .word) s hs (hword _ hkind)
      next => exact Trims.holds (c := .solid) s hs hsolid
  have hcomposed : Composed false (unaryWith operand) := inferInstance
  unfold unaryWith at hsolid hcomposed ⊢
  exact .of_solid hsolid

instance (power : Nat) (left : Option Tree) :
    Continues cp (operatorPass operand cp power left) where
  holds s t hs hsolid hcp h := by
    unfold operatorPass
    rw [run_bind]
    change s.Trims .filled ((match Operator.binaryPower? (t.stream.peekSignificant 0).kind with
      | none => _
      | some binding => _ : Production _).run t).2
    split
    next => exact h
    next binding hbinding =>
      split
      next => exact h
      next =>
        have hsome : (Operator.binaryPower? (t.stream.peekSignificant 0).kind).isSome = true := by
          rw [hbinding]
          rfl
        have hnext := Kind.not_isGap_of (d := fun k => (Operator.binaryPower? k).isSome = true)
          (by decide) hsome
        have hright : Trims .next .trimmed (do
            shiftNext
            operand (binding + 1)) := inferInstance
        have hcomposed : Composed false (do
            shiftNext
            operand (binding + 1)) := inferInstance
        have hread :
            s.Trims .filled ((do shiftNext; operand (binding + 1) : Production _).run t).2 :=
          h.append hs hcomposed.failures_ne (fun ht => hright.holds t ht hnext)
            fun _ _ => Edge.Holds.append_trimmed
        have hnode : Continues cp (compositeFrom cp .binaryExpression (pure ())) := inferInstance
        exact hnode.holds s _ hs hsolid hcp hread

instance (power : Nat) : Trims .any .filled (binaryWith operand power) := by
  have hpass (cp : Checkpoint) (left : Option Tree) :
      Continues cp (iterate id (operatorPass operand cp power) left) := .iterate inferInstance left
  unfold binaryWith
  infer_instance

end

/-! ## Expressions in statements -/

/-- Expressions that nest at most `depth` deep; of what is deeper nothing is read, and it is
missed. -/
def expressionUpTo : (depth power : Nat) → Production (Option Tree)
  | 0, _ => do
    failExpected .expression
    return none
  | depth + 1, power => binaryWith (expressionUpTo depth) power

instance (depth power : Nat) : Composed false (expressionUpTo depth power) := by
  induction depth generalizing power with
  | zero => unfold expressionUpTo; infer_instance
  | succ depth ih => unfold expressionUpTo; infer_instance

instance (depth power : Nat) : Trims .any .filled (expressionUpTo depth power) := by
  induction depth generalizing power with
  | zero => unfold expressionUpTo; infer_instance
  | succ depth ih => unfold expressionUpTo; infer_instance

/-- What is deeper than the tokens ahead allow is never read. -/
theorem agreeUpTo_expressionUpTo {n d : Nat} (hd : n < d) (power : Nat) :
    AgreeUpTo n (binaryUpTo d power) (expressionUpTo d power) := by
  induction n generalizing d power with
  | zero =>
    obtain _ | d := d
    · omega
    unfold binaryUpTo expressionUpTo
    infer_instance
  | succ n ih =>
    obtain _ | d := d
    · omega
    have hnested (power : Nat) : AgreeUpTo n (binaryUpTo d power) (expressionUpTo d power) :=
      ih (by omega) power
    unfold binaryUpTo expressionUpTo
    infer_instance

instance (power : Nat) : Trims .any .filled (expressionAbove power) where
  holds s hs _ := by
    have hagree := agreeUpTo_expressionUpTo (Nat.lt_succ_self s.stream.remaining) power
    unfold expressionAbove
    rw [run_look_bind, hagree.run_eq s (.inr (Nat.le_refl _))]
    exact Trims.holds (c := .any) s hs trivial

instance : Trims .any .filled expression := by unfold expression; infer_instance

instance : Trims .any .filled operand := by unfold operand; infer_instance

instance : Trims .any .filled variable_ := by unfold variable_; infer_instance

instance : Trims .any .filled callee := by unfold callee; infer_instance

instance : Trims .word .filled argumentList := by unfold argumentList; infer_instance

instance : TestsNext Kind.IsGap atArgumentSign :=
  .of_next (f := fun k => k == .lexeme .comma || k == .lexeme .semicolon) fun _ =>
    Kind.not_isGap_of
      (d := fun k => (k == .lexeme .comma || k == .lexeme .semicolon) = true) (by decide)

instance (u : Unit) : Trims .any .trimmed (commandArgumentPass u) := by
  unfold commandArgumentPass
  infer_instance

instance : TestsNext Kind.IsGap withinStatement where
  run_eq _ := rfl
  not_bar {s} h := by
    change (!endsStatement (s.stream.peekSignificant 0).kind s.lineMode) = true at h
    rintro (hblank | hend)
    · have hsolid := s.stream.isSolid_peekSignificant 0
      rw [TokenStream.isSolid, hblank] at hsolid
      cases hsolid
    · rw [hend] at h
      cases h

/-- Where the statement goes on, the first step through the arguments moves a sign or an
argument. -/
theorem trims_commandArgumentPass (hs : s.Fresh) (hwithin : (withinStatement.run s).1 = true) :
    s.Trims .filled ((commandArgumentPass ()).run s).2 := by
  have hgoesOn : (atStatementEnd.run s).1 = false := by
    change (!(atStatementEnd.run s).1) = true at hwithin
    simpa using hwithin
  have hrest : Trims .any .filled (do
      if ← atArgumentSign then
        shiftNext
        return .again ()
      argumentWith expressionAbove
      if ← atArgumentSign then return .again ()
      return (.done () : Pass Unit Unit)) := inferInstance
  unfold commandArgumentPass
  rw [run_bind, hgoesOn]
  exact hrest.holds s hs trivial

/-- The arguments of a command, where its statement goes on. -/
theorem trims_commandArguments (hs : s.Fresh) (hwithin : (withinStatement.run s).1 = true) :
    s.Trims .filled (commandArguments.run s).2 := by
  have hblanks : s.Trims .loose (skipBlanks.run s).2 := Trims.holds (c := .any) s hs trivial
  have hskip : Composed false skipBlanks := inferInstance
  have hnode :
      Composed false (within .argumentList (iterate (fun _ => ()) commandArgumentPass ())) :=
    inferInstance
  have hwithin' : (withinStatement.run ((skipBlanks.run s).2.opening .argumentList)).1 = true := by
    change (!endsStatement ((skipBlanks.run s).2.stream.peekSignificant 0).kind
      (skipBlanks.run s).2.lineMode) = true
    rw [peekSignificant_skipBlanks, (hskip.sameContext s).lineMode]
    exact hwithin
  unfold commandArguments
  rw [run_bind]
  refine hblanks.append hs hnode.failures_ne (fun ht => ?_) fun _ _ _ => Edge.Holds.append_filled
  rw [run_within]
  exact State.Trims.closing ht (isInlineTrivia_skipBlanks s)
    (trims_iterate (ht.opening _) (trims_commandArgumentPass (ht.opening _) hwithin'))

/-! ## Declarations -/

instance : TestsNext Kind.IsGap (do return Lookahead.isModifier (← nextKind)) :=
  .of_next (f := Lookahead.isModifier) fun _ =>
    Kind.not_isGap_of (d := (Lookahead.isModifier · = true)) (by decide)

instance : Trims .any .loose shiftModifiers := by unfold shiftModifiers; infer_instance

instance : Trims .any .loose shiftDeclarator := by unfold shiftDeclarator; infer_instance

section

variable (item : Production Unit) [Trims .solid .loose item] [Composed false item]

instance (u : Unit) : Trims .any .filled (groupPass item u) := by unfold groupPass; infer_instance

instance (k : NodeKind) : Trims .next .filled (group k item) := by unfold group; infer_instance

end

instance : Trims .solid .filled arrayBound := by unfold arrayBound; infer_instance

instance : Trims .next .filled arrayBounds := by unfold arrayBounds; infer_instance

instance : Trims .next .filled asClause := by unfold asClause; infer_instance

instance : Trims .any .trimmed optionalAsClause := by unfold optionalAsClause; infer_instance

instance : Trims .any .trimmed optionalArrayBounds := by unfold optionalArrayBounds; infer_instance

instance (value : Production Unit) [Trims .any .trimmed value] [Composed false value] :
    Trims .any .filled (declaration value) := by
  unfold declaration
  infer_instance

instance : Trims .any .filled variableDeclaration := by unfold variableDeclaration; infer_instance

instance : Trims .any .filled constantDeclaration := by unfold constantDeclaration; infer_instance

instance : Trims .any .filled parameter := by
  unfold parameter
  dsimp only
  infer_instance

instance : Trims .any .trimmed optionalParameterList := by
  unfold optionalParameterList
  infer_instance

/-! ## Tests of clauses -/

instance : Trims .any .filled comparison := by
  unfold comparison
  exact .of_current (d := fun k => Operator.isRelational k = true) (by decide)

instance : Trims .solid .filled comparisonTest := by unfold comparisonTest; infer_instance

/-- The end of a range goes on the value that the range starts with. -/
instance : Continues cp (do
    if ← atNext (.keyword .to_) then
      let _ ← compositeFrom cp .caseRange do
        shiftNext
        operand : Production Unit) :=
  .of_test fun hs hsolid hcp h hto => by
    subst hcp
    have hend : Trims .next .filled (do
        shiftNext
        operand) := inferInstance
    rw [run_bind, run_pure]
    dsimp only
    refine trims_compositeFrom hs hsolid h fun u hu hstream => ?_
    refine (hend.holds u hu ?_).mono fun _ => Edge.Holds.trimmed
    rw [Sight.Holds, hstream]
    exact TestsNext.not_bar hto

instance : Trims .solid .filled valueTest := by
  unfold valueTest
  infer_instance

instance : Trims .any .filled caseTest := by unfold caseTest; infer_instance

end LosslessBasic.Grammar
