import LosslessBasic.Proofs.Grammar.Repetition

/-!
# Parts of statements go on alike

The pass of `Alike` over the tests, the ends of statements, the expressions and the declarations, in
the order of the grammar.
-/

namespace LosslessBasic.Grammar

set_option synthInstance.maxSize 65536

variable {V : View} {onSolid : Bool}

/-! ## Tests -/

section

variable {α : Type} [Observed α]

/-- What is said of the kind at the cursor by something that does not tell blanks apart. -/
theorem Alike.of_current (f : Kind → α)
    (hf : f (.trivia .whitespace) = f (.trivia .lineContinuation)) :
    Alike V onSolid (look fun s => f s.current.kind) (look fun s => f s.current.kind) :=
  .of_look fun _ _ hs _ => by
    rw [hs.tokens.current.kind.apply_eq f hf]
    exact Observed.refl V _

/-- What is said of the kinds that come next. -/
theorem Alike.of_nextKinds (f : Kind → Kind → α) :
    Alike V onSolid (look fun s => f (s.peekSignificant 0).kind (s.peekSignificant 1).kind)
      (look fun s => f (s.peekSignificant 0).kind (s.peekSignificant 1).kind) :=
  .of_look fun _ _ hs _ => by
    rw [hs.tokens.kind_peekSignificant 0, hs.tokens.kind_peekSignificant 1]
    exact Observed.refl V _

/-- What is said of the kind at the cursor and of the one behind it, of which the former is no
blank. -/
theorem Alike.of_neighbours (f : Kind → Kind → Bool)
    (hblank : ∀ k l, k.isInlineTrivia = true → f k l = false)
    (hf : ∀ k, f k (.trivia .whitespace) = f k (.trivia .lineContinuation)) :
    Alike V onSolid (look fun s => f s.current.kind (s.peek 1).kind)
      (look fun s => f s.current.kind (s.peek 1).kind) :=
  .of_look fun s s' hs _ => by
    cases hcurrent : s.stream.current.kind.isInlineTrivia with
    | true =>
      have hcurrent' := hs.tokens.current.isInlineTrivia_eq.symm.trans hcurrent
      exact (hblank _ _ hcurrent).trans (hblank _ _ hcurrent').symm
    | false =>
      rw [hs.kind_eq hcurrent]
      exact (hs.tokens.peek_one hcurrent).kind.apply_eq _ (hf _)

/-- What goes on with the token at the cursor, which is no blank. -/
theorem Alike.of_current_solid {f g : Token → Production α}
    (h : ∀ x : Twins V Token, x.left.kind = x.right.kind → Alike V true (f x.left) (g x.right)) :
    Alike V true (current >>= f) (current >>= g) where
  leads {s s'} hs hsolid :=
    (h ⟨s.stream.current, s'.stream.current, hs.tokens.current⟩ (hs.kind_eq (hsolid rfl))).leads hs
      hsolid

/-- What goes on with the token that comes next, which is no blank. -/
theorem Alike.of_next {f g : Token → Production α}
    (h : ∀ x : Twins V Token, x.left.kind = x.right.kind → Alike V onSolid (f x.left) (g x.right)) :
    Alike V onSolid (next >>= f) (next >>= g) where
  leads {s s'} hs hsolid :=
    (h ⟨s.stream.peekSignificant 0, s'.stream.peekSignificant 0, hs.tokens.peekSignificant 0⟩
      (hs.tokens.kind_peekSignificant 0)).leads hs hsolid

end

instance : Alike V onSolid current current := .of_look fun _ _ hs _ => hs.tokens.current

instance : Alike V true currentKind currentKind :=
  .of_look fun _ _ hs hsolid => hs.kind_eq (hsolid rfl)

instance : Alike V onSolid next next := .of_look fun _ _ hs _ => hs.tokens.peekSignificant 0

instance : Alike V onSolid nextKind nextKind := .of_nextKinds fun k _ => k

instance : Alike V onSolid secondKind secondKind := .of_nextKinds fun _ l => l

instance (k : Kind) : Alike V onSolid (atNext k) (atNext k) := .of_nextKinds fun l _ => l == k

instance (k : Keyword) : Alike V onSolid (atCurrent (.keyword k)) (atCurrent (.keyword k)) :=
  .of_current (· == .keyword k) rfl

instance (l : Lexeme) : Alike V onSolid (atCurrent (.lexeme l)) (atCurrent (.lexeme l)) :=
  .of_current (· == .lexeme l) rfl

instance : Alike V onSolid (atCurrent (.trivia .newline)) (atCurrent (.trivia .newline)) :=
  .of_current (· == .trivia .newline) rfl

/-- A test of the kind at the cursor that no blank passes. -/
theorem TestsSolid.of_current {f : Kind → Bool} (hf : ∀ k, k.isInlineTrivia = true → f k = false) :
    TestsSolid (look fun s => f s.current.kind) where
  run_eq _ := rfl
  onSolid {s} h := by
    cases hcurrent : s.stream.current.kind.isInlineTrivia with
    | true =>
      rw [run_look, hf _ hcurrent] at h
      cases h
    | false => exact hcurrent

instance (k : Keyword) : TestsSolid (atCurrent (.keyword k)) :=
  .of_current (f := (· == .keyword k)) fun l hl => by
    rcases Kind.eq_of_isInlineTrivia hl with rfl | rfl <;> rfl

instance (l : Lexeme) : TestsSolid (atCurrent (.lexeme l)) :=
  .of_current (f := (· == .lexeme l)) fun k hk => by
    rcases Kind.eq_of_isInlineTrivia hk with rfl | rfl <;> rfl

instance : TestsSolid (atCurrent (.trivia .newline)) :=
  .of_current (f := (· == .trivia .newline)) fun k hk => by
    rcases Kind.eq_of_isInlineTrivia hk with rfl | rfl <;> rfl

section

variable {α : Type} [Observed α] {c : Kind → Bool}

/-- What a test of the kind at the cursor guards that no blank passes, with the token at the
cursor. -/
theorem Alike.of_tokenTest (hc : ∀ k, k.isInlineTrivia = true → c k = false)
    {p q r u : Token → Production α} [hp : ∀ x : Twins V Token, Alike V true (p x.left) (q x.right)]
    [hp' : ∀ x : Twins V Token, Alike V onSolid (r x.left) (u x.right)] :
    Alike V onSolid (current >>= fun t => if c t.kind then p t else r t)
      (current >>= fun t => if c t.kind then q t else u t) where
  leads {s s'} hs hsolid := by
    have hkind : c s.stream.current.kind = c s'.stream.current.kind :=
      hs.tokens.current.kind.apply_eq c ((hc _ rfl).trans (hc _ rfl).symm)
    let x : Twins V Token := ⟨s.stream.current, s'.stream.current, hs.tokens.current⟩
    unfold current
    rw [run_look_bind, run_look_bind, ← hkind]
    cases hholds : c s.stream.current.kind with
    | true =>
      have hon : s.OnSolid := (TestsSolid.of_current hc).onSolid hholds
      exact (hp x).leads hs fun _ => hon
    | false => exact (hp' x).leads hs hsolid

/-- What a test of the kind at the cursor guards that no blank passes. -/
theorem Alike.of_kindTest (hc : ∀ k, k.isInlineTrivia = true → c k = false)
    {p q p' q' : Production α}
    [Alike V true p q] [Alike V onSolid p' q'] :
    Alike V onSolid (currentKind >>= fun k => if c k then p else p')
      (currentKind >>= fun k => if c k then q else q') :=
  Alike.of_tokenTest (p := fun _ => p) (q := fun _ => q) (r := fun _ => p') (u := fun _ => q') hc

end

instance (block : Block) : Alike V onSolid (blockIsOpen block) (blockIsOpen block) :=
  .of_get fun s s' hs => by
    rw [hs.blocks]
    infer_instance

instance : Alike V onSolid insideProcedure insideProcedure :=
  .of_get fun s s' hs => by
    rw [hs.blocks]
    infer_instance

/-! ## Failures -/

instance (wanted wanted' : Wanted) (t t' : Token) :
    SameCode (.expected wanted t) (.expected wanted' t') :=
  ⟨rfl⟩
instance (t t' : Token) : SameCode (.unexpectedStart t) (.unexpectedStart t') := ⟨rfl⟩
instance (t t' : Token) : SameCode (.leftover t) (.leftover t') := ⟨rfl⟩
instance (t t' : Token) : SameCode (.expectedCase t) (.expectedCase t') := ⟨rfl⟩
instance (block block' : Block) (t t' : Token) :
    SameCode (.missingCloser block t) (.missingCloser block' t') := ⟨rfl⟩
instance (t t' : Token) : SameCode (.memberOutsideWith t) (.memberOutsideWith t') := ⟨rfl⟩
instance (written written' : Bytes) (closer closer' : Closer) :
    SameCode (.unmatchedCloser written closer) (.unmatchedCloser written' closer') := ⟨rfl⟩
instance (t t' : Token) : SameCode (.unmatchedNext t) (.unmatchedNext t') := ⟨rfl⟩
instance (problem : Problem) : SameCode problem problem := ⟨rfl⟩

instance {problem problem' : Problem} [SameCode problem problem'] {t t' : Token} [Same V t t'] :
    Alike V onSolid (fail problem t) (fail problem' t') := by
  unfold fail
  refine .of_get fun s s' hs => ?_
  dsimp only
  rw [hs.recovering]
  infer_instance

instance (wanted : Wanted) : Alike V onSolid (failExpected wanted) (failExpected wanted) := by
  unfold failExpected
  infer_instance

instance (k : Kind) : Alike V false (accept k) (accept k) := by unfold accept; infer_instance

instance (k : Kind) : Alike V false (expect k) (expect k) := by unfold expect; infer_instance

/-! ## The ends of statements -/

instance : Alike V onSolid atStatementEnd atStatementEnd where
  leads hs _ := hs.leads (congrArg₂ endsStatement (hs.tokens.kind_peekSignificant 0) hs.lineMode)

instance : Alike V onSolid withinStatement withinStatement where
  leads hs _ := hs.leads (congrArg (!·)
    (congrArg₂ endsStatement (hs.tokens.kind_peekSignificant 0) hs.lineMode))

instance : Alike V onSolid shiftRest shiftRest := by unfold shiftRest; infer_instance

instance : Alike V false recover recover := by unfold recover; infer_instance

instance : Alike V false shiftLineBreak shiftLineBreak := by
  unfold shiftLineBreak
  exact .of_kindTest (c := Kind.isComment) fun k hk => by
    rcases Kind.eq_of_isInlineTrivia hk with rfl | rfl <;> rfl

instance : Alike V false finishStatement finishStatement := by
  have hbreak : Alike V false (get >>= fun s => if s.lineMode == 0 then shiftLineBreak else pure ())
      (get >>= fun s => if s.lineMode == 0 then shiftLineBreak else pure ()) :=
    .of_get fun s s' hs => by
      rw [hs.lineMode]
      infer_instance
  have hleftover {p : Production Unit} [Alike V false p p] : Alike V false
      (next >>= fun t => if t.kind.isLexicalError then
        (do setRecovering true; fail (.leftover t) t; p) else (do fail (.leftover t) t; p))
      (next >>= fun t => if t.kind.isLexicalError then
        (do setRecovering true; fail (.leftover t) t; p) else (do fail (.leftover t) t; p)) :=
    .of_next fun x hkind => by
      rw [hkind]
      infer_instance
  unfold finishStatement
  dsimp only
  infer_instance

instance (k : NodeKind) : Alike V true (rawStatement k) (rawStatement k) := by
  unfold rawStatement
  infer_instance

instance (item : Production Unit) [Alike V false item item] [Composed false item] :
    Alike V false (commaList item) (commaList item) := by
  unfold commaList
  infer_instance

/-! ## Expressions -/

instance : Alike V true nameExpression nameExpression := by unfold nameExpression; infer_instance

instance (wanted : Wanted) : Alike V false (expectName wanted) (expectName wanted) := by
  unfold expectName
  infer_instance

instance (wanted : Wanted) : Alike V false (hasName wanted) (hasName wanted) := by
  unfold hasName
  infer_instance

instance : Alike V false memberName memberName := by
  unfold memberName
  exact .of_tokenTest (c := Kind.isMemberName) fun k hk => by
    rcases Kind.eq_of_isInlineTrivia hk with rfl | rfl <;> rfl

/-- What changes at most the accesses that refer to a header. -/
theorem Alike.of_targets {p q : Production Unit}
    (hp : ∀ s, ∃ targets, p.run s = ((), { s with implicitTargets := targets }))
    (hq : ∀ s, ∃ targets, q.run s = ((), { s with implicitTargets := targets })) :
    Alike V onSolid p q where
  leads {s s'} hs _ := by
    obtain ⟨targets, hrun⟩ := hp s
    obtain ⟨targets', hrun'⟩ := hq s'
    rw [hrun, hrun']
    exact ⟨⟨[], [], .of_silent rfl rfl rfl rfl rfl, .of_silent rfl rfl rfl rfl rfl, rfl⟩,
      { hs with },
      rfl⟩

instance {sign sign' : Token} [Same V sign sign'] (access access' : Option Tree) :
    Alike V onSolid (referToHeader sign access) (referToHeader sign' access') := by
  unfold referToHeader
  refine .of_get fun s s' hs => ?_
  have hlength := hs.withTargets
  cases hheaders : s.withTargets with
  | nil =>
    rw [hheaders] at hlength
    rw [List.eq_nil_of_length_eq_zero hlength.symm]
    dsimp only
    infer_instance
  | cons header headers =>
    rw [hheaders] at hlength
    -- inside of a `With` an access is at most noted, and that is not seen
    obtain ⟨header', headers', hheaders'⟩ := List.exists_cons_of_length_eq_add_one hlength.symm
    rw [hheaders']
    refine .of_targets (fun t => ?_) fun t => ?_
    · cases header <;> cases access <;> exact ⟨_, rfl⟩
    · cases header' <;> cases access' <;> exact ⟨_, rfl⟩

instance : Alike V true leadingAccess leadingAccess := by
  unfold leadingAccess
  refine .of_current_solid fun x hkind => ?_
  rw [hkind]
  infer_instance

instance : Alike V onSolid atMemberAccess atMemberAccess :=
  .of_neighbours (fun k l => Lookahead.isAccessSign k && l.isMemberName)
    (fun k l hk => by rcases Kind.eq_of_isInlineTrivia hk with rfl | rfl <;> rfl) fun _ => rfl

instance : Alike V onSolid atQualifier atQualifier :=
  .of_neighbours (fun k l => k == .lexeme .period && l.isMemberName)
    (fun k l hk => by rcases Kind.eq_of_isInlineTrivia hk with rfl | rfl <;> rfl) fun _ => rfl

/-- Behind a period, the name that goes on a qualified name is moved with it. -/
theorem leads_qualifier {s s' : State} (hs : SameState V s s') (h : (atQualifier.run s).1 = true) :
    Leads V s s' ((do shift; shift : Production Unit).run s)
      ((do shift; shift : Production Unit).run s') := by
  simp only [atQualifier, run_look, Bool.and_eq_true, beq_iff_eq] at h
  have hend : ¬ s.AtEnd := by simp [State.AtEnd, h.1]
  have hsolid : s.OnSolid := by rw [State.OnSolid, h.1]; rfl
  have hshift : Alike V true shift shift := inferInstance
  have hleads := hshift.leads hs fun _ => hsolid
  refine .trans hleads.adds (hshift.leads hleads.state fun _ => ?_)
  -- the name comes to stand at the cursor
  have hname := h.2
  rw [← TokenStream.current_advance (TokenStream.ahead_ne_nil hend)] at hname
  rw [run_shift hend]
  unfold State.OnSolid
  change s.stream.advance.current.kind.isInlineTrivia = false
  cases hkind : s.stream.advance.current.kind <;> rw [hkind] at hname <;> first | rfl | cases hname

instance : Alike V false typeName typeName := by
  have hqualifiers : Alike V false (repeatWhile atQualifier (do shift; shift))
      (repeatWhile atQualifier (do shift; shift)) :=
    .of_body fun _ _ => leads_qualifier
  have hname : Alike V false (do
      if (← currentKind).isNameLike then
        shift
        repeatWhile atQualifier (do shift; shift)
      else
        failExpected .typeName) (do
      if (← currentKind).isNameLike then
        shift
        repeatWhile atQualifier (do shift; shift)
      else
        failExpected .typeName) :=
    .of_kindTest (c := Kind.isNameLike) fun k hk => by
      rcases Kind.eq_of_isInlineTrivia hk with rfl | rfl <;> rfl
  unfold typeName
  infer_instance

section

variable {operand : Nat → Production (Option Tree)} [∀ power, Composed false (operand power)]
  [∀ power, Alike V false (operand power) (operand power)]

instance : TestsSolid atNamedArgument where
  run_eq _ := rfl
  onSolid {s} h := by
    change (s.stream.current.kind.isNameLike && _) = true at h
    unfold State.OnSolid
    cases hkind : s.stream.current.kind <;> rw [hkind] at h <;> first | rfl | cases h

instance : Alike V onSolid atNamedArgument atNamedArgument :=
  .of_look fun s s' hs _ => by
    rw [hs.tokens.current.kind.apply_eq Kind.isNameLike rfl, hs.tokens.kind_peekSignificant 1]
    rfl

instance : Alike V false optionalParameterName optionalParameterName := by
  unfold optionalParameterName
  infer_instance

instance : Alike V false (argumentWith operand) (argumentWith operand) := by
  unfold argumentWith
  infer_instance

instance (u u' : Unit) : Alike V false (argumentPass operand u) (argumentPass operand u') := by
  unfold argumentPass
  infer_instance

instance : Alike V true (argumentListWith operand) (argumentListWith operand) := by
  unfold argumentListWith
  infer_instance

instance (spacedCall : Bool) : Alike V onSolid (atArguments spacedCall) (atArguments spacedCall) :=
  .of_look fun s s' hs _ => by
    rw [hs.tokens.current.kind.apply_eq (· == .lexeme .leftParen) rfl,
      hs.tokens.current.isInlineTrivia_eq, hs.tokens.kind_peekSignificant 0]
    rfl

instance (cp cp' : Checkpoint) (spacedCall : Bool) {base base' : Option Tree} [Same V base base'] :
    AlikeFrom V false cp cp' (suffixPass operand cp spacedCall base)
      (suffixPass operand cp' spacedCall base') := by
  unfold suffixPass
  infer_instance

instance (cp cp' : Checkpoint) (spacedCall : Bool) {base base' : Option Tree} [Same V base base'] :
    AlikeFrom V false cp cp' (suffixesWith operand cp spacedCall base)
      (suffixesWith operand cp' spacedCall base') := by
  unfold suffixesWith
  infer_instance

instance (wanted : Wanted) (spacedCall : Bool) :
    Alike V false (designatorWith operand wanted spacedCall)
      (designatorWith operand wanted spacedCall) := by
  unfold designatorWith
  infer_instance

instance : Alike V false (variableWith operand) (variableWith operand) := by
  unfold variableWith
  infer_instance

instance : Alike V false (calleeWith operand) (calleeWith operand) := by
  unfold calleeWith
  infer_instance

instance : Alike V true (parenthesizedWith operand) (parenthesizedWith operand) := by
  unfold parenthesizedWith
  infer_instance

instance : Alike V true (primaryWith operand) (primaryWith operand) := by
  unfold primaryWith
  refine .of_current_solid fun x hkind => ?_
  rw [hkind]
  cases literalKind? x.right.kind with
  | some literal => dsimp only; infer_instance
  | none =>
    dsimp only
    generalize x.right.kind = kind
    split <;> infer_instance

instance : Alike V true (typeOfWith operand) (typeOfWith operand) := by
  unfold typeOfWith
  infer_instance

instance (cp cp' : Checkpoint) {primary primary' : Option Tree} [h : Same V primary primary'] :
    AlikeFrom V false cp cp' (operandSuffixes operand cp primary)
      (operandSuffixes operand cp' primary') := by
  match primary, primary', h with
  | none, none, _ => unfold operandSuffixes; infer_instance
  | some n, some n', _ => unfold operandSuffixes; infer_instance
  | none, some n', h => cases h.same
  | some n, none, h => cases h.same

instance : Alike V false (unaryWith operand) (unaryWith operand) := by
  unfold unaryWith
  refine .of_skipBlanks fun _ => .bind_still fun kind kind' hkind => ?_
  obtain rfl : kind = kind' := hkind
  split
  · infer_instance
  · split <;> infer_instance

instance (cp cp' : Checkpoint) (power : Nat) {left left' : Option Tree} [Same V left left'] :
    AlikeFrom V false cp cp' (operatorPass operand cp power left)
      (operatorPass operand cp' power left') := by
  unfold operatorPass
  refine .bind inferInstance fun kind kind' hkind => ?_
  obtain rfl : kind = kind' := hkind
  split <;> infer_instance

instance (power : Nat) : Alike V false (binaryWith operand power) (binaryWith operand power) := by
  unfold binaryWith
  infer_instance

end

instance (depth power : Nat) : Alike V false (binaryUpTo depth power) (binaryUpTo depth power) := by
  induction depth generalizing power with
  | zero => unfold binaryUpTo; infer_instance
  | succ depth ih => unfold binaryUpTo; infer_instance

/-- Expressions nest no deeper than their bound in either reading, so it may be the same. -/
instance (power : Nat) : Alike V false (expressionAbove power) (expressionAbove power) where
  leads {s s'} hs hsolid := by
    obtain ⟨n, hn, hn'⟩ : ∃ n, s.stream.remaining ≤ n ∧ s'.stream.remaining ≤ n :=
      ⟨max s.stream.remaining s'.stream.remaining, Nat.le_max_left _ _, Nat.le_max_right _ _⟩
    have hagree : AgreeUpTo n (binaryUpTo (n + 1) power) (expressionAbove power) :=
      agreeUpTo_expressionAbove (Nat.lt_succ_self n) power
    rw [← hagree.run_eq s (.inr hn), ← hagree.run_eq s' (.inr hn')]
    exact Alike.leads hs hsolid

instance : Alike V false expression expression := by unfold expression; infer_instance

instance : Alike V false operand operand := by unfold operand; infer_instance

instance : Alike V false variable_ variable_ := by unfold variable_; infer_instance

instance : Alike V false callee callee := by unfold callee; infer_instance

instance : Alike V true argumentList argumentList := by unfold argumentList; infer_instance

instance : Alike V onSolid atArgumentSign atArgumentSign :=
  .of_nextKinds fun k _ => k == .lexeme .comma || k == .lexeme .semicolon

instance (u u' : Unit) : Alike V false (commandArgumentPass u) (commandArgumentPass u') := by
  unfold commandArgumentPass
  infer_instance

instance : Alike V false commandArguments commandArguments := by
  unfold commandArguments
  infer_instance

end LosslessBasic.Grammar
