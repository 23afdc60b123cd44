import LosslessBasic.Proofs.Grammar.Anchor

/-!
# What a procedure starts with does not depend on what separates it

What stands between two statements shows in three places only: a colon asks whether it separates
anything, a name or a number whether it starts a line, and the end of a statement sets it anew. The
header of a procedure is none of the first two, so a procedure is read the same behind a line break
and behind anything else (`State.AtHeader.run_statementWith_separated`).
-/

namespace LosslessBasic.Grammar

set_option synthInstance.maxSize 65536

/-- The state with something else between the statement before and the next one. -/
def State.separated (s : State) (separator : Separator) : State :=
  { s with lastSeparator := separator }

/-- A production that leaves alone what separates two statements, and does not look at it. -/
class IgnoresSeparator {α : Type} (p : Production α) : Prop where
  run_separated (s : State) (separator : Separator) :
    p.run (s.separated separator) = ((p.run s).1, (p.run s).2.separated separator)

/-- A production that sets anew what separates two statements, and does not look at it. -/
class ForgetsSeparator {α : Type} (p : Production α) : Prop where
  run_separated (s : State) (separator : Separator) : p.run (s.separated separator) = p.run s

section

variable {α β : Type} {p q : Production α}

instance (a : α) : IgnoresSeparator (pure a : Production α) := ⟨fun _ _ => rfl⟩

instance (f : TokenStream → α) : IgnoresSeparator (look f) := ⟨fun _ _ => rfl⟩

instance : IgnoresSeparator checkpoint := ⟨fun _ _ => rfl⟩

instance (activity : Activity) (t : Token) : IgnoresSeparator (note activity t) := ⟨fun _ _ => rfl⟩

instance (recovering : Bool) : IgnoresSeparator (setRecovering recovering) := ⟨fun _ _ => rfl⟩

instance (access header : Tree) : IgnoresSeparator (addTarget access header) := ⟨fun _ _ => rfl⟩

instance (problem : Problem) (t : Token) : IgnoresSeparator (report problem t) := ⟨fun _ _ => rfl⟩

instance : IgnoresSeparator shift where
  run_separated s separator := by
    by_cases hend : s.AtEnd
    · rw [run_shift_of_atEnd hend]
      exact run_shift_of_atEnd (s := s.separated separator) hend
    · rw [run_shift hend]
      exact run_shift (s := s.separated separator) hend

instance {f : α → Production β} [hp : IgnoresSeparator p] [hf : ∀ a, IgnoresSeparator (f a)] :
    IgnoresSeparator (p >>= f) where
  run_separated s separator := by
    rw [run_bind, run_bind, hp.run_separated]
    exact (hf _).run_separated _ separator

/-- What is looked up of the state apart from what separates statements. -/
theorem IgnoresSeparator.of_get {f : State → Production β}
    (hsame : ∀ s separator, f (s.separated separator) = f s) [hf : ∀ s, IgnoresSeparator (f s)] :
    IgnoresSeparator (get >>= f) where
  run_separated s separator := by
    rw [run_bind, run_get, run_bind, run_get]
    dsimp only
    rw [hsame]
    exact (hf s).run_separated s separator

instance {k : NodeKind} [hp : IgnoresSeparator p] : IgnoresSeparator (within k p) where
  run_separated s separator := by
    have hbody := hp.run_separated (s.opening k) separator
    rw [run_within, run_within]
    exact congrArg (fun r : α × State => (r.1, r.2.closing)) hbody

instance {k : NodeKind} {p : Production Unit} [hp : IgnoresSeparator p] :
    IgnoresSeparator (composite k p) where
  run_separated s separator := by
    have hbody := hp.run_separated (s.opening k) separator
    rw [run_composite, run_composite]
    exact congrArg (fun r : Unit × State => (r.2.builder.finishNode.1, r.2.closing)) hbody

instance {cp : Checkpoint} {k : NodeKind} {p : Production Unit} [hp : IgnoresSeparator p] :
    IgnoresSeparator (compositeFrom cp k p) where
  run_separated s separator := by
    have hbody := hp.run_separated (s.openingAt cp k) separator
    rw [run_compositeFrom, run_compositeFrom]
    exact congrArg (fun r : Unit × State => (r.2.builder.finishNode.1, r.2.closing)) hbody

instance {c : Prop} [Decidable c] [IgnoresSeparator p] [IgnoresSeparator q] :
    IgnoresSeparator (if c then p else q) := by
  split <;> infer_instance

instance {exhausted : α → β} {pass : α → Production (Pass α β)} [∀ a, IgnoresSeparator (pass a)]
    (n : Nat) (a : α) : IgnoresSeparator (iterateUpTo exhausted pass n a) := by
  induction n generalizing a with
  | zero => unfold iterateUpTo; infer_instance
  | succ n ih =>
    have hrest (r : Pass α β) : IgnoresSeparator (match r with
        | .again a => iterateUpTo exhausted pass n a
        | .done b => pure b) := by
      cases r with
      | again a => exact ih a
      | done b => dsimp only; infer_instance
    unfold iterateUpTo
    infer_instance

instance {exhausted : α → β} {pass : α → Production (Pass α β)} [∀ a, IgnoresSeparator (pass a)]
    (a : α) : IgnoresSeparator (iterate exhausted pass a) := by
  unfold iterate
  infer_instance

instance {test : Production Bool} {body : Production Unit} [IgnoresSeparator test]
    [IgnoresSeparator body] (n : Nat) : IgnoresSeparator (repeatWhileUpTo test body n) := by
  induction n with
  | zero => unfold repeatWhileUpTo; infer_instance
  | succ n ih => unfold repeatWhileUpTo; infer_instance

instance {test : Production Bool} {body : Production Unit} [IgnoresSeparator test]
    [IgnoresSeparator body] : IgnoresSeparator (repeatWhile test body) := by
  unfold repeatWhile
  infer_instance

end

/-! ## Expressions -/

instance : IgnoresSeparator skipBlanks := by unfold skipBlanks; infer_instance

instance : IgnoresSeparator shiftNext := by unfold shiftNext; infer_instance

instance : IgnoresSeparator next := by unfold next; infer_instance

instance : IgnoresSeparator current := by unfold current; infer_instance

instance : IgnoresSeparator currentKind := by unfold currentKind; infer_instance

instance : IgnoresSeparator nextKind := by unfold nextKind; infer_instance

instance (k : Kind) : IgnoresSeparator (atCurrent k) := by unfold atCurrent; infer_instance

instance (k : Kind) : IgnoresSeparator (atNext k) := by unfold atNext; infer_instance

instance (k : Kind) : IgnoresSeparator (accept k) := by unfold accept; infer_instance

instance (problem : Problem) (t : Token) : IgnoresSeparator (fail problem t) := by
  unfold fail
  exact .of_get fun _ _ => rfl

instance (wanted : Wanted) : IgnoresSeparator (failExpected wanted) := by
  unfold failExpected
  infer_instance

instance (k : Kind) : IgnoresSeparator (expect k) := by unfold expect; infer_instance

instance : IgnoresSeparator atStatementEnd := by
  have hmode (kind : Kind) : IgnoresSeparator (do return endsStatement kind (← get).lineMode) :=
    .of_get fun _ _ => rfl
  unfold atStatementEnd
  infer_instance

instance : IgnoresSeparator withinStatement := by unfold withinStatement; infer_instance

instance : IgnoresSeparator shiftRest := by unfold shiftRest; infer_instance

instance : IgnoresSeparator recover := by unfold recover; infer_instance

instance {item : Production Unit} [IgnoresSeparator item] : IgnoresSeparator (commaList item) := by
  unfold commaList
  infer_instance

instance : IgnoresSeparator nameExpression := by unfold nameExpression; infer_instance

instance (wanted : Wanted) : IgnoresSeparator (expectName wanted) := by
  unfold expectName
  infer_instance

instance (wanted : Wanted) : IgnoresSeparator (hasName wanted) := by unfold hasName; infer_instance

instance : IgnoresSeparator memberName := by unfold memberName; infer_instance

instance (sign : Token) (access : Option Tree) : IgnoresSeparator (referToHeader sign access) := by
  have hheader (s : State) : IgnoresSeparator (match s.withTargets, access with
      | [], _ => fail (.memberOutsideWith sign) sign
      | some header :: _, some access => addTarget access header
      | _, _ => pure ()) := by
    split <;> infer_instance
  unfold referToHeader
  exact .of_get fun _ _ => rfl

instance : IgnoresSeparator leadingAccess := by unfold leadingAccess; infer_instance

instance : IgnoresSeparator typeName := by unfold typeName atQualifier; infer_instance

instance : IgnoresSeparator optionalParameterName := by
  unfold optionalParameterName atNamedArgument
  infer_instance

section

variable {x : Nat → Production (Option Tree)} [∀ power, IgnoresSeparator (x power)]

instance : IgnoresSeparator (argumentWith x) := by unfold argumentWith; infer_instance

instance (u : Unit) : IgnoresSeparator (argumentPass x u) := by unfold argumentPass; infer_instance

instance : IgnoresSeparator (argumentListWith x) := by unfold argumentListWith; infer_instance

instance (cp : Checkpoint) (spacedCall : Bool) (base : Option Tree) :
    IgnoresSeparator (suffixPass x cp spacedCall base) := by
  unfold suffixPass atMemberAccess atArguments
  infer_instance

instance (cp : Checkpoint) (spacedCall : Bool) (base : Option Tree) :
    IgnoresSeparator (suffixesWith x cp spacedCall base) := by
  unfold suffixesWith
  infer_instance

instance (wanted : Wanted) (spacedCall : Bool) :
    IgnoresSeparator (designatorWith x wanted spacedCall) := by
  unfold designatorWith
  infer_instance

instance : IgnoresSeparator (calleeWith x) := by unfold calleeWith; infer_instance

instance : IgnoresSeparator (parenthesizedWith x) := by unfold parenthesizedWith; infer_instance

instance : IgnoresSeparator (primaryWith x) := by
  have hprimary (t : Token) : IgnoresSeparator (match literalKind? t.kind with
      | some literal => composite literal shift
      | none =>
        match t.kind with
        | .lexeme .leftParen => parenthesizedWith x
        | .lexeme .period | .lexeme .bang => leadingAccess
        | .lexeme .unterminatedString | .lexeme .unknownCharacter => do
          setRecovering true
          composite .unknown shift
        | kind =>
          if kind.isNameLike then nameExpression
          else do
            fail (.expected .expression t) t
            return none) := by
    split
    · infer_instance
    · split <;> infer_instance
  unfold primaryWith
  infer_instance

instance : IgnoresSeparator (typeOfWith x) := by unfold typeOfWith; infer_instance

instance (cp : Checkpoint) (primary : Option Tree) :
    IgnoresSeparator (operandSuffixes x cp primary) := by
  cases primary <;> unfold operandSuffixes <;> infer_instance

instance : IgnoresSeparator (unaryWith x) := by
  have hunary (kind : Kind) : IgnoresSeparator (match Operator.unaryPower? kind with
      | some power =>
        composite .unaryExpression do
          shift
          let _ ← x power
      | none =>
        match kind with
        | .keyword .addressOf =>
          composite .addressOfExpression do
            shift
            let _ ← calleeWith x
        | .keyword .new =>
          composite .newExpression do
            shift
            skipBlanks
            let _ ← typeName
        | .keyword .typeOf => typeOfWith x
        | _ => do
          let cp ← checkpoint
          operandSuffixes x cp (← primaryWith x)) := by
    split
    · infer_instance
    · split <;> infer_instance
  unfold unaryWith
  infer_instance

instance (cp : Checkpoint) (power : Nat) (left : Option Tree) :
    IgnoresSeparator (operatorPass x cp power left) := by
  have hoperator (binding? : Option Nat) : IgnoresSeparator (match binding? with
      | none => (pure (.done left) : Production (Pass (Option Tree) (Option Tree)))
      | some binding => do
        if binding < power then return .done left
        shiftNext
        let _ ← x (binding + 1)
        return .again (← compositeFrom cp .binaryExpression (pure ()))) := by
    split <;> infer_instance
  unfold operatorPass
  infer_instance

instance (power : Nat) : IgnoresSeparator (binaryWith x power) := by
  unfold binaryWith
  infer_instance

end

instance (depth power : Nat) : IgnoresSeparator (binaryUpTo depth power) := by
  induction depth generalizing power with
  | zero => unfold binaryUpTo; infer_instance
  | succ depth ih => unfold binaryUpTo; infer_instance

instance : IgnoresSeparator operand := by
  unfold operand expression expressionAbove
  infer_instance

/-! ## Headers -/

instance : IgnoresSeparator shiftDeclarator := by
  unfold shiftDeclarator shiftModifiers
  infer_instance

instance : IgnoresSeparator optionalAsClause := by
  unfold optionalAsClause asClause
  infer_instance

instance : IgnoresSeparator parameter := by unfold parameter; infer_instance

instance : IgnoresSeparator optionalParameterList := by
  unfold optionalParameterList group groupPass
  infer_instance

instance : IgnoresSeparator accessor := by unfold accessor; infer_instance

instance : IgnoresSeparator signature := by unfold signature; infer_instance

/-! ## Procedures -/

section

variable {α β : Type} {p : Production α}

instance {f : α → Production β} [hp : IgnoresSeparator p] [hf : ∀ a, ForgetsSeparator (f a)] :
    ForgetsSeparator (p >>= f) where
  run_separated s separator := by
    rw [run_bind, run_bind, hp.run_separated]
    exact (hf _).run_separated _ separator

instance {f : α → Production β} [hp : ForgetsSeparator p] : ForgetsSeparator (p >>= f) where
  run_separated s separator := by rw [run_bind, run_bind, hp.run_separated]

instance (separator : Separator) : ForgetsSeparator (setSeparator separator) := ⟨fun _ _ => rfl⟩

instance {k : NodeKind} [hp : ForgetsSeparator p] : ForgetsSeparator (within k p) where
  run_separated s separator := by
    have hbody := hp.run_separated (s.opening k) separator
    rw [run_within, run_within]
    exact congrArg (fun r : α × State => (r.1, r.2.closing)) hbody

instance {c : Prop} [Decidable c] {q : Production α} [ForgetsSeparator p] [ForgetsSeparator q] :
    ForgetsSeparator (if c then p else q) := by
  split <;> infer_instance

end

instance : ForgetsSeparator finishStatement := by unfold finishStatement; infer_instance

instance (statement : Production Unit) : ForgetsSeparator (procedure statement) := by
  unfold procedure
  infer_instance

/-! ## What starts with the header of a procedure -/

/-- What a statement starts with, whatever it is. -/
def startStatement : Production Unit := do
  setRecovering false
  skipBlanks
  note .statement (← current)

theorem statementWith_eq (statement : Production Unit) :
    statementWith statement = startStatement >>= fun _ => statementAtCursor statement := by
  unfold statementWith startStatement
  simp only [bind_assoc]

section

variable {header : Token} {s : State}

/-- Away from blanks a statement starts at the cursor. -/
theorem run_startStatement (h : s.stream.current.kind.isInlineTrivia = false) :
    startStatement.run s =
      (note .statement s.stream.current).run { s with recovering := false } := by
  have hstart : (setRecovering false).run s = ((), { s with recovering := false }) := rfl
  have hskip : skipBlanks.run { s with recovering := false } =
      ((), { s with recovering := false }) :=
    run_skipBlanks_of_significant h
  unfold startStatement current
  rw [run_bind, hstart, run_bind, hskip, run_look_bind]

theorem State.AtHeader.isInlineTrivia_eq (h : s.AtHeader header) :
    s.stream.current.kind.isInlineTrivia = false := by
  have hsolid := h.solid
  rw [← h.current] at hsolid
  revert hsolid
  cases s.stream.current.kind <;> simp [Kind.isTrivia, Kind.isInlineTrivia]

/-- A header starts a procedure, whatever stands in front of it. -/
theorem State.AtHeader.run_statementFor (h : s.AtHeader header) (statement : Production Unit) :
    (statementFor statement s).run s = (procedure statement).run s := by
  have hkind := h.kind_mem
  rw [← h.current] at hkind
  have hword := h.modifiedKind
  have hmodified : (modifiedStatement statement).run s = (procedure statement).run s := by
    unfold modifiedStatement
    rw [run_look_bind]
    simp only [List.mem_cons, List.not_mem_nil, or_false] at hword
    rcases hword with hword | hword | hword <;> rw [hword]
  have hlabel : (atLabel.run s).1 = false := by
    rw [run_atLabel]
    unfold startsLabel
    split <;> simp_all
  have hopened : openedStatement? statement s.stream = some (modifiedStatement statement) ∨
      openedStatement? statement s.stream = some (procedure statement) := by
    unfold openedStatement?
    simp only [List.mem_cons, List.not_mem_nil, or_false] at hkind
    rcases hkind with hkind | hkind | hkind | hkind | hkind | hkind | hkind | hkind <;> rw [hkind]
    all_goals first
      | exact .inl rfl
      | exact .inr rfl
  unfold statementFor
  rw [hlabel]
  rcases hopened with hopened | hopened <;> rw [hopened]
  · exact hmodified
  · rfl

/-- A procedure is read the same whatever separates it from the statement before. -/
theorem State.AtHeader.run_statementWith_separated (h : s.AtHeader header)
    (statement : Production Unit)
    (separator : Separator) :
    (statementWith statement).run (s.separated separator) = (statementWith statement).run s := by
  have hseparated : (s.separated separator).AtHeader header := ⟨h.current, h.solid, h.starts⟩
  have hrun {t : State} (ht : t.AtHeader header) : (statementWith statement).run t =
      (procedure statement).run
        ((note .statement header).run { t with recovering := false }).2 := by
    have hstarted :
        ((note .statement header).run { t with recovering := false }).2.AtHeader header :=
      ⟨ht.current, ht.solid, ht.starts⟩
    rw [statementWith_eq, run_bind, run_startStatement ht.isInlineTrivia_eq, ht.current,
      run_statementAtCursor]
    exact hstarted.run_statementFor statement
  have hprocedure : ForgetsSeparator (procedure statement) := inferInstance
  have hnoted :
      ((note .statement header).run { s.separated separator with recovering := false }).2 =
      State.separated ((note .statement header).run { s with recovering := false }).2 separator :=
        rfl
  have hbehind := hrun hseparated
  rw [hnoted, hprocedure.run_separated] at hbehind
  exact hbehind.trans (hrun h).symm

end

end LosslessBasic.Grammar
