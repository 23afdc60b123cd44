import LosslessBasic.Lexer
import LosslessBasic.Proofs.Grammar.Naming

/-!
# Soft keywords are names in expressions

What an expression is read as does not depend on which of its names are identifiers and which are
soft keywords (`expression_ignores_names`): reading commutes with forgetting it. The moves of the
grammar do (`Transparent`), and so does every production that asks a kind no more than whether it is
that of a name.
-/

namespace LosslessBasic.Grammar

set_option synthInstance.maxSize 65536

/-- What productions give, with identifiers for all names. -/
class Named (α : Type) where
  named : α → α

export Named (named)

instance : Named Unit := ⟨id⟩
instance : Named Bool := ⟨id⟩
instance : Named Checkpoint := ⟨id⟩
instance : Named Kind := ⟨Naming.kind⟩
instance : Named Token := ⟨Naming.token⟩
instance : Named (Option Tree) := ⟨Option.map Naming.tree⟩

instance {α β : Type} [Named α] [Named β] : Named (Pass α β) where
  named
    | .again a => .again (named a)
    | .done b => .done (named b)

/-- What holds no names. -/
class Nameless (α : Type) [Named α] : Prop where
  named_eq (a : α) : named a = a

instance : Nameless Unit := ⟨fun _ => rfl⟩
instance : Nameless Bool := ⟨fun _ => rfl⟩
instance : Nameless Checkpoint := ⟨fun _ => rfl⟩

instance {α β : Type} [Named α] [Named β] [hα : Nameless α] [hβ : Nameless β] :
    Nameless (Pass α β) where
  named_eq
    | .again a => congrArg Pass.again (hα.named_eq a)
    | .done b => congrArg Pass.done (hβ.named_eq b)

/-- Productions of which the one does with identifiers for names what the other one does with
names. -/
class Transparent {α : Type} [Named α] (p q : Production α) : Prop where
  run_eq (s : State) : q.run (Naming.state s) = (named (p.run s).1, Naming.state (p.run s).2)

section

variable {α β : Type} [Named α] [Named β] {p q p' q' : Production α}

/-! ## Moves -/

/-- What gives a result that looks the same is transparent. -/
theorem Transparent.of_pure {a a' : α} (h : a' = named a) : Transparent (pure a) (pure a') where
  run_eq _ := by rw [h]; rfl

instance [h : Nameless α] (a : α) : Transparent (pure a) (pure a) := .of_pure (h.named_eq a).symm

instance : Transparent (pure (none : Option Tree)) (pure none) := .of_pure rfl

instance (a : α) : Transparent (pure a) (pure (named a)) := .of_pure rfl

instance (a : α) :
    Transparent (pure (Pass.again a) : Production (Pass α β)) (pure (Pass.again (named a))) :=
  .of_pure rfl

instance (b : β) :
    Transparent (pure (Pass.done b) : Production (Pass α β)) (pure (Pass.done (named b))) :=
  .of_pure rfl

/-- Transparent productions are transparent in a row. -/
theorem Transparent.bind {f g : α → Production β} (hp : Transparent p q)
    (hf : ∀ a, Transparent (f a) (g (named a))) : Transparent (p >>= f) (q >>= g) where
  run_eq s := by rw [run_bind, hp.run_eq, (hf _).run_eq, run_bind]

instance {f g : α → Production β} [hp : Transparent p q]
    [hf : ∀ a, Transparent (f a) (g (named a))] :
    Transparent (p >>= f) (q >>= g) := hp.bind hf

instance [h : Nameless α] {f g : α → Production β} [hp : Transparent p q]
    [hf : ∀ a, Transparent (f a) (g a)] : Transparent (p >>= f) (q >>= g) :=
  hp.bind fun a => by
    rw [h.named_eq]
    exact hf a

instance {c : Prop} [Decidable c] [Transparent p q] [Transparent p' q'] :
    Transparent (if c then p else p') (if c then q else q') := by
  split <;> infer_instance

/-- A test that comes out the same with identifiers for names. -/
class SameTest (b b' : Bool) : Prop where
  eq : b' = b

instance (k : Kind) : SameTest k.isNameLike (named k).isNameLike := ⟨Naming.isNameLike_kind k⟩
instance (t : Token) : SameTest t.kind.isMemberName (named t).kind.isMemberName :=
  ⟨Naming.isMemberName_kind t.kind⟩
instance (k : Kind) : SameTest (Lookahead.isAccessSign k) (Lookahead.isAccessSign (named k)) :=
  ⟨Naming.isAccessSign_kind k⟩

instance {b b' : Bool} [h : SameTest b b'] [Transparent p q] [Transparent p' q'] :
    Transparent (if b then p else p') (if b' then q else q') := by
  rw [h.eq]
  split <;> infer_instance

/-- What is seen ahead is seen of identifiers, too. -/
theorem Transparent.of_look {f : TokenStream → α} (h : ∀ s, f (Naming.stream s) = named (f s)) :
    Transparent (look f) (look f) where
  run_eq s := congrArg (·, Naming.state s) (h s.stream)

instance : Transparent shift shift where
  run_eq s := by
    -- the end marker, which is not moved, is no name
    by_cases hend : s.stream.current.kind = .lexeme .endOfFile
    · rw [run_shift_of_atEnd hend]
      exact run_shift_of_atEnd (s := Naming.state s) (Naming.kind_eq_endOfFile_iff.mpr hend)
    · rw [run_shift hend, run_shift (s := Naming.state s) (mt Naming.kind_eq_endOfFile_iff.mp hend)]
      have hbuilder := Naming.token_builder s.builder s.stream.current
      have hstream := Naming.advance_stream s.stream
      exact congrArg₂
        (fun b stream =>
          (((), { Naming.state s with builder := b, stream := stream }) : Unit × State))
        hbuilder hstream

instance (recovering : Bool) : Transparent (setRecovering recovering) (setRecovering recovering) :=
  ⟨fun _ => rfl⟩

instance (access header : Tree) :
    Transparent (addTarget access header) (addTarget (Naming.tree access) header) where
  run_eq s := by
    have htargets : (s.implicitTargets.push (access, header)).map Naming.target = _ :=
      Array.map_push
    exact congrArg (fun targets =>
      (((), { Naming.state s with implicitTargets := targets }) : Unit × State))
      htargets.symm

instance (problem : Problem) (t : Token) :
    Transparent (report problem t) (report (Naming.problem problem) (Naming.token t)) where
  run_eq s := by
    have hfailures : (s.failures.push (.atToken problem t)).map Naming.failure = _ := Array.map_push
    have hlog : (s.log.push (.failed (.atToken problem t))).map Naming.event = _ := Array.map_push
    exact congrArg₂
      (fun failures log =>
        (((), { Naming.state s with failures := failures, log := log }) : Unit × State))
      hfailures.symm hlog.symm

instance : Transparent checkpoint checkpoint where
  run_eq s := congrArg (·, Naming.state s) (Naming.checkpoint_builder s.builder)

/-! ## Nodes -/

instance {k : NodeKind} [h : Transparent p q] : Transparent (within k p) (within k q) where
  run_eq s := by rw [run_within, run_within, Naming.state_opening, h.run_eq, Naming.state_closing]

instance {k : NodeKind} {p q : Production Unit} [h : Transparent p q] :
    Transparent (composite k p) (composite k q) where
  run_eq s := by
    rw [run_composite, run_composite, Naming.state_opening, h.run_eq, Naming.state_closing,
      Naming.finishNode_state]
    rfl

instance {cp : Checkpoint} {k : NodeKind} {p q : Production Unit} [h : Transparent p q] :
    Transparent (compositeFrom cp k p) (compositeFrom cp k q) where
  run_eq s := by
    rw [run_compositeFrom, run_compositeFrom, Naming.state_openingAt, h.run_eq,
      Naming.state_closing, Naming.finishNode_state]
    rfl

/-! ## Loops -/

/-- Loops with transparent passes are transparent up to any bound. -/
theorem Transparent.iterateUpTo {exhausted : α → β} {pass pass' : α → Production (Pass α β)}
    (hex : ∀ a, exhausted (named a) = named (exhausted a))
    (hpass : ∀ a, Transparent (pass a) (pass' (named a)))
    (n : Nat) (a : α) :
    Transparent (Grammar.iterateUpTo exhausted pass n a)
      (Grammar.iterateUpTo exhausted pass' n (named a)) := by
  induction n generalizing a with
  | zero => exact .of_pure (hex a)
  | succ n ih =>
    refine (hpass a).bind fun r => ?_
    cases r with
    | again a => exact ih a
    | done b => exact .of_pure rfl

/-- Loops with transparent passes are transparent. -/
theorem Transparent.iterate {exhausted : α → β} {pass pass' : α → Production (Pass α β)}
    (hex : ∀ a, exhausted (named a) = named (exhausted a))
    (hpass : ∀ a, Transparent (pass a) (pass' (named a)))
    (a : α) :
    Transparent (Grammar.iterate exhausted pass a) (Grammar.iterate exhausted pass' (named a)) where
  run_eq s := (Transparent.iterateUpTo hex hpass (s.stream.remaining + 1) a).run_eq s

instance {pass pass' : Unit → Production (Pass Unit Unit)}
    [hpass : ∀ a, Transparent (pass a) (pass' a)] :
    Transparent (iterate (fun _ => ()) pass ()) (iterate (fun _ => ()) pass' ()) :=
  .iterate (fun _ => rfl) (fun a => hpass a) ()

instance {pass pass' : Option Tree → Production (Pass (Option Tree) (Option Tree))}
    [hpass : ∀ n, Transparent (pass n) (pass' (named n))] (n : Option Tree) :
    Transparent (iterate id pass n) (iterate id pass' (named n)) :=
  have hex : ∀ n : Option Tree, id (named n) = named (id n) := fun _ => rfl
  .iterate hex hpass n

instance {test test' : Production Bool} {body body' : Production Unit} [Transparent test test']
    [Transparent body body'] (n : Nat) :
    Transparent (repeatWhileUpTo test body n) (repeatWhileUpTo test' body' n) := by
  induction n with
  | zero => exact .of_pure rfl
  | succ n ih => unfold repeatWhileUpTo; infer_instance

instance {test test' : Production Bool} {body body' : Production Unit} [Transparent test test']
    [Transparent body body'] : Transparent (repeatWhile test body) (repeatWhile test' body') where
  run_eq s := Transparent.run_eq (p := repeatWhileUpTo test body (s.stream.remaining + 1))
    (q := repeatWhileUpTo test' body' (s.stream.remaining + 1)) s

end

/-! ## Looking ahead -/

/-- A kind that is not that of a name. -/
class IsNoName (k : Kind) : Prop where
  isNameLike_eq : k.isNameLike = false

instance : IsNoName (.keyword .byVal) := ⟨rfl⟩
instance : IsNoName (.keyword .is) := ⟨rfl⟩
instance : IsNoName (.lexeme .comma) := ⟨rfl⟩
instance : IsNoName (.lexeme .rightParen) := ⟨rfl⟩

instance : Transparent current current := .of_look fun _ => rfl

instance : Transparent currentKind currentKind := .of_look fun _ => rfl

instance : Transparent next next := .of_look fun s => Naming.peekSignificant_stream s 0

instance : Transparent nextKind nextKind :=
  .of_look fun s => congrArg Token.kind (Naming.peekSignificant_stream s 0)

instance {k : Kind} [hk : IsNoName k] : Transparent (atCurrent k) (atCurrent k) :=
  .of_look fun s => Naming.beq_kind hk.isNameLike_eq s.current.kind

instance {k : Kind} [hk : IsNoName k] : Transparent (atNext k) (atNext k) :=
  .of_look fun s => by
    rw [Naming.peekSignificant_stream]
    exact Naming.beq_kind hk.isNameLike_eq _

/-- What looks at the state and sees nothing of the names. -/
theorem Transparent.of_get {α : Type} [Named α] {f g : State → Production α}
    (h : ∀ s, Transparent (f s) (g (Naming.state s))) : Transparent (get >>= f) (get >>= g) :=
  ⟨fun s => (h s).run_eq s⟩

instance : Transparent atStatementEnd atStatementEnd where
  run_eq s := by
    refine congrArg (·, Naming.state s) ?_
    change endsStatement ((Naming.stream s.stream).peekSignificant 0).kind s.lineMode = _
    rw [Naming.peekSignificant_stream, Naming.kind_token, Naming.endsStatement_kind]
    rfl

/-! ## Tokens and failures -/

instance : Transparent skipBlanks skipBlanks := by
  have htest :
      Transparent (look (·.current.kind.isInlineTrivia)) (look (·.current.kind.isInlineTrivia)) :=
    .of_look fun s => Naming.isInlineTrivia_kind s.current.kind
  unfold skipBlanks
  infer_instance

instance : Transparent shiftNext shiftNext := by unfold shiftNext; infer_instance

/-- A failure looks the same, so to fail is transparent. -/
theorem Transparent.of_fail (problem : Problem) (t : Token) :
    Transparent (fail problem t) (fail (Naming.problem problem) (named t)) := by
  unfold fail
  refine .of_get fun s => ?_
  -- whether failures are held back is told without names
  change Transparent _ (do
    unless s.recovering do report (Naming.problem problem) (Naming.token t)
    setRecovering true)
  infer_instance

instance (wanted : Wanted) (t : Token) :
    Transparent (fail (.expected wanted t) t) (fail (.expected wanted (named t)) (named t)) :=
  .of_fail (.expected wanted t) t

instance (sign : Token) :
    Transparent (fail (.memberOutsideWith sign) sign)
      (fail (.memberOutsideWith (named sign)) (named sign)) :=
  .of_fail (.memberOutsideWith sign) sign

instance (wanted : Wanted) : Transparent (failExpected wanted) (failExpected wanted) := by
  unfold failExpected
  infer_instance

instance {k : Kind} [IsNoName k] : Transparent (accept k) (accept k) := by
  unfold accept
  infer_instance

instance {k : Kind} [IsNoName k] : Transparent (expect k) (expect k) := by
  unfold expect
  infer_instance

/-! ## Names and members -/

instance : Transparent nameExpression nameExpression := by unfold nameExpression; infer_instance

instance : Transparent memberName memberName := by unfold memberName; infer_instance

instance (sign : Token) (access : Option Tree) :
    Transparent (referToHeader sign access) (referToHeader (named sign) (named access)) := by
  unfold referToHeader
  refine .of_get fun s => ?_
  change Transparent _ (match s.withTargets, named access with
    | [], _ => fail (.memberOutsideWith (named sign)) (named sign)
    | some header :: _, some access => addTarget access header
    | _, _ => pure ())
  rcases s.withTargets with _ | ⟨_ | header, outer⟩
  · cases access <;> exact (inferInstance : Transparent (fail (.memberOutsideWith sign) sign)
      (fail (.memberOutsideWith (named sign)) (named sign)))
  · cases access <;> exact .of_pure rfl
  · cases access with
    | none => exact .of_pure rfl
    | some access =>
      exact (inferInstance :
        Transparent (addTarget access header) (addTarget (Naming.tree access) header))

instance {cp : Checkpoint} (k : Kind) {p q : Production Unit} [Transparent p q] :
    Transparent (compositeFrom cp (accessKind k) p)
      (compositeFrom cp (accessKind (named k)) q) := by
  rw [show accessKind (named k) = accessKind k from Naming.accessKind_kind k]
  infer_instance

instance : Transparent leadingAccess leadingAccess := by
  unfold leadingAccess
  refine .bind inferInstance fun sign => ?_
  rw [show accessKind (named sign).kind = accessKind sign.kind from
    Naming.accessKind_kind sign.kind]
  infer_instance

/-- A test of the kind at the cursor and of one further on. -/
theorem Transparent.of_kinds {f : Kind → Kind → Bool}
    (hf : ∀ k l, f (Naming.kind k) (Naming.kind l) = f k l) {seen : TokenStream → Token}
    (hseen : ∀ s, seen (Naming.stream s) = Naming.token (seen s)) :
    Transparent (look fun s => f s.current.kind (seen s).kind) (look fun s =>
      f s.current.kind (seen s).kind) :=
  .of_look fun s => by
    rw [hseen]
    exact hf s.current.kind (seen s).kind

instance : Transparent atQualifier atQualifier :=
  .of_kinds (f := fun k l => k == .lexeme .period && l.isMemberName)
    (fun k l => by rw [Naming.beq_kind rfl, Naming.isMemberName_kind]) fun s =>
      Naming.peek_stream s 1

instance : Transparent atMemberAccess atMemberAccess :=
  .of_kinds (f := fun k l => Lookahead.isAccessSign k && l.isMemberName)
    (fun k l => by rw [Naming.isAccessSign_kind, Naming.isMemberName_kind]) fun s =>
      Naming.peek_stream s 1

instance : Transparent typeName typeName := by unfold typeName; infer_instance

/-! ## Within an expression -/

section

variable {operand operand' : Nat → Production (Option Tree)}
  [∀ n, Transparent (operand n) (operand' n)]

instance : Transparent atNamedArgument atNamedArgument :=
  .of_kinds (f := fun k l => k.isNameLike && l == .lexeme .colonEqual)
    (fun k l => by rw [Naming.isNameLike_kind, Naming.beq_kind rfl]) fun s =>
      Naming.peekSignificant_stream s 1

instance (spacedCall : Bool) : Transparent (atArguments spacedCall) (atArguments spacedCall) :=
  .of_kinds (f := fun k l => k == .lexeme .leftParen ||
      (spacedCall && k.isInlineTrivia && l == .lexeme .leftParen))
    (fun k l => by rw [Naming.beq_kind rfl, Naming.beq_kind rfl, Naming.isInlineTrivia_kind])
    fun s => Naming.peekSignificant_stream s 0

instance : Transparent optionalParameterName optionalParameterName := by
  unfold optionalParameterName
  infer_instance

instance : Transparent (argumentWith operand) (argumentWith operand') := by
  unfold argumentWith
  infer_instance

instance (u : Unit) : Transparent (argumentPass operand u) (argumentPass operand' u) := by
  unfold argumentPass
  infer_instance

instance : Transparent (argumentListWith operand) (argumentListWith operand') := by
  unfold argumentListWith
  infer_instance

instance (cp : Checkpoint) (spacedCall : Bool) (base : Option Tree) :
    Transparent (suffixPass operand cp spacedCall base)
      (suffixPass operand' cp spacedCall (named base)) := by
  unfold suffixPass
  infer_instance

instance (cp : Checkpoint) (spacedCall : Bool) (base : Option Tree) :
    Transparent (suffixesWith operand cp spacedCall base)
      (suffixesWith operand' cp spacedCall (named base)) := by
  unfold suffixesWith
  infer_instance

instance (wanted : Wanted) (spacedCall : Bool) :
    Transparent (designatorWith operand wanted spacedCall)
      (designatorWith operand' wanted spacedCall) := by
  unfold designatorWith
  infer_instance

instance : Transparent (calleeWith operand) (calleeWith operand') := by
  unfold calleeWith
  infer_instance

instance {item item' : Production Unit} [Transparent item item'] :
    Transparent (commaList item) (commaList item') := by
  unfold commaList
  infer_instance

instance : Transparent (parenthesizedWith operand) (parenthesizedWith operand') := by
  unfold parenthesizedWith
  infer_instance

instance : Transparent (primaryWith operand) (primaryWith operand') := by
  unfold primaryWith
  refine .bind inferInstance fun t => ?_
  rw [show literalKind? (named t).kind = literalKind? t.kind from Naming.literalKind?_kind t.kind]
  cases literalKind? t.kind with
  | some literal =>
    exact (inferInstance : Transparent (composite literal shift) (composite literal shift))
  | none =>
    rw [show (named t).kind = Naming.kind t.kind from rfl]
    -- a soft keyword is read as the identifier is, as the last of the cases
    rcases Naming.kind_cases t.kind with hsame | ⟨w, hk, hw, hname⟩
    · rw [hsame]
      generalize t.kind = kind
      cases kind with
      | lexeme l => cases l <;> dsimp only <;> infer_instance
      | trivia _ | keyword _ | node _ | unassigned _ => dsimp only; infer_instance
    · rw [hk] at hname ⊢
      rw [hname]
      dsimp only
      rw [show (Kind.keyword w).isNameLike = (Kind.lexeme .identifier).isNameLike from hw]
      infer_instance

instance : Transparent (typeOfWith operand) (typeOfWith operand') := by
  unfold typeOfWith
  infer_instance

instance (cp : Checkpoint) (primary : Option Tree) :
    Transparent (operandSuffixes operand cp primary)
      (operandSuffixes operand' cp (named primary)) := by
  cases primary with
  | none => exact .of_pure rfl
  | some primary =>
    exact (inferInstance : Transparent (suffixesWith operand cp true (some primary))
      (suffixesWith operand' cp true (named (some primary))))

instance : Transparent (unaryWith operand) (unaryWith operand') := by
  unfold unaryWith
  refine .bind inferInstance fun _ => .bind inferInstance fun kind => ?_
  rw [show Operator.unaryPower? (named kind) = Operator.unaryPower? kind from
    Naming.unaryPower?_kind kind]
  cases Operator.unaryPower? kind with
  | some power => dsimp only; infer_instance
  | none =>
    dsimp only
    rcases Naming.kind_cases kind with hsame | ⟨w, rfl, hw, hname⟩
    · rw [show named kind = kind from hsame]
      split <;> infer_instance
    · rw [show named (Kind.keyword w) = .lexeme .identifier from hname]
      -- no soft keyword is one of the operators
      split
      next h => cases h; cases hw
      next h => cases h; cases hw
      next h => cases h; cases hw
      next => infer_instance

instance (cp : Checkpoint) (power : Nat) (left : Option Tree) :
    Transparent (operatorPass operand cp power left)
      (operatorPass operand' cp power (named left)) := by
  unfold operatorPass
  refine .bind inferInstance fun kind => ?_
  rw [show Operator.binaryPower? (named kind) = Operator.binaryPower? kind from
    Naming.binaryPower?_kind kind]
  cases Operator.binaryPower? kind with
  | none => exact .of_pure rfl
  | some binding => dsimp only; infer_instance

instance (power : Nat) : Transparent (binaryWith operand power) (binaryWith operand' power) := by
  unfold binaryWith
  infer_instance

end

/-! ## Expressions -/

instance (depth power : Nat) : Transparent (binaryUpTo depth power) (binaryUpTo depth power) := by
  induction depth generalizing power with
  | zero => exact .of_pure rfl
  | succ depth ih =>
    exact (inferInstance :
      Transparent (binaryWith (binaryUpTo depth) power) (binaryWith (binaryUpTo depth) power))

instance (power : Nat) : Transparent (expressionAbove power) (expressionAbove power) where
  run_eq s := by
    -- as many tokens are ahead, so that the depth is bounded alike
    unfold expressionAbove
    rw [run_look_bind, run_look_bind]
    exact Transparent.run_eq (p := binaryUpTo (s.stream.remaining + 1) power)
      (q := binaryUpTo (s.stream.remaining + 1) power) s

/-! ## What does not depend on the kinds of names -/

/-- What two readings have in common that have moved tokens which differ at most in the kinds of
names. -/
structure SameReading (r r' : Option Tree × State) : Prop where
  /-- Both give a tree, or neither does. -/
  result : Option.Rel Tree.SameUpToNames r.1 r'.1
  /-- As many tokens have been moved. -/
  position : r.2.stream.position = r'.2.stream.position
  /-- The trees that have been built differ at most in the kinds of names. -/
  trees : List.Forall₂ Tree.SameUpToNames r.2.builder.pending.toList r'.2.builder.pending.toList
  opened : r.2.builder.opened = r'.2.builder.opened
  anchor : r.2.builder.anchor = r'.2.builder.anchor
  /-- The same accesses refer to the same headers. -/
  targets : List.Forall₂ (fun t u => t.1.SameUpToNames u.1 ∧ t.2 = u.2) r.2.implicitTargets.toList
    r'.2.implicitTargets.toList
  /-- The same failures are reported at the same places, with the same messages. -/
  failures : List.Forall₂ Failure.SameReport r.2.failures.toList r'.2.failures.toList
  recovering : r.2.recovering = r'.2.recovering
  lineMode : r.2.lineMode = r'.2.lineMode
  pendingNext : r.2.pendingNext = r'.2.pendingNext
  blocks : r.2.blocks = r'.2.blocks
  withTargets : r.2.withTargets = r'.2.withTargets
  lastSeparator : r.2.lastSeparator = r'.2.lastSeparator

/-- Rows that are mapped to the same row are related one by one. -/
theorem forall₂_of_map_eq {α β : Type} {f : α → β} {r : α → α → Prop}
    (hr : ∀ a b, f a = f b → r a b)
    {as bs : List α} (h : as.map f = bs.map f) : List.Forall₂ r as bs := by
  rw [← List.forall₂_eq_eq_eq, List.forall₂_map_left_iff, List.forall₂_map_right_iff] at h
  exact h.imp hr

/-- Readings that are the same with identifiers for names have the rest in common. -/
theorem sameReading_of_named {r r' : Option Tree × State} (hresult : named r.1 = named r'.1)
    (hstate : Naming.state r.2 = Naming.state r'.2) : SameReading r r' where
  result := by
    generalize r.1 = tree? at hresult
    generalize r'.1 = tree?' at hresult
    cases tree? with
    | none =>
      cases tree?' with
      | none => exact .none
      | some t => cases hresult
    | some t =>
      cases tree?' with
      | none => cases hresult
      | some t' => exact .some (Naming.sameUpToNames_of_tree_eq t t' (Option.some.inj hresult))
  position := by
    have hpassed : r.2.stream.passed.map Naming.token = r'.2.stream.passed.map Naming.token :=
      congrArg (fun s => s.stream.passed) hstate
    simpa [TokenStream.position] using congrArg List.length hpassed
  trees := by
    have hpending : r.2.builder.pending.map Naming.tree = r'.2.builder.pending.map Naming.tree :=
      congrArg (fun s => s.builder.pending) hstate
    refine forall₂_of_map_eq Naming.sameUpToNames_of_tree_eq ?_
    rw [← Array.toList_map, hpending, Array.toList_map]
  opened := Naming.apply_eq_of_state_eq (f := fun s => s.builder.opened) (fun _ => rfl) hstate
  anchor := Naming.apply_eq_of_state_eq (f := fun s => s.builder.anchor) (fun _ => rfl) hstate
  -- what is kept in lists is compared element by element; the rest does not depend on names at all
  targets := by
    have htargets :
        r.2.implicitTargets.map Naming.target = r'.2.implicitTargets.map Naming.target :=
      congrArg State.implicitTargets hstate
    refine forall₂_of_map_eq (f := Naming.target) (fun t u h => ?_) ?_
    · obtain ⟨haccess, hheader⟩ := Prod.mk.inj h
      exact ⟨Naming.sameUpToNames_of_tree_eq _ _ haccess, hheader⟩
    · rw [← Array.toList_map, htargets, Array.toList_map]
  failures := by
    have hfailures : r.2.failures.map Naming.failure = r'.2.failures.map Naming.failure :=
      congrArg State.failures hstate
    refine forall₂_of_map_eq (f := Naming.failure) (fun _ _ => Naming.sameReport_of_failure_eq) ?_
    rw [← Array.toList_map, hfailures, Array.toList_map]
  recovering := Naming.apply_eq_of_state_eq (f := State.recovering) (fun _ => rfl) hstate
  lineMode := Naming.apply_eq_of_state_eq (f := State.lineMode) (fun _ => rfl) hstate
  pendingNext := Naming.apply_eq_of_state_eq (f := State.pendingNext) (fun _ => rfl) hstate
  blocks := Naming.apply_eq_of_state_eq (f := State.blocks) (fun _ => rfl) hstate
  withTargets := Naming.apply_eq_of_state_eq (f := State.withTargets) (fun _ => rfl) hstate
  lastSeparator := Naming.apply_eq_of_state_eq (f := State.lastSeparator) (fun _ => rfl) hstate

/-- From two states that differ in the kinds of the names among their tokens only, an expression is
read over the same tokens, to trees that differ in these kinds only, with the same accesses for the
headers of `With` and the same failures. -/
theorem expression_ignores_names (s : State) (stream : TokenStream) (power : Nat)
    (hposition : stream.position = s.stream.position)
    (htokens : List.Forall₂ Token.SameUpToName s.stream.tokens stream.tokens) :
    SameReading ((expressionAbove power).run s)
      ((expressionAbove power).run { s with stream := stream }) := by
  have hstate : Naming.state s = Naming.state { s with stream := stream } :=
    congrArg (fun stream => { Naming.state s with stream := stream })
      (Naming.stream_eq_of_forall₂ hposition htokens)
  have hrun := Transparent.run_eq (p := expressionAbove power) (q := expressionAbove power) s
  have hrun' := Transparent.run_eq (p := expressionAbove power) (q := expressionAbove power)
    { s with stream := stream }
  -- one run over identifiers stands between the two
  rw [hstate, hrun'] at hrun
  obtain ⟨hresult, hstate'⟩ := Prod.mk.inj hrun
  exact sameReading_of_named hresult.symm hstate'.symm

/-- Within a `With`, an access, a call and an operator, all of soft keywords, with a missing operand
and a missing parenthesis. -/
theorem expression_ignores_names_name :
    let tokens := Lexer.tokens (Bytes.ofString ".Name(Line:=Step, Text.Get +") 1
    let s : State := { stream := .ofTokens tokens, withTargets := [some (.leaf {})] }
    let stream : TokenStream := .ofTokens (tokens.map Naming.token)
    stream.position = s.stream.position ∧
      List.Forall₂ Token.SameUpToName s.stream.tokens stream.tokens ∧
      SameReading ((expressionAbove 0).run s)
        ((expressionAbove 0).run { s with stream := stream }) := by
  intro tokens s stream
  have hposition : stream.position = s.stream.position := by decide +kernel
  have htokens : List.Forall₂ Token.SameUpToName s.stream.tokens stream.tokens :=
    forall₂_of_map_eq (fun _ _ => Naming.token_eq_iff.mp) (by decide +kernel)
  exact ⟨hposition, htokens, expression_ignores_names s stream 0 hposition htokens⟩

end LosslessBasic.Grammar
