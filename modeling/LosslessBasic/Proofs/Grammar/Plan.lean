import LosslessBasic.Proofs.Grammar.Conservation

/-!
# The calls of a production

`Composed` says that a production is put together from the moves of the grammar; a plan says how. So
a plan can be run next to its production, and it then lists every call that is made on the way, with
the state it is made in, down to the single moves.

A plan also says what a call takes for granted. It may know something of the blocks that are open
around it, and it may have been given a checkpoint, at which it may put a node around what its
caller has moved. A production that is given none has a plan without one, and may so change nothing
of what its caller has moved; only what follows an operand is read under the checkpoint in front of
it.

What a list of statements knows of its surroundings comes from three sides. The body of a block
knows that its block is open; the statements of a source know that they stand in no single-line
`If`; and where the code has looked for a certain block among the open ones, some block is open.

Every production of the grammar has a plan: `Plan` is a class, and the instances below go through
the grammar in its own order, up to `source`.

## Main definitions

* `Plan`: how a production is put together, given what is known of its surroundings and a
  checkpoint;
* `Plan.parts` and `Plan.calls`: the calls that a run makes, directly and all of them;
* `Plan.ofStatements`: the plan of a list of statements, for what it has to know;
* `Plan.ofSource`: the plan of a whole source.

## Main results

* `Plan.forall_mem_calls`: what passes from a call to the calls it makes holds of all in its course.
-/

namespace LosslessBasic.Grammar

/-- The blocks and the single-line `If` statements around a call. -/
structure Surroundings where
  /-- The open blocks, the innermost first. -/
  blocks : List Block
  /-- The number of single-line `If` statements. -/
  lineMode : Nat

/-- What is around a call that is made in a state. -/
def State.surroundings (s : State) : Surroundings := ⟨s.blocks, s.lineMode⟩

/-- What is known of the surroundings of a call. -/
abbrev Knowledge := Surroundings → Prop

/-- Nothing is known. -/
def Knowledge.none : Knowledge := fun _ => True

/-- Some block is open. -/
def Knowledge.inBlock : Knowledge := fun around => around.blocks ≠ []

/-- What is known already, and that the surroundings are those of a state. -/
def Knowledge.and (K : Knowledge) (s : State) : Knowledge :=
  fun around => K around ∧ around = s.surroundings

/-- How a production is put together from moves. It knows `K` of its surroundings, and `mark` is the
checkpoint that it is given, if any. -/
class inductive Plan : Knowledge → Option Checkpoint → {α : Type} → Production α → Type 1
  /-- To do without the checkpoint that is given. -/
  | unmarked {K : Knowledge} {cp : Checkpoint} {α : Type} {p : Production α}
    (inner : Plan K none p) :
      Plan K (some cp) p
  /-- One production and then another. -/
  | bind {K : Knowledge} {mark : Option Checkpoint} {α β : Type} {p : Production α}
    {f : α → Production β}
    (first : Plan K mark p) (andThen : ∀ a, Plan K mark (f a)) : Plan K mark (p >>= f)
  /-- One production or another. -/
  | choice {K : Knowledge} {mark : Option Checkpoint} {α : Type} {c : Prop} [Decidable c]
      {p q : Production α} (ifTrue : c → Plan K mark p) (ifFalse : ¬ c → Plan K mark q) :
      Plan K mark (if c then p else q)
  /-- To look at the state, and to know its surroundings from then on. -/
  | read {K : Knowledge} {mark : Option Checkpoint} {α : Type} {f : State → Production α}
      (andThen : ∀ s, Plan (K.and s) mark (f s)) : Plan K mark (get >>= f)
  /-- To take a checkpoint, and to be given it from then on. -/
  | checkpoint {K : Knowledge} {α : Type} {f : Checkpoint → Production α}
      (andThen : ∀ cp, Plan K (some cp) (f cp)) : Plan K none (checkpoint >>= f)
  | pure {K : Knowledge} {α : Type} (a : α) : Plan K none (pure a)
  | get {K : Knowledge} : Plan K none get
  | shift {K : Knowledge} : Plan K none shift
  | within {K : Knowledge} {α : Type} {k : NodeKind} {body : Production α}
    (inner : Plan K none body) :
      Plan K none (within k body)
  | composite {K : Knowledge} {k : NodeKind} {body : Production Unit} (inner : Plan K none body) :
      Plan K none (composite k body)
  /-- A node at a checkpoint, which is the one that is given. -/
  | compositeFrom {K : Knowledge} {cp : Checkpoint} {k : NodeKind} {body : Production Unit}
      (inner : Plan K none body) : Plan K (some cp) (compositeFrom cp k body)
  | inBlock {K : Knowledge} {α : Type} {block : Block} {body : Production α}
      (inner : Plan .inBlock none body) : Plan K none (inBlock block body)
  | inWith {K : Knowledge} {α : Type} {target : Option Tree} {body : Production α}
    (inner : Plan K none body) :
      Plan K none (inWith target body)
  | onOneLine {K : Knowledge} {α : Type} {body : Production α} (inner : Plan .none none body) :
      Plan K none (onOneLine body)
  | note {K : Knowledge} (activity : Activity) (t : Token) : Plan K none (note activity t)
  | setRecovering {K : Knowledge} (recovering : Bool) : Plan K none (setRecovering recovering)
  | setSeparator {K : Knowledge} (separator : Separator) : Plan K none (setSeparator separator)
  | setPendingNext {K : Knowledge} (loops : Nat) : Plan K none (setPendingNext loops)
  | addTarget {K : Knowledge} (access header : Tree) : Plan K none (addTarget access header)
  | report {K : Knowledge} (problem : Problem) (t : Token) : Plan K none (report problem t)
  /-- To tell of the innermost block. Unless the source has ended it has to be known that there is
  one. -/
  | innermost {K : Knowledge} (t : Token)
      (known : t.kind ≠ .lexeme .endOfFile → ∀ around, K around → around.blocks ≠ []) :
      Plan K none (reportMissingCloser t)
  /-- One step through a list of statements. In a single-line `If` it has to be known that a block
  is open. -/
  | pass {K : Knowledge} {statement : Production Unit}
      (known : ∀ around, K around → 0 < around.lineMode → around.blocks ≠ [])
      (inner : Plan K none (statementsPass statement ())) : Plan K none
        (statementsPass statement ())

/-- A call of a production: how it is put together, and the state in which it is called. -/
structure Call where
  {knowledge : Knowledge}
  {mark : Option Checkpoint}
  {α : Type}
  {production : Production α}
  plan : Plan knowledge mark production
  state : State

namespace Plan

/-- The calls that a production makes directly. -/
def parts {K : Knowledge} {mark : Option Checkpoint} {α : Type} {p : Production α}
    (π : Plan K mark p)
    (s : State) : List Call :=
  match π with
  | unmarked inner => [⟨inner, s⟩]
  | bind (p := p) first andThen => [⟨first, s⟩, ⟨andThen (p.run s).1, (p.run s).2⟩]
  | @choice _ _ _ c _ _ _ ifTrue ifFalse => if h : c then [⟨ifTrue h, s⟩] else [⟨ifFalse h, s⟩]
  | read andThen => [⟨andThen s, s⟩]
  | checkpoint andThen => [⟨andThen s.builder.checkpoint, s⟩]
  | within (k := k) inner => [⟨inner, s.opening k⟩]
  | composite (k := k) inner => [⟨inner, s.opening k⟩]
  | @compositeFrom _ cp k _ inner => [⟨inner, s.openingAt cp k⟩]
  | @inBlock _ _ block _ inner => [⟨inner, { s with blocks := block :: s.blocks }⟩]
  | @inWith _ _ target _ inner => [⟨inner, { s with withTargets := target :: s.withTargets }⟩]
  | onOneLine inner => [⟨inner, { s with lineMode := s.lineMode + 1 }⟩]
  | pass _ inner => [⟨inner, s⟩]
  | pure _ | get | shift | note .. | setRecovering _ | setSeparator _ | setPendingNext _
  | addTarget .. | report ..
  | innermost .. => []

/-- The calls that are made in the course of a call, in their order and with itself in front. -/
def calls {K : Knowledge} {mark : Option Checkpoint} {α : Type} {p : Production α}
    (π : Plan K mark p)
    (s : State) : List Call :=
  ⟨π, s⟩ :: match π with
    | unmarked inner => inner.calls s
    | bind (p := p) first andThen => first.calls s ++ (andThen (p.run s).1).calls (p.run s).2
    | @choice _ _ _ c _ _ _ ifTrue ifFalse =>
      if h : c then (ifTrue h).calls s else (ifFalse h).calls s
    | read andThen => (andThen s).calls s
    | checkpoint andThen => (andThen s.builder.checkpoint).calls s
    | within (k := k) inner => inner.calls (s.opening k)
    | composite (k := k) inner => inner.calls (s.opening k)
    | @compositeFrom _ cp k _ inner => inner.calls (s.openingAt cp k)
    | @inBlock _ _ block _ inner => inner.calls { s with blocks := block :: s.blocks }
    | @inWith _ _ target _ inner => inner.calls { s with withTargets := target :: s.withTargets }
    | onOneLine inner => inner.calls { s with lineMode := s.lineMode + 1 }
    | pass _ inner => inner.calls s
    | pure _ | get | shift | note .. | setRecovering _ | setSeparator _ | setPendingNext _
    | addTarget .. | report ..
    | innermost .. => []

variable {K : Knowledge} {mark : Option Checkpoint} {α : Type} {p : Production α}

/-- What holds of a call, and with a call of those that it makes directly, holds of all calls in its
course. -/
theorem forall_mem_calls {P : Call → Prop} (hstep : ∀ c, P c → ∀ c' ∈ c.plan.parts c.state, P c')
    (π : Plan K mark p) {s : State} (h : P ⟨π, s⟩) : ∀ c ∈ π.calls s, P c := by
  -- by induction on the plan: the parts of a call are the calls that it makes itself, and each has
  -- its own
  induction π generalizing s with
  | bind first andThen ihp ihf =>
    have hparts := hstep _ h
    simp only [parts, List.forall_mem_cons] at hparts
    simp only [calls, List.forall_mem_cons, List.forall_mem_append]
    exact ⟨h, ihp hparts.1, ihf _ hparts.2.1⟩
  | @choice _ _ _ c _ _ _ ifTrue ifFalse ihp ihq =>
    have hparts := hstep _ h
    simp only [parts] at hparts
    simp only [calls, List.forall_mem_cons]
    refine ⟨h, ?_⟩
    split at hparts
    next hc =>
      rw [dif_pos hc]
      exact ihp hc (hparts _ List.mem_cons_self)
    next hc =>
      rw [dif_neg hc]
      exact ihq hc (hparts _ List.mem_cons_self)
  | unmarked _ ih | within _ ih | composite _ ih | compositeFrom _ ih | inBlock _ ih | inWith _ ih
  | onOneLine _ ih
  | pass _ _ ih =>
    have hparts := hstep _ h
    simp only [parts, List.forall_mem_cons] at hparts
    simp only [calls, List.forall_mem_cons]
    exact ⟨h, ih hparts.1⟩
  | read _ ih | checkpoint _ ih =>
    have hparts := hstep _ h
    simp only [parts, List.forall_mem_cons] at hparts
    simp only [calls, List.forall_mem_cons]
    exact ⟨h, ih _ hparts.1⟩
  | _ =>
    simp only [calls, List.forall_mem_singleton]
    exact h

end Plan

set_option synthInstance.maxSize 65536

/-! ## Moves and repetition -/

attribute [instance] Plan.pure Plan.get Plan.shift Plan.note Plan.setRecovering Plan.setSeparator
  Plan.setPendingNext Plan.addTarget Plan.report

section

variable {K : Knowledge} {mark : Option Checkpoint} {α β γ : Type} {p q : Production α}

instance {f : α → Production β} [first : Plan K mark p] [andThen : ∀ a, Plan K mark (f a)] :
    Plan K mark (p >>= f) := .bind first andThen

instance {f : Checkpoint → Production β} [andThen : ∀ cp, Plan K (some cp) (f cp)] :
    Plan K none (checkpoint >>= f) := .checkpoint andThen

instance {k : NodeKind} [inner : Plan K none p] : Plan K none (within k p) := .within inner

instance {k : NodeKind} {p : Production Unit} [inner : Plan K none p] :
    Plan K none (composite k p) :=
  .composite inner

instance {cp : Checkpoint} {k : NodeKind} {p : Production Unit} [inner : Plan K none p] :
    Plan K (some cp) (compositeFrom cp k p) := .compositeFrom inner

instance {target : Option Tree} [inner : Plan K none p] : Plan K none (inWith target p) :=
  .inWith inner

instance [inner : Plan .none none p] : Plan K none (onOneLine p) := .onOneLine inner

instance {c : Prop} [Decidable c] [ifTrue : Plan K mark p] [ifFalse : Plan K mark q] :
    Plan K mark (if c then p else q) := .choice (fun _ => ifTrue) fun _ => ifFalse

-- what does without the checkpoint is to be found out first
instance (priority := high) {cp : Checkpoint} [inner : Plan K none p] : Plan K (some cp) p :=
  .unmarked inner

instance (f : TokenStream → α) : Plan K none (look f) := by
  unfold look; infer_instance

/-- What is asked of the state is known from then on. -/
@[reducible]
def Plan.ask {g : State → γ} {f : γ → Production β} (andThen : ∀ s, Plan (K.and s) mark (f (g s))) :
    Plan K mark ((do return g (← MonadState.get)) >>= f) := .read (f := fun s => f (g s)) andThen

/-- What does without a checkpoint may be given one. -/
@[reducible]
def Plan.marked (π : Plan K none p) : Plan K mark p :=
  match mark with
  | none => π
  | some _ => .unmarked π

/-- At most `n` passes of a loop. -/
@[reducible]
def Plan.ofIterateUpTo {exhausted : α → β} {pass : α → Production (Pass α β)}
    (body : ∀ a, Plan K mark (pass a)) :
    ∀ (n : Nat) (a : α), Plan K mark (iterateUpTo exhausted pass n a)
  | 0, a => .marked (.pure (exhausted a))
  | n + 1, a => .bind (body a) fun
    | .again a => Plan.ofIterateUpTo body n a
    | .done b => .marked (.pure b)

instance {exhausted : α → β} {pass : α → Production (Pass α β)}
    [body : ∀ a, Plan K mark (pass a)] (a : α) :
    Plan K mark (iterate exhausted pass a) :=
      .bind (.marked inferInstance) fun n => .ofIterateUpTo body (n + 1) a

/-- At most `n` passes of a body. -/
@[reducible]
def Plan.ofRepeatWhileUpTo {test : Production Bool} {body : Production Unit}
    (question : Plan K none test)
    (each : Plan K none body) : ∀ n : Nat, Plan K none (repeatWhileUpTo test body n)
  | 0 => .pure ()
  | n + 1 => .bind question fun _ =>
      .choice (fun _ => .bind each fun _ => Plan.ofRepeatWhileUpTo question each n)
        fun _ => .pure ()

instance {test : Production Bool} {body : Production Unit} [question : Plan K none test]
    [each : Plan K none body] : Plan K none (repeatWhile test body) :=
  .bind inferInstance fun n => .ofRepeatWhileUpTo question each (n + 1)

end

variable {K : Knowledge}

/-! ## Tokens, contexts and failures -/

instance : Plan K none current := by
  unfold current
  infer_instance

instance : Plan K none currentKind := by
  unfold currentKind
  infer_instance

instance : Plan K none next := by
  unfold next
  infer_instance

instance : Plan K none nextKind := by
  unfold nextKind
  infer_instance

instance : Plan K none secondKind := by
  unfold secondKind
  infer_instance

instance : Plan K none skipBlanks := by
  unfold skipBlanks
  infer_instance

instance : Plan K none shiftNext := by
  unfold shiftNext
  infer_instance

instance : Plan K none insideProcedure := by
  unfold insideProcedure
  infer_instance

instance (k : Kind) : Plan K none (atCurrent k) := by
  unfold atCurrent
  infer_instance

instance (k : Kind) : Plan K none (atNext k) := by
  unfold atNext
  infer_instance

instance (k : Kind) : Plan K none (accept k) := by
  unfold accept
  infer_instance

instance (b : Block) : Plan K none (blockIsOpen b) := by
  unfold blockIsOpen
  infer_instance

instance (problem : Problem) (t : Token) : Plan K none (fail problem t) := by
  unfold fail
  dsimp only
  infer_instance

instance (wanted : Wanted) : Plan K none (failExpected wanted) := by
  unfold failExpected
  infer_instance

instance (k : Kind) : Plan K none (expect k) := by
  unfold expect
  infer_instance

/-! ## The ends of statements -/

instance : Plan K none atStatementEnd := by
  unfold atStatementEnd
  infer_instance

instance : Plan K none withinStatement := by
  unfold withinStatement
  infer_instance

instance : Plan K none shiftRest := by
  unfold shiftRest
  infer_instance

instance : Plan K none recover := by
  unfold recover
  infer_instance

instance : Plan K none shiftLineBreak := by
  unfold shiftLineBreak
  infer_instance

instance : Plan K none finishStatement := by
  unfold finishStatement
  dsimp only
  infer_instance

instance (k : NodeKind) : Plan K none (rawStatement k) := by
  unfold rawStatement
  infer_instance

instance (item : Production Unit) [Plan K none item] : Plan K none (commaList item) := by
  unfold commaList
  infer_instance

/-! ## Expressions -/

instance : Plan K none nameExpression := by
  unfold nameExpression
  infer_instance

instance (wanted : Wanted) : Plan K none (expectName wanted) := by
  unfold expectName
  infer_instance

instance (wanted : Wanted) : Plan K none (hasName wanted) := by
  unfold hasName
  infer_instance

instance : Plan K none memberName := by
  unfold memberName
  infer_instance

instance : Plan K none atMemberAccess := by
  unfold atMemberAccess
  infer_instance

instance (sign : Token) (access : Option Tree) : Plan K none (referToHeader sign access) := by
  unfold referToHeader
  refine .bind .get fun _ => ?_
  split <;> infer_instance

instance : Plan K none leadingAccess := by
  unfold leadingAccess
  infer_instance

instance : Plan K none atQualifier := by
  unfold atQualifier
  infer_instance

instance : Plan K none typeName := by
  unfold typeName
  infer_instance

section

variable {operand : Nat → Production (Option Tree)} [∀ power, Plan K none (operand power)]

instance : Plan K none atNamedArgument := by
  unfold atNamedArgument
  infer_instance

instance : Plan K none optionalParameterName := by
  unfold optionalParameterName
  infer_instance

instance : Plan K none (argumentWith operand) := by
  unfold argumentWith
  infer_instance

instance (u : Unit) : Plan K none (argumentPass operand u) := by
  unfold argumentPass
  infer_instance

instance : Plan K none (argumentListWith operand) := by
  unfold argumentListWith
  infer_instance

instance (spacedCall : Bool) : Plan K none (atArguments spacedCall) := by
  unfold atArguments
  infer_instance

instance (cp : Checkpoint) (spacedCall : Bool) (base : Option Tree) :
    Plan K (some cp) (suffixPass operand cp spacedCall base) := by
  unfold suffixPass
  infer_instance

instance (cp : Checkpoint) (spacedCall : Bool) (base : Option Tree) :
    Plan K (some cp) (suffixesWith operand cp spacedCall base) := by
  unfold suffixesWith
  infer_instance

instance (wanted : Wanted) (spacedCall : Bool) :
    Plan K none (designatorWith operand wanted spacedCall) := by
  unfold designatorWith
  infer_instance

instance : Plan K none (variableWith operand) := by
  unfold variableWith
  infer_instance

instance : Plan K none (calleeWith operand) := by
  unfold calleeWith
  infer_instance

instance : Plan K none (parenthesizedWith operand) := by
  unfold parenthesizedWith
  infer_instance

instance : Plan K none (primaryWith operand) := by
  unfold primaryWith
  refine .bind inferInstance fun _ => ?_
  split
  · infer_instance
  · split <;> infer_instance

instance : Plan K none (typeOfWith operand) := by
  unfold typeOfWith
  infer_instance

instance (cp : Checkpoint) (primary : Option Tree) :
    Plan K (some cp) (operandSuffixes operand cp primary) := by
  cases primary <;> unfold operandSuffixes <;> infer_instance

instance : Plan K none (unaryWith operand) := by
  unfold unaryWith
  refine .bind inferInstance fun _ => .bind inferInstance fun _ => ?_
  split
  · infer_instance
  · split <;> infer_instance

instance (cp : Checkpoint) (power : Nat) (left : Option Tree) :
    Plan K (some cp) (operatorPass operand cp power left) := by
  unfold operatorPass
  refine .bind inferInstance fun _ => ?_
  split <;> infer_instance

instance (power : Nat) : Plan K none (binaryWith operand power) := by
  unfold binaryWith
  infer_instance

end

instance Plan.ofBinaryUpTo : ∀ depth power : Nat, Plan K none (binaryUpTo depth power)
  | 0, _ => .pure none
  | depth + 1, power =>
    have := Plan.ofBinaryUpTo depth
    inferInstanceAs (Plan K none (binaryWith (binaryUpTo depth) power))

instance (power : Nat) : Plan K none (expressionAbove power) := by
  unfold expressionAbove
  infer_instance

instance : Plan K none expression := by
  unfold expression
  infer_instance

instance : Plan K none operand := by
  unfold operand
  infer_instance

instance : Plan K none variable_ := by
  unfold variable_
  infer_instance

instance : Plan K none callee := by
  unfold callee
  infer_instance

instance : Plan K none argumentList := by
  unfold argumentList
  infer_instance

instance : Plan K none atArgumentSign := by
  unfold atArgumentSign
  infer_instance

instance (u : Unit) : Plan K none (commandArgumentPass u) := by
  unfold commandArgumentPass
  infer_instance

instance : Plan K none commandArguments := by
  unfold commandArguments
  infer_instance

/-! ## Declarations -/

instance : Plan K none shiftModifiers := by
  unfold shiftModifiers
  infer_instance

instance : Plan K none shiftDeclarator := by
  unfold shiftDeclarator
  infer_instance

instance (item : Production Unit) [Plan K none item] (u : Unit) :
    Plan K none (groupPass item u) := by
  unfold groupPass
  infer_instance

instance (k : NodeKind) (item : Production Unit) [Plan K none item] :
    Plan K none (group k item) := by
  unfold group
  infer_instance

instance : Plan K none arrayBound := by
  unfold arrayBound
  infer_instance

instance : Plan K none arrayBounds := by
  unfold arrayBounds
  infer_instance

instance : Plan K none asClause := by
  unfold asClause
  infer_instance

instance : Plan K none optionalAsClause := by
  unfold optionalAsClause
  infer_instance

instance : Plan K none optionalArrayBounds := by
  unfold optionalArrayBounds
  infer_instance

instance (value : Production Unit) [Plan K none value] : Plan K none (declaration value) := by
  unfold declaration
  infer_instance

instance : Plan K none variableDeclaration := by
  unfold variableDeclaration
  infer_instance

instance : Plan K none constantDeclaration := by
  unfold constantDeclaration
  infer_instance

instance : Plan K none parameter := by
  unfold parameter
  infer_instance

instance : Plan K none optionalParameterList := by
  unfold optionalParameterList
  infer_instance

instance : Plan K none dimStatement := by
  unfold dimStatement
  infer_instance

instance : Plan K none constStatement := by
  unfold constStatement
  infer_instance

instance : Plan K none reDimStatement := by
  unfold reDimStatement
  infer_instance

instance : Plan K none eraseStatement := by
  unfold eraseStatement
  infer_instance

instance : Plan K none externalSignature := by
  unfold externalSignature
  infer_instance

instance : Plan K none declareStatement := by
  unfold declareStatement
  infer_instance

instance : Plan K none eventStatement := by
  unfold eventStatement
  infer_instance

instance : Plan K none implementsStatement := by
  unfold implementsStatement
  infer_instance

instance : Plan K none atProcedureHeader := by
  unfold atProcedureHeader
  infer_instance

instance (k : NodeKind) (details : Production Unit) [Plan K none details] :
    Plan K none (member k details) := by
  unfold member
  infer_instance

instance : Plan K none typeMember := by
  unfold typeMember
  infer_instance

instance : Plan K none enumMember := by
  unfold enumMember
  infer_instance

instance : Plan K none closeBlock := by
  unfold closeBlock
  infer_instance

instance (closer : Keyword) : Plan K none (atCloser closer) := by
  unfold atCloser
  infer_instance

instance (item : Production Unit) [Plan K none item] : Plan K none (memberOrToken item) := by
  unfold memberOrToken
  infer_instance

instance (block : Block) (closer : Keyword) (item : Production Unit)
    [Plan K none item] (u : Unit) : Plan K none (memberPass block closer item u) := by
  unfold memberPass
  infer_instance

instance (block : Block) (closer : Keyword) (item : Production Unit)
    [Plan K none item] : Plan K none (memberBlock block closer item) := by
  unfold memberBlock
  infer_instance

instance : Plan K none typeStatement := by
  unfold typeStatement
  infer_instance

instance : Plan K none enumStatement := by
  unfold enumStatement
  infer_instance

/-! ## Simple statements -/

instance : Plan K none assignment := by
  unfold assignment
  infer_instance

instance : Plan K none assignmentStatement := by
  unfold assignmentStatement
  infer_instance

instance (k : NodeKind) : Plan K none (wordedAssignment k) := by
  unfold wordedAssignment
  infer_instance

instance : Plan K none call := by
  unfold call
  infer_instance

instance : Plan K none callStatement := by
  unfold callStatement
  infer_instance

instance : Plan K none callKeywordStatement := by
  unfold callKeywordStatement
  infer_instance

instance : Plan K none raiseEventStatement := by
  unfold raiseEventStatement
  infer_instance

instance (k : NodeKind) : Plan K none (wordStatement k) := by
  unfold wordStatement
  infer_instance

instance : Plan K none label := by
  unfold label
  infer_instance

instance (k : NodeKind) : Plan K none (jumpStatement k) := by
  unfold jumpStatement
  infer_instance

instance : Plan K none resumeStatement := by
  unfold resumeStatement
  infer_instance

instance : Plan K none exitTarget := by
  unfold exitTarget
  infer_instance

instance : Plan K none exitStatement := by
  unfold exitStatement
  infer_instance

instance : Plan K none onErrorStatement := by
  unfold onErrorStatement
  infer_instance

instance : Plan K none onJumpStatement := by
  unfold onJumpStatement
  infer_instance

instance : Plan K none onStatement := by
  unfold onStatement
  infer_instance

instance : Plan K none lineStatement := by
  unfold lineStatement
  infer_instance

instance : Plan K none atLabel := by
  unfold atLabel
  refine .bind inferInstance fun _ => ?_
  split <;> infer_instance

instance : Plan K none labelStatement := by
  unfold labelStatement
  infer_instance

instance : Plan K none unknownStatement := by
  unfold unknownStatement
  infer_instance

instance : Plan K none unexpectedStatement := by
  unfold unexpectedStatement
  infer_instance

/-! ## Designer blocks -/

instance (block : Block) : Plan K none (atDesignerEnd block) := by
  unfold atDesignerEnd
  infer_instance

instance : Plan K none designerBlock? := by
  unfold designerBlock?
  infer_instance

instance : Plan K none propertyAssignment := by
  unfold propertyAssignment
  infer_instance

instance (inner : Block → Production Unit) [∀ block, Plan K none (inner block)]
    (block? : Option Block) : Plan K none (blockOrProperty inner block?) := by
  cases block? <;> unfold blockOrProperty <;> infer_instance

instance {inner : Block → Production Unit} [∀ b, Plan K none (inner b)] (block : Block)
    (u : Unit) : Plan K none (designerPass inner block u) := by
  unfold designerPass
  infer_instance

instance Plan.ofDesignerUpTo :
    ∀ (depth : Nat) (block : Block), Plan K none (designerUpTo depth block)
  | 0, _ => .shift
  | depth + 1, block => by
    have := Plan.ofDesignerUpTo depth
    unfold designerUpTo
    infer_instance

instance : Plan K none designerStatement := by
  unfold designerStatement
  infer_instance

/-! ## Lists of statements -/

instance : Plan K none separator := by
  unfold separator
  infer_instance

instance : Plan K none shiftTrivia := by
  unfold shiftTrivia
  infer_instance

instance : Plan K none nextCloser? := by
  unfold nextCloser?
  infer_instance

instance : Plan K none writtenCloser := by
  unfold writtenCloser
  infer_instance

instance (closer : Closer) : Plan K none (strayCloser closer) := by
  unfold strayCloser
  infer_instance

instance (stop : Stop) : Plan K none (blockEnd stop) := by
  unfold blockEnd
  infer_instance

section

variable {statement : Production Unit} [hstatement : ∀ K, Plan K none statement]

instance : Plan K none (statementPass statement) := by
  unfold statementPass
  infer_instance

/-- Where some block is open, the innermost one can be told of. -/
@[reducible]
def Plan.innermostOf {s : State} (h : s.blocks ≠ []) (t : Token) :
    Plan (K.and s) none (reportMissingCloser t) :=
  .innermost t fun _ _ around => around.2 ▸ h

instance (closer : Closer) : Plan K none (closerPass closer) := by
  unfold closerPass
  refine .bind .get fun s => .choice (fun _ => inferInstance) fun _ => .ask fun s => ?_
  refine .choice (fun hopen => ?_) fun _ => inferInstance
  -- the block of the closer is among those that are open
  have := Plan.innermostOf (K := K) (s := s) fun hnone => by simp [hnone] at hopen
  infer_instance

instance (closer? : Option Closer) : Plan K none (closerOrStatementPass statement closer?) := by
  cases closer? with
  | some closer =>
    unfold closerOrStatementPass
    infer_instance
  | none =>
    unfold closerOrStatementPass
    refine .ask fun s => .bind inferInstance fun header => .choice (fun hheader => ?_) fun _ =>
      inferInstance
    -- a procedure is among the blocks that are open
    have := Plan.innermostOf (K := K) (s := s) fun hnone => by simp [hnone] at hheader
    infer_instance

instance : Plan K none (listPass statement) := by
  unfold listPass
  infer_instance

/-- One step through a list of statements, where a block is open in every single-line `If`. -/
@[reducible]
def Plan.ofStatementsPass (known : ∀ around, K around → 0 < around.lineMode → around.blocks ≠ [])
    (u : Unit) :
    Plan K none (statementsPass statement u) := by
  refine .pass known ?_
  unfold statementsPass
  refine .bind inferInstance fun t => .choice (fun hend => ?_) fun _ => .read fun s => ?_
  · have : Plan K none (reportMissingCloser t) :=
      .innermost t fun hkind => absurd (eq_of_beq hend) hkind
    infer_instance
  · refine .choice (fun hline => ?_) fun _ => inferInstance
    -- this is where the list has to know of a block, as the code does not look for one
    rw [Bool.and_eq_true, decide_eq_true_iff] at hline
    have : Plan (K.and s) none (reportMissingCloser t) :=
      .innermost t fun _ around h => known around h.1 (h.2 ▸ hline.1)
    infer_instance

/-- A list of statements, where a block is open in every single-line `If`. -/
@[reducible]
def Plan.ofStatements (known : ∀ around, K around → 0 < around.lineMode → around.blocks ≠ []) :
    Plan K none (statements statement) := by
  have (u : Unit) : Plan K none (statementsPass statement u) := .ofStatementsPass known u
  unfold statements
  infer_instance

instance (block : Block) : Plan K none (blockBody statement block) := by
  unfold blockBody
  exact .bind (.inBlock (.within (.ofStatements fun _ hopen _ => hopen))) inferInstance

instance : Plan K none secondElse := by
  unfold secondElse
  infer_instance

instance (endsAtElse : Bool) (u : Unit) : Plan K none (inlinePass statement endsAtElse u) := by
  unfold inlinePass
  infer_instance

instance (endsAtElse : Bool) : Plan K none (inlineStatements statement endsAtElse) := by
  unfold inlineStatements
  infer_instance

/-! ## Statements with bodies -/

instance : Plan K none ifHeader := by
  unfold ifHeader
  infer_instance

instance : Plan K none lineNumberJump := by
  unfold lineNumberJump
  infer_instance

instance (endsAtElse : Bool) : Plan K none (inlineArm statement endsAtElse) := by
  unfold inlineArm
  infer_instance

instance : Plan K none (inlineArms statement) := by
  unfold inlineArms
  infer_instance

instance : Plan K none (singleLineIf statement) := by
  unfold singleLineIf
  infer_instance

instance (stop : Stop) : Plan K none (elseIfPass statement stop) := by
  unfold elseIfPass
  infer_instance

instance : Plan K none atElse := by
  unfold atElse
  infer_instance

instance (stop : Stop) : Plan K none (elseBodyPass statement stop) := by
  unfold elseBodyPass
  infer_instance

instance : Plan K none (elseClause statement) := by
  unfold elseClause
  infer_instance

instance : Plan K none (blockIf statement) := by
  unfold blockIf
  infer_instance

instance : Plan K none (ifStatement statement) := by
  unfold ifStatement
  infer_instance

instance : Plan K none forEachHeader := by
  unfold forEachHeader
  infer_instance

instance : Plan K none forHeader := by
  unfold forHeader
  infer_instance

instance : Plan K none openLoops := by
  unfold openLoops
  infer_instance

instance (closed : Nat) : Plan K none (nextVariablePass closed) := by
  unfold nextVariablePass
  infer_instance

instance : Plan K none nextClause := by
  unfold nextClause
  infer_instance

instance : Plan K none (forStatement statement) := by
  unfold forStatement
  infer_instance

instance : Plan K none atLoopCondition := by
  unfold atLoopCondition
  infer_instance

instance : Plan K none optionalLoopCondition := by
  unfold optionalLoopCondition
  infer_instance

instance : Plan K none (doStatement statement) := by
  unfold doStatement
  infer_instance

instance : Plan K none (whileStatement statement) := by
  unfold whileStatement
  infer_instance

instance : Plan K none (withStatement statement) := by
  unfold withStatement
  infer_instance

instance : Plan K none comparison := by
  unfold comparison
  infer_instance

instance : Plan K none comparisonTest := by
  unfold comparisonTest
  infer_instance

instance : Plan K none valueTest := by
  unfold valueTest
  infer_instance

instance : Plan K none caseTest := by
  unfold caseTest
  infer_instance

instance : Plan K none atCaseElse := by
  unfold atCaseElse
  infer_instance

instance : Plan K none (caseClause statement) := by
  unfold caseClause
  infer_instance

instance : Plan K none strayCaseLine := by
  unfold strayCaseLine
  infer_instance

instance (stop : Stop) : Plan K none (afterClause stop) := by
  unfold afterClause
  infer_instance

instance (closer : Closer) : Plan K none (selectCloserPass statement closer) := by
  unfold selectCloserPass
  infer_instance

instance (closer? : Option Closer) : Plan K none (closerOrLinePass statement closer?) := by
  cases closer? <;> unfold closerOrLinePass <;> infer_instance

instance (u : Unit) : Plan K none (selectPass statement u) := by
  unfold selectPass
  infer_instance

instance : Plan K none (selectStatement statement) := by
  unfold selectStatement
  infer_instance

instance : Plan K none accessor := by
  unfold accessor
  infer_instance

instance : Plan K none signature := by
  unfold signature
  infer_instance

instance : Plan K none (procedure statement) := by
  unfold procedure
  infer_instance

instance : Plan K none (modifiedStatement statement) := by
  unfold modifiedStatement
  refine .bind inferInstance fun _ => ?_
  split <;> infer_instance

/-- A statement that is not looked at behind the keyword that opens it. -/
@[reducible]
def Plan.ofRaw {keyword : Keyword} {p : Production Unit}
    (h : (rawKind? keyword).map rawStatement = some p) :
    Plan K none p := by
  cases hkind : rawKind? keyword with
  | none => exact nomatch hkind ▸ h
  | some k =>
    rw [hkind] at h
    obtain rfl := Option.some.inj h
    infer_instance

/-- A statement that a keyword opens. -/
@[reducible]
def Plan.ofKeyword {keyword : Keyword} {p : Production Unit}
    (h : keywordStatement? statement keyword = some p) :
    Plan K none p := by
  unfold keywordStatement? at h
  split at h
  all_goals first
    | obtain rfl := Option.some.inj h
      infer_instance
    | exact .ofRaw h

/-- A statement that the token at the cursor opens as a keyword. -/
@[reducible]
def Plan.ofOpened {s : TokenStream} {p : Production Unit}
    (h : openedStatement? statement s = some p) :
    Plan K none p := by
  unfold openedStatement? at h
  split at h
  · split at h
    · exact .ofKeyword h
    · cases h
  · cases h

/-- The statement that replaces part of a text. -/
@[reducible]
def Plan.ofReplacement {s : TokenStream} {p : Production Unit} (h : replacement? s = some p) :
    Plan K none p := by
  unfold replacement? at h
  split_ifs at h <;> cases h <;> infer_instance

instance : Plan K none plainStatement := by
  unfold plainStatement
  refine .bind .get fun s => ?_
  dsimp only
  cases h : replacement? s.stream with
  | some production => exact .ofReplacement h
  | none => dsimp only; infer_instance

instance : Plan K none (statementAtCursor statement) := by
  unfold statementAtCursor
  refine .bind inferInstance fun _ => .choice (fun _ => inferInstance) fun _ => ?_
  change Plan K none (get >>= fun s => _)
  refine .bind .get fun s => ?_
  cases h : openedStatement? statement s.stream with
  | some production => exact .ofOpened h
  | none => exact inferInstanceAs (Plan K none plainStatement)

instance : Plan K none (statementWith statement) := by
  unfold statementWith
  infer_instance

end

instance Plan.ofStatementUpTo : ∀ (depth : Nat) (K : Knowledge), Plan K none (statementUpTo depth)
  | 0, _ => .shift
  | depth + 1, K => by
    have := Plan.ofStatementUpTo depth
    unfold statementUpTo
    infer_instance

/-- Around the statements of a source there is no single-line `If`. -/
def Knowledge.offLine : Knowledge := fun around => around.lineMode = 0

instance Plan.ofSource : Plan .offLine none source := by
  unfold source
  refine .bind inferInstance fun depth =>
    .within (.bind (.ofStatements fun around hline hpos => ?_) inferInstance)
  exact absurd hline (Nat.ne_of_gt hpos)

end LosslessBasic.Grammar
