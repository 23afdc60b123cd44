import LosslessBasic.Grammar.Statement
import Mathlib.Tactic.SplitIfs

/-!
# Composed productions

Every production of the grammar is put together from the moves of `Grammar.State` by sequencing.
`Composed` says so of a production; a fact that holds of the moves and survives sequencing then
holds of the whole grammar by one induction.

`Composed` is a class, so that a production is recognised by its parts. The instances below go
through the grammar in its own order, up to `source`.

The instance for a production is put together from one for each of its steps, and from one for each
branch behind them. These are soon more than the 128 that Lean allows a single search, so a larger
`synthInstance.maxSize` is set here, and wherever another class goes through the grammar in the same
way.
-/

namespace LosslessBasic.Grammar

set_option synthInstance.maxSize 65536

variable {simple : Bool}

/-- The productions that are put together from moves. The simple ones among them open no block and
leave the count of the loops that are still to be closed alone. -/
class inductive Composed : (simple : Bool) → {α : Type} → Production α → Prop
  | pure {simple : Bool} {α : Type} (a : α) : Composed simple (pure a)
  | bind {simple : Bool} {α β : Type} {p : Production α} {f : α → Production β}
      (hp : Composed simple p) (hf : ∀ a, Composed simple (f a)) : Composed simple (p >>= f)
  | get {simple : Bool} : Composed simple get
  | shift {simple : Bool} : Composed simple shift
  | within {simple : Bool} {α : Type} {k : NodeKind} {body : Production α}
      (h : Composed simple body) : Composed simple (within k body)
  | composite {simple : Bool} {k : NodeKind} {body : Production Unit} (h : Composed simple body) :
      Composed simple (composite k body)
  | compositeFrom {simple : Bool} {cp : Checkpoint} {k : NodeKind} {body : Production Unit}
      (h : Composed simple body) : Composed simple (compositeFrom cp k body)
  | inBlock {α : Type} {block : Block} {body : Production α} (h : Composed false body) :
      Composed false (inBlock block body)
  | inWith {simple : Bool} {α : Type} {target : Option Tree} {body : Production α}
      (h : Composed simple body) : Composed simple (inWith target body)
  | onOneLine {simple : Bool} {α : Type} {body : Production α} (h : Composed simple body) :
      Composed simple (onOneLine body)
  | note {simple : Bool} (activity : Activity) (t : Token) : Composed simple (note activity t)
  | setRecovering {simple : Bool} (recovering : Bool) :
      Composed simple (setRecovering recovering)
  | setSeparator {simple : Bool} (separator : Separator) : Composed simple (setSeparator separator)
  | setPendingNext (loops : Nat) : Composed false (setPendingNext loops)
  | addTarget {simple : Bool} (access header : Tree) : Composed simple (addTarget access header)
  | report {simple : Bool} (problem : Problem) (t : Token) : Composed simple (report problem t)

attribute [instance] Composed.pure Composed.get Composed.shift Composed.note
  Composed.setRecovering Composed.setSeparator Composed.setPendingNext Composed.addTarget
  Composed.report

section

variable {simple : Bool} {α β : Type} {p q : Production α}

instance {f : α → Production β} [hp : Composed simple p] [hf : ∀ a, Composed simple (f a)] :
    Composed simple (p >>= f) := .bind hp hf

instance {k : NodeKind} [h : Composed simple p] : Composed simple (within k p) := .within h

instance {k : NodeKind} {p : Production Unit} [h : Composed simple p] :
    Composed simple (composite k p) :=
  .composite h

instance {cp : Checkpoint} {k : NodeKind} {p : Production Unit} [h : Composed simple p] :
    Composed simple (compositeFrom cp k p) := .compositeFrom h

instance {block : Block} [h : Composed false p] : Composed false (inBlock block p) := .inBlock h

instance {target : Option Tree} [h : Composed simple p] :
    Composed simple (inWith target p) := .inWith h

instance [h : Composed simple p] : Composed simple (onOneLine p) := .onOneLine h

instance {c : Prop} [Decidable c] [Composed simple p] [Composed simple q] :
    Composed simple (if c then p else q) := by
  split <;> infer_instance

instance (f : TokenStream → α) : Composed simple (look f) := by
  unfold look; infer_instance

instance {exhausted : α → β} {pass : α → Production (Pass α β)}
    [∀ a, Composed simple (pass a)] (n : Nat)
    (a : α) : Composed simple (iterateUpTo exhausted pass n a) := by
  induction n generalizing a with
  | zero => exact .pure _
  | succ n ih =>
    refine .bind inferInstance fun r => ?_
    cases r with
    | again a => exact ih a
    | done b => exact .pure b

instance {exhausted : α → β} {pass : α → Production (Pass α β)}
    [∀ a, Composed simple (pass a)] (a : α) :
    Composed simple (iterate exhausted pass a) := by
  unfold iterate
  infer_instance

instance {test : Production Bool} {body : Production Unit} [Composed simple test]
    [Composed simple body]
    (n : Nat) : Composed simple (repeatWhileUpTo test body n) := by
  induction n with
  | zero => exact .pure _
  | succ n ih => unfold repeatWhileUpTo; infer_instance

instance {test : Production Bool} {body : Production Unit} [Composed simple test]
    [Composed simple body] :
    Composed simple (repeatWhile test body) := by
  unfold repeatWhile
  infer_instance

end

/-! ## Tokens, contexts and failures -/

instance : Composed simple current := by
  unfold current
  infer_instance

instance : Composed simple currentKind := by
  unfold currentKind
  infer_instance

instance : Composed simple next := by
  unfold next
  infer_instance

instance : Composed simple nextKind := by
  unfold nextKind
  infer_instance

instance : Composed simple secondKind := by
  unfold secondKind
  infer_instance

instance : Composed simple skipBlanks := by
  unfold skipBlanks
  infer_instance

instance : Composed simple shiftNext := by
  unfold shiftNext
  infer_instance

instance : Composed simple checkpoint := by
  unfold checkpoint
  infer_instance

instance : Composed simple insideProcedure := by
  unfold insideProcedure
  infer_instance

instance (k : Kind) : Composed simple (atCurrent k) := by
  unfold atCurrent
  infer_instance

instance (k : Kind) : Composed simple (atNext k) := by
  unfold atNext
  infer_instance

instance (k : Kind) : Composed simple (accept k) := by
  unfold accept
  infer_instance

instance (b : Block) : Composed simple (blockIsOpen b) := by
  unfold blockIsOpen
  infer_instance

instance (problem : Problem) (t : Token) : Composed simple (fail problem t) := by
  unfold fail
  dsimp only
  infer_instance

instance (wanted : Wanted) : Composed simple (failExpected wanted) := by
  unfold failExpected
  infer_instance

instance (k : Kind) : Composed simple (expect k) := by
  unfold expect
  infer_instance

/-! ## The ends of statements -/

instance : Composed simple atStatementEnd := by
  unfold atStatementEnd
  infer_instance

instance : Composed simple withinStatement := by
  unfold withinStatement
  infer_instance

instance : Composed simple shiftRest := by
  unfold shiftRest
  infer_instance

instance : Composed simple recover := by
  unfold recover
  infer_instance

instance : Composed simple shiftLineBreak := by
  unfold shiftLineBreak
  infer_instance

instance : Composed simple finishStatement := by
  unfold finishStatement
  dsimp only
  infer_instance

instance (k : NodeKind) : Composed simple (rawStatement k) := by
  unfold rawStatement
  infer_instance

instance (item : Production Unit) [Composed simple item] : Composed simple (commaList item) := by
  unfold commaList
  infer_instance

/-! ## Expressions -/

instance : Composed simple nameExpression := by
  unfold nameExpression
  infer_instance

instance (wanted : Wanted) : Composed simple (expectName wanted) := by
  unfold expectName
  infer_instance

instance (wanted : Wanted) : Composed simple (hasName wanted) := by
  unfold hasName
  infer_instance

instance : Composed simple memberName := by
  unfold memberName
  infer_instance

instance : Composed simple atMemberAccess := by
  unfold atMemberAccess
  infer_instance

instance (sign : Token) (access : Option Tree) : Composed simple (referToHeader sign access) := by
  unfold referToHeader
  refine .bind .get fun _ => ?_
  split <;> infer_instance

instance : Composed simple leadingAccess := by
  unfold leadingAccess
  infer_instance

instance : Composed simple atQualifier := by
  unfold atQualifier
  infer_instance

instance : Composed simple typeName := by
  unfold typeName
  infer_instance

section

variable {operand : Nat → Production (Option Tree)} [∀ power, Composed simple (operand power)]

instance : Composed simple atNamedArgument := by
  unfold atNamedArgument
  infer_instance

instance : Composed simple optionalParameterName := by
  unfold optionalParameterName
  infer_instance

instance : Composed simple (argumentWith operand) := by
  unfold argumentWith
  infer_instance

instance (u : Unit) : Composed simple (argumentPass operand u) := by
  unfold argumentPass
  infer_instance

instance : Composed simple (argumentListWith operand) := by
  unfold argumentListWith
  infer_instance

instance (spacedCall : Bool) : Composed simple (atArguments spacedCall) := by
  unfold atArguments
  infer_instance

instance (cp : Checkpoint) (spacedCall : Bool) (base : Option Tree) :
    Composed simple (suffixPass operand cp spacedCall base) := by
  unfold suffixPass
  infer_instance

instance (cp : Checkpoint) (spacedCall : Bool) (base : Option Tree) :
    Composed simple (suffixesWith operand cp spacedCall base) := by
  unfold suffixesWith
  infer_instance

instance (wanted : Wanted) (spacedCall : Bool) :
    Composed simple (designatorWith operand wanted spacedCall) := by
  unfold designatorWith
  infer_instance

instance : Composed simple (variableWith operand) := by
  unfold variableWith
  infer_instance

instance : Composed simple (calleeWith operand) := by
  unfold calleeWith
  infer_instance

instance : Composed simple (parenthesizedWith operand) := by
  unfold parenthesizedWith
  infer_instance

instance : Composed simple (primaryWith operand) := by
  unfold primaryWith
  refine .bind inferInstance fun _ => ?_
  split
  · infer_instance
  · split <;> infer_instance

instance : Composed simple (typeOfWith operand) := by
  unfold typeOfWith
  infer_instance

instance (cp : Checkpoint) (primary : Option Tree) :
    Composed simple (operandSuffixes operand cp primary) := by
  cases primary <;> unfold operandSuffixes <;> infer_instance

instance : Composed simple (unaryWith operand) := by
  unfold unaryWith
  refine .bind inferInstance fun _ => .bind inferInstance fun _ => ?_
  split
  · infer_instance
  · split <;> infer_instance

instance (cp : Checkpoint) (power : Nat) (left : Option Tree) :
    Composed simple (operatorPass operand cp power left) := by
  unfold operatorPass
  refine .bind inferInstance fun _ => ?_
  split <;> infer_instance

instance (power : Nat) : Composed simple (binaryWith operand power) := by
  unfold binaryWith
  infer_instance

end

instance (depth power : Nat) : Composed simple (binaryUpTo depth power) := by
  induction depth generalizing power with
  | zero => exact .pure _
  | succ depth ih => unfold binaryUpTo; infer_instance

instance (power : Nat) : Composed simple (expressionAbove power) := by
  unfold expressionAbove
  infer_instance

instance : Composed simple expression := by
  unfold expression
  infer_instance

instance : Composed simple operand := by
  unfold operand
  infer_instance

instance : Composed simple variable_ := by
  unfold variable_
  infer_instance

instance : Composed simple callee := by
  unfold callee
  infer_instance

instance : Composed simple argumentList := by
  unfold argumentList
  infer_instance

instance : Composed simple atArgumentSign := by
  unfold atArgumentSign
  infer_instance

instance (u : Unit) : Composed simple (commandArgumentPass u) := by
  unfold commandArgumentPass
  infer_instance

instance : Composed simple commandArguments := by
  unfold commandArguments
  infer_instance

/-! ## Declarations -/

instance : Composed simple shiftModifiers := by
  unfold shiftModifiers
  infer_instance

instance : Composed simple shiftDeclarator := by
  unfold shiftDeclarator
  infer_instance

instance (item : Production Unit) [Composed simple item] (u : Unit) :
    Composed simple (groupPass item u) := by
  unfold groupPass
  infer_instance

instance (k : NodeKind) (item : Production Unit) [Composed simple item] :
    Composed simple (group k item) := by
  unfold group
  infer_instance

instance : Composed simple arrayBound := by
  unfold arrayBound
  infer_instance

instance : Composed simple arrayBounds := by
  unfold arrayBounds
  infer_instance

instance : Composed simple asClause := by
  unfold asClause
  infer_instance

instance : Composed simple optionalAsClause := by
  unfold optionalAsClause
  infer_instance

instance : Composed simple optionalArrayBounds := by
  unfold optionalArrayBounds
  infer_instance

instance (value : Production Unit) [Composed simple value] :
    Composed simple (declaration value) := by
  unfold declaration
  infer_instance

instance : Composed simple variableDeclaration := by
  unfold variableDeclaration
  infer_instance

instance : Composed simple constantDeclaration := by
  unfold constantDeclaration
  infer_instance

instance : Composed simple parameter := by
  unfold parameter
  infer_instance

instance : Composed simple optionalParameterList := by
  unfold optionalParameterList
  infer_instance

instance : Composed simple dimStatement := by
  unfold dimStatement
  infer_instance

instance : Composed simple constStatement := by
  unfold constStatement
  infer_instance

instance : Composed simple reDimStatement := by
  unfold reDimStatement
  infer_instance

instance : Composed simple eraseStatement := by
  unfold eraseStatement
  infer_instance

instance : Composed simple externalSignature := by
  unfold externalSignature
  infer_instance

instance : Composed simple declareStatement := by
  unfold declareStatement
  infer_instance

instance : Composed simple eventStatement := by
  unfold eventStatement
  infer_instance

instance : Composed simple implementsStatement := by
  unfold implementsStatement
  infer_instance

instance : Composed simple atProcedureHeader := by
  unfold atProcedureHeader
  infer_instance

instance (k : NodeKind) (details : Production Unit) [Composed simple details] :
    Composed simple (member k details) := by
  unfold member
  infer_instance

instance : Composed simple typeMember := by
  unfold typeMember
  infer_instance

instance : Composed simple enumMember := by
  unfold enumMember
  infer_instance

instance : Composed simple closeBlock := by
  unfold closeBlock
  infer_instance

instance (closer : Keyword) : Composed simple (atCloser closer) := by
  unfold atCloser
  infer_instance

instance (item : Production Unit) [Composed simple item] :
    Composed simple (memberOrToken item) := by
  unfold memberOrToken
  infer_instance

instance (block : Block) (closer : Keyword) (item : Production Unit)
    [Composed simple item] (u : Unit) : Composed simple (memberPass block closer item u) := by
  unfold memberPass
  infer_instance

instance (block : Block) (closer : Keyword) (item : Production Unit)
    [Composed simple item] : Composed simple (memberBlock block closer item) := by
  unfold memberBlock
  infer_instance

instance : Composed simple typeStatement := by
  unfold typeStatement
  infer_instance

instance : Composed simple enumStatement := by
  unfold enumStatement
  infer_instance

/-! ## Simple statements -/

instance : Composed simple assignment := by
  unfold assignment
  infer_instance

instance : Composed simple assignmentStatement := by
  unfold assignmentStatement
  infer_instance

instance (k : NodeKind) : Composed simple (wordedAssignment k) := by
  unfold wordedAssignment
  infer_instance

instance : Composed simple call := by
  unfold call
  infer_instance

instance : Composed simple callStatement := by
  unfold callStatement
  infer_instance

instance : Composed simple callKeywordStatement := by
  unfold callKeywordStatement
  infer_instance

instance : Composed simple raiseEventStatement := by
  unfold raiseEventStatement
  infer_instance

instance (k : NodeKind) : Composed simple (wordStatement k) := by
  unfold wordStatement
  infer_instance

instance : Composed simple label := by
  unfold label
  infer_instance

instance (k : NodeKind) : Composed simple (jumpStatement k) := by
  unfold jumpStatement
  infer_instance

instance : Composed simple resumeStatement := by
  unfold resumeStatement
  infer_instance

instance : Composed simple exitTarget := by
  unfold exitTarget
  infer_instance

instance : Composed simple exitStatement := by
  unfold exitStatement
  infer_instance

instance : Composed simple onErrorStatement := by
  unfold onErrorStatement
  infer_instance

instance : Composed simple onJumpStatement := by
  unfold onJumpStatement
  infer_instance

instance : Composed simple onStatement := by
  unfold onStatement
  infer_instance

instance : Composed simple lineStatement := by
  unfold lineStatement
  infer_instance

instance : Composed simple atLabel := by
  unfold atLabel
  refine .bind inferInstance fun _ => ?_
  split <;> infer_instance

instance : Composed simple labelStatement := by
  unfold labelStatement
  infer_instance

instance : Composed simple unknownStatement := by
  unfold unknownStatement
  infer_instance

instance : Composed simple unexpectedStatement := by
  unfold unexpectedStatement
  infer_instance

/-! ## Designer blocks -/

instance (block : Block) : Composed simple (atDesignerEnd block) := by
  unfold atDesignerEnd
  infer_instance

instance : Composed simple designerBlock? := by
  unfold designerBlock?
  infer_instance

instance : Composed simple propertyAssignment := by
  unfold propertyAssignment
  infer_instance

instance (inner : Block → Production Unit) [∀ block, Composed simple (inner block)]
    (block? : Option Block) : Composed simple (blockOrProperty inner block?) := by
  cases block? <;> unfold blockOrProperty <;> infer_instance

instance {inner : Block → Production Unit} [∀ b, Composed simple (inner b)] (block : Block)
    (u : Unit) : Composed simple (designerPass inner block u) := by
  unfold designerPass
  infer_instance

instance (depth : Nat) (block : Block) : Composed simple (designerUpTo depth block) := by
  induction depth generalizing block with
  | zero => exact .shift
  | succ depth ih => unfold designerUpTo; infer_instance

instance : Composed simple designerStatement := by
  unfold designerStatement
  infer_instance

/-! ## Lists of statements -/

instance : Composed simple separator := by
  unfold separator
  infer_instance

instance : Composed simple shiftTrivia := by
  unfold shiftTrivia
  infer_instance

instance : Composed simple nextCloser? := by
  unfold nextCloser?
  infer_instance

instance (t : Token) : Composed simple (reportMissingCloser t) := by
  unfold reportMissingCloser
  refine .bind inferInstance fun _ => ?_
  split <;> infer_instance

instance : Composed simple writtenCloser := by
  unfold writtenCloser
  infer_instance

instance (closer : Closer) : Composed simple (strayCloser closer) := by
  unfold strayCloser
  infer_instance

instance (stop : Stop) : Composed simple (blockEnd stop) := by
  unfold blockEnd
  infer_instance

section

variable {statement : Production Unit} [Composed false statement]

instance : Composed false (statementPass statement) := by
  unfold statementPass
  infer_instance

instance (closer : Closer) : Composed false (closerPass closer) := by
  unfold closerPass
  infer_instance

instance (closer? : Option Closer) : Composed false (closerOrStatementPass statement closer?) := by
  cases closer? <;> unfold closerOrStatementPass <;> infer_instance

instance : Composed false (listPass statement) := by
  unfold listPass
  infer_instance

instance (u : Unit) : Composed false (statementsPass statement u) := by
  unfold statementsPass
  infer_instance

instance : Composed false (statements statement) := by
  unfold statements
  infer_instance

instance (block : Block) : Composed false (blockBody statement block) := by
  unfold blockBody
  infer_instance

instance : Composed simple secondElse := by
  unfold secondElse
  infer_instance

instance (endsAtElse : Bool) (u : Unit) : Composed false (inlinePass statement endsAtElse u) := by
  unfold inlinePass
  infer_instance

instance (endsAtElse : Bool) : Composed false (inlineStatements statement endsAtElse) := by
  unfold inlineStatements
  infer_instance

/-! ## Statements with bodies -/

instance : Composed simple ifHeader := by
  unfold ifHeader
  infer_instance

instance : Composed simple lineNumberJump := by
  unfold lineNumberJump
  infer_instance

instance (endsAtElse : Bool) : Composed false (inlineArm statement endsAtElse) := by
  unfold inlineArm
  infer_instance

instance : Composed false (inlineArms statement) := by
  unfold inlineArms
  infer_instance

instance : Composed false (singleLineIf statement) := by
  unfold singleLineIf
  infer_instance

instance (stop : Stop) : Composed false (elseIfPass statement stop) := by
  unfold elseIfPass
  infer_instance

instance : Composed simple atElse := by
  unfold atElse
  infer_instance

instance (stop : Stop) : Composed false (elseBodyPass statement stop) := by
  unfold elseBodyPass
  infer_instance

instance : Composed false (elseClause statement) := by
  unfold elseClause
  infer_instance

instance : Composed false (blockIf statement) := by
  unfold blockIf
  infer_instance

instance : Composed false (ifStatement statement) := by
  unfold ifStatement
  infer_instance

instance : Composed simple forEachHeader := by
  unfold forEachHeader
  infer_instance

instance : Composed simple forHeader := by
  unfold forHeader
  infer_instance

instance : Composed simple openLoops := by
  unfold openLoops
  infer_instance

instance (closed : Nat) : Composed simple (nextVariablePass closed) := by
  unfold nextVariablePass
  infer_instance

instance : Composed false nextClause := by
  unfold nextClause
  infer_instance

instance : Composed false (forStatement statement) := by
  unfold forStatement
  infer_instance

instance : Composed simple atLoopCondition := by
  unfold atLoopCondition
  infer_instance

instance : Composed simple optionalLoopCondition := by
  unfold optionalLoopCondition
  infer_instance

instance : Composed false (doStatement statement) := by
  unfold doStatement
  infer_instance

instance : Composed false (whileStatement statement) := by
  unfold whileStatement
  infer_instance

instance : Composed false (withStatement statement) := by
  unfold withStatement
  infer_instance

instance : Composed simple comparison := by
  unfold comparison
  infer_instance

instance : Composed simple comparisonTest := by
  unfold comparisonTest
  infer_instance

instance : Composed simple valueTest := by
  unfold valueTest
  infer_instance

instance : Composed simple caseTest := by
  unfold caseTest
  infer_instance

instance : Composed simple atCaseElse := by
  unfold atCaseElse
  infer_instance

instance : Composed false (caseClause statement) := by
  unfold caseClause
  infer_instance

instance : Composed simple strayCaseLine := by
  unfold strayCaseLine
  infer_instance

instance (stop : Stop) : Composed false (afterClause stop) := by
  unfold afterClause
  infer_instance

instance (closer : Closer) : Composed false (selectCloserPass statement closer) := by
  unfold selectCloserPass
  infer_instance

instance (closer? : Option Closer) : Composed false (closerOrLinePass statement closer?) := by
  cases closer? <;> unfold closerOrLinePass <;> infer_instance

instance (u : Unit) : Composed false (selectPass statement u) := by
  unfold selectPass
  infer_instance

instance : Composed false (selectStatement statement) := by
  unfold selectStatement
  infer_instance

instance : Composed simple accessor := by
  unfold accessor
  infer_instance

instance : Composed simple signature := by
  unfold signature
  infer_instance

instance : Composed false (procedure statement) := by
  unfold procedure
  infer_instance

instance : Composed false (modifiedStatement statement) := by
  unfold modifiedStatement
  refine .bind inferInstance fun _ => ?_
  split <;> infer_instance

/-- A statement that a keyword opens is composed. -/
theorem Composed.of_keywordStatement? {keyword : Keyword} {p : Production Unit}
    (h : keywordStatement? statement keyword = some p) : Composed false p := by
  unfold keywordStatement? at h
  split at h
  all_goals first
    | obtain rfl := Option.some.inj h
      infer_instance
    | obtain ⟨k, -, rfl⟩ := Option.map_eq_some_iff.mp h
      infer_instance

omit [Composed false statement] in
/-- What the token at the cursor opens, it opens as a keyword that is not soft, or that does so all
the same. -/
theorem exists_keyword_of_openedStatement? {s : TokenStream} {p : Production Unit}
    (h : openedStatement? statement s = some p) :
    ∃ keyword, s.current.kind = .keyword keyword ∧
      (!keyword.isSoft || softKeywordOpens keyword s) = true ∧
      keywordStatement? statement keyword = some p := by
  unfold openedStatement? at h
  split at h
  next keyword hkeyword =>
    split at h
    next hopens => exact ⟨keyword, hkeyword, hopens, h⟩
    next => cases h
  next => cases h

/-- A statement that the token at the cursor opens as a keyword is composed. -/
theorem Composed.of_openedStatement? {s : TokenStream} {p : Production Unit}
    (h : openedStatement? statement s = some p) : Composed false p := by
  obtain ⟨_, -, -, h⟩ := exists_keyword_of_openedStatement? h
  exact .of_keywordStatement? h

/-- The statement that replaces part of a text is composed. -/
theorem Composed.of_replacement? {s : TokenStream} {p : Production Unit}
    (h : replacement? s = some p) : Composed simple p := by
  unfold replacement? at h
  split_ifs at h <;> cases h <;> infer_instance

instance : Composed simple plainStatement := by
  unfold plainStatement
  refine .bind .get fun s => ?_
  dsimp only
  cases h : replacement? s.stream with
  | some production => exact .of_replacement? h
  | none => dsimp only; infer_instance

instance : Composed false (statementAtCursor statement) := by
  unfold statementAtCursor
  refine .bind inferInstance fun _ => ?_
  split
  · infer_instance
  · change Composed false (get >>= fun s => _)
    refine .bind .get fun s => ?_
    cases h : openedStatement? statement s.stream with
    | some production => exact .of_openedStatement? h
    | none => exact (inferInstance : Composed false plainStatement)

instance : Composed false (statementWith statement) := by
  unfold statementWith
  infer_instance

end

instance (depth : Nat) : Composed false (statementUpTo depth) := by
  induction depth with
  | zero => exact .shift
  | succ depth ih => unfold statementUpTo; infer_instance

instance : Composed false source := by
  unfold source
  infer_instance

end LosslessBasic.Grammar
