import LosslessBasic.Proofs.Grammar.Conservation

/-!
# One failure a statement

A statement that has failed reports nothing more: `fail` looks at the mark that says so and sets it,
and nothing within a statement takes the mark back. What a statement may still report is its quota,
one failure as long as it has not failed and none afterwards. `ReportsOnce p` says that `p` reports
no more than the quota it starts with, less what it leaves.

The expressions, the parts of declarations and the statements that hold no others are instances.
Only what starts no statement does not ask whether the statement has failed already; it is the first
thing that its statement reports.
-/

namespace LosslessBasic.Grammar

set_option synthInstance.maxSize 65536

/-- The number of failures there may be by the end of the statement. -/
def State.quota (s : State) : Nat := s.failures.size + if s.recovering then 0 else 1

theorem State.size_failures_le_quota (s : State) : s.failures.size ≤ s.quota := Nat.le_add_right _ _

/-- A production that reports at most one failure, none where the statement has failed already, and
leaves the mark that says so. -/
class ReportsOnce {α : Type} (p : Production α) : Prop where
  quota_le (s : State) : (p.run s).2.quota ≤ s.quota

section

variable {α β : Type} {p q : Production α}

/-- What reports nothing and leaves the mark alone. -/
theorem ReportsOnce.of_quota_eq (h : ∀ s, (p.run s).2.quota = s.quota) : ReportsOnce p :=
  ⟨fun s => Nat.le_of_eq (h s)⟩

instance (a : α) : ReportsOnce (pure a) := .of_quota_eq fun _ => rfl

instance : ReportsOnce (get : Production State) := .of_quota_eq fun _ => rfl

instance (f : TokenStream → α) : ReportsOnce (look f) := .of_quota_eq fun _ => rfl

instance : ReportsOnce checkpoint := .of_quota_eq fun _ => rfl

instance (activity : Activity) (t : Token) : ReportsOnce (note activity t) :=
  .of_quota_eq fun _ => rfl

instance (separator : Separator) : ReportsOnce (setSeparator separator) := .of_quota_eq fun _ => rfl

instance (access header : Tree) : ReportsOnce (addTarget access header) := .of_quota_eq fun _ => rfl

instance : ReportsOnce shift :=
  .of_quota_eq fun s => by
    by_cases hend : s.stream.current.kind = .lexeme .endOfFile
    · rw [run_shift_of_atEnd hend]
    · rw [run_shift hend]
      rfl

/-- A statement that has failed may report nothing more. -/
instance : ReportsOnce (setRecovering true) where
  quota_le s := s.size_failures_le_quota

/-- A failure is reported only where the statement has not failed, and then it has. -/
instance (problem : Problem) (t : Token) : ReportsOnce (fail problem t) where
  quota_le s := by
    unfold fail
    dsimp only
    rw [run_bind, run_get]
    cases hrecovering : s.recovering with
    | true =>
      rw [if_pos rfl]
      exact s.size_failures_le_quota
    | false =>
      rw [if_neg Bool.false_ne_true]
      show (s.failures.push (Failure.atToken problem t)).size + 0 ≤ s.quota
      rw [State.quota, hrecovering, Array.size_push]
      exact Nat.le_refl _

instance ReportsOnce.bind {f : α → Production β} [hp : ReportsOnce p]
    [hf : ∀ a, ReportsOnce (f a)] :
    ReportsOnce (p >>= f) where
  quota_le s := Nat.le_trans ((hf _).quota_le _) (hp.quota_le s)

instance {k : NodeKind} [h : ReportsOnce p] : ReportsOnce (within k p) where
  quota_le s := h.quota_le (s.opening k)

instance {k : NodeKind} {p : Production Unit} [h : ReportsOnce p] :
    ReportsOnce (composite k p) where
  quota_le s := h.quota_le (s.opening k)

instance {cp : Checkpoint} {k : NodeKind} {p : Production Unit} [h : ReportsOnce p] :
    ReportsOnce (compositeFrom cp k p) where
  quota_le s := h.quota_le (s.openingAt cp k)

instance {c : Prop} [Decidable c] [ReportsOnce p] [ReportsOnce q] :
    ReportsOnce (if c then p else q) := by
  split <;> infer_instance

instance {exhausted : α → β} {pass : α → Production (Pass α β)}
    [∀ a, ReportsOnce (pass a)] (n : Nat)
    (a : α) : ReportsOnce (iterateUpTo exhausted pass n a) := by
  induction n generalizing a with
  | zero => unfold iterateUpTo; infer_instance
  | succ n ih =>
    have hrest (r : Pass α β) : ReportsOnce (match r with
        | .again a => iterateUpTo exhausted pass n a
        | .done b => pure b) := by
      cases r with
      | again a => exact ih a
      | done b => dsimp only; infer_instance
    unfold iterateUpTo
    infer_instance

instance {exhausted : α → β} {pass : α → Production (Pass α β)}
    [∀ a, ReportsOnce (pass a)] (a : α) :
    ReportsOnce (iterate exhausted pass a) := by
  unfold iterate
  infer_instance

instance {test : Production Bool} {body : Production Unit} [ReportsOnce test] [ReportsOnce body]
    (n : Nat) : ReportsOnce (repeatWhileUpTo test body n) := by
  induction n with
  | zero => unfold repeatWhileUpTo; infer_instance
  | succ n ih => unfold repeatWhileUpTo; infer_instance

instance {test : Production Bool} {body : Production Unit} [ReportsOnce test] [ReportsOnce body] :
    ReportsOnce (repeatWhile test body) := by
  unfold repeatWhile
  infer_instance

end

/-! ## Tokens -/

instance : ReportsOnce current := by unfold current; infer_instance

instance : ReportsOnce currentKind := by unfold currentKind; infer_instance

instance : ReportsOnce next := by unfold next; infer_instance

instance : ReportsOnce nextKind := by unfold nextKind; infer_instance

instance : ReportsOnce secondKind := by unfold secondKind; infer_instance

instance : ReportsOnce skipBlanks := by unfold skipBlanks; infer_instance

instance : ReportsOnce shiftNext := by unfold shiftNext; infer_instance

instance (k : Kind) : ReportsOnce (atCurrent k) := by unfold atCurrent; infer_instance

instance (k : Kind) : ReportsOnce (atNext k) := by unfold atNext; infer_instance

instance (k : Kind) : ReportsOnce (accept k) := by unfold accept; infer_instance

instance (wanted : Wanted) : ReportsOnce (failExpected wanted) := by
  unfold failExpected
  infer_instance

instance (k : Kind) : ReportsOnce (expect k) := by unfold expect; infer_instance

/-! ## The ends of statements -/

instance : ReportsOnce atStatementEnd := by unfold atStatementEnd; infer_instance

instance : ReportsOnce withinStatement := by unfold withinStatement; infer_instance

instance : ReportsOnce shiftRest := by unfold shiftRest; infer_instance

instance : ReportsOnce recover := by unfold recover; infer_instance

instance : ReportsOnce shiftLineBreak := by unfold shiftLineBreak; infer_instance

instance : ReportsOnce finishStatement := by
  unfold finishStatement
  dsimp only
  infer_instance

instance (k : NodeKind) : ReportsOnce (rawStatement k) := by unfold rawStatement; infer_instance

instance (item : Production Unit) [ReportsOnce item] : ReportsOnce (commaList item) := by
  unfold commaList
  infer_instance

/-! ## Expressions -/

instance : ReportsOnce nameExpression := by unfold nameExpression; infer_instance

instance (wanted : Wanted) : ReportsOnce (expectName wanted) := by unfold expectName; infer_instance

instance (wanted : Wanted) : ReportsOnce (hasName wanted) := by unfold hasName; infer_instance

instance : ReportsOnce memberName := by unfold memberName; infer_instance

instance : ReportsOnce atMemberAccess := by unfold atMemberAccess; infer_instance

instance (sign : Token) (access : Option Tree) : ReportsOnce (referToHeader sign access) := by
  unfold referToHeader
  refine @ReportsOnce.bind _ _ _ _ _ fun _ => ?_
  split <;> infer_instance

instance : ReportsOnce leadingAccess := by unfold leadingAccess; infer_instance

instance : ReportsOnce atQualifier := by unfold atQualifier; infer_instance

instance : ReportsOnce typeName := by unfold typeName; infer_instance

instance : ReportsOnce atNamedArgument := by unfold atNamedArgument; infer_instance

instance : ReportsOnce optionalParameterName := by unfold optionalParameterName; infer_instance

section

variable {operand : Nat → Production (Option Tree)} [∀ power, ReportsOnce (operand power)]

instance : ReportsOnce (argumentWith operand) := by unfold argumentWith; infer_instance

instance (u : Unit) : ReportsOnce (argumentPass operand u) := by unfold argumentPass; infer_instance

instance : ReportsOnce (argumentListWith operand) := by unfold argumentListWith; infer_instance

instance (spacedCall : Bool) : ReportsOnce (atArguments spacedCall) := by
  unfold atArguments
  infer_instance

instance (cp : Checkpoint) (spacedCall : Bool) (base : Option Tree) :
    ReportsOnce (suffixPass operand cp spacedCall base) := by
  unfold suffixPass
  infer_instance

instance (cp : Checkpoint) (spacedCall : Bool) (base : Option Tree) :
    ReportsOnce (suffixesWith operand cp spacedCall base) := by
  unfold suffixesWith
  infer_instance

instance (wanted : Wanted) (spacedCall : Bool) :
    ReportsOnce (designatorWith operand wanted spacedCall) := by
  unfold designatorWith
  infer_instance

instance : ReportsOnce (variableWith operand) := by unfold variableWith; infer_instance

instance : ReportsOnce (calleeWith operand) := by unfold calleeWith; infer_instance

instance : ReportsOnce (parenthesizedWith operand) := by unfold parenthesizedWith; infer_instance

instance : ReportsOnce (primaryWith operand) := by
  unfold primaryWith
  refine @ReportsOnce.bind _ _ _ _ _ fun t => ?_
  split
  · infer_instance
  · split <;> infer_instance

instance : ReportsOnce (typeOfWith operand) := by unfold typeOfWith; infer_instance

instance (cp : Checkpoint) (primary : Option Tree) :
    ReportsOnce (operandSuffixes operand cp primary) := by
  cases primary <;> unfold operandSuffixes <;> infer_instance

instance : ReportsOnce (unaryWith operand) := by
  unfold unaryWith
  refine @ReportsOnce.bind _ _ _ _ _ fun _ => @ReportsOnce.bind _ _ _ _ _ fun kind => ?_
  split
  · infer_instance
  · split <;> infer_instance

instance (cp : Checkpoint) (power : Nat) (left : Option Tree) :
    ReportsOnce (operatorPass operand cp power left) := by
  unfold operatorPass
  refine @ReportsOnce.bind _ _ _ _ _ fun kind => ?_
  split <;> infer_instance

instance (power : Nat) : ReportsOnce (binaryWith operand power) := by
  unfold binaryWith
  infer_instance

end

instance (depth power : Nat) : ReportsOnce (binaryUpTo depth power) := by
  induction depth generalizing power with
  | zero => unfold binaryUpTo; infer_instance
  | succ depth ih => unfold binaryUpTo; infer_instance

instance (power : Nat) : ReportsOnce (expressionAbove power) := by
  unfold expressionAbove
  infer_instance

instance : ReportsOnce expression := by unfold expression; infer_instance

instance : ReportsOnce operand := by unfold operand; infer_instance

instance : ReportsOnce variable_ := by unfold variable_; infer_instance

instance : ReportsOnce callee := by unfold callee; infer_instance

instance : ReportsOnce argumentList := by unfold argumentList; infer_instance

instance : ReportsOnce atArgumentSign := by unfold atArgumentSign; infer_instance

instance (u : Unit) : ReportsOnce (commandArgumentPass u) := by
  unfold commandArgumentPass
  infer_instance

instance : ReportsOnce commandArguments := by unfold commandArguments; infer_instance

/-! ## Declarations -/

instance : ReportsOnce shiftModifiers := by unfold shiftModifiers; infer_instance

instance : ReportsOnce shiftDeclarator := by unfold shiftDeclarator; infer_instance

instance (item : Production Unit) [ReportsOnce item] (u : Unit) :
    ReportsOnce (groupPass item u) := by
  unfold groupPass
  infer_instance

instance (k : NodeKind) (item : Production Unit) [ReportsOnce item] :
    ReportsOnce (group k item) := by
  unfold group
  infer_instance

instance : ReportsOnce arrayBound := by unfold arrayBound; infer_instance

instance : ReportsOnce arrayBounds := by unfold arrayBounds; infer_instance

instance : ReportsOnce asClause := by unfold asClause; infer_instance

instance : ReportsOnce optionalAsClause := by unfold optionalAsClause; infer_instance

instance : ReportsOnce optionalArrayBounds := by unfold optionalArrayBounds; infer_instance

instance (value : Production Unit) [ReportsOnce value] : ReportsOnce (declaration value) := by
  unfold declaration
  infer_instance

instance : ReportsOnce variableDeclaration := by unfold variableDeclaration; infer_instance

instance : ReportsOnce constantDeclaration := by unfold constantDeclaration; infer_instance

instance : ReportsOnce parameter := by unfold parameter; infer_instance

instance : ReportsOnce optionalParameterList := by unfold optionalParameterList; infer_instance

instance : ReportsOnce dimStatement := by unfold dimStatement; infer_instance

instance : ReportsOnce constStatement := by unfold constStatement; infer_instance

instance : ReportsOnce reDimStatement := by unfold reDimStatement; infer_instance

instance : ReportsOnce eraseStatement := by unfold eraseStatement; infer_instance

instance : ReportsOnce externalSignature := by unfold externalSignature; infer_instance

instance : ReportsOnce declareStatement := by unfold declareStatement; infer_instance

instance : ReportsOnce eventStatement := by unfold eventStatement; infer_instance

instance : ReportsOnce implementsStatement := by unfold implementsStatement; infer_instance

/-! ## Simple statements -/

instance : ReportsOnce assignment := by unfold assignment; infer_instance

instance : ReportsOnce assignmentStatement := by unfold assignmentStatement; infer_instance

instance (k : NodeKind) : ReportsOnce (wordedAssignment k) := by
  unfold wordedAssignment
  infer_instance

instance : ReportsOnce call := by unfold call; infer_instance

instance : ReportsOnce callStatement := by unfold callStatement; infer_instance

instance : ReportsOnce callKeywordStatement := by unfold callKeywordStatement; infer_instance

instance : ReportsOnce raiseEventStatement := by unfold raiseEventStatement; infer_instance

instance (k : NodeKind) : ReportsOnce (wordStatement k) := by unfold wordStatement; infer_instance

instance : ReportsOnce label := by unfold label; infer_instance

instance (k : NodeKind) : ReportsOnce (jumpStatement k) := by unfold jumpStatement; infer_instance

instance : ReportsOnce resumeStatement := by unfold resumeStatement; infer_instance

instance : ReportsOnce exitTarget := by unfold exitTarget; infer_instance

instance : ReportsOnce exitStatement := by unfold exitStatement; infer_instance

instance : ReportsOnce onErrorStatement := by unfold onErrorStatement; infer_instance

instance : ReportsOnce onJumpStatement := by unfold onJumpStatement; infer_instance

instance : ReportsOnce onStatement := by unfold onStatement; infer_instance

instance : ReportsOnce lineStatement := by unfold lineStatement; infer_instance

instance : ReportsOnce labelStatement := by unfold labelStatement; infer_instance

instance : ReportsOnce unknownStatement := by unfold unknownStatement; infer_instance

end LosslessBasic.Grammar
