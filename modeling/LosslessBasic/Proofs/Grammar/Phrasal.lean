import LosslessBasic.Proofs.Grammar.Conservation
import LosslessBasic.Proofs.Tree.Every
import LosslessBasic.Proofs.Tree.Layout

/-!
# Parts of statements

Within a statement nothing but fragments is put around tokens, and what is of unknown meaning. No
list of statements is opened there and no label is read, no colon is reported, and what separates
the statement from the one before is left alone.

`Phrasal` says so of a production; its instances go through expressions, declarations and headers in
the order of the grammar. Rules for nodes of other kinds are kept by what is phrasal
(`Phrasal.everyAll`).
-/

namespace LosslessBasic

/-- The kinds of nodes within a statement. -/
@[reducible]
def NodeKind.isPhrase : NodeKind → Bool
  | .unknown => true
  | k => k.isFragment

/-- Whether a problem is other than that of a colon that separates no two statements. -/
@[reducible]
def Problem.isNoColon : Problem → Bool
  | .straySeparator => false
  | _ => true

namespace Grammar

set_option synthInstance.maxSize 65536

/-- The productions that are put together from moves within a statement. -/
class inductive Phrasal : {α : Type} → Production α → Prop
  | pure {α : Type} (a : α) : Phrasal (pure a)
  | bind {α β : Type} {p : Production α} {f : α → Production β} (hp : Phrasal p)
      (hf : ∀ a, Phrasal (f a)) : Phrasal (p >>= f)
  | get : Phrasal get
  | shift : Phrasal shift
  | within {α : Type} {k : NodeKind} {body : Production α} (hk : k.isPhrase = true)
      (h : Phrasal body) : Phrasal (within k body)
  | composite {k : NodeKind} {body : Production Unit} (hk : k.isPhrase = true) (h : Phrasal body) :
      Phrasal (composite k body)
  | compositeFrom {cp : Checkpoint} {k : NodeKind} {body : Production Unit} (hk : k.isPhrase = true)
      (h : Phrasal body) : Phrasal (compositeFrom cp k body)
  | note (activity : Activity) (t : Token) : Phrasal (note activity t)
  | setRecovering (recovering : Bool) : Phrasal (setRecovering recovering)
  | addTarget (access header : Tree) : Phrasal (addTarget access header)
  | report {problem : Problem} (hproblem : problem.isNoColon = true) (t : Token) :
      Phrasal (report problem t)

attribute [instance] Phrasal.pure Phrasal.get Phrasal.shift Phrasal.note Phrasal.setRecovering
  Phrasal.addTarget

section

variable {α β : Type} {p q : Production α}

instance {f : α → Production β} [hp : Phrasal p] [hf : ∀ a, Phrasal (f a)] : Phrasal (p >>= f) :=
  .bind hp hf

instance {k : NodeKind} [hk : IsTrue k.isPhrase] [h : Phrasal p] : Phrasal (within k p) :=
  .within hk.eq_true h

instance {k : NodeKind} {p : Production Unit} [hk : IsTrue k.isPhrase] [h : Phrasal p] :
    Phrasal (composite k p) :=
  .composite hk.eq_true h

instance {cp : Checkpoint} {k : NodeKind} {p : Production Unit} [hk : IsTrue k.isPhrase]
    [h : Phrasal p] : Phrasal (compositeFrom cp k p) :=
  .compositeFrom hk.eq_true h

instance (problem : Problem) (t : Token) [h : IsTrue problem.isNoColon] :
    Phrasal (report problem t) :=
  .report h.eq_true t

instance {c : Prop} [Decidable c] [Phrasal p] [Phrasal q] : Phrasal (if c then p else q) := by
  split <;> infer_instance

instance (f : TokenStream → α) : Phrasal (look f) := by unfold look; infer_instance

instance {exhausted : α → β} {pass : α → Production (Pass α β)} [∀ a, Phrasal (pass a)] (n : Nat)
    (a : α) : Phrasal (iterateUpTo exhausted pass n a) := by
  induction n generalizing a with
  | zero => exact .pure _
  | succ n ih =>
    refine .bind inferInstance fun r => ?_
    cases r with
    | again a => exact ih a
    | done b => exact .pure b

instance {exhausted : α → β} {pass : α → Production (Pass α β)} [∀ a, Phrasal (pass a)] (a : α) :
    Phrasal (iterate exhausted pass a) := by
  unfold iterate
  infer_instance

instance {test : Production Bool} {body : Production Unit} [Phrasal test] [Phrasal body] (n : Nat) :
    Phrasal (repeatWhileUpTo test body n) := by
  induction n with
  | zero => exact .pure _
  | succ n ih => unfold repeatWhileUpTo; infer_instance

instance {test : Production Bool} {body : Production Unit} [Phrasal test] [Phrasal body] :
    Phrasal (repeatWhile test body) := by
  unfold repeatWhile
  infer_instance

end

/-! ## What is left alone -/

section

variable {α : Type} {p : Production α}

theorem Phrasal.composed (h : Phrasal p) : Composed false p := by
  induction h with
  | pure a => exact .pure a
  | bind _ _ ihp ihf => exact .bind ihp ihf
  | get => exact .get
  | shift => exact .shift
  | within _ _ ih => exact .within ih
  | composite _ _ ih => exact .composite ih
  | compositeFrom _ _ ih => exact .compositeFrom ih
  | note activity t => exact .note activity t
  | setRecovering recovering => exact .setRecovering recovering
  | addTarget access header => exact .addTarget access header
  | report _ t => exact .report _ t

/-- What separates a statement from the one before is left alone. -/
theorem Phrasal.lastSeparator_eq (h : Phrasal p) (s : State) :
    (p.run s).2.lastSeparator = s.lastSeparator := by
  induction h generalizing s with
  | pure | get | note | setRecovering | addTarget | report => rfl
  | bind _ _ ihp ihf => exact (ihf _ _).trans (ihp s)
  | shift =>
    by_cases hend : s.stream.current.kind = .lexeme .endOfFile
    · rw [run_shift_of_atEnd hend]
    · rw [run_shift hend]
      rfl
  | @within _ k _ _ _ ih => exact ih (s.opening k)
  | @composite k _ _ _ ih => exact ih (s.opening k)
  | @compositeFrom cp k _ _ _ ih => exact ih (s.openingAt cp k)

/-- The failures that report a colon, in their order. -/
def State.strays (s : State) : List Failure :=
  s.failures.toList.filter fun f => !f.problem.isNoColon

theorem State.strays_report (s : State) {problem : Problem} (h : problem.isNoColon = true)
    (t : Token) :
    ((report problem t).run s).2.strays = s.strays := by
  change (s.failures.push (Failure.atToken problem t)).toList.filter _ = s.failures.toList.filter _
  rw [Array.toList_push, List.filter_append,
    List.filter_cons_of_neg (by simpa [Failure.atToken] using h), List.filter_nil, List.append_nil]

/-- No colon is reported. -/
theorem Phrasal.strays_eq (h : Phrasal p) (s : State) : (p.run s).2.strays = s.strays := by
  induction h generalizing s with
  | pure | get | note | setRecovering | addTarget => rfl
  | bind _ _ ihp ihf => exact (ihf _ _).trans (ihp s)
  | shift =>
    unfold State.strays
    rw [failures_shift]
  | @within _ k _ _ _ ih => exact ih (s.opening k)
  | @composite k _ _ _ ih => exact ih (s.opening k)
  | @compositeFrom cp k _ _ _ ih => exact ih (s.openingAt cp k)
  | report hproblem t => exact s.strays_report hproblem t

/-! ## Rules -/

variable {P : Tree.Rule} {s : State}

/-- The trees in the row are as a rule has it. -/
def State.Ruled (P : Tree.Rule) (s : State) : Prop := Tree.EveryAll P 0 s.builder.pending.toList

theorem State.Ruled.shifted (h : s.Ruled P) : s.shifted.Ruled P := by
  unfold State.Ruled State.shifted Builder.token
  rw [Array.toList_push]
  exact Tree.everyAll_append.mpr ⟨h, trivial, trivial⟩

/-- A node is closed that is itself as the rule has it. -/
theorem State.Ruled.closing {n : OpenNode} {outer : List OpenNode} (h : s.Ruled P)
    (hopened : s.builder.opened = n :: outer)
    (hnode : ∀ k, n.kind = .node k →
      P (Tree.leavesAll (s.builder.pending.toList.take n.first)).length k
      (s.builder.pending.toList.drop n.first)) : s.closing.Ruled P := by
  unfold State.Ruled at h
  rw [← List.take_append_drop n.first s.builder.pending.toList, Tree.everyAll_append,
    Nat.zero_add] at h
  unfold State.Ruled State.closing
  rw [Builder.pending_finishNode hopened]
  refine Tree.everyAll_append.mpr ⟨h.1, ?_, trivial⟩
  rw [Nat.zero_add]
  exact Tree.every_above_of hnode h.2

/-- What is phrasal keeps every rule for nodes of other kinds. -/
theorem Phrasal.ruled (h : Phrasal p) (hP : ∀ n k cs, k.isPhrase = true → P n k cs)
    (hs : s.Ruled P) : (p.run s).2.Ruled P := by
  induction h generalizing s with
  | pure | get | note | setRecovering | addTarget | report => exact hs
  | bind _ _ ihp ihf => exact ihf _ (ihp hs)
  | shift =>
    by_cases hend : s.stream.current.kind = .lexeme .endOfFile
    · rwa [run_shift_of_atEnd hend]
    · rw [run_shift hend]
      exact hs.shifted
  | @within _ k _ hk h ih =>
    rw [run_within]
    refine (ih (s := s.opening k) hs).closing (h.composed.sameContext _).opened ?_
    rintro l hl
    cases hl
    exact hP _ _ _ hk
  | @composite k _ hk h ih =>
    rw [run_composite]
    refine (ih (s := s.opening k) hs).closing (h.composed.sameContext _).opened ?_
    rintro l hl
    cases hl
    exact hP _ _ _ hk
  | @compositeFrom cp k _ hk h ih =>
    rw [run_compositeFrom]
    refine (ih (s := s.openingAt cp k) hs).closing (h.composed.sameContext _).opened ?_
    rintro l hl
    cases hl
    exact hP _ _ _ hk

end

/-! ## Tokens, contexts and failures -/

instance : Phrasal current := by unfold current; infer_instance

instance : Phrasal currentKind := by unfold currentKind; infer_instance

instance : Phrasal next := by unfold next; infer_instance

instance : Phrasal nextKind := by unfold nextKind; infer_instance

instance : Phrasal secondKind := by unfold secondKind; infer_instance

instance : Phrasal skipBlanks := by unfold skipBlanks; infer_instance

instance : Phrasal shiftNext := by unfold shiftNext; infer_instance

instance : Phrasal checkpoint := by unfold checkpoint; infer_instance

instance (k : Kind) : Phrasal (atCurrent k) := by unfold atCurrent; infer_instance

instance (k : Kind) : Phrasal (atNext k) := by unfold atNext; infer_instance

instance (k : Kind) : Phrasal (accept k) := by unfold accept; infer_instance

instance (problem : Problem) (t : Token) [IsTrue problem.isNoColon] : Phrasal (fail problem t) := by
  unfold fail
  dsimp only
  infer_instance

instance (wanted : Wanted) : Phrasal (failExpected wanted) := by unfold failExpected; infer_instance

instance (k : Kind) : Phrasal (expect k) := by unfold expect; infer_instance

/-! ## The ends of statements -/

instance : Phrasal atStatementEnd := by unfold atStatementEnd; infer_instance

instance : Phrasal withinStatement := by unfold withinStatement; infer_instance

instance : Phrasal shiftRest := by unfold shiftRest; infer_instance

instance : Phrasal recover := by unfold recover; infer_instance

instance (item : Production Unit) [Phrasal item] : Phrasal (commaList item) := by
  unfold commaList
  infer_instance

/-! ## Expressions -/

instance : Phrasal nameExpression := by unfold nameExpression; infer_instance

instance (wanted : Wanted) : Phrasal (expectName wanted) := by unfold expectName; infer_instance

instance (wanted : Wanted) : Phrasal (hasName wanted) := by unfold hasName; infer_instance

instance : Phrasal memberName := by unfold memberName; infer_instance

instance : Phrasal atMemberAccess := by unfold atMemberAccess; infer_instance

instance (sign : Token) (access : Option Tree) : Phrasal (referToHeader sign access) := by
  unfold referToHeader
  refine .bind .get fun _ => ?_
  split <;> infer_instance

instance (sign : Kind) : IsTrue (accessKind sign).isPhrase := by
  unfold accessKind
  split <;> infer_instance

instance : Phrasal leadingAccess := by unfold leadingAccess; infer_instance

instance : Phrasal atQualifier := by unfold atQualifier; infer_instance

instance : Phrasal typeName := by unfold typeName; infer_instance

section

variable {operand : Nat → Production (Option Tree)} [∀ power, Phrasal (operand power)]

instance : Phrasal atNamedArgument := by unfold atNamedArgument; infer_instance

instance : Phrasal optionalParameterName := by unfold optionalParameterName; infer_instance

instance : Phrasal (argumentWith operand) := by unfold argumentWith; infer_instance

instance (u : Unit) : Phrasal (argumentPass operand u) := by unfold argumentPass; infer_instance

instance : Phrasal (argumentListWith operand) := by unfold argumentListWith; infer_instance

instance (spacedCall : Bool) : Phrasal (atArguments spacedCall) := by
  unfold atArguments
  infer_instance

instance (cp : Checkpoint) (spacedCall : Bool) (base : Option Tree) :
    Phrasal (suffixPass operand cp spacedCall base) := by
  unfold suffixPass
  infer_instance

instance (cp : Checkpoint) (spacedCall : Bool) (base : Option Tree) :
    Phrasal (suffixesWith operand cp spacedCall base) := by
  unfold suffixesWith
  infer_instance

instance (wanted : Wanted) (spacedCall : Bool) :
    Phrasal (designatorWith operand wanted spacedCall) := by
  unfold designatorWith
  infer_instance

instance : Phrasal (variableWith operand) := by unfold variableWith; infer_instance

instance : Phrasal (calleeWith operand) := by unfold calleeWith; infer_instance

instance : Phrasal (parenthesizedWith operand) := by unfold parenthesizedWith; infer_instance

omit [∀ power, Phrasal (operand power)] in
theorem isPhrase_of_literalKind? {k : Kind} {literal : NodeKind}
    (h : literalKind? k = some literal) :
    literal.isPhrase = true := by
  unfold literalKind? at h
  split at h
  case h_8 =>
    split at h
    · cases h
      rfl
    · cases h
  all_goals cases h <;> rfl

instance : Phrasal (primaryWith operand) := by
  unfold primaryWith
  refine .bind inferInstance fun _ => ?_
  split
  next hliteral => exact .composite (isPhrase_of_literalKind? hliteral) inferInstance
  next => split <;> infer_instance

instance : Phrasal (typeOfWith operand) := by unfold typeOfWith; infer_instance

instance (cp : Checkpoint) (primary : Option Tree) :
    Phrasal (operandSuffixes operand cp primary) := by
  cases primary <;> unfold operandSuffixes <;> infer_instance

instance : Phrasal (unaryWith operand) := by
  unfold unaryWith
  refine .bind inferInstance fun _ => .bind inferInstance fun _ => ?_
  split
  · infer_instance
  · split <;> infer_instance

instance (cp : Checkpoint) (power : Nat) (left : Option Tree) :
    Phrasal (operatorPass operand cp power left) := by
  unfold operatorPass
  refine .bind inferInstance fun _ => ?_
  split <;> infer_instance

instance (power : Nat) : Phrasal (binaryWith operand power) := by unfold binaryWith; infer_instance

end

instance (depth power : Nat) : Phrasal (binaryUpTo depth power) := by
  induction depth generalizing power with
  | zero => exact .pure _
  | succ depth ih => unfold binaryUpTo; infer_instance

instance (power : Nat) : Phrasal (expressionAbove power) := by
  unfold expressionAbove
  infer_instance

instance : Phrasal expression := by unfold expression; infer_instance

instance : Phrasal operand := by unfold operand; infer_instance

instance : Phrasal variable_ := by unfold variable_; infer_instance

instance : Phrasal callee := by unfold callee; infer_instance

instance : Phrasal argumentList := by unfold argumentList; infer_instance

instance : Phrasal atArgumentSign := by unfold atArgumentSign; infer_instance

instance (u : Unit) : Phrasal (commandArgumentPass u) := by
  unfold commandArgumentPass
  infer_instance

instance : Phrasal commandArguments := by unfold commandArguments; infer_instance

/-! ## Declarations -/

instance : Phrasal shiftModifiers := by unfold shiftModifiers; infer_instance

instance : Phrasal shiftDeclarator := by unfold shiftDeclarator; infer_instance

instance (item : Production Unit) [Phrasal item] (u : Unit) : Phrasal (groupPass item u) := by
  unfold groupPass
  infer_instance

instance (k : NodeKind) [IsTrue k.isPhrase] (item : Production Unit) [Phrasal item] :
    Phrasal (group k item) := by
  unfold group
  infer_instance

instance : Phrasal arrayBound := by unfold arrayBound; infer_instance

instance : Phrasal arrayBounds := by unfold arrayBounds; infer_instance

instance : Phrasal asClause := by unfold asClause; infer_instance

instance : Phrasal optionalAsClause := by unfold optionalAsClause; infer_instance

instance : Phrasal optionalArrayBounds := by unfold optionalArrayBounds; infer_instance

instance (value : Production Unit) [Phrasal value] : Phrasal (declaration value) := by
  unfold declaration
  infer_instance

instance : Phrasal variableDeclaration := by unfold variableDeclaration; infer_instance

instance : Phrasal constantDeclaration := by unfold constantDeclaration; infer_instance

instance : Phrasal parameter := by unfold parameter; infer_instance

instance : Phrasal optionalParameterList := by unfold optionalParameterList; infer_instance

instance : Phrasal externalSignature := by unfold externalSignature; infer_instance

/-! ## Parts of statements -/

instance : Phrasal label := by unfold label; infer_instance

instance : Phrasal exitTarget := by unfold exitTarget; infer_instance

instance : Phrasal ifHeader := by unfold ifHeader; infer_instance

instance : Phrasal forEachHeader := by unfold forEachHeader; infer_instance

instance : Phrasal forHeader := by unfold forHeader; infer_instance

instance : Phrasal openLoops := by unfold openLoops; infer_instance

instance (closed : Nat) : Phrasal (nextVariablePass closed) := by
  unfold nextVariablePass
  infer_instance

instance : Phrasal optionalLoopCondition := by
  unfold optionalLoopCondition atLoopCondition
  infer_instance

instance : Phrasal comparison := by unfold comparison; infer_instance

instance : Phrasal comparisonTest := by unfold comparisonTest; infer_instance

instance : Phrasal valueTest := by unfold valueTest; infer_instance

instance : Phrasal caseTest := by unfold caseTest; infer_instance

instance : Phrasal accessor := by unfold accessor; infer_instance

instance : Phrasal signature := by unfold signature; infer_instance

end Grammar

end LosslessBasic

