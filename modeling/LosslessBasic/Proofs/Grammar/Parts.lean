import LosslessBasic.Proofs.Grammar.Inline

/-!
# The parts of statements are read the same at another place

The productions that read the parts of a statement, from names to declarations, go through the rules
of `Inline` in the order of the grammar. Two depths of nesting that suffice for the tokens ahead
give the same expressions, so the reading in front of further tokens may nest deeper.
-/

namespace LosslessBasic.Grammar

set_option synthInstance.maxSize 65536

section

variable {P : Placement}

/-! ## Names and members -/

instance : Inline P nameExpression nameExpression := by unfold nameExpression; infer_instance

instance (wanted : Wanted) : Inline P (expectName wanted) (expectName wanted) := by
  unfold expectName
  infer_instance

/-- A node that is placed is one where it is one. -/
theorem isSome_place (t? : Option Tree) : (place P t?).isSome = t?.isSome := Option.isSome_map

instance (wanted : Wanted) : Inline P (hasName wanted) (hasName wanted) := by
  have hisSome (t? : Option Tree) :
      Inline P (pure t?.isSome : Production Bool) (pure (place P t?).isSome) := by
    rw [isSome_place]
    infer_instance
  unfold hasName
  infer_instance

instance : Inline P memberName memberName := by unfold memberName; infer_instance

/-- A header that is placed is looked for where it was. -/
instance (sign : Token) (access : Option Tree) :
    Inline P (referToHeader sign access) (referToHeader (place P sign) (place P access)) := by
  have hheader (targets : List (Option Tree)) : Inline P
      (match targets, access with
        | [], _ => fail (.memberOutsideWith sign) sign
        | some header :: _, some access => addTarget access header
        | _, _ => pure ())
      (match targets.map (Option.map P.relocation.tree), place P access with
        | [], _ => fail (.memberOutsideWith (place P sign)) (place P sign)
        | some header :: _, some access => addTarget access header
        | _, _ => pure ()) := by
    rcases targets with _ | ⟨_ | header, outer⟩
    · exact (inferInstance : Inline P (fail (.memberOutsideWith sign) sign)
        (fail (.memberOutsideWith (place P sign)) (place P sign)))
    · exact (inferInstance : Inline P (pure ()) (pure ()))
    · cases access with
      | none => exact (inferInstance : Inline P (pure ()) (pure ()))
      | some access => exact (inferInstance : Inline P (addTarget access header)
          (addTarget (P.relocation.tree access) (P.relocation.tree header)))
  have hcomposed (targets : List (Option Tree)) : Composed false
      (match targets, access with
        | [], _ => fail (.memberOutsideWith sign) sign
        | some header :: _, some access => addTarget access header
        | _, _ => pure ()) := by
    split <;> infer_instance
  unfold referToHeader
  infer_instance

instance : Inline P leadingAccess leadingAccess := by unfold leadingAccess; infer_instance

instance : Inline P typeName typeName := by unfold typeName; infer_instance

instance : Inline P optionalParameterName optionalParameterName := by
  unfold optionalParameterName
  infer_instance

end

/-! ## Within an expression -/

section

variable {P : Placement} {x y : Nat → Production (Option Tree)} [∀ power, Composed false (x power)]
  [∀ power, Composed false (y power)] [∀ power, Inline P (x power) (y power)]

instance : Inline P (argumentWith x) (argumentWith y) := by
  unfold argumentWith
  infer_instance

instance (u : Unit) : Inline P (argumentPass x u) (argumentPass y u) := by
  unfold argumentPass
  infer_instance

instance : Inline P (argumentListWith x) (argumentListWith y) := by
  unfold argumentListWith
  infer_instance

instance (cp : Checkpoint) (spacedCall : Bool) (base : Option Tree) :
    Inline P (suffixPass x cp spacedCall base)
      (suffixPass y (place P cp) spacedCall (place P base)) := by
  unfold suffixPass
  infer_instance

instance (cp : Checkpoint) (spacedCall : Bool) (base : Option Tree) :
    Inline P (suffixesWith x cp spacedCall base)
      (suffixesWith y (place P cp) spacedCall (place P base)) := by
  unfold suffixesWith
  infer_instance

instance (wanted : Wanted) (spacedCall : Bool) :
    Inline P (designatorWith x wanted spacedCall) (designatorWith y wanted spacedCall) := by
  unfold designatorWith
  infer_instance

instance : Inline P (variableWith x) (variableWith y) := by unfold variableWith; infer_instance

instance : Inline P (calleeWith x) (calleeWith y) := by unfold calleeWith; infer_instance

instance : Inline P (parenthesizedWith x) (parenthesizedWith y) := by
  unfold parenthesizedWith
  infer_instance

instance : Inline P (primaryWith x) (primaryWith y) := by
  unfold primaryWith
  refine .bind (fun t => ?_) fun t => ?_
  · split
    · infer_instance
    · split <;> infer_instance
  · have hkind : (place P t).kind = t.kind := rfl
    rw [hkind]
    split
    · infer_instance
    · split <;> infer_instance

instance : Inline P (typeOfWith x) (typeOfWith y) := by unfold typeOfWith; infer_instance

instance (cp : Checkpoint) (primary : Option Tree) :
    Inline P (operandSuffixes x cp primary) (operandSuffixes y (place P cp) (place P primary)) := by
  cases primary with
  | none => exact (inferInstance : Inline P (pure (none : Option Tree)) (pure none))
  | some primary =>
    exact (inferInstance : Inline P (suffixesWith x cp true (some primary))
      (suffixesWith y (place P cp) true (place P (some primary))))

/-- A relocated token is of the same kind. -/
theorem place_kind (kind : Kind) : place P kind = kind := rfl

instance : Inline P (unaryWith x) (unaryWith y) := by
  unfold unaryWith
  refine .bind (fun _ => .bind inferInstance fun kind => ?_) fun _ =>
    .bind (fun kind => ?_) fun kind => ?_
  · split
    · infer_instance
    · split <;> infer_instance
  · split
    · infer_instance
    · split <;> infer_instance
  · rw [place_kind]
    split
    · infer_instance
    · split <;> infer_instance

instance (cp : Checkpoint) (power : Nat) (left : Option Tree) :
    Inline P (operatorPass x cp power left) (operatorPass y (place P cp) power (place P left)) := by
  unfold operatorPass
  refine .bind (fun kind => ?_) fun kind => ?_
  · split <;> infer_instance
  · rw [place_kind]
    split <;> infer_instance

instance (power : Nat) : Inline P (binaryWith x power) (binaryWith y power) := by
  unfold binaryWith
  infer_instance

end

section

variable {P : Placement}

instance (depth power : Nat) : Inline P (binaryUpTo depth power) (binaryUpTo depth power) := by
  induction depth generalizing power with
  | zero => unfold binaryUpTo; infer_instance
  | succ depth ih => unfold binaryUpTo; infer_instance

/-- Both readings have a depth in common that suffices. -/
instance (power : Nat) : Inline P (expressionAbove power) (expressionAbove power) where
  agrees s hs hline := by
    obtain ⟨d, hd, hd'⟩ : ∃ d, s.stream.remaining < d ∧ (P.state s).stream.remaining < d :=
      ⟨max s.stream.remaining (P.state s).stream.remaining + 1, by omega, by omega⟩
    have hdepth : Inline P (binaryUpTo d power) (binaryUpTo d power) := inferInstance
    refine hdepth.congr hs hline ?_ ?_
    · unfold expressionAbove
      rw [run_look_bind]
      exact (binaryUpTo_agree (Nat.lt_succ_self _) hd power).run_eq s (.inr (Nat.le_refl _))
    · unfold expressionAbove
      rw [run_look_bind]
      exact (binaryUpTo_agree (Nat.lt_succ_self _) hd' power).run_eq _ (.inr (Nat.le_refl _))

instance : Inline P expression expression := by unfold expression; infer_instance

instance : Inline P operand operand := by unfold operand; infer_instance

instance : Inline P variable_ variable_ := by unfold variable_; infer_instance

instance : Inline P callee callee := by unfold callee; infer_instance

instance : Inline P argumentList argumentList := by unfold argumentList; infer_instance

instance (u : Unit) : Inline P (commandArgumentPass u) (commandArgumentPass u) := by
  unfold commandArgumentPass
  infer_instance

instance : Inline P commandArguments commandArguments := by unfold commandArguments; infer_instance

/-! ## Declarations -/

instance : Inline P shiftModifiers shiftModifiers := by unfold shiftModifiers; infer_instance

instance (item : Production Unit) [Composed false item] [Inline P item item] (u : Unit) :
    Inline P (groupPass item u) (groupPass item u) := by
  unfold groupPass
  infer_instance

instance (k : NodeKind) (item : Production Unit) [Composed false item] [Inline P item item] :
    Inline P (group k item) (group k item) := by
  unfold group
  infer_instance

instance : Inline P arrayBound arrayBound := by unfold arrayBound; infer_instance

instance : Inline P arrayBounds arrayBounds := by unfold arrayBounds; infer_instance

instance : Inline P asClause asClause := by unfold asClause; infer_instance

instance : Inline P optionalAsClause optionalAsClause := by unfold optionalAsClause; infer_instance

instance : Inline P optionalArrayBounds optionalArrayBounds := by
  unfold optionalArrayBounds
  infer_instance

instance (value : Production Unit) [Composed false value] [Inline P value value] :
    Inline P (declaration value) (declaration value) := by
  unfold declaration
  infer_instance

instance : Inline P variableDeclaration variableDeclaration := by
  unfold variableDeclaration
  infer_instance

instance : Inline P constantDeclaration constantDeclaration := by
  unfold constantDeclaration
  infer_instance

instance : Inline P parameter parameter := by unfold parameter; infer_instance

instance : Inline P optionalParameterList optionalParameterList := by
  unfold optionalParameterList
  infer_instance

instance : Inline P externalSignature externalSignature := by
  unfold externalSignature
  infer_instance

/-! ## Parts of statements -/

instance : Inline P label label := by unfold label; infer_instance

instance : Inline P exitTarget exitTarget := by unfold exitTarget; infer_instance

instance : Inline P accessor accessor := by unfold accessor; infer_instance

instance : Inline P signature signature := by unfold signature; infer_instance

instance : Inline P ifHeader ifHeader := by unfold ifHeader; infer_instance

instance : Inline P forEachHeader forEachHeader := by unfold forEachHeader; infer_instance

instance : Inline P forHeader forHeader := by unfold forHeader; infer_instance

instance : Inline P openLoops openLoops := by unfold openLoops; infer_instance

instance (closed : Nat) : Inline P (nextVariablePass closed) (nextVariablePass closed) := by
  unfold nextVariablePass
  infer_instance

instance : Inline P optionalLoopCondition optionalLoopCondition := by
  unfold optionalLoopCondition
  infer_instance

instance : Inline P comparison comparison := by unfold comparison; infer_instance

instance : Inline P comparisonTest comparisonTest := by unfold comparisonTest; infer_instance

instance : Inline P valueTest valueTest := by unfold valueTest; infer_instance

instance : Inline P caseTest caseTest := by unfold caseTest; infer_instance

end

end LosslessBasic.Grammar
