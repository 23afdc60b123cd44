import LosslessBasic.Proofs.Grammar.Forest
import LosslessBasic.Proofs.Grammar.Line
import LosslessBasic.Proofs.Tree.Access

/-!
# What operands add to the row

An expression that starts at the cursor gives the one node that it adds to the row (`Gives`), and
nothing where it finds none to make. What goes on an operand, be it a member, arguments or an
operator, puts a node around it and around nothing else that was there before.
-/

namespace LosslessBasic

/-- The kinds of the nodes that expressions are read to, but for tokens without meaning. -/
@[reducible]
def NodeKind.isKnown : NodeKind → Bool
  | .unknown | .statementList => false
  | _ => true

theorem Tree.isToken_of_isOperand {n : Tree} (h : n.isOperand = true) : n.isToken = false := by
  cases n with
  | leaf t => cases h
  | node k a cs => rfl

theorem Tree.isOperand_above {k : NodeKind} (h : k.isKnown = true) (a : Anchor) (ts : List Tree) :
    (Tree.above (.node k) a ts).isOperand = true := by
  cases ts <;> cases k <;> first | rfl | cases h

namespace Grammar

set_option synthInstance.maxSize 65536

variable {L : Law}

/-- The result of a production that was run from `s` is the one node that it has added. -/
def Law.Reads (L : Law) (s : State) (r : Option Tree × State) : Prop :=
  ∃ n : Tree, r.1 = some n ∧ n.isOperand = true ∧ L.Holds s [n] r.2

/-- The result of a production that was run from `s` is the one node that it has added, or it gives
and adds nothing. It does give a node where a token is at the cursor that was reported when it was
read. -/
def Law.Finds (L : Law) (s : State) (r : Option Tree × State) : Prop :=
  L.Reads s r ∨
    (r.1 = none ∧ L.Holds s [] r.2 ∧ s.stream.current.kind.isLexicalError = false)

/-- Away from blanks, a production adds the node that it gives, or nothing. -/
class Gives (L : Law) (p : Production (Option Tree)) : Prop where
  holds (s : State) : s.InnermostInRow → s.stream.current.kind.isInlineTrivia = false →
    L.Finds s (p.run s)

/-- An access that starts with its sign adds the node that it gives. -/
class Refers (L : Law) : Prop where
  holds (s : State) : s.InnermostInRow →
    Lookahead.isAccessSign s.stream.current.kind = true → L.Reads s (leadingAccess.run s)

/-! ## Blanks -/

instance : Obeys L skipBlanks := by unfold skipBlanks; infer_instance

/-- Behind blanks there are none. -/
theorem isInlineTrivia_skipBlanks (s : State) :
    (skipBlanks.run s).2.stream.current.kind.isInlineTrivia = false := by
  have hsolid := s.stream.isSolid_peekSignificant 0
  rw [current_skipBlanks]
  simpa [TokenStream.isSolid] using hsolid

/-- Skipping blanks first makes no difference to what skips them itself. -/
theorem run_skipBlanks_bind {α : Type} (f : Unit → Production α) (s : State) :
    (skipBlanks >>= f).run (skipBlanks.run s).2 = (skipBlanks >>= f).run s := by
  rw [run_bind, run_skipBlanks_of_significant (isInlineTrivia_skipBlanks s)]
  rfl

/-- What gives a node away from blanks obeys the law where it skips them. -/
theorem Obeys.of_gives {f : Unit → Production (Option Tree)} (h : Gives L (skipBlanks >>= f)) :
    Obeys L (skipBlanks >>= f) where
  holds s hs := by
    have hskip : Obeys L skipBlanks := inferInstance
    obtain ⟨blanks, hblanks⟩ := hskip.holds s hs
    rcases h.holds _ (hblanks.1.innermostInRow hs) (isInlineTrivia_skipBlanks s) with
      ⟨n, -, -, hgives⟩ | ⟨-, hgives, -⟩
    all_goals
      rw [run_skipBlanks_bind] at hgives
      exact ⟨_, hblanks.trans hgives⟩

/-! ## Nodes -/

/-- The node of an access has a meaning, whichever sign the access starts with. -/
theorem isKnown_accessKind (sign : Kind) : (accessKind sign).isKnown = true := by
  unfold accessKind
  split <;> rfl

/-- An access without an object is a node that refers to the header around it once it is read. -/
theorem run_leadingAccess {s : State} {r : Option Tree × State}
    (h : (composite (accessKind s.stream.current.kind) (do shift; memberName)).run s = r) :
    leadingAccess.run s = (r.1, ((referToHeader s.stream.current r.1).run r.2).2) := by
  unfold leadingAccess current
  rw [run_look_bind, run_bind, h, run_bind, run_pure]

/-- A production gives the node that it puts around what it adds. -/
theorem reads_composite {k : NodeKind} {p : Production Unit} [hk : IsTrue k.isOrdinary]
    [hknown : IsTrue k.isKnown] [hp : Obeys L p] {s : State} (hs : s.InnermostInRow) :
    L.Reads s ((composite k p).run s) := by
  obtain ⟨trees, h⟩ := hp.holds (s.opening k) (State.innermostInRow_opening s k)
  have hgiven := (State.Adds.closing_opening hs h.1).2
  exact ⟨_, hgiven, Tree.isOperand_above hknown.eq_true _ _,
    h.closing_opening hs fun a => L.node k a hk.eq_true⟩

instance {k : NodeKind} {p : Production Unit} [hk : IsTrue k.isOrdinary] [hknown : IsTrue k.isKnown]
    [hp : Obeys L p] : Gives L (composite k p) where
  holds _ hs _ := .inl (reads_composite hs)

/-- A token that was reported when it was read stands for an operand. -/
theorem reads_lexicalError {s : State} (hs : s.InnermostInRow)
    (herror : s.stream.current.kind.isLexicalError = true) :
    L.Reads s ((composite .unknown shift).run s) := by
  have hend : ¬ (s.opening .unknown).AtEnd := by
    intro hend
    change s.stream.current.kind = _ at hend
    rw [hend] at herror
    cases herror
  have hshift :
      L.Holds (s.opening .unknown) [.leaf s.stream.current] (s.opening .unknown).shifted :=
    ⟨.shifted hend, L.shift hend⟩
  have hgiven := (State.Adds.closing_opening hs hshift.1).2
  rw [run_composite, run_shift hend, hgiven]
  exact ⟨_, rfl, herror,
    hshift.closing_opening hs fun a => L.node .unknown a rfl⟩

/-! ## Tokens and failures -/

instance : Obeys L current := by unfold current; infer_instance

instance : Obeys L currentKind := by unfold currentKind; infer_instance

instance : Obeys L next := by unfold next; infer_instance

instance : Obeys L nextKind := by unfold nextKind; infer_instance

instance : Obeys L secondKind := by unfold secondKind; infer_instance

instance : Obeys L shiftNext := by unfold shiftNext; infer_instance

instance (k : Kind) : Obeys L (atCurrent k) := by unfold atCurrent; infer_instance

instance (k : Kind) : Obeys L (atNext k) := by unfold atNext; infer_instance

instance (k : Kind) : Obeys L (accept k) := by unfold accept; infer_instance

instance (problem : Problem) (t : Token) [IsTrue problem.isOrdinary] :
    Obeys L (fail problem t) := by
  unfold fail
  dsimp only
  infer_instance

instance (wanted : Wanted) : Obeys L (failExpected wanted) := by unfold failExpected; infer_instance

instance (k : Kind) : Obeys L (expect k) := by unfold expect; infer_instance

instance : Obeys L atStatementEnd := by unfold atStatementEnd; infer_instance

instance : Obeys L withinStatement := by unfold withinStatement; infer_instance

instance : Obeys L shiftRest := by unfold shiftRest; infer_instance

instance : Obeys L recover := by unfold recover; infer_instance

instance : Obeys L shiftLineBreak := by unfold shiftLineBreak; infer_instance

instance : Obeys L finishStatement := by unfold finishStatement; dsimp only; infer_instance

instance (item : Production Unit) [Obeys L item] : Obeys L (commaList item) := by
  unfold commaList
  infer_instance

theorem holds_setRecovering (recovering : Bool) (s : State) :
    L.Holds s [] ((setRecovering recovering).run s).2 :=
  ⟨.of_silent rfl rfl rfl rfl rfl, L.silent rfl rfl rfl rfl rfl rfl rfl⟩

/-- A failure adds nothing. -/
theorem holds_fail {problem : Problem} (h : problem.isOrdinary = true) (t : Token) (s : State) :
    L.Holds s [] ((fail problem t).run s).2 := by
  unfold fail
  dsimp only
  rw [run_bind, run_get]
  split
  · exact holds_setRecovering true s
  · have hreport : L.Holds s [] ((report problem t).run s).2 :=
      ⟨.of_silent rfl rfl rfl rfl rfl, L.report s problem t h⟩
    exact hreport.trans (holds_setRecovering true _)

/-! ## Names and members -/

instance : Obeys L nameExpression := by unfold nameExpression; infer_instance

instance (wanted : Wanted) : Obeys L (expectName wanted) := by unfold expectName; infer_instance

instance (wanted : Wanted) : Obeys L (hasName wanted) := by unfold hasName; infer_instance

instance : Obeys L memberName := by unfold memberName; infer_instance

instance : Obeys L atQualifier := by unfold atQualifier; infer_instance

instance : Obeys L typeName := by unfold typeName; infer_instance

/-! ## What goes on an operand -/

section

variable {operand : Nat → Production (Option Tree)} [∀ power, Obeys L (operand power)]

instance : Obeys L atNamedArgument := by unfold atNamedArgument; infer_instance

instance : Obeys L optionalParameterName := by unfold optionalParameterName; infer_instance

instance : Obeys L (argumentWith operand) := by unfold argumentWith; infer_instance

instance (u : Unit) : Obeys L (argumentPass operand u) := by unfold argumentPass; infer_instance

instance : Obeys L (argumentListWith operand) := by unfold argumentListWith; infer_instance

variable (operand) in
/-- A node that was added since a checkpoint is still the only one when a step has been made through
what goes on it. -/
theorem holds_suffixPass {s t : State} {n : Tree} (hs : s.InnermostInRow) (hn : n.isOperand = true)
    (h : L.Holds s [n] t) (spacedCall : Bool) :
    let r := (suffixPass operand s.builder.checkpoint spacedCall (some n)).run t
    ∃ n' : Tree, n'.isOperand = true ∧ L.Holds s [n'] r.2 ∧
      (r.1 = .again (some n') ∨ r.1 = .done (some n')) := by
  have hmember : Obeys L (do shift; memberName) := inferInstance
  have harguments : Obeys L (do skipBlanks; argumentListWith operand) := inferInstance
  unfold suffixPass atMemberAccess atArguments
  dsimp only
  rw [run_look_bind]
  split
  · rw [run_bind, run_currentKind, run_bind]
    obtain ⟨a, more, hgiven, hholds⟩ := h.compositeFrom (k := accessKind t.stream.current.kind) hs
      (p := do shift; memberName) fun _ _ a => L.access _ a (Tree.isToken_of_isOperand hn)
    rw [hgiven]
    exact ⟨_, Tree.isOperand_above (isKnown_accessKind _) _ _, hholds, .inl rfl⟩
  · rw [run_look_bind]
    split
    · rw [run_bind]
      obtain ⟨a, more, hgiven, hholds⟩ := h.compositeFrom (k := .callExpression) hs
        (p := do skipBlanks; argumentListWith operand) fun _ _ a => L.node _ a rfl
      rw [hgiven]
      exact ⟨_, Tree.isOperand_above rfl _ _, hholds, .inl rfl⟩
    · exact ⟨n, hn, h, .inr rfl⟩

variable (operand) in
/-- Members and arguments that go on a node leave one node. -/
theorem reads_suffixesWith {s : State} {r : Option Tree × State} (hs : s.InnermostInRow)
    (h : L.Reads s r) (spacedCall : Bool) :
    L.Reads s ((suffixesWith operand s.builder.checkpoint spacedCall r.1).run r.2) := by
  have hloop (k : Nat) : ∀ (t : State) (n : Tree), n.isOperand = true → L.Holds s [n] t →
      L.Reads s ((iterateUpTo id (suffixPass operand s.builder.checkpoint spacedCall) k
        (some n)).run t) := by
    induction k with
    | zero => exact fun t n hn h => ⟨n, rfl, hn, h⟩
    | succ k ih =>
      intro t n hn h
      obtain ⟨n', hn', h', hpass | hpass⟩ := holds_suffixPass operand hs hn h spacedCall
      · unfold iterateUpTo
        rw [run_bind, hpass]
        exact ih _ n' hn' h'
      · unfold iterateUpTo
        rw [run_bind, hpass]
        exact ⟨n', rfl, hn', h'⟩
  obtain ⟨n, hgiven, hn, hholds⟩ := h
  rw [hgiven]
  exact hloop _ r.2 n hn hholds

/-- Behind an operand, its members and arguments. -/
theorem holds_operandSuffixes {s : State} {r : Option Tree × State} (hs : s.InnermostInRow)
    (h : L.Finds s r) :
    L.Finds s ((operandSuffixes operand s.builder.checkpoint r.1).run r.2) := by
  rcases h with ⟨n, hgiven, hn, h⟩ | ⟨hgiven, h, herror⟩
  · rw [hgiven]
    have hread := reads_suffixesWith operand hs (r := (some n, r.2)) ⟨n, rfl, hn, h⟩ true
    exact .inl hread
  · rw [hgiven]
    exact .inr ⟨rfl, h, herror⟩

variable (operand) in
/-- What was read since a checkpoint is, with an operator behind it, one node. -/
theorem holds_operatorPass {s t : State} {left : Option Tree} (hs : s.InnermostInRow)
    (h : L.Finds s (left, t)) (power : Nat) :
    let r := (operatorPass operand s.builder.checkpoint power left).run t
    (∃ left', r.1 = .again left' ∧ L.Reads s (left', r.2)) ∨ (r.1 = .done left ∧ r.2 = t) := by
  have hholds : ∃ trees, L.Holds s trees t := by
    rcases h with ⟨n, -, -, h⟩ | ⟨-, h, -⟩
    · exact ⟨_, h⟩
    · exact ⟨_, h⟩
  obtain ⟨trees, hholds⟩ := hholds
  unfold operatorPass nextKind
  rw [run_look_bind]
  split
  next => exact .inr ⟨rfl, rfl⟩
  next binding _ =>
    split
    next => exact .inr ⟨rfl, rfl⟩
    next =>
      have hoperand : Obeys L (do
          shiftNext
          operand (binding + 1)) := inferInstance
      obtain ⟨more, hmore⟩ := hoperand.holds t (hholds.1.innermostInRow hs)
      have hbefore := hholds.trans hmore
      obtain ⟨a, more', hgiven, hholds'⟩ := hbefore.compositeFrom (k := .binaryExpression)
        (p := pure ()) hs fun _ _ a => L.node _ a rfl
      rw [run_bind] at hgiven hholds'
      refine .inl ⟨_, rfl, _, hgiven, Tree.isOperand_above rfl _ _, hholds'⟩

variable [hrefers : Refers L]

variable (operand) in
/-- A name or leading access adds the node that it is read to; anything else is reported. -/
theorem holds_designator (wanted : Wanted) (spacedCall : Bool) {s : State} (hs : s.InnermostInRow) :
    ∃ node? : Option Tree, (∀ n ∈ node?, n.isOperand = true) ∧
      L.Holds s node?.toList ((checkpoint >>= fun cp => currentKind >>= fun kind =>
        if Lookahead.isAccessSign kind then
          leadingAccess >>= fun access => suffixesWith operand cp spacedCall access
        else if kind.isNameLike then
          nameExpression >>= fun name => suffixesWith operand cp spacedCall name
        else do
          failExpected wanted
          return none : Production (Option Tree)).run s).2 := by
  rw [run_bind, run_checkpoint, run_bind, run_currentKind]
  split
  next hsign =>
    obtain ⟨n, -, hn, h⟩ := reads_suffixesWith operand hs (hrefers.holds s hs hsign) spacedCall
    exact ⟨some n, by simpa using hn, h⟩
  next =>
    split
    next =>
      have hname : L.Reads s (nameExpression.run s) := reads_composite hs
      obtain ⟨n, -, hn, h⟩ := reads_suffixesWith operand hs hname spacedCall
      exact ⟨some n, by simpa using hn, h⟩
    next => exact ⟨none, nofun, holds_fail rfl _ s⟩

instance (wanted : Wanted) (spacedCall : Bool) :
    Obeys L (designatorWith operand wanted spacedCall) := by
  have hdesignator : Obeys L (checkpoint >>= fun cp => currentKind >>= fun kind =>
      if Lookahead.isAccessSign kind then
        leadingAccess >>= fun access => suffixesWith operand cp spacedCall access
      else if kind.isNameLike then
        nameExpression >>= fun name => suffixesWith operand cp spacedCall name
      else do
        failExpected wanted
        return none) := by
    refine ⟨fun s hs => ?_⟩
    obtain ⟨node?, -, h⟩ := holds_designator (L := L) operand wanted spacedCall hs
    exact ⟨_, h⟩
  unfold designatorWith
  infer_instance

instance : Obeys L (variableWith operand) := by unfold variableWith; infer_instance

instance : Obeys L (calleeWith operand) := by unfold calleeWith; infer_instance

/-! ## Operands -/

instance : Gives L (parenthesizedWith operand) := by unfold parenthesizedWith; infer_instance

theorem isOrdinary_of_literalKind? {k : Kind} {literal : NodeKind}
    (h : literalKind? k = some literal) :
    literal.isOrdinary = true ∧ literal.isKnown = true := by
  unfold literalKind? at h
  split at h
  case h_8 =>
    split at h
    · cases h
      exact ⟨rfl, rfl⟩
    · cases h
  all_goals cases h
  all_goals exact ⟨rfl, rfl⟩

instance : Gives L (primaryWith operand) where
  holds s hs hsolid := by
    -- a token that was reported when it was read is not reported again
    have herror (hkind : s.stream.current.kind.isLexicalError = true) : L.Reads s
        ((setRecovering true >>= fun _ => composite .unknown shift).run s) := by
      obtain ⟨n, hgiven, hn, h⟩ :=
        reads_lexicalError (L := L) (s := ((setRecovering true).run s).2) hs hkind
      exact ⟨n, hgiven, hn, (holds_setRecovering true s).trans h⟩
    unfold primaryWith current
    rw [run_look_bind]
    split
    next literal hliteral =>
      obtain ⟨hordinary, hknown⟩ := isOrdinary_of_literalKind? hliteral
      have : IsTrue literal.isOrdinary := ⟨hordinary⟩
      have : IsTrue literal.isKnown := ⟨hknown⟩
      exact .inl (reads_composite hs)
    next =>
      split
      next =>
        have hparenthesized : Gives L (parenthesizedWith operand) := inferInstance
        exact hparenthesized.holds s hs hsolid
      next hkind => exact .inl (hrefers.holds s hs (by rw [hkind]; rfl))
      next hkind => exact .inl (hrefers.holds s hs (by rw [hkind]; rfl))
      next hkind => exact .inl (herror (by rw [hkind]; rfl))
      next hkind => exact .inl (herror (by rw [hkind]; rfl))
      next hstring hunknown =>
        split
        next => exact .inl (reads_composite hs)
        next =>
          refine .inr ⟨rfl, holds_fail rfl _ s, ?_⟩
          cases hkind : s.stream.current.kind with
          | lexeme l => cases l <;> first | rfl | exact absurd hkind ‹_›
          | _ => rfl

instance : Gives L (typeOfWith operand) := by unfold typeOfWith; infer_instance

instance : Gives L (unaryWith operand) where
  holds s hs hsolid := by
    unfold unaryWith
    rw [run_bind, run_skipBlanks_of_significant hsolid]
    dsimp only
    rw [run_bind, run_currentKind]
    split
    next power _ =>
      have hunary : Gives L (composite .unaryExpression do
          shift
          let _ ← operand power) := inferInstance
      exact hunary.holds s hs hsolid
    next =>
      split
      next =>
        have haddress : Gives L (composite .addressOfExpression do
            shift
            let _ ← calleeWith operand) := inferInstance
        exact haddress.holds s hs hsolid
      next =>
        have hnew : Gives L (composite .newExpression do
            shift
            skipBlanks
            let _ ← typeName) := inferInstance
        exact hnew.holds s hs hsolid
      next =>
        have htype : Gives L (typeOfWith operand) := inferInstance
        exact htype.holds s hs hsolid
      next =>
        have hprimary : Gives L (primaryWith operand) := inferInstance
        rw [run_bind, run_checkpoint, run_bind]
        exact holds_operandSuffixes hs (hprimary.holds s hs hsolid)

/-! ## Operators -/

instance (power : Nat) : Gives L (binaryWith operand power) where
  holds s hs hsolid := by
    have hloop (k : Nat) : ∀ (t : State) (left : Option Tree), L.Finds s (left, t) →
        L.Finds s
          ((iterateUpTo id (operatorPass operand s.builder.checkpoint power) k left).run t) := by
      induction k with
      | zero => exact fun t left h => h
      | succ k ih =>
        intro t left h
        unfold iterateUpTo
        rw [run_bind]
        rcases holds_operatorPass operand hs h power with ⟨left', hpass, h'⟩ | ⟨hpass, hstate⟩
        · rw [hpass]
          exact ih _ left' (.inl h')
        · rw [hpass, hstate]
          exact h
    have hunary : Gives L (unaryWith operand) := inferInstance
    unfold binaryWith
    rw [run_bind, run_skipBlanks_of_significant hsolid]
    dsimp only
    rw [run_bind, run_checkpoint, run_bind]
    exact hloop _ _ _ (hunary.holds s hs hsolid)

instance (power : Nat) : Obeys L (binaryWith operand power) :=
  .of_gives (inferInstance : Gives L (binaryWith operand power))

end

/-! ## Expressions in statements -/

section

variable [hrefers : Refers L]

instance (depth power : Nat) : Obeys L (binaryUpTo depth power) := by
  induction depth generalizing power with
  | zero => unfold binaryUpTo; infer_instance
  | succ depth ih => unfold binaryUpTo; infer_instance

instance (power : Nat) : Obeys L (expressionAbove power) := by
  unfold expressionAbove
  infer_instance

instance : Obeys L expression := by unfold expression; infer_instance

instance : Obeys L operand := by unfold operand; infer_instance

instance : Obeys L variable_ := by unfold variable_; infer_instance

instance : Obeys L callee := by unfold callee; infer_instance

instance : Obeys L argumentList := by unfold argumentList; infer_instance

instance : Obeys L atArgumentSign := by unfold atArgumentSign; infer_instance

instance (u : Unit) : Obeys L (commandArgumentPass u) := by
  unfold commandArgumentPass
  infer_instance

instance : Obeys L commandArguments := by unfold commandArguments; infer_instance

end

end Grammar

end LosslessBasic
