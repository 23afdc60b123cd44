import LosslessBasic.Proofs.Grammar.Depth
import LosslessBasic.Proofs.Grammar.Operation

/-!
# Expressions are read by the binding powers

Reading the tokens of an operation that is bound as the powers ask gives the tree of this operation
(`run_binaryUpTo_operation`). What is read depends on the tokens alone, so no two bound operations
with the same tokens have different trees.

The induction is on the operation. The reading of a left operand goes on with the operators behind
it, so the induction speaks of the loop over the operators: the loop that has read `e.tokens` from
their beginning is in the same place as one that starts behind them with `e.tree` as its left
operand.
-/

namespace LosslessBasic.Grammar

namespace Operation

/-- Whether an operation ends before an operator of a power and leaves it to what is around. -/
def YieldsTo (q : Nat) : Operation → Prop
  | operand _ _ => True
  | prefixed _ power _ _ inner => q < power ∧ inner.YieldsTo q
  | joined _ _ _ power _ _ right => q ≤ power ∧ right.YieldsTo q

/-- The left operand of an operator ends before it. -/
theorem Bound.yieldsTo {e : Operation} (he : e.Bound) {q : Nat} (hpower : ∀ p ∈ e.power?, q ≤ p)
    (hedge : ∀ p ∈ e.edgePowers, q < p) : e.YieldsTo q := by
  induction e with
  | operand => trivial
  | prefixed op power h after inner ih =>
    have hq : q < power := hedge power (List.mem_cons_self ..)
    refine ⟨hq, ih he.1 (fun p hp => ?_) fun p hp => hedge p (List.mem_cons_of_mem _ hp)⟩
    exact Nat.le_of_lt (Nat.lt_of_lt_of_le hq (he.2 p hp))
  | joined left before op power h after right _ ih =>
    have hq : q ≤ power := hpower power rfl
    refine ⟨hq, ih he.2.1 (fun p hp => ?_) hedge⟩
    exact Nat.le_of_lt (Nat.lt_of_le_of_lt hq (he.2.2.1 p hp))

/-- The first token of an operation is no inline trivia. -/
theorem exists_tokens_eq_cons (e : Operation) :
    ∃ t rest, e.tokens = t :: rest ∧ t.kind.isInlineTrivia = false := by
  induction e with
  | operand t h =>
    refine ⟨t, [], rfl, ?_⟩
    revert h
    cases t.kind <;> simp [isOperand, literalKind?, Kind.isNameLike, Kind.isInlineTrivia]
  | prefixed op power h after inner =>
    refine ⟨op, _, rfl, ?_⟩
    revert h
    cases op.kind <;> simp [Operator.unaryPower?, Kind.isInlineTrivia]
  | joined left before op power h after right ih =>
    obtain ⟨t, rest, htokens, ht⟩ := ih
    exact ⟨t, _, by rw [tokens, htokens, List.cons_append], ht⟩

end Operation

/-- Whether an operand ends before a token of a kind. -/
structure EndsOperand (k : Kind) : Prop where
  solid : k.isInlineTrivia = false
  noMember : Lookahead.isAccessSign k = false
  noArguments : k ≠ .lexeme .leftParen

theorem EndsOperand.of_binaryPower? {k : Kind} {p : Nat} (h : Operator.binaryPower? k = some p) :
    EndsOperand k := by
  constructor
  · revert h
    cases k <;> simp [Operator.binaryPower?, Kind.isInlineTrivia]
  · unfold Lookahead.isAccessSign
    split <;> first | rfl | cases h
  · rintro rfl
    cases h

/-! ## Operands -/

section

variable {operand : Nat → Production (Option Tree)} {s : State} {t : Token} {rest : List Token}

/-- Nothing goes on an operand that ends. -/
theorem run_suffixesWith_of_endsOperand {blanks : Blanks} (ht : EndsOperand t.kind)
    (hrest : s.stream.rest = blanks.tokens ++ t :: rest) (cp : Checkpoint) (spacedCall : Bool)
    (base : Option Tree) :
    (suffixesWith operand cp spacedCall base).run s = (base, s) := by
  have hnext : s.stream.peekSignificant 0 = t :=
    TokenStream.peekSignificant_zero_of_rest blanks.inline ht.solid hrest
  -- at the cursor stands a blank or the token that ends the operand
  have hcurrent : Lookahead.isAccessSign s.stream.current.kind = false ∧
      s.stream.current.kind ≠ .lexeme .leftParen := by
    obtain ⟨tokens, hinline⟩ := blanks
    cases tokens with
    | nil =>
      rw [TokenStream.current_of_rest hrest]
      exact ⟨ht.noMember, ht.noArguments⟩
    | cons u tokens =>
      have hu : u.kind.isInlineTrivia = true := hinline u (List.mem_cons_self ..)
      rw [TokenStream.current_of_rest hrest]
      revert hu
      cases u.kind <;> simp [Kind.isInlineTrivia, Lookahead.isAccessSign]
  have hmember : atMemberAccess.run s = (false, s) := by
    simp [atMemberAccess, run_look, hcurrent.1]
  have harguments : (atArguments spacedCall).run s = (false, s) := by
    rw [atArguments, run_look, hnext, beq_false_of_ne hcurrent.2, beq_false_of_ne ht.noArguments,
      Bool.and_false, Bool.false_or]
  have hpass : (suffixPass operand cp spacedCall base).run s = (.done base, s) := by
    unfold suffixPass
    rw [run_bind, hmember]
    dsimp only
    rw [if_neg Bool.false_ne_true, run_bind, harguments]
    rfl
  unfold suffixesWith
  rw [run_iterate_of_done (by rw [hpass]), hpass]

theorem unaryPower?_of_isOperand {k : Kind} (h : isOperand k = true) :
    Operator.unaryPower? k = none := by
  unfold Operator.unaryPower?
  split <;> first | rfl | exact absurd h (by decide)

/-- An operand is a literal or a name, and no other alternative of a primary expression starts with
one. -/
theorem run_primaryWith_of_isOperand (ht : isOperand s.stream.current.kind = true) :
    (primaryWith operand).run s = (composite (operandNode s.stream.current.kind) shift).run s := by
  unfold primaryWith current operandNode
  rw [run_look_bind]
  cases hliteral : literalKind? s.stream.current.kind with
  | some literal => rfl
  | none =>
    have hname : s.stream.current.kind.isNameLike = true := by simpa [isOperand, hliteral] using ht
    dsimp only
    split
    case h_6 =>
      rw [if_pos hname]
      rfl
    all_goals
      next hkind =>
        rw [hkind] at hname
        cases hname

/-- An operand is read as a node over its token. -/
theorem run_unaryWith_operand {t u : Token} {blanks : Blanks} (ht : isOperand t.kind = true)
    (hu : EndsOperand u.kind) (hrest : s.stream.rest = t :: (blanks.tokens ++ u :: rest)) :
    (unaryWith operand).run s =
      (some (Operation.operand t ht).tree, s.past [t] [(Operation.operand t ht).tree]) := by
  have hcurrent : s.stream.current = t := TokenStream.current_of_rest hrest
  have hblank : t.kind.isInlineTrivia = false := by
    revert ht
    cases t.kind <;> simp [isOperand, literalKind?, Kind.isNameLike, Kind.isInlineTrivia]
  have hend : t.kind ≠ .lexeme .endOfFile := fun hend => by
    rw [hend] at ht
    exact absurd ht (by decide)
  have hprimary : (primaryWith operand).run s =
      (some (Operation.operand t ht).tree, s.past [t] [(Operation.operand t ht).tree]) := by
    rw [run_primaryWith_of_isOperand (by rw [hcurrent, ht]), hcurrent]
    exact run_composite_past (List.cons_ne_nil _ _) (run_shift_past (s := s.opening _) hrest hend)
  have hpast : (s.past [t] [(Operation.operand t ht).tree]).stream.rest =
      blanks.tokens ++ u :: rest :=
    State.rest_past_singleton hrest (by simp) _
  -- neither blanks nor an operator stand in front of it, and no suffix behind it
  have hskip : skipBlanks.run s = ((), s) :=
    run_skipBlanks_of_significant (by rw [hcurrent, hblank])
  unfold unaryWith currentKind
  rw [run_bind, hskip, run_look_bind, hcurrent, unaryPower?_of_isOperand ht]
  dsimp only
  split
  case h_4 =>
    rw [run_bind, run_checkpoint, run_bind, hprimary]
    unfold operandSuffixes
    exact run_suffixesWith_of_endsOperand hu hpast _ _ _
  all_goals
    next hkind =>
      rw [hkind] at ht
      exact absurd ht (by decide)

end

/-! ## Operators -/

/-- Whether the reading of an operation goes, in the loop over the operators, from its beginning to
the place behind it. -/
def Operation.IsReached (e : Operation) : Prop :=
  ∀ ⦃s : State⦄ ⦃behind : Blanks⦄ ⦃t : Token⦄ ⦃rest : List Token⦄ ⦃depth power : Nat⦄,
    s.stream.rest = e.tokens ++ (behind.tokens ++ t :: rest) → s.InnermostInRow →
    EndsOperand t.kind → (∀ q, Operator.binaryPower? t.kind = some q → e.YieldsTo q) →
    (∀ p ∈ e.power?, power ≤ p) → s.stream.remaining ≤ depth →
    (binaryUpTo (depth + 1) power).run s =
      (iterate id (operatorPass (binaryUpTo depth) s.builder.checkpoint power) (some e.tree)).run
        (s.past e.tokens [e.tree])

/-- The loop ends before an operator of a lower power, or where there is none. -/
theorem run_iterate_operatorPass_of_lt {operand : Nat → Production (Option Tree)} {s : State}
    {behind : Blanks} {t : Token} {rest : List Token} {power : Nat}
    (hrest : s.stream.rest = behind.tokens ++ t :: rest) (ht : t.kind.isInlineTrivia = false)
    (hpower : ∀ q, Operator.binaryPower? t.kind = some q → q < power) (cp : Checkpoint)
    (left : Option Tree) :
    (iterate id (operatorPass operand cp power) left).run s = (left, s) := by
  have hnext : s.stream.peekSignificant 0 = t :=
    TokenStream.peekSignificant_zero_of_rest behind.inline ht hrest
  have hpass : (operatorPass operand cp power left).run s = (.done left, s) := by
    unfold operatorPass nextKind
    rw [run_look_bind, hnext]
    cases hbinding : Operator.binaryPower? t.kind with
    | none => rfl
    | some q =>
      dsimp only
      rw [if_pos (hpower q hbinding)]
      rfl
  rw [run_iterate_of_done (by rw [hpass]), hpass]

/-- An operation is read as its tree when the operator behind it is left to what is around. -/
theorem Operation.IsReached.run_binaryUpTo {e : Operation} (he : e.IsReached) {s : State}
    {blanks behind : Blanks} {t : Token} {rest : List Token} {depth power : Nat}
    (hrest : s.stream.rest = blanks.tokens ++ (e.tokens ++ (behind.tokens ++ t :: rest)))
    (hs : s.InnermostInRow) (ht : EndsOperand t.kind)
    (hyields : ∀ q, Operator.binaryPower? t.kind = some q → e.YieldsTo q ∧ q < power)
    (hpower : ∀ p ∈ e.power?, power ≤ p) (hdepth : s.stream.remaining < depth) :
    (binaryUpTo depth power).run s =
      (some e.tree, s.past (blanks.tokens ++ e.tokens) (blanks.tokens.map .leaf ++ [e.tree])) := by
  obtain _ | depth := depth
  · omega
  obtain ⟨u, more, htokens, hu⟩ := e.exists_tokens_eq_cons
  have hskip : skipBlanks.run s = ((), s.past blanks.tokens (blanks.tokens.map .leaf)) :=
    run_skipBlanks_past blanks hu (by rw [hrest, htokens, List.cons_append])
  have hpast : (s.past blanks.tokens (blanks.tokens.map .leaf)).stream.rest =
      e.tokens ++ (behind.tokens ++ t :: rest) := State.rest_past hrest (by simp) _
  have hagain : skipBlanks.run (s.past blanks.tokens (blanks.tokens.map .leaf)) =
      ((), s.past blanks.tokens (blanks.tokens.map .leaf)) := by
    refine run_skipBlanks_of_significant ?_
    rw [htokens, List.cons_append] at hpast
    rw [TokenStream.current_of_rest hpast, hu]
  -- the blanks in front are skipped twice, and the second time there are none
  have hskipped : (binaryUpTo (depth + 1) power).run s =
      (binaryUpTo (depth + 1) power).run (s.past blanks.tokens (blanks.tokens.map .leaf)) := by
    unfold binaryUpTo binaryWith
    rw [run_bind skipBlanks s, hskip, run_bind skipBlanks (s.past _ _), hagain]
  have hremaining : (s.past blanks.tokens (blanks.tokens.map .leaf)).stream.remaining ≤ depth := by
    have hskips : Composed false skipBlanks := inferInstance
    have hle := (hskips.follows s).remaining_le
    rw [hskip] at hle
    dsimp only at hle
    omega
  rw [hskipped, he hpast (hs.past _ _) ht (fun q hq => (hyields q hq).1) hpower hremaining,
    run_iterate_operatorPass_of_lt (State.rest_past hpast (by simp) _) ht.solid
      (fun q hq => (hyields q hq).2), State.past_past]

/-- An operand with the operators in front of it is what the loop starts with. -/
theorem run_binaryUpTo_of_unaryWith {s : State} {tree : Tree} {tokens : List Token}
    {depth power : Nat} (hblank : s.stream.current.kind.isInlineTrivia = false)
    (h : (unaryWith (binaryUpTo depth)).run s = (some tree, s.past tokens [tree])) :
    (binaryUpTo (depth + 1) power).run s =
      (iterate id (operatorPass (binaryUpTo depth) s.builder.checkpoint power) (some tree)).run
        (s.past tokens [tree]) := by
  unfold binaryUpTo binaryWith
  rw [run_bind skipBlanks, run_skipBlanks_of_significant hblank, run_bind, run_checkpoint,
    run_bind, h]

/-- An operator in front is read with its operand. -/
theorem run_unaryWith_prefixed {operand : Nat → Production (Option Tree)} {s : State} {op : Token}
    {power : Nat} (h : Operator.unaryPower? op.kind = some power) {after : Blanks}
    {inner : Operation} {rest : List Token} (hrest : s.stream.rest = op :: rest)
    (hoperand : (operand power).run ((s.opening .unaryExpression).past [op] [.leaf op]) =
      (some inner.tree, ((s.opening .unaryExpression).past [op] [.leaf op]).past
        (after.tokens ++ inner.tokens) (after.tokens.map .leaf ++ [inner.tree]))) :
    (unaryWith operand).run s =
      (some (Operation.prefixed op power h after inner).tree,
        s.past (Operation.prefixed op power h after inner).tokens
          [(Operation.prefixed op power h after inner).tree]) := by
  have hcurrent : s.stream.current = op := TokenStream.current_of_rest hrest
  have hsolid : op.kind.isInlineTrivia = false ∧ op.kind ≠ .lexeme .endOfFile := by
    revert h
    cases op.kind <;> simp [Operator.unaryPower?, Kind.isInlineTrivia]
    rintro h rfl
    cases h
  have hskip : skipBlanks.run s = ((), s) :=
    run_skipBlanks_of_significant (by rw [hcurrent, hsolid.1])
  have hshift : shift.run (s.opening .unaryExpression) =
      ((), (s.opening .unaryExpression).past [op] [.leaf op]) := run_shift_past hrest hsolid.2
  unfold unaryWith currentKind
  rw [run_bind, hskip, run_look_bind, hcurrent, h]
  refine run_composite_past (List.cons_ne_nil _ _) ?_
  rw [run_bind, hshift, run_bind, hoperand, State.past_past]
  rfl

/-- An operator behind an operation is read with its right operand, and both operands are joined. -/
theorem run_operatorPass_joined {operand : Nat → Production (Option Tree)} {s : State}
    (hs : s.InnermostInRow) {left right : Operation} {before after : Blanks} {op : Token}
    {p power : Nat} (h : Operator.binaryPower? op.kind = some p) (hpower : power ≤ p)
    {rest : List Token} (hrest : s.stream.rest = left.tokens ++ (before.tokens ++ op :: rest))
    (hoperand : (operand (p + 1)).run
        (s.past (left.tokens ++ (before.tokens ++ [op]))
          (left.tree :: (before.tokens.map .leaf ++ [.leaf op]))) =
      (some right.tree,
        (s.past (left.tokens ++ (before.tokens ++ [op]))
          (left.tree :: (before.tokens.map .leaf ++ [.leaf op]))).past
            (after.tokens ++ right.tokens) (after.tokens.map .leaf ++ [right.tree]))) :
    (operatorPass operand s.builder.checkpoint power (some left.tree)).run
        (s.past left.tokens [left.tree]) =
      (.again (some (Operation.joined left before op p h after right).tree),
        s.past (Operation.joined left before op p h after right).tokens
          [(Operation.joined left before op p h after right).tree]) := by
  have hop : EndsOperand op.kind := .of_binaryPower? h
  have hend : op.kind ≠ .lexeme .endOfFile := fun hend => by
    rw [hend] at h
    cases h
  have hbehind : (s.past left.tokens [left.tree]).stream.rest = before.tokens ++ op :: rest :=
    State.rest_past hrest (by simp) _
  have hnext : (s.past left.tokens [left.tree]).stream.peekSignificant 0 = op :=
    TokenStream.peekSignificant_zero_of_rest before.inline hop.solid hbehind
  have hshift := run_shiftNext_past before hop.solid hend hbehind
  rw [State.past_past, List.singleton_append] at hshift
  -- the node starts at the checkpoint, so it takes in the left operand, which is read already
  have hjoin := run_compositeFrom_past hs .binaryExpression
    (Operation.joined left before op p h after right).tokens
    (List.cons_ne_nil left.tree (before.tokens.map .leaf ++
        .leaf op :: (after.tokens.map .leaf ++ [right.tree])))
  unfold operatorPass nextKind
  rw [run_look_bind, hnext, h]
  dsimp only
  rw [if_neg (Nat.not_lt_of_le hpower), run_bind, hshift, run_bind, hoperand,
    State.past_past, run_bind]
  simp only [List.append_assoc, List.cons_append, List.nil_append] at hjoin ⊢
  rw [Operation.tokens] at hjoin
  rw [hjoin]
  rfl

/-- The tokens of an operation are read as its tree. -/
theorem Operation.Bound.isReached {e : Operation} (he : e.Bound) : e.IsReached := by
  induction e with
  | operand t ht =>
    intro s behind u rest depth power hrest hs hu _ _ _
    obtain ⟨_, _, htokens, hblank⟩ := (Operation.operand t ht).exists_tokens_eq_cons
    obtain ⟨rfl, rfl⟩ := List.cons.inj htokens
    refine run_binaryUpTo_of_unaryWith ?_ (run_unaryWith_operand ht hu hrest)
    rwa [TokenStream.current_of_rest hrest]
  | prefixed op r hop after inner ih =>
    intro s behind u rest depth power hrest hs hu hyields _ hdepth
    have hcurrent : s.stream.current = op := TokenStream.current_of_rest hrest
    refine run_binaryUpTo_of_unaryWith ?_ (run_unaryWith_prefixed hop hrest ?_)
    · obtain ⟨_, _, htokens, hblank⟩ := (prefixed op r hop after inner).exists_tokens_eq_cons
      obtain ⟨rfl, rfl⟩ := List.cons.inj htokens
      rwa [hcurrent]
    · have hopening : (s.opening .unaryExpression).stream.rest =
          [op] ++ (after.tokens ++ (inner.tokens ++ (behind.tokens ++ u :: rest))) := by
        change s.stream.rest = _
        simpa [tokens] using hrest
      have hremaining := State.remaining_past hopening (by simp) [.leaf op]
      change _ = s.stream.remaining at hremaining
      refine (ih he.1).run_binaryUpTo (State.rest_past hopening (by simp) _)
        ((State.innermostInRow_opening s _).past _ _) hu ?_ he.2 ?_
      · exact fun q hq => ⟨(hyields q hq).2, (hyields q hq).1⟩
      · rw [List.length_singleton] at hremaining
        omega
  | joined left before op p hop after right ihleft ihright =>
    intro s behind u rest depth power hrest hs hu hyields hpower hdepth
    obtain ⟨hleft, hright, hrightPower, hleftPower, hedge⟩ := he
    -- the left operand is read first; then the loop finds the operator behind it and reads the
    -- right one
    have hp : power ≤ p := hpower p rfl
    have hrest' : s.stream.rest = left.tokens ++ (before.tokens ++
        op :: (after.tokens ++ (right.tokens ++ (behind.tokens ++ u :: rest)))) := by
      simpa [tokens] using hrest
    have hmoved : s.stream.rest = (left.tokens ++ (before.tokens ++ [op])) ++
        (after.tokens ++ (right.tokens ++ (behind.tokens ++ u :: rest))) := by
      simpa using hrest'
    have hremaining := State.remaining_past hmoved (by simp)
      (left.tree :: (before.tokens.map .leaf ++ [.leaf op]))
    have hlt : (s.past (left.tokens ++ (before.tokens ++ [op]))
        (left.tree :: (before.tokens.map .leaf ++ [.leaf op]))).stream.remaining < depth := by
      simp only [List.length_append, List.length_singleton] at hremaining
      omega
    have hoperand := (ihright hright).run_binaryUpTo (State.rest_past hmoved (by simp) _)
      (hs.past _ _) hu (fun q hq => ⟨(hyields q hq).2, Nat.lt_succ_of_le (hyields q hq).1⟩)
      hrightPower hlt
    have hpass := run_operatorPass_joined hs hop hp hrest' hoperand
    rw [ihleft hleft hrest' hs (.of_binaryPower? hop) ?_ ?_ hdepth,
      run_iterate_of_again (by rw [hpass]), hpass]
    · intro q hq
      obtain rfl := Option.some.inj (hop.symm.trans hq)
      exact hleft.yieldsTo hleftPower hedge
    · exact fun q hq => Nat.le_trans hp (hleftPower q hq)

end LosslessBasic.Grammar
