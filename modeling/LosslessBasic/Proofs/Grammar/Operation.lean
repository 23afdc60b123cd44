import LosslessBasic.Proofs.Grammar.Reading

/-!
# Operations by the binding powers

The trees that the binding powers prescribe for operands with operators between and in front of
them. An `Operation` is such a tree in the abstract: it knows its operators, and the trivia beside
them, but not the row of trees it is built in. `Operation.Bound` states what the powers ask of it.

Every sequence of operands and operators is the sequence of the tokens of a bound operation
(`IsOperation.exists_bound`): what stands in front is put in at the left edge, as far down as its
power tells.
-/

namespace LosslessBasic.Grammar

/-- Whether a token of a kind is an operand by itself: a literal, or what serves as a name. -/
def isOperand (k : Kind) : Bool := (literalKind? k).isSome || k.isNameLike

/-- The node over an operand of a kind. -/
def operandNode (k : Kind) : NodeKind := (literalKind? k).getD .identifierExpression

/-- Operands with operators in front of them and between them. -/
inductive Operation where
  /-- An operand by itself. -/
  | operand (t : Token) (h : isOperand t.kind = true)
  /-- An operator in front of its operand. -/
  | prefixed (op : Token) (power : Nat) (h : Operator.unaryPower? op.kind = some power)
    (after : Blanks) (inner : Operation)
  /-- An operator between its operands. -/
  | joined (left : Operation) (before : Blanks) (op : Token) (power : Nat)
    (h : Operator.binaryPower? op.kind = some power) (after : Blanks) (right : Operation)

namespace Operation

/-- The tokens of an operation, in order. -/
def tokens : Operation → List Token
  | operand t _ => [t]
  | prefixed op _ _ after inner => op :: (after.tokens ++ inner.tokens)
  | joined left before op _ _ after right =>
    left.tokens ++ (before.tokens ++ op :: (after.tokens ++ right.tokens))

/-- The tree of an operation. -/
def tree : Operation → Tree
  | operand t _ => .above (.node (operandNode t.kind)) {} [.leaf t]
  | prefixed op _ _ after inner =>
    .above (.node .unaryExpression) {} (.leaf op :: (after.tokens.map .leaf ++ [inner.tree]))
  | joined left before op _ _ after right =>
    .above (.node .binaryExpression) {}
      (left.tree :: (before.tokens.map .leaf ++
        .leaf op :: (after.tokens.map .leaf ++ [right.tree])))

/-- The power of the operator between the operands of an operation, when that is what it is. -/
def power? : Operation → Option Nat
  | joined _ _ _ power _ _ _ => some power
  | _ => none

/-- The powers of the operators in front of operands that reach up to the right edge. -/
def edgePowers : Operation → List Nat
  | operand _ _ => []
  | prefixed _ power _ _ inner => power :: inner.edgePowers
  | joined _ _ _ _ _ _ right => right.edgePowers

/-- What the binding powers ask of an operation, at every operator in it: an operator of higher
power takes an operand first, of operators between operands with the same power the one further left
does, and the operand of an operator in front reaches as far as the operators in it have at least
its power. -/
def Bound : Operation → Prop
  | operand _ _ => True
  | prefixed _ power _ _ inner => inner.Bound ∧ ∀ q ∈ inner.power?, power ≤ q
  | joined left _ _ power _ _ right =>
    left.Bound ∧ right.Bound ∧ (∀ q ∈ right.power?, power < q) ∧ (∀ q ∈ left.power?, power ≤ q) ∧
      ∀ q ∈ left.edgePowers, power < q

/-! ## Putting operators in at the left edge -/

section

variable (op : Token) (power : Nat) (h : Operator.unaryPower? op.kind = some power) (after : Blanks)

/-- An operation with an operator in front of it, which takes of the left edge what binds at least
as tightly. -/
def prefixWith : Operation → Operation
  | joined left before op' power' h' after' right =>
    if power' < power then joined left.prefixWith before op' power' h' after' right
    else prefixed op power h after (joined left before op' power' h' after' right)
  | inner => prefixed op power h after inner

/-- An operation behind an operator has the operator in front of its tokens. -/
theorem tokens_prefixWith (e : Operation) :
    (prefixWith op power h after e).tokens = op :: (after.tokens ++ e.tokens) := by
  induction e with
  | operand | prefixed => rfl
  | joined left before op' power' h' after' right ih =>
    unfold prefixWith
    split
    · simp [tokens, ih]
    · rfl

/-- To put an operator in front adds no power to the outermost operator. -/
theorem power?_prefixWith {e : Operation} {q : Nat}
    (hq : q ∈ (prefixWith op power h after e).power?) : q ∈ e.power? := by
  cases e with
  | operand | prefixed => cases hq
  | joined =>
    unfold prefixWith at hq
    split at hq
    · exact hq
    · cases hq

/-- To put an operator in front adds its power to those at the edge. -/
theorem edgePowers_prefixWith {e : Operation} {q : Nat}
    (hq : q ∈ (prefixWith op power h after e).edgePowers) : q = power ∨ q ∈ e.edgePowers := by
  cases e with
  | operand | prefixed => exact List.mem_cons.mp hq
  | joined =>
    unfold prefixWith at hq
    split at hq
    · exact .inr hq
    · exact List.mem_cons.mp hq

/-- To put an operator in front of a bound operation binds as it should. -/
theorem Bound.prefixWith {e : Operation} (he : e.Bound) :
    (Operation.prefixWith op power h after e).Bound := by
  induction e with
  | operand | prefixed => exact ⟨he, by simp [power?]⟩
  | joined left before op' power' h' after' right ih =>
    obtain ⟨hleft, hright, hrightPower, hleftPower, hedge⟩ := he
    unfold Operation.prefixWith
    split
    next hlt =>
      refine ⟨ih hleft, hright, hrightPower, ?_, ?_⟩
      · exact fun q hq => hleftPower q (power?_prefixWith op power h after hq)
      · intro q hq
        rcases edgePowers_prefixWith op power h after hq with rfl | hq
        · exact hlt
        · exact hedge q hq
    next hle =>
      refine ⟨⟨hleft, hright, hrightPower, hleftPower, hedge⟩, fun q hq => ?_⟩
      obtain rfl := Option.some.inj hq
      exact Nat.le_of_not_lt hle

end

section

variable (t : Token) (ht : isOperand t.kind = true) (before : Blanks) (op : Token) (power : Nat)
  (h : Operator.binaryPower? op.kind = some power) (after : Blanks)

/-- An operation with an operand and an operator in front of it, which takes of the left edge what
binds more tightly. -/
def joinWith : Operation → Operation
  | joined left before' op' power' h' after' right =>
    if power' ≤ power then joined left.joinWith before' op' power' h' after' right
    else
      joined (operand t ht) before op power h after (joined left before' op' power' h' after' right)
  | inner => joined (operand t ht) before op power h after inner

/-- An operation behind an operand and an operator has both in front of its tokens. -/
theorem tokens_joinWith (e : Operation) :
    (joinWith t ht before op power h after e).tokens =
      t :: (before.tokens ++ op :: (after.tokens ++ e.tokens)) := by
  induction e with
  | operand | prefixed => rfl
  | joined left before' op' power' h' after' right ih =>
    unfold joinWith
    split
    · simp [tokens, ih]
    · rfl

/-- The outermost operator is the new one, or the one that was outermost before. -/
theorem power?_joinWith {e : Operation} {q : Nat}
    (hq : q ∈ (joinWith t ht before op power h after e).power?) : q = power ∨ q ∈ e.power? := by
  cases e with
  | operand | prefixed => exact .inl (Option.some.inj hq).symm
  | joined =>
    unfold joinWith at hq
    split at hq
    · exact .inr hq
    · exact .inl (Option.some.inj hq).symm

/-- To join an operation to an operand leaves the powers at its right edge. -/
theorem edgePowers_joinWith (e : Operation) :
    (joinWith t ht before op power h after e).edgePowers = e.edgePowers := by
  cases e with
  | operand | prefixed => rfl
  | joined =>
    unfold joinWith
    split <;> rfl

/-- To join a bound operation to an operand binds as it should. -/
theorem Bound.joinWith {e : Operation} (he : e.Bound) :
    (Operation.joinWith t ht before op power h after e).Bound := by
  induction e with
  | operand | prefixed =>
    exact ⟨trivial, he, by simp [power?], by simp [power?], by simp [edgePowers]⟩
  | joined left before' op' power' h' after' right ih =>
    obtain ⟨hleft, hright, hrightPower, hleftPower, hedge⟩ := he
    unfold Operation.joinWith
    split
    next hle =>
      refine ⟨ih hleft, hright, hrightPower, ?_, ?_⟩
      · intro q hq
        rcases power?_joinWith t ht before op power h after hq with rfl | hq
        · exact hle
        · exact hleftPower q hq
      · rwa [edgePowers_joinWith]
    next hlt =>
      refine ⟨trivial, ⟨hleft, hright, hrightPower, hleftPower, hedge⟩, fun q hq => ?_,
        by simp [power?], by simp [edgePowers]⟩
      obtain rfl := Option.some.inj hq
      exact Nat.lt_of_not_le hlt

end

end Operation

/-! ## Sequences of operands and operators -/

/-- Operands with an operator between each two of them, with any number of operators in front of
each of them and with inline trivia everywhere, but not at the end. -/
inductive IsOperation : List Token → Prop
  /-- The last operand. -/
  | last (blanks : Blanks) (t : Token) (ht : isOperand t.kind = true) :
    IsOperation (blanks.tokens ++ [t])
  /-- An operator in front. -/
  | prefixed (blanks : Blanks) (op : Token) (power : Nat)
    (h : Operator.unaryPower? op.kind = some power) {rest : List Token} (hrest : IsOperation rest) :
    IsOperation (blanks.tokens ++ op :: rest)
  /-- An operand and the operator behind it. -/
  | joined (blanks : Blanks) (t : Token) (ht : isOperand t.kind = true) (before : Blanks)
    (op : Token) (power : Nat) (h : Operator.binaryPower? op.kind = some power)
    {rest : List Token} (hrest : IsOperation rest) :
    IsOperation (blanks.tokens ++ t :: (before.tokens ++ op :: rest))

/-- Every sequence of operands and operators makes an operation that is bound as the powers ask. -/
theorem IsOperation.exists_bound {tokens : List Token} (h : IsOperation tokens) :
    ∃ (blanks : Blanks) (e : Operation), tokens = blanks.tokens ++ e.tokens ∧ e.Bound := by
  induction h with
  | last blanks t ht => exact ⟨blanks, .operand t ht, rfl, trivial⟩
  | prefixed blanks op power h _ ih =>
    obtain ⟨after, e, rfl, he⟩ := ih
    exact ⟨blanks, .prefixWith op power h after e, by rw [Operation.tokens_prefixWith],
      he.prefixWith op power h after⟩
  | joined blanks t ht before op power h _ ih =>
    obtain ⟨after, e, rfl, he⟩ := ih
    exact ⟨blanks, .joinWith t ht before op power h after e, by rw [Operation.tokens_joinWith],
      he.joinWith t ht before op power h after⟩

end LosslessBasic.Grammar
