import LosslessBasic.Kind

/-!
# Operators

The binding powers of operators: the operator of higher power takes an operand first. All binary
operators associate to the left.
-/

namespace LosslessBasic.Operator

/-- The power with which an operator in front of its operand binds it. -/
def unaryPower? : Kind → Option Nat
  | .keyword .not => some 6
  | .lexeme .plus | .lexeme .minus => some 13
  | _ => none

/-- The power with which an operator between two operands binds them. -/
def binaryPower? : Kind → Option Nat
  | .lexeme .caret => some 14
  | .lexeme .star | .lexeme .slash => some 12
  | .lexeme .backslash => some 11
  | .keyword .mod => some 10
  | .lexeme .plus | .lexeme .minus => some 9
  | .lexeme .ampersand => some 8
  | .lexeme .equal | .lexeme .notEqual | .lexeme .less | .lexeme .lessEqual | .lexeme .greater
  | .lexeme .greaterEqual | .keyword .like | .keyword .is => some 7
  | .keyword .and => some 5
  | .keyword .or => some 4
  | .keyword .xor => some 3
  | .keyword .eqv => some 2
  | .keyword .imp => some 1
  | _ => none

/-- The least power of an operator within the operand of `TypeOf`, which leaves its `Is` alone. -/
def typeOfOperandPower : Nat := 8

/-- Whether a token compares two values by order or equality. -/
def isRelational : Kind → Bool
  | .lexeme .equal | .lexeme .notEqual | .lexeme .less | .lexeme .lessEqual | .lexeme .greater
  | .lexeme .greaterEqual => true
  | _ => false

end LosslessBasic.Operator
