import LosslessBasic.Text.Bytes

/-!
# Argument vectors

The arguments a program is started with: a count, which may be wrong, and strings that end in front
of their first zero byte. The first string is the name of the program.
-/

namespace LosslessBasic

/-- The arguments a program is started with. -/
structure ArgumentVector where
  /-- The number of arguments; a negative one stands for none. -/
  count : Int
  /-- The strings, at least as many as there are arguments. -/
  strings : List Bytes
  deriving DecidableEq, Repr

namespace ArgumentVector

/-- The vector of all of some strings. -/
def ofList (strings : List Bytes) : ArgumentVector :=
  { count := strings.length, strings := strings }

/-- The number of arguments. -/
def size (v : ArgumentVector) : Nat := v.count.toNat

/-- The arguments in order. -/
def toList (v : ArgumentVector) : List Bytes :=
  (v.strings.take v.size).map fun s => s.takeWhile (· != 0)

/-- The argument at an index; empty where there is none. -/
def get (v : ArgumentVector) (index : Int) : Bytes :=
  if index < 0 then [] else v.toList[index.toNat]?.getD []

/-- The name the program was started under. -/
def programName (v : ArgumentVector) : Bytes :=
  if v.size = 0 then Bytes.ofString "basil" else v.get 0

/-- The arguments behind the name of the program. -/
def rest (v : ArgumentVector) : ArgumentVector :=
  if v.size ≤ 1 then { count := 0, strings := [] }
  else { count := v.count - 1, strings := v.strings.drop 1 }

end ArgumentVector

end LosslessBasic
