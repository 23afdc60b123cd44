import LosslessBasic.Trace
import LosslessBasic.Tree.Builder

/-!
# Relocation

A text that stands further down in a source has the same tokens, trees and failures there, at other
places: their offsets grow by the number of bytes in front, their lines by the number of line breaks
in front, and their columns stay.
-/

namespace LosslessBasic

/-- How far down in a source a text is put. -/
structure Relocation where
  /-- The number of bytes in front. -/
  offset : UInt32 := 0
  /-- The number of line breaks in front. -/
  lines : UInt32 := 0

namespace Relocation

variable (r : Relocation)

/-- A location, relocated. -/
@[reducible]
def location (l : Location) : Location := { l with line := l.line + r.lines }

/-- A token, relocated. -/
@[reducible]
def token (t : Token) : Token := { t with offset := t.offset + r.offset, loc := r.location t.loc }

/-- An anchor, relocated. -/
@[reducible]
def anchor (a : Anchor) : Anchor := { offset := a.offset + r.offset, loc := r.location a.loc }

/-- A span, relocated. -/
@[reducible]
def span (s : Span) : Span := { s with offset := s.offset + r.offset }

mutual

/-- A tree, relocated. -/
def tree : Tree → Tree
  | .leaf t => .leaf (r.token t)
  | .node k a children => .node k (r.anchor a) (trees children)

/-- Trees, relocated. -/
def trees : List Tree → List Tree
  | [] => []
  | t :: ts => tree t :: trees ts

end

/-- A problem, with the tokens it names relocated. -/
@[reducible]
def problem : Problem → Problem
  | .expected wanted got => .expected wanted (r.token got)
  | .unexpectedStart got => .unexpectedStart (r.token got)
  | .leftover got => .leftover (r.token got)
  | .expectedCase got => .expectedCase (r.token got)
  | .missingCloser block got => .missingCloser block (r.token got)
  | .memberOutsideWith access => .memberOutsideWith (r.token access)
  | .unmatchedNext named => .unmatchedNext (r.token named)
  | p => p

/-- A failure, relocated. -/
def failure (f : Failure) : Failure where
  problem := r.problem f.problem
  span := r.span f.span
  loc := r.location f.loc

/-- An event, relocated. -/
def event : Event → Event
  | .began activity t => .began activity (r.token t)
  | .failed f => .failed (r.failure f)

/-- An access and its header, relocated. -/
def target (t : Tree × Tree) : Tree × Tree := (r.tree t.1, r.tree t.2)

/-! ## What stays -/

/-- A relocated problem has the same code. -/
theorem code_problem (p : Problem) : (r.problem p).code = p.code := by
  cases p <;> rfl

/-- A relocated problem has the same message. -/
theorem message_problem (p : Problem) : (r.problem p).message = p.message := by
  cases p <;> rfl

/-- A relocated failure has the same code. -/
theorem code_failure (f : Failure) : (r.failure f).code = f.code :=
  congrArg Code.text (r.code_problem f.problem)

/-- A relocated failure has the same message. -/
theorem message_failure (f : Failure) : (r.failure f).message = f.message :=
  r.message_problem f.problem

@[simp]
theorem trees_eq_map (ts : List Tree) : r.trees ts = ts.map r.tree := by
  induction ts with
  | nil => rfl
  | cons t ts ih => rw [trees, ih, List.map_cons]

/-! ## Staying in place -/

/-- Nothing is moved by nothing. -/
theorem location_zero (l : Location) : ({} : Relocation).location l = l := by
  simp [location]

theorem token_zero (t : Token) : ({} : Relocation).token t = t := by
  simp [token, location]

theorem anchor_zero (a : Anchor) : ({} : Relocation).anchor a = a := by
  simp [anchor, location]

mutual

/-- A tree that is moved by nothing is as it was. -/
theorem tree_zero (t : Tree) : ({} : Relocation).tree t = t := by
  cases t with
  | leaf t => rw [tree, token_zero]
  | node k a cs => rw [tree, anchor_zero, trees_zero]

theorem trees_zero (ts : List Tree) : ({} : Relocation).trees ts = ts := by
  cases ts with
  | nil => rfl
  | cons t ts => rw [trees, tree_zero, trees_zero]

end

theorem problem_zero (p : Problem) : ({} : Relocation).problem p = p := by
  cases p <;> simp only [problem, token_zero]

theorem failure_zero (f : Failure) : ({} : Relocation).failure f = f := by
  simp [failure, problem_zero, location_zero, span]

theorem event_zero (e : Event) : ({} : Relocation).event e = e := by
  cases e <;> simp only [event, failure_zero, token_zero]

theorem target_zero (t : Tree × Tree) : ({} : Relocation).target t = t := by
  simp [target, tree_zero]

/-! ## Relocating what was put together -/

/-- A failure at a token is moved with the token. -/
theorem atToken_problem (p : Problem) (t : Token) :
    Failure.atToken (r.problem p) (r.token t) = r.failure (Failure.atToken p t) := rfl

/-- A token that is moved ends as much further on. -/
theorem stop_token (t : Token) : (r.token t).stop = t.stop + r.offset := by
  change t.offset + r.offset + t.length = t.offset + t.length + r.offset
  ac_rfl

/-- A relocated tree lies where the tree lies, relocated. -/
theorem anchor_tree (t : Tree) : (r.tree t).anchor = r.anchor t.anchor := by
  induction t using Tree.anchor.induct with
  | case1 t => rfl
  | case2 => rfl
  | case3 k a c cs ih =>
    rw [tree, trees]
    exact ih

/-- A relocated node is over the relocated trees. -/
theorem tree_above (k : Kind) (bare : Anchor) (ts : List Tree) :
    r.tree (.above k bare ts) = .above k (r.anchor bare) (ts.map r.tree) := by
  cases ts with
  | nil => rfl
  | cons t ts =>
    rw [Tree.above, tree, trees_eq_map, List.map_cons, Tree.above, anchor_tree]

end Relocation

end LosslessBasic
