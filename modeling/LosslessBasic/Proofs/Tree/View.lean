import LosslessBasic.Proofs.Token.View
import LosslessBasic.Proofs.Tree.Builder
import LosslessBasic.Tree.Path

/-!
# Looking at trees

What a view shows of a tree: its shape and the kinds of its nodes are kept, its tokens and places
are shown as the view shows them, and the tokens that are overlooked are left out. Trees that look
the same look the same under a node (`View.tree?_above_eq`), although a node lies where its first
child lies and that may be overlooked.
-/

namespace LosslessBasic.View

mutual

/-- What is seen of a tree; nothing of a token that is overlooked. -/
def tree? (V : View) : Tree → Option Tree
  | .leaf t => (V.token? t).map .leaf
  | .node k a cs => some (.node k (V.anchor a) (V.trees cs))

/-- What is seen of some trees. -/
def trees (V : View) : List Tree → List Tree
  | [] => []
  | t :: ts => (V.tree? t).toList ++ V.trees ts

end

variable {V : View}

@[simp]
theorem trees_append (ts us : List Tree) : V.trees (ts ++ us) = V.trees ts ++ V.trees us := by
  induction ts with
  | nil => rfl
  | cons t ts ih => rw [List.cons_append, trees, trees, ih, List.append_assoc]

theorem trees_singleton (t : Tree) : V.trees [t] = (V.tree? t).toList := by
  rw [trees, trees, List.append_nil]

mutual

/-- The tokens of what is seen of a tree are what is seen of its tokens. -/
theorem leavesAll_tree? (t : Tree) :
    Tree.leavesAll (V.tree? t).toList = t.leaves.filterMap V.token? := by
  cases t with
  | leaf t =>
    rw [tree?, Tree.leaves, List.filterMap_cons]
    cases V.token? t <;> rfl
  | node k a cs =>
    change Tree.leavesAll [.node k (V.anchor a) (V.trees cs)] = (Tree.leavesAll cs).filterMap _
    rw [Tree.leavesAll, Tree.leavesAll, Tree.leaves, List.append_nil, leavesAll_trees]

theorem leavesAll_trees (ts : List Tree) :
    Tree.leavesAll (V.trees ts) = (Tree.leavesAll ts).filterMap V.token? := by
  cases ts with
  | nil => rfl
  | cons t ts =>
    rw [trees, Tree.leavesAll_append, leavesAll_tree?, leavesAll_trees, Tree.leavesAll,
      List.filterMap_append]

end

/-- Where no token is overlooked, something is seen of every tree. -/
theorem exists_tree?_eq (hsighted : ∀ t, V.token? t ≠ none) (t : Tree) :
    ∃ u, V.tree? t = some u := by
  cases t with
  | leaf t =>
    obtain ⟨u, hu⟩ := Option.ne_none_iff_exists'.mp (hsighted t)
    exact ⟨.leaf u, by rw [tree?, hu, Option.map_some]⟩
  | node k a cs => exact ⟨_, rfl⟩

/-! ## Places -/

/-- Where no token is overlooked, what is seen of a tree lies where the tree is seen to lie. -/
theorem anchor_of_tree? (hsighted : ∀ t, V.token? t ≠ none) {t u : Tree} (h : V.tree? t = some u) :
    V.anchor u.anchor = V.anchor t.anchor := by
  induction t using Tree.anchor.induct generalizing u with
  | case1 t =>
    obtain ⟨v, hv, rfl⟩ := Option.map_eq_some_iff.mp h
    exact V.start_of_some hv
  | case2 k a =>
    obtain rfl := Option.some.inj h
    exact V.anchor_anchor a
  | case3 k a c cs ih =>
    obtain rfl := Option.some.inj h
    cases hc : V.tree? c with
    | none =>
      -- only a token can be overlooked
      cases c with
      | leaf t => exact absurd (Option.map_eq_none_iff.mp hc) (hsighted t)
      | node => cases hc
    | some d =>
      have hd := ih hc
      rw [trees, hc]
      exact hd

/-- A node that is seen over trees lies where it is seen to lie, whatever the trees are. -/
theorem anchor_above_eq {k : Kind} {a a' : Anchor} {ts ts' : List Tree}
    (h : V.trees ts = V.trees ts')
    (ha : V.anchor a = V.anchor a') :
    V.anchor (Tree.above k a ts).anchor = V.anchor (Tree.above k a' ts').anchor := by
  by_cases hblind : ∃ t, V.token? t = none
  · obtain ⟨t, ht⟩ := hblind
    exact V.anchor_of_none _ _ ht
  · have hsighted (t : Token) : V.token? t ≠ none := fun ht => hblind ⟨t, ht⟩
    cases ts with
    | nil =>
      cases ts' with
      | nil => exact ha
      | cons t' ts' =>
        obtain ⟨u, hu⟩ := exists_tree?_eq hsighted t'
        rw [trees, trees, hu] at h
        cases h
    | cons t ts =>
      obtain ⟨u, hu⟩ := exists_tree?_eq hsighted t
      cases ts' with
      | nil =>
        rw [trees, trees, hu] at h
        cases h
      | cons t' ts' =>
        obtain ⟨u', hu'⟩ := exists_tree?_eq hsighted t'
        rw [trees, trees, hu, hu'] at h
        obtain rfl := (List.cons.inj h).1
        have hanchor : V.anchor t.anchor = V.anchor t'.anchor :=
          (anchor_of_tree? hsighted hu).symm.trans (anchor_of_tree? hsighted hu')
        exact hanchor

/-- What is seen of a node is one over what is seen of the trees. -/
theorem tree?_above (k : Kind) (a : Anchor) (ts : List Tree) :
    V.tree? (.above k a ts) =
      some (.node k (V.anchor (Tree.above k a ts).anchor) (V.trees ts)) := by
  cases ts <;> rfl

/-- Nodes over trees that look the same look the same. -/
theorem tree?_above_eq {k : Kind} {a a' : Anchor} {ts ts' : List Tree}
    (h : V.trees ts = V.trees ts')
    (ha : V.anchor a = V.anchor a') :
    V.tree? (.above k a ts) = V.tree? (.above k a' ts') := by
  rw [tree?_above, tree?_above, anchor_above_eq h ha, h]

theorem trees_above_eq {k : Kind} {a a' : Anchor} {ts ts' : List Tree}
    (h : V.trees ts = V.trees ts')
    (ha : V.anchor a = V.anchor a') :
    V.trees [.above k a ts] = V.trees [.above k a' ts'] := by
  rw [trees_singleton, trees_singleton, tree?_above_eq h ha]

/-! ## Paths -/

/-- The kind on top is seen. -/
theorem kind_of_tree? {t u : Tree} (h : V.tree? t = some u) :
    u.kind = t.kind ∧ u.isToken = t.isToken := by
  cases t with
  | leaf t =>
    obtain ⟨v, hv, rfl⟩ := Option.map_eq_some_iff.mp h
    exact ⟨V.kind_of_some hv, rfl⟩
  | node k a cs =>
    obtain rfl := Option.some.inj h
    exact ⟨rfl, rfl⟩

theorem getElem?_trees (hsighted : ∀ t, V.token? t ≠ none) (ts : List Tree) (i : Nat) :
    (V.trees ts)[i]? = ts[i]?.bind V.tree? := by
  induction ts generalizing i with
  | nil => rfl
  | cons t ts ih =>
    obtain ⟨u, hu⟩ := exists_tree?_eq hsighted t
    rw [trees, hu, Option.toList_some, List.singleton_append]
    cases i with
    | zero => exact hu.symm
    | succ i => exact ih i

/-- Where no token is overlooked, the trees below a tree are seen where they are. -/
theorem at?_tree? (hsighted : ∀ t, V.token? t ≠ none) (path : Path) {t u : Tree}
    (h : V.tree? t = some u) : u.at? path = (t.at? path).bind V.tree? := by
  induction path generalizing t u with
  | nil => exact h.symm
  | cons i path ih =>
    have hchild : u.childAt? i = (t.childAt? i).bind V.tree? := by
      cases t with
      | leaf t =>
        obtain ⟨v, -, rfl⟩ := Option.map_eq_some_iff.mp h
        rfl
      | node k a cs =>
        obtain rfl := Option.some.inj h
        exact getElem?_trees hsighted cs i
    unfold Tree.at?
    cases hc : t.childAt? i with
    | none =>
      rw [hc] at hchild
      rw [hchild]
      rfl
    | some c =>
      obtain ⟨d, hd⟩ := exists_tree?_eq hsighted c
      rw [hc, Option.bind_some, hd] at hchild
      rw [hchild]
      exact ih hd

/-- Trees that look the same are of one shape: at every path both have a tree or none of them has,
and the two have to do with each other what trees that look the same have. -/
theorem at?_rel (hsighted : ∀ t, V.token? t ≠ none) {r : Tree → Tree → Prop}
    (hr : ∀ {n n'}, V.tree? n = V.tree? n' → r n n') {t t' : Tree} (h : V.tree? t = V.tree? t')
    (path : Path) : Option.Rel r (t.at? path) (t'.at? path) := by
  obtain ⟨u, hu⟩ := exists_tree?_eq hsighted t
  have hat := at?_tree? hsighted path hu
  rw [at?_tree? hsighted path (h ▸ hu)] at hat
  cases hn : t.at? path with
  | none =>
    cases hn' : t'.at? path with
    | none => exact .none
    | some n' =>
      obtain ⟨v, hv⟩ := exists_tree?_eq hsighted n'
      rw [hn, hn', Option.bind_some, hv] at hat
      cases hat
  | some n =>
    cases hn' : t'.at? path with
    | none =>
      obtain ⟨v, hv⟩ := exists_tree?_eq hsighted n
      rw [hn, hn', Option.bind_some, hv] at hat
      cases hat
    | some n' =>
      rw [hn, hn'] at hat
      exact .some (hr hat.symm)

/-! ## Failures -/

/-- What is seen of a failure: its code, and the places it is reported for. -/
def failure (V : View) (f : Failure) : Code × Anchor × Anchor :=
  (f.problem.code, V.anchor { offset := f.span.offset, loc := f.loc },
    V.anchor { offset := f.span.stop, loc := f.loc })

/-- Problems of one code that are reported at tokens that look the same look the same. -/
theorem failure_atToken_eq {t t' : Token} {problem problem' : Problem} (h : V.Like t t')
    (hcode : problem.code = problem'.code) :
    V.failure (.atToken problem t) = V.failure (.atToken problem' t') := by
  have hstart := h.start_eq
  have hbehind := h.behind_eq
  unfold Token.behind at hbehind
  unfold failure Failure.atToken Token.span Span.stop
  rw [hcode, hstart]
  exact congrArg (fun b => (problem'.code, _, b)) hbehind

end LosslessBasic.View
