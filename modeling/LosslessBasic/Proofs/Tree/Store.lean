import LosslessBasic.Proofs.Tree.Builder
import LosslessBasic.Proofs.Tree.Query
import LosslessBasic.Tree.Store
import Mathlib.Data.List.Basic
import Mathlib.Data.List.Induction

/-!
# The links of a tree in a store

The trees that are put in a store get numbers in a row, those below a tree right in front of its own
number (`Store.put_eq`). A tree that is in the store with everything below it is *held* by it
(`Store.Holds`): from a tree that is held one gets to its children by their numbers, and back to it
by theirs (`Store.Holds.exists_child`). So every path leads to a number of its own, and what is
above it is what the path has led through (`Store.Holds.links`).

The calls of a builder make such a store step by step: a token and a node that is closed are put
behind what is there, and the node is set above the trees that it owns (`Builder.stored_token`,
`Builder.stored_finishNode`).
-/

namespace LosslessBasic

namespace Store

variable {s : Store} {t u : Tree} {ts us : List Tree} {k first number : Nat} {above? : Option Nat}
  {path path' : Path}

/-! ## Numbers in a row -/

/-- The numbers of some trees that are put in a store where `first` comes next. -/
def numbersFrom (first : Nat) : List Tree → List Nat
  | [] => []
  | t :: ts => (first + t.descendants.length) ::
      numbersFrom (first + t.descendants.length + 1) ts

mutual

/-- What a store holds of a tree that is put in it where `first` comes next, once the number
`above?` has been set above it. -/
def cellsFrom (first : Nat) (above? : Option Nat) : Tree → List Cell
  | .leaf t => [{ tree := .leaf t, parent? := above? }]
  | .node k a cs => cellsFromAll first (some (first + (Tree.descendantsAll cs).length)) cs ++
      [{ tree := .node k a cs, children := numbersFrom first cs, parent? := above? }]

/-- The same of some trees that the same number has been set above. -/
def cellsFromAll (first : Nat) (above? : Option Nat) : List Tree → List Cell
  | [] => []
  | t :: ts => cellsFrom first above? t ++
      cellsFromAll (first + t.descendants.length + 1) above? ts

end

/-- The cell of a tree comes behind those of the trees below it. -/
theorem cellsFrom_eq (first : Nat) (above? : Option Nat) (t : Tree) :
    cellsFrom first above? t =
      cellsFromAll first (some (first + t.descendants.length)) t.children ++
        [{ tree := t, children := numbersFrom first t.children, parent? := above? }] := by
  cases t <;> rfl

mutual

/-- There is a cell for a tree and one for each of the trees below it. -/
theorem length_cellsFrom (first : Nat) (above? : Option Nat) : (t : Tree) →
    (cellsFrom first above? t).length = t.descendants.length + 1
  | .leaf _ => rfl
  | .node _ _ cs => by
    rw [cellsFrom, List.length_append, length_cellsFromAll first _ cs]
    rfl

/-- As many cells are laid out as there are descendants. -/
theorem length_cellsFromAll (first : Nat) (above? : Option Nat) : (ts : List Tree) →
    (cellsFromAll first above? ts).length = (Tree.descendantsAll ts).length
  | [] => rfl
  | t :: ts => by
    rw [cellsFromAll, List.length_append, length_cellsFrom first _ t, length_cellsFromAll _ _ ts,
      Tree.descendantsAll, List.length_cons, List.length_append]
    omega

end

/-- Each of the trees has a number. -/
theorem length_numbersFrom (first : Nat) (ts : List Tree) :
    (numbersFrom first ts).length = ts.length := by
  induction ts generalizing first with
  | nil => rfl
  | cons t ts ih => rw [numbersFrom, List.length_cons, ih, List.length_cons]

/-- The numbers of trees that come one behind the other increase. -/
theorem pairwise_numbersFrom (first : Nat) (ts : List Tree) :
    (∀ number ∈ numbersFrom first ts, first ≤ number) ∧
      (numbersFrom first ts).Pairwise (· < ·) := by
  induction ts generalizing first with
  | nil => exact ⟨fun _ h => absurd h List.not_mem_nil, .nil⟩
  | cons t ts ih =>
    obtain ⟨hle, hpairwise⟩ := ih (first + t.descendants.length + 1)
    refine ⟨fun number hnumber => ?_, List.pairwise_cons.mpr ⟨fun number hnumber => ?_, hpairwise⟩⟩
    · rcases List.mem_cons.mp hnumber with rfl | hlater
      · exact Nat.le_add_right _ _
      · have := hle number hlater
        omega
    · have := hle number hnumber
      omega

/-! ## Trees that are put in a store -/

/-- Setting a number above the one tree whose cell is known changes nothing else. -/
theorem cells_adopt (parent : Nat) (before : List Cell) (c : Cell) (behind : List Cell)
    (hs : s.cells.toList = before ++ c :: behind) :
    (s.adopt parent before.length).cells.toList =
      before ++ { c with parent? := some parent } :: behind := by
  have hlt : before.length < (before ++ c :: behind).length := by simp
  rw [adopt, Array.toList_modify, hs, List.modify_eq_take_cons_drop hlt]
  simp

/-- A node that goes through its children sets itself above each of them. -/
theorem cells_foldl_adopt {before behind : List Cell} (parent : Nat) (ts : List Tree)
    (hs : s.cells.toList = before ++ cellsFromAll before.length none ts ++ behind) :
    ((numbersFrom before.length ts).foldl (adopt parent) s).cells.toList =
      before ++ cellsFromAll before.length (some parent) ts ++ behind := by
  induction ts generalizing s before with
  | nil => exact hs
  | cons t ts ih =>
    -- the first child is the last of the cells that came with it
    let below := cellsFromAll before.length (some (before.length + t.descendants.length)) t.children
    have hbelow : (before ++ below).length = before.length + t.descendants.length := by
      have hlength := length_cellsFrom before.length none t
      rw [cellsFrom_eq, List.length_append, List.length_singleton] at hlength
      rw [List.length_append]
      exact congrArg (before.length + ·) (Nat.succ.inj hlength)
    have hadopt := cells_adopt parent (before ++ below)
      { tree := t, children := numbersFrom before.length t.children }
      (cellsFromAll (before.length + t.descendants.length + 1) none ts ++ behind)
      (by rw [hs, cellsFromAll, cellsFrom_eq]; simp [below])
    rw [hbelow] at hadopt
    have hnext : (before ++ cellsFrom before.length (some parent) t).length =
        before.length + t.descendants.length + 1 := by
      rw [List.length_append, length_cellsFrom]
      omega
    rw [numbersFrom, List.foldl_cons, cellsFromAll, ← List.append_assoc, ← hnext]
    refine ih (hadopt.trans ?_)
    rw [hnext, cellsFrom_eq]
    simp [below]

/-- The next number is the number of cells. -/
theorem next_eq_length (s : Store) : s.next = s.cells.toList.length := Array.length_toList.symm

/-- A composite is stored behind its children. -/
theorem put_node (s : Store) (k : Kind) (a : Anchor) (cs : List Tree) :
    s.put (.node k a cs) = (s.putAll cs).2.composite (.node k a cs) (s.putAll cs).1 := rfl

/-- Trees are stored one after the other. -/
theorem putAll_cons (s : Store) (t : Tree) (ts : List Tree) :
    s.putAll (t :: ts) =
      ((s.put t).1 :: ((s.put t).2.putAll ts).1, ((s.put t).2.putAll ts).2) := rfl

mutual

/-- A tree that is put in a store gets the number behind those of the trees below it, and nothing is
above it. -/
theorem put_eq (s : Store) : (t : Tree) → (s.put t).1 = s.next + t.descendants.length ∧
    (s.put t).2.cells.toList = s.cells.toList ++ cellsFrom s.next none t
  | .leaf _ => ⟨rfl, Array.toList_push⟩
  | .node k a cs => by
    obtain ⟨hnumbers, hcells⟩ := putAll_eq s cs
    have hnext : (s.putAll cs).2.next = s.next + (Tree.descendantsAll cs).length := by
      rw [next_eq_length, hcells, List.length_append, length_cellsFromAll, ← next_eq_length]
    rw [put_node]
    refine ⟨hnext, ?_⟩
    rw [composite, hnumbers, cellsFrom, ← hnext, next_eq_length s, ← List.append_assoc]
    refine cells_foldl_adopt _ cs ?_
    rw [Array.toList_push, hcells, next_eq_length s]

/-- Some trees are stored in the cells behind those that are there, and are given their numbers. -/
theorem putAll_eq (s : Store) : (ts : List Tree) → (s.putAll ts).1 = numbersFrom s.next ts ∧
    (s.putAll ts).2.cells.toList = s.cells.toList ++ cellsFromAll s.next none ts
  | [] => ⟨rfl, (List.append_nil _).symm⟩
  | t :: ts => by
    obtain ⟨hnumber, hcells⟩ := put_eq s t
    obtain ⟨hnumbers, hmore⟩ := putAll_eq (s.put t).2 ts
    have hnext : (s.put t).2.next = s.next + t.descendants.length + 1 := by
      rw [next_eq_length, hcells, List.length_append, length_cellsFrom, ← next_eq_length]
      omega
    rw [hnext] at hnumbers hmore
    rw [putAll_cons, hnumber, hnumbers, hmore, hcells, cellsFromAll, numbersFrom, List.append_assoc]
    exact ⟨rfl, rfl⟩

end

/-! ## Trees that are held -/

/-- Whether a store holds a tree with everything below it from the number `first` on, and `above?`
above it. The number of the tree comes behind those of the trees below it. -/
def Holds (s : Store) (first : Nat) (above? : Option Nat) (t : Tree) : Prop :=
  ∃ before behind, before.length = first ∧
    s.cells.toList = before ++ cellsFrom first above? t ++ behind

/-- A tree that is put in a store is held by it, with nothing above it. -/
theorem holds_put (s : Store) (t : Tree) : (s.put t).2.Holds s.next none t := by
  refine ⟨s.cells.toList, [], s.next_eq_length.symm, ?_⟩
  rw [(put_eq s t).2, List.append_nil]

/-- The cell of a tree that is held. -/
theorem Holds.getElem? (h : s.Holds first above? t) : s.cells[first + t.descendants.length]? =
    some { tree := t, children := numbersFrom first t.children, parent? := above? } := by
  obtain ⟨before, behind, rfl, hcells⟩ := h
  have hlength := length_cellsFrom before.length above? t
  rw [cellsFrom_eq] at hcells hlength
  rw [List.length_append, List.length_singleton] at hlength
  have hbelow := Nat.succ.inj hlength
  rw [← Array.getElem?_toList, hcells, List.append_assoc,
    List.getElem?_append_right (Nat.le_add_right _ _), Nat.add_sub_cancel_left, List.append_assoc,
    List.getElem?_append_right (Nat.le_of_eq hbelow), hbelow, Nat.sub_self]
  rfl

/-- Under its own number a store finds the tree that it holds. -/
theorem Holds.tree?_eq (h : s.Holds first above? t) :
    s.tree? (first + t.descendants.length) = some t := by
  rw [tree?, h.getElem?, Option.map_some]

/-- A store that holds a tree keeps the parent it has above it. -/
theorem Holds.parent?_eq (h : s.Holds first above? t) :
    s.parent? (first + t.descendants.length) = above? := by
  rw [parent?, h.getElem?, Option.bind_some]

/-- A store that holds a tree keeps the numbers of its children. -/
theorem Holds.childAt?_eq (h : s.Holds first above? t) (i : Nat) :
    s.childAt? (first + t.descendants.length) i = (numbersFrom first t.children)[i]? := by
  rw [childAt?, h.getElem?, Option.bind_some]

/-- The cells of one of some trees are among those of all of them, and its number among their
numbers. -/
theorem exists_cellsFromAll_eq (first : Nat) (above? : Option Nat) {i : Nat} {c : Tree}
    (hc : ts[i]? = some c) :
    ∃ before behind, cellsFromAll first above? ts =
        before ++ cellsFrom (first + before.length) above? c ++ behind ∧
      (numbersFrom first ts)[i]? = some (first + before.length + c.descendants.length) := by
  induction ts generalizing i first with
  | nil => cases hc
  | cons t ts ih =>
    cases i with
    | zero =>
      cases hc
      exact ⟨[], cellsFromAll (first + c.descendants.length + 1) above? ts, rfl, rfl⟩
    | succ i =>
      obtain ⟨before, behind, hcells, hnumber⟩ := ih (first + t.descendants.length + 1) hc
      have hlength : first + (cellsFrom first above? t ++ before).length =
          first + t.descendants.length + 1 + before.length := by
        rw [List.length_append, length_cellsFrom]
        omega
      refine ⟨cellsFrom first above? t ++ before, behind, ?_, ?_⟩
      · rw [cellsFromAll, hcells, hlength]
        simp only [List.append_assoc]
      · rw [numbersFrom, List.getElem?_cons_succ, hnumber, hlength]

/-- From a tree that is held one gets to its children by their numbers, and from them back to it. -/
theorem Holds.exists_child (h : s.Holds first above? t) {i : Nat} {c : Tree}
    (hc : t.childAt? i = some c) : ∃ below,
      s.childAt? (first + t.descendants.length) i = some (below + c.descendants.length) ∧
        s.Holds below (some (first + t.descendants.length)) c := by
  have hchild := h.childAt?_eq i
  obtain ⟨outside, behind, rfl, hcells⟩ := h
  obtain ⟨before, later, hbelow, hnumber⟩ := exists_cellsFromAll_eq outside.length
    (some (outside.length + t.descendants.length)) hc
  refine ⟨outside.length + before.length, hchild.trans hnumber, outside ++ before,
    later ++
      [{ tree := t, children := numbersFrom outside.length t.children, parent? := above? }] ++
      behind, List.length_append, ?_⟩
  rw [hcells, cellsFrom_eq, hbelow]
  simp only [List.append_assoc]

/-! ## Paths -/

/-- A path is followed along its first part and then along the rest. -/
theorem follow?_append (s : Store) (number : Nat) (path path' : Path) :
    s.follow? number (path ++ path') = (s.follow? number path).bind fun n => s.follow? n path' := by
  induction path generalizing number with
  | nil => rfl
  | cons i path ih =>
    rw [List.cons_append, follow?, follow?]
    cases s.childAt? number i with
    | none => rfl
    | some child => exact ih child

/-- A path leads in a store to what it leads to in the tree, with everything below it. -/
theorem Holds.follow? (h : s.Holds first above? t) (hu : t.at? path = some u) : ∃ below over?,
    s.follow? (first + t.descendants.length) path = some (below + u.descendants.length) ∧
      s.Holds below over? u := by
  induction path generalizing t first above? with
  | nil =>
    cases hu
    exact ⟨first, above?, rfl, h⟩
  | cons i path ih =>
    rw [Tree.at?_cons] at hu
    obtain ⟨c, hc, hu⟩ := Option.bind_eq_some_iff.mp hu
    obtain ⟨below, hchild, hholds⟩ := h.exists_child hc
    rw [Store.follow?, hchild, Option.bind_some]
    exact ih hholds hu

/-- There is a child in the store only where there is one in the tree. -/
theorem Holds.exists_childAt? (h : s.Holds first above? t) {i : Nat}
    (hchild : s.childAt? (first + t.descendants.length) i = some number) :
    ∃ c, t.childAt? i = some c := by
  rw [h.childAt?_eq] at hchild
  have hi := (List.getElem?_eq_some_iff.mp hchild).1
  rw [length_numbersFrom] at hi
  exact ⟨_, List.getElem?_eq_getElem hi⟩

/-- A path that leads to a number in a store leads to a tree in the tree. -/
theorem Holds.exists_at? (h : s.Holds first above? t)
    (hn : s.follow? (first + t.descendants.length) path = some number) :
    ∃ u, t.at? path = some u := by
  induction path generalizing t first above? with
  | nil => exact ⟨t, rfl⟩
  | cons i path ih =>
    obtain ⟨child, hchild, hn⟩ := Option.bind_eq_some_iff.mp hn
    obtain ⟨c, hc⟩ := h.exists_childAt? hchild
    obtain ⟨below, hchild', hholds⟩ := h.exists_child hc
    obtain rfl := Option.some.inj (hchild.symm.trans hchild')
    obtain ⟨u, hu⟩ := ih hholds hn
    exact ⟨u, by rw [Tree.at?_cons, ← Tree.childAt?, hc]; exact hu⟩

/-- The last step of a path leads to a child of the tree whose number is above its own. -/
theorem Holds.parent?_of_follow? (h : s.Holds first above? t) {i : Nat}
    (hn : s.follow? (first + t.descendants.length) (path ++ [i]) = some number) : ∃ below u over?,
      s.follow? (first + t.descendants.length) path = some (below + u.descendants.length) ∧
        s.Holds below over? u ∧ s.childAt? (below + u.descendants.length) i = some number ∧
          s.parent? number = some (below + u.descendants.length) := by
  rw [follow?_append] at hn
  obtain ⟨parent, hparent, hn⟩ := Option.bind_eq_some_iff.mp hn
  obtain ⟨u, hu⟩ := h.exists_at? hparent
  obtain ⟨below, over?, hfollow, hholds⟩ := h.follow? hu
  obtain rfl := Option.some.inj (hparent.symm.trans hfollow)
  obtain ⟨child, hchild, hnil⟩ := Option.bind_eq_some_iff.mp hn
  cases hnil
  obtain ⟨c, hc⟩ := hholds.exists_childAt? hchild
  obtain ⟨_, hchild', hbelow⟩ := hholds.exists_child hc
  obtain rfl := Option.some.inj (hchild.symm.trans hchild')
  exact ⟨below, u, over?, hparent, hholds, hchild, hbelow.parent?_eq⟩

/-- Of a tree with nothing above it no two paths lead to one number: the way back is the same. -/
theorem Holds.path_unique (h : s.Holds first none t)
    (hn : s.follow? (first + t.descendants.length) path = some number)
    (hn' : s.follow? (first + t.descendants.length) path' = some number) : path' = path := by
  have hroot : ∀ p i, s.follow? (first + t.descendants.length) (p ++ [i]) ≠
      some (first + t.descendants.length) := by
    intro p i hp
    obtain ⟨_, _, _, -, -, -, hparent⟩ := h.parent?_of_follow? hp
    rw [h.parent?_eq] at hparent
    cases hparent
  induction path using List.reverseRecOn generalizing path' number with
  | nil =>
    cases hn
    rcases List.eq_nil_or_concat' path' with rfl | ⟨p, i, rfl⟩
    · rfl
    · exact absurd hn' (hroot p i)
  | append_singleton path i ih =>
    rcases List.eq_nil_or_concat' path' with rfl | ⟨p, j, rfl⟩
    · cases hn'
      exact absurd hn (hroot path i)
    · obtain ⟨below, u, _, hfollow, hholds, hchild, hparent⟩ := h.parent?_of_follow? hn
      obtain ⟨below', u', _, hfollow', -, hchild', hparent'⟩ := h.parent?_of_follow? hn'
      have hsame := Option.some.inj (hparent'.symm.trans hparent)
      rw [hsame] at hfollow' hchild'
      obtain rfl := ih hfollow hfollow'
      -- the children of a tree have different numbers
      rw [hholds.childAt?_eq] at hchild hchild'
      have hnodup : (numbersFrom below u.children).Nodup :=
        (pairwise_numbersFrom below u.children).2.imp Nat.ne_of_lt
      have hi := (List.getElem?_eq_some_iff.mp hchild).1
      rw [(List.getElem?_inj hi hnodup).mp (hchild.trans hchild'.symm)]

/-- What is to be known of a tree at the end of a path and of its number. -/
structure Links (s : Store) (root number : Nat) (path : Path) (t : Tree) : Prop where
  /-- The path leads to the number, from the number of the whole tree on. -/
  follow?_eq : s.follow? root path = some number
  /-- No other path does. -/
  path_unique : ∀ path', s.follow? root path' = some number → path' = path
  /-- It is the number of the tree. -/
  tree?_eq : s.tree? number = some t
  /-- Above each of its children is this number. -/
  parent?_child : ∀ i c, t.childAt? i = some c → ∃ child,
    s.follow? root (path ++ [i]) = some child ∧ s.tree? child = some c ∧
      s.parent? child = some number

/-- Every path of a tree with nothing above it leads to a number, which is above those of the
children. -/
theorem Holds.links (h : s.Holds first none t) (hu : t.at? path = some u) :
    ∃ number, s.Links (first + t.descendants.length) number path u := by
  obtain ⟨below, over?, hfollow, hholds⟩ := h.follow? hu
  refine ⟨below + u.descendants.length, hfollow, fun path' => h.path_unique hfollow,
    hholds.tree?_eq,
    fun i c hc => ?_⟩
  obtain ⟨_, hchild, hbelow⟩ := hholds.exists_child hc
  refine ⟨_, ?_, hbelow.tree?_eq, hbelow.parent?_eq⟩
  rw [follow?_append, hfollow, Option.bind_some, Store.follow?, hchild]
  rfl

end Store

/-- Nothing is above a tree in a store of its own, and every path from it leads to a number of its
own, which is above those of the children. -/
theorem Tree.links_stored (t : Tree) :
    t.stored.2.tree? t.stored.1 = some t ∧ t.stored.2.parent? t.stored.1 = none ∧
      ∀ path u, t.at? path = some u → ∃ number, t.stored.2.Links t.stored.1 number path u := by
  have hholds := Store.holds_put {} t
  have hnumber : t.stored.1 = Store.next {} + t.descendants.length := (Store.put_eq {} t).1
  rw [hnumber]
  exact ⟨hholds.tree?_eq, hholds.parent?_eq, fun path u hu => hholds.links hu⟩

/-- The link of a number leads to where the path to it is without its last step. -/
theorem Tree.parent?_stored {t : Tree} {path : Path} {number : Nat}
    (hn : t.stored.2.follow? t.stored.1 path = some number) :
    t.stored.2.parent? number =
      (Tree.parentPath? path).bind (t.stored.2.follow? t.stored.1) := by
  have hholds := Store.holds_put {} t
  have hnumber : t.stored.1 = Store.next {} + t.descendants.length := (Store.put_eq {} t).1
  rw [hnumber] at hn ⊢
  rcases List.eq_nil_or_concat' path with rfl | ⟨path, i, rfl⟩
  · cases hn
    exact hholds.parent?_eq
  · obtain ⟨below, u, _, hfollow, -, -, hparent⟩ := hholds.parent?_of_follow? hn
    have hshorter : Tree.parentPath? (path ++ [i]) = some path := by simp [Tree.parentPath?]
    rw [hshorter, Option.bind_some]
    exact hparent.trans hfollow.symm

/-! ## The store of a builder -/

namespace Store

/-- More trees are stored behind those that were stored first. -/
theorem putAll_append (s : Store) (ts us : List Tree) :
    s.putAll (ts ++ us) =
      ((s.putAll ts).1 ++ ((s.putAll ts).2.putAll us).1, ((s.putAll ts).2.putAll us).2) := by
  induction ts generalizing s with
  | nil => rfl
  | cons t ts ih => rw [List.cons_append, putAll_cons, putAll_cons, ih, List.cons_append]

/-- The numbers of the first trees come first. -/
theorem putAll_take (s : Store) (ts : List Tree) (m : Nat) :
    (s.putAll ts).1.take m = (s.putAll (ts.take m)).1 ∧
      (s.putAll ts).1.drop m = ((s.putAll (ts.take m)).2.putAll (ts.drop m)).1 := by
  induction m generalizing s ts with
  | zero => exact ⟨rfl, rfl⟩
  | succ m ih =>
    cases ts with
    | nil => exact ⟨rfl, rfl⟩
    | cons t ts =>
      obtain ⟨htake, hdrop⟩ := ih (s.put t).2 ts
      rw [putAll_cons, List.take_succ_cons, List.drop_succ_cons, List.take_succ_cons,
        List.drop_succ_cons, putAll_cons, htake, hdrop]
      exact ⟨rfl, rfl⟩

/-- A node above some trees is made of them. -/
theorem put_above (s : Store) (k : Kind) (a : Anchor) (ts : List Tree) :
    s.put (.above k a ts) = (s.putAll ts).2.composite (.above k a ts) (s.putAll ts).1 := by
  cases ts <;> rfl

end Store

namespace Builder

/-- The pending trees of a builder in a store, with their numbers. -/
def stored (b : Builder) : List Nat × Store := Store.putAll {} b.pending.toList

/-- A token that is added to the row is made behind what has been made before. -/
theorem stored_token (b : Builder) (t : Token) :
    (b.token t).stored = (b.stored.1 ++ [(b.stored.2.token t).1], (b.stored.2.token t).2) := by
  rw [stored, token, Array.toList_push, Store.putAll_append]
  rfl

/-- A node that is closed is made behind what has been made before, and set above the trees that it
owns. -/
theorem stored_finishNode {b : Builder} {n : OpenNode} {outer : List OpenNode}
    (h : b.opened = n :: outer) :
    let closed := Tree.above n.kind b.anchor (b.pending.toList.drop n.first)
    let made := b.stored.2.composite closed (b.stored.1.drop n.first)
    b.finishNode.2.stored = (b.stored.1.take n.first ++ [made.1], made.2) := by
  intro closed made
  obtain ⟨hfirst, howned⟩ := Store.putAll_take {} b.pending.toList n.first
  have hstore : b.stored.2 = ((Store.putAll {} (b.pending.toList.take n.first)).2.putAll
      (b.pending.toList.drop n.first)).2 := by
    rw [stored, ← List.take_append_drop n.first b.pending.toList, Store.putAll_append,
      List.take_append_drop]
  have hmade : made = (Store.putAll {} (b.pending.toList.take n.first)).2.put closed := by
    rw [Store.put_above, ← hstore, ← howned]
    rfl
  rw [stored, pending_finishNode h, Store.putAll_append, hmade, ← hfirst]
  rfl

end Builder

end LosslessBasic
