import LosslessBasic.Tree.Dump
import LosslessBasic.Tree.Path
import LosslessBasic.Tree.Query
import Mathlib.Data.List.Forall2

/-!
# The paths and the queries of a tree

`Tree.paths` lists the places of a tree and of everything below it: the paths that lead to a tree
(`mem_paths`), each of them once and in pre-order, which is the lexicographic order
(`pairwise_paths`). An outline of the tree lists what is found at these paths (`forall₂_outline`).

Each deep query goes down a tree by a recursion of its own. All of them take the same walk: first
the tree itself, then its descendants, which are the trees at the ends of its paths
(`map_at?_paths`). What a query answers is read off this walk, by a filter on the kinds
(`findAll_eq`, `find?_eq`) or by the texts along it (`flatMap_tokenText`).

## Main results

* `Tree.queries_agree`: all queries of a tree in terms of its children and its descendants.
-/

namespace LosslessBasic.Tree

/-! ## Paths -/

mutual

/-- The paths of a tree and of everything below it, in pre-order. -/
def paths : Tree → List Path
  | leaf _ => [[]]
  | node _ _ cs => [] :: pathsAll 0 cs

/-- The same for some children of a node, the first of which has the index `index`. -/
def pathsAll (index : Nat) : List Tree → List Path
  | [] => []
  | t :: ts => t.paths.map (index :: ·) ++ pathsAll (index + 1) ts

end

/-- A path leads to a child first, and from there on. -/
theorem at?_cons (t : Tree) (i : Nat) (path : Path) :
    t.at? (i :: path) = t.children[i]?.bind fun c => c.at? path := by
  rw [Tree.at?, childAt?]
  cases t.children[i]? <;> rfl

mutual

/-- What is outlined is found at the paths, and a path is as long as the tree at its end is deep. -/
theorem forall₂_outline (depth : Nat) : (t : Tree) →
    List.Forall₂ (fun entry path => entry.1 = depth + path.length ∧ t.at? path = some entry.2)
      (t.outline depth) t.paths
  | leaf _ => .cons ⟨rfl, rfl⟩ .nil
  | node k a cs => by
    refine .cons ⟨rfl, rfl⟩ ((forall₂_outlineAll (depth + 1) 0 cs).imp ?_)
    rintro entry path ⟨i, below, rfl, hdepth, hat⟩
    refine ⟨by rw [hdepth, List.length_cons]; omega, ?_⟩
    rwa [at?_cons, Nat.zero_add]

/-- The outline of some trees lists them with the paths that lead to them. -/
theorem forall₂_outlineAll (depth index : Nat) : (ts : List Tree) →
    List.Forall₂ (fun entry path => ∃ i below, path = (index + i) :: below ∧
        entry.1 = depth + below.length ∧ (ts[i]?.bind fun c => c.at? below) = some entry.2)
      (outlineAll depth ts) (pathsAll index ts)
  | [] => .nil
  | t :: ts => by
    refine List.rel_append ?_ ?_
    · rw [List.forall₂_map_right_iff]
      refine (forall₂_outline depth t).imp ?_
      rintro entry path ⟨hdepth, hat⟩
      exact ⟨0, path, rfl, hdepth, hat⟩
    · refine (forall₂_outlineAll depth (index + 1) ts).imp ?_
      rintro entry path ⟨i, below, rfl, hdepth, hat⟩
      exact ⟨i + 1, below, by rw [Nat.add_right_comm, Nat.add_assoc], hdepth, hat⟩

end

mutual

/-- The paths of a tree are those that lead to something in it. -/
theorem mem_paths {path : Path} : {t : Tree} → (path ∈ t.paths ↔ (t.at? path).isSome = true)
  | leaf _ => by
    cases path with
    | nil => simp [paths, Tree.at?]
    | cons i path => simp [paths, at?_cons, children]
  | node _ _ cs => by
    cases path with
    | nil => simp [paths, Tree.at?]
    | cons i path =>
      rw [paths, List.mem_cons, mem_pathsAll, at?_cons, children]
      constructor
      · rintro (h | ⟨j, below, h, hbelow⟩)
        · cases h
        · obtain ⟨rfl, rfl⟩ := List.cons.inj h
          rwa [Nat.zero_add]
      · exact fun h => .inr ⟨i, path, by rw [Nat.zero_add], h⟩

/-- The paths of some trees are those that lead to something in one of them. -/
theorem mem_pathsAll {path : Path} {index : Nat} : {ts : List Tree} → (path ∈ pathsAll index ts ↔
    ∃ i below, path = (index + i) :: below ∧ (ts[i]?.bind fun c => c.at? below).isSome = true)
  | [] => by simp [pathsAll]
  | t :: ts => by
    rw [pathsAll, List.mem_append, List.mem_map, mem_pathsAll]
    constructor
    · rintro (⟨below, hbelow, rfl⟩ | ⟨i, below, rfl, hbelow⟩)
      · exact ⟨0, below, rfl, mem_paths.mp hbelow⟩
      · exact ⟨i + 1, below, by rw [Nat.add_right_comm, Nat.add_assoc], hbelow⟩
    · rintro ⟨i, below, rfl, hbelow⟩
      cases i with
      | zero => exact .inl ⟨below, mem_paths.mpr hbelow, rfl⟩
      | succ i => exact .inr ⟨i, below, by rw [Nat.add_right_comm, Nat.add_assoc], hbelow⟩

end

mutual

/-- A tree comes before what is below it, and siblings come from left to right. -/
theorem pairwise_paths : (t : Tree) → t.paths.Pairwise (· < ·)
  | leaf _ => List.pairwise_singleton _ _
  | node _ _ cs => by
    refine List.pairwise_cons.mpr ⟨fun path hpath => ?_, pairwise_pathsAll 0 cs⟩
    obtain ⟨i, below, rfl, -⟩ := mem_pathsAll.mp hpath
    exact List.nil_lt_cons _ _

/-- The paths of some trees are listed in order. -/
theorem pairwise_pathsAll (index : Nat) : (ts : List Tree) → (pathsAll index ts).Pairwise (· < ·)
  | [] => .nil
  | t :: ts => by
    refine List.pairwise_append.mpr ⟨?_, pairwise_pathsAll (index + 1) ts, ?_⟩
    · refine List.pairwise_map.mpr ((pairwise_paths t).imp fun hlt => ?_)
      exact List.cons_lt_cons_iff.mpr (.inr ⟨rfl, hlt⟩)
    · intro path hpath path' hpath'
      obtain ⟨below, -, rfl⟩ := List.mem_map.mp hpath
      obtain ⟨i, below', rfl, -⟩ := mem_pathsAll.mp hpath'
      exact List.cons_lt_cons_iff.mpr (.inl (by omega))

end

/-! ## The walk -/

mutual

/-- An outline without its depths is a tree and its descendants. -/
theorem map_snd_outline (depth : Nat) : (t : Tree) →
    (t.outline depth).map Prod.snd = t :: t.descendants
  | leaf _ => rfl
  | node k a cs => by simp [outline, descendants, map_snd_outlineAll (depth + 1) cs]

/-- The outline of some trees lists their descendants. -/
theorem map_snd_outlineAll (depth : Nat) : (ts : List Tree) →
    (outlineAll depth ts).map Prod.snd = descendantsAll ts
  | [] => rfl
  | t :: ts => by
    simp [outlineAll, descendantsAll, map_snd_outline depth t, map_snd_outlineAll depth ts]

end

/-- A tree and its descendants are what is at the ends of its paths. -/
theorem map_at?_paths (t : Tree) : t.paths.map t.at? = (t :: t.descendants).map some := by
  have houtline :
      List.Forall₂ (fun entry path => t.at? path = some entry.2) (t.outline 0) t.paths :=
    (forall₂_outline 0 t).imp fun _ _ h => h.2
  have hmap : (t.outline 0).map (fun entry => some entry.2) = t.paths.map t.at? := by
    rw [← List.forall₂_eq_eq_eq, List.forall₂_map_left_iff, List.forall₂_map_right_iff]
    exact houtline.imp fun _ _ h => h.symm
  rw [← hmap, ← map_snd_outline 0, List.map_map]
  rfl

/-- The path of the tree itself comes first. -/
theorem exists_paths_eq (t : Tree) : ∃ below, t.paths = [] :: below := by
  cases t with
  | leaf t => exact ⟨[], rfl⟩
  | node k a cs => exact ⟨pathsAll 0 cs, rfl⟩

/-- The descendants of a tree are what is at the ends of its paths other than its own, in
pre-order. -/
theorem exists_below_map_at? (t : Tree) :
    ∃ below : List Path, below.Pairwise (· < ·) ∧
      (∀ path, path ∈ below ↔ path ≠ [] ∧ (t.at? path).isSome = true) ∧
      below.map t.at? = t.descendants.map some := by
  obtain ⟨below, hpaths⟩ := t.exists_paths_eq
  have hpairwise := t.pairwise_paths
  rw [hpaths, List.pairwise_cons] at hpairwise
  obtain ⟨hnil, hbelow⟩ := hpairwise
  refine ⟨below, hbelow, ?_, ?_⟩
  · intro path
    rw [← mem_paths, hpaths, List.mem_cons]
    constructor
    · intro hpath
      refine ⟨?_, .inr hpath⟩
      rintro rfl
      -- a path below the tree itself comes behind the empty one
      exact absurd (hnil [] hpath) (List.lt_irrefl [])
    · rintro ⟨hne, rfl | hpath⟩
      · exact absurd rfl hne
      · exact hpath
  · have hmap := t.map_at?_paths
    rw [hpaths, List.map_cons, List.map_cons] at hmap
    exact (List.cons.inj hmap).2

/-! ## Searches -/

section

variable (k : Kind)

mutual

/-- All trees of a kind are those of the walk that are of this kind. -/
theorem findAll_eq : (t : Tree) → t.findAll k = (t :: t.descendants).filter fun n => n.kind == k
  | leaf t => by simp [findAll, descendants, List.filter_cons, kind]
  | node l a cs => by simp [findAll, descendants, List.filter_cons, kind, findAllIn_eq cs]

/-- All nodes of a kind that are found are the descendants of that kind. -/
theorem findAllIn_eq : (ts : List Tree) →
    findAllIn k ts = (descendantsAll ts).filter fun n => n.kind == k
  | [] => rfl
  | t :: ts => by
    rw [findAllIn, descendantsAll, ← List.cons_append, List.filter_append, findAll_eq t,
      findAllIn_eq ts]

end

mutual

/-- The search that stops at its first hit stops at the first tree of this kind along the walk. -/
theorem find?_eq : (t : Tree) → t.find? k = (t :: t.descendants).find? fun n => n.kind == k
  | leaf t => by
    rw [find?, descendants, List.find?_cons, kind]
    cases t.kind == k <;> simp
  | node l a cs => by
    rw [find?, descendants, List.find?_cons, kind, ← findIn?_eq cs]
    cases l == k <;> simp

/-- The first node of a kind that is found is the first such descendant. -/
theorem findIn?_eq : (ts : List Tree) →
    findIn? k ts = (descendantsAll ts).find? fun n => n.kind == k
  | [] => rfl
  | t :: ts => by
    rw [findIn?, descendantsAll, ← List.cons_append, List.find?_append, ← find?_eq t,
      ← findIn?_eq ts]
    cases t.find? k <;> rfl

end

/-- The first node of a kind is the first of all of them. -/
theorem find?_eq_head?_findAll (t : Tree) : t.find? k = (t.findAll k).head? := by
  rw [find?_eq, findAll_eq, List.head?_filter]

end

/-! ## Texts -/

mutual

/-- The text of a tree is made up of the texts of the tokens along the walk. -/
theorem flatMap_tokenText : (t : Tree) →
    ((t :: t.descendants).filter isToken).flatMap tokenText = t.text
  | leaf t => by simp [descendants, List.filter_cons, isToken, tokenText, text]
  | node k a cs => by simp [descendants, isToken, text, flatMap_tokenText_descendantsAll cs]

/-- The texts of the tokens among the descendants make up the text. -/
theorem flatMap_tokenText_descendantsAll : (ts : List Tree) →
    ((descendantsAll ts).filter isToken).flatMap tokenText = textAll ts
  | [] => rfl
  | t :: ts => by
    rw [descendantsAll, ← List.cons_append, List.filter_append, List.flatMap_append,
      flatMap_tokenText t, flatMap_tokenText_descendantsAll ts, textAll]

end

/-! ## All queries -/

/-- What the queries of a tree answer. The descendants are the trees at the ends of the paths other
than the empty one, each path once and in pre-order, which is the lexicographic order. The deep
searches see the tree itself and its descendants, the others its children. -/
theorem queries_agree (t : Tree) (k : Kind) :
    (∃ below : List Path, below.Pairwise (· < ·) ∧
      (∀ path, path ∈ below ↔ path ≠ [] ∧ (t.at? path).isSome = true) ∧
      below.map t.at? = t.descendants.map some) ∧
    t.findAll k = (t :: t.descendants).filter (fun n => n.kind == k) ∧
    t.find? k = (t.findAll k).head? ∧
    (t.containsKind k = true ↔ t.findAll k ≠ []) ∧
    t.childrenOfKind k = t.children.filter (fun c => c.kind == k) ∧
    t.firstChildOfKind? k = (t.childrenOfKind k).head? ∧
    t.significantChildren = t.children.filter (fun c => !(c.isToken && c.kind.isTrivia)) ∧
    t.text = ((t :: t.descendants).filter isToken).flatMap tokenText := by
  refine ⟨t.exists_below_map_at?, findAll_eq k t, find?_eq_head?_findAll k t, ?_, rfl, ?_, rfl,
    (flatMap_tokenText t).symm⟩
  · rw [containsKind, find?_eq_head?_findAll, List.isSome_head?]
  · rw [firstChildOfKind?, childrenOfKind, List.head?_filter]

end LosslessBasic.Tree
