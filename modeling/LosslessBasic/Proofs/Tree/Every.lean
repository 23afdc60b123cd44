import LosslessBasic.Proofs.Tree.Cover

/-!
# Rules for the nodes of a tree

A rule says something of a node by its kind, its children and the number of tokens in front of it.
Where it holds of every node of a tree (`Tree.Every`), it holds of the node at the end of each path,
with the number of tokens that stand in front of this node (`Tree.Every.at?`).
-/

namespace LosslessBasic.Tree

/-- What a rule says of a node with `n` tokens in front of it. -/
abbrev Rule := (n : Nat) → NodeKind → List Tree → Prop

mutual

/-- A rule holds of every node of a tree that has `n` tokens in front of it. -/
def Every (P : Rule) (n : Nat) : Tree → Prop
  | leaf _ => True
  | node k _ cs => (∀ l, k = .node l → P n l cs) ∧ EveryAll P n cs

/-- A rule holds of every node of some trees that have `n` tokens in front of them. -/
def EveryAll (P : Rule) (n : Nat) : List Tree → Prop
  | [] => True
  | t :: ts => t.Every P n ∧ EveryAll P (n + t.leaves.length) ts

end

/-- What is said of each of some trees with the number of tokens in front of it. -/
def Along (Q : Nat → Tree → Prop) (n : Nat) : List Tree → Prop
  | [] => True
  | t :: ts => Q n t ∧ Along Q (n + t.leaves.length) ts

/-- The number of tokens of a tree in front of what is at the end of a path. -/
def tokensBefore (t : Tree) : Path → Nat
  | [] => 0
  | i :: path =>
    (leavesAll (t.children.take i)).length +
      match t.childAt? i with
      | none => 0
      | some c => c.tokensBefore path

variable {P : Rule} {Q : Nat → Tree → Prop} {n : Nat}

/-- Two rows of trees are as they should be if each is so where it stands. -/
theorem along_append {ts us : List Tree} :
    Along Q n (ts ++ us) ↔ Along Q n ts ∧ Along Q (n + (leavesAll ts).length) us := by
  induction ts generalizing n with
  | nil => simp [Along, leavesAll]
  | cons t ts ih => simp [Along, leavesAll, ih, and_assoc, Nat.add_assoc]

/-- What holds of trees everywhere holds of them where they stand. -/
theorem along_of_forall {ts : List Tree} (h : ∀ t ∈ ts, ∀ m, Q m t) : Along Q n ts := by
  induction ts generalizing n with
  | nil => trivial
  | cons t ts ih => exact ⟨h t List.mem_cons_self n, ih fun u hu => h u (List.mem_cons_of_mem t hu)⟩

/-- What holds of trees where they stand holds in a weaker form. -/
theorem Along.mono {Q' : Nat → Tree → Prop} {ts : List Tree} (hQ : ∀ m t, Q m t → Q' m t)
    (h : Along Q n ts) : Along Q' n ts := by
  induction ts generalizing n with
  | nil => trivial
  | cons t ts ih => exact ⟨hQ n t h.1, ih h.2⟩

/-- What holds along a row holds of each of its trees where that stands. -/
theorem Along.getElem? {ts : List Tree} {i : Nat} {c : Tree} (h : Along Q n ts)
    (hc : ts[i]? = some c) :
    Q (n + (leavesAll (ts.take i)).length) c := by
  induction ts generalizing n i with
  | nil => simp at hc
  | cons t ts ih =>
    cases i with
    | zero =>
      obtain rfl : t = c := by simpa using hc
      simpa [leavesAll] using h.1
    | succ i =>
      have hrest := ih h.2 (by simpa using hc)
      rwa [Nat.add_assoc, ← List.length_append] at hrest

/-- A rule holds below some trees if it does below each where that stands. -/
theorem everyAll_iff {ts : List Tree} : EveryAll P n ts ↔ Along (fun m t => t.Every P m) n ts := by
  induction ts generalizing n with
  | nil => rfl
  | cons t ts ih => rw [EveryAll, Along, ih]

/-- A rule holds below two rows of trees if it does below each where that stands. -/
theorem everyAll_append {ts us : List Tree} :
    EveryAll P n (ts ++ us) ↔ EveryAll P n ts ∧ EveryAll P (n + (leavesAll ts).length) us := by
  simp only [everyAll_iff, along_append]

/-- A rule holds from a node on if it holds of it and below it. -/
theorem every_above_of {k : Kind} {a : Anchor} {ts : List Tree}
    (hnode : ∀ l, k = .node l → P n l ts)
    (hts : EveryAll P n ts) : (above k a ts).Every P n := by
  cases ts <;> exact ⟨hnode, hts⟩

/-- A rule holds from a node of a kind on if it holds of it and below it. -/
theorem every_above {k : NodeKind} {a : Anchor} {ts : List Tree} (hnode : P n k ts)
    (hts : EveryAll P n ts) : (above (.node k) a ts).Every P n := by
  refine every_above_of ?_ hts
  rintro l hl
  cases hl
  exact hnode

/-- A rule that does not ask for the place of a node holds of some trees when it does of each. -/
theorem everyAll_const {R : NodeKind → List Tree → Prop} {ts : List Tree}
    (h : ∀ t ∈ ts, ∀ m, t.Every (fun _ => R) m) : EveryAll (fun _ => R) n ts :=
  everyAll_iff.mpr (along_of_forall h)

/-- A rule that holds below some trees holds below each where that stands. -/
theorem EveryAll.getElem? {ts : List Tree} {i : Nat} {c : Tree} (h : EveryAll P n ts)
    (hc : ts[i]? = some c) : c.Every P (n + (leavesAll (ts.take i)).length) :=
  (everyAll_iff.mp h).getElem? hc

mutual

/-- What follows from a rule holds where the rule does. -/
theorem Every.mono {P P' : Rule} (hP : ∀ m k cs, P m k cs → P' m k cs) :
    {t : Tree} → {n : Nat} → t.Every P n → t.Every P' n
  | leaf _, _, _ => trivial
  | node _ _ _, _, h => ⟨fun l hl => hP _ _ _ (h.1 l hl), EveryAll.mono hP h.2⟩

/-- A rule holds below some trees in a weaker form. -/
theorem EveryAll.mono {P P' : Rule} (hP : ∀ m k cs, P m k cs → P' m k cs) :
    {ts : List Tree} → {n : Nat} → EveryAll P n ts → EveryAll P' n ts
  | [], _, _ => trivial
  | _ :: _, _, h => ⟨h.1.mono hP, h.2.mono hP⟩

end

/-- What holds of every node of a tree holds of every node below it. -/
theorem Every.at? {path : Path} {t m : Tree} (h : t.Every P n) (hm : t.at? path = some m) :
    m.Every P (n + t.tokensBefore path) := by
  induction path generalizing t n with
  | nil =>
    obtain rfl : t = m := Option.some.inj hm
    exact h
  | cons i path ih =>
    unfold Tree.at? at hm
    split at hm
    next => cases hm
    next c hc =>
      cases t with
      | leaf t => simp [childAt?, children] at hc
      | node k a cs =>
        have hchild := ih (EveryAll.getElem? h.2 hc) hm
        rw [tokensBefore, hc, ← Nat.add_assoc]
        exact hchild

/-- The tokens of some trees are those of the trees in front of one, its own, and those behind. -/
theorem leavesAll_eq_of_getElem? {ts : List Tree} {i : Nat} {c : Tree} (hc : ts[i]? = some c) :
    leavesAll ts = leavesAll (ts.take i) ++ (c.leaves ++ leavesAll (ts.drop (i + 1))) := by
  obtain ⟨hlt, rfl⟩ := List.getElem?_eq_some_iff.mp hc
  calc leavesAll ts = leavesAll (ts.take i ++ ts.drop i) := by rw [List.take_append_drop]
    _ = leavesAll (ts.take i) ++ leavesAll (ts.drop i) := leavesAll_append _ _
    _ = _ := by rw [List.drop_eq_getElem_cons hlt, leavesAll]

/-- The tokens of what is at the end of a path stand in the tree behind those in front of it. -/
theorem leaves_eq_of_at? {path : Path} {t m : Tree} (hm : t.at? path = some m) :
    ∃ before behind, t.leaves = before ++ (m.leaves ++ behind) ∧
      before.length = t.tokensBefore path := by
  induction path generalizing t with
  | nil =>
    obtain rfl : t = m := Option.some.inj hm
    exact ⟨[], [], by simp, rfl⟩
  | cons i path ih =>
    unfold Tree.at? at hm
    split at hm
    next => cases hm
    next c hc =>
      cases t with
      | leaf t => simp [childAt?, children] at hc
      | node k a cs =>
        have hchild : cs[i]? = some c := hc
        obtain ⟨before, behind, hleaves, hlength⟩ := ih hm
        refine ⟨leavesAll (cs.take i) ++ before, behind ++ leavesAll (cs.drop (i + 1)), ?_, ?_⟩
        · rw [leaves, leavesAll_eq_of_getElem? hchild, hleaves]
          simp
        · rw [tokensBefore, hc, List.length_append, hlength]
          rfl

end LosslessBasic.Tree
