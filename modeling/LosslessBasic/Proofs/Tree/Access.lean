import LosslessBasic.Grammar.Lookahead
import LosslessBasic.Tree.Path
import Mathlib.Tactic.SplitIfs

/-!
# Accesses that start with their sign

An access such as `.Value`, without anything in front of its sign, refers to the header of a `With`.
Which one shows in the tree: the innermost `With` whose list of statements the access stands in
(`Tree.innermostWith?`), and there the node that its header was read to (`Tree.header?`).

`Tree.accesses` goes through a tree and lists these accesses, each with what it refers to. It finds
the same by going down the tree that `Tree.innermostWith?` finds along a path (`Tree.mem_accesses`).
-/

namespace LosslessBasic.Tree

/-- Whether a tree is a list of statements. -/
def isStatementList : Tree → Bool
  | node (.node .statementList) _ _ => true
  | _ => false

/-- Whether a tree can be what an expression was read to: a node, and one of unknown meaning only
for a token that was reported when it was read. -/
def isOperand : Tree → Bool
  | node (.node .statementList) _ _ => false
  | node (.node .unknown) _ (leaf t :: _) => t.kind.isLexicalError
  | node (.node .unknown) _ _ => false
  | node .. => true
  | leaf _ => false

/-- The node that the header of a `With` was read to, when it was read to any: what is left over of
its line is of unknown meaning. -/
def header? (n : Tree) : Option Tree :=
  (n.children.takeWhile fun c => !c.isStatementList).find? isOperand

/-- The sign of an access that starts with it. -/
def leadingSign? : Tree → Option Token
  | node (.node .memberAccessExpression) _ (leaf t :: _)
  | node (.node .dictionaryAccessExpression) _ (leaf t :: _) =>
    if Lookahead.isAccessSign t.kind then some t else none
  | _ => none

/-- Where `outer` is the innermost `With` around a node, the innermost one around its child. -/
def withAround (outer : Option Tree) (n child : Tree) : Option Tree :=
  if n.kind == .node .withStatement && child.isStatementList then some n else outer

/-- The innermost `With` in whose list of statements the tree at the end of a path stands; `outer`
where there is none. -/
def innermostWith? (outer : Option Tree) : Tree → Path → Option Tree
  | _, [] => outer
  | n, index :: path =>
    match n.childAt? index with
    | none => none
    | some c => c.innermostWith? (withAround outer n c) path

mutual

/-- The accesses at and below a tree that start with their sign, in the order in which they end.
Each comes with the innermost header around it, where there is a `With` around it; that has no
header where none could be read. -/
def accesses (scope : Option (Option Tree)) : Tree → List (Tree × Option (Option Tree))
  | leaf _ => []
  | node k a cs =>
    accessesAll scope (if k == .node .withStatement then some (node k a cs).header? else
      scope) cs ++
      ((node k a cs).leadingSign?.map fun _ => (node k a cs, scope)).toList

/-- The same for some trees, where the lists of statements among them are in a scope of their
own. -/
def accessesAll (scope body : Option (Option Tree)) : List Tree → List (Tree × Option (Option Tree))
  | [] => []
  | t :: ts =>
    t.accesses (if t.isStatementList then body else scope) ++ accessesAll scope body ts

end

/-- Accesses with the header that each of them refers to, without those that refer to none. -/
def references (found : List (Tree × Option (Option Tree))) : List (Tree × Tree) :=
  found.filterMap fun entry => entry.2.join.map fun header => (entry.1, header)

/-- The signs of the accesses that stand outside of every `With`. -/
def strays (found : List (Tree × Option (Option Tree))) : List Token :=
  found.filterMap fun entry => if entry.2 = none then entry.1.leadingSign? else none

section

variable {scope body : Option (Option Tree)}

@[simp]
theorem accessesAll_append (ts us : List Tree) :
    accessesAll scope body (ts ++ us) = accessesAll scope body ts ++ accessesAll scope body us := by
  induction ts with
  | nil => rfl
  | cons t ts ih => simp [accessesAll, ih]

/-- The header of a `With` is the node in front of its list of statements that an expression was
read to. -/
theorem header?_eq {k : Kind} {a : Anchor} {front behind rest : List Tree} {header : Option Tree}
    {body : Tree} (hfront : ∀ n ∈ front, n.isOperand = false)
    (hheader : ∀ n ∈ header, n.isOperand = true)
    (hbehind : header = none → ∀ n ∈ behind, n.isOperand = false)
    (hlist : ∀ n ∈ front ++ header.toList ++ behind, n.isStatementList = false)
    (hbody : body.isStatementList = true) :
    (node k a (front ++ header.toList ++ behind ++ body :: rest)).header? = header := by
  have htake : (front ++ header.toList ++ behind ++ body :: rest).takeWhile
      (fun c => !c.isStatementList) = front ++ header.toList ++ behind := by
    rw [List.takeWhile_append_of_pos (by simpa using hlist), List.takeWhile_cons_of_neg (by simpa),
      List.append_nil]
  have hfind : front.find? isOperand = none := List.find?_eq_none.mpr (by simpa using hfront)
  unfold header?
  rw [children, htake, List.find?_append, List.find?_append, hfind]
  cases header with
  | none =>
    have hnone : behind.find? isOperand = none :=
      List.find?_eq_none.mpr (by simpa using hbehind rfl)
    simp [hnone]
  | some header => simp [hheader header rfl]

/-- Where there is no list of statements, its scope does not matter. -/
theorem accessesAll_eq {ts : List Tree} (h : ∀ t ∈ ts, t.isStatementList = false) :
    accessesAll scope body ts = accessesAll scope scope ts := by
  induction ts with
  | nil => rfl
  | cons t ts ih =>
    obtain ⟨ht, hts⟩ := List.forall_mem_cons.mp h
    simp [accessesAll, ht, ih hts]

theorem mem_accessesAll {ts : List Tree} {entry : Tree × Option (Option Tree)} :
    entry ∈ accessesAll scope body ts ↔
      ∃ (i : Nat) (t : Tree), ts[i]? = some t ∧
        entry ∈ t.accesses (if t.isStatementList then body else scope) := by
  induction ts with
  | nil => simp [accessesAll]
  | cons t ts ih =>
    simp only [accessesAll, List.mem_append, ih]
    constructor
    · rintro (h | ⟨i, u, hu, h⟩)
      · exact ⟨0, t, rfl, h⟩
      · exact ⟨i + 1, u, hu, h⟩
    · rintro ⟨i, u, hu, h⟩
      cases i with
      | zero =>
        obtain rfl : t = u := by simpa using hu
        exact .inl h
      | succ i => exact .inr ⟨i, u, by simpa using hu, h⟩

/-- The node on top is an access that starts with its sign, or the access is below a child. -/
theorem mem_accesses_node {k : Kind} {a : Anchor} {cs : List Tree} {outer : Option Tree}
    {entry : Tree × Option (Option Tree)} :
    entry ∈ (node k a cs).accesses (outer.map header?) ↔
      (entry = (node k a cs, outer.map header?) ∧ (node k a cs).leadingSign?.isSome = true) ∨
        ∃ (i : Nat) (c : Tree), cs[i]? = some c ∧
          entry ∈ c.accesses ((withAround outer (node k a cs) c).map header?) := by
  have hscope (c : Tree) : (if c.isStatementList then
        if k == .node .withStatement then some (node k a cs).header? else outer.map header?
      else outer.map header?) = (withAround outer (node k a cs) c).map header? := by
    unfold withAround
    simp only [kind, Bool.and_eq_true]
    split_ifs <;> first | rfl | simp_all
  have hself : entry ∈ ((node k a cs).leadingSign?.map fun _ =>
      (node k a cs, outer.map header?)).toList ↔
      entry = (node k a cs, outer.map header?) ∧ (node k a cs).leadingSign?.isSome = true := by
    cases (node k a cs).leadingSign? <;> simp
  rw [accesses, List.mem_append, mem_accessesAll, hself, or_comm]
  simp only [hscope]

mutual

/-- Going through a tree finds the accesses that are at the ends of its paths, with the header of
the innermost `With` around each of them. -/
theorem mem_accesses (n : Tree) (found : Option (Option Tree)) (outer : Option Tree) : (t : Tree) →
    ((n, found) ∈ t.accesses (outer.map header?) ↔ ∃ path, t.at? path = some n ∧
      n.leadingSign?.isSome = true ∧ found = (t.innermostWith? outer path).map header?)
  | leaf u => by
    constructor
    · intro h
      simp [accesses] at h
    · rintro ⟨path, hn, hsign, -⟩
      cases path with
      | nil =>
        obtain rfl : leaf u = n := Option.some.inj hn
        cases hsign
      | cons i path => simp [at?, childAt?, children] at hn
  -- an access is the node itself, or it is below a child, where the innermost `With` is told by
  -- that child
  | node k a cs => by
    rw [mem_accesses_node]
    constructor
    · rintro (⟨hentry, hsign⟩ | ⟨i, c, hc, h⟩)
      · obtain ⟨rfl, rfl⟩ := Prod.mk.inj hentry
        exact ⟨[], rfl, hsign, rfl⟩
      · obtain ⟨path, hpath, hsign, hfound⟩ := (mem_accessesIn n found _ cs i c hc).mp h
        exact ⟨i :: path, by simpa [at?, childAt?, children, hc] using hpath, hsign,
          by simpa [innermostWith?, childAt?, children, hc] using hfound⟩
    · rintro ⟨path, hn, hsign, hfound⟩
      cases path with
      | nil =>
        obtain rfl : node k a cs = n := Option.some.inj hn
        exact .inl ⟨by rw [hfound]; rfl, hsign⟩
      | cons i path =>
        rw [at?] at hn
        rw [innermostWith?] at hfound
        cases hc : (node k a cs).childAt? i with
        | none => simp [hc] at hn
        | some c =>
          rw [hc] at hn hfound
          exact .inr ⟨i, c, hc, (mem_accessesIn n found _ cs i c hc).mpr ⟨path, hn, hsign, hfound⟩⟩

/-- The same for the trees of a list. -/
theorem mem_accessesIn (n : Tree) (found : Option (Option Tree)) (outer : Option Tree) :
    (ts : List Tree) → (i : Nat) → (t : Tree) → ts[i]? = some t →
    ((n, found) ∈ t.accesses (outer.map header?) ↔ ∃ path, t.at? path = some n ∧
      n.leadingSign?.isSome = true ∧ found = (t.innermostWith? outer path).map header?)
  | u :: us, 0, t, h => by
    obtain rfl : u = t := by simpa using h
    exact mem_accesses n found outer u
  | _ :: us, i + 1, t, h => mem_accessesIn n found outer us i t (by simpa using h)

end

/-- The header of a `With` is a child that stands in front of its list of statements. -/
theorem exists_children_of_header? {n header : Tree} (h : n.header? = some header) :
    ∃ front rest, n.children = front ++ header :: rest ∧
      ∀ c ∈ front ++ [header], c.isStatementList = false := by
  obtain ⟨-, front, rest, htake, -⟩ := List.find?_eq_some_iff_append.mp h
  have hchildren :=
    List.takeWhile_append_dropWhile (p := fun c => !isStatementList c) (l := n.children)
  have hall := List.all_takeWhile (p := fun c => !isStatementList c) (l := n.children)
  rw [htake] at hchildren hall
  refine ⟨front, rest ++ n.children.dropWhile fun c => !isStatementList c,
    by simpa using hchildren.symm,
    fun c hc => ?_⟩
  have hmem : c ∈ front ++ header :: rest := by
    rw [List.append_cons]
    exact List.mem_append_left _ hc
  simpa using List.all_eq_true.mp hall c hmem

/-- The innermost `With` around the end of a path is the one outside, or it stands on the path and
the path goes on through its list of statements. Further down there is none. -/
theorem innermostWith?_cases {t n w : Tree} {outer : Option Tree} {path : Path}
    (hn : t.at? path = some n) (h : t.innermostWith? outer path = some w) :
    (outer = some w ∧ t.innermostWith? none path = none) ∨
      ∃ before index after body, path = before ++ index :: after ∧ t.at? before = some w ∧
        w.kind = .node .withStatement ∧ w.childAt? index = some body ∧
        body.isStatementList = true ∧ body.innermostWith? none after = none := by
  induction path generalizing t outer with
  | nil => exact .inl ⟨h, rfl⟩
  | cons i path ih =>
    rw [at?] at hn
    rw [innermostWith?] at h
    split at hn
    next => cases hn
    next c hc =>
      rw [hc] at h
      rcases ih hn h with ⟨haround, hnone⟩ | ⟨before, index, after, body, rfl, hbefore, hw⟩
      · unfold withAround at haround
        split at haround
        next hbody =>
          obtain rfl : t = w := Option.some.inj haround
          rw [Bool.and_eq_true, beq_iff_eq] at hbody
          exact .inr ⟨[], i, path, c, rfl, rfl, hbody.1, hc, hbody.2, hnone⟩
        next hbody =>
          refine .inl ⟨haround, ?_⟩
          rw [innermostWith?, hc]
          dsimp only
          rwa [withAround, if_neg hbody]
      · exact .inr ⟨i :: before, index, after, body, rfl, by rw [at?, hc]; exact hbefore, hw⟩

end

end LosslessBasic.Tree
