import LosslessBasic.Proofs.Document.Cover
import LosslessBasic.Proofs.Grammar.Reference
import Mathlib.Data.Option.Basic

/-!
# What accesses refer to in a document

An access that starts with its sign refers to the header of the innermost `With` whose list of
statements it stands in, and no other tree refers to anything; an access is reported only where it
stands in no such list (`Document.implicit_with_targets`). The grammar notes these references while
it reads; `Grammar.referenceLaw` says that they are the ones that the finished tree tells.
-/

namespace LosslessBasic

namespace Tree

/-- An access that starts with its sign has that sign among its tokens. -/
theorem sign_mem_leaves {n : Tree} {sign : Token} (h : n.leadingSign? = some sign) :
    sign ∈ n.leaves ∧ Lookahead.isAccessSign sign.kind = true := by
  unfold leadingSign? at h
  split at h
  case h_3 => cases h
  all_goals
    split at h
    next hsign =>
      obtain rfl := Option.some.inj h
      exact ⟨by simp [leaves, leavesAll], hsign⟩
    next => cases h

/-- `t` is the header of the innermost `With` in whose list of statements the end of a path stands,
and an access that starts with its sign stands there. -/
def RefersTo (root : Tree) (path : Path) (t : Tree) : Prop :=
  ∃ n w, root.at? path = some n ∧ n.leadingSign?.isSome = true ∧
    root.innermostWith? none path = some w ∧ w.header? = some t

/-- Going through a tree finds what refers to a header. -/
theorem mem_references {root n t : Tree} :
    (n, t) ∈ references (root.accesses none) ↔
      ∃ path, root.at? path = some n ∧ root.RefersTo path t := by
  unfold references
  simp only [List.mem_filterMap, Option.map_eq_some_iff, Prod.exists, Prod.mk.injEq]
  constructor
  · rintro ⟨n', scope, hmem, t', hscope, rfl, rfl⟩
    obtain ⟨path, hn, hsign, hfound⟩ := (mem_accesses n' scope none root).mp hmem
    refine ⟨path, hn, n', ?_⟩
    rw [hfound] at hscope
    cases hw : root.innermostWith? none path with
    | none => simp [hw] at hscope
    | some w =>
      rw [hw] at hscope
      exact ⟨w, hn, hsign, rfl, by simpa using hscope⟩
  · rintro ⟨path, hn, n', w, hn', hsign, hw, ht⟩
    obtain rfl : n' = n := Option.some.inj (hn'.symm.trans hn)
    refine ⟨n', some (some t), (mem_accesses n' _ none root).mpr ⟨path, hn, hsign, ?_⟩, t,
      rfl, rfl, rfl⟩
    rw [hw, Option.map_some, ht]

end Tree

namespace Document

open Grammar

/-- The failures of tokens say nothing of accesses. -/
theorem isStray_of_mem_failures {tokens : List Token} {f : Failure}
    (h : f ∈ Lexer.failures tokens) :
    f.isStray = false := by
  obtain ⟨t, -, ht⟩ := List.mem_filterMap.mp h
  obtain ⟨problem, hproblem, rfl⟩ := Option.map_eq_some_iff.mp ht
  unfold Lexer.problem? at hproblem
  split at hproblem
  all_goals cases hproblem
  all_goals rfl

/-- An access that starts with its sign stands at one place of a source of less than 2^32 bytes. -/
theorem path_unique_of_leadingSign? {source : Bytes} {file : UInt32} {root n : Tree}
    {path path' : Path} (hcovers : root.Covers source 0 source.length)
    (hsize : source.length < 2 ^ 32) (hleaves : ∀ t ∈ root.leaves, t ∈ Lexer.tokens source file)
    (hn : root.at? path = some n) (hn' : root.at? path' = some n)
    (hsign : n.leadingSign?.isSome = true) : path = path' := by
  obtain ⟨sign, hsign⟩ := Option.isSome_iff_exists.mp hsign
  obtain ⟨hmem, hkind⟩ := Tree.sign_mem_leaves hsign
  have htext : sign.text ≠ [] := by
    have htoken := hleaves sign (Tree.mem_leaves_of_at? hn hmem)
    rw [Lexer.tokens_eq] at htoken
    refine Lexer.text_ne_nil_of_mem_tokensFrom htoken fun hend => ?_
    rw [hend] at hkind
    cases hkind
  refine hcovers.path_unique (Nat.le_refl _) hsize hn hn' fun hempty => htext ?_
  rw [Tree.text_eq, List.flatMap_eq_nil_iff] at hempty
  exact hempty sign hmem

/-- Where there is only one entry for a tree, looking the tree up finds it. -/
theorem find?_map_eq_some_iff {entries : List (Tree × Tree)} {n t : Tree}
    (hunique : ∀ t t', (n, t) ∈ entries → (n, t') ∈ entries → t = t') :
    (entries.find? fun p => p.1 = n).map (·.2) = some t ↔ (n, t) ∈ entries := by
  cases hfind : entries.find? fun p => p.1 = n with
  | none =>
    have hnone := List.find?_eq_none.mp hfind (n, t)
    simpa using hnone
  | some entry =>
    have hmem := List.mem_of_find?_eq_some hfind
    obtain rfl : entry.1 = n := by simpa using List.find?_some hfind
    constructor
    · intro h
      obtain rfl := Option.some.inj h
      exact hmem
    · intro h
      exact congrArg some (hunique _ _ hmem h)

/-- What is referred to is a child of a `With` in front of its list of statements; the access stands
in that list, and in that of no `With` further in. -/
theorem exists_with_of_refersTo {root t : Tree} {path : Path} (h : root.RefersTo path t) :
    ∃ before index after w body front rest, path = before ++ index :: after ∧
      root.at? before = some w ∧ w.kind = .node .withStatement ∧ w.childAt? index = some body ∧
      body.isStatementList = true ∧ body.innermostWith? none after = none ∧
      w.children = front ++ t :: rest ∧ ∀ c ∈ front ++ [t], c.isStatementList = false := by
  obtain ⟨n, w, hn, -, hw, ht⟩ := h
  obtain ⟨front, rest, hchildren⟩ := Tree.exists_children_of_header? ht
  rcases Tree.innermostWith?_cases hn hw with ⟨houter, -⟩ | ⟨before, index, after, body, hbody⟩
  · cases houter
  · exact ⟨before, index, after, w, body, front, rest, hbody.1, hbody.2.1, hbody.2.2.1,
      hbody.2.2.2.1, hbody.2.2.2.2.1, hbody.2.2.2.2.2, hchildren⟩

/-- An access that starts with its sign refers to the header of the innermost `With` whose list of
statements it stands in, a child in front of that list and the node that the expression behind the
word was read to; nothing else refers to anything. Only an access that stands in no such list is
reported. -/
theorem implicit_with_targets (origin source : Bytes) (file : UInt32)
    (hvalid : Utf8.firstInvalid? source = none) :
    ∃ d, (read origin source file).document? = some d ∧
      (∀ n t, (n, t) ∈ d.implicitTargets ↔
        ∃ path, d.root.at? path = some n ∧ d.root.RefersTo path t) ∧
      (source.length < 2 ^ 32 → ∀ path n t, d.root.at? path = some n →
        (d.implicitWithTarget? n = some t ↔ d.root.RefersTo path t)) ∧
      (∀ path t, d.root.RefersTo path t →
        ∃ before index after w body front rest, path = before ++ index :: after ∧
          d.root.at? before = some w ∧ w.kind = .node .withStatement ∧
          w.childAt? index = some body ∧ body.isStatementList = true ∧
          body.innermostWith? none after = none ∧ w.children = front ++ t :: rest ∧
          ∀ c ∈ front ++ [t], c.isStatementList = false) ∧
      (∀ depth s, s.InnermostInRow → ∃ w : Tree,
        ((withStatement (statementUpTo depth)).run s).2.builder.pending.toList =
          s.builder.pending.toList ++ [w] ∧ w.kind = .node .withStatement ∧
        w.header? = (expression.run (shift.run (s.opening .withStatement)).2).1) ∧
      ∀ f ∈ (read origin source file).failures, f.problem.code = .implicitMemberOutsideWith →
        ∃ path n sign, d.root.at? path = some n ∧ n.leadingSign? = some sign ∧
          d.root.innermostWith? none path = none ∧ f = .ofStray sign := by
  obtain ⟨htargets, hstrays⟩ := notes_final (.ofTokens (Lexer.tokens source file))
  have hcovers := covers_root source file
  obtain ⟨q, htokens⟩ := tokens_eq_append_leaves source file
  have hfailures : (read origin source file).failures =
      Lexer.failures (Lexer.tokens source file) ++
        (State.final (.ofTokens (Lexer.tokens source file))).failures.toList := by
    rw [read, hvalid]
    rfl
  refine ⟨_, by rw [read, hvalid, document?_readText], ?_⟩
  rw [hfailures]
  dsimp only at hcovers ⊢
  -- from here on only what the tree and the notes of the final state say of each other matters
  generalize State.final (.ofTokens (Lexer.tokens source file)) = final at *
  generalize hroot : Tree.above (.node .root) final.builder.anchor final.builder.pending.toList =
    root
    at *
  have hleaves : ∀ t ∈ root.leaves, t ∈ Lexer.tokens source file := by
    intro t ht
    rw [htokens, ← Tree.leaves_above, hroot]
    exact List.mem_append_left _ ht
  have hrefers (n t : Tree) : (n, t) ∈ final.implicitTargets.toList ↔
      ∃ path, root.at? path = some n ∧ root.RefersTo path t := by
    rw [htargets]
    exact Tree.mem_references
  refine ⟨hrefers, ?_, fun path t => exists_with_of_refersTo, ?_, ?_⟩
  · intro hsize path n t hn
    -- an access with a sign in front is met at a single path, as its sign is a single token
    have hpath {path' : Path} {t' : Tree} (hn' : root.at? path' = some n)
        (h : root.RefersTo path' t') : path' = path := by
      obtain ⟨m, w, hm, hsign, -⟩ := h
      obtain rfl : m = n := Option.some.inj (hm.symm.trans hn')
      exact path_unique_of_leadingSign? hcovers hsize hleaves hn' hn hsign
    unfold implicitWithTarget?
    rw [find?_map_eq_some_iff, hrefers]
    · constructor
      · rintro ⟨path', hn', h⟩
        rwa [← hpath hn' h]
      · exact fun h => ⟨path, hn, h⟩
    · -- both headers are the one of the innermost `With` around the only place
      intro t₁ t₂ h₁ h₂
      obtain ⟨path₁, hn₁, hrefers₁⟩ := (hrefers n t₁).mp h₁
      obtain ⟨path₂, hn₂, hrefers₂⟩ := (hrefers n t₂).mp h₂
      obtain rfl := hpath hn₁ hrefers₁
      obtain rfl := hpath hn₂ hrefers₂
      obtain ⟨-, w₁, -, -, hw₁, ht₁⟩ := hrefers₁
      obtain ⟨-, w₂, -, -, hw₂, ht₂⟩ := hrefers₂
      obtain rfl : w₁ = w₂ := Option.some.inj (hw₁.symm.trans hw₂)
      exact Option.some.inj (ht₁.symm.trans ht₂)
  · intro depth s hs
    obtain ⟨w, hkind, hheader, hholds⟩ := holds_withStatement (statementUpTo depth) hs
    exact ⟨w, hholds.1.pending, hkind, hheader⟩
  · intro f hf hcode
    have hstray : f.isStray = true := by rw [Failure.isStray, hcode]; rfl
    rcases List.mem_append.mp hf with hf | hf
    · rw [isStray_of_mem_failures hf] at hstray
      cases hstray
    · have hmem := hstrays.subset (List.mem_filter.mpr ⟨hf, hstray⟩)
      obtain ⟨sign, hsign, rfl⟩ := List.mem_map.mp hmem
      obtain ⟨entry, hentry, hfound⟩ := List.mem_filterMap.mp hsign
      split at hfound
      next hnone =>
        obtain ⟨path, hn, -, hwith⟩ := (Tree.mem_accesses entry.1 entry.2 none root).mp hentry
        refine ⟨path, entry.1, sign, hn, hfound, ?_, rfl⟩
        rw [hnone] at hwith
        simpa using hwith.symm
      next => cases hfound

/-- The header of an inner `With` refers to the outer header, and an access in the inner body to the
inner one. -/
theorem implicit_with_targets_nested :
    ∃ d outer inner access, (read [] (Bytes.ofString
        "With .a\nWith .b\n.c = 1\nEnd With\nEnd With") 0).document? = some d ∧
      d.root.at? [0, 2] = some outer ∧ d.root.at? [0, 4, 0, 2] = some inner ∧
      d.root.at? [0, 4, 0, 4, 0, 0] = some access ∧ d.implicitWithTarget? inner = some outer ∧
      d.implicitWithTarget? access = some inner ∧ d.root.RefersTo [0, 4, 0, 2] outer ∧
      d.root.RefersTo [0, 4, 0, 4, 0, 0] inner := by
  generalize hsource : Bytes.ofString "With .a\nWith .b\n.c = 1\nEnd With\nEnd With" = source
  have hvalid : Utf8.firstInvalid? source = none := by rw [← hsource]; decide +kernel
  have hsize : source.length < 2 ^ 32 := by rw [← hsource]; decide +kernel
  have hrun : ((read [] source 0).document?.bind fun d => do
      let outer ← d.root.at? [0, 2]
      let inner ← d.root.at? [0, 4, 0, 2]
      let access ← d.root.at? [0, 4, 0, 4, 0, 0]
      guard (d.implicitWithTarget? inner = some outer ∧ d.implicitWithTarget? access =
        some inner)) =
      some () := by
    rw [← hsource]
    decide +kernel
  obtain ⟨d, hd, -, hlookup, -⟩ := implicit_with_targets [] source 0 hvalid
  rw [hd] at hrun ⊢
  simp only [Option.bind_some, Option.bind_eq_bind, Option.bind_eq_some_iff, guard] at hrun
  obtain ⟨outer, houter, inner, hinner, access, haccess, htargets⟩ := hrun
  split at htargets
  next h =>
    exact ⟨d, outer, inner, access, rfl, houter, hinner, haccess, h.1, h.2,
      (hlookup hsize _ _ _ hinner).mp h.1, (hlookup hsize _ _ _ haccess).mp h.2⟩
  next => cases htargets

end Document

end LosslessBasic
