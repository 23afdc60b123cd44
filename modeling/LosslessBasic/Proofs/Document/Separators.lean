import LosslessBasic.Proofs.Document.Dump
import LosslessBasic.Proofs.Document.Labels
import LosslessBasic.Proofs.Document.Layout
import LosslessBasic.Proofs.Document.Order

/-!
# Second colons

A colon directly behind another one separates no two statements. Whatever is wrong with a program,
each such colon is alone in a node of unknown meaning and reported by one failure
(`Document.second_colons_reported`). This does not hold of the lines of a `Select Case`, a `Type`,
an `Enum` or a form that are no lists of statements: their colons are taken as they come
(`Document.second_colon_of_select`).

## Main definitions

* `Tree.HasSecondColon`: a child of a node is a second colon;
* `Tree.ReportsColon`: a node is a colon that is reported;
* `NodeKind.takesColons`: which nodes take colons as they come.
-/

namespace LosslessBasic

namespace NodeKind

/-- The kinds of nodes that hold lines and take the colons between and in front of them as they
come. -/
@[reducible]
def takesColons : NodeKind → Bool
  | .selectCaseStatement | .typeStatement | .enumStatement | .propertiesBlock
  | .propertyAssignment => true
  | _ => false

/-- Which rule a node is under, as far as the colons among its own tokens go. -/
theorem takesColons_or (k : NodeKind) :
    k.takesColons = true ∨ k.isColonFree = true ∨ k.isFragment = true ∨
      (k = .root ∨ k = .statementList) ∨ k.isStatement = true ∧ k.hasBody = false := by
  cases k <;> simp

end NodeKind

theorem Kind.exists_of_isNode {k : Kind} (h : k.isNode = true) : ∃ l, k = .node l := by
  cases k with
  | node l => exact ⟨l, rfl⟩
  | _ => cases h

namespace Tree

/-- A child of a node is a colon that stands directly behind another one. -/
structure HasSecondColon (root : Tree) (path : Path) (n : Tree) (i : Nat) (t : Token) : Prop where
  /-- The node is at the end of the path. -/
  parent : root.at? path = some n
  child : n.childAt? i = some (.leaf t)
  kind : t.kind = .lexeme .colon
  /-- Nothing but blanks stands between the two colons. -/
  behind : BehindColon (root.leavesBefore (path ++ [i]))

/-- A node is a colon that is reported: a node of unknown meaning with nothing but the colon in
it. -/
structure ReportsColon (failures : List Failure) (n : Tree) (t : Token) : Prop where
  kind : n.kind = .node .unknown
  leaves : n.leaves = [t]
  /-- One failure of the code of stray separators is reported where the colon stands. -/
  failure : (failures.filter fun f => f.code = "B0005" ∧ f.span.offset = t.offset) =
    [.atToken .straySeparator t]

variable {root n : Tree} {path : Path} {i : Nat} {t marker : Token} {tokens : List Token}

/-- A second colon stands among lines that take colons as they come, or alone. -/
theorem HasSecondColon.takesColons_or_unknown (h : root.HasSecondColon path n i t)
    (htokens : tokens = root.leaves ++ [marker]) (hkinds : root.HasKinds)
    (hrule : root.Every (LineRule tokens) 0) (hlayout : root.HasStatementLayout) :
    (∃ k, n.kind = .node k ∧ k.takesColons = true) ∨ n.kind = .node .unknown ∧ n.leaves = [t] := by
  obtain ⟨hn, hc, hcolon, hbehind⟩ := h
  cases n with
  | leaf u => simp [childAt?, children] at hc
  | node k a cs =>
    have hchild : cs[i]? = some (.leaf t) := hc
    have hmem : Tree.leaf t ∈ cs := List.mem_of_getElem? hchild
    have hleaf : t ∈ (node k a cs).leaves := mem_leavesAll.mpr ⟨_, hmem, List.mem_singleton_self t⟩
    obtain ⟨l, rfl⟩ : ∃ l, k = .node l := Kind.exists_of_isNode (hkinds.at? hn).1
    have hevery := hrule.at? hn
    rw [Nat.zero_add] at hevery
    have hnode : LineRule tokens (root.tokensBefore path) l cs := hevery.1 l rfl
    -- where colons separate statements, this one is the first behind another word
    have hrefute (hrule : Along (ColonRule tokens) (root.tokensBefore path) cs) : False := by
      have hat : root.at? (path ++ [i]) = some (leaf t) := by
        rw [at?_append, hn, Option.bind_some, Tree.at?, hc]
        rfl
      have hfirst := hrule.getElem? hchild rfl hcolon
      rw [← tokensBefore_child hn hchild, htokens,
        List.take_append_of_le_length (tokensBefore_le hat)] at hfirst
      exact hfirst hbehind
    rcases l.takesColons_or with htakes | hfree | hfragment | hlist | ⟨hstatement, hbody⟩
    · exact .inl ⟨l, rfl, htakes⟩
    · exact absurd hcolon (hnode.colonFree hfree _ hmem rfl)
    · exact absurd hcolon (hlayout.parts hn rfl hfragment t hleaf).2.2
    · exact (hrefute ((hnode.items hlist).mono fun _ _ h => h.colon)).elim
    · rcases hlayout.colons hn rfl hstatement hbody t hleaf hcolon with rfl | ⟨rfl, halone⟩
      · exact (hrefute (hnode.label rfl).colons).elim
      · exact .inr ⟨rfl, halone⟩

end Tree

namespace Document

open Grammar

/-- Where a colon is all that stands in a node of unknown meaning, the grammar has reported it. -/
theorem every_reportRule (source : Bytes) (file : UInt32) (a : Anchor) :
    (Tree.above (.node .root) a
      (State.final (.ofTokens (Lexer.tokens source file))).builder.pending.toList).Every
        (Tree.reportRule (State.final (.ofTokens (Lexer.tokens source file))).failures.toList)
          0 := by
  obtain ⟨-, hplace, -⟩ := lists_tokens source file
  exact Tree.every_above nofun hplace.reported

/-- A token by itself is no stray separator. -/
theorem code_ne_of_mem_lexerFailures {tokens : List Token} {f : Failure}
    (h : f ∈ Lexer.failures tokens) :
    f.code ≠ "B0005" := by
  obtain ⟨t, -, ht⟩ := exists_of_mem_right (Lexer.forall₂_failures tokens) h
  rw [ht.code]
  split <;> decide

theorem code_eq_iff (f : Failure) : f.code = "B0005" ↔ f.problem.isNoColon = false := by
  unfold Failure.code
  cases f.problem <;> simp [Problem.code, Code.text]

variable {origin source : Bytes} {file : UInt32}

/-- The stray separators that are reported are tokens of the source, each of them once. -/
theorem exists_strays (hvalid : Utf8.firstInvalid? source = none) (origin : Bytes) (file : UInt32) :
    ∃ ts : List Token, ts.Sublist (State.final (.ofTokens (Lexer.tokens source file))).before ∧
      ((read origin source file).failures.filter fun f => f.code = "B0005") =
        ts.map (Failure.atToken .straySeparator) := by
  obtain ⟨-, hplace, -⟩ := lists_tokens source file
  obtain ⟨ts, hsublist, hstrays⟩ := hplace.strays
  refine ⟨ts, hsublist, ?_⟩
  rw [failures_of_valid hvalid, List.filter_append, ← hstrays, List.filter_eq_nil_iff.mpr,
    List.nil_append]
  · exact List.filter_congr fun f _ => by simp [code_eq_iff]
  · intro f hf
    simpa using code_ne_of_mem_lexerFailures hf

/-- A token that is reported as a stray separator is reported by no other failure of this code. -/
theorem filter_failures_eq (hvalid : Utf8.firstInvalid? source = none)
    (hsize : source.length < 2 ^ 32)
    {t : Token} (ht : t ∈ (State.final (.ofTokens (Lexer.tokens source file))).before)
    (hreported : Failure.atToken .straySeparator t ∈
      (State.final (.ofTokens (Lexer.tokens source file))).failures.toList) :
    ((read origin source file).failures.filter fun f => f.code = "B0005" ∧
      f.span.offset = t.offset) =
      [.atToken .straySeparator t] := by
  obtain ⟨q, htokens⟩ := tokens_eq_append_leaves source file
  obtain ⟨ts, hsublist, hstrays⟩ := exists_strays hvalid origin file
  have hoffsets := Lexer.nodup_offsets htokens hsize
  have hsame {u : Token} (hu : u ∈ ts) (hoffset : u.offset = t.offset) : u = t :=
    List.inj_on_of_nodup_map hoffsets (hsublist.subset hu) ht hoffset
  -- the token is one of those that are reported
  have hmem : t ∈ ts := by
    have hfilter : Failure.atToken .straySeparator t ∈
        (read origin source file).failures.filter fun f => f.code = "B0005" := by
      rw [failures_of_valid hvalid]
      exact List.mem_filter.mpr ⟨List.mem_append_right _ hreported, rfl⟩
    rw [hstrays] at hfilter
    obtain ⟨u, hu, hfailure⟩ := List.mem_map.mp hfilter
    exact hsame hu (congrArg (fun f => f.span.offset) hfailure) ▸ hu
  calc ((read origin source file).failures.filter fun f => f.code = "B0005" ∧
    f.span.offset = t.offset)
      = (ts.map (Failure.atToken .straySeparator)).filter fun f => f.span.offset = t.offset := by
        rw [← hstrays, List.filter_filter]
        exact List.filter_congr fun f _ => by rw [Bool.decide_and, Bool.and_comm]
    _ = (ts.filter (· = t)).map (Failure.atToken .straySeparator) := by
        rw [List.filter_map]
        refine congrArg _ (List.filter_congr fun u hu =>
          decide_eq_decide.mpr ⟨hsame hu, fun h => h ▸ rfl⟩)
    _ = [.atToken .straySeparator t] := by
        rw [List.filter_eq,
          List.count_eq_one_of_mem (.of_map _ (hoffsets.sublist (hsublist.map _))) hmem]
        rfl

/-- Whatever is wrong with a source, a second colon is alone in a node of unknown meaning, and one
failure reports it, unless it stands among lines that take colons as they come. -/
theorem second_colons_reported (origin source : Bytes) (file : UInt32)
    (hvalid : Utf8.firstInvalid? source = none) (hsize : source.length < 2 ^ 32) :
    ∃ d, (read origin source file).document? = some d ∧
      ∀ path n i t, d.root.HasSecondColon path n i t →
        (∃ k, n.kind = .node k ∧ k.takesColons = true) ∨
          n.ReportsColon (read origin source file).failures t := by
  obtain ⟨d, hread, hkinds, htokens⟩ := exists_document origin hvalid file
  obtain ⟨d', hread', -, hlayout⟩ := statement_layout origin source file hvalid
  obtain rfl : d = d' := Option.some.inj (hread.symm.trans hread')
  refine ⟨d, hread, fun path n i t h => ?_⟩
  rw [read_of_valid hvalid, document?_readText] at hread
  have hroot := congrArg Document.root (Option.some.inj hread)
  dsimp only at hroot
  have hrule :=
    every_lineRule source file (State.final (.ofTokens (Lexer.tokens source file))).builder.anchor
  have hreport :=
    every_reportRule source file (State.final (.ofTokens (Lexer.tokens source file))).builder.anchor
  rw [hroot] at hrule hreport
  rcases h.takesColons_or_unknown htokens hkinds hrule hlayout with htakes | ⟨hkind, hleaves⟩
  · exact .inl htakes
  refine .inr ⟨hkind, hleaves, filter_failures_eq hvalid hsize ?_ ?_⟩
  · have hmem := Tree.mem_leaves_of_at? h.parent (hleaves ▸ List.mem_singleton_self t)
    rwa [← hroot, Tree.leaves_above] at hmem
  · have hevery := hreport.at? h.parent
    cases n with
    | leaf u => exact absurd h.child (by simp [Tree.childAt?, Tree.children])
    | node k a cs => exact hevery.1 _ hkind rfl t hleaves h.kind

/-- Stray colons behind a colon of a list, of a single-line `If` and of a label, and in a `Type`. -/
theorem second_colons_reported_label :
    ∃ d, (read [] (Bytes.ofString "a: :b\nIf x Then y: _\n : z\nFoo::\nType T\n::\nEnd Type\n")
      1).document? =
        some d ∧
      ∀ path n i t, d.root.HasSecondColon path n i t →
        (∃ k, n.kind = .node k ∧ k.takesColons = true) ∨
          n.ReportsColon (read [] (Bytes.ofString
            "a: :b\nIf x Then y: _\n : z\nFoo::\nType T\n::\nEnd Type\n") 1).failures t :=
  second_colons_reported [] _ 1 (by decide +kernel) (by decide +kernel)

/-- In front of the first `Case` a second colon is not reported. -/
theorem second_colon_of_select :
    ∃ d n t, (read [] (Bytes.ofString "Select Case x\n::\nEnd Select\n") 1).document? = some d ∧
      d.root.HasSecondColon [0] n 7 t ∧
      ¬ n.ReportsColon (read [] (Bytes.ofString "Select Case x\n::\nEnd Select\n") 1).failures
        t := by
  have hfailures :
      (read [] (Bytes.ofString "Select Case x\n::\nEnd Select\n") 1).failures = [] := by
    decide +kernel
  have hplace :
      ((read [] (Bytes.ofString "Select Case x\n::\nEnd Select\n") 1).document?.bind fun d =>
      (d.root.at? [0]).bind fun n => (n.childAt? 7).map fun c =>
        (c, (lastWord? (d.root.leavesBefore [0, 7])).map Token.kind)) =
      some (.leaf
        { kind := .lexeme .colon, text := [Bytes.byte ':'], offset := 15,
          loc := { file := 1, line := 2, column := 2 } }, some (.lexeme .colon)) := by
    decide +kernel
  simp only [Option.bind_eq_some_iff, Option.map_eq_some_iff, Prod.mk.injEq] at hplace
  obtain ⟨d, hread, n, hn, c, hc, rfl, u, hu, hcolon⟩ := hplace
  refine ⟨d, n, _, hread, ⟨hn, hc, rfl, u, hu, hcolon⟩, fun h => ?_⟩
  have hfailure := h.failure
  rw [hfailures] at hfailure
  cases hfailure

end Document

end LosslessBasic
