import LosslessBasic.Proofs.Document.Append
import LosslessBasic.Proofs.Program.Procedure

/-!
# Well-formed programs are accepted

A well-formed program is read without a failure, however deep its blocks are nested, and the nesting
of the nodes in its tree is that of its blocks (`Document.nesting_wellFormed`).
-/

namespace LosslessBasic

open Program

/-! ## Plain texts -/

/-- What nothing is wrong with before the grammar: a text that is UTF-8 and whose tokens have no
failures by themselves, whatever is behind it. -/
structure Bytes.IsPlain (text : Bytes) : Prop where
  valid : Utf8.firstInvalid? text = none
  failures : ∀ file p more, ∃ q, Lexer.failures (Lexer.tokensFrom file 0 p (text ++ more)) =
    Lexer.failures (Lexer.tokensFrom file 0 q more)

namespace Bytes.IsPlain

variable {text more : Bytes}

/-- An empty text is plain. -/
theorem nil : IsPlain [] := ⟨rfl, fun _ p _ => ⟨p, rfl⟩⟩

/-- Two plain texts are plain together. -/
theorem append (h : IsPlain text) (h' : IsPlain more) : IsPlain (text ++ more) := by
  refine ⟨Utf8.firstInvalid?_append h.valid h'.valid, fun file p rest => ?_⟩
  obtain ⟨q, hq⟩ := h.failures file p (more ++ rest)
  obtain ⟨q', hq'⟩ := h'.failures file q rest
  exact ⟨q', by rw [List.append_assoc, hq, hq']⟩

end Bytes.IsPlain

/-- Whether a kind of token is no failure by itself. -/
def Kind.isPlain : Kind → Bool
  | .lexeme .unterminatedString | .lexeme .unknownCharacter => false
  | _ => true

/-- Plain tokens have nothing wrong with them. -/
theorem Lexer.failures_eq_nil {tokens : List Token}
    (h : ∀ k ∈ tokens.map Token.kind, k.isPlain = true) :
    Lexer.failures tokens = [] := by
  refine List.filterMap_eq_nil_iff.mpr fun t ht => ?_
  have hplain := h t.kind (List.mem_map_of_mem ht)
  unfold Lexer.problem?
  split
  next hkind => simp [hkind, Kind.isPlain] at hplain
  next hkind => simp [hkind, Kind.isPlain] at hplain
  next => rfl

/-- A line is plain when its words are. -/
theorem Program.Margin.isPlain_line (m : Margin) {words : String} {kinds : List Kind}
    (hspells : Lexer.Spells words kinds) (hascii : (Bytes.ofString words).all (· < 0x80) = true)
    (hkinds : ∀ k ∈ kinds, k.isPlain = true) : (m.line words).IsPlain := by
  refine ⟨Utf8.firstInvalid?_of_ascii fun c hc => ?_, fun file p more => ?_⟩
  · rcases List.mem_append.mp hc with hc | hc
    · have hblank : c = Bytes.byte ' ' ∨ c = Bytes.tab ∨ c = 0x0C ∨ c = 0x0B := by
        simpa [Ascii.isBlank, or_assoc] using m.blank c hc
      obtain rfl | rfl | rfl | rfl := hblank <;> decide
    · rcases List.mem_append.mp hc with hc | hc
      · simpa using List.all_eq_true.mp hascii c hc
      · have hending : m.ending.text.all (· < 0x80) = true := by cases m.ending <;> rfl
        simpa using List.all_eq_true.mp hending c hc
  · obtain ⟨blanks, line, q, htokens, hblanks, hline⟩ :=
      Lexer.exists_tokensFrom_line hspells m file p more
    refine ⟨q, ?_⟩
    rw [htokens, Lexer.failures_append, Lexer.failures_append, Lexer.failures_eq_nil,
      Lexer.failures_eq_nil]
    · rfl
    · intro k hk
      rw [hline] at hk
      rcases List.mem_append.mp hk with hk | hk
      · exact hkinds k hk
      · obtain rfl := List.mem_singleton.mp hk
        rfl
    · intro k hk
      obtain ⟨t, ht, rfl⟩ := List.mem_map.mp hk
      rw [hblanks t ht]
      rfl

namespace Program

theorem Margin.isPlain_simple (m : Margin) (statement : Simple) :
    (m.line statement.words).IsPlain :=
  m.isPlain_line (spells_simple statement) (by cases statement <;> decide)
    (by cases statement <;> decide)

theorem Margin.isPlain_opening (m : Margin) (form : Form) : (m.line form.opening).IsPlain :=
  m.isPlain_line form.spells_opening (by cases form <;> decide) (by cases form <;> decide)

theorem Margin.isPlain_closing (m : Margin) (form : Form) : (m.line form.closing).IsPlain :=
  m.isPlain_line form.spells_closing (by cases form <;> decide) (by cases form <;> decide)

theorem Margin.isPlain_test (m : Margin) (test : Test) : (m.line test.words).IsPlain :=
  m.isPlain_line (spells_test test) (by cases test <;> decide) (by cases test <;> decide)

mutual

theorem Lines.isPlain {w : Bool} (body : Lines w) : body.text.IsPlain := by
  match body with
  | .nil => exact .nil
  | .simple m statement rest => exact (m.isPlain_simple statement).append rest.isPlain
  | .member m rest =>
    exact (m.isPlain_line spells_member (by decide) (by decide)).append rest.isPlain
  | .block head form body foot rest =>
    exact (head.isPlain_opening form).append
      (body.isPlain.append ((foot.isPlain_closing form).append rest.isPlain))
  | .if_ head body arms foot rest =>
    exact (head.isPlain_line spells_if (by decide) (by decide)).append
      (body.isPlain.append (arms.isPlain.append
        ((foot.isPlain_line spells_endIf (by decide) (by decide)).append rest.isPlain)))
  | .select head clauses foot rest =>
    exact (head.isPlain_line spells_select (by decide) (by decide)).append
      (clauses.isPlain.append
        ((foot.isPlain_line spells_endSelect (by decide) (by decide)).append rest.isPlain))

theorem Arms.isPlain {w : Bool} (arms : Arms w) : arms.text.IsPlain := by
  match arms with
  | .nil => exact .nil
  | .elseIf head body rest =>
    exact (head.isPlain_line spells_elseIf (by decide) (by decide)).append
      (body.isPlain.append rest.isPlain)
  | .else_ head body =>
    exact (head.isPlain_line spells_else (by decide) (by decide)).append body.isPlain

theorem Clauses.isPlain {w : Bool} (clauses : Clauses w) : clauses.text.IsPlain := by
  match clauses with
  | .nil => exact .nil
  | .clause head test body rest =>
    exact (head.isPlain_test test).append (body.isPlain.append rest.isPlain)

end

end Program

/-- The text of a program is plain. -/
theorem Program.isPlain (p : Program) : p.text.IsPlain :=
  (p.head.isPlain_line spells_sub (by decide) (by decide)).append
    (p.body.isPlain.append (p.foot.isPlain_line spells_endSub (by decide) (by decide)))

/-! ## The document -/

namespace Document

open Grammar

/-- Blanks in front of a procedure are no procedures and hold no blocks. -/
theorem leaves_and_procedure {blanks : List Token}
    (hblanks : ∀ b ∈ blanks, b.kind = .trivia .whitespace)
    {trees : List Tree} {a : Anchor} (hknown : Tree.findIn? (.node .unknown) trees = none) :
    let children : List Tree := blanks.map .leaf ++ [.above (.node .subStatement) a trees]
    (children.filter fun c => c.kind == .node .subStatement) =
      [.above (.node .subStatement) a trees] ∧
      Tree.findIn? (.node .unknown) children = none ∧
      Tree.nestingAll children = Tree.nestingAll trees := by
  induction blanks with
  | nil =>
    have hkind : (Tree.above (.node .subStatement) a trees).kind = .node .subStatement := by
      cases trees <;> rfl
    simp [hkind, Tree.findIn?, Tree.find?_above, hknown, Tree.nestingAll, Tree.nesting_above,
      NodeKind.isNest]
  | cons b blanks ih =>
    have hb := hblanks b (List.mem_cons_self ..)
    obtain ⟨hfilter, hunknown, hnesting⟩ := ih fun b hb => hblanks b (List.mem_cons_of_mem _ hb)
    simp only [List.map_cons, List.cons_append]
    refine ⟨?_, ?_, ?_⟩
    · rw [List.filter_cons_of_neg (by simp [Tree.kind, hb]), hfilter]
    · simp [Tree.findIn?, Tree.find?, hb, hunknown]
    · rw [Tree.nestingAll, hnesting]
      rfl

/-- A well-formed program is accepted, however deep its blocks are nested and however long its
bodies are: it is read without a failure, no node of its tree is of unknown meaning, one procedure
stands below the root, and the blocks and clauses in the tree are nested as those of the program
are. -/
theorem nesting_wellFormed (origin : Bytes) (file : UInt32) (p : Program) :
    ∃ d, (read origin p.text file).document? = some d ∧ (read origin p.text file).failures = [] ∧
      d.root.containsKind (.node .unknown) = false ∧ d.root.nesting = p.body.nesting ∧
      ∃ procedure, d.root.childrenOfKind (.node .subStatement) = [procedure] ∧
        procedure.nesting = p.body.nesting := by
  have hvalid := p.isPlain.valid
  have htokens : Lexer.failures (Lexer.tokens p.text file) = [] := by
    obtain ⟨q, hplain⟩ := p.isPlain.failures file {} []
    rw [List.append_nil] at hplain
    rw [Lexer.tokens_eq, hplain]
    rfl
  have hrest := rest_ofTokens_tokens p.text file
  generalize hstream : TokenStream.ofTokens (Lexer.tokens p.text file) = stream at hrest
  have hready : (State.start stream).Ready false (stream.remaining + 1) := by
    refine ⟨⟨rfl, rfl, rfl, State.innermostInRow_opening _ _, ?_⟩, by simp, Nat.lt_succ_self _⟩
    rw [← hstream]
    exact sound_ofTokens p.text file
  have hline : (State.start stream).AtLine p.text :=
    ⟨rfl, file, {}, hrest.trans (Lexer.tokens_eq p.text file)⟩
  -- the whole source is one procedure with blanks in front of it
  obtain ⟨blanks, a, trees, hadds, hblanks, hnesting, hknown, hfailures⟩ :=
    run_statements_procedure hready ⟨rfl, rfl⟩ hline rfl
  obtain ⟨hfilter, hunknown, hnest⟩ := leaves_and_procedure hblanks (a := a) hknown
  have hpending : (State.final stream).builder.pending.toList =
      blanks.map .leaf ++ [.above (.node .subStatement) a trees] := hadds.pending
  have hdocument :
      (read origin p.text file).document? = (readText origin p.text file).document? := by
    rw [read, hvalid]
  refine ⟨_, hdocument.trans (document?_readText origin p.text file), ?_, ?_, ?_,
    .above (.node .subStatement) a trees, ?_, ?_⟩
  · rw [failures_read hvalid, htokens, grammarFailures_eq, hstream]
    exact congrArg Array.toList hfailures
  · rw [hstream, hpending, Tree.containsKind, Tree.find?_above (by simp), hunknown]
    rfl
  · rw [hstream, hpending, Tree.nesting_above, if_neg (by simp [NodeKind.isNest]), hnest, hnesting]
  · rw [hstream, hpending, Tree.childrenOfKind, Tree.children_above, hfilter]
  · rw [Tree.nesting_above, if_neg (by simp [NodeKind.isNest]), hnesting]

end Document

end LosslessBasic
