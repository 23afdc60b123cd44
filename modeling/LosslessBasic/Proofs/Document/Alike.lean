import LosslessBasic.Proofs.Document.Append
import LosslessBasic.Proofs.Grammar.BodiesAlike

/-!
# Reading sources alike

Two sources whose tokens look the same are read to trees that look the same, and what is wrong with
them looks the same, one failure by one (`View.readingsAlike`). What is left to say of two sources
is what their tokens are.
-/

namespace LosslessBasic

/-- Two readings that look the same. -/
structure Reading.Alike (V : View) (r r' : Reading) : Prop where
  /-- Both have trees, and the trees look the same. -/
  trees : ∃ d d', r.document? = some d ∧ r'.document? = some d' ∧ V.tree? d.root = V.tree? d'.root
  /-- The failures look the same, one by one. -/
  failures : r.failures.map V.failure = r'.failures.map V.failure

theorem Reading.Alike.forall₂_failures {V : View} {r r' : Reading} (h : r.Alike V r') :
    List.Forall₂ (fun f f' => V.failure f = V.failure f') r.failures r'.failures := by
  rw [← List.forall₂_map_right_iff, ← List.forall₂_map_left_iff (f := V.failure), h.failures]
  exact List.forall₂_same.mpr fun _ _ => rfl

namespace View

variable {V : View} {ts ts' : List Token}

/-! ## Failures of tokens -/

theorem failures_cons (t : Token) (ts : List Token) :
    Lexer.failures (t :: ts) =
      ((Lexer.problem? t).map fun problem => Failure.atToken problem t).toList ++
        Lexer.failures ts := by
  unfold Lexer.failures
  rw [List.filterMap_cons]
  cases Lexer.problem? t <;> rfl

/-- Nothing is wrong with a blank. -/
theorem problem?_of_blank {t : Token} (ht : t.kind.isInlineTrivia = true) :
    Lexer.problem? t = none := by
  unfold Lexer.problem?
  split <;> first | rfl | (next hkind => rw [hkind] at ht; cases ht)

/-- What is wrong with a token by itself is told by its kind. -/
theorem code_problem?_eq {t t' : Token} (hkind : t.kind = t'.kind) :
    (Lexer.problem? t).map Problem.code = (Lexer.problem? t').map Problem.code := by
  unfold Lexer.problem?
  rw [hkind]
  split <;> rfl

/-- The failures of tokens that look the same by themselves. -/
theorem failures_eq (h : V.SameTokens ts ts') :
    (Lexer.failures ts).map V.failure = (Lexer.failures ts').map V.failure := by
  induction h with
  | nil => rfl
  | @cons t t' ts ts' h hs ih =>
    rw [failures_cons, failures_cons, List.map_append, List.map_append, ih]
    congr 1
    cases hblank : t.kind.isInlineTrivia with
    | true =>
      rw [problem?_of_blank hblank, problem?_of_blank (h.isInlineTrivia_eq.symm.trans hblank)]
      rfl
    | false =>
      have hcode := code_problem?_eq (h.kind_eq hblank)
      cases hp : Lexer.problem? t with
      | none =>
        rw [hp] at hcode
        rw [Option.map_eq_none_iff.mp hcode.symm]
        rfl
      | some problem =>
        rw [hp] at hcode
        obtain ⟨problem', hp', heq⟩ := Option.map_eq_some_iff.mp hcode.symm
        rw [hp']
        exact congrArg ([·]) (failure_atToken_eq h heq.symm)
  | more hb hb' h ih =>
    rw [failures_cons, problem?_of_blank (V.isInlineTrivia_of_none hb)]
    exact ih

/-! ## Readings -/

open Grammar

theorem pending_of_adds {stream : TokenStream} {trees : List Tree} {t : State}
    (h : (State.start stream).Adds trees t) : t.builder.pending.toList = trees := by
  rw [h.pending]
  exact List.nil_append trees

/-- Sources whose tokens look the same are read alike. -/
theorem readingsAlike {source source' : Bytes} {file file' : UInt32}
    (h : V.SameTokens (Lexer.tokens source file) (Lexer.tokens source' file'))
    (origin origin' : Bytes) :
    (Document.readText origin source file).Alike V (Document.readText origin' source' file') := by
  rw [← Document.rest_ofTokens_tokens, ← Document.rest_ofTokens_tokens source'] at h
  obtain ⟨⟨trees, trees', hadds, hadds', htrees⟩, hstate⟩ := leads_final h
  rw [Document.rest_ofTokens_tokens, Document.rest_ofTokens_tokens] at h
  refine ⟨⟨_, _, Document.document?_readText .., Document.document?_readText .., ?_⟩, ?_⟩
  · dsimp only
    rw [pending_of_adds hadds, pending_of_adds hadds']
    exact tree?_above_eq htrees hstate.anchor
  · have hgrammar := hstate.failures
    rw [← Document.grammarFailures_eq, ← Document.grammarFailures_eq] at hgrammar
    change (Lexer.failures _ ++ Document.grammarFailures source file).map V.failure =
      (Lexer.failures _ ++ Document.grammarFailures source' file').map V.failure
    rw [List.map_append, List.map_append, failures_eq h, hgrammar]

end View

end LosslessBasic
