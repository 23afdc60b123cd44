import LosslessBasic.Proofs.Document
import LosslessBasic.Proofs.Grammar.Succession
import LosslessBasic.Proofs.Lexer.Append
import LosslessBasic.Proofs.Tree.Ending

/-!
# Sources behind one another

Whatever is wrong with a text, what comes behind it is read as it is alone, as long as the text ends
with a line break and leaves no block open (`Document.failures_and_children_append`).
-/

namespace LosslessBasic.Document

open Grammar

/-- The failures of the grammar in a source. -/
def grammarFailures (source : Bytes) (file : UInt32) : List Failure :=
  (grammarState (Lexer.tokens source file)).failures.toList

/-- The failures of the grammar are those of its final state. -/
theorem grammarFailures_eq (source : Bytes) (file : UInt32) :
    grammarFailures source file =
      (State.final (.ofTokens (Lexer.tokens source file))).failures.toList := rfl

/-- The failures of a valid text are those of its tokens and those of the grammar. -/
theorem failures_read {source : Bytes} (hvalid : Utf8.firstInvalid? source = none) (origin : Bytes)
    (file : UInt32) :
    (read origin source file).failures =
      Lexer.failures (Lexer.tokens source file) ++ grammarFailures source file := by
  rw [read, hvalid]
  rfl

/-- Whether a text is empty or its last token is a line break that ends in a line feed. -/
def EndsWithNewline (source : Bytes) (file : UInt32) : Prop :=
  source = [] ∨ ∃ t, (Lexer.tokens source file).dropLast.getLast? = some t ∧
    t.kind = .trivia .newline ∧ t.text.getLast? = some Bytes.lineFeed

variable {source : Bytes} {file : UInt32}

/-- In front of the end marker of such a text stands a line break. -/
theorem EndsWithNewline.kind_eq (h : EndsWithNewline source file) :
    ∀ t ∈ (Lexer.tokens source file).dropLast.getLast?, t.kind = .trivia .newline := by
  intro t ht
  obtain rfl | ⟨u, hu, hkind, -⟩ := h
  · cases ht
  · cases hu.symm.trans ht
    exact hkind

/-- A text whose last token is a line break ends its line. -/
theorem EndsWithNewline.endsLine (h : EndsWithNewline source file) : source.EndsLine := by
  intro c hc
  obtain rfl | ⟨t, ht, -, hlast⟩ := h
  · cases hc
  · obtain ⟨ts, q, htokens, -⟩ := Lexer.tokensFrom_eq_append file 0 {} source
    have htexts := Lexer.texts_tokens source file
    rw [Lexer.tokens_eq] at ht htexts
    rw [htokens, List.dropLast_concat] at ht
    obtain ⟨init, rfl⟩ := List.getLast?_eq_some_iff.mp ht
    rw [htokens] at htexts
    have hsource : source = init.flatMap Token.text ++ t.text := by
      rw [← htexts]
      simp [Lexer.endMarkerAt]
    rw [hsource, List.getLast?_append, hlast] at hc
    exact (Option.some.inj hc).symm

/-- A source without a block reported open at its end leaves none open. -/
theorem not_unclosed_final (h : EndsWithNewline source file) (hsize : source.length < 2 ^ 32)
    (hclosed : ∀ f ∈ grammarFailures source file,
      ¬ (f.code = "B0006" ∧ f.span.offset.toNat = source.length)) :
    ¬ (State.final (.ofTokens (Lexer.tokens source file))).Unclosed := by
  rintro ⟨block, hblock⟩
  refine hclosed _ hblock ⟨rfl, ?_⟩
  obtain ⟨marker, htokens, hoffset⟩ := Lexer.exists_tokens_eq_append file h.endsLine h.kind_eq
  have hlast : (State.final (.ofTokens (Lexer.tokens source file))).stream.last = marker := by
    rw [TokenStream.last_eq_of_suffix (leaves_final _)]
    unfold TokenStream.last
    simp only [rest_ofTokens_tokens]
    rw [List.getLast_eq_iff_getLast?_eq_some, htokens, List.getLast?_concat]
  change (State.final (.ofTokens (Lexer.tokens source file))).stream.last.offset.toNat = _
  rw [hlast, hoffset]
  simp only [Nat.toUInt32_eq, UInt32.toNat_ofNat']
  exact Nat.mod_eq_of_lt hsize

/-- The stream of the tokens of a source is sound. -/
theorem sound_ofTokens (source : Bytes) (file : UInt32) :
    (TokenStream.ofTokens (Lexer.tokens source file)).Sound := by
  obtain ⟨ts, q, htokens, hkinds⟩ := Lexer.tokensFrom_eq_append file 0 {} source
  intro t ht
  rw [rest_ofTokens_tokens, Lexer.tokens_eq, htokens, List.dropLast_concat] at ht
  exact hkinds t ht

/-- A new stream has passed no token. -/
theorem passed_ofTokens (tokens : List Token) : (TokenStream.ofTokens tokens).passed = [] := by
  unfold TokenStream.ofTokens
  split <;> rfl

/-- The grammar reads two texts one behind the other as it reads them alone. -/
theorem final_append_tokens {a b : Bytes} (ha : EndsWithNewline a file) (hsize : a.length < 2 ^ 32)
    (hclosed : ∀ f ∈ grammarFailures a file,
      ¬ (f.code = "B0006" ∧ f.span.offset.toNat = a.length)) :
    State.Leaves (Relocation.behind a) (State.final (.ofTokens (Lexer.tokens a file)))
      (State.final (.ofTokens (Lexer.tokens b file)))
      (State.final (.ofTokens (Lexer.tokens (a ++ b) file))) := by
  refine final_append (sound_ofTokens a file) (sound_ofTokens b file) (sound_ofTokens (a ++ b) file)
    ⟨passed_ofTokens _, passed_ofTokens _, passed_ofTokens _⟩ ?_ ?_
    (not_unclosed_final ha hsize hclosed)
  · rw [rest_ofTokens_tokens, rest_ofTokens_tokens, rest_ofTokens_tokens,
      Lexer.tokens_append file ha.endsLine ha.kind_eq]
  · rw [rest_ofTokens_tokens]
    exact ha.kind_eq

/-- Whatever is wrong with a text, it changes nothing in how another text behind it is read, as long
as it ends with a line break and no block is reported open at its end: the trees below the root, the
accesses that refer to a `With` and the failures are those of the two texts alone, those of the
second one with their offsets shifted by the bytes of the first and their lines by its line breaks.
The failures of single tokens come first, those of the grammar behind them, and none of them changes
its code or message. -/
theorem failures_and_children_append (origin a b : Bytes) (file : UInt32)
    (ha : Utf8.firstInvalid? a = none) (hb : Utf8.firstInvalid? b = none)
    (hsize : (a ++ b).length < 2 ^ 32) (hends : EndsWithNewline a file)
    (hclosed : ∀ f ∈ (read origin a file).failures,
      ¬ (f.code = "B0006" ∧ f.span.offset.toNat = a.length)) :
    ∃ da db dab, (read origin a file).document? = some da ∧
      (read origin b file).document? = some db ∧
      (read origin (a ++ b) file).document? = some dab ∧
      dab.root.children =
        da.root.children ++ db.root.children.map (Relocation.behind a).tree ∧
      dab.implicitTargets =
        da.implicitTargets ++ db.implicitTargets.map (Relocation.behind a).target ∧
      (∀ source ∈ [a, b, a ++ b], (read origin source file).failures =
        Lexer.failures (Lexer.tokens source file) ++ grammarFailures source file) ∧
      Lexer.failures (Lexer.tokens (a ++ b) file) = Lexer.failures (Lexer.tokens a file) ++
        (Lexer.failures (Lexer.tokens b file)).map (Relocation.behind a).failure ∧
      grammarFailures (a ++ b) file = grammarFailures a file ++
        (grammarFailures b file).map (Relocation.behind a).failure ∧
      ∀ f : Failure, ((Relocation.behind a).failure f).code = f.code ∧
        ((Relocation.behind a).failure f).message = f.message := by
  have hab := Utf8.firstInvalid?_append ha hb
  have hread {source : Bytes} (hvalid : Utf8.firstInvalid? source = none) :
      (read origin source file).document? = (readText origin source file).document? := by
    rw [read, hvalid]
  have hsizeA : a.length < 2 ^ 32 := by
    rw [List.length_append] at hsize
    omega
  -- the two texts are read one behind the other, as no block is left open between them
  obtain ⟨hpending, hfailures, htargets, -⟩ := final_append_tokens (b := b) hends hsizeA
    fun f hf => hclosed f (by rw [failures_read ha]; exact List.mem_append_right _ hf)
  refine ⟨_, _, _, (hread ha).trans (document?_readText origin a file),
    (hread hb).trans (document?_readText origin b file),
    (hread hab).trans (document?_readText origin (a ++ b) file), ?_, ?_, ?_, ?_, ?_, ?_⟩
  · dsimp only
    rw [Tree.children_above, Tree.children_above, Tree.children_above, hpending]
    simp
  · dsimp only
    rw [htargets]
    simp
  · simp only [List.mem_cons, List.not_mem_nil, or_false]
    rintro source (rfl | rfl | rfl)
    · exact failures_read ha origin file
    · exact failures_read hb origin file
    · exact failures_read hab origin file
  · rw [Lexer.tokens_append file hends.endsLine hends.kind_eq, Lexer.failures_append,
      Lexer.failures_dropLast_tokens, Lexer.failures_map_token]
  · rw [grammarFailures_eq, hfailures]
    simp [grammarFailures_eq]
  · exact fun f => ⟨Relocation.code_failure _ f, Relocation.message_failure _ f⟩

/-- A stray closer, a string without its quote and a dot outside of every `With`, in front of a
`With` with an access that is not finished. -/
theorem failures_and_children_append_with :
    let a := Bytes.ofString "Loop\nDim \"abc\n.x = 1 Else\n"
    let b := Bytes.ofString "With a\n.b = )\nEnd With\n#"
    ∃ da db dab, (read [] a 0).document? = some da ∧ (read [] b 0).document? = some db ∧
      (read [] (a ++ b) 0).document? = some dab ∧
      dab.root.children =
        da.root.children ++ db.root.children.map (Relocation.behind a).tree ∧
      dab.implicitTargets =
        da.implicitTargets ++ db.implicitTargets.map (Relocation.behind a).target ∧
      (∀ source ∈ [a, b, a ++ b], (read [] source 0).failures =
        Lexer.failures (Lexer.tokens source 0) ++ grammarFailures source 0) ∧
      Lexer.failures (Lexer.tokens (a ++ b) 0) = Lexer.failures (Lexer.tokens a 0) ++
        (Lexer.failures (Lexer.tokens b 0)).map (Relocation.behind a).failure ∧
      grammarFailures (a ++ b) 0 = grammarFailures a 0 ++
        (grammarFailures b 0).map (Relocation.behind a).failure ∧
      ∀ f : Failure, ((Relocation.behind a).failure f).code = f.code ∧
        ((Relocation.behind a).failure f).message = f.message := by
  have hmarker :
      (Lexer.tokens (Bytes.ofString "Loop\nDim \"abc\n.x = 1 Else\n") 0).dropLast.getLast? =
      some { kind := .trivia .newline, text := [Bytes.lineFeed], offset := 25,
             loc := { file := 0, line := 3, column := 12 } } := by
    decide +kernel
  exact failures_and_children_append [] _ _ 0 (by decide +kernel) (by decide +kernel)
    (by decide +kernel) (.inr ⟨_, hmarker, rfl, rfl⟩) (by decide +kernel)

end LosslessBasic.Document
