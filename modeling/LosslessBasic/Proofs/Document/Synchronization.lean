import LosslessBasic.Proofs.Document.Accounts
import LosslessBasic.Proofs.Document.Append
import LosslessBasic.Proofs.Document.Order
import LosslessBasic.Proofs.Grammar.Synchronization

/-!
# A procedure header behind a source that breaks off

Where a source ends in a procedure, whatever is left open in it, a text that starts with the header
of another procedure is read behind it as it is alone
(`Document.failures_and_children_append_header`). The blocks that are open end at the header, each
with the report that the end of the source would have given.

## Main definitions

* `Document.EndsInProcedure`, `Document.StartsWithHeader`: what is asked of the two texts;
* `Failure.isMissedAtEnd`, `Failure.reportedAt`: which closers are missed at another token, and how.

## Main results

* `Document.isMissedAtEnd_iff`: a closer is missed at the end of a source when the report stands
  behind all of its bytes, as long as their number is within reach of the offsets;
* `Document.failures_and_children_append_header`: the two texts behind one another, of any size.
-/

namespace LosslessBasic

/-- Whether the failure is a closer that is missed at the end of the text. -/
def Failure.isMissedAtEnd (f : Failure) : Bool :=
  match f.problem with
  | .missingCloser _ got => got.kind == .lexeme .endOfFile
  | _ => false

/-- The same failure with the closer missed at another token. -/
def Failure.reportedAt (t : Token) (f : Failure) : Failure :=
  match f.problem with
  | .missingCloser block _ => .atToken (.missingCloser block t) t
  | _ => f

/-- In front of a header, the closers that are missed at the end of the text are missed at the
header. -/
theorem Failure.beforeHeader_eq (header : Token) (f : Failure) :
    f.beforeHeader header = if f.isMissedAtEnd = true then f.reportedAt header else f := by
  unfold beforeHeader isMissedAtEnd reportedAt
  generalize f.problem = problem
  cases problem
  case missingCloser => simp only [beq_iff_eq]
  all_goals rfl

theorem Failure.isMissingCloser_of_isMissedAtEnd {f : Failure} (h : f.isMissedAtEnd = true) :
    f.isMissingCloser = true := by
  unfold isMissedAtEnd at h
  unfold isMissingCloser
  split at h
  next hproblem =>
    rw [hproblem]
    rfl
  next => cases h

theorem Failure.isMissingCloser_iff (f : Failure) :
    f.isMissingCloser = true ↔ f.code = "B0006" := by
  unfold isMissingCloser code
  cases f.problem.code <;> decide

namespace Document

open Grammar

/-- Whether a source ends in a procedure, be it left open or not, and what is read of it is
regular. -/
structure EndsInProcedure (source : Bytes) (file : UInt32) (d : Document) : Prop where
  /-- The last token is a line break that ends in a line feed. -/
  newline : ∃ t, (Lexer.tokens source file).dropLast.getLast? = some t ∧
    t.kind = .trivia .newline ∧ t.text.getLast? = some Bytes.lineFeed
  /-- The last tree below the root that is no trivia is a procedure. -/
  procedure : ∃ n, d.root.significantChildren.getLast? = some n ∧ n.isProcedure = true
  /-- There is no designer block. -/
  withoutDesigner : ∀ n ∈ d.root.descendants, n.kind ≠ .node .propertiesBlock
  /-- No line break stands below a single-line `If`, except for its direct children. -/
  onOneLine : ∀ n ∈ d.root.descendants, n.kind = .node .ifStatement → n.IsOnOneLine →
    ∀ c ∈ n.children, ∀ m ∈ c.descendants, m.isNewline = false

/-- Whether a text starts with the header of a procedure, without trivia in front. -/
structure StartsWithHeader (source : Bytes) (file : UInt32) (header : Token) : Prop where
  /-- The first token of the header. -/
  first : (Lexer.tokens source file).head? = some header
  /-- It is no trivia. -/
  solid : header.kind.isTrivia = false
  /-- What follows the modifiers opens a procedure. -/
  starts : Lookahead.startsProcedure (Lexer.tokens source file) = true

section

variable {source : Bytes} {file : UInt32}

theorem EndsInProcedure.endsWithNewline {d : Document} (h : EndsInProcedure source file d) :
    EndsWithNewline source file := .inr h.newline

/-- Of the tokens of a source, only the end marker stands behind all of its bytes. -/
theorem kind_eq_endOfFile_iff (h : EndsWithNewline source file)
    (hsize : source.length < 2 ^ 32) {t : Token}
    (ht : t ∈ Lexer.tokens source file) :
    t.kind = .lexeme .endOfFile ↔ t.offset.toNat = source.length := by
  constructor
  · intro hkind
    obtain ⟨marker, htokens, hoffset⟩ := Lexer.exists_tokens_eq_append file h.endsLine h.kind_eq
    rw [htokens] at ht
    rcases List.mem_append.mp ht with ht | ht
    · have hsound := sound_ofTokens source file
      unfold TokenStream.Sound at hsound
      rw [rest_ofTokens_tokens] at hsound
      exact absurd hkind (hsound t ht)
    · rw [List.mem_singleton.mp ht, hoffset]
      exact Bytes.toNat_toUInt32 (Nat.le_refl _) hsize
  · intro hoffset
    by_contra hkind
    obtain ⟨i, hi⟩ := List.mem_iff_getElem?.mp ht
    obtain ⟨hstart, hwithin⟩ := Lexer.offset_of_getElem? hi
    rw [Lexer.tokens_eq] at ht
    have htext := List.length_pos_iff.mpr (Lexer.text_ne_nil_of_mem_tokensFrom ht hkind)
    rw [hstart, Bytes.toNat_toUInt32 (by omega) hsize] at hoffset
    omega

/-- A missing closer is reported at the token that its message speaks of. -/
theorem exists_missingCloser {f : Failure} (hf : f ∈ grammarFailures source file)
    (hmissing : f.isMissingCloser = true) :
    ∃ block, ∃ t ∈ Lexer.tokens source file, f = .atToken (.missingCloser block t) t := by
  obtain ⟨accounts, hplaces, -, hreports, -⟩ :=
    accounts_final (.ofTokens (Lexer.tokens source file))
  have hreported : f ∈ (State.final (.ofTokens (Lexer.tokens source file))).missing :=
    List.mem_filter.mpr ⟨hf, hmissing⟩
  rw [hreports] at hreported
  obtain ⟨account, haccount, hfailure⟩ := List.mem_filterMap.mp hreported
  have hplace := hplaces ▸ List.mem_map_of_mem (f := Account.place) haccount
  have htokens : Lexer.tokens source file = _ ++ _ :=
    (rest_ofTokens_tokens source file).symm.trans (leaves_final _)
  refine ⟨account.block, account.next, ?_, ?_⟩
  · rw [htokens]
    rcases Tree.mem_leavesAll_of_mem_blocksAll hplace with hleaf | hcurrent
    · exact List.mem_append_left _ hleaf
    · refine List.mem_append_right _ ?_
      change account.next = _ at hcurrent
      rw [hcurrent]
      exact List.mem_cons_self
  · unfold Account.failure? at hfailure
    split at hfailure
    · exact (Option.some.inj hfailure).symm
    · cases hfailure

/-- A closer is missed at the end of a source when the report stands behind all of its bytes. -/
theorem isMissedAtEnd_iff (h : EndsWithNewline source file) (hsize : source.length < 2 ^ 32)
    {f : Failure}
    (hf : f ∈ grammarFailures source file) :
    f.isMissedAtEnd = true ↔ f.code = "B0006" ∧ f.span.offset.toNat = source.length := by
  rw [← f.isMissingCloser_iff]
  by_cases hmissing : f.isMissingCloser = true
  · obtain ⟨block, t, ht, rfl⟩ := exists_missingCloser hf hmissing
    exact beq_iff_eq.trans ((kind_eq_endOfFile_iff h hsize ht).trans (and_iff_right hmissing).symm)
  · exact iff_of_false (fun hmissed => hmissing (Failure.isMissingCloser_of_isMissedAtEnd hmissed))
      fun hreported => hmissing hreported.1

/-- What is read of such a source is regular. -/
theorem EndsInProcedure.regular {origin : Bytes} {d : Document} (h : EndsInProcedure source file d)
    (hd : (readText origin source file).document? = some d) :
    (State.final (.ofTokens (Lexer.tokens source file))).Regular := by
  rw [document?_readText] at hd
  obtain rfl := Option.some.inj hd
  obtain ⟨-, -, hdesigner, hline⟩ := h
  dsimp only at hdesigner hline
  rw [Tree.descendants_above] at hdesigner hline
  exact fun n hn => ⟨hdesigner n hn, hline n hn⟩

/-- The last tree that is read of such a source is a procedure, unless it is a token. -/
theorem EndsInProcedure.endsInProcedure {origin : Bytes} {d : Document}
    (h : EndsInProcedure source file d)
    (hd : (readText origin source file).document? = some d) :
    (State.final (.ofTokens (Lexer.tokens source file))).EndsInProcedure := by
  rw [document?_readText] at hd
  obtain rfl := Option.some.inj hd
  obtain ⟨n, hlast, hprocedure⟩ := h.procedure
  intro m hm htoken
  have hsignificant : m.isSignificant = true := by simp [Tree.isSignificant, Tree.isTrivia, htoken]
  obtain ⟨init, hinit⟩ := List.getLast?_eq_some_iff.mp hm
  dsimp only [Tree.significantChildren] at hlast
  rw [Tree.children_above, hinit, List.filter_append, List.filter_cons_of_pos hsignificant,
    List.filter_nil, List.getLast?_concat] at hlast
  rwa [Option.some.inj hlast]

/-- The first token of the header is the current one when its text is read. -/
theorem StartsWithHeader.current {header : Token} (h : StartsWithHeader source file header) :
    (TokenStream.ofTokens (Lexer.tokens source file)).current = header := by
  have hfirst := h.first
  rw [← rest_ofTokens_tokens] at hfirst
  exact Option.some.inj hfirst

end

/-- A procedure header is read the same behind a text that ends within a procedure, whatever blocks
are open there: the trees below the root and the accesses that refer to a `With` are those of the
two texts alone, and so are the failures, those of the second text with their offsets shifted by the
bytes of the first and their lines by its line breaks. Only the closers that the first text misses
at its end are missed at the first token of the header instead, once each and in the same order. -/
theorem failures_and_children_append_header (origin a q : Bytes) (file : UInt32) (header : Token)
    {da : Document} (ha : Utf8.firstInvalid? a = none) (hq : Utf8.firstInvalid? q = none)
    (hda : (read origin a file).document? = some da) (hprocedure : EndsInProcedure a file da)
    (hheader : StartsWithHeader q file header) :
    let header' := (Relocation.behind a).token header
    ∃ dq daq, (read origin q file).document? = some dq ∧
      (read origin (a ++ q) file).document? = some daq ∧
      daq.root.children =
        da.root.children ++ dq.root.children.map (Relocation.behind a).tree ∧
      daq.implicitTargets =
        da.implicitTargets ++ dq.implicitTargets.map (Relocation.behind a).target ∧
      (∀ source ∈ [a, q, a ++ q], (read origin source file).failures =
        Lexer.failures (Lexer.tokens source file) ++ grammarFailures source file) ∧
      Lexer.failures (Lexer.tokens (a ++ q) file) = Lexer.failures (Lexer.tokens a file) ++
        (Lexer.failures (Lexer.tokens q file)).map (Relocation.behind a).failure ∧
      grammarFailures (a ++ q) file =
        (grammarFailures a file).map
            (fun f => if f.isMissedAtEnd = true then f.reportedAt header' else f) ++
        (grammarFailures q file).map (Relocation.behind a).failure ∧
      (∀ f ∈ grammarFailures a file, f.isMissedAtEnd = true → f.code = "B0006" ∧
        (f.reportedAt header').code = "B0006" ∧ (f.reportedAt header').span = header'.span ∧
        (f.reportedAt header').loc = header'.loc) ∧
      (a.length < 2 ^ 32 → ∀ f ∈ grammarFailures a file,
        (f.isMissedAtEnd = true ↔ f.code = "B0006" ∧ f.span.offset.toNat = a.length)) ∧
      ∀ f : Failure, ((Relocation.behind a).failure f).code = f.code ∧
        ((Relocation.behind a).failure f).message = f.message := by
  intro header'
  have haq := Utf8.firstInvalid?_append ha hq
  have hread {source : Bytes} (hvalid : Utf8.firstInvalid? source = none) :
      (read origin source file).document? = (readText origin source file).document? := by
    rw [read, hvalid]
  have hends := hprocedure.endsWithNewline
  have htokens := Lexer.tokens_append file hends.endsLine hends.kind_eq q
  rw [hread ha] at hda
  -- the reading of both texts, in terms of the final states of the one and the other
  obtain ⟨hpending, hfailures, htargets⟩ := final_append_open (r := Relocation.behind a)
    (sound_ofTokens a file) (sound_ofTokens q file) (sound_ofTokens (a ++ q) file)
    ⟨passed_ofTokens _, passed_ofTokens _, passed_ofTokens _⟩
    (by rw [rest_ofTokens_tokens, rest_ofTokens_tokens, rest_ofTokens_tokens, htokens])
    (by rw [rest_ofTokens_tokens]; exact hends.kind_eq)
    (by rw [hheader.current]; exact hheader.solid)
    (by rw [rest_ofTokens_tokens]; exact hheader.starts)
    (hprocedure.regular hda) (hprocedure.endsInProcedure hda)
  rw [hheader.current, funext (Failure.beforeHeader_eq header')] at hfailures
  rw [document?_readText] at hda
  obtain rfl := Option.some.inj hda
  refine ⟨_, _, (hread hq).trans (document?_readText origin q file),
    (hread haq).trans (document?_readText origin (a ++ q) file), ?_, ?_, ?_, ?_, ?_, ?_, ?_, ?_⟩
  · dsimp only
    rw [Tree.children_above, Tree.children_above, Tree.children_above, hpending]
    simp
  · dsimp only
    rw [htargets]
    simp
  · simp only [List.mem_cons, List.not_mem_nil, or_false]
    rintro source (rfl | rfl | rfl)
    · exact failures_read ha origin file
    · exact failures_read hq origin file
    · exact failures_read haq origin file
  · rw [htokens, Lexer.failures_append, Lexer.failures_dropLast_tokens, Lexer.failures_map_token]
  · rw [grammarFailures_eq, hfailures, Array.toList_append, Array.toList_map, Array.toList_map]
    rfl
  · intro f hf hmissed
    have hmissing := Failure.isMissingCloser_of_isMissedAtEnd hmissed
    obtain ⟨block, t, -, rfl⟩ := exists_missingCloser hf hmissing
    exact ⟨rfl, rfl, rfl, rfl⟩
  · exact fun hsize f hf => isMissedAtEnd_iff hends hsize hf
  · exact fun f => ⟨Relocation.code_failure _ f, Relocation.message_failure _ f⟩

/-- A loop in a `With` in a loop in a procedure, all of them open, in front of a function that stays
open. -/
theorem failures_and_children_append_function :
    let a := Bytes.ofString
      "Private Sub A()\nFor i = 1 To 2\nIf x Then y = 1\nWith z\n.b = (\nDo While w\nEnd If\n"
    let q := Bytes.ofString "Public Function B()\n.c\n"
    let header : Token :=
      { kind := .keyword .public_, text := Bytes.ofString "Public", offset := 79,
                            loc := { file := 0, line := 8, column := 1 } }
    (grammarFailures a 0).countP Failure.isMissedAtEnd = 4 ∧
    ∃ da dq daq, (read [] a 0).document? = some da ∧ (read [] q 0).document? = some dq ∧
      (read [] (a ++ q) 0).document? = some daq ∧
      daq.root.children =
        da.root.children ++ dq.root.children.map (Relocation.behind a).tree ∧
      grammarFailures (a ++ q) 0 =
        (grammarFailures a 0).map
            (fun f => if f.isMissedAtEnd = true then f.reportedAt header else f) ++
        (grammarFailures q 0).map (Relocation.behind a).failure := by
  intro a q header
  have hmarker : (Lexer.tokens a 0).dropLast.getLast? =
      some { kind := .trivia .newline, text := [Bytes.lineFeed], offset := 78,
             loc := { file := 0, line := 7, column := 7 } } := by
    decide +kernel
  have hfirst : (Lexer.tokens q 0).head? =
      some { header with offset := 0, loc := { file := 0, line := 1, column := 1 } } := by
    decide +kernel
  obtain ⟨da, hda⟩ : ∃ da, (read [] a 0).document? = some da :=
    Option.isSome_iff_exists.mp (by decide +kernel)
  have htree : ∀ d ∈ (read [] a 0).document?,
      d.root.significantChildren.getLast?.any Tree.isProcedure = true ∧
      (∀ n ∈ d.root.descendants, n.kind ≠ .node .propertiesBlock) ∧
      ∀ n ∈ d.root.descendants, n.kind = .node .ifStatement →
        ∀ c ∈ n.children, ∀ m ∈ c.descendants, m.isNewline = false := by
    decide +kernel
  obtain ⟨hlast, hdesigner, hline⟩ := htree da hda
  obtain ⟨dq, daq, hdq, hdaq, hchildren, -, -, -, hfailures, -⟩ :=
    failures_and_children_append_header [] a q 0 _ (by decide +kernel) (by decide +kernel) hda
      ⟨⟨_, hmarker, rfl, rfl⟩, Option.any_eq_true _ _ |>.mp hlast, hdesigner,
        fun n hn hkind _ => hline n hn hkind⟩
      ⟨hfirst, rfl, by decide +kernel⟩
  have hbehind : (Relocation.behind a).token
      { header with offset := 0, loc := { file := 0, line := 1, column := 1 } } = header := by
    decide +kernel
  rw [hbehind] at hfailures
  exact ⟨by decide +kernel, da, dq, daq, hda, hdq, hdaq, hchildren, hfailures⟩

end Document

end LosslessBasic
