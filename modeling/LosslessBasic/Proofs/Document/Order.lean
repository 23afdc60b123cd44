import LosslessBasic.Proofs.Document.Cover
import LosslessBasic.Proofs.Grammar.Order

/-!
# The list of failures

The failures of a source are those of its tokens by themselves, one for each token that carries an
error, and behind them those of the grammar in the order of the tokens at which they are reported
(`Document.failures_in_order`).

## Main definitions

* `Failure.IsOf`: a failure is the one that a token by itself has;
* `Failure.StandsAt`: a failure is reported at the token that starts at a given byte. The byte is
  counted without wrapping, whatever the size of the source.
-/

namespace LosslessBasic

namespace Lexer

/-- The number of bytes before the token of an index. -/
def startOf (tokens : List Token) (index : Nat) : Nat :=
  ((tokens.take index).flatMap Token.text).length

/-- A later token starts no earlier. -/
theorem startOf_mono (tokens : List Token) {i j : Nat} (h : i ≤ j) :
    startOf tokens i ≤ startOf tokens j := by
  have htake := List.take_append_drop i (tokens.take j)
  rw [List.take_take, Nat.min_eq_left h] at htake
  unfold startOf
  rw [← htake, List.flatMap_append, List.length_append]
  exact Nat.le_add_right _ _

/-- The text of some leaves is that of their tokens. -/
theorem textAll_map_leaf (ts : List Token) :
    Tree.textAll (ts.map Tree.leaf) = ts.flatMap Token.text := by
  induction ts with
  | nil => rfl
  | cons t ts ih => rw [List.map_cons, Tree.textAll, ih, List.flatMap_cons, Tree.text]

/-- A token stands where its bytes do. -/
theorem offset_of_getElem? {source : Bytes} {file : UInt32} {i : Nat} {t : Token}
    (h : (tokens source file)[i]? = some t) :
    t.offset = (startOf (tokens source file) i).toUInt32 ∧
      startOf (tokens source file) i + t.text.length ≤ source.length := by
  have hleaf : ((tokens source file).map Tree.leaf)[i]? = some (.leaf t) := by
    rw [List.getElem?_map, h, Option.map_some]
  obtain ⟨a, b, -, hb, ⟨hoffset, hstop, -⟩, hbefore, -⟩ :=
    (coverAll_tokens source file).getElem? hleaf
  -- the tokens before it cover the bytes before it
  have hstart : startOf (tokens source file) i = a := by
    rw [startOf, ← textAll_map_leaf, List.map_take, hbefore.text_eq, List.extract_eq_take_drop,
      List.drop_zero, List.length_take, Nat.sub_zero]
    omega
  rw [hstart]
  exact ⟨hoffset, by omega⟩

/-- The next token starts where the one in front of it ends. -/
theorem startOf_add_length {tokens : List Token} {i : Nat} {t : Token} (h : tokens[i]? = some t) :
    startOf tokens i + t.text.length = startOf tokens (i + 1) := by
  rw [startOf, startOf, List.take_add_one, h, List.flatMap_append, List.length_append]
  simp

/-- As long as offsets do not wrap, they tell the tokens of a source apart. -/
theorem nodup_offsets {source : Bytes} {file : UInt32} {ts : List Token} {marker : Token}
    (h : tokens source file = ts ++ [marker]) (hsize : source.length < 2 ^ 32) :
    (ts.map Token.offset).Nodup := by
  obtain ⟨front, q, hfront, hkinds⟩ := tokensFrom_eq_append file 0 {} source
  rw [← tokens_eq] at hfront
  obtain rfl : ts = front := (List.append_inj' (h.symm.trans hfront) rfl).1
  refine List.pairwise_map.mpr (List.pairwise_iff_getElem.mpr fun i j hi hj hij heq => ?_)
  have hget {k : Nat} (hk : k < ts.length) : (tokens source file)[k]? = some ts[k] := by
    rw [h, List.getElem?_append_left hk, List.getElem?_eq_getElem hk]
  obtain ⟨hoffset, hwithin⟩ := offset_of_getElem? (hget hi)
  obtain ⟨hoffset', hwithin'⟩ := offset_of_getElem? (hget hj)
  -- the first of the two tokens has a byte, and the second one starts behind it
  have hmem : ts[i] ∈ tokensFrom file 0 {} source := by
    rw [← tokens_eq]
    exact List.mem_of_getElem? (hget hi)
  have hbyte :=
    List.length_pos_iff.mpr (text_ne_nil_of_mem_tokensFrom hmem (hkinds _ (List.getElem_mem hi)))
  have hnext := startOf_add_length (hget hi)
  have hmono : startOf (tokens source file) (i + 1) ≤ startOf (tokens source file) j :=
    startOf_mono _ hij
  rw [hoffset, hoffset'] at heq
  have hstart := congrArg UInt32.toNat heq
  rw [Bytes.toNat_toUInt32 (by omega) hsize, Bytes.toNat_toUInt32 (by omega) hsize] at hstart
  omega

/-- All tokens of a source are in its file. -/
theorem file_of_mem_tokensFrom {file : UInt32} {within : Nat} {p : Position}
    {bytes : Bytes} {t : Token}
    (h : t ∈ tokensFrom file within p bytes) : t.loc.file = file := by
  induction bytes generalizing within p with
  | nil =>
    obtain rfl : t = endMarkerAt file p := by cases within <;> simpa [tokensFrom] using h
    rfl
  | cons c rest ih =>
    cases within with
    | succ k => exact ih h
    | zero =>
      rcases List.mem_cons.mp h with rfl | h
      · rfl
      · exact ih h

end Lexer

namespace Failure

/-- Whether a failure is the one that a token by itself has. -/
structure IsOf (t : Token) (f : Failure) : Prop where
  /-- An unterminated string has a code of its own. -/
  code : f.code = if t.kind = .lexeme .unterminatedString then "B0003" else "B0002"
  /-- The failure is reported for the bytes of the token. -/
  span : f.span = t.span
  /-- The failure is reported at the place of the token. -/
  loc : f.loc = t.loc

/-- Whether a failure is reported at the token of a source that starts at a byte. -/
structure StandsAt (source : Bytes) (file : UInt32) (start : Nat) (f : Failure) : Prop where
  /-- Span and location are those of a token. -/
  token : ∃ t ∈ Lexer.tokens source file, f.span = t.span ∧ f.loc = t.loc
  /-- The offset is that of the byte, as a word. -/
  offset : f.span.offset = start.toUInt32
  /-- The bytes of the token lie in the source. -/
  within : ∃ width, f.span.length = width.toUInt32 ∧ start + width ≤ source.length

end Failure

/-- The failures of tokens by themselves are one for each token that carries an error. -/
theorem Lexer.forall₂_failures (tokens : List Token) :
    List.Forall₂ Failure.IsOf (tokens.filter (·.kind.isLexicalError)) (Lexer.failures tokens) := by
  -- the two kinds that the lexer reports are those of errors, and there is no third
  induction tokens with
  | nil => exact .nil
  | cons t tokens ih =>
    have hcons (problem : Problem) (hproblem : Lexer.problem? t = some problem) :
        Lexer.failures (t :: tokens) = .atToken problem t :: Lexer.failures tokens := by
      unfold Lexer.failures
      rw [List.filterMap_cons, hproblem, Option.map_some]
    by_cases hstring : t.kind = .lexeme .unterminatedString
    · rw [List.filter_cons_of_pos (by rw [hstring]; rfl),
        hcons .unterminatedString (by rw [Lexer.problem?, hstring])]
      exact .cons ⟨by rw [if_pos hstring]; rfl, rfl, rfl⟩ ih
    by_cases hcharacter : t.kind = .lexeme .unknownCharacter
    · rw [List.filter_cons_of_pos (by rw [hcharacter]; rfl),
        hcons (.unknownCharacter t.text) (by rw [Lexer.problem?, hcharacter])]
      exact .cons ⟨by rw [if_neg hstring]; rfl, rfl, rfl⟩ ih
    · have hproblem : Lexer.problem? t = none := by
        unfold Lexer.problem?
        split <;> first | contradiction | rfl
      have hkind : ¬ t.kind.isLexicalError = true := by
        unfold Kind.isLexicalError
        split
        next l hl =>
          rw [hl] at hstring hcharacter
          cases l <;> first | contradiction | simp [Lexeme.isError]
        next => simp
      have hfilter : (t :: tokens).filter (·.kind.isLexicalError) =
          tokens.filter (·.kind.isLexicalError) := List.filter_cons_of_neg hkind
      have hfailures : Lexer.failures (t :: tokens) = Lexer.failures tokens := by
        unfold Lexer.failures
        rw [List.filterMap_cons, hproblem, Option.map_none]
      rw [hfilter, hfailures]
      exact ih

/-- The codes of the problems of the grammar. -/
def Problem.grammarCodes : List String := ["B0001", "B0004", "B0005", "B0006", "B0008", "B0009"]

/-- What the grammar reports has one of the codes of the grammar. -/
theorem Problem.text_code_mem {problem : Problem} {tokens : List Token} {t : Token}
    (h : problem.Quotes tokens t) : problem.code.text ∈ grammarCodes := by
  cases problem <;> first | exact False.elim h | simp [Problem.code, Code.text, grammarCodes]

namespace Document

open Grammar

/-- The grammar reports at tokens of the source in their order. -/
theorem inOrder_final (source : Bytes) (file : UInt32) : ∃ last,
    Failure.InOrder (Lexer.tokens source file) last
      (State.final (.ofTokens (Lexer.tokens source file))).failures.toList := by
  generalize hstream : TokenStream.ofTokens (Lexer.tokens source file) = stream
  have horders : Orders (statements (statementUpTo (stream.remaining + 1))) := inferInstance
  have hcomposed : Composed false (statements (statementUpTo (stream.remaining + 1))) :=
    inferInstance
  have hfinal : (State.final stream).Ordered := horders.ordered (.start stream) (.nil _ _)
  have hpassed : stream.passed = [] := by
    rw [← hstream]
    unfold TokenStream.ofTokens
    split <;> rfl
  have htokens : (State.final stream).stream.tokens = Lexer.tokens source file := by
    rw [← rest_ofTokens_tokens source file, hstream]
    refine (hcomposed.passes (.start stream)).1.trans ?_
    change stream.passed.reverse ++ stream.rest = stream.rest
    rw [hpassed, List.reverse_nil, List.nil_append]
  rw [State.Ordered, htokens] at hfinal
  exact ⟨_, hfinal⟩

/-- A failure at a token stands at the byte where the token starts. -/
theorem standsAt_of_isAt {source : Bytes} {file : UInt32} {i : Nat} {f : Failure}
    (h : f.IsAt (Lexer.tokens source file) i) :
    f.StandsAt source file (Lexer.startOf (Lexer.tokens source file) i) := by
  obtain ⟨t, ht, hf, -⟩ := h
  obtain ⟨hoffset, hwithin⟩ := Lexer.offset_of_getElem? ht
  rw [hf]
  exact ⟨⟨t, List.mem_of_getElem? ht, rfl, rfl⟩, hoffset, _, rfl, hwithin⟩

/-- What holds along two lists pairs each member of the second one. -/
theorem exists_of_mem_right {α β : Type} {R : α → β → Prop} {as : List α} {bs : List β} {b : β}
    (h : List.Forall₂ R as bs) (hb : b ∈ bs) : ∃ a ∈ as, R a b := by
  induction h with
  | nil => cases hb
  | @cons a b' as bs hab _ ih =>
    rcases List.mem_cons.mp hb with rfl | hb
    · exact ⟨a, List.mem_cons_self, hab⟩
    · obtain ⟨a', ha', hab'⟩ := ih hb
      exact ⟨a', List.mem_cons_of_mem _ ha', hab'⟩

/-- Failures at tokens in their order stand at bytes that never decrease. -/
theorem standAt_of_inOrder {source : Bytes} {file : UInt32} {last : Nat} {failures : List Failure}
    (h : Failure.InOrder (Lexer.tokens source file) last failures) :
    ∃ starts : List Nat, starts.Pairwise (· ≤ ·) ∧
      List.Forall₂ (Failure.StandsAt source file) starts failures := by
  obtain ⟨indices, hsorted, -, hat⟩ := h
  refine ⟨indices.map (Lexer.startOf (Lexer.tokens source file)), ?_, ?_⟩
  · exact List.pairwise_map.mpr (hsorted.imp fun hij => Lexer.startOf_mono _ hij)
  · exact List.forall₂_map_left_iff.mpr (hat.imp fun _ _ => standsAt_of_isAt)

/-- What is wrong with a token stands where the token starts. -/
theorem standsAt_of_mem_failures {source : Bytes} {file : UInt32} {f : Failure}
    (h : f ∈ Lexer.failures (Lexer.tokens source file)) :
    ∃ start, f.StandsAt source file start := by
  obtain ⟨t, ht, hproblem⟩ := List.mem_filterMap.mp h
  obtain ⟨problem, -, rfl⟩ := Option.map_eq_some_iff.mp hproblem
  obtain ⟨i, hi⟩ := List.mem_iff_getElem?.mp ht
  obtain ⟨hoffset, hwithin⟩ := Lexer.offset_of_getElem? hi
  exact ⟨_, ⟨t, ht, rfl, rfl⟩, hoffset, _, rfl, hwithin⟩

/-- Words that stand for bytes within a source are ordered as the bytes are, unless they wrap. -/
theorem offset_le_of_standsAt {source : Bytes} {file : UInt32} (hsize : source.length < 2 ^ 32)
    {start start' : Nat} {f g : Failure} (hf : f.StandsAt source file start)
    (hg : g.StandsAt source file start') (h : start ≤ start') : f.span.offset ≤ g.span.offset := by
  obtain ⟨width, -, hwidth⟩ := hg.within
  have hstart : start ≤ source.length := by omega
  have hstart' : start' ≤ source.length := by omega
  rw [UInt32.le_iff_toNat_le, hf.offset, hg.offset, Bytes.toNat_toUInt32 hstart hsize,
    Bytes.toNat_toUInt32 hstart' hsize]
  exact h

/-- A failure ends within the source. -/
theorem stop_le_of_standsAt {source : Bytes} {file : UInt32} (hsize : source.length < 2 ^ 32)
    {start : Nat} {f : Failure} (hf : f.StandsAt source file start) :
    f.span.offset.toNat + f.span.length.toNat ≤ source.length := by
  obtain ⟨width, hlength, hwidth⟩ := hf.within
  have hstart : start ≤ source.length := by omega
  have hlength' : width ≤ source.length := by omega
  rw [hf.offset, hlength, Bytes.toNat_toUInt32 hstart hsize, Bytes.toNat_toUInt32 hlength' hsize]
  exact hwidth

/-- Offsets never decrease where the bytes that they stand for do not. -/
theorem pairwise_offset_le {source : Bytes} {file : UInt32} (hsize : source.length < 2 ^ 32)
    {starts : List Nat} {failures : List Failure}
    (h : List.Forall₂ (Failure.StandsAt source file) starts failures)
    (hstarts : starts.Pairwise (· ≤ ·)) :
    failures.Pairwise fun f g => f.span.offset ≤ g.span.offset := by
  induction h with
  | nil => exact .nil
  | cons hf hrest ih =>
    obtain ⟨hfirst, hstarts⟩ := List.pairwise_cons.mp hstarts
    refine List.pairwise_cons.mpr ⟨fun g hg => ?_, ih hstarts⟩
    obtain ⟨start, hstart, hg⟩ := exists_of_mem_right hrest hg
    exact offset_le_of_standsAt hsize hf hg (hfirst start hstart)

theorem file_of_standsAt {source : Bytes} {file : UInt32} {start : Nat} {f : Failure}
    (h : f.StandsAt source file start) : f.loc.file = file := by
  obtain ⟨t, ht, -, hloc⟩ := h.token
  rw [Lexer.tokens_eq] at ht
  rw [hloc]
  exact Lexer.file_of_mem_tokensFrom ht

/-- The failures of a source that is UTF-8 are those of its tokens by themselves and those of the
grammar. -/
theorem failures_of_valid {source : Bytes} (hvalid : Utf8.firstInvalid? source = none)
    (origin : Bytes) (file : UInt32) :
    (read origin source file).failures = Lexer.failures (Lexer.tokens source file) ++
      (State.final (.ofTokens (Lexer.tokens source file))).failures.toList := by
  rw [read_of_valid hvalid]
  rfl

/-- The failures of a source are one for each token that carries an error, in the order of the
tokens, and then those of the grammar, each at a token of the source; the bytes at which these
tokens start never decrease. As long as offsets do not wrap, they never decrease either, and every
failure lies in the source. -/
theorem failures_in_order (origin source : Bytes) (file : UInt32)
    (hvalid : Utf8.firstInvalid? source = none) :
    ∃ lexical grammar starts, (read origin source file).failures = lexical ++ grammar ∧
      List.Forall₂ Failure.IsOf
        ((Lexer.tokens source file).filter (·.kind.isLexicalError)) lexical ∧
      List.Forall₂ (Failure.StandsAt source file) starts grammar ∧ starts.Pairwise (· ≤ ·) ∧
      (∀ f ∈ grammar, f.code ∈ Problem.grammarCodes) ∧
      (∀ f ∈ lexical ++ grammar, f.loc.file = file ∧ ∃ start, f.StandsAt source file start) ∧
      (source.length < 2 ^ 32 →
        grammar.Pairwise (fun f g => f.span.offset ≤ g.span.offset) ∧
        ∀ f ∈ lexical ++ grammar, f.span.offset.toNat + f.span.length.toNat ≤ source.length) := by
  generalize hgrammar :
    (State.final (.ofTokens (Lexer.tokens source file))).failures.toList = grammar
  obtain ⟨last, hordered⟩ := inOrder_final source file
  rw [hgrammar] at hordered
  obtain ⟨starts, hstarts, hstand⟩ := standAt_of_inOrder hordered
  -- the lexer reports tokens of the source, and the grammar reports at tokens in order
  have hstands (f : Failure) (hf : f ∈ Lexer.failures (Lexer.tokens source file) ++ grammar) :
      ∃ start, f.StandsAt source file start := by
    rcases List.mem_append.mp hf with hf | hf
    · exact standsAt_of_mem_failures hf
    · obtain ⟨start, -, hstart⟩ := exists_of_mem_right hstand hf
      exact ⟨start, hstart⟩
  have hcodes (f : Failure) (hf : f ∈ grammar) : f.code ∈ Problem.grammarCodes := by
    obtain ⟨indices, -, -, hat⟩ := hordered
    obtain ⟨i, -, t, -, -, hproblem⟩ := exists_of_mem_right hat hf
    exact Problem.text_code_mem hproblem
  refine ⟨Lexer.failures (Lexer.tokens source file), grammar, starts, ?_,
    Lexer.forall₂_failures _, hstand, hstarts, hcodes, fun f hf => ?_, fun hsize =>
      ⟨?_, fun f hf => ?_⟩⟩
  · rw [failures_of_valid hvalid, hgrammar]
  · obtain ⟨start, hstart⟩ := hstands f hf
    exact ⟨file_of_standsAt hstart, start, hstart⟩
  · exact pairwise_offset_le hsize hstand hstarts
  · obtain ⟨start, hstart⟩ := hstands f hf
    exact stop_le_of_standsAt hsize hstart

/-- A string without its quote, a dot outside of every `With` and a loop left open: a failure of a
token by itself, one at a token that has been moved when it is reported, and one at the end
marker. -/
theorem failures_in_order_open_do :
    ∃ lexical grammar starts, (read [] (Bytes.ofString "Do\n.x = \"a\ny = .b + )") 0).failures =
        lexical ++ grammar ∧
      List.Forall₂ Failure.IsOf ((Lexer.tokens (Bytes.ofString "Do\n.x = \"a\ny = .b + )") 0).filter
        (·.kind.isLexicalError)) lexical ∧
      List.Forall₂ (Failure.StandsAt (Bytes.ofString "Do\n.x = \"a\ny = .b + )") 0) starts grammar ∧
      starts.Pairwise (· ≤ ·) ∧
      (∀ f ∈ grammar, f.code ∈ Problem.grammarCodes) ∧
      (∀ f ∈ lexical ++ grammar, f.loc.file = 0 ∧
        ∃ start, f.StandsAt (Bytes.ofString "Do\n.x = \"a\ny = .b + )") 0 start) ∧
      ((Bytes.ofString "Do\n.x = \"a\ny = .b + )").length < 2 ^ 32 →
        grammar.Pairwise (fun f g => f.span.offset ≤ g.span.offset) ∧
        ∀ f ∈ lexical ++ grammar, f.span.offset.toNat + f.span.length.toNat ≤
          (Bytes.ofString "Do\n.x = \"a\ny = .b + )").length) :=
  failures_in_order [] (Bytes.ofString "Do\n.x = \"a\ny = .b + )") 0 (by decide +kernel)

end Document

end LosslessBasic
