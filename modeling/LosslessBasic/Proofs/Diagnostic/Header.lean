import LosslessBasic.Proofs.Diagnostic.Report
import LosslessBasic.Proofs.Token.Dump

/-!
# One header line for a failure

A message quotes the token that its failure is reported at, and most tokens have no line break among
their bytes (`Lexer.isLine_text_iff`): line breaks themselves and comments are named by a word, and
line continuations stand between the words of a line, where hardly anything is reported. The name of
a member is asked for right behind its sign, though, and where a line continuation stands there, the
message quotes it and breaks with it (`Document.isLine_message_iff`). Every other failure is shown
with one header line, and unless the line of its token has no bytes, with this line and one line of
carets (`Report.lines_entryText`).
-/

namespace LosslessBasic

set_option maxRecDepth 2000

open Bytes Ascii

/-! ## Texts on one line -/

/-- Whether a text has no byte of a line break. -/
def Bytes.IsLine (text : Bytes) : Prop := ∀ b ∈ text, isLineBreak b = false

namespace Bytes.IsLine

variable {a b text : Bytes}

/-- Whether a text stands on one line can be checked byte by byte. -/
theorem iff_all : text.IsLine ↔ text.all (!isLineBreak ·) = true := by simp [IsLine]

instance : Decidable text.IsLine := decidable_of_iff _ iff_all.symm

theorem nil : IsLine [] := fun _ hb => absurd hb List.not_mem_nil

/-- Two texts stand on one line together if each of them does. -/
theorem append_iff : (a ++ b).IsLine ↔ a.IsLine ∧ b.IsLine := List.forall_mem_append

/-- Two texts that stand on one line do so together. -/
theorem append (ha : a.IsLine) (hb : b.IsLine) : (a ++ b).IsLine := append_iff.mpr ⟨ha, hb⟩

/-- A text that is quoted stands on one line if it does so itself. -/
theorem quoted_iff : (quoted text).IsLine ↔ text.IsLine := by
  have happ : quoted text = [apostrophe] ++ text ++ [apostrophe] := rfl
  have hquote : IsLine [apostrophe] := by decide
  rw [happ, append_iff, append_iff]
  exact ⟨fun h => h.1.2, fun h => ⟨⟨hquote, h⟩, hquote⟩⟩

theorem decimal (n : Nat) : (Bytes.decimal n).IsLine := by
  have hdigit : ∀ c, isDigit c = true → isLineBreak c = false := by decide
  exact fun c hc => hdigit c (isDigit_of_mem_decimal hc)

theorem replicate (n : Nat) {c : UInt8} (hc : isLineBreak c = false) :
    IsLine (List.replicate n c) :=
  fun b hb => by rwa [List.eq_of_mem_replicate hb]

end Bytes.IsLine

/-! ## Tokens -/

namespace Lexer

variable {source : Bytes} {file : UInt32} {n : Nat} {ts : List Token}

/-- The line break of a continuation is among its bytes. -/
theorem not_isLine_of_continuation {c : UInt8} {rest : Bytes}
    (h : (scan c rest).1 = .trivia .lineContinuation) :
    ¬ IsLine ((c :: rest).take (scan c rest).2) := by
  have hwidth := continuationWidth?_of_scan h
  unfold continuationWidth? at hwidth
  obtain ⟨-, hwidth⟩ := Option.ite_none_right_eq_some.mp hwidth
  obtain ⟨hzero, hwidth⟩ := Option.ite_none_left_eq_some.mp hwidth
  have hpos := Nat.pos_of_ne_zero (mt beq_iff_eq.mpr hzero)
  -- the line break stands behind the underscore and the blanks
  obtain ⟨b, more, hbreak, hb⟩ := Cursor.exists_cons_of_lineBreakWidth_pos hpos
  rw [← Option.some.inj hwidth]
  generalize Cursor.lineBreakWidth (rest.drop (rest.takeWhile isBlank).length) = width at hpos
  generalize (rest.takeWhile isBlank).length = blanks at hbreak ⊢
  have hmem : b ∈ (c :: rest).take (1 + blanks + width) := by
    have hdrop : (c :: rest).drop (1 + blanks) = b :: more := by
      rw [Nat.add_comm 1, List.drop_succ_cons, hbreak]
    obtain ⟨width, rfl⟩ := Nat.exists_eq_succ_of_ne_zero (Nat.pos_iff_ne_zero.mp hpos)
    rw [List.take_add, hdrop, List.take_succ_cons]
    exact List.mem_append_right _ (List.mem_cons_self ..)
  intro hline
  rw [hline b hmem] at hb
  cases hb

/-- The bytes of a token have a line break among them just when the token is one or continues its
line. -/
theorem Divided.isLine_text_iff (h : Divided source file n ts)
    (hvalid : Utf8.firstInvalid? (source.drop n) = none) :
    ∀ t ∈ ts, t.text.IsLine ↔ t.kind ≠ .trivia .newline ∧ t.kind ≠ .trivia .lineContinuation := by
  induction h with
  | marker =>
    intro t ht
    obtain rfl := List.mem_singleton.mp ht
    exact iff_of_true .nil ⟨nofun, nofun⟩
  | @token n c rest ts hrest hts ih =>
    rw [hrest] at hvalid
    intro t ht
    rcases List.mem_cons.mp ht with rfl | ht
    · obtain ⟨htext, -⟩ := text_tokenAt file (.ofOffset source n) c rest
      have hkind : (tokenAt file (.ofOffset source n) c rest).kind = (scan c rest).1 := rfl
      rw [htext, hkind]
      constructor
      · intro hline
        refine ⟨fun hnewline => ?_, fun hcontinuation =>
          not_isLine_of_continuation hcontinuation hline⟩
        -- a line break is its own first byte
        have hbreak := isLineBreak_of_scan hnewline
        have hc : c ∈ (c :: rest).take (scan c rest).2 := by
          rw [← htext]
          exact List.mem_cons_self ..
        rw [hline c hc] at hbreak
        cases hbreak
      · rintro ⟨hnewline, hcontinuation⟩
        by_cases hascii : c < 0x80
        · exact onLine_scan hnewline hcontinuation fun _ => hascii
        · exact onLine_of_wide hvalid hascii
    · refine ih ?_ t ht
      have hvalid' := firstInvalid?_drop_scan hvalid
      rwa [← hrest, List.drop_drop] at hvalid'

/-- The text of a token stands on one line unless it is a line break or continues a line. -/
theorem isLine_text_iff (hvalid : Utf8.firstInvalid? source = none) {t : Token}
    (ht : t ∈ tokens source file) :
    t.text.IsLine ↔ t.kind ≠ .trivia .newline ∧ t.kind ≠ .trivia .lineContinuation :=
  (divided_tokens source file).isLine_text_iff hvalid t ht

/-- A token is named on one line, unless it continues its line. -/
theorem isLine_describe_iff (hvalid : Utf8.firstInvalid? source = none) {t : Token}
    (ht : t ∈ tokens source file) : t.describe.IsLine ↔ t.kind ≠ .trivia .lineContinuation := by
  have htext := isLine_text_iff hvalid ht
  unfold Token.describe
  split
  case h_5 hnewline _ _ => rw [IsLine.quoted_iff, htext, and_iff_right hnewline]
  all_goals
    next hkind =>
      rw [hkind]
      exact iff_of_true (by decide) nofun

end Lexer

/-! ## Messages -/

theorem Kind.isLine_spelling (k : Kind) : (ofString k.spelling).IsLine := by
  have hall : ∀ k ∈ all, (ofString k.spelling).IsLine := by decide
  by_cases hk : ∃ n, k = .unassigned n
  · obtain ⟨n, rfl⟩ := hk
    have hmark : (ofString "?").IsLine := by decide
    exact hmark
  · exact hall k (mem_all fun n hn => hk ⟨n, hn⟩)

theorem Wanted.isLine_text (wanted : Wanted) : wanted.text.IsLine := by
  cases wanted with
  | token k => exact IsLine.quoted_iff.mpr k.isLine_spelling
  | _ => decide

theorem Closer.isLine_opener (c : Closer) : (ofString c.opener).IsLine := by
  obtain ⟨block, isSegment⟩ := c
  cases block <;> cases isSegment <;> decide

theorem Block.isLine_closer (b : Block) : (ofString b.closer).IsLine := by cases b <;> decide

/-- What is no inline trivia does not continue a line. -/
theorem TokenStream.kind_ne_of_isSolid {t : Token} (h : isSolid t = true) :
    t.kind ≠ .trivia .lineContinuation := by
  intro hkind
  rw [isSolid, hkind] at h
  cases h

namespace Problem

variable {source : Bytes} {file : UInt32} {t : Token}

/-- A message is one line unless it says that a line continuation is no name of a member. -/
theorem isLine_message_iff (hvalid : Utf8.firstInvalid? source = none) {problem : Problem}
    (ht : t ∈ Lexer.tokens source file) (h : problem.Quotes (Lexer.tokens source file) t) :
    problem.message.IsLine ↔
      ¬ (problem = .expected .memberName t ∧ t.kind = .trivia .lineContinuation) := by
  have hdescribe := Lexer.isLine_describe_iff hvalid ht
  have hnamed (hsolid : TokenStream.isSolid t = true) : t.describe.IsLine :=
    hdescribe.mpr (TokenStream.kind_ne_of_isSolid hsolid)
  have hword {u : Token} (hu : u ∈ Lexer.tokens source file) (hkeyword : u.kind.isKeyword = true) :
      u.text.IsLine := by
    rw [Lexer.isLine_text_iff hvalid hu]
    constructor <;> intro hkind <;> rw [hkind] at hkeyword <;> cases hkeyword
  cases problem with
  | expected wanted got =>
    obtain ⟨rfl, hsolid⟩ := h
    have hmessage : (expected wanted got).message.IsLine ↔ got.describe.IsLine := by
      have hfront : (ofString "expected ").IsLine := by decide
      have hmiddle : (ofString ", got ").IsLine := by decide
      rw [message, IsLine.append_iff, IsLine.append_iff, IsLine.append_iff]
      exact ⟨fun h => h.2, fun h => ⟨⟨⟨hfront, wanted.isLine_text⟩, hmiddle⟩, h⟩⟩
    rw [hmessage, hdescribe]
    constructor
    · exact fun hkind hboth => hkind hboth.2
    · intro hboth hkind
      -- a line continuation is met only where the name of a member is asked for
      have hmember : wanted = .memberName :=
        hsolid.resolve_right fun hsolid => TokenStream.kind_ne_of_isSolid hsolid hkind
      exact hboth ⟨by rw [hmember], hkind⟩
  | unexpectedStart got =>
    obtain ⟨rfl, hsolid⟩ := h
    have hfront : (ofString "unexpected ").IsLine := by decide
    have hbehind : (ofString " at start of statement").IsLine := by decide
    exact iff_of_true ((hfront.append (hnamed hsolid)).append hbehind) nofun
  | leftover got =>
    obtain ⟨rfl, hsolid⟩ := h
    have hfront : (ofString "unexpected ").IsLine := by decide
    have hbehind : (ofString ", expected end of statement").IsLine := by decide
    exact iff_of_true ((hfront.append (hnamed hsolid)).append hbehind) nofun
  | expectedCase got =>
    obtain ⟨rfl, hsolid⟩ := h
    have hfront : (ofString "expected 'Case', got ").IsLine := by decide
    exact iff_of_true (hfront.append (hnamed hsolid)) nofun
  | missingCloser block got =>
    obtain ⟨rfl, hsolid⟩ := h
    have hfront : (ofString "missing ").IsLine := by decide
    have hmiddle : (ofString " before ").IsLine := by decide
    have hcloser := IsLine.quoted_iff.mpr block.isLine_closer
    exact iff_of_true (((hfront.append hcloser).append hmiddle).append (hnamed hsolid)) nofun
  | unmatchedNext named =>
    obtain ⟨rfl, hsolid⟩ := h
    have hfront : (ofString "'Next' variable ").IsLine := by decide
    have hbehind : (ofString " without a matching 'For'").IsLine := by decide
    exact iff_of_true ((hfront.append (hnamed hsolid)).append hbehind) nofun
  | memberOutsideWith access =>
    obtain ⟨rfl, hsign⟩ := h
    have hfront : (ofString "leading ").IsLine := by decide
    have hbehind : (ofString " member access outside a With block").IsLine := by decide
    have htext : access.text.IsLine := by
      rw [Lexer.isLine_text_iff hvalid ht]
      constructor <;> intro hkind <;> rw [hkind] at hsign <;> cases hsign
    exact iff_of_true ((hfront.append (IsLine.quoted_iff.mpr htext)).append hbehind) nofun
  | unmatchedCloser written closer =>
    obtain ⟨hkeyword, hwritten⟩ := h
    have hmiddle : (ofString " without a matching ").IsLine := by decide
    have hline : written.IsLine := by
      rcases hwritten with rfl | ⟨u, hu, hsecond, rfl⟩
      · exact hword ht hkeyword
      · have hblank : (ofString " ").IsLine := by decide
        exact ((hword ht hkeyword).append hblank).append (hword hu hsecond)
    exact iff_of_true (((IsLine.quoted_iff.mpr hline).append hmiddle).append closer.isLine_opener)
      nofun
  | secondElse | straySeparator => exact iff_of_true (by decide) nofun
  | unknownCharacter | unterminatedString | invalidEncoding => exact h.elim

end Problem

namespace Document

/-- The message of a failure is one line, unless a line continuation stands right behind the sign of
an access, where the name of a member is asked for. -/
theorem isLine_message_iff {origin source : Bytes} {file : UInt32}
    (hvalid : Utf8.firstInvalid? source = none) {f : Failure}
    (hf : f ∈ (read origin source file).failures) :
    f.message.IsLine ↔ ¬ ∃ t ∈ Lexer.tokens source file,
      f = .atToken (.expected .memberName t) t ∧ t.kind = .trivia .lineContinuation := by
  rw [failures_of_valid hvalid] at hf
  -- a token that the lexer reports is never a line that is continued; of the grammar's only one
  -- message is
  rcases List.mem_append.mp hf with hlexical | hgrammar
  · obtain ⟨t, ht, hfailure⟩ := List.mem_filterMap.mp hlexical
    obtain ⟨problem, hproblem, rfl⟩ := Option.map_eq_some_iff.mp hfailure
    unfold Lexer.problem? at hproblem
    split at hproblem
    next =>
      obtain rfl := Option.some.inj hproblem
      have hmessage : Problem.unterminatedString.message.IsLine := by decide
      exact iff_of_true hmessage fun ⟨_, _, heq, _⟩ => nomatch congrArg Failure.problem heq
    next hkind =>
      obtain rfl := Option.some.inj hproblem
      have hfront : (ofString "unknown character ").IsLine := by decide
      have htext : t.text.IsLine :=
        (Lexer.isLine_text_iff hvalid ht).mpr ⟨by rw [hkind]; nofun, by rw [hkind]; nofun⟩
      exact iff_of_true (hfront.append (IsLine.quoted_iff.mpr htext))
        fun ⟨_, _, heq, _⟩ => nomatch congrArg Failure.problem heq
    next => cases hproblem
  · obtain ⟨last, indices, -, -, hat⟩ := inOrder_final source file
    obtain ⟨i, -, t, ht, hfailure, hquotes⟩ := exists_of_mem_right hat hgrammar
    have hmem := List.mem_of_getElem? ht
    have hmessage : f.message = f.problem.message := rfl
    rw [hmessage, Problem.isLine_message_iff hvalid hmem hquotes, not_iff_not]
    constructor
    · rintro ⟨hproblem, hkind⟩
      exact ⟨t, hmem, by rw [← hproblem]; exact hfailure, hkind⟩
    · rintro ⟨u, -, heq, hkind⟩
      have hproblem : f.problem = .expected .memberName u := congrArg Failure.problem heq
      rw [hproblem] at hquotes
      obtain ⟨rfl, -⟩ := hquotes
      exact ⟨hproblem, hkind⟩

end Document

/-! ## Entries of a report -/

/-- The lines of a source, counted from one, are lines. -/
theorem Excerpt.isLine_line (source : Bytes) (number : UInt32) : (line source number).IsLine := by
  have hafter (n : Nat) (source : Bytes) : ((lineAfter? n source).getD []).IsLine := by
    induction n generalizing source with
    | zero => exact fun b hb => by simpa using List.mem_takeWhile_imp hb
    | succ n ih =>
      rw [lineAfter?]
      cases afterBreak? source with
      | none => exact .nil
      | some rest => exact ih rest
  rw [line]
  split
  · exact .nil
  · exact hafter _ source

/-- A line of carets is one line. -/
theorem Excerpt.isLine_carets (line : Bytes) (column length : UInt32) :
    (carets line column length).IsLine :=
  (IsLine.replicate _ (by decide)).append (IsLine.replicate _ (by decide))

namespace Report

/-- The header of a failure, without the line feed that ends it. -/
def headerLine (registry : Registry) (f : Failure) : Bytes :=
  Diagnostic.place registry f.loc ++ Severity.error.text ++
    Diagnostic.bracketed (ofString f.code) ++
    ofString ": " ++ f.message

/-- The header of a failure is one line just when its message is, unless the path name of its file
is none. -/
theorem isLine_headerLine_iff {registry : Registry} {f : Failure}
    (hpath : (registry.path f.loc.file).IsLine) :
    (headerLine registry f).IsLine ↔ f.message.IsLine := by
  have hnumber (n : UInt32) : (Diagnostic.colonNumber n).IsLine := by
    have hcolon : IsLine [byte ':'] := by decide
    exact hcolon.append (.decimal _)
  have hposition : (Diagnostic.position f.loc).IsLine := by
    unfold Diagnostic.position
    split
    · exact .nil
    · refine (hnumber _).append ?_
      split
      · exact .nil
      · exact hnumber _
  have hplace : (Diagnostic.place registry f.loc).IsLine := by
    have hcolon : (ofString ": ").IsLine := by decide
    unfold Diagnostic.place
    dsimp only
    split
    · exact .nil
    · exact (hpath.append hposition).append hcolon
  have hseverity : Severity.error.text.IsLine := by decide
  have hcode : (Diagnostic.bracketed (ofString f.code)).IsLine := by
    have hall (code : Code) : (Diagnostic.bracketed (ofString code.text)).IsLine := by
      cases code <;> decide
    exact hall _
  have hcolon : (ofString ": ").IsLine := by decide
  rw [headerLine, IsLine.append_iff]
  exact and_iff_right (((hplace.append hseverity).append hcode).append hcolon)

/-- The lines of an entry: the header, and unless the line of the source has no bytes, this line and
one of carets. -/
theorem lines_entryText {report : Report} {registry : Registry} {f : Failure}
    (hpath : (registry.path f.loc.file).IsLine) (hmessage : f.message.IsLine) :
    let line := report.line f.loc
    let shown := headerLine registry f ::
      if line = [] then [] else [line, Excerpt.carets line f.loc.column f.span.length]
    report.entryText registry (.ofFailure f) = shown.flatMap (· ++ [lineFeed]) ∧
      ∀ l ∈ shown, l.IsLine := by
  intro line shown
  have hline : line.IsLine := Excerpt.isLine_line _ _
  have hcarets : (Excerpt.carets line f.loc.column f.span.length).IsLine :=
    Excerpt.isLine_carets line _ _
  have hheader := (isLine_headerLine_iff hpath).mpr hmessage
  have hentry : report.entryText registry (.ofFailure f) =
      headerLine registry f ++ [lineFeed] ++ Excerpt.text line f.loc.column f.span.length := rfl
  rw [hentry, Excerpt.text]
  by_cases hempty : line = []
  · simp [shown, hempty, hheader]
  · simp [shown, hempty, hheader, hline, hcarets]

/-- The failures of a source that is UTF-8 are shown, in their order and behind what is shown
already, each with one header line and, unless the line of its token has no bytes, this line and one
of carets: all but those that a line continuation is met with where the name of a member is asked
for, whose messages are not one line. -/
theorem emitFailures_lines (r : Report) (registry : Registry) (origin source : Bytes)
    (file : UInt32)
    (hvalid : Utf8.firstInvalid? source = none) :
    let failures := (Document.read origin source file).failures
    let report := (r.addSource file source).emitFailures failures
    report.text registry = (r.addSource file source).text registry ++
        (failures.flatMap fun f => report.entryText registry (.ofFailure f)) ∧
      ∀ f ∈ failures,
        (f.message.IsLine ↔ ¬ ∃ t ∈ Lexer.tokens source file,
          f = .atToken (.expected .memberName t) t ∧ t.kind = .trivia .lineContinuation) ∧
        ((registry.path file).IsLine → f.message.IsLine →
          let line := Excerpt.line source f.loc.line
          let shown := headerLine registry f ::
            if line = [] then [] else [line, Excerpt.carets line f.loc.column f.span.length]
          report.entryText registry (.ofFailure f) = shown.flatMap (· ++ [lineFeed]) ∧
            ∀ l ∈ shown, l.IsLine) := by
  intro failures report
  have hentries : report.entryText registry = (r.addSource file source).entryText registry := by
    change ((r.addSource file source).emitFailures failures).entryText registry = _
    rw [emitFailures_eq]
    rfl
  refine ⟨?_, fun f hf => ⟨Document.isLine_message_iff hvalid hf, fun hpath hmessage => ?_⟩⟩
  · rw [hentries]
    exact text_emitFailures _ registry failures
  · obtain ⟨t, -, start, hfailure, hstart, -⟩ := exists_underlines r registry hvalid hf
    have hfile : f.loc.file = file := by
      rw [hfailure]
      exact congrArg Location.file hstart.loc
    have hline : report.line f.loc = Excerpt.line source f.loc.line :=
      line_emitFailures_addSource r source failures hfile
    rw [← hline]
    exact lines_entryText (by rwa [hfile]) hmessage

/-- A parenthesis that the second line of a continued statement ends within. -/
theorem emitFailures_lines_continued :
    Utf8.firstInvalid? (ofString "x = _\r\n (\"é\"") = none ∧
      (Registry.path {} 1).IsLine ∧
      let failures := (Document.read [] (ofString "x = _\r\n (\"é\"") 1).failures
      let report := (Report.addSource {} 1 (ofString "x = _\r\n (\"é\"")).emitFailures failures
      ∃ f ∈ failures, f.message.IsLine ∧
        let line := Excerpt.line (ofString "x = _\r\n (\"é\"") f.loc.line
        let shown := headerLine {} f ::
          if line = [] then [] else [line, Excerpt.carets line f.loc.column f.span.length]
        report.entryText {} (.ofFailure f) = shown.flatMap (· ++ [lineFeed]) ∧
          ∀ l ∈ shown, l.IsLine := by
  have hvalid : Utf8.firstInvalid? (ofString "x = _\r\n (\"é\"") = none := by decide
  have hpath : (Registry.path {} 1).IsLine := by decide
  obtain ⟨f, hf, hmessage⟩ : ∃ f ∈ (Document.read [] (ofString "x = _\r\n (\"é\"") 1).failures,
      f.message.IsLine := by
    decide +kernel
  exact ⟨hvalid, hpath, f, hf, hmessage,
    ((emitFailures_lines {} {} [] (ofString "x = _\r\n (\"é\"") 1 hvalid).2 f hf).2 hpath hmessage⟩

/-- The message of the only failure of this source has a line feed: its header is two lines. -/
theorem emitFailures_lines_memberName :
    Utf8.firstInvalid? (ofString "._\n") = none ∧
      let failures := (Document.read [] (ofString "._\n") 1).failures
      (∃ f ∈ failures, lineFeed ∈ f.message) ∧
        ((Report.addSource {} 1 (ofString "._\n")).emitFailures failures).text {} =
          ofString "error[B0001]: expected member name, got '_\n'\n._\n ^\n" := by
  decide +kernel

end Report

end LosslessBasic
