import LosslessBasic.Diagnostic.Report
import LosslessBasic.Proofs.Diagnostic.Excerpt
import LosslessBasic.Proofs.Document.Order

/-!
# Reports point at tokens

A report shows a failure with the line of its token, and its carets begin below the first character
of the token (`Report.emitFailures_underlines`). A failure is reported at a token
(`Document.exists_token_of_mem_failures`), a token has the position of the byte where it starts
(`Lexer.exists_startsAt`), and an excerpt shows the line of that position with as many characters in
front of the carets as the column says.

## Main definitions

* `Report.Underlines`: a report shows the line that a byte of a source stands on, with carets that
  begin below the character that starts there.
-/

namespace LosslessBasic

open Bytes Ascii

namespace Document

/-- Every failure of a source that is UTF-8 is reported at a token of it. -/
theorem exists_token_of_mem_failures {origin source : Bytes} {file : UInt32}
    (hvalid : Utf8.firstInvalid? source = none) {f : Failure}
    (hf : f ∈ (read origin source file).failures) :
    ∃ t ∈ Lexer.tokens source file, f = .atToken f.problem t := by
  rw [failures_of_valid hvalid] at hf
  rcases List.mem_append.mp hf with hlexical | hgrammar
  · -- a failure of a token by itself, such as a string without its quote
    obtain ⟨t, ht, hproblem⟩ := List.mem_filterMap.mp hlexical
    obtain ⟨problem, -, rfl⟩ := Option.map_eq_some_iff.mp hproblem
    exact ⟨t, ht, rfl⟩
  · -- a failure of the grammar, which is reported where the reading stands
    obtain ⟨last, indices, -, -, hat⟩ := inOrder_final source file
    obtain ⟨i, -, t, ht, hfailure, -⟩ := exists_of_mem_right hat hgrammar
    exact ⟨t, List.mem_of_getElem? ht, hfailure⟩

end Document

namespace Report

/-- Whether a report shows, for a failure, the line of the byte `start` of a source, and underlines
it from that byte on. -/
structure Underlines (report : Report) (registry : Registry) (source : Bytes)
    (start : Nat) (t : Token)
    (f : Failure) : Prop where
  /-- The line shown is the one from behind the last line break in front of the byte up to the next
  one. -/
  line : report.line f.loc = source.lineAt start
  /-- As many characters of it as there are columns in front of the failure are the bytes up to
  `start`. The one behind them is the first one of the token; there is none only where a line break
  or the end of the source is. -/
  characters : ∃ before behind : List Char,
    source.lineAt start = Utf8.ofChars (before ++ behind) ∧
    Utf8.ofChars before = source.extract (source.lineStart start) start ∧
    before.length + 1 = f.loc.column.toNat ∧
    (∀ c ∈ behind.head?, String.utf8EncodeChar c <+: t.text) ∧
    (behind = [] ↔ ∀ b ∈ source[start]?, isLineBreak b = true)
  /-- A line with bytes is shown with carets below it: one blank for each of these characters, and
  then at least one caret. -/
  text : ∃ more : Nat, report.entryText registry (.ofFailure f) =
    (Marked.ofFailure f).header registry ++
      if source.lineAt start = [] then []
      else source.lineAt start ++ [lineFeed] ++
        (List.replicate (f.loc.column.toNat - 1) (byte ' ') ++
          List.replicate (more + 1) (byte '^')) ++
        [lineFeed]

/-! ## What a report holds -/

theorem emitFailures_eq (r : Report) (failures : List Failure) :
    r.emitFailures failures =
      { r with
        log := ⟨r.log.diagnostics ++ failures.map fun f => .ofFailure f⟩
        entries := r.entries ++ failures.map .ofFailure } := by
  induction failures generalizing r with
  | nil => simp [emitFailures]
  | cons f failures ih =>
    refine (ih (r.emit (.ofFailure f))).trans ?_
    simp [emit, Log.report, Marked.ofFailure]

/-- The source that was added last for a file is the one that is shown. -/
theorem line_emitFailures_addSource (r : Report) {file : UInt32} (source : Bytes)
    (failures : List Failure) {loc : Location} (hfile : loc.file = file) :
    ((r.addSource file source).emitFailures failures).line loc = Excerpt.line source loc.line := by
  rw [emitFailures_eq, line, Report.source, addSource, hfile, List.lookup_cons_self,
    Option.getD_some]

/-- Failures are shown behind what is shown already. -/
theorem text_emitFailures (r : Report) (registry : Registry) (failures : List Failure) :
    (r.emitFailures failures).text registry =
      r.text registry ++ failures.flatMap fun f => r.entryText registry (.ofFailure f) := by
  have hentry : (r.emitFailures failures).entryText registry = r.entryText registry := by
    rw [emitFailures_eq]
    rfl
  rw [text, hentry, emitFailures_eq, List.flatMap_append, List.flatMap_map]
  rfl

/-! ## Where a report points -/

variable {source : Bytes} {file : UInt32} {start : Nat} {t : Token}

/-- The first character of the line from the start of a token on is the first one of the token. -/
theorem prefix_text_of_startsAt (ht : t.StartsAt source file start) {c : Char} {behind : List Char}
    (hbehind : source.extract start (source.lineEnd start) = Utf8.ofChars (c :: behind)) :
    String.utf8EncodeChar c <+: t.text := by
  have hfirst : String.utf8EncodeChar c <+: source.drop start := by
    have hline : source.extract start (source.lineEnd start) <+: source.drop start := by
      rw [extract_lineEnd]
      exact List.takeWhile_prefix _
    rw [hbehind] at hline
    exact (List.prefix_append _ _).trans hline
  obtain ⟨lead, more, hlead, -, hmore, -⟩ := Utf8.exists_cons_utf8EncodeChar c
  rcases List.prefix_or_prefix_of_prefix hfirst ht.text with hprefix | ⟨rest, hrest⟩
  · exact hprefix
  · -- the token would end within the character, in front of a byte that continues it
    cases rest with
    | nil =>
      rw [List.append_nil] at hrest
      exact hrest ▸ List.prefix_refl _
    | cons b rest =>
      have hne : t.text ≠ [] := by
        refine ht.ne_nil ?_
        have hlength := hfirst.length_le
        rw [hlead, List.length_cons, List.length_drop] at hlength
        omega
      obtain ⟨a, text, htext⟩ := List.exists_cons_of_ne_nil hne
      obtain ⟨tail, htail⟩ := hfirst
      have hhead : (source.drop (start + t.text.length)).head? = some b := by
        rw [← List.drop_drop, ← htail, ← hrest, List.append_assoc, List.drop_left]
        rfl
      have hb : b ∈ more := by
        rw [hlead, htext, List.cons_append] at hrest
        rw [← (List.cons.inj hrest).2]
        simp
      have hcontinues := ht.behind.character b hhead
      rw [hmore b hb] at hcontinues
      cases hcontinues

/-- A failure at a token is shown with the line of the token, as far as words hold its line and
column. -/
theorem underlines_of_startsAt (report : Report) (registry : Registry)
    (hvalid : Utf8.firstInvalid? source = none) (ht : t.StartsAt source file start)
    (hline : 1 + source.breaksBefore start < 2 ^ 32)
    (hcolumn : 1 + source.columnsBefore start < 2 ^ 32)
    {f : Failure} (hf : f = .atToken f.problem t)
    (hreport : report.line f.loc = Excerpt.line source f.loc.line) :
    report.Underlines registry source start t f := by
  have hloc : f.loc = (Position.ofOffset source start).locate file := by
    rw [hf]
    exact ht.loc
  have hcolumns : f.loc.column.toNat = 1 + source.columnsBefore start := by
    rw [hloc]
    exact UInt32.toNat_ofNat_of_lt' hcolumn
  have hshown : report.line f.loc = source.lineAt start := by
    rw [hreport]
    refine Excerpt.line_eq_lineAt ht.le ht.before.getElem?_ne ?_
    rw [hloc]
    exact UInt32.toNat_ofNat_of_lt' hline
  -- the token starts between two characters, which parts those of its line
  obtain ⟨before, behind, hbefore, hbehind, hcount⟩ := exists_chars_lineAt hvalid ht.le ht.before
  refine ⟨hshown, ⟨before, behind, ?_, hbefore.symm, by omega, ?_, ?_⟩, ?_⟩
  · rw [lineAt_eq_append, hbefore, hbehind, Utf8.ofChars_append]
  · intro c hc
    obtain ⟨rest, rfl⟩ := List.head?_eq_some_iff.mp hc
    exact prefix_text_of_startsAt ht hbehind
  · rw [← extract_lineEnd_eq_nil_iff, hbehind, Utf8.ofChars_eq_nil_iff]
  · -- there is always one caret
    obtain ⟨more, hmore⟩ :
        ∃ more, Excerpt.caretCount (source.lineAt start) f.loc.column f.span.length =
        more + 1 := ⟨_, (Nat.succ_pred_eq_of_pos (Nat.le_max_left _ _)).symm⟩
    refine ⟨more, ?_⟩
    change (Marked.ofFailure f).header registry ++
      Excerpt.text (report.line f.loc) f.loc.column f.span.length = _
    rw [hshown, Excerpt.text, Excerpt.carets, hmore]
    simp only [List.isEmpty_iff, Excerpt.indent]

/-- Every failure of a source that is UTF-8 is shown with the line of its token. -/
theorem exists_underlines (r : Report) (registry : Registry) {origin : Bytes}
    (hvalid : Utf8.firstInvalid? source = none) {f : Failure}
    (hf : f ∈ (Document.read origin source file).failures) :
    ∃ t ∈ Lexer.tokens source file, ∃ start, f = .atToken f.problem t ∧
      t.StartsAt source file start ∧
      (1 + source.breaksBefore start < 2 ^ 32 → 1 + source.columnsBefore start < 2 ^ 32 →
        ((r.addSource file source).emitFailures
          (Document.read origin source file).failures).Underlines
          registry source start t f) := by
  obtain ⟨t, ht, hfailure⟩ := Document.exists_token_of_mem_failures hvalid hf
  obtain ⟨start, hstart⟩ := Lexer.exists_startsAt hvalid t ht
  have hfile : f.loc.file = file := by
    rw [hfailure]
    exact congrArg Location.file hstart.loc
  exact ⟨t, ht, start, hfailure, hstart, fun hline hcolumn =>
    underlines_of_startsAt _ registry hvalid hstart hline hcolumn hfailure
      (line_emitFailures_addSource r source _ hfile)⟩

/-- The failures of a source that is UTF-8 are shown, in their order and behind what is shown
already, each with the line that its token starts on and with carets from below the first character
of the token on, or from behind the line where the token is the line break or the end of the source.
Line and column are words: they are those of the token where words hold them. -/
theorem emitFailures_underlines (r : Report) (registry : Registry) (origin source : Bytes)
    (file : UInt32)
    (hvalid : Utf8.firstInvalid? source = none) :
    let failures := (Document.read origin source file).failures
    let report := (r.addSource file source).emitFailures failures
    report.text registry = (r.addSource file source).text registry ++
        (failures.flatMap fun f => report.entryText registry (.ofFailure f)) ∧
      ∀ f ∈ failures, ∃ t ∈ Lexer.tokens source file, ∃ start,
        f = .atToken f.problem t ∧ t.StartsAt source file start ∧
        (1 + source.breaksBefore start < 2 ^ 32 → 1 + source.columnsBefore start < 2 ^ 32 →
          report.Underlines registry source start t f) := by
  intro failures report
  have hentry : report.entryText registry = (r.addSource file source).entryText registry := by
    change ((r.addSource file source).emitFailures failures).entryText registry = _
    rw [emitFailures_eq]
    rfl
  refine ⟨?_, fun f hf => exists_underlines r registry hvalid hf⟩
  rw [hentry]
  exact text_emitFailures _ registry failures

/-- A line continued behind CR LF, a string without its quote in front of a lone CR, and a
parenthesis that starts no statement. -/
theorem emitFailures_underlines_continued :
    Utf8.firstInvalid? (ofString "_\r\na=\"é\"&\"y\r)") = none ∧
      let failures := (Document.read [] (ofString "_\r\na=\"é\"&\"y\r)") 1).failures
      let report := (Report.addSource {} 1 (ofString "_\r\na=\"é\"&\"y\r)")).emitFailures failures
      report.text {} = (Report.addSource {} 1 (ofString "_\r\na=\"é\"&\"y\r)")).text {} ++
          (failures.flatMap fun f => report.entryText {} (.ofFailure f)) ∧
        ∀ f ∈ failures, ∃ t ∈ Lexer.tokens (ofString "_\r\na=\"é\"&\"y\r)") 1, ∃ start,
          f = .atToken f.problem t ∧ t.StartsAt (ofString "_\r\na=\"é\"&\"y\r)") 1 start ∧
          (1 + (ofString "_\r\na=\"é\"&\"y\r)").breaksBefore start < 2 ^ 32 →
            1 + (ofString "_\r\na=\"é\"&\"y\r)").columnsBefore start < 2 ^ 32 →
            report.Underlines {} (ofString "_\r\na=\"é\"&\"y\r)") start t f) :=
  ⟨by decide,
    emitFailures_underlines {} {} [] (ofString "_\r\na=\"é\"&\"y\r)") 1 (by decide)⟩

/-- What the report shows: the character of two bytes takes one column. -/
example :
    ((Report.addSource {} 1 (ofString "_\r\na=\"é\"&\"y\r)")).emitFailures
        (Document.read [] (ofString "_\r\na=\"é\"&\"y\r)") 1).failures).text {} =
      ofString ("error[B0003]: unterminated string literal\na=\"é\"&\"y\n      ^^\n" ++
        "error[B0004]: unexpected ')' at start of statement\n)\n^\n") := by
  decide +kernel

/-! ## How far carets reach -/

/-- A word may hold less than the number of bytes that are left of a line, but never more. -/
theorem toNat_room_le (line : Bytes) (column : UInt32) :
    (Excerpt.room line column).toNat ≤ line.length - Excerpt.indent column := by
  rw [Excerpt.room, Nat.toUInt32_eq, UInt32.toNat_ofNat']
  exact Nat.mod_le _ _

/-- Blanks and carets reach to the end of the line counted in bytes, and one caret may stand behind
it. -/
theorem length_carets_le (line : Bytes) (column length : UInt32) (hcolumn : 0 < column.toNat) :
    (Excerpt.carets line column length).length ≤ max column.toNat line.length := by
  have hroom := toNat_room_le line column
  simp only [Excerpt.carets, Excerpt.caretCount, Excerpt.indent, List.length_append,
    List.length_replicate] at hroom ⊢
  omega

/-- The carets below a line begin on it or right behind it, counted in characters. They end on it
counted in bytes, so that they may reach beyond it by as many characters as it has continuation
bytes. Below a line of ASCII they end on it, but for one caret that may stand right behind it. -/
theorem carets_reach (r : Report) (origin source : Bytes) (file : UInt32)
    (hvalid : Utf8.firstInvalid? source = none) :
    let failures := (Document.read origin source file).failures
    let report := (r.addSource file source).emitFailures failures
    ∀ f ∈ failures, ∃ t ∈ Lexer.tokens source file, ∃ start,
      f = .atToken f.problem t ∧ t.StartsAt source file start ∧
      (1 + source.breaksBefore start < 2 ^ 32 → 1 + source.columnsBefore start < 2 ^ 32 →
        ∃ cs : List Char, report.line f.loc = Utf8.ofChars cs ∧
          f.loc.column.toNat ≤ cs.length + 1 ∧
          (Excerpt.carets (report.line f.loc) f.loc.column f.span.length).length ≤
            max f.loc.column.toNat (cs.length + (report.line f.loc).countP Utf8.isContinuation) ∧
          ((∀ b ∈ report.line f.loc, b < 0x80) →
            (Excerpt.carets (report.line f.loc) f.loc.column f.span.length).length ≤ cs.length ∨
            (f.loc.column.toNat = cs.length + 1 ∧
              Excerpt.caretCount (report.line f.loc) f.loc.column f.span.length = 1))) := by
  intro failures report f hf
  obtain ⟨t, ht, start, hfailure, hstart, hunderlines⟩ := exists_underlines r {} hvalid hf
  refine ⟨t, ht, start, hfailure, hstart, fun hline hcolumn => ?_⟩
  have hshown := hunderlines hline hcolumn
  obtain ⟨before, behind, hchars, -, hcount, -, -⟩ := hshown.characters
  have hcs : report.line f.loc = Utf8.ofChars (before ++ behind) := hshown.line.trans hchars
  have hlength : (report.line f.loc).length =
      (before ++ behind).length + (report.line f.loc).countP Utf8.isContinuation := by
    rw [hcs]
    exact Utf8.length_ofChars _
  have hcolumn : f.loc.column.toNat ≤ (before ++ behind).length + 1 := by
    rw [List.length_append]
    omega
  have hreach := length_carets_le (report.line f.loc) f.loc.column f.span.length (by omega)
  rw [hlength] at hreach
  refine ⟨before ++ behind, hcs, hcolumn, hreach, fun hascii => ?_⟩
  -- on a line of ASCII bytes and characters are as many
  have hnone : (report.line f.loc).countP Utf8.isContinuation = 0 :=
    List.countP_eq_zero.mpr fun b hb hcontinues =>
      Utf8.not_ascii_of_isContinuation b hcontinues (hascii b hb)
  rw [hnone, Nat.add_zero] at hreach hlength
  rcases Nat.lt_or_ge (before ++ behind).length f.loc.column.toNat with hbehind | hwithin
  · -- no byte of the line is left for a second caret
    refine .inr ⟨by omega, ?_⟩
    have hroom := toNat_room_le (report.line f.loc) f.loc.column
    simp only [Excerpt.caretCount, Excerpt.indent] at hroom ⊢
    omega
  · exact .inl (by omega)

/-- A string without its quote that has a character of two bytes. -/
theorem carets_reach_unterminated :
    Utf8.firstInvalid? (ofString "x = \"é") = none ∧
      let failures := (Document.read [] (ofString "x = \"é") 1).failures
      let report := (Report.addSource {} 1 (ofString "x = \"é")).emitFailures failures
      ∀ f ∈ failures, ∃ t ∈ Lexer.tokens (ofString "x = \"é") 1, ∃ start,
        f = .atToken f.problem t ∧ t.StartsAt (ofString "x = \"é") 1 start ∧
        (1 + (ofString "x = \"é").breaksBefore start < 2 ^ 32 →
          1 + (ofString "x = \"é").columnsBefore start < 2 ^ 32 →
          ∃ cs : List Char, report.line f.loc = Utf8.ofChars cs ∧
            f.loc.column.toNat ≤ cs.length + 1 ∧
            (Excerpt.carets (report.line f.loc) f.loc.column f.span.length).length ≤
              max f.loc.column.toNat (cs.length + (report.line f.loc).countP Utf8.isContinuation) ∧
            ((∀ b ∈ report.line f.loc, b < 0x80) →
              (Excerpt.carets (report.line f.loc) f.loc.column f.span.length).length ≤ cs.length ∨
              (f.loc.column.toNat = cs.length + 1 ∧
                Excerpt.caretCount (report.line f.loc) f.loc.column f.span.length = 1))) :=
  ⟨by decide, carets_reach {} [] (ofString "x = \"é") 1 (by decide)⟩

/-- The last one of three carets stands behind the six characters of this line. -/
theorem carets_behind_line :
    ∃ f ∈ (Document.read [] (ofString "x = \"é") 1).failures,
      let report := (Report.addSource {} 1 (ofString "x = \"é")).emitFailures
        (Document.read [] (ofString "x = \"é") 1).failures
      report.line f.loc = Utf8.ofChars ['x', ' ', '=', ' ', '"', 'é'] ∧
        Excerpt.caretCount (report.line f.loc) f.loc.column f.span.length = 3 ∧
        (Excerpt.carets (report.line f.loc) f.loc.column f.span.length).length = 7 := by
  decide +kernel

end Report

end LosslessBasic
