import LosslessBasic.Proofs.Document.Alike
import LosslessBasic.Proofs.Lexer.Names
import LosslessBasic.Proofs.Lexer.SourcesRespelled

/-!
# The style of line breaks does not matter

A source whose lines end in line feeds is read as it is with its lines ending in carriage returns,
or in a carriage return and a line feed: the tokens and failures stand on the same lines and in the
same columns, and the trees are of one shape (`Document.reading_ignores_line_breaks`). Only offsets
and the texts of line breaks differ.
-/

namespace LosslessBasic

open Bytes Ascii

/-- A text with its line feeds written in another way. -/
def Bytes.withLineBreaks (eol : Bytes) (x : Bytes) : Bytes :=
  x.flatMap fun c => if c == lineFeed then eol else [c]

/-- Another style of line breaks than a line feed. -/
structure LineBreakStyle where
  /-- The bytes of a line break. -/
  eol : Bytes
  /-- A carriage return, with or without a line feed behind it. -/
  eol_eq : eol = [carriageReturn, lineFeed] ∨ eol = [carriageReturn]

variable {style : LineBreakStyle} {x x' : Bytes}

namespace Bytes

/-- The line breaks of two texts in a row are replaced one text after the other. -/
theorem withLineBreaks_append (eol x y : Bytes) :
    withLineBreaks eol (x ++ y) = withLineBreaks eol x ++ withLineBreaks eol y :=
  List.flatMap_append

theorem withLineBreaks_lineFeed (eol x : Bytes) :
    withLineBreaks eol (lineFeed :: x) = eol ++ withLineBreaks eol x := rfl

/-- A byte that breaks no line is kept. -/
theorem withLineBreaks_cons {c : UInt8} (hc : isLineBreak c = false) (eol x : Bytes) :
    withLineBreaks eol (c :: x) = c :: withLineBreaks eol x := by
  have hne : ¬ (c == lineFeed) = true := by
    intro heq
    rw [beq_iff_eq.mp heq] at hc
    revert hc
    decide
  rw [withLineBreaks, List.flatMap_cons, if_neg hne]
  rfl

/-- A text without line breaks is kept. -/
theorem withLineBreaks_eq_self (h : ∀ c ∈ x, isLineBreak c = false) (eol : Bytes) :
    withLineBreaks eol x = x := by
  induction x with
  | nil => rfl
  | cons c x ih =>
    obtain ⟨hc, hx⟩ := List.forall_mem_cons.mp h
    rw [withLineBreaks_cons hc, ih hx]

/-- Where carriage returns alone break lines, there is no line feed. -/
theorem head?_withLineBreaks_ne (x : Bytes) :
    ((withLineBreaks [carriageReturn] x).head? == some lineFeed) = false := by
  cases x with
  | nil => rfl
  | cons c x =>
    by_cases hc : c = lineFeed
    · subst hc
      rfl
    · rw [withLineBreaks, List.flatMap_cons, if_neg (by simpa using hc)]
      simpa using hc

end Bytes

namespace Lexer

open Respelling

variable (style) in
/-- Line feeds written in another style. -/
def otherBreaks : Respelling where
  keepsCase := True
  ends := True
  lineBreak u u' := u = [lineFeed] ∧ u' = style.eol
  cut _ _ := False

/-- Without carriage returns a line break is a line feed. -/
theorem lineBreakWidth_of_not_mem {c : UInt8} {rest : Bytes} (hbreak : isLineBreak c = true)
    (h : carriageReturn ∉ c :: rest) : c = lineFeed ∧ Cursor.lineBreakWidth (c :: rest) = 1 := by
  have hne : c ≠ carriageReturn := fun heq => h (heq ▸ List.mem_cons_self)
  have hc : c = lineFeed := by
    rcases Bool.or_eq_true_iff.mp hbreak with hc | hc
    · exact absurd (beq_iff_eq.mp hc) hne
    · exact beq_iff_eq.mp hc
  subst hc
  exact ⟨rfl, rfl⟩

/-- A line break of the style is one line break, whatever stands behind it. -/
theorem lineBreakWidth_eol (style : LineBreakStyle) (x : Bytes) :
    Cursor.lineBreakWidth (style.eol ++ withLineBreaks style.eol x) = style.eol.length := by
  rcases style.eol_eq with heol | heol
  · rw [heol]
    rfl
  · rw [heol, List.singleton_append, Cursor.lineBreakWidth, head?_withLineBreaks_ne]
    rfl

/-- A text without carriage returns is spelled by the same text in another style. -/
theorem spells_withLineBreaks (hx : Utf8.IsText x) (h : carriageReturn ∉ x) :
    (otherBreaks style).Spells x (withLineBreaks style.eol x) := by
  induction hx with
  | nil => exact .nil trivial
  | byte hascii hbreak _ ih =>
    rw [withLineBreaks_cons hbreak]
    exact .byte hascii hbreak rfl (fun _ => rfl) (ih fun hmem => h (List.mem_cons_of_mem _ hmem))
  | @wide u x y hu hy _ ih =>
    subst hy
    rw [withLineBreaks_append, withLineBreaks_eq_self fun c hc =>
      (apart_of_wide c (hu.wide c hc)).2.1]
    exact .wide hu rfl rfl (ih fun hmem => h (List.mem_append_right _ hmem))
  | @lineBreak x hpos _ ih =>
    obtain ⟨c, rest, rfl, hbreak⟩ := Cursor.exists_cons_of_lineBreakWidth_pos hpos
    obtain ⟨rfl, hwidth⟩ := lineBreakWidth_of_not_mem hbreak h
    have heol := lineBreakWidth_eol style rest
    have hrest := ih fun hmem => h (List.mem_of_mem_drop hmem)
    rw [hwidth] at hrest
    have hlength : 0 < style.eol.length := by
      rcases style.eol_eq with heol | heol <;> rw [heol] <;> decide
    rw [withLineBreaks_lineFeed]
    refine .lineBreak hpos (heol ▸ hlength) ?_ ?_
    · rw [hwidth, heol, List.take_left]
      exact ⟨rfl, rfl⟩
    · rw [hwidth, heol, List.drop_left]
      exact hrest

/-- A text that spells another one in the style is this one in the style, which has no carriage
returns. -/
theorem eq_withLineBreaks (h : (otherBreaks style).Spells x x') :
    withLineBreaks style.eol x = x' ∧ carriageReturn ∉ x := by
  induction h with
  | nil => exact ⟨rfl, List.not_mem_nil⟩
  | cut h => exact h.elim
  | byte _ hbreak _ hcase _ ih =>
    obtain rfl := hcase trivial
    refine ⟨by rw [withLineBreaks_cons hbreak, ih.1], ?_⟩
    rintro (_ | ⟨_, hmem⟩)
    · cases hbreak
    · exact ih.2 hmem
  | wide hu hy hy' _ ih =>
    subst hy hy'
    refine ⟨?_, fun hmem => ?_⟩
    · rw [withLineBreaks_append, withLineBreaks_eq_self fun c hc =>
        (apart_of_wide c (hu.wide c hc)).2.1, ih.1]
    · rcases List.mem_append.mp hmem with hmem | hmem
      · exact hu.wide _ hmem (by decide)
      · exact ih.2 hmem
  | @lineBreak x x' _ _ hbreak _ ih =>
    obtain ⟨hfeed, heol⟩ := hbreak
    rw [← List.take_append_drop (Cursor.lineBreakWidth x) x,
      ← List.take_append_drop (Cursor.lineBreakWidth x') x', hfeed, heol]
    refine ⟨by rw [List.singleton_append, withLineBreaks_lineFeed, ih.1], fun hmem => ?_⟩
    rcases List.mem_append.mp hmem with hmem | hmem
    · revert hmem
      decide
    · exact ih.2 hmem

end Lexer

/-! ## Positions -/

/-- Two positions on one line and in one column. -/
def Position.SameLine (p p' : Position) : Prop := p.line = p'.line ∧ p.column = p'.column

namespace Position

variable {p p' : Position}

/-- A byte that breaks no line moves on by what it is. -/
theorem SameLine.step {c : UInt8} (h : p.SameLine p') (hc : isLineBreak c = false)
    (next next' : Option UInt8) :
    (p.step c next).SameLine (p'.step c next') := by
  have hother : (c == carriageReturn) = false ∧ (c == lineFeed) = false := by
    rwa [isLineBreak, Bool.or_eq_false_iff] at hc
  unfold Position.step
  rw [hother.1, hother.2]
  cases Utf8.isContinuation c with
  | true => exact h
  | false => exact ⟨h.1, congrArg (· + 1) h.2⟩

/-- A line break moves on to the next line, whatever its style. -/
theorem SameLine.after_eol (h : p.SameLine p') (style : LineBreakStyle) (next : Option UInt8)
    (x : Bytes) :
    (p.step lineFeed next).SameLine
      (p'.after style.eol.length (style.eol ++ withLineBreaks style.eol x)) := by
  rcases style.eol_eq with heol | heol
  · rw [heol]
    exact ⟨congrArg (· + 1) h.1, rfl⟩
  · have hnext : ((withLineBreaks [carriageReturn] x).head? != some lineFeed) = true :=
      congrArg (!·) (head?_withLineBreaks_ne x)
    have hstep : p'.step carriageReturn (withLineBreaks [carriageReturn] x).head? =
        { offset := p'.offset + 1, line := p'.line + 1, column := 1 } := by
      rw [Position.step, hnext]
      rfl
    rw [heol]
    change (p.step lineFeed next).SameLine
      (p'.step carriageReturn (withLineBreaks [carriageReturn] x).head?)
    rw [hstep]
    exact ⟨congrArg (· + 1) h.1, rfl⟩

/-- Behind a text the position is on the line and in the column it is in behind the text in the
style. -/
theorem SameLine.after (h : p.SameLine p') {u v : Bytes} (hcr : carriageReturn ∉ u ++ v) :
    (p.after u.length (u ++ v)).SameLine
      (p'.after (withLineBreaks style.eol u).length
        (withLineBreaks style.eol u ++ withLineBreaks style.eol v)) := by
  have hadd (p : Position) (a b : Bytes) (n : Nat) :
      p.after (a.length + n) (a ++ b) = (p.after a.length (a ++ b)).after n b := by
    have hafter := after_after p a.length n (a ++ b)
    rw [List.drop_left] at hafter
    exact hafter.symm
  induction u generalizing p p' with
  | nil => exact h
  | cons c u ih =>
    rw [List.cons_append, List.mem_cons, not_or] at hcr
    rw [List.cons_append, List.length_cons, Position.after]
    by_cases hbreak : isLineBreak c = true
    · have hnone : carriageReturn ∉ [c] := by simpa using hcr.1
      obtain ⟨rfl, -⟩ := Lexer.lineBreakWidth_of_not_mem hbreak hnone
      rw [withLineBreaks_lineFeed, List.length_append, List.append_assoc, hadd,
        ← withLineBreaks_append]
      have heol := h.after_eol style (u ++ v).head? (u ++ v)
      rw [withLineBreaks_append] at heol ⊢
      exact ih heol hcr.2
    · rw [Bool.not_eq_true] at hbreak
      rw [withLineBreaks_cons hbreak, List.cons_append, List.length_cons, Position.after]
      exact ih (h.step hbreak _ _) hcr.2

end Position

namespace Lexer

variable (style) in
/-- What is told of texts in another style of line breaks: all but the style. -/
def retellingOtherBreaks : Retelling where
  toRespelling := otherBreaks style
  whole _ _ := id
  told := withLineBreaks style.eol
  told' := id
  told_append := withLineBreaks_append style.eol
  told'_append _ _ := rfl
  told_eq h := (eq_withLineBreaks h).1
  place := Position.SameLine
  place_after := by
    intro p p' u v u' v' hp htold h hv
    obtain rfl : withLineBreaks style.eol u = u' := htold
    obtain ⟨rfl, -⟩ := eq_withLineBreaks hv
    exact hp.after (eq_withLineBreaks h).2

end Lexer

/-! ## What is seen -/

/-- Looking at tokens without looking at offsets, nor at texts other than names. -/
def View.anyBreaks : View where
  token? t :=
    some { t with text := if t.kind = .lexeme .identifier then t.text else [], offset := 0 }
  anchor a := { loc := a.loc }
  isInlineTrivia_of_none := nofun
  kind_of_some := by
    rintro t u ⟨⟩
    rfl
  isNamed_of_some := by
    rintro t u word ⟨⟩
    unfold Grammar.isNamed
    dsimp only
    split
    · rfl
    next hkind =>
      have hother : (t.kind == .lexeme .identifier) = false := by simpa using hkind
      rw [hother, Bool.false_and, Bool.false_and]
  start_of_some := by
    rintro t u ⟨⟩
    rfl
  behind_of_some := by
    rintro t u ⟨⟩
    rfl
  anchor_of_none _ _ := nofun
  anchor_anchor _ := rfl

/-- Every token is seen, whatever its line breaks are. -/
theorem View.anyBreaks_sighted (t : Token) : View.anyBreaks.token? t ≠ none := nofun

namespace Lexer

/-- The tokens of a source look the same in another style of line breaks. -/
theorem forall₂_like_anyBreaks {source : Bytes} (hvalid : Utf8.firstInvalid? source = none)
    (hcr : carriageReturn ∉ source) (style : LineBreakStyle) (file : UInt32) :
    List.Forall₂ View.anyBreaks.Like (tokens source file)
      (tokens (withLineBreaks style.eol source) file) := by
  have hspells : (retellingOtherBreaks style).Spells source (withLineBreaks style.eol source) :=
    spells_withLineBreaks (Utf8.isText_of_firstInvalid? hvalid) hcr
  rw [tokens_eq, tokens_eq]
  have hstart : (retellingOtherBreaks style).place {} {} := ⟨rfl, rfl⟩
  have hretells : List.Forall₂ (Retells (retellingOtherBreaks style) file)
      (tokensFrom file 0 {} source) (tokensFrom file 0 {} (withLineBreaks style.eol source)) :=
    forall₂_tokensFrom hspells hstart
  refine ((List.forall₂_and_left _ _).mpr ⟨isLineBreak_of_mem_name, hretells⟩).imp ?_
  rintro t t' ⟨hname, hkind, htext, p, p', ⟨hline, hcolumn⟩, -, hloc, -, hloc'⟩
  have hseen : (if t.kind = .lexeme .identifier then t.text else []) =
      if t'.kind = .lexeme .identifier then t'.text else [] := by
    rw [hkind]
    split
    next hidentifier =>
      exact (withLineBreaks_eq_self (hname hidentifier) style.eol).symm.trans htext
    next => rfl
  have hplace : t.loc = t'.loc := by
    rw [hloc, hloc', Position.locate, Position.locate, hline, hcolumn]
  change some _ = some _
  rw [hseen, hkind, hplace]

/-- A text in another style of line breaks is UTF-8 as it was. -/
theorem firstInvalid?_withLineBreaks {source : Bytes} (hvalid : Utf8.firstInvalid? source = none)
    (hcr : carriageReturn ∉ source) (style : LineBreakStyle) :
    Utf8.firstInvalid? (withLineBreaks style.eol source) = none :=
  ((spells_withLineBreaks (Utf8.isText_of_firstInvalid? hvalid) hcr).isText fun _ _ => False.elim)
    |>.firstInvalid?_eq_none

end Lexer

/-! ## What does not depend on the style of line breaks -/

/-- Two tokens of one kind on the same line, in the same column. -/
structure Token.SameLine (t t' : Token) : Prop where
  kind : t.kind = t'.kind
  /-- File, line and column. -/
  loc : t.loc = t'.loc

/-- Two trees with the same on top. -/
structure Tree.SameTop (t t' : Tree) : Prop where
  kind : t.kind = t'.kind
  isToken : t.isToken = t'.isToken

/-- Two failures with one code on the same line, in the same column. -/
structure Failure.SameLine (f f' : Failure) : Prop where
  code : f.code = f'.code
  loc : f.loc = f'.loc

/-- Trees that look the same have the same top. -/
theorem Tree.SameTop.of_like {V : View} (hsighted : ∀ t, V.token? t ≠ none) {t t' : Tree}
    (h : V.tree? t = V.tree? t') : t.SameTop t' := by
  obtain ⟨u, hu⟩ := View.exists_tree?_eq hsighted t
  obtain ⟨hkind, htoken⟩ := View.kind_of_tree? hu
  obtain ⟨hkind', htoken'⟩ := View.kind_of_tree? (h ▸ hu)
  exact ⟨hkind.symm.trans hkind', htoken.symm.trans htoken'⟩

theorem Token.SameLine.of_like {t t' : Token} (h : View.anyBreaks.Like t t') : t.SameLine t' := by
  obtain ⟨hkind, -, -, hloc⟩ := Token.mk.inj (Option.some.inj h)
  exact ⟨hkind, hloc⟩

theorem Failure.SameLine.of_like {f f' : Failure}
    (h : View.anyBreaks.failure f = View.anyBreaks.failure f') : f.SameLine f' := by
  obtain ⟨hcode, hanchors⟩ := Prod.mk.inj h
  exact ⟨congrArg Code.text hcode, congrArg Anchor.loc (Prod.mk.inj hanchors).1⟩

namespace Document

/-- A source without carriage returns and the same source in another style of line breaks have
tokens of the same kinds on the same lines and in the same columns, trees of one shape with the same
kinds, and the same failures on the same lines and in the same columns. -/
theorem reading_ignores_line_breaks (origin source : Bytes) (file : UInt32) (style : LineBreakStyle)
    (hvalid : Utf8.firstInvalid? source = none) (hcr : carriageReturn ∉ source) :
    List.Forall₂ Token.SameLine (Lexer.tokens source file)
        (Lexer.tokens (withLineBreaks style.eol source) file) ∧
      (∃ d d', (read origin source file).document? = some d ∧
        (read origin (withLineBreaks style.eol source) file).document? = some d' ∧
        ∀ path, Option.Rel Tree.SameTop (d.root.at? path) (d'.root.at? path)) ∧
      List.Forall₂ Failure.SameLine (read origin source file).failures
        (read origin (withLineBreaks style.eol source) file).failures := by
  have hlike := Lexer.forall₂_like_anyBreaks hvalid hcr style file
  have halike := View.readingsAlike (View.SameTokens.of_forall₂ hlike) origin origin
  obtain ⟨d, d', hd, hd', htree⟩ := halike.trees
  rw [read_of_valid hvalid, read_of_valid (Lexer.firstInvalid?_withLineBreaks hvalid hcr style)]
  exact ⟨hlike.imp fun _ _ => .of_like,
    ⟨d, d', hd, hd', View.at?_rel View.anyBreaks_sighted (.of_like View.anyBreaks_sighted) htree⟩,
    halike.forall₂_failures.imp fun _ _ => .of_like⟩

/-- A continued line, a comment, a stray closer and a string that is not closed, with lines ending
in a carriage return and a line feed. -/
theorem reading_ignores_line_breaks_continued :
    List.Forall₂ Token.SameLine (Lexer.tokens (ofString "a = _\n 1 ' é\nEnd If\n\"x\n") 1)
        (Lexer.tokens
          (withLineBreaks [carriageReturn, lineFeed] (ofString "a = _\n 1 ' é\nEnd If\n\"x\n")) 1) ∧
      (∃ d d', (read [] (ofString "a = _\n 1 ' é\nEnd If\n\"x\n") 1).document? = some d ∧
        (read []
          (withLineBreaks [carriageReturn, lineFeed] (ofString "a = _\n 1 ' é\nEnd If\n\"x\n"))
          1).document? = some d' ∧
        ∀ path, Option.Rel Tree.SameTop (d.root.at? path) (d'.root.at? path)) ∧
      List.Forall₂ Failure.SameLine (read [] (ofString "a = _\n 1 ' é\nEnd If\n\"x\n") 1).failures
        (read []
          (withLineBreaks [carriageReturn, lineFeed] (ofString "a = _\n 1 ' é\nEnd If\n\"x\n"))
          1).failures :=
  reading_ignores_line_breaks [] _ 1 ⟨_, .inl rfl⟩ (by decide +kernel) (by decide +kernel)

end Document

end LosslessBasic
