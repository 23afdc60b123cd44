import LosslessBasic.Proofs.Document.Alike
import LosslessBasic.Proofs.Lexer.SourcesRespelled

/-!
# The case of letters does not matter

Two sources that differ in the case of letters only are read alike: their tokens are of the same
kinds and stand at the same places, and so do the nodes of their trees and their failures
(`Document.reading_ignores_case`).
-/

namespace LosslessBasic

open Bytes Ascii

set_option maxRecDepth 2000

/-! ## Positions -/

theorem upper_beq_lineFeed : ∀ c, (upper c == lineFeed) = (c == lineFeed) := by decide

theorem upper_beq_carriageReturn : ∀ c, (upper c == carriageReturn) = (c == carriageReturn) := by
  decide

/-- Capitals have line breaks of the same width. -/
theorem Cursor.lineBreakWidth_map_upper (x : Bytes) :
    lineBreakWidth (x.map upper) = lineBreakWidth x := by
  cases x with
  | nil => rfl
  | cons c rest =>
    have hnext : ((rest.map upper).head? == some lineFeed) = (rest.head? == some lineFeed) := by
      cases rest with
      | nil => rfl
      | cons d rest => exact upper_beq_lineFeed d
    rw [List.map_cons, lineBreakWidth, lineBreakWidth, upper_beq_carriageReturn,
      upper_beq_lineFeed, hnext]

namespace Position

/-- Capitals move a position as the letters do. -/
theorem step_upper (p : Position) (c : UInt8) (next : Option UInt8) :
    p.step (upper c) (next.map upper) = p.step c next := by
  have hcontinuation : ∀ c, Utf8.isContinuation (upper c) = Utf8.isContinuation c := by decide
  have hnext : (next.map upper != some lineFeed) = (next != some lineFeed) := by
    cases next with
    | none => rfl
    | some d => exact congrArg (!·) (upper_beq_lineFeed d)
  unfold step
  rw [upper_beq_lineFeed, upper_beq_carriageReturn, hcontinuation, hnext]

/-- Letters of either case take the same place. -/
theorem after_map_upper (p : Position) (n : Nat) (x : Bytes) :
    p.after n (x.map upper) = p.after n x := by
  induction n generalizing p x with
  | zero => rfl
  | succ n ih =>
    cases x with
    | nil => rfl
    | cons c x =>
      rw [List.map_cons, after, after, ih, List.head?_map, step_upper]

end Position

/-! ## Tokens -/

namespace Lexer

open Respelling

/-- Letters in any case. -/
def anyCase : Respelling where
  keepsCase := False
  ends := True
  lineBreak u u' := u = u'
  cut _ _ := False

/-- A spelling in another case has the same capitals. -/
theorem map_upper_eq {x x' : Bytes} (h : anyCase.Spells x x') : x.map upper = x'.map upper := by
  induction h with
  | nil => rfl
  | cut h => exact h.elim
  | byte _ _ hupper _ _ ih => rw [List.map_cons, List.map_cons, hupper, ih]
  | wide _ hy hy' _ ih => rw [hy, hy', List.map_append, List.map_append, ih]
  | @lineBreak x x' _ _ hbreak _ ih =>
    rw [← List.take_append_drop (Cursor.lineBreakWidth x) x,
      ← List.take_append_drop (Cursor.lineBreakWidth x') x', List.map_append,
      List.map_append, hbreak, ih]

/-- Bytes that are no letters are the same in upper case. -/
theorem eq_of_map_upper_eq {u u' : Bytes} (hu : ∀ c ∈ u, ∀ c', upper c = upper c' → c = c')
    (h : u.map upper = u'.map upper) : u = u' := by
  induction u generalizing u' with
  | nil => exact (List.map_eq_nil_iff.mp h.symm).symm
  | cons c u ih =>
    obtain ⟨hc, hu⟩ := List.forall_mem_cons.mp hu
    obtain ⟨c', u'', rfl, hupper, hrest⟩ := List.map_eq_cons_iff.mp h.symm
    rw [hc c' hupper.symm, ih hu hrest.symm]

/-- Texts that are the same in upper case spell each other. -/
theorem spells_of_map_upper_eq {x x' : Bytes} (hx : Utf8.IsText x)
    (h : x.map upper = x'.map upper) :
    anyCase.Spells x x' := by
  -- only letters have a case, so wider characters and line breaks are the same in both texts
  have hwide : ∀ c, ¬ c < 0x80 → ∀ c', upper c = upper c' → c = c' := by
    intro c hc c' hupper
    have hc' : ¬ c' < 0x80 := by rwa [← upper_ascii_iff, ← hupper, upper_ascii_iff]
    rwa [upper_of_wide c hc, upper_of_wide c' hc'] at hupper
  have hbreak : ∀ c, isLineBreak c = true → ∀ c', upper c = upper c' → c = c' := by
    intro c hc c' hupper
    have hletter := Lexer.isLetter_class.lineBreak c hc
    have hc := upper_of_other c hletter
    rcases eq_of_upper_eq c' with hc' | hc'
    · rwa [hc, hc'] at hupper
    · rw [← hupper, hc, hletter] at hc'
      cases hc'
  induction hx generalizing x' with
  | nil =>
    obtain rfl := List.map_eq_nil_iff.mp h.symm
    exact .nil trivial
  | byte hascii hline _ ih =>
    obtain ⟨c', rest', rfl, hupper, hrest⟩ := List.map_eq_cons_iff.mp h.symm
    exact .byte hascii hline hupper.symm nofun (ih hrest.symm)
  | @wide u x y hu hy _ ih =>
    subst hy
    rw [List.map_append] at h
    obtain ⟨u', rest', rfl, hu', hrest⟩ := List.map_eq_append_iff.mp h.symm
    obtain rfl := eq_of_map_upper_eq (fun c hc => hwide c (hu.wide c hc)) hu'.symm
    exact .wide hu rfl rfl (ih hrest.symm)
  | @lineBreak x hpos _ ih =>
    have hwidth : Cursor.lineBreakWidth x' = Cursor.lineBreakWidth x := by
      rw [← Cursor.lineBreakWidth_map_upper x', ← h, Cursor.lineBreakWidth_map_upper]
    have htake : x.take (Cursor.lineBreakWidth x) = x'.take (Cursor.lineBreakWidth x') := by
      refine eq_of_map_upper_eq (fun c hc => hbreak c (Cursor.isLineBreak_of_mem_take hc)) ?_
      rw [List.map_take, List.map_take, h, hwidth]
    refine .lineBreak hpos (hwidth ▸ hpos) htake (ih ?_)
    rw [List.map_drop, List.map_drop, h, hwidth]

/-- What is told of texts in any case: their letters in upper case. -/
def retellingAnyCase : Retelling where
  toRespelling := anyCase
  whole _ _ := id
  told x := x.map upper
  told' x := x.map upper
  told_append _ _ := List.map_append
  told'_append _ _ := List.map_append
  told_eq := map_upper_eq
  place p p' := p = p'
  place_after := by
    intro p p' u v u' v' hp htold h _
    subst hp
    have hlength : u.length = u'.length := by simpa using congrArg List.length htold
    rw [← Position.after_map_upper, map_upper_eq h, Position.after_map_upper, hlength]

end Lexer

/-! ## What is seen -/

/-- Looking at tokens without looking at the case of letters. -/
def View.anyCase : View where
  token? t := some { t with text := t.text.map upper }
  anchor := id
  isInlineTrivia_of_none := nofun
  kind_of_some := by
    rintro t u ⟨⟩
    rfl
  isNamed_of_some := by
    rintro t u word ⟨⟩
    have htwice : (t.text.map upper).map upper = t.text.map upper := by
      rw [List.map_map]
      exact congrArg (List.map · t.text) (funext upper_upper)
    rw [Grammar.isNamed, Grammar.isNamed, equalIgnoringCase, htwice]
    rfl
  start_of_some := by
    rintro t u ⟨⟩
    rfl
  behind_of_some := by
    rintro t u ⟨⟩
    simp [Token.behind, Token.stop, Token.length]
  anchor_of_none _ _ := nofun
  anchor_anchor _ := rfl

/-- Every token is seen, whatever the case of its letters. -/
theorem View.anyCase_sighted (t : Token) : View.anyCase.token? t ≠ none := nofun

namespace Lexer

/-- The tokens of sources that are the same in upper case look the same. -/
theorem forall₂_like_anyCase {source source' : Bytes} (hvalid : Utf8.firstInvalid? source = none)
    (h : source.map upper = source'.map upper) (file : UInt32) :
    List.Forall₂ View.anyCase.Like (tokens source file) (tokens source' file) := by
  have hspells := spells_of_map_upper_eq (Utf8.isText_of_firstInvalid? hvalid) h
  rw [tokens_eq, tokens_eq]
  refine (forall₂_tokensFrom (r := retellingAnyCase) hspells rfl).imp ?_
  rintro t t' ⟨hkind, htext, p, p', rfl, hoffset, hloc, hoffset', hloc'⟩
  obtain ⟨kind, text, offset, loc⟩ := t
  obtain ⟨kind', text', offset', loc'⟩ := t'
  dsimp only at hkind hoffset hloc hoffset' hloc'
  subst hkind hoffset hloc hoffset' hloc'
  change some _ = some _
  rw [show text.map upper = text'.map upper from htext]

end Lexer

/-! ## What does not depend on the case of letters -/

/-- Two tokens of one kind at the same place. -/
structure Token.Coincides (t t' : Token) : Prop where
  kind : t.kind = t'.kind
  offset : t.offset = t'.offset
  length : t.length = t'.length
  /-- File, line and column. -/
  loc : t.loc = t'.loc

/-- Two trees at the same place, with the same on top. -/
structure Tree.Coincides (t t' : Tree) : Prop where
  kind : t.kind = t'.kind
  isToken : t.isToken = t'.isToken
  span : t.span = t'.span
  loc : t.loc = t'.loc

/-- Two failures with one code at the same place. -/
structure Failure.Coincides (f f' : Failure) : Prop where
  code : f.code = f'.code
  span : f.span = f'.span
  loc : f.loc = f'.loc

/-- Tokens that look the same in any case coincide. -/
theorem Token.Coincides.of_like {t t' : Token} (h : View.anyCase.Like t t') : t.Coincides t' := by
  have heq : { t with text := t.text.map upper } = { t' with text := t'.text.map upper } :=
    Option.some.inj h
  obtain ⟨hkind, htext, hoffset, hloc⟩ := Token.mk.inj heq
  refine ⟨hkind, hoffset, ?_, hloc⟩
  have hlength : t.text.length = t'.text.length := by simpa using congrArg List.length htext
  rw [Token.length, Token.length, hlength]

mutual

/-- Letters in upper case end where the others do. -/
theorem Tree.stop_of_anyCase (t : Tree) {u : Tree} (h : View.anyCase.tree? t = some u) :
    u.stop = t.stop := by
  cases t with
  | leaf t =>
    obtain rfl := Option.some.inj h
    simp [Tree.stop, Token.stop, Token.length]
  | node k a cs =>
    obtain rfl := Option.some.inj h
    rw [Tree.stop, Tree.stop, Tree.stopAll_of_anyCase]
    rfl

/-- Some trees end at the same place in any case. -/
theorem Tree.stopAll_of_anyCase (bare : UInt32) (ts : List Tree) :
    Tree.stopAll bare (View.anyCase.trees ts) = Tree.stopAll bare ts := by
  cases ts with
  | nil => rfl
  | cons t ts =>
    obtain ⟨u, hu⟩ := View.exists_tree?_eq View.anyCase_sighted t
    cases ts with
    | nil =>
      rw [View.trees_singleton, hu]
      exact Tree.stop_of_anyCase t hu
    | cons t' ts =>
      have hrest := Tree.stopAll_of_anyCase bare (t' :: ts)
      obtain ⟨u', hu'⟩ := View.exists_tree?_eq View.anyCase_sighted t'
      rw [View.trees, hu'] at hrest
      rw [View.trees, View.trees, hu, hu']
      exact hrest

end

theorem Tree.Coincides.of_like {t t' : Tree} (h : View.anyCase.tree? t = View.anyCase.tree? t') :
    t.Coincides t' := by
  obtain ⟨u, hu⟩ := View.exists_tree?_eq View.anyCase_sighted t
  have hu' : View.anyCase.tree? t' = some u := h ▸ hu
  have hanchor : t.anchor = t'.anchor :=
    (View.anchor_of_tree? View.anyCase_sighted hu).symm.trans
      (View.anchor_of_tree? View.anyCase_sighted hu')
  have hstop : t.stop = t'.stop := (stop_of_anyCase t hu).symm.trans (stop_of_anyCase t' hu')
  obtain ⟨hkind, htoken⟩ := View.kind_of_tree? hu
  obtain ⟨hkind', htoken'⟩ := View.kind_of_tree? hu'
  refine ⟨hkind.symm.trans hkind', htoken.symm.trans htoken', ?_, congrArg Anchor.loc hanchor⟩
  have hoffset : t.offset = t'.offset := congrArg Anchor.offset hanchor
  rw [Tree.span, Tree.span, Tree.length, Tree.length, hoffset, hstop]

theorem Failure.Coincides.of_like {f f' : Failure}
    (h : View.anyCase.failure f = View.anyCase.failure f') : f.Coincides f' := by
  obtain ⟨hcode, hanchors⟩ := Prod.mk.inj h
  obtain ⟨hstart, hstop⟩ := Prod.mk.inj hanchors
  have hoffset : f.span.offset = f'.span.offset := congrArg Anchor.offset hstart
  have hend : f.span.offset + f.span.length = f'.span.offset + f'.span.length :=
    congrArg Anchor.offset hstop
  have hlength : f.span.length = f'.span.length := by
    rw [hoffset] at hend
    exact (UInt32.add_right_inj _).mp hend
  have hspan : f.span = f'.span := by
    generalize f.span = span at hoffset hlength
    generalize f'.span = span' at hoffset hlength
    obtain ⟨offset, length⟩ := span
    obtain ⟨offset', length'⟩ := span'
    cases hoffset
    cases hlength
    rfl
  exact ⟨congrArg Code.text hcode, hspan, congrArg Anchor.loc hstart⟩

namespace Document

/-- Sources that differ in the case of letters only have tokens of the same kinds at the same
places, trees of one shape with the same kinds at the same places, and the same failures at the same
places. -/
theorem reading_ignores_case (origin source source' : Bytes) (file : UInt32)
    (hvalid : Utf8.firstInvalid? source = none) (hvalid' : Utf8.firstInvalid? source' = none)
    (hcase : source.map upper = source'.map upper) :
    List.Forall₂ Token.Coincides (Lexer.tokens source file) (Lexer.tokens source' file) ∧
      (∃ d d', (read origin source file).document? = some d ∧
        (read origin source' file).document? = some d' ∧
        ∀ path, Option.Rel Tree.Coincides (d.root.at? path) (d'.root.at? path)) ∧
      List.Forall₂ Failure.Coincides (read origin source file).failures
        (read origin source' file).failures := by
  have hlike := Lexer.forall₂_like_anyCase hvalid hcase file
  have halike := View.readingsAlike (View.SameTokens.of_forall₂ hlike) origin origin
  obtain ⟨d, d', hd, hd', htree⟩ := halike.trees
  rw [read_of_valid hvalid, read_of_valid hvalid']
  exact ⟨hlike.imp fun _ _ => .of_like,
    ⟨d, d', hd, hd', View.at?_rel View.anyCase_sighted .of_like htree⟩,
    halike.forall₂_failures.imp fun _ _ => .of_like⟩

/-- The letters of keywords, names, prefixes, exponents and comments in either case. -/
theorem reading_ignores_case_if_then :
    List.Forall₂ Token.Coincides (Lexer.tokens (ofString "If a Then Mid$(s, &HfF) = 1E3: Rem é") 1)
        (Lexer.tokens (ofString "iF A tHEN mID$(S, &hFf) = 1e3: REM é") 1) ∧
      (∃ d d', (read [] (ofString "If a Then Mid$(s, &HfF) = 1E3: Rem é") 1).document? = some d ∧
        (read [] (ofString "iF A tHEN mID$(S, &hFf) = 1e3: REM é") 1).document? = some d' ∧
        ∀ path, Option.Rel Tree.Coincides (d.root.at? path) (d'.root.at? path)) ∧
      List.Forall₂ Failure.Coincides
        (read [] (ofString "If a Then Mid$(s, &HfF) = 1E3: Rem é") 1).failures
        (read [] (ofString "iF A tHEN mID$(S, &hFf) = 1e3: REM é") 1).failures :=
  reading_ignores_case [] _ _ 1 (by decide +kernel) (by decide +kernel) (by decide +kernel)

end Document

end LosslessBasic
