import LosslessBasic.Proofs.Document.Alike
import LosslessBasic.Proofs.Lexer.Blanks

/-!
# Blank space and line continuations do not matter

A source with more blank space where it has some, or with a line continuation there, is read to the
same tree but for blanks, and with the same failures but for their places
(`Document.reading_ignores_blanks`).
-/

namespace LosslessBasic

open Bytes Ascii

/-- A place for more blank space in a source, right behind one of its whitespace tokens. -/
structure Widening (source : Bytes) (file : UInt32) where
  /-- The tokens in front of the whitespace. -/
  before : List Token
  /-- The whitespace. -/
  blank : Token
  /-- The tokens behind it. -/
  behind : List Token
  /-- The blank space put there. -/
  more : Bytes
  tokens_eq : Lexer.tokens source file = before ++ blank :: behind
  kind_eq : blank.kind = .trivia .whitespace
  isMoreBlank : more.IsMoreBlank

/-- The source with the blank space put there. -/
def Widening.source' {source : Bytes} {file : UInt32} (w : Widening source file) : Bytes :=
  (w.before.flatMap Token.text ++ w.blank.text) ++ w.more ++ w.behind.flatMap Token.text

/-- More blank space behind the whitespace at an index. -/
def Widening.atIndex {source : Bytes} {file : UInt32} (i : Nat)
    (hkind : (Lexer.tokens source file)[i]?.map Token.kind = some (.trivia .whitespace))
    {more : Bytes}
    (isMoreBlank : more.IsMoreBlank) : Widening source file where
  before := (Lexer.tokens source file).take i
  blank := (Lexer.tokens source file)[i]?.getD {}
  behind := (Lexer.tokens source file).drop (i + 1)
  more := more
  tokens_eq := by
    obtain ⟨t, ht, -⟩ := Option.map_eq_some_iff.mp hkind
    obtain ⟨hi, rfl⟩ := List.getElem?_eq_some_iff.mp ht
    rw [ht, Option.getD_some, List.getElem_cons_drop, List.take_append_drop]
  kind_eq := by
    obtain ⟨t, ht, hkind⟩ := Option.map_eq_some_iff.mp hkind
    rw [ht]
    exact hkind
  isMoreBlank := isMoreBlank

/-! ## What is seen -/

/-- Looking at tokens without looking at blanks, nor at places. -/
def View.solid : View where
  token? t := if t.kind.isInlineTrivia then none else some { t with offset := 0, loc := {} }
  anchor _ := {}
  isInlineTrivia_of_none := by
    intro t h
    split at h
    next hblank => exact hblank
    next => cases h
  kind_of_some := by
    intro t u h
    split at h
    next => cases h
    next => cases h; rfl
  isNamed_of_some := by
    intro t u word h
    split at h
    next => cases h
    next => cases h; rfl
  start_of_some _ := rfl
  behind_of_some _ := rfl
  anchor_of_none _ _ _ := rfl
  anchor_anchor _ := rfl

theorem View.solid_of_blank {t : Token} (h : t.kind.isInlineTrivia = true) :
    View.solid.token? t = none :=
  if_pos h

theorem View.solid_like {t t' : Token} (h : t.SameText t') : View.solid.Like t t' := by
  obtain ⟨kind, text, offset, loc⟩ := t
  obtain ⟨kind', text', offset', loc'⟩ := t'
  obtain ⟨rfl, rfl⟩ := h
  rfl

namespace Widening

variable {source : Bytes} {file : UInt32} (w : Widening source file)

/-- Whitespace with more blank space behind it looks the same. -/
theorem sameTokens_blank {v : Bytes} (hblanks : ∀ c ∈ w.blank.text, isBlank c = true)
    (hne : w.blank.text ≠ []) (hv : isBlank (front v) = false) (q q' : Position) :
    View.solid.SameTokens (w.blank :: Lexer.tokensFrom file 0 q v)
      (Lexer.tokensFrom file 0 q' (w.blank.text ++ (w.more ++ v))) := by
  have hunseen : View.solid.token? w.blank = none := View.solid_of_blank (by rw [w.kind_eq]; rfl)
  have hbehind (p p' : Position) :
      View.solid.SameTokens (Lexer.tokensFrom file 0 p v) (Lexer.tokensFrom file 0 p' v) :=
    .of_forall₂ ((Lexer.sameText_tokensFrom file 0 p p' v).imp fun _ _ => View.solid_like)
  rcases w.isMoreBlank with hmore | hmore
  · have hunderscore : isBlank (byte '_') = false := by decide
    obtain ⟨b, p, hb, hkind⟩ := Lexer.exists_whitespace hblanks hne
      (show isBlank (front (byte '_' :: lineFeed :: v)) = false from hunderscore) file q'
    obtain ⟨c, p', hc, hkind'⟩ := Lexer.exists_lineContinuation file p v
    have hb' : View.solid.token? b = none := View.solid_of_blank (by rw [hkind]; rfl)
    have hc' : View.solid.token? c = none := View.solid_of_blank (by rw [hkind']; rfl)
    rw [hmore, List.cons_append, List.singleton_append, hb, hc]
    exact .more hb' hc' (.cons (hunseen.trans hc'.symm) (hbehind q p'))
  · have hall : ∀ c ∈ w.blank.text ++ w.more, isBlank c = true :=
      List.forall_mem_append.mpr ⟨hblanks, isBlank_of_isMoreBlank_spaces hmore⟩
    obtain ⟨b, p, hb, hkind⟩ := Lexer.exists_whitespace hall (by simp [hne]) hv file q'
    have hb' : View.solid.token? b = none := View.solid_of_blank (by rw [hkind]; rfl)
    rw [← List.append_assoc, hb]
    exact .cons (hunseen.trans hb'.symm) (hbehind q p)

/-- Up to the last blank of the whitespace, the sources are the same. -/
theorem exists_spells (hvalid : Utf8.firstInvalid? source = none) :
    ∃ u b v, w.blank.text = u ++ [b] ∧ w.behind.flatMap Token.text = v ∧ isBlank (front v) = false ∧
      Utf8.IsText v ∧ (∀ c ∈ u ++ [b], isBlank c = true) ∧
        (∃ q, w.behind = Lexer.tokensFrom file 0 q v) ∧
      (Respelling.upTo (b :: v) (b :: (w.more ++ v))).Spells
        (w.before.flatMap Token.text ++ (u ++ b :: v))
        (w.before.flatMap Token.text ++ (u ++ b :: (w.more ++ v))) := by
  obtain ⟨q, hq⟩ :=
    Lexer.exists_tokensFrom_eq ((Lexer.tokens_eq source file).symm.trans w.tokens_eq)
  obtain ⟨hblanks, hne, hv, hbehind⟩ := Lexer.whitespace_inv hq w.kind_eq
  have htext := Utf8.isText_of_firstInvalid? hvalid
  rw [← Lexer.texts_tokens source file, w.tokens_eq, List.flatMap_append,
    List.flatMap_cons] at htext
  generalize w.behind.flatMap Token.text = v at *
  obtain ⟨u, b, hlast⟩ := (List.eq_nil_or_concat w.blank.text).resolve_left hne
  rw [List.concat_eq_append] at hlast
  rw [hlast] at hblanks
  have hb : isBlank b = true := hblanks b (List.mem_append_right u (List.mem_singleton_self b))
  obtain ⟨hascii, -, hbreak⟩ := apart_of_isBlank b hb
  rw [hlast, List.append_assoc, List.singleton_append, ← List.append_assoc] at htext
  obtain ⟨hfront, hbehind'⟩ := htext.of_append hascii hbreak
  have hspells := Respelling.spells_upTo hfront (.of_isMoreBlank hb w.isMoreBlank v)
  rw [List.append_assoc, List.append_assoc] at hspells
  exact ⟨u, b, v, hlast, rfl, hv, hbehind', hblanks, hbehind, hspells⟩

theorem source'_eq {u v : Bytes} {b : UInt8} (hlast : w.blank.text = u ++ [b])
    (hbehind : w.behind.flatMap Token.text = v) :
    w.source' = w.before.flatMap Token.text ++ (u ++ b :: (w.more ++ v)) := by
  rw [source', hlast, hbehind]
  simp

theorem source_eq {u v : Bytes} {b : UInt8} (hlast : w.blank.text = u ++ [b])
    (hbehind : w.behind.flatMap Token.text = v) :
    source = w.before.flatMap Token.text ++ (u ++ b :: v) := by
  have htexts := Lexer.texts_tokens source file
  rw [w.tokens_eq, List.flatMap_append, List.flatMap_cons, hlast, hbehind] at htexts
  simpa using htexts.symm

/-- The tokens of a source with more blank space look the same. -/
theorem sameTokens (hvalid : Utf8.firstInvalid? source = none) :
    View.solid.SameTokens (Lexer.tokens source file) (Lexer.tokens w.source' file) := by
  obtain ⟨u, b, v, hlast, hbehind, hv, -, hblanks, ⟨q, hq⟩, hspells⟩ := w.exists_spells hvalid
  have htokens : Lexer.tokensFrom file 0 {} (w.before.flatMap Token.text ++ (u ++ b :: v)) =
      w.before ++ w.blank :: w.behind := by
    rw [← w.source_eq hlast hbehind, ← Lexer.tokens_eq, w.tokens_eq]
  obtain ⟨ts', q', hts', hsame⟩ := Lexer.exists_tokensFrom_upTo hspells htokens {}
  have hblank := w.sameTokens_blank (by rwa [hlast]) (by simp [hlast]) hv q q'
  rw [hlast, List.append_assoc, List.singleton_append] at hblank
  rw [w.tokens_eq, w.source'_eq hlast hbehind, Lexer.tokens_eq, hts', hq]
  exact .append (hsame.imp fun _ _ => View.solid_like) hblank

/-- A source with more blank space is UTF-8 as it was. -/
theorem firstInvalid?_source' (hvalid : Utf8.firstInvalid? source = none) :
    Utf8.firstInvalid? w.source' = none := by
  obtain ⟨u, b, v, hlast, hbehind, -, hv, hblanks, -, hspells⟩ := w.exists_spells hvalid
  have hb : isBlank b = true := hblanks b (List.mem_append_right u (List.mem_singleton_self b))
  have hmore : ∀ c ∈ b :: w.more, c < 0x80 := by
    refine List.forall_mem_cons.mpr ⟨(apart_of_isBlank b hb).1, fun c hc => ?_⟩
    rcases w.isMoreBlank with hmore | hmore
    · rw [hmore, List.mem_pair] at hc
      rcases hc with rfl | rfl <;> decide
    · exact (apart_of_isBlank c (isBlank_of_isMoreBlank_spaces hmore c hc)).1
  rw [w.source'_eq hlast hbehind]
  refine (hspells.isText ?_).firstInvalid?_eq_none
  rintro y y' ⟨-, rfl⟩
  rw [← List.cons_append]
  exact Utf8.isText_of_firstInvalid?
    ((Utf8.firstInvalid?_append_eq_none_iff hmore v).mpr hv.firstInvalid?_eq_none)

end Widening

namespace Document

/-- A source and the same source with more blank space behind a whitespace token, or with a line
continuation there, are read to trees that are the same without blanks and places, and their
failures have the same codes in the same order. -/
theorem reading_ignores_blanks (origin source : Bytes) (file : UInt32) (w : Widening source file)
    (hvalid : Utf8.firstInvalid? source = none) :
    (∃ d d' seen, (read origin source file).document? = some d ∧
        (read origin w.source' file).document? = some d' ∧
        View.solid.tree? d.root = some seen ∧ View.solid.tree? d'.root = some seen) ∧
      (read origin source file).failures.map Failure.code =
        (read origin w.source' file).failures.map Failure.code := by
  have halike := View.readingsAlike (w.sameTokens hvalid) origin origin
  obtain ⟨d, d', hd, hd', htree⟩ := halike.trees
  rw [read_of_valid hvalid, read_of_valid (w.firstInvalid?_source' hvalid)]
  obtain ⟨seen, hseen⟩ : ∃ seen, View.solid.tree? d.root = some seen := by
    obtain rfl := Option.some.inj ((document?_readText origin source file).symm.trans hd)
    exact ⟨_, View.tree?_above ..⟩
  refine ⟨⟨d, d', seen, hd, hd', hseen, htree.symm.trans hseen⟩, ?_⟩
  · have hcodes := congrArg (List.map fun f => f.1.text) halike.failures
    rwa [List.map_map, List.map_map] at hcodes

/-- A line continued between two number signs without a date between them. -/
theorem reading_ignores_blanks_continued :
    (∃ d d' seen, (read [] (ofString "x = #1 b #") 1).document? = some d ∧
        (read [] (ofString "x = #1 _\nb #") 1).document? = some d' ∧
        View.solid.tree? d.root = some seen ∧ View.solid.tree? d'.root = some seen) ∧
      (read [] (ofString "x = #1 b #") 1).failures.map Failure.code =
        (read [] (ofString "x = #1 _\nb #") 1).failures.map Failure.code := by
  let w : Widening (ofString "x = #1 b #") 1 := .atIndex 6 (by decide +kernel) (.inl rfl)
  have hsource : w.source' = ofString "x = #1 _\nb #" := by decide +kernel
  rw [← hsource]
  exact reading_ignores_blanks [] _ 1 w (by decide +kernel)

end Document

end LosslessBasic
