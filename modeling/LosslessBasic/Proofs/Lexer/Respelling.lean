import LosslessBasic.Proofs.Text.Characters

/-!
# Spelling a text in another way

A text may be spelled with letters in another case or with line breaks of another style, and it may
be changed behind a blank. A `Respelling` says which of these are made, and `Respelling.Spells`
relates the texts, character by character. The readers of `Lexer.scan` go through it in the order of
their definitions: each of them reads the same from both texts and leaves texts that are related
again, unless it runs into the place from which on the texts differ (`Respelling.Passes`).
-/

namespace LosslessBasic

set_option maxRecDepth 2000

/-! ## Classes of bytes -/

namespace Ascii

open Bytes

/-- Whether a class of bytes tells neither the cases of a letter apart nor the bytes of wide
characters, and has no byte of a line break in it. -/
structure IsClass (p : UInt8 → Bool) : Prop where
  upper : ∀ c, p (upper c) = p c
  wide : ∀ c, ¬ c < 0x80 → p c = p 0x80
  lineBreak : ∀ c, isLineBreak c = true → p c = false

/-- Whether all bytes of a class are ASCII and no blanks, nor the zero that stands for the end. -/
structure IsSolidClass (p : UInt8 → Bool) : Prop extends IsClass p where
  zero : p 0 = false
  ascii : p 0x80 = false
  blank : ∀ c, isBlank c = true → p c = false

instance (p : UInt8 → Bool) : Decidable (IsClass p) :=
  decidable_of_iff ((∀ c, p (upper c) = p c) ∧ (∀ c, ¬ c < 0x80 → p c = p 0x80) ∧
      ∀ c, isLineBreak c = true → p c = false)
    ⟨fun h => ⟨h.1, h.2.1, h.2.2⟩, fun h => ⟨h.upper, h.wide, h.lineBreak⟩⟩

instance (p : UInt8 → Bool) : Decidable (IsSolidClass p) :=
  decidable_of_iff (IsClass p ∧ p 0 = false ∧ p 0x80 = false ∧ ∀ c, isBlank c = true → p c = false)
    ⟨fun h => ⟨h.1, h.2.1, h.2.2.1, h.2.2.2⟩, fun h => ⟨h.toIsClass, h.zero, h.ascii, h.blank⟩⟩

/-- Bytes that differ in their case are in the same classes. -/
theorem IsClass.eq_of_upper_eq {p : UInt8 → Bool} (hp : IsClass p) {c c' : UInt8}
    (h : Ascii.upper c = Ascii.upper c') : p c = p c' := by
  rw [← hp.upper c, ← hp.upper c', h]

/-- A byte of a class breaks no line. -/
theorem IsClass.isLineBreak_eq_false {p : UInt8 → Bool} (hp : IsClass p) {c : UInt8}
    (h : p c = true) :
    isLineBreak c = false := by
  cases hbreak : isLineBreak c with
  | false => rfl
  | true =>
    rw [hp.lineBreak c hbreak] at h
    cases h

/-- Texts that differ in their case have bytes of the same classes. -/
theorem IsClass.forall_of_map_upper_eq {p : UInt8 → Bool} (hp : IsClass p) {q q' : Bytes}
    (h : q.map Ascii.upper = q'.map Ascii.upper) (hq : ∀ c ∈ q, p c = true) :
    ∀ c ∈ q', p c = true := by
  intro c' hc'
  have hmem : Ascii.upper c' ∈ q.map Ascii.upper := h ▸ List.mem_map_of_mem hc'
  obtain ⟨c, hc, hupper⟩ := List.mem_map.mp hmem
  rw [← hp.eq_of_upper_eq hupper]
  exact hq c hc

/-- A class of printed bytes holds none of a wider character. -/
theorem IsSolidClass.not_wide {p : UInt8 → Bool} (hp : IsSolidClass p) {c : UInt8}
    (h : ¬ c < 0x80) :
    p c = false :=
  (hp.wide c h).trans hp.ascii

theorem isDigit_class : IsSolidClass isDigit := by decide

theorem isWordByte_class : IsSolidClass isWordByte := by decide

theorem isBlank_class : IsClass isBlank := by decide

theorem upper_upper : ∀ c, Ascii.upper (Ascii.upper c) = Ascii.upper c := by decide

theorem isLineBreak_upper : ∀ c, isLineBreak (Ascii.upper c) = isLineBreak c := by decide

theorem upper_ascii_iff : ∀ c, upper c < 0x80 ↔ c < 0x80 := by decide

theorem upper_of_wide : ∀ c, ¬ c < 0x80 → upper c = c := by decide

theorem eq_of_upper_eq : ∀ c, upper c = c ∨ isLetter (upper c) = true := by decide

theorem upper_of_other : ∀ c, isLetter c = false → upper c = c := by decide

/-- Whether a byte is a printed character of ASCII. -/
def isPrinted (c : UInt8) : Bool := byte ' ' < c && c < 0x80

theorem isPrinted_class : IsSolidClass isPrinted := by decide

/-- A blank is an ASCII byte, but neither printed nor one of a line break. -/
theorem apart_of_isBlank :
    ∀ c, isBlank c = true → c < 0x80 ∧ isPrinted c = false ∧ isLineBreak c = false := by
  decide

/-- A byte outside of ASCII is not printed, no blank and none of a line break. -/
theorem apart_of_wide :
    ∀ c, ¬ c < 0x80 → isPrinted c = false ∧ isLineBreak c = false ∧ isBlank c = false := by
  decide

/-- What is not printed is no quotation mark. -/
theorem ne_doubleQuote_of_not_isPrinted {c : UInt8} (h : isPrinted c = false) :
    c ≠ doubleQuote := by
  rintro rfl
  cases h

/-- The bytes whose upper case is a given one are a class. -/
theorem upper_beq_class {b : UInt8} (h : isPrinted b = true) :
    IsSolidClass (fun c => upper c == b) := by
  have hfalse {c : UInt8} (hc : isPrinted c = false) : (upper c == b) = false := by
    rw [beq_eq_false_iff_ne]
    rintro rfl
    rw [isPrinted_class.upper, hc] at h
    cases h
  exact
    { upper := fun c => by rw [upper_upper]
      wide := fun c hc => by
        rw [hfalse (isPrinted_class.not_wide hc), hfalse isPrinted_class.ascii]
      lineBreak := fun c hc => hfalse (isPrinted_class.lineBreak c hc)
      zero := hfalse isPrinted_class.zero
      ascii := hfalse isPrinted_class.ascii
      blank := fun c hc => hfalse (isPrinted_class.blank c hc) }

/-- A sign is a class of its own. -/
theorem beq_class {b : UInt8} (h : isPrinted b = true) (hsign : isLetter b = false) :
    IsSolidClass (· == b) := by
  have hupper (c : UInt8) : (upper c == b) = (c == b) := by
    rw [Bool.eq_iff_iff, beq_iff_eq, beq_iff_eq]
    constructor
    · intro heq
      rcases eq_of_upper_eq c with hc | hc
      · exact hc.symm.trans heq
      · rw [heq, hsign] at hc
        cases hc
    · rintro rfl
      exact upper_of_other c hsign
  have hclass := upper_beq_class h
  rwa [funext hupper] at hclass

end Ascii

/-! ## Texts in two spellings -/

open Bytes Ascii

/-- A byte that may stand between the number signs of a date. -/
def Lexer.inDate (c : UInt8) : Bool := !isLineBreak c && c != byte '#'

/-- Two texts that start with the same blank, and no token in front of it depends on what they are
otherwise. -/
structure Unseen (y y' : Bytes) : Prop where
  /-- The blank. -/
  blank : isBlank (front y) = true
  front_eq : front y' = front y
  /-- It does not come to be the end of a line continuation. -/
  continuation : Cursor.lineBreakWidth (y.dropWhile isBlank) = 0 →
    Cursor.lineBreakWidth (y'.dropWhile isBlank) = 0
  /-- It does not come to stand in a date. -/
  octothorpe {q q' : Bytes} : q.map upper = q'.map upper →
    (∀ c ∈ q, Lexer.inDate c = true) →
    (Lexer.dateLiteral (q ++ y)).1 = .octothorpe → (Lexer.dateLiteral (q' ++ y')).1 = .octothorpe

/-- What is not seen starts with a blank in both texts. -/
theorem Unseen.exists_cons {y y' : Bytes} (h : Unseen y y') :
    ∃ b v v', isBlank b = true ∧ y = b :: v ∧ y' = b :: v' := by
  have hzero : isBlank 0 = false := by decide
  have hblank := h.blank
  have hfront := h.front_eq
  cases y with
  | nil => exact absurd hblank (by simp [front, hzero])
  | cons b v =>
    cases y' with
    | nil =>
      rw [← hfront] at hblank
      exact absurd hblank (by simp [front, hzero])
    | cons b' v' =>
      obtain rfl : b' = b := hfront
      exact ⟨b', v, v', hblank, rfl, rfl⟩

/-- A way to spell a text. -/
structure Respelling where
  /-- Whether the letters keep their case. -/
  keepsCase : Prop
  /-- Whether the texts may be told to their ends. -/
  ends : Prop
  /-- What stands for which line break. -/
  lineBreak : Bytes → Bytes → Prop
  /-- What stands for the rest of a text that is not told in another spelling. -/
  cut : Bytes → Bytes → Prop

namespace Respelling

variable {r : Respelling} {p : UInt8 → Bool} {x x' : Bytes}

variable (r) in
/-- Whether a text is another one in another spelling. -/
inductive Spells : Bytes → Bytes → Prop where
  | nil (h : r.ends) : Spells [] []
  /-- The texts differ from here on. -/
  | cut {y y' : Bytes} (h : r.cut y y') (hunseen : Unseen y y') : Spells y y'
  /-- An ASCII byte that breaks no line. -/
  | byte {c c' : UInt8} {x x' : Bytes} (hascii : c < 0x80) (hbreak : isLineBreak c = false)
    (hupper : upper c = upper c') (hcase : r.keepsCase → c = c') (h : Spells x x') :
    Spells (c :: x) (c' :: x')
  /-- A wide character. -/
  | wide {u x x' y y' : Bytes} (hu : Utf8.IsWide u) (hy : y = u ++ x) (hy' : y' = u ++ x')
    (h : Spells x x') : Spells y y'
  /-- A line break. -/
  | lineBreak {x x' : Bytes} (hx : 0 < Cursor.lineBreakWidth x) (hx' : 0 < Cursor.lineBreakWidth x')
    (hbreak : r.lineBreak (x.take (Cursor.lineBreakWidth x)) (x'.take (Cursor.lineBreakWidth x')))
    (h : Spells (x.drop (Cursor.lineBreakWidth x)) (x'.drop (Cursor.lineBreakWidth x'))) : Spells x
      x'

variable (r) in
/-- Whether the first `n` bytes of a text reach beyond the place from which on the texts differ. -/
def Passes (x : Bytes) (n : Nat) : Prop :=
  ∃ q y y', r.cut y y' ∧ Unseen y y' ∧ x = q ++ y ∧ q.length < n

namespace Spells

/-- What is in front is in the same classes. -/
theorem front_eq (hp : IsClass p) (h : r.Spells x x') : p (front x') = p (front x) := by
  cases h with
  | nil => rfl
  | cut _ hunseen => rw [hunseen.front_eq]
  | byte _ _ hupper => exact (hp.eq_of_upper_eq hupper).symm
  | wide hu hy hy' =>
    obtain ⟨a, more, rfl⟩ := List.exists_cons_of_ne_nil hu.ne_nil
    subst hy hy'
    rfl
  | lineBreak hx hx' =>
    obtain ⟨c, rest, rfl, hc⟩ := Cursor.exists_cons_of_lineBreakWidth_pos hx
    obtain ⟨c', rest', rfl, hc'⟩ := Cursor.exists_cons_of_lineBreakWidth_pos hx'
    exact (hp.lineBreak c' hc').trans (hp.lineBreak c hc).symm

/-- A byte in front that is neither blank nor wide nor of a line break stands for one like it. -/
theorem cons_inv {c : UInt8} {rest : Bytes} (hp : IsSolidClass p) (hc : p c = true)
    (h : r.Spells (c :: rest) x') : ∃ c' rest', x' = c' :: rest' ∧ upper c = upper c' ∧
      (r.keepsCase → c = c') ∧ r.Spells rest rest' := by
  generalize hx : c :: rest = x at h
  cases h with
  | nil => cases hx
  | cut _ hunseen =>
    subst hx
    rw [hp.blank c hunseen.blank] at hc
    cases hc
  | byte _ _ hupper hcase h =>
    obtain ⟨rfl, rfl⟩ := List.cons.inj hx
    exact ⟨_, _, rfl, hupper, hcase, h⟩
  | wide hu hy =>
    obtain ⟨a, more, rfl⟩ := List.exists_cons_of_ne_nil hu.ne_nil
    obtain rfl : c = a := (List.cons.inj (hx.trans hy)).1
    rw [hp.not_wide (hu.wide c List.mem_cons_self)] at hc
    cases hc
  | lineBreak hpos =>
    subst hx
    rw [hp.lineBreak c (Cursor.lineBreakWidth_pos_iff.mp hpos)] at hc
    cases hc

/-- What is behind such a byte. -/
theorem tail (hp : IsSolidClass p) (hfront : p (front x) = true) (h : r.Spells x x') :
    r.Spells x.tail x'.tail := by
  cases x with
  | nil =>
    rw [front, List.headD_nil, hp.zero] at hfront
    cases hfront
  | cons c rest =>
    obtain ⟨c', rest', rfl, -, -, hrest⟩ := h.cons_inv hp hfront
    exact hrest

/-- A spelling is empty if the text is. -/
theorem eq_nil_iff (h : r.Spells x x') : x = [] ↔ x' = [] := by
  cases h with
  | nil => rfl
  | cut _ hunseen =>
    obtain ⟨b, v, v', -, rfl, rfl⟩ := hunseen.exists_cons
    simp
  | byte => simp
  | wide hu hy hy' => simp [hy, hy', hu.ne_nil]
  | lineBreak hx hx' =>
    obtain ⟨c, rest, rfl, -⟩ := Cursor.exists_cons_of_lineBreakWidth_pos hx
    obtain ⟨c', rest', rfl, -⟩ := Cursor.exists_cons_of_lineBreakWidth_pos hx'
    simp

/-- A text in another spelling is a text if what is not told is one. -/
theorem isText (h : r.Spells x x') (hcut : ∀ y y', r.cut y y' → Utf8.IsText y') :
    Utf8.IsText x' := by
  induction h with
  | nil => exact .nil
  | cut h => exact hcut _ _ h
  | @byte c c' x x' hascii hbreak hupper _ _ ih =>
    refine .byte ?_ ?_ ih
    · rwa [← upper_ascii_iff, ← hupper, upper_ascii_iff]
    · rwa [← isLineBreak_upper, ← hupper, isLineBreak_upper]
  | wide hu _ hy' _ ih => exact .wide hu hy' ih
  | lineBreak _ hx' _ _ ih => exact .lineBreak hx' ih

/-- A line break in front stands for one. -/
theorem lineBreak_drop (hx : 0 < Cursor.lineBreakWidth x) (h : r.Spells x x') :
    0 < Cursor.lineBreakWidth x' ∧
      r.Spells (x.drop (Cursor.lineBreakWidth x)) (x'.drop (Cursor.lineBreakWidth x')) := by
  obtain ⟨c, rest, rfl, hc⟩ := Cursor.exists_cons_of_lineBreakWidth_pos hx
  generalize hy : c :: rest = y at h
  cases h with
  | nil => cases hy
  | cut _ hunseen =>
    have hfront := hunseen.blank
    rw [← hy, front, List.headD_cons, isBlank_class.lineBreak c hc] at hfront
    cases hfront
  | byte _ hbreak =>
    rw [(List.cons.inj hy).1, hbreak] at hc
    cases hc
  | wide hu hy' =>
    obtain ⟨a, more, rfl⟩ := List.exists_cons_of_ne_nil hu.ne_nil
    obtain rfl : c = a := (List.cons.inj (hy.trans hy')).1
    exact absurd (Utf8.ascii_of_isLineBreak c hc) (hu.wide c List.mem_cons_self)
  | lineBreak _ hx' _ h => exact ⟨hx', h⟩

/-! ## Runs of bytes -/

/-- A run of bytes of a class stands for one of the same length, or it reaches the place from which
on the texts differ. -/
theorem takeWhile_or (hp : IsClass p) (h : r.Spells x x') :
    ((x'.takeWhile p).map upper = (x.takeWhile p).map upper ∧
      r.Spells (x.dropWhile p) (x'.dropWhile p)) ∨
    ∃ q q' y y', r.cut y y' ∧ Unseen y y' ∧ x = q ++ y ∧ x' = q' ++ y' ∧
      q.map upper = q'.map upper ∧ (∀ c ∈ q, p c = true) ∧ p (front y) = true := by
  induction h with
  | nil h => exact .inl ⟨rfl, .nil h⟩
  | @cut y y' h hunseen =>
    cases hfront : p (front y) with
    | true => exact .inr ⟨[], [], y, y', h, hunseen, rfl, rfl, rfl, by simp, hfront⟩
    | false =>
      obtain ⟨b, v, v', -, rfl, rfl⟩ := hunseen.exists_cons
      change p b = false at hfront
      simp only [List.takeWhile_cons, List.dropWhile_cons, hfront]
      exact .inl ⟨rfl, .cut h hunseen⟩
  -- a class sees neither case nor what is not seen, so both texts pass or fail byte by byte
  | @byte c c' x x' hascii hbreak hupper hcase h ih =>
    have hclass : p c = p c' := hp.eq_of_upper_eq hupper
    cases hc : p c with
    | true =>
      simp only [List.takeWhile_cons, List.dropWhile_cons, ← hclass, hc, List.map_cons,
        if_true, hupper]
      rcases ih with ⟨htext, hbehind⟩ | ⟨q, q', y, y', hcut, hunseen, rfl, rfl, hq, hmem, hfront⟩
      · exact .inl ⟨by rw [htext], hbehind⟩
      · exact .inr ⟨c :: q, c' :: q', y, y', hcut, hunseen, rfl, rfl,
          by rw [List.map_cons, List.map_cons, hupper, hq],
          List.forall_mem_cons.mpr ⟨hc, hmem⟩, hfront⟩
    | false =>
      simp only [List.takeWhile_cons, List.dropWhile_cons, ← hclass, hc]
      exact .inl ⟨rfl, .byte hascii hbreak hupper hcase h⟩
  | @wide u x x' y y' hu hy hy' h ih =>
    subst hy hy'
    cases hc : p 0x80 with
    | true =>
      have hall : ∀ c ∈ u, p c = true := fun c hmem => (hp.wide c (hu.wide c hmem)).trans hc
      rw [List.takeWhile_append_of_pos hall, List.takeWhile_append_of_pos hall,
        List.dropWhile_append_of_pos hall, List.dropWhile_append_of_pos hall]
      rcases ih with ⟨htext, hbehind⟩ | ⟨q, q', y, y', hcut, hunseen, rfl, rfl, hq, hmem, hfront⟩
      · exact .inl ⟨by rw [List.map_append, List.map_append, htext], hbehind⟩
      · exact .inr ⟨u ++ q, u ++ q', y, y', hcut, hunseen, (List.append_assoc ..).symm,
          (List.append_assoc ..).symm, by rw [List.map_append, List.map_append, hq],
          List.forall_mem_append.mpr ⟨hall, hmem⟩, hfront⟩
    | false =>
      have hnone : p (front u) = false := by
        obtain ⟨a, more, rfl⟩ := List.exists_cons_of_ne_nil hu.ne_nil
        exact (hp.wide a (hu.wide a List.mem_cons_self)).trans hc
      have hspells : r.Spells (u ++ x) (u ++ x') := .wide hu rfl rfl h
      obtain ⟨a, more, rfl⟩ := List.exists_cons_of_ne_nil hu.ne_nil
      change p a = false at hnone
      rw [List.cons_append, List.cons_append] at hspells ⊢
      simp only [List.takeWhile_cons, List.dropWhile_cons, hnone]
      exact .inl ⟨rfl, hspells⟩
  -- no class holds a line break, so nothing passes here
  | lineBreak hx hx' hbreak h =>
    have hspells := Spells.lineBreak hx hx' hbreak h
    obtain ⟨c, rest, rfl, hc⟩ := Cursor.exists_cons_of_lineBreakWidth_pos hx
    obtain ⟨c', rest', rfl, hc'⟩ := Cursor.exists_cons_of_lineBreakWidth_pos hx'
    simp only [List.takeWhile_cons, List.dropWhile_cons, hp.lineBreak c hc, hp.lineBreak c' hc']
    exact .inl ⟨rfl, hspells⟩

/-- A run that does not pass the place from which on the texts differ. -/
theorem takeWhile_of_not_passes (hp : IsClass p) (h : r.Spells x x')
    (hpass : ¬ r.Passes x (x.takeWhile p).length) :
    (x'.takeWhile p).map upper = (x.takeWhile p).map upper ∧
      r.Spells (x.dropWhile p) (x'.dropWhile p) := by
  refine (h.takeWhile_or hp).resolve_right ?_
  rintro ⟨q, q', y, y', hcut, hunseen, rfl, -, -, hq, hfront⟩
  refine hpass ⟨q, y, y', hcut, hunseen, rfl, ?_⟩
  obtain ⟨b, v, v', -, rfl, -⟩ := hunseen.exists_cons
  have hb : p b = true := hfront
  rw [List.takeWhile_append_of_pos hq, List.takeWhile_cons_of_pos hb, List.length_append,
    List.length_cons]
  omega

/-- A run without blanks. -/
theorem takeWhile (hp : IsSolidClass p) (h : r.Spells x x') :
    (x'.takeWhile p).map upper = (x.takeWhile p).map upper ∧
      r.Spells (x.dropWhile p) (x'.dropWhile p) := by
  refine (h.takeWhile_or hp.toIsClass).resolve_right ?_
  rintro ⟨q, q', y, y', -, hunseen, -, -, -, -, hfront⟩
  rw [hp.blank _ hunseen.blank] at hfront
  cases hfront

/-- To leave out bytes is to drop as many as pass. -/
theorem dropWhile_eq_drop (p : UInt8 → Bool) (x : Bytes) :
    x.dropWhile p = x.drop (x.takeWhile p).length := by
  have hparts : x.takeWhile p ++ x.dropWhile p = x := List.takeWhile_append_dropWhile
  calc x.dropWhile p = (x.takeWhile p ++ x.dropWhile p).drop (x.takeWhile p).length := by
        rw [List.drop_left]
    _ = x.drop (x.takeWhile p).length := by rw [hparts]

/-- The width of a run without blanks, and what is left behind it. -/
theorem run (hp : IsSolidClass p) (h : r.Spells x x') :
    (x'.takeWhile p).length = (x.takeWhile p).length ∧
      r.Spells (x.drop (x.takeWhile p).length) (x'.drop (x.takeWhile p).length) := by
  obtain ⟨htext, hbehind⟩ := h.takeWhile hp
  have hlength : (x'.takeWhile p).length = (x.takeWhile p).length := by
    simpa using congrArg List.length htext
  rw [dropWhile_eq_drop, dropWhile_eq_drop, hlength] at hbehind
  exact ⟨hlength, hbehind⟩

end Spells

end Respelling

end LosslessBasic
