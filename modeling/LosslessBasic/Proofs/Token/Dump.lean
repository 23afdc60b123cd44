import LosslessBasic.Proofs.Kind.Lookup
import LosslessBasic.Proofs.Text.Characters
import Mathlib.Data.List.Nodup
import Mathlib.Data.List.Chain

/-!
# The lines of tokens

A text that is written line by line, or field by field with a separator between them, is taken apart
again where no line and no field holds what ends it (`lines_flatMap`, `append_inj_of_takeWhile`).

The line that stands for a token in a dump can be read back: kinds have different names, numbers end
at what stands behind them, and an escaped text is decoded without ambiguity (`unescape_escape`).
The line holds no line feed, and a double quote is found in it only around the text.
-/

namespace LosslessBasic

/-! ## Lines and fields -/

/-- Two beginnings whose elements pass a test are the same where the test fails right behind
them. -/
theorem append_inj_of_takeWhile {α : Type} {p : α → Bool} {as as' bs bs' : List α}
    (has : ∀ a ∈ as, p a = true) (has' : ∀ a ∈ as', p a = true) (hbs : ∀ b ∈ bs.head?, p b = false)
    (hbs' : ∀ b ∈ bs'.head?, p b = false) (h : as ++ bs = as' ++ bs') : as = as' ∧ bs = bs' := by
  have hstop {bs : List α} (hbs : ∀ b ∈ bs.head?, p b = false) : bs.takeWhile p = [] := by
    cases bs with
    | nil => rfl
    | cons b bs => simp [hbs b rfl]
  have htake := congrArg (List.takeWhile p) h
  rw [List.takeWhile_append_of_pos has, List.takeWhile_append_of_pos has', hstop hbs, hstop hbs',
    List.append_nil, List.append_nil] at htake
  subst htake
  exact ⟨rfl, List.append_cancel_left h⟩

namespace Bytes

/-- The lines of a text, each without the line feed that ends it. -/
def lines (text : Bytes) : List Bytes := (text.splitOn lineFeed).dropLast

/-- Lines without a line feed in them are found again in the text that they make up. -/
theorem lines_flatMap {ls : List Bytes} (h : ∀ l ∈ ls, lineFeed ∉ l) :
    lines (ls.flatMap (· ++ [lineFeed])) = ls := by
  have hsplit : (ls.flatMap (· ++ [lineFeed])).splitOn lineFeed = ls ++ [[]] := by
    induction ls with
    | nil => simp
    | cons l ls ih =>
      obtain ⟨hl, hls⟩ := List.forall_mem_cons.mp h
      rw [List.flatMap_cons, List.append_assoc, List.singleton_append, List.splitOn_eq_splitOnP,
        List.splitOnP_append_cons_of_forall_mem, ← List.splitOn_eq_splitOnP, ih hls,
        List.cons_append]
      · intro c hc
        exact beq_eq_false_iff_ne.mpr (ne_of_mem_of_not_mem hc hl)
      · exact beq_self_eq_true _
  rw [lines, hsplit, List.dropLast_concat]

/-- A field ends at the first separator behind it. -/
theorem append_cons_inj {c : UInt8} {a b s t : Bytes} (ha : c ∉ a) (hb : c ∉ b)
    (h : a ++ c :: s = b ++ c :: t) : a = b ∧ s = t := by
  have hother {a : Bytes} (ha : c ∉ a) : ∀ d ∈ a, (d != c) = true := fun d hd =>
    bne_iff_ne.mpr (ne_of_mem_of_not_mem hd ha)
  have hstop {s : Bytes} : ∀ d ∈ (c :: s).head?, (d != c) = false := by simp
  obtain ⟨hab, hst⟩ := append_inj_of_takeWhile (hother ha) (hother hb) hstop hstop h
  exact ⟨hab, (List.cons.inj hst).2⟩

/-! ## Numbers -/

/-- The byte of a digit is a digit, and the digit is known by it. -/
theorem byte_of_isDigit {d : Char} (h : d.isDigit = true) :
    Ascii.isDigit (byte d) = true ∧ Char.ofNat (byte d).toNat = d := by
  have hall : ∀ n < 58, 48 ≤ n →
      Ascii.isDigit (byte (Char.ofNat n)) = true ∧
        Char.ofNat (byte (Char.ofNat n)).toNat = Char.ofNat n := by
    decide
  obtain ⟨hlow, hhigh⟩ : 48 ≤ d.toNat ∧ d.toNat < 58 := by
    simp only [Char.isDigit, Bool.and_eq_true, decide_eq_true_eq, ge_iff_le,
      UInt32.le_iff_toNat_le] at h
    exact ⟨h.1, Nat.lt_succ_of_le h.2⟩
  have hbyte := hall d.toNat hhigh hlow
  rwa [Char.ofNat_toNat] at hbyte

/-- A number is written with digits. -/
theorem isDigit_of_mem_decimal {n : Nat} {c : UInt8} (h : c ∈ decimal n) :
    Ascii.isDigit c = true := by
  obtain ⟨d, hd, rfl⟩ := List.mem_map.mp h
  exact (byte_of_isDigit (Nat.isDigit_of_mem_toDigits (by decide) (by decide) hd)).1

/-- A number is known by its digits. -/
theorem decimal_injective : Function.Injective decimal := by
  intro m n h
  have hdigits (n : Nat) : (decimal n).map (fun c => Char.ofNat c.toNat) = Nat.toDigits 10 n := by
    rw [decimal, List.map_map, List.map_congr_left, List.map_id]
    intro d hd
    exact (byte_of_isDigit (Nat.isDigit_of_mem_toDigits (by decide) (by decide) hd)).2
  have hchars : Nat.toDigits 10 m = Nat.toDigits 10 n := by rw [← hdigits, h, hdigits]
  rw [← Nat.ofDigitChars_ten_toDigits (n := m), hchars, Nat.ofDigitChars_ten_toDigits]

end Bytes

set_option maxRecDepth 2000

open Bytes

/-! ## The names of kinds -/

theorem Trivia.mem_all (t : Trivia) : t ∈ all := by cases t <;> decide

theorem Lexeme.mem_all (l : Lexeme) : l ∈ all := by
  have h : all[l.ctorIdx]? = some l := by cases l <;> rfl
  exact List.mem_of_getElem? h

theorem NodeKind.mem_all (n : NodeKind) : n ∈ all := by
  have h : all[n.ctorIdx]? = some n := by cases n <;> rfl
  exact List.mem_of_getElem? h

namespace Kind

/-- Whether a byte may stand in front of the text of a token. -/
def isHeading (c : UInt8) : Bool :=
  Ascii.isLetter c || Ascii.isDigit c || c == byte '?' || c == byte '@' || c == byte '.'

theorem mem_all {k : Kind} (h : ∀ n, k ≠ .unassigned n) : k ∈ all := by
  simp only [all, List.mem_append, List.mem_map]
  cases k with
  | trivia t => exact .inl (.inl (.inl ⟨t, t.mem_all, rfl⟩))
  | lexeme l => exact .inl (.inl (.inr ⟨l, l.mem_all, rfl⟩))
  | keyword k => exact .inl (.inr ⟨k, k.mem_all, rfl⟩)
  | node n => exact .inr ⟨n, n.mem_all, rfl⟩
  | unassigned n => exact absurd rfl (h n)

/-- A name has letters only, unless it is the question mark. -/
theorem isLetter_of_mem_name {k : Kind} {c : UInt8} (hc : c ∈ ofString k.name) :
    Ascii.isLetter c = true ∨ c = byte '?' := by
  have hall : ∀ k ∈ all, (ofString k.name).all Ascii.isLetter = true := by decide
  have hmark : ofString "?" = [byte '?'] := by decide
  by_cases hk : ∃ n, k = .unassigned n
  · obtain ⟨n, rfl⟩ := hk
    rw [show (unassigned n).name = "?" from rfl, hmark] at hc
    exact .inr (List.mem_singleton.mp hc)
  · exact .inl (List.all_eq_true.mp (hall k (mem_all fun n hn => hk ⟨n, hn⟩)) c hc)

/-- Keywords stand in alphabetical order, so no two have the same name. -/
theorem keyword_inj {k l : Keyword} (h : ofString (keyword k).name = ofString (keyword l).name) :
    k = l := by
  have horder :
      (Keyword.all.map fun k => (ofString (keyword k).name).map Ascii.upper).IsChain (· < ·) := by
    decide
  have hnodup : (Keyword.all.map fun k => (ofString (keyword k).name).map Ascii.upper).Nodup :=
    List.nodup_iff_pairwise_ne.mpr (horder.pairwise.imp fun {x y} (hlt : x < y) (heq : x = y) =>
      List.lt_irrefl y (heq ▸ hlt))
  exact List.inj_on_of_nodup_map hnodup k.mem_all l.mem_all (congrArg (List.map Ascii.upper) h)

/-- Kinds of tokens are known by their names. -/
theorem eq_of_name_eq_of_isToken {k l : Kind} (hk : k.isToken = true) (hl : l.isToken = true)
    (h : ofString k.name = ofString l.name) : k = l := by
  let others : List Kind := Trivia.all.map .trivia ++ Lexeme.all.map .lexeme
  have hothers : (others.map fun k => ofString k.name).Nodup := by decide
  -- the names of keywords, and no others, start with a word of their own
  have hother : ∀ k ∈ others, (ofString k.name).take 7 ≠ ofString "Keyword" := by decide
  have hkeyword : ∀ k ∈ Keyword.all, (ofString (keyword k).name).take 7 = ofString "Keyword" := by
    decide
  have hcases {k : Kind} (hk : k.isToken = true) : k ∈ others ∨ ∃ word, k = keyword word := by
    cases k with
    | trivia t => exact .inl (List.mem_append_left _ (List.mem_map_of_mem t.mem_all))
    | lexeme l => exact .inl (List.mem_append_right _ (List.mem_map_of_mem l.mem_all))
    | keyword word => exact .inr ⟨word, rfl⟩
    | node n => cases hk
    | unassigned n => cases hk
  rcases hcases hk with hk | ⟨word, rfl⟩ <;> rcases hcases hl with hl | ⟨word', rfl⟩
  · exact List.inj_on_of_nodup_map hothers hk hl h
  · exact absurd (h ▸ hkeyword word' word'.mem_all) (hother k hk)
  · exact absurd (h ▸ hkeyword word word.mem_all) (hother l hl)
  · exact congrArg keyword (keyword_inj h)

/-- Kinds of nodes are known by their names. -/
theorem eq_of_name_eq_of_isNode {k l : Kind} (hk : k.isNode = true) (hl : l.isNode = true)
    (h : ofString k.name = ofString l.name) : k = l := by
  have hnodup : (NodeKind.all.map fun n => ofString n.name).Nodup := by decide
  cases k <;> cases hk
  cases l <;> cases hl
  exact congrArg node (List.inj_on_of_nodup_map hnodup (NodeKind.mem_all _) (NodeKind.mem_all _) h)

end Kind

/-! ## Escaped texts -/

namespace Token

/-- The byte that the second byte of an escape stands for. -/
def unescapeByte (c : UInt8) : UInt8 :=
  if c = byte 'n' then lineFeed
  else if c = byte 'r' then carriageReturn
  else if c = byte 't' then tab
  else c

/-- The text that an escaped text was made of. -/
def unescape : Bytes → Bytes
  | [] => []
  | [c] => [c]
  | c :: d :: rest =>
    if c = backslash then unescapeByte d :: unescape rest else c :: unescape (d :: rest)

/-- A byte that is no backslash stands for itself. -/
theorem unescape_of_ne {c : UInt8} (h : c ≠ backslash) (rest : Bytes) :
    unescape (c :: rest) = c :: unescape rest := by
  cases rest with
  | nil => rfl
  | cons d rest => rw [unescape, if_neg h]

/-- An escaped byte is read back. -/
theorem unescape_escapeByte (c : UInt8) (rest : Bytes) :
    unescape (escapeByte c ++ rest) = c :: unescape rest := by
  -- a byte is written by itself, or by an escape that stands for it
  have hall : ∀ c, escapeByte c = [c] ∧ c ≠ backslash ∨
      ∃ d ∈ [byte 'n', byte 'r', byte 't', doubleQuote, backslash],
        escapeByte c = [backslash, d] ∧ unescapeByte d = c := by
    decide
  rcases hall c with ⟨hc, hne⟩ | ⟨d, -, hc, hd⟩
  · rw [hc, List.singleton_append, unescape_of_ne hne]
  · rw [hc, List.cons_append, List.singleton_append, unescape, if_pos rfl, hd]

/-- Escaping is undone exactly. -/
theorem unescape_escape (text : Bytes) : unescape (escape text) = text := by
  induction text with
  | nil => rfl
  | cons c text ih =>
    change unescape (escapeByte c ++ escape text) = c :: text
    rw [unescape_escapeByte, ih]

/-- Different texts are escaped to different ones. -/
theorem escape_injective : Function.Injective escape :=
  Function.LeftInverse.injective unescape_escape

/-- An escaped text stays on its line. -/
theorem lineFeed_not_mem_escape (text : Bytes) : lineFeed ∉ escape text := by
  have hall : ∀ c, lineFeed ∉ escapeByte c := by decide
  intro h
  obtain ⟨c, -, hc⟩ := List.mem_flatMap.mp h
  exact hall c hc

/-- What is said of a text stands on one line. -/
theorem lineFeed_not_mem_describeText (text : Bytes) : lineFeed ∉ describeText text := by
  have hblank : lineFeed ≠ byte ' ' ∧ lineFeed ≠ doubleQuote := by decide
  simp [describeText, lineFeed_not_mem_escape, hblank]

/-- Different texts are told differently. -/
theorem describeText_injective : Function.Injective describeText := by
  intro text text' h
  have hquoted : escape text ++ [doubleQuote] = escape text' ++ [doubleQuote] :=
    (List.cons.inj (List.cons.inj h).2).2
  exact escape_injective (List.append_cancel_right hquoted)

/-! ## Kinds and ranges -/

/-- A kind and its range are written with letters, digits and the signs between them. -/
theorem isHeading_of_mem_describeRange {kind : Kind} {start stop : UInt32} {c : UInt8}
    (hc : c ∈ describeRange kind start stop) : Kind.isHeading c = true := by
  have hdots : ofString ".." = [byte '.', byte '.'] := by decide
  have hname : ∀ c ∈ ofString kind.name, Kind.isHeading c = true := fun c hc => by
    rcases Kind.isLetter_of_mem_name hc with hc | rfl
    · simp [Kind.isHeading, hc]
    · decide
  have hdecimal (n : Nat) : ∀ c ∈ decimal n, Kind.isHeading c = true := fun c hc => by
    simp [Kind.isHeading, isDigit_of_mem_decimal hc]
  simp only [describeRange, hdots, List.mem_append, List.mem_cons, List.not_mem_nil, or_false] at hc
  rcases hc with (((hc | rfl) | hc) | hc) | hc
  · exact hname c hc
  · decide
  · exact hdecimal _ c hc
  · rcases hc with rfl | rfl <;> decide
  · exact hdecimal _ c hc

/-- Something is said of every range. -/
theorem describeRange_ne_nil (kind : Kind) (start stop : UInt32) :
    describeRange kind start stop ≠ [] := by
  simp [describeRange]

/-- A kind and its range, with no digit behind them, are known by what is written of them. -/
theorem describeRange_append_inj {k l : Kind} {a b c d : UInt32} {s t : Bytes}
    (hs : ∀ c ∈ s.head?, Ascii.isDigit c = false) (ht : ∀ c ∈ t.head?, Ascii.isDigit c = false)
    (h : describeRange k a b ++ s = describeRange l c d ++ t) :
    ofString k.name = ofString l.name ∧ a = c ∧ b = d ∧ s = t := by
  have hdots : ofString ".." = [byte '.', byte '.'] := by decide
  have hat (k : Kind) : byte '@' ∉ ofString k.name := fun hc => by
    rcases Kind.isLetter_of_mem_name hc with hc | hc <;> revert hc <;> decide
  have hdot (n : Nat) : byte '.' ∉ decimal n := fun hc => by
    have hdigit := isDigit_of_mem_decimal hc
    revert hdigit
    decide
  have hnumber {m n : UInt32} (h : decimal m.toNat = decimal n.toNat) : m = n :=
    UInt32.toNat_inj.mp (decimal_injective h)
  simp only [describeRange, hdots, List.append_assoc, List.cons_append, List.nil_append] at h
  obtain ⟨hname, h⟩ := append_cons_inj (hat k) (hat l) h
  obtain ⟨hstart, h⟩ := append_cons_inj (hdot _) (hdot _) h
  obtain ⟨hstop, hrest⟩ := append_inj_of_takeWhile (fun _ => isDigit_of_mem_decimal)
    (fun _ => isDigit_of_mem_decimal) hs ht (List.cons.inj h).2
  exact ⟨hname, hnumber hstart, hnumber hstop, hrest⟩

/-- The text of a token is read off its line. -/
theorem text_eq_of_format_eq {t u : Token} (h : t.format = u.format) : t.text = u.text := by
  have hblank (text : Bytes) : ∀ c ∈ (describeText text).head?, Ascii.isDigit c = false := by
    intro c hc
    obtain rfl := Option.some.inj hc
    decide
  exact describeText_injective (describeRange_append_inj (hblank _) (hblank _) h).2.2.2

end Token

end LosslessBasic
