import LosslessBasic.Proofs.Lexer.TokensRespelled
import Mathlib.Data.List.TakeWhile

/-!
# Names stand on one line

Only a word is read as a name, and no byte of a word breaks the line (`isLineBreak_of_mem_name`).
-/

namespace LosslessBasic

open Bytes Ascii

namespace Number

theorem isNumber_of_suffixed? {suffix : UInt8} {l : Lexeme} (h : suffixed? suffix = some l) :
    l.isNumber = true := by
  unfold suffixed? at h
  grind [Lexeme.isNumber]

theorem isNumber_decimal (x : Bytes) : (decimal x).1.isNumber = true := by
  have hplain (condition : Prop) [Decidable condition] :
      (if condition then Lexeme.integerLiteral else .singleLiteral).isNumber = true := by
    split <;> rfl
  rw [decimal_eq_match]
  dsimp only
  split
  next hsuffix =>
    split
    · exact hplain _
    · exact isNumber_of_suffixed? hsuffix
  next => exact hplain _

theorem isNumber_of_based? {x : Bytes} {number : Lexeme × Nat} (h : based? x = some number) :
    number.1.isNumber = true := by
  rw [based?_eq_match] at h
  grind [Lexeme.isNumber]

end Number

namespace Lexer

/-- Only a word is read as a name. -/
theorem scan_of_identifier {c : UInt8} {rest : Bytes} (h : (scan c rest).1 = .lexeme .identifier) :
    scan c rest = word (c :: rest) := by
  have hnumber {found : Lexeme × Nat} (hfound : found.1.isNumber = true) :
      (found.map Kind.lexeme id).1 ≠ .lexeme .identifier := by
    intro heq
    rw [Kind.lexeme.inj heq] at hfound
    cases hfound
  have hpunctuation : (punctuation c rest).1 ≠ .identifier := by
    have hmem {text : Bytes} {l : Lexeme} (hl : Lexeme.ofText? text = some l) :
        l ≠ .identifier := by
      have hmem := List.mem_of_find?_eq_some hl
      rintro rfl
      revert hmem
      decide
    unfold punctuation
    split
    next hl => exact hmem hl
    next =>
      split
      next hl => exact hmem hl
      next => rintro ⟨⟩
  -- every other branch gives a kind that is no identifier
  revert h
  unfold scan
  dsimp only
  split; · rintro ⟨⟩
  split; · rintro ⟨⟩
  split; · rintro ⟨⟩
  split
  · unfold stringLiteral
    split <;> rintro ⟨⟩
  split
  · rw [dateLiteral_eq_ite]
    split <;> rintro ⟨⟩
  split; · rintro ⟨⟩
  split
  · exact fun h => absurd h (hnumber (Number.isNumber_decimal _))
  split
  next hbased => exact fun h => absurd h (hnumber (Number.isNumber_of_based? hbased))
  split; · exact fun _ => rfl
  split; · rintro ⟨⟩
  · exact fun h => absurd (Kind.lexeme.inj h) hpunctuation

/-- A word ends within one byte behind its letters. -/
theorem word_width_le (x : Bytes) : (word x).2 ≤ (x.takeWhile isWordByte).length ∨
    (isTypeSuffix (front (x.drop (x.takeWhile isWordByte).length)) = true ∧
      (word x).2 = (x.takeWhile isWordByte).length + 1) := by
  unfold word
  dsimp only
  split
  next hdollar =>
    refine .inr ⟨?_, rfl⟩
    rw [beq_iff_eq.mp hdollar]
    decide
  next =>
    split
    · exact .inl (Nat.le_refl _)
    · split
      next hsuffix => exact .inr ⟨(Bool.and_eq_true_iff.mp hsuffix).1, rfl⟩
      next => exact .inl (Nat.le_refl _)

/-- No byte of a word breaks the line. -/
theorem isLineBreak_of_mem_word {x : Bytes} {b : UInt8} (hb : b ∈ x.take (word x).2) :
    isLineBreak b = false := by
  have hword {b : UInt8} (hb : b ∈ x.takeWhile isWordByte) : isLineBreak b = false :=
    isWordByte_class.isLineBreak_eq_false (List.mem_takeWhile_imp hb)
  have htake : x.takeWhile isWordByte = x.take (x.takeWhile isWordByte).length :=
    List.prefix_iff_eq_take.mp (List.takeWhile_prefix _)
  rcases word_width_le x with hle | ⟨hsuffix, hwidth⟩
  · refine hword ?_
    rw [htake]
    exact (List.take_prefix_take_left hle).subset hb
  · rw [hwidth, List.take_add_one, List.mem_append, ← htake, ← List.head?_drop] at hb
    rcases hb with hb | hb
    · exact hword hb
    · -- the byte behind the letters is the suffix
      generalize x.drop (x.takeWhile isWordByte).length = behind at hsuffix hb
      cases behind with
      | nil => cases hb
      | cons suffix behind =>
        obtain rfl := List.mem_singleton.mp hb
        exact isTypeSuffix_class.isLineBreak_eq_false hsuffix

/-- No byte of a name breaks the line. -/
theorem isLineBreak_of_mem_name {file : UInt32} {p : Position} {x : Bytes} :
    ∀ t ∈ tokensFrom file 0 p x, t.kind = .lexeme .identifier →
      ∀ b ∈ t.text, isLineBreak b = false := by
  generalize hn : x.length = n
  induction n using Nat.strongRecOn generalizing x p with
  | ind n ih =>
    cases x with
    | nil =>
      intro t ht hkind
      obtain rfl := List.mem_singleton.mp ht
      cases hkind
    | cons c rest =>
      rw [tokensFrom_cons, List.forall_mem_cons]
      refine ⟨fun hkind b hb => ?_, ih _ ?_ rfl⟩
      · have hscan := scan_of_identifier hkind
        refine isLineBreak_of_mem_word (x := c :: rest) (b := b) ?_
        rw [← hscan, ← Nat.sub_add_cancel (scan_pos c rest)]
        exact hb
      · rw [List.length_drop, ← hn, List.length_cons]
        omega

end Lexer

end LosslessBasic
