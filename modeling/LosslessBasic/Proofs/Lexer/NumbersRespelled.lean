import LosslessBasic.Proofs.Lexer.Dates

/-!
# Numbers in another spelling

What the readers of numbers find in a text they find in the same text in another spelling. A number
holds no blank, so none of them runs into the place from which on the texts may differ, and what is
left behind the number is the same text in that spelling again (`Number.decimal_spells`,
`Number.based?_spells`).
-/

namespace LosslessBasic

set_option maxRecDepth 2000

open Bytes Ascii

variable {r : Respelling} {x x' : Bytes}

/-- What a reader finds in two texts: the same, and the same is left behind it. -/
structure Reads (r : Respelling) (x x' : Bytes) {α : Type} (found found' : α × Nat) : Prop where
  eq : found'.1 = found.1
  behind : r.Spells (x.drop found.2) (x'.drop found'.2)

theorem Reads.lexeme {found found' : Lexeme × Nat} (h : Reads r x x' found found') :
    Reads r x x' (found.map Kind.lexeme id) (found'.map Kind.lexeme id) :=
  ⟨congrArg Kind.lexeme h.eq, h.behind⟩

/-! ## Numbers -/

namespace Number

open Respelling

theorem period_class : IsSolidClass (· == byte '.') := beq_class (by decide) (by decide)

theorem sign_class : IsSolidClass (fun c => c == byte '+' || c == byte '-') := by decide

theorem exponent_class : IsSolidClass (fun c => upper c == byte 'E' || upper c == byte 'D') := by
  decide

/-- A run of digits is as wide however what follows is spelled. -/
theorem digitRun_spells (h : r.Spells x x') :
    digitRun x' = digitRun x ∧ r.Spells (x.drop (digitRun x)) (x'.drop (digitRun x)) :=
  h.run isDigit_class

/-- A fraction is a period with digits behind it, or one that no word goes on from. -/
theorem fractionWidth_eq_ite (x : Bytes) :
    fractionWidth x =
      if front x == byte '.' then
        if isDigit (front x.tail) then 1 + digitRun x.tail
        else if front x.tail != byte '.' && !isWordByte (front x.tail) then 1
        else 0
      else 0 := by
  cases x <;> rfl

/-- A fraction is as wide however it is spelled. -/
theorem fractionWidth_spells (h : r.Spells x x') :
    fractionWidth x' = fractionWidth x ∧
      r.Spells (x.drop (fractionWidth x)) (x'.drop (fractionWidth x)) := by
  rw [fractionWidth_eq_ite, fractionWidth_eq_ite, h.front_eq period_class.toIsClass]
  split
  next hdot =>
    have htail := h.tail period_class hdot
    obtain ⟨hrun, hdrop⟩ := digitRun_spells htail
    have hperiod : (front x'.tail != byte '.') = (front x.tail != byte '.') :=
      congrArg (!·) (htail.front_eq period_class.toIsClass)
    rw [htail.front_eq isDigit_class.toIsClass, htail.front_eq isWordByte_class.toIsClass,
      hperiod, hrun]
    refine ⟨rfl, ?_⟩
    split
    · simpa [Nat.add_comm 1, ← List.drop_tail] using hdrop
    · split
      · simpa [← List.drop_one] using htail
      · exact h
  next => exact ⟨rfl, h⟩

/-- An exponent is its letter, perhaps a sign, and digits. -/
theorem exponentWidth_eq_ite (x : Bytes) :
    exponentWidth x =
      if upper (front x) == byte 'E' || upper (front x) == byte 'D' then
        let signWidth := if front x.tail == byte '+' || front x.tail == byte '-' then 1 else 0
        let digits := digitRun (x.tail.drop signWidth)
        if digits == 0 then 0 else 1 + signWidth + digits
      else 0 := by
  cases x <;> rfl

/-- An exponent is as wide however it is spelled. -/
theorem exponentWidth_spells (h : r.Spells x x') :
    exponentWidth x' = exponentWidth x ∧
      r.Spells (x.drop (exponentWidth x)) (x'.drop (exponentWidth x)) := by
  have hletter := h.front_eq exponent_class.toIsClass
  rw [exponentWidth_eq_ite, exponentWidth_eq_ite, hletter]
  split
  next hexponent =>
    have htail := h.tail exponent_class hexponent
    have hsign := htail.front_eq sign_class.toIsClass
    dsimp only
    rw [hsign]
    generalize hwidth : (if front x.tail == byte '+' || front x.tail == byte '-' then 1 else 0) =
      width
    have hdigits : r.Spells (x.tail.drop width) (x'.tail.drop width) := by
      rw [← hwidth]
      split
      next hfront =>
        rw [List.drop_one, List.drop_one]
        exact htail.tail sign_class hfront
      next => exact htail
    obtain ⟨hrun, hdrop⟩ := digitRun_spells hdigits
    rw [hrun]
    refine ⟨rfl, ?_⟩
    split
    · exact h
    · generalize digitRun (x.tail.drop width) = digits at hdrop ⊢
      rw [List.drop_drop, List.drop_drop, List.drop_tail, List.drop_tail] at hdrop
      rwa [Nat.add_assoc, Nat.add_comm 1]
  next => exact ⟨rfl, h⟩

/-- Each suffix of a number is spelled in one way. -/
theorem suffix_class :
    ∀ c ∈ [byte '%', byte '&', byte '!', byte '#', byte '@'], IsSolidClass (· == c) := by
  have hall : ∀ c ∈ [byte '%', byte '&', byte '!', byte '#', byte '@'],
      isPrinted c = true ∧ isLetter c = false := by decide
  exact fun c hc => beq_class (hall c hc).1 (hall c hc).2

/-- The suffix of a number does not depend on how the number is spelled. -/
theorem suffixed?_spells (h : r.Spells x x') : suffixed? (front x') = suffixed? (front x) := by
  have hfront (c : UInt8) (hc : c ∈ [byte '%', byte '&', byte '!', byte '#', byte '@']) :
      (front x' == c) = (front x == c) := h.front_eq (suffix_class c hc).toIsClass
  unfold suffixed?
  rw [hfront _ (by simp), hfront _ (by simp), hfront _ (by simp), hfront _ (by simp),
    hfront _ (by simp)]

/-- A suffix is a byte of one class, so that what is behind it is known. -/
theorem tail_of_suffixed? {lexeme : Lexeme} (hsuffix : suffixed? (front x) = some lexeme)
    (h : r.Spells x x') : r.Spells x.tail x'.tail := by
  have hall : ∀ c, suffixed? c ≠ none → c ∈ [byte '%', byte '&', byte '!', byte '#', byte '@'] := by
    decide
  exact h.tail (suffix_class _ (hall _ (by rw [hsuffix]; nofun))) (beq_self_eq_true _)

/-- The suffix behind a decimal number. -/
theorem decimal_eq_match (x : Bytes) : decimal x =
    let whole := digitRun x
    let fraction := fractionWidth (x.drop whole)
    let exponent := exponentWidth (x.drop (whole + fraction))
    let width := whole + fraction + exponent
    let plain := if fraction + exponent == 0 then Lexeme.integerLiteral else .singleLiteral
    match suffixed? (front (x.drop width)) with
    | some lexeme =>
      if isWordByte (front (x.drop width).tail) then (plain, width) else (lexeme, width + 1)
    | none => (plain, width) := by
  unfold decimal
  dsimp only
  split
  next hnil => rw [hnil]; rfl
  next hcons => rw [hcons]; rfl

/-- The lexeme of a decimal number and what is left behind it. -/
theorem decimal_spells (h : r.Spells x x') : Reads r x x' (decimal x) (decimal x') := by
  obtain ⟨hwhole, hbehindWhole⟩ := digitRun_spells h
  obtain ⟨hfraction, hbehindFraction⟩ := fractionWidth_spells hbehindWhole
  rw [List.drop_drop, List.drop_drop] at hbehindFraction
  obtain ⟨hexponent, hbehind⟩ := exponentWidth_spells hbehindFraction
  rw [List.drop_drop, List.drop_drop] at hbehind
  rw [decimal_eq_match, decimal_eq_match]
  simp only [hwhole, hfraction, hexponent]
  rw [suffixed?_spells hbehind]
  cases hsuffix : suffixed? (front (x.drop _)) with
  | none => exact ⟨rfl, hbehind⟩
  | some lexeme =>
    have htail := tail_of_suffixed? hsuffix hbehind
    dsimp only
    rw [htail.front_eq isWordByte_class.toIsClass]
    split
    · exact ⟨rfl, hbehind⟩
    · refine ⟨rfl, ?_⟩
      rwa [List.tail_drop, List.tail_drop] at htail

/-- Letters that differ in their case name the same base. -/
theorem radixDigit?_spells {letter letter' : UInt8} (h : upper letter = upper letter') :
    radixDigit? letter = radixDigit? letter' := by
  unfold radixDigit?
  rw [h]

/-- A letter that names a base, and the digits of that base, are classes of bytes. -/
theorem isSolidClass_of_radixDigit? {letter : UInt8} {isRadixDigit : UInt8 → Bool}
    (h : radixDigit? letter = some isRadixDigit) :
    IsSolidClass (fun c => upper c == upper letter) ∧ IsSolidClass isRadixDigit := by
  have hletter : ∀ letter, upper letter = byte 'H' ∨ upper letter = byte 'O' →
      IsSolidClass (fun c => upper c == upper letter) := by
    rintro letter (h | h) <;> exact upper_beq_class (by rw [h]; decide)
  unfold radixDigit? at h
  split at h
  next hH =>
    cases h
    exact ⟨hletter letter (.inl (beq_iff_eq.mp hH)), by decide⟩
  next =>
    split at h
    next hO =>
      cases h
      exact ⟨hletter letter (.inr (beq_iff_eq.mp hO)), by decide⟩
    next => cases h

/-- A number with a base is an ampersand, a letter and digits of the base. -/
theorem based?_eq_match (x : Bytes) : based? x =
    if front x == byte '&' then
      match radixDigit? (front x.tail) with
      | none => none
      | some isRadixDigit =>
        let digits := (x.tail.tail.takeWhile isRadixDigit).length
        let suffix := front (x.tail.tail.drop digits)
        if digits == 0 then none
        else if suffix == byte '&' then some (.longLiteral, digits + 3)
        else if suffix == byte '%' then some (.integerLiteral, digits + 3)
        else some (.integerLiteral, digits + 2)
    else none := by
  match x with
  | [] => rfl
  | [c] =>
    have hnone : radixDigit? (front ([] : Bytes)) = none := by decide
    rw [List.tail_cons, hnone]
    split <;> rfl
  | c :: letter :: rest => rfl

/-- A number of base 16 or 8 and what is left behind it. -/
theorem based?_spells (h : r.Spells x x') : Option.Rel (Reads r x x') (based? x) (based? x') := by
  have hampersand : IsSolidClass (· == byte '&') := beq_class (by decide) (by decide)
  have hpercent : IsSolidClass (· == byte '%') := beq_class (by decide) (by decide)
  rw [based?_eq_match, based?_eq_match, h.front_eq hampersand.toIsClass]
  split
  next hfront =>
    have htail := h.tail hampersand hfront
    cases hradix : radixDigit? (front x.tail) with
    | none =>
      have hclass : IsClass fun c => (radixDigit? c).isSome := by decide
      have hnone := htail.front_eq hclass
      rw [hradix, Option.isSome_none, Option.isSome_eq_false_iff,
        Option.isNone_iff_eq_none] at hnone
      rw [hnone]
      exact .none
    | some isRadixDigit =>
      obtain ⟨hletter, hclass⟩ := isSolidClass_of_radixDigit? hradix
      have hupper := htail.front_eq hletter.toIsClass
      rw [beq_self_eq_true, beq_iff_eq] at hupper
      obtain ⟨hlength, hdrop⟩ := (htail.tail hletter (beq_self_eq_true _)).run hclass
      have hsuffix := hdrop.front_eq hampersand.toIsClass
      have hsuffix' := hdrop.front_eq hpercent.toIsClass
      -- the letter and its digits are the same but for their case, so only what follows the digits
      -- is left
      rw [radixDigit?_spells hupper, hradix]
      dsimp only
      rw [hlength, hsuffix, hsuffix']
      generalize (x.tail.tail.takeWhile isRadixDigit).length = digits at hdrop ⊢
      have hdrop₂ : r.Spells (x.drop (digits + 2)) (x'.drop (digits + 2)) := by
        simpa [List.drop_tail] using hdrop
      split
      · exact .none
      · split
        next hlong => exact .some ⟨rfl, by simpa [List.drop_tail] using hdrop.tail hampersand hlong⟩
        next =>
          split
          next hinteger =>
            exact .some ⟨rfl, by simpa [List.drop_tail] using hdrop.tail hpercent hinteger⟩
          next => exact .some ⟨rfl, hdrop₂⟩
  next => exact .none

end Number

end LosslessBasic
