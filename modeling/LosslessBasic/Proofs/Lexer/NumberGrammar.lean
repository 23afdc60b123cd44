import LosslessBasic.Proofs.Lexer.Division
import LosslessBasic.Proofs.Text.Languages

/-!
# The grammar of numbers

`Number.literals` is the language of numeric literals, and `Number.classOf` gives the class of each
of them. A decimal number falls into a whole part, a fraction, an exponent and a suffix
(`Number.Parts`); each reader takes one of these parts, and it takes the same part from the text of
the number alone.

## Main results

* `Lexer.numbers_exact`: the tokens of numbers are the texts of the grammar.
-/

namespace LosslessBasic

set_option maxRecDepth 2000

open Bytes Ascii

namespace Number

/-! ## The language -/

/-- The type suffixes of decimal numbers with the classes that they give. -/
def suffixes : List (UInt8 × Lexeme) :=
  [(byte '%', .integerLiteral), (byte '&', .longLiteral), (byte '!', .singleLiteral),
    (byte '#', .doubleLiteral), (byte '@', .decimalLiteral)]

/-- Digits in front of the exponent, with digits on one side of a dot at least. -/
def mantissas : Language UInt8 :=
  runs isDigit + runs isDigit * oneOf [byte '.'] * runs isDigit + oneOf [byte '.'] * runs isDigit

/-- A letter, a sign or none, and digits. -/
def exponents : Language UInt8 :=
  oneOf [byte 'E', byte 'e', byte 'D', byte 'd'] * (1 + oneOf [byte '+', byte '-']) * runs isDigit

/-- Decimal numbers. -/
def decimals : Language UInt8 :=
  (runs isDigit * oneOf [byte '.'] + mantissas * (1 + exponents)) *
    (1 + oneOf (suffixes.map Prod.fst))

/-- Numbers of one base: an ampersand, a letter and digits. -/
def radixes (letters : List UInt8) (isRadixDigit : UInt8 → Bool) : Language UInt8 :=
  oneOf [byte '&'] * oneOf letters * runs isRadixDigit * (1 + oneOf [byte '&', byte '%'])

/-- Numeric literals. -/
def literals : Language UInt8 :=
  decimals + radixes [byte 'H', byte 'h'] isHexDigit + radixes [byte 'O', byte 'o'] isOctalDigit

/-- The class of a numeric literal. A number of another base is long when it ends in an ampersand. A
decimal number has the class of its suffix; without one it is single when it has a dot or an
exponent. -/
def classOf (x : Bytes) : Lexeme :=
  if front x == byte '&' then
    if x.getLast? == some (byte '&') then .longLiteral else .integerLiteral
  else
    match x.getLast?.bind fun c => List.lookup c suffixes with
    | some lexeme => lexeme
    | none =>
      if x.any fun c => c == byte '.' || upper c == byte 'E' || upper c == byte 'D' then
        .singleLiteral
      else .integerLiteral

/-! ## The parts of a decimal number -/

/-- The parts of a decimal number in front of its suffix: whole part, fraction and exponent. -/
inductive Parts : Bytes → Bytes → Bytes → Prop where
  /-- Digits without a dot. -/
  | whole {w e : Bytes} (hw : w ∈ runs isDigit) (he : e ∈ 1 + exponents) : Parts w [] e
  /-- Digits and a dot behind them. -/
  | point {w : Bytes} (hw : w ∈ runs isDigit) : Parts w [byte '.'] []
  /-- A dot with digits behind it. -/
  | fraction {w d e : Bytes} (hw : w ∈ 1 + runs isDigit) (hd : d ∈ runs isDigit)
    (he : e ∈ 1 + exponents) :
    Parts w (byte '.' :: d) e

/-- The texts of type suffixes, and the empty one. -/
def endings : Language UInt8 := 1 + oneOf (suffixes.map Prod.fst)

variable {x y w f e s : Bytes}

/-- Parts of a number and an ending make up a decimal number. -/
theorem mem_decimals_of_parts (h : Parts w f e) (hs : s ∈ endings) :
    w ++ (f ++ (e ++ s)) ∈ decimals := by
  simp only [← List.append_assoc]
  refine Language.append_mem_mul ?_ hs
  cases h with
  | whole hw he =>
    rw [List.append_nil]
    exact .inr (Language.append_mem_mul (.inl (.inl hw)) he)
  | point hw =>
    rw [List.append_nil]
    exact .inl (Language.append_mem_mul hw (singleton_mem_oneOf (List.mem_singleton_self _)))
  | fraction hw hd he =>
    refine .inr (Language.append_mem_mul ?_ he)
    have hdot : [byte '.'] ∈ oneOf [byte '.'] := singleton_mem_oneOf (List.mem_singleton_self _)
    rw [← List.singleton_append, ← List.append_assoc]
    rcases mem_one_add_iff.mp hw with rfl | hw
    · rw [List.nil_append]
      exact .inr (Language.append_mem_mul hdot hd)
    · exact .inl (.inr (Language.append_mem_mul (Language.append_mem_mul hw hdot) hd))

/-- A decimal number has its parts and an ending. -/
theorem exists_parts (h : x ∈ decimals) :
    ∃ w f e s, Parts w f e ∧ s ∈ endings ∧ x = w ++ (f ++ (e ++ s)) := by
  obtain ⟨x, hx, s, hs, rfl⟩ := Language.mem_mul.mp h
  rcases hx with hx | hx
  · obtain ⟨w, hw, dot, ⟨c, hc, rfl⟩, rfl⟩ := Language.mem_mul.mp hx
    obtain rfl := List.mem_singleton.mp hc
    exact ⟨w, _, [], s, .point hw, hs, by simp⟩
  · obtain ⟨m, hm, e, he, rfl⟩ := Language.mem_mul.mp hx
    rcases hm with (hm | hm) | hm
    · exact ⟨m, [], e, s, .whole hm he, hs, by simp⟩
    · obtain ⟨front, hfront, d, hd, rfl⟩ := Language.mem_mul.mp hm
      obtain ⟨w, hw, dot, ⟨c, hc, rfl⟩, rfl⟩ := Language.mem_mul.mp hfront
      obtain rfl := List.mem_singleton.mp hc
      exact ⟨w, _, e, s, .fraction (mem_one_add_iff.mpr (.inr hw)) hd he, hs, by simp⟩
    · obtain ⟨dot, ⟨c, hc, rfl⟩, d, hd, rfl⟩ := Language.mem_mul.mp hm
      obtain rfl := List.mem_singleton.mp hc
      exact ⟨[], _, e, s, .fraction nil_mem_one_add hd he, hs, by simp⟩

/-! ## Reading the parts -/

/-- A word byte is neither a suffix nor the end of a text, and nor is a dot. -/
theorem front_of_mem_endings (hs : s ∈ endings) :
    isDigit (front s) = false ∧ isWordByte (front s) = false ∧ (front s == byte '.') = false ∧
      (upper (front s) == byte 'E' || upper (front s) == byte 'D') = false ∧
      isWordByte (front s.tail) = false := by
  have hall : ∀ c ∈ 0 :: suffixes.map Prod.fst, isDigit c = false ∧ isWordByte c = false ∧
      (c == byte '.') = false ∧ (upper c == byte 'E' || upper c == byte 'D') = false := by
    decide
  have htail : isWordByte (front []) = false := by decide
  rcases mem_one_add_iff.mp hs with rfl | ⟨c, hc, rfl⟩
  · obtain ⟨hdigit, hword, hdot, hletter⟩ := hall 0 List.mem_cons_self
    exact ⟨hdigit, hword, hdot, hletter, htail⟩
  · obtain ⟨hdigit, hword, hdot, hletter⟩ := hall c (List.mem_cons_of_mem _ hc)
    exact ⟨hdigit, hword, hdot, hletter, htail⟩

/-- An exponent starts with a letter. -/
theorem head_of_mem_exponents (he : e ∈ 1 + exponents) :
    ∀ c ∈ e.head?, isDigit c = false ∧ (c == byte '.') = false := by
  have hall : ∀ c ∈ [byte 'E', byte 'e', byte 'D', byte 'd'],
      isDigit c = false ∧ (c == byte '.') = false := by
    decide
  rcases mem_one_add_iff.mp he with rfl | he
  · rintro c ⟨⟩
  · obtain ⟨m, hm, d, -, rfl⟩ := Language.mem_mul.mp he
    obtain ⟨letter, ⟨c, hc, rfl⟩, sign, -, rfl⟩ := Language.mem_mul.mp hm
    rintro b ⟨⟩
    exact hall c hc

/-- A run of digits ends where no digit follows. -/
theorem digitRun_append (hw : w ∈ 1 + runs isDigit) (hy : isDigit (front y) = false) :
    digitRun (w ++ y) = w.length := by
  rw [digitRun, (takeWhile_append_of_front (mem_one_add_runs_iff.mp hw) hy).1]

/-- An exponent ends where an ending follows. -/
theorem exponentWidth_append (he : e ∈ 1 + exponents) (hs : s ∈ endings) :
    exponentWidth (e ++ s) = e.length := by
  obtain ⟨hdigit, -, -, hletter, -⟩ := front_of_mem_endings hs
  rcases mem_one_add_iff.mp he with rfl | he
  · rw [List.nil_append, exponentWidth_eq_ite, hletter]
    rfl
  · obtain ⟨m, hm, d, hd, rfl⟩ := Language.mem_mul.mp he
    obtain ⟨letter, ⟨c, hc, rfl⟩, sign, hsign, rfl⟩ := Language.mem_mul.mp hm
    have hall : ∀ c ∈ [byte 'E', byte 'e', byte 'D', byte 'd'],
        (upper c == byte 'E' || upper c == byte 'D') = true := by
      decide
    have hrun : digitRun (d ++ s) = d.length :=
      digitRun_append (mem_one_add_iff.mpr (.inr hd)) hdigit
    have hpos : (d.length == 0) = false := by simpa using hd.1
    -- digits are no sign, so the sign is the one in front of them
    have hwidth :
        (if front (sign ++ (d ++ s)) == byte '+' || front (sign ++ (d ++ s)) == byte '-' then 1
        else 0) = sign.length := by
      rcases mem_one_add_iff.mp hsign with rfl | ⟨b, hb, rfl⟩
      · have hdigits : ∀ c, isDigit c = true → (c == byte '+' || c == byte '-') = false := by decide
        rw [List.nil_append, hdigits _ (front_of_mem_runs hd s)]
        rfl
      · have hsigns : ∀ c ∈ [byte '+', byte '-'], (c == byte '+' || c == byte '-') = true := by
          decide
        exact if_pos (hsigns b hb)
    have hlength : ([c] ++ sign ++ d).length = 1 + sign.length + d.length := by
      simp only [List.length_append, List.length_singleton]
    rw [hlength, List.append_assoc, List.append_assoc, List.singleton_append, exponentWidth_eq_ite,
      front_cons, if_pos (hall c hc), List.tail_cons]
    dsimp only
    rw [hwidth, List.drop_left, hrun, hpos]
    rfl

/-- Behind the digits of a number there is neither a digit nor a dot. -/
theorem front_exponent (he : e ∈ 1 + exponents) (hs : s ∈ endings) :
    isDigit (front (e ++ s)) = false ∧ (front (e ++ s) == byte '.') = false := by
  obtain ⟨hdigit, -, hdot, -, -⟩ := front_of_mem_endings hs
  have hhead := head_of_mem_exponents he
  exact ⟨front_append_eq_false (fun c hc => (hhead c hc).1) hdigit,
    front_append_eq_false (p := (· == byte '.')) (fun c hc => (hhead c hc).2) hdot⟩

/-- A fraction is read in front of an exponent and a suffix. -/
theorem Parts.fractionWidth_append (h : Parts w f e) (hs : s ∈ endings) :
    fractionWidth (f ++ (e ++ s)) = f.length := by
  obtain ⟨hdigit, hword, hdot, -, -⟩ := front_of_mem_endings hs
  rw [fractionWidth_eq_ite]
  cases h with
  | whole hw he =>
    rw [List.nil_append, (front_exponent he hs).2]
    rfl
  | point hw =>
    have hend : (front s != byte '.' && !isWordByte (front s)) = true := by
      rw [bne, hdot, hword]
      rfl
    rw [List.singleton_append, List.nil_append, front_cons, List.tail_cons,
      if_pos (beq_self_eq_true _), hdigit, if_neg Bool.false_ne_true, if_pos hend]
    rfl
  | @fraction d _ hw hd he =>
    have hfront := front_of_mem_runs hd (e ++ s)
    rw [List.cons_append, front_cons, List.tail_cons, if_pos (beq_self_eq_true _), if_pos hfront,
      digitRun_append (mem_one_add_iff.mpr (.inr hd)) (front_exponent he hs).1, List.length_cons,
      Nat.add_comm]

/-- The whole part of a number is empty or a run of digits. -/
theorem Parts.whole_mem (h : Parts w f e) : w ∈ 1 + runs isDigit := by
  cases h with
  | whole hw => exact mem_one_add_iff.mpr (.inr hw)
  | point hw => exact mem_one_add_iff.mpr (.inr hw)
  | fraction hw => exact hw

/-- The last part of a number is empty or an exponent. -/
theorem Parts.exponent_mem (h : Parts w f e) : e ∈ 1 + exponents := by
  cases h with
  | whole _ he => exact he
  | point => exact nil_mem_one_add
  | fraction _ _ he => exact he

/-- Behind the whole part of a number no digit follows. -/
theorem Parts.front_fraction (h : Parts w f e) (hs : s ∈ endings) :
    isDigit (front (f ++ (e ++ s))) = false := by
  have hdot : isDigit (byte '.') = false := by decide
  cases h with
  | whole _ he => exact (front_exponent he hs).1
  | point => exact hdot
  | fraction => exact hdot

/-- The class that the parts of a decimal number give it. -/
def partsClass (f e s : Bytes) : Lexeme :=
  (suffixed? (front s)).getD (if f.length + e.length == 0 then .integerLiteral else .singleLiteral)

/-- The parts of a number are read one by one. -/
theorem decimal_of_parts (h : Parts w f e) (hs : s ∈ endings) :
    decimal (w ++ (f ++ (e ++ s))) = (partsClass f e s, (w ++ (f ++ (e ++ s))).length) := by
  have hwhole := digitRun_append h.whole_mem (h.front_fraction hs)
  have hfraction := h.fractionWidth_append hs
  have hexponent := exponentWidth_append h.exponent_mem hs
  have hdrop : (w ++ (f ++ (e ++ s))).drop (w.length + f.length) = e ++ s := by
    rw [← List.drop_drop, List.drop_left, List.drop_left]
  have hdrop' : (w ++ (f ++ (e ++ s))).drop (w.length + f.length + e.length) = s := by
    rw [← List.drop_drop, hdrop, List.drop_left]
  have hsuffix : ∀ c ∈ suffixes.map Prod.fst, (suffixed? c).isSome = true := by decide
  rw [decimal_eq_match]
  dsimp only
  simp only [hwhole, List.drop_left, hfraction, hdrop, hexponent, hdrop',
    List.length_append, partsClass]
  rcases mem_one_add_iff.mp hs with rfl | ⟨c, hc, rfl⟩
  · have hnone : suffixed? (front []) = none := by decide
    rw [hnone]
    simp [Nat.add_assoc]
  · obtain ⟨l, hl⟩ := Option.isSome_iff_exists.mp (hsuffix c hc)
    have hend : isWordByte (front []) = false := by decide
    rw [front_cons, hl]
    simp [hend, Nat.add_assoc]

/-! ## The parts that are read -/

/-- As many bytes as a run of digits is wide are digits. -/
theorem take_digitRun (x : Bytes) : x.take (digitRun x) = x.takeWhile isDigit :=
  (List.prefix_iff_eq_take.mp (List.takeWhile_prefix _)).symm

/-- Behind a run of digits stands what is left when digits are left out. -/
theorem drop_digitRun (x : Bytes) : x.drop (digitRun x) = x.dropWhile isDigit :=
  (Respelling.Spells.dropWhile_eq_drop ..).symm

/-- What is read as an exponent is one, or nothing. -/
theorem take_exponentWidth_mem (x : Bytes) : x.take (exponentWidth x) ∈ 1 + exponents := by
  rw [exponentWidth_eq_ite]
  split
  next hletter =>
    have hall : ∀ c, (upper c == byte 'E' || upper c == byte 'D') = true →
        c ∈ [byte 'E', byte 'e', byte 'D', byte 'd'] := by
      decide
    have hcons := eq_front_cons_tail (p := fun c => upper c == byte 'E' || upper c == byte 'D')
      (by decide) hletter
    dsimp only
    generalize hwidth : (if front x.tail == byte '+' || front x.tail == byte '-' then 1 else 0) =
      width
    -- the three parts of an exponent: its letter, a sign at will and its digits
    have hsign : x.tail.take width ∈ 1 + oneOf [byte '+', byte '-'] := by
      subst hwidth
      split
      next hfront =>
        have hsigns : ∀ c, (c == byte '+' || c == byte '-') = true →
            c ∈ [byte '+', byte '-'] := by decide
        rw [eq_front_cons_tail (p := fun c => c == byte '+' || c == byte '-') (by decide) hfront]
        exact mem_one_add_iff.mpr (.inr (singleton_mem_oneOf (hsigns _ hfront)))
      next => exact nil_mem_one_add
    split
    · exact nil_mem_one_add
    next hdigits =>
      have hrun : (x.tail.drop width).take (digitRun (x.tail.drop width)) ∈ runs isDigit := by
        rw [take_digitRun]
        refine ⟨fun hnil => hdigits ?_, fun c => List.mem_takeWhile_imp⟩
        rw [digitRun, hnil]
        rfl
      have hparts : x.take (1 + width + digitRun (x.tail.drop width)) =
          [front x] ++ x.tail.take width ++
            (x.tail.drop width).take (digitRun (x.tail.drop width)) := by
        conv_lhs => rw [hcons]
        rw [Nat.add_assoc, Nat.add_comm, List.take_succ_cons, List.take_add, List.append_assoc]
        rfl
      rw [hparts]
      exact mem_one_add_iff.mpr (.inr (Language.append_mem_mul
        (Language.append_mem_mul (singleton_mem_oneOf (hall _ hletter)) hsign) hrun))
  next => exact nil_mem_one_add

/-- What is read in front of a suffix are the parts of a number. -/
theorem parts_of_startsDecimal (h : startsDecimal (front x) x.tail = true) :
    let y := x.drop (digitRun x)
    let z := y.drop (fractionWidth y)
    Parts (x.take (digitRun x)) (y.take (fractionWidth y)) (z.take (exponentWidth z)) := by
  have hzero : isDigit 0 = false := by decide
  dsimp only
  rw [take_digitRun, drop_digitRun]
  generalize hy : x.dropWhile isDigit = y
  have hw : x.takeWhile isDigit ∈ 1 + runs isDigit :=
    mem_one_add_runs_iff.mpr fun c => List.mem_takeWhile_imp
  -- without a whole part there is a fraction
  have hstart : x.takeWhile isDigit ∈ runs isDigit ∨
      (front y == byte '.') = true ∧ isDigit (front y.tail) = true := by
    cases hdigit : isDigit (front x) with
    | true => exact .inl (takeWhile_mem_runs hzero hdigit)
    | false =>
      rw [startsDecimal, hdigit, Bool.false_or, Bool.and_eq_true] at h
      have hself := (takeWhile_append_of_front (a := []) (p := isDigit) (by simp) hdigit).2
      rw [List.nil_append, hy] at hself
      rw [hself]
      exact .inr h
  have hexponent := take_exponentWidth_mem (y.drop (fractionWidth y))
  rw [fractionWidth_eq_ite] at hexponent ⊢
  split at hexponent
  next hdot =>
    obtain ⟨v, rfl⟩ : ∃ v, y = byte '.' :: v := ⟨_, Lexer.eq_cons_tail (by decide) hdot⟩
    rw [List.tail_cons] at *
    split at hexponent
    next hdigit =>
      rw [if_pos hdot, if_pos hdigit, Nat.add_comm, List.take_succ_cons, take_digitRun]
      rw [Nat.add_comm] at hexponent
      exact .fraction hw (takeWhile_mem_runs hzero hdigit) hexponent
    next hdigit =>
      have hwhole := hstart.resolve_right fun hfraction => hdigit hfraction.2
      rw [if_pos hdot, if_neg hdigit]
      split
      next hend =>
        -- no letter stands behind the dot
        have hletter : ∀ c, (!isWordByte c) = true →
            (upper c == byte 'E' || upper c == byte 'D') = false := by
          decide
        have hnone : exponentWidth v = 0 := by
          rw [exponentWidth_eq_ite, hletter _ (Bool.and_eq_true_iff.mp hend).2]
          rfl
        rw [List.drop_one, List.tail_cons, hnone]
        exact .point hwhole
      next hend =>
        rw [if_neg hend] at hexponent
        exact .whole hwhole hexponent
  next hdot =>
    have hwhole := hstart.resolve_right fun hfraction => hdot hfraction.1
    rw [if_neg hdot]
    exact .whole hwhole hexponent

/-- A decimal number is read up to its suffix. -/
theorem exists_parts_of_startsDecimal (h : startsDecimal (front x) x.tail = true) :
    ∃ w f e s, Parts w f e ∧ s ∈ endings ∧ x.take (decimal x).2 = w ++ (f ++ (e ++ s)) ∧
      (decimal x).1 = partsClass f e s := by
  have hparts := parts_of_startsDecimal h
  dsimp only at hparts
  have hfraction := Lexer.fractionWidth_le (x.drop (digitRun x))
  have hexponent :=
    Lexer.exponentWidth_le ((x.drop (digitRun x)).drop (fractionWidth (x.drop (digitRun x))))
  rw [decimal_eq_match]
  simp only [← List.drop_drop]
  generalize digitRun x = w at *
  generalize hy : x.drop w = y at *
  generalize fractionWidth y = f at *
  generalize hz : y.drop f = z at *
  generalize exponentWidth z = e at *
  -- the three widths cut the number into its parts, and what is left of it is at most a suffix
  have htake (n : Nat) :
      x.take (w + f + e + n) = x.take w ++ (y.take f ++ (z.take e ++ (z.drop e).take n)) := by
    simp only [List.take_add, ← List.drop_drop, hy, hz, List.append_assoc]
  have hplain : x.take (w + f + e) = x.take w ++ (y.take f ++ (z.take e ++ [])) := by
    rw [← Nat.add_zero (w + f + e), htake, List.take_zero]
  have hclass (s : Bytes) : partsClass (y.take f) (z.take e) s =
      (suffixed? (front s)).getD (if f + e == 0 then .integerLiteral else .singleLiteral) := by
    rw [partsClass, List.length_take_of_le hfraction, List.length_take_of_le hexponent]
  have hnone : suffixed? (front []) = none := by decide
  split
  next l hl =>
    split
    · exact ⟨_, _, _, [], hparts, nil_mem_one_add, hplain, by rw [hclass, hnone]; rfl⟩
    · have hall : ∀ c, (suffixed? c).isSome = true → c ∈ suffixes.map Prod.fst := by decide
      have hsome : (suffixed? (front (z.drop e))).isSome = true := by rw [hl]; rfl
      have hcons := eq_front_cons_tail (p := fun c => (suffixed? c).isSome) (by decide) hsome
      refine ⟨_, _, _, [front (z.drop e)], hparts,
        mem_one_add_iff.mpr (.inr (singleton_mem_oneOf (hall _ hsome))), ?_, ?_⟩
      · rw [htake, hcons]
        rfl
      · rw [hclass, front_cons, hl]
        rfl
  next => exact ⟨_, _, _, [], hparts, nil_mem_one_add, hplain, by rw [hclass, hnone]; rfl⟩

/-- A number starts with a digit, or with a dot in front of one. -/
theorem Parts.startsDecimal (h : Parts w f e) (s : Bytes) :
    startsDecimal (front (w ++ (f ++ (e ++ s)))) (w ++ (f ++ (e ++ s))).tail = true := by
  have hwhole (hw : w ∈ runs isDigit) : Number.startsDecimal (front (w ++ (f ++ (e ++ s))))
      (w ++ (f ++ (e ++ s))).tail = true := by
    rw [Number.startsDecimal, front_of_mem_runs hw, Bool.true_or]
  cases h with
  | whole hw => exact hwhole hw
  | point hw => exact hwhole hw
  | fraction hw hd =>
    rcases mem_one_add_iff.mp hw with rfl | hw
    · rw [List.nil_append, List.cons_append, front_cons, List.tail_cons, Number.startsDecimal,
        front_of_mem_runs hd, beq_self_eq_true]
      exact Bool.or_true _
    · exact hwhole hw

/-- A number without a suffix ends in a digit or in a dot. -/
theorem Parts.getLast_eq (h : Parts w f e) :
    ∀ b ∈ (w ++ (f ++ e)).getLast?, (isDigit b || b == byte '.') = true := by
  have hrun {d : Bytes} (hd : d ∈ runs isDigit) (y : Bytes) :
      ∀ b ∈ (y ++ d).getLast?, (isDigit b || b == byte '.') = true := by
    intro b hb
    rw [List.getLast?_append_of_ne_nil _ hd.1] at hb
    rw [hd.2 b (List.mem_of_getLast? hb), Bool.true_or]
  have hexponent {e : Bytes} (he : e ∈ exponents) (y : Bytes) :
      ∀ b ∈ (y ++ e).getLast?, (isDigit b || b == byte '.') = true := by
    obtain ⟨m, -, d, hd, rfl⟩ := Language.mem_mul.mp he
    rw [← List.append_assoc]
    exact hrun hd _
  cases h with
  | whole hw he =>
    rcases mem_one_add_iff.mp he with rfl | he
    · simpa using hrun hw []
    · exact hexponent he w
  | point hw =>
    rw [List.append_nil, List.getLast?_concat]
    rintro b ⟨⟩
    decide
  | fraction hw hd he =>
    rw [← List.append_assoc]
    rcases mem_one_add_iff.mp he with rfl | he
    · rw [List.append_nil, List.append_cons]
      exact hrun hd _
    · exact hexponent he _

/-- A number has a dot or the letter of an exponent just where it has a fraction or an exponent. -/
theorem Parts.any_eq (h : Parts w f e) :
    ((w ++ (f ++ e)).any fun c => c == byte '.' || upper c == byte 'E' || upper c == byte 'D') =
      !(f.length + e.length == 0) := by
  have hdigits {w : Bytes} (hw : w ∈ 1 + runs isDigit) :
      (w.any fun c => c == byte '.' || upper c == byte 'E' || upper c == byte 'D') = false := by
    have hall : ∀ c, isDigit c = true →
        (c == byte '.' || upper c == byte 'E' || upper c == byte 'D') = false := by
      decide
    exact List.any_eq_false.mpr fun c hc => by
      rw [hall c (mem_one_add_runs_iff.mp hw c hc)]
      exact Bool.false_ne_true
  have hexponent (he : e ∈ 1 + exponents) :
      (e.any fun c => c == byte '.' || upper c == byte 'E' || upper c == byte 'D') =
        !(e.length == 0) := by
    have hall : ∀ c ∈ [byte 'E', byte 'e', byte 'D', byte 'd'],
        (c == byte '.' || upper c == byte 'E' || upper c == byte 'D') = true := by
      decide
    rcases mem_one_add_iff.mp he with rfl | he
    · rfl
    · obtain ⟨m, hm, d, -, rfl⟩ := Language.mem_mul.mp he
      obtain ⟨letter, ⟨c, hc, rfl⟩, sign, -, rfl⟩ := Language.mem_mul.mp hm
      simp [hall c hc]
  rw [List.any_append, List.any_append, hdigits h.whole_mem, Bool.false_or]
  cases h with
  | whole hw he => simpa using hexponent he
  | point => decide
  | fraction => simp

/-- The class is told by the text. -/
theorem classOf_parts (h : Parts w f e) (hs : s ∈ endings) :
    classOf (w ++ (f ++ (e ++ s))) = partsClass f e s := by
  have hlookup : ∀ c, List.lookup c suffixes = suffixed? c := by decide
  have hfront : (front (w ++ (f ++ (e ++ s))) == byte '&') = false := by
    have hall : ∀ c, (isDigit c || c == byte '.') = true → (c == byte '&') = false := by decide
    have hstarts := h.startsDecimal s
    rw [startsDecimal, Bool.or_eq_true, Bool.and_eq_true] at hstarts
    exact hall _ (Bool.or_eq_true_iff.mpr (hstarts.imp_right And.left))
  rw [classOf, hfront, if_neg Bool.false_ne_true, partsClass]
  simp only [hlookup]
  rcases mem_one_add_iff.mp hs with rfl | ⟨c, hc, rfl⟩
  · have hlast : ((w ++ (f ++ e)).getLast?.bind suffixed?) = none := by
      have hnone : ∀ b, (isDigit b || b == byte '.') = true → suffixed? b = none := by decide
      exact Option.bind_eq_none_iff.mpr fun b hb => hnone b (h.getLast_eq b hb)
    have hnone : suffixed? (front []) = none := by decide
    rw [List.append_nil, hlast, hnone, h.any_eq]
    cases f.length + e.length == 0 <;> rfl
  · have hlast : (w ++ (f ++ (e ++ [c]))).getLast? = some c := by
      simp only [← List.append_assoc, List.getLast?_concat]
    have hsome : ∀ c ∈ suffixes.map Prod.fst, (suffixed? c).isSome = true := by decide
    obtain ⟨l, hl⟩ := Option.isSome_iff_exists.mp (hsome c hc)
    rw [hlast, Option.bind_some, front_cons, hl]
    rfl

/-! ## Decimal numbers -/

/-- What is read as a decimal number is one, and it has the class of its text. -/
theorem take_decimal_mem (h : startsDecimal (front x) x.tail = true) :
    x.take (decimal x).2 ∈ decimals ∧ (decimal x).1 = classOf (x.take (decimal x).2) := by
  obtain ⟨w, f, e, s, hparts, hs, htake, hclass⟩ := exists_parts_of_startsDecimal h
  rw [htake, hclass, classOf_parts hparts hs]
  exact ⟨mem_decimals_of_parts hparts hs, rfl⟩

/-- A decimal number is read as such. -/
theorem decimal_of_mem (h : x ∈ decimals) :
    startsDecimal (front x) x.tail = true ∧ decimal x = (classOf x, x.length) := by
  obtain ⟨w, f, e, s, hparts, hs, rfl⟩ := exists_parts h
  rw [decimal_of_parts hparts hs, classOf_parts hparts hs]
  exact ⟨hparts.startsDecimal s, rfl⟩

/-! ## Numbers of other bases -/

/-- The letter of a base and its digits. -/
theorem mem_literals_of_radixDigit? {letter : UInt8} {p : UInt8 → Bool}
    (h : radixDigit? letter = some p) :
    (∀ x ∈ radixes [letter] p, x ∈ literals) ∧
      p 0 = false ∧ p (byte '&') = false ∧ p (byte '%') = false := by
  have hletter {letters : List UInt8} (hmem : letter ∈ letters) :
      ∀ x ∈ radixes [letter] p, x ∈ radixes letters p := by
    intro x hx
    obtain ⟨m, hm, s, hs, rfl⟩ := Language.mem_mul.mp hx
    obtain ⟨m, hm', d, hd, rfl⟩ := Language.mem_mul.mp hm
    obtain ⟨a, ha, l, ⟨c, hc, rfl⟩, rfl⟩ := Language.mem_mul.mp hm'
    obtain rfl := List.mem_singleton.mp hc
    exact Language.append_mem_mul (Language.append_mem_mul
      (Language.append_mem_mul ha (singleton_mem_oneOf hmem)) hd) hs
  unfold radixDigit? at h
  split at h
  next hH =>
    cases h
    have hall : ∀ c, (upper c == byte 'H') = true → c ∈ [byte 'H', byte 'h'] := by decide
    exact ⟨fun x hx => .inl (.inr (hletter (hall _ hH) x hx)), by decide, by decide, by decide⟩
  next =>
    split at h
    next hO =>
      cases h
      have hall : ∀ c, (upper c == byte 'O') = true → c ∈ [byte 'O', byte 'o'] := by decide
      exact ⟨fun x hx => .inr (hletter (hall _ hO) x hx), by decide, by decide, by decide⟩
    next => cases h

section

variable {letter : UInt8} {p : UInt8 → Bool} {d : Bytes}

/-- A number of another base is long when its suffix is an ampersand. -/
theorem classOf_radix (hp : p (byte '&') = false) (hd : d ∈ runs p)
    (hs : s ∈ 1 + oneOf [byte '&', byte '%']) :
    classOf (byte '&' :: letter :: (d ++ s)) =
      if front s == byte '&' then .longLiteral else .integerLiteral := by
  have hlast : ((byte '&' :: letter :: (d ++ s)).getLast? == some (byte '&')) =
      (front s == byte '&') := by
    rcases mem_one_add_iff.mp hs with rfl | ⟨c, hc, rfl⟩
    · have hdigits : (byte '&' :: letter :: d).getLast? = d.getLast? :=
        List.getLast?_append_of_ne_nil [byte '&', letter] hd.1
      rw [List.append_nil, hdigits, List.getLast?_eq_some_getLast hd.1]
      have hmem := hd.2 _ (List.getLast_mem hd.1)
      have hne : d.getLast hd.1 ≠ byte '&' := by
        intro heq
        rw [heq, hp] at hmem
        cases hmem
      rw [Option.some_beq_some, beq_eq_false_iff_ne.mpr hne]
      rfl
    · rw [← List.cons_append, ← List.cons_append, List.getLast?_concat]
      rfl
  rw [classOf, front_cons, if_pos (beq_self_eq_true _), hlast]

/-- A number of base 16 or 8 is read up to its suffix. -/
theorem based?_append (hletter : radixDigit? letter = some p) (hd : d ∈ runs p)
    (hs : s ∈ 1 + oneOf [byte '&', byte '%']) :
    based? (byte '&' :: letter :: (d ++ s)) =
      some (classOf (byte '&' :: letter :: (d ++ s)), (byte '&' :: letter :: (d ++ s)).length) := by
  obtain ⟨-, hzero, hampersand, hpercent⟩ := mem_literals_of_radixDigit? hletter
  have hfront : p (front s) = false := by
    rcases mem_one_add_iff.mp hs with rfl | ⟨c, hc, rfl⟩
    · exact hzero
    · rcases List.mem_pair.mp hc with rfl | rfl
      · exact hampersand
      · exact hpercent
  have hrun := (takeWhile_append_of_front hd.2 hfront).1
  have hpos : (d.length == 0) = false := by simpa using hd.1
  rw [based?_eq_match, front_cons, if_pos (beq_self_eq_true _), List.tail_cons, front_cons, hletter,
    classOf_radix hampersand hd hs]
  dsimp only
  rw [List.tail_cons, hrun, List.drop_left, hpos, if_neg Bool.false_ne_true]
  rcases mem_one_add_iff.mp hs with rfl | ⟨c, hc, rfl⟩
  · rw [List.append_nil]
    rfl
  · rw [List.length_cons, List.length_cons, List.length_append, List.length_singleton]
    rcases List.mem_pair.mp hc with rfl | rfl <;> rfl

end

/-- What is read as a number of base 16 or 8: an ampersand, the letter of the base, digits and a
suffix. -/
theorem exists_of_based? {number : Lexeme × Nat} (h : based? x = some number) :
    ∃ letter p d s y, x = byte '&' :: letter :: (d ++ (s ++ y)) ∧ radixDigit? letter = some p ∧
      d ∈ runs p ∧ s ∈ 1 + oneOf [byte '&', byte '%'] ∧
        number = (if front s == byte '&' then .longLiteral else .integerLiteral,
          d.length + s.length + 2) := by
  unfold based? at h
  split at h
  next ampersand letter y =>
    obtain ⟨hampersand, hread⟩ := Option.ite_none_right_eq_some.mp h
    obtain rfl := beq_iff_eq.mp hampersand
    split at hread
    · cases hread
    next p hletter =>
      obtain ⟨hdigits, hsuffix⟩ := Option.ite_none_left_eq_some.mp hread
      have hy : y = y.takeWhile p ++ y.drop (y.takeWhile p).length := by
        rw [← Respelling.Spells.dropWhile_eq_drop, List.takeWhile_append_dropWhile]
      have hd : y.takeWhile p ∈ runs p :=
        ⟨fun hnil => hdigits (by rw [hnil]; rfl), fun c => List.mem_takeWhile_imp⟩
      generalize y.takeWhile p = d at *
      generalize y.drop d.length = z at *
      subst hy
      -- the suffix is the byte behind the digits, where it is one
      split at hsuffix
      next hlong =>
        refine ⟨letter, p, d, [byte '&'], z.tail, ?_, hletter, hd, ?_,
          (Option.some.inj hsuffix).symm⟩
        · rw [List.singleton_append, ← Lexer.eq_cons_tail (by decide) hlong]
        · exact mem_one_add_iff.mpr (.inr (singleton_mem_oneOf (by simp)))
      next =>
        split at hsuffix
        next hinteger =>
          refine ⟨letter, p, d, [byte '%'], z.tail, ?_, hletter, hd, ?_,
            (Option.some.inj hsuffix).symm⟩
          · rw [List.singleton_append, ← Lexer.eq_cons_tail (by decide) hinteger]
          · exact mem_one_add_iff.mpr (.inr (singleton_mem_oneOf (by simp)))
        next =>
          exact ⟨letter, p, d, [], z, rfl, hletter, hd, nil_mem_one_add,
            (Option.some.inj hsuffix).symm⟩
  · cases h

/-- What is read as a number of base 16 or 8 is one, and it has the class of its text. -/
theorem take_based_mem {number : Lexeme × Nat} (h : based? x = some number) :
    x.take number.2 ∈ literals ∧ number.1 = classOf (x.take number.2) := by
  obtain ⟨letter, p, d, s, y, rfl, hletter, hd, hs, rfl⟩ := exists_of_based? h
  obtain ⟨hmem, -, hp, -⟩ := mem_literals_of_radixDigit? hletter
  have htake : (byte '&' :: letter :: (d ++ (s ++ y))).take (d.length + s.length + 2) =
      byte '&' :: letter :: (d ++ s) := by
    rw [List.take_succ_cons, List.take_succ_cons, ← List.append_assoc,
      List.take_left' (List.length_append ..)]
  dsimp only
  rw [htake, classOf_radix hp hd hs]
  refine ⟨hmem _ ?_, rfl⟩
  exact Language.append_mem_mul (Language.append_mem_mul (Language.append_mem_mul
    (singleton_mem_oneOf (List.mem_singleton_self _))
    (singleton_mem_oneOf (List.mem_singleton_self _)))
      hd) hs

/-- A number of base 16 or 8 is read as such. -/
theorem based?_of_mem {letters : List UInt8} {p : UInt8 → Bool} (h : x ∈ radixes letters p)
    (hletters : ∀ c ∈ letters, radixDigit? c = some p) : based? x = some (classOf x, x.length) := by
  obtain ⟨m, hm, s, hs, rfl⟩ := Language.mem_mul.mp h
  obtain ⟨m, hm', d, hd, rfl⟩ := Language.mem_mul.mp hm
  obtain ⟨ampersand, ⟨c, hc, rfl⟩, letter, ⟨b, hb, rfl⟩, rfl⟩ := Language.mem_mul.mp hm'
  obtain rfl := List.mem_singleton.mp hc
  have hread := based?_append (hletters b hb) hd hs
  simpa using hread

theorem radixDigit?_letters : (∀ c ∈ [byte 'H', byte 'h'], radixDigit? c = some isHexDigit) ∧
    ∀ c ∈ [byte 'O', byte 'o'], radixDigit? c = some isOctalDigit := by
  constructor <;> (intro c hc; rcases List.mem_pair.mp hc with rfl | rfl <;> rfl)

/-- A numeric literal is read as a decimal number or as one of base 16 or 8. -/
theorem read_of_mem_literals (h : x ∈ literals) :
    (startsDecimal (front x) x.tail = true ∧ decimal x = (classOf x, x.length)) ∨
      based? x = some (classOf x, x.length) := by
  rcases h with (h | h) | h
  · exact .inl (decimal_of_mem h)
  · exact .inr (based?_of_mem h radixDigit?_letters.1)
  · exact .inr (based?_of_mem h radixDigit?_letters.2)

end Number

/-! ## Tokens -/

namespace Lexer

variable {c : UInt8} {rest x : Bytes}

/-- Punctuation is no number. -/
theorem isNumber_punctuation (c : UInt8) (rest : Bytes) :
    (punctuation c rest).1.isNumber = false := by
  have hmem {text : Bytes} {l : Lexeme} (hl : Lexeme.ofText? text = some l) :
      l.isNumber = false := by
    have hall : ∀ l ∈ Lexeme.punctuation, l.isNumber = false := by decide
    exact hall l (List.mem_of_find?_eq_some hl)
  unfold punctuation
  split
  next hl => exact hmem hl
  next =>
    split
    next hl => exact hmem hl
    next => rfl

/-- Only the readers of numbers find one. -/
theorem scan_of_isNumericLiteral (h : (scan c rest).1.isNumericLiteral = true) :
    (Number.startsDecimal c rest = true ∧ scan c rest =
      (Number.decimal (c :: rest)).map .lexeme id) ∨
      ∃ number, Number.based? (c :: rest) = some number ∧ scan c rest = number.map .lexeme id := by
  obtain ⟨r, hr, hfound⟩ := exists_reader c rest
  generalize scan c rest = found at *
  -- of readers that find another kind nothing is to be shown
  have hother {test : Bytes → Bool} {find : Bytes → Kind × Nat} (hr : r = Reader.of test find)
      (hkind : (find (c :: rest)).1.isNumericLiteral = false) : False := by
    subst hr
    rw [← (Reader.of_eq_some_iff.mp hfound).2, hkind] at h
    cases h
  simp only [Reader.all, List.mem_cons, List.not_mem_nil, or_false] at hr
  rcases hr with hr | hr | hr | hr | hr | hr | hr | hr | hr | hr | hr
  · exact (hother hr rfl).elim
  · exact (hother hr rfl).elim
  · exact (hother hr rfl).elim
  · refine (hother hr ?_).elim
    unfold stringLiteral
    split <;> rfl
  · refine (hother hr ?_).elim
    rw [dateLiteral_eq_ite]
    split <;> rfl
  · subst hr
    obtain ⟨width, -, rfl⟩ := Option.map_eq_some_iff.mp hfound
    cases h
  · subst hr
    obtain ⟨hstarts, rfl⟩ := Reader.of_eq_some_iff.mp hfound
    exact .inl ⟨hstarts, rfl⟩
  · subst hr
    obtain ⟨number, hnumber, rfl⟩ := Option.map_eq_some_iff.mp hfound
    exact .inr ⟨number, hnumber, rfl⟩
  · refine (hother hr ?_).elim
    unfold word
    dsimp only
    split
    · rfl
    · split
      · rfl
      · split <;> rfl
  · exact (hother hr rfl).elim
  · subst hr
    obtain rfl := Option.some.inj hfound
    exact absurd (isNumber_punctuation c rest) (by rw [Bool.not_eq_false]; exact h)

/-- A digit, a dot and an ampersand open no token that is looked for before numbers. -/
theorem scan_eq_number (hc : (isDigit c || c == byte '.' || c == byte '&') = true) (rest : Bytes) :
    scan c rest =
      if Number.startsDecimal c rest then (Number.decimal (c :: rest)).map .lexeme id
      else
        match Number.based? (c :: rest) with
        | some number => number.map .lexeme id
        | none => (punctuation c rest).map .lexeme id := by
  have hall : ∀ c, (isDigit c || c == byte '.' || c == byte '&') = true →
      isLineBreak c = false ∧ (c == apostrophe) = false ∧ upper c ≠ byte 'R' ∧
        (c == doubleQuote) = false ∧ (c == byte '#') = false ∧ (c == byte '_') = false ∧
          isLetter c = false ∧ isBlank c = false := by
    decide
  obtain ⟨hbreak, hcomment, hrem, hquote, hsign, hunderscore, hletter, hblank⟩ := hall c hc
  unfold scan
  dsimp only
  rw [hbreak, hcomment, startsRemComment_eq_false hrem, hquote, hsign,
    continuationWidth?_eq_none (beq_eq_false_iff_ne.mp hunderscore), hletter, hunderscore, hblank]
  rfl

/-- What is read as a number is a numeric literal, and it has the class of its text. -/
theorem literal_of_scan (h : (scan c rest).1.isNumericLiteral = true) :
    (c :: rest).take (scan c rest).2 ∈ Number.literals ∧
      (scan c rest).1 = .lexeme (Number.classOf ((c :: rest).take (scan c rest).2)) := by
  rcases scan_of_isNumericLiteral h with ⟨hstarts, hscan⟩ | ⟨number, hbased, hscan⟩
  · obtain ⟨hmem, hclass⟩ := Number.take_decimal_mem (x := c :: rest) hstarts
    rw [hscan]
    exact ⟨.inl (.inl hmem), congrArg Kind.lexeme hclass⟩
  · obtain ⟨hmem, hclass⟩ := Number.take_based_mem hbased
    rw [hscan]
    exact ⟨hmem, congrArg Kind.lexeme hclass⟩

/-- A numeric literal is one token, of the class of its text. -/
theorem isToken_of_mem_literals (h : x ∈ Number.literals) :
    IsToken (.lexeme (Number.classOf x)) x := by
  have hempty : ¬ Number.startsDecimal (front []) ([] : Bytes).tail = true := by decide
  rcases Number.read_of_mem_literals h with ⟨hstarts, hread⟩ | hread
  · cases x with
    | nil => exact absurd hstarts hempty
    | cons c rest =>
      rw [front_cons, List.tail_cons] at hstarts
      have hc : (isDigit c || c == byte '.' || c == byte '&') = true := by
        rw [Number.startsDecimal, Bool.or_eq_true, Bool.and_eq_true] at hstarts
        exact Bool.or_eq_true_iff.mpr (.inl (Bool.or_eq_true_iff.mpr (hstarts.imp_right And.left)))
      rw [isToken_iff, scan_eq_number hc, if_pos hstarts, hread]
      rfl
  · cases x with
    | nil => cases hread
    | cons c rest =>
      have hc : c = byte '&' := by
        rw [Number.based?_eq_match] at hread
        exact beq_iff_eq.mp (Option.ite_none_right_eq_some.mp hread).1
      subst hc
      have hstarts : ¬ Number.startsDecimal (byte '&') rest = true := by
        rw [Number.startsDecimal]
        exact Bool.false_ne_true
      rw [isToken_iff, scan_eq_number (by decide), if_neg hstarts, hread]
      rfl

/-- The numbers among the tokens of a source are numeric literals, of the classes of their texts;
and every numeric literal by itself is one token, of the class of its text. -/
theorem numbers_exact (source : Bytes) (file : UInt32) :
    (∀ t ∈ tokens source file, t.kind.isNumericLiteral = true →
        t.text ∈ Number.literals ∧ t.kind = .lexeme (Number.classOf t.text)) ∧
      ∀ x ∈ Number.literals, IsToken (.lexeme (Number.classOf x)) x := by
  refine ⟨fun t ht hkind => ?_, fun x => isToken_of_mem_literals⟩
  obtain ⟨ts, htokens, hts⟩ := (divided_tokens source file).exists_marker
  rw [htokens, List.mem_append, List.mem_singleton] at ht
  rcases ht with ht | rfl
  · obtain ⟨m, c, rest, rfl, -, -⟩ := hts t ht
    rw [(text_tokenAt file _ c rest).1]
    exact literal_of_scan hkind
  · cases hkind

/-- `1..2E+#x`: the second dot belongs to the number behind it, and neither the letter nor the
number sign does. -/
theorem numbers_exact_dots :
    ∃ t ∈ tokens (ofString "1..2E+#x") 1, t.kind.isNumericLiteral = true ∧ t.text = ofString ".2" ∧
      t.text ∈ Number.literals ∧ t.kind = .lexeme .singleLiteral ∧
      IsToken (.lexeme (Number.classOf t.text)) t.text := by
  let t : Token :=
    { kind := .lexeme .singleLiteral, text := ofString ".2", offset := 2,
      loc := { file := 1, line := 1, column := 3 } }
  have ht : t ∈ tokens (ofString "1..2E+#x") 1 := by decide +kernel
  have hexact := numbers_exact (ofString "1..2E+#x") 1
  obtain ⟨hmem, -⟩ := hexact.1 t ht rfl
  exact ⟨t, ht, rfl, rfl, hmem, rfl, hexact.2 t.text hmem⟩

end Lexer

end LosslessBasic
