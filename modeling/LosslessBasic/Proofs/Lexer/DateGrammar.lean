import LosslessBasic.Proofs.Lexer.Division
import LosslessBasic.Proofs.Text.Languages

/-!
# The grammar of dates

`DateText.bodies` is the language of the texts that make a date literal between two number signs.
Each reader of `DateText` is told by what it takes from the front of a text
(`DateText.exists_of_date?`) and by what it takes where there is something to take
(`DateText.date?_append`).

## Main results

* `Lexer.dates_exact`: the texts between number signs that make a date literal are those of the
  grammar.
-/

namespace LosslessBasic

set_option maxRecDepth 2000

open Bytes Ascii

namespace DateText

/-! ## The language -/

/-- Any number of spaces and tabs. -/
def spaces : Language UInt8 := 1 + runs isSpace

/-- The halves of the day, in any case. -/
def meridiems : Language UInt8 :=
  oneOf [byte 'A', byte 'a', byte 'P', byte 'p'] * oneOf [byte 'M', byte 'm']

/-- A colon and a number. -/
def clockParts : Language UInt8 := oneOf [byte ':'] * runs isDigit

/-- Times: an hour with minutes, which may have seconds and a half of the day, or an hour with a
half of the day. -/
def times : Language UInt8 :=
  runs isDigit * clockParts * (1 + clockParts) * (1 + spaces * meridiems) +
    runs isDigit * (spaces * meridiems)

/-- Three numbers with the same sign between them. -/
def datesBy (sign : UInt8) : Language UInt8 :=
  runs isDigit * oneOf [sign] * runs isDigit * oneOf [sign] * runs isDigit

/-- Dates. -/
def dates : Language UInt8 := datesBy (byte '/') + datesBy (byte '-')

/-- A date, a date and a time with blanks between them, or a time. -/
def bodies : Language UInt8 := spaces * (dates * (1 + runs isSpace * times) + times) * spaces

variable {a d m t x y : Bytes}

/-! ## Blanks and numbers -/

theorem mem_spaces_iff : x ∈ spaces ↔ ∀ c ∈ x, isSpace c = true := mem_one_add_runs_iff

theorem isSpace_of_isDigit : ∀ c, isDigit c = true → isSpace c = false := by decide

/-- A blank is no digit. -/
theorem isDigit_of_isSpace : ∀ c, isSpace c = true → isDigit c = false := by decide

/-- Blanks in front of what is none are left out. -/
theorem blanks_append (ha : a ∈ spaces) (hy : isSpace (front y) = false) : blanks (a ++ y) = y :=
  (takeWhile_append_of_front (mem_spaces_iff.mp ha) hy).2

/-- Blanks start with no byte of a class without blanks, and neither does the end of a text. -/
theorem front_of_mem_spaces {p : UInt8 → Bool} (hzero : p 0 = false)
    (hspace : ∀ c, isSpace c = true → p c = false) (ha : a ∈ spaces) : p (front a) = false := by
  cases a with
  | nil => exact hzero
  | cons c a => exact hspace c (mem_spaces_iff.mp ha c List.mem_cons_self)

/-- A text is what is left of it with blanks in front. -/
theorem exists_append_blanks (x : Bytes) : ∃ a ∈ spaces, x = a ++ blanks x :=
  ⟨x.takeWhile isSpace, mem_spaces_iff.mpr fun _ => List.mem_takeWhile_imp,
    (List.takeWhile_append_dropWhile).symm⟩

/-- What is all blanks has nothing left behind them. -/
theorem blanks_eq_nil_iff : blanks x = [] ↔ x ∈ spaces := by
  rw [mem_spaces_iff]
  exact List.dropWhile_eq_nil_iff

/-- Digits in front of what is none are read. -/
theorem digits?_append (hd : d ∈ runs isDigit) (hy : isDigit (front y) = false) :
    digits? (d ++ y) = some y := by
  have hfront := front_of_mem_runs hd y
  have hdrop := (takeWhile_append_of_front hd.2 hy).2
  rw [eq_front_cons_tail (by decide) hfront, List.dropWhile_cons_of_pos hfront] at hdrop
  rw [digits?_eq, if_pos hfront, hdrop]

/-- What has been read as digits are digits, and none follows them. -/
theorem exists_of_digits? (h : digits? x = some y) :
    isDigit (front y) = false ∧ ∃ d ∈ runs isDigit, x = d ++ y := by
  rw [digits?_eq] at h
  obtain ⟨hfront, h⟩ := Option.ite_none_right_eq_some.mp h
  have hdrop : x.dropWhile isDigit = y := by
    rw [eq_front_cons_tail (by decide) hfront, List.dropWhile_cons_of_pos hfront]
    exact Option.some.inj h
  rw [← hdrop]
  exact ⟨front_dropWhile (by decide) x, x.takeWhile isDigit, takeWhile_mem_runs (by decide) hfront,
    (List.takeWhile_append_dropWhile).symm⟩

/-! ## Dates -/

/-- What is accepted stands in front. -/
theorem exists_of_accept? {c : UInt8} (h : accept? c x = some y) : x = [c] ++ y := by
  cases x with
  | nil => cases h
  | cons b x =>
    rw [accept?] at h
    obtain ⟨hb, h⟩ := Option.ite_none_right_eq_some.mp h
    rw [beq_iff_eq.mp hb, Option.some.inj h]
    rfl

/-- A separator of a date is a slash or a minus sign, and stands in front. -/
theorem exists_of_separator? {sign : UInt8} (h : separator? x = some (sign, y)) :
    (sign = byte '/' ∨ sign = byte '-') ∧ x = [sign] ++ y := by
  cases x with
  | nil => cases h
  | cons b x =>
    rw [separator?] at h
    obtain ⟨hb, h⟩ := Option.ite_none_right_eq_some.mp h
    cases h
    exact ⟨by simpa using hb, rfl⟩

/-- What is read as a date is one, and all its digits are read. -/
theorem exists_of_date? (h : date? x = some y) :
    isDigit (front y) = false ∧ ∃ d ∈ dates, x = d ++ y := by
  simp only [date?, Option.bind_eq_bind, Option.bind_eq_some_iff] at h
  obtain ⟨r₁, h₁, ⟨sign, r₂⟩, h₂, r₃, h₃, r₄, h₄, h₅⟩ := h
  obtain ⟨-, d₁, hd₁, rfl⟩ := exists_of_digits? h₁
  obtain ⟨hsign, rfl⟩ := exists_of_separator? h₂
  dsimp only at h₃ h₄
  obtain ⟨-, d₂, hd₂, rfl⟩ := exists_of_digits? h₃
  obtain rfl := exists_of_accept? h₄
  obtain ⟨hy, d₃, hd₃, rfl⟩ := exists_of_digits? h₅
  have hone : [sign] ∈ oneOf [sign] := singleton_mem_oneOf (List.mem_singleton_self _)
  have hmem : d₁ ++ [sign] ++ d₂ ++ [sign] ++ d₃ ∈ datesBy sign :=
    Language.append_mem_mul (Language.append_mem_mul (Language.append_mem_mul
      (Language.append_mem_mul hd₁ hone) hd₂) hone) hd₃
  refine ⟨hy, d₁ ++ [sign] ++ d₂ ++ [sign] ++ d₃, ?_, by simp only [List.append_assoc]⟩
  rcases hsign with rfl | rfl
  · exact .inl hmem
  · exact .inr hmem

/-- A byte that stands in front is accepted. -/
theorem accept?_append (c : UInt8) (y : Bytes) : accept? c ([c] ++ y) = some y := by
  rw [List.singleton_append, accept?, if_pos (beq_self_eq_true c)]

/-- A date is read as such. -/
theorem date?_append (hd : d ∈ dates) (hy : isDigit (front y) = false) :
    date? (d ++ y) = some y := by
  have hsigns : ∀ sign ∈ [byte '/', byte '-'], isDigit sign = false ∧
      (sign == byte '/' || sign == byte '-') = true := by
    decide
  have hby {sign : UInt8} (hsign : sign ∈ [byte '/', byte '-']) (hd : d ∈ datesBy sign) :
      date? (d ++ y) = some y := by
    obtain ⟨hdigit, htest⟩ := hsigns sign hsign
    obtain ⟨e, he, d₃, hd₃, rfl⟩ := Language.mem_mul.mp hd
    obtain ⟨f, hf, s₂, ⟨c₂, hc₂, rfl⟩, rfl⟩ := Language.mem_mul.mp he
    obtain ⟨g, hg, d₂, hd₂, rfl⟩ := Language.mem_mul.mp hf
    obtain ⟨d₁, hd₁, s₁, ⟨c₁, hc₁, rfl⟩, rfl⟩ := Language.mem_mul.mp hg
    rw [List.mem_singleton.mp hc₁, List.mem_singleton.mp hc₂]
    have hsep (z : Bytes) : separator? ([sign] ++ z) = some (sign, z) := by
      rw [List.singleton_append, separator?, if_pos htest]
    simp only [List.append_assoc, date?, Option.bind_eq_bind, Option.bind_some, hsep,
      accept?_append, digits?_append hd₁ (y := [sign] ++ _) hdigit,
      digits?_append hd₂ (y := [sign] ++ _) hdigit,
      digits?_append hd₃ hy]
  rcases hd with hd | hd
  · exact hby (by simp) hd
  · exact hby (by simp) hd

/-! ## Times -/

/-- A part of a clock is read where no digit follows it. -/
theorem clockPart?_append (ht : t ∈ clockParts) (hy : isDigit (front y) = false) :
    clockPart? (t ++ y) = some (true, y) := by
  obtain ⟨colon, ⟨c, hc, rfl⟩, d, hd, rfl⟩ := Language.mem_mul.mp ht
  obtain rfl := List.mem_singleton.mp hc
  rw [List.append_assoc, clockPart?, accept?_append]
  dsimp only
  rw [digits?_append hd hy]
  rfl

/-- Without a colon in front there is no part of a clock. -/
theorem clockPart?_of_front (hy : (front y == byte ':') = false) :
    clockPart? y = some (false, y) := by
  rw [clockPart?, accept?_eq (by decide), hy]
  rfl

/-- A part of a clock that has been read stands in front, and no digit follows it. -/
theorem exists_of_clockPart? {hasPart : Bool} (h : clockPart? x = some (hasPart, y)) :
    if hasPart then isDigit (front y) = false ∧ ∃ t ∈ clockParts, x = t ++ y else x = y := by
  rw [clockPart?] at h
  split at h
  · cases h
    rfl
  next z hz =>
    obtain ⟨r, hr, h⟩ := Option.map_eq_some_iff.mp h
    cases h
    obtain rfl := exists_of_accept? hz
    obtain ⟨hy, d, hd, rfl⟩ := exists_of_digits? hr
    refine ⟨hy, [byte ':'] ++ d, ?_, (List.append_assoc ..).symm⟩
    exact Language.append_mem_mul (singleton_mem_oneOf (List.mem_singleton_self _)) hd

/-- What stands between the clock and the end of a time starts with no byte of a class without
blanks and letters. -/
theorem front_half_append {p : UInt8 → Bool} (hspace : ∀ c, isSpace c = true → p c = false)
    (hletter : ∀ c ∈ [byte 'A', byte 'a', byte 'P', byte 'p'], p c = false)
    (ht : t ∈ spaces * meridiems)
    (y : Bytes) : p (front (t ++ y)) = false := by
  obtain ⟨a, ha, m, hm, rfl⟩ := Language.mem_mul.mp ht
  obtain ⟨first, ⟨c, hc, rfl⟩, second, -, rfl⟩ := Language.mem_mul.mp hm
  rw [List.append_assoc]
  refine front_append_eq_false (fun b hb => hspace b ?_) (hletter c hc)
  exact mem_spaces_iff.mp ha b (List.mem_of_head? hb)

/-- Whether a half of the day is next. -/
theorem startsWithMeridiem_iff :
    (startsWithIgnoringCase x (ofString "AM") || startsWithIgnoringCase x (ofString "PM")) = true ↔
      ∃ m ∈ meridiems, x = m ++ x.drop 2 := by
  have hA : ofString "AM" = [byte 'A', byte 'M'] := by decide
  have hP : ofString "PM" = [byte 'P', byte 'M'] := by decide
  have hfirst : ∀ c, (upper c == upper (byte 'A') || upper c == upper (byte 'P')) = true ↔
      c ∈ [byte 'A', byte 'a', byte 'P', byte 'p'] := by
    decide
  have hsecond : ∀ c, (upper c == upper (byte 'M')) = true ↔ c ∈ [byte 'M', byte 'm'] := by decide
  have hnil (z : Bytes) : startsWithIgnoringCase z [] = true := rfl
  rw [hA, hP]
  simp only [startsWithIgnoringCase_cons, hnil, Bool.and_true]
  constructor
  · intro h
    match x with
    | [] => simp at h
    | [c] => simp at h
    | c₁ :: c₂ :: z =>
      have h₁ : (upper c₁ == upper (byte 'A') || upper c₁ == upper (byte 'P')) = true ∧
          (upper c₂ == upper (byte 'M')) = true := by
        simpa only [front_cons, List.tail_cons, List.isEmpty_cons, Bool.not_false, Bool.true_and,
          ← Bool.and_or_distrib_right, Bool.and_eq_true] using h
      exact ⟨[c₁] ++ [c₂], Language.append_mem_mul ⟨c₁, (hfirst c₁).mp h₁.1, rfl⟩
        ⟨c₂, (hsecond c₂).mp h₁.2, rfl⟩, rfl⟩
  · rintro ⟨m, hm, h⟩
    obtain ⟨first, ⟨c₁, hc₁, rfl⟩, second, ⟨c₂, hc₂, rfl⟩, rfl⟩ := Language.mem_mul.mp hm
    rw [h, List.append_assoc, List.singleton_append, List.singleton_append]
    simp only [front_cons, List.tail_cons, List.isEmpty_cons, Bool.not_false, Bool.true_and,
      ← Bool.and_or_distrib_right, (hfirst c₁).mpr hc₁, (hsecond c₂).mpr hc₂]

/-- A half of the day is read behind blanks. -/
theorem meridiem?_append (ht : t ∈ spaces * meridiems) (y : Bytes) :
    meridiem? (t ++ y) = some y := by
  obtain ⟨a, ha, m, hm, rfl⟩ := Language.mem_mul.mp ht
  have hfront : isSpace (front (m ++ y)) = false := by
    obtain ⟨first, ⟨c, hc, rfl⟩, second, -, rfl⟩ := Language.mem_mul.mp hm
    exact (by decide : ∀ c ∈ [byte 'A', byte 'a', byte 'P', byte 'p'], isSpace c = false) c hc
  have hlength : m.length = 2 := by
    obtain ⟨first, ⟨c₁, -, rfl⟩, second, ⟨c₂, -, rfl⟩, rfl⟩ := Language.mem_mul.mp hm
    rfl
  have hdrop : (m ++ y).drop 2 = y := by rw [← hlength, List.drop_left]
  have hstarts := startsWithMeridiem_iff.mpr ⟨m, hm, by rw [hdrop]⟩
  rw [meridiem?, List.append_assoc, blanks_append ha hfront, if_pos hstarts, hdrop]

/-- A half of the day that has been read stands in front behind blanks. -/
theorem exists_of_meridiem? (h : meridiem? x = some y) : ∃ t ∈ spaces * meridiems, x = t ++ y := by
  obtain ⟨hstarts, h⟩ := Option.ite_none_right_eq_some.mp h
  obtain ⟨m, hm, hx⟩ := startsWithMeridiem_iff.mp hstarts
  obtain ⟨a, ha, hax⟩ := exists_append_blanks x
  refine ⟨a ++ m, Language.append_mem_mul ha hm, ?_⟩
  rw [List.append_assoc, ← Option.some.inj h, ← hx, ← hax]

/-- Blanks alone name no half of the day. -/
theorem meridiem?_of_mem_spaces (hx : x ∈ spaces) : meridiem? x = none := by
  rw [meridiem?, blanks_eq_nil_iff.mpr hx]
  decide

/-- A time is an hour with a half of the day, or with minutes, and then perhaps with seconds and a
half of the day. -/
theorem time?_eq (x : Bytes) :
    time? x = (digits? x).bind fun hour => (clockPart? hour).bind fun minutes =>
    if minutes.1 then (clockPart? minutes.2).bind fun seconds =>
      (meridiem? seconds.2).or (some seconds.2)
    else meridiem? minutes.2 := by
  refine congrArg _ (funext fun hour => congrArg _ (funext fun minutes => ?_))
  obtain ⟨_ | _, y⟩ := minutes
  · simp only [Bool.false_eq_true, if_false, Option.bind_eq_bind, Option.bind_some]
    cases meridiem? y <;> rfl
  · refine congrArg (Option.bind _) (funext fun seconds => ?_)
    dsimp only
    cases meridiem? seconds.2 <;> rfl

/-- What is read as a time is one. -/
theorem exists_of_time? (h : time? x = some y) : ∃ t ∈ times, x = t ++ y := by
  simp only [time?_eq, Option.bind_eq_some_iff] at h
  obtain ⟨r₁, h₁, ⟨hasMinutes, r₂⟩, h₂, h⟩ := h
  obtain ⟨-, d, hd, rfl⟩ := exists_of_digits? h₁
  have hminutes := exists_of_clockPart? h₂
  cases hasMinutes with
  | true =>
    -- with minutes read, seconds and the half of the day may be missing
    obtain ⟨-, p, hp, rfl⟩ := hminutes
    obtain ⟨⟨hasSeconds, r₃⟩, h₃, h₄⟩ := Option.bind_eq_some_iff.mp h
    obtain ⟨s, hs, rfl⟩ : ∃ s ∈ 1 + clockParts, r₂ = s ++ r₃ := by
      have hseconds := exists_of_clockPart? h₃
      cases hasSeconds with
      | true =>
        obtain ⟨-, s, hs, rfl⟩ := hseconds
        exact ⟨s, mem_one_add_iff.mpr (.inr hs), rfl⟩
      | false => exact ⟨[], nil_mem_one_add, hseconds⟩
    obtain ⟨m, hm, rfl⟩ : ∃ m ∈ 1 + spaces * meridiems, r₃ = m ++ y := by
      rcases Option.or_eq_some_iff.mp h₄ with hhalf | ⟨-, hend⟩
      · obtain ⟨m, hm, rfl⟩ := exists_of_meridiem? hhalf
        exact ⟨m, mem_one_add_iff.mpr (.inr hm), rfl⟩
      · exact ⟨[], nil_mem_one_add, Option.some.inj hend⟩
    refine ⟨d ++ p ++ s ++ m, .inl ?_, by simp only [List.append_assoc]⟩
    exact Language.append_mem_mul (Language.append_mem_mul (Language.append_mem_mul hd hp) hs) hm
  | false =>
    -- without minutes only the half of the day makes a time of a number
    obtain rfl : r₁ = r₂ := hminutes
    obtain ⟨m, hm, rfl⟩ := exists_of_meridiem? h
    exact ⟨d ++ m, .inr (Language.append_mem_mul hd hm), (List.append_assoc ..).symm⟩

/-- The bytes of a clock. -/
def isClock (c : UInt8) : Bool := isDigit c || c == byte ':'

/-- What stands between the numbers of a time and its end starts with no byte of a clock. -/
theorem isClock_front_append (hm : m ∈ 1 + spaces * meridiems) (hy : isClock (front y) = false) :
    isClock (front (m ++ y)) = false := by
  rcases mem_one_add_iff.mp hm with rfl | hm
  · exact hy
  · exact front_half_append (by decide) (by decide) hm y

/-- A part of a clock starts with no digit, but with its colon. -/
theorem isDigit_front_clockPart (ht : t ∈ clockParts) (y : Bytes) :
    isDigit (front (t ++ y)) = false := by
  obtain ⟨colon, ⟨c, hc, rfl⟩, d, -, rfl⟩ := Language.mem_mul.mp ht
  rw [List.append_assoc, List.singleton_append, front_cons, List.mem_singleton.mp hc]
  decide

/-- A time with blanks behind it is read as such. -/
theorem time?_append {b : Bytes} (ht : t ∈ times) (hb : b ∈ spaces) : time? (t ++ b) = some b := by
  have hblank : isClock (front b) = false := front_of_mem_spaces (by decide) (by decide) hb
  rcases ht with ht | ht
  · obtain ⟨dps, hdps, m, hm, rfl⟩ := Language.mem_mul.mp ht
    obtain ⟨dp, hdp, s, hs, rfl⟩ := Language.mem_mul.mp hdps
    obtain ⟨d, hd, p, hp, rfl⟩ := Language.mem_mul.mp hdp
    -- no part of the clock goes on behind the numbers, whether seconds and a half of the day are
    -- there or not
    obtain ⟨hdigit, hcolon⟩ := Bool.or_eq_false_iff.mp (isClock_front_append hm hblank)
    have hseconds : ∃ hasSeconds, clockPart? (s ++ (m ++ b)) = some (hasSeconds, m ++ b) := by
      rcases mem_one_add_iff.mp hs with rfl | hs
      · exact ⟨false, clockPart?_of_front hcolon⟩
      · exact ⟨true, clockPart?_append hs hdigit⟩
    have hminutes : isDigit (front (s ++ (m ++ b))) = false := by
      rcases mem_one_add_iff.mp hs with rfl | hs
      · exact hdigit
      · exact isDigit_front_clockPart hs _
    have hend : (meridiem? (m ++ b)).or (some (m ++ b)) = some b := by
      rcases mem_one_add_iff.mp hm with rfl | hm
      · rw [List.nil_append, meridiem?_of_mem_spaces hb, Option.none_or]
      · rw [meridiem?_append hm, Option.some_or]
    obtain ⟨hasSeconds, hseconds⟩ := hseconds
    rw [time?_eq, List.append_assoc, List.append_assoc, List.append_assoc,
      digits?_append hd (isDigit_front_clockPart hp _), Option.bind_some,
      clockPart?_append hp hminutes,
      Option.bind_some, if_pos rfl, hseconds, Option.bind_some, hend]
  · obtain ⟨d, hd, m, hm, rfl⟩ := Language.mem_mul.mp ht
    obtain ⟨hdigit, hcolon⟩ :=
      Bool.or_eq_false_iff.mp (isClock_front_append (mem_one_add_iff.mpr (.inr hm)) hblank)
    rw [time?_eq, List.append_assoc, digits?_append hd hdigit, Option.bind_some,
      clockPart?_of_front hcolon, Option.bind_some, if_neg Bool.false_ne_true, meridiem?_append hm]

/-! ## Dates and times -/

/-- Times start with a number, which is not the first one of a date. -/
theorem exists_of_mem_times (ht : t ∈ times) : ∃ d ∈ runs isDigit, ∃ q, t = d ++ q ∧
    ∀ y, isDigit (front (q ++ y)) = false ∧ separator? (q ++ y) = none := by
  have hnone {q : Bytes} {c : UInt8} (hc : isDigit c = false ∧
    (c == byte '/' || c == byte '-') = false) :
      isDigit (front (c :: q)) = false ∧ separator? (c :: q) = none :=
    ⟨hc.1, if_neg (Bool.eq_false_iff.mp hc.2)⟩
  rcases ht with ht | ht
  · obtain ⟨dps, hdps, m, hm, rfl⟩ := Language.mem_mul.mp ht
    obtain ⟨dp, hdp, s, hs, rfl⟩ := Language.mem_mul.mp hdps
    obtain ⟨d, hd, p, hp, rfl⟩ := Language.mem_mul.mp hdp
    refine ⟨d, hd, p ++ s ++ m, by simp only [List.append_assoc], fun y => ?_⟩
    obtain ⟨colon, ⟨c, hc, rfl⟩, d', -, rfl⟩ := Language.mem_mul.mp hp
    rw [List.mem_singleton.mp hc]
    exact hnone (by decide)
  · obtain ⟨d, hd, m, hm, rfl⟩ := Language.mem_mul.mp ht
    refine ⟨d, hd, m, rfl, fun y => ?_⟩
    obtain ⟨a, ha, n, hn, rfl⟩ := Language.mem_mul.mp hm
    cases a with
    | nil =>
      obtain ⟨first, ⟨c, hc, rfl⟩, second, -, rfl⟩ := Language.mem_mul.mp hn
      exact hnone ((by decide : ∀ c ∈ [byte 'A', byte 'a', byte 'P', byte 'p'],
        isDigit c = false ∧ (c == byte '/' || c == byte '-') = false) c hc)
    | cons c a =>
      exact hnone ((by decide : ∀ c, isSpace c = true →
        isDigit c = false ∧ (c == byte '/' || c == byte '-') = false) c
          (mem_spaces_iff.mp ha c List.mem_cons_self))

/-- A time is not read as a date. -/
theorem date?_of_mem_times (ht : t ∈ times) (y : Bytes) : date? (t ++ y) = none := by
  obtain ⟨d, hd, q, rfl, hq⟩ := exists_of_mem_times ht
  obtain ⟨hdigit, hsign⟩ := hq y
  rw [date?, List.append_assoc, digits?_append hd hdigit, Option.bind_eq_bind,
    Option.bind_some, hsign]
  rfl

theorem isDigit_front_of_mem_times (ht : t ∈ times) (y : Bytes) :
    isDigit (front (t ++ y)) = true := by
  obtain ⟨d, hd, q, rfl, -⟩ := exists_of_mem_times ht
  rw [List.append_assoc]
  exact front_of_mem_runs hd _

theorem isDigit_front_of_mem_dates (hd : d ∈ dates) (y : Bytes) :
    isDigit (front (d ++ y)) = true := by
  have hby {sign : UInt8} (hd : d ∈ datesBy sign) : isDigit (front (d ++ y)) = true := by
    obtain ⟨e, he, d₃, -, rfl⟩ := Language.mem_mul.mp hd
    obtain ⟨f, hf, s₂, -, rfl⟩ := Language.mem_mul.mp he
    obtain ⟨g, hg, d₂, -, rfl⟩ := Language.mem_mul.mp hf
    obtain ⟨d₁, hd₁, s₁, -, rfl⟩ := Language.mem_mul.mp hg
    simp only [List.append_assoc]
    exact front_of_mem_runs hd₁ _
  exact hd.elim hby hby

/-- A digit is no blank. -/
theorem isSpace_front_of_isDigit (h : isDigit (front x) = true) : isSpace (front x) = false :=
  isSpace_of_isDigit _ h

/-- A text that is read up to blanks is in the language but for the blanks in front. -/
theorem exists_of_dateOrTime? (h : dateOrTime? x = some y) (hy : y ∈ spaces) :
    ∃ t ∈ dates * (1 + runs isSpace * times) + times, ∃ b ∈ spaces, x = t ++ b := by
  rw [dateOrTime?] at h
  split at h
  next r hdate =>
    obtain ⟨hr, d, hd, rfl⟩ := exists_of_date? hdate
    obtain ⟨a, ha, har⟩ := exists_append_blanks r
    cases htime : time? (blanks r) with
    | none =>
      -- there are blanks alone behind the date
      rw [htime, Option.getD_none, Option.some.injEq] at h
      have hspaces : r ∈ spaces := by
        rw [har, h, mem_spaces_iff]
        intro c hc
        exact (List.mem_append.mp hc).elim (mem_spaces_iff.mp ha c) (mem_spaces_iff.mp hy c)
      exact ⟨d, .inl ⟨d, hd, [], nil_mem_one_add, List.append_nil d⟩, r, hspaces, rfl⟩
    | some z =>
      rw [htime, Option.getD_some, Option.some.injEq] at h
      obtain ⟨t, ht, hblanks⟩ := exists_of_time? htime
      -- a time right behind the date would go on with its last number
      have ha' : a ∈ runs isSpace := by
        refine (mem_one_add_iff.mp ha).resolve_left fun hnil => ?_
        rw [har, hnil, List.nil_append, hblanks, isDigit_front_of_mem_times ht] at hr
        cases hr
      have hmem : d ++ (a ++ t) ∈ dates * (1 + runs isSpace * times) :=
        Language.append_mem_mul hd (mem_one_add_iff.mpr (.inr (Language.append_mem_mul ha' ht)))
      refine ⟨d ++ (a ++ t), .inl hmem, y, hy, ?_⟩
      rw [har, hblanks, h, List.append_assoc, List.append_assoc]
  next =>
    obtain ⟨t, ht, rfl⟩ := exists_of_time? h
    exact ⟨t, .inr ht, y, hy, rfl⟩

/-- A text of the language with blanks behind it is read up to the blanks. -/
theorem dateOrTime?_append {b : Bytes} (ht : t ∈ dates * (1 + runs isSpace * times) + times)
    (hb : b ∈ spaces) : ∃ r ∈ spaces, dateOrTime? (t ++ b) = some r := by
  rcases ht with ht | ht
  · obtain ⟨d, hd, e, he, rfl⟩ := Language.mem_mul.mp ht
    rw [List.append_assoc, dateOrTime?]
    rcases mem_one_add_iff.mp he with rfl | he
    · -- behind a date without a time there are blanks alone, which are no time
      have hdigit : isDigit (front b) = false :=
        front_of_mem_spaces (by decide) isDigit_of_isSpace hb
      rw [List.nil_append, date?_append hd hdigit]
      dsimp only
      rw [blanks_eq_nil_iff.mpr hb]
      exact ⟨[], nil_mem_one_add, rfl⟩
    · obtain ⟨s, hs, time, htime, rfl⟩ := Language.mem_mul.mp he
      have hspace : isSpace (front (time ++ b)) = false :=
        isSpace_front_of_isDigit (isDigit_front_of_mem_times htime b)
      have hdigit : isDigit (front (s ++ (time ++ b))) = false :=
        isDigit_of_isSpace _ (front_of_mem_runs hs _)
      rw [List.append_assoc, date?_append hd hdigit]
      dsimp only
      rw [blanks_append (mem_one_add_iff.mpr (.inr hs)) hspace, time?_append htime hb]
      exact ⟨b, hb, rfl⟩
  · rw [dateOrTime?, date?_of_mem_times ht]
    exact ⟨b, hb, time?_append ht hb⟩

/-- The text between two number signs makes a date literal of them where it is in the language. -/
theorem isDate_iff : isDate x = true ↔ x ∈ bodies := by
  constructor
  · intro h
    obtain ⟨a, ha, hax⟩ := exists_append_blanks x
    rw [isDate] at h
    split at h
    · cases h
    next r hr =>
      have hspaces : r ∈ spaces := blanks_eq_nil_iff.mp (List.isEmpty_iff.mp h)
      obtain ⟨t, ht, b, hb, hblanks⟩ := exists_of_dateOrTime? hr hspaces
      rw [hax, hblanks, ← List.append_assoc]
      exact Language.append_mem_mul (Language.append_mem_mul ha ht) hb
  · intro h
    obtain ⟨at', hat, b, hb, rfl⟩ := Language.mem_mul.mp h
    obtain ⟨a, ha, t, ht, rfl⟩ := Language.mem_mul.mp hat
    have hspace : isSpace (front (t ++ b)) = false := by
      rcases ht with ht | ht
      · obtain ⟨d, hd, e, -, rfl⟩ := Language.mem_mul.mp ht
        rw [List.append_assoc]
        exact isSpace_front_of_isDigit (isDigit_front_of_mem_dates hd _)
      · exact isSpace_front_of_isDigit (isDigit_front_of_mem_times ht b)
    -- the blanks in front end where the date or the time starts
    obtain ⟨r, hr, hread⟩ := dateOrTime?_append ht hb
    rw [isDate, List.append_assoc, blanks_append ha hspace, hread]
    exact List.isEmpty_iff.mpr (blanks_eq_nil_iff.mpr hr)

end DateText

namespace Lexer

variable {body : Bytes}

/-- What stands between two number signs on one line makes a date literal of them, or it does
not. -/
theorem dateLiteral_append (h : ∀ c ∈ body, inDate c = true) (y : Bytes) :
    dateLiteral (body ++ byte '#' :: y) =
      if DateText.isDate body then (.dateLiteral, body.length + 2) else (.octothorpe, 1) := by
  have hend : inDate (front (byte '#' :: y)) = false := by
    rw [front_cons]
    decide
  obtain ⟨htake, hdrop⟩ := takeWhile_append_of_front h hend
  rw [dateLiteral_eq_ite, htake, hdrop, front_cons, beq_self_eq_true, Bool.true_and]

/-- Behind a number sign a date literal is looked for. -/
theorem scan_numberSign (rest : Bytes) :
    scan (byte '#') rest = (dateLiteral rest).map .lexeme id := by
  have hrem := startsRemComment_eq_false (show upper (byte '#') ≠ byte 'R' by decide) rest
  unfold scan
  rw [if_neg (by decide), if_neg (by decide), hrem, if_neg Bool.false_ne_true, if_neg (by decide),
    if_pos (by decide)]

/-- Two number signs with a text of one line between them are a date literal exactly where the text
is in the language of dates and times; elsewhere the first one is a token of its own. -/
theorem dates_exact (body : Bytes)
    (h : ∀ c ∈ body, c ≠ byte '#' ∧ c ≠ carriageReturn ∧ c ≠ lineFeed) :
    (IsToken (.lexeme .dateLiteral) (byte '#' :: (body ++ [byte '#'])) ↔ body ∈ DateText.bodies) ∧
      (body ∉ DateText.bodies →
        ∀ file, ∃ t ∈ (tokens (byte '#' :: (body ++ [byte '#'])) file).head?,
        t.kind = .lexeme .octothorpe ∧ t.text = [byte '#']) := by
  have hin : ∀ c ∈ body, inDate c = true := fun c hc => by
    obtain ⟨hnumber, hreturn, hfeed⟩ := h c hc
    simp [inDate, isLineBreak, hnumber, hreturn, hfeed]
  have hscan : scan (byte '#') (body ++ [byte '#']) =
      if DateText.isDate body then (.lexeme .dateLiteral, body.length + 2)
      else (.lexeme .octothorpe, 1) := by
    rw [scan_numberSign, dateLiteral_append hin]
    split <;> rfl
  rw [isToken_iff, hscan, ← DateText.isDate_iff]
  constructor
  · cases DateText.isDate body with
    | true => simp
    | false => simp
  · intro hbody file
    rw [if_neg hbody] at hscan
    refine ⟨tokenAt file {} (byte '#') (body ++ [byte '#']), ?_, ?_, ?_⟩
    · rw [tokens_eq, tokensFrom_cons]
      rfl
    · rw [kind_tokenAt, hscan]
    · rw [(text_tokenAt file {} _ _).1, hscan]
      rfl

/-- `1/2/2026 3:45 pm` makes a date literal of the number signs, and `1:2:` does not. -/
theorem dates_exact_clocks :
    IsToken (.lexeme .dateLiteral) (ofString "#1/2/2026 3:45 pm#") ∧
      ∀ file, ∃ t ∈ (tokens (ofString "#1:2:#") file).head?,
        t.kind = .lexeme .octothorpe ∧ t.text = [byte '#'] := by
  have hdate := dates_exact (ofString "1/2/2026 3:45 pm") (by decide)
  have htime := dates_exact (ofString "1:2:") (by decide)
  exact ⟨hdate.1.mpr (DateText.isDate_iff.mp (by decide)),
    htime.2 (mt DateText.isDate_iff.mpr (by decide))⟩

end Lexer

end LosslessBasic
