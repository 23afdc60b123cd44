import LosslessBasic.Proofs.Lexer.Respelling

/-!
# Dates in another spelling

The text between two number signs is a date or none, whatever the case of its letters, and however
many blanks stand where it has one (`DateText.isDate_eq`).
-/

namespace LosslessBasic.DateText

open Bytes Ascii

set_option maxRecDepth 2000

/-- A blank that may stand in a date. -/
def isSpace (c : UInt8) : Bool := c == byte ' ' || c == tab

/-- Two texts of dates, up to the case of letters and up to blanks behind a blank. -/
inductive Alike : Bytes → Bytes → Prop where
  | nil : Alike [] []
  | byte {c c' : UInt8} {x x' : Bytes} (hupper : upper c = upper c') (h : Alike x x') :
    Alike (c :: x) (c' :: x')
  /-- A space or a tab behind a blank. -/
  | more {b d : UInt8} {x x' : Bytes} (hb : isBlank b = true) (hd : isSpace d = true)
    (h : Alike x (b :: x')) : Alike x (b :: d :: x')

variable {x x' : Bytes} {p : UInt8 → Bool}

theorem isSpace_class : IsClass isSpace := by decide

theorem slash_class : IsSolidClass (· == byte '/') := beq_class (by decide) (by decide)

theorem minus_class : IsSolidClass (· == byte '-') := beq_class (by decide) (by decide)

theorem colon_class : IsSolidClass (· == byte ':') := beq_class (by decide) (by decide)

namespace Alike

/-- In front of such texts, the same text up to the case of letters. -/
theorem append {q q' : Bytes} (hq : q.map upper = q'.map upper) (h : Alike x x') :
    Alike (q ++ x) (q' ++ x') := by
  induction q generalizing q' with
  | nil =>
    obtain rfl := List.map_eq_nil_iff.mp hq.symm
    exact h
  | cons c q ih =>
    obtain ⟨c', q'', rfl, hupper, hq⟩ := List.map_eq_cons_iff.mp hq.symm
    exact .byte hupper.symm (ih hq.symm)

/-- Texts that differ in the case of letters are alike. -/
theorem of_map_upper_eq (h : x.map upper = x'.map upper) : Alike x x' := by
  simpa using append h .nil

/-- Any number of spaces and tabs behind a blank. -/
theorem spaces {b : UInt8} (hb : isBlank b = true) {more : Bytes}
    (hmore : ∀ d ∈ more, isSpace d = true)
    (x : Bytes) : Alike (b :: x) (b :: (more ++ x)) := by
  induction more with
  | nil => exact of_map_upper_eq rfl
  | cons d more ih =>
    obtain ⟨hd, hmore⟩ := List.forall_mem_cons.mp hmore
    exact .more hb hd (ih hmore)

/-- A byte in front stands for one like it; there is a text behind it if it is no blank. -/
theorem cons_inv {c : UInt8} (h : Alike (c :: x) x') :
    ∃ c' rest', x' = c' :: rest' ∧ upper c = upper c' ∧ (isBlank c = false → Alike x rest') := by
  generalize hy : c :: x = y at h
  induction h with
  | nil => cases hy
  | byte hupper h =>
    obtain ⟨rfl, rfl⟩ := List.cons.inj hy
    exact ⟨_, _, rfl, hupper, fun _ => h⟩
  | @more b d y x' hb hd h ih =>
    obtain ⟨c', rest', heq, hupper, -⟩ := ih hy
    obtain ⟨rfl, rfl⟩ := List.cons.inj heq
    refine ⟨b, d :: x', rfl, hupper, fun hc => ?_⟩
    -- the blank in front of the one stands for one in front of the other
    rw [isBlank_class.eq_of_upper_eq hupper, hb] at hc
    cases hc

/-- Texts that are alike start with the same byte, up to its case, where it is no blank. -/
theorem solid {c : UInt8} (hp : IsSolidClass p) (hc : p c = true) (h : Alike (c :: x) x') :
    ∃ c' rest', x' = c' :: rest' ∧ upper c = upper c' ∧ p c' = true ∧ Alike x rest' := by
  obtain ⟨c', rest', rfl, hupper, hrest⟩ := h.cons_inv
  refine ⟨c', rest', rfl, hupper, (hp.eq_of_upper_eq hupper).symm.trans hc, hrest ?_⟩
  cases hblank : isBlank c with
  | false => rfl
  | true =>
    rw [hp.blank c hblank] at hc
    cases hc

/-- Only the empty text is like the empty one. -/
theorem nil_left (h : Alike [] x') : x' = [] := by
  generalize hy : ([] : Bytes) = y at h
  induction h with
  | nil => rfl
  | byte => cases hy
  | more _ _ _ ih =>
    subst hy
    cases ih rfl

/-- Of texts that are alike both are empty or neither is. -/
theorem isEmpty_eq (h : Alike x x') : x.isEmpty = x'.isEmpty := by
  cases x with
  | nil => rw [h.nil_left]
  | cons c x =>
    obtain ⟨c', rest', rfl, -⟩ := h.cons_inv
    rfl

/-- Texts that are alike have first bytes of the same classes. -/
theorem front_eq (hp : IsClass p) (h : Alike x x') : p (front x) = p (front x') := by
  cases x with
  | nil => rw [h.nil_left]
  | cons c x =>
    obtain ⟨c', rest', rfl, hupper, -⟩ := h.cons_inv
    exact hp.eq_of_upper_eq hupper

/-- Behind a first byte that is no blank texts that are alike are alike. -/
theorem tail (hp : IsSolidClass p) (hfront : p (front x) = true) (h : Alike x x') :
    Alike x.tail x'.tail := by
  cases x with
  | nil => 
    rw [h.nil_left]
    exact .nil
  | cons c x =>
    obtain ⟨c', rest', rfl, -, -, hrest⟩ := h.solid hp hfront
    exact hrest

/-- What is left behind a run of bytes without blanks. -/
theorem dropWhile_solid (hp : IsSolidClass p) (h : Alike x x') :
    Alike (x.dropWhile p) (x'.dropWhile p) := by
  induction h with
  | nil => exact .nil
  | @byte c c' x x' hupper h ih =>
    rw [List.dropWhile_cons, List.dropWhile_cons, ← hp.eq_of_upper_eq hupper]
    split
    · exact ih
    · exact .byte hupper h
  | @more b d x x' hb hd h ih =>
    rw [List.dropWhile_cons_of_neg (by simp [hp.blank b hb])] at ih ⊢
    exact .more hb hd ih

/-- What is left behind blanks. -/
theorem blanks (h : Alike x x') : Alike (blanks x) (DateText.blanks x') := by
  change Alike (x.dropWhile isSpace) (x'.dropWhile isSpace)
  induction h with
  | nil => exact .nil
  | @byte c c' x x' hupper h ih =>
    rw [List.dropWhile_cons, List.dropWhile_cons, ← isSpace_class.eq_of_upper_eq hupper]
    split
    · exact ih
    · exact .byte hupper h
  | @more b d x x' hb hd h ih =>
    rw [List.dropWhile_cons] at ih ⊢
    split at ih
    next hspace =>
      rw [if_pos hspace, List.dropWhile_cons, if_pos hd]
      exact ih
    next hother =>
      rw [if_neg hother]
      exact .more hb hd ih

end Alike

/-! ## Readers -/

/-- Digits are read where one stands in front. -/
theorem digits?_eq (x : Bytes) :
    digits? x = if isDigit (front x) then some (x.tail.dropWhile isDigit) else none := by
  cases x <;> rfl

/-- A byte is accepted where it stands in front. -/
theorem accept?_eq {expected : UInt8} (hexpected : expected ≠ 0) (x : Bytes) :
    accept? expected x = if front x == expected then some x.tail else none := by
  cases x with
  | nil => rw [front, List.headD_nil, if_neg (by simpa using hexpected.symm)]; rfl
  | cons => rfl

/-- A separator of a date is the slash or the minus sign in front. -/
theorem separator?_eq (x : Bytes) : separator? x =
    if front x == byte '/' then some (byte '/', x.tail)
    else if front x == byte '-' then some (byte '-', x.tail) else none := by
  cases x with
  | nil => rfl
  | cons c x =>
    unfold separator?
    rw [front, List.headD_cons, List.tail_cons]
    by_cases hslash : c = byte '/'
    · simp [hslash]
    · by_cases hminus : c = byte '-' <;> simp [hslash, hminus]

/-- Related results are both missing or both there. -/
theorem rel_cases {α β : Type} {r : α → β → Prop} {a : Option α} {b : Option β}
    (h : Option.Rel r a b) :
    (a = none ∧ b = none) ∨ ∃ x y, a = some x ∧ b = some y ∧ r x y := by
  cases h with
  | none => exact .inl ⟨rfl, rfl⟩
  | some h => exact .inr ⟨_, _, rfl, rfl, h⟩

/-- Readers one after the other. -/
theorem rel_bind {α β γ δ : Type} {r : α → β → Prop} {q : γ → δ → Prop} {a : Option α}
    {b : Option β}
    {f : α → Option γ} {g : β → Option δ} (h : Option.Rel r a b)
    (hfg : ∀ x y, r x y → Option.Rel q (f x) (g y)) : Option.Rel q (a >>= f) (b >>= g) := by
  cases h with
  | none => exact .none
  | some h => exact hfg _ _ h

namespace Alike

theorem digits? (h : Alike x x') : Option.Rel Alike (digits? x) (DateText.digits? x') := by
  rw [digits?_eq, digits?_eq, ← h.front_eq isDigit_class.toIsClass]
  split
  next hfront => exact .some ((h.tail isDigit_class hfront).dropWhile_solid isDigit_class)
  next => exact .none

theorem accept? {expected : UInt8} (hexpected : IsSolidClass (· == expected)) (h : Alike x x') :
    Option.Rel Alike (accept? expected x) (DateText.accept? expected x') := by
  have hne : expected ≠ 0 := fun hzero => by simpa [hzero] using hexpected.zero
  rw [accept?_eq hne, accept?_eq hne, ← h.front_eq hexpected.toIsClass]
  split
  next hfront => exact .some (h.tail hexpected hfront)
  next => exact .none

theorem separator? (h : Alike x x') :
    Option.Rel (fun r r' => r.1 = r'.1 ∧ IsSolidClass (· == r.1) ∧ Alike r.2 r'.2) (separator? x)
      (DateText.separator? x') := by
  rw [separator?_eq, separator?_eq, ← h.front_eq slash_class.toIsClass,
    ← h.front_eq minus_class.toIsClass]
  split
  next hfront => exact .some ⟨rfl, slash_class, h.tail slash_class hfront⟩
  next =>
    split
    next hfront => exact .some ⟨rfl, minus_class, h.tail minus_class hfront⟩
    next => exact .none

theorem date? (h : Alike x x') : Option.Rel Alike (date? x) (DateText.date? x') := by
  refine rel_bind h.digits? fun y y' h => ?_
  refine rel_bind h.separator? fun ⟨sign, y⟩ ⟨sign', y'⟩ ⟨hsign, hclass, h⟩ => ?_
  obtain rfl : sign = sign' := hsign
  refine rel_bind h.digits? fun y y' h => ?_
  exact rel_bind (h.accept? hclass) fun y y' h => h.digits?

theorem clockPart? (h : Alike x x') :
    Option.Rel (fun r r' => r.1 = r'.1 ∧ Alike r.2 r'.2) (clockPart? x)
      (DateText.clockPart? x') := by
  unfold DateText.clockPart?
  rcases rel_cases (h.accept? colon_class) with ⟨hx, hx'⟩ | ⟨y, y', hx, hx', hbehind⟩
  · rw [hx, hx']
    exact .some ⟨rfl, h⟩
  · rw [hx, hx']
    dsimp only
    rcases rel_cases hbehind.digits? with ⟨hy, hy'⟩ | ⟨z, z', hy, hy', hrest⟩
    · rw [hy, hy']
      exact .none
    · rw [hy, hy']
      exact .some ⟨rfl, hrest⟩

end Alike

/-- A text starts with a word if it does so letter by letter, whatever their case. -/
theorem startsWithIgnoringCase_cons (w : UInt8) (word : Bytes) (x : Bytes) :
    startsWithIgnoringCase x (w :: word) =
      (!x.isEmpty && (upper (front x) == upper w && startsWithIgnoringCase x.tail word)) := by
  cases x with
  | nil => rfl
  | cons c x => 
    unfold startsWithIgnoringCase equalIgnoringCase
    simp [front]

namespace Alike

/-- A word of letters is in front of both texts or of none. -/
theorem startsWithIgnoringCase {word : Bytes}
    (hword : ∀ w ∈ word, IsSolidClass (fun c => upper c == upper w)) (h : Alike x x') :
    startsWithIgnoringCase x word = Ascii.startsWithIgnoringCase x' word ∧
      (Ascii.startsWithIgnoringCase x word = true →
        Alike (x.drop word.length) (x'.drop word.length)) := by
  induction word generalizing x x' with
  | nil => exact ⟨rfl, fun _ => h⟩
  | cons w word ih =>
    obtain ⟨hw, hword⟩ := List.forall_mem_cons.mp hword
    have hfront := h.front_eq hw.toIsClass
    rw [startsWithIgnoringCase_cons, startsWithIgnoringCase_cons, ← hfront, h.isEmpty_eq]
    cases hstarts : upper (front x) == upper w with
    | false => simp
    | true =>
      obtain ⟨heq, hdrop⟩ := ih hword (h.tail hw hstarts)
      rw [heq] at hdrop ⊢
      refine ⟨rfl, fun hall => ?_⟩
      simp only [Bool.true_and, Bool.and_eq_true] at hall
      rw [List.length_cons, ← List.drop_tail, ← List.drop_tail]
      exact hdrop hall.2

theorem meridiem? (h : Alike x x') : Option.Rel Alike (meridiem? x) (DateText.meridiem? x') := by
  have hletter (word : Bytes) (hword : ∀ w ∈ word, isPrinted (upper w) = true) :
      ∀ w ∈ word, IsSolidClass (fun c => upper c == upper w) :=
        fun w hw => upper_beq_class (hword w hw)
  have ham := hletter (ofString "AM") (by decide)
  have hpm := hletter (ofString "PM") (by decide)
  obtain ⟨hameq, hamdrop⟩ := h.blanks.startsWithIgnoringCase ham
  obtain ⟨hpmeq, hpmdrop⟩ := h.blanks.startsWithIgnoringCase hpm
  unfold DateText.meridiem?
  dsimp only
  rw [← hameq, ← hpmeq]
  split
  next hword =>
    rcases Bool.or_eq_true_iff.mp hword with ham | hpm
    · exact .some (hamdrop ham)
    · exact .some (hpmdrop hpm)
  next => exact .none

/-- Where minutes are read, a half of the day need not be. -/
theorem timeEnd? (hasMinutes : Bool) (h : Alike x x') :
    Option.Rel Alike
      (match DateText.meridiem? x with
        | some rest => some rest
        | none => if hasMinutes then some x else none)
      (match DateText.meridiem? x' with
        | some rest => some rest
        | none => if hasMinutes then some x' else none) := by
  rcases rel_cases h.meridiem? with ⟨hx, hx'⟩ | ⟨z, z', hx, hx', hrest⟩
  · rw [hx, hx']
    dsimp only
    split
    · exact .some h
    · exact .none
  · rw [hx, hx']
    exact .some hrest

theorem time? (h : Alike x x') : Option.Rel Alike (time? x) (DateText.time? x') := by
  refine rel_bind h.digits? fun y y' h => ?_
  refine rel_bind h.clockPart? fun ⟨hasMinutes, y⟩ ⟨hasMinutes', y'⟩ ⟨heq, h⟩ => ?_
  obtain rfl : hasMinutes = hasMinutes' := heq
  cases hasMinutes with
  | true => exact rel_bind h.clockPart? fun ⟨_, y⟩ ⟨_, y'⟩ ⟨_, h⟩ => h.timeEnd? true
  | false => exact h.timeEnd? false

theorem dateOrTime? (h : Alike x x') :
    Option.Rel Alike (dateOrTime? x) (DateText.dateOrTime? x') := by
  unfold DateText.dateOrTime?
  rcases rel_cases h.date? with ⟨hx, hx'⟩ | ⟨y, y', hx, hx', hbehind⟩
  · rw [hx, hx']
    exact h.time?
  · rw [hx, hx']
    dsimp only
    rcases rel_cases hbehind.blanks.time? with ⟨hy, hy'⟩ | ⟨z, z', hy, hy', hrest⟩
    · rw [hy, hy']
      exact .some hbehind.blanks
    · rw [hy, hy']
      exact .some hrest

/-- Both texts are dates, or none of them is. -/
theorem isDate_eq (h : Alike x x') : isDate x = isDate x' := by
  unfold isDate
  rcases rel_cases h.blanks.dateOrTime? with ⟨hx, hx'⟩ | ⟨y, y', hx, hx', hbehind⟩
  · rw [hx, hx']
  · rw [hx, hx']
    exact hbehind.blanks.isEmpty_eq

end Alike

end LosslessBasic.DateText
