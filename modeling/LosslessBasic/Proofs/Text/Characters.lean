import LosslessBasic.Proofs.Lexer.Append
import LosslessBasic.Source.Cursor

/-!
# The characters of a text

A text that is UTF-8 is a row of characters: line breaks, other ASCII bytes, and wide characters of
two to four bytes. `Utf8.IsText` says so by its constructors, so that what holds of texts is shown
character by character, and no character is ever taken apart (`Utf8.isText_of_firstInvalid?`).
-/

namespace LosslessBasic

set_option maxRecDepth 2000

/-- What is said of all bytes is checked byte by byte. -/
instance decidableForallByte {p : UInt8 → Prop} [DecidablePred p] : Decidable (∀ c, p c) :=
  decidable_of_iff (∀ n : Fin 256, p (.ofFin n))
    ⟨fun h c => by simpa using h c.toFin, fun h n => h (.ofFin n)⟩

namespace Cursor

open Bytes

theorem lineBreakWidth_pos_iff {c : UInt8} {rest : Bytes} :
    0 < lineBreakWidth (c :: rest) ↔ Ascii.isLineBreak c = true := by
  rw [lineBreakWidth, Ascii.isLineBreak, Bool.or_eq_true]
  split
  next hcr =>
    simp only [hcr, true_or, iff_true]
    split <;> decide
  next hcr =>
    split
    next hlf => simp [hlf]
    next hlf => simp [hcr, hlf]

theorem exists_cons_of_lineBreakWidth_pos {x : Bytes} (h : 0 < lineBreakWidth x) :
    ∃ c rest, x = c :: rest ∧ Ascii.isLineBreak c = true := by
  cases x with
  | nil => cases h
  | cons c rest => exact ⟨c, rest, rfl, lineBreakWidth_pos_iff.mp h⟩

/-- The bytes of a line break are such, each of them. -/
theorem isLineBreak_of_mem_take {x : Bytes} {c : UInt8} (h : c ∈ x.take (lineBreakWidth x)) :
    Ascii.isLineBreak c = true := by
  cases x with
  | nil => cases h
  | cons a rest =>
    rw [lineBreakWidth] at h
    split at h
    next hcr =>
      obtain rfl := beq_iff_eq.mp hcr
      split at h
      next hlf =>
        obtain ⟨more, rfl⟩ := List.head?_eq_some_iff.mp (beq_iff_eq.mp hlf)
        simp only [List.take_succ_cons, List.take_zero, List.mem_cons, List.not_mem_nil,
          or_false] at h
        rcases h with rfl | rfl <;> decide
      next =>
        obtain rfl := List.mem_singleton.mp h
        decide
    next =>
      split at h
      next hlf =>
        obtain rfl := beq_iff_eq.mp hlf
        obtain rfl := List.mem_singleton.mp h
        decide
      next => cases h

end Cursor

namespace Utf8

open Bytes

/-- Whether the bytes are those of one character outside of ASCII. -/
structure IsWide (u : Bytes) : Prop where
  /-- There are some. -/
  ne_nil : u ≠ []
  /-- None of them is an ASCII byte. -/
  wide : ∀ c ∈ u, ¬ c < 0x80
  /-- They encode one scalar value. -/
  width : scalarWidth? u = some u.length
  /-- The first one announces how many they are. -/
  announced : sequenceLength (front u) = u.length

/-- A byte that continues a character is outside of ASCII. -/
theorem not_ascii_of_isContinuation : ∀ c, isContinuation c = true → ¬ c < 0x80 := by decide

/-- A scalar in front is an ASCII byte or a wide character. -/
theorem ascii_or_isWide {a : UInt8} {rest : Bytes} {width : Nat}
    (h : scalarWidth? (a :: rest) = some width) :
    (a < 0x80 ∧ width = 1) ∨ (IsWide ((a :: rest).take width) ∧ width ≤ (a :: rest).length) := by
  have hwidth := h
  unfold scalarWidth? at h
  by_cases hone : a < 0x80
  · simp only [if_pos hone, Option.some.injEq] at h
    exact .inl ⟨hone, h.symm⟩
  refine .inr ?_
  have hwide {more : Bytes} (hmore : ∀ c ∈ more, isContinuation c = true) :
      ∀ c ∈ a :: more, ¬ c < 0x80 := by
    intro c hc
    rcases List.mem_cons.mp hc with rfl | hc
    · exact hone
    · exact not_ascii_of_isContinuation c (hmore c hc)
  -- the first byte says how many continue it, and `scalarWidth?` has tested each of them
  by_cases htwo : (a &&& 0xE0 == 0xC0) = true
  · simp only [if_neg hone, if_pos htwo] at h
    match rest, h with
    | b :: rest, h =>
      dsimp only at h
      split at h
      next hvalid =>
        obtain rfl := Option.some.inj h
        rw [Bool.and_eq_true] at hvalid
        refine ⟨⟨List.cons_ne_nil _ _, hwide (by simpa using hvalid.1), ?_, ?_⟩, by simp⟩
        · simpa only [List.take_succ_cons, List.take_zero, List.length_cons, List.length_nil,
            scalarWidth?, if_neg hone, if_pos htwo] using hwidth
        · simp [front, sequenceLength, hone, htwo]
      · cases h
  by_cases hthree : (a &&& 0xF0 == 0xE0) = true
  · simp only [if_neg hone, if_neg htwo, if_pos hthree] at h
    match rest, h with
    | b :: c :: rest, h =>
      dsimp only at h
      split at h
      next hvalid =>
        obtain rfl := Option.some.inj h
        simp only [Bool.and_eq_true] at hvalid
        refine ⟨⟨List.cons_ne_nil _ _, hwide (by simpa using hvalid.1.1), ?_, ?_⟩, by simp⟩
        · simpa only [List.take_succ_cons, List.take_zero, List.length_cons, List.length_nil,
            scalarWidth?, if_neg hone, if_neg htwo, if_pos hthree] using hwidth
        · simp [front, sequenceLength, hone, htwo, hthree]
      · cases h
  by_cases hfour : (a &&& 0xF8 == 0xF0) = true
  · simp only [if_neg hone, if_neg htwo, if_neg hthree, if_pos hfour] at h
    match rest, h with
    | b :: c :: d :: rest, h =>
      dsimp only at h
      split at h
      next hvalid =>
        obtain rfl := Option.some.inj h
        simp only [Bool.and_eq_true] at hvalid
        refine ⟨⟨List.cons_ne_nil _ _, hwide (by simpa [and_assoc] using hvalid.1.1), ?_,
          ?_⟩, by simp⟩
        · simpa only [List.take_succ_cons, List.take_zero, List.length_cons, List.length_nil,
            scalarWidth?, if_neg hone, if_neg htwo, if_neg hthree, if_pos hfour] using hwidth
        · simp [front, sequenceLength, hone, htwo, hthree, hfour]
      · cases h
  · simp only [if_neg hone, if_neg htwo, if_neg hthree, if_neg hfour] at h
    cases h

/-! ## Texts -/

/-- Whether the bytes are a row of characters. -/
inductive IsText : Bytes → Prop where
  | nil : IsText []
  /-- An ASCII byte that breaks no line. -/
  | byte {c : UInt8} {x : Bytes} (hascii : c < 0x80) (hbreak : Ascii.isLineBreak c = false)
    (h : IsText x) : IsText (c :: x)
  /-- A wide character. -/
  | wide {u x y : Bytes} (hu : IsWide u) (hy : y = u ++ x) (h : IsText x) : IsText y
  /-- A line break, whatever it is written as. -/
  | lineBreak {x : Bytes} (hx : 0 < Cursor.lineBreakWidth x)
    (h : IsText (x.drop (Cursor.lineBreakWidth x))) : IsText x

theorem ascii_of_isLineBreak : ∀ c, Ascii.isLineBreak c = true → c < 0x80 := by decide

theorem scalarWidth?_of_ascii {c : UInt8} (h : c < 0x80) (rest : Bytes) :
    scalarWidth? (c :: rest) = some 1 := by
  unfold scalarWidth?
  exact if_pos h

/-- A scalar in front does not matter to what is behind it. -/
theorem firstInvalid?_cons_eq_none_iff {c : UInt8} {rest : Bytes} {width : Nat}
    (h : scalarWidth? (c :: rest) = some (width + 1)) :
    firstInvalid? (c :: rest) = none ↔ firstInvalid? (rest.drop width) = none := by
  rw [firstInvalid?, firstInvalidFrom, h]
  dsimp only
  rw [firstInvalidFrom_eq_map, Option.map_eq_none_iff, Nat.add_sub_cancel]

/-- ASCII bytes in front do not matter to what is behind them. -/
theorem firstInvalid?_append_eq_none_iff {u : Bytes} (hu : ∀ c ∈ u, c < 0x80) (x : Bytes) :
    firstInvalid? (u ++ x) = none ↔ firstInvalid? x = none := by
  induction u with
  | nil => rfl
  | cons c u ih =>
    rw [List.forall_mem_cons] at hu
    rw [List.cons_append, firstInvalid?_cons_eq_none_iff (scalarWidth?_of_ascii hu.1 _),
      List.drop_zero]
    exact ih hu.2

/-- ASCII bytes are UTF-8. -/
theorem firstInvalid?_of_ascii {u : Bytes} (hu : ∀ c ∈ u, c < 0x80) : firstInvalid? u = none := by
  have h := (firstInvalid?_append_eq_none_iff hu []).mpr rfl
  rwa [List.append_nil] at h

/-- What is UTF-8 is a text. -/
theorem isText_of_firstInvalid? {x : Bytes} (h : firstInvalid? x = none) : IsText x := by
  -- by induction on the number of bytes, as a character may have several
  generalize hn : x.length = n
  induction n using Nat.strongRecOn generalizing x with
  | ind n ih =>
    cases hx : x with
    | nil => exact .nil
    | cons a rest =>
      cases hbreak : Ascii.isLineBreak a with
      | true =>
        have hpos : 0 < Cursor.lineBreakWidth x := by rwa [hx, Cursor.lineBreakWidth_pos_iff]
        have hbehind : firstInvalid? (x.drop (Cursor.lineBreakWidth x)) = none := by
          rw [← List.take_append_drop (Cursor.lineBreakWidth x) x] at h
          exact (firstInvalid?_append_eq_none_iff (fun c hc =>
            ascii_of_isLineBreak c (Cursor.isLineBreak_of_mem_take hc)) _).mp h
        have hlt : (x.drop (Cursor.lineBreakWidth x)).length < n := by
          rw [List.length_drop, ← hn, hx, List.length_cons] at *
          omega
        rw [← hx]
        exact .lineBreak hpos (ih _ hlt hbehind rfl)
      | false =>
        subst hx
        have hwidth : ∃ width, scalarWidth? (a :: rest) = some width := by
          refine Option.ne_none_iff_exists'.mp fun hnone => ?_
          rw [firstInvalid?, firstInvalidFrom, hnone] at h
          cases h
        obtain ⟨width, hwidth⟩ := hwidth
        rcases ascii_or_isWide hwidth with ⟨hascii, rfl⟩ | ⟨hwide, hle⟩
        · rw [firstInvalid?_cons_eq_none_iff hwidth, List.drop_zero] at h
          exact .byte hascii hbreak (ih _ (by rw [← hn]; exact Nat.lt_succ_self _) h rfl)
        · obtain ⟨k, rfl⟩ : ∃ k, width = k + 1 := by
            refine Nat.exists_eq_succ_of_ne_zero ?_
            rintro rfl
            exact hwide.ne_nil (List.take_zero ..)
          rw [firstInvalid?_cons_eq_none_iff hwidth] at h
          refine .wide hwide (List.take_append_drop _ _).symm (ih _ ?_ h rfl)
          rw [List.length_drop, ← hn, List.length_cons]
          omega

/-- What is a text is UTF-8. -/
theorem IsText.firstInvalid?_eq_none {x : Bytes} (h : IsText x) : firstInvalid? x = none := by
  induction h with
  | nil => rfl
  | byte hascii _ _ ih =>
    rwa [firstInvalid?_cons_eq_none_iff (scalarWidth?_of_ascii hascii _), List.drop_zero]
  | @wide u x y hu hy _ ih =>
    subst hy
    obtain ⟨a, more, rfl⟩ := List.exists_cons_of_ne_nil hu.ne_nil
    have hwidth : scalarWidth? (a :: (more ++ x)) = some (more.length + 1) :=
      (scalarWidth?_append hu.width x).1
    rw [List.cons_append, firstInvalid?_cons_eq_none_iff hwidth]
    rwa [List.drop_left]
  | @lineBreak x hx _ ih =>
    rw [← List.take_append_drop (Cursor.lineBreakWidth x) x]
    exact (firstInvalid?_append_eq_none_iff (fun c hc =>
      ascii_of_isLineBreak c (Cursor.isLineBreak_of_mem_take hc)) _).mpr ih

end Utf8

end LosslessBasic
