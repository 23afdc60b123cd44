import LosslessBasic.Proofs.Text.Characters

/-!
# The code points of a text

The encoding of a row of code points is that of one behind the other. The bytes that are UTF-8 are
these encodings and no others (`Utf8.firstInvalid?_eq_none_iff`). Every code point has one byte that
continues no other (`Utf8.countP_ofChars`), so that a text falls apart into code points in front of
each such byte (`Utf8.exists_of_ofChars_eq_append`), whatever a reader takes it for.

## Main results

* `Utf8.validation_exact`: the bytes that are UTF-8, and the byte at fault in those that are not.
-/

namespace LosslessBasic.Utf8

set_option maxRecDepth 2000

/-- The encoding of some code points. -/
def ofChars (cs : List Char) : Bytes := cs.flatMap String.utf8EncodeChar

@[simp] theorem ofChars_nil : ofChars [] = [] := rfl

@[simp] theorem ofChars_cons (c : Char) (cs : List Char) :
    ofChars (c :: cs) = String.utf8EncodeChar c ++ ofChars cs := rfl

@[simp] theorem ofChars_append (as bs : List Char) :
    ofChars (as ++ bs) = ofChars as ++ ofChars bs :=
  List.flatMap_append

/-! ## Bytes -/

/-- A continuation byte is known by its payload. -/
theorem eq_of_isContinuation :
    ∀ b, isContinuation b = true → payload b < 64 ∧ b = UInt8.ofNat (payload b + 128) := by
  decide

/-- The first of two bytes is told by its five lower bits. -/
theorem eq_of_lead_two :
    ∀ a : UInt8, (a &&& 0xE0 == 0xC0) = true →
      (a &&& 0x1F).toNat < 32 ∧ a = UInt8.ofNat ((a &&& 0x1F).toNat + 192) := by
  decide

theorem eq_of_lead_three :
    ∀ a : UInt8, (a &&& 0xF0 == 0xE0) = true →
      (a &&& 0x0F).toNat < 16 ∧ a = UInt8.ofNat ((a &&& 0x0F).toNat + 224) := by
  decide

theorem eq_of_lead_four :
    ∀ a : UInt8, (a &&& 0xF8 == 0xF0) = true →
      (a &&& 0x07).toNat < 8 ∧ a = UInt8.ofNat ((a &&& 0x07).toNat + 240) := by
  decide

/-- A byte that is written for six bits continues a code point and gives them back. -/
theorem continuation_ofNat : ∀ n < 64,
    isContinuation (UInt8.ofNat (n + 128)) = true ∧ payload (UInt8.ofNat (n + 128)) = n := by
  decide

/-- Five bits make a first byte of two, and can be read back from it. -/
theorem lead_two_ofNat : ∀ n < 32,
    ¬ UInt8.ofNat (n + 192) < 0x80 ∧ (UInt8.ofNat (n + 192) &&& 0xE0 == 0xC0) = true ∧
      (UInt8.ofNat (n + 192) &&& 0x1F).toNat = n ∧
        isContinuation (UInt8.ofNat (n + 192)) = false := by
  decide

theorem lead_three_ofNat : ∀ n < 16,
    ¬ UInt8.ofNat (n + 224) < 0x80 ∧ (UInt8.ofNat (n + 224) &&& 0xE0 == 0xC0) = false ∧
      (UInt8.ofNat (n + 224) &&& 0xF0 == 0xE0) = true ∧ (UInt8.ofNat (n + 224) &&& 0x0F).toNat = n ∧
      isContinuation (UInt8.ofNat (n + 224)) = false := by
  decide

theorem lead_four_ofNat : ∀ n < 8,
    ¬ UInt8.ofNat (n + 240) < 0x80 ∧ (UInt8.ofNat (n + 240) &&& 0xE0 == 0xC0) = false ∧
      (UInt8.ofNat (n + 240) &&& 0xF0 == 0xE0) = false ∧
      (UInt8.ofNat (n + 240) &&& 0xF8 == 0xF0) = true ∧ (UInt8.ofNat (n + 240) &&& 0x07).toNat = n ∧
      isContinuation (UInt8.ofNat (n + 240)) = false := by
  decide

/-- A small number makes an ASCII byte, which continues no character. -/
theorem ascii_ofNat : ∀ n < 128,
    UInt8.ofNat n < 0x80 ∧ isContinuation (UInt8.ofNat n) = false := by
  decide

/-- An ASCII byte continues no code point. -/
theorem isContinuation_of_ascii {b : UInt8} (h : b < 0x80) : isContinuation b = false :=
  Bool.eq_false_iff.mpr fun hcontinues => not_ascii_of_isContinuation b hcontinues h

/-! ## One code point -/

section

variable {c : Char} {k l m n : Nat}

/-- A code point below 128 is one byte. -/
theorem utf8EncodeChar_one (hc : c.val.toNat = n) (hn : n < 128) :
    String.utf8EncodeChar c = [UInt8.ofNat n] := by
  simp only [String.utf8EncodeChar, hc]
  rw [if_pos (by omega)]

theorem utf8EncodeChar_two (hc : c.val.toNat = m * 64 + n) (hm : m < 32) (hn : n < 64)
    (hlow : 0x80 ≤ m * 64 + n) :
    String.utf8EncodeChar c = [UInt8.ofNat (m + 192), UInt8.ofNat (n + 128)] := by
  have hfirst : (m * 64 + n) / 64 % 32 = m := by omega
  have hsecond : (m * 64 + n) % 64 = n := by omega
  simp only [String.utf8EncodeChar, hc, hfirst, hsecond]
  rw [if_neg (by omega), if_pos (by omega)]

theorem utf8EncodeChar_three (hc : c.val.toNat = (m * 64 + n) * 64 + k) (hm : m < 16) (hn : n < 64)
    (hk : k < 64) (hlow : 0x800 ≤ (m * 64 + n) * 64 + k) :
    String.utf8EncodeChar c =
      [UInt8.ofNat (m + 224), UInt8.ofNat (n + 128), UInt8.ofNat (k + 128)] := by
  have hfirst : ((m * 64 + n) * 64 + k) / 4096 % 16 = m := by omega
  have hsecond : ((m * 64 + n) * 64 + k) / 64 % 64 = n := by omega
  have hthird : ((m * 64 + n) * 64 + k) % 64 = k := by omega
  simp only [String.utf8EncodeChar, hc, hfirst, hsecond, hthird]
  rw [if_neg (by omega), if_neg (by omega), if_pos (by omega)]

theorem utf8EncodeChar_four (hc : c.val.toNat = ((m * 64 + n) * 64 + k) * 64 + l) (hm : m < 8)
    (hn : n < 64) (hk : k < 64) (hl : l < 64) (hlow : 0x10000 ≤ ((m * 64 + n) * 64 + k) * 64 + l) :
    String.utf8EncodeChar c =
      [UInt8.ofNat (m + 240), UInt8.ofNat (n + 128), UInt8.ofNat (k + 128),
        UInt8.ofNat (l + 128)] := by
  have hfirst : (((m * 64 + n) * 64 + k) * 64 + l) / 262144 % 8 = m := by omega
  have hsecond : (((m * 64 + n) * 64 + k) * 64 + l) / 4096 % 64 = n := by omega
  have hthird : (((m * 64 + n) * 64 + k) * 64 + l) / 64 % 64 = k := by omega
  have hfourth : (((m * 64 + n) * 64 + k) * 64 + l) % 64 = l := by omega
  simp only [String.utf8EncodeChar, hc, hfirst, hsecond, hthird, hfourth]
  rw [if_neg (by omega), if_neg (by omega), if_neg (by omega)]

end

/-- A scalar value is a number that is the code of a character. -/
theorem isScalar_iff {n : Nat} : isScalar n = true ↔ n.isValidChar := by
  simp only [isScalar, Bool.and_eq_true, Bool.not_eq_true', decide_eq_true_eq,
    Bool.and_eq_false_iff, decide_eq_false_iff_not]
  unfold Nat.isValidChar
  omega

/-- What is below the surrogates is a scalar value. -/
theorem isScalar_of_lt {n : Nat} (h : n < 0xD800) : isScalar n = true :=
  isScalar_iff.mpr (.inl h)

/-- There is a code point for every scalar value. -/
theorem exists_char_of_isScalar {n : Nat} (h : isScalar n = true) : ∃ c : Char, c.val.toNat = n :=
  ⟨Char.ofNatAux n (isScalar_iff.mp h), rfl⟩

/-- The bytes of the scalar value in front encode a code point. -/
theorem exists_char_of_scalarWidth? {x : Bytes} {width : Nat} (h : scalarWidth? x = some width) :
    ∃ c, x.take width = String.utf8EncodeChar c := by
  rcases x with _ | ⟨a, rest⟩
  · cases h
  unfold scalarWidth? at h
  dsimp only at h
  -- the first byte says how many there are, and the lead and the payloads are the digits to base 64
  by_cases hone : a < 0x80
  · rw [if_pos hone] at h
    obtain rfl := Option.some.inj h
    have hlt : a.toNat < 128 := UInt8.lt_iff_toNat_lt.mp hone
    obtain ⟨c, hc⟩ := exists_char_of_isScalar (isScalar_of_lt (Nat.lt_trans hlt (by decide)))
    refine ⟨c, ?_⟩
    rw [utf8EncodeChar_one hc hlt, UInt8.ofNat_toNat]
    rfl
  rw [if_neg hone] at h
  by_cases htwo : (a &&& 0xE0 == 0xC0) = true
  · rw [if_pos htwo] at h
    rcases rest with _ | ⟨b, rest⟩
    · cases h
    obtain ⟨hvalid, hwidth⟩ := Option.ite_none_right_eq_some.mp h
    obtain rfl := Option.some.inj hwidth
    simp only [Bool.and_eq_true, decide_eq_true_eq] at hvalid
    obtain ⟨ha, hlead⟩ := eq_of_lead_two a htwo
    obtain ⟨hb, hmore⟩ := eq_of_isContinuation b hvalid.1
    have hlow : (a &&& 0x1F).toNat * 64 + payload b < 0xD800 := by omega
    obtain ⟨c, hc⟩ := exists_char_of_isScalar (isScalar_of_lt hlow)
    refine ⟨c, ?_⟩
    rw [utf8EncodeChar_two hc ha hb hvalid.2, ← hlead, ← hmore]
    rfl
  rw [if_neg htwo] at h
  by_cases hthree : (a &&& 0xF0 == 0xE0) = true
  · rw [if_pos hthree] at h
    rcases rest with _ | ⟨b, _ | ⟨d, rest⟩⟩
    · cases h
    · cases h
    obtain ⟨hvalid, hwidth⟩ := Option.ite_none_right_eq_some.mp h
    obtain rfl := Option.some.inj hwidth
    simp only [Bool.and_eq_true, decide_eq_true_eq] at hvalid
    obtain ⟨⟨⟨hb, hd⟩, hlow⟩, hscalar⟩ := hvalid
    obtain ⟨ha, hlead⟩ := eq_of_lead_three a hthree
    obtain ⟨hb, hsecond⟩ := eq_of_isContinuation b hb
    obtain ⟨hd, hthird⟩ := eq_of_isContinuation d hd
    obtain ⟨c, hc⟩ := exists_char_of_isScalar hscalar
    refine ⟨c, ?_⟩
    rw [utf8EncodeChar_three hc ha hb hd hlow, ← hlead, ← hsecond, ← hthird]
    rfl
  rw [if_neg hthree] at h
  by_cases hfour : (a &&& 0xF8 == 0xF0) = true
  · rw [if_pos hfour] at h
    rcases rest with _ | ⟨b, _ | ⟨d, _ | ⟨e, rest⟩⟩⟩
    · cases h
    · cases h
    · cases h
    obtain ⟨hvalid, hwidth⟩ := Option.ite_none_right_eq_some.mp h
    obtain rfl := Option.some.inj hwidth
    simp only [Bool.and_eq_true, decide_eq_true_eq] at hvalid
    obtain ⟨⟨⟨⟨hb, hd⟩, he⟩, hlow⟩, hscalar⟩ := hvalid
    obtain ⟨ha, hlead⟩ := eq_of_lead_four a hfour
    obtain ⟨hb, hsecond⟩ := eq_of_isContinuation b hb
    obtain ⟨hd, hthird⟩ := eq_of_isContinuation d hd
    obtain ⟨he, hfourth⟩ := eq_of_isContinuation e he
    obtain ⟨c, hc⟩ := exists_char_of_isScalar hscalar
    refine ⟨c, ?_⟩
    rw [utf8EncodeChar_four hc ha hb hd he hlow, ← hlead, ← hsecond, ← hthird, ← hfourth]
    rfl
  · rw [if_neg hfour] at h
    cases h

/-- What the encoding of a code point is made of. -/
theorem utf8EncodeChar_cases (c : Char) :
    (∃ n < 128, String.utf8EncodeChar c = [UInt8.ofNat n]) ∨
    (∃ m < 32, ∃ n < 64, 0x80 ≤ m * 64 + n ∧
      String.utf8EncodeChar c = [UInt8.ofNat (m + 192), UInt8.ofNat (n + 128)]) ∨
    (∃ m < 16, ∃ n < 64, ∃ k < 64, 0x800 ≤ (m * 64 + n) * 64 + k ∧
      isScalar ((m * 64 + n) * 64 + k) = true ∧ String.utf8EncodeChar c =
        [UInt8.ofNat (m + 224), UInt8.ofNat (n + 128), UInt8.ofNat (k + 128)]) ∨
    ∃ m < 8, ∃ n < 64, ∃ k < 64, ∃ l < 64, 0x10000 ≤ ((m * 64 + n) * 64 + k) * 64 + l ∧
      isScalar (((m * 64 + n) * 64 + k) * 64 + l) = true ∧ String.utf8EncodeChar c =
        [UInt8.ofNat (m + 240), UInt8.ofNat (n + 128), UInt8.ofNat (k + 128),
          UInt8.ofNat (l + 128)] := by
  have hscalar : isScalar c.val.toNat = true := isScalar_iff.mpr c.valid
  have hbound : c.val.toNat < 0x110000 := by
    have hvalid := c.valid
    unfold UInt32.isValidChar Nat.isValidChar at hvalid
    omega
  generalize hv : c.val.toNat = v at *
  -- the same bounds that the encoding is chosen by
  by_cases hone : v < 0x80
  · exact .inl ⟨v, hone, utf8EncodeChar_one hv hone⟩
  by_cases htwo : v < 0x800
  · have hparts : v = v / 64 * 64 + v % 64 := by omega
    have hn : v % 64 < 64 := by omega
    refine .inr (.inl ⟨v / 64, by omega, v % 64, hn, by omega, ?_⟩)
    exact utf8EncodeChar_two (hv.trans hparts) (by omega) hn (by omega)
  by_cases hthree : v < 0x10000
  · have hparts : v = (v / 4096 * 64 + v / 64 % 64) * 64 + v % 64 := by omega
    refine .inr (.inr (.inl ⟨v / 4096, by omega, v / 64 % 64, by omega, v % 64, by omega, by omega,
      hparts ▸ hscalar, ?_⟩))
    exact utf8EncodeChar_three (hv.trans hparts) (by omega) (by omega) (by omega) (by omega)
  · have hparts :
        v = ((v / 262144 * 64 + v / 4096 % 64) * 64 + v / 64 % 64) * 64 + v % 64 := by omega
    refine .inr (.inr (.inr ⟨v / 262144, by omega, v / 4096 % 64, by omega, v / 64 % 64, by omega,
      v % 64, by omega, by omega, hparts ▸ hscalar, ?_⟩))
    exact utf8EncodeChar_four (hv.trans hparts) (by omega) (by omega) (by omega)
      (by omega) (by omega)

/-- The encoding of a code point is that of one scalar value. -/
theorem scalarWidth?_utf8EncodeChar (c : Char) :
    scalarWidth? (String.utf8EncodeChar c) = some (String.utf8EncodeChar c).length := by
  rcases utf8EncodeChar_cases c with ⟨n, hn, heq⟩ | ⟨m, hm, n, hn, hlow, heq⟩ |
    ⟨m, hm, n, hn, k, hk, hlow, hscalar, heq⟩ | ⟨m, hm, n, hn, k, hk, l, hl, hlow, hscalar, heq⟩
  -- the bytes are known by what `scalarWidth?` asks of them, not by how they are written
  · rw [heq]
    exact scalarWidth?_of_ascii (ascii_ofNat n hn).1 []
  · obtain ⟨hone, htwo, hlead, -⟩ := lead_two_ofNat m hm
    obtain ⟨hn, hpayload⟩ := continuation_ofNat n hn
    rw [heq]
    generalize UInt8.ofNat (m + 192) = a at *
    generalize UInt8.ofNat (n + 128) = b at *
    simp [scalarWidth?, hone, htwo, hlead, hn, hpayload, hlow]
  · obtain ⟨hone, htwo, hthree, hlead, -⟩ := lead_three_ofNat m hm
    obtain ⟨hn, hnpayload⟩ := continuation_ofNat n hn
    obtain ⟨hk, hkpayload⟩ := continuation_ofNat k hk
    rw [heq]
    generalize UInt8.ofNat (m + 224) = a at *
    generalize UInt8.ofNat (n + 128) = b at *
    generalize UInt8.ofNat (k + 128) = d at *
    simp [scalarWidth?, hone, htwo, hthree, hlead, hn, hnpayload, hk, hkpayload, hlow, hscalar]
  · obtain ⟨hone, htwo, hthree, hfour, hlead, -⟩ := lead_four_ofNat m hm
    obtain ⟨hn, hnpayload⟩ := continuation_ofNat n hn
    obtain ⟨hk, hkpayload⟩ := continuation_ofNat k hk
    obtain ⟨hl, hlpayload⟩ := continuation_ofNat l hl
    rw [heq]
    generalize UInt8.ofNat (m + 240) = a at *
    generalize UInt8.ofNat (n + 128) = b at *
    generalize UInt8.ofNat (k + 128) = d at *
    generalize UInt8.ofNat (l + 128) = e at *
    simp [scalarWidth?, hone, htwo, hthree, hfour, hlead, hn, hnpayload, hk, hkpayload,
      hl, hlpayload, hlow, hscalar]

/-- The encoding of a code point has one byte that continues no other, the first one. -/
theorem exists_cons_utf8EncodeChar (c : Char) :
    ∃ lead more, String.utf8EncodeChar c = lead :: more ∧ isContinuation lead = false ∧
      (∀ b ∈ more, isContinuation b = true) ∧ (lead < 0x80 → more = []) := by
  rcases utf8EncodeChar_cases c with ⟨n, hn, heq⟩ | ⟨m, hm, n, hn, -, heq⟩ |
    ⟨m, hm, n, hn, k, hk, -, -, heq⟩ | ⟨m, hm, n, hn, k, hk, l, hl, -, -, heq⟩
  · exact ⟨_, _, heq, (ascii_ofNat n hn).2, fun _ hb => absurd hb List.not_mem_nil, fun _ => rfl⟩
  · obtain ⟨hone, -, -, hlead⟩ := lead_two_ofNat m hm
    have hsecond := (continuation_ofNat n hn).1
    refine ⟨_, _, heq, hlead, ?_, fun h => absurd h hone⟩
    simp only [List.forall_mem_cons, List.not_mem_nil, false_imp_iff, implies_true,
      and_true, hsecond]
  · obtain ⟨hone, -, -, -, hlead⟩ := lead_three_ofNat m hm
    have hsecond := (continuation_ofNat n hn).1
    have hthird := (continuation_ofNat k hk).1
    refine ⟨_, _, heq, hlead, ?_, fun h => absurd h hone⟩
    simp only [List.forall_mem_cons, List.not_mem_nil, false_imp_iff, implies_true,
      and_true, hsecond, hthird]
  · obtain ⟨hone, -, -, -, -, hlead⟩ := lead_four_ofNat m hm
    have hsecond := (continuation_ofNat n hn).1
    have hthird := (continuation_ofNat k hk).1
    have hfourth := (continuation_ofNat l hl).1
    refine ⟨_, _, heq, hlead, ?_, fun h => absurd h hone⟩
    simp only [List.forall_mem_cons, List.not_mem_nil, false_imp_iff, implies_true,
      and_true, hsecond, hthird, hfourth]

/-- Two code points with the same encoding are the same, and so are two rows of them. -/
theorem ofChars_injective : Function.Injective ofChars := by
  intro as bs h
  have hbytes : as.utf8Encode = bs.utf8Encode := congrArg List.toByteArray h
  exact String.ofList_injective (String.toByteArray_inj.mp hbytes)

/-! ## Where a text stops being UTF-8 -/

/-- No scalar value is encoded in front if no code point is. -/
theorem scalarWidth?_eq_none_iff {x : Bytes} :
    scalarWidth? x = none ↔ ∀ c, ¬ String.utf8EncodeChar c <+: x := by
  constructor
  · rintro h c ⟨y, rfl⟩
    rw [(scalarWidth?_append (scalarWidth?_utf8EncodeChar c) y).1] at h
    cases h
  · intro h
    refine Option.eq_none_iff_forall_not_mem.mpr fun width hwidth => ?_
    obtain ⟨c, hc⟩ := exists_char_of_scalarWidth? hwidth
    exact h c (hc ▸ List.take_prefix width x)

/-- Where no scalar value is encoded in front, the first byte is the one at fault, if there is
one. -/
theorem firstInvalid?_of_scalarWidth? {x : Bytes} (h : scalarWidth? x = none) :
    firstInvalid? x = if x = [] then none else some 0 := by
  cases x with
  | nil => rfl
  | cons a x =>
    rw [firstInvalid?, firstInvalidFrom, h]
    rfl

/-- A code point in front moves the byte at fault on by its bytes. -/
theorem firstInvalid?_utf8EncodeChar_append (c : Char) (x : Bytes) :
    firstInvalid? (String.utf8EncodeChar c ++ x) =
      (firstInvalid? x).map (· + (String.utf8EncodeChar c).length) := by
  obtain ⟨lead, more, heq, -⟩ := exists_cons_utf8EncodeChar c
  have hwidth : scalarWidth? (lead :: (more ++ x)) = some (more.length + 1) := by
    have halone := scalarWidth?_utf8EncodeChar c
    rw [heq] at halone
    exact (scalarWidth?_append halone x).1
  rw [heq, List.cons_append, firstInvalid?, firstInvalidFrom, hwidth]
  dsimp only
  rw [firstInvalidFrom_eq_map, Nat.add_sub_cancel, List.drop_left, List.length_cons,
    Nat.add_comm more.length]

/-- Code points in front move the byte at fault on by their bytes. -/
theorem firstInvalid?_ofChars_append (cs : List Char) (x : Bytes) :
    firstInvalid? (ofChars cs ++ x) = (firstInvalid? x).map (· + (ofChars cs).length) := by
  induction cs with
  | nil => simp
  | cons c cs ih =>
    rw [ofChars_cons, List.append_assoc, firstInvalid?_utf8EncodeChar_append, ih, Option.map_map,
      List.length_append]
    congr 1
    funext k
    simp only [Function.comp_apply]
    omega

/-- Encodings of code points are UTF-8. -/
theorem firstInvalid?_ofChars (cs : List Char) : firstInvalid? (ofChars cs) = none := by
  have h := firstInvalid?_ofChars_append cs []
  rwa [List.append_nil] at h

/-- Any bytes begin with some code points, behind which no code point is encoded. -/
theorem exists_ofChars_append (x : Bytes) :
    ∃ cs y, x = ofChars cs ++ y ∧ scalarWidth? y = none := by
  -- by induction on the number of bytes, as a code point may have several
  generalize hn : x.length = n
  induction n using Nat.strongRecOn generalizing x with
  | ind n ih =>
    cases hwidth : scalarWidth? x with
    | none => exact ⟨[], x, rfl, hwidth⟩
    | some width =>
      obtain ⟨c, hc⟩ := exists_char_of_scalarWidth? hwidth
      have hparts : x = String.utf8EncodeChar c ++ x.drop width := by
        rw [← hc, List.take_append_drop]
      have hlt : (x.drop width).length < n := by
        obtain ⟨lead, more, hlead, -⟩ := exists_cons_utf8EncodeChar c
        have hlength := congrArg List.length hparts
        rw [hlead, List.length_append, hn, List.length_cons] at hlength
        omega
      obtain ⟨cs, y, hcs, hy⟩ := ih _ hlt (x.drop width) rfl
      exact ⟨c :: cs, y, by rw [ofChars_cons, List.append_assoc, ← hcs, ← hparts], hy⟩

/-- What is UTF-8 is the encoding of some code points. -/
theorem exists_ofChars_of_firstInvalid? {x : Bytes} (h : firstInvalid? x = none) :
    ∃ cs, x = ofChars cs := by
  obtain ⟨cs, y, rfl, hy⟩ := exists_ofChars_append x
  rw [firstInvalid?_ofChars_append, Option.map_eq_none_iff, firstInvalid?_of_scalarWidth? hy] at h
  split at h
  next hnil => exact ⟨cs, by rw [hnil, List.append_nil]⟩
  next => cases h

/-- The bytes that are UTF-8 are the encodings of code points. -/
theorem firstInvalid?_eq_none_iff {x : Bytes} : firstInvalid? x = none ↔ ∃ cs, x = ofChars cs := by
  constructor
  · exact exists_ofChars_of_firstInvalid?
  · rintro ⟨cs, rfl⟩
    exact firstInvalid?_ofChars cs

/-- The byte at fault is the one behind the code points that the bytes begin with: there is one, and
no code point is encoded from it on. -/
theorem firstInvalid?_eq_some_iff {x : Bytes} {k : Nat} :
    firstInvalid? x = some k ↔
      k < x.length ∧ (∃ cs, x.take k = ofChars cs) ∧ ∀ c, ¬ String.utf8EncodeChar c <+:
        x.drop k := by
  constructor
  · intro h
    obtain ⟨cs, y, rfl, hy⟩ := exists_ofChars_append x
    rw [firstInvalid?_ofChars_append, firstInvalid?_of_scalarWidth? hy] at h
    split at h
    next => cases h
    next hne =>
      obtain rfl : (ofChars cs).length = k := by simpa using h
      rw [List.take_left, List.drop_left, List.length_append]
      have hpos := List.length_pos_iff.mpr hne
      exact ⟨by omega, ⟨cs, rfl⟩, scalarWidth?_eq_none_iff.mp hy⟩
  · rintro ⟨hlt, ⟨cs, hcs⟩, hnone⟩
    have hne : x.drop k ≠ [] := by
      rw [ne_eq, List.drop_eq_nil_iff]
      omega
    have hlength : (ofChars cs).length = k := by
      rw [← hcs, List.length_take]
      omega
    rw [← List.take_append_drop k x, hcs, firstInvalid?_ofChars_append,
      firstInvalid?_of_scalarWidth? (scalarWidth?_eq_none_iff.mpr hnone), if_neg hne, hlength]
    simp

/-- The place of the first error lies within the text. -/
theorem firstInvalid?_lt {x : Bytes} {k : Nat} (h : firstInvalid? x = some k) : k < x.length :=
  (firstInvalid?_eq_some_iff.mp h).1

/-- The validation of UTF-8 is exact: no byte is at fault if and only if the bytes are the encodings
of some code points, and otherwise the byte at fault is the first one behind the code points that
the bytes begin with, from which on no code point is encoded. -/
theorem validation_exact (bytes : Bytes) :
    (firstInvalid? bytes = none ↔ ∃ cs, bytes = ofChars cs) ∧
      ∀ k, firstInvalid? bytes = some k ↔
        k < bytes.length ∧ (∃ cs, bytes.take k = ofChars cs) ∧
          ∀ c, ¬ String.utf8EncodeChar c <+: bytes.drop k :=
  ⟨firstInvalid?_eq_none_iff, fun _ => firstInvalid?_eq_some_iff⟩

/-- Behind a euro sign stands a surrogate, and no code point is encoded so. -/
example : firstInvalid? [0xE2, 0x82, 0xAC, 0xED, 0xA0, 0x80] = some 3 := by decide

/-! ## Texts -/

/-- There are as many code points as bytes that continue none. -/
theorem countP_ofChars (cs : List Char) :
    (ofChars cs).countP (fun b => !isContinuation b) = cs.length := by
  induction cs with
  | nil => rfl
  | cons c cs ih =>
    obtain ⟨lead, more, heq, hlead, hmore, -⟩ := exists_cons_utf8EncodeChar c
    -- of the bytes of the first code point the lead alone is counted
    have hnone : more.countP (fun b => !isContinuation b) = 0 :=
      List.countP_eq_zero.mpr fun b hb => by simp [hmore b hb]
    rw [ofChars_cons, heq, List.cons_append, List.countP_cons_of_pos (by simp [hlead]),
      List.countP_append, hnone, ih, List.length_cons, Nat.zero_add]

/-- The bytes of a text are its code points and the bytes that continue one. -/
theorem length_ofChars (cs : List Char) :
    (ofChars cs).length = cs.length + (ofChars cs).countP isContinuation := by
  have hcount := List.length_eq_countP_add_countP (fun b => !isContinuation b) (l := ofChars cs)
  rw [countP_ofChars] at hcount
  simpa using hcount

/-- No code point is encoded by no bytes. -/
theorem ofChars_eq_nil_iff {cs : List Char} : ofChars cs = [] ↔ cs = [] := by
  cases cs with
  | nil => simp
  | cons c cs =>
    obtain ⟨lead, more, heq, -⟩ := exists_cons_utf8EncodeChar c
    simp [heq]

/-! ## Where a text falls apart -/

variable {cs : List Char} {x y : Bytes}

/-- In front of a byte that continues no code point a text falls apart into two. -/
theorem exists_of_ofChars_eq_append (h : ofChars cs = x ++ y)
    (hy : ∀ b ∈ y.head?, isContinuation b = false) :
    ∃ before behind, cs = before ++ behind ∧ x = ofChars before ∧ y = ofChars behind := by
  induction cs generalizing x with
  | nil =>
    obtain ⟨rfl, rfl⟩ := List.append_eq_nil_iff.mp h.symm
    exact ⟨[], [], rfl, rfl, rfl⟩
  | cons c cs ih =>
    cases x with
    | nil => exact ⟨[], c :: cs, rfl, rfl, h.symm⟩
    | cons a x =>
      obtain ⟨lead, more, heq, -, hmore, -⟩ := exists_cons_utf8EncodeChar c
      rcases List.append_eq_append_iff.mp h with ⟨as, hx, hcs⟩ | ⟨bs, hc, hy'⟩
      · -- the first code point is one of the first part
        obtain ⟨before, behind, rfl, rfl, hbehind⟩ := ih hcs
        exact ⟨c :: before, behind, rfl, hx, hbehind⟩
      · -- the second part would begin within the first code point
        cases bs with
        | nil =>
          refine ⟨[c], cs, rfl, ?_, hy'⟩
          rw [ofChars_cons, ofChars_nil, List.append_nil, hc, List.append_nil]
        | cons b bs =>
          rw [heq, List.cons_append] at hc
          have hb : b ∈ more := by rw [(List.cons.inj hc).2]; simp
          have hcontinues := hy b (by rw [hy']; rfl)
          rw [hmore b hb] at hcontinues
          cases hcontinues

/-- An ASCII byte is a code point of its own. -/
theorem exists_of_ofChars_eq_append_cons {b : UInt8} (h : ofChars cs = x ++ b :: y)
    (hb : b < 0x80) :
    ∃ before behind, x = ofChars before ∧ y = ofChars behind := by
  obtain ⟨before, behind, -, hbefore, hbehind⟩ :=
    exists_of_ofChars_eq_append h (by rintro a ⟨⟩; exact isContinuation_of_ascii hb)
  cases behind with
  | nil => cases hbehind
  | cons c behind =>
    obtain ⟨lead, more, heq, -, -, halone⟩ := exists_cons_utf8EncodeChar c
    rw [ofChars_cons, heq, List.cons_append] at hbehind
    obtain ⟨rfl, hy⟩ := List.cons.inj hbehind
    -- a code point that begins with an ASCII byte has no other one
    rw [halone hb, List.nil_append] at hy
    exact ⟨before, behind, hbefore, hy⟩

end LosslessBasic.Utf8
