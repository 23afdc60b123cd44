import LosslessBasic.Proofs.Lexer.Respelling
import Mathlib.Computability.Language
import Mathlib.Data.List.TakeWhile

/-!
# Languages of byte strings

The words from which the grammars of literals are put together: runs of bytes of a class and single
bytes. The readers of `Lexer.scan` take runs as far as they go, so a run is read in front of any
text that starts with no byte of its class (`Bytes.takeWhile_append_of_front`).
-/

namespace LosslessBasic.Bytes

/-- The runs of bytes of a class, of one byte at least. -/
def runs (p : UInt8 → Bool) : Language UInt8 := {x | x ≠ [] ∧ ∀ c ∈ x, p c = true}

/-- The texts of one byte, which is one of the given ones. -/
def oneOf (cs : List UInt8) : Language UInt8 := {x | ∃ c ∈ cs, x = [c]}

variable {p : UInt8 → Bool} {cs : List UInt8} {a x y : Bytes} {l : Language UInt8}

theorem mem_runs_iff : x ∈ runs p ↔ x ≠ [] ∧ ∀ c ∈ x, p c = true := Iff.rfl

theorem singleton_mem_oneOf {c : UInt8} (h : c ∈ cs) : [c] ∈ oneOf cs := ⟨c, h, rfl⟩

/-- A part that may be left out. -/
theorem mem_one_add_iff : x ∈ 1 + l ↔ x = [] ∨ x ∈ l := by
  rw [Language.mem_add, Language.mem_one]

/-- The empty text may always be left out. -/
theorem nil_mem_one_add : [] ∈ 1 + l := mem_one_add_iff.mpr (.inl rfl)

/-- Any number of bytes of a class. -/
theorem mem_one_add_runs_iff : x ∈ 1 + runs p ↔ ∀ c ∈ x, p c = true := by
  rw [mem_one_add_iff, mem_runs_iff]
  constructor
  · rintro (rfl | ⟨-, h⟩)
    · simp
    · exact h
  · intro h
    by_cases hx : x = []
    · exact .inl hx
    · exact .inr ⟨hx, h⟩

/-! ## Fronts -/

theorem front_cons (c : UInt8) (x : Bytes) : front (c :: x) = c := rfl

/-- The byte in front of a text is that of its first part, unless that is empty. -/
theorem front_append (hx : x ≠ []) (y : Bytes) : front (x ++ y) = front x := by
  cases x with
  | nil => exact absurd rfl hx
  | cons c x => rfl

/-- The front of two texts is in no class that neither of their fronts is in. -/
theorem front_append_eq_false (hx : ∀ c ∈ x.head?, p c = false) (hy : p (front y) = false) :
    p (front (x ++ y)) = false := by
  cases x with
  | nil => exact hy
  | cons c x => exact hx c rfl

/-- A run starts with one of its bytes. -/
theorem front_of_mem_runs (h : x ∈ runs p) (y : Bytes) : p (front (x ++ y)) = true := by
  cases x with
  | nil => exact absurd rfl h.1
  | cons c x => exact h.2 c List.mem_cons_self

/-- A text of which the front is in a class has a front. -/
theorem eq_front_cons_tail (hp : p 0 = false) (h : p (front x) = true) : x = front x :: x.tail := by
  cases x with
  | nil =>
    rw [front, List.headD_nil, hp] at h
    cases h
  | cons c x => rfl

/-! ## Reading runs -/

/-- The bytes that pass a test end where the first one fails it. -/
theorem takeWhile_append_of_front (ha : ∀ c ∈ a, p c = true) (hy : p (front y) = false) :
    (a ++ y).takeWhile p = a ∧ (a ++ y).dropWhile p = y := by
  rw [List.takeWhile_append_of_pos ha, List.dropWhile_append_of_pos ha]
  cases y with
  | nil => simp
  | cons c y =>
    have hc : p c = false := hy
    simp [hc]

/-- The bytes that pass a test from the front on are a run. -/
theorem takeWhile_mem_runs (hp : p 0 = false) (h : p (front x) = true) :
    x.takeWhile p ∈ runs p := by
  refine ⟨?_, fun c => List.mem_takeWhile_imp⟩
  rw [eq_front_cons_tail hp h, List.takeWhile_cons_of_pos h]
  exact List.cons_ne_nil _ _

/-- Behind the bytes of a class stands none of them. -/
theorem front_dropWhile (hp : p 0 = false) (x : Bytes) : p (front (x.dropWhile p)) = false := by
  induction x with
  | nil => exact hp
  | cons c x ih =>
    rw [List.dropWhile_cons]
    split
    · exact ih
    next hc => exact Bool.eq_false_iff.mpr hc

/-! ## Cut texts -/

/-- As many bytes as pass a test in front are those that pass it. -/
theorem take_length_takeWhile (p : UInt8 → Bool) (x : Bytes) :
    x.take (x.takeWhile p).length = x.takeWhile p :=
  (List.prefix_iff_eq_take.mp (List.takeWhile_prefix p)).symm

/-- What is taken of a text starts as the text does. -/
theorem front_take_of_pos {n : Nat} (hn : 0 < n) (x : Bytes) : front (x.take n) = front x := by
  obtain ⟨n, rfl⟩ := Nat.exists_eq_add_one_of_ne_zero hn.ne'
  cases x <;> rfl

/-- A text does not come into a class by being cut. -/
theorem front_take_eq_false (hp : p 0 = false) (h : p (front x) = false) (n : Nat) :
    p (front (x.take n)) = false := by
  rcases Nat.eq_zero_or_pos n with rfl | hn
  · exact hp
  · rw [front_take_of_pos hn, h]

end LosslessBasic.Bytes
