import LosslessBasic.Kind.Keyword.Lookup
import Mathlib.Data.List.Chain

/-!
# Keywords are found by their spelling

The words of the table are the spellings of the keywords in upper case (`Keyword.table_eq_all`), and
they ascend (`Keyword.ascends_table`). So the half of a window that the search gives up cannot hold
the word, and a word that stands in the table is found in it (`Keyword.Ascends.search_eq_some_iff`).
No word that is too long for the buffer is that of a keyword.

## Main results

* `Keyword.ofWord?_eq_some_iff`: a word is that of a keyword if it is spelled like it.
* `Kind.ofWord_spelled`: the kind of a word is that of the keyword spelled like it, or an
  identifier.
-/

namespace LosslessBasic

set_option maxRecDepth 4000

open Ascii

/-! ## The order of byte strings -/

namespace Bytes

/-- The order of byte strings is the lexicographic one. -/
theorem precedes_iff_lt {a b : Bytes} : precedes a b = true ↔ a < b := by
  induction a generalizing b with
  | nil => cases b <;> simp [precedes]
  | cons c a ih =>
    cases b with
    | nil => simp [precedes]
    | cons d b => simp [precedes, List.cons_lt_cons_iff, ih]

/-- What precedes a word precedes what that word precedes. -/
theorem precedes_trans {a b c : Bytes} (hab : precedes a b = true) (hbc : precedes b c = true) :
    precedes a c = true := by
  rw [precedes_iff_lt] at hab hbc ⊢
  exact List.lt_trans hab hbc

/-- No word precedes itself. -/
theorem precedes_irrefl {a : Bytes} : ¬ precedes a a = true := fun h =>
  List.lt_irrefl a (precedes_iff_lt.mp h)

end Bytes

namespace Keyword

open Bytes

/-! ## Searching a table -/

section

variable {α : Type} {table : Array (Bytes × α)} {word word' : Bytes} {a b : α} {i j : Nat}

/-- Whether the words of a table ascend, each of them to the next. -/
def Ascends (table : Array (Bytes × α)) : Prop :=
  table.toList.IsChain fun e f => precedes e.1 f.1 = true

/-- In a table of which the words ascend a word comes before all words behind it. -/
theorem Ascends.precedes (h : Ascends table) (hi : table[i]? = some (word, a))
    (hj : table[j]? = some (word', b)) (hij : i < j) : Bytes.precedes word word' = true := by
  let Before (e f : Bytes × α) : Prop := Bytes.precedes e.1 f.1 = true
  have : Trans Before Before Before := ⟨precedes_trans⟩
  have hpairwise : table.toList.Pairwise Before := List.IsChain.pairwise h
  rw [← Array.getElem?_toList] at hi hj
  obtain ⟨hilt, hi⟩ := List.getElem?_eq_some_iff.mp hi
  obtain ⟨hjlt, hj⟩ := List.getElem?_eq_some_iff.mp hj
  have hbefore := List.pairwise_iff_getElem.mp hpairwise i j hilt hjlt hij
  rwa [hi, hj] at hbefore

/-- It holds no word twice. -/
theorem Ascends.unique (h : Ascends table) (hi : table[i]? = some (word, a))
    (hj : table[j]? = some (word, b)) : i = j := by
  rcases Nat.lt_trichotomy i j with hlt | rfl | hgt
  · exact absurd (h.precedes hi hj hlt) precedes_irrefl
  · rfl
  · exact absurd (h.precedes hj hi hgt) precedes_irrefl

/-- What is found stands in the table. -/
theorem exists_of_searchWithin {passes low high : Nat}
    (h : searchWithin table word passes low high = some a) :
    ∃ i : Nat, table[i]? = some (word, a) := by
  induction passes generalizing low high with
  | zero => cases h
  | succ passes ih =>
    unfold searchWithin at h
    dsimp only at h
    split at h
    · split at h
      · cases h
      next entry value hentry =>
        split at h
        next heq =>
          obtain rfl := Option.some.inj h
          exact ⟨_, by rw [hentry, beq_iff_eq.mp heq]⟩
        · split at h <;> exact ih h
    · cases h

/-- What stands in the window is found in it, if the words of the table ascend. -/
theorem Ascends.searchWithin_eq_some (h : Ascends table) (hi : table[i]? = some (word, a))
    {passes low high : Nat} (hlow : low ≤ i) (hhigh : i < high) (hpasses : high - low < passes)
    (hsize : high ≤ table.size) : searchWithin table word passes low high = some a := by
  induction passes generalizing low high with
  | zero => omega
  | succ passes ih =>
    obtain ⟨⟨entry, value⟩, hentry⟩ : ∃ e, table[low + (high - low) / 2]? = some e :=
      ⟨_, Array.getElem?_eq_getElem (by omega)⟩
    unfold searchWithin
    dsimp only
    rw [if_pos (by omega), hentry]
    dsimp only
    by_cases heq : entry = word
    · subst heq
      rw [h.unique hentry hi, hi] at hentry
      rw [if_pos (beq_self_eq_true _), (Prod.mk.inj (Option.some.inj hentry)).2]
    · have hne : low + (high - low) / 2 ≠ i := by
        rintro rfl
        rw [hi] at hentry
        exact heq (Prod.mk.inj (Option.some.inj hentry)).1.symm
      rw [if_neg (by simpa using heq)]
      split
      next hbefore =>
        -- in front of the middle the word would come before itself
        have hge : ¬ i < low + (high - low) / 2 := fun hlt =>
          precedes_irrefl (precedes_trans (h.precedes hi hentry hlt) hbefore)
        exact ih (by omega) hhigh (by omega) hsize
      next hbefore =>
        -- behind the middle the word would come after it
        have hle : ¬ low + (high - low) / 2 < i := fun hlt => hbefore (h.precedes hentry hi hlt)
        exact ih hlow (by omega) (by omega) (by omega)

/-- The search in a table of which the words ascend finds what stands in it, and nothing else. -/
theorem Ascends.search_eq_some_iff (h : Ascends table) :
    search table word = some a ↔ (word, a) ∈ table := by
  rw [Array.mem_iff_getElem?]
  constructor
  · exact exists_of_searchWithin
  · rintro ⟨i, hi⟩
    have hlt : i < table.size := (Array.getElem?_eq_some_iff.mp hi).1
    exact h.searchWithin_eq_some hi (Nat.zero_le i) hlt (Nat.lt_succ_self _) (Nat.le_refl _)

end

/-! ## The table of keywords -/

variable {word : Bytes} {k : Keyword}

/-- Every keyword is one of those that are listed. -/
theorem mem_all (k : Keyword) : k ∈ all := by
  have h : all[k.ctorIdx]? = some k := by cases k <;> rfl
  exact List.mem_of_getElem? h

/-- The words of the table ascend. -/
theorem ascends_table : Ascends table := by
  unfold Ascends
  decide +kernel

/-- The table holds each keyword once, with its spelling in upper case. -/
theorem table_eq_all : table.toList = all.map fun k => ((ofString k.spelling).map upper, k) := by
  decide +kernel

/-- The table holds each keyword under its spelling, in capitals. -/
theorem mem_table_iff : (word, k) ∈ table ↔ word = (ofString k.spelling).map upper := by
  rw [← Array.mem_toList_iff, table_eq_all]
  constructor
  · intro h
    obtain ⟨k', -, heq⟩ := List.mem_map.mp h
    obtain ⟨rfl, rfl⟩ := Prod.mk.inj heq
    rfl
  · rintro rfl
    exact List.mem_map.mpr ⟨k, k.mem_all, rfl⟩

/-! ## The buffer -/

/-- A word that fits into the buffer is written there in capitals. -/
theorem take_overwrite {word buffer : Bytes} (h : word.length ≤ buffer.length) :
    (overwrite word buffer).take word.length = word.map upper := by
  induction word generalizing buffer with
  | nil => rfl
  | cons c word ih =>
    cases buffer with
    | nil => simp at h
    | cons d buffer => simp [overwrite, ih (Nat.le_of_succ_le_succ h)]

/-- A word that fits into the buffer is brought to upper case by it. -/
theorem buffered_eq (h : word.length ≤ longest) : buffered word = word.map upper :=
  take_overwrite (by rwa [List.length_replicate])

/-- A word is looked up by its letters, not by their case. -/
theorem ofWord?_eq_of_map_upper {word word' : Bytes} (h : word'.map upper = word.map upper) :
    ofWord? word' = ofWord? word := by
  have hlength : word'.length = word.length := by simpa using congrArg List.length h
  have hempty : word'.isEmpty = word.isEmpty := by simpa using congrArg List.isEmpty h
  unfold ofWord?
  rw [hlength, hempty]
  split
  · rfl
  next hfits =>
    rw [Bool.or_eq_true, not_or, decide_eq_true_eq, Nat.not_lt] at hfits
    rw [buffered_eq (hlength ▸ hfits.2), buffered_eq hfits.2, h]

/-- The spelling of a keyword is looked up. -/
theorem length_spelling (k : Keyword) :
    (ofString k.spelling).isEmpty = false ∧ (ofString k.spelling).length ≤ longest := by
  have hall : ∀ k ∈ all, (ofString k.spelling).isEmpty = false ∧ (ofString k.spelling).length ≤
      longest := by
    decide +kernel
  exact hall k k.mem_all

/-- A word is that of a keyword if it is spelled like it, up to the case of letters. -/
theorem ofWord?_eq_some_iff :
    ofWord? word = some k ↔ equalIgnoringCase word (ofString k.spelling) = true := by
  rw [equalIgnoringCase, beq_iff_eq]
  unfold ofWord?
  split
  next hunfit =>
    -- a word that is not looked up is shorter or longer than the spelling
    refine iff_of_false (Option.some_ne_none k).symm fun h => ?_
    obtain ⟨hempty, hlong⟩ := length_spelling k
    have hlength : word.length = (ofString k.spelling).length := by
      simpa using congrArg List.length h
    rw [Bool.or_eq_true, decide_eq_true_eq, hlength] at hunfit
    rcases hunfit with hnil | hlonger
    · rw [List.isEmpty_iff.mp hnil] at hlength
      rw [List.length_eq_zero_iff.mp hlength.symm] at hempty
      cases hempty
    · exact absurd hlong (Nat.not_le.mpr hlonger)
  next hfits =>
    rw [Bool.or_eq_true, not_or, decide_eq_true_eq, Nat.not_lt] at hfits
    rw [buffered_eq hfits.2, ascends_table.search_eq_some_iff, mem_table_iff]

end Keyword

/-- A word is of the kind of the keyword that is spelled like it, up to the case of letters; it is
an identifier if there is none. -/
theorem Kind.ofWord_spelled (word : Bytes) :
    (∀ k : Keyword, Kind.ofWord word = .keyword k ↔
      equalIgnoringCase word (Bytes.ofString k.spelling) = true) ∧
    (Kind.ofWord word = .lexeme .identifier ↔
      ∀ k : Keyword, equalIgnoringCase word (Bytes.ofString k.spelling) = false) := by
  unfold Kind.ofWord
  simp only [← Keyword.ofWord?_eq_some_iff, ← Bool.not_eq_true]
  cases Keyword.ofWord? word with
  | none => simp
  | some k' => simp

end LosslessBasic
