import LosslessBasic.Proofs.Lexer.TokensRespelled
import Mathlib.Data.List.Forall2

/-!
# Sources in another spelling

A source and the same source in another spelling have tokens of the same kinds, one by one. What
their texts and places have to do with each other is known when it is known of texts that spell each
other (`Lexer.forall₂_tokensFrom`): a `Retelling` is a spelling together with what it tells.
-/

namespace LosslessBasic.Lexer

open Bytes Ascii Respelling

/-- A spelling that tells a whole text, and what it tells of texts and positions. -/
structure Retelling extends Respelling where
  /-- No part of the text is left out. -/
  whole (y y' : Bytes) : ¬ toRespelling.cut y y'
  /-- What is told of a text. -/
  told : Bytes → Bytes
  /-- What is told of a text in the other spelling. -/
  told' : Bytes → Bytes
  told_append (x y : Bytes) : told (x ++ y) = told x ++ told y
  told'_append (x y : Bytes) : told' (x ++ y) = told' x ++ told' y
  /-- Of texts that spell each other, the same is told. -/
  told_eq {x x' : Bytes} : toRespelling.Spells x x' → told x = told' x'
  /-- Which positions stand for each other. -/
  place : Position → Position → Prop
  /-- The positions behind texts that stand for each other do so, too. -/
  place_after {p p' : Position} {u v u' v' : Bytes} : place p p' → told u = told' u' →
    toRespelling.Spells (u ++ v) (u' ++ v') → toRespelling.Spells v v' →
      place (p.after u.length (u ++ v)) (p'.after u'.length (u' ++ v'))

/-- Two tokens that stand for each other. -/
structure Retells (r : Retelling) (file : UInt32) (t t' : Token) : Prop where
  /-- They are of one kind. -/
  kind : t'.kind = t.kind
  /-- The same is told of their texts. -/
  text : r.told t.text = r.told' t'.text
  /-- They stand at positions that stand for each other. -/
  place : ∃ p p', r.place p p' ∧ t.offset = p.offset.toUInt32 ∧ t.loc = p.locate file ∧
    t'.offset = p'.offset.toUInt32 ∧ t'.loc = p'.locate file

variable {r : Retelling} {file : UInt32} {x x' : Bytes} {p p' : Position}

theorem after_length_take (p : Position) (n : Nat) (x : Bytes) :
    p.after (x.take n).length x = p.after n x := by
  induction n generalizing p x with
  | zero => rfl
  | succ n ih =>
    cases x with
    | nil => rfl
    | cons c x => exact ih _ x

/-- Two sources that spell each other have tokens that stand for each other. -/
theorem forall₂_tokensFrom (h : r.Spells x x') (hp : r.place p p') :
    List.Forall₂ (Retells r file) (tokensFrom file 0 p x) (tokensFrom file 0 p' x') := by
  generalize hn : x.length = n
  induction n using Nat.strongRecOn generalizing x x' p p' with
  | ind n ih =>
    cases x with
    | nil =>
      obtain rfl := h.eq_nil_iff.mp rfl
      exact .cons ⟨rfl, r.told_eq h, p, p', hp, rfl, rfl, rfl, rfl⟩ .nil
    | cons c rest =>
      obtain ⟨c', rest', rfl⟩ : ∃ c' rest', x' = c' :: rest' :=
        List.exists_cons_of_ne_nil fun hnil => List.cons_ne_nil c rest (h.eq_nil_iff.mpr hnil)
      obtain ⟨hkind, hbehind⟩ := scan_spells h fun ⟨_, y, y', hcut, _⟩ => r.whole y y' hcut
      have htext (c : UInt8) (rest : Bytes) :
          c :: rest.take ((scan c rest).2 - 1) = (c :: rest).take (scan c rest).2 := by
        rw [← List.take_succ_cons, Nat.sub_add_cancel (scan_pos c rest)]
      have hdrop (c : UInt8) (rest : Bytes) :
          rest.drop ((scan c rest).2 - 1) = (c :: rest).drop (scan c rest).2 := by
        rw [← List.drop_succ_cons (a := c), Nat.sub_add_cancel (scan_pos c rest)]
      have hafter (p : Position) (c : UInt8) (rest : Bytes) :
          (p.step c rest.head?).after ((scan c rest).2 - 1) rest =
            p.after ((c :: rest).take (scan c rest).2).length (c :: rest) := by
        rw [after_length_take]
        obtain ⟨k, hk⟩ := Nat.exists_eq_succ_of_ne_zero (Nat.ne_of_gt (scan_pos c rest))
        rw [hk]
        rfl
      -- what is told of the first tokens is what is told of the sources without what is behind them
      have htold : r.told ((c :: rest).take (scan c rest).2) =
          r.told' ((c' :: rest').take (scan c' rest').2) := by
        have hwhole := r.told_eq h
        rw [← List.take_append_drop (scan c rest).2 (c :: rest),
          ← List.take_append_drop (scan c' rest').2 (c' :: rest'), r.told_append, r.told'_append,
          r.told_eq hbehind] at hwhole
        exact List.append_cancel_right hwhole
      have hplace : r.place ((p.step c rest.head?).after ((scan c rest).2 - 1) rest)
          ((p'.step c' rest'.head?).after ((scan c' rest').2 - 1) rest') := by
        have hplaced :=
          r.place_after hp htold (by rwa [List.take_append_drop, List.take_append_drop])
          hbehind
        rwa [List.take_append_drop, List.take_append_drop, ← hafter, ← hafter] at hplaced
      rw [tokensFrom_cons, tokensFrom_cons]
      refine .cons ⟨hkind, ?_, p, p', hp, rfl, rfl, rfl, rfl⟩ (ih _ ?_ ?_ hplace rfl)
      · unfold tokenAt
        rwa [htext, htext]
      · rw [List.length_drop, ← hn, List.length_cons]
        omega
      · rwa [hdrop, hdrop]

end LosslessBasic.Lexer
