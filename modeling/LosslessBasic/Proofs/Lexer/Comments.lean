import LosslessBasic.Proofs.Lexer.Append
import LosslessBasic.Proofs.Token.Line
import Mathlib.Data.List.Chain

/-!
# Comments end their lines

A comment has all the bytes up to the end of its line, so the token behind it is a line break or the
end marker (`commentsEndLines_tokens`).
-/

namespace LosslessBasic

/-- Whether the token behind a comment ends the line. -/
def CommentsEndLines (tokens : List Token) : Prop :=
  tokens.IsChain fun t u => t.kind.isComment = true → EndsLook u.kind

namespace Lexer

/-- A comment is as wide as the rest of its line. -/
theorem width_of_isComment {c : UInt8} {rest : Bytes} (h : (scan c rest).1.isComment = true) :
    (scan c rest).2 = lineWidth (c :: rest) ∧ Ascii.isLineBreak c = false := by
  have hlexeme (found : Lexeme × Nat) : (found.map Kind.lexeme id).1.isComment = false := rfl
  unfold scan at h ⊢
  dsimp only at h ⊢
  by_cases hbreak : Ascii.isLineBreak c = true
  · rw [if_pos hbreak] at h
    cases h
  rw [if_neg hbreak] at h ⊢
  have hfalse : Ascii.isLineBreak c = false := by simpa using hbreak
  split at h
  next hquote => rw [if_pos hquote]; exact ⟨rfl, hfalse⟩
  next hquote =>
    rw [if_neg hquote]
    split at h
    next hrem => rw [if_pos hrem]; exact ⟨rfl, hfalse⟩
    next hrem =>
      -- what is left are kinds of other tokens
      exfalso
      revert h
      split; · rw [hlexeme]; rintro ⟨⟩
      split; · rw [hlexeme]; rintro ⟨⟩
      split; · rintro ⟨⟩
      split; · rw [hlexeme]; rintro ⟨⟩
      split; · rw [hlexeme]; rintro ⟨⟩
      split
      · unfold word
        dsimp only
        split
        · rintro ⟨⟩
        · split
          · rintro ⟨⟩
          · split <;> rintro ⟨⟩
      split
      · rintro ⟨⟩
      · rw [hlexeme]; rintro ⟨⟩

/-- Behind the first part of a list that passes a test nothing passes it. -/
theorem head?_drop_takeWhile {p : UInt8 → Bool} {bytes : Bytes} {d : UInt8}
    (h : (bytes.drop (bytes.takeWhile p).length).head? = some d) : p d = false := by
  induction bytes with
  | nil => cases h
  | cons c rest ih =>
    rw [List.takeWhile_cons] at h
    split at h
    · exact ih h
    next hc =>
      obtain rfl := Option.some.inj h
      simpa using hc

/-- Behind the bytes of a comment the line ends. -/
theorem isLineBreak_behind_comment {c d : UInt8} {rest : Bytes}
    (h : (scan c rest).1.isComment = true)
    (hdrop : (rest.drop ((scan c rest).2 - 1)).head? = some d) : Ascii.isLineBreak d = true := by
  obtain ⟨hwidth, hbreak⟩ := width_of_isComment h
  have hline :
      lineWidth (c :: rest) = (rest.takeWhile fun c => !Ascii.isLineBreak c).length + 1 := by
    simp [lineWidth, hbreak]
  rw [hwidth, hline, Nat.add_sub_cancel] at hdrop
  simpa using head?_drop_takeWhile hdrop

theorem commentsEndLines_tokensFrom (file : UInt32) (p : Position) (bytes : Bytes) :
    CommentsEndLines (tokensFrom file 0 p bytes) := by
  generalize hn : bytes.length = n
  induction n using Nat.strongRecOn generalizing bytes p with
  | ind n ih =>
    cases bytes with
    | nil => exact List.isChain_singleton _
    | cons c rest =>
      rw [tokensFrom_cons]
      refine List.isChain_cons.mpr ⟨fun u hu hcomment => ?_, ih _ ?_ _ _ rfl⟩
      · generalize hbehind : rest.drop ((scan c rest).2 - 1) = behind at hu
        cases behind with
        | nil =>
          obtain rfl := Option.some.inj hu
          exact .inr rfl
        | cons d more =>
          have hbreak : Ascii.isLineBreak d = true :=
            isLineBreak_behind_comment hcomment (by rw [hbehind]; rfl)
          rw [tokensFrom_cons] at hu
          obtain rfl := Option.some.inj hu
          exact .inl (congrArg Prod.fst (scan_of_isLineBreak hbreak more))
      · rw [List.length_drop, ← hn, List.length_cons]
        omega

/-- The comments of a source end their lines. -/
theorem commentsEndLines_tokens (source : Bytes) (file : UInt32) :
    CommentsEndLines (tokens source file) := by
  rw [tokens_eq]
  exact commentsEndLines_tokensFrom file {} source

end Lexer

end LosslessBasic
