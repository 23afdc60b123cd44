import LosslessBasic.Grammar.Lookahead
import LosslessBasic.Proofs.Relocation
import LosslessBasic.Proofs.Token.Stream

/-!
# Looking along a line

`SameLine` relates tokens to relocated ones that need to be the same up to the end of the line only.
What the grammar looks ahead for does not reach further than that: related tokens show the same.
-/

namespace LosslessBasic

/-- Whether a kind ends whatever looks ahead along a line. -/
def EndsLook (k : Kind) : Prop := k = .trivia .newline ∨ k = .lexeme .endOfFile

/-- Tokens and relocated ones that are the same up to the end of the line. -/
inductive SameLine (r : Relocation) : List Token → List Token → Prop
  /-- The line ends. -/
  | stop {t : Token} (h : EndsLook t.kind) (rest rest' : List Token) :
    SameLine r (t :: rest) (r.token t :: rest')
  /-- The line goes on. -/
  | cons (t : Token) {rest rest' : List Token} (h : SameLine r rest rest') :
    SameLine r (t :: rest) (r.token t :: rest')

namespace SameLine

variable {r : Relocation} {tokens tokens' : List Token}

/-- Rows that share their tokens up to the end of a line are the same line. -/
theorem append {t : Token} (h : EndsLook t.kind) (front rest rest' : List Token) :
    SameLine r (front ++ t :: rest) (front.map r.token ++ r.token t :: rest') := by
  induction front with
  | nil => exact .stop h rest rest'
  | cons u front ih => exact .cons u ih

/-- The first token is the same. -/
theorem exists_cons (h : SameLine r tokens tokens') :
    ∃ t rest rest', tokens = t :: rest ∧ tokens' = r.token t :: rest' := by
  cases h with
  | stop _ rest rest' => exact ⟨_, rest, rest', rfl, rfl⟩
  | cons t => exact ⟨t, _, _, rfl, rfl⟩

/-- Behind a token that does not end it the line goes on. -/
theorem tail {t : Token} {rest : List Token} (h : SameLine r (t :: rest) tokens')
    (ht : ¬ EndsLook t.kind) : ∃ rest', tokens' = r.token t :: rest' ∧ SameLine r rest rest' := by
  cases h with
  | stop hstop => exact absurd hstop ht
  | cons _ h => exact ⟨_, rfl, h⟩

/-- Leaving out what does not end the line leaves the same line. -/
theorem dropWhile {f : Token → Bool} (hstop : ∀ t, EndsLook t.kind → f t = false)
    (hplace : ∀ t, f (r.token t) = f t) (h : SameLine r tokens tokens') :
    SameLine r (tokens.dropWhile f) (tokens'.dropWhile f) := by
  induction h with
  | stop hend rest rest' =>
    rw [List.dropWhile_cons_of_neg (by simp [hstop _ hend]),
      List.dropWhile_cons_of_neg (by simp [hplace, hstop _ hend])]
    exact .stop hend rest rest'
  | cons t h ih =>
    cases ht : f t with
    | true =>
      rw [List.dropWhile_cons_of_pos ht, List.dropWhile_cons_of_pos (by rw [hplace, ht])]
      exact ih
    | false =>
      rw [List.dropWhile_cons_of_neg (by simp [ht]),
        List.dropWhile_cons_of_neg (by simp [hplace, ht])]
      exact .cons t h

/-- The same line is left when tokens are taken out that do not end it. -/
theorem filter {f : Token → Bool} (hstop : ∀ t, EndsLook t.kind → f t = true)
    (hplace : ∀ t, f (r.token t) = f t) (h : SameLine r tokens tokens') :
    SameLine r (tokens.filter f) (tokens'.filter f) := by
  induction h with
  | stop hend rest rest' =>
    rw [List.filter_cons_of_pos (hstop _ hend),
      List.filter_cons_of_pos (by rw [hplace, hstop _ hend])]
    exact .stop hend _ _
  | cons t h ih =>
    cases ht : f t with
    | true =>
      rw [List.filter_cons_of_pos ht, List.filter_cons_of_pos (by rw [hplace, ht])]
      exact .cons t ih
    | false =>
      rw [List.filter_cons_of_neg (by simp [ht]), List.filter_cons_of_neg (by simp [hplace, ht])]
      exact ih

/-! ## The next tokens -/

section

variable {s s' : TokenStream}

/-- Streams on the same line have the same current token, moved. -/
theorem current (h : SameLine r s.rest s'.rest) : s'.current = r.token s.current := by
  obtain ⟨t, rest, rest', hrest, hrest'⟩ := h.exists_cons
  rw [(List.cons.inj hrest).1, (List.cons.inj hrest').1]

/-- The token behind one that does not end the line is the same. -/
theorem peek_one (h : SameLine r s.rest s'.rest) (hcurrent : ¬ EndsLook s.current.kind) :
    s'.peek 1 = r.token (s.peek 1) := by
  obtain ⟨rest', hrest', htail⟩ := h.tail hcurrent
  obtain ⟨t, more, more', hmore, hmore'⟩ := htail.exists_cons
  have hs : s.rest[1]? = some t := by
    rw [TokenStream.rest, List.getElem?_cons_succ, hmore]
    rfl
  have hs' : s'.rest[1]? = some (r.token t) := by
    rw [hrest', List.getElem?_cons_succ, hmore']
    rfl
  rw [TokenStream.peek_eq_of_getElem? hs, TokenStream.peek_eq_of_getElem? hs']

/-- The same line has the same words. -/
theorem filter_isSolid (h : SameLine r tokens tokens') :
    SameLine r (tokens.filter TokenStream.isSolid) (tokens'.filter TokenStream.isSolid) := by
  refine h.filter (fun t ht => ?_) fun _ => rfl
  rcases ht with ht | ht <;> simp [TokenStream.isSolid, ht, Kind.isInlineTrivia, Trivia.isInline]

/-- What comes next is the same. -/
theorem peekSignificant_zero (h : SameLine r s.rest s'.rest) :
    s'.peekSignificant 0 = r.token (s.peekSignificant 0) := by
  obtain ⟨t, rest, rest', hrest, hrest'⟩ := h.filter_isSolid.exists_cons
  rw [TokenStream.peekSignificant_eq, TokenStream.peekSignificant_eq, hrest, hrest']
  rfl

/-- What comes behind what comes next is the same unless the line has ended before. -/
theorem peekSignificant_one (h : SameLine r s.rest s'.rest)
    (hnext : ¬ EndsLook (s.peekSignificant 0).kind) :
    s'.peekSignificant 1 = r.token (s.peekSignificant 1) := by
  obtain ⟨t, rest, rest', hrest, -⟩ := h.filter_isSolid.exists_cons
  rw [TokenStream.peekSignificant_eq, hrest] at hnext
  have hsolid := h.filter_isSolid
  rw [hrest] at hsolid
  obtain ⟨more', hmore', htail⟩ := hsolid.tail hnext
  obtain ⟨u, rest₁, rest₁', hrest₁, hrest₁'⟩ := htail.exists_cons
  rw [TokenStream.peekSignificant_eq, TokenStream.peekSignificant_eq, hrest, hmore',
    hrest₁, hrest₁']
  rfl

end

/-! ## Looking further -/

open Lookahead

/-- The same line has the same kind in front. -/
theorem frontKind_eq (h : SameLine r tokens tokens') : frontKind tokens' = frontKind tokens := by
  obtain ⟨t, rest, rest', rfl, rfl⟩ := h.exists_cons
  rfl

theorem afterBlanks (h : SameLine r tokens tokens') :
    SameLine r (Lookahead.afterBlanks tokens) (Lookahead.afterBlanks tokens') := by
  refine h.dropWhile (fun t ht => ?_) fun _ => rfl
  rcases ht with ht | ht <;> rw [ht] <;> rfl

theorem afterModifiers (h : SameLine r tokens tokens') :
    SameLine r (Lookahead.afterModifiers tokens) (Lookahead.afterModifiers tokens') := by
  refine h.dropWhile (fun t ht => ?_) fun _ => rfl
  rcases ht with ht | ht <;> rw [ht] <;> rfl

theorem modifiedKind_eq (h : SameLine r tokens tokens') :
    modifiedKind tokens' = modifiedKind tokens :=
  h.afterModifiers.frontKind_eq

/-- Of two rows that are the same line both start a procedure or neither does. -/
theorem startsProcedure_eq (h : SameLine r tokens tokens') :
    startsProcedure tokens' = startsProcedure tokens := by
  have hline := h.afterModifiers
  unfold startsProcedure
  generalize Lookahead.afterModifiers tokens = rest at hline ⊢
  generalize Lookahead.afterModifiers tokens' = rest' at hline ⊢
  cases hline with
  | stop hend =>
    rcases hend with hend | hend <;> simp [hend]
  | cons t h =>
    dsimp only
    rw [h.afterBlanks.frontKind_eq]

/-- A group that is closed on the line ends at the same place. -/
theorem afterGroup? (h : SameLine r tokens tokens') (depth : Nat) :
    Option.Rel (SameLine r) (Lookahead.afterGroup? depth tokens)
      (Lookahead.afterGroup? depth tokens') := by
  induction h generalizing depth with
  | stop hend =>
    rcases hend with hend | hend <;> simp only [Lookahead.afterGroup?, hend] <;> exact .none
  | cons t h ih =>
    unfold Lookahead.afterGroup?
    dsimp only
    split
    · exact ih _
    · split
      · exact .some h
      · exact ih _
    · exact .none
    · exact .none
    · exact ih _

/-- An assignment that is recognised is so on its line. -/
theorem assignedAfterSuffixes_eq (h : SameLine r tokens tokens') (passes : Nat) :
    assignedAfterSuffixes passes tokens' = assignedAfterSuffixes passes tokens := by
  -- what a suffix is made of ends no look ahead, so behind it both rows are still the same line
  induction passes generalizing tokens tokens' with
  | zero => rfl
  | succ passes ih =>
    unfold assignedAfterSuffixes
    rw [h.frontKind_eq]
    split
    next hsign =>
      obtain ⟨t, rest, rest', rfl, rfl⟩ := h.exists_cons
      have ht : ¬ EndsLook t.kind := by
        rintro (ht | ht) <;> simp [frontKind, ht, isAccessSign] at hsign
      obtain ⟨_, heq, htail⟩ := h.tail ht
      obtain rfl := (List.cons.inj heq).2
      dsimp only [List.tail_cons]
      rw [htail.frontKind_eq]
      cases hname : (frontKind rest).isMemberName with
      | false => rfl
      | true =>
        obtain ⟨u, more, more', rfl, rfl⟩ := htail.exists_cons
        have hu : ¬ EndsLook u.kind := by
          rintro (hu | hu) <;> simp [frontKind, hu, Kind.isMemberName] at hname
        obtain ⟨_, heq', htail'⟩ := htail.tail hu
        obtain rfl := (List.cons.inj heq').2
        exact congrArg (true && ·) (ih htail')
    next =>
      have hline := h.afterBlanks
      generalize Lookahead.afterBlanks tokens = rest at hline ⊢
      generalize Lookahead.afterBlanks tokens' = rest' at hline ⊢
      cases hline with
      | stop hend => rcases hend with hend | hend <;> simp [hend]
      | @cons t rest rest' h =>
        dsimp only
        split
        · have hgroup := h.afterGroup? 1
          generalize Lookahead.afterGroup? 1 rest = group, Lookahead.afterGroup? 1 rest' = group'
            at hgroup ⊢
          cases hgroup with
          | none => rfl
          | some h => exact ih h
        · rfl

end SameLine

namespace Lookahead

/-- Behind a group fewer tokens are left. -/
theorem length_afterGroup? {depth : Nat} {tokens rest : List Token}
    (h : afterGroup? depth tokens = some rest) : rest.length < tokens.length := by
  induction tokens generalizing depth with
  | nil => cases h
  | cons t tokens ih =>
    unfold afterGroup? at h
    split at h
    · exact Nat.lt_succ_of_lt (ih h)
    · split at h
      · obtain rfl := Option.some.inj h
        exact Nat.lt_succ_self _
      · exact Nat.lt_succ_of_lt (ih h)
    · cases h
    · cases h
    · exact Nat.lt_succ_of_lt (ih h)

/-- Any bound above the number of tokens serves to look for an assignment. -/
theorem assignedAfterSuffixes_eq_of_lt {n m : Nat} {tokens : List Token} (hn : tokens.length < n)
    (hm : tokens.length < m) : assignedAfterSuffixes n tokens = assignedAfterSuffixes m tokens := by
  -- by induction on the passes: each of them takes a token, so the rest has enough of them too
  induction n generalizing m tokens with
  | zero => omega
  | succ n ih =>
    obtain _ | m := m
    · omega
    unfold assignedAfterSuffixes
    split
    next hsign =>
      cases tokens with
      | nil => cases hsign
      | cons t rest =>
        have hdrop : ((t :: rest).drop 2).length < (t :: rest).length := by
          simp only [List.length_drop, List.length_cons]
          omega
        exact congrArg (_ && ·) (ih (by omega) (by omega))
    next =>
      have hle : (afterBlanks tokens).length ≤ tokens.length := (List.dropWhile_suffix _).length_le
      cases hblanks : afterBlanks tokens with
      | nil => rfl
      | cons t rest =>
        rw [hblanks, List.length_cons] at hle
        dsimp only
        split
        · cases hgroup : afterGroup? 1 rest with
          | none => rfl
          | some more =>
            have hlt := length_afterGroup? hgroup
            exact ih (by omega) (by omega)
        · rfl

end Lookahead

namespace SameLine

open Lookahead

/-- Looking for an assignment needs no more passes than there are tokens ahead. -/
theorem assignedAfterSuffixes_eq_of_bound {r : Relocation} {tokens tokens' : List Token}
    (h : SameLine r tokens tokens') {n n' : Nat} (hn : tokens.length < n)
    (hn' : tokens'.length < n') :
    assignedAfterSuffixes n' tokens' = assignedAfterSuffixes n tokens := by
  have hmax : tokens.length < max n n' ∧ tokens'.length < max n n' := by omega
  rw [assignedAfterSuffixes_eq_of_lt hn hmax.1, assignedAfterSuffixes_eq_of_lt hn' hmax.2,
    h.assignedAfterSuffixes_eq]

/-- The tokens behind the first one that is no blank are no more than are ahead. -/
theorem length_lt_of_afterBlanks {s : TokenStream} {t : Token} {rest : List Token}
    (h : Lookahead.afterBlanks s.rest = t :: rest) : rest.length < s.remaining + 1 := by
  have hle : (Lookahead.afterBlanks s.rest).length ≤ s.rest.length :=
    (List.dropWhile_suffix _).length_le
  rw [h, List.length_cons, TokenStream.length_rest] at hle
  omega

/-- An assignment that starts at the cursor does so on its line. -/
theorem startsAssignment_eq {r : Relocation} {s s' : TokenStream} (h : SameLine r s.rest s'.rest) :
    startsAssignment s' = startsAssignment s := by
  have hline := h.afterBlanks
  unfold startsAssignment
  cases hrest : Lookahead.afterBlanks s.rest with
  | nil =>
    rw [hrest] at hline
    cases hline
  | cons t rest =>
    have hbound := length_lt_of_afterBlanks hrest
    rw [hrest] at hline
    -- both looks end where the line does, and behind any other token the lines are still the same
    by_cases ht : EndsLook t.kind
    · obtain ⟨_, _, rest', heq, hrest'⟩ := hline.exists_cons
      obtain ⟨rfl, -⟩ := List.cons.inj heq
      rw [hrest']
      rcases ht with ht | ht <;> simp [ht, isAccessSign, Kind.isNameLike]
    · obtain ⟨rest', hrest', htail⟩ := hline.tail ht
      have hbound' := length_lt_of_afterBlanks hrest'
      rw [hrest']
      dsimp only
      split
      · rw [htail.frontKind_eq]
        cases hname : (frontKind rest).isMemberName with
        | false => rfl
        | true =>
          obtain ⟨u, more, more', rfl, rfl⟩ := htail.exists_cons
          have hu : ¬ EndsLook u.kind := by
            rintro (hu | hu) <;> simp [frontKind, hu, Kind.isMemberName] at hname
          obtain ⟨_, heq, htail'⟩ := htail.tail hu
          obtain rfl := (List.cons.inj heq).2
          rw [List.length_cons] at hbound hbound'
          exact congrArg (true && ·)
            (htail'.assignedAfterSuffixes_eq_of_bound (by omega) (by omega))
      · exact congrArg (_ && ·) (htail.assignedAfterSuffixes_eq_of_bound hbound hbound')

end SameLine

/-- The end marker is where looking ahead ends, so relocating all tokens changes nothing of it. -/
theorem TokenStream.sameLine_map (s : TokenStream) (r : Relocation) :
    SameLine r s.rest (s.rest.map r.token) := by
  obtain ⟨tokens, last, hrest⟩ : ∃ tokens last, s.rest = tokens ++ [last] :=
    ⟨_, _, (List.dropLast_concat_getLast (List.cons_ne_nil s.current s.ahead)).symm⟩
  have hlast : EndsLook last.kind := by
    have hends : (s.rest.getLast (List.cons_ne_nil s.current s.ahead)).kind =
        .lexeme .endOfFile := s.ends
    exact .inr (by simpa [hrest] using hends)
  rw [hrest, List.map_append]
  exact .append hlast tokens [] []

end LosslessBasic
