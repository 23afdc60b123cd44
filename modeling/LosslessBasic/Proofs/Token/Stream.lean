import LosslessBasic.Token.Stream

/-!
# Moving through a token stream

What `advance` does to the tokens from the cursor on: it drops the first of them, unless that is the
end marker at the end of the stream. Some of the tokens are trivia, and some trivia stands between
the tokens of a statement.

A token stream keeps the tokens in front of its cursor apart from those that are still ahead. From
outside it is a list of tokens that stays what it is, with an index into it: moving the cursor
changes the index alone (`tokens_moved`, `position_moved`), and what is asked of the stream is
answered by the list at that index. Looking ahead for what means something counts the tokens that
are no inline trivia. The end marker is none, so the count comes to an end with it at the latest.

## Main definitions

* `TokenStream.Move` and `TokenStream.moved`: what moves a cursor, and runs of it;
* `TokenStream.StandsAt`: what a stream answers whose cursor stands at an index.

## Main results

* `TokenStream.standsAt_moved`: every run of moves over given tokens leads to such a stream;
* `TokenStream.peek_before_cursor`: looking too far ahead leads back to the first tokens.
-/

namespace LosslessBasic

/-! ## Kinds of trivia -/

namespace Kind

variable {k : Kind}

/-- A kind with a property that the end marker does not have is not that of the end marker. -/
theorem ne_endOfFile_of {f : Kind → Bool} (h : f k = true)
    (hend : f (.lexeme .endOfFile) = false) : k ≠ .lexeme .endOfFile := by
  rintro rfl
  exact Bool.false_ne_true (hend.symm.trans h)

/-- Inline trivia is a blank or a line that is continued. -/
theorem eq_of_isInlineTrivia (h : k.isInlineTrivia = true) :
    k = .trivia .whitespace ∨ k = .trivia .lineContinuation := by
  match k, h with
  | .trivia .whitespace, _ => exact .inl rfl
  | .trivia .lineContinuation, _ => exact .inr rfl

/-- Inline trivia is trivia. -/
theorem isTrivia_of_isInlineTrivia (h : k.isInlineTrivia = true) : k.isTrivia = true := by
  rcases eq_of_isInlineTrivia h with rfl | rfl <;> rfl

/-- A comment is no inline trivia. -/
theorem isInlineTrivia_of_isComment (h : k.isComment = true) : k.isInlineTrivia = false := by
  cases k with
  | trivia t => cases t <;> first | rfl | cases h
  | _ => rfl

/-- Trivia is no lexeme. -/
theorem ne_lexeme_of_isTrivia (h : k.isTrivia = true) (l : Lexeme) : k ≠ .lexeme l := by
  rintro rfl
  cases h

/-- Inline trivia is no lexeme. -/
theorem ne_lexeme_of_isInlineTrivia (h : k.isInlineTrivia = true) (l : Lexeme) : k ≠ .lexeme l :=
  ne_lexeme_of_isTrivia (isTrivia_of_isInlineTrivia h) l

/-- Inline trivia does not end the source. -/
theorem not_endOfFile_of_isInlineTrivia (h : k.isInlineTrivia = true) :
    (k == .lexeme .endOfFile) = false :=
  beq_eq_false_iff_ne.mpr (ne_lexeme_of_isInlineTrivia h _)

end Kind

/-! ## Moves -/

namespace TokenStream

/-- The rest of a stream is its current token and those ahead. -/
@[simp]
theorem length_rest (s : TokenStream) : s.rest.length = s.remaining + 1 := by
  simp [rest, s.remaining_eq]

/-- A cursor that does not stand on an end marker has tokens behind it. -/
theorem ahead_ne_nil {s : TokenStream} (h : s.current.kind ≠ .lexeme .endOfFile) :
    s.ahead ≠ [] := by
  intro hahead
  have hends := s.ends
  simp only [hahead, List.getLast_singleton] at hends
  exact h hends

/-- Moving on drops the token at the cursor. -/
theorem rest_advance {s : TokenStream} (h : s.ahead ≠ []) :
    s.rest = s.current :: s.advance.rest := by
  unfold advance
  split
  next hahead => exact absurd hahead h
  next t ahead hahead => simp [rest, hahead]

/-- A token that is so many places ahead is the one that is found there. -/
theorem peek_eq_of_getElem? {s : TokenStream} {n : Nat} {t : Token} (h : s.rest[n]? = some t) :
    s.peek n = t := by
  simp only [peek, h]

/-- Moving on leads to the token behind the one at the cursor. -/
theorem current_advance {s : TokenStream} (h : s.ahead ≠ []) : s.advance.current = s.peek 1 := by
  have hnext : s.rest[1]? = some s.advance.current := by
    rw [rest_advance h, List.getElem?_cons_succ]
    rfl
  exact (peek_eq_of_getElem? hnext).symm

/-- Moving on leaves one token less ahead. -/
theorem remaining_advance {s : TokenStream} (h : s.ahead ≠ []) :
    s.advance.remaining + 1 = s.remaining := by
  have hlength := congrArg List.length (rest_advance h)
  simp only [length_rest, List.length_cons] at hlength
  omega

/-- The tokens of a stream over some tokens. -/
theorem rest_ofTokens {tokens : List Token} (h : tokens ≠ []) :
    (ofTokens tokens).rest = marked tokens := by
  unfold ofTokens
  split
  next hmarked =>
    have : marked tokens ≠ [] := by
      unfold marked
      split <;> simp [h]
    exact absurd hmarked this
  next t ahead hmarked => simp [rest, hmarked]

/-- The next significant token is the one at the cursor, unless that is inline trivia. -/
theorem peekSignificant_zero {s : TokenStream} (h : s.current.kind.isInlineTrivia = false) :
    s.peekSignificant 0 = s.current := by
  have hdistance : significantDistance s.current s.ahead 0 = 0 := by
    cases s.ahead <;> simp [significantDistance, h]
  simp [peekSignificant, hdistance, peek, rest]

/-- Streams with the same rest have the same current token. -/
theorem current_eq_of_rest_eq {s t : TokenStream} (h : s.rest = t.rest) :
    s.current = t.current := by
  simp only [rest, List.cons.injEq] at h
  exact h.1

/-- Whether a token means something to the grammar within a line. -/
def isSolid (t : Token) : Bool := !t.kind.isInlineTrivia

/-- The token at the distance is the `n`-th one that is not inline trivia. -/
theorem getElem?_significantDistance {t : Token} {ahead : List Token}
    (hlast : isSolid ((t :: ahead).getLast (List.cons_ne_nil _ _)) = true) (n : Nat) :
    (t :: ahead)[significantDistance t ahead n]? =
      some (((t :: ahead).filter isSolid)[n]?.getD
        ((t :: ahead).getLast (List.cons_ne_nil _ _))) := by
  induction ahead generalizing t n with
  | nil =>
    rw [List.getLast_singleton] at hlast
    cases n <;> simp [significantDistance, hlast]
  | cons u rest ih =>
    have hlast' : isSolid ((u :: rest).getLast (List.cons_ne_nil _ _)) = true := by
      simpa using hlast
    have hgetLast : (t :: u :: rest).getLast (List.cons_ne_nil _ _) =
        (u :: rest).getLast (List.cons_ne_nil _ _) := by simp
    rw [hgetLast, significantDistance.eq_def]
    dsimp only
    by_cases ht : t.kind.isInlineTrivia = true
    · have hsolid : isSolid t = false := by simp [isSolid, ht]
      have hfilter : (t :: u :: rest).filter isSolid = (u :: rest).filter isSolid :=
        List.filter_cons_of_neg (by simp [hsolid])
      rw [if_pos ht, List.getElem?_cons_succ, ih hlast' n, hfilter]
    · have hsolid : isSolid t = true := by simpa [isSolid] using ht
      rw [if_neg ht, List.filter_cons_of_pos hsolid]
      cases n with
      | zero => rfl
      | succ n =>
        dsimp only
        rw [List.getElem?_cons_succ, ih hlast' n, List.getElem?_cons_succ]

/-- The last token of a stream is the end marker, which is no inline trivia. -/
theorem isSolid_last (s : TokenStream) : isSolid s.last = true := by
  have hends : s.last.kind = .lexeme .endOfFile := s.ends
  rw [isSolid, hends]
  rfl

/-- What comes next is the `n`-th token ahead that is not inline trivia, or the last token. -/
theorem peekSignificant_eq (s : TokenStream) (n : Nat) :
    s.peekSignificant n = (s.rest.filter isSolid)[n]?.getD s.last := by
  have hget : s.rest[significantDistance s.current s.ahead n]? =
      some ((s.rest.filter isSolid)[n]?.getD s.last) :=
    getElem?_significantDistance s.isSolid_last n
  exact peek_eq_of_getElem? hget

/-- What comes next depends on the tokens from the cursor on alone. -/
theorem peekSignificant_eq_of_rest_eq {s t : TokenStream} (h : s.rest = t.rest) (n : Nat) :
    s.peekSignificant n = t.peekSignificant n := by
  have hlast : s.last = t.last := by simp only [last, h]
  rw [peekSignificant_eq, peekSignificant_eq, h, hlast]

/-- What comes next is no inline trivia. -/
theorem isSolid_peekSignificant (s : TokenStream) (n : Nat) :
    isSolid (s.peekSignificant n) = true := by
  rw [peekSignificant_eq]
  cases hget : (s.rest.filter isSolid)[n]? with
  | none => exact s.isSolid_last
  | some t => exact (List.mem_filter.mp (List.mem_of_getElem? hget)).2

/-- Moving over inline trivia does not change what comes next. -/
theorem peekSignificant_advance {s : TokenStream}
    (h : s.current.kind.isInlineTrivia = true) (n : Nat) :
    s.advance.peekSignificant n = s.peekSignificant n := by
  have hahead : s.ahead ≠ [] := ahead_ne_nil fun hend => by rw [hend] at h; cases h
  have hrest := rest_advance hahead
  have hlast : s.advance.last = s.last := by
    simp only [last, hrest]
    exact (List.getLast_cons (List.cons_ne_nil _ _)).symm
  have hfilter : s.rest.filter isSolid = s.advance.rest.filter isSolid := by
    rw [hrest, List.filter_cons_of_neg (by simp [isSolid, h])]
  rw [peekSignificant_eq, peekSignificant_eq, hlast, hfilter]

/-- Moving over a token that means something brings what is behind it nearer. -/
theorem peekSignificant_advance_succ {s : TokenStream} (h : s.current.kind.isInlineTrivia = false)
    (hahead : s.ahead ≠ []) (n : Nat) :
    s.advance.peekSignificant n = s.peekSignificant (n + 1) := by
  have hrest := rest_advance hahead
  have hlast : s.advance.last = s.last := by
    simp only [last, hrest]
    exact (List.getLast_cons (List.cons_ne_nil _ _)).symm
  have hfilter : s.rest.filter isSolid = s.current :: s.advance.rest.filter isSolid := by
    rw [hrest, List.filter_cons_of_pos (by simp [isSolid, h])]
  rw [peekSignificant_eq, peekSignificant_eq, hlast, hfilter, List.getElem?_cons_succ]

/-! ## The list and the index -/

/-- The size of a stream is the number of its tokens. -/
theorem size_eq_length (s : TokenStream) : s.size = s.tokens.length := by
  simp only [size, tokens, rest, List.length_append, List.length_reverse, List.length_cons]
  omega

/-- The cursor stands on one of the tokens. -/
theorem position_lt_size (s : TokenStream) : s.position < s.size := by
  simp only [position, size]
  omega

/-- The tokens from the index on are those from the cursor on. -/
theorem drop_position_tokens (s : TokenStream) : s.tokens.drop s.position = s.rest := by
  rw [tokens, position, ← List.length_reverse, List.drop_left]

/-- The tokens from the cursor on are the rest. -/
theorem getElem?_position_add (s : TokenStream) (n : Nat) :
    s.tokens[s.position + n]? = s.rest[n]? := by
  rw [← drop_position_tokens, List.getElem?_drop]

/-- The token at the index is the one at the cursor. -/
theorem getElem?_position (s : TokenStream) : s.tokens[s.position]? = some s.current :=
  s.getElem?_position_add 0

/-- The last token of a stream is the last of its tokens. -/
theorem getLast?_tokens (s : TokenStream) : s.tokens.getLast? = some s.last := by
  have hrest : s.rest.getLast? = some s.last := List.getLast?_eq_some_getLast _
  rw [tokens, List.getLast?_append, hrest]
  rfl

/-- Behind the tokens the last one is found. -/
theorem tokenAt_eq_getD (s : TokenStream) (index : Nat) :
    s.tokenAt index = s.tokens[index]?.getD s.last := by
  unfold tokenAt
  cases s.tokens[index]? <;> rfl

/-- An index that fits into a word is counted as it is. -/
theorem wrap_of_lt {s : TokenStream} {index : Nat} (h : index < UInt64.size) :
    s.wrap index = index := by
  unfold wrap
  split
  · exact Nat.mod_eq_of_lt h
  · rfl

/-- So is the index of a token, and that of the place right behind the last one. -/
theorem wrap_of_le {s : TokenStream} {index : Nat} (h : index ≤ s.size) : s.wrap index = index := by
  unfold wrap
  split
  next hsize => exact Nat.mod_eq_of_lt (Nat.lt_of_le_of_lt h hsize)
  next => rfl

/-- What is so many places ahead stands so many places behind the index, as a word counts them. -/
theorem peek_eq_tokenAt (s : TokenStream) (n : Nat) :
    s.peek n = s.tokenAt (s.wrap (s.position + n)) := by
  rw [peek, ← getElem?_position_add]
  cases hget : s.tokens[s.position + n]? with
  | none => rfl
  | some t =>
    have hlt : s.position + n < s.tokens.length := (List.getElem?_eq_some_iff.mp hget).1
    rw [wrap_of_le (s.size_eq_length ▸ Nat.le_of_lt hlt), tokenAt, hget]

/-- As far as indices are counted as they are, what is ahead is a token of the rest, or the last
one. -/
theorem peek_eq_getD {s : TokenStream} {n : Nat} (h : s.wrap (s.position + n) = s.position + n) :
    s.peek n = s.rest[n]?.getD s.last := by
  rw [peek_eq_tokenAt, h, tokenAt_eq_getD, getElem?_position_add]

/-- The next place is never too far ahead. -/
theorem peek_one (s : TokenStream) : s.peek 1 = s.rest[1]?.getD s.last :=
  peek_eq_getD (wrap_of_le s.position_lt_size)

/-! ## Moving the index -/

/-- Moving on passes a token and loses none. -/
theorem tokens_advance (s : TokenStream) : s.advance.tokens = s.tokens := by
  unfold advance
  split
  next => rfl
  next t ahead hahead => simp [tokens, rest, hahead]

/-- The cursor is moved on by one, up to the end marker. -/
theorem position_advance (s : TokenStream) :
    s.advance.position = min (s.position + 1) (s.size - 1) := by
  unfold advance
  split
  next hahead => simp [position, size, hahead]
  next t ahead hahead =>
    simp only [position, size, List.length_cons, hahead]
    omega

/-- In front of the end marker the cursor is moved on by one. -/
theorem position_advance_of_ahead {s : TokenStream} (h : s.ahead ≠ []) :
    s.advance.position = s.position + 1 := by
  have hlength := List.length_pos_iff.mpr h
  rw [position_advance, size, position]
  omega

theorem tokens_back (s : TokenStream) : s.back.tokens = s.tokens := by
  unfold back
  split
  next => rfl
  next t passed hpassed => simp [tokens, rest, hpassed]

theorem position_back (s : TokenStream) : s.back.position = s.position - 1 := by
  unfold back
  split
  next hpassed => simp [position, hpassed]
  next t passed hpassed => simp [position, hpassed]

theorem tokens_forward (s : TokenStream) (n : Nat) : (s.forward n).tokens = s.tokens := by
  induction n generalizing s with
  | zero => rfl
  | succ n ih => rw [forward, ih, tokens_advance]

theorem position_forward (s : TokenStream) (n : Nat) :
    (s.forward n).position = min (s.position + n) (s.size - 1) := by
  induction n generalizing s with
  | zero =>
    have hlt := s.position_lt_size
    simp only [forward]
    omega
  | succ n ih =>
    have hsize : s.advance.size = s.size := by
      rw [size_eq_length, size_eq_length, tokens_advance]
    rw [forward, ih, position_advance, hsize]
    omega

theorem tokens_backward (s : TokenStream) (n : Nat) : (s.backward n).tokens = s.tokens := by
  induction n generalizing s with
  | zero => rfl
  | succ n ih => rw [backward, ih, tokens_back]

theorem position_backward (s : TokenStream) (n : Nat) :
    (s.backward n).position = s.position - n := by
  induction n generalizing s with
  | zero => rfl
  | succ n ih =>
    rw [backward, ih, position_back]
    omega

theorem tokens_reset (s : TokenStream) (index : Nat) : (s.reset index).tokens = s.tokens := by
  simp only [reset]
  split
  · exact s.tokens_backward _
  · exact s.tokens_forward _

/-- The cursor is set to any index of a token, whichever way it lies. -/
theorem position_reset (s : TokenStream) (index : Nat) :
    (s.reset index).position = min index (s.size - 1) := by
  simp only [reset]
  split
  next hlt =>
    rw [position_backward]
    omega
  next hle =>
    rw [position_forward]
    omega

/-! ## Looking ahead -/

/-- Where enough tokens mean something, the distance leads to one of them, with as many in front of
it as there are to be. -/
theorem significantDistance_of_lt {t : Token} {ahead : List Token} {n : Nat}
    (h : n < (t :: ahead).countP isSolid) :
    (∃ u, (t :: ahead)[significantDistance t ahead n]? = some u ∧ isSolid u = true) ∧
      ((t :: ahead).take (significantDistance t ahead n)).countP isSolid = n := by
  induction ahead generalizing t n with
  | nil =>
    rw [List.countP_singleton] at h
    split at h
    next ht => exact ⟨⟨t, rfl, ht⟩, (Nat.lt_one_iff.mp h).symm⟩
    next => exact absurd h (Nat.not_lt_zero n)
  | cons u rest ih =>
    rw [significantDistance.eq_def]
    dsimp only
    by_cases ht : t.kind.isInlineTrivia = true
    · -- a token that means nothing is passed over and not counted
      have hsolid : ¬ isSolid t = true := by simp [isSolid, ht]
      rw [List.countP_cons_of_neg hsolid] at h
      rw [if_pos ht, List.getElem?_cons_succ, List.take_succ_cons, List.countP_cons_of_neg hsolid]
      exact ih h
    · have hsolid : isSolid t = true := by simpa [isSolid] using ht
      rw [if_neg ht]
      cases n with
      | zero => exact ⟨⟨t, rfl, hsolid⟩, rfl⟩
      | succ n =>
        rw [List.countP_cons_of_pos hsolid] at h
        obtain ⟨hget, hcount⟩ := ih (Nat.lt_of_succ_lt_succ h)
        dsimp only
        rw [List.getElem?_cons_succ, List.take_succ_cons, List.countP_cons_of_pos hsolid, hcount]
        exact ⟨hget, rfl⟩

/-- Where too few tokens mean something, the distance leads to the last one. -/
theorem significantDistance_of_le {t : Token} {ahead : List Token} {n : Nat}
    (h : (t :: ahead).countP isSolid ≤ n) : significantDistance t ahead n = ahead.length := by
  induction ahead generalizing t n with
  | nil => rfl
  | cons u rest ih =>
    rw [significantDistance.eq_def]
    dsimp only
    by_cases ht : t.kind.isInlineTrivia = true
    · have hsolid : ¬ isSolid t = true := by simp [isSolid, ht]
      rw [List.countP_cons_of_neg hsolid] at h
      rw [if_pos ht, ih h, List.length_cons]
    · have hsolid : isSolid t = true := by simpa [isSolid] using ht
      rw [List.countP_cons_of_pos hsolid] at h
      rw [if_neg ht]
      cases n with
      | zero => exact absurd h (Nat.not_succ_le_zero _)
      | succ n =>
        dsimp only
        rw [ih (Nat.le_of_succ_le_succ h), List.length_cons]

/-- What comes next stands at its index. -/
theorem getElem?_significantIndex (s : TokenStream) (n : Nat) :
    s.tokens[s.significantIndex n]? = some (s.peekSignificant n) := by
  have hget : s.rest[significantDistance s.current s.ahead n]? =
      some ((s.rest.filter isSolid)[n]?.getD s.last) :=
    getElem?_significantDistance s.isSolid_last n
  rw [significantIndex, getElem?_position_add, hget, peekSignificant_eq]

/-- A word that is looked for ahead is one of the tokens. -/
theorem peekSignificant_mem_tokens (s : TokenStream) (n : Nat) : s.peekSignificant n ∈ s.tokens :=
  List.mem_of_getElem? (s.getElem?_significantIndex n)

/-! ## Runs of moves -/

/-- What moves a cursor. -/
inductive Move where
  /-- On to the next token. -/
  | advance
  /-- To the token of an index. -/
  | reset (index : Nat)

/-- The index that a move leads to, among so many tokens. -/
def Move.target (size position : Nat) : Move → Nat
  | advance => min (position + 1) (size - 1)
  | reset index => min index (size - 1)

/-- A stream behind a move. -/
def move (s : TokenStream) : Move → TokenStream
  | .advance => s.advance
  | .reset index => s.reset index

/-- A stream behind some moves. -/
def moved (s : TokenStream) (moves : List Move) : TokenStream := moves.foldl move s

/-- A move leaves the tokens as they are. -/
theorem tokens_move (s : TokenStream) (m : Move) : (s.move m).tokens = s.tokens := by
  cases m with
  | advance => exact s.tokens_advance
  | reset index => exact s.tokens_reset index

/-- A move leads the cursor to where it is said to lead. -/
theorem position_move (s : TokenStream) (m : Move) :
    (s.move m).position = m.target s.tokens.length s.position := by
  rw [← size_eq_length]
  cases m with
  | advance => exact s.position_advance
  | reset index => exact s.position_reset index

/-- Moves leave the tokens as they are. -/
theorem tokens_moved (s : TokenStream) (moves : List Move) : (s.moved moves).tokens = s.tokens := by
  induction moves generalizing s with
  | nil => rfl
  | cons m moves ih => exact (ih (s.move m)).trans (s.tokens_move m)

/-- Moves lead the cursor to where they lead one after the other. -/
theorem position_moved (s : TokenStream) (moves : List Move) :
    (s.moved moves).position = moves.foldl (Move.target s.tokens.length) s.position := by
  induction moves generalizing s with
  | nil => rfl
  | cons m moves ih =>
    have hrest := ih (s.move m)
    rw [tokens_move, position_move] at hrest
    exact hrest

/-- A stream with its cursor at an index of the tokens `all`: what it tells of itself, where it goes
from there, and what it answers when it is asked for tokens. -/
structure StandsAt (all : List Token) (index : Nat) (s : TokenStream) : Prop where
  /-- The stream holds these tokens. -/
  tokens_eq : s.tokens = all
  /-- It tells their number. -/
  size_eq : s.size = all.length
  /-- It tells the index. -/
  position_eq : s.position = index
  /-- The index is that of a token. -/
  index_lt : index < all.length
  /-- The token at the index is at the cursor. -/
  current_eq : all[index]? = some s.current
  /-- The last token is the one that is given where there is no other. -/
  last_eq : all.getLast? = some s.last
  /-- It is an end marker. -/
  last_kind : s.last.kind = .lexeme .endOfFile
  /-- The cursor moves on by one token, unless it is at the last one. -/
  position_advance : s.advance.position = if index + 1 < all.length then index + 1 else index
  /-- The cursor is set to any index of a token, and to the last one otherwise. -/
  position_reset : ∀ i, (s.reset i).position = if i < all.length then i else all.length - 1
  /-- Where more than `n` tokens from the index on are no inline trivia, the one that follows `n` of
  them is found. -/
  significantIndex_of_lt : ∀ n, n < (all.drop index).countP isSolid →
    index ≤ s.significantIndex n ∧
      (∃ t, all[s.significantIndex n]? = some t ∧ t.kind.isInlineTrivia = false) ∧
      ((all.take (s.significantIndex n)).drop index).countP isSolid = n
  /-- Otherwise it is the last index that is found. -/
  significantIndex_of_le : ∀ n, (all.drop index).countP isSolid ≤ n →
    s.significantIndex n = all.length - 1
  /-- The token at the index that is found is never inline trivia. -/
  peekSignificant_eq : ∀ n, all[s.significantIndex n]? = some (s.peekSignificant n) ∧
    (s.peekSignificant n).kind.isInlineTrivia = false
  /-- Behind the end there is the last token. -/
  tokenAt_eq : ∀ i, s.tokenAt i = all[i]?.getD s.last
  /-- Ahead it is the same, from the index on, as far as a word counts. -/
  peek_eq : ∀ n, index + n < UInt64.size → s.peek n = all[index + n]?.getD s.last
  /-- Farther ahead the count begins again, at the first token. -/
  peek_wrapped : all.length < UInt64.size →
    ∀ n, s.peek n = all[(index + n) % UInt64.size]?.getD s.last

/-- Every stream stands at the index of its cursor. -/
theorem standsAt_position (s : TokenStream) : s.StandsAt s.tokens s.position where
  tokens_eq := rfl
  size_eq := s.size_eq_length
  position_eq := rfl
  index_lt := by
    rw [← size_eq_length]
    exact s.position_lt_size
  current_eq := s.getElem?_position
  last_eq := s.getLast?_tokens
  last_kind := s.ends
  position_advance := by
    have hlt := s.position_lt_size
    rw [s.position_advance, ← size_eq_length]
    split <;> omega
  position_reset i := by
    rw [s.position_reset, ← size_eq_length]
    split <;> omega
  significantIndex_of_lt n hn := by
    rw [drop_position_tokens] at hn
    obtain ⟨⟨t, hget, hsolid⟩, hcount⟩ := significantDistance_of_lt hn
    refine ⟨Nat.le_add_right _ _, ⟨t, ?_, ?_⟩, ?_⟩
    · rw [significantIndex, getElem?_position_add]
      exact hget
    · simpa [isSolid] using hsolid
    · rw [significantIndex, ← List.take_drop, drop_position_tokens]
      exact hcount
  significantIndex_of_le n hn := by
    rw [drop_position_tokens] at hn
    rw [significantIndex, significantDistance_of_le hn, ← size_eq_length, size, position]
    omega
  peekSignificant_eq n :=
    ⟨s.getElem?_significantIndex n, by simpa [isSolid] using s.isSolid_peekSignificant n⟩
  tokenAt_eq := s.tokenAt_eq_getD
  peek_eq n hn := by rw [peek_eq_tokenAt, wrap_of_lt hn, tokenAt_eq_getD]
  peek_wrapped hsize n := by
    rw [← size_eq_length] at hsize
    rw [peek_eq_tokenAt, wrap, if_pos hsize, tokenAt_eq_getD]

/-- A new stream holds the tokens with their end marker, and its cursor stands on the first of
them. -/
theorem tokens_ofTokens (tokens : List Token) :
    (ofTokens tokens).tokens = marked tokens ∧ (ofTokens tokens).position = 0 := by
  unfold ofTokens
  split
  next hmarked =>
    have hne : marked tokens ≠ [] := by
      unfold marked
      split
      next hends =>
        rintro rfl
        cases hends
      next => simp
    exact absurd hmarked hne
  next t ahead hmarked => exact ⟨hmarked.symm, rfl⟩

/-- Whatever moves the cursor over given tokens, the stream stands at the index that the moves lead
to. -/
theorem standsAt_moved (tokens : List Token) (moves : List Move) :
    ((ofTokens tokens).moved moves).StandsAt (marked tokens)
      (moves.foldl (Move.target (marked tokens).length) 0) := by
  obtain ⟨htokens, hposition⟩ := tokens_ofTokens tokens
  have hstands := ((ofTokens tokens).moved moves).standsAt_position
  rw [tokens_moved, position_moved, htokens, hposition] at hstands
  exact hstands

/-- With the cursor on its end marker, a stream of one token and the marker gives the first token
where so many places ahead are asked for that a word cannot count them. -/
theorem peek_before_cursor :
    let t : Token := { kind := .lexeme .identifier, text := Bytes.ofString "a" }
    let s := (ofTokens [t]).moved [.advance]
    s.size ≤ s.position + (UInt64.size - 1) ∧ s.peek (UInt64.size - 1) = t ∧
      s.peek (UInt64.size - 1) ≠ s.last := by
  decide

/-- Blanks in front of the end marker do not hide it, and behind it there is nothing else. -/
example :
    let s := (ofTokens [{ kind := .trivia .whitespace }]).moved [.reset 7, .advance, .reset 0]
    s.significantIndex 0 = 1 ∧ s.significantIndex 3 = 1 ∧ s.position = 0 := by
  decide

end TokenStream

end LosslessBasic
