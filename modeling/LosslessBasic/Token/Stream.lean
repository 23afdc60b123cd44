import LosslessBasic.Token

/-!
# Token streams

A token stream is a list of tokens with a cursor. It holds at least one token and ends with an end
marker, so there is always a token at the cursor; looking or moving past the end stays at the end
marker.
-/

namespace LosslessBasic

/-- Tokens with a cursor on one of them. -/
structure TokenStream where
  /-- The tokens before the cursor, the nearest first. -/
  passed : List Token
  /-- The token at the cursor. -/
  current : Token
  /-- The tokens after the cursor. -/
  ahead : List Token
  /-- The number of tokens after the cursor. -/
  remaining : Nat
  /-- The last token is an end marker. -/
  ends : ((current :: ahead).getLast (List.cons_ne_nil _ _)).kind = .lexeme .endOfFile
  /-- The count says how many tokens there are. -/
  remaining_eq : remaining = ahead.length

namespace TokenStream

/-- The end marker to put behind tokens that lack one: it stands just past the last of them and
takes over its location. -/
def endMarker (tokens : List Token) : Token :=
  match tokens.getLast? with
  | none => {}
  | some t => { offset := t.stop, loc := t.loc }

/-- Whether tokens end with an end marker. -/
def endsMarked (tokens : List Token) : Bool :=
  match tokens.getLast? with
  | none => false
  | some t => t.kind == .lexeme .endOfFile

/-- Tokens that are followed by an end marker when they lack one. -/
def marked (tokens : List Token) : List Token :=
  if endsMarked tokens then tokens else tokens ++ [endMarker tokens]

theorem endMarker_kind (tokens : List Token) : (endMarker tokens).kind = .lexeme .endOfFile := by
  unfold endMarker
  split <;> rfl

theorem getLast_marked (tokens : List Token) (h : marked tokens ≠ []) :
    ((marked tokens).getLast h).kind = .lexeme .endOfFile := by
  by_cases hm : endsMarked tokens = true
  · have hk : ∀ t, tokens.getLast? = some t → t.kind = .lexeme .endOfFile := by
      intro t ht
      simpa [endsMarked, ht] using hm
    have : marked tokens = tokens := by simp [marked, hm]
    simp only [this] at h ⊢
    exact hk _ (List.getLast?_eq_some_getLast h)
  · simp [marked, hm, endMarker_kind]

/-- The stream over tokens, with its cursor on the first of them. -/
def ofTokens (tokens : List Token) : TokenStream :=
  match h : marked tokens with
  | [] => ⟨[], {}, [], 0, rfl, rfl⟩
  | t :: ahead =>
    ⟨[], t, ahead, ahead.length,
      by
        have := getLast_marked tokens (by simp [h])
        simpa only [h] using this, rfl⟩

/-- The tokens from the cursor on. -/
def rest (s : TokenStream) : List Token := s.current :: s.ahead

/-- All tokens of a stream. -/
def tokens (s : TokenStream) : List Token := s.passed.reverse ++ s.rest

/-- The number of tokens of a stream. -/
def size (s : TokenStream) : Nat := s.passed.length + 1 + s.ahead.length

/-- The index of the token at the cursor. -/
def position (s : TokenStream) : Nat := s.passed.length

/-- The last token of a stream. -/
def last (s : TokenStream) : Token := s.rest.getLast (List.cons_ne_nil _ _)

/-- Whether the cursor stands on an end marker. -/
def isAtEnd (s : TokenStream) : Bool := s.current.kind == .lexeme .endOfFile

/-- The token of a given index, or the last one when there is none. -/
def tokenAt (s : TokenStream) (index : Nat) : Token :=
  match s.tokens[index]? with
  | some t => t
  | none => s.last

/-- What is left of an index that is counted in a word of 64 bits. Memory never holds so many tokens
that one of them has an index which does not fit; where there were that many, nothing would be
lost. -/
def wrap (s : TokenStream) (index : Nat) : Nat :=
  if s.size < UInt64.size then index % UInt64.size else index

/-- The token `n` places past the cursor, or the last one when there is none. The places are added
to the index in a word, so that a great number of them leads back to the tokens before the
cursor. -/
def peek (s : TokenStream) (n : Nat) : Token :=
  match s.rest[n]? with
  | some t => t
  | none => s.tokenAt (s.wrap (s.position + n))

/-- The stream with its cursor on the next token; at the last token it stays. -/
def advance (s : TokenStream) : TokenStream :=
  match h : s.ahead with
  | [] => s
  | t :: ahead =>
    { passed := s.current :: s.passed
      current := t
      ahead := ahead
      remaining := s.remaining - 1
      ends := by simpa only [h, List.getLast_cons_cons] using s.ends
      remaining_eq := by simp [s.remaining_eq, h] }

/-- The stream with its cursor on the token before; at the first token it stays. -/
def back (s : TokenStream) : TokenStream :=
  match s.passed with
  | [] => s
  | t :: passed =>
    { passed := passed
      current := t
      ahead := s.current :: s.ahead
      remaining := s.remaining + 1
      ends := by simpa using s.ends
      remaining_eq := by simp [s.remaining_eq] }

/-- The stream with its cursor moved on `n` times. -/
def forward (s : TokenStream) : Nat → TokenStream
  | 0 => s
  | n + 1 => s.advance.forward n

/-- The stream with its cursor moved back `n` times. -/
def backward (s : TokenStream) : Nat → TokenStream
  | 0 => s
  | n + 1 => s.back.backward n

/-- The stream with its cursor on the token of a given index, or on the last one when there is
none. -/
def reset (s : TokenStream) (index : Nat) : TokenStream :=
  let index := min index (s.size - 1)
  if index < s.position then s.backward (s.position - index)
  else s.forward (index - s.position)

/-- The distance from `t`, the first of the tokens `t :: rest`, to the one that follows `n` others
that are not inline trivia and is none itself; it stops at the last token. -/
def significantDistance (t : Token) : List Token → Nat → Nat
  | [], _ => 0
  | u :: rest, n =>
    if t.kind.isInlineTrivia then significantDistance u rest n + 1
    else
      match n with
      | 0 => 0
      | k + 1 => significantDistance u rest k + 1

/-- The index of the token that follows, from the cursor on, `n` others that are not inline trivia,
and is none itself; the last index when there is none. -/
def significantIndex (s : TokenStream) (n : Nat) : Nat :=
  s.position + significantDistance s.current s.ahead n

/-- The token of that index. -/
def peekSignificant (s : TokenStream) (n : Nat) : Token :=
  s.peek (significantDistance s.current s.ahead n)

end TokenStream

end LosslessBasic
