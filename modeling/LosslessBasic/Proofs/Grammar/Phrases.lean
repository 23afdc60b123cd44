import LosslessBasic.Proofs.Grammar.Lookahead
import LosslessBasic.Proofs.Grammar.Powers

/-!
# Well-formed expressions are read without failure

The tokens of an expression are told by a grammar that knows no binding powers: operands with
operators between them and in front of them, and in an operand what can be asked for there
(`IsExpression`). The powers only decide which of several nested readings takes an operator, not
whether one does, so an expression is read to its end and nothing in it is reported
(`IsExpression.readsTo`).

A reading of a certain power may leave off in front of an operator of a lower one. Then what is left
of the expression is a tail of it (`IsTail`), which the reading around it goes on with. The proof is
by induction on the number of tokens: every expression within an expression has fewer.
-/

namespace LosslessBasic

/-! ## What comes next -/

namespace Lookahead

/-- The kind of the first token that is not inline trivia. -/
def solidKind (tokens : List Token) : Kind := frontKind (afterBlanks tokens)

/-- In front of a word there are no blanks to leave out. -/
theorem afterBlanks_cons {t : Token} (h : t.kind.isInlineTrivia = false) (rest : List Token) :
    afterBlanks (t :: rest) = t :: rest :=
  List.dropWhile_cons_of_neg (by simp [h])

/-- The first word of a row that starts with a word is that word. -/
theorem solidKind_cons {t : Token} (h : t.kind.isInlineTrivia = false) (rest : List Token) :
    solidKind (t :: rest) = t.kind := by
  rw [solidKind, afterBlanks_cons h]
  rfl

end Lookahead

namespace Grammar

open Lookahead

/-- Blanks in front do not change what stands behind the blanks. -/
@[simp]
theorem Blanks.afterBlanks_append (blanks : Blanks) (rest : List Token) :
    afterBlanks (blanks.tokens ++ rest) = afterBlanks rest :=
  List.dropWhile_append_of_pos blanks.inline

/-- Blanks in front do not change the first word. -/
@[simp]
theorem Blanks.solidKind_append (blanks : Blanks) (rest : List Token) :
    solidKind (blanks.tokens ++ rest) = solidKind rest := by
  rw [solidKind, blanks.afterBlanks_append, solidKind]

/-- Behind blanks the first word is the one that follows them. -/
theorem Blanks.solidKind_eq (blanks : Blanks) {t : Token} {k : Kind} (ht : t.kind = k)
    (hk : k.isInlineTrivia = false) (rest : List Token) :
    solidKind (blanks.tokens ++ t :: rest) = k := by
  rw [blanks.solidKind_append, solidKind_cons (by rwa [ht]), ht]

/-- The next word of a state is the first word of what is ahead. -/
theorem kind_peekSignificant (s : State) :
    (s.stream.peekSignificant 0).kind = solidKind s.stream.rest := by
  rw [solidKind, ← rest_skipBlanks, ← current_skipBlanks]
  rfl

/-! ## The grammar of expressions -/

section

variable (E : List Token → Prop)

/-- An expression that is passed to a parameter, with the name of the parameter in front of it or
without. -/
inductive IsPassed : List Token → Prop
  | placed {value : List Token} (h : E value) : IsPassed value
  | named (name : Token) (hname : name.kind.isNameLike = true) (before : Blanks) (sign : Token)
    (hsign : sign.kind = .lexeme .colonEqual) (after : Blanks) {value : List Token} (h : E value) :
    IsPassed (name :: (before.tokens ++ sign :: (after.tokens ++ value)))

/-- An argument. -/
inductive IsArgument : List Token → Prop
  | passed {tokens : List Token} (h : IsPassed E tokens) : IsArgument tokens
  | byValue (word : Token) (hword : word.kind = .keyword .byVal) (after : Blanks)
    {tokens : List Token}
    (h : IsPassed E tokens) : IsArgument (word :: (after.tokens ++ tokens))

/-- Arguments, of which any may be left out, up to the parenthesis that closes them. -/
inductive IsArguments : List Token → Prop
  | closed (before : Blanks) (paren : Token) (hparen : paren.kind = .lexeme .rightParen) :
    IsArguments (before.tokens ++ [paren])
  | omitted (before : Blanks) (comma : Token) (hcomma : comma.kind = .lexeme .comma)
    {rest : List Token}
    (hrest : IsArguments rest) : IsArguments (before.tokens ++ comma :: rest)
  | last (before : Blanks) {argument : List Token} (h : IsArgument E argument) (behind : Blanks)
    (paren : Token) (hparen : paren.kind = .lexeme .rightParen) :
    IsArguments (before.tokens ++ (argument ++ (behind.tokens ++ [paren])))
  | next (before : Blanks) {argument : List Token} (h : IsArgument E argument) (behind : Blanks)
    (comma : Token) (hcomma : comma.kind = .lexeme .comma) {rest : List Token}
    (hrest : IsArguments rest) :
    IsArguments (before.tokens ++ (argument ++ (behind.tokens ++ comma :: rest)))

/-- Members and arguments that go on an operand. Blanks may stand in front of arguments only where a
command does not take its arguments without parentheses. -/
inductive IsSuffixes (spacedCall : Bool) : List Token → Prop
  | none : IsSuffixes spacedCall []
  | member (sign : Token) (hsign : isAccessSign sign.kind = true) (name : Token)
    (hname : name.kind.isMemberName = true) {rest : List Token}
    (hrest : IsSuffixes spacedCall rest) :
    IsSuffixes spacedCall (sign :: name :: rest)
  | arguments (before : Blanks) (hbefore : spacedCall = false → before.tokens = []) (paren : Token)
    (hparen : paren.kind = .lexeme .leftParen) {inner : List Token} (hinner : IsArguments E inner)
    {rest : List Token} (hrest : IsSuffixes spacedCall rest) :
    IsSuffixes spacedCall (before.tokens ++ paren :: (inner ++ rest))

/-- Expressions with commas between them, up to the parenthesis that closes them. -/
inductive IsValues : List Token → Prop
  | last (before : Blanks) {value : List Token} (h : E value) (behind : Blanks) (paren : Token)
    (hparen : paren.kind = .lexeme .rightParen) :
    IsValues (before.tokens ++ (value ++ (behind.tokens ++ [paren])))
  | next (before : Blanks) {value : List Token} (h : E value) (behind : Blanks) (comma : Token)
    (hcomma : comma.kind = .lexeme .comma) {rest : List Token} (hrest : IsValues rest) :
    IsValues (before.tokens ++ (value ++ (behind.tokens ++ comma :: rest)))

end

/-- Names that a name is qualified by, each behind a period. -/
inductive IsQualifiers : List Token → Prop
  | none : IsQualifiers []
  | next (sign : Token) (hsign : sign.kind = .lexeme .period) (name : Token)
    (hname : name.kind.isMemberName = true) {rest : List Token} (hrest : IsQualifiers rest) :
    IsQualifiers (sign :: name :: rest)

/-- The name of a type. -/
inductive IsTypeName : List Token → Prop
  | name (t : Token) (ht : t.kind.isNameLike = true) {rest : List Token}
    (hrest : IsQualifiers rest) :
    IsTypeName (t :: rest)

/-- A name, or within a `With` a member of its header. -/
inductive IsDesignator (inWith : Prop) : List Token → Prop
  | name (t : Token) (ht : t.kind.isNameLike = true) : IsDesignator inWith [t]
  | access (h : inWith) (sign : Token) (hsign : isAccessSign sign.kind = true) (name : Token)
    (hname : name.kind.isMemberName = true) : IsDesignator inWith [sign, name]

/-- What members and arguments may go on in an expression. -/
inductive IsPrimary (E : List Token → Prop) (inWith : Prop) : List Token → Prop
  | literal (t : Token) (ht : (literalKind? t.kind).isSome = true) : IsPrimary E inWith [t]
  | designator {tokens : List Token} (h : IsDesignator inWith tokens) : IsPrimary E inWith tokens
  | parenthesized (paren : Token) (hparen : paren.kind = .lexeme .leftParen) {inner : List Token}
    (hinner : IsValues E inner) : IsPrimary E inWith (paren :: inner)

/-- An operand, where `E power` are the expressions whose operators have at least the power
`power`. -/
inductive IsOperand (E : Nat → List Token → Prop) (inWith : Prop) : List Token → Prop
  | primary {base suffixes : List Token} (hbase : IsPrimary (E 0) inWith base)
    (hsuffixes : IsSuffixes (E 0) true suffixes) : IsOperand E inWith (base ++ suffixes)
  | addressOf (word : Token) (hword : word.kind = .keyword .addressOf) (after : Blanks)
    {base suffixes : List Token} (hbase : IsDesignator inWith base)
    (hsuffixes : IsSuffixes (E 0) false suffixes) :
    IsOperand E inWith (word :: (after.tokens ++ (base ++ suffixes)))
  | new (word : Token) (hword : word.kind = .keyword .new) (after : Blanks) {type : List Token}
    (htype : IsTypeName type) : IsOperand E inWith (word :: (after.tokens ++ type))
  | typeOf (word : Token) (hword : word.kind = .keyword .typeOf) (after : Blanks)
    {value : List Token}
    (hvalue : E Operator.typeOfOperandPower value) (before : Blanks) (sign : Token)
    (hsign : sign.kind = .keyword .is) (behind : Blanks) {type : List Token}
    (htype : IsTypeName type) :
    IsOperand E inWith
      (word :: (after.tokens ++ (value ++ (before.tokens ++ sign :: (behind.tokens ++ type)))))

/-- Operands with operators of at least the power `least` between them and in front of them. -/
inductive IsExpression (inWith : Prop) : (least : Nat) → List Token → Prop
  | operand {least : Nat} {tokens : List Token}
    (h : IsOperand (IsExpression inWith) inWith tokens) :
    IsExpression inWith least tokens
  | prefixed {least : Nat} (op : Token) (power : Nat)
    (h : Operator.unaryPower? op.kind = some power)
    (hpower : least ≤ power) (after : Blanks) {inner : List Token}
    (hinner : IsExpression inWith least inner) : IsExpression inWith least
      (op :: (after.tokens ++ inner))
  | joined {least : Nat} {left : List Token} (hleft : IsOperand (IsExpression inWith) inWith left)
    (before : Blanks) (op : Token) (power : Nat) (h : Operator.binaryPower? op.kind = some power)
    (hpower : least ≤ power) (after : Blanks) {right : List Token}
    (hright : IsExpression inWith least right) :
    IsExpression inWith least (left ++ (before.tokens ++ op :: (after.tokens ++ right)))

/-- What is behind the first operands of an expression. -/
inductive IsTail (inWith : Prop) (least : Nat) : List Token → Prop
  | none : IsTail inWith least []
  | joined (before : Blanks) (op : Token) (power : Nat)
    (h : Operator.binaryPower? op.kind = some power)
    (hpower : least ≤ power) (after : Blanks) {right : List Token}
    (hright : IsExpression inWith least right) :
    IsTail inWith least (before.tokens ++ op :: (after.tokens ++ right))

/-- Whether an expression with operators of at least the power `power` ends before a token of a
kind. -/
structure EndsExpression (power : Nat) (k : Kind) : Prop extends EndsOperand k where
  lower : ∀ q, Operator.binaryPower? k = some q → q < power

/-! ## First tokens -/

/-- The kinds of the tokens that start what members and arguments may go on. -/
def startsPrimary (k : Kind) : Bool := isOperand k || isAccessSign k || k == .lexeme .leftParen

/-- The kinds of the tokens that expressions start with. -/
def startsExpression (k : Kind) : Bool :=
  startsPrimary k || (Operator.unaryPower? k).isSome || k == .keyword .addressOf || k ==
    .keyword .new ||
    k == .keyword .typeOf

/-- A primary expression starts an expression. -/
theorem startsExpression_of_startsPrimary {k : Kind} (h : startsPrimary k = true) :
    startsExpression k = true := by
  simp [startsExpression, h]

/-- What starts an expression is no inline trivia. -/
theorem isInlineTrivia_of_startsExpression {k : Kind} (h : startsExpression k = true) :
    k.isInlineTrivia = false := by
  cases k with
  | trivia t => cases h
  | lexeme | keyword | node | unassigned => rfl

theorem isAccessSign_of_isNameLike {k : Kind} (h : k.isNameLike = true) :
    isAccessSign k = false := by
  unfold Kind.isNameLike at h
  split at h <;> first | rfl | cases h

theorem startsExpression_of_isNameLike {k : Kind} (h : k.isNameLike = true) :
    startsExpression k = true :=
  startsExpression_of_startsPrimary (by simp [startsPrimary, isOperand, h])

theorem startsExpression_of_isAccessSign {k : Kind} (h : isAccessSign k = true) :
    startsExpression k = true :=
  startsExpression_of_startsPrimary (by simp [startsPrimary, h])

/-- A designator has a first token, and it starts a primary expression. -/
theorem IsDesignator.exists_cons {inWith : Prop} {tokens : List Token}
    (h : IsDesignator inWith tokens) :
    ∃ t rest, tokens = t :: rest ∧ startsPrimary t.kind = true := by
  cases h with
  | name t ht => exact ⟨t, _, rfl, by simp [startsPrimary, isOperand, ht]⟩
  | access _ sign hsign name _ => exact ⟨sign, _, rfl, by simp [startsPrimary, hsign]⟩

theorem IsPrimary.exists_cons {E : List Token → Prop} {inWith : Prop} {tokens : List Token}
    (h : IsPrimary E inWith tokens) :
    ∃ t rest, tokens = t :: rest ∧ startsPrimary t.kind = true := by
  cases h with
  | literal t ht => exact ⟨t, _, rfl, by simp [startsPrimary, isOperand, ht]⟩
  | designator h => exact h.exists_cons
  | parenthesized paren hparen _ => exact ⟨paren, _, rfl, by rw [hparen]; rfl⟩

theorem IsOperand.exists_cons {E : Nat → List Token → Prop} {inWith : Prop} {tokens : List Token}
    (h : IsOperand E inWith tokens) :
    ∃ t rest, tokens = t :: rest ∧ startsExpression t.kind = true := by
  cases h with
  | primary hbase _ =>
    obtain ⟨t, rest, rfl, ht⟩ := hbase.exists_cons
    exact ⟨t, _, rfl, startsExpression_of_startsPrimary ht⟩
  | addressOf word hword => exact ⟨word, _, rfl, by rw [hword]; rfl⟩
  | new word hword => exact ⟨word, _, rfl, by rw [hword]; rfl⟩
  | typeOf word hword => exact ⟨word, _, rfl, by rw [hword]; rfl⟩

theorem IsExpression.exists_cons {inWith : Prop} {least : Nat} {tokens : List Token}
    (h : IsExpression inWith least tokens) :
    ∃ t rest, tokens = t :: rest ∧ startsExpression t.kind = true := by
  cases h with
  | operand h => exact h.exists_cons
  | prefixed op power h => exact ⟨op, _, rfl, by simp [startsExpression, h]⟩
  | joined hleft =>
    obtain ⟨t, rest, rfl, ht⟩ := hleft.exists_cons
    exact ⟨t, _, rfl, ht⟩

/-! ## Second tokens -/

/-- Behind a name that an operand starts with no sign of a named argument comes next. -/
theorem IsSuffixes.solidKind_ne {E : List Token → Prop} {spacedCall : Bool}
    {suffixes rest : List Token}
    (h : IsSuffixes E spacedCall suffixes) (hrest : solidKind rest ≠ .lexeme .colonEqual) :
    solidKind (suffixes ++ rest) ≠ .lexeme .colonEqual := by
  cases h with
  | none => exact hrest
  | member sign hsign name =>
    have hsolid : sign.kind.isInlineTrivia = false :=
      isInlineTrivia_of_startsExpression (startsExpression_of_isAccessSign hsign)
    rw [List.cons_append, solidKind_cons hsolid]
    intro hcolon
    rw [hcolon] at hsign
    cases hsign
  | arguments before hbefore paren hparen =>
    rw [List.append_assoc, List.cons_append, before.solidKind_eq hparen rfl]
    decide

/-- Behind a name that an operand starts with comes no sign of a named argument. -/
theorem IsOperand.solidKind_ne {E : Nat → List Token → Prop} {inWith : Prop} {tokens : List Token}
    (h : IsOperand E inWith tokens) {t : Token} {more rest : List Token}
    (ht : t.kind.isNameLike = true)
    (htokens : tokens = t :: more) (hrest : solidKind rest ≠ .lexeme .colonEqual) :
    solidKind (more ++ rest) ≠ .lexeme .colonEqual := by
  have hword {k : Keyword} (hk : k.isSoft = false) : t.kind ≠ .keyword k := by
    intro hkind
    rw [hkind] at ht
    exact absurd (hk.symm.trans ht) Bool.false_ne_true
  cases h with
  | addressOf word hkind => exact absurd ((List.cons.inj htokens).1 ▸ hkind) (hword rfl)
  | new word hkind => exact absurd ((List.cons.inj htokens).1 ▸ hkind) (hword rfl)
  | typeOf word hkind => exact absurd ((List.cons.inj htokens).1 ▸ hkind) (hword rfl)
  | primary hbase hsuffixes =>
    cases hbase with
    | literal u => exact (List.cons.inj htokens).2 ▸ hsuffixes.solidKind_ne hrest
    | parenthesized paren hparen =>
      obtain rfl := (List.cons.inj htokens).1
      rw [hparen] at ht
      cases ht
    | designator hname =>
      cases hname with
      | name u => exact (List.cons.inj htokens).2 ▸ hsuffixes.solidKind_ne hrest
      | access _ sign hsign =>
        obtain rfl := (List.cons.inj htokens).1
        rw [isAccessSign_of_isNameLike ht] at hsign
        cases hsign

/-- Behind a name that an expression starts with comes no sign of a named argument. -/
theorem IsExpression.solidKind_ne {inWith : Prop} {least : Nat} {tokens : List Token}
    (h : IsExpression inWith least tokens) {t : Token} {more rest : List Token}
    (ht : t.kind.isNameLike = true) (htokens : tokens = t :: more)
    (hrest : solidKind rest ≠ .lexeme .colonEqual) :
    solidKind (more ++ rest) ≠ .lexeme .colonEqual := by
  cases h with
  | operand h => exact h.solidKind_ne ht htokens hrest
  | prefixed op power hop =>
    obtain rfl := (List.cons.inj htokens).1
    rw [unaryPower?_of_isOperand (by simp [isOperand, ht])] at hop
    cases hop
  | joined hleft before op power hop _ after hright =>
    obtain ⟨u, left, rfl, -⟩ := hleft.exists_cons
    rw [List.cons_append] at htokens
    obtain ⟨rfl, rfl⟩ := List.cons.inj htokens
    rw [List.append_assoc]
    refine hleft.solidKind_ne ht rfl ?_
    rw [List.append_assoc, List.cons_append,
      before.solidKind_eq rfl (EndsOperand.of_binaryPower? hop).solid]
    intro hcolon
    rw [hcolon] at hop
    cases hop

/-! ## Readings without failure -/

/-- From one state another one has been reached that stands in front of given tokens, with nothing
reported in between and everything around the same. -/
structure State.ReadsTo (s : State) (rest : List Token) (t : State) : Prop where
  rest : t.stream.rest = rest
  failures : t.failures = s.failures
  recovering : t.recovering = s.recovering
  withTargets : t.withTargets = s.withTargets
  lineMode : t.lineMode = s.lineMode

section

variable {s t u : State} {rest rest' : List Token} {token : Token} {α β : Type}

/-- Nothing is read, and nothing is reported. -/
theorem State.ReadsTo.of_rest (h : s.stream.rest = rest) : s.ReadsTo rest s :=
  ⟨h, rfl, rfl, rfl, rfl⟩

/-- What one production reads and then another is read by both in a row. -/
theorem State.ReadsTo.trans (h : s.ReadsTo rest t) (h' : t.ReadsTo rest' u) : s.ReadsTo rest' u :=
  ⟨h'.rest, h'.failures.trans h.failures, h'.recovering.trans h.recovering,
    h'.withTargets.trans h.withTargets, h'.lineMode.trans h.lineMode⟩

/-- Two productions read what the first and then the second reads. -/
theorem readsTo_bind {p : Production α} {f : α → Production β} (hp : s.ReadsTo rest (p.run s).2)
    (hf : (p.run s).2.ReadsTo rest' ((f (p.run s).1).run (p.run s).2).2) :
    s.ReadsTo rest' ((p >>= f).run s).2 :=
  hp.trans hf

/-- A test that succeeds chooses the first of two productions. -/
theorem readsTo_of_true {test : Production Bool} [Looks test] {p q : Production α}
    (htest : (test.run s).1 = true) (h : s.ReadsTo rest (p.run s).2) :
    s.ReadsTo rest ((test >>= fun b => if b = true then p else q).run s).2 := by
  rwa [run_bind, Looks.run_snd (p := test), if_pos htest]

/-- A test that fails chooses the second of two productions. -/
theorem readsTo_of_false {test : Production Bool} [Looks test] {p q : Production α}
    (htest : (test.run s).1 = false) (h : s.ReadsTo rest (q.run s).2) :
    s.ReadsTo rest ((test >>= fun b => if b = true then p else q).run s).2 := by
  rwa [run_bind, Looks.run_snd (p := test), htest, if_neg Bool.false_ne_true]

/-- Within a node of its own a production reads the same. -/
theorem readsTo_within {k : NodeKind} {p : Production α}
    (h : (s.opening k).ReadsTo rest (p.run (s.opening k)).2) :
    s.ReadsTo rest ((within k p).run s).2 :=
  ⟨h.rest, h.failures, h.recovering, h.withTargets, h.lineMode⟩

/-- As the content of a node a production reads the same. -/
theorem readsTo_composite {k : NodeKind} {p : Production Unit}
    (h : (s.opening k).ReadsTo rest (p.run (s.opening k)).2) :
    s.ReadsTo rest ((composite k p).run s).2 :=
  ⟨h.rest, h.failures, h.recovering, h.withTargets, h.lineMode⟩

/-- As the content of a node opened at a checkpoint a production reads the same. -/
theorem readsTo_compositeFrom {cp : Checkpoint} {k : NodeKind} {p : Production Unit}
    (h : (s.openingAt cp k).ReadsTo rest (p.run (s.openingAt cp k)).2) :
    s.ReadsTo rest ((compositeFrom cp k p).run s).2 :=
  ⟨h.rest, h.failures, h.recovering, h.withTargets, h.lineMode⟩

/-- To put a node around what is there reads nothing. -/
theorem readsTo_compositeFrom_pure (cp : Checkpoint) (k : NodeKind) (h : s.stream.rest = rest) :
    s.ReadsTo rest ((compositeFrom cp k (pure ())).run s).2 :=
  ⟨h, rfl, rfl, rfl, rfl⟩

/-! ### Moves -/

/-- To shift reads the token at the cursor. -/
theorem readsTo_shift {k : Kind} (hk : token.kind = k) (hend : k ≠ .lexeme .endOfFile)
    (h : s.stream.rest = token :: rest) : s.ReadsTo rest (shift.run s).2 := by
  have hcurrent : s.stream.current.kind ≠ .lexeme .endOfFile := by
    rwa [TokenStream.current_of_rest h, hk]
  have hadvance := TokenStream.rest_advance (TokenStream.ahead_ne_nil hcurrent)
  rw [h] at hadvance
  rw [run_shift hcurrent]
  exact ⟨(List.cons.inj hadvance).2.symm, rfl, rfl, rfl, rfl⟩

/-- To skip blanks reads up to the next word. -/
theorem readsTo_skipBlanks (blanks : Blanks) (ht : token.kind.isInlineTrivia = false)
    (h : s.stream.rest = blanks.tokens ++ token :: rest) :
    s.ReadsTo (token :: rest) (skipBlanks.run s).2 := by
  rw [run_skipBlanks_past blanks ht h]
  exact ⟨State.rest_past h (List.cons_ne_nil _ _) _, rfl, rfl, rfl, rfl⟩

/-- To shift the next word reads it with the blanks in front of it. -/
theorem readsTo_shiftNext (blanks : Blanks) {k : Kind} (hk : token.kind = k)
    (hsolid : k.isInlineTrivia = false) (hend : k ≠ .lexeme .endOfFile)
    (h : s.stream.rest = blanks.tokens ++ token :: rest) : s.ReadsTo rest (shiftNext.run s).2 := by
  have hskip := readsTo_skipBlanks blanks (by rwa [hk]) h
  exact readsTo_bind hskip (readsTo_shift hk hend hskip.rest)

/-- A token that is asked for is found. -/
theorem run_expect (blanks : Blanks) {k : Kind} (hk : token.kind = k)
    (hsolid : k.isInlineTrivia = false)
    (h : s.stream.rest = blanks.tokens ++ token :: rest) :
    (expect k).run s = (true, (shiftNext.run s).2) := by
  refine run_expect_of_eq ?_
  rw [kind_peekSignificant, h, blanks.solidKind_eq hk hsolid]

/-- A word that is expected and comes next is read without a failure. -/
theorem readsTo_expect (blanks : Blanks) {k : Kind} (hk : token.kind = k)
    (hsolid : k.isInlineTrivia = false) (hend : k ≠ .lexeme .endOfFile)
    (h : s.stream.rest = blanks.tokens ++ token :: rest) : s.ReadsTo rest ((expect k).run s).2 := by
  rw [run_expect blanks hk hsolid h]
  exact readsTo_shiftNext blanks hk hsolid hend h

/-! ### Names -/

/-- The end marker names no member. -/
theorem ne_endOfFile_of_isMemberName {k : Kind} (h : k.isMemberName = true) :
    k ≠ .lexeme .endOfFile := by
  rintro rfl
  cases h

/-- A word that can be a name can name a member. -/
theorem isMemberName_of_isNameLike {k : Kind} (h : k.isNameLike = true) :
    k.isMemberName = true := by
  unfold Kind.isNameLike at h
  split at h <;> first | rfl | cases h

/-- A name that stands at the cursor is read as an expression. -/
theorem readsTo_nameExpression (h : s.stream.rest = token :: rest)
    (hend : token.kind ≠ .lexeme .endOfFile) : s.ReadsTo rest (nameExpression.run s).2 :=
  readsTo_composite (readsTo_shift (s := s.opening .identifierExpression) rfl hend h)

/-- A name of a member that stands at the cursor is read without a failure. -/
theorem readsTo_memberName (h : s.stream.rest = token :: rest)
    (hname : token.kind.isMemberName = true) :
    s.ReadsTo rest (memberName.run s).2 := by
  unfold memberName current
  rw [run_look_bind, TokenStream.current_of_rest h, if_pos hname]
  exact readsTo_nameExpression h (ne_endOfFile_of_isMemberName hname)

/-- A sign and the name of a member right behind it. -/
theorem readsTo_member {sign name : Token} (h : s.stream.rest = sign :: name :: rest)
    (hsign : isAccessSign sign.kind = true) (hname : name.kind.isMemberName = true) :
    s.ReadsTo rest ((do shift; memberName : Production Unit).run s).2 := by
  have hend : sign.kind ≠ .lexeme .endOfFile := Kind.ne_endOfFile_of (f := isAccessSign) hsign rfl
  have hshift := readsTo_shift rfl hend h
  exact readsTo_bind hshift (readsTo_memberName hshift.rest hname)

/-- Within a `With`, an access refers to its header. -/
theorem readsTo_referToHeader (sign : Token) (access : Option Tree) (h : s.withTargets ≠ []) :
    s.ReadsTo s.stream.rest ((referToHeader sign access).run s).2 := by
  unfold referToHeader
  rw [run_bind, run_get]
  split
  next hnone => exact absurd hnone h
  next => exact ⟨rfl, rfl, rfl, rfl, rfl⟩
  next => exact .of_rest rfl

/-- Within a `With`, a sign and the name of a member are read as an access. -/
theorem readsTo_leadingAccess {sign name : Token} (h : s.stream.rest = sign :: name :: rest)
    (hsign : isAccessSign sign.kind = true) (hname : name.kind.isMemberName = true)
    (hwith : s.withTargets ≠ []) : s.ReadsTo rest (leadingAccess.run s).2 := by
  have haccess := readsTo_composite (k := accessKind s.stream.current.kind)
    (readsTo_member (s := s.opening _) h hsign hname)
  have hheader := readsTo_referToHeader s.stream.current
    ((composite (accessKind s.stream.current.kind) do shift; memberName).run s).1
    (haccess.withTargets ▸ hwith)
  rw [haccess.rest] at hheader
  exact haccess.trans hheader

/-! ### What comes next -/

/-- The kind at the cursor is that of the first token ahead. -/
theorem kind_current (h : s.stream.rest = rest) : s.stream.current.kind = frontKind rest := h ▸ rfl

/-- The kind of the next word is that of the first word ahead. -/
theorem kind_next (h : s.stream.rest = rest) : (s.stream.peekSignificant 0).kind = solidKind rest :=
  h ▸ kind_peekSignificant s

/-- The kind of the word behind the next one is that of the first word behind the first token. -/
theorem kind_second (h : s.stream.rest = token :: rest) (ht : token.kind.isInlineTrivia = false)
    (hend : token.kind ≠ .lexeme .endOfFile) :
    (s.stream.peekSignificant 1).kind = solidKind rest := by
  have hcurrent : s.stream.current = token := TokenStream.current_of_rest h
  rw [← TokenStream.peekSignificant_advance_succ (by rwa [hcurrent])
    (TokenStream.ahead_ne_nil (by rwa [hcurrent]))]
  have hshift := readsTo_shift rfl hend h
  rw [run_shift (by rwa [hcurrent])] at hshift
  exact hshift.rest ▸ kind_peekSignificant s.shifted

/-- The kind behind the cursor is that of the second token ahead. -/
theorem kind_peek_one (h : s.stream.rest = rest) : (s.stream.peek 1).kind = frontKind rest.tail :=
  h ▸ (TokenStream.frontKind_tail_rest s.stream).symm

/-- Where a word stands in front it is the first word. -/
theorem solidKind_eq_frontKind {tokens : List Token}
    (h : (frontKind tokens).isInlineTrivia = false) :
    solidKind tokens = frontKind tokens := by
  cases tokens with
  | nil => rfl
  | cons t tokens => exact solidKind_cons h tokens

/-- A sign at the cursor is what comes next. -/
theorem isAccessSign_frontKind {tokens : List Token} (h : isAccessSign (solidKind tokens) = false) :
    isAccessSign (frontKind tokens) = false := by
  rw [← Bool.not_eq_true]
  intro hsign
  have hsolid := isInlineTrivia_of_startsExpression (startsExpression_of_isAccessSign hsign)
  rw [solidKind_eq_frontKind hsolid, hsign] at h
  cases h

/-! ### Names of types -/

/-- The names that qualify another one are read up to the last. -/
theorem readsTo_qualifiers {names : List Token} (hnames : IsQualifiers names)
    (h : s.stream.rest = names ++ rest) (hends : EndsOperand (solidKind rest)) :
    s.ReadsTo rest ((repeatWhile atQualifier do shift; shift).run s).2 := by
  have htest : atQualifier.run s = ((frontKind (names ++ rest) == .lexeme .period &&
      (frontKind (names ++ rest).tail).isMemberName), s) := by
    rw [atQualifier, run_look, kind_current h, kind_peek_one h]
  induction hnames generalizing s with
  | none =>
    have hperiod : frontKind rest ≠ .lexeme .period := by
      intro hperiod
      have hsign := isAccessSign_frontKind hends.noMember
      rw [hperiod] at hsign
      cases hsign
    rw [List.nil_append, beq_false_of_ne hperiod, Bool.false_and] at htest
    rw [run_repeatWhile_of_false htest]
    exact .of_rest h
  | next sign hsign name hname hrest ih =>
    have hnext : (atQualifier.run s).1 = true := by
      rw [htest]
      exact Bool.and_eq_true_iff.mpr ⟨beq_iff_eq.mpr hsign, hname⟩
    have hshift := readsTo_shift hsign (by decide) h
    have hpass := hshift.trans (readsTo_shift rfl (ne_endOfFile_of_isMemberName hname) hshift.rest)
    rw [run_repeatWhile_of_true hnext]
    refine hpass.trans (ih hpass.rest ?_)
    rw [atQualifier, run_look, kind_current hpass.rest, kind_peek_one hpass.rest]
    rfl

/-- The name of a type is read to its end. -/
theorem readsTo_typeName {name : List Token} (hname : IsTypeName name)
    (h : s.stream.rest = name ++ rest)
    (hends : EndsOperand (solidKind rest)) : s.ReadsTo rest (typeName.run s).2 := by
  obtain ⟨t, ht, hrest⟩ := hname
  have hshift := readsTo_shift (s := s.opening .typeReference) rfl
    (ne_endOfFile_of_isMemberName (isMemberName_of_isNameLike ht)) h
  have hcurrent : (s.opening .typeReference).stream.current.kind.isNameLike = true := by
    rw [kind_current (s := s.opening .typeReference) h]
    exact ht
  refine readsTo_composite ?_
  rw [run_bind, run_currentKind, if_pos hcurrent]
  exact readsTo_bind hshift (readsTo_qualifiers hrest hshift.rest hends)

/-- A name of a type, behind blanks. -/
theorem readsTo_skipBlanks_typeName (blanks : Blanks) {name : List Token} (hname : IsTypeName name)
    (h : s.stream.rest = blanks.tokens ++ (name ++ rest)) (hends : EndsOperand (solidKind rest)) :
    s.ReadsTo rest ((do skipBlanks; let _ ← typeName : Production Unit).run s).2 := by
  obtain ⟨t, more, rfl, ht⟩ : ∃ t more, name = t :: more ∧ t.kind.isInlineTrivia = false := by
    obtain ⟨t, ht, -⟩ := hname
    exact ⟨t, _, rfl, isInlineTrivia_of_startsExpression (startsExpression_of_isNameLike ht)⟩
  have hskip := readsTo_skipBlanks blanks ht h
  exact readsTo_bind hskip (readsTo_typeName hname hskip.rest hends)

end

/-! ## Within an expression -/

/-- Whether expressions of fewer than `n` tokens are read: each of them up to a tail of it, behind
which operators have a lower power than those that are asked for. -/
def ReadsShorter (inWith : Prop) (n : Nat) : Prop :=
  ∀ ⦃s : State⦄ ⦃least power : Nat⦄ ⦃before : Blanks⦄ ⦃tokens rest : List Token⦄,
    IsExpression inWith least tokens → tokens.length < n → least ≤ power →
    s.stream.rest = before.tokens ++ (tokens ++ rest) → (inWith → s.withTargets ≠ []) →
    EndsExpression least (solidKind rest) →
    ∃ left, IsTail inWith least left ∧ left.length < tokens.length ∧
      EndsExpression power (solidKind (left ++ rest)) ∧
      s.ReadsTo (left ++ rest) ((expressionAbove power).run s).2

section

variable {inWith : Prop} {n : Nat} {s : State} {rest : List Token}

/-- An expression is read to its end where no higher power is asked for than it has. -/
theorem ReadsShorter.readsTo (hn : ReadsShorter inWith n) {least : Nat} {before : Blanks}
    {tokens : List Token} (he : IsExpression inWith least tokens) (hlength : tokens.length < n)
    (h : s.stream.rest = before.tokens ++ (tokens ++ rest)) (hwith : inWith → s.withTargets ≠ [])
    (hends : EndsExpression least (solidKind rest)) :
    s.ReadsTo rest ((expressionAbove least).run s).2 := by
  obtain ⟨left, hleft, -, hbehind, hreads⟩ := hn he hlength (Nat.le_refl least) h hwith hends
  cases hleft with
  | none => exact hreads
  | joined between op power hop hpower after hright =>
    -- an operator of the expression would have a lower power than the expression
    rw [List.append_assoc, List.cons_append,
      between.solidKind_eq rfl (EndsOperand.of_binaryPower? hop).solid] at hbehind
    exact absurd (hbehind.lower power hop) (Nat.not_lt_of_le hpower)

/-! ### Arguments -/

/-- What is passed as an argument has a first token, and it starts an expression. -/
theorem IsPassed.exists_cons {tokens : List Token} (h : IsPassed (IsExpression inWith 0) tokens) :
    ∃ t more, tokens = t :: more ∧ startsExpression t.kind = true := by
  cases h with
  | placed h => exact h.exists_cons
  | named name hname => exact ⟨name, _, rfl, startsExpression_of_isNameLike hname⟩

/-- What may come next behind an argument. -/
def endsArgument (k : Kind) : Bool := k == .lexeme .comma || k == .lexeme .rightParen

/-- What ends an argument ends the expression in it. -/
theorem endsExpression_of_endsArgument {k : Kind} (h : endsArgument k = true) :
    EndsExpression 0 k := by
  rw [endsArgument, Bool.or_eq_true, beq_iff_eq, beq_iff_eq] at h
  rcases h with rfl | rfl <;> exact ⟨⟨rfl, rfl, by decide⟩, fun _ hq => by cases hq⟩

/-- What is passed as an argument is read to its end. -/
theorem readsTo_passed (hn : ReadsShorter inWith n) {tokens : List Token}
    (hpassed : IsPassed (IsExpression inWith 0) tokens) (hlength : tokens.length < n)
    (h : s.stream.rest = tokens ++ rest) (hwith : inWith → s.withTargets ≠ [])
    (hends : endsArgument (solidKind rest) = true) :
    s.ReadsTo rest
      ((do optionalParameterName; let _ ← expressionAbove 0 : Production Unit).run s).2 := by
  -- a value that is passed by its place must not be taken for the name of a parameter
  cases hpassed with
  | placed hvalue =>
    obtain ⟨t, more, rfl, ht⟩ := hvalue.exists_cons
    have hnamed : (atNamedArgument.run s).1 = false := by
      change (s.stream.current.kind.isNameLike && (s.stream.peekSignificant 1).kind == _) = false
      rw [Bool.and_eq_false_imp, kind_current h]
      intro hname
      have hcolon : solidKind rest ≠ .lexeme .colonEqual := by
        intro hcolon
        rw [hcolon] at hends
        cases hends
      have hsecond := hvalue.solidKind_ne hname rfl hcolon
      rw [kind_second h (isInlineTrivia_of_startsExpression ht)
        (ne_endOfFile_of_isMemberName (isMemberName_of_isNameLike hname))]
      exact beq_eq_false_iff_ne.mpr hsecond
    have hnone : s.ReadsTo s.stream.rest (optionalParameterName.run s).2 := by
      unfold optionalParameterName
      exact readsTo_of_false hnamed (.of_rest rfl)
    refine readsTo_bind hnone ?_
    have hrest : (optionalParameterName.run s).2.stream.rest =
        Blanks.none.tokens ++ (t :: more ++ rest) := hnone.rest.trans h
    exact hn.readsTo hvalue hlength hrest
      (fun hin => hnone.withTargets ▸ hwith hin) (endsExpression_of_endsArgument hends)
  | @named name hname before sign hsign after value hvalue =>
    have hsolid := isInlineTrivia_of_startsExpression (startsExpression_of_isNameLike hname)
    have hend := ne_endOfFile_of_isMemberName (isMemberName_of_isNameLike hname)
    rw [List.cons_append, List.append_assoc, List.cons_append, List.append_assoc] at h
    have hnamed : (atNamedArgument.run s).1 = true := by
      change (s.stream.current.kind.isNameLike && (s.stream.peekSignificant 1).kind == _) = true
      rw [kind_current h, kind_second h hsolid hend, before.solidKind_eq hsign rfl]
      exact Bool.and_eq_true_iff.mpr ⟨hname, rfl⟩
    have hparameter :
        s.ReadsTo (after.tokens ++ (value ++ rest)) (optionalParameterName.run s).2 := by
      unfold optionalParameterName
      refine readsTo_of_true hnamed ?_
      have hread := readsTo_nameExpression h hend
      exact readsTo_bind hread
        (readsTo_shiftNext before hsign rfl (by decide) hread.rest)
    refine readsTo_bind hparameter ?_
    refine hn.readsTo hvalue ?_ hparameter.rest (fun hin => hparameter.withTargets ▸ hwith hin)
      (endsExpression_of_endsArgument hends)
    simp only [List.length_cons, List.length_append] at hlength
    omega

/-- The kinds of the tokens that arguments start with. -/
def startsArgument (k : Kind) : Bool := startsExpression k || k == .keyword .byVal

/-- What starts an argument is no inline trivia. -/
theorem isInlineTrivia_of_startsArgument {k : Kind} (h : startsArgument k = true) :
    k.isInlineTrivia = false := by
  cases k with
  | trivia t => cases h
  | lexeme | keyword | node | unassigned => rfl

/-- An argument has a first token, and it starts an argument. -/
theorem IsArgument.exists_cons {tokens : List Token}
    (h : IsArgument (IsExpression inWith 0) tokens) :
    ∃ t more, tokens = t :: more ∧ startsArgument t.kind = true := by
  cases h with
  | passed h =>
    obtain ⟨t, more, htokens, ht⟩ := h.exists_cons
    exact ⟨t, more, htokens, by rw [startsArgument, ht, Bool.true_or]⟩
  | byValue word hword => exact ⟨word, _, rfl, by rw [hword]; rfl⟩

/-- An argument is read with the blanks in front of it. -/
theorem readsTo_argument (hn : ReadsShorter inWith n) {tokens : List Token}
    (hargument : IsArgument (IsExpression inWith 0) tokens) (hlength : tokens.length < n)
    (before : Blanks)
    (h : s.stream.rest = before.tokens ++ (tokens ++ rest)) (hwith : inWith → s.withTargets ≠ [])
    (hends : endsArgument (solidKind rest) = true) :
    s.ReadsTo rest ((argumentWith expressionAbove).run s).2 := by
  obtain ⟨t, more, rfl, ht⟩ := hargument.exists_cons
  have hskip := readsTo_skipBlanks before (isInlineTrivia_of_startsArgument ht) h
  unfold argumentWith
  refine readsTo_bind hskip (readsTo_within ?_)
  have hrest : ((skipBlanks.run s).2.opening .argument).stream.rest =
      t :: (more ++ rest) := hskip.rest
  have hwith' : inWith → ((skipBlanks.run s).2.opening .argument).withTargets ≠ [] :=
    fun hin => hskip.withTargets ▸ hwith hin
  generalize (skipBlanks.run s).2.opening .argument = s at hrest hwith'
  dsimp only
  -- a `ByVal` in front is read here; what is passed is read in the same way with it and without
  cases hargument with
  | passed hpassed =>
    have hbyVal : ((atCurrent (.keyword .byVal)).run s).1 = false := by
      change (s.stream.current.kind == _) = false
      rw [kind_current hrest, beq_eq_false_iff_ne]
      obtain ⟨u, more', htokens, hu⟩ := hpassed.exists_cons
      obtain ⟨rfl, rfl⟩ := List.cons.inj htokens
      intro hkind
      change t.kind = _ at hkind
      rw [hkind] at hu
      cases hu
    exact readsTo_of_false hbyVal (readsTo_passed hn hpassed hlength hrest hwith' hends)
  | @byValue word hword after passed hpassed =>
    have hbyVal : ((atCurrent (.keyword .byVal)).run s).1 = true := by
      change (s.stream.current.kind == _) = true
      rw [kind_current hrest]
      exact beq_iff_eq.mpr hword
    obtain ⟨u, more, rfl, hu⟩ := hpassed.exists_cons
    rw [List.append_assoc] at hrest
    have hshift := readsTo_shift hword (by decide) hrest
    have hblanks := readsTo_skipBlanks after (isInlineTrivia_of_startsExpression hu) hshift.rest
    have hboth := hshift.trans hblanks
    refine readsTo_of_true hbyVal (readsTo_bind hshift (readsTo_bind hblanks ?_))
    refine readsTo_passed hn hpassed ?_ hblanks.rest (fun hin => hboth.withTargets ▸
      hwith' hin) hends
    simp only [List.length_cons, List.length_append] at hlength ⊢
    omega

/-! ### Passes through arguments -/

section

variable {operand : Nat → Production (Option Tree)}

/-- At the parenthesis that closes them the arguments end. -/
theorem run_argumentPass_of_closed (h : (s.stream.peekSignificant 0).kind = .lexeme .rightParen)
    (u : Unit) :
    (argumentPass operand u).run s = (.done (), (shiftNext.run s).2) := by
  have hclosed : ((atCurrent (.lexeme .rightParen)).run (skipBlanks.run s).2).1 = true := by
    change ((skipBlanks.run s).2.stream.current.kind == _) = true
    rw [current_skipBlanks, h]
    rfl
  unfold argumentPass
  rw [run_bind, run_bind, Looks.run_snd (p := atCurrent _), if_pos hclosed]
  rfl

/-- An argument that is left out is passed over with its comma. -/
theorem run_argumentPass_of_omitted (h : (s.stream.peekSignificant 0).kind = .lexeme .comma)
    (u : Unit) :
    (argumentPass operand u).run s = (.again (), (shiftNext.run s).2) := by
  have hkind (k : Kind) : ((atCurrent k).run (skipBlanks.run s).2).1 = (.lexeme .comma == k) := by
    change ((skipBlanks.run s).2.stream.current.kind == k) = _
    rw [current_skipBlanks, h]
  unfold argumentPass
  rw [run_bind, run_bind, Looks.run_snd (p := atCurrent _), hkind, if_neg (by decide), run_bind,
    Looks.run_snd (p := atCurrent _), hkind, if_pos (by decide)]
  rfl

/-- An argument is read, with the comma behind it or the parenthesis that is asked for. -/
theorem run_argumentPass_of_argument (h : startsArgument (s.stream.peekSignificant 0).kind = true)
    (u : Unit) :
    (argumentPass operand u).run s =
      (do
        argumentWith operand
        if ← atNext (.lexeme .comma) then
          shiftNext
          return .again ()
        let _ ← expect (.lexeme .rightParen)
        return .done () : Production (Pass Unit Unit)).run s := by
  have hkind {k : Kind} (hk : startsArgument k = false) :
      ((atCurrent k).run (skipBlanks.run s).2).1 = false := by
    change ((skipBlanks.run s).2.stream.current.kind == k) = _
    rw [current_skipBlanks, beq_eq_false_iff_ne]
    rintro rfl
    exact Bool.false_ne_true (hk.symm.trans h)
  -- what starts an argument ends no statement, so the pass comes to its last branch
  have hwithin : (atStatementEnd.run (skipBlanks.run s).2).1 = false := by
    change endsStatement ((skipBlanks.run s).2.stream.peekSignificant 0).kind _ = false
    rw [TokenStream.peekSignificant_zero (isInlineTrivia_skipBlanks s), current_skipBlanks]
    unfold endsStatement
    split
    case h_7 => rfl
    all_goals
      next hend =>
        rw [hend] at h
        exact absurd h (by decide)
  unfold argumentPass
  rw [run_bind, run_bind, Looks.run_snd (p := atCurrent _), hkind rfl, if_neg Bool.false_ne_true,
    run_bind, Looks.run_snd (p := atCurrent _), hkind rfl, if_neg Bool.false_ne_true,
    run_bind, Looks.run_snd (p := atStatementEnd), hwithin, if_neg Bool.false_ne_true]
  unfold argumentWith
  rw [run_bind, run_skipBlanks_bind]
  rfl

end

/-- The next word in front of an argument starts an argument. -/
theorem kind_next_of_argument {tokens : List Token} (h : IsArgument (IsExpression inWith 0) tokens)
    (before : Blanks) (hrest : s.stream.rest = before.tokens ++ (tokens ++ rest)) :
    startsArgument (s.stream.peekSignificant 0).kind = true := by
  obtain ⟨t, more, rfl, ht⟩ := h.exists_cons
  rwa [kind_next hrest, before.solidKind_append, List.cons_append,
    solidKind_cons (isInlineTrivia_of_startsArgument ht)]

/-- Arguments are read up to the parenthesis that closes them. -/
theorem readsTo_arguments (hn : ReadsShorter inWith n) {tokens : List Token}
    (harguments : IsArguments (IsExpression inWith 0) tokens) (hlength : tokens.length ≤ n)
    (h : s.stream.rest = tokens ++ rest) (hwith : inWith → s.withTargets ≠ []) :
    s.ReadsTo rest ((iterate (fun _ => ()) (argumentPass expressionAbove) ()).run s).2 := by
  -- the arguments end in two of the cases and go on in the others, as a step of the loop does
  induction harguments generalizing s with
  | closed before paren hparen =>
    rw [List.append_assoc] at h
    have hnext : (s.stream.peekSignificant 0).kind = .lexeme .rightParen := by
      rw [kind_next h, List.cons_append, before.solidKind_eq hparen rfl]
    have hpass : (argumentPass expressionAbove ()).run s = _ := run_argumentPass_of_closed hnext ()
    rw [run_iterate_of_done (by rw [hpass]), hpass]
    exact readsTo_shiftNext before hparen rfl (by decide) h
  | omitted before comma hcomma _ ih =>
    rw [List.append_assoc] at h
    have hnext : (s.stream.peekSignificant 0).kind = .lexeme .comma := by
      rw [kind_next h, List.cons_append, before.solidKind_eq hcomma rfl]
    have hpass : (argumentPass expressionAbove ()).run s = _ := run_argumentPass_of_omitted hnext ()
    have hread := readsTo_shiftNext before hcomma rfl (by decide) h
    rw [run_iterate_of_again (by rw [hpass]), hpass]
    refine hread.trans (ih ?_ hread.rest fun hin => hread.withTargets ▸ hwith hin)
    simp only [List.length_append, List.length_cons] at hlength
    omega
  | last before hargument behind paren hparen =>
    rw [List.append_assoc, List.append_assoc, List.append_assoc] at h
    simp only [List.length_append, List.length_cons] at hlength
    have hbehind : solidKind (behind.tokens ++ ([paren] ++ rest)) = .lexeme .rightParen := by
      rw [List.cons_append, behind.solidKind_eq hparen rfl]
    have hread := readsTo_argument hn hargument (by omega) before h hwith (by rw [hbehind]; rfl)
    have hcomma :
        ((atNext (.lexeme .comma)).run ((argumentWith expressionAbove).run s).2).1 = false := by
      change ((((argumentWith expressionAbove).run s).2.stream.peekSignificant 0).kind == _) = false
      rw [kind_next hread.rest, hbehind]
      rfl
    have hpass : (argumentPass expressionAbove ()).run s =
        (.done (),
          ((expect (.lexeme .rightParen)).run ((argumentWith expressionAbove).run s).2).2) := by
      rw [run_argumentPass_of_argument (kind_next_of_argument hargument before h),
        run_bind, run_bind, Looks.run_snd (p := atNext _), hcomma]
      rfl
    rw [run_iterate_of_done (by rw [hpass]), hpass]
    exact hread.trans (readsTo_expect behind hparen rfl (by decide) hread.rest)
  | @next before argument hargument behind comma hcomma later _ ih =>
    rw [List.append_assoc, List.append_assoc, List.append_assoc] at h
    simp only [List.length_append, List.length_cons] at hlength
    have hbehind : solidKind (behind.tokens ++ (comma :: later ++ rest)) = .lexeme .comma := by
      rw [List.cons_append, behind.solidKind_eq hcomma rfl]
    have hread := readsTo_argument hn hargument (by omega) before h hwith (by rw [hbehind]; rfl)
    have hnext :
        ((atNext (.lexeme .comma)).run ((argumentWith expressionAbove).run s).2).1 = true := by
      change ((((argumentWith expressionAbove).run s).2.stream.peekSignificant 0).kind == _) = true
      rw [kind_next hread.rest, hbehind]
      rfl
    have hpass : (argumentPass expressionAbove ()).run s =
        (.again (), (shiftNext.run ((argumentWith expressionAbove).run s).2).2) := by
      rw [run_argumentPass_of_argument (kind_next_of_argument hargument before h),
        run_bind, run_bind, Looks.run_snd (p := atNext _), hnext]
      rfl
    have hboth := hread.trans
      (readsTo_shiftNext behind hcomma rfl (by decide) hread.rest)
    rw [run_iterate_of_again (by rw [hpass]), hpass]
    exact hboth.trans (ih (by omega) hboth.rest fun hin => hboth.withTargets ▸ hwith hin)

/-- Arguments in parentheses are read. -/
theorem readsTo_argumentList (hn : ReadsShorter inWith n) {paren : Token}
    (hparen : paren.kind = .lexeme .leftParen) {inner : List Token}
    (hinner : IsArguments (IsExpression inWith 0) inner) (hlength : inner.length ≤ n)
    (h : s.stream.rest = paren :: (inner ++ rest)) (hwith : inWith → s.withTargets ≠ []) :
    s.ReadsTo rest ((argumentListWith expressionAbove).run s).2 := by
  have hshift := readsTo_shift (s := s.opening .argumentList) hparen (by decide) h
  unfold argumentListWith
  refine readsTo_within (readsTo_bind hshift ?_)
  exact readsTo_arguments hn hinner hlength hshift.rest fun hin => hshift.withTargets ▸ hwith hin

/-! ### Members and arguments -/

/-- Where an operand ends no suffix follows. -/
theorem run_suffixPass_of_endsOperand {operand : Nat → Production (Option Tree)}
    (h : EndsOperand (solidKind s.stream.rest)) (cp : Checkpoint) (spacedCall : Bool)
    (base : Option Tree) :
    (suffixPass operand cp spacedCall base).run s = (.done base, s) := by
  have hparen : (s.stream.peekSignificant 0).kind ≠ .lexeme .leftParen := by
    rw [kind_next rfl]
    exact h.noArguments
  refine run_suffixPass_of_none ?_ ?_
  · change (isAccessSign (frontKind s.stream.rest) && _) = false
    rw [isAccessSign_frontKind h.noMember, Bool.false_and]
  · rw [← Bool.not_eq_true]
    exact fun harguments => hparen (kind_next_of_atArguments harguments)

/-- A parenthesis opens arguments behind blanks where a call may be spaced, and elsewhere without
any. -/
theorem atArguments_of_blanks (before : Blanks) {spacedCall : Bool}
    (hbefore : spacedCall = false → before.tokens = []) {paren : Token}
    (hparen : paren.kind = .lexeme .leftParen)
    (h : s.stream.rest = before.tokens ++ paren :: rest) :
    ((atArguments spacedCall).run s).1 = true := by
  have hnext : (s.stream.peekSignificant 0).kind = .lexeme .leftParen := by
    rw [kind_next h, before.solidKind_eq hparen rfl]
  change (s.stream.current.kind == .lexeme .leftParen ||
    (spacedCall && s.stream.current.kind.isInlineTrivia &&
    (s.stream.peekSignificant 0).kind == .lexeme .leftParen)) = true
  rw [kind_current h, hnext]
  obtain ⟨tokens, hinline⟩ := before
  cases tokens with
  | nil =>
    change (paren.kind == _ || _) = true
    rw [hparen]
    rfl
  | cons u tokens =>
    have hspaced : spacedCall = true := by
      rw [← Bool.not_eq_false]
      exact fun hnone => List.cons_ne_nil _ _ (hbefore hnone)
    have hblank : (frontKind (u :: tokens ++ paren :: rest)).isInlineTrivia = true :=
      hinline u (List.mem_cons_self ..)
    rw [hspaced, hblank]
    exact Bool.or_true _

/-- Members and arguments are read behind whatever they go on. -/
theorem readsTo_suffixes (hn : ReadsShorter inWith n) {spacedCall : Bool} {tokens : List Token}
    (hsuffixes : IsSuffixes (IsExpression inWith 0) spacedCall tokens) (hlength : tokens.length ≤ n)
    (h : s.stream.rest = tokens ++ rest) (hwith : inWith → s.withTargets ≠ [])
    (hends : EndsOperand (solidKind rest)) (cp : Checkpoint) (base : Option Tree) :
    s.ReadsTo rest ((suffixesWith expressionAbove cp spacedCall base).run s).2 := by
  -- one step of the loop for each suffix, and a last one that finds none
  induction hsuffixes generalizing s base with
  | none =>
    have hpass : (suffixPass expressionAbove cp spacedCall base).run s = _ :=
      run_suffixPass_of_endsOperand (by rwa [show s.stream.rest = rest from h]) cp spacedCall base
    rw [suffixesWith, run_iterate_of_done (by rw [hpass]), hpass]
    exact .of_rest h
  | member sign hsign name hname _ ih =>
    have hmember : (atMemberAccess.run s).1 = true := by
      change (isAccessSign s.stream.current.kind && (s.stream.peek 1).kind.isMemberName) = true
      rw [kind_current h, kind_peek_one h]
      exact Bool.and_eq_true_iff.mpr ⟨hsign, hname⟩
    have hpass : (suffixPass expressionAbove cp spacedCall base).run s = _ :=
      run_suffixPass_of_member hmember
    have hread := readsTo_compositeFrom
      (readsTo_member (s := s.openingAt cp (accessKind s.stream.current.kind)) h hsign hname)
    rw [suffixesWith, run_iterate_of_again (by rw [hpass]), hpass]
    refine hread.trans (ih ?_ hread.rest (fun hin => hread.withTargets ▸ hwith hin) _)
    simp only [List.length_cons] at hlength
    omega
  | @arguments before hbefore paren hparen inner hinner later _ ih =>
    rw [List.append_assoc, List.cons_append, List.append_assoc] at h
    simp only [List.length_append, List.length_cons] at hlength
    have hsolid : solidKind s.stream.rest = .lexeme .leftParen := by
      rw [h, before.solidKind_eq hparen rfl]
    have hmember : (atMemberAccess.run s).1 = false := by
      change (isAccessSign (frontKind s.stream.rest) && _) = false
      rw [isAccessSign_frontKind (by rw [hsolid]; rfl), Bool.false_and]
    have harguments := atArguments_of_blanks before hbefore hparen h
    have hpass : (suffixPass expressionAbove cp spacedCall base).run s = _ :=
      run_suffixPass_of_arguments hmember harguments
    have hskip :=
      readsTo_skipBlanks (s := s.openingAt cp .callExpression) before (by rw [hparen]; rfl) h
    have hread : s.ReadsTo (later ++ rest)
        ((compositeFrom cp .callExpression do skipBlanks; argumentListWith expressionAbove).run
          s).2 :=
      readsTo_compositeFrom (readsTo_bind hskip
        (readsTo_argumentList hn hparen hinner (by omega) hskip.rest fun hin =>
          hskip.withTargets ▸ hwith hin))
    rw [suffixesWith, run_iterate_of_again (by rw [hpass]), hpass]
    exact hread.trans (ih (by omega) hread.rest (fun hin => hread.withTargets ▸ hwith hin) _)

/-! ### Operands -/

/-- A designator is read with the suffixes behind it. -/
theorem readsTo_designator (hn : ReadsShorter inWith n) {spacedCall : Bool}
    {base suffixes : List Token}
    (hbase : IsDesignator inWith base)
    (hsuffixes : IsSuffixes (IsExpression inWith 0) spacedCall suffixes)
    (hlength : suffixes.length ≤ n) (before : Blanks)
    (h : s.stream.rest = before.tokens ++ (base ++ (suffixes ++ rest)))
    (hwith : inWith → s.withTargets ≠ []) (hends : EndsOperand (solidKind rest)) (wanted : Wanted) :
    s.ReadsTo rest ((designatorWith expressionAbove wanted spacedCall).run s).2 := by
  obtain ⟨t, more, htokens, ht⟩ := hbase.exists_cons
  rw [htokens] at h
  have hskip := readsTo_skipBlanks before
    (isInlineTrivia_of_startsExpression (startsExpression_of_startsPrimary ht)) h
  have hrest : (skipBlanks.run s).2.stream.rest = base ++ (suffixes ++ rest) := by
    rw [hskip.rest, htokens]
    rfl
  unfold designatorWith
  refine readsTo_bind hskip ?_
  rw [run_bind, run_checkpoint, run_bind, run_currentKind, kind_current hrest]
  have hread : ∀ {p : Production (Option Tree)},
      (skipBlanks.run s).2.ReadsTo (suffixes ++ rest) (p.run (skipBlanks.run s).2).2 →
      (skipBlanks.run s).2.ReadsTo rest ((p >>= suffixesWith expressionAbove
        (skipBlanks.run s).2.builder.checkpoint spacedCall).run (skipBlanks.run s).2).2 := fun hp =>
    readsTo_bind hp (readsTo_suffixes hn hsuffixes hlength hp.rest
      (fun hin => (hskip.trans hp).withTargets ▸ hwith hin) hends _ _)
  -- a name and an access differ in what stands in front; the suffixes are read alike
  cases hbase with
  | name u hu =>
    have hfront : frontKind ([u] ++ (suffixes ++ rest)) = u.kind := rfl
    rw [hfront, isAccessSign_of_isNameLike hu, if_neg Bool.false_ne_true, if_pos hu]
    exact hread
      (readsTo_nameExpression hrest (ne_endOfFile_of_isMemberName (isMemberName_of_isNameLike hu)))
  | access hin sign hsign name hname =>
    have hfront : frontKind ([sign, name] ++ (suffixes ++ rest)) = sign.kind := rfl
    rw [hfront, if_pos hsign]
    exact hread (readsTo_leadingAccess hrest hsign hname (hskip.withTargets ▸ hwith hin))

/-- Without a comma behind its first item a list has no further one. -/
theorem run_commaList_of_last {item : Production Unit}
    (h : ((atNext (.lexeme .comma)).run (item.run s).2).1 = false) :
    (commaList item).run s = ((), (item.run s).2) := by
  unfold commaList
  rw [run_bind]
  exact run_repeatWhile_of_false (Prod.ext h rfl)

/-- Behind a comma the rest of a list is read as a list. -/
theorem run_commaList_of_comma {item : Production Unit} [Composed false item]
    (h : ((atNext (.lexeme .comma)).run (item.run s).2).1 = true) :
    (commaList item).run s = (commaList item).run (shiftNext.run (item.run s).2).2 := by
  unfold commaList
  rw [run_bind]
  exact run_repeatWhile_of_true h

/-- Values with commas between them are read with the parenthesis behind them. -/
theorem readsTo_values (hn : ReadsShorter inWith n) {item : Production Unit} [Composed false item]
    (hitem : ∀ s, (item.run s).2 = ((expressionAbove 0).run s).2) {tokens : List Token}
    (hvalues : IsValues (IsExpression inWith 0) tokens) (hlength : tokens.length ≤ n)
    (h : s.stream.rest = tokens ++ rest) (hwith : inWith → s.withTargets ≠ []) :
    s.ReadsTo rest
      ((do commaList item; let _ ← expect (.lexeme .rightParen) : Production Unit).run s).2 := by
  have hnext {t : State} {k : Kind} (hk : solidKind t.stream.rest = k) :
      ((atNext (.lexeme .comma)).run t).1 = (k == .lexeme .comma) := by
    change ((t.stream.peekSignificant 0).kind == _) = _
    rw [kind_next rfl, hk]
  -- by induction on the list: a comma leads to the next value, a bracket to the end
  induction hvalues generalizing s with
  | last before hvalue behind paren hparen =>
    rw [List.append_assoc, List.append_assoc, List.append_assoc] at h
    simp only [List.length_append, List.length_cons] at hlength
    have hbehind : solidKind (behind.tokens ++ ([paren] ++ rest)) = .lexeme .rightParen := by
      rw [List.cons_append, behind.solidKind_eq hparen rfl]
    have hread := hn.readsTo hvalue (by omega) h hwith
      (by rw [hbehind]; exact endsExpression_of_endsArgument rfl)
    rw [← hitem] at hread
    have hlist := run_commaList_of_last (hnext (by rw [hread.rest, hbehind]))
    rw [run_bind, hlist]
    exact hread.trans (readsTo_expect behind hparen rfl (by decide) hread.rest)
  | @next before value hvalue behind comma hcomma later _ ih =>
    rw [List.append_assoc, List.append_assoc, List.append_assoc] at h
    simp only [List.length_append, List.length_cons] at hlength
    have hbehind : solidKind (behind.tokens ++ (comma :: later ++ rest)) = .lexeme .comma := by
      rw [List.cons_append, behind.solidKind_eq hcomma rfl]
    have hread := hn.readsTo hvalue (by omega) h hwith
      (by rw [hbehind]; exact endsExpression_of_endsArgument rfl)
    rw [← hitem] at hread
    have hboth := hread.trans (readsTo_shiftNext behind hcomma rfl (by decide) hread.rest)
    have hlist := run_commaList_of_comma (hnext (by rw [hread.rest, hbehind]))
    rw [run_bind, hlist]
    exact hboth.trans (ih (by omega) hboth.rest fun hin => hboth.withTargets ▸ hwith hin)

/-- A node that is put around a production is given back. -/
theorem isSome_composite {k : NodeKind} {p : Production Unit} (hp : Composed false p) (s : State) :
    ((composite k p).run s).1.isSome = true := by
  rw [run_composite, Builder.finishNode_fst (hp.sameContext (s.opening k)).opened]
  rfl

/-- A literal or a name by itself. -/
theorem readsTo_primary_of_isOperand {operand : Nat → Production (Option Tree)} {t : Token}
    (ht : isOperand t.kind = true) (h : s.stream.rest = t :: rest) :
    ((primaryWith operand).run s).1.isSome = true ∧
      s.ReadsTo rest ((primaryWith operand).run s).2 := by
  have hend : t.kind ≠ .lexeme .endOfFile := fun hend => absurd (hend ▸ ht) (by decide)
  rw [run_primaryWith_of_isOperand (by rw [TokenStream.current_of_rest h, ht])]
  exact ⟨isSome_composite inferInstance s,
    readsTo_composite (readsTo_shift (s := s.opening _) rfl hend h)⟩

/-- A primary expression is read to its end, and gives a node. -/
theorem readsTo_primary (hn : ReadsShorter inWith n) {base : List Token}
    (hbase : IsPrimary (IsExpression inWith 0) inWith base) (hlength : base.length ≤ n)
    (h : s.stream.rest = base ++ rest) (hwith : inWith → s.withTargets ≠ []) :
    ((primaryWith expressionAbove).run s).1.isSome = true ∧
      s.ReadsTo rest ((primaryWith expressionAbove).run s).2 := by
  cases hbase with
  | literal t ht => exact readsTo_primary_of_isOperand (by rw [isOperand, ht, Bool.true_or]) h
  | designator hname =>
    cases hname with
    | name t ht => exact readsTo_primary_of_isOperand (by rw [isOperand, ht, Bool.or_true]) h
    | access hin sign hsign name hname =>
      have hread := readsTo_leadingAccess h hsign hname (hwith hin)
      have hsome : (leadingAccess.run s).1.isSome = true :=
        isSome_composite (k := accessKind s.stream.current.kind) (p := do shift; memberName)
          inferInstance s
      -- a sign at the cursor leaves an access as the only alternative
      have hrun : (primaryWith expressionAbove).run s = leadingAccess.run s := by
        unfold primaryWith current
        rw [run_look_bind, TokenStream.current_of_rest h]
        unfold isAccessSign at hsign
        split at hsign
        case h_3 => cases hsign
        all_goals
          next hkind =>
            rw [hkind]
            rfl
      rw [hrun]
      exact ⟨hsome, hread⟩
  | parenthesized paren hparen hinner =>
    have hrun :
        (primaryWith expressionAbove).run s = (parenthesizedWith expressionAbove).run s := by
      unfold primaryWith current
      rw [run_look_bind, TokenStream.current_of_rest h, hparen]
      rfl
    have hshift := readsTo_shift (s := s.opening .parenthesizedExpression) hparen (by decide) h
    rw [hrun]
    refine ⟨isSome_composite inferInstance s, readsTo_composite (readsTo_bind hshift ?_)⟩
    exact readsTo_values hn (fun _ => rfl) hinner (Nat.le_of_succ_le hlength) hshift.rest
      fun hin => hshift.withTargets ▸ hwith hin

/-- What starts a primary expression is no operator in front of an operand. -/
theorem unaryPower?_of_startsPrimary {k : Kind} (h : startsPrimary k = true) :
    Operator.unaryPower? k = none := by
  unfold Operator.unaryPower?
  split <;> first | rfl | exact absurd h (by decide)

/-- An operand is read with the members and arguments that go on it. -/
theorem readsTo_unaryWith_of_primary (hn : ReadsShorter inWith n) {base suffixes : List Token}
    (hbase : IsPrimary (IsExpression inWith 0) inWith base)
    (hsuffixes : IsSuffixes (IsExpression inWith 0) true suffixes)
    (hlength : base.length ≤ n ∧ suffixes.length ≤ n)
    (h : s.stream.rest = base ++ (suffixes ++ rest))
    (hwith : inWith → s.withTargets ≠ []) (hends : EndsOperand (solidKind rest)) :
    s.ReadsTo rest ((unaryWith expressionAbove).run s).2 := by
  obtain ⟨t, more, htokens, ht⟩ := hbase.exists_cons
  have hcurrent : s.stream.current.kind = t.kind := by
    rw [kind_current h, htokens]
    rfl
  have hsolid := isInlineTrivia_of_startsExpression (startsExpression_of_startsPrimary ht)
  obtain ⟨hsome, hread⟩ := readsTo_primary hn hbase hlength.1 h hwith
  obtain ⟨primary, hprimary⟩ := Option.isSome_iff_exists.mp hsome
  have hchain : s.ReadsTo rest ((do
      let cp ← checkpoint
      operandSuffixes expressionAbove cp (← primaryWith expressionAbove)).run s).2 := by
    rw [run_bind, run_checkpoint, run_bind, hprimary]
    exact hread.trans (readsTo_suffixes hn hsuffixes hlength.2 hread.rest
      (fun hin => hread.withTargets ▸ hwith hin) hends _ _)
  unfold unaryWith
  rw [run_bind, run_skipBlanks_of_significant (by rwa [hcurrent]), run_bind,
    run_currentKind, hcurrent, unaryPower?_of_startsPrimary ht]
  dsimp only
  split
  case h_4 => exact hchain
  all_goals
    next hkind =>
      rw [hkind] at ht
      exact absurd ht (by decide)

/-- An operand that no operator stands in front of is read to its end. -/
theorem readsTo_unaryWith_of_operand (hn : ReadsShorter inWith n) {tokens : List Token}
    (hoperand : IsOperand (IsExpression inWith) inWith tokens) (hlength : tokens.length ≤ n)
    (h : s.stream.rest = tokens ++ rest) (hwith : inWith → s.withTargets ≠ [])
    (hends : EndsOperand (solidKind rest)) :
    s.ReadsTo rest ((unaryWith expressionAbove).run s).2 := by
  cases hoperand with
  | primary hbase hsuffixes =>
    rw [List.append_assoc] at h
    rw [List.length_append] at hlength
    exact readsTo_unaryWith_of_primary hn hbase hsuffixes ⟨by omega, by omega⟩ h hwith hends
  | addressOf word hword after hbase hsuffixes =>
    rw [List.cons_append, List.append_assoc, List.append_assoc] at h
    simp only [List.length_cons, List.length_append] at hlength
    have hcurrent : s.stream.current.kind = .keyword .addressOf := (kind_current h).trans hword
    have hshift := readsTo_shift (s := s.opening .addressOfExpression) hword (by decide) h
    have hcallee := readsTo_designator hn hbase hsuffixes (by omega) after hshift.rest
      (fun hin => hshift.withTargets ▸ hwith hin) hends .procedureName
    unfold unaryWith
    rw [run_bind, run_skipBlanks_of_significant (by rw [hcurrent]; rfl), run_bind,
      run_currentKind, hcurrent]
    exact readsTo_composite (readsTo_bind hshift hcallee)
  | new word hword after htype =>
    rw [List.cons_append, List.append_assoc] at h
    have hcurrent : s.stream.current.kind = .keyword .new := (kind_current h).trans hword
    have hshift := readsTo_shift (s := s.opening .newExpression) hword (by decide) h
    have htypeName := readsTo_skipBlanks_typeName after htype hshift.rest hends
    unfold unaryWith
    rw [run_bind, run_skipBlanks_of_significant (by rw [hcurrent]; rfl), run_bind,
      run_currentKind, hcurrent]
    exact readsTo_composite (readsTo_bind hshift htypeName)
  | typeOf word hword after hvalue before sign hsign behind htype =>
    simp only [List.cons_append, List.append_assoc] at h
    simp only [List.length_cons, List.length_append] at hlength
    have hcurrent : s.stream.current.kind = .keyword .typeOf := (kind_current h).trans hword
    have hshift := readsTo_shift (s := s.opening .typeOfExpression) hword (by decide) h
    have hsignKind := before.solidKind_eq hsign rfl
    -- the value ends in front of `Is`, whose power is below that of an operand of `TypeOf`
    have hread :=
      hn.readsTo hvalue (by omega) hshift.rest (fun hin => hshift.withTargets ▸ hwith hin)
      (by rw [hsignKind]; exact ⟨⟨rfl, rfl, by decide⟩, fun q hq => Option.some.inj hq ▸ by decide⟩)
    have hexpect := readsTo_expect before hsign rfl (by decide) hread.rest
    have htypeName := readsTo_skipBlanks_typeName behind htype hexpect.rest hends
    unfold unaryWith
    rw [run_bind, run_skipBlanks_of_significant (by rw [hcurrent]; rfl), run_bind,
      run_currentKind, hcurrent]
    refine readsTo_composite (readsTo_bind hshift (readsTo_bind hread (readsTo_bind hexpect ?_)))
    rw [run_expect before hsign rfl hread.rest] at htypeName ⊢
    exact htypeName

/-! ### Operators -/

section

variable {operand : Nat → Production (Option Tree)} {power : Nat}

/-- Where the expression ends no operator is taken. -/
theorem run_operatorPass_of_ends (h : EndsExpression power (solidKind s.stream.rest))
    (cp : Checkpoint)
    (left : Option Tree) : (operatorPass operand cp power left).run s = (.done left, s) := by
  unfold operatorPass nextKind
  rw [run_look_bind, kind_next rfl]
  cases hbinding : Operator.binaryPower? (solidKind s.stream.rest) with
  | none => rfl
  | some binding =>
    dsimp only
    rw [if_pos (h.lower binding hbinding)]
    rfl

/-- An operator that binds at least as strongly as asked for joins what stands on its left to what
follows. -/
theorem run_operatorPass_of_le {binding : Nat}
    (h : Operator.binaryPower? (solidKind s.stream.rest) = some binding)
    (hbinding : power ≤ binding)
    (cp : Checkpoint) (left : Option Tree) :
    (operatorPass operand cp power left).run s =
      let joined := (compositeFrom cp .binaryExpression (pure ())).run
        ((operand (binding + 1)).run (shiftNext.run s).2).2
      (.again joined.1, joined.2) := by
  unfold operatorPass nextKind
  rw [run_look_bind, kind_next rfl, h]
  dsimp only
  rw [if_neg (Nat.not_lt_of_le hbinding)]
  rfl

end

/-- What is left behind a tail of an expression is a tail of it again. -/
theorem IsTail.exists_readsTo (hn : ReadsShorter inWith n) {least power : Nat}
    (hpower : least ≤ power)
    {tokens : List Token} (htail : IsTail inWith least tokens) (hlength : tokens.length ≤ n)
    (h : s.stream.rest = tokens ++ rest) (hwith : inWith → s.withTargets ≠ [])
    (hends : EndsExpression least (solidKind rest)) (cp : Checkpoint) (left : Option Tree) :
    ∃ later, IsTail inWith least later ∧ later.length ≤ tokens.length ∧
      EndsExpression power (solidKind (later ++ rest)) ∧
      s.ReadsTo (later ++ rest)
        ((iterate id (operatorPass expressionAbove cp power) left).run s).2 := by
  have hdone {tokens : List Token} {s : State} {left : Option Tree} (h : s.stream.rest =
    tokens ++ rest)
      (hlater : EndsExpression power (solidKind (tokens ++ rest))) :
      s.ReadsTo (tokens ++ rest)
        ((iterate id (operatorPass expressionAbove cp power) left).run s).2 := by
    have hpass : (operatorPass expressionAbove cp power left).run s = _ :=
      run_operatorPass_of_ends (by rwa [h]) cp left
    rw [run_iterate_of_done (by rw [hpass]), hpass]
    exact .of_rest h
  generalize hm : tokens.length = m at hlength
  -- by induction on the number of tokens, as an operand may leave several operators to the next
  -- pass
  induction m using Nat.strongRecOn generalizing s tokens left with
  | ind m ih =>
    cases htail with
    | none =>
      have hlater : EndsExpression power (solidKind ([] ++ rest)) :=
        ⟨hends.toEndsOperand, fun q hq => Nat.lt_of_lt_of_le (hends.lower q hq) hpower⟩
      exact ⟨[], .none, Nat.zero_le _, hlater, hdone h hlater⟩
    | @joined before op binding hop hleast after right hright =>
      have hkind : solidKind s.stream.rest = op.kind := by
        rw [h, List.append_assoc, List.cons_append,
          before.solidKind_eq rfl (EndsOperand.of_binaryPower? hop).solid]
      -- an operator of a lower power is left to the reading further out
      rcases Nat.lt_or_ge binding power with hlower | hbinding
      · have hlater : EndsExpression power op.kind :=
          ⟨.of_binaryPower? hop, fun q hq => Option.some.inj (hop.symm.trans hq) ▸ hlower⟩
        rw [← hkind, h] at hlater
        exact ⟨_, .joined before op binding hop hleast after hright, Nat.le_of_eq hm, hlater,
          hdone h hlater⟩
      · simp only [List.append_assoc, List.cons_append] at h
        simp only [List.length_append, List.length_cons] at hm
        have hend : op.kind ≠ .lexeme .endOfFile := by
          intro hend
          rw [hend] at hop
          cases hop
        have hshift := readsTo_shiftNext before rfl (EndsOperand.of_binaryPower? hop).solid hend h
        obtain ⟨later, hlater, hless, -, hoperand⟩ :=
          hn hright (by omega) (Nat.le_succ_of_le hleast) hshift.rest
          (fun hin => hshift.withTargets ▸ hwith hin) hends
        have hpass : (operatorPass expressionAbove cp power left).run s = _ :=
          run_operatorPass_of_le (by rw [hkind]; exact hop) hbinding cp left
        have hjoined := (hshift.trans hoperand).trans
          (readsTo_compositeFrom_pure cp .binaryExpression hoperand.rest)
        obtain ⟨more, hmore, hle, hmoreEnds, hread⟩ :=
          ih later.length (by omega) hlater hjoined.rest
          (fun hin => hjoined.withTargets ▸ hwith hin) _ rfl (by omega)
        refine ⟨more, hmore, by omega, hmoreEnds, ?_⟩
        rw [run_iterate_of_again (by rw [hpass]), hpass]
        exact hjoined.trans hread

/-- The first operand of an expression is read, with the operators in front of it and with what they
take. -/
theorem IsExpression.exists_readsTo_unaryWith (hn : ReadsShorter inWith n) {least : Nat}
    {tokens : List Token}
    (he : IsExpression inWith least tokens) (hlength : tokens.length ≤ n)
    (h : s.stream.rest = tokens ++ rest) (hwith : inWith → s.withTargets ≠ [])
    (hends : EndsExpression least (solidKind rest)) :
    ∃ tail, IsTail inWith least tail ∧ tail.length < tokens.length ∧
      s.ReadsTo (tail ++ rest) ((unaryWith expressionAbove).run s).2 := by
  cases he with
  | operand hoperand =>
    have hread := readsTo_unaryWith_of_operand hn hoperand hlength h hwith hends.toEndsOperand
    obtain ⟨t, more, rfl, -⟩ := hoperand.exists_cons
    exact ⟨[], .none, Nat.zero_lt_succ _, hread⟩
  | joined hleft before op power hop hpower after hright =>
    rw [List.append_assoc] at h
    rw [List.length_append] at hlength ⊢
    have hop' : EndsOperand op.kind := .of_binaryPower? hop
    have hread := readsTo_unaryWith_of_operand hn hleft (by omega) h hwith
      (by rwa [List.append_assoc, List.cons_append, before.solidKind_eq rfl hop'.solid])
    obtain ⟨t, more, rfl, -⟩ := hleft.exists_cons
    refine ⟨_, .joined before op power hop hpower after hright, ?_, hread⟩
    simp only [List.length_append, List.length_cons]
    omega
  | prefixed op power hop hpower after hinner =>
    rw [List.cons_append, List.append_assoc] at h
    simp only [List.length_append, List.length_cons] at hlength ⊢
    have hcurrent : s.stream.current.kind = op.kind := kind_current h
    have hstarts : startsExpression op.kind = true := by simp [startsExpression, hop]
    have hend : op.kind ≠ .lexeme .endOfFile := by
      intro hend
      rw [hend] at hop
      cases hop
    have hshift := readsTo_shift (s := s.opening .unaryExpression) rfl hend h
    -- what the operator in front does not take is left as a tail of the whole expression
    obtain ⟨tail, htail, hless, -, hread⟩ := hn hinner (by omega) hpower hshift.rest
      (fun hin => hshift.withTargets ▸ hwith hin) hends
    refine ⟨tail, htail, by omega, ?_⟩
    unfold unaryWith
    rw [run_bind, run_skipBlanks_of_significant
      (by rw [hcurrent]; exact isInlineTrivia_of_startsExpression hstarts), run_bind,
      run_currentKind, hcurrent,
      hop]
    exact readsTo_composite (readsTo_bind hshift hread)

/-- Where the expressions of fewer than `n` tokens are read, those of `n` tokens are, too. -/
theorem ReadsShorter.succ (hn : ReadsShorter inWith n) : ReadsShorter inWith (n + 1) := by
  intro s least power before tokens rest he hlength hpower h hwith hends
  have hle := Nat.le_of_lt_succ hlength
  have hskip : s.ReadsTo (tokens ++ rest) (skipBlanks.run s).2 := by
    obtain ⟨t, more, rfl, ht⟩ := he.exists_cons
    exact readsTo_skipBlanks before (isInlineTrivia_of_startsExpression ht) h
  obtain ⟨tail, htail, hless, hunary⟩ := he.exists_readsTo_unaryWith hn hle hskip.rest
    (fun hin => hskip.withTargets ▸ hwith hin) hends
  have hboth := hskip.trans hunary
  obtain ⟨left, hleft, hmore, hbehind, hread⟩ :=
    htail.exists_readsTo hn hpower (by omega) hunary.rest
    (fun hin => hboth.withTargets ▸ hwith hin) hends (skipBlanks.run s).2.builder.checkpoint
    ((unaryWith expressionAbove).run (skipBlanks.run s).2).1
  refine ⟨left, hleft, by omega, hbehind, ?_⟩
  rw [run_expressionAbove]
  exact hboth.trans hread

/-- Expressions of any length are read. -/
theorem readsShorter (inWith : Prop) (n : Nat) : ReadsShorter inWith n := by
  induction n with
  | zero => exact fun _ _ _ _ _ _ _ hlength => absurd hlength (Nat.not_lt_zero _)
  | succ n hn => exact hn.succ

/-- A well-formed expression is read to its end without failure, where no operator behind it goes on
it. -/
theorem IsExpression.readsTo {least : Nat} {tokens : List Token}
    (he : IsExpression inWith least tokens)
    (before : Blanks) (h : s.stream.rest = before.tokens ++ (tokens ++ rest))
    (hwith : inWith → s.withTargets ≠ []) (hends : EndsExpression least (solidKind rest)) :
    s.ReadsTo rest ((expressionAbove least).run s).2 :=
  (readsShorter inWith (tokens.length + 1)).readsTo he (Nat.lt_succ_self _) h hwith hends

end

end Grammar

end LosslessBasic
