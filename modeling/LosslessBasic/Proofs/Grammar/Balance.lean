import LosslessBasic.Proofs.Grammar.Line
import LosslessBasic.Proofs.Grammar.WellFounded

/-!
# Balanced parentheses

The look-ahead for an assignment goes over arguments in parentheses without reading them: it counts
the parentheses up to the one that closes the first (`Lookahead.afterGroup?`). The grammar reads the
arguments, and whatever it reads without a failure are tokens in which every parenthesis is closed
and no line ends (`Balanced`). So both are at the same place behind every suffix of a variable, and
what the look-ahead finds is what the grammar finds behind the variable
(`startsAssignment_eq_equalNext`).

`State.BalancedTo` relates a state to what a production makes of it, and says nothing of a
production that fails. `Balances` are the productions of which it holds from every state on;
`BalancesFromWord` and `BalancesFromNext` rely on what the caller has seen at the cursor, and as the
next token. Parentheses are moved in two places alone, where `State.ClosesTo` takes over.
-/

namespace LosslessBasic

/-! ## Balanced tokens -/

namespace Kind

/-- Whether a token of a kind stands between parentheses as it stands outside: it is none itself,
and it does not end the line. -/
def isNeutral : Kind → Bool
  | .lexeme .leftParen | .lexeme .rightParen | .lexeme .endOfFile | .trivia .newline => false
  | _ => true

/-- The kinds of which this is not so. -/
def grouping : List Kind :=
  [.lexeme .leftParen, .lexeme .rightParen, .lexeme .endOfFile, .trivia .newline]

/-- What no other kind passes shows that a kind is neutral. -/
theorem isNeutral_of {c : Kind → Prop} (hc : ∀ k ∈ grouping, ¬ c k) {k : Kind} (hk : c k) :
    k.isNeutral = true := by
  unfold isNeutral
  split
  case h_5 => rfl
  all_goals exact absurd hk (hc _ (by decide))

end Kind

/-- Tokens in which every parenthesis is closed and no line ends. -/
inductive Balanced : List Token → Prop
  | nil : Balanced []
  | neutral {t : Token} (ht : t.kind.isNeutral = true) : Balanced [t]
  | group {opener closer : Token} {inner : List Token} (hopener : opener.kind = .lexeme .leftParen)
      (hcloser : closer.kind = .lexeme .rightParen) (hinner : Balanced inner) :
      Balanced (opener :: (inner ++ [closer]))
  | append {a b : List Token} (ha : Balanced a) (hb : Balanced b) : Balanced (a ++ b)

namespace Lookahead

/-- A neutral token stands within a group. -/
theorem afterGroup?_neutral {t : Token} (ht : t.kind.isNeutral = true) (depth : Nat)
    (rest : List Token) :
    afterGroup? depth (t :: rest) = afterGroup? depth rest := by
  rw [afterGroup?]
  split
  case h_5 => rfl
  all_goals
    next hkind =>
      rw [hkind] at ht
      cases ht

/-- Balanced tokens leave as many parentheses open as there were. -/
theorem afterGroup?_append {moved : List Token} (h : Balanced moved) (depth : Nat)
    (rest : List Token) :
    afterGroup? (depth + 1) (moved ++ rest) = afterGroup? (depth + 1) rest := by
  induction h generalizing depth rest with
  | nil => rfl
  | neutral ht => exact afterGroup?_neutral ht _ rest
  | @group opener closer inner hopener hcloser _ ih =>
    have hopen : afterGroup? (depth + 1) (opener :: (inner ++ [closer]) ++ rest) =
        afterGroup? (depth + 2) (inner ++ closer :: rest) := by
      simp [afterGroup?, hopener]
    have hclose : afterGroup? (depth + 2) (closer :: rest) = afterGroup? (depth + 1) rest := by
      simp [afterGroup?, hcloser]
    rw [hopen, ih, hclose]
  | append _ _ iha ihb => rw [List.append_assoc, iha, ihb]

/-- The parenthesis behind balanced tokens closes the one in front of them. -/
theorem afterGroup?_of_balanced {inner : List Token} (h : Balanced inner) {closer : Token}
    (hcloser : closer.kind = .lexeme .rightParen) (rest : List Token) :
    afterGroup? 1 (inner ++ closer :: rest) = some rest := by
  rw [afterGroup?_append h 0]
  simp [afterGroup?, hcloser]

end Lookahead

namespace Grammar

set_option synthInstance.maxSize 65536

/-! ## Reading balanced tokens -/

/-- Whether the tokens between two states are balanced, unless the statement has failed in the
second. If it has not, it has not in the first. -/
def State.BalancedTo (s t : State) : Prop :=
  t.recovering = false → s.recovering = false ∧
    ∃ moved, s.stream.rest = moved ++ t.stream.rest ∧ Balanced moved

/-- Whether the tokens between two states are balanced but for a parenthesis that is closed by the
last of them, unless the statement has failed in the second. -/
def State.ClosesTo (s t : State) : Prop :=
  t.recovering = false → s.recovering = false ∧
    ∃ inner closer, s.stream.rest = inner ++ closer :: t.stream.rest ∧ Balanced inner ∧
      closer.kind = .lexeme .rightParen

/-- A production that moves balanced tokens. -/
class Balances {α : Type} (p : Production α) : Prop where
  balances (s : State) : s.BalancedTo (p.run s).2

/-- A production that moves balanced tokens when a neutral one is at the cursor. -/
class BalancesFromWord {α : Type} (p : Production α) : Prop where
  balances (s : State) : s.stream.current.kind.isNeutral = true → s.BalancedTo (p.run s).2

/-- A production that moves balanced tokens when a neutral one comes next. -/
class BalancesFromNext {α : Type} (p : Production α) : Prop where
  balances (s : State) : (s.stream.peekSignificant 0).kind.isNeutral = true →
    s.BalancedTo (p.run s).2

/-- A production that changes nothing. -/
class Looks {α : Type} (p : Production α) : Prop where
  run_snd (s : State) : (p.run s).2 = s

/-- Whether a pass that goes on has moved balanced tokens, and one that leaves the loop balanced
tokens and the parenthesis that closes what is in front of them. -/
def State.PassesTo {α β : Type} (s : State) : Pass α β × State → Prop
  | (.again _, t) => s.BalancedTo t
  | (.done _, t) => s.ClosesTo t

namespace State.BalancedTo

variable {s t u : State}

/-- Where no token is moved those between are balanced. -/
theorem of_eq (hstream : t.stream = s.stream) (hrecovering : t.recovering = s.recovering) :
    s.BalancedTo t :=
  fun h => ⟨hrecovering ▸ h, [], by rw [hstream]; rfl, .nil⟩

/-- No tokens are balanced. -/
theorem refl (s : State) : s.BalancedTo s := of_eq rfl rfl

/-- Nothing is said of a statement that has failed. -/
theorem of_recovering (h : t.recovering = true) : s.BalancedTo t := fun h' => by
  rw [h] at h'
  cases h'

/-- Balanced tokens in a row are balanced. -/
theorem trans (h : s.BalancedTo t) (h' : t.BalancedTo u) : s.BalancedTo u := by
  intro hu
  obtain ⟨ht, moved', hrest', hmoved'⟩ := h' hu
  obtain ⟨hs, moved, hrest, hmoved⟩ := h ht
  exact ⟨hs, moved ++ moved', by rw [hrest, hrest', List.append_assoc], hmoved.append hmoved'⟩

/-- Balanced tokens may stand in front of those up to the closing parenthesis. -/
theorem closesTo (h : s.BalancedTo t) (h' : t.ClosesTo u) : s.ClosesTo u := by
  intro hu
  obtain ⟨ht, inner, closer, hrest', hinner, hcloser⟩ := h' hu
  obtain ⟨hs, moved, hrest, hmoved⟩ := h ht
  exact ⟨hs, moved ++ inner, closer, by rw [hrest, hrest', List.append_assoc], hmoved.append hinner,
    hcloser⟩

/-- Balanced tokens may stand in front of those of a pass. -/
theorem passesTo {α β : Type} {r : Pass α β × State} (h : s.BalancedTo t) (h' : t.PassesTo r) :
    s.PassesTo r := by
  match r, h' with
  | (.again _, u), h' => exact h.trans h'
  | (.done _, u), h' => exact h.closesTo h'

end State.BalancedTo

namespace State.ClosesTo

variable {s t : State}

/-- Of a statement that has failed nothing is said. -/
theorem of_recovering (h : t.recovering = true) : s.ClosesTo t := fun h' => by
  rw [h] at h'
  cases h'

/-- With the parenthesis in front of them, the tokens are balanced. -/
theorem balancedTo (hopener : s.stream.current.kind = .lexeme .leftParen)
    (h : s.shifted.ClosesTo t) :
    s.BalancedTo t := by
  intro ht
  obtain ⟨hs, inner, closer, hrest, hinner, hcloser⟩ := h ht
  have hahead : s.stream.ahead ≠ [] := TokenStream.ahead_ne_nil fun hend => by
    rw [hopener] at hend
    cases hend
  refine ⟨hs, s.stream.current :: (inner ++ [closer]), ?_, .group hopener hcloser hinner⟩
  calc s.stream.rest = s.stream.current :: s.shifted.stream.rest := TokenStream.rest_advance hahead
    _ = s.stream.current :: (inner ++ closer :: t.stream.rest) := by rw [hrest]
    _ = s.stream.current :: (inner ++ [closer]) ++ t.stream.rest := by simp

end State.ClosesTo

/-- A parenthesis at the cursor closes what is in front of it. -/
theorem State.closesTo_shift {s : State} (h : s.stream.current.kind = .lexeme .rightParen) :
    s.ClosesTo (shift.run s).2 := by
  have hend : ¬ s.AtEnd := fun hend => nomatch h.symm.trans hend
  rw [run_shift hend]
  exact fun hrecovering =>
    ⟨hrecovering, [], _, TokenStream.rest_advance (TokenStream.ahead_ne_nil hend), .nil, h⟩

/-- A neutral token is at the cursor, or blanks are in front of what comes next. -/
theorem isNeutral_of_next {s : TokenStream} (h : (s.peekSignificant 0).kind.isNeutral = true) :
    s.current.kind.isNeutral = true := by
  cases hblank : s.current.kind.isInlineTrivia with
  | true => exact Kind.isNeutral_of (c := (·.isInlineTrivia = true)) (by decide) hblank
  | false => rwa [TokenStream.peekSignificant_zero hblank] at h

section

variable {α β : Type} {p q : Production α}

instance [h : Balances p] : BalancesFromWord p where
  balances s _ := h.balances s

instance [h : BalancesFromWord p] : BalancesFromNext p where
  balances s hnext := h.balances s (isNeutral_of_next hnext)

instance [h : Looks p] : Balances p where
  balances s := by
    rw [h.run_snd]
    exact .refl s

instance (a : α) : Looks (pure a : Production α) := ⟨fun _ => rfl⟩

instance (f : TokenStream → α) : Looks (look f) := ⟨fun _ => rfl⟩

instance : Looks current := ⟨fun _ => rfl⟩

instance : Looks currentKind := ⟨fun _ => rfl⟩

instance : Looks nextKind := ⟨fun _ => rfl⟩

instance : Looks checkpoint := ⟨fun _ => rfl⟩

instance (k : Kind) : Looks (atCurrent k) := ⟨fun _ => rfl⟩

instance (k : Kind) : Looks (atNext k) := ⟨fun _ => rfl⟩

instance : Looks atStatementEnd := ⟨fun _ => rfl⟩

instance : Looks atMemberAccess := ⟨fun _ => rfl⟩

instance : Looks atQualifier := ⟨fun _ => rfl⟩

instance : Looks atNamedArgument := ⟨fun _ => rfl⟩

instance (spacedCall : Bool) : Looks (atArguments spacedCall) := ⟨fun _ => rfl⟩

/-- A token that is neutral is moved. -/
theorem State.balancedTo_shifted {s : State} (h : s.stream.current.kind.isNeutral = true) :
    s.BalancedTo s.shifted := by
  have hahead : s.stream.ahead ≠ [] :=
    TokenStream.ahead_ne_nil (Kind.ne_endOfFile_of (f := Kind.isNeutral) h rfl)
  exact fun hrecovering => ⟨hrecovering, [_], TokenStream.rest_advance hahead, .neutral h⟩

/-- A neutral token is moved by a shift. -/
theorem run_shift_of_isNeutral {s : State} (h : s.stream.current.kind.isNeutral = true) :
    shift.run s = ((), s.shifted) :=
  run_shift (Kind.ne_endOfFile_of (f := Kind.isNeutral) h rfl)

instance : BalancesFromWord shift where
  balances s h := by
    rw [run_shift_of_isNeutral h]
    exact s.balancedTo_shifted h

instance {f : α → Production β} [hp : Balances p] [hf : ∀ a, Balances (f a)] :
    Balances (p >>= f) where
  balances s := (hp.balances s).trans ((hf _).balances _)

instance {f : α → Production β} [hp : BalancesFromWord p] [hf : ∀ a, Balances (f a)] :
    BalancesFromWord (p >>= f) where
  balances s h := (hp.balances s h).trans ((hf _).balances _)

instance {f : α → Production β} [hp : BalancesFromNext p] [hf : ∀ a, Balances (f a)] :
    BalancesFromNext (p >>= f) where
  balances s h := (hp.balances s h).trans ((hf _).balances _)

instance {f : α → Production β} [hp : Looks p] [hf : ∀ a, BalancesFromWord (f a)] :
    BalancesFromWord (p >>= f) where
  balances s h := by
    rw [run_bind, hp.run_snd]
    exact (hf _).balances s h

instance {k : NodeKind} [h : Balances p] : Balances (within k p) where
  balances s := h.balances (s.opening k)

instance {k : NodeKind} {p : Production Unit} [h : Balances p] : Balances (composite k p) where
  balances s := h.balances (s.opening k)

instance {k : NodeKind} {p : Production Unit} [h : BalancesFromWord p] :
    BalancesFromWord (composite k p) where
  balances s h' := h.balances (s.opening k) h'

instance {cp : Checkpoint} {k : NodeKind} {p : Production Unit} [h : Balances p] :
    Balances (compositeFrom cp k p) where
  balances s := h.balances (s.openingAt cp k)

instance {cp : Checkpoint} {k : NodeKind} {p : Production Unit} [h : BalancesFromWord p] :
    BalancesFromWord (compositeFrom cp k p) where
  balances s h' := h.balances (s.openingAt cp k) h'

instance {c : Prop} [Decidable c] [Balances p] [Balances q] : Balances (if c then p else q) := by
  split <;> infer_instance

/-- A test and what is done where it holds, in front of a neutral token. -/
theorem Balances.of_test {test : Production Bool} [ht : Looks test]
    (hp : ∀ s, (test.run s).1 = true → s.BalancedTo (p.run s).2) [hq : Balances q] :
    Balances (test >>= fun b => if b then p else q) where
  balances s := by
    rw [run_bind, ht.run_snd]
    cases htest : (test.run s).1 with
    | true => exact hp s htest
    | false => exact hq.balances s

/-- A pass that starts with a test. -/
theorem State.PassesTo.of_test {test : Production Bool} [ht : Looks test]
    {p q : Production (Pass α β)}
    {s : State} (hp : (test.run s).1 = true → s.PassesTo (p.run s)) (hq : s.PassesTo (q.run s)) :
    s.PassesTo ((test >>= fun b => if b then p else q).run s) := by
  rw [run_bind, ht.run_snd]
  cases htest : (test.run s).1 with
  | true => exact hp htest
  | false => exact hq

/-- What the kind of a token says of it. -/
theorem Balances.of_current {c : Kind → Prop} [DecidablePred c] {p q : Token → Production β}
    (hc : ∀ k ∈ Kind.grouping, ¬ c k) [hp : ∀ t, BalancesFromWord (p t)]
    [hq : ∀ t, Balances (q t)] :
    Balances (current >>= fun t => if c t.kind then p t else q t) where
  balances s := by
    change s.BalancedTo ((if c s.stream.current.kind then p s.stream.current
      else q s.stream.current).run s).2
    split
    next h => exact (hp _).balances s (Kind.isNeutral_of hc h)
    next => exact (hq _).balances s

/-- What the kind at the cursor says of it. -/
theorem Balances.of_currentKind {c : Kind → Prop} [DecidablePred c] {p q : Kind → Production β}
    (hc : ∀ k ∈ Kind.grouping, ¬ c k) [hp : ∀ k, BalancesFromWord (p k)]
    [hq : ∀ k, Balances (q k)] :
    Balances (currentKind >>= fun k => if c k then p k else q k) :=
  .of_current (p := fun t => p t.kind) (q := fun t => q t.kind) hc

/-- A repetition moves balanced tokens when its body does where the test holds. -/
theorem Balances.repeatWhile {test : Production Bool} {body : Production Unit} [ht : Looks test]
    (hbody : ∀ s, (test.run s).1 = true → s.BalancedTo (body.run s).2) :
    Balances (repeatWhile test body) := by
  have hupTo (n : Nat) : Balances (repeatWhileUpTo test body n) := by
    induction n with
    | zero => unfold repeatWhileUpTo; infer_instance
    | succ n ih =>
      unfold repeatWhileUpTo
      exact .of_test fun s hs => (hbody s hs).trans (ih.balances _)
  unfold Grammar.repeatWhile
  infer_instance

instance {exhausted : α → β} {pass : α → Production (Pass α β)}
    [h : ∀ a, Balances (pass a)] (a : α) :
    Balances (iterate exhausted pass a) := by
  have hupTo (n : Nat) (a : α) : Balances (iterateUpTo exhausted pass n a) := by
    induction n generalizing a with
    | zero => unfold iterateUpTo; infer_instance
    | succ n ih =>
      refine ⟨fun s => ?_⟩
      unfold iterateUpTo
      rw [run_bind]
      refine ((h a).balances s).trans ?_
      cases ((pass a).run s).1 with
      | again a' => exact (ih a').balances _
      | done b => exact .refl _
  unfold iterate
  infer_instance

end

/-! ## Moves and failures -/

instance : Balances skipBlanks :=
  .repeatWhile fun s hs =>
    BalancesFromWord.balances s (Kind.isNeutral_of (c := (·.isInlineTrivia = true)) (by decide) hs)

instance {α : Type} {f : Unit → Production α} [h : ∀ u, BalancesFromWord (f u)] :
    BalancesFromNext (skipBlanks >>= f) where
  balances s hnext := by
    refine (Balances.balances (p := skipBlanks) s).trans ((h ()).balances _ ?_)
    rwa [current_skipBlanks]

instance : BalancesFromNext shiftNext := by unfold shiftNext; infer_instance

/-- A statement that fails is in recovery. -/
theorem recovering_fail (problem : Problem) (t : Token) (s : State) :
    ((fail problem t).run s).2.recovering = true := by
  unfold fail
  rw [run_bind, run_get]
  split <;> rfl

/-- To shift does not change whether a statement has failed. -/
theorem recovering_shift (s : State) : (shift.run s).2.recovering = s.recovering := by
  by_cases hend : s.AtEnd
  · rw [run_shift_of_atEnd hend]
  · rw [run_shift hend]
    rfl

/-- A token that was reported when it was read has failed its statement. -/
theorem recovering_unknown (s : State) :
    ((do setRecovering true; composite .unknown shift : Production (Option Tree)).run
      s).2.recovering =
      true :=
  recovering_shift _

instance (problem : Problem) (t : Token) : Balances (fail problem t) where
  balances s := .of_recovering (recovering_fail problem t s)

instance (wanted : Wanted) : Balances (failExpected wanted) where
  balances s := .of_recovering (recovering_fail _ _ s)

/-- A token that is asked for is moved with the blanks in front of it. -/
theorem run_expect_of_eq {k : Kind} {s : State} (h : (s.stream.peekSignificant 0).kind = k) :
    (expect k).run s = (true, (shiftNext.run s).2) := by
  have hnext : ((s.stream.peekSignificant 0).kind == k) = true := beq_iff_eq.mpr h
  simp only [expect, accept, atNext, run_bind, run_look, hnext, if_true, run_pure]

/-- Where it is missing, the statement has failed. -/
theorem recovering_expect_of_ne {k : Kind} {s : State} (h : (s.stream.peekSignificant 0).kind ≠ k) :
    ((expect k).run s).2.recovering = true := by
  have hnext : ((s.stream.peekSignificant 0).kind == k) = false := beq_eq_false_iff_ne.mpr h
  simp only [expect, accept, atNext, run_bind, run_look, hnext, run_pure,
    Bool.false_eq_true, if_false]
  exact recovering_fail _ _ s

/-- A neutral token that is asked for is moved. -/
theorem balances_expect {k : Kind} (hk : k.isNeutral = true) : Balances (expect k) where
  balances s := by
    by_cases hnext : (s.stream.peekSignificant 0).kind = k
    · rw [run_expect_of_eq hnext]
      exact BalancesFromNext.balances s (by rwa [hnext])
    · exact .of_recovering (recovering_expect_of_ne hnext)

/-- A parenthesis that is asked for closes what is in front of it. -/
theorem closesTo_expect (s : State) : s.ClosesTo ((expect (.lexeme .rightParen)).run s).2 := by
  by_cases hnext : (s.stream.peekSignificant 0).kind = .lexeme .rightParen
  · rw [run_expect_of_eq hnext]
    refine (Balances.balances (p := skipBlanks) s).closesTo (State.closesTo_shift ?_)
    rw [current_skipBlanks, hnext]
  · exact .of_recovering (recovering_expect_of_ne hnext)

/-! ## Names and members -/

instance : BalancesFromWord nameExpression := by unfold nameExpression; infer_instance

instance : Balances memberName := by
  unfold memberName
  exact .of_current (c := (·.isMemberName = true)) (by decide)

instance (sign : Token) (access : Option Tree) : Balances (referToHeader sign access) where
  balances s := by
    unfold referToHeader
    rw [run_bind, run_get]
    split
    next => exact Balances.balances s
    next => exact .of_eq rfl rfl
    next => exact .refl s

instance : BalancesFromWord leadingAccess := by
  unfold leadingAccess
  infer_instance

/-- The period and the name of a qualified name are moved one behind the other. -/
theorem balancedTo_qualifier {s : State} (h : (atQualifier.run s).1 = true) :
    s.BalancedTo ((do shift; shift : Production Unit).run s).2 := by
  simp only [atQualifier, run_look, Bool.and_eq_true, beq_iff_eq] at h
  have hperiod : s.stream.current.kind.isNeutral = true := by rw [h.1]; rfl
  have hname : s.shifted.stream.current.kind.isMemberName = true := by
    have hahead : s.stream.ahead ≠ [] :=
      TokenStream.ahead_ne_nil fun hend => nomatch h.1.symm.trans hend
    have hadvance : s.shifted.stream.current = s.stream.peek 1 := TokenStream.current_advance hahead
    rw [hadvance]
    exact h.2
  rw [run_bind, run_shift_of_isNeutral hperiod]
  exact (s.balancedTo_shifted hperiod).trans
    (BalancesFromWord.balances _
      (Kind.isNeutral_of (c := (·.isMemberName = true)) (by decide) hname))

instance : Balances typeName := by
  have hqualifiers : Balances (repeatWhile atQualifier (do shift; shift)) :=
    .repeatWhile fun _ => balancedTo_qualifier
  have hname : Balances (do
      if (← currentKind).isNameLike then
        shift
        repeatWhile atQualifier (do shift; shift)
      else
        failExpected .typeName) := .of_currentKind (c := (·.isNameLike = true)) (by decide)
  unfold typeName
  infer_instance

/-- The name of a parameter is moved with the sign behind it. -/
instance : Balances optionalParameterName := by
  unfold optionalParameterName
  refine .of_test (fun s (h : (atNamedArgument.run s).1 = true) => ?_)
  simp only [atNamedArgument, run_look, Bool.and_eq_true, beq_iff_eq] at h
  have hword : s.stream.current.kind.isNeutral = true :=
    Kind.isNeutral_of (c := (·.isNameLike = true)) (by decide) h.1
  have hsolid : s.stream.current.kind.isInlineTrivia = false :=
    State.AtDesignator.significant (.inl h.1)
  have hend : ¬ s.AtEnd := State.AtDesignator.not_atEnd (.inl h.1)
  have hstream : (nameExpression.run s).2.stream = s.stream.advance := by
    have hword' : (s.opening .identifierExpression).stream.current.kind.isNeutral = true := hword
    unfold nameExpression
    rw [run_composite, run_shift_of_isNeutral hword']
    rfl
  rw [run_bind]
  -- the word is moved from the cursor, and the sign is what comes next behind it
  refine (BalancesFromWord.balances s hword).trans (BalancesFromNext.balances _ ?_)
  rw [hstream, TokenStream.peekSignificant_advance_succ hsolid (TokenStream.ahead_ne_nil hend), h.2]
  rfl

/-! ## Within an expression -/

section

variable {operand : Nat → Production (Option Tree)} [hoperand : ∀ power, Balances (operand power)]

instance : Balances (argumentWith operand) := by
  have hbyVal : Balances (do
      if ← atCurrent (.keyword .byVal) then
        shift
        skipBlanks
      optionalParameterName
      let _ ← operand 0) := by
    refine .of_test (fun s h => ?_)
    simp only [atCurrent, run_look, beq_iff_eq] at h
    exact BalancesFromWord.balances s (by rw [h]; rfl)
  unfold argumentWith
  infer_instance

/-- A step through arguments moves balanced tokens, and the last one the parenthesis that closes
them. -/
theorem passesTo_argumentPass (u : Unit) (s : State) :
    s.PassesTo ((argumentPass operand u).run s) := by
  unfold argumentPass
  rw [run_bind]
  refine (Balances.balances (p := skipBlanks) s).passesTo ?_
  generalize (skipBlanks.run s).2 = t
  refine .of_test (fun hright => ?_) (.of_test (fun hcomma => ?_) (.of_test (fun _ => ?_) ?_))
  · -- nothing stands in front of the closing parenthesis
    exact State.closesTo_shift (beq_iff_eq.mp hright)
  · -- the argument in front of a comma is left out
    exact BalancesFromWord.balances (p := shift) t (by rw [beq_iff_eq.mp hcomma]; rfl)
  · exact closesTo_expect t
  · rw [run_bind]
    refine (Balances.balances (p := argumentWith operand) t).passesTo ?_
    refine .of_test (fun hcomma => ?_) ?_
    · exact BalancesFromNext.balances (p := shiftNext) _ (by rw [beq_iff_eq.mp hcomma]; rfl)
    · exact closesTo_expect _

/-- A loop moves the parenthesis that closes what is in front of it, when its last pass does. -/
theorem closesTo_iterate {α β : Type} {exhausted : α → β} {pass : α → Production (Pass α β)}
    [hpass : ∀ a, Progresses (pass a)] (h : ∀ a (s : State), s.PassesTo ((pass a).run s)) (a : α)
    (s : State) :
    s.ClosesTo ((iterate exhausted pass a).run s).2 := by
  generalize hn : s.stream.remaining = n
  -- by induction on the tokens ahead: a pass that goes on moves balanced tokens, and only the last
  -- one closes
  induction n using Nat.strongRecOn generalizing a s with
  | ind n ih =>
    have hstep := h a s
    rw [← Prod.eta ((pass a).run s)] at hstep
    cases hresult : ((pass a).run s).1 with
    | again b =>
      rw [hresult] at hstep
      have hlt := (hpass a).remaining_lt s b hresult
      rw [run_iterate_of_again hresult]
      exact State.BalancedTo.closesTo hstep (ih _ (hn ▸ hlt) b _ rfl)
    | done b =>
      rw [hresult] at hstep
      rw [run_iterate_of_done hresult]
      exact hstep

variable [hcomposed : ∀ power, Composed false (operand power)]

/-- Arguments in parentheses are balanced, and so are the parentheses together with them. -/
theorem closesTo_argumentListWith {s : State} (h : s.stream.current.kind = .lexeme .leftParen) :
    s.shifted.ClosesTo ((argumentListWith operand).run s).2 := by
  have hend : ¬ (s.opening .argumentList).AtEnd := fun hend => nomatch h.symm.trans hend
  unfold argumentListWith
  rw [run_within, run_bind, run_shift hend]
  exact closesTo_iterate passesTo_argumentPass () (s.opening .argumentList).shifted

/-- A list of arguments moves balanced tokens. -/
theorem balancedTo_argumentListWith {s : State} (h : s.stream.current.kind = .lexeme .leftParen) :
    s.BalancedTo ((argumentListWith operand).run s).2 :=
  State.ClosesTo.balancedTo h (closesTo_argumentListWith h)

/-- Arguments come next just when their parenthesis does. -/
theorem kind_next_of_atArguments {spacedCall : Bool} {s : State}
    (h : ((atArguments spacedCall).run s).1 = true) :
    (s.stream.peekSignificant 0).kind = .lexeme .leftParen := by
  simp only [atArguments, run_look, Bool.or_eq_true, Bool.and_eq_true, beq_iff_eq] at h
  rcases h with hkind | ⟨-, hkind⟩
  · rwa [TokenStream.peekSignificant_zero (by rw [hkind]; rfl)]
  · exact hkind

instance (cp : Checkpoint) (spacedCall : Bool) (base : Option Tree) :
    Balances (suffixPass operand cp spacedCall base) := by
  have hcall : Balances (do
      if ← atArguments spacedCall then
        let call ← compositeFrom cp .callExpression do
          skipBlanks
          argumentListWith operand
        return .again call
      return (.done base : Pass (Option Tree) (Option Tree))) := by
    refine .of_test (fun s h => ?_)
    rw [run_bind, run_compositeFrom, run_bind]
    refine (Balances.balances (p := skipBlanks) (s.openingAt cp .callExpression)).trans ?_
    refine balancedTo_argumentListWith ?_
    rw [current_skipBlanks]
    exact kind_next_of_atArguments h
  unfold suffixPass
  refine .of_test (fun s (h : (atMemberAccess.run s).1 = true) => ?_)
  simp only [atMemberAccess, run_look, Bool.and_eq_true] at h
  exact BalancesFromWord.balances s
    (Kind.isNeutral_of (c := (Lookahead.isAccessSign · = true)) (by decide) h.1)

instance (cp : Checkpoint) (spacedCall : Bool) (base : Option Tree) :
    Balances (suffixesWith operand cp spacedCall base) := by
  unfold suffixesWith
  infer_instance

instance (wanted : Wanted) (spacedCall : Bool) :
    Balances (designatorWith operand wanted spacedCall) := by
  have hword (cp : Checkpoint) : Balances (do
      let kind ← currentKind
      if Lookahead.isAccessSign kind then
        suffixesWith operand cp spacedCall (← leadingAccess)
      else if kind.isNameLike then
        suffixesWith operand cp spacedCall (← nameExpression)
      else
        failExpected wanted
        return none) := by
    refine ⟨fun s => ?_⟩
    rw [run_bind, run_currentKind]
    split
    next hsign =>
      exact BalancesFromWord.balances s
        (Kind.isNeutral_of (c := (Lookahead.isAccessSign · = true)) (by decide) hsign)
    next =>
      split
      next hname =>
        exact BalancesFromWord.balances s
          (Kind.isNeutral_of (c := (·.isNameLike = true)) (by decide) hname)
      next => exact Balances.balances s
  unfold designatorWith
  infer_instance

instance : Balances (calleeWith operand) := by unfold calleeWith; infer_instance

omit hcomposed in
/-- An expression in parentheses is balanced together with them. -/
theorem balancedTo_parenthesizedWith {s : State} (h : s.stream.current.kind = .lexeme .leftParen) :
    s.BalancedTo ((parenthesizedWith operand).run s).2 := by
  have hend : ¬ (s.opening .parenthesizedExpression).AtEnd := fun hend => nomatch h.symm.trans hend
  have hitem : Balances (do let _ ← operand 0 : Production Unit) := inferInstance
  have hitems : Balances (commaList do let _ ← operand 0) := by
    have hmore : Balances (repeatWhile (atNext (.lexeme .comma)) do shiftNext; let _ ← operand 0) :=
      .repeatWhile fun s hcomma => BalancesFromNext.balances s (by rw [beq_iff_eq.mp hcomma]; rfl)
    unfold commaList
    infer_instance
  unfold parenthesizedWith
  rw [run_composite, run_bind, run_shift hend, run_bind]
  refine State.ClosesTo.balancedTo (s := s.opening .parenthesizedExpression) h ?_
  exact (hitems.balances _).closesTo (closesTo_expect _)

instance : Balances (primaryWith operand) := by
  refine ⟨fun s => ?_⟩
  unfold primaryWith current
  rw [run_look_bind]
  split
  next hliteral =>
    have hsome : (literalKind? s.stream.current.kind).isSome = true := by rw [hliteral]; rfl
    exact BalancesFromWord.balances s
      (Kind.isNeutral_of (c := fun k => (literalKind? k).isSome = true) (by decide) hsome)
  next =>
    split
    next hparen => exact balancedTo_parenthesizedWith hparen
    next hperiod => exact BalancesFromWord.balances s (by rw [hperiod]; rfl)
    next hbang => exact BalancesFromWord.balances s (by rw [hbang]; rfl)
    next => exact .of_recovering (recovering_unknown s)
    next => exact .of_recovering (recovering_unknown s)
    next =>
      split
      next hname =>
        exact BalancesFromWord.balances s
          (Kind.isNeutral_of (c := (·.isNameLike = true)) (by decide) hname)
      next => exact Balances.balances s

instance : BalancesFromWord (typeOfWith operand) := by
  have hexpect : Balances (expect (.keyword .is)) := balances_expect rfl
  unfold typeOfWith
  infer_instance

instance (cp : Checkpoint) (primary : Option Tree) :
    Balances (operandSuffixes operand cp primary) := by
  cases primary <;> unfold operandSuffixes <;> infer_instance

instance : Balances (unaryWith operand) := by
  refine ⟨fun s => ?_⟩
  unfold unaryWith
  rw [run_bind]
  refine (Balances.balances (p := skipBlanks) s).trans ?_
  generalize (skipBlanks.run s).2 = t
  unfold currentKind
  rw [run_look_bind]
  split
  next hpower =>
    have hsome : (Operator.unaryPower? t.stream.current.kind).isSome = true := by
      rw [hpower]
      rfl
    exact BalancesFromWord.balances t
      (Kind.isNeutral_of (c := fun k => (Operator.unaryPower? k).isSome = true) (by decide) hsome)
  next =>
    split
    case h_4 => exact Balances.balances t
    all_goals
      next hkind => exact BalancesFromWord.balances t (by rw [hkind]; rfl)

instance (cp : Checkpoint) (power : Nat) (left : Option Tree) :
    Balances (operatorPass operand cp power left) := by
  refine ⟨fun s => ?_⟩
  unfold operatorPass nextKind
  rw [run_look_bind]
  split
  next => exact .refl s
  next hpower =>
    have hsome : (Operator.binaryPower? (s.stream.peekSignificant 0).kind).isSome = true := by
      rw [hpower]
      rfl
    have hnext : (s.stream.peekSignificant 0).kind.isNeutral = true :=
      Kind.isNeutral_of (c := fun k => (Operator.binaryPower? k).isSome = true) (by decide) hsome
    split
    next => exact .refl s
    next => exact BalancesFromNext.balances s hnext

instance (power : Nat) : Balances (binaryWith operand power) := by
  unfold binaryWith
  infer_instance

end

instance (depth power : Nat) : Balances (binaryUpTo depth power) := by
  induction depth generalizing power with
  | zero => unfold binaryUpTo; infer_instance
  | succ depth ih => unfold binaryUpTo; infer_instance

instance (power : Nat) : Balances (expressionAbove power) := by
  unfold expressionAbove
  infer_instance

end Grammar

end LosslessBasic
