import LosslessBasic.Proofs.Grammar.Operands
import LosslessBasic.Proofs.Grammar.Source
import Mathlib.Data.List.Forall2

/-!
# The order of failures

The grammar reports every failure at a token of the source, and never at an earlier one than before:
`State.Ordered` says that the failures so far stand at tokens of ascending index, none of them
behind the next significant token. Most productions keep this whatever they meet, as they report at
the token that comes next (`Orders`). Some report at the cursor, which is the same place only where
no blank stands there (`OrdersHere`), or at a token that they have looked up before
(`OrdersWhenNext`). The sign of a leading access has been moved when it is reported; then nothing
can have been reported behind it.

A message quotes the token that it is reported at, which is none between the words of a line, and no
other (`Problem.Quotes`). There are two exceptions: the name of a member is asked for at the cursor,
whatever stands there, and a closer that closes nothing is quoted with both of its words
(`OrdersAtCloser`).
-/

namespace LosslessBasic

namespace TokenStream

/-- Moving on never goes back. -/
theorem position_le_advance (s : TokenStream) : s.position ≤ s.advance.position := by
  unfold advance
  split
  next => exact Nat.le_refl _
  next => simp [position]

/-- The next word does not stand in front of the cursor. -/
theorem position_le_significantIndex (s : TokenStream) (n : Nat) :
    s.position ≤ s.significantIndex n := Nat.le_add_right _ _

/-- Where no blank stands at the cursor, the token there is the next significant one. -/
theorem significantIndex_eq_position {s : TokenStream} (h : s.current.kind.isInlineTrivia = false) :
    s.significantIndex 0 = s.position := by
  have hdistance : significantDistance s.current s.ahead 0 = 0 := by
    cases s.ahead <;> simp [significantDistance, h]
  rw [significantIndex, hdistance, Nat.add_zero]

/-- Moving on brings the next significant token no nearer to the start. -/
theorem significantIndex_le_advance (s : TokenStream) :
    s.significantIndex 0 ≤ s.advance.significantIndex 0 := by
  by_cases hblank : s.current.kind.isInlineTrivia = true
  · obtain ⟨t, ahead, hahead⟩ := List.exists_cons_of_ne_nil
      (s.ahead_ne_nil fun hend => by rw [hend] at hblank; cases hblank)
    have hdistance :
        significantDistance s.current s.ahead 0 = significantDistance t ahead 0 + 1 := by
      rw [hahead, significantDistance, if_pos hblank]
    have hadvance : s.advance.current = t ∧ s.advance.ahead = ahead := by
      unfold advance
      split
      next h => rw [hahead] at h; cases h
      next t' ahead' h =>
        obtain ⟨rfl, rfl⟩ := List.cons.inj (hahead.symm.trans h)
        exact ⟨rfl, rfl⟩
    have hposition := position_advance_of_ahead (s := s) (by simp [hahead])
    rw [significantIndex, significantIndex, hdistance, hadvance.1, hadvance.2, hposition]
    omega
  · rw [significantIndex_eq_position (by simpa using hblank)]
    exact Nat.le_trans s.position_le_advance (s.advance.position_le_significantIndex 0)

end TokenStream

namespace Problem

/-- Whether a problem that is reported at a token is one of the grammar, and not of a token by
itself or of the encoding, and what its message quotes: the token, which is no blank unless the name
of a member was asked for right there, the sign of an access, or the words of a closer. -/
def Quotes (tokens : List Token) (t : Token) : Problem → Prop
  | .expected wanted got => got = t ∧ (wanted = .memberName ∨ TokenStream.isSolid t = true)
  | .unexpectedStart got | .leftover got | .expectedCase got | .missingCloser _ got
  | .unmatchedNext got => got = t ∧ TokenStream.isSolid t = true
  | .memberOutsideWith access => access = t ∧ Lookahead.isAccessSign t.kind = true
  | .unmatchedCloser written _ => t.kind.isKeyword = true ∧ (written = t.text ∨
      ∃ u ∈ tokens, u.kind.isKeyword = true ∧ written = t.text ++ Bytes.ofString " " ++ u.text)
  | .secondElse | .straySeparator => True
  | .unknownCharacter _ | .unterminatedString | .invalidEncoding => False

/-- A problem that quotes the token that it is reported at. -/
class Names (problem : Problem) (t : Token) : Prop where
  quotes (tokens : List Token) : TokenStream.isSolid t = true → problem.Quotes tokens t

variable {t : Token}

instance (wanted : Wanted) : (expected wanted t).Names t := ⟨fun _ h => ⟨rfl, .inr h⟩⟩

instance : (unexpectedStart t).Names t := ⟨fun _ h => ⟨rfl, h⟩⟩

instance : (leftover t).Names t := ⟨fun _ h => ⟨rfl, h⟩⟩

instance : (expectedCase t).Names t := ⟨fun _ h => ⟨rfl, h⟩⟩

instance (block : Block) : (missingCloser block t).Names t := ⟨fun _ h => ⟨rfl, h⟩⟩

instance : (unmatchedNext t).Names t := ⟨fun _ h => ⟨rfl, h⟩⟩

instance : secondElse.Names t := ⟨fun _ _ => trivial⟩

instance : straySeparator.Names t := ⟨fun _ _ => trivial⟩

end Problem

namespace Failure

/-- Whether a problem of the grammar is reported at the token of an index. -/
def IsAt (tokens : List Token) (index : Nat) (f : Failure) : Prop :=
  ∃ t, tokens[index]? = some t ∧ f = .atToken f.problem t ∧ f.problem.Quotes tokens t

/-- Whether failures are reported at tokens in their order, none of them behind the one of index
`last`. -/
def InOrder (tokens : List Token) (last : Nat) (failures : List Failure) : Prop :=
  ∃ indices : List Nat, indices.Pairwise (· ≤ ·) ∧ (∀ i ∈ indices, i ≤ last) ∧
    List.Forall₂ (IsAt tokens) indices failures

/-- No failures are in order. -/
theorem InOrder.nil (tokens : List Token) (last : Nat) : InOrder tokens last [] :=
  ⟨[], .nil, by simp, .nil⟩

/-- A later bound may be put in front of failures that are in order. -/
theorem InOrder.mono {tokens : List Token} {last last' : Nat} {failures : List Failure}
    (h : InOrder tokens last failures) (hlast : last ≤ last') : InOrder tokens last' failures := by
  obtain ⟨indices, hsorted, hbound, hat⟩ := h
  exact ⟨indices, hsorted, fun i hi => Nat.le_trans (hbound i hi) hlast, hat⟩

/-- One more failure at the last token or behind it. -/
theorem InOrder.push {tokens : List Token} {last : Nat} {failures : List Failure} {t : Token}
    (h : InOrder tokens last failures) (ht : tokens[last]? = some t) {problem : Problem}
    (hproblem : problem.Quotes tokens t) :
    InOrder tokens last (failures ++ [.atToken problem t]) := by
  obtain ⟨indices, hsorted, hbound, hat⟩ := h
  refine ⟨indices ++ [last], ?_, ?_, List.rel_append hat (.cons ⟨t, ht, rfl, hproblem⟩ .nil)⟩
  · refine List.pairwise_append.mpr ⟨hsorted, List.pairwise_singleton _ _, fun i hi j hj => ?_⟩
    rw [List.mem_singleton.mp hj]
    exact hbound i hi
  · intro i hi
    rcases List.mem_append.mp hi with hi | hi
    · exact hbound i hi
    · exact Nat.le_of_eq (List.mem_singleton.mp hi)

end Failure

namespace Grammar

set_option synthInstance.maxSize 65536

/-- Whether the failures so far stand at tokens in their order, none behind the next significant
one. -/
def State.Ordered (s : State) : Prop :=
  Failure.InOrder s.stream.tokens (s.stream.significantIndex 0) s.failures.toList

/-- Whether no blank stands at the cursor. -/
def State.OnSolid (s : State) : Prop := s.stream.current.kind.isInlineTrivia = false

/-- Every production reads the same stream, and never goes back in it. -/
theorem Composed.passes {simple : Bool} {α : Type} {p : Production α} (h : Composed simple p)
    (s : State) : (p.run s).2.stream.tokens = s.stream.tokens ∧
      s.stream.position ≤ (p.run s).2.stream.position := by
  induction h generalizing s with
  | pure | get | note | setRecovering | setSeparator | setPendingNext | addTarget | report =>
    exact ⟨rfl, Nat.le_refl _⟩
  | bind _ _ ihp ihf => exact ⟨(ihf _ _).1.trans (ihp s).1, Nat.le_trans (ihp s).2 (ihf _ _).2⟩
  | shift =>
    by_cases hend : s.stream.current.kind = .lexeme .endOfFile
    · rw [run_shift_of_atEnd hend]
      exact ⟨rfl, Nat.le_refl _⟩
    · rw [run_shift hend]
      exact ⟨s.stream.tokens_advance, s.stream.position_le_advance⟩
  | @within _ _ k _ _ ih => exact ih (s.opening k)
  | @composite _ k _ _ ih => exact ih (s.opening k)
  | @compositeFrom _ cp k _ _ ih => exact ih (s.openingAt cp k)
  | @inBlock _ block _ _ ih => exact ih { s with blocks := block :: s.blocks }
  | @inWith _ _ target _ _ ih => exact ih { s with withTargets := target :: s.withTargets }
  | onOneLine _ ih => exact ih { s with lineMode := s.lineMode + 1 }

/-- A production that reports in order. -/
class Orders {α : Type} (p : Production α) : Prop where
  ordered (s : State) : s.Ordered → (p.run s).2.Ordered

/-- A production that reports in order where no blank stands at the cursor. -/
class OrdersHere {α : Type} (p : Production α) : Prop where
  ordered (s : State) : s.OnSolid → s.Ordered → (p.run s).2.Ordered

/-- Whether the words of a closer come next, the first of them at the cursor. -/
def State.AtCloser (s : State) : Prop := s.OnSolid ∧
  (Closer.ofKinds? (s.stream.peekSignificant 0).kind (s.stream.peekSignificant 1).kind).isSome =
    true

/-- A production that reports in order where the words of a closer come next. -/
class OrdersAtCloser {α : Type} (p : Production α) : Prop where
  ordered (s : State) : s.AtCloser → s.Ordered → (p.run s).2.Ordered

/-- A production that reports in order where a token is the next significant one. -/
class OrdersWhenNext (t : Token) {α : Type} (p : Production α) : Prop where
  ordered (s : State) : s.stream.peekSignificant 0 = t → s.Ordered → (p.run s).2.Ordered

/-! ## Moves -/

/-- Failures stay in order where neither they nor the tokens change. -/
theorem State.Ordered.of_eq {s t : State} (h : s.Ordered) (hstream : t.stream = s.stream)
    (hfailures : t.failures = s.failures) : t.Ordered := by
  rwa [State.Ordered, hstream, hfailures]

/-- A token that is moved leaves the failures in order. -/
theorem State.Ordered.shifted {s : State} (h : s.Ordered) : s.shifted.Ordered := by
  unfold State.Ordered at h ⊢
  change Failure.InOrder s.stream.advance.tokens _ s.failures.toList
  rw [TokenStream.tokens_advance]
  exact h.mono s.stream.significantIndex_le_advance

/-- A failure reported at the next word comes behind the earlier ones. -/
theorem State.Ordered.reported {s : State} {t : Token} (h : s.Ordered)
    (ht : s.stream.peekSignificant 0 = t) {problem : Problem}
    (hproblem : problem.Quotes s.stream.tokens t) : ((report problem t).run s).2.Ordered := by
  have hindex := s.stream.getElem?_significantIndex 0
  rw [ht] at hindex
  have hpush := Failure.InOrder.push h hindex hproblem
  change Failure.InOrder s.stream.tokens _ (s.failures.push (.atToken problem t)).toList
  rwa [Array.toList_push]

/-- A statement that fails at the next word has its failure behind the earlier ones. -/
theorem State.Ordered.failed {s : State} {t : Token} (h : s.Ordered)
    (ht : s.stream.peekSignificant 0 = t) {problem : Problem}
    (hproblem : problem.Quotes s.stream.tokens t) : ((fail problem t).run s).2.Ordered := by
  unfold fail
  rw [run_bind, run_get]
  dsimp only
  split
  next => exact h.of_eq rfl rfl
  next => exact (h.reported ht hproblem).of_eq rfl rfl

section

variable {α β : Type} {p q : Production α}

instance [h : Orders p] : OrdersHere p := ⟨fun s _ => h.ordered s⟩

instance {t : Token} [h : Orders p] : OrdersWhenNext t p := ⟨fun s _ => h.ordered s⟩

instance [h : OrdersHere p] : OrdersAtCloser p := ⟨fun s hcloser => h.ordered s hcloser.1⟩

/-- What neither moves nor reports keeps the order. -/
theorem Orders.of_silent
    (h : ∀ s, (p.run s).2.stream = s.stream ∧ (p.run s).2.failures = s.failures) : Orders p :=
  ⟨fun s hs => hs.of_eq (h s).1 (h s).2⟩

instance (a : α) : Orders (pure a : Production α) := .of_silent fun _ => ⟨rfl, rfl⟩

instance : Orders (get : Production State) := .of_silent fun _ => ⟨rfl, rfl⟩

instance (f : TokenStream → α) : Orders (look f) := .of_silent fun _ => ⟨rfl, rfl⟩

instance (activity : Activity) (t : Token) : Orders (note activity t) :=
  .of_silent fun _ => ⟨rfl, rfl⟩

instance (recovering : Bool) : Orders (setRecovering recovering) := .of_silent fun _ => ⟨rfl, rfl⟩

instance (separator : Separator) : Orders (setSeparator separator) := .of_silent fun _ => ⟨rfl, rfl⟩

instance (loops : Nat) : Orders (setPendingNext loops) := .of_silent fun _ => ⟨rfl, rfl⟩

instance : Orders checkpoint := .of_silent fun _ => ⟨rfl, rfl⟩

instance : Orders shift where
  ordered s hs := by
    by_cases hend : s.AtEnd
    · rwa [run_shift_of_atEnd hend]
    · rw [run_shift hend]
      exact hs.shifted

/-- Two productions that keep the failures in order do so one behind the other. -/
theorem Orders.bind {f : α → Production β} (hp : Orders p) (hf : ∀ a, Orders (f a)) :
    Orders (p >>= f) :=
  ⟨fun s hs => (hf _).ordered _ (hp.ordered s hs)⟩

/-- Behind a production that does not move, the next one starts where it has started. -/
theorem OrdersHere.of_still {f : α → Production β} [hp : Orders p] [hstill : Still p]
    (hf : ∀ a, OrdersHere (f a)) : OrdersHere (p >>= f) where
  ordered s hsolid hs := by
    have hstay : (p.run s).2.OnSolid := by rwa [State.OnSolid, hstill.stream_eq]
    exact (hf _).ordered _ hstay (hp.ordered s hs)

instance {f : α → Production β} [hp : Orders p] [hf : ∀ a, Orders (f a)] : Orders (p >>= f) :=
  .bind hp hf

instance {f : α → Production β} [hp : OrdersHere p] [hf : ∀ a, Orders (f a)] :
    OrdersHere (p >>= f) :=
  ⟨fun s hsolid hs => (hf _).ordered _ (hp.ordered s hsolid hs)⟩

instance {f : α → Production β} [hp : Orders p] [hstill : Still p] [hf : ∀ a, OrdersHere (f a)] :
    OrdersHere (p >>= f) := .of_still hf

instance {f : α → Production β} [hp : OrdersAtCloser p] [hf : ∀ a, Orders (f a)] :
    OrdersAtCloser (p >>= f) :=
  ⟨fun s hcloser hs => (hf _).ordered _ (hp.ordered s hcloser hs)⟩

instance {f : α → Production β} [hp : Orders p] [hstill : Still p]
    [hf : ∀ a, OrdersAtCloser (f a)] :
    OrdersAtCloser (p >>= f) where
  ordered s hcloser hs := by
    have hstay : (p.run s).2.AtCloser := by rwa [State.AtCloser, State.OnSolid, hstill.stream_eq]
    exact (hf _).ordered _ hstay (hp.ordered s hs)

instance {t : Token} {f : α → Production β} [hp : OrdersWhenNext t p] [hf : ∀ a, Orders (f a)] :
    OrdersWhenNext t (p >>= f) :=
  ⟨fun s ht hs => (hf _).ordered _ (hp.ordered s ht hs)⟩

instance {t : Token} {f : α → Production β} [hp : Orders p] [hstill : Still p]
    [hf : ∀ a, OrdersWhenNext t (f a)] : OrdersWhenNext t (p >>= f) where
  ordered s ht hs := by
    have hstay : (p.run s).2.stream.peekSignificant 0 = t := by rwa [hstill.stream_eq]
    exact (hf _).ordered _ hstay (hp.ordered s hs)

instance {k : NodeKind} [h : Orders p] : Orders (within k p) :=
  ⟨fun s hs => (h.ordered (s.opening k) hs).of_eq rfl rfl⟩

instance {k : NodeKind} [h : OrdersHere p] : OrdersHere (within k p) :=
  ⟨fun s hsolid hs => (h.ordered (s.opening k) hsolid hs).of_eq rfl rfl⟩

instance {k : NodeKind} {p : Production Unit} [h : Orders p] : Orders (composite k p) :=
  ⟨fun s hs => (h.ordered (s.opening k) hs).of_eq rfl rfl⟩

instance {k : NodeKind} {p : Production Unit} [h : OrdersHere p] : OrdersHere (composite k p) :=
  ⟨fun s hsolid hs => (h.ordered (s.opening k) hsolid hs).of_eq rfl rfl⟩

instance {cp : Checkpoint} {k : NodeKind} {p : Production Unit} [h : Orders p] :
    Orders (compositeFrom cp k p) :=
  ⟨fun s hs => (h.ordered (s.openingAt cp k) hs).of_eq rfl rfl⟩

instance {cp : Checkpoint} {k : NodeKind} {p : Production Unit} [h : OrdersHere p] :
    OrdersHere (compositeFrom cp k p) :=
  ⟨fun s hsolid hs => (h.ordered (s.openingAt cp k) hsolid hs).of_eq rfl rfl⟩

instance {block : Block} [h : Orders p] : Orders (inBlock block p) :=
  ⟨fun s hs => (h.ordered { s with blocks := block :: s.blocks } hs).of_eq rfl rfl⟩

instance {target : Option Tree} [h : Orders p] : Orders (inWith target p) :=
  ⟨fun s hs => (h.ordered { s with withTargets := target :: s.withTargets } hs).of_eq rfl rfl⟩

instance [h : Orders p] : Orders (onOneLine p) :=
  ⟨fun s hs => (h.ordered { s with lineMode := s.lineMode + 1 } hs).of_eq rfl rfl⟩

instance {c : Prop} [Decidable c] [Orders p] [Orders q] : Orders (if c then p else q) := by
  split <;> infer_instance

instance {c : Prop} [Decidable c] [OrdersHere p] [OrdersHere q] :
    OrdersHere (if c then p else q) := by
  split <;> infer_instance

instance {c : Prop} [Decidable c] [OrdersAtCloser p] [OrdersAtCloser q] :
    OrdersAtCloser (if c then p else q) := by
  split <;> infer_instance

instance {t : Token} {c : Prop} [Decidable c] [OrdersWhenNext t p] [OrdersWhenNext t q] :
    OrdersWhenNext t (if c then p else q) := by
  split <;> infer_instance

/-- A test that looks ahead only and does not hold at a blank. -/
class TestsSolid (test : Production Bool) : Prop where
  run_eq (s : State) : test.run s = ((test.run s).1, s)
  onSolid {s : State} : (test.run s).1 = true → s.OnSolid

instance {test : Production Bool} [ht : TestsSolid test] [hp : OrdersHere p] [hq : Orders q] :
    Orders (test >>= fun b => if b then p else q) where
  ordered s hs := by
    rw [run_bind, ht.run_eq]
    cases htest : (test.run s).1 with
    | true => exact hp.ordered s (ht.onSolid htest) hs
    | false => exact hq.ordered s hs

instance {exhausted : α → β} {pass : α → Production (Pass α β)} [h : ∀ a, Orders (pass a)] (n : Nat)
    (a : α) : Orders (iterateUpTo exhausted pass n a) := by
  induction n generalizing a with
  | zero => unfold iterateUpTo; infer_instance
  | succ n ih =>
    refine ⟨fun s hs => ?_⟩
    have hpass := (h a).ordered s hs
    unfold iterateUpTo
    rw [run_bind]
    cases ((pass a).run s).1 with
    | again a' => exact (ih a').ordered _ hpass
    | done b => exact hpass

instance {exhausted : α → β} {pass : α → Production (Pass α β)} [∀ a, Orders (pass a)] (a : α) :
    Orders (iterate exhausted pass a) := by
  unfold iterate
  infer_instance

instance {test : Production Bool} {body : Production Unit} [Orders test] [Orders body] (n : Nat) :
    Orders (repeatWhileUpTo test body n) := by
  induction n with
  | zero => unfold repeatWhileUpTo; infer_instance
  | succ n ih => unfold repeatWhileUpTo; infer_instance

instance {test : Production Bool} {body : Production Unit} [Orders test] [Orders body] :
    Orders (repeatWhile test body) := by
  unfold repeatWhile
  infer_instance

end

/-! ## Reports -/

section

variable {α : Type}

/-- What comes next is no blank. -/
theorem quotes_of_next {problem : Problem} {t : Token} [hnames : problem.Names t] {s : State}
    (ht : s.stream.peekSignificant 0 = t) : problem.Quotes s.stream.tokens t :=
  hnames.quotes _ (ht ▸ s.stream.isSolid_peekSignificant 0)

instance (problem : Problem) (t : Token) [problem.Names t] : OrdersWhenNext t (report problem t) :=
  ⟨fun _ ht hs => hs.reported ht (quotes_of_next ht)⟩

instance (problem : Problem) (t : Token) [problem.Names t] : OrdersWhenNext t (fail problem t) :=
  ⟨fun _ ht hs => hs.failed ht (quotes_of_next ht)⟩

instance {f : Token → Production α} [hf : ∀ t, OrdersWhenNext t (f t)] : Orders (next >>= f) :=
  ⟨fun s hs => (hf _).ordered s rfl hs⟩

instance {f : Token → Production α} [hf : ∀ t, OrdersWhenNext t (f t)] :
    OrdersHere (current >>= f) :=
  ⟨fun s hsolid hs => (hf _).ordered s (TokenStream.peekSignificant_zero hsolid) hs⟩

instance : Orders skipBlanks := by unfold skipBlanks; infer_instance

/-- Behind blanks there is none at the cursor. -/
theorem Orders.of_skipBlanks {f : Unit → Production α} (hf : ∀ u, OrdersHere (f u)) :
    Orders (skipBlanks >>= f) where
  ordered s hs := by
    have hskip : Orders skipBlanks := inferInstance
    exact (hf _).ordered _ (isInlineTrivia_skipBlanks s) (hskip.ordered s hs)

instance {f : Unit → Production α} [hf : ∀ u, OrdersHere (f u)] : Orders (skipBlanks >>= f) :=
  .of_skipBlanks hf

end

instance : Orders current := by unfold current; infer_instance

instance : Orders currentKind := by unfold currentKind; infer_instance

instance : Orders nextKind := by unfold nextKind; infer_instance

instance : Orders secondKind := by unfold secondKind; infer_instance

instance : Orders shiftNext := by unfold shiftNext; infer_instance

instance : Orders insideProcedure := by unfold insideProcedure; infer_instance

instance (k : Kind) : Orders (atCurrent k) := by unfold atCurrent; infer_instance

instance (k : Kind) : Orders (atNext k) := by unfold atNext; infer_instance

instance (k : Kind) : Orders (accept k) := by unfold accept; infer_instance

instance (block : Block) : Orders (blockIsOpen block) := by unfold blockIsOpen; infer_instance

instance (wanted : Wanted) : Orders (failExpected wanted) := by unfold failExpected; infer_instance

instance (k : Kind) : Orders (expect k) := by unfold expect; infer_instance

/-! ## The ends of statements -/

instance : Orders atStatementEnd := by unfold atStatementEnd; infer_instance

instance : Orders withinStatement := by unfold withinStatement; infer_instance

instance : Orders shiftRest := by unfold shiftRest; infer_instance

instance : Orders recover := by unfold recover; infer_instance

instance : Orders shiftLineBreak := by unfold shiftLineBreak; infer_instance

instance : Orders finishStatement := by
  unfold finishStatement
  dsimp only
  infer_instance

instance (k : NodeKind) : Orders (rawStatement k) := by unfold rawStatement; infer_instance

instance (item : Production Unit) [Orders item] : Orders (commaList item) := by
  unfold commaList
  infer_instance

/-! ## Expressions -/

instance : Orders nameExpression := by unfold nameExpression; infer_instance

instance (wanted : Wanted) : Orders (expectName wanted) := by unfold expectName; infer_instance

instance (wanted : Wanted) : Orders (hasName wanted) := by unfold hasName; infer_instance

/-- Whether the failures so far stand at tokens in their order, none behind the cursor. -/
def State.OrderedHere (s : State) : Prop :=
  Failure.InOrder s.stream.tokens s.stream.position s.failures.toList

/-- Failures that are in order up to the cursor are in order. -/
theorem State.OrderedHere.ordered {s : State} (h : s.OrderedHere) : s.Ordered :=
  h.mono (s.stream.position_le_significantIndex 0)

/-- Where a word stands at the cursor, no later one can have been reported. -/
theorem State.Ordered.here {s : State} (h : s.Ordered) (hsolid : s.OnSolid) : s.OrderedHere := by
  rwa [State.OrderedHere, ← TokenStream.significantIndex_eq_position hsolid]

/-- The failures are in order up to the cursor once a token is moved. -/
theorem orderedHere_shift {s : State} (h : s.OrderedHere) : (shift.run s).2.OrderedHere := by
  by_cases hend : s.AtEnd
  · rwa [run_shift_of_atEnd hend]
  · rw [run_shift hend]
    unfold State.OrderedHere State.shifted
    rw [TokenStream.tokens_advance]
    exact h.mono s.stream.position_le_advance

/-- The name of a member is asked for at the cursor, whatever stands there. -/
theorem ordered_memberName {s : State} (h : s.OrderedHere) :
    (memberName.run s).2.Ordered ∧
      ((memberName.run s).2.failures = s.failures ∨ (memberName.run s).2.recovering = true) := by
  unfold memberName current
  rw [run_look_bind]
  split
  · have hname : Orders nameExpression := inferInstance
    exact ⟨hname.ordered s h.ordered, .inl (failures_shift (s.opening .identifierExpression))⟩
  · unfold fail
    rw [run_bind, run_get]
    dsimp only
    split
    · exact ⟨h.ordered.of_eq rfl rfl, .inr rfl⟩
    · have hquotes : (Problem.expected .memberName s.stream.current).Quotes s.stream.tokens
          s.stream.current := ⟨rfl, .inl rfl⟩
      -- the failure stands at the cursor, where a blank may be: `Ordered` would not be enough
      have hpush := Failure.InOrder.push h s.stream.getElem?_position hquotes
      refine ⟨State.OrderedHere.ordered ?_, .inr rfl⟩
      change Failure.InOrder s.stream.tokens s.stream.position (s.failures.push _).toList
      rwa [Array.toList_push]

/-- The sign of an access and the name behind it. -/
theorem ordered_access {s : State} (h : s.OrderedHere) :
    ((shift >>= fun _ => memberName).run s).2.Ordered ∧
      (((shift >>= fun _ => memberName).run s).2.failures = s.failures ∨
        ((shift >>= fun _ => memberName).run s).2.recovering = true) := by
  obtain ⟨hordered, hquiet⟩ := ordered_memberName (orderedHere_shift h)
  rw [failures_shift] at hquiet
  exact ⟨hordered, hquiet⟩

instance : OrdersHere (shift >>= fun _ => memberName) :=
  ⟨fun _ hsolid hs => (ordered_access (hs.here hsolid)).1⟩

/-- The sign of an access may be reported behind it where nothing has been reported in between. -/
theorem ordered_referToHeader {s t : State} (h : s.OrderedHere) (ht : t.Ordered)
    (hsign : Lookahead.isAccessSign s.stream.current.kind = true)
    (hpasses : t.stream.tokens = s.stream.tokens ∧ s.stream.position ≤ t.stream.position)
    (hquiet : t.failures = s.failures ∨ t.recovering = true) (access : Option Tree) :
    ((referToHeader s.stream.current access).run t).2.Ordered := by
  have hfail : ((fail (.memberOutsideWith s.stream.current) s.stream.current).run t).2.Ordered := by
    unfold fail
    rw [run_bind, run_get]
    dsimp only
    split
    next => exact ht.of_eq rfl rfl
    next hrecovering =>
      have hquotes : (Problem.memberOutsideWith s.stream.current).Quotes s.stream.tokens
          s.stream.current := ⟨rfl, hsign⟩
      -- the failures are those of the state in front of the sign, so one at the sign comes behind
      -- them
      have hpush := Failure.InOrder.push h s.stream.getElem?_position hquotes
      change Failure.InOrder t.stream.tokens _ (t.failures.push _).toList
      rw [Array.toList_push, hquiet.resolve_right hrecovering, hpasses.1]
      exact hpush.mono
        (Nat.le_trans hpasses.2 (t.stream.position_le_significantIndex 0))
  unfold referToHeader
  rw [run_bind, run_get]
  dsimp only
  split
  · exact hfail
  · exact ht.of_eq rfl rfl
  · exact ht

/-- An access with no object in front of it keeps the failures in order. -/
theorem ordered_leadingAccess {s : State}
    (hsign : Lookahead.isAccessSign s.stream.current.kind = true)
    (hs : s.Ordered) : (leadingAccess.run s).2.Ordered := by
  have hhere := hs.here (State.AtDesignator.significant (.inr hsign))
  obtain ⟨hordered, hquiet⟩ :=
    ordered_access (s := s.opening (accessKind s.stream.current.kind)) hhere
  have hcomposed : Composed true (shift >>= fun _ => memberName) := inferInstance
  have hpasses := hcomposed.passes (s.opening (accessKind s.stream.current.kind))
  unfold leadingAccess current
  rw [run_look_bind, run_bind, run_composite, run_bind]
  have hclosed : ((shift >>= fun _ => memberName).run
      (s.opening (accessKind s.stream.current.kind))).2.closing.Ordered := hordered.of_eq rfl rfl
  exact ordered_referToHeader hhere hclosed hsign hpasses hquiet _

instance : TestsSolid atMemberAccess where
  run_eq _ := rfl
  onSolid {s} h := by
    change (Lookahead.isAccessSign s.stream.current.kind && _) = true at h
    unfold State.OnSolid
    cases hkind : s.stream.current.kind <;> rw [hkind] at h <;> first | rfl | cases h

instance : Orders atQualifier := by unfold atQualifier; infer_instance

instance : Orders typeName := by unfold typeName; infer_instance

section

variable {operand : Nat → Production (Option Tree)} [∀ power, Orders (operand power)]

instance : Orders atNamedArgument := by unfold atNamedArgument; infer_instance

instance : Orders optionalParameterName := by unfold optionalParameterName; infer_instance

instance : Orders (argumentWith operand) := by unfold argumentWith; infer_instance

instance (u : Unit) : Orders (argumentPass operand u) := by unfold argumentPass; infer_instance

instance : Orders (argumentListWith operand) := by unfold argumentListWith; infer_instance

instance (spacedCall : Bool) : Orders (atArguments spacedCall) := by
  unfold atArguments
  infer_instance

instance (cp : Checkpoint) (spacedCall : Bool) (base : Option Tree) :
    Orders (suffixPass operand cp spacedCall base) := by
  unfold suffixPass
  infer_instance

instance (cp : Checkpoint) (spacedCall : Bool) (base : Option Tree) :
    Orders (suffixesWith operand cp spacedCall base) := by
  unfold suffixesWith
  infer_instance

instance (wanted : Wanted) (spacedCall : Bool) :
    Orders (designatorWith operand wanted spacedCall) := by
  unfold designatorWith
  refine .of_skipBlanks fun _ => .of_still fun cp => ⟨fun s _ hs => ?_⟩
  rw [run_bind, run_currentKind]
  split
  next hsign =>
    rw [run_bind]
    exact Orders.ordered _ (ordered_leadingAccess hsign hs)
  next => exact Orders.ordered s hs

instance : Orders (variableWith operand) := by unfold variableWith; infer_instance

instance : Orders (calleeWith operand) := by unfold calleeWith; infer_instance

instance : Orders (parenthesizedWith operand) := by unfold parenthesizedWith; infer_instance

instance : OrdersHere (primaryWith operand) := by
  refine ⟨fun s hsolid hs => ?_⟩
  have hnext : s.stream.peekSignificant 0 = s.stream.current :=
    TokenStream.peekSignificant_zero hsolid
  unfold primaryWith current
  rw [run_look_bind]
  split
  · exact Orders.ordered s hs
  · split
    case h_2 hperiod => exact ordered_leadingAccess (by rw [hperiod]; rfl) hs
    case h_3 hbang => exact ordered_leadingAccess (by rw [hbang]; rfl) hs
    case h_6 =>
      split
      · exact Orders.ordered s hs
      · exact OrdersWhenNext.ordered s hnext hs
    all_goals exact OrdersHere.ordered s hsolid hs

instance : Orders (typeOfWith operand) := by unfold typeOfWith; infer_instance

instance (cp : Checkpoint) (primary : Option Tree) :
    Orders (operandSuffixes operand cp primary) := by
  cases primary <;> unfold operandSuffixes <;> infer_instance

instance : Orders (unaryWith operand) := by
  unfold unaryWith
  refine .of_skipBlanks fun _ => .of_still fun kind => ?_
  split
  · infer_instance
  · split <;> infer_instance

instance (cp : Checkpoint) (power : Nat) (left : Option Tree) :
    Orders (operatorPass operand cp power left) := by
  unfold operatorPass
  refine .bind inferInstance fun kind => ?_
  split <;> infer_instance

instance (power : Nat) : Orders (binaryWith operand power) := by unfold binaryWith; infer_instance

end

instance (depth power : Nat) : Orders (binaryUpTo depth power) := by
  induction depth generalizing power with
  | zero => unfold binaryUpTo; infer_instance
  | succ depth ih => unfold binaryUpTo; infer_instance

instance (power : Nat) : Orders (expressionAbove power) := by unfold expressionAbove; infer_instance

instance : Orders expression := by unfold expression; infer_instance

instance : Orders operand := by unfold operand; infer_instance

instance : Orders variable_ := by unfold variable_; infer_instance

instance : Orders callee := by unfold callee; infer_instance

instance : Orders argumentList := by unfold argumentList; infer_instance

instance : Orders atArgumentSign := by unfold atArgumentSign; infer_instance

instance (u : Unit) : Orders (commandArgumentPass u) := by
  unfold commandArgumentPass
  infer_instance

instance : Orders commandArguments := by unfold commandArguments; infer_instance

/-! ## Declarations -/

instance : Orders shiftModifiers := by unfold shiftModifiers; infer_instance

instance : Orders shiftDeclarator := by unfold shiftDeclarator; infer_instance

instance (item : Production Unit) [Orders item] (u : Unit) : Orders (groupPass item u) := by
  unfold groupPass
  infer_instance

instance (k : NodeKind) (item : Production Unit) [Orders item] : Orders (group k item) := by
  unfold group
  infer_instance

instance : Orders arrayBound := by unfold arrayBound; infer_instance

instance : Orders arrayBounds := by unfold arrayBounds; infer_instance

instance : Orders asClause := by unfold asClause; infer_instance

instance : Orders optionalAsClause := by unfold optionalAsClause; infer_instance

instance : Orders optionalArrayBounds := by unfold optionalArrayBounds; infer_instance

instance (value : Production Unit) [Orders value] : Orders (declaration value) := by
  unfold declaration
  infer_instance

instance : Orders variableDeclaration := by unfold variableDeclaration; infer_instance

instance : Orders constantDeclaration := by unfold constantDeclaration; infer_instance

instance : Orders parameter := by unfold parameter; infer_instance

instance : Orders optionalParameterList := by unfold optionalParameterList; infer_instance

instance : Orders dimStatement := by unfold dimStatement; infer_instance

instance : Orders constStatement := by unfold constStatement; infer_instance

instance : Orders reDimStatement := by unfold reDimStatement; infer_instance

instance : Orders eraseStatement := by unfold eraseStatement; infer_instance

instance : Orders externalSignature := by unfold externalSignature; infer_instance

instance : Orders declareStatement := by unfold declareStatement; infer_instance

instance : Orders eventStatement := by unfold eventStatement; infer_instance

instance : Orders implementsStatement := by unfold implementsStatement; infer_instance

instance : Orders atProcedureHeader := by unfold atProcedureHeader; infer_instance

instance (k : NodeKind) (details : Production Unit) [Orders details] :
    Orders (member k details) := by
  unfold member
  infer_instance

instance : Orders typeMember := by unfold typeMember; infer_instance

instance : Orders enumMember := by unfold enumMember; infer_instance

instance : Orders closeBlock := by unfold closeBlock; infer_instance

instance (closer : Keyword) : Orders (atCloser closer) := by unfold atCloser; infer_instance

instance (item : Production Unit) [Orders item] : Orders (memberOrToken item) := by
  unfold memberOrToken
  infer_instance

/-- What reads lines reports at the cursor only where no blank stands there. -/
theorem onSolid_of_not_isTrivia {s : State} (h : s.stream.current.kind.isTrivia = false) :
    s.OnSolid := by
  unfold State.OnSolid
  cases hkind : s.stream.current.kind <;> rw [hkind] at h <;> first | rfl | cases h

/-- The end marker is a word. -/
theorem onSolid_of_atEnd {s : State} (h : s.AtEnd) : s.OnSolid := by
  unfold State.OnSolid
  rw [h]
  rfl

/-- What reads lines moves trivia first, so it reports only where no blank stands at the cursor. -/
theorem State.Ordered.of_line {α : Type} {p q r : Production α} {s : State} (hs : s.Ordered)
    {c : Bool} (htrivia : c = false → s.stream.current.kind.isTrivia = false)
    [hp : OrdersWhenNext s.stream.current p] [hq : Orders q]
    (hr : s.OnSolid → (r.run s).2.Ordered) :
    (StateT.run (if s.stream.current.kind == .lexeme .endOfFile then p else if c then q else r)
      s).2.Ordered := by
  split
  next hend =>
    have hsolid := onSolid_of_atEnd (beq_iff_eq.mp hend)
    exact hp.ordered s (TokenStream.peekSignificant_zero hsolid) hs
  next =>
    cases hc : c with
    | true => exact hq.ordered s hs
    | false => exact hr (onSolid_of_not_isTrivia (htrivia hc))

instance (closer : Keyword) : Still (atCloser closer) := ⟨fun _ => rfl⟩

instance (block : Block) (closer : Keyword) (item : Production Unit) [Orders item] (u : Unit) :
    Orders (memberPass block closer item u) := by
  refine ⟨fun s hs => ?_⟩
  unfold memberPass current
  rw [run_look_bind]
  exact hs.of_line (fun h => (Bool.or_eq_false_iff.mp h).1) fun hsolid =>
    OrdersWhenNext.ordered s (TokenStream.peekSignificant_zero hsolid) hs

instance (block : Block) (closer : Keyword) (item : Production Unit) [Orders item] :
    Orders (memberBlock block closer item) := by
  unfold memberBlock
  infer_instance

instance : Orders typeStatement := by unfold typeStatement; infer_instance

instance : Orders enumStatement := by unfold enumStatement; infer_instance

/-! ## Simple statements -/

instance : Orders assignment := by unfold assignment; infer_instance

instance : Orders assignmentStatement := by unfold assignmentStatement; infer_instance

instance (k : NodeKind) : Orders (wordedAssignment k) := by unfold wordedAssignment; infer_instance

instance : Orders call := by unfold call; infer_instance

instance : Orders callStatement := by unfold callStatement; infer_instance

instance : Orders callKeywordStatement := by unfold callKeywordStatement; infer_instance

instance : Orders raiseEventStatement := by unfold raiseEventStatement; infer_instance

instance (k : NodeKind) : Orders (wordStatement k) := by unfold wordStatement; infer_instance

instance : Orders label := by unfold label; infer_instance

instance (k : NodeKind) : Orders (jumpStatement k) := by unfold jumpStatement; infer_instance

instance : Orders resumeStatement := by unfold resumeStatement; infer_instance

instance : Orders exitTarget := by unfold exitTarget; infer_instance

instance : Orders exitStatement := by unfold exitStatement; infer_instance

instance : Orders onErrorStatement := by unfold onErrorStatement; infer_instance

instance : Orders onJumpStatement := by unfold onJumpStatement; infer_instance

instance : Orders onStatement := by unfold onStatement; infer_instance

instance : Orders lineStatement := by unfold lineStatement; infer_instance

instance : Orders atLabel := .of_silent fun s => by rw [run_atLabel_snd]; exact ⟨rfl, rfl⟩

instance : Still atLabel := ⟨fun s => by rw [run_atLabel_snd]⟩

instance : Orders labelStatement := by unfold labelStatement; infer_instance

instance : Orders unknownStatement := by unfold unknownStatement; infer_instance

instance : OrdersHere unexpectedStatement := by unfold unexpectedStatement; infer_instance

/-! ## Designer blocks -/

instance (block : Block) : Orders (atDesignerEnd block) := by unfold atDesignerEnd; infer_instance

instance (block : Block) : Still (atDesignerEnd block) := ⟨fun _ => rfl⟩

instance : Orders designerBlock? := by unfold designerBlock?; infer_instance

instance : Orders propertyAssignment := by unfold propertyAssignment; infer_instance

instance (inner : Block → Production Unit) [∀ block, Orders (inner block)] (block? : Option Block) :
    Orders (blockOrProperty inner block?) := by
  cases block? <;> unfold blockOrProperty <;> infer_instance

instance (inner : Block → Production Unit) [∀ block, Orders (inner block)] (block : Block)
    (u : Unit) :
    Orders (designerPass inner block u) := by
  refine ⟨fun s hs => ?_⟩
  unfold designerPass current
  rw [run_look_bind]
  exact hs.of_line id fun hsolid =>
    OrdersWhenNext.ordered s (TokenStream.peekSignificant_zero hsolid) hs

instance (depth : Nat) (block : Block) : Orders (designerUpTo depth block) := by
  induction depth generalizing block with
  | zero => unfold designerUpTo; infer_instance
  | succ depth ih => unfold designerUpTo; infer_instance

instance : Orders designerStatement := by unfold designerStatement; infer_instance

/-! ## Lists of statements -/

instance : OrdersHere separator := by
  unfold separator
  dsimp only
  infer_instance

instance : Orders shiftTrivia := by unfold shiftTrivia; infer_instance

instance : Orders nextCloser? := by unfold nextCloser?; infer_instance

instance : Still nextCloser? := ⟨fun _ => rfl⟩

instance (t : Token) : OrdersWhenNext t (reportMissingCloser t) where
  ordered s ht hs := by
    unfold reportMissingCloser
    rw [run_bind, run_get]
    dsimp only
    split
    · exact hs
    · exact hs.reported ht (quotes_of_next ht)

instance : Orders writtenCloser := by unfold writtenCloser; infer_instance

instance : Still writtenCloser where
  stream_eq s := by
    unfold writtenCloser current
    rw [run_look_bind]
    split <;> rfl

/-- A closer is written with keywords. -/
theorem isKeyword_of_ofKinds? {first second : Kind}
    (h : (Closer.ofKinds? first second).isSome = true) :
    first.isKeyword = true ∧ (first = .keyword .end_ → second.isKeyword = true) := by
  unfold Closer.ofKinds? at h
  split at h
  next =>
    refine ⟨rfl, fun _ => ?_⟩
    split at h
    all_goals first | rfl | cases h
  all_goals first | exact ⟨rfl, nofun⟩ | cases h

/-- What is written of a closer are its words. -/
theorem quotes_writtenCloser {s : State} (h : s.AtCloser) (closer : Closer) :
    (Problem.unmatchedCloser (writtenCloser.run s).1 closer).Quotes s.stream.tokens
      s.stream.current := by
  obtain ⟨hsolid, hcloser⟩ := h
  obtain ⟨hfirst, hsecond⟩ := isKeyword_of_ofKinds? hcloser
  rw [TokenStream.peekSignificant_zero hsolid] at hfirst hsecond
  refine ⟨hfirst, ?_⟩
  unfold writtenCloser current
  rw [run_look_bind]
  split
  next hend =>
    exact .inr ⟨_, s.stream.peekSignificant_mem_tokens 1, hsecond (beq_iff_eq.mp hend), rfl⟩
  next => exact .inl rfl

/-- What the closer that comes next leads to, when there is one. -/
theorem OrdersHere.of_nextCloser? {α : Type} {f : Option Closer → Production α}
    (hcloser : ∀ closer, OrdersAtCloser (f (some closer))) (hnone : OrdersHere (f none)) :
    OrdersHere (nextCloser? >>= f) where
  ordered s hsolid hs := by
    unfold nextCloser?
    rw [run_look_bind]
    cases hnext : Closer.ofKinds? (s.stream.peekSignificant 0).kind
      (s.stream.peekSignificant 1).kind with
    | none => exact hnone.ordered s hsolid hs
    | some closer => exact (hcloser closer).ordered s ⟨hsolid, by rw [hnext]; rfl⟩ hs

instance (closer : Closer) : OrdersAtCloser (strayCloser closer) where
  ordered s hcloser hs := by
    have hnext : s.stream.peekSignificant 0 = s.stream.current :=
      TokenStream.peekSignificant_zero hcloser.1
    have hwritten : (writtenCloser.run s).2.stream = s.stream := Still.stream_eq s
    have hordered : (writtenCloser.run s).2.Ordered := Orders.ordered s hs
    unfold strayCloser
    rw [run_bind]
    refine Orders.ordered (p := setRecovering true >>= fun _ => unknownStatement) _ ?_
    refine hordered.reported (t := (writtenCloser.run s).2.stream.current) ?_ ?_
    · rw [hwritten, hnext]
    · rw [hwritten]
      exact quotes_writtenCloser hcloser closer

instance (stop : Stop) : Orders (blockEnd stop) := by unfold blockEnd; infer_instance

section

variable {statement : Production Unit} [Orders statement]

instance : Orders (statementPass statement) := by
  unfold statementPass
  infer_instance

instance (closer : Closer) : OrdersAtCloser (closerPass closer) := by
  unfold closerPass
  infer_instance

instance : OrdersHere (nextCloser? >>= closerOrStatementPass statement) :=
  .of_nextCloser? (by unfold closerOrStatementPass; infer_instance)
    (by unfold closerOrStatementPass; infer_instance)

instance : Orders (listPass statement) := by
  refine ⟨fun s hs => ?_⟩
  unfold listPass
  rw [run_bind, run_currentKind]
  dsimp only
  split
  · exact Orders.ordered s hs
  next htrivia =>
    have hsolid := onSolid_of_not_isTrivia (Bool.not_eq_true _ ▸ htrivia)
    split <;> exact OrdersHere.ordered s hsolid hs

omit [Orders statement] in
/-- What ends a list in a line is no inline trivia. -/
theorem isInlineTrivia_of_endsInlineList {kind : Kind} (h : endsInlineList kind = true) :
    kind.isInlineTrivia = false := by
  unfold endsInlineList at h
  split at h <;> first | rfl | cases h

instance (u : Unit) : Orders (statementsPass statement u) := by
  refine ⟨fun s hs => ?_⟩
  unfold statementsPass current
  rw [run_look_bind]
  split
  next hend =>
    have hsolid := onSolid_of_atEnd (beq_iff_eq.mp hend)
    exact OrdersWhenNext.ordered s (TokenStream.peekSignificant_zero hsolid) hs
  next =>
    rw [run_bind, run_get]
    dsimp only
    split
    next hline =>
      have hsolid : s.OnSolid :=
        isInlineTrivia_of_endsInlineList (Bool.and_eq_true_iff.mp hline).2
      exact OrdersWhenNext.ordered s (TokenStream.peekSignificant_zero hsolid) hs
    next => exact Orders.ordered s hs

instance : Orders (statements statement) := by unfold statements; infer_instance

instance (block : Block) : Orders (blockBody statement block) := by unfold blockBody; infer_instance

instance : OrdersHere secondElse := by unfold secondElse; infer_instance

instance (endsAtElse : Bool) (u : Unit) : Orders (inlinePass statement endsAtElse u) := by
  refine ⟨fun s hs => ?_⟩
  unfold inlinePass
  rw [run_bind, run_currentKind]
  split
  · exact hs
  split
  · exact hs
  split
  · exact Orders.ordered s hs
  next hblank =>
    have hsolid : s.OnSolid := by simpa [State.OnSolid] using hblank
    exact OrdersHere.ordered s hsolid hs

instance (endsAtElse : Bool) : Orders (inlineStatements statement endsAtElse) := by
  unfold inlineStatements
  infer_instance

/-! ## Statements with bodies -/

instance : Orders ifHeader := by unfold ifHeader; infer_instance

instance : Orders lineNumberJump := by unfold lineNumberJump; infer_instance

instance (endsAtElse : Bool) : Orders (inlineArm statement endsAtElse) := by
  unfold inlineArm
  infer_instance

instance : Orders (inlineArms statement) := by unfold inlineArms; infer_instance

instance : Orders (singleLineIf statement) := by unfold singleLineIf; infer_instance

instance (stop : Stop) : Orders (elseIfPass statement stop) := by unfold elseIfPass; infer_instance

/-- Whether a body that has ended before the closer of its block has left the closer at the
cursor. -/
def State.AtOwnCloser (stop : Stop) (s : State) : Prop := stop = .ownCloser → s.OnSolid

/-- A pass that ends a list before the closer of its block leaves the closer at the cursor. -/
def LeavesCloser (s : State) (p : Production (Pass Unit Stop)) : Prop :=
  ∀ stop, (p.run s).1 = .done stop → (p.run s).2.AtOwnCloser stop

omit [Orders statement] in
/-- A pass that ends for another reason than its own closer leaves none behind. -/
theorem leavesCloser_of_ends {s : State} {p : Production Unit} {stop : Stop}
    (h : stop ≠ .ownCloser) :
    LeavesCloser s (p >>= fun _ => pure (.done stop)) := by
  intro stop' hstop hown
  exact absurd ((Pass.done.inj hstop).trans hown) h

omit [Orders statement] in
/-- A pass that goes on leaves no closer behind. -/
theorem leavesCloser_of_again {s : State} {p : Production Unit} :
    LeavesCloser s (p >>= fun _ => pure (.again ())) := nofun

omit [Orders statement] in
/-- A pass at a closer leaves the closer where it stands if it is its own. -/
theorem leavesCloser_closerPass {s : State} (hsolid : s.OnSolid) (closer : Closer) :
    LeavesCloser s (closerPass closer) := by
  have hopen : ((blockIsOpen closer.block).run s).2 = s := rfl
  unfold LeavesCloser closerPass
  rw [run_bind, run_get]
  dsimp only
  split
  · exact fun _ _ _ => hsolid
  · rw [run_bind, hopen]
    split
    · exact leavesCloser_of_ends (by simp)
    · exact leavesCloser_of_again

omit [Orders statement] in
/-- A pass over a statement does not end at a closer. -/
theorem leavesCloser_statementPass (s : State) : LeavesCloser s (statementPass statement) := by
  unfold LeavesCloser statementPass
  rw [run_bind, run_bind, run_get]
  dsimp only
  split
  · exact leavesCloser_of_ends (by simp)
  · exact nofun

omit [Orders statement] in
variable (statement) in
/-- A pass over a list of statements that ends at its own closer leaves it there. -/
theorem leavesCloser_statementsPass (s : State) : LeavesCloser s (statementsPass statement ()) := by
  have hinside : (insideProcedure.run s).2 = s := rfl
  have hheader : (atProcedureHeader.run s).2 = s := rfl
  unfold LeavesCloser statementsPass current
  rw [run_look_bind]
  split
  · exact leavesCloser_of_ends (by simp)
  rw [run_bind, run_get]
  dsimp only
  split
  · exact leavesCloser_of_ends (by simp)
  unfold listPass
  rw [run_bind, run_currentKind]
  dsimp only
  split
  · exact leavesCloser_of_again
  next htrivia =>
    have hsolid := onSolid_of_not_isTrivia (by simpa using htrivia)
    split
    · exact leavesCloser_of_again
    unfold nextCloser?
    rw [run_look_bind]
    cases Closer.ofKinds? (s.stream.peekSignificant 0).kind (s.stream.peekSignificant 1).kind with
    | some closer => exact leavesCloser_closerPass hsolid closer
    | none =>
      unfold closerOrStatementPass
      rw [run_bind, hinside, run_bind, hheader]
      split
      · exact leavesCloser_of_ends (by simp)
      · exact leavesCloser_statementPass s

omit [Orders statement] in
/-- Statements that end at their own closer end in front of it. -/
theorem atOwnCloser_iterateUpTo (n : Nat) (s : State) :
    ((iterateUpTo (fun _ => .endOfInput) (statementsPass statement) n ()).run s).2.AtOwnCloser
      ((iterateUpTo (fun _ => .endOfInput) (statementsPass statement) n ()).run s).1 := by
  induction n generalizing s with
  | zero => exact nofun
  | succ n ih =>
    have hpass := leavesCloser_statementsPass statement s
    unfold iterateUpTo
    rw [run_bind]
    cases hresult : ((statementsPass statement ()).run s).1 with
    | again u => exact ih _
    | done stop => exact hpass stop hresult

omit [Orders statement] in
variable (statement) in
/-- The body of a block that ends at its own closer ends in front of it. -/
theorem atOwnCloser_blockBody (block : Block) (s : State) :
    ((blockBody statement block).run s).2.AtOwnCloser ((blockBody statement block).run s).1 := by
  have hstatements (s : State) :
      ((statements statement).run s).2.AtOwnCloser ((statements statement).run s).1 :=
    atOwnCloser_iterateUpTo _ s
  exact hstatements _

omit [Orders statement] in
/-- `Else` and `ElseIf` are closers. -/
theorem isSome_of_atElse {s : State} (h : (atElse.run s).1 = true) :
    (Closer.ofKinds? (s.stream.peekSignificant 0).kind (s.stream.peekSignificant 1).kind).isSome =
      true := by
  simp only [atElse, run_look, Bool.or_eq_true, beq_iff_eq] at h
  rcases h with h | h <;> rw [h] <;> rfl

variable (statement) in
/-- An `Else` behind the `Else` body stands at the cursor where it is reported. -/
theorem ordered_elseBodyPass {stop : Stop} {s : State} (hstop : s.AtOwnCloser stop)
    (hs : s.Ordered) :
    ((elseBodyPass statement stop).run s).2.Ordered ∧
      ∀ stop', ((elseBodyPass statement stop).run s).1 = .again stop' →
        ((elseBodyPass statement stop).run s).2.AtOwnCloser stop' := by
  have helse : (atElse.run s).2 = s := rfl
  unfold elseBodyPass
  rw [run_bind, helse]
  split
  next hmore =>
    have hsolid := hstop (beq_iff_eq.mp (Bool.and_eq_true_iff.mp hmore).1)
    have hstray : OrdersAtCloser (strayCloser { block := .if_, isSegment := true }) := inferInstance
    have hbody : Orders (blockBody statement .if_) := inferInstance
    have hordered :=
      hstray.ordered s ⟨hsolid, isSome_of_atElse (Bool.and_eq_true_iff.mp hmore).2⟩ hs
    rw [run_bind]
    generalize ((strayCloser { block := .if_, isSegment := true }).run s).2 = t at hordered
    refine ⟨hbody.ordered t hordered, fun stop' hagain => ?_⟩
    obtain rfl := Pass.again.inj hagain
    exact atOwnCloser_blockBody statement .if_ t
  next => exact ⟨hs, nofun⟩

/-- The parts of an `If` behind its first body keep the failures in order. -/
theorem ordered_iterateUpTo_elseBodyPass (n : Nat) {stop : Stop} {s : State}
    (hstop : s.AtOwnCloser stop) (hs : s.Ordered) :
    ((iterateUpTo id (elseBodyPass statement) n stop).run s).2.Ordered := by
  induction n generalizing stop s with
  | zero => exact hs
  | succ n ih =>
    obtain ⟨hordered, hcloser⟩ := ordered_elseBodyPass statement hstop hs
    unfold iterateUpTo
    rw [run_bind]
    cases hresult : ((elseBodyPass statement stop).run s).1 with
    | again stop' => exact ih (hcloser stop' hresult) hordered
    | done stop' => exact hordered

/-- What follows the `Else` body. -/
instance : Orders (blockBody statement .if_ >>= iterate id (elseBodyPass statement)) where
  ordered s hs := by
    have hbody : Orders (blockBody statement .if_) := inferInstance
    have hordered := hbody.ordered s hs
    have hcloser := atOwnCloser_blockBody statement .if_ s
    rw [run_bind]
    unfold iterate
    rw [run_look_bind]
    exact ordered_iterateUpTo_elseBodyPass _ hcloser hordered

instance : Orders (elseClause statement) := by unfold elseClause; infer_instance

instance : Orders (blockIf statement) := by unfold blockIf; infer_instance

instance : Orders (ifStatement statement) := by unfold ifStatement; infer_instance

instance : Orders forEachHeader := by unfold forEachHeader; infer_instance

instance : Orders forHeader := by unfold forHeader; infer_instance

instance : Orders openLoops := by unfold openLoops; infer_instance

instance (closed : Nat) : Orders (nextVariablePass closed) := by
  unfold nextVariablePass
  infer_instance

instance : Orders nextClause := by unfold nextClause; infer_instance

instance : Orders (forStatement statement) := by unfold forStatement; infer_instance

instance : Orders atLoopCondition := by unfold atLoopCondition; infer_instance

instance : Orders optionalLoopCondition := by unfold optionalLoopCondition; infer_instance

instance : Orders (doStatement statement) := by unfold doStatement; infer_instance

instance : Orders (whileStatement statement) := by unfold whileStatement; infer_instance

instance : Orders (withStatement statement) := by unfold withStatement; infer_instance

instance : OrdersHere comparison := by unfold comparison; infer_instance

instance : OrdersHere comparisonTest := by
  unfold comparisonTest
  infer_instance

instance : Orders valueTest := by unfold valueTest; infer_instance

instance : Orders caseTest := by unfold caseTest; infer_instance

instance : Orders atCaseElse := by unfold atCaseElse; infer_instance

instance : Orders (caseClause statement) := by unfold caseClause; infer_instance

instance : OrdersHere strayCaseLine := by unfold strayCaseLine; infer_instance

instance (stop : Stop) : Orders (afterClause stop) := by unfold afterClause; infer_instance

instance (closer : Closer) : OrdersAtCloser (selectCloserPass statement closer) := by
  unfold selectCloserPass
  infer_instance

instance : OrdersHere (nextCloser? >>= closerOrLinePass statement) :=
  .of_nextCloser? (by unfold closerOrLinePass; infer_instance)
    (by unfold closerOrLinePass; infer_instance)

instance (u : Unit) : Orders (selectPass statement u) := by
  refine ⟨fun s hs => ?_⟩
  unfold selectPass current
  rw [run_look_bind]
  exact hs.of_line (fun h => (Bool.or_eq_false_iff.mp h).1) fun hsolid =>
    OrdersHere.ordered s hsolid hs

instance : Orders (selectStatement statement) := by unfold selectStatement; infer_instance

instance : Orders accessor := by unfold accessor; infer_instance

instance : Orders signature := by unfold signature; infer_instance

instance : Orders (procedure statement) := by unfold procedure; infer_instance

instance : Orders (modifiedStatement statement) := by
  unfold modifiedStatement
  refine .bind inferInstance fun _ => ?_
  split <;> infer_instance

/-- A statement that a keyword opens reports in order. -/
theorem Orders.of_keywordStatement? {keyword : Keyword} {p : Production Unit}
    (h : keywordStatement? statement keyword = some p) : Orders p := by
  unfold keywordStatement? at h
  split at h
  all_goals first
    | obtain rfl := Option.some.inj h
      infer_instance
    | obtain ⟨k, -, rfl⟩ := Option.map_eq_some_iff.mp h
      infer_instance

/-- A statement that is opened by its first word keeps the failures in order. -/
theorem Orders.of_openedStatement? {s : TokenStream} {p : Production Unit}
    (h : openedStatement? statement s = some p) : Orders p := by
  obtain ⟨_, -, -, h⟩ := exists_keyword_of_openedStatement? h
  exact .of_keywordStatement? h

omit [Orders statement] in
/-- What is read in place of a statement keeps the failures in order. -/
theorem Orders.of_replacement? {s : TokenStream} {p : Production Unit}
    (h : replacement? s = some p) :
    Orders p := by
  unfold replacement? at h
  split_ifs at h <;> cases h <;> infer_instance

instance : OrdersHere plainStatement := by
  unfold plainStatement
  refine .of_still fun s => ?_
  dsimp only
  cases h : replacement? s.stream with
  | some production =>
    have hproduction := Orders.of_replacement? h
    dsimp only
    infer_instance
  | none => dsimp only; infer_instance

instance : OrdersHere (statementAtCursor statement) := by
  unfold statementAtCursor
  refine .of_still fun isLabel => ?_
  split
  · infer_instance
  · refine ⟨fun s hsolid hs => ?_⟩
    rw [run_look_bind]
    cases h : openedStatement? statement s.stream with
    | some production => exact (Orders.of_openedStatement? h).ordered s hs
    | none =>
      have hplain : OrdersHere plainStatement := inferInstance
      exact hplain.ordered s hsolid hs

instance : Orders (statementWith statement) := by
  unfold statementWith
  infer_instance

end

instance (depth : Nat) : Orders (statementUpTo depth) := by
  induction depth with
  | zero => unfold statementUpTo; infer_instance
  | succ depth ih => unfold statementUpTo; infer_instance

end Grammar

end LosslessBasic
