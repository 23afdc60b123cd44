import LosslessBasic.Proofs.Grammar.Termination

/-!
# What stays on its line

The parts of a statement, from expressions to declarations, move no line break, and no comment and
no colon either, whatever they meet: they look at what comes next before they move it. `MovesNo B p`
says of a production that it moves no token of the kinds `B`. A part that relies on its caller to
have looked is an instance of `MovesNoFromWord` or `MovesNoFromNext`, with what the caller has seen.
`KeepsLine` is the case of line breaks alone.

The lines end where `finishStatement` and the loops over lines move a line break themselves.
-/

namespace LosslessBasic

/-- A condition that is settled by evaluation. -/
class IsTrue (b : Bool) : Prop where
  eq_true : b = true

instance : IsTrue true := ⟨rfl⟩

instance : IsTrue (!false) := ⟨rfl⟩

instance {a b : Bool} [ha : IsTrue a] [hb : IsTrue b] : IsTrue (a && b) :=
  ⟨Bool.and_eq_true_iff.mpr ⟨ha.eq_true, hb.eq_true⟩⟩

instance {a b : Bool} [ha : IsTrue a] : IsTrue (a || b) := ⟨by rw [ha.eq_true, Bool.true_or]⟩

instance {a b : Bool} [hb : IsTrue b] : IsTrue (a || b) := ⟨by rw [hb.eq_true, Bool.or_true]⟩

/-- Whether a lexeme is no colon. -/
@[reducible]
def Lexeme.isNoColon : Lexeme → Bool
  | .colon => false
  | _ => true

namespace Kind

/-- Whether a kind stands between statements or ends them: a line break, a comment or a colon. -/
def isBoundary : Kind → Bool
  | .trivia .newline | .trivia .endOfLineComment | .trivia .remComment | .lexeme .colon => true
  | _ => false

/-- The kinds of which this is so. -/
def boundaries : List Kind :=
  [.trivia .newline, .trivia .endOfLineComment, .trivia .remComment, .lexeme .colon]

/-- Every boundary is one of those that are listed. -/
theorem mem_boundaries {k : Kind} (h : k.isBoundary = true) : k ∈ boundaries := by
  unfold isBoundary at h
  split at h
  all_goals first | decide | cases h

/-- The kinds of what stands between statements or ends them. -/
def IsBoundary (k : Kind) : Prop := k.isBoundary = true

/-- The kind of line breaks. -/
def IsNewline (k : Kind) : Prop := k = .trivia .newline

end Kind

namespace Grammar

set_option synthInstance.maxSize 65536

/-- Kinds of tokens that stand between statements or end them, so that no part of a statement moves
any. -/
class Bar (B : Kind → Prop) : Prop where
  isBoundary {k : Kind} : B k → k.isBoundary = true

instance : Bar Kind.IsBoundary := ⟨id⟩

instance : Bar Kind.IsNewline := ⟨fun h => by rw [h]; rfl⟩

/-- What no boundary satisfies shows that a kind is none. -/
theorem Bar.not {B : Kind → Prop} [hbar : Bar B] {c : Kind → Prop}
    (hc : ∀ k ∈ Kind.boundaries, ¬ c k)
    {k : Kind} (hk : c k) : ¬ B k := fun h => hc k (Kind.mem_boundaries (hbar.isBoundary h)) hk

/-- A kind that is none of those that are not moved. -/
class Clear (B : Kind → Prop) (k : Kind) : Prop where
  not : ¬ B k

instance {B : Kind → Prop} [Bar B] (k : Keyword) : Clear B (.keyword k) :=
  ⟨Bar.not (c := (· = .keyword k)) (by simp [Kind.boundaries]) rfl⟩

instance {B : Kind → Prop} [Bar B] (l : Lexeme) [hl : IsTrue l.isNoColon] :
    Clear B (.lexeme l) := by
  have hne : l ≠ .colon := by
    rintro rfl
    exact absurd hl.eq_true Bool.false_ne_true
  exact ⟨Bar.not (c := (· = .lexeme l)) (by simpa [Kind.boundaries] using hne.symm) rfl⟩

instance (l : Lexeme) : Clear Kind.IsNewline (.lexeme l) := ⟨nofun⟩

variable {B : Kind → Prop}

variable (B) in
/-- Whether a production moves no token of the kinds `B` from a state on. -/
def State.MovesNo {α : Type} (s : State) (p : Production α) : Prop :=
  ∃ moved, s.stream.rest = moved ++ (p.run s).2.stream.rest ∧ ∀ t ∈ moved, ¬ B t.kind

/-- A production that moves no token of the kinds `B`. -/
class MovesNo (B : Kind → Prop) {α : Type} (p : Production α) : Prop where
  movesNo (s : State) : s.MovesNo B p

/-- A production that moves no token of the kinds `B` when none is at the cursor. -/
class MovesNoFromWord (B : Kind → Prop) {α : Type} (p : Production α) : Prop where
  movesNo (s : State) : ¬ B s.stream.current.kind → s.MovesNo B p

/-- A production that moves no token of the kinds `B` when none comes next. -/
class MovesNoFromNext (B : Kind → Prop) {α : Type} (p : Production α) : Prop where
  movesNo (s : State) : ¬ B (s.stream.peekSignificant 0).kind → s.MovesNo B p

/-- A production that moves no token. -/
class Still {α : Type} (p : Production α) : Prop where
  stream_eq (s : State) : (p.run s).2.stream = s.stream

/-- A test that looks ahead only and does not hold in front of a token of the kinds `B`. -/
class TestsWord (B : Kind → Prop) (test : Production Bool) : Prop where
  run_eq (s : State) : test.run s = ((test.run s).1, s)
  not_bar {s : State} : (test.run s).1 = true → ¬ B s.stream.current.kind

/-- A test that looks ahead only and does not hold when a token of the kinds `B` comes next. -/
class TestsNext (B : Kind → Prop) (test : Production Bool) : Prop where
  run_eq (s : State) : test.run s = ((test.run s).1, s)
  not_bar {s : State} : (test.run s).1 = true → ¬ B (s.stream.peekSignificant 0).kind

/-! ## Line breaks -/

section

variable {α : Type}

/-- Whether a production moves no line break from a state on. -/
abbrev State.KeepsLine (s : State) (p : Production α) : Prop := s.MovesNo Kind.IsNewline p

/-- A production that moves no line break. -/
abbrev KeepsLine (p : Production α) : Prop := MovesNo Kind.IsNewline p

/-- A production that moves no line break when none is at the cursor. -/
abbrev KeepsLineFromWord (p : Production α) : Prop := MovesNoFromWord Kind.IsNewline p

/-- A production that moves no line break when none comes next. -/
abbrev KeepsLineFromNext (p : Production α) : Prop := MovesNoFromNext Kind.IsNewline p

variable {p : Production α}

/-- A production that keeps its line does so from here. -/
theorem KeepsLine.keepsLine [h : KeepsLine p] (s : State) : s.KeepsLine p := h.movesNo s

/-- A production that keeps its line from a word on does so from here, unless a line break stands
here. -/
theorem KeepsLineFromWord.keepsLine [h : KeepsLineFromWord p] (s : State)
    (hword : s.stream.current.kind ≠ .trivia .newline) : s.KeepsLine p := h.movesNo s hword

/-- A production that keeps its line from the next word on does so from here, unless the line ends
first. -/
theorem KeepsLineFromNext.keepsLine [h : KeepsLineFromNext p] (s : State)
    (hnext : (s.stream.peekSignificant 0).kind ≠ .trivia .newline) : s.KeepsLine p :=
      h.movesNo s hnext

end

/-! ## Moves -/

/-- Where the stream stays as it is no token is moved. -/
theorem State.MovesNo.of_stream_eq {α : Type} {p : Production α} {s : State}
    (h : (p.run s).2.stream = s.stream) : s.MovesNo B p :=
  ⟨[], by simp [h], by simp⟩

/-- Two productions that move none of such kinds do so in a row. -/
theorem State.MovesNo.bind {α β : Type} {p : Production α} {f : α → Production β} {s : State}
    (hp : s.MovesNo B p) (hf : (p.run s).2.MovesNo B (f (p.run s).1)) : s.MovesNo B (p >>= f) := by
  obtain ⟨moved, hrest, hmoved⟩ := hp
  obtain ⟨moved', hrest', hmoved'⟩ := hf
  refine ⟨moved ++ moved', ?_, ?_⟩
  · rw [run_bind, List.append_assoc, ← hrest', ← hrest]
  · intro t ht
    exact (List.mem_append.mp ht).elim (hmoved t) (hmoved' t)

/-- Looking at the stream moves nothing. -/
theorem State.MovesNo.of_look {α β : Type} {f : TokenStream → α} {g : α → Production β} {s : State}
    (h : s.MovesNo B (g (f s.stream))) : s.MovesNo B (look f >>= g) := h

/-- No such token is at the cursor, or only blanks are in front of what comes next. -/
theorem not_bar_of_next [Bar B] {s : TokenStream} (h : ¬ B (s.peekSignificant 0).kind) :
    ¬ B s.current.kind := by
  intro hcurrent
  have hsolid : s.current.kind.isInlineTrivia = false := by
    rw [← Bool.not_eq_true]
    exact fun hblank => Bar.not (c := (·.isInlineTrivia = true)) (by decide) hblank hcurrent
  rw [TokenStream.peekSignificant_zero hsolid] at h
  exact h hcurrent

section

variable {α β : Type} {p q : Production α}

instance [h : MovesNo B p] : MovesNoFromWord B p where
  movesNo s _ := h.movesNo s

instance [Bar B] [h : MovesNoFromWord B p] : MovesNoFromNext B p where
  movesNo s hnext := h.movesNo s (not_bar_of_next hnext)

instance (a : α) : Still (pure a : Production α) := ⟨fun _ => rfl⟩

instance : Still (get : Production State) := ⟨fun _ => rfl⟩

instance (f : TokenStream → α) : Still (look f) := ⟨fun _ => rfl⟩

instance : Still current := ⟨fun _ => rfl⟩

instance : Still currentKind := ⟨fun _ => rfl⟩

instance : Still next := ⟨fun _ => rfl⟩

instance : Still nextKind := ⟨fun _ => rfl⟩

instance : Still checkpoint := ⟨fun _ => rfl⟩

instance (activity : Activity) (t : Token) : Still (note activity t) := ⟨fun _ => rfl⟩

instance (recovering : Bool) : Still (setRecovering recovering) := ⟨fun _ => rfl⟩

instance (separator : Separator) : Still (setSeparator separator) := ⟨fun _ => rfl⟩

instance (loops : Nat) : Still (setPendingNext loops) := ⟨fun _ => rfl⟩

instance (access header : Tree) : Still (addTarget access header) := ⟨fun _ => rfl⟩

instance (block : Block) : Still (blockIsOpen block) := ⟨fun _ => rfl⟩

instance : Still insideProcedure := ⟨fun _ => rfl⟩

instance : Still atProcedureHeader := ⟨fun _ => rfl⟩

instance (problem : Problem) (t : Token) : Still (report problem t) := ⟨fun _ => rfl⟩

instance (problem : Problem) (t : Token) : Still (fail problem t) where
  stream_eq s := by
    unfold fail
    rw [run_bind, run_get]
    split <;> rfl

instance {test : Production Bool} [h : TestsWord Kind.IsBoundary test] : Still test where
  stream_eq s := by rw [h.run_eq]

instance {test : Production Bool} [h : TestsNext Kind.IsBoundary test] : Still test where
  stream_eq s := by rw [h.run_eq]

instance [h : Still p] : MovesNo B p where
  movesNo s := .of_stream_eq (h.stream_eq s)

instance : MovesNoFromWord B shift where
  movesNo s hword := by
    by_cases hend : s.AtEnd
    · exact .of_stream_eq (by rw [run_shift_of_atEnd hend])
    · refine ⟨[s.stream.current], ?_, by simpa using hword⟩
      rw [run_shift hend]
      exact TokenStream.rest_advance (TokenStream.ahead_ne_nil hend)

instance {f : α → Production β} [hp : MovesNo B p] [hf : ∀ a, MovesNo B (f a)] :
    MovesNo B (p >>= f) where
  movesNo s := (hp.movesNo s).bind ((hf _).movesNo _)

instance {f : α → Production β} [hp : MovesNoFromWord B p] [hf : ∀ a, MovesNo B (f a)] :
    MovesNoFromWord B (p >>= f) where
  movesNo s hword := (hp.movesNo s hword).bind ((hf _).movesNo _)

instance {f : α → Production β} [hp : MovesNoFromNext B p] [hf : ∀ a, MovesNo B (f a)] :
    MovesNoFromNext B (p >>= f) where
  movesNo s hnext := (hp.movesNo s hnext).bind ((hf _).movesNo _)

instance {f : α → Production β} [hp : Still p] [hf : ∀ a, MovesNoFromWord B (f a)] :
    MovesNoFromWord B (p >>= f) where
  movesNo s hword :=
    (MovesNo.movesNo s).bind ((hf _).movesNo _ (by rwa [hp.stream_eq]))

instance {f : α → Production β} [hp : Still p] [hf : ∀ a, MovesNoFromNext B (f a)] :
    MovesNoFromNext B (p >>= f) where
  movesNo s hnext :=
    (MovesNo.movesNo s).bind ((hf _).movesNo _ (by rwa [hp.stream_eq]))

instance {k : NodeKind} [h : MovesNo B p] : MovesNo B (within k p) where
  movesNo s := h.movesNo (s.opening k)

instance {k : NodeKind} [h : MovesNoFromWord B p] : MovesNoFromWord B (within k p) where
  movesNo s := h.movesNo (s.opening k)

instance {k : NodeKind} {p : Production Unit} [h : MovesNo B p] : MovesNo B (composite k p) where
  movesNo s := h.movesNo (s.opening k)

instance {k : NodeKind} {p : Production Unit} [h : MovesNoFromWord B p] :
    MovesNoFromWord B (composite k p) where
  movesNo s := h.movesNo (s.opening k)

instance {cp : Checkpoint} {k : NodeKind} {p : Production Unit} [h : MovesNo B p] :
    MovesNo B (compositeFrom cp k p) where
  movesNo s := h.movesNo (s.openingAt cp k)

instance {cp : Checkpoint} {k : NodeKind} {p : Production Unit} [h : MovesNoFromWord B p] :
    MovesNoFromWord B (compositeFrom cp k p) where
  movesNo s := h.movesNo (s.openingAt cp k)

instance {cp : Checkpoint} {k : NodeKind} {p : Production Unit} [h : MovesNoFromNext B p] :
    MovesNoFromNext B (compositeFrom cp k p) where
  movesNo s := h.movesNo (s.openingAt cp k)

instance {c : Prop} [Decidable c] [MovesNo B p] [MovesNo B q] : MovesNo B (if c then p else q) := by
  split <;> infer_instance

instance {c : Prop} [Decidable c] [MovesNoFromWord B p] [MovesNoFromWord B q] :
    MovesNoFromWord B (if c then p else q) := by
  split <;> infer_instance

instance {test : Production Bool} [ht : TestsWord B test] [hp : MovesNoFromWord B p]
    [hq : MovesNo B q] : MovesNo B (test >>= fun b => if b then p else q) where
  movesNo s := by
    refine .bind (.of_stream_eq (by rw [ht.run_eq])) ?_
    rw [ht.run_eq]
    cases htest : (test.run s).1 with
    | true => exact hp.movesNo s (ht.not_bar htest)
    | false => exact hq.movesNo s

instance {test : Production Bool} [ht : TestsNext B test] [hp : MovesNoFromNext B p]
    [hq : MovesNo B q] : MovesNo B (test >>= fun b => if b then p else q) where
  movesNo s := by
    refine .bind (.of_stream_eq (by rw [ht.run_eq])) ?_
    rw [ht.run_eq]
    cases htest : (test.run s).1 with
    | true => exact hp.movesNo s (ht.not_bar htest)
    | false => exact hq.movesNo s

section

variable [Bar B]

/-- What the kind at the cursor says of it. -/
theorem MovesNo.of_current {c : Kind → Prop} [DecidablePred c] {p q : Token → Production β}
    (hc : ∀ k ∈ Kind.boundaries, ¬ c k) [hp : ∀ t, MovesNoFromWord B (p t)]
    [hq : ∀ t, MovesNo B (q t)] :
    MovesNo B (current >>= fun t => if c t.kind then p t else q t) where
  movesNo s := by
    refine (MovesNo.movesNo (p := current) s).bind ?_
    change s.MovesNo B (if c s.stream.current.kind then _ else _)
    split
    next h => exact (hp _).movesNo s (Bar.not hc h)
    next => exact (hq _).movesNo s

/-- What the kind at the cursor says of it. -/
theorem MovesNo.of_currentKind {c : Kind → Prop} [DecidablePred c] {p q : Kind → Production β}
    (hc : ∀ k ∈ Kind.boundaries, ¬ c k) [hp : ∀ k, MovesNoFromWord B (p k)]
    [hq : ∀ k, MovesNo B (q k)] :
    MovesNo B (currentKind >>= fun k => if c k then p k else q k) :=
  .of_current (p := fun t => p t.kind) (q := fun t => q t.kind) hc

/-- What the next significant kind says of it. -/
theorem MovesNo.of_nextKind {c : Kind → Prop} [DecidablePred c] {p q : Kind → Production β}
    (hc : ∀ k ∈ Kind.boundaries, ¬ c k) [hp : ∀ k, MovesNoFromNext B (p k)]
    [hq : ∀ k, MovesNo B (q k)] :
    MovesNo B (nextKind >>= fun k => if c k then p k else q k) where
  movesNo s := by
    refine (MovesNo.movesNo (p := nextKind) s).bind ?_
    change s.MovesNo B (if c (s.stream.peekSignificant 0).kind then _ else _)
    split
    next h => exact (hp _).movesNo s (Bar.not hc h)
    next => exact (hq _).movesNo s

end

end

/-! ## Loops -/

section

variable {α β : Type}

instance {exhausted : α → β} {pass : α → Production (Pass α β)} [h : ∀ a, MovesNo B (pass a)]
    (n : Nat) (a : α) : MovesNo B (iterateUpTo exhausted pass n a) := by
  induction n generalizing a with
  | zero => unfold iterateUpTo; infer_instance
  | succ n ih =>
    refine ⟨fun s => ((h a).movesNo s).bind ?_⟩
    cases ((pass a).run s).1 with
    | again a' => exact (ih a').movesNo _
    | done b => exact .of_stream_eq rfl

instance {exhausted : α → β} {pass : α → Production (Pass α β)} [∀ a, MovesNo B (pass a)] (a : α) :
    MovesNo B (iterate exhausted pass a) := by
  unfold iterate
  infer_instance

/-- A repetition keeps the line when its body does where the test holds. -/
theorem MovesNo.repeatWhile {test : Production Bool} {body : Production Unit}
    (hrun : ∀ s, test.run s = ((test.run s).1, s))
    (hbody : ∀ s, (test.run s).1 = true → s.MovesNo B body) :
    MovesNo B (repeatWhile test body) := by
  have hupTo (n : Nat) : MovesNo B (repeatWhileUpTo test body n) := by
    induction n with
    | zero => unfold repeatWhileUpTo; infer_instance
    | succ n ih =>
      refine ⟨fun s => .bind (.of_stream_eq (by rw [hrun])) ?_⟩
      rw [hrun]
      cases htest : (test.run s).1 with
      | true => exact (hbody s htest).bind (ih.movesNo _)
      | false => exact .of_stream_eq rfl
  unfold Grammar.repeatWhile
  infer_instance

instance {test : Production Bool} {body : Production Unit} [ht : TestsWord B test]
    [hbody : MovesNoFromWord B body] : MovesNo B (repeatWhile test body) :=
  .repeatWhile ht.run_eq fun s h => hbody.movesNo s (ht.not_bar h)

instance {test : Production Bool} {body : Production Unit} [ht : TestsNext B test]
    [hbody : MovesNoFromNext B body] : MovesNo B (repeatWhile test body) :=
  .repeatWhile ht.run_eq fun s h => hbody.movesNo s (ht.not_bar h)

end

/-! ## Tests -/

/-- A test of the kind at the cursor that no token of the kinds passes. -/
theorem TestsWord.of_current {f : Kind → Bool} (h : ∀ k, f k = true → ¬ B k) :
    TestsWord B (look fun s => f s.current.kind) where
  run_eq _ := rfl
  not_bar htest := h _ htest

/-- A test of the next significant kind that no token of the kinds passes. -/
theorem TestsNext.of_next {f : Kind → Bool} (h : ∀ k, f k = true → ¬ B k) :
    TestsNext B (look fun s => f (s.peekSignificant 0).kind) where
  run_eq _ := rfl
  not_bar htest := h _ htest

instance (k : Kind) [hk : Clear B k] : TestsWord B (atCurrent k) :=
  .of_current (f := (· == k)) fun _ h => by rw [beq_iff_eq.mp h]; exact hk.not

instance (k : Kind) [hk : Clear B k] : TestsNext B (atNext k) :=
  .of_next (f := (· == k)) fun _ h => by rw [beq_iff_eq.mp h]; exact hk.not

section

variable [Bar B]

/-- What no boundary passes is no test for one. -/
theorem Bar.not_of_test {f : Kind → Bool} (hf : ∀ k ∈ Kind.boundaries, f k = false) (k : Kind)
    (hk : f k = true) : ¬ B k :=
  Bar.not (c := (f · = true)) (by simpa using hf) hk

instance : TestsWord B (look (·.current.kind.isInlineTrivia)) :=
  .of_current (f := Kind.isInlineTrivia) (Bar.not_of_test (by decide))

instance : TestsNext B (do return Lookahead.isModifier (← nextKind)) :=
  .of_next (f := Lookahead.isModifier) (Bar.not_of_test (by decide))

instance : TestsNext B atArgumentSign :=
  .of_next (f := fun k => k == .lexeme .comma || k == .lexeme .semicolon)
    (Bar.not_of_test (by decide))

instance : TestsNext B atElse :=
  .of_next (f := fun k => k == .keyword .else_ || k == .keyword .elseIf)
    (Bar.not_of_test (by decide))

instance : TestsWord B atMemberAccess where
  run_eq _ := rfl
  not_bar {s} h := by
    change (Lookahead.isAccessSign s.stream.current.kind && _) = true at h
    exact Bar.not (c := (Lookahead.isAccessSign · = true)) (by decide) (Bool.and_eq_true_iff.mp h).1

instance : TestsWord B atNamedArgument where
  run_eq _ := rfl
  not_bar {s} h := by
    change (s.stream.current.kind.isNameLike && _) = true at h
    exact Bar.not (c := (·.isNameLike = true)) (by decide) (Bool.and_eq_true_iff.mp h).1

instance (spacedCall : Bool) : TestsNext B (atArguments spacedCall) where
  run_eq _ := rfl
  not_bar {s} h := by
    have hparen : Clear B (.lexeme .leftParen) := inferInstance
    simp only [atArguments, run_look, Bool.or_eq_true, Bool.and_eq_true, beq_iff_eq] at h
    rcases h with hkind | ⟨-, hkind⟩
    · rw [TokenStream.peekSignificant_zero (by rw [hkind]; rfl), hkind]
      exact hparen.not
    · rw [hkind]
      exact hparen.not

instance : TestsNext B withinStatement where
  run_eq _ := rfl
  not_bar {s} h := by
    change (!endsStatement (s.stream.peekSignificant 0).kind s.lineMode) = true at h
    refine fun hbar => ?_
    have hmem := Kind.mem_boundaries (Bar.isBoundary hbar)
    have hends : ∀ k ∈ Kind.boundaries, ∀ n, endsStatement k n = true := by
      simp [Kind.boundaries, endsStatement]
    rw [hends _ hmem] at h
    cases h

end

/-! ## Blanks -/

/-- A blank is not the end marker. -/
theorem not_atEnd_of_blank {s : State} (h : s.stream.current.kind.isInlineTrivia = true) :
    ¬ s.AtEnd := Kind.ne_endOfFile_of (f := Kind.isInlineTrivia) h rfl

/-- A blank at the cursor is one of those that are skipped. -/
theorem run_skipBlanks_of_blank {s : State} (h : s.stream.current.kind.isInlineTrivia = true) :
    skipBlanks.run s = skipBlanks.run s.shifted := by
  unfold skipBlanks
  rw [run_repeatWhile_of_true (by rw [run_look, h]), run_shift (not_atEnd_of_blank h)]

/-- What holds where no blank stands, and in front of a blank if it holds behind it, holds of what
skipping blanks leads to. -/
theorem skipBlanks_induction {R : State → State → Prop}
    (hsolid : ∀ s, s.stream.current.kind.isInlineTrivia = false → R s s)
    (hblank : ∀ s t, s.stream.current.kind.isInlineTrivia = true → R s.shifted t → R s t)
    (s : State) : R s (skipBlanks.run s).2 := by
  generalize hn : s.stream.remaining = n
  induction n using Nat.strongRecOn generalizing s with
  | ind n ih =>
    cases hcurrent : s.stream.current.kind.isInlineTrivia with
    | true =>
      have hlt := TokenStream.remaining_advance
        (TokenStream.ahead_ne_nil (not_atEnd_of_blank hcurrent))
      rw [run_skipBlanks_of_blank hcurrent]
      exact hblank s _ hcurrent (ih s.stream.advance.remaining (by omega) s.shifted rfl)
    | false =>
      rw [run_skipBlanks_of_significant hcurrent]
      exact hsolid s hcurrent

/-- Skipping blanks leads to what comes next. -/
theorem current_skipBlanks (s : State) :
    (skipBlanks.run s).2.stream.current = s.stream.peekSignificant 0 :=
  skipBlanks_induction (R := fun s t => t.stream.current = s.stream.peekSignificant 0)
    (fun _ hsolid => (TokenStream.peekSignificant_zero hsolid).symm)
    (fun _ _ hblank h => h.trans (TokenStream.peekSignificant_advance hblank 0)) s

/-- Skipping blanks changes nothing of what comes next. -/
theorem peekSignificant_skipBlanks (s : State) (n : Nat) :
    (skipBlanks.run s).2.stream.peekSignificant n = s.stream.peekSignificant n :=
  skipBlanks_induction (R := fun s t => t.stream.peekSignificant n = s.stream.peekSignificant n)
    (fun _ _ => rfl)
    (fun _ _ hblank h => h.trans (TokenStream.peekSignificant_advance hblank n)) s

section

variable [Bar B]

instance : MovesNo B skipBlanks := by unfold skipBlanks; infer_instance

instance {α : Type} {f : Unit → Production α} [h : ∀ u, MovesNoFromWord B (f u)] :
    MovesNoFromNext B (skipBlanks >>= f) where
  movesNo s hnext := by
    refine .bind (MovesNo.movesNo s) ((h ()).movesNo _ ?_)
    rwa [current_skipBlanks]

instance : MovesNoFromNext B shiftNext := by unfold shiftNext; infer_instance

/-! ## Tokens, contexts and failures -/

instance (k : Kind) : MovesNo B (atNext k) := by unfold atNext; infer_instance

instance (k : Kind) [Clear B k] : MovesNo B (accept k) := by unfold accept; infer_instance

instance (wanted : Wanted) : MovesNo B (failExpected wanted) := by
  unfold failExpected
  infer_instance

instance (k : Kind) [Clear B k] : MovesNo B (expect k) := by unfold expect; infer_instance

instance : MovesNo B atStatementEnd := by unfold atStatementEnd; infer_instance

instance : MovesNo B withinStatement := by unfold withinStatement; infer_instance

instance : MovesNo B shiftRest := by unfold shiftRest; infer_instance

instance : MovesNo B recover := by unfold recover; infer_instance

instance (item : Production Unit) [MovesNo B item] : MovesNo B (commaList item) := by
  unfold commaList
  infer_instance

/-! ## Expressions -/

instance : MovesNoFromWord B nameExpression := by unfold nameExpression; infer_instance

instance (wanted : Wanted) : MovesNo B (expectName wanted) := by
  unfold expectName
  exact .of_nextKind (c := (·.isNameLike = true)) (by decide)

instance (wanted : Wanted) : MovesNo B (hasName wanted) := by unfold hasName; infer_instance

instance : MovesNo B memberName := by
  unfold memberName
  exact .of_current (c := fun k => k.isMemberName = true) (by decide)

instance (sign : Token) (access : Option Tree) : MovesNo B (referToHeader sign access) where
  movesNo s := by
    unfold referToHeader
    refine (MovesNo.movesNo (p := get) s).bind ?_
    split <;> exact MovesNo.movesNo _

instance : MovesNoFromWord B leadingAccess := by
  unfold leadingAccess
  infer_instance

/-- Behind a period, the name that goes on a qualified name is moved with it. -/
theorem movesNo_qualifier {s : State} (h : (atQualifier.run s).1 = true) :
    s.MovesNo B (do shift; shift) := by
  simp only [atQualifier, run_look, Bool.and_eq_true, beq_iff_eq] at h
  have hend : ¬ s.AtEnd := by simp [State.AtEnd, h.1]
  have hperiod : Clear B (.lexeme .period) := inferInstance
  refine .bind (MovesNoFromWord.movesNo s (by rw [h.1]; exact hperiod.not)) ?_
  rw [run_shift hend]
  have hname := h.2
  rw [← TokenStream.current_advance (TokenStream.ahead_ne_nil hend)] at hname
  exact MovesNoFromWord.movesNo s.shifted (Bar.not (c := (·.isMemberName = true)) (by decide) hname)

instance : MovesNo B typeName := by
  have hqualifiers : MovesNo B (repeatWhile atQualifier (do shift; shift)) :=
    .repeatWhile (fun _ => rfl) fun _ => movesNo_qualifier
  have hname : MovesNo B (do
      if (← currentKind).isNameLike then
        shift
        repeatWhile atQualifier (do shift; shift)
      else
        failExpected .typeName) := .of_currentKind (c := (·.isNameLike = true)) (by decide)
  unfold typeName
  infer_instance

/-- The name of a parameter is moved with the sign behind it. -/
instance : MovesNo B optionalParameterName where
  movesNo s := by
    refine (MovesNo.movesNo (p := atNamedArgument) s).bind ?_
    change s.MovesNo B (if s.stream.current.kind.isNameLike && _ then _ else _)
    split
    next h =>
      simp only [Bool.and_eq_true, beq_iff_eq] at h
      have hblank : s.stream.current.kind.isInlineTrivia = false := by
        revert h
        cases s.stream.current.kind <;> simp [Kind.isNameLike, Kind.isInlineTrivia]
      have hend : ¬ s.AtEnd := fun hend => by
        rw [hend] at h
        cases h.1
      have hword : ¬ B s.stream.current.kind := Bar.not (c := (·.isNameLike = true)) (by decide) h.1
      refine .bind (MovesNoFromWord.movesNo s hword) ?_
      have hstream : (nameExpression.run s).2.stream = s.stream.advance := by
        have hend' : ¬ (s.opening .identifierExpression).AtEnd := hend
        unfold nameExpression
        rw [run_composite, run_shift hend']
        rfl
      refine MovesNoFromNext.movesNo _ ?_
      rw [hstream, TokenStream.peekSignificant_advance_succ hblank
        (TokenStream.ahead_ne_nil hend), h.2]
      exact (inferInstance : Clear B (.lexeme .colonEqual)).not
    next => exact MovesNo.movesNo s

section

variable {operand : Nat → Production (Option Tree)} [∀ power, MovesNo B (operand power)]

instance : MovesNo B (argumentWith operand) := by
  unfold argumentWith
  infer_instance

instance (u : Unit) : MovesNo B (argumentPass operand u) := by
  unfold argumentPass
  infer_instance

instance : MovesNoFromWord B (argumentListWith operand) := by
  unfold argumentListWith
  infer_instance

instance (cp : Checkpoint) (spacedCall : Bool) (base : Option Tree) :
    MovesNo B (suffixPass operand cp spacedCall base) := by
  unfold suffixPass
  infer_instance

instance (cp : Checkpoint) (spacedCall : Bool) (base : Option Tree) :
    MovesNo B (suffixesWith operand cp spacedCall base) := by
  unfold suffixesWith
  infer_instance

instance (wanted : Wanted) (spacedCall : Bool) :
    MovesNo B (designatorWith operand wanted spacedCall) := by
  unfold designatorWith
  have hword (cp : Checkpoint) : MovesNo B (do
      let kind ← currentKind
      if Lookahead.isAccessSign kind then
        suffixesWith operand cp spacedCall (← leadingAccess)
      else if kind.isNameLike then
        suffixesWith operand cp spacedCall (← nameExpression)
      else
        failExpected wanted
        return none) := by
    refine ⟨fun s => .of_look ?_⟩
    split
    next hsign =>
      exact MovesNoFromWord.movesNo s
        (Bar.not (c := (Lookahead.isAccessSign · = true)) (by decide) hsign)
    next =>
      split
      next hname =>
        exact MovesNoFromWord.movesNo s (Bar.not (c := (·.isNameLike = true)) (by decide) hname)
      next => exact MovesNo.movesNo s
  infer_instance

instance : MovesNo B (variableWith operand) := by unfold variableWith; infer_instance

instance : MovesNo B (calleeWith operand) := by unfold calleeWith; infer_instance

instance : MovesNoFromWord B (parenthesizedWith operand) := by
  unfold parenthesizedWith
  infer_instance

instance : MovesNo B (primaryWith operand) := by
  unfold primaryWith
  refine ⟨fun s => .of_look ?_⟩
  split
  next hliteral =>
    have hsome : (literalKind? s.stream.current.kind).isSome = true := by rw [hliteral]; rfl
    exact MovesNoFromWord.movesNo s
      (Bar.not (c := fun k => (literalKind? k).isSome = true) (by decide) hsome)
  next =>
    split
    case h_6 =>
      split
      next hname =>
        exact MovesNoFromWord.movesNo s (Bar.not (c := (·.isNameLike = true)) (by decide) hname)
      next => exact MovesNo.movesNo s
    all_goals
      next hkind =>
        exact MovesNoFromWord.movesNo s
          (by rw [hkind]; exact (inferInstance : Clear B (.lexeme _)).not)

instance : MovesNoFromWord B (typeOfWith operand) := by
  unfold typeOfWith
  infer_instance

instance (cp : Checkpoint) (primary : Option Tree) :
    MovesNo B (operandSuffixes operand cp primary) := by
  cases primary <;> unfold operandSuffixes <;> infer_instance

instance : MovesNo B (unaryWith operand) := by
  unfold unaryWith
  refine ⟨fun s => .bind (MovesNo.movesNo s) (.of_look ?_)⟩
  split
  next hpower =>
    have hsome : (Operator.unaryPower? (skipBlanks.run s).2.stream.current.kind).isSome = true := by
      rw [hpower]
      rfl
    exact MovesNoFromWord.movesNo _
      (Bar.not (c := fun k => (Operator.unaryPower? k).isSome = true) (by decide) hsome)
  next =>
    split
    case h_4 => exact MovesNo.movesNo _
    all_goals
      next hkind =>
        exact MovesNoFromWord.movesNo _
          (by rw [hkind]; exact (inferInstance : Clear B (.keyword _)).not)

instance (cp : Checkpoint) (power : Nat) (left : Option Tree) :
    MovesNo B (operatorPass operand cp power left) := by
  unfold operatorPass
  refine ⟨fun s => .of_look ?_⟩
  split
  next => exact MovesNo.movesNo s
  next hpower =>
    have hsome : (Operator.binaryPower? (s.stream.peekSignificant 0).kind).isSome = true := by
      rw [hpower]
      rfl
    have hnext : ¬ B (s.stream.peekSignificant 0).kind :=
      Bar.not (c := fun k => (Operator.binaryPower? k).isSome = true) (by decide) hsome
    split
    next => exact MovesNo.movesNo s
    next => exact MovesNoFromNext.movesNo s hnext

instance (power : Nat) : MovesNo B (binaryWith operand power) := by
  unfold binaryWith
  infer_instance

end

instance (depth power : Nat) : MovesNo B (binaryUpTo depth power) := by
  induction depth generalizing power with
  | zero => unfold binaryUpTo; infer_instance
  | succ depth ih => unfold binaryUpTo; infer_instance

instance (power : Nat) : MovesNo B (expressionAbove power) := by
  unfold expressionAbove
  infer_instance

instance : MovesNo B expression := by unfold expression; infer_instance

instance : MovesNo B operand := by unfold operand; infer_instance

instance : MovesNo B variable_ := by unfold variable_; infer_instance

instance : MovesNo B callee := by unfold callee; infer_instance

instance : MovesNoFromWord B argumentList := by unfold argumentList; infer_instance

instance (u : Unit) : MovesNo B (commandArgumentPass u) := by
  unfold commandArgumentPass
  infer_instance

instance : MovesNo B commandArguments := by unfold commandArguments; infer_instance

/-! ## Declarations -/

instance : MovesNo B shiftModifiers := by unfold shiftModifiers; infer_instance

instance (item : Production Unit) [MovesNo B item] (u : Unit) : MovesNo B (groupPass item u) := by
  unfold groupPass
  infer_instance

instance (k : NodeKind) (item : Production Unit) [MovesNo B item] :
    MovesNoFromNext B (group k item) := by
  unfold group
  infer_instance

instance : MovesNo B arrayBound := by unfold arrayBound; infer_instance

instance : MovesNoFromNext B arrayBounds := by unfold arrayBounds; infer_instance

instance : MovesNoFromNext B asClause := by unfold asClause; infer_instance

instance : MovesNo B optionalAsClause := by unfold optionalAsClause; infer_instance

instance : MovesNo B optionalArrayBounds := by unfold optionalArrayBounds; infer_instance

instance (value : Production Unit) [MovesNo B value] : MovesNo B (declaration value) := by
  unfold declaration
  infer_instance

instance : MovesNo B variableDeclaration := by unfold variableDeclaration; infer_instance

instance : MovesNo B constantDeclaration := by unfold constantDeclaration; infer_instance

instance : MovesNo B parameter := by unfold parameter; infer_instance

instance : MovesNo B optionalParameterList := by unfold optionalParameterList; infer_instance

instance : MovesNo B externalSignature := by unfold externalSignature; infer_instance

/-! ## Parts of statements -/

instance : MovesNo B label := by
  unfold label
  exact .of_nextKind (c := fun k =>
    (k.isNameLike || k == .lexeme .integerLiteral || k == .lexeme .longLiteral) = true) (by decide)

instance : MovesNo B exitTarget := by
  unfold exitTarget
  exact .of_nextKind (c := fun k => isExitTarget k = true) (by decide)

instance : MovesNo B accessor := by
  unfold accessor
  exact .of_nextKind (c := fun k => Lookahead.isAccessor k = true) (by decide)

instance : MovesNo B signature := by unfold signature; infer_instance

instance : MovesNoFromNext B ifHeader := by unfold ifHeader; infer_instance

instance : MovesNo B forEachHeader := by unfold forEachHeader; infer_instance

instance : MovesNo B forHeader := by unfold forHeader; infer_instance

instance : TestsNext B atLoopCondition :=
  .of_next (f := fun k => k == .keyword .while_ || k == .keyword .until_)
    (Bar.not_of_test (by decide))

instance : MovesNo B optionalLoopCondition := by
  unfold optionalLoopCondition
  infer_instance

instance : Still openLoops := ⟨fun _ => rfl⟩

instance (closed : Nat) : MovesNo B (nextVariablePass closed) := by
  unfold nextVariablePass
  infer_instance

instance : MovesNo B comparison := by
  unfold comparison
  exact .of_current (c := fun k => Operator.isRelational k = true) (by decide)

instance : MovesNo B comparisonTest := by
  unfold comparisonTest
  infer_instance

instance : MovesNo B valueTest := by unfold valueTest; infer_instance

instance : MovesNo B caseTest := by unfold caseTest; infer_instance

end

end Grammar

end LosslessBasic
