import LosslessBasic.Proofs.Grammar.Progress

/-!
# Loops end by themselves

Every loop of the grammar goes on only when a pass has moved a token, so the bound on the number of
its passes is never what ends it: `iterateUpTo_eq` and `repeatWhileUpTo_eq` say that a loop does the
same under every bound above the number of tokens ahead, whatever it would give if the bound ended
it.
-/

namespace LosslessBasic.Grammar

set_option synthInstance.maxSize 65536

/-- A test that looks ahead only and does not hold at the end of the source. -/
class Guards (test : Production Bool) : Prop where
  run_eq (s : State) : test.run s = ((test.run s).1, s)
  not_atEnd {s : State} : (test.run s).1 = true → ¬ s.AtEnd

/-- A pass that goes on only when it has moved a token. -/
class Progresses {α β : Type} (p : Production (Pass α β)) : Prop where
  remaining_lt (s : State) (a : α) :
    (p.run s).1 = .again a → (p.run s).2.stream.remaining < s.stream.remaining

/-! ## Bounds do not matter -/

section

variable {α β : Type} {test : Production Bool} {body : Production Unit}

theorem repeatWhileUpTo_eq [hguards : Guards test] [hbody : Advances body] {n m : Nat} {s : State}
    (hn : s.stream.remaining < n) (hm : s.stream.remaining < m) :
    (repeatWhileUpTo test body n).run s = (repeatWhileUpTo test body m).run s := by
  induction n generalizing m s with
  | zero => omega
  | succ n ih =>
    obtain _ | m := m
    · omega
    unfold repeatWhileUpTo
    rw [run_bind, run_bind, hguards.run_eq]
    cases htest : (test.run s).1 with
    | false => rfl
    | true =>
      have hlt := hbody.remaining_lt s (hguards.not_atEnd htest)
      exact ih (s := (body.run s).2) (by omega) (by omega)

/-- A repetition makes a pass and goes on from there. -/
theorem run_repeatWhile_of_true [hguards : Guards test] [hbody : Advances body] {s : State}
    (htest : (test.run s).1 = true) :
    (repeatWhile test body).run s = (repeatWhile test body).run (body.run s).2 := by
  have hlt := hbody.remaining_lt s (hguards.not_atEnd htest)
  have hrun : (repeatWhile test body).run s =
      (repeatWhileUpTo test body s.stream.remaining).run (body.run s).2 := by
    unfold repeatWhile
    rw [run_look_bind, repeatWhileUpTo, run_bind, hguards.run_eq, htest]
    rfl
  rw [hrun, repeatWhile, run_look_bind]
  exact repeatWhileUpTo_eq hlt (Nat.lt_succ_self _)

/-- Behind a repetition its test fails. -/
theorem run_test_repeatWhile [hguards : Guards test] [hbody : Advances body] (s : State) :
    (test.run ((repeatWhile test body).run s).2).1 = false := by
  generalize hn : s.stream.remaining = n
  induction n using Nat.strongRecOn generalizing s with
  | ind n ih =>
    cases htest : (test.run s).1 with
    | true =>
      have hlt := hbody.remaining_lt s (hguards.not_atEnd htest)
      rw [run_repeatWhile_of_true htest]
      exact ih _ (by omega) _ rfl
    | false =>
      have hrun : test.run s = (false, s) := by rw [hguards.run_eq, htest]
      rw [run_repeatWhile_of_false hrun]
      exact htest

theorem iterateUpTo_eq {exhausted exhausted' : α → β} {pass : α → Production (Pass α β)}
    [hpass : ∀ a, Progresses (pass a)] {n m : Nat} {a : α} {s : State}
    (hn : s.stream.remaining < n) (hm : s.stream.remaining < m) :
    (iterateUpTo exhausted pass n a).run s = (iterateUpTo exhausted' pass m a).run s := by
  induction n generalizing m a s with
  | zero => omega
  | succ n ih =>
    obtain _ | m := m
    · omega
    unfold iterateUpTo
    rw [run_bind, run_bind]
    cases hresult : ((pass a).run s).1 with
    | done b => rfl
    | again a' =>
      have hlt := (hpass a).remaining_lt s a' hresult
      exact ih (by omega) (by omega)

end

section

variable {α β : Type} {exhausted : α → β} {pass : α → Production (Pass α β)} {a : α} {s : State}

/-- A loop leaves with the result of its last pass. -/
theorem run_iterate_of_done {b : β} (hresult : ((pass a).run s).1 = .done b) :
    (iterate exhausted pass a).run s = (b, ((pass a).run s).2) := by
  unfold iterate
  rw [run_look_bind, iterateUpTo, run_bind, hresult]
  rfl

/-- A loop goes on behind a pass that says so. -/
theorem run_iterate_of_again [hpass : ∀ a, Progresses (pass a)] {a' : α}
    (hresult : ((pass a).run s).1 = .again a') :
    (iterate exhausted pass a).run s = (iterate exhausted pass a').run ((pass a).run s).2 := by
  have hlt := (hpass a).remaining_lt s a' hresult
  have hrun : (iterate exhausted pass a).run s =
      (iterateUpTo exhausted pass s.stream.remaining a').run ((pass a).run s).2 := by
    unfold iterate
    rw [run_look_bind, iterateUpTo, run_bind, hresult]
  rw [hrun, iterate, run_look_bind]
  exact iterateUpTo_eq hlt (Nat.lt_succ_self _)

end

/-! ## Guards -/

theorem kind_peekSignificant_of_atEnd {s : State} (h : s.AtEnd) :
    (s.stream.peekSignificant 0).kind = .lexeme .endOfFile := by
  rw [TokenStream.peekSignificant_zero (by rw [h]; rfl), h]

/-- A test of the kind at the cursor that the end marker does not pass. -/
theorem Guards.of_current {f : Kind → Bool} (h : f (.lexeme .endOfFile) = false) :
    Guards (look fun s => f s.current.kind) where
  run_eq _ := rfl
  not_atEnd {s} htest hend := by
    rw [run_look, hend, h] at htest
    cases htest

/-- A test of the next significant kind that the end marker does not pass. -/
theorem Guards.of_next {f : Kind → Bool} (h : f (.lexeme .endOfFile) = false) :
    Guards (look fun s => f (s.peekSignificant 0).kind) where
  run_eq _ := rfl
  not_atEnd {s} htest hend := by
    rw [run_look, kind_peekSignificant_of_atEnd hend, h] at htest
    cases htest

instance : Guards (look (·.current.kind.isInlineTrivia)) := .of_current rfl

instance (spacedCall : Bool) : Guards (atArguments spacedCall) where
  run_eq _ := rfl
  not_atEnd {s} h hend := by
    change (s.stream.current.kind == .lexeme .leftParen ||
      (spacedCall && s.stream.current.kind.isInlineTrivia && _)) = true at h
    rw [hend] at h
    cases spacedCall <;> cases h

instance (k : Keyword) : Guards (atNext (.keyword k)) := .of_next (f := (· == .keyword k)) rfl

instance : Guards (atCurrent (.lexeme .rightParen)) :=
  .of_current (f := (· == .lexeme .rightParen)) rfl

instance : Guards (atCurrent (.lexeme .comma)) := .of_current (f := (· == .lexeme .comma)) rfl

instance : Guards (atNext (.lexeme .comma)) := .of_next (f := (· == .lexeme .comma)) rfl

instance : Guards (do return Lookahead.isModifier (← nextKind)) :=
  .of_next (f := Lookahead.isModifier) rfl

instance : Guards atQualifier where
  run_eq _ := rfl
  not_atEnd {s} h hend := by
    change (s.stream.current.kind == .lexeme .period && _) = true at h
    rw [hend] at h
    cases h

instance : Guards atMemberAccess where
  run_eq _ := rfl
  not_atEnd {s} h hend := by
    change (Lookahead.isAccessSign s.stream.current.kind && _) = true at h
    rw [hend] at h
    cases h

instance : Guards withinStatement where
  run_eq _ := rfl
  not_atEnd {s} h hend := by
    change (!endsStatement (s.stream.peekSignificant 0).kind s.lineMode) = true at h
    rw [kind_peekSignificant_of_atEnd hend] at h
    cases h

/-! ## Loops -/

section

variable {α β γ : Type}

instance (b : β) : Progresses (pure (.done b) : Production (Pass α β)) where
  remaining_lt _ _ h := by cases h

instance {p : Production γ} {f : γ → Production (Pass α β)} [hp : Composed false p]
    [hf : ∀ c, Progresses (f c)] : Progresses (p >>= f) where
  remaining_lt s a h := by
    have hle := (hp.follows s).remaining_le
    have hlt := (hf _).remaining_lt (p.run s).2 a h
    exact Nat.lt_of_lt_of_le hlt hle

instance {c : Prop} [Decidable c] {p q : Production (Pass α β)} [Progresses p] [Progresses q] :
    Progresses (if c then p else q) := by
  split <;> infer_instance

instance {test : Production Bool} {p q : Production (Pass α β)} [hguards : Guards test]
    [hp : Advances p] [hq : Progresses q] :
    Progresses (test >>= fun b => if b then p else q) where
  remaining_lt s a h := by
    rw [run_bind, hguards.run_eq] at h ⊢
    cases htest : (test.run s).1 with
    | true => exact hp.remaining_lt s (hguards.not_atEnd htest)
    | false =>
      rw [htest] at h
      exact hq.remaining_lt s a h

instance {c : Bool} {test : Production Bool} {p q : Production (Pass α β)} [hguards : Guards test]
    [hp : Advances p] [hq : Progresses q] :
    Progresses (test >>= fun b => if c && b then p else q) := by
  cases c with
  | true => exact (inferInstance : Progresses (test >>= fun b => if b then p else q))
  | false =>
    have hcomposed : ∀ s, (test.run s).2 = s := fun s => by rw [hguards.run_eq]
    refine ⟨fun s a h => ?_⟩
    rw [run_bind, hcomposed] at h ⊢
    exact hq.remaining_lt s a h

/-- A pass that, away from the end of the source, goes on only when it has moved a token. -/
class ProgressesInside (p : Production (Pass α β)) : Prop where
  remaining_lt (s : State) (a : α) :
    ¬ s.AtEnd → (p.run s).1 = .again a → (p.run s).2.stream.remaining < s.stream.remaining

instance {p : Production (Pass α β)} [h : Progresses p] : ProgressesInside p where
  remaining_lt s a _ := h.remaining_lt s a

instance {p : Production (Pass α β)} [h : Advances p] : ProgressesInside p where
  remaining_lt s _ hend _ := h.remaining_lt s hend

instance {p : Production γ} {f : γ → Production (Pass α β)} [hp : Composed false p]
    [hf : ∀ c, ProgressesInside (f c)] [hcomposed : ∀ c, Composed false (f c)] :
    ProgressesInside (p >>= f) where
  remaining_lt s a hend h := by
    rw [run_bind] at h ⊢
    have hmoved := (hp.follows s).remaining_le
    have hmoved' := ((hcomposed (p.run s).1).follows (p.run s).2).remaining_le
    by_cases hstay : (p.run s).2.stream.remaining = s.stream.remaining
    · have hcurrent := TokenStream.current_eq_of_rest_eq (hp.stream_eq_of_remaining_eq hstay)
      have hlt := (hf (p.run s).1).remaining_lt (p.run s).2 a (by rwa [State.AtEnd, hcurrent]) h
      omega
    · omega

instance {c : Prop} [Decidable c] {p q : Production (Pass α β)} [ProgressesInside p]
    [ProgressesInside q] : ProgressesInside (if c then p else q) := by
  split <;> infer_instance

/-- A pass that leaves at the end of the source. -/
theorem Progresses.of_inside {f : TokenStream → γ} {test : γ → Bool}
    (hend : ∀ s : State, s.AtEnd → test (f s.stream) = true)
    {p q : γ → Production (Pass α β)} [hp : ∀ c, ProgressesInside (p c)]
    [hq : ∀ c, Progresses (q c)] :
    Progresses (look f >>= fun c => if test c then q c else p c) where
  remaining_lt s a h := by
    rw [run_look_bind] at h ⊢
    split at h
    next htest =>
      rw [if_pos htest]
      exact (hq _).remaining_lt s a h
    next htest =>
      rw [if_neg htest]
      exact (hp _).remaining_lt s a (fun hs => htest (hend s hs)) h

theorem kind_current_of_atEnd {s : State} (h : s.AtEnd) :
    (s.stream.current.kind == .lexeme .endOfFile) = true := by
  rw [h]
  rfl

end

section

variable {operand : Nat → Production (Option Tree)} [∀ power, Composed false (operand power)]

instance (u : Unit) : Progresses (argumentPass operand u) := by
  unfold argumentPass
  infer_instance

instance : Advances (argumentListWith operand) := by
  unfold argumentListWith
  infer_instance

instance (cp : Checkpoint) (spacedCall : Bool) (base : Option Tree) :
    Progresses (suffixPass operand cp spacedCall base) := by
  unfold suffixPass
  infer_instance

instance (cp : Checkpoint) (power : Nat) (left : Option Tree) :
    Progresses (operatorPass operand cp power left) where
  remaining_lt s a h := by
    unfold operatorPass nextKind at h ⊢
    rw [run_look_bind] at h ⊢
    cases hbinding : Operator.binaryPower? (s.stream.peekSignificant 0).kind with
    | none =>
      rw [hbinding] at h
      cases h
    | some binding =>
      have hend : ¬ s.AtEnd := by
        intro hend
        rw [kind_peekSignificant_of_atEnd hend] at hbinding
        cases hbinding
      rw [hbinding] at h
      dsimp only at h ⊢
      split at h
      next => cases h
      next hpower =>
        rw [if_neg hpower]
        exact Advances.remaining_lt s hend

end

instance : Guards atArgumentSign :=
  .of_next (f := fun k => k == .lexeme .comma || k == .lexeme .semicolon) rfl

instance (u : Unit) : Progresses (commandArgumentPass u) := by
  have hargument : Composed false (argumentWith expressionAbove) := inferInstance
  have hrest : Progresses (do
      if ← atArgumentSign then
        shiftNext
        return Pass.again ()
      argumentWith expressionAbove
      if ← atArgumentSign then return .again ()
      return Pass.done ()) := by
    refine ⟨fun s a h => ?_⟩
    rw [run_bind, Guards.run_eq] at h ⊢
    cases hsign : (atArgumentSign.run s).1 with
    | true =>
      rw [if_pos rfl]
      exact Advances.remaining_lt s (Guards.not_atEnd hsign)
    | false =>
      rw [hsign, if_neg Bool.false_ne_true, run_bind, run_bind, Guards.run_eq] at h
      rw [if_neg Bool.false_ne_true, run_bind, run_bind, Guards.run_eq]
      dsimp only at h ⊢
      generalize hs' : ((argumentWith expressionAbove).run s).2 = s' at h ⊢
      have hle : s'.stream.remaining ≤ s.stream.remaining := by
        rw [← hs']
        exact (hargument.follows s).remaining_le
      by_cases hstay : s'.stream.remaining = s.stream.remaining
      · -- a sign behind the argument has not been there before
        have hrest : s'.stream.rest = s.stream.rest := by
          rw [← hs'] at hstay ⊢
          exact hargument.stream_eq_of_remaining_eq hstay
        have hnext : (atArgumentSign.run s').1 = (atArgumentSign.run s).1 := by
          simp only [atArgumentSign, run_look, TokenStream.peekSignificant_eq_of_rest_eq hrest]
        rw [hnext, hsign, if_neg Bool.false_ne_true] at h
        cases h
      · have hlt : s'.stream.remaining < s.stream.remaining := Nat.lt_of_le_of_ne hle hstay
        split <;> exact hlt
  unfold commandArgumentPass
  infer_instance

section

variable (item : Production Unit) [Composed false item]

instance (u : Unit) : Progresses (groupPass item u) := by
  unfold groupPass
  infer_instance

/-- A member that moves nothing is followed by a token that is moved. -/
instance : Advances (memberOrToken item) where
  remaining_lt s hend := by
    have hitem : Composed false item := inferInstance
    have hle := (hitem.follows s).remaining_le
    unfold memberOrToken
    rw [run_look_bind, run_bind, run_look_bind]
    by_cases hstay : (item.run s).2.stream.remaining = s.stream.remaining
    · have hcurrent := TokenStream.current_eq_of_rest_eq (hitem.stream_eq_of_remaining_eq hstay)
      rw [if_pos (by simp [hstay]), ← hstay]
      exact Advances.remaining_lt (item.run s).2 (by rwa [State.AtEnd, hcurrent])
    · rw [if_neg (by simpa using hstay)]
      exact Nat.lt_of_le_of_ne hle hstay

instance (block : Block) (closer : Keyword) (u : Unit) :
    Progresses (memberPass block closer item u) := by
  unfold memberPass
  exact .of_inside fun _ => kind_current_of_atEnd

end

instance (closed : Nat) : Progresses (nextVariablePass closed) := by
  unfold nextVariablePass
  infer_instance

instance : Advances propertyAssignment := by unfold propertyAssignment; infer_instance

instance (inner : Block → Production Unit) [∀ block, Composed false (inner block)]
    [∀ block, Advances (inner block)] (block : Block) (u : Unit) :
    Progresses (designerPass inner block u) := by
  have hline (block? : Option Block) : Advances (blockOrProperty inner block?) := by
    cases block? <;> unfold blockOrProperty <;> infer_instance
  unfold designerPass
  exact .of_inside fun _ => kind_current_of_atEnd

section

variable {statement : Production Unit} [Composed false statement]

instance : Advances ifHeader := by unfold ifHeader; infer_instance

instance (stop : Stop) : Progresses (elseIfPass statement stop) := by
  unfold elseIfPass
  infer_instance

instance : Guards atElse :=
  .of_next (f := fun k => k == .keyword .else_ || k == .keyword .elseIf) rfl

instance (stop : Stop) : Progresses (elseBodyPass statement stop) := by
  unfold elseBodyPass
  infer_instance

instance : Advances (caseClause statement) := by unfold caseClause; infer_instance

instance : Advances strayCaseLine := by
  unfold strayCaseLine unknownStatement
  infer_instance

/-- The closer of a whole `Select Case` starts with `End`. -/
theorem eq_end_of_ofKinds? {first second : Kind} {closer : Closer}
    (h : Closer.ofKinds? first second = some closer) (hblock : closer.block = .select)
    (hsegment : closer.isSegment = false) : first = .keyword .end_ := by
  unfold Closer.ofKinds? at h
  split at h
  next => rfl
  all_goals cases h <;> simp at hblock hsegment

variable (statement) in
/-- `End Select` leaves, and everything else that comes next is moved. -/
theorem progressesInside_nextCloser :
    ProgressesInside (nextCloser? >>= closerOrLinePass statement) := by
  refine ⟨fun s a hend h => ?_⟩
  unfold nextCloser? at h ⊢
  rw [run_look_bind] at h ⊢
  cases hcloser : Closer.ofKinds? (s.stream.peekSignificant 0).kind
      (s.stream.peekSignificant 1).kind with
  | none =>
    rw [hcloser] at h
    have hline : ProgressesInside (closerOrLinePass statement none) := by
      unfold closerOrLinePass
      infer_instance
    exact hline.remaining_lt s a hend h
  | some closer =>
    rw [hcloser] at h
    change ((selectCloserPass statement closer).run s).1 = _ at h
    change ((selectCloserPass statement closer).run s).2.stream.remaining < _
    unfold selectCloserPass at h ⊢
    -- a closer is not moved where it ends the `Select`, but then the loop does not go on
    by_cases hblock : closer.block = .select
    · rw [if_pos (by simp [hblock])] at h ⊢
      cases hsegment : closer.isSegment with
      | true =>
        rw [if_pos rfl]
        exact Advances.remaining_lt s hend
      | false =>
        have hend_ : (atNext (.keyword .end_)).run s = (true, s) := by
          unfold atNext
          rw [run_look, eq_end_of_ofKinds? hcloser hblock hsegment]
          rfl
        rw [hsegment, if_neg Bool.false_ne_true] at h
        unfold afterClause at h
        rw [if_neg (by decide), run_bind, hend_] at h
        cases h
    · rw [if_neg (by simpa using hblock)] at h ⊢
      have hrest : ProgressesInside (do
          if ← blockIsOpen closer.block then
            let t ← current
            report (.missingCloser .select t) t
            return Pass.done ()
          else
            strayCloser closer
            return .again ()) := inferInstance
      exact hrest.remaining_lt s a hend h

instance (u : Unit) : Progresses (selectPass statement u) := by
  have hcloser := progressesInside_nextCloser statement
  unfold selectPass
  exact .of_inside fun _ => kind_current_of_atEnd

variable [Advances statement]

instance : Advances secondElse := by unfold secondElse; infer_instance

instance (endsAtElse : Bool) (u : Unit) : Progresses (inlinePass statement endsAtElse u) := by
  unfold inlinePass
  exact .of_inside fun _ => kind_current_of_atEnd

instance (closer : Closer) : ProgressesInside (closerPass closer) := by
  unfold closerPass
  infer_instance

instance : Advances (statementPass statement) := by
  unfold statementPass
  infer_instance

instance (closer? : Option Closer) :
    ProgressesInside (closerOrStatementPass statement closer?) := by
  cases closer? <;> unfold closerOrStatementPass <;> infer_instance

instance : ProgressesInside (listPass statement) := by
  unfold listPass
  infer_instance

instance (u : Unit) : Progresses (statementsPass statement u) := by
  unfold statementsPass
  exact .of_inside fun _ => kind_current_of_atEnd

end

end LosslessBasic.Grammar
