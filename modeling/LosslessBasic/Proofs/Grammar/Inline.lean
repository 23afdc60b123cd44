import LosslessBasic.Proofs.Grammar.Placement

/-!
# What a line holds is read the same at another place

Within a line both readings of a text agree (`Inline`): the parts of a statement move no line break,
and what they look ahead for is on their line. A text that is followed by others has to have a line
break ahead, so that its end is never seen.
-/

namespace LosslessBasic.Grammar

set_option synthInstance.maxSize 65536

/-- Productions that agree where they move no line break. -/
class Inline (P : Placement) {α : Type} [Placeable α] (p q : Production α) : Prop where
  agrees (s : State) : P.Admits s → (P.IsOpen → ¬ s.AtEnd ∧ s.KeepsLine p) → P.Agrees p q s

/-- What moves no line break does not reach the end. -/
theorem Placement.Admits.not_atEnd {P : Placement} {α : Type} {p : Production α} {s : State}
    (hs : P.Admits s) (hopen : P.IsOpen) (hend : ¬ s.AtEnd) (hp : Composed false p)
    (hline : s.KeepsLine p) : ¬ (p.run s).2.AtEnd := by
  intro hend'
  obtain ⟨moved, hrest, hmoved⟩ := hline
  have hremaining := hend'.remaining_eq_zero (hs.of_follows (hp.follows s)).sound
  obtain ⟨last, hlast⟩ : ∃ last, (p.run s).2.stream.rest = [last] := by
    refine List.length_eq_one_iff.mp ?_
    rw [TokenStream.length_rest, hremaining]
  have hne : moved ≠ [] := by
    rintro rfl
    rw [List.nil_append] at hrest
    rw [State.AtEnd, ← TokenStream.current_eq_of_rest_eq hrest] at hend'
    exact hend hend'
  have hbreak := hs.endsInBreak hopen (moved.getLast hne)
    (by rw [hrest, hlast, List.dropLast_concat]; exact List.getLast?_eq_some_getLast hne)
  exact hmoved _ (List.getLast_mem hne) hbreak

section

variable {P : Placement} {α β : Type} [Placeable α] [Placeable β] {p q : Production α}

omit [Placeable α] [Placeable β] in
/-- The first of two productions that keep a line together keeps it. -/
theorem State.KeepsLine.of_bind {f : α → Production β} {s : State} (hp : Composed false p)
    (hf : ∀ a, Composed false (f a)) (h : s.KeepsLine (p >>= f)) :
    s.KeepsLine p ∧ (p.run s).2.KeepsLine (f (p.run s).1) := by
  obtain ⟨moved, hrest, hmoved⟩ := h
  obtain ⟨first, hfirst, -⟩ := (hp.follows s).moved
  obtain ⟨second, hsecond, -⟩ := ((hf (p.run s).1).follows (p.run s).2).moved
  rw [run_bind, hfirst, hsecond, ← List.append_assoc] at hrest
  obtain rfl := List.append_cancel_right hrest
  exact ⟨⟨first, hfirst, fun t ht => hmoved t (List.mem_append_left _ ht)⟩,
    ⟨second, hsecond, fun t ht => hmoved t (List.mem_append_right _ ht)⟩⟩

/-- Productions that agree on their line do so one behind the other. -/
theorem Inline.bind {f g : α → Production β} [hp : Composed false p] [h : Inline P p q]
    (hf : ∀ a, Composed false (f a)) (hfg : ∀ a, Inline P (f a) (g (place P a))) :
    Inline P (p >>= f) (q >>= g) where
  agrees s hs hline := by
    have hfirst := h.agrees s hs fun hopen =>
      ⟨(hline hopen).1, ((hline hopen).2.of_bind hp hf).1⟩
    have hsecond :=
      (hfg (p.run s).1).agrees (p.run s).2 (hs.of_follows (hp.follows s)) fun hopen => by
      obtain ⟨hend, hkeeps⟩ := hline hopen
      obtain ⟨hkeeps, hkeeps'⟩ := hkeeps.of_bind hp hf
      exact ⟨hs.not_atEnd hopen hend hp hkeeps, hkeeps'⟩
    unfold Placement.Agrees at hfirst hsecond ⊢
    rw [run_bind, hfirst, hsecond]
    rfl

instance {f g : α → Production β} [Composed false p] [hf : ∀ a, Composed false (f a)]
    [Inline P p q] [hfg : ∀ a, Inline P (f a) (g (place P a))] : Inline P (p >>= f) (q >>= g) :=
  .bind hf hfg

/-- What does nothing agrees with itself. -/
theorem Inline.of_pure (a : α) : Inline P (pure a) (pure (place P a)) := ⟨fun _ _ _ => rfl⟩

instance : Inline P (pure ()) (pure ()) := .of_pure ()

instance (b : Bool) : Inline P (pure b) (pure b) := .of_pure b

instance (n : Nat) : Inline P (pure n) (pure n) := .of_pure n

instance : Inline P (pure (none : Option Tree)) (pure none) := .of_pure none

instance (t? : Option Tree) : Inline P (pure t?) (pure (place P t?)) := .of_pure t?

instance : Inline P (pure (Pass.again ()) : Production (Pass Unit Unit)) (pure (Pass.again ())) :=
  .of_pure (Pass.again ())

instance : Inline P (pure (Pass.done ()) : Production (Pass Unit Unit)) (pure (Pass.done ())) :=
  .of_pure (Pass.done ())

instance (n : Nat) :
    Inline P (pure (Pass.again n) : Production (Pass Nat Nat)) (pure (Pass.again n)) :=
  .of_pure (Pass.again n)

instance (n : Nat) :
    Inline P (pure (Pass.done n) : Production (Pass Nat Nat)) (pure (Pass.done n)) :=
  .of_pure (Pass.done n)

instance (t? : Option Tree) : Inline P
    (pure (Pass.again t?) : Production (Pass (Option Tree) (Option Tree)))
    (pure (Pass.again (place P t?))) := .of_pure (Pass.again t?)

instance (t? : Option Tree) : Inline P
    (pure (Pass.done t?) : Production (Pass (Option Tree) (Option Tree)))
    (pure (Pass.done (place P t?))) := .of_pure (Pass.done t?)

instance : Inline P get get := ⟨fun _ _ _ => rfl⟩

/-- What is seen on the line is the same. -/
theorem Inline.of_look {f : TokenStream → α}
    (h : ∀ s s' : TokenStream, SameLine P.relocation s.rest s'.rest → f s' = place P (f s)) :
    Inline P (look f) (look f) where
  agrees s hs hline := by
    have hsame := hs.sameLine fun hopen => (hline hopen).1
    unfold Placement.Agrees
    rw [run_look, run_look, h _ _ hsame]

/-- Away from the end of a text that is followed by others, both readings move the same token. -/
theorem Placement.Admits.agrees_shift {s : State} (hs : P.Admits s) (hend : P.IsOpen → ¬ s.AtEnd) :
    P.Agrees shift shift s := by
  unfold Placement.Agrees
  have hcurrent : (P.state s).stream.current.kind = s.stream.current.kind := by
    rw [(hs.sameLine hend).current]
  by_cases hkind : s.stream.current.kind = .lexeme .endOfFile
  · rw [run_shift_of_atEnd hkind, run_shift_of_atEnd (hcurrent.trans hkind)]
  · rw [run_shift hkind, run_shift (s := P.state s) (by rwa [hcurrent]),
      P.state_shifted (TokenStream.ahead_ne_nil hkind)]

instance : Inline P shift shift where
  agrees _ hs hline := hs.agrees_shift fun hopen => (hline hopen).1

/-- A failure that is added is placed behind those that have been placed. -/
theorem push_placed {γ : Type} (base a : Array γ) (f : γ → γ) (x : γ) :
    (base ++ a.map f).push (f x) = base ++ (a.push x).map f := by
  simp

instance (activity : Activity) (t : Token) :
    Inline P (note activity t) (note activity (place P t)) where
  agrees s _ _ :=
    congrArg (fun log : Array Event => (((), { P.state s with log := log }) : Unit × State))
      (push_placed P.base.log s.log P.event (.began activity t))

instance (recovering : Bool) : Inline P (setRecovering recovering) (setRecovering recovering) :=
  ⟨fun _ _ _ => rfl⟩

instance (separator : Separator) : Inline P (setSeparator separator) (setSeparator separator) :=
  ⟨fun _ _ _ => rfl⟩

instance (loops : Nat) : Inline P (setPendingNext loops) (setPendingNext loops) :=
  ⟨fun _ _ _ => rfl⟩

instance (access header : Tree) :
    Inline P (addTarget access header)
      (addTarget (P.relocation.tree access) (P.relocation.tree header)) where
  agrees s _ _ :=
    congrArg (fun targets : Array (Tree × Tree) =>
        (((), { P.state s with implicitTargets := targets }) : Unit × State))
      (push_placed P.base.implicitTargets s.implicitTargets P.relocation.target (access, header))

instance : Inline P checkpoint checkpoint where
  agrees s _ _ := by
    have hsize : (P.builder s.builder).pending.size =
        s.builder.pending.size + P.base.builder.pending.size := by
      simp [Placement.builder, Nat.add_comm]
    exact congrArg (fun n => ((⟨n⟩ : Checkpoint), P.state s)) hsize

/-- Reporting a problem at both places. -/
theorem Placement.agrees_report {problem problem' : Problem} {t t' : Token} (s : State)
    (h : P.failure (.atToken problem t) = .atToken problem' t') :
    P.Agrees (report problem t) (report problem' t') s := by
  have hfailures := push_placed P.base.failures s.failures P.failure (.atToken problem t)
  have hlog := push_placed P.base.log s.log P.event (.failed (.atToken problem t))
  have hevent : P.event (.failed (.atToken problem t)) = .failed (.atToken problem' t') :=
    congrArg Event.failed h
  rw [h] at hfailures
  rw [hevent] at hlog
  change (((), { P.state s with
    failures := (P.state s).failures.push (.atToken problem' t')
    log := (P.state s).log.push (.failed (.atToken problem' t')) }) : Unit × State) = _
  rw [hfailures, hlog]
  rfl

/-- A report agrees with the one that is placed, unless it is of a closer missed at the end of the
source. -/
theorem Inline.of_report (problem : Problem) (t : Token)
    (h : ¬ problem.IsMissedAtEnd) :
    Inline P (report problem t) (report (P.relocation.problem problem) (P.relocation.token t)) where
  agrees s _ _ := P.agrees_report s (P.failure_atToken t h)

/-! ## Nodes and contexts -/

/-- Closing a node that both readings have opened, in states. -/
theorem state_closing {s : State} {n : OpenNode} {outer : List OpenNode}
    (h : s.builder.opened = n :: outer) : (P.state s).closing = P.state s.closing := by
  simp only [State.closing, P.finishNode_builder h]

instance {k : NodeKind} [hp : Composed false p] [h : Inline P p q] :
    Inline P (within k p) (within k q) where
  agrees s hs hline := by
    have hbody := h.agrees (s.opening k) ⟨hs.sound, hs.endsInBreak⟩ hline
    have hopened := (hp.sameContext (s.opening k)).opened
    unfold Placement.Agrees at hbody ⊢
    rw [run_within, P.state_opening, hbody, state_closing hopened]
    rfl

instance {k : NodeKind} {p q : Production Unit} [hp : Composed false p] [h : Inline P p q] :
    Inline P (composite k p) (composite k q) where
  agrees s hs hline := by
    have hbody := h.agrees (s.opening k) ⟨hs.sound, hs.endsInBreak⟩ hline
    have hopened := (hp.sameContext (s.opening k)).opened
    unfold Placement.Agrees at hbody ⊢
    rw [run_composite, P.state_opening, hbody, state_closing hopened, P.finishNode_builder hopened]
    rfl

instance {cp : Checkpoint} {k : NodeKind} {p q : Production Unit} [hp : Composed false p]
    [h : Inline P p q] : Inline P (compositeFrom cp k p) (compositeFrom (place P cp) k q) where
  agrees s hs hline := by
    have hbody := h.agrees (s.openingAt cp k) ⟨hs.sound, hs.endsInBreak⟩ hline
    have hopened := (hp.sameContext (s.openingAt cp k)).opened
    unfold Placement.Agrees at hbody ⊢
    have hopening : (P.state s).openingAt (place P cp) k = P.state (s.openingAt cp k) :=
      P.state_openingAt cp k
    rw [run_compositeFrom, hopening, hbody, state_closing hopened,
      P.finishNode_builder hopened]
    rfl

instance {c : Prop} [Decidable c] {p' q' : Production α} [Inline P p q] [Inline P p' q'] :
    Inline P (if c then p else p') (if c then q else q') := by
  split <;> infer_instance

/-! ## Loops -/

/-- Productions that do the same in a state agree in it with the same ones. -/
theorem Inline.congr {p' q' : Production α} (h : Inline P p' q') {s : State} (hs : P.Admits s)
    (hline : P.IsOpen → ¬ s.AtEnd ∧ s.KeepsLine p) (hp : p.run s = p'.run s)
    (hq : q.run (P.state s) = q'.run (P.state s)) : P.Agrees p q s := by
  unfold Placement.Agrees
  rw [hp, hq]
  refine h.agrees s hs fun hopen => ⟨(hline hopen).1, ?_⟩
  obtain ⟨moved, hrest, hmoved⟩ := (hline hopen).2
  exact ⟨moved, by rw [hrest, hp], hmoved⟩

section

variable {exhausted : α → β} {pass pass' : α → Production (Pass α β)}

/-- Loops whose passes agree on their line do so up to any bound. -/
theorem Inline.iterateUpTo {exhausted' : α → β}
    (hex : ∀ a, exhausted' (place P a) = place P (exhausted a))
    [∀ a, Composed false (pass a)] [∀ a, Inline P (pass a) (pass' (place P a))] (n : Nat) (a : α) :
    Inline P (iterateUpTo exhausted pass n a) (iterateUpTo exhausted' pass' n (place P a)) := by
  induction n generalizing a with
  | zero =>
    unfold Grammar.iterateUpTo
    rw [hex]
    exact .of_pure _
  | succ n ih =>
    unfold Grammar.iterateUpTo
    refine .bind (fun r => ?_) fun r => ?_
    · cases r <;> dsimp only <;> infer_instance
    · cases r with
      | again a => exact ih a
      | done b => exact .of_pure b

variable (exhausted pass pass') in
/-- Loops whose passes agree on their line do so. -/
theorem Inline.iterate (exhausted' : α → β)
    (hex : ∀ a, exhausted' (place P a) = place P (exhausted a))
    [∀ a, Composed false (pass a)] [∀ a, Inline P (pass a) (pass' (place P a))]
    [∀ a, Progresses (pass a)] [∀ a, Progresses (pass' a)] (a : α) :
    Inline P (iterate exhausted pass a) (iterate exhausted' pass' (place P a)) where
  agrees s hs hline := by
    obtain ⟨n, hn, hn'⟩ : ∃ n, s.stream.remaining < n ∧ (P.state s).stream.remaining < n :=
      ⟨max s.stream.remaining (P.state s).stream.remaining + 1, by omega, by omega⟩
    have hloop : Inline P (Grammar.iterateUpTo exhausted pass n a)
        (Grammar.iterateUpTo exhausted' pass' n (place P a)) := .iterateUpTo hex n a
    refine hloop.congr hs hline ?_ ?_
    · unfold Grammar.iterate
      rw [run_look_bind]
      exact iterateUpTo_eq (Nat.lt_succ_self _) hn
    · unfold Grammar.iterate
      rw [run_look_bind]
      exact iterateUpTo_eq (Nat.lt_succ_self _) hn'

end

instance {pass pass' : Unit → Production (Pass Unit Unit)} [∀ a, Composed false (pass a)]
    [∀ a, Inline P (pass a) (pass' a)] [∀ a, Progresses (pass a)] [∀ a, Progresses (pass' a)] :
    Inline P (iterate (fun _ => ()) pass ()) (iterate (fun _ => ()) pass' ()) := by
  have hpass (a : Unit) : Inline P (pass a) (pass' (place P a)) :=
    (inferInstance : Inline P (pass a) (pass' a))
  exact .iterate (fun _ => ()) pass pass' (fun _ => ()) (fun _ => rfl) ()

instance {pass pass' : Option Tree → Production (Pass (Option Tree) (Option Tree))}
    [∀ t?, Composed false (pass t?)] [∀ t?, Inline P (pass t?) (pass' (place P t?))]
    [∀ t?, Progresses (pass t?)] [∀ t?, Progresses (pass' t?)] (t? : Option Tree) :
    Inline P (iterate id pass t?) (iterate id pass' (place P t?)) :=
  .iterate id pass pass' id (fun _ => rfl) t?

instance {pass pass' : Nat → Production (Pass Nat Nat)} [∀ n, Composed false (pass n)]
    [∀ n, Inline P (pass n) (pass' n)] [∀ n, Progresses (pass n)] [∀ n, Progresses (pass' n)]
    (n : Nat) : Inline P (iterate id pass n) (iterate id pass' n) := by
  have hpass (n : Nat) : Inline P (pass n) (pass' (place P n)) :=
    (inferInstance : Inline P (pass n) (pass' n))
  exact .iterate id pass pass' id (fun _ => rfl) n

instance {test test' : Production Bool} {body body' : Production Unit} [Composed false test]
    [Composed false body] [Inline P test test'] [Inline P body body'] (n : Nat) :
    Inline P (repeatWhileUpTo test body n) (repeatWhileUpTo test' body' n) := by
  induction n with
  | zero => unfold repeatWhileUpTo; infer_instance
  | succ n ih => unfold repeatWhileUpTo; infer_instance

instance {test test' : Production Bool} {body body' : Production Unit} [Composed false test]
    [Composed false body] [Inline P test test'] [Inline P body body'] [Guards test] [Guards test']
    [Advances body] [Advances body'] :
    Inline P (repeatWhile test body) (repeatWhile test' body') where
  agrees s hs hline := by
    obtain ⟨n, hn, hn'⟩ : ∃ n, s.stream.remaining < n ∧ (P.state s).stream.remaining < n :=
      ⟨max s.stream.remaining (P.state s).stream.remaining + 1, by omega, by omega⟩
    have hloop : Inline P (repeatWhileUpTo test body n) (repeatWhileUpTo test' body' n) :=
      inferInstance
    refine hloop.congr hs hline ?_ ?_
    · unfold repeatWhile
      rw [run_look_bind]
      exact repeatWhileUpTo_eq (Nat.lt_succ_self _) hn
    · unfold repeatWhile
      rw [run_look_bind]
      exact repeatWhileUpTo_eq (Nat.lt_succ_self _) hn'

end

/-! ## Looking ahead -/

section

variable {P : Placement}

instance : Inline P current current := .of_look fun _ _ h => h.current

instance : Inline P currentKind currentKind := .of_look fun _ _ h => by rw [h.current]; rfl

instance : Inline P next next := .of_look fun _ _ h => h.peekSignificant_zero

instance : Inline P nextKind nextKind := .of_look fun _ _ h => by rw [h.peekSignificant_zero]; rfl

instance (k : Kind) : Inline P (atCurrent k) (atCurrent k) := .of_look fun _ _ h => by
  rw [h.current]
  rfl

instance (k : Kind) : Inline P (atNext k) (atNext k) :=
  .of_look fun _ _ h => by rw [h.peekSignificant_zero]; rfl

instance : Inline P (look (·.current.kind.isInlineTrivia)) (look (·.current.kind.isInlineTrivia)) :=
  .of_look fun _ _ h => by rw [h.current]; rfl

/-- No look ahead ends at a sign of an access. -/
theorem not_endsLook_of_isAccessSign {k : Kind} (h : Lookahead.isAccessSign k = true) :
    ¬ EndsLook k := by
  rintro (rfl | rfl) <;> cases h

theorem not_endsLook_of_isNameLike {k : Kind} (h : k.isNameLike = true) : ¬ EndsLook k := by
  rintro (rfl | rfl) <;> cases h

theorem not_endsLook_keyword (k : Keyword) : ¬ EndsLook (.keyword k) := by
  rintro (h | h) <;> cases h

theorem not_endsLook_period : ¬ EndsLook (.lexeme .period) := by
  rintro (h | h) <;> cases h

/-- Only what stands in front of the line's end is looked past. -/
theorem and_eq_and_of_imp {a b c : Bool} (h : a = true → b = c) : (a && b) = (a && c) := by
  cases a with
  | false => rfl
  | true => exact h rfl

instance : Inline P atMemberAccess atMemberAccess :=
  .of_look fun s s' h => by
    rw [h.current]
    refine and_eq_and_of_imp fun hsign => ?_
    rw [h.peek_one (not_endsLook_of_isAccessSign hsign)]

instance : Inline P atQualifier atQualifier :=
  .of_look fun s s' h => by
    rw [h.current]
    refine and_eq_and_of_imp fun hsign => ?_
    rw [h.peek_one (by rw [beq_iff_eq.mp hsign]; exact not_endsLook_period)]

instance : Inline P atNamedArgument atNamedArgument :=
  .of_look fun s s' h => by
    rw [h.current]
    refine and_eq_and_of_imp fun hname => ?_
    have hnext : s.peekSignificant 0 = s.current := by
      refine TokenStream.peekSignificant_zero ?_
      revert hname
      cases s.current.kind <;> simp [Kind.isNameLike, Kind.isInlineTrivia]
    rw [h.peekSignificant_one (by rw [hnext]; exact not_endsLook_of_isNameLike hname)]

instance (spacedCall : Bool) : Inline P (atArguments spacedCall) (atArguments spacedCall) :=
  .of_look fun _ _ h => by rw [h.current, h.peekSignificant_zero]; rfl

instance : Inline P atArgumentSign atArgumentSign :=
  .of_look fun _ _ h => by rw [h.peekSignificant_zero]; rfl

instance : Inline P atLoopCondition atLoopCondition :=
  .of_look fun _ _ h => by rw [h.peekSignificant_zero]; rfl

instance : Inline P atProcedureHeader atProcedureHeader :=
  .of_look fun _ _ h => h.startsProcedure_eq

instance : Inline P (look fun s => Lookahead.modifiedKind s.rest)
    (look fun s => Lookahead.modifiedKind s.rest) := .of_look fun _ _ h => h.modifiedKind_eq

instance : Inline P (look Lookahead.startsAssignment) (look Lookahead.startsAssignment) :=
  .of_look fun _ _ h => h.startsAssignment_eq

end

/-! ## Tokens, contexts and failures -/

section

variable {P : Placement}

/-- A failure agrees with the one that is placed, unless it is of a closer missed at the end of the
source. -/
theorem Inline.of_fail (problem : Problem) (t : Token)
    (h : ¬ problem.IsMissedAtEnd) :
    Inline P (fail problem t) (fail (P.relocation.problem problem) (P.relocation.token t)) := by
  have hreport := Inline.of_report (P := P) problem t h
  unfold fail
  dsimp only
  infer_instance

instance (wanted : Wanted) (got t : Token) :
    Inline P (fail (.expected wanted got) t) (fail (.expected wanted (place P got)) (place P t)) :=
  .of_fail (.expected wanted got) t id

instance (got t : Token) :
    Inline P (fail (.leftover got) t) (fail (.leftover (place P got)) (place P t)) :=
  .of_fail (.leftover got) t id

instance (got t : Token) :
    Inline P (fail (.expectedCase got) t) (fail (.expectedCase (place P got)) (place P t)) :=
  .of_fail (.expectedCase got) t id

instance (access t : Token) :
    Inline P (fail (.memberOutsideWith access) t)
      (fail (.memberOutsideWith (place P access)) (place P t)) :=
  .of_fail (.memberOutsideWith access) t id

instance (named t : Token) :
    Inline P (fail (.unmatchedNext named) t)
      (fail (.unmatchedNext (place P named)) (place P t)) :=
  .of_fail (.unmatchedNext named) t id

instance (got t : Token) :
    Inline P (report (.unexpectedStart got) t)
      (report (.unexpectedStart (place P got)) (place P t)) :=
  .of_report (.unexpectedStart got) t id

instance (t : Token) : Inline P (report .secondElse t) (report .secondElse (place P t)) :=
  .of_report .secondElse t id

instance (t : Token) : Inline P (report .straySeparator t) (report .straySeparator (place P t)) :=
  .of_report .straySeparator t id

instance (written : Bytes) (closer : Closer) (t : Token) :
    Inline P (report (.unmatchedCloser written closer) t)
      (report (.unmatchedCloser written closer) (place P t)) :=
  .of_report (.unmatchedCloser written closer) t id

instance : Inline P skipBlanks skipBlanks := by unfold skipBlanks; infer_instance

instance : Inline P shiftNext shiftNext := by unfold shiftNext; infer_instance

instance (k : Kind) : Inline P (accept k) (accept k) := by unfold accept; infer_instance

instance (wanted : Wanted) : Inline P (failExpected wanted) (failExpected wanted) := by
  unfold failExpected
  infer_instance

instance (k : Kind) : Inline P (expect k) (expect k) := by unfold expect; infer_instance

instance : Inline P atStatementEnd atStatementEnd := by unfold atStatementEnd; infer_instance

instance : Inline P withinStatement withinStatement := by unfold withinStatement; infer_instance

instance : Inline P shiftRest shiftRest := by unfold shiftRest; infer_instance

instance : Inline P recover recover := by unfold recover; infer_instance

instance (item item' : Production Unit) [Composed false item] [Composed false item']
    [Inline P item item'] : Inline P (commaList item) (commaList item') := by
  unfold commaList
  infer_instance

end

end LosslessBasic.Grammar
