import LosslessBasic.Proofs.Grammar.OneLine

/-!
# If and Select Case at another place

An `If` with its bodies, on one line or on several, and a `Select Case` with its clauses are read
the same when their statements are. Whether another body follows is looked at only where the closer
of the block, or a word that ends a body of it, is known to come next.
-/

namespace LosslessBasic.Grammar

set_option synthInstance.maxSize 65536

section

variable {P : Placement}

/-! ## On a single line -/

/-- Within a single-line `If`, away from the end of the text. -/
def State.OnOneLine (s : State) : Prop := s.Inside ∧ 0 < s.lineMode

instance : IgnoresBuilder State.OnOneLine := ⟨fun _ _ h => h⟩

/-- Being within a single-line `If` is the same behind every production. -/
theorem lineMode_pos_of_sameContext (s t : State) (h : s.SameContext t) (hs : 0 < s.lineMode) :
    0 < t.lineMode := by
  rwa [h.lineMode]

/-- In a single-line `If` no statement reaches the end of the text. -/
theorem Settles.onOneLine {pre : State → Prop} {p q : Production Unit} [Composed false p]
    (h : Settles P pre p q) :
    Carries P (fun s => pre s ∧ 0 < s.lineMode) p q (fun _ => State.OnOneLine) := by
  refine (h.carries.frame lineMode_pos_of_sameContext).weaken (fun _ h => h) fun _ s hs => ?_
  refine ⟨fun hend => ?_, hs.2⟩
  have := (hs.1 hend).2
  have := hs.2
  omega

/-- Looking at the kind at the cursor carries over. -/
theorem carries_currentKind {pre : State → Prop} (hpre : ∀ s, pre s → s.Inside) :
    Carries P pre currentKind currentKind (fun k s => k = s.stream.current.kind ∧ pre s) :=
  .of_look (h := (inferInstance : Inline P currentKind currentKind)) hpre

/-- What keeps a line together from a word on is read the same from this word on. -/
theorem Carries.of_word {p : Production Unit} [Inline P p p] [Composed false p]
    [KeepsLineFromWord p] :
    Carries P (fun s => s.OnOneLine ∧ s.stream.current.kind ≠ .trivia .newline) p p
      (fun _ => State.OnOneLine) := by
  have hline : Carries P (fun s => s.Inside ∧ s.stream.current.kind ≠ .trivia .newline) p p
      (fun _ => State.Inside) := .of_inline fun s h => ⟨h.1, KeepsLineFromWord.keepsLine s h.2⟩
  exact (hline.frame lineMode_pos_of_sameContext).weaken (fun _ h => ⟨⟨h.1.1, h.2⟩, h.1.2⟩)
    fun _ _ h => h

instance : Inline P secondElse secondElse := by unfold secondElse; infer_instance

instance : KeepsLineFromWord secondElse := by unfold secondElse; infer_instance

variable {statement : Production Unit} [Composed false statement]
  [hstatement : Settles P State.OnWord statement statement]

/-- A pass over an arm of a single-line `If` carries over. -/
theorem carries_inlinePass (endsAtElse : Bool) (u : Unit) :
    Carries P State.OnOneLine (inlinePass statement endsAtElse u)
      (inlinePass statement endsAtElse u)
      (Pass.Leads (fun _ => State.OnOneLine) fun _ => State.OnOneLine) := by
  have hgo {p q : Production Unit} {pre : State → Prop} [Composed false p]
      (h : Carries P pre p q fun _ => State.OnOneLine) :
      Carries P pre (p >>= fun _ => (pure (.again ()) : Production (Pass Unit Stop)))
        (q >>= fun _ => pure (.again ())) (Pass.Leads (fun _ => State.OnOneLine) fun _ =>
          State.OnOneLine) :=
    h.bind fun _ => .pure (a := Pass.again ()) fun _ h => h
  have hdone (stop : Stop) (hplaced : place P stop = stop) {pre : State → Prop}
      (hpre : ∀ s, pre s → s.OnOneLine) :
      Carries P pre (pure (.done stop) : Production (Pass Unit Stop)) (pure (.done stop))
        (Pass.Leads (fun _ => State.OnOneLine) fun _ => State.OnOneLine) := by
    have hpure : Carries P pre (pure (.done stop) : Production (Pass Unit Stop))
        (pure (.done (place P stop))) (Pass.Leads (fun _ => State.OnOneLine) fun _ =>
          State.OnOneLine) :=
      .pure (a := Pass.done stop) hpre
    rwa [hplaced] at hpure
  unfold inlinePass
  refine (carries_currentKind fun _ h => h.1).bind fun kind => .ite (fun hend => ?_) fun _ =>
    .ite (fun _ => ?_) fun hline => .ite (fun hblank => ?_) fun hblank =>
      .ite (fun hcolon => ?_) fun _ =>
        .ite (fun helse => .ite (fun _ => ?_) fun _ => ?_) fun _ => ?_
  · by_cases hopen : P.IsOpen
    · refine ⟨fun s _ hs' => ?_⟩
      obtain ⟨rfl, hinside, -⟩ := (hs' hopen).1
      exact absurd (beq_iff_eq.mp hend) hinside
    · exact hdone _ (P.stop_eq (P.header?_eq_none hopen) _) fun _ h => h.2
  · exact hdone _ rfl fun _ h => h.2
  · refine hgo (Carries.of_word.weaken (fun s h => ⟨h.2, fun hnewline => ?_⟩) fun _ _ h => h)
    rw [h.1, hnewline] at hblank
    cases hblank
  · refine hgo (Carries.of_word.weaken (fun s h => ⟨h.2, fun hnewline => ?_⟩) fun _ _ h => h)
    rw [h.1, hnewline] at hcolon
    cases hcolon
  · exact hdone _ rfl fun _ h => h.2
  · refine hgo (Carries.of_word.weaken (fun s h => ⟨h.2, fun hnewline => ?_⟩) fun _ _ h => h)
    rw [h.1, hnewline] at helse
    cases helse
  · refine hgo (hstatement.onOneLine.weaken (fun s h => ⟨?_, h.2.2⟩) fun _ _ h => h)
    refine State.onWord_of_not_isTrivia ?_ h.2.1
    rw [← h.1]
    -- every kind of trivia has been looked for
    cases kind with
    | trivia k => cases k <;> first | exact absurd rfl hline | exact absurd rfl hblank
    | _ => rfl

theorem carries_inlineStatements [Advances statement] (endsAtElse : Bool) :
    Carries P State.OnOneLine (inlineStatements statement endsAtElse)
      (inlineStatements statement endsAtElse) (fun _ => State.OnOneLine) := by
  have hseparator : Carries P State.OnOneLine (setSeparator .none) (setSeparator .none)
      (fun _ => State.OnOneLine) := ⟨fun _ _ h => ⟨rfl, fun hopen => (h hopen).1⟩⟩
  unfold inlineStatements
  exact hseparator.bind fun _ => Carries.iterate (carries_inlinePass endsAtElse) ()

/-- An arm of a single-line `If`. -/
theorem carries_inlineArm [Advances statement] (endsAtElse : Bool) :
    Carries P State.OnOneLine (inlineArm statement endsAtElse) (inlineArm statement endsAtElse)
      (fun _ => State.OnOneLine) := by
  have hjump : Settles P State.Inside
      (do if ← atNext (.lexeme .integerLiteral) then lineNumberJump)
      (do if ← atNext (.lexeme .integerLiteral) then lineNumberJump) := by
    unfold lineNumberJump
    infer_instance
  have hbody : Carries P State.OnOneLine
      ((do if ← atNext (.lexeme .integerLiteral) then lineNumberJump) >>= fun _ =>
        inlineStatements statement endsAtElse >>= fun _ => pure ())
      ((do if ← atNext (.lexeme .integerLiteral) then lineNumberJump) >>= fun _ =>
        inlineStatements statement endsAtElse >>= fun _ => pure ())
      (fun _ => State.OnOneLine) :=
    hjump.onOneLine.bind fun _ => (carries_inlineStatements endsAtElse).bind fun _ =>
      .pure (a := ()) fun _ h => h
  have harm : inlineArm statement endsAtElse = within .statementList
      ((do if ← atNext (.lexeme .integerLiteral) then lineNumberJump) >>= fun _ =>
        inlineStatements statement endsAtElse >>= fun _ => pure ()) := by
    unfold inlineArm
    simp only [bind_assoc]
    refine congrArg _ (congrArg _ (funext fun isNumber => ?_))
    cases isNumber
    · simp only [Bool.false_eq_true, if_false, pure_bind]
    · simp only [if_true]
  rw [harm]
  exact hbody.within

theorem carries_inlineArms [Advances statement] :
    Carries P State.OnOneLine (inlineArms statement) (inlineArms statement)
      (fun _ => State.OnOneLine) := by
  have helse : Carries P State.OnOneLine (atNext (.keyword .else_)) (atNext (.keyword .else_))
      (fun b s => b = ((s.stream.peekSignificant 0).kind == .keyword .else_) ∧ s.OnOneLine) :=
    .of_look (h := (inferInstance : Inline P (atNext _) (atNext _))) fun _ h => h.1
  have hblanks : Carries P (fun s => s.InLine ∧ 0 < s.lineMode) skipBlanks skipBlanks
      (fun _ s => s.OnWord ∧ 0 < s.lineMode) := Carries.skipBlanks.frame lineMode_pos_of_sameContext
  have harm : Carries P (fun s => s.OnWord ∧ 0 < s.lineMode) (do shift; inlineArm statement false)
      (do shift; inlineArm statement false) (fun _ => State.OnOneLine) := by
    refine .bind (Carries.of_word.weaken (fun s h => ?_) fun _ _ h => h) fun _ =>
      carries_inlineArm false
    exact ⟨⟨h.1.inside, h.2⟩, fun hnewline => h.1.2 (.inl hnewline)⟩
  have hignores : IgnoresBuilder fun s : State => s.OnWord ∧ 0 < s.lineMode := ⟨fun _ _ h => h⟩
  unfold inlineArms
  refine (carries_inlineArm true).bind fun _ => helse.bind fun b => .ite (fun hb => ?_) fun _ => ?_
  · refine (hblanks.weaken (fun s h => ⟨⟨h.2.1, ?_⟩, h.2.2⟩) fun _ _ h => h).bind
      fun _ => harm.within
    rw [beq_iff_eq.mp (h.1.symm.trans hb)]
    simp
  · exact .pure (a := ()) fun _ h => h.2

/-- What is read within a single-line `If` leaves the line open. Where a header follows, that has to
be known. -/
theorem Carries.onOneLine {p q : Production Unit}
    (h : Carries P State.OnOneLine p q fun _ => State.OnOneLine) :
    Carries P (fun s => s.Inside ∧
        (P.header? ≠ none → (p.run { s with lineMode := s.lineMode + 1 }).2.Inside))
      (onOneLine p) (onOneLine q) (fun _ => State.Inside) where
  carries s hs hs' := by
    obtain ⟨hagrees, hafter⟩ := h.carries { s with lineMode := s.lineMode + 1 }
      ⟨hs.sound, hs.endsInBreak⟩ fun hopen => by
        obtain ⟨⟨hinside, harms⟩, hpermits⟩ := hs' hopen
        exact ⟨⟨hinside, Nat.succ_pos _⟩, hpermits.closed, hpermits.regular,
          fun hne hend => absurd hend (harms hne), hpermits.inProcedure⟩
    refine ⟨?_, fun hopen => (hafter hopen).1⟩
    unfold Placement.Agrees at hagrees ⊢
    rw [run_onOneLine]
    exact congrArg (fun r : Unit × State =>
      (r.1, { r.2 with lineMode := r.2.lineMode - 1 })) hagrees

/-- A single-line `If` behind its header. -/
theorem carries_singleLineIf [Advances statement] :
    Carries P (fun s => s.Inside ∧ (P.header? ≠ none →
        ((inlineArms statement).run { s with lineMode := s.lineMode + 1 }).2.Inside))
      (singleLineIf statement) (singleLineIf statement) (fun _ => State.Settled) := by
  have hfinish : Settles P State.Inside finishStatement finishStatement := inferInstance
  unfold singleLineIf
  exact carries_inlineArms.onOneLine.bind fun _ => hfinish.carries

/-! ## On several lines -/

/-- A test of what comes next counts only where the closer of the block, or the end of a body of it,
comes next. -/
theorem Carries.of_ownCloser {α : Type} [Placeable α] {block : Block} {stop : Stop}
    {c : State → Prop}
    {f : Kind → Bool} {p q p' q' : Production α} {post : α → State → Prop} [Composed false p]
    [Composed false p']
    (hp : stop = .ownCloser → Carries P (fun s => s.OnCloser block ∧
      f (s.stream.peekSignificant 0).kind = true) p q post)
    (hp' : Carries P (fun s => State.Behind block stop s ∧
      (stop = .ownCloser → c s ∧ f (s.stream.peekSignificant 0).kind = false)) p' q' post) :
    Carries P (fun s => State.Behind block stop s ∧ (stop = .ownCloser → c s))
      (look (fun s => f (s.peekSignificant 0).kind) >>= fun b =>
        if (stop == .ownCloser && b) = true then p else p')
      (look (fun s => f (s.peekSignificant 0).kind) >>= fun b =>
        if (place P stop == .ownCloser && b) = true then q else q') post := by
  rw [place_stop_beq_ownCloser]
  by_cases hown : stop = .ownCloser
  · have htest : Inline P (look fun s => f (s.peekSignificant 0).kind)
        (look fun s => f (s.peekSignificant 0).kind) :=
      .of_look fun _ _ h => by rw [h.peekSignificant_zero]; rfl
    have hlook : Carries P (fun s => State.Behind block stop s ∧ (stop = .ownCloser → c s))
        (look fun s => f (s.peekSignificant 0).kind) (look fun s => f (s.peekSignificant 0).kind)
        (fun b s => b = f (s.stream.peekSignificant 0).kind ∧ State.Behind block stop s ∧
          (stop = .ownCloser → c s)) := .of_look fun _ h => (h.1.2 hown).inLine.1
    refine hlook.bind fun b => .ite (fun hb => ?_) fun hb => ?_
    · refine (hp hown).weaken (fun s h => ⟨h.2.1.2 hown, ?_⟩) fun _ _ h => h
      rw [← h.1, (Bool.and_eq_true_iff.mp hb).2]
    · refine hp'.weaken (fun s h => ⟨h.2.1, fun _ => ⟨h.2.2 hown, ?_⟩⟩) fun _ _ h => h
      rw [← h.1]
      simpa [hown] using hb
  · -- the body has ended in another way, so that it makes no difference what comes next
    have hrun (p p' : Production α) (s : State) :
        (look (fun s => f (s.peekSignificant 0).kind) >>= fun b =>
        if (stop == .ownCloser && b) = true then p else p').run s = p'.run s := by
      rw [run_look_bind, if_neg (by simp [hown])]
    refine ⟨fun s hs hs' => ?_⟩
    unfold Placement.Agrees
    rw [hrun] at hs' ⊢
    rw [hrun]
    exact hp'.carries s hs fun hopen => ⟨⟨(hs' hopen).1.1, fun h => absurd h hown⟩, (hs' hopen).2⟩

variable [Advances statement]

theorem carries_elseIfPass (stop : Stop) :
    Carries P (State.Behind .if_ stop) (elseIfPass statement stop)
      (elseIfPass statement (place P stop))
      (Pass.Leads (State.Behind .if_) fun stop s => State.Behind .if_ stop s ∧
        (stop = .ownCloser → (s.stream.peekSignificant 0).kind ≠ .keyword .elseIf)) := by
  have hheader :
      Settles P State.InLine (do ifHeader; finishStatement) (do ifHeader; finishStatement) :=
    inferInstance
  have hclause : Carries P State.InLine
      (within .elseIfClause ((do ifHeader; finishStatement) >>= fun _ => blockBody statement .if_))
      (within .elseIfClause ((do ifHeader; finishStatement) >>= fun _ => blockBody statement .if_))
      (State.Behind .if_) := .within (hheader.carries.bind fun _ => carries_blockBody .if_)
  rw [bind_assoc] at hclause
  unfold elseIfPass atNext
  refine (Carries.of_ownCloser (f := (· == .keyword .elseIf)) (c := fun _ => True)
    (fun _ => ?_) ?_).weaken
    (fun _ h => ⟨h, fun _ => trivial⟩) fun _ _ h => h
  · refine (hclause.weaken (fun s h => h.1.inLine) fun _ _ h => h).bind fun stop => ?_
    exact .pure (a := Pass.again stop) fun _ h => h
  · refine .pure (a := Pass.done stop) fun s h => ⟨h.1, fun hstop => ?_⟩
    exact beq_eq_false_iff_ne.mp (h.2 hstop).2

/-- Where no further body of an `If` comes next. -/
def State.BehindBodies (stop : Stop) (s : State) : Prop :=
  State.Behind .if_ stop s ∧
    (stop = .ownCloser → (s.stream.peekSignificant 0).kind ≠ .keyword .elseIf ∧
    (s.stream.peekSignificant 0).kind ≠ .keyword .else_)

instance (stop : Stop) : IgnoresBuilder (State.BehindBodies stop) := ⟨fun _ _ h => h⟩

theorem carries_elseBodyPass (stop : Stop) :
    Carries P (State.Behind .if_ stop) (elseBodyPass statement stop)
      (elseBodyPass statement (place P stop))
      (Pass.Leads (State.Behind .if_) State.BehindBodies) := by
  have hstray : Settles P State.InLine (strayCloser { block := .if_, isSegment := true })
      (strayCloser { block := .if_, isSegment := true }) := inferInstance
  unfold elseBodyPass atElse
  refine (Carries.of_ownCloser (f := fun k => k == .keyword .else_ || k == .keyword .elseIf)
    (c := fun _ => True) (fun _ => ?_) ?_).weaken (fun _ h => ⟨h, fun _ => trivial⟩) fun _ _ h => h
  · refine (hstray.carries.weaken (fun s h => h.1.inLine) fun _ _ h => h).bind fun _ => ?_
    refine (carries_blockBody .if_).bind fun stop => ?_
    exact .pure (a := Pass.again stop) fun _ h => h
  · refine .pure (a := Pass.done stop) fun s h => ⟨h.1, fun hstop => ?_⟩
    obtain ⟨helse, helseIf⟩ := Bool.or_eq_false_iff.mp (h.2 hstop).2
    exact ⟨beq_eq_false_iff_ne.mp helseIf, beq_eq_false_iff_ne.mp helse⟩

/-- The `Else` body. -/
theorem carries_elseClause :
    Carries P State.InLine (elseClause statement) (elseClause statement) State.BehindBodies := by
  have hheader :
      Settles P State.InLine (do shiftNext; finishStatement) (do shiftNext; finishStatement) :=
    inferInstance
  have hbodies (stop : Stop) : Carries P (State.Behind .if_ stop)
      (iterate id (elseBodyPass statement) stop)
      (iterate id (elseBodyPass statement) (place P stop))
      State.BehindBodies := Carries.iterate carries_elseBodyPass stop
  have hclause := hheader.carries.bind (g := fun _ => blockBody statement .if_ >>= fun stop =>
    iterate id (elseBodyPass statement) stop) fun _ => (carries_blockBody .if_).bind hbodies
  rw [bind_assoc] at hclause
  unfold elseClause
  exact hclause.within

theorem carries_ifBodies :
    Carries P State.Settled (ifBodies statement) (ifBodies statement) State.BehindBodies := by
  have hbodies (stop : Stop) : Carries P (State.Behind .if_ stop)
      (iterate id (elseIfPass statement) stop) (iterate id (elseIfPass statement) (place P stop))
      (fun stop s => State.Behind .if_ stop s ∧
        (stop = .ownCloser → (s.stream.peekSignificant 0).kind ≠ .keyword .elseIf)) :=
    Carries.iterate carries_elseIfPass stop
  unfold ifBodies atNext
  refine (carries_blockBody .if_).bind fun stop => (hbodies stop).bind fun stop => ?_
  refine .of_ownCloser (f := (· == .keyword .else_)) (fun _ => ?_) ?_
  · exact carries_elseClause.weaken (fun _ h => h.1.inLine) fun _ _ h => h
  · refine .pure (a := stop) fun s h => ⟨h.1, fun hstop => ⟨(h.2 hstop).1, ?_⟩⟩
    exact beq_eq_false_iff_ne.mp (h.2 hstop).2

omit hstatement [Advances statement] in
instance : Composed false (ifBodies statement) := by unfold ifBodies; infer_instance

/-- The block form of an `If`. -/
instance : Settles P State.Inside (blockIf statement) (blockIf statement) := by
  have hfinish : Settles P State.Inside finishStatement finishStatement := inferInstance
  have hclose : Settles P State.OnPair closeBlock closeBlock := inferInstance
  have hend (stop : Stop) :
      Carries P (State.BehindBodies stop) (blockEnd stop) (blockEnd (place P stop))
      (fun _ => State.Settled) := by
    unfold blockEnd
    refine carries_ownCloser (hclose.carries.weaken (fun s h => h.1.onPair fun first hfirst => ?_)
      fun _ _ h => h)
    simp only [List.mem_cons, Prod.mk.injEq, reduceCtorEq, false_and, true_and, List.not_mem_nil,
      or_false, false_or] at hfirst
    obtain rfl | rfl := hfirst
    · exact h.2.2
    · exact h.2.1
  rw [blockIf_eq]
  exact ⟨hfinish.carries.bind fun _ => carries_ifBodies.bind hend⟩

/-- Whether an `If` has the block form, behind its header. -/
def State.startsBlockIf (s : State) : Bool :=
  s.recovering || (s.stream.peekSignificant 0).kind == .trivia .newline ||
    (s.stream.peekSignificant 0).kind == .lexeme .endOfFile ||
      (s.stream.peekSignificant 0).kind.isComment

/-- What follows the header of an `If`. -/
def ifRest (statement : Production Unit) : Production Unit := do
  let failed := (← get).recovering
  let kind ← nextKind
  if failed || kind == .trivia .newline || kind == .lexeme .endOfFile || kind.isComment then
    blockIf statement
  else singleLineIf statement

omit hstatement [Composed false statement] [Advances statement] in
/-- Behind `Then` it is decided by what follows on the line which sort of `If` is read. -/
theorem run_ifRest (s : State) : (ifRest statement).run s =
    if s.startsBlockIf then (blockIf statement).run s else (singleLineIf statement).run s := by
  unfold ifRest nextKind
  rw [run_bind, run_get, run_look_bind]
  unfold State.startsBlockIf
  split <;> rfl

omit hstatement [Advances statement] in
instance : Composed false (ifRest statement) := by
  unfold ifRest
  dsimp only
  infer_instance

/-- What follows the header of an `If` is read the same, unless the arms of a single-line `If` end
the text. -/
theorem carries_ifRest :
    Carries P (fun s => s.Inside ∧ (P.header? ≠ none → s.startsBlockIf = false →
        ((inlineArms statement).run { s with lineMode := s.lineMode + 1 }).2.Inside))
      (ifRest statement) (ifRest statement) (fun _ => State.Settled) where
  carries s hs hs' := by
    have hblock : Settles P State.Inside (blockIf statement) (blockIf statement) := inferInstance
    have hsame : (P.state s).startsBlockIf = s.startsBlockIf := by
      unfold State.startsBlockIf
      rw [(hs.sameLine fun hopen => (hs' hopen).1.1).peekSignificant_zero]
    by_cases hform : s.startsBlockIf = true
    · have hrun {t : State} (ht : t.startsBlockIf = true) :
          (ifRest statement).run t = (blockIf statement).run t := by rw [run_ifRest, if_pos ht]
      exact hblock.carries.congr hs (fun hopen => ⟨(hs' hopen).1.1, (hs' hopen).2⟩) (hrun hform)
        (hrun (hsame.trans hform))
    · have hrun {t : State} (ht : ¬ t.startsBlockIf = true) :
          (ifRest statement).run t = (singleLineIf statement).run t := by rw [run_ifRest, if_neg ht]
      refine carries_singleLineIf.congr hs (fun hopen => ?_) (hrun hform) (hrun (by rwa [hsame]))
      obtain ⟨⟨hinside, harms⟩, hpermits⟩ := hs' hopen
      exact ⟨⟨hinside, fun hne => harms hne (Bool.not_eq_true _ ▸ hform)⟩, hpermits⟩

instance : Settles P State.InLine (ifStatement statement) (ifStatement statement) := by
  have hheader : Carries P State.InLine ifHeader ifHeader (fun _ => State.Inside) :=
    .of_inline fun _ h => ⟨h.1, h.keepsLine⟩
  have hif : ifStatement statement =
      within .ifStatement (ifHeader >>= fun _ => ifRest statement) := rfl
  have hbody := (hheader.frame_run (c := fun s => P.header? ≠ none → s.startsBlockIf = false →
    ((inlineArms statement).run { s with lineMode := s.lineMode + 1 }).2.Inside)).bind
      (f := fun _ => ifRest statement) (g := fun _ => ifRest statement) fun _ => carries_ifRest
  rw [hif]
  refine ⟨.of_permits (fun s hs hopen hline hpermits hne hform => ?_) hbody.within_opening⟩
  -- the arms of a single-line `If` do not reach the end of a regular text
  have hcomposed : Composed false ifHeader := inferInstance
  have hregular := hpermits.regular hne
  rw [run_within, run_bind] at hregular
  dsimp only at hregular
  rw [run_ifRest, if_neg (by rw [hform]; exact Bool.false_ne_true)] at hregular
  have hinside : (ifHeader.run (s.opening .ifStatement)).2.Inside :=
    Placement.Admits.not_atEnd (s := s.opening .ifStatement) ⟨hs.sound, hs.endsInBreak⟩
      hopen hline.1
      hcomposed (State.InLine.keepsLine (s := s.opening .ifStatement) hline)
  refine inside_inlineArms hs.sound (hs.endsInBreak hopen) rfl ?_ hinside hregular
  unfold State.startsBlockIf at hform
  simp only [Bool.or_eq_false_iff] at hform
  exact hform.1.1.1

/-! ## Select Case -/

/-- A clause, in front of its words. -/
theorem carries_caseClause :
    Carries P (fun s => ¬ EndsLook (s.stream.peekSignificant 0).kind) (caseClause statement)
      (caseClause statement) (State.Behind .select) := by
  -- two words of the closer are moved here, so both have to be known to stand on the line
  have helse : Carries P (fun s => (true = ((s.stream.peekSignificant 0).kind == .keyword .case &&
        (s.stream.peekSignificant 1).kind == .keyword .else_)) ∧
        ¬ EndsLook (s.stream.peekSignificant 0).kind)
      (do setRecovering false; shiftNext; shiftNext; finishStatement)
      (do setRecovering false; shiftNext; shiftNext; finishStatement) (fun _ => State.Settled) := by
    have hrecovering : Carries P State.OnPair (setRecovering false) (setRecovering false)
        (fun _ => State.OnPair) := ⟨fun _ _ h => ⟨rfl, fun hopen => (h hopen).1⟩⟩
    have hrest :
        Settles P State.InLine (do shiftNext; finishStatement) (do shiftNext; finishStatement) :=
      inferInstance
    refine (hrecovering.bind fun _ => carries_shiftNext_pair.bind fun _ => hrest.carries).weaken
      (fun s h => ?_) fun _ _ h => h
    obtain ⟨hfirst, hsecond⟩ := Bool.and_eq_true_iff.mp h.1.symm
    unfold State.OnPair
    rw [beq_iff_eq.mp hfirst, beq_iff_eq.mp hsecond]
    exact ⟨not_endsLook_keyword _, not_endsLook_keyword _⟩
  have htests : Settles P State.InLine
      (do setRecovering false; shiftNext; commaList caseTest; finishStatement)
      (do setRecovering false; shiftNext; commaList caseTest; finishStatement) := inferInstance
  have hbody (k : NodeKind) {pre : State → Prop} [IgnoresBuilder pre] {p : Production Unit}
      [Composed false p] (h : Carries P pre p p fun _ => State.Settled) :
      Carries P pre (within k (p >>= fun _ => blockBody statement .select))
        (within k (p >>= fun _ => blockBody statement .select)) (State.Behind .select) :=
    .within (h.bind fun _ => carries_blockBody .select)
  unfold caseClause
  refine (Carries.of_second (f := fun t u => t.kind == .keyword .case && u.kind == .keyword .else_)
    (fun _ _ => rfl) fun _ h => h).bind fun isElse => ?_
  cases isElse with
  | true =>
    have hignores : IgnoresBuilder fun s : State => (true = ((s.stream.peekSignificant 0).kind ==
        .keyword .case && (s.stream.peekSignificant 1).kind == .keyword .else_)) ∧
        ¬ EndsLook (s.stream.peekSignificant 0).kind := ⟨fun _ _ h => h⟩
    have hclause := hbody .caseElseClause helse
    simp only [bind_assoc] at hclause
    exact hclause
  | false =>
    have hclause := hbody .caseClause htests.carries
    simp only [bind_assoc] at hclause
    refine hclause.weaken (fun s h => ⟨fun hend => ?_, fun hnewline => ?_⟩) fun _ _ h => h
    · exact h.2 (.inr (kind_peekSignificant_of_atEnd hend))
    · exact h.2 (.inl hnewline)

/-- What follows a clause of a `Select` carries over. -/
theorem carries_afterClause (stop : Stop) :
    Carries P (State.Behind .select stop) (afterClause stop) (afterClause (place P stop))
      LeadsOn := by
  have hplaced : (place P stop != .ownCloser) = (stop != .ownCloser) :=
    congrArg (!·) (place_stop_beq_ownCloser P stop)
  have hclose : Settles P State.OnPair closeBlock closeBlock := inferInstance
  have hend : Carries P (State.OnCloser .select) (atNext (.keyword .end_)) (atNext (.keyword .end_))
      (fun b s => b = ((s.stream.peekSignificant 0).kind == .keyword .end_) ∧ s.OnCloser .select) :=
    .of_look (h := (inferInstance : Inline P (atNext _) (atNext _))) fun _ h => h.inLine.1
  unfold afterClause
  rw [hplaced]
  refine .ite (fun _ => ?_) fun hstop => ?_
  · exact .pure (a := Pass.done ()) fun _ h => h.1
  · obtain rfl : stop = .ownCloser := by simpa using hstop
    refine (hend.weaken (fun _ h => h.2 rfl) fun _ _ h => h).bind fun b =>
      .ite (fun hb => ?_) fun _ => ?_
    · refine hclose.done.weaken (fun s h => h.2.onPair fun first hfirst hkind => ?_) fun _ _ h => h
      have hend := beq_iff_eq.mp (h.1.symm.trans hb)
      rw [hkind] at hend
      subst hend
      simp at hfirst
    · exact .pure (a := Pass.again ()) fun _ _ => trivial

instance : Settles P State.OnWord strayCaseLine strayCaseLine := by
  unfold strayCaseLine
  infer_instance

/-- What moves no token leads to where it starts on the line. -/
theorem carries_still {α : Type} [Placeable α] {p : Production α} [Inline P p p] [Still p] :
    Carries P State.OnWord p p (fun _ => State.OnWord) :=
  .of_still (fun _ h => h.inside) fun s t heq h => by
    unfold State.OnWord at h ⊢
    rwa [heq]

/-- A closer within a `Select` carries over. -/
theorem carries_selectCloserPass (closer : Closer) :
    Carries P
      (fun s => s.OnWord ∧ Closer.ofKinds? (s.stream.peekSignificant 0).kind
        (s.stream.peekSignificant 1).kind = some closer)
      (selectCloserPass statement closer) (selectCloserPass statement closer) LeadsOn := by
  have hstray : Settles P State.OnWord (strayCloser closer) (strayCloser closer) := inferInstance
  unfold selectCloserPass
  refine .ite (fun hblock => .ite (fun _ => ?_) fun _ => ?_) fun _ => ?_
  · refine (carries_caseClause.weaken (fun s h => ?_) fun _ _ h => h).bind carries_afterClause
    rw [TokenStream.peekSignificant_zero h.1.1]
    exact h.1.2
  · exact (carries_afterClause .ownCloser).weaken
      (fun s h => ⟨h.1.inside.settled, fun _ => ⟨closer, h.2, beq_iff_eq.mp hblock⟩⟩) fun _ _ h => h
  · refine (carries_still.weaken (fun _ h => h.1) fun _ _ h => h).bind fun isOpen =>
      .ite (fun _ => ?_) fun _ => ?_
    · exact (carries_current fun _ h => h.inside).bind fun t =>
        carries_missingCloser_done .select fun _ h => ⟨h.1, h.2.inside⟩
    · exact hstray.carries.bind fun _ => .pure (a := Pass.again ()) fun _ _ => trivial

/-- Whether a line of a `Select` starts with a closer carries over. -/
theorem carries_closerOrLinePass (closer? : Option Closer) :
    Carries P
      (fun s => closer? = Closer.ofKinds? (s.stream.peekSignificant 0).kind
        (s.stream.peekSignificant 1).kind ∧ s.OnWord)
      (closerOrLinePass statement closer?) (closerOrLinePass statement closer?) LeadsOn := by
  cases closer? with
  | some closer =>
    unfold closerOrLinePass
    exact (carries_selectCloserPass closer).weaken (fun _ h => ⟨h.2, h.1.symm⟩) fun _ _ h => h
  | none =>
    have hline : Settles P State.OnWord strayCaseLine strayCaseLine := inferInstance
    unfold closerOrLinePass
    refine (carries_still.weaken (fun _ h => h.2) fun _ _ h => h).bind fun _ =>
      carries_still.bind fun _ =>
      .ite (fun _ => ?_) fun _ => ?_
    · exact (carries_current fun _ h => h.inside).bind fun t =>
        carries_missingCloser_done .select fun _ h => ⟨h.1, h.2.inside⟩
    · exact hline.carries.bind fun _ => .pure (a := Pass.again ()) fun _ _ => trivial

/-- A step through the clauses, up to the closer of the block. -/
theorem carries_selectPass (u : Unit) :
    Carries P (fun _ => True) (selectPass statement u) (selectPass statement u) LeadsOn := by
  have hcloser : Carries P State.OnWord nextCloser? nextCloser?
      (fun closer? s => closer? = Closer.ofKinds? (s.stream.peekSignificant 0).kind
        (s.stream.peekSignificant 1).kind ∧ s.OnWord) :=
    .of_second (f := fun t u => Closer.ofKinds? t.kind u.kind) (fun _ _ => rfl) fun s h => by
      rw [TokenStream.peekSignificant_zero h.1]
      exact h.2
  unfold selectPass
  refine carries_lines (fun k => k.isTrivia || k == .lexeme .colon) (fun _ => inferInstance)
    (fun k hk => (Bool.or_eq_false_iff.mp hk).1) (fun header _ s _ hat hblocks => ?_) fun t _ => ?_
  · refine ⟨Bool.or_eq_false_iff.mpr ⟨hat.solid, hat.kind_ne_of_not_mem (by simp)⟩, ?_⟩
    have hnone : nextCloser?.run (P.state s) = (none, P.state s) := by
      change (Closer.ofKinds? ((P.state s).stream.peekSignificant 0).kind _, P.state s) = _
      rw [hat.peekSignificant_zero, hat.ofKinds?_eq_none]
    have hinside : insideProcedure.run (P.state s) = (true, P.state s) :=
      congrArg (fun b => (b, P.state s)) hblocks
    have hheader : atProcedureHeader.run (P.state s) = (true, P.state s) :=
      congrArg (fun b => (b, P.state s)) hat.starts
    rw [run_bind, hnone]
    unfold closerOrLinePass current
    rw [run_bind, hinside, run_bind, hheader]
    dsimp only
    rw [Bool.and_self, if_pos rfl, run_look_bind, hat.current]
    rfl
  exact (hcloser.weaken (fun _ h => h.1.2) fun _ _ h => h).bind carries_closerOrLinePass

instance : Settles P State.OnWord (selectStatement statement) (selectStatement statement) := by
  have hclauses : Settles P State.Settled (iterate (fun _ => ()) (selectPass statement) ())
      (iterate (fun _ => ()) (selectPass statement) ()) :=
    ⟨(Carries.iterate carries_selectPass ()).weaken (fun _ _ => trivial) fun _ _ h => h⟩
  unfold selectStatement
  infer_instance

end

end LosslessBasic.Grammar
