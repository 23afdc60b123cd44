import LosslessBasic.Proofs.Grammar.Carry

/-!
# Simple statements are read the same at another place

The statements that hold no other statements end with `finishStatement`, which moves the line break
that ends them. It is the last thing they do, so they agree wherever a text goes on behind them.
-/

namespace LosslessBasic.Grammar

set_option synthInstance.maxSize 65536

section

variable {P : Placement}

/-! ## The ends of statements -/

instance : Settles P State.Settled (pure ()) (pure ()) :=
  ⟨⟨fun _ _ h => ⟨rfl, fun hopen => (h hopen).1⟩⟩⟩

/-- The move of a line break, outside of a single-line `If`. -/
theorem carries_lineBreak :
    Carries P (fun s => s.Inside ∧ s.lineMode = 0)
      (do if ← atCurrent (.trivia .newline) then
            shift
            setSeparator .lineBreak)
      (do if ← atCurrent (.trivia .newline) then
            shift
            setSeparator .lineBreak)
      (fun _ => State.Settled) where
  carries s hs hpre := by
    have hkind : (P.state s).stream.current.kind = s.stream.current.kind := by
      rw [(hs.sameLine fun hopen => (hpre hopen).1.1).current]
    unfold Placement.Agrees atCurrent
    rw [run_look_bind, run_look_bind, hkind]
    split
    next hnewline =>
      have hshift := hs.agrees_shift fun hopen => (hpre hopen).1.1
      unfold Placement.Agrees at hshift
      have hend : s.stream.current.kind ≠ .lexeme .endOfFile := by
        rw [beq_iff_eq.mp hnewline]
        simp
      rw [run_bind, run_bind, hshift, run_shift hend]
      exact ⟨rfl, fun hopen _ => ⟨fun _ => rfl, (hpre hopen).1.2⟩⟩
    next => exact ⟨rfl, fun hopen => (hpre hopen).1.1.settled⟩

/-- Behind a comment the line break is moved, too. -/
theorem carries_shiftLineBreak :
    Carries P (fun s => s.Inside ∧ s.lineMode = 0) shiftLineBreak shiftLineBreak
      (fun _ => State.Settled) := by
  have hkind : Carries P (fun s => s.Inside ∧ s.lineMode = 0) currentKind currentKind
      (fun kind s => kind = s.stream.current.kind ∧ s.Inside ∧ s.lineMode = 0) :=
    .of_look (h := (inferInstance : Inline P currentKind currentKind)) fun _ h => h.1
  have hcomment (kind : Kind) (h : kind.isComment = true) :
      Carries P (fun s => kind = s.stream.current.kind ∧ s.Inside ∧ s.lineMode = 0) shift shift
        (fun _ s => s.Inside ∧ s.lineMode = 0) := by
    have hshift : Carries P (fun s => kind = s.stream.current.kind ∧ s.Inside) shift shift
        (fun _ => State.Inside) := by
      refine .of_inline fun s ⟨hcurrent, hinside⟩ => ⟨hinside, KeepsLineFromWord.keepsLine s ?_⟩
      rintro hnewline
      rw [hcurrent, hnewline] at h
      cases h
    refine (hshift.frame (c := fun s => s.lineMode = 0) fun s t h => h.lineMode.trans).weaken
      (fun s h => ⟨⟨h.1, h.2.1⟩, h.2.2⟩) fun _ _ h => h
  unfold shiftLineBreak
  refine hkind.bind fun kind => .ite (fun h => ?_) fun _ => ?_
  · exact (hcomment kind h).bind fun _ => carries_lineBreak
  · exact carries_lineBreak.weaken (fun _ h => h.2) fun _ _ h => h

instance : Settles P State.Inside finishStatement finishStatement := by
  have hbreak : Settles P State.Inside
      (do if (← get).lineMode == 0 then shiftLineBreak)
      (do if (← get).lineMode == 0 then shiftLineBreak) := by
    refine ⟨⟨fun s hs hpre => ?_⟩⟩
    have hbreak := (carries_shiftLineBreak (P := P)).carries s hs
    unfold Placement.Agrees at hbreak ⊢
    rw [run_bind, run_get] at hpre ⊢
    rw [run_bind, run_get]
    dsimp only at hpre ⊢
    split at hpre
    next hmode =>
      rw [if_pos hmode]
      exact hbreak fun hopen => ⟨⟨(hpre hopen).1, beq_iff_eq.mp hmode⟩, (hpre hopen).2⟩
    next hmode =>
      rw [if_neg hmode]
      exact ⟨rfl, fun hopen => (hpre hopen).1.settled⟩
  unfold finishStatement
  dsimp only
  infer_instance

instance (k : NodeKind) : Settles P State.InLine (rawStatement k) (rawStatement k) := by
  unfold rawStatement
  infer_instance

/-! ## Assignments and calls -/

instance : Settles P State.Inside assignment assignment := by unfold assignment; infer_instance

instance : Settles P State.Inside assignmentStatement assignmentStatement := by
  unfold assignmentStatement
  infer_instance

instance (k : NodeKind) : Settles P State.InLine (wordedAssignment k) (wordedAssignment k) := by
  unfold wordedAssignment
  infer_instance

instance : Settles P State.Inside call call := by unfold call; infer_instance

instance : Settles P State.Inside callStatement callStatement := by
  unfold callStatement
  infer_instance

instance : Settles P State.InLine callKeywordStatement callKeywordStatement := by
  unfold callKeywordStatement
  infer_instance

instance : Settles P State.InLine raiseEventStatement raiseEventStatement := by
  unfold raiseEventStatement
  infer_instance

instance (k : NodeKind) : Settles P State.InLine (wordStatement k) (wordStatement k) := by
  unfold wordStatement
  infer_instance

/-! ## Jumps -/

instance (k : NodeKind) : Settles P State.InLine (jumpStatement k) (jumpStatement k) := by
  unfold jumpStatement
  infer_instance

instance : Settles P State.InLine resumeStatement resumeStatement := by
  unfold resumeStatement
  infer_instance

instance : Settles P State.InLine exitStatement exitStatement := by
  unfold exitStatement
  infer_instance

instance : Settles P State.InLine onJumpStatement onJumpStatement := by
  unfold onJumpStatement
  infer_instance

/-- Moving a word brings what is behind it next. -/
theorem carries_shift_word :
    Carries P (fun s => s.OnWord ∧ (s.stream.peekSignificant 1).kind ≠ .trivia .newline) shift shift
      (fun _ => State.InLine) where
  carries s hs hs' := by
    have hshift : Carries P State.OnWord shift shift (fun _ => State.Inside) :=
      .of_inline fun s h => ⟨h.inside, h.inLine.keepsLine⟩
    obtain ⟨hagrees, hinside⟩ := hshift.carries s hs
      fun hopen => ⟨(hs' hopen).1.1, (hs' hopen).2⟩
    refine ⟨hagrees, fun hopen => ⟨hinside hopen, ?_⟩⟩
    have hword := (hs' hopen).1.1
    rw [run_shift hword.inside]
    change (s.stream.advance.peekSignificant 0).kind ≠ _
    rw [TokenStream.peekSignificant_advance_succ hword.1 (TokenStream.ahead_ne_nil hword.inside)]
    exact (hs' hopen).1.2

theorem carries_onErrorStatement :
    Carries P (fun s => s.OnWord ∧ (s.stream.peekSignificant 1).kind ≠ .trivia .newline)
      onErrorStatement onErrorStatement (fun _ => State.Settled) := by
  have hignores : IgnoresBuilder fun s : State =>
      s.OnWord ∧ (s.stream.peekSignificant 1).kind ≠ .trivia .newline := ⟨fun _ _ h => h⟩
  unfold onErrorStatement
  exact .within (carries_shift_word.bind fun _ => Settles.carries)

/-- On a word of the line, what is behind it is seen. -/
theorem carries_secondKind :
    Carries P State.OnWord secondKind secondKind
      (fun kind s => kind = (s.stream.peekSignificant 1).kind ∧ s.OnWord) :=
  .of_second (f := fun _ u => u.kind) (fun _ _ => rfl) fun s h => by
    rw [TokenStream.peekSignificant_zero h.1]
    exact h.2

instance : Settles P State.OnWord onStatement onStatement := by
  unfold onStatement
  refine ⟨carries_secondKind.bind fun kind => .ite (fun herror => ?_) fun _ => ?_⟩
  · refine carries_onErrorStatement.weaken (fun s h => ⟨h.2, ?_⟩) fun _ _ h => h
    rw [← h.1, beq_iff_eq.mp herror]
    simp
  · exact Settles.carries.weaken (fun _ h => h.2) fun _ _ h => h

/-! ## Statements that are not looked at -/

instance : Settles P State.OnWord lineStatement lineStatement := by
  unfold lineStatement
  refine ⟨carries_secondKind.bind fun kind => ?_⟩
  have hrest (kind : Kind) : Settles P State.OnWord
      (if kind == .keyword .input then rawStatement .lineInputStatement
        else do if ← look Lookahead.startsAssignment then assignmentStatement else callStatement)
      (if place P kind == .keyword .input then rawStatement .lineInputStatement
        else do if ← look Lookahead.startsAssignment then assignmentStatement else
          callStatement) := by
    rw [place_kind]
    infer_instance
  exact (hrest kind).carries.weaken (fun _ h => h.2) fun _ _ h => h

instance : Settles P State.InLine unknownStatement unknownStatement := by
  unfold unknownStatement
  infer_instance

instance : Settles P State.OnWord unexpectedStatement unexpectedStatement := by
  unfold unexpectedStatement
  dsimp only
  infer_instance

/-! ## Labels -/

/-- Whether a colon is at the cursor says whether something of the line is. -/
instance {p q p' q' : Production Unit} [Composed false p] [Composed false p']
    [hp : Settles P State.OnWord p q] [hp' : Settles P State.Inside p' q'] :
    Settles P State.Inside (atCurrent (.lexeme .colon) >>= fun b => if b then p else p')
      (atCurrent (.lexeme .colon) >>= fun b => if b then q else q') := by
  have hcolon : TestsWord Kind.IsNewline (atCurrent (.lexeme .colon)) := inferInstance
  refine ⟨(Carries.of_test hcolon.run_eq).bind fun b => .ite (fun hb => ?_) fun _ => ?_⟩
  · refine hp.carries.weaken (fun s h => ?_) fun _ _ h => h
    have hkind : s.stream.current.kind = .lexeme .colon := beq_iff_eq.mp (h.1.trans hb)
    unfold State.OnWord EndsLook
    rw [hkind]
    exact ⟨rfl, by simp⟩
  · exact hp'.carries.weaken (fun _ h => h.2) fun _ _ h => h

instance : Settles P State.InLine labelStatement labelStatement := by
  unfold labelStatement
  dsimp only
  infer_instance

/-! ## Declarations -/

instance : Settles P State.Inside dimStatement dimStatement := by
  unfold dimStatement
  infer_instance

instance : Settles P State.InLine reDimStatement reDimStatement := by
  unfold reDimStatement
  infer_instance

instance : Settles P State.InLine eraseStatement eraseStatement := by
  unfold eraseStatement
  infer_instance

instance : Settles P State.InLine implementsStatement implementsStatement := by
  unfold implementsStatement
  infer_instance

end

end LosslessBasic.Grammar
