import LosslessBasic.Proofs.Grammar.Settle

/-!
# Declarations and their members at another place

Declarations behind modifiers are read the same because the look-ahead that tells them has seen the
word behind the modifiers. The members of a type or of an enumeration go on over line breaks up to
their closer; a text that ends before it leaves their block open.
-/

namespace LosslessBasic.Grammar

set_option synthInstance.maxSize 65536

section

variable {P : Placement}

/-! ## Modifiers -/

/-- In front of a word of the line, modifiers apart. -/
def State.OnDeclarator (s : State) : Prop := ¬ EndsLook (Lookahead.modifiedKind s.stream.rest)

instance : IgnoresBuilder State.OnDeclarator := ⟨fun _ _ h => h⟩

theorem State.OnDeclarator.inside {s : State} (h : s.OnDeclarator) : s.Inside := by
  intro hend
  refine h (.inr ?_)
  unfold Lookahead.modifiedKind Lookahead.afterModifiers
  rw [TokenStream.rest, List.dropWhile_cons_of_neg (by rw [hend]; decide)]
  exact hend

/-- What modifiers and blanks are in front does not matter. -/
theorem modifiedKind_shifted {s : State} (hend : ¬ s.AtEnd)
    (h : (s.stream.current.kind.isInlineTrivia || Lookahead.isModifier s.stream.current.kind) =
      true) :
    Lookahead.modifiedKind s.shifted.stream.rest = Lookahead.modifiedKind s.stream.rest := by
  have hrest := TokenStream.rest_advance (TokenStream.ahead_ne_nil hend)
  unfold Lookahead.modifiedKind Lookahead.afterModifiers
  rw [hrest, List.dropWhile_cons, if_pos h]
  rfl

theorem modifiedKind_skipBlanks (s : State) :
    Lookahead.modifiedKind (skipBlanks.run s).2.stream.rest =
      Lookahead.modifiedKind s.stream.rest :=
  skipBlanks_induction
    (R := fun s t => Lookahead.modifiedKind t.stream.rest = Lookahead.modifiedKind s.stream.rest)
    (fun _ _ => rfl)
    (fun _ _ hblank h =>
      h.trans (modifiedKind_shifted (not_atEnd_of_blank hblank) (by rw [hblank]; rfl))) s

/-- The word behind the modifiers comes next once they are moved. -/
theorem kind_next_shiftModifiers (s : State) :
    ((shiftModifiers.run s).2.stream.peekSignificant 0).kind =
      Lookahead.modifiedKind s.stream.rest := by
  generalize hn : s.stream.remaining = n
  induction n using Nat.strongRecOn generalizing s with
  | ind n ih =>
    have hcurrent := current_skipBlanks s
    by_cases hmodifier : Lookahead.isModifier (s.stream.peekSignificant 0).kind = true
    · have hend : ¬ (skipBlanks.run s).2.AtEnd := fun hend => by
        rw [State.AtEnd, hcurrent] at hend
        rw [hend] at hmodifier
        cases hmodifier
      have hnext : (shiftNext.run s).2 = (skipBlanks.run s).2.shifted := by
        unfold shiftNext
        rw [run_bind, run_shift hend]
      have hinside : ¬ s.AtEnd := fun hatEnd => by
        rw [kind_peekSignificant_of_atEnd hatEnd] at hmodifier
        cases hmodifier
      have hlt := Advances.remaining_lt (p := shiftNext) s hinside
      have hmoved := modifiedKind_shifted hend (by rw [hcurrent, hmodifier, Bool.or_true])
      have hrun : shiftModifiers.run s = shiftModifiers.run (shiftNext.run s).2 :=
        run_repeatWhile_of_true hmodifier
      rw [hrun, ih _ (by omega) _ rfl, hnext, hmoved, modifiedKind_skipBlanks]
    · rw [run_shiftModifiers_of_false (by simpa using hmodifier), ← modifiedKind_skipBlanks]
      have hblank : (s.stream.peekSignificant 0).kind.isInlineTrivia = false := by
        simpa [TokenStream.isSolid] using s.stream.isSolid_peekSignificant 0
      unfold Lookahead.modifiedKind Lookahead.afterModifiers
      rw [TokenStream.rest, List.dropWhile_cons_of_neg (by simp [hcurrent, hblank, hmodifier])]
      exact congrArg Token.kind hcurrent.symm

theorem carries_shiftDeclarator :
    Carries P State.OnDeclarator shiftDeclarator shiftDeclarator (fun _ => State.Inside) := by
  have hmodifiers : Carries P State.OnDeclarator shiftModifiers shiftModifiers
      (fun _ => State.InLine) := by
    refine ⟨fun s hs hs' => ?_⟩
    have hmodifiers : Carries P State.OnDeclarator shiftModifiers shiftModifiers
        (fun _ => State.Inside) := .of_inline fun s h => ⟨h.inside, KeepsLine.keepsLine s⟩
    obtain ⟨hagrees, hinside⟩ := hmodifiers.carries s hs hs'
    refine ⟨hagrees, fun hopen => ⟨hinside hopen, ?_⟩⟩
    rw [kind_next_shiftModifiers]
    exact fun hnewline => (hs' hopen).1 (.inl hnewline)
  unfold shiftDeclarator
  exact hmodifiers.bind fun _ => .of_inline fun s h => ⟨h.1, h.keepsLine⟩

instance : Settles P State.OnDeclarator constStatement constStatement := by
  unfold constStatement
  exact ⟨.within (carries_shiftDeclarator.bind fun _ => Settles.carries)⟩

instance : Settles P State.OnDeclarator declareStatement declareStatement := by
  unfold declareStatement
  exact ⟨.within (carries_shiftDeclarator.bind fun _ => Settles.carries)⟩

instance : Settles P State.OnDeclarator eventStatement eventStatement := by
  unfold eventStatement
  exact ⟨.within (carries_shiftDeclarator.bind fun _ => Settles.carries)⟩

/-! ## Closers -/

/-- In front of two words of the line. -/
def State.OnPair (s : State) : Prop :=
  ¬ EndsLook (s.stream.peekSignificant 0).kind ∧ ¬ EndsLook (s.stream.peekSignificant 1).kind

theorem State.OnPair.inLine {s : State} (h : s.OnPair) : s.InLine :=
  ⟨fun hend => h.1 (.inr (kind_peekSignificant_of_atEnd hend)), fun hnewline => h.1 (.inl hnewline)⟩

/-- Moving the first of two words brings the second one next. -/
theorem carries_shiftNext_pair :
    Carries P State.OnPair shiftNext shiftNext (fun _ => State.InLine) := by
  have hblanks : Carries P State.OnPair skipBlanks skipBlanks
      (fun _ s => s.OnWord ∧ (s.stream.peekSignificant 1).kind ≠ .trivia .newline) := by
    refine ⟨fun s hs hs' => ?_⟩
    obtain ⟨hagrees, hword⟩ := (Carries.skipBlanks (P := P)).carries s hs fun hopen =>
      ⟨(hs' hopen).1.inLine, (hs' hopen).2⟩
    refine ⟨hagrees, fun hopen => ⟨hword hopen, ?_⟩⟩
    rw [peekSignificant_skipBlanks]
    exact fun hnewline => (hs' hopen).1.2 (.inl hnewline)
  unfold shiftNext
  exact hblanks.bind fun _ => carries_shift_word

instance : Settles P State.OnPair closeBlock closeBlock := by
  have hsecond : Carries P State.OnPair (look (·.peekSignificant 1)) (look (·.peekSignificant 1))
      (fun t s => t = s.stream.peekSignificant 1 ∧ s.OnPair) :=
    .of_second (f := fun _ u => u) (fun _ _ => rfl) fun _ h => h.1
  have hnote (t : Token) : Carries P State.OnPair (note .close t) (note .close (place P t))
      (fun _ => State.OnPair) :=
    .of_still (fun _ h => h.inLine.1) fun s t heq h => by
      unfold State.OnPair at h ⊢
      rwa [heq]
  have hrest : Settles P State.InLine (do shiftNext; finishStatement)
      (do shiftNext; finishStatement) := inferInstance
  unfold closeBlock
  refine ⟨hsecond.bind fun t => ?_⟩
  refine ((hnote t).bind fun _ => carries_shiftNext_pair.bind fun _ => hrest.carries).weaken
    (fun _ h => h.2) fun _ _ h => h

/-! ## Lines of a block -/

/-- What a pass over the lines of a block leads to: anywhere, or to the end of a statement. -/
abbrev LeadsOn : Pass Unit Unit → State → Prop :=
  Pass.Leads (fun _ _ => True) fun _ => State.Settled

/-- A pass over the lines of a block: at the end of the text the block is open, as it is at a header
that follows, trivia is passed over, and on anything else `line` decides. -/
theorem carries_lines {block : Block} {c : State → Prop} (passes : Kind → Bool)
    {line line' : Token → Production (Pass Unit Unit)} (hcomposed : ∀ t, Composed false (line t))
    (hpasses : ∀ k : Kind, passes k = false → k.isTrivia = false)
    (hheader : ∀ header ∈ P.header?, ∀ s, c s → (P.state s).AtHeader header →
      s.blocks.any (·.isProcedure) = true → passes header.kind = false ∧
        (line' header).run (P.state s) =
          (.done (), ((report (.missingCloser block header) header).run (P.state s)).2))
    (hline : ∀ t, passes t.kind = false → Carries P
      (fun s => (t = s.stream.current ∧ s.OnWord) ∧ c s) (line t) (line' (place P t)) LeadsOn) :
    Carries P c
      (current >>= fun t =>
        if t.kind == .lexeme .endOfFile then do
          report (.missingCloser block t) t
          pure (.done ())
        else if passes t.kind then do
          shift
          pure (.again ())
        else line t)
      (current >>= fun t =>
        if t.kind == .lexeme .endOfFile then do
          report (.missingCloser block t) t
          pure (.done ())
        else if passes t.kind then do
          shift
          pure (.again ())
        else line' t)
      LeadsOn := by
  -- the three cases of a pass: the source ends, a header is put in front of its end, or a line
  -- follows
  have hcurrent : Carries P (fun s => s.Inside ∧ c s) current current
      (fun t s => t = s.stream.current ∧ s.Inside ∧ c s) :=
    .of_look (h := (inferInstance : Inline P current current)) fun _ h => h.1
  refine .of_missingCloser block (.done ()) (fun s _ hend => ?_)
    (fun header hmem s hc hat _ hblocks => ?_) (fun _ h => h) (hcurrent.bind fun t => ?_)
  · have hkind : (s.stream.current.kind == .lexeme .endOfFile) = true := by
      rw [hend]
      rfl
    unfold current
    rw [run_look_bind, if_pos hkind]
    rfl
  · obtain ⟨hpassed, hrun⟩ := hheader header hmem s hc hat hblocks
    have hkind : ¬ (header.kind == .lexeme .endOfFile) = true := by
      rw [hat.kind_ne_of_not_mem (by simp)]
      exact Bool.false_ne_true
    unfold current
    rw [run_look_bind, hat.current, if_neg hkind,
      if_neg (by rw [hpassed]; exact Bool.false_ne_true), hrun]
    rfl
  · refine .ite (fun hkind => ?_) fun hkind => .ite (fun _ => ?_) fun htrivia => ?_
    · refine (carries_missingCloser block fun _ h => ⟨h.1, h.2.1⟩).bind fun _ => ?_
      exact .pure (a := Pass.done ()) fun _ h => h.settled
    · refine .bind (Carries.shift.weaken (fun _ h => h.2.1) fun _ _ h => h) fun _ => ?_
      exact .pure (a := Pass.again ()) fun _ _ => trivial
    · have hpassed : passes t.kind = false := by simpa using htrivia
      refine (hline t hpassed).weaken (fun s h => ⟨⟨h.1, ?_⟩, h.2.2⟩) fun _ _ h => h
      rw [h.1] at hpassed
      exact State.onWord_of_not_isTrivia (hpasses _ hpassed) h.2.1

/-! ## Members -/

instance (k : NodeKind) (details : Production Unit) [Composed false details]
    [Inline P details details] [KeepsLine details] :
    Settles P State.Inside (member k details) (member k details) := by
  unfold member
  infer_instance

instance : Settles P State.Inside typeMember typeMember := by unfold typeMember; infer_instance

instance : Settles P State.Inside enumMember enumMember := by unfold enumMember; infer_instance

/-- What follows a text adds to what is ahead the same everywhere in it. -/
theorem Placement.exists_remaining_stream (P : Placement) :
    ∃ n, ∀ s : TokenStream, (P.stream s).remaining = s.remaining + n := by
  have hlength (s : TokenStream) : (P.stream s).remaining + 1 = (P.rest s.rest).length := by
    rw [← P.rest_stream, TokenStream.length_rest]
  unfold Placement.rest at hlength
  cases htail : P.tail? with
  | none =>
    refine ⟨0, fun s => ?_⟩
    have := hlength s
    simp only [htail, List.length_map, TokenStream.length_rest] at this
    omega
  | some tail =>
    refine ⟨tail.remaining, fun s => ?_⟩
    have := hlength s
    simp only [htail, List.length_append, List.length_map, List.length_dropLast,
      TokenStream.length_rest] at this
    omega

/-- A member that moves nothing moves nothing in either reading. -/
theorem carries_memberOrToken {item : Production Unit} [hc : Composed false item]
    [hitem : Settles P State.Inside item item] :
    Carries P State.OnWord (memberOrToken item) (memberOrToken item) (fun _ _ => True) where
  carries s hs hs' := by
    have hrest : Composed false
        (do if (← look (·.remaining)) == s.stream.remaining then within .unknown shift) :=
          inferInstance
    obtain ⟨hagrees, -⟩ := hitem.carries.carries s hs fun hopen =>
      ⟨(hs' hopen).1.inside, (hs' hopen).2.of_run hrest ((hc.follows s).sound hs.sound)⟩
    refine ⟨?_, fun _ => trivial⟩
    -- whether the item has moved is told by a difference, to which the tokens behind add nothing
    obtain ⟨n, hremaining⟩ := P.exists_remaining_stream
    have hsame : ((P.state (item.run s).2).stream.remaining == (P.state s).stream.remaining) =
        ((item.run s).2.stream.remaining == s.stream.remaining) := by
      rw [hremaining, hremaining, Bool.eq_iff_iff, beq_iff_eq, beq_iff_eq]
      omega
    unfold memberOrToken
    unfold Placement.Agrees at hagrees ⊢
    rw [run_look_bind, run_look_bind, run_bind item, run_bind item, hagrees, run_look_bind,
      run_look_bind, hsame]
    split
    next hstay =>
      have hunknown : Inline P (within .unknown shift) (within .unknown shift) := inferInstance
      have hcurrent := TokenStream.current_eq_of_rest_eq
        (hc.stream_eq_of_remaining_eq (beq_iff_eq.mp hstay))
      refine hunknown.agrees (item.run s).2 (hs.of_follows (hc.follows s)) fun hopen => ?_
      have hword := (hs' hopen).1
      unfold State.OnWord at hword
      rw [← hcurrent] at hword
      exact ⟨fun hend => hword.2 (.inr hend),
        KeepsLineFromWord.keepsLine _ fun hnewline => hword.2 (.inl hnewline)⟩
    next => rfl

/-- A closer that is missed on the line ends the lines. -/
theorem carries_missingCloser_done {pre : State → Prop} (block : Block) {t : Token}
    (hpre : ∀ s, pre s → t = s.stream.current ∧ s.Inside) :
    Carries P pre
      (report (.missingCloser block t) t >>= fun _ =>
        (pure (.done ()) : Production (Pass Unit Unit)))
      (report (.missingCloser block (place P t)) (place P t) >>= fun _ =>
        pure (.done ())) LeadsOn :=
  (carries_missingCloser block hpre).bind fun _ => .pure (a := Pass.done ()) fun _ h => h.settled

/-- Behind the end of a statement the lines may end. -/
theorem Settles.done {pre : State → Prop} {p q : Production Unit} [Composed false p]
    (h : Settles P pre p q) :
    Carries P pre (p >>= fun _ => (pure (.done ()) : Production (Pass Unit Unit)))
      (q >>= fun _ => pure (.done ())) LeadsOn :=
  h.carries.bind fun _ => .pure (a := Pass.done ()) fun _ h => h

section

variable {block : Block} {closer : Keyword} {item : Production Unit} [Composed false item]
  [Settles P State.Inside item item]

theorem carries_memberPass (u : Unit) :
    Carries P (fun _ => True) (memberPass block closer item u) (memberPass block closer item u)
      LeadsOn := by
  have hend (t : Token) : Carries P (fun s => t = s.stream.current ∧ s.OnWord)
      (atNext (.keyword .end_)) (atNext (.keyword .end_))
      (fun b s => b = ((s.stream.peekSignificant 0).kind == .keyword .end_) ∧
        t = s.stream.current ∧ s.OnWord) :=
    .of_look (h := (inferInstance : Inline P (atNext _) (atNext _))) fun _ h => h.2.inside
  have hheader (t : Token) : Carries P (fun s => t = s.stream.current ∧ s.OnWord) atProcedureHeader
      atProcedureHeader
      (fun b s => b = Lookahead.startsProcedure s.stream.rest ∧ t = s.stream.current ∧ s.OnWord) :=
    .of_look (h := (inferInstance : Inline P atProcedureHeader atProcedureHeader))
      fun _ h => h.2.inside
  have hcloser (t : Token) : Carries P (fun s => t = s.stream.current ∧ s.OnWord) (atCloser closer)
      (atCloser closer)
      (fun b s => b = ((s.stream.peekSignificant 0).kind == .keyword .end_ &&
        (s.stream.peekSignificant 1).kind == .keyword closer) ∧ t = s.stream.current ∧ s.OnWord) :=
    .of_second (f := fun t u => t.kind == .keyword .end_ && u.kind == .keyword closer)
      (fun _ _ => rfl) fun s h => by
        rw [TokenStream.peekSignificant_zero h.2.1]
        exact h.2.2
  unfold memberPass
  dsimp only
  refine carries_lines (fun k => k.isTrivia || k == .lexeme .colon) (fun _ => inferInstance)
    (fun k hk => (Bool.or_eq_false_iff.mp hk).1) (fun header _ s _ hat _ => ?_) fun t _ => ?_
  · refine ⟨Bool.or_eq_false_iff.mpr ⟨hat.solid, hat.kind_ne_of_not_mem (by simp)⟩, ?_⟩
    unfold atNext
    rw [run_look_bind, hat.peekSignificant_zero, hat.kind_ne_of_not_mem (by simp),
      if_neg Bool.false_ne_true]
    unfold atProcedureHeader
    rw [run_look_bind, if_pos hat.starts]
    rfl
  -- what a line can be: the end of the block, that of another one, a procedure, a member
  refine ((hend t).weaken (fun _ h => h.1) fun _ _ h => h).bind fun b =>
    .ite (fun hb => ?_) fun _ => ?_
  · refine ((hcloser t).weaken (fun s h => h.2) fun _ _ h => h).bind fun b =>
      .ite (fun hb => ?_) fun _ => ?_
    · have hclose : Settles P State.OnPair closeBlock closeBlock := inferInstance
      refine hclose.done.weaken (fun s h => ?_) fun _ _ h => h
      obtain ⟨hfirst, hsecond⟩ := Bool.and_eq_true_iff.mp (h.1.symm.trans hb)
      unfold State.OnPair
      rw [beq_iff_eq.mp hfirst, beq_iff_eq.mp hsecond]
      exact ⟨not_endsLook_keyword _, not_endsLook_keyword _⟩
    · exact carries_missingCloser_done block fun s h => ⟨h.2.1, h.2.2.inside⟩
  · refine ((hheader t).weaken (fun s h => h.2) fun _ _ h => h).bind fun b =>
      .ite (fun _ => ?_) fun _ => ?_
    · exact carries_missingCloser_done block fun s h => ⟨h.2.1, h.2.2.inside⟩
    · refine .bind (carries_memberOrToken.weaken (fun _ h => h.2.2) fun _ _ h => h) fun _ => ?_
      exact .pure (a := Pass.again ()) fun _ _ => trivial

instance :
    Settles P State.Settled (memberBlock block closer item) (memberBlock block closer item) := by
  unfold memberBlock
  exact ⟨(Carries.iterate carries_memberPass ()).weaken (fun _ _ => trivial) fun _ _ h => h⟩

end

instance : Settles P State.OnDeclarator typeStatement typeStatement := by
  unfold typeStatement
  exact ⟨.within (carries_shiftDeclarator.bind fun _ => Settles.carries)⟩

instance : Settles P State.OnDeclarator enumStatement enumStatement := by
  unfold enumStatement
  exact ⟨.within (carries_shiftDeclarator.bind fun _ => Settles.carries)⟩

end

end LosslessBasic.Grammar
