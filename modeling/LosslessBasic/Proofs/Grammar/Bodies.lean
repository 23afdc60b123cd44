import LosslessBasic.Proofs.Grammar.Members

/-!
# Lists of statements at another place

A list of statements in a block is read the same up to where it has to end, when its statements are.
At the end of the text the block is found open, so a list that leaves in another way has seen why on
its line: `State.Behind` says what is then known of the place it has reached.
-/

namespace LosslessBasic.Grammar

set_option synthInstance.maxSize 65536

/-! ## Closers -/

/-- In front of a closer of a block. -/
def State.OnCloser (block : Block) (s : State) : Prop :=
  ∃ closer, Closer.ofKinds? (s.stream.peekSignificant 0).kind (s.stream.peekSignificant 1).kind =
    some closer ∧ closer.block = block

/-- Within a block, with its statements ended so far. -/
def State.Enclosed (block : Block) (s : State) : Prop :=
  s.Settled ∧ s.blocks.head? = some block

/-- Where the body of a block has ended: its own closer comes next if that is why. -/
def State.Behind (block : Block) (stop : Stop) (s : State) : Prop :=
  s.Settled ∧ (stop = .ownCloser → s.OnCloser block)

instance (block : Block) : IgnoresBuilder (State.Enclosed block) := ⟨fun _ _ h => h⟩

instance (block : Block) (stop : Stop) : IgnoresBuilder (State.Behind block stop) :=
  ⟨fun _ _ h => h⟩

section

variable {P : Placement}

instance (t : Token) : Still (reportMissingCloser t) where
  stream_eq s := by
    unfold reportMissingCloser
    rw [run_bind, run_get]
    split <;> rfl

instance (block : Block) : Inline P (blockIsOpen block) (blockIsOpen block) := by
  unfold blockIsOpen
  infer_instance

instance : Inline P insideProcedure insideProcedure := by unfold insideProcedure; infer_instance

/-- What the state holds apart from tokens and trees is the same in both readings. -/
theorem Carries.of_get {β : Type} [Placeable β] {f g : State → Production β} {pre : State → Prop}
    {post : β → State → Prop}
    (h : ∀ s, Carries P (fun t => t = s ∧ pre t) (f s) (g (P.state s)) post) :
    Carries P pre (get >>= f) (get >>= g) post where
  carries s hs hs' :=
    (h s).carries s hs fun hopen => ⟨⟨rfl, (hs' hopen).1⟩, (hs' hopen).2⟩

/-- The closer of the innermost block is missed at the same token where this is not the end of the
text. -/
theorem carries_reportMissingCloser {pre : State → Prop} {t : Token}
    (hpre : ∀ s, pre s → t = s.stream.current ∧ s.Inside) :
    Carries P pre (reportMissingCloser t) (reportMissingCloser (place P t))
      (fun _ => State.Inside) := by
  unfold reportMissingCloser
  refine .of_get fun s => ?_
  have hblocks : (P.state s).blocks = s.blocks := rfl
  rw [hblocks]
  cases s.blocks with
  | nil => exact .pure (a := ()) fun s h => (hpre s h.2).2
  | cons block outer =>
    exact (carries_missingCloser block hpre).weaken (fun _ h => h.2) fun _ _ h => h

/-- Within a block it is the closer of this block that is missed. -/
theorem run_reportMissingCloser {block : Block} {s : State} (h : s.blocks.head? = some block)
    (t : Token) :
    (reportMissingCloser t).run s = (report (.missingCloser block t) t).run s := by
  obtain ⟨outer, hblocks⟩ : ∃ outer, s.blocks = block :: outer := List.head?_eq_some_iff.mp h
  unfold reportMissingCloser
  rw [run_bind, run_get]
  dsimp only
  rw [hblocks]

/-! ## Between statements -/

instance (loops : Nat) : Settles P State.Settled (setPendingNext loops) (setPendingNext loops) :=
  ⟨⟨fun _ _ h => ⟨rfl, fun hopen => (h hopen).1⟩⟩⟩

instance : KeepsLineFromWord separator := by
  unfold separator
  dsimp only
  infer_instance

instance : Inline P separator separator := by
  unfold separator
  dsimp only
  infer_instance

/-- Trivia is shifted, and a line break separates statements. -/
theorem run_shiftTrivia (s : State) :
    shiftTrivia.run s = ((),
      if s.stream.current.kind == .trivia .newline then
        { (shift.run s).2 with lastSeparator := .lineBreak }
      else (shift.run s).2) := by
  unfold shiftTrivia currentKind
  rw [run_look_bind, run_bind]
  split <;> rfl

/-- Trivia that may end the text outside of a single-line `If` ends a line. -/
theorem carries_shiftTrivia :
    Carries P (fun s => s.Inside ∧ (s.stream.current.kind = .trivia .newline → s.lineMode = 0))
      shiftTrivia shiftTrivia (fun _ => State.Settled) where
  carries s hs hs' := by
    have hshift := hs.agrees_shift fun hopen => (hs' hopen).1.1
    have hkind : (P.state s).stream.current.kind = s.stream.current.kind := by
      rw [(hs.sameLine fun hopen => (hs' hopen).1.1).current]
    unfold Placement.Agrees at hshift ⊢
    rw [run_shiftTrivia, run_shiftTrivia, hkind, hshift]
    split
    next hnewline =>
      refine ⟨rfl, fun hopen _ => ⟨fun _ => rfl, ?_⟩⟩
      have hcomposed : Composed false shift := inferInstance
      exact (hcomposed.sameContext s).lineMode.trans ((hs' hopen).1.2 (beq_iff_eq.mp hnewline))
    next hnewline =>
      refine ⟨rfl, fun hopen => State.Inside.settled ?_⟩
      exact hs.not_atEnd hopen (hs' hopen).1.1 inferInstance
        (KeepsLineFromWord.keepsLine s (by simpa using hnewline))

/-- The second word of a closer is looked for behind `End` only. -/
theorem carries_writtenCloser :
    Carries P State.InLine writtenCloser writtenCloser (fun _ => State.InLine) := by
  have hcurrent : Carries P State.InLine current current
      (fun t s => t = s.stream.current ∧ s.InLine) :=
    .of_look (h := (inferInstance : Inline P current current)) fun _ h => h.1
  have hsecond (t : Token) (hend : (t.kind == .keyword .end_) = true) :
      Carries P (fun s => t = s.stream.current ∧ s.InLine) (look (·.peekSignificant 1))
        (look (·.peekSignificant 1))
        (fun u s => u = s.stream.peekSignificant 1 ∧ t = s.stream.current ∧ s.InLine) := by
    refine .of_second (f := fun _ u => u) (fun _ _ => rfl) fun s h => ?_
    have hkind : s.stream.current.kind = .keyword .end_ := by
      rw [← h.1]
      exact beq_iff_eq.mp hend
    rw [TokenStream.peekSignificant_zero (by rw [hkind]; rfl), hkind]
    exact not_endsLook_keyword _
  unfold writtenCloser
  refine hcurrent.bind fun t => .ite (fun hend => ?_) fun _ => ?_
  · exact (hsecond t hend).bind fun u =>
      .pure (a := t.text ++ Bytes.ofString " " ++ u.text) fun _ h => h.2.2
  · exact .pure (a := t.text) fun _ h => h.2

/-- A closer that no block waits for is passed over as a statement is. -/
instance (closer : Closer) : Settles P State.InLine (strayCloser closer) (strayCloser closer) := by
  have hrest (written : Bytes) : Settles P State.InLine
      (do
        report (.unmatchedCloser written closer) (← current)
        setRecovering true
        unknownStatement)
      (do
        report (.unmatchedCloser written closer) (← current)
        setRecovering true
        unknownStatement) := inferInstance
  unfold strayCloser
  exact ⟨carries_writtenCloser.bind fun written => (hrest written).carries⟩

/-- The body of a block sees the block as the innermost one. -/
theorem Carries.inBlock {α : Type} [Placeable α] {block : Block} {p q : Production α}
    {post : α → State → Prop} (h : Carries P (State.Enclosed block) p q post)
    (hpost : ∀ a s blocks, post a s → post a { s with blocks := blocks }) :
    Carries P State.Settled (inBlock block p) (inBlock block q) post where
  carries s hs hs' := by
    obtain ⟨hagrees, hafter⟩ := h.carries { s with blocks := block :: s.blocks }
      ⟨hs.sound, hs.endsInBreak⟩ fun hopen => ⟨⟨(hs' hopen).1, rfl⟩, (hs' hopen).2.of_inBlock⟩
    refine ⟨?_, fun hopen => hpost _ _ _ (hafter hopen)⟩
    unfold Placement.Agrees at hagrees ⊢
    rw [run_inBlock]
    exact congrArg (fun r : α × State => (r.1, { r.2 with blocks := r.2.blocks.tail })) hagrees

end

/-! ## Lists -/

section

variable {P : Placement} {statement : Production Unit} [Composed false statement]
  [Settles P State.OnWord statement statement]

/-- What a pass over the statements of a block leads to: further into it, or to where it ends. -/
abbrev LeadsToCloser (block : Block) : Pass Unit Stop → State → Prop :=
  Pass.Leads (fun _ => State.Enclosed block) (State.Behind block)

/-- Which blocks are open is the same behind every production. -/
theorem head_blocks_of_sameContext {block : Block} (s t : State) (h : s.SameContext t)
    (hs : s.blocks.head? = some block) : t.blocks.head? = some block := by
  rw [h.blocks, hs]

/-- A pass over a statement carries over within a block. -/
theorem carries_statementPass (block : Block) :
    Carries P (fun s => s.OnWord ∧ s.blocks.head? = some block) (statementPass statement)
      (statementPass statement) (LeadsToCloser block) := by
  have hstatement : Settles P State.OnWord statement statement := inferInstance
  unfold statementPass
  refine (hstatement.carries.frame head_blocks_of_sameContext).bind fun _ => .of_get fun s => ?_
  refine .ite (fun _ => ?_) fun _ => ?_
  · have hpending : Settles P State.Settled (setPendingNext (s.pendingNext - 1))
        (setPendingNext (s.pendingNext - 1)) := inferInstance
    refine (hpending.carries.weaken (fun _ h => h.2.1) fun _ _ h => h).bind fun _ => ?_
    exact .pure (a := Pass.done Stop.closedByNext) fun s hs => ⟨hs, nofun⟩
  · exact .pure (a := Pass.again ()) fun _ h => h.2

/-- A list that leaves its block to others ends with a report on the line. -/
theorem carries_leave {block : Block} {pre : State → Prop} {stop : Stop} {t : Token}
    (hpre : ∀ s, pre s → t = s.stream.current ∧ s.Inside) (hstop : stop ≠ .ownCloser)
    (hplaced : t.kind ≠ .lexeme .endOfFile → P.stop stop = stop) :
    Carries P pre (reportMissingCloser t >>= fun _ =>
      (pure (.done stop) : Production (Pass Unit Stop)))
      (reportMissingCloser (place P t) >>= fun _ => pure (.done stop)) (LeadsToCloser block) where
  carries s hs hs' := by
    have hplaced : place P (Pass.done stop : Pass Unit Stop) = .done stop := by
      refine congrArg Pass.done ?_
      by_cases hopen : P.IsOpen
      · obtain ⟨rfl, hinside⟩ := hpre s (hs' hopen).1
        exact hplaced hinside
      · exact P.stop_eq (P.header?_eq_none hopen) stop
    have hdone : Carries P State.Inside (pure (.done stop) : Production (Pass Unit Stop))
        (pure (place P (Pass.done stop : Pass Unit Stop))) (LeadsToCloser block) :=
      .pure fun s h => ⟨h.settled, fun hown => absurd hown hstop⟩
    rw [hplaced] at hdone
    exact ((carries_reportMissingCloser hpre).bind fun _ => hdone).carries s hs hs'

/-- Looking at the token at the cursor carries over. -/
theorem carries_current {pre : State → Prop} (hpre : ∀ s, pre s → s.Inside) :
    Carries P pre current current (fun t s => t = s.stream.current ∧ pre s) :=
  .of_look (h := (inferInstance : Inline P current current)) hpre

/-- Looking leads to where it starts, in a block as well. -/
theorem carries_look {α : Type} [Placeable α] {p : Production α} [Composed false p] [Inline P p p]
    [Still p] (block : Block) :
    Carries P (fun s => s.OnWord ∧ s.blocks.head? = some block) p p
      (fun _ s => s.OnWord ∧ s.blocks.head? = some block) := by
  have hstill : Carries P State.OnWord p p (fun _ => State.OnWord) :=
    .of_still (fun _ h => h.inside) fun s t heq h => by
      unfold State.OnWord at h ⊢
      rwa [heq]
  exact hstill.frame head_blocks_of_sameContext

/-- What is done in front of a closer: the list ends there, or the closer is passed over. -/
theorem carries_closerPass (block : Block) (closer : Closer) :
    Carries P
      (fun s => (s.OnWord ∧ Closer.ofKinds? (s.stream.peekSignificant 0).kind
        (s.stream.peekSignificant 1).kind = some closer) ∧ s.blocks.head? = some block)
      (closerPass closer) (closerPass closer) (LeadsToCloser block) := by
  unfold closerPass
  refine .of_get fun s => .ite (fun hown => ?_) fun _ => ?_
  · refine .pure (a := Pass.done Stop.ownCloser) fun t ht => ?_
    obtain ⟨rfl, ⟨hword, hcloser⟩, hblock⟩ := ht
    refine ⟨hword.inside.settled, fun _ => ⟨closer, hcloser, ?_⟩⟩
    rw [hblock] at hown
    exact (Option.some.inj (beq_iff_eq.mp hown)).symm
  · refine ((carries_look block).weaken (fun t ht => ⟨ht.2.1.1, ht.2.2⟩) fun _ _ h => h).bind
      fun isOpen => .ite (fun _ => ?_) fun _ => ?_
    · exact (carries_current fun _ h => h.1.inside).bind fun t =>
        carries_leave (fun _ h => ⟨h.1, h.2.1.inside⟩) (by simp) fun _ => rfl
    · have hstray : Settles P State.InLine (strayCloser closer) (strayCloser closer) :=
        inferInstance
      refine ((hstray.carries.frame head_blocks_of_sameContext).weaken
        (fun t ht => ⟨ht.1.inLine, ht.2⟩) fun _ _ h => h).bind fun _ => ?_
      exact .pure (a := Pass.again ()) fun _ h => h

/-- A line that starts with a closer or a statement carries over within a block. -/
theorem carries_closerOrStatementPass (block : Block) (closer? : Option Closer) :
    Carries P
      (fun s => (s.OnWord ∧ closer? = Closer.ofKinds? (s.stream.peekSignificant 0).kind
        (s.stream.peekSignificant 1).kind) ∧ s.blocks.head? = some block)
      (closerOrStatementPass statement closer?) (closerOrStatementPass statement closer?)
      (LeadsToCloser block) := by
  cases closer? with
  | some closer =>
    unfold closerOrStatementPass
    exact (carries_closerPass block closer).weaken (fun s h => ⟨⟨h.1.1, h.1.2.symm⟩, h.2⟩)
      fun _ _ h => h
  | none =>
    unfold closerOrStatementPass
    refine ((carries_look block).weaken (fun s h => ⟨h.1.1, h.2⟩) fun _ _ h => h).bind fun _ => ?_
    refine (carries_look block).bind fun _ => .ite (fun _ => ?_) fun _ => ?_
    · exact (carries_current fun _ h => h.1.inside).bind fun t =>
        carries_leave (fun _ h => ⟨h.1, h.2.1.inside⟩) (by simp) fun _ => rfl
    · exact carries_statementPass block

/-- One step through a list carries over within a block. -/
theorem carries_listPass (block : Block) :
    Carries P
      (fun s => (s.Inside ∧ (s.stream.current.kind = .trivia .newline → s.lineMode = 0)) ∧
        s.blocks.head? = some block)
      (listPass statement) (listPass statement) (LeadsToCloser block) := by
  have hkind {pre : State → Prop} (hpre : ∀ s, pre s → s.Inside) :
      Carries P pre currentKind currentKind (fun k s => k = s.stream.current.kind ∧ pre s) :=
    .of_look (h := (inferInstance : Inline P currentKind currentKind)) hpre
  have hcloser : Carries P (fun s => s.OnWord ∧ s.blocks.head? = some block) nextCloser? nextCloser?
      (fun closer? s => closer? = Closer.ofKinds? (s.stream.peekSignificant 0).kind
        (s.stream.peekSignificant 1).kind ∧ s.OnWord ∧ s.blocks.head? = some block) :=
    .of_second (f := fun t u => Closer.ofKinds? t.kind u.kind) (fun _ _ => rfl) fun s h => by
      rw [TokenStream.peekSignificant_zero h.1.1]
      exact h.1.2
  have hword {s : State} {kind : Kind} (htrivia : ¬ kind.isTrivia = true)
      (hkind : kind = s.stream.current.kind) (hinside : s.Inside) : s.OnWord :=
    State.onWord_of_not_isTrivia (by rw [← hkind]; simpa using htrivia) hinside
  unfold listPass
  -- an item is a trivia token, a colon, a closer or a statement
  refine (hkind fun _ h => h.1.1).bind fun kind => .ite (fun _ => ?_) fun htrivia =>
    .ite (fun hcolon => ?_) fun _ => ?_
  · refine ((carries_shiftTrivia.frame head_blocks_of_sameContext).weaken (fun _ h => h.2)
      fun _ _ h => h).bind fun _ => ?_
    exact .pure (a := Pass.again ()) fun _ h => h
  · have hseparator : Settles P State.InLine separator separator := inferInstance
    refine ((hseparator.carries.frame head_blocks_of_sameContext).weaken (fun s h => ⟨?_, h.2.2⟩)
      fun _ _ h => h).bind fun _ => ?_
    · exact (hword htrivia h.1 h.2.1.1).inLine
    · exact .pure (a := Pass.again ()) fun _ h => h
  · refine (hcloser.weaken (fun s h => ⟨hword htrivia h.1 h.2.1.1, h.2.2⟩) fun _ _ h => h).bind
      fun closer? => ?_
    exact (carries_closerOrStatementPass block closer?).weaken (fun s h => ⟨⟨h.2.1, h.1⟩, h.2.2⟩)
      fun _ _ h => h

omit [Composed false statement] [Settles P State.OnWord statement statement] in
/-- At the end of the text the closer of the innermost block is missed. -/
theorem run_statementsPass_atEnd_of_block {block : Block} {s : State}
    (hblock : s.blocks.head? = some block)
    (hend : s.AtEnd) (u : Unit) : (statementsPass statement u).run s =
      (.done .endOfInput,
        ((report (.missingCloser block s.stream.current) s.stream.current).run s).2) := by
  have hkind : (s.stream.current.kind == .lexeme .endOfFile) = true := by
    rw [hend]
    rfl
  unfold statementsPass current
  rw [run_look_bind, if_pos hkind, run_bind, run_reportMissingCloser hblock]
  rfl

omit [Composed false statement] [Settles P State.OnWord statement statement] in
/-- In a procedure the closer of the innermost block is missed at the header of another one. -/
theorem run_statementsPass_atHeader_of_block {block : Block} {header : Token} {s : State}
    (hblock : s.blocks.head? = some block) (hat : s.AtHeader header) (hline : s.lineMode = 0)
    (hblocks : s.blocks.any (·.isProcedure) = true) (u : Unit) :
    (statementsPass statement u).run s =
      (.done .procedureHeader, ((report (.missingCloser block header) header).run s).2) := by
  have hcloser : nextCloser?.run s = (none, s) := by
    change (Closer.ofKinds? (s.stream.peekSignificant 0).kind _, s) = _
    rw [hat.peekSignificant_zero, hat.ofKinds?_eq_none]
  have hinside : insideProcedure.run s = (true, s) := congrArg (fun b => (b, s)) hblocks
  have hheader : atProcedureHeader.run s = (true, s) := congrArg (fun b => (b, s)) hat.starts
  have hmissing := run_reportMissingCloser hblock header
  unfold statementsPass current
  rw [run_look_bind, hat.current,
    if_neg (by rw [hat.kind_ne_of_not_mem (by simp)]; exact Bool.false_ne_true), run_bind, run_get,
    if_neg (by simp [hline])]
  unfold listPass currentKind
  rw [run_look_bind, hat.current, if_neg (by rw [hat.solid]; exact Bool.false_ne_true),
    if_neg (by rw [hat.kind_ne_of_not_mem (by simp)]; exact Bool.false_ne_true), run_bind, hcloser]
  unfold closerOrStatementPass current
  rw [run_bind, hinside, run_bind, hheader]
  dsimp only
  rw [Bool.and_self, if_pos rfl, run_look_bind, hat.current, run_bind, hmissing]
  rfl

/-- A pass through a list of statements carries over within a block. -/
theorem carries_statementsPass (block : Block) (u : Unit) :
    Carries P (State.Enclosed block) (statementsPass statement u) (statementsPass statement u)
      (LeadsToCloser block) := by
  refine .of_missingCloser block (.done .endOfInput)
    (fun s h hend => run_statementsPass_atEnd_of_block h.2 hend u)
    (fun header hmem s h hat hline hblocks => ?_)
    (fun _ h => ⟨h, nofun⟩) ?_
  · have hplaced : place P (Pass.done Stop.endOfInput : Pass Unit Stop) = .done .procedureHeader :=
      congrArg Pass.done (P.stop_endOfInput hmem)
    rw [hplaced]
    exact run_statementsPass_atHeader_of_block (s := P.state s) h.2 hat hline hblocks u
  unfold statementsPass
  refine (carries_current fun _ h => h.1).bind fun t => .ite (fun hend => ?_) fun _ => ?_
  · exact carries_leave (fun _ h => ⟨h.1, h.2.1⟩) (by simp) fun hne =>
      absurd (beq_iff_eq.mp hend) hne
  · refine .of_get fun s => .ite (fun _ => ?_) fun hline => ?_
    · exact carries_leave (fun _ h => ⟨h.2.1, h.2.2.1⟩) (by simp) fun _ => rfl
    · refine (carries_listPass block).weaken (fun u hu => ?_) fun _ _ h => h
      obtain ⟨rfl, rfl, hinside, -, hblock⟩ := hu
      refine ⟨⟨hinside, fun hnewline => ?_⟩, hblock⟩
      -- a line break would have ended the list in a single-line `If`
      rw [hnewline] at hline
      simpa [endsInlineList] using hline

/-- The statements within a block carry over. -/
theorem carries_statements [Advances statement] (block : Block) :
    Carries P (State.Enclosed block) (statements statement) (statements statement)
      (State.Behind block) := by
  unfold statements
  exact Carries.iterate (carries_statementsPass block) ()

/-- The body of a block, behind the statement that opens it. -/
theorem carries_blockBody [Advances statement] (block : Block) :
    Carries P State.Settled (blockBody statement block) (blockBody statement block)
      (State.Behind block) := by
  unfold blockBody
  refine (Carries.inBlock (carries_statements block).within fun _ _ _ h => h).bind fun stop => ?_
  have hrecovering : Carries P (State.Behind block stop) (setRecovering false) (setRecovering false)
      (fun _ => State.Behind block stop) := ⟨fun _ _ h => ⟨rfl, fun hopen => (h hopen).1⟩⟩
  exact hrecovering.bind fun _ => .pure (a := stop) fun _ h => h

end

end LosslessBasic.Grammar
