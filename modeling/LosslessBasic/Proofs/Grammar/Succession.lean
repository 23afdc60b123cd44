import LosslessBasic.Proofs.Grammar.PendingNext
import LosslessBasic.Proofs.Grammar.Separation
import LosslessBasic.Proofs.Grammar.Source

/-!
# Reading one text behind another

Outside of every block a source is read item by item (`outermostItem`). When a text has been read to
its end without a block left open, the reading is where it was at the start of the text, up to what
has been read, to the mark of a failed statement and to the anchor; none of these shows in what is
read behind it.

## Main results

* `run_statements_state`: where a text has no block left open, reading it in front of others leads
  to the state that reading it alone leads to.
* `run_statements_behind`: a text behind others is read as it is alone.
-/

namespace LosslessBasic.Grammar

/-! ## Item by item -/

/-- What comes next outside of every block: trivia, a colon, a closer that no block waits for, or a
statement. -/
def outermostItem (statement : Production Unit) (s : TokenStream) : Production Unit :=
  if s.current.kind.isTrivia then shiftTrivia
  else if s.current.kind == .lexeme .colon then separator
  else
    match Closer.ofKinds? (s.peekSignificant 0).kind (s.peekSignificant 1).kind with
    | some closer => strayCloser closer
    | none => statement

section

variable {statement : Production Unit} [Composed false statement] [Advances statement] {s : State}

instance (stream : TokenStream) : Composed false (outermostItem statement stream) := by
  unfold outermostItem
  cases Closer.ofKinds? (stream.peekSignificant 0).kind (stream.peekSignificant 1).kind <;>
    infer_instance

instance (stream : TokenStream) : Advances (outermostItem statement stream) := by
  unfold outermostItem
  cases Closer.ofKinds? (stream.peekSignificant 0).kind (stream.peekSignificant 1).kind <;>
    infer_instance

variable (statement) in
omit [Advances statement] in
/-- Outside of every block the item that comes next is read, and the list goes on. -/
theorem run_statementsPass_of_outermost (h : s.Outermost) (hend : ¬ s.AtEnd) :
    (statementsPass statement ()).run s =
      (.again (), ((outermostItem statement s.stream).run s).2) := by
  have hkind : ¬ (s.stream.current.kind == .lexeme .endOfFile) = true := by
    simpa [State.AtEnd] using hend
  -- with no block open there is no procedure to end and no closer to obey
  have hprocedure : insideProcedure.run s = (false, s) := by
    change (s.blocks.any (·.isProcedure), s) = _
    rw [h.blocks]
    rfl
  have hcloser : nextCloser?.run s = (Closer.ofKinds? (s.stream.peekSignificant 0).kind
      (s.stream.peekSignificant 1).kind, s) := rfl
  unfold statementsPass current
  rw [run_look_bind, if_neg hkind, run_bind, run_get, if_neg (by simp [h.lineMode])]
  unfold listPass outermostItem
  rw [run_bind, run_currentKind]
  split
  · rfl
  · split
    · rfl
    · rw [run_bind, hcloser]
      cases Closer.ofKinds? (s.stream.peekSignificant 0).kind (s.stream.peekSignificant 1).kind with
      | some closer =>
        have hopen : (blockIsOpen closer.block).run s = (false, s) := by
          change (s.blocks.contains closer.block, s) = _
          rw [h.blocks]
          rfl
        unfold closerOrStatementPass closerPass
        rw [run_bind, run_get, if_neg (by simp [h.blocks]), run_bind, hopen]
        rfl
      | none =>
        have hstatement : Composed false statement := inferInstance
        have hblocks := (h.of_sameContext (hstatement.sameContext s)).blocks
        have hheader : (atProcedureHeader.run s).2 = s := rfl
        unfold closerOrStatementPass statementPass
        rw [run_bind, hprocedure]
        simp only [Bool.false_and, Bool.false_eq_true, if_false]
        rw [run_bind, hheader, run_bind, run_bind, run_get, if_neg (by simp [hblocks])]
        rfl

variable (statement) in
/-- Outside of every block a list of statements goes on behind what comes next. -/
theorem run_statements_of_inside (h : s.Outermost) (hend : ¬ s.AtEnd) :
    (statements statement).run s =
      (statements statement).run ((outermostItem statement s.stream).run s).2 := by
  have hpass := run_statementsPass_of_outermost statement h hend
  unfold statements
  rw [run_iterate_of_again (by rw [hpass]), hpass]

omit [Composed false statement] [Advances statement] in
/-- Outside of every block a list of statements ends where the source does. -/
theorem run_statements_of_atEnd (h : s.Outermost) (hend : s.AtEnd) :
    (statements statement).run s = (.endOfInput, s) := by
  have hpass : (statementsPass statement ()).run s = (.done .endOfInput, s) := by
    unfold statementsPass current reportMissingCloser
    rw [run_look_bind, if_pos (by rw [hend]; rfl), run_bind, run_bind, run_get]
    simp only [h.blocks]
    rfl
  unfold statements
  rw [run_iterate_of_done (by rw [hpass]), hpass]

end

/-! ## To the end of a text -/

section

variable {P : Placement} {statement : Production Unit} [Composed false statement]
  [Settles P State.OnWord statement statement] [Advances statement] {s : State}

omit [Composed false statement] [Settles P State.OnWord statement statement] [Advances statement] in
/-- Both readings have the same item before them. -/
theorem outermostItem_state (hs : P.Admits s) (h : P.IsOpen → s.Inside) :
    outermostItem statement (P.stream s.stream) = outermostItem statement s.stream := by
  have hcurrent := (hs.sameLine h).current
  unfold outermostItem
  rw [hcurrent]
  dsimp only
  split
  · rfl
  next htrivia =>
    have hword (hopen : P.IsOpen) : s.OnWord :=
      State.onWord_of_not_isTrivia (by simpa using htrivia) (h hopen)
    have hsecond := (hs.onWord hword).2.2.1
    have hfirst := (hs.sameLine h).peekSignificant_zero
    rw [hfirst, hsecond]

variable (statement) in
omit [Composed false statement] [Advances statement] in
/-- The item that comes next outside of every block is read the same. -/
theorem carries_outermostItem (s : State) :
    Carries P (fun t => t = s ∧ t.Inside ∧ t.lineMode = 0) (outermostItem statement s.stream)
      (outermostItem statement s.stream) (fun _ => State.Settled) := by
  have hword (htrivia : ¬ s.stream.current.kind.isTrivia = true) (hinside : s.Inside) : s.OnWord :=
    State.onWord_of_not_isTrivia (by simpa using htrivia) hinside
  unfold outermostItem
  refine .ite (fun _ => ?_) fun htrivia => .ite (fun _ => ?_) fun _ => ?_
  · exact carries_shiftTrivia.weaken (fun _ h => ⟨h.2.1, fun _ => h.2.2⟩) fun _ _ h => h
  · have hseparator : Settles P State.InLine separator separator := inferInstance
    refine hseparator.carries.weaken (fun t h => ?_) fun _ _ h => h
    exact h.1 ▸ (hword htrivia (h.1 ▸ h.2.1)).inLine
  · cases Closer.ofKinds? (s.stream.peekSignificant 0).kind (s.stream.peekSignificant 1).kind with
    | some closer =>
      have hstray : Settles P State.InLine (strayCloser closer) (strayCloser closer) :=
        inferInstance
      refine hstray.carries.weaken (fun t h => ?_) fun _ _ h => h
      exact h.1 ▸ (hword htrivia (h.1 ▸ h.2.1)).inLine
    | none =>
      have hstatement : Settles P State.OnWord statement statement := inferInstance
      refine hstatement.carries.weaken (fun t h => ?_) fun _ _ h => h
      exact h.1 ▸ hword htrivia (h.1 ▸ h.2.1)

variable (statement) in
/-- Reading a text at another place, without a block left open at its end, comes by the state that
reading the text alone leads to. -/
theorem run_statements_state (hs : P.Admits s) (h : s.Outermost)
    (hs' : P.IsOpen → s.Settled ∧ P.Permits ((statements statement).run s).2) :
    (statements statement).run (P.state s) =
        (statements statement).run (P.state ((statements statement).run s).2) ∧
      (P.IsOpen → ((statements statement).run s).2.Settled) := by
  generalize hn : s.stream.remaining = n
  induction n using Nat.strongRecOn generalizing s with
  | ind n ih =>
    by_cases hend : s.AtEnd
    · rw [run_statements_of_atEnd h hend]
      exact ⟨rfl, fun hopen => (hs' hopen).1⟩
    have hitem : Composed false (outermostItem statement s.stream) := inferInstance
    have hrest : Composed false (statements statement) := inferInstance
    have hlt : ((outermostItem statement s.stream).run s).2.stream.remaining < s.stream.remaining :=
      Advances.remaining_lt s hend
    have hcurrent := (hs.sameLine fun _ => hend).current
    have hend' : ¬ (P.state s).AtEnd := by rwa [State.AtEnd, hcurrent]
    have hrun := run_statements_of_inside statement h hend
    rw [hrun] at hs' ⊢
    have hs₁ := hs.of_follows (hitem.follows s)
    obtain ⟨hagrees, hsettled⟩ := (carries_outermostItem statement s).carries s hs
      fun hopen => ⟨⟨rfl, hend, h.lineMode⟩, (hs' hopen).2.of_run hrest hs₁.sound⟩
    have houtermost := h.of_sameContext (hitem.sameContext s)
    obtain ⟨ih, hsettled'⟩ := ih _ (by omega) hs₁ houtermost
      (fun hopen => ⟨hsettled hopen, (hs' hopen).2⟩) rfl
    refine ⟨?_, hsettled'⟩
    unfold Placement.Agrees at hagrees
    rw [run_statements_of_inside statement (s := P.state s) ⟨h.blocks, h.lineMode⟩ hend',
      outermostItem_state hs fun _ => hend, hagrees]
    exact ih

end

/-! ## What an earlier text leaves behind -/

section

variable {s : State}

/-- What is looked up of the state apart from the anchor is the same under every anchor. -/
theorem IgnoresAnchor.of_get {α : Type} {f : State → Production α}
    (hsame : ∀ s a, f (s.reanchored a) = f s) [hf : ∀ s, IgnoresAnchor (f s)] :
    IgnoresAnchor (get >>= f) where
  ignoresAnchor s hend a := by
    rw [run_bind, run_get, run_bind, run_get]
    dsimp only
    rw [hsame]
    exact (hf s).ignoresAnchor s hend a

instance : IgnoresAnchor shiftTrivia := by unfold shiftTrivia; infer_instance

instance : IgnoresAnchor separator := by
  have hmove : IgnoresAnchor (do
      if (← get).lastSeparator == .none then shift
      else
        report .straySeparator (← current)
        within .unknown shift) := .of_get fun _ _ => rfl
  have hseparator : separator = (do
      if (← get).lastSeparator == .none then shift
      else
        report .straySeparator (← current)
        within .unknown shift) >>= fun _ => setSeparator .colon := by
    unfold separator
    simp only [bind_assoc]
    refine congrArg _ (funext fun s => ?_)
    split <;> simp only [bind_assoc]
  rw [hseparator]
  infer_instance

instance : IgnoresAnchor writtenCloser := by unfold writtenCloser; infer_instance

instance (closer : Closer) : IgnoresAnchor (strayCloser closer) := by
  unfold strayCloser unknownStatement
  infer_instance

/-- The state with another mark of whether a statement has failed. -/
def State.marked (s : State) (recovering : Bool) : State := { s with recovering := recovering }

/-- A production that reads the same whatever the mark is. -/
class IgnoresMark (p : Production Unit) : Prop where
  exists_marked (s : State) (recovering : Bool) :
    ∃ mark, p.run (s.marked recovering) = ((), (p.run s).2.marked mark)

/-- What does the same under every mark leads to the same mark. -/
theorem IgnoresMark.of_run_eq {p : Production Unit}
    (h : ∀ s recovering, p.run (s.marked recovering) = p.run s) : IgnoresMark p :=
  ⟨fun s recovering => ⟨(p.run s).2.recovering, h s recovering⟩⟩

/-- To shift is the same whether a statement has failed or not. -/
theorem run_shift_marked (s : State) (recovering : Bool) :
    shift.run (s.marked recovering) = ((), (shift.run s).2.marked recovering) := by
  by_cases hend : s.AtEnd
  · rw [run_shift_of_atEnd hend]
    exact run_shift_of_atEnd (s := s.marked recovering) hend
  · rw [run_shift hend]
    exact run_shift (s := s.marked recovering) hend

instance : IgnoresMark shiftTrivia where
  exists_marked s recovering := by
    refine ⟨recovering, ?_⟩
    rw [run_shiftTrivia, run_shiftTrivia, run_shift_marked]
    change ((), if s.stream.current.kind == _ then _ else _) = _
    split <;> rfl

instance : IgnoresMark separator where
  exists_marked s recovering := by
    have hunknown (s : State) : (within .unknown shift).run (s.marked recovering) =
        ((), ((within .unknown shift).run s).2.marked recovering) := by
      have hopening : (s.marked recovering).opening .unknown =
          (s.opening .unknown).marked recovering := rfl
      rw [run_within, run_within, hopening, run_shift_marked]
      rfl
    refine ⟨recovering, ?_⟩
    unfold separator
    rw [run_bind, run_get, run_bind, run_get]
    change (if s.lastSeparator == .none then _ else _ : Production Unit).run _ = _
    dsimp only
    split
    · rw [run_bind, run_bind, run_shift_marked]
      rfl
    · unfold current
      rw [run_look_bind, run_look_bind, run_bind, run_bind]
      have hreported (t : Token) : ((report .straySeparator t).run (s.marked recovering)).2 =
          ((report .straySeparator t).run s).2.marked recovering := rfl
      rw [hreported, run_bind, run_bind, hunknown]
      rfl

/-- How the closer is written is seen ahead. -/
theorem writtenCloser_eq :
    writtenCloser = look fun s => if s.current.kind == .keyword .end_ then
        s.current.text ++ Bytes.ofString " " ++ (s.peekSignificant 1).text
      else s.current.text := by
  funext s
  change writtenCloser.run s = (if s.stream.current.kind == .keyword .end_ then
      s.stream.current.text ++ Bytes.ofString " " ++ (s.stream.peekSignificant 1).text
    else s.stream.current.text, s)
  unfold writtenCloser current
  rw [run_look_bind]
  split <;> rfl

/-- A closer that no block waits for marks its statement as failed. -/
instance (closer : Closer) : IgnoresMark (strayCloser closer) :=
  .of_run_eq fun s recovering => by
    unfold strayCloser
    rw [writtenCloser_eq]
    rfl

/-- A statement clears the mark. -/
instance (statement : Production Unit) : IgnoresMark (statementWith statement) :=
  .of_run_eq fun _ _ => rfl

variable {statement : Production Unit}

instance [IgnoresMark statement] (stream : TokenStream) :
    IgnoresMark (outermostItem statement stream) := by
  unfold outermostItem
  split
  · infer_instance
  · split
    · infer_instance
    · split <;> infer_instance

instance [IgnoresAnchor statement] (stream : TokenStream) :
    IgnoresAnchor (outermostItem statement stream) := by
  unfold outermostItem
  split
  · infer_instance
  · split
    · infer_instance
    · split <;> infer_instance

variable [Composed false statement] [Advances statement]

variable (statement) in
/-- The mark of an earlier statement shows in the mark that is left only. -/
theorem exists_run_statements_marked [IgnoresMark statement] (h : s.Outermost) (recovering : Bool) :
    ∃ mark, (statements statement).run (s.marked recovering) =
      (((statements statement).run s).1, ((statements statement).run s).2.marked mark) := by
  generalize hn : s.stream.remaining = n
  induction n using Nat.strongRecOn generalizing s recovering with
  | ind n ih =>
    have houtermost : (s.marked recovering).Outermost := ⟨h.blocks, h.lineMode⟩
    by_cases hend : s.AtEnd
    · refine ⟨recovering, ?_⟩
      rw [run_statements_of_atEnd h hend, run_statements_of_atEnd houtermost hend]
    · have hitem : Composed false (outermostItem statement s.stream) := inferInstance
      have hmark : IgnoresMark (outermostItem statement s.stream) := inferInstance
      have hlt : ((outermostItem statement s.stream).run s).2.stream.remaining <
          s.stream.remaining := Advances.remaining_lt s hend
      obtain ⟨mark, hrun⟩ := hmark.exists_marked s recovering
      rw [run_statements_of_inside statement h hend,
        run_statements_of_inside statement houtermost hend]
      change ∃ mark, (statements statement).run
        ((outermostItem statement s.stream).run (s.marked recovering)).2 = _
      rw [hrun]
      exact ih _ (by omega) (h.of_sameContext (hitem.sameContext s)) mark rfl

/-- Away from the end the anchor of an earlier token shows nowhere. -/
theorem run_statements_reanchored [IgnoresAnchor statement] (h : s.Outermost) (hend : ¬ s.AtEnd)
    (a : Anchor) :
    (statements statement).run (s.reanchored a) = (statements statement).run s := by
  have houtermost : (s.reanchored a).Outermost := ⟨h.blocks, h.lineMode⟩
  have hitem : IgnoresAnchor (outermostItem statement s.stream) := inferInstance
  have hlt : ((outermostItem statement s.stream).run s).2.stream.remaining < s.stream.remaining :=
    Advances.remaining_lt s hend
  rw [run_statements_of_inside statement h hend, run_statements_of_inside statement houtermost hend]
  change (statements statement).run
    ((outermostItem statement s.stream).run (s.reanchored a)).2 = _
  rw [(hitem.ignoresAnchor s hend).run_eq hlt a]

end

/-! ## One text behind another -/

instance (depth : Nat) : IgnoresMark (statementUpTo (depth + 1)) :=
  (inferInstance : IgnoresMark (statementWith (statementUpTo depth)))

instance (depth : Nat) : IgnoresAnchor (statementUpTo (depth + 1)) :=
  (inferInstance : IgnoresAnchor (statementWith (statementUpTo depth)))

/-- The statements of a source are the same under every depth that suffices for its tokens. -/
theorem run_statements_depth {d e : Nat} {s : State} (hd : s.stream.remaining < d)
    (he : s.stream.remaining < e) :
    (statements (statementUpTo d)).run s = (statements (statementUpTo e)).run s := by
  have hnested : AgreeUpTo s.stream.remaining (statementUpTo d) (statementUpTo e) :=
    statementUpTo_agree hd he
  have hlist : AgreeUpTo s.stream.remaining (statements (statementUpTo d))
      (statements (statementUpTo e)) := inferInstance
  exact hlist.run_eq s (.inr (Nat.le_refl _))

/-- The state that the statements of a stream lead to, where no node is open around them. -/
def State.read (stream : TokenStream) : State :=
  ((statements (statementUpTo (stream.remaining + 1))).run { stream := stream }).2

/-- A source that has been read is at its end. -/
theorem atEnd_read (stream : TokenStream) : (State.read stream).AtEnd :=
  atEnd_statements (statementUpTo (stream.remaining + 1)) ⟨rfl, rfl⟩

theorem sameContext_read (stream : TokenStream) :
    State.SameContext { stream := stream } (State.read stream) := by
  have hstatements : Composed false (statements (statementUpTo (stream.remaining + 1))) :=
    inferInstance
  exact hstatements.sameContext _

theorem outermost_read (stream : TokenStream) : (State.read stream).Outermost :=
  ⟨(sameContext_read stream).blocks, (sameContext_read stream).lineMode⟩

theorem pendingNext_read (stream : TokenStream) : (State.read stream).pendingNext = 0 := by
  have hbound : BoundsLoops 1 (statements (statementUpTo (stream.remaining + 1))) := inferInstance
  exact Nat.le_zero.mp (hbound.pendingNext_le { stream := stream })

theorem sound_read {stream : TokenStream} (hs : stream.Sound) :
    (State.read stream).stream.Sound := by
  have hstatements : Composed false (statements (statementUpTo (stream.remaining + 1))) :=
    inferInstance
  exact (hstatements.follows { stream := stream }).sound hs

/-- Behind a source only the end marker is left. -/
theorem rest_read {stream : TokenStream} (hs : stream.Sound) :
    (State.read stream).stream.rest.dropLast = [] := by
  have hremaining := (atEnd_read stream).remaining_eq_zero (sound_read hs)
  rw [TokenStream.remaining_eq, List.length_eq_zero_iff] at hremaining
  rw [TokenStream.rest, hremaining]
  rfl

/-- Every depth that suffices for the tokens of a stream leads to the same state. -/
theorem run_statements_read {stream : TokenStream} {d : Nat} (hd : stream.remaining < d) :
    ((statements (statementUpTo d)).run { stream := stream }).2 = State.read stream := by
  unfold State.read
  rw [run_statements_depth hd (Nat.lt_succ_self _)]

/-- Reading a text that others do not follow leads to the state that reading it alone leads to. -/
theorem run_statements_last {P : Placement} (hP : ¬ P.IsOpen) {stream : TokenStream}
    (hs : stream.Sound) {d : Nat} (hd : stream.remaining < d) :
    ((statements (statementUpTo d)).run (P.state { stream := stream })).2 =
      P.state (State.read stream) := by
  have hadmits : P.Admits { stream := stream } := ⟨hs, fun hopen => absurd hopen hP⟩
  obtain ⟨hrun, -⟩ := run_statements_state (statementUpTo d) hadmits ⟨rfl, rfl⟩
    fun hopen => absurd hopen hP
  rw [run_statements_read hd] at hrun
  have houtermost : (P.state (State.read stream)).Outermost :=
    ⟨(outermost_read stream).blocks, (outermost_read stream).lineMode⟩
  have hend : (P.state (State.read stream)).AtEnd := by
    have hcurrent : (P.stream (State.read stream).stream).current =
        P.relocation.token (State.read stream).stream.current :=
      TokenStream.current_of_rest (P.rest_of_not_isOpen hP (State.read stream).stream).1
    rw [State.AtEnd, hcurrent]
    exact atEnd_read stream
  rw [hrun, run_statements_of_atEnd houtermost hend]

/-- Whether the reading of a text leads from one state to another, up to where it stands. -/
structure State.Leaves (r : Relocation) (s t u : State) : Prop where
  pending : u.builder.pending = s.builder.pending ++ t.builder.pending.map r.tree
  failures : u.failures = s.failures ++ t.failures.map r.failure
  implicitTargets : u.implicitTargets = s.implicitTargets ++ t.implicitTargets.map r.target
  log : u.log = s.log ++ t.log.map r.event

/-- What is placed without a header in front is left where its base has it. -/
theorem Placement.leaves_state {P : Placement} (h : P.header? = none) (s : State) :
    State.Leaves P.relocation P.base s (P.state s) :=
  ⟨rfl, by rw [← P.failure_eq h], rfl, by rw [← P.event_eq h]⟩

/-- What has been read outside of every block differs from the start of a text there in the anchor
and the mark only. -/
theorem Placement.base_eq {P : Placement} {stream : TokenStream}
    (hstream : P.stream stream = P.base.stream) (hs : P.base.Outermost)
    (hseparator : P.base.lastSeparator = .lineBreak) (hpending : P.base.pendingNext = 0)
    (htargets : P.base.withTargets = []) :
    P.base = ((P.state { stream := stream }).reanchored P.base.builder.anchor).marked
      P.base.recovering := by
  obtain ⟨hblocks, hlineMode⟩ := hs
  simp only [State.marked, State.reanchored, Placement.builder, hstream]
  generalize P.base = s at hseparator hpending htargets hblocks hlineMode ⊢
  cases s
  simp_all

/-- A text behind others is read as it is alone. -/
theorem run_statements_behind {s : State} (hs : s.Outermost) (hrow : s.InnermostInRow)
    (hseparator : s.lastSeparator = .lineBreak) (hpending : s.pendingNext = 0)
    (htargets : s.withTargets = []) {r : Relocation} {stream : TokenStream} (hsound : stream.Sound)
    (hpassed : stream.passed = []) (hrest : s.stream.rest = stream.rest.map r.token) {d : Nat}
    (hd : s.stream.remaining < d) :
    State.Leaves r s (State.read stream) ((statements (statementUpTo d)).run s).2 := by
  obtain _ | d := d
  · omega
  obtain ⟨P, hP, rfl, rfl⟩ : ∃ P : Placement, ¬ P.IsOpen ∧ P.relocation = r ∧ P.base = s :=
    ⟨{ relocation := r, base := s, innermost := hrow }, fun h => h rfl, rfl, rfl⟩
  have hplaced : P.stream stream = P.base.stream := by
    refine TokenStream.eq_of_passed_eq_of_rest_eq ?_ ?_
    · change stream.passed.map _ ++ _ = _
      rw [hpassed]
      rfl
    · rw [(P.rest_of_not_isOpen hP stream).1, hrest]
  have hlength : stream.remaining = P.base.stream.remaining := by
    have := congrArg List.length hrest
    simp only [List.length_map, TokenStream.length_rest] at this
    omega
  have hread := run_statements_last hP hsound (d := d + 1) (by omega)
  have hbase := P.base_eq hplaced hs hseparator hpending htargets
  -- the readings differ in what an earlier text leaves behind
  generalize hstart : P.state { stream := stream } = start at hread hbase
  have houtermost : start.Outermost := by
    rw [← hstart]
    exact ⟨rfl, rfl⟩
  have hreanchored : (start.reanchored P.base.builder.anchor).Outermost :=
    ⟨houtermost.blocks, houtermost.lineMode⟩
  obtain ⟨mark, hmarked⟩ := exists_run_statements_marked (statementUpTo (d + 1))
    hreanchored P.base.recovering
  rw [← hbase] at hmarked
  rw [hmarked]
  have hleaves := P.leaves_state (P.header?_eq_none hP) (State.read stream)
  by_cases hend : start.AtEnd
  · rw [run_statements_of_atEnd houtermost hend] at hread
    rw [run_statements_of_atEnd hreanchored hend]
    dsimp only at hread
    rw [hread]
    exact ⟨hleaves.pending, hleaves.failures, hleaves.implicitTargets, hleaves.log⟩
  · rw [run_statements_reanchored houtermost hend, hread]
    exact ⟨hleaves.pending, hleaves.failures, hleaves.implicitTargets, hleaves.log⟩

/-- What has been read at the start of a source is the same at the same place. -/
theorem State.Leaves.of_start {s t u : State} (h : State.Leaves {} s t u)
    (hs : s.builder.pending = #[] ∧ s.failures = #[] ∧ s.implicitTargets = #[] ∧ s.log = #[]) :
    u.builder.pending = t.builder.pending ∧ u.failures = t.failures ∧
      u.implicitTargets = t.implicitTargets ∧ u.log = t.log := by
  obtain ⟨hpending, hfailures, htargets, hlog⟩ := h
  rw [hs.1, Array.empty_append, Array.map_id'' Relocation.tree_zero] at hpending
  rw [hs.2.1, Array.empty_append, Array.map_id'' Relocation.failure_zero] at hfailures
  rw [hs.2.2.1, Array.empty_append, Array.map_id'' Relocation.target_zero] at htargets
  rw [hs.2.2.2, Array.empty_append, Array.map_id'' Relocation.event_zero] at hlog
  exact ⟨hpending, hfailures, htargets, hlog⟩

/-- The place of a text in front of another one, whose first token may be the header of a
procedure. -/
theorem exists_placement_append {a b ab : TokenStream} {r : Relocation}
    (hpassed : a.passed = [] ∧ ab.passed = [])
    (hrest : ab.rest = a.rest.dropLast ++ b.rest.map r.token)
    (header? : Option Token) (hheader : ∀ header ∈ header?, r.token b.current = header ∧
      header.kind.isTrivia = false ∧ Lookahead.startsProcedure (b.rest.map r.token) = true) :
    ∃ P : Placement, P.IsOpen ∧ P.header? = header? ∧ P.relocation = {} ∧ P.base =
      { stream := ab } ∧
      P.state { stream := a } = { stream := ab } ∧
      ∀ s, (P.stream s).rest = s.rest.dropLast ++ b.rest.map r.token := by
  have hne : b.rest.map r.token ≠ [] := by simpa using b.rest_ne_nil
  have hends : ((b.rest.map r.token).getLast hne).kind = .lexeme .endOfFile := by
    rw [List.getLast_map]
    exact b.ends
  -- the first text stays where it is, and the second one follows it in place of its end marker
  obtain ⟨P, hopen, hheader?, hzero, hbase, htail⟩ : ∃ P : Placement, P.IsOpen ∧
    P.header? = header? ∧
      P.relocation = {} ∧ P.base = { stream := ab } ∧ P.tail? =
        some (.between [] (b.rest.map r.token) hne hends) :=
    ⟨{ relocation := {}
       base := { stream := ab }
       tail? := some (.between [] (b.rest.map r.token) hne hends)
       header? := header?
       startsWithHeader := fun header hmem => by
         obtain ⟨hcurrent, hsolid, hstarts⟩ := hheader header hmem
         exact ⟨_, rfl, hcurrent, hsolid, by rwa [TokenStream.rest_between]⟩
       innermost := Nat.le_refl _ }, by simp [Placement.IsOpen], rfl, rfl, rfl, rfl⟩
  have hrestP (s : TokenStream) : (P.stream s).rest = s.rest.dropLast ++ b.rest.map r.token := by
    rw [P.rest_stream, Placement.rest, htail]
    simp [hzero, List.map_id'' Relocation.token_zero]
  refine ⟨P, hopen, hheader?, hzero, hbase, ?_, hrestP⟩
  have hstream : P.stream a = ab := by
    refine TokenStream.eq_of_passed_eq_of_rest_eq ?_ ((hrestP a).trans hrest.symm)
    change a.passed.map _ ++ P.base.stream.passed = _
    rw [hbase, hpassed.1]
    rfl
  simp only [Placement.state, Placement.builder, hstream, hbase, hzero, Relocation.anchor_zero]
  simp

/-- As many tokens are ahead in a row of two sources as in both of them. -/
theorem remaining_of_rest_append {a b ab : TokenStream} {r : Relocation}
    (hrest : ab.rest = a.rest.dropLast ++ b.rest.map r.token) :
    ab.remaining = a.remaining + b.remaining := by
  have := congrArg List.length hrest
  simp only [List.length_append, List.length_dropLast, List.length_map,
    TokenStream.length_rest] at this
  omega

/-- What stands behind a text is read as it is alone, once a line break separates them. -/
theorem leaves_read_behind {P : Placement} {a b ab : TokenStream} {r : Relocation}
    (hbase : P.base = { stream := ab }) (ha : a.Sound) (hb : b.Sound) (hpassed : b.passed = [])
    (hrestP : ∀ s, (P.stream s).rest = s.rest.dropLast ++ b.rest.map r.token) {d : Nat}
    (hd : b.remaining < d) :
    State.Leaves r (P.state (State.read a)) (State.read b)
      ((statements (statementUpTo d)).run ((P.state (State.read a)).separated .lineBreak)).2 := by
  have hrow : (P.state (State.read a)).InnermostInRow := by
    have hopened : (P.state (State.read a)).builder.opened = [] := by
      simp [Placement.builder, (sameContext_read a).opened, hbase]
    unfold State.InnermostInRow Builder.innermostFirst
    rw [hopened]
    exact Nat.zero_le _
  have hrest : (P.state (State.read a)).stream.rest = b.rest.map r.token := by
    rw [hrestP, rest_read ha, List.nil_append]
  have hremaining : (P.state (State.read a)).stream.remaining = b.remaining := by
    have := congrArg List.length hrest
    rw [List.length_map, TokenStream.length_rest, TokenStream.length_rest] at this
    omega
  have hbehind :=
    run_statements_behind (s := (P.state (State.read a)).separated .lineBreak) (d := d)
    ⟨(outermost_read a).blocks, (outermost_read a).lineMode⟩ hrow rfl (pendingNext_read a)
    (by simp [State.separated, (sameContext_read a).withTargets]) hb hpassed hrest (hremaining ▸ hd)
  exact ⟨hbehind.pending, hbehind.failures, hbehind.implicitTargets, hbehind.log⟩

/-- A text without a block left open at its end and the text behind it are read as they are
alone. -/
theorem read_append {a b ab : TokenStream} {r : Relocation} (ha : a.Sound) (hb : b.Sound)
    (hpassed : a.passed = [] ∧ b.passed = [] ∧ ab.passed = [])
    (hrest : ab.rest = a.rest.dropLast ++ b.rest.map r.token)
    (hbreak : ∀ t ∈ a.rest.dropLast.getLast?, t.kind = .trivia .newline)
    (hclosed : ¬ (State.read a).Unclosed) :
    State.Leaves r (State.read a) (State.read b) (State.read ab) := by
  obtain ⟨P, hopen, hheader, hzero, hbase, hstart, hrestP⟩ :=
    exists_placement_append ⟨hpassed.1, hpassed.2.2⟩ hrest none (by simp)
  have hlength := remaining_of_rest_append hrest
  have hadmits : P.Admits { stream := a } := ⟨ha, fun _ => hbreak⟩
  have hread := @run_statements_read a (ab.remaining + 1) (by omega)
  obtain ⟨hrun, hsettled⟩ := run_statements_state (statementUpTo (ab.remaining + 1))
    hadmits ⟨rfl, rfl⟩ fun _ =>
      ⟨fun _ => ⟨fun _ => rfl, rfl⟩, .of_not_unclosed hheader (by rwa [hread])⟩
  rw [hread, hstart] at hrun
  rw [hread] at hsettled
  -- first up to the end of the one text, then from there to the end of both
  have hreached : State.Leaves {} { stream := ab } (State.read a) (P.state (State.read a)) := by
    rw [← hbase, ← hzero]
    exact P.leaves_state hheader _
  have hseparated : (P.state (State.read a)).separated .lineBreak = P.state (State.read a) := by
    unfold State.separated
    rw [← (hsettled hopen (atEnd_read a)).1 hclosed]
  have hbehind :=
    leaves_read_behind hbase ha hb hpassed.2.1 hrestP (d := ab.remaining + 1) (by omega)
  rw [hseparated, ← hrun] at hbehind
  obtain ⟨hpending, hfailures, htargets, hlog⟩ := hreached.of_start ⟨rfl, rfl, rfl, rfl⟩
  obtain ⟨hpending', hfailures', htargets', hlog'⟩ := hbehind
  rw [hpending] at hpending'
  rw [hfailures] at hfailures'
  rw [htargets] at htargets'
  rw [hlog] at hlog'
  exact ⟨hpending', hfailures', htargets', hlog'⟩

/-- The statements below the root of a source are those that are read without it. -/
theorem final_eq_read {stream : TokenStream} (hs : stream.Sound) (hpassed : stream.passed = []) :
    (State.final stream).stream.rest = (State.read stream).stream.rest ∧
      State.Leaves {} (State.start stream) (State.read stream) (State.final stream) := by
  obtain ⟨P, hP, hzero, hbase⟩ : ∃ P : Placement, ¬ P.IsOpen ∧ P.relocation = {} ∧
      P.base = State.start stream :=
    ⟨{ relocation := {}, base := State.start stream, innermost := Nat.le_refl _ },
      fun h => h rfl, rfl, rfl⟩
  have hrest (s : TokenStream) : (P.stream s).rest = s.rest := by
    rw [(P.rest_of_not_isOpen hP s).1, hzero, List.map_id'' Relocation.token_zero]
  have hstart : P.state { stream := stream } = State.start stream := by
    have hstream : P.stream stream = stream := by
      refine TokenStream.eq_of_passed_eq_of_rest_eq ?_ (hrest stream)
      change stream.passed.map _ ++ P.base.stream.passed = _
      rw [hbase, hpassed]
      exact hpassed
    simp only [Placement.state, Placement.builder, hstream, hbase, hzero, Relocation.anchor_zero]
    simp [State.start, State.opening, Builder.startNode]
  have hfinal : State.final stream = P.state (State.read stream) := by
    rw [State.final, ← hstart]
    exact run_statements_last hP hs (Nat.lt_succ_self _)
  rw [hfinal, ← hbase, ← hzero]
  exact ⟨hrest _, P.leaves_state (P.header?_eq_none hP) _⟩

/-- A source whose first text has no block left open at its end is read as its two texts are
alone. -/
theorem final_append {a b ab : TokenStream} {r : Relocation} (ha : a.Sound) (hb : b.Sound)
    (hab : ab.Sound) (hpassed : a.passed = [] ∧ b.passed = [] ∧ ab.passed = [])
    (hrest : ab.rest = a.rest.dropLast ++ b.rest.map r.token)
    (hbreak : ∀ t ∈ a.rest.dropLast.getLast?, t.kind = .trivia .newline)
    (hclosed : ¬ (State.final a).Unclosed) :
    State.Leaves r (State.final a) (State.final b) (State.final ab) := by
  have hreads {stream : TokenStream} (hs : stream.Sound) (hpassed : stream.passed = []) :=
    (final_eq_read hs hpassed).2.of_start ⟨rfl, rfl, rfl, rfl⟩
  obtain ⟨hpendingA, hfailuresA, htargetsA, hlogA⟩ := hreads ha hpassed.1
  obtain ⟨hpendingB, hfailuresB, htargetsB, hlogB⟩ := hreads hb hpassed.2.1
  obtain ⟨hpendingAB, hfailuresAB, htargetsAB, hlogAB⟩ := hreads hab hpassed.2.2
  have hunclosed : ¬ (State.read a).Unclosed := by
    rintro ⟨block, hblock⟩
    have hlast : (State.final a).stream.last = (State.read a).stream.last := by
      simp only [TokenStream.last, (final_eq_read ha hpassed.1).1]
    exact hclosed ⟨block, by rwa [hlast, hfailuresA]⟩
  obtain ⟨hpending, hfailures, htargets, hlog⟩ := read_append ha hb hpassed hrest hbreak hunclosed
  rw [← hpendingA, ← hpendingB, ← hpendingAB] at hpending
  rw [← hfailuresA, ← hfailuresB, ← hfailuresAB] at hfailures
  rw [← htargetsA, ← htargetsB, ← htargetsAB] at htargets
  rw [← hlogA, ← hlogB, ← hlogAB] at hlog
  exact ⟨hpending, hfailures, htargets, hlog⟩

end LosslessBasic.Grammar
