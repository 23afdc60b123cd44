import LosslessBasic.Proofs.Grammar.Separation
import LosslessBasic.Proofs.Grammar.Succession
import LosslessBasic.Proofs.Grammar.Unclosed

/-!
# The header of a procedure ends what is open

Where a text ends within a procedure, the header of another procedure behind it ends the blocks that
are open, one after the other, and reports for each of them what the end of the text would have
reported. Outside of every block the text is read item by item, and only the last one of them can
find a block open: a procedure, when the text ends with one (`spares_or_procedure`). Its body is
read within a procedure, so it is read the same in front of the header (`agrees_procedure`).

## Main results

* `run_statements_open`: reading a text in front of the header comes by the state that reading it
  alone leads to, with its missing closers at the header.
* `read_append_open`: the text and what the header starts are read one behind the other.
-/

namespace LosslessBasic

/-- Whether the node is one around a procedure. -/
@[reducible]
def NodeKind.isProcedure : NodeKind → Bool
  | .subStatement | .functionStatement | .propertyStatement => true
  | _ => false

/-- Whether the tree is a procedure. -/
def Tree.isProcedure (n : Tree) : Bool :=
  match n.kind with
  | .node k => k.isProcedure
  | _ => false

namespace Grammar

set_option synthInstance.maxSize 65536

/-! ## What finds no block open but in a procedure -/

/-- Whether a block that is found open is below a node that is no procedure and stands last in the
row. -/
def State.Spares (s : State) (p : Production Unit) : Prop :=
  ¬ s.Unclosed → (p.run s).2.Unclosed →
    ∃ n, (p.run s).2.builder.pending.toList.getLast? = some n ∧ n.isToken = false ∧
      n.isProcedure = false

/-- A production that finds no block open, or does so below a node of its own that is no
procedure. -/
class Spares (p : Production Unit) : Prop where
  spares (s : State) : s.InnermostInRow → s.Spares p

section

variable {p q : Production Unit}

instance [Obeys quietLaw p] : Spares p where
  spares _ hs hclosed hunclosed := absurd hunclosed (not_unclosed_of_quiet p hs hclosed)

instance {k : NodeKind} [Composed false p] [hk : IsFalse k.isProcedure] : Spares (within k p) where
  spares s _ _ _ := by
    obtain ⟨a, ts, hlast⟩ := getLast_within (k := k) (p := p) s
    refine ⟨_, hlast, isToken_above _ _ _, ?_⟩
    unfold Tree.isProcedure
    rw [Tree.kind_above]
    exact hk.eq_false

instance {α : Type} {f : TokenStream → α} {g : α → Production Unit} [hg : ∀ a, Spares (g a)] :
    Spares (look f >>= g) := ⟨fun s hs => (hg (f s.stream)).spares s hs⟩

instance {c : Prop} [Decidable c] [Spares p] [Spares q] : Spares (if c then p else q) := by
  split <;> infer_instance

instance : Spares typeStatement := by unfold typeStatement; infer_instance

instance : Spares enumStatement := by unfold enumStatement; infer_instance

instance (depth : Nat) (block : Block) : Spares (designerUpTo depth block) := by
  cases depth <;> unfold designerUpTo <;> infer_instance

instance : Spares designerStatement := by unfold designerStatement; infer_instance

variable {statement : Production Unit} [Composed false statement]

instance : Spares (ifStatement statement) := by unfold ifStatement; infer_instance

instance : Spares (selectStatement statement) := by unfold selectStatement; infer_instance

instance : Spares (forStatement statement) := by
  have hnode (kind : Kind) : Spares
      (within (if kind == .keyword .each then .forEachStatement else .forStatement) do
        shift
        if kind == .keyword .each then forEachHeader else forHeader
        finishStatement
        let stop ← blockBody statement .for_
        if stop == .ownCloser then nextClause) := by
    have : IsFalse (if kind == .keyword .each then NodeKind.forEachStatement
        else .forStatement).isProcedure := ⟨by split <;> rfl⟩
    infer_instance
  unfold forStatement secondKind
  infer_instance

instance : Spares (doStatement statement) := by unfold doStatement; infer_instance

instance : Spares (whileStatement statement) := by unfold whileStatement; infer_instance

instance : Spares (withStatement statement) := by unfold withStatement; infer_instance

/-! ### Every statement but a procedure -/

/-- Whether a production is a procedure where the word behind the modifiers is the one at hand. -/
def State.DeclaresProcedure (s : State) (statement p : Production Unit) : Prop :=
  s.OnDeclarator ∧ ∀ t : State, Lookahead.modifiedKind t.stream.rest =
    Lookahead.modifiedKind s.stream.rest →
    p.run t = (procedure statement).run t

variable (statement) in
omit [Composed false statement] in
/-- The word behind modifiers tells whether they declare a procedure. -/
theorem exists_declared : ∃ declared : Kind → Production Unit,
    modifiedStatement statement = look (fun s => Lookahead.modifiedKind s.rest) >>= declared ∧
      ∀ word, Spares (declared word) ∨ ¬ EndsLook word ∧ declared word = procedure statement := by
  refine ⟨_, rfl, fun word => ?_⟩
  split
  case h_1 | h_2 | h_3 => exact .inr ⟨not_endsLook_keyword _, rfl⟩
  all_goals exact .inl inferInstance

variable (statement) in
/-- What a keyword opens spares what is around it, or is a procedure. -/
theorem spares_or_procedure_of_keyword {keyword : Keyword} {s : State} (hs : s.InnermostInRow)
    (hkeyword : s.stream.current.kind = .keyword keyword)
    (h : keywordStatement? statement keyword = some p) :
    s.Spares p ∨ s.DeclaresProcedure statement p := by
  by_cases hmodifier : Lookahead.isModifier (.keyword keyword) = true
  · obtain rfl := eq_modifiedStatement hmodifier h
    obtain ⟨declared, hdeclared, hword⟩ := exists_declared statement
    have hrun (t : State) : (modifiedStatement statement).run t =
        (declared (Lookahead.modifiedKind t.stream.rest)).run t := by
      rw [hdeclared]
      rfl
    rcases hword (Lookahead.modifiedKind s.stream.rest) with hspares | ⟨hsolid, hprocedure⟩
    · refine .inl ?_
      unfold State.Spares
      rw [hrun]
      exact hspares.spares s hs
    · exact .inr ⟨hsolid, fun t ht => by rw [hrun, ht, hprocedure]⟩
  · have hdeclares : s.OnDeclarator := .of_keyword hkeyword (by simpa using hmodifier)
    unfold keywordStatement? at h
    split at h
    all_goals first
      | obtain rfl := Option.some.inj h
        first
          | exact .inl (Spares.spares s hs)
          | exact .inr ⟨hdeclares, fun _ _ => rfl⟩
          | exact absurd rfl hmodifier
      | obtain ⟨k, hk, rfl⟩ := Option.map_eq_some_iff.mp h
        have : IsTrue k.isOrdinary := ⟨isOrdinary_of_rawKind? hk⟩
        exact .inl (Spares.spares s hs)

variable (statement) in
/-- A statement spares what is around it, or is a procedure. -/
theorem spares_or_procedure {s : State} (hs : s.InnermostInRow) :
    s.Spares (statementFor statement s) ∨
      s.DeclaresProcedure statement (statementFor statement s) := by
  unfold statementFor
  split
  · exact .inl (Spares.spares s hs)
  cases hopened : openedStatement? statement s.stream with
  | some p =>
    obtain ⟨keyword, hkeyword, -, hopened⟩ := exists_keyword_of_openedStatement? hopened
    exact spares_or_procedure_of_keyword statement hs hkeyword hopened
  | none =>
    refine .inl ?_
    rw [Option.getD_none]
    unfold plainStatementFor
    cases hreplacement : replacement? s.stream with
    | some p =>
      have hquiet : Obeys quietLaw p := .of_replacement? hreplacement
      rw [Option.getD_some]
      exact Spares.spares s hs
    | none =>
      rw [Option.getD_none]
      exact Spares.spares s hs

end

/-! ## A procedure that is found open -/

/-- What stands in front of the body of a procedure. -/
def procedureFront (block : Block) : Production Unit := do
  shiftDeclarator
  procedureHeader block

theorem procedure_eq_front (statement : Production Unit) : procedure statement =
    look (fun s => procedureForm (Lookahead.modifiedKind s.rest)) >>= fun form =>
      within form.1 (procedureFront form.2 >>= fun _ => blockBody statement form.2 >>=
        blockEnd) := by
  rw [procedure_eq]
  unfold procedureFront shiftDeclarator shiftNext
  simp only [bind_assoc]

section

variable {P : Placement} {header : Token} {s : State}

instance (block : Block) : Composed false (procedureHeader block) := by
  unfold procedureHeader
  infer_instance

instance (block : Block) : Composed false (procedureFront block) := by
  unfold procedureFront
  infer_instance

instance (block : Block) : Obeys quietLaw (procedureFront block) := by
  unfold procedureFront procedureHeader
  infer_instance

instance (block : Block) :
    Settles P State.OnDeclarator (procedureFront block) (procedureFront block) := by
  unfold procedureFront procedureHeader
  exact ⟨carries_shiftDeclarator.bind fun _ => Settles.carries⟩

/-- The body of a procedure is read the same in front of a header. -/
theorem agrees_procedureBody {statement : Production Unit} [Composed false statement]
    [Settles P State.OnWord statement statement] [Advances statement] {block : Block}
    (hheader : P.header? ≠ none) (hblock : block.isProcedure = true) (hs : P.Admits s)
    (hsettled : s.Settled) (hline : s.lineMode = 0)
    (hregular : ((blockBody statement block).run s).2.Regular) :
    P.Agrees (blockBody statement block) (blockBody statement block) s := by
  have hrun (t : State) : (blockBody statement block).run t =
      (fun r : Stop × State => (r.1, { r.2 with blocks := r.2.blocks.tail, recovering := false }))
      ((within .statementList (statements statement)).run
          { t with blocks := block :: t.blocks }) := rfl
  have hcomposed : Composed false (within .statementList (statements statement)) := inferInstance
  have hbody : Carries P (State.Enclosed block) (within .statementList (statements statement))
      (within .statementList (statements statement)) (State.Behind block) :=
        (carries_statements block).within
  generalize hinside : ({ s with blocks := block :: s.blocks } : State) = inside
  have hplaced : { P.state s with blocks := block :: s.blocks } = P.state inside := by
    rw [← hinside]
  have hcontext := hcomposed.sameContext inside
  have hblocks : inside.blocks = block :: s.blocks := by rw [← hinside]
  have hlineMode : inside.lineMode = 0 := by rw [← hinside]; exact hline
  rw [hrun s, hinside] at hregular
  -- the end of the text is met within the procedure
  obtain ⟨hagrees, -⟩ := hbody.carries inside (by rw [← hinside]; exact ⟨hs.sound, hs.endsInBreak⟩)
    fun _ => ⟨by rw [← hinside]; exact ⟨hsettled, rfl⟩, fun hnone => absurd hnone hheader,
      fun _ => hregular, fun _ _ => hcontext.lineMode.trans hlineMode,
      fun _ _ => by rw [hcontext.blocks, hblocks, List.any_cons, hblock, Bool.true_or]⟩
  unfold Placement.Agrees at hagrees ⊢
  rw [hrun s, hinside, hrun (P.state s), hplaced, hagrees]

/-- A procedure whose body ends with its closer finds no block open. -/
theorem stop_ne_ownCloser_of_unclosed {statement : Production Unit} [Composed false statement]
    [Obeys accountLaw statement] [Advances statement] {block : Block} (hs : s.InnermostInRow)
    (hsound : s.stream.Sound) (hclosed : ¬ s.Unclosed)
    (hunclosed : ((blockBody statement block >>= blockEnd).run s).2.Unclosed) :
    ((blockBody statement block).run s).1 ≠ .ownCloser := by
  intro hstop
  obtain ⟨body, -, hends⟩ := ends_blockBody statement block hs
  rw [run_bind] at hunclosed
  generalize (blockBody statement block).run s = r at hstop hends hunclosed
  obtain ⟨stop, t⟩ := r
  obtain rfl : stop = .ownCloser := hstop
  obtain ⟨closed, -, hcloser⟩ := hends.closer rfl
  obtain ⟨hadds, accounts, haccounts, -⟩ := hends.holds
  refine not_unclosed_of_quiet (blockEnd .ownCloser) (hadds.innermostInRow hs) (fun hbody =>
    ?_) hunclosed
  exact hcloser.inLine.1 (haccounts.atEnd_of_unclosed hadds hsound hclosed hbody)

theorem isProcedure_procedureForm (kind : Kind) : (procedureForm kind).2.isProcedure = true := by
  unfold procedureForm
  split <;> rfl

/-- What stands in a procedure that is found open is read the same in front of a header. -/
theorem agrees_procedureParts {statement : Production Unit} [Composed false statement]
    [Obeys accountLaw statement] [Settles P State.OnWord statement statement] [Advances statement]
    {block : Block} (hopen : P.IsOpen) (hheader : P.header? ≠ none)
    (hblock : block.isProcedure = true)
    (hs : P.Admits s) (hrow : s.InnermostInRow) (hword : s.OnDeclarator) (hline : s.lineMode = 0)
    (hclosed : ¬ s.Unclosed)
    (hunclosed : ((procedureFront block >>= fun _ => blockBody statement block >>= blockEnd).run
      s).2.Unclosed)
    (hregular : ((procedureFront block >>= fun _ => blockBody statement block >>= blockEnd).run
      s).2.Regular) :
    P.Agrees (procedureFront block >>= fun _ => blockBody statement block >>= blockEnd)
      (procedureFront block >>= fun _ => blockBody statement block >>= blockEnd) s := by
  have hcomposed : Composed false (procedureFront block) := inferInstance
  have hrest : Composed false (blockBody statement block >>= blockEnd) := inferInstance
  have hend (stop : Stop) : Composed false (blockEnd stop) := inferInstance
  have hquiet : Obeys quietLaw (procedureFront block) := inferInstance
  have hfront : Settles P State.OnDeclarator (procedureFront block) (procedureFront block) :=
    inferInstance
  -- no block is found open in front of the body
  have hfrontClosed := not_unclosed_of_quiet (procedureFront block) hrow hclosed
  have hlineMode := (hcomposed.sameContext s).lineMode.trans hline
  obtain ⟨hagrees, hsettled⟩ := hfront.carries.carries s hs fun _ =>
    ⟨hword, fun hnone => absurd hnone hheader, fun _ => hrest.regular hregular,
      fun _ _ => hlineMode, fun _ hfound => absurd hfound hfrontClosed⟩
  have hs' := hs.of_follows (hcomposed.follows s)
  have hrow' := hquiet.innermostInRow hrow
  have hrun (t : State) :
      (procedureFront block >>= fun _ => blockBody statement block >>= blockEnd).run t =
      (fun r : Stop × State => (blockEnd r.1).run r.2)
      ((blockBody statement block).run ((procedureFront block).run t).2) := rfl
  have hstop := stop_ne_ownCloser_of_unclosed hrow' hs'.sound hfrontClosed hunclosed
  have hplaced : place P ((blockBody statement block).run ((procedureFront block).run s).2).1 ≠
      .ownCloser := by
    rwa [Ne, ← beq_iff_eq, place_stop_beq_ownCloser, beq_iff_eq]
  have hbody := agrees_procedureBody hheader hblock hs' (hsettled hopen) hlineMode
    ((hend _).regular hregular)
  unfold Placement.Agrees at hagrees hbody ⊢
  rw [hrun (P.state s), hagrees, hbody, hrun s]
  dsimp only
  rw [run_blockEnd_of_ne hstop, run_blockEnd_of_ne hplaced]

/-- A procedure that is found open is read the same in front of a header. -/
theorem agrees_procedure {statement : Production Unit} [Composed false statement]
    [Obeys accountLaw statement] [Settles P State.OnWord statement statement] [Advances statement]
    (hopen : P.IsOpen) (hheader : P.header? ≠ none) (hs : P.Admits s) (hword : s.OnDeclarator)
    (hline : s.lineMode = 0) (hclosed : ¬ s.Unclosed)
    (hunclosed : ((procedure statement).run s).2.Unclosed)
    (hregular : ((procedure statement).run s).2.Regular) :
    P.Agrees (procedure statement) (procedure statement) s := by
  have hform : Lookahead.modifiedKind (P.stream s.stream).rest =
      Lookahead.modifiedKind s.stream.rest :=
    (hs.sameLine fun _ => hword.inside).modifiedKind_eq
  have hprocedure := isProcedure_procedureForm (Lookahead.modifiedKind s.stream.rest)
  rw [procedure_eq_front] at hunclosed hregular ⊢
  unfold Placement.Agrees
  rw [run_look_bind] at hunclosed hregular ⊢
  rw [run_look_bind, hform]
  generalize procedureForm (Lookahead.modifiedKind s.stream.rest) =
    form at hunclosed hregular hprocedure ⊢
  obtain ⟨k, block⟩ := form
  dsimp only at hunclosed hregular hprocedure ⊢
  have hcomposed :
      Composed false (procedureFront block >>= fun _ => blockBody statement block >>= blockEnd) :=
    inferInstance
  have hopened := (hcomposed.sameContext (s.opening k)).opened
  rw [run_within] at hunclosed hregular
  have hadmits : P.Admits (s.opening k) := ⟨hs.sound, hs.endsInBreak⟩
  have hparts := agrees_procedureParts (s := s.opening k) hopen hheader hprocedure hadmits
    (State.innermostInRow_opening s k) hword hline hclosed hunclosed (.of_closing hregular)
  unfold Placement.Agrees at hparts
  rw [run_within, run_within, P.state_opening, hparts, state_closing hopened]

/-! ## Outside of every block -/

/-- Whether the last tree that has been read is a procedure, if it is a node. -/
def State.EndsInProcedure (s : State) : Prop :=
  ∀ n, s.builder.pending.toList.getLast? = some n → n.isToken = false → n.isProcedure = true

theorem State.Spares.not_unclosed {p : Production Unit} (h : s.Spares p) (hclosed : ¬ s.Unclosed)
    (hlast : (p.run s).2.EndsInProcedure) : ¬ (p.run s).2.Unclosed := by
  intro hunclosed
  obtain ⟨n, hn, htoken, hprocedure⟩ := h hclosed hunclosed
  exact absurd (hprocedure.symm.trans (hlast n hn htoken)) (by decide)

instance : Inline P startStatement startStatement := by unfold startStatement; infer_instance

instance : KeepsLine startStatement := by unfold startStatement; infer_instance

/-- A statement that finds a procedure open is read the same in front of a header. -/
theorem agrees_statementUpTo {depth : Nat} (hopen : P.IsOpen) (hheader : P.header? ≠ none)
    (hs : P.Admits s) (hrow : s.InnermostInRow) (hword : s.OnWord) (hline : s.lineMode = 0)
    (hclosed : ¬ s.Unclosed) (hunclosed : ((statementUpTo depth).run s).2.Unclosed)
    (hregular : ((statementUpTo depth).run s).2.Regular)
    (hlast : ((statementUpTo depth).run s).2.EndsInProcedure) :
    P.Agrees (statementUpTo depth) (statementUpTo depth) s := by
  obtain _ | depth := depth
  · have hshift : Spares shift := inferInstance
    exact absurd hunclosed ((hshift.spares s hrow).not_unclosed hclosed hlast)
  have hrun (t : State) : (statementUpTo (depth + 1)).run t =
      (statementFor (statementUpTo depth) (startStatement.run t).2).run
        (startStatement.run t).2 := by
    rw [statementUpTo, statementWith_eq, run_bind, run_statementAtCursor]
  have hstart : Inline P startStatement startStatement := inferInstance
  have hagrees := hstart.agrees s hs fun _ => ⟨hword.inside, KeepsLine.keepsLine s⟩
  have hstarted : (startStatement.run s).2 =
      ((note .statement s.stream.current).run { s with recovering := false }).2 := by
    rw [run_startStatement hword.1]
  rw [hrun s] at hunclosed hregular hlast
  unfold Placement.Agrees at hagrees ⊢
  rw [hrun (P.state s), hrun s, hagrees]
  -- what starts the statement moves nothing
  generalize (startStatement.run s).2 = started at hunclosed hregular hlast hstarted ⊢
  have hadmits : P.Admits started := by
    rw [hstarted]
    exact ⟨hs.sound, hs.endsInBreak⟩
  have hrow' : started.InnermostInRow := by rwa [hstarted]
  have hword' : started.OnWord := by rwa [hstarted]
  have hline' : started.lineMode = 0 := by rwa [hstarted]
  have hclosed' : ¬ started.Unclosed := by rwa [hstarted]
  dsimp only
  rw [statementFor_state (statementUpTo depth) hadmits fun _ => hword']
  rcases spares_or_procedure (statementUpTo depth) hrow' with hspares | ⟨hdeclares, hprocedure⟩
  · exact absurd hunclosed (hspares.not_unclosed hclosed' hlast)
  · have hplaced : Lookahead.modifiedKind (P.stream started.stream).rest =
        Lookahead.modifiedKind started.stream.rest :=
      (hadmits.sameLine fun _ => hdeclares.inside).modifiedKind_eq
    rw [hprocedure started rfl] at hunclosed hregular ⊢
    rw [hprocedure (P.state started) hplaced]
    exact agrees_procedure hopen hheader hadmits hdeclares hline' hclosed' hunclosed hregular

instance {L : Law} [Refers L] {statement : Production Unit} [Obeys L statement]
    (stream : TokenStream) :
    Obeys L (outermostItem statement stream) := by
  unfold outermostItem
  cases Closer.ofKinds? (stream.peekSignificant 0).kind (stream.peekSignificant 1).kind <;>
    infer_instance

/-- An item that finds a procedure open is read the same in front of a header. -/
theorem agrees_outermostItem {depth : Nat} (hopen : P.IsOpen) (hheader : P.header? ≠ none)
    (hs : P.Admits s) (hrow : s.InnermostInRow) (hinside : s.Inside) (hline : s.lineMode = 0)
    (hclosed : ¬ s.Unclosed)
    (hregular : ((outermostItem (statementUpTo depth) s.stream).run s).2.Regular)
    (hlast : ((outermostItem (statementUpTo depth) s.stream).run s).2.Unclosed →
      ((outermostItem (statementUpTo depth) s.stream).run s).2.EndsInProcedure) :
    P.Agrees (outermostItem (statementUpTo depth) s.stream)
      (outermostItem (statementUpTo depth) s.stream) s := by
  have hcomposed : Composed false (outermostItem (statementUpTo depth) s.stream) := inferInstance
  -- only a statement can leave a block open; every other item spares those that are open
  by_cases hunclosed : ((outermostItem (statementUpTo depth) s.stream).run s).2.Unclosed
  · have hspared {p : Production Unit} [hp : Spares p] (hend : (p.run s).2.Unclosed)
        (hlast : (p.run s).2.EndsInProcedure) : False :=
      (hp.spares s hrow).not_unclosed hclosed hlast hend
    replace hlast := hlast hunclosed
    unfold outermostItem at hunclosed hregular hlast ⊢
    split_ifs at hunclosed hregular hlast ⊢ with htrivia
    · exact (hspared hunclosed hlast).elim
    · exact (hspared hunclosed hlast).elim
    · cases hcloser : Closer.ofKinds? (s.stream.peekSignificant 0).kind
        (s.stream.peekSignificant 1).kind with
      | some closer =>
        rw [hcloser] at hunclosed hlast
        exact (hspared hunclosed hlast).elim
      | none =>
        rw [hcloser] at hunclosed hregular hlast
        exact agrees_statementUpTo hopen hheader hs hrow
          (State.onWord_of_not_isTrivia (by simpa using htrivia) hinside) hline hclosed hunclosed
            hregular hlast
  · exact ((carries_outermostItem (statementUpTo depth) s).carries s hs fun _ =>
      ⟨⟨rfl, hinside, hline⟩,
      fun hnone => absurd hnone hheader, fun _ => hregular,
      fun _ _ => (hcomposed.sameContext s).lineMode.trans hline, fun _ hfound =>
        absurd hfound hunclosed⟩).1

/-- Reading a text in front of a header, with a procedure left open at its end, comes by the state
that reading the text alone leads to. -/
theorem run_statements_open {d : Nat} (hopen : P.IsOpen) (hheader : P.header? ≠ none)
    (hs : P.Admits s) (houtermost : s.Outermost) (hrow : s.InnermostInRow) (hclosed : ¬ s.Unclosed)
    (hregular : ((statements (statementUpTo d)).run s).2.Regular)
    (hlast : ((statements (statementUpTo d)).run s).2.EndsInProcedure) :
    (statements (statementUpTo d)).run (P.state s) =
      (statements (statementUpTo d)).run (P.state ((statements (statementUpTo d)).run s).2) := by
  generalize hn : s.stream.remaining = n
  -- by induction on the tokens ahead: an item that leaves no procedure open is placed as it stands
  induction n using Nat.strongRecOn generalizing s with
  | ind n ih =>
    by_cases hend : s.AtEnd
    · rw [run_statements_of_atEnd houtermost hend]
    have hitem : Composed false (outermostItem (statementUpTo d) s.stream) := inferInstance
    have hrest : Composed false (statements (statementUpTo d)) := inferInstance
    have haccounts : Obeys accountLaw (outermostItem (statementUpTo d) s.stream) := inferInstance
    have hlt : ((outermostItem (statementUpTo d) s.stream).run s).2.stream.remaining <
        s.stream.remaining :=
      Advances.remaining_lt s hend
    have hcurrent := (hs.sameLine fun _ => hend).current
    have hend' : ¬ (P.state s).AtEnd := by rwa [State.AtEnd, hcurrent]
    have hatEnd :=
      atEnd_of_unclosed (outermostItem (statementUpTo d) s.stream) hrow hs.sound hclosed
    have houtermost' := houtermost.of_sameContext (hitem.sameContext s)
    rw [run_statements_of_inside (statementUpTo d) houtermost hend] at hregular hlast ⊢
    rw [run_statements_of_inside (statementUpTo d) (s := P.state s)
      ⟨houtermost.blocks, houtermost.lineMode⟩
      hend', outermostItem_state hs fun _ => hend]
    have hagrees := agrees_outermostItem hopen hheader hs hrow hend houtermost.lineMode hclosed
      (hrest.regular hregular) fun hunclosed => by
        rwa [run_statements_of_atEnd houtermost' (hatEnd hunclosed)] at hlast
    have hs' := hs.of_follows (hitem.follows s)
    have hrow' := haccounts.innermostInRow hrow
    unfold Placement.Agrees at hagrees
    rw [hagrees]
    by_cases hunclosed : ((outermostItem (statementUpTo d) s.stream).run s).2.Unclosed
    · -- the item that finds a procedure open is the last one
      rw [run_statements_of_atEnd houtermost' (hatEnd hunclosed)]
    · exact ih _ (by omega) hs' houtermost' hrow' hunclosed hregular hlast rfl

end

/-! ## Behind the text -/

/-- A header is read as a statement. -/
theorem State.AtHeader.outermostItem_eq {header : Token} {s : State} (h : s.AtHeader header)
    (statement : Production Unit) : outermostItem statement s.stream = statement := by
  unfold outermostItem
  rw [h.current, if_neg (by rw [h.solid]; exact Bool.false_ne_true),
    if_neg (by rw [h.kind_ne_of_not_mem (by simp)]; exact Bool.false_ne_true),
    h.peekSignificant_zero,
    h.ofKinds?_eq_none]

/-- A header is read the same whatever separates it from the statement before. -/
theorem State.AtHeader.run_statements_separated {header : Token} {s : State} (h : s.AtHeader header)
    (houtermost : s.Outermost) (depth : Nat) (separator : Separator) :
    (statements (statementUpTo (depth + 1))).run (s.separated separator) =
      (statements (statementUpTo (depth + 1))).run s := by
  have hseparated : (s.separated separator).AtHeader header := ⟨h.current, h.solid, h.starts⟩
  have hinside : ¬ s.AtEnd := by
    intro hend
    have hkind := h.kind_mem
    rw [← h.current, hend] at hkind
    simp at hkind
  rw [run_statements_of_inside _ houtermost hinside,
    run_statements_of_inside _ (s := s.separated separator)
      ⟨houtermost.blocks, houtermost.lineMode⟩ hinside,
    h.outermostItem_eq, hseparated.outermostItem_eq, statementUpTo, h.run_statementWith_separated]

end Grammar

/-- A failure where the header of a procedure takes the place of the end of the text: a closer that
is missed at the end is missed at the header. -/
def Failure.beforeHeader (header : Token) (f : Failure) : Failure :=
  match f.problem with
  | .missingCloser block got =>
    if got.kind = .lexeme .endOfFile then .atToken (.missingCloser block header) header else f
  | _ => f

namespace Grammar

theorem Placement.failure_eq_beforeHeader {P : Placement} {header : Token}
    (hheader : P.header? = some header)
    (hzero : P.relocation = {}) : P.failure = Failure.beforeHeader header := by
  funext f
  unfold Placement.failure Failure.beforeHeader
  rw [hheader, hzero, Relocation.failure_zero]
  generalize f.problem = problem
  cases problem <;> rfl

/-- A text that ends within a procedure and the text behind it, which starts with the header of
another one, are read as they are alone, but that the closers that are missed at the end of the
first text are missed at the header. -/
theorem read_append_open {a b ab : TokenStream} {r : Relocation} (ha : a.Sound) (hb : b.Sound)
    (hpassed : a.passed = [] ∧ b.passed = [] ∧ ab.passed = [])
    (hrest : ab.rest = a.rest.dropLast ++ b.rest.map r.token)
    (hbreak : ∀ t ∈ a.rest.dropLast.getLast?, t.kind = .trivia .newline)
    (hsolid : b.current.kind.isTrivia = false) (hstarts : Lookahead.startsProcedure b.rest = true)
    (hregular : (State.read a).Regular) (hlast : (State.read a).EndsInProcedure) :
    (State.read ab).builder.pending =
        (State.read a).builder.pending ++ (State.read b).builder.pending.map r.tree ∧
      (State.read ab).failures =
        (State.read a).failures.map (Failure.beforeHeader (r.token b.current)) ++
        (State.read b).failures.map r.failure ∧
      (State.read ab).implicitTargets =
        (State.read a).implicitTargets ++ (State.read b).implicitTargets.map r.target := by
  have hheader : ∀ header ∈ some (r.token b.current), r.token b.current = header ∧
      header.kind.isTrivia = false ∧ Lookahead.startsProcedure (b.rest.map r.token) = true := by
    rintro _ ⟨⟩
    exact ⟨rfl, hsolid, (b.sameLine_map r).startsProcedure_eq.trans hstarts⟩
  obtain ⟨P, hopen, hheader, hzero, hbase, hstart, hrestP⟩ :=
    exists_placement_append ⟨hpassed.1, hpassed.2.2⟩ hrest _ hheader
  -- the first text is read as it is alone up to the header, and the second as it is alone from
  -- there
  have hlength := remaining_of_rest_append hrest
  have hread := @run_statements_read a (ab.remaining + 1) (by omega)
  have hrun :=
    run_statements_open (d := ab.remaining + 1) (s := { stream := a }) hopen (by simp [hheader])
    ⟨ha, fun _ => hbreak⟩ ⟨rfl, rfl⟩ (Nat.le_refl _) (by rintro ⟨block, ⟨⟩⟩) (by rwa [hread])
      (by rwa [hread])
  rw [hread, hstart] at hrun
  have hat : (P.state (State.read a)).AtHeader (r.token b.current) :=
    P.atHeader (sound_read ha) (atEnd_read a) hheader
  have hbehind :=
    leaves_read_behind hbase ha hb hpassed.2.1 hrestP (d := ab.remaining + 1) (by omega)
  rw [hat.run_statements_separated ⟨(outermost_read a).blocks, (outermost_read a).lineMode⟩,
    ← hrun] at hbehind
  obtain ⟨hpending, hfailures, htargets, -⟩ := hbehind
  have hfailed := P.failure_eq_beforeHeader hheader hzero
  refine ⟨hpending.trans ?_, hfailures.trans ?_, htargets.trans ?_⟩
  · simp [Placement.builder, hbase, hzero, Array.map_id'' Relocation.tree_zero]
  · simp [hbase, hfailed]
  · simp [hbase, hzero, Array.map_id'' Relocation.target_zero]

/-- A source that ends within a procedure and what the header of another one starts are read as they
are alone, but for the closers that are missed in between. -/
theorem final_append_open {a b ab : TokenStream} {r : Relocation} (ha : a.Sound) (hb : b.Sound)
    (hab : ab.Sound) (hpassed : a.passed = [] ∧ b.passed = [] ∧ ab.passed = [])
    (hrest : ab.rest = a.rest.dropLast ++ b.rest.map r.token)
    (hbreak : ∀ t ∈ a.rest.dropLast.getLast?, t.kind = .trivia .newline)
    (hsolid : b.current.kind.isTrivia = false) (hstarts : Lookahead.startsProcedure b.rest = true)
    (hregular : (State.final a).Regular) (hlast : (State.final a).EndsInProcedure) :
    (State.final ab).builder.pending =
        (State.final a).builder.pending ++ (State.final b).builder.pending.map r.tree ∧
      (State.final ab).failures =
        (State.final a).failures.map (Failure.beforeHeader (r.token b.current)) ++
        (State.final b).failures.map r.failure ∧
      (State.final ab).implicitTargets =
        (State.final a).implicitTargets ++ (State.final b).implicitTargets.map r.target := by
  have hreads {stream : TokenStream} (hs : stream.Sound) (hpassed : stream.passed = []) :=
    (final_eq_read hs hpassed).2.of_start ⟨rfl, rfl, rfl, rfl⟩
  obtain ⟨hpendingA, hfailuresA, htargetsA, -⟩ := hreads ha hpassed.1
  obtain ⟨hpendingB, hfailuresB, htargetsB, -⟩ := hreads hb hpassed.2.1
  obtain ⟨hpendingAB, hfailuresAB, htargetsAB, -⟩ := hreads hab hpassed.2.2
  unfold State.Regular at hregular
  unfold State.EndsInProcedure at hlast
  rw [hpendingA] at hregular hlast
  rw [hpendingA, hpendingB, hpendingAB, hfailuresA, hfailuresB, hfailuresAB, htargetsA,
    htargetsB, htargetsAB]
  exact read_append_open ha hb hpassed hrest hbreak hsolid hstarts hregular hlast

end Grammar

end LosslessBasic
