import LosslessBasic.Proofs.Grammar.PartsTrimmed

/-!
# Statements are trimmed

The pass of `Trims` over statements and the lists that hold them, up to a whole source: when a
source is read without a failure, no fragment in its tree starts or ends with blanks
(`isTrimmed_of_mem_final`). A statement may leave blanks behind its last word, so nothing is said of
the last token that it moves.
-/

namespace LosslessBasic

namespace Grammar

set_option synthInstance.maxSize 65536

/-- A production that adds trimmed trees from every state on. -/
abbrev TrimsAll {α : Type} (p : Production α) : Prop := Trims .any .loose p

variable {s : State}

instance {b : Prop} [Decidable b] {k l : NodeKind} [hk : IsTrue (!k.isFragment)]
    [hl : IsTrue (!l.isFragment)] : IsTrue (!(if b then k else l).isFragment) := by
  split <;> assumption

instance : Looks secondKind := ⟨fun _ => rfl⟩

/-! ## The ends of statements -/

instance : TrimsAll shiftLineBreak := by unfold shiftLineBreak; infer_instance

instance : TrimsAll statementEnd := by unfold statementEnd; infer_instance

instance : Composed false statementEnd := by unfold statementEnd; infer_instance

/-- What is left over of a statement is reported. -/
instance : TrimsAll finishStatement where
  holds s hs _ := by
    have htest : (withinStatement.run s).2 = s := rfl
    cases hwithin : (withinStatement.run s).1 with
    | false =>
      rw [run_finishStatement_of_ended hwithin]
      exact Trims.holds (c := .any) s hs trivial
    | true =>
      have hfails : Fails (do
          fail (.leftover (s.stream.peekSignificant 0)) (s.stream.peekSignificant 0)
          recover
          statementEnd) := inferInstance
      have hclean : ¬ (s.stream.peekSignificant 0).kind.isLexicalError = true := by
        simp [hs.clean_next 0]
      unfold finishStatement next
      dsimp only
      rw [run_bind, if_pos hwithin, htest, run_look_bind, if_neg hclean]
      exact .inl (hfails.failures_ne s hs)

instance (k : NodeKind) [IsTrue (!k.isFragment)] : TrimsAll (rawStatement k) := by
  have hrest : TrimsAll shiftRest := by unfold shiftRest; infer_instance
  unfold rawStatement
  infer_instance

/-! ## Simple statements -/

instance : TrimsAll dimStatement := by unfold dimStatement; infer_instance

instance : TrimsAll constStatement := by unfold constStatement; infer_instance

instance : TrimsAll reDimStatement := by unfold reDimStatement; infer_instance

instance : TrimsAll eraseStatement := by unfold eraseStatement; infer_instance

instance : TrimsAll externalSignature := by unfold externalSignature; infer_instance

instance : TrimsAll declareStatement := by unfold declareStatement; dsimp only; infer_instance

instance : TrimsAll eventStatement := by unfold eventStatement; dsimp only; infer_instance

instance : TrimsAll implementsStatement := by unfold implementsStatement; infer_instance

instance : TrimsAll assignment := by unfold assignment; dsimp only; infer_instance

instance : TrimsAll assignmentStatement := by unfold assignmentStatement; infer_instance

instance (k : NodeKind) [IsTrue (!k.isFragment)] : TrimsAll (wordedAssignment k) := by
  unfold wordedAssignment
  infer_instance

/-- Arguments are read only where the statement goes on. -/
instance : TrimsAll (do
    if ← withinStatement then commandArguments
    finishStatement) where
  holds s hs _ := by
    have htest : (withinStatement.run s).2 = s := rfl
    have hend : Composed false finishStatement := inferInstance
    dsimp only
    rw [run_bind, htest]
    cases hwithin : (withinStatement.run s).1 with
    | true =>
      rw [if_pos rfl, run_bind]
      exact (trims_commandArguments hs hwithin).append hs hend.failures_ne
        (fun ht => Trims.holds (c := .any) (e := .loose) _ ht trivial) fun _ _ _ _ => trivial
    | false =>
      rw [if_neg Bool.false_ne_true]
      exact Trims.holds (c := .any) s hs trivial

instance : TrimsAll call := by unfold call; infer_instance

instance : TrimsAll callStatement := by unfold callStatement; infer_instance

instance : TrimsAll callKeywordStatement := by unfold callKeywordStatement; infer_instance

instance : TrimsAll raiseEventStatement := by
  unfold raiseEventStatement
  dsimp only
  infer_instance

instance (k : NodeKind) [IsTrue (!k.isFragment)] : TrimsAll (wordStatement k) := by
  unfold wordStatement
  infer_instance

instance : Trims .any .filled label := by
  unfold label
  exact .of_nextKind
    (d := fun k => (k.isNameLike || k == .lexeme .integerLiteral || k == .lexeme .longLiteral) =
      true)
    (by decide)

instance (k : NodeKind) [IsTrue (!k.isFragment)] : TrimsAll (jumpStatement k) := by
  unfold jumpStatement
  infer_instance

instance : TrimsAll resumeStatement := by unfold resumeStatement; dsimp only; infer_instance

instance : TrimsAll exitTarget := by unfold exitTarget; infer_instance

instance : TrimsAll exitStatement := by unfold exitStatement; infer_instance

instance : TrimsAll onErrorStatement := by unfold onErrorStatement; dsimp only; infer_instance

instance : TrimsAll jumpNumber := by unfold jumpNumber; infer_instance

instance : TrimsAll jumpChoices := by unfold jumpChoices; dsimp only; infer_instance

/-- A node that is no fragment around what was moved since a checkpoint and what is moved within
it. -/
theorem trims_compositeFrom_of_not_isFragment {k : NodeKind} {p : Production Unit} {t : State}
    [hp : TrimsAll p] [hcomposed : Composed false p] (hk : k.isFragment = false) (hs : s.Fresh)
    (h : s.Trims .loose t) : s.Trims .loose ((compositeFrom s.builder.checkpoint k p).run t).2 := by
  have hnode : Composed false (compositeFrom s.builder.checkpoint k p) := inferInstance
  rcases h with hfailures | ⟨hrecovering, trees, hadds, htrees, -⟩
  · exact .inl (hnode.failures_ne hfailures)
  · have hopened : (t.openingAt s.builder.checkpoint k).Fresh :=
      ⟨hadds.innermostInRow_openingAt hs.innermostInRow k, hrecovering,
        (hs.of_adds hadds hrecovering).clean⟩
    rw [run_compositeFrom]
    rcases hp.holds _ hopened trivial with hfailures | ⟨hrecovering', more, hmore, htrimmed, -⟩
    · exact .inl hfailures
    · refine .inr ⟨hrecovering', _, (hadds.closing_openingAt hs.innermostInRow hmore).1,
        ?_, trivial⟩
      simpa using Tree.isTrimmed_above (fun h => absurd (hk.symm.trans h) Bool.false_ne_true)
        (List.forall_mem_append.mpr ⟨htrees, htrimmed⟩)

/-- The node of a chosen jump is no fragment. -/
instance : TrimsAll onJumpStatement where
  holds s hs _ := by
    have hnumber : TrimsAll jumpNumber := inferInstance
    have hchoices : Composed false jumpChoices := by unfold jumpChoices; dsimp only; infer_instance
    rw [run_onJumpStatement]
    exact trims_compositeFrom_of_not_isFragment (by split <;> rfl) hs (hnumber.holds s hs trivial)

instance : TrimsAll onStatement := by unfold onStatement; infer_instance

instance : TrimsAll lineStatement := by unfold lineStatement; infer_instance

instance : TrimsAll labelStatement := by unfold labelStatement; dsimp only; infer_instance

instance : TrimsAll unknownStatement := by unfold unknownStatement; infer_instance

/-- What starts no statement is reported. -/
instance : Fails unexpectedStatement where
  failures_ne s hs := by
    have hfails : Fails (do
        report (.unexpectedStart s.stream.current) s.stream.current
        setRecovering true
        unknownStatement) := inferInstance
    have hclean : ¬ s.stream.current.kind.isLexicalError = true := by simp [hs.clean_current]
    unfold unexpectedStatement current
    dsimp only
    rw [run_look_bind, if_neg hclean]
    exact hfails.failures_ne s hs

/-! ## Types, enumerations and designer blocks -/

instance (k : NodeKind) [IsTrue (!k.isFragment)] (details : Production Unit) [TrimsAll details]
    [Composed false details] : TrimsAll (member k details) := by
  unfold member
  infer_instance

instance : TrimsAll typeMember := by unfold typeMember; infer_instance

instance : TrimsAll enumMember := by unfold enumMember; infer_instance

instance : TrimsAll closeBlock := by unfold closeBlock; infer_instance

instance : Looks atProcedureHeader := ⟨fun _ => rfl⟩

instance (closer : Keyword) : Looks (atCloser closer) := ⟨fun _ => rfl⟩

section

variable {item : Production Unit} [TrimsAll item] [Composed false item]

instance : TrimsAll (memberOrToken item) := by unfold memberOrToken; infer_instance

instance (block : Block) (closer : Keyword) (u : Unit) :
    TrimsAll (memberPass block closer item u) := by
  unfold memberPass
  infer_instance

end

instance : TrimsAll typeStatement := by unfold typeStatement memberBlock; infer_instance

instance : TrimsAll enumStatement := by unfold enumStatement memberBlock; infer_instance

instance : TrimsAll propertyAssignment := by unfold propertyAssignment; infer_instance

instance (inner : Block → Production Unit) [∀ block, TrimsAll (inner block)]
    (block? : Option Block) :
    TrimsAll (blockOrProperty inner block?) := by
  cases block? <;> unfold blockOrProperty <;> infer_instance

instance (block : Block) : Looks (atDesignerEnd block) := ⟨fun _ => rfl⟩

instance : Looks designerBlock? := ⟨fun s => by
  unfold designerBlock? current
  rw [run_look_bind]
  split_ifs <;> rfl⟩

instance (inner : Block → Production Unit) [∀ block, TrimsAll (inner block)]
    [∀ block, Composed false (inner block)] (block : Block) (u : Unit) :
    TrimsAll (designerPass inner block u) := by
  unfold designerPass
  infer_instance

instance (depth : Nat) (block : Block) : TrimsAll (designerUpTo depth block) := by
  induction depth generalizing block with
  | zero => unfold designerUpTo; infer_instance
  | succ depth ih =>
    have hrest : TrimsAll shiftRest := by unfold shiftRest; infer_instance
    unfold designerUpTo
    infer_instance

instance : TrimsAll designerStatement := by unfold designerStatement; infer_instance

/-! ## Lists of statements -/

instance : TrimsAll separator := by unfold separator; infer_instance

instance : TrimsAll shiftTrivia := by unfold shiftTrivia; infer_instance

instance : Looks nextCloser? := ⟨fun _ => rfl⟩

instance (t : Token) : TrimsAll (reportMissingCloser t) where
  holds s hs _ := by
    unfold reportMissingCloser
    rw [run_bind, run_get]
    dsimp only
    cases s.blocks with
    | nil => exact .refl hs
    | cons block _ => exact .inl (Fails.failures_ne (p := report (.missingCloser block t) t) s hs)

instance : Looks writtenCloser := ⟨fun s => by
  unfold writtenCloser current
  rw [run_look_bind]
  split <;> rfl⟩

/-- A closer that no block waits for is reported. -/
instance (closer : Closer) : Fails (strayCloser closer) := by unfold strayCloser; infer_instance

instance (stop : Stop) : TrimsAll (blockEnd stop) := by unfold blockEnd; infer_instance

instance (b : Block) : Looks (blockIsOpen b) := ⟨fun _ => rfl⟩

instance : Looks insideProcedure := ⟨fun _ => rfl⟩

section

variable {α : Type} {p : Production α}

/-- What is read in a context of its own adds the same trees around it. -/
theorem State.Trims.leave {s' t t' : State} {e : Edge} (h : s'.Trims e t')
    (hfailures : t.failures = t'.failures) (hrecovering : t.recovering = t'.recovering)
    (hadds : ∀ {trees}, s'.Adds trees t' → s.Adds trees t) : s.Trims e t := by
  rcases h with hfailed | ⟨hgood, trees, h, hrest⟩
  · exact .inl (hfailures ▸ hfailed)
  · exact .inr ⟨hrecovering.trans hgood, trees, hadds h, hrest⟩

instance (block : Block) [h : TrimsAll p] : TrimsAll (inBlock block p) where
  holds s hs _ := (h.holds { s with blocks := block :: s.blocks }
    ⟨hs.innermostInRow, hs.recovering, hs.clean⟩ trivial).leave rfl rfl State.Adds.inBlock

instance (target : Option Tree) [h : TrimsAll p] : TrimsAll (inWith target p) where
  holds s hs _ := (h.holds { s with withTargets := target :: s.withTargets }
    ⟨hs.innermostInRow, hs.recovering, hs.clean⟩ trivial).leave rfl rfl State.Adds.inWith

instance [h : TrimsAll p] : TrimsAll (onOneLine p) where
  holds s hs _ := (h.holds { s with lineMode := s.lineMode + 1 }
    ⟨hs.innermostInRow, hs.recovering, hs.clean⟩ trivial).leave rfl rfl State.Adds.onOneLine

end

section

variable {statement : Production Unit} [TrimsAll statement] [Composed false statement]

instance : TrimsAll (statementPass statement) := by unfold statementPass; infer_instance

instance (closer : Closer) : TrimsAll (closerPass closer) := by unfold closerPass; infer_instance

instance (closer? : Option Closer) : TrimsAll (closerOrStatementPass statement closer?) := by
  cases closer? <;> unfold closerOrStatementPass <;> infer_instance

instance : TrimsAll (listPass statement) := by unfold listPass; infer_instance

instance (u : Unit) : TrimsAll (statementsPass statement u) := by
  unfold statementsPass
  infer_instance

instance : TrimsAll (statements statement) := by unfold statements; infer_instance

instance (block : Block) : TrimsAll (blockBody statement block) := by
  unfold blockBody
  infer_instance

instance : Fails secondElse := by unfold secondElse; infer_instance

instance (endsAtElse : Bool) (u : Unit) : TrimsAll (inlinePass statement endsAtElse u) := by
  unfold inlinePass
  infer_instance

instance (endsAtElse : Bool) : TrimsAll (inlineStatements statement endsAtElse) := by
  unfold inlineStatements
  infer_instance

/-! ## Blocks -/

instance : TrimsAll ifHeader := by unfold ifHeader; infer_instance

instance (endsAtElse : Bool) : TrimsAll (inlineArm statement endsAtElse) := by
  unfold inlineArm lineNumberJump
  dsimp only
  infer_instance

instance : TrimsAll (inlineArms statement) := by unfold inlineArms; infer_instance

instance : TrimsAll (singleLineIf statement) := by unfold singleLineIf; infer_instance

instance (stop : Stop) : TrimsAll (elseIfPass statement stop) := by
  unfold elseIfPass
  infer_instance

instance : Looks atElse := ⟨fun _ => rfl⟩

instance (stop : Stop) : TrimsAll (elseBodyPass statement stop) := by
  unfold elseBodyPass
  infer_instance

instance : TrimsAll (elseClause statement) := by unfold elseClause; infer_instance

instance : TrimsAll (blockIf statement) := by unfold blockIf; infer_instance

instance : TrimsAll (ifStatement statement) := by unfold ifStatement; infer_instance

instance : TrimsAll forEachHeader := by unfold forEachHeader; infer_instance

instance : TrimsAll forHeader := by unfold forHeader; infer_instance

instance : Looks openLoops := ⟨fun _ => rfl⟩

instance (closed : Nat) : TrimsAll (nextVariablePass closed) := by
  unfold nextVariablePass
  dsimp only
  infer_instance

instance : TrimsAll nextClause := by unfold nextClause; dsimp only; infer_instance

instance : TrimsAll (forStatement statement) := by unfold forStatement; dsimp only; infer_instance

instance : Looks atLoopCondition := ⟨fun _ => rfl⟩

instance : TrimsAll optionalLoopCondition := by unfold optionalLoopCondition; infer_instance

instance : TrimsAll (doStatement statement) := by unfold doStatement; infer_instance

instance : TrimsAll (whileStatement statement) := by unfold whileStatement; infer_instance

instance : TrimsAll (withStatement statement) := by unfold withStatement; infer_instance

instance : Looks atCaseElse := ⟨fun _ => rfl⟩

instance : TrimsAll (caseClause statement) := by unfold caseClause; dsimp only; infer_instance

/-- A line outside of the clauses is reported, as nothing has failed. -/
instance {f : Unit → Production Unit} [hf : ∀ u, Fails (f u)] :
    Fails (setRecovering false >>= f) where
  failures_ne s hs :=
    (hf ()).failures_ne { s with recovering := false } ⟨hs.innermostInRow, rfl, hs.clean⟩

instance : Fails strayCaseLine := by unfold strayCaseLine; infer_instance

instance (stop : Stop) : TrimsAll (afterClause stop) := by unfold afterClause; infer_instance

instance (closer : Closer) : TrimsAll (selectCloserPass statement closer) := by
  unfold selectCloserPass
  infer_instance

instance (closer? : Option Closer) : TrimsAll (closerOrLinePass statement closer?) := by
  cases closer? <;> unfold closerOrLinePass <;> infer_instance

instance (u : Unit) : TrimsAll (selectPass statement u) := by unfold selectPass; infer_instance

instance : TrimsAll (selectStatement statement) := by unfold selectStatement; infer_instance

instance : Looks atProcedureHeader := ⟨fun _ => rfl⟩

instance : TrimsAll accessor := by unfold accessor; infer_instance

instance : TrimsAll signature := by unfold signature; infer_instance

theorem isFragment_procedureForm (k : Kind) : (procedureForm k).1.isFragment = false := by
  unfold procedureForm
  split <;> rfl

instance : TrimsAll (procedure statement) := by
  have hnode (k : Kind) : IsTrue (!(procedureForm k).1.isFragment) :=
    ⟨by rw [isFragment_procedureForm]; rfl⟩
  unfold procedure
  dsimp only
  infer_instance

/-! ## What a statement is -/

instance : TrimsAll (modifiedStatement statement) where
  holds s hs _ := by
    unfold modifiedStatement
    rw [run_look_bind]
    split <;> exact Trims.holds (c := .any) s hs trivial

theorem trims_keywordStatement? {keyword : Keyword} {p : Production Unit}
    (h : keywordStatement? statement keyword = some p) : TrimsAll p := by
  unfold keywordStatement? at h
  split at h
  all_goals first
    | obtain rfl := Option.some.inj h
      infer_instance
    | obtain ⟨k, hk, rfl⟩ := Option.map_eq_some_iff.mp h
      have hfragment : IsTrue (!k.isFragment) :=
        ⟨by rw [NodeKind.isFragment_of_isLine (isLine_of_rawKind? hk)]; rfl⟩
      infer_instance

instance : TrimsAll plainStatement where
  holds s hs _ := by
    unfold plainStatement
    rw [run_bind, run_get]
    dsimp only
    split
    next production hreplacement =>
      unfold replacement? at hreplacement
      split_ifs at hreplacement <;> cases hreplacement <;>
        exact Trims.holds (c := .any) s hs trivial
    next => split_ifs <;> exact Trims.holds (c := .any) s hs trivial

instance : TrimsAll (statementAtCursor statement) where
  holds s hs _ := by
    have hlabel : (atLabel.run s).2 = s := run_atLabel_snd s
    unfold statementAtCursor
    rw [run_bind, hlabel]
    split
    next => exact Trims.holds (c := .any) s hs trivial
    next =>
      rw [run_look_bind]
      cases hopened : openedStatement? statement s.stream with
      | none => exact Trims.holds (c := .any) (p := plainStatement) s hs trivial
      | some p =>
        obtain ⟨_, -, -, hopened⟩ := exists_keyword_of_openedStatement? hopened
        exact (trims_keywordStatement? hopened).holds s hs trivial

instance : TrimsAll (statementWith statement) := by unfold statementWith; infer_instance

end

instance (depth : Nat) : TrimsAll (statementUpTo depth) := by
  induction depth with
  | zero => unfold statementUpTo; infer_instance
  | succ depth ih => unfold statementUpTo; infer_instance

/-! ## Sources -/

/-- When a source without lexical errors is read without a failure, what stands below its root is
trimmed. -/
theorem isTrimmed_of_mem_final {stream : TokenStream}
    (hclean : ∀ t ∈ stream.rest, t.kind.isLexicalError = false)
    (hfailures : (State.final stream).failures = #[]) {n : Tree}
    (hn : n ∈ (State.final stream).builder.pending.toList) : n.IsTrimmed := by
  have hlist : TrimsAll (statements (statementUpTo (stream.remaining + 1))) := inferInstance
  have hfresh : (State.start stream).Fresh := ⟨State.innermostInRow_opening _ _, rfl, hclean⟩
  rcases hlist.holds (.start stream) hfresh trivial with hfailed | ⟨-, trees, hadds, htrees, -⟩
  · exact absurd hfailures hfailed
  · have hpending : (State.final stream).builder.pending.toList = trees := hadds.pending
    exact htrees n (hpending ▸ hn)

end Grammar

end LosslessBasic
