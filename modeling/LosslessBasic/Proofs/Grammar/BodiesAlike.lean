import LosslessBasic.Proofs.Grammar.StatementsAlike

/-!
# Bodies go on alike

The pass of `Alike` over lists of statements and the statements that hold them, up to a whole
source: of tokens that look the same the grammar makes trees that look the same and reports failures
that look the same (`leads_final`).
-/

namespace LosslessBasic.Grammar

set_option synthInstance.maxSize 65536

variable {V : View} {onSolid : Bool}

/-! ## Between statements -/

instance : Alike V true separator separator := by
  unfold separator
  dsimp only
  refine .of_get fun s s' hs => ?_
  rw [hs.lastSeparator]
  infer_instance

instance : Alike V true shiftTrivia shiftTrivia := by unfold shiftTrivia; infer_instance

instance : Alike V onSolid nextCloser? nextCloser? := .of_nextKinds Closer.ofKinds?

instance {t t' : Token} [Same V t t'] :
    Alike V onSolid (reportMissingCloser t) (reportMissingCloser t') := by
  unfold reportMissingCloser
  refine .of_get fun s s' hs => ?_
  rw [hs.blocks]
  split <;> infer_instance

instance : Alike V true writtenCloser writtenCloser where
  leads {s s'} hs hsolid := by
    have hkind := hs.kind_eq (hsolid rfl)
    unfold writtenCloser current
    rw [run_look_bind, run_look_bind, hkind]
    split <;> exact hs.leads trivial

instance (closer : Closer) : Alike V true (strayCloser closer) (strayCloser closer) := by
  unfold strayCloser
  infer_instance

instance (stop : Stop) : Alike V false (blockEnd stop) (blockEnd stop) := by
  unfold blockEnd
  infer_instance

/-! ## Lists of statements -/

section

variable {statement : Production Unit}

/-- Where a list of statements meets a blank, it moves it. -/
instance : MovesBlank (statementsPass statement) where
  run_eq u s h := by
    have hline : endsInlineList s.stream.current.kind = false := by
      rcases Kind.eq_of_isInlineTrivia h with h | h <;> rw [h] <;> rfl
    have hnewline : (s.stream.current.kind == .trivia .newline) = false := by
      rcases Kind.eq_of_isInlineTrivia h with h | h <;> rw [h] <;> rfl
    have htrivia : shiftTrivia.run s = ((), s.shifted) := by
      unfold shiftTrivia
      rw [run_bind, run_currentKind, run_bind, run_shift (not_atEnd_of_blank h), hnewline]
      rfl
    unfold statementsPass listPass current
    rw [run_look_bind, Kind.not_endOfFile_of_isInlineTrivia h, if_neg Bool.false_ne_true, run_bind,
      run_get, hline, Bool.and_false, if_neg Bool.false_ne_true, run_bind, run_currentKind,
      Kind.isTrivia_of_isInlineTrivia h, if_pos rfl, run_bind, htrivia]
    rfl

instance {endsAtElse : Bool} : MovesBlank (inlinePass statement endsAtElse) where
  run_eq u s h := by
    have hnewline :
        (s.stream.current.kind == .trivia .newline || s.stream.current.kind.isComment) = false := by
      rcases Kind.eq_of_isInlineTrivia h with h | h <;> rw [h] <;> rfl
    unfold inlinePass
    rw [run_bind, run_currentKind, Kind.not_endOfFile_of_isInlineTrivia h,
      if_neg Bool.false_ne_true, hnewline, if_neg Bool.false_ne_true, if_pos h, run_bind,
      run_shift (not_atEnd_of_blank h)]
    rfl

instance : MovesBlank (selectPass statement) where
  run_eq u s h := by
    unfold selectPass current
    rw [run_look_bind, Kind.not_endOfFile_of_isInlineTrivia h, Kind.isTrivia_of_isInlineTrivia h,
      if_neg Bool.false_ne_true, Bool.true_or, if_pos rfl, run_bind,
      run_shift (not_atEnd_of_blank h)]
    rfl

variable [Composed false statement] [Advances statement] [Alike V true statement statement]

omit [Composed false statement] [Advances statement] in
instance : Alike V true (statementPass statement) (statementPass statement) := by
  have hloops : Alike V false (get >>= fun s =>
        if 0 < s.pendingNext && s.blocks.head? == some .for_ then (do
          setPendingNext (s.pendingNext - 1)
          return Pass.done (α := Unit) Stop.closedByNext)
        else return .again ())
      (get >>= fun s =>
        if 0 < s.pendingNext && s.blocks.head? == some .for_ then (do
          setPendingNext (s.pendingNext - 1)
          return Pass.done (α := Unit) Stop.closedByNext)
        else return .again ()) :=
    .of_get fun s s' hs => by
      rw [hs.pendingNext, hs.blocks]
      infer_instance
  unfold statementPass
  infer_instance

omit [Composed false statement] [Advances statement] [Alike V true statement statement] in
instance (closer : Closer) : Alike V true (closerPass closer) (closerPass closer) := by
  unfold closerPass
  refine .of_get fun s s' hs => ?_
  rw [hs.blocks]
  infer_instance

omit [Composed false statement] [Advances statement] in
instance (closer? : Option Closer) : Alike V true (closerOrStatementPass statement closer?)
    (closerOrStatementPass statement closer?) := by
  cases closer? <;> unfold closerOrStatementPass <;> infer_instance

omit [Composed false statement] [Advances statement] in
instance : Alike V true (listPass statement) (listPass statement) := by
  unfold listPass
  infer_instance

omit [Composed false statement] [Advances statement] in
instance (u u' : Unit) :
    Alike V true (statementsPass statement u) (statementsPass statement u') := by
  unfold statementsPass
  refine .of_current_solid fun x hkind => ?_
  have hline : Alike V true (get >>= fun s =>
        if 0 < s.lineMode && endsInlineList x.right.kind then (do
          reportMissingCloser x.left
          return Pass.done (α := Unit) Stop.endOfLine)
        else listPass statement)
      (get >>= fun s =>
        if 0 < s.lineMode && endsInlineList x.right.kind then (do
          reportMissingCloser x.right
          return Pass.done (α := Unit) Stop.endOfLine)
        else listPass statement) :=
    .of_get fun s s' hs => by
      rw [hs.lineMode]
      infer_instance
  rw [hkind]
  infer_instance

instance : Alike V onSolid (statements statement) (statements statement) := by
  unfold statements
  exact .of_movesBlank (fun _ _ _ => inferInstance) rfl

instance (block : Block) :
    Alike V onSolid (blockBody statement block) (blockBody statement block) := by
  unfold blockBody
  infer_instance

omit [Composed false statement] [Advances statement] [Alike V true statement statement] in
instance : Alike V true secondElse secondElse := by unfold secondElse; infer_instance

omit [Composed false statement] [Advances statement] in
instance (endsAtElse : Bool) (u u' : Unit) : Alike V true (inlinePass statement endsAtElse u)
    (inlinePass statement endsAtElse u') := by
  unfold inlinePass
  infer_instance

instance (endsAtElse : Bool) : Alike V onSolid (inlineStatements statement endsAtElse)
    (inlineStatements statement endsAtElse) := by
  have hlist : Alike V false
      (iterate (fun _ => Stop.endOfInput) (inlinePass statement endsAtElse) ())
      (iterate (fun _ => Stop.endOfInput) (inlinePass statement endsAtElse) ()) :=
    .of_movesBlank (fun _ _ _ => inferInstance) rfl
  unfold inlineStatements
  infer_instance

/-! ## If -/

omit [Composed false statement] [Advances statement] [Alike V true statement statement] in
instance : Alike V false ifHeader ifHeader := by unfold ifHeader; infer_instance

omit [Composed false statement] [Advances statement] [Alike V true statement statement] in
instance : Alike V false lineNumberJump lineNumberJump := by unfold lineNumberJump; infer_instance

instance (endsAtElse : Bool) : Alike V false (inlineArm statement endsAtElse)
    (inlineArm statement endsAtElse) := by
  unfold inlineArm
  infer_instance

instance : Alike V false (inlineArms statement) (inlineArms statement) := by
  unfold inlineArms
  infer_instance

instance : Alike V false (singleLineIf statement) (singleLineIf statement) := by
  unfold singleLineIf
  infer_instance

instance (stop stop' : Stop) [h : Same V stop stop'] :
    Alike V false (elseIfPass statement stop) (elseIfPass statement stop') := by
  obtain rfl : stop = stop' := h.same
  unfold elseIfPass
  infer_instance

omit [Composed false statement] [Advances statement] [Alike V true statement statement] in
instance : Alike V onSolid atElse atElse :=
  .of_nextKinds fun k _ => k == .keyword .else_ || k == .keyword .elseIf

/-- A pass behind the `Else` body goes on alike where the `Else` that may come next is at the
cursor. -/
theorem leads_elseBodyPass {stop : Stop} {s s' : State} (hs : SameState V s s')
    (hcloser : s.AtOwnCloser stop) :
    Leads V s s' ((elseBodyPass statement stop).run s) ((elseBodyPass statement stop).run s') := by
  have htest : Alike V false atElse atElse := inferInstance
  have helse : (atElse.run s).1 = (atElse.run s').1 :=
    (htest.leads hs fun hsolid => absurd hsolid Bool.false_ne_true).result
  have hunmoved (s : State) : (atElse.run s).2 = s := rfl
  unfold elseBodyPass
  rw [run_bind, run_bind, hunmoved, hunmoved, ← helse]
  split
  next hmore =>
    have hon := hcloser (beq_iff_eq.mp (Bool.and_eq_true_iff.mp hmore).1)
    have hpass : Alike V true (strayCloser { block := .if_, isSegment := true } >>= fun _ =>
          blockBody statement .if_ >>= fun stop => pure (Pass.again (β := Stop) stop))
        (strayCloser { block := .if_, isSegment := true } >>= fun _ =>
          blockBody statement .if_ >>= fun stop =>
            pure (Pass.again (β := Stop) stop)) := inferInstance
    exact hpass.leads hs fun _ => hon
  next => exact hs.leads rfl

omit [Composed false statement] [Advances statement] in
variable (statement) in
/-- Behind a pass that goes on, the body has been read up to the closer again. -/
theorem atOwnCloser_elseBodyPass {stop stop' : Stop} {s : State}
    (h : ((elseBodyPass statement stop).run s).1 = .again stop') :
    ((elseBodyPass statement stop).run s).2.AtOwnCloser stop' := by
  revert h
  unfold elseBodyPass
  rw [run_bind]
  split
  · rw [run_bind, run_bind, run_pure]
    intro h
    obtain rfl := Pass.again.inj h
    exact atOwnCloser_blockBody statement .if_ _
  · exact nofun

/-- What follows the `Else` body. -/
instance : Alike V false (blockBody statement .if_ >>= iterate id (elseBodyPass statement))
    (blockBody statement .if_ >>= iterate id (elseBodyPass statement)) := by
  have hbody : Alike V false (blockBody statement .if_) (blockBody statement .if_) := inferInstance
  refine ⟨fun {s s'} hs _ => ?_⟩
  have hleads := hbody.leads hs nofun
  rw [run_bind, run_bind]
  -- in front of every pass, the `Else` that may come next is at the cursor
  refine iterate_relates (Q := fun (r r' : Stop × State) => Leads V s s' r r')
    (R := fun (r r' : Stop × State) => Leads V s s' r r' ∧ r.2.AtOwnCloser r.1)
    (fun stop stop' t t' ht => ?_) ⟨hleads, atOwnCloser_blockBody statement .if_ s⟩
  obtain ⟨ht, hcloser⟩ := ht
  obtain rfl : stop = stop' := ht.result
  have hpass :
      Leads V t t' ((elseBodyPass statement stop).run t) ((elseBodyPass statement stop).run t') :=
    leads_elseBodyPass ht.state hcloser
  rcases again_or_done_of_same hpass.result with ⟨c, c', hc, hc', hsame⟩ | ⟨c, c', hc, hc', hsame⟩
  · exact .inl ⟨c, c', hc, hc', ⟨ht.adds.trans hpass.adds, hpass.state, hsame⟩,
      atOwnCloser_elseBodyPass statement hc⟩
  · exact .inr ⟨c, c', hc, hc', ht.adds.trans hpass.adds, hpass.state, hsame⟩

instance : Alike V false (elseClause statement) (elseClause statement) := by
  unfold elseClause
  infer_instance

instance : Alike V false (blockIf statement) (blockIf statement) := by
  unfold blockIf
  infer_instance

instance : Alike V false (ifStatement statement) (ifStatement statement) := by
  have hform : Alike V false (get >>= fun s => nextKind >>= fun kind =>
        if s.recovering || kind == .trivia .newline || kind == .lexeme .endOfFile ||
          kind.isComment then
          blockIf statement
        else singleLineIf statement)
      (get >>= fun s => nextKind >>= fun kind =>
        if s.recovering || kind == .trivia .newline || kind == .lexeme .endOfFile ||
          kind.isComment then
          blockIf statement
        else singleLineIf statement) :=
    .of_get fun s s' hs => by
      rw [hs.recovering]
      infer_instance
  unfold ifStatement
  infer_instance

/-! ## Loops and With -/

omit [Composed false statement] [Advances statement] [Alike V true statement statement] in
instance : Alike V false forEachHeader forEachHeader := by unfold forEachHeader; infer_instance

omit [Composed false statement] [Advances statement] [Alike V true statement statement] in
instance : Alike V false forHeader forHeader := by unfold forHeader; infer_instance

omit [Composed false statement] [Advances statement] [Alike V true statement statement] in
instance : Alike V onSolid openLoops openLoops :=
  .of_get fun s s' hs => by
    rw [hs.blocks]
    infer_instance

omit [Composed false statement] [Advances statement] [Alike V true statement statement] in
instance (closed closed' : Nat) [h : Same V closed closed'] :
    Alike V false (nextVariablePass closed) (nextVariablePass closed') := by
  obtain rfl : closed = closed' := h.same
  unfold nextVariablePass
  infer_instance

omit [Composed false statement] [Advances statement] [Alike V true statement statement] in
instance : Alike V false nextClause nextClause := by unfold nextClause; infer_instance

instance : Alike V true (forStatement statement) (forStatement statement) := by
  unfold forStatement
  infer_instance

omit [Composed false statement] [Advances statement] [Alike V true statement statement] in
instance : Alike V onSolid atLoopCondition atLoopCondition :=
  .of_nextKinds fun k _ => k == .keyword .while_ || k == .keyword .until_

omit [Composed false statement] [Advances statement] [Alike V true statement statement] in
instance : Alike V false optionalLoopCondition optionalLoopCondition := by
  unfold optionalLoopCondition
  infer_instance

instance : Alike V true (doStatement statement) (doStatement statement) := by
  unfold doStatement
  infer_instance

instance : Alike V true (whileStatement statement) (whileStatement statement) := by
  unfold whileStatement
  infer_instance

instance : Alike V true (withStatement statement) (withStatement statement) := by
  unfold withStatement
  infer_instance

/-! ## Select -/

omit [Composed false statement] [Advances statement] [Alike V true statement statement] in
instance : Alike V false comparison comparison := by
  unfold comparison
  exact .of_tokenTest (c := Operator.isRelational) fun k hk => by
    rcases Kind.eq_of_isInlineTrivia hk with rfl | rfl <;> rfl

omit [Composed false statement] [Advances statement] [Alike V true statement statement] in
instance : Alike V false comparisonTest comparisonTest := by unfold comparisonTest; infer_instance

omit [Composed false statement] [Advances statement] [Alike V true statement statement] in
instance : Alike V false valueTest valueTest := by unfold valueTest; infer_instance

omit [Composed false statement] [Advances statement] [Alike V true statement statement] in
instance : Alike V false caseTest caseTest := by unfold caseTest; infer_instance

omit [Composed false statement] [Advances statement] [Alike V true statement statement] in
instance : Alike V onSolid atCaseElse atCaseElse :=
  .of_nextKinds fun k l => k == .keyword .case && l == .keyword .else_

instance : Alike V false (caseClause statement) (caseClause statement) := by
  unfold caseClause
  infer_instance

omit [Composed false statement] [Advances statement] [Alike V true statement statement] in
instance : Alike V true strayCaseLine strayCaseLine := by unfold strayCaseLine; infer_instance

omit [Composed false statement] [Advances statement] [Alike V true statement statement] in
instance (stop : Stop) : Alike V false (afterClause stop) (afterClause stop) := by
  unfold afterClause
  infer_instance

instance (closer : Closer) : Alike V true (selectCloserPass statement closer)
    (selectCloserPass statement closer) := by
  unfold selectCloserPass
  infer_instance

instance (closer? : Option Closer) : Alike V true (closerOrLinePass statement closer?)
    (closerOrLinePass statement closer?) := by
  cases closer? <;> unfold closerOrLinePass <;> infer_instance

instance (u u' : Unit) : Alike V true (selectPass statement u) (selectPass statement u') := by
  unfold selectPass
  refine .of_current_solid fun x hkind => ?_
  rw [hkind]
  infer_instance

instance : Alike V true (selectStatement statement) (selectStatement statement) := by
  have hclauses : Alike V false (iterate (fun _ => ()) (selectPass statement) ())
      (iterate (fun _ => ()) (selectPass statement) ()) :=
    .of_movesBlank (fun _ _ _ => inferInstance) rfl
  unfold selectStatement
  infer_instance

/-! ## Procedures -/

omit [Composed false statement] [Advances statement] [Alike V true statement statement] in
instance : Alike V false accessor accessor := by unfold accessor; infer_instance

omit [Composed false statement] [Advances statement] [Alike V true statement statement] in
instance : Alike V false signature signature := by unfold signature; infer_instance

omit [Composed false statement] [Advances statement] [Alike V true statement statement] in
instance : Alike V onSolid (look fun s => Lookahead.modifiedKind s.rest)
    (look fun s => Lookahead.modifiedKind s.rest) :=
  .of_look fun _ _ hs _ => hs.tokens.modifiedKind_eq

instance : Alike V false (procedure statement) (procedure statement) := by
  unfold procedure
  infer_instance

/-! ## Statements -/

instance : Alike V false (modifiedStatement statement) (modifiedStatement statement) := by
  unfold modifiedStatement
  refine .bind inferInstance fun kind kind' hkind => ?_
  obtain rfl : kind = kind' := hkind
  split <;> infer_instance

/-- A statement that a keyword opens goes on alike. -/
theorem Alike.of_keywordStatement? {keyword : Keyword} {p : Production Unit}
    (h : keywordStatement? statement keyword = some p) : Alike V true p p := by
  unfold keywordStatement? at h
  split at h
  all_goals first
    | obtain rfl := Option.some.inj h
      infer_instance
    | obtain ⟨k, -, rfl⟩ := Option.map_eq_some_iff.mp h
      infer_instance

theorem Alike.of_openedStatement? {s : TokenStream} {p : Production Unit}
    (h : openedStatement? statement s = some p) : Alike V true p p := by
  obtain ⟨_, -, -, h⟩ := exists_keyword_of_openedStatement? h
  exact .of_keywordStatement? h

omit [Composed false statement] [Advances statement] [Alike V true statement statement] in
theorem Alike.of_replacement? {s : TokenStream} {p : Production Unit}
    (h : replacement? s = some p) :
    Alike V true p p := by
  unfold replacement? at h
  split_ifs at h <;> cases h <;> infer_instance

omit [Composed false statement] [Advances statement] [Alike V true statement statement] in
theorem softKeywordOpens_eq {s s' : State} (hs : SameState V s s') (hsolid : s.OnSolid)
    (keyword : Keyword) :
    softKeywordOpens keyword s.stream = softKeywordOpens keyword s'.stream := by
  have hsign : Lookahead.isAccessSign (s.stream.peek 1).kind =
      Lookahead.isAccessSign (s'.stream.peek 1).kind :=
    (hs.tokens.peek_one hsolid).kind.apply_eq Lookahead.isAccessSign rfl
  unfold softKeywordOpens
  rw [hsign, hs.tokens.kind_peekSignificant 1]

omit [Composed false statement] [Advances statement] [Alike V true statement statement] in
variable (statement) in
theorem openedStatement?_eq {s s' : State} (hs : SameState V s s') (hsolid : s.OnSolid) :
    openedStatement? statement s.stream = openedStatement? statement s'.stream := by
  unfold openedStatement?
  rw [hs.kind_eq hsolid]
  split
  · rw [softKeywordOpens_eq hs hsolid]
  · rfl

omit [Composed false statement] [Advances statement] [Alike V true statement statement] in
theorem replacement?_eq {s s' : State} (hs : SameState V s s') :
    replacement? s.stream = replacement? s'.stream := by
  unfold replacement?
  rw [hs.tokens.kind_peekSignificant 1, hs.tokens.current.isNamed_eq, hs.tokens.current.isNamed_eq]

omit [Composed false statement] [Advances statement] [Alike V true statement statement] in
instance : Alike V true plainStatement plainStatement where
  leads {s s'} hs hsolid := by
    unfold plainStatement
    rw [run_bind, run_bind, run_get, run_get]
    dsimp only
    rw [← replacement?_eq hs, ← hs.tokens.startsAssignment_eq, ← hs.kind_eq (hsolid rfl)]
    cases h : replacement? s.stream with
    | some production => exact (Alike.of_replacement? h).leads hs hsolid
    | none =>
      dsimp only
      split
      · exact Alike.leads hs hsolid
      · split <;> exact Alike.leads hs hsolid

instance : Alike V true (statementAtCursor statement) (statementAtCursor statement) := by
  have hopened : Alike V true (look (openedStatement? statement) >>= fun p => p.getD plainStatement)
      (look (openedStatement? statement) >>= fun p => p.getD plainStatement) := by
    refine ⟨fun {s s'} hs hsolid => ?_⟩
    rw [run_look_bind, run_look_bind, ← openedStatement?_eq statement hs (hsolid rfl)]
    cases h : openedStatement? statement s.stream with
    | some production => exact (Alike.of_openedStatement? h).leads hs hsolid
    | none =>
      have hplain : Alike V true plainStatement plainStatement := inferInstance
      exact hplain.leads hs hsolid
  unfold statementAtCursor
  infer_instance

instance : Alike V false (statementWith statement) (statementWith statement) := by
  unfold statementWith
  infer_instance

end

instance (depth : Nat) : Alike V true (statementUpTo depth) (statementUpTo depth) := by
  induction depth with
  | zero => unfold statementUpTo; infer_instance
  | succ depth ih => unfold statementUpTo; infer_instance

/-! ## Sources -/

/-- Any bound above the number of tokens serves for the statements of a source. -/
theorem State.final_eq {stream : TokenStream} {n : Nat} (hn : stream.remaining < n) :
    State.final stream = ((statements (statementUpTo n)).run (.start stream)).2 := by
  have hnested :
      AgreeUpTo stream.remaining (statementUpTo (stream.remaining + 1)) (statementUpTo n) :=
    statementUpTo_agree (Nat.lt_succ_self _) hn
  have hagree : AgreeUpTo stream.remaining (statements (statementUpTo (stream.remaining + 1)))
      (statements (statementUpTo n)) := inferInstance
  exact congrArg Prod.snd (hagree.run_eq (.start stream) (.inr (Nat.le_refl _)))

/-- Sources whose tokens look the same are read alike. -/
theorem leads_final {stream stream' : TokenStream} (h : V.SameTokens stream.rest stream'.rest) :
    AddsAlike V (.start stream) (.start stream') (.final stream) (.final stream') ∧
      SameState V (.final stream) (.final stream') := by
  -- one bound for both sources
  obtain ⟨n, hn, hn'⟩ : ∃ n, stream.remaining < n ∧ stream'.remaining < n :=
    ⟨max stream.remaining stream'.remaining + 1, by omega, by omega⟩
  have hstart : SameState V (.start stream) (.start stream') :=
    { tokens := h
      anchor := rfl
      innermost := State.innermostInRow_opening _ _
      innermost' := State.innermostInRow_opening _ _
      failures := rfl
      recovering := rfl
      lineMode := rfl
      pendingNext := rfl
      blocks := rfl
      withTargets := rfl
      lastSeparator := rfl }
  have hstatements : Alike V false (statements (statementUpTo n)) (statements (statementUpTo n)) :=
    inferInstance
  have hleads := hstatements.leads hstart nofun
  rw [State.final_eq hn, State.final_eq hn']
  exact ⟨hleads.adds, hleads.state⟩

end LosslessBasic.Grammar
