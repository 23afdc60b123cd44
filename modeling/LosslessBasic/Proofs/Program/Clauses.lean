import LosslessBasic.Proofs.Program.Blocks

/-!
# Blocks with several bodies

An `If` and a `Select Case` are read when their bodies are: each body ends before the words that
start the next one, or before the closer.
-/

namespace LosslessBasic.Grammar

open Program

set_option synthInstance.maxSize 65536

variable {s : State} {w : Bool} {depth : Nat} {ns ms : List Nesting} {head foot : Margin}
  {body following rest : Bytes}

/-- What two states lead to the same in goes on the same. -/
theorem run_bind_congr {α β : Type} {p q : Production α} {t : State} (h : p.run s = q.run t)
    (f : α → Production β) : (p >>= f).run s = (q >>= f).run t := by
  rw [run_bind, run_bind, h]

/-! ## If -/

/-- The bodies of an `If` behind its first one. -/
def furtherBodies (statement : Production Unit) (stop : Stop) : Production Stop := do
  let stop ← iterate id (elseIfPass statement) stop
  if stop == .ownCloser && (← atNext (.keyword .else_)) then elseClause statement
  else pure stop

/-- An `If` of several lines is its first body, then the others. -/
theorem blockIf_eq_furtherBodies (statement : Production Unit) :
    blockIf statement = finishStatement >>= fun _ =>
      blockBody statement .if_ >>= fun stop => furtherBodies statement stop >>= blockEnd := by
  rw [blockIf_eq, ifBodies, bind_assoc]
  rfl

/-- Where no `ElseIf` comes next there are no further ones. -/
theorem run_furtherBodies_of_ne (statement : Production Unit)
    (h : (s.stream.peekSignificant 0).kind ≠ .keyword .elseIf) :
    (furtherBodies statement .ownCloser).run s =
      (if (s.stream.peekSignificant 0).kind == .keyword .else_ then elseClause statement
        else pure .ownCloser).run s := by
  have hpass : (elseIfPass statement .ownCloser).run s = (.done .ownCloser, s) := by
    unfold elseIfPass atNext
    rw [run_look_bind, if_neg (by simpa using h)]
    rfl
  unfold furtherBodies
  rw [run_bind, run_iterate_of_done (by rw [hpass]), hpass]
  unfold atNext
  rw [run_look_bind]
  rfl

/-- In front of `End If` no further body is taken. -/
theorem State.Ready.takes_furtherBodies_nil (hs : s.Ready w depth)
    (htext : s.OnText (foot.line "End If" ++ rest)) :
    s.Takes (furtherBodies (statementUpTo depth) .ownCloser) []
      (EndsBefore (foot.line "End If" ++ rest)) := by
  have hnext := kind_peekSignificant_of_onLine (htext.onLine spells_endIf (by simp)) (n := 0) rfl
  have hrun := run_furtherBodies_of_ne (statementUpTo depth) (s := s) (by rw [hnext]; simp)
  rw [hnext, if_neg (by simp)] at hrun
  exact .of_run_eq hrun (.pure hs.calm ⟨rfl, htext⟩)

/-- An `Else` is read when its body is. -/
theorem State.Ready.takes_furtherBodies_else (hs : s.Ready w depth)
    (htext : s.OnText (head.line "Else" ++ (body ++ (foot.line "End If" ++ rest))))
    (hbody : ∀ t : State, t.Ready w depth → t.AtLine (body ++ (foot.line "End If" ++ rest)) →
      t.blocks.head? = some .if_ →
      t.Takes (statements (statementUpTo depth)) ns (EndsBefore (foot.line "End If" ++ rest))) :
    s.Takes (furtherBodies (statementUpTo depth) .ownCloser) [.of .elseClause ns]
      (EndsBefore (foot.line "End If" ++ rest)) := by
  have hline := htext.onLine spells_else (by simp)
  have hnext := kind_peekSignificant_of_onLine hline (n := 0) rfl
  have hrun := run_furtherBodies_of_ne (statementUpTo depth) (s := s) (by rw [hnext]; simp)
  rw [hnext, if_pos (by rfl)] at hrun
  refine .of_run_eq hrun ?_
  have helse (P : Placement) : Settles P State.OnWord elseLine elseLine := by
    unfold elseLine
    infer_instance
  have hcomposed : Composed false elseLine := by
    unfold elseLine
    infer_instance
  have hclause : elseClause (statementUpTo depth) = within .elseClause (elseLine >>= fun _ =>
      blockBody (statementUpTo depth) .if_ >>=
        iterate id (elseBodyPass (statementUpTo depth))) := by
    unfold elseClause elseLine
    simp only [bind_assoc]
  rw [hclause]
  have hnest : [Nesting.of .elseClause ns] = if NodeKind.elseClause.isNest
      then [Nesting.of .elseClause ([] ++ (ns ++ []))] else [] ++ (ns ++ []) := by
    simp [NodeKind.isNest]
  rw [hnest]
  refine .within (EndsBefore (foot.line "End If" ++ rest)) hs.calm (by simp) ?_
    fun _ _ h => ⟨h.stop, h.onText⟩
  have hs' := hs.opening .elseClause
  refine (hs'.takes_line hline ⟨rfl, not_endsLook_keyword _⟩
    ((digests_elseLine _).any w)).bind fun _ t hreads ht => ?_
  have hready := hs'.of_reads hreads
  refine (hready.takes_blockBody ht.1 hbody).bind fun stop u hreads hu => ?_
  obtain ⟨rfl, hu⟩ := hu
  -- the body ends before the closer, so there is no second `Else`
  have hnext := kind_peekSignificant_of_onLine (hu.onLine spells_endIf (by simp)) (n := 0) rfl
  have hpass : (elseBodyPass (statementUpTo depth) .ownCloser).run u = (.done .ownCloser, u) := by
    unfold elseBodyPass atElse
    rw [run_look_bind, hnext]
    rfl
  exact .of_run_eq (q := pure .ownCloser) (by rw [run_iterate_of_done (by rw [hpass]), hpass]; rfl)
    (.pure (hready.of_reads hreads).calm ⟨rfl, hu⟩)

/-- An `ElseIf` with its body. -/
def elseIfClause (statement : Production Unit) : Production Stop :=
  within .elseIfClause (elseIfLine >>= fun _ => blockBody statement .if_)

/-- At an `ElseIf` its clause is read. -/
theorem run_elseIfPass (statement : Production Unit)
    (h : (s.stream.peekSignificant 0).kind = .keyword .elseIf) :
    (elseIfPass statement .ownCloser).run s =
      (.again ((elseIfClause statement).run s).1, ((elseIfClause statement).run s).2) := by
  unfold elseIfPass atNext elseIfClause elseIfLine
  rw [run_look_bind, h, if_pos (by rfl), run_bind]
  simp only [bind_assoc]
  rw [run_pure]

/-- An `ElseIf` is read when its body is, and the bodies behind it follow. -/
theorem State.Ready.takes_furtherBodies_elseIf {post : Stop → State → Prop} (hs : s.Ready w depth)
    (htext : s.OnText (head.line "ElseIf a = 0 Then" ++ (body ++ following)))
    (hbody : ∀ t : State, t.Ready w depth → t.AtLine (body ++ following) →
      t.blocks.head? = some .if_ →
      t.Takes (statements (statementUpTo depth)) ns (EndsBefore following))
    (hrest : ∀ t : State, t.Ready w depth → t.OnText following →
      t.Takes (furtherBodies (statementUpTo depth) .ownCloser) ms post) :
    s.Takes (furtherBodies (statementUpTo depth) .ownCloser) (.of .elseIfClause ns :: ms) post := by
  have hline := htext.onLine spells_elseIf (by simp)
  have hnext := kind_peekSignificant_of_onLine hline (n := 0) rfl
  have helse (P : Placement) : Settles P State.OnWord elseIfLine elseIfLine := by
    unfold elseIfLine ifHeader
    infer_instance
  have hcomposed : Composed false elseIfLine := by
    unfold elseIfLine
    infer_instance
  have hclause : s.Takes (elseIfClause (statementUpTo depth)) [.of .elseIfClause ns]
      (EndsBefore following) := by
    refine .within (EndsBefore following) hs.calm (by simp) ?_
      fun _ _ h => ⟨h.stop, h.onText⟩
    have hs' := hs.opening .elseIfClause
    refine (hs'.takes_line hline ⟨rfl, not_endsLook_keyword _⟩
      ((digests_elseIfLine _).any w)).bind fun _ t hreads ht => ?_
    exact (hs'.of_reads hreads).takes_blockBody ht.1 hbody
  -- one pass of the loop reads this clause; the rest is what the loop reads from there
  obtain ⟨hreads, hstop, hafter⟩ := hclause
  refine .behind hreads ?_ (hrest _ (hs.of_reads hreads) hafter)
  have hpass := run_elseIfPass (statementUpTo depth) hnext
  rw [hstop] at hpass
  have hloop : (iterate id (elseIfPass (statementUpTo depth)) .ownCloser).run s =
      (iterate id (elseIfPass (statementUpTo depth)) .ownCloser).run
        ((elseIfClause (statementUpTo depth)).run s).2 := by
    rw [run_iterate_of_again (by rw [hpass]), hpass]
  exact run_bind_congr hloop _

/-- The `If` is told from one on a single line by the line break behind `Then`. -/
theorem run_ifStatement_bodies (statement : Production Unit)
    (hnext : ((ifHeader.run s).2.stream.peekSignificant 0).kind = .trivia .newline) :
    (do
      ifHeader
      let failed := (← get).recovering
      let kind ← nextKind
      if failed || kind == .trivia .newline || kind == .lexeme .endOfFile || kind.isComment then
        blockIf statement
      else singleLineIf statement : Production Unit).run s =
      (ifHeader >>= fun _ => blockIf statement).run s := by
  unfold nextKind
  rw [run_bind, run_bind, run_get, run_look_bind, hnext, if_pos (by simp), run_bind]

/-- An `If` is read when its bodies are. -/
theorem State.Ready.takes_if (hs : s.Ready w (depth + 1))
    (hline : s.OnLine (conditionKinds .if_ .greater) (body ++ following))
    (hbody : ∀ t : State, t.Ready w depth → t.AtLine (body ++ following) →
      t.blocks.head? = some .if_ →
      t.Takes (statements (statementUpTo depth)) ns (EndsBefore following))
    (hrest : ∀ t : State, t.Ready w depth → t.OnText following →
      t.Takes (furtherBodies (statementUpTo depth) .ownCloser) ms
        (EndsBefore (foot.line "End If" ++ rest))) :
    s.Takes (statementUpTo (depth + 1)) [.of .ifStatement (ns ++ ms)] fun _ t => t.AtLine rest := by
  refine hs.takes_keyword .if_ hline rfl rfl fun t ht _ hline => ?_
  have hnest : [Nesting.of .ifStatement (ns ++ ms)] = if NodeKind.ifStatement.isNest
      then [Nesting.of .ifStatement ([] ++ ([] ++ (ns ++ (ms ++ []))))]
      else [] ++ ([] ++ (ns ++ (ms ++ []))) := by
    simp [NodeKind.isNest]
  rw [hnest]
  refine .within (fun _ t => t.AtLine rest) ht.calm (by simp) ?_
    fun _ _ h => ⟨h.separator, h.before⟩
  have hu := ht.opening .ifStatement
  have hline : (t.opening .ifStatement).OnLine (conditionKinds .if_ .greater) (body ++ following) :=
    hline
  generalize t.opening .ifStatement = u at hu hline
  have hheader (P : Placement) : Carries P State.OnWord ifHeader ifHeader fun _ => State.Inside :=
    .of_inline (h := (inferInstance : Inline P ifHeader ifHeader)) fun s h =>
      ⟨h.inside, h.inLine.keepsLine⟩
  -- the header is read from the kinds of its line alone, whatever the line stands in
  obtain ⟨hreads, hseparator, hremaining, left, more, hleft, hkinds, hmore⟩ :=
    hline.reads (conditionKinds .if_ .greater) [.trivia .newline] hu.calm hheader
      ((digests_ifHeader _).any w) hu.target
      (fun line hline => onWord_onLine hline ⟨rfl, not_endsLook_keyword _⟩) rfl rfl
  have hend : (ifHeader.run u).2.OnLine [] (body ++ following) := ⟨left, more, hleft, hkinds, hmore⟩
  have hv := hu.of_reads hreads
  have hready : (ifHeader.run u).2.Ready w depth := by
    refine ⟨hv.calm, hv.target, ?_⟩
    have hshallow := hu.shallow
    rw [conditionKinds, List.length_cons] at hremaining
    omega
  refine .of_run_eq (run_ifStatement_bodies _ (kind_peekSignificant_of_onLine hend (n := 0) rfl)) ?_
  -- then come the end of the line, the first body, the further ones, and the closer
  rw [blockIf_eq_furtherBodies]
  have hheader : u.Takes ifHeader [] fun _ v => v = (ifHeader.run u).2 := ⟨hreads, rfl⟩
  refine hheader.bind fun _ v _ hv => ?_
  subst hv
  refine (hready.takes_lineEnd hend).bind fun _ v hreads hv => ?_
  have hready := hready.of_reads hreads
  refine (hready.takes_blockBody hv hbody).bind fun stop v hreads hv => ?_
  obtain ⟨rfl, hv⟩ := hv
  have hready := hready.of_reads hreads
  refine (hrest v hready hv).bind fun stop v hreads hv => ?_
  obtain ⟨rfl, hv⟩ := hv
  exact (hready.of_reads hreads).takes_closeBlock (hv.onLine spells_endIf (by simp))

/-! ## Select Case -/

/-- The clauses of a `Select Case`, up to its closer. -/
def clauses (statement : Production Unit) : Production Unit :=
  iterate (fun _ => ()) (selectPass statement) ()

/-- A closer in a `Select Case` that starts a clause of it or ends it. -/
theorem run_selectPass (statement : Production Unit) {word : Keyword} {second : Kind}
    {closer : Closer}
    (hfirst : s.stream.current.kind = .keyword word)
    (hsecond : (s.stream.peekSignificant 1).kind = second)
    (hcloser : Closer.ofKinds? (.keyword word) second = some closer)
    (hblock : closer.block = .select) :
    (selectPass statement ()).run s =
      (if closer.isSegment then caseClause statement >>= afterClause
        else afterClause .ownCloser).run s := by
  have hzero : s.stream.peekSignificant 0 = s.stream.current :=
    TokenStream.peekSignificant_zero (by rw [hfirst]; rfl)
  unfold selectPass current
  rw [run_look_bind, hfirst, if_neg (by simp), if_neg (by simp [Kind.isTrivia])]
  unfold nextCloser?
  rw [run_look_bind, hzero, hfirst, hsecond, hcloser]
  unfold closerOrLinePass selectCloserPass
  dsimp only
  rw [hblock, if_pos (by rfl)]

/-- Behind a clause the closer is read at once, and the start of another clause in the next pass. -/
theorem run_clauses_of_afterClause {statement : Production Unit} [Composed false statement]
    {t : State}
    (hpass : (selectPass statement ()).run s = (afterClause .ownCloser).run t)
    (htext : t.OnText following) {closer : Closer} (hcloser : StartsWithCloser closer following)
    (hblock : closer.block = .select) : (clauses statement).run s = (clauses statement).run t := by
  obtain ⟨word, second, hfirst, hsecond, hkinds⟩ := htext.exists_closer hcloser
  have hpass' := run_selectPass statement hfirst hsecond hkinds hblock
  have hzero : (t.stream.peekSignificant 0).kind = .keyword word := by
    rw [TokenStream.peekSignificant_zero (by rw [hfirst]; rfl), hfirst]
  unfold clauses
  by_cases hend : word = .end_
  · -- the closer: the pass before it reads it, as its own pass would
    subst hend
    have hsegment : closer.isSegment = false := by
      simp only [Closer.ofKinds?] at hkinds
      split at hkinds <;> cases hkinds <;> rfl
    rw [hsegment, if_neg Bool.false_ne_true] at hpass'
    have hdone : ((afterClause .ownCloser).run t).1 = .done () := by
      unfold afterClause atNext
      rw [if_neg (by simp), run_look_bind, hzero, if_pos (by rfl)]
      rfl
    rw [run_iterate_of_done (by rw [hpass, hdone]),
      run_iterate_of_done (by rw [hpass', hdone]), hpass, hpass']
  · have hagain : (afterClause .ownCloser).run t = (.again (), t) := by
      unfold afterClause atNext
      rw [if_neg (by simp), run_look_bind, hzero, if_neg (by simpa using hend)]
      rfl
    rw [run_iterate_of_again (by rw [hpass, hagain]), hpass, hagain]

/-- The line `End Select` starts with the closer of a `Select`. -/
theorem startsWithCloser_endSelect (foot : Margin) (rest : Bytes) :
    StartsWithCloser { block := .select } (foot.line "End Select" ++ rest) :=
  ⟨foot, _, _, _, _, rest, rfl, spells_endSelect, rfl, rfl⟩

/-- The line of a test starts with what ends a clause. -/
theorem startsWithCloser_test (head : Margin) (test : Test) (rest : Bytes) :
    StartsWithCloser { block := .select, isSegment := true } (head.line test.words ++ rest) := by
  have hspells := spells_test test
  cases test <;> exact ⟨head, _, _, _, _, rest, rfl, hspells, rfl, rfl⟩

/-- In front of `End Select` no clause is taken. -/
theorem State.Ready.takes_clauses_nil (hs : s.Ready w depth)
    (htext : s.OnText (foot.line "End Select" ++ rest)) :
    s.Takes (clauses (statementUpTo depth)) [] fun _ t => t.AtLine rest := by
  have hline := htext.onLine spells_endSelect (by simp)
  have hnext := kind_peekSignificant_of_onLine hline (n := 0) rfl
  obtain ⟨word, second, hfirst, hsecond, hkinds⟩ :=
    htext.exists_closer (startsWithCloser_endSelect foot rest)
  have hpass := run_selectPass (statementUpTo depth) hfirst hsecond hkinds rfl
  have hafter : (afterClause .ownCloser).run s = (.done (), (closeBlock.run s).2) := by
    unfold afterClause atNext
    rw [if_neg (by simp), run_look_bind, hnext, if_pos (by rfl)]
    rfl
  rw [if_neg Bool.false_ne_true, hafter] at hpass
  refine .of_run_eq (q := closeBlock) ?_ (hs.takes_closeBlock hline)
  unfold clauses
  rw [run_iterate_of_done (by rw [hpass]), hpass]
  rfl

/-- The line that opens a clause is read to its end. -/
theorem State.Ready.takes_test {test : Test} {text : Bytes} (hs : s.Ready w depth)
    (hline : s.OnLine test.kinds text) : s.Takes test.line [] fun _ t => t.AtLine text ∧
      t.stream.remaining < s.stream.remaining := by
  have hdigests := (digests_test test s.lastSeparator).any w
  have hcomposed (test : Test) : Composed false test.line := by
    unfold Test.line
    infer_instance
  cases test with
  | values | comparison =>
    have hsettles (P : Placement) : Settles P State.OnWord
        (do setRecovering false; shiftNext; commaList caseTest; finishStatement)
        (do setRecovering false; shiftNext; commaList caseTest; finishStatement) := inferInstance
    exact hs.takes_line (h := hsettles) hline ⟨rfl, not_endsLook_keyword _⟩ hdigests
  | else_ =>
    -- the second word is moved without a look at it, which the first two words of the line allow
    have hrecovering (P : Placement) : Carries P State.OnPair (setRecovering false)
        (setRecovering false) (fun _ => State.OnPair) :=
          ⟨fun _ _ h => ⟨rfl, fun hopen => (h hopen).1⟩⟩
    have hrest (P : Placement) : Settles P State.InLine (do shiftNext; finishStatement)
        (do shiftNext; finishStatement) := inferInstance
    have hcarries (P : Placement) : Carries P State.OnPair Test.else_.line Test.else_.line
        (fun _ => State.Settled) :=
      (hrecovering P).bind fun _ => carries_shiftNext_pair.bind fun _ => (hrest P).carries
    obtain ⟨hreads, hseparator, hbefore, hlt⟩ := hline.readsAll hs.calm hcarries hdigests hs.target
      fun line hline => by
        unfold State.OnPair
        rw [kind_peekSignificant_onLine (k := .keyword .case) hline rfl,
          kind_peekSignificant_onLine (k := .keyword .else_) hline rfl]
        exact ⟨not_endsLook_keyword _, not_endsLook_keyword _⟩
    exact ⟨hreads, ⟨hseparator, hbefore⟩, hlt⟩

/-- The text of a test stands on its line. -/
theorem State.OnText.onLine_test {test : Test} {text : Bytes}
    (h : s.OnText (head.line test.words ++ text)) : s.OnLine test.kinds text := by
  have hspells := spells_test test
  cases test <;> exact h.onLine hspells (by simp)

/-- Whether a clause is the last one shows in the second word of its line. -/
theorem run_caseClause {test : Test} {text : Bytes} (statement : Production Unit)
    (h : s.OnLine test.kinds text) :
    (caseClause statement).run s =
      (within test.node (test.line >>= fun _ => blockBody statement .select)).run s := by
  have helse : atCaseElse.run s = (decide (test = .else_), s) := by
    unfold atCaseElse
    rw [run_look]
    cases test with
    | values =>
      rw [kind_peekSignificant_of_onLine (k := .keyword .case) h (n := 0) rfl,
        kind_peekSignificant_of_onLine (k := .lexeme .integerLiteral) h (n := 1) rfl]
      rfl
    | comparison =>
      rw [kind_peekSignificant_of_onLine (k := .keyword .case) h (n := 0) rfl,
        kind_peekSignificant_of_onLine (k := .keyword .is) h (n := 1) rfl]
      rfl
    | else_ =>
      rw [kind_peekSignificant_of_onLine (k := .keyword .case) h (n := 0) rfl,
        kind_peekSignificant_of_onLine (k := .keyword .else_) h (n := 1) rfl]
      rfl
  unfold caseClause
  rw [run_bind, helse]
  cases test <;> simp [Test.line, Test.node]

/-- A clause is read when its body is, and what is behind it follows. -/
theorem State.Ready.takes_clauses_clause {test : Test} {closer : Closer}
    {post : Unit → State → Prop}
    (hs : s.Ready w depth) (htext : s.OnText (head.line test.words ++ (body ++ following)))
    (hbody : ∀ t : State, t.Ready w depth → t.AtLine (body ++ following) →
      t.blocks.head? = some .select →
      t.Takes (statements (statementUpTo depth)) ns (EndsBefore following))
    (hcloser : StartsWithCloser closer following) (hblock : closer.block = .select)
    (hrest : ∀ t : State, t.Ready w depth → t.OnText following →
      t.Takes (clauses (statementUpTo depth)) ms post) :
    s.Takes (clauses (statementUpTo depth)) (.of test.node ns :: ms) post := by
  obtain ⟨word, second, hfirst, hsecond, hkinds⟩ :=
    htext.exists_closer (startsWithCloser_test head test (body ++ following))
  have hpass := run_selectPass (statementUpTo depth) hfirst hsecond hkinds rfl
  rw [if_pos rfl] at hpass
  have hclause : s.Takes (caseClause (statementUpTo depth)) [.of test.node ns]
      (EndsBefore following) := by
    refine .of_run_eq (run_caseClause _ htext.onLine_test) ?_
    have hnest : [Nesting.of test.node ns] = if test.node.isNest
        then [Nesting.of test.node ([] ++ ns)] else [] ++ ns := by
      cases test <;> rfl
    rw [hnest]
    refine .within (EndsBefore following) hs.calm (by cases test <;> simp [Test.node]) ?_
      fun _ _ h => ⟨h.stop, h.onText⟩
    have hs' := hs.opening test.node
    refine (hs'.takes_test htext.onLine_test).bind fun _ t hreads ht => ?_
    exact (hs'.of_reads hreads).takes_blockBody ht.1 hbody
  obtain ⟨hreads, hstop, hafter⟩ := hclause
  refine .behind hreads ?_ (hrest _ (hs.of_reads hreads) hafter)
  rw [run_bind, hstop] at hpass
  exact run_clauses_of_afterClause hpass hafter hcloser hblock

/-- The loop over the clauses passes over the blanks in front. -/
theorem exists_run_clauses_behindBlanks (depth : Nat) (hs : s.Calm) :
    ∃ t, (clauses (statementUpTo depth)).run s = (clauses (statementUpTo depth)).run t ∧ s.Skips t ∧
      t.stream.rest = Lexer.behindBlanks s.stream.rest := by
  refine run_iterate_behindBlanks (fun s _ hblank => ?_) hs
  unfold selectPass current
  rw [run_look_bind, if_neg (by simp [hblank]), hblank, if_pos (by rfl), run_bind,
    run_shift (by simp [hblank])]
  rfl

/-- A `Select Case` is read when its clauses are. -/
theorem State.Ready.takes_select {text : Bytes} (hs : s.Ready w (depth + 1))
    (hline : s.OnLine [.keyword .select, .trivia .whitespace, .keyword .case, .trivia .whitespace,
      .lexeme .identifier] text)
    (hclauses : ∀ t : State, t.Ready w depth → t.OnText text →
      t.Takes (clauses (statementUpTo depth)) ns fun _ u => u.AtLine rest) :
    s.Takes (statementUpTo (depth + 1)) [.of .selectCaseStatement ns] fun _ t => t.AtLine rest := by
  refine hs.takes_keyword .select hline rfl rfl fun t ht _ hline => ?_
  have hselect (P : Placement) : Settles P State.OnWord selectLine selectLine := by
    unfold selectLine
    infer_instance
  have hcomposed : Composed false selectLine := by
    unfold selectLine
    infer_instance
  -- the statement is its header and then its clauses, up to the order in which they are put
  -- together
  have hstatement : selectStatement (statementUpTo depth) = within .selectCaseStatement
      (selectLine >>= fun _ => clauses (statementUpTo depth)) := by
    unfold selectStatement selectLine clauses
    simp only [bind_assoc]
    refine congrArg _ (congrArg _ (funext fun _ => congrArg _ (funext fun found => ?_)))
    cases found <;> simp [bind_assoc]
  rw [hstatement]
  have hnest : [Nesting.of .selectCaseStatement ns] = if NodeKind.selectCaseStatement.isNest
      then [Nesting.of .selectCaseStatement ([] ++ ([] ++ ns))] else [] ++ ([] ++ ns) := rfl
  rw [hnest]
  refine .within (fun _ t => t.AtLine rest) ht.calm (by simp) ?_
    fun _ _ h => ⟨h.separator, h.before⟩
  have ht' := ht.opening .selectCaseStatement
  refine (ht'.takes_line hline ⟨rfl, not_endsLook_keyword _⟩
    ((digests_selectLine _).any w)).bind fun _ u hreads hu => ?_
  have hu' := ht'.of_reads hreads
  have hready : u.Ready w depth :=
    ⟨hu'.calm, hu'.target, Nat.lt_of_lt_of_le hu.2 (Nat.le_of_lt_succ ht.shallow)⟩
  obtain ⟨v, hrun, hskips, hrest⟩ := exists_run_clauses_behindBlanks depth hready.calm
  obtain ⟨file, p, hbefore⟩ := hu.1.before
  have hreads := hskips.reads hready.calm
  exact .behind hreads hrun (hclauses v (hready.of_reads hreads) ⟨file, p, by rw [hrest, hbefore]⟩)

end LosslessBasic.Grammar
