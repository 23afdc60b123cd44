import LosslessBasic.Proofs.Grammar.Additions
import LosslessBasic.Proofs.Grammar.Dispatch
import LosslessBasic.Proofs.Grammar.Quota
import LosslessBasic.Proofs.Grammar.WellFounded
import LosslessBasic.Proofs.Lexer.Comments

/-!
# Simple statements fail once and end where statements end

A statement that holds no others reports at most one failure, however much is wrong with it, and
leaves the cursor where a statement ends: in front of a line break, a colon, a comment, the end of
the source or, in a single-line `If`, an `Else`, or right behind its own line break. A label need
not, because a statement may follow it on its line.

`ReportsOnce` has the first part. The second one hangs on `finishStatement`, with which the
statements other than labels end (`EndsStatement`): it moves what is left over, and then a comment
and the line break behind it.

## Main result

* `simple_statement_reports_once`
-/

namespace LosslessBasic.Grammar

set_option synthInstance.maxSize 65536

/-! ## Where statements end -/

/-- Whether the state `t` that is reached from `s` stands where a statement ends: in front of a
token that ends statements, or right behind a line break that has been moved. -/
def State.EndsAt (s t : State) : Prop :=
  endsStatement (t.stream.peekSignificant 0).kind t.lineMode = true ∨
    ∃ moved lineBreak, s.stream.rest = moved ++ lineBreak :: t.stream.rest ∧
      lineBreak.kind = .trivia .newline

/-- A production that ends a statement, where comments end their lines. -/
class EndsStatement {α : Type} (p : Production α) : Prop where
  endsAt (s : State) : CommentsEndLines s.stream.rest → s.EndsAt (p.run s).2

namespace State

variable {s t u : State}

theorem EndsAt.of_follows (h : s.Follows t) (ht : t.EndsAt u) : s.EndsAt u := by
  rcases ht with hnext | ⟨moved, lineBreak, hrest, hkind⟩
  · exact .inl hnext
  · obtain ⟨front, hfront, -⟩ := h.moved
    exact .inr ⟨front ++ moved, lineBreak, by rw [hfront, hrest, List.append_assoc], hkind⟩

/-- What moves no token leaves the end of a statement where it is. -/
theorem EndsAt.congr (hstream : u.stream = t.stream) (hline : u.lineMode = t.lineMode)
    (h : s.EndsAt t) : s.EndsAt u := by
  unfold EndsAt at h ⊢
  rwa [hstream, hline]

end State

theorem State.Follows.commentsEndLines {s t : State} (h : s.Follows t)
    (hs : CommentsEndLines s.stream.rest) : CommentsEndLines t.stream.rest := by
  obtain ⟨moved, hrest, -⟩ := h.moved
  rw [CommentsEndLines, hrest] at hs
  exact hs.right_of_append

section

variable {α β : Type} {p q : Production α}

instance {f : α → Production β} [hp : Composed false p] [hf : ∀ a, EndsStatement (f a)] :
    EndsStatement (p >>= f) where
  endsAt s hs :=
    have hfollows := hp.follows s
    .of_follows hfollows ((hf _).endsAt _ (hfollows.commentsEndLines hs))

instance {f : α → β} [hp : EndsStatement p] : EndsStatement (p >>= fun a => pure (f a)) where
  endsAt s hs := hp.endsAt s hs

instance {k : NodeKind} [hp : EndsStatement p] : EndsStatement (within k p) where
  endsAt s hs := (hp.endsAt (s.opening k) hs).congr (s := s) rfl rfl

instance {cp : Checkpoint} {k : NodeKind} {p : Production Unit} [hp : EndsStatement p] :
    EndsStatement (compositeFrom cp k p) where
  endsAt s hs := (hp.endsAt (s.openingAt cp k) hs).congr (s := s) rfl rfl

instance {c : Prop} [Decidable c] [EndsStatement p] [EndsStatement q] :
    EndsStatement (if c then p else q) := by
  split <;> infer_instance

end

/-! ## The end of a statement -/

/-- Behind what has been moved as left over the statement does not go on. -/
theorem within_recover (s : State) : (withinStatement.run (recover.run s).2).1 = false := by
  have htest : (withinStatement.run s).2 = s := rfl
  unfold recover
  rw [run_bind, htest]
  cases hwithin : (withinStatement.run s).1 with
  | false => exact hwithin
  | true =>
    have hclosing (t : State) :
        withinStatement.run t.closing = ((withinStatement.run t).1, t.closing) :=
      rfl
    have hrest (t : State) :
        (withinStatement.run ((repeatWhile withinStatement shiftNext).run t).2).1 = false :=
      run_test_repeatWhile t
    unfold next
    rw [if_pos rfl, run_look_bind, run_bind, run_bind, run_within, hclosing, shiftRest]
    exact hrest _

/-- A statement goes on behind its last part only with what is reported and moved as left over. -/
theorem run_finishStatement (s : State) :
    ∃ t, s.Follows t ∧ (withinStatement.run t).1 = false ∧
      finishStatement.run s = statementEnd.run t := by
  cases hwithin : (withinStatement.run s).1 with
  | false => exact ⟨s, .refl s, hwithin, run_finishStatement_of_ended hwithin⟩
  | true =>
    let report : Production Unit := do
      let t ← next
      if t.kind.isLexicalError then setRecovering true
      fail (.leftover t) t
      recover
    have hreport : Composed false report := by
      dsimp only [report]
      infer_instance
    have hrun : finishStatement.run s = statementEnd.run (report.run s).2 := by
      have htest : (withinStatement.run s).2 = s := rfl
      dsimp only [report]
      unfold finishStatement next
      dsimp only
      rw [run_bind, if_pos hwithin, htest, run_look_bind, run_look_bind]
      split <;> rfl
    refine ⟨_, hreport.follows s, ?_, hrun⟩
    dsimp only [report]
    unfold next
    rw [run_look_bind]
    split <;> exact within_recover _

/-- A token that ends statements is the one that comes next, unless it is a blank. -/
theorem State.EndsAt.of_current {s t : State}
    (hsolid : t.stream.current.kind.isInlineTrivia = false)
    (h : endsStatement t.stream.current.kind t.lineMode = true) : s.EndsAt t :=
  .inl (by rwa [TokenStream.peekSignificant_zero hsolid])

theorem isInlineTrivia_of_endsStatement {k : Kind} {lineMode : Nat}
    (h : endsStatement k lineMode = true) : k.isInlineTrivia = false := by
  unfold endsStatement at h
  split at h <;> first | rfl | cases h

/-- In front of what ends a statement, a line break is moved. -/
theorem endsAt_shiftNewline {s : State}
    (h : endsStatement s.stream.current.kind s.lineMode = true) :
    s.EndsAt ((do
      if ← atCurrent (.trivia .newline) then
        shift
        setSeparator .lineBreak : Production Unit).run s).2 := by
  unfold atCurrent
  rw [run_look_bind]
  split
  next hnewline =>
    have hkind : s.stream.current.kind = .trivia .newline := by simpa using hnewline
    have hend : s.stream.current.kind ≠ .lexeme .endOfFile := by rw [hkind]; nofun
    rw [run_bind, run_shift hend]
    exact .inr ⟨[], s.stream.current,
      TokenStream.rest_advance (TokenStream.ahead_ne_nil hend), hkind⟩
  next => exact .of_current (isInlineTrivia_of_endsStatement h) h

/-- Behind a comment its line ends. -/
theorem endsStatement_behind_comment {s : State} (hs : CommentsEndLines s.stream.rest)
    (hcomment : s.stream.current.kind.isComment = true) (lineMode : Nat) :
    endsStatement s.shifted.stream.current.kind lineMode = true := by
  have hend : s.stream.current.kind ≠ .lexeme .endOfFile :=
    Kind.ne_endOfFile_of (f := Kind.isComment) hcomment rfl
  rw [CommentsEndLines, TokenStream.rest_advance (TokenStream.ahead_ne_nil hend)] at hs
  rcases (List.isChain_cons.mp hs).1 _ rfl hcomment with hkind | hkind
  · change endsStatement s.stream.advance.current.kind lineMode = true
    rw [hkind]
    rfl
  · change endsStatement s.stream.advance.current.kind lineMode = true
    rw [hkind]
    rfl

/-- In front of what ends a statement, a line break is moved, and a comment before it. -/
theorem endsAt_shiftLineBreak {s : State} (hs : CommentsEndLines s.stream.rest)
    (h : endsStatement s.stream.current.kind s.lineMode = true) :
    s.EndsAt (shiftLineBreak.run s).2 := by
  unfold shiftLineBreak
  rw [run_bind, run_currentKind]
  split
  next hcomment =>
    have hend : ¬ s.AtEnd := Kind.ne_endOfFile_of (f := Kind.isComment) hcomment rfl
    rw [run_bind, run_shift hend]
    exact .of_follows (State.follows_shifted hend)
      (endsAt_shiftNewline (endsStatement_behind_comment hs hcomment _))
  next => exact endsAt_shiftNewline h

theorem endsAt_statementEnd {s : State} (hs : CommentsEndLines s.stream.rest)
    (h : (withinStatement.run s).1 = false) : s.EndsAt (statementEnd.run s).2 := by
  have hskip : Composed false skipBlanks := inferInstance
  have hends : endsStatement (s.stream.peekSignificant 0).kind s.lineMode = true := by
    change (!endsStatement (s.stream.peekSignificant 0).kind s.lineMode) = false at h
    simpa using h
  rw [← current_skipBlanks, ← (hskip.sameContext s).lineMode] at hends
  have hcomments := (hskip.follows s).commentsEndLines hs
  refine .of_follows (hskip.follows s) ?_
  unfold statementEnd
  rw [run_bind]
  generalize (skipBlanks.run s).2 = t at hends hcomments ⊢
  have hseparator : ((setSeparator .none).run t).2 = { t with lastSeparator := .none } := rfl
  rw [run_bind, hseparator, run_bind, run_get]
  split
  next =>
    exact (endsAt_shiftLineBreak (s := { t with lastSeparator := .none }) hcomments hends).congr
      (s := t) rfl rfl
  next => exact .of_current (isInlineTrivia_of_endsStatement hends) hends

instance : EndsStatement finishStatement where
  endsAt s hs := by
    obtain ⟨t, hfollows, hwithin, hrun⟩ := run_finishStatement s
    rw [hrun]
    exact .of_follows hfollows (endsAt_statementEnd (hfollows.commentsEndLines hs) hwithin)

/-! ## Statements -/

instance (k : NodeKind) : EndsStatement (rawStatement k) := by unfold rawStatement; infer_instance

instance : EndsStatement dimStatement := by unfold dimStatement; infer_instance

instance : EndsStatement constStatement := by unfold constStatement; infer_instance

instance : EndsStatement reDimStatement := by unfold reDimStatement; infer_instance

instance : EndsStatement eraseStatement := by unfold eraseStatement; infer_instance

instance : EndsStatement declareStatement := by unfold declareStatement; infer_instance

instance : EndsStatement eventStatement := by unfold eventStatement; infer_instance

instance : EndsStatement implementsStatement := by unfold implementsStatement; infer_instance

instance : EndsStatement assignment := by unfold assignment; infer_instance

instance : EndsStatement assignmentStatement := by unfold assignmentStatement; infer_instance

instance (k : NodeKind) : EndsStatement (wordedAssignment k) := by
  unfold wordedAssignment
  infer_instance

instance : EndsStatement call := by unfold call; infer_instance

instance : EndsStatement callStatement := by unfold callStatement; infer_instance

instance : EndsStatement callKeywordStatement := by unfold callKeywordStatement; infer_instance

instance : EndsStatement raiseEventStatement := by unfold raiseEventStatement; infer_instance

instance (k : NodeKind) : EndsStatement (wordStatement k) := by unfold wordStatement; infer_instance

instance (k : NodeKind) : EndsStatement (jumpStatement k) := by unfold jumpStatement; infer_instance

instance : EndsStatement resumeStatement := by unfold resumeStatement; infer_instance

instance : EndsStatement exitStatement := by unfold exitStatement; infer_instance

instance : EndsStatement onErrorStatement := by unfold onErrorStatement; infer_instance

instance : EndsStatement onJumpStatement := by unfold onJumpStatement; infer_instance

instance : EndsStatement onStatement := by unfold onStatement; infer_instance

instance : EndsStatement lineStatement := by unfold lineStatement; infer_instance

instance : EndsStatement unknownStatement := by unfold unknownStatement; infer_instance

instance : EndsStatement unexpectedStatement := by unfold unexpectedStatement; infer_instance

/-! ## The choice of a statement -/

/-- The words behind modifiers that open a statement with a body, and that open one without any. -/
def opensBodyBehindModifiers : Kind → Bool
  | .keyword .sub | .keyword .function | .keyword .property | .keyword .type
  | .keyword .enum => true
  | _ => false

/-- Whether a keyword, with the tokens from it on, opens a statement with a body. -/
def keywordOpensBody (keyword : Keyword) (tokens : List Token) : Bool :=
  match keyword with
  | .if_ | .select | .for_ | .do_ | .while_ | .with_ | .begin => true
  | keyword =>
    if Lookahead.isModifier (.keyword keyword) then
      opensBodyBehindModifiers (Lookahead.modifiedKind tokens)
    else opensBodyBehindModifiers (.keyword keyword)

/-- Whether the statement at the cursor is one with a body: an `If` of either form, a `Select Case`,
a loop, a `With`, a procedure, a `Type`, an `Enum` or a designer block. -/
def opensBody (s : TokenStream) : Bool :=
  match s.current.kind with
  | .keyword keyword =>
    (!keyword.isSoft || softKeywordOpens keyword s) && keywordOpensBody keyword s.rest
  | _ => false

/-- The state in which a statement is chosen: the mark of the statement before is taken back, and
the blanks are skipped. -/
def State.atChoice (s : State) : State :=
  ((do setRecovering false; skipBlanks : Production Unit).run s).2

section

variable {statement : Production Unit}

/-- What a modifier opens, unless it is a statement with a body. -/
theorem simple_modifiedStatement {s : State}
    (hbody : opensBodyBehindModifiers (Lookahead.modifiedKind s.stream.rest) = false) :
    ∃ p, ReportsOnce p ∧ EndsStatement p ∧ (modifiedStatement statement).run s = p.run s := by
  unfold modifiedStatement
  simp only [run_look_bind]
  generalize Lookahead.modifiedKind s.stream.rest = k at hbody ⊢
  split
  all_goals first
    | exact absurd hbody Bool.true_eq_false.mp
    | exact ⟨_, inferInstance, inferInstance, rfl⟩

/-- What a keyword opens, unless it is a statement with a body. -/
theorem simple_keywordStatement? {keyword : Keyword} {p : Production Unit} {s : State}
    (hbody : keywordOpensBody keyword s.stream.rest = false)
    (h : keywordStatement? statement keyword = some p) :
    ∃ q, ReportsOnce q ∧ EndsStatement q ∧ p.run s = q.run s := by
  unfold keywordStatement? at h
  split at h
  case h_38 =>
    obtain ⟨k, -, rfl⟩ := Option.map_eq_some_iff.mp h
    exact ⟨_, inferInstance, inferInstance, rfl⟩
  all_goals obtain rfl := Option.some.inj h
  case h_7 | h_8 | h_9 | h_10 | h_11 => exact simple_modifiedStatement hbody
  all_goals first
    | exact absurd hbody Bool.true_eq_false.mp
    | exact ⟨_, inferInstance, inferInstance, rfl⟩

/-- What starts no statement reports that before anything else is reported. -/
theorem quota_unexpectedStatement {s : State} (h : s.recovering = false) :
    (unexpectedStatement.run s).2.quota ≤ s.quota := by
  have hrest : ReportsOnce (setRecovering true >>= fun _ => unknownStatement) := inferInstance
  have hquota : s.quota = s.failures.size + 1 := by rw [State.quota, h]; rfl
  unfold unexpectedStatement current
  rw [run_look_bind]
  split
  next => exact hrest.quota_le s
  next =>
    rw [run_bind, run_bind]
    -- the report has used up the quota, and the mark is set behind it
    generalize hreported : ((setRecovering true).run
      ((report (.unexpectedStart s.stream.current) s.stream.current).run s).2).2 = reported
    have hspent : reported.quota = s.failures.size + 1 := by
      rw [← hreported]
      show (s.failures.push _).size + 0 = _
      rw [Array.size_push]
    rw [hquota, ← hspent]
    exact ReportsOnce.quota_le reported

theorem simple_openedStatement? {s : State} {p : Production Unit}
    (hbody : opensBody s.stream = false)
    (h : openedStatement? statement s.stream = some p) :
    ∃ q, ReportsOnce q ∧ EndsStatement q ∧ p.run s = q.run s := by
  obtain ⟨keyword, hkeyword, hopens, h⟩ := exists_keyword_of_openedStatement? h
  unfold opensBody at hbody
  rw [hkeyword] at hbody
  dsimp only at hbody
  rw [hopens, Bool.true_and] at hbody
  exact simple_keywordStatement? hbody h

/-- What no keyword opens. -/
theorem simple_plainStatementFor {s : State} (hrecovering : s.recovering = false)
    (hs : CommentsEndLines s.stream.rest) (stream : TokenStream) :
    ((plainStatementFor stream).run s).2.quota ≤ s.quota ∧
      s.EndsAt ((plainStatementFor stream).run s).2 := by
  have hsimple {p : Production Unit} (hp : ReportsOnce p) (hends : EndsStatement p) :
      (p.run s).2.quota ≤ s.quota ∧ s.EndsAt (p.run s).2 := ⟨hp.quota_le s, hends.endsAt s hs⟩
  unfold plainStatementFor
  cases hreplacement : replacement? stream with
  | some p =>
    unfold replacement? at hreplacement
    rw [Option.getD_some]
    split_ifs at hreplacement <;> cases hreplacement <;> exact hsimple inferInstance inferInstance
  | none =>
    rw [Option.getD_none]
    split
    · exact hsimple inferInstance inferInstance
    · split
      · exact hsimple inferInstance inferInstance
      · exact ⟨quota_unexpectedStatement hrecovering, EndsStatement.endsAt s hs⟩

variable (statement) in
/-- The statement at the cursor is a label, or it reports at most one failure and ends where
statements end, unless it is one with a body. -/
theorem simple_statementAtCursor {s : State} (hbody : opensBody s.stream = false)
    (hrecovering : s.recovering = false) (hs : CommentsEndLines s.stream.rest) :
    ((statementAtCursor statement).run s).2.quota ≤ s.quota ∧
      (s.EndsAt ((statementAtCursor statement).run s).2 ∨ (atLabel.run s).1 = true) := by
  rw [run_statementAtCursor, statementFor]
  split
  next hlabel => exact ⟨ReportsOnce.quota_le s, .inr hlabel⟩
  next =>
    cases hopened : openedStatement? statement s.stream with
    | some p =>
      obtain ⟨q, hreports, hends, hrun⟩ := simple_openedStatement? hbody hopened
      rw [Option.getD_some, hrun]
      exact ⟨hreports.quota_le s, .inl (hends.endsAt s hs)⟩
    | none =>
      obtain ⟨hquota, hends⟩ := simple_plainStatementFor hrecovering hs s.stream
      exact ⟨hquota, .inl hends⟩

end

/-- Skipping blanks leaves the mark of a failed statement alone. -/
theorem recovering_skipBlanks (s : State) : (skipBlanks.run s).2.recovering = s.recovering :=
  skipBlanks_induction (R := fun s t => t.recovering = s.recovering) (fun _ _ => rfl)
    (fun _ _ _ h => h) s

/-- A statement without a body reports at most one failure, whatever is wrong with it, and ends in
front of what ends statements or behind its own line break, unless it is a label. That holds from
every state of the reading of a source, and whatever reads the statements within statements. -/
theorem simple_statement_reports_once (source : Bytes) (file : UInt32) (statement : Production Unit)
    [Composed false statement] (s : State) (hs : s.stream.tokens = Lexer.tokens source file)
    (hbody : opensBody s.atChoice.stream = false) :
    let t := ((statementWith statement).run s).2
    (∃ reported : List Failure, t.failures.toList = s.failures.toList ++ reported ∧
      reported.length ≤ 1) ∧
    (endsStatement (t.stream.peekSignificant 0).kind s.lineMode = true ∨
      (∃ moved lineBreak, s.stream.rest = moved ++ lineBreak :: t.stream.rest ∧
        lineBreak.kind = .trivia .newline) ∨
      (atLabel.run s.atChoice).1 = true) := by
  intro t
  have hstatement : Composed false (statementWith statement) := inferInstance
  have hbegin : Composed false (do setRecovering false; skipBlanks : Production Unit) :=
    inferInstance
  have hfollows := hbegin.follows s
  have hcomments : CommentsEndLines s.stream.rest :=
    (Lexer.commentsEndLines_tokens source file).suffix ⟨s.stream.passed.reverse, hs⟩
  -- the choice is noted, which changes nothing that it depends on
  let chosen := ((note .statement s.atChoice.stream.current).run s.atChoice).2
  have hrun : ((statementAtCursor statement).run chosen).2 = t := rfl
  have hrecovering : chosen.recovering = false :=
    recovering_skipBlanks { s with recovering := false }
  obtain ⟨hquota, hends⟩ := simple_statementAtCursor statement (s := chosen) hbody hrecovering
    (hfollows.commentsEndLines hcomments)
  rw [hrun] at hquota hends
  refine ⟨?_, ?_⟩
  · obtain ⟨reported, hreported⟩ := (hstatement.follows s).failures
    refine ⟨reported, hreported.symm, ?_⟩
    have hskip : ReportsOnce skipBlanks := inferInstance
    have hchosen : chosen.quota ≤ s.failures.size + 1 :=
      hskip.quota_le { s with recovering := false }
    have hlength := congrArg List.length hreported
    rw [List.length_append, Array.length_toList, Array.length_toList] at hlength
    have hsize := t.size_failures_le_quota
    have hsame : t.failures.size = s.failures.size + reported.length := hlength.symm
    omega
  · have hline : t.lineMode = s.lineMode := (hstatement.sameContext s).lineMode
    rw [← hline]
    rcases hends with hends | hlabel
    · rcases State.EndsAt.of_follows hfollows hends with hnext | hmoved
      · exact .inl hnext
      · exact .inr (.inl hmoved)
    · rw [run_atLabel] at hlabel ⊢
      exact .inr (.inr hlabel)

/-- A declaration that lacks a name, a type and a closing parenthesis. -/
theorem simple_statement_reports_once_dim :
    let s :=
      State.start (.ofTokens (Lexer.tokens (Bytes.ofString "Dim 1 = 2, a(1 To ) As 3, (\n") 0))
    let t := ((statementWith statement).run s).2
    (∃ reported : List Failure, t.failures.toList = s.failures.toList ++ reported ∧
      reported.length ≤ 1) ∧
    (endsStatement (t.stream.peekSignificant 0).kind s.lineMode = true ∨
      (∃ moved lineBreak, s.stream.rest = moved ++ lineBreak :: t.stream.rest ∧
        lineBreak.kind = .trivia .newline) ∨
      (atLabel.run s.atChoice).1 = true) :=
  simple_statement_reports_once (Bytes.ofString "Dim 1 = 2, a(1 To ) As 3, (\n") 0 statement _
    (by decide +kernel) (by decide +kernel)

end LosslessBasic.Grammar
