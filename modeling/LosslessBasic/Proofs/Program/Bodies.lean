import LosslessBasic.Proofs.Program.Clauses

/-!
# Bodies

A body of any depth and length is read up to the closer behind it, and its blocks are nested as they
are written. The induction is on the body; each kind of line and of block adds one case.

## Main results

* `Lines.takes`: the statements of a body.
* `Arms.takes`, `Clauses.takes`: the further arms of an `If`, and the clauses of a `Select Case`.
-/

namespace LosslessBasic.Grammar

open Program

variable {s : State} {w : Bool} {depth : Nat} {ns ms : List Nesting} {m : Margin} {words : String}
  {k : Kind} {kinds : List Kind} {text rest : Bytes} {post : Stop → State → Prop}

/-! ## One statement behind another -/

theorem State.AtLine.onLine (h : s.AtLine (m.line words ++ text))
    (hwords : Lexer.Spells words (k :: kinds)) (hk : startsStatement k = true) :
    ∀ t : State, t.stream.rest = Lexer.behindBlanks s.stream.rest → t.OnLine (k :: kinds) text := by
  intro t ht
  obtain ⟨file, p, hbefore⟩ := h.before
  rw [hbefore] at ht
  refine State.OnText.onLine ⟨file, p, ht⟩ hwords ?_
  rintro rfl
  cases hk

theorem State.OnLine.behindBlank (h : s.OnLine (.trivia .whitespace :: k :: kinds) text)
    (hk : startsStatement k = true) :
    ∀ t : State, t.stream.rest = Lexer.behindBlanks s.stream.rest → t.OnLine (k :: kinds) text := by
  intro t ht
  obtain ⟨line, more, hrest, hkinds, hmore⟩ := h
  obtain ⟨blank, line, rfl, hblank, hkinds⟩ := List.map_eq_cons_iff.mp hkinds
  obtain ⟨first, line, rfl, rfl, hline⟩ := List.map_eq_cons_iff.mp hkinds
  refine ⟨first :: line, more, ?_, hkinds, hmore⟩
  have hfirst : ¬ (first.kind == .trivia .whitespace) = true := by
    intro hfirst
    rw [beq_iff_eq.mp hfirst] at hk
    cases hk
  rw [ht, hrest, List.cons_append, List.cons_append, Lexer.behindBlanks,
    List.dropWhile_cons_of_pos (by rw [hblank]; rfl)]
  exact List.dropWhile_cons_of_neg hfirst

/-- A list of statements goes on behind the statement that comes next. -/
theorem State.Ready.takes_statements_cons (ns : List Nesting) (mid : State → Prop)
    (hs : s.Ready w depth)
    (hline : ∀ t : State, t.stream.rest = Lexer.behindBlanks s.stream.rest →
      t.OnLine (k :: kinds) text) (hk : startsStatement k = true)
    (hstatement : ∀ t : State, t.Ready w depth → t.lastSeparator = s.lastSeparator →
      t.OnLine (k :: kinds) text → t.Takes (statementUpTo depth) ns fun _ => mid)
    (hrest : ∀ t : State, t.Ready w depth → t.blocks = s.blocks → mid t →
      t.Takes (statements (statementUpTo depth)) ms post) :
    s.Takes (statements (statementUpTo depth)) (ns ++ ms) post := by
  obtain ⟨t, hrun, hskips, hbehind⟩ :=
    run_statements_behindBlanks (statementUpTo depth) hs.calm
  have hreads := hskips.reads hs.calm
  have ht := hs.of_reads hreads
  have honline := hline t hbehind
  have hread := hstatement t ht hskips.lastSeparator honline
  have hrun' := run_statements_behindStatement (statementUpTo depth) ht.calm
    (by rw [kind_current_of_onLine honline]; exact hk) hread.reads.pendingNext
  refine .behind (hreads.trans hread.reads) (hrun.trans hrun') (hrest _ (ht.of_reads hread.reads) ?_
    hread.leads)
  rw [hread.reads.context.blocks, hreads.context.blocks]

/-- Two statements on a line, one behind the other. -/
theorem State.Ready.takes_statements_pair (hs : s.Ready w (depth + 1))
    (hline : s.AtLine (m.line Simple.pair.words ++ text))
    (hrest : ∀ t : State, t.Ready w (depth + 1) → t.blocks = s.blocks → t.AtLine text →
      t.Takes (statements (statementUpTo (depth + 1))) ms post) :
    s.Takes (statements (statementUpTo (depth + 1))) ms post := by
  have hsettles (P : Placement) : Settles P State.OnWord (statementUpTo (depth + 1))
      (statementUpTo (depth + 1)) := inferInstance
  refine hs.takes_statements_cons [] (fun u => u.lastSeparator = .none ∧
      u.OnLine (.lexeme .colon :: .trivia .whitespace :: assignmentKinds) text)
    (hline.onLine (spells_simple .pair) rfl) rfl (fun t ht hseparator honline => ?_)
      fun t ht hblocks hmid => ?_
  · -- the first statement ends before the colon
    have hdigests := digests_simple .pair depth
    rw [if_pos rfl, if_pos rfl, ← hline.separator, ← hseparator] at hdigests
    obtain ⟨hreads, hnone, -, left, more, hleft, hkinds, hmore⟩ :=
      honline.reads assignmentKinds
        (.lexeme .colon :: .trivia .whitespace :: assignmentKinds ++ [.trivia .newline])
        ht.calm (fun P => (hsettles P).carries) (hdigests.any w) ht.target
        (fun line hline => onWord_onLine hline ⟨rfl, by simp [EndsLook]⟩) rfl rfl
    exact ⟨hreads, hnone, left, more, hleft, hkinds, hmore⟩
  · obtain ⟨hseparator, hline⟩ := hmid
    -- the colon separates the statements, and the second one starts behind the blank that follows
    obtain ⟨u, hrun, hreads, hcolon, hseparator⟩ := run_statements_behindColon
      (statementUpTo (depth + 1)) ht.calm (kind_current_of_onLine hline) hseparator
    have hu := ht.of_reads hreads
    obtain ⟨line, more, hstream, hkinds, hmore⟩ := hline
    obtain ⟨colon, line, rfl, -, hkinds⟩ := List.map_eq_cons_iff.mp hkinds
    have hsecond : u.OnLine (.trivia .whitespace :: assignmentKinds) text :=
      ⟨line, more, (List.cons.inj (hcolon.symm.trans hstream)).2, hkinds, hmore⟩
    have hall : u.Takes (statements (statementUpTo (depth + 1))) ([] ++ ms) post := by
      refine hu.takes_statements_cons [] (fun v => v.AtLine text) (hsecond.behindBlank rfl) rfl
        (fun v hv hseparator' hline => ?_) fun v hv hblocks' => hrest v hv ?_
      · have hdigests := digests_assignment depth
        rw [← hseparator, ← hseparator'] at hdigests
        exact (hv.takes_line hline ⟨rfl, by simp [EndsLook]⟩ (hdigests.any w)).mono fun _ _ h => h.1
      · rw [hblocks', hreads.context.blocks, hblocks]
    exact .behind hreads hrun hall

/-- A simple statement is read, whatever it is. -/
theorem State.Ready.takes_statements_simple {statement : Simple} (hs : s.Ready w (depth + 1))
    (hline : s.AtLine (m.line statement.words ++ text))
    (hrest : ∀ t : State, t.Ready w (depth + 1) → t.blocks = s.blocks → t.AtLine text →
      t.Takes (statements (statementUpTo (depth + 1))) ms post) :
    s.Takes (statements (statementUpTo (depth + 1))) ms post := by
  by_cases hpair : statement = .pair
  · subst hpair
    exact hs.takes_statements_pair hline hrest
  · obtain ⟨k, kinds, hkinds, hk⟩ : ∃ k kinds, statement.kinds = k :: kinds ∧
        startsStatement k = true := by
      cases statement <;> exact ⟨_, _, rfl, rfl⟩
    have hspells := spells_simple statement
    have hdigests := digests_simple statement depth
    rw [hkinds] at hspells hdigests
    rw [if_neg hpair, if_neg hpair] at hdigests
    refine hs.takes_statements_cons [] (fun v => v.AtLine text) (hline.onLine hspells hk) hk
      (fun t ht hseparator honline => ?_) hrest
    refine (ht.takes_line honline (onWord_of_startsStatement hk) ?_).mono fun _ _ h => h.1
    rw [hseparator, hline.separator]
    exact hdigests.any w

/-- An access to what the `With` around it names is read. -/
theorem State.Ready.takes_statements_member (hs : s.Ready true (depth + 1))
    (hline : s.AtLine (m.line ".Value = 1" ++ text))
    (hrest : ∀ t : State, t.Ready true (depth + 1) → t.blocks = s.blocks → t.AtLine text →
      t.Takes (statements (statementUpTo (depth + 1))) ms post) :
    s.Takes (statements (statementUpTo (depth + 1))) ms post := by
  refine hs.takes_statements_cons [] (fun v => v.AtLine text) (hline.onLine spells_member rfl) rfl
    (fun t ht hseparator honline => ?_) hrest
  refine (ht.takes_line honline (onWord_of_startsStatement rfl) ?_).mono fun _ _ h => h.1
  rw [hseparator, hline.separator]
  exact digests_member depth

end LosslessBasic.Grammar

namespace LosslessBasic.Program

open Grammar

theorem startsWithCloser_endIf (foot : Margin) (rest : Bytes) :
    StartsWithCloser { block := .if_ } (foot.line "End If" ++ rest) :=
  ⟨foot, _, _, _, _, rest, rfl, spells_endIf, rfl, rfl⟩

/-- Behind a body of an `If` comes what ends it. -/
theorem Arms.startsWithCloser {w : Bool} (arms : Arms w) (foot : Margin) (rest : Bytes) :
    ∃ closer, closer.block = .if_ ∧
      StartsWithCloser closer (arms.text ++ (foot.line "End If" ++ rest)) := by
  cases arms with
  | nil => exact ⟨{ block := .if_ }, rfl, startsWithCloser_endIf foot rest⟩
  | elseIf head body more =>
    refine ⟨{ block := .if_, isSegment := true }, rfl, head, _, _, _, _,
      body.text ++ more.text ++ (foot.line "End If" ++ rest), ?_, spells_elseIf, rfl, rfl⟩
    simp [Arms.text]
  | else_ head body =>
    refine ⟨{ block := .if_, isSegment := true }, rfl, head, _, _, _, _,
      body.text ++ (foot.line "End If" ++ rest), ?_, spells_else, rfl, rfl⟩
    simp [Arms.text]

/-- Behind a clause comes another one or the closer. -/
theorem Clauses.startsWithCloser {w : Bool} (clauses : Clauses w) (foot : Margin) (rest : Bytes) :
    ∃ closer, closer.block = .select ∧
      StartsWithCloser closer (clauses.text ++ (foot.line "End Select" ++ rest)) := by
  cases clauses with
  | nil => exact ⟨{ block := .select }, rfl, startsWithCloser_endSelect foot rest⟩
  | clause head test body more =>
    refine ⟨{ block := .select, isSegment := true }, rfl, ?_⟩
    rw [Clauses.text, List.append_assoc]
    exact startsWithCloser_test head test _

mutual

/-- The statements of a body are read up to the closer behind it. -/
theorem Lines.takes {w : Bool} (body : Lines w) {depth : Nat} {s : State} {closer : Closer}
    {following : Bytes} (hs : s.Ready w depth) (hline : s.AtLine (body.text ++ following))
    (hcloser : StartsWithCloser closer following) (hblock : s.blocks.head? = some closer.block) :
    s.Takes (statements (statementUpTo depth)) body.nesting (EndsBefore following) := by
  obtain _ | depth := depth
  · exact absurd hs.shallow (Nat.not_lt_zero _)
  -- by recursion on the lines: each takes its own statement, and the rest follows in the same block
  match body with
  | .nil => exact hs.takes_statements_nil hline hcloser hblock
  | .simple m statement rest =>
    rw [Lines.text, List.append_assoc] at hline
    refine hs.takes_statements_simple hline fun t ht hblocks ht' => ?_
    exact rest.takes ht ht' hcloser (by rw [hblocks, hblock])
  | .member m rest =>
    rw [Lines.text, List.append_assoc] at hline
    refine hs.takes_statements_member hline fun t ht hblocks ht' => ?_
    exact rest.takes ht ht' hcloser (by rw [hblocks, hblock])
  | .block head form inner foot rest =>
    rw [Lines.text] at hline
    simp only [List.append_assoc] at hline
    obtain ⟨kinds, hkinds⟩ : ∃ kinds, form.openingKinds = .keyword form.keyword :: kinds := by
      cases form <;> exact ⟨_, rfl⟩
    have hk : startsStatement (.keyword form.keyword) = true := by cases form <;> rfl
    have hspells := form.spells_opening
    rw [hkinds] at hspells
    refine hs.takes_statements_cons [.of form.node inner.nesting]
      (fun v => v.AtLine (rest.text ++ following)) (hline.onLine hspells hk) hk
        (fun t ht _ honline => ?_)
      fun t ht hblocks ht' => rest.takes ht ht' hcloser (by rw [hblocks, hblock])
    rw [← hkinds] at honline
    exact form.takes_statement ht honline fun u hu hu' hblock =>
      inner.takes hu hu' (form.startsWithCloser foot _) hblock
  | .if_ head inner arms foot rest =>
    rw [Lines.text] at hline
    simp only [List.append_assoc] at hline
    refine hs.takes_statements_cons [.of .ifStatement (inner.nesting ++ arms.nesting)]
      (fun v => v.AtLine (rest.text ++ following)) (hline.onLine spells_if rfl)
        rfl (fun t ht _ honline => ?_)
      fun t ht hblocks ht' => rest.takes ht ht' hcloser (by rw [hblocks, hblock])
    obtain ⟨arm, hif, harm⟩ := arms.startsWithCloser foot (rest.text ++ following)
    exact ht.takes_if honline
      (fun u hu hu' hblock => inner.takes hu hu' harm (by rw [hif]; exact hblock))
      fun u hu hu' => arms.takes hu hu'
  | .select head clauses foot rest =>
    rw [Lines.text] at hline
    simp only [List.append_assoc] at hline
    refine hs.takes_statements_cons [.of .selectCaseStatement clauses.nesting]
      (fun v => v.AtLine (rest.text ++ following)) (hline.onLine spells_select rfl)
        rfl (fun t ht _ honline => ?_)
      fun t ht hblocks ht' => rest.takes ht ht' hcloser (by rw [hblocks, hblock])
    exact ht.takes_select honline fun u hu hu' => clauses.takes hu hu'

/-- The further arms of an `If` are read up to its closer. -/
theorem Arms.takes {w : Bool} (arms : Arms w) {depth : Nat} {s : State} {foot : Margin}
    {rest : Bytes}
    (hs : s.Ready w depth) (htext : s.OnText (arms.text ++ (foot.line "End If" ++ rest))) :
    s.Takes (furtherBodies (statementUpTo depth) .ownCloser) arms.nesting
      (EndsBefore (foot.line "End If" ++ rest)) := by
  match arms with
  | .nil => exact hs.takes_furtherBodies_nil htext
  | .elseIf head body more =>
    rw [Arms.text] at htext
    simp only [List.append_assoc] at htext
    obtain ⟨arm, hif, harm⟩ := more.startsWithCloser foot rest
    exact hs.takes_furtherBodies_elseIf htext
      (fun u hu hu' hblock => body.takes hu hu' harm (by rw [hif]; exact hblock))
      fun u hu hu' => more.takes hu hu'
  | .else_ head body =>
    rw [Arms.text, List.append_assoc] at htext
    exact hs.takes_furtherBodies_else htext fun u hu hu' hblock =>
      body.takes hu hu' (startsWithCloser_endIf foot rest) hblock

/-- The clauses of a `Select Case` are read, and its closer. -/
theorem Clauses.takes {w : Bool} (clauses : Clauses w) {depth : Nat} {s : State} {foot : Margin}
    {rest : Bytes} (hs : s.Ready w depth)
    (htext : s.OnText (clauses.text ++ (foot.line "End Select" ++ rest))) :
    s.Takes (Grammar.clauses (statementUpTo depth)) clauses.nesting fun _ t => t.AtLine rest := by
  match clauses with
  | .nil => exact hs.takes_clauses_nil htext
  | .clause head test body more =>
    rw [Clauses.text] at htext
    simp only [List.append_assoc] at htext
    obtain ⟨closer, hselect, hcloser⟩ := more.startsWithCloser foot rest
    exact hs.takes_clauses_clause htext
      (fun u hu hu' hblock => body.takes hu hu' hcloser (by rw [hselect]; exact hblock))
        hcloser hselect
      fun u hu hu' => more.takes hu hu'

end

end LosslessBasic.Program
