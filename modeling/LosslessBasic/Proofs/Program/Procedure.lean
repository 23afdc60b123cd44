import LosslessBasic.Proofs.Program.Bodies

/-!
# The procedure of a program

Outside of every block the procedure is one statement. Behind it the source ends.
-/

namespace LosslessBasic.Grammar

open Program

variable {s : State} {w : Bool} {depth : Nat} {ns : List Nesting} {foot : Margin}
  {body rest text : Bytes}

theorem startsWithCloser_endSub (foot : Margin) (rest : Bytes) :
    StartsWithCloser { block := .sub } (foot.line "End Sub" ++ rest) :=
  ⟨foot, _, _, _, _, rest, rfl, spells_endSub, rfl, rfl⟩

/-- What is in the node of a `Sub`. -/
def subParts (statement : Production Unit) : Production Unit := do
  subLine
  let stop ← blockBody statement .sub
  blockEnd stop

/-- A procedure that starts with its word is a `Sub`. -/
theorem run_procedure (statement : Production Unit) (h : s.stream.current.kind = .keyword .sub) :
    (procedure statement).run s = (within .subStatement (subParts statement)).run s := by
  have hkind : Lookahead.modifiedKind s.stream.rest = .keyword .sub := by
    unfold Lookahead.modifiedKind Lookahead.afterModifiers
    rw [TokenStream.rest,
      List.dropWhile_cons_of_neg (by simp [h, Kind.isInlineTrivia, Lookahead.isModifier])]
    exact h
  unfold procedure subParts subLine
  rw [run_look_bind, hkind]
  simp only [procedureForm, bind_assoc, pure_bind]
  rfl

/-- A procedure is read when its body is. -/
theorem State.Ready.takes_subParts (hs : s.Ready w (depth + 1))
    (hseparator : s.lastSeparator = .lineBreak)
    (hline : s.OnLine [.keyword .sub, .trivia .whitespace, .lexeme .identifier, .lexeme .leftParen,
      .lexeme .rightParen] (body ++ (foot.line "End Sub" ++ rest)))
    (hbody : ∀ t : State, t.Ready w depth → t.AtLine (body ++ (foot.line "End Sub" ++ rest)) →
      t.blocks.head? = some .sub →
      t.Takes (statements (statementUpTo depth)) ns (EndsBefore (foot.line "End Sub" ++ rest))) :
    s.Takes (subParts (statementUpTo depth)) ns fun _ t => t.AtLine rest := by
  have hcomposed : Composed false subLine := by
    unfold subLine
    infer_instance
  have hcarries (P : Placement) : Carries P State.OnDeclarator subLine subLine
      (fun _ => State.Settled) := by
    have hrest : Settles P State.Inside (do note .procedure (← next); signature; finishStatement)
        (do note .procedure (← next); signature; finishStatement) := inferInstance
    exact carries_shiftDeclarator.bind fun _ => hrest.carries
  obtain ⟨hreads, hafter, hbefore, hlt⟩ := hline.readsAll hs.calm hcarries
    (by rw [hseparator]; exact digests_subLine.any w) hs.target fun line hline => by
      cases line with
      | nil => cases hline
      | cons t line => exact .of_keyword (List.cons.inj hline).1 rfl
  have hsub : s.Takes subLine [] fun _ t => t.AtLine (body ++ (foot.line "End Sub" ++ rest)) ∧
      t.stream.remaining < s.stream.remaining := ⟨hreads, ⟨hafter, hbefore⟩, hlt⟩
  -- the first line and the last one add no statement to those of the body
  have hnest : ns = [] ++ (ns ++ []) := by simp
  rw [hnest]
  refine hsub.bind fun _ t hreads ht => ?_
  have ht' := hs.of_reads hreads
  have hready : t.Ready w depth :=
    ⟨ht'.calm, ht'.target, Nat.lt_of_lt_of_le ht.2 (Nat.le_of_lt_succ hs.shallow)⟩
  refine (hready.takes_blockBody ht.1 hbody).bind fun stop u hreads hu => ?_
  obtain ⟨rfl, hu⟩ := hu
  exact (hready.of_reads hreads).takes_closeBlock (hu.onLine spells_endSub (by simp))

/-- At the end of a text only the end marker is left. -/
theorem State.AtLine.atEnd (h : s.AtLine []) : s.AtEnd := by
  obtain ⟨file, p, hrest⟩ := h.before
  exact congrArg Token.kind (List.cons.inj hrest).1

/-- A procedure is all that is read of a source that holds nothing else: blanks, and its node. -/
theorem run_statements_procedure (hs : s.Ready false (depth + 1)) (houtermost : s.Outermost)
    (hline : s.AtLine text) {head : Margin} {body : Lines false}
    (htext : text = head.line "Sub Main()" ++ (body.text ++ foot.line "End Sub")) :
    ∃ (blanks : List Token) (a : Anchor) (trees : List Tree),
      s.Adds (blanks.map .leaf ++ [.above (.node .subStatement) a trees])
        ((statements (statementUpTo (depth + 1))).run s).2 ∧
      (∀ b ∈ blanks, b.kind = .trivia .whitespace) ∧ Tree.nestingAll trees = body.nesting ∧
      Tree.findIn? (.node .unknown) trees = none ∧
      ((statements (statementUpTo (depth + 1))).run s).2.failures = s.failures := by
  subst htext
  obtain ⟨t, hrun, hskips, hbehind⟩ :=
    run_statements_behindBlanks (statementUpTo (depth + 1)) hs.calm
  obtain ⟨file, p, hbefore⟩ := hline.before
  have hsub : t.OnLine _ (body.text ++ (foot.line "End Sub" ++ [])) :=
    State.OnText.onLine (m := head) ⟨file, p, by rw [hbehind, hbefore, List.append_nil]⟩ spells_sub
      (by simp)
  have hfirst := kind_current_of_onLine hsub
  have ht := hs.of_reads (hskips.reads hs.calm)
  -- the procedure is the statement behind the blanks
  have hitem : outermostItem (statementUpTo (depth + 1)) t.stream = statementUpTo (depth + 1) := by
    unfold outermostItem
    rw [hfirst, if_neg (by simp [Kind.isTrivia]), if_neg (by simp),
      TokenStream.peekSignificant_zero (by rw [hfirst]; rfl), hfirst]
    rfl
  have hinside := run_statements_of_inside (statementUpTo (depth + 1))
    (houtermost.of_sameContext (hskips.reads hs.calm).context) (s := t)
    (by unfold State.AtEnd; simp [hfirst])
  obtain ⟨u, hstatement, hnoted, hstream⟩ := run_statementUpTo_keyword (p := procedure
    (statementUpTo depth)) ht.calm.recovering hfirst rfl rfl
  have hblanks := hskips.trans hnoted
  have hu := hs.of_reads (hblanks.reads hs.calm)
  rw [hitem, hstatement, run_procedure _ (by rw [hstream, hfirst]), run_within] at hinside
  obtain ⟨hreads, hends⟩ :=
    (hu.opening .subStatement).takes_subParts (hblanks.lastSeparator.trans hline.separator)
      (hsub.of_stream_eq hstream) fun v hv hv' hblock =>
        body.takes hv hv' (startsWithCloser_endSub foot []) hblock
  generalize ((subParts (statementUpTo depth)).run (u.opening .subStatement)).2 = v
    at hreads hends hinside
  obtain ⟨⟨trees, hadds, hnesting, hknown⟩, hfailures, -, -⟩ := hreads
  obtain ⟨blanks, hadds', hkinds⟩ := hblanks.added
  obtain ⟨hnode, -⟩ := hadds.closing_opening hu.calm.innermost
  have hall := hadds'.trans hnode
  have hclosed : v.closing.AtLine [] := ⟨hends.separator, hends.before⟩
  have hend : (statements (statementUpTo (depth + 1))).run v.closing = (.endOfInput, v.closing) :=
    run_statements_of_atEnd (houtermost.of_sameContext hall.context) hclosed.atEnd
  rw [hrun, hinside, hend]
  exact ⟨blanks, _, trees, hall, hkinds, hnesting, hknown, hfailures.trans hblanks.failures⟩

end LosslessBasic.Grammar
