import LosslessBasic.Proofs.Grammar.Termination

/-!
# Reading a source to its end

Outside of every block a list of statements stops at the end of the source and nowhere else:
whatever a pass meets before, it moves at least one token of it and goes on. So a source is read to
its end, and all of its tokens stand below the root (`source_reads_all`).
-/

namespace LosslessBasic.Grammar

/-- Whether no block is open, and no line of a single-line `If`. -/
structure State.Outermost (s : State) : Prop where
  blocks : s.blocks = []
  lineMode : s.lineMode = 0

theorem State.Outermost.of_sameContext {s t : State} (hs : s.Outermost) (h : s.SameContext t) :
    t.Outermost :=
  ⟨h.blocks.trans hs.blocks, h.lineMode.trans hs.lineMode⟩

section

variable {statement : Production Unit} [hstatement : Composed false statement]
  [hadv : Advances statement] {s : State}

/-- What goes on and moves a token. -/
def State.GoesOn (s : State) (p : Production (Pass Unit Stop)) : Prop :=
  (p.run s).1 = .again () ∧ (p.run s).2.stream.remaining < s.stream.remaining

theorem State.goesOn_of_advances {p : Production Unit} [Advances p] (h : ¬ s.AtEnd) :
    s.GoesOn (p >>= fun _ => pure (.again ())) :=
  ⟨rfl, Advances.remaining_lt s h⟩

/-- Outside of every block no closer ends the list. -/
theorem goesOn_closerPass (h : s.Outermost) (hend : ¬ s.AtEnd) (closer : Closer) :
    s.GoesOn (closerPass closer) := by
  have hopen : (blockIsOpen closer.block).run s = (false, s) := by
    change (s.blocks.contains closer.block, s) = _
    rw [h.blocks]
    rfl
  unfold closerPass
  rw [State.GoesOn, run_bind, run_get, if_neg (by simp [h.blocks]), run_bind, hopen]
  exact State.goesOn_of_advances hend

/-- Outside of every block no `Next` ends the list. -/
theorem goesOn_statementPass (h : s.Outermost) (hend : ¬ s.AtEnd) :
    s.GoesOn (statementPass statement) := by
  have hblocks := (h.of_sameContext (hstatement.sameContext s)).blocks
  unfold statementPass
  rw [State.GoesOn, run_bind, run_bind, run_get, if_neg (by simp [hblocks])]
  exact ⟨rfl, hadv.remaining_lt s hend⟩

theorem goesOn_listPass (h : s.Outermost) (hend : ¬ s.AtEnd) :
    s.GoesOn (listPass statement) := by
  have hprocedure : insideProcedure.run s = (false, s) := by
    change (s.blocks.any (·.isProcedure), s) = _
    rw [h.blocks]
    rfl
  have hcloser : (nextCloser?.run s).2 = s := rfl
  unfold listPass
  rw [State.GoesOn, run_bind, run_currentKind]
  split
  · exact State.goesOn_of_advances hend
  · split
    · exact State.goesOn_of_advances hend
    · rw [run_bind, hcloser]
      cases (nextCloser?.run s).1 with
      | some closer => exact goesOn_closerPass h hend closer
      | none =>
        unfold closerOrStatementPass
        rw [run_bind, hprocedure]
        exact goesOn_statementPass h hend

variable (statement) in
/-- Outside of every block a list of statements goes on before the end of the source. -/
theorem goesOn_statementsPass (h : s.Outermost) (hend : ¬ s.AtEnd) :
    s.GoesOn (statementsPass statement ()) := by
  have hkind : ¬ (s.stream.current.kind == .lexeme .endOfFile) = true := by
    simpa [State.AtEnd] using hend
  unfold statementsPass current
  rw [State.GoesOn, run_look_bind, if_neg hkind, run_bind, run_get,
    if_neg (by simp [h.lineMode])]
  exact goesOn_listPass h hend

/-- A list of statements outside of every block ends at the end of the source. -/
theorem atEnd_iterateUpTo_statementsPass {n : Nat} (h : s.Outermost)
    (hn : s.stream.remaining < n) :
    ((iterateUpTo (fun _ => .endOfInput) (statementsPass statement) n ()).run s).2.AtEnd := by
  induction n generalizing s with
  | zero => omega
  | succ n ih =>
    unfold iterateUpTo
    rw [run_bind]
    by_cases hend : s.AtEnd
    · have hrun : (statementsPass statement ()).run s = (.done .endOfInput, s) := by
        unfold statementsPass current reportMissingCloser
        rw [run_look_bind, if_pos (by rw [hend]; rfl), run_bind, run_bind, run_get]
        simp only [h.blocks]
        rfl
      rw [hrun]
      exact hend
    · obtain ⟨hagain, hlt⟩ := goesOn_statementsPass statement h hend
      rw [hagain]
      have hpass : Composed false (statementsPass statement ()) := inferInstance
      exact ih (h.of_sameContext (hpass.sameContext s)) (by omega)

variable (statement) in
theorem atEnd_statements (h : s.Outermost) : ((statements statement).run s).2.AtEnd := by
  unfold statements iterate
  rw [run_look_bind]
  exact atEnd_iterateUpTo_statementsPass h (Nat.lt_succ_self _)

end

/-! ## The root -/

/-- The state in which the grammar starts on a stream, with the root opened. -/
def State.start (stream : TokenStream) : State := State.opening { stream := stream } .root

/-- The state in which the grammar is when it has read the statements of a stream. -/
def State.final (stream : TokenStream) : State :=
  ((statements (statementUpTo (stream.remaining + 1))).run (.start stream)).2

theorem run_source (stream : TokenStream) :
    (source.run { stream := stream }).2 = (State.final stream).closing := rfl

/-- The statements of a source are read to its end. -/
theorem atEnd_final (stream : TokenStream) : (State.final stream).AtEnd :=
  atEnd_statements (statementWith (statementUpTo stream.remaining)) (s := .start stream) ⟨rfl, rfl⟩

/-- The tree of a source is a root above everything that was read. -/
theorem finish_source (stream : TokenStream) :
    (source.run { stream := stream }).2.builder.finish.1 =
      some (.above (.node .root) (State.final stream).builder.anchor
        (State.final stream).builder.pending.toList) := by
  have hbody : Composed false (statements (statementUpTo (stream.remaining + 1))) := inferInstance
  have hopened : (State.final stream).builder.opened = [{ kind := .node .root, first := 0 }] :=
    (hbody.sameContext (.start stream)).opened
  have hclosed := Builder.opened_finishNode hopened
  rw [run_source]
  unfold State.closing
  rw [Builder.finish_fst_of_closed hclosed, ← Array.getElem?_toList,
    Builder.pending_finishNode hopened]
  simp

/-- The tokens of a source stand below its root, up to an end marker. -/
theorem leaves_final (stream : TokenStream) :
    stream.rest = Tree.leavesAll (State.final stream).builder.pending.toList ++
      (State.final stream).stream.rest := by
  have hbody : Composed false (statements (statementUpTo (stream.remaining + 1))) := inferInstance
  obtain ⟨moved, hrest, hleaves⟩ := (hbody.follows (.start stream)).moved
  simp only [State.start, State.opening, Builder.startNode, Tree.leavesAll, List.nil_append]
    at hrest hleaves
  rw [hrest]
  unfold State.final State.start State.opening
  simp only [Builder.startNode]
  rw [hleaves]

end LosslessBasic.Grammar
