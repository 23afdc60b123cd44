import LosslessBasic.Proofs.Grammar.Conservation

/-!
# What a `Next` leaves to be closed

A `Next` may close loops further out, but no more of them than are open around it without a block of
another kind in between. So the count of the loops that are still to be closed never exceeds the
number of these (`BoundsLoops`), and none is left outside of every block (`pendingNext_statements`).
-/

namespace LosslessBasic.Grammar

set_option synthInstance.maxSize 65536

/-- The number of loops that are open around each other, from the innermost block outwards. -/
def leadingLoops (blocks : List Block) : Nat := (blocks.takeWhile fun b => b == .for_).length

theorem leadingLoops_eq_zero {blocks : List Block} (h : blocks.head? ≠ some .for_) :
    leadingLoops blocks = 0 := by
  cases blocks with
  | nil => rfl
  | cons block blocks =>
    have hblock : (block == .for_) = false := by simpa using h
    simp [leadingLoops, hblock]

/-- A production that leaves no more loops to be closed than are open around it, the innermost `own`
ones left out, unless there were more already. -/
class BoundsLoops (own : Nat) {α : Type} (p : Production α) : Prop where
  pendingNext_le (s : State) :
    (p.run s).2.pendingNext ≤ max s.pendingNext (leadingLoops s.blocks - own)

section

variable {α β : Type} {own : Nat} {p q : Production α}

instance [h : Composed true p] : BoundsLoops own p where
  pendingNext_le s := by
    rw [h.pendingNext_eq rfl s]
    exact Nat.le_max_left ..

instance {f : α → Production β} [hcomposed : Composed false p] [hp : BoundsLoops own p]
    [hf : ∀ a, BoundsLoops own (f a)] : BoundsLoops own (p >>= f) where
  pendingNext_le s := by
    have hfirst := hp.pendingNext_le s
    have hsecond := (hf (p.run s).1).pendingNext_le (p.run s).2
    rw [(hcomposed.sameContext s).blocks] at hsecond
    rw [run_bind]
    omega

instance {k : NodeKind} [h : BoundsLoops own p] : BoundsLoops own (within k p) where
  pendingNext_le s := h.pendingNext_le (s.opening k)

instance {target : Option Tree} [h : BoundsLoops own p] : BoundsLoops own (inWith target p) where
  pendingNext_le s := h.pendingNext_le { s with withTargets := target :: s.withTargets }

instance {block : Block} [h : BoundsLoops 1 p] : BoundsLoops 0 (inBlock block p) where
  pendingNext_le s := by
    have hle := h.pendingNext_le { s with blocks := block :: s.blocks }
    have hloops : leadingLoops (block :: s.blocks) - 1 ≤ leadingLoops s.blocks := by
      unfold leadingLoops
      rw [List.takeWhile_cons]
      split <;> simp
    rw [run_inBlock]
    dsimp only at hle ⊢
    omega

instance [h : BoundsLoops own p] : BoundsLoops own (onOneLine p) where
  pendingNext_le s := h.pendingNext_le { s with lineMode := s.lineMode + 1 }

instance {c : Prop} [Decidable c] [BoundsLoops own p] [BoundsLoops own q] :
    BoundsLoops own (if c then p else q) := by
  split <;> infer_instance

instance {exhausted : α → β} {pass : α → Production (Pass α β)} [∀ a, Composed false (pass a)]
    [∀ a, BoundsLoops own (pass a)] (n : Nat) (a : α) :
    BoundsLoops own (iterateUpTo exhausted pass n a) := by
  induction n generalizing a with
  | zero => unfold iterateUpTo; infer_instance
  | succ n ih =>
    unfold iterateUpTo
    have hrest (r : Pass α β) : BoundsLoops own (match r with
        | .again a => iterateUpTo exhausted pass n a
        | .done b => pure b) := by
      cases r with
      | again a => exact ih a
      | done b => dsimp only; infer_instance
    infer_instance

instance {exhausted : α → β} {pass : α → Production (Pass α β)} [∀ a, Composed false (pass a)]
    [∀ a, BoundsLoops own (pass a)] (a : α) : BoundsLoops own (iterate exhausted pass a) := by
  unfold iterate
  infer_instance

end

/-! ## Next -/

/-- A step of a `Next` counts no more loops than are open. -/
theorem nextVariablePass_le {closed : Nat} {s : State} (h : closed ≤ leadingLoops s.blocks) :
    ((nextVariablePass closed).run s).1 = .done closed ∨
      ∃ more ≤ leadingLoops s.blocks, ((nextVariablePass closed).run s).1 = .again more := by
  have hblocks : (shiftNext.run s).2.blocks = s.blocks :=
    ((inferInstance : Composed false shiftNext).sameContext s).blocks
  unfold nextVariablePass
  rw [run_bind]
  cases ((atNext (.lexeme .comma)).run s).1 with
  | false => exact .inl rfl
  | true =>
    have hopen (t : State) : (openLoops.run t).1 = leadingLoops t.blocks := rfl
    rw [if_pos rfl, run_bind, run_bind, run_bind, hopen]
    dsimp only
    split
    next hmatched =>
      have hne : closed ≠ leadingLoops (shiftNext.run s).2.blocks := bne_iff_ne.mp hmatched
      rw [hblocks] at hne
      exact .inr ⟨closed + 1, by omega, rfl⟩
    next => exact .inr ⟨closed, h, rfl⟩

theorem iterateUpTo_nextVariablePass_le {n closed : Nat} {s : State}
    (h : closed ≤ leadingLoops s.blocks) :
    ((iterateUpTo id nextVariablePass n closed).run s).1 ≤ leadingLoops s.blocks := by
  induction n generalizing closed s with
  | zero => exact h
  | succ n ih =>
    have hpass : Composed false (nextVariablePass closed) := inferInstance
    have hblocks := (hpass.sameContext s).blocks
    unfold iterateUpTo
    rw [run_bind]
    rcases nextVariablePass_le h with hresult | ⟨more, hmore, hresult⟩
    · rw [hresult]
      exact h
    · rw [hresult, ← hblocks]
      exact ih (by rwa [hblocks])

instance : BoundsLoops 0 nextClause := by
  have hclosed : BoundsLoops 0 (do
      let closed ← iterate id nextVariablePass 0
      setPendingNext closed
      finishStatement) := by
    refine ⟨fun s => ?_⟩
    have hle : ((iterate id nextVariablePass 0).run s).1 ≤ leadingLoops s.blocks :=
      iterateUpTo_nextVariablePass_le (Nat.zero_le _)
    rw [run_bind, run_bind, (inferInstance : Composed true finishStatement).pendingNext_eq rfl]
    exact Nat.le_trans hle (Nat.le_max_right ..)
  unfold nextClause
  dsimp only
  infer_instance

/-! ## Lists of statements -/

section

variable {statement : Production Unit} [Composed false statement]
  [BoundsLoops 0 statement]

/-- A list of statements in a loop ends when this loop is to be closed, and closes it. -/
instance : BoundsLoops 1 (statementPass statement) where
  pendingNext_le s := by
    have hstatement : BoundsLoops 0 statement := inferInstance
    have hle := hstatement.pendingNext_le s
    have hblocks := ((inferInstance : Composed false statement).sameContext s).blocks
    unfold statementPass
    rw [run_bind, run_bind, run_get]
    generalize (statement.run s).2 = t at hle hblocks
    dsimp only
    split
    · change t.pendingNext - 1 ≤ _
      omega
    next hstay =>
      change t.pendingNext ≤ _
      rw [hblocks] at hstay
      by_cases hpending : 0 < t.pendingNext
      · have hloops : leadingLoops s.blocks = 0 :=
          leadingLoops_eq_zero fun hfor => hstay (by simp [hpending, hfor])
        omega
      · omega

instance (closer? : Option Closer) : BoundsLoops 1 (closerOrStatementPass statement closer?) := by
  cases closer? <;> unfold closerOrStatementPass closerPass <;> infer_instance

instance : BoundsLoops 1 (listPass statement) := by unfold listPass; infer_instance

instance (u : Unit) : BoundsLoops 1 (statementsPass statement u) := by
  unfold statementsPass
  infer_instance

instance : BoundsLoops 1 (statements statement) := by unfold statements; infer_instance

instance (block : Block) : BoundsLoops 0 (blockBody statement block) := by
  unfold blockBody
  infer_instance

instance (endsAtElse : Bool) (u : Unit) : BoundsLoops 0 (inlinePass statement endsAtElse u) := by
  unfold inlinePass
  infer_instance

instance (endsAtElse : Bool) : BoundsLoops 0 (inlineStatements statement endsAtElse) := by
  unfold inlineStatements
  infer_instance

/-! ## Statements with bodies -/

instance (endsAtElse : Bool) : BoundsLoops 0 (inlineArm statement endsAtElse) := by
  unfold inlineArm
  infer_instance

instance : BoundsLoops 0 (inlineArms statement) := by unfold inlineArms; infer_instance

instance : BoundsLoops 0 (singleLineIf statement) := by unfold singleLineIf; infer_instance

instance (stop : Stop) : BoundsLoops 0 (elseIfPass statement stop) := by
  unfold elseIfPass
  infer_instance

instance (stop : Stop) : BoundsLoops 0 (elseBodyPass statement stop) := by
  unfold elseBodyPass
  infer_instance

instance : BoundsLoops 0 (elseClause statement) := by unfold elseClause; infer_instance

instance : BoundsLoops 0 (blockIf statement) := by unfold blockIf; infer_instance

instance : BoundsLoops 0 (ifStatement statement) := by unfold ifStatement; infer_instance

instance : BoundsLoops 0 (forStatement statement) := by unfold forStatement; infer_instance

instance : BoundsLoops 0 (doStatement statement) := by unfold doStatement; infer_instance

instance : BoundsLoops 0 (whileStatement statement) := by unfold whileStatement; infer_instance

instance : BoundsLoops 0 (withStatement statement) := by unfold withStatement; infer_instance

instance : BoundsLoops 0 (caseClause statement) := by unfold caseClause; infer_instance

instance (stop : Stop) : BoundsLoops 0 (afterClause stop) := by unfold afterClause; infer_instance

instance (closer : Closer) : BoundsLoops 0 (selectCloserPass statement closer) := by
  unfold selectCloserPass
  infer_instance

instance (closer? : Option Closer) : BoundsLoops 0 (closerOrLinePass statement closer?) := by
  cases closer? <;> unfold closerOrLinePass <;> infer_instance

instance (u : Unit) : BoundsLoops 0 (selectPass statement u) := by unfold selectPass; infer_instance

instance : BoundsLoops 0 (selectStatement statement) := by unfold selectStatement; infer_instance

instance : BoundsLoops 0 (procedure statement) := by unfold procedure; infer_instance

instance : BoundsLoops 0 (modifiedStatement statement) := by
  unfold modifiedStatement
  have hrest (k : Kind) : BoundsLoops 0 (match k with
      | .keyword .sub | .keyword .function | .keyword .property => procedure statement
      | .keyword .const => constStatement
      | .keyword .type => typeStatement
      | .keyword .enum => enumStatement
      | .keyword .declare => declareStatement
      | .keyword .event => eventStatement
      | _ => dimStatement) := by
    split <;> infer_instance
  infer_instance

theorem BoundsLoops.of_keywordStatement? {keyword : Keyword} {p : Production Unit}
    (h : keywordStatement? statement keyword = some p) : BoundsLoops 0 p := by
  unfold keywordStatement? at h
  split at h
  all_goals first
    | obtain rfl := Option.some.inj h
      infer_instance
    | obtain ⟨k, -, rfl⟩ := Option.map_eq_some_iff.mp h
      infer_instance

theorem BoundsLoops.of_openedStatement? {s : TokenStream} {p : Production Unit}
    (h : openedStatement? statement s = some p) : BoundsLoops 0 p := by
  obtain ⟨_, -, -, h⟩ := exists_keyword_of_openedStatement? h
  exact .of_keywordStatement? h

instance : BoundsLoops 0 (statementAtCursor statement) := by
  have hopened : BoundsLoops 0
      (look (openedStatement? statement) >>= fun p? => p?.getD plainStatement) := by
    refine ⟨fun s => ?_⟩
    rw [run_look_bind]
    cases h : openedStatement? statement s.stream with
    | some p => exact (BoundsLoops.of_openedStatement? h).pendingNext_le s
    | none =>
      have hplain : BoundsLoops 0 plainStatement := inferInstance
      exact hplain.pendingNext_le s
  unfold statementAtCursor
  infer_instance

instance : BoundsLoops 0 (statementWith statement) := by unfold statementWith; infer_instance

end

instance (depth : Nat) : BoundsLoops 0 (statementUpTo depth) := by
  induction depth with
  | zero => unfold statementUpTo; infer_instance
  | succ depth ih => unfold statementUpTo; infer_instance

end LosslessBasic.Grammar
