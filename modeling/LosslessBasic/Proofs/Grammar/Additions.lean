import LosslessBasic.Proofs.Grammar.Ordinary

/-!
# What is added directly

`AddsOnly L P p` says of a production that obeys a law what the trees are that it adds to the row:
`P` holds of each of them. Of what stands below them it says nothing. Ends of statements add tokens,
and a node of unknown meaning for what is left over (`holds_finishStatement`); an expression adds
the blanks in front of it and its node (`finds_expression`).
-/

namespace LosslessBasic

/-- Whether a tree is a token between the words of a line. -/
def Tree.isBlank : Tree → Bool
  | .leaf t => t.kind.isInlineTrivia
  | .node .. => false

theorem Tree.isToken_of_isBlank {n : Tree} (h : n.isBlank = true) : n.isToken = true := by
  cases n with
  | leaf t => rfl
  | node k a cs => cases h

namespace Grammar

variable {L : Law}

/-- A production that obeys a law and adds only trees of which `P` holds. -/
class AddsOnly (L : Law) (P : Tree → Prop) {α : Type} (p : Production α) : Prop where
  holds (s : State) : s.InnermostInRow → ∃ trees, L.Holds s trees (p.run s).2 ∧ ∀ n ∈ trees, P n

section

variable {P Q : Tree → Prop} {α β : Type} {p q : Production α}

/-- What moves no token, opens nothing and reports nothing adds nothing. -/
theorem AddsOnly.of_silent
    (h : ∀ s, (p.run s).2.stream = s.stream ∧ (p.run s).2.failures = s.failures ∧
    (p.run s).2.lineMode = s.lineMode ∧ (p.run s).2.pendingNext = s.pendingNext ∧
    (p.run s).2.blocks = s.blocks ∧ (p.run s).2.withTargets = s.withTargets ∧
    (p.run s).2.implicitTargets = s.implicitTargets ∧ (p.run s).2.builder = s.builder) :
    AddsOnly L P p where
  holds s _ := by
    obtain ⟨hstream, hfailures, hline, hpending, hblocks, hwith, htargets, hbuilder⟩ := h s
    exact ⟨[], ⟨.of_silent hbuilder hstream hblocks hwith hline,
      L.silent hstream hfailures hline hpending hblocks hwith htargets⟩, by simp⟩

instance (a : α) : AddsOnly L P (pure a) :=
  .of_silent fun _ => ⟨rfl, rfl, rfl, rfl, rfl, rfl, rfl, rfl⟩

instance : AddsOnly L P (get : Production State) :=
  .of_silent fun _ => ⟨rfl, rfl, rfl, rfl, rfl, rfl, rfl, rfl⟩

instance (f : TokenStream → α) : AddsOnly L P (look f) :=
  .of_silent fun _ => ⟨rfl, rfl, rfl, rfl, rfl, rfl, rfl, rfl⟩

instance (activity : Activity) (t : Token) : AddsOnly L P (note activity t) :=
  .of_silent fun _ => ⟨rfl, rfl, rfl, rfl, rfl, rfl, rfl, rfl⟩

instance (recovering : Bool) : AddsOnly L P (setRecovering recovering) :=
  .of_silent fun _ => ⟨rfl, rfl, rfl, rfl, rfl, rfl, rfl, rfl⟩

instance (separator : Separator) : AddsOnly L P (setSeparator separator) :=
  .of_silent fun _ => ⟨rfl, rfl, rfl, rfl, rfl, rfl, rfl, rfl⟩

instance (problem : Problem) (t : Token) [h : IsTrue problem.isOrdinary] :
    AddsOnly L P (fail problem t) where
  holds s _ := ⟨[], holds_fail h.eq_true t s, by simp⟩

instance {f : α → Production β} [hp : AddsOnly L P p] [hf : ∀ a, AddsOnly L P (f a)] :
    AddsOnly L P (p >>= f) where
  holds s hs := by
    obtain ⟨trees, h, htrees⟩ := hp.holds s hs
    obtain ⟨more, h', hmore⟩ := (hf _).holds _ (h.1.innermostInRow hs)
    refine ⟨trees ++ more, h.trans h', fun n hn => ?_⟩
    exact (List.mem_append.mp hn).elim (htrees n) (hmore n)

instance {c : Prop} [Decidable c] [AddsOnly L P p] [AddsOnly L P q] :
    AddsOnly L P (if c then p else q) := by
  split <;> infer_instance

instance : AddsOnly L P next := by unfold next; infer_instance

instance : AddsOnly L P currentKind := by unfold currentKind; infer_instance

instance (k : Kind) : AddsOnly L P (atCurrent k) := by unfold atCurrent; infer_instance

/-- What is added while a test holds. -/
theorem AddsOnly.repeatWhile {test : Production Bool} {body : Production Unit}
    (htest : ∀ s, (test.run s).2 = s)
    (hbody : ∀ s, s.InnermostInRow → (test.run s).1 = true →
      ∃ trees, L.Holds s trees (body.run s).2 ∧ ∀ n ∈ trees, P n) :
    AddsOnly L P (repeatWhile test body) := by
  have hloop (k : Nat) : AddsOnly L P (repeatWhileUpTo test body k) := by
    induction k with
    | zero => unfold repeatWhileUpTo; infer_instance
    | succ k ih =>
      refine ⟨fun s hs => ?_⟩
      unfold repeatWhileUpTo
      rw [run_bind, htest]
      cases hresult : (test.run s).1 with
      | false => exact ⟨[], .refl s, by simp⟩
      | true =>
        obtain ⟨trees, h, htrees⟩ := hbody s hs hresult
        obtain ⟨more, h', hmore⟩ := ih.holds _ (h.1.innermostInRow hs)
        refine ⟨trees ++ more, h.trans h', fun n hn => ?_⟩
        exact (List.mem_append.mp hn).elim (htrees n) (hmore n)
  unfold Grammar.repeatWhile
  infer_instance

theorem AddsOnly.mono (h : AddsOnly L P p) (hPQ : ∀ n, P n → Q n) : AddsOnly L Q p where
  holds s hs := by
    obtain ⟨trees, h', htrees⟩ := h.holds s hs
    exact ⟨trees, h', fun n hn => hPQ n (htrees n hn)⟩

end

/-! ## Tokens -/

instance : AddsOnly L (·.isToken = true) shift where
  holds s _ := by
    by_cases hend : s.AtEnd
    · rw [run_shift_of_atEnd hend]
      exact ⟨[], .refl s, by simp⟩
    · rw [run_shift hend]
      exact ⟨_, ⟨.shifted hend, L.shift hend⟩, by simp [Tree.isToken]⟩

instance : AddsOnly L (·.isBlank = true) skipBlanks := by
  unfold skipBlanks
  refine .repeatWhile (fun _ => rfl) fun s _ hblank => ?_
  have hend : ¬ s.AtEnd := Guards.not_atEnd hblank
  rw [run_look] at hblank
  rw [run_shift hend]
  exact ⟨_, ⟨.shifted hend, L.shift hend⟩, by simpa [Tree.isBlank] using hblank⟩

instance : AddsOnly L (·.isToken = true) skipBlanks :=
  .mono (P := (·.isBlank = true)) inferInstance fun _ => Tree.isToken_of_isBlank

instance : AddsOnly L (·.isToken = true) shiftLineBreak := by unfold shiftLineBreak; infer_instance

instance : AddsOnly L (·.isToken = true) shiftNext := by unfold shiftNext; infer_instance

/-! ## The ends of statements -/

/-- What is left over of a statement is moved from the token at the cursor on. -/
theorem holds_shiftRest {s : State} (hs : s.InnermostInRow)
    (hsolid : s.stream.current.kind.isInlineTrivia = false)
    (hwithin : (withinStatement.run s).1 = true) :
    ∃ trees, L.Holds s (.leaf s.stream.current :: trees) (shiftRest.run s).2 := by
  have hend : ¬ s.AtEnd := Guards.not_atEnd hwithin
  have hrest : Obeys L shiftRest := inferInstance
  have hnext : shiftNext.run s = ((), s.shifted) := by
    unfold shiftNext
    rw [run_bind, run_skipBlanks_of_significant hsolid]
    exact run_shift hend
  obtain ⟨more, h⟩ := hrest.holds s.shifted ((State.Adds.shifted hend).innermostInRow hs)
  have hrun : shiftRest.run s = shiftRest.run s.shifted := by
    unfold shiftRest
    rw [run_repeatWhile_of_true hwithin, hnext]
  rw [hrun]
  exact ⟨more, Law.Holds.trans ⟨.shifted hend, L.shift hend⟩ h⟩

/-- Whether a tree is a token, or a node of unknown meaning that starts with the token `t`. -/
def Tree.IsEnding (t : Token) (n : Tree) : Prop :=
  n.isToken = true ∨ ∃ a trees, n = .node (.node .unknown) a (.leaf t :: trees)

/-- Away from blanks, what is left over of a statement is moved under a node of unknown meaning. -/
theorem holds_recover {s : State} (hs : s.InnermostInRow)
    (hsolid : s.stream.current.kind.isInlineTrivia = false)
    (hwithin : (withinStatement.run s).1 = true) :
    ∃ a trees, L.Holds s [.node (.node .unknown) a (.leaf s.stream.current :: trees)]
      (recover.run s).2 := by
  obtain ⟨noted, hnoted⟩ :
      ∃ noted, noted = ((note .recovery (s.stream.peekSignificant 0)).run s).2 :=
    ⟨_, rfl⟩
  have hnote : L.Holds s [] noted := by
    rw [hnoted]
    exact ⟨.of_silent rfl rfl rfl rfl rfl, L.silent rfl rfl rfl rfl rfl rfl rfl⟩
  have hstream : noted.stream = s.stream := by rw [hnoted]; rfl
  have hrun : (recover.run s).2 = ((within .unknown shiftRest).run noted).2 := by
    have htest : (withinStatement.run s).2 = s := rfl
    unfold recover next
    rw [run_bind, if_pos hwithin, htest, run_look_bind, run_bind, ← hnoted, run_bind,
      run_skipBlanks_of_significant (by rwa [hstream])]
  have hnoted' : noted.InnermostInRow := hnote.1.innermostInRow hs
  have hwithin' : (withinStatement.run (noted.opening .unknown)).1 = true := by
    rw [hnoted]
    exact hwithin
  obtain ⟨trees, h⟩ := holds_shiftRest (L := L) (State.innermostInRow_opening noted .unknown)
    (by change noted.stream.current.kind.isInlineTrivia = false; rwa [hstream]) hwithin'
  have hclosed := h.closing_opening hnoted' fun a => L.node .unknown a rfl
  rw [hrun, run_within, ← hstream]
  exact ⟨_, trees, hnote.trans hclosed⟩

/-- What ends a statement behind which nothing is left over. -/
def statementEnd : Production Unit := do
  skipBlanks
  setSeparator .none
  if (← get).lineMode == 0 then shiftLineBreak

instance : AddsOnly L (·.isToken = true) statementEnd := by unfold statementEnd; infer_instance

theorem run_finishStatement_of_ended {s : State} (h : (withinStatement.run s).1 = false) :
    finishStatement.run s = statementEnd.run s := by
  have htest : (withinStatement.run s).2 = s := rfl
  unfold finishStatement
  dsimp only
  rw [run_bind, htest, h]
  rfl

/-- What is left over of a statement is reported before it is moved. -/
theorem run_finishStatement_of_within {s : State} (hs : s.InnermostInRow)
    (h : (withinStatement.run s).1 = true) :
    ∃ reported, L.Holds s [] reported ∧ (withinStatement.run reported).1 = true ∧
      reported.stream.current = s.stream.current ∧
      finishStatement.run s = statementEnd.run (recover.run reported).2 := by
  have hreport : AddsOnly L (fun _ => False) (do
      let t ← next
      if t.kind.isLexicalError then setRecovering true
      fail (.leftover t) t) := by
    dsimp only
    infer_instance
  have htest : (withinStatement.run s).2 = s := rfl
  obtain ⟨none, hnothing, hnone⟩ := hreport.holds s hs
  obtain rfl : none = [] := List.eq_nil_iff_forall_not_mem.mpr hnone
  generalize hreported : (StateT.run (do
    let t ← next
    if t.kind.isLexicalError then setRecovering true
    fail (.leftover t) t : Production Unit) s).2 = reported at hnothing
  -- reporting moves no token, so the same ones are left over behind it
  have hstream : reported.stream.rest = s.stream.rest := by
    simpa [Tree.leavesAll] using hnothing.1.rest.symm
  refine ⟨reported, hnothing, ?_, TokenStream.current_eq_of_rest_eq hstream, ?_⟩
  · rw [← h]
    change (!endsStatement (reported.stream.peekSignificant 0).kind reported.lineMode) =
      !endsStatement (s.stream.peekSignificant 0).kind s.lineMode
    rw [TokenStream.peekSignificant_eq_of_rest_eq hstream, hnothing.1.context.lineMode]
  · rw [← hreported]
    unfold finishStatement next
    dsimp only
    rw [run_bind, if_pos h, htest, run_look_bind, run_look_bind]
    split <;> rfl

/-- Away from blanks, the end of a statement adds tokens and a node for what is left over. -/
theorem holds_finishStatement {s : State} (hs : s.InnermostInRow)
    (hsolid : s.stream.current.kind.isInlineTrivia = false) :
    ∃ trees, L.Holds s trees (finishStatement.run s).2 ∧
      ∀ n ∈ trees, Tree.IsEnding s.stream.current n := by
  have hend : AddsOnly L (·.isToken = true) statementEnd := inferInstance
  cases hwithin : (withinStatement.run s).1 with
  | false =>
    obtain ⟨trees, h, htrees⟩ := hend.holds s hs
    rw [run_finishStatement_of_ended hwithin]
    exact ⟨trees, h, fun n hn => .inl (htrees n hn)⟩
  | true =>
    obtain ⟨reported, h, hwithin', hcurrent, hrun⟩ :=
      run_finishStatement_of_within (L := L) hs hwithin
    obtain ⟨a, trees, hrecover⟩ := holds_recover (L := L) (h.1.innermostInRow hs)
      (by rwa [hcurrent]) hwithin'
    obtain ⟨more, htokens, hmore⟩ := hend.holds _ ((h.trans hrecover).1.innermostInRow hs)
    rw [hrun]
    refine ⟨_, (h.trans hrecover).trans htokens, fun n hn => ?_⟩
    rw [List.nil_append, List.singleton_append] at hn
    rcases List.mem_cons.mp hn with rfl | hn
    · exact .inr ⟨a, trees, by rw [hcurrent]⟩
    · exact .inl (hmore n hn)

/-! ## Expressions -/

/-- An expression adds the blanks in front of it and then its node. It finds none only where the
token behind the blanks was not reported when it was read. -/
theorem finds_expression [Refers L] {s : State} (hs : s.InnermostInRow) :
    ∃ blanks s', L.Holds s blanks s' ∧ (∀ n ∈ blanks, n.isBlank = true) ∧
      s'.stream.current.kind.isInlineTrivia = false ∧ L.Finds s' (expression.run s) := by
  have hskip : AddsOnly L (·.isBlank = true) skipBlanks := inferInstance
  have hsolid := isInlineTrivia_skipBlanks s
  obtain ⟨blanks, h, hblanks⟩ := hskip.holds s hs
  have hgives : Gives L (binaryWith (binaryUpTo s.stream.remaining) 0) := inferInstance
  have hrun : (binaryWith (binaryUpTo s.stream.remaining) 0).run (skipBlanks.run s).2 =
      expression.run s := by
    unfold expression expressionAbove binaryWith
    rw [run_skipBlanks_bind, run_look_bind, binaryUpTo, binaryWith]
  have hfinds := hgives.holds _ (h.1.innermostInRow hs) hsolid
  rw [hrun] at hfinds
  exact ⟨blanks, _, h, hblanks, hsolid, hfinds⟩

end Grammar

end LosslessBasic
