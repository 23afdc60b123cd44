import LosslessBasic.Proofs.Grammar.Composition
import LosslessBasic.Proofs.Token.Stream
import LosslessBasic.Proofs.Tree.Builder

/-!
# What every production leaves alone

What the moves of the grammar make of a state is given by equations: the moves that only write, and
the ones that put something around a production and take it back afterwards. Two facts that every
composed production inherits from the moves:

* `Composed.follows`: it moves tokens from the front of the stream to the end of the row of pending
  trees, in their order, and takes back no failure;
* `Composed.sameContext`: it closes the nodes, blocks, `With` headers and single-line `If`
  statements that it opens, and no others.
-/

namespace LosslessBasic.Grammar

/-! ## Running the moves -/

namespace State

/-- The state with a node opened at the end of the row. -/
def opening (s : State) (k : NodeKind) : State :=
  { s with builder := s.builder.startNode (.node k) }

/-- The state with a node opened at a checkpoint. -/
def openingAt (s : State) (cp : Checkpoint) (k : NodeKind) : State :=
  { s with builder := s.builder.startNodeAt cp (.node k) }

/-- The state with the innermost node closed. -/
def closing (s : State) : State := { s with builder := s.builder.finishNode.2 }

/-- The state with the token at the cursor moved. -/
def shifted (s : State) : State :=
  { s with builder := s.builder.token s.stream.current, stream := s.stream.advance }

end State

section

variable {α β : Type} (p : Production α) (body : Production Unit) (s : State)

theorem run_pure (a : α) : (pure a : Production α).run s = (a, s) := rfl

theorem run_bind (f : α → Production β) :
    (p >>= f).run s = (f (p.run s).1).run (p.run s).2 := rfl

theorem run_look (f : TokenStream → α) : (look f).run s = (f s.stream, s) := rfl

theorem run_get : (get : Production State).run s = (s, s) := rfl

theorem run_checkpoint : checkpoint.run s = (s.builder.checkpoint, s) := rfl

theorem run_currentKind : currentKind.run s = (s.stream.current.kind, s) := rfl

theorem run_look_bind (f : TokenStream → α) (g : α → Production β) :
    (look f >>= g).run s = (g (f s.stream)).run s := rfl

theorem run_within (k : NodeKind) :
    (within k p).run s =
      ((p.run (s.opening k)).1, (p.run (s.opening k)).2.closing) := rfl

theorem run_composite (k : NodeKind) :
    (composite k body).run s =
      ((body.run (s.opening k)).2.builder.finishNode.1, (body.run (s.opening k)).2.closing) := rfl

theorem run_compositeFrom (cp : Checkpoint) (k : NodeKind) :
    (compositeFrom cp k body).run s =
      ((body.run (s.openingAt cp k)).2.builder.finishNode.1,
        (body.run (s.openingAt cp k)).2.closing) := rfl

theorem run_inBlock (block : Block) :
    (inBlock block p).run s =
      let r := p.run { s with blocks := block :: s.blocks }
      (r.1, { r.2 with blocks := r.2.blocks.tail }) := rfl

theorem run_inWith (target : Option Tree) :
    (inWith target p).run s =
      let r := p.run { s with withTargets := target :: s.withTargets }
      (r.1, { r.2 with withTargets := r.2.withTargets.tail }) := rfl

theorem run_onOneLine :
    (onOneLine p).run s =
      let r := p.run { s with lineMode := s.lineMode + 1 }
      (r.1, { r.2 with lineMode := r.2.lineMode - 1 }) := rfl

end

/-- The end marker is not moved. -/
theorem run_shift_of_atEnd {s : State} (h : s.stream.current.kind = .lexeme .endOfFile) :
    shift.run s = ((), s) := by
  have hend : s.stream.isAtEnd = true := by simp [TokenStream.isAtEnd, h]
  change ((), if s.stream.isAtEnd then s else s.shifted) = _
  rw [if_pos hend]

/-- Any other token is moved. -/
theorem run_shift {s : State} (h : s.stream.current.kind ≠ .lexeme .endOfFile) :
    shift.run s = ((), s.shifted) := by
  have hend : ¬ s.stream.isAtEnd = true := by simp [TokenStream.isAtEnd, h]
  change ((), if s.stream.isAtEnd then s else s.shifted) = _
  rw [if_neg hend]

/-- To shift reports nothing. -/
theorem failures_shift (s : State) : (shift.run s).2.failures = s.failures := by
  by_cases hend : s.stream.current.kind = .lexeme .endOfFile
  · rw [run_shift_of_atEnd hend]
  · rw [run_shift hend]
    rfl

/-! ## What is moved -/

namespace State

/-- A state that is reached from `s`: some tokens have moved to the end of the row, and failures may
have been reported. -/
structure Follows (s t : State) : Prop where
  /-- The tokens that have left the stream are the ones that the row has gained. -/
  moved : ∃ moved, s.stream.rest = moved ++ t.stream.rest ∧
    Tree.leavesAll t.builder.pending.toList = Tree.leavesAll s.builder.pending.toList ++ moved
  /-- The failures so far stay. -/
  failures : s.failures.toList <+: t.failures.toList

/-- A state that differs in neither tokens nor tree follows. -/
theorem Follows.of_eq {s t : State} (hstream : t.stream = s.stream)
    (hleaves : Tree.leavesAll t.builder.pending.toList = Tree.leavesAll s.builder.pending.toList)
    (hfailures : s.failures.toList <+: t.failures.toList) : s.Follows t :=
  ⟨⟨[], by simp [hstream], by simp [hleaves]⟩, hfailures⟩

/-- A state follows itself. -/
theorem Follows.refl (s : State) : s.Follows s := .of_eq rfl rfl (List.prefix_refl _)

/-- What follows a later state follows an earlier one. -/
theorem Follows.trans {s t u : State} (hst : s.Follows t) (htu : t.Follows u) : s.Follows u := by
  obtain ⟨m, hm, hleaves⟩ := hst.moved
  obtain ⟨m', hm', hleaves'⟩ := htu.moved
  exact ⟨⟨m ++ m', by simp [hm, hm'], by simp [hleaves, hleaves']⟩,
    hst.failures.trans htu.failures⟩

/-- No token comes back. -/
theorem Follows.remaining_le {s t : State} (h : s.Follows t) :
    t.stream.remaining ≤ s.stream.remaining := by
  obtain ⟨moved, hrest, -⟩ := h.moved
  have hlength := congrArg List.length hrest
  simp only [TokenStream.length_rest, List.length_append] at hlength
  omega

/-- The nodes, blocks, headers and lines that are open in two states are the same. -/
structure SameContext (s t : State) : Prop where
  opened : t.builder.opened = s.builder.opened
  blocks : t.blocks = s.blocks
  withTargets : t.withTargets = s.withTargets
  lineMode : t.lineMode = s.lineMode

/-- The context of a state is its own. -/
theorem SameContext.refl (s : State) : s.SameContext s := ⟨rfl, rfl, rfl, rfl⟩

/-- The context is the same over two steps that leave it. -/
theorem SameContext.trans {s t u : State} (hst : s.SameContext t) (htu : t.SameContext u) :
    s.SameContext u :=
  ⟨htu.opened.trans hst.opened, htu.blocks.trans hst.blocks,
    htu.withTargets.trans hst.withTargets, htu.lineMode.trans hst.lineMode⟩

end State

/-! ## Follows -/

/-- The state behind a token that is moved follows the one in front of it. -/
theorem State.follows_shifted {s : State} (h : s.stream.current.kind ≠ .lexeme .endOfFile) :
    s.Follows s.shifted := by
  refine ⟨⟨[s.stream.current], ?_, ?_⟩, List.prefix_refl _⟩
  · exact TokenStream.rest_advance (TokenStream.ahead_ne_nil h)
  · simp [State.shifted, Builder.token, Tree.leavesAll, Tree.leaves]

/-- A state follows the one in which its innermost node is still open. -/
theorem State.follows_closing (s : State) : s.Follows s.closing :=
  .of_eq rfl s.builder.leavesAll_finishNode (List.prefix_refl _)

/-- A state that differs in neither tokens nor row nor failures follows. -/
theorem State.Follows.of_same {s t : State} (hstream : t.stream = s.stream)
    (hpending : t.builder.pending = s.builder.pending) (hfailures : t.failures = s.failures) :
    s.Follows t :=
  .of_eq hstream (by rw [hpending]) (by simp [hfailures])

/-- Every production moves tokens in their order and takes back no failure. -/
theorem Composed.follows {simple : Bool} {α : Type} {p : Production α} (h : Composed simple p)
    (s : State) :
    s.Follows (p.run s).2 := by
  -- by induction on the composition: only `shift` moves a token, and only `report` adds a failure
  induction h generalizing s with
  | pure | get | note | setRecovering | setSeparator | setPendingNext | addTarget =>
    exact .of_same rfl rfl rfl
  | bind _ _ ihp ihf => exact (ihp s).trans (ihf _ _)
  | shift =>
    by_cases hend : s.stream.current.kind = .lexeme .endOfFile
    · rw [run_shift_of_atEnd hend]
      exact .refl s
    · rw [run_shift hend]
      exact State.follows_shifted hend
  | @within _ _ k _ _ ih =>
    rw [run_within]
    have hopening : s.Follows (s.opening k) := .of_same rfl rfl rfl
    exact hopening.trans ((ih _).trans (State.follows_closing _))
  | @composite _ k _ _ ih =>
    rw [run_composite]
    have hopening : s.Follows (s.opening k) := .of_same rfl rfl rfl
    exact hopening.trans ((ih _).trans (State.follows_closing _))
  | @compositeFrom _ cp k _ _ ih =>
    rw [run_compositeFrom]
    have hopening : s.Follows (s.openingAt cp k) := .of_same rfl rfl rfl
    exact hopening.trans ((ih _).trans (State.follows_closing _))
  | @inBlock _ block _ _ ih =>
    have hbody := ih { s with blocks := block :: s.blocks }
    rw [run_inBlock]
    exact ⟨hbody.moved, hbody.failures⟩
  | @inWith _ _ target _ _ ih =>
    have hbody := ih { s with withTargets := target :: s.withTargets }
    rw [run_inWith]
    exact ⟨hbody.moved, hbody.failures⟩
  | onOneLine _ ih =>
    have hbody := ih { s with lineMode := s.lineMode + 1 }
    rw [run_onOneLine]
    exact ⟨hbody.moved, hbody.failures⟩
  | report problem t =>
    exact .of_eq rfl rfl ⟨[Failure.atToken problem t], Array.toList_push.symm⟩

/-! ## Contexts -/

/-- The node that was opened right before a body is the one that is closed right behind it. -/
theorem State.SameContext.closing {s t u : State} {n : OpenNode}
    (hopened : t.builder.opened = n :: s.builder.opened) (hblocks : t.blocks = s.blocks)
    (hwith : t.withTargets = s.withTargets) (hline : t.lineMode = s.lineMode)
    (h : t.SameContext u) : s.SameContext u.closing :=
  ⟨Builder.opened_finishNode (h.opened.trans hopened), h.blocks.trans hblocks,
    h.withTargets.trans hwith, h.lineMode.trans hline⟩

/-- Every production closes what it opens. -/
theorem Composed.sameContext {simple : Bool} {α : Type} {p : Production α}
    (h : Composed simple p) (s : State) :
    s.SameContext (p.run s).2 := by
  -- by induction on the composition: each part that enters something leaves it again
  induction h generalizing s with
  | pure | get | note | setRecovering | setSeparator | setPendingNext | addTarget | report =>
    exact ⟨rfl, rfl, rfl, rfl⟩
  | bind _ _ ihp ihf => exact (ihp s).trans (ihf _ _)
  | shift =>
    by_cases hend : s.stream.current.kind = .lexeme .endOfFile
    · rw [run_shift_of_atEnd hend]
      exact .refl s
    · rw [run_shift hend]
      exact ⟨rfl, rfl, rfl, rfl⟩
  | @within _ _ k _ _ ih =>
    rw [run_within]
    exact .closing (t := s.opening k) rfl rfl rfl rfl (ih _)
  | @composite _ k _ _ ih =>
    rw [run_composite]
    exact .closing (t := s.opening k) rfl rfl rfl rfl (ih _)
  | @compositeFrom _ cp k _ _ ih =>
    rw [run_compositeFrom]
    exact .closing (t := s.openingAt cp k) rfl rfl rfl rfl (ih _)
  | @inBlock _ block _ _ ih =>
    have hbody := ih { s with blocks := block :: s.blocks }
    rw [run_inBlock]
    exact ⟨hbody.opened, congrArg List.tail hbody.blocks, hbody.withTargets, hbody.lineMode⟩
  | @inWith _ _ target _ _ ih =>
    have hbody := ih { s with withTargets := target :: s.withTargets }
    rw [run_inWith]
    exact ⟨hbody.opened, hbody.blocks, congrArg List.tail hbody.withTargets, hbody.lineMode⟩
  | onOneLine _ ih =>
    have hbody := ih { s with lineMode := s.lineMode + 1 }
    rw [run_onOneLine]
    exact ⟨hbody.opened, hbody.blocks, hbody.withTargets, congrArg (· - 1) hbody.lineMode⟩

/-- A simple production leaves the count of the loops that are still to be closed alone. -/
theorem Composed.pendingNext_eq {simple : Bool} {α : Type} {p : Production α}
    (h : Composed simple p) (hsimple : simple = true) (s : State) :
    (p.run s).2.pendingNext = s.pendingNext := by
  induction h generalizing s with
  | pure | get | note | setRecovering | setSeparator | addTarget | report => rfl
  | setPendingNext | inBlock => cases hsimple
  | bind _ _ ihp ihf => exact (ihf _ hsimple _).trans (ihp hsimple s)
  | shift =>
    by_cases hend : s.stream.current.kind = .lexeme .endOfFile
    · rw [run_shift_of_atEnd hend]
    · rw [run_shift hend]
      rfl
  | @within _ _ k _ _ ih => exact ih hsimple (s.opening k)
  | @composite _ k _ _ ih => exact ih hsimple (s.opening k)
  | @compositeFrom _ cp k _ _ ih => exact ih hsimple (s.openingAt cp k)
  | @inWith _ _ target _ _ ih =>
    exact ih hsimple { s with withTargets := target :: s.withTargets }
  | onOneLine _ ih => exact ih hsimple { s with lineMode := s.lineMode + 1 }

end LosslessBasic.Grammar
