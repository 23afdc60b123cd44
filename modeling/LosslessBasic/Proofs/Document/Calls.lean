import LosslessBasic.Proofs.Document.Append
import LosslessBasic.Proofs.Grammar.Forest
import LosslessBasic.Proofs.Grammar.Plan

/-!
# What calls restore, find and move

What is true of every call in the course of a reading. The moves let a plan use no more than what it
is known to find, so a call leaves its context behind as it finds it, and a node that is opened at a
checkpoint is opened at just that place.

Nothing is asked for that is not there. The innermost block is told of only where a block is open,
and what is taken off the open blocks and the headers of `With` has been put there before. The token
that is moved is one of those of the source; each of them is moved once, in its turn, but for the
end marker.

## Main definitions

* `State.Offers` and `State.Restores`: what a call takes for granted, and what it leaves as it was;
* `Call.LeavesContext`: what is the same behind a call as in front of it;
* `Plan.Finds`: whether a call finds what it reads and takes off by itself;
* `Plan.advances`: the indices of the tokens that are moved in the course of a call.

## Main results

* `Plan.calls_leave_context`: every call in the course of another restores its context;
* `Document.every_call_finds`: what the calls of a reading find, and which tokens they move.
-/

namespace LosslessBasic

namespace Grammar

/-! ## What a call takes for granted -/

/-- A row that starts with the given trees, or with a node above a row that does. -/
inductive Wraps (trees : List Tree) : List Tree → Prop
  | row (more : List Tree) : Wraps trees (trees ++ more)
  | node (kind : Kind) (anchor : Anchor) {inner : List Tree} (more : List Tree)
    (h : Wraps trees inner) :
      Wraps trees (.above kind anchor inner :: more)

namespace Wraps

variable {trees inner outer : List Tree}

/-- A row starts with itself. -/
theorem refl (trees : List Tree) : Wraps trees trees := by
  have h : Wraps trees (trees ++ []) := .row []
  rwa [List.append_nil] at h

/-- More trees may stand behind a row. -/
theorem append (h : Wraps trees inner) (more : List Tree) : Wraps trees (inner ++ more) := by
  cases h with
  | row before =>
    rw [List.append_assoc]
    exact .row _
  | node kind anchor before h => exact .node kind anchor _ h

/-- What a row within another starts with stands in the outer one, too. -/
theorem trans (h : Wraps trees inner) (h' : Wraps inner outer) : Wraps trees outer := by
  induction h' with
  | row more => exact h.append more
  | node kind anchor more _ ih => exact .node kind anchor more ih

end Wraps

namespace State

variable {s t u : State} {K : Knowledge} {mark : Option Checkpoint}

/-- Whether a checkpoint lies in the row, and within the innermost open node. -/
def InReach (s : State) (cp : Checkpoint) : Prop :=
  s.builder.innermostFirst ≤ cp.index ∧ cp.index ≤ s.builder.pending.size

/-- A node that is opened at a checkpoint in reach is opened where the checkpoint says. -/
theorem InReach.clamp_eq {cp : Checkpoint} (h : s.InReach cp) : s.builder.clamp cp = cp.index := by
  rw [Builder.clamp, Nat.min_eq_left h.2, Nat.max_eq_right h.1]

/-- What a call takes for granted of the state it is made in. -/
structure Offers (s : State) (K : Knowledge) (mark : Option Checkpoint) : Prop where
  /-- What it knows of its surroundings is so. -/
  known : K s.surroundings
  /-- The innermost open node starts within the row. -/
  row : s.InnermostInRow
  /-- The checkpoint it is given is in reach. -/
  reach : ∀ cp, mark = some cp → s.InReach cp

/-- The number of pending trees that a call may not touch: those in front of its checkpoint, and the
whole row when it is given none. -/
def kept (s : State) : Option Checkpoint → Nat
  | none => s.builder.pending.size
  | some cp => cp.index

/-- What a call leaves as it was. -/
structure Restores (s : State) (mark : Option Checkpoint) (t : State) : Prop where
  /-- The open nodes, blocks, `With` headers and single-line `If` statements. -/
  context : s.SameContext t
  /-- The pending trees that it may not touch. -/
  row : t.builder.pending.toList.take (s.kept mark) = s.builder.pending.toList.take (s.kept mark)
  /-- The others are still there, at most with nodes around them. -/
  wraps : Wraps (s.builder.pending.toList.drop (s.kept mark))
    (t.builder.pending.toList.drop (s.kept mark))

/-- A state in which nothing of the context has changed is restored. -/
theorem Restores.of_eq (hbuilder : t.builder = s.builder) (hblocks : t.blocks = s.blocks)
    (hwith : t.withTargets = s.withTargets) (hline : t.lineMode = s.lineMode) : s.Restores mark t :=
  ⟨⟨by rw [hbuilder], hblocks, hwith, hline⟩, by rw [hbuilder], by rw [hbuilder]; exact .refl _⟩

/-- Where no checkpoint is given none has to be in reach. -/
theorem Offers.of_row (hknown : K s.surroundings) (hrow : s.InnermostInRow) : s.Offers K none :=
  ⟨hknown, hrow, fun _ h => nomatch h⟩

/-- What a call may not touch lies in the row. -/
theorem Offers.kept_le (h : s.Offers K mark) : s.kept mark ≤ s.builder.pending.size := by
  cases mark with
  | none => exact Nat.le_refl _
  | some cp => exact (h.reach cp rfl).2

/-- What a call may touch lies within the innermost open node. -/
theorem Offers.innermostFirst_le_kept (h : s.Offers K mark) :
    s.builder.innermostFirst ≤ s.kept mark := by
  cases mark with
  | none => exact h.row
  | some cp => exact (h.reach cp rfl).1

/-- In the same context the innermost open node starts at the same place. -/
theorem SameContext.innermostFirst_eq (h : s.SameContext t) :
    t.builder.innermostFirst = s.builder.innermostFirst := by
  unfold Builder.innermostFirst
  rw [h.opened]

/-- In the same context the surroundings are the same. -/
theorem SameContext.surroundings_eq (h : s.SameContext t) : t.surroundings = s.surroundings := by
  rw [surroundings, surroundings, h.blocks, h.lineMode]

/-- What may not be touched is still there. -/
theorem Restores.kept_le (h : s.Restores mark t) (hs : s.kept mark ≤ s.builder.pending.size) :
    s.kept mark ≤ t.builder.pending.size := by
  have hlength := congrArg List.length h.row
  rw [List.length_take, List.length_take, Array.length_toList, Array.length_toList,
    Nat.min_eq_left hs] at hlength
  omega

/-- Behind one call the next may take the same for granted. -/
theorem Offers.of_restores (hs : s.Offers K mark) (h : s.Restores mark t) : t.Offers K mark where
  known := h.context.surroundings_eq ▸ hs.known
  row := by
    unfold InnermostInRow
    rw [h.context.innermostFirst_eq]
    exact Nat.le_trans hs.innermostFirst_le_kept (h.kept_le hs.kept_le)
  reach := by
    rintro cp rfl
    refine ⟨?_, h.kept_le hs.kept_le⟩
    rw [h.context.innermostFirst_eq]
    exact hs.innermostFirst_le_kept

/-- A call that is given no checkpoint adds trees to the row. -/
theorem Restores.exists_pending (h : s.Restores none t) :
    ∃ added, t.builder.pending.toList = s.builder.pending.toList ++ added := by
  have hall : s.builder.pending.toList.take s.builder.pending.size = s.builder.pending.toList :=
    List.take_of_length_le (Nat.le_of_eq Array.length_toList)
  have hrow := h.row
  rw [kept, hall] at hrow
  exact ⟨t.builder.pending.toList.drop s.builder.pending.size,
    by rw [← hrow, List.take_append_drop]⟩

/-- A call that only adds trees behind the row restores its context. -/
theorem Restores.of_added {added : List Tree} (hs : s.Offers K mark) (hcontext : s.SameContext t)
    (hpending : t.builder.pending.toList = s.builder.pending.toList ++ added) :
    s.Restores mark t := by
  have hkept : s.kept mark ≤ s.builder.pending.toList.length :=
    Array.length_toList.symm ▸ hs.kept_le
  refine ⟨hcontext, ?_, ?_⟩
  · rw [hpending, List.take_append_of_le_length hkept]
  · rw [hpending, List.drop_append_of_le_length hkept]
    exact .row added

/-- Two calls in a row restore what the first is offered. -/
theorem Restores.trans (hs : s.Offers K mark) (h : s.Restores mark t) (h' : t.Restores mark u) :
    s.Restores mark u := by
  cases mark with
  | none =>
    obtain ⟨added, hadded⟩ := h.exists_pending
    obtain ⟨more, hmore⟩ := h'.exists_pending
    rw [hadded, List.append_assoc] at hmore
    exact .of_added hs (h.context.trans h'.context) hmore
  | some cp => exact ⟨h.context.trans h'.context, h'.row.trans h.row, h.wraps.trans h'.wraps⟩

/-- A call that does without the checkpoint may touch even less. -/
theorem Restores.marked {cp : Checkpoint} (hs : s.Offers K (some cp)) (h : s.Restores none t) :
    s.Restores (some cp) t := by
  obtain ⟨added, hadded⟩ := h.exists_pending
  exact .of_added hs h.context hadded

/-- A node that is opened behind the trees that may not be touched, and closed again, is around all
the others. -/
theorem Restores.closing {n : OpenNode} (hs : s.Offers K mark)
    (hopened : t.builder.opened = n :: s.builder.opened)
    (hpending : t.builder.pending = s.builder.pending) (hblocks : t.blocks = s.blocks)
    (hwith : t.withTargets = s.withTargets) (hline : t.lineMode = s.lineMode)
    (hfirst : n.first = s.kept mark)
    (h : t.Restores none u) : s.Restores mark u.closing := by
  obtain ⟨added, hadded⟩ := h.exists_pending
  have hkept : s.kept mark ≤ s.builder.pending.toList.length :=
    Array.length_toList.symm ▸ hs.kept_le
  have hclosing : u.closing.builder.pending.toList = s.builder.pending.toList.take (s.kept mark) ++
      [.above n.kind u.builder.anchor (s.builder.pending.toList.drop (s.kept mark) ++ added)] := by
    rw [State.closing, Builder.pending_finishNode (h.context.opened.trans hopened), hadded,
      hpending, hfirst, List.take_append_of_le_length hkept, List.drop_append_of_le_length hkept]
  have hlength : (s.builder.pending.toList.take (s.kept mark)).length = s.kept mark :=
    List.length_take_of_le hkept
  refine ⟨.closing hopened hblocks hwith hline h.context, ?_, ?_⟩
  · rw [hclosing, List.take_left' hlength]
  · rw [hclosing, List.drop_left' hlength]
    exact .node _ _ [] (.row added)

/-- What is offered under a checkpoint is offered without it. -/
theorem Offers.unmarked (hs : s.Offers K mark) : s.Offers K none := .of_row hs.known hs.row

/-- A checkpoint that is taken is in reach. -/
theorem Offers.checkpoint (hs : s.Offers K mark) : s.Offers K (some s.builder.checkpoint) :=
  ⟨hs.known, hs.row, fun _ h => Option.some.inj h ▸ ⟨hs.row, Nat.le_refl _⟩⟩

/-- Within a new node a call may take for granted what it could outside. -/
theorem Offers.opening (hs : s.Offers K mark) (k : NodeKind) : (s.opening k).Offers K none :=
  .of_row hs.known (innermostInRow_opening s k)

/-- Within a node that is opened at its checkpoint a call is offered no checkpoint any more. -/
theorem Offers.openingAt {cp : Checkpoint} (hs : s.Offers K (some cp)) (k : NodeKind) :
    (s.openingAt cp k).Offers K none := by
  refine .of_row hs.known ?_
  change s.builder.clamp cp ≤ s.builder.pending.size
  rw [(hs.reach cp rfl).clamp_eq]
  exact hs.kept_le

end State

namespace Plan

variable {K : Knowledge} {mark : Option Checkpoint} {α : Type} {p : Production α} {s : State}

/-- A call leaves its surroundings as it finds them, and the row in front of the place it may
change. -/
theorem restores (π : Plan K mark p) (hs : s.Offers K mark) : s.Restores mark (p.run s).2 := by
  induction π generalizing s with
  | unmarked _ ih => exact .marked hs (ih hs.unmarked)
  | bind _ _ ihp ihf =>
    have hfirst := ihp hs
    exact .trans hs hfirst (ihf _ (hs.of_restores hfirst))
  | choice _ _ ihp ihq =>
    split
    next hc => exact ihp hc hs
    next hc => exact ihq hc hs
  | read _ ih => exact ih s ⟨⟨hs.known, rfl⟩, hs.row, hs.reach⟩
  | checkpoint _ ih =>
    -- the checkpoint stands at the end of the row, so nothing more may be touched than without it
    have h := ih s.builder.checkpoint hs.checkpoint
    exact ⟨h.context, h.row, h.wraps⟩
  | pure | get | note | setRecovering | setSeparator | setPendingNext | addTarget | report =>
    exact .of_eq rfl rfl rfl rfl
  | shift =>
    by_cases hend : s.AtEnd
    · rw [run_shift_of_atEnd hend]
      exact .of_eq rfl rfl rfl rfl
    · rw [run_shift hend]
      have hshifted := State.Adds.shifted hend
      exact .of_added hs hshifted.context hshifted.pending
  | @within _ _ k _ _ ih =>
    exact .closing (t := s.opening k) hs rfl rfl rfl rfl rfl rfl (ih (hs.opening k))
  | @composite _ k _ _ ih =>
    exact .closing (t := s.opening k) hs rfl rfl rfl rfl rfl rfl (ih (hs.opening k))
  | @compositeFrom _ cp k _ _ ih =>
    exact .closing (t := s.openingAt cp k) hs rfl rfl rfl rfl rfl (hs.reach cp rfl).clamp_eq
      (ih (hs.openingAt k))
  | @inBlock _ _ block _ _ ih =>
    have h :=
      ih (s := { s with blocks := block :: s.blocks }) ⟨List.cons_ne_nil _ _, hs.row, hs.reach⟩
    exact ⟨⟨h.context.opened, congrArg List.tail h.context.blocks, h.context.withTargets,
      h.context.lineMode⟩,
      h.row, h.wraps⟩
  | @inWith _ _ target _ _ ih =>
    have h :=
      ih (s := { s with withTargets := target :: s.withTargets }) ⟨hs.known, hs.row, hs.reach⟩
    exact ⟨⟨h.context.opened, h.context.blocks, congrArg List.tail h.context.withTargets,
      h.context.lineMode⟩,
      h.row, h.wraps⟩
  | onOneLine _ ih =>
    have h := ih (s := { s with lineMode := s.lineMode + 1 }) ⟨trivial, hs.row, hs.reach⟩
    exact ⟨⟨h.context.opened, h.context.blocks, h.context.withTargets,
      congrArg (· - 1) h.context.lineMode⟩,
      h.row, h.wraps⟩
  | innermost t =>
    unfold reportMissingCloser
    rw [run_bind, run_get]
    split <;> exact .of_eq rfl rfl rfl rfl
  | pass _ _ ih => exact ih hs

/-- The calls that a call makes directly find what they take for granted when the call does. -/
theorem offers_of_mem_parts (π : Plan K mark p) (hs : s.Offers K mark) :
    ∀ c ∈ π.parts s, c.state.Offers c.knowledge c.mark := by
  -- a part starts where the whole does, or where the part in front of it has put things back
  cases π with
  | unmarked =>
    simp only [parts, List.forall_mem_singleton]
    exact hs.unmarked
  | bind first =>
    simp only [parts, List.forall_mem_cons]
    exact ⟨hs, hs.of_restores (first.restores hs), List.forall_mem_nil _⟩
  | choice =>
    simp only [parts]
    split <;> simp only [List.forall_mem_singleton] <;> exact hs
  | read =>
    simp only [parts, List.forall_mem_singleton]
    exact ⟨⟨hs.known, rfl⟩, hs.row, hs.reach⟩
  | checkpoint =>
    simp only [parts, List.forall_mem_singleton]
    exact hs.checkpoint
  | within | composite =>
    simp only [parts, List.forall_mem_singleton]
    exact hs.opening _
  | compositeFrom =>
    simp only [parts, List.forall_mem_singleton]
    exact hs.openingAt _
  | inBlock =>
    simp only [parts, List.forall_mem_singleton]
    exact ⟨List.cons_ne_nil _ _, hs.row, hs.reach⟩
  | inWith =>
    simp only [parts, List.forall_mem_singleton]
    exact ⟨hs.known, hs.row, hs.reach⟩
  | onOneLine =>
    simp only [parts, List.forall_mem_singleton]
    exact ⟨trivial, hs.row, hs.reach⟩
  | pass =>
    simp only [parts, List.forall_mem_singleton]
    exact hs
  | _ =>
    simp only [parts]
    exact List.forall_mem_nil _

/-- Every call in the course of a call finds what it takes for granted when the call does. -/
theorem offers_of_mem_calls (π : Plan K mark p) (hs : s.Offers K mark) :
    ∀ c ∈ π.calls s, c.state.Offers c.knowledge c.mark :=
  π.forall_mem_calls (fun c => c.plan.offers_of_mem_parts) hs

end Plan

variable {K : Knowledge} {mark : Option Checkpoint} {α : Type} {p : Production α} {s t u : State}

/-! ## Contexts -/

/-- The checkpoint at which a production opens a node by itself, when it opens one at a
checkpoint. -/
def Plan.opensAt? (π : Plan K mark p) : Option Checkpoint :=
  match π with
  | @compositeFrom _ cp _ _ _ => some cp
  | _ => none

/-- A node is opened at no other checkpoint than the one that is given. -/
theorem Plan.mark_of_opensAt? {π : Plan K mark p} {cp : Checkpoint} (h : π.opensAt? = some cp) :
    mark = some cp := by
  cases π with
  | compositeFrom => exact h
  | _ => cases h

namespace Call

/-- The state that a call leaves behind. -/
def after (c : Call) : State := (c.production.run c.state).2

/-- A call that leaves its context behind as it finds it. -/
structure LeavesContext (c : Call) : Prop where
  /-- As many nodes are open as before. -/
  depth : c.after.builder.depth = c.state.builder.depth
  /-- They are the same nodes. -/
  opened : c.after.builder.opened = c.state.builder.opened
  blocks : c.after.blocks = c.state.blocks
  withTargets : c.after.withTargets = c.state.withTargets
  lineMode : c.after.lineMode = c.state.lineMode
  /-- The trees in the row are where they were, but for those behind a checkpoint that the caller
  has given. -/
  row : c.after.builder.pending.toList.take (c.state.kept c.mark) =
    c.state.builder.pending.toList.take (c.state.kept c.mark)
  /-- These are where they were, too, or below nodes that have been put around all of them. -/
  wraps : Wraps (c.state.builder.pending.toList.drop (c.state.kept c.mark))
    (c.after.builder.pending.toList.drop (c.state.kept c.mark))
  /-- A node that is opened at a checkpoint is opened within the innermost open node and within the
  row. -/
  inReach : ∀ cp, c.plan.opensAt? = some cp → c.state.InReach cp
  /-- So it is opened where the checkpoint says. -/
  clamp_eq : ∀ cp, c.plan.opensAt? = some cp → c.state.builder.clamp cp = cp.index

/-- A call that is offered what it takes for granted leaves its context as it was. -/
theorem leavesContext_of_offers {c : Call} (h : c.state.Offers c.knowledge c.mark) :
    c.LeavesContext := by
  have hrestores : c.state.Restores c.mark c.after := c.plan.restores h
  have hreach {cp : Checkpoint} (hcp : c.plan.opensAt? = some cp) :=
    h.reach cp (Plan.mark_of_opensAt? hcp)
  exact {
    depth := congrArg List.length hrestores.context.opened
    opened := hrestores.context.opened
    blocks := hrestores.context.blocks
    withTargets := hrestores.context.withTargets
    lineMode := hrestores.context.lineMode
    row := hrestores.row
    wraps := hrestores.wraps
    inReach := fun _ hcp => hreach hcp
    clamp_eq := fun _ hcp => (hreach hcp).clamp_eq }

end Call

/-- Whatever production is called, in whatever state, and whatever stands in the source: the call
leaves its context as it finds it, and so does every call in its course. All productions of the
grammar have plans, and most of them do not ask for more than a row in which the innermost open node
starts. -/
theorem Plan.calls_leave_context (π : Plan K mark p) (hs : s.Offers K mark) :
    ∀ c ∈ π.calls s, c.LeavesContext := by
  intro c hc
  exact Call.leavesContext_of_offers (π.offers_of_mem_calls hs c hc)

/-- In an assignment a node is put around a sum where its first operand stands, behind the tokens of
the target. -/
theorem exists_call_of_sum :
    ∃ c ∈ Plan.ofSource.calls { stream := .ofTokens (Lexer.tokens (Bytes.ofString "a = 1 + 2") 0) },
      c.plan.opensAt? = some ⟨4⟩ ∧ c.LeavesContext := by
  have hsum :
      (Plan.ofSource.calls
        { stream := .ofTokens (Lexer.tokens (Bytes.ofString "a = 1 + 2") 0) }).any
      (fun c => c.plan.opensAt? = some ⟨4⟩) = true := by decide +kernel
  obtain ⟨c, hc, hopens⟩ := List.any_eq_true.mp hsum
  exact ⟨c, hc, of_decide_eq_true hopens,
    Plan.ofSource.calls_leave_context (s := { stream := _ }) (.of_row rfl (Nat.le_refl _)) c hc⟩

/-! ## Blocks and headers -/

section

variable {statement : Production Unit}

/-- Where no block is open, no closer ends a list of statements. -/
theorem fst_closerPass_of_blocks (hblocks : s.blocks = []) (closer : Closer) :
    ((closerPass closer).run s).1 = .again () := by
  have hopen : (blockIsOpen closer.block).run s = (s.blocks.contains closer.block, s) := rfl
  unfold closerPass
  rw [run_bind, run_get, if_neg (by simp [hblocks]), run_bind, hopen, if_neg (by simp [hblocks])]
  rfl

/-- Nor does the header of a procedure. -/
theorem fst_closerOrStatementPass_of_blocks (hblocks : s.blocks = []) {closer? : Option Closer}
    {stop : Stop}
    (h : ((closerOrStatementPass statement closer?).run s).1 = .done stop) :
    stop = .closedByNext := by
  cases closer? with
  | some closer =>
    have hpass := fst_closerPass_of_blocks hblocks closer
    exact nomatch hpass.symm.trans h
  | none =>
    have hinside : insideProcedure.run s = (s.blocks.any (·.isProcedure), s) := rfl
    unfold closerOrStatementPass at h
    rw [run_bind, hinside, run_bind, if_neg (by simp [hblocks])] at h
    unfold statementPass at h
    rw [run_bind, run_bind, run_get] at h
    split at h
    next => exact (Pass.done.inj h).symm
    next => exact nomatch h

/-- Where neither a block is open nor a line of a single-line `If`, a list of statements ends with
the source, or behind a `Next`. -/
theorem stop_of_blocks_eq_nil (hblocks : s.blocks = []) (hline : s.lineMode = 0) {stop : Stop}
    (h : ((statementsPass statement ()).run s).1 = .done stop) :
    stop = .endOfInput ∨ stop = .closedByNext := by
  unfold statementsPass current at h
  rw [run_look_bind] at h
  split at h
  next => exact .inl (Pass.done.inj h).symm
  next =>
    rw [run_bind, run_get, if_neg (by simp [hline])] at h
    unfold listPass at h
    rw [run_bind, run_currentKind] at h
    split at h
    next => exact nomatch h
    next =>
      split at h
      next => exact nomatch h
      next => exact .inr (fst_closerOrStatementPass_of_blocks hblocks h)

end

/-- Whether what a call reads and takes off by itself is there: the token at the cursor, the
innermost block and the header of the innermost `With`. At the end of the source it is asked first
whether there is a block. -/
def Plan.Finds (π : Plan K mark p) (s : State) : Prop :=
  match π with
  | shift => s.stream.tokens[s.stream.position]? = some s.stream.current
  | @inBlock _ _ block body _ => (body.run { s with blocks := block :: s.blocks }).2.blocks ≠ []
  | @inWith _ _ target body _ =>
    (body.run { s with withTargets := target :: s.withTargets }).2.withTargets ≠ []
  | innermost t _ => t.kind ≠ .lexeme .endOfFile → s.blocks ≠ []
  | @pass _ statement _ _ =>
    (0 < s.lineMode → s.blocks ≠ []) ∧
      ∀ stop ∈ [Stop.endOfLine, .enclosingCloser, .procedureHeader],
        ((statementsPass statement ()).run s).1 = .done stop → s.blocks ≠ []
  | _ => True

/-- Whether a call tells of the innermost block by itself. -/
def Plan.tellsInnermost (π : Plan K mark p) : Bool :=
  match π with
  | innermost .. => true
  | _ => false

/-- A call that is offered what it takes for granted finds what it reads and takes off. -/
theorem Plan.finds_of_offers (π : Plan K mark p) (h : s.Offers K mark) : π.Finds s := by
  cases π with
  | shift => exact s.stream.getElem?_position
  | @inBlock _ _ block body inner =>
    have hbody := inner.restores (s := { s with blocks := block :: s.blocks })
      (.of_row (List.cons_ne_nil _ _) h.row)
    exact ne_of_eq_of_ne hbody.context.blocks (List.cons_ne_nil _ _)
  | @inWith _ _ target body inner =>
    have hbody := inner.restores (s := { s with withTargets := target :: s.withTargets })
      (.of_row h.known h.row)
    exact ne_of_eq_of_ne hbody.context.withTargets (List.cons_ne_nil _ _)
  | innermost t known => exact fun hkind => known hkind _ h.known
  | pass known =>
    refine ⟨known _ h.known, fun stop hstop hdone hblocks => ?_⟩
    -- without a block there is no single-line `If` around the list, and none of these stops is left
    have hline : s.lineMode = 0 := Nat.eq_zero_of_not_pos fun hpos => known _ h.known hpos hblocks
    obtain rfl | rfl := stop_of_blocks_eq_nil hblocks hline hdone <;> simp at hstop
  | _ => exact trivial

/-- Every call in the course of another finds what it reads and takes off. -/
theorem Plan.finds_of_mem_calls (π : Plan K mark p) (hs : s.Offers K mark) :
    ∀ c ∈ π.calls s, c.plan.Finds c.state := by
  intro c hc
  exact c.plan.finds_of_offers (π.offers_of_mem_calls hs c hc)

/-! ## Tokens -/

/-- Between two states the tokens of the given indices have been moved: those from the cursor on. -/
structure State.Passes (s : State) (indices : List Nat) (t : State) : Prop where
  tokens : t.stream.tokens = s.stream.tokens
  position : t.stream.position = s.stream.position + indices.length
  indices : indices = List.range' s.stream.position indices.length

/-- Where the stream stays as it is no token is passed. -/
theorem State.Passes.of_stream (h : t.stream = s.stream) : s.Passes [] t :=
  ⟨by rw [h], by rw [h]; rfl, rfl⟩

/-- The tokens that two calls pass one after the other are passed by both together. -/
theorem State.Passes.trans {indices more : List Nat} (h : s.Passes indices t)
    (h' : t.Passes more u) :
    s.Passes (indices ++ more) u where
  tokens := h'.tokens.trans h.tokens
  position := by rw [h'.position, h.position, List.length_append, Nat.add_assoc]
  indices := by
    rw [List.length_append, ← List.range'_append_1, ← h.position, ← h.indices, ← h'.indices]

/-- The index of the token that a call moves by itself. -/
def Plan.advancesAt? (π : Plan K mark p) (s : State) : Option Nat :=
  match π with
  | shift => if s.stream.isAtEnd then none else some s.stream.position
  | _ => none

/-- The indices of the tokens that are moved in the course of a call. -/
def Plan.advances (π : Plan K mark p) (s : State) : List Nat :=
  (π.calls s).filterMap fun c => c.plan.advancesAt? c.state

/-- To shift passes the token at the cursor, unless it is the end marker. -/
theorem State.passes_shift (s : State) :
    s.Passes ((Plan.shift (K := K)).advances s) (shift.run s).2 := by
  simp only [Plan.advances, Plan.calls, List.filterMap_cons, Plan.advancesAt?, List.filterMap_nil]
  by_cases hend : s.AtEnd
  · have hatEnd : s.stream.isAtEnd = true := by simpa [TokenStream.isAtEnd, AtEnd] using hend
    rw [run_shift_of_atEnd hend, if_pos hatEnd]
    exact .of_stream rfl
  · have hatEnd : ¬ s.stream.isAtEnd = true := by simpa [TokenStream.isAtEnd, AtEnd] using hend
    rw [run_shift hend, if_neg hatEnd]
    exact ⟨s.stream.tokens_advance,
      TokenStream.position_advance_of_ahead (TokenStream.ahead_ne_nil hend), rfl⟩

/-- The tokens that are moved in the course of a call stand one after the other, from the cursor
on. -/
theorem Plan.passes (π : Plan K mark p) (s : State) : s.Passes (π.advances s) (p.run s).2 := by
  induction π generalizing s with
  | shift => exact s.passes_shift
  | bind first andThen ihp ihf =>
    simp only [advances, calls, List.filterMap_cons, advancesAt?, List.filterMap_append]
    exact (ihp s).trans (ihf _ _)
  | choice _ _ ihp ihq =>
    simp only [advances, calls, List.filterMap_cons, advancesAt?]
    split
    next hc => exact ihp hc s
    next hc => exact ihq hc s
  | unmarked _ ih | pass _ _ ih =>
    simp only [advances, calls, List.filterMap_cons, advancesAt?]
    exact ih s
  | read _ ih | checkpoint _ ih =>
    simp only [advances, calls, List.filterMap_cons, advancesAt?]
    exact ih _ s
  -- what is put around a call leaves the stream alone
  | within _ ih | composite _ ih | compositeFrom _ ih | inBlock _ ih | inWith _ ih
  | onOneLine _ ih =>
    simp only [advances, calls, List.filterMap_cons, advancesAt?]
    exact ⟨(ih _).tokens, (ih _).position, (ih _).indices⟩
  | innermost t =>
    unfold reportMissingCloser
    rw [run_bind, run_get]
    split <;> exact .of_stream rfl
  | _ => exact .of_stream rfl

/-- No call changes the tokens of the stream. -/
theorem Plan.tokens_of_mem_parts (π : Plan K mark p) (s : State) :
    ∀ c ∈ π.parts s, c.state.stream.tokens = s.stream.tokens := by
  cases π with
  | bind first =>
    simp only [parts, List.forall_mem_cons]
    exact ⟨trivial, (first.passes s).tokens, List.forall_mem_nil _⟩
  | choice =>
    simp only [parts]
    split <;> simp only [List.forall_mem_singleton]
  | _ =>
    simp only [parts, List.forall_mem_singleton, List.not_mem_nil, false_implies, implies_true,
      State.opening, State.openingAt]

/-- Every call in the course of another reads the same tokens. -/
theorem Plan.tokens_of_mem_calls (π : Plan K mark p) (s : State) :
    ∀ c ∈ π.calls s, c.state.stream.tokens = s.stream.tokens :=
  π.forall_mem_calls (P := fun c => c.state.stream.tokens = s.stream.tokens)
    (fun c hc c' hc' => (c.plan.tokens_of_mem_parts c.state c' hc').trans hc) rfl

end Grammar

/-! ## The reading of a source -/

namespace Document

open Grammar

/-- The state in which the reading of a source starts. -/
def startState (source : Bytes) (file : UInt32) : State :=
  { stream := .ofTokens (Lexer.tokens source file) }

/-- A reading starts with the tokens of the source. -/
theorem tokens_startState (source : Bytes) (file : UInt32) :
    (startState source file).stream.tokens = Lexer.tokens source file := by
  rw [TokenStream.tokens, startState, passed_ofTokens, rest_ofTokens_tokens, List.reverse_nil,
    List.nil_append]

/-- Outside of all blocks and lines a source may be read. -/
theorem offers_startState (source : Bytes) (file : UInt32) :
    (startState source file).Offers .offLine none :=
  .of_row rfl (Nat.zero_le _)

/-- A source is read up to its last token. -/
theorem position_after_startState (source : Bytes) (file : UInt32) :
    (Grammar.source.run (startState source file)).2.stream.position + 1 =
      (Lexer.tokens source file).length := by
  have hpasses := Plan.ofSource.passes (startState source file)
  have hend := atEnd_final (.ofTokens (Lexer.tokens source file))
  have hbody : Composed false Grammar.source := inferInstance
  have hsound := (hbody.follows (startState source file)).sound (sound_ofTokens source file)
  have hremaining :=
    State.AtEnd.remaining_eq_zero (s := (Grammar.source.run (startState source file)).2) hend hsound
  rw [TokenStream.remaining_eq] at hremaining
  rw [← tokens_startState, ← hpasses.tokens, ← TokenStream.size_eq_length,
    TokenStream.size, hremaining, TokenStream.position]

/-- The tokens that are moved are those of the source, in their order and up to the end marker. -/
theorem advances_startState (source : Bytes) (file : UInt32) :
    Plan.ofSource.advances (startState source file) =
      List.range ((Lexer.tokens source file).length - 1) := by
  have hpasses := Plan.ofSource.passes (startState source file)
  have hlast := position_after_startState source file
  have hstart : (startState source file).stream.position = 0 :=
    congrArg List.length (passed_ofTokens (Lexer.tokens source file))
  have hcount : (Plan.ofSource.advances (startState source file)).length =
      (Lexer.tokens source file).length - 1 := by
    have hposition := hpasses.position
    omega
  rw [hpasses.indices, hcount, hstart, List.range_eq_range']

/-- Whatever the source, every call in the course of its reading finds what it reads and takes off,
and the tokens that are moved are those of the source, one after the other up to the end marker. -/
theorem every_call_finds (source : Bytes) (file : UInt32) :
    (∀ c ∈ Plan.ofSource.calls (startState source file),
      c.plan.Finds c.state ∧ c.state.stream.tokens = Lexer.tokens source file) ∧
      Plan.ofSource.advances (startState source file) =
        List.range ((Lexer.tokens source file).length - 1) := by
  refine ⟨fun c hc => ⟨?_, ?_⟩, advances_startState source file⟩
  · exact Plan.ofSource.finds_of_mem_calls (offers_startState source file) c hc
  · have htokens := Plan.ofSource.tokens_of_mem_calls (startState source file) c hc
    exact htokens.trans (tokens_startState source file)

/-- A loop that starts on the line of an `If` is open where the line ends; where the source ends no
block is. -/
example :
    let calls := Plan.ofSource.calls (startState (Bytes.ofString "If a Then For\n") 0)
    (calls.filter (·.plan.tellsInnermost)).map (fun c => (c.state.blocks, c.state.lineMode)) =
      [([.for_], 1), ([], 0)] := by
  decide +kernel

end Document

end LosslessBasic
