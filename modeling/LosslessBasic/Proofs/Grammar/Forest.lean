import LosslessBasic.Proofs.Grammar.Line
import LosslessBasic.Proofs.Grammar.Reading

/-!
# What a production adds to the row

A production that closes what it opens adds trees to the row of pending ones: their tokens are the
ones it has moved (`State.Adds`). A `Law` relates the states before and after it and the trees it
has added, and is kept by the moves and by sequencing; `Obeys L p` says that `p` obeys it.

Where a production puts a node around trees that are there already, those have been added since a
checkpoint that the production is given. `ObeysFrom` speaks of what has happened since then.
-/

namespace LosslessBasic

/-- The kinds of nodes that are neither around a block or a list of statements nor around a member
that is accessed. -/
@[reducible]
def NodeKind.isOrdinary : NodeKind → Bool
  | .ifStatement | .selectCaseStatement | .forStatement | .forEachStatement | .doStatement
  | .whileStatement | .withStatement | .subStatement | .functionStatement | .propertyStatement
  | .typeStatement | .enumStatement | .propertiesBlock | .statementList
  | .memberAccessExpression | .dictionaryAccessExpression => false
  | _ => true

/-- The problems that concern neither the end of a block nor the header of a `With`. -/
@[reducible]
def Problem.isOrdinary : Problem → Bool
  | .missingCloser .. | .memberOutsideWith _ => false
  | _ => true

namespace Grammar

/-- Between two states some trees have been added to the row, with tokens from the front of the
stream; what is open is the same. -/
structure State.Adds (s : State) (trees : List Tree) (t : State) : Prop where
  context : s.SameContext t
  pending : t.builder.pending.toList = s.builder.pending.toList ++ trees
  rest : s.stream.rest = Tree.leavesAll trees ++ t.stream.rest

namespace State

variable {s t u : State} {trees more : List Tree}

/-- Where neither builder, stream nor context change no tree is added. -/
theorem Adds.of_silent (hbuilder : t.builder = s.builder) (hstream : t.stream = s.stream)
    (hblocks : t.blocks = s.blocks) (hwith : t.withTargets = s.withTargets)
    (hline : t.lineMode = s.lineMode) : s.Adds [] t :=
  ⟨⟨by rw [hbuilder], hblocks, hwith, hline⟩, by simp [hbuilder], by simp [hstream, Tree.leavesAll]⟩

/-- Nothing is added to a state by nothing. -/
theorem Adds.refl (s : State) : s.Adds [] s := .of_silent rfl rfl rfl rfl rfl

/-- Trees are added one row behind the other. -/
theorem Adds.trans (h : s.Adds trees t) (h' : t.Adds more u) : s.Adds (trees ++ more) u :=
  ⟨h.context.trans h'.context, by rw [h'.pending, h.pending, List.append_assoc],
    by rw [h.rest, h'.rest, Tree.leavesAll_append, List.append_assoc]⟩

/-- The trees that have been added are told by the rows. -/
theorem Adds.unique {trees' : List Tree} (h : s.Adds trees t) (h' : s.Adds trees' t) :
    trees = trees' :=
  List.append_cancel_left (h.pending.symm.trans h'.pending)

/-- A token that is moved is added as a leaf. -/
theorem Adds.shifted (h : ¬ s.AtEnd) : s.Adds [.leaf s.stream.current] s.shifted :=
  ⟨⟨rfl, rfl, rfl, rfl⟩, by simp [State.shifted, Builder.token],
    TokenStream.rest_advance (TokenStream.ahead_ne_nil h)⟩

/-- Where trees are added the innermost open node still starts in the row. -/
theorem Adds.innermostInRow (h : s.Adds trees t) (hs : s.InnermostInRow) : t.InnermostInRow := by
  have hsize := congrArg List.length h.pending
  have hopened := h.context.opened
  rw [List.length_append, Array.length_toList, Array.length_toList] at hsize
  unfold InnermostInRow Builder.innermostFirst at hs ⊢
  rw [hopened]
  exact Nat.le_trans hs (by omega)

/-- The index that a checkpoint of an earlier state stands for. -/
theorem Adds.clamp_checkpoint (h : s.Adds trees t) (hs : s.InnermostInRow) :
    t.builder.clamp s.builder.checkpoint = s.builder.pending.size := by
  have hsize := congrArg List.length h.pending
  have hopened := h.context.opened
  rw [List.length_append, Array.length_toList, Array.length_toList] at hsize
  have hfirst : t.builder.innermostFirst ≤ s.builder.pending.size := by
    unfold InnermostInRow Builder.innermostFirst at hs
    unfold Builder.innermostFirst
    rwa [hopened]
  simp only [Builder.clamp, Builder.checkpoint]
  omega

/-- A node that is opened where trees were added starts in the row. -/
theorem Adds.innermostInRow_openingAt (h : s.Adds trees t) (hs : s.InnermostInRow) (k : NodeKind) :
    (t.openingAt s.builder.checkpoint k).InnermostInRow := by
  have hsize := congrArg List.length h.pending
  rw [List.length_append, Array.length_toList, Array.length_toList] at hsize
  change t.builder.clamp _ ≤ t.builder.pending.size
  rw [h.clamp_checkpoint hs]
  omega

/-- A node that was opened where `trees` had been added adopts these and all that is added
within. -/
theorem Adds.closing_openingAt {k : NodeKind} (h : s.Adds trees t) (hs : s.InnermostInRow)
    (hbody : (t.openingAt s.builder.checkpoint k).Adds more u) :
    s.Adds [.above (.node k) u.builder.anchor (trees ++ more)] u.closing ∧
      u.builder.finishNode.1 = some (.above (.node k) u.builder.anchor (trees ++ more)) := by
  have hopened : u.builder.opened =
      { kind := .node k, first := s.builder.pending.size } :: t.builder.opened := by
    rw [hbody.context.opened, ← h.clamp_checkpoint hs]
    rfl
  have hpending : u.builder.pending.toList =
      s.builder.pending.toList ++ (trees ++ more) := by
    rw [hbody.pending, ← List.append_assoc, ← h.pending]
    rfl
  have hfirst : s.builder.pending.toList.length = s.builder.pending.size := Array.length_toList
  have hdrop : u.builder.pending.toList.drop s.builder.pending.size = trees ++ more := by
    rw [hpending, ← hfirst, List.drop_left]
  have htake : u.builder.pending.toList.take s.builder.pending.size =
      s.builder.pending.toList := by
    rw [hpending, ← hfirst, List.take_left]
  refine ⟨⟨?_, ?_, ?_⟩, ?_⟩
  · exact h.context.trans (.closing (t := t.openingAt s.builder.checkpoint k)
      rfl rfl rfl rfl hbody.context)
  · simp only [closing, Builder.pending_finishNode hopened, htake, hdrop]
  · have hrest : (t.openingAt s.builder.checkpoint k).stream.rest = t.stream.rest := rfl
    rw [h.rest, ← hrest, hbody.rest]
    simp [Tree.leavesAll, closing]
  · rw [Builder.finishNode_fst hopened, hdrop]

/-- A node around what is added within it. -/
theorem Adds.closing_opening {k : NodeKind} (hs : s.InnermostInRow)
    (hbody : (s.opening k).Adds trees u) :
    s.Adds [.above (.node k) u.builder.anchor trees] u.closing ∧
      u.builder.finishNode.1 = some (.above (.node k) u.builder.anchor trees) := by
  have hopening : s.openingAt s.builder.checkpoint k = s.opening k := by
    have hclamp := (Adds.refl s).clamp_checkpoint hs
    simp only [openingAt, opening, Builder.startNodeAt, Builder.startNode, hclamp]
  rw [← hopening] at hbody
  exact (Adds.refl s).closing_openingAt hs hbody

/-! ### Contexts -/

/-- What is added within a block is added. -/
theorem Adds.inBlock {block : Block}
    (h : State.Adds { s with blocks := block :: s.blocks } trees t) :
    s.Adds trees { t with blocks := t.blocks.tail } :=
  ⟨⟨h.context.opened, congrArg List.tail h.context.blocks, h.context.withTargets,
    h.context.lineMode⟩, h.pending, h.rest⟩

/-- What is added within a `With` is added. -/
theorem Adds.inWith {target : Option Tree}
    (h : State.Adds { s with withTargets := target :: s.withTargets } trees t) :
    s.Adds trees { t with withTargets := t.withTargets.tail } :=
  ⟨⟨h.context.opened, h.context.blocks, congrArg List.tail h.context.withTargets,
    h.context.lineMode⟩, h.pending, h.rest⟩

/-- What is added on one line is added. -/
theorem Adds.onOneLine (h : State.Adds { s with lineMode := s.lineMode + 1 } trees t) :
    s.Adds trees { t with lineMode := t.lineMode - 1 } :=
  ⟨⟨h.context.opened, h.context.blocks, h.context.withTargets,
    congrArg (· - 1) h.context.lineMode⟩, h.pending, h.rest⟩

end State

/-! ## Laws -/

/-- What holds between two states and the trees that have been added between them, whatever moves
have led from the one to the other. -/
structure Law where
  /-- What the law says. -/
  rel : State → List Tree → State → Prop
  /-- It does not speak of the tree under construction. -/
  builder {s t : State} {trees : List Tree} (b b' : Builder) :
    rel s trees t → rel { s with builder := b } trees { t with builder := b' }
  /-- It does not speak of what is traced, of recovery and of separators. -/
  silent {s t : State} : t.stream = s.stream → t.failures = s.failures → t.lineMode = s.lineMode →
    t.pendingNext = s.pendingNext → t.blocks = s.blocks → t.withTargets = s.withTargets →
    t.implicitTargets = s.implicitTargets → rel s [] t
  /-- Any token may be moved. -/
  shift {s : State} : ¬ s.AtEnd → rel s [.leaf s.stream.current] s.shifted
  /-- Ordinary problems may be reported. -/
  report (s : State) (problem : Problem) (t : Token) : problem.isOrdinary = true →
    rel s [] ((report problem t).run s).2
  /-- What one step says and the next one says are said of both. -/
  trans {s t u : State} {trees more : List Tree} : s.Adds trees t → t.Adds more u →
    rel s trees t → rel t more u → rel s (trees ++ more) u
  /-- Ordinary nodes may be put around trees. -/
  node {s t : State} {trees : List Tree} (k : NodeKind) (a : Anchor) : k.isOrdinary = true →
    rel s trees t → rel s [.above (.node k) a trees] t
  /-- A member may be accessed of what is a node. -/
  access {s t : State} {n : Tree} {trees : List Tree} (sign : Kind) (a : Anchor) :
    n.isToken = false → rel s (n :: trees) t →
    rel s [.above (.node (accessKind sign)) a (n :: trees)] t

/-- A law that also says something of every tree that is added. -/
def Law.restrict (L : Law) (P : Tree → Prop) (hleaf : ∀ t, P (.leaf t))
    (hnode : ∀ k a trees, k ≠ .statementList → P (.above (.node k) a trees)) : Law where
  rel s trees t := L.rel s trees t ∧ ∀ n ∈ trees, P n
  builder b b' h := ⟨L.builder b b' h.1, h.2⟩
  silent hstream hfailures hline hpending hblocks hwith htargets :=
    ⟨L.silent hstream hfailures hline hpending hblocks hwith htargets, by simp⟩
  shift hend := ⟨L.shift hend, by simpa using hleaf _⟩
  report s problem t h := ⟨L.report s problem t h, by simp⟩
  trans hadds hadds' h h' := ⟨L.trans hadds hadds' h.1 h'.1, by
    intro n hn
    exact (List.mem_append.mp hn).elim (h.2 n) (h'.2 n)⟩
  node k a hk h := ⟨L.node k a hk h.1, by
    have hlist : k ≠ .statementList := by
      rintro rfl
      cases hk
    simpa using hnode k a _ hlist⟩
  access sign a hn h := ⟨L.access sign a hn h.1, by
    have hlist : accessKind sign ≠ .statementList := by
      unfold accessKind
      split <;> simp
    simpa using hnode _ a _ hlist⟩

variable {L : Law}

/-- Between two states some trees have been added, as the law has it. -/
def Law.Holds (L : Law) (s : State) (trees : List Tree) (t : State) : Prop :=
  s.Adds trees t ∧ L.rel s trees t

namespace Law.Holds

variable {s t u : State} {trees more : List Tree}

/-- A law that holds of two rows of trees holds of both together. -/
theorem trans (h : L.Holds s trees t) (h' : L.Holds t more u) : L.Holds s (trees ++ more) u :=
  ⟨h.1.trans h'.1, L.trans h.1 h'.1 h.2 h'.2⟩

/-- A law holds where nothing happens. -/
theorem refl (s : State) : L.Holds s [] s := ⟨.refl s, L.silent rfl rfl rfl rfl rfl rfl rfl⟩

/-- A node with what is added within it, when the law allows for it. -/
theorem closing_opening {k : NodeKind} (hs : s.InnermostInRow)
    (hnode : ∀ a, L.rel s trees u.closing → L.rel s [.above (.node k) a trees] u.closing)
    (h : L.Holds (s.opening k) trees u) :
    L.Holds s [.above (.node k) u.builder.anchor trees] u.closing :=
  ⟨(State.Adds.closing_opening hs h.1).1,
    hnode _ (L.builder (s := s.opening k) (t := u) s.builder u.builder.finishNode.2 h.2)⟩

/-- The node around what a production adds, and what the law says of what is added within. -/
theorem composite {k : NodeKind} {p : Production Unit} (hs : s.InnermostInRow)
    (h : L.Holds (s.opening k) trees (p.run (s.opening k)).2) :
    ∃ a, ((composite k p).run s).1 = some (.above (.node k) a trees) ∧
      s.Adds [.above (.node k) a trees] ((composite k p).run s).2 ∧
      L.rel s trees ((composite k p).run s).2 := by
  obtain ⟨hadds, hgiven⟩ := State.Adds.closing_opening hs h.1
  rw [run_composite]
  exact ⟨_, hgiven, hadds, L.builder (s := s.opening k) s.builder _ h.2⟩

/-- A node with what was added before and what is added within it, when the law allows for it. -/
theorem closing_openingAt {k : NodeKind} (hs : s.InnermostInRow)
    (hnode : ∀ a, L.rel s (trees ++ more) u.closing →
      L.rel s [.above (.node k) a (trees ++ more)] u.closing)
    (h : L.Holds s trees t) (hbody : L.Holds (t.openingAt s.builder.checkpoint k) more u) :
    L.Holds s [.above (.node k) u.builder.anchor (trees ++ more)] u.closing := by
  -- the trees added before stay where they are while those within are added
  let row : Builder := { t.builder with pending := t.builder.pending ++ more.toArray }
  have hbetween : t.Adds more { u with builder := row } :=
    ⟨⟨rfl, hbody.1.context.blocks, hbody.1.context.withTargets, hbody.1.context.lineMode⟩,
      by simp [row], hbody.1.rest⟩
  have hbody' : L.rel t more { u with builder := row } :=
    L.builder (s := t.openingAt s.builder.checkpoint k) (t := u) t.builder row hbody.2
  have hrel := L.builder s.builder u.builder.finishNode.2 (L.trans h.1 hbetween h.2 hbody')
  exact ⟨(h.1.closing_openingAt hs hbody.1).1, hnode _ hrel⟩

end Law.Holds

/-! ## Productions -/

/-- A production that adds trees as the law has it. -/
class Obeys (L : Law) {α : Type} (p : Production α) : Prop where
  holds (s : State) : s.InnermostInRow → ∃ trees, L.Holds s trees (p.run s).2

/-- A production that goes on as the law has it since a checkpoint. -/
class ObeysFrom (L : Law) (cp : Checkpoint) {α : Type} (p : Production α) : Prop where
  holds (s t : State) (trees : List Tree) : s.InnermostInRow → s.builder.checkpoint = cp →
    L.Holds s trees t → ∃ trees', L.Holds s trees' (p.run t).2

section

variable {α β : Type} {p q : Production α} {cp : Checkpoint}

/-- What moves no token, opens nothing and reports nothing obeys every law. -/
theorem Obeys.of_silent
    (h : ∀ s, (p.run s).2.stream = s.stream ∧ (p.run s).2.failures = s.failures ∧
    (p.run s).2.lineMode = s.lineMode ∧ (p.run s).2.pendingNext = s.pendingNext ∧
    (p.run s).2.blocks = s.blocks ∧ (p.run s).2.withTargets = s.withTargets ∧
    (p.run s).2.implicitTargets = s.implicitTargets ∧ (p.run s).2.builder = s.builder) :
    Obeys L p where
  holds s _ := by
    obtain ⟨hstream, hfailures, hline, hpending, hblocks, hwith, htargets, hbuilder⟩ := h s
    exact ⟨[], .of_silent hbuilder hstream hblocks hwith hline,
      L.silent hstream hfailures hline hpending hblocks hwith htargets⟩

instance (a : α) : Obeys L (pure a) := .of_silent fun _ => ⟨rfl, rfl, rfl, rfl, rfl, rfl, rfl, rfl⟩

instance : Obeys L (get : Production State) :=
  .of_silent fun _ => ⟨rfl, rfl, rfl, rfl, rfl, rfl, rfl, rfl⟩

instance (f : TokenStream → α) : Obeys L (look f) :=
  .of_silent fun _ => ⟨rfl, rfl, rfl, rfl, rfl, rfl, rfl, rfl⟩

instance (activity : Activity) (t : Token) : Obeys L (note activity t) :=
  .of_silent fun _ => ⟨rfl, rfl, rfl, rfl, rfl, rfl, rfl, rfl⟩

instance (recovering : Bool) : Obeys L (setRecovering recovering) :=
  .of_silent fun _ => ⟨rfl, rfl, rfl, rfl, rfl, rfl, rfl, rfl⟩

instance (separator : Separator) : Obeys L (setSeparator separator) :=
  .of_silent fun _ => ⟨rfl, rfl, rfl, rfl, rfl, rfl, rfl, rfl⟩

instance : Obeys L shift where
  holds s _ := by
    by_cases hend : s.AtEnd
    · rw [run_shift_of_atEnd hend]
      exact ⟨[], .refl s⟩
    · rw [run_shift hend]
      exact ⟨_, .shifted hend, L.shift hend⟩

instance (problem : Problem) (t : Token) [h : IsTrue problem.isOrdinary] :
    Obeys L (report problem t) where
  holds s _ := ⟨[], .of_silent rfl rfl rfl rfl rfl, L.report s problem t h.eq_true⟩

instance {f : α → Production β} [hp : Obeys L p] [hf : ∀ a, Obeys L (f a)] : Obeys L (p >>= f) where
  holds s hs := by
    obtain ⟨trees, h⟩ := hp.holds s hs
    obtain ⟨more, h'⟩ := (hf _).holds _ (h.1.innermostInRow hs)
    exact ⟨trees ++ more, h.trans h'⟩

instance {c : Prop} [Decidable c] [Obeys L p] [Obeys L q] : Obeys L (if c then p else q) := by
  split <;> infer_instance

/-- A node, when the law allows for it. -/
theorem Obeys.within {k : NodeKind} [hp : Obeys L p] (hnode : ∀ s t trees a,
    L.rel s trees t → L.rel s [.above (.node k) a trees] t) : Obeys L (within k p) where
  holds s hs := by
    obtain ⟨trees, h⟩ := hp.holds (s.opening k) (State.innermostInRow_opening s k)
    exact ⟨_, h.closing_opening hs fun a hrel => hnode _ _ _ a hrel⟩

instance {k : NodeKind} [hk : IsTrue k.isOrdinary] [Obeys L p] : Obeys L (within k p) :=
  .within fun _ _ _ a => L.node k a hk.eq_true

instance {k : NodeKind} {p : Production Unit} [hk : IsTrue k.isOrdinary] [hp : Obeys L p] :
    Obeys L (composite k p) where
  holds s hs := by
    obtain ⟨trees, h⟩ := hp.holds (s.opening k) (State.innermostInRow_opening s k)
    exact ⟨_, h.closing_opening hs fun a => L.node k a hk.eq_true⟩

instance {exhausted : α → β} {pass : α → Production (Pass α β)} [h : ∀ a, Obeys L (pass a)]
    (n : Nat) (a : α) : Obeys L (iterateUpTo exhausted pass n a) := by
  induction n generalizing a with
  | zero => unfold iterateUpTo; infer_instance
  | succ n ih =>
    have hrest (r : Pass α β) : Obeys L (match r with
        | .again a => iterateUpTo exhausted pass n a
        | .done b => pure b) := by
      cases r with
      | again a => exact ih a
      | done b => dsimp only; infer_instance
    unfold iterateUpTo
    infer_instance

instance {exhausted : α → β} {pass : α → Production (Pass α β)} [∀ a, Obeys L (pass a)] (a : α) :
    Obeys L (iterate exhausted pass a) := by
  unfold iterate
  infer_instance

instance {test : Production Bool} {body : Production Unit} [Obeys L test] [Obeys L body] (n : Nat) :
    Obeys L (repeatWhileUpTo test body n) := by
  induction n with
  | zero => unfold repeatWhileUpTo; infer_instance
  | succ n ih => unfold repeatWhileUpTo; infer_instance

instance {test : Production Bool} {body : Production Unit} [Obeys L test] [Obeys L body] :
    Obeys L (repeatWhile test body) := by
  unfold repeatWhile
  infer_instance

/-! ## From a checkpoint on -/

instance [hp : Obeys L p] : ObeysFrom L cp p where
  holds s t trees hs _ h := by
    obtain ⟨more, h'⟩ := hp.holds t (h.1.innermostInRow hs)
    exact ⟨trees ++ more, h.trans h'⟩

instance {f : α → Production β} [hp : ObeysFrom L cp p] [hf : ∀ a, ObeysFrom L cp (f a)] :
    ObeysFrom L cp (p >>= f) where
  holds s t trees hs hcp h := by
    obtain ⟨trees', h'⟩ := hp.holds s t trees hs hcp h
    exact (hf _).holds s _ trees' hs hcp h'

instance {c : Prop} [Decidable c] [ObeysFrom L cp p] [ObeysFrom L cp q] :
    ObeysFrom L cp (if c then p else q) := by
  split <;> infer_instance

/-- A node around what was added since a checkpoint, when the law allows for it. -/
theorem Law.Holds.compositeFrom {k : NodeKind} {p : Production Unit} [hp : Obeys L p] {s t : State}
    {trees : List Tree} (hs : s.InnermostInRow) (h : L.Holds s trees t)
    (hnode : ∀ more u a, L.rel s (trees ++ more) u →
      L.rel s [.above (.node k) a (trees ++ more)] u) :
    ∃ a more, ((compositeFrom s.builder.checkpoint k p).run t).1 =
        some (.above (.node k) a (trees ++ more)) ∧
      L.Holds s [.above (.node k) a (trees ++ more)]
        ((compositeFrom s.builder.checkpoint k p).run t).2 := by
  obtain ⟨more, hbody⟩ := hp.holds (t.openingAt s.builder.checkpoint k)
    (h.1.innermostInRow_openingAt hs k)
  exact ⟨_, more, (h.1.closing_openingAt hs hbody.1).2,
    h.closing_openingAt hs (fun a => hnode more _ a) hbody⟩

instance {k : NodeKind} {p : Production Unit} [hk : IsTrue k.isOrdinary] [hp : Obeys L p] :
    ObeysFrom L cp (compositeFrom cp k p) where
  holds s t trees hs hcp h := by
    subst hcp
    obtain ⟨a, more, -, h'⟩ := h.compositeFrom hs (p := p) fun _ _ a => L.node k a hk.eq_true
    exact ⟨_, h'⟩

instance {f : Checkpoint → Production β} [hf : ∀ cp, ObeysFrom L cp (f cp)] :
    Obeys L (checkpoint >>= f) where
  holds s hs := (hf _).holds s s [] hs rfl (.refl s)

end

end Grammar

end LosslessBasic
