import LosslessBasic.Proofs.Grammar.Bodies

/-!
# Blocks at another place

The statements that hold others are read the same when those are. What stands behind the body of a
block is looked at only where the closer of the block is known to come next.
-/

namespace LosslessBasic

/-- A closer is `End` with a word behind it, or a word that belongs to one block. -/
theorem Closer.cases_of_ofKinds? {first second : Kind} {closer : Closer}
    (h : Closer.ofKinds? first second = some closer) :
    (first = .keyword .end_ ∧ ∃ word, second = .keyword word) ∨
      (closer.block, first) ∈ [(Block.for_, Kind.keyword .next), (.do_, .keyword .loop),
        (.while_, .keyword .wend), (.if_, .keyword .else_), (.if_, .keyword .elseIf),
        (.select, .keyword .case)] := by
  unfold Closer.ofKinds? at h
  split at h
  case h_1 =>
    refine .inl ⟨rfl, ?_⟩
    split at h <;> first | exact ⟨_, rfl⟩ | cases h
  case h_8 => cases h
  all_goals
    obtain rfl := Option.some.inj h
    exact .inr (by decide)

namespace Grammar

set_option synthInstance.maxSize 65536

/-! ## Closers -/

namespace State

theorem OnCloser.not_endsLook {block : Block} {s : State} (h : s.OnCloser block) :
    ¬ EndsLook (s.stream.peekSignificant 0).kind := by
  obtain ⟨closer, hcloser, -⟩ := h
  rintro (hkind | hkind) <;> rw [hkind] at hcloser <;> cases hcloser

theorem OnCloser.inLine {block : Block} {s : State} (h : s.OnCloser block) : s.InLine :=
  ⟨fun hend => h.not_endsLook (.inr (kind_peekSignificant_of_atEnd hend)),
    fun hnewline => h.not_endsLook (.inl hnewline)⟩

/-- A closer that starts with `End` has two words. -/
theorem OnCloser.onPair {block : Block} {s : State} (h : s.OnCloser block)
    (hblock : ∀ first, (block, first) ∈ [(Block.for_, Kind.keyword .next), (.do_, .keyword .loop),
        (.while_, .keyword .wend), (.if_, .keyword .else_), (.if_, .keyword .elseIf),
        (.select, .keyword .case)] → (s.stream.peekSignificant 0).kind ≠ first) : s.OnPair := by
  refine ⟨h.not_endsLook, ?_⟩
  obtain ⟨closer, hcloser, rfl⟩ := h
  rcases Closer.cases_of_ofKinds? hcloser with ⟨-, word, hword⟩ | hother
  · rw [hword]
    exact not_endsLook_keyword word
  · exact absurd rfl (hblock _ hother)

end State

/-! ## The bodies of an If -/

/-- The bodies of an `If` in the block form. -/
def ifBodies (statement : Production Unit) : Production Stop := do
  let stop ← blockBody statement .if_
  let stop ← iterate id (elseIfPass statement) stop
  if stop == .ownCloser && (← atNext (.keyword .else_)) then elseClause statement
  else pure stop

/-- The block form of an `If` ends behind its bodies. -/
theorem blockIf_eq (statement : Production Unit) :
    blockIf statement = finishStatement >>= fun _ => ifBodies statement >>= blockEnd := by
  unfold blockIf ifBodies
  simp only [bind_assoc]
  refine congrArg _ (funext fun _ => congrArg _ (funext fun stop => congrArg _ (funext fun stop =>
    congrArg _ (funext fun isElse => ?_))))
  cases (stop == .ownCloser && isElse)
  · simp only [Bool.false_eq_true, if_false]
  · simp only [if_true]

section

variable {P : Placement}

instance (block : Block) {p q : Production Unit} [h : Settles P State.InLine p q] :
    Settles P (State.OnCloser block) p q :=
  ⟨h.carries.weaken (fun _ h => h.inLine) fun _ _ h => h⟩

/-- The closer of a block that has two words. -/
theorem settles_closeBlock {block : Block}
    (hblock : ∀ first, (block, first) ∉ [(Block.for_, Kind.keyword .next), (.do_, .keyword .loop),
        (.while_, .keyword .wend), (.if_, .keyword .else_), (.if_, .keyword .elseIf),
        (.select, .keyword .case)]) : Settles P (State.OnCloser block) closeBlock closeBlock := by
  have hclose : Settles P State.OnPair closeBlock closeBlock := inferInstance
  exact ⟨hclose.carries.weaken (fun s h => h.onPair fun first hfirst =>
    absurd hfirst (hblock first))
    fun _ _ h => h⟩

/-- What is done with the closer of a block where it comes next. -/
theorem carries_ownCloser {block : Block} {stop : Stop} {pre : State → Prop} {p q : Production Unit}
    (h : Carries P (fun s => s.OnCloser block ∧ pre s) p q fun _ => State.Settled) :
    Carries P (fun s => State.Behind block stop s ∧ (stop = .ownCloser → pre s))
      (if stop == .ownCloser then p else pure ())
      (if place P stop == .ownCloser then q else pure ())
      (fun _ => State.Settled) := by
  rw [place_stop_beq_ownCloser]
  refine .ite (fun hstop => ?_) fun _ => ?_
  · have hown := beq_iff_eq.mp hstop
    exact h.weaken (fun s hs => ⟨hs.1.2 hown, hs.2 hown⟩) fun _ _ h => h
  · exact .pure (a := ()) fun _ h => h.1.1

theorem carries_ownCloser_of_settles {block : Block} {stop : Stop} {p q : Production Unit}
    (h : Settles P (State.OnCloser block) p q) :
    Carries P (State.Behind block stop)
      (if stop == .ownCloser then p else pure ())
      (if place P stop == .ownCloser then q else pure ())
      (fun _ => State.Settled) := by
  have hown : Carries P (fun s => s.OnCloser block ∧ True) p q fun _ => State.Settled :=
    h.carries.weaken (fun _ h => h.1) fun _ _ h => h
  exact (carries_ownCloser hown).weaken (fun _ h => ⟨h, fun _ => trivial⟩) fun _ _ h => h

/-- The body of a `With` sees the header of the `With`. -/
theorem Carries.inWith {α : Type} [Placeable α] {target : Option Tree} {pre : State → Prop}
    {p q : Production α} {post : α → State → Prop} (h : Carries P pre p q post)
    (hpre : ∀ s targets, pre s → pre { s with withTargets := targets })
    (hpost : ∀ a s targets, post a s → post a { s with withTargets := targets }) :
    Carries P pre (inWith target p) (inWith (place P target) q) post where
  carries s hs hs' := by
    obtain ⟨hagrees, hafter⟩ := h.carries { s with withTargets := target :: s.withTargets }
      ⟨hs.sound, hs.endsInBreak⟩ fun hopen => ⟨hpre s _ (hs' hopen).1, (hs' hopen).2.of_inWith⟩
    refine ⟨?_, fun hopen => hpost _ _ _ (hafter hopen)⟩
    unfold Placement.Agrees at hagrees ⊢
    rw [run_inWith]
    refine (congrArg (fun r : α × State => (r.1, { r.2 with withTargets := r.2.withTargets.tail }))
      hagrees).trans ?_
    simp [run_inWith, List.map_tail]

end

/-! ## Loops and With -/

section

variable {P : Placement} {statement : Production Unit} [Composed false statement]
  [Settles P State.OnWord statement statement] [Advances statement]

instance : Settles P State.InLine nextClause nextClause := by
  unfold nextClause
  dsimp only
  infer_instance

/-- A body and what is done with the closer behind it. -/
instance {block : Block} {p q : Production Unit} [Composed false p]
    [h : Settles P (State.OnCloser block) p q] : Settles P State.Settled
      (blockBody statement block >>= fun stop => if stop == .ownCloser then p else pure ())
      (blockBody statement block >>= fun stop => if stop == .ownCloser then q else pure ()) :=
  ⟨(carries_blockBody block).bind fun _ => carries_ownCloser_of_settles h⟩

instance : Settles P State.OnWord (doStatement statement) (doStatement statement) := by
  unfold doStatement
  infer_instance

instance : Settles P State.OnWord (whileStatement statement) (whileStatement statement) := by
  unfold whileStatement
  infer_instance

instance : Settles P State.OnWord (withStatement statement) (withStatement statement) := by
  have hclose : Settles P (State.OnCloser .with_) closeBlock closeBlock :=
    settles_closeBlock (by simp)
  have hbody (target : Option Tree) : Settles P State.Settled
      (inWith target (blockBody statement .with_) >>= fun stop =>
        if stop == .ownCloser then closeBlock else pure ())
      (inWith (place P target) (blockBody statement .with_) >>= fun stop =>
        if stop == .ownCloser then closeBlock else pure ()) := by
    have hinside : Carries P State.Settled (inWith target (blockBody statement .with_))
        (inWith (place P target) (blockBody statement .with_)) (State.Behind .with_) :=
      .inWith (carries_blockBody .with_) (fun _ _ h => h) fun _ _ _ h => h
    exact ⟨hinside.bind fun _ => carries_ownCloser_of_settles hclose⟩
  unfold withStatement blockEnd
  infer_instance

instance : Settles P State.OnWord (forStatement statement) (forStatement statement) := by
  have hloop (isEach : Bool) : Settles P State.OnWord
      (do
        shift
        if isEach then forEachHeader else forHeader
        finishStatement
        let stop ← blockBody statement .for_
        if stop == .ownCloser then nextClause)
      (do
        shift
        if isEach then forEachHeader else forHeader
        finishStatement
        let stop ← blockBody statement .for_
        if stop == .ownCloser then nextClause) := by
    infer_instance
  have hnode (kind : Kind) : Settles P State.OnWord
      (within (if kind == .keyword .each then .forEachStatement else .forStatement) do
        shift
        if kind == .keyword .each then forEachHeader else forHeader
        finishStatement
        let stop ← blockBody statement .for_
        if stop == .ownCloser then nextClause)
      (within (if kind == .keyword .each then .forEachStatement else .forStatement) do
        shift
        if kind == .keyword .each then forEachHeader else forHeader
        finishStatement
        let stop ← blockBody statement .for_
        if stop == .ownCloser then nextClause) := ⟨(hloop (kind == .keyword .each)).carries.within⟩
  unfold forStatement
  exact ⟨carries_secondKind.bind fun kind => (hnode kind).carries.weaken (fun _ h => h.2)
    fun _ _ h => h⟩

/-! ## Procedures -/

omit [Composed false statement] [Settles P State.OnWord statement statement] [Advances statement] in
/-- A procedure has one of three forms. -/
theorem procedureForm_mem (kind : Kind) :
    procedureForm kind ∈ [(NodeKind.subStatement, Block.sub), (.functionStatement, .function),
      (.propertyStatement, .property)] := by
  unfold procedureForm
  split <;> simp

instance : Settles P State.OnDeclarator (procedure statement) (procedure statement) := by
  have hclose (form : NodeKind × Block) (hform : form ∈ [(NodeKind.subStatement, Block.sub),
      (.functionStatement, .function), (.propertyStatement, .property)]) :
      Settles P (State.OnCloser form.2) closeBlock closeBlock := by
    refine settles_closeBlock fun first => ?_
    simp only [List.mem_cons, List.not_mem_nil, or_false] at hform
    obtain rfl | rfl | rfl := hform <;> simp
  have hnode (form : NodeKind × Block) (hform : form ∈ [(NodeKind.subStatement, Block.sub),
      (.functionStatement, .function), (.propertyStatement, .property)]) :
      Settles P State.OnDeclarator
        (within form.1 do
          shiftDeclarator
          note .procedure (← next)
          let named ← if form.2 == .property then accessor else pure true
          if named then signature
          finishStatement
          let stop ← blockBody statement form.2
          blockEnd stop)
        (within form.1 do
          shiftDeclarator
          note .procedure (← next)
          let named ← if form.2 == .property then accessor else pure true
          if named then signature
          finishStatement
          let stop ← blockBody statement form.2
          blockEnd stop) := by
    have hclose := hclose form hform
    unfold blockEnd
    exact ⟨.within (carries_shiftDeclarator.bind fun _ => Settles.carries)⟩
  have hkind : Carries P State.OnDeclarator (look fun s => Lookahead.modifiedKind s.rest)
      (look fun s => Lookahead.modifiedKind s.rest)
      (fun k s => k = Lookahead.modifiedKind s.stream.rest ∧ s.OnDeclarator) :=
    .of_look fun _ h => h.inside
  unfold procedure
  exact ⟨hkind.bind fun k => (hnode _ (procedureForm_mem k)).carries.weaken (fun _ h => h.2)
    fun _ _ h => h⟩

end

end Grammar

end LosslessBasic
