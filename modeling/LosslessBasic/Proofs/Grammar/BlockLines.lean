import LosslessBasic.Proofs.Grammar.Items

/-!
# Statements with bodies and their lines

A block leads from its start to its end as other statements do: its body is a list of statements, in
front of which the header has ended, and behind which its closer comes next or nothing is asked of
the line.

An arm of a single-line `If` is a list of statements, too. It stands behind `Then` or `Else` and so
starts no line, and in front of it nothing separates statements yet.
-/

namespace LosslessBasic.Grammar

set_option synthInstance.maxSize 65536

/-! ## Bodies -/

/-- The blocks and headers around, and the mark of a failed statement, are no part of what has been
read. -/
theorem State.InPlace.of_context {s t : State} {tokens : List Token} {flat : Prop}
    (hs : s.InPlace tokens flat)
    (hbuilder : t.builder = s.builder) (hstream : t.stream = s.stream)
    (hfailures : t.failures = s.failures)
    (hseparator : t.lastSeparator = s.lastSeparator) (hline : t.lineMode = s.lineMode) :
    t.InPlace tokens flat := by
  refine hs.of_silent hbuilder hstream (hfailures ▸ List.prefix_refl _) ?_ ?_
  · unfold State.strays
    rw [hfailures]
  · unfold State.OffBreak
    rw [hseparator, hline]
    exact hs.offBreak

/-- A production that leads to the end of the body of a block, where it depends on the stop what is
known. -/
class Stops (c : Standing) (e : outParam (Stop → Standing)) (p : Production Stop) : Prop where
  stops {tokens : List Token} {flat : Prop} {s : State} : s.InPlace tokens flat → c.Holds s →
    (p.run s).2.InPlace tokens flat ∧ (e (p.run s).1).Holds (p.run s).2

section

variable {α : Type} {c m e' : Standing} {e : Stop → Standing} {block : Block}

instance {p : Production α} {f : α → Production Stop} [hp : Proceeds c m p]
    [hf : ∀ a, Stops m e (f a)] :
    Stops c e (p >>= f) where
  stops hs hc := by
    obtain ⟨hplace, hstand⟩ := hp.proceeds hs hc
    exact (hf _).stops hplace hstand

instance {p : Production Stop} {f : Stop → Production α} [hp : Stops c e p]
    [hadds : AddsNoColon c p]
    [hf : ∀ stop, AddsNoColon (e stop) (f stop)] : AddsNoColon c (p >>= f) where
  addsAll hs hc := by
    obtain ⟨hplace, hstand⟩ := hp.stops hs hc
    exact (hadds.addsAll hs hc).trans ((hf _).addsAll hplace hstand)

instance {k : NodeKind} {p : Production Stop} [hk : IsTrue k.isColonFree] [hadds : AddsNoColon c p]
    [h : Stops c e p] : Stops c e (within k p) where
  stops {_ _ s} hs hc := by
    obtain ⟨hplace, hstand⟩ := h.stops (hs.opening k) (hc.opening k)
    exact ⟨inPlace_frame hk.eq_true hs.innermostInRow
      (hadds.addsAll (hs.opening k) (hc.opening k)) hplace,
      hstand.closing⟩

instance {target : Option Tree} {p : Production Stop} [h : Stops c e p] :
    Stops c e (inWith target p) where
  stops {_ _ s} hs hc := by
    have hs' : State.InPlace _ _ { s with withTargets := target :: s.withTargets } :=
      hs.of_context rfl rfl rfl rfl rfl
    obtain ⟨hplace, hstand⟩ := h.stops hs' (.congr (s := s) rfl rfl rfl hc)
    rw [run_inWith]
    exact ⟨hplace.of_context rfl rfl rfl rfl rfl,
      .congr (s := (p.run _).2) rfl rfl rfl hstand⟩

/-- A body goes on behind its first part. -/
instance {p : Production Stop} {f : Stop → Production Stop} {e' : Stop → Standing}
    [hp : Stops c e p]
    [hf : ∀ stop, Stops (e stop) e' (f stop)] : Stops c e' (p >>= f) where
  stops hs hc := by
    obtain ⟨hplace, hstand⟩ := hp.stops hs hc
    exact (hf _).stops hplace hstand

/-- What follows the body of a block. -/
instance {p : Production Stop} {f : Stop → Production α} [hp : Stops c e p]
    [hf : ∀ stop, Proceeds (e stop) e' (f stop)] : Proceeds c e' (p >>= f) where
  proceeds hs hc := by
    obtain ⟨hplace, hstand⟩ := hp.stops hs hc
    exact (hf _).proceeds hplace hstand

/-- What is done with the closer of a block where it comes next. -/
instance {stop : Stop} {p : Production Unit} [hp : Proceeds .start .ended p] :
    Proceeds (.stopped block stop) .ended (if stop == .ownCloser then p else pure ()) where
  proceeds hs hstopped := by
    split
    next hstop => exact hp.proceeds hs (hstopped.2 (beq_iff_eq.mp hstop)).1
    next => exact ⟨hs, hstopped.1⟩

instance {stop : Stop} {p : Production Unit} [hp : AddsNoColon .start p] :
    AddsNoColon (.stopped block stop) (if stop == .ownCloser then p else pure ()) where
  addsAll {_ _ s} hs hstopped := by
    split
    next hstop => exact hp.addsAll hs (hstopped.2 (beq_iff_eq.mp hstop)).1
    next => exact ⟨[], .refl s, nofun⟩

end

/-- The closer of a block ends no statement. -/
theorem State.OnCloser.not_isBoundary {block : Block} {s : State} (h : s.OnCloser block) :
    ¬ (s.stream.peekSignificant 0).kind.IsBoundary := by
  obtain ⟨closer, hcloser, -⟩ := h
  intro hboundary
  have hmem := Kind.mem_boundaries hboundary
  have hcase : ∀ k ∈ Kind.boundaries, ∀ l, Closer.ofKinds? k l = none := by
    simp [Kind.boundaries, Closer.ofKinds?]
  rw [hcase _ hmem] at hcloser
  cases hcloser

section

variable {statement : Production Unit} [LaysStatement statement] [ReadsItem statement]
  [Obeys accountLaw statement]
  [Composed false statement] [Advances statement]

instance (block : Block) : Stops .ended (.stopped block) (blockBody statement block) where
  stops {tokens flat s} hs hline := by
    have hin : State.InPlace tokens flat { s with blocks := block :: s.blocks } :=
      hs.of_context rfl rfl rfl rfl rfl
    have hlist := lists_statements statement (hin.opening .statementList)
      (Standing.Holds.congr (c := .ended) (s := s) rfl rfl rfl hline)
    have hplace := inPlace_list (.inr rfl) hin.innermostInRow hlist.1 hlist.2.1
    -- where the stop says so, the closer of the block comes next, and so at the cursor
    obtain ⟨body, -, hends⟩ := ends_blockBody statement block hs.innermostInRow
    have hsolid := atOwnCloser_blockBody statement block s
    refine ⟨hplace.of_context rfl rfl rfl rfl rfl,
      Standing.Holds.congr (c := .ended) (s := ((statements statement).run _).2)
        rfl (State.before_closing _) rfl
        hlist.2.2, fun hstop => ?_⟩
    obtain ⟨_, hblock, hcloser⟩ := hends.closer hstop
    cases hblock
    refine ⟨⟨hsolid hstop, ?_⟩, hcloser⟩
    rw [← TokenStream.peekSignificant_zero (hsolid hstop)]
    exact hcloser.not_isBoundary

end

/-- The node around a body is no colon. -/
instance {statement : Production Unit} [LaysStatement statement] [Advances statement]
    (block : Block) :
    AddsOnly .any Tree.IsNoColon (blockBody statement block) := by
  have hlist : Lays (statements statement) :=
    AddsOnly.mono (P := Tree.IsLaidItem) inferInstance fun _ => Tree.IsLaidItem.laidOut
  unfold blockBody
  infer_instance

/-! ## Closers -/

instance : Proceeds .pair .ended closeBlock := by unfold closeBlock; infer_instance

instance : AddsNoColon .pair closeBlock := by unfold closeBlock; infer_instance

instance (stop : Stop) : Proceeds (.closable stop) .ended (blockEnd stop) where
  proceeds hs hstopped := by
    have hclose : Proceeds .pair .ended closeBlock := inferInstance
    unfold blockEnd
    split
    next hstop => exact hclose.proceeds hs (hstopped.2 (beq_iff_eq.mp hstop))
    next => exact ⟨hs, hstopped.1⟩

instance (stop : Stop) : AddsNoColon (.closable stop) (blockEnd stop) where
  addsAll {_ _ s} hs hstopped := by
    have hclose : AddsNoColon .pair closeBlock := inferInstance
    unfold blockEnd
    split
    next hstop => exact hclose.addsAll hs (hstopped.2 (beq_iff_eq.mp hstop))
    next => exact ⟨[], .refl s, nofun⟩

/-- The closers of one word. -/
abbrev singleClosers : List (Block × Kind) :=
  [(.for_, .keyword .next), (.do_, .keyword .loop), (.while_, .keyword .wend),
    (.if_, .keyword .else_), (.if_, .keyword .elseIf), (.select, .keyword .case)]

/-- Any other closer has two words. -/
theorem State.OnCloser.second_not_isBoundary {block : Block} {s : State} (h : s.OnCloser block)
    (hpair : ∀ first, (block, first) ∈ singleClosers → (s.stream.peekSignificant 0).kind ≠ first) :
    ¬ (s.stream.peekSignificant 1).kind.IsBoundary := by
  obtain ⟨closer, hcloser, rfl⟩ := h
  rcases Closer.cases_of_ofKinds? hcloser with ⟨-, word, hword⟩ | hother
  · rw [hword]
    exact not_isBoundary_keyword word
  · exact absurd rfl (hpair _ hother)

/-- Behind the body of a block its closer can be read. -/
theorem Standing.Holds.closable {block : Block} {stop : Stop} {s : State}
    (h : (Standing.stopped block stop).Holds s)
    (hpair : stop = .ownCloser → ∀ first, (block, first) ∈ singleClosers →
      (s.stream.peekSignificant 0).kind ≠ first) : (Standing.closable stop).Holds s :=
  ⟨h.1, fun hstop => ⟨(h.2 hstop).1, (h.2 hstop).2.second_not_isBoundary (hpair hstop)⟩⟩

/-- The end of a block whose closer has two words. -/
theorem proceeds_blockEnd {block : Block} (hblock : ∀ first, (block, first) ∉ singleClosers)
    (stop : Stop) :
    Proceeds (.stopped block stop) .ended (blockEnd stop) :=
  .weaken (c := .closable stop) inferInstance
    (fun h => h.closable fun _ first hfirst => absurd hfirst (hblock first)) id

/-- The closer of a block holds no colon. -/
theorem addsNoColon_blockEnd {block : Block} (hblock : ∀ first, (block, first) ∉ singleClosers)
    (stop : Stop) :
    AddsNoColon (.stopped block stop) (blockEnd stop) where
  addsAll hs h := by
    have hend : AddsNoColon (.closable stop) (blockEnd stop) := inferInstance
    exact hend.addsAll hs (h.closable fun _ first hfirst => absurd hfirst (hblock first))

/-! ## Loops and With -/

section

variable {statement : Production Unit} [LaysStatement statement] [ReadsItem statement]
  [Obeys accountLaw statement]
  [Composed false statement] [Advances statement]

instance : Proceeds .start .ended nextClause := by
  unfold nextClause
  dsimp only
  infer_instance

instance : AddsNoColon .start nextClause := by
  unfold nextClause
  dsimp only
  infer_instance

instance : Proceeds .start .ended (forStatement statement) := by
  unfold forStatement
  dsimp only
  infer_instance

instance : Proceeds .start .ended (doStatement statement) := by unfold doStatement; infer_instance

instance : Proceeds .start .ended (whileStatement statement) := by
  unfold whileStatement
  infer_instance

instance : Proceeds .start .ended (withStatement statement) := by
  have hend (stop : Stop) : Proceeds (.stopped .with_ stop) .ended (blockEnd stop) :=
    proceeds_blockEnd (by simp [singleClosers]) stop
  have hcolon (stop : Stop) : AddsNoColon (.stopped .with_ stop) (blockEnd stop) :=
    addsNoColon_blockEnd (by simp [singleClosers]) stop
  unfold withStatement
  infer_instance

/-! ## Procedures -/

/-- A procedure holds no colon among its children. -/
theorem isColonFree_procedureForm (kind : Kind) : (procedureForm kind).1.isColonFree = true := by
  unfold procedureForm
  split <;> rfl

/-- A procedure is closed by two words. -/
theorem not_mem_singleClosers_procedureForm (kind first : Kind) :
    ((procedureForm kind).2, first) ∉ singleClosers := by
  unfold procedureForm
  split <;> simp [singleClosers]

instance : Proceeds .declared .ended (procedure statement) := by
  have hfree (kind : Kind) : IsTrue (procedureForm kind).1.isColonFree :=
    ⟨isColonFree_procedureForm kind⟩
  have hend (kind : Kind) (stop : Stop) :
      Proceeds (.stopped (procedureForm kind).2 stop) .ended (blockEnd stop) :=
    proceeds_blockEnd (not_mem_singleClosers_procedureForm kind) stop
  have hcolon (kind : Kind) (stop : Stop) :
      AddsNoColon (.stopped (procedureForm kind).2 stop) (blockEnd stop) :=
    addsNoColon_blockEnd (not_mem_singleClosers_procedureForm kind) stop
  unfold procedure
  dsimp only
  infer_instance

/-! ## If -/

instance : Proceeds .start .amid ifHeader := by unfold ifHeader; infer_instance

variable (statement) in
/-- The `ElseIf` bodies of an `If`. -/
theorem stops_elseIfs {tokens : List Token} {flat : Prop} {s : State} {stop : Stop}
    (hs : s.InPlace tokens flat) (hstopped : (Standing.stopped .if_ stop).Holds s) :
    ((iterate id (elseIfPass statement) stop).run s).2.InPlace tokens flat ∧
      (Standing.stopped .if_ ((iterate id (elseIfPass statement) stop).run s).1).Holds
        ((iterate id (elseIfPass statement) stop).run s).2 ∧
      (((iterate id (elseIfPass statement) stop).run s).1 = .ownCloser →
        (((iterate id (elseIfPass statement) stop).run s).2.stream.peekSignificant 0).kind ≠
          .keyword .elseIf) := by
  have hbody : Stops .start (.stopped .if_) (within .elseIfClause do
      ifHeader
      finishStatement
      blockBody statement .if_) := inferInstance
  -- the loop keeps the place, and it ends where no `ElseIf` follows
  refine iterate_holds (P := fun stop t => t.InPlace tokens flat ∧
    (Standing.stopped .if_ stop).Holds t)
    (Q := fun stop t => t.InPlace tokens flat ∧ (Standing.stopped .if_ stop).Holds t ∧
      (stop = .ownCloser → (t.stream.peekSignificant 0).kind ≠ .keyword .elseIf)) ?_ stop
    ⟨hs, hstopped⟩
  rintro stop t ⟨ht, hstopped⟩
  unfold elseIfPass atNext
  rw [run_look_bind]
  split
  next hnext =>
    simp only [Bool.and_eq_true, beq_iff_eq] at hnext
    have hstart := (hstopped.2 hnext.1).1
    have hends := hbody.stops ht hstart
    rw [run_bind, run_pure]
    exact Pass.holds_again hends
  next hnext =>
    rw [run_pure]
    refine Pass.holds_done ⟨ht, hstopped, fun hstop hkind => hnext ?_⟩
    simpa [hstop] using hkind

/-- Further `Else` and `ElseIf` behind the `Else` body, up to the closer. -/
instance (stop : Stop) :
    Stops (.stopped .if_ stop) .closable (iterate id (elseBodyPass statement) stop) where
  stops {tokens flat s} hs hstopped := by
    have hbody : Stops .start (.stopped .if_) (do
        strayCloser { block := .if_, isSegment := true }
        blockBody statement .if_) := inferInstance
    refine iterate_holds (P := fun stop t => t.InPlace tokens flat ∧
      (Standing.stopped .if_ stop).Holds t)
      (Q := fun stop t => t.InPlace tokens flat ∧ (Standing.closable stop).Holds t) ?_ stop
        ⟨hs, hstopped⟩
    rintro stop t ⟨ht, hstopped⟩
    unfold elseBodyPass atElse
    rw [run_look_bind]
    split
    next hnext =>
      simp only [Bool.and_eq_true, beq_iff_eq] at hnext
      have hstart := (hstopped.2 hnext.1).1
      have hends := hbody.stops ht hstart
      rw [run_bind] at hends
      rw [run_bind, run_bind, run_pure]
      exact Pass.holds_again hends
    next hnext =>
      rw [run_pure]
      refine Pass.holds_done ⟨ht, hstopped.closable fun hstop first hfirst hkind => hnext ?_⟩
      simp only [List.mem_cons, Prod.mk.injEq, reduceCtorEq, false_and, true_and, List.not_mem_nil,
        or_false, false_or] at hfirst
      rcases hfirst with rfl | rfl <;> simp [hstop, hkind]

instance (stop : Stop) : AddsOnly .any Tree.IsNoColon (elseIfPass statement stop) := by
  unfold elseIfPass
  infer_instance

instance (stop : Stop) : AddsOnly .any Tree.IsNoColon (elseBodyPass statement stop) := by
  have hunknown : AddsOnly .any Tree.IsNoColon unknownStatement := by
    unfold unknownStatement rawStatement
    infer_instance
  unfold elseBodyPass atElse strayCloser
  infer_instance

instance : Stops .start .closable (elseClause statement) := by unfold elseClause; infer_instance

instance : Stops .ended .closable (ifBodies statement) := by
  have hbodies (stop : Stop) : Stops (.stopped .if_ stop) .closable (do
      let stop ← iterate id (elseIfPass statement) stop
      if stop == .ownCloser && (← atNext (.keyword .else_)) then elseClause statement
      else pure stop) := by
    refine ⟨fun {tokens flat s} hs hstopped => ?_⟩
    obtain ⟨hplace, hstopped', hother⟩ := stops_elseIfs statement hs hstopped
    have helse : Stops .start .closable (elseClause statement) := inferInstance
    unfold atNext
    rw [run_bind, run_look_bind]
    generalize (iterate id (elseIfPass statement) stop).run s = r at hplace hstopped' hother
    split
    next hnext =>
      simp only [Bool.and_eq_true, beq_iff_eq] at hnext
      exact helse.stops hplace (hstopped'.2 hnext.1).1
    next hnext =>
      rw [run_pure]
      refine ⟨hplace, hstopped'.closable fun hstop first hfirst hkind => ?_⟩
      simp only [List.mem_cons, Prod.mk.injEq, reduceCtorEq, false_and, true_and, List.not_mem_nil,
        or_false, false_or] at hfirst
      rcases hfirst with rfl | rfl
      · exact hnext (by simp [hstop, hkind])
      · exact hother hstop hkind
  unfold ifBodies
  infer_instance

instance {c : Standing} [IsTrue c.isClean] : Proceeds c .ended (blockIf statement) := by
  rw [blockIf_eq]
  infer_instance

instance : AddsOnly .any Tree.IsNoColon (ifBodies statement) := by
  have helse : AddsOnly .any Tree.IsNoColon (elseClause statement) := by
    unfold elseClause
    infer_instance
  unfold ifBodies
  infer_instance

instance {c : Standing} [IsTrue c.isClean] : AddsNoColon c (blockIf statement) := by
  rw [blockIf_eq]
  infer_instance

end

/-! ## On a single line -/

section

variable {s : State} {tokens : List Token} {flat : Prop}

/-- Blanks are no labels. -/
theorem along_of_isBlank {trees : List Tree} {rest : List Token} {n : Nat}
    (hblank : ∀ t ∈ trees, t.isBlank = true)
    (hdrop : tokens.drop n = Tree.leavesAll trees ++ rest) :
    Tree.Along (Tree.ItemRule tokens) n trees := by
  induction trees generalizing n with
  | nil => trivial
  | cons c trees ih =>
    have hc := hblank c List.mem_cons_self
    cases c with
    | node => cases hc
    | leaf t =>
      have hother : ∀ l, t.kind ≠ .lexeme l := Kind.ne_lexeme_of_isInlineTrivia hc
      refine ⟨⟨fun _ hlabel => ?_, fun _ hcolon => absurd hcolon (hother _)⟩, ?_⟩
      · rw [hdrop] at hlabel
        exact absurd hlabel (not_startsLabel (hother _) (hother _))
      · refine ih (fun u hu => hblank u (List.mem_cons_of_mem _ hu)) ?_
        rw [← List.drop_drop, hdrop]
        rfl

/-- To skip blanks adds blanks to a list. -/
theorem addsItems_skipBlanks (hs : s.InPlace tokens flat) :
    s.AddsItems tokens (skipBlanks.run s).2 := by
  have hskip : AddsOnly .any (·.isBlank = true) skipBlanks := inferInstance
  obtain ⟨trees, hadds, hblanks⟩ := hskip.addsAll hs.innermostInRow
  exact ⟨trees, hadds, along_of_isBlank hblanks (by rw [hs.drop_eq]; exact hadds.rest)⟩

/-- A statement of a single word ends behind it. -/
theorem ended_wordStatement {k : NodeKind} (hk : k.isFree = true) (hs : s.InPlace tokens flat)
    (hword : s.AtWord) :
    ((wordStatement k).run s).2.InPlace tokens True ∧ ((wordStatement k).run s).2.Ended := by
  have hshift : Proceeds .start .amid shift := inferInstance
  have hcomposed : Composed false (do shift; finishStatement) := inferInstance
  obtain ⟨hshifted, hamid⟩ :=
    hshift.proceeds (hs.opening k) (Standing.Holds.opening (c := .start) hword k)
  obtain ⟨hplace, hended⟩ := inPlace_finishStatement hshifted
  exact ⟨inPlace_within (p := do shift; finishStatement) hk hs.innermostInRow hplace,
    (hended (State.Amid.colon hamid)).closing⟩

/-- A line number in the place of a statement is a jump and no label, because it starts no line. -/
theorem addsItems_lineNumberJump (hs : s.InPlace tokens flat) (hamid : s.Amid)
    (hline : 0 < s.lineMode)
    (hnext : (s.stream.peekSignificant 0).kind = .lexeme .integerLiteral) :
    s.AddsItems tokens (lineNumberJump.run s).2 ∧ (lineNumberJump.run s).2.InPlace tokens True ∧
      (lineNumberJump.run s).2.Amid := by
  have hskip : Proceeds .amid .amid skipBlanks := inferInstance
  have hlays : LaysStatement (wordStatement .gotoStatement) := inferInstance
  have hcontext : Composed false lineNumberJump := by unfold lineNumberJump; infer_instance
  have hmode := (hcontext.sameContext s).lineMode
  have hblanks := addsItems_skipBlanks hs
  obtain ⟨hplace, hamid'⟩ := hskip.proceeds hs hamid
  have hkind : (skipBlanks.run s).2.stream.current.kind = .lexeme .integerLiteral := by
    rw [current_skipBlanks, hnext]
  unfold lineNumberJump at hmode ⊢
  rw [run_bind] at hmode ⊢
  generalize (skipBlanks.run s).2 = t at hblanks hplace hamid' hkind hmode
  have hstart : t.AtStart := ⟨by rw [hkind]; rfl, by simp [hkind], by simp [State.AtEnd, hkind]⟩
  have hname : t.NameNext :=
    .inr (by rw [TokenStream.peekSignificant_zero hstart.isInlineTrivia, hkind])
  obtain ⟨n, hadds, -, hstatement⟩ := hlays.holds t hplace.innermostInRow hstart
  obtain ⟨hjump, hended⟩ := ended_wordStatement (k := .gotoStatement) rfl hplace hstart.atWord
  refine ⟨hblanks.trans ⟨[n], hadds, ⟨?_, fun htoken => ?_⟩, trivial⟩, hjump,
    fun hname' hline' => ?_,
    hended.colon⟩
  · rw [hplace.take_eq]
    exact fun hline => absurd hline (State.Amid.start hamid' hname)
  · rw [isToken_of_isStatement hstatement] at htoken
    cases htoken
  · exact hjump.offBreak trivial (by rwa [hmode]) ((hended.start hname').mpr hline')

end

section

variable {statement : Production Unit} [LaysStatement statement] [ReadsItem statement]
  {s : State} {tokens : List Token} {flat : Prop}

omit [LaysStatement statement] [ReadsItem statement] in
/-- An `Else` in the arm that follows an `Else` is reported. -/
theorem lists_secondElse (hs : s.InPlace tokens True) (hline : 0 < s.lineMode)
    (hkind : s.stream.current.kind = .keyword .else_) :
    s.Lists tokens True (secondElse.run s).2 := by
  have hreport : Proceeds .start .start (report .secondElse s.stream.current) := inferInstance
  have hphrasal : Phrasal secondElse := by unfold secondElse; infer_instance
  have hsolid : s.stream.current.kind.isInlineTrivia = false := by rw [hkind]; rfl
  have hboundary : ¬ s.stream.current.kind.IsBoundary := by
    rw [hkind]
    exact not_isBoundary_keyword _
  obtain ⟨hreported, -⟩ := hreport.proceeds hs ⟨hsolid, hboundary⟩
  have hsilent : s.Adds [] ((report .secondElse s.stream.current).run s).2 :=
    .of_silent rfl rfl rfl rfl rfl
  have hend : ¬ s.AtEnd := by simp [State.AtEnd, hkind]
  have hseparator := hphrasal.lastSeparator_eq s
  unfold secondElse current at hseparator ⊢
  rw [run_look_bind, run_bind] at hseparator ⊢
  generalize hr : ((report .secondElse s.stream.current).run s).2 =
    r at hreported hsilent hseparator
  have hcurrent : r.stream.current = s.stream.current := by rw [← hr]; rfl
  obtain ⟨a, hadds⟩ := adds_unknownToken hreported.innermostInRow (by rwa [State.AtEnd, hcurrent])
  have hboth := hsilent.trans hadds
  rw [hcurrent] at hboth
  have hplace := inPlace_unknownToken hreported (by simp [hcurrent, hkind])
  have hbefore := hboth.before_eq
  change _ = s.before ++ [s.stream.current] at hbefore
  -- within the line neither the flag nor the `Else` in front says that a line starts
  refine .of_node hs hboth rfl (by simp [hkind]) (by simp [hkind]) hplace
    ⟨fun _ => ⟨fun h => ?_, fun h => ?_⟩, fun _ _ => ?_⟩
  · exact absurd h (hplace.offBreak trivial (by rwa [hboth.context.lineMode]))
  · rw [hbefore, startsLine_snoc hsolid, hkind] at h
    cases h
  · rw [hbefore, behindColon_snoc hsolid, hkind]
    nofun

/-- Where a step through an arm leads: on by items, and to no second colon where the arm ends. -/
def State.ReadsArm (tokens : List Token) (s : State) (r : Pass Unit Stop × State) : Prop :=
  s.Lists tokens True r.2 ∧ ∀ stop, r.1 = .done stop → r.2.NoSecondColon

omit [LaysStatement statement] [ReadsItem statement] in
/-- An arm that ends where it is has been read. -/
theorem readsArm_of_done (hs : s.InPlace tokens True) (hline : s.KnowsLine)
    (hsolid : s.stream.current.kind.isInlineTrivia = false)
    (hcolon : s.stream.current.kind ≠ .lexeme .colon) (stop : Stop) :
    s.ReadsArm tokens ((pure (.done stop) : Production (Pass Unit Stop)).run s) := by
  refine ⟨.refl hs hline, fun _ _ hnext => ?_⟩
  rw [run_pure, TokenStream.peekSignificant_zero hsolid] at hnext
  exact absurd hnext hcolon

variable (statement) in
/-- One step through an arm reads a part of it. -/
theorem readsArm_inlinePass (hs : s.InPlace tokens True) (hline : s.KnowsLine)
    (hmode : 0 < s.lineMode)
    (endsAtElse : Bool) (u : Unit) :
    s.ReadsArm tokens ((inlinePass statement endsAtElse u).run s) := by
  unfold inlinePass currentKind
  rw [run_look_bind]
  -- the tests of `inlinePass` in their order; only the last branch reads a statement
  split
  next hend =>
    have hend := beq_iff_eq.mp hend
    exact readsArm_of_done hs hline (by rw [hend]; rfl) (by simp [hend]) _
  next hend =>
    have hend : ¬ s.AtEnd := by simpa [State.AtEnd] using hend
    split
    next hbreak =>
      have hkind : s.stream.current.kind = .trivia .newline ∨
          s.stream.current.kind.isComment = true := by
        simpa using hbreak
      refine readsArm_of_done hs hline ?_ ?_ _
      · rcases hkind with hkind | hkind
        · rw [hkind]
          rfl
        · exact Kind.isInlineTrivia_of_isComment hkind
      · intro hcolon
        rw [hcolon] at hkind
        rcases hkind with hkind | hkind <;> cases hkind
    next hbreak =>
      split
      next hblank =>
        have hother := Kind.ne_lexeme_of_isInlineTrivia hblank
        rw [run_bind, run_shift hend]
        exact ⟨.of_shifted hs hend (hother _) (hother _) (fun h => absurd h (hother _)) (.refl _)
          (hs.shifted hend) (hline.shifted hblank), nofun⟩
      next hblank =>
        split
        next hcolon => exact ⟨lists_separator hs hline (beq_iff_eq.mp hcolon), nofun⟩
        next hcolon =>
          have hstart := State.atStart_of_inline hend hbreak hblank hcolon
          split
          next helse =>
            split
            next => exact readsArm_of_done hs hline hstart.isInlineTrivia (by simpa using hcolon) _
            next => exact ⟨lists_secondElse hs hmode (beq_iff_eq.mp helse), nofun⟩
          next => exact ⟨lists_statement statement hs hstart hline, nofun⟩

variable [Composed false statement] [Advances statement]

omit [Composed false statement] in
variable (statement) in
/-- The statements of an arm are listed behind the word in front of them, with nothing yet that
separates them. -/
theorem addsItems_inlineStatements (hs : s.InPlace tokens flat) (hamid : s.Amid)
    (hmode : 0 < s.lineMode)
    (endsAtElse : Bool) :
    s.AddsItems tokens ((inlineStatements statement endsAtElse).run s).2 ∧
      ((inlineStatements statement endsAtElse).run s).2.InPlace tokens True ∧
      ((inlineStatements statement endsAtElse).run s).2.NoSecondColon := by
  -- with the flag reset the state knows that no line starts behind `Then` or `Else`
  have hset : State.InPlace tokens True { s with lastSeparator := .none } :=
    hs.of_silent (t := { s with lastSeparator := .none }) rfl rfl (List.prefix_refl _)
      rfl fun _ _ => by simp
  have hline : State.KnowsLine { s with lastSeparator := .none } :=
    ⟨fun hname => ⟨nofun, fun hstart => absurd hstart (hamid.start hname)⟩, fun _ => hamid.colon⟩
  have hpass (u : Unit) (t : State)
    (h : State.Lists tokens True { s with lastSeparator := .none } t) :
      Pass.Holds (fun _ t => State.Lists tokens True { s with lastSeparator := .none } t)
        (fun _ t => State.Lists tokens True { s with lastSeparator := .none } t ∧ t.NoSecondColon)
        ((inlinePass statement endsAtElse u).run t) := by
    -- the arm is read in the mode of a single line throughout
    have hmode' : 0 < t.lineMode := by
      obtain ⟨⟨_, hadds, -⟩, -⟩ := h
      rw [hadds.context.lineMode]
      exact hmode
    obtain ⟨hlists, hdone⟩ := readsArm_inlinePass statement h.2.1 h.2.2 hmode' endsAtElse u
    exact ⟨fun _ _ => h.trans hlists, fun stop hstop => ⟨h.trans hlists, hdone stop hstop⟩⟩
  obtain ⟨⟨hitems, hplace, -⟩, hcolon⟩ :
      State.Lists tokens True { s with lastSeparator := .none }
        ((inlineStatements statement endsAtElse).run s).2 ∧
        ((inlineStatements statement endsAtElse).run s).2.NoSecondColon :=
    iterate_holds hpass () (.refl hset hline)
  have hsilent : s.AddsItems tokens { s with lastSeparator := .none } :=
    ⟨[], .of_silent rfl rfl rfl rfl rfl, trivial⟩
  exact ⟨hsilent.trans hitems, hplace, hcolon⟩

/-- Where the arms of a single-line `If` lead: they have no colon among their own tokens, and behind
them no second one comes next. -/
structure State.ReadsArms (tokens : List Token) (s t : State) : Prop where
  addsAll : s.AddsAll Tree.IsNoColon t
  inPlace : t.InPlace tokens True
  colon : t.NoSecondColon

omit [Composed false statement] in
variable (statement) in
/-- An arm of a single-line `If` is a list of statements that goes on behind `Then` or `Else`. -/
theorem readsArms_inlineArm (hs : s.InPlace tokens flat) (hamid : s.Amid) (hmode : 0 < s.lineMode)
    (endsAtElse : Bool) : s.ReadsArms tokens ((inlineArm statement endsAtElse).run s).2 := by
  have hclose {p : Production Unit} (h : (s.opening .statementList).AddsItems tokens
        (p.run (s.opening .statementList)).2 ∧
          (p.run (s.opening .statementList)).2.InPlace tokens True ∧
        (p.run (s.opening .statementList)).2.NoSecondColon) :
      s.ReadsArms tokens ((within .statementList p).run s).2 := by
    obtain ⟨⟨trees, hadds, hitems⟩, hplace, hcolon⟩ := h
    exact ⟨.of_adds (hadds.closing_opening hs.innermostInRow).1 (Tree.isNoColon_above _ _ _),
      inPlace_list (.inr rfl) hs.innermostInRow ⟨trees, hadds, hitems⟩ hplace,
      Standing.Holds.closing (c := .inside) hcolon⟩
  have hopened : (s.opening .statementList).Amid := Standing.Holds.opening (c := .amid) hamid _
  unfold inlineArm
  refine hclose ?_
  unfold atNext
  rw [run_look_bind]
  split
  next hnext =>
    have hcomposed : Composed false lineNumberJump := by unfold lineNumberJump; infer_instance
    obtain ⟨hitems, hplace, hamid'⟩ :=
      addsItems_lineNumberJump (hs.opening .statementList) hopened hmode (beq_iff_eq.mp hnext)
    have hmode' : 0 < (lineNumberJump.run (s.opening .statementList)).2.lineMode := by
      rw [(hcomposed.sameContext _).lineMode]
      exact hmode
    obtain ⟨hrest, hplace', hcolon⟩ :=
      addsItems_inlineStatements statement hplace hamid' hmode' endsAtElse
    exact ⟨hitems.trans hrest, hplace', hcolon⟩
  next =>
    exact addsItems_inlineStatements statement (hs.opening .statementList) hopened hmode endsAtElse

omit [Composed false statement] in
variable (statement) in
/-- The arm behind `Else`, with the `Else` in front of it. -/
theorem readsArms_elseArm (hs : s.InPlace tokens flat) (hword : s.AtWord) (hmode : 0 < s.lineMode) :
    s.ReadsArms tokens
      ((within .elseClause (do shift; inlineArm statement false) : Production Unit).run s).2 := by
  have hshift : Proceeds .start .amid shift := inferInstance
  have htoken : AddsNoColon .start shift := inferInstance
  have hshifted : Composed false shift := inferInstance
  have hopened : Standing.start.Holds (s.opening .elseClause) :=
    Standing.Holds.opening (c := .start) hword _
  obtain ⟨hplace, hamid⟩ := hshift.proceeds (hs.opening .elseClause) hopened
  have hadds := htoken.addsAll (hs.opening .elseClause) hopened
  obtain ⟨hadds', hplace', hcolon⟩ := readsArms_inlineArm statement hplace hamid (by
    rw [(hshifted.sameContext _).lineMode]
    exact hmode) false
  obtain ⟨trees, hall, htrees⟩ := hadds.trans hadds'
  exact ⟨.of_adds (hall.closing_opening hs.innermostInRow).1 (Tree.isNoColon_above _ _ _),
    inPlace_frame (p := do shift; inlineArm statement false) rfl hs.innermostInRow
      ⟨trees, hall, htrees⟩ hplace',
    Standing.Holds.closing (c := .inside) hcolon⟩

variable (statement) in
/-- The arms of a single-line `If` are read one after the other. -/
theorem readsArms_inlineArms (hs : s.InPlace tokens flat) (hamid : s.Amid)
    (hmode : 0 < s.lineMode) :
    s.ReadsArms tokens ((inlineArms statement).run s).2 := by
  have harm : Composed false (inlineArm statement true) := inferInstance
  have hskip : Proceeds .next .start skipBlanks := inferInstance
  have hskipped : Composed false skipBlanks := inferInstance
  have hblanks : AddsNoColon .next skipBlanks := inferInstance
  have hmode' := (harm.sameContext s).lineMode
  have hfirst := readsArms_inlineArm statement hs hamid hmode true
  unfold inlineArms atNext
  rw [run_bind, run_look_bind]
  generalize ((inlineArm statement true).run s).2 = t at hfirst hmode'
  obtain ⟨hadds, hplace, hcolon⟩ := hfirst
  split
  next hnext =>
    have hnext : Standing.next.Holds t := by
      change ¬ (t.stream.peekSignificant 0).kind.IsBoundary
      rw [beq_iff_eq.mp hnext]
      exact not_isBoundary_keyword _
    obtain ⟨hplace', hword⟩ := hskip.proceeds hplace hnext
    obtain ⟨hadds', hplace'', hcolon'⟩ := readsArms_elseArm statement hplace' hword (by
      rwa [(hskipped.sameContext t).lineMode, hmode'])
    exact ⟨hadds.trans ((hblanks.addsAll hplace hnext).trans hadds'), hplace'', hcolon'⟩
  next => exact ⟨hadds, hplace, hcolon⟩

variable (statement) in
/-- In the mode of a single line both arms are read, whatever is known of a line around. -/
theorem readsArms_onOneLine (hs : s.InPlace tokens flat) (hamid : s.Amid) :
    State.ReadsArms tokens { s with lineMode := s.lineMode + 1 }
      ((inlineArms statement).run { s with lineMode := s.lineMode + 1 }).2 := by
  have hin : State.InPlace tokens False { s with lineMode := s.lineMode + 1 } :=
    hs.of_silent (t := { s with lineMode := s.lineMode + 1 }) rfl rfl (List.prefix_refl _)
      rfl False.elim
  exact readsArms_inlineArms statement hin
    (Standing.Holds.congr (c := .amid) (s := s) rfl rfl rfl hamid)
    (Nat.succ_pos _)

instance : Proceeds .amid .inside (onOneLine (inlineArms statement)) where
  proceeds {tokens flat s} hs hamid := by
    have harms : Composed false (inlineArms statement) := inferInstance
    obtain ⟨-, hplace, hcolon⟩ := readsArms_onOneLine statement hs hamid
    have hmode := (harms.sameContext { s with lineMode := s.lineMode + 1 }).lineMode
    rw [run_onOneLine]
    generalize (inlineArms statement).run { s with lineMode := s.lineMode + 1 } =
      r at hplace hcolon hmode ⊢
    refine ⟨hplace.of_silent (t := { r.2 with lineMode := r.2.lineMode - 1 })
      rfl rfl (List.prefix_refl _) rfl
      fun _ _ => ?_, Standing.Holds.congr (c := .inside) (s := r.2) rfl rfl rfl hcolon⟩
    exact hplace.offBreak trivial (by rw [hmode]; exact Nat.succ_pos _)

instance : AddsNoColon .amid (onOneLine (inlineArms statement)) where
  addsAll hs hamid := by
    obtain ⟨⟨trees, hadds, htrees⟩, -⟩ := readsArms_onOneLine statement hs hamid
    exact ⟨trees, hadds.onOneLine, htrees⟩

instance : AddsNoColon .amid (singleLineIf statement) := by unfold singleLineIf; infer_instance

instance : Proceeds .amid .ended (singleLineIf statement) := by unfold singleLineIf; infer_instance

instance : AddsNoColon .start ifHeader := by unfold ifHeader; infer_instance

instance [Obeys accountLaw statement] : Proceeds .start .ended (ifStatement statement) := by
  unfold ifStatement
  infer_instance

end

end LosslessBasic.Grammar
