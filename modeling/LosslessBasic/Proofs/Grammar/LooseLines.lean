import LosslessBasic.Proofs.Grammar.BlockLines
import LosslessBasic.Proofs.Grammar.Carry
import LosslessBasic.Proofs.Grammar.Designers

/-!
# Blocks without a list and their lines

The lines of a `Select Case`, the members of a type or of an enumeration and the properties of a
form stand in no list of statements: a loop moves their line breaks and colons without noting what
separates statements. The loop ends behind the closer, where a statement has ended, or in front of a
word that starts no label, where nothing is asked. So it leads from any standing to the end of a
statement (`proceeds_lines`).
-/

namespace LosslessBasic.Grammar

set_option synthInstance.maxSize 65536

/-- Where a step through the lines of a block leads: what has been read stays in its place, and
where the block ends the line is known. -/
def State.ReadsLine (tokens : List Token) (flat : Prop) (r : Pass Unit Unit × State) : Prop :=
  r.2.InPlace tokens flat ∧ (r.1 = .done () → r.2.KnowsLine)

/-- A loop over lines leads to where the line is known. -/
theorem proceeds_lines {c : Standing} {pass : Unit → Production (Pass Unit Unit)}
    [∀ u, Progresses (pass u)]
    (hpass : ∀ {tokens flat s} u, s.InPlace tokens flat →
      State.ReadsLine tokens flat ((pass u).run s)) :
    Proceeds c .ended (iterate (fun _ => ()) pass ()) where
  proceeds {tokens flat s} hs _ := by
    refine iterate_holds (P := fun _ t => t.InPlace tokens flat)
      (Q := fun _ t => t.InPlace tokens flat ∧ t.KnowsLine) (fun u t ht => ?_) () hs
    obtain ⟨hplace, hdone⟩ := hpass u ht
    exact ⟨fun _ _ => hplace, fun _ hresult => ⟨hplace, hdone hresult⟩⟩

section

variable {s : State} {tokens : List Token} {flat : Prop} {c e : Standing} {α : Type}

/-- A pass that goes on has read a part of a line. -/
theorem readsLine_again {p : Production α} [hp : Proceeds c e p] (hs : s.InPlace tokens flat)
    (hc : c.Holds s) :
    State.ReadsLine tokens flat
      ((p >>= fun _ => (pure (.again ()) : Production (Pass Unit Unit))).run s) :=
  ⟨(hp.proceeds hs hc).1, nofun⟩

/-- The last pass has read its line to the end. -/
theorem readsLine_done {p : Production α} [hp : Proceeds c .ended p] (hs : s.InPlace tokens flat)
    (hc : c.Holds s) :
    State.ReadsLine tokens flat
      ((p >>= fun _ => (pure (.done ()) : Production (Pass Unit Unit))).run s) :=
  (hp.proceeds hs hc).imp_right fun h _ => h

/-- The lines end in front of a word that neither starts a label nor is a colon. -/
theorem readsLine_missing (block : Block) (t : Token) (hs : s.InPlace tokens flat)
    (hline : s.KnowsLine) :
    State.ReadsLine tokens flat
      ((report (.missingCloser block t) t >>= fun _ =>
        (pure (.done ()) : Production (Pass Unit Unit))).run s) :=
  readsLine_done (c := .ended) hs hline

/-- In front of the end of the source no name comes next. -/
theorem State.KnowsLine.of_atEnd (hend : s.AtEnd) : s.KnowsLine := by
  have hkind := kind_peekSignificant_of_atEnd hend
  refine .of_next ?_ (by simp [hkind])
  rintro (hname | hname) <;> cases hkind.symm.trans hname

/-- In front of a keyword it is known what the line has started with. -/
theorem State.KnowsLine.of_keyword {keyword : Keyword}
    (hkind : (s.stream.peekSignificant 0).kind = .keyword keyword) : s.KnowsLine := by
  refine .of_next ?_ (by simp [hkind])
  rintro (hname | hname) <;> cases hkind.symm.trans hname

/-- In front of a header of a procedure it is known what the line has started with. -/
theorem State.AtHeader.knowsLine {header : Token} (h : s.AtHeader header) : s.KnowsLine := by
  have hkind := h.kind_mem
  rw [← h.peekSignificant_zero] at hkind
  simp only [List.mem_cons, List.not_mem_nil, or_false] at hkind
  rcases hkind with hkind | hkind | hkind | hkind | hkind | hkind | hkind | hkind <;>
    exact .of_keyword hkind

/-- A procedure that starts at a word is known by a keyword. -/
theorem State.AtStart.knowsLine (h : s.AtStart)
    (hstarts : Lookahead.startsProcedure s.stream.rest = true) :
    s.KnowsLine :=
  State.AtHeader.knowsLine ⟨rfl, h.isTrivia, hstarts⟩

/-! ## Members -/

instance (k : NodeKind) [IsTrue k.isColonFree] (details : Production Unit) [AddsLine details]
    [Proceeds .any .any details] : Proceeds .any .any (member k details) := by
  unfold member
  infer_instance

instance : Proceeds .any .any typeMember := by unfold typeMember; infer_instance

instance : Proceeds .any .any enumMember := by unfold enumMember; infer_instance

section

variable {item : Production Unit} [hcomposed : Composed false item]
  [hitem : Proceeds .any .any item]

/-- A token that is moved in the place of a member is no colon. -/
theorem inPlace_memberOrToken (hs : s.InPlace tokens flat)
    (hcolon : s.stream.current.kind ≠ .lexeme .colon) :
    ((memberOrToken item).run s).2.InPlace tokens flat := by
  have hplace := (hitem.proceeds hs trivial).1
  unfold memberOrToken
  rw [run_look_bind, run_bind, run_look_bind]
  split
  next hstay =>
    -- the member moved nothing, so the token at the cursor is the same
    have hrest := hcomposed.stream_eq_of_remaining_eq (beq_iff_eq.mp hstay)
    refine inPlace_unknownToken hplace ?_
    rwa [TokenStream.current_eq_of_rest_eq hrest]
  next => exact hplace

/-- One step through a block of members reads a part of a line. -/
theorem readsLine_memberPass (block : Block) (closer : Keyword) (hs : s.InPlace tokens flat)
    (u : Unit) :
    State.ReadsLine tokens flat ((memberPass block closer item u).run s) := by
  unfold memberPass current
  rw [run_look_bind]
  -- the tests of `memberPass` in their order; only the last branch reads a member
  split
  next hend => exact readsLine_missing _ _ hs (.of_atEnd (beq_iff_eq.mp hend))
  next hend =>
    split
    next => exact readsLine_again (c := .any) hs trivial
    next hword =>
      rw [Bool.or_eq_true, not_or, Bool.not_eq_true, beq_iff_eq] at hword
      have hstart : s.AtStart := ⟨hword.1, hword.2, by simpa [State.AtEnd] using hend⟩
      unfold atNext
      rw [run_look_bind]
      split
      next hfirst =>
        unfold atCloser
        rw [run_look_bind]
        split
        next hcloser =>
          rw [Bool.and_eq_true, beq_iff_eq, beq_iff_eq] at hcloser
          refine readsLine_done (c := .pair) hs ⟨hstart.atWord, ?_⟩
          rw [hcloser.2]
          exact not_isBoundary_keyword closer
        next => exact readsLine_missing _ _ hs (.of_keyword (beq_iff_eq.mp hfirst))
      next =>
        unfold atProcedureHeader
        rw [run_look_bind]
        split
        next hstarts => exact readsLine_missing _ _ hs (hstart.knowsLine hstarts)
        next => exact ⟨inPlace_memberOrToken hs hword.2, nofun⟩

instance (block : Block) (closer : Keyword) : Proceeds c .ended (memberBlock block closer item) :=
  proceeds_lines fun u hs => readsLine_memberPass block closer hs u

end

instance : Proceeds .declared .ended typeStatement := by unfold typeStatement; infer_instance

instance : Proceeds .declared .ended enumStatement := by unfold enumStatement; infer_instance

/-! ## Designer blocks -/

instance : Proceeds .any .any propertyAssignment := by
  have htest : Still (atCurrent (.lexeme .colon)) := ⟨fun _ => rfl⟩
  unfold propertyAssignment rawStatement
  infer_instance

section

variable {inner : Block → Production Unit} [hinner : ∀ block, Proceeds .any .any (inner block)]

/-- The closer of a block of a form ends no statement. -/
theorem not_isBoundary_of_atDesignerEnd {block : Block}
    (h : ((atDesignerEnd block).run s).1 = true) :
    ¬ (s.stream.peekSignificant 0).kind.IsBoundary := by
  unfold atDesignerEnd isNamed at h
  rw [run_look] at h
  split at h <;> rw [Bool.and_eq_true, beq_iff_eq] at h <;> rw [h.1] <;> exact Bool.false_ne_true

instance (block? : Option Block) : Proceeds .any .any (blockOrProperty inner block?) := by
  cases block? <;> unfold blockOrProperty <;> infer_instance

/-- One step through a designer block reads a part of a line. -/
theorem readsLine_designerPass (block : Block) (hs : s.InPlace tokens flat) (u : Unit) :
    State.ReadsLine tokens flat ((designerPass inner block u).run s) := by
  have hclose : Proceeds .next .ended (do shiftNext; finishStatement) := inferInstance
  unfold designerPass current
  rw [run_look_bind]
  split
  next hend => exact readsLine_missing _ _ hs (.of_atEnd (beq_iff_eq.mp hend))
  next =>
    split
    next => exact readsLine_again (c := .any) hs trivial
    next =>
      have htest : ((atDesignerEnd block).run s).2 = s := rfl
      rw [run_bind, htest]
      cases hcloser : ((atDesignerEnd block).run s).1 with
      | true =>
        exact (hclose.proceeds hs (not_isBoundary_of_atDesignerEnd hcloser)).imp_right fun h _ => h
      | false =>
        rw [if_neg Bool.false_ne_true, run_bind, run_designerBlock?]
        exact readsLine_again (c := .any) hs trivial

end

/-- A block is closed, or in front of the end of the source it is not. -/
theorem proceeds_designerUpTo {depth : Nat} [∀ block, Proceeds .any .any (designerUpTo depth block)]
    (block : Block) : Proceeds .any .ended (designerUpTo (depth + 1) block) := by
  have hlines :
      Proceeds .any .ended (iterate (fun _ => ()) (designerPass (designerUpTo depth) block) ()) :=
    proceeds_lines fun u hs => readsLine_designerPass block hs u
  unfold designerUpTo
  infer_instance

instance (depth : Nat) (block : Block) : Proceeds .any .any (designerUpTo depth block) := by
  induction depth generalizing block with
  | zero => unfold designerUpTo; infer_instance
  | succ depth ih => exact (proceeds_designerUpTo block).weaken id fun _ => trivial

instance : Proceeds .start .ended designerStatement := by
  have hblock (depth : Nat) : Proceeds .start .ended (designerUpTo (depth + 1) .designer) :=
    (proceeds_designerUpTo .designer).weaken (fun _ => trivial) id
  unfold designerStatement
  infer_instance

/-! ## Select Case -/

section

variable {statement : Production Unit} [LaysStatement statement] [ReadsItem statement]
  [Obeys accountLaw statement] [Composed false statement] [Advances statement]

variable (statement) in
/-- A clause leads to the end of its body. -/
theorem stops_caseClause (hs : s.InPlace tokens flat) (hword : s.AtWord) :
    ((caseClause statement).run s).2.InPlace tokens flat ∧
      (Standing.stopped .select ((caseClause statement).run s).1).Holds
        ((caseClause statement).run s).2 := by
  have helse : Stops .pair (.stopped .select) (within .caseElseClause do
      setRecovering false
      shiftNext
      shiftNext
      finishStatement
      blockBody statement .select) := inferInstance
  have htests : Stops .start (.stopped .select) (within .caseClause do
      setRecovering false
      shiftNext
      commaList caseTest
      finishStatement
      blockBody statement .select) := inferInstance
  unfold caseClause atCaseElse
  rw [run_look_bind]
  cases hisElse : (s.stream.peekSignificant 0).kind == .keyword .case &&
      (s.stream.peekSignificant 1).kind == .keyword .else_ with
  | true =>
    rw [Bool.and_eq_true, beq_iff_eq, beq_iff_eq] at hisElse
    refine helse.stops hs ⟨hword, ?_⟩
    rw [hisElse.2]
    exact not_isBoundary_keyword _
  | false => exact htests.stops hs hword

/-- The clauses go on behind a clause, or end with the block. -/
theorem readsLine_afterClause {stop : Stop} (hs : s.InPlace tokens flat)
    (hline : stop ≠ .ownCloser → s.KnowsLine)
    (hcloser : stop = .ownCloser → s.AtWord ∧ s.OnCloser .select) :
    State.ReadsLine tokens flat ((afterClause stop).run s) := by
  unfold afterClause
  split
  next hstop => exact ⟨hs, fun _ => hline (by simpa using hstop)⟩
  next hstop =>
    obtain rfl : stop = .ownCloser := by simpa using hstop
    obtain ⟨hword, hcloser⟩ := hcloser rfl
    unfold atNext
    rw [run_look_bind]
    split
    next hend =>
      have hclose : blockEnd .ownCloser = closeBlock := rfl
      rw [hclose]
      refine readsLine_done (c := .pair) hs ⟨hword, hcloser.second_not_isBoundary
        fun first hfirst => ?_⟩
      obtain rfl : first = .keyword .case := by simpa [singleClosers] using hfirst
      simp [beq_iff_eq.mp hend]
    next => exact ⟨hs, nofun⟩

/-- A closer within a `Select` is read to the end of its line. -/
theorem readsLine_selectCloserPass {closer : Closer} (hs : s.InPlace tokens flat)
    (hstart : s.AtStart)
    (hcloser : Closer.ofKinds? (s.stream.peekSignificant 0).kind (s.stream.peekSignificant 1).kind =
      some closer) : State.ReadsLine tokens flat ((selectCloserPass statement closer).run s) := by
  unfold selectCloserPass
  split
  next hblock =>
    split
    next =>
      obtain ⟨hplace, hstopped⟩ := stops_caseClause statement hs hstart.atWord
      rw [run_bind]
      exact readsLine_afterClause hplace (fun _ => hstopped.1) hstopped.2
    next =>
      exact readsLine_afterClause hs (fun h => absurd rfl h) fun _ =>
        ⟨hstart.atWord, closer, hcloser, beq_iff_eq.mp hblock⟩
  next =>
    have hopen : ((blockIsOpen closer.block).run s).2 = s := rfl
    rw [run_bind, hopen]
    split
    next =>
      -- a closer starts with a keyword
      refine readsLine_missing _ _ hs (.of_next ?_ ?_)
      · rintro (hname | hname) <;> · rw [hname] at hcloser; cases hcloser
      · intro hcolon
        rw [hcolon] at hcloser
        cases hcloser
    next => exact readsLine_again (c := .start) hs hstart.atWord

instance : Proceeds .start .ended strayCaseLine := by unfold strayCaseLine; infer_instance

/-- One step through a `Select` reads a part of a line. -/
theorem readsLine_selectPass (hs : s.InPlace tokens flat) (u : Unit) :
    State.ReadsLine tokens flat ((selectPass statement u).run s) := by
  unfold selectPass current
  rw [run_look_bind]
  split
  next hend => exact readsLine_missing _ _ hs (.of_atEnd (beq_iff_eq.mp hend))
  next hend =>
    split
    next => exact readsLine_again (c := .any) hs trivial
    next hword =>
      rw [Bool.or_eq_true, not_or, Bool.not_eq_true, beq_iff_eq] at hword
      have hstart : s.AtStart := ⟨hword.1, hword.2, by simpa [State.AtEnd] using hend⟩
      unfold nextCloser?
      rw [run_look_bind]
      cases hcloser : Closer.ofKinds? (s.stream.peekSignificant 0).kind
          (s.stream.peekSignificant 1).kind with
      | some closer => exact readsLine_selectCloserPass hs hstart hcloser
      | none =>
        have hinside : (insideProcedure.run s).2 = s := rfl
        unfold closerOrLinePass atProcedureHeader
        rw [run_bind, hinside, run_look_bind]
        split
        next hheader =>
          rw [Bool.and_eq_true] at hheader
          exact readsLine_missing _ _ hs (hstart.knowsLine hheader.2)
        next => exact readsLine_again (c := .start) hs hstart.atWord

instance : Proceeds .start .ended (selectStatement statement) := by
  have hlines {c : Standing} :
      Proceeds c .ended (iterate (fun _ => ()) (selectPass statement) ()) :=
    proceeds_lines fun u hs => readsLine_selectPass hs u
  unfold selectStatement
  infer_instance

end

end

end LosslessBasic.Grammar
