import LosslessBasic.Proofs.Grammar.PartsAlike

/-!
# Statements go on alike

The pass of `Alike` from the declarations to the statements. Lists of statements, of members and of
lines move blanks one at a time, so their passes are compared where no blank stands at the cursor
(`MovesBlank`). An `Else` behind the `Else` body of a block is moved where the body has stopped,
which is at a token that is no blank (`State.AtOwnCloser`).
-/

namespace LosslessBasic.Grammar

set_option synthInstance.maxSize 65536

variable {V : View} {onSolid : Bool}

/-! ## Declarations -/

instance : Alike V onSolid (do return Lookahead.isModifier (← nextKind))
    (do return Lookahead.isModifier (← nextKind)) := .of_nextKinds fun k _ => Lookahead.isModifier k

instance : Alike V false shiftModifiers shiftModifiers := by unfold shiftModifiers; infer_instance

instance : Alike V false shiftDeclarator shiftDeclarator := by
  unfold shiftDeclarator
  infer_instance

section

variable {item : Production Unit} [Composed false item] [Alike V false item item]

instance (u u' : Unit) : Alike V false (groupPass item u) (groupPass item u') := by
  unfold groupPass
  infer_instance

instance (k : NodeKind) : Alike V false (group k item) (group k item) := by
  unfold group
  infer_instance

end

instance : Alike V false arrayBound arrayBound := by unfold arrayBound; infer_instance

instance : Alike V false arrayBounds arrayBounds := by unfold arrayBounds; infer_instance

instance : Alike V false asClause asClause := by unfold asClause; infer_instance

instance : Alike V false optionalAsClause optionalAsClause := by
  unfold optionalAsClause
  infer_instance

instance : Alike V false optionalArrayBounds optionalArrayBounds := by
  unfold optionalArrayBounds
  infer_instance

instance (value : Production Unit) [Alike V false value value] :
    Alike V false (declaration value) (declaration value) := by
  unfold declaration
  infer_instance

instance : Alike V false variableDeclaration variableDeclaration := by
  unfold variableDeclaration
  infer_instance

instance : Alike V false constantDeclaration constantDeclaration := by
  unfold constantDeclaration
  infer_instance

instance : Alike V false parameter parameter := by unfold parameter; infer_instance

instance : Alike V false optionalParameterList optionalParameterList := by
  unfold optionalParameterList
  infer_instance

instance : Alike V false dimStatement dimStatement := by unfold dimStatement; infer_instance

instance : Alike V false constStatement constStatement := by unfold constStatement; infer_instance

instance : Alike V true reDimStatement reDimStatement := by unfold reDimStatement; infer_instance

instance : Alike V true eraseStatement eraseStatement := by unfold eraseStatement; infer_instance

instance : Alike V false externalSignature externalSignature := by
  unfold externalSignature
  infer_instance

instance : Alike V false declareStatement declareStatement := by
  unfold declareStatement
  infer_instance

instance : Alike V false eventStatement eventStatement := by unfold eventStatement; infer_instance

instance : Alike V true implementsStatement implementsStatement := by
  unfold implementsStatement
  infer_instance

/-! ### Members -/

instance : Alike V onSolid atProcedureHeader atProcedureHeader :=
  .of_look fun _ _ hs _ => hs.tokens.startsProcedure_eq

instance (closer : Keyword) : Alike V onSolid (atCloser closer) (atCloser closer) :=
  .of_nextKinds fun k l => k == .keyword .end_ && l == .keyword closer

instance (k : NodeKind) (details : Production Unit) [Alike V false details details] :
    Alike V false (member k details) (member k details) := by
  unfold member
  infer_instance

instance : Alike V false typeMember typeMember := by unfold typeMember; infer_instance

instance : Alike V false enumMember enumMember := by unfold enumMember; infer_instance

instance : Alike V onSolid (look (·.peekSignificant 1)) (look (·.peekSignificant 1)) :=
  .of_look fun _ _ hs _ => hs.tokens.peekSignificant 1

instance : Alike V false closeBlock closeBlock := by unfold closeBlock; infer_instance

/-- Where no blank stands at the cursor, whether a token has been moved is seen of the trees that
have been added. -/
theorem remaining_eq_iff {s t : State} {trees : List Tree} (h : s.Adds trees t) (hs : s.OnSolid) :
    t.stream.remaining = s.stream.remaining ↔ Tree.leavesAll (V.trees trees) = [] := by
  have hlength := congrArg List.length h.rest
  rw [List.length_append, TokenStream.length_rest, TokenStream.length_rest] at hlength
  rw [View.leavesAll_trees]
  cases hleaves : Tree.leavesAll trees with
  | nil =>
    rw [hleaves, List.length_nil] at hlength
    exact ⟨fun _ => rfl, fun _ => by omega⟩
  | cons u us =>
    have hcurrent : s.stream.current = u := by
      have hrest := h.rest
      rw [hleaves] at hrest
      exact (List.cons.inj hrest).1
    have hseen : V.token? u ≠ none := fun hnone => by
      have hblank := V.isInlineTrivia_of_none hnone
      rw [← hcurrent, hs] at hblank
      cases hblank
    obtain ⟨v, hv⟩ := Option.ne_none_iff_exists'.mp hseen
    rw [hleaves, List.length_cons] at hlength
    rw [List.filterMap_cons_some hv]
    exact ⟨fun h => by omega, nofun⟩

instance {item : Production Unit} [hcomposed : Composed false item]
    [hitem : Alike V true item item] :
    Alike V true (memberOrToken item) (memberOrToken item) where
  leads {s s'} hs hsolid := by
    have hleads := hitem.leads hs hsolid
    obtain ⟨trees, trees', hadds, hadds', heq⟩ := hleads.adds
    have hstay : (item.run s).2.stream.remaining = s.stream.remaining ↔
        (item.run s').2.stream.remaining = s'.stream.remaining := by
      rw [remaining_eq_iff hadds (hsolid rfl),
        remaining_eq_iff hadds' (hs.onSolid (hsolid rfl)), heq]
    have hrun (s : State) : (memberOrToken item).run s = StateT.run
        (if (item.run s).2.stream.remaining == s.stream.remaining then within .unknown shift
          else pure ()) (item.run s).2 := rfl
    rw [hrun, hrun]
    by_cases hmoved : (item.run s).2.stream.remaining = s.stream.remaining
    · have hunknown : Alike V true (within .unknown shift) (within .unknown shift) := inferInstance
      have hon : (item.run s).2.OnSolid := by
        have hrest := hcomposed.stream_eq_of_remaining_eq hmoved
        rw [State.OnSolid, TokenStream.current_eq_of_rest_eq hrest]
        exact hsolid rfl
      rw [if_pos (beq_iff_eq.mpr hmoved), if_pos (beq_iff_eq.mpr (hstay.mp hmoved))]
      exact .trans hleads.adds (hunknown.leads hleads.state fun _ => hon)
    · rw [if_neg (mt beq_iff_eq.mp hmoved), if_neg (mt beq_iff_eq.mp (mt hstay.mpr hmoved))]
      exact .trans hleads.adds (hleads.state.leads rfl)

section

variable {block : Block} {closer : Keyword} {item : Production Unit}

instance : MovesBlank (memberPass block closer item) where
  run_eq u s h := by
    unfold memberPass current
    rw [run_look_bind, Kind.not_endOfFile_of_isInlineTrivia h, Kind.isTrivia_of_isInlineTrivia h,
      if_neg Bool.false_ne_true, Bool.true_or, if_pos rfl, run_bind,
      run_shift (not_atEnd_of_blank h)]
    rfl

variable [Composed false item] [Alike V true item item]

instance (u u' : Unit) : Alike V true (memberPass block closer item u)
    (memberPass block closer item u') := by
  unfold memberPass
  refine .of_current_solid fun x hkind => ?_
  rw [hkind]
  infer_instance

instance : Alike V onSolid (memberBlock block closer item) (memberBlock block closer item) := by
  unfold memberBlock
  exact .of_movesBlank (fun _ _ _ => inferInstance) rfl

end

instance : Alike V false typeStatement typeStatement := by unfold typeStatement; infer_instance

instance : Alike V false enumStatement enumStatement := by unfold enumStatement; infer_instance

/-! ## Simple statements -/

instance : Alike V false assignment assignment := by unfold assignment; infer_instance

instance : Alike V false assignmentStatement assignmentStatement := by
  unfold assignmentStatement
  infer_instance

instance (k : NodeKind) : Alike V true (wordedAssignment k) (wordedAssignment k) := by
  unfold wordedAssignment
  infer_instance

instance : Alike V false call call := by unfold call; infer_instance

instance : Alike V false callStatement callStatement := by unfold callStatement; infer_instance

instance : Alike V true callKeywordStatement callKeywordStatement := by
  unfold callKeywordStatement
  infer_instance

instance : Alike V true raiseEventStatement raiseEventStatement := by
  unfold raiseEventStatement
  infer_instance

instance (k : NodeKind) : Alike V true (wordStatement k) (wordStatement k) := by
  unfold wordStatement
  infer_instance

instance : Alike V false label label := by unfold label; infer_instance

instance (k : NodeKind) : Alike V true (jumpStatement k) (jumpStatement k) := by
  unfold jumpStatement
  infer_instance

instance : Alike V true resumeStatement resumeStatement := by unfold resumeStatement; infer_instance

instance : Alike V false exitTarget exitTarget := by unfold exitTarget; infer_instance

instance : Alike V true exitStatement exitStatement := by unfold exitStatement; infer_instance

instance : Alike V true onErrorStatement onErrorStatement := by
  unfold onErrorStatement
  infer_instance

instance : Alike V true onJumpStatement onJumpStatement := by unfold onJumpStatement; infer_instance

instance : Still secondKind := ⟨fun _ => rfl⟩

instance : Alike V true onStatement onStatement := by unfold onStatement; infer_instance

instance : Alike V onSolid (look Lookahead.startsAssignment) (look Lookahead.startsAssignment) :=
  .of_look fun _ _ hs _ => hs.tokens.startsAssignment_eq

instance : Alike V true lineStatement lineStatement := by unfold lineStatement; infer_instance

instance : Alike V true atLabel atLabel := by
  unfold atLabel
  refine ⟨fun {s s'} hs hsolid => ?_⟩
  have hpeek :
      ((s.stream.peek 1).kind == .lexeme .colon) = ((s'.stream.peek 1).kind == .lexeme .colon) :=
    (hs.tokens.peek_one (hsolid rfl)).kind.apply_eq (· == .lexeme .colon) rfl
  rw [run_bind, run_bind, run_get, run_get]
  dsimp only
  rw [← hs.lastSeparator, ← hs.kind_eq (hsolid rfl), ← hpeek]
  split <;> exact hs.leads rfl

instance : Alike V true labelStatement labelStatement := by unfold labelStatement; infer_instance

instance : Alike V true unknownStatement unknownStatement := by
  unfold unknownStatement
  infer_instance

instance : Alike V true unexpectedStatement unexpectedStatement := by
  unfold unexpectedStatement
  refine .of_current_solid fun x hkind => ?_
  rw [hkind]
  infer_instance

/-! ## Designer blocks -/

instance (block : Block) : Alike V onSolid (atDesignerEnd block) (atDesignerEnd block) :=
  .of_look fun s s' hs _ => by
    rw [(hs.tokens.peekSignificant 0).isNamed_eq, hs.tokens.kind_peekSignificant 0,
      hs.tokens.kind_peekSignificant 1]
    rfl

instance : Alike V onSolid designerBlock? designerBlock? where
  leads {s s'} hs _ := by
    have hbegin : (s.stream.current.kind == .keyword .begin) =
        (s'.stream.current.kind == .keyword .begin) :=
      hs.tokens.current.kind.apply_eq (· == .keyword .begin) rfl
    unfold designerBlock? current
    rw [run_look_bind, run_look_bind, hbegin, hs.tokens.current.isNamed_eq]
    split
    · exact hs.leads rfl
    · split <;> exact hs.leads rfl

instance : Still designerBlock? where
  stream_eq s := by
    unfold designerBlock? current
    rw [run_look_bind]
    split
    · rfl
    · split <;> rfl

instance : Alike V true propertyAssignment propertyAssignment := by
  unfold propertyAssignment
  infer_instance

section

variable {inner : Block → Production Unit}

instance {block : Block} : MovesBlank (designerPass inner block) where
  run_eq u s h := by
    unfold designerPass current
    rw [run_look_bind, Kind.not_endOfFile_of_isInlineTrivia h, Kind.isTrivia_of_isInlineTrivia h,
      if_neg Bool.false_ne_true, if_pos rfl, run_bind, run_shift (not_atEnd_of_blank h)]
    rfl

variable [∀ block, Alike V true (inner block) (inner block)]

instance (block? : Option Block) :
    Alike V true (blockOrProperty inner block?) (blockOrProperty inner block?) := by
  cases block? <;> unfold blockOrProperty <;> infer_instance

instance (block : Block) (u u' : Unit) : Alike V true (designerPass inner block u)
    (designerPass inner block u') := by
  unfold designerPass
  refine .of_current_solid fun x hkind => ?_
  rw [hkind]
  infer_instance

end

instance (depth : Nat) (block : Block) :
    Alike V true (designerUpTo depth block) (designerUpTo depth block) := by
  induction depth generalizing block with
  | zero => unfold designerUpTo; infer_instance
  | succ depth ih =>
    have hlines : Alike V false (iterate (fun _ => ()) (designerPass (designerUpTo depth) block) ())
        (iterate (fun _ => ()) (designerPass (designerUpTo depth) block) ()) :=
      .of_movesBlank (fun _ _ _ => inferInstance) rfl
    unfold designerUpTo
    infer_instance

instance : Alike V true designerStatement designerStatement where
  leads {s s'} hs hsolid := by
    obtain ⟨n, hn, hn'⟩ : ∃ n, s.stream.remaining ≤ n ∧ s'.stream.remaining ≤ n :=
      ⟨max s.stream.remaining s'.stream.remaining, Nat.le_max_left _ _, Nat.le_max_right _ _⟩
    have hagree : AgreeUpTo n (designerUpTo (n + 1) .designer) (designerBlock .designer) :=
      agreeUpTo_designerBlock (Nat.lt_succ_self n) .designer
    change Leads V s s' ((designerBlock .designer).run s) ((designerBlock .designer).run s')
    rw [← hagree.run_eq s (.inr hn), ← hagree.run_eq s' (.inr hn')]
    exact Alike.leads hs hsolid

end LosslessBasic.Grammar
