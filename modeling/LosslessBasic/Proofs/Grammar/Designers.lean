import LosslessBasic.Proofs.Grammar.Lines

/-!
# Designer blocks are accounted for

A designer block starts with its word, or with the name that starts a group of properties; behind
the end of its header, only a closer starts with the word that closes it. The blocks nest, so each
is accounted for under every bound on the depth.
-/

namespace LosslessBasic

/-- Whether a tree is a token without meaning for the grammar. -/
def Tree.IsSpace : Tree → Prop
  | leaf t => t.kind.isTrivia = true
  | node .. => False

/-- A blank is space. -/
theorem Tree.isSpace_of_isBlank {n : Tree} (h : n.isBlank = true) : n.IsSpace := by
  cases n with
  | leaf t =>
    rw [Tree.isBlank] at h
    rw [Tree.IsSpace]
    cases hkind : t.kind with
    | trivia k => rfl
    | _ => rw [hkind] at h; cases h
  | node k a cs => cases h

namespace Grammar

/-! ## Headers -/

section

variable {L : Law}

instance : AddsOnly L Tree.IsSpace skipBlanks :=
  .mono (P := (·.isBlank = true)) inferInstance fun _ => Tree.isSpace_of_isBlank

instance : AddsOnly L Tree.IsSpace shiftLineBreak :=
  addsOnly_shiftLineBreak
    (fun t ht => by
      rw [Tree.IsSpace]
      cases hkind : t.kind <;> first | rfl | (rw [hkind] at ht; cases ht))
    fun t ht => by rw [Tree.IsSpace, ht]; rfl

instance : AddsOnly L Tree.IsSpace statementEnd := by unfold statementEnd; infer_instance

end

/-- Space starts no closer. -/
theorem startsCloser_of_isSpace {block : Block} {n : Tree} (h : n.IsSpace) :
    n.startsCloser block = false := by
  cases n with
  | leaf t => exact startsCloser_of_kind (.inl h)
  | node k a cs => rfl

/-- What is no token starts no closer. -/
theorem startsCloser_of_isToken_eq_false {n : Tree} (h : n.isToken = false) (block : Block) :
    n.startsCloser block = false := by
  cases n with
  | leaf t => cases h
  | node k a cs => rfl

/-- Whether a token starts a designer block. -/
def startsDesigner (t : Token) : Block → Bool
  | .designer => t.kind == .keyword .begin
  | .designerProperty => isNamed t "BeginProperty"
  | _ => false

section

variable {t : Token} {block : Block}

/-- What starts a designer block is no trivia, and ends no statement. -/
theorem kind_of_startsDesigner (h : startsDesigner t block = true) :
    t.kind = .keyword .begin ∧ block = .designer ∨
      t.kind = .lexeme .identifier ∧ block = .designerProperty ∧
        isNamed t "BeginProperty" = true := by
  unfold startsDesigner at h
  split at h
  · exact .inl ⟨beq_iff_eq.mp h, rfl⟩
  · have hnamed := h
    rw [isNamed, Bool.and_eq_true, beq_iff_eq] at h
    exact .inr ⟨h.1, rfl, hnamed⟩
  · cases h

/-- A word that starts a designer block ends no statement. -/
theorem endsStatement_of_startsDesigner (h : startsDesigner t block = true) (lineMode : Nat) :
    endsStatement t.kind lineMode = false := by
  rcases kind_of_startsDesigner h with ⟨hkind, -⟩ | ⟨hkind, -⟩ <;> rw [hkind] <;> rfl

/-- A word that starts a designer block is no inline trivia. -/
theorem isInlineTrivia_of_startsDesigner (h : startsDesigner t block = true) :
    t.kind.isInlineTrivia = false := by
  rcases kind_of_startsDesigner h with ⟨hkind, -⟩ | ⟨hkind, -⟩ <;> rw [hkind] <;> rfl

/-- The node around a designer block shows which one it is. -/
theorem block?_of_startsDesigner (h : startsDesigner t block = true) (a : Anchor) (ts : List Tree) :
    (Tree.above (.node .propertiesBlock) a (.leaf t :: ts)).block? = some block := by
  change some (if isNamed t "BeginProperty" then _ else _) = _
  rcases kind_of_startsDesigner h with ⟨hkind, rfl⟩ | ⟨-, rfl, hnamed⟩
  · rw [if_neg]
    rw [isNamed, hkind]
    simp
  · rw [if_pos hnamed]

end

/-- The header of a designer block, up to the end of its line. -/
def designerHeader : Production Unit := do
  shift
  shiftRest
  finishStatement

/-- Behind its header a designer block is underway. -/
theorem underway_designer {block : Block} {s : State}
    (hstarts : startsDesigner s.stream.current block = true) (hs : s.InnermostInRow) :
    ∃ front, Underway block s front (designerHeader.run s).2 ∧
      ∀ a more, (Tree.above (.node .propertiesBlock) a (front ++ more)).block? = some block := by
  have hend : ¬ s.AtEnd := by
    intro hend
    rcases kind_of_startsDesigner hstarts with ⟨hkind, -⟩ | ⟨hkind, -⟩ <;>
      rw [hend] at hkind <;> cases hkind
  have hshift : accountLaw.Holds s [.leaf s.stream.current] (shift.run s).2 := by
    rw [run_shift hend]
    exact ⟨.shifted hend, accountLaw.shift hend⟩
  have hrest : AddsOnly accountLaw (·.endsHeader = false) shiftRest := inferInstance
  obtain ⟨rest, hmoved, hrestKind⟩ := hrest.holds _ (hshift.1.innermostInRow hs)
  have hfront := hshift.trans hmoved
  have hended : (withinStatement.run (shiftRest.run (shift.run s).2).2).1 = false :=
    run_test_repeatWhile _
  have hrun :
      (designerHeader.run s).2 = (finishStatement.run (shiftRest.run (shift.run s).2).2).2 := rfl
  rw [hrun]
  generalize (shiftRest.run (shift.run s).2).2 = s' at hmoved hfront hended
  have hrow := hfront.1.innermostInRow hs
  -- nothing is left over of the statement, so that only trivia stands behind the header
  have hspace : AddsOnly accountLaw Tree.IsSpace statementEnd := inferInstance
  obtain ⟨ending, hending, hendingSpace⟩ := hspace.holds s' hrow
  rw [← run_finishStatement_of_ended hended] at hending
  obtain ⟨ending', hending', hheader⟩ := headerEnded_finishStatement (L := accountLaw) hrow
  obtain rfl := hending'.1.unique hending.1
  refine ⟨_, ⟨hfront.trans hending, fun n hn => ?_, hheader.append_left _⟩,
    fun a more => block?_of_startsDesigner hstarts a _⟩
  rw [Tree.behindHeader_append_of_not_endsHeader] at hn
  · exact startsCloser_of_isSpace (hendingSpace n (Tree.behindHeader_subset _ hn))
  · intro m hm
    rcases List.mem_append.mp hm with hm | hm
    · rw [List.mem_singleton.mp hm]
      exact endsStatement_of_startsDesigner hstarts 0
    · exact hrestKind m hm

/-! ## Lines -/

/-- A production that reads designer blocks, where one starts. -/
def ReadsDesigner (inner : Block → Production Unit) : Prop :=
  ∀ block s, s.InnermostInRow → startsDesigner s.stream.current block = true →
    ∃ n, accountLaw.Holds s [n] ((inner block).run s).2 ∧ ∀ block, n.startsCloser block = false

/-- At its closer a designer block is finished. -/
theorem leadsThrough_designerEnd {block : Block} {s₀ s : State} {trees : List Tree}
    (hblock : block = .designer ∨ block = .designerProperty) (hs : s₀.InnermostInRow)
    (h : Underway block s₀ trees s) (hend : ((atDesignerEnd block).run s).1 = true) :
    LeadsThrough block s₀ trees ((do shiftNext; finishStatement; return Pass.done () :
      Production (Pass Unit Unit)).run s) := by
  obtain ⟨test, hwords, htest, hkind⟩ : ∃ test, block.closerWords = [test] ∧
      test (s.stream.peekSignificant 0) = true ∧
        ((s.stream.peekSignificant 0).kind = .keyword .end_ ∨
          (s.stream.peekSignificant 0).kind = .lexeme .identifier) := by
    rcases hblock with rfl | rfl
    · change (_ && _) = true at hend
      rw [Bool.and_eq_true] at hend
      exact ⟨_, rfl, hend.1, .inl (beq_iff_eq.mp hend.1)⟩
    · change isNamed _ _ = true at hend
      refine ⟨_, rfl, hend, .inr ?_⟩
      rw [isNamed, Bool.and_eq_true, beq_iff_eq] at hend
      exact hend.1
  obtain ⟨rest, hfinishes⟩ := h.closed (by rcases hkind with hkind | hkind <;> rw [hkind] <;> rfl)
    (closes_shiftNext finishStatement (h.holds.1.innermostInRow hs) hwords htest
      (by rcases hkind with hkind | hkind <;> rw [hkind] <;> rfl)
    (by rcases hkind with hkind | hkind <;> rw [hkind] <;> simp))
  have hrun :
      (do shiftNext; finishStatement; return Pass.done () : Production (Pass Unit Unit)).run s =
      (.done (), ((shiftNext >>= fun _ => finishStatement).run s).2) := by
    simp only [run_bind, run_pure]
  rw [hrun]
  exact .inr ⟨(), rest, rfl, hfinishes⟩

/-- Which designer block starts at the cursor is asked of the token there. -/
theorem run_designerBlock? (s : State) :
    designerBlock?.run s = (if startsDesigner s.stream.current .designer then some .designer
      else if startsDesigner s.stream.current .designerProperty then some .designerProperty else
        none, s) := by
  unfold designerBlock? current
  rw [run_look_bind]
  unfold startsDesigner
  dsimp only
  split
  · rfl
  · split <;> rfl

/-- What starts a designer block starts no closer. -/
theorem startsCloser_of_startsDesigner {t : Token} {block : Block}
    (h : startsDesigner t block = true)
    (block' : Block) : (Tree.leaf t).startsCloser block' = false := by
  have hword {word : Keyword} (hclose : (Kind.keyword word).closes = true) :
      t.isWord word = false := by
    refine beq_eq_false_iff_ne.mpr fun hword => ?_
    rcases kind_of_startsDesigner h with ⟨hkind, -⟩ | ⟨hkind, -⟩
    · obtain rfl := Kind.keyword.inj (hword.symm.trans hkind)
      cases hclose
    · cases hword.symm.trans hkind
  have hname : isNamed t "EndProperty" = false := by
    rw [isNamed, Bool.and_eq_false_iff]
    rcases kind_of_startsDesigner h with ⟨hkind, -⟩ | ⟨-, -, hnamed⟩
    · exact .inl (by rw [hkind]; rfl)
    · -- the two names differ in length
      rw [isNamed, Bool.and_eq_true] at hnamed
      refine .inr (Bool.eq_false_iff.mpr fun hend => ?_)
      have hsame := (beq_iff_eq.mp hnamed.2).symm.trans (beq_iff_eq.mp hend)
      exact absurd (congrArg List.length hsame) (by decide)
  cases block' <;> first | exact hword rfl | exact hname

/-- A line with the value of a property is a node, and possibly the colon behind it. -/
theorem holds_propertyAssignment {s : State} (hs : s.InnermostInRow) :
    ∃ trees, accountLaw.Holds s trees (propertyAssignment.run s).2 ∧
      (∀ block, ∀ n ∈ trees, n.startsCloser block = false) ∧ ∃ n ∈ trees, n.endsHeader = true := by
  have hline : Obeys accountLaw (do shift; shiftRest; finishStatement) := inferInstance
  obtain ⟨n, hnode, hn⟩ : ∃ n, n.isToken = false ∧
      accountLaw.Holds s [n] ((rawStatement .propertyAssignment).run s).2 := by
    obtain ⟨trees, h⟩ := hline.holds _ (State.innermostInRow_opening s .propertyAssignment)
    exact ⟨_, isToken_above _ _ _, h.closing_opening hs fun a =>
      accountLaw.node .propertyAssignment a rfl⟩
  have hclosed := startsCloser_of_isToken_eq_false hnode
  have hends := endsHeader_of_isToken_eq_false hnode
  unfold propertyAssignment atCurrent
  rw [run_bind, run_look_bind]
  generalize ((rawStatement .propertyAssignment).run s).2 = t at hn
  split
  next hkind =>
    obtain ⟨colon, hshift, hcolon⟩ := holds_shift (L := accountLaw) t
    refine ⟨_, hn.trans hshift, fun block m hm => ?_, n, List.mem_cons_self, hends⟩
    rcases List.mem_append.mp hm with hm | hm
    · rw [List.mem_singleton.mp hm]
      exact hclosed block
    · rw [hcolon m hm]
      exact startsCloser_of_kind (.inr (beq_iff_eq.mp hkind))
  next =>
    exact ⟨_, hn, by simpa using hclosed, n, List.mem_cons_self, hends⟩

/-- A line of a designer block leads through it. -/
theorem leadsThrough_designerPass {inner : Block → Production Unit} {block : Block} {s₀ s : State}
    {trees : List Tree} (hinner : ReadsDesigner inner)
    (hblock : block = .designer ∨ block = .designerProperty) (hs : s₀.InnermostInRow)
    (h : Underway block s₀ trees s) (u : Unit) :
    LeadsThrough block s₀ trees ((designerPass inner block u).run s) := by
  have hrow := h.holds.1.innermostInRow hs
  unfold designerPass current
  rw [run_look_bind]
  split
  · exact leadsThrough_missing h
  split
  next hkind => exact leadsThrough_between h (by rw [hkind]; rfl)
  have htest : ((atDesignerEnd block).run s).2 = s := rfl
  rw [run_bind, htest]
  split
  next hend => exact leadsThrough_designerEnd hblock hs h hend
  rw [run_bind, run_designerBlock?]
  -- both sorts of inner block are read by `inner`
  have hopened (opened : Block) (hopened : startsDesigner s.stream.current opened = true) :
      LeadsThrough block s₀ trees
        ((inner opened >>= fun _ => (pure (.again ()) : Production (Pass Unit Unit))).run s) := by
    obtain ⟨n, hn, hunclosed⟩ := hinner opened s hrow hopened
    refine .inl ⟨(), [n], rfl, h.inner hn (by simpa using hunclosed block) (h.ended ?_)⟩
    rw [TokenStream.peekSignificant_zero (isInlineTrivia_of_startsDesigner hopened)]
    exact endsStatement_of_startsDesigner hopened _
  split
  next hdesigner => exact hopened _ hdesigner
  split
  next hgroup => exact hopened _ hgroup
  next =>
    obtain ⟨more, hmore, hunclosed, hnode⟩ := holds_propertyAssignment hrow
    rw [blockOrProperty, run_bind, run_pure]
    exact .inl ⟨(), more, rfl, h.line hmore (hunclosed block) hnode⟩

/-- Under every bound on the depth designer blocks are accounted for. -/
theorem readsDesigner_designerUpTo (depth : Nat) : ReadsDesigner (designerUpTo depth) := by
  induction depth with
  | zero =>
    intro block s hs hstarts
    have hend : ¬ s.AtEnd := by
      intro hend
      rcases kind_of_startsDesigner hstarts with ⟨hkind, -⟩ | ⟨hkind, -⟩ <;> rw [hend] at hkind <;>
        cases hkind
    unfold designerUpTo
    rw [run_shift hend]
    exact ⟨_, ⟨.shifted hend, accountLaw.shift hend⟩, startsCloser_of_startsDesigner hstarts⟩
  | succ depth ih =>
    intro block s hs hstarts
    have hblock : block = .designer ∨ block = .designerProperty := by
      rcases kind_of_startsDesigner hstarts with ⟨-, h⟩ | ⟨-, h, -⟩
      · exact .inl h
      · exact .inr h
    have hrow := State.innermostInRow_opening s .propertiesBlock
    have hdesigner : designerUpTo (depth + 1) block = within .propertiesBlock
        (designerHeader >>= fun _ =>
          iterate (fun _ => ()) (designerPass (designerUpTo depth) block) ()) := by
      rw [designerUpTo]
      unfold designerHeader
      simp only [bind_assoc]
    have hlines := holds_lines hs (underway_designer hstarts hrow) fun u trees t ht =>
      leadsThrough_designerPass ih hblock hrow ht u
    obtain ⟨n, hnode, h⟩ := hlines
    rw [hdesigner]
    exact ⟨n, h, startsCloser_of_isToken_eq_false hnode⟩

instance : Begins accountLaw where
  holds s hs hkind := by
    obtain ⟨n, h, -⟩ := readsDesigner_designerUpTo (s.stream.remaining + 1) .designer s hs
      (beq_iff_eq.mpr hkind)
    unfold designerStatement
    rw [run_look_bind]
    exact ⟨_, h⟩

/-- Statements of every depth have their blocks accounted for. -/
instance (depth : Nat) : Obeys accountLaw (statementUpTo depth) := by
  induction depth with
  | zero => unfold statementUpTo; infer_instance
  | succ depth ih => unfold statementUpTo; infer_instance

end Grammar

end LosslessBasic
