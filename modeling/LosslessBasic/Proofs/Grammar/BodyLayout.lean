import LosslessBasic.Proofs.Grammar.Layout

/-!
# Lists of statements

A list of statements adds its items, and a statement that holds other statements adds a node with
its layout when the statements within it do. `AddsOnlyFromStart` speaks of what is read where a
statement starts.
-/

namespace LosslessBasic

/-- Part of a list of statements, with its layout. -/
structure Tree.IsLaidItem (n : Tree) : Prop where
  laidOut : n.LaidOut
  isItem : n.IsItem

/-- A blank stands where it likes in a list. -/
theorem Tree.IsLaidItem.of_isBlank {n : Tree} (h : n.isBlank = true) : n.IsLaidItem := by
  cases n with
  | leaf t => exact ⟨trivial, .inl (Kind.isTrivia_of_isInlineTrivia h)⟩
  | node k a cs => cases h

namespace Grammar

set_option synthInstance.maxSize 65536

/-! ## What is added -/

/-- Between two states trees have been added of each of which `P` holds. -/
def State.AddsAll (P : Tree → Prop) (s t : State) : Prop :=
  ∃ trees, s.Adds trees t ∧ ∀ n ∈ trees, P n

variable {P Q : Tree → Prop} {s t u : State}

/-- Two productions that add such trees do so together. -/
theorem State.AddsAll.trans (h : s.AddsAll P t) (h' : t.AddsAll P u) : s.AddsAll P u := by
  obtain ⟨trees, hadds, htrees⟩ := h
  obtain ⟨more, hadds', hmore⟩ := h'
  exact ⟨_, hadds.trans hadds', List.forall_mem_append.mpr ⟨htrees, hmore⟩⟩

/-- Trees of which more is known are such of which less is asked. -/
theorem State.AddsAll.mono (h : s.AddsAll P t) (hPQ : ∀ n, P n → Q n) : s.AddsAll Q t := by
  obtain ⟨trees, hadds, htrees⟩ := h
  exact ⟨trees, hadds, fun n hn => hPQ n (htrees n hn)⟩

/-- A single such tree has been added. -/
theorem State.AddsAll.of_adds {n : Tree} (h : s.Adds [n] t) (hn : P n) : s.AddsAll P t :=
  ⟨_, h, by simpa using hn⟩

/-- Where trees are added the innermost open node still starts in the row. -/
theorem State.AddsAll.innermostInRow (h : s.AddsAll P t) (hs : s.InnermostInRow) :
    t.InnermostInRow := by
  obtain ⟨trees, hadds, -⟩ := h
  exact hadds.innermostInRow hs

section

variable {α β : Type} {p q : Production α}

/-- To add only such trees is to do so from every state. -/
theorem addsOnly_iff :
    AddsOnly .any P p ↔ ∀ s : State, s.InnermostInRow → s.AddsAll P (p.run s).2 := by
  constructor
  · intro h s hs
    obtain ⟨trees, hholds, htrees⟩ := h.holds s hs
    exact ⟨trees, hholds.1, htrees⟩
  · intro h
    refine ⟨fun s hs => ?_⟩
    obtain ⟨trees, hadds, htrees⟩ := h s hs
    exact ⟨trees, ⟨hadds, trivial⟩, htrees⟩

/-- A production that adds only such trees adds such trees here. -/
theorem AddsOnly.addsAll (h : AddsOnly .any P p) (hs : s.InnermostInRow) :
    s.AddsAll P (p.run s).2 :=
  addsOnly_iff.mp h s hs

instance (loops : Nat) : AddsOnly .any P (setPendingNext loops) where
  holds _ _ := ⟨[], ⟨.of_silent rfl rfl rfl rfl rfl, trivial⟩, by simp⟩

instance {block : Block} [h : AddsOnly .any P p] : AddsOnly .any P (inBlock block p) where
  holds s hs := by
    obtain ⟨trees, hholds, htrees⟩ := h.holds { s with blocks := block :: s.blocks } hs
    exact ⟨trees, ⟨hholds.1.inBlock, trivial⟩, htrees⟩

instance {target : Option Tree} [h : AddsOnly .any P p] : AddsOnly .any P (inWith target p) where
  holds s hs := by
    obtain ⟨trees, hholds, htrees⟩ := h.holds { s with withTargets := target :: s.withTargets } hs
    exact ⟨trees, ⟨hholds.1.inWith, trivial⟩, htrees⟩

instance [h : AddsOnly .any P p] : AddsOnly .any P (onOneLine p) where
  holds s hs := by
    obtain ⟨trees, hholds, htrees⟩ := h.holds { s with lineMode := s.lineMode + 1 } hs
    exact ⟨trees, ⟨hholds.1.onOneLine, trivial⟩, htrees⟩

instance {exhausted : α → β} {pass : α → Production (Pass α β)} [h : ∀ a, AddsOnly .any P (pass a)]
    (n : Nat) (a : α) : AddsOnly .any P (iterateUpTo exhausted pass n a) := by
  induction n generalizing a with
  | zero => unfold iterateUpTo; infer_instance
  | succ n ih =>
    have hrest (r : Pass α β) : AddsOnly .any P (match r with
        | .again a => iterateUpTo exhausted pass n a
        | .done b => pure b) := by
      cases r with
      | again a => exact ih a
      | done b => dsimp only; infer_instance
    unfold iterateUpTo
    infer_instance

instance {exhausted : α → β} {pass : α → Production (Pass α β)}
    [∀ a, AddsOnly .any P (pass a)] (a : α) :
    AddsOnly .any P (iterate exhausted pass a) := by
  unfold iterate
  infer_instance

/-- A production that adds only trees of which `P` holds where a statement starts. -/
class AddsOnlyFromStart (P : Tree → Prop) {α : Type} (p : Production α) : Prop where
  holds (s : State) : s.InnermostInRow → s.AtStart → s.AddsAll P (p.run s).2

instance [h : AddsOnly .any P p] : AddsOnlyFromStart P p where
  holds _ hs _ := h.addsAll hs

instance {f : α → Production β} [AddsNone p] [hf : ∀ a, AddsOnlyFromStart P (f a)] :
    AddsOnlyFromStart P (p >>= f) where
  holds s hs hstart := by
    have hnone := AddsNone.adds (p := p) hs
    have hstart' := hstart.of_rest_eq (by simpa [Tree.leavesAll] using hnone.rest.symm)
    obtain ⟨trees, hadds, htrees⟩ := (hf _).holds _ (hnone.innermostInRow hs) hstart'
    exact ⟨trees, hnone.trans hadds, htrees⟩

instance {f : α → Production β} [hp : AddsOnlyFromStart P p] [hf : ∀ a, AddsOnly .any P (f a)] :
    AddsOnlyFromStart P (p >>= f) where
  holds s hs hstart := by
    have h := hp.holds s hs hstart
    exact h.trans ((hf _).addsAll (h.innermostInRow hs))

instance {c : Prop} [Decidable c] [AddsOnlyFromStart P p] [AddsOnlyFromStart P q] :
    AddsOnlyFromStart P (if c then p else q) := by
  split <;> infer_instance

/-! ## Statements as parts of lists -/

/-- What has moved a token has added one. -/
theorem State.Adds.leaves_ne_nil {n : Tree} (h : s.Adds [n] t)
    (hlt : t.stream.remaining < s.stream.remaining) : n.leaves ≠ [] := by
  intro hnil
  have hrest := h.rest
  rw [Tree.leavesAll, hnil, Tree.leavesAll, List.nil_append, List.nil_append, TokenStream.rest,
    TokenStream.rest] at hrest
  rw [TokenStream.remaining_eq, TokenStream.remaining_eq, (List.cons.inj hrest).2] at hlt
  exact Nat.lt_irrefl _ hlt

/-- A statement that is read where it starts is part of a list. -/
theorem State.AddsStatement.addsAll (h : s.AddsStatement t) (hstart : s.AtStart)
    (hlt : t.stream.remaining < s.stream.remaining) : s.AddsAll Tree.IsLaidItem t := by
  obtain ⟨n, hadds, hlaid, hstatement⟩ := h
  refine .of_adds hadds ⟨hlaid, ?_⟩
  cases hleaves : n.leaves with
  | nil => exact absurd hleaves (hadds.leaves_ne_nil hlt)
  | cons u us =>
    have hrest := hadds.rest
    rw [Tree.leavesAll, hleaves, TokenStream.rest, List.cons_append, List.cons_append] at hrest
    exact hstatement.isItem hleaves ((List.cons.inj hrest).1 ▸ hstart.isTrivia)

instance [h : LaysStatement p] [hadvances : Advances p] : AddsOnlyFromStart Tree.IsLaidItem p where
  holds s hs hstart :=
    (h.holds s hs hstart).addsAll hstart (hadvances.remaining_lt s hstart.not_atEnd)

/-- A production that adds trees with their layouts. -/
abbrev Lays {α : Type} (p : Production α) : Prop := AddsOnly .any Tree.LaidOut p

instance [h : AddsOnly .any (·.isToken = true) p] : Lays p :=
  h.mono fun _ => Tree.laidOut_of_isToken

instance [h : AddsLine p] : Lays p :=
  addsOnly_iff.mpr fun s hs => by
    obtain ⟨trees, hadds, hlaid, -⟩ := h.holds s hs
    exact ⟨trees, hadds, Tree.laidOutAll_iff.mp hlaid⟩

instance [h : LaysStatement p] : AddsOnlyFromStart Tree.LaidOut p where
  holds s hs hstart := by
    obtain ⟨n, hadds, hlaid, -⟩ := h.holds s hs hstart
    exact .of_adds hadds hlaid

instance {k : NodeKind} [hk : IsTrue k.isFrame] [h : Lays p] : Lays (within k p) :=
  addsOnly_iff.mpr fun s hs => by
    obtain ⟨trees, hadds, hlaid⟩ := h.addsAll (State.innermostInRow_opening s k)
    exact .of_adds (hadds.closing_opening hs).1
      (Tree.laidOut_above (.of_isFrame hk.eq_true _) (Tree.laidOutAll_iff.mpr hlaid))

instance {k : NodeKind} [hk : IsTrue k.hasBody] [h : Lays p] : LaysStatement (within k p) where
  holds s hs _ := by
    obtain ⟨trees, hadds, hlaid⟩ := h.addsAll (State.innermostInRow_opening s k)
    exact ⟨_, (hadds.closing_opening hs).1,
      Tree.laidOut_above (.of_isFrame (NodeKind.isFrame_of_hasBody hk.eq_true) _)
        (Tree.laidOutAll_iff.mpr hlaid),
      Tree.isStatement_above (NodeKind.isStatement_of_hasBody hk.eq_true) _ _⟩

/-- The node around a list of statements. -/
instance [h : AddsOnly .any Tree.IsLaidItem p] : Lays (within .statementList p) :=
  addsOnly_iff.mpr fun s hs => by
    obtain ⟨trees, hadds, hitems⟩ := h.addsAll (State.innermostInRow_opening s .statementList)
    refine .of_adds (hadds.closing_opening hs).1 (Tree.laidOut_above ⟨?_, nofun, nofun, nofun⟩
      (Tree.laidOutAll_iff.mpr fun n hn => (hitems n hn).laidOut))
    exact fun _ n hn => (hitems n hn).isItem

end

/-! ## Between statements -/

/-- A token that stands between statements is part of a list. -/
theorem addsAll_shift (hend : ¬ s.AtEnd)
    (hkind : s.stream.current.kind.isTrivia = true ∨ s.stream.current.kind = .lexeme .colon) :
    s.AddsAll Tree.IsLaidItem (shift.run s).2 := by
  rw [run_shift hend]
  exact .of_adds (.shifted hend) ⟨trivial, hkind⟩

/-- A token of trivia may be added to a list. -/
theorem addsAll_shiftTrivia (hs : s.InnermostInRow)
    (hkind : s.stream.current.kind.isTrivia = true) :
    s.AddsAll Tree.IsLaidItem (shiftTrivia.run s).2 := by
  have hend : ¬ s.AtEnd := Kind.ne_endOfFile_of (f := Kind.isTrivia) hkind rfl
  have hmoved := addsAll_shift hend (.inl hkind)
  have hrest (kind : Kind) : AddsOnly .any Tree.IsLaidItem
      (do if kind == .trivia .newline then setSeparator .lineBreak) := inferInstance
  exact hmoved.trans ((hrest s.stream.current.kind).addsAll (hmoved.innermostInRow hs))

/-- A node of unknown meaning around one token. -/
theorem addsAll_unknownToken (hs : s.InnermostInRow) (hend : ¬ s.AtEnd)
    (hkind : s.stream.current.kind.isTrivia = false) :
    s.AddsAll Tree.IsLaidItem ((within .unknown shift).run s).2 := by
  have hend' : ¬ (s.opening .unknown).AtEnd := hend
  have hrun := run_within (s := s) (p := shift) .unknown
  rw [run_shift hend'] at hrun
  rw [hrun]
  have hadds := (State.Adds.closing_opening hs (.shifted hend')).1
  have htoken : Tree.LaidOutAll [.leaf s.stream.current] := ⟨trivial, trivial⟩
  have hcolon (t : Token) (ht : t ∈ Tree.leavesAll [.leaf s.stream.current])
      (_ : t.kind = .lexeme .colon) :
      NodeKind.unknown = .labelStatement ∨
        NodeKind.unknown = .unknown ∧ Tree.leavesAll [.leaf s.stream.current] = [t] :=
    .inr ⟨rfl, by rw [List.mem_singleton.mp ht]; rfl⟩
  obtain ⟨hlaid, hstatement⟩ :=
    laidOut_line (k := .unknown) (a := (s.opening .unknown).shifted.builder.anchor)
    rfl htoken (isOneLine_singleton _) hcolon
  exact .of_adds hadds ⟨hlaid, hstatement.isItem (by rw [Tree.leaves_above]; rfl) hkind⟩

/-- A token that is reported is put under a node of unknown meaning. -/
theorem addsAll_reportedToken (problem : Problem) (hs : s.InnermostInRow) (hend : ¬ s.AtEnd)
    (hkind : s.stream.current.kind.isTrivia = false) :
    s.AddsAll Tree.IsLaidItem
      ((do report problem (← current); within .unknown shift : Production Unit).run s).2 := by
  have hreport : AddsNone (report problem s.stream.current) := inferInstance
  have hreported := hreport.addsAll hs
  rw [run_bind]
  exact (hreported.mono nofun).trans
    (addsAll_unknownToken (s := ((report problem s.stream.current).run s).2)
      (hreported.innermostInRow hs) hend hkind)

/-- A colon is part of the list, by itself or under a node of unknown meaning. -/
theorem addsAll_separator (hs : s.InnermostInRow) (hkind : s.stream.current.kind = .lexeme .colon) :
    s.AddsAll Tree.IsLaidItem (separator.run s).2 := by
  have hend : ¬ s.AtEnd := by simp [State.AtEnd, hkind]
  have hset : AddsOnly .any Tree.IsLaidItem (setSeparator .colon) := inferInstance
  unfold separator
  dsimp only
  rw [run_bind, run_get]
  dsimp only
  split
  · have hmoved := addsAll_shift hend (.inr hkind)
    exact hmoved.trans (hset.addsAll (hmoved.innermostInRow hs))
  · have hmoved := addsAll_reportedToken .straySeparator hs hend (by rw [hkind]; rfl)
    exact hmoved.trans (hset.addsAll (hmoved.innermostInRow hs))

/-! ## Lists -/

instance (t : Token) : AddsOnly .any P (reportMissingCloser t) := by
  have hreport (blocks : List Block) : AddsOnly .any P
      (match blocks with
        | [] => (pure () : Production Unit)
        | block :: _ => report (.missingCloser block t) t) := by
    cases blocks <;> dsimp only <;> infer_instance
  unfold reportMissingCloser
  infer_instance

instance (block : Block) : AddsOnly .any P (blockIsOpen block) := by
  unfold blockIsOpen
  infer_instance

instance : AddsOnly .any P insideProcedure := by unfold insideProcedure; infer_instance

instance : AddsOnly .any P atProcedureHeader := by unfold atProcedureHeader; infer_instance

instance : AddsOnly .any P nextCloser? := by unfold nextCloser?; infer_instance

instance : AddsOnly .any P current := by unfold current; infer_instance

instance : AddsOnly .any P writtenCloser := by unfold writtenCloser; infer_instance

instance (k : Kind) : AddsOnly .any P (atNext k) := by unfold atNext; infer_instance

instance : AddsOnly .any P secondKind := by unfold secondKind; infer_instance

instance (closer : Closer) : LaysStatementFromWord (strayCloser closer) := by
  unfold strayCloser
  infer_instance

/-- A line number in the place of a statement is one. -/
theorem addsAll_lineNumberJump (hs : s.InnermostInRow)
    (hnext : (s.stream.peekSignificant 0).kind = .lexeme .integerLiteral) :
    s.AddsAll Tree.IsLaidItem (lineNumberJump.run s).2 := by
  have hskip : AddsOnly .any (·.isBlank = true) skipBlanks := inferInstance
  have hblanks := (hskip.addsAll hs).mono fun _ => Tree.IsLaidItem.of_isBlank
  have hkind : (skipBlanks.run s).2.stream.current.kind = .lexeme .integerLiteral := by
    rw [current_skipBlanks, hnext]
  have hstart : (skipBlanks.run s).2.AtStart :=
    ⟨by rw [hkind]; rfl, by simp [hkind], by simp [State.AtEnd, hkind]⟩
  unfold lineNumberJump
  rw [run_bind]
  exact hblanks.trans (AddsOnlyFromStart.holds _ (hblanks.innermostInRow hs) hstart)

section

variable {statement : Production Unit} [LaysStatement statement] [Advances statement]

instance : AddsOnlyFromStart Tree.IsLaidItem (statementPass statement) := by
  unfold statementPass
  infer_instance

instance (closer : Closer) : AddsOnlyFromStart Tree.IsLaidItem (closerPass closer) := by
  unfold closerPass
  infer_instance

instance (closer? : Option Closer) :
    AddsOnlyFromStart Tree.IsLaidItem (closerOrStatementPass statement closer?) := by
  cases closer? <;> unfold closerOrStatementPass <;> dsimp only <;> infer_instance

/-- Away from the end of the source, a step through a list adds items. -/
theorem addsAll_listPass (hs : s.InnermostInRow) (hend : ¬ s.AtEnd) :
    s.AddsAll Tree.IsLaidItem ((listPass statement).run s).2 := by
  unfold listPass currentKind
  rw [run_look_bind]
  split
  next htrivia => exact addsAll_shiftTrivia hs htrivia
  next htrivia =>
    split
    next hcolon => exact addsAll_separator hs (beq_iff_eq.mp hcolon)
    next hcolon =>
      have hstart : s.AtStart := ⟨by simpa using htrivia, by simpa using hcolon, hend⟩
      exact AddsOnlyFromStart.holds
        (p := nextCloser? >>= closerOrStatementPass statement) s hs hstart

instance (u : Unit) : AddsOnly .any Tree.IsLaidItem (statementsPass statement u) :=
  addsOnly_iff.mpr fun s hs => by
    have hends (t : Token) (stop : Stop) : AddsOnly .any Tree.IsLaidItem
        (do reportMissingCloser t; return Pass.done (α := Unit) stop) := inferInstance
    unfold statementsPass current
    rw [run_look_bind]
    split
    next => exact (hends _ _).addsAll hs
    next hend =>
      rw [run_bind, run_get]
      dsimp only
      split
      next => exact (hends _ _).addsAll hs
      next => exact addsAll_listPass hs (by simpa [State.AtEnd] using hend)

instance : AddsOnly .any Tree.IsLaidItem (statements statement) := by
  unfold statements
  infer_instance

instance (block : Block) : Lays (blockBody statement block) := by unfold blockBody; infer_instance

/-- An arm of a single-line `If` goes on where a statement starts, or with what stands between
two. -/
instance (endsAtElse : Bool) (u : Unit) :
    AddsOnly .any Tree.IsLaidItem (inlinePass statement endsAtElse u) :=
  addsOnly_iff.mpr fun s hs => by
    have hdone (stop : Stop) : AddsOnly .any Tree.IsLaidItem
        (pure (Pass.done (α := Unit) stop) : Production (Pass Unit Stop)) := inferInstance
    have hstatement : AddsOnlyFromStart Tree.IsLaidItem
        (do statement; return Pass.again (β := Stop) ()) := inferInstance
    unfold inlinePass currentKind
    rw [run_look_bind]
    split
    next => exact (hdone _).addsAll hs
    next hend =>
      have hend : ¬ s.AtEnd := by simpa [State.AtEnd] using hend
      split
      next => exact (hdone _).addsAll hs
      next hbreak =>
        split
        next hblank => exact addsAll_shift hend (.inl (Kind.isTrivia_of_isInlineTrivia hblank))
        next hblank =>
          split
          next hcolon => exact addsAll_separator hs (beq_iff_eq.mp hcolon)
          next hcolon =>
            have hstart := State.atStart_of_inline hend hbreak hblank hcolon
            split
            next =>
              split
              next => exact (hdone _).addsAll hs
              next => exact addsAll_reportedToken .secondElse hs hend hstart.isTrivia
            next => exact hstatement.holds s hs hstart

instance (endsAtElse : Bool) :
    AddsOnly .any Tree.IsLaidItem (inlineStatements statement endsAtElse) := by
  unfold inlineStatements
  infer_instance

instance (endsAtElse : Bool) : Lays (inlineArm statement endsAtElse) := by
  have hrest : AddsOnly .any Tree.IsLaidItem (do let _ ← inlineStatements statement endsAtElse) :=
    inferInstance
  have harm : AddsOnly .any Tree.IsLaidItem (do
      if ← atNext (.lexeme .integerLiteral) then lineNumberJump
      let _ ← inlineStatements statement endsAtElse) :=
    addsOnly_iff.mpr fun s hs => by
      unfold atNext
      rw [run_look_bind]
      split
      next hnext =>
        have hjump := addsAll_lineNumberJump hs (beq_iff_eq.mp hnext)
        exact hjump.trans (hrest.addsAll (hjump.innermostInRow hs))
      next => exact hrest.addsAll hs
  unfold inlineArm
  infer_instance

/-! ## Statements with bodies -/

/-- Where neither the source ends nor something is at the cursor that separates statements, one
starts. -/
instance {α : Type} {ended separated other : Token → Production α} [hended : ∀ t, Lays (ended t)]
    [hseparated : ∀ t, Lays (separated t)]
    [hother : ∀ t, AddsOnlyFromStart Tree.LaidOut (other t)] :
    Lays (current >>= fun t =>
      if t.kind == .lexeme .endOfFile then ended t
      else if t.kind.isTrivia || t.kind == .lexeme .colon then separated t
      else other t) :=
  addsOnly_iff.mpr fun s hs => by
    unfold current
    rw [run_look_bind]
    split
    next => exact (hended _).addsAll hs
    next hend =>
      split
      next => exact (hseparated _).addsAll hs
      next hkind =>
        rw [Bool.or_eq_true, not_or, Bool.not_eq_true] at hkind
        exact (hother _).holds s hs
          ⟨hkind.1, by simpa using hkind.2, by simpa [State.AtEnd] using hend⟩

instance {c : Prop} [Decidable c] {k l : NodeKind} [hk : IsTrue k.hasBody] [hl : IsTrue l.hasBody] :
    IsTrue (if c then k else l).hasBody := by
  split <;> assumption

instance {c : Prop} [Decidable c] {k l : NodeKind} [hk : IsTrue k.isFrame] [hl : IsTrue l.isFrame] :
    IsTrue (if c then k else l).isFrame := by
  split <;> assumption

instance : Lays closeBlock := by unfold closeBlock; infer_instance

instance : Lays shiftDeclarator := by unfold shiftDeclarator; infer_instance

instance (stop : Stop) : Lays (blockEnd stop) := by unfold blockEnd; infer_instance

instance : Lays (inlineArms statement) := by unfold inlineArms; infer_instance

instance : Lays (singleLineIf statement) := by unfold singleLineIf; infer_instance

instance : Lays ifHeader := by unfold ifHeader; infer_instance

instance (stop : Stop) : Lays (elseIfPass statement stop) := by unfold elseIfPass; infer_instance

/-- A second `Else` ends no statement, so what is moved starts with a word. -/
instance (stop : Stop) : Lays (elseBodyPass statement stop) :=
  addsOnly_iff.mpr fun s hs => by
    have hagain : Lays (do return Pass.again (β := Stop) (← blockBody statement .if_)) :=
      inferInstance
    have hdone : Lays (pure (Pass.done (α := Stop) stop) : Production (Pass Stop Stop)) :=
      inferInstance
    have htest : TestsNext Kind.IsBoundary atElse := inferInstance
    unfold elseBodyPass
    rw [run_bind, htest.run_eq]
    dsimp only
    split
    next helse =>
      have hnext := htest.not_bar (Bool.and_eq_true_iff.mp helse).2
      obtain ⟨n, hadds, hlaid, -⟩ := LaysStatementFromWord.holds
        (p := strayCloser { block := .if_, isSegment := true }) s hs (not_bar_of_next hnext)
      rw [run_bind]
      exact (State.AddsAll.of_adds hadds hlaid).trans (hagain.addsAll (hadds.innermostInRow hs))
    next => exact hdone.addsAll hs

instance : Lays (elseClause statement) := by unfold elseClause; infer_instance

instance : Lays (blockIf statement) := by unfold blockIf; infer_instance

instance : LaysStatement (ifStatement statement) := by unfold ifStatement; infer_instance

instance : Lays nextClause := by unfold nextClause; infer_instance

instance : LaysStatement (forStatement statement) := by
  unfold forStatement
  dsimp only
  infer_instance

instance : LaysStatement (doStatement statement) := by unfold doStatement; infer_instance

instance : LaysStatement (whileStatement statement) := by unfold whileStatement; infer_instance

instance : LaysStatement (withStatement statement) := by unfold withStatement; infer_instance

/-- Every procedure has a body. -/
theorem hasBody_procedureForm (k : Kind) : (procedureForm k).1.hasBody = true := by
  unfold procedureForm
  split <;> rfl

instance : LaysStatement (procedure statement) := by
  have hbody (k : Kind) : IsTrue (procedureForm k).1.hasBody := ⟨hasBody_procedureForm k⟩
  unfold procedure
  dsimp only
  infer_instance

/-! ### Select -/

instance : AddsOnly .any P atCaseElse := by unfold atCaseElse; infer_instance

instance : Lays (caseClause statement) := by
  unfold caseClause
  dsimp only
  infer_instance

instance (stop : Stop) : Lays (afterClause stop) := by unfold afterClause; infer_instance

instance : LaysStatement strayCaseLine := by unfold strayCaseLine; infer_instance

instance (closer : Closer) :
    AddsOnlyFromStart Tree.LaidOut (selectCloserPass statement closer) := by
  unfold selectCloserPass
  infer_instance

instance (closer? : Option Closer) :
    AddsOnlyFromStart Tree.LaidOut (closerOrLinePass statement closer?) := by
  cases closer? <;> unfold closerOrLinePass <;> infer_instance

instance (u : Unit) : Lays (selectPass statement u) := by unfold selectPass; infer_instance

instance : LaysStatement (selectStatement statement) := by unfold selectStatement; infer_instance

end

/-! ### Types and enumerations -/

/-- A token is put under a node of unknown meaning only where a member could start. -/
instance (item : Production Unit) [hitem : Lays item] [hcomposed : Composed false item] :
    AddsOnlyFromStart Tree.LaidOut (memberOrToken item) where
  holds s hs hstart := by
    have hmember := hitem.addsAll hs
    unfold memberOrToken
    rw [run_look_bind, run_bind, run_look_bind]
    split
    next hremaining =>
      have hrest := hcomposed.stream_eq_of_remaining_eq (beq_iff_eq.mp hremaining)
      have hstart' := hstart.of_rest_eq hrest
      exact hmember.trans ((addsAll_unknownToken (hmember.innermostInRow hs) hstart'.not_atEnd
        hstart'.isTrivia).mono fun _ => Tree.IsLaidItem.laidOut)
    next => exact hmember

instance (closer : Keyword) : AddsOnly .any P (atCloser closer) := by
  unfold atCloser
  infer_instance

instance (k : NodeKind) [IsTrue k.isFrame] (details : Production Unit) [AddsLine details] :
    Lays (member k details) := by
  unfold member
  infer_instance

instance : Lays typeMember := by unfold typeMember; infer_instance

instance : Lays enumMember := by unfold enumMember; infer_instance

instance (block : Block) (closer : Keyword) (item : Production Unit) [Lays item]
    [Composed false item]
    (u : Unit) : Lays (memberPass block closer item u) := by
  unfold memberPass
  infer_instance

instance : LaysStatement typeStatement := by unfold typeStatement memberBlock; infer_instance

instance : LaysStatement enumStatement := by unfold enumStatement memberBlock; infer_instance

/-! ### Designer blocks -/

instance : Lays propertyAssignment := by unfold propertyAssignment rawStatement; infer_instance

instance (inner : Block → Production Unit) [∀ block, Lays (inner block)] (block? : Option Block) :
    Lays (blockOrProperty inner block?) := by
  cases block? <;> unfold blockOrProperty <;> infer_instance

instance (block : Block) : AddsOnly .any P (atDesignerEnd block) := by
  unfold atDesignerEnd
  infer_instance

instance : AddsOnly .any P designerBlock? := by unfold designerBlock?; infer_instance

instance (inner : Block → Production Unit) [∀ block, Lays (inner block)] (block : Block)
    (u : Unit) :
    Lays (designerPass inner block u) := by
  unfold designerPass
  infer_instance

instance (depth : Nat) (block : Block) : Lays (designerUpTo depth block) := by
  induction depth generalizing block with
  | zero => unfold designerUpTo; infer_instance
  | succ depth ih => unfold designerUpTo; infer_instance

instance (depth : Nat) (block : Block) : LaysStatement (designerUpTo (depth + 1) block) := by
  unfold designerUpTo
  infer_instance

instance : LaysStatement designerStatement := by unfold designerStatement; infer_instance

/-! ## What a statement is -/

/-- A statement that is kept as raw text stands on one line. -/
theorem isLine_of_rawKind? {keyword : Keyword} {k : NodeKind} (h : rawKind? keyword = some k) :
    k.isLine = true := by
  cases keyword <;> cases h <;> rfl

/-- A keyword is no boundary of a statement. -/
theorem not_isBoundary_keyword (keyword : Keyword) : ¬ (Kind.keyword keyword).IsBoundary :=
  Bool.false_ne_true

/-- Where a keyword is at the cursor that is no modifier, it is the word behind the modifiers. -/
theorem modifiedKind_of_keyword {keyword : Keyword}
    (hkeyword : s.stream.current.kind = .keyword keyword)
    (hmodifier : Lookahead.isModifier (.keyword keyword) = false) :
    Lookahead.modifiedKind s.stream.rest = .keyword keyword := by
  unfold Lookahead.modifiedKind Lookahead.afterModifiers
  rw [TokenStream.rest,
    List.dropWhile_cons_of_neg (by simp [hkeyword, hmodifier, Kind.isInlineTrivia])]
  exact hkeyword

section

variable {statement : Production Unit} [LaysStatement statement] [Advances statement]

instance : LaysStatement (modifiedStatement statement) where
  holds s hs hstart := by
    unfold modifiedStatement
    rw [run_look_bind]
    split
    case h_9 => exact LaysStatement.holds s hs hstart
    case h_4 | h_7 | h_8 =>
      next hkind =>
        exact LaysDeclaration.holds s hs (by rw [hkind]; exact not_isBoundary_keyword _)
    all_goals exact LaysStatement.holds s hs hstart

/-- What a keyword opens adds a statement where the keyword stands. -/
theorem addsStatement_keywordStatement? {keyword : Keyword} {p : Production Unit}
    (h : keywordStatement? statement keyword = some p) (hs : s.InnermostInRow) (hstart : s.AtStart)
    (hkeyword : s.stream.current.kind = .keyword keyword) : s.AddsStatement (p.run s).2 := by
  unfold keywordStatement? at h
  split at h
  all_goals first
    | obtain rfl := Option.some.inj h
      exact LaysStatement.holds s hs hstart
    | obtain rfl := Option.some.inj h
      exact LaysDeclaration.holds s hs
        (by rw [modifiedKind_of_keyword hkeyword rfl]; exact not_isBoundary_keyword _)
    | obtain ⟨k, hk, rfl⟩ := Option.map_eq_some_iff.mp h
      have : IsTrue k.isLine := ⟨isLine_of_rawKind? hk⟩
      exact LaysStatement.holds s hs hstart

/-- An assignment, a call or an unknown statement is added as a statement. -/
theorem addsStatement_plainStatement (hs : s.InnermostInRow) (hstart : s.AtStart) :
    s.AddsStatement (plainStatement.run s).2 := by
  unfold plainStatement
  rw [run_bind, run_get]
  dsimp only
  split
  next production hreplacement =>
    unfold replacement? at hreplacement
    split_ifs at hreplacement <;> cases hreplacement <;> exact LaysStatement.holds s hs hstart
  next =>
    split_ifs <;> exact LaysStatement.holds s hs hstart

instance : LaysStatement (statementAtCursor statement) where
  holds s hs hstart := by
    have hlabel : (atLabel.run s).2 = s := run_atLabel_snd s
    unfold statementAtCursor
    rw [run_bind, hlabel]
    split
    next => exact LaysStatement.holds s hs hstart
    next =>
      rw [run_look_bind]
      cases hopened : openedStatement? statement s.stream with
      | none => exact addsStatement_plainStatement hs hstart
      | some p =>
        obtain ⟨keyword, hkeyword, -, hopened⟩ := exists_keyword_of_openedStatement? hopened
        exact addsStatement_keywordStatement? hopened hs hstart hkeyword

/-- Where a statement starts there are no blanks in front of it. -/
instance {f : Unit → Production Unit} [hf : ∀ u, LaysStatement (f u)] :
    LaysStatement (skipBlanks >>= f) where
  holds s hs hstart := by
    rw [run_bind, run_skipBlanks_of_significant hstart.isInlineTrivia]
    exact (hf ()).holds s hs hstart

instance : LaysStatement (statementWith statement) := by unfold statementWith; infer_instance

end

/-! ## Sources -/

/-- Statements that nest at most `depth` deep; what is deeper is read by `base`. -/
def statementOver (base : Production Unit) : (depth : Nat) → Production Unit
  | 0 => base
  | depth + 1 => statementWith (statementOver base depth)

section

variable {base : Production Unit}

instance [Composed false base] (depth : Nat) : Composed false (statementOver base depth) := by
  induction depth with
  | zero => unfold statementOver; infer_instance
  | succ depth ih => unfold statementOver; infer_instance

instance [Composed false base] [Advances base] (depth : Nat) :
    Advances (statementOver base depth) := by
  cases depth <;> unfold statementOver <;> infer_instance

instance [Composed false base] [Advances base] [LaysStatement base] (depth : Nat) :
    LaysStatement (statementOver base depth) := by
  induction depth with
  | zero => unfold statementOver; infer_instance
  | succ depth ih => unfold statementOver; infer_instance

/-- What is deeper than the tokens ahead allow is never read. -/
theorem agreeUpTo_statementOver [Composed false base] {n d : Nat} (hd : n < d) :
    AgreeUpTo n (statementUpTo d) (statementOver base d) := by
  induction n generalizing d with
  | zero =>
    obtain _ | d := d
    · omega
    have hcursor := agreeUpTo_statementAtCursor_zero (statementUpTo d) (statementOver base d)
    unfold statementUpTo statementOver statementWith
    infer_instance
  | succ n ih =>
    obtain _ | d := d
    · omega
    have hnested : AgreeUpTo n (statementUpTo d) (statementOver base d) := ih (by omega)
    unfold statementUpTo statementOver
    infer_instance

end

/-- What is read below the root of a source are the items of a list of statements, with their
layouts. -/
theorem isLaidItem_of_mem_final {stream : TokenStream} {n : Tree}
    (hn : n ∈ (State.final stream).builder.pending.toList) : n.IsLaidItem := by
  have hadvances : Advances unknownStatement := by unfold unknownStatement; infer_instance
  have hlist : AddsOnly .any Tree.IsLaidItem
      (statements (statementOver unknownStatement (stream.remaining + 1))) := inferInstance
  have hnested : AgreeUpTo stream.remaining (statementUpTo (stream.remaining + 1))
      (statementOver unknownStatement (stream.remaining + 1)) :=
    agreeUpTo_statementOver (Nat.lt_succ_self _)
  have hagree : AgreeUpTo stream.remaining (statements (statementUpTo (stream.remaining + 1)))
      (statements (statementOver unknownStatement (stream.remaining + 1))) := inferInstance
  obtain ⟨trees, hadds, hitems⟩ :=
    hlist.addsAll (s := .start stream) (State.innermostInRow_opening _ _)
  rw [← hagree.run_eq (.start stream) (.inr (Nat.le_refl _))] at hadds
  have htrees : (State.final stream).builder.pending.toList = trees := hadds.pending
  exact hitems n (htrees ▸ hn)

end Grammar

end LosslessBasic
