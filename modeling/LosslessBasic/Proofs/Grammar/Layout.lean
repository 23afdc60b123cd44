import LosslessBasic.Proofs.Grammar.Accounts
import LosslessBasic.Proofs.Tree.Layout

/-!
# Statements of one line

A part of a statement moves nothing that could end the statement, so whatever nodes it adds have
their layout (`Law.part`). A statement that holds no lines of its own is made of such parts and of
its end: what it adds is on one line (`AddsLine`), and so is its node (`LaysStatement`).
-/

namespace LosslessBasic.Grammar

set_option synthInstance.maxSize 65536

/-! ## Parts of statements -/

/-- The law that says nothing. -/
def Law.any : Law where
  rel _ _ _ := True
  builder _ _ _ := trivial
  silent _ _ _ _ _ _ _ := trivial
  shift _ := trivial
  report _ _ _ _ := trivial
  trans _ _ _ _ := trivial
  node _ _ _ _ := trivial
  access _ _ _ _ := trivial

/-- An access is no list of statements. -/
theorem accessKind_ne_statementList (sign : Kind) : accessKind sign ≠ .statementList := by
  unfold accessKind
  split <;> simp

/-- Where nothing stands below a node that could end a statement, it has its layout when what is
below it has one. -/
theorem laidOutAll_above {k : NodeKind} {a : Anchor} {trees : List Tree} (hk : k ≠ .statementList)
    (h : (∀ t ∈ Tree.leavesAll trees, ¬ t.kind.IsBoundary) → Tree.LaidOutAll trees)
    (hinside : ∀ t ∈ Tree.leavesAll [.above (.node k) a trees], ¬ t.kind.IsBoundary) :
    Tree.LaidOutAll [.above (.node k) a trees] := by
  rw [Tree.leavesAll, Tree.leavesAll, List.append_nil, Tree.leaves_above] at hinside
  exact ⟨Tree.laidOut_above (.of_inside hk hinside) (h hinside), trivial⟩

/-- The law of parts of statements: where nothing is moved that could end a statement, what is added
has its layout. -/
def Law.part : Law where
  rel _ trees _ := (∀ t ∈ Tree.leavesAll trees, ¬ t.kind.IsBoundary) → Tree.LaidOutAll trees
  builder _ _ h := h
  silent _ _ _ _ _ _ _ _ := trivial
  shift _ _ := ⟨trivial, trivial⟩
  report _ _ _ _ _ := trivial
  trans _ _ h h' hinside := by
    rw [Tree.leavesAll_append, List.forall_mem_append] at hinside
    exact Tree.laidOutAll_append.mpr ⟨h hinside.1, h' hinside.2⟩
  node k a hk h := laidOutAll_above (by rintro rfl; cases hk) h
  access sign a _ h := laidOutAll_above (accessKind_ne_statementList sign) h

instance : Refers .part :=
  .of_referToHeader (fun sign _ h => laidOutAll_above (accessKind_ne_statementList sign) h)
    fun sign access s =>
    ⟨(holds_referToHeader sign access s).1, fun _ => trivial⟩

/-- What a part of a statement adds has its layout, and nothing in it could end the statement. -/
theorem State.MovesNo.exists_adds {α : Type} {p : Production α} [hp : Obeys .part p] {s : State}
    (hs : s.InnermostInRow) (h : s.MovesNo Kind.IsBoundary p) :
    ∃ trees, s.Adds trees (p.run s).2 ∧ Tree.LaidOutAll trees ∧
      ∀ t ∈ Tree.leavesAll trees, ¬ t.kind.IsBoundary := by
  obtain ⟨trees, hadds, hlaid⟩ := hp.holds s hs
  obtain ⟨moved, hrest, hmoved⟩ := h
  obtain rfl : Tree.leavesAll trees = moved :=
    List.append_cancel_right (hadds.rest.symm.trans hrest)
  exact ⟨trees, hadds, hlaid hmoved, hmoved⟩

/-! ## Lines -/

/-- Between two states trees of one line have been added, with their layout. -/
def State.AddsLine (s t : State) : Prop :=
  ∃ trees, s.Adds trees t ∧ Tree.LaidOutAll trees ∧ IsOneLine (Tree.leavesAll trees) ∧
    ∀ u ∈ Tree.leavesAll trees, u.kind ≠ .lexeme .colon

/-- What follows goes on the line of what ends no line. -/
theorem State.Adds.addsLine {s t u : State} {trees : List Tree} (h : s.Adds trees t)
    (hlaid : Tree.LaidOutAll trees)
    (htrees : ∀ u ∈ Tree.leavesAll trees, u.kind ≠ .trivia .newline ∧ u.kind ≠ .lexeme .colon)
    (h' : t.AddsLine u) : s.AddsLine u := by
  obtain ⟨more, hmore, hlaid', hline, hcolon⟩ := h'
  refine ⟨trees ++ more, h.trans hmore, Tree.laidOutAll_append.mpr ⟨hlaid, hlaid'⟩, ?_, ?_⟩
  · rw [Tree.leavesAll_append]
    exact .append_left (fun t ht => (htrees t ht).1) hline
  · rw [Tree.leavesAll_append, List.forall_mem_append]
    exact ⟨fun t ht => (htrees t ht).2, hcolon⟩

/-- Nothing is added to a line. -/
theorem State.AddsLine.refl (s : State) : s.AddsLine s :=
  ⟨[], .refl s, trivial, by simp [IsOneLine, Tree.leavesAll], by simp [Tree.leavesAll]⟩

/-- A token that is no colon is added to its line. -/
theorem State.AddsLine.shifted {s : State} (hend : ¬ s.AtEnd)
    (hcolon : s.stream.current.kind ≠ .lexeme .colon) : s.AddsLine s.shifted :=
  ⟨_, .shifted hend, ⟨trivial, trivial⟩, isOneLine_singleton _,
    by simpa [Tree.leavesAll, Tree.leaves] using hcolon⟩

/-- What adds no tree leaves the line as it is. -/
theorem State.AddsLine.silent {s t u : State} (h : s.AddsLine t) (h' : t.Adds [] u) :
    s.AddsLine u := by
  obtain ⟨trees, hadds, hline⟩ := h
  refine ⟨trees, ?_, hline⟩
  have hboth := hadds.trans h'
  rwa [List.append_nil] at hboth

/-- A production that adds trees of one line. -/
class AddsLine {α : Type} (p : Production α) : Prop where
  holds (s : State) : s.InnermostInRow → s.AddsLine (p.run s).2

/-- A production that adds trees of one line where nothing is at the cursor that could end it. -/
class AddsLineFromWord {α : Type} (p : Production α) : Prop where
  holds (s : State) : s.InnermostInRow → ¬ s.stream.current.kind.IsBoundary → s.AddsLine (p.run s).2

section

variable {α β : Type} {p q : Production α}

/-- A part of a statement and what follows it. -/
theorem State.MovesNo.addsLine [Obeys .part p] {f : α → Production β} {s : State}
    (hs : s.InnermostInRow)
    (hp : s.MovesNo Kind.IsBoundary p)
    (hf : (p.run s).2.InnermostInRow → (p.run s).2.AddsLine ((f (p.run s).1).run (p.run s).2).2) :
    s.AddsLine ((p >>= f).run s).2 := by
  obtain ⟨trees, hadds, hlaid, hinside⟩ := hp.exists_adds hs
  rw [run_bind]
  exact hadds.addsLine hlaid (fun t ht => Kind.ne_of_not_isBoundary (hinside t ht))
    (hf (hadds.innermostInRow hs))

instance (priority := low) [Obeys .part p] [hp : MovesNo Kind.IsBoundary p] : AddsLine p where
  holds s hs := by
    have h := (hp.movesNo s).addsLine hs (f := pure) fun _ => .refl _
    rwa [bind_pure] at h

instance {f : α → Production β} [Obeys .part p] [hp : MovesNo Kind.IsBoundary p]
    [hf : ∀ a, AddsLine (f a)] : AddsLine (p >>= f) where
  holds s hs := (hp.movesNo s).addsLine hs ((hf _).holds _)

instance {c : Prop} [Decidable c] [AddsLine p] [AddsLine q] : AddsLine (if c then p else q) := by
  split <;> infer_instance

instance [h : AddsLine p] : AddsLineFromWord p where
  holds s hs _ := h.holds s hs

instance {f : α → Production β} [Obeys .part p] [hp : MovesNoFromWord Kind.IsBoundary p]
    [hf : ∀ a, AddsLine (f a)] : AddsLineFromWord (p >>= f) where
  holds s hs hword := (hp.movesNo s hword).addsLine hs ((hf _).holds _)

end

/-- A production that adds trees of one line where nothing comes next that could end it. -/
class AddsLineFromNext {α : Type} (p : Production α) : Prop where
  holds (s : State) : s.InnermostInRow → ¬ (s.stream.peekSignificant 0).kind.IsBoundary →
    s.AddsLine (p.run s).2

instance {α : Type} {f : Unit → Production α} [hf : ∀ u, AddsLineFromWord (f u)] :
    AddsLineFromNext (skipBlanks >>= f) where
  holds s hs hnext := by
    have hblanks : MovesNo Kind.IsBoundary skipBlanks := inferInstance
    obtain ⟨trees, hadds, hlaid, hinside⟩ := (hblanks.movesNo s).exists_adds hs
    rw [run_bind]
    refine hadds.addsLine hlaid (fun t ht => Kind.ne_of_not_isBoundary (hinside t ht)) ?_
    exact (hf _).holds _ (hadds.innermostInRow hs) (by rwa [current_skipBlanks])

instance {α : Type} {test : Production Bool} {p q : Production α}
    [ht : TestsNext Kind.IsBoundary test]
    [hp : AddsLineFromNext p] [hq : AddsLine q] :
    AddsLine (test >>= fun b => if b then p else q) where
  holds s hs := by
    rw [run_bind, ht.run_eq]
    dsimp only
    cases htest : (test.run s).1 with
    | true => exact hp.holds s hs (ht.not_bar htest)
    | false => exact hq.holds s hs

/-- The line break behind a statement is the last on its line. -/
instance : AddsLine shiftLineBreak where
  holds s hs := by
    have hbreak (s : State) : s.AddsLine (StateT.run (do
        if ← atCurrent (.trivia .newline) then
          shift
          setSeparator .lineBreak : Production Unit) s).2 := by
      unfold atCurrent
      rw [run_look_bind]
      split
      next hnewline =>
        have hkind : s.stream.current.kind = .trivia .newline := beq_iff_eq.mp hnewline
        have hend : ¬ s.AtEnd := by simp [State.AtEnd, hkind]
        rw [run_bind, run_shift hend]
        exact (State.AddsLine.shifted hend (by simp [hkind])).silent
          (.of_silent rfl rfl rfl rfl rfl)
      next => exact .refl s
    unfold shiftLineBreak currentKind
    rw [run_look_bind]
    split
    next hcomment =>
      have hend : ¬ s.AtEnd := Kind.ne_endOfFile_of (f := Kind.isComment) hcomment rfl
      have hother : s.stream.current.kind ≠ .trivia .newline ∧
          s.stream.current.kind ≠ .lexeme .colon := by
        constructor <;> intro hkind <;> rw [hkind] at hcomment <;> cases hcomment
      rw [run_bind, run_shift hend]
      exact (State.Adds.shifted hend).addsLine ⟨trivial, trivial⟩
        (by simpa [Tree.leavesAll, Tree.leaves] using hother) (hbreak _)
    next => exact hbreak s

instance : AddsLine finishStatement := by
  unfold finishStatement
  dsimp only
  infer_instance

/-! ## Statements -/

/-- Whether a statement starts at the cursor, rather than something that separates statements. -/
structure State.AtStart (s : State) : Prop where
  isTrivia : s.stream.current.kind.isTrivia = false
  ne_colon : s.stream.current.kind ≠ .lexeme .colon
  not_atEnd : ¬ s.AtEnd

/-- In an arm of a line, a statement starts where there is no break of the line, no blank and no
colon. -/
theorem State.atStart_of_inline {s : State} (hend : ¬ s.AtEnd)
    (hbreak : ¬ (s.stream.current.kind == .trivia .newline || s.stream.current.kind.isComment) =
      true)
    (hblank : ¬ s.stream.current.kind.isInlineTrivia = true)
    (hcolon : ¬ (s.stream.current.kind == .lexeme .colon) = true) : s.AtStart := by
  refine ⟨?_, by simpa using hcolon, hend⟩
  revert hbreak hblank
  cases s.stream.current.kind with
  | trivia t =>
    cases t <;> simp [Kind.isComment, Kind.isInlineTrivia, Trivia.isComment, Trivia.isInline]
  | _ => exact fun _ _ => rfl

/-- A statement starts at no boundary. -/
theorem State.AtStart.not_isBoundary {s : State} (h : s.AtStart) :
    ¬ s.stream.current.kind.IsBoundary := by
  intro hboundary
  have hmem := Kind.mem_boundaries hboundary
  have hcase : ∀ k ∈ Kind.boundaries, k.isTrivia = true ∨ k = .lexeme .colon := by decide
  rcases hcase _ hmem with htrivia | hcolon
  · rw [h.isTrivia] at htrivia
    cases htrivia
  · exact h.ne_colon hcolon

/-- Where the same tokens are ahead a statement starts if it did before. -/
theorem State.AtStart.of_rest_eq {s t : State} (h : s.AtStart)
    (hrest : t.stream.rest = s.stream.rest) :
    t.AtStart := by
  have hcurrent := TokenStream.current_eq_of_rest_eq hrest
  exact ⟨by rw [hcurrent, h.isTrivia], by rw [hcurrent]; exact h.ne_colon,
    by rw [State.AtEnd, hcurrent]; exact h.not_atEnd⟩

/-- Between two states a statement has been added, with its layout. -/
def State.AddsStatement (s t : State) : Prop := ∃ n, s.Adds [n] t ∧ n.LaidOut ∧ n.IsStatement

/-- A production that adds a statement where one starts. -/
class LaysStatement {α : Type} (p : Production α) : Prop where
  holds (s : State) : s.InnermostInRow → s.AtStart → s.AddsStatement (p.run s).2

/-- A production that adds a statement where nothing is at the cursor that could end one. -/
class LaysStatementFromWord {α : Type} (p : Production α) : Prop where
  holds (s : State) : s.InnermostInRow → ¬ s.stream.current.kind.IsBoundary →
    s.AddsStatement (p.run s).2

/-- A production that adds nothing, whatever else it does. -/
abbrev AddsNone {α : Type} (p : Production α) : Prop := AddsOnly .any (fun _ => False) p

instance {P : Tree → Prop} (problem : Problem) (t : Token) :
    AddsOnly .any P (report problem t) where
  holds _ _ := ⟨[], ⟨.of_silent rfl rfl rfl rfl rfl, trivial⟩, by simp⟩

/-- What adds no tree adds none here. -/
theorem AddsNone.adds {α : Type} {p : Production α} [hp : AddsNone p] {s : State}
    (hs : s.InnermostInRow) :
    s.Adds [] (p.run s).2 := by
  obtain ⟨trees, h, hnone⟩ := hp.holds s hs
  obtain rfl : trees = [] := List.eq_nil_iff_forall_not_mem.mpr hnone
  exact h.1

/-- A node around trees of one line has the layout of a statement. -/
theorem laidOut_line {k : NodeKind} {a : Anchor} {trees : List Tree} (hk : k.isLine = true)
    (hlaid : Tree.LaidOutAll trees) (hline : IsOneLine (Tree.leavesAll trees))
    (hcolon : ∀ t ∈ Tree.leavesAll trees, t.kind = .lexeme .colon →
      k = .labelStatement ∨ k = .unknown ∧ Tree.leavesAll trees = [t]) :
    (Tree.above (.node k) a trees).LaidOut ∧ (Tree.above (.node k) a trees).IsStatement := by
  refine ⟨Tree.laidOut_above ⟨?_, ?_, fun _ => hline, fun _ => hcolon⟩ hlaid,
    Tree.isStatement_above ?_ _ _⟩
  · rintro rfl
    cases hk
  · intro hfragment
    rw [NodeKind.isFragment_of_isLine hk] at hfragment
    cases hfragment
  · rw [NodeKind.isLine, Bool.and_eq_true] at hk
    exact hk.1

/-- The node of a statement of one line. -/
theorem addsStatement_within {k : NodeKind} (hk : k.isLine = true) {p : Production Unit} {s : State}
    (hs : s.InnermostInRow) (h : (s.opening k).AddsLine (p.run (s.opening k)).2) :
    s.AddsStatement ((within k p).run s).2 := by
  obtain ⟨trees, hadds, hlaid, hline, hcolon⟩ := h
  exact ⟨_, (hadds.closing_opening hs).1,
    laidOut_line hk hlaid hline fun t ht hkind => absurd hkind (hcolon t ht)⟩

/-- A node around what stands in front of a checkpoint and the rest of its line. -/
theorem State.Adds.addsStatement_compositeFrom {k : NodeKind} (hk : k.isLine = true)
    {p : Production Unit}
    {s t : State} {trees : List Tree} (hs : s.InnermostInRow) (h : s.Adds trees t)
    (hlaid : Tree.LaidOutAll trees) (hinside : ∀ t ∈ Tree.leavesAll trees, ¬ t.kind.IsBoundary)
    (hp : (t.openingAt s.builder.checkpoint k).AddsLine
      (p.run (t.openingAt s.builder.checkpoint k)).2) :
    s.AddsStatement ((compositeFrom s.builder.checkpoint k p).run t).2 := by
  have hother (u : Token) (hu : u ∈ Tree.leavesAll trees) :=
    Kind.ne_of_not_isBoundary (hinside u hu)
  obtain ⟨more, hadds, hlaid', hline, hcolon⟩ := hp
  refine ⟨_, (h.closing_openingAt hs hadds).1,
    laidOut_line hk (Tree.laidOutAll_append.mpr ⟨hlaid, hlaid'⟩) ?_ ?_⟩
  · rw [Tree.leavesAll_append]
    exact .append_left (fun u hu => (hother u hu).1) hline
  · intro u hu hkind
    rw [Tree.leavesAll_append, List.mem_append] at hu
    exact absurd hkind (hu.elim (fun hu => (hother u hu).2) (hcolon u))

section

variable {α β : Type} {p q : Production α}

instance {k : NodeKind} {p : Production Unit} [hk : IsTrue k.isLine] [hp : AddsLineFromWord p] :
    LaysStatementFromWord (within k p) where
  holds s hs hword := addsStatement_within hk.eq_true hs
    (hp.holds _ (State.innermostInRow_opening s k) hword)

instance {f : α → Production β} [AddsNone p] [hf : ∀ a, LaysStatementFromWord (f a)] :
    LaysStatementFromWord (p >>= f) where
  holds s hs hword := by
    have hnone := AddsNone.adds (p := p) hs
    have hrest : (p.run s).2.stream.rest = s.stream.rest := by
      simpa [Tree.leavesAll] using hnone.rest.symm
    obtain ⟨n, hadds, hn⟩ := (hf _).holds _ (hnone.innermostInRow hs)
      (by rwa [TokenStream.current_eq_of_rest_eq hrest])
    rw [run_bind]
    exact ⟨n, hnone.trans hadds, hn⟩

instance [h : LaysStatementFromWord p] : LaysStatement p where
  holds s hs hstart := h.holds s hs hstart.not_isBoundary

instance {f : α → Production β} [AddsNone p] [hf : ∀ a, LaysStatement (f a)] :
    LaysStatement (p >>= f) where
  holds s hs hstart := by
    have hnone := AddsNone.adds (p := p) hs
    have hstart' := hstart.of_rest_eq (by simpa [Tree.leavesAll] using hnone.rest.symm)
    obtain ⟨n, hadds, hn⟩ := (hf _).holds _ (hnone.innermostInRow hs) hstart'
    rw [run_bind]
    exact ⟨n, hnone.trans hadds, hn⟩

instance {c : Prop} [Decidable c] [LaysStatement p] [LaysStatement q] :
    LaysStatement (if c then p else q) := by
  split <;> infer_instance

end

/-! ### Declarations -/

instance : LaysStatement dimStatement := by unfold dimStatement; infer_instance

instance : LaysStatement reDimStatement := by unfold reDimStatement; infer_instance

instance : LaysStatement eraseStatement := by unfold eraseStatement; infer_instance

instance : LaysStatement implementsStatement := by unfold implementsStatement; infer_instance

/-! ### Simple statements -/

instance (k : NodeKind) [IsTrue k.isLine] : LaysStatementFromWord (rawStatement k) := by
  unfold rawStatement
  infer_instance

instance : AddsLine assignment := by unfold assignment; infer_instance

instance : LaysStatement assignmentStatement := by unfold assignmentStatement; infer_instance

instance (k : NodeKind) [IsTrue k.isLine] : LaysStatement (wordedAssignment k) := by
  unfold wordedAssignment
  infer_instance

instance : AddsLine call := by unfold call; infer_instance

instance : LaysStatement callStatement := by unfold callStatement; infer_instance

instance : LaysStatement callKeywordStatement := by unfold callKeywordStatement; infer_instance

instance : LaysStatement raiseEventStatement := by
  unfold raiseEventStatement
  dsimp only
  infer_instance

instance (k : NodeKind) [IsTrue k.isLine] : LaysStatement (wordStatement k) := by
  unfold wordStatement
  infer_instance

instance (k : NodeKind) [IsTrue k.isLine] : LaysStatement (jumpStatement k) := by
  unfold jumpStatement
  infer_instance

instance : LaysStatement resumeStatement := by
  unfold resumeStatement
  dsimp only
  infer_instance

instance : LaysStatement exitStatement := by unfold exitStatement; infer_instance

instance : LaysStatement lineStatement := by unfold lineStatement secondKind; infer_instance

instance : LaysStatementFromWord unknownStatement := by unfold unknownStatement; infer_instance

instance : LaysStatement unexpectedStatement := by
  unfold unexpectedStatement current
  dsimp only
  infer_instance

/-! ### Behind modifiers -/

/-- The word behind the modifiers ends no statement. -/
theorem movesNo_shiftDeclarator {s : State}
    (h : ¬ (Lookahead.modifiedKind s.stream.rest).IsBoundary) :
    s.MovesNo Kind.IsBoundary shiftDeclarator := by
  have hmodifiers : MovesNo Kind.IsBoundary shiftModifiers := inferInstance
  unfold shiftDeclarator
  refine .bind (hmodifiers.movesNo s) (MovesNoFromNext.movesNo _ ?_)
  rwa [kind_next_shiftModifiers]

/-- A production that adds a statement behind modifiers. -/
class LaysDeclaration (p : Production Unit) : Prop where
  holds (s : State) : s.InnermostInRow → ¬ (Lookahead.modifiedKind s.stream.rest).IsBoundary →
    s.AddsStatement (p.run s).2

instance {k : NodeKind} {f : Unit → Production Unit} [hk : IsTrue k.isLine]
    [hf : ∀ u, AddsLine (f u)] :
    LaysDeclaration (within k (shiftDeclarator >>= f)) where
  holds s hs h := addsStatement_within hk.eq_true hs
    ((movesNo_shiftDeclarator (s := s.opening k) h).addsLine (State.innermostInRow_opening s k)
      ((hf _).holds _))

instance : LaysDeclaration constStatement := by unfold constStatement; infer_instance

instance : LaysDeclaration declareStatement := by
  unfold declareStatement
  dsimp only
  infer_instance

instance : LaysDeclaration eventStatement := by
  unfold eventStatement
  dsimp only
  infer_instance

/-! ### Jumps behind `On` -/

/-- A statement does not start with inline trivia. -/
theorem State.AtStart.isInlineTrivia {s : State} (h : s.AtStart) :
    s.stream.current.kind.isInlineTrivia = false := by
  have htrivia := h.isTrivia
  cases hkind : s.stream.current.kind with
  | trivia t => simp [hkind, Kind.isTrivia] at htrivia
  | _ => rfl

/-- Behind `On`, the word `Error` has been seen. -/
theorem addsStatement_onErrorStatement {s : State} (hs : s.InnermostInRow) (hstart : s.AtStart)
    (hsecond : (s.stream.peekSignificant 1).kind = .keyword .error) :
    s.AddsStatement (onErrorStatement.run s).2 := by
  have hnext :
      ¬ ((s.opening .onErrorStatement).shifted.stream.peekSignificant 0).kind.IsBoundary := by
    change ¬ (s.stream.advance.peekSignificant 0).kind.IsBoundary
    rw [TokenStream.peekSignificant_advance_succ hstart.isInlineTrivia
      (TokenStream.ahead_ne_nil hstart.not_atEnd), hsecond]
    exact Bool.false_ne_true
  have hrest : AddsLine (do
      if ← accept (.keyword .goTo) then
        if ← accept (.lexeme .minus) then
          let _ ← expect (.lexeme .integerLiteral)
        else label
      else if ← expect (.keyword .resume) then
        let _ ← expect (.keyword .next)
      finishStatement) := by
    dsimp only
    infer_instance
  have hword : (s.opening .onErrorStatement).MovesNo Kind.IsBoundary shift :=
    MovesNoFromWord.movesNo _ hstart.not_isBoundary
  refine addsStatement_within rfl hs (hword.addsLine (State.innermostInRow_opening s _) ?_)
  rw [run_shift (s := s.opening .onErrorStatement) hstart.not_atEnd]
  exact fun hs' => (MovesNoFromNext.movesNo (p := shiftNext) _ hnext).addsLine hs' (hrest.holds _)

/-- The number that chooses a jump, and whether its word is `GoSub`. -/
def jumpNumber : Production Bool := do
  shift
  operand
  atNext (.keyword .goSub)

/-- The word of a chosen jump with its labels, and the end of the statement. -/
def jumpChoices : Production Unit := do
  let jumps ← do
    if ← accept (.keyword .goSub) then pure true else expect (.keyword .goTo)
  if jumps then commaList label
  finishStatement

/-- The node of a chosen jump is put around what stands in front of the word that tells its kind. -/
theorem run_onJumpStatement (s : State) : (onJumpStatement.run s).2 =
    ((compositeFrom s.builder.checkpoint
      (if (jumpNumber.run s).1 then .onGoSubStatement else .onGoToStatement) jumpChoices).run
        (jumpNumber.run s).2).2 := by
  have hcheckpoint : checkpoint.run s = (s.builder.checkpoint, s) := rfl
  unfold onJumpStatement jumpNumber jumpChoices
  dsimp only
  simp only [run_bind, run_pure, hcheckpoint]
  congr 3

instance : LaysStatement onJumpStatement where
  holds s hs hstart := by
    have hnumber : MovesNoFromWord Kind.IsBoundary jumpNumber := by
      unfold jumpNumber
      infer_instance
    have hobeys : Obeys .part jumpNumber := by unfold jumpNumber; infer_instance
    have hchoices : AddsLine jumpChoices := by
      unfold jumpChoices
      dsimp only
      infer_instance
    obtain ⟨trees, hadds, hlaid, hinside⟩ :=
      (hnumber.movesNo s hstart.not_isBoundary).exists_adds hs
    rw [run_onJumpStatement]
    refine hadds.addsStatement_compositeFrom ?_ hs hlaid hinside
      (hchoices.holds _ (hadds.innermostInRow_openingAt hs _))
    split <;> rfl

instance : LaysStatement onStatement where
  holds s hs hstart := by
    unfold onStatement secondKind
    rw [run_look_bind]
    split
    next hsecond => exact addsStatement_onErrorStatement hs hstart (beq_iff_eq.mp hsecond)
    next => exact LaysStatement.holds s hs hstart

/-! ### Labels -/

/-- The name of a label, and a colon behind it. -/
def labelName : Production Unit := do
  shift
  setSeparator .none
  if ← atCurrent (.lexeme .colon) then
    shift
    setSeparator .colon

/-- The end of the line of a label. -/
def labelEnd : Production Unit := do
  if (← atStatementEnd) && !(← atNext (.lexeme .colon)) then finishStatement

/-- A label is its name and what ends it. -/
theorem labelStatement_eq : labelStatement = within .labelStatement (do labelName; labelEnd) := by
  unfold labelStatement labelName labelEnd
  dsimp only
  simp only [bind_assoc]
  refine congrArg (within _) (congrArg (shift >>= ·) (funext fun _ =>
    congrArg (setSeparator .none >>= ·) (funext fun _ =>
      congrArg (atCurrent (.lexeme .colon) >>= ·) (funext fun colon => ?_))))
  cases colon <;> rfl

/-- A label moves a colon, and no line break but the one at its end. -/
instance : LaysStatement labelStatement where
  holds s hs hstart := by
    have hkeeps : KeepsLineFromWord labelName := by unfold labelName; infer_instance
    have htokens : AddsOnly .any (·.isToken = true) labelName := by unfold labelName; infer_instance
    have hend : AddsLine labelEnd := by unfold labelEnd; infer_instance
    have hnewline : s.stream.current.kind ≠ .trivia .newline := by
      intro hkind
      have htrivia := hstart.isTrivia
      rw [hkind] at htrivia
      cases htrivia
    obtain ⟨head, ⟨hhead, -⟩, htoken⟩ := htokens.holds (s.opening .labelStatement)
      (State.innermostInRow_opening s _)
    obtain ⟨moved, hmoved, hkept⟩ := KeepsLineFromWord.keepsLine (p := labelName)
      (s.opening .labelStatement) hnewline
    obtain rfl : Tree.leavesAll head = moved :=
      List.append_cancel_right (hhead.rest.symm.trans hmoved)
    obtain ⟨tail, htail, hlaid, hline, -⟩ := hend.holds _
      (hhead.innermostInRow (State.innermostInRow_opening s _))
    have hlaid' : Tree.LaidOutAll head :=
      Tree.laidOutAll_iff.mpr fun n hn => Tree.laidOut_of_isToken (htoken n hn)
    rw [labelStatement_eq]
    refine ⟨_, ((hhead.trans htail).closing_opening hs).1,
      laidOut_line rfl (Tree.laidOutAll_append.mpr ⟨hlaid', hlaid⟩) ?_ fun _ _ _ => .inl rfl⟩
    rw [Tree.leavesAll_append]
    exact .append_left hkept hline

end LosslessBasic.Grammar
