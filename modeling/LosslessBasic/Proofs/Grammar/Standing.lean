import LosslessBasic.Proofs.Grammar.LineStarts
import LosslessBasic.Proofs.Grammar.Order

/-!
# How statements keep to the line

What is known of the line while a statement is read depends on how much of it has been read
(`Standing`). `Proceeds c e p` says of a production that it keeps what has been read in its place
and leads from the standing `c` to the standing `e`. A statement leads from its start to its end.
-/

namespace LosslessBasic.Grammar

set_option synthInstance.maxSize 65536

/-- How much of a statement has been read. -/
inductive Standing where
  /-- Nothing is said. -/
  | any
  /-- Something of a statement is at the cursor. -/
  | start
  /-- Something of a statement is at the cursor, and so it is behind that. -/
  | pair
  /-- Something of a statement comes next. -/
  | next
  /-- Modifiers are at the cursor, with something of a statement behind them. -/
  | declared
  /-- Some of the statement may have been read. -/
  | inside
  /-- The first word of the statement has been read. -/
  | amid
  /-- The statement has ended. -/
  | ended
  /-- The body of a block has ended, where its stop says so before its closer. -/
  | stopped (block : Block) (stop : Stop)
  /-- The last body of a block has ended, where its stop says so before a closer of two words. -/
  | closable (stop : Stop)

namespace State

/-- Whether something of a statement is at the cursor. -/
structure AtWord (s : State) : Prop where
  isInlineTrivia : s.stream.current.kind.isInlineTrivia = false
  not_isBoundary : ¬ s.stream.current.kind.IsBoundary

/-- A statement starts with a word. -/
theorem AtStart.atWord {s : State} (h : s.AtStart) : s.AtWord :=
  ⟨h.isInlineTrivia, h.not_isBoundary⟩

/-- A word that comes next is no boundary of a statement. -/
theorem AtWord.next {s : State} (h : s.AtWord) :
    ¬ (s.stream.peekSignificant 0).kind.IsBoundary := by
  rw [TokenStream.peekSignificant_zero h.isInlineTrivia]
  exact h.not_isBoundary

end State

namespace Standing

/-- What is known of a state. -/
def Holds : Standing → State → Prop
  | .any, _ => True
  | .start, s => s.AtWord
  | .pair, s => s.AtWord ∧ ¬ (s.stream.peekSignificant 1).kind.IsBoundary
  | .next, s => ¬ (s.stream.peekSignificant 0).kind.IsBoundary
  | .declared, s => s.AtWord ∧ ¬ (Lookahead.modifiedKind s.stream.rest).IsBoundary
  | .inside, s => s.NoSecondColon
  | .amid, s => s.Amid
  | .ended, s => s.KnowsLine
  | .stopped block stop, s => s.KnowsLine ∧ (stop = .ownCloser → s.AtWord ∧ s.OnCloser block)
  | .closable stop, s => s.KnowsLine ∧
      (stop = .ownCloser → s.AtWord ∧ ¬ (s.stream.peekSignificant 1).kind.IsBoundary)

/-- Whether no colon comes next directly behind another one. -/
@[reducible]
def isClean : Standing → Bool
  | .any | .ended | .stopped .. | .closable _ => false
  | _ => true

variable {c : Standing} {s t : State}

/-- Where no colon may follow another one, none does. -/
theorem Holds.noSecondColon (hc : c.isClean = true) (h : c.Holds s) : s.NoSecondColon := by
  have hnext (h : ¬ (s.stream.peekSignificant 0).kind.IsBoundary) : s.NoSecondColon := fun hcolon =>
    absurd (by rw [hcolon]; rfl) h
  cases c with
  | any | ended | stopped | closable => cases hc
  | start => exact hnext (State.AtWord.next h)
  | pair => exact hnext h.1.next
  | next => exact hnext h
  | declared => exact hnext h.1.next
  | inside => exact h
  | amid => exact State.Amid.colon h

/-- What is known of a state is told by the tokens in front of the cursor and behind it, and by what
separates the next statement from the one before. -/
theorem Holds.congr (hstream : t.stream = s.stream) (hbefore : t.before = s.before)
    (hseparator : t.lastSeparator = s.lastSeparator) (h : c.Holds s) : c.Holds t := by
  have hword (h : s.AtWord) : t.AtWord := by
    obtain ⟨hsolid, hboundary⟩ := h
    exact ⟨by rwa [hstream], by rwa [hstream]⟩
  have hcolon (h : s.NoSecondColon) : t.NoSecondColon := by
    unfold State.NoSecondColon
    rwa [hstream, hbefore]
  have hended (h : s.KnowsLine) : t.KnowsLine := by
    refine ⟨?_, fun hnone => hcolon (h.colon (hseparator ▸ hnone))⟩
    unfold State.KnowsStart State.NameNext
    rw [hstream, hbefore, hseparator]
    exact h.start
  -- what a standing asks for is said of the stream, of what was read, and of the separator alone
  cases c with
  | any => trivial
  | start => exact hword h
  | pair =>
    refine ⟨hword h.1, ?_⟩
    rw [hstream]
    exact h.2
  | next =>
    change ¬ (t.stream.peekSignificant 0).kind.IsBoundary
    rwa [hstream]
  | declared =>
    refine ⟨hword h.1, ?_⟩
    rw [hstream]
    exact h.2
  | inside => exact hcolon h
  | amid =>
    refine ⟨?_, hcolon (State.Amid.colon h)⟩
    unfold State.NameNext
    rw [hstream, hbefore]
    exact State.Amid.start h
  | ended => exact hended h
  | stopped =>
    refine ⟨hended h.1, fun hstop => ⟨hword (h.2 hstop).1, ?_⟩⟩
    unfold State.OnCloser
    rw [hstream]
    exact (h.2 hstop).2
  | closable =>
    refine ⟨hended h.1, fun hstop => ⟨hword (h.2 hstop).1, ?_⟩⟩
    rw [hstream]
    exact (h.2 hstop).2

/-- To open a node leaves the cursor where it stands. -/
theorem Holds.opening (h : c.Holds s) (k : NodeKind) : c.Holds (s.opening k) :=
  h.congr (s := s) rfl rfl rfl

/-- To close a node leaves the cursor where it stands. -/
theorem Holds.closing (h : c.Holds s) : c.Holds s.closing :=
  h.congr (s := s) rfl (State.before_closing s) rfl

end Standing

/-- A production that keeps what has been read in its place and leads from one standing to
another. -/
class Proceeds (c : Standing) (e : outParam Standing) {α : Type} (p : Production α) : Prop where
  proceeds {tokens : List Token} {flat : Prop} {s : State} : s.InPlace tokens flat → c.Holds s →
    (p.run s).2.InPlace tokens flat ∧ e.Holds (p.run s).2

/-- A production that adds no colon by itself from a standing on. -/
class AddsNoColon (c : Standing) {α : Type} (p : Production α) : Prop where
  addsAll {tokens : List Token} {flat : Prop} {s : State} : s.InPlace tokens flat → c.Holds s →
    s.AddsAll Tree.IsNoColon (p.run s).2

/-! ## Moves -/

section

variable {α β : Type} {p q : Production α} {c m e : Standing}

/-- Another standing is known to follow. -/
theorem Proceeds.weaken {c' e' : Standing} (h : Proceeds c e p) (hc : ∀ {s}, c'.Holds s → c.Holds s)
    (he : ∀ {s}, e.Holds s → e'.Holds s) : Proceeds c' e' p where
  proceeds hs hstand := (h.proceeds hs (hc hstand)).imp_right he

/-- What leads on from within a statement does so from every place without a second colon. -/
theorem Proceeds.of_inside [hc : IsTrue c.isClean] (h : Proceeds .inside e p) : Proceeds c e p :=
  h.weaken (fun hs => hs.noSecondColon hc.eq_true) id

/-- Of two productions that lead to a place, the one that is chosen does. -/
theorem Proceeds.ite {b : Prop} [Decidable b] (hp : b → Proceeds c e p)
    (hq : ¬ b → Proceeds c e q) :
    Proceeds c e (if b then p else q) := by
  split
  next h => exact hp h
  next h => exact hq h

instance {b : Prop} [Decidable b] [hp : Proceeds c e p] [hq : Proceeds c e q] :
    Proceeds c e (if b then p else q) := .ite (fun _ => hp) fun _ => hq

/-- Productions lead on one behind the other. -/
theorem Proceeds.bind {f : α → Production β} (hp : Proceeds c m p) (hf : ∀ a, Proceeds m e (f a)) :
    Proceeds c e (p >>= f) where
  proceeds hs hc := by
    obtain ⟨hplace, hstand⟩ := hp.proceeds hs hc
    exact (hf _).proceeds hplace hstand

instance {f : α → Production β} [hp : Proceeds c m p] [hf : ∀ a, Proceeds m e (f a)] :
    Proceeds c e (p >>= f) := .bind hp hf

/-- What moves nothing leaves the standing as it is. -/
instance (priority := 10001) [hp : Phrasal p] [Obeys .part p] [hstill : Still p] :
    Proceeds c c p where
  proceeds {_ _ s} hs hc := by
    have hstream := hstill.stream_eq s
    refine ⟨hs.phrasal (.of_stream_eq hstream), hc.congr hstream ?_ (hp.lastSeparator_eq s)⟩
    -- where the cursor stays no token is added
    obtain ⟨moved, hrest, hbefore⟩ := (hp.composed.follows s).moved
    rw [hstream] at hrest
    obtain rfl : moved = [] :=
      List.eq_nil_of_length_eq_zero (by simpa using congrArg List.length hrest)
    rwa [List.append_nil] at hbefore

instance : Proceeds c c secondKind := by unfold secondKind; infer_instance

instance : Proceeds c c checkpoint := by unfold checkpoint; infer_instance

instance (loops : Nat) : Proceeds c c (setPendingNext loops) where
  proceeds {_ _ s} hs hc :=
    ⟨hs.of_silent (t := { s with pendingNext := loops }) rfl rfl (List.prefix_refl _)
    rfl hs.offBreak, Standing.Holds.congr (s := s) rfl rfl rfl hc⟩

/-! ### Parts of statements -/

section

variable [hp : Phrasal p] [Obeys .part p]

/-- A phrase that moves no boundary of a statement stays within the statement. -/
theorem Phrasal.proceeds_of_movesNo
    (hc : ∀ {s}, c.Holds s → s.MovesNo Kind.IsBoundary p ∧ s.NoSecondColon) :
    Proceeds c .inside p where
  proceeds hs h :=
    have _ := hp.composed
    ⟨hs.phrasal (hc h).1, (hc h).2.moved (hc h).1⟩

instance (priority := high) [h : MovesNo Kind.IsBoundary p] : Proceeds .any .any p where
  proceeds {_ _ s} hs _ := ⟨hs.phrasal (h.movesNo s), trivial⟩

instance (priority := high) [h : MovesNo Kind.IsBoundary p] : Proceeds .inside .inside p :=
  hp.proceeds_of_movesNo fun {s} hs => ⟨h.movesNo s, hs⟩

instance (priority := high) [h : MovesNo Kind.IsBoundary p] : Proceeds .amid .amid p where
  proceeds {_ _ s} hs hamid :=
    have _ := hp.composed
    ⟨hs.phrasal (h.movesNo s), State.Amid.moved hamid (h.movesNo s)⟩

instance (priority := high) [h : MovesNoFromWord Kind.IsBoundary p] : Proceeds .start .inside p :=
  hp.proceeds_of_movesNo fun {s} hs =>
    ⟨h.movesNo s hs.not_isBoundary, Standing.Holds.noSecondColon rfl hs⟩

instance (priority := high) [h : MovesNoFromNext Kind.IsBoundary p] : Proceeds .next .inside p :=
  hp.proceeds_of_movesNo fun {s} hs => ⟨h.movesNo s hs, Standing.Holds.noSecondColon rfl hs⟩

end

/-- Behind a word that is moved the statement goes on. -/
instance (priority := 10002) : Proceeds .start .amid shift where
  proceeds {_ _ s} hs hword := by
    obtain ⟨hsolid, hboundary⟩ := hword
    refine ⟨hs.shift, ?_⟩
    have hne := Kind.ne_of_not_isBoundary hboundary
    by_cases hend : s.AtEnd
    · have hkind := kind_peekSignificant_of_atEnd hend
      rw [run_shift_of_atEnd hend]
      refine ⟨fun hname => ?_, fun hcolon => absurd (hkind.symm.trans hcolon) (by simp)⟩
      rcases hname with hname | hname <;> cases hkind.symm.trans hname
    · rw [run_shift hend]
      refine ⟨fun _ hstart => hne.1 ?_, State.noSecondColon_shifted hsolid hne.2⟩
      rwa [State.before_shifted, startsLine_snoc hsolid] at hstart

/-- Behind the blanks something of the statement is at the cursor. -/
instance (priority := 10002) : Proceeds .next .start skipBlanks where
  proceeds {_ _ s} hs hnext := by
    have hmoves : MovesNo Kind.IsBoundary skipBlanks := inferInstance
    refine ⟨hs.phrasal (hmoves.movesNo s), isInlineTrivia_skipBlanks s, ?_⟩
    rwa [current_skipBlanks]

instance (priority := 10002) : Proceeds .next .amid shiftNext :=
  .bind (m := .start) inferInstance inferInstance

instance (priority := 10002) : Proceeds .start .amid shiftNext :=
  .weaken (c := .next) inferInstance State.AtWord.next id

/-- Behind the first of two words the second comes next. -/
instance (priority := 10002) : Proceeds .pair .next shift where
  proceeds {_ _ s} hs hpair := by
    obtain ⟨⟨hsolid, -⟩, hsecond⟩ := hpair
    refine ⟨hs.shift, ?_⟩
    by_cases hend : s.AtEnd
    · rw [run_shift_of_atEnd hend]
      have hkind := kind_peekSignificant_of_atEnd hend
      change ¬ (s.stream.peekSignificant 0).kind.IsBoundary
      rw [hkind]
      exact Bool.false_ne_true
    · rw [run_shift hend]
      change ¬ (s.stream.advance.peekSignificant 0).kind.IsBoundary
      rwa [TokenStream.peekSignificant_advance_succ hsolid (TokenStream.ahead_ne_nil hend)]

instance (priority := 10002) : Proceeds .pair .next shiftNext where
  proceeds {_ _ s} hs hpair := by
    have hshift : Proceeds .pair .next shift := inferInstance
    unfold shiftNext
    rw [run_bind, run_skipBlanks_of_significant hpair.1.isInlineTrivia]
    exact hshift.proceeds hs hpair

instance (priority := 10002) : Proceeds .any .any shift where
  proceeds hs _ := ⟨hs.shift, trivial⟩

instance (priority := 10002) : Proceeds .declared .inside shiftDeclarator :=
  Phrasal.proceeds_of_movesNo fun hs =>
    ⟨movesNo_shiftDeclarator hs.2, Standing.Holds.noSecondColon rfl hs⟩

/-- What is done when something of the statement comes next. -/
instance (priority := high) {test : Production Bool} [ht : TestsNext Kind.IsBoundary test]
    [hp : Proceeds .next e p] [hq : Proceeds .inside e q] :
    Proceeds .inside e (test >>= fun b => if b then p else q) where
  proceeds {_ _ s} hs hcolon := by
    rw [run_bind, ht.run_eq]
    dsimp only
    cases htest : (test.run s).1 with
    | true => exact hp.proceeds hs (ht.not_bar htest)
    | false => exact hq.proceeds hs hcolon

/-! ### Colons -/

instance [h : AddsLine p] : AddsOnly .any Tree.IsNoColon p :=
  addsOnly_iff.mpr fun s hs => by
    obtain ⟨trees, hadds, -, -, hcolon⟩ := h.holds s hs
    exact ⟨trees, hadds, Tree.isNoColon_of_leaves hcolon⟩

/-- A node is no colon. -/
instance {k : NodeKind} [h : Lays p] : AddsOnly .any Tree.IsNoColon (within k p) :=
  addsOnly_iff.mpr fun s hs => by
    obtain ⟨trees, hadds, -⟩ := h.addsAll (State.innermostInRow_opening s k)
    exact .of_adds (hadds.closing_opening hs).1 (Tree.isNoColon_above _ _ _)

instance [h : AddsOnly .any Tree.IsNoColon p] : AddsNoColon c p where
  addsAll hs _ := h.addsAll hs.innermostInRow

/-- What moves no boundary of a statement adds no colon. -/
theorem AddsNoColon.of_movesNo [Obeys .part p]
    (h : ∀ {s}, c.Holds s → s.MovesNo Kind.IsBoundary p) :
    AddsNoColon c p where
  addsAll hs hc := by
    obtain ⟨trees, hadds, -, hinside⟩ := (h hc).exists_adds hs.innermostInRow
    exact ⟨trees, hadds, Tree.isNoColon_of_leaves fun u hu =>
      (Kind.ne_of_not_isBoundary (hinside u hu)).2⟩

instance [Obeys .part p] [h : MovesNoFromWord Kind.IsBoundary p] : AddsNoColon .start p :=
  .of_movesNo fun {s} hs => h.movesNo s hs.not_isBoundary

instance [Obeys .part p] [h : MovesNoFromNext Kind.IsBoundary p] : AddsNoColon .start p :=
  .of_movesNo fun {s} hs => h.movesNo s hs.next

instance [Obeys .part p] [h : MovesNoFromNext Kind.IsBoundary p] : AddsNoColon .pair p :=
  .of_movesNo fun {s} hs => h.movesNo s hs.1.next

instance [Obeys .part p] [h : MovesNoFromNext Kind.IsBoundary p] : AddsNoColon .next p :=
  .of_movesNo fun {s} hs => h.movesNo s hs

instance : AddsNoColon .declared shiftDeclarator :=
  .of_movesNo fun hs => movesNo_shiftDeclarator hs.2

instance {f : α → Production β} [hp : Proceeds c m p] [hadds : AddsNoColon c p]
    [hf : ∀ a, AddsNoColon m (f a)] : AddsNoColon c (p >>= f) where
  addsAll hs hc := by
    obtain ⟨hplace, hstand⟩ := hp.proceeds hs hc
    exact (hadds.addsAll hs hc).trans ((hf _).addsAll hplace hstand)

instance {b : Prop} [Decidable b] [hp : AddsNoColon c p] [hq : AddsNoColon c q] :
    AddsNoColon c (if b then p else q) := by
  split <;> assumption

/-! ### Nodes and contexts -/

/-- A free node around a production leaves it in place. -/
theorem inPlace_within {k : NodeKind} (hk : k.isFree = true) [hbody : Composed false p]
    {tokens : List Token}
    {flat : Prop} {s : State} (hs : s.InnermostInRow)
    (h : (p.run (s.opening k)).2.InPlace tokens flat) :
    ((within k p).run s).2.InPlace tokens flat := by
  have hinnermost := (Composed.within (k := k) hbody).innermostInRow hs
  rw [run_within] at hinnermost ⊢
  exact h.closing hinnermost (hbody.sameContext _).opened rfl (Tree.lineRule_of_isFree hk _ _)
    (Tree.reportRule_of_ne (by rintro rfl; cases hk) _ _)

/-- A node that holds lines. -/
theorem inPlace_frame {k : NodeKind} (hk : k.isColonFree = true) {tokens : List Token}
    {flat : Prop} {s : State}
    (hs : s.InnermostInRow) (hadds : (s.opening k).AddsAll Tree.IsNoColon (p.run (s.opening k)).2)
    (h : (p.run (s.opening k)).2.InPlace tokens flat) :
    ((within k p).run s).2.InPlace tokens flat := by
  obtain ⟨trees, hadds, htrees⟩ := hadds
  rw [run_within]
  exact h.closing_opening hs hadds (Tree.lineRule_of_isColonFree hk _ htrees)
    (Tree.reportRule_of_ne (by rintro rfl; cases hk) _ _)

instance {k : NodeKind} [hk : IsTrue k.isColonFree] [hadds : AddsNoColon c p] [h : Proceeds c e p] :
    Proceeds c e (within k p) where
  proceeds {_ _ s} hs hc := by
    obtain ⟨hplace, hstand⟩ := h.proceeds (hs.opening k) (hc.opening k)
    exact ⟨inPlace_frame hk.eq_true hs.innermostInRow
      (hadds.addsAll (hs.opening k) (hc.opening k)) hplace,
      hstand.closing⟩

instance {k : NodeKind} [hk : IsTrue k.isFree] [hbody : Composed false p] [h : Proceeds c e p] :
    Proceeds c e (within k p) where
  proceeds {_ _ s} hs hc := by
    obtain ⟨hplace, hstand⟩ := h.proceeds (hs.opening k) (hc.opening k)
    exact ⟨inPlace_within hk.eq_true hs.innermostInRow hplace, hstand.closing⟩

instance {cp : Checkpoint} {k : NodeKind} {p : Production Unit} [hk : IsTrue k.isFree]
    [hbody : Composed false p] [h : Proceeds c e p] : Proceeds c e (compositeFrom cp k p) where
  proceeds {_ _ s} hs hc := by
    have hopened : (s.openingAt cp k).InnermostInRow :=
      Nat.max_le.mpr ⟨hs.innermostInRow, Nat.min_le_right _ _⟩
    have hopening : (s.openingAt cp k).InPlace _ _ :=
      ⟨hs.comments, hopened, hs.tokens_eq, hs.ruled, hs.reported, hs.strays, hs.offBreak⟩
    obtain ⟨hplace, hstand⟩ := h.proceeds hopening (.congr (s := s) rfl rfl rfl hc)
    have hcomposed : Composed false (compositeFrom cp k p) := .compositeFrom hbody
    have hinnermost := hcomposed.innermostInRow hs.innermostInRow
    rw [run_compositeFrom] at hinnermost ⊢
    refine ⟨hplace.closing hinnermost (hbody.sameContext _).opened rfl ?_ ?_, hstand.closing⟩
    · exact Tree.lineRule_of_isFree hk.eq_true _ _
    · exact Tree.reportRule_of_ne (by rintro rfl; cases hk.eq_true) _ _

end

/-! ## The ends of statements -/

instance (priority := 10002) : Proceeds .any .any finishStatement where
  proceeds hs _ :=
    have hplace := (inPlace_finishStatement hs).1
    ⟨{ hplace with offBreak := fun _ => hplace.offBreak trivial }, trivial⟩

instance (priority := 10002) {c : Standing} [hc : IsTrue c.isClean] :
    Proceeds c .ended finishStatement where
  proceeds hs hstand := by
    obtain ⟨hplace, hended⟩ := inPlace_finishStatement hs
    exact ⟨{ hplace with offBreak := fun _ => hplace.offBreak trivial },
      (hended (hstand.noSecondColon hc.eq_true)).knowsLine⟩

/-! ## Simple statements -/

instance (k : NodeKind) [IsTrue k.isFree] : Proceeds .start .ended (rawStatement k) := by
  unfold rawStatement
  infer_instance

instance : Proceeds .start .ended dimStatement := by unfold dimStatement; infer_instance

instance : Proceeds .declared .ended constStatement := by unfold constStatement; infer_instance

instance : Proceeds .start .ended reDimStatement := by unfold reDimStatement; infer_instance

instance : Proceeds .start .ended eraseStatement := by unfold eraseStatement; infer_instance

instance : Proceeds .declared .ended declareStatement := by
  unfold declareStatement
  dsimp only
  infer_instance

instance : Proceeds .declared .ended eventStatement := by
  unfold eventStatement
  dsimp only
  infer_instance

instance : Proceeds .start .ended implementsStatement := by
  unfold implementsStatement
  infer_instance

instance {c : Standing} [IsTrue c.isClean] : Proceeds c .ended assignment :=
  .of_inside (by unfold assignment; dsimp only; infer_instance)

instance : Proceeds .start .ended assignmentStatement := by
  unfold assignmentStatement
  infer_instance

instance (k : NodeKind) [IsTrue k.isFree] : Proceeds .start .ended (wordedAssignment k) := by
  unfold wordedAssignment
  infer_instance

instance {c : Standing} [IsTrue c.isClean] : Proceeds c .ended call :=
  .of_inside (by unfold call; dsimp only; infer_instance)

instance : Proceeds .start .ended callStatement := by unfold callStatement; infer_instance

instance : Proceeds .start .ended callKeywordStatement := by
  unfold callKeywordStatement
  infer_instance

instance : Proceeds .start .ended raiseEventStatement := by
  unfold raiseEventStatement
  dsimp only
  infer_instance

instance (k : NodeKind) [IsTrue k.isFree] : Proceeds .start .ended (wordStatement k) := by
  unfold wordStatement
  infer_instance

instance (k : NodeKind) [IsTrue k.isFree] : Proceeds .start .ended (jumpStatement k) := by
  unfold jumpStatement
  infer_instance

instance : Proceeds .start .ended resumeStatement := by
  unfold resumeStatement
  dsimp only
  infer_instance

instance : Proceeds .start .ended exitStatement := by unfold exitStatement; infer_instance

instance {b : Prop} [Decidable b] {k l : NodeKind} [hk : IsTrue k.isFree] [hl : IsTrue l.isFree] :
    IsTrue (if b then k else l).isFree := by
  split <;> assumption

instance {b : Prop} [Decidable b] {k l : NodeKind} [hk : IsTrue k.isColonFree]
    [hl : IsTrue l.isColonFree] :
    IsTrue (if b then k else l).isColonFree := by
  split <;> assumption

instance : Proceeds .start .ended onJumpStatement := by
  unfold onJumpStatement
  dsimp only
  infer_instance

instance : Proceeds .pair .ended onErrorStatement := by
  unfold onErrorStatement
  dsimp only
  infer_instance

instance : Proceeds .start .ended onStatement where
  proceeds {_ _ s} hs hword := by
    have herror : Proceeds .pair .ended onErrorStatement := inferInstance
    have hjump : Proceeds .start .ended onJumpStatement := inferInstance
    unfold onStatement secondKind
    rw [run_look_bind]
    split
    next hsecond =>
      refine herror.proceeds hs ⟨hword, ?_⟩
      rw [beq_iff_eq.mp hsecond]
      exact Bool.false_ne_true
    next => exact hjump.proceeds hs hword

instance : Proceeds .start .ended lineStatement := by unfold lineStatement; infer_instance

/-! ## What is no statement -/

/-- A node of unknown meaning that does not start with a colon has none to report. -/
theorem inPlace_unknown {p : Production Unit} {tokens : List Token} {flat : Prop} {s : State}
    (hs : s.InnermostInRow) (hcolon : s.stream.current.kind ≠ .lexeme .colon)
    (hadds : ∃ trees, (s.opening .unknown).Adds trees (p.run (s.opening .unknown)).2)
    (h : (p.run (s.opening .unknown)).2.InPlace tokens flat) :
    ((within .unknown p).run s).2.InPlace tokens flat := by
  obtain ⟨trees, hadds⟩ := hadds
  refine h.closing_opening hs hadds (Tree.lineRule_of_isPhrase rfl _ _) ?_
  rintro - t hleaves hkind
  -- a token that is alone in the node is the one at the cursor
  have hrest := hadds.rest
  rw [hleaves] at hrest
  have hcurrent : s.stream.current = t := TokenStream.current_of_rest hrest
  exact absurd (hcurrent ▸ hkind) hcolon

/-- A token that is not understood is in place unless it is a colon. -/
theorem inPlace_unknownToken {tokens : List Token} {flat : Prop} {s : State}
    (hs : s.InPlace tokens flat)
    (hcolon : s.stream.current.kind ≠ .lexeme .colon) :
    ((within .unknown shift).run s).2.InPlace tokens flat := by
  obtain ⟨trees, hadds, -⟩ := Obeys.holds (L := .part) (p := shift) (s.opening .unknown)
    (State.innermostInRow_opening s .unknown)
  exact inPlace_unknown hs.innermostInRow hcolon ⟨trees, hadds⟩ (hs.opening .unknown).shift

instance : Proceeds .start .ended unknownStatement where
  proceeds {_ _ s} hs hword := by
    have hline : AddsLineFromWord (do shift; shiftRest; finishStatement) := inferInstance
    have hbody : Proceeds .start .ended (do shift; shiftRest; finishStatement) := inferInstance
    obtain ⟨trees, hadds, -⟩ :=
      hline.holds (s.opening .unknown) (State.innermostInRow_opening s .unknown)
        hword.not_isBoundary
    obtain ⟨hplace, hended⟩ :=
      hbody.proceeds (hs.opening .unknown) (Standing.Holds.opening hword .unknown)
    exact ⟨inPlace_unknown hs.innermostInRow
      (Kind.ne_of_not_isBoundary hword.not_isBoundary).2 ⟨_, hadds⟩
      hplace, hended.closing⟩

instance : Proceeds .start .ended unexpectedStatement := by
  unfold unexpectedStatement
  dsimp only
  infer_instance

instance : Phrasal writtenCloser := by unfold writtenCloser; infer_instance

instance : Obeys .part writtenCloser := by unfold writtenCloser; infer_instance

instance (closer : Closer) : Proceeds .start .ended (strayCloser closer) := by
  unfold strayCloser
  infer_instance

end LosslessBasic.Grammar
