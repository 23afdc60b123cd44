import LosslessBasic.Proofs.Grammar.Obligations
import LosslessBasic.Proofs.Grammar.Standing

/-!
# Lists of statements and their lines

A list of statements goes on item by item, and each item is what it is by its place in the line
(`State.Lists`). Between two items the state knows where lines start: a line break, a colon and the
end of a statement each say what separates the next statement from the one before.

A statement is read with this knowledge and leaves it behind (`ReadsItem`).
-/

namespace LosslessBasic.Grammar

/-! ## Loops -/

/-- What holds behind a pass of a loop: `P` where another pass follows, and `Q` where the loop
ends. -/
structure Pass.Holds {α β : Type} (P : α → State → Prop) (Q : β → State → Prop)
    (r : Pass α β × State) :
    Prop where
  again : ∀ a, r.1 = .again a → P a r.2
  done : ∀ b, r.1 = .done b → Q b r.2

/-- A pass that goes on holds what is asked for in front of the next one. -/
theorem Pass.holds_again {α β : Type} {P : α → State → Prop} {Q : β → State → Prop}
    {a : α} {s : State}
    (h : P a s) : Pass.Holds P Q (.again a, s) where
  again _ hagain := Pass.again.inj hagain ▸ h
  done _ := nofun

/-- The last pass holds what is asked for behind the loop. -/
theorem Pass.holds_done {α β : Type} {P : α → State → Prop} {Q : β → State → Prop}
    {b : β} {s : State}
    (h : Q b s) : Pass.Holds P Q (.done b, s) where
  again _ := nofun
  done _ hdone := Pass.done.inj hdone ▸ h

/-- A loop leads to what holds behind its last pass. -/
theorem iterate_holds {α β : Type} {exhausted : α → β} {pass : α → Production (Pass α β)}
    [∀ a, Progresses (pass a)] {P : α → State → Prop} {Q : β → State → Prop}
    (hpass : ∀ a s, P a s → Pass.Holds P Q ((pass a).run s)) (a : α) {s : State} (h : P a s) :
    Q ((iterate exhausted pass a).run s).1 ((iterate exhausted pass a).run s).2 := by
  -- the rule of loops that add trees, with none to speak of
  have hloop : ∃ trees : List Tree,
      trees = [] ∧ Q ((iterate exhausted pass a).run s).1 ((iterate exhausted pass a).run s).2 := by
    refine iterate_leads (P := fun a trees s => trees = [] ∧ P a s) (Q := fun b trees s =>
      trees = [] ∧ Q b s)
      ?_ ⟨rfl, h⟩
    rintro a trees s ⟨hnil, ha⟩
    cases hresult : ((pass a).run s).1 with
    | again a' => exact .inl ⟨a', trees, rfl, hnil, (hpass a s ha).again a' hresult⟩
    | done b => exact .inr ⟨b, trees, rfl, hnil, (hpass a s ha).done b hresult⟩
  obtain ⟨-, -, hdone⟩ := hloop
  exact hdone

/-! ## Items -/

/-- What starts with neither a name nor a number starts no label. -/
theorem not_startsLabel {ts : List Token} (hname : Lookahead.frontKind ts ≠ .lexeme .identifier)
    (hnumber : Lookahead.frontKind ts ≠ .lexeme .integerLiteral) : ¬ StartsLabel ts := by
  cases ts with
  | nil => exact id
  | cons t ts =>
    rintro (hkind | ⟨hkind, -⟩)
    · exact hnumber hkind
    · exact hname hkind

namespace State

variable {s t u : State} {tokens : List Token} {flat : Prop} {n : Tree} {trees : List Tree}

/-- Between two states trees have been added of each of which `Q` holds, with the tokens in front of
it. -/
def AddsAlong (Q : Nat → Tree → Prop) (s t : State) : Prop :=
  ∃ trees, s.Adds trees t ∧ Tree.Along Q s.before.length trees

/-- Between two states items of a list have been added, each as its place in the line has it. -/
abbrev AddsItems (tokens : List Token) (s t : State) : Prop := s.AddsAlong (Tree.ItemRule tokens) t

/-- Items have been added up to a place between statements. -/
def Lists (tokens : List Token) (flat : Prop) (s t : State) : Prop :=
  s.AddsItems tokens t ∧ t.InPlace tokens flat ∧ t.KnowsLine

/-- Nothing is added. -/
theorem AddsAlong.refl {Q : Nat → Tree → Prop} (s : State) : s.AddsAlong Q s :=
  ⟨[], .refl s, trivial⟩

/-- Trees that are added one after the other stand where they have been added. -/
theorem AddsAlong.trans {Q : Nat → Tree → Prop} (h : s.AddsAlong Q t) (h' : t.AddsAlong Q u) :
    s.AddsAlong Q u := by
  obtain ⟨trees, hadds, hitems⟩ := h
  obtain ⟨more, hadds', hitems'⟩ := h'
  rw [hadds.before_eq, List.length_append] at hitems'
  exact ⟨trees ++ more, hadds.trans hadds', Tree.along_append.mpr ⟨hitems, hitems'⟩⟩

/-- An empty list is laid out. -/
theorem Lists.refl (hs : s.InPlace tokens flat) (hline : s.KnowsLine) : s.Lists tokens flat s :=
  ⟨.refl s, hs, hline⟩

/-- A list that goes on as it should is laid out. -/
theorem Lists.trans (h : s.Lists tokens flat t) (h' : t.Lists tokens flat u) :
    s.Lists tokens flat u :=
  ⟨h.1.trans h'.1, h'.2⟩

/-- One item has been added. -/
theorem Lists.of_adds (hs : s.InPlace tokens flat) (hadds : s.Adds [n] t)
    (hlabel : StartsLine s.before → StartsLabel s.stream.rest → n.kind = .node .labelStatement)
    (hcolon : n.isToken = true → n.kind = .lexeme .colon → ¬ BehindColon s.before)
    (ht : t.InPlace tokens flat) (hline : t.KnowsLine) : s.Lists tokens flat t := by
  refine ⟨⟨[n], hadds, ⟨?_, ?_⟩, trivial⟩, ht, hline⟩
  · rw [hs.take_eq, hs.drop_eq]
    exact hlabel
  · rw [Tree.ColonRule, hs.take_eq]
    exact hcolon

/-- What starts no label is added as one item. -/
theorem Lists.of_node (hs : s.InPlace tokens flat) (hadds : s.Adds [n] t)
    (hnode : n.isToken = false)
    (hname : s.stream.current.kind ≠ .lexeme .identifier)
    (hnumber : s.stream.current.kind ≠ .lexeme .integerLiteral) (ht : t.InPlace tokens flat)
    (hline : t.KnowsLine) : s.Lists tokens flat t :=
  .of_adds hs hadds (fun _ hlabel => absurd hlabel (not_startsLabel hname hnumber))
    (fun htoken => by rw [hnode] at htoken; cases htoken) ht hline

/-- A token is added as one item. -/
theorem Lists.of_shifted (hs : s.InPlace tokens flat) (hend : ¬ s.AtEnd)
    (hname : s.stream.current.kind ≠ .lexeme .identifier)
    (hnumber : s.stream.current.kind ≠ .lexeme .integerLiteral)
    (hcolon : s.stream.current.kind = .lexeme .colon → ¬ BehindColon s.before)
    (hadds : s.shifted.Adds [] t) (ht : t.InPlace tokens flat) (hline : t.KnowsLine) :
    s.Lists tokens flat t :=
  .of_adds (n := .leaf s.stream.current) hs ((Adds.shifted hend).trans hadds)
    (fun _ hlabel => absurd hlabel (not_startsLabel hname hnumber)) (fun _ => hcolon) ht hline

/-- Trees that obey the rule where they stand obey it among the others. -/
theorem Ruled.of_adds {P : Tree.Rule} (hs : s.Ruled P) (hadds : s.Adds trees t)
    (h : Tree.EveryAll P s.before.length trees) : t.Ruled P := by
  unfold Ruled
  rw [hadds.pending]
  refine Tree.everyAll_append.mpr ⟨hs, ?_⟩
  rw [Nat.zero_add]
  exact h

/-! ## Between statements -/

/-- A blank that is moved leaves what is known of the line. -/
theorem KnowsLine.shifted (h : s.KnowsLine) (hblank : s.stream.current.kind.isInlineTrivia = true) :
    s.shifted.KnowsLine := by
  have hnext : s.shifted.stream.peekSignificant 0 = s.stream.peekSignificant 0 :=
    TokenStream.peekSignificant_advance hblank 0
  have hlast : lastWord? s.shifted.before = lastWord? s.before := by
    rw [before_shifted, lastWord?_append, lastWord?_eq_none.mpr (by simpa using hblank),
      Option.none_or]
  constructor
  · unfold KnowsStart NameNext StartsLine
    rw [hnext, hlast]
    exact h.start
  · unfold NoSecondColon BehindColon
    rw [hnext, hlast]
    exact h.colon

/-- Behind a comment its line ends, and nothing is asked of what separates statements. -/
theorem KnowsLine.of_comment (hs : s.InPlace tokens flat)
    (hcomment : s.stream.current.kind.isComment = true) :
    s.shifted.KnowsLine := by
  have hends := endsStatement_behind_comment hs.comments_ahead hcomment s.lineMode
  have hsolid := Kind.isInlineTrivia_of_isComment hcomment
  refine ⟨fun hname => absurd hname (not_nameNext_of_endsStatement (s := s.shifted) hends),
    fun _ => ?_⟩
  refine noSecondColon_shifted hsolid fun hcolon => ?_
  rw [hcolon] at hcomment
  cases hcomment

end State

section

variable {s : State} {tokens : List Token} {flat : Prop}

/-- A token without meaning for the grammar is moved. -/
theorem lists_shiftTrivia (hs : s.InPlace tokens flat) (hline : s.KnowsLine)
    (hkind : s.stream.current.kind.isTrivia = true)
    (hbreak : s.stream.current.kind = .trivia .newline → s.lineMode = 0) :
    s.Lists tokens flat (shiftTrivia.run s).2 := by
  have hne := Kind.ne_lexeme_of_isTrivia hkind
  have hend : ¬ s.AtEnd := hne .endOfFile
  have hadd {t : State} := State.Lists.of_shifted (t := t) hs hend (hne _) (hne _)
    fun hcolon => absurd hcolon (hne _)
  unfold shiftTrivia currentKind
  rw [run_look_bind, run_bind, run_shift hend]
  split
  next hnewline =>
    have hnewline := beq_iff_eq.mp hnewline
    refine hadd (.of_silent rfl rfl rfl rfl rfl) ?_
      (State.ended_behind_lineBreak hnewline).knowsLine
    exact (hs.shifted hend).setSeparator fun _ h =>
      absurd h (by simp [State.shifted, hbreak hnewline])
  next hother =>
    refine hadd (.refl _) (hs.shifted hend) ?_
    cases htrivia : s.stream.current.kind with
    | trivia t =>
      cases t with
      | newline => simp [htrivia] at hother
      | whitespace | lineContinuation => exact hline.shifted (by rw [htrivia]; rfl)
      | endOfLineComment | remComment => exact .of_comment hs (by rw [htrivia]; rfl)
    | _ => rw [htrivia] at hkind; cases hkind

/-- Behind a colon another one separates nothing. -/
theorem State.knowsLine_behind_colon {t : State} (hseparator : t.lastSeparator = .colon)
    (hstart : ¬ StartsLine t.before) : t.KnowsLine := by
  refine ⟨fun _ => ⟨fun h => ?_, fun h => absurd h hstart⟩, fun h => ?_⟩
  · rw [hseparator] at h
    cases h
  · rw [hseparator] at h
    cases h

/-- A token is put under a node of unknown meaning. -/
theorem adds_unknownToken (hs : s.InnermostInRow) (hend : ¬ s.AtEnd) :
    ∃ a, s.Adds [.node (.node .unknown) a [.leaf s.stream.current]]
      ((within .unknown shift).run s).2 := by
  have hend' : ¬ (s.opening .unknown).AtEnd := hend
  have hadds := (State.Adds.closing_opening hs (.shifted hend')).1
  rw [run_within, run_shift hend']
  exact ⟨_, hadds⟩

/-- A colon that separates nothing is reported, and put under a node of unknown meaning. -/
theorem inPlace_strayColon (hs : s.InPlace tokens flat)
    (hkind : s.stream.current.kind = .lexeme .colon) :
    (∃ a, s.Adds [.node (.node .unknown) a [.leaf s.stream.current]]
      ((do report .straySeparator s.stream.current; within .unknown shift).run s).2) ∧
      ((do report .straySeparator s.stream.current; within .unknown shift).run s).2.InPlace
        tokens flat := by
  have hend : ¬ s.AtEnd := by simp [State.AtEnd, hkind]
  generalize hreported : ((report .straySeparator s.stream.current).run s).2 = t
  -- the only thing that has changed is the list of failures
  have hfailures :
      t.failures.toList = s.failures.toList ++ [.atToken .straySeparator s.stream.current] := by
    rw [← hreported]
    exact Array.toList_push
  have hcurrent : t.stream.current = s.stream.current := by rw [← hreported]; rfl
  have hsilent : s.Adds [] t := by rw [← hreported]; exact .of_silent rfl rfl rfl rfl rfl
  obtain ⟨a, hadds⟩ := adds_unknownToken (hsilent.innermostInRow hs.innermostInRow)
    (by rwa [State.AtEnd, hcurrent])
  rw [hcurrent] at hadds
  have hfinal : ((within .unknown shift).run t).2.failures = t.failures := by
    rw [run_within]
    exact failures_shift _
  rw [run_bind, hreported]
  have hboth := hsilent.trans hadds
  refine ⟨⟨a, hboth⟩, hs.of_adds hboth (hs.ruled.of_adds hboth ?_) ?_ ?_ ?_ ?_⟩
  · refine ⟨⟨fun l hl => ?_, trivial, trivial⟩, trivial⟩
    cases hl
    exact Tree.lineRule_of_isPhrase rfl _ _
  · refine ⟨⟨fun l hl _ u hu _ => ?_, trivial, trivial⟩, trivial⟩
    cases hl
    obtain rfl : s.stream.current = u := by simpa [Tree.leavesAll, Tree.leaves] using hu
    rw [hfinal, hfailures]
    exact List.mem_append_right _ (List.mem_singleton.mpr rfl)
  · rw [hfinal, hfailures]
    exact List.prefix_append _ _
  · refine ⟨[s.stream.current], by simp [Tree.leavesAll, Tree.leaves], ?_⟩
    unfold State.strays
    rw [hfinal, hfailures, List.filter_append]
    rfl
  · have hphrasal : Phrasal (within .unknown shift) := inferInstance
    have hseparator : t.lastSeparator = s.lastSeparator := by rw [← hreported]; rfl
    rw [State.OffBreak, hboth.context.lineMode, hphrasal.lastSeparator_eq, hseparator]
    exact hs.offBreak

/-- A colon between statements is moved, or reported where it separates nothing. -/
theorem lists_separator (hs : s.InPlace tokens flat) (hline : s.KnowsLine)
    (hkind : s.stream.current.kind = .lexeme .colon) : s.Lists tokens flat (separator.run s).2 := by
  have hend : ¬ s.AtEnd := by simp [State.AtEnd, hkind]
  have hsolid : s.stream.current.kind.isInlineTrivia = false := by rw [hkind]; rfl
  have hnext : (s.stream.peekSignificant 0).kind = .lexeme .colon := by
    rw [TokenStream.peekSignificant_zero hsolid, hkind]
  -- in both cases the colon is what stands in front of the next statement
  have hset {t : State} (ht : t.InPlace tokens flat)
      (hbefore : t.before = s.before ++ [s.stream.current]) :
      ((setSeparator .colon).run t).2.InPlace tokens flat ∧
        ((setSeparator .colon).run t).2.KnowsLine := by
    refine ⟨ht.setSeparator fun _ _ => nofun, State.knowsLine_behind_colon rfl ?_⟩
    change ¬ StartsLine t.before
    rw [hbefore, startsLine_snoc hsolid, hkind]
    nofun
  unfold separator current
  rw [run_bind, run_get]
  dsimp only
  split
  next hnone =>
    obtain ⟨hplace, hline'⟩ := hset (hs.shifted hend) (State.before_shifted s)
    rw [run_bind, run_shift hend]
    exact .of_shifted hs hend (by simp [hkind]) (by simp [hkind])
      (fun _ => hline.colon (beq_iff_eq.mp hnone) hnext) (.of_silent rfl rfl rfl rfl rfl)
        hplace hline'
  next =>
    obtain ⟨⟨a, hadds⟩, hplace⟩ := inPlace_strayColon hs hkind
    obtain ⟨hplace', hline'⟩ := hset hplace hadds.before_eq
    rw [run_look_bind]
    exact .of_node hs (hadds.trans (.of_silent rfl rfl rfl rfl rfl)) rfl (by simp [hkind])
      (by simp [hkind])
      hplace' hline'

/-- What adds nothing and leaves the line as it is leaves the list where it is. -/
theorem lists_of_addsNone {α : Type} {p : Production α} [AddsNone p] [hp : Proceeds .ended .ended p]
    (hs : s.InPlace tokens flat) (hline : s.KnowsLine) : s.Lists tokens flat (p.run s).2 := by
  obtain ⟨hplace, hline'⟩ := hp.proceeds hs hline
  exact ⟨⟨[], AddsNone.adds hs.innermostInRow, trivial⟩, hplace, hline'⟩

end

/-- A production that reads a statement, with what is known of the line. Where labels stand it reads
a label. -/
class ReadsItem (p : Production Unit) : Prop where
  reads {tokens : List Token} {flat : Prop} {s : State} :
    s.InPlace tokens flat → s.AtStart → s.KnowsLine →
      (p.run s).2.InPlace tokens flat ∧ (p.run s).2.KnowsLine ∧
        (StartsLine s.before → StartsLabel s.stream.rest →
          ∀ n, s.Adds [n] (p.run s).2 → n.kind = .node .labelStatement)

/-! ## Lists -/

instance (t : Token) : Phrasal (reportMissingCloser t) := by
  unfold reportMissingCloser
  refine .bind .get fun s => ?_
  cases s.blocks <;> infer_instance

instance (problem : Problem) (t : Token) : Obeys .part (report problem t) where
  holds _ _ := ⟨[], .of_silent rfl rfl rfl rfl rfl, fun _ => trivial⟩

instance (t : Token) : Obeys .part (reportMissingCloser t) where
  holds s hs := by
    unfold reportMissingCloser
    rw [run_bind, run_get]
    dsimp only
    split <;> exact Obeys.holds s hs

/-- A statement is no token. -/
theorem isToken_of_isStatement {n : Tree} (h : n.IsStatement) : n.isToken = false := by
  cases n with
  | leaf => cases h
  | node => rfl

section

variable {statement : Production Unit} [LaysStatement statement] [ReadsItem statement] {s : State}
  {tokens : List Token} {flat : Prop}

omit [LaysStatement statement] [ReadsItem statement] in
/-- To report a missing closer leaves a list laid out. -/
theorem lists_reportMissingCloser (hs : s.InPlace tokens flat) (hline : s.KnowsLine) (t : Token)
    (stop : Stop) : s.Lists tokens flat
      ((reportMissingCloser t >>= fun _ => pure (Pass.done (α := Unit) stop)).run s).2 :=
  lists_of_addsNone hs hline

omit [LaysStatement statement] [ReadsItem statement] in
/-- A closer that no block waits for is no label. -/
theorem lists_strayCloser {closer : Closer} (hs : s.InPlace tokens flat) (hstart : s.AtStart)
    (hcloser : Closer.ofKinds? s.stream.current.kind (s.stream.peekSignificant 1).kind =
      some closer) :
    s.Lists tokens flat ((strayCloser closer).run s).2 := by
  have hlays : LaysStatementFromWord (strayCloser closer) := inferInstance
  have hproceeds : Proceeds .start .ended (strayCloser closer) := inferInstance
  obtain ⟨n, hadds, -, hstatement⟩ := hlays.holds s hs.innermostInRow hstart.not_isBoundary
  obtain ⟨hplace, hline⟩ := hproceeds.proceeds hs hstart.atWord
  refine .of_node hs hadds (isToken_of_isStatement hstatement) ?_ ?_ hplace hline <;>
  · intro hkind
    rw [hkind] at hcloser
    cases hcloser

omit [LaysStatement statement] [ReadsItem statement] in
/-- A line that starts with a closer leaves a list laid out. -/
theorem lists_closerPass {closer : Closer} (hs : s.InPlace tokens flat) (hstart : s.AtStart)
    (hline : s.KnowsLine)
    (hcloser : Closer.ofKinds? s.stream.current.kind (s.stream.peekSignificant 1).kind =
      some closer) :
    s.Lists tokens flat ((closerPass closer).run s).2 := by
  have hopen : ((blockIsOpen closer.block).run s).2 = s := rfl
  unfold closerPass current
  rw [run_bind, run_get]
  dsimp only
  split
  · exact .refl hs hline
  · rw [run_bind, hopen]
    split
    · exact lists_reportMissingCloser hs hline s.stream.current _
    · exact lists_strayCloser hs hstart hcloser

variable (statement) in
/-- A statement leaves a list laid out. -/
theorem lists_statement (hs : s.InPlace tokens flat) (hstart : s.AtStart) (hline : s.KnowsLine) :
    s.Lists tokens flat (statement.run s).2 := by
  obtain ⟨n, hadds, -, hstatement⟩ :=
    LaysStatement.holds (p := statement) s hs.innermostInRow hstart
  obtain ⟨hplace, hline', hlabel⟩ := ReadsItem.reads (p := statement) hs hstart hline
  refine .of_adds hs hadds (fun h h' => hlabel h h' n hadds) (fun htoken => ?_) hplace hline'
  rw [isToken_of_isStatement hstatement] at htoken
  cases htoken

/-- A line that starts with a statement leaves a list laid out. -/
theorem lists_statementPass (hs : s.InPlace tokens flat) (hstart : s.AtStart)
    (hline : s.KnowsLine) :
    s.Lists tokens flat ((statementPass statement).run s).2 := by
  have hstatement := lists_statement statement hs hstart hline
  unfold statementPass
  rw [run_bind, run_bind, run_get]
  dsimp only
  split
  · exact hstatement.trans (lists_of_addsNone (p := setPendingNext _ >>= fun _ => pure _)
      hstatement.2.1 hstatement.2.2)
  · exact hstatement

/-- One step through a list leaves it laid out. -/
theorem lists_listPass (hs : s.InPlace tokens flat) (hline : s.KnowsLine) (hend : ¬ s.AtEnd)
    (hbreak : s.stream.current.kind = .trivia .newline → s.lineMode = 0) :
    s.Lists tokens flat ((listPass statement).run s).2 := by
  unfold listPass currentKind
  rw [run_look_bind]
  split
  next htrivia => exact lists_shiftTrivia hs hline htrivia hbreak
  next htrivia =>
    split
    next hcolon => exact lists_separator hs hline (beq_iff_eq.mp hcolon)
    next hcolon =>
      have hstart : s.AtStart := ⟨by simpa using htrivia, by simpa using hcolon, hend⟩
      have hinside : (insideProcedure.run s).2 = s := rfl
      have hheader : (atProcedureHeader.run s).2 = s := rfl
      unfold nextCloser?
      rw [run_look_bind, TokenStream.peekSignificant_zero hstart.isInlineTrivia]
      cases hcloser : Closer.ofKinds? s.stream.current.kind (s.stream.peekSignificant 1).kind with
      | some closer => exact lists_closerPass hs hstart hline hcloser
      | none =>
        unfold closerOrStatementPass current
        rw [run_bind, hinside, run_bind, hheader]
        split
        · exact lists_reportMissingCloser hs hline _ _
        · exact lists_statementPass hs hstart hline

variable (statement) in
/-- Each step through a list goes on by items. -/
theorem lists_statementsPass (hs : s.InPlace tokens flat) (hline : s.KnowsLine) (u : Unit) :
    s.Lists tokens flat ((statementsPass statement u).run s).2 := by
  unfold statementsPass current
  rw [run_look_bind]
  split
  next => exact lists_reportMissingCloser hs hline _ _
  next hend =>
    rw [run_bind, run_get]
    dsimp only
    split
    next => exact lists_reportMissingCloser hs hline _ _
    next hinline =>
      refine lists_listPass hs hline (by simpa [State.AtEnd] using hend) fun hbreak => ?_
      simpa [hbreak, endsInlineList] using hinline

variable [Composed false statement] [Advances statement]

variable (statement) in
/-- A list of statements is read item by item. -/
theorem lists_statements (hs : s.InPlace tokens flat) (hline : s.KnowsLine) :
    s.Lists tokens flat ((statements statement).run s).2 := by
  unfold statements
  refine iterate_holds (P := fun _ t => s.Lists tokens flat t) (Q := fun _ t =>
    s.Lists tokens flat t) ?_
    () (.refl hs hline)
  intro u t h
  have hpass := h.trans (lists_statementsPass statement h.2.1 h.2.2 u)
  exact ⟨fun _ _ => hpass, fun _ _ => hpass⟩

/-- The items of a list stand below its node. -/
theorem inPlace_list {k : NodeKind} (hk : k = .root ∨ k = .statementList) {α : Type}
    {p : Production α}
    (hs : s.InnermostInRow) (h : (s.opening k).AddsItems tokens (p.run (s.opening k)).2)
    (hplace : (p.run (s.opening k)).2.InPlace tokens flat) :
    ((within k p).run s).2.InPlace tokens flat := by
  obtain ⟨trees, hadds, hitems⟩ := h
  rw [run_within]
  refine hplace.closing_opening hs hadds ⟨?_, fun _ => hitems, ?_⟩ ?_ <;> rcases hk with
    rfl | rfl <;> nofun

end

end LosslessBasic.Grammar
