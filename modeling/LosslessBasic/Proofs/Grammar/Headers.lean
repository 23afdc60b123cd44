import LosslessBasic.Proofs.Grammar.Additions
import LosslessBasic.Proofs.Tree.Ending

/-!
# What headers add

The header of a block starts with its words and ends with its statement. Behind its first words it
adds no token that could be taken for the closer of the block (`holds_header`): tokens that it has
no place for go under a node of unknown meaning. Behind its end, a node or the end of a line has
been added, or the statement has ended before the next token (`holds_headerEnd`).
-/

namespace LosslessBasic.Grammar

set_option synthInstance.maxSize 65536

variable {L : Law}

/-- A condition that evaluation refutes. -/
class IsFalse (b : Bool) : Prop where
  eq_false : b = false

instance : IsFalse false := ⟨rfl⟩

theorem inert_of_isBlank {n : Tree} (h : n.isBlank = true) : n.Inert := by
  cases n with
  | leaf t =>
    rw [Tree.isBlank] at h
    cases hkind : t.kind with
    | trivia k => rw [Tree.Inert, hkind]
    | _ => rw [hkind] at h; cases h
  | node k a cs => trivial

theorem endsHeader_of_isBlank {n : Tree} (h : n.isBlank = true) : n.endsHeader = false := by
  cases n with
  | leaf t =>
    rw [Tree.isBlank] at h
    rw [Tree.endsHeader]
    cases hkind : t.kind with
    | trivia k => rw [hkind] at h; cases k <;> first | rfl | cases h
    | _ => rw [hkind] at h; cases h
  | node k a cs => cases h

theorem inert_of_isToken_eq_false {n : Tree} (h : n.isToken = false) : n.Inert := by
  cases n with
  | leaf t => cases h
  | node k a cs => trivial

theorem isToken_above (k : Kind) (a : Anchor) (ts : List Tree) :
    (Tree.above k a ts).isToken = false := by
  cases ts <;> rfl

/-! ## Moving tokens -/

/-- A shift adds the token at the cursor, or nothing. -/
theorem holds_shift (s : State) :
    ∃ trees, L.Holds s trees (shift.run s).2 ∧ ∀ n ∈ trees, n = .leaf s.stream.current := by
  by_cases hend : s.AtEnd
  · rw [run_shift_of_atEnd hend]
    exact ⟨[], .refl s, by simp⟩
  · rw [run_shift hend]
    exact ⟨_, ⟨.shifted hend, L.shift hend⟩, by simp⟩

/-- Inside the source, the token behind the blanks is added. -/
theorem holds_shiftNext {s : State} (hs : s.InnermostInRow)
    (hend : (s.stream.peekSignificant 0).kind ≠ .lexeme .endOfFile) :
    ∃ blanks, (∀ n ∈ blanks, n.isBlank = true) ∧
      L.Holds s (blanks ++ [.leaf (s.stream.peekSignificant 0)]) (shiftNext.run s).2 ∧
      (shiftNext.run s).2.stream.peekSignificant 0 = s.stream.peekSignificant 1 := by
  have hskip : AddsOnly L (·.isBlank = true) skipBlanks := inferInstance
  obtain ⟨blanks, h, hblanks⟩ := hskip.holds s hs
  have hcurrent := current_skipBlanks s
  have hsolid := isInlineTrivia_skipBlanks s
  have hinside : ¬ (skipBlanks.run s).2.AtEnd := by rwa [State.AtEnd, hcurrent]
  have hrun : (shiftNext.run s).2 = (skipBlanks.run s).2.shifted := by
    unfold shiftNext
    rw [run_bind, run_shift hinside]
  rw [hrun, ← hcurrent, ← peekSignificant_skipBlanks s 1]
  refine ⟨blanks, hblanks, h.trans ⟨.shifted hinside, L.shift hinside⟩, ?_⟩
  exact TokenStream.peekSignificant_advance_succ hsolid (TokenStream.ahead_ne_nil hinside) 0

/-- A token that starts no closer is inert, and so are the blanks in front of it. -/
theorem inert_shiftNext {s : State} (hs : s.InnermostInRow)
    (hkind : (s.stream.peekSignificant 0).kind.closes = false) :
    ∃ trees, L.Holds s trees (shiftNext.run s).2 ∧ ∀ n ∈ trees, n.Inert := by
  have hskip : AddsOnly L (·.isBlank = true) skipBlanks := inferInstance
  obtain ⟨blanks, h, hblanks⟩ := hskip.holds s hs
  obtain ⟨trees, hshift, htrees⟩ := holds_shift (L := L) (skipBlanks.run s).2
  refine ⟨blanks ++ trees, h.trans hshift, fun n hn => ?_⟩
  rcases List.mem_append.mp hn with hn | hn
  · exact inert_of_isBlank (hblanks n hn)
  · rw [htrees n hn, current_skipBlanks]
    exact hkind

section

variable {α : Type} {p : Production α}

instance : AddsOnly L Tree.Inert skipBlanks :=
  .mono (P := (·.isBlank = true)) inferInstance fun _ => inert_of_isBlank

instance {k : NodeKind} [IsTrue k.isOrdinary] [hp : Obeys L p] :
    AddsOnly L Tree.Inert (within k p) where
  holds s hs := by
    obtain ⟨trees, h⟩ := hp.holds (s.opening k) (State.innermostInRow_opening s k)
    refine ⟨_, h.closing_opening hs fun a => L.node k a IsTrue.eq_true, fun n hn => ?_⟩
    rw [List.mem_singleton.mp hn]
    exact inert_of_isToken_eq_false (isToken_above _ _ _)

/-- What is done with the next token where it starts no closer. -/
theorem AddsOnly.of_nextKind {f : Kind → Bool} {g : Unit → Production α} {q : Production α}
    [hg : AddsOnly L Tree.Inert (g ())] [hq : AddsOnly L Tree.Inert q]
    (hf : ∀ k, f k = true → k.closes = false)
    (hrun : ∀ s, p.run s = if f (s.stream.peekSignificant 0).kind then (shiftNext >>= g).run s
      else q.run s) : AddsOnly L Tree.Inert p where
  holds s hs := by
    rw [hrun]
    split
    next hkind =>
      obtain ⟨trees, h, htrees⟩ := inert_shiftNext (L := L) hs (hf _ hkind)
      obtain ⟨more, h', hmore⟩ := hg.holds _ (h.1.innermostInRow hs)
      exact ⟨trees ++ more, h.trans h', fun n hn =>
        (List.mem_append.mp hn).elim (htrees n) (hmore n)⟩
    next => exact hq.holds s hs

end

instance {P : Tree → Prop} (wanted : Wanted) : AddsOnly L P (failExpected wanted) := by
  unfold failExpected
  infer_instance

instance {P : Tree → Prop} (k : Kind) : AddsOnly L P (atNext k) := by unfold atNext; infer_instance

instance {P : Tree → Prop} : AddsOnly L P nextKind := by unfold nextKind; infer_instance

instance {P : Tree → Prop} : AddsOnly L P withinStatement := by
  unfold withinStatement atStatementEnd
  infer_instance

instance (k : Kind) [hk : IsFalse k.closes] : AddsOnly L Tree.Inert (accept k) := by
  refine .of_nextKind (f := (· == k)) (g := fun _ => pure true) (q := pure false)
    (fun l hl => by rw [beq_iff_eq.mp hl, hk.eq_false]) fun s => ?_
  unfold accept atNext
  rw [run_look_bind]
  split <;> rfl

instance (k : Kind) [IsFalse k.closes] : AddsOnly L Tree.Inert (expect k) := by
  unfold expect
  infer_instance

/-! ## The ends of headers -/

/-- What is done with the token at the cursor where it is one of those that may be added. -/
theorem AddsOnly.of_currentKind {P : Tree → Prop} {f : Kind → Bool} {g : Unit → Production Unit}
    {p q : Production Unit} [hg : AddsOnly L P (g ())] [hq : AddsOnly L P q]
    (hf : ∀ t : Token, f t.kind = true → P (.leaf t))
    (hrun : ∀ s, p.run s = if f s.stream.current.kind then (shift >>= g).run s else q.run s) :
    AddsOnly L P p where
  holds s hs := by
    rw [hrun]
    split
    next hkind =>
      obtain ⟨trees, h, htrees⟩ := holds_shift (L := L) s
      obtain ⟨more, h', hmore⟩ := hg.holds _ (h.1.innermostInRow hs)
      refine ⟨trees ++ more, h.trans h', fun n hn => ?_⟩
      rcases List.mem_append.mp hn with hn | hn
      · rw [htrees n hn]
        exact hf _ hkind
      · exact hmore n hn
    next => exact hq.holds s hs

/-- The end of a line adds a comment and a line break. -/
theorem addsOnly_shiftLineBreak {P : Tree → Prop}
    (hcomment : ∀ t : Token, t.kind.isComment = true → P (.leaf t))
    (hnewline : ∀ t : Token, t.kind = .trivia .newline → P (.leaf t)) :
    AddsOnly L P shiftLineBreak := by
  obtain ⟨p, hp⟩ : ∃ p : Production Unit, p = (do
      if ← atCurrent (.trivia .newline) then
        shift
        setSeparator .lineBreak) := ⟨_, rfl⟩
  have hbreak : AddsOnly L P p := by
    rw [hp]
    refine .of_currentKind (f := (· == .trivia .newline)) (g := fun _ => setSeparator .lineBreak)
      (q := pure ()) (fun t ht => hnewline t (beq_iff_eq.mp ht)) fun s => ?_
    unfold atCurrent
    rw [run_look_bind]
    split <;> rfl
  -- a comment is moved first
  refine .of_currentKind (f := Kind.isComment) (g := fun _ => p) (q := p) hcomment fun s => ?_
  unfold shiftLineBreak
  rw [run_bind, run_currentKind, hp]
  split <;> rfl

instance : AddsOnly L Tree.Inert shiftLineBreak :=
  addsOnly_shiftLineBreak
    (fun t ht => by
      rw [Tree.Inert]
      cases hkind : t.kind <;> first | rfl | (rw [hkind] at ht; cases ht))
    fun t ht => by rw [Tree.Inert, ht]

instance : AddsOnly L Tree.Inert recover := by unfold recover; infer_instance

instance : AddsOnly L Tree.Inert finishStatement := by
  unfold finishStatement
  dsimp only
  infer_instance

instance {k : NodeKind} {p : Production Unit} [IsTrue k.isOrdinary] [hp : Obeys L p] :
    AddsOnly L Tree.Inert (composite k p) where
  holds s hs := by
    obtain ⟨trees, h⟩ := hp.holds (s.opening k) (State.innermostInRow_opening s k)
    refine ⟨_, h.closing_opening hs fun a => L.node k a IsTrue.eq_true, fun n hn => ?_⟩
    rw [List.mem_singleton.mp hn]
    exact inert_of_isToken_eq_false (isToken_above _ _ _)

instance (wanted : Wanted) : AddsOnly L Tree.Inert (expectName wanted) := by
  unfold expectName nameExpression
  infer_instance

instance (wanted : Wanted) : AddsOnly L Tree.Inert (hasName wanted) := by
  unfold hasName
  infer_instance

instance : AddsOnly L Tree.Inert accessor := by
  refine .of_nextKind (f := Lookahead.isAccessor) (g := fun _ => pure true)
    (q := do failExpected .accessor; return false) (fun k hk => ?_) fun s => ?_
  · unfold Lookahead.isAccessor at hk
    split at hk <;> first | rfl | cases hk
  · unfold accessor nextKind
    rw [run_look_bind]
    split <;> rfl

/-! ## Expressions in headers -/

section

variable [hrefers : Refers L]

instance : AddsOnly L Tree.Inert expression where
  holds s hs := by
    obtain ⟨blanks, s', h, hblanks, -, hfinds⟩ := finds_expression (L := L) hs
    rcases hfinds with ⟨n, -, hn, hread⟩ | ⟨-, hread, -⟩
    · refine ⟨blanks ++ [n], h.trans hread, fun m hm => ?_⟩
      rcases List.mem_append.mp hm with hm | hm
      · exact inert_of_isBlank (hblanks m hm)
      · rw [List.mem_singleton.mp hm]
        exact inert_of_isToken_eq_false (Tree.isToken_of_isOperand hn)
    · refine ⟨blanks ++ [], h.trans hread, fun m hm => ?_⟩
      exact inert_of_isBlank (hblanks m (by simpa using hm))

instance : AddsOnly L Tree.Inert operand := by unfold operand; infer_instance

instance : AddsOnly L Tree.Inert variable_ := by
  have hskip : AddsOnly L (·.isBlank = true) skipBlanks := inferInstance
  have hdesignator : AddsOnly L Tree.Inert (variableWith expressionAbove) := by
    refine ⟨fun s hs => ?_⟩
    obtain ⟨blanks, h, hblanks⟩ := hskip.holds s hs
    obtain ⟨node?, hnode, hread⟩ := holds_designator (L := L) expressionAbove .variableName true
      (h.1.innermostInRow hs)
    refine ⟨blanks ++ node?.toList, h.trans hread, fun n hn => ?_⟩
    rcases List.mem_append.mp hn with hn | hn
    · exact inert_of_isBlank (hblanks n hn)
    · exact inert_of_isToken_eq_false (Tree.isToken_of_isOperand (hnode n (by simpa using hn)))
  unfold variable_
  infer_instance

instance : AddsOnly L Tree.Inert optionalAsClause := by
  unfold optionalAsClause asClause
  infer_instance

instance : AddsOnly L Tree.Inert optionalParameterList := by
  unfold optionalParameterList group
  infer_instance

instance : AddsOnly L Tree.Inert signature := by unfold signature; infer_instance

instance : AddsOnly L Tree.Inert forHeader := by unfold forHeader; infer_instance

instance : AddsOnly L Tree.Inert forEachHeader := by unfold forEachHeader; infer_instance

instance : AddsOnly L Tree.Inert optionalLoopCondition := by
  refine .of_nextKind (f := fun k => k == .keyword .while_ || k == .keyword .until_)
    (g := fun _ => operand) (q := pure ()) (fun k hk => ?_) fun s => ?_
  · rcases Bool.or_eq_true _ _ ▸ hk with hk | hk <;> rw [beq_iff_eq.mp hk]
  · unfold optionalLoopCondition atLoopCondition
    rw [run_look_bind]
    split <;> rfl

end

/-! ## First words -/

instance : AddsOnly L (·.endsHeader = false) skipBlanks :=
  .mono (P := (·.isBlank = true)) inferInstance fun _ => endsHeader_of_isBlank

instance : AddsOnly L (·.endsHeader = false) shiftModifiers := by
  unfold shiftModifiers
  refine .repeatWhile (fun _ => rfl) fun s hs hmodifier => ?_
  change Lookahead.isModifier (s.stream.peekSignificant 0).kind = true at hmodifier
  obtain ⟨word, hword⟩ : ∃ word, (s.stream.peekSignificant 0).kind = .keyword word := by
    unfold Lookahead.isModifier at hmodifier
    split at hmodifier
    case h_6 => cases hmodifier
    all_goals exact ⟨_, ‹_›⟩
  obtain ⟨blanks, hblanks, h, -⟩ := holds_shiftNext (L := L) hs (by rw [hword]; simp)
  refine ⟨_, h, fun n hn => ?_⟩
  rcases List.mem_append.mp hn with hn | hn
  · exact endsHeader_of_isBlank (hblanks n hn)
  · rw [List.mem_singleton.mp hn, Tree.endsHeader, hword]
    -- outside of a single-line `If` no keyword ends a statement
    cases word <;> rfl

/-- What is left of a statement ends no header. -/
instance : AddsOnly L (·.endsHeader = false) shiftRest := by
  unfold shiftRest
  refine .repeatWhile (fun _ => rfl) fun s hs hwithin => ?_
  change (!endsStatement (s.stream.peekSignificant 0).kind s.lineMode) = true at hwithin
  rw [Bool.not_eq_true'] at hwithin
  obtain ⟨blanks, hblanks, h, -⟩ := holds_shiftNext (L := L) hs fun hkind => by
    rw [hkind] at hwithin
    cases hwithin
  refine ⟨_, h, fun n hn => ?_⟩
  rcases List.mem_append.mp hn with hn | hn
  · exact endsHeader_of_isBlank (hblanks n hn)
  · rw [List.mem_singleton.mp hn, Tree.endsHeader]
    -- outside of a single-line `If` fewer tokens end a statement
    unfold endsStatement at hwithin ⊢
    split at hwithin <;> simp_all

/-- Behind its first words, what a header adds is inert. -/
theorem inert_behindHeader {words first rest : List Tree} {t : Token}
    (hwords : ∀ n ∈ words, n.endsHeader = false) (hfirst : ∀ n ∈ first, n = .leaf t)
    (hlength : first.length ≤ 1) (hrest : ∀ n ∈ rest, n.Inert) :
    ∀ n ∈ Tree.behindHeader (words ++ first ++ rest), n.Inert := by
  intro n hn
  rw [List.append_assoc, Tree.behindHeader_append_of_not_endsHeader hwords] at hn
  match first, hfirst, hlength with
  | [], _, _ => exact hrest n (Tree.behindHeader_subset _ hn)
  | [m], hfirst, _ =>
    obtain rfl := hfirst m List.mem_cons_self
    by_cases hends : (Tree.leaf t).endsHeader = true
    · rcases List.mem_cons.mp (Tree.behindHeader_subset _ hn) with rfl | hn
      · -- what ends a statement starts no closer
        rw [Tree.endsHeader] at hends
        rw [Tree.Inert]
        unfold endsStatement at hends
        split at hends <;> first | (rename_i hkind; rw [hkind]) | cases hends
      · exact hrest n hn
    · rw [Bool.not_eq_true] at hends
      rw [Tree.behindHeader_append_of_not_endsHeader (by simpa using hends)] at hn
      exact hrest n (Tree.behindHeader_subset _ hn)

/-- A header: its first words, the last of them being any token, and then what is inert. -/
theorem holds_header {α : Type} (words : Production Unit) (rest : Unit → Production α)
    [hwords : AddsOnly L (·.endsHeader = false) words] [hrest : AddsOnly L Tree.Inert (rest ())]
    {s : State} (hs : s.InnermostInRow) :
    ∃ trees, L.Holds s trees ((words >>= fun _ => shift >>= rest).run s).2 ∧
      ∀ n ∈ Tree.behindHeader trees, n.Inert := by
  obtain ⟨front, h, hfront⟩ := hwords.holds s hs
  generalize hs' : (words.run s).2 = s' at h
  have hfirst : ∃ first, L.Holds s' first (shift.run s').2 ∧
      (∀ n ∈ first, n = .leaf s'.stream.current) ∧ first.length ≤ 1 := by
    by_cases hend : s'.AtEnd
    · rw [run_shift_of_atEnd hend]
      exact ⟨[], .refl s', by simp, by simp⟩
    · rw [run_shift hend]
      exact ⟨_, ⟨.shifted hend, L.shift hend⟩, by simp, by simp⟩
  obtain ⟨first, hshift, heq, hlength⟩ := hfirst
  obtain ⟨behind, hbehind, hinert⟩ := hrest.holds _ ((h.trans hshift).1.innermostInRow hs)
  rw [run_bind, run_bind, hs']
  exact ⟨_, (h.trans hshift).trans hbehind, inert_behindHeader hfront heq hlength hinert⟩

/-! ## Behind the header -/

/-- Behind some trees the header of a block has ended: with one of them, or before the next
token. -/
def HeaderEnded (trees : List Tree) (s : State) : Prop :=
  (∃ n ∈ trees, n.endsHeader = true) ∨
    endsStatement (s.stream.peekSignificant 0).kind s.lineMode = true

theorem HeaderEnded.append_left {trees : List Tree} {s : State} (h : HeaderEnded trees s)
    (front : List Tree) : HeaderEnded (front ++ trees) s :=
  h.imp_left fun ⟨n, hn, hends⟩ => ⟨n, List.mem_append_right _ hn, hends⟩

/-- What is left over of a statement is moved under a node. -/
theorem holds_recover_node {s : State} (hs : s.InnermostInRow)
    (hwithin : (withinStatement.run s).1 = true) :
    ∃ trees, L.Holds s trees (recover.run s).2 ∧ ∃ n ∈ trees, n.endsHeader = true := by
  have htest : (withinStatement.run s).2 = s := rfl
  have hfront : Obeys L (do note .recovery (← next); skipBlanks) := inferInstance
  have hrest : Obeys L shiftRest := inferInstance
  obtain ⟨front, h⟩ := hfront.holds s hs
  generalize hs' : ((do note .recovery (← next); skipBlanks : Production Unit).run s).2 = s' at h
  obtain ⟨trees, hinner⟩ := hrest.holds (s'.opening .unknown) (State.innermostInRow_opening s' _)
  have hclosed := hinner.closing_opening (h.1.innermostInRow hs) fun a => L.node .unknown a rfl
  have hrun : (recover.run s).2 = ((within .unknown shiftRest).run s').2 := by
    rw [← hs']
    unfold recover
    rw [run_bind, if_pos hwithin, htest]
    rfl
  rw [hrun, run_within]
  refine ⟨_, h.trans hclosed, _, List.mem_append_right _ (List.mem_singleton.mpr rfl), ?_⟩
  cases trees <;> rfl

/-- A comment or a line break at the cursor ends the header when it is moved. -/
theorem headerEnded_shiftLineBreak {s : State} (hs : s.InnermostInRow)
    (hends : endsStatement s.stream.current.kind s.lineMode = true)
    (hsolid : s.stream.current.kind.isInlineTrivia = false) :
    ∃ trees, L.Holds s trees (shiftLineBreak.run s).2 ∧
      HeaderEnded trees (shiftLineBreak.run s).2 := by
  have hbreak : Obeys L (do
      if ← atCurrent (.trivia .newline) then
        shift
        setSeparator .lineBreak : Production Unit) := inferInstance
  -- a comment and a line break end the header as they are moved; anything else ends it where it
  -- stands
  have hmoved {t : State} (hmore : ∃ more, L.Holds s.shifted more t)
      (hend : ¬ s.AtEnd) (hkind : (Tree.leaf s.stream.current).endsHeader = true) :
      ∃ trees, L.Holds s trees t ∧ HeaderEnded trees t := by
    obtain ⟨more, h⟩ := hmore
    exact ⟨_, Law.Holds.trans ⟨.shifted hend, L.shift hend⟩ h, .inl ⟨_, List.mem_cons_self, hkind⟩⟩
  have hrow (hend : ¬ s.AtEnd) : s.shifted.InnermostInRow :=
    (State.Adds.shifted hend).innermostInRow hs
  unfold shiftLineBreak
  rw [run_bind, run_currentKind]
  dsimp only
  split
  next hcomment =>
    have hend : ¬ s.AtEnd := Kind.ne_endOfFile_of (f := Kind.isComment) hcomment rfl
    rw [run_bind, run_shift hend]
    refine hmoved (hbreak.holds _ (hrow hend)) hend ?_
    rw [Tree.endsHeader]
    cases hkind : s.stream.current.kind with
    | trivia k => rw [hkind] at hcomment; cases k <;> first | rfl | cases hcomment
    | _ => rw [hkind] at hcomment; cases hcomment
  next =>
    unfold atCurrent
    rw [run_look_bind]
    split
    next hnewline =>
      have hkind := beq_iff_eq.mp hnewline
      have hend : ¬ s.AtEnd := by
        intro hend
        rw [hend] at hkind
        cases hkind
      have hseparator : Obeys L (setSeparator .lineBreak) := inferInstance
      rw [run_bind, run_shift hend]
      refine hmoved (hseparator.holds _ (hrow hend)) hend ?_
      rw [Tree.endsHeader, hkind]
      rfl
    next =>
      refine ⟨[], .refl s, .inr ?_⟩
      rw [run_pure, TokenStream.peekSignificant_zero hsolid]
      exact hends

/-- The end of a statement ends a header. -/
theorem headerEnded_finishStatement {s : State} (hs : s.InnermostInRow) :
    ∃ trees, L.Holds s trees (finishStatement.run s).2 ∧
      HeaderEnded trees (finishStatement.run s).2 := by
  have hend : Obeys L statementEnd := by unfold statementEnd; infer_instance
  -- what is left over is wrapped in a node, which ends the header; else its line break does
  cases hwithin : (withinStatement.run s).1 with
  | true =>
    obtain ⟨reported, h, hwithin', -, hrun⟩ := run_finishStatement_of_within (L := L) hs hwithin
    obtain ⟨trees, hrecover, n, hn, hends⟩ :=
      holds_recover_node (L := L) (h.1.innermostInRow hs) hwithin'
    obtain ⟨more, hmore⟩ := hend.holds _ ((h.trans hrecover).1.innermostInRow hs)
    rw [hrun]
    refine ⟨_, (h.trans hrecover).trans hmore, .inl ⟨n, ?_, hends⟩⟩
    simp [hn]
  | false =>
    have hskip : Obeys L (do skipBlanks; setSeparator .none) := inferInstance
    obtain ⟨blanks, h⟩ := hskip.holds s hs
    generalize hs' : ((do skipBlanks; setSeparator .none : Production Unit).run s).2 = s' at h
    have hcurrent : s'.stream.current = s.stream.peekSignificant 0 := by
      rw [← hs']
      exact current_skipBlanks s
    have hsolid : s'.stream.current.kind.isInlineTrivia = false := by
      rw [← hs']
      exact isInlineTrivia_skipBlanks s
    have hends : endsStatement s'.stream.current.kind s'.lineMode = true := by
      change (!endsStatement (s.stream.peekSignificant 0).kind s.lineMode) = false at hwithin
      rw [hcurrent, h.1.context.lineMode]
      simpa using hwithin
    have hrun : (finishStatement.run s).2 =
        ((if s'.lineMode == 0 then shiftLineBreak else pure () : Production Unit).run s').2 := by
      rw [run_finishStatement_of_ended hwithin, ← hs']
      rfl
    rw [hrun]
    split
    · obtain ⟨trees, hbreak, hended⟩ :=
        headerEnded_shiftLineBreak (L := L) (h.1.innermostInRow hs) hends hsolid
      exact ⟨_, h.trans hbreak, hended.append_left blanks⟩
    · refine ⟨blanks, h, .inr ?_⟩
      rw [run_pure, TokenStream.peekSignificant_zero hsolid]
      exact hends

end LosslessBasic.Grammar
