import LosslessBasic.Proofs.Grammar.Obligations

/-!
# Blocks that are read line by line

`Select Case`, types, enumerations and designer blocks look for their closers themselves, between
the lines that they hold. On the way through such a block nothing that stands behind its header
could be taken for its closer (`Underway`); it finishes where its closer comes next, or where its
closer is reported missing.
-/

namespace LosslessBasic.Grammar

/-- Since a block was opened its header and some of its lines have been added. -/
structure Underway (block : Block) (s₀ : State) (trees : List Tree) (s : State) : Prop where
  holds : accountLaw.Holds s₀ trees s
  unclosed : ∀ n ∈ Tree.behindHeader trees, n.startsCloser block = false
  header : HeaderEnded trees s

/-- What finishes the block that is under way, or leaves it under way, with more added to it. -/
def LeadsThrough (block : Block) (s₀ : State) (trees : List Tree)
    (r : Pass Unit Unit × State) : Prop :=
  (∃ u more, r.1 = .again u ∧ Underway block s₀ (trees ++ more) r.2) ∨
    ∃ u more, r.1 = .done u ∧ State.Finishes block s₀ (trees ++ more) r.2

section

variable {block : Block} {s₀ s t : State} {trees more : List Tree}

/-- A line with a node in it. -/
theorem Underway.line (h : Underway block s₀ trees s) (hmore : accountLaw.Holds s more t)
    (hunclosed : ∀ n ∈ more, n.startsCloser block = false)
    (hnode : ∃ n ∈ more, n.endsHeader = true) :
    Underway block s₀ (trees ++ more) t := by
  refine ⟨h.holds.trans hmore, fun n hn => ?_, .inl ?_⟩
  · exact (Tree.mem_behindHeader_append hn).elim (h.unclosed n) (hunclosed n)
  · obtain ⟨n, hn, hends⟩ := hnode
    exact ⟨n, List.mem_append_right _ hn, hends⟩

/-- What stands in a line goes on from where its header has ended. -/
theorem Underway.inner (h : Underway block s₀ trees s) (hmore : accountLaw.Holds s more t)
    (hunclosed : ∀ n ∈ more, n.startsCloser block = false)
    (hheader : ∃ n ∈ trees, n.endsHeader = true) : Underway block s₀ (trees ++ more) t := by
  refine ⟨h.holds.trans hmore, fun n hn => ?_, .inl ?_⟩
  · exact (Tree.mem_behindHeader_append hn).elim (h.unclosed n) (hunclosed n)
  · obtain ⟨n, hn, hends⟩ := hheader
    exact ⟨n, List.mem_append_left _ hn, hends⟩

/-- Away from the end of a statement, the header has ended with what has been added. -/
theorem Underway.ended (h : Underway block s₀ trees s)
    (hkind : endsStatement (s.stream.peekSignificant 0).kind s.lineMode = false) :
    ∃ n ∈ trees, n.endsHeader = true := by
  rcases h.header with hheader | hheader
  · exact hheader
  · rw [hkind] at hheader
    cases hheader

/-- The token at the cursor is moved between two lines. -/
theorem Underway.shifted (h : Underway block s₀ trees s) (hend : ¬ s.AtEnd)
    (hunclosed : (Tree.leaf s.stream.current).startsCloser block = false)
    (hkind : s.stream.current.kind.isInlineTrivia = true ∨
      endsStatement s.stream.current.kind 0 = true) :
    Underway block s₀ (trees ++ [.leaf s.stream.current]) s.shifted := by
  have hshift : accountLaw.Holds s [.leaf s.stream.current] s.shifted :=
    ⟨.shifted hend, accountLaw.shift hend⟩
  refine ⟨h.holds.trans hshift, fun n hn => ?_, ?_⟩
  · rcases Tree.mem_behindHeader_append hn with hn | hn
    · exact h.unclosed n hn
    · rwa [List.mem_singleton.mp hn]
  · rcases hkind with hblank | hends
    · -- a blank leaves what comes next as it is
      refine h.header.imp (fun ⟨n, hn, hends⟩ => ⟨n, List.mem_append_left _ hn, hends⟩)
        fun hnext => ?_
      have hsame := TokenStream.peekSignificant_advance hblank 0
      change endsStatement (s.stream.advance.peekSignificant 0).kind s.lineMode = true
      rwa [hsame]
    · exact .inl ⟨_, List.mem_append_right _ (List.mem_singleton.mpr rfl), hends⟩

/-- The block finishes with the report that its closer is missing. -/
theorem Underway.missing (h : Underway block s₀ trees s) :
    State.Finishes block s₀ trees
      ((report (.missingCloser block s.stream.current) s.stream.current).run s).2 := by
  obtain ⟨⟨hadds, accounts, haccounts, hcounts⟩, hunclosed, -⟩ := h
  refine ⟨⟨⟨hadds.context.opened, hadds.context.blocks, hadds.context.withTargets,
    hadds.context.lineMode⟩, hadds.pending, hadds.rest⟩, accounts, .missing,
    ⟨haccounts.places, haccounts.sound, ?_⟩, ?_, fun n hn => ?_⟩
  · rw [State.missing_push (s := s) (f := .atToken (.missingCloser block s.stream.current)
      s.stream.current) rfl, haccounts.missing, if_pos rfl, List.append_nil]
    rfl
  · unfold State.Counts at hcounts
    rw [if_neg (by simp)]
    exact Nat.le_trans hcounts (Nat.le_add_right ..)
  · exact Tree.not_hasCloser (by rwa [hn])

/-- The block finishes with its closer. -/
theorem Underway.closed (h : Underway block s₀ trees s)
    (hkind : endsStatement (s.stream.peekSignificant 0).kind s.lineMode = false)
    (hcloses : ∃ rest, State.Closes block s rest t) :
    ∃ rest, State.Finishes block s₀ (trees ++ rest) t := by
  obtain ⟨rest, hcloses⟩ := hcloses
  exact ⟨rest, hcloses.finishes h.holds (h.ended hkind)⟩

/-- What leads through more trees leads through the first of them. -/
theorem LeadsThrough.weaken {r : Pass Unit Unit × State}
    (h : LeadsThrough block s₀ (trees ++ more) r) :
    LeadsThrough block s₀ trees r := by
  rcases h with ⟨u, rest, hr, h⟩ | ⟨u, rest, hr, h⟩
  · exact .inl ⟨u, more ++ rest, hr, by rwa [← List.append_assoc]⟩
  · exact .inr ⟨u, more ++ rest, hr, by rwa [← List.append_assoc]⟩

/-- A pass that goes on leads through the lines where the block is still underway. -/
theorem LeadsThrough.again {r : Pass Unit Unit × State} {u : Unit} (hr : r.1 = .again u)
    (h : Underway block s₀ trees r.2) : LeadsThrough block s₀ trees r :=
  .inl ⟨u, [], hr, by rwa [List.append_nil]⟩

/-- The last pass leads through the lines where the block is finished. -/
theorem LeadsThrough.done {r : Pass Unit Unit × State} {u : Unit} (hr : r.1 = .done u)
    (h : State.Finishes block s₀ trees r.2) : LeadsThrough block s₀ trees r :=
  .inr ⟨u, [], hr, by rwa [List.append_nil]⟩

end

/-! ## Lines -/

/-- A production that adds nodes, and tokens that start no closer. -/
class AddsNode {α : Type} (p : Production α) : Prop where
  holds (s : State) : s.InnermostInRow → ∃ trees, accountLaw.Holds s trees (p.run s).2 ∧
    (∀ n ∈ trees, n.Inert) ∧ ∃ n ∈ trees, n.endsHeader = true

section

variable {α β : Type} {p : Production α}

instance {k : NodeKind} [IsTrue k.isOrdinary] [hp : Obeys accountLaw p] :
    AddsNode (within k p) where
  holds s hs := by
    obtain ⟨trees, h⟩ := hp.holds (s.opening k) (State.innermostInRow_opening s k)
    have hnode := isToken_above (.node k) (p.run (s.opening k)).2.builder.anchor trees
    refine ⟨_, h.closing_opening hs fun a => accountLaw.node k a IsTrue.eq_true, fun n hn => ?_,
      _, List.mem_singleton.mpr rfl, endsHeader_of_isToken_eq_false hnode⟩
    rw [List.mem_singleton.mp hn]
    exact inert_of_isToken_eq_false hnode

/-- What is inert may stand in front of a node. -/
theorem AddsNode.behind {f : α → Production β} [hp : AddsOnly accountLaw Tree.Inert p]
    [hf : ∀ a, AddsNode (f a)] : AddsNode (p >>= f) where
  holds s hs := by
    obtain ⟨trees, h, hinert⟩ := hp.holds s hs
    obtain ⟨more, h', hinert', n, hn, hends⟩ := (hf _).holds _ (h.1.innermostInRow hs)
    refine ⟨trees ++ more, h.trans h', fun m hm => ?_, n, List.mem_append_right _ hn, hends⟩
    exact (List.mem_append.mp hm).elim (hinert m) (hinert' m)

/-- What is inert may stand behind a node. -/
theorem AddsNode.before {f : α → Production β} [hp : AddsNode p]
    [hf : ∀ a, AddsOnly accountLaw Tree.Inert (f a)] : AddsNode (p >>= f) where
  holds s hs := by
    obtain ⟨trees, h, hinert, n, hn, hends⟩ := hp.holds s hs
    obtain ⟨more, h', hinert'⟩ := (hf _).holds _ (h.1.innermostInRow hs)
    refine ⟨trees ++ more, h.trans h', fun m hm => ?_, n, List.mem_append_left _ hn, hends⟩
    exact (List.mem_append.mp hm).elim (hinert m) (hinert' m)

end

instance {P : Tree → Prop} : AddsOnly accountLaw P current := by unfold current; infer_instance

instance {P : Tree → Prop} : AddsOnly accountLaw P writtenCloser := by
  unfold writtenCloser
  infer_instance

instance {P : Tree → Prop} (problem : Problem) (t : Token) [h : IsTrue problem.isOrdinary] :
    AddsOnly accountLaw P (report problem t) where
  holds s _ :=
    ⟨[], ⟨.of_silent rfl rfl rfl rfl rfl, accountLaw.report s problem t h.eq_true⟩, by simp⟩

instance : AddsNode unknownStatement := by unfold unknownStatement rawStatement; infer_instance

instance (closer : Closer) : AddsNode (strayCloser closer) := by
  have hrest (written : Bytes) : AddsNode (current >>= fun t => do
      report (.unmatchedCloser written closer) t
      setRecovering true
      unknownStatement) := by
    have (t : Token) : AddsNode (do
        report (.unmatchedCloser written closer) t
        setRecovering true
        unknownStatement) := by
      have : AddsNode (do
          setRecovering true
          unknownStatement) := .behind
      exact .behind
    exact .behind
  unfold strayCloser
  exact .behind

instance : AddsNode strayCaseLine := by
  have hrest (t : Token) : AddsNode (do
      fail (.expectedCase t) t
      unknownStatement) := .behind
  have hline : AddsNode (current >>= fun t => do
      fail (.expectedCase t) t
      unknownStatement) := .behind
  unfold strayCaseLine
  exact .behind

/-- Trivia and colons start no closer. -/
theorem startsCloser_of_kind {block : Block} {t : Token}
    (h : t.kind.isTrivia = true ∨ t.kind = .lexeme .colon) :
    (Tree.leaf t).startsCloser block = false := by
  have hword (word : Keyword) : t.isWord word = false := by
    refine beq_eq_false_iff_ne.mpr fun hkind => ?_
    rw [hkind] at h
    rcases h with h | h <;> cases h
  have hname : isNamed t "EndProperty" = false := by
    unfold isNamed
    rw [Bool.and_eq_false_iff]
    refine .inl (beq_eq_false_iff_ne.mpr fun hkind => ?_)
    rw [hkind] at h
    rcases h with h | h <;> cases h
  cases block <;> first | exact hword _ | exact hname

/-- What is moved between lines. -/
theorem Underway.between {block : Block} {s₀ s : State} {trees : List Tree}
    (h : Underway block s₀ trees s)
    (hkind : (s.stream.current.kind.isTrivia || s.stream.current.kind == .lexeme .colon) = true) :
    Underway block s₀ (trees ++ [.leaf s.stream.current]) (shift.run s).2 := by
  rw [Bool.or_eq_true, beq_iff_eq] at hkind
  have hend : ¬ s.AtEnd := by
    intro hend
    rw [hend] at hkind
    rcases hkind with hkind | hkind <;> cases hkind
  rw [run_shift hend]
  refine h.shifted hend (startsCloser_of_kind hkind) ?_
  rcases hkind with hkind | hkind
  · cases htrivia : s.stream.current.kind with
    | trivia k => cases k <;> first | exact .inl rfl | exact .inr rfl
    | _ => rw [htrivia] at hkind; cases hkind
  · rw [hkind]
    exact .inr rfl

/-! ## Select Case -/

section

variable {statement : Production Unit} [Obeys accountLaw statement] [Composed false statement]
  [Advances statement]

variable (statement) in
/-- A clause ends as its body does. -/
theorem endsWith_caseClause {s : State} (hs : s.InnermostInRow) :
    EndsWith .select (fun _ => True) s ((caseClause statement).run s) := by
  have hclause (k : NodeKind) (hk : ∀ a ts, (Tree.above (.node k) a ts).block? = none)
    (isElse : Bool)
    {t : State} (ht : t.InnermostInRow) : EndsWith .select (fun _ => True) t
        ((within k do
          setRecovering false
          shiftNext
          if isElse then shiftNext else commaList caseTest
          finishStatement
          blockBody statement .select).run t) := by
    refine endsWith_within ht hk ?_
    have hbody {u : State} (hu : u.InnermostInRow) : EndsIn .select (fun _ => True) u
        ((finishStatement >>= fun _ => blockBody statement .select).run u) :=
      .bind hu fun v hv => endsIn_blockBody statement _ hv
    refine .bind (State.innermostInRow_opening _ _) fun u hu => .bind hu fun v hv => ?_
    cases isElse
    · exact .bind hv fun w hw => hbody hw
    · exact .bind hv fun w hw => hbody hw
  unfold caseClause atCaseElse
  rw [run_look_bind]
  refine hclause _ (fun a ts => ?_) _ hs
  split <;> cases ts <;> rfl

/-- Behind a clause, the block goes on, or it finishes. -/
theorem leadsThrough_afterClause {s₀ s : State} {trees : List Tree} {stop : Stop}
    (hs : s₀.InnermostInRow)
    (hends : State.Ends (some .select) stop s₀ trees s)
    (hunclosed : ∀ n ∈ Tree.behindHeader trees, n.startsCloser .select = false)
    (hnode : HeaderEnded trees s) : LeadsThrough .select s₀ trees ((afterClause stop).run s) := by
  unfold afterClause
  by_cases hstop : stop = .ownCloser
  · subst hstop
    obtain ⟨block, hblock, hcloser⟩ := hends.closer rfl
    obtain rfl := Option.some.inj hblock
    have hunder : Underway .select s₀ trees s := ⟨hends.holds, hunclosed, hnode⟩
    rw [if_neg (by simp)]
    unfold atNext
    rw [run_look_bind]
    split
    next hend =>
      have hkind := beq_iff_eq.mp hend
      obtain ⟨trees', hfinishes⟩ := hunder.closed (by rw [hkind]; rfl)
        (closes_blockEnd (hunder.holds.1.innermostInRow hs) hcloser hkind)
      exact .inr ⟨(), trees', rfl, hfinishes⟩
    next => exact .again rfl hunder
  · rw [if_pos (by simpa using hstop)]
    exact .done rfl (hends.finishes hstop hunclosed)

/-- Where the closer is missing the block is finished with a report. -/
theorem leadsThrough_missing {block : Block} {s₀ s : State} {trees : List Tree}
    (h : Underway block s₀ trees s) : LeadsThrough block s₀ trees
      ((do
        report (.missingCloser block s.stream.current) s.stream.current
        return Pass.done () : Production (Pass Unit Unit)).run s) :=
  .done rfl h.missing

/-- A line that is read as a node leads through the block. -/
theorem leadsThrough_line {block : Block} {s₀ s : State} {trees : List Tree} {p : Production Unit}
    [hp : AddsNode p] (hblock : block ≠ .designerProperty) (hs : s₀.InnermostInRow)
    (h : Underway block s₀ trees s) : LeadsThrough block s₀ trees
      ((p >>= fun _ => (pure (.again ()) : Production (Pass Unit Unit))).run s) := by
  obtain ⟨more, hmore, hinert, hnode⟩ := hp.holds s (h.holds.1.innermostInRow hs)
  exact .inl ⟨(), _, rfl,
    h.line hmore (fun n hn => Tree.startsCloser_of_inert hblock (hinert n hn)) hnode⟩

/-- What stands between two lines leads through the block. -/
theorem leadsThrough_between {block : Block} {s₀ s : State} {trees : List Tree}
    (h : Underway block s₀ trees s)
    (hkind : (s.stream.current.kind.isTrivia || s.stream.current.kind == .lexeme .colon) = true) :
    LeadsThrough block s₀ trees
      ((shift >>= fun _ => (pure (.again ()) : Production (Pass Unit Unit))).run s) :=
  .inl ⟨(), _, rfl, h.between hkind⟩

/-- A closer within a `Select` leads through it. -/
theorem leadsThrough_selectCloserPass {s₀ s : State} {trees : List Tree} {closer : Closer}
    (hs : s₀.InnermostInRow) (h : Underway .select s₀ trees s)
    (hcloser : Closer.ofKinds? (s.stream.peekSignificant 0).kind (s.stream.peekSignificant 1).kind =
      some closer) : LeadsThrough .select s₀ trees ((selectCloserPass statement closer).run s) := by
  have hrow := h.holds.1.innermostInRow hs
  unfold selectCloserPass
  -- `Case` and `End Select` belong to this block; any other closer ends it or is left over
  split
  next hblock =>
    split
    next =>
      obtain ⟨clause, hne, hnodes, hends, -⟩ := endsWith_caseClause statement hrow
      rw [run_bind]
      generalize (caseClause statement).run s = r at hends
      obtain ⟨n, hn⟩ := List.exists_mem_of_ne_nil clause hne
      have hheader : HeaderEnded (trees ++ clause) r.2 :=
        .inl ⟨n, List.mem_append_right _ hn, endsHeader_of_isToken_eq_false (hnodes n hn)⟩
      refine (leadsThrough_afterClause hs (.trans h.holds hends) (fun m hm => ?_) hheader).weaken
      rcases Tree.mem_behindHeader_append hm with hm | hm
      · exact h.unclosed m hm
      · exact Tree.startsCloser_of_inert (by simp) (inert_of_isToken_eq_false (hnodes m hm))
    next =>
      obtain ⟨hadds, accounts, haccounts, hcounts⟩ := h.holds
      refine leadsThrough_afterClause hs ⟨hadds, ⟨accounts, haccounts, hcounts⟩, fun _ => ?_, nofun⟩
        h.unclosed h.header
      exact ⟨.select, rfl, closer, hcloser, beq_iff_eq.mp hblock⟩
  next =>
    have hopen : ((blockIsOpen closer.block).run s).2 = s := rfl
    rw [run_bind, hopen]
    split
    · exact leadsThrough_missing h
    · exact leadsThrough_line (by simp) hs h

variable (statement) in
/-- A line of a `Select` leads through it. -/
theorem leadsThrough_selectPass {s₀ s : State} {trees : List Tree} (hs : s₀.InnermostInRow)
    (h : Underway .select s₀ trees s) (u : Unit) :
    LeadsThrough .select s₀ trees ((selectPass statement u).run s) := by
  unfold selectPass current
  rw [run_look_bind]
  split
  · exact leadsThrough_missing h
  split
  next hkind => exact leadsThrough_between h hkind
  unfold nextCloser?
  rw [run_look_bind]
  cases hcloser : Closer.ofKinds? (s.stream.peekSignificant 0).kind
      (s.stream.peekSignificant 1).kind with
  | some closer => exact leadsThrough_selectCloserPass hs h hcloser
  | none =>
    unfold closerOrLinePass
    have hinside : (insideProcedure.run s).2 = s := rfl
    have hheader : (atProcedureHeader.run s).2 = s := rfl
    rw [run_bind, hinside, run_bind, hheader]
    split
    · exact leadsThrough_missing h
    · exact leadsThrough_line (by simp) hs h

/-- A block that is read line by line is accounted for when every pass leads through it. -/
theorem holds_lines {block : Block} {k : NodeKind} {header : Production Unit}
    {pass : Unit → Production (Pass Unit Unit)} [∀ u, Progresses (pass u)] {s : State}
    (hs : s.InnermostInRow)
    (hheader : ∃ front, Underway block (s.opening k) front (header.run (s.opening k)).2 ∧
      ∀ a more, (Tree.above (.node k) a (front ++ more)).block? = some block)
    (hpass : ∀ u trees t, Underway block (s.opening k) trees t →
      LeadsThrough block (s.opening k) trees ((pass u).run t)) :
    ∃ n, n.isToken = false ∧ accountLaw.Holds s [n]
      ((within k (header >>= fun _ => iterate (fun _ => ()) pass ())).run s).2 := by
  obtain ⟨front, hunder, hk⟩ := hheader
  -- what stands in front stays in front
  have hlines : ∃ trees, State.Finishes block (s.opening k) trees
      ((header >>= fun _ => iterate (fun _ => ()) pass ()).run (s.opening k)).2 ∧
        ∀ a, (Tree.above (.node k) a trees).block? = some block := by
    rw [run_bind]
    generalize (header.run (s.opening k)).2 = t at hunder
    refine iterate_leads
      (P := fun _ trees t => Underway block (s.opening k) trees t ∧
        ∀ a more, (Tree.above (.node k) a (trees ++ more)).block? = some block)
      (Q := fun _ trees t => State.Finishes block (s.opening k) trees t ∧
        ∀ a, (Tree.above (.node k) a trees).block? = some block) (fun u trees t ⟨ht, hk⟩ => ?_)
      ⟨hunder, hk⟩
    rcases hpass u trees t ht with ⟨u', more, hagain, h⟩ | ⟨u', more, hdone, h⟩
    · refine .inl ⟨u', trees ++ more, hagain, h, fun a rest => ?_⟩
      rw [List.append_assoc]
      exact hk a (more ++ rest)
    · exact .inr ⟨u', trees ++ more, hdone, h, fun a => hk a more⟩
  obtain ⟨trees, hfinishes, hk⟩ := hlines
  exact holds_within_block hs hk hfinishes

/-- The same wherever the block is opened. -/
theorem Obeys.of_lines {block : Block} {k : NodeKind} {header : Production Unit}
    {pass : Unit → Production (Pass Unit Unit)} [∀ u, Progresses (pass u)]
    (hheader : ∀ s, s.InnermostInRow → ∃ front, Underway block s front (header.run s).2 ∧
      ∀ a more, (Tree.above (.node k) a (front ++ more)).block? = some block)
    (hpass : ∀ u s trees t, s.InnermostInRow → Underway block s trees t →
      LeadsThrough block s trees ((pass u).run t)) :
    Obeys accountLaw (Grammar.within k (header >>= fun _ => iterate (fun _ => ()) pass ())) where
  holds s hs := by
    have hrow := State.innermostInRow_opening s k
    obtain ⟨n, -, h⟩ := holds_lines hs (hheader _ hrow) fun u trees t => hpass u _ trees t hrow
    exact ⟨[n], h⟩

/-- A header and the end of its line. -/
theorem underway_header {block : Block} {words : Production Unit} {rest : Production Unit}
    [hwords : AddsOnly accountLaw (·.endsHeader = false) words]
    [hrest : AddsOnly accountLaw Tree.Inert rest] (hblock : block ≠ .designerProperty)
    {k : NodeKind}
    (hk : ∀ a ts, (Tree.above (.node k) a ts).block? = some block) {s : State}
    (hs : s.InnermostInRow) :
    ∃ front, Underway block s front
      (((words >>= fun _ => shift >>= fun _ => rest) >>= fun _ => finishStatement).run s).2 ∧
      ∀ a more, (Tree.above (.node k) a (front ++ more)).block? = some block := by
  have hend : AddsOnly accountLaw Tree.Inert finishStatement := inferInstance
  obtain ⟨front, hfront, hinert⟩ := holds_header (L := accountLaw) words (fun _ => rest) hs
  have hrow := hfront.1.innermostInRow hs
  obtain ⟨ending, hending, hendingInert⟩ := hend.holds _ hrow
  obtain ⟨ending', hending', hheader⟩ := headerEnded_finishStatement (L := accountLaw) hrow
  obtain rfl := hending'.1.unique hending.1
  refine ⟨_, ⟨hfront.trans hending, fun n hn => ?_, hheader.append_left front⟩,
    fun a more => hk a _⟩
  refine Tree.startsCloser_of_inert hblock ?_
  exact (Tree.mem_behindHeader_append hn).elim (hinert n) (hendingInert n)

instance : Obeys accountLaw (selectStatement statement) := by
  have hselect : selectStatement statement = within .selectCaseStatement
      (((pure () >>= fun _ => shift >>= fun _ => do
          if ← expect (.keyword .case) then operand) >>= fun _ => finishStatement) >>= fun _ =>
        iterate (fun _ => ()) (selectPass statement) ()) := by
    unfold selectStatement
    simp only [bind_assoc, pure_bind]
    refine congrArg _ (congrArg _ (funext fun _ => congrArg _ (funext fun named => ?_)))
    cases named
    · simp only [Bool.false_eq_true, if_false, pure_bind]
    · simp only [if_true]
  rw [hselect]
  exact .of_lines (fun s hs => underway_header (by simp) (fun a ts => by cases ts <;> rfl) hs)
    fun u s trees t hs ht => leadsThrough_selectPass statement hs ht u

end

/-! ## Types and enumerations -/

instance (k : NodeKind) [IsTrue k.isOrdinary] (details : Production Unit)
    [Obeys accountLaw details] :
    AddsNode (member k details) := by
  unfold member
  exact .behind

instance (item : Production Unit) [AddsNode item] : AddsNode (memberOrToken item) := by
  have hbehind (before : Nat) : AddsOnly accountLaw Tree.Inert (do
      if (← look (·.remaining)) == before then within .unknown shift) := inferInstance
  have hrest (before : Nat) : AddsNode (item >>= fun _ => do
      if (← look (·.remaining)) == before then within .unknown shift) := .before
  unfold memberOrToken
  exact .behind

section

variable {block : Block} {closer : Keyword} {item : Production Unit} [AddsNode item]

variable (item) in
/-- A line of members leads through its block. -/
theorem leadsThrough_memberPass {s₀ s : State} {trees : List Tree} (hs : s₀.InnermostInRow)
    (hwords : block.closerWords = [Token.isWord .end_, Token.isWord closer])
    (hblock : block ≠ .designerProperty) (h : Underway block s₀ trees s) (u : Unit) :
    LeadsThrough block s₀ trees ((memberPass block closer item u).run s) := by
  have hrow := h.holds.1.innermostInRow hs
  unfold memberPass current
  rw [run_look_bind]
  split
  · exact leadsThrough_missing h
  split
  next hkind => exact leadsThrough_between h hkind
  unfold atNext
  rw [run_look_bind]
  split
  next hend =>
    have hfirst := beq_iff_eq.mp hend
    unfold atCloser
    rw [run_look_bind]
    split
    next hcloser =>
      rw [Bool.and_eq_true, beq_iff_eq, beq_iff_eq] at hcloser
      obtain ⟨trees', hfinishes⟩ := h.closed (by rw [hfirst]; rfl)
        (closes_closeBlock hrow hwords hcloser.1 hcloser.2)
      exact .inr ⟨(), trees', rfl, hfinishes⟩
    next => exact leadsThrough_missing h
  next =>
    have hheader : (atProcedureHeader.run s).2 = s := rfl
    rw [run_bind, hheader]
    split
    · exact leadsThrough_missing h
    · exact leadsThrough_line hblock hs h

variable [Composed false item]

/-- A block of members, behind its declarator and its name. -/
theorem obeys_members {k : NodeKind} (hk : ∀ a ts, (Tree.above (.node k) a ts).block? = some block)
    (hwords : block.closerWords = [Token.isWord .end_, Token.isWord closer])
    (hblock : block ≠ .designerProperty) (wanted : Wanted) : Obeys accountLaw (within k do
      shiftDeclarator
      let _ ← expectName wanted
      finishStatement
      memberBlock block closer item) := by
  have hmembers : (do
      shiftDeclarator
      let _ ← expectName wanted
      finishStatement
      memberBlock block closer item : Production Unit) =
      (((do shiftModifiers; skipBlanks) >>= fun _ => shift >>= fun _ => do
          let _ ← expectName wanted) >>= fun _ => finishStatement) >>= fun _ =>
        iterate (fun _ => ()) (memberPass block closer item) () := by
    unfold shiftDeclarator shiftNext memberBlock
    simp only [bind_assoc, pure_bind]
  rw [hmembers]
  exact .of_lines (fun s hs => underway_header hblock hk hs)
    fun u s trees t hs ht => leadsThrough_memberPass item hs hwords hblock ht u

end

instance : Obeys accountLaw typeStatement := by
  have hmember : AddsNode typeMember := by unfold typeMember; infer_instance
  unfold typeStatement
  exact obeys_members (fun a ts => by cases ts <;> rfl) rfl (by simp) .typeName

instance : Obeys accountLaw enumStatement := by
  have hmember : AddsNode enumMember := by unfold enumMember; infer_instance
  unfold enumStatement
  exact obeys_members (fun a ts => by cases ts <;> rfl) rfl (by simp) .enumName

end LosslessBasic.Grammar
