import LosslessBasic.Proofs.Grammar.Accounts
import LosslessBasic.Proofs.Grammar.Headers

/-!
# How bodies and blocks end

The body of a block ends for one of the reasons of `Stop`. `State.Ends` says what is then true: the
missing closer has been reported, unless the closer comes next or a `Next` further in has closed the
loop. `State.Finishes` says the same of all that stands in the node of a block, its closer included,
and from it follows that the block is accounted for when its node is closed (`holds_within_block`).
-/

namespace LosslessBasic.Grammar

/-- The report for the innermost block when its body has ended before a token. -/
def Stop.reports (stop : Stop) (block? : Option Block) (t : Token) : List Failure :=
  if stop = .ownCloser ∨ stop = .closedByNext then []
  else block?.toList.map fun block => .atToken (.missingCloser block t) t

/-- The number of loops that the end of a body closes by a `Next` further in. -/
def Stop.loops (stop : Stop) : Nat := if stop = .closedByNext then 1 else 0

/-- Between two states a body of the innermost block has been added, up to where it ends. -/
structure State.Ends (block? : Option Block) (stop : Stop) (s : State) (trees : List Tree)
    (t : State) :
    Prop where
  adds : s.Adds trees t
  accounted : ∃ accounts, s.Accounts trees (stop.reports block? t.stream.current) accounts t ∧
    s.Counts trees stop.loops accounts t
  closer : stop = .ownCloser → ∃ block, block? = some block ∧ t.OnCloser block
  loop : stop = .closedByNext → block? = some .for_

section

variable {block? : Option Block} {stop : Stop} {s t u : State} {trees more : List Tree}

/-- Trees in front of an end belong to what has ended. -/
theorem State.Ends.trans (h : accountLaw.Holds s trees t) (h' : State.Ends block? stop t more u) :
    State.Ends block? stop s (trees ++ more) u := by
  obtain ⟨hadds, accounts, haccounts, hcounts⟩ := h
  obtain ⟨accounts', haccounts', hcounts'⟩ := h'.accounted
  exact ⟨hadds.trans h'.adds, ⟨_, haccounts.trans h'.adds haccounts', hcounts.trans hcounts'⟩,
    h'.closer, h'.loop⟩

/-- A body that ends before its own closer owes nothing. -/
theorem State.Ends.holds (h : State.Ends block? .ownCloser s trees t) :
    accountLaw.Holds s trees t := by
  obtain ⟨accounts, haccounts, hcounts⟩ := h.accounted
  exact ⟨h.adds, accounts, haccounts, hcounts⟩

/-- The last body of a block ends the bodies of the block. -/
theorem State.Ends.behind (h : State.Ends block? .ownCloser s trees t)
    (h' : State.Ends block? stop t more u) : State.Ends block? stop s (trees ++ more) u :=
  .trans h.holds h'

/-- A node that is around no block, with a body in it. -/
theorem State.Ends.closing {k : NodeKind} (hs : s.InnermostInRow)
    (hk : ∀ a ts, (Tree.above (.node k) a ts).block? = none)
    (h : State.Ends block? stop (s.opening k) trees t) :
    State.Ends block? stop s [.above (.node k) t.builder.anchor trees] t.closing := by
  obtain ⟨accounts, haccounts, hcounts⟩ := h.accounted
  have hnode := State.Accounts.node (a := t.builder.anchor) haccounts (hk _ _)
  exact ⟨(State.Adds.closing_opening hs h.adds).1,
    ⟨accounts, ⟨hnode.places, hnode.sound, hnode.missing⟩, hcounts.node⟩, h.closer, h.loop⟩

/-- Setting `recovering` makes no difference to how a body ends. -/
theorem State.Ends.recovered (h : State.Ends block? stop s trees t) (recovering : Bool) :
    State.Ends block? stop s trees ((setRecovering recovering).run t).2 := by
  obtain ⟨accounts, haccounts, hcounts⟩ := h.accounted
  refine ⟨?_, ⟨accounts, ⟨haccounts.places, haccounts.sound, haccounts.missing⟩, hcounts⟩,
    h.closer, h.loop⟩
  exact ⟨⟨h.adds.context.opened, h.adds.context.blocks, h.adds.context.withTargets,
    h.adds.context.lineMode⟩, h.adds.pending, h.adds.rest⟩

end

/-! ## Loops -/

/-- What every pass of a loop leads to. A loop makes passes until one leaves, so what holds before
each pass leads to what holds behind the last one. -/
theorem iterate_leads {α β : Type} {exhausted : α → β} {pass : α → Production (Pass α β)}
    [hprogress : ∀ a, Progresses (pass a)] {P : α → List Tree → State → Prop}
    {Q : β → List Tree → State → Prop}
    (hpass : ∀ a trees s, P a trees s →
      (∃ a' trees', ((pass a).run s).1 = .again a' ∧ P a' trees' ((pass a).run s).2) ∨
        ∃ b trees', ((pass a).run s).1 = .done b ∧ Q b trees' ((pass a).run s).2)
    {a : α} {trees : List Tree} {s : State} (h : P a trees s) :
    ∃ trees', Q ((iterate exhausted pass a).run s).1 trees'
      ((iterate exhausted pass a).run s).2 := by
  -- each pass that goes on moves a token
  generalize hn : s.stream.remaining = n
  induction n using Nat.strongRecOn generalizing a trees s with
  | ind n ih =>
    rcases hpass a trees s h with ⟨a', trees', hresult, h'⟩ | ⟨b, trees', hresult, h'⟩
    · have hlt := (hprogress a).remaining_lt s a' hresult
      rw [run_iterate_of_again hresult]
      exact ih _ (by omega) h' rfl
    · rw [run_iterate_of_done hresult]
      exact ⟨trees', h'⟩

/-! ## Lists of statements -/

/-- The report that the closer of the innermost block is missing. -/
theorem ends_reportMissingCloser (s : State) {stop : Stop} (hown : stop ≠ .ownCloser)
    (hnext : stop ≠ .closedByNext) :
    State.Ends s.blocks.head? stop s [] ((reportMissingCloser s.stream.current).run s).2 := by
  have hreports (block? : Option Block) (t : Token) : stop.reports block? t =
      block?.toList.map fun block => .atToken (.missingCloser block t) t :=
    if_neg (by simp [hown, hnext])
  have hloops : stop.loops = 0 := if_neg hnext
  unfold reportMissingCloser
  rw [run_bind, run_get]
  dsimp only
  cases hblocks : s.blocks with
  | nil =>
    refine ⟨.refl s, ⟨[], ⟨rfl, by simp, ?_⟩, ?_⟩, fun h => absurd h hown, fun h => absurd h hnext⟩
    · rw [hreports]
      exact (List.append_nil _).symm.trans (List.append_nil _).symm
    · rw [hloops]
      exact .of_eq rfl
  | cons block blocks =>
    dsimp only
    refine ⟨.of_silent rfl rfl rfl rfl rfl, ⟨[], ⟨rfl, by simp, ?_⟩, ?_⟩,
      fun h => absurd h hown, fun h => absurd h hnext⟩
    · rw [hreports, State.missing_push (f := .atToken (.missingCloser block s.stream.current)
        s.stream.current) rfl, List.filterMap_nil, List.append_nil]
      rfl
    · rw [hloops]
      exact .of_eq rfl

/-- What a pass over a list of statements leads to. -/
def LeadsToEnd (s : State) (r : Pass Unit Stop × State) : Prop :=
  (r.1 = .again () ∧ ∃ trees, accountLaw.Holds s trees r.2) ∨
    ∃ stop trees, r.1 = .done stop ∧ State.Ends s.blocks.head? stop s trees r.2

/-- A pass that goes on behind what obeys the law leads to an end later on. -/
theorem leadsToEnd_of_obeys {p : Production Unit} [hp : Obeys accountLaw p] {s : State}
    (hs : s.InnermostInRow) : LeadsToEnd s ((p >>= fun _ => pure (.again ())).run s) :=
  .inl ⟨rfl, hp.holds s hs⟩

/-- A pass that reports the missing closer leads to an end. -/
theorem leadsToEnd_of_report {s : State} {stop : Stop} (hown : stop ≠ .ownCloser)
    (hnext : stop ≠ .closedByNext) :
    LeadsToEnd s ((reportMissingCloser s.stream.current >>= fun _ => pure (.done stop)).run s) :=
  .inr ⟨stop, [], rfl, ends_reportMissingCloser s hown hnext⟩

section

variable {statement : Production Unit} [hstatement : Obeys accountLaw statement] {s : State}

/-- A pass over a statement leads to an end. -/
theorem leadsToEnd_statementPass (hs : s.InnermostInRow) :
    LeadsToEnd s ((statementPass statement).run s) := by
  obtain ⟨trees, hadds, accounts, haccounts, hcounts⟩ := hstatement.holds s hs
  unfold statementPass
  rw [run_bind, run_bind, run_get]
  generalize (statement.run s).2 = t at hadds haccounts hcounts
  dsimp only
  split
  next hclose =>
    rw [Bool.and_eq_true, decide_eq_true_eq, beq_iff_eq] at hclose
    -- the loop takes one of the loops that are still to be closed
    refine .inr ⟨.closedByNext, trees, rfl, ?_, ⟨accounts, ?_, ?_⟩, nofun, fun _ => ?_⟩
    · exact ⟨⟨hadds.context.opened, hadds.context.blocks, hadds.context.withTargets,
        hadds.context.lineMode⟩, hadds.pending, hadds.rest⟩
    · exact ⟨haccounts.places, haccounts.sound, haccounts.missing⟩
    · have hpositive := hclose.1
      unfold State.Counts at hcounts ⊢
      change t.pendingNext - 1 + _ + 1 ≤ _
      omega
    · rw [← hadds.context.blocks, hclose.2]
  next => exact .inl ⟨rfl, trees, hadds, accounts, haccounts, hcounts⟩

omit hstatement in
/-- A pass at a closer leads to an end. -/
theorem leadsToEnd_closerPass {closer : Closer} (hs : s.InnermostInRow)
    (hcloser : Closer.ofKinds? (s.stream.peekSignificant 0).kind (s.stream.peekSignificant 1).kind =
      some closer) : LeadsToEnd s ((closerPass closer).run s) := by
  unfold closerPass
  rw [run_bind, run_get]
  dsimp only
  split
  next hown =>
    refine .inr ⟨.ownCloser, [], rfl, .refl s, ⟨[], .of_eq rfl, .of_eq rfl⟩, fun _ => ?_, nofun⟩
    exact ⟨closer.block, beq_iff_eq.mp hown, closer, hcloser, rfl⟩
  next =>
    have hopen : ((blockIsOpen closer.block).run s).2 = s := rfl
    rw [run_bind, hopen]
    split
    · exact leadsToEnd_of_report (by simp) (by simp)
    · exact leadsToEnd_of_obeys hs

/-- One step through a list leads to an end. -/
theorem leadsToEnd_listPass (hs : s.InnermostInRow) :
    LeadsToEnd s ((listPass statement).run s) := by
  unfold listPass
  rw [run_bind, run_currentKind]
  dsimp only
  split
  · exact leadsToEnd_of_obeys hs
  split
  · exact leadsToEnd_of_obeys hs
  unfold nextCloser?
  rw [run_look_bind]
  cases hcloser : Closer.ofKinds? (s.stream.peekSignificant 0).kind
      (s.stream.peekSignificant 1).kind with
  | some closer => exact leadsToEnd_closerPass hs hcloser
  | none =>
    unfold closerOrStatementPass
    have hinside : (insideProcedure.run s).2 = s := rfl
    have hheader : (atProcedureHeader.run s).2 = s := rfl
    rw [run_bind, hinside, run_bind, hheader]
    split
    · exact leadsToEnd_of_report (by simp) (by simp)
    · exact leadsToEnd_statementPass hs

variable (statement) in
/-- A pass through a list of statements leads to an end. -/
theorem leadsToEnd_statementsPass (hs : s.InnermostInRow) (u : Unit) :
    LeadsToEnd s ((statementsPass statement u).run s) := by
  unfold statementsPass current
  rw [run_look_bind]
  split
  · exact leadsToEnd_of_report (by simp) (by simp)
  rw [run_bind, run_get]
  dsimp only
  split
  · exact leadsToEnd_of_report (by simp) (by simp)
  · exact leadsToEnd_listPass hs

variable [Composed false statement] [Advances statement]

variable (statement) in
/-- A list of statements goes on up to where it has to end. -/
theorem ends_statements (hs : s.InnermostInRow) :
    ∃ trees, State.Ends s.blocks.head? ((statements statement).run s).1 s trees
      ((statements statement).run s).2 := by
  unfold statements
  refine iterate_leads (P := fun _ trees t => accountLaw.Holds s trees t)
    (Q := fun stop trees t => State.Ends s.blocks.head? stop s trees t) ?_ (.refl s)
  intro u trees t h
  rcases leadsToEnd_statementsPass statement (h.1.innermostInRow hs) u with
    ⟨hagain, more, h'⟩ | ⟨stop, more, hdone, h'⟩
  · exact .inl ⟨(), trees ++ more, hagain, h.trans h'⟩
  · rw [h.1.context.blocks] at h'
    exact .inr ⟨stop, trees ++ more, hdone, .trans h h'⟩

variable (statement) in
/-- The body of a block is one list of statements. -/
theorem ends_blockBody (block : Block) (hs : s.InnermostInRow) :
    ∃ body, body.isStatementList = true ∧
      State.Ends (some block) ((blockBody statement block).run s).1 s [body]
        ((blockBody statement block).run s).2 := by
  generalize hinside : ({ s with blocks := block :: s.blocks } : State) = inside
  have hrow : inside.InnermostInRow := by rw [← hinside]; exact hs
  obtain ⟨trees, h⟩ :=
    ends_statements statement (State.innermostInRow_opening inside .statementList)
  generalize hr : (statements statement).run (inside.opening .statementList) = r at h
  have hrun : (blockBody statement block).run s =
      (r.1,
        ((setRecovering false).run { r.2.closing with blocks := r.2.closing.blocks.tail }).2) := by
    rw [← hr, ← hinside]
    rfl
  obtain ⟨hadds, ⟨accounts, haccounts, hcounts⟩, hcloser, hloop⟩ :=
    h.closing hrow fun a ts => by cases ts <;> rfl
  have hhead : (inside.opening .statementList).blocks.head? = some block := by
    rw [← hinside]
    rfl
  rw [hhead] at haccounts hcloser hloop
  subst hinside
  have hbody : State.Ends (some block) r.1 s [_]
      { r.2.closing with blocks := r.2.closing.blocks.tail } :=
    ⟨hadds.inBlock, ⟨accounts, ⟨haccounts.places, haccounts.sound, haccounts.missing⟩, hcounts⟩,
      hcloser, hloop⟩
  rw [hrun]
  exact ⟨_, by cases trees <;> rfl, hbody.recovered false⟩

end

/-! ## Blocks -/

/-- Between two states all that stands in the node of a block has been added, and the block has
ended as its account will say. A `Next` that closes a loop may leave others to be closed, as many as
there are commas in it. -/
def State.Finishes (block : Block) (s : State) (trees : List Tree) (t : State) : Prop :=
  s.Adds trees t ∧ ∃ accounts ending,
    s.Accounts trees
      (if ending = Ending.missing then
        [.atToken (.missingCloser block t.stream.current) t.stream.current] else []) accounts t ∧
    t.pendingNext + closedByNext accounts + (if ending = .byNext then 1 else 0) ≤
      s.pendingNext + Tree.furtherVariablesAll trees +
        (if block = .for_ then Tree.commas trees else 0) ∧
    ∀ n : Tree, n.children = trees → (⟨n, block, t.stream.current, ending⟩ : Account).IsSound

/-- A block is accounted for when its node is closed. -/
theorem holds_within_block {k : NodeKind} {p : Production Unit} {block : Block} {s : State}
    {trees : List Tree} (hs : s.InnermostInRow)
    (hk : ∀ a, (Tree.above (.node k) a trees).block? = some block)
    (h : State.Finishes block (s.opening k) trees (p.run (s.opening k)).2) :
    ∃ n, n.isToken = false ∧ accountLaw.Holds s [n] ((within k p).run s).2 := by
  obtain ⟨hadds, accounts, ending, haccounts, hcounts, hsound⟩ := h
  rw [run_within]
  generalize (p.run (s.opening k)).2 = t at hadds haccounts hcounts hsound
  have hnode := haccounts.block (a := t.builder.anchor) ending (hk _)
    (hsound _ (Tree.children_above _ _ _)) (by unfold Account.failure?; split <;> rfl)
  refine ⟨_, isToken_above _ _ _, (State.Adds.closing_opening hs hadds).1, _,
    ⟨hnode.places, hnode.sound, hnode.missing⟩, ?_⟩
  change t.pendingNext + closedByNext (accounts ++ [_]) + 0 ≤ s.pendingNext + _
  rw [closedByNext_append, Tree.furtherVariablesAll, Tree.furtherVariablesAll,
    Tree.furtherVariables_above, hk]
  have hfor : (some block = some .for_) = (block = .for_) := by simp
  have hlast : closedByNext [⟨.above (.node k) t.builder.anchor trees, block, t.stream.current,
      ending⟩] = if ending = .byNext then 1 else 0 := by
    unfold closedByNext
    split
    next h => simp [h]
    next h => simp [h]
  rw [hlast]
  simp only [hfor]
  change t.pendingNext + _ + _ ≤ s.pendingNext + _ + _ at hcounts
  omega

/-- The body of a block leaves it where it must, without its closer. -/
theorem State.Ends.finishes {block : Block} {stop : Stop} {s t : State} {trees : List Tree}
    (h : State.Ends (some block) stop s trees t) (hstop : stop ≠ .ownCloser)
    (hopen : ∀ n ∈ Tree.behindHeader trees, n.startsCloser block = false) :
    State.Finishes block s trees t := by
  obtain ⟨hadds, ⟨accounts, haccounts, hcounts⟩, -, hloop⟩ := h
  have hclosed (n : Tree) (hn : n.children = trees) : ¬ n.HasCloser block :=
    Tree.not_hasCloser (by rwa [hn])
  unfold State.Counts Stop.loops at hcounts
  unfold Stop.reports at haccounts
  by_cases hnext : stop = .closedByNext
  · rw [if_pos (.inr hnext)] at haccounts
    rw [if_pos hnext] at hcounts
    refine ⟨hadds, accounts, .byNext, haccounts, ?_, fun n hn => ⟨?_, hclosed n hn⟩⟩
    · rw [if_pos rfl]
      omega
    · exact Option.some.inj (hloop hnext)
  · rw [if_neg (by simp [hstop, hnext])] at haccounts
    rw [if_neg hnext] at hcounts
    refine ⟨hadds, accounts, .missing, haccounts, ?_, fun n hn => hclosed n hn⟩
    rw [if_neg (by simp)]
    omega

/-! ## Closers -/

/-- Between two states the closer of a block has been added. -/
def State.Closes (block : Block) (s : State) (trees : List Tree) (t : State) : Prop :=
  s.Adds trees t ∧
    (∃ accounts, s.Accounts trees [] accounts t ∧
      t.pendingNext + closedByNext accounts ≤ s.pendingNext + Tree.furtherVariablesAll trees +
        (if block = .for_ then Tree.commas trees else 0)) ∧
    ∃ closer more, Tree.words trees = closer ++ more ∧
      List.Forall₂ (fun test t => test t = true) block.closerWords closer

/-- A block is closed where the words of its closer have been added. -/
theorem State.Closes.of_holds {block : Block} {s t : State} {trees : List Tree}
    (closer more : List Token)
    (h : accountLaw.Holds s trees t) (hwords : Tree.words trees = closer ++ more)
    (hcloser : List.Forall₂ (fun test t => test t = true) block.closerWords closer) :
    State.Closes block s trees t := by
  obtain ⟨hadds, accounts, haccounts, hcounts⟩ := h
  unfold State.Counts at hcounts
  exact ⟨hadds, ⟨accounts, haccounts, by omega⟩, closer, more, hwords, hcloser⟩

/-- What adds nothing may stand in front of a closer. -/
theorem State.Closes.behind {block : Block} {s t u : State} {trees : List Tree}
    (h : accountLaw.Holds s [] t) (hcloses : State.Closes block t trees u) :
    State.Closes block s trees u := by
  obtain ⟨hadds, accounts, haccounts, hcounts⟩ := h
  obtain ⟨hadds', ⟨accounts', haccounts', hcounts'⟩, hwords⟩ := hcloses
  refine ⟨hadds.trans hadds', ⟨_, haccounts.trans hadds' haccounts', ?_⟩, hwords⟩
  change t.pendingNext + closedByNext accounts + 0 ≤ s.pendingNext + 0 at hcounts
  rw [closedByNext_append]
  omega

/-- A body and the closer behind it finish a block. -/
theorem State.Closes.finishes {block : Block} {s t u : State} {trees rest : List Tree}
    (h : accountLaw.Holds s trees t) (hheader : ∃ n ∈ trees, n.endsHeader = true)
    (hcloses : State.Closes block t rest u) : State.Finishes block s (trees ++ rest) u := by
  obtain ⟨hadds, accounts, haccounts, hcounts⟩ := h
  obtain ⟨hadds', ⟨accounts', haccounts', hcounts'⟩, closer, more, hwords, hcloser⟩ := hcloses
  refine ⟨hadds.trans hadds', accounts ++ accounts', .closed, ?_, ?_, fun n hn => ?_⟩
  · rw [if_neg (by simp)]
    exact haccounts.trans hadds' haccounts'
  · unfold State.Counts at hcounts
    rw [closedByNext_append, Tree.furtherVariablesAll_append, Tree.commas_append,
      if_neg (by simp)]
    by_cases hfor : block = .for_
    · rw [if_pos hfor] at hcounts' ⊢
      omega
    · rw [if_neg hfor] at hcounts' ⊢
      omega
  · exact Tree.hasCloser_of_words hn hheader hwords hcloser

/-- Blanks hold no words. -/
theorem words_eq_nil_of_isBlank {blanks : List Tree} (h : ∀ n ∈ blanks, n.isBlank = true) :
    Tree.words blanks = [] := by
  induction blanks with
  | nil => rfl
  | cons n blanks ih =>
    have hn := h n List.mem_cons_self
    have hrest := ih fun m hm => h m (List.mem_cons_of_mem _ hm)
    cases n with
    | leaf t =>
      have htrivia : t.kind.isTrivia = true := by
        rw [Tree.isBlank] at hn
        cases hkind : t.kind with
        | trivia k => rfl
        | _ => rw [hkind] at hn; cases hn
      rw [Tree.words, if_pos htrivia, hrest]
    | node k a cs => cases hn

/-- A keyword is one of the words. -/
theorem words_leaf {t : Token} {word : Keyword} (h : t.kind = .keyword word) (ts : List Tree) :
    Tree.words (.leaf t :: ts) = t :: Tree.words ts := by
  rw [Tree.words, if_neg (by rw [h]; simp [Kind.isTrivia])]

/-- The closer of a block of statements has one word or two. -/
theorem words_of_ofKinds? {first second : Kind} {closer : Closer}
    (h : Closer.ofKinds? first second = some closer) (hsegment : closer.isSegment = false) :
    (∃ word, first = .keyword .end_ ∧ second = .keyword word ∧
      closer.block.closerWords = [Token.isWord .end_, Token.isWord word]) ∨
      ∃ word, first = .keyword word ∧ word ≠ .end_ ∧ closer.block.closerWords =
        [Token.isWord word] := by
  unfold Closer.ofKinds? at h
  split at h
  case h_1 =>
    split at h
    case h_7 => cases h
    all_goals
      obtain rfl := Option.some.inj h
      exact .inl ⟨_, rfl, rfl, rfl⟩
  case h_8 => cases h
  all_goals
    obtain rfl := Option.some.inj h
    first
      | exact .inr ⟨_, rfl, by simp, rfl⟩
      | cases hsegment

/-- The two words of a closer, when they come next. -/
theorem closes_closeBlock {block : Block} {word : Keyword} {s : State} (hs : s.InnermostInRow)
    (hwords : block.closerWords = [Token.isWord .end_, Token.isWord word])
    (hfirst : (s.stream.peekSignificant 0).kind = .keyword .end_)
    (hsecond : (s.stream.peekSignificant 1).kind = .keyword word) :
    ∃ trees, State.Closes block s trees (closeBlock.run s).2 := by
  -- the note in front is about the second word
  generalize hnoted : ((note .close (s.stream.peekSignificant 1)).run s).2 = noted
  have hnote : accountLaw.Holds s [] noted := by
    rw [← hnoted]
    exact ⟨.of_silent rfl rfl rfl rfl rfl, [], .of_eq rfl, .of_eq rfl⟩
  have hstream : noted.stream = s.stream := by rw [← hnoted]; rfl
  have hrow := hnote.1.innermostInRow hs
  obtain ⟨blanks, hblanks, h, hnext⟩ :=
    holds_shiftNext (L := accountLaw) hrow (by rw [hstream, hfirst]; simp)
  rw [hstream] at h hnext
  generalize ht : (shiftNext.run noted).2 = t at h hnext
  have hrow' := h.1.innermostInRow hrow
  obtain ⟨blanks', hblanks', h', -⟩ :=
    holds_shiftNext (L := accountLaw) hrow' (by rw [hnext, hsecond]; simp)
  rw [hnext] at h'
  generalize hu : (shiftNext.run t).2 = u at h'
  have hfinish : Obeys accountLaw finishStatement := inferInstance
  obtain ⟨ending, hending⟩ := hfinish.holds u (h'.1.innermostInRow hrow')
  have hrun : (closeBlock.run s).2 = (finishStatement.run u).2 := by
    unfold closeBlock
    rw [run_look_bind, run_bind, hnoted, run_bind, ht, run_bind, hu]
  rw [hrun]
  refine ⟨_, .of_holds [s.stream.peekSignificant 0, s.stream.peekSignificant 1] (Tree.words ending)
    (((hnote.trans h).trans h').trans hending) ?_ ?_⟩
  · simp only [List.nil_append, List.append_assoc, List.cons_append,
      Tree.words_append, words_eq_nil_of_isBlank hblanks, words_eq_nil_of_isBlank hblanks',
      words_leaf hfirst, words_leaf hsecond]
  · rw [hwords]
    exact .cons (by simp [Token.isWord, hfirst]) (.cons (by simp [Token.isWord, hsecond]) .nil)

end LosslessBasic.Grammar
