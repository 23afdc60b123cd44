import LosslessBasic.Proofs.Grammar.Blocks
import LosslessBasic.Proofs.Grammar.Endings

/-!
# Blocks are accounted for

Every statement that holds others obeys `accountLaw`. The blocks differ in their headers, in what
stands between the header and the closer, and in the closer; `finishes_bodies` puts these together.
-/

namespace LosslessBasic.Grammar

/-- What is no token ends a header. -/
theorem endsHeader_of_isToken_eq_false {n : Tree} (h : n.isToken = false) :
    n.endsHeader = true := by
  cases n with
  | leaf t => cases h
  | node k a cs => rfl

/-- A list of statements is no token. -/
theorem isToken_of_isStatementList {n : Tree} (h : n.isStatementList = true) :
    n.isToken = false := by
  cases n with
  | leaf t => cases h
  | node k a cs => rfl

/-- What has been added is bodies of a block that end as the last of them ends. Where the closer of
the block comes next, `pre` says which. -/
def EndsIn (block : Block) (pre : TokenStream → Prop) (s : State) (r : Stop × State) : Prop :=
  ∃ trees, State.Ends (some block) r.1 s trees r.2 ∧ (r.1 = .ownCloser → pre r.2.stream)

/-- The same where nothing but nodes has been added. -/
def EndsWith (block : Block) (pre : TokenStream → Prop) (s : State) (r : Stop × State) : Prop :=
  ∃ trees, trees ≠ [] ∧ (∀ n ∈ trees, n.isToken = false) ∧ State.Ends (some block) r.1 s trees r.2 ∧
    (r.1 = .ownCloser → pre r.2.stream)

section

variable {block : Block} {pre : TokenStream → Prop}

/-- A node that is around no block, with bodies in it. -/
theorem endsWith_within {k : NodeKind} {p : Production Stop} {s : State} (hs : s.InnermostInRow)
    (hk : ∀ a ts, (Tree.above (.node k) a ts).block? = none)
    (h : EndsIn block pre (s.opening k) (p.run (s.opening k))) :
    EndsWith block pre s ((within k p).run s) := by
  obtain ⟨trees, hends, hpre⟩ := h
  rw [run_within]
  refine ⟨_, by simp, fun n hn => ?_, hends.closing hs hk, hpre⟩
  rw [List.mem_singleton.mp hn]
  exact isToken_above _ _ _

/-- What obeys the law may stand in front of bodies. -/
theorem EndsIn.bind {p : Production Unit} {q : Production Stop} {s : State}
    [hp : Obeys accountLaw p]
    (hs : s.InnermostInRow) (hq : ∀ t, t.InnermostInRow → EndsIn block pre t (q.run t)) :
    EndsIn block pre s ((p >>= fun _ => q).run s) := by
  obtain ⟨front, h⟩ := hp.holds s hs
  obtain ⟨trees, hends, hpre⟩ := hq _ (h.1.innermostInRow hs)
  exact ⟨front ++ trees, .trans h hends, hpre⟩

/-- A block finishes with its closer behind its bodies, or where these have ended without it. -/
theorem finishes_bodies {bodies : Production Stop} {close : Stop → Production Unit} {s₀ s : State}
    {front : List Tree} (hs : s₀.InnermostInRow) (hfront : accountLaw.Holds s₀ front s)
    (hinert : ∀ n ∈ Tree.behindHeader front, n.Inert) (hblock : block ≠ .designerProperty)
    (hbodies : EndsWith block pre s (bodies.run s))
    (hclose : ∀ t, t.InnermostInRow → t.OnCloser block → pre t.stream →
      ∃ trees, State.Closes block t trees ((close .ownCloser).run t).2)
    (hleave : ∀ stop t, stop ≠ .ownCloser → (close stop).run t = ((), t)) :
    ∃ trees, State.Finishes block s₀ trees ((bodies >>= close).run s).2 := by
  obtain ⟨trees, hne, hnodes, hends, hpre⟩ := hbodies
  rw [run_bind]
  generalize bodies.run s = r at hends hpre ⊢
  have hall := State.Ends.trans hfront hends
  by_cases hstop : r.1 = .ownCloser
  · rw [hstop] at hall ⊢
    obtain ⟨closed, hclosed, hcloser⟩ := hends.closer hstop
    obtain rfl := Option.some.inj hclosed
    obtain ⟨rest, hcloses⟩ := hclose r.2 (hall.adds.innermostInRow hs) hcloser (hpre hstop)
    obtain ⟨n, hn⟩ := List.exists_mem_of_ne_nil trees hne
    exact ⟨_, hcloses.finishes hall.holds
      ⟨n, List.mem_append_right _ hn, endsHeader_of_isToken_eq_false (hnodes n hn)⟩⟩
  · rw [hleave r.1 r.2 hstop]
    refine ⟨_, hall.finishes hstop fun n hn => Tree.startsCloser_of_inert hblock ?_⟩
    rcases Tree.mem_behindHeader_append hn with hn | hn
    · exact hinert n hn
    · exact inert_of_isToken_eq_false (hnodes n hn)

variable (block) in
/-- A block with a header, bodies and a closer. -/
theorem obeys_bodied {γ : Type} {k : NodeKind} {header : Production γ}
    {bodies : γ → Production Stop} {close : Stop → Production Unit}
    (hk : ∀ a ts, (Tree.above (.node k) a ts).block? = some block)
    (hblock : block ≠ .designerProperty)
    (hheader : ∀ s, s.InnermostInRow → ∃ trees, accountLaw.Holds s trees (header.run s).2 ∧
      ∀ n ∈ Tree.behindHeader trees, n.Inert)
    (hbodies : ∀ c s, s.InnermostInRow → EndsWith block pre s ((bodies c).run s))
    (hclose : ∀ t, t.InnermostInRow → t.OnCloser block → pre t.stream →
      ∃ trees, State.Closes block t trees ((close .ownCloser).run t).2)
    (hleave : ∀ stop t, stop ≠ .ownCloser → (close stop).run t = ((), t)) :
    Obeys accountLaw (within k (header >>= fun c => bodies c >>= close)) where
  holds s hs := by
    have hrow := State.innermostInRow_opening s k
    obtain ⟨front, hfront, hinert⟩ := hheader (s.opening k) hrow
    obtain ⟨trees, hfinishes⟩ := finishes_bodies hrow hfront hinert hblock
      (hbodies (header.run (s.opening k)).1 _ (hfront.1.innermostInRow hrow)) hclose hleave
    obtain ⟨n, -, h⟩ := holds_within_block (p := header >>= fun c => bodies c >>= close) hs
      (hk · trees) hfinishes
    exact ⟨_, h⟩

end

/-! ## Closers -/

/-- The closers that end a whole block of statements, but no loop, start with `End`. -/
theorem OnCloser.end_ {block : Block} {s : State} (h : s.OnCloser block)
    (hblock : ∀ first, (block, first) ∉ [(Block.for_, Kind.keyword .next), (.do_, .keyword .loop),
        (.while_, .keyword .wend), (.if_, .keyword .else_), (.if_, .keyword .elseIf),
        (.select, .keyword .case)]) : (s.stream.peekSignificant 0).kind = .keyword .end_ := by
  obtain ⟨closer, hcloser, rfl⟩ := h
  rcases Closer.cases_of_ofKinds? hcloser with ⟨hend, -⟩ | hother
  · exact hend
  · exact absurd hother (hblock _)

/-- The closer of a block that starts with `End`. -/
theorem closes_blockEnd {block : Block} {s : State} (hs : s.InnermostInRow)
    (hcloser : s.OnCloser block) (hend : (s.stream.peekSignificant 0).kind = .keyword .end_) :
    ∃ trees, State.Closes block s trees ((blockEnd .ownCloser).run s).2 := by
  obtain ⟨closer, hkinds, rfl⟩ := hcloser
  have hsegment : closer.isSegment = false := by
    rw [hend] at hkinds
    unfold Closer.ofKinds? at hkinds
    dsimp only at hkinds
    split at hkinds <;> cases hkinds <;> rfl
  rcases words_of_ofKinds? hkinds hsegment with ⟨word, hfirst, hsecond, hwords⟩ |
    ⟨word, hfirst, hne, -⟩
  · exact closes_closeBlock hs hwords hfirst hsecond
  · rw [hend] at hfirst
    exact absurd (Kind.keyword.inj hfirst).symm hne

/-- Where the own closer does not come next nothing is read at the end of a block. -/
theorem run_blockEnd_of_ne {stop : Stop} (h : stop ≠ .ownCloser) (s : State) :
    (blockEnd stop).run s = ((), s) := by
  unfold blockEnd
  rw [if_neg (by simpa using h)]
  rfl

/-- A closer of one word, and what stands behind it. -/
theorem closes_shiftNext {block : Block} {test : Token → Bool} (rest : Production Unit)
    [hrest : Obeys accountLaw rest] {s : State} (hs : s.InnermostInRow)
    (hwords : block.closerWords = [test]) (htest : test (s.stream.peekSignificant 0) = true)
    (htrivia : (s.stream.peekSignificant 0).kind.isTrivia = false)
    (hend : (s.stream.peekSignificant 0).kind ≠ .lexeme .endOfFile) :
    ∃ trees, State.Closes block s trees ((shiftNext >>= fun _ => rest).run s).2 := by
  obtain ⟨blanks, hblanks, h, -⟩ := holds_shiftNext (L := accountLaw) hs hend
  obtain ⟨more, hmore⟩ := hrest.holds _ (h.1.innermostInRow hs)
  refine ⟨_, .of_holds [s.stream.peekSignificant 0] (Tree.words more) (h.trans hmore) ?_ ?_⟩
  · simp only [List.append_assoc, List.cons_append, List.nil_append, Tree.words_append,
      words_eq_nil_of_isBlank hblanks, Tree.words, htrivia, Bool.false_eq_true, if_false]
  · rw [hwords]
    exact .cons htest .nil

/-- The same where the closer is noted first. -/
theorem closes_word {block : Block} {word : Keyword} (rest : Production Unit)
    [Obeys accountLaw rest]
    {s : State} (hs : s.InnermostInRow) (hwords : block.closerWords = [Token.isWord word])
    (hfirst : (s.stream.peekSignificant 0).kind = .keyword word) :
    ∃ trees, State.Closes block s trees
      ((do note .close (← next); shiftNext; rest : Production Unit).run s).2 := by
  generalize hnoted : ((note .close (s.stream.peekSignificant 0)).run s).2 = noted
  have hnote : accountLaw.Holds s [] noted := by
    rw [← hnoted]
    exact ⟨.of_silent rfl rfl rfl rfl rfl, [], .of_eq rfl, .of_eq rfl⟩
  have hstream : noted.stream = s.stream := by rw [← hnoted]; rfl
  have hrun : ((do note .close (← next); shiftNext; rest : Production Unit).run s).2 =
      ((shiftNext >>= fun _ => rest).run noted).2 := by
    rw [← hnoted]
    rfl
  obtain ⟨trees, hcloses⟩ := closes_shiftNext rest (hnote.1.innermostInRow hs) hwords
    (by rw [hstream, Token.isWord, hfirst, beq_self_eq_true]) (by rw [hstream, hfirst]; rfl)
    (by rw [hstream, hfirst]; simp)
  rw [hrun]
  exact ⟨trees, .behind hnote hcloses⟩

/-! ## Do, While and With -/

section

variable {statement : Production Unit} [hstatement : Obeys accountLaw statement]
  [hcomposed : Composed false statement] [hadvances : Advances statement]

variable (statement) in
/-- The body of a block ends in front of its closer, or the closer is missing. -/
theorem endsWith_blockBody (block : Block) {s : State} (hs : s.InnermostInRow) :
    EndsWith block (fun _ => True) s ((blockBody statement block).run s) := by
  obtain ⟨body, hbody, hends⟩ := ends_blockBody statement block hs
  refine ⟨[body], by simp, fun n hn => ?_, hends, fun _ => trivial⟩
  rw [List.mem_singleton.mp hn]
  exact isToken_of_isStatementList hbody

/-- The body of a `With` ends in front of its closer, or the closer is missing. -/
theorem endsWith_inWith {target : Option Tree} {s : State} (hs : s.InnermostInRow) :
    EndsWith .with_ (fun _ => True) s ((inWith target (blockBody statement .with_)).run s) := by
  obtain ⟨trees, hne, hnodes, hends, -⟩ := endsWith_blockBody statement .with_
    (s := { s with withTargets := target :: s.withTargets }) hs
  rw [run_inWith]
  generalize (blockBody statement .with_).run { s with withTargets := target :: s.withTargets } = r
    at hends
  obtain ⟨hadds, ⟨accounts, haccounts, hcounts⟩, hcloser, hloop⟩ := hends
  exact ⟨trees, hne, hnodes, ⟨hadds.inWith,
    ⟨accounts, ⟨haccounts.places, haccounts.sound, haccounts.missing⟩, hcounts⟩, hcloser, hloop⟩,
    fun _ => trivial⟩

/-- The single word that closes a loop. -/
theorem OnCloser.word {block : Block} {s : State} (word : Keyword) (h : s.OnCloser block)
    (hword : (block, word) ∈ [(Block.for_, Keyword.next), (.do_, .loop), (.while_, .wend)]) :
    (s.stream.peekSignificant 0).kind = .keyword word ∧
      block.closerWords = [Token.isWord word] := by
  obtain ⟨closer, hcloser, rfl⟩ := h
  unfold Closer.ofKinds? at hcloser
  split at hcloser
  case h_1 =>
    split at hcloser
    all_goals cases hcloser
    all_goals simp at hword
  case h_8 => cases hcloser
  all_goals
    obtain rfl := Option.some.inj hcloser
    simp at hword
  all_goals
    subst hword
    exact ⟨‹_›, rfl⟩

/-- A header that starts with the token at the cursor. -/
theorem holds_shiftHeader {γ : Type} {rest : Production γ}
    [AddsOnly accountLaw Tree.Inert rest] {s : State}
    (hs : s.InnermostInRow) :
    ∃ trees, accountLaw.Holds s trees ((shift >>= fun _ => rest).run s).2 ∧
      ∀ n ∈ Tree.behindHeader trees, n.Inert :=
  holds_header (pure ()) (fun _ => rest) hs

instance : Obeys accountLaw (doStatement statement) := by
  have hdo : doStatement statement = within .doStatement
      ((shift >>= fun _ => do optionalLoopCondition; finishStatement) >>= fun _ =>
        blockBody statement .do_ >>= fun stop =>
          if stop == .ownCloser then do
            note .close (← next)
            shiftNext
            optionalLoopCondition
            finishStatement
          else pure ()) := by
    unfold doStatement
    simp only [bind_assoc]
  rw [hdo]
  refine obeys_bodied .do_ (fun a ts => by cases ts <;> rfl) (by simp)
    (fun s hs => holds_shiftHeader hs) (fun _ s hs => endsWith_blockBody statement _ hs)
    (fun t ht hcloser _ => ?_)
    fun stop t hstop => by rw [if_neg (by simpa using hstop)]; rfl
  obtain ⟨hfirst, hwords⟩ := OnCloser.word .loop hcloser (by simp)
  exact closes_word (do optionalLoopCondition; finishStatement) ht hwords hfirst

instance : Obeys accountLaw (whileStatement statement) := by
  have hwhile : whileStatement statement = within .whileStatement
      ((shift >>= fun _ => do operand; finishStatement) >>= fun _ =>
        blockBody statement .while_ >>= fun stop =>
          if stop == .ownCloser then do
            note .close (← next)
            shiftNext
            finishStatement
          else pure ()) := by
    unfold whileStatement
    simp only [bind_assoc]
  rw [hwhile]
  refine obeys_bodied .while_ (fun a ts => by cases ts <;> rfl) (by simp)
    (fun s hs => holds_shiftHeader hs) (fun _ s hs => endsWith_blockBody statement _ hs)
    (fun t ht hcloser _ => ?_)
    fun stop t hstop => by rw [if_neg (by simpa using hstop)]; rfl
  obtain ⟨hfirst, hwords⟩ := OnCloser.word .wend hcloser (by simp)
  exact closes_word _ ht hwords hfirst

instance : Obeys accountLaw (withStatement statement) := by
  have hwith : withStatement statement = within .withStatement
      ((shift >>= fun _ => do let target ← expression; finishStatement; return target) >>=
        fun target =>
        inWith target (blockBody statement .with_) >>= blockEnd) := by
    unfold withStatement
    simp only [bind_assoc, pure_bind]
  rw [hwith]
  refine obeys_bodied .with_ (fun a ts => by cases ts <;> rfl) (by simp)
    (fun s hs => holds_shiftHeader hs) (fun _ s hs => endsWith_inWith hs) (fun t ht hcloser _ => ?_)
    fun stop t hstop => run_blockEnd_of_ne hstop t
  exact closes_blockEnd ht hcloser (OnCloser.end_ hcloser (by simp))

/-! ## For -/

/-- A step of a `Next` counts a loop only behind a comma. -/
theorem holds_nextVariablePass (closed : Nat) {s : State} (hs : s.InnermostInRow) :
    ∃ trees, accountLaw.Holds s trees ((nextVariablePass closed).run s).2 ∧
      ((∃ more, ((nextVariablePass closed).run s).1 = .again more ∧
        more ≤ closed + Tree.commas trees) ∨
        ((nextVariablePass closed).run s).1 = .done closed) := by
  unfold nextVariablePass atNext
  rw [run_look_bind]
  split
  next hcomma =>
    have hkind := beq_iff_eq.mp hcomma
    obtain ⟨blanks, -, h, -⟩ := holds_shiftNext (L := accountLaw) hs (by rw [hkind]; simp)
    have hone : 1 ≤ Tree.commas (blanks ++ [.leaf (s.stream.peekSignificant 0)]) := by
      refine List.countP_pos_iff.mpr ⟨.leaf (s.stream.peekSignificant 0), by simp, ?_⟩
      simp [Tree.isToken, Tree.kind, hkind]
    have hrow := h.1.innermostInRow hs
    have hnext (t : State) : (next.run t).2 = t := rfl
    have hloops (t : State) : (openLoops.run t).2 = t := rfl
    -- one comma pays for each variable, whether a loop is open for it or not
    rw [run_bind, run_bind, hnext, run_bind, hloops]
    dsimp only
    split
    next =>
      have hvariable : Obeys accountLaw variable_ := inferInstance
      obtain ⟨more, hmore⟩ := hvariable.holds _ hrow
      refine ⟨_, h.trans hmore, .inl ⟨closed + 1, rfl, ?_⟩⟩
      rw [Tree.commas_append]
      omega
    next =>
      have hvariable (named : Token) : Obeys accountLaw (do
          fail (.unmatchedNext named) named
          variable_) := inferInstance
      obtain ⟨more, hmore⟩ := (hvariable _).holds _ hrow
      exact ⟨_, h.trans hmore, .inl ⟨closed, rfl, Nat.le_add_right ..⟩⟩
  next => exact ⟨[], .refl s, .inr rfl⟩

/-- As many loops are ended by a `Next` as there are commas between its variables, at the most. -/
theorem holds_nextVariables {s : State} (hs : s.InnermostInRow) :
    ∃ trees, accountLaw.Holds s trees ((iterate id nextVariablePass 0).run s).2 ∧
      ((iterate id nextVariablePass 0).run s).1 ≤ Tree.commas trees := by
  refine iterate_leads
    (P := fun closed trees t => accountLaw.Holds s trees t ∧ closed ≤ Tree.commas trees)
    (Q := fun closed trees t => accountLaw.Holds s trees t ∧ closed ≤ Tree.commas trees) ?_
    ⟨.refl s, Nat.le_refl _⟩
  intro closed trees t ⟨h, hle⟩
  obtain ⟨more, hmore, ⟨closed', hagain, hle'⟩ | hdone⟩ :=
    holds_nextVariablePass closed (h.1.innermostInRow hs)
  · refine .inl ⟨closed', _, hagain, h.trans hmore, ?_⟩
    rw [Tree.commas_append]
    omega
  · refine .inr ⟨closed, _, hdone, h.trans hmore, ?_⟩
    rw [Tree.commas_append]
    omega

/-- A `Next` closes its own loop, and leaves no more loops to be closed than it has commas. -/
theorem closes_nextClause {s : State} (hs : s.InnermostInRow) (hcloser : s.OnCloser .for_) :
    ∃ trees, State.Closes .for_ s trees (nextClause.run s).2 := by
  obtain ⟨hfirst, hwords⟩ := OnCloser.word .next hcloser (by simp)
  have hfinish : Obeys accountLaw finishStatement := inferInstance
  have hvariable : Obeys accountLaw variable_ := inferInstance
  generalize hnoted : ((note .close (s.stream.peekSignificant 0)).run s).2 = noted
  have hnote : accountLaw.Holds s [] noted := by
    rw [← hnoted]
    exact ⟨.of_silent rfl rfl rfl rfl rfl, [], .of_eq rfl, .of_eq rfl⟩
  have hstream : noted.stream = s.stream := by rw [← hnoted]; rfl
  have hrow := hnote.1.innermostInRow hs
  obtain ⟨blanks, hblanks, h, -⟩ :=
    holds_shiftNext (L := accountLaw) hrow (by rw [hstream, hfirst]; simp)
  rw [hstream] at h
  generalize ht : (shiftNext.run noted).2 = t at h
  have hrow' := h.1.innermostInRow hrow
  have hwithin : (withinStatement.run t).2 = t := rfl
  have hclosed (rest : List Tree) :
      ∃ closer more, Tree.words ([] ++ (blanks ++ [.leaf (s.stream.peekSignificant 0)]) ++ rest) =
          closer ++ more ∧
        List.Forall₂ (fun test t => test t = true) (Block.closerWords .for_) closer := by
    refine ⟨[s.stream.peekSignificant 0], Tree.words rest, ?_, ?_⟩
    · simp only [List.nil_append, List.append_assoc, List.cons_append, Tree.words_append,
        words_eq_nil_of_isBlank hblanks, words_leaf hfirst]
    · rw [hwords]
      exact .cons (by simp [Token.isWord, hfirst]) .nil
  unfold nextClause next
  rw [run_look_bind, run_bind, hnoted, run_bind, ht, run_bind, hwithin]
  split
  next =>
    obtain ⟨first, hfirstVariable⟩ := hvariable.holds t hrow'
    obtain ⟨further, hfurther, hle⟩ :=
      holds_nextVariables (hfirstVariable.1.innermostInRow hrow')
    have hvariables := hfirstVariable.trans hfurther
    obtain ⟨hadds, accounts, haccounts, hcounts⟩ := (hnote.trans h).trans hvariables
    rw [run_bind, run_bind]
    generalize (iterate id nextVariablePass 0).run (variable_.run t).2 =
      r at hadds haccounts hcounts hle
    -- the count that the variables lead to takes the place of any earlier one
    obtain ⟨set, hset⟩ : ∃ set, set = ((setPendingNext r.1).run r.2).2 := ⟨_, rfl⟩
    have hsetAdds : r.2.Adds [] set := by
      rw [hset]
      exact .of_silent rfl rfl rfl rfl rfl
    have hsetAccounts : r.2.Accounts [] [] [] set := by
      rw [hset]
      exact .of_eq rfl
    have hsetPending : set.pendingNext = r.1 := by rw [hset]; rfl
    obtain ⟨ending, hending, accounts', haccounts', hcounts'⟩ := hfinish.holds set
      ((hadds.trans hsetAdds).innermostInRow hs)
    rw [run_bind, ← hset]
    refine ⟨_, (hadds.trans hsetAdds).trans hending,
      ⟨_, (haccounts.trans hsetAdds hsetAccounts).trans hending haccounts', ?_⟩, ?_⟩
    · unfold State.Counts at hcounts hcounts'
      rw [if_pos rfl]
      simp only [closedByNext_append, Tree.furtherVariablesAll_append,
        Tree.commas_append] at hcounts ⊢
      have hnone : closedByNext [] = 0 := rfl
      omega
    · rw [List.append_assoc, List.append_assoc]
      exact hclosed _
  next =>
    obtain ⟨ending, hending⟩ := hfinish.holds t hrow'
    obtain ⟨hadds, accounts, haccounts, hcounts⟩ := (hnote.trans h).trans hending
    unfold State.Counts at hcounts
    exact ⟨_, hadds, ⟨accounts, haccounts, Nat.le_trans hcounts (Nat.le_add_right ..)⟩, hclosed _⟩

/-- What stands between the first word of a loop and its body. -/
def loopHeader (isEach : Bool) : Production Unit := do
  if isEach then forEachHeader else forHeader
  finishStatement

omit hstatement hcomposed hadvances in
variable (statement) in
/-- A `For` is its header, its body and its closer. -/
theorem forStatement_eq : forStatement statement = secondKind >>= fun kind =>
    within (if (kind == .keyword .each) = true then .forEachStatement else .forStatement)
      ((shift >>= fun _ => loopHeader (kind == .keyword .each)) >>= fun _ =>
        blockBody statement .for_ >>= fun stop =>
          if stop == .ownCloser then nextClause else pure ()) := by
  unfold forStatement loopHeader
  dsimp only
  refine congrArg _ (funext fun kind => congrArg _ ?_)
  cases (kind == .keyword .each)
  · simp only [Bool.false_eq_true, if_false, bind_assoc]
  · simp only [if_true, bind_assoc]

instance (isEach : Bool) : AddsOnly accountLaw Tree.Inert (loopHeader isEach) := by
  unfold loopHeader
  infer_instance

instance : Obeys accountLaw (forStatement statement) := by
  have hnode (isEach : Bool) (k : NodeKind)
      (hk : ∀ a ts, (Tree.above (.node k) a ts).block? = some .for_) :
      Obeys accountLaw (within k ((shift >>= fun _ => loopHeader isEach) >>= fun _ =>
        blockBody statement .for_ >>= fun stop =>
          if stop == .ownCloser then nextClause else pure ())) :=
    obeys_bodied .for_ hk (by simp) (fun s hs => holds_shiftHeader hs)
      (fun _ s hs => endsWith_blockBody statement _ hs) (fun t ht hcloser _ =>
        closes_nextClause ht hcloser)
      fun stop t hstop => by rw [if_neg (by simpa using hstop)]; rfl
  have hkind (kind : Kind) : Obeys accountLaw
      (within (if (kind == .keyword .each) = true then .forEachStatement else .forStatement)
        ((shift >>= fun _ => loopHeader (kind == .keyword .each)) >>= fun _ =>
          blockBody statement .for_ >>= fun stop =>
            if stop == .ownCloser then nextClause else pure ())) := by
    refine hnode _ _ fun a ts => ?_
    split <;> cases ts <;> rfl
  rw [forStatement_eq]
  infer_instance

/-! ## Procedures -/

/-- What stands between the declarator of a procedure and its body. -/
def procedureHeader (block : Block) : Production Unit := do
  note .procedure (← next)
  let named ← if block == .property then accessor else pure true
  if named then signature
  finishStatement

omit hstatement hcomposed hadvances in
variable (statement) in
/-- A procedure is its header, its body and its closer. -/
theorem procedure_eq : procedure statement =
    look (fun s => procedureForm (Lookahead.modifiedKind s.rest)) >>= fun form =>
      within form.1
        (((do shiftModifiers; skipBlanks) >>= fun _ => shift >>= fun _ =>
          procedureHeader form.2) >>=
          fun _ => blockBody statement form.2 >>= blockEnd) := by
  unfold procedure procedureHeader shiftDeclarator shiftNext look
  simp only [bind_assoc, pure_bind]
  refine congrArg _ (funext fun s => ?_)
  cases hform : procedureForm (Lookahead.modifiedKind s.stream.rest) with
  | mk k block =>
  refine congrArg (within k) ?_
  dsimp only
  iterate 4 refine congrArg _ (funext fun _ => ?_)
  cases (block == .property)
  · simp only [Bool.false_eq_true, if_false, bind_assoc, if_true]
  · simp only [if_true, bind_assoc]
    refine congrArg _ (funext fun _ => congrArg _ (funext fun named => ?_))
    cases named
    · simp only [Bool.false_eq_true, if_false]
    · simp only [bind_assoc, if_true]

instance (block : Block) : AddsOnly accountLaw Tree.Inert (procedureHeader block) := by
  unfold procedureHeader
  infer_instance

instance : Obeys accountLaw (procedure statement) := by
  have hnode (form : NodeKind × Block) (hform : form ∈ [(NodeKind.subStatement, Block.sub),
      (.functionStatement, .function), (.propertyStatement, .property)]) :
      Obeys accountLaw (within form.1
        (((do shiftModifiers; skipBlanks) >>= fun _ => shift >>= fun _ =>
          procedureHeader form.2) >>=
          fun _ => blockBody statement form.2 >>= blockEnd)) := by
    obtain ⟨k, block⟩ := form
    refine obeys_bodied block (fun a ts => ?_) ?_ (fun s hs => holds_header _ _ hs)
      (fun _ s hs => endsWith_blockBody statement _ hs)
      (fun t ht hcloser _ => closes_blockEnd ht hcloser (OnCloser.end_ hcloser ?_))
      fun stop t hstop => run_blockEnd_of_ne hstop t
    all_goals simp only [List.mem_cons, List.not_mem_nil, or_false, Prod.mk.injEq] at hform
    all_goals obtain ⟨rfl, rfl⟩ | ⟨rfl, rfl⟩ | ⟨rfl, rfl⟩ := hform
    all_goals first
      | (cases ts <;> rfl)
      | simp
  refine ⟨fun s hs => ?_⟩
  rw [procedure_eq, run_look_bind]
  exact (hnode _ (procedureForm_mem _)).holds s hs

/-! ## If -/

section

variable {p : Production Unit}

omit hstatement hcomposed hadvances in
/-- What is read on one line has the accounts that it has elsewhere. -/
theorem holds_onOneLine {s : State} {trees : List Tree}
    (h : accountLaw.Holds { s with lineMode := s.lineMode + 1 } trees
      (p.run { s with lineMode := s.lineMode + 1 }).2) :
    accountLaw.Holds s trees ((onOneLine p).run s).2 := by
  obtain ⟨hadds, accounts, haccounts, hcounts⟩ := h
  rw [run_onOneLine]
  exact ⟨hadds.onOneLine, accounts, ⟨haccounts.places, haccounts.sound, haccounts.missing⟩, hcounts⟩

end

instance (endsAtElse : Bool) (u : Unit) : Obeys accountLaw (inlinePass statement endsAtElse u) := by
  unfold inlinePass
  infer_instance

instance (endsAtElse : Bool) : Obeys accountLaw (inlineStatements statement endsAtElse) := by
  unfold inlineStatements
  infer_instance

variable (statement) in
omit hcomposed hadvances in
/-- An arm of a single-line `If` is one list of statements. -/
theorem holds_inlineArm (endsAtElse : Bool) {s : State} (hs : s.InnermostInRow) :
    ∃ list, list.isStatementList = true ∧
      accountLaw.Holds s [list] ((inlineArm statement endsAtElse).run s).2 := by
  have hlist : Obeys accountLaw (do
      if ← atNext (.lexeme .integerLiteral) then lineNumberJump
      let _ ← inlineStatements statement endsAtElse) := inferInstance
  obtain ⟨trees, h⟩ := hlist.holds _ (State.innermostInRow_opening s .statementList)
  unfold inlineArm
  rw [run_within]
  refine ⟨_, ?_, h.closing_opening hs fun a ⟨accounts, haccounts, hcounts⟩ =>
    ⟨accounts, haccounts.node (by cases trees <;> rfl), hcounts.node⟩⟩
  cases trees <;> rfl

instance (endsAtElse : Bool) : Obeys accountLaw (inlineArm statement endsAtElse) where
  holds s hs := by
    obtain ⟨list, -, h⟩ := holds_inlineArm statement endsAtElse hs
    exact ⟨[list], h⟩

variable (statement) in
omit hcomposed hadvances in
/-- The arms of a single-line `If` are a list of statements and what is inert. -/
theorem holds_inlineArms {s : State} (hs : s.InnermostInRow) :
    ∃ list more, list.isStatementList = true ∧ (∀ n ∈ more, n.Inert) ∧
      accountLaw.Holds s (list :: more) ((inlineArms statement).run s).2 := by
  have helse : AddsOnly accountLaw Tree.Inert (do
      if ← atNext (.keyword .else_) then
        skipBlanks
        within .elseClause do
          shift
          inlineArm statement false) := inferInstance
  obtain ⟨list, hlist, h⟩ := holds_inlineArm statement true hs
  obtain ⟨more, hmore, hinert⟩ := helse.holds _ (h.1.innermostInRow hs)
  exact ⟨list, more, hlist, hinert, h.trans hmore⟩

omit hstatement hcomposed hadvances in
/-- A statement that has failed is in recovery. -/
theorem recovering_failExpected (wanted : Wanted) (s : State) :
    ((failExpected wanted).run s).2.recovering = true := by
  unfold failExpected fail next
  rw [run_look_bind, run_bind, run_get]
  dsimp only
  split <;> rfl

omit hstatement hcomposed hadvances in
/-- The header of an `If` that has not failed ends with `Then`. -/
theorem holds_ifHeader {s : State} (hs : s.InnermostInRow) :
    ∃ trees, accountLaw.Holds s trees (ifHeader.run s).2 ∧
      (∀ n ∈ Tree.behindHeader trees, n.Inert) ∧
      ((ifHeader.run s).2.recovering = false →
        ∃ front t, trees = front ++ [.leaf t] ∧ t.kind = .keyword .then_) := by
  obtain ⟨front, h, hinert⟩ := holds_header (L := accountLaw) skipBlanks
    (fun _ => operand) hs
  -- up to the condition it is a header like any other; what is left is the `Then`
  generalize hs' : ((skipBlanks >>= fun _ => shift >>= fun _ => operand).run s).2 = s' at h
  have hrun : (ifHeader.run s).2 = ((expect (.keyword .then_)).run s').2 := by
    rw [← hs']
    unfold ifHeader shiftNext
    simp only [run_bind, run_pure]
  rw [hrun]
  unfold expect accept atNext
  rw [run_bind, run_look_bind]
  split
  next hthen =>
    have hkind := beq_iff_eq.mp hthen
    obtain ⟨blanks, hblanks, hmove, -⟩ :=
      holds_shiftNext (L := accountLaw) (h.1.innermostInRow hs) (by rw [hkind]; simp)
    refine ⟨_, h.trans hmove, fun n hn => ?_, fun _ => ⟨front ++ blanks, _, ?_, hkind⟩⟩
    · rcases Tree.mem_behindHeader_append hn with hn | hn
      · exact hinert n hn
      · rcases List.mem_append.mp hn with hn | hn
        · exact inert_of_isBlank (hblanks n hn)
        · rw [List.mem_singleton.mp hn, Tree.Inert, hkind]
    · rw [List.append_assoc]
  next =>
    have hfailed := recovering_failExpected (.token (.keyword .then_)) s'
    refine ⟨front ++ [], h.trans (holds_fail rfl _ s'),
      by simpa using hinert, fun hrecovering => ?_⟩
    exact absurd (hfailed.symm.trans hrecovering) (by decide)

omit hcomposed hadvances in
/-- A single-line `If` ends with its line. -/
theorem finishes_singleLineIf {s₀ s : State} {front : List Tree} {t : Token}
    (hs : s₀.InnermostInRow)
    (hfront : accountLaw.Holds s₀ (front ++ [.leaf t]) s) (hthen : t.kind = .keyword .then_)
    (hinert : ∀ n ∈ Tree.behindHeader (front ++ [.leaf t]), n.Inert) :
    ∃ trees, State.Finishes .if_ s₀ trees ((singleLineIf statement).run s).2 := by
  have hend : AddsOnly accountLaw Tree.Inert finishStatement := inferInstance
  have hrow := hfront.1.innermostInRow hs
  obtain ⟨list, more, hlist, hmore, harms⟩ := holds_inlineArms statement
    (s := { s with lineMode := s.lineMode + 1 }) hrow
  have harms := holds_onOneLine harms
  obtain ⟨ending, hending, hendingInert⟩ := hend.holds _ (harms.1.innermostInRow hrow)
  obtain ⟨hadds, accounts, haccounts, hcounts⟩ := (hfront.trans harms).trans hending
  unfold singleLineIf
  rw [run_bind]
  refine ⟨_, hadds, accounts, .onOneLine, haccounts, ?_, fun n hn =>
    ⟨rfl, ?_, Tree.not_hasCloser ?_⟩⟩
  · unfold State.Counts at hcounts
    rw [if_neg (by simp), if_neg (by simp)]
    exact hcounts
  · exact ⟨front, t, list, more ++ ending, by rw [hn]; simp, hthen, hlist⟩
  · rw [hn]
    refine fun m hm => Tree.startsCloser_of_inert (by simp) ?_
    rcases Tree.mem_behindHeader_append hm with hm | hm
    · rcases Tree.mem_behindHeader_append hm with hm | hm
      · exact hinert m hm
      · rcases List.mem_cons.mp hm with rfl | hm
        · exact inert_of_isToken_eq_false (isToken_of_isStatementList hlist)
        · exact hmore m hm
    · exact hendingInert m hm

variable (statement) in
/-- The body of a block ends within the block. -/
theorem endsIn_blockBody (block : Block) {s : State} (hs : s.InnermostInRow) :
    EndsIn block (fun _ => True) s ((blockBody statement block).run s) := by
  obtain ⟨trees, -, -, hends, hpre⟩ := endsWith_blockBody statement block hs
  exact ⟨trees, hends, hpre⟩

variable (statement) in
/-- The `ElseIf` bodies end as the last of them. -/
theorem endsWith_elseIf {s : State} (hs : s.InnermostInRow) :
    EndsWith .if_ (fun stream => (stream.peekSignificant 0).kind ≠ .keyword .elseIf) s
      ((blockBody statement .if_ >>= fun stop =>
        iterate id (elseIfPass statement) stop).run s) := by
  obtain ⟨first, hne, hnodes, hends, -⟩ := endsWith_blockBody statement .if_ hs
  unfold EndsWith
  rw [run_bind]
  -- each pass is started by the closer of the body in front of it, and the last body is the one
  -- that ends
  refine iterate_leads
    (P := fun stop trees t => trees ≠ [] ∧ (∀ n ∈ trees, n.isToken = false) ∧
      State.Ends (some .if_) stop s trees t)
    (Q := fun stop trees t => trees ≠ [] ∧ (∀ n ∈ trees, n.isToken = false) ∧
      State.Ends (some .if_) stop s trees t ∧
        (stop = .ownCloser → (t.stream.peekSignificant 0).kind ≠ .keyword .elseIf)) ?_
    ⟨hne, hnodes, hends⟩
  intro stop trees t ⟨hne, hnodes, hends⟩
  unfold elseIfPass atNext
  rw [run_look_bind]
  split
  next htest =>
    rw [Bool.and_eq_true, beq_iff_eq] at htest
    obtain rfl := htest.1
    obtain ⟨clause, -, hclause, hclauseEnds, -⟩ : EndsWith .if_ (fun _ => True) t
        ((within .elseIfClause do
          ifHeader
          finishStatement
          blockBody statement .if_).run t) := by
      refine endsWith_within (hends.adds.innermostInRow hs) (fun a ts => by cases ts <;> rfl) ?_
      exact .bind (State.innermostInRow_opening _ _) fun u hu =>
        .bind hu fun v hv => endsIn_blockBody statement _ hv
    rw [run_bind]
    generalize (within .elseIfClause do
      ifHeader
      finishStatement
      blockBody statement .if_).run t = r at hclauseEnds ⊢
    refine .inl ⟨r.1, trees ++ clause, rfl, by simp [hne], fun n hn => ?_, hends.behind hclauseEnds⟩
    exact (List.mem_append.mp hn).elim (hnodes n) (hclause n)
  next htest =>
    refine .inr ⟨stop, trees, rfl, hne, hnodes, hends, fun hstop hkind => htest ?_⟩
    change (t.stream.peekSignificant 0).kind = _ at hkind
    rw [hstop, hkind]
    rfl

/-- Further `Else` and `ElseIf` behind the `Else` body are passed over. -/
theorem endsIn_elseBodies {s : State} (hs : s.InnermostInRow) :
    EndsIn .if_ (fun stream => (stream.peekSignificant 0).kind ≠ .keyword .else_ ∧
        (stream.peekSignificant 0).kind ≠ .keyword .elseIf) s
      ((blockBody statement .if_ >>= fun stop =>
        iterate id (elseBodyPass statement) stop).run s) := by
  obtain ⟨first, hends, -⟩ := endsIn_blockBody statement .if_ hs
  unfold EndsIn
  rw [run_bind]
  -- a body that ends at the own closer is followed by another one if an `Else` or `ElseIf` comes
  -- next
  refine iterate_leads
    (P := fun stop trees t => State.Ends (some .if_) stop s trees t)
    (Q := fun stop trees t => State.Ends (some .if_) stop s trees t ∧
      (stop = .ownCloser → (t.stream.peekSignificant 0).kind ≠ .keyword .else_ ∧
        (t.stream.peekSignificant 0).kind ≠ .keyword .elseIf)) ?_ hends
  intro stop trees t hends
  unfold elseBodyPass atElse
  rw [run_look_bind]
  split
  next htest =>
    rw [Bool.and_eq_true, beq_iff_eq] at htest
    obtain rfl := htest.1
    have hstray : Obeys accountLaw (strayCloser { block := .if_, isSegment := true }) :=
      inferInstance
    obtain ⟨moved, hmoved⟩ := hstray.holds t (hends.adds.innermostInRow hs)
    have hmoved := hends.holds.trans hmoved
    obtain ⟨body, hbody, -⟩ :=
      endsIn_blockBody statement .if_ (hmoved.1.innermostInRow hs)
    rw [run_bind, run_bind]
    generalize (blockBody statement .if_).run
      ((strayCloser { block := .if_, isSegment := true }).run t).2 = r at hbody ⊢
    exact .inl ⟨r.1, _, rfl, .trans hmoved hbody⟩
  next htest =>
    refine .inr ⟨stop, trees, rfl, hends, fun hstop =>
      ⟨fun hkind => htest ?_, fun hkind => htest ?_⟩⟩
    all_goals
      change (t.stream.peekSignificant 0).kind = _ at hkind
      rw [hstop, hkind]
      rfl

/-- Behind the bodies of an `If` no other one is next. -/
theorem endsWith_ifBodies {s : State} (hs : s.InnermostInRow) :
    EndsWith .if_ (fun stream => (stream.peekSignificant 0).kind ≠ .keyword .else_ ∧
        (stream.peekSignificant 0).kind ≠ .keyword .elseIf) s ((ifBodies statement).run s) := by
  obtain ⟨trees, hne, hnodes, hends, helseIf⟩ := endsWith_elseIf statement hs
  generalize hr : (blockBody statement .if_ >>= fun stop =>
    iterate id (elseIfPass statement) stop).run s = r at hends helseIf
  -- whether an `Else` follows is asked behind the last `ElseIf`, so the state there gets a name
  have hrun : (ifBodies statement).run s =
      (atNext (.keyword .else_) >>= fun isElse =>
        if r.1 == .ownCloser && isElse then elseClause statement else pure r.1).run r.2 := by
    rw [← hr]
    unfold ifBodies
    simp only [run_bind]
    rfl
  unfold atNext at hrun
  rw [hrun, run_look_bind]
  split
  next htest =>
    rw [Bool.and_eq_true, beq_iff_eq] at htest
    rw [htest.1] at hends
    obtain ⟨clause, -, hclause, hclauseEnds, hpre⟩ :
        EndsWith .if_ _ r.2 ((elseClause statement).run r.2) :=
      endsWith_within (hends.adds.innermostInRow hs) (fun a ts => by cases ts <;> rfl)
        (.bind (State.innermostInRow_opening _ _) fun u hu => .bind hu fun v hv =>
          endsIn_elseBodies hv)
    refine ⟨trees ++ clause, by simp [hne], fun n hn => ?_, hends.behind hclauseEnds, hpre⟩
    exact (List.mem_append.mp hn).elim (hnodes n) (hclause n)
  next htest =>
    refine ⟨trees, hne, hnodes, hends, fun hstop => ⟨fun hkind => htest ?_, helseIf hstop⟩⟩
    change r.1 = _ at hstop
    change (r.2.stream.peekSignificant 0).kind = _ at hkind
    rw [hstop, hkind]
    rfl

instance : Obeys accountLaw (ifStatement statement) where
  holds s hs := by
    have hrow := State.innermostInRow_opening s .ifStatement
    obtain ⟨front, hfront, hinert, hthen⟩ := holds_ifHeader hrow
    generalize ht : (ifHeader.run (s.opening .ifStatement)).2 = t at hfront hthen
    -- both sorts of `If` finish the block; a header that has failed is never that of a single line
    have hfinishes : ∃ trees, State.Finishes .if_ (s.opening .ifStatement) trees
        ((do
          ifHeader
          let failed := (← get).recovering
          let kind ← nextKind
          if failed || kind == .trivia .newline || kind == .lexeme .endOfFile || kind.isComment then
            blockIf statement
          else singleLineIf statement : Production Unit).run (s.opening .ifStatement)).2 := by
      unfold nextKind
      rw [run_bind, ht, run_bind, run_get]
      dsimp only
      rw [run_look_bind]
      split
      next =>
        have hend : AddsOnly accountLaw Tree.Inert finishStatement := inferInstance
        obtain ⟨ending, hending, hendingInert⟩ := hend.holds t (hfront.1.innermostInRow hrow)
        rw [blockIf_eq, run_bind]
        refine finishes_bodies hrow (hfront.trans hending) (fun n hn => ?_) (by simp)
          (endsWith_ifBodies ((hfront.trans hending).1.innermostInRow hrow))
          (fun u hu hcloser hpre => closes_blockEnd hu hcloser ?_)
          fun stop u hstop => run_blockEnd_of_ne hstop u
        · exact (Tree.mem_behindHeader_append hn).elim (hinert n) (hendingInert n)
        · obtain ⟨closer, hkinds, hclosed⟩ := hcloser
          rcases Closer.cases_of_ofKinds? hkinds with ⟨hfirst, -⟩ | hother
          · exact hfirst
          · rw [hclosed] at hother
            simp at hother
            exact absurd hother (by simp [hpre])
      next hkind =>
        have hrecovering : t.recovering = false := by
          cases h : t.recovering with
          | false => rfl
          | true => exact absurd (by simp [h]) hkind
        obtain ⟨front, t, rfl, hkind⟩ := hthen hrecovering
        exact finishes_singleLineIf hrow hfront hkind hinert
    obtain ⟨trees, hfinishes⟩ := hfinishes
    obtain ⟨n, -, h⟩ := holds_within_block hs (fun a => by cases trees <;> rfl) hfinishes
    exact ⟨_, h⟩

end

end LosslessBasic.Grammar
