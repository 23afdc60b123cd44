import LosslessBasic.Proofs.Grammar.Additions
import LosslessBasic.Proofs.Grammar.Source

/-!
# What accesses refer to

The grammar notes for an access that starts with its sign which header it refers to at the moment it
has read it, long before the tree around it is complete. `referenceLaw` says that these notes are
the ones that the finished trees tell: every access refers to the header of the innermost `With`
whose list of statements it stands in. Accesses outside of every `With`, and no others, are
reported.
-/

namespace LosslessBasic

/-- Whether a failure says that an access starts with its sign outside of every `With`. -/
def Failure.isStray (f : Failure) : Bool := f.problem.code == .implicitMemberOutsideWith

/-- The failure that is reported for an access outside of every `With`. -/
def Failure.ofStray (sign : Token) : Failure := .atToken (.memberOutsideWith sign) sign

namespace Grammar

set_option synthInstance.maxSize 65536

/-- Between two states the headers of some accesses have been noted, and some of those that have
none around them have been reported. -/
structure State.Notes (s : State) (found : List (Tree × Option (Option Tree)))
    (t : State) : Prop where
  targets : t.implicitTargets.toList = s.implicitTargets.toList ++ Tree.references found
  strays : ∃ failures, t.failures.toList = s.failures.toList ++ failures ∧
    List.Sublist (failures.filter Failure.isStray) ((Tree.strays found).map .ofStray)

/-- What two productions note one after the other they note together. -/
theorem State.Notes.trans {s t u : State} {found found' : List (Tree × Option (Option Tree))}
    (h : s.Notes found t) (h' : t.Notes found' u) : s.Notes (found ++ found') u := by
  obtain ⟨failures, hfailures, hstrays⟩ := h.strays
  obtain ⟨failures', hfailures', hstrays'⟩ := h'.strays
  refine ⟨?_, failures ++ failures', by rw [hfailures', hfailures, List.append_assoc], ?_⟩
  · rw [h'.targets, h.targets, List.append_assoc, Tree.references, Tree.references, Tree.references,
      List.filterMap_append]
  · rw [List.filter_append, Tree.strays, List.filterMap_append, List.map_append]
    exact hstrays.append hstrays'

/-- Where neither targets nor failures change nothing is noted. -/
theorem State.Notes.of_eq {s t : State} (htargets : t.implicitTargets = s.implicitTargets)
    (hfailures : t.failures = s.failures) : s.Notes [] t :=
  ⟨by simp [htargets, Tree.references], [], by simp [hfailures], by simp⟩

/-- A failure that is none of a stray access. -/
theorem State.Notes.of_push {s t : State} {f : Failure}
    (htargets : t.implicitTargets = s.implicitTargets) (hfailures : t.failures = s.failures.push f)
    (hf : f.isStray = false) : s.Notes [] t :=
  ⟨by simp [htargets, Tree.references], [f], by simp [hfailures], by simp [hf]⟩

/-! ## Nodes -/

/-- The kinds of the nodes that neither have a header nor are accesses. -/
@[reducible]
def NodeKind.isNeutral : NodeKind → Bool
  | .withStatement | .memberAccessExpression | .dictionaryAccessExpression => false
  | _ => true

/-- An ordinary node neither has a header nor is an access. -/
theorem NodeKind.isNeutral_of_isOrdinary {k : NodeKind} (h : k.isOrdinary = true) :
    NodeKind.isNeutral k = true := by
  cases k <;> first | rfl | cases h

/-- A node that has no header and is no access that starts with its sign adds nothing to what stands
below it. -/
theorem accesses_above {k : NodeKind} {scope : Option (Option Tree)} {a : Anchor} {ts : List Tree}
    (hk : k ≠ .withStatement) (hsign : (Tree.above (.node k) a ts).leadingSign? = none) :
    (Tree.above (.node k) a ts).accesses scope = Tree.accessesAll scope scope ts := by
  have hwith : ¬ ((.node k : Kind) == .node .withStatement) = true := by simpa using hk
  cases ts with
  | nil =>
    rw [Tree.above, Tree.accesses, if_neg hwith]
    rw [Tree.above] at hsign
    simp [hsign]
  | cons t ts =>
    rw [Tree.above, Tree.accesses, if_neg hwith]
    rw [Tree.above] at hsign
    simp [hsign]

/-- A node that is no access has no sign in front. -/
theorem leadingSign?_above_of_isNeutral {k : NodeKind} (hk : NodeKind.isNeutral k = true)
    (a : Anchor)
    (ts : List Tree) : (Tree.above (.node k) a ts).leadingSign? = none := by
  cases ts <;> cases k <;> first | rfl | cases hk

/-- A node that starts with another one has no sign in front. -/
theorem leadingSign?_above_of_node {k : NodeKind} {n : Tree} (hn : n.isToken = false) (a : Anchor)
    (ts : List Tree) : (Tree.above (.node k) a (n :: ts)).leadingSign? = none := by
  cases n with
  | leaf t => cases hn
  | node l b cs =>
    rw [Tree.above]
    unfold Tree.leadingSign?
    split <;> first | rfl | simp_all

/-! ## The law -/

/-- The accesses in trees that are added in the body of a `With`, or of none. -/
def State.accesses (s : State) (trees : List Tree) : List (Tree × Option (Option Tree)) :=
  Tree.accessesAll s.withTargets.head? s.withTargets.head? trees

/-- The accesses of two rows of trees are those of the first and then of the second. -/
theorem State.accesses_append (s : State) (trees more : List Tree) :
    s.accesses (trees ++ more) = s.accesses trees ++ s.accesses more :=
  Tree.accessesAll_append trees more

/-- The accesses of a single tree are its own. -/
theorem State.accesses_singleton (s : State) (n : Tree) :
    s.accesses [n] = n.accesses s.withTargets.head? := by
  unfold accesses
  rw [Tree.accessesAll, Tree.accessesAll, ite_self, List.append_nil]

/-- A node around trees, when it has no header and is no access that starts with its sign. -/
theorem State.Notes.node {s t : State} {k : NodeKind} {a : Anchor} {trees : List Tree}
    (h : s.Notes (s.accesses trees) t) (hk : k ≠ .withStatement)
    (hsign : (Tree.above (.node k) a trees).leadingSign? = none) :
    s.Notes (s.accesses [.above (.node k) a trees]) t := by
  rwa [accesses_singleton, accesses_above hk hsign]

/-- A node that is no access has the accesses of its children. -/
theorem State.Notes.neutral {s t : State} {k : NodeKind} {a : Anchor} {trees : List Tree}
    (h : s.Notes (s.accesses trees) t) (hk : NodeKind.isNeutral k = true) :
    s.Notes (s.accesses [.above (.node k) a trees]) t :=
  h.node (by rintro rfl; cases hk) (leadingSign?_above_of_isNeutral hk a trees)

/-- The headers that are noted are the ones that the trees tell. -/
def referenceLaw : Law where
  rel s trees t := s.Notes (s.accesses trees) t
  builder _ _ h := ⟨h.targets, h.strays⟩
  silent _ hfailures _ _ _ _ htargets := .of_eq htargets hfailures
  shift _ := .of_eq rfl rfl
  report s problem t hproblem := by
    refine .of_push (f := .atToken problem t) rfl rfl ?_
    cases problem <;> first | rfl | cases hproblem
  trans {s t u trees more} hadds _ h h' := by
    have hscope : s.accesses more = t.accesses more := by
      unfold State.accesses
      rw [hadds.context.withTargets]
    rw [s.accesses_append, hscope]
    exact h.trans h'
  node _ _ hk h := h.neutral (NodeKind.isNeutral_of_isOrdinary hk)
  access sign a hn h := by
    refine h.node ?_ (leadingSign?_above_of_node hn a _)
    unfold accessKind
    split <;> simp

/-! ## Accesses -/

/-- An access refers to the header of the innermost `With`, or is reported where there is none. -/
theorem notes_referToHeader {s : State} {n : Tree} {sign : Token}
    (hsign : n.leadingSign? = some sign) :
    s.Adds [] ((referToHeader sign (some n)).run s).2 ∧
      s.Notes [(n, s.withTargets.head?)] ((referToHeader sign (some n)).run s).2 := by
  unfold referToHeader
  rw [run_bind, run_get]
  dsimp only
  split
  next htargets =>
    -- outside of every `With`, and not reported when the statement has failed already
    rw [htargets]
    unfold fail
    rw [run_bind, run_get]
    dsimp only
    split
    · exact ⟨.of_silent rfl rfl rfl rfl rfl,
        by simp [Tree.references]; rfl, [], by simp; rfl, by simp⟩
    · refine ⟨.of_silent rfl rfl rfl rfl rfl, by simp [Tree.references]; rfl,
        [.atToken (.memberOutsideWith sign) sign], Array.toList_push, ?_⟩
      simp [Tree.strays, hsign, Failure.isStray, Failure.atToken, Failure.ofStray, Problem.code]
  next header outer access htargets haccess =>
    obtain rfl : n = access := Option.some.inj haccess
    rw [htargets]
    exact ⟨.of_silent rfl rfl rfl rfl rfl, Array.toList_push, [], by simp; rfl, by simp⟩
  next hnil hcons =>
    have htargets : s.withTargets.head? = some none := by
      cases h : s.withTargets with
      | nil => exact absurd h hnil
      | cons header outer =>
        cases header with
        | none => rfl
        | some header => exact absurd rfl (hcons header outer n h)
    rw [htargets]
    exact ⟨.refl s, by simp [Tree.references]; rfl, [], by simp; rfl, by simp⟩

/-- An access without an object has its sign in front. -/
theorem leadingSign?_access {sign : Token} (hsign : Lookahead.isAccessSign sign.kind = true)
    (a : Anchor) (ts : List Tree) :
    (Tree.above (.node (accessKind sign.kind)) a (.leaf sign :: ts)).leadingSign? = some sign := by
  unfold accessKind
  split <;> simp [Tree.above, Tree.leadingSign?, hsign]

/-- An access that starts with its sign stands behind the accesses within it. -/
theorem accesses_access {scope : Option (Option Tree)} {sign : Token}
    (hsign : Lookahead.isAccessSign sign.kind = true) (a : Anchor) (ts : List Tree) :
    let n := Tree.above (.node (accessKind sign.kind)) a (.leaf sign :: ts)
    n.accesses scope = Tree.accessesAll scope scope (.leaf sign :: ts) ++ [(n, scope)] := by
  have hleading := leadingSign?_access hsign a ts
  have hkind : ¬ ((.node (accessKind sign.kind) : Kind) == .node .withStatement) = true := by
    unfold accessKind
    split <;> decide
  rw [Tree.above] at hleading
  simp only [Tree.above, Tree.accesses, if_neg hkind, hleading]
  rfl

instance : Refers referenceLaw where
  holds s hs hsign := by
    have hend : ¬ s.AtEnd := Kind.ne_endOfFile_of (f := Lookahead.isAccessSign) hsign rfl
    generalize hk : accessKind s.stream.current.kind = k
    -- within the node, the sign is moved and then the name
    have hname : Obeys referenceLaw memberName := inferInstance
    have hshift : referenceLaw.Holds (s.opening k) [.leaf s.stream.current] (s.opening k).shifted :=
      ⟨.shifted (s := s.opening k) hend, referenceLaw.shift (s := s.opening k) hend⟩
    obtain ⟨more, hmore⟩ :=
      hname.holds _ (hshift.1.innermostInRow (State.innermostInRow_opening s k))
    have hbody : referenceLaw.Holds (s.opening k) (.leaf s.stream.current :: more)
        ((do shift; memberName : Production Unit).run (s.opening k)).2 := by
      rw [run_bind, run_shift (s := s.opening k) hend]
      exact hshift.trans hmore
    obtain ⟨a, hgiven, hadds, hnotes⟩ := hbody.composite hs
    -- then the node refers to its header
    subst hk
    generalize hread :
      (composite (accessKind s.stream.current.kind) (do shift; memberName)).run s = r
      at hgiven hadds hnotes
    obtain ⟨hsilent, hrefers⟩ := notes_referToHeader (s := r.2) (leadingSign?_access hsign a more)
    rw [run_leadingAccess hread, hgiven]
    refine ⟨_, rfl, Tree.isOperand_above (isKnown_accessKind _) _ _, hadds.trans hsilent, ?_⟩
    have htrans := State.Notes.trans hnotes hrefers
    rw [hadds.context.withTargets] at htrans
    change s.Notes (s.accesses [_]) _
    rw [State.accesses_singleton, accesses_access hsign]
    exact htrans

/-! ## Blocks -/

section

variable {α : Type} {p : Production α}

instance {k : NodeKind} [hk : IsTrue (NodeKind.isNeutral k)] [Obeys referenceLaw p] :
    Obeys referenceLaw (within k p) :=
  .within fun _ _ _ _ h => State.Notes.neutral h hk.eq_true

instance {block : Block} [hp : Obeys referenceLaw p] : Obeys referenceLaw (inBlock block p) where
  holds s hs := by
    obtain ⟨trees, hadds, hnotes⟩ := hp.holds { s with blocks := block :: s.blocks } hs
    rw [run_inBlock]
    exact ⟨trees, hadds.inBlock, hnotes.targets, hnotes.strays⟩

instance [hp : Obeys referenceLaw p] : Obeys referenceLaw (onOneLine p) where
  holds s hs := by
    obtain ⟨trees, hadds, hnotes⟩ := hp.holds { s with lineMode := s.lineMode + 1 } hs
    rw [run_onOneLine]
    exact ⟨trees, hadds.onOneLine, hnotes.targets, hnotes.strays⟩

end

instance (loops : Nat) : Obeys referenceLaw (setPendingNext loops) where
  holds _ _ := ⟨[], .of_silent rfl rfl rfl rfl rfl, .of_eq rfl rfl⟩

instance (block : Block) (got t : Token) :
    Obeys referenceLaw (report (.missingCloser block got) t) where
  holds _ _ := ⟨[], .of_silent rfl rfl rfl rfl rfl, .of_push rfl rfl rfl⟩

instance (t : Token) : Obeys referenceLaw (reportMissingCloser t) where
  holds s hs := by
    unfold reportMissingCloser
    rw [run_bind, run_get]
    split <;> exact Obeys.holds s hs

instance (block : Block) : Obeys referenceLaw (blockIsOpen block) := by
  unfold blockIsOpen
  infer_instance

instance : Obeys referenceLaw insideProcedure := by unfold insideProcedure; infer_instance

instance : Obeys referenceLaw nextClause := by unfold nextClause; infer_instance

/-! ### Members and designer blocks -/

instance (block : Block) (closer : Keyword) (item : Production Unit) [Obeys referenceLaw item]
    (u : Unit) : Obeys referenceLaw (memberPass block closer item u) := by
  unfold memberPass
  infer_instance

instance (block : Block) (closer : Keyword) (item : Production Unit) [Obeys referenceLaw item] :
    Obeys referenceLaw (memberBlock block closer item) := by
  unfold memberBlock
  infer_instance

instance : Obeys referenceLaw typeStatement := by unfold typeStatement; infer_instance

instance : Obeys referenceLaw enumStatement := by unfold enumStatement; infer_instance

instance (inner : Block → Production Unit) [∀ block, Obeys referenceLaw (inner block)]
    (block? : Option Block) : Obeys referenceLaw (blockOrProperty inner block?) := by
  cases block? <;> unfold blockOrProperty <;> infer_instance

instance (inner : Block → Production Unit) [∀ block, Obeys referenceLaw (inner block)]
    (block : Block) (u : Unit) : Obeys referenceLaw (designerPass inner block u) := by
  unfold designerPass
  infer_instance

instance (depth : Nat) (block : Block) : Obeys referenceLaw (designerUpTo depth block) := by
  induction depth generalizing block with
  | zero => unfold designerUpTo; infer_instance
  | succ depth ih => unfold designerUpTo; infer_instance

instance : Obeys referenceLaw designerStatement := by unfold designerStatement; infer_instance

/-! ### Lists of statements -/

section

variable {statement : Production Unit} [hstatement : Obeys referenceLaw statement]

instance : Obeys referenceLaw (statementPass statement) := by unfold statementPass; infer_instance

instance (closer : Closer) : Obeys referenceLaw (closerPass closer) := by
  unfold closerPass
  infer_instance

instance (closer? : Option Closer) :
    Obeys referenceLaw (closerOrStatementPass statement closer?) := by
  cases closer? <;> unfold closerOrStatementPass <;> infer_instance

instance : Obeys referenceLaw (listPass statement) := by unfold listPass; infer_instance

instance (u : Unit) : Obeys referenceLaw (statementsPass statement u) := by
  unfold statementsPass
  infer_instance

instance : Obeys referenceLaw (statements statement) := by unfold statements; infer_instance

instance (block : Block) : Obeys referenceLaw (blockBody statement block) := by
  unfold blockBody
  infer_instance

instance (endsAtElse : Bool) (u : Unit) :
    Obeys referenceLaw (inlinePass statement endsAtElse u) := by
  unfold inlinePass
  infer_instance

instance (endsAtElse : Bool) : Obeys referenceLaw (inlineStatements statement endsAtElse) := by
  unfold inlineStatements
  infer_instance

instance (endsAtElse : Bool) : Obeys referenceLaw (inlineArm statement endsAtElse) := by
  unfold inlineArm
  infer_instance

instance : Obeys referenceLaw (inlineArms statement) := by unfold inlineArms; infer_instance

instance : Obeys referenceLaw (singleLineIf statement) := by unfold singleLineIf; infer_instance

instance (stop : Stop) : Obeys referenceLaw (elseIfPass statement stop) := by
  unfold elseIfPass
  infer_instance

instance (stop : Stop) : Obeys referenceLaw (elseBodyPass statement stop) := by
  unfold elseBodyPass
  infer_instance

instance : Obeys referenceLaw (elseClause statement) := by unfold elseClause; infer_instance

instance : Obeys referenceLaw (blockIf statement) := by unfold blockIf; infer_instance

instance : Obeys referenceLaw (ifStatement statement) := by unfold ifStatement; infer_instance

instance {c : Prop} [Decidable c] {k l : NodeKind} [hk : IsTrue (NodeKind.isNeutral k)]
    [hl : IsTrue (NodeKind.isNeutral l)] : IsTrue (NodeKind.isNeutral (if c then k else l)) := by
  split <;> assumption

instance : Obeys referenceLaw (forStatement statement) := by unfold forStatement; infer_instance

instance : Obeys referenceLaw (doStatement statement) := by unfold doStatement; infer_instance

instance : Obeys referenceLaw (whileStatement statement) := by unfold whileStatement; infer_instance

instance : Obeys referenceLaw (caseClause statement) := by unfold caseClause; infer_instance

instance (stop : Stop) : Obeys referenceLaw (afterClause stop) := by
  unfold afterClause
  infer_instance

instance (closer : Closer) : Obeys referenceLaw (selectCloserPass statement closer) := by
  unfold selectCloserPass
  infer_instance

instance (closer? : Option Closer) : Obeys referenceLaw (closerOrLinePass statement closer?) := by
  cases closer? <;> unfold closerOrLinePass <;> infer_instance

instance (u : Unit) : Obeys referenceLaw (selectPass statement u) := by
  unfold selectPass
  infer_instance

instance : Obeys referenceLaw (selectStatement statement) := by
  unfold selectStatement
  infer_instance

instance : Obeys referenceLaw (procedure statement) := by
  have hform (k : Kind) : IsTrue (NodeKind.isNeutral (procedureForm k).1) := by
    unfold procedureForm
    split <;> exact ⟨rfl⟩
  unfold procedure
  infer_instance

/-! ### With -/

/-- The law without lists of statements among the trees that are added. -/
def bareLaw : Law :=
  referenceLaw.restrict (fun n => n.isStatementList = false) (fun _ => rfl) fun k a trees hk => by
    cases trees <;> cases k <;> first | rfl | exact absurd rfl hk

/-- An operand is no list of statements. -/
theorem Tree.isStatementList_of_isOperand {n : Tree} (h : n.isOperand = true) :
    n.isStatementList = false := by
  unfold Tree.isStatementList
  split
  · cases h
  · rfl

theorem Tree.isStatementList_of_isToken {n : Tree} (h : n.isToken = true) :
    n.isStatementList = false := by
  cases n with
  | leaf t => rfl
  | node k a cs => cases h

theorem Tree.isOperand_of_isToken {n : Tree} (h : n.isToken = true) : n.isOperand = false := by
  cases n with
  | leaf t => rfl
  | node k a cs => cases h

omit hstatement in
/-- A production that reads no access notes nothing. -/
theorem holds_bare {α : Type} (p : Production α) [hp : Obeys bareLaw p] {s : State}
    (hs : s.InnermostInRow) : ∃ trees, referenceLaw.Holds s trees (p.run s).2 ∧
      ∀ n ∈ trees, n.isStatementList = false := by
  obtain ⟨trees, hadds, hnotes, htrees⟩ := hp.holds s hs
  exact ⟨trees, ⟨hadds, hnotes⟩, htrees⟩

omit hstatement in
/-- The header of a `With` and the end of its line add tokens, the node that the header is read to
and, where there is none, nothing that could be taken for it. -/
theorem holds_withHeader {s : State} (hs : s.InnermostInRow) :
    ∃ front behind, referenceLaw.Holds s (front ++ (expression.run s).1.toList ++ behind)
        (finishStatement.run (expression.run s).2).2 ∧
      (∀ n ∈ front, n.isToken = true) ∧ (∀ n ∈ (expression.run s).1, n.isOperand = true) ∧
      ((expression.run s).1 = none → ∀ n ∈ behind, n.isOperand = false) ∧
      ∀ n ∈ behind, n.isStatementList = false := by
  obtain ⟨blanks, s', h, hblank, hsolid, hfinds⟩ := finds_expression (L := referenceLaw) hs
  have hblanks (n : Tree) (hn : n ∈ blanks) : n.isToken = true :=
    Tree.isToken_of_isBlank (hblank n hn)
  have hs' := h.1.innermostInRow hs
  rcases hfinds with ⟨n, hgiven, hn, hread⟩ | ⟨hgiven, hread, herror⟩
  · obtain ⟨behind, hfinish, hbehind⟩ :=
      holds_bare finishStatement (hread.1.innermostInRow hs')
    rw [hgiven]
    refine ⟨blanks, behind, (h.trans hread).trans hfinish, hblanks, ?_, nofun, hbehind⟩
    rintro _ ⟨⟩
    exact hn
  · -- no token has been moved, so what is left over starts with the one that starts no expression
    have hcurrent : (expression.run s).2.stream.current = s'.stream.current :=
      TokenStream.current_eq_of_rest_eq (by simpa [Tree.leavesAll] using hread.1.rest.symm)
    obtain ⟨behind, hfinish, hbehind⟩ := holds_finishStatement (L := referenceLaw)
      (hread.1.innermostInRow hs') (by rwa [hcurrent])
    rw [hgiven]
    refine ⟨blanks, behind, (h.trans hread).trans hfinish, hblanks, nofun, ?_, ?_⟩
    · rintro - n hn
      rcases hbehind n hn with htoken | ⟨a, trees, rfl⟩
      · cases n with
        | leaf t => rfl
        | node k a cs => cases htoken
      · rw [hcurrent]
        exact herror
    · intro n hn
      rcases hbehind n hn with htoken | ⟨a, trees, rfl⟩
      · cases n with
        | leaf t => rfl
        | node k a cs => cases htoken
      · rfl

/-- The body of a block is one list of statements. -/
theorem holds_blockBody (statement : Production Unit) [Obeys referenceLaw statement] (block : Block)
    {s : State} (hs : s.InnermostInRow) :
    ∃ body, body.isStatementList = true ∧
      referenceLaw.Holds s [body] ((blockBody statement block).run s).2 := by
  have hlist : Obeys referenceLaw (statements statement) := inferInstance
  generalize hinside : ({ s with blocks := block :: s.blocks } : State) = inside
  have hrow : inside.InnermostInRow := by rw [← hinside]; exact hs
  obtain ⟨trees, h⟩ := hlist.holds _ (State.innermostInRow_opening inside .statementList)
  obtain ⟨hadds, hnotes⟩ := h.closing_opening hrow fun a hrel =>
    State.Notes.neutral (k := .statementList) hrel rfl
  generalize hu : ((statements statement).run (inside.opening .statementList)).2 = u at hadds hnotes
  have hrun : ((blockBody statement block).run s).2 =
      ((setRecovering false).run { u.closing with blocks := u.closing.blocks.tail }).2 := by
    rw [← hu, ← hinside]
    rfl
  subst hinside
  have hbody : referenceLaw.Holds s [.above (.node .statementList) u.builder.anchor trees]
      { u.closing with blocks := u.closing.blocks.tail } :=
    ⟨hadds.inBlock, hnotes.targets, hnotes.strays⟩
  rw [hrun]
  exact ⟨_, by cases trees <;> rfl, hbody.trans (holds_setRecovering false _)⟩

/-- The accesses in a `With`: those in its list of statements are in the scope of its header. -/
theorem accesses_with {scope : Option (Option Tree)} {a : Anchor} {front rest : List Tree}
    {body : Tree}
    (hfront : ∀ n ∈ front, n.isStatementList = false)
    (hrest : ∀ n ∈ rest, n.isStatementList = false)
    (hbody : body.isStatementList = true) :
    let n := Tree.node (.node .withStatement) a (front ++ body :: rest)
    n.accesses scope = Tree.accessesAll scope scope front ++ body.accesses (some n.header?) ++
      Tree.accessesAll scope scope rest := by
  have hkind : ((.node .withStatement : Kind) == .node .withStatement) = true := beq_self_eq_true _
  dsimp only
  rw [Tree.accesses, if_pos hkind, Tree.accessesAll_append, Tree.accessesAll_eq hfront,
    Tree.accessesAll, Tree.accessesAll_eq hrest, if_pos hbody]
  simp [Tree.leadingSign?]

/-- In the body of a `With`, accesses refer to its header. -/
theorem notes_withBody (statement : Production Unit) [Obeys referenceLaw statement]
    (target : Option Tree) {s : State} (hs : s.InnermostInRow) :
    ∃ body, body.isStatementList = true ∧
      s.Adds [body] ((inWith target (blockBody statement .with_)).run s).2 ∧
      s.Notes (body.accesses (some target))
        ((inWith target (blockBody statement .with_)).run s).2 := by
  obtain ⟨body, hbody, hadds, hnotes⟩ := holds_blockBody statement .with_
    (s := { s with withTargets := target :: s.withTargets }) hs
  change State.Notes _ (State.accesses _ [body]) _ at hnotes
  rw [State.accesses_singleton] at hnotes
  rw [run_inWith]
  exact ⟨body, hbody, hadds.inWith, hnotes.targets, hnotes.strays⟩

/-- A `With` is a node whose header is what its expression was read to, and accesses in its list of
statements refer to it. -/
theorem holds_withStatement (statement : Production Unit) [Obeys referenceLaw statement] {s : State}
    (hs : s.InnermostInRow) :
    ∃ n : Tree, n.kind = .node .withStatement ∧
      n.header? = (expression.run (shift.run (s.opening .withStatement)).2).1 ∧
      referenceLaw.Holds s [n] ((withStatement statement).run s).2 := by
  have hshift : AddsOnly referenceLaw (·.isToken = true) shift := inferInstance
  obtain ⟨word, hword, hwordToken⟩ :=
    hshift.holds (s.opening .withStatement) (State.innermostInRow_opening s _)
  generalize hs₁ : (shift.run (s.opening .withStatement)).2 = s₁ at hword ⊢
  have hrow₁ := hword.1.innermostInRow (State.innermostInRow_opening s .withStatement)
  obtain ⟨front, behind, hheader, hfront, htarget, hbehind, hbehindList⟩ := holds_withHeader hrow₁
  generalize hexpression : (expression.run s₁).1 = target at hheader htarget hbehind ⊢
  generalize hs₂ : (finishStatement.run (expression.run s₁).2).2 = s₂ at hheader
  have hrow₂ := hheader.1.innermostInRow hrow₁
  obtain ⟨body, hbody, hinside, hinsideNotes⟩ := notes_withBody statement target hrow₂
  generalize hs₃ : (inWith target (blockBody statement .with_)).run s₂ = r at hinside hinsideNotes
  -- the closer adds no list of statements
  obtain ⟨rest, hend, hrest⟩ := holds_bare (blockEnd r.1) (hinside.innermostInRow hrow₂)
  generalize hs₄ : ((blockEnd r.1).run r.2).2 = s₄ at hend
  have hrun : ((withStatement statement).run s).2 = s₄.closing := by
    unfold withStatement
    rw [run_within, run_bind, hs₁, run_bind, hexpression, run_bind, hs₂, run_bind, hs₃, hs₄]
  generalize hscope : s.withTargets.head? = scope
  have hscope₁ : s₁.withTargets.head? = scope := by rw [hword.1.context.withTargets]; exact hscope
  have hscope₂ : s₂.withTargets.head? = scope := by rw [hheader.1.context.withTargets, hscope₁]
  have hscope₃ : r.2.withTargets.head? = scope := by rw [hinside.context.withTargets, hscope₂]
  -- so the node is `With`, what its header adds, its body and its closer
  have hadds := (((hword.1.trans hheader.1).trans hinside).trans hend.1)
  have hnotes := ((hword.2.trans hheader.2).trans hinsideNotes).trans hend.2
  obtain ⟨hclosed, -⟩ := State.Adds.closing_opening hs hadds
  have hshape : word ++ (front ++ target.toList ++ behind) ++ [body] ++ rest =
      (word ++ front) ++ target.toList ++ behind ++ body :: rest := by simp
  obtain ⟨a, hnode⟩ := Tree.exists_above_eq_node (.node .withStatement) s₄.builder.anchor
    (word ++ (front ++ target.toList ++ behind) ++ [body] ++ rest)
  rw [hnode, hshape] at hclosed
  have htoken (n : Tree) (hn : n ∈ word ++ front) : n.isToken = true :=
    (List.mem_append.mp hn).elim (hwordToken n) (hfront n)
  have hlist : ∀ n ∈ (word ++ front) ++ target.toList ++ behind, n.isStatementList = false := by
    intro n hn
    rcases List.mem_append.mp hn with hn | hn
    · rcases List.mem_append.mp hn with hn | hn
      · exact Tree.isStatementList_of_isToken (htoken n hn)
      · exact Tree.isStatementList_of_isOperand (htarget n (by simpa using hn))
    · exact hbehindList n hn
  have hheader? : (Tree.node (.node .withStatement) a
      ((word ++ front) ++ target.toList ++ behind ++ body :: rest)).header? = target :=
    Tree.header?_eq (fun n hn => Tree.isOperand_of_isToken (htoken n hn)) htarget
      hbehind hlist hbody
  rw [hrun]
  refine ⟨_, rfl, hheader?, hclosed, ?_⟩
  change s.Notes (s.accesses _) _
  have hfound : (s.opening .withStatement).accesses word ++
      s₁.accesses (front ++ target.toList ++ behind) ++ body.accesses (some target) ++
        r.2.accesses rest =
      Tree.accessesAll scope scope ((word ++ front) ++ target.toList ++ behind) ++
        body.accesses (some target) ++ Tree.accessesAll scope scope rest := by
    unfold State.accesses
    rw [hscope₁, hscope₃, ← hscope]
    simp [State.opening]
  rw [State.accesses_singleton, accesses_with hlist hrest hbody, hheader?, hscope, ← hfound]
  exact ⟨hnotes.targets, hnotes.strays⟩

instance : Obeys referenceLaw (withStatement statement) where
  holds s hs := by
    obtain ⟨n, -, -, h⟩ := holds_withStatement statement hs
    exact ⟨[n], h⟩

end

instance (depth : Nat) : Obeys referenceLaw (statementUpTo depth) := by
  induction depth with
  | zero => unfold statementUpTo; infer_instance
  | succ depth ih => unfold statementUpTo; infer_instance

/-- The headers that have been noted when a source has been read are the ones that its root
tells. -/
theorem notes_final (stream : TokenStream) :
    let final := State.final stream
    let found :=
      (Tree.above (.node .root) final.builder.anchor final.builder.pending.toList).accesses
      none
    final.implicitTargets.toList = Tree.references found ∧
      List.Sublist (final.failures.toList.filter Failure.isStray)
        ((Tree.strays found).map .ofStray) := by
  intro final found
  have hlist : Obeys referenceLaw (statements (statementUpTo (stream.remaining + 1))) :=
    inferInstance
  obtain ⟨trees, hadds, hnotes⟩ := hlist.holds (.start stream) (State.innermostInRow_opening _ _)
  change (State.start stream).Adds trees final at hadds
  change State.Notes _ (Tree.accessesAll none none trees) final at hnotes
  have htrees : final.builder.pending.toList = trees := hadds.pending
  have hfound : found = Tree.accessesAll none none trees := by
    rw [← htrees]
    exact accesses_above (by simp) (leadingSign?_above_of_isNeutral rfl _ _)
  obtain ⟨failures, hfailures, hstrays⟩ := hnotes.strays
  rw [hfound]
  refine ⟨hnotes.targets, ?_⟩
  have hnone : (State.start stream).failures.toList = [] := rfl
  rwa [hfailures, hnone, List.nil_append]

end Grammar

end LosslessBasic
