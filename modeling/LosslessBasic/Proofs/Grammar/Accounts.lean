import LosslessBasic.Proofs.Grammar.Additions
import LosslessBasic.Proofs.Grammar.Bodies
import LosslessBasic.Proofs.Grammar.Source
import LosslessBasic.Proofs.Tree.Ending

/-!
# Accounts of blocks

`accountLaw` says that the grammar reports a missing closer for every block that ends without the
closer it asks for, at the token behind it, and reports no other one: the reports are those that the
accounts of the blocks in the trees stand for. While a block is being read, its own report may have
been made already, before its node is there; `State.Accounts` keeps such a report apart.
-/

namespace LosslessBasic

/-- Whether a failure says that the closer of a block is missing. -/
def Failure.isMissingCloser (f : Failure) : Bool := f.problem.code == .missingBlockEnd

namespace Grammar

/-- The reports of missing closers so far. -/
def State.missing (s : State) : List Failure := s.failures.toList.filter Failure.isMissingCloser

/-- Between two states the blocks of some trees have been accounted for; `own` are the reports for
the block around. -/
structure State.Accounts (s : State) (trees : List Tree) (own : List Failure)
    (accounts : List Account)
    (t : State) : Prop where
  places : accounts.map Account.place = Tree.blocksAll t.stream.current trees
  sound : ∀ a ∈ accounts, a.IsSound
  missing : t.missing = s.missing ++ accounts.filterMap Account.failure? ++ own

section

variable {s t u : State} {trees more : List Tree} {own : List Failure}
  {accounts accounts' : List Account}

/-- The first token that is moved is the one at the cursor. -/
theorem State.Adds.headD_leavesAll (h : s.Adds trees t) :
    (Tree.leavesAll trees).headD t.stream.current = s.stream.current := by
  have hrest := congrArg List.head? h.rest
  cases hleaves : Tree.leavesAll trees with
  | nil => rw [hleaves] at hrest; exact (Option.some.inj hrest).symm
  | cons u leaves => rw [hleaves] at hrest; exact (Option.some.inj hrest).symm

/-- Accounts that follow each other are kept together. -/
theorem State.Accounts.trans (h : s.Accounts trees [] accounts t) (hadds : t.Adds more u)
    (h' : t.Accounts more own accounts' u) :
    s.Accounts (trees ++ more) own (accounts ++ accounts') u where
  places := by
    rw [List.map_append, Tree.blocksAll_append, hadds.headD_leavesAll, h.places, h'.places]
  sound a ha := (List.mem_append.mp ha).elim (h.sound a) (h'.sound a)
  missing := by
    rw [h'.missing, h.missing, List.filterMap_append]
    simp

/-- Where no closer is reported as missing there is nothing to account for. -/
theorem State.Accounts.of_eq (h : t.missing = s.missing) : s.Accounts [] [] [] t :=
  ⟨rfl, by simp, by simp [h]⟩

/-- A token needs no account. -/
theorem State.Accounts.leaf {token : Token} (h : t.missing = s.missing) :
    s.Accounts [.leaf token] [] [] t :=
  ⟨rfl, by simp, by simp [h]⟩

/-- A node that is around no block changes no account. -/
theorem State.Accounts.node {k : NodeKind} {a : Anchor} (h : s.Accounts trees own accounts t)
    (hk : (Tree.above (.node k) a trees).block? = none) :
    s.Accounts [.above (.node k) a trees] own accounts t where
  places := by
    rw [h.places, Tree.blocksAll_singleton, Tree.blocks_above, hk]
    simp
  sound := h.sound
  missing := h.missing

/-- The node around a block, with the account of this block behind those of the blocks in it. -/
theorem State.Accounts.block {k : NodeKind} {a : Anchor} {block : Block} (ending : Ending)
    (h : s.Accounts trees own accounts t)
    (hk : (Tree.above (.node k) a trees).block? = some block) :
    let account : Account := ⟨.above (.node k) a trees, block, t.stream.current, ending⟩
    account.IsSound → own = account.failure?.toList →
      s.Accounts [.above (.node k) a trees] [] (accounts ++ [account]) t := by
  intro account hsound hown
  refine ⟨?_, fun b hb => ?_, ?_⟩
  · rw [List.map_append, h.places, Tree.blocksAll_singleton, Tree.blocks_above, hk]
    rfl
  · rcases List.mem_append.mp hb with hb | hb
    · exact h.sound b hb
    · obtain rfl := List.mem_singleton.mp hb
      exact hsound
  · rw [h.missing, hown, List.filterMap_append]
    cases hfailure : account.failure? <;> simp [hfailure]

end

/-- The number of loops that are closed by a `Next` further in, and those still to be closed so, is
bounded by the variables that the `Next` clauses list. -/
def State.Counts (s : State) (trees : List Tree) (left : Nat) (accounts : List Account)
    (t : State) :
    Prop :=
  t.pendingNext + closedByNext accounts + left ≤ s.pendingNext + Tree.furtherVariablesAll trees

/-- The loops that a `Next` further in has closed are counted account by account. -/
theorem closedByNext_append (accounts accounts' : List Account) :
    closedByNext (accounts ++ accounts') = closedByNext accounts + closedByNext accounts' :=
  List.countP_append

/-- What one production leaves for its outer loops is counted before what the next one does. -/
theorem State.Counts.trans {s t u : State} {trees more : List Tree} {left : Nat}
    {accounts accounts' : List Account} (h : s.Counts trees 0 accounts t)
    (h' : t.Counts more left accounts' u) :
    s.Counts (trees ++ more) left (accounts ++ accounts') u := by
  unfold State.Counts at h h' ⊢
  rw [closedByNext_append, Tree.furtherVariablesAll_append]
  omega

/-- Where the pending loops stay as they are nothing is counted. -/
theorem State.Counts.of_eq {s t : State} (h : t.pendingNext = s.pendingNext) : s.Counts [] 0 [] t :=
  Nat.le_of_eq (by rw [h]; rfl)

/-- A node counts as its children do. -/
theorem State.Counts.node {s t : State} {k : Kind} {a : Anchor} {trees : List Tree} {left : Nat}
    {accounts : List Account} (h : s.Counts trees left accounts t) :
    s.Counts [.above k a trees] left accounts t := by
  unfold State.Counts at h ⊢
  rw [Tree.furtherVariablesAll, Tree.furtherVariablesAll, Tree.furtherVariables_above]
  omega

/-- The blocks in the trees that are added are accounted for. -/
def Accounted (s : State) (trees : List Tree) (t : State) : Prop :=
  ∃ accounts, s.Accounts trees [] accounts t ∧ s.Counts trees 0 accounts t

/-- An ordinary node is no block. -/
theorem Tree.block?_above_of_isOrdinary {k : NodeKind} (hk : k.isOrdinary = true) (a : Anchor)
    (ts : List Tree) : (Tree.above (.node k) a ts).block? = none := by
  cases ts <;> cases k <;> first | rfl | cases hk

/-- An access is no block. -/
theorem Tree.block?_above_accessKind (sign : Kind) (a : Anchor) (ts : List Tree) :
    (Tree.above (.node (accessKind sign)) a ts).block? = none := by
  unfold accessKind
  split <;> cases ts <;> rfl

/-- A failure that is reported is one of the missing closers if it says so. -/
theorem State.missing_push {s t : State} {f : Failure} (h : t.failures = s.failures.push f) :
    t.missing = s.missing ++ [f].filter Failure.isMissingCloser := by
  unfold State.missing
  rw [h, Array.toList_push, List.filter_append]

/-- Every missing closer is reported, and no other one is. -/
def accountLaw : Law where
  rel := Accounted
  builder _ _ := fun ⟨accounts, haccounts, hcounts⟩ =>
    ⟨accounts, ⟨haccounts.places, haccounts.sound, haccounts.missing⟩, hcounts⟩
  silent {s t} _ hfailures _ hpending _ _ _ :=
    ⟨[], .of_eq (by rw [State.missing, State.missing, hfailures]), .of_eq hpending⟩
  shift _ := ⟨[], .leaf rfl, Nat.le_refl _⟩
  report s problem t hproblem := by
    have hpush := State.missing_push (s := s) (t := ((report problem t).run s).2)
      (f := .atToken problem t) rfl
    refine ⟨[], .of_eq ?_, .of_eq rfl⟩
    rw [hpush]
    cases problem <;> first | exact List.append_nil _ | cases hproblem
  trans hadds hadds' := fun ⟨_, haccounts, hcounts⟩ ⟨_, haccounts', hcounts'⟩ =>
    ⟨_, haccounts.trans hadds' haccounts', hcounts.trans hcounts'⟩
  node _ _ hk := fun ⟨_, haccounts, hcounts⟩ =>
    ⟨_, haccounts.node (Tree.block?_above_of_isOrdinary hk _ _), hcounts.node⟩
  access _ _ _ := fun ⟨_, haccounts, hcounts⟩ =>
    ⟨_, haccounts.node (Tree.block?_above_accessKind _ _ _), hcounts.node⟩

/-- A report of something else than a missing closer changes no account. -/
theorem holds_pushed {s t : State} {f : Failure} (hf : f.isMissingCloser = false)
    (hadds : s.Adds [] t) (hfailures : t.failures = s.failures.push f)
    (hpending : t.pendingNext = s.pendingNext) : accountLaw.Holds s [] t :=
  ⟨hadds, [], .of_eq (by rw [State.missing_push hfailures]; simp [hf]), .of_eq hpending⟩

/-! ## Accesses -/

/-- It changes no account which header an access refers to. -/
theorem holds_referToHeader (sign : Token) (access : Option Tree) (s : State) :
    accountLaw.Holds s [] ((referToHeader sign access).run s).2 := by
  unfold referToHeader
  rw [run_bind, run_get]
  dsimp only
  split
  · unfold fail
    rw [run_bind, run_get]
    dsimp only
    split
    · exact holds_setRecovering true s
    · exact holds_pushed (f := .atToken (.memberOutsideWith sign) sign) rfl
        (.of_silent rfl rfl rfl rfl rfl) rfl rfl
  · exact ⟨.of_silent rfl rfl rfl rfl rfl, [], .of_eq rfl, .of_eq rfl⟩
  · exact .refl s

/-- The node of an access adds nothing to what a law says of the tokens in it, so an access is read
as the law has it when finding the header that it refers to is. -/
theorem Refers.of_referToHeader {L : Law}
    (hnode : ∀ {s t : State} {trees : List Tree} (sign : Kind) (a : Anchor), L.rel s trees t →
      L.rel s [.above (.node (accessKind sign)) a trees] t)
    (hrefer : ∀ sign access s, L.Holds s [] ((referToHeader sign access).run s).2) : Refers L where
  holds s hs _ := by
    generalize hk : accessKind s.stream.current.kind = k
    have hbody : Obeys L (do shift; memberName) := inferInstance
    obtain ⟨trees, h⟩ := hbody.holds (s.opening k) (State.innermostInRow_opening s k)
    obtain ⟨a, hgiven, hadds, hrel⟩ := h.composite hs
    subst hk
    generalize hread :
      (composite (accessKind s.stream.current.kind) (do shift; memberName)).run s = r
      at hgiven hadds hrel
    rw [run_leadingAccess hread, hgiven]
    exact ⟨_, rfl, Tree.isOperand_above (isKnown_accessKind _) _ _,
      Law.Holds.trans ⟨hadds, hnode _ _ hrel⟩ (hrefer _ _ _)⟩

instance : Refers accountLaw :=
  .of_referToHeader (fun _ _ ⟨_, haccounts, hcounts⟩ =>
    ⟨_, haccounts.node (Tree.block?_above_accessKind _ _ _), hcounts.node⟩) holds_referToHeader

end Grammar

end LosslessBasic
