import LosslessBasic.Tree.Builder
import Mathlib.Data.List.Induction

/-!
# What a builder keeps

Closing a node replaces the trees it owns by one tree with the same tokens, so the row of pending
trees keeps its tokens whatever nodes are opened and closed.

Whatever a builder is asked for, in whatever order and with whatever checkpoints, it loses no token
and changes no order. The indices of its open nodes are stacked (`Builder.Stacked`): an inner node
owns a later part of the row than an outer one does. So the trees in front of an open node stay
where they are as long as the node is open (`Builder.exists_openSince`), and closing it takes up the
trees that were added since.

## Main definitions

* `Builder.Call` and `Builder.run`: what a builder is asked for, and runs of it.
* `Builder.OpenSince`: where in a run an open node was opened.

## Main results

* `Builder.keeps_tokens`: what is to be known of a builder after any run.
-/

namespace LosslessBasic

/-! ## Closing nodes -/

namespace Tree

/-- The leaves of two rows of trees are those of the first and then of the second. -/
@[simp]
theorem leavesAll_append (ts us : List Tree) :
    leavesAll (ts ++ us) = leavesAll ts ++ leavesAll us := by
  induction ts with
  | nil => simp [leavesAll]
  | cons t ts ih => simp [leavesAll, ih]

/-- The leaves below a node are those of its children. -/
@[simp]
theorem leaves_above (k : Kind) (bare : Anchor) (ts : List Tree) :
    (above k bare ts).leaves = leavesAll ts := by
  cases ts <;> simp [above, leaves]

/-- A node above some trees has them as its children, wherever it lies. -/
theorem exists_above_eq_node (k : Kind) (bare : Anchor) (ts : List Tree) :
    ∃ anchor, above k bare ts = node k anchor ts := by
  cases ts with
  | nil => exact ⟨bare, rfl⟩
  | cons t ts => exact ⟨t.anchor, rfl⟩

end Tree

namespace Builder

variable {b : Builder} {n : OpenNode} {outer : List OpenNode}

/-- The node that closing the innermost open node gives. -/
theorem finishNode_fst (h : b.opened = n :: outer) :
    b.finishNode.1 = some (.above n.kind b.anchor (b.pending.toList.drop n.first)) := by
  simp [finishNode, h, List.take_of_length_le]

/-- Closing a node leaves the nodes around it open. -/
theorem opened_finishNode (h : b.opened = n :: outer) : b.finishNode.2.opened = outer := by
  simp [finishNode, h]

/-- To close a node leaves the end of the last token where it is. -/
@[simp]
theorem anchor_finishNode (b : Builder) : b.finishNode.2.anchor = b.anchor := by
  unfold finishNode
  split <;> rfl

/-- Closing a node puts it in the place of the trees it owns. -/
theorem pending_finishNode (h : b.opened = n :: outer) :
    b.finishNode.2.pending.toList =
      b.pending.toList.take n.first ++
        [.above n.kind b.anchor (b.pending.toList.drop n.first)] := by
  simp [finishNode, h, List.take_of_length_le]

/-- Closing a node keeps the tokens of the row. -/
theorem leavesAll_finishNode (b : Builder) :
    Tree.leavesAll b.finishNode.2.pending.toList = Tree.leavesAll b.pending.toList := by
  cases h : b.opened with
  | nil => simp [finishNode, h]
  | cons n outer =>
    rw [pending_finishNode h]
    simp only [Tree.leavesAll_append, Tree.leavesAll, Tree.leaves_above, List.append_nil]
    rw [← Tree.leavesAll_append, List.take_append_drop]

/-- Closing the only open node, which owns the whole row, leaves it as the only tree. -/
theorem finish_fst_of_closed (h : b.opened = []) : b.finish.1 = b.pending[0]? := by
  simp [finish, depth, h, finishNodes]

/-! ## Calls -/

/-- What a builder is asked for. -/
inductive Call where
  /-- To open a node. -/
  | startNode (kind : Kind)
  /-- To open a node at a checkpoint, of any index. -/
  | startNodeAt (cp : Checkpoint) (kind : Kind)
  /-- To add a token. -/
  | token (t : Token)
  /-- To tell the end of the row. -/
  | checkpoint
  /-- To close the innermost open node. -/
  | finishNode

namespace Call

/-- Whether a node is opened. -/
def opens : Call → Bool
  | startNode _ | startNodeAt _ _ => true
  | token _ | checkpoint | finishNode => false

/-- The node that is opened, with the index that its checkpoint stands for. -/
def node? (b : Builder) : Call → Option OpenNode
  | startNode k => some { kind := k, first := b.pending.size }
  | startNodeAt cp k => some { kind := k, first := b.clamp cp }
  | token _ | checkpoint | finishNode => none

/-- The token that is added. -/
def token? : Call → Option Token
  | token t => some t
  | startNode _ | startNodeAt _ _ | checkpoint | finishNode => none

end Call

/-- The node that is closed by a call, if any, and the builder behind the call. -/
def answer (b : Builder) : Call → Option Tree × Builder
  | .startNode k => (none, b.startNode k)
  | .startNodeAt cp k => (none, b.startNodeAt cp k)
  | .token t => (none, b.token t)
  | .checkpoint => (none, b)
  | .finishNode => b.finishNode

/-- The nodes that are closed by some calls, and the builder behind them. -/
def run (b : Builder) : List Call → List Tree × Builder
  | [] => ([], b)
  | call :: calls =>
    let (node?, b) := b.answer call
    let (nodes, b) := b.run calls
    (node?.toList ++ nodes, b)

/-- The nodes that are closed by some calls to a new builder. -/
def closed (calls : List Call) : List Tree := (run {} calls).1

/-- A new builder after some calls. -/
def built (calls : List Call) : Builder := (run {} calls).2

variable {call opening : Call} {calls before within : List Call}
  {m : OpenNode} {inner : List OpenNode}

/-- Calls that follow others are answered by the builder that the others leave. -/
theorem run_append (calls more : List Call) : b.run (calls ++ more) =
    ((b.run calls).1 ++ ((b.run calls).2.run more).1, ((b.run calls).2.run more).2) := by
  induction calls generalizing b with
  | nil => rfl
  | cons call calls ih => simp [run, ih]

/-- What a call closes is closed behind what the calls in front of it have closed. -/
@[simp]
theorem closed_concat (calls : List Call) (call : Call) :
    closed (calls ++ [call]) = closed calls ++ ((built calls).answer call).1.toList := by
  simp [closed, built, run_append, run]

/-- A call is answered by the builder that the calls in front of it have built. -/
@[simp]
theorem built_concat (calls : List Call) (call : Call) :
    built (calls ++ [call]) = ((built calls).answer call).2 := by
  simp [built, run_append, run]

/-- What a call comes to: a node is opened, a token is added, nothing changes, or a node is
closed. -/
theorem answer_cases (b : Builder) (call : Call) :
    (∃ n, call.node? b = some n ∧ call.opens = true ∧ call.token? = none ∧
        b.answer call = (none, { b with opened := n :: b.opened })) ∨
      (∃ t, call.opens = false ∧ call.token? = some t ∧ b.answer call = (none, b.token t)) ∨
      (call.opens = false ∧ call.token? = none ∧ b.answer call = (none, b)) ∨
      ∃ n outer, call.opens = false ∧ call.token? = none ∧ b.opened = n :: outer ∧
        b.answer call = b.finishNode := by
  cases call with
  | startNode k => exact .inl ⟨_, rfl, rfl, rfl, rfl⟩
  | startNodeAt cp k => exact .inl ⟨_, rfl, rfl, rfl, rfl⟩
  | token t => exact .inr (.inl ⟨t, rfl, rfl, rfl⟩)
  | checkpoint => exact .inr (.inr (.inl ⟨rfl, rfl, rfl⟩))
  | finishNode =>
    cases h : b.opened with
    | nil => exact .inr (.inr (.inl ⟨rfl, rfl, by simp [answer, Builder.finishNode, h]⟩))
    | cons n outer => exact .inr (.inr (.inr ⟨n, outer, rfl, rfl, rfl, rfl⟩))

/-! ## Open nodes -/

/-- Whether the open nodes own later and later parts of the row. -/
structure Stacked (b : Builder) : Prop where
  /-- A node does not reach out of the nodes that are open around it. -/
  sorted : b.opened.Pairwise fun inner outer => outer.first ≤ inner.first
  /-- No node begins behind the row. -/
  first_le : ∀ n ∈ b.opened, n.first ≤ b.pending.size

/-- A new builder has no open node. -/
theorem stacked_empty : ({} : Builder).Stacked where
  sorted := .nil
  first_le := by simp

/-- A new node begins where the innermost open one allows it. -/
theorem Stacked.node?_first (h : b.Stacked) (hn : call.node? b = some n) :
    b.innermostFirst ≤ n.first ∧ n.first ≤ b.pending.size := by
  have hle : b.innermostFirst ≤ b.pending.size := by
    unfold innermostFirst
    split
    next => exact Nat.zero_le _
    next n _ hopened => exact h.first_le n (by simp [hopened])
  cases call with
  | startNode k =>
    obtain rfl := Option.some.inj hn
    exact ⟨hle, Nat.le_refl _⟩
  | startNodeAt cp k =>
    obtain rfl := Option.some.inj hn
    simp only [clamp]
    omega
  | token t => cases hn
  | checkpoint => cases hn
  | finishNode => cases hn

/-- A node that is opened where the call says keeps the open nodes in order. -/
theorem Stacked.push (h : b.Stacked) (hn : call.node? b = some n) :
    { b with opened := n :: b.opened }.Stacked := by
  obtain ⟨hinner, hrow⟩ := h.node?_first hn
  constructor
  · refine List.pairwise_cons.mpr ⟨fun m hm => ?_, h.sorted⟩
    -- the innermost node begins last of all
    apply Nat.le_trans _ hinner
    have hsorted := h.sorted
    unfold innermostFirst
    cases hopened : b.opened with
    | nil => simp [hopened] at hm
    | cons l outer =>
      rw [hopened] at hm hsorted
      rcases List.mem_cons.mp hm with rfl | hm
      · exact Nat.le_refl _
      · exact (List.pairwise_cons.mp hsorted).1 m hm
  · intro m hm
    rcases List.mem_cons.mp hm with rfl | hm
    · exact hrow
    · exact h.first_le m hm

/-- A token that is added keeps the open nodes in order. -/
theorem Stacked.token (h : b.Stacked) (t : Token) : (b.token t).Stacked where
  sorted := h.sorted
  first_le m hm := by
    have hle := h.first_le m hm
    simp only [Builder.token, Array.size_push]
    omega

/-- A node that is closed keeps the open nodes in order. -/
theorem Stacked.finishNode (h : b.Stacked) (hopened : b.opened = n :: outer) :
    b.finishNode.2.Stacked := by
  have hsorted := h.sorted
  rw [hopened, List.pairwise_cons] at hsorted
  have hsize : b.finishNode.2.pending.size = n.first + 1 := by
    have hle := h.first_le n (by simp [hopened])
    rw [← Array.length_toList, pending_finishNode hopened]
    simp [Nat.min_eq_left hle]
  constructor
  · rw [opened_finishNode hopened]
    exact hsorted.2
  · intro m hm
    rw [opened_finishNode hopened] at hm
    rw [hsize]
    exact Nat.le_succ_of_le (hsorted.1 m hm)

/-- The open nodes stay stacked with every call. -/
theorem Stacked.answer (h : b.Stacked) (call : Call) : (b.answer call).2.Stacked := by
  rcases b.answer_cases call with
    ⟨n, hn, -, -, heq⟩ | ⟨t, -, -, heq⟩ | ⟨-, -, heq⟩ | ⟨n, outer, -, -, hopened, heq⟩
  · rw [heq]
    exact h.push hn
  · rw [heq]
    exact h.token t
  · rw [heq]
    exact h
  · rw [heq]
    exact h.finishNode hopened

/-- Whatever calls are made, the open nodes are in order. -/
theorem stacked_built (calls : List Call) : (built calls).Stacked := by
  induction calls using List.reverseRecOn with
  | nil => exact stacked_empty
  | append_singleton calls call ih =>
    rw [built_concat]
    exact ih.answer call

/-! ## Tokens and depths -/

/-- A call adds its token at the end of the row, and keeps the tokens that are there. -/
theorem leavesAll_answer (b : Builder) (call : Call) :
    Tree.leavesAll (b.answer call).2.pending.toList =
      Tree.leavesAll b.pending.toList ++ call.token?.toList := by
  rcases b.answer_cases call with
    ⟨n, -, -, ht, heq⟩ | ⟨t, -, ht, heq⟩ | ⟨-, ht, heq⟩ | ⟨n, outer, -, ht, hopened, heq⟩
  · simp [heq, ht]
  · simp [heq, ht, token, Tree.leavesAll, Tree.leaves]
  · simp [heq, ht]
  · simp [heq, ht, leavesAll_finishNode]

/-- Whatever calls are made, the leaves are the tokens that were added. -/
theorem leavesAll_built (calls : List Call) :
    Tree.leavesAll (built calls).pending.toList = calls.filterMap Call.token? := by
  induction calls using List.reverseRecOn with
  | nil => rfl
  | append_singleton calls call ih =>
    rw [built_concat, leavesAll_answer, ih, List.filterMap_append]
    cases h : call.token? <;> simp [h]

/-- One node more is open behind a call that opens one, and one less behind a call that closes
one. -/
theorem depth_answer (b : Builder) (call : Call) :
    (b.answer call).2.depth + (b.answer call).1.toList.length =
      b.depth + if call.opens then 1 else 0 := by
  rcases b.answer_cases call with
    ⟨n, -, ho, -, heq⟩ | ⟨t, ho, -, heq⟩ | ⟨ho, -, heq⟩ | ⟨n, outer, ho, -, hopened, heq⟩
  · simp [heq, ho, depth]
  · simp [heq, ho, depth, token]
  · simp [heq, ho, depth]
  · rw [heq, finishNode_fst hopened, depth, opened_finishNode hopened]
    simp [ho, depth, hopened]

/-- Of the nodes that were opened each is open still or was closed. -/
theorem depth_built (calls : List Call) :
    (built calls).depth + (closed calls).length = calls.countP Call.opens := by
  induction calls using List.reverseRecOn with
  | nil => rfl
  | append_singleton calls call ih =>
    have hstep := (built calls).depth_answer call
    rw [built_concat, closed_concat, List.length_append, List.countP_append, List.countP_singleton]
    omega

/-! ## Nodes that stay open -/

/-- Adding a token leaves the row in front of it. -/
theorem take_pending_token (b : Builder) (t : Token) {i : Nat} (hi : i ≤ b.pending.size) :
    (b.token t).pending.toList.take i = b.pending.toList.take i := by
  rw [token, Array.toList_push, List.take_append_of_le_length (by simpa using hi)]

/-- Closing a node leaves the row in front of it. -/
theorem take_pending_finishNode (h : b.opened = n :: outer) {i : Nat} (hi : i ≤ n.first)
    (hn : n.first ≤ b.pending.size) :
    b.finishNode.2.pending.toList.take i = b.pending.toList.take i := by
  have hlength : i ≤ (b.pending.toList.take n.first).length := by
    rw [List.length_take, Array.length_toList]
    omega
  rw [pending_finishNode h, List.take_append_of_le_length hlength, List.take_take,
    Nat.min_eq_left hi]

/-- Among some calls to a new builder, `opening` is the one that opened `n`, which is open since.
The calls in front of it are `before`, those behind it `within`. -/
structure OpenSince (calls before : List Call) (opening : Call) (within : List Call)
    (n : OpenNode) :
    Prop where
  /-- The calls in three parts. -/
  calls_eq : calls = before ++ opening :: within
  /-- The node is the one that is asked for. -/
  node?_eq : opening.node? (built before) = some n
  /-- It is not closed again. -/
  depth_lt : ∀ i ≤ within.length,
    (built before).depth < (built (before ++ opening :: within.take i)).depth
  /-- The trees in front of it stay where they were when it was opened. -/
  take_eq : (built calls).pending.toList.take n.first = (built before).pending.toList.take n.first

/-- A node stays open over a call that does not close it, and the row in front of it stays with
it. -/
theorem OpenSince.concat (h : OpenSince calls before opening within n)
    (hdepth : (built before).depth < (built (calls ++ [call])).depth)
    (htake : (built (calls ++ [call])).pending.toList.take n.first =
      (built calls).pending.toList.take n.first) :
    OpenSince (calls ++ [call]) before opening (within ++ [call]) n where
  calls_eq := by simp [h.calls_eq]
  node?_eq := h.node?_eq
  depth_lt i hi := by
    rcases Nat.lt_or_ge within.length i with hlt | hle
    · have hall : (within ++ [call]).take i = within ++ [call] :=
        List.take_of_length_le (by rw [List.length_append, List.length_singleton]; omega)
      rw [hall]
      simpa [h.calls_eq] using hdepth
    · rw [List.take_append_of_le_length hle]
      exact h.depth_lt i hle
  take_eq := htake.trans h.take_eq

/-- Each open node was opened by one of the calls, and the nodes around it were the open ones
then. -/
theorem exists_openSince (hopened : (built calls).opened = inner ++ n :: outer) :
    ∃ before opening within, OpenSince calls before opening within n ∧
      (built before).opened = outer := by
  induction calls using List.reverseRecOn generalizing inner n outer with
  | nil => simp [built, run] at hopened
  | append_singleton calls call ih =>
    have hstacked := stacked_built calls
    -- the node was open before the call, which does not change the row in front of it
    have hold {inner' : List OpenNode} (hbefore : (built calls).opened = inner' ++ n :: outer)
        (htake : (built (calls ++ [call])).pending.toList.take n.first =
          (built calls).pending.toList.take n.first) :
        ∃ before opening within, OpenSince (calls ++ [call]) before opening within n ∧
          (built before).opened = outer := by
      obtain ⟨before, opening, within, hsince, houter⟩ := ih hbefore
      refine ⟨before, opening, within ++ [call], hsince.concat ?_ htake, houter⟩
      rw [depth, depth, hopened, houter]
      simp
      omega
    have hfirst {inner' : List OpenNode} (hbefore : (built calls).opened = inner' ++ n :: outer) :
        n.first ≤ (built calls).pending.size :=
      hstacked.first_le n (by simp [hbefore])
    rcases (built calls).answer_cases call with
      ⟨m, hm, -, -, heq⟩ | ⟨t, -, -, heq⟩ | ⟨-, -, heq⟩ | ⟨m, rest, -, -, hrest, heq⟩
    · rw [built_concat, heq] at hopened
      cases inner with
      | nil =>
        -- it is the node that the call opens
        obtain ⟨rfl, houter⟩ := List.cons.inj hopened
        refine ⟨calls, call, [], ⟨rfl, hm, ?_, ?_⟩, houter⟩
        · intro i _
          rw [List.take_nil, built_concat, heq]
          exact Nat.lt_succ_self _
        · rw [built_concat, heq]
      | cons l inner =>
        have hbefore : (built calls).opened = inner ++ n :: outer := (List.cons.inj hopened).2
        exact hold hbefore (by rw [built_concat, heq])
    · have hbefore : (built calls).opened = inner ++ n :: outer := by
        rw [built_concat, heq] at hopened
        exact hopened
      apply hold hbefore
      rw [built_concat, heq]
      exact take_pending_token _ t (hfirst hbefore)
    · have hbefore : (built calls).opened = inner ++ n :: outer := by
        rw [built_concat, heq] at hopened
        exact hopened
      exact hold hbefore (by rw [built_concat, heq])
    · have hbefore : (built calls).opened = (m :: inner) ++ n :: outer := by
        rw [built_concat, heq, opened_finishNode hrest] at hopened
        rw [hrest, hopened]
        rfl
      apply hold hbefore
      -- the node that is closed is open within it
      have hinner : n.first ≤ m.first := by
        have hsorted := hstacked.sorted
        rw [hbefore, List.cons_append, List.pairwise_cons] at hsorted
        exact hsorted.1 n (by simp)
      rw [built_concat, heq]
      exact take_pending_finishNode hrest hinner (hstacked.first_le m (by simp [hrest]))

/-! ## Closing all nodes -/

/-- Where the outermost node owns the whole row, closing all of them leaves this node alone. -/
theorem finishNodes_eq (hopened : b.opened = inner ++ [n]) (hfirst : n.first = 0) :
    ∃ anchor children, (finishNodes (inner.length + 1) b).opened = [] ∧
      (finishNodes (inner.length + 1) b).pending.toList = [.node n.kind anchor children] := by
  induction inner generalizing b with
  | nil =>
    obtain ⟨anchor, habove⟩ :=
      Tree.exists_above_eq_node n.kind b.anchor (b.pending.toList.drop n.first)
    refine ⟨anchor, b.pending.toList.drop n.first, opened_finishNode hopened, ?_⟩
    change b.finishNode.2.pending.toList = _
    rw [pending_finishNode hopened, habove, hfirst]
    rfl
  | cons m inner ih => exact ih (opened_finishNode hopened)

/-- Closing nodes keeps the tokens of the row. -/
theorem leavesAll_finishNodes (count : Nat) (b : Builder) :
    Tree.leavesAll (finishNodes count b).pending.toList = Tree.leavesAll b.pending.toList := by
  induction count generalizing b with
  | zero => rfl
  | succ count ih => rw [finishNodes, ih, leavesAll_finishNode]

/-! ## Runs -/

/-- What is to be known of a builder after some calls to a new one. -/
structure KeepsTokens (calls : List Call) : Prop where
  /-- The tokens of the row are those that were added, in their order. -/
  leaves_eq : Tree.leavesAll (built calls).pending.toList = calls.filterMap Call.token?
  /-- From the outermost open node to the innermost one, none begins in front of the one around
  it. -/
  firsts_sorted : ((built calls).opened.reverse.map OpenNode.first).Pairwise (· ≤ ·)
  /-- No open node begins behind the row. -/
  firsts_le : ∀ n ∈ (built calls).opened, n.first ≤ (built calls).pending.size
  /-- The nodes that are open are those that were opened, but for those that were closed. -/
  depth_eq : (built calls).depth + (closed calls).length = calls.countP Call.opens
  /-- Where a node is open, closing the innermost one gives a node above the trees that were added
  to the row since this one was opened, from the index on that its checkpoint stands for. -/
  finishNode_eq : (built calls).depth ≠ 0 → ∃ before opening within n anchor children,
    OpenSince calls before opening within n ∧ (built calls).depth = (built before).depth + 1 ∧
      (built calls).pending.toList = (built before).pending.toList.take n.first ++ children ∧
      (built calls).finishNode.1 = some (.node n.kind anchor children) ∧
      (built calls).finishNode.2.pending.toList =
        (built before).pending.toList.take n.first ++ [.node n.kind anchor children]
  /-- Where the first call opens a node that is not closed again, closing all nodes gives one tree
  with all tokens, and nothing is left. -/
  finish_eq : ∀ {opening within n}, calls = opening :: within → opening.node? {} = some n →
    (∀ i ≤ within.length, (built (opening :: within.take i)).depth ≠ 0) →
      ∃ root : Tree, (built calls).finish.1 = some root ∧ root.kind = n.kind ∧
        root.leaves = calls.filterMap Call.token? ∧
        (finishNodes (built calls).depth (built calls)).pending.toList = [root] ∧
        (built calls).finish.2.opened = [] ∧ (built calls).finish.2.pending = #[]

/-- A builder keeps the tokens that it is given, whatever it is asked for. -/
theorem keeps_tokens (calls : List Call) : KeepsTokens calls := by
  have hstacked := stacked_built calls
  constructor
  case leaves_eq => exact leavesAll_built calls
  case firsts_sorted =>
    rw [List.pairwise_map, List.pairwise_reverse]
    exact hstacked.sorted
  case firsts_le => exact hstacked.first_le
  case depth_eq => exact depth_built calls
  case finishNode_eq =>
    intro hdepth
    obtain ⟨n, outer, hopened⟩ := List.exists_cons_of_ne_nil (List.length_pos_iff.mp
      (Nat.pos_of_ne_zero hdepth))
    -- no open node lies further in
    have hinner : (built calls).opened = [] ++ n :: outer := hopened
    obtain ⟨before, opening, within, hsince, houter⟩ := exists_openSince hinner
    obtain ⟨anchor, habove⟩ := Tree.exists_above_eq_node n.kind (built calls).anchor
      ((built calls).pending.toList.drop n.first)
    refine ⟨before, opening, within, n, anchor, (built calls).pending.toList.drop n.first, hsince,
      ?_, ?_, ?_, ?_⟩
    · rw [depth, depth, hopened, houter, List.length_cons]
    · exact (List.take_append_drop n.first _).symm.trans (by rw [hsince.take_eq])
    · rw [finishNode_fst hopened, habove]
    · rw [pending_finishNode hopened, habove, hsince.take_eq]
  case finish_eq =>
    intro opening within n hcalls hn hdepth
    have hne : (built calls).opened ≠ [] := by
      intro hnil
      apply hdepth within.length (Nat.le_refl _)
      rw [List.take_length, ← hcalls, depth, hnil, List.length_nil]
    obtain ⟨inner, l, hopened⟩ : ∃ inner l, (built calls).opened = inner ++ [l] :=
      ⟨_, _, (List.dropLast_concat_getLast hne).symm⟩
    obtain ⟨before, opening', within', hsince, houter⟩ := exists_openSince hopened
    -- the outermost open node is the one that the first call opened
    have hbefore : before = [] := by
      cases before with
      | nil => rfl
      | cons call before =>
        have heq : opening :: within = call :: (before ++ opening' :: within') :=
          hcalls.symm.trans hsince.calls_eq
        obtain ⟨rfl, rfl⟩ := List.cons.inj heq
        refine absurd ?_ (hdepth before.length (by simp))
        rw [List.take_left, depth, houter, List.length_nil]
    subst hbefore
    obtain ⟨rfl, rfl⟩ := List.cons.inj (hcalls.symm.trans hsince.calls_eq)
    obtain rfl : n = l := Option.some.inj (hn.symm.trans hsince.node?_eq)
    have hfirst : n.first = 0 := Nat.le_zero.mp (stacked_empty.node?_first hn).2
    obtain ⟨anchor, children, hnone, hpending⟩ := finishNodes_eq hopened hfirst
    have hcount : (built calls).depth = inner.length + 1 := by simp [depth, hopened]
    rw [← hcount] at hnone hpending
    refine ⟨.node n.kind anchor children, ?_, rfl, ?_, hpending, hnone, rfl⟩
    · change (finishNodes (built calls).depth (built calls)).pending[0]? = _
      rw [← Array.getElem?_toList, hpending]
      rfl
    · have hleaves := leavesAll_finishNodes (built calls).depth (built calls)
      rw [hpending, leavesAll_built] at hleaves
      simpa [Tree.leavesAll] using hleaves

/-- A checkpoint that lies in front of the innermost open node reaches no further than this node. -/
example :
    (closed [.startNode (.node .root), .token { text := Bytes.ofString "a" },
      .startNode (.node .argumentList), .token { text := Bytes.ofString "b" },
      .startNodeAt ⟨0⟩ (.node .argument), .finishNode]).map Tree.text = [Bytes.ofString "b"] := by
  decide

end Builder

end LosslessBasic
