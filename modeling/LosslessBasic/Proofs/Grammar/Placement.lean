import LosslessBasic.Proofs.Grammar.Depth
import LosslessBasic.Proofs.Grammar.Line
import LosslessBasic.Proofs.Grammar.Reading
import LosslessBasic.Proofs.Token.Line

/-!
# Reading a text at another place

A `Placement` says where a text is read once more: behind what another state has read, and possibly
in front of further tokens, which then take the place of the end marker. `Placement.state` turns the
states of the one reading into those of the other: tokens and trees are relocated, and what the
other state holds already stays in front. Where the header of a procedure follows, it ends what the
end of the text ends, so the closers that are missed at the end are missed at the header there.

Two productions agree on a state when they lead from a state and its image to a state and its image
(`Placement.Agrees`). Away from the end of the text the moves agree with themselves, and so does
everything that looks no further than to the end of the line.
-/

namespace LosslessBasic

namespace TokenStream

/-- Streams with the same tokens and the same cursor are the same. -/
theorem eq_of_passed_eq_of_rest_eq {s t : TokenStream} (hpassed : s.passed = t.passed)
    (hrest : s.rest = t.rest) : s = t := by
  obtain ⟨passed, current, ahead, remaining, ends, hremaining⟩ := s
  obtain ⟨passed', current', ahead', remaining', ends', hremaining'⟩ := t
  obtain ⟨rfl, rfl⟩ := List.cons.inj hrest
  obtain rfl : passed = passed' := hpassed
  obtain rfl : remaining = remaining' := hremaining.trans hremaining'.symm
  rfl

/-- The stream over given tokens behind the cursor and from it on. -/
def between (passed : List Token) (rest : List Token) (h : rest ≠ [])
    (hends : (rest.getLast h).kind = .lexeme .endOfFile) : TokenStream where
  passed := passed
  current := rest.head h
  ahead := rest.tail
  remaining := rest.tail.length
  ends := by
    simp only [List.cons_head_tail]
    exact hends
  remaining_eq := rfl

@[simp]
theorem passed_between (passed rest : List Token) (h : rest ≠ [])
    (hends : (rest.getLast h).kind = .lexeme .endOfFile) :
    (between passed rest h hends).passed = passed := rfl

/-- A stream between two rows of tokens has the second ahead. -/
@[simp]
theorem rest_between (passed rest : List Token) (h : rest ≠ [])
    (hends : (rest.getLast h).kind = .lexeme .endOfFile) :
    (between passed rest h hends).rest = rest := by
  simp [between, TokenStream.rest]

theorem rest_ne_nil (s : TokenStream) : s.rest ≠ [] := List.cons_ne_nil _ _

/-- The token that is moved stands behind those that have been passed. -/
theorem passed_advance {s : TokenStream} (h : s.ahead ≠ []) :
    s.advance.passed = s.current :: s.passed := by
  unfold advance
  split
  next hahead => exact absurd hahead h
  next => rfl

end TokenStream

/-- Whether the closer of a block is missed at the end of the text. -/
def Problem.IsMissedAtEnd : Problem → Prop
  | .missingCloser _ got => got.kind = .lexeme .endOfFile
  | _ => False

namespace Grammar

/-- Where a text is read once more. -/
structure Placement where
  /-- How far down the text stands there. -/
  relocation : Relocation := {}
  /-- What has been read there before. -/
  base : State
  /-- What stands there in the place of the end marker, if there is anything. -/
  tail? : Option TokenStream := none
  /-- The first token of that, where the header of a procedure is to end the blocks of the text. -/
  header? : Option Token := none
  /-- What follows starts with the header. -/
  startsWithHeader : ∀ header ∈ header?, ∃ tail ∈ tail?, tail.current = header ∧
    header.kind.isTrivia = false ∧ Lookahead.startsProcedure tail.rest = true := by simp
  /-- What has been read before is no part of a node that is opened in the text. -/
  innermost : base.InnermostInRow

namespace Placement

variable (P : Placement)

/-- Whether the text is followed by others. -/
def IsOpen : Prop := P.tail? ≠ none

/-- The tokens from the cursor on, at the other place. -/
def rest (tokens : List Token) : List Token :=
  match P.tail? with
  | none => tokens.map P.relocation.token
  | some tail => tokens.dropLast.map P.relocation.token ++ tail.rest

/-- A header follows only a text that is followed by others. -/
theorem header?_eq_none (h : ¬ P.IsOpen) : P.header? = none := by
  refine Option.eq_none_iff_forall_not_mem.mpr fun header hheader => h ?_
  obtain ⟨tail, htail, -⟩ := P.startsWithHeader header hheader
  simp [IsOpen, Option.mem_def.mp htail]

/-- Of a source that is not empty something is placed. -/
theorem rest_ne_nil {tokens : List Token} (h : tokens ≠ []) : P.rest tokens ≠ [] := by
  unfold rest
  split
  · simpa using h
  · simp [TokenStream.rest_ne_nil]

/-- What is placed ends with the end marker. -/
theorem getLast_rest {tokens : List Token} (h : tokens ≠ [])
    (hends : (tokens.getLast h).kind = .lexeme .endOfFile) :
    ((P.rest tokens).getLast (P.rest_ne_nil h)).kind = .lexeme .endOfFile := by
  have hlast (l : List Token) (hl : l = P.rest tokens) (hne : l ≠ []) :
      (l.getLast hne).kind = .lexeme .endOfFile := by
    unfold rest at hl
    split at hl
    · subst hl
      rw [List.getLast_map]
      exact hends
    next tail _ =>
      subst hl
      rw [List.getLast_append_of_ne_nil hne tail.rest_ne_nil]
      exact tail.ends
  exact hlast _ rfl _

/-- The first token is placed, and then the others. -/
theorem rest_cons (t : Token) {tokens : List Token} (h : tokens ≠ []) :
    P.rest (t :: tokens) = P.relocation.token t :: P.rest tokens := by
  unfold rest
  split
  · rfl
  · rw [List.dropLast_cons_of_ne_nil h]
    rfl

/-- A stream at the other place. -/
def stream (s : TokenStream) : TokenStream :=
  .between (s.passed.map P.relocation.token ++ P.base.stream.passed) (P.rest s.rest)
    (P.rest_ne_nil s.rest_ne_nil) (P.getLast_rest s.rest_ne_nil s.ends)

/-- What is placed of a stream is its rest. -/
@[simp]
theorem rest_stream (s : TokenStream) : (P.stream s).rest = P.rest s.rest :=
  TokenStream.rest_between ..

/-- A stream is placed where it is moved. -/
theorem stream_advance {s : TokenStream} (h : s.ahead ≠ []) :
    (P.stream s).advance = P.stream s.advance := by
  have hrest := TokenStream.rest_advance h
  have hplaced : (P.stream s).rest = P.relocation.token s.current :: P.rest s.advance.rest := by
    rw [rest_stream, hrest, P.rest_cons _ s.advance.rest_ne_nil]
  have hcurrent : (P.stream s).current = P.relocation.token s.current :=
    TokenStream.current_of_rest hplaced
  have hahead : (P.stream s).ahead ≠ [] := by
    rw [(List.cons.inj hplaced).2]
    exact P.rest_ne_nil s.advance.rest_ne_nil
  have hadvance := TokenStream.rest_advance hahead
  rw [hplaced, hcurrent] at hadvance
  refine TokenStream.eq_of_passed_eq_of_rest_eq ?_ ?_
  · rw [TokenStream.passed_advance hahead, hcurrent]
    change _ = s.advance.passed.map _ ++ _
    rw [TokenStream.passed_advance h]
    rfl
  · rw [rest_stream, (List.cons.inj hadvance).2]

/-- A node at the other place. -/
def openNode (n : OpenNode) : OpenNode :=
  { n with first := n.first + P.base.builder.pending.size }

/-- A tree under construction at the other place. -/
def builder (b : Builder) : Builder where
  opened := b.opened.map P.openNode ++ P.base.builder.opened
  pending := P.base.builder.pending ++ b.pending.map P.relocation.tree
  anchor := P.relocation.anchor b.anchor

/-- A failure at the other place. A closer that is missed at the end of the text is missed there at
the header that follows, if one does. -/
def failure (f : Failure) : Failure :=
  match P.header?, f.problem with
  | some header, .missingCloser block got =>
    if got.kind = .lexeme .endOfFile then .atToken (.missingCloser block header) header
    else P.relocation.failure f
  | _, _ => P.relocation.failure f

/-- An event at the other place. -/
def event : Event → Event
  | .began activity t => .began activity (P.relocation.token t)
  | .failed f => .failed (P.failure f)

/-- Why a list of statements ends at the other place. -/
def stop : Stop → Stop
  | .endOfInput => if P.header?.isSome then .procedureHeader else .endOfInput
  | stop => stop

/-- A state at the other place. -/
@[reducible]
def state (s : State) : State where
  stream := P.stream s.stream
  builder := P.builder s.builder
  failures := P.base.failures ++ s.failures.map P.failure
  recovering := s.recovering
  lineMode := s.lineMode
  pendingNext := s.pendingNext
  blocks := s.blocks
  withTargets := s.withTargets.map (Option.map P.relocation.tree)
  implicitTargets := P.base.implicitTargets ++ s.implicitTargets.map P.relocation.target
  lastSeparator := s.lastSeparator
  log := P.base.log ++ s.log.map P.event

end Placement

namespace Placement

variable (P : Placement) {s : State}

/-- Where no header follows, failures are relocated. -/
theorem failure_eq (h : P.header? = none) : P.failure = P.relocation.failure := by
  funext f
  unfold failure
  rw [h]

/-- Where no header follows, events are relocated. -/
theorem event_eq (h : P.header? = none) : P.event = P.relocation.event := by
  funext e
  cases e with
  | began activity t => rfl
  | failed f => rw [event, P.failure_eq h, Relocation.event]

/-- A failure is relocated unless it is a closer that is missed at the end. -/
theorem failure_atToken {problem : Problem} (t : Token)
    (h : ¬ problem.IsMissedAtEnd) :
    P.failure (.atToken problem t) =
      .atToken (P.relocation.problem problem) (P.relocation.token t) := by
  unfold failure
  split
  next header block got _ hproblem =>
    obtain rfl : problem = .missingCloser block got := hproblem
    exact (if_neg h).trans (P.relocation.atToken_problem _ t).symm
  next => rw [P.relocation.atToken_problem]

/-- A closer that is missed at the end is missed at the header. -/
theorem failure_missingCloser {header : Token} (h : P.header? = some header) (block : Block)
    {got : Token} (hgot : got.kind = .lexeme .endOfFile) (t : Token) :
    P.failure (.atToken (.missingCloser block got) t) =
      .atToken (.missingCloser block header) header := by
  unfold failure
  rw [h]
  exact if_pos hgot

/-- Where no header follows, lists end for the same reasons. -/
theorem stop_eq (h : P.header? = none) (stop : Stop) : P.stop stop = stop := by
  cases stop <;> try rfl
  unfold Placement.stop
  rw [h]
  rfl

/-- Where a header follows, it ends what the end of the text ends. -/
theorem stop_endOfInput {header : Token} (h : header ∈ P.header?) :
    P.stop .endOfInput = .procedureHeader := by
  unfold Placement.stop
  rw [Option.mem_def.mp h]
  rfl

/-- Moving a token that both readings have at the cursor. -/
theorem state_shifted (hahead : s.stream.ahead ≠ []) :
    (P.state s).shifted = P.state s.shifted := by
  have hcurrent : (P.stream s.stream).current = P.relocation.token s.stream.current := by
    have hrest := P.rest_stream s.stream
    rw [TokenStream.rest_advance hahead, P.rest_cons _ (TokenStream.rest_ne_nil _)] at hrest
    exact TokenStream.current_of_rest hrest
  have hbuilder : (P.builder s.builder).token (P.stream s.stream).current =
      P.builder (s.builder.token s.stream.current) := by
    rw [hcurrent]
    simp [Builder.token, builder, Relocation.tree, Relocation.stop_token]
  simp only [State.shifted, P.stream_advance hahead, hbuilder]

/-- To open a node is the same where the text is placed. -/
theorem state_opening (k : NodeKind) : (P.state s).opening k = P.state (s.opening k) := by
  simp [State.opening, Builder.startNode, builder, openNode, Nat.add_comm]

/-- A checkpoint at the other place. -/
@[reducible]
def checkpoint (cp : Checkpoint) : Checkpoint := ⟨cp.index + P.base.builder.pending.size⟩

/-- To open a node at a checkpoint is the same where the text is placed. -/
theorem state_openingAt (cp : Checkpoint) (k : NodeKind) :
    (P.state s).openingAt (P.checkpoint cp) k = P.state (s.openingAt cp k) := by
  have hclamp : (P.builder s.builder).clamp (P.checkpoint cp) =
      s.builder.clamp cp + P.base.builder.pending.size := by
    have hinnermost : P.base.builder.innermostFirst ≤ P.base.builder.pending.size := P.innermost
    have hsize : (P.builder s.builder).pending.size =
        s.builder.pending.size + P.base.builder.pending.size := by
      simp [builder, Nat.add_comm]
    have hfirst : (P.builder s.builder).innermostFirst =
        if s.builder.opened = [] then P.base.builder.innermostFirst
        else s.builder.innermostFirst + P.base.builder.pending.size := by
      unfold Builder.innermostFirst builder
      cases s.builder.opened <;> rfl
    simp only [Builder.clamp, hsize, hfirst]
    split
    next hnil =>
      have hzero : s.builder.innermostFirst = 0 := by simp [Builder.innermostFirst, hnil]
      omega
    next => omega
  simp [State.openingAt, Builder.startNodeAt, hclamp]
  simp [builder, openNode]

/-- Closing a node that both readings have opened. -/
theorem finishNode_builder {b : Builder} {n : OpenNode} {outer : List OpenNode}
    (h : b.opened = n :: outer) :
    (P.builder b).finishNode =
      (b.finishNode.1.map P.relocation.tree, P.builder b.finishNode.2) := by
  -- the trees of the base stand in front of the row, so a node starts further on by their number
  have hopened :
      (P.builder b).opened = P.openNode n :: (outer.map P.openNode ++ P.base.builder.opened) := by
    simp [builder, h]
  have hdrop : (P.builder b).pending.toList.drop (P.openNode n).first =
      (b.pending.toList.drop n.first).map P.relocation.tree := by
    simp [builder, openNode, List.drop_append]
  have htake : (P.builder b).pending.toList.take (P.openNode n).first =
      P.base.builder.pending.toList ++ (b.pending.toList.take n.first).map P.relocation.tree := by
    have hbase : P.base.builder.pending.toList.take (n.first + P.base.builder.pending.size) =
        P.base.builder.pending.toList := List.take_of_length_le (by simp)
    simp [builder, openNode, List.take_append, hbase]
  have hnode : Tree.above (P.openNode n).kind (P.builder b).anchor
      ((P.builder b).pending.toList.drop (P.openNode n).first) =
        P.relocation.tree (.above n.kind b.anchor (b.pending.toList.drop n.first)) := by
    rw [hdrop, P.relocation.tree_above]
    rfl
  have hpending : (P.builder b).finishNode.2.pending = (P.builder b.finishNode.2).pending := by
    apply Array.toList_inj.mp
    rw [Builder.pending_finishNode hopened, htake, hnode]
    simp [builder, Builder.pending_finishNode h]
  have hrest : (P.builder b).finishNode.2.opened = (P.builder b.finishNode.2).opened := by
    rw [Builder.opened_finishNode hopened]
    simp [builder, Builder.opened_finishNode h]
  have hanchor : (P.builder b).finishNode.2.anchor = (P.builder b.finishNode.2).anchor := by
    simp [builder]
  refine Prod.ext ?_ ?_
  · rw [Builder.finishNode_fst hopened, Builder.finishNode_fst h, hnode]
    rfl
  · generalize (P.builder b).finishNode.2 = c at hpending hrest hanchor
    cases c
    simp only at hpending hrest hanchor
    rw [hpending, hrest, hanchor]

end Placement

/-- What productions give can be placed, too. -/
class Placeable (α : Type) where
  /-- The value at the other place. -/
  place : Placement → α → α

export Placeable (place)

section

variable {α β : Type}

instance : Placeable Unit := ⟨fun _ a => a⟩

instance : Placeable Bool := ⟨fun _ a => a⟩

instance : Placeable Nat := ⟨fun _ a => a⟩

instance : Placeable Kind := ⟨fun _ a => a⟩

instance : Placeable Bytes := ⟨fun _ a => a⟩

instance : Placeable Stop := ⟨fun P a => P.stop a⟩

instance : Placeable (Option Closer) := ⟨fun _ a => a⟩

instance : Placeable (Option Block) := ⟨fun _ a => a⟩

instance : Placeable Token := ⟨fun P t => P.relocation.token t⟩

instance : Placeable (Option Tree) := ⟨fun P t? => t?.map P.relocation.tree⟩

instance : Placeable Checkpoint := ⟨fun P cp => P.checkpoint cp⟩

instance : Placeable State := ⟨fun P s => P.state s⟩

instance [Placeable α] [Placeable β] : Placeable (Pass α β) :=
  ⟨fun P r =>
    match r with
    | .again a => .again (place P a)
    | .done b => .done (place P b)⟩

end

/-- A list ends before the closer of its block in both readings, or in none. -/
@[simp]
theorem place_stop_beq_ownCloser (P : Placement) (stop : Stop) :
    (place P stop == .ownCloser) = (stop == .ownCloser) := by
  cases stop <;> try rfl
  change (P.stop .endOfInput == .ownCloser) = _
  unfold Placement.stop
  dsimp only
  split <;> rfl

/-- Whether two productions lead from a state and its image to a state and its image. -/
def Placement.Agrees (P : Placement) {α : Type} [Placeable α] (p q : Production α) (s : State) :
    Prop :=
  q.run (P.state s) = (place P (p.run s).1, P.state (p.run s).2)

/-! ## Lines -/

/-- Whether the last line of a stream is ended by a line break, unless nothing is left of it. -/
def State.EndsInBreak (s : State) : Prop :=
  ∀ t ∈ s.stream.rest.dropLast.getLast?, t.kind = .trivia .newline

/-- Whether a text can be placed from a state on: only its last token is an end marker, and where it
is followed by others its last line is ended. -/
structure Placement.Admits (P : Placement) (s : State) : Prop where
  sound : s.stream.Sound
  endsInBreak : P.IsOpen → s.EndsInBreak

/-- A text that ends in a line break still does so once a part of it has been read. -/
theorem State.Follows.endsInBreak {s t : State} (h : s.Follows t) (hs : s.EndsInBreak) :
    t.EndsInBreak := by
  refine fun u hu => hs u ?_
  obtain ⟨moved, hrest, -⟩ := h.moved
  rw [hrest, List.dropLast_append_of_ne_nil t.stream.rest_ne_nil, List.getLast?_append]
  simp [Option.mem_def.mp hu]

/-- Where a text may be placed it may be so once a part of it has been read. -/
theorem Placement.Admits.of_follows {P : Placement} {s t : State} (hs : P.Admits s)
    (h : s.Follows t) : P.Admits t :=
  ⟨h.sound hs.sound, fun hopen => h.endsInBreak (hs.endsInBreak hopen)⟩

/-- Away from the end of a text that is followed by others, both readings have the same line
ahead. -/
theorem Placement.Admits.sameLine {P : Placement} {s : State} (hs : P.Admits s)
    (hend : P.IsOpen → ¬ s.AtEnd) :
    SameLine P.relocation s.stream.rest (P.stream s.stream).rest := by
  rw [rest_stream, Placement.rest]
  split
  next => exact s.stream.sameLine_map P.relocation
  next tail htail =>
    obtain ⟨tokens, last, hrest⟩ : ∃ tokens last, s.stream.rest = tokens ++ [last] :=
      ⟨_, _, (List.dropLast_concat_getLast s.stream.rest_ne_nil).symm⟩
    have hopen : P.IsOpen := by simp [IsOpen, htail]
    have hne : tokens ≠ [] := by
      rintro rfl
      exact TokenStream.ahead_ne_nil (hend hopen) (List.cons.inj hrest).2
    have hbreak := hs.endsInBreak hopen (tokens.getLast hne)
      (by rw [hrest, List.dropLast_concat]; exact List.getLast?_eq_some_getLast hne)
    obtain ⟨front, t, rfl⟩ : ∃ front t, tokens = front ++ [t] :=
      ⟨_, _, (List.dropLast_concat_getLast hne).symm⟩
    replace hbreak : t.kind = .trivia .newline := by simpa using hbreak
    rw [hrest, List.dropLast_concat, List.map_append, List.append_assoc, List.append_assoc]
    exact .append (.inl hbreak) front [last] tail.rest

end Grammar

end LosslessBasic
