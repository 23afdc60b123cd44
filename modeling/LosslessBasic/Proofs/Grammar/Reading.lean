import LosslessBasic.Proofs.Grammar.Termination

/-!
# Reading given tokens

What the moves make of a state whose next tokens are known. `State.past` is the state behind some of
them, with the trees they have become; moves and nodes are equations between such states, and two
readings one after the other are one.
-/

namespace LosslessBasic

namespace TokenStream

/-- To go on by two distances is to go on by one and then by the other. -/
theorem forward_add (s : TokenStream) (m n : Nat) :
    s.forward (m + n) = (s.forward m).forward n := by
  induction m generalizing s with
  | zero => simp [forward]
  | succ m ih => rw [Nat.succ_add, forward, forward, ih]

/-- Moving on past the first tokens leaves the others. -/
theorem rest_forward {s : TokenStream} {tokens rest : List Token} (h : s.rest = tokens ++ rest)
    (hrest : rest ≠ []) : (s.forward tokens.length).rest = rest := by
  induction tokens generalizing s with
  | nil => exact h
  | cons t tokens ih =>
    have hahead : s.ahead = tokens ++ rest := (List.cons.inj h).2
    have hne : s.ahead ≠ [] := by simp [hahead, hrest]
    have hadvance := rest_advance hne
    rw [List.length_cons, forward]
    refine ih ?_
    rw [h, List.cons_append, List.cons.injEq] at hadvance
    exact hadvance.2.symm

/-- The first token of the rest is the current one. -/
theorem current_of_rest {s : TokenStream} {t : Token} {rest : List Token} (h : s.rest = t :: rest) :
    s.current = t :=
  (List.cons.inj h).1

/-- What comes next stands behind the inline trivia. -/
theorem peekSignificant_zero_of_rest {s : TokenStream} {blanks : List Token} {t : Token}
    {rest : List Token} (hblanks : ∀ u ∈ blanks, u.kind.isInlineTrivia = true)
    (ht : t.kind.isInlineTrivia = false) (h : s.rest = blanks ++ t :: rest) :
    s.peekSignificant 0 = t := by
  have hfilter : blanks.filter isSolid = [] := by
    rw [List.filter_eq_nil_iff]
    intro u hu
    simp [isSolid, hblanks u hu]
  rw [peekSignificant_eq, h, List.filter_append, hfilter, List.nil_append,
    List.filter_cons_of_pos (by simp [isSolid, ht])]
  rfl

end TokenStream

namespace Grammar

/-- Tokens of inline trivia. -/
structure Blanks where
  /-- The tokens. -/
  tokens : List Token
  /-- All of them are inline trivia. -/
  inline : ∀ t ∈ tokens, t.kind.isInlineTrivia = true

/-- No tokens. -/
def Blanks.none : Blanks := ⟨[], by simp⟩

namespace State

/-- The state behind some tokens, which have become the given trees. -/
def past (s : State) (tokens : List Token) (trees : List Tree) : State :=
  { s with
    stream := s.stream.forward tokens.length
    builder :=
      { s.builder with
        pending := s.builder.pending ++ trees.toArray
        anchor := tokens.foldl (fun _ t => { offset := t.stop, loc := t.loc }) s.builder.anchor } }

/-- To go past some tokens and then past others is to go past all of them. -/
theorem past_past (s : State) (tokens tokens' : List Token) (trees trees' : List Tree) :
    (s.past tokens trees).past tokens' trees' = s.past (tokens ++ tokens') (trees ++ trees') := by
  simp [past, TokenStream.forward_add]

/-- To go past nothing leaves a state as it is. -/
@[simp]
theorem past_nil (s : State) : s.past [] [] = s := by
  simp [past, TokenStream.forward]

/-- Past some tokens those are ahead that follow them. -/
theorem rest_past {s : State} {tokens rest : List Token} (h : s.stream.rest = tokens ++ rest)
    (hrest : rest ≠ []) (trees : List Tree) : (s.past tokens trees).stream.rest = rest :=
  TokenStream.rest_forward h hrest

/-- Past one token those are ahead that follow it. -/
theorem rest_past_singleton {s : State} {t : Token} {rest : List Token}
    (h : s.stream.rest = t :: rest) (hrest : rest ≠ []) (trees : List Tree) :
    (s.past [t] trees).stream.rest = rest :=
  rest_past h hrest trees

/-- What has been read is ahead no longer. -/
theorem remaining_past {s : State} {tokens rest : List Token} (h : s.stream.rest = tokens ++ rest)
    (hrest : rest ≠ []) (trees : List Tree) :
    (s.past tokens trees).stream.remaining + tokens.length = s.stream.remaining := by
  have hlength := congrArg List.length (rest_past h hrest trees)
  have hlength' := congrArg List.length h
  rw [List.length_append] at hlength'
  rw [TokenStream.length_rest] at hlength hlength'
  omega

/-- Whether the innermost open node starts within the row. -/
def InnermostInRow (s : State) : Prop := s.builder.innermostFirst ≤ s.builder.pending.size

/-- Past some tokens the innermost open node still starts in the row. -/
theorem InnermostInRow.past {s : State} (h : s.InnermostInRow) (tokens : List Token)
    (trees : List Tree) : (s.past tokens trees).InnermostInRow := by
  have hsize :
      (s.builder.pending ++ trees.toArray).size = s.builder.pending.size + trees.length := by
    simp
  change s.builder.innermostFirst ≤ (s.builder.pending ++ trees.toArray).size
  have hs : s.builder.innermostFirst ≤ s.builder.pending.size := h
  omega

/-- A node that is opened starts in the row. -/
theorem innermostInRow_opening (s : State) (k : NodeKind) : (s.opening k).InnermostInRow :=
  Nat.le_refl _

end State

/-! ## Moves -/

variable {s : State} {tokens rest : List Token} {trees : List Tree}

/-- To shift is to go past one token. -/
theorem run_shift_past {t : Token} (h : s.stream.rest = t :: rest)
    (ht : t.kind ≠ .lexeme .endOfFile) : shift.run s = ((), s.past [t] [.leaf t]) := by
  have hcurrent := TokenStream.current_of_rest h
  rw [run_shift (by rwa [hcurrent]), State.shifted, hcurrent]
  simp [State.past, Builder.token, TokenStream.forward]

/-- To skip blanks is to go past them. -/
theorem run_skipBlanks_past (blanks : Blanks) {t : Token} (ht : t.kind.isInlineTrivia = false)
    (h : s.stream.rest = blanks.tokens ++ t :: rest) :
    skipBlanks.run s = ((), s.past blanks.tokens (blanks.tokens.map .leaf)) := by
  obtain ⟨tokens, hinline⟩ := blanks
  dsimp only at h ⊢
  induction tokens generalizing s with
  | nil =>
    have hcurrent : s.stream.current = t := TokenStream.current_of_rest h
    rw [run_skipBlanks_of_significant (by rw [hcurrent, ht])]
    simp
  | cons u tokens ih =>
    have hcurrent : s.stream.current = u := TokenStream.current_of_rest h
    have hu : u.kind.isInlineTrivia = true := hinline u (List.mem_cons_self ..)
    have hend : u.kind ≠ .lexeme .endOfFile := fun hend => by rw [hend] at hu; cases hu
    have hblank : ((look (·.current.kind.isInlineTrivia)).run s).1 = true := by
      rw [run_look, hcurrent, hu]
    unfold skipBlanks at ih ⊢
    rw [run_repeatWhile_of_true hblank, run_shift_past h hend]
    have hrest : (s.past [u] [.leaf u]).stream.rest = tokens ++ t :: rest :=
      State.rest_past_singleton h (by simp) _
    rw [ih (fun v hv => hinline v (List.mem_cons_of_mem _ hv)) hrest, State.past_past]
    simp

/-- To shift the next word is to go past the blanks in front of it and the word. -/
theorem run_shiftNext_past (blanks : Blanks) {t : Token} (ht : t.kind.isInlineTrivia = false)
    (hend : t.kind ≠ .lexeme .endOfFile) (h : s.stream.rest = blanks.tokens ++ t :: rest) :
    shiftNext.run s =
      ((), s.past (blanks.tokens ++ [t]) (blanks.tokens.map .leaf ++ [.leaf t])) := by
  unfold shiftNext
  rw [run_bind, run_skipBlanks_past blanks ht h,
    run_shift_past (State.rest_past h (by simp) _) hend, State.past_past]

/-! ## Nodes -/

/-- A node that was opened before some trees and is closed behind them is over them. -/
theorem finishNode_past {n : OpenNode} {outer : List OpenNode} {b : Builder}
    (hopened : b.opened = n :: outer) {front : Array Tree}
    (hpending : b.pending = front ++ trees.toArray) (hfirst : n.first = front.size)
    (htrees : trees ≠ []) :
    b.finishNode = (some (.above n.kind {} trees),
      { b with opened := outer, pending := front ++ [Tree.above n.kind {} trees].toArray }) := by
  obtain ⟨t, trees, rfl⟩ := List.exists_cons_of_ne_nil htrees
  have hdrop : b.pending.toList.drop n.first = t :: trees := by simp [hpending, hfirst]
  have htake : b.pending.toList.take n.first = front.toList := by simp [hpending, hfirst]
  have hfst := b.finishNode_fst hopened
  rw [hdrop] at hfst
  have hrow : b.finishNode.2.pending =
      front ++ [Tree.above n.kind {} (t :: trees)].toArray := by
    apply Array.toList_inj.mp
    rw [Builder.pending_finishNode hopened, htake, hdrop]
    simp [Tree.above]
  refine Prod.ext hfst ?_
  have hanchor := b.anchor_finishNode
  have hopened' := Builder.opened_finishNode hopened
  generalize b.finishNode.2 = c at hrow hanchor hopened'
  cases c
  simp_all

/-- A node around what is passed is passed with it. -/
theorem run_within_past {k : NodeKind} {body : Production Unit} {separator : Separator}
    (htrees : trees ≠ [])
    (h : body.run (s.opening k) =
      ((), { (s.opening k).past tokens trees with lastSeparator := separator })) :
    (within k body).run s =
      ((), { s.past tokens [.above (.node k) {} trees] with lastSeparator := separator }) := by
  rw [run_within, h, State.closing,
    finishNode_past (n := { kind := .node k, first := _ }) rfl rfl rfl htrees]
  rfl

/-- A node around what is passed is given back as it stands. -/
theorem run_composite_past {k : NodeKind} {body : Production Unit} (htrees : trees ≠ [])
    (h : body.run (s.opening k) = ((), (s.opening k).past tokens trees)) :
    (composite k body).run s =
      (some (.above (.node k) {} trees), s.past tokens [.above (.node k) {} trees]) := by
  rw [run_composite, h, State.closing,
    finishNode_past (n := { kind := .node k, first := _ }) rfl rfl rfl htrees]
  rfl

/-- A node that adopts what was read since a checkpoint is over it. -/
theorem run_compositeFrom_past (hs : s.InnermostInRow) (k : NodeKind) (tokens : List Token)
    (htrees : trees ≠ []) :
    (compositeFrom s.builder.checkpoint k (pure ())).run (s.past tokens trees) =
      (some (.above (.node k) {} trees), s.past tokens [.above (.node k) {} trees]) := by
  have hclamp : (s.past tokens trees).builder.clamp s.builder.checkpoint =
      s.builder.pending.size := by
    have hsize :
        (s.past tokens trees).builder.pending.size = s.builder.pending.size + trees.length := by
      simp [State.past]
    have hfirst : (s.past tokens trees).builder.innermostFirst ≤ s.builder.pending.size := hs
    simp only [Builder.clamp, Builder.checkpoint]
    omega
  rw [run_compositeFrom, run_pure, State.closing,
    finishNode_past (n := { kind := .node k, first := _ }) rfl rfl hclamp htrees]
  rfl

end Grammar

end LosslessBasic
