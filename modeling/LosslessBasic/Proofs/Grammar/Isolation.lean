import LosslessBasic.Proofs.Grammar.Dispatch
import LosslessBasic.Proofs.Grammar.Forest
import LosslessBasic.Proofs.Tree.Ending

/-!
# Reading a line by itself

What a production does to a line in the middle of a source is what it does to the same line by
itself, in front of nothing but the end marker. By itself a line is small enough to be read by
evaluation, whatever its tokens are written like and wherever they stand: `State.onLine` is the
state in front of it, with only the kinds of the tokens known, and `Digest` is what the reading is
asked for.

## Main results

* `Carries.reads`: the line in its source, from the digest of the line by itself.
-/

namespace LosslessBasic.Grammar

/-! ## Lines by themselves -/

/-- A line in front of the end marker. -/
def lineStream (line : List Token) : TokenStream :=
  .between [] (line ++ [({} : Token)]) (by simp) (by
    rw [List.getLast_append_of_ne_nil _ (List.cons_ne_nil _ _)]
    rfl)

/-- The rest of the stream of a line is the line and its end marker. -/
theorem rest_lineStream (line : List Token) : (lineStream line).rest = line ++ [({} : Token)] :=
  TokenStream.rest_between ..

/-- The state in front of a line by itself, with an anchor and a context from elsewhere. -/
def State.onLine (line : List Token) (a : Anchor) (blocks : List Block)
    (targets : List (Option Tree)) (separator : Separator) : State where
  stream := lineStream line
  builder := { anchor := a }
  blocks := blocks
  withTargets := targets
  lastSeparator := separator

/-- Tokens of the given kinds. What else there is to them is taken from other tokens. -/
def tokensOfKinds : List Kind → (Nat → Token) → List Token
  | [], _ => []
  | kind :: kinds, tokens =>
    { tokens 0 with kind := kind } :: tokensOfKinds kinds fun i => tokens (i + 1)

/-- Any tokens are tokens of their kinds. -/
theorem exists_tokensOfKinds (line : List Token) :
    ∃ tokens, line = tokensOfKinds (line.map Token.kind) tokens := by
  induction line with
  | nil => exact ⟨fun _ => {}, rfl⟩
  | cons t line ih =>
    obtain ⟨tokens, htokens⟩ := ih
    refine ⟨fun i => if i = 0 then t else tokens (i - 1), ?_⟩
    simpa [tokensOfKinds] using htokens

/-- What is asked of the reading of a line. -/
structure Digest where
  /-- The number of tokens that are left. -/
  remaining : Nat
  /-- What separates the next statement from the one before. -/
  separator : Separator
  /-- The number of failures. -/
  failures : Nat := 0
  /-- Whether the current statement has failed. -/
  recovering : Bool := false
  /-- The number of loops that are still to be closed. -/
  pendingNext : Nat := 0
  /-- How the blocks in what has been read are nested. -/
  nesting : List Nesting := []
  /-- A node of unknown meaning in it. -/
  unknown? : Option Tree := none

/-- The digest of a state. -/
def State.digest (s : State) : Digest where
  remaining := s.stream.remaining
  separator := s.lastSeparator
  failures := s.failures.size
  recovering := s.recovering
  pendingNext := s.pendingNext
  nesting := Tree.nestingAll s.builder.pending.toList
  unknown? := Tree.findIn? (.node .unknown) s.builder.pending.toList

/-- Whether a line by itself, behind `before`, is read up to its last `remaining` tokens without a
failure, a block or a node of unknown meaning, whatever its tokens are written like, wherever they
stand and whatever is open around the line. With `inWith` that is asked only where a `With` is
open. -/
def Digests {α : Type} (inWith : Bool) (p : Production α) (kinds : List Kind) (before : Separator)
    (remaining : Nat) (behind : Separator) : Prop :=
  ∀ tokens a blocks targets, (inWith = true → targets ≠ []) →
    (p.run (.onLine (tokensOfKinds kinds tokens) a blocks targets before)).2.digest =
      { remaining := remaining, separator := behind }

/-- What is read without an open `With` is read with one. -/
theorem Digests.any {α : Type} {p : Production α} {kinds : List Kind} {before behind : Separator}
    {remaining : Nat} (h : Digests false p kinds before remaining behind) (inWith : Bool) :
    Digests inWith p kinds before remaining behind := fun tokens a blocks targets _ =>
  h tokens a blocks targets (by simp)

/-! ## What has been read -/

/-- A state in which nothing has gone wrong with the current statement, outside of a single-line
`If` and with no loop still to be closed. -/
structure State.Calm (s : State) : Prop where
  recovering : s.recovering = false
  lineMode : s.lineMode = 0
  pendingNext : s.pendingNext = 0
  innermost : s.InnermostInRow
  sound : s.stream.Sound

/-- Between two states trees have been added without a failure and without a node of unknown
meaning, and their blocks are nested as given. -/
structure State.Reads (s : State) (nesting : List Nesting) (t : State) : Prop where
  added : ∃ trees, s.Adds trees t ∧ Tree.nestingAll trees = nesting ∧
    Tree.findIn? (.node .unknown) trees = none
  failures : t.failures = s.failures
  recovering : t.recovering = false
  pendingNext : t.pendingNext = 0

namespace State.Reads

variable {s t u : State} {ns ms : List Nesting}

/-- A calm state reads nothing. -/
theorem refl (hs : s.Calm) : s.Reads [] s :=
  ⟨⟨[], .refl s, rfl, rfl⟩, rfl, hs.recovering, hs.pendingNext⟩

/-- What is read in two steps is read in a row. -/
theorem trans (h : s.Reads ns t) (h' : t.Reads ms u) : s.Reads (ns ++ ms) u := by
  obtain ⟨trees, hadds, rfl, hknown⟩ := h.added
  obtain ⟨more, hadds', rfl, hknown'⟩ := h'.added
  exact ⟨⟨trees ++ more, hadds.trans hadds', Tree.nestingAll_append trees more,
    Tree.findIn?_append_eq_none hknown hknown'⟩, h'.failures.trans h.failures, h'.recovering,
    h'.pendingNext⟩

/-- What has been read calmly leaves a calm state. -/
theorem calm (h : s.Reads ns t) (hs : s.Calm) : t.Calm := by
  obtain ⟨trees, hadds, -, -⟩ := h.added
  refine ⟨h.recovering, hadds.context.lineMode.trans hs.lineMode, h.pendingNext,
    hadds.innermostInRow hs.innermost, fun token htoken => hs.sound token ?_⟩
  rw [hadds.rest, List.dropLast_append_of_ne_nil t.stream.rest_ne_nil]
  exact List.mem_append_right _ htoken

/-- What has been read leaves the context as it was. -/
theorem context (h : s.Reads ns t) : s.SameContext t := by
  obtain ⟨trees, hadds, -, -⟩ := h.added
  exact hadds.context

/-- A node around what has been read. -/
theorem closing {k : NodeKind} (h : (s.opening k).Reads ns t) (hs : s.Calm) (hk : k ≠ .unknown) :
    s.Reads (if k.isNest then [.of k ns] else ns) t.closing := by
  obtain ⟨trees, hadds, rfl, hknown⟩ := h.added
  obtain ⟨hclosed, -⟩ := hadds.closing_opening hs.innermost
  have hkind : Kind.node .unknown ≠ .node k := fun heq => hk (Kind.node.inj heq).symm
  refine ⟨⟨_, hclosed, ?_, ?_⟩, h.failures, h.recovering, h.pendingNext⟩
  · simp [Tree.nestingAll, Tree.nesting_above]
  · simp [Tree.findIn?, Tree.find?_above hkind, hknown]

end State.Reads

/-! ## The line in its source -/

section

variable {s : State} {line more : List Token}

/-- What a `With` refers to is not moved by nothing. -/
theorem map_tree_zero (target? : Option Tree) :
    target?.map ({} : Relocation).tree = target? := by
  cases target? with
  | none => rfl
  | some t => exact congrArg some (Relocation.tree_zero t)

/-- The place of a line in its source. -/
theorem exists_placement_of_calm (hs : s.Calm) (hrest : s.stream.rest = line ++ more)
    (hmore : more ≠ []) : ∃ P : Placement, P.IsOpen ∧ P.header? = none ∧ P.relocation = {} ∧
      P.base = s ∧ (∀ tokens, P.rest tokens = tokens.dropLast ++ more) ∧
      P.state (.onLine line s.builder.anchor s.blocks s.withTargets s.lastSeparator) = s := by
  have hends : (more.getLast hmore).kind = .lexeme .endOfFile := by
    have hends : (s.stream.rest.getLast s.stream.rest_ne_nil).kind = .lexeme .endOfFile :=
      s.stream.ends
    simpa [hrest, List.getLast_append_of_ne_nil _ hmore] using hends
  obtain ⟨P, hopen, hheader, hzero, hbase, hrestP⟩ : ∃ P : Placement, P.IsOpen ∧ P.header? = none ∧
      P.relocation = {} ∧ P.base = s ∧ ∀ tokens, P.rest tokens = tokens.dropLast ++ more := by
    refine ⟨{ relocation := {}
              base := s
              tail? := some (.between [] more hmore hends)
              innermost :=
                hs.innermost }, by simp [Placement.IsOpen], rfl, rfl, rfl, fun tokens => ?_⟩
    simp [Placement.rest, List.map_id'' Relocation.token_zero]
  refine ⟨P, hopen, hheader, hzero, hbase, hrestP, ?_⟩
  have hstream : P.stream (lineStream line) = s.stream := by
    refine TokenStream.eq_of_passed_eq_of_rest_eq ?_ ?_
    · change [] ++ P.base.stream.passed = _
      rw [hbase, List.nil_append]
    · rw [P.rest_stream, hrestP, hrest, rest_lineStream, List.dropLast_concat]
  obtain ⟨hrecovering, hlineMode, hpending, -, -⟩ := hs
  simp only [Placement.state, State.onLine, Placement.builder, hstream, hbase, hzero,
    Relocation.anchor_zero, List.map_id'' map_tree_zero]
  cases s
  simp_all

/-- What is left of a line behind some of its tokens, when it is known how many are left. -/
theorem dropLast_rest_eq {s t : TokenStream} {moved front behind : List Token}
    (hs : s.rest = front ++ behind ++ [({} : Token)]) (hmoved : s.rest = moved ++ t.rest)
    (ht : t.remaining = behind.length) : t.rest.dropLast = behind ∧ moved = front := by
  have hsplit : front ++ behind = moved ++ t.rest.dropLast := by
    have hdropLast := congrArg List.dropLast (hs.symm.trans hmoved)
    rwa [List.dropLast_concat, List.dropLast_append_of_ne_nil t.rest_ne_nil] at hdropLast
  have hlength : behind.length = t.rest.dropLast.length := by
    rw [List.length_dropLast, TokenStream.length_rest, ht, Nat.add_sub_cancel]
  obtain ⟨hmoved, hbehind⟩ := List.append_inj' hsplit hlength
  exact ⟨hbehind.symm, hmoved.symm⟩

/-- What is read of a line by itself is read of it in its source. -/
theorem Placement.reads {P : Placement} {alone read : State} (hs : s.Calm) (hbase : P.base = s)
    (hzero : P.relocation = {}) (hrestP : ∀ tokens, P.rest tokens = tokens.dropLast ++ more)
    {front behind : List Token} {separator : Separator}
    (hrest : s.stream.rest = front ++ (behind ++ more))
    (halone : alone = .onLine (front ++ behind) s.builder.anchor s.blocks s.withTargets
      s.lastSeparator)
    (hcontext : alone.SameContext read) (hfollows : alone.Follows read)
    (hdigest : read.digest = { remaining := behind.length, separator := separator }) :
    s.Reads [] (P.state read) ∧ (P.state read).stream.rest = behind ++ more := by
  obtain ⟨moved, hmoved, hleaves⟩ := hfollows.moved
  subst halone
  obtain ⟨hbehind, rfl⟩ := dropLast_rest_eq (rest_lineStream _) hmoved
    (congrArg Digest.remaining hdigest)
  have hplaced : (P.state read).stream.rest = behind ++ more := by
    rw [P.rest_stream, hrestP, hbehind]
  have hadds : s.Adds read.builder.pending.toList (P.state read) := by
    refine ⟨⟨?_, hcontext.blocks, ?_, ?_⟩, ?_, ?_⟩
    · simp [Placement.builder, hcontext.opened, State.onLine, hbase]
    · change read.withTargets.map (Option.map P.relocation.tree) = _
      rw [hzero, List.map_id'' map_tree_zero, hcontext.withTargets]
      rfl
    · exact hcontext.lineMode.trans hs.lineMode.symm
    · simp [Placement.builder, hbase, hzero, List.map_id'' Relocation.tree_zero]
    · rw [hplaced, hleaves, hrest]
      simp [State.onLine, Tree.leavesAll]
  have hfailures : read.failures = #[] :=
    Array.eq_empty_of_size_eq_zero (congrArg Digest.failures hdigest)
  refine ⟨⟨⟨_, hadds, congrArg Digest.nesting hdigest, congrArg Digest.unknown? hdigest⟩, ?_,
    congrArg Digest.recovering hdigest, congrArg Digest.pendingNext hdigest⟩, hplaced⟩
  simp [hfailures, hbase]

/-- A line in its source is read as it is by itself. -/
theorem Carries.reads {α : Type} [Placeable α] {p : Production α} [hcomposed : Composed false p]
    {pre : State → Prop} {post : α → State → Prop} (hp : ∀ P, Carries P pre p p post)
    {inWith : Bool} {kinds : List Kind} {behind : List Token} {separator : Separator}
    (hdigests : Digests inWith p kinds s.lastSeparator behind.length separator) (hs : s.Calm)
    (hwith : inWith = true → s.withTargets ≠ []) {front : List Token}
    (hrest : s.stream.rest = front ++ (behind ++ more)) (hmore : more ≠ [])
    (hkinds : (front ++ behind).map Token.kind = kinds)
    (hbreak : kinds.getLast? = some (.trivia .newline))
    (hpre : pre (.onLine (front ++ behind) s.builder.anchor s.blocks s.withTargets
      s.lastSeparator)) :
    s.Reads [] (p.run s).2 ∧ (p.run s).2.stream.rest = behind ++ more ∧
      (p.run s).2.lastSeparator = separator := by
  have hline : s.stream.rest = (front ++ behind) ++ more := by rw [hrest, List.append_assoc]
  obtain ⟨P, hopen, hheader, hzero, hbase, hrestP, hstart⟩ :=
    exists_placement_of_calm hs hline hmore
  obtain ⟨tokens, htokens⟩ := exists_tokensOfKinds (front ++ behind)
  rw [hkinds] at htokens
  have hdigest := hdigests tokens s.builder.anchor s.blocks s.withTargets hwith
  rw [← htokens] at hdigest
  generalize halone : State.onLine (front ++ behind) s.builder.anchor s.blocks s.withTargets
    s.lastSeparator = alone at hstart hdigest hpre
  have halonerest : alone.stream.rest = front ++ behind ++ [({} : Token)] := by
    rw [← halone]
    exact rest_lineStream _
  -- the line ends with a line break, so it can be placed in the source
  have hadmits : P.Admits alone := by
    refine ⟨fun t ht => hs.sound t ?_, fun _ t ht => ?_⟩
    · rw [halonerest, List.dropLast_concat] at ht
      rw [hline, List.dropLast_append_of_ne_nil hmore]
      exact List.mem_append_left _ ht
    · rw [halonerest, List.dropLast_concat] at ht
      rw [← hkinds, List.getLast?_map, ht] at hbreak
      exact Option.some.inj hbreak
  -- what fails nowhere finds no block open
  have hclosed : ¬ (p.run alone).2.Unclosed := by
    rintro ⟨block, hblock⟩
    have hfailures : (p.run alone).2.failures = #[] :=
      Array.eq_empty_of_size_eq_zero (congrArg Digest.failures hdigest)
    rw [hfailures] at hblock
    cases hblock
  obtain ⟨hagrees, -⟩ := (hp P).carries alone hadmits fun _ =>
    ⟨hpre, .of_not_unclosed hheader hclosed⟩
  unfold Placement.Agrees at hagrees
  rw [hstart] at hagrees
  obtain ⟨hreads, hbehind⟩ := P.reads hs hbase hzero hrestP hrest halone.symm
    (hcomposed.sameContext alone) (hcomposed.follows alone) hdigest
  rw [hagrees]
  exact ⟨hreads, hbehind, congrArg Digest.separator hdigest⟩

end

end LosslessBasic.Grammar
