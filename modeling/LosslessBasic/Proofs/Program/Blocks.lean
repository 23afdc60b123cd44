import LosslessBasic.Proofs.Program.Passes

/-!
# Blocks of lines

What reading a statement of a program comes to, one statement at a time: a simple statement by
itself, and a block if its bodies are read up to their closers.
-/

namespace LosslessBasic.Grammar

open Program

/-! ## Readings -/

/-- Whether a production, from a state on, reads blocks that are nested as given and leads to
`post`. -/
structure State.Takes (s : State) {α : Type} (p : Production α) (nesting : List Nesting)
    (post : α → State → Prop) : Prop where
  reads : s.Reads nesting (p.run s).2
  leads : post (p.run s).1 (p.run s).2

/-- Whether the lines of a body can be read, which stands in a `With` where the parameter says so
and in which blocks are nested less than `depth` deep. -/
structure State.Ready (s : State) (inWith : Bool) (depth : Nat) : Prop where
  calm : s.Calm
  target : inWith = true → s.withTargets ≠ []
  shallow : s.stream.remaining < depth

/-- Whether a text comes next, at the start of a line. -/
structure State.AtLine (s : State) (text : Bytes) : Prop where
  separator : s.lastSeparator = .lineBreak
  before : s.Before text

/-- Whether a body has ended before the closer that a text starts with. -/
structure EndsBefore (text : Bytes) (stop : Stop) (s : State) : Prop where
  stop : stop = .ownCloser
  onText : s.OnText text

section

variable {α β : Type} {p q : Production α} {f : α → Production β} {s t : State}
  {ns ms : List Nesting}
  {post post' mid : α → State → Prop} {w : Bool} {depth : Nat}

/-- What is read is not ahead any more. -/
theorem State.Reads.remaining_le (h : s.Reads ns t) : t.stream.remaining ≤ s.stream.remaining := by
  obtain ⟨trees, hadds, -, -⟩ := h.added
  have hlength := congrArg List.length hadds.rest
  simp only [List.length_append, TokenStream.length_rest] at hlength
  omega

/-- To open a node leaves a state calm. -/
theorem State.Calm.opening (hs : s.Calm) (k : NodeKind) : (s.opening k).Calm :=
  ⟨hs.recovering, hs.lineMode, hs.pendingNext, s.innermostInRow_opening k, hs.sound⟩

/-- To open a node leaves a state ready for a statement. -/
theorem State.Ready.opening (hs : s.Ready w depth) (k : NodeKind) : (s.opening k).Ready w depth :=
  ⟨hs.calm.opening k, hs.target, hs.shallow⟩

/-- Behind a statement the state is ready for the next one. -/
theorem State.Ready.of_reads (hs : s.Ready w depth) (h : s.Reads ns t) : t.Ready w depth where
  calm := h.calm hs.calm
  target hwith := by
    rw [h.context.withTargets]
    exact hs.target hwith
  shallow := Nat.lt_of_le_of_lt h.remaining_le hs.shallow

namespace State.Takes

/-- Less may be asked of what a production leaves. -/
theorem mono (h : s.Takes p ns post) (hpost : ∀ a t, post a t → post' a t) : s.Takes p ns post' :=
  ⟨h.reads, hpost _ _ h.leads⟩

/-- What does nothing takes nothing. -/
theorem pure {a : α} (hs : s.Calm) (h : post a s) : s.Takes (Pure.pure a) [] post := ⟨.refl hs, h⟩

/-- Productions in a row take what the first and then the second takes. -/
theorem bind {post : β → State → Prop} (h : s.Takes p ns mid)
    (h' : ∀ a t, s.Reads ns t → mid a t → t.Takes (f a) ms post) :
    s.Takes (p >>= f) (ns ++ ms) post := by
  obtain ⟨hreads, hleads⟩ := h' _ _ h.reads h.leads
  exact ⟨h.reads.trans hreads, hleads⟩

/-- A production that comes to what another one does from a later state on. -/
theorem behind (hreads : s.Reads ns t) (hrun : p.run s = q.run t) (h : t.Takes q ms post) :
    s.Takes p (ns ++ ms) post :=
  ⟨by rw [hrun]; exact hreads.trans h.reads, by rw [hrun]; exact h.leads⟩

/-- Productions that do the same take the same. -/
theorem of_run_eq (hrun : p.run s = q.run s) (h : s.Takes q ns post) : s.Takes p ns post :=
  ⟨by rw [hrun]; exact h.reads, by rw [hrun]; exact h.leads⟩

/-- A node around blocks keeps them together. -/
theorem within {k : NodeKind} (post : α → State → Prop) (hs : s.Calm) (hk : k ≠ .unknown)
    (h : (s.opening k).Takes p ns post)
    (hpost : ∀ a t, post a t → post' a t.closing) :
    s.Takes (within k p) (if k.isNest then [.of k ns] else ns) post' :=
  ⟨h.reads.closing hs hk, hpost _ _ h.leads⟩

/-- Within a block a production takes what it does outside. -/
theorem inBlock {block : Block} (post : α → State → Prop)
    (h : State.Takes { s with blocks := block :: s.blocks } p ns post)
    (hpost : ∀ a t, post a t → post' a { t with blocks := t.blocks.tail }) :
    s.Takes (inBlock block p) ns post' := by
  obtain ⟨⟨trees, hadds, htrees⟩, hfailures, hrecovering, hpending⟩ := h.reads
  exact ⟨⟨⟨trees, hadds.inBlock, htrees⟩, hfailures, hrecovering, hpending⟩, hpost _ _ h.leads⟩

/-- Within a `With` a production takes what it does outside. -/
theorem inWith {target : Option Tree} (post : α → State → Prop)
    (h : State.Takes { s with withTargets := target :: s.withTargets } p ns post)
    (hpost : ∀ a t, post a t → post' a { t with withTargets := t.withTargets.tail }) :
    s.Takes (inWith target p) ns post' := by
  obtain ⟨⟨trees, hadds, htrees⟩, hfailures, hrecovering, hpending⟩ := h.reads
  exact ⟨⟨⟨trees, hadds.inWith, htrees⟩, hfailures, hrecovering, hpending⟩, hpost _ _ h.leads⟩

end State.Takes

end

/-! ## Single lines -/

section

variable {α : Type} {s : State} {k : Kind} {kinds : List Kind} {text : Bytes} {w : Bool}
  {depth : Nat}

/-- A line that starts with a word is read to its end. -/
theorem State.Ready.takes_line [Placeable α] {p : Production α} [Composed false p]
    [h : ∀ P, Settles P State.OnWord p p] (hs : s.Ready w depth)
    (hline : s.OnLine (k :: kinds) text) (hk : k.isInlineTrivia = false ∧ ¬ EndsLook k)
    (hdigests : Digests w p (k :: kinds ++ [.trivia .newline]) s.lastSeparator 0 .lineBreak) :
    s.Takes p [] fun _ t => t.AtLine text ∧ t.stream.remaining < s.stream.remaining := by
  obtain ⟨hreads, hseparator, hbefore, hlt⟩ :=
    hline.readsAll hs.calm (fun P => (h P).carries) hdigests
    hs.target fun line hline => onWord_onLine hline hk
  exact ⟨hreads, ⟨hseparator, hbefore⟩, hlt⟩

/-- Nothing but the line break is left of a line. -/
theorem State.Ready.takes_lineEnd (hs : s.Ready w depth) (hline : s.OnLine [] text) :
    s.Takes finishStatement [] fun _ t => t.AtLine text := by
  have hfinish (P : Placement) : Settles P State.Inside finishStatement finishStatement :=
    inferInstance
  obtain ⟨hreads, hseparator, hbefore, -⟩ := hline.readsAll hs.calm (fun P => (hfinish P).carries)
    (digests_lineEnd _) (by simp) fun line hline hend => by
      cases line with
      | nil => cases hline
      | cons t line =>
        have hkind : t.kind = .trivia .newline := (List.cons.inj hline).1
        exact absurd (hkind.symm.trans hend) (by simp)
  exact ⟨hreads, hseparator, hbefore⟩

/-- A closer of two words is read to the end of its line. -/
theorem State.Ready.takes_closeBlock {word : Keyword} (hs : s.Ready w depth)
    (hline : s.OnLine (endKinds word) text) :
    s.Takes closeBlock [] fun _ t => t.AtLine text := by
  have hclose (P : Placement) : Settles P State.OnPair closeBlock closeBlock := inferInstance
  obtain ⟨hreads, hseparator, hbefore, -⟩ := hline.readsAll hs.calm (fun P => (hclose P).carries)
    (digests_closeBlock word _) (by simp) fun line hline => by
      unfold State.OnPair
      rw [kind_peekSignificant_onLine (k := .keyword .end_) hline rfl,
        kind_peekSignificant_onLine (k := .keyword word) hline rfl]
      exact ⟨not_endsLook_keyword _, not_endsLook_keyword _⟩
  exact ⟨hreads, hseparator, hbefore⟩

/-- The statement that a keyword at the start of a line opens. -/
theorem run_statementUpTo_keyword {word : Keyword} {p : Production Unit}
    (hrecovering : s.recovering = false) (hword : s.stream.current.kind = .keyword word)
    (hsoft : word.isSoft = false) (hp : keywordStatement? (statementUpTo depth) word = some p) :
    ∃ t : State, (statementUpTo (depth + 1)).run s = p.run t ∧ s.Skips t ∧ t.stream = s.stream := by
  have hopened : openedStatement? (statementUpTo depth) s.stream = some p := by
    unfold openedStatement?
    rw [hword]
    simp [hsoft, hp]
  have hstay : (setRecovering false).run s = ((), s) := by
    change ((), { s with recovering := false }) = _
    rw [← hrecovering]
  refine ⟨{ s with log := s.log.push (.began .statement s.stream.current) }, ?_,
    ⟨⟨[], .of_silent rfl rfl rfl rfl rfl, by simp⟩, rfl, rfl, rfl, rfl⟩, rfl⟩
  unfold statementUpTo statementWith current
  rw [run_bind, hstay, run_bind, run_skipBlanks_of_significant (by rw [hword]; rfl), run_look_bind,
    run_bind]
  refine (run_statementAtCursor _ _).trans ?_
  have hlabel : (atLabel.run ((note .statement s.stream.current).run s).2).1 = false := by
    rw [run_atLabel]
    change startsLabel s.lastSeparator s.stream.current.kind _ = false
    rw [hword]
    cases s.lastSeparator <;> rfl
  unfold statementFor
  rw [hlabel, if_neg Bool.false_ne_true]
  change (Option.getD (openedStatement? _ s.stream) _).run _ = _
  rw [hopened]
  rfl

/-- A statement is read as its keyword says. -/
theorem State.Ready.takes_keyword {p : Production Unit} {ns : List Nesting}
    {post : Unit → State → Prop} (word : Keyword) (hs : s.Ready w (depth + 1))
    (hline : s.OnLine (.keyword word :: kinds) text) (hsoft : word.isSoft = false)
    (hp : keywordStatement? (statementUpTo depth) word = some p)
    (h : ∀ t : State, t.Ready w (depth + 1) → t.lastSeparator = s.lastSeparator →
      t.OnLine (.keyword word :: kinds) text → t.Takes p ns post) :
    s.Takes (statementUpTo (depth + 1)) ns post := by
  obtain ⟨t, hrun, hskips, hstream⟩ := run_statementUpTo_keyword hs.calm.recovering
    (kind_current_of_onLine hline) hsoft hp
  have hreads := hskips.reads hs.calm
  exact .behind hreads hrun
    (h t (hs.of_reads hreads) hskips.lastSeparator (hline.of_stream_eq hstream))

end

/-! ## Bodies -/

/-- Whether a text starts with a line that is a closer. -/
def StartsWithCloser (closer : Closer) (text : Bytes) : Prop :=
  ∃ (m : Margin) (words : String) (word : Keyword) (kinds : List Kind) (second : Kind)
    (more : Bytes),
    text = m.line words ++ more ∧ Lexer.Spells words (.keyword word :: kinds) ∧
      ((Kind.keyword word :: kinds ++ [Kind.trivia .newline]).filter fun k =>
        !k.isInlineTrivia)[1]? =
        some second ∧ Closer.ofKinds? (.keyword word) second = some closer

section

variable {s : State} {closer : Closer} {text following : Bytes} {w : Bool} {depth : Nat}
  {ns : List Nesting}

/-- Before a closer its words come next. -/
theorem State.OnText.exists_closer (h : s.OnText text) (hcloser : StartsWithCloser closer text) :
    ∃ word second, s.stream.current.kind = .keyword word ∧
      (s.stream.peekSignificant 1).kind = second ∧
      Closer.ofKinds? (.keyword word) second = some closer := by
  obtain ⟨m, words, word, kinds, second, more, rfl, hwords, hsecond, hkinds⟩ := hcloser
  have hline := h.onLine hwords (by simp)
  exact ⟨word, second, kind_current_of_onLine hline, kind_peekSignificant_of_onLine hline hsecond,
    hkinds⟩

/-- A body without lines ends where it starts, behind the blanks in front of the closer. -/
theorem State.Ready.takes_statements_nil (hs : s.Ready w depth) (hline : s.AtLine following)
    (hcloser : StartsWithCloser closer following) (hblock : s.blocks.head? = some closer.block) :
    s.Takes (statements (statementUpTo depth)) [] (EndsBefore following) := by
  obtain ⟨t, hrun, hskips, hrest⟩ := run_statements_behindBlanks (statementUpTo depth) hs.calm
  obtain ⟨file, p, hbefore⟩ := hline.before
  have htext : t.OnText following := ⟨file, p, by rw [hrest, hbefore]⟩
  obtain ⟨word, second, hfirst, hsecond, hkinds⟩ := htext.exists_closer hcloser
  have hreads := hskips.reads hs.calm
  have hcalm := hreads.calm hs.calm
  have hends := run_statements_ownCloser (statementUpTo depth) hcalm hfirst hsecond hkinds
    (by rw [hreads.context.blocks, hblock])
  exact .behind hreads (hrun.trans hends) (.pure hcalm ⟨rfl, htext⟩)

/-- A body is read when its statements are. -/
theorem State.Ready.takes_blockBody {block : Block} (hs : s.Ready w depth) (hline : s.AtLine text)
    (h : ∀ t : State, t.Ready w depth → t.AtLine text → t.blocks.head? = some block →
      t.Takes (statements (statementUpTo depth)) ns (EndsBefore following)) :
    s.Takes (blockBody (statementUpTo depth) block) ns (EndsBefore following) := by
  have hbody : s.Takes (inBlock block (within .statementList (statements (statementUpTo depth)))) ns
      (EndsBefore following) := by
    refine .inBlock (EndsBefore following) ?_ fun _ _ h => ⟨h.stop, h.onText⟩
    refine .within (EndsBefore following) ?_ (by simp) ?_ fun _ _ h => ⟨h.stop, h.onText⟩
    · exact ⟨hs.calm.recovering, hs.calm.lineMode, hs.calm.pendingNext, hs.calm.innermost,
        hs.calm.sound⟩
    · refine h _ ?_ ⟨hline.separator, hline.before⟩ rfl
      exact ⟨⟨hs.calm.recovering, hs.calm.lineMode, hs.calm.pendingNext,
        State.innermostInRow_opening _ _, hs.calm.sound⟩, hs.target, hs.shallow⟩
  have hafter (stop : Stop) (t : State) (hreads : s.Reads ns t) (ht : EndsBefore following stop t) :
      t.Takes (do setRecovering false; return stop) [] (EndsBefore following) := by
    have hcalm := hreads.calm hs.calm
    have hstay : (setRecovering false).run t = ((), t) := by
      change ((), { t with recovering := false }) = _
      rw [← hcalm.recovering]
    exact .of_run_eq (q := pure stop) (by rw [run_bind, hstay]) (.pure hcalm ht)
  have hall := hbody.bind hafter
  rw [List.append_nil] at hall
  exact hall

end

/-! ## Blocks with one body -/

instance {P : Placement} :
    Settles P State.Settled (pure none : Production (Option Tree)) (pure none) :=
  ⟨⟨fun _ _ h => ⟨rfl, fun hopen => (h hopen).1⟩⟩⟩

instance {P : Placement} (target : Option Tree) :
    Settles P State.Settled (pure target : Production (Option Tree)) (pure (place P target)) :=
  ⟨⟨fun _ _ h => ⟨rfl, fun hopen => (h hopen).1⟩⟩⟩

end LosslessBasic.Grammar

namespace LosslessBasic.Program.Form

open Grammar

/-- The word that the block starts with. -/
def keyword : Form → Keyword
  | for_ => .for_
  | doWhile | do_ => .do_
  | while_ => .while_
  | with_ => .with_

/-- What the block is called inside. -/
def block : Form → Block
  | for_ => .for_
  | doWhile | do_ => .do_
  | while_ => .while_
  | with_ => .with_

/-- What is around the body. -/
def around {α : Type} (target : Option Tree) (body : Production α) : Form → Production α
  | with_ => inWith target body
  | _ => body

/-- A block whose statements are read by `statement`. -/
def statement (form : Form) (statement : Production Unit) : Production Unit :=
  within form.node do
    let target ← form.header
    let stop ← form.around target (blockBody statement form.block)
    if stop == .ownCloser then form.footer

instance (form : Form) : Composed false form.header := by
  cases form <;> unfold header <;> infer_instance

instance (P : Placement) (form : Form) : Settles P State.OnWord form.header form.header := by
  cases form <;> unfold header <;> infer_instance

/-- Whether the two blocks that start with `For` are told apart is of no concern. -/
theorem run_keywordStatement {form : Form} {s : State} {text : Bytes} (reading : Production Unit)
    (h : s.OnLine form.openingKinds text) :
    ∃ p, keywordStatement? reading form.keyword = some p ∧ p.run s =
      (form.statement reading).run s := by
  cases form with
  | for_ =>
    refine ⟨_, rfl, ?_⟩
    have hsecond := kind_peekSignificant_of_onLine h (n := 1) (k := .lexeme .identifier) rfl
    unfold forStatement secondKind
    rw [run_look_bind, hsecond]
    simp only [statement, header, around, footer, bind_assoc, pure_bind]
    rfl
  | doWhile | do_ =>
    refine ⟨_, rfl, ?_⟩
    simp only [doStatement, statement, header, around, footer, bind_assoc, pure_bind]
    rfl
  | while_ =>
    refine ⟨_, rfl, ?_⟩
    simp only [whileStatement, statement, header, around, footer, bind_assoc, pure_bind]
    rfl
  | with_ =>
    refine ⟨_, rfl, ?_⟩
    simp only [withStatement, statement, header, around, footer, bind_assoc, pure_bind]
    rfl

variable {form : Form} {s : State} {text : Bytes} {w : Bool} {depth : Nat}

/-- The header of a block is taken with its line. -/
theorem takes_header (hs : s.Ready w depth) (hline : s.OnLine form.openingKinds text) :
    s.Takes form.header [] fun _ t => t.AtLine text ∧ t.stream.remaining < s.stream.remaining := by
  have hdigests := digests_header form s.lastSeparator
  cases form <;> exact hs.takes_line hline ⟨rfl, not_endsLook_keyword _⟩ (hdigests.any w)

/-- The footer of a block is taken with its line. -/
theorem takes_footer (hs : s.Ready w depth) (hline : s.OnLine form.closingKinds text) :
    s.Takes form.footer [] fun _ t => t.AtLine text := by
  have hdigests := digests_footer form s.lastSeparator
  -- the last block has a closer of two words, and the first of them is not seen to be in front of
  -- another
  cases form with
  | with_ => exact hs.takes_closeBlock hline
  | for_ | doWhile | do_ | while_ =>
    unfold footer at hdigests ⊢
    exact (hs.takes_line hline ⟨rfl, not_endsLook_keyword _⟩ (hdigests.any w)).mono fun _ _ h => h.1

/-- The line that closes a block starts with its closer. -/
theorem startsWithCloser (form : Form) (foot : Margin) (rest : Bytes) :
    StartsWithCloser { block := form.block } (foot.line form.closing ++ rest) := by
  have hspells := spells_closing form
  cases form <;> exact ⟨foot, _, _, _, _, rest, rfl, hspells, rfl, rfl⟩

/-- The body of a `With` stands in one more `With`. -/
theorem takes_around {ns : List Nesting} {following : Bytes} (target : Option Tree)
    (hs : s.Ready w depth) (hline : s.AtLine text)
    (hbody : ∀ t : State, t.Ready (w || form == .with_) depth → t.AtLine text →
      t.blocks.head? = some form.block →
      t.Takes (statements (statementUpTo depth)) ns (EndsBefore following)) :
    s.Takes (form.around target (blockBody (statementUpTo depth) form.block)) ns
      (EndsBefore following) := by
  cases form with
  | with_ =>
    rw [beq_self_eq_true, Bool.or_true] at hbody
    refine .inWith (EndsBefore following) ?_ fun _ _ h => ⟨h.stop, h.onText⟩
    refine State.Ready.takes_blockBody (w := true) ?_ ⟨hline.separator, hline.before⟩ hbody
    exact ⟨⟨hs.calm.recovering, hs.calm.lineMode, hs.calm.pendingNext, hs.calm.innermost,
      hs.calm.sound⟩, fun _ => List.cons_ne_nil _ _, hs.shallow⟩
  | for_ | doWhile | do_ | while_ =>
    rw [beq_eq_false_iff_ne.mpr (by decide), Bool.or_false] at hbody
    exact hs.takes_blockBody hline hbody

/-- A block is read when its body is. -/
theorem takes_statement {ns : List Nesting} {foot : Margin} {body rest : Bytes}
    (hs : s.Ready w (depth + 1))
    (hline : s.OnLine form.openingKinds (body ++ (foot.line form.closing ++ rest)))
    (hbody : ∀ t : State, t.Ready (w || form == .with_) depth →
      t.AtLine (body ++ (foot.line form.closing ++ rest)) → t.blocks.head? = some form.block →
      t.Takes (statements (statementUpTo depth)) ns (EndsBefore (foot.line form.closing ++ rest))) :
    s.Takes (statementUpTo (depth + 1)) [.of form.node ns] fun _ t => t.AtLine rest := by
  obtain ⟨p, hp, -⟩ := run_keywordStatement (statementUpTo depth) hline
  have hopening : ∃ kinds, form.openingKinds = .keyword form.keyword :: kinds := by
    cases form <;> exact ⟨_, rfl⟩
  obtain ⟨kinds, hkinds⟩ := hopening
  have hsoft : form.keyword.isSoft = false := by cases form <;> rfl
  rw [hkinds] at hline
  refine hs.takes_keyword _ hline hsoft hp fun t ht _ hline => ?_
  rw [← hkinds] at hline
  obtain ⟨p', hp', hrun⟩ := run_keywordStatement (statementUpTo depth) hline
  obtain rfl : p' = p := Option.some.inj (hp'.symm.trans hp)
  refine .of_run_eq hrun ?_
  -- the header, the body and the closer, one behind the other
  have hnest : (if form.node.isNest then [Nesting.of form.node ([] ++ (ns ++ []))]
      else [] ++ (ns ++ [])) = [.of form.node ns] := by
    rw [List.nil_append, List.append_nil]
    cases form <;> rfl
  rw [← hnest]
  refine .within (fun _ t => t.AtLine rest) ht.calm (by cases form <;> simp [node]) ?_
    fun _ _ h => ⟨h.separator, h.before⟩
  refine (takes_header (ht.opening _) hline).bind fun target u hreads hu => ?_
  have hu' := (ht.opening form.node).of_reads hreads
  have hready : u.Ready w depth :=
    ⟨hu'.calm, hu'.target, Nat.lt_of_lt_of_le hu.2 (Nat.le_of_lt_succ ht.shallow)⟩
  refine (takes_around target hready hu.1 hbody).bind fun stop v hreads hv => ?_
  obtain ⟨rfl, hv⟩ := hv
  rw [if_pos (by rfl)]
  have hclosing : ∃ word kinds, form.closingKinds = .keyword word :: kinds ∧
      Lexer.Spells form.closing (.keyword word :: kinds) := by
    have hspells := spells_closing form
    cases form <;> exact ⟨_, _, rfl, hspells⟩
  obtain ⟨word, kinds, hclosing, hspells⟩ := hclosing
  exact takes_footer (hready.of_reads hreads) (by rw [hclosing]; exact hv.onLine hspells (by simp))

end LosslessBasic.Program.Form
