import LosslessBasic.Proofs.Grammar.Conditionals

/-!
# Every statement at another place

The dispatch of a statement looks at the first tokens of its line, so both readings choose the same
production (`statementFor`), and with the statements that it chooses from, statements of every depth
are read the same: `settles_statementUpTo`.

The lines of a designer block need more care than the bodies of other blocks: behind the end of a
line a colon is looked for, and it may be the first token of what follows the text. Then the block
is still open, though, which the next pass over its lines finds out. The header of a procedure does
not end such a block, so it may not follow one.
-/

namespace LosslessBasic.Grammar

set_option synthInstance.maxSize 65536

section

variable {P : Placement}

/-! ## Designer blocks -/

/-- Whether a pass that goes on has not reached the end of the text. -/
def State.LeadsInside {α β : Type} (s : State) (pass : Production (Pass α β)) : Prop :=
  ∀ a, (pass.run s).1 = .again a → (pass.run s).2.Inside

/-- A loop whose passes permit nothing behind the end of the text. -/
theorem Carries.iterate_of_not_permits {α β : Type} [Placeable α] [Placeable β]
    {exhausted exhausted' : α → β} {pass pass' : α → Production (Pass α β)}
    {post : β → State → Prop} [hc : ∀ a, Composed false (pass a)] [∀ a, Progresses (pass a)]
    [∀ a, Progresses (pass' a)]
    (hend : ∀ a s, s.stream.Sound → s.AtEnd → ¬ P.Permits ((pass a).run s).2)
    (hpass : ∀ a, Carries P (fun s => s.LeadsInside (pass a)) (pass a) (pass' (place P a))
      (Pass.Leads (fun _ _ => True) post)) (a : α) :
    Carries P (fun _ => True) (Grammar.iterate exhausted pass a)
      (Grammar.iterate exhausted' pass' (place P a)) post := by
  refine @Carries.iterate_of_agrees _ _ _ _ _ _ _ _ _ (fun _ _ => True) _ _ _ _
    (fun a s hs hopen => ?_) a
  refine (hpass a).carries s hs fun hisOpen =>
    ⟨fun a' hagain hatEnd => ?_, (hopen hisOpen).2.of_iterate hs.sound⟩
  have hsound := (hs.of_follows ((hc a).follows s)).sound
  have hrest := (hopen hisOpen).2
  rw [run_iterate_of_again hagain] at hrest
  exact hend a' _ hsound hatEnd (hrest.of_iterate hsound)

/-- The closer of a designer block has a line of its own. -/
theorem carries_atDesignerEnd (block : Block) {pre : State → Prop} (hpre : ∀ s, pre s → s.OnWord) :
    Carries P pre (atDesignerEnd block) (atDesignerEnd block)
      (fun b s => b = ((atDesignerEnd block).run s).1 ∧ pre s) :=
  .of_second (f := fun t u => if block = .designerProperty then isNamed t "EndProperty"
      else t.kind == .keyword .end_ && endsLine u.kind)
    (fun _ _ => rfl) fun s h => by
      rw [TokenStream.peekSignificant_zero (hpre s h).1]
      exact (hpre s h).2

/-- The block that a token starts. -/
def designerBlockAt? (t : Token) : Option Block :=
  if t.kind == .keyword .begin then some .designer
  else if isNamed t "BeginProperty" then some .designerProperty
  else none

/-- Which designer block comes next depends on the current token alone. -/
theorem designerBlock?_eq : designerBlock? = look fun s => designerBlockAt? s.current := by
  funext s
  change designerBlock?.run s = (designerBlockAt? s.stream.current, s)
  unfold designerBlock? designerBlockAt? current
  rw [run_look_bind]
  split
  · rfl
  · split <;> rfl

/-- The colon that may stand behind a line of a designer block. -/
def optionalColon : Production Unit := do
  if ← atCurrent (.lexeme .colon) then shift

/-- An assignment of a property is raw text, perhaps with a colon behind it. -/
theorem propertyAssignment_eq :
    propertyAssignment = rawStatement .propertyAssignment >>= fun _ => optionalColon := rfl

instance : Composed false optionalColon := by unfold optionalColon; infer_instance

instance : KeepsLine optionalColon := by unfold optionalColon; infer_instance

instance : Inline P optionalColon optionalColon := by unfold optionalColon; infer_instance

/-- At the end of the source no colon is taken. -/
theorem run_optionalColon_of_atEnd {s : State} (h : s.AtEnd) : optionalColon.run s = ((), s) := by
  unfold optionalColon atCurrent
  rw [run_look_bind, h]
  rfl

/-- A line with the value of a property, and the colon behind it unless the text has ended. -/
theorem carries_propertyAssignment :
    Carries P (fun s => s.InLine ∧ (propertyAssignment.run s).2.Inside) propertyAssignment
      propertyAssignment (fun _ _ => True) where
  carries s hs hs' := by
    have hcomposed : Composed false optionalColon := inferInstance
    have hraw : Composed false (rawStatement .propertyAssignment) := inferInstance
    have hsettles : Settles P State.InLine (rawStatement .propertyAssignment)
        (rawStatement .propertyAssignment) := inferInstance
    have hcolon : Inline P optionalColon optionalColon := inferInstance
    rw [propertyAssignment_eq] at hs' ⊢
    obtain ⟨hagrees, -⟩ := hsettles.carries.carries s hs fun hopen =>
      ⟨(hs' hopen).1.1, (hs' hopen).2.of_run hcomposed ((hraw.follows s).sound hs.sound)⟩
    have hrest := hcolon.agrees _ (hs.of_follows (hraw.follows s)) fun hopen =>
      ⟨fun hend => (hs' hopen).1.2 ?_, KeepsLine.keepsLine _⟩
    · refine ⟨?_, fun _ => trivial⟩
      unfold Placement.Agrees at hagrees hrest ⊢
      rw [run_bind, hagrees, hrest]
      rfl
    · rw [run_bind, run_optionalColon_of_atEnd hend]
      exact hend

/-- The line that comes next in a designer block, or what stands in the place of one. -/
def designerLine (inner : Block → Production Unit) (block : Block) :
    Production (Pass Unit Unit) := do
  if ← atDesignerEnd block then
    shiftNext
    finishStatement
    return .done ()
  blockOrProperty inner (← designerBlock?)
  return .again ()

/-- A pass over a designer block, with what is asked of the token at the cursor. -/
theorem designerPass_eq (inner : Block → Production Unit) (block : Block) (u : Unit) :
    designerPass inner block u = current >>= fun t =>
      if t.kind == .lexeme .endOfFile then do
        report (.missingCloser block t) t
        pure (.done ())
      else if t.kind.isTrivia then do
        shift
        pure (.again ())
      else designerLine inner block := rfl

section

variable {inner : Block → Production Unit} [∀ block, Composed false (inner block)]
  [∀ block, Settles P State.OnWord (inner block) (inner block)]

instance (block? : Option Block) : Composed false (blockOrProperty inner block?) := by
  cases block? <;> unfold blockOrProperty <;> infer_instance

instance (block : Block) : Composed false (designerLine inner block) := by
  unfold designerLine
  infer_instance

omit [∀ block, Composed false (inner block)] in
/-- An inner block, or a line that has not ended the text. -/
theorem carries_blockOrProperty (block? : Option Block) :
    Carries P (fun s => s.OnWord ∧ ((blockOrProperty inner block?).run s).2.Inside)
      (blockOrProperty inner block?) (blockOrProperty inner block?) (fun _ _ => True) := by
  cases block? with
  | some block =>
    have hinner : Settles P State.OnWord (inner block) (inner block) := inferInstance
    exact hinner.carries.weaken (fun _ h => h.1) fun _ _ _ => trivial
  | none => exact carries_propertyAssignment.weaken (fun _ h => ⟨h.1.inLine, h.2⟩) fun _ _ h => h

omit [∀ block, Composed false (inner block)]
  [∀ block, Settles P State.OnWord (inner block) (inner block)] in
/-- Where its closer does not come next, a designer block goes on. -/
theorem run_designerLine {block : Block} {s : State}
    (h : ¬ ((atDesignerEnd block).run s).1 = true) :
    (designerLine inner block).run s =
      (.again (), ((blockOrProperty inner (designerBlockAt? s.stream.current)).run s).2) := by
  unfold designerLine
  rw [designerBlock?_eq, run_bind, if_neg h]
  rfl

/-- The colon is looked for only where the block goes on. -/
theorem carries_designerLine (block : Block) :
    Carries P (fun s => s.OnWord ∧ s.LeadsInside (designerLine inner block))
      (designerLine inner block) (designerLine inner block) LeadsOn := by
  have hend :
      Settles P State.InLine (do shiftNext; finishStatement) (do shiftNext; finishStatement) :=
    inferInstance
  have hblock : Inline P (look fun s => designerBlockAt? s.current)
      (look fun s => designerBlockAt? s.current) := .of_look fun _ _ h => by rw [h.current]; rfl
  -- a line that is not the end is read inside, because what reads it leads inside as a whole
  have hrest : Carries P
      (fun s => ¬ ((atDesignerEnd block).run s).1 = true ∧ s.OnWord ∧
        s.LeadsInside (designerLine inner block))
      (designerBlock? >>= fun block? => blockOrProperty inner block? >>= fun _ => pure (.again ()))
      (designerBlock? >>= fun block? => blockOrProperty inner block? >>= fun _ => pure (.again ()))
      LeadsOn := by
    rw [designerBlock?_eq]
    refine (Carries.of_look fun _ h => h.2.1.inside).bind fun block? => ?_
    refine ((carries_blockOrProperty block?).weaken (fun s hs => ⟨hs.2.2.1, ?_⟩)
      fun _ _ h => h).bind fun _ => .pure (a := Pass.again ()) fun _ _ => trivial
    obtain ⟨rfl, hgoes, -, hleads⟩ := hs
    have hinside := hleads () (by rw [run_designerLine hgoes])
    rwa [run_designerLine hgoes] at hinside
  have hline : Carries P (fun s => s.OnWord ∧ s.LeadsInside (designerLine inner block))
      (atDesignerEnd block >>= fun b => if b = true then
          shiftNext >>= fun _ => finishStatement >>= fun _ => pure (.done ())
        else designerBlock? >>= fun block? => blockOrProperty inner block? >>= fun _ =>
          pure (.again ()))
      (atDesignerEnd block >>= fun b => if b = true then
          shiftNext >>= fun _ => finishStatement >>= fun _ => pure (.done ())
        else designerBlock? >>= fun block? => blockOrProperty inner block? >>= fun _ =>
          pure (.again ()))
      LeadsOn := by
    refine (carries_atDesignerEnd block fun _ h => h.1).bind fun b => .ite (fun _ => ?_)
      fun hb => ?_
    · exact hend.done.weaken (fun _ h => h.2.1.inLine) fun _ _ h => h
    · exact hrest.weaken (fun s h => ⟨h.1 ▸ hb, h.2⟩) fun _ _ h => h
  exact hline

/-- One step through a designer block. -/
theorem carries_designerPass (hheader : P.header? = none) (block : Block) (u : Unit) :
    Carries P (fun s => s.LeadsInside (designerPass inner block u)) (designerPass inner block u)
      (designerPass inner block u) LeadsOn := by
  have hleads {s : State} (hword : s.OnWord) (htrivia : s.stream.current.kind.isTrivia = false)
      (h : s.LeadsInside (designerPass inner block u)) : s.LeadsInside
        (designerLine inner block) := by
    have hend : ¬ (s.stream.current.kind == .lexeme .endOfFile) = true :=
      fun hend => hword.inside (beq_iff_eq.mp hend)
    have hrun : (designerPass inner block u).run s = (designerLine inner block).run s := by
      rw [designerPass_eq]
      unfold current
      rw [run_look_bind, if_neg hend, if_neg (by rw [htrivia]; exact Bool.false_ne_true)]
    unfold State.LeadsInside at h ⊢
    rwa [hrun] at h
  exact @carries_lines P block _ Kind.isTrivia (fun _ => designerLine inner block)
    (fun _ => designerLine inner block) (fun _ => inferInstance) (fun _ h => h)
    (fun header hmem => by rw [hheader] at hmem; cases hmem) fun t ht =>
      (carries_designerLine block).weaken
      (fun s h => ⟨h.1.2, hleads h.1.2 (h.1.1 ▸ ht) h.2⟩) fun _ _ h => h

omit [∀ block, Composed false (inner block)]
  [∀ block, Settles P State.OnWord (inner block) (inner block)] in
/-- At the end of the text a designer block is open. -/
theorem unclosed_designerPass (block : Block) (u : Unit) {s : State} (hs : s.stream.Sound)
    (hend : s.AtEnd) : ((designerPass inner block u).run s).2.Unclosed := by
  have hkind : (s.stream.current.kind == .lexeme .endOfFile) = true := by
    rw [hend]
    rfl
  rw [designerPass_eq]
  unfold current
  rw [run_look_bind, if_pos hkind]
  exact hend.unclosed hs block

/-- A designer block settles where no header is put behind the text. -/
theorem settles_designerPass (hheader : P.header? = none) (block : Block)
    [∀ block, Advances (inner block)] : Settles P State.Settled
      (iterate (fun _ => ()) (designerPass inner block) ())
      (iterate (fun _ => ()) (designerPass inner block) ()) :=
  ⟨(Carries.iterate_of_not_permits
    (fun u _ hs hend hpermits => hpermits.closed hheader (unclosed_designerPass block u hs hend))
    (carries_designerPass hheader block) ()).weaken (fun _ _ => trivial) fun _ _ h => h⟩

end

/-- Designer blocks of every depth are read the same. -/
instance (depth : Nat) (block : Block) :
    Settles P State.OnWord (designerUpTo depth block) (designerUpTo depth block) := by
  induction depth generalizing block with
  | zero => unfold designerUpTo; infer_instance
  | succ depth ih =>
    unfold designerUpTo
    refine ⟨.of_header?_eq_none (fun hheader => ?_) fun hne s hpermits =>
      not_regular_designer s (hpermits.regular hne)⟩
    have hlines : Settles P State.Settled
        (iterate (fun _ => ()) (designerPass (designerUpTo depth) block) ())
        (iterate (fun _ => ()) (designerPass (designerUpTo depth) block) ()) :=
      settles_designerPass hheader block
    exact Settles.carries

/-- Both readings have a depth in common that suffices. -/
instance : Settles P State.OnWord designerStatement designerStatement := by
  refine ⟨⟨fun s hs hs' => ?_⟩⟩
  obtain ⟨d, hd, hd'⟩ : ∃ d, s.stream.remaining < d ∧ (P.state s).stream.remaining < d :=
    ⟨max s.stream.remaining (P.state s).stream.remaining + 1, by omega, by omega⟩
  have hdepth : Settles P State.OnWord (designerUpTo d .designer) (designerUpTo d .designer) :=
    inferInstance
  refine hdepth.carries.congr hs hs' ?_ ?_
  · unfold designerStatement
    rw [run_look_bind]
    exact (designerUpTo_agree (Nat.lt_succ_self _) hd .designer).run_eq s (.inr (Nat.le_refl _))
  · unfold designerStatement
    rw [run_look_bind]
    exact (designerUpTo_agree (Nat.lt_succ_self _) hd' .designer).run_eq _ (.inr (Nat.le_refl _))

/-! ## Statements that keywords open -/

/-- In front of a keyword that is no modifier. -/
theorem State.OnDeclarator.of_keyword {s : State} {keyword : Keyword}
    (hkeyword : s.stream.current.kind = .keyword keyword)
    (hmodifier : Lookahead.isModifier (.keyword keyword) = false) : s.OnDeclarator := by
  unfold State.OnDeclarator Lookahead.modifiedKind Lookahead.afterModifiers
  rw [TokenStream.rest,
    List.dropWhile_cons_of_neg (by simp [hkeyword, hmodifier, Kind.isInlineTrivia])]
  change ¬ EndsLook s.stream.current.kind
  rw [hkeyword]
  exact not_endsLook_keyword keyword

/-- A keyword at the cursor is a word there. -/
theorem State.OnWord.of_keyword {s : State} {keyword : Keyword}
    (hkeyword : s.stream.current.kind = .keyword keyword) : s.OnWord := by
  unfold State.OnWord
  rw [hkeyword]
  exact ⟨rfl, not_endsLook_keyword keyword⟩

section

variable {statement : Production Unit} [Composed false statement]
  [Settles P State.OnWord statement statement] [Advances statement]

/-- The word behind the modifiers has been seen. -/
instance : Settles P State.Inside (modifiedStatement statement) (modifiedStatement statement) := by
  have hkind : Carries P State.Inside (look fun s => Lookahead.modifiedKind s.rest)
      (look fun s => Lookahead.modifiedKind s.rest)
      (fun k s => k = Lookahead.modifiedKind s.stream.rest ∧ s.Inside) := .of_look fun _ h => h
  have hseen {word : Keyword} (s : State)
      (h : Kind.keyword word = Lookahead.modifiedKind s.stream.rest ∧
        s.Inside) : s.OnDeclarator := by
    unfold State.OnDeclarator
    rw [← h.1]
    exact not_endsLook_keyword word
  have hdeclares {word : Keyword} {p : Production Unit} (h : Settles P State.OnDeclarator p p) :
      Carries P (fun s => Kind.keyword word = Lookahead.modifiedKind s.stream.rest ∧ s.Inside) p p
        (fun _ => State.Settled) := h.carries.weaken hseen fun _ _ h => h
  have hdim : Settles P State.Inside dimStatement dimStatement := inferInstance
  have hcomposed : ∀ k : Kind, Composed false
      (match k with
        | .keyword .sub | .keyword .function | .keyword .property => procedure statement
        | .keyword .const => constStatement
        | .keyword .type => typeStatement
        | .keyword .enum => enumStatement
        | .keyword .declare => declareStatement
        | .keyword .event => eventStatement
        | _ => dimStatement) := by
    intro k
    split <;> infer_instance
  unfold modifiedStatement
  refine ⟨hkind.bind fun k => ?_⟩
  rw [place_kind]
  split
  case h_9 => exact hdim.carries.weaken (fun _ h => h.2) fun _ _ h => h
  all_goals exact hdeclares inferInstance

/-- A statement that its keyword opens. -/
theorem carries_keywordStatement {keyword : Keyword} {p : Production Unit}
    (h : keywordStatement? statement keyword = some p) :
    Carries P (fun s => s.stream.current.kind = .keyword keyword) p p (fun _ => State.Settled) := by
  have hword {p : Production Unit} (hp : Settles P State.OnWord p p) :
      Carries P (fun s => s.stream.current.kind = .keyword keyword) p p (fun _ => State.Settled) :=
    hp.carries.weaken (fun _ h => .of_keyword h) fun _ _ h => h
  by_cases hmodifier : Lookahead.isModifier (.keyword keyword) = true
  · obtain rfl := eq_modifiedStatement hmodifier h
    exact hword inferInstance
  · have hdeclares {p : Production Unit} (hp : Settles P State.OnDeclarator p p) :
        Carries P (fun s => s.stream.current.kind = .keyword keyword) p p
          (fun _ => State.Settled) :=
      hp.carries.weaken (fun _ h => .of_keyword h (by simpa using hmodifier))
        fun _ _ h => h
    unfold keywordStatement? at h
    split at h
    all_goals first
      | obtain rfl := Option.some.inj h
        first
          | exact hword inferInstance
          | exact hdeclares inferInstance
      | obtain ⟨k, -, rfl⟩ := Option.map_eq_some_iff.mp h
        exact hword inferInstance

end

/-! ## What a statement is -/

/-- What the first tokens of a statement show is the same, the second one included. -/
theorem Placement.Admits.onWord {s : State} (hs : P.Admits s) (h : P.IsOpen → s.OnWord) :
    (P.stream s.stream).current = P.relocation.token s.stream.current ∧
      (P.stream s.stream).peek 1 = P.relocation.token (s.stream.peek 1) ∧
      (P.stream s.stream).peekSignificant 1 = P.relocation.token (s.stream.peekSignificant 1) ∧
      Lookahead.startsAssignment (P.stream s.stream) = Lookahead.startsAssignment s.stream := by
  have hsame := hs.sameLine fun hopen => (h hopen).inside
  refine ⟨hsame.current, ?_, ?_, hsame.startsAssignment_eq⟩
  · by_cases hopen : P.IsOpen
    · exact hsame.peek_one (h hopen).2
    · exact P.peek_one_of_not_isOpen hopen _
  · by_cases hopen : P.IsOpen
    · refine hsame.peekSignificant_one ?_
      rw [TokenStream.peekSignificant_zero (h hopen).1]
      exact (h hopen).2
    · exact P.peekSignificant_of_not_isOpen hopen _ 1

/-- Whether a label comes next, by what separates it from the statement before and by the kinds of
its token and of the one behind it. -/
def startsLabel (separator : Separator) (kind behind : Kind) : Bool :=
  match separator, kind with
  | .lineBreak, .lexeme .identifier => behind == .lexeme .colon
  | .lineBreak, .lexeme .integerLiteral => true
  | _, _ => false

/-- Whether a label starts at the cursor depends on the separator in front and on two tokens. -/
theorem run_atLabel (s : State) :
    atLabel.run s =
      (startsLabel s.lastSeparator s.stream.current.kind (s.stream.peek 1).kind, s) := by
  unfold atLabel startsLabel
  rw [run_bind, run_get]
  dsimp only
  generalize s.lastSeparator = separator, s.stream.current.kind = kind
  cases separator with
  | none => rfl
  | colon => rfl
  | lineBreak =>
    cases kind with
    | lexeme l => cases l <;> rfl
    | trivia | keyword | node | unassigned => rfl

/-- The statement that is not opened by a keyword. -/
def plainStatementFor (s : TokenStream) : Production Unit :=
  (replacement? s).getD
    (if Lookahead.startsAssignment s then assignmentStatement
      else if s.current.kind.isNameLike || Lookahead.isAccessSign s.current.kind then callStatement
      else unexpectedStatement)

/-- The statement that the tokens at the cursor show. -/
def statementFor (statement : Production Unit) (s : State) : Production Unit :=
  if (atLabel.run s).1 then labelStatement
  else (openedStatement? statement s.stream).getD (plainStatementFor s.stream)

/-- A statement without a keyword of its own depends on the stream alone. -/
theorem run_plainStatement (s : State) :
    plainStatement.run s = (plainStatementFor s.stream).run s := by
  unfold plainStatement plainStatementFor
  rw [run_bind, run_get]
  dsimp only
  cases replacement? s.stream <;> rfl

/-- What is at the cursor is read as the statement that it shows. -/
theorem run_statementAtCursor (statement : Production Unit) (s : State) :
    (statementAtCursor statement).run s = (statementFor statement s).run s := by
  unfold statementAtCursor statementFor
  rw [run_bind, run_atLabel_snd]
  split
  · rfl
  · rw [run_look_bind]
    cases openedStatement? statement s.stream with
    | some p => rfl
    | none => exact run_plainStatement s

/-- Both readings show the same statement. -/
theorem statementFor_state (statement : Production Unit) {s : State} (hs : P.Admits s)
    (h : P.IsOpen → s.OnWord) : statementFor statement (P.state s) = statementFor statement s := by
  obtain ⟨hcurrent, hpeek, hsecond, hassigns⟩ := hs.onWord h
  have hlabel : (atLabel.run (P.state s)).1 = (atLabel.run s).1 := by
    rw [run_atLabel, run_atLabel, hcurrent, hpeek]
  have hopened : openedStatement? statement (P.stream s.stream) =
      openedStatement? statement s.stream := by
    have hsoft (keyword : Keyword) :
        softKeywordOpens keyword (P.stream s.stream) = softKeywordOpens keyword s.stream := by
      unfold softKeywordOpens
      rw [hpeek, hsecond]
    unfold openedStatement?
    rw [hcurrent]
    dsimp only
    split
    · rw [hsoft]
    · rfl
  have hplain : plainStatementFor (P.stream s.stream) = plainStatementFor s.stream := by
    unfold plainStatementFor replacement?
    rw [hcurrent, hsecond, hassigns]
    rfl
  unfold statementFor
  rw [hlabel, hopened, hplain]

section

variable {statement : Production Unit} [Composed false statement]
  [Settles P State.OnWord statement statement] [Advances statement]

/-- The statement that a word shows is read the same from there. -/
theorem carries_statementFor (s : State) :
    Carries P (fun t => t = s ∧ t.OnWord) (statementFor statement s) (statementFor statement s)
      (fun _ => State.Settled) := by
  have hword {p : Production Unit} (hp : Settles P State.OnWord p p) :
      Carries P (fun t => t = s ∧ t.OnWord) p p (fun _ => State.Settled) :=
    hp.carries.weaken (fun _ h => h.2) fun _ _ h => h
  unfold statementFor
  split
  · exact hword inferInstance
  cases hopened : openedStatement? statement s.stream with
  | some p =>
    obtain ⟨keyword, hkeyword, -, hopened⟩ := exists_keyword_of_openedStatement? hopened
    exact (carries_keywordStatement hopened).weaken (fun t h => h.1 ▸ hkeyword) fun _ _ h => h
  | none =>
    rw [Option.getD_none]
    unfold plainStatementFor
    cases hreplacement : replacement? s.stream with
    | some p =>
      unfold replacement? at hreplacement
      rw [Option.getD_some]
      split_ifs at hreplacement <;> cases hreplacement <;> exact hword inferInstance
    | none =>
      rw [Option.getD_none]
      exact hword inferInstance

instance : Settles P State.OnWord (statementAtCursor statement) (statementAtCursor statement) := by
  refine ⟨⟨fun s hs hs' => ?_⟩⟩
  refine (carries_statementFor s).congr hs (fun hopen => ⟨⟨rfl, (hs' hopen).1⟩, (hs' hopen).2⟩)
    (run_statementAtCursor statement s) ?_
  rw [run_statementAtCursor, statementFor_state statement hs fun hopen => (hs' hopen).1]

instance : Settles P State.InLine (statementWith statement) (statementWith statement) := by
  unfold statementWith
  infer_instance

end

/-- Statements of every depth are read the same. -/
instance settles_statementUpTo (depth : Nat) :
    Settles P State.OnWord (statementUpTo depth) (statementUpTo depth) := by
  induction depth with
  | zero => unfold statementUpTo; infer_instance
  | succ depth ih => unfold statementUpTo; infer_instance

end

end LosslessBasic.Grammar
