import LosslessBasic.Proofs.Grammar.Dispatch

/-!
# What a statement starts with does not depend on what lies before

The anchor of a builder says where the last token ends, for the nodes that own no token. A statement
moves its first token before it closes a node, so the anchor that it starts with shows nowhere in
its tree (`run_statementWith_reanchored`).

A production ignores the anchor when it either moves a token, whose end is the anchor from then on,
or leaves the anchor alone.
-/

namespace LosslessBasic.Grammar

set_option synthInstance.maxSize 65536

/-- The state with another anchor. -/
def State.reanchored (s : State) (a : Anchor) : State :=
  { s with builder := { s.builder with anchor := a } }

/-- Whether a production does the same in a state under every anchor: the anchor is forgotten, or it
is left alone because nothing is moved. -/
def State.IgnoresAnchor {α : Type} (s : State) (p : Production α) : Prop :=
  ∀ a, p.run (s.reanchored a) = p.run s ∨
    (p.run s).2.stream = s.stream ∧
      p.run (s.reanchored a) = ((p.run s).1, (p.run s).2.reanchored a)

/-- A production that ignores the anchor away from the end of the source. -/
class IgnoresAnchor {α : Type} (p : Production α) : Prop where
  ignoresAnchor (s : State) : ¬ s.AtEnd → s.IgnoresAnchor p

section

variable {α β : Type} {p q : Production α} {s : State}

/-- Where a token is moved, the anchor is forgotten. -/
theorem State.IgnoresAnchor.run_eq (h : s.IgnoresAnchor p)
    (hlt : (p.run s).2.stream.remaining < s.stream.remaining) (a : Anchor) :
    p.run (s.reanchored a) = p.run s := by
  rcases h a with h | ⟨hstream, -⟩
  · exact h
  · rw [hstream] at hlt
    omega

/-- What does the same under every anchor ignores it. -/
theorem State.IgnoresAnchor.of_run_eq (h : ∀ a, p.run (s.reanchored a) = p.run s) :
    s.IgnoresAnchor p := fun a => .inl (h a)

/-- Of two productions in a row the second has to ignore the anchor only where the first has moved
nothing. -/
theorem State.IgnoresAnchor.bind {f : α → Production β} (hp : s.IgnoresAnchor p)
    (hf : (p.run s).2.stream = s.stream → (p.run s).2.IgnoresAnchor (f (p.run s).1)) :
    s.IgnoresAnchor (p >>= f) := by
  intro a
  rcases hp a with h | ⟨hstream, h⟩
  · exact .inl (by rw [run_bind, run_bind, h])
  · rcases hf hstream a with h' | ⟨hstream', h'⟩
    · exact .inl (by rw [run_bind, run_bind, h, h'])
    · exact .inr ⟨hstream'.trans hstream, by rw [run_bind, run_bind, h, h']⟩

/-- Behind a token that has been moved anything may follow. -/
theorem State.IgnoresAnchor.bind_of_lt {f : α → Production β} (hp : s.IgnoresAnchor p)
    (hlt : (p.run s).2.stream.remaining < s.stream.remaining) : s.IgnoresAnchor (p >>= f) :=
  .of_run_eq fun a => by rw [run_bind, run_bind, hp.run_eq hlt a]

/-- The anchor is not looked at. -/
theorem State.IgnoresAnchor.of_look {f : TokenStream → α} {g : α → Production β}
    (h : s.IgnoresAnchor (g (f s.stream))) : s.IgnoresAnchor (look f >>= g) := fun a => h a

/-- A node that owns a token ignores the anchor. -/
theorem State.IgnoresAnchor.within {k : NodeKind} (hp : (s.opening k).IgnoresAnchor p)
    (hlt : (p.run (s.opening k)).2.stream.remaining < s.stream.remaining) :
    s.IgnoresAnchor (within k p) := by
  refine .of_run_eq fun a => ?_
  have hopening : (s.reanchored a).opening k = (s.opening k).reanchored a := rfl
  rw [run_within, run_within, hopening, hp.run_eq hlt a]

instance (a : α) : IgnoresAnchor (pure a : Production α) := ⟨fun _ _ _ => .inr ⟨rfl, rfl⟩⟩

instance (f : TokenStream → α) : IgnoresAnchor (look f) := ⟨fun _ _ _ => .inr ⟨rfl, rfl⟩⟩

instance : IgnoresAnchor checkpoint := ⟨fun _ _ _ => .inr ⟨rfl, rfl⟩⟩

instance : IgnoresAnchor current := ⟨fun _ _ _ => .inr ⟨rfl, rfl⟩⟩

instance : IgnoresAnchor currentKind := ⟨fun _ _ _ => .inr ⟨rfl, rfl⟩⟩

instance : IgnoresAnchor nextKind := ⟨fun _ _ _ => .inr ⟨rfl, rfl⟩⟩

instance : IgnoresAnchor secondKind := ⟨fun _ _ _ => .inr ⟨rfl, rfl⟩⟩

instance (k : Kind) : IgnoresAnchor (atNext k) := ⟨fun _ _ _ => .inr ⟨rfl, rfl⟩⟩

instance (activity : Activity) (t : Token) : IgnoresAnchor (note activity t) :=
  ⟨fun _ _ _ => .inr ⟨rfl, rfl⟩⟩

instance (recovering : Bool) : IgnoresAnchor (setRecovering recovering) :=
  ⟨fun _ _ _ => .inr ⟨rfl, rfl⟩⟩

instance (problem : Problem) (t : Token) : IgnoresAnchor (report problem t) :=
  ⟨fun _ _ _ => .inr ⟨rfl, rfl⟩⟩

instance : IgnoresAnchor shift where
  ignoresAnchor s hend := .of_run_eq fun a => by
    rw [run_shift hend]
    exact run_shift (s := s.reanchored a) hend

instance {f : α → Production β} [hp : IgnoresAnchor p] [hf : ∀ a, IgnoresAnchor (f a)] :
    IgnoresAnchor (p >>= f) where
  ignoresAnchor s hend := (hp.ignoresAnchor s hend).bind fun hstream =>
    (hf _).ignoresAnchor _ (by rwa [State.AtEnd, hstream])

instance {f : α → Production β} [hp : IgnoresAnchor p] [hadv : Advances p] :
    IgnoresAnchor (p >>= f) where
  ignoresAnchor s hend := (hp.ignoresAnchor s hend).bind_of_lt (hadv.remaining_lt s hend)

instance {k : NodeKind} [hp : IgnoresAnchor p] [hadv : Advances p] :
    IgnoresAnchor (within k p) where
  ignoresAnchor s hend :=
    .within (hp.ignoresAnchor (s.opening k) hend) (hadv.remaining_lt (s.opening k) hend)

instance {k : NodeKind} {p : Production Unit} [hp : IgnoresAnchor p] [hadv : Advances p] :
    IgnoresAnchor (composite k p) where
  ignoresAnchor s hend := .of_run_eq fun a => by
    have hopening : (s.reanchored a).opening k = (s.opening k).reanchored a := rfl
    have hbody := hp.ignoresAnchor (s.opening k) hend
    rw [run_composite, run_composite, hopening,
      hbody.run_eq (hadv.remaining_lt (s.opening k) hend) a]

instance {c : Prop} [Decidable c] [IgnoresAnchor p] [IgnoresAnchor q] :
    IgnoresAnchor (if c then p else q) := by
  split <;> infer_instance

instance {test : Production Bool} {body : Production Unit} [IgnoresAnchor test] [IgnoresAnchor body]
    (n : Nat) : IgnoresAnchor (repeatWhileUpTo test body n) := by
  induction n with
  | zero => unfold repeatWhileUpTo; infer_instance
  | succ n ih => unfold repeatWhileUpTo; infer_instance

instance {test : Production Bool} {body : Production Unit} [IgnoresAnchor test]
    [IgnoresAnchor body] : IgnoresAnchor (repeatWhile test body) := by
  unfold repeatWhile
  infer_instance

end

/-! ## Statements -/

instance : IgnoresAnchor skipBlanks := by unfold skipBlanks; infer_instance

instance : IgnoresAnchor shiftNext := by unfold shiftNext; infer_instance

instance : IgnoresAnchor shiftModifiers := by unfold shiftModifiers; infer_instance

instance : IgnoresAnchor shiftDeclarator := by unfold shiftDeclarator; infer_instance

instance : IgnoresAnchor nameExpression := by unfold nameExpression; infer_instance

instance : IgnoresAnchor leadingAccess := by unfold leadingAccess; infer_instance

instance (k : Kind) : IgnoresAnchor (accept k) := by unfold accept; infer_instance

instance (k : NodeKind) : IgnoresAnchor (rawStatement k) := by unfold rawStatement; infer_instance

instance (k : NodeKind) : IgnoresAnchor (wordStatement k) := by unfold wordStatement; infer_instance

instance (k : NodeKind) : IgnoresAnchor (jumpStatement k) := by unfold jumpStatement; infer_instance

instance (k : NodeKind) : IgnoresAnchor (wordedAssignment k) := by
  unfold wordedAssignment
  infer_instance

instance : IgnoresAnchor callKeywordStatement := by unfold callKeywordStatement; infer_instance

instance : IgnoresAnchor raiseEventStatement := by unfold raiseEventStatement; infer_instance

instance : IgnoresAnchor resumeStatement := by unfold resumeStatement; infer_instance

instance : IgnoresAnchor exitStatement := by unfold exitStatement; infer_instance

instance : IgnoresAnchor onStatement := by
  unfold onStatement onErrorStatement onJumpStatement
  infer_instance

instance : IgnoresAnchor labelStatement := by unfold labelStatement; infer_instance

instance : IgnoresAnchor unexpectedStatement := by
  unfold unexpectedStatement unknownStatement
  infer_instance

instance : IgnoresAnchor constStatement := by unfold constStatement; infer_instance

instance : IgnoresAnchor reDimStatement := by unfold reDimStatement; infer_instance

instance : IgnoresAnchor eraseStatement := by unfold eraseStatement; infer_instance

instance : IgnoresAnchor declareStatement := by unfold declareStatement; infer_instance

instance : IgnoresAnchor eventStatement := by unfold eventStatement; infer_instance

instance : IgnoresAnchor implementsStatement := by unfold implementsStatement; infer_instance

instance : IgnoresAnchor typeStatement := by unfold typeStatement; infer_instance

instance : IgnoresAnchor enumStatement := by unfold enumStatement; infer_instance

instance (depth : Nat) (block : Block) : IgnoresAnchor (designerUpTo depth block) := by
  cases depth <;> unfold designerUpTo <;> infer_instance

instance : IgnoresAnchor designerStatement := by unfold designerStatement; infer_instance

section

variable {statement : Production Unit} [Composed false statement]

instance : IgnoresAnchor (ifStatement statement) := by
  unfold ifStatement ifHeader
  infer_instance

instance : IgnoresAnchor (selectStatement statement) := by unfold selectStatement; infer_instance

instance : IgnoresAnchor (forStatement statement) := by unfold forStatement; infer_instance

instance : IgnoresAnchor (doStatement statement) := by unfold doStatement; infer_instance

instance : IgnoresAnchor (whileStatement statement) := by unfold whileStatement; infer_instance

instance : IgnoresAnchor (withStatement statement) := by unfold withStatement; infer_instance

instance : IgnoresAnchor (procedure statement) := by unfold procedure; infer_instance

/-! ### Statements that start with a designator or a modifier -/

omit [Composed false statement] in
/-- A designator ignores the anchor. -/
theorem ignoresAnchor_designatorWith {operand : Nat → Production (Option Tree)} {s : State}
    (h : s.AtDesignator) (wanted : Wanted) (spacedCall : Bool) :
    s.IgnoresAnchor (designatorWith operand wanted spacedCall) := by
  have hname {p : Production (Option Tree)} [hp : IgnoresAnchor p] [hadv : Advances p]
    (cp : Checkpoint) :
      s.IgnoresAnchor (p >>= suffixesWith operand cp spacedCall) :=
    (hp.ignoresAnchor s h.not_atEnd).bind_of_lt (hadv.remaining_lt s h.not_atEnd)
  have hblanks : IgnoresAnchor skipBlanks := inferInstance
  have hcheckpoint : IgnoresAnchor checkpoint := inferInstance
  have hkind : IgnoresAnchor currentKind := inferInstance
  unfold designatorWith
  refine (hblanks.ignoresAnchor s h.not_atEnd).bind fun _ => ?_
  rw [run_skipBlanks_of_significant h.significant]
  refine (hcheckpoint.ignoresAnchor s h.not_atEnd).bind fun _ => ?_
  refine (hkind.ignoresAnchor s h.not_atEnd).bind fun _ => ?_
  rw [run_currentKind]
  split
  next => exact hname _
  next hsign =>
    rw [if_pos (h.resolve_right hsign)]
    exact hname _

omit [Composed false statement] in
theorem ignoresAnchor_variable {s : State} (h : s.AtDesignator) : s.IgnoresAnchor variable_ := by
  have hdesignator : s.IgnoresAnchor (designatorWith expressionAbove .variableName true) :=
    ignoresAnchor_designatorWith h _ _
  have hlt : ((designatorWith expressionAbove .variableName true).run s).2.stream.remaining <
      s.stream.remaining := remaining_designatorWith_lt h _ _
  unfold variable_
  exact hdesignator.bind_of_lt hlt

omit [Composed false statement] in
theorem ignoresAnchor_callee {s : State} (h : s.AtDesignator) : s.IgnoresAnchor callee := by
  have hdesignator : s.IgnoresAnchor (designatorWith expressionAbove .procedureName false) :=
    ignoresAnchor_designatorWith h _ _
  have hlt : ((designatorWith expressionAbove .procedureName false).run s).2.stream.remaining <
      s.stream.remaining := remaining_designatorWith_lt h _ _
  unfold callee
  exact hdesignator.bind_of_lt hlt

omit [Composed false statement] in
theorem ignoresAnchor_assignmentStatement {s : State} (h : s.AtDesignator) :
    s.IgnoresAnchor assignmentStatement := by
  have hdesignator : (s.opening .assignmentStatement).AtDesignator := h
  have hvariable := ignoresAnchor_variable hdesignator
  have hlt := remaining_variable_lt hdesignator
  unfold assignmentStatement assignment
  exact .within (hvariable.bind_of_lt hlt) (remaining_bind_lt hlt)

omit [Composed false statement] in
theorem ignoresAnchor_callStatement {s : State} (h : s.AtDesignator) :
    s.IgnoresAnchor callStatement := by
  have hdesignator : (s.opening .callStatement).AtDesignator := h
  have hcallee := ignoresAnchor_callee hdesignator
  have hlt := remaining_callee_lt hdesignator
  unfold callStatement call
  exact .within (hcallee.bind_of_lt hlt) (remaining_bind_lt hlt)

omit [Composed false statement] in
theorem ignoresAnchor_dimStatement {s : State}
    (h : Lookahead.isModifier s.stream.current.kind = true ∨
      s.stream.current.kind = .keyword .dim) : s.IgnoresAnchor dimStatement := by
  have hend : ¬ (s.opening .dimStatement).AtEnd := by
    intro hend
    change s.stream.current.kind = _ at hend
    rcases h with h | h <;> rw [hend] at h <;> cases h
  have hwords : IgnoresAnchor (shiftModifiers >>= fun _ => accept (.keyword .dim)) := inferInstance
  have hlt := remaining_dimWords_lt (s := s.opening .dimStatement) h
  rw [dimStatement_eq]
  exact .within ((hwords.ignoresAnchor _ hend).bind_of_lt hlt) (remaining_bind_lt hlt)

omit [Composed false statement] in
theorem ignoresAnchor_lineStatement {s : State} (h : s.AtDesignator) :
    s.IgnoresAnchor lineStatement := by
  have hraw : IgnoresAnchor (rawStatement .lineInputStatement) := inferInstance
  unfold lineStatement secondKind
  refine .of_look ?_
  split
  · exact hraw.ignoresAnchor s h.not_atEnd
  · refine .of_look ?_
    split
    · exact ignoresAnchor_assignmentStatement h
    · exact ignoresAnchor_callStatement h

/-! ### Every statement -/

theorem ignoresAnchor_modifiedStatement {s : State}
    (h : Lookahead.isModifier s.stream.current.kind = true) :
    s.IgnoresAnchor (modifiedStatement statement) := by
  have hend : ¬ s.AtEnd := Kind.ne_endOfFile_of (f := Lookahead.isModifier) h rfl
  unfold modifiedStatement
  refine .of_look ?_
  split
  case h_9 => exact ignoresAnchor_dimStatement (.inl h)
  all_goals exact IgnoresAnchor.ignoresAnchor s hend

/-- A statement that starts with its keyword ignores the anchor. -/
theorem ignoresAnchor_keywordStatement {s : State} {keyword : Keyword} {p : Production Unit}
    (hkeyword : s.stream.current.kind = .keyword keyword)
    (h : keywordStatement? statement keyword = some p) : s.IgnoresAnchor p := by
  have hend : ¬ s.AtEnd := by simp [State.AtEnd, hkeyword]
  by_cases hmodifier : Lookahead.isModifier (.keyword keyword) = true
  · rw [eq_modifiedStatement hmodifier h]
    exact ignoresAnchor_modifiedStatement (by rw [hkeyword, hmodifier])
  · by_cases hdim : keyword = .dim
    · subst hdim
      obtain rfl := Option.some.inj h
      exact ignoresAnchor_dimStatement (.inr hkeyword)
    · by_cases hline : keyword = .line
      · subst hline
        obtain rfl := Option.some.inj h
        exact ignoresAnchor_lineStatement (.inl (by rw [hkeyword]; rfl))
      · unfold keywordStatement? at h
        split at h
        all_goals first
          | contradiction
          | obtain rfl := Option.some.inj h
            exact IgnoresAnchor.ignoresAnchor s hend
          | obtain ⟨k, -, rfl⟩ := Option.map_eq_some_iff.mp h
            exact IgnoresAnchor.ignoresAnchor s hend

/-- The statement that is chosen at a word ignores the anchor. -/
theorem ignoresAnchor_statementFor {s : State} (hend : ¬ s.AtEnd)
    (hblank : s.stream.current.kind.isInlineTrivia = false) :
    s.IgnoresAnchor (statementFor statement s) := by
  unfold statementFor
  split
  · exact IgnoresAnchor.ignoresAnchor s hend
  -- the alternatives in the order in which a statement tries them
  cases hopened : openedStatement? statement s.stream with
  | some p =>
    obtain ⟨keyword, hkeyword, -, hopened⟩ := exists_keyword_of_openedStatement? hopened
    exact ignoresAnchor_keywordStatement hkeyword hopened
  | none =>
    rw [Option.getD_none]
    unfold plainStatementFor
    cases hreplacement : replacement? s.stream with
    | some p =>
      unfold replacement? at hreplacement
      rw [Option.getD_some]
      split_ifs at hreplacement <;> cases hreplacement <;> exact IgnoresAnchor.ignoresAnchor s hend
    | none =>
      rw [Option.getD_none]
      split
      next hstarts =>
        exact ignoresAnchor_assignmentStatement (atDesignator_of_startsAssignment hblank hstarts)
      · split
        next hname => exact ignoresAnchor_callStatement (Bool.or_eq_true_iff.mp hname)
        next => exact IgnoresAnchor.ignoresAnchor s hend

/-- A statement at a word ignores the anchor. -/
theorem ignoresAnchor_statementAtCursor {s : State} (hend : ¬ s.AtEnd)
    (hblank : s.stream.current.kind.isInlineTrivia = false) :
    s.IgnoresAnchor (statementAtCursor statement) := by
  intro a
  have hsame : statementFor statement (s.reanchored a) = statementFor statement s := by
    unfold statementFor
    rw [run_atLabel, run_atLabel]
    rfl
  rw [run_statementAtCursor, run_statementAtCursor, hsame]
  exact ignoresAnchor_statementFor hend hblank a

end

/-- A statement ignores the anchor that it starts with. -/
instance {statement : Production Unit} [Composed false statement] :
    IgnoresAnchor (statementWith statement) where
  ignoresAnchor s hend := by
    have hblanks : IgnoresAnchor skipBlanks := inferInstance
    have hstart : ((setRecovering false).run s).2 = { s with recovering := false } := rfl
    unfold statementWith
    refine .bind (IgnoresAnchor.ignoresAnchor s hend) fun _ => ?_
    rw [hstart]
    generalize hs₁ : { s with recovering := false } = s₁
    have hend₁ : ¬ s₁.AtEnd := by rwa [← hs₁]
    refine (hblanks.ignoresAnchor s₁ hend₁).bind fun hstream => ?_
    have hend₂ : ¬ (skipBlanks.run s₁).2.AtEnd := by rwa [State.AtEnd, hstream]
    have hblank : (skipBlanks.run s₁).2.stream.current.kind.isInlineTrivia = false := by
      have hsolid := s₁.stream.isSolid_peekSignificant 0
      rw [← current_skipBlanks] at hsolid
      simpa [TokenStream.isSolid] using hsolid
    refine .of_look (.bind (IgnoresAnchor.ignoresAnchor _ hend₂) fun _ => ?_)
    exact ignoresAnchor_statementAtCursor (s := ((note _ _).run (skipBlanks.run s₁).2).2)
      hend₂ hblank

end LosslessBasic.Grammar
