import LosslessBasic.Proofs.Grammar.Termination

/-!
# Nesting is never cut short

Statements, expressions and designer blocks that are read within others start behind a token that
has been moved, so the number of tokens ahead bounds their depth and a larger bound changes nothing:
`statementUpTo_agree`, `binaryUpTo_agree` and `designerUpTo_agree`.

The proofs compare two readings that differ in the productions they use for what is nested.
`AgreeUpTo n p q` says that two productions do the same when at most `n` tokens are ahead. Moving a
token takes this down by one, so what is nested has to agree one token later only.
-/

namespace LosslessBasic

/-- Whether the last token of a stream is its only end marker. -/
def TokenStream.Sound (s : TokenStream) : Prop := ∀ t ∈ s.rest.dropLast, t.kind ≠ .lexeme .endOfFile

namespace Grammar

set_option synthInstance.maxSize 65536

/-- A stream that has been moved is sound if it was before. -/
theorem State.Follows.sound {s t : State} (h : s.Follows t) (hs : s.stream.Sound) :
    t.stream.Sound := by
  obtain ⟨moved, hrest, -⟩ := h.moved
  intro u hu
  refine hs u ?_
  have hne : t.stream.rest ≠ [] := List.cons_ne_nil _ _
  rw [hrest, List.dropLast_append_of_ne_nil hne]
  exact List.mem_append_right _ hu

/-- At the end of a sound stream nothing is ahead. -/
theorem State.AtEnd.remaining_eq_zero {s : State} (h : s.AtEnd) (hs : s.stream.Sound) :
    s.stream.remaining = 0 := by
  rw [s.stream.remaining_eq]
  cases hahead : s.stream.ahead with
  | nil => rfl
  | cons t ahead => exact absurd h (hs _ (by simp [TokenStream.rest, hahead]))

/-- Where nothing is ahead, the source ends. -/
theorem State.atEnd_of_remaining_eq_zero {s : State} (h : s.stream.remaining = 0) : s.AtEnd := by
  rw [s.stream.remaining_eq] at h
  have hahead := List.eq_nil_of_length_eq_zero h
  exact Classical.byContradiction fun hend => TokenStream.ahead_ne_nil hend hahead

/-- At the end of the source no token is moved. -/
theorem Composed.stream_of_atEnd {simple : Bool} {α : Type} {p : Production α}
    (h : Composed simple p)
    {s : State} (hend : s.AtEnd) : (p.run s).2.stream = s.stream := by
  induction h generalizing s with
  | pure | get | note | setRecovering | setSeparator | setPendingNext | addTarget | report => rfl
  | @bind _ _ _ p _ _ _ ihp ihf =>
    have hp := ihp hend
    have hend' : (p.run s).2.AtEnd := by rwa [State.AtEnd, hp]
    exact (ihf _ hend').trans hp
  | shift => rw [run_shift_of_atEnd hend]
  | @within _ _ k _ _ ih => exact ih (s := s.opening k) hend
  | @composite _ k _ _ ih => exact ih (s := s.opening k) hend
  | @compositeFrom _ cp k _ _ ih => exact ih (s := s.openingAt cp k) hend
  | @inBlock _ block _ _ ih => exact ih (s := { s with blocks := block :: s.blocks }) hend
  | @inWith _ _ target _ _ ih =>
    exact ih (s := { s with withTargets := target :: s.withTargets }) hend
  | onOneLine _ ih => exact ih (s := { s with lineMode := s.lineMode + 1 }) hend

/-- Whether the source ends within `n` tokens. -/
def State.EndsWithin (n : Nat) (s : State) : Prop := s.AtEnd ∨ s.stream.remaining ≤ n

/-- A production leads no further away from the end of the source. -/
theorem Composed.endsWithin {simple : Bool} {α : Type} {p : Production α} (h : Composed simple p)
    {n : Nat} {s : State} (hs : s.EndsWithin n) : (p.run s).2.EndsWithin n := by
  rcases hs with hend | hle
  · exact .inl (by rwa [State.AtEnd, h.stream_of_atEnd hend])
  · exact .inr (Nat.le_trans (h.follows s).remaining_le hle)

/-- A production that moves a token leads nearer to the end of the source. -/
theorem Composed.endsWithin_of_advances {simple : Bool} {α : Type} {p : Production α}
    (h : Composed simple p) [hadv : Advances p] {n : Nat} {s : State} (hs : s.EndsWithin (n + 1)) :
    (p.run s).2.EndsWithin n := by
  by_cases hend : s.AtEnd
  · exact .inl (by rwa [State.AtEnd, h.stream_of_atEnd hend])
  · have hlt := hadv.remaining_lt s hend
    have hle := hs.resolve_left hend
    exact .inr (by omega)

/-- Where the source ends within no token, it has ended. -/
theorem State.EndsWithin.atEnd {s : State} (h : s.EndsWithin 0) : s.AtEnd :=
  h.elim id fun hle => State.atEnd_of_remaining_eq_zero (Nat.le_zero.mp hle)

/-- Two productions that do the same when the source ends within `n` tokens. -/
class AgreeUpTo {α : Type} (n : Nat) (p q : Production α) : Prop where
  run_eq (s : State) : s.EndsWithin n → p.run s = q.run s

section

variable {α β : Type} {n : Nat} {p q : Production α}

instance : AgreeUpTo n p p where
  run_eq _ _ := rfl

instance AgreeUpTo.bind {f g : α → Production β} [h : AgreeUpTo n p q] [hp : Composed false p]
    [hf : ∀ a, AgreeUpTo n (f a) (g a)] : AgreeUpTo n (p >>= f) (q >>= g) where
  run_eq s hs := by
    rw [run_bind, run_bind, ← h.run_eq s hs]
    exact (hf _).run_eq _ (hp.endsWithin hs)

instance {f g : α → Production β} [hp : Composed false p] [hadv : Advances p]
    [hf : ∀ a, AgreeUpTo n (f a) (g a)] : AgreeUpTo (n + 1) (p >>= f) (p >>= g) where
  run_eq _ hs := (hf _).run_eq _ (hp.endsWithin_of_advances hs)

instance {k : NodeKind} [h : AgreeUpTo n p q] : AgreeUpTo n (within k p) (within k q) where
  run_eq s hs := by rw [run_within, run_within, h.run_eq (s.opening k) hs]

instance {k : NodeKind} {p q : Production Unit} [h : AgreeUpTo n p q] :
    AgreeUpTo n (composite k p) (composite k q) where
  run_eq s hs := by rw [run_composite, run_composite, h.run_eq (s.opening k) hs]

instance {cp : Checkpoint} {k : NodeKind} {p q : Production Unit} [h : AgreeUpTo n p q] :
    AgreeUpTo n (compositeFrom cp k p) (compositeFrom cp k q) where
  run_eq s hs := by
    rw [run_compositeFrom, run_compositeFrom, h.run_eq (s.openingAt cp k) hs]

instance {block : Block} [h : AgreeUpTo n p q] :
    AgreeUpTo n (inBlock block p) (inBlock block q) where
  run_eq s hs := by
    rw [run_inBlock, run_inBlock, h.run_eq { s with blocks := block :: s.blocks } hs]

instance {target : Option Tree} [h : AgreeUpTo n p q] :
    AgreeUpTo n (inWith target p) (inWith target q) where
  run_eq s hs := by
    rw [run_inWith, run_inWith, h.run_eq { s with withTargets := target :: s.withTargets } hs]

instance [h : AgreeUpTo n p q] : AgreeUpTo n (onOneLine p) (onOneLine q) where
  run_eq s hs := by
    rw [run_onOneLine, run_onOneLine, h.run_eq { s with lineMode := s.lineMode + 1 } hs]

instance {c : Prop} [Decidable c] {p' q' : Production α} [AgreeUpTo n p q] [AgreeUpTo n p' q'] :
    AgreeUpTo n (if c then p else p') (if c then q else q') := by
  split <;> infer_instance

/-- Loops agree up to as many tokens as their passes do. -/
theorem agreeUpTo_iterateUpTo {exhausted : α → β} {pass pass' : α → Production (Pass α β)}
    [∀ a, AgreeUpTo n (pass a) (pass' a)] [∀ a, Composed false (pass a)] (m : Nat) (a : α) :
    AgreeUpTo n (iterateUpTo exhausted pass m a) (iterateUpTo exhausted pass' m a) := by
  induction m generalizing a with
  | zero => unfold iterateUpTo; infer_instance
  | succ m ih =>
    unfold iterateUpTo
    refine @AgreeUpTo.bind _ _ _ _ _ _ _ inferInstance inferInstance fun r => ?_
    cases r with
    | again a => exact ih a
    | done b => dsimp only; infer_instance

instance {exhausted : α → β} {pass pass' : α → Production (Pass α β)}
    [∀ a, AgreeUpTo n (pass a) (pass' a)] [∀ a, Composed false (pass a)] (a : α) :
    AgreeUpTo n (iterate exhausted pass a) (iterate exhausted pass' a) where
  run_eq s hs := (agreeUpTo_iterateUpTo _ a).run_eq s hs

/-- Repetitions agree up to as many tokens as their bodies do. -/
theorem agreeUpTo_repeatWhileUpTo {test : Production Bool} {body body' : Production Unit}
    [AgreeUpTo n body body'] [Composed false test] [Composed false body] (m : Nat) :
    AgreeUpTo n (repeatWhileUpTo test body m) (repeatWhileUpTo test body' m) := by
  induction m with
  | zero => unfold repeatWhileUpTo; infer_instance
  | succ m ih => unfold repeatWhileUpTo; infer_instance

instance {test : Production Bool} {body body' : Production Unit} [AgreeUpTo n body body']
    [Composed false test] [Composed false body] :
    AgreeUpTo n (repeatWhile test body) (repeatWhile test body') where
  run_eq s hs := (agreeUpTo_repeatWhileUpTo _).run_eq s hs

instance {item item' : Production Unit} [AgreeUpTo n item item'] [Composed false item] :
    AgreeUpTo n (commaList item) (commaList item') := by
  unfold commaList
  infer_instance

end

/-! ## Expressions -/

section

variable {n : Nat} {x y : Nat → Production (Option Tree)} [∀ power, AgreeUpTo n (x power) (y power)]
  [∀ power, Composed false (x power)]

instance : AgreeUpTo n (argumentWith x) (argumentWith y) := by
  unfold argumentWith
  dsimp only
  infer_instance

instance (u : Unit) : AgreeUpTo n (argumentPass x u) (argumentPass y u) := by
  unfold argumentPass
  infer_instance

instance : AgreeUpTo (n + 1) (argumentListWith x) (argumentListWith y) := by
  unfold argumentListWith
  infer_instance

instance (cp : Checkpoint) (spacedCall : Bool) (base : Option Tree) :
    AgreeUpTo (n + 1) (suffixPass x cp spacedCall base) (suffixPass y cp spacedCall base) := by
  unfold suffixPass
  infer_instance

instance (cp : Checkpoint) (spacedCall : Bool) (base : Option Tree) :
    AgreeUpTo (n + 1) (suffixesWith x cp spacedCall base) (suffixesWith y cp spacedCall base) := by
  unfold suffixesWith
  infer_instance

instance (wanted : Wanted) (spacedCall : Bool) :
    AgreeUpTo (n + 1) (designatorWith x wanted spacedCall)
      (designatorWith y wanted spacedCall) := by
  unfold designatorWith
  infer_instance

instance : AgreeUpTo (n + 1) (calleeWith x) (calleeWith y) := by
  unfold calleeWith
  infer_instance

instance : AgreeUpTo (n + 1) (parenthesizedWith x) (parenthesizedWith y) := by
  unfold parenthesizedWith
  infer_instance

instance : AgreeUpTo (n + 1) (typeOfWith x) (typeOfWith y) := by
  unfold typeOfWith
  infer_instance

instance : AgreeUpTo (n + 1) (primaryWith x) (primaryWith y) := by
  unfold primaryWith
  refine @AgreeUpTo.bind _ _ _ _ _ _ _ _ _ fun t => ?_
  split
  · infer_instance
  · split <;> infer_instance

instance (cp : Checkpoint) (primary : Option Tree) :
    AgreeUpTo (n + 1) (operandSuffixes x cp primary) (operandSuffixes y cp primary) := by
  cases primary <;> unfold operandSuffixes <;> infer_instance

instance : AgreeUpTo (n + 1) (unaryWith x) (unaryWith y) := by
  unfold unaryWith
  refine @AgreeUpTo.bind _ _ _ _ _ _ _ _ _ fun _ => ?_
  refine @AgreeUpTo.bind _ _ _ _ _ _ _ _ _ fun kind => ?_
  split
  · infer_instance
  · split <;> infer_instance

instance (cp : Checkpoint) (power : Nat) (left : Option Tree) :
    AgreeUpTo (n + 1) (operatorPass x cp power left) (operatorPass y cp power left) := by
  unfold operatorPass
  refine @AgreeUpTo.bind _ _ _ _ _ _ _ _ _ fun kind => ?_
  split <;> infer_instance

instance (power : Nat) : AgreeUpTo (n + 1) (binaryWith x power) (binaryWith y power) := by
  unfold binaryWith
  infer_instance

end

/-! ### At the end -/

section

variable {x y : Nat → Production (Option Tree)} [∀ power, Composed false (x power)]

/-- At the end of the source there is no operand. -/
theorem run_primaryWith_of_atEnd (x : Nat → Production (Option Tree)) {s : State} (hend : s.AtEnd) :
    (primaryWith x).run s =
      (none, ((fail (.expected .expression s.stream.current) s.stream.current).run s).2) := by
  unfold primaryWith current
  rw [run_look_bind, hend]
  rfl

/-- At the end of the source an operand is missing. -/
theorem run_unaryWith_of_atEnd (x : Nat → Production (Option Tree)) {s : State} (hend : s.AtEnd) :
    (unaryWith x).run s =
      (none, ((fail (.expected .expression s.stream.current) s.stream.current).run s).2) := by
  have hblanks : skipBlanks.run s = ((), s) := run_skipBlanks_of_significant (by rw [hend]; rfl)
  have hpower : Operator.unaryPower? (.lexeme .endOfFile) = none := rfl
  unfold unaryWith currentKind
  rw [run_bind, hblanks, run_look_bind, hend, hpower]
  dsimp only
  rw [run_bind, run_checkpoint, run_bind, run_primaryWith_of_atEnd x hend]
  unfold operandSuffixes
  rw [run_pure]

instance : AgreeUpTo 0 (unaryWith x) (unaryWith y) where
  run_eq s hs := by
    have hend := hs.atEnd
    rw [run_unaryWith_of_atEnd x hend, run_unaryWith_of_atEnd y hend]

/-- At the end of the source there is no operator. -/
instance (cp : Checkpoint) (power : Nat) (left : Option Tree) :
    AgreeUpTo 0 (operatorPass x cp power left) (operatorPass y cp power left) where
  run_eq s hs := by
    have hend := hs.atEnd
    unfold operatorPass nextKind
    rw [run_look_bind, run_look_bind, kind_peekSignificant_of_atEnd hend]
    rfl

instance (power : Nat) : AgreeUpTo 0 (binaryWith x power) (binaryWith y power) := by
  unfold binaryWith
  infer_instance

end

/-- Expressions are the same under every bound above the number of tokens ahead. -/
theorem binaryUpTo_agree {n d e : Nat} (hd : n < d) (he : n < e) (power : Nat) :
    AgreeUpTo n (binaryUpTo d power) (binaryUpTo e power) := by
  induction n generalizing d e power with
  | zero =>
    obtain _ | d := d
    · omega
    obtain _ | e := e
    · omega
    unfold binaryUpTo
    infer_instance
  | succ n ih =>
    obtain _ | d := d
    · omega
    obtain _ | e := e
    · omega
    have hnested (power : Nat) : AgreeUpTo n (binaryUpTo d power) (binaryUpTo e power) :=
      ih (by omega) (by omega) power
    unfold binaryUpTo
    infer_instance

/-! ## Designer blocks -/

section

variable {n : Nat} {x y : Block → Production Unit}

instance [∀ block, AgreeUpTo n (x block) (y block)] (block? : Option Block) :
    AgreeUpTo n (blockOrProperty x block?) (blockOrProperty y block?) := by
  cases block? <;> unfold blockOrProperty <;> infer_instance

instance [∀ block, AgreeUpTo n (x block) (y block)] [∀ block, Composed false (x block)]
    (block : Block) (u : Unit) : AgreeUpTo n (designerPass x block u) (designerPass y block u) := by
  unfold designerPass
  infer_instance

/-- At the end of the source a designer block ends. -/
theorem agreeUpTo_designerPass_zero (block : Block) (u : Unit) :
    AgreeUpTo 0 (designerPass x block u) (designerPass y block u) where
  run_eq s hs := by
    have hend := hs.atEnd
    have hkind := kind_current_of_atEnd hend
    unfold designerPass current
    rw [run_look_bind, run_look_bind, if_pos hkind, if_pos hkind]

end

/-- Designer blocks are the same under every bound above the number of tokens ahead. -/
theorem designerUpTo_agree {n d e : Nat} (hd : n < d) (he : n < e) (block : Block) :
    AgreeUpTo n (designerUpTo d block) (designerUpTo e block) := by
  induction n generalizing d e block with
  | zero =>
    obtain _ | d := d
    · omega
    obtain _ | e := e
    · omega
    have hpass (u : Unit) : AgreeUpTo 0 (designerPass (designerUpTo d) block u)
        (designerPass (designerUpTo e) block u) := agreeUpTo_designerPass_zero block u
    unfold designerUpTo
    infer_instance
  | succ n ih =>
    obtain _ | d := d
    · omega
    obtain _ | e := e
    · omega
    have hnested (block : Block) : AgreeUpTo n (designerUpTo d block) (designerUpTo e block) :=
      ih (by omega) (by omega) block
    unfold designerUpTo
    infer_instance

/-! ## Statements -/

section

variable {n : Nat} {x y : Production Unit} [AgreeUpTo n x y] [Composed false x]

instance : AgreeUpTo n (statementPass x) (statementPass y) := by
  unfold statementPass
  infer_instance

instance (closer? : Option Closer) :
    AgreeUpTo n (closerOrStatementPass x closer?) (closerOrStatementPass y closer?) := by
  cases closer? <;> unfold closerOrStatementPass <;> infer_instance

instance : AgreeUpTo n (listPass x) (listPass y) := by
  unfold listPass
  infer_instance

instance (u : Unit) : AgreeUpTo n (statementsPass x u) (statementsPass y u) := by
  unfold statementsPass
  infer_instance

instance : AgreeUpTo n (statements x) (statements y) := by
  unfold statements
  infer_instance

instance (block : Block) : AgreeUpTo n (blockBody x block) (blockBody y block) := by
  unfold blockBody
  infer_instance

instance (endsAtElse : Bool) (u : Unit) :
    AgreeUpTo n (inlinePass x endsAtElse u) (inlinePass y endsAtElse u) := by
  unfold inlinePass
  infer_instance

instance (endsAtElse : Bool) :
    AgreeUpTo n (inlineStatements x endsAtElse) (inlineStatements y endsAtElse) := by
  unfold inlineStatements
  infer_instance

instance (endsAtElse : Bool) :
    AgreeUpTo n (inlineArm x endsAtElse) (inlineArm y endsAtElse) := by
  unfold inlineArm
  infer_instance

instance : AgreeUpTo n (inlineArms x) (inlineArms y) := by
  unfold inlineArms
  infer_instance

instance : AgreeUpTo n (singleLineIf x) (singleLineIf y) := by
  unfold singleLineIf
  infer_instance

instance (stop : Stop) : AgreeUpTo n (elseIfPass x stop) (elseIfPass y stop) := by
  unfold elseIfPass
  infer_instance

instance (stop : Stop) : AgreeUpTo n (elseBodyPass x stop) (elseBodyPass y stop) := by
  unfold elseBodyPass
  infer_instance

instance : AgreeUpTo n (elseClause x) (elseClause y) := by
  unfold elseClause
  infer_instance

instance : AgreeUpTo n (blockIf x) (blockIf y) := by
  unfold blockIf
  infer_instance

instance : AgreeUpTo (n + 1) (ifStatement x) (ifStatement y) := by
  unfold ifStatement
  infer_instance

instance : AgreeUpTo (n + 1) (forStatement x) (forStatement y) := by
  unfold forStatement
  infer_instance

instance : AgreeUpTo (n + 1) (doStatement x) (doStatement y) := by
  unfold doStatement
  infer_instance

instance : AgreeUpTo (n + 1) (whileStatement x) (whileStatement y) := by
  unfold whileStatement
  infer_instance

instance : AgreeUpTo (n + 1) (withStatement x) (withStatement y) := by
  unfold withStatement
  infer_instance

instance : AgreeUpTo n (caseClause x) (caseClause y) := by
  unfold caseClause
  infer_instance

instance (closer : Closer) :
    AgreeUpTo n (selectCloserPass x closer) (selectCloserPass y closer) := by
  unfold selectCloserPass
  infer_instance

instance (closer? : Option Closer) :
    AgreeUpTo n (closerOrLinePass x closer?) (closerOrLinePass y closer?) := by
  cases closer? <;> unfold closerOrLinePass <;> infer_instance

instance (u : Unit) : AgreeUpTo n (selectPass x u) (selectPass y u) := by
  unfold selectPass
  infer_instance

instance : AgreeUpTo (n + 1) (selectStatement x) (selectStatement y) := by
  unfold selectStatement
  infer_instance

instance : AgreeUpTo (n + 1) (procedure x) (procedure y) := by
  unfold procedure
  infer_instance

instance : AgreeUpTo (n + 1) (modifiedStatement x) (modifiedStatement y) := by
  unfold modifiedStatement
  refine @AgreeUpTo.bind _ _ _ _ _ _ _ _ _ fun _ => ?_
  split <;> infer_instance

/-- Statements that start with a keyword agree for one token more than those within them. -/
theorem keywordStatement?_agree (keyword : Keyword) :
    Option.Rel (AgreeUpTo (n + 1)) (keywordStatement? x keyword) (keywordStatement? y keyword) := by
  unfold keywordStatement?
  split
  case h_38 =>
    cases rawKind? keyword with
    | none => exact .none
    | some k => exact .some inferInstance
  all_goals exact .some inferInstance

/-- Statements that are opened by their first word agree for one token more than those within
them. -/
theorem openedStatement?_agree (s : TokenStream) :
    Option.Rel (AgreeUpTo (n + 1)) (openedStatement? x s) (openedStatement? y s) := by
  unfold openedStatement?
  split
  · split
    · exact keywordStatement?_agree _
    · exact .none
  · exact .none

instance : AgreeUpTo (n + 1) (statementAtCursor x) (statementAtCursor y) := by
  have hopened : AgreeUpTo (n + 1)
      (look (openedStatement? x) >>= fun p? => p?.getD plainStatement)
      (look (openedStatement? y) >>= fun p? => p?.getD plainStatement) := by
    refine ⟨fun s hs => ?_⟩
    rw [run_look_bind, run_look_bind]
    have hrel : Option.Rel (AgreeUpTo (n + 1)) (openedStatement? x s.stream)
        (openedStatement? y s.stream) := openedStatement?_agree s.stream
    generalize openedStatement? x s.stream = p?, openedStatement? y s.stream = q? at hrel ⊢
    cases hrel with
    | some h => exact h.run_eq s hs
    | none => rfl
  unfold statementAtCursor
  infer_instance

instance : AgreeUpTo (n + 1) (statementWith x) (statementWith y) := by
  unfold statementWith
  infer_instance

end

/-- At the end of the source no statement holds others. -/
theorem agreeUpTo_statementAtCursor_zero (x y : Production Unit) :
    AgreeUpTo 0 (statementAtCursor x) (statementAtCursor y) where
  run_eq s hs := by
    have hend := hs.atEnd
    have hnone (x : Production Unit) : openedStatement? x s.stream = none := by
      unfold openedStatement?
      rw [hend]
    unfold statementAtCursor
    rw [run_bind, run_bind, run_atLabel_snd]
    split
    · rfl
    · rw [run_look_bind, run_look_bind, hnone, hnone]

/-- Statements are the same under every bound above the number of tokens ahead. -/
theorem statementUpTo_agree {n d e : Nat} (hd : n < d) (he : n < e) :
    AgreeUpTo n (statementUpTo d) (statementUpTo e) := by
  induction n generalizing d e with
  | zero =>
    obtain _ | d := d
    · omega
    obtain _ | e := e
    · omega
    have hcursor := agreeUpTo_statementAtCursor_zero (statementUpTo d) (statementUpTo e)
    unfold statementUpTo statementWith
    infer_instance
  | succ n ih =>
    obtain _ | d := d
    · omega
    obtain _ | e := e
    · omega
    have hnested : AgreeUpTo n (statementUpTo d) (statementUpTo e) := ih (by omega) (by omega)
    unfold statementUpTo
    infer_instance

/-! ## Without a bound

The number of tokens ahead suffices as the bound. The readings that take it for their bound call
themselves for what is nested.
-/

/-- A statement, however deep the statements in it nest. -/
def statement : Production Unit := do
  statementUpTo ((← look (·.remaining)) + 1)

/-- A designer block, however deep the blocks in it nest. -/
def designerBlock (block : Block) : Production Unit := do
  designerUpTo ((← look (·.remaining)) + 1) block

section

variable {α : Type} {reading : Nat → Production α}

/-- A reading that is the same under every bound that suffices is the same without one. -/
theorem AgreeUpTo.unbounded
    (hagree : ∀ {n d e : Nat}, n < d → n < e → AgreeUpTo n (reading d) (reading e)) {n d : Nat}
    (hd : n < d) : AgreeUpTo n (reading d) (look (·.remaining) >>= fun m => reading (m + 1)) where
  run_eq s hs := by
    rw [run_look_bind]
    rcases hs with hend | hle
    · exact (hagree (Nat.zero_lt_of_lt hd) (Nat.zero_lt_succ _)).run_eq s (.inl hend)
    · exact (hagree (Nat.lt_of_le_of_lt hle hd) (Nat.lt_succ_self _)).run_eq s
        (.inr (Nat.le_refl _))

end

/-- Statements of some depth agree with those of any depth up to as many tokens. -/
theorem agreeUpTo_statement {n d : Nat} (hd : n < d) : AgreeUpTo n (statementUpTo d) statement :=
  .unbounded statementUpTo_agree hd

/-- Expressions of some depth agree with those of any depth up to as many tokens. -/
theorem agreeUpTo_expressionAbove {n d : Nat} (hd : n < d) (power : Nat) :
    AgreeUpTo n (binaryUpTo d power) (expressionAbove power) :=
  .unbounded (fun hd he => binaryUpTo_agree hd he power) hd

/-- Designer blocks of some depth agree with those of any depth up to as many tokens. -/
theorem agreeUpTo_designerBlock {n d : Nat} (hd : n < d) (block : Block) :
    AgreeUpTo n (designerUpTo d block) (designerBlock block) :=
  .unbounded (fun hd he => designerUpTo_agree hd he block) hd

/-- A statement reads the statements in it as it is read itself. -/
theorem run_statement (s : State) : statement.run s = (statementWith statement).run s := by
  have hunfold : statement.run s = (statementWith (statementUpTo s.stream.remaining)).run s := by
    unfold statement
    rw [run_look_bind, statementUpTo]
  rw [hunfold]
  cases hremaining : s.stream.remaining with
  | zero =>
    have hcursor := agreeUpTo_statementAtCursor_zero (statementUpTo 0) statement
    have hagree : AgreeUpTo 0 (statementWith (statementUpTo 0)) (statementWith statement) := by
      unfold statementWith
      infer_instance
    exact hagree.run_eq s (.inr (Nat.le_of_eq hremaining))
  | succ n =>
    have hnested : AgreeUpTo n (statementUpTo (n + 1)) statement :=
      agreeUpTo_statement (Nat.lt_succ_self _)
    have hagree : AgreeUpTo (n + 1) (statementWith (statementUpTo (n + 1)))
        (statementWith statement) := inferInstance
    exact hagree.run_eq s (.inr (Nat.le_of_eq hremaining))

/-- An expression reads the expressions in it as it is read itself. -/
theorem run_expressionAbove (power : Nat) (s : State) :
    (expressionAbove power).run s = (binaryWith expressionAbove power).run s := by
  have hunfold : (expressionAbove power).run s =
      (binaryWith (binaryUpTo s.stream.remaining) power).run s := by
    unfold expressionAbove
    rw [run_look_bind, binaryUpTo]
  rw [hunfold]
  cases hremaining : s.stream.remaining with
  | zero =>
    have hcomposed (power : Nat) : Composed false (binaryUpTo 0 power) := inferInstance
    have hagree : AgreeUpTo 0 (binaryWith (binaryUpTo 0) power)
        (binaryWith expressionAbove power) := inferInstance
    exact hagree.run_eq s (.inr (Nat.le_of_eq hremaining))
  | succ n =>
    have hnested (power : Nat) : AgreeUpTo n (binaryUpTo (n + 1) power) (expressionAbove power) :=
      agreeUpTo_expressionAbove (Nat.lt_succ_self _) power
    have hagree : AgreeUpTo (n + 1) (binaryWith (binaryUpTo (n + 1)) power)
        (binaryWith expressionAbove power) := inferInstance
    exact hagree.run_eq s (.inr (Nat.le_of_eq hremaining))

/-- A designer block reads the blocks in it as it is read itself. -/
theorem run_designerBlock (block : Block) (s : State) :
    (designerBlock block).run s = (within .propertiesBlock do
      shift
      shiftRest
      finishStatement
      iterate (fun _ => ()) (designerPass designerBlock block) ()).run s := by
  have hunfold : (designerBlock block).run s = (within .propertiesBlock do
      shift
      shiftRest
      finishStatement
      iterate (fun _ => ()) (designerPass (designerUpTo s.stream.remaining) block) ()).run s := by
    unfold designerBlock
    rw [run_look_bind, designerUpTo]
  rw [hunfold]
  cases hremaining : s.stream.remaining with
  | zero =>
    have hpass (u : Unit) : AgreeUpTo 0 (designerPass (designerUpTo 0) block u)
        (designerPass designerBlock block u) := agreeUpTo_designerPass_zero block u
    exact AgreeUpTo.run_eq (n := 0) s (.inr (Nat.le_of_eq hremaining))
  | succ n =>
    have hnested (block : Block) : AgreeUpTo n (designerUpTo (n + 1) block) (designerBlock block) :=
      agreeUpTo_designerBlock (Nat.lt_succ_self _) block
    exact AgreeUpTo.run_eq (n := n + 1) s (.inr (Nat.le_of_eq hremaining))

/-- A source is read by statements that read the statements in them as they are read themselves. -/
theorem run_source_statement (s : State) :
    source.run s = (within .root do let _ ← statements statement).run s := by
  have hunfold : source.run s =
      (within .root do let _ ← statements (statementUpTo (s.stream.remaining + 1))).run s := by
    unfold source
    rw [run_look_bind]
  have hnested : AgreeUpTo s.stream.remaining (statementUpTo (s.stream.remaining + 1)) statement :=
    agreeUpTo_statement (Nat.lt_succ_self _)
  rw [hunfold]
  exact AgreeUpTo.run_eq (n := s.stream.remaining) s (.inr (Nat.le_refl _))

end Grammar

end LosslessBasic
