import LosslessBasic.Proofs.Grammar.Succession
import LosslessBasic.Proofs.Program.Lines

/-!
# Lists of lines

In its source a line is read as it is by itself (`State.OnLine.reads`). A list of statements passes
over the blanks in front of a line, reads the statement on it, and ends before the closer of the
innermost block.
-/

namespace LosslessBasic

/-- Tokens without the blanks in front of them. -/
def Lexer.behindBlanks (tokens : List Token) : List Token :=
  tokens.dropWhile fun t => t.kind == .trivia .whitespace

namespace Grammar

/-! ## Where a text comes next -/

/-- Whether the tokens from the cursor on are those of a text. -/
def State.Before (s : State) (text : Bytes) : Prop :=
  ∃ file p, s.stream.rest = Lexer.tokensFrom file 0 p text

/-- Whether the tokens from the cursor on are those of a text without the blanks in front of it. -/
def State.OnText (s : State) (text : Bytes) : Prop :=
  ∃ file p, s.stream.rest = Lexer.behindBlanks (Lexer.tokensFrom file 0 p text)

/-- Whether tokens of the given kinds and a line break come next and a text behind them. -/
def State.OnLine (s : State) (kinds : List Kind) (more : Bytes) : Prop :=
  ∃ line rest, s.stream.rest = line ++ rest ∧ line.map Token.kind = kinds ++ [.trivia .newline] ∧
    ∃ file p, rest = Lexer.tokensFrom file 0 p more

section

variable {s t : State} {words : String} {k : Kind} {kinds : List Kind} {m : Program.Margin}
  {more : Bytes}

/-- At least the end marker is read of a text. -/
theorem Lexer.tokensFrom_ne_nil (file : UInt32) (within : Nat) (p : Position) (bytes : Bytes) :
    Lexer.tokensFrom file within p bytes ≠ [] := by
  obtain ⟨ts, q, htokens, -⟩ := Lexer.tokensFrom_eq_append file within p bytes
  simp [htokens]

/-- On a line the kinds of its tokens are known. -/
theorem State.OnText.onLine (h : s.OnText (m.line words ++ more))
    (hwords : Lexer.Spells words (k :: kinds))
    (hk : k ≠ .trivia .whitespace) : s.OnLine (k :: kinds) more := by
  obtain ⟨file, p, hrest⟩ := h
  obtain ⟨blanks, line, q, htokens, hblanks, hkinds⟩ :=
    Lexer.exists_tokensFrom_line hwords m file p more
  refine ⟨line, _, ?_, hkinds, file, q, rfl⟩
  have hblank (t : Token) (ht : t ∈ blanks) : (t.kind == .trivia .whitespace) = true := by
    rw [hblanks t ht]
    rfl
  rw [hrest, htokens, Lexer.behindBlanks, List.dropWhile_append_of_pos hblank]
  cases line with
  | nil => cases hkinds
  | cons t line =>
    have ht : t.kind = k := (List.cons.inj hkinds).1
    rw [List.cons_append, List.dropWhile_cons_of_neg (by simpa [ht] using hk)]

/-- A state is on a line where its stream is. -/
theorem State.OnLine.of_stream_eq (h : s.OnLine kinds more) (hstream : t.stream = s.stream) :
    t.OnLine kinds more := by
  unfold State.OnLine at h ⊢
  rwa [hstream]

/-- The kind at the cursor is the first of its line. -/
theorem kind_current_of_onLine (h : s.OnLine (k :: kinds) more) : s.stream.current.kind = k := by
  obtain ⟨line, rest, hrest, hkinds, -⟩ := h
  cases line with
  | nil => cases hkinds
  | cons t line =>
    rw [(List.cons.inj hrest).1]
    exact (List.cons.inj hkinds).1

/-- What comes next on a line, blanks left out. -/
theorem kind_peekSignificant_of_onLine (h : s.OnLine kinds more) {n : Nat}
    (hk : ((kinds ++ [Kind.trivia .newline]).filter fun k => !k.isInlineTrivia)[n]? = some k) :
    (s.stream.peekSignificant n).kind = k := by
  obtain ⟨line, rest, hrest, hkinds, -⟩ := h
  rw [← hkinds, List.filter_map, List.getElem?_map] at hk
  obtain ⟨t, ht, rfl⟩ := Option.map_eq_some_iff.mp hk
  have hsolid : (line.filter TokenStream.isSolid)[n]? = some t := ht
  rw [TokenStream.peekSignificant_eq, hrest, List.filter_append,
    List.getElem?_append_left (List.getElem?_eq_some_iff.mp hsolid).1, hsolid]
  rfl

/-- What a production makes of a line by itself it makes of the line in its source. -/
theorem State.OnLine.reads {α : Type} [Placeable α] {p : Production α} [Composed false p]
    {pre : State → Prop} {post : α → State → Prop} {inWith : Bool} {remaining : Nat}
    {separator : Separator} (front behind : List Kind) (h : s.OnLine kinds more) (hs : s.Calm)
    (hp : ∀ P, Carries P pre p p post)
    (hdigests : Digests inWith p (kinds ++ [.trivia .newline]) s.lastSeparator remaining separator)
    (hwith : inWith = true → s.withTargets ≠ [])
    (hpre : ∀ line : List Token, line.map Token.kind = kinds ++ [.trivia .newline] →
      pre (.onLine line s.builder.anchor s.blocks s.withTargets s.lastSeparator))
    (hkinds : kinds ++ [.trivia .newline] = front ++ behind)
    (hremaining : remaining = behind.length) :
    s.Reads [] (p.run s).2 ∧ (p.run s).2.lastSeparator = separator ∧
      (p.run s).2.stream.remaining + front.length = s.stream.remaining ∧
      ∃ left rest, (p.run s).2.stream.rest = left ++ rest ∧ left.map Token.kind = behind ∧
        ∃ file q, rest = Lexer.tokensFrom file 0 q more := by
  obtain ⟨line, rest, hrest, hline, file, q, hmore⟩ := h
  obtain ⟨first, left, rfl, hfirst, hleft⟩ := List.map_eq_append_iff.mp (hline.trans hkinds)
  have hne : rest ≠ [] := by
    rw [hmore]
    exact Lexer.tokensFrom_ne_nil file 0 q more
  have hlength : remaining = left.length := by rw [hremaining, ← hleft, List.length_map]
  rw [hlength] at hdigests
  obtain ⟨hreads, hbehind, hseparator⟩ := Carries.reads hp hdigests hs hwith
    (by rw [hrest, List.append_assoc]) hne hline (by simp) (hpre _ hline)
  refine ⟨hreads, hseparator, ?_, left, rest, hbehind, hleft, file, q, hmore⟩
  have hbefore := congrArg List.length hrest
  have hafter := congrArg List.length hbehind
  simp only [TokenStream.length_rest, List.length_append] at hbefore hafter
  rw [← hfirst, List.length_map]
  omega

/-- A line is read up to the text behind it. -/
theorem State.OnLine.readsAll {α : Type} [Placeable α] {p : Production α} [Composed false p]
    {pre : State → Prop} {post : α → State → Prop} {inWith : Bool} {separator : Separator}
    (h : s.OnLine kinds more) (hs : s.Calm) (hp : ∀ P, Carries P pre p p post)
    (hdigests : Digests inWith p (kinds ++ [.trivia .newline]) s.lastSeparator 0 separator)
    (hwith : inWith = true → s.withTargets ≠ [])
    (hpre : ∀ line : List Token, line.map Token.kind = kinds ++ [.trivia .newline] →
      pre (.onLine line s.builder.anchor s.blocks s.withTargets s.lastSeparator)) :
    s.Reads [] (p.run s).2 ∧ (p.run s).2.lastSeparator = separator ∧ (p.run s).2.Before more ∧
      (p.run s).2.stream.remaining < s.stream.remaining := by
  obtain ⟨hreads, hseparator, hremaining, left, rest, hrest, hleft, hmore⟩ :=
    h.reads _ [] hs hp hdigests hwith hpre (List.append_nil _).symm rfl
  obtain rfl := List.map_eq_nil_iff.mp hleft
  obtain ⟨file, q, rfl⟩ := hmore
  refine ⟨hreads, hseparator, ⟨file, q, hrest⟩, ?_⟩
  simp only [List.length_append, List.length_cons] at hremaining
  omega

/-- What comes next on a line by itself. -/
theorem kind_peekSignificant_onLine {line : List Token} {a : Anchor} {blocks : List Block}
    {targets : List (Option Tree)} {separator : Separator}
    (hline : line.map Token.kind = kinds ++ [.trivia .newline]) {n : Nat}
    (hk : ((kinds ++ [Kind.trivia .newline]).filter fun k => !k.isInlineTrivia)[n]? = some k) :
    ((State.onLine line a blocks targets separator).stream.peekSignificant n).kind = k := by
  rw [← hline, List.filter_map, List.getElem?_map] at hk
  obtain ⟨t, ht, rfl⟩ := Option.map_eq_some_iff.mp hk
  have hsolid : (line.filter TokenStream.isSolid)[n]? = some t := ht
  change ((lineStream line).peekSignificant n).kind = _
  rw [TokenStream.peekSignificant_eq, rest_lineStream, List.filter_append,
    List.getElem?_append_left (List.getElem?_eq_some_iff.mp hsolid).1, hsolid]
  rfl

/-- On the first word of a line by itself. -/
theorem onWord_onLine {line : List Token} {a : Anchor} {blocks : List Block}
    {targets : List (Option Tree)} {separator : Separator}
    (hline : line.map Token.kind = k :: kinds ++ [.trivia .newline])
    (hk : k.isInlineTrivia = false ∧ ¬ EndsLook k) :
    (State.onLine line a blocks targets separator).OnWord := by
  cases line with
  | nil => cases hline
  | cons t line =>
    obtain rfl : t.kind = k := (List.cons.inj hline).1
    exact hk

end

/-! ## Blanks -/

/-- Between two states blanks have been moved. -/
structure State.Skips (s t : State) : Prop where
  added : ∃ blanks : List Token, s.Adds (blanks.map .leaf) t ∧
    ∀ b ∈ blanks, b.kind = .trivia .whitespace
  failures : t.failures = s.failures
  recovering : t.recovering = s.recovering
  pendingNext : t.pendingNext = s.pendingNext
  lastSeparator : t.lastSeparator = s.lastSeparator

namespace State.Skips

variable {s t u : State}

/-- A state skips nothing. -/
theorem refl (s : State) : s.Skips s := ⟨⟨[], .refl s, by simp⟩, rfl, rfl, rfl, rfl⟩

/-- Blanks that are skipped in two steps are skipped in a row. -/
theorem trans (h : s.Skips t) (h' : t.Skips u) : s.Skips u := by
  obtain ⟨blanks, hadds, hblanks⟩ := h.added
  obtain ⟨more, hadds', hmore⟩ := h'.added
  refine ⟨⟨blanks ++ more, ?_, fun b hb => ?_⟩, h'.failures.trans h.failures,
    h'.recovering.trans h.recovering, h'.pendingNext.trans h.pendingNext,
    h'.lastSeparator.trans h.lastSeparator⟩
  · rw [List.map_append]
    exact hadds.trans hadds'
  · exact (List.mem_append.mp hb).elim (hblanks b) (hmore b)

/-- A blank that is moved is skipped. -/
theorem shifted (h : s.stream.current.kind = .trivia .whitespace) : s.Skips s.shifted := by
  have hend : ¬ s.AtEnd := by
    unfold State.AtEnd
    simp [h]
  exact ⟨⟨[s.stream.current], .shifted hend, by simpa using h⟩, rfl, rfl, rfl, rfl⟩

/-- Blanks hold no block and nothing of unknown meaning. -/
theorem reads (h : s.Skips t) (hs : s.Calm) : s.Reads [] t := by
  obtain ⟨blanks, hadds, hblanks⟩ := h.added
  have hblank : Tree.nestingAll (blanks.map .leaf) = [] ∧
      Tree.findIn? (.node .unknown) (blanks.map .leaf) = none := by
    clear hadds
    induction blanks with
    | nil => exact ⟨rfl, rfl⟩
    | cons b blanks ih =>
      obtain ⟨hnesting, hfind⟩ := ih fun b hb => hblanks b (List.mem_cons_of_mem _ hb)
      have hkind := hblanks b (List.mem_cons_self ..)
      simp [Tree.nestingAll, Tree.nesting, Tree.findIn?, Tree.find?, hkind, hnesting, hfind]
  exact ⟨⟨_, hadds, hblank⟩, h.failures, h.recovering.trans hs.recovering,
    h.pendingNext.trans hs.pendingNext⟩

end State.Skips

section

variable {s : State}

/-- A loop whose passes move blanks goes on behind the blanks in front. -/
theorem run_iterate_behindBlanks {β : Type} {exhausted : Unit → β}
    {pass : Unit → Production (Pass Unit β)}
    [∀ u, Progresses (pass u)]
    (hpass : ∀ s : State, s.Calm → s.stream.current.kind = .trivia .whitespace →
      (pass ()).run s = (.again (), s.shifted)) (hs : s.Calm) :
    ∃ t, (iterate exhausted pass ()).run s = (iterate exhausted pass ()).run t ∧ s.Skips t ∧
      t.stream.rest = Lexer.behindBlanks s.stream.rest := by
  generalize hn : s.stream.remaining = n
  induction n using Nat.strongRecOn generalizing s with
  | ind n ih =>
    by_cases hblank : s.stream.current.kind = .trivia .whitespace
    · have hrun := hpass s hs hblank
      have hskips := State.Skips.shifted hblank
      have hend : s.stream.current.kind ≠ .lexeme .endOfFile := by simp [hblank]
      have hrest : s.stream.rest = s.stream.current :: s.shifted.stream.rest :=
        TokenStream.rest_advance (TokenStream.ahead_ne_nil hend)
      have hlt : s.shifted.stream.remaining < s.stream.remaining := by
        have hlength := congrArg List.length hrest
        rw [List.length_cons, TokenStream.length_rest, TokenStream.length_rest] at hlength
        omega
      obtain ⟨t, hloop, hskips', hrest'⟩ := ih _ (by omega) ((hskips.reads hs).calm hs) rfl
      refine ⟨t, ?_, hskips.trans hskips', ?_⟩
      · rw [run_iterate_of_again (by rw [hrun]), hrun]
        exact hloop
      · rw [hrest', hrest, Lexer.behindBlanks, Lexer.behindBlanks,
          List.dropWhile_cons_of_pos (by simp [hblank])]
    · refine ⟨s, rfl, .refl s, ?_⟩
      rw [Lexer.behindBlanks, TokenStream.rest, List.dropWhile_cons_of_neg (by simpa using hblank)]

end

/-! ## Statements -/

/-- Whether a statement that is neither a procedure nor a closer may start with a token of a
kind. -/
def startsStatement : Kind → Bool
  | .lexeme .identifier | .lexeme .period | .keyword .call | .keyword .dim | .keyword .set
  | .keyword .if_ | .keyword .for_ | .keyword .do_ | .keyword .while_ | .keyword .with_
  | .keyword .select => true
  | _ => false

/-- What starts a statement is no trivia, no colon and no closer, and no procedure starts with
it. -/
theorem of_startsStatement {k : Kind} (h : startsStatement k = true) :
    (k.isTrivia = false ∧ (k == .lexeme .colon) = false ∧ (k == .lexeme .endOfFile) = false) ∧
      (∀ second, Closer.ofKinds? k second = none) ∧
      (k.isInlineTrivia || Lookahead.isModifier k) = false ∧
      k ≠ .keyword .sub ∧ k ≠ .keyword .function ∧ k ≠ .keyword .property := by
  unfold startsStatement at h
  split at h <;> first | exact ⟨by decide, fun _ => rfl, by decide⟩ | cases h

/-- A word that starts a statement is no inline trivia, and ends no look ahead. -/
theorem onWord_of_startsStatement {k : Kind} (h : startsStatement k = true) :
    k.isInlineTrivia = false ∧ ¬ EndsLook k := by
  unfold startsStatement at h
  split at h <;> first | exact ⟨rfl, by simp [EndsLook]⟩ | cases h

section

variable (statement : Production Unit) [Composed false statement] [Advances statement] {s : State}

/-- A list of statements passes over the blanks in front. -/
theorem run_statements_behindBlanks (hs : s.Calm) :
    ∃ t, (statements statement).run s = (statements statement).run t ∧ s.Skips t ∧
      t.stream.rest = Lexer.behindBlanks s.stream.rest := by
  refine run_iterate_behindBlanks (fun s hs hblank => ?_) hs
  unfold statementsPass current
  rw [run_look_bind, if_neg (by simp [hblank]), run_bind, run_get, if_neg (by simp [hs.lineMode])]
  unfold listPass
  rw [run_bind, run_currentKind]
  dsimp only
  rw [hblank, if_pos (by rfl), run_bind, run_shiftTrivia, hblank, if_neg (by decide),
    run_shift (by simp [hblank])]
  rfl

/-- A list of statements passes over a colon behind a statement. -/
theorem run_statements_behindColon (hs : s.Calm) (hcolon : s.stream.current.kind = .lexeme .colon)
    (hseparator : s.lastSeparator = .none) :
    ∃ t, (statements statement).run s = (statements statement).run t ∧ s.Reads [] t ∧
      s.stream.rest = s.stream.current :: t.stream.rest ∧ t.lastSeparator = .colon := by
  have hend : ¬ s.AtEnd := by
    unfold State.AtEnd
    rw [hcolon]
    simp
  have hpass : (statementsPass statement ()).run s =
      (.again (), { s.shifted with lastSeparator := .colon }) := by
    unfold statementsPass current
    rw [run_look_bind, if_neg (by simp [hcolon]), run_bind, run_get, if_neg (by simp [hs.lineMode])]
    unfold listPass
    rw [run_bind, run_currentKind]
    dsimp only
    rw [hcolon, if_neg (by simp [Kind.isTrivia]), if_pos (by rfl)]
    unfold separator
    rw [run_bind, run_bind, run_get]
    dsimp only
    rw [hseparator, if_pos (by rfl), run_bind, run_shift hend]
    rfl
  refine ⟨{ s.shifted with lastSeparator := .colon },
    by unfold statements; rw [run_iterate_of_again (by rw [hpass]), hpass], ?_,
    TokenStream.rest_advance (TokenStream.ahead_ne_nil hend), rfl⟩
  obtain ⟨hcontext, hpending, hrest⟩ := State.Adds.shifted hend
  refine ⟨⟨_, ⟨⟨hcontext.opened, rfl, rfl, rfl⟩, hpending, hrest⟩, rfl, ?_⟩, rfl, hs.recovering,
    hs.pendingNext⟩
  simp [Tree.findIn?, Tree.find?, hcolon]

/-- A list of statements goes on behind a statement. -/
theorem run_statements_behindStatement (hs : s.Calm)
    (hfirst : startsStatement s.stream.current.kind = true)
    (hpending : (statement.run s).2.pendingNext = 0) :
    (statements statement).run s = (statements statement).run (statement.run s).2 := by
  obtain ⟨⟨htrivia, hcolon, hend⟩, hcloser, hmodifier, hsub, hfunction, hproperty⟩ :=
    of_startsStatement hfirst
  -- the line starts neither with a closer nor with a header, so a single pass reads the statement
  have hheader : Lookahead.startsProcedure s.stream.rest = false := by
    unfold Lookahead.startsProcedure Lookahead.afterModifiers TokenStream.rest
    rw [List.dropWhile_cons_of_neg (by simp [hmodifier])]
    dsimp only
    split
    · exact absurd ‹_› hsub
    · exact absurd ‹_› hfunction
    · exact absurd ‹_› hproperty
    · rfl
  have hzero : s.stream.peekSignificant 0 = s.stream.current :=
    TokenStream.peekSignificant_zero (by simp_all)
  have hpass : (statementsPass statement ()).run s = (.again (), (statement.run s).2) := by
    unfold statementsPass current
    rw [run_look_bind, if_neg (by simp [hend]), run_bind, run_get, if_neg (by simp [hs.lineMode])]
    unfold listPass
    rw [run_bind, run_currentKind]
    dsimp only
    rw [if_neg (by simp [htrivia]), if_neg (by simp [hcolon])]
    unfold nextCloser?
    rw [run_look_bind, hzero, hcloser]
    unfold closerOrStatementPass atProcedureHeader
    have hprocedure : (insideProcedure.run s).2 = s := rfl
    rw [run_bind, hprocedure, run_look_bind, hheader, Bool.and_false, if_neg Bool.false_ne_true]
    unfold statementPass
    rw [run_bind, run_bind, run_get]
    dsimp only
    rw [hpending, if_neg (by simp)]
    rfl
  unfold statements
  rw [run_iterate_of_again (by rw [hpass]), hpass]

omit [Composed false statement] [Advances statement] in
/-- A list of statements ends before the closer of the innermost block. -/
theorem run_statements_ownCloser (hs : s.Calm) {word : Keyword} {second : Kind} {closer : Closer}
    (hfirst : s.stream.current.kind = .keyword word)
    (hsecond : (s.stream.peekSignificant 1).kind = second)
    (hcloser : Closer.ofKinds? (.keyword word) second = some closer)
    (hblock : s.blocks.head? = some closer.block) :
    (statements statement).run s = (.ownCloser, s) := by
  have hzero : s.stream.peekSignificant 0 = s.stream.current :=
    TokenStream.peekSignificant_zero (by rw [hfirst]; rfl)
  have hpass : (statementsPass statement ()).run s = (.done .ownCloser, s) := by
    unfold statementsPass current
    rw [run_look_bind, if_neg (by simp [hfirst]), run_bind, run_get, if_neg (by simp [hs.lineMode])]
    unfold listPass
    rw [run_bind, run_currentKind]
    dsimp only
    rw [hfirst, if_neg (by simp [Kind.isTrivia]), if_neg (by simp)]
    unfold nextCloser?
    rw [run_look_bind, hzero, hfirst, hsecond, hcloser]
    unfold closerOrStatementPass closerPass
    rw [run_bind, run_get]
    dsimp only
    rw [hblock, if_pos (by simp)]
    rfl
  unfold statements
  rw [run_iterate_of_done (by rw [hpass]), hpass]

end

end Grammar

end LosslessBasic
