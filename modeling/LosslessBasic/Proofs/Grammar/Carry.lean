import LosslessBasic.Proofs.Grammar.Parts
import LosslessBasic.Proofs.Grammar.Regular

/-!
# Reading statements at another place

A statement may move the last line break of a text. In a text that is followed by others, what comes
behind it is then no longer the same in both readings, so nothing may be looked at any more: the two
readings part when a block is still open, and they go on from the same point when none is. They do
not part where the header of a procedure follows and all that is open is open within a procedure:
the header ends there what the end of the text ends (`Carries.of_missingCloser`).

`Carries P pre p q post` says of two productions that they agree on the states that satisfy `pre`
and lead to states that satisfy `post`, as long as what is read permits what follows
(`Placement.Permits`). The conditions speak of the text that is followed by others only; a text that
is not is read the same throughout.

`Settles P pre p q` is the case of whole statements, which are instances: they lead to states where
the end of the text is met as the beginning of a text is.
-/

namespace LosslessBasic

namespace TokenStream

/-- A stream ends with the same token however far it has been moved. -/
theorem last_eq_of_suffix {s t : TokenStream} {moved : List Token} (h : s.rest = moved ++ t.rest) :
    t.last = s.last := by
  unfold last
  simp only [h]
  exact (List.getLast_append_of_ne_nil _ t.rest_ne_nil).symm

end TokenStream

namespace Grammar

/-! ## Conditions -/

namespace State

/-- Whether a block was found open at the end of the text. -/
def Unclosed (s : State) : Prop :=
  ∃ block, Failure.atToken (.missingCloser block s.stream.last) s.stream.last ∈ s.failures.toList

/-- What was found open stays reported. -/
theorem Unclosed.of_follows {s t : State} (hs : s.Unclosed) (h : s.Follows t) : t.Unclosed := by
  obtain ⟨block, hblock⟩ := hs
  obtain ⟨moved, hrest, -⟩ := h.moved
  refine ⟨block, ?_⟩
  rw [TokenStream.last_eq_of_suffix hrest]
  exact h.failures.subset hblock

/-- A closer that is missed at the end of the text is one of a block that was found open. -/
theorem AtEnd.unclosed {s : State} (hend : s.AtEnd) (hs : s.stream.Sound) (block : Block) :
    ((report (.missingCloser block s.stream.current) s.stream.current).run s).2.Unclosed := by
  have hrest : s.stream.ahead = [] := by
    rw [← List.length_eq_zero_iff, ← s.stream.remaining_eq]
    exact hend.remaining_eq_zero hs
  have hlast : s.stream.last = s.stream.current := by
    simp [TokenStream.last, TokenStream.rest, hrest]
  refine ⟨block, ?_⟩
  change Failure.atToken (.missingCloser block s.stream.last) s.stream.last ∈
    (s.failures.push (.atToken (.missingCloser block s.stream.current) s.stream.current)).toList
  rw [hlast, Array.toList_push]
  exact List.mem_append_right _ (List.mem_singleton.mpr rfl)

/-- Away from the end. -/
def Inside (s : State) : Prop := ¬ s.AtEnd

/-- In front of something on the line. -/
def InLine (s : State) : Prop := s.Inside ∧ (s.stream.peekSignificant 0).kind ≠ .trivia .newline

/-- On a token of the line that is no blank. -/
def OnWord (s : State) : Prop :=
  s.stream.current.kind.isInlineTrivia = false ∧ ¬ EndsLook s.stream.current.kind

/-- Where the end is met, it is met as the beginning of a text is: outside of a single-line `If`,
and, unless a block is found open, behind a line break. -/
def Settled (s : State) : Prop :=
  s.AtEnd → (¬ s.Unclosed → s.lastSeparator = .lineBreak) ∧ s.lineMode = 0

/-- In front of the end of a source, what is no trivia is a word. -/
theorem onWord_of_not_isTrivia {s : State} (h : s.stream.current.kind.isTrivia = false)
    (hinside : s.Inside) : s.OnWord := by
  refine ⟨?_, ?_⟩
  · revert h
    cases s.stream.current.kind with
    | trivia t => simp [Kind.isTrivia]
    | _ => simp [Kind.isInlineTrivia]
  · rintro (hnewline | hend)
    · rw [hnewline] at h
      cases h
    · exact hinside hend

/-- A word stands in front of the end of the source. -/
theorem OnWord.inside {s : State} (h : s.OnWord) : s.Inside := fun hend => h.2 (.inr hend)

/-- A word stands in front of the end of its line. -/
theorem OnWord.inLine {s : State} (h : s.OnWord) : s.InLine := by
  refine ⟨h.inside, ?_⟩
  rw [TokenStream.peekSignificant_zero h.1]
  exact fun hnewline => h.2 (.inl hnewline)

/-- In front of the end of the source nothing has to be settled. -/
theorem Inside.settled {s : State} (h : s.Inside) : s.Settled := fun hend => absurd hend h

end State

/-- At the header of a procedure. -/
structure State.AtHeader (header : Token) (s : State) : Prop where
  current : s.stream.current = header
  solid : header.kind.isTrivia = false
  starts : Lookahead.startsProcedure s.stream.rest = true

namespace State.AtHeader

variable {header : Token} {s : State}

/-- Behind its modifiers a header of a procedure has the word that names its sort. -/
theorem modifiedKind (h : s.AtHeader header) :
    Lookahead.modifiedKind s.stream.rest ∈
      [.keyword .sub, .keyword .function, .keyword .property] := by
  have hstarts := h.starts
  unfold Lookahead.startsProcedure at hstarts
  unfold Lookahead.modifiedKind
  cases hrest : Lookahead.afterModifiers s.stream.rest with
  | nil => simp [hrest] at hstarts
  | cons t rest =>
    rw [hrest] at hstarts
    dsimp only at hstarts
    change t.kind ∈ _
    split at hstarts <;> simp_all

/-- A header starts with a modifier, or with the word behind the modifiers. -/
theorem kind_mem (h : s.AtHeader header) :
    header.kind ∈ [.keyword .private_, .keyword .public_, .keyword .friend, .keyword .global,
      .keyword .static_, .keyword .sub, .keyword .function, .keyword .property] := by
  have hword := h.modifiedKind
  rw [TokenStream.rest, h.current] at hword
  by_cases hmodifier : Lookahead.isModifier header.kind = true
  · unfold Lookahead.isModifier at hmodifier
    split at hmodifier <;> simp_all
  · have hblank : header.kind.isInlineTrivia = false := by
      have hsolid := h.solid
      revert hsolid
      cases header.kind <;> simp [Kind.isTrivia, Kind.isInlineTrivia]
    unfold Lookahead.modifiedKind Lookahead.afterModifiers at hword
    rw [List.dropWhile_cons_of_neg (by simp [hblank, hmodifier])] at hword
    change header.kind ∈ _ at hword
    simp only [List.mem_cons, List.not_mem_nil, or_false] at hword
    rcases hword with hword | hword | hword <;> rw [hword] <;> simp

/-- The header is what comes next. -/
theorem peekSignificant_zero (h : s.AtHeader header) : s.stream.peekSignificant 0 = header := by
  rw [← h.current]
  refine TokenStream.peekSignificant_zero ?_
  rw [h.current]
  have hkind := h.kind_mem
  simp only [List.mem_cons, List.not_mem_nil, or_false] at hkind
  rcases hkind with hkind | hkind | hkind | hkind | hkind | hkind | hkind | hkind <;>
    rw [hkind] <;> rfl

/-- A header is no closer. -/
theorem ofKinds?_eq_none (h : s.AtHeader header) (second : Kind) :
    Closer.ofKinds? header.kind second = none := by
  have hkind := h.kind_mem
  simp only [List.mem_cons, List.not_mem_nil, or_false] at hkind
  rcases hkind with hkind | hkind | hkind | hkind | hkind | hkind | hkind | hkind <;>
    rw [hkind] <;> rfl

/-- A header of a procedure starts with a modifier or with the word that names its sort. -/
theorem kind_ne_of_not_mem (h : s.AtHeader header) {kind : Kind}
    (hkind : kind ∉ [.keyword .private_, .keyword .public_, .keyword .friend, .keyword .global,
      .keyword .static_, .keyword .sub, .keyword .function, .keyword .property]) :
    (header.kind == kind) = false :=
  beq_eq_false_iff_ne.mpr fun heq => hkind (heq ▸ h.kind_mem)

end State.AtHeader

/-- Whether what has been read does not stand in the way of what follows: no block has been found
open, or the header of a procedure follows, what has been read is regular, its end is met outside of
every single-line `If`, and a block that is found open there is within a procedure. -/
structure Placement.Permits (P : Placement) (s : State) : Prop where
  closed : P.header? = none → ¬ s.Unclosed
  regular : P.header? ≠ none → s.Regular
  lineMode : P.header? ≠ none → s.AtEnd → s.lineMode = 0
  inProcedure : P.header? ≠ none → s.Unclosed → s.blocks.any (·.isProcedure) = true

namespace Placement.Permits

variable {P : Placement} {s : State}

/-- Where no header follows, it matters only that no block is found open. -/
theorem of_not_unclosed (hheader : P.header? = none) (h : ¬ s.Unclosed) : P.Permits s :=
  ⟨fun _ => h, fun hne => absurd hheader hne, fun hne => absurd hheader hne,
    fun hne => absurd hheader hne⟩

/-- What is permitted once a node is closed is permitted before. -/
theorem of_closing (h : P.Permits s.closing) : P.Permits s :=
  ⟨h.closed, fun hne => (h.regular hne).of_closing, h.lineMode, h.inProcedure⟩

/-- What is permitted outside a block is permitted within it. -/
theorem of_inBlock (h : P.Permits { s with blocks := s.blocks.tail }) : P.Permits s := by
  refine ⟨h.closed, h.regular, h.lineMode, fun hne hunclosed => ?_⟩
  obtain ⟨block, hblock, hprocedure⟩ := List.any_eq_true.mp (h.inProcedure hne hunclosed)
  exact List.any_eq_true.mpr ⟨block, List.mem_of_mem_tail hblock, hprocedure⟩

/-- What is permitted outside a `With` is permitted within it. -/
theorem of_inWith (h : P.Permits { s with withTargets := s.withTargets.tail }) : P.Permits s :=
  ⟨h.closed, h.regular, h.lineMode, h.inProcedure⟩

/-- What permits what follows does so on the way. -/
theorem of_run {simple : Bool} {α : Type} {p : Production α} (hp : Composed simple p)
    (hs : s.stream.Sound) (h : P.Permits (p.run s).2) : P.Permits s := by
  have hfollows := hp.follows s
  have hcontext := hp.sameContext s
  have hend (hend : s.AtEnd) : (p.run s).2.AtEnd := by
    have hremaining := hfollows.remaining_le
    rw [hend.remaining_eq_zero hs] at hremaining
    exact State.atEnd_of_remaining_eq_zero (Nat.le_zero.mp hremaining)
  exact ⟨fun heq hunclosed => h.closed heq (hunclosed.of_follows hfollows),
    fun hne => hp.regular (h.regular hne),
    fun hne hatEnd => hcontext.lineMode ▸ h.lineMode hne (hend hatEnd),
    fun hne hunclosed => hcontext.blocks ▸ h.inProcedure hne (hunclosed.of_follows hfollows)⟩

end Placement.Permits

/-- Where the text ends in the one reading, the header follows in the other. -/
theorem Placement.atHeader {P : Placement} {s : State} (hs : s.stream.Sound) (hend : s.AtEnd)
    {header : Token} (h : P.header? = some header) : (P.state s).AtHeader header := by
  obtain ⟨tail, htail, hcurrent, hsolid, hstarts⟩ := P.startsWithHeader header h
  have hahead : s.stream.ahead = [] := by
    rw [← List.length_eq_zero_iff, ← s.stream.remaining_eq]
    exact hend.remaining_eq_zero hs
  have hrest : (P.stream s.stream).rest = tail.rest := by
    rw [P.rest_stream, Placement.rest, TokenStream.rest, hahead, Option.mem_def.mp htail]
    simp
  exact ⟨(TokenStream.current_eq_of_rest_eq hrest).trans hcurrent, hsolid, by rwa [hrest]⟩

/-- A condition that does not speak of the tree under construction. -/
class IgnoresBuilder (c : State → Prop) : Prop where
  of_builder (s : State) (b : Builder) : c s → c { s with builder := b }

instance : IgnoresBuilder State.Inside := ⟨fun _ _ h => h⟩

instance : IgnoresBuilder State.InLine := ⟨fun _ _ h => h⟩

instance : IgnoresBuilder State.OnWord := ⟨fun _ _ h => h⟩

instance : IgnoresBuilder State.Settled := ⟨fun _ _ h => h⟩

/-- A text that is not followed by others is the same as far as it goes. -/
theorem Placement.rest_of_not_isOpen {P : Placement} (h : ¬ P.IsOpen) (s : TokenStream) :
    (P.stream s).rest = s.rest.map P.relocation.token ∧
      (P.stream s).last = P.relocation.token s.last := by
  have hrest : (P.stream s).rest = s.rest.map P.relocation.token := by
    rw [P.rest_stream]
    unfold Placement.rest
    split
    next => rfl
    next tail htail => exact absurd (by simp [Placement.IsOpen, htail]) h
  refine ⟨hrest, ?_⟩
  unfold TokenStream.last
  simp only [hrest]
  exact List.getLast_map _

/-- So is the token behind the one at the cursor. -/
theorem Placement.peek_one_of_not_isOpen {P : Placement} (h : ¬ P.IsOpen) (s : TokenStream) :
    (P.stream s).peek 1 = P.relocation.token (s.peek 1) := by
  obtain ⟨hrest, hlast⟩ := P.rest_of_not_isOpen h s
  rw [TokenStream.peek_one, TokenStream.peek_one, hrest, hlast, List.getElem?_map, Option.getD_map]

/-- Where nothing is put behind the text, the next words are the same ones, moved. -/
theorem Placement.peekSignificant_of_not_isOpen {P : Placement} (h : ¬ P.IsOpen) (s : TokenStream)
    (n : Nat) : (P.stream s).peekSignificant n = P.relocation.token (s.peekSignificant n) := by
  obtain ⟨hrest, hlast⟩ := P.rest_of_not_isOpen h s
  have hfilter : (s.rest.map P.relocation.token).filter TokenStream.isSolid =
      (s.rest.filter TokenStream.isSolid).map P.relocation.token := by
    rw [List.filter_map]
    rfl
  rw [TokenStream.peekSignificant_eq, TokenStream.peekSignificant_eq, hrest, hfilter, hlast,
    List.getElem?_map, Option.getD_map]

/-! ## Rules -/

/-- Productions that agree on states that satisfy `pre` and lead to states that satisfy `post`, as
long as what they read permits what follows. -/
structure Carries (P : Placement) {α : Type} [Placeable α] (pre : State → Prop) (p q : Production α)
    (post : α → State → Prop) : Prop where
  carries (s : State) : P.Admits s → (P.IsOpen → pre s ∧ P.Permits (p.run s).2) →
    P.Agrees p q s ∧ (P.IsOpen → post (p.run s).1 (p.run s).2)

section

variable {P : Placement} {α β : Type} [Placeable α] [Placeable β] {p q p' q' : Production α}
  {pre pre' : State → Prop} {post post' : α → State → Prop}

/-- Two productions carry over one behind the other where the second asks for what the first
leaves. -/
theorem Carries.bind {f g : α → Production β} {mid : α → State → Prop} {post : β → State → Prop}
    [hcp : Composed false p] [hcf : ∀ a, Composed false (f a)] (hp : Carries P pre p q mid)
    (hf : ∀ a, Carries P (mid a) (f a) (g (place P a)) post) :
    Carries P pre (p >>= f) (q >>= g) post where
  carries s hs hpre := by
    have hs₁ := hs.of_follows (hcp.follows s)
    obtain ⟨hagrees, hmid⟩ := hp.carries s hs fun hopen =>
      ⟨(hpre hopen).1, (hpre hopen).2.of_run (hcf (p.run s).1) hs₁.sound⟩
    obtain ⟨hagrees', hpost⟩ := (hf (p.run s).1).carries (p.run s).2 hs₁ fun hopen =>
      ⟨hmid hopen, (hpre hopen).2⟩
    refine ⟨?_, hpost⟩
    unfold Placement.Agrees at hagrees hagrees' ⊢
    rw [run_bind, hagrees, hagrees']
    rfl

/-- A production carries over from states of which more is known to states of which less is
asked. -/
theorem Carries.weaken (h : Carries P pre' p q post') (hpre : ∀ s, pre s → pre' s)
    (hpost : ∀ a s, post' a s → post a s) : Carries P pre p q post where
  carries s hs hs' := by
    obtain ⟨hagrees, hpost'⟩ := h.carries s hs fun hopen => ⟨hpre s (hs' hopen).1, (hs' hopen).2⟩
    exact ⟨hagrees, fun hopen => hpost _ _ (hpost' hopen)⟩

/-- What is open and how many lines are single ones is the same afterwards. -/
theorem Carries.frame [hp : Composed false p] {c : State → Prop} (h : Carries P pre p q post)
    (hc : ∀ s t : State, s.SameContext t → c s → c t) :
    Carries P (fun s => pre s ∧ c s) p q (fun a s => post a s ∧ c s) where
  carries s hs hs' := by
    obtain ⟨hagrees, hpost⟩ := h.carries s hs fun hopen => ⟨(hs' hopen).1.1, (hs' hopen).2⟩
    exact ⟨hagrees, fun hopen => ⟨hpost hopen, hc _ _ (hp.sameContext s) (hs' hopen).1.2⟩⟩

/-- What keeps the line together does not reach the end. -/
theorem Carries.of_inline [h : Inline P p q] [hp : Composed false p]
    (hpre : ∀ s, pre s → s.Inside ∧ s.KeepsLine p) :
    Carries P pre p q (fun _ => State.Inside) where
  carries s hs hs' := by
    refine ⟨h.agrees s hs fun hopen => hpre s (hs' hopen).1, fun hopen => ?_⟩
    obtain ⟨hinside, hkeeps⟩ := hpre s (hs' hopen).1
    exact hs.not_atEnd hopen hinside hp hkeeps

/-- What does nothing carries over. -/
theorem Carries.pure {a : α} (h : ∀ s, pre s → post a s) :
    Carries P pre (pure a) (pure (place P a)) post where
  carries s _ hs' := ⟨rfl, fun hopen => h s (hs' hopen).1⟩

/-- Away from the end, the token at the cursor is the same, whatever it is. -/
theorem Carries.shift : Carries P State.Inside shift shift (fun _ _ => True) where
  carries _ hs hs' := ⟨hs.agrees_shift fun hopen => (hs' hopen).1, fun _ => trivial⟩

/-- What is seen on the line is known afterwards. -/
theorem Carries.of_look {f : TokenStream → α} [h : Inline P (look f) (look f)]
    (hpre : ∀ s, pre s → s.Inside) :
    Carries P pre (look f) (look f) (fun a s => a = f s.stream ∧ pre s) where
  carries s hs hs' :=
    ⟨h.agrees s hs fun hopen => ⟨hpre s (hs' hopen).1, .of_stream_eq rfl⟩,
      fun hopen => ⟨rfl, (hs' hopen).1⟩⟩

/-- What is looked for behind what comes next is the same where the line goes on that far. -/
theorem Carries.of_second {f : Token → Token → α} (hplace : ∀ t u, f (P.relocation.token t)
    (P.relocation.token u) = place P (f t u))
    (hpre : ∀ s, pre s → ¬ EndsLook (s.stream.peekSignificant 0).kind) :
    Carries P pre (look fun s => f (s.peekSignificant 0) (s.peekSignificant 1))
      (look fun s => f (s.peekSignificant 0) (s.peekSignificant 1))
      (fun a s => a = f (s.stream.peekSignificant 0) (s.stream.peekSignificant 1) ∧ pre s) where
  carries s hs hs' := by
    refine ⟨?_, fun hopen => ⟨rfl, (hs' hopen).1⟩⟩
    have hboth : (P.stream s.stream).peekSignificant 0 =
          P.relocation.token (s.stream.peekSignificant 0) ∧
        (P.stream s.stream).peekSignificant 1 =
          P.relocation.token (s.stream.peekSignificant 1) := by
      by_cases hopen : P.IsOpen
      · have hnext := hpre s (hs' hopen).1
        have hsame := hs.sameLine fun _ hend => hnext (.inr (kind_peekSignificant_of_atEnd hend))
        exact ⟨hsame.peekSignificant_zero, hsame.peekSignificant_one hnext⟩
      · exact ⟨P.peekSignificant_of_not_isOpen hopen _ 0, P.peekSignificant_of_not_isOpen hopen _ 1⟩
    unfold Placement.Agrees
    rw [run_look, run_look, hboth.1, hboth.2, hplace]

/-- What is known in front of a production may speak of what it leads to. -/
theorem Carries.frame_run {c : State → Prop} (h : Carries P pre p q post) :
    Carries P (fun s => pre s ∧ c (p.run s).2) p q (fun a s => post a s ∧ c s) where
  carries s hs hs' := by
    obtain ⟨hagrees, hpost⟩ := h.carries s hs fun hopen => ⟨(hs' hopen).1.1, (hs' hopen).2⟩
    exact ⟨hagrees, fun hopen => ⟨hpost hopen, (hs' hopen).1.2⟩⟩

/-- What is read permits what follows, which may tell of the state in front of it. -/
theorem Carries.of_permits {c : State → Prop}
    (hc : ∀ s, P.Admits s → P.IsOpen → pre s → P.Permits (p.run s).2 → c s)
    (h : Carries P (fun s => pre s ∧ c s) p q post) : Carries P pre p q post where
  carries s hs hs' := h.carries s hs fun hopen =>
    ⟨⟨(hs' hopen).1, hc s hs hopen (hs' hopen).1 (hs' hopen).2⟩, (hs' hopen).2⟩

/-- A node around a production carries over where the production does from the open node. -/
theorem Carries.within_opening {k : NodeKind} [hp : Composed false p]
    [hpost : ∀ a, IgnoresBuilder (post a)] (h : Carries P pre p q post) :
    Carries P (fun s => pre (s.opening k)) (Grammar.within k p) (Grammar.within k q) post where
  carries s hs hs' := by
    obtain ⟨hbody, hafter⟩ := h.carries (s.opening k) ⟨hs.sound, hs.endsInBreak⟩ fun hopen =>
      ⟨(hs' hopen).1, (hs' hopen).2.of_closing⟩
    refine ⟨?_, fun hopen => (hpost _).of_builder _ _ (hafter hopen)⟩
    have hopened := (hp.sameContext (s.opening k)).opened
    unfold Placement.Agrees at hbody ⊢
    rw [run_within, P.state_opening, hbody, state_closing hopened]
    rfl

/-- A node around a production carries over with it. -/
theorem Carries.within {k : NodeKind} [Composed false p] [hpre : IgnoresBuilder pre]
    [∀ a, IgnoresBuilder (post a)] (h : Carries P pre p q post) :
    Carries P pre (within k p) (within k q) post :=
  h.within_opening.weaken (fun s hs => hpre.of_builder s _ hs) fun _ _ h => h

/-- A node that is opened at a checkpoint carries over with its content. -/
theorem Carries.compositeFrom {cp : Checkpoint} {k : NodeKind} {p q : Production Unit}
    {post : State → Prop} [hp : Composed false p] [hpre : IgnoresBuilder pre]
    [hpost : IgnoresBuilder post] (h : Carries P pre p q fun _ => post) :
    Carries P pre (compositeFrom cp k p) (compositeFrom (place P cp) k q) fun _ => post where
  carries s hs hs' := by
    obtain ⟨hbody, hafter⟩ := h.carries (s.openingAt cp k) ⟨hs.sound, hs.endsInBreak⟩ fun hopen =>
      ⟨hpre.of_builder s _ (hs' hopen).1, (hs' hopen).2.of_closing⟩
    refine ⟨?_, fun hopen => hpost.of_builder _ _ (hafter hopen)⟩
    have hopened := (hp.sameContext (s.openingAt cp k)).opened
    have hopening : (P.state s).openingAt (place P cp) k = P.state (s.openingAt cp k) :=
      P.state_openingAt cp k
    unfold Placement.Agrees at hbody ⊢
    rw [run_compositeFrom, hopening, hbody, state_closing hopened, P.finishNode_builder hopened]
    rfl

/-- Where at the end of the text the closer of a block is missed, and at the header that follows as
well, only what is read away from the end counts. -/
theorem Carries.of_missingCloser {c : State → Prop} (block : Block) (a : α)
    (hend : ∀ s, c s → s.AtEnd → p.run s =
      (a, ((report (.missingCloser block s.stream.current) s.stream.current).run s).2))
    (hheader : ∀ header ∈ P.header?, ∀ s, c s → (P.state s).AtHeader header → s.lineMode = 0 →
      s.blocks.any (·.isProcedure) = true →
        q.run (P.state s) =
          (place P a, ((report (.missingCloser block header) header).run (P.state s)).2))
    (hpost : ∀ s, s.Settled → post a s) (h : Carries P (fun s => s.Inside ∧ c s) p q post) :
    Carries P c p q post where
  carries s hs hs' := by
    -- inside the text both readings agree; where it ends, each reports the closer at its own token
    by_cases hinside : P.IsOpen → s.Inside
    · exact h.carries s hs fun hopen => ⟨⟨hinside hopen, (hs' hopen).1⟩, (hs' hopen).2⟩
    · obtain ⟨hopen, hatEnd⟩ := Classical.not_imp.mp hinside
      replace hatEnd : s.AtEnd := Classical.not_not.mp hatEnd
      obtain ⟨hc, hpermits⟩ := hs' hopen
      have hunclosed := hatEnd.unclosed hs.sound block
      have hrun := hend s hc hatEnd
      rw [hrun] at hpermits ⊢
      cases hheader? : P.header? with
      | none => exact absurd hunclosed (hpermits.closed hheader?)
      | some header =>
        have hne : P.header? ≠ none := by simp [hheader?]
        have hlineMode := hpermits.lineMode hne hatEnd
        have hrun' := hheader header hheader? s hc (P.atHeader hs.sound hatEnd hheader?) hlineMode
          (hpermits.inProcedure hne hunclosed)
        have hreport := P.agrees_report s
          (P.failure_missingCloser hheader? block hatEnd s.stream.current)
        refine ⟨?_, fun _ => hpost _ fun _ => ⟨fun hclosed => absurd hunclosed hclosed, hlineMode⟩⟩
        unfold Placement.Agrees at hreport ⊢
        rw [hrun, hrun', hreport]

/-- The closer of a block is missed at the same token where this is not the end of the text. -/
theorem carries_missingCloser (block : Block) {t : Token}
    (hpre : ∀ s, pre s → t = s.stream.current ∧ s.Inside) :
    Carries P pre (report (.missingCloser block t) t)
      (report (.missingCloser block (place P t)) (place P t)) (fun _ => State.Inside) where
  carries s _ hs' := by
    refine ⟨P.agrees_report s ?_, fun hopen => (hpre s (hs' hopen).1).2⟩
    by_cases hopen : P.IsOpen
    · obtain ⟨rfl, hinside⟩ := hpre s (hs' hopen).1
      exact P.failure_atToken _ hinside
    · rw [P.failure_eq (P.header?_eq_none hopen)]
      rfl

/-- Where no header may follow. -/
theorem Carries.of_header?_eq_none (h : P.header? = none → Carries P pre p q post)
    (hpermits : P.header? ≠ none → ∀ s, ¬ P.Permits (p.run s).2) : Carries P pre p q post := by
  by_cases hheader : P.header? = none
  · exact h hheader
  · exact ⟨fun s _ hs' => absurd (hs' fun htail => hheader (P.header?_eq_none fun h => h htail)).2
      (hpermits hheader s)⟩

/-- What productions do that do the same in a state carries over. -/
theorem Carries.congr (h : Carries P pre p' q' post) {s : State} (hs : P.Admits s)
    (hs' : P.IsOpen → pre s ∧ P.Permits (p.run s).2) (hp : p.run s = p'.run s)
    (hq : q.run (P.state s) = q'.run (P.state s)) :
    P.Agrees p q s ∧ (P.IsOpen → post (p.run s).1 (p.run s).2) := by
  unfold Placement.Agrees
  rw [hp, hq]
  exact h.carries s hs fun hopen => ⟨(hs' hopen).1, hp ▸ (hs' hopen).2⟩

/-- Of two productions both carry over, each where it is chosen. -/
theorem Carries.ite {c : Prop} [Decidable c] (hp : c → Carries P pre p q post)
    (hp' : ¬ c → Carries P pre p' q' post) :
    Carries P pre (if c then p else p') (if c then q else q') post := by
  split
  next h => exact hp h
  next h => exact hp' h

end

/-! ## Loops -/

section

variable {P : Placement} {α β : Type} [Placeable α] [Placeable β]
  {exhausted exhausted' : α → β} {pass pass' : α → Production (Pass α β)}
  {inv : α → State → Prop} {post : β → State → Prop}

/-- What a pass of a loop leads to: the invariant when it goes on, the end when it leaves. -/
def Pass.Leads (inv : α → State → Prop) (post : β → State → Prop) : Pass α β → State → Prop
  | .again a => inv a
  | .done b => post b

/-- A loop whose passes keep an invariant. A pass has to agree only where what is read in the end,
be it by a later one, permits what follows. -/
theorem Carries.iterate_of_agrees [hc : ∀ a, Composed false (pass a)] [∀ a, Progresses (pass a)]
    [∀ a, Progresses (pass' a)]
    (hpass : ∀ a s, P.Admits s →
      (P.IsOpen → inv a s ∧ P.Permits ((iterate exhausted pass a).run s).2) →
      P.Agrees (pass a) (pass' (place P a)) s ∧
        (P.IsOpen → Pass.Leads inv post ((pass a).run s).1 ((pass a).run s).2)) (a : α) :
    Carries P (inv a) (iterate exhausted pass a) (iterate exhausted' pass' (place P a)) post where
  carries s hs hinv := by
    generalize hn : s.stream.remaining = n
    -- by induction on what is left of the source, of which each pass takes some
    induction n using Nat.strongRecOn generalizing a s with
    | ind n ih =>
      have hfollows := (hc a).follows s
      obtain ⟨hagrees, hleads⟩ := hpass a s hs hinv
      cases hresult : ((pass a).run s).1 with
      | again a' =>
        rw [run_iterate_of_again hresult] at hinv
        have hlt := Progresses.remaining_lt s a' hresult
        rw [hresult] at hleads
        obtain ⟨hagrees', hpost⟩ := ih _ (by omega) a' _ (hs.of_follows hfollows)
          (fun hopen => ⟨hleads hopen, (hinv hopen).2⟩) rfl
        unfold Placement.Agrees at hagrees hagrees' ⊢
        rw [run_iterate_of_again hresult]
        refine ⟨?_, hpost⟩
        rw [run_iterate_of_again (by rw [hagrees, hresult]; rfl), hagrees, hagrees']
      | done b =>
        rw [hresult] at hleads
        unfold Placement.Agrees at hagrees ⊢
        rw [run_iterate_of_done hresult]
        refine ⟨?_, hleads⟩
        rw [run_iterate_of_done (by rw [hagrees, hresult]; rfl), hagrees]

omit [Placeable α] [Placeable β] in
/-- What a loop permits, each of its passes permits. -/
theorem Placement.Permits.of_iterate [hc : ∀ a, Composed false (pass a)] [∀ a, Progresses (pass a)]
    {a : α} {s : State} (hs : s.stream.Sound) (h : P.Permits ((iterate exhausted pass a).run s).2) :
    P.Permits ((pass a).run s).2 := by
  cases hresult : ((pass a).run s).1 with
  | again a' =>
    have hrest : Composed false (Grammar.iterate exhausted pass a') := inferInstance
    rw [run_iterate_of_again hresult] at h
    exact h.of_run hrest (((hc a).follows s).sound hs)
  | done b => rwa [run_iterate_of_done hresult] at h

/-- A loop whose passes agree where they permit what follows. -/
theorem Carries.iterate [hc : ∀ a, Composed false (pass a)] [∀ a, Progresses (pass a)]
    [∀ a, Progresses (pass' a)]
    (hpass : ∀ a, Carries P (inv a) (pass a) (pass' (place P a)) (Pass.Leads inv post)) (a : α) :
    Carries P (inv a) (iterate exhausted pass a) (iterate exhausted' pass' (place P a)) post := by
  refine .iterate_of_agrees (fun a s hs hinv => (hpass a).carries s hs fun hopen =>
    ⟨(hinv hopen).1, (hinv hopen).2.of_iterate hs.sound⟩) a

end

/-! ## Statements -/

/-- Productions that agree on states that satisfy `pre` and end a statement, as long as what they
read permits what follows. -/
class Settles (P : Placement) {α : Type} [Placeable α] (pre : State → Prop) (p q : Production α) :
    Prop where
  carries : Carries P pre p q fun _ => State.Settled

section

variable {P : Placement} {α β : Type} [Placeable α] [Placeable β] {p q p' q' : Production α}
  {pre : State → Prop}

instance [h : Settles P State.Inside p q] : Settles P State.InLine p q :=
  ⟨h.carries.weaken (fun _ h => h.1) fun _ _ h => h⟩

instance [h : Settles P State.InLine p q] : Settles P State.OnWord p q :=
  ⟨h.carries.weaken (fun _ h => h.inLine) fun _ _ h => h⟩

instance [Inline P p q] [Composed false p] [hp : KeepsLine p] : Settles P State.Inside p q :=
  ⟨(Carries.of_inline fun s h => ⟨h, hp.keepsLine s⟩).weaken (fun _ h => h) fun _ _ h => h.settled⟩

omit [Placeable α] in
/-- Within a line a production that leaves its end alone does so from the next word on. -/
theorem State.InLine.keepsLine {s : State} (h : s.InLine) [hp : KeepsLineFromNext p] :
    s.KeepsLine p := hp.keepsLine s h.2

instance [Inline P p q] [Composed false p] [KeepsLineFromNext p] : Settles P State.InLine p q :=
  ⟨(Carries.of_inline fun _ h => ⟨h.1, h.keepsLine⟩).weaken (fun _ h => h) fun _ _ h =>
    h.settled⟩

instance {f g : α → Production β} [Composed false p] [∀ a, Composed false (f a)]
    [h : Settles P pre p q] [hf : ∀ a, Settles P State.Settled (f a) (g (place P a))] :
    Settles P pre (p >>= f) (q >>= g) :=
  ⟨h.carries.bind fun a => (hf a).carries⟩

instance {f g : α → Production β} [Composed false p] [∀ a, Composed false (f a)] [Inline P p q]
    [hp : KeepsLine p] [hf : ∀ a, Settles P State.Inside (f a) (g (place P a))] :
    Settles P State.Inside (p >>= f) (q >>= g) :=
  ⟨(Carries.of_inline fun s h => ⟨h, hp.keepsLine s⟩).bind fun a => (hf a).carries⟩

instance {f g : α → Production β} [Composed false p] [∀ a, Composed false (f a)] [Inline P p q]
    [KeepsLineFromNext p] [hf : ∀ a, Settles P State.Inside (f a) (g (place P a))] :
    Settles P State.InLine (p >>= f) (q >>= g) :=
  ⟨(Carries.of_inline fun _ h => ⟨h.1, h.keepsLine⟩).bind fun a => (hf a).carries⟩

/-- What moves no token leads to where it starts. -/
theorem Carries.of_still [h : Inline P p q] [hp : Still p] {pre : State → Prop}
    (hpre : ∀ s, pre s → s.Inside) (hstream : ∀ s t : State, t.stream = s.stream → pre s → pre t) :
    Carries P pre p q (fun _ => pre) where
  carries s hs hs' :=
    ⟨h.agrees s hs fun hopen => ⟨hpre s (hs' hopen).1, .of_stream_eq (hp.stream_eq s)⟩,
      fun hopen => hstream s _ (hp.stream_eq s) (hs' hopen).1⟩

instance {f g : α → Production β} [Composed false p] [∀ a, Composed false (f a)] [Inline P p q]
    [Still p] [hf : ∀ a, Settles P State.InLine (f a) (g (place P a))] :
    Settles P State.InLine (p >>= f) (q >>= g) :=
  ⟨(Carries.of_still (fun _ h => h.1) fun s t heq h => by
    unfold State.InLine State.Inside State.AtEnd at h ⊢
    rwa [heq]).bind fun a => (hf a).carries⟩

instance {f g : α → Production β} [Composed false p] [∀ a, Composed false (f a)] [Inline P p q]
    [Still p] [hf : ∀ a, Settles P State.OnWord (f a) (g (place P a))] :
    Settles P State.OnWord (p >>= f) (q >>= g) :=
  ⟨(Carries.of_still (fun _ h => h.inside) fun s t heq h => by
    unfold State.OnWord at h ⊢
    rwa [heq]).bind fun a => (hf a).carries⟩

/-- Skipping blanks leads to something on the line. -/
theorem Carries.skipBlanks :
    Carries P State.InLine skipBlanks skipBlanks (fun _ => State.OnWord) where
  carries s hs hs' := by
    have hskip : Carries P State.InLine Grammar.skipBlanks Grammar.skipBlanks
        (fun _ => State.Inside) := .of_inline fun s h => ⟨h.1, h.keepsLine⟩
    obtain ⟨hagrees, hinside⟩ := hskip.carries s hs hs'
    refine ⟨hagrees, fun hopen => ⟨?_, ?_⟩⟩
    · have hsolid := s.stream.isSolid_peekSignificant 0
      rw [← current_skipBlanks] at hsolid
      simpa [TokenStream.isSolid] using hsolid
    · rintro (hnewline | hend)
      · rw [current_skipBlanks] at hnewline
        exact (hs' hopen).1.2 hnewline
      · exact hinside hopen hend

instance {k : NodeKind} [Composed false p] [IgnoresBuilder pre] [h : Settles P pre p q] :
    Settles P pre (within k p) (within k q) := ⟨h.carries.within⟩

instance {f g : Unit → Production β} [∀ a, Composed false (f a)]
    [hf : ∀ a, Settles P State.OnWord (f a) (g a)] :
    Settles P State.InLine (skipBlanks >>= f) (skipBlanks >>= g) :=
  ⟨Carries.skipBlanks.bind fun a => (hf a).carries⟩

/-- What a test that looks ahead says is known afterwards. -/
theorem Carries.of_test {test test' : Production Bool} [h : Inline P test test']
    (hrun : ∀ s, test.run s = ((test.run s).1, s)) :
    Carries P State.Inside test test' (fun b s => (test.run s).1 = b ∧ s.Inside) where
  carries s hs hs' := by
    have hstill : (test.run s).2 = s := by rw [hrun]
    refine ⟨h.agrees s hs fun hopen => ⟨(hs' hopen).1, .of_stream_eq (by rw [hstill])⟩,
      fun hopen => ?_⟩
    rw [hstill]
    exact ⟨rfl, (hs' hopen).1⟩

instance {test test' : Production Bool} [ht : TestsNext Kind.IsNewline test] [Composed false test]
    [Composed false p] [Composed false p'] [Inline P test test'] [hp : Settles P State.InLine p q]
    [hp' : Settles P State.Inside p' q'] :
    Settles P State.Inside (test >>= fun b => if b then p else p')
      (test' >>= fun b => if b then q else q') := by
  refine ⟨(Carries.of_test ht.run_eq).bind fun b => .ite (fun hb => ?_) fun _ => ?_⟩
  · exact hp.carries.weaken (fun s h => ⟨h.2, ht.not_bar (h.1.trans hb)⟩) fun _ _ h => h
  · exact hp'.carries.weaken (fun _ h => h.2) fun _ _ h => h

instance {cp : Checkpoint} {k : NodeKind} {p q : Production Unit} [Composed false p]
    [IgnoresBuilder pre] [h : Settles P pre p q] :
    Settles P pre (compositeFrom cp k p) (compositeFrom (place P cp) k q) :=
      ⟨h.carries.compositeFrom⟩

instance {c : Prop} [Decidable c] [h : Settles P pre p q] [h' : Settles P pre p' q'] :
    Settles P pre (if c then p else p') (if c then q else q') :=
  ⟨.ite (fun _ => h.carries) fun _ => h'.carries⟩

end

end Grammar

end LosslessBasic
