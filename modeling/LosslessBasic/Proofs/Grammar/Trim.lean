import LosslessBasic.Proofs.Grammar.Balance
import LosslessBasic.Proofs.Grammar.BodyLayout
import LosslessBasic.Proofs.Tree.Every

/-!
# Blanks stay outside of fragments

The blanks in front of a word are moved only when it is known that a fragment goes on with the word,
so what is read without a failure neither starts nor ends a fragment with blanks (`Tree.IsTrimmed`).

`State.Trims` relates a state to what a production makes of it, and says nothing when something was
reported meanwhile. `Trims c e p` says it of a production where the cursor is as `c` has it, and `e`
says how the tokens that are moved end. A node around what moves something from a token on and ends
with one is trimmed, so a fragment is trimmed by what is in it (`State.Trims.closing`), and so is
one that is put around what was moved since a checkpoint (`trims_compositeFrom`).

## Main definitions

* `Tree.IsTrimmed`: no fragment in a tree is empty, or starts or ends with blanks;
* `Sight`: what is known of the cursor in front of a production;
* `Edge`: what is known of the last token that a production moves.
-/

namespace LosslessBasic

/-! ## Trimmed trees -/

/-- Tokens of which the first and the last are no blanks, and which are not none. -/
structure HaveEdges (ts : List Token) : Prop where
  first : ∃ t ∈ ts.head?, t.kind.isInlineTrivia = false
  last : ∃ t ∈ ts.getLast?, t.kind.isInlineTrivia = false

namespace Tree

/-- A fragment is not empty and neither starts nor ends with blanks. -/
def trimRule (k : NodeKind) (cs : List Tree) : Prop :=
  k.isFragment = true → HaveEdges (leavesAll cs)

/-- No fragment in a tree is empty, or starts or ends with blanks. -/
def IsTrimmed (t : Tree) : Prop := ∀ n, t.Every (fun _ => trimRule) n

theorem isTrimmed_leaf (t : Token) : (leaf t).IsTrimmed := fun _ => trivial

/-- A node whose own edges are trimmed, around trimmed trees, is trimmed. -/
theorem isTrimmed_above {k : NodeKind} {a : Anchor} {ts : List Tree} (hedges : trimRule k ts)
    (hts : ∀ t ∈ ts, t.IsTrimmed) : (above (.node k) a ts).IsTrimmed :=
  fun _ => every_above hedges (everyAll_const hts)

end Tree

namespace Kind

/-- Whether a kind is one of blanks or of the end of the source, which no fragment starts or ends
with. -/
def IsGap (k : Kind) : Prop := k.isInlineTrivia = true ∨ k = .lexeme .endOfFile

/-- The kinds of which this is so. -/
def gaps : List Kind := [.trivia .whitespace, .trivia .lineContinuation, .lexeme .endOfFile]

/-- What no gap satisfies shows that a kind is none. -/
theorem not_isGap_of {d : Kind → Prop} (hd : ∀ k ∈ gaps, ¬ d k) {k : Kind} (hk : d k) :
    ¬ k.IsGap := by
  have hmem : k.IsGap → k ∈ gaps := by
    rintro (hblank | rfl)
    · cases k with
      | trivia t => cases t <;> first | decide | cases hblank
      | _ => cases hblank
    · decide
  exact fun hgap => hd k (hmem hgap) hk

/-- What is no gap is no inline trivia. -/
theorem isInlineTrivia_of_not_isGap {k : Kind} (h : ¬ k.IsGap) : k.isInlineTrivia = false := by
  rw [← Bool.not_eq_true]
  exact fun hblank => h (.inl hblank)

end Kind

/-- Whether a lexeme does not mark the end of the source. -/
@[reducible]
def Lexeme.isNoEnd : Lexeme → Bool
  | .endOfFile => false
  | _ => true

namespace Grammar

instance (k : Keyword) : Clear Kind.IsGap (.keyword k) :=
  ⟨by simp [Kind.IsGap, Kind.isInlineTrivia]⟩

instance (l : Lexeme) [hl : IsTrue l.isNoEnd] : Clear Kind.IsGap (.lexeme l) := by
  refine ⟨?_⟩
  rintro (hblank | hend)
  · cases hblank
  · obtain rfl : l = .endOfFile := Kind.lexeme.inj hend
    exact absurd hl.eq_true Bool.false_ne_true

/-! ## Sights and edges -/

/-- What is known of the cursor in front of a production. -/
inductive Sight where
  /-- Nothing. -/
  | any
  /-- There is no blank at it. -/
  | solid
  /-- There is a token at it that is no blank. -/
  | word
  /-- A token comes next, behind blanks. -/
  | next

/-- What a sight says of the tokens ahead. -/
def Sight.Holds : Sight → TokenStream → Prop
  | any, _ => True
  | solid, s => s.current.kind.isInlineTrivia = false
  | word, s => ¬ s.current.kind.IsGap
  | next, s => ¬ (s.peekSignificant 0).kind.IsGap

/-- What is known of the last token that a production moves. -/
inductive Edge where
  /-- Nothing. -/
  | loose
  /-- If there is one, it is no blank. -/
  | trimmed
  /-- There is one, and it is no blank. -/
  | filled

/-- What an edge says of the tokens that are moved. -/
def Edge.Holds : Edge → List Token → Prop
  | loose, _ => True
  | trimmed, ts => ∀ t ∈ ts.getLast?, t.kind.isInlineTrivia = false
  | filled, ts => ∃ t ∈ ts.getLast?, t.kind.isInlineTrivia = false

namespace Edge

/-- Two rows of tokens that end as an edge has it do so together. -/
theorem Holds.append {e : Edge} {ts us : List Token} (hts : e.Holds ts) (hus : e.Holds us) :
    e.Holds (ts ++ us) := by
  cases e with
  | loose => trivial
  | trimmed =>
    intro t ht
    rw [List.getLast?_append, Option.mem_def, Option.or_eq_some_iff] at ht
    rcases ht with ht | ⟨-, ht⟩
    · exact hus t ht
    · exact hts t ht
  | filled =>
    obtain ⟨t, ht, hsolid⟩ := hus
    exact ⟨t, by rw [List.getLast?_append, Option.mem_def.mp ht]; rfl, hsolid⟩

/-- What ends with a token ends with one when more is moved that does not end with blanks. -/
theorem Holds.append_trimmed {ts us : List Token} (hts : filled.Holds ts) (hus : trimmed.Holds us) :
    filled.Holds (ts ++ us) := by
  cases hlast : us.getLast? with
  | none =>
    obtain rfl := List.getLast?_eq_none_iff.mp hlast
    rwa [List.append_nil]
  | some t => exact ⟨t, by rw [List.getLast?_append, hlast]; rfl, hus t hlast⟩

/-- Behind any tokens a last one that is no blank is the last of all. -/
theorem Holds.append_filled {ts us : List Token} (hus : filled.Holds us) :
    filled.Holds (ts ++ us) := by
  obtain ⟨t, ht, hsolid⟩ := hus
  exact ⟨t, by rw [List.getLast?_append, Option.mem_def.mp ht]; rfl, hsolid⟩

/-- What ends with a token that is no blank ends with no blank. -/
theorem Holds.trimmed {ts : List Token} (h : filled.Holds ts) : trimmed.Holds ts := by
  obtain ⟨t, ht, hsolid⟩ := h
  intro u hu
  rwa [Option.mem_unique hu ht]

end Edge

/-- An edge that holds where nothing is moved. -/
class Edge.IsOpen (e : Edge) : Prop where
  holds_nil : e.Holds []

instance : Edge.IsOpen .loose := ⟨trivial⟩

instance : Edge.IsOpen .trimmed := ⟨by simp [Edge.Holds]⟩

/-! ## Reading without failure -/

/-- A state in which nothing has failed: the statement has not, and no token ahead is one that was
reported when it was read. -/
structure State.Fresh (s : State) : Prop where
  innermostInRow : s.InnermostInRow
  recovering : s.recovering = false
  clean : ∀ t ∈ s.stream.rest, t.kind.isLexicalError = false

/-- Between two states, if nothing was reported, trimmed trees have been added that end as the edge
has it. -/
def State.Trims (e : Edge) (s t : State) : Prop :=
  t.failures ≠ #[] ∨ t.recovering = false ∧ ∃ trees, s.Adds trees t ∧ (∀ n ∈ trees, n.IsTrimmed) ∧
    e.Holds (Tree.leavesAll trees)

/-- A production that adds trimmed trees where the cursor is as the sight has it. -/
class Trims (c : Sight) (e : Edge) {α : Type} (p : Production α) : Prop where
  holds (s : State) : s.Fresh → c.Holds s.stream → s.Trims e (p.run s).2

/-- A production that reports something. -/
class Fails {α : Type} (p : Production α) : Prop where
  failures_ne (s : State) : s.Fresh → (p.run s).2.failures ≠ #[]

/-- What was reported stays reported. -/
theorem Composed.failures_ne {α : Type} {p : Production α} (h : Composed false p) {s : State}
    (hs : s.failures ≠ #[]) : (p.run s).2.failures ≠ #[] := by
  intro hnone
  have hprefix := (h.follows s).failures
  rw [hnone] at hprefix
  exact hs (Array.toList_eq_nil_iff.mp (List.prefix_nil.mp hprefix))

namespace State

variable {s t u : State} {e e' : Edge}

/-- Nothing has failed where trees were added and the statement has not. -/
theorem Fresh.of_adds {trees : List Tree} (hs : s.Fresh) (h : s.Adds trees t)
    (hrecovering : t.recovering = false) : t.Fresh :=
  ⟨h.innermostInRow hs.innermostInRow, hrecovering, fun u hu =>
    hs.clean u (by rw [h.rest]; exact List.mem_append_right _ hu)⟩

/-- To open a node fails nothing. -/
theorem Fresh.opening (hs : s.Fresh) (k : NodeKind) : (s.opening k).Fresh :=
  ⟨innermostInRow_opening s k, hs.recovering, hs.clean⟩

/-- Where nothing has failed no error of the lexer stands at the cursor. -/
theorem Fresh.clean_current (hs : s.Fresh) : s.stream.current.kind.isLexicalError = false :=
  hs.clean _ List.mem_cons_self

/-- Where nothing has failed no error of the lexer comes next. -/
theorem Fresh.clean_next (hs : s.Fresh) (n : Nat) :
    (s.stream.peekSignificant n).kind.isLexicalError = false := by
  refine hs.clean _ ?_
  rw [TokenStream.peekSignificant_eq]
  cases hget : (s.stream.rest.filter TokenStream.isSolid)[n]? with
  | none => exact List.getLast_mem _
  | some t => exact List.mem_of_mem_filter (List.mem_of_getElem? hget)

/-- What one production does and the next one does. -/
theorem Trims.append {e'' : Edge} (h : s.Trims e t) (hs : s.Fresh)
    (hfailed : t.failures ≠ #[] → u.failures ≠ #[]) (h' : t.Fresh → t.Trims e' u)
    (hedge : ∀ ts us, e.Holds ts → e'.Holds us → e''.Holds (ts ++ us)) : s.Trims e'' u := by
  rcases h with hfailures | ⟨hrecovering, trees, hadds, htrees, hends⟩
  · exact .inl (hfailed hfailures)
  · rcases h' (hs.of_adds hadds hrecovering) with
      hfailures | ⟨hrecovering', more, hadds', hmore, hends'⟩
    · exact .inl hfailures
    · refine .inr ⟨hrecovering', _, hadds.trans hadds',
        List.forall_mem_append.mpr ⟨htrees, hmore⟩, ?_⟩
      rw [Tree.leavesAll_append]
      exact hedge _ _ hends hends'

/-- What ends as one edge has it ends as a weaker one has it. -/
theorem Trims.mono (h : s.Trims e t) (hedge : ∀ ts, e.Holds ts → e'.Holds ts) : s.Trims e' t := by
  rcases h with hfailures | ⟨hrecovering, trees, hadds, htrees, hends⟩
  · exact .inl hfailures
  · exact .inr ⟨hrecovering, trees, hadds, htrees, hedge _ hends⟩

/-- Where no tree is added an edge holds that asks for no token. -/
theorem Trims.of_adds_nil [he : e.IsOpen] (hs : s.Fresh) (h : s.Adds [] t)
    (hrecovering : t.recovering = s.recovering) : s.Trims e t :=
  .inr ⟨hrecovering.trans hs.recovering, [], h, by simp, he.holds_nil⟩

/-- Where nothing happens an edge holds that asks for no token. -/
theorem Trims.refl [e.IsOpen] (hs : s.Fresh) : s.Trims e s := .of_adds_nil hs (.refl s) rfl

/-- A token that is no blank is moved. -/
theorem trims_shifted (hs : s.Fresh) (hword : ¬ s.stream.current.kind.IsGap) :
    s.Trims .filled (shift.run s).2 := by
  have hsolid : s.stream.current.kind.isInlineTrivia = false :=
    Kind.isInlineTrivia_of_not_isGap hword
  rw [run_shift fun hend => hword (.inr hend)]
  refine .inr ⟨hs.recovering, _, .shifted fun hend => hword (.inr hend), ?_, _, rfl, hsolid⟩
  simpa using Tree.isTrimmed_leaf _

/-- The tokens that trees between two states hold start with the one at the cursor. -/
theorem Adds.haveEdges {trees : List Tree} (h : s.Adds trees t)
    (hsolid : s.stream.current.kind.isInlineTrivia = false)
    (hends : Edge.filled.Holds (Tree.leavesAll trees)) : HaveEdges (Tree.leavesAll trees) := by
  refine ⟨?_, hends⟩
  have hrest := h.rest
  obtain ⟨last, hlast, -⟩ := hends
  cases hleaves : Tree.leavesAll trees with
  | nil =>
    rw [hleaves] at hlast
    cases hlast
  | cons u us =>
    rw [hleaves, TokenStream.rest, List.cons_append] at hrest
    exact ⟨u, rfl, (List.cons.inj hrest).1 ▸ hsolid⟩

/-- A node around what was moved from a token on. -/
theorem Trims.closing {k : NodeKind} (hs : s.Fresh)
    (hsolid : s.stream.current.kind.isInlineTrivia = false) (h : (s.opening k).Trims .filled t) :
    s.Trims .filled t.closing := by
  rcases h with hfailures | ⟨hrecovering, trees, hadds, htrees, hends⟩
  · exact .inl hfailures
  · have hedges : HaveEdges (Tree.leavesAll trees) := hadds.haveEdges hsolid hends
    refine .inr ⟨hrecovering, _, (hadds.closing_opening hs.innermostInRow).1, ?_, ?_⟩
    · simpa using Tree.isTrimmed_above (fun _ => hedges) htrees
    · simpa [Tree.leavesAll, Tree.leaves_above] using hends

/-- A node that is no fragment. -/
theorem Trims.closing_of_not_isFragment {k : NodeKind} (hk : k.isFragment = false) (hs : s.Fresh)
    (h : (s.opening k).Trims e t) : s.Trims e t.closing := by
  rcases h with hfailures | ⟨hrecovering, trees, hadds, htrees, hends⟩
  · exact .inl hfailures
  · refine .inr ⟨hrecovering, _, (hadds.closing_opening hs.innermostInRow).1, ?_, ?_⟩
    · simpa using Tree.isTrimmed_above (fun h => absurd (hk.symm.trans h) Bool.false_ne_true) htrees
    · simpa [Tree.leavesAll, Tree.leaves_above] using hends

end State

section

variable {α β : Type} {p q : Production α} {c : Sight} {e : Edge}

/-! ## Putting productions together -/

instance [h : Fails p] : Trims .any .filled p where
  holds s hs _ := .inl (h.failures_ne s hs)

instance [h : Trims .any e p] : Trims .solid e p where
  holds s hs _ := h.holds s hs trivial

instance [h : Trims .any e p] : Trims .next e p where
  holds s hs _ := h.holds s hs trivial

instance [h : Trims .solid e p] : Trims .word e p where
  holds s hs hword := h.holds s hs (Kind.isInlineTrivia_of_not_isGap hword)

instance [h : Trims c .filled p] : Trims c .trimmed p where
  holds s hs hc := (h.holds s hs hc).mono fun _ => Edge.Holds.trimmed

instance [h : Trims c .trimmed p] : Trims c .loose p where
  holds s hs hc := (h.holds s hs hc).mono fun _ _ => trivial

/-- What moves nothing, opens nothing and leaves recovery as it was adds nothing. -/
theorem Trims.of_silent (h : ∀ s, (p.run s).2.stream = s.stream ∧
    (p.run s).2.recovering = s.recovering ∧ (p.run s).2.lineMode = s.lineMode ∧
    (p.run s).2.blocks = s.blocks ∧ (p.run s).2.withTargets = s.withTargets ∧
    (p.run s).2.builder = s.builder) : Trims .any .trimmed p where
  holds s hs _ := by
    obtain ⟨hstream, hrecovering, hline, hblocks, hwith, hbuilder⟩ := h s
    exact .of_adds_nil hs (.of_silent hbuilder hstream hblocks hwith hline) hrecovering

instance (a : α) : Trims .any .trimmed (pure a : Production α) :=
  .of_silent fun _ => ⟨rfl, rfl, rfl, rfl, rfl, rfl⟩

instance : Trims .any .trimmed (get : Production State) :=
  .of_silent fun _ => ⟨rfl, rfl, rfl, rfl, rfl, rfl⟩

instance [h : Looks p] : Trims .any .trimmed p where
  holds s hs _ := by
    rw [h.run_snd]
    exact .refl hs

instance (activity : Activity) (t : Token) : Trims .any .trimmed (note activity t) :=
  .of_silent fun _ => ⟨rfl, rfl, rfl, rfl, rfl, rfl⟩

instance (separator : Separator) : Trims .any .trimmed (setSeparator separator) :=
  .of_silent fun _ => ⟨rfl, rfl, rfl, rfl, rfl, rfl⟩

instance (loops : Nat) : Trims .any .trimmed (setPendingNext loops) :=
  .of_silent fun _ => ⟨rfl, rfl, rfl, rfl, rfl, rfl⟩

instance (access header : Tree) : Trims .any .trimmed (addTarget access header) :=
  .of_silent fun _ => ⟨rfl, rfl, rfl, rfl, rfl, rfl⟩

/-- A statement that has not failed goes on so. -/
instance : Trims .any .trimmed (setRecovering false) where
  holds _ hs _ := .of_adds_nil hs (.of_silent rfl rfl rfl rfl rfl) hs.recovering.symm

instance : Trims .word .filled shift where
  holds _ hs hword := State.trims_shifted hs hword

instance : Trims .any .loose shift where
  holds s hs _ := by
    by_cases hend : s.AtEnd
    · rw [run_shift_of_atEnd hend]
      exact .refl hs
    · rw [run_shift hend]
      exact .inr ⟨hs.recovering, _, .shifted hend, by simpa using Tree.isTrimmed_leaf _, trivial⟩

instance {f : α → Production β} [hp : Trims c e p] [hf : ∀ a, Trims .any e (f a)]
    [hcomposed : ∀ a, Composed false (f a)] : Trims c e (p >>= f) where
  holds s hs hc := (hp.holds s hs hc).append hs (hcomposed _).failures_ne
    (fun ht => (hf _).holds _ ht trivial) fun _ _ => Edge.Holds.append

instance {f : α → Production β} [hp : Trims c .filled p] [hf : ∀ a, Trims .any .trimmed (f a)]
    [hcomposed : ∀ a, Composed false (f a)] : Trims c .filled (p >>= f) where
  holds s hs hc := (hp.holds s hs hc).append hs (hcomposed _).failures_ne
    (fun ht => (hf _).holds _ ht trivial) fun _ _ => Edge.Holds.append_trimmed

instance {f : α → Production β} [hp : Trims c .loose p] [hf : ∀ a, Trims .any .filled (f a)]
    [hcomposed : ∀ a, Composed false (f a)] : Trims c .filled (p >>= f) where
  holds s hs hc := (hp.holds s hs hc).append hs (hcomposed _).failures_ne
    (fun ht => (hf _).holds _ ht trivial) fun _ _ _ => Edge.Holds.append_filled

/-- What looks ahead leaves the cursor where it is. -/
instance {f : α → Production β} [hp : Looks p] [hf : ∀ a, Trims c e (f a)] :
    Trims c e (p >>= f) where
  holds s hs hc := by
    rw [run_bind, hp.run_snd]
    exact (hf _).holds s hs hc

instance {b : Prop} [Decidable b] [Trims c e p] [Trims c e q] : Trims c e (if b then p else q) := by
  split <;> infer_instance

/-- A test of what is at the cursor. -/
instance {test : Production Bool} [ht : TestsWord Kind.IsGap test] [hp : Trims .word e p]
    [hq : Trims c e q] : Trims c e (test >>= fun b => if b then p else q) where
  holds s hs hc := by
    rw [run_bind, ht.run_eq]
    cases htest : (test.run s).1 with
    | true => exact hp.holds s hs (ht.not_bar htest)
    | false => exact hq.holds s hs hc

/-- A test of what comes next. -/
instance {test : Production Bool} [ht : TestsNext Kind.IsGap test] [hp : Trims .next e p]
    [hq : Trims c e q] : Trims c e (test >>= fun b => if b then p else q) where
  holds s hs hc := by
    rw [run_bind, ht.run_eq]
    cases htest : (test.run s).1 with
    | true => exact hp.holds s hs (ht.not_bar htest)
    | false => exact hq.holds s hs hc

/-- What the kind at the cursor says of it. -/
theorem Trims.of_current {d : Kind → Prop} [DecidablePred d] {p q : Token → Production β}
    (hd : ∀ k ∈ Kind.gaps, ¬ d k) [hp : ∀ t, Trims .word e (p t)] [hq : ∀ t, Trims c e (q t)] :
    Trims c e (current >>= fun t => if d t.kind then p t else q t) where
  holds s hs hc := by
    change s.Trims e ((if d s.stream.current.kind then p s.stream.current
      else q s.stream.current).run s).2
    split
    next h => exact (hp _).holds s hs (Kind.not_isGap_of hd h)
    next => exact (hq _).holds s hs hc

/-- What the kind at the cursor says of it. -/
theorem Trims.of_currentKind {d : Kind → Prop} [DecidablePred d] {p q : Kind → Production β}
    (hd : ∀ k ∈ Kind.gaps, ¬ d k) [hp : ∀ k, Trims .word e (p k)] [hq : ∀ k, Trims c e (q k)] :
    Trims c e (currentKind >>= fun k => if d k then p k else q k) :=
  .of_current (p := fun t => p t.kind) (q := fun t => q t.kind) hd

/-- What the next significant kind says of it. -/
theorem Trims.of_nextKind {d : Kind → Prop} [DecidablePred d] {p q : Kind → Production β}
    (hd : ∀ k ∈ Kind.gaps, ¬ d k) [hp : ∀ k, Trims .next e (p k)] [hq : ∀ k, Trims c e (q k)] :
    Trims c e (nextKind >>= fun k => if d k then p k else q k) where
  holds s hs hc := by
    change s.Trims e
      ((if d (s.stream.peekSignificant 0).kind then p (s.stream.peekSignificant 0).kind
      else q (s.stream.peekSignificant 0).kind).run s).2
    split
    next h => exact (hp _).holds s hs (Kind.not_isGap_of hd h)
    next => exact (hq _).holds s hs hc

/-! ### Nodes -/

instance {k : NodeKind} [h : Trims .solid .filled p] : Trims .solid .filled (within k p) where
  holds _ hs hsolid := (h.holds _ (hs.opening k) hsolid).closing hs hsolid

instance {k : NodeKind} {p : Production Unit} [h : Trims .solid .filled p] :
    Trims .solid .filled (composite k p) where
  holds _ hs hsolid := (h.holds _ (hs.opening k) hsolid).closing hs hsolid

instance {k : NodeKind} [h : Trims .word .filled p] : Trims .word .filled (within k p) where
  holds _ hs hword :=
    (h.holds _ (hs.opening k) hword).closing hs (Kind.isInlineTrivia_of_not_isGap hword)

instance {k : NodeKind} {p : Production Unit} [h : Trims .word .filled p] :
    Trims .word .filled (composite k p) where
  holds _ hs hword :=
    (h.holds _ (hs.opening k) hword).closing hs (Kind.isInlineTrivia_of_not_isGap hword)

/-- A node that is no fragment may start and end as it likes. -/
theorem Trims.within_of_not_isFragment {k : NodeKind} (hk : k.isFragment = false)
    [h : Trims c e p] :
    Trims c e (Grammar.within k p) where
  holds _ hs hc := (h.holds _ (hs.opening k) hc).closing_of_not_isFragment hk hs

instance {k : NodeKind} [hk : IsTrue (!k.isFragment)] [h : Trims c e p] :
    Trims c e (Grammar.within k p) :=
  .within_of_not_isFragment (by simpa using hk.eq_true)

/-! ### Repetition -/

section

variable {exhausted : α → β} {pass : α → Production (Pass α β)} [hopen : e.IsOpen]
  [hpass : ∀ a, Trims .any e (pass a)] [hcomposed : ∀ a, Composed false (pass a)]

instance (n : Nat) (a : α) : Trims .any e (iterateUpTo exhausted pass n a) := by
  induction n generalizing a with
  | zero => exact ⟨fun _ hs _ => .refl hs⟩
  | succ n ih =>
    have hrest (r : Pass α β) : Trims .any e (match r with
        | .again a => iterateUpTo exhausted pass n a
        | .done b => pure b) := by
      cases r with
      | again a => exact ih a
      | done b => exact ⟨fun _ hs _ => .refl hs⟩
    have hcomposed (r : Pass α β) : Composed false (match r with
        | .again a => iterateUpTo exhausted pass n a
        | .done b => pure b) := by
      cases r <;> dsimp only <;> infer_instance
    unfold iterateUpTo
    infer_instance

instance (a : α) : Trims .any e (iterate exhausted pass a) where
  holds s hs _ := by
    unfold iterate
    rw [run_look_bind]
    exact Trims.holds (c := .any) s hs trivial

end

/-- A loop whose first pass moves a token. -/
theorem trims_iterate {exhausted : α → β} {pass : α → Production (Pass α β)}
    [hpass : ∀ a, Trims .any .trimmed (pass a)] [hcomposed : ∀ a, Composed false (pass a)] {a : α}
    {s : State} (hs : s.Fresh) (hfirst : s.Trims .filled ((pass a).run s).2) :
    s.Trims .filled ((iterate exhausted pass a).run s).2 := by
  have hrest (n : Nat) (r : Pass α β) : Trims .any .trimmed (match r with
      | .again a => iterateUpTo exhausted pass n a
      | .done b => pure b) := by
    cases r <;> dsimp only <;> infer_instance
  have hcomposed (n : Nat) (r : Pass α β) : Composed false (match r with
      | .again a => iterateUpTo exhausted pass n a
      | .done b => pure b) := by
    cases r <;> dsimp only <;> infer_instance
  unfold iterate iterateUpTo
  rw [run_look_bind, run_bind]
  exact hfirst.append hs (hcomposed _ _).failures_ne (fun ht => (hrest _ _).holds _ ht trivial)
    fun _ _ => Edge.Holds.append_trimmed

/-- A repetition adds trimmed trees when its body does where the test holds. -/
theorem Trims.repeatWhile {test : Production Bool} {body : Production Unit} [he : e.IsOpen]
    (hrun : ∀ s, (test.run s).2 = s) [hcomposed : Composed false body] [htest : Composed false test]
    (hbody : ∀ s : State, s.Fresh → (test.run s).1 = true → s.Trims e (body.run s).2) :
    Trims .any e (repeatWhile test body) := by
  have hupTo (n : Nat) : Trims .any e (repeatWhileUpTo test body n) := by
    induction n with
    | zero => exact ⟨fun _ hs _ => .refl hs⟩
    | succ n ih =>
      refine ⟨fun s hs _ => ?_⟩
      have hrest : Composed false (repeatWhileUpTo test body n) := inferInstance
      unfold repeatWhileUpTo
      rw [run_bind, hrun]
      cases hholds : (test.run s).1 with
      | true =>
        exact (hbody s hs hholds).append hs hrest.failures_ne (fun ht => ih.holds _ ht trivial)
          fun _ _ => Edge.Holds.append
      | false => exact .refl hs
  refine ⟨fun s hs _ => ?_⟩
  unfold Grammar.repeatWhile
  rw [run_look_bind]
  exact (hupTo _).holds s hs trivial

instance {test : Production Bool} {body : Production Unit} [e.IsOpen]
    [ht : TestsNext Kind.IsGap test]
    [Composed false test] [Composed false body] [hbody : Trims .next e body] :
    Trims .any e (repeatWhile test body) :=
  .repeatWhile (fun s => by rw [ht.run_eq]) fun s hs h => hbody.holds s hs (ht.not_bar h)

end

end Grammar

end LosslessBasic
