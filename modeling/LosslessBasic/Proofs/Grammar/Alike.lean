import LosslessBasic.Proofs.Grammar.Order
import LosslessBasic.Proofs.Tree.View

/-!
# Going on alike

Two readings are compared through a view: of texts that look the same, the grammar makes trees that
look the same, and reports failures that look the same. `SameState V s s'` says that two states look
the same, the trees that are there already apart; `Alike V onSolid p q` says of two productions
that, started in states that look the same, they add trees that look the same and leave states and
give results that do.

The two texts may differ in the number of blanks in a row. A single shift at a blank would leave
them with a blank in front of the one and none in front of the other, so what shifts is alike only
where no blank stands at the cursor: that is what `onSolid` asks for. What moves blanks moves all of
them, up to a token that is none; loops that move them one at a time do the same
(`run_iterate_blanks`).

As in `Obeys` and `ObeysFrom`, where a node is put around trees that are there already, `AlikeFrom`
speaks of what has been added since a checkpoint.
-/

namespace LosslessBasic.Grammar

/-! ## Results -/

/-- What is seen of results of a type. -/
class Observed (α : Type) where
  /-- Two results that look the same. -/
  same : View → α → α → Prop
  /-- Every result looks like itself. -/
  refl (V : View) (a : α) : same V a a

/-- Two results that look the same. -/
class Same (V : View) {α : Type} [Observed α] (a b : α) : Prop where
  same : Observed.same V a b

/-- Two results that look the same, as one. What quantifies over such results quantifies over these,
so that the search for instances finds `Same`. -/
structure Twins (V : View) (α : Type) [Observed α] where
  /-- The result of the first run. -/
  left : α
  /-- The result of the second run. -/
  right : α
  /-- They look the same. -/
  same : Observed.same V left right

/-- Results of which everything is seen. -/
class Plain (α : Type) [Observed α] : Prop where
  eq_of_same {V : View} {a b : α} : Observed.same V a b → a = b

instance : Observed Unit := ⟨fun _ => Eq, fun _ _ => rfl⟩
instance : Observed Bool := ⟨fun _ => Eq, fun _ _ => rfl⟩
instance : Observed Nat := ⟨fun _ => Eq, fun _ _ => rfl⟩
instance : Observed Kind := ⟨fun _ => Eq, fun _ _ => rfl⟩
instance : Observed Stop := ⟨fun _ => Eq, fun _ _ => rfl⟩
instance : Observed (Option Block) := ⟨fun _ => Eq, fun _ _ => rfl⟩
instance : Observed (Option Closer) := ⟨fun _ => Eq, fun _ _ => rfl⟩

/-- Of a text that goes into a message, nothing is seen. -/
instance : Observed Bytes := ⟨fun _ _ _ => True, fun _ _ => trivial⟩

instance : Observed Token := ⟨View.Like, fun _ _ => .rfl⟩

/-- Of a node that is given, only that it is there. -/
instance : Observed (Option Tree) := ⟨fun _ a b => a.isSome = b.isSome, fun _ _ => rfl⟩

instance {α β : Type} [Observed α] [Observed β] : Observed (Pass α β) where
  same V r r' := match r, r' with
    | .again a, .again a' => Observed.same V a a'
    | .done b, .done b' => Observed.same V b b'
    | _, _ => False
  refl V r := by cases r <;> exact Observed.refl V _

instance : Plain Unit := ⟨id⟩
instance : Plain Bool := ⟨id⟩
instance : Plain Nat := ⟨id⟩
instance : Plain Kind := ⟨id⟩
instance : Plain Stop := ⟨id⟩
instance : Plain (Option Block) := ⟨id⟩
instance : Plain (Option Closer) := ⟨id⟩

section

variable {V : View} {α β : Type} [Observed α] [Observed β]

instance (a : α) : Same V a a := ⟨Observed.refl V a⟩

instance (x : Twins V α) : Same V x.left x.right := ⟨x.same⟩

instance {a a' : Option Tree} [h : Same V a a'] : Same V a.isSome a'.isSome := ⟨h.same⟩

instance {a a' : α} [h : Same V a a'] : Same V (Pass.again a : Pass α β) (.again a') := ⟨h.same⟩

instance {b b' : β} [h : Same V b b'] : Same V (Pass.done b : Pass α β) (.done b') := ⟨h.same⟩

end

/-! ## States -/

/-- Two states that look the same, the trees that are there already apart. -/
structure SameState (V : View) (s s' : State) : Prop where
  tokens : V.SameTokens s.stream.rest s'.stream.rest
  anchor : V.anchor s.builder.anchor = V.anchor s'.builder.anchor
  innermost : s.InnermostInRow
  innermost' : s'.InnermostInRow
  failures : s.failures.toList.map V.failure = s'.failures.toList.map V.failure
  recovering : s.recovering = s'.recovering
  lineMode : s.lineMode = s'.lineMode
  pendingNext : s.pendingNext = s'.pendingNext
  blocks : s.blocks = s'.blocks
  withTargets : s.withTargets.length = s'.withTargets.length
  lastSeparator : s.lastSeparator = s'.lastSeparator

/-- From two states on, trees that look the same have been added. -/
def AddsAlike (V : View) (s s' t t' : State) : Prop :=
  ∃ trees trees', s.Adds trees t ∧ s'.Adds trees' t' ∧ V.trees trees = V.trees trees'

/-- Two runs that have added trees that look the same and leave states and results that do. -/
structure Leads (V : View) (s s' : State) {α : Type} [Observed α] (r r' : α × State) : Prop where
  adds : AddsAlike V s s' r.2 r'.2
  state : SameState V r.2 r'.2
  result : Observed.same V r.1 r'.1

section

variable {V : View} {s s' t t' u u' : State}

/-- Where nothing is added to either, the same is added. -/
theorem AddsAlike.refl (s s' : State) : AddsAlike V s s' s s' :=
  ⟨[], [], .refl s, .refl s', rfl⟩

/-- What two productions add alike one after the other is alike. -/
theorem AddsAlike.trans (h : AddsAlike V s s' t t') (h' : AddsAlike V t t' u u') :
    AddsAlike V s s' u u' := by
  obtain ⟨trees, trees', hadds, hadds', heq⟩ := h
  obtain ⟨more, more', hmore, hmore', heq'⟩ := h'
  exact ⟨_, _, hadds.trans hmore, hadds'.trans hmore', by
    rw [View.trees_append, View.trees_append, heq, heq']⟩

/-- Of states that look the same both stand at a word or neither does. -/
theorem SameState.onSolid (h : SameState V s s') (hs : s.OnSolid) : s'.OnSolid :=
  h.tokens.current.isInlineTrivia_eq.symm.trans hs

/-- States that look the same stand at words of the same kind. -/
theorem SameState.kind_eq (h : SameState V s s') (hs : s.OnSolid) :
    s.stream.current.kind = s'.stream.current.kind :=
  h.tokens.current.kind_eq hs

variable {α : Type} [Observed α]

/-- What leads on alike from states that have been led to alike does so from the first ones. -/
theorem Leads.trans {r r' : α × State} (h : AddsAlike V s s' t t') (h' : Leads V t t' r r') :
    Leads V s s' r r' :=
  ⟨h.trans h'.adds, h'.state, h'.result⟩

/-- States that look the same have been led to alike, with results that look the same. -/
theorem SameState.leads (h : SameState V s s') {a a' : α} (ha : Observed.same V a a') :
    Leads V s s' (a, s) (a', s') :=
  ⟨.refl s s', h, ha⟩

end

/-! ### Moving a token -/

section

variable {V : View} {s s' : State}

/-- To shift leaves the innermost open node within the row. -/
theorem innermostInRow_shifted (hs : s.InnermostInRow) (hend : ¬ s.AtEnd) :
    s.shifted.InnermostInRow :=
  (State.Adds.shifted hend).innermostInRow hs

/-- Two tokens that look the same are moved. -/
theorem SameState.shifted (h : SameState V s s') (hend : ¬ s.AtEnd) (hend' : ¬ s'.AtEnd)
    (hlike : V.Like s.stream.current s'.stream.current)
    (hahead : V.SameTokens s.shifted.stream.rest s'.shifted.stream.rest) :
    AddsAlike V s s' s.shifted s'.shifted ∧ SameState V s.shifted s'.shifted := by
  refine ⟨⟨_, _, .shifted hend, .shifted hend', ?_⟩, ?_⟩
  · rw [View.trees_singleton, View.trees_singleton, View.tree?, View.tree?, hlike]
  · exact { h with
      tokens := hahead
      anchor := hlike.behind_eq
      innermost := innermostInRow_shifted h.innermost hend
      innermost' := innermostInRow_shifted h.innermost' hend' }

/-- An overlooked token is moved on one side only. -/
theorem SameState.shifted_right (h : SameState V s s') (hend' : ¬ s'.AtEnd)
    (hblind : V.token? s'.stream.current = none)
    (hahead : V.SameTokens s.stream.rest s'.shifted.stream.rest) :
    AddsAlike V s s' s s'.shifted ∧ SameState V s s'.shifted := by
  refine ⟨⟨[], _, .refl s, .shifted hend', ?_⟩, ?_⟩
  · rw [View.trees_singleton, View.tree?, hblind]
    rfl
  · exact { h with
      tokens := hahead
      anchor := V.anchor_of_none _ _ hblind
      innermost' := innermostInRow_shifted h.innermost' hend' }

end

/-! ## Productions -/

/-- Two productions that go on alike from states that look the same; with `onSolid` only where no
blank stands at the cursor. -/
class Alike (V : View) (onSolid : Bool) {α : Type} [Observed α] (p q : Production α) : Prop where
  leads {s s' : State} : SameState V s s' → (onSolid = true → s.OnSolid) →
    Leads V s s' (p.run s) (q.run s')

/-- Two productions that go on alike since a checkpoint. -/
class AlikeFrom (V : View) (onSolid : Bool) (cp cp' : Checkpoint) {α : Type} [Observed α]
    (p q : Production α) : Prop where
  leads {s s' t t' : State} : s.builder.checkpoint = cp → s'.builder.checkpoint = cp' →
    s.InnermostInRow → s'.InnermostInRow → AddsAlike V s s' t t' → SameState V t t' →
    (onSolid = true → t.OnSolid) → Leads V s s' (p.run t) (q.run t')

section

variable {V : View} {onSolid : Bool} {cp cp' : Checkpoint} {α β : Type} [Observed α] [Observed β]
  {p q p' q' : Production α}

instance [h : Alike V false p q] : Alike V true p q := ⟨fun hs _ => h.leads hs nofun⟩

instance [h : AlikeFrom V false cp cp' p q] : AlikeFrom V true cp cp' p q :=
  ⟨fun hcp hcp' hs hs' hadds ht _ => h.leads hcp hcp' hs hs' hadds ht nofun⟩

instance [h : Alike V onSolid p q] : AlikeFrom V onSolid cp cp' p q :=
  ⟨fun _ _ _ _ hadds ht hsolid => .trans hadds (h.leads ht hsolid)⟩

/-! ### Moves -/

instance {a a' : α} [h : Same V a a'] : Alike V onSolid (pure a) (pure a') :=
  ⟨fun hs _ => hs.leads h.same⟩

/-- What looks ahead alike. -/
theorem Alike.of_look {f g : TokenStream → α}
    (h : ∀ s s' : State, SameState V s s' → (onSolid = true → s.OnSolid) →
      Observed.same V (f s.stream) (g s'.stream)) : Alike V onSolid (look f) (look g) :=
  ⟨fun hs hsolid => hs.leads (h _ _ hs hsolid)⟩

/-- What looks at the state and goes on with what it has seen. -/
theorem Alike.of_get {f g : State → Production α}
    (h : ∀ s s', SameState V s s' → Alike V onSolid (f s) (g s')) :
    Alike V onSolid (get >>= f) (get >>= g) :=
  ⟨fun hs hsolid => (h _ _ hs).leads hs hsolid⟩

/-- What neither moves tokens nor opens anything. -/
theorem Alike.of_silent (hp : ∀ s : State, s.Adds [] (p.run s).2)
    (hq : ∀ s : State, s.Adds [] (q.run s).2)
    (hstate : ∀ s s', SameState V s s' → SameState V (p.run s).2 (q.run s').2)
    (hresult : ∀ s s', SameState V s s' → Observed.same V (p.run s).1 (q.run s').1) :
    Alike V onSolid p q :=
  ⟨fun hs _ => ⟨⟨[], [], hp _, hq _, rfl⟩, hstate _ _ hs, hresult _ _ hs⟩⟩

instance (activity : Activity) (t t' : Token) :
    Alike V onSolid (note activity t) (note activity t') :=
  .of_silent (fun _ => .of_silent rfl rfl rfl rfl rfl) (fun _ => .of_silent rfl rfl rfl rfl rfl)
    (fun _ _ hs => { hs with }) fun _ _ _ => rfl

instance (recovering : Bool) :
    Alike V onSolid (setRecovering recovering) (setRecovering recovering) :=
  .of_silent (fun _ => .of_silent rfl rfl rfl rfl rfl) (fun _ => .of_silent rfl rfl rfl rfl rfl)
    (fun _ _ hs => { hs with recovering := rfl }) fun _ _ _ => rfl

instance (separator : Separator) :
    Alike V onSolid (setSeparator separator) (setSeparator separator) :=
  .of_silent (fun _ => .of_silent rfl rfl rfl rfl rfl) (fun _ => .of_silent rfl rfl rfl rfl rfl)
    (fun _ _ hs => { hs with lastSeparator := rfl }) fun _ _ _ => rfl

instance (loops : Nat) : Alike V onSolid (setPendingNext loops) (setPendingNext loops) :=
  .of_silent (fun _ => .of_silent rfl rfl rfl rfl rfl) (fun _ => .of_silent rfl rfl rfl rfl rfl)
    (fun _ _ hs => { hs with pendingNext := rfl }) fun _ _ _ => rfl

/-- Two problems of one code. -/
class SameCode (problem problem' : Problem) : Prop where
  eq : problem.code = problem'.code

instance {problem problem' : Problem} [hcode : SameCode problem problem'] {t t' : Token}
    [ht : Same V t t'] : Alike V onSolid (report problem t) (report problem' t') := by
  refine .of_silent (fun _ => .of_silent rfl rfl rfl rfl rfl)
    (fun _ => .of_silent rfl rfl rfl rfl rfl) (fun s s' hs => { hs with failures := ?_ })
    fun _ _ _ => rfl
  change (s.failures.push _).toList.map V.failure = (s'.failures.push _).toList.map V.failure
  rw [Array.toList_push, Array.toList_push, List.map_append, List.map_append, hs.failures,
    List.map_singleton, List.map_singleton, View.failure_atToken_eq ht.same hcode.eq]

instance : Alike V true shift shift where
  leads {s s'} hs hsolid := by
    have hkind := hs.kind_eq (hsolid rfl)
    by_cases hend : s.AtEnd
    · rw [run_shift_of_atEnd hend, run_shift_of_atEnd (hkind.symm.trans hend)]
      exact hs.leads rfl
    · have hend' : ¬ s'.AtEnd := fun h => hend (hkind.trans h)
      have hahead : V.SameTokens s.stream.advance.rest s'.stream.advance.rest := by
        have htail := hs.tokens.tail (hsolid rfl)
        rwa [TokenStream.rest_advance (TokenStream.ahead_ne_nil hend),
          TokenStream.rest_advance (TokenStream.ahead_ne_nil hend')] at htail
      obtain ⟨hadds, hstate⟩ := hs.shifted hend hend' hs.tokens.current hahead
      rw [run_shift hend, run_shift hend']
      exact ⟨hadds, hstate, rfl⟩

/-! ### One after the other -/

/-- Both go on with results that look the same. -/
theorem Alike.bind {f g : α → Production β} (hp : Alike V onSolid p q)
    (hf : ∀ a a', Observed.same V a a' → Alike V false (f a) (g a')) :
    Alike V onSolid (p >>= f) (q >>= g) where
  leads hs hsolid := by
    have h := hp.leads hs hsolid
    exact .trans h.adds ((hf _ _ h.result).leads h.state nofun)

/-- What moves nothing leaves no blank at the cursor where there was none. -/
theorem Alike.bind_still {f g : α → Production β} [hp : Alike V onSolid p q] [hstill : Still p]
    (hf : ∀ a a', Observed.same V a a' → Alike V onSolid (f a) (g a')) :
    Alike V onSolid (p >>= f) (q >>= g) where
  leads {s s'} hs hsolid := by
    have h := hp.leads hs hsolid
    have hstay (hon : onSolid = true) : (p.run s).2.OnSolid := by
      rw [State.OnSolid, hstill.stream_eq]
      exact hsolid hon
    exact .trans h.adds ((hf _ _ h.result).leads h.state hstay)

instance [Plain α] {f g : α → Production β} [hp : Alike V onSolid p q]
    [hf : ∀ a, Alike V false (f a) (g a)] : Alike V onSolid (p >>= f) (q >>= g) :=
  hp.bind fun a a' ha => by
    obtain rfl := Plain.eq_of_same ha
    exact hf a

instance [Plain α] {f g : α → Production β} [hp : Alike V true p q] [Still p]
    [hf : ∀ a, Alike V true (f a) (g a)] : Alike V true (p >>= f) (q >>= g) :=
  .bind_still fun a a' ha => by
    obtain rfl := Plain.eq_of_same ha
    exact hf a

instance {p q : Production Token} {f g : Token → Production β} [hp : Alike V onSolid p q]
    [hf : ∀ x : Twins V Token, Alike V false (f x.left) (g x.right)] :
    Alike V onSolid (p >>= f) (q >>= g) :=
  hp.bind fun t t' ht => hf ⟨t, t', ht⟩

instance {p q : Production Token} {f g : Token → Production β} [hp : Alike V true p q] [Still p]
    [hf : ∀ x : Twins V Token, Alike V true (f x.left) (g x.right)] :
    Alike V true (p >>= f) (q >>= g) :=
  .bind_still fun t t' ht => hf ⟨t, t', ht⟩

instance {p q : Production (Option Tree)} {f g : Option Tree → Production β}
    [hp : Alike V onSolid p q]
    [hf : ∀ x : Twins V (Option Tree), Alike V false (f x.left) (g x.right)] :
    Alike V onSolid (p >>= f) (q >>= g) :=
  hp.bind fun n n' hn => hf ⟨n, n', hn⟩

instance {p q : Production Bytes} {f g : Bytes → Production β} [hp : Alike V true p q] [Still p]
    [hf : ∀ text text', Alike V true (f text) (g text')] : Alike V true (p >>= f) (q >>= g) :=
  .bind_still fun text text' _ => hf text text'

instance {c : Prop} [Decidable c] [Alike V onSolid p q] [Alike V onSolid p' q'] :
    Alike V onSolid (if c then p else p') (if c then q else q') := by
  split <;> infer_instance

/-- Where a test holds only away from blanks, what it guards may rely on that. -/
instance {test : Production Bool} [ht : TestsSolid test] [htest : Alike V onSolid test test]
    [hp : Alike V true p q] [hp' : Alike V onSolid p' q'] :
    Alike V onSolid (test >>= fun b => if b then p else p') (test >>= fun b =>
      if b then q else q') where
  leads {s s'} hs hsolid := by
    have hresult := (htest.leads hs hsolid).result
    rw [run_bind, run_bind, ht.run_eq s, ht.run_eq s']
    have heq : (test.run s).1 = (test.run s').1 := Plain.eq_of_same hresult
    rw [← heq]
    cases hholds : (test.run s).1 with
    | true => exact hp.leads hs fun _ => ht.onSolid hholds
    | false => exact hp'.leads hs hsolid

/-! ### Nodes and contexts -/

/-- States that look the same do so in a new node. -/
theorem SameState.opening {s s' : State} (h : SameState V s s') (k : NodeKind) :
    SameState V (s.opening k) (s'.opening k) :=
  { h with
    innermost := State.innermostInRow_opening s k
    innermost' := State.innermostInRow_opening s' k }

/-- Nodes around trees that look the same look the same. -/
theorem Leads.closing {s s' : State} {k : NodeKind} {γ δ : Type} [Observed γ] [Observed δ]
    {r r' : γ × State} (hs : SameState V s s')
    (h : Leads V (s.opening k) (s'.opening k) r r') {d d' : δ}
    (hd : Observed.same V d d') : Leads V s s' (d, r.2.closing) (d', r'.2.closing) := by
  obtain ⟨trees, trees', hadds, hadds', heq⟩ := h.adds
  have hclosed := (hadds.closing_opening hs.innermost).1
  have hclosed' := (hadds'.closing_opening hs.innermost').1
  have hanchor := h.state.anchor
  refine ⟨⟨_, _, hclosed, hclosed', View.trees_above_eq heq hanchor⟩, ?_, hd⟩
  exact { h.state with
    anchor := by
      change V.anchor r.2.builder.finishNode.2.anchor = V.anchor r'.2.builder.finishNode.2.anchor
      rw [Builder.anchor_finishNode, Builder.anchor_finishNode, hanchor]
    innermost := hclosed.innermostInRow hs.innermost
    innermost' := hclosed'.innermostInRow hs.innermost' }

instance {k : NodeKind} [h : Alike V onSolid p q] : Alike V onSolid (within k p) (within k q) where
  leads hs hsolid := by
    have hbody := h.leads (hs.opening k) hsolid
    exact .closing hs hbody hbody.result

instance {k : NodeKind} {p q : Production Unit} [h : Alike V onSolid p q] :
    Alike V onSolid (composite k p) (composite k q) where
  leads {s s'} hs hsolid := by
    have hbody := h.leads (hs.opening k) hsolid
    obtain ⟨trees, trees', hadds, hadds', -⟩ := hbody.adds
    rw [run_composite, run_composite]
    refine .closing hs hbody ?_
    rw [(hadds.closing_opening hs.innermost).2, (hadds'.closing_opening hs.innermost').2]
    rfl

instance {block : Block} [h : Alike V onSolid p q] :
    Alike V onSolid (inBlock block p) (inBlock block q) where
  leads {s s'} hs hsolid := by
    have hopen : SameState V { s with blocks := block :: s.blocks }
        { s' with blocks := block :: s'.blocks } :=
      { hs with blocks := congrArg (block :: ·) hs.blocks }
    have hbody := h.leads hopen hsolid
    obtain ⟨trees, trees', hadds, hadds', heq⟩ := hbody.adds
    exact ⟨⟨_, _, hadds.inBlock, hadds'.inBlock, heq⟩,
      { hbody.state with blocks := congrArg List.tail hbody.state.blocks }, hbody.result⟩

instance {target target' : Option Tree} [h : Alike V onSolid p q] :
    Alike V onSolid (inWith target p) (inWith target' q) where
  leads {s s'} hs hsolid := by
    have hopen : SameState V { s with withTargets := target :: s.withTargets }
        { s' with withTargets := target' :: s'.withTargets } :=
      { hs with withTargets := congrArg (· + 1) hs.withTargets }
    have hbody := h.leads hopen hsolid
    obtain ⟨trees, trees', hadds, hadds', heq⟩ := hbody.adds
    refine ⟨⟨_, _, hadds.inWith, hadds'.inWith, heq⟩, { hbody.state with withTargets := ?_ },
      hbody.result⟩
    have hlength := congrArg (· - 1) hbody.state.withTargets
    simp only [← List.length_tail] at hlength
    exact hlength

instance [h : Alike V onSolid p q] : Alike V onSolid (onOneLine p) (onOneLine q) where
  leads {s s'} hs hsolid := by
    have hopen : SameState V { s with lineMode := s.lineMode + 1 }
        { s' with lineMode := s'.lineMode + 1 } :=
      { hs with lineMode := congrArg (· + 1) hs.lineMode }
    have hbody := h.leads hopen hsolid
    obtain ⟨trees, trees', hadds, hadds', heq⟩ := hbody.adds
    exact ⟨⟨_, _, hadds.onOneLine, hadds'.onOneLine, heq⟩,
      { hbody.state with lineMode := congrArg (· - 1) hbody.state.lineMode }, hbody.result⟩

/-! ### Since a checkpoint -/

/-- Productions under a checkpoint are alike one behind the other. -/
theorem AlikeFrom.bind {f g : α → Production β} (hp : AlikeFrom V onSolid cp cp' p q)
    (hf : ∀ a a', Observed.same V a a' → AlikeFrom V false cp cp' (f a) (g a')) :
    AlikeFrom V onSolid cp cp' (p >>= f) (q >>= g) where
  leads hcp hcp' hs hs' hadds ht hsolid := by
    have h := hp.leads hcp hcp' hs hs' hadds ht hsolid
    exact (hf _ _ h.result).leads hcp hcp' hs hs' h.adds h.state nofun

/-- Behind a production that does not move, the next one may ask for a word at the cursor, too. -/
theorem AlikeFrom.bind_still {f g : α → Production β} [hp : AlikeFrom V onSolid cp cp' p q]
    [hstill : Still p]
    (hf : ∀ a a', Observed.same V a a' → AlikeFrom V onSolid cp cp' (f a) (g a')) :
    AlikeFrom V onSolid cp cp' (p >>= f) (q >>= g) where
  leads {s s' t t'} hcp hcp' hs hs' hadds ht hsolid := by
    have h := hp.leads hcp hcp' hs hs' hadds ht hsolid
    have hstay (hon : onSolid = true) : (p.run t).2.OnSolid := by
      rw [State.OnSolid, hstill.stream_eq]
      exact hsolid hon
    exact (hf _ _ h.result).leads hcp hcp' hs hs' h.adds h.state hstay

instance [Plain α] {f g : α → Production β} [hp : AlikeFrom V onSolid cp cp' p q]
    [hf : ∀ a, AlikeFrom V false cp cp' (f a) (g a)] :
    AlikeFrom V onSolid cp cp' (p >>= f) (q >>= g) :=
  hp.bind fun a a' ha => by
    obtain rfl := Plain.eq_of_same ha
    exact hf a

instance [Plain α] {f g : α → Production β} [hp : AlikeFrom V true cp cp' p q] [Still p]
    [hf : ∀ a, AlikeFrom V true cp cp' (f a) (g a)] :
    AlikeFrom V true cp cp' (p >>= f) (q >>= g) :=
  .bind_still fun a a' ha => by
    obtain rfl := Plain.eq_of_same ha
    exact hf a

instance {p q : Production (Option Tree)} {f g : Option Tree → Production β}
    [hp : AlikeFrom V onSolid cp cp' p q]
    [hf : ∀ x : Twins V (Option Tree), AlikeFrom V false cp cp' (f x.left) (g x.right)] :
    AlikeFrom V onSolid cp cp' (p >>= f) (q >>= g) :=
  hp.bind fun n n' hn => hf ⟨n, n', hn⟩

instance {c : Prop} [Decidable c] [AlikeFrom V onSolid cp cp' p q]
    [AlikeFrom V onSolid cp cp' p' q'] :
    AlikeFrom V onSolid cp cp' (if c then p else p') (if c then q else q') := by
  split <;> infer_instance

instance {test : Production Bool} [ht : TestsSolid test] [htest : Alike V onSolid test test]
    [hp : AlikeFrom V true cp cp' p q] [hp' : AlikeFrom V onSolid cp cp' p' q'] :
    AlikeFrom V onSolid cp cp' (test >>= fun b => if b then p else p')
      (test >>= fun b => if b then q else q') where
  leads {s s' t t'} hcp hcp' hs hs' hadds h hsolid := by
    have hresult := (htest.leads h hsolid).result
    rw [run_bind, run_bind, ht.run_eq t, ht.run_eq t']
    have heq : (test.run t).1 = (test.run t').1 := Plain.eq_of_same hresult
    rw [← heq]
    cases hholds : (test.run t).1 with
    | true => exact hp.leads hcp hcp' hs hs' hadds h fun _ => ht.onSolid hholds
    | false => exact hp'.leads hcp hcp' hs hs' hadds h hsolid

instance {k : NodeKind} {p q : Production Unit} [h : Alike V onSolid p q] :
    AlikeFrom V onSolid cp cp' (compositeFrom cp k p) (compositeFrom cp' k q) where
  leads {s s' t t'} hcp hcp' hs hs' hadds ht hsolid := by
    subst hcp hcp'
    obtain ⟨trees, trees', hadds, hadds', heq⟩ := hadds
    have hopened : SameState V (t.openingAt s.builder.checkpoint k)
        (t'.openingAt s'.builder.checkpoint k) :=
      { ht with
        innermost := hadds.innermostInRow_openingAt hs k
        innermost' := hadds'.innermostInRow_openingAt hs' k }
    have hbody := h.leads hopened hsolid
    obtain ⟨more, more', hmore, hmore', heq'⟩ := hbody.adds
    obtain ⟨hclosed, hgiven⟩ := hadds.closing_openingAt hs hmore
    obtain ⟨hclosed', hgiven'⟩ := hadds'.closing_openingAt hs' hmore'
    have htrees : V.trees (trees ++ more) = V.trees (trees' ++ more') := by
      rw [View.trees_append, View.trees_append, heq, heq']
    have hanchor := hbody.state.anchor
    rw [run_compositeFrom, run_compositeFrom]
    refine ⟨⟨_, _, hclosed, hclosed', View.trees_above_eq htrees hanchor⟩, ?_, ?_⟩
    · exact { hbody.state with
        anchor := by
          unfold State.closing
          rw [Builder.anchor_finishNode, Builder.anchor_finishNode, hanchor]
        innermost := hclosed.innermostInRow hs
        innermost' := hclosed'.innermostInRow hs' }
    · rw [hgiven, hgiven']
      rfl

instance {f g : Checkpoint → Production β}
    [hf : ∀ cp cp', AlikeFrom V onSolid cp cp' (f cp) (g cp')] :
    Alike V onSolid (checkpoint >>= f) (checkpoint >>= g) where
  leads {s s'} hs hsolid :=
    (hf _ _).leads rfl rfl hs.innermost hs.innermost' (.refl s s') hs hsolid

end

end LosslessBasic.Grammar
