import LosslessBasic.Grammar.Expression
import LosslessBasic.Proofs.Grammar.Placement
import Mathlib.Data.List.Forall2

/-!
# Names without their kinds

A soft keyword serves as a name where one is asked for. `Naming` forgets which one it was: every
token that serves as a name becomes an identifier, in tokens, trees, failures and states. What is
left of a token is where it stands and what it says, and two tokens look the same then exactly if
they differ at most in the kinds of names (`Token.SameUpToName`). Messages tell no more
(`Naming.message_problem`), since a name is called by its text.
-/

namespace LosslessBasic

/-- Two tokens that differ at most in the kind of name they are. -/
structure Token.SameUpToName (t u : Token) : Prop where
  /-- The kinds are the same, or each of them is that of an identifier or a soft keyword. -/
  kind : t.kind = u.kind ∨ t.kind.isNameLike = true ∧ u.kind.isNameLike = true
  text : t.text = u.text
  offset : t.offset = u.offset
  loc : t.loc = u.loc

/-- Two trees that differ at most in the kinds of their names. -/
inductive Tree.SameUpToNames : Tree → Tree → Prop where
  | leaf {t u : Token} (h : t.SameUpToName u) : SameUpToNames (.leaf t) (.leaf u)
  | node {k : Kind} {a : Anchor} {ts us : List Tree} (h : List.Forall₂ SameUpToNames ts us) :
      SameUpToNames (.node k a ts) (.node k a us)

/-- Two failures that are told alike. -/
structure Failure.SameReport (f g : Failure) : Prop where
  code : f.code = g.code
  message : f.message = g.message
  span : f.span = g.span
  loc : f.loc = g.loc

namespace Naming

/-- A kind, that of an identifier for all names. -/
def kind (k : Kind) : Kind := if k.isNameLike then .lexeme .identifier else k

/-- A token, an identifier if it is a name. -/
def token (t : Token) : Token := { t with kind := kind t.kind }

@[simp]
theorem kind_token (t : Token) : (token t).kind = kind t.kind := rfl

@[simp]
theorem text_token (t : Token) : (token t).text = t.text := rfl

mutual

/-- A tree with identifiers for all names. -/
def tree : Tree → Tree
  | .leaf t => .leaf (token t)
  | .node k a children => .node k a (trees children)

/-- Trees with identifiers for all names. -/
def trees : List Tree → List Tree
  | [] => []
  | t :: ts => tree t :: trees ts

end

/-- A problem, with identifiers for the names it tells. -/
@[reducible]
def problem : Problem → Problem
  | .expected wanted got => .expected wanted (token got)
  | .unexpectedStart got => .unexpectedStart (token got)
  | .leftover got => .leftover (token got)
  | .expectedCase got => .expectedCase (token got)
  | .missingCloser block got => .missingCloser block (token got)
  | .memberOutsideWith access => .memberOutsideWith (token access)
  | .unmatchedNext named => .unmatchedNext (token named)
  | p => p

/-- A failure, with identifiers for the names it tells. -/
def failure (f : Failure) : Failure := { f with problem := problem f.problem }

/-- An event, with identifiers for names. -/
def event : Event → Event
  | .began activity t => .began activity (token t)
  | .failed f => .failed (failure f)

/-- An access with identifiers for names, and the header that it refers to. -/
def target (t : Tree × Tree) : Tree × Tree := (tree t.1, t.2)

/-! ## Kinds -/

/-- A word that can be a name looks like an identifier. -/
theorem kind_of_isNameLike {k : Kind} (h : k.isNameLike = true) :
    kind k = .lexeme .identifier := if_pos h

/-- Any other kind looks as it does. -/
theorem kind_of_not_isNameLike {k : Kind} (h : k.isNameLike = false) : kind k = k :=
  if_neg (by rw [h]; exact Bool.false_ne_true)

/-- A kind is kept, or it is that of a soft keyword and becomes that of an identifier. -/
theorem kind_cases (k : Kind) : kind k = k ∨
    ∃ w : Keyword, k = .keyword w ∧ w.isSoft = true ∧ kind k = .lexeme .identifier := by
  cases hk : k.isNameLike with
  | false => exact .inl (kind_of_not_isNameLike hk)
  | true =>
    match k, hk with
    | .lexeme .identifier, _ => exact .inl rfl
    | .keyword w, hw => exact .inr ⟨w, rfl, hw, kind_of_isNameLike hw⟩

/-- What is said alike of identifiers and of all soft keywords is not changed. -/
theorem apply_kind {α : Type} {f : Kind → α}
    (hf : ∀ w : Keyword, w.isSoft = true → f (.keyword w) = f (.lexeme .identifier)) (k : Kind) :
    f (kind k) = f k := by
  rcases kind_cases k with hkept | ⟨w, rfl, hw, hname⟩
  · rw [hkept]
  · rw [hname, hf w hw]

/-- Two kinds look the same when they are the same, or both can be names. -/
theorem kind_eq_iff {k l : Kind} :
    kind k = kind l ↔ k = l ∨ k.isNameLike = true ∧ l.isNameLike = true := by
  have hidentifier : (Kind.lexeme .identifier).isNameLike = true := rfl
  constructor
  · intro h
    cases hk : k.isNameLike <;> cases hl : l.isNameLike
    · rw [kind_of_not_isNameLike hk, kind_of_not_isNameLike hl] at h
      exact .inl h
    · rw [kind_of_not_isNameLike hk, kind_of_isNameLike hl] at h
      rw [h, hidentifier] at hk
      cases hk
    · rw [kind_of_isNameLike hk, kind_of_not_isNameLike hl] at h
      rw [← h, hidentifier] at hl
      cases hl
    · exact .inr ⟨rfl, rfl⟩
  · rintro (rfl | ⟨hk, hl⟩)
    · rfl
    · rw [kind_of_isNameLike hk, kind_of_isNameLike hl]

/-- A kind that is no name is told from the others. -/
theorem beq_kind {k : Kind} (hk : k.isNameLike = false) (l : Kind) : (kind l == k) = (l == k) := by
  refine apply_kind (f := (· == k)) (fun w hw => ?_) l
  have hword : Kind.keyword w ≠ k := fun h => by
    rw [← h] at hk
    exact absurd (hk.symm.trans hw) Bool.false_ne_true
  have hidentifier : Kind.lexeme .identifier ≠ k := fun h => by
    rw [← h] at hk
    cases hk
  rw [beq_eq_false_iff_ne.mpr hword, beq_eq_false_iff_ne.mpr hidentifier]

@[simp]
theorem isNameLike_kind (k : Kind) : (kind k).isNameLike = k.isNameLike :=
  apply_kind (fun _ hw => hw) k

@[simp]
theorem isMemberName_kind (k : Kind) : (kind k).isMemberName = k.isMemberName :=
  apply_kind (f := Kind.isMemberName) (fun _ _ => rfl) k

@[simp]
theorem isInlineTrivia_kind (k : Kind) : (kind k).isInlineTrivia = k.isInlineTrivia :=
  apply_kind (f := Kind.isInlineTrivia) (fun _ _ => rfl) k

@[simp]
theorem isAccessSign_kind (k : Kind) : Lookahead.isAccessSign (kind k) = Lookahead.isAccessSign k :=
  apply_kind (f := Lookahead.isAccessSign) (fun _ _ => rfl) k

@[simp]
theorem accessKind_kind (k : Kind) : Grammar.accessKind (kind k) = Grammar.accessKind k :=
  apply_kind (f := Grammar.accessKind) (fun _ _ => rfl) k

@[simp]
theorem literalKind?_kind (k : Kind) : Grammar.literalKind? (kind k) = Grammar.literalKind? k :=
  apply_kind (f := Grammar.literalKind?) (fun w hw => by cases w <;> first | rfl | cases hw) k

@[simp]
theorem unaryPower?_kind (k : Kind) : Operator.unaryPower? (kind k) = Operator.unaryPower? k :=
  apply_kind (f := Operator.unaryPower?) (fun w hw => by cases w <;> first | rfl | cases hw) k

@[simp]
theorem binaryPower?_kind (k : Kind) : Operator.binaryPower? (kind k) = Operator.binaryPower? k :=
  apply_kind (f := Operator.binaryPower?) (fun w hw => by cases w <;> first | rfl | cases hw) k

@[simp]
theorem endsStatement_kind (k : Kind) (lineMode : Nat) :
    Grammar.endsStatement (kind k) lineMode = Grammar.endsStatement k lineMode :=
  apply_kind (f := (Grammar.endsStatement · lineMode)) (fun w hw =>
    by cases w <;> first | rfl | cases hw) k

/-- The end marker alone looks like the end marker. -/
theorem kind_eq_endOfFile_iff {k : Kind} :
    kind k = .lexeme .endOfFile ↔ k = .lexeme .endOfFile := by
  rw [← beq_iff_eq, beq_kind rfl, beq_iff_eq]

/-! ## Tokens -/

/-- Tokens look the same exactly if they differ at most in the kinds of names. -/
theorem token_eq_iff {t u : Token} : token t = token u ↔ t.SameUpToName u := by
  constructor
  · intro h
    obtain ⟨hkind, htext, hoffset, hloc⟩ := Token.mk.inj h
    exact ⟨kind_eq_iff.mp hkind, htext, hoffset, hloc⟩
  · rintro ⟨hkind, htext, hoffset, hloc⟩
    simp only [token, kind_eq_iff.mpr hkind, htext, hoffset, hloc]

/-- A name is called by its text, of whatever kind it is. -/
theorem describe_token (t : Token) : (token t).describe = t.describe := by
  let called (k : Kind) : Bytes := Token.describe { t with kind := k }
  exact apply_kind (f := called) (fun _ _ => rfl) t.kind

/-! ## Problems and failures -/

/-- A problem keeps its code however the names in it look. -/
theorem code_problem (p : Problem) : (problem p).code = p.code := by cases p <;> rfl

theorem message_problem (p : Problem) : (problem p).message = p.message := by
  cases p <;> simp only [Problem.message, describe_token, text_token]

/-- Failures that look the same are the same reports. -/
theorem sameReport_of_failure_eq {f g : Failure} (h : failure f = failure g) : f.SameReport g := by
  obtain ⟨hproblem, hspan, hloc⟩ := Failure.mk.inj h
  refine ⟨?_, ?_, hspan, hloc⟩
  · rw [Failure.code, Failure.code, ← code_problem, hproblem, code_problem]
  · rw [Failure.message, Failure.message, ← message_problem, hproblem, message_problem]

/-! ## Trees -/

@[simp]
theorem trees_eq_map (ts : List Tree) : trees ts = ts.map tree := by
  induction ts with
  | nil => rfl
  | cons t ts ih => rw [trees, ih, List.map_cons]

/-- A tree starts where it starts, however its names look. -/
theorem anchor_tree (t : Tree) : (tree t).anchor = t.anchor := by
  induction t using Tree.anchor.induct with
  | case1 t => rfl
  | case2 => rfl
  | case3 k a c cs ih =>
    rw [tree, trees]
    exact ih

/-- What names look like is asked of the leaves alone. -/
theorem tree_above (k : Kind) (bare : Anchor) (ts : List Tree) :
    tree (.above k bare ts) = .above k bare (ts.map tree) := by
  cases ts with
  | nil => rfl
  | cons t ts => rw [Tree.above, tree, trees_eq_map, List.map_cons, Tree.above, anchor_tree]

mutual

/-- Trees that look the same differ in the kinds of names only. -/
theorem sameUpToNames_of_tree_eq : (t u : Tree) → tree t = tree u → t.SameUpToNames u
  | .leaf _, .leaf _, h => .leaf (token_eq_iff.mp (Tree.leaf.inj h))
  | .leaf _, .node .., h => by cases h
  | .node .., .leaf _, h => by cases h
  | .node k a ts, .node l b us, h => by
    obtain ⟨rfl, rfl, hchildren⟩ := Tree.node.inj h
    exact .node (sameUpToNames_of_trees_eq ts us hchildren)

/-- Rows of trees that look the same differ in the kinds of names only. -/
theorem sameUpToNames_of_trees_eq : (ts us : List Tree) → trees ts = trees us →
    List.Forall₂ Tree.SameUpToNames ts us
  | [], [], _ => .nil
  | [], _ :: _, h => by cases h
  | _ :: _, [], h => by cases h
  | t :: ts, u :: us, h => by
    obtain ⟨ht, hts⟩ := List.cons.inj h
    exact .cons (sameUpToNames_of_tree_eq t u ht) (sameUpToNames_of_trees_eq ts us hts)

end

/-! ## Streams -/

/-- A stream with identifiers for all names. -/
def stream (s : TokenStream) : TokenStream where
  passed := s.passed.map token
  current := token s.current
  ahead := s.ahead.map token
  remaining := s.remaining
  ends := by
    change (((s.current :: s.ahead).map token).getLast _).kind = _
    rw [List.getLast_map]
    exact kind_eq_endOfFile_iff.mpr s.ends
  remaining_eq := by rw [s.remaining_eq, List.length_map]

theorem rest_stream (s : TokenStream) : (stream s).rest = s.rest.map token := rfl

/-- The last token of a stream looks as the last token does. -/
theorem last_stream (s : TokenStream) : (stream s).last = token s.last := by
  simp only [TokenStream.last, rest_stream, List.getLast_map]

theorem tokens_stream (s : TokenStream) : (stream s).tokens = s.tokens.map token := by
  simp only [TokenStream.tokens, rest_stream, List.map_append, List.map_reverse]
  rfl

/-- What is so many places ahead is the same but for the name, as the cursor stands at the same
index. -/
@[simp]
theorem peek_stream (s : TokenStream) (n : Nat) : (stream s).peek n = token (s.peek n) := by
  have hposition : (stream s).position = s.position := List.length_map _
  have hsize : (stream s).size = s.size := by
    rw [TokenStream.size_eq_length, TokenStream.size_eq_length, tokens_stream, List.length_map]
  rw [TokenStream.peek_eq_tokenAt, TokenStream.peek_eq_tokenAt, TokenStream.tokenAt_eq_getD,
    TokenStream.tokenAt_eq_getD, TokenStream.wrap, TokenStream.wrap, hposition, hsize,
    tokens_stream,
    last_stream, List.getElem?_map, Option.getD_map]

/-- The number of tokens to the next words is the same however names look. -/
theorem significantDistance_map (t : Token) (ts : List Token) (n : Nat) :
    TokenStream.significantDistance (token t) (ts.map token) n =
      TokenStream.significantDistance t ts n := by
  induction ts generalizing t n with
  | nil => rfl
  | cons u ts ih =>
    cases n <;> simp only [List.map_cons, TokenStream.significantDistance, kind_token,
      isInlineTrivia_kind, ih]

/-- The next word of a stream looks as the next word does. -/
@[simp]
theorem peekSignificant_stream (s : TokenStream) (n : Nat) :
    (stream s).peekSignificant n = token (s.peekSignificant n) := by
  rw [TokenStream.peekSignificant, TokenStream.peekSignificant, peek_stream]
  exact congrArg (fun n => token (s.peek n)) (significantDistance_map s.current s.ahead n)

/-- A stream is moved on in the same way however names look. -/
theorem advance_stream (s : TokenStream) : (stream s).advance = stream s.advance := by
  obtain ⟨passed, current, ahead, remaining, ends, hremaining⟩ := s
  cases ahead <;> rfl

/-- Streams whose tokens differ at most in the kinds of names, at one position. -/
theorem stream_eq_of_forall₂ {s s' : TokenStream} (hposition : s'.position = s.position)
    (h : List.Forall₂ Token.SameUpToName s.tokens s'.tokens) : stream s = stream s' := by
  have htokens : s.tokens.map token = s'.tokens.map token := by
    rw [← List.forall₂_eq_eq_eq, List.forall₂_map_left_iff, List.forall₂_map_right_iff]
    exact h.imp fun _ _ => token_eq_iff.mpr
  rw [TokenStream.tokens, TokenStream.tokens, List.map_append, List.map_append] at htokens
  -- both lists of tokens are cut at the cursor, which stands at one position
  have hlength : (s.passed.reverse.map token).length = (s'.passed.reverse.map token).length := by
    simpa [TokenStream.position] using hposition.symm
  obtain ⟨hpassed, hrest⟩ := List.append_inj htokens hlength
  rw [List.map_reverse, List.map_reverse, List.reverse_inj] at hpassed
  exact TokenStream.eq_of_passed_eq_of_rest_eq hpassed hrest

/-! ## Trees under construction -/

/-- A tree under construction, with identifiers for names. -/
def builder (b : Builder) : Builder := { b with pending := b.pending.map tree }

/-- A leaf is added in the same way however names look. -/
theorem token_builder (b : Builder) (t : Token) :
    (builder b).token (token t) = builder (b.token t) := by
  simp only [builder, Builder.token, Array.map_push]
  rfl

theorem checkpoint_builder (b : Builder) : (builder b).checkpoint = b.checkpoint :=
  congrArg Checkpoint.mk Array.size_map

theorem startNode_builder (b : Builder) (k : Kind) :
    (builder b).startNode k = builder (b.startNode k) := by
  simp only [builder, Builder.startNode, Array.size_map]

theorem startNodeAt_builder (b : Builder) (cp : Checkpoint) (k : Kind) :
    (builder b).startNodeAt cp k = builder (b.startNodeAt cp k) := by
  simp only [builder, Builder.startNodeAt, Builder.clamp, Builder.innermostFirst, Array.size_map]

theorem finishNode_builder (b : Builder) :
    (builder b).finishNode = (b.finishNode.1.map tree, builder b.finishNode.2) := by
  unfold Builder.finishNode
  cases hopened : b.opened with
  | nil => simp only [builder, hopened, Option.map_none]
  | cons n outer =>
    have hshrink : (b.pending.map tree).shrink n.first = (b.pending.shrink n.first).map tree := by
      rw [← Array.toList_inj, Array.toList_shrink, Array.toList_map, Array.toList_map,
        Array.toList_shrink, List.map_take]
    simp only [builder, hopened, Option.map_some, tree_above, Array.size_map, Array.map_push,
      ← Array.map_extract, Array.toList_map, hshrink]

/-! ## States -/

/-- A state with identifiers for names, but for the headers of the `With` around. -/
def state (s : Grammar.State) : Grammar.State :=
  { s with
    stream := stream s.stream
    builder := builder s.builder
    failures := s.failures.map failure
    implicitTargets := s.implicitTargets.map target
    log := s.log.map event }

theorem state_opening (s : Grammar.State) (k : NodeKind) :
    (state s).opening k = state (s.opening k) :=
  congrArg (fun b => { state s with builder := b }) (startNode_builder s.builder (.node k))

theorem state_openingAt (s : Grammar.State) (cp : Checkpoint) (k : NodeKind) :
    (state s).openingAt cp k = state (s.openingAt cp k) :=
  congrArg (fun b => { state s with builder := b }) (startNodeAt_builder s.builder cp (.node k))

theorem state_closing (s : Grammar.State) : (state s).closing = state s.closing :=
  congrArg (fun r => { state s with builder := r.2 }) (finishNode_builder s.builder)

theorem finishNode_state (s : Grammar.State) :
    (state s).builder.finishNode.1 = s.builder.finishNode.1.map tree :=
  congrArg Prod.fst (finishNode_builder s.builder)

/-- What has no names in a state is read off it. -/
theorem apply_eq_of_state_eq {γ : Type} {f : Grammar.State → γ} (hf : ∀ s, f (state s) = f s)
    {s s' : Grammar.State} (h : state s = state s') : f s = f s' := by
  rw [← hf s, h, hf s']

end Naming

end LosslessBasic
