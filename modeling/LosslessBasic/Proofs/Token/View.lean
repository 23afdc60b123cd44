import LosslessBasic.Grammar.Designer
import LosslessBasic.Proofs.Token.Line
import Mathlib.Data.List.Forall2

/-!
# Looking at tokens

A `View` says what is seen of a token by somebody who does not look at everything: not at the case
of letters, say, or not at blanks. Lists of tokens are the same to a view when they look the same up
to the number of blanks in a row that are overlooked (`View.SameTokens`); where there is no blank in
the one there is none in the other. All that the grammar looks ahead for is then the same.
-/

namespace LosslessBasic

/-- The place just behind a token, with the location of the token. -/
def Token.behind (t : Token) : Anchor := { offset := t.stop, loc := t.loc }

/-- A way of looking at tokens that leaves out some of what they are. -/
structure View where
  /-- What is seen of a token; nothing where it is overlooked. -/
  token? : Token → Option Token
  /-- What is seen of a place. -/
  anchor : Anchor → Anchor
  /-- Only blanks are overlooked. -/
  isInlineTrivia_of_none {t : Token} : token? t = none → t.kind.isInlineTrivia = true
  /-- The kind of a token is seen. -/
  kind_of_some {t u : Token} : token? t = some u → u.kind = t.kind
  /-- The words that the grammar asks for by name are seen. -/
  isNamed_of_some {t u : Token} (word : String) :
    token? t = some u → Grammar.isNamed u word = Grammar.isNamed t word
  /-- What is seen of the place of a token is seen from what is seen of the token. -/
  start_of_some {t u : Token} : token? t = some u →
    anchor { offset := u.offset, loc := u.loc } = anchor { offset := t.offset, loc := t.loc }
  /-- So is what is seen of the place behind it. -/
  behind_of_some {t u : Token} : token? t = some u → anchor u.behind = anchor t.behind
  /-- Where tokens are overlooked, nothing is seen of places. -/
  anchor_of_none {t : Token} (a b : Anchor) : token? t = none → anchor a = anchor b
  /-- What is seen of a place is seen at once. -/
  anchor_anchor (a : Anchor) : anchor (anchor a) = anchor a

/-- Two kinds that are the same or both those of blanks. -/
def Kind.SameUpToBlanks (k k' : Kind) : Prop :=
  k = k' ∨ (k.isInlineTrivia = true ∧ k'.isInlineTrivia = true)

namespace Kind.SameUpToBlanks

variable {k k' : Kind}

/-- What does not tell blanks apart says the same of both kinds. -/
theorem apply_eq {α : Type} (h : k.SameUpToBlanks k') (f : Kind → α)
    (hf : f (.trivia .whitespace) = f (.trivia .lineContinuation)) : f k = f k' := by
  have hblank (l : Kind) (hl : l.isInlineTrivia = true) : f l = f (.trivia .whitespace) := by
    match l, hl with
    | .trivia .whitespace, _ => rfl
    | .trivia .lineContinuation, _ => exact hf.symm
  rcases h with rfl | ⟨hk, hk'⟩
  · rfl
  · rw [hblank k hk, hblank k' hk']

/-- Kinds of other tokens are the same. -/
theorem eq (h : k.SameUpToBlanks k') (hk : k.isInlineTrivia = false) : k = k' := by
  rcases h with h | ⟨hblank, -⟩
  · exact h
  · rw [hk] at hblank
    cases hblank

end Kind.SameUpToBlanks

namespace View

variable {V : View} {t t' : Token} {ts ts' : List Token}

/-! ## Tokens -/

variable (V) in
/-- Two tokens that look the same. -/
def Like (t t' : Token) : Prop := V.token? t = V.token? t'

/-- A token looks like itself. -/
theorem Like.rfl : V.Like t t := Eq.refl _

/-- Tokens that look the same are both overlooked, or the same is seen of both. -/
theorem Like.none_or_some (h : V.Like t t') :
    (V.token? t = none ∧ V.token? t' = none) ∨
      ∃ u, V.token? t = some u ∧ V.token? t' = some u := by
  unfold Like at h
  cases hu : V.token? t with
  | none => exact .inl ⟨Eq.refl _, by rw [← h, hu]⟩
  | some u => exact .inr ⟨u, Eq.refl _, by rw [← h, hu]⟩

/-- Tokens that look the same are of the same kind, but for blanks of different sorts. -/
theorem Like.kind (h : V.Like t t') : t.kind.SameUpToBlanks t'.kind := by
  rcases h.none_or_some with ⟨hn, hn'⟩ | ⟨u, hu, hu'⟩
  · exact .inr ⟨V.isInlineTrivia_of_none hn, V.isInlineTrivia_of_none hn'⟩
  · exact .inl ((V.kind_of_some hu).symm.trans (V.kind_of_some hu'))

/-- Tokens that look the same are both inline trivia or neither is. -/
theorem Like.isInlineTrivia_eq (h : V.Like t t') : t.kind.isInlineTrivia = t'.kind.isInlineTrivia :=
  h.kind.apply_eq _ (Eq.refl _)

/-- Words that look the same are of the same kind. -/
theorem Like.kind_eq (h : V.Like t t') (ht : t.kind.isInlineTrivia = false) : t.kind = t'.kind :=
  h.kind.eq ht

/-- Inline trivia is named by no word. -/
theorem isNamed_eq_false (ht : t.kind.isInlineTrivia = true) (word : String) :
    Grammar.isNamed t word = false := by
  have hkind : (t.kind == .lexeme .identifier) = false := by
    cases hk : t.kind with
    | trivia => rfl
    | _ => rw [hk] at ht; cases ht
  rw [Grammar.isNamed, hkind, Bool.false_and]

/-- Tokens that look the same are named by the same words. -/
theorem Like.isNamed_eq (h : V.Like t t') (word : String) :
    Grammar.isNamed t word = Grammar.isNamed t' word := by
  rcases h.none_or_some with ⟨hn, hn'⟩ | ⟨u, hu, hu'⟩
  · rw [isNamed_eq_false (V.isInlineTrivia_of_none hn),
      isNamed_eq_false (V.isInlineTrivia_of_none hn')]
  · rw [← V.isNamed_of_some word hu, ← V.isNamed_of_some word hu']

/-- Tokens that look the same seem to start at the same place. -/
theorem Like.start_eq (h : V.Like t t') :
    V.anchor { offset := t.offset, loc := t.loc } =
      V.anchor { offset := t'.offset, loc := t'.loc } := by
  rcases h.none_or_some with ⟨hn, -⟩ | ⟨u, hu, hu'⟩
  · exact V.anchor_of_none _ _ hn
  · rw [← V.start_of_some hu, ← V.start_of_some hu']

/-- Tokens that look the same seem to end at the same place. -/
theorem Like.behind_eq (h : V.Like t t') : V.anchor t.behind = V.anchor t'.behind := by
  rcases h.none_or_some with ⟨hn, -⟩ | ⟨u, hu, hu'⟩
  · exact V.anchor_of_none _ _ hn
  · rw [← V.behind_of_some hu, ← V.behind_of_some hu']

/-! ## Lists of tokens -/

variable (V) in
/-- Two lists of tokens that look the same. Where two tokens in a row are overlooked, one of them
may be missing. -/
inductive SameTokens : List Token → List Token → Prop where
  | nil : SameTokens [] []
  | cons {t t' : Token} {ts ts' : List Token} (h : V.Like t t') (hs : SameTokens ts ts') :
    SameTokens (t :: ts) (t' :: ts')
  | more {b b' : Token} {ts ts' : List Token} (hb : V.token? b = none) (hb' : V.token? b' = none)
    (h : SameTokens ts (b' :: ts')) : SameTokens ts (b :: b' :: ts')

namespace SameTokens

/-- In front of lists that look the same, tokens that look the same one by one. -/
theorem append {us us' : List Token} (h : List.Forall₂ V.Like ts ts') (hs : V.SameTokens us us') :
    V.SameTokens (ts ++ us) (ts' ++ us') := by
  induction h with
  | nil => exact hs
  | cons h _ ih => exact .cons h ih

/-- Rows whose tokens look the same one by one look the same. -/
theorem of_forall₂ (h : List.Forall₂ V.Like ts ts') : V.SameTokens ts ts' := by
  simpa using append h .nil

/-- A token in front is like the one in front of the other list. -/
theorem head (h : V.SameTokens (t :: ts) ts') : ∃ t' us', ts' = t' :: us' ∧ V.Like t t' := by
  generalize hus : t :: ts = us at h
  induction h with
  | nil => cases hus
  | cons h hs =>
    obtain ⟨rfl, rfl⟩ := List.cons.inj hus
    exact ⟨_, _, rfl, h⟩
  | more hb hb' h ih =>
    obtain ⟨t', us', heq, hlike⟩ := ih hus
    obtain ⟨rfl, rfl⟩ := List.cons.inj heq
    exact ⟨_, _, rfl, hlike.trans (hb'.trans hb.symm)⟩

/-- Only the empty row looks like the empty one. -/
theorem nil_left (h : V.SameTokens [] ts') : ts' = [] := by
  generalize hus : ([] : List Token) = us at h
  induction h with
  | nil => rfl
  | cons => cases hus
  | more hb hb' h ih =>
    subst hus
    exact absurd (ih rfl) (List.cons_ne_nil _ _)

/-- A token in front that is no blank is like the one in front of the other list, and so are the
tokens behind. -/
theorem solid (h : V.SameTokens (t :: ts) ts') (ht : t.kind.isInlineTrivia = false) :
    ∃ t' us', ts' = t' :: us' ∧ V.Like t t' ∧ V.SameTokens ts us' := by
  cases h with
  | cons h hs => exact ⟨_, _, rfl, h, hs⟩
  | more hb hb' h =>
    -- an overlooked token is a blank, so the one in front of the first list is, too
    obtain ⟨t', us', heq, hlike⟩ := h.head
    obtain ⟨rfl, rfl⟩ := List.cons.inj heq
    rw [hlike.isInlineTrivia_eq, V.isInlineTrivia_of_none hb'] at ht
    cases ht

/-- The kinds in front. -/
theorem frontKind (h : V.SameTokens ts ts') :
    (Lookahead.frontKind ts).SameUpToBlanks (Lookahead.frontKind ts') := by
  cases ts with
  | nil => rw [h.nil_left]; exact .inl rfl
  | cons t ts =>
    obtain ⟨t', us', rfl, hlike⟩ := h.head
    exact hlike.kind

/-- The tokens behind one in front that is no blank. -/
theorem tail (h : V.SameTokens ts ts') (hkind : (Lookahead.frontKind ts).isInlineTrivia = false) :
    V.SameTokens ts.tail ts'.tail := by
  cases ts with
  | nil => rw [h.nil_left]; exact .nil
  | cons t ts =>
    obtain ⟨t', us', rfl, -, hs⟩ := h.solid hkind
    exact hs

/-- The tokens behind some in front that are told by their kind, blanks among them. -/
theorem dropWhile (p : Kind → Bool) (hp : ∀ k, k.isInlineTrivia = true → p k = true)
    (h : V.SameTokens ts ts') :
    V.SameTokens (ts.dropWhile fun t => p t.kind) (ts'.dropWhile fun t => p t.kind) := by
  induction h with
  | nil => exact .nil
  | @cons t t' ts ts' h hs ih =>
    have hkind : p t.kind = p t'.kind :=
      h.kind.apply_eq p
        ((hp (.trivia .whitespace) rfl).trans (hp (.trivia .lineContinuation) rfl).symm)
    cases ht : p t.kind with
    | true => simpa only [List.dropWhile, ← hkind, ht] using ih
    | false => simpa only [List.dropWhile, ← hkind, ht] using SameTokens.cons h hs
  | more hb hb' h ih =>
    have hblank := hp _ (V.isInlineTrivia_of_none hb)
    rwa [List.dropWhile_cons, if_pos hblank]

/-- The tokens that are no blanks look the same one by one. -/
theorem filter (h : V.SameTokens ts ts') :
    List.Forall₂ V.Like (ts.filter TokenStream.isSolid) (ts'.filter TokenStream.isSolid) := by
  induction h with
  | nil => exact .nil
  | @cons t t' ts ts' h hs ih =>
    have hsolid : TokenStream.isSolid t = TokenStream.isSolid t' :=
      congrArg (!·) h.isInlineTrivia_eq
    simp only [List.filter_cons, ← hsolid]
    split
    · exact .cons h ih
    · exact ih
  | @more b b' ts ts' hb hb' h ih =>
    have hblank : TokenStream.isSolid b = false :=
      congrArg (!·) (V.isInlineTrivia_of_none hb)
    rwa [List.filter_cons_of_neg (by simp [hblank])]

/-- Rows that look the same end with tokens that look the same. -/
theorem getLast (h : V.SameTokens ts ts') (hts : ts ≠ []) (hts' : ts' ≠ []) :
    V.Like (ts.getLast hts) (ts'.getLast hts') := by
  induction h with
  | nil => exact absurd rfl hts
  | @cons t t' ts ts' h hs ih =>
    cases ts with
    | nil =>
      obtain rfl := hs.nil_left
      exact h
    | cons u us =>
      obtain ⟨u', us', rfl, -⟩ := hs.head
      rw [List.getLast_cons (List.cons_ne_nil _ _), List.getLast_cons (List.cons_ne_nil _ _)]
      exact ih _ _
  | more hb hb' h ih =>
    rw [List.getLast_cons (List.cons_ne_nil _ _)]
    exact ih hts _

end SameTokens

/-! ## Looking further ahead -/

namespace SameTokens

open Lookahead

/-- What is in front behind such tokens is no blank. -/
theorem isInlineTrivia_frontKind_dropWhile (p : Kind → Bool)
    (hp : ∀ k, k.isInlineTrivia = true → p k = true)
    (us : List Token) :
    (Lookahead.frontKind (us.dropWhile fun t => p t.kind)).isInlineTrivia = false := by
  cases hus : us.dropWhile fun t => p t.kind with
  | nil => rfl
  | cons t ts =>
    have hhead := List.head?_dropWhile_not (fun t : Token => p t.kind) us
    rw [hus, List.head?_cons] at hhead
    cases hblank : t.kind.isInlineTrivia with
    | true => simp [hp _ hblank] at hhead
    | false => exact hblank

theorem afterBlanks (h : V.SameTokens ts ts') :
    V.SameTokens (Lookahead.afterBlanks ts) (Lookahead.afterBlanks ts') :=
  h.dropWhile Kind.isInlineTrivia fun _ => id

/-- Behind the blanks in front of a row stands no inline trivia. -/
theorem isInlineTrivia_frontKind_afterBlanks (us : List Token) :
    (Lookahead.frontKind (Lookahead.afterBlanks us)).isInlineTrivia = false :=
  isInlineTrivia_frontKind_dropWhile Kind.isInlineTrivia (fun _ => id) us

theorem afterModifiers (h : V.SameTokens ts ts') :
    V.SameTokens (Lookahead.afterModifiers ts) (Lookahead.afterModifiers ts') :=
  h.dropWhile (fun k => k.isInlineTrivia || isModifier k) fun _ hk => by rw [hk, Bool.true_or]

/-- Behind the modifiers in front of a row stands no inline trivia. -/
theorem isInlineTrivia_modifiedKind (us : List Token) :
    (Lookahead.modifiedKind us).isInlineTrivia = false :=
  isInlineTrivia_frontKind_dropWhile (fun k => k.isInlineTrivia || isModifier k)
    (fun _ hk => by rw [hk, Bool.true_or]) us

theorem modifiedKind_eq (h : V.SameTokens ts ts') :
    Lookahead.modifiedKind ts = Lookahead.modifiedKind ts' :=
  h.afterModifiers.frontKind.eq (isInlineTrivia_modifiedKind ts)

theorem startsProcedure_eq (h : V.SameTokens ts ts') :
    Lookahead.startsProcedure ts = Lookahead.startsProcedure ts' := by
  have hafter := h.afterModifiers
  have hfront := isInlineTrivia_modifiedKind ts
  unfold Lookahead.startsProcedure
  rw [Lookahead.modifiedKind] at hfront
  cases hts : Lookahead.afterModifiers ts with
  | nil =>
    rw [hts] at hafter
    rw [hafter.nil_left]
  | cons t rest =>
    rw [hts] at hafter hfront
    obtain ⟨t', rest', hts', hlike, hrest⟩ := hafter.solid hfront
    have haccessor := hrest.afterBlanks.frontKind.apply_eq isAccessor rfl
    rw [hts']
    dsimp only
    rw [← hlike.kind_eq hfront, haccessor]

/-- A blank is none of the tokens that a group is read by. -/
theorem afterGroup?_of_blank (ht : t.kind.isInlineTrivia = true) (depth : Nat) :
    Lookahead.afterGroup? depth (t :: ts) = Lookahead.afterGroup? depth ts := by
  rw [Lookahead.afterGroup?]
  split <;> first | rfl | (next hkind => rw [hkind] at ht; cases ht)

/-- In rows that look the same the same parenthesis closes a group, and what follows it looks the
same. -/
theorem afterGroup? (h : V.SameTokens ts ts') (depth : Nat) :
    Option.Rel V.SameTokens (Lookahead.afterGroup? depth ts) (Lookahead.afterGroup? depth ts') := by
  induction h generalizing depth with
  | nil => exact .none
  | @cons t t' ts ts' h hs ih =>
    cases ht : t.kind.isInlineTrivia with
    | true =>
      have ht' := h.isInlineTrivia_eq.symm.trans ht
      rw [afterGroup?_of_blank ht, afterGroup?_of_blank ht']
      exact ih depth
    | false =>
      unfold Lookahead.afterGroup?
      rw [← h.kind_eq ht]
      split
      · exact ih (depth + 1)
      · split
        · exact .some hs
        · exact ih (depth - 1)
      · exact .none
      · exact .none
      · exact ih depth
  | more hb hb' h ih =>
    rw [afterGroup?_of_blank (V.isInlineTrivia_of_none hb)]
    exact ih depth

/-- Of rows that look the same both go on to an assignment sign or neither does. -/
theorem assignedAfterSuffixes_eq (h : V.SameTokens ts ts') (passes : Nat) :
    assignedAfterSuffixes passes ts = assignedAfterSuffixes passes ts' := by
  -- each pass goes over one suffix; both rows go over the same, so the same is left of them
  induction passes generalizing ts ts' with
  | zero => rfl
  | succ passes ih =>
    have hsign : isAccessSign (Lookahead.frontKind ts) = isAccessSign (Lookahead.frontKind ts') :=
      h.frontKind.apply_eq isAccessSign rfl
    unfold assignedAfterSuffixes
    rw [← hsign]
    cases hs : isAccessSign (Lookahead.frontKind ts) with
    | true =>
      have htail := h.tail (by
        cases hk : Lookahead.frontKind ts <;> rw [hk] at hs <;> first | rfl | cases hs)
      have hname := htail.frontKind.apply_eq Kind.isMemberName rfl
      rw [if_pos rfl, if_pos rfl, ← hname]
      cases hm : (Lookahead.frontKind ts.tail).isMemberName with
      | false => rfl
      | true =>
        have hdrop := htail.tail (by
          cases hk : Lookahead.frontKind ts.tail <;> rw [hk] at hm <;> first | rfl | cases hm)
        simp only [← List.drop_one, List.drop_drop] at hdrop
        exact congrArg (true && ·) (ih hdrop)
    | false =>
      rw [if_neg Bool.false_ne_true, if_neg Bool.false_ne_true]
      have hafter := h.afterBlanks
      have hfront := isInlineTrivia_frontKind_afterBlanks ts
      cases hts : Lookahead.afterBlanks ts with
      | nil =>
        rw [hts] at hafter
        rw [hafter.nil_left]
      | cons t rest =>
        rw [hts] at hafter hfront
        obtain ⟨t', rest', hts', hlike, hrest⟩ := hafter.solid hfront
        rw [hts']
        dsimp only
        rw [← hlike.kind_eq hfront]
        split
        · -- behind the arguments in parentheses, if they are closed
          have hgroup := hrest.afterGroup? 1
          revert hgroup
          generalize Lookahead.afterGroup? 1 rest = after
          generalize Lookahead.afterGroup? 1 rest' = after'
          intro hgroup
          cases hgroup with
          | some hmore => exact ih hmore
          | none => rfl
        · rfl

/-- Any bounds above the numbers of tokens serve. -/
theorem assignedAfterSuffixes_eq_of_lt (h : V.SameTokens ts ts') {n n' : Nat} (hn : ts.length < n)
    (hn' : ts'.length < n') : assignedAfterSuffixes n ts = assignedAfterSuffixes n' ts' := by
  have hmax : ts.length < max n n' ∧ ts'.length < max n n' := by omega
  rw [Lookahead.assignedAfterSuffixes_eq_of_lt hn hmax.1,
    Lookahead.assignedAfterSuffixes_eq_of_lt hn' hmax.2, h.assignedAfterSuffixes_eq]

end SameTokens

/-! ## Streams -/

section

variable {s s' : TokenStream}

theorem SameTokens.current (h : V.SameTokens s.rest s'.rest) : V.Like s.current s'.current := by
  have hcons : V.SameTokens (s.current :: s.ahead) s'.rest := h
  obtain ⟨t', us', heq, hlike⟩ := hcons.head
  have hcurrent : s'.current = t' := (List.cons.inj heq).1
  rwa [hcurrent]

/-- The tokens behind the cursor when it stands on no blank. -/
theorem SameTokens.ahead (h : V.SameTokens s.rest s'.rest)
    (hsolid : s.current.kind.isInlineTrivia = false) :
    V.SameTokens s.ahead s'.ahead :=
  h.tail hsolid

theorem SameTokens.last (h : V.SameTokens s.rest s'.rest) : V.Like s.last s'.last :=
  h.getLast _ _

/-- The token behind the cursor when it stands on no blank. -/
theorem SameTokens.peek_one (h : V.SameTokens s.rest s'.rest)
    (hsolid : s.current.kind.isInlineTrivia = false) : V.Like (s.peek 1) (s'.peek 1) := by
  have hahead := h.ahead hsolid
  have hlast := h.last
  rw [TokenStream.peek_one, TokenStream.peek_one, TokenStream.rest, TokenStream.rest,
    List.getElem?_cons_succ, List.getElem?_cons_succ]
  cases hs : s.ahead with
  | nil =>
    rw [hs] at hahead
    rw [hahead.nil_left]
    exact hlast
  | cons t ts =>
    rw [hs] at hahead
    obtain ⟨t', ts', hs', hlike⟩ := hahead.head
    rw [hs']
    exact hlike

/-- What comes next. -/
theorem SameTokens.peekSignificant (h : V.SameTokens s.rest s'.rest) (n : Nat) :
    V.Like (s.peekSignificant n) (s'.peekSignificant n) := by
  have hfilter := h.filter
  have hlast := h.last
  rw [TokenStream.peekSignificant_eq, TokenStream.peekSignificant_eq]
  generalize s.rest.filter TokenStream.isSolid = us at hfilter
  generalize s'.rest.filter TokenStream.isSolid = us' at hfilter
  induction hfilter generalizing n with
  | nil => exact hlast
  | cons hlike _ ih =>
    cases n with
    | zero => exact hlike
    | succ n => exact ih n

/-- Streams that look the same have next words of the same kind. -/
theorem SameTokens.kind_peekSignificant (h : V.SameTokens s.rest s'.rest) (n : Nat) :
    (s.peekSignificant n).kind = (s'.peekSignificant n).kind := by
  have hsolid := s.isSolid_peekSignificant n
  exact (h.peekSignificant n).kind_eq (by simpa [TokenStream.isSolid] using hsolid)

/-- Of streams that look the same both start an assignment or neither does. -/
theorem SameTokens.startsAssignment_eq (h : V.SameTokens s.rest s'.rest) :
    Lookahead.startsAssignment s = Lookahead.startsAssignment s' := by
  have hafter := h.afterBlanks
  have hfront := isInlineTrivia_frontKind_afterBlanks s.rest
  -- there are more passes than tokens, so their number makes no difference
  have hlength {us : List Token} {s : TokenStream} {t : Token}
      (hus : Lookahead.afterBlanks s.rest = t :: us) : us.length < s.remaining + 1 := by
    have hle : (Lookahead.afterBlanks s.rest).length ≤ s.rest.length :=
      (List.dropWhile_suffix _).length_le
    rw [hus, List.length_cons, TokenStream.length_rest] at hle
    omega
  unfold Lookahead.startsAssignment
  cases hts : Lookahead.afterBlanks s.rest with
  | nil =>
    rw [hts] at hafter
    rw [hafter.nil_left]
  | cons t rest =>
    rw [hts] at hafter hfront
    obtain ⟨t', rest', hts', hlike, hrest⟩ := hafter.solid hfront
    have hn := hlength hts
    have hn' := hlength hts'
    rw [hts']
    dsimp only
    rw [← hlike.kind_eq hfront]
    split
    · have hname := hrest.frontKind.apply_eq Kind.isMemberName rfl
      rw [← hname]
      cases hm : (Lookahead.frontKind rest).isMemberName with
      | false => rfl
      | true =>
        have htail := hrest.tail (by
          cases hk : Lookahead.frontKind rest <;> rw [hk] at hm <;> first | rfl | cases hm)
        have hn := Nat.lt_of_le_of_lt (Nat.sub_le rest.length 1) hn
        have hn' := Nat.lt_of_le_of_lt (Nat.sub_le rest'.length 1) hn'
        rw [← List.length_tail] at hn hn'
        exact congrArg (true && ·) (htail.assignedAfterSuffixes_eq_of_lt hn hn')
    · exact congrArg (_ && ·) (hrest.assignedAfterSuffixes_eq_of_lt hn hn')

end

end View

end LosslessBasic
