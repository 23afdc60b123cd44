import LosslessBasic.Proofs.Document.Cover
import LosslessBasic.Tree.Query

/-!
# Looking up the token at an offset

The lookup goes down into the first child whose span contains the offset and never comes back. This
is enough, since the children of a node fill it without a gap: an offset within a node is in the
span of one child that is not empty, and of no other (`Tree.Covers.tokenAt?_eq`). So at every node
of a document the lookup finds the one token of the source over the offset
(`Document.tokenAt_exact`).

## Main definitions

* `Tree.OnlyLeafAt`: a token is the one leaf of a tree over an offset;
* `Token.OnlyAt`: a token is the one among some over an offset.
-/

namespace LosslessBasic

/-- Of some tokens there is one whose span contains an offset, and this is `t`. -/
def Token.OnlyAt (ts : List Token) (o : UInt32) (t : Token) : Prop :=
  t.span.contains o = true ∧
    ∃ i : Nat, ts[i]? = some t ∧
      ∀ (j : Nat) (u : Token), ts[j]? = some u → u.span.contains o = true → j = i

namespace Tree

/-- At and below a tree there is one leaf whose span contains an offset, and its token is `t`. -/
def OnlyLeafAt (n : Tree) (o : UInt32) (t : Token) : Prop :=
  t.span.contains o = true ∧
    ∃ below, n.at? below = some (leaf t) ∧
      ∀ below' u, n.at? below' = some (leaf u) → u.span.contains o = true → below' = below

/-! ## Spans -/

/-- The span of a tree contains the offsets from where the tree starts up to where it ends. -/
theorem contains_span (t : Tree) (o : UInt32) :
    t.span.contains o = true ↔ t.offset ≤ o ∧ o < t.stop := by
  have hstop : t.span.stop = t.stop := by
    simp only [span, Span.stop, length]
    rw [UInt32.add_comm, UInt32.sub_add_cancel]
  rw [Span.contains, hstop, Bool.and_eq_true, decide_eq_true_iff, decide_eq_true_iff]
  rfl

/-- The span of a leaf is the one of its token. -/
theorem contains_span_leaf (t : Token) (o : UInt32) :
    (leaf t).span.contains o = t.span.contains o := by
  rw [Bool.eq_iff_iff, contains_span, Span.contains, Bool.and_eq_true, decide_eq_true_iff,
    decide_eq_true_iff]
  rfl

variable {source : Bytes} {start stop : Nat} {o : UInt32}

/-- The span of a tree that covers a range contains the offsets of the range. -/
theorem Covers.contains_iff {t : Tree} (h : t.Covers source start stop)
    (hstop : stop ≤ source.length) (hsize : source.length < 2 ^ 32) :
    t.span.contains o = true ↔ start ≤ o.toNat ∧ o.toNat < stop := by
  have hle := h.le
  rw [contains_span, h.offset_eq, h.stop_eq, UInt32.le_iff_toNat_le, UInt32.lt_iff_toNat_lt,
    Bytes.toNat_toUInt32 (Nat.le_trans hle hstop) hsize, Bytes.toNat_toUInt32 hstop hsize]

/-- Trees that lie apart have no offset in common. -/
theorem Covers.not_contains_of_apart {t t' : Tree} {start' stop' : Nat}
    (h : t.Covers source start stop) (h' : t'.Covers source start' stop')
    (hstop : stop ≤ source.length) (hstop' : stop' ≤ source.length) (hsize : source.length < 2 ^ 32)
    (hapart : stop ≤ start' ∨ stop' ≤ start) (ho : t.span.contains o = true) :
    t'.span.contains o = false := by
  rw [h.contains_iff hstop hsize] at ho
  rw [Bool.eq_false_iff, ne_eq, h'.contains_iff hstop' hsize]
  omega

/-! ## Going down -/

mutual

/-- An offset in a tree that covers a range is looked up to a leaf over it. -/
theorem Covers.tokenAt?_eq : {t : Tree} → {start stop : Nat} → t.Covers source start stop →
    stop ≤ source.length → source.length < 2 ^ 32 → t.span.contains o = true →
    ∃ (below : Path) (u : Token), t.at? below = some (leaf u) ∧ t.tokenAt? o = some (leaf u) ∧
      u.span.contains o = true
  | leaf u, _, _, _, _, _, ho => by
    rw [contains_span_leaf] at ho
    exact ⟨[], u, rfl, by rw [tokenAt?, if_pos ho], ho⟩
  | node k a cs, _, _, h, hstop, hsize, ho => by
    obtain ⟨hstart, hlt⟩ := (h.contains_iff hstop hsize).mp ho
    obtain ⟨i, c, below, u, hc, hu, hfound, hcontains⟩ :=
      CoverAll.tokenAtIn?_eq h.2 hstop hsize hstart hlt
    have hchild : (node k a cs).childAt? i = some c := hc
    exact ⟨i :: below, u, by rwa [at?, hchild], by rwa [tokenAt?, if_pos ho], hcontains⟩

/-- An offset in the range that some trees cover is looked up to a leaf over it: a tree in front of
the one over the offset ends before it, so the lookup passes it by. -/
theorem CoverAll.tokenAtIn?_eq : {ts : List Tree} → {start stop : Nat} →
    CoverAll source start stop ts → stop ≤ source.length → source.length < 2 ^ 32 →
    start ≤ o.toNat → o.toNat < stop →
    ∃ (i : Nat) (c : Tree) (below : Path) (u : Token), ts[i]? = some c ∧ c.at? below =
      some (leaf u) ∧
      tokenAtIn? o ts = some (leaf u) ∧ u.span.contains o = true
  | [], _, _, h, _, _, hstart, hlt => by
    obtain rfl : _ = _ := h
    omega
  | t :: ts, start, stop, ⟨mid, ht, hts⟩, hstop, hsize, hstart, hlt => by
    have hmid : mid ≤ source.length := Nat.le_trans hts.le hstop
    by_cases ho : t.span.contains o = true
    · obtain ⟨below, u, hu, hfound, hcontains⟩ := ht.tokenAt?_eq hmid hsize ho
      exact ⟨0, t, below, u, rfl, hu, by rwa [tokenAtIn?, if_pos ho], hcontains⟩
    · have hbehind : mid ≤ o.toNat := by
        rw [ht.contains_iff hmid hsize] at ho
        omega
      obtain ⟨i, c, below, u, hc, hu, hfound, hcontains⟩ :=
        hts.tokenAtIn?_eq hstop hsize hbehind hlt
      exact ⟨i + 1, c, below, u, hc, hu, by rwa [tokenAtIn?, if_neg ho], hcontains⟩

end

/-- Out of its span a tree has no token. -/
theorem tokenAt?_eq_none {t : Tree} (h : ¬ t.span.contains o = true) : t.tokenAt? o = none := by
  cases t with
  | leaf t =>
    rw [contains_span_leaf] at h
    rw [tokenAt?, if_neg h]
  | node k a cs => rw [tokenAt?, if_neg h]

/-! ## One token only -/

/-- There are no trees below a leaf. -/
theorem eq_nil_of_at?_leaf {t : Token} {n : Tree} {path : Path}
    (h : (leaf t).at? path = some n) : path = [] := by
  cases path with
  | nil => rfl
  | cons i path => simp [at?, childAt?, children] at h

/-- The empty path leads nowhere else. -/
theorem at?_self (t : Tree) : t.at? [] = some t := rfl

/-- A tree that covers a range has one leaf over an offset. -/
theorem Covers.onlyLeafAt {n : Tree} {below : Path} {t : Token} (h : n.Covers source start stop)
    (hstop : stop ≤ source.length) (hsize : source.length < 2 ^ 32)
    (hbelow : n.at? below = some (leaf t)) (ht : t.span.contains o = true) : n.OnlyLeafAt o t := by
  refine ⟨ht, below, hbelow, fun below' u hu hcontains => ?_⟩
  rcases h.prefix_or_apart hbelow hu with
    ⟨further, rfl⟩ | ⟨further, rfl⟩ | ⟨a, b, a', b', hapart, hb, hb', hcovers, hcovers'⟩
  · rw [at?_append, hbelow, Option.bind_some] at hu
    rw [eq_nil_of_at?_leaf hu, List.append_nil]
  · rw [at?_append, hu, Option.bind_some] at hbelow
    rw [eq_nil_of_at?_leaf hbelow, List.append_nil]
  · rw [← contains_span_leaf] at ht hcontains
    rw [hcovers.not_contains_of_apart hcovers' (Nat.le_trans hb hstop)
      (Nat.le_trans hb' hstop) hsize
      hapart ht] at hcontains
    cases hcontains

/-- Of tokens that cover a source one behind the other, one is over an offset. -/
theorem CoverAll.onlyAt {ts : List Token} {t : Token}
    (h : CoverAll source start stop (ts.map leaf)) (hstop : stop ≤ source.length)
    (hsize : source.length < 2 ^ 32) (hmem : t ∈ ts) (ht : t.span.contains o = true) :
    Token.OnlyAt ts o t := by
  have hleaf {i : Nat} {u : Token} (hu : ts[i]? = some u) : (ts.map leaf)[i]? = some (leaf u) := by
    rw [List.getElem?_map, hu, Option.map_some]
  have hapart {i j : Nat} {u u' : Token} (hij : i < j) (hu : ts[i]? = some u)
      (hu' : ts[j]? = some u') (hcontains : u.span.contains o = true) :
      u'.span.contains o = false := by
    obtain ⟨a, b, a', b', hle, hb', hcovers, hcovers'⟩ :=
      h.apart hij (hleaf hu) (hleaf hu') (at?_self (leaf u)) (at?_self (leaf u'))
    have hle' := hcovers'.le
    rw [← contains_span_leaf] at hcontains ⊢
    exact hcovers.not_contains_of_apart hcovers' (by omega) (by omega) hsize (.inl hle) hcontains
  obtain ⟨i, hi⟩ := List.mem_iff_getElem?.mp hmem
  refine ⟨ht, i, hi, fun j u hu hcontains => ?_⟩
  rcases Nat.lt_trichotomy j i with hji | hji | hij
  · rw [hapart hji hu hi hcontains] at ht
    cases ht
  · exact hji
  · rw [hapart hij hi hu ht] at hcontains
    cases hcontains

end Tree

namespace Document

open Grammar

/-- At every node of the tree of a source, the token at an offset is the one leaf at or below the
node whose span contains the offset, and the one token of the source that does; it is not empty. Out
of the node there is none. -/
theorem tokenAt_exact (origin source : Bytes) (file : UInt32)
    (hvalid : Utf8.firstInvalid? source = none) (hsize : source.length < 2 ^ 32) :
    ∃ d, (read origin source file).document? = some d ∧
      ∀ path n, d.root.at? path = some n → ∀ o : UInt32,
        (n.offset ≤ o ∧ o < n.stop →
          ∃ t, n.tokenAt? o = some (.leaf t) ∧ n.OnlyLeafAt o t ∧
            Token.OnlyAt (Lexer.tokens source file) o t ∧ t.text ≠ []) ∧
        (¬ (n.offset ≤ o ∧ o < n.stop) → n.tokenAt? o = none) := by
  obtain ⟨q, htokens⟩ := tokens_eq_append_leaves source file
  have hroot := covers_root source file
  refine ⟨_, by rw [read, hvalid, document?_readText], fun path n hn o => ?_⟩
  simp only [← Tree.contains_span]
  refine ⟨fun ho => ?_, Tree.tokenAt?_eq_none⟩
  obtain ⟨start, stop, -, hstop, hcovers⟩ := hroot.at? hn
  obtain ⟨below, t, hbelow, hfound, ht⟩ := hcovers.tokenAt?_eq hstop hsize ho
  refine ⟨t, hfound, hcovers.onlyLeafAt hstop hsize hbelow ht, ?_, ?_⟩
  · have hmem : t ∈ Lexer.tokens source file := by
      rw [htokens]
      refine List.mem_append_left _ ?_
      have hleaf : t ∈ n.leaves := Tree.mem_leaves_of_at? hbelow (by simp [Tree.leaves])
      simpa [Tree.leaves_above] using Tree.mem_leaves_of_at? hn hleaf
    exact (Lexer.coverAll_tokens source file).onlyAt (Nat.le_refl _) hsize hmem ht
  · intro hempty
    simp only [Span.contains, Token.span, Span.stop, Token.length, hempty, Bool.and_eq_true,
      decide_eq_true_iff] at ht
    have hlt := UInt32.lt_of_le_of_lt ht.1 ht.2
    simp at hlt

/-- A loop without a body: the empty statement list between its lines is passed by. -/
theorem tokenAt_exact_for_without_bounds :
    ∃ d, (read [] (Bytes.ofString "For i = -\nNext") 0).document? = some d ∧
      ∀ path n, d.root.at? path = some n → ∀ o : UInt32,
        (n.offset ≤ o ∧ o < n.stop →
          ∃ t, n.tokenAt? o = some (.leaf t) ∧ n.OnlyLeafAt o t ∧
            Token.OnlyAt (Lexer.tokens (Bytes.ofString "For i = -\nNext") 0) o t ∧ t.text ≠ []) ∧
        (¬ (n.offset ≤ o ∧ o < n.stop) → n.tokenAt? o = none) :=
  tokenAt_exact [] (Bytes.ofString "For i = -\nNext") 0 (by decide +kernel) (by decide +kernel)

end Document

end LosslessBasic
