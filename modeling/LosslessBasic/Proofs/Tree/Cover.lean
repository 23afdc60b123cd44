import LosslessBasic.Proofs.Tree.Builder
import LosslessBasic.Tree.Path
import Mathlib.Algebra.Group.Nat.Defs

/-!
# What trees cover

A tree covers a range of a source when its leaves carry the bytes of the range, one behind the
other, and every node lies where the range starts (`Tree.Covers`). Within a source of less than 2^32
bytes the offsets that a tree carries are the ends of its range, and its text is the text of the
range (`Tree.Covers.isPlaced`).
-/

namespace LosslessBasic

namespace Bytes

/-- Two ranges next to each other make one. -/
theorem extract_append_extract {source : Bytes} {a b c : Nat} (hab : a ≤ b) (hbc : b ≤ c) :
    source.extract a b ++ source.extract b c = source.extract a c := by
  have hlength : c - a = (b - a) + (c - b) := by omega
  have hdrop : source.drop b = (source.drop a).drop (b - a) := by
    rw [List.drop_drop, Nat.add_sub_cancel' hab]
  rw [List.extract_eq_take_drop, List.extract_eq_take_drop, List.extract_eq_take_drop, hlength,
    List.take_add, hdrop]

/-- A number below the bound of a word is kept by it. -/
theorem toNat_toUInt32 {n bound : Nat} (h : n ≤ bound) (hbound : bound < 2 ^ 32) :
    n.toUInt32.toNat = n := by
  rw [Nat.toUInt32_eq, UInt32.toNat_ofNat']
  exact Nat.mod_eq_of_lt (by omega)

end Bytes

namespace Tree

/-! ## Covering -/

mutual

/-- A tree covers the bytes of a source from the offset `start` up to `stop`. -/
def Covers (source : Bytes) (start stop : Nat) : Tree → Prop
  | leaf t => t.offset = start.toUInt32 ∧ stop = start + t.text.length ∧
      t.text = source.extract start stop
  | node k a cs => (node k a cs).offset = start.toUInt32 ∧ CoverAll source start stop cs

/-- Some trees, one behind the other, cover the bytes of a source from `start` up to `stop`. -/
def CoverAll (source : Bytes) (start stop : Nat) : List Tree → Prop
  | [] => start = stop
  | t :: ts => ∃ mid, t.Covers source start mid ∧ CoverAll source mid stop ts

end

section

variable {source : Bytes} {start stop : Nat}

/-- Two rows of trees cover a range if each covers its part of it. -/
@[simp]
theorem coverAll_append (ts us : List Tree) :
    CoverAll source start stop (ts ++ us) ↔
      ∃ mid, CoverAll source start mid ts ∧ CoverAll source mid stop us := by
  induction ts generalizing start with
  | nil => simp [CoverAll]
  | cons t ts ih =>
    simp only [List.cons_append, CoverAll, ih]
    constructor
    · rintro ⟨m, ht, m', hts, hus⟩
      exact ⟨m', ⟨m, ht, hts⟩, hus⟩
    · rintro ⟨m', ⟨m, ht, hts⟩, hus⟩
      exact ⟨m, ht, m', hts, hus⟩

/-- A tree that covers a range lies where it starts. -/
theorem Covers.offset_eq {t : Tree} (h : t.Covers source start stop) :
    t.offset = start.toUInt32 := by
  cases t <;> exact h.1

/-- A node over trees that cover a range covers it; over none, it has to lie where the range
starts. -/
theorem covers_above {k : Kind} {bare : Anchor} {ts : List Tree} (h : CoverAll source start stop ts)
    (hbare : bare.offset = stop.toUInt32) : (above k bare ts).Covers source start stop := by
  cases ts with
  | nil =>
    obtain rfl : start = stop := h
    exact ⟨hbare, rfl⟩
  | cons t ts =>
    obtain ⟨mid, ht, hts⟩ := h
    exact ⟨ht.offset_eq, mid, ht, hts⟩

mutual

/-- A tree ends no earlier than it starts. -/
theorem Covers.le : {t : Tree} → {start stop : Nat} → t.Covers source start stop → start ≤ stop
  | leaf _, _, _, h => by
    have := h.2.1
    omega
  | node _ _ _, _, _, h => CoverAll.le h.2

/-- A row of trees ends no earlier than it starts. -/
theorem CoverAll.le : {ts : List Tree} → {start stop : Nat} → CoverAll source start stop ts →
    start ≤ stop
  | [], _, _, h => Nat.le_of_eq h
  | _ :: _, _, _, ⟨_, ht, hts⟩ => Nat.le_trans ht.le hts.le

end

mutual

/-- The text of a tree is the text of the range that it covers. -/
theorem Covers.text_eq : {t : Tree} → {start stop : Nat} → t.Covers source start stop →
    t.text = source.extract start stop
  | leaf _, _, _, h => h.2.2
  | node _ _ _, _, _, h => CoverAll.text_eq h.2

/-- The text of a row of trees is that of the range it covers. -/
theorem CoverAll.text_eq : {ts : List Tree} → {start stop : Nat} → CoverAll source start stop ts →
    textAll ts = source.extract start stop
  | [], start, _, h => by
    obtain rfl : start = _ := h
    simp [textAll]
  | t :: ts, _, _, ⟨_, ht, hts⟩ => by
    rw [textAll, ht.text_eq, hts.text_eq, Bytes.extract_append_extract ht.le hts.le]

end

mutual

/-- A tree that covers a range ends where it stops. -/
theorem Covers.stop_eq : {t : Tree} → {start stop : Nat} → t.Covers source start stop →
    t.stop = stop.toUInt32
  | leaf t, start, stop, h => by
    have hlength : stop.toUInt32 = start.toUInt32 + t.text.length.toUInt32 := by
      rw [h.2.1]
      exact UInt32.ofNat_add ..
    rw [Tree.stop, Token.stop, Token.length, h.1, hlength]
  | node _ a [], _, stop, h => by
    obtain rfl : _ = stop := h.2
    exact h.1
  | node _ a (c :: cs), _, _, h => CoverAll.stopAll_eq h.2 (List.cons_ne_nil c cs) a.offset

/-- A row of trees ends where the range it covers does. -/
theorem CoverAll.stopAll_eq : {ts : List Tree} → {start stop : Nat} →
    CoverAll source start stop ts → ts ≠ [] → ∀ bare, stopAll bare ts = stop.toUInt32
  | [t], _, stop, ⟨mid, ht, hts⟩, _, bare => by
    obtain rfl : mid = stop := hts
    rw [stopAll]
    exact Covers.stop_eq ht
  | _ :: u :: ts, _, _, ⟨_, _, hts⟩, _, bare => CoverAll.stopAll_eq hts (List.cons_ne_nil u ts) bare

end

/-! ## Going down -/

/-- Going down one path and then another. -/
theorem at?_append (t : Tree) (path path' : Path) :
    t.at? (path ++ path') = (t.at? path).bind fun n => n.at? path' := by
  induction path generalizing t with
  | nil => rfl
  | cons i path ih =>
    rw [List.cons_append, Tree.at?, Tree.at?]
    cases t.childAt? i with
    | none => rfl
    | some c => exact ih c

/-- A leaf of a row of trees is a leaf of one of them. -/
theorem mem_leavesAll {ts : List Tree} {u : Token} :
    u ∈ leavesAll ts ↔ ∃ t ∈ ts, u ∈ t.leaves := by
  induction ts with
  | nil => simp [leavesAll]
  | cons t ts ih => simp [leavesAll, ih]

/-- The tokens of a tree are tokens of the trees above it. -/
theorem mem_leaves_of_at? {t n : Tree} {path : Path} {u : Token} (hn : t.at? path = some n)
    (hu : u ∈ n.leaves) : u ∈ t.leaves := by
  induction path generalizing t with
  | nil =>
    obtain rfl : t = n := Option.some.inj hn
    exact hu
  | cons i path ih =>
    unfold Tree.at? at hn
    split at hn
    next => cases hn
    next c hc =>
      cases t with
      | leaf t => simp [childAt?, children] at hc
      | node k a cs => exact mem_leavesAll.mpr ⟨c, List.mem_of_getElem? hc, ih hn⟩

/-- A tree among some that cover a range covers a part of it. -/
theorem CoverAll.getElem? {ts : List Tree} {i : Nat} {t : Tree} (h : CoverAll source start stop ts)
    (hi : ts[i]? = some t) : ∃ a b, start ≤ a ∧ b ≤ stop ∧ t.Covers source a b ∧
      CoverAll source start a (ts.take i) ∧ CoverAll source b stop (ts.drop (i + 1)) := by
  induction ts generalizing start i with
  | nil => simp at hi
  | cons u us ih =>
    obtain ⟨mid, hu, hus⟩ := h
    cases i with
    | zero =>
      obtain rfl : u = t := by simpa using hi
      exact ⟨start, mid, Nat.le_refl _, hus.le, hu, rfl, by simpa using hus⟩
    | succ i =>
      obtain ⟨a, b, ha, hb, ht, hbefore, hbehind⟩ := ih hus (by simpa using hi)
      exact ⟨a, b, Nat.le_trans hu.le ha, hb, ht, ⟨mid, hu, hbefore⟩, by simpa using hbehind⟩

/-- A tree below one that covers a range covers a part of it. -/
theorem Covers.at? {t n : Tree} {path : Path} (h : t.Covers source start stop)
    (hn : t.at? path = some n) : ∃ a b, start ≤ a ∧ b ≤ stop ∧ n.Covers source a b := by
  induction path generalizing t start stop with
  | nil =>
    obtain rfl : t = n := Option.some.inj hn
    exact ⟨start, stop, Nat.le_refl _, Nat.le_refl _, h⟩
  | cons i path ih =>
    unfold Tree.at? at hn
    split at hn
    next => cases hn
    next c hc =>
      cases t with
      | leaf t => simp [childAt?, children] at hc
      | node k a cs =>
        obtain ⟨b, e, hb, he, hcover, -⟩ := CoverAll.getElem? h.2 hc
        obtain ⟨b', e', hb', he', hn⟩ := ih hcover hn
        exact ⟨b', e', Nat.le_trans hb hb', Nat.le_trans he' he, hn⟩

end

/-- A child is smaller than its parent. -/
theorem sizeOf_lt_of_childAt? {t c : Tree} {i : Nat} (h : t.childAt? i = some c) :
    sizeOf c < sizeOf t := by
  cases t with
  | leaf t => simp [childAt?, children] at h
  | node k a cs =>
    have hlt : sizeOf c < sizeOf cs := List.sizeOf_lt_of_mem (List.mem_of_getElem? h)
    rw [node.sizeOf_spec]
    omega

/-- A tree below another one is smaller. -/
theorem sizeOf_lt_of_at? {t n : Tree} {i : Nat} {path : Path} (h : t.at? (i :: path) = some n) :
    sizeOf n < sizeOf t := by
  induction path generalizing t i with
  | nil =>
    rw [Tree.at?] at h
    split at h
    next => cases h
    next c hc =>
      obtain rfl : c = n := Option.some.inj h
      exact sizeOf_lt_of_childAt? hc
  | cons j path ih =>
    rw [Tree.at?] at h
    split at h
    next => cases h
    next c hc => exact Nat.lt_trans (ih h) (sizeOf_lt_of_childAt? hc)

/-- Of trees that cover a range one behind the other, trees below different ones lie apart. -/
theorem CoverAll.apart {source : Bytes} {start stop i j : Nat} {ts : List Tree} {c c' n n' : Tree}
    {path path' : Path} (h : CoverAll source start stop ts) (hij : i < j) (hc : ts[i]? = some c)
    (hc' : ts[j]? = some c') (hn : c.at? path = some n) (hn' : c'.at? path' = some n') :
    ∃ a b a' b', b ≤ a' ∧ b' ≤ stop ∧ n.Covers source a b ∧ n'.Covers source a' b' := by
  obtain ⟨a, b, -, -, hcover, -, hbehind⟩ := h.getElem? hc
  have hdrop : (ts.drop (i + 1))[j - (i + 1)]? = some c' := by
    rw [List.getElem?_drop, Nat.add_sub_cancel' hij]
    exact hc'
  obtain ⟨a', b', ha', hb', hcover', -, -⟩ := hbehind.getElem? hdrop
  obtain ⟨d, e, -, he, hnode⟩ := hcover.at? hn
  obtain ⟨d', e', hd', he', hnode'⟩ := hcover'.at? hn'
  exact ⟨d, e, d', e', by omega, by omega, hnode, hnode'⟩

/-- Of two trees below one that covers a range, one is below the other, or they lie apart. -/
theorem Covers.prefix_or_apart {source : Bytes} {start stop : Nat} {t n n' : Tree}
    {path path' : Path}
    (h : t.Covers source start stop) (hn : t.at? path = some n) (hn' : t.at? path' = some n') :
    path <+: path' ∨ path' <+: path ∨
      ∃ a b a' b', (b ≤ a' ∨ b' ≤ a) ∧ b ≤ stop ∧ b' ≤ stop ∧ n.Covers source a b ∧
        n'.Covers source a' b' := by
  -- by induction on the path; where the two paths part, the ranges of the two children lie apart
  induction path generalizing t path' start stop with
  | nil => exact .inl List.nil_prefix
  | cons i path ih =>
    cases path' with
    | nil => exact .inr (.inl List.nil_prefix)
    | cons j path' =>
      unfold Tree.at? at hn hn'
      split at hn
      next => cases hn
      next c hc =>
        split at hn'
        next => cases hn'
        next c' hc' =>
          cases t with
          | leaf t => simp [childAt?, children] at hc
          | node k a cs =>
            rcases Nat.lt_trichotomy i j with hij | rfl | hij
            · obtain ⟨a, b, a', b', hb, hb', hcovers, hcovers'⟩ :=
                CoverAll.apart h.2 hij hc hc' hn hn'
              have hle' := hcovers'.le
              exact .inr (.inr ⟨a, b, a', b', .inl hb, by omega, hb', hcovers, hcovers'⟩)
            · obtain rfl : c = c' := Option.some.inj (hc.symm.trans hc')
              obtain ⟨b, e, -, he, hcover, -⟩ := CoverAll.getElem? h.2 hc
              rcases ih hcover hn hn' with hbelow | habove |
                ⟨a, b, a', b', hapart, hb, hb', hcovers⟩
              · exact .inl ((List.prefix_cons_inj i).mpr hbelow)
              · exact .inr (.inl ((List.prefix_cons_inj i).mpr habove))
              · exact .inr (.inr ⟨a, b, a', b', hapart, by omega, by omega, hcovers⟩)
            · obtain ⟨a', b', a, b, hb, hb', hcovers', hcovers⟩ :=
                CoverAll.apart h.2 hij hc' hc hn' hn
              have hle := hcovers.le
              exact .inr (.inr ⟨a, b, a', b', .inr hb, by omega, by omega, hcovers, hcovers'⟩)

/-- No tree is below itself. -/
theorem eq_nil_of_at?_self {t : Tree} {path : Path} (h : t.at? path = some t) : path = [] := by
  cases path with
  | nil => rfl
  | cons i path => exact absurd (sizeOf_lt_of_at? h) (Nat.lt_irrefl _)

/-- In a source of less than 2^32 bytes, a tree with a text stands at one place only. -/
theorem Covers.path_unique {source : Bytes} {start stop : Nat} {t n : Tree} {path path' : Path}
    (h : t.Covers source start stop) (hstop : stop ≤ source.length)
    (hsize : source.length < 2 ^ 32) (hn : t.at? path = some n) (hn' : t.at? path' = some n)
    (htext : n.text ≠ []) : path = path' := by
  rcases h.prefix_or_apart hn hn' with
    ⟨below, rfl⟩ | ⟨below, rfl⟩ | ⟨a, b, a', b', hapart, hb, hb', hcovers, hcovers'⟩
  · rw [at?_append, hn] at hn'
    rw [eq_nil_of_at?_self hn', List.append_nil]
  · rw [at?_append, hn'] at hn
    rw [eq_nil_of_at?_self hn, List.append_nil]
  · -- no tree with a text lies at two offsets
    have hle := hcovers.le
    have hle' := hcovers'.le
    have hoffset : a.toUInt32.toNat = a'.toUInt32.toNat := by
      rw [← hcovers.offset_eq, hcovers'.offset_eq]
    rw [Bytes.toNat_toUInt32 (by omega) hsize, Bytes.toNat_toUInt32 (by omega) hsize] at hoffset
    have hempty : a = b ∨ a' = b' := by omega
    refine absurd ?_ htext
    rcases hempty with rfl | rfl
    · simp [hcovers.text_eq]
    · simp [hcovers'.text_eq]

/-! ## Offsets -/

/-- A tree lies in a source: its offsets are those of its text, and its children fill it without a
gap. -/
structure IsPlaced (source : Bytes) (t : Tree) : Prop where
  /-- The tree does not end before it starts. -/
  offset_le : t.offset ≤ t.stop
  /-- The tree ends within the source. -/
  stop_le : t.stop.toNat ≤ source.length
  /-- The text of the tree is the piece of the source between its offsets. -/
  text_eq : t.text = source.extract t.offset.toNat t.stop.toNat
  /-- The first child starts where the tree does. -/
  first : ∀ c ∈ t.children.head?, c.offset = t.offset
  /-- A child starts where the one before it ends. -/
  next : ∀ i c c', t.children[i]? = some c → t.children[i + 1]? = some c' → c'.offset = c.stop
  /-- The last child ends where the tree does. -/
  last : ∀ c ∈ t.children.getLast?, c.stop = t.stop

/-- Children that cover a range fill it without a gap. -/
theorem CoverAll.next {source : Bytes} {start stop : Nat} {ts : List Tree}
    (h : CoverAll source start stop ts) {i : Nat} {c c' : Tree} (hc : ts[i]? = some c)
    (hc' : ts[i + 1]? = some c') : c'.offset = c.stop := by
  obtain ⟨a, b, -, -, hcover, -, hbehind⟩ := h.getElem? hc
  obtain ⟨rest, hrest⟩ : ∃ rest, ts.drop (i + 1) = c' :: rest := by
    obtain ⟨hlt, rfl⟩ := List.getElem?_eq_some_iff.mp hc'
    exact ⟨_, List.drop_eq_getElem_cons hlt⟩
  rw [hrest] at hbehind
  obtain ⟨mid, hcover', -⟩ := hbehind
  rw [hcover'.offset_eq, hcover.stop_eq]

/-- In a source of less than 2^32 bytes, a tree that covers a range of it lies there. -/
theorem Covers.isPlaced {source : Bytes} {start stop : Nat} {t : Tree}
    (h : t.Covers source start stop) (hstop : stop ≤ source.length)
    (hsize : source.length < 2 ^ 32) : t.IsPlaced source := by
  have hoffset : t.offset.toNat = start := by
    rw [h.offset_eq, Bytes.toNat_toUInt32 (Nat.le_trans h.le hstop) hsize]
  have hend : t.stop.toNat = stop := by rw [h.stop_eq, Bytes.toNat_toUInt32 hstop hsize]
  refine ⟨?_, by rwa [hend], by rw [hoffset, hend, h.text_eq], ?_, ?_, ?_⟩
  · rw [UInt32.le_iff_toNat_le, hoffset, hend]
    exact h.le
  · intro c hc
    cases t with
    | leaf t => simp [children] at hc
    | node k a cs =>
      obtain ⟨rest, rfl⟩ : ∃ rest, cs = c :: rest := List.head?_eq_some_iff.mp hc
      rfl
  · intro i c c' hc hc'
    cases t with
    | leaf t => simp [children] at hc
    | node k a cs => exact CoverAll.next h.2 hc hc'
  · intro c hc
    cases t with
    | leaf t => simp [children] at hc
    | node k a cs =>
      obtain ⟨init, rfl⟩ : ∃ init, cs = init ++ [c] := List.getLast?_eq_some_iff.mp hc
      obtain ⟨mid, -, mid', hcover, hdone⟩ := (coverAll_append init [c]).mp h.2
      obtain rfl : mid' = stop := hdone
      rw [hcover.stop_eq, h.stop_eq]

end Tree

end LosslessBasic
