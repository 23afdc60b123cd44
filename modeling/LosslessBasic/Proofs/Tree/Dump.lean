import LosslessBasic.Proofs.Token.Dump
import LosslessBasic.Proofs.Tree.Query

/-!
# What a dump shows

The lines of a dump are those of the trees within the tree, in pre-order and each as far indented as
the tree is below the top (`forall₂_lines_dump`), and the lines with a quoted text are those of the
tokens (`tokenLines_dump`). So the dump determines the tree up to what it does not show, which is
where nodes lie by line and column (`sameLines_of_dump_eq`): behind the line of a tree, the lines
that are further indented are those of its children, and the next line that is not is that of its
sibling.
-/

namespace LosslessBasic

namespace Bytes

/-- The number of blanks in front of a line. -/
def indentation (line : Bytes) : Nat := (line.takeWhile (· == byte ' ')).length

/-- A line without the blanks in front of it. -/
def unindented (line : Bytes) : Bytes := line.dropWhile (· == byte ' ')

/-- Blanks in front of a line that starts with none are its indentation. -/
theorem indentation_replicate_append {line : Bytes} (h : ∀ c ∈ line.head?, (c == byte ' ') = false)
    (n : Nat) : indentation (List.replicate n (byte ' ') ++ line) = n ∧
      unindented (List.replicate n (byte ' ') ++ line) = line := by
  have hblanks : ∀ c ∈ List.replicate n (byte ' '), (c == byte ' ') = true := fun c hc =>
    beq_iff_eq.mpr (List.eq_of_mem_replicate hc)
  rw [indentation, unindented, List.takeWhile_append_of_pos hblanks,
    List.dropWhile_append_of_pos hblanks]
  cases line with
  | nil => simp
  | cons c line => simp [h c rfl]

end Bytes

namespace Tree

open Bytes

/-! ## Lines -/

/-- What the line of a tree shows behind its range: the text of a token. -/
def quotation (t : Tree) : Bytes := if t.isToken then Token.describeText t.tokenText else []

/-- What a dump says of a tree is its range and the text of its token. -/
theorem summary_eq (t : Tree) :
    t.summary = Token.describeRange t.kind t.offset t.stop ++ t.quotation := by
  cases t with
  | leaf t => rfl
  | node k a cs => exact (List.append_nil _).symm

/-- What a dump says of a tree stands on one line. -/
theorem lineFeed_not_mem_summary (t : Tree) : lineFeed ∉ t.summary := by
  rw [summary_eq, List.mem_append, not_or]
  refine ⟨fun h => ?_, ?_⟩
  · have hheading := Token.isHeading_of_mem_describeRange h
    revert hheading
    decide
  · unfold quotation
    split
    · exact Token.lineFeed_not_mem_describeText _
    · exact List.not_mem_nil

/-- The line of a tree has a double quote in it where the tree is a token. -/
theorem doubleQuote_mem_summary (t : Tree) : doubleQuote ∈ t.summary ↔ t.isToken = true := by
  have hheading : doubleQuote ∉ Token.describeRange t.kind t.offset t.stop := fun h => by
    have hheading := Token.isHeading_of_mem_describeRange h
    revert hheading
    decide
  rw [summary_eq, List.mem_append, quotation]
  cases t.isToken <;> simp [hheading, Token.describeText]

/-- The line of a tree does not start with a blank by itself. -/
theorem head?_summary (t : Tree) : ∀ c ∈ t.summary.head?, (c == byte ' ') = false := by
  intro c hc
  rw [summary_eq, List.head?_append_of_ne_nil _ (Token.describeRange_ne_nil _ _ _)] at hc
  have hheading := Token.isHeading_of_mem_describeRange (List.mem_of_mem_head? hc)
  rw [beq_eq_false_iff_ne]
  rintro rfl
  revert hheading
  decide

/-- The line of a tree at a depth, without its line feed. -/
def indented (depth : Nat) (t : Tree) : Bytes := List.replicate (2 * depth) (byte ' ') ++ t.summary

/-- A dump has a line for every tree of its outline. -/
theorem lines_dump (t : Tree) :
    lines t.dump = (t.outline 0).map fun entry => indented entry.1 entry.2 := by
  have hdump :
      t.dump = ((t.outline 0).map fun entry => indented entry.1 entry.2).flatMap
        (· ++ [lineFeed]) := by
    rw [List.flatMap_map]
    rfl
  rw [hdump, lines_flatMap]
  intro line hline
  obtain ⟨entry, -, rfl⟩ := List.mem_map.mp hline
  rw [indented, List.mem_append, not_or]
  refine ⟨fun h => ?_, lineFeed_not_mem_summary _⟩
  exact absurd (List.eq_of_mem_replicate h) (by decide)

/-! ## The lines of tokens -/

/-- The lines with a quoted text in a dump, without their indentation. -/
def tokenLines (dump : Bytes) : List Bytes :=
  ((lines dump).filter fun line => line.contains doubleQuote).map unindented

mutual

/-- The tokens in the outline of a tree are its leaves. -/
theorem filter_isToken_outline (depth : Nat) : (t : Tree) →
    ((t.outline depth).filter fun entry => entry.2.isToken).map (fun entry => entry.2.summary) =
      t.leaves.map Token.format
  | leaf _ => rfl
  | node _ _ cs => filter_isToken_outlineAll (depth + 1) cs

/-- The tokens in the outline of some trees are their leaves. -/
theorem filter_isToken_outlineAll (depth : Nat) : (ts : List Tree) →
    ((outlineAll depth ts).filter fun entry => entry.2.isToken).map (fun entry => entry.2.summary) =
      (leavesAll ts).map Token.format
  | [] => rfl
  | t :: ts => by
    rw [outlineAll, leavesAll, List.filter_append, List.map_append, List.map_append,
      filter_isToken_outline depth t, filter_isToken_outlineAll depth ts]

end

/-- The lines with a quoted text are those of the tokens. -/
theorem tokenLines_dump (t : Tree) : tokenLines t.dump = t.leaves.map Token.format := by
  rw [tokenLines, lines_dump, List.filter_map, List.map_map, ← filter_isToken_outline 0]
  have hcontains (entry : Nat × Tree) :
      (indented entry.1 entry.2).contains doubleQuote = entry.2.isToken := by
    have hblank : doubleQuote ≠ byte ' ' := by decide
    -- indentation has no quotes in it
    rw [Bool.eq_iff_iff, List.contains_iff_mem, ← doubleQuote_mem_summary, indented,
      List.mem_append]
    simp [List.mem_replicate, hblank]
  have hunindented (entry : Nat × Tree) : unindented (indented entry.1 entry.2) = entry.2.summary :=
    (indentation_replicate_append entry.2.head?_summary _).2
  simp only [Function.comp_def, hcontains, hunindented]

/-! ## The lines of paths -/

/-- The lines of a dump, by the paths of what they show: two blanks of indentation a node above
it. -/
theorem forall₂_lines_dump (t : Tree) :
    List.Forall₂ (fun line path => ∃ n, t.at? path = some n ∧
        line = List.replicate (2 * path.length) (byte ' ') ++ n.summary)
      (lines t.dump) t.paths := by
  rw [lines_dump, List.forall₂_map_left_iff]
  refine (forall₂_outline 0 t).imp ?_
  rintro entry path ⟨hdepth, hat⟩
  exact ⟨entry.2, hat, by rw [indented, hdepth, Nat.zero_add]⟩

/-! ## Reading a dump -/

mutual

/-- The tokens of a tree have kinds of tokens, and its nodes have kinds of nodes. -/
def HasKinds : Tree → Prop
  | leaf t => t.kind.isToken = true
  | node k _ cs => k.isNode = true ∧ HaveKinds cs

/-- The same for some trees. -/
def HaveKinds : List Tree → Prop
  | [] => True
  | t :: ts => t.HasKinds ∧ HaveKinds ts

end

/-- Two trees with the same on top: its kind, its range and the text of a token. -/
structure SameLine (t u : Tree) : Prop where
  kind : t.kind = u.kind
  isToken : t.isToken = u.isToken
  offset : t.offset = u.offset
  stop : t.stop = u.stop
  tokenText : t.tokenText = u.tokenText

variable {t u : Tree} {ts us : List Tree}

/-- What is quoted of a token starts with no digit. -/
theorem head?_quotation (t : Tree) : ∀ c ∈ t.quotation.head?, Ascii.isDigit c = false := by
  intro c hc
  unfold quotation at hc
  split at hc
  · obtain rfl := Option.some.inj hc
    decide
  · cases hc

/-- A tree that is a token is of a kind of tokens. -/
theorem HasKinds.isToken_kind (h : t.HasKinds) (ht : t.isToken = true) : t.kind.isToken = true := by
  cases t with
  | leaf t => exact h
  | node k a cs => cases ht

/-- A tree that is no token is of a kind of nodes. -/
theorem HasKinds.isNode_kind (h : t.HasKinds) (ht : t.isToken = false) : t.kind.isNode = true := by
  cases t with
  | leaf t => cases ht
  | node k a cs => exact h.1

/-- The children of a tree with proper kinds have proper kinds. -/
theorem HasKinds.children (h : t.HasKinds) : HaveKinds t.children := by
  cases t with
  | leaf t => trivial
  | node k a cs => exact h.2

/-- What is no token has no text of its own. -/
theorem tokenText_of_isToken_eq_false (h : t.isToken = false) : t.tokenText = [] := by
  cases t with
  | leaf t => cases h
  | node k a cs => rfl

/-- Trees of which the same is written have the same on top. -/
theorem sameLine_of_summary_eq (ht : t.HasKinds) (hu : u.HasKinds) (h : t.summary = u.summary) :
    t.SameLine u := by
  have htoken : t.isToken = u.isToken := by
    rw [Bool.eq_iff_iff, ← doubleQuote_mem_summary, h, doubleQuote_mem_summary]
  rw [summary_eq, summary_eq] at h
  -- the quotes tell the sort of the kind, and within it the kind is known by its name
  obtain ⟨hname, hoffset, hstop, hquotation⟩ :=
    Token.describeRange_append_inj t.head?_quotation u.head?_quotation h
  cases hcase : t.isToken with
  | false =>
    have hcase' : u.isToken = false := htoken ▸ hcase
    refine ⟨?_, htoken, hoffset, hstop, ?_⟩
    · exact Kind.eq_of_name_eq_of_isNode (ht.isNode_kind hcase) (hu.isNode_kind hcase') hname
    · rw [tokenText_of_isToken_eq_false hcase, tokenText_of_isToken_eq_false hcase']
  | true =>
    have hcase' : u.isToken = true := htoken ▸ hcase
    refine ⟨?_, htoken, hoffset, hstop, ?_⟩
    · exact Kind.eq_of_name_eq_of_isToken (ht.isToken_kind hcase) (hu.isToken_kind hcase') hname
    · rw [quotation, quotation, if_pos hcase, if_pos hcase'] at hquotation
      exact Token.describeText_injective hquotation

/-! ### Children and siblings -/

/-- The children of a tree are smaller than the tree. -/
theorem sizeOf_children_lt (t : Tree) : sizeOf t.children < sizeOf t := by
  cases t with
  | leaf t =>
    rw [leaf.sizeOf_spec, children, List.nil.sizeOf_spec]
    cases t
    rw [Token.mk.sizeOf_spec]
    omega
  | node k a cs =>
    rw [node.sizeOf_spec, children]
    omega

/-- Induction on the children and the siblings of the first of some trees. -/
theorem forest_induction {motive : List Tree → Prop} (nil : motive [])
    (cons : ∀ t ts, motive t.children → motive ts → motive (t :: ts)) (ts : List Tree) :
    motive ts := by
  induction hsize : sizeOf ts using Nat.strongRecOn generalizing ts with
  | ind size ih =>
    cases ts with
    | nil => exact nil
    | cons t ts =>
      have hchildren := sizeOf_children_lt t
      rw [List.cons.sizeOf_spec] at hsize
      exact cons t ts (ih _ (by omega) t.children rfl) (ih _ (by omega) ts rfl)

/-- The children of the first of some trees are outlined behind it, one level down, and its siblings
behind them. -/
theorem outlineAll_cons (depth : Nat) (t : Tree) (ts : List Tree) : outlineAll depth (t :: ts) =
    (depth, t) :: (outlineAll (depth + 1) t.children ++ outlineAll depth ts) := by
  cases t <;> rfl

/-- In an outline nothing stands less deep than where it starts. -/
theorem le_of_mem_outlineAll {depth : Nat} {entry : Nat × Tree} (h : entry ∈ outlineAll depth ts) :
    depth ≤ entry.1 := by
  induction ts using forest_induction generalizing depth with
  | nil => cases h
  | cons t ts ihchildren ih =>
    rw [outlineAll_cons, List.mem_cons, List.mem_append] at h
    rcases h with rfl | h | h
    · exact Nat.le_refl _
    · exact Nat.le_of_succ_le (ihchildren h)
    · exact ih h

/-- What is written of some trees and of everything below them, with the depths. -/
def entries (depth : Nat) (ts : List Tree) : List (Nat × Bytes) :=
  (outlineAll depth ts).map fun entry => (entry.1, entry.2.summary)

/-- The entries of a tree are its own, those of its children, and those of what follows it. -/
theorem entries_cons (depth : Nat) (t : Tree) (ts : List Tree) : entries depth (t :: ts) =
    (depth, t.summary) :: (entries (depth + 1) t.children ++ entries depth ts) := by
  rw [entries, outlineAll_cons, List.map_cons, List.map_append]
  rfl

/-- Where children end and siblings start is seen by the depths. -/
theorem entries_append_inj {depth : Nat} {cs cs' : List Tree}
    (h : entries (depth + 1) cs ++ entries depth ts = entries (depth + 1) cs' ++ entries depth us) :
    entries (depth + 1) cs = entries (depth + 1) cs' ∧ entries depth ts = entries depth us := by
  have hbelow (cs : List Tree) :
      ∀ entry ∈ entries (depth + 1) cs, decide (depth < entry.1) = true := by
    intro entry hentry
    obtain ⟨e, he, rfl⟩ := List.mem_map.mp hentry
    exact decide_eq_true (le_of_mem_outlineAll he)
  have hbeside (ts : List Tree) :
      ∀ entry ∈ (entries depth ts).head?, decide (depth < entry.1) = false := by
    intro entry hentry
    cases ts with
    | nil => cases hentry
    | cons t ts =>
      rw [entries_cons] at hentry
      obtain rfl := Option.some.inj hentry
      exact decide_eq_false (Nat.lt_irrefl depth)
  -- the children are the longest run of entries that are deeper than the siblings
  exact append_inj_of_takeWhile (hbelow cs) (hbelow cs') (hbeside ts) (hbeside us) h

/-- Trees look the same all the way down. -/
def SameLines (t u : Tree) : Prop := ∀ path, Option.Rel SameLine (t.at? path) (u.at? path)

/-- Trees that say the same have the same lines where their children have. -/
theorem sameLines_of_children (h : t.SameLine u)
    (hchildren : List.Forall₂ SameLines t.children u.children) :
    t.SameLines u := by
  have hchild {ts us : List Tree} (h : List.Forall₂ SameLines ts us) (i : Nat) (path : Path) :
      Option.Rel SameLine (ts[i]?.bind fun c => c.at? path) (us[i]?.bind fun c => c.at? path) := by
    induction h generalizing i with
    | nil => exact .none
    | cons hc _ ih =>
      cases i with
      | zero => exact hc path
      | succ i => exact ih i
  intro path
  cases path with
  | nil => exact .some h
  | cons i path =>
    rw [at?_cons, at?_cons]
    exact hchild hchildren i path

/-- What is written of trees determines them up to what is not written. -/
theorem sameLines_of_entries_eq {depth : Nat} (hts : HaveKinds ts) (hus : HaveKinds us)
    (h : entries depth ts = entries depth us) : List.Forall₂ SameLines ts us := by
  -- as a dump is read: a line, what is below it, what is beside it
  induction ts using forest_induction generalizing us depth with
  | nil =>
    cases us with
    | nil => exact .nil
    | cons u us =>
      rw [entries_cons] at h
      cases h
  | cons t ts ihchildren ih =>
    rw [entries_cons] at h
    cases us with
    | nil => cases h
    | cons u us =>
      rw [entries_cons] at h
      obtain ⟨hhead, htail⟩ := List.cons.inj h
      obtain ⟨hbelow, hbeside⟩ := entries_append_inj htail
      have hlooks := sameLine_of_summary_eq hts.1 hus.1 (congrArg Prod.snd hhead)
      have hchildren := ihchildren hts.1.children hus.1.children hbelow
      exact .cons (sameLines_of_children hlooks hchildren) (ih hts.2 hus.2 hbeside)

/-- The entries of a tree are read back from its dump. -/
theorem entries_of_dump (t : Tree) : entries 0 [t] =
    (lines t.dump).map fun line => (indentation line / 2, unindented line) := by
  rw [lines_dump, List.map_map, entries, outlineAll, outlineAll, List.append_nil]
  refine List.map_congr_left fun entry _ => ?_
  obtain ⟨hindentation, hunindented⟩ :=
    indentation_replicate_append entry.2.head?_summary (2 * entry.1)
  simp only [Function.comp_apply, indented, hindentation, hunindented]
  rw [Nat.mul_div_cancel_left _ (by decide)]

/-- Trees with the same dump look the same. -/
theorem sameLines_of_dump_eq (ht : t.HasKinds) (hu : u.HasKinds) (h : t.dump = u.dump) :
    t.SameLines u := by
  have hentries : entries 0 [t] = entries 0 [u] := by rw [entries_of_dump, h, entries_of_dump]
  have hone {t : Tree} (ht : t.HasKinds) : HaveKinds [t] := by
    simpa only [HaveKinds, and_true] using ht
  exact (List.forall₂_cons.mp (sameLines_of_entries_eq (hone ht) (hone hu) hentries)).1

/-- Trees with the same dump have tokens with the same texts. -/
theorem texts_eq_of_dump_eq (h : t.dump = u.dump) :
    t.leaves.map Token.text = u.leaves.map Token.text := by
  have hformats : List.Forall₂ (· = ·) (t.leaves.map Token.format) (u.leaves.map Token.format) := by
    rw [List.forall₂_eq_eq_eq, ← tokenLines_dump, h, tokenLines_dump]
  rw [List.forall₂_map_left_iff, List.forall₂_map_right_iff] at hformats
  rw [← List.forall₂_eq_eq_eq, List.forall₂_map_left_iff, List.forall₂_map_right_iff]
  exact hformats.imp fun _ _ => Token.text_eq_of_format_eq

end Tree

end LosslessBasic
