import LosslessBasic.Proofs.Grammar.Conservation
import LosslessBasic.Proofs.Tree.Ending
import LosslessBasic.Tree.Query

/-!
# Texts without designer blocks and without single-line Ifs of several lines

A text is *regular* when no designer block is read in it and no line break within the arms of a
single-line `If`. No production takes a tree out of the row, so in a text that turns out to be
regular the trees are on the way to its end (`Composed.regular`).
-/

namespace LosslessBasic

namespace Tree

theorem descendantsAll_append (ts us : List Tree) :
    descendantsAll (ts ++ us) = descendantsAll ts ++ descendantsAll us := by
  induction ts with
  | nil => rfl
  | cons t ts ih => simp [descendantsAll, ih]

theorem kind_above (k : Kind) (a : Anchor) (ts : List Tree) : (above k a ts).kind = k := by
  cases ts <;> rfl

theorem descendants_above (k : Kind) (a : Anchor) (ts : List Tree) :
    (above k a ts).descendants = descendantsAll ts := by
  cases ts <;> rfl

/-- No designer block, and no single-line `If` with a line break in an arm: the line break that ends
such an `If` is its direct child. -/
structure IsRegular (n : Tree) : Prop where
  not_designer : n.kind ≠ .node .propertiesBlock
  onOneLine : n.kind = .node .ifStatement → n.IsOnOneLine →
    ∀ c ∈ n.children, ∀ m ∈ c.descendants, m.isNewline = false

end Tree

namespace Grammar

/-- Whether every tree that has been read so far is regular. -/
def State.Regular (s : State) : Prop :=
  ∀ n ∈ Tree.descendantsAll s.builder.pending.toList, n.IsRegular

/-- Closing a node takes no tree out of the row. -/
theorem descendantsAll_subset_finishNode (b : Builder) :
    Tree.descendantsAll b.pending.toList ⊆ Tree.descendantsAll b.finishNode.2.pending.toList := by
  cases h : b.opened with
  | nil => simp [Builder.finishNode, h]
  | cons n outer =>
    have hrow : Tree.descendantsAll b.pending.toList =
        Tree.descendantsAll (b.pending.toList.take n.first) ++
          Tree.descendantsAll (b.pending.toList.drop n.first) := by
      rw [← Tree.descendantsAll_append, List.take_append_drop]
    rw [Builder.pending_finishNode h, Tree.descendantsAll_append]
    intro m hm
    rw [hrow] at hm
    rcases List.mem_append.mp hm with hm | hm
    · exact List.mem_append_left _ hm
    · refine List.mem_append_right _ (List.mem_cons_of_mem _ (List.mem_append_left _ ?_))
      rwa [Tree.descendants_above]

theorem State.Regular.of_closing {s : State} (h : s.closing.Regular) : s.Regular :=
  fun n hn => h n (descendantsAll_subset_finishNode s.builder hn)

/-- No production takes a tree out of the row. -/
theorem Composed.descendantsAll_subset {simple : Bool} {α : Type} {p : Production α}
    (h : Composed simple p) (s : State) :
    Tree.descendantsAll s.builder.pending.toList ⊆
      Tree.descendantsAll (p.run s).2.builder.pending.toList := by
  induction h generalizing s with
  | pure | get | note | setRecovering | setSeparator | setPendingNext | addTarget | report =>
    exact List.Subset.refl _
  | bind _ _ ihp ihf => exact List.Subset.trans (ihp s) (ihf _ _)
  | shift =>
    by_cases hend : s.stream.current.kind = .lexeme .endOfFile
    · rw [run_shift_of_atEnd hend]
      exact List.Subset.refl _
    · rw [run_shift hend]
      simp [State.shifted, Builder.token, Tree.descendantsAll_append]
  | @within _ _ k _ _ ih =>
    exact List.Subset.trans (ih (s.opening k)) (descendantsAll_subset_finishNode _)
  | @composite _ k _ _ ih =>
    exact List.Subset.trans (ih (s.opening k)) (descendantsAll_subset_finishNode _)
  | @compositeFrom _ cp k _ _ ih =>
    exact List.Subset.trans (ih (s.openingAt cp k)) (descendantsAll_subset_finishNode _)
  | @inBlock _ block _ _ ih => exact ih { s with blocks := block :: s.blocks }
  | @inWith _ _ target _ _ ih => exact ih { s with withTargets := target :: s.withTargets }
  | onOneLine _ ih => exact ih { s with lineMode := s.lineMode + 1 }

/-- What has been read of a regular text is regular. -/
theorem Composed.regular {simple : Bool} {α : Type} {p : Production α} (h : Composed simple p)
    {s : State} (hregular : (p.run s).2.Regular) : s.Regular :=
  fun n hn => hregular n (h.descendantsAll_subset s hn)

/-- The node around what a production adds stands last in the row. -/
theorem getLast_within {α : Type} {k : NodeKind} {p : Production α} [hp : Composed false p]
    (s : State) :
    ∃ a ts, ((within k p).run s).2.builder.pending.toList.getLast? =
      some (.above (.node k) a ts) := by
  have hopened := (hp.sameContext (s.opening k)).opened
  rw [run_within]
  change ∃ a ts, (p.run (s.opening k)).2.builder.finishNode.2.pending.toList.getLast? = _
  rw [Builder.pending_finishNode hopened, List.getLast?_concat]
  exact ⟨_, _, rfl⟩

/-- A regular text holds no designer block. -/
theorem not_regular_designer {α : Type} {p : Production α} [Composed false p] (s : State) :
    ¬ ((within .propertiesBlock p).run s).2.Regular := by
  intro hregular
  obtain ⟨a, ts, hlast⟩ := getLast_within (k := .propertiesBlock) (p := p) s
  obtain ⟨init, hrow⟩ := List.getLast?_eq_some_iff.mp hlast
  refine (hregular (.above _ a ts) ?_).not_designer (Tree.kind_above _ a ts)
  rw [hrow, Tree.descendantsAll_append]
  exact List.mem_append_right _ List.mem_cons_self

end Grammar

end LosslessBasic
