import LosslessBasic.Proofs.Grammar.Obligations
import LosslessBasic.Proofs.Grammar.Regular

/-!
# Single-line Ifs at the end of a text

The arms of a single-line `If` reach the end of a text over a line break that is then below them, so
they do not reach it in a regular text (`inside_inlineArms`).

Whatever a production does to the row, it does within the innermost open node. A node that is opened
and closed around it is therefore the only tree that is added (`adds_within`).
-/

namespace LosslessBasic

namespace Tree

theorem mem_descendantsAll {m : Tree} {ts : List Tree} :
    m ∈ descendantsAll ts ↔ ∃ c ∈ ts, m = c ∨ m ∈ c.descendants := by
  induction ts with
  | nil => simp [descendantsAll]
  | cons t ts ih => simp [descendantsAll, ih, or_assoc]

mutual

/-- A token of a tree is a tree at or below it. -/
theorem leaf_mem_of_mem_leaves {t : Token} :
    ∀ {n : Tree}, t ∈ n.leaves → leaf t ∈ n :: n.descendants
  | leaf u, h => by
    obtain rfl := List.mem_singleton.mp h
    exact List.mem_cons_self
  | node k a cs, h => List.mem_cons_of_mem _ (leaf_mem_of_mem_leavesAll h)

/-- A token of some trees is a tree at or below one of them. -/
theorem leaf_mem_of_mem_leavesAll {t : Token} :
    ∀ {ns : List Tree}, t ∈ leavesAll ns → leaf t ∈ descendantsAll ns
  | [], h => absurd h List.not_mem_nil
  | n :: ns, h => by
    rw [descendantsAll, ← List.cons_append]
    rcases List.mem_append.mp h with h | h
    · exact List.mem_append_left _ (leaf_mem_of_mem_leaves h)
    · exact List.mem_append_right _ (leaf_mem_of_mem_leavesAll h)

end

end Tree

namespace Grammar

/-! ## The row around the innermost open node -/

/-- Closing a node that was opened in the row leaves the trees in front of it there. -/
theorem take_pending_finishNode {b : Builder} {n : OpenNode} {outer : List OpenNode} {i : Nat}
    (hopened : b.opened = n :: outer) (hi : i ≤ n.first) (hn : n.first ≤ b.pending.size) :
    b.finishNode.2.pending.toList.take i = b.pending.toList.take i ∧
      i ≤ b.finishNode.2.pending.size := by
  have hpending := Builder.pending_finishNode hopened
  have hlength : (b.pending.toList.take n.first).length = n.first := by
    rw [List.length_take, Array.length_toList]
    omega
  refine ⟨?_, ?_⟩
  · rw [hpending, List.take_append_of_le_length (by omega), List.take_take, Nat.min_eq_left hi]
  · rw [← Array.length_toList, hpending, List.length_append, hlength]
    omega

/-- What stands in the row in front of the innermost open node stays there. -/
theorem Composed.take_pending {simple : Bool} {α : Type} {p : Production α} (h : Composed simple p)
    {s : State} {i : Nat} (hs : s.InnermostInRow) (hi : i ≤ s.builder.innermostFirst) :
    (p.run s).2.builder.pending.toList.take i = s.builder.pending.toList.take i ∧
      (p.run s).2.InnermostInRow := by
  -- a node that has been opened behind the first `i` trees is closed behind them
  have hclosed {t u : State} {n : OpenNode} (hopened : u.builder.opened = n :: t.builder.opened)
      (ht : i ≤ t.builder.innermostFirst) (hn : t.builder.innermostFirst ≤ n.first)
      (hu : u.InnermostInRow) :
      u.closing.builder.pending.toList.take i = u.builder.pending.toList.take i ∧
        u.closing.InnermostInRow := by
    have hrow : n.first ≤ u.builder.pending.size := by
      unfold State.InnermostInRow Builder.innermostFirst at hu
      rwa [hopened] at hu
    refine ⟨(take_pending_finishNode hopened (Nat.le_trans ht hn) hrow).1, ?_⟩
    have hfirst : u.closing.builder.innermostFirst = t.builder.innermostFirst := by
      simp only [State.closing, Builder.innermostFirst, Builder.opened_finishNode hopened]
    unfold State.InnermostInRow
    rw [hfirst]
    exact (take_pending_finishNode hopened hn hrow).2
  induction h generalizing s with
  | pure | get | note | setRecovering | setSeparator | setPendingNext | addTarget | report =>
    exact ⟨rfl, hs⟩
  | @bind _ _ _ _ _ hp _ ihp ihf =>
    obtain ⟨hfirst, hs'⟩ := ihp hs hi
    have hopened := (hp.sameContext s).opened
    obtain ⟨hsecond, hs''⟩ := ihf _ hs' (by
      unfold Builder.innermostFirst at hi ⊢
      rwa [hopened])
    exact ⟨hsecond.trans hfirst, hs''⟩
  | shift =>
    by_cases hend : s.AtEnd
    · rw [run_shift_of_atEnd hend]
      exact ⟨rfl, hs⟩
    · have hadds := State.Adds.shifted hend
      have hlength : i ≤ s.builder.pending.toList.length := by
        unfold State.InnermostInRow at hs
        rw [Array.length_toList]
        omega
      rw [run_shift hend]
      exact ⟨by rw [hadds.pending, List.take_append_of_le_length hlength], hadds.innermostInRow hs⟩
  | @within _ _ k _ hbody ih =>
    obtain ⟨htake, hrow⟩ := ih (State.innermostInRow_opening s k) (Nat.le_trans hi hs)
    obtain ⟨hclosing, hrow'⟩ := hclosed (t := s) (hbody.sameContext (s.opening k)).opened hi hs hrow
    exact ⟨hclosing.trans htake, hrow'⟩
  | @composite _ k _ hbody ih =>
    obtain ⟨htake, hrow⟩ := ih (State.innermostInRow_opening s k) (Nat.le_trans hi hs)
    obtain ⟨hclosing, hrow'⟩ := hclosed (t := s) (hbody.sameContext (s.opening k)).opened hi hs hrow
    exact ⟨hclosing.trans htake, hrow'⟩
  | @compositeFrom _ cp k _ hbody ih =>
    have hclamp : s.builder.innermostFirst ≤ s.builder.clamp cp ∧
        s.builder.clamp cp ≤ s.builder.pending.size := by
      unfold State.InnermostInRow at hs
      unfold Builder.clamp
      omega
    obtain ⟨htake, hrow⟩ := ih (s := s.openingAt cp k) hclamp.2 (Nat.le_trans hi hclamp.1)
    obtain ⟨hclosing, hrow'⟩ := hclosed (t := s) (hbody.sameContext (s.openingAt cp k)).opened hi
      hclamp.1 hrow
    exact ⟨hclosing.trans htake, hrow'⟩
  | @inBlock _ block _ _ ih => exact ih (s := { s with blocks := block :: s.blocks }) hs hi
  | @inWith _ _ target _ _ ih =>
    exact ih (s := { s with withTargets := target :: s.withTargets }) hs hi
  | onOneLine _ ih => exact ih (s := { s with lineMode := s.lineMode + 1 }) hs hi

/-- A node around what a production does to the row is added to it. -/
theorem adds_within {α : Type} (k : NodeKind) (p : Production α) [hp : Composed false p]
    (s : State) :
    ∃ a ts, s.Adds [.above (.node k) a ts] ((within k p).run s).2 := by
  have hwithin : Composed false (within k p) := inferInstance
  have hopened := (hp.sameContext (s.opening k)).opened
  obtain ⟨htake, -⟩ := hp.take_pending (State.innermostInRow_opening s k) (Nat.le_refl _)
  obtain ⟨moved, hrest, hleaves⟩ := (hwithin.follows s).moved
  have hpending : ((within k p).run s).2.builder.pending.toList =
      s.builder.pending.toList ++ [.above (.node k) (p.run (s.opening k)).2.builder.anchor
        ((p.run (s.opening k)).2.builder.pending.toList.drop s.builder.pending.size)] := by
    rw [run_within]
    change (p.run (s.opening k)).2.builder.finishNode.2.pending.toList = _
    rw [Builder.pending_finishNode hopened]
    refine congrArg (· ++ _) (htake.trans ?_)
    exact List.take_of_length_le (Nat.le_of_eq Array.length_toList)
  refine ⟨_, _, hwithin.sameContext s, hpending, ?_⟩
  rw [hpending, Tree.leavesAll_append] at hleaves
  rw [hrest, List.append_cancel_left hleaves]

/-- In a regular text the node around what has been added within it is regular. -/
theorem exists_isRegular_closing {k : NodeKind} {s t : State} {trees : List Tree}
    (h : (s.opening k).Adds trees t) (hregular : t.closing.Regular) :
    ∃ n : Tree, n.kind = .node k ∧ n.children = trees ∧ n.IsRegular := by
  refine ⟨.above (.node k) t.builder.anchor trees, Tree.kind_above .., Tree.children_above ..,
    hregular _ ?_⟩
  have hdrop : t.builder.pending.toList.drop s.builder.pending.size = trees := by
    rw [h.pending]
    exact List.drop_left' Array.length_toList
  change _ ∈ Tree.descendantsAll t.builder.finishNode.2.pending.toList
  rw [Builder.pending_finishNode h.context.opened, Tree.descendantsAll_append]
  dsimp only
  rw [hdrop]
  exact List.mem_append_right _ List.mem_cons_self

/-! ## Arms -/

section

variable {statement : Production Unit} [Composed false statement]

variable (statement) in
/-- The arms of a single-line `If` are a list of statements and no line breaks behind it. -/
theorem adds_inlineArms {s : State} (hs : s.InnermostInRow) :
    ∃ list more, list.isStatementList = true ∧ (∀ n ∈ more, n.isNewline = false) ∧
      s.Adds (list :: more) ((inlineArms statement).run s).2 := by
  obtain ⟨a, ts, harm⟩ : ∃ a ts, s.Adds [.above (.node .statementList) a ts]
      ((inlineArm statement true).run s).2 := adds_within ..
  have hlist : (Tree.above (.node .statementList) a ts).isStatementList = true := by
    cases ts <;> rfl
  unfold inlineArms atNext
  rw [run_bind, run_look_bind]
  split
  · have hskip : AddsOnly accountLaw (·.isBlank = true) skipBlanks := inferInstance
    obtain ⟨blanks, hskips, hblanks⟩ := hskip.holds _ (harm.innermostInRow hs)
    obtain ⟨b, us, helse⟩ := adds_within .elseClause (shift >>= fun _ => inlineArm statement false)
      (skipBlanks.run ((inlineArm statement true).run s).2).2
    refine ⟨_, blanks ++ [_], hlist, fun n hn => ?_, harm.trans (hskips.1.trans helse)⟩
    rcases List.mem_append.mp hn with hn | hn
    · have hblank := hblanks n hn
      cases n with
      | leaf t =>
        change (t.kind == .trivia .newline) = false
        refine beq_eq_false_iff_ne.mpr fun hkind => ?_
        rw [Tree.isBlank, hkind] at hblank
        cases hblank
      | node k a cs => cases hblank
    · rw [List.mem_singleton.mp hn]
      cases us <;> rfl
  · exact ⟨_, [], hlist, by simp, harm⟩

/-- The arms of a single-line `If` do not reach the end of a regular text. -/
theorem inside_inlineArms {s t : State} (hs : s.stream.Sound) (hbreak : s.EndsInBreak)
    (ht : (ifHeader.run (s.opening .ifStatement)).2 = t) (hrecovering : t.recovering = false)
    (hinside : t.Inside) (hregular : ((singleLineIf statement).run t).2.closing.Regular) :
    ((inlineArms statement).run { t with lineMode := t.lineMode + 1 }).2.Inside := by
  intro hend
  have hrow := State.innermostInRow_opening s .ifStatement
  obtain ⟨header, hheader, -, hthen⟩ := holds_ifHeader hrow
  rw [ht] at hheader hthen
  obtain ⟨front, word, rfl, hword⟩ := hthen hrecovering
  have hrow' := hheader.1.innermostInRow hrow
  obtain ⟨list, more, hlist, hmore, harms⟩ :=
    adds_inlineArms statement (s := { t with lineMode := t.lineMode + 1 }) hrow'
  have hfinish : Obeys accountLaw finishStatement := inferInstance
  obtain ⟨ending, hending⟩ := hfinish.holds _ (harms.onOneLine.innermostInRow hrow')
  obtain ⟨n, hkind, hchildren, hnode⟩ := exists_isRegular_closing
    ((hheader.1.trans harms.onOneLine).trans hending.1) hregular
  generalize (inlineArms statement).run { t with lineMode := t.lineMode + 1 } = r at hend harms
  have hfollows : s.Follows t := by
    have hheader : Composed false ifHeader := inferInstance
    have hopening : s.Follows (s.opening .ifStatement) := .of_same rfl rfl rfl
    rw [← ht]
    exact hopening.trans (hheader.follows _)
  -- the last token in front of the end is a line break of the arms
  obtain ⟨u, hu, hnewline⟩ : ∃ u ∈ Tree.leavesAll (list :: more), u.kind = .trivia .newline := by
    have hrest : t.stream.rest = Tree.leavesAll (list :: more) ++ r.2.stream.rest := harms.rest
    have hlast : r.2.stream.rest.dropLast = [] := by
      have hsound : r.2.stream.Sound := fun v hv => hfollows.sound hs v (by
        rw [hrest, List.dropLast_append_of_ne_nil r.2.stream.rest_ne_nil]
        exact List.mem_append_right _ hv)
      have hremaining := hend.remaining_eq_zero hsound
      rw [TokenStream.remaining_eq, List.length_eq_zero_iff] at hremaining
      rw [TokenStream.rest, hremaining]
      rfl
    have hne : Tree.leavesAll (list :: more) ≠ [] := fun hnil => hinside (by
      rw [hnil, List.nil_append] at hrest
      rwa [State.AtEnd, TokenStream.current_eq_of_rest_eq hrest])
    refine ⟨_, List.getLast_mem hne, hfollows.endsInBreak hbreak _ ?_⟩
    rw [hrest, List.dropLast_append_of_ne_nil r.2.stream.rest_ne_nil, hlast, List.append_nil]
    exact List.getLast?_eq_some_getLast hne
  have hbreaks := hnode.onOneLine hkind
    ⟨front, word, list, more ++ ending, by rw [hchildren]; simp, hword, hlist⟩
  obtain ⟨c, hc, hbelow⟩ := Tree.mem_descendantsAll.mp (Tree.leaf_mem_of_mem_leavesAll hu)
  have hleaf : (Tree.leaf u).isNewline = true := beq_iff_eq.mpr hnewline
  rcases hbelow with rfl | hbelow
  · rcases List.mem_cons.mp hc with rfl | hc
    · cases hlist
    · exact Bool.false_ne_true ((hmore _ hc).symm.trans hleaf)
  · refine Bool.false_ne_true ((hbreaks c ?_ _ hbelow).symm.trans hleaf)
    rw [hchildren]
    exact List.mem_append_left _ (List.mem_append_right _ hc)

end

end Grammar

end LosslessBasic
