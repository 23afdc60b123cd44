import LosslessBasic.Proofs.Grammar.Alike
import LosslessBasic.Proofs.Grammar.WellFounded

/-!
# Going on alike in loops

Two loops go on alike when their passes do, although one may make more passes than the other: the
number of passes that a loop may make at most does not matter (`EndsByItself`). Loops that move
blanks one at a time need their passes to go on alike only where no blank stands at the cursor, as
they might as well move all blanks first (`run_iterate_blanks`).
-/

namespace LosslessBasic.Grammar

variable {V : View} {α β : Type}

/-! ## Blanks -/

/-- All blanks at the cursor are moved, and those that are not overlooked look the same. -/
theorem leads_skipBlanks {ts ts' : List Token} (h : V.SameTokens ts ts') {s s' : State}
    (hts : s.stream.rest = ts) (hts' : s'.stream.rest = ts') (hs : SameState V s s') :
    Leads V s s' (skipBlanks.run s) (skipBlanks.run s') := by
  -- by induction on how the tokens look the same
  induction h generalizing s s' with
  | nil => exact absurd hts (List.cons_ne_nil _ _)
  | @cons t t' ts ts' hlike hmore ih =>
    obtain rfl : s.stream.current = t := TokenStream.current_of_rest hts
    obtain rfl : s'.stream.current = t' := TokenStream.current_of_rest hts'
    cases hblank : s.stream.current.kind.isInlineTrivia with
    | true =>
      have hblank' := hlike.isInlineTrivia_eq.symm.trans hblank
      have hend := not_atEnd_of_blank hblank
      have hend' := not_atEnd_of_blank hblank'
      have hrest : s.shifted.stream.rest = ts :=
        (List.cons.inj
          ((TokenStream.rest_advance (TokenStream.ahead_ne_nil hend)).symm.trans hts)).2
      have hrest' : s'.shifted.stream.rest = ts' :=
        (List.cons.inj
          ((TokenStream.rest_advance (TokenStream.ahead_ne_nil hend')).symm.trans hts')).2
      obtain ⟨hadds, hstate⟩ := hs.shifted hend hend' hlike (by rwa [hrest, hrest'])
      rw [run_skipBlanks_of_blank hblank, run_skipBlanks_of_blank hblank']
      exact .trans hadds (ih hrest hrest' hstate)
    | false =>
      have hsolid' := hlike.isInlineTrivia_eq.symm.trans hblank
      rw [run_skipBlanks_of_significant hblank, run_skipBlanks_of_significant hsolid']
      exact hs.leads rfl
  | @more b b' ts ts' hb hb' hmore ih =>
    obtain rfl : s'.stream.current = b := TokenStream.current_of_rest hts'
    have hblank' := V.isInlineTrivia_of_none hb
    have hend' := not_atEnd_of_blank hblank'
    have hrest' : s'.shifted.stream.rest = b' :: ts' :=
      (List.cons.inj
        ((TokenStream.rest_advance (TokenStream.ahead_ne_nil hend')).symm.trans hts')).2
    obtain ⟨hadds, hstate⟩ := hs.shifted_right hend' hb (by rwa [hts, hrest'])
    rw [run_skipBlanks_of_blank hblank']
    exact .trans hadds (ih hts hrest' hstate)

section

variable {cp cp' : Checkpoint} [Observed β]

/-- Behind blanks there is none at the cursor. -/
theorem Alike.of_skipBlanks {f g : Unit → Production β} (hf : ∀ u, Alike V true (f u) (g u)) :
    Alike V false (skipBlanks >>= f) (skipBlanks >>= g) where
  leads {s s'} hs _ := by
    have h := leads_skipBlanks hs.tokens rfl rfl hs
    exact .trans h.adds ((hf _).leads h.state fun _ => isInlineTrivia_skipBlanks s)

instance {f g : Unit → Production β} [hf : ∀ u, Alike V true (f u) (g u)] :
    Alike V false (skipBlanks >>= f) (skipBlanks >>= g) :=
  .of_skipBlanks hf

instance : Alike V false shiftNext shiftNext := by unfold shiftNext; infer_instance

end

/-! ## Passes -/

section

variable {exhausted exhausted' : α → β} {pass pass' : α → Production (Pass α β)}

/-- What two loops lead to whose passes are matched one by one. -/
theorem iterate_relates [hpass : ∀ a, Progresses (pass a)] [hpass' : ∀ a, Progresses (pass' a)]
    {R : α × State → α × State → Prop} {Q : β × State → β × State → Prop}
    (hstep : ∀ a a' s s', R (a, s) (a', s') →
      (∃ b b', ((pass a).run s).1 = .again b ∧ ((pass' a').run s').1 = .again b' ∧
        R (b, ((pass a).run s).2) (b', ((pass' a').run s').2)) ∨
      ∃ c c', ((pass a).run s).1 = .done c ∧ ((pass' a').run s').1 = .done c' ∧
        Q (c, ((pass a).run s).2) (c', ((pass' a').run s').2))
    {a a' : α} {s s' : State} (h : R (a, s) (a', s')) :
    Q ((iterate exhausted pass a).run s) ((iterate exhausted' pass' a').run s') := by
  generalize hn : s.stream.remaining = n
  induction n using Nat.strongRecOn generalizing a a' s s' with
  | ind n ih =>
    rcases hstep a a' s s' h with ⟨b, b', hb, hb', hnext⟩ | ⟨c, c', hc, hc', hdone⟩
    · have hlt := (hpass a).remaining_lt s b hb
      rw [run_iterate_of_again hb, run_iterate_of_again hb']
      exact ih _ (hn ▸ hlt) hnext rfl
    · rw [run_iterate_of_done hc, run_iterate_of_done hc']
      exact hdone

variable [Observed α] [Observed β]

/-- What a pass says, seen. -/
theorem again_or_done_of_same {r r' : Pass α β} (h : Observed.same V r r') :
    (∃ a a', r = .again a ∧ r' = .again a' ∧ Observed.same V a a') ∨
      ∃ b b', r = .done b ∧ r' = .done b' ∧ Observed.same V b b' := by
  match r, r', h with
  | .again a, .again a', h => exact .inl ⟨a, a', rfl, rfl, h⟩
  | .done b, .done b', h => exact .inr ⟨b, b', rfl, rfl, h⟩

/-- Loops go on alike when their passes do. -/
theorem Alike.of_passes {onSolid : Bool} (hpass : ∀ a, Progresses (pass a))
    (hpass' : ∀ a, Progresses (pass' a))
    (h : ∀ a a', Observed.same V a a' → Alike V false (pass a) (pass' a')) {a a' : α}
    (ha : Observed.same V a a') :
    Alike V onSolid (iterate exhausted pass a) (iterate exhausted' pass' a') where
  leads {s s'} hs _ := by
    refine iterate_relates (R := fun r r' => Leads V s s' r r') (Q := fun r r' => Leads V s s' r r')
      (fun b b' t t' ht => ?_) (hs.leads ha)
    have hleads := (h b b' ht.result).leads ht.state fun hsolid => absurd hsolid Bool.false_ne_true
    rcases again_or_done_of_same hleads.result with ⟨c, c', hc, hc', hsame⟩ |
      ⟨c, c', hc, hc', hsame⟩
    · exact .inl ⟨c, c', hc, hc', ht.adds.trans hleads.adds, hleads.state, hsame⟩
    · exact .inr ⟨c, c', hc, hc', ht.adds.trans hleads.adds, hleads.state, hsame⟩

instance {onSolid : Bool} [hpass : ∀ a, Progresses (pass a)] [hpass' : ∀ a, Progresses (pass' a)]
    {a a' : α} [ha : Same V a a']
    [h : ∀ x : Twins V α, Alike V false (pass x.left) (pass' x.right)] :
    Alike V onSolid (iterate exhausted pass a) (iterate exhausted' pass' a') :=
  .of_passes hpass hpass' (fun a a' ha => h ⟨a, a', ha⟩) ha.same

instance {onSolid : Bool} {cp cp' : Checkpoint} [∀ a, Progresses (pass a)]
    [∀ a, Progresses (pass' a)] {a a' : α} [ha : Same V a a']
    [h : ∀ x : Twins V α, AlikeFrom V false cp cp' (pass x.left) (pass' x.right)] :
    AlikeFrom V onSolid cp cp' (iterate exhausted pass a) (iterate exhausted' pass' a') where
  leads {s s' t t'} hcp hcp' hs hs' hadds ht _ := by
    refine iterate_relates (R := fun r r' => Leads V s s' r r') (Q := fun r r' => Leads V s s' r r')
      (fun b b' u u' hu => ?_) ⟨hadds, ht, ha.same⟩
    have hleads := (h ⟨b, b', hu.result⟩).leads hcp hcp' hs hs' hu.adds hu.state nofun
    rcases again_or_done_of_same hleads.result with ⟨c, c', hc, hc', hsame⟩ |
      ⟨c, c', hc, hc', hsame⟩
    · exact .inl ⟨c, c', hc, hc', hleads.adds, hleads.state, hsame⟩
    · exact .inr ⟨c, c', hc, hc', hleads.adds, hleads.state, hsame⟩

end

/-! ## Passes that move blanks -/

/-- A pass that moves a blank at the cursor and does nothing else then. -/
class MovesBlank (pass : α → Production (Pass α β)) : Prop where
  run_eq (a : α) (s : State) : s.stream.current.kind.isInlineTrivia = true →
    (pass a).run s = (.again a, s.shifted)

section

variable {exhausted : α → β} {pass : α → Production (Pass α β)} [hpass : ∀ a, Progresses (pass a)]
  [hblank : MovesBlank pass]

omit hblank in
theorem progresses_skipBlanks (a : α) : Progresses (skipBlanks >>= fun _ => pass a) := inferInstance

theorem remaining_skipBlanks_le (s : State) :
    (skipBlanks.run s).2.stream.remaining ≤ s.stream.remaining := by
  have hskip : Composed false skipBlanks := inferInstance
  exact (hskip.follows s).remaining_le

/-- A loop that moves blanks might as well find them moved. -/
theorem run_iterate_skipBlanks (a : α) (s : State) :
    (iterate exhausted pass a).run s = (iterate exhausted pass a).run (skipBlanks.run s).2 := by
  refine skipBlanks_induction
    (R := fun s t => (iterate exhausted pass a).run s = (iterate exhausted pass a).run t)
    (fun _ _ => rfl) (fun s t hcurrent h => ?_) s
  have hrun := hblank.run_eq a s hcurrent
  have hagain : ((pass a).run s).1 = .again a := by rw [hrun]
  rw [run_iterate_of_again hagain, hrun]
  exact h

/-- A loop that moves blanks one at a time might as well move all of them in front of every pass. -/
theorem run_iterate_blanks (a : α) (s : State) :
    (iterate exhausted pass a).run s =
      (iterate exhausted (fun a => skipBlanks >>= fun _ => pass a) a).run s := by
  have hskipping : ∀ a, Progresses (skipBlanks >>= fun _ => pass a) := progresses_skipBlanks
  let skipping (a : α) := skipBlanks >>= fun _ => pass a
  generalize hn : s.stream.remaining = n
  induction n using Nat.strongRecOn generalizing a s with
  | ind n ih =>
    rw [run_iterate_skipBlanks]
    have hle := remaining_skipBlanks_le s
    cases hresult : ((pass a).run (skipBlanks.run s).2).1 with
    | again b =>
      have hlt := (hpass a).remaining_lt _ b hresult
      rw [run_iterate_of_again hresult,
        run_iterate_of_again (show ((skipping a).run s).1 = .again b from hresult)]
      exact ih _ (hn ▸ Nat.lt_of_lt_of_le hlt hle) _ _ rfl
    | done b =>
      rw [run_iterate_of_done hresult,
        run_iterate_of_done (show ((skipping a).run s).1 = .done b from hresult)]
      rfl

end

section

variable {exhausted exhausted' : α → β} {pass pass' : α → Production (Pass α β)} [Observed α]
  [Observed β]

/-- Loops that move blanks need to go on alike only away from blanks. -/
theorem Alike.of_movesBlank {onSolid : Bool} [hpass : ∀ a, Progresses (pass a)]
    [hpass' : ∀ a, Progresses (pass' a)] [MovesBlank pass] [MovesBlank pass']
    (h : ∀ a a', Observed.same V a a' → Alike V true (pass a) (pass' a')) {a a' : α}
    (ha : Observed.same V a a') :
    Alike V onSolid (iterate exhausted pass a) (iterate exhausted' pass' a') := by
  have hloop : Alike V onSolid
      (iterate exhausted (fun a => skipBlanks >>= fun _ => pass a) a)
      (iterate exhausted' (fun a => skipBlanks >>= fun _ => pass' a) a') :=
    .of_passes progresses_skipBlanks progresses_skipBlanks (fun a a' ha => .of_skipBlanks fun _ =>
      h a a' ha) ha
  refine ⟨fun {s s'} hs hsolid => ?_⟩
  rw [run_iterate_blanks a s, run_iterate_blanks a' s']
  exact hloop.leads hs hsolid

end

/-! ## Repetitions -/

section

variable {test : Production Bool} {body body' : Production Unit}

/-- A repetition of a body that goes on alike where the test holds. -/
theorem Alike.of_body {onSolid : Bool} [hguards : Guards test] [hbody : Advances body]
    [hbody' : Advances body'] [htest : Alike V false test test]
    (h : ∀ s s', SameState V s s' → (test.run s).1 = true →
      Leads V s s' (body.run s) (body'.run s')) :
    Alike V onSolid (repeatWhile test body) (repeatWhile test body') := by
  have hloop {s s' : State} (hs : SameState V s s') :
      Leads V s s' ((repeatWhile test body).run s)
        ((repeatWhile test body').run s') := by
    generalize hn : s.stream.remaining = n
    induction n using Nat.strongRecOn generalizing s s' with
    | ind n ih =>
      have heq : (test.run s).1 = (test.run s').1 := Plain.eq_of_same (htest.leads hs nofun).result
      cases hholds : (test.run s).1 with
      | true =>
        have hleads := h s s' hs hholds
        have hlt := hbody.remaining_lt s (hguards.not_atEnd hholds)
        rw [run_repeatWhile_of_true hholds, run_repeatWhile_of_true (heq.symm.trans hholds)]
        exact .trans hleads.adds (ih _ (hn ▸ hlt) hleads.state rfl)
      | false =>
        have hrun : test.run s = (false, s) := by rw [hguards.run_eq, hholds]
        have hrun' : test.run s' = (false, s') := by rw [hguards.run_eq, ← heq, hholds]
        rw [run_repeatWhile_of_false hrun, run_repeatWhile_of_false hrun']
        exact hs.leads rfl
  exact ⟨fun hs _ => hloop hs⟩

instance {onSolid : Bool} [Guards test] [Advances body] [Advances body'] [Alike V false test test]
    [h : Alike V false body body'] :
    Alike V onSolid (repeatWhile test body) (repeatWhile test body') :=
  .of_body fun _ _ hs _ => h.leads hs nofun

end

end LosslessBasic.Grammar
