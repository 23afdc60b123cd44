import LosslessBasic.Proofs.Grammar.Designers

/-!
# Where a block is found open

A block is found open at the end of a text only where the text has ended
(`State.Accounts.atEnd_of_unclosed`): the token behind the block is the end marker, so no token is
left to be read. What obeys `quietLaw` finds no block open, wherever it ends; of the statements,
only those that hold others do not obey it.
-/

namespace LosslessBasic

namespace Tree

mutual

/-- The token behind a block in a tree is one of its tokens, or the one behind the tree. -/
theorem mem_leaves_of_mem_blocks {next : Token} {place : Tree × Block × Token} :
    ∀ {n : Tree}, place ∈ n.blocks next → place.2.2 ∈ n.leaves ∨ place.2.2 = next
  | leaf t, h => absurd h List.not_mem_nil
  | node k a cs, h => by
    rw [blocks] at h
    rcases List.mem_append.mp h with h | h
    · exact mem_leavesAll_of_mem_blocksAll h
    · obtain ⟨block, -, rfl⟩ := Option.map_eq_some_iff.mp (Option.mem_toList.mp h)
      exact .inr rfl

/-- The token behind a block in some trees is one of their tokens, or the one behind them. -/
theorem mem_leavesAll_of_mem_blocksAll {next : Token} {place : Tree × Block × Token} :
    ∀ {ns : List Tree}, place ∈ blocksAll next ns → place.2.2 ∈ leavesAll ns ∨ place.2.2 = next
  | [], h => absurd h List.not_mem_nil
  | n :: ns, h => by
    rw [blocksAll] at h
    rw [leavesAll]
    rcases List.mem_append.mp h with h | h
    · rcases mem_leaves_of_mem_blocks h with h | h
      · exact .inl (List.mem_append_left _ h)
      · cases hleaves : leavesAll ns with
        | nil => exact .inr (by rw [h, hleaves]; rfl)
        | cons u us =>
          exact .inl (List.mem_append_right _ (by rw [h, hleaves]; exact List.mem_cons_self))
    · exact (mem_leavesAll_of_mem_blocksAll h).imp_left (List.mem_append_right _)

end

end Tree

namespace Grammar

section

variable {s t : State} {trees : List Tree}

namespace State

theorem unclosed_iff : s.Unclosed ↔
    ∃ block, Failure.atToken (.missingCloser block s.stream.last) s.stream.last ∈ s.missing := by
  unfold Unclosed missing
  simp only [List.mem_filter]
  exact exists_congr fun block => ⟨fun h => ⟨h, rfl⟩, And.left⟩

theorem Adds.last_eq (h : s.Adds trees t) : t.stream.last = s.stream.last :=
  TokenStream.last_eq_of_suffix h.rest

/-- Where no further closer is missed, no further block is found open. -/
theorem Unclosed.of_missing_eq (h : t.Unclosed) (hadds : s.Adds trees t)
    (hmissing : t.missing = s.missing) :
    s.Unclosed := by
  rw [unclosed_iff, hadds.last_eq, hmissing] at h
  exact unclosed_iff.mpr h

/-- Where a block is found open at the end of the text, the text has ended. -/
theorem Accounts.atEnd_of_unclosed {accounts : List Account} (h : s.Accounts trees [] accounts t)
    (hadds : s.Adds trees t) (hs : s.stream.Sound) (hclosed : ¬ s.Unclosed)
    (hunclosed : t.Unclosed) :
    t.AtEnd := by
  obtain ⟨block, hblock⟩ := unclosed_iff.mp hunclosed
  rw [h.missing, List.append_nil] at hblock
  rcases List.mem_append.mp hblock with hblock | hblock
  · rw [hadds.last_eq] at hblock
    exact absurd (unclosed_iff.mpr ⟨block, hblock⟩) hclosed
  · obtain ⟨account, haccount, hfailure⟩ := List.mem_filterMap.mp hblock
    -- the token behind the block is the end marker
    have hnext : account.next = t.stream.last := by
      unfold Account.failure? at hfailure
      split at hfailure
      next =>
        obtain ⟨-, hnext⟩ := Problem.missingCloser.inj
          (congrArg Failure.problem (Option.some.inj hfailure))
        exact hnext
      next => cases hfailure
    have hkind : account.next.kind = .lexeme .endOfFile := by
      rw [hnext]
      exact t.stream.ends
    have hplace : account.place ∈ Tree.blocksAll t.stream.current trees := by
      rw [← h.places]
      exact List.mem_map_of_mem haccount
    rcases Tree.mem_leavesAll_of_mem_blocksAll hplace with hleaf | hcurrent
    · refine absurd hkind (hs _ ?_)
      rw [hadds.rest, List.dropLast_append_of_ne_nil t.stream.rest_ne_nil]
      exact List.mem_append_left _ hleaf
    · exact (congrArg Token.kind hcurrent).symm.trans hkind

end State

/-! ## What finds no block open -/

/-- No closer is reported as missing. -/
def quietLaw : Law where
  rel s _ t := t.missing = s.missing
  builder _ _ h := h
  silent {s t} _ hfailures _ _ _ _ _ := by rw [State.missing, State.missing, hfailures]
  shift _ := rfl
  report s problem t hproblem := by
    rw [State.missing_push (s := s) (f := .atToken problem t) rfl]
    cases problem <;> first | exact List.append_nil _ | cases hproblem
  trans _ _ h h' := h'.trans h
  node _ _ _ h := h
  access _ _ _ h := h

instance : Refers quietLaw := by
  refine .of_referToHeader (fun _ _ h => h) fun sign access s => ?_
  obtain ⟨hadds, accounts, haccounts, -⟩ := holds_referToHeader sign access s
  obtain rfl : accounts = [] := List.map_eq_nil_iff.mp haccounts.places
  exact ⟨hadds, haccounts.missing.trans (by simp)⟩

/-- What is quiet finds no block open. -/
theorem not_unclosed_of_quiet {α : Type} (p : Production α) [hp : Obeys quietLaw p]
    (hs : s.InnermostInRow)
    (hclosed : ¬ s.Unclosed) : ¬ (p.run s).2.Unclosed := by
  obtain ⟨trees, hadds, hmissing⟩ := hp.holds s hs
  exact fun hunclosed => hclosed (hunclosed.of_missing_eq hadds hmissing)

theorem Obeys.innermostInRow {L : Law} {α : Type} {p : Production α} (hp : Obeys L p)
    (hs : s.InnermostInRow) : (p.run s).2.InnermostInRow := by
  obtain ⟨trees, hadds, -⟩ := hp.holds s hs
  exact hadds.innermostInRow hs

/-- A statement that finds a block open has come to the end of the text. -/
theorem atEnd_of_unclosed {α : Type} (p : Production α) [hp : Obeys accountLaw p]
    (hs : s.InnermostInRow)
    (hsound : s.stream.Sound) (hclosed : ¬ s.Unclosed) (hunclosed : (p.run s).2.Unclosed) :
    (p.run s).2.AtEnd := by
  obtain ⟨trees, hadds, accounts, haccounts, -⟩ := hp.holds s hs
  exact haccounts.atEnd_of_unclosed hadds hsound hclosed hunclosed

end

end Grammar

end LosslessBasic
