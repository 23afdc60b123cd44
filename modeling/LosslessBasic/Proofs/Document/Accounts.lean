import LosslessBasic.Proofs.Document
import LosslessBasic.Proofs.Grammar.Designers

/-!
# Every block of a document is accounted for

A block of the tree of a source has its own closer among the children of its node, or it is a loop
that a `Next` further in has closed, or its closer is missing; a single-line `If` asks for no
closer. The failures that report missing closers are those of the blocks of the third sort, one for
each, in the order in which the blocks end (`Document.blocks_accounted`).
-/

namespace LosslessBasic

namespace Grammar

/-- When a source has been read, its blocks are accounted for. -/
theorem accounts_final (stream : TokenStream) :
    let final := State.final stream
    ∃ accounts, accounts.map Account.place =
        Tree.blocksAll final.stream.current final.builder.pending.toList ∧
      (∀ a ∈ accounts, a.IsSound) ∧ final.missing = accounts.filterMap Account.failure? ∧
        closedByNext accounts ≤ Tree.furtherVariablesAll final.builder.pending.toList := by
  intro final
  obtain ⟨trees, h⟩ := ends_statements (statementUpTo (stream.remaining + 1))
    (State.innermostInRow_opening { stream := stream } .root)
  obtain ⟨accounts, haccounts, hcounts⟩ := h.accounted
  -- nothing is around the source, so that its end reports nothing
  have hnone : (State.opening { stream := stream } .root).missing = [] := rfl
  have hreports (stop : Stop) (t : Token) : stop.reports none t = [] := by
    unfold Stop.reports
    split <;> rfl
  have hpending : final.builder.pending.toList = trees := h.adds.pending
  have hmissing := haccounts.missing
  change State.missing final = _ ++ _ ++ Stop.reports _ none _ at hmissing
  rw [hnone, hreports, List.append_nil, List.nil_append] at hmissing
  rw [hpending]
  refine ⟨accounts, haccounts.places, haccounts.sound, hmissing, ?_⟩
  change final.pendingNext + closedByNext accounts + _ ≤
    0 + Tree.furtherVariablesAll trees at hcounts
  omega

end Grammar

namespace Document

open Grammar

/-- The failures of tokens say nothing of closers. -/
theorem isMissingCloser_of_mem_failures {tokens : List Token} {f : Failure}
    (h : f ∈ Lexer.failures tokens) : f.isMissingCloser = false := by
  obtain ⟨t, -, ht⟩ := List.mem_filterMap.mp h
  obtain ⟨problem, hproblem, rfl⟩ := Option.map_eq_some_iff.mp ht
  unfold Lexer.problem? at hproblem
  split at hproblem
  all_goals cases hproblem
  all_goals rfl

/-- As many failures are reported as there are blocks without the closer that they ask for. -/
theorem length_filterMap_failure? (accounts : List Account) :
    (accounts.filterMap Account.failure?).length = accounts.countP fun a => a.ending =
      .missing := by
  induction accounts with
  | nil => rfl
  | cons a accounts ih =>
    rw [List.countP_cons, ← ih]
    by_cases hmissing : a.ending = .missing
    · have hfailure : a.failure? = some _ := if_pos hmissing
      rw [List.filterMap_cons_some hfailure, List.length_cons]
      simp [hmissing]
    · have hfailure : a.failure? = none := if_neg hmissing
      rw [List.filterMap_cons_none hfailure]
      simp [hmissing]

/-- Every block of the tree of a source is accounted for once, in the order in which the blocks end:
by its closer, by a `Next` further in, by the line of a single-line `If`, or by one failure that
says that its closer is missing at the token behind it. No other failure says so. A `Next` closes no
more further loops than it lists further variables. The body of a block ends where its closer comes
next, or where a `Next` further in has closed the loop, or with the report. -/
theorem blocks_accounted (origin source : Bytes) (file : UInt32)
    (hvalid : Utf8.firstInvalid? source = none) :
    ∃ d marker accounts, (read origin source file).document? = some d ∧
      (Lexer.tokens source file).getLast? = some marker ∧
      accounts.map Account.place = d.root.blocks marker ∧
      (∀ a ∈ accounts, a.IsSound) ∧
      (read origin source file).failures.filter Failure.isMissingCloser =
        accounts.filterMap Account.failure? ∧
      (read origin source file).failures.countP Failure.isMissingCloser =
        accounts.countP (fun a => a.ending = .missing) ∧
      closedByNext accounts ≤ d.root.furtherVariables ∧
      ∀ depth block s, s.InnermostInRow →
        ∃ body, body.isStatementList = true ∧
          State.Ends (some block) ((blockBody (statementUpTo depth) block).run s).1 s [body]
            ((blockBody (statementUpTo depth) block).run s).2 := by
  obtain ⟨q, htokens⟩ := tokens_eq_append_leaves source file
  obtain ⟨accounts, hplaces, hsound, hmissing, hcounts⟩ :=
    accounts_final (.ofTokens (Lexer.tokens source file))
  have hleaves : Lexer.tokens source file = _ ++ _ :=
    (rest_ofTokens_tokens source file).symm.trans (leaves_final _)
  have hfailures : (read origin source file).failures =
      Lexer.failures (Lexer.tokens source file) ++
        (State.final (.ofTokens (Lexer.tokens source file))).failures.toList := by
    rw [read, hvalid]
    rfl
  -- the lexer reports no missing closer, so all of them are reports of the grammar
  have hfilter : (read origin source file).failures.filter Failure.isMissingCloser =
      accounts.filterMap Account.failure? := by
    have hlexer : (Lexer.failures (Lexer.tokens source file)).filter Failure.isMissingCloser = [] :=
      List.filter_eq_nil_iff.mpr fun f hf => by simp [isMissingCloser_of_mem_failures hf]
    rw [hfailures, List.filter_append, hlexer, List.nil_append]
    exact hmissing
  refine ⟨_, Lexer.endMarkerAt file q, accounts, by rw [read, hvalid, document?_readText], ?_, ?_,
    hsound, hfilter, ?_, ?_, fun depth block s hs => ends_blockBody _ block hs⟩
  · rw [htokens]
    exact List.getLast?_concat
  · -- behind the source only the end marker is left
    have hrest := List.append_cancel_left (hleaves.symm.trans htokens)
    have hcurrent : (State.final (.ofTokens (Lexer.tokens source file))).stream.current =
        Lexer.endMarkerAt file q := Option.some.inj (congrArg List.head? hrest)
    rw [hplaces, hcurrent, Tree.blocks_above]
    have hroot (a : Anchor) (ts : List Tree) : (Tree.above (.node .root) a ts).block? = none := by
      cases ts <;> rfl
    rw [hroot]
    exact (List.append_nil _).symm
  · rw [List.countP_eq_length_filter, hfilter]
    exact length_filterMap_failure? accounts
  · rw [Tree.furtherVariables_above]
    exact Nat.le_add_right_of_le hcounts

/-- A `Next` closes two loops, and an `If` without its closer stands in a loop that has one. -/
theorem blocks_accounted_next_of_two :
    ∃ (d : Document) (marker : Token) (accounts : List Account), (read [] (Bytes.ofString
        "For i = 1 To 2\nFor j = 1 To 2\nNext j, i\nDo\nIf a Then\nLoop") 0).document? = some d ∧
      accounts.map Account.place = d.root.blocks marker ∧ (∀ a ∈ accounts, a.IsSound) ∧
      accounts.map Account.block = [.for_, .for_, .if_, .do_] ∧
      accounts.countP (fun a => a.ending = .missing) = 1 := by
  generalize hsource : Bytes.ofString
    "For i = 1 To 2\nFor j = 1 To 2\nNext j, i\nDo\nIf a Then\nLoop" = source
  have hvalid : Utf8.firstInvalid? source = none := by rw [← hsource]; decide +kernel
  have hcount : (read [] source 0).failures.countP Failure.isMissingCloser = 1 := by
    rw [← hsource]
    decide +kernel
  have hblocks : ((read [] source 0).document?.bind fun d =>
      (Lexer.tokens source 0).getLast?.map fun marker => (d.root.blocks marker).map (·.2.1)) =
      some [Block.for_, .for_, .if_, .do_] := by
    rw [← hsource]
    decide +kernel
  obtain ⟨d, marker, accounts, hd, hmarker, hplaces, hsound, -, hmissing, -⟩ :=
    blocks_accounted [] source 0 hvalid
  rw [hd, Option.bind_some, hmarker, Option.map_some, ← hplaces, List.map_map] at hblocks
  exact ⟨d, marker, accounts, hd, hplaces, hsound, Option.some.inj hblocks,
    hmissing.symm.trans hcount⟩

end Document

end LosslessBasic
