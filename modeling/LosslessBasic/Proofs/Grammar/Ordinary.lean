import LosslessBasic.Proofs.Grammar.Operands

/-!
# What holds no block

The parts of declarations and of headers, and the statements that hold no other statements: whatever
a law says, they obey it (`Obeys`), because they put only ordinary nodes around tokens and report
only ordinary problems.
-/

namespace LosslessBasic.Grammar

set_option synthInstance.maxSize 65536

variable {L : Law}

instance {c : Prop} [Decidable c] {k l : NodeKind} [hk : IsTrue k.isOrdinary]
    [hl : IsTrue l.isOrdinary] : IsTrue (if c then k else l).isOrdinary := by
  split <;> assumption

/-! ## Parts of declarations -/

instance : Obeys L shiftModifiers := by unfold shiftModifiers; infer_instance

instance : Obeys L shiftDeclarator := by unfold shiftDeclarator; infer_instance

section

variable [hrefers : Refers L]

instance (item : Production Unit) [Obeys L item] (u : Unit) : Obeys L (groupPass item u) := by
  unfold groupPass
  infer_instance

instance (k : NodeKind) [IsTrue k.isOrdinary] (item : Production Unit) [Obeys L item] :
    Obeys L (group k item) := by
  unfold group
  infer_instance

instance : Obeys L arrayBound := by unfold arrayBound; infer_instance

instance : Obeys L arrayBounds := by unfold arrayBounds; infer_instance

instance : Obeys L asClause := by unfold asClause; infer_instance

instance : Obeys L optionalAsClause := by unfold optionalAsClause; infer_instance

instance : Obeys L optionalArrayBounds := by unfold optionalArrayBounds; infer_instance

instance (value : Production Unit) [Obeys L value] : Obeys L (declaration value) := by
  unfold declaration
  infer_instance

instance : Obeys L variableDeclaration := by unfold variableDeclaration; infer_instance

instance : Obeys L constantDeclaration := by unfold constantDeclaration; infer_instance

instance : Obeys L parameter := by unfold parameter; infer_instance

instance : Obeys L optionalParameterList := by unfold optionalParameterList; infer_instance

/-! ## Declarations -/

instance : Obeys L dimStatement := by unfold dimStatement; infer_instance

instance : Obeys L constStatement := by unfold constStatement; infer_instance

instance : Obeys L reDimStatement := by unfold reDimStatement; infer_instance

instance : Obeys L eraseStatement := by unfold eraseStatement; infer_instance

instance : Obeys L externalSignature := by unfold externalSignature; infer_instance

instance : Obeys L declareStatement := by unfold declareStatement; infer_instance

instance : Obeys L eventStatement := by unfold eventStatement; infer_instance

instance : Obeys L implementsStatement := by unfold implementsStatement; infer_instance

instance : Obeys L atProcedureHeader := by unfold atProcedureHeader; infer_instance

instance (k : NodeKind) [IsTrue k.isOrdinary] (details : Production Unit) [Obeys L details] :
    Obeys L (member k details) := by
  unfold member
  infer_instance

instance : Obeys L typeMember := by unfold typeMember; infer_instance

instance : Obeys L enumMember := by unfold enumMember; infer_instance

instance : Obeys L closeBlock := by unfold closeBlock; infer_instance

instance (closer : Keyword) : Obeys L (atCloser closer) := by unfold atCloser; infer_instance

instance (item : Production Unit) [Obeys L item] : Obeys L (memberOrToken item) := by
  unfold memberOrToken
  infer_instance

/-! ## Simple statements -/

instance (k : NodeKind) [IsTrue k.isOrdinary] : Obeys L (rawStatement k) := by
  unfold rawStatement
  infer_instance

instance : Obeys L assignment := by unfold assignment; infer_instance

instance : Obeys L assignmentStatement := by unfold assignmentStatement; infer_instance

instance (k : NodeKind) [IsTrue k.isOrdinary] : Obeys L (wordedAssignment k) := by
  unfold wordedAssignment
  infer_instance

instance : Obeys L call := by unfold call; infer_instance

instance : Obeys L callStatement := by unfold callStatement; infer_instance

instance : Obeys L callKeywordStatement := by unfold callKeywordStatement; infer_instance

instance : Obeys L raiseEventStatement := by unfold raiseEventStatement; infer_instance

instance (k : NodeKind) [IsTrue k.isOrdinary] : Obeys L (wordStatement k) := by
  unfold wordStatement
  infer_instance

instance : Obeys L label := by unfold label; infer_instance

instance (k : NodeKind) [IsTrue k.isOrdinary] : Obeys L (jumpStatement k) := by
  unfold jumpStatement
  infer_instance

instance : Obeys L resumeStatement := by unfold resumeStatement; infer_instance

instance : Obeys L exitTarget := by unfold exitTarget; infer_instance

instance : Obeys L exitStatement := by unfold exitStatement; infer_instance

instance : Obeys L onErrorStatement := by unfold onErrorStatement; infer_instance

instance : Obeys L onJumpStatement := by unfold onJumpStatement; infer_instance

instance : Obeys L onStatement := by unfold onStatement; infer_instance

instance : Obeys L lineStatement := by unfold lineStatement; infer_instance

instance : Obeys L atLabel :=
  .of_silent fun s => by
    unfold atLabel
    rw [run_bind, run_get]
    split <;> exact ⟨rfl, rfl, rfl, rfl, rfl, rfl, rfl, rfl⟩

instance : Obeys L labelStatement := by unfold labelStatement; infer_instance

instance : Obeys L unknownStatement := by unfold unknownStatement; infer_instance

instance : Obeys L unexpectedStatement := by unfold unexpectedStatement; infer_instance

/-! ## Between statements -/

instance : Obeys L separator := by unfold separator; infer_instance

instance : Obeys L shiftTrivia := by unfold shiftTrivia; infer_instance

instance : Obeys L nextCloser? := by unfold nextCloser?; infer_instance

instance : Obeys L writtenCloser := by unfold writtenCloser; infer_instance

instance (closer : Closer) : Obeys L (strayCloser closer) := by unfold strayCloser; infer_instance

instance (stop : Stop) : Obeys L (blockEnd stop) := by unfold blockEnd; infer_instance

instance : Obeys L secondElse := by unfold secondElse; infer_instance

/-! ## Parts of statements with bodies -/

instance : Obeys L ifHeader := by unfold ifHeader; infer_instance

instance : Obeys L lineNumberJump := by unfold lineNumberJump; infer_instance

instance : Obeys L atElse := by unfold atElse; infer_instance

instance : Obeys L forEachHeader := by unfold forEachHeader; infer_instance

instance : Obeys L forHeader := by unfold forHeader; infer_instance

instance : Obeys L openLoops := by unfold openLoops; infer_instance

instance (closed : Nat) : Obeys L (nextVariablePass closed) := by
  unfold nextVariablePass
  infer_instance

instance : Obeys L atLoopCondition := by unfold atLoopCondition; infer_instance

instance : Obeys L optionalLoopCondition := by unfold optionalLoopCondition; infer_instance

instance : Obeys L comparison := by unfold comparison; infer_instance

instance : Obeys L comparisonTest := by unfold comparisonTest; infer_instance

instance : Obeys L valueTest := by unfold valueTest; infer_instance

instance : Obeys L caseTest := by unfold caseTest; infer_instance

instance : Obeys L atCaseElse := by unfold atCaseElse; infer_instance

instance : Obeys L strayCaseLine := by unfold strayCaseLine; infer_instance

instance : Obeys L accessor := by unfold accessor; infer_instance

instance : Obeys L signature := by unfold signature; infer_instance

instance (block : Block) : Obeys L (atDesignerEnd block) := by unfold atDesignerEnd; infer_instance

instance : Obeys L designerBlock? := by unfold designerBlock?; infer_instance

instance : Obeys L propertyAssignment := by unfold propertyAssignment; infer_instance

theorem isOrdinary_of_rawKind? {keyword : Keyword} {k : NodeKind} (h : rawKind? keyword = some k) :
    k.isOrdinary = true := by
  cases keyword <;> cases h <;> rfl

omit hrefers in
theorem Obeys.of_replacement? {s : TokenStream} {p : Production Unit}
    (h : replacement? s = some p) :
    Obeys L p := by
  unfold replacement? at h
  split_ifs at h <;> cases h <;> infer_instance

instance : Obeys L plainStatement := by
  have hrest (s : State) : Obeys L
      (match replacement? s.stream with
        | some production => production
        | none =>
          if Lookahead.startsAssignment s.stream then assignmentStatement
          else if s.stream.current.kind.isNameLike ||
            Lookahead.isAccessSign s.stream.current.kind then
            callStatement
          else unexpectedStatement) := by
    cases h : replacement? s.stream with
    | some production => exact .of_replacement? h
    | none => dsimp only; infer_instance
  unfold plainStatement
  dsimp only
  infer_instance

/-! ## Statements -/

omit hrefers in
/-- A designer block that is opened by its word obeys a law. -/
class Begins (L : Law) : Prop where
  holds (s : State) : s.InnermostInRow → s.stream.current.kind = .keyword .begin →
    ∃ trees, L.Holds s trees (designerStatement.run s).2

instance [h : Obeys L designerStatement] : Begins L := ⟨fun s hs _ => h.holds s hs⟩

section

variable {statement : Production Unit} [Obeys L (ifStatement statement)]
  [Obeys L (selectStatement statement)] [Obeys L (forStatement statement)]
  [Obeys L (doStatement statement)] [Obeys L (whileStatement statement)]
  [Obeys L (withStatement statement)] [Obeys L (procedure statement)] [Obeys L typeStatement]
  [Obeys L enumStatement] [hdesigner : Begins L]

instance : Obeys L (modifiedStatement statement) := by
  have hrest (k : Kind) : Obeys L (match k with
      | .keyword .sub | .keyword .function | .keyword .property => procedure statement
      | .keyword .const => constStatement
      | .keyword .type => typeStatement
      | .keyword .enum => enumStatement
      | .keyword .declare => declareStatement
      | .keyword .event => eventStatement
      | _ => dimStatement) := by
    split <;> infer_instance
  unfold modifiedStatement
  infer_instance

/-- What a keyword opens obeys a law where this keyword stands. -/
theorem holds_keywordStatement? {keyword : Keyword} {p : Production Unit}
    (h : keywordStatement? statement keyword = some p) {s : State} (hs : s.InnermostInRow)
    (hkeyword : s.stream.current.kind = .keyword keyword) :
    ∃ trees, L.Holds s trees (p.run s).2 := by
  unfold keywordStatement? at h
  split at h
  all_goals first
    | obtain rfl := Option.some.inj h
      exact Obeys.holds s hs
    | obtain rfl := Option.some.inj h
      exact hdesigner.holds s hs hkeyword
    | obtain ⟨k, hk, rfl⟩ := Option.map_eq_some_iff.mp h
      have : IsTrue k.isOrdinary := ⟨isOrdinary_of_rawKind? hk⟩
      exact Obeys.holds s hs

theorem holds_openedStatement? {s : State} {p : Production Unit}
    (h : openedStatement? statement s.stream = some p) (hs : s.InnermostInRow) :
    ∃ trees, L.Holds s trees (p.run s).2 := by
  obtain ⟨keyword, hkeyword, -, h⟩ := exists_keyword_of_openedStatement? h
  exact holds_keywordStatement? h hs hkeyword

/-- A statement obeys a law when the blocks that it can open do. -/
instance Obeys.statementAtCursor : Obeys L (statementAtCursor statement) := by
  have hopened : Obeys L
      (look (openedStatement? statement) >>= fun p? => p?.getD plainStatement) := by
    refine ⟨fun s hs => ?_⟩
    rw [run_look_bind]
    cases h : openedStatement? statement s.stream with
    | some p => exact holds_openedStatement? h hs
    | none =>
      have hplain : Obeys L plainStatement := inferInstance
      exact hplain.holds s hs
  unfold Grammar.statementAtCursor
  infer_instance

instance Obeys.statementWith : Obeys L (statementWith statement) := by
  unfold Grammar.statementWith
  infer_instance

end

end

end LosslessBasic.Grammar
