import LosslessBasic.Command.Run
import LosslessBasic.Proofs.Command.Argument
import Mathlib.Data.List.Induction

/-!
# What a command line comes to

The arguments are taken one by one, and the first one that ends the command decides how it ends
(`Configuration.EndsAt`). As long as there is none, what the arguments ask for is known without
taking them one by one (`Draft.asked`): a flag or an option stands for all earlier ones of its sort.

## Main definitions

* `Configuration.AskedBy`: the configuration that some arguments ask for.

## Main results

* `Configuration.ofArguments_exact`: which configuration, or which end of the command, some
  arguments come to.
-/

namespace LosslessBasic

open Argument

/-! ## Ends of a command -/

namespace Configuration

/-- Whether a command ends with an argument that comes behind some others: it asks something of the
tool, it is not acceptable, or it is a second source file. -/
def EndsAt (before : List Bytes) (a : Bytes) : Prop :=
  a ∈ enquiries ∨ ¬ IsAcceptable a ∨ (IsSource a ∧ ∃ s ∈ before, IsSource s)

/-- Whether a command ends with none of its arguments. -/
def Passes (arguments : List Bytes) : Prop :=
  ∀ before a after, arguments = before ++ a :: after → ¬ EndsAt before a

variable {arguments before : List Bytes} {a : Bytes}

/-- No arguments pass. -/
theorem passes_nil : Passes [] := by
  intro before a after h
  simp at h

/-- Arguments pass as long as none of them ends the reading. -/
theorem passes_concat : Passes (before ++ [a]) ↔ Passes before ∧ ¬ EndsAt before a := by
  constructor
  · intro h
    refine ⟨fun earlier b later heq => ?_, h before a [] rfl⟩
    exact h earlier b (later ++ [a]) (by rw [heq, List.append_assoc, List.cons_append])
  · rintro ⟨hbefore, ha⟩ earlier b later heq
    -- it is the last argument, or one of those in front of it
    rcases List.eq_nil_or_concat later with rfl | ⟨later, c, rfl⟩
    · obtain ⟨rfl, hb⟩ := List.append_inj' heq rfl
      obtain rfl := (List.cons.inj hb).1
      exact ha
    · rw [List.concat_eq_append, ← List.cons_append, ← List.append_assoc] at heq
      exact hbefore earlier b later (List.append_inj' heq rfl).1

/-- Either some argument is the first one that ends the command, or none does. -/
theorem exists_first_or_passes (arguments : List Bytes) :
    (∃ before a after, arguments = before ++ a :: after ∧ Passes before ∧ EndsAt before a) ∨
      Passes arguments := by
  -- with one more argument at the end, the first one that ends the command stays the first one
  induction arguments using List.reverseRecOn with
  | nil => exact .inr passes_nil
  | append_singleton arguments a ih =>
    rcases ih with ⟨before, b, after, rfl, hpasses, hends⟩ | hpasses
    · exact .inl ⟨before, b, after ++ [a], by simp, hpasses, hends⟩
    · by_cases hends : EndsAt arguments a
      · exact .inl ⟨arguments, a, [], rfl, hpasses, hends⟩
      · exact .inr (passes_concat.mpr ⟨hpasses, hends⟩)

/-- An acceptable argument asks nothing of the tool. -/
theorem not_mem_enquiries (ha : IsAcceptable a) : a ∉ enquiries := by
  rw [(agrees_ofBytes a).enquiry_iff]
  rw [isAcceptable_iff] at ha
  rintro (h | h) <;> simp [h, mode?, encoding?] at ha

/-- An argument does not end the reading if it is acceptable, and no second source. -/
theorem not_endsAt_iff : ¬ EndsAt before a ↔
    IsAcceptable a ∧ (IsSource a → ¬ ∃ s ∈ before, IsSource s) := by
  rw [EndsAt, not_or, not_or, not_not, not_and]
  constructor
  · rintro ⟨-, h⟩
    exact h
  · rintro ⟨ha, h⟩
    exact ⟨not_mem_enquiries ha, ha, h⟩

/-- A command passes all its arguments if they are acceptable and at most one of them is a source
file. -/
theorem passes_iff : Passes arguments ↔
    (∀ a ∈ arguments, IsAcceptable a) ∧ (arguments.filter (IsSource ·)).length ≤ 1 := by
  induction arguments using List.reverseRecOn with
  | nil => simp [passes_nil]
  | append_singleton arguments a ih =>
    rw [passes_concat, ih, not_endsAt_iff, List.filter_append, List.length_append,
      List.forall_mem_append, List.forall_mem_singleton]
    by_cases ha : IsSource a
    · have hone : ([a].filter (IsSource ·)).length = 1 := by simp [ha]
      have hzero :
          (¬ ∃ s ∈ arguments, IsSource s) ↔ (arguments.filter (IsSource ·)).length = 0 := by
        simp
      rw [hone, hzero]
      constructor
      · rintro ⟨⟨hall, hlength⟩, hacceptable, hsource⟩
        rw [hsource ha]
        exact ⟨⟨hall, hacceptable⟩, Nat.le_refl 1⟩
      · rintro ⟨⟨hall, hacceptable⟩, hlength⟩
        exact ⟨⟨hall, by omega⟩, hacceptable, fun _ => by omega⟩
    · have hnone : ([a].filter (IsSource ·)).length = 0 := by simp [ha]
      rw [hnone]
      simp only [ha, false_imp_iff, and_true, Nat.add_zero]
      exact and_right_comm

end Configuration

/-! ## What is asked for -/

namespace Draft

open LosslessBasic.Configuration

variable {arguments before : List Bytes} {a : Bytes}

/-- What some arguments ask for, if they end no command. -/
def asked (arguments : List Bytes) : Draft where
  source? := (arguments.filter (IsSource ·)).head?
  mode := (arguments.filterMap flagMode?).getLast?.getD .failures
  encoding := (arguments.filterMap namedEncoding?).getLast?.getD .utf8
  trace := arguments.contains traceFlag

/-- The last one of some settings, with one more that may be given. -/
theorem getD_getLast?_filterMap_concat {α β : Type} (f : α → Option β) (l : List α)
    (a : α) (d : β) :
    ((l ++ [a]).filterMap f).getLast?.getD d = (f a).getD ((l.filterMap f).getLast?.getD d) := by
  cases h : f a <;> simp [h]

/-- With one more argument, what is asked for changes by what this is read as. -/
theorem asked_concat (before : List Bytes) (a : Bytes) : asked (before ++ [a]) =
    { source? := (asked before).source?.or (if ofBytes a = .source then some a else none)
      mode := (ofBytes a).mode?.getD (asked before).mode
      encoding := (ofBytes a).encoding?.getD (asked before).encoding
      trace := (asked before).trace || decide (ofBytes a = .trace) } := by
  have h := agrees_ofBytes a
  have hsource : ([a].filter (IsSource ·)).head? = if ofBytes a = .source then
      some a else none := by
    by_cases ha : IsSource a
    · simp [ha, h.source_iff.mp ha]
    · simp [ha, mt h.source_iff.mpr ha]
  have htrace : (before ++ [a]).contains traceFlag =
      (before.contains traceFlag || decide (ofBytes a = .trace)) := by
    rw [Bool.eq_iff_iff, Bool.or_eq_true, decide_eq_true_iff, ← h.trace_iff, List.contains_iff_mem,
      List.contains_iff_mem, List.mem_append, List.mem_singleton, eq_comm (b := a)]
  simp only [asked, getD_getLast?_filterMap_concat, List.filter_append, List.head?_append, hsource,
    h.mode_eq, h.encoding_eq, htrace]

/-- A source has been asked for if one of the arguments is one. -/
theorem isSome_source?_asked_iff :
    (asked before).source?.isSome = true ↔ ∃ s ∈ before, IsSource s := by
  simp [asked]

/-- An argument that does not end the command is taken for what it asks. -/
theorem take_asked_of_not_endsAt (h : ¬ EndsAt before a) :
    (asked before).take a = .ok (asked (before ++ [a])) := by
  obtain ⟨hacceptable, hsource⟩ := not_endsAt_iff.mp h
  rw [isAcceptable_iff] at hacceptable
  rw [(agrees_ofBytes a).source_iff, ← isSome_source?_asked_iff] at hsource
  rw [asked_concat, take]
  cases hread : ofBytes a with
  | mode | trace | encoding => simp [mode?, encoding?]
  | source =>
    have hnone := Option.not_isSome_iff_eq_none.mp (hsource hread)
    simp [mode?, encoding?, hnone]
  | help | version | unknownEncoding | unknownOption | unknown =>
    simp [hread, mode?, encoding?] at hacceptable

/-- An argument that ends the command is not taken, and its kind is the exit status. -/
theorem take_asked_of_endsAt (h : EndsAt before a) : ∃ halt, (asked before).take a = .error halt ∧
    ∀ usage version, (halt.outcome usage version).exit = if a ∈ enquiries then 0 else 1 := by
  have hagrees := agrees_ofBytes a
  rw [EndsAt, isAcceptable_iff, hagrees.source_iff, ← isSome_source?_asked_iff] at h
  simp only [hagrees.enquiry_iff] at h ⊢
  rw [take]
  cases hread : ofBytes a with
  | help | version | unknownEncoding | unknownOption | unknown => simp [Halt.outcome]
  | source =>
    -- there is a source file already
    have hsome : (asked before).source?.isSome = true := by simpa [hread] using h
    simp [Halt.outcome, hsome]
  | mode | trace | encoding => simp [hread, mode?, encoding?] at h

/-- Arguments are taken in one go or in two. -/
theorem takeAll_append (d : Draft) (before after : List Bytes) : d.takeAll (before ++ after) =
    match d.takeAll before with
    | .error h => .error h
    | .ok d => d.takeAll after := by
  induction before generalizing d with
  | nil => rfl
  | cons a before ih =>
    rw [List.cons_append, takeAll, takeAll]
    cases d.take a with
    | error h => rfl
    | ok d => exact ih d

/-- Arguments that do not end the command are taken for what they ask. -/
theorem takeAll_of_passes (h : Passes arguments) :
    Draft.takeAll {} arguments = .ok (asked arguments) := by
  induction arguments using List.reverseRecOn with
  | nil => rfl
  | append_singleton arguments a ih =>
    obtain ⟨hpasses, ha⟩ := passes_concat.mp h
    -- the draft so far is known, and it takes the last argument
    rw [takeAll_append, ih hpasses]
    simp [takeAll, take_asked_of_not_endsAt ha]

/-- A draft is finished as soon as it has a source file. -/
theorem finish_eq_ok_iff {d : Draft} {c : Configuration} : d.finish = .ok c ↔
    d.source? = some c.source ∧ c.mode = d.mode ∧ c.encoding = d.encoding ∧ c.trace = d.trace := by
  obtain ⟨source, mode, encoding, trace⟩ := c
  rw [finish]
  cases d.source? with
  | none => simp
  | some s => simp [eq_comm]

/-- A draft is refused only where it names no source. -/
theorem finish_eq_error_iff {d : Draft} {halt : Halt} :
    d.finish = .error halt ↔ d.source? = none ∧ halt = .refused .noSource := by
  rw [finish]
  cases d.source? with
  | none => simp [eq_comm]
  | some s => simp

end Draft

/-! ## Configurations -/

namespace Configuration

/-- The configuration that some arguments ask for. -/
structure AskedBy (c : Configuration) (arguments : List Bytes) : Prop where
  /-- A command can be started with each of the arguments. -/
  acceptable : ∀ a ∈ arguments, IsAcceptable a
  /-- One of them is a source file, and no other. -/
  source : arguments.filter (IsSource ·) = [c.source]
  /-- The last flag for a mode stands for all of them. -/
  mode : c.mode = (arguments.filterMap flagMode?).getLast?.getD .failures
  /-- The last encoding stands for all of them. -/
  encoding : c.encoding = (arguments.filterMap namedEncoding?).getLast?.getD .utf8
  /-- The trace is asked for by its flag. -/
  trace : c.trace = true ↔ traceFlag ∈ arguments

variable {arguments before : List Bytes} {a : Bytes} {c : Configuration}

/-- Arguments that end no command come to the configuration they ask for, unless they name no source
file. -/
theorem ofArguments_of_passes (h : Passes arguments) :
    ofArguments arguments = (Draft.asked arguments).finish := by
  rw [ofArguments, Draft.takeAll_of_passes h]

/-- Where an argument ends a command, nothing that comes behind it is looked at. -/
theorem ofArguments_of_endsAt (hpasses : Passes before) (h : EndsAt before a) :
    ∃ halt, (∀ after, ofArguments (before ++ a :: after) = .error halt) ∧
      ∀ usage version, (halt.outcome usage version).exit = if a ∈ enquiries then 0 else 1 := by
  obtain ⟨halt, htake, hexit⟩ := Draft.take_asked_of_endsAt h
  refine ⟨halt, fun after => ?_, hexit⟩
  rw [ofArguments, Draft.takeAll_append, Draft.takeAll_of_passes hpasses]
  simp [Draft.takeAll, htake]

/-- Arguments that ask for a configuration pass. -/
theorem AskedBy.passes (h : AskedBy c arguments) : Passes arguments := by
  rw [passes_iff, h.source]
  exact ⟨h.acceptable, Nat.le_refl 1⟩

/-- Arguments that end no command come to a configuration if that is what they ask for. -/
theorem ofArguments_of_passes_eq_ok_iff (h : Passes arguments) :
    ofArguments arguments = .ok c ↔ AskedBy c arguments := by
  obtain ⟨hacceptable, hlength⟩ := passes_iff.mp h
  have hsource : (arguments.filter (IsSource ·)).head? = some c.source ↔
      arguments.filter (IsSource ·) = [c.source] := by
    rw [List.head?_eq_some_iff]
    constructor
    · rintro ⟨more, heq⟩
      have hmore : more.length = 0 := by
        rw [heq, List.length_cons] at hlength
        omega
      rw [heq, List.length_eq_zero_iff.mp hmore]
    · intro heq
      exact ⟨[], heq⟩
  have htrace : c.trace = arguments.contains traceFlag ↔
      (c.trace = true ↔ traceFlag ∈ arguments) := by
    rw [Bool.eq_iff_iff, List.contains_iff_mem]
  rw [ofArguments_of_passes h, Draft.finish_eq_ok_iff]
  constructor
  · rintro ⟨h₁, h₂, h₃, h₄⟩
    exact ⟨hacceptable, hsource.mp h₁, h₂, h₃, htrace.mp h₄⟩
  · rintro ⟨-, h₁, h₂, h₃, h₄⟩
    exact ⟨hsource.mpr h₁, h₂, h₃, htrace.mpr h₄⟩

/-- They are refused if there is no source file among them. -/
theorem ofArguments_of_passes_eq_error {halt : Halt} (h : Passes arguments)
    (herror : ofArguments arguments = .error halt) :
    (∀ a ∈ arguments, IsAcceptable a ∧ ¬ IsSource a) ∧ halt = .refused .noSource := by
  rw [ofArguments_of_passes h, Draft.finish_eq_error_iff] at herror
  obtain ⟨hsource, rfl⟩ := herror
  have hnone : ∀ a ∈ arguments, ¬ IsSource a := by
    simpa [Draft.asked] using hsource
  exact ⟨fun a ha => ⟨(passes_iff.mp h).1 a ha, hnone a ha⟩, rfl⟩

/-- Arguments come to the configuration that they ask for, if they ask for one. If they do not, the
first argument that ends the command decides on the exit status, whatever comes behind it, or there
is no source file. -/
theorem ofArguments_exact (arguments : List Bytes) :
    (∀ c, ofArguments arguments = .ok c ↔ AskedBy c arguments) ∧
    ∀ halt, ofArguments arguments = .error halt →
      (∃ before a after, arguments = before ++ a :: after ∧ Passes before ∧ EndsAt before a ∧
        (∀ after', ofArguments (before ++ a :: after') = .error halt) ∧
        ∀ usage version, (halt.outcome usage version).exit = if a ∈ enquiries then 0 else 1) ∨
      ((∀ a ∈ arguments, IsAcceptable a ∧ ¬ IsSource a) ∧
        ∀ usage version, (halt.outcome usage version).exit = 1) := by
  rcases exists_first_or_passes arguments with ⟨before, a, after, rfl, hbefore, hends⟩ | hpasses
  · obtain ⟨halt, herror, hexit⟩ := ofArguments_of_endsAt hbefore hends
    refine ⟨fun c => ?_, fun halt' herror' => .inl ?_⟩
    · have hnot : ¬ AskedBy c (before ++ a :: after) := fun h => h.passes before a after rfl hends
      simp [herror, hnot]
    · rw [herror, Except.error.injEq] at herror'
      obtain rfl := herror'
      exact ⟨before, a, after, rfl, hbefore, hends, herror, hexit⟩
  · refine ⟨fun c => ofArguments_of_passes_eq_ok_iff hpasses, fun halt herror => .inr ?_⟩
    obtain ⟨hall, rfl⟩ := ofArguments_of_passes_eq_error hpasses herror
    exact ⟨hall, fun usage version => rfl⟩

/-- A later flag stands for an earlier one, and case does not matter in an extension. -/
example : ofArguments (["--tree", "Shop.BAS", "--text"].map Bytes.ofString) =
    .ok { source := Bytes.ofString "Shop.BAS", mode := .text } := by
  rfl

end Configuration

end LosslessBasic
