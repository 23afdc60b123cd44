import LosslessBasic.Command.Argument

/-!
# How arguments are spelled

The arguments that a command line may have, by their spelling: flags for the mode and the trace, an
encoding behind its option, and path names of source files. What an argument is read as tells which
of them it is (`agrees_ofBytes`), so no argument is two of them at once.

## Main definitions

* `Argument.IsSource`: the path names of source files.
* `Argument.IsAcceptable`: the arguments that a command can be started with.
-/

namespace LosslessBasic.Argument

set_option maxRecDepth 2000

/-! ## Spellings -/

/-- The flags that choose a mode. -/
def modeFlags : List (Bytes × Mode) :=
  [("--tree", .tree), ("--tokens", .tokens), ("--text", .text), ("--check", .check)].map fun f =>
    (Bytes.ofString f.1, f.2)

/-- The flag for the trace. -/
def traceFlag : Bytes := Bytes.ofString "--trace"

/-- The flags that ask something of the tool itself. -/
def enquiries : List Bytes := ["-h", "--help", "--version"].map Bytes.ofString

/-- What stands in front of the name of an encoding. -/
def encodingOption : Bytes := Bytes.ofString "--encoding="

/-- The mode that a flag chooses. -/
def flagMode? (argument : Bytes) : Option Mode := modeFlags.lookup argument

/-- The encoding that is named behind its option. -/
def namedEncoding? (argument : Bytes) : Option Encoding :=
  if encodingOption.isPrefixOf argument then
    Encoding.ofName? (argument.drop encodingOption.length)
  else none

/-- Whether an argument is the path name of a source file. -/
structure IsSource (argument : Bytes) : Prop where
  /-- It does not start with a hyphen, unless it is the hyphen alone. -/
  not_option : ∀ c rest, argument ≠ Bytes.byte '-' :: c :: rest
  /-- It ends in the extension of a source file, in any case, with something in front of it. -/
  extension : ∃ stem ending, argument = stem ++ ending ∧ stem ≠ [] ∧
    ∃ e ∈ extensions, Ascii.equalIgnoringCase ending e = true

/-- Whether a command can be started with an argument. -/
def IsAcceptable (argument : Bytes) : Prop :=
  (flagMode? argument).isSome = true ∨ argument = traceFlag ∨
    (namedEncoding? argument).isSome = true ∨ IsSource argument

variable {a : Bytes}

/-! ## Source files -/

theorem isOption_iff : isOption a = true ↔ ∃ c rest, a = Bytes.byte '-' :: c :: rest := by
  cases a with
  | nil => simp [isOption]
  | cons b as =>
    cases as with
    | nil => simp [isOption]
    | cons c rest => simp [isOption]

theorem hasExtension_iff : hasExtension a = true ↔ ∃ stem ending, a = stem ++ ending ∧ stem ≠ [] ∧
    ∃ e ∈ extensions, Ascii.equalIgnoringCase ending e = true := by
  unfold hasExtension
  rw [List.any_eq_true]
  constructor
  · rintro ⟨e, he, h⟩
    rw [Bool.and_eq_true, decide_eq_true_eq] at h
    obtain ⟨hlength, hequal⟩ := h
    refine ⟨a.take (a.length - e.length), _, (List.take_append_drop _ a).symm, ?_, e, he, hequal⟩
    rw [← List.length_pos_iff, List.length_take]
    omega
  · rintro ⟨stem, ending, rfl, hstem, e, he, hequal⟩
    -- the ending is as long as the extension
    have hlength : ending.length = e.length := by
      have hmap := congrArg List.length (beq_iff_eq.mp hequal)
      simpa using hmap
    refine ⟨e, he, ?_⟩
    rw [Bool.and_eq_true, decide_eq_true_eq, List.length_append, hlength, Nat.add_sub_cancel,
      List.drop_left]
    have hpos := List.length_pos_iff.mpr hstem
    exact ⟨by omega, hequal⟩

theorem isSource_iff : IsSource a ↔ isOption a = false ∧ hasExtension a = true := by
  rw [Bool.eq_false_iff, ne_eq, isOption_iff, hasExtension_iff]
  constructor
  · rintro ⟨hoption, hextension⟩
    exact ⟨fun ⟨c, rest, h⟩ => hoption c rest h, hextension⟩
  · rintro ⟨hoption, hextension⟩
    exact ⟨fun c rest h => hoption ⟨c, rest, h⟩, hextension⟩

instance : DecidablePred IsSource := fun _ => decidable_of_iff _ isSource_iff.symm

/-! ## Encodings -/

/-- An argument is taken apart at its first equals sign. -/
theorem encodingName?_eq_some_iff {name : Bytes} :
    encodingName? a = some name ↔ a = encodingOption ++ name := by
  have hoption : encodingOption = Bytes.ofString "--encoding" ++ [Assignment.sign] := by decide
  have hname : ∀ c ∈ Bytes.ofString "--encoding", (c != Assignment.sign) = true := by decide
  rw [hoption, List.append_assoc, List.singleton_append]
  unfold encodingName? Assignment.ofBytes
  dsimp only
  constructor
  · intro h
    split at h
    next heq =>
      have hsplit := List.takeWhile_append_dropWhile (p := (· != Assignment.sign)) (l := a)
      cases hdrop : a.dropWhile (· != Assignment.sign) with
      | nil => simp [hdrop] at h
      | cons c rest =>
        -- what is behind the name starts with the sign
        have hc : c = Assignment.sign := by
          have hhead := List.head?_dropWhile_not (· != Assignment.sign) a
          rw [hdrop] at hhead
          simpa using hhead
        rw [hdrop] at h hsplit
        rw [beq_iff_eq.mp heq, hc] at hsplit
        rw [← hsplit, ← Option.some.inj h]
    next => cases h
  · rintro rfl
    rw [List.takeWhile_append_of_pos hname, List.dropWhile_append_of_pos hname]
    simp

theorem namedEncoding?_eq_bind (a : Bytes) :
    namedEncoding? a = (encodingName? a).bind Encoding.ofName? := by
  unfold namedEncoding?
  split
  next h =>
    obtain ⟨name, rfl⟩ := List.isPrefixOf_iff_prefix.mp h
    rw [encodingName?_eq_some_iff.mpr rfl, List.drop_left]
    rfl
  next h =>
    cases hname : encodingName? a with
    | none => rfl
    | some name =>
      obtain rfl := encodingName?_eq_some_iff.mp hname
      exact absurd (List.isPrefixOf_iff_prefix.mpr (List.prefix_append _ _)) h

/-! ## What an argument is read as -/

/-- The mode that is asked for. -/
def mode? : Argument → Option Mode
  | mode m => some m
  | _ => none

/-- The encoding that is asked for. -/
def encoding? : Argument → Option Encoding
  | encoding e => some e
  | _ => none

/-- What is to be known of a spelling that is read as some argument. -/
structure Agrees (a : Bytes) (argument : Argument) : Prop where
  /-- It is the flag of the mode that is asked for. -/
  mode_eq : flagMode? a = argument.mode?
  /-- It names the encoding that is asked for. -/
  encoding_eq : namedEncoding? a = argument.encoding?
  /-- It is the flag for the trace where that is asked for. -/
  trace_iff : a = traceFlag ↔ argument = trace
  /-- It asks something of the tool where it is read so. -/
  enquiry_iff : a ∈ enquiries ↔ argument = help ∨ argument = version
  /-- It is the path name of a source file where that is asked for. -/
  source_iff : IsSource a ↔ argument = source

instance (a : Bytes) (argument : Argument) : Decidable (Agrees a argument) :=
  decidable_of_iff
    (flagMode? a = argument.mode? ∧ namedEncoding? a = argument.encoding? ∧
      (a = traceFlag ↔ argument = trace) ∧
      (a ∈ enquiries ↔ argument = help ∨ argument = version) ∧ (IsSource a ↔ argument = source))
    ⟨fun ⟨h₁, h₂, h₃, h₄, h₅⟩ => ⟨h₁, h₂, h₃, h₄, h₅⟩, fun ⟨h₁, h₂, h₃, h₄, h₅⟩ =>
      ⟨h₁, h₂, h₃, h₄, h₅⟩⟩

/-- Each flag agrees with what it stands for. -/
theorem agrees_of_mem_flags : ∀ f ∈ flags, Agrees f.1 f.2 := by
  decide

/-- A spelling that is no flag agrees with what is read off its encoding or its extension. -/
theorem agrees_of_not_flag {argument : Argument} (hflags : ∀ f ∈ flags, a ≠ f.1)
    (hargument : ∀ f ∈ flags, argument ≠ f.2) (hmode : argument.mode? = none)
    (hencoding : namedEncoding? a = argument.encoding?)
    (hsource : IsSource a ↔ argument = source) : Agrees a argument where
  mode_eq := by
    rw [hmode, flagMode?, List.lookup_eq_none_iff]
    intro f hf
    have hflag : ∀ f ∈ modeFlags, (f.1, Argument.mode f.2) ∈ flags := by decide
    exact bne_iff_ne.mpr (hflags _ (hflag f hf))
  encoding_eq := hencoding
  trace_iff := by
    have hflag : (traceFlag, trace) ∈ flags := by decide
    exact iff_of_false (hflags _ hflag) (hargument _ hflag)
  enquiry_iff := by
    have hspelled : ∀ e ∈ enquiries, ∃ f ∈ flags, f.1 = e := by decide
    have hread : (∃ f ∈ flags, f.2 = help) ∧ ∃ f ∈ flags, f.2 = version := by decide
    obtain ⟨⟨f, hf, hhelp⟩, g, hg, hversion⟩ := hread
    apply iff_of_false
    · intro ha
      obtain ⟨e, he, rfl⟩ := hspelled a ha
      exact hflags e he rfl
    · rw [← hhelp, ← hversion, not_or]
      exact ⟨hargument f hf, hargument g hg⟩
  source_iff := hsource

/-- An argument that is no flag is read by its value, and agrees with that. -/
theorem agrees_ofValue (hflags : ∀ f ∈ flags, a ≠ f.1) : Agrees a (ofValue a) := by
  have hencoding := namedEncoding?_eq_bind a
  cases hname : encodingName? a with
  | some name =>
    -- whatever its name is, an encoding is named behind an option
    have hsource : ¬ IsSource a := by
      obtain rfl := encodingName?_eq_some_iff.mp hname
      exact fun hsource => hsource.not_option _ _ rfl
    rw [hname, Option.bind_some] at hencoding
    cases he : Encoding.ofName? name with
    | some e =>
      have hvalue : ofValue a = encoding e := by simp [ofValue, hname, he]
      rw [hvalue]
      exact agrees_of_not_flag hflags (by simp [flags]) rfl (hencoding.trans he) (by simp [hsource])
    | none =>
      have hvalue : ofValue a = unknownEncoding name := by simp [ofValue, hname, he]
      rw [hvalue]
      exact agrees_of_not_flag hflags (by simp [flags]) rfl (hencoding.trans he) (by simp [hsource])
  | none =>
    rw [hname, Option.bind_none] at hencoding
    cases hoption : isOption a with
    | true =>
      have hvalue : ofValue a = unknownOption := by simp [ofValue, hname, hoption]
      rw [hvalue]
      exact agrees_of_not_flag hflags (by decide) rfl hencoding (by simp [isSource_iff, hoption])
    | false =>
      cases hextension : hasExtension a with
      | true =>
        have hvalue : ofValue a = source := by simp [ofValue, hname, hoption, hextension]
        rw [hvalue]
        exact agrees_of_not_flag hflags (by decide) rfl hencoding
          (by simp [isSource_iff, hoption, hextension])
      | false =>
        have hvalue : ofValue a = unknown := by simp [ofValue, hname, hoption, hextension]
        rw [hvalue]
        exact agrees_of_not_flag hflags (by decide) rfl hencoding
          (by simp [isSource_iff, hextension])

/-- An argument is read as what its spelling says. -/
theorem agrees_ofBytes (a : Bytes) : Agrees a (ofBytes a) := by
  unfold ofBytes
  cases hlookup : flags.lookup a with
  | some argument =>
    obtain ⟨before, behind, heq, -⟩ := List.lookup_eq_some_iff.mp hlookup
    exact agrees_of_mem_flags (a, argument) (by rw [heq]; simp)
  | none =>
    apply agrees_ofValue
    intro f hf
    exact bne_iff_ne.mp (List.lookup_eq_none_iff.mp hlookup f hf)

/-- A command can be started with an argument that asks for a mode, a trace, an encoding or a source
file. -/
theorem isAcceptable_iff : IsAcceptable a ↔ ((ofBytes a).mode?.isSome = true ∨ ofBytes a = trace ∨
    (ofBytes a).encoding?.isSome = true ∨ ofBytes a = source) := by
  have h := agrees_ofBytes a
  rw [IsAcceptable, h.mode_eq, h.encoding_eq, h.trace_iff, h.source_iff]

end LosslessBasic.Argument
