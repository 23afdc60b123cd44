import LosslessBasic.Source.Load
import Mathlib.Algebra.Group.Nat.Defs
import Mathlib.Data.Finset.Card
import Mathlib.Data.List.Forall2

/-!
# The numbers of source files

A registry keeps the path names in a row, a number for each of them, and the number of the next
file. The three are in step (`Registry.InStep`), and whatever is asked of a registry leaves them so
(`Registry.InStep.leads_answer`). Path names are only added to the row, so what a number stands for
never changes, and all that a run of requests is answered can be read off the registry at its end
(`Registry.InStep.leads_run`).

## Main results

* `Registry.numbers_runs`: the numbers that a run of requests gives.
-/

namespace LosslessBasic

/-! ## Lists without repetitions -/

section

variable {α β : Type} [BEq α] [LawfulBEq α] [BEq β] [LawfulBEq β]

/-- Of a list in two parts the first elements of their kind are those of the first part, and those
of the second part that are not in the first one. Elements of `ps` do not count. -/
theorem eraseDups_removeAll_append (as bs ps : List α) :
    ((as ++ bs).removeAll ps).eraseDups = (as.removeAll ps).eraseDups ++
      (bs.removeAll (ps ++ (as.removeAll ps).eraseDups)).eraseDups := by
  have happend : (as ++ bs).removeAll ps = as.removeAll ps ++ bs.removeAll ps :=
    List.filter_append ..
  have hparts : (bs.removeAll ps).removeAll (as.removeAll ps) =
      bs.removeAll (ps ++ (as.removeAll ps).eraseDups) := by
    generalize as.removeAll ps = cs
    unfold List.removeAll
    rw [List.filter_filter]
    refine List.filter_congr fun b _ => ?_
    rw [Bool.eq_iff_iff]
    simp [and_comm]
  rw [happend, List.eraseDups_append, hparts]

/-- Where two lists go together one to one, so do the first elements of their kind. -/
theorem forall₂_eraseDups {R : α → β → Prop}
    (hR : ∀ {a a' b b'}, R a b → R a' b' → (a = a' ↔ b = b'))
    {as : List α} {bs : List β} (h : List.Forall₂ R as bs) :
    List.Forall₂ R as.eraseDups bs.eraseDups := by
  -- by induction on the number of elements, as elements further behind are left out
  generalize hn : as.length = n
  induction n using Nat.strongRecOn generalizing as bs with
  | ind n ih =>
    cases h with
    | nil => simp
    | @cons a b as bs hab hrest =>
      rw [List.eraseDups_cons, List.eraseDups_cons]
      have hfilter : List.Forall₂ R (as.filter fun c => !c == a) (bs.filter fun d => !d == b) :=
        List.rel_filter (fun c d hcd => by simp [hR hcd hab]) hrest
      refine .cons hab (ih _ ?_ hfilter rfl)
      rw [← hn, List.length_cons]
      exact Nat.lt_succ_of_le (List.length_filter_le ..)

end

namespace Registry

open PathName (normalBytes)

/-! ## Registries in step -/

/-- Whether a number stands for a path name in normal spelling. -/
def Knows (r : Registry) (file : UInt32) (path : Bytes) : Prop :=
  file ≠ 0 ∧ r.paths[file.toNat - 1]? = some path

/-- Whether the parts of a registry are in step. -/
structure InStep (r : Registry) : Prop where
  /-- The next number is the one behind those of the files. -/
  next_eq : r.next.toNat = r.size + 1
  /-- There are no more files than numbers. -/
  size_lt : r.size < 2 ^ 32
  /-- The number of a path name is found if it stands for the path name. -/
  lookup_iff : ∀ path file, r.numbers.lookup path = some file ↔ r.Knows file path

theorem inStep_empty : InStep {} where
  next_eq := rfl
  size_lt := by decide
  lookup_iff path file := by simp [Knows]

section

variable {r r' : Registry} {file file' : UInt32} {path path' : Bytes}

/-- A file is known under its path. -/
theorem Knows.path_eq (h : r.Knows file path) : r.path file = path := by
  rw [Registry.path, if_neg h.1, h.2, Option.getD_some]

/-- A number without a file stands for nothing. -/
theorem path_eq_nil (h : file = 0 ∨ r.size < file.toNat) : r.path file = [] := by
  unfold Registry.path
  split
  · rfl
  next hne =>
    have hlt := h.resolve_left hne
    rw [size] at hlt
    rw [List.getElem?_eq_none (by omega), Option.getD_none]

/-- The path of a file that is known is one of the paths. -/
theorem Knows.mem (h : r.Knows file path) : path ∈ r.paths := List.mem_of_getElem? h.2

/-- What a number stands for does not change when path names are added. -/
theorem Knows.mono (h : r.Knows file path) (hgrown : r.paths <+: r'.paths) :
    r'.Knows file path := by
  obtain ⟨more, hmore⟩ := hgrown
  refine ⟨h.1, ?_⟩
  rw [← hmore, List.getElem?_append_left (List.getElem?_eq_some_iff.mp h.2).1]
  exact h.2

/-- A number stands for one path name. -/
theorem Knows.path_unique (h : r.Knows file path) (h' : r.Knows file path') : path = path' :=
  Option.some.inj (h.2.symm.trans h'.2)

/-- One number stands for a path name. -/
theorem InStep.file_unique (hstep : r.InStep) (h : r.Knows file path) (h' : r.Knows file' path) :
    file = file' :=
  Option.some.inj
    (((hstep.lookup_iff path file).mpr h).symm.trans ((hstep.lookup_iff path file').mpr h'))

/-- Numbers are the same if they stand for the same path name. -/
theorem InStep.eq_iff (hstep : r.InStep) (h : r.Knows file path) (h' : r.Knows file' path') :
    file = file' ↔ path = path' := by
  constructor
  · rintro rfl
    exact h.path_unique h'
  · rintro rfl
    exact hstep.file_unique h h'

/-- There is a number for each path name. -/
theorem InStep.exists_knows (hstep : r.InStep) {i : Nat} (hi : r.paths[i]? = some path) :
    ∃ file, r.Knows file path ∧ file.toNat = i + 1 := by
  have hlt : i + 1 < 2 ^ 32 := by
    have hlength := (List.getElem?_eq_some_iff.mp hi).1
    have hsize := hstep.size_lt
    rw [size] at hsize
    omega
  have hfile : (UInt32.ofNat (i + 1)).toNat = i + 1 := UInt32.toNat_ofNat_of_lt' hlt
  refine ⟨UInt32.ofNat (i + 1), ⟨?_, ?_⟩, hfile⟩
  · intro hzero
    rw [hzero] at hfile
    cases hfile
  · rw [hfile]
    exact hi

/-! ## Adding a file -/

/-- With a path name more the numbers stand for what they stood for, and the next one for that path
name. -/
theorem knows_concat_iff (h : r'.paths = r.paths ++ [path]) :
    r'.Knows file path' ↔ r.Knows file path' ∨ (file.toNat = r.size + 1 ∧ path' = path) := by
  have hzero : file ≠ 0 ↔ file.toNat ≠ 0 := by rw [ne_eq, ne_eq, ← UInt32.toNat_inj]; rfl
  unfold Knows
  rw [h, hzero, size, List.getElem?_append, List.getElem?_singleton]
  split
  next hlt =>
    have hne : file.toNat ≠ r.paths.length + 1 := by omega
    simp [hne]
  next hge =>
    rw [List.getElem?_eq_none (Nat.le_of_not_lt hge)]
    by_cases heq : file.toNat = r.paths.length + 1
    · simp [heq, eq_comm]
    · have hne : file.toNat ≠ 0 → file.toNat - 1 - r.paths.length ≠ 0 := by omega
      simp only [heq, false_and, or_false, reduceCtorEq, and_false, iff_false, not_and]
      intro hpos
      simp [hne hpos]

variable (hstep : r.InStep)
include hstep

/-- The number that a new file gets. -/
theorem InStep.toNat_next (hroom : r.size + 1 < 2 ^ 32) : r.next.toUInt32.toNat = r.size + 1 := by
  rw [UInt64.toNat_toUInt32, hstep.next_eq, Nat.mod_eq_of_lt hroom]

/-- With a new file a registry stays in step, and it knows the file. -/
theorem InStep.append (hnew : path ∉ r.paths) (hroom : r.size + 1 < 2 ^ 32) :
    (r.append path).InStep ∧ (r.append path).Knows r.next.toUInt32 path := by
  have hconcat : (r.append path).paths = r.paths ++ [path] := rfl
  have hsize : (r.append path).size = r.size + 1 := List.length_append
  have hfile := hstep.toNat_next hroom
  refine ⟨⟨?_, hsize ▸ hroom, fun name file => ?_⟩,
    (knows_concat_iff hconcat).mpr (.inr ⟨hfile, rfl⟩)⟩
  · calc (r.append path).next.toNat
      _ = (r.next.toNat + 1) % 2 ^ 64 := UInt64.toNat_add _ _
      _ = (r.append path).size + 1 := by rw [hstep.next_eq, hsize]; omega
  · rw [knows_concat_iff hconcat, ← hstep.lookup_iff, Registry.append, List.lookup_cons, ← hfile,
      UInt32.toNat_inj]
    by_cases heq : name = path
    · subst heq
      have hnone : r.numbers.lookup name ≠ some file := fun h =>
        hnew ((hstep.lookup_iff name file).mp h).mem
      simp [hnone, eq_comm]
    · simp [beq_eq_false_iff_ne.mpr heq, heq]

/-- No path name is registered twice. -/
theorem InStep.nodup_paths : r.paths.Nodup := by
  refine List.nodup_iff_getElem?_ne_getElem?.mpr fun i j hij hj heq => ?_
  obtain ⟨file, hfile, hi⟩ := hstep.exists_knows (heq.trans (List.getElem?_eq_getElem hj))
  obtain ⟨file', hfile', hj⟩ := hstep.exists_knows (List.getElem?_eq_getElem hj)
  obtain rfl := hstep.file_unique hfile hfile'
  omega

/-- A path name is registered if it has a number. -/
theorem InStep.mem_paths_iff : path ∈ r.paths ↔ ∃ file, r.Knows file path := by
  constructor
  · intro hmem
    obtain ⟨i, hi⟩ := List.mem_iff_getElem?.mp hmem
    obtain ⟨file, hfile, -⟩ := hstep.exists_knows hi
    exact ⟨file, hfile⟩
  · rintro ⟨file, hfile⟩
    exact hfile.mem

/-- What adding a file comes to: a file that is known keeps its number, a new one gets the next
number, and when there is none nothing changes. -/
theorem InStep.add_cases (path : Bytes) :
    (∃ file, r.Knows file (normalBytes path) ∧ r.add path = (file, r)) ∨
      (normalBytes path ∉ r.paths ∧ r.size + 1 < 2 ^ 32 ∧
        r.add path = (r.next.toUInt32, r.append (normalBytes path))) ∨
      (normalBytes path ∉ r.paths ∧ r.size + 1 = 2 ^ 32 ∧ r.add path = (0, r)) := by
  unfold add
  dsimp only
  generalize normalBytes path = name
  cases hlookup : r.numbers.lookup name with
  | some file => exact .inl ⟨file, (hstep.lookup_iff name file).mp hlookup, rfl⟩
  | none =>
    have hnew : name ∉ r.paths := by
      rw [hstep.mem_paths_iff]
      rintro ⟨file, hfile⟩
      rw [(hstep.lookup_iff name file).mpr hfile] at hlookup
      cases hlookup
    have hfull : 0xFFFFFFFF < r.next ↔ 2 ^ 32 ≤ r.size + 1 := by
      rw [UInt64.lt_iff_toNat_lt, hstep.next_eq]
      exact Nat.lt_iff_add_one_le
    have hsize := hstep.size_lt
    dsimp only
    by_cases hroom : 0xFFFFFFFF < r.next
    · rw [if_pos hroom]
      rw [hfull] at hroom
      exact .inr (.inr ⟨hnew, by omega, rfl⟩)
    · rw [if_neg hroom]
      rw [hfull] at hroom
      exact .inr (.inl ⟨hnew, by omega, rfl⟩)

end

/-! ## Requests -/

/-- What a registry is asked for. -/
inductive Request where
  /-- The number of a file. -/
  | add (path : Bytes)
  /-- The number and the text of a file. `contents?` are its bytes, if it can be opened, and
  `hasMemory` says whether there is memory for them. -/
  | load (encoding : Encoding) (path : Bytes) (contents? : Option Bytes) (hasMemory : Bool)

namespace Request

/-- The path name of the file that is asked for. -/
def path : Request → Bytes
  | add path => path
  | load _ path _ _ => path

/-- The normal spelling of the path name. -/
def name (q : Request) : Bytes := normalBytes q.path

/-- Why the file is not registered, if so: one that is to be loaded has to be read first. -/
def refusal? : Request → Option Loaded.Refusal
  | add _ => none
  | load _ _ contents? hasMemory =>
    match Loaded.read contents? hasMemory with
    | .error refusal => some refusal
    | .ok _ => none

/-- The names of the files that some requests register, in order. -/
def names (qs : List Request) : List Bytes := (qs.filter (·.refusal?.isNone)).map name

variable {q : Request} {qs qs' : List Request}

@[simp] theorem names_nil : names [] = [] := rfl

/-- A request that is accepted names its file. -/
theorem names_cons_of_accepted (hq : q.refusal? = none) : names (q :: qs) = q.name :: names qs := by
  rw [names, List.filter_cons_of_pos (by simp [hq]), List.map_cons, names]

/-- A request that is refused names no file. -/
theorem names_cons_of_refused {refusal : Loaded.Refusal} (hq : q.refusal? = some refusal) :
    names (q :: qs) = names qs := by
  rw [names, List.filter_cons_of_neg (by simp [hq]), names]

/-- Requests in a row name the files of the first and then of the others. -/
theorem names_append : names (qs ++ qs') = names qs ++ names qs' := by
  rw [names, List.filter_append, List.map_append, names, names]

/-- The files that are named are some of those that were asked for. -/
theorem names_subset : names qs ⊆ qs.map name := List.map_subset name (List.filter_subset_self qs)

end Request

/-- The answer to a request, a number or a diagnostic, with the registry that knows it. -/
def answer (r : Registry) : Request → Except Diagnostic UInt32 × Registry
  | .add path =>
    let (file, r) := r.add path
    (if file = 0 then .error (.ofError {} exhausted) else .ok file, r)
  | .load encoding path contents? hasMemory =>
    let (source, r) := Loaded.ofFile r encoding path contents? hasMemory
    (source.map Loaded.file, r)

/-- The answers to a run of requests, with the registry at its end. -/
def run (r : Registry) : List Request → List (Except Diagnostic UInt32) × Registry
  | [] => ([], r)
  | q :: qs =>
    let (answer, r) := r.answer q
    let (answers, r) := r.run qs
    (answer :: answers, r)

variable {r : Registry} {q : Request} {qs : List Request}

/-- A file that is read is loaded with the number that it is registered with. -/
theorem answer_of_accepted (hq : q.refusal? = none) : r.answer q = r.answer (.add q.path) := by
  cases q with
  | add path => rfl
  | load encoding path contents? hasMemory =>
    cases hread : Loaded.read contents? hasMemory with
    | error refusal => simp [Request.refusal?, hread] at hq
    | ok contents =>
      change r.answer (.load encoding path contents? hasMemory) = r.answer (.add path)
      simp only [answer, Loaded.ofFile_of_ok hread]
      by_cases hfull : (r.add path).1 = 0
      · rw [if_pos hfull, if_pos hfull]
        rfl
      · rw [if_neg hfull, if_neg hfull]
        rfl

/-- A file that is refused is not registered. -/
theorem answer_of_refused {refusal : Loaded.Refusal} (hq : q.refusal? = some refusal) :
    r.answer q = (.error (refusal.diagnostic q.path), r) := by
  cases q with
  | add path => cases hq
  | load encoding path contents? hasMemory =>
    cases hread : Loaded.read contents? hasMemory with
    | error reason =>
      have hreason : reason = refusal := by simpa [Request.refusal?, hread] using hq
      simp only [answer, Request.path, Loaded.ofFile_of_error hread, hreason]
      rfl
    | ok contents => simp [Request.refusal?, hread] at hq

/-- A file that is registered is answered with its number. -/
theorem answer_of_add {r' : Registry} {file : UInt32} (hq : q.refusal? = none)
    (hadd : r.add q.path = (file, r')) (hfile : file ≠ 0) : r.answer q = (.ok file, r') := by
  rw [answer_of_accepted hq, answer, hadd]
  dsimp only
  rw [if_neg hfile]

/-! ## Runs of requests -/

/-- Whether an answer says what a registry knows: the number of the file, unless the file is
refused. -/
def Agrees (r : Registry) (q : Request) (answer : Except Diagnostic UInt32) : Prop :=
  (q.refusal? = none ∧ ∃ file, answer = .ok file ∧ r.Knows file q.name) ∨
    ∃ refusal, q.refusal? = some refusal ∧ answer = .error (refusal.diagnostic q.path)

/-- An answer is still right when further files are known. -/
theorem Agrees.mono {r' : Registry} {answer : Except Diagnostic UInt32} (h : r.Agrees q answer)
    (hgrown : r.paths <+: r'.paths) : r'.Agrees q answer := by
  rcases h with ⟨hq, file, hanswer, hfile⟩ | hnone
  · exact .inl ⟨hq, file, hanswer, hfile.mono hgrown⟩
  · exact .inr hnone

/-- What some requests to a registry lead to. -/
structure Leads (r : Registry) (qs : List Request) (answers : List (Except Diagnostic UInt32))
    (r' : Registry) : Prop where
  /-- The registry stays in step. -/
  inStep : r'.InStep
  /-- The names that are new to it are added in the order in which they come. -/
  paths_eq : r'.paths = r.paths ++ ((Request.names qs).removeAll r.paths).eraseDups
  /-- The answers say what it knows at the end. -/
  agrees : List.Forall₂ r'.Agrees qs answers

/-- A request leads to what it asks for if there is a number for the file. -/
theorem InStep.leads_answer (hstep : r.InStep) (hroom : q.name ∈ r.paths ∨ r.size + 1 < 2 ^ 32) :
    r.Leads [q] [(r.answer q).1] (r.answer q).2 := by
  cases hq : q.refusal? with
  | some refusal =>
    rw [answer_of_refused hq]
    refine ⟨hstep, ?_, .cons (.inr ⟨refusal, hq, rfl⟩) .nil⟩
    simp [Request.names_cons_of_refused hq, List.removeAll]
  | none =>
    have hnames : Request.names [q] = [q.name] := Request.names_cons_of_accepted hq
    rcases hstep.add_cases q.path with ⟨file, hfile, hadd⟩ | ⟨hnew, hnext, hadd⟩ | ⟨hnew, hfull, -⟩
    · have hmem : q.name ∈ r.paths := hfile.mem
      rw [answer_of_add hq hadd hfile.1]
      exact ⟨hstep,
        by simp [hnames, List.cons_removeAll, hmem], .cons (.inl ⟨hq, file, rfl, hfile⟩) .nil⟩
    · have hnew : q.name ∉ r.paths := hnew
      obtain ⟨hstep', hfile⟩ := hstep.append hnew hnext
      rw [answer_of_add hq hadd hfile.1]
      refine ⟨hstep', ?_, .cons (.inl ⟨hq, _, rfl, hfile⟩) .nil⟩
      change r.paths ++ [q.name] = _
      simp [hnames, List.cons_removeAll, hnew, List.eraseDups_cons]
    · -- the file is new and there is no number for it
      rcases hroom with hmem | hlt
      · exact absurd hmem hnew
      · omega

/-- Requests in a row lead on one after the other. -/
theorem Leads.append {r' r'' : Registry} {qs' : List Request}
    {as as' : List (Except Diagnostic UInt32)}
    (h : r.Leads qs as r') (h' : r'.Leads qs' as' r'') : r.Leads (qs ++ qs') (as ++ as') r'' where
  inStep := h'.inStep
  paths_eq := by
    rw [Request.names_append, eraseDups_removeAll_append, ← List.append_assoc, ← h.paths_eq]
    exact h'.paths_eq
  agrees :=
    have hgrown : r'.paths <+: r''.paths := ⟨_, h'.paths_eq.symm⟩
    List.rel_append (h.agrees.imp fun _ _ hagrees => hagrees.mono hgrown) h'.agrees

/-- The path names of a registry are those it had before and those that were asked for. -/
theorem Leads.subset {r' : Registry} {as : List (Except Diagnostic UInt32)} (h : r.Leads qs as r') :
    r'.paths ⊆ r.paths ++ qs.map Request.name := by
  intro name hname
  rw [h.paths_eq, List.mem_append, List.mem_eraseDups] at hname
  rcases hname with hold | hnew
  · exact List.mem_append_left _ hold
  · exact List.mem_append_right _ (Request.names_subset (List.mem_filter.mp hnew).1)

/-- A run of requests leads to what it asks for if there are numbers for all files. -/
theorem InStep.leads_run (hstep : r.InStep)
    (hroom : (r.paths ++ qs.map Request.name).toFinset.card < 2 ^ 32) :
    r.Leads qs (r.run qs).1 (r.run qs).2 := by
  induction qs generalizing r with
  | nil => exact ⟨hstep, by simp [run, List.removeAll], .nil⟩
  | cons q qs ih =>
    have hone : r.Leads [q] [(r.answer q).1] (r.answer q).2 := by
      refine hstep.leads_answer (or_iff_not_imp_left.mpr fun hnew => ?_)
      -- the name is one more among those that there are numbers for
      have hcard : (q.name :: r.paths).toFinset.card = r.size + 1 :=
        List.toFinset_card_of_nodup (List.nodup_cons.mpr ⟨hnew, hstep.nodup_paths⟩)
      have hsubset :
          (q.name :: r.paths).toFinset ⊆ (r.paths ++ (q :: qs).map Request.name).toFinset := by
        intro name
        simp only [List.mem_toFinset, List.mem_append, List.map_cons, List.mem_cons]
        tauto
      have hle := Finset.card_le_card hsubset
      omega
    refine hone.append (ih hone.inStep (Nat.lt_of_le_of_lt (Finset.card_le_card ?_) hroom))
    intro name hname
    rw [List.mem_toFinset, List.mem_append] at hname ⊢
    rw [List.map_cons, List.mem_cons]
    rcases hname with hpath | hlater
    · have hmem := hone.subset hpath
      rw [List.map_singleton, List.mem_append, List.mem_singleton] at hmem
      tauto
    · tauto

/-! ## The numbers of a run -/

/-- The answers of a new registry to a run of requests. -/
def answers (qs : List Request) : List (Except Diagnostic UInt32) := (run {} qs).1

/-- The registry after a run of requests to a new one. -/
def after (qs : List Request) : Registry := (run {} qs).2

/-- Requests in a row are answered one after the other. -/
theorem run_append (qs qs' : List Request) : r.run (qs ++ qs') =
    ((r.run qs).1 ++ ((r.run qs).2.run qs').1, ((r.run qs).2.run qs').2) := by
  induction qs generalizing r with
  | nil => rfl
  | cons q qs ih => simp only [List.cons_append, run, ih]

/-- Every request is answered. -/
theorem length_run : (r.run qs).1.length = qs.length := by
  induction qs generalizing r with
  | nil => rfl
  | cons q qs ih => exact congrArg Nat.succ ih

/-- What comes later does not matter to an answer. -/
theorem getElem?_answers_take {i k : Nat} (hi : i < k) (hlt : i < qs.length) :
    (answers (qs.take k))[i]? = (answers qs)[i]? := by
  have hlength : i < (answers (qs.take k)).length := by
    rw [answers, length_run, List.length_take]
    omega
  have happend := congrArg Prod.fst (run_append (r := {}) (qs.take k) (qs.drop k))
  rw [List.take_append_drop] at happend
  change answers qs = answers (qs.take k) ++ _ at happend
  rw [happend, List.getElem?_append_left hlength]

/-- The numbers among some answers go together with the names that were registered. -/
theorem forall₂_numbers {as : List (Except Diagnostic UInt32)} (h : List.Forall₂ r.Agrees qs as) :
    List.Forall₂ r.Knows (as.filterMap Except.toOption) (Request.names qs) := by
  induction h with
  | nil => exact .nil
  | @cons q answer qs as hagrees _ ih =>
    rcases hagrees with ⟨hq, file, rfl, hfile⟩ | ⟨refusal, hq, rfl⟩
    · rw [Request.names_cons_of_accepted hq]
      exact .cons hfile ih
    · rw [Request.names_cons_of_refused hq]
      exact ih

/-- A run of requests leads to what it asks for if its files have fewer names than there are
numbers. -/
theorem leads_after (hroom : (qs.map Request.name).toFinset.card < 2 ^ 32) :
    ({} : Registry).Leads qs (answers qs) (after qs) :=
  inStep_empty.leads_run hroom

/-- Each request has an answer, which says what the registry knows at the end. -/
theorem Leads.exists_answer {r' : Registry} {as : List (Except Diagnostic UInt32)}
    (h : r.Leads qs as r')
    {i : Nat} (hq : qs[i]? = some q) : ∃ answer, as[i]? = some answer ∧ r'.Agrees q answer := by
  obtain ⟨hi, rfl⟩ := List.getElem?_eq_some_iff.mp hq
  have hi' : i < as.length := h.agrees.length_eq ▸ hi
  exact ⟨as[i], List.getElem?_eq_getElem hi', h.agrees.get hi hi'⟩

/-- An answer with a number says what the number stands for. -/
theorem Leads.knows {r' : Registry} {as : List (Except Diagnostic UInt32)}
    (h : r.Leads qs as r') {i : Nat}
    {file : UInt32} (hq : qs[i]? = some q) (hfile : as[i]? = some (.ok file)) :
    r'.Knows file q.name := by
  obtain ⟨answer, hanswer, ⟨-, file', rfl, hknows⟩ | ⟨_, -, rfl⟩⟩ := h.exists_answer hq
  · cases hfile.symm.trans hanswer
    exact hknows
  · cases hfile.symm.trans hanswer

/-- In a registry in step the numbers of the path names, one after the other, are those from one
on. -/
theorem InStep.map_toNat_eq (hstep : r.InStep) {files : List UInt32}
    (h : List.Forall₂ r.Knows files r.paths) : files.map UInt32.toNat = List.range' 1 r.size := by
  have hlength : files.length = r.size := h.length_eq
  refine List.ext_getElem (by simpa using hlength) fun i hi hi' => ?_
  rw [List.length_map] at hi
  rw [List.length_range', size] at hi'
  obtain ⟨file, hfile, htoNat⟩ := hstep.exists_knows (List.getElem?_eq_getElem hi')
  have hknows : r.Knows files[i] r.paths[i] := h.get hi hi'
  rw [List.getElem_map, List.getElem_range', hstep.file_unique hknows hfile, htoNat]
  omega

/-- The numbers among the answers of a new registry, each where it comes first, are those from one
on. -/
theorem Leads.numbers_eq {r' : Registry} {as : List (Except Diagnostic UInt32)}
    (h : ({} : Registry).Leads qs as r') :
    (as.filterMap Except.toOption).eraseDups.map UInt32.toNat = List.range' 1 r'.size := by
  have hpaths : r'.paths = (Request.names qs).eraseDups := by simpa using h.paths_eq
  have hnumbers := forall₂_eraseDups h.inStep.eq_iff (forall₂_numbers h.agrees)
  rw [← hpaths] at hnumbers
  exact h.inStep.map_toNat_eq hnumbers

/-- A file that is refused leaves a registry what it was. -/
theorem after_take_succ {i : Nat} {refusal : Loaded.Refusal} (hq : qs[i]? = some q)
    (hrefused : q.refusal? = some refusal) :
    after (qs.take (i + 1)) = after (qs.take i) := by
  rw [after, List.take_add_one, hq, Option.toList_some, run_append]
  change ((after (qs.take i)).answer q).2 = _
  rw [answer_of_refused hrefused]

/-- What is to be known of the numbers that a run of requests to a new registry gives. -/
structure NumbersFiles (qs : List Request) : Prop where
  /-- The numbers are those from one up to the number of files, and new ones come in this order. -/
  in_order : ((answers qs).filterMap Except.toOption).eraseDups.map UInt32.toNat =
    List.range' 1 (after qs).size
  /-- Two answers are the same number if the path names are the same in normal spelling. -/
  same_iff : ∀ {i j : Nat} {p q : Request} {file file' : UInt32}, qs[i]? = some p →
    qs[j]? = some q →
    (answers qs)[i]? = some (.ok file) → (answers qs)[j]? = some (.ok file') →
      (file = file' ↔ normalBytes p.path = normalBytes q.path)
  /-- From its request on a number stands for the path name in normal spelling. -/
  path_eq : ∀ {i k : Nat} {q : Request} {file : UInt32}, qs[i]? = some q →
    (answers qs)[i]? = some (.ok file) → i < k → (after (qs.take k)).path file = normalBytes q.path
  /-- Other numbers stand for nothing. -/
  path_unknown : ∀ file : UInt32, file = 0 ∨ (after qs).size < file.toNat →
    (after qs).path file = []
  /-- A file that is not refused gets a number. -/
  accepted : ∀ {i : Nat} {q : Request}, qs[i]? = some q → q.refusal? = none →
    ∃ file, (answers qs)[i]? = some (.ok file)
  /-- A file that is refused gets the diagnostic that says why, and the registry stays what it was.
  It is refused if it cannot be opened, if it is too large and if there is no memory for it. -/
  refused : ∀ {i : Nat} {q : Request} {refusal : Loaded.Refusal}, qs[i]? = some q →
    q.refusal? = some refusal →
      (answers qs)[i]? = some (.error (refusal.diagnostic q.path)) ∧
        after (qs.take (i + 1)) = after (qs.take i)

/-- A run of requests to a new registry numbers the files, whatever is registered again under
another spelling and whatever is refused, as long as there are no more files than numbers. -/
theorem numbers_runs (qs : List Request) (hroom : (qs.map Request.name).toFinset.card < 2 ^ 32) :
    NumbersFiles qs := by
  have h := leads_after hroom
  -- what holds of all requests holds of the first ones, which name no more files
  have hleads (k : Nat) :
      ({} : Registry).Leads (qs.take k) (answers (qs.take k)) (after (qs.take k)) := by
    refine leads_after (Nat.lt_of_le_of_lt (Finset.card_le_card fun name hname => ?_) hroom)
    rw [List.mem_toFinset, List.map_take] at hname
    exact List.mem_toFinset.mpr (List.mem_of_mem_take hname)
  constructor
  case in_order => exact h.numbers_eq
  case same_iff =>
    intro i j p q file file' hp hq hfile hfile'
    exact h.inStep.eq_iff (h.knows hp hfile) (h.knows hq hfile')
  case path_eq =>
    intro i k q file hq hfile hik
    have hlt : i < qs.length := (List.getElem?_eq_some_iff.mp hq).1
    have hq' : (qs.take k)[i]? = some q := by rw [List.getElem?_take_of_lt hik, hq]
    rw [← getElem?_answers_take hik hlt] at hfile
    exact ((hleads k).knows hq' hfile).path_eq
  case path_unknown =>
    exact fun file hfile => path_eq_nil hfile
  case accepted =>
    intro i q hq haccepted
    obtain ⟨answer, hanswer, ⟨-, file, rfl, -⟩ | ⟨refusal, hrefused, -⟩⟩ := h.exists_answer hq
    · exact ⟨file, hanswer⟩
    · rw [haccepted] at hrefused
      cases hrefused
  case refused =>
    intro i q refusal hq hrefused
    obtain ⟨answer, hanswer, ⟨haccepted, -⟩ | ⟨reason, hreason, rfl⟩⟩ := h.exists_answer hq
    · rw [haccepted] at hrefused
      cases hrefused
    · rw [hreason] at hrefused
      cases hrefused
      exact ⟨hanswer, after_take_succ hq hreason⟩

/-- A file under two spellings, one that cannot be opened at first, and one that there is no memory
for. -/
theorem numbers_runs_respelled :
    let qs : List Request :=
      [.add (Bytes.ofString "a/./b.bas"), .load .utf8 (Bytes.ofString "c.bas") none true,
        .load .utf8 (Bytes.ofString "d.bas") (some []) false,
        .load .windows1252 (Bytes.ofString "a/b.bas") (some [0x80]) true,
        .add (Bytes.ofString "a/../c.bas")]
    (qs.map Request.name).toFinset.card < 2 ^ 32 ∧ NumbersFiles qs := by
  intro qs
  have hroom : (qs.map Request.name).toFinset.card < 2 ^ 32 :=
    Nat.lt_of_le_of_lt (List.toFinset_card_le _) (by decide)
  exact ⟨hroom, numbers_runs qs hroom⟩

/-- What the registry answers when the file is asked for again. -/
example :
    (answers [.add (Bytes.ofString "a/./b.bas"), .load .utf8 (Bytes.ofString "c.bas") none true,
      .load .utf8 (Bytes.ofString "d.bas") (some []) false,
      .load .windows1252 (Bytes.ofString "a/b.bas") (some [0x80]) true,
      .add (Bytes.ofString "a/../c.bas")]).map Except.toOption =
        [some 1, none, none, some 1, some 2] := by
  decide

end Registry

end LosslessBasic
