import HeliosPermissions.CodegenRuns
import HeliosPermissions.GuardTracks
import HeliosPermissions.KnownRoles
import HeliosPermissions.WritableContracts

/-!
# How the code generation ends

A run returns when the reply is a contract that passes every check, the emitter gets to
its end and the version is found. Any other run ends with a message or an exception that
says what it met, and only the missing version leaves the file replaced. After a run that
returns, the module in the file decides by the contract that was fetched.
-/

namespace HeliosPermissions.CodegenOutcomes

open JsonValues ContractValidation ContractEmitter PythonModules EmittedModule EmittedText
  EmittedContract ScopeModel ProtectedPerms VersionSentinel CodegenRuns ValidatorVerdicts
  GuardTracks KnownRoles WritableContracts

/-- The contract of a run gets as far as the emitter. -/
structure Reaches (s : Surroundings) (contract : Json) : Prop where
  /-- It is what the mirror has replied. -/
  fetched : s.fetched = .ok contract
  /-- It passes every check. -/
  accepted : Accepted contract
  /-- It can be written under the name of its version. -/
  cached : Cacheable s contract

/-- The emitter prints these texts of a contract that can be written. -/
structure Prints (s : Surroundings) (contract : Json) (t : Texts) : Prop extends
    Reaches s contract where
  /-- The script is there and runs to its end. -/
  ran : ∃ stderr, s.node = .ran stderr
  /-- Every part of the contract can be spelled. -/
  writable : Writable contract
  /-- These are the texts. -/
  emitted : interpolated s.numberText contract = some t

/-- How a run ends, with what it has met and the file that it leaves. -/
inductive Ends (s : Surroundings) (before : GeneratedFile) :
    EStateM.Result Ending GeneratedFile Unit → Prop
  | unreachable {exc : String} (h : s.fetched = .error exc) :
    Ends s before (.error (.failed ("contract fetch failed: " ++ exc)) before)
  | rejected {contract : Json} {rejection : Rejection} (hfetched : s.fetched = .ok contract)
      (hreason : Reason contract (.exits rejection)) :
    Ends s before (.error (.failed (rejection.message s.python)) before)
  | noObject {contract : Json} (hfetched : s.fetched = .ok contract)
      (hreason : Reason contract .attributeError) : Ends s before (.error .attributeError before)
  | unusable {contract : Json} (hfetched : s.fetched = .ok contract)
      (hreason : Reason contract .typeError) : Ends s before (.error .typeError before)
  | noDirectory {contract : Json} (hfetched : s.fetched = .ok contract)
      (haccepted : Accepted contract) (h : s.directory = false) :
    Ends s before (.error .osError before)
  | unnamed {contract : Json} (hfetched : s.fetched = .ok contract)
      (haccepted : Accepted contract) (hdirectory : s.directory = true)
      (h : '\x00' ∈ (versionText s contract).toList) : Ends s before (.error .valueError before)
  | uncached {contract : Json} (hfetched : s.fetched = .ok contract)
      (haccepted : Accepted contract) (hdirectory : s.directory = true)
      (hnamed : '\x00' ∉ (versionText s contract).toList) (h : s.cached = false) :
    Ends s before (.error .osError before)
  | noNode {contract : Json} (hreaches : Reaches s contract) (h : s.node = .missing) :
    Ends s before (.error .osError before)
  | stopped {contract : Json} {status : {n : ℤ // n ≠ 0}} {stderr : String}
      (hreaches : Reaches s contract) (h : s.node = .stopped status stderr) :
    Ends s before (.error (.failed ("codegen-py.mjs exited " ++ toString status ++
      "\nstderr: " ++ stderr)) before)
  | unwritable {contract : Json} {stderr : String} (hreaches : Reaches s contract)
      (h : s.node = .ran stderr) (hunwritable : ¬Writable contract) :
    Ends s before (.error (.failed ("codegen-py.mjs exited " ++ toString (1 : ℤ) ++
      "\nstderr: " ++ stderr)) before)
  | unreferenced {contract : Json} {t : Texts} (hprints : Prints s contract t)
      (h : ¬Referenced s contract t) :
    Ends s before (.error (.failed (notReferenced s (versionText s contract)))
      (some (received s.date t)))
  | returned {contract : Json} {t : Texts} (hprints : Prints s contract t)
      (h : Referenced s contract t) : Ends s before (.ok () (some (received s.date t)))

section runs

variable {s : Surroundings} {before : GeneratedFile} {contract : Json}

/-- A step that ends the run ends it so for everything behind it. -/
theorem error_bind {α β : Type} {x : Step α} {f : α → Step β} {e : Ending}
    (h : x before = .error e before) : (x >>= f) before = .error e before := by
  change EStateM.bind x f before = _
  simp only [EStateM.bind, h]

/-- The validator stops the run with a reason. -/
theorem ends_of_refused {f : Unit → Step Unit} (hfetched : s.fetched = .ok contract)
    {failure : Failure} (hfails : validateContractInMemory contract = .error failure) :
    Ends s before ((validated s contract >>= f) before) := by
  have hreason := reason_of_error hfails
  cases failure with
  | exits rejection =>
    have hstops : validated s contract before =
        .error (.failed (rejection.message s.python)) before := by
      rw [validated, hfails]
      rfl
    rw [error_bind hstops]
    exact .rejected hfetched hreason
  | attributeError =>
    have hstops : validated s contract before = .error .attributeError before := by
      rw [validated, hfails]
      rfl
    rw [error_bind hstops]
    exact .noObject hfetched hreason
  | typeError =>
    have hstops : validated s contract before = .error .typeError before := by
      rw [validated, hfails]
      rfl
    rw [error_bind hstops]
    exact .unusable hfetched hreason

/-- A contract that cannot be cached stops the run. -/
theorem ends_of_uncacheable {f : Unit → Step Unit} (hfetched : s.fetched = .ok contract)
    (haccepted : Accepted contract) (h : ¬Cacheable s contract) :
    Ends s before ((cacheContract s contract >>= f) before) := by
  by_cases hdirectory : s.directory = true
  · by_cases hnul : '\x00' ∈ (versionText s contract).toList
    · have hstops : cacheContract s contract before = .error .valueError before := by
        rw [cacheContract, if_pos hdirectory, if_pos hnul]
        rfl
      rw [error_bind hstops]
      exact .unnamed hfetched haccepted hdirectory hnul
    · have hrefused : ¬s.cached = true := fun hcached => h ⟨hdirectory, hnul, hcached⟩
      have hstops : cacheContract s contract before = .error .osError before := by
        rw [cacheContract, if_pos hdirectory, if_neg hnul, if_neg hrefused]
        rfl
      rw [error_bind hstops]
      exact .uncached hfetched haccepted hdirectory hnul (Bool.eq_false_of_not_eq_true hrefused)
  · have hstops : cacheContract s contract before = .error .osError before := by
      rw [cacheContract, if_neg hdirectory]
      rfl
    rw [error_bind hstops]
    exact .noDirectory hfetched haccepted (Bool.eq_false_of_not_eq_true hdirectory)

/-- From the emitter on. -/
theorem ends_of_reaches (hreaches : Reaches s contract) : Ends s before ((do
    let generated ← runCodegenPy s contract
    set (some generated)
    let version := versionText s contract
    if occursIn (sentinel version) generated then pure ()
    else fail (notReferenced s version) : Step Unit) before) := by
  cases hnode : s.node with
  | missing =>
    have hstops : runCodegenPy s contract before = .error .osError before := by
      rw [runCodegenPy, hnode]
      rfl
    rw [error_bind hstops]
    exact .noNode hreaches hnode
  | stopped status stderr =>
    have hstops : runCodegenPy s contract before = .error (.failed ("codegen-py.mjs exited " ++
        toString status ++ "\nstderr: " ++ stderr)) before := by
      rw [runCodegenPy, hnode]
      rfl
    rw [error_bind hstops]
    exact .stopped hreaches hnode
  | ran stderr =>
    have hwritable : (interpolated s.numberText contract).isSome ↔ Writable contract :=
      interpolated_isSome_iff hreaches.accepted
    cases hemitted : interpolated s.numberText contract with
    | none =>
      have hstops : runCodegenPy s contract before = .error (.failed ("codegen-py.mjs exited " ++
          toString (1 : ℤ) ++ "\nstderr: " ++ stderr)) before := by
        rw [runCodegenPy, hnode]
        simp only [codegenPy, hemitted]
        rfl
      rw [error_bind hstops]
      refine .unwritable hreaches hnode fun hall => ?_
      have hsome := hwritable.mpr hall
      rw [hemitted] at hsome
      cases hsome
    | some t =>
      have hran : runCodegenPy s contract before = .ok (received s.date t) before := by
        rw [runCodegenPy, hnode]
        simp only [codegenPy, hemitted]
        rfl
      have hprints : Prints s contract t :=
        ⟨hreaches, ⟨stderr, hnode⟩, hwritable.mp (by rw [hemitted]; rfl), hemitted⟩
      rw [run_bind hran]
      by_cases hreferenced : Referenced s contract t
      · have hends : Ends s before (.ok () (some (received s.date t))) :=
          .returned hprints hreferenced
        rw [Referenced] at hreferenced
        simp only [hreferenced]
        exact hends
      · have hends : Ends s before (.error (.failed (notReferenced s (versionText s contract)))
            (some (received s.date t))) := .unreferenced hprints hreferenced
        rw [Referenced] at hreferenced
        simp only [hreferenced]
        exact hends

/-- Every run of the code generation ends in one of these ways, with the file as it says. -/
theorem main_ends (s : Surroundings) (before : GeneratedFile) :
    Ends s before (main s before) := by
  unfold main
  cases hfetched : s.fetched with
  | error exc =>
    have hstops : fetchContractJson s before =
        .error (.failed ("contract fetch failed: " ++ exc)) before := by
      rw [fetchContractJson, hfetched]
      rfl
    rw [error_bind hstops]
    exact .unreachable hfetched
  | ok contract =>
    have hfetch : fetchContractJson s before = .ok contract before := by
      rw [fetchContractJson, hfetched]
      rfl
    rw [run_bind hfetch]
    cases hverdict : validateContractInMemory contract with
    | error failure => exact ends_of_refused hfetched hverdict
    | ok _ =>
      have haccepted := accepted_of_valid hverdict
      have hvalidated : validated s contract before = .ok () before := by
        rw [validated, hverdict]
        rfl
      rw [run_bind hvalidated]
      rcases cacheContract_cases s contract before with ⟨hcached, hcache⟩ | ⟨-, huncached⟩
      · rw [run_bind hcache]
        exact ends_of_reaches ⟨hfetched, haccepted, hcached⟩
      · exact ends_of_uncacheable hfetched haccepted huncached

/-- The steps up to the write succeed for accepted contracts that can be written. -/
theorem generates_iff {t : Texts} : Generates s contract t ↔ Prints s contract t := by
  constructor
  · intro h
    have haccepted := accepted_of_valid h.valid
    have hsome : (interpolated s.numberText contract).isSome := by
      rw [h.emitted]
      rfl
    have hwritable := (interpolated_isSome_iff haccepted).mp hsome
    exact ⟨⟨h.fetched, haccepted, h.cached⟩, h.ran, hwritable, h.emitted⟩
  · intro h
    exact ⟨h.fetched, valid_iff_accepted.mpr h.accepted, h.cached, h.ran, h.emitted⟩

/-- A run returns when everything it checks is right, with the text in the file. -/
theorem returns_iff {after : GeneratedFile} : main s before = .ok () after ↔
    ∃ contract t, Prints s contract t ∧ Referenced s contract t ∧
      after = some (received s.date t) := by
  constructor
  · intro hreturns
    have hends := main_ends s before
    rw [hreturns] at hends
    cases hends with
    | returned hprints hreferenced => exact ⟨_, _, hprints, hreferenced, rfl⟩
  · rintro ⟨contract, t, hprints, hreferenced, rfl⟩
    have hgenerates := generates_iff.mpr hprints
    rcases main_cases s before with ⟨-, hnone⟩ | ⟨contract', t', hgenerates', hcases⟩
    · exact (hnone contract t hgenerates).elim
    · obtain ⟨rfl, rfl⟩ := hgenerates.unique hgenerates'
      rcases hcases with ⟨-, hmain⟩ | ⟨hmissing, -⟩
      · exact hmain
      · exact (hmissing hreferenced).elim

/-- However a run ends, it ends as what it met says; and it returns, with the text in the file,
exactly when it could fetch, cache and spell an accepted contract and the version is found. -/
theorem main_outcome (s : Surroundings) (before : GeneratedFile) :
    (∀ after, main s before = .ok () after ↔ ∃ contract t, Prints s contract t ∧
        Referenced s contract t ∧ after = some (received s.date t)) ∧
      Ends s before (main s before) :=
  ⟨fun _ => returns_iff, main_ends s before⟩

/-- The file has no carriage returns, so it is read as it stands. -/
theorem universalNewlines_received (date : Date) (t : Texts) :
    universalNewlines false (received date t).toList =
      universalNewlines false (printed (lines date t)).toList := by
  rw [received, String.toList_ofList]
  exact universalNewlines_of_not_mem (not_mem_universalNewlines _ _)

/-- What a run that returns leaves behind: with plain names, and with the version and the
services within the one docstring, the file is a module when each scope is listed and there
is a role, and the module decides by the contract that was fetched and keeps its universal
perms and its transfer apart. -/
theorem returned_module {after : GeneratedFile} (hreturns : main s before = .ok () after) :
    ∃ contract t, s.fetched = .ok contract ∧ Accepted contract ∧
      interpolated s.numberText contract = some t ∧ after = some (received s.date t) ∧
      (PlainNames s.numberText contract → OneDocstring s.date t →
        ((readModule (universalNewlines false (received s.date t).toList)).isSome ↔
            Populated contract) ∧
          ∀ m, readModule (universalNewlines false (received s.date t).toList) = some m →
            Protected m ∧ Decides contract m) := by
  obtain ⟨contract, t, hprints, -, rfl⟩ := returns_iff.mp hreturns
  refine ⟨contract, t, hprints.fetched, hprints.accepted, hprints.emitted, rfl,
    fun hplain hdoc => ?_⟩
  have hemits := emits_of_interpolated hprints.accepted hprints.emitted
  have hread := readModule_emitted hemits hprints.accepted
    ((hplain.literal hemits).enclosed hdoc)
  rw [universalNewlines_received, hread, ← hemits.occupied_iff]
  constructor
  · split_ifs with hoccupied <;> simp [hoccupied]
  · intro m hm
    split_ifs at hm
    cases hm
    exact ⟨protected_of_emits hemits hprints.accepted hplain,
      decides_of_emits hemits hprints.accepted hplain⟩

end runs

/-- A run that meets no obstacle leaves a module behind that decides by its contract. -/
theorem returned_module_four : ∃ file m,
    main (meeting fourContract) none = .ok () (some file) ∧
      readModule (universalNewlines false file.toList) = some m ∧
      Protected m ∧ Decides fourContract m := by
  have hprints := generates_iff.mp generates_four
  have hreferenced : Referenced (meeting fourContract) fourContract fourTexts := by
    have halike : versionText (meeting fourContract) fourContract = fourTexts.version := rfl
    rw [Referenced, halike]
    exact sentinel_occurs_iff_of_alike.mpr (by decide)
  have hreturns : main (meeting fourContract) none = .ok () (some (received newYear fourTexts)) :=
    returns_iff.mpr ⟨_, _, hprints, hreferenced, rfl⟩
  obtain ⟨contract, t, hfetched, -, hemitted, -, hmodule⟩ := returned_module hreturns
  obtain rfl : fourContract = contract := Except.ok.inj (generates_four.fetched.symm.trans hfetched)
  obtain rfl : fourTexts = t := Option.some.inj (generates_four.emitted.symm.trans hemitted)
  obtain ⟨hpopulated, hdecides⟩ := hmodule plainNames_four restEnclosed_four.docstring
  obtain ⟨m, hm⟩ := Option.isSome_iff_exists.mp (hpopulated.mpr populated_four)
  exact ⟨_, m, hreturns, hm, hdecides m hm⟩

end HeliosPermissions.CodegenOutcomes
