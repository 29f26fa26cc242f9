import HeliosPermissions.ScopeModel
import HeliosPermissions.VersionSentinel

/-!
# Runs of the code generation

`main` fetches the contract, validates and caches it, has the emitter print the module,
writes it to `role_permissions.py`, and looks for the version in it. A run can end
through `fail`, or with an exception that nothing catches. The state of a run is the
content of the file. The file is written before the version is looked for, so what
becomes of it is decided by how Python and JavaScript spell the version.
-/

namespace HeliosPermissions.CodegenRuns

open JsonValues ContractValidation ContractEmitter PythonModules EmittedContract
  ScopeModel VersionSentinel

/-- The content of `role_permissions.py`, if it is there. -/
abbrev GeneratedFile := Option String

/-- How a run can end other than by returning. -/
inductive Ending where
  /-- `fail` prints the message and exits. -/
  | failed (message : String)
  | attributeError
  | typeError
  | valueError
  | osError

/-- A part of a run. -/
abbrev Step := EStateM Ending GeneratedFile

/-- What becomes of `node`. -/
inductive NodeRun where
  /-- It cannot be started. -/
  | missing
  /-- It ends with this status before the script does. -/
  | stopped (status : {n : ℤ // n ≠ 0}) (stderr : String)
  /-- The script runs to its end. -/
  | ran (stderr : String)

/-- What a run meets. -/
structure Surroundings where
  /-- The decoded reply, or what went wrong. -/
  fetched : Except String Json
  /-- Whether `.contracts` is there or can be made. -/
  directory : Bool
  /-- Whether the system lets a file be written in it. -/
  cached : Bool
  /-- What becomes of the script. -/
  node : NodeRun
  /-- The day that the script finds. -/
  date : Date
  /-- How Python spells the values of the contract. -/
  python : PythonText
  /-- How JavaScript spells its numbers. -/
  numberText : NumberText

/-- A message and status 1. -/
def fail {α : Type} (message : String) : Step α := throw (.failed message)

/-- `fetch_contract_json`. -/
def fetchContractJson (s : Surroundings) : Step Json :=
  match s.fetched with
  | .ok contract => pure contract
  | .error exc => fail ("contract fetch failed: " ++ exc)

/-- The validator, within a run. -/
def validated (s : Surroundings) (contract : Json) : Step Unit :=
  match validateContractInMemory contract with
  | .ok () => pure ()
  | .error (.exits rejection) => fail (rejection.message s.python)
  | .error .attributeError => throw .attributeError
  | .error .typeError => throw .typeError

/-- `contract['version']` in an f-string. The validator has found it. -/
def versionText (s : Surroundings) (contract : Json) : String :=
  s.python.str ((member contract "version").getD .null)

/-- The contract is written to `.contracts`, in a file with the version in its name. -/
def cacheContract (s : Surroundings) (contract : Json) : Step Unit :=
  if s.directory then
    -- no name has a null character, and `write_text` finds that out before the system does
    if '\x00' ∈ (versionText s contract).toList then throw .valueError
    else if s.cached then pure () else throw .osError
  else throw .osError

/-- A status that is not 0. -/
def exited {α : Type} (status : ℤ) (stderr : String) : Step α :=
  fail ("codegen-py.mjs exited " ++ toString status ++ "\nstderr: " ++ stderr)

/-- `run_codegen_py`. -/
def runCodegenPy (s : Surroundings) (contract : Json) : Step String :=
  match s.node with
  | .missing => throw .osError
  | .stopped status stderr => exited status stderr
  | .ran stderr =>
    match codegenPy s.numberText s.date contract with
    | some text => pure (String.ofList (universalNewlines false text.toList))
    -- an exception that the script does not catch
    | none => exited 1 stderr

/-- The message about a version that the text does not refer to. -/
def notReferenced (s : Surroundings) (version : String) : String :=
  "generated source does not reference contract version " ++ version ++
    " (looking for substring " ++ s.python.repr (.str (sentinel version)) ++ ")"

/-- `main`. -/
def main (s : Surroundings) : Step Unit := do
  let contract ← fetchContractJson s
  validated s contract
  cacheContract s contract
  let generated ← runCodegenPy s contract
  -- the file is replaced before the version is looked for
  set (some generated)
  let version := versionText s contract
  if occursIn (sentinel version) generated then pure () else fail (notReferenced s version)

/-- The file when a run has ended. -/
def fileAfter : EStateM.Result Ending GeneratedFile Unit → GeneratedFile
  | .ok _ after => after
  | .error _ after => after

/-- The contract can be written under the name of its version. -/
structure Cacheable (s : Surroundings) (contract : Json) : Prop where
  /-- The directory is there. -/
  directory : s.directory = true
  /-- The version can stand in a name. -/
  named : '\x00' ∉ (versionText s contract).toList
  /-- The file is written. -/
  written : s.cached = true

/-- Every step up to the write succeeds, with this contract and these texts. -/
structure Generates (s : Surroundings) (contract : Json) (t : Texts) : Prop where
  /-- The reply is this contract. -/
  fetched : s.fetched = .ok contract
  /-- The validator has nothing against it. -/
  valid : validateContractInMemory contract = .ok ()
  /-- It is cached. -/
  cached : Cacheable s contract
  /-- The script runs to its end. -/
  ran : ∃ stderr, s.node = .ran stderr
  /-- It interpolates these texts. -/
  emitted : interpolated s.numberText contract = some t

/-- The version, as Python spells it, is found in what the emitter prints. -/
def Referenced (s : Surroundings) (contract : Json) (t : Texts) : Prop :=
  occursIn (sentinel (versionText s contract)) (received s.date t)

/-- A run that ends through `fail` leaves the file as it was, and it is replaced by output
that passed every check only. -/
structure Untouched (s : Surroundings) (before : GeneratedFile) : Prop where
  /-- A failure leaves the file as it was. -/
  failed : ∀ message after, main s before = .error (.failed message) after → after = before
  /-- What replaces it has passed. -/
  replaced : fileAfter (main s before) ≠ before → ∃ contract t, Generates s contract t ∧
    Referenced s contract t ∧ fileAfter (main s before) = some (received s.date t)

section steps

variable {s : Surroundings} {before : GeneratedFile} {contract : Json}

/-- A step that ends the run with the file as it is. -/
def Stops {α : Type} (x : Step α) (file : GeneratedFile) : Prop := ∃ e, x file = .error e file

/-- What begins with it ends there. -/
theorem Stops.bind {α β : Type} {x : Step α} {f : α → Step β} (h : Stops x before) :
    Stops (x >>= f) before := by
  obtain ⟨e, he⟩ := h
  refine ⟨e, ?_⟩
  change EStateM.bind x f before = _
  simp only [EStateM.bind, he]

/-- A step that returns with the file as it is. -/
theorem run_bind {α β : Type} {x : Step α} {f : α → Step β} {a : α}
    (h : x before = .ok a before) : (x >>= f) before = f a before := by
  change EStateM.bind x f before = _
  simp only [EStateM.bind, h]

/-- What stops after a step that returns. -/
theorem Stops.after {α β : Type} {x : Step α} {f : α → Step β} {a : α}
    (hx : x before = .ok a before) (h : Stops (f a) before) : Stops (x >>= f) before := by
  obtain ⟨e, he⟩ := h
  exact ⟨e, (run_bind hx).trans he⟩

/-- A contract comes, or the run stops. -/
theorem fetchContractJson_cases (s : Surroundings) (before : GeneratedFile) :
    (∃ contract, s.fetched = .ok contract ∧ fetchContractJson s before = .ok contract before) ∨
      Stops (fetchContractJson s) before ∧ ∀ contract, s.fetched ≠ .ok contract := by
  unfold fetchContractJson Stops
  cases s.fetched with
  | ok contract => exact Or.inl ⟨contract, rfl, rfl⟩
  | error exc => exact Or.inr ⟨⟨_, rfl⟩, nofun⟩

/-- The contract is valid, or the run stops. -/
theorem validated_cases (s : Surroundings) (contract : Json) (before : GeneratedFile) :
    validateContractInMemory contract = .ok () ∧ validated s contract before = .ok () before ∨
      Stops (validated s contract) before ∧ validateContractInMemory contract ≠ .ok () := by
  unfold validated Stops
  cases validateContractInMemory contract with
  | ok _ => exact Or.inl ⟨rfl, rfl⟩
  | error failure =>
    refine Or.inr ⟨?_, nofun⟩
    cases failure with
    | exits rejection => exact ⟨_, rfl⟩
    | attributeError => exact ⟨_, rfl⟩
    | typeError => exact ⟨_, rfl⟩

/-- The contract is cached, or the run stops. -/
theorem cacheContract_cases (s : Surroundings) (contract : Json) (before : GeneratedFile) :
    Cacheable s contract ∧ cacheContract s contract before = .ok () before ∨
      Stops (cacheContract s contract) before ∧ ¬Cacheable s contract := by
  unfold cacheContract Stops
  split_ifs with hdirectory hnul hcached
  · exact Or.inr ⟨⟨_, rfl⟩, fun h => h.named hnul⟩
  · exact Or.inl ⟨⟨hdirectory, hnul, hcached⟩, rfl⟩
  · exact Or.inr ⟨⟨_, rfl⟩, fun h => hcached h.written⟩
  · exact Or.inr ⟨⟨_, rfl⟩, fun h => hdirectory h.directory⟩

/-- The script prints its texts, or the run stops. -/
theorem runCodegenPy_cases (s : Surroundings) (contract : Json) (before : GeneratedFile) :
    (∃ t, (∃ stderr, s.node = .ran stderr) ∧ interpolated s.numberText contract = some t ∧
        runCodegenPy s contract before = .ok (received s.date t) before) ∨
      Stops (runCodegenPy s contract) before ∧
        ((∃ stderr, s.node = .ran stderr) → interpolated s.numberText contract = none) := by
  unfold runCodegenPy Stops
  cases s.node with
  | missing => exact Or.inr ⟨⟨_, rfl⟩, nofun⟩
  | stopped status stderr => exact Or.inr ⟨⟨_, rfl⟩, nofun⟩
  | ran stderr =>
    unfold codegenPy
    cases interpolated s.numberText contract with
    | some t => exact Or.inl ⟨t, ⟨stderr, rfl⟩, rfl, rfl⟩
    | none => exact Or.inr ⟨⟨_, rfl⟩, fun _ => rfl⟩

/-- A run ends before the write, or it writes the text and the version decides. -/
theorem main_cases (s : Surroundings) (before : GeneratedFile) :
    Stops (main s) before ∧ (∀ contract t, ¬Generates s contract t) ∨
      ∃ contract t, Generates s contract t ∧
        (Referenced s contract t ∧ main s before = .ok () (some (received s.date t)) ∨
          ¬Referenced s contract t ∧ main s before =
            .error (.failed (notReferenced s (versionText s contract)))
              (some (received s.date t))) := by
  unfold main
  rcases fetchContractJson_cases s before with ⟨contract, hfetched, hfetch⟩ | ⟨hstops, hnone⟩
  · have hsame : ∀ other t, Generates s other t → other = contract := fun other t h =>
      Except.ok.inj (h.fetched.symm.trans hfetched)
    rcases validated_cases s contract before with ⟨hvalid, hvalidated⟩ | ⟨hstops, hinvalid⟩
    · rcases cacheContract_cases s contract before with ⟨hcached, hcache⟩ | ⟨hstops, huncached⟩
      · rcases runCodegenPy_cases s contract before with ⟨t, hran, ht, hrun⟩ | ⟨hstops, hnone⟩
        · refine Or.inr ⟨contract, t, ⟨hfetched, hvalid, hcached, hran, ht⟩, ?_⟩
          rw [run_bind hfetch, run_bind hvalidated, run_bind hcache, run_bind hrun]
          by_cases hreferenced : Referenced s contract t
          · refine Or.inl ⟨hreferenced, ?_⟩
            rw [Referenced] at hreferenced
            simp only [hreferenced]
            rfl
          · refine Or.inr ⟨hreferenced, ?_⟩
            rw [Referenced] at hreferenced
            simp only [hreferenced]
            rfl
        · refine Or.inl ⟨.after hfetch (.after hvalidated (.after hcache hstops.bind)), ?_⟩
          intro other t h
          have hemitted := h.emitted
          rw [hsame other t h, hnone h.ran] at hemitted
          cases hemitted
      · exact Or.inl ⟨.after hfetch (.after hvalidated hstops.bind), fun other t h =>
          huncached (hsame other t h ▸ h.cached)⟩
    · exact Or.inl ⟨.after hfetch hstops.bind, fun other t h =>
        hinvalid (hsame other t h ▸ h.valid)⟩
  · exact Or.inl ⟨hstops.bind, fun contract _ h => hnone contract h.fetched⟩

/-- The contract and the texts of a run are determined. -/
theorem Generates.unique {t : Texts} {contract' : Json} {t' : Texts} (h : Generates s contract t)
    (h' : Generates s contract' t') : contract = contract' ∧ t = t' := by
  have hcontract := Except.ok.inj (h.fetched.symm.trans h'.fetched)
  subst hcontract
  exact ⟨rfl, Option.some.inj (h.emitted.symm.trans h'.emitted)⟩

/-- When a run keeps the promise: a run that gets to the write keeps it when the version is
found, or when the file holds the text already. -/
theorem untouched_iff_referenced (s : Surroundings) (before : GeneratedFile) :
    Untouched s before ↔ ∀ contract t, Generates s contract t →
      Referenced s contract t ∨ before = some (received s.date t) := by
  rcases main_cases s before with ⟨⟨e, hstops⟩, hnone⟩ |
    ⟨contract, t, hgenerates, ⟨hreferenced, hmain⟩ | ⟨hmissing, hmain⟩⟩
  · -- the run stops before the write
    refine iff_of_true ⟨?_, ?_⟩ fun contract t h => (hnone contract t h).elim
    · intro message after hfail
      rw [hstops] at hfail
      cases hfail
      rfl
    · intro hchanged
      rw [hstops] at hchanged
      exact absurd rfl hchanged
  · -- the version is found
    refine iff_of_true ⟨?_, ?_⟩ ?_
    · intro message after hfail
      rw [hmain] at hfail
      cases hfail
    · intro _
      exact ⟨contract, t, hgenerates, hreferenced, by rw [hmain]; rfl⟩
    · intro contract' t' h
      obtain ⟨rfl, rfl⟩ := hgenerates.unique h
      exact Or.inl hreferenced
  · -- it is not, and the text has been written
    constructor
    · intro huntouched contract' t' h
      obtain ⟨rfl, rfl⟩ := hgenerates.unique h
      exact Or.inr (huntouched.failed _ _ hmain).symm
    · intro h
      have hbefore := (h contract t hgenerates).resolve_left hmissing
      refine ⟨?_, ?_⟩
      · intro message' after hfail
        rw [hmain] at hfail
        cases hfail
        exact hbefore.symm
      · intro hchanged
        rw [hmain] at hchanged
        exact absurd hbefore.symm hchanged

/-- When a run keeps the promise, and when the version is found: a version that both spell
alike unless it has carriage returns, and another one, among plain texts, when its spelling
ends as the emitted one does. -/
theorem untouched_iff (s : Surroundings) (before : GeneratedFile) :
    (Untouched s before ↔ ∀ contract t, Generates s contract t →
      Referenced s contract t ∨ before = some (received s.date t)) ∧
    ∀ contract t, Generates s contract t →
      (versionText s contract = t.version →
        (Referenced s contract t ↔ '\r' ∉ t.version.toList)) ∧
      (PlainTexts t → '\n' ∉ (versionText s contract).toList →
        (Referenced s contract t ↔
          'v' :: (versionText s contract).toList <:+ 'v' :: t.version.toList)) := by
  refine ⟨untouched_iff_referenced s before, fun contract t _ => ⟨fun halike => ?_, ?_⟩⟩
  · rw [Referenced, halike]
    exact sentinel_occurs_iff_of_alike
  · exact fun hplain hline => sentinel_occurs_iff hplain hline

end steps

/-- A contract with another version. -/
def reversioned (version : Json) : Json → Json
  | .obj fields => .obj (fields.map fun field =>
      if field.1 = "version" then (field.1, version) else field)
  | other => other

/-- The version is interpolated on its own. -/
theorem interpolated_of_version {numberText : NumberText} {contract contract' : Json} {t : Texts}
    {version : String}
    (hrest : ∀ key ∈ ["permissions", "services", "roles", "role_permissions"],
      member contract' key = member contract key)
    (hversion : propertyText numberText (member contract' "version") = some version)
    (h : interpolated numberText contract = some t) :
    interpolated numberText contract' = some { t with version := version } := by
  obtain ⟨version', -, h⟩ := Option.bind_eq_some_iff.mp h
  obtain ⟨services, hservices, h⟩ := Option.bind_eq_some_iff.mp h
  obtain ⟨buckets, hbuckets, h⟩ := Option.bind_eq_some_iff.mp h
  obtain ⟨names, hnames, h⟩ := Option.bind_eq_some_iff.mp h
  cases names with
  | arr names =>
    obtain ⟨joined, hjoined, h⟩ := Option.bind_eq_some_iff.mp h
    obtain ⟨roles, hroles, h⟩ := Option.bind_eq_some_iff.mp h
    cases roles with
    | arr roles =>
      obtain ⟨roleNames, hroleNames, h⟩ := Option.bind_eq_some_iff.mp h
      obtain ⟨defns, hdefns, h⟩ := Option.bind_eq_some_iff.mp h
      obtain ⟨grants, hgrants, h⟩ := Option.bind_eq_some_iff.mp h
      cases h
      unfold interpolated
      rw [hversion, hrest "permissions" (by decide), hrest "services" (by decide),
        hrest "roles" (by decide), hrest "role_permissions" (by decide)]
      simp only [Option.bind_eq_bind, Option.bind_some, hservices, hbuckets, hnames, hjoined,
        hroles, hroleNames, hdefns, hgrants]
    | _ => cases h
  | _ => cases h

/-- How Python spells the values that hold no others. -/
def pythonRepr : Json → String
  | .null => "None"
  | .bool b => if b then "True" else "False"
  | .number n => wholeDigits n
  | .str s => "'" ++ s ++ "'"
  | .arr _ => "[...]"
  | .obj _ => "..."

/-- Strings stand as they are, where they stand alone. -/
def pythonWords : PythonText where
  str
    | .str s => s
    | value => pythonRepr value
  repr := pythonRepr

/-- A run that meets no obstacle. -/
def meeting (contract : Json) : Surroundings where
  fetched := .ok contract
  directory := true
  cached := true
  node := .ran ""
  date := newYear
  python := pythonWords
  numberText := wholeDigits

/-- The run gets to the write. -/
theorem generates_four : Generates (meeting fourContract) fourContract fourTexts :=
  ⟨rfl, rfl, ⟨rfl, by decide, rfl⟩, ⟨"", rfl⟩, interpolated_four⟩

/-- A version that is a string. -/
theorem untouched_four : Untouched (meeting fourContract) none := by
  obtain ⟨huntouched, hfound⟩ := untouched_iff (meeting fourContract) none
  refine huntouched.mpr fun contract t h => Or.inl ?_
  obtain ⟨rfl, rfl⟩ := generates_four.unique h
  exact ((hfound _ _ generates_four).1 rfl).mpr (by decide)

/-- A contract whose version is no string. -/
def trueContract : Json := reversioned (.bool true) fourContract

/-- Its texts. -/
def trueTexts : Texts := { fourTexts with version := "true" }

/-- JavaScript spells the version in lower case. -/
theorem interpolated_true : interpolated wholeDigits trueContract = some trueTexts := by
  refine interpolated_of_version ?_ rfl interpolated_four
  intro key hkey
  simp only [List.mem_cons, List.not_mem_nil, or_false] at hkey
  rcases hkey with rfl | rfl | rfl | rfl
  · rfl
  · rfl
  · rfl
  · rfl

/-- This run gets to the write too. -/
theorem generates_true : Generates (meeting trueContract) trueContract trueTexts :=
  ⟨rfl, rfl, ⟨rfl, by decide, rfl⟩, ⟨"", rfl⟩, interpolated_true⟩

/-- Its texts break no line. -/
theorem plainTexts_true : PlainTexts trueTexts where
  version := by decide
  services := by decide
  bucket := by
    intro scope
    cases scope with
    | self => decide
    | platform => decide
    | project => decide
    | platformProject => decide
  roles := by decide
  rolePermissions := by decide

/-- The run fails, and the file that was there is replaced. -/
theorem true_version_replaces :
    main (meeting trueContract) (some (received newYear fourTexts)) =
        .error (.failed ("generated source does not reference contract version True " ++
          "(looking for substring 'vTrue (generated')")) (some (received newYear trueTexts)) ∧
      received newYear trueTexts ≠ received newYear fourTexts ∧
      ¬Untouched (meeting trueContract) (some (received newYear fourTexts)) := by
  have hmissing : ¬Referenced (meeting trueContract) trueContract trueTexts := by
    intro hreferenced
    have hends := (sentinel_occurs_iff plainTexts_true (by decide)).mp hreferenced
    exact absurd hends (by decide)
  have hmain : main (meeting trueContract) (some (received newYear fourTexts)) =
      .error (.failed (notReferenced (meeting trueContract) "True"))
        (some (received newYear trueTexts)) := by
    rcases main_cases (meeting trueContract) (some (received newYear fourTexts)) with
      ⟨-, hnone⟩ | ⟨contract, t, hgenerates, ⟨hreferenced, -⟩ | ⟨-, hmain⟩⟩
    · exact (hnone _ _ generates_true).elim
    · obtain ⟨rfl, rfl⟩ := generates_true.unique hgenerates
      exact (hmissing hreferenced).elim
    · obtain ⟨rfl, rfl⟩ := generates_true.unique hgenerates
      exact hmain
  have hother : received newYear trueTexts ≠ received newYear fourTexts := by
    intro hsame
    have hfound : occursIn (sentinel fourTexts.version) (received newYear fourTexts) :=
      sentinel_occurs (by decide)
    rw [← hsame] at hfound
    have hends := (sentinel_occurs_iff plainTexts_true (by decide)).mp hfound
    exact absurd hends (by decide)
  refine ⟨hmain, hother, fun huntouched => ?_⟩
  exact hother (Option.some.inj (huntouched.failed _ _ hmain))

end HeliosPermissions.CodegenRuns
