import HeliosPermissions.ProtectedPerms

/-!
# Known roles and roles with perms

The list of roles and the map from roles to perms are two parts of a contract. The
validator checks that the list is one and that the perms of each entry may be granted,
and it never compares the two. So the guard of the module and its table can disagree:
a role that passes `is_role` raises when it is resolved, or one that does not pass has
perms.
-/

namespace HeliosPermissions.KnownRoles

open JsonValues ContractValidation ContractEmitter PythonLiterals PythonModules EmittedModule
  EmittedTables EmittedText EmittedContract GeneratedFunctions ScopeModel ProtectedPerms

/-- The guard accepts the roles that have an entry: those it accepts are resolved, and it
rejects no role with perms. -/
structure Coincides (m : Env) : Prop where
  /-- What `is_role` accepts is what `resolve_permissions` resolves. -/
  keys : ∀ role, isRole m (.str role) = true ↔ ∃ perms, resolvePermissions m role = .ok perms
  /-- A role that is accepted raises nothing. -/
  resolved : ∀ role perm e, isRole m (.str role) = true →
    resolvePermissions m role ≠ .error e ∧ roleHasPermission m role perm ≠ .error e
  /-- A role that is rejected has no perms. -/
  mapped : ∀ role perm, isRole m (.str role) = false → roleHasPermission m role perm ≠ .ok true

/-- The text is a module in which they coincide. -/
def CoincidesModule (text : String) : Prop :=
  ∃ m, readModule (universalNewlines false text.toList) = some m ∧ Coincides m

/-- The roles of a contract, as they are interpolated, are the keys of its role
permissions. -/
def RolesMapped (numberText : NumberText) (contract : Json) : Prop :=
  ∀ text, (∃ role ∈ roleList contract, jsText numberText role = some text) ↔
    text ∈ (roleGrants contract).map Prod.fst

section tables

variable {tables : Tables}

/-- A role is resolved when it has an entry. -/
theorem resolved_iff {role : String} : (∃ perms, resolvePermissions tables.env role = .ok perms) ↔
    role ∈ tables.rolePermissions.map Prod.fst := by
  cases hresolved : resolvePermissions tables.env role with
  | ok perms =>
    obtain ⟨names, hnames, -⟩ := mem_of_resolvePermissions hresolved
    simpa using ⟨names, hnames⟩
  | error e =>
    obtain ⟨hkey, -⟩ := resolvePermissions_error_iff.mp hresolved
    simpa using hkey

/-- The rest follows from the keys. -/
theorem coincides_of_keys {m : Env}
    (h : ∀ role, isRole m (.str role) = true ↔ ∃ perms, resolvePermissions m role = .ok perms) :
    Coincides m := by
  refine ⟨h, fun role perm e hrole => ?_, fun role perm hrole hperm => ?_⟩
  · obtain ⟨perms, hperms⟩ := (h role).mp hrole
    rw [roleHasPermission, hperms]
    exact ⟨nofun, nofun⟩
  · cases hresolved : resolvePermissions m role with
    | ok perms =>
      rw [(h role).mpr ⟨perms, hresolved⟩] at hrole
      cases hrole
    | error e =>
      rw [roleHasPermission, hresolved] at hperm
      cases hperm

end tables

section modules

variable {numberText : NumberText} {date : Date} {contract : Json} {t : Texts} {text : String}

/-- When the guard and the table of the emitted module coincide. -/
theorem coincides_iff (hemits : Emits numberText contract t) (h : Accepted contract)
    (hplain : PlainNames numberText contract) (htwo : 2 ≤ (roleList contract).length) :
    Coincides (valuesOf t).env ↔ RolesMapped numberText contract := by
  obtain ⟨-, hroles, hgrants⟩ := (hplain.literal hemits).values hemits h
  have hlookup : (valuesOf t).env.lookup "ROLES" = some (.strings t.roles) := by
    rw [lookup_roles, hroles, parenthesised_eq (hemits.roles.length_eq ▸ htwo)]
  have hguard : ∀ role, isRole (valuesOf t).env (.str role) = true ↔
      ∃ value ∈ roleList contract, jsText numberText value = some role := by
    intro role
    rw [isRole_iff hlookup, ← hemits.mem_roles]
    simp
  have hkey : ∀ role, (∃ perms, resolvePermissions (valuesOf t).env role = .ok perms) ↔
      role ∈ (roleGrants contract).map Prod.fst := by
    intro role
    rw [resolved_iff, hgrants]
    exact (hemits.rolePermissions.map Prod.fst).mem_iff
  constructor
  · intro hcoincides role
    rw [← hguard, ← hkey]
    exact hcoincides.keys role
  · intro hmapped
    refine coincides_of_keys fun role => ?_
    rw [hguard, hkey]
    exact hmapped role

/-- For every contract that the validator accepts, with two roles and plain names, the known
roles of the emitted module are those with an entry if and only if the contract has the
same roles in both places, and each scope is listed, without which there is no module. -/
theorem known_roles_iff (hvalid : validateContractInMemory contract = .ok ())
    (hemitted : codegenPy numberText date contract = some text)
    (hplain : PlainNames numberText contract) (htwo : 2 ≤ (roleList contract).length)
    (hdoc : ∀ t, interpolated numberText contract = some t → OneDocstring date t) :
    CoincidesModule text ↔ RolesMapped numberText contract ∧ Populated contract := by
  have haccepted := accepted_of_valid hvalid
  obtain ⟨t, ht, rfl⟩ := Option.map_eq_some_iff.mp hemitted
  have hemits := emits_of_interpolated haccepted ht
  have hread := readModule_emitted hemits haccepted ((hplain.literal hemits).enclosed (hdoc t ht))
  rw [← coincides_iff hemits haccepted hplain htwo, ← hemits.occupied_iff]
  constructor
  · rintro ⟨m, hm, hcoincides⟩
    rw [hread] at hm
    split_ifs at hm with hoccupied
    cases hm
    exact ⟨hcoincides, hoccupied⟩
  · rintro ⟨hcoincides, hoccupied⟩
    exact ⟨_, hread.trans (if_pos hoccupied), hcoincides⟩

end modules

theorem plainNames_four : PlainNames wholeDigits fourContract :=
  plainNames_contractOf needsNoEscape_four (by decide) (by decide)

/-- Two roles, both with an entry. -/
theorem known_roles_four : CoincidesModule (printed (lines newYear fourTexts)) := by
  have hemitted := codegenPy_of_interpolated interpolated_four newYear
  have hdoc := forall_interpolated interpolated_four restEnclosed_four.docstring
  have hroles : roleList fourContract = ["OWNER", "ADMIN"].map .str := rfl
  have hkeys : (roleGrants fourContract).map Prod.fst = ["OWNER", "ADMIN"] := by decide
  refine (known_roles_iff rfl hemitted plainNames_four le_rfl hdoc).mpr ⟨?_, populated_four⟩
  intro text
  rw [hroles, hkeys]
  exact mem_of_strings

/-- A contract whose second role has no entry. -/
def unmappedContract : Json :=
  contractOf ["OWNER", "ADMIN"] fourPerms [("OWNER", ["helios:tenant:view"])]

def unmappedTexts : Texts :=
  textsOf ["OWNER", "ADMIN"] fourPerms [("OWNER", ["helios:tenant:view"])]

theorem interpolated_unmapped : interpolated wholeDigits unmappedContract = some unmappedTexts :=
  interpolated_contractOf _ _ wholeDigits (by decide) (by decide)

/-- The role passes the guard and raises when it is resolved. -/
theorem unmapped_role_raises : ∃ text m,
    validateContractInMemory unmappedContract = .ok () ∧
      codegenPy wholeDigits newYear unmappedContract = some text ∧
      PlainNames wholeDigits unmappedContract ∧ 2 ≤ (roleList unmappedContract).length ∧
      readModule (universalNewlines false text.toList) = some m ∧
      isRole m (.str "ADMIN") = true ∧
      resolvePermissions m "ADMIN" = .error (.keyError "ADMIN") ∧ ¬Coincides m := by
  have hvalid : validateContractInMemory unmappedContract = .ok () := rfl
  have haccepted := accepted_of_valid hvalid
  have hemits := emits_of_interpolated haccepted interpolated_unmapped
  have hplain : PlainNames wholeDigits unmappedContract :=
    plainNames_contractOf (by decide) (by decide) (by decide)
  have hdoc : OneDocstring newYear unmappedTexts :=
    oneDocstring_of_avoids (by decide) (by decide)
  have hread := readModule_emitted hemits haccepted ((hplain.literal hemits).enclosed hdoc)
  have hraises : resolvePermissions (valuesOf unmappedTexts).env "ADMIN" =
      .error (.keyError "ADMIN") :=
    resolvePermissions_error_iff.mpr ⟨by decide, rfl⟩
  have hrole : isRole (valuesOf unmappedTexts).env (.str "ADMIN") = true := by decide
  refine ⟨printed (lines newYear unmappedTexts), (valuesOf unmappedTexts).env, hvalid,
    codegenPy_of_interpolated interpolated_unmapped newYear, hplain, le_rfl,
    hread.trans (if_pos (by decide)), hrole, hraises, fun hcoincides => ?_⟩
  obtain ⟨perms, hperms⟩ := (hcoincides.keys "ADMIN").mp hrole
  rw [hraises] at hperms
  cases hperms

end HeliosPermissions.KnownRoles
