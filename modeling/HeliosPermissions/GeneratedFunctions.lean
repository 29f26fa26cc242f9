import HeliosPermissions.EmittedText

/-!
# The functions of the generated module

The guards that the emitter writes below the tables, on the names that the module
binds. Each looks a table up and compares strings; a table that is a string where a
tuple is meant is searched for a substring. Their lines are the same in every module
that is read, so what is defined here is what such a module defines.
-/

namespace HeliosPermissions.GeneratedFunctions

open ContractValidation ContractEmitter PythonModules EmittedModule EmittedTables EmittedText

/-- A module that is read ends in the lines of the seven functions as the emitter has them. -/
theorem functions_of_readModule {text : List Char} {m : Env} (h : readModule text = some m) :
    ∃ front, text = front ++ (spelled (resolvePermissionsLines ++ roleHasPermissionLines ++
      isSelfScopeLines ++ isPlatformGrantableLines ++ isTenantGrantableLines ++
      isPermissionLines ++ isRoleLines) ++ ['\n']) := by
  obtain ⟨front, hfront⟩ := suffix_of_readModuleEnding h
  exact ⟨front, hfront.symm⟩

/-- The tuple of a scope. -/
def tupleName : PermScope → String
  | .self => "SELF_PERMISSIONS"
  | .platform => "PLATFORM_PERMISSIONS"
  | .project => "PROJECT_PERMISSIONS"
  | .platformProject => "DUAL_PERMISSIONS"

/-- `PERM_SCOPE.get(perm)`. -/
def permScope (m : Env) (perm : String) : Option PyValue :=
  match m.lookup "PERM_SCOPE" with
  | some (.dict entries) => dictGet entries perm
  | _ => none

/-- `is_platform_grantable`, which `isPlatformGrantableLines` defines. -/
def isPlatformGrantable (m : Env) (perm : String) : Bool :=
  match permScope m perm with
  | some s => s.isStr "platform" || s.isStr "platform/project"
  | none => false

/-- `is_tenant_grantable`, which `isTenantGrantableLines` defines. A perm without a scope is one
of a tenant. -/
def isTenantGrantable (m : Env) (perm : String) : Bool :=
  match permScope m perm with
  | none => true
  | some s => s.isStr "project" || s.isStr "platform/project"

/-- `is_role`, which `isRoleLines` defines. -/
def isRole (m : Env) (value : PyValue) : Bool :=
  match value, m.lookup "ROLES" with
  | .str s, some roles => roles.holds s
  | _, _ => false

/-- `is_self_scope`, which `isSelfScopeLines` defines. -/
def isSelfScope (m : Env) (perm : String) : Bool :=
  match permScope m perm with
  | some s => s.isStr "self"
  | none => false

/-- `is_permission`, which `isPermissionLines` defines. -/
def isPermission (m : Env) (value : PyValue) : Bool :=
  match value with
  | .str s => (permScope m s).isSome
  | _ => false

/-- What looking a role up can raise. -/
inductive LookupError where
  | nameError
  | typeError
  | keyError (key : String)

/-- `resolve_permissions`, which `resolvePermissionsLines` defines. -/
def resolvePermissions (m : Env) (role : String) : Except LookupError PyValue :=
  match m.lookup "ROLE_PERMISSIONS" with
  | some (.dict entries) =>
    match dictGet entries role with
    | some perms => .ok perms
    | none => .error (.keyError role)
  | some _ => .error .typeError
  | none => .error .nameError

/-- `role_has_permission`, which `roleHasPermissionLines` defines. -/
def roleHasPermission (m : Env) (role perm : String) : Except LookupError Bool :=
  (resolvePermissions m role).map (·.holds perm)

section tables

variable {tables : Tables}

/-- A module of tables holds the tuple of each scope. -/
theorem lookup_tuple (scope : PermScope) :
    tables.env.lookup (tupleName scope) = some (.strings (tables.bucket scope)) := by
  cases scope with
  | self => rfl
  | platform => rfl
  | project => rfl
  | platformProject => rfl

/-- It holds `PERM_SCOPE`. -/
theorem lookup_permScope :
    tables.env.lookup "PERM_SCOPE" = some (.dict (scopeEntries tables.bucket)) := rfl

/-- It holds `ROLES`. -/
theorem lookup_roles : tables.env.lookup "ROLES" = some (parenthesised tables.roles) := rfl

/-- It holds `ROLE_PERMISSIONS`. -/
theorem lookup_rolePermissions : tables.env.lookup "ROLE_PERMISSIONS" =
    some (.dict (grantEntries tables.rolePermissions)) := rfl

/-- The rows of `PERM_SCOPE` are the permissions of the buckets. -/
theorem mem_scopeEntries {bucket : PermScope → List String} {perm : String} {value : PyValue} :
    (perm, value) ∈ scopeEntries bucket ↔
      ∃ scope, perm ∈ bucket scope ∧ value = .str scope.text := by
  constructor
  · intro h
    obtain ⟨scope, -, hscope⟩ := List.mem_flatMap.mp h
    obtain ⟨name, hname, heq⟩ := List.mem_map.mp hscope
    cases heq
    exact ⟨scope, hname, rfl⟩
  · rintro ⟨scope, hperm, rfl⟩
    exact List.mem_flatMap.mpr ⟨scope, scope.mem_all, List.mem_map.mpr ⟨perm, hperm, rfl⟩⟩

/-- The members of the tuples are the keys of `PERM_SCOPE`. -/
theorem permScope_isSome_iff {perm : String} :
    (permScope tables.env perm).isSome ↔ ∃ scope, perm ∈ tables.bucket scope := by
  rw [permScope, lookup_permScope]
  dsimp only
  rw [dictGet_isSome_iff]
  constructor
  · rintro ⟨value, hvalue⟩
    obtain ⟨scope, hmem, -⟩ := mem_scopeEntries.mp hvalue
    exact ⟨scope, hmem⟩
  · rintro ⟨scope, hmem⟩
    exact ⟨_, mem_scopeEntries.mpr ⟨scope, hmem, rfl⟩⟩

/-- The scope of a perm that is in one tuple only. -/
theorem permScope_of_unique {perm : String} {scope : PermScope} (h : perm ∈ tables.bucket scope)
    (hunique : ∀ other, perm ∈ tables.bucket other → other = scope) :
    permScope tables.env perm = some (.str scope.text) := by
  rw [permScope, lookup_permScope]
  refine dictGet_of_unique (mem_scopeEntries.mpr ⟨scope, h, rfl⟩) ?_
  intro value hvalue
  obtain ⟨other, hother, rfl⟩ := mem_scopeEntries.mp hvalue
  rw [hunique other hother]

/-- The two scopes of the platform track. -/
theorem isPlatformGrantable_iff {m : Env} {perm : String} : isPlatformGrantable m perm = true ↔
    permScope m perm = some (.str "platform") ∨
      permScope m perm = some (.str "platform/project") := by
  rw [isPlatformGrantable]
  cases permScope m perm with
  | none => simp
  | some value =>
    cases value with
    | str s => simp [PyValue.isStr]
    | _ => simp [PyValue.isStr]

/-- A scope that is looked up comes from a tuple with the perm. -/
theorem mem_of_permScope {perm : String} {value : PyValue}
    (h : permScope tables.env perm = some value) :
    ∃ scope, perm ∈ tables.bucket scope ∧ value = .str scope.text := by
  rw [permScope, lookup_permScope] at h
  exact mem_scopeEntries.mp (mem_of_dictGet h)

/-- `is_permission` knows what is in a bucket. -/
theorem isPermission_iff {perm : String} : isPermission tables.env (.str perm) = true ↔
    ∃ scope, perm ∈ tables.bucket scope :=
  permScope_isSome_iff

/-- What passes for universal is in the tuple of universal perms. -/
theorem mem_of_isSelfScope {perm : String} (h : isSelfScope tables.env perm = true) :
    perm ∈ tables.bucket .self := by
  unfold isSelfScope at h
  cases hscope : permScope tables.env perm with
  | none =>
    rw [hscope] at h
    cases h
  | some value =>
    obtain ⟨scope, hmem, rfl⟩ := mem_of_permScope hscope
    rw [hscope] at h
    have htext : scope.text = "self" := of_decide_eq_true h
    cases scope with
    | self => exact hmem
    | platform => exact absurd htext (by decide)
    | project => exact absurd htext (by decide)
    | platformProject => exact absurd htext (by decide)

/-- A perm that is in that tuple only passes for universal. -/
theorem isSelfScope_of_unique {perm : String} (h : perm ∈ tables.bucket .self)
    (hunique : ∀ other, perm ∈ tables.bucket other → other = .self) :
    isSelfScope tables.env perm = true := by
  rw [isSelfScope, permScope_of_unique h hunique]
  rfl

/-- The roles that are looked up are the ones written. -/
theorem resolvePermissions_eq (role : String) : resolvePermissions tables.env role =
    match dictGet (grantEntries tables.rolePermissions) role with
    | some perms => .ok perms
    | none => .error (.keyError role) := by
  rw [resolvePermissions, lookup_rolePermissions]

/-- The perms that a role is resolved to are those of an entry. -/
theorem mem_of_resolvePermissions {role : String} {perms : PyValue}
    (h : resolvePermissions tables.env role = .ok perms) :
    ∃ names, (role, names) ∈ tables.rolePermissions ∧ perms = .strings names := by
  rw [resolvePermissions_eq] at h
  split at h
  next found hfound =>
    cases h
    obtain ⟨grant, hgrant, heq⟩ := List.mem_map.mp (mem_of_dictGet hfound)
    cases heq
    exact ⟨grant.2, hgrant, rfl⟩
  next => cases h

/-- A role without an entry is a `KeyError`, and no other. -/
theorem resolvePermissions_error_iff {role : String} {e : LookupError} :
    resolvePermissions tables.env role = .error e ↔
      role ∉ tables.rolePermissions.map Prod.fst ∧ e = .keyError role := by
  have hkey : (dictGet (grantEntries tables.rolePermissions) role).isSome ↔
      role ∈ tables.rolePermissions.map Prod.fst := by
    rw [dictGet_isSome_iff]
    simp [grantEntries]
  rw [resolvePermissions_eq, ← hkey]
  cases dictGet (grantEntries tables.rolePermissions) role with
  | none => simp [eq_comm]
  | some perms => simp

end tables

/-- With the roles as a tuple, the guard accepts its members. -/
theorem isRole_iff {m : Env} {names : List String}
    (h : m.lookup "ROLES" = some (.strings names)) (value : PyValue) :
    isRole m value = true ↔ ∃ s, value = .str s ∧ s ∈ names := by
  cases value with
  | str s => simp [isRole, h, PyValue.holds_strings]
  | _ => simp [isRole]

end HeliosPermissions.GeneratedFunctions
