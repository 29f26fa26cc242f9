import Mathlib.Algebra.GroupWithZero.Nat
import HeliosPermissions.ContractValidation

/-!
# The emitter of the permission tables

`codegen-py.mjs`, line by line: it sorts the permissions of a contract into four
buckets by scope, writes them and the roles between fixed lines of Python, and prints
the lines. Whatever it interpolates goes into the text as it is. A value that
JavaScript cannot turn into a string, or cannot iterate over, ends the script with an
error and prints nothing. How JavaScript spells a number is a parameter.
-/

namespace HeliosPermissions.ContractEmitter

open JsonValues ContractValidation

/-- The array index that a key of an object stands for, if it does. -/
def arrayIndex (key : String) : Option ℕ :=
  let n := key.toList.foldl (fun n c => 10 * n + (c.toNat - 48)) 0
  if Nat.toDigits 10 n = key.toList ∧ n < 4294967295 then some n else none

/-- `Object.entries`: array indices in ascending order, then the other keys in theirs. -/
def jsEntries (d : OrderedDict String Json) : List (String × Json) :=
  let indexed := d.entries.filter fun e => (arrayIndex e.1).isSome
  indexed.mergeSort (fun a b => (arrayIndex a.1).getD 0 ≤ (arrayIndex b.1).getD 0) ++
    d.entries.filter fun e => !(arrayIndex e.1).isSome

/-- `Object.entries(value)`. The validator lets only objects through to it. -/
def objectEntries : Option Json → Option (List (String × Json))
  | some (.obj fields) => some (jsEntries (dictOf fields))
  | _ => none

/-- `for (const item of value)`. -/
def forOf : Option Json → Option (List Json)
  | some (.arr items) => some items
  | some (.str s) => some (s.toList.map fun c => .str (String.singleton c))
  | _ => none

/-- `value.key`, where a missing property is undefined. -/
def property (value : Json) (key : String) : Option (Option Json) :=
  match value with
  | .null => none
  | _ => some (member value key)

/-- How JavaScript spells a number. -/
abbrev NumberText := JsonNumber → String

section interpolation

variable (numberText : NumberText)

mutual

/-- A value in a template literal. -/
def jsText : Json → Option String
  | .null => some "null"
  | .bool b => some (if b then "true" else "false")
  | .number n => some (numberText n)
  | .str s => some s
  | .arr items => jsJoin "," items
  -- an own `toString` is no function, and `valueOf` gives the object again
  | .obj fields => if ((dictOf fields).get? "toString").isSome then none else some "[object Object]"

/-- `items.join(separator)`. -/
def jsJoin (separator : String) : List Json → Option String
  | [] => some ""
  | [item] => jsItem item
  | item :: rest => do
    let text ← jsItem item
    let more ← jsJoin separator rest
    some (text ++ separator ++ more)

/-- An item of a joined array. -/
def jsItem : Json → Option String
  | .null => some ""
  | .bool b => some (if b then "true" else "false")
  | .number n => some (numberText n)
  | .str s => some s
  | .arr items => jsJoin "," items
  | .obj fields => if ((dictOf fields).get? "toString").isSome then none else some "[object Object]"

end

/-- A property in a template literal. -/
def propertyText : Option Json → Option String
  | none => some "undefined"
  | some value => jsText numberText value

/-- The bucket that a perm goes to, if any, and its name. -/
def bucketOf (p : Json) : Option (Option (PermScope × String)) := do
  let scope ← property p "scope"
  match (scope.bind textOf).bind PermScope.ofText with
  | some s => do
    let name ← property p "name"
    let text ← propertyText numberText name
    some (some (s, text))
  | none => some none

/-- The perms of a service with their buckets. -/
def serviceBuckets (service : String × Json) : Option (List (Option (PermScope × String))) := do
  let perms ← forOf (some service.2)
  perms.mapM (bucketOf numberText)

/-- The name of a role and the names of its perms. -/
def roleTexts (role : String × Json) : Option (String × List String) := do
  let permissions ← property role.2 "permissions"
  let perms ← forOf permissions
  let texts ← perms.mapM (jsText numberText)
  some (role.1, texts)

/-- What is interpolated into the lines. -/
structure Texts where
  /-- `${contract.version}`. -/
  version : String
  /-- The services, with a comma and a blank between them. -/
  services : String
  /-- `SELF`, `PLATFORM`, `PROJECT` and `DUAL`. -/
  bucket : PermScope → List String
  /-- The roles, as JavaScript spells them. -/
  roles : List String
  /-- The roles that are granted permissions, each with these. -/
  rolePermissions : List (String × List String)

/-- The names in one bucket, in order. -/
def namesIn (perms : List (PermScope × String)) (scope : PermScope) : List String :=
  (perms.filter (·.1 = scope)).map Prod.snd

/-- Evaluate everything that is interpolated. -/
def interpolated (contract : Json) : Option Texts := do
  let version ← propertyText numberText (member contract "version")
  let services ← objectEntries (member contract "permissions")
  let perms ← services.mapM (serviceBuckets numberText)
  let .arr names ← member contract "services" | none
  let joined ← jsJoin numberText ", " names
  let .arr roles ← member contract "roles" | none
  let roleNames ← roles.mapM (jsText numberText)
  let defns ← objectEntries (member contract "role_permissions")
  let grants ← defns.mapM (roleTexts numberText)
  some ⟨version, joined, namesIn perms.flatten.reduceOption, roleNames, grants⟩

end interpolation

/-- The day of the generation. -/
structure Date where
  /-- `getUTCFullYear`. -/
  year : Fin 10000
  /-- The month, from 1. -/
  month : Fin 13
  /-- The day of the month, from 1. -/
  day : Fin 32

/-- The lowest decimal digits of a number. -/
def decimal (width n : ℕ) : List Char :=
  ((List.range width).reverse).map fun i => Nat.digitChar (n / 10 ^ i % 10)

/-- The date part of `toISOString`. -/
def Date.text (date : Date) : String :=
  String.ofList (decimal 4 date.year ++ '-' :: decimal 2 date.month ++ '-' :: decimal 2 date.day)

/-- A text between double quotes. -/
def quoted (text : String) : String := "\"" ++ text ++ "\""

/-- `items.map(p => quoted).join(', ')`. -/
def quotedList (items : List String) : String := ", ".intercalate (items.map quoted)

/-- The length of a string in UTF-16 code units. -/
def jsLength (s : String) : ℕ := (s.toList.map fun c => if 0x10000 ≤ c.toNat then 2 else 1).sum

/-- An item on a line of its own. -/
def itemLine (indent item : String) : String := indent ++ quoted item ++ ","

/-- `emitTuple`. -/
def emitTuple (name : String) (items : List String) : List String :=
  [name ++ ": Final[tuple[str, ...]] = ("] ++ items.map (itemLine "    ") ++ [")", ""]

/-- `literalBlock`. -/
def literalBlock (name : String) (items : List String) : List String :=
  let inlineForm := name ++ " = Literal[" ++ quotedList items ++ "]"
  if jsLength inlineForm ≤ 100 ∧ items.length ≤ 6 then [inlineForm]
  else [name ++ " = Literal["] ++ items.map (itemLine "    ") ++ ["]"]

/-- The docstring up to the version. -/
def docstringFront : List String :=
  ["\"\"\"helios-permissions — Role → Permission map and helpers.",
    "",
    "Canonical source of truth for the platform. Generated from the",
    "language-agnostic JSON contract at `wazobiatech/permission-contract`"]

/-- The docstring between the version and the services. -/
def docstringMiddle : List String :=
  ["contract's `permissions.json` and re-run codegen.",
    "",
    "The Helios service imports this module via the published package; Helios",
    "does NOT redefine the map. TS / Python / Go / Laravel SDKs that read the",
    "same JSON contract agree on what OWNER / ADMIN / EDITOR / VIEWER means.",
    "",
    "Permission naming convention: `\x7bservice\x7d:\x7bresource\x7d:\x7baction\x7d`.",
    ""]

/-- The docstring after the services. -/
def docstringBack : List String :=
  ["  - resource — domain noun (project, users, posts, members, ...)",
    "  - action   — verb (view, write, delete, manage, ...)",
    "",
    "v1.3.0 perm scopes — the resolver uses `PERM_SCOPE[perm]` to gate which",
    "path (platform-user vs tenant-user) is valid for a given perm:",
    "",
    "  - `self`              — universal, granted implicitly (no role needed).",
    "  - `platform`          — granted via ROLE_PERMISSIONS (platform-user path);",
    "                           cannot be bundled into a TenantRole.",
    "  - `project`           — granted via TenantRole (tenant-user path);",
    "                           cannot appear in ROLE_PERMISSIONS.",
    "  - `platform/project`  — valid via either path (dual-scope).",
    "",
    "ZIN-4714 — `helios:tenant:transfer` is OWNER-only by design. Ownership",
    "transfer is the single entry point to the OWNER role (`assign_member`",
    "and `create_invitation` refuse `role=OWNER`); it cannot be delegated",
    "to ADMIN.",
    "\"\"\""]

/-- The docstring. -/
def docstring (date : Date) (t : Texts) : List String :=
  docstringFront ++
    ["v" ++ t.version ++ " (generated " ++ date.text ++ "). Do NOT edit by hand — edit the"] ++
    docstringMiddle ++ ["  - service  — one of: " ++ t.services] ++ docstringBack

/-- The lines between the docstring and the tuples. -/
def importLines : List String :=
  ["",
    "# -----------------------------------------------------------------------------",
    "# Permission vocabulary, partitioned by scope (v1.3.0+)",
    "# -----------------------------------------------------------------------------",
    "",
    "from typing import Final, Literal  # noqa: E402",
    ""]

/-- The comments between the tuples and the types. -/
def vocabularyComments : List String :=
  ["# The full set of valid permission strings in the system.",
    "# Use Literal[...] at type-check time for closed-union typo detection."]

/-- The lines between the types and the scopes, with the head of `PERM_SCOPE`. -/
def scopeTypeLines : List String :=
  ["Permission = Literal[SelfPermission | PlatformPermission | ProjectPermission | DualPermission]",
    "",
    "# Mirrors the contract's `scope` enum. Four valid values.",
    "PermScope = Literal[\"self\", \"platform\", \"project\", \"platform/project\"]",
    "",
    "# Perm → scope lookup, populated at module load. The two-track resolver in",
    "# Helios checks `PERM_SCOPE[perm]` to decide which path (platform-user vs",
    "# tenant-user) is valid for the perm.",
    "PERM_SCOPE: Final[dict[str, PermScope]] = \x7b"]

/-- An entry of `PERM_SCOPE`. -/
def scopeLine (scope : PermScope) (name : String) : String :=
  "    " ++ quoted name ++ ": " ++ quoted scope.text ++ ","

/-- The entries of `PERM_SCOPE`, bucket by bucket. -/
def scopeLines (t : Texts) : List String :=
  PermScope.all.flatMap fun scope => (t.bucket scope).map (scopeLine scope)

/-- The lines between the scopes and the roles. -/
def roleComments : List String :=
  ["\x7d",
    "",
    "# The closed set of roles. Mirrors `RoleType` in Helios's Prisma schema."]

/-- The lines between the roles and their perms, with the head of `ROLE_PERMISSIONS`. -/
def roleMapHead : List String :=
  ["",
    "",
    "# -----------------------------------------------------------------------------",
    "# Role → Permission map",
    "# -----------------------------------------------------------------------------",
    "",
    "# ROLE_PERMISSIONS only contains `platform` and `platform/project` perms;",
    "# `self` perms are universal (granted by the resolver's Step 1) and",
    "# `project` perms are for tenant users via TenantRole.",
    "ROLE_PERMISSIONS: Final[dict[str, tuple[str, ...]]] = \x7b"]

/-- An entry of `ROLE_PERMISSIONS`. -/
def roleEntry (role : String × List String) : List String :=
  ["    " ++ quoted role.1 ++ ": ("] ++ role.2.map (itemLine "        ") ++ ["    ),"]

/-- The end of `ROLE_PERMISSIONS`. -/
def roleMapEnd : List String := ["\x7d", "", ""]

/-- `resolve_permissions`. -/
def resolvePermissionsLines : List String :=
  ["def resolve_permissions(role: str) -> tuple[str, ...]:",
    "    \"\"\"Return the read-only permission tuple for a role.",
    "",
    "    Spread it (`list(resolve_permissions(role))`) if you need a mutable",
    "    copy.",
    "    \"\"\"",
    "    return ROLE_PERMISSIONS[role]",
    "",
    ""]

/-- `role_has_permission`. -/
def roleHasPermissionLines : List String :=
  ["def role_has_permission(role: str, perm: str) -> bool:",
    "    \"\"\"`True` if `role` is granted `perm`.",
    "",
    "    Convenience wrapper around `ROLE_PERMISSIONS[role]`. Used by Helios's",
    "    `PermissionResolverService` when resolving per-tenant membership rows.",
    "    \"\"\"",
    "    return perm in ROLE_PERMISSIONS[role]",
    "",
    ""]

/-- `is_self_scope`. -/
def isSelfScopeLines : List String :=
  ["def is_self_scope(perm: str) -> bool:",
    "    \"\"\"`True` if `perm` has scope `self` (universal — granted without",
    "    any role lookup). Used by the resolver's Step 1.",
    "    \"\"\"",
    "    return PERM_SCOPE.get(perm) == \"self\"",
    "",
    ""]

/-- `is_platform_grantable`. -/
def isPlatformGrantableLines : List String :=
  ["def is_platform_grantable(perm: str) -> bool:",
    "    \"\"\"`True` if `perm` is grantable via the platform-user path (scope",
    "    is `platform` or `platform/project`).",
    "    \"\"\"",
    "    s = PERM_SCOPE.get(perm)",
    "    return s == \"platform\" or s == \"platform/project\"",
    "",
    ""]

/-- `is_tenant_grantable`. -/
def isTenantGrantableLines : List String :=
  ["def is_tenant_grantable(perm: str) -> bool:",
    "    \"\"\"`True` if `perm` is grantable via the tenant-user path (scope is",
    "    `project` or `platform/project`, OR scope is unknown — tenant-defined",
    "    perms are always grantable via TenantRole).",
    "    \"\"\"",
    "    if perm not in PERM_SCOPE:",
    "        return True  # tenant-defined perm",
    "    s = PERM_SCOPE[perm]",
    "    return s == \"project\" or s == \"platform/project\"",
    "",
    ""]

/-- `is_permission`. -/
def isPermissionLines : List String :=
  ["def is_permission(value: object) -> bool:",
    "    \"\"\"Type guard — `True` if `value` is a known Permission string.",
    "",
    "    Use at trust boundaries (HTTP request bodies, Kafka payloads) where",
    "    the perm may be an arbitrary string and we want to reject unknowns",
    "    rather than silently return `False`.",
    "    \"\"\"",
    "    if not isinstance(value, str):",
    "        return False",
    "    return value in PERM_SCOPE",
    "",
    ""]

/-- `is_role`. -/
def isRoleLines : List String :=
  ["def is_role(value: object) -> bool:",
    "    \"\"\"Type guard — `True` if `value` is a known Role string.\"\"\"",
    "    return isinstance(value, str) and value in ROLES"]

/-- The functions of the module. -/
def functionLines : List String :=
  resolvePermissionsLines ++ roleHasPermissionLines ++ isSelfScopeLines ++
    isPlatformGrantableLines ++ isTenantGrantableLines ++ isPermissionLines ++ isRoleLines

/-- All lines. -/
def lines (date : Date) (t : Texts) : List String :=
  docstring date t ++ importLines ++
    emitTuple "SELF_PERMISSIONS" (t.bucket .self) ++
    emitTuple "PLATFORM_PERMISSIONS" (t.bucket .platform) ++
    emitTuple "PROJECT_PERMISSIONS" (t.bucket .project) ++
    emitTuple "DUAL_PERMISSIONS" (t.bucket .platformProject) ++
    vocabularyComments ++
    literalBlock "SelfPermission" (t.bucket .self) ++
    literalBlock "PlatformPermission" (t.bucket .platform) ++
    literalBlock "ProjectPermission" (t.bucket .project) ++
    literalBlock "DualPermission" (t.bucket .platformProject) ++
    scopeTypeLines ++ scopeLines t ++ roleComments ++
    ["ROLES: Final[tuple[str, ...]] = (" ++ quotedList t.roles ++ ")",
      "Role = Literal[" ++ quotedList t.roles ++ "]"] ++
    roleMapHead ++ t.rolePermissions.flatMap roleEntry ++ roleMapEnd ++ functionLines

/-- What the script prints: the lines, joined, and two line ends. -/
def printed (lines : List String) : String := "\n".intercalate lines ++ "\n" ++ "\n"

/-- `codegen-py.mjs`: what it prints, unless it ends with an error. -/
def codegenPy (numberText : NumberText) (date : Date) (contract : Json) : Option String :=
  (interpolated numberText contract).map fun t => printed (lines date t)

/-- What is interpolated decides what is printed. -/
theorem codegenPy_of_interpolated {numberText : NumberText} {contract : Json} {t : Texts}
    (h : interpolated numberText contract = some t) (date : Date) :
    codegenPy numberText date contract = some (printed (lines date t)) := by
  rw [codegenPy, h, Option.map_some]

/-- What is interpolated is determined. -/
theorem forall_interpolated {numberText : NumberText} {contract : Json} {t : Texts}
    {P : Texts → Prop} (h : interpolated numberText contract = some t) (hp : P t) :
    ∀ t', interpolated numberText contract = some t' → P t' := by
  intro t' ht'
  rw [h] at ht'
  cases ht'
  exact hp

end HeliosPermissions.ContractEmitter
