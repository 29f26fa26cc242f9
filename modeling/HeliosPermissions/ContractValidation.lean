import Mathlib.Data.List.Infix
import HeliosPermissions.CacheKeys
import HeliosPermissions.JsonValues
import HeliosPermissions.OrderedDict

/-!
# The validator of permission contracts

`validate_contract_in_memory` on any decoded JSON value. It flattens the permissions
of all services into one map from names to scopes, where a name that is listed again
takes its last scope, and checks the roles against that map. It ends by returning, by
`fail`, which exits, or with an exception of its own when a value has the wrong type.
-/

namespace HeliosPermissions.ContractValidation

open JsonValues CacheKeys

/-- The scopes of a permission. -/
inductive PermScope where
  | self
  | platform
  | project
  | platformProject
  deriving DecidableEq

/-- How a contract spells a scope. -/
def PermScope.text : PermScope → String
  | .self => "self"
  | .platform => "platform"
  | .project => "project"
  | .platformProject => "platform/project"

/-- All scopes. -/
def PermScope.all : List PermScope := [.self, .platform, .project, .platformProject]

/-- The four scopes are all. -/
@[simp] theorem PermScope.mem_all (scope : PermScope) : scope ∈ PermScope.all := by
  cases scope <;> decide

/-- The scope with this spelling. -/
def PermScope.ofText (s : String) : Option PermScope := PermScope.all.find? (·.text = s)

/-- An object as a dictionary: a repeated name keeps its place and takes its last value. -/
def dictOf (fields : List (String × Json)) : OrderedDict String Json :=
  fields.foldl (fun d f => d.set f.1 f.2) .empty

/-- Without repeated names an object is its fields. -/
theorem entries_dictOf {fields : List (String × Json)} (h : (fields.map Prod.fst).Nodup) :
    (dictOf fields).entries = fields := by
  have hfold : ∀ d : OrderedDict String Json, (∀ key ∈ d.keys, key ∉ fields.map Prod.fst) →
      (fields.foldl (fun d f => d.set f.1 f.2) d).entries = d.entries ++ fields := by
    induction fields with
    | nil => simp
    | cons field rest ih =>
      intro d hfresh
      rw [List.map_cons, List.nodup_cons] at h
      have hnew : field.1 ∉ d.keys := fun hmem => hfresh _ hmem List.mem_cons_self
      have hset : (d.set field.1 field.2).entries = d.entries ++ [field] :=
        OrderedDict.put_of_not_mem hnew
      rw [List.foldl_cons, ih h.2, hset, List.append_assoc, List.singleton_append]
      intro key hkey
      rw [OrderedDict.keys, hset, List.map_append] at hkey
      rcases List.mem_append.mp hkey with hkey | hkey
      · exact fun hmem => hfresh key hkey (List.mem_cons_of_mem _ hmem)
      · obtain rfl := List.mem_singleton.mp hkey
        exact h.1
  exact hfold .empty (by simp [OrderedDict.keys, OrderedDict.empty])

/-- `value.get(key)` of an object. -/
def member (value : Json) (key : String) : Option Json :=
  match value with
  | .obj fields => (dictOf fields).get? key
  | _ => none

/-- `value.items()` of an object. -/
def itemsOf : Option Json → List (String × Json)
  | some (.obj fields) => (dictOf fields).entries
  | _ => []

/-- What `fail` is called about. -/
inductive Rejection where
  | missingVersion
  | missingServices
  | missingRoles
  | missingPermissions
  | missingRolePermissions
  | notAnArray (service : String)
  | barePerm (service perm : String)
  | malformedPerm (service : String) (p : Json)
  | invalidScope (name : String) (scope : Json)
  | missingSelfSuffix (name : String)
  | selfSuffix (name : String) (scope : PermScope)
  | unknownPerm (role : String) (perm : Json)
  | selfPerm (role perm : String)
  | projectPerm (role perm : String)
  | ownerOnly (role : String)
  | missingSwitch
  | switchScope (scope : PermScope)

/-- How Python spells a decoded value. -/
structure PythonText where
  /-- `str(value)`. -/
  str : Json → String
  /-- `repr(value)`. -/
  repr : Json → String

/-- `SWITCH`. -/
def switchPerm : String := "helios:tenant:switch:self"

/-- The message of `fail`. -/
def Rejection.message (python : PythonText) : Rejection → String
  | .missingVersion => "contract missing version"
  | .missingServices => "contract missing services[]"
  | .missingRoles => "contract missing roles[]"
  | .missingPermissions => "contract missing permissions\x7b\x7d"
  | .missingRolePermissions => "contract missing role_permissions\x7b\x7d"
  | .notAnArray service => "permissions[" ++ service ++ "] is not an array"
  | .barePerm service perm => "permissions[" ++ service ++ "] contains a bare string perm \"" ++
      perm ++ "\" — v1.4.0 requires \x7bname, scope\x7d objects"
  | .malformedPerm service p =>
    "permissions[" ++ service ++ "] has a malformed perm: " ++ python.repr p
  | .invalidScope name scope =>
    "perm \"" ++ name ++ "\" has invalid scope \"" ++ python.str scope ++ "\""
  | .missingSelfSuffix name =>
    "perm \"" ++ name ++ "\" has scope \"self\" but is missing the \":self\" suffix"
  | .selfSuffix name scope => "perm \"" ++ name ++ "\" ends with \":self\" but scope is \"" ++
      scope.text ++ "\" (must be \"self\")"
  | .unknownPerm role perm =>
    "role \"" ++ role ++ "\" references unknown perm \"" ++ python.str perm ++ "\""
  | .selfPerm role perm => "role \"" ++ role ++ "\" contains self-scope perm \"" ++ perm ++
      "\" — self perms are universal and must not be in any role"
  | .projectPerm role perm => "role \"" ++ role ++ "\" contains project-scope perm \"" ++ perm ++
      "\" — project perms are tenant-user only and must not be in any role"
  | .ownerOnly role => "role \"" ++ role ++ "\" has OWNER-only perm helios:tenant:transfer"
  | .missingSwitch =>
    "required perm \"" ++ switchPerm ++ "\" is missing from permissions[service]"
  | .switchScope scope => "perm \"" ++ switchPerm ++
      "\" must have scope \"self\" (universal perm), got \"" ++ scope.text ++ "\""

/-- How the validator can end other than by returning. -/
inductive Failure where
  /-- `fail` exits with status 1. -/
  | exits (rejection : Rejection)
  | attributeError
  | typeError

/-- `"text" in container`. -/
def contains (container : Json) (text : String) : Except Failure Bool :=
  match container with
  | .obj fields => .ok ((dictOf fields).get? text).isSome
  | .arr items => .ok (items.any (Json.isStr text))
  | .str s => .ok (decide (text.toList <:+: s.toList))
  | _ => .error .typeError

/-- `for item in value`. -/
def iterate (value : Json) : Except Failure (List Json) :=
  match value with
  | .arr items => .ok items
  | .str s => .ok (s.toList.map fun c => .str (String.singleton c))
  | .obj fields => .ok ((dictOf fields).keys.map .str)
  | _ => .error .typeError

/-- The names that have been flattened so far, with their scopes. -/
abbrev Flat := OrderedDict String PermScope

/-- `scope not in valid_scopes`, for the scope of a perm. -/
def validateScope (name : String) : Option Json → Except Failure PermScope
  | none => .error (.exits (.invalidScope name .null))
  | some (.str s) =>
    match PermScope.ofText s with
    | some scope => .ok scope
    | none => .error (.exits (.invalidScope name (.str s)))
  -- arrays and objects cannot be looked up in a set
  | some (.arr _) => .error .typeError
  | some (.obj _) => .error .typeError
  | some scope => .error (.exits (.invalidScope name scope))

/-- One perm of a service. -/
def validatePerm (service : String) (flat : Flat) (p : Json) : Except Failure Flat :=
  match p with
  | .str perm => .error (.exits (.barePerm service perm))
  | .obj fields =>
    match (dictOf fields).get? "name" with
    | some (.str name) => do
      let scope ← validateScope name ((dictOf fields).get? "scope")
      if scope = .self ∧ endsWith name ":self" = false then
        .error (.exits (.missingSelfSuffix name))
      else if endsWith name ":self" = true ∧ scope ≠ .self then
        .error (.exits (.selfSuffix name scope))
      else .ok (flat.set name scope)
    | _ => .error (.exits (.malformedPerm service p))
  | _ => .error (.exits (.malformedPerm service p))

/-- The perms of a service. -/
def validateService (flat : Flat) (service : String × Json) : Except Failure Flat :=
  match service.2 with
  | .arr perms => perms.foldlM (validatePerm service.1) flat
  | _ => .error (.exits (.notAnArray service.1))

/-- One perm of a role. -/
def validateRolePerm (role : String) (flat : Flat) (perm : Json) : Except Failure Unit :=
  match perm with
  | .arr _ => .error .typeError
  | .obj _ => .error .typeError
  | .str name =>
    match flat.get? name with
    | none => .error (.exits (.unknownPerm role perm))
    | some .self => .error (.exits (.selfPerm role name))
    | some .project => .error (.exits (.projectPerm role name))
    | some _ => .ok ()
  | _ => .error (.exits (.unknownPerm role perm))

/-- `defn.get("permissions", [])`. -/
def rolePerms (defn : Json) : Except Failure Json :=
  match defn with
  | .obj fields => .ok (((dictOf fields).get? "permissions").getD (.arr []))
  | _ => .error .attributeError

/-- One role. -/
def validateRole (flat : Flat) (role : String × Json) : Except Failure Unit := do
  let perms ← rolePerms role.2
  let items ← iterate perms
  items.forM (validateRolePerm role.1 flat)
  let transfers ← contains perms "helios:tenant:transfer"
  if role.1 ≠ "OWNER" ∧ transfers = true then .error (.exits (.ownerOnly role.1)) else .ok ()

/-- The switch perm is there, with scope `self`. -/
def validateSwitch (flat : Flat) : Except Failure Unit :=
  match flat.get? switchPerm with
  | none => .error (.exits .missingSwitch)
  | some scope => if scope ≠ .self then .error (.exits (.switchScope scope)) else .ok ()

/-- `contract.get(key)`. -/
def getMember (contract : Json) (key : String) : Except Failure (Option Json) :=
  match contract with
  | .obj _ => .ok (member contract key)
  | _ => .error .attributeError

/-- `fail` unless the condition holds. -/
def require (condition : Bool) (rejection : Rejection) : Except Failure Unit :=
  if condition then .ok () else .error (.exits rejection)

/-- `isinstance(value, list)`. -/
def isList : Option Json → Bool
  | some (.arr _) => true
  | _ => false

/-- `isinstance(value, dict)`. -/
def isDict : Option Json → Bool
  | some (.obj _) => true
  | _ => false

/-- `validate_contract_in_memory`. -/
def validateContractInMemory (contract : Json) : Except Failure Unit := do
  let hasVersion ← contains contract "version"
  require hasVersion .missingVersion
  let services ← getMember contract "services"
  let roles ← getMember contract "roles"
  let permissions ← getMember contract "permissions"
  let rolePermissions ← getMember contract "role_permissions"
  require (isList services) .missingServices
  require (isList roles) .missingRoles
  require (isDict permissions) .missingPermissions
  require (isDict rolePermissions) .missingRolePermissions
  let flat ← (itemsOf permissions).foldlM validateService .empty
  (itemsOf rolePermissions).forM (validateRole flat)
  validateSwitch flat

/-- The name and the scope of a well-formed perm. -/
def permOf (p : Json) : Option (String × PermScope) :=
  match member p "name", member p "scope" with
  | some (.str name), some (.str s) => (PermScope.ofText s).map fun scope => (name, scope)
  | _, _ => none

/-- The perms of a service that are well-formed. -/
def servicePerms (perms : Json) : List (String × PermScope) :=
  match perms with
  | .arr items => items.filterMap permOf
  | _ => []

/-- All perms that a contract lists, in its order and with repetitions. -/
def listedPerms (contract : Json) : List (String × PermScope) :=
  (itemsOf (member contract "permissions")).flatMap fun service => servicePerms service.2

/-- Flatten perms into a map from names to scopes. -/
def flatten (flat : Flat) (perms : List (String × PermScope)) : Flat :=
  perms.foldl (fun flat perm => flat.set perm.1 perm.2) flat

/-- The map that the validator builds. -/
def flatOf (contract : Json) : Flat := flatten .empty (listedPerms contract)

/-- A string among decoded values. -/
def textOf : Json → Option String
  | .str s => some s
  | _ => none

/-- The perms of a role. -/
def rolePermNames (defn : Json) : List String :=
  match (rolePerms defn).bind iterate with
  | .ok items => items.filterMap textOf
  | .error _ => []

/-- The roles with their perms. -/
def roleGrants (contract : Json) : List (String × List String) :=
  (itemsOf (member contract "role_permissions")).map fun role => (role.1, rolePermNames role.2)

/-- The list of roles. -/
def roleList (contract : Json) : List Json :=
  match member contract "roles" with
  | some (.arr items) => items
  | _ => []

/-- A perm that the validator lets through. -/
def WellFormedPerm (p : Json) : Prop :=
  ∃ name scope, permOf p = some (name, scope) ∧ (scope = .self ↔ endsWith name ":self" = true)

/-- The perms of a service that the validator lets through. -/
def WellFormedService (perms : Json) : Prop :=
  ∃ items, perms = .arr items ∧ ∀ p ∈ items, WellFormedPerm p

/-- A perm that a role may have. -/
def Grantable (flat : Flat) (name : String) : Prop :=
  flat.get? name = some .platform ∨ flat.get? name = some .platformProject

/-- A role that the validator lets through. -/
def WellFormedRole (flat : Flat) (role : String) (defn : Json) : Prop :=
  ∃ perms items, rolePerms defn = .ok perms ∧ iterate perms = .ok items ∧
    (∀ perm ∈ items, ∃ name, perm = .str name ∧ Grantable flat name) ∧
    (role ≠ "OWNER" → contains perms "helios:tenant:transfer" = .ok false)

/-- What the validator has checked when it returns. -/
structure Accepted (contract : Json) : Prop where
  /-- There is a version. -/
  version : (member contract "version").isSome = true
  /-- The services are a list. -/
  services : ∃ items, member contract "services" = some (.arr items)
  /-- The roles are a list. -/
  roles : ∃ items, member contract "roles" = some (.arr items)
  /-- The permissions are an object. -/
  permissions : ∃ fields, member contract "permissions" = some (.obj fields)
  /-- The role permissions are an object. -/
  rolePermissions : ∃ fields, member contract "role_permissions" = some (.obj fields)
  /-- Each service lists permissions with their scopes. -/
  perms : ∀ service ∈ itemsOf (member contract "permissions"), WellFormedService service.2
  /-- Each role lists permissions that exist and that it may have. -/
  grants : ∀ role ∈ itemsOf (member contract "role_permissions"),
    WellFormedRole (flatOf contract) role.1 role.2
  /-- `helios:tenant:switch` has the scope `SELF`. -/
  switch : (flatOf contract).get? switchPerm = some .self

section loops

variable {ε α β : Type}

theorem bind_ok {x : Except ε α} {f : α → Except ε β} {b : β} (h : (x >>= f) = .ok b) :
    ∃ a, x = .ok a ∧ f a = .ok b := by
  cases x with
  | error e => cases h
  | ok a => exact ⟨a, rfl, h⟩

/-- A loop that returns has returned from every round. -/
theorem forM_ok {f : α → Except ε Unit} {l : List α} (h : l.forM f = .ok ()) :
    ∀ a ∈ l, f a = .ok () := by
  induction l with
  | nil => simp
  | cons head rest ih =>
    change (f head >>= fun _ => rest.forM f) = .ok () at h
    obtain ⟨⟨⟩, hhead, hrest⟩ := bind_ok h
    intro a ha
    rcases List.mem_cons.mp ha with rfl | ha
    · exact hhead
    · exact ih hrest a ha

/-- A loop with an accumulator, when each round says what it makes of it. -/
theorem foldlM_ok {f : β → α → Except ε β} {g : β → α → β} {P : α → Prop}
    (hround : ∀ b a b', f b a = .ok b' → P a ∧ b' = g b a) {l : List α} {b b' : β}
    (h : l.foldlM f b = .ok b') : (∀ a ∈ l, P a) ∧ b' = l.foldl g b := by
  induction l generalizing b with
  | nil =>
    cases h
    exact ⟨by simp, rfl⟩
  | cons a rest ih =>
    rw [List.foldlM_cons] at h
    obtain ⟨m, hfirst, hrest⟩ := bind_ok h
    obtain ⟨ha, rfl⟩ := hround b a m hfirst
    obtain ⟨hall, hend⟩ := ih hrest
    refine ⟨?_, hend⟩
    intro x hx
    rcases List.mem_cons.mp hx with rfl | hx
    · exact ha
    · exact hall x hx

end loops

section rounds

variable {flat flat' : Flat}

/-- A scope that passes is one of the four texts. -/
theorem validateScope_ok {name : String} {scope : Option Json} {s : PermScope}
    (h : validateScope name scope = .ok s) :
    ∃ text, scope = some (.str text) ∧ PermScope.ofText text = some s := by
  unfold validateScope at h
  split at h
  · cases h
  next text =>
    split at h
    next found hfound =>
      cases h
      exact ⟨text, rfl, hfound⟩
    next => cases h
  · cases h
  · cases h
  · cases h

/-- A perm that is let through is added to the map. -/
theorem validatePerm_ok {service : String} {p : Json}
    (h : validatePerm service flat p = .ok flat') :
    WellFormedPerm p ∧ flat' = flatten flat (permOf p).toList := by
  unfold validatePerm at h
  split at h
  · cases h
  next fields =>
    split at h
    next name hname =>
      obtain ⟨scope, hscope, h⟩ := bind_ok h
      obtain ⟨text, htext, hof⟩ := validateScope_ok hscope
      have hperm : permOf (.obj fields) = some (name, scope) := by
        simp only [permOf, member, hname, htext, hof, Option.map_some]
      split_ifs at h with hmissing hsuffix
      cases h
      refine ⟨⟨name, scope, hperm, ?_⟩, ?_⟩
      · constructor
        · intro hself
          cases hends : endsWith name ":self" with
          | true => rfl
          | false => exact absurd ⟨hself, hends⟩ hmissing
        · intro hends
          by_contra hother
          exact hsuffix ⟨hends, hother⟩
      · rw [hperm]
        rfl
    next => cases h
  · cases h

/-- Flattening two lists one after the other flattens them together. -/
theorem flatten_append (front rest : List (String × PermScope)) :
    flatten flat (front ++ rest) = flatten (flatten flat front) rest :=
  List.foldl_append

/-- Flattening one after another is flattening them all. -/
theorem foldl_flatten {α : Type} (f : α → List (String × PermScope)) (l : List α) :
    l.foldl (fun flat a => flatten flat (f a)) flat = flatten flat (l.flatMap f) := by
  induction l generalizing flat with
  | nil => rfl
  | cons a rest ih => rw [List.foldl_cons, ih, List.flatMap_cons, flatten_append]

/-- A service that passes is well formed and has been flattened. -/
theorem validateService_ok {service : String × Json}
    (h : validateService flat service = .ok flat') :
    WellFormedService service.2 ∧ flat' = flatten flat (servicePerms service.2) := by
  unfold validateService at h
  split at h
  next perms hperms =>
    obtain ⟨hall, hflat⟩ := foldlM_ok (fun _ _ _ hround => validatePerm_ok hround) h
    refine ⟨⟨perms, hperms, hall⟩, ?_⟩
    rw [hflat, foldl_flatten, hperms, servicePerms]
    congr 1
    simp [List.filterMap_eq_flatMap_toList]
  next => cases h

/-- A grant that passes is a permission that the role may have. -/
theorem validateRolePerm_ok {role : String} {perm : Json}
    (h : validateRolePerm role flat perm = .ok ()) :
    ∃ name, perm = .str name ∧ Grantable flat name := by
  unfold validateRolePerm at h
  split at h
  · cases h
  · cases h
  next name =>
    refine ⟨name, rfl, ?_⟩
    split at h
    · cases h
    · cases h
    · cases h
    next scope hself hproject hscope =>
      cases scope with
      | self => exact (hself rfl).elim
      | platform => exact Or.inl hscope
      | project => exact (hproject rfl).elim
      | platformProject => exact Or.inr hscope
  · cases h

/-- A role that passes is well formed. -/
theorem validateRole_ok {role : String × Json} (h : validateRole flat role = .ok ()) :
    WellFormedRole flat role.1 role.2 := by
  obtain ⟨perms, hperms, h⟩ := bind_ok h
  obtain ⟨items, hitems, h⟩ := bind_ok h
  obtain ⟨⟨⟩, hall, h⟩ := bind_ok h
  obtain ⟨transfers, hcontains, h⟩ := bind_ok h
  refine ⟨perms, items, hperms, hitems, ?_, ?_⟩
  · intro perm hperm
    exact validateRolePerm_ok (forM_ok hall perm hperm)
  · intro howner
    split_ifs at h with hboth
    cases transfers with
    | false => exact hcontains
    | true => exact absurd ⟨howner, rfl⟩ hboth

end rounds

/-- The switch perm has been seen, last with scope `self`. -/
theorem validateSwitch_ok {flat : Flat} (h : validateSwitch flat = .ok ()) :
    flat.get? switchPerm = some .self := by
  unfold validateSwitch at h
  split at h
  · cases h
  next scope hscope =>
    split_ifs at h with hother
    rw [hscope, not_not.mp hother]

/-- A requirement that passes holds. -/
theorem require_ok {condition : Bool} {rejection : Rejection}
    (h : require condition rejection = .ok ()) : condition = true := by
  unfold require at h
  split_ifs at h with hc
  exact hc

/-- A key is read of an object only. -/
theorem getMember_ok {contract : Json} {key : String} {value : Option Json}
    (h : getMember contract key = .ok value) :
    (∃ fields, contract = .obj fields) ∧ value = member contract key := by
  unfold getMember at h
  split at h
  next fields =>
    cases h
    exact ⟨⟨fields, rfl⟩, rfl⟩
  next => cases h

/-- `isinstance(value, list)`. -/
theorem isList_iff {value : Option Json} :
    isList value = true ↔ ∃ items, value = some (.arr items) := by
  cases value with
  | none => simp [isList]
  | some v => cases v <;> simp [isList]

/-- `isinstance(value, dict)`. -/
theorem isDict_iff {value : Option Json} :
    isDict value = true ↔ ∃ fields, value = some (.obj fields) := by
  cases value with
  | none => simp [isDict]
  | some v => cases v <;> simp [isDict]

/-- The validator returns for checked contracts only. -/
theorem accepted_of_valid {contract : Json} (h : validateContractInMemory contract = .ok ()) :
    Accepted contract := by
  obtain ⟨hasVersion, hversion, h⟩ := bind_ok h
  obtain ⟨⟨⟩, hhas, h⟩ := bind_ok h
  obtain ⟨services, hservices, h⟩ := bind_ok h
  obtain ⟨roles, hroles, h⟩ := bind_ok h
  obtain ⟨permissions, hpermissions, h⟩ := bind_ok h
  obtain ⟨rolePermissions, hrolePermissions, h⟩ := bind_ok h
  obtain ⟨⟨⟩, hlist, h⟩ := bind_ok h
  obtain ⟨⟨⟩, hlist', h⟩ := bind_ok h
  obtain ⟨⟨⟩, hdict, h⟩ := bind_ok h
  obtain ⟨⟨⟩, hdict', h⟩ := bind_ok h
  obtain ⟨flat, hflat, h⟩ := bind_ok h
  obtain ⟨⟨⟩, hgrants, hswitch⟩ := bind_ok h
  obtain ⟨⟨fields, rfl⟩, rfl⟩ := getMember_ok hservices
  obtain ⟨-, rfl⟩ := getMember_ok hroles
  obtain ⟨-, rfl⟩ := getMember_ok hpermissions
  obtain ⟨-, rfl⟩ := getMember_ok hrolePermissions
  obtain ⟨hperms, hflat⟩ := foldlM_ok (fun _ _ _ hround => validateService_ok hround) hflat
  rw [foldl_flatten] at hflat
  have hall : flat = flatOf (.obj fields) := hflat
  subst hall
  have hversion' : (member (.obj fields) "version").isSome = hasVersion := by
    cases hversion
    rfl
  refine ⟨hversion'.trans (require_ok hhas), isList_iff.mp (require_ok hlist),
    isList_iff.mp (require_ok hlist'), isDict_iff.mp (require_ok hdict),
    isDict_iff.mp (require_ok hdict'), hperms, ?_, validateSwitch_ok hswitch⟩
  intro role hrole
  exact validateRole_ok (forM_ok hgrants role hrole)

/-- The perms of a role that can be iterated over. -/
theorem rolePermNames_eq {defn perms : Json} {items : List Json}
    (hperms : rolePerms defn = .ok perms) (hitems : iterate perms = .ok items) :
    rolePermNames defn = items.filterMap textOf := by
  rw [rolePermNames, hperms]
  change (match iterate perms with
    | .ok items => items.filterMap textOf
    | .error _ => []) = _
  rw [hitems]

/-- The scope of a flattened name is its last one. -/
theorem flatten_get? (perms : List (String × PermScope)) (name : String) (flat : Flat) :
    (flatten flat perms).get? name =
      (perms.reverse.lookup name).or (flat.get? name) := by
  induction perms generalizing flat with
  | nil => rfl
  | cons perm rest ih =>
    change (flatten (flat.set perm.1 perm.2) rest).get? name = _
    rw [ih, List.reverse_cons, List.lookup_append, OrderedDict.get?_set]
    obtain ⟨listed, scope⟩ := perm
    by_cases hname : name = listed
    · simp [hname]
    · have hne : (name == listed) = false := by simpa using hname
      simp [hname, List.lookup_cons, hne]

/-- A name that is flattened is listed with its scope. -/
theorem mem_listedPerms_of_flatOf {contract : Json} {name : String} {scope : PermScope}
    (h : (flatOf contract).get? name = some scope) : (name, scope) ∈ listedPerms contract := by
  rw [flatOf, flatten_get?, OrderedDict.get?_empty, Option.or_none] at h
  exact List.mem_reverse.mp (OrderedDict.mem_of_lookup h)

end HeliosPermissions.ContractValidation
