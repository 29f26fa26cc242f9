import HeliosPermissions.ContractValidation

/-!
# Every verdict of the validator is right

`validate_contract_in_memory` stops at the first thing that it does not accept. Whatever
it stops at is in the contract as the message says, and is a reason not to accept it; so
the validator returns for exactly the contracts that meet all of its checks.
-/

namespace HeliosPermissions.ValidatorVerdicts

open JsonValues CacheKeys ContractValidation

/-- A perm that a contract lists under a service. -/
def Listed (contract : Json) (service : String) (p : Json) : Prop :=
  ∃ items, (service, Json.arr items) ∈ itemsOf (member contract "permissions") ∧ p ∈ items

/-- The perms of a role, and what a loop over them goes through. -/
def RoleHas (contract : Json) (role : String) (perms : Json) (items : List Json) : Prop :=
  ∃ defn, (role, defn) ∈ itemsOf (member contract "role_permissions") ∧
    rolePerms defn = .ok perms ∧ iterate perms = .ok items

/-- What the validator stops at, as a fact about the contract. -/
inductive Reason (contract : Json) : Failure → Prop
  | notContainer (h : contains contract "version" = .error .typeError) : Reason contract .typeError
  | missingVersion (h : contains contract "version" = .ok false) :
    Reason contract (.exits .missingVersion)
  | notObject (h : isDict (some contract) = false) : Reason contract .attributeError
  | missingServices (h : isList (member contract "services") = false) :
    Reason contract (.exits .missingServices)
  | missingRoles (h : isList (member contract "roles") = false) :
    Reason contract (.exits .missingRoles)
  | missingPermissions (h : isDict (member contract "permissions") = false) :
    Reason contract (.exits .missingPermissions)
  | missingRolePermissions (h : isDict (member contract "role_permissions") = false) :
    Reason contract (.exits .missingRolePermissions)
  | notAnArray {service : String} {value : Json}
      (hservice : (service, value) ∈ itemsOf (member contract "permissions"))
      (h : isList (some value) = false) : Reason contract (.exits (.notAnArray service))
  | barePerm {service perm : String} (hp : Listed contract service (.str perm)) :
    Reason contract (.exits (.barePerm service perm))
  | malformedPerm {service : String} {p : Json} (hp : Listed contract service p)
      (h : ∀ name, member p "name" ≠ some (.str name)) :
    Reason contract (.exits (.malformedPerm service p))
  | invalidScope {service name : String} {p : Json} (hp : Listed contract service p)
      (hname : member p "name" = some (.str name)) (h : permOf p = none) :
    Reason contract (.exits (.invalidScope name ((member p "scope").getD .null)))
  | unhashableScope {service : String} {p : Json} (hp : Listed contract service p)
      (h : permOf p = none) : Reason contract .typeError
  | missingSelfSuffix {service name : String} {p : Json} (hp : Listed contract service p)
      (hperm : permOf p = some (name, .self)) (h : endsWith name ":self" = false) :
    Reason contract (.exits (.missingSelfSuffix name))
  | selfSuffix {service name : String} {scope : PermScope} {p : Json}
      (hp : Listed contract service p) (hperm : permOf p = some (name, scope))
      (hscope : scope ≠ .self) (h : endsWith name ":self" = true) :
    Reason contract (.exits (.selfSuffix name scope))
  | roleNotObject {role : String} {defn : Json}
      (hrole : (role, defn) ∈ itemsOf (member contract "role_permissions"))
      (h : isDict (some defn) = false) : Reason contract .attributeError
  | permsNotIterable {role : String} {defn perms : Json}
      (hrole : (role, defn) ∈ itemsOf (member contract "role_permissions"))
      (hperms : rolePerms defn = .ok perms) (h : iterate perms = .error .typeError) :
    Reason contract .typeError
  | unhashablePerm {role : String} {perms perm : Json} {items : List Json}
      (hrole : RoleHas contract role perms items) (hperm : perm ∈ items)
      (h : textOf perm = none) : Reason contract .typeError
  | unknownPerm {role : String} {perms perm : Json} {items : List Json}
      (hrole : RoleHas contract role perms items) (hperm : perm ∈ items)
      (h : ∀ name, perm = .str name → (flatOf contract).get? name = none) :
    Reason contract (.exits (.unknownPerm role perm))
  | selfPerm {role perm : String} {perms : Json} {items : List Json}
      (hrole : RoleHas contract role perms items) (hperm : .str perm ∈ items)
      (h : (flatOf contract).get? perm = some .self) :
    Reason contract (.exits (.selfPerm role perm))
  | projectPerm {role perm : String} {perms : Json} {items : List Json}
      (hrole : RoleHas contract role perms items) (hperm : .str perm ∈ items)
      (h : (flatOf contract).get? perm = some .project) :
    Reason contract (.exits (.projectPerm role perm))
  | ownerOnly {role : String} {perms : Json} {items : List Json}
      (hrole : RoleHas contract role perms items) (howner : role ≠ "OWNER")
      (h : contains perms "helios:tenant:transfer" = .ok true) :
    Reason contract (.exits (.ownerOnly role))
  | missingSwitch (h : (flatOf contract).get? switchPerm = none) :
    Reason contract (.exits .missingSwitch)
  | switchScope {scope : PermScope} (h : (flatOf contract).get? switchPerm = some scope)
      (hscope : scope ≠ .self) : Reason contract (.exits (.switchScope scope))

section loops

variable {ε α β : Type}

/-- A computation in two parts fails in the first or in the second. -/
theorem bind_error {x : Except ε α} {f : α → Except ε β} {e : ε} (h : (x >>= f) = .error e) :
    x = .error e ∨ ∃ a, x = .ok a ∧ f a = .error e := by
  cases x with
  | error e' =>
    have he : e' = e := by cases h; rfl
    exact Or.inl (by rw [he])
  | ok a => exact Or.inr ⟨a, rfl, h⟩

/-- A loop that fails fails in some round. -/
theorem forM_error {f : α → Except ε Unit} {l : List α} {e : ε} (h : l.forM f = .error e) :
    ∃ a ∈ l, f a = .error e := by
  induction l with
  | nil => cases h
  | cons head rest ih =>
    change (f head >>= fun _ => rest.forM f) = .error e at h
    rcases bind_error h with hhead | ⟨u, -, hrest⟩
    · exact ⟨head, List.mem_cons_self, hhead⟩
    · obtain ⟨a, ha, hfail⟩ := ih hrest
      exact ⟨a, List.mem_cons_of_mem _ ha, hfail⟩

/-- So does a loop with an accumulator. -/
theorem foldlM_error {f : β → α → Except ε β} {l : List α} {b : β} {e : ε}
    (h : l.foldlM f b = .error e) : ∃ a ∈ l, ∃ m, f m a = .error e := by
  induction l generalizing b with
  | nil => cases h
  | cons head rest ih =>
    rw [List.foldlM_cons] at h
    rcases bind_error h with hhead | ⟨m, -, hrest⟩
    · exact ⟨head, List.mem_cons_self, b, hhead⟩
    · obtain ⟨a, ha, hfail⟩ := ih hrest
      exact ⟨a, List.mem_cons_of_mem _ ha, hfail⟩

end loops

section rounds

variable {contract : Json} {flat : Flat} {failure : Failure}

/-- A failed `require` is about its condition. -/
theorem require_error {condition : Bool} {rejection : Rejection}
    (h : require condition rejection = .error failure) :
    condition = false ∧ failure = .exits rejection := by
  unfold require at h
  split_ifs at h with hc
  cases h
  exact ⟨Bool.eq_false_iff.mpr hc, rfl⟩

/-- Only a contract that is no object fails here. -/
theorem getMember_error {key : String} (h : getMember contract key = .error failure) :
    isDict (some contract) = false ∧ failure = .attributeError := by
  unfold getMember at h
  split at h
  · cases h
  next hother =>
    cases h
    refine ⟨?_, rfl⟩
    cases contract with
    | obj fields => exact (hother fields rfl).elim
    | _ => rfl

/-- The scope of a perm with a text for its name is what the scope field spells. -/
theorem permOf_named {p : Json} {name : String} (hname : member p "name" = some (.str name)) :
    permOf p = match member p "scope" with
      | some (.str s) => (PermScope.ofText s).map fun scope => (name, scope)
      | _ => none := by
  unfold permOf
  rw [hname]
  split <;> simp_all

/-- A scope that is rejected is the reason. -/
theorem validateScope_reason {service name : String} {p : Json} (hp : Listed contract service p)
    (hname : member p "name" = some (.str name))
    (h : validateScope name (member p "scope") = .error failure) : Reason contract failure := by
  have hperm := permOf_named hname
  unfold validateScope at h
  split at h
  next hscope =>
    cases h
    rw [hscope] at hperm
    have hreason := Reason.invalidScope hp hname hperm
    rwa [hscope] at hreason
  next s hscope =>
    split at h
    · cases h
    next hnone =>
      cases h
      simp only [hscope, hnone, Option.map_none] at hperm
      have hreason := Reason.invalidScope hp hname hperm
      rwa [hscope] at hreason
  next hscope =>
    cases h
    rw [hscope] at hperm
    exact .unhashableScope hp hperm
  next hscope =>
    cases h
    rw [hscope] at hperm
    exact .unhashableScope hp hperm
  next scope hstr _ _ hscope =>
    cases h
    have hnone : permOf p = none := by
      rw [hperm, hscope]
      split
      next s hs => exact (hstr s (Option.some.inj hs)).elim
      next => rfl
    have hreason := Reason.invalidScope hp hname hnone
    rwa [hscope] at hreason

/-- A permission that is rejected is the reason. -/
theorem validatePerm_reason {service : String} {p : Json} (hp : Listed contract service p)
    (h : validatePerm service flat p = .error failure) : Reason contract failure := by
  unfold validatePerm at h
  split at h
  next perm =>
    cases h
    exact .barePerm hp
  next fields =>
    split at h
    next name hname =>
      have hname : member (.obj fields) "name" = some (.str name) := hname
      rcases bind_error h with hscope | ⟨scope, hscope, h⟩
      · exact validateScope_reason hp hname hscope
      · obtain ⟨text, htext, hof⟩ := validateScope_ok hscope
        have hperm : permOf (.obj fields) = some (name, scope) := by
          rw [permOf_named hname]
          simp only [member, htext, hof, Option.map_some]
        split_ifs at h with hmissing hsuffix
        · cases h
          rw [hmissing.1] at hperm
          exact .missingSelfSuffix hp hperm hmissing.2
        · cases h
          exact .selfSuffix hp hperm hsuffix.2 hsuffix.1
    next hother =>
      cases h
      exact .malformedPerm hp hother
  next hstr hobj =>
    cases h
    refine .malformedPerm hp ?_
    intro name hname
    cases p with
    | obj fields => exact hobj fields rfl
    | _ => cases hname

/-- A service is rejected for its list or for one of its permissions. -/
theorem validateService_reason {service : String × Json}
    (hservice : service ∈ itemsOf (member contract "permissions"))
    (h : validateService flat service = .error failure) : Reason contract failure := by
  obtain ⟨name, value⟩ := service
  unfold validateService at h
  split at h
  next perms hperms =>
    obtain ⟨p, hp, m, hround⟩ := foldlM_error h
    have hvalue : value = .arr perms := hperms
    rw [hvalue] at hservice
    exact validatePerm_reason ⟨perms, hservice, hp⟩ hround
  next hother =>
    cases h
    refine .notAnArray hservice ?_
    cases value with
    | arr items => exact (hother items rfl).elim
    | _ => rfl

/-- A grant that is rejected is the reason. -/
theorem validateRolePerm_reason {role : String} {perms perm : Json} {items : List Json}
    (hrole : RoleHas contract role perms items) (hperm : perm ∈ items)
    (h : validateRolePerm role (flatOf contract) perm = .error failure) :
    Reason contract failure := by
  unfold validateRolePerm at h
  split at h
  next =>
    cases h
    exact .unhashablePerm hrole hperm rfl
  next =>
    cases h
    exact .unhashablePerm hrole hperm rfl
  next name =>
    split at h
    next hnone =>
      cases h
      refine .unknownPerm hrole hperm ?_
      intro name' hname
      obtain rfl := Json.str.inj hname
      exact hnone
    next hself =>
      cases h
      exact .selfPerm hrole hperm hself
    next hproject =>
      cases h
      exact .projectPerm hrole hperm hproject
    next => cases h
  next hstr =>
    cases h
    exact .unknownPerm hrole hperm fun name hname => (hstr name hname).elim

/-- What can be iterated over can be searched. -/
theorem contains_of_iterate {perms : Json} {items : List Json} (h : iterate perms = .ok items)
    (text : String) : ∃ found, contains perms text = .ok found := by
  cases perms with
  | arr | str | obj => exact ⟨_, rfl⟩
  | _ => cases h

/-- A role is rejected for its grants or for the transfer. -/
theorem validateRole_reason {role : String × Json}
    (hrole : role ∈ itemsOf (member contract "role_permissions"))
    (h : validateRole (flatOf contract) role = .error failure) : Reason contract failure := by
  obtain ⟨name, defn⟩ := role
  rcases bind_error h with hperms | ⟨perms, hperms, h⟩
  · cases defn with
    | obj fields => cases hperms
    | _ =>
      cases hperms
      exact .roleNotObject hrole rfl
  rcases bind_error h with hitems | ⟨items, hitems, h⟩
  · have hfailure : failure = .typeError := by
      cases perms <;> cases hitems <;> rfl
    rw [hfailure] at hitems ⊢
    exact .permsNotIterable hrole hperms hitems
  have hhas : RoleHas contract name perms items := ⟨defn, hrole, hperms, hitems⟩
  rcases bind_error h with hall | ⟨_, -, h⟩
  · obtain ⟨perm, hperm, hround⟩ := forM_error hall
    exact validateRolePerm_reason hhas hperm hround
  obtain ⟨found, hfound⟩ := contains_of_iterate hitems "helios:tenant:transfer"
  rcases bind_error h with hcontains | ⟨transfers, htransfers, h⟩
  · rw [hfound] at hcontains
    cases hcontains
  split_ifs at h with hboth
  cases h
  rw [hboth.2] at htransfers
  exact .ownerOnly hhas hboth.1 htransfers

/-- The switch is rejected for its scope. -/
theorem validateSwitch_reason (h : validateSwitch (flatOf contract) = .error failure) :
    Reason contract failure := by
  unfold validateSwitch at h
  split at h
  next hnone =>
    cases h
    exact .missingSwitch hnone
  next scope hscope =>
    split_ifs at h with hother
    cases h
    exact .switchScope hscope hother

end rounds

/-- Whatever the validator stops at is a fact about the contract. -/
theorem reason_of_error {contract : Json} {failure : Failure}
    (h : validateContractInMemory contract = .error failure) : Reason contract failure := by
  rcases bind_error h with hversion | ⟨hasVersion, hversion, h⟩
  · have hfailure : failure = .typeError := by
      cases contract <;> cases hversion <;> rfl
    rw [hfailure] at hversion ⊢
    exact .notContainer hversion
  rcases bind_error h with hhas | ⟨_, -, h⟩
  · obtain ⟨hfalse, rfl⟩ := require_error hhas
    rw [hfalse] at hversion
    exact .missingVersion hversion
  rcases bind_error h with hget | ⟨services, hservices, h⟩
  · obtain ⟨hother, rfl⟩ := getMember_error hget
    exact .notObject hother
  rcases bind_error h with hget | ⟨roles, hroles, h⟩
  · obtain ⟨hother, rfl⟩ := getMember_error hget
    exact .notObject hother
  rcases bind_error h with hget | ⟨permissions, hpermissions, h⟩
  · obtain ⟨hother, rfl⟩ := getMember_error hget
    exact .notObject hother
  rcases bind_error h with hget | ⟨rolePermissions, hrolePermissions, h⟩
  · obtain ⟨hother, rfl⟩ := getMember_error hget
    exact .notObject hother
  obtain ⟨-, rfl⟩ := getMember_ok hservices
  obtain ⟨-, rfl⟩ := getMember_ok hroles
  obtain ⟨-, rfl⟩ := getMember_ok hpermissions
  obtain ⟨-, rfl⟩ := getMember_ok hrolePermissions
  rcases bind_error h with hshape | ⟨_, -, h⟩
  · obtain ⟨hfalse, rfl⟩ := require_error hshape
    exact .missingServices hfalse
  rcases bind_error h with hshape | ⟨_, -, h⟩
  · obtain ⟨hfalse, rfl⟩ := require_error hshape
    exact .missingRoles hfalse
  rcases bind_error h with hshape | ⟨_, -, h⟩
  · obtain ⟨hfalse, rfl⟩ := require_error hshape
    exact .missingPermissions hfalse
  rcases bind_error h with hshape | ⟨_, -, h⟩
  · obtain ⟨hfalse, rfl⟩ := require_error hshape
    exact .missingRolePermissions hfalse
  rcases bind_error h with hservice | ⟨flat, hflat, h⟩
  · obtain ⟨service, hmem, m, hround⟩ := foldlM_error hservice
    exact validateService_reason hmem hround
  -- the roles are checked against the map of all services
  obtain ⟨-, hflat⟩ := foldlM_ok (fun _ _ _ hround => validateService_ok hround) hflat
  rw [foldl_flatten] at hflat
  have hall : flat = flatOf contract := hflat
  subst hall
  rcases bind_error h with hgrants | ⟨_, -, h⟩
  · obtain ⟨role, hmem, hround⟩ := forM_error hgrants
    exact validateRole_reason hmem hround
  · exact validateSwitch_reason h

section refusals

variable {contract : Json}

/-- A permission of an accepted contract is well formed. -/
theorem Listed.wellFormed {service : String} {p : Json} (hp : Listed contract service p)
    (haccepted : Accepted contract) : WellFormedPerm p := by
  obtain ⟨items, hservice, hmem⟩ := hp
  obtain ⟨items', heq, hall⟩ := haccepted.perms _ hservice
  obtain rfl := Json.arr.inj heq
  exact hall p hmem

/-- A listed perm has a name and a scope, and the suffix exactly with scope `self`. -/
theorem Listed.suffix_iff {service name : String} {scope : PermScope} {p : Json}
    (hp : Listed contract service p) (haccepted : Accepted contract)
    (hperm : permOf p = some (name, scope)) :
    scope = .self ↔ endsWith name ":self" = true := by
  obtain ⟨name', scope', hperm', hiff⟩ := hp.wellFormed haccepted
  have heq : (name, scope) = (name', scope') := Option.some.inj (hperm.symm.trans hperm')
  cases heq
  exact hiff

/-- It has a name and a scope. -/
theorem Listed.permOf_ne_none {service : String} {p : Json} (hp : Listed contract service p)
    (haccepted : Accepted contract) : permOf p ≠ none := by
  obtain ⟨name, scope, hperm, -⟩ := hp.wellFormed haccepted
  simp [hperm]

/-- A role of an accepted contract is well formed. -/
theorem wellFormedRole_of_mem {role : String} {defn : Json} (haccepted : Accepted contract)
    (hrole : (role, defn) ∈ itemsOf (member contract "role_permissions")) :
    WellFormedRole (flatOf contract) role defn := haccepted.grants _ hrole

/-- A role of an accepted contract has grantable perms, and transfers for the owner only. -/
theorem RoleHas.wellFormed {role : String} {perms : Json} {items : List Json}
    (hrole : RoleHas contract role perms items) (haccepted : Accepted contract) :
    (∀ perm ∈ items, ∃ name, perm = .str name ∧ Grantable (flatOf contract) name) ∧
      (role ≠ "OWNER" → contains perms "helios:tenant:transfer" = .ok false) := by
  obtain ⟨defn, hmem, hperms, hitems⟩ := hrole
  obtain ⟨perms', items', hperms', hitems', hgrants, howner⟩ :=
    wellFormedRole_of_mem haccepted hmem
  obtain rfl := Except.ok.inj (hperms.symm.trans hperms')
  obtain rfl := Except.ok.inj (hitems.symm.trans hitems')
  exact ⟨hgrants, howner⟩

/-- What an accepted contract grants may be granted. -/
theorem RoleHas.grantable {role name : String} {perms : Json} {items : List Json}
    (hrole : RoleHas contract role perms items) (haccepted : Accepted contract)
    (hperm : .str name ∈ items) : Grantable (flatOf contract) name := by
  obtain ⟨name', heq, hgrantable⟩ := (hrole.wellFormed haccepted).1 _ hperm
  obtain rfl := Json.str.inj heq
  exact hgrantable

/-- An accepted contract is an object. -/
theorem Accepted.isDict_self (haccepted : Accepted contract) : isDict (some contract) = true := by
  have hversion := haccepted.version
  cases contract with
  | obj fields => rfl
  | _ => cases hversion

/-- An accepted contract has a version. -/
theorem Accepted.contains_version (haccepted : Accepted contract) :
    contains contract "version" = .ok true := by
  have hversion := haccepted.version
  cases contract with
  | obj fields =>
    have hsome : ((dictOf fields).get? "version").isSome = true := hversion
    rw [contains, hsome]
  | _ => cases hversion

/-- Each of the reasons is one not to accept the contract. -/
theorem Reason.not_accepted {failure : Failure} (hreason : Reason contract failure) :
    ¬Accepted contract := by
  intro haccepted
  have hobject := Accepted.isDict_self haccepted
  have hversion := Accepted.contains_version haccepted
  have hservices := isList_iff.mpr haccepted.services
  have hroles := isList_iff.mpr haccepted.roles
  have hpermissions := isDict_iff.mpr haccepted.permissions
  have hrolePermissions := isDict_iff.mpr haccepted.rolePermissions
  cases hreason with
  | notContainer h => simp [hversion] at h
  | missingVersion h => simp [hversion] at h
  | notObject h => simp [hobject] at h
  | missingServices h => simp [hservices] at h
  | missingRoles h => simp [hroles] at h
  | missingPermissions h => simp [hpermissions] at h
  | missingRolePermissions h => simp [hrolePermissions] at h
  | notAnArray hservice h =>
    obtain ⟨items, heq, -⟩ := haccepted.perms _ hservice
    have hvalue : isList (some _) = true := isList_iff.mpr ⟨items, congrArg some heq⟩
    exact absurd (hvalue.symm.trans h) (by decide)
  | barePerm hp => exact hp.permOf_ne_none haccepted rfl
  | malformedPerm hp h =>
    refine hp.permOf_ne_none haccepted ?_
    unfold permOf
    split
    next name s hname _ => exact (h name hname).elim
    next => rfl
  | invalidScope hp _ h => exact hp.permOf_ne_none haccepted h
  | unhashableScope hp h => exact hp.permOf_ne_none haccepted h
  | missingSelfSuffix hp hperm h =>
    have hsuffix := (hp.suffix_iff haccepted hperm).mp rfl
    exact absurd (hsuffix.symm.trans h) (by decide)
  | selfSuffix hp hperm hscope h => exact hscope ((hp.suffix_iff haccepted hperm).mpr h)
  | roleNotObject hrole h =>
    obtain ⟨perms, items, hperms, -⟩ := wellFormedRole_of_mem haccepted hrole
    rename_i role defn
    cases defn with
    | obj fields => cases h
    | _ => cases hperms
  | permsNotIterable hrole hperms h =>
    obtain ⟨perms', items, hperms', hitems, -⟩ := wellFormedRole_of_mem haccepted hrole
    obtain rfl := Except.ok.inj (hperms.symm.trans hperms')
    rw [h] at hitems
    cases hitems
  | unhashablePerm hrole hperm h =>
    obtain ⟨name, rfl, -⟩ := (hrole.wellFormed haccepted).1 _ hperm
    cases h
  | unknownPerm hrole hperm h =>
    obtain ⟨name, heq, hgrantable⟩ := (hrole.wellFormed haccepted).1 _ hperm
    rcases hgrantable with hscope | hscope <;> simp [h name heq] at hscope
  | selfPerm hrole hperm h =>
    rcases hrole.grantable haccepted hperm with hscope | hscope <;> simp [h] at hscope
  | projectPerm hrole hperm h =>
    rcases hrole.grantable haccepted hperm with hscope | hscope <;> simp [h] at hscope
  | ownerOnly hrole howner h =>
    have hnot := (hrole.wellFormed haccepted).2 howner
    simp [h] at hnot
  | missingSwitch h => simp [haccepted.switch] at h
  | switchScope h hscope =>
    rw [haccepted.switch] at h
    exact hscope (Option.some.inj h).symm

end refusals

/-- A contract that meets the checks is let through. -/
theorem valid_iff_accepted {contract : Json} :
    validateContractInMemory contract = .ok () ↔ Accepted contract := by
  refine ⟨accepted_of_valid, fun haccepted => ?_⟩
  cases hverdict : validateContractInMemory contract with
  | ok _ => rfl
  | error failure => exact ((reason_of_error hverdict).not_accepted haccepted).elim

/-- The validator returns for exactly the contracts that meet all of its checks; whatever
else it stops at is in the contract, as the failure says, and speaks against it. -/
theorem validator_verdict (contract : Json) :
    (validateContractInMemory contract = .ok () ↔ Accepted contract) ∧
      ∀ failure, validateContractInMemory contract = .error failure →
        Reason contract failure ∧ ¬Accepted contract := by
  refine ⟨valid_iff_accepted, fun failure hfails => ?_⟩
  have hreason := reason_of_error hfails
  exact ⟨hreason, hreason.not_accepted⟩

end HeliosPermissions.ValidatorVerdicts
