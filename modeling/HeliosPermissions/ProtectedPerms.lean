import HeliosPermissions.ScopeModel

/-!
# The perms that the validator protects

The validator checks the roles against a map that keeps one scope for each name. The
emitted tables come from the perms as they are listed, where a name can have several
scopes. What the suffix of a name says is the same for every listing: with it the
scope is `self` wherever the name is listed, and without it nowhere. So the universal
perms stay out of the roles in the tables too, and ownership stays with its role.
-/

namespace HeliosPermissions.ProtectedPerms

open JsonValues CacheKeys ContractValidation ContractEmitter PythonLiterals PythonModules
  EmittedModule EmittedTables EmittedText EmittedContract GeneratedFunctions ScopeModel

/-- `helios:tenant:transfer`, which hands a tenant over. -/
def transferPerm : String := "helios:tenant:transfer"

/-- The roles have known perms that are not universal, and the transfer is with `OWNER`; the
switch is universal. -/
structure Protected (m : Env) : Prop where
  /-- What a role has is known to `is_permission`. -/
  known : ∀ role perms, resolvePermissions m role = .ok perms → ∀ perm, perms.holds perm = true →
    isPermission m (.str perm) = true
  /-- It is not universal, by its scope or by its name. -/
  notSelf : ∀ role perms, resolvePermissions m role = .ok perms → ∀ perm, perms.holds perm = true →
    isSelfScope m perm = false ∧ endsWith perm ":self" = false
  /-- The transfer is with `OWNER`. -/
  transfer : ∀ role perms, resolvePermissions m role = .ok perms →
    perms.holds transferPerm = true → role = "OWNER"
  /-- The switch is universal. -/
  switch : isSelfScope m switchPerm = true

/-- A text is a module with protected tables. -/
def ProtectedModule (text : String) : Prop :=
  ∃ m, readModule (universalNewlines false text.toList) = some m ∧ Protected m

section contracts

variable {contract : Json}

/-- What a loop finds in a value, the membership test finds too. -/
theorem contains_of_iterate {value : Json} {items : List Json} {text : String}
    (hitems : iterate value = .ok items) (hmem : .str text ∈ items) :
    contains value text = .ok true := by
  cases value with
  | arr listed =>
    cases hitems
    rw [contains, List.any_eq_true.mpr ⟨_, hmem, by simp [Json.isStr]⟩]
  | str s =>
    cases hitems
    obtain ⟨c, hc, heq⟩ := List.mem_map.mp hmem
    obtain rfl := Json.str.inj heq
    obtain ⟨front, back, hsplit⟩ := List.append_of_mem hc
    have hinfix : (String.singleton c).toList <:+: s.toList := by
      rw [String.toList_singleton]
      exact ⟨front, back, by simp [hsplit]⟩
    simp only [contains, hinfix, decide_true]
  | obj fields =>
    cases hitems
    obtain ⟨key, hkey, heq⟩ := List.mem_map.mp hmem
    obtain rfl := Json.str.inj heq
    rw [contains, OrderedDict.mem_keys.mp hkey]
  | null => cases hitems
  | bool b => cases hitems
  | number n => cases hitems

/-- The suffix decides the scope, wherever a name is listed. -/
theorem self_iff_of_listed (h : Accepted contract) {name : String} {scope : PermScope}
    (hlisted : (name, scope) ∈ listedPerms contract) :
    scope = .self ↔ endsWith name ":self" = true := by
  obtain ⟨service, hservice, hperm⟩ := List.mem_flatMap.mp hlisted
  obtain ⟨items, hitems, hall⟩ := h.perms service hservice
  rw [hitems] at hperm
  obtain ⟨p, hp, hof⟩ := List.mem_filterMap.mp hperm
  obtain ⟨name', scope', hof', hself⟩ := hall p hp
  rw [hof] at hof'
  cases hof'
  exact hself

/-- A perm that may be granted does not have the suffix. -/
theorem no_suffix_of_grantable (h : Accepted contract) {name : String}
    (hgrantable : Grantable (flatOf contract) name) : endsWith name ":self" = false := by
  have hother : ∃ scope, (name, scope) ∈ listedPerms contract ∧ scope ≠ .self := by
    rcases hgrantable with hscope | hscope
    · exact ⟨_, mem_listedPerms_of_flatOf hscope, by simp⟩
    · exact ⟨_, mem_listedPerms_of_flatOf hscope, by simp⟩
  obtain ⟨scope, hlisted, hne⟩ := hother
  have hiff := self_iff_of_listed h hlisted
  exact Bool.eq_false_iff.mpr fun hends => hne (hiff.mpr hends)

/-- The transfer is granted to `OWNER` only. -/
theorem owner_of_transfer (h : Accepted contract) {role : String × List String}
    (hrole : role ∈ roleGrants contract) (hperm : transferPerm ∈ role.2) : role.1 = "OWNER" := by
  obtain ⟨⟨name, defn⟩, hdefn, rfl⟩ := List.mem_map.mp hrole
  obtain ⟨perms, items, hperms, hitems, -, howner⟩ := h.grants _ hdefn
  change transferPerm ∈ rolePermNames defn at hperm
  rw [rolePermNames_eq hperms hitems] at hperm
  obtain ⟨item, hitem, htext⟩ := List.mem_filterMap.mp hperm
  cases item with
  | str s =>
    obtain rfl := Option.some.inj htext
    have hcontains := contains_of_iterate hitems hitem
    by_contra hne
    cases hcontains.symm.trans (howner hne)
  | null => cases htext
  | bool b => cases htext
  | number n => cases htext
  | arr listed => cases htext
  | obj fields => cases htext

end contracts

section modules

variable {numberText : NumberText} {date : Date} {contract : Json} {t : Texts} {text : String}

/-- The tables of an accepted contract are protected. -/
theorem protected_of_emits (hemits : Emits numberText contract t) (h : Accepted contract)
    (hplain : PlainNames numberText contract) : Protected (valuesOf t).env := by
  obtain ⟨hbucket, -, hgrants⟩ := (hplain.literal hemits).values hemits h
  have hmem : ∀ {name scope}, name ∈ (valuesOf t).bucket scope ↔
      (name, scope) ∈ listedPerms contract := by
    intro name scope
    rw [hbucket]
    exact hemits.mem_bucket
  have hgrant : ∀ {role perms perm}, resolvePermissions (valuesOf t).env role = .ok perms →
      perms.holds perm = true → ∃ names, (role, names) ∈ t.rolePermissions ∧ perm ∈ names := by
    intro role perms perm hperms hperm
    obtain ⟨names, hnames, rfl⟩ := mem_of_resolvePermissions hperms
    rw [hgrants] at hnames
    exact ⟨names, hnames, PyValue.holds_strings.mp hperm⟩
  refine ⟨?_, ?_, ?_, ?_⟩
  · intro role perms hperms perm hperm
    obtain ⟨names, hnames, hin⟩ := hgrant hperms hperm
    rw [isPermission_iff]
    rcases hemits.mem_of_grantable (hemits.grantable h hnames hin) with hplatform | hdual
    · exact ⟨_, hmem.mpr (hemits.mem_bucket.mp hplatform)⟩
    · exact ⟨_, hmem.mpr (hemits.mem_bucket.mp hdual)⟩
  · intro role perms hperms perm hperm
    obtain ⟨names, hnames, hin⟩ := hgrant hperms hperm
    have hsuffix := no_suffix_of_grantable h (hemits.grantable h hnames hin)
    refine ⟨Bool.eq_false_iff.mpr fun hself => ?_, hsuffix⟩
    -- were it in the tuple of universal perms, it would have the suffix
    have hends := (self_iff_of_listed h (hmem.mp (mem_of_isSelfScope hself))).mp rfl
    rw [hsuffix] at hends
    cases hends
  · intro role perms hperms hperm
    obtain ⟨names, hnames, hin⟩ := hgrant hperms hperm
    exact owner_of_transfer h (hemits.rolePermissions.mem_iff.mp hnames) hin
  · have hswitch := mem_listedPerms_of_flatOf h.switch
    have hends := (self_iff_of_listed h hswitch).mp rfl
    exact isSelfScope_of_unique (hmem.mpr hswitch) fun other hother =>
      (self_iff_of_listed h (hmem.mp hother)).mpr hends

/-- A module read from an accepted contract is protected. -/
theorem protected_of_readModule (hvalid : validateContractInMemory contract = .ok ())
    (hemitted : codegenPy numberText date contract = some text)
    (hplain : PlainNames numberText contract)
    (hdoc : ∀ t, interpolated numberText contract = some t → OneDocstring date t)
    {m : Env} (hm : readModule (universalNewlines false text.toList) = some m) : Protected m := by
  have haccepted := accepted_of_valid hvalid
  obtain ⟨t, ht, rfl⟩ := Option.map_eq_some_iff.mp hemitted
  have hemits := emits_of_interpolated haccepted ht
  rw [readModule_emitted hemits haccepted ((hplain.literal hemits).enclosed (hdoc t ht))] at hm
  split_ifs at hm
  cases hm
  exact protected_of_emits hemits haccepted hplain

/-- For every contract that the validator accepts, with plain names, the text that is emitted is
a module with protected tables if and only if each scope is listed and there is a role; and
whatever it is read as is protected. -/
theorem validator_protects (hvalid : validateContractInMemory contract = .ok ())
    (hemitted : codegenPy numberText date contract = some text)
    (hplain : PlainNames numberText contract)
    (hdoc : ∀ t, interpolated numberText contract = some t → OneDocstring date t) :
    (ProtectedModule text ↔ Populated contract) ∧
      ∀ m, readModule (universalNewlines false text.toList) = some m → Protected m := by
  have haccepted := accepted_of_valid hvalid
  obtain ⟨t, ht, rfl⟩ := Option.map_eq_some_iff.mp hemitted
  have hemits := emits_of_interpolated haccepted ht
  have hread := readModule_emitted hemits haccepted ((hplain.literal hemits).enclosed (hdoc t ht))
  have hprotected := protected_of_emits hemits haccepted hplain
  constructor
  · rw [← hemits.occupied_iff]
    constructor
    · rintro ⟨m, hm, -⟩
      rw [hread] at hm
      split_ifs at hm with hoccupied
      exact hoccupied
    · intro hoccupied
      exact ⟨_, hread.trans (if_pos hoccupied), hprotected⟩
  · exact fun m hm => protected_of_readModule hvalid hemitted hplain hdoc hm

/-- Strings are interpolated as they are. -/
theorem mem_of_strings {roles : List String} :
    (∃ role ∈ roles.map Json.str, jsText numberText role = some text) ↔ text ∈ roles := by
  constructor
  · rintro ⟨role, hrole, htext⟩
    obtain ⟨name, hname, rfl⟩ := List.mem_map.mp hrole
    rw [jsText] at htext
    cases htext
    exact hname
  · intro hrole
    exact ⟨.str text, List.mem_map_of_mem hrole, by rw [jsText]⟩

/-- The contracts of the samples have plain names when their texts are. -/
theorem plainNames_contractOf {roles : List String} {perms : List (String × PermScope)}
    {grants : List (String × List String)}
    (hperms : ∀ perm ∈ listedPerms (contractOf roles perms grants), NeedsNoEscape perm.1)
    (hroles : ∀ role ∈ roles, NeedsNoEscape role)
    (hgrants : ∀ role ∈ roleGrants (contractOf roles perms grants), NeedsNoEscape role.1) :
    PlainNames numberText (contractOf roles perms grants) := by
  refine ⟨hperms, fun role hrole text htext => ?_, hgrants⟩
  exact hroles text (mem_of_strings.mp ⟨role, hrole, htext⟩)

end modules

theorem plainNames_moved : PlainNames wholeDigits movedContract :=
  plainNames_contractOf needsNoEscape_moved (by decide) (by decide)

/-- A perm that is listed with two scopes and granted is protected all the same. -/
theorem validator_protects_moved : ProtectedModule (printed (lines newYear movedTexts)) := by
  have hemitted := codegenPy_of_interpolated interpolated_moved newYear
  have hdoc := forall_interpolated interpolated_moved restEnclosed_moved.docstring
  have hpopulated : Populated movedContract :=
    populated_of_four (by decide) (by decide)
  exact (validator_protects rfl hemitted plainNames_moved hdoc).1.mpr hpopulated

/-- Perms of three of the scopes. -/
def threePerms : List (String × PermScope) :=
  [(switchPerm, .self), ("helios:tenant:view", .platform), ("helios:users:view", .platformProject)]

/-- A contract with no perm for tenants only. -/
def threeContract : Json :=
  contractOf ["OWNER", "ADMIN"] threePerms (ownerMay "helios:tenant:view")

def threeTexts : Texts := textsOf ["OWNER", "ADMIN"] threePerms (ownerMay "helios:tenant:view")

theorem interpolated_three : interpolated wholeDigits threeContract = some threeTexts :=
  interpolated_contractOf _ _ wholeDigits (by decide) (by decide)

/-- It is accepted, and the text that is emitted for it is no module: the type of the scope has
nothing in its brackets. -/
theorem unlisted_scope_no_module : ∃ text,
    validateContractInMemory threeContract = .ok () ∧
      codegenPy wholeDigits newYear threeContract = some text ∧
      PlainNames wholeDigits threeContract ∧
      readModule (universalNewlines false text.toList) = none ∧ ¬ProtectedModule text := by
  have hvalid : validateContractInMemory threeContract = .ok () := rfl
  have haccepted := accepted_of_valid hvalid
  have hemits := emits_of_interpolated haccepted interpolated_three
  have hplain : PlainNames wholeDigits threeContract :=
    plainNames_contractOf (by decide) (by decide) (by decide)
  have hdoc : OneDocstring newYear threeTexts := oneDocstring_of_avoids (by decide) (by decide)
  have hread := (readModule_emitted hemits haccepted ((hplain.literal hemits).enclosed hdoc)).trans
    (if_neg (by decide))
  refine ⟨printed (lines newYear threeTexts), hvalid,
    codegenPy_of_interpolated interpolated_three newYear, hplain, hread, ?_⟩
  rintro ⟨m, hm, -⟩
  rw [hread] at hm
  cases hm

end HeliosPermissions.ProtectedPerms
