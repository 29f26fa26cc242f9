import Mathlib.Data.Finset.Max
import HeliosPermissions.FaithfulEmission
import HeliosPermissions.ProtectedPerms

/-!
# What the guards of the generated module decide

`PERM_SCOPE` is written scope by scope, so the last scope in that order that a contract
lists a perm with is the one that the guards see. It decides on which tracks the perm
can be granted; a perm that is not listed can be granted to tenants. The validator goes
by the order of the contract instead. A role can so have a perm that the guards do not
let the platform grant, when the perm is listed for tenants too.
-/

namespace HeliosPermissions.GuardTracks

open JsonValues CacheKeys ContractValidation ContractEmitter PythonLiterals PythonModules
  EmittedModule EmittedTables EmittedText EmittedContract GeneratedFunctions ScopeModel
  FaithfulEmission ProtectedPerms

/-- Where a scope stands among the tables. -/
def position : PermScope → ℕ
  | .self => 0
  | .platform => 1
  | .project => 2
  | .platformProject => 3

/-- The scopes have four positions. -/
theorem position_injective : Function.Injective position := by
  intro scope scope' h
  cases scope <;> cases scope' <;> first | rfl | cases h

/-- The scopes have four texts. -/
theorem text_injective : Function.Injective PermScope.text := by
  intro scope scope' h
  cases scope <;> cases scope' <;> first | rfl | exact absurd h (by decide)

/-- A perm is in the table of this scope, and in none after it. -/
def LastIn (bucket : PermScope → List String) (perm : String) (scope : PermScope) : Prop :=
  perm ∈ bucket scope ∧ ∀ other, perm ∈ bucket other → position other ≤ position scope

/-- A contract lists a perm with this scope, and with none that is written after it. -/
def Governs (contract : Json) (perm : String) (scope : PermScope) : Prop :=
  (perm, scope) ∈ listedPerms contract ∧
    ∀ other, (perm, other) ∈ listedPerms contract → position other ≤ position scope

section displays

variable {bucket : PermScope → List String} {perm : String} {scope scope' : PermScope}

/-- A permission is last in one bucket only. -/
theorem LastIn.unique (h : LastIn bucket perm scope) (h' : LastIn bucket perm scope') :
    scope = scope' := by
  have hle := h.2 scope' h'.1
  have hge := h'.2 scope h.1
  exact position_injective (by omega)

/-- A perm that is in some table is last in one of them. -/
theorem exists_lastIn (h : perm ∈ bucket scope) : ∃ last, LastIn bucket perm last := by
  have hne : (PermScope.all.toFinset.filter (perm ∈ bucket ·)).Nonempty := ⟨scope, by simp [h]⟩
  obtain ⟨last, hlast, hmax⟩ := Finset.exists_max_image _ position hne
  refine ⟨last, (Finset.mem_filter.mp hlast).2, fun other hother => hmax other ?_⟩
  simp [hother]

/-- A later display of a key hides an earlier one. -/
theorem dictGet_append (front rest : List (String × PyValue)) (key : String) :
    dictGet (front ++ rest) key = (dictGet rest key).or (dictGet front key) := by
  rw [dictGet, List.reverse_append, List.lookup_append]
  rfl

/-- Entries that all have one value. -/
theorem dictGet_map_const (names : List String) (value : PyValue) (key : String) :
    dictGet (names.map fun name => (name, value)) key =
      if key ∈ names then some value else none := by
  by_cases hkey : key ∈ names
  · rw [if_pos hkey]
    refine dictGet_of_unique (List.mem_map.mpr ⟨key, hkey, rfl⟩) ?_
    intro other hother
    obtain ⟨name, -, heq⟩ := List.mem_map.mp hother
    exact (Prod.mk.inj heq).2.symm
  · rw [if_neg hkey, ← Option.not_isSome_iff_eq_none, dictGet_isSome_iff]
    rintro ⟨other, hother⟩
    obtain ⟨name, hname, heq⟩ := List.mem_map.mp hother
    obtain rfl := (Prod.mk.inj heq).1
    exact hkey hname

/-- The scope that is looked up is the last one. -/
theorem dictGet_scopeEntries (h : LastIn bucket perm scope) :
    dictGet (scopeEntries bucket) perm = some (.str scope.text) := by
  have habsent : ∀ other, position scope < position other → perm ∉ bucket other := by
    intro other hlt hmem
    have hle := h.2 other hmem
    omega
  simp only [scopeEntries, PermScope.all, List.flatMap_cons, List.flatMap_nil, List.append_nil,
    dictGet_append, dictGet_map_const]
  cases scope with
  | self =>
    simp [h.1, habsent .platform (by decide), habsent .project (by decide),
      habsent .platformProject (by decide)]
  | platform =>
    simp [h.1, habsent .project (by decide), habsent .platformProject (by decide)]
  | project => simp [h.1, habsent .platformProject (by decide)]
  | platformProject => simp [h.1]

end displays

section tables

variable {tables : Tables} {perm : String} {scope : PermScope}

/-- `PERM_SCOPE` has no row for what is in no bucket. -/
theorem permScope_eq_none_iff :
    permScope tables.env perm = none ↔ ∀ scope, perm ∉ tables.bucket scope := by
  rw [← Option.not_isSome_iff_eq_none, permScope_isSome_iff]
  simp

/-- `PERM_SCOPE` gives the last bucket that a permission is in. -/
theorem permScope_eq_some_iff :
    permScope tables.env perm = some (.str scope.text) ↔ LastIn tables.bucket perm scope := by
  have hlookup : ∀ last, LastIn tables.bucket perm last →
      permScope tables.env perm = some (.str last.text) := by
    intro last hlast
    rw [permScope, lookup_permScope]
    exact dictGet_scopeEntries hlast
  constructor
  · intro h
    obtain ⟨found, hmem, -⟩ := mem_of_permScope h
    obtain ⟨last, hlast⟩ := exists_lastIn hmem
    have htext : PyValue.str last.text = .str scope.text :=
      Option.some.inj ((hlookup last hlast).symm.trans h)
    have hsame : last = scope := text_injective (PyValue.str.inj htext)
    rwa [← hsame]
  · exact hlookup scope

/-- What is looked up: nothing, or the spelling of the last scope. -/
theorem permScope_cases (tables : Tables) (perm : String) :
    (permScope tables.env perm = none ∧ ∀ scope, perm ∉ tables.bucket scope) ∨
      ∃ scope, permScope tables.env perm = some (.str scope.text) ∧
        LastIn tables.bucket perm scope := by
  cases hscope : permScope tables.env perm with
  | none => exact Or.inl ⟨rfl, permScope_eq_none_iff.mp hscope⟩
  | some value =>
    obtain ⟨found, -, rfl⟩ := mem_of_permScope hscope
    exact Or.inr ⟨found, rfl, permScope_eq_some_iff.mp hscope⟩

/-- `is_self_scope` goes by the last bucket. -/
theorem isSelfScope_iff : isSelfScope tables.env perm = true ↔ LastIn tables.bucket perm .self := by
  rw [← permScope_eq_some_iff, isSelfScope]
  rcases permScope_cases tables perm with ⟨hnone, -⟩ | ⟨scope, hscope, -⟩
  · simp [hnone]
  · rw [hscope]
    cases scope <;> simp [PyValue.isStr, PermScope.text]

/-- `is_platform_grantable` goes by the last bucket. -/
theorem isPlatformGrantable_lastIn : isPlatformGrantable tables.env perm = true ↔
    LastIn tables.bucket perm .platform ∨ LastIn tables.bucket perm .platformProject := by
  rw [← permScope_eq_some_iff, ← permScope_eq_some_iff]
  exact isPlatformGrantable_iff

/-- So does `is_tenant_grantable`, which also takes what is in no bucket. -/
theorem isTenantGrantable_lastIn : isTenantGrantable tables.env perm = true ↔
    (∀ scope, perm ∉ tables.bucket scope) ∨ LastIn tables.bucket perm .project ∨
      LastIn tables.bucket perm .platformProject := by
  rw [← permScope_eq_some_iff, ← permScope_eq_some_iff, ← permScope_eq_none_iff,
    isTenantGrantable]
  rcases permScope_cases tables perm with ⟨hnone, -⟩ | ⟨scope, hscope, -⟩
  · simp [hnone]
  · rw [hscope]
    cases scope <;> simp [PyValue.isStr, PermScope.text]

/-- The perms of a role are looked up among the entries. -/
theorem roleHasPermission_iff {role : String}
    (hnodup : (tables.rolePermissions.map Prod.fst).Nodup) :
    roleHasPermission tables.env role perm = .ok true ↔
      ∃ perms, (role, perms) ∈ tables.rolePermissions ∧ perm ∈ perms := by
  constructor
  · intro h
    cases hresolved : resolvePermissions tables.env role with
    | ok value =>
      obtain ⟨names, hnames, rfl⟩ := mem_of_resolvePermissions hresolved
      rw [roleHasPermission, hresolved] at h
      exact ⟨names, hnames, PyValue.holds_strings.mp (Except.ok.inj h)⟩
    | error e =>
      rw [roleHasPermission, hresolved] at h
      cases h
  · rintro ⟨perms, hrole, hperm⟩
    have hdict : dictGet (grantEntries tables.rolePermissions) role = some (.strings perms) := by
      refine dictGet_of_unique (List.mem_map.mpr ⟨_, hrole, rfl⟩) ?_
      intro other hother
      obtain ⟨⟨role', perms'⟩, hrole', heq⟩ := List.mem_map.mp hother
      obtain ⟨hkey, rfl⟩ := Prod.mk.inj heq
      have hkey : role' = role := hkey
      have hsame : perms' = perms :=
        List.inj_on_of_nodup_map hnodup hrole' hrole hkey |> Prod.mk.inj |>.2
      rw [hsame]
    rw [roleHasPermission, resolvePermissions_eq, hdict]
    exact congrArg Except.ok (PyValue.holds_strings.mpr hperm)

end tables

/-- The guards go by the scope that governs a perm, and the roles have the perms of the
contract. -/
structure Decides (contract : Json) (m : Env) : Prop where
  /-- `is_permission` knows what the contract lists. -/
  known : ∀ perm, isPermission m (.str perm) = true ↔
    ∃ scope, (perm, scope) ∈ listedPerms contract
  /-- `is_self_scope` holds of what is listed and ends in `:self`. -/
  universal : ∀ perm, isSelfScope m perm = true ↔
    (∃ scope, (perm, scope) ∈ listedPerms contract) ∧ endsWith perm ":self" = true
  /-- `is_platform_grantable` goes by the scope that governs. -/
  platform : ∀ perm, isPlatformGrantable m perm = true ↔
    Governs contract perm .platform ∨ Governs contract perm .platformProject
  /-- So does `is_tenant_grantable`, which also takes what is not listed. -/
  tenant : ∀ perm, isTenantGrantable m perm = true ↔
    (∀ scope, (perm, scope) ∉ listedPerms contract) ∨ Governs contract perm .project ∨
      Governs contract perm .platformProject
  /-- What is universal is not granted on a track. -/
  apart : ∀ perm, isSelfScope m perm = true →
    isPlatformGrantable m perm = false ∧ isTenantGrantable m perm = false
  /-- Everything else is granted on one. -/
  covered : ∀ perm, isSelfScope m perm = false →
    isPlatformGrantable m perm = true ∨ isTenantGrantable m perm = true
  /-- `role_has_permission` gives what the contract grants. -/
  granted : ∀ role perm, roleHasPermission m role perm = .ok true ↔
    ∃ perms, (role, perms) ∈ roleGrants contract ∧ perm ∈ perms

section modules

variable {numberText : NumberText} {date : Date} {contract : Json} {t : Texts} {text : String}

/-- A perm with the suffix is listed with scope `self` only. -/
theorem governs_self_iff (h : Accepted contract) {perm : String} :
    Governs contract perm .self ↔
      (∃ scope, (perm, scope) ∈ listedPerms contract) ∧ endsWith perm ":self" = true := by
  constructor
  · rintro ⟨hlisted, -⟩
    exact ⟨⟨_, hlisted⟩, (self_iff_of_listed h hlisted).mp rfl⟩
  · rintro ⟨⟨scope, hlisted⟩, hsuffix⟩
    have hself : ∀ other, (perm, other) ∈ listedPerms contract → other = .self :=
      fun other hother => (self_iff_of_listed h hother).mpr hsuffix
    have hscope := hself scope hlisted
    rw [hscope] at hlisted
    exact ⟨hlisted, fun other hother => by rw [hself other hother]⟩

/-- The tables of an accepted contract with plain names make these decisions. -/
theorem decides_of_emits (hemits : Emits numberText contract t) (h : Accepted contract)
    (hplain : PlainNames numberText contract) : Decides contract (valuesOf t).env := by
  obtain ⟨hbucket, -, hgrants⟩ := (hplain.literal hemits).values hemits h
  have hmem : ∀ {perm scope}, perm ∈ (valuesOf t).bucket scope ↔
      (perm, scope) ∈ listedPerms contract := by
    intro perm scope
    rw [hbucket]
    exact hemits.mem_bucket
  have hlast : ∀ {perm scope}, LastIn (valuesOf t).bucket perm scope ↔
      Governs contract perm scope := by
    intro perm scope
    unfold LastIn Governs
    simp only [hmem]
  have hnodup : ((valuesOf t).rolePermissions.map Prod.fst).Nodup := by
    rw [hgrants, (hemits.rolePermissions.map Prod.fst).nodup_iff]
    exact nodup_roleGrants contract
  have hself : ∀ perm, isSelfScope (valuesOf t).env perm = true ↔ Governs contract perm .self :=
    fun perm => isSelfScope_iff.trans hlast
  have hplatform : ∀ perm, isPlatformGrantable (valuesOf t).env perm = true ↔
      Governs contract perm .platform ∨ Governs contract perm .platformProject :=
    fun perm => isPlatformGrantable_lastIn.trans (or_congr hlast hlast)
  have htenant : ∀ perm, isTenantGrantable (valuesOf t).env perm = true ↔
      (∀ scope, (perm, scope) ∉ listedPerms contract) ∨ Governs contract perm .project ∨
        Governs contract perm .platformProject := by
    intro perm
    rw [isTenantGrantable_lastIn, hlast, hlast]
    simp only [hmem]
  have hunique : ∀ {perm scope scope'}, Governs contract perm scope →
      Governs contract perm scope' → scope = scope' :=
    fun hscope hscope' => (hlast.mpr hscope).unique (hlast.mpr hscope')
  refine ⟨fun perm => ?_, fun perm => (hself perm).trans (governs_self_iff h), hplatform, htenant,
    fun perm huniversal => ?_, fun perm hother => ?_, fun role perm => ?_⟩
  · rw [isPermission_iff]
    simp only [hmem]
  · have hgoverns := (hself perm).mp huniversal
    constructor
    · refine Bool.eq_false_iff.mpr fun hgrantable => ?_
      rcases (hplatform perm).mp hgrantable with hscope | hscope
      · cases hunique hgoverns hscope
      · cases hunique hgoverns hscope
    · refine Bool.eq_false_iff.mpr fun hgrantable => ?_
      rcases (htenant perm).mp hgrantable with hunlisted | hscope | hscope
      · exact hunlisted _ hgoverns.1
      · cases hunique hgoverns hscope
      · cases hunique hgoverns hscope
  · by_cases hlisted : ∃ scope, (perm, scope) ∈ listedPerms contract
    · obtain ⟨scope, hscope⟩ := hlisted
      obtain ⟨last, hlastIn⟩ := exists_lastIn (hmem.mpr hscope)
      have hgoverns := hlast.mp hlastIn
      cases last with
      | self =>
        rw [(hself perm).mpr hgoverns] at hother
        cases hother
      | platform => exact Or.inl ((hplatform perm).mpr (Or.inl hgoverns))
      | project => exact Or.inr ((htenant perm).mpr (Or.inr (Or.inl hgoverns)))
      | platformProject => exact Or.inl ((hplatform perm).mpr (Or.inr hgoverns))
    · exact Or.inr ((htenant perm).mpr (Or.inl (not_exists.mp hlisted)))
  · rw [roleHasPermission_iff hnodup, hgrants]
    simp only [hemits.rolePermissions.mem_iff]

/-- What is read of an emitted module are the values of its texts. -/
theorem decides_of_readModule (hvalid : validateContractInMemory contract = .ok ())
    (hemitted : codegenPy numberText date contract = some text)
    (hplain : PlainNames numberText contract)
    (hdoc : ∀ t, interpolated numberText contract = some t → OneDocstring date t) {m : Env}
    (hm : readModule (universalNewlines false text.toList) = some m) : Decides contract m := by
  have haccepted := accepted_of_valid hvalid
  obtain ⟨t, ht, rfl⟩ := Option.map_eq_some_iff.mp hemitted
  have hemits := emits_of_interpolated haccepted ht
  rw [readModule_emitted hemits haccepted ((hplain.literal hemits).enclosed (hdoc t ht))] at hm
  split_ifs at hm
  cases hm
  exact decides_of_emits hemits haccepted hplain

/-- For every contract that the validator accepts, with plain names, the guards of the module
decide every string by the contract: a perm is universal by its suffix, and else its last
scope in the order of the tables says on which tracks it is granted. -/
theorem guards_decide (hvalid : validateContractInMemory contract = .ok ())
    (hemitted : codegenPy numberText date contract = some text)
    (hplain : PlainNames numberText contract)
    (hdoc : ∀ t, interpolated numberText contract = some t → OneDocstring date t) :
    ∀ m, readModule (universalNewlines false text.toList) = some m → Decides contract m :=
  fun _ hm => decides_of_readModule hvalid hemitted hplain hdoc hm

/-- A perm of a role is listed for the platform, or for both. -/
theorem listed_of_granted (hemits : Emits numberText contract t) (h : Accepted contract)
    {role : String × List String} (hrole : role ∈ roleGrants contract) {perm : String}
    (hperm : perm ∈ role.2) : (perm, .platform) ∈ listedPerms contract ∨
      (perm, .platformProject) ∈ listedPerms contract :=
  (hemits.grantable h (hemits.rolePermissions.mem_iff.mpr hrole) hperm).imp
    mem_listedPerms_of_flatOf mem_listedPerms_of_flatOf

/-- When every perm that a role has is one that the platform grants: no perm of a role is
listed for tenants without being listed for both. -/
theorem grants_usable_iff (hvalid : validateContractInMemory contract = .ok ())
    (hemitted : codegenPy numberText date contract = some text)
    (hplain : PlainNames numberText contract)
    (hdoc : ∀ t, interpolated numberText contract = some t → OneDocstring date t) {m : Env}
    (hm : readModule (universalNewlines false text.toList) = some m) :
    (∀ role perm, roleHasPermission m role perm = .ok true → isPlatformGrantable m perm = true) ↔
      ∀ role ∈ roleGrants contract, ∀ perm ∈ role.2, (perm, .project) ∈ listedPerms contract →
        (perm, .platformProject) ∈ listedPerms contract := by
  have hdecides := decides_of_readModule hvalid hemitted hplain hdoc hm
  obtain ⟨t, ht, -⟩ := Option.map_eq_some_iff.mp hemitted
  have haccepted := accepted_of_valid hvalid
  have hemits := emits_of_interpolated haccepted ht
  constructor
  · intro husable role hrole perm hperm hproject
    have hgranted := (hdecides.granted role.1 perm).mpr ⟨role.2, hrole, hperm⟩
    rcases (hdecides.platform perm).mp (husable role.1 perm hgranted) with hscope | hscope
    · exact absurd (hscope.2 _ hproject) (by decide)
    · exact hscope.1
  · intro hlisted role perm hgranted
    obtain ⟨perms, hrole, hperm⟩ := (hdecides.granted role perm).mp hgranted
    refine (hdecides.platform perm).mpr ?_
    by_cases hdual : (perm, .platformProject) ∈ listedPerms contract
    · refine Or.inr ⟨hdual, fun other _ => ?_⟩
      cases other <;> decide
    · have hplatform := (listed_of_granted hemits haccepted hrole hperm).resolve_right hdual
      refine Or.inl ⟨hplatform, fun other hother => ?_⟩
      cases other with
      | self => decide
      | platform => exact le_rfl
      | project => exact (hdual (hlisted _ hrole perm hperm hother)).elim
      | platformProject => exact (hdual hother).elim

end modules

/-- The module of the contract with a moved perm. -/
theorem readModule_moved :
    readModule (universalNewlines false (printed (lines newYear movedTexts)).toList) =
      some (valuesOf movedTexts).env := by
  have haccepted : Accepted movedContract := accepted_of_valid rfl
  have hemits := emits_of_interpolated haccepted interpolated_moved
  have henclosed := enclosed_of_needsNoEscape hemits needsNoEscape_moved restEnclosed_moved
  exact (readModule_emitted hemits haccepted henclosed).trans (if_pos (by decide))

/-- It decides by the later table, where the perm is one of tenants. -/
theorem guards_decide_moved : Decides movedContract (valuesOf movedTexts).env :=
  guards_decide rfl (codegenPy_of_interpolated interpolated_moved newYear) plainNames_moved
    (forall_interpolated interpolated_moved restEnclosed_moved.docstring) _ readModule_moved

/-- So a role has a perm that the platform does not grant. -/
theorem grants_usable_moved : ∃ role perm,
    roleHasPermission (valuesOf movedTexts).env role perm = .ok true ∧
      isPlatformGrantable (valuesOf movedTexts).env perm = false := by
  have hlisted : ¬∀ role ∈ roleGrants movedContract, ∀ perm ∈ role.2,
      (perm, PermScope.project) ∈ listedPerms movedContract →
        (perm, PermScope.platformProject) ∈ listedPerms movedContract := by decide
  have hunusable := mt (grants_usable_iff rfl
    (codegenPy_of_interpolated interpolated_moved newYear) plainNames_moved
    (forall_interpolated interpolated_moved restEnclosed_moved.docstring) readModule_moved).mp
    hlisted
  by_contra hall
  refine hunusable fun role perm hgranted => ?_
  by_contra hgrantable
  exact hall ⟨role, perm, hgranted, Bool.eq_false_iff.mpr hgrantable⟩

end HeliosPermissions.GuardTracks
