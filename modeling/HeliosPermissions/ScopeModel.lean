import HeliosPermissions.EmittedContract
import HeliosPermissions.GeneratedFunctions

/-!
# The scope model of the generated module

Whether the tuples, `PERM_SCOPE` and `ROLE_PERMISSIONS` of a module agree about the
scope of each perm. The validator keeps the last scope that a contract gives a name;
the emitter puts a name into a tuple for each scope that it is listed with, and into
`PERM_SCOPE` once more for each. So the tables agree when every name has one scope.
-/

namespace HeliosPermissions.ScopeModel

open JsonValues ContractValidation ContractEmitter PythonLiterals PythonModules EmittedModule
  EmittedTables EmittedText EmittedContract GeneratedFunctions

/-- The tuples split the keys of `PERM_SCOPE` by their values, and the roles have perms that
may be granted. -/
structure Consistent (m : Env) (bucket : PermScope → List String) : Prop where
  /-- Each tuple is the bucket of its scope. -/
  tuples : ∀ scope, m.lookup (tupleName scope) = some (.strings (bucket scope))
  /-- No permission is in two tuples. -/
  disjoint : ∀ scope scope', scope ≠ scope' → (bucket scope).Disjoint (bucket scope')
  /-- The keys of `PERM_SCOPE` are the permissions of the tuples. -/
  keys : ∀ perm, (permScope m perm).isSome ↔ ∃ scope, perm ∈ bucket scope
  /-- Each has the scope of its tuple. -/
  values : ∀ scope, ∀ perm ∈ bucket scope, permScope m perm = some (.str scope.text)
  /-- The roles have perms of the platform track only. -/
  grants : ∃ entries, m.lookup "ROLE_PERMISSIONS" = some (.dict entries) ∧
    ∀ role value, dictGet entries role = some value →
      ∃ perms, value = .strings perms ∧ ∀ perm ∈ perms, isPlatformGrantable m perm = true

/-- The text is a module whose tables are consistent. -/
def ConsistentModule (text : String) : Prop :=
  ∃ m bucket, readModule (universalNewlines false text.toList) = some m ∧ Consistent m bucket

/-- No name is listed with two scopes. -/
def OneScope (contract : Json) : Prop :=
  ∀ name scope scope', (name, scope) ∈ listedPerms contract →
    (name, scope') ∈ listedPerms contract → scope = scope'

/-- The texts other than the names of perms stay where they are written. -/
structure RestEnclosed (date : Date) (t : Texts) : Prop where
  /-- The version and the services stay inside the one docstring. -/
  docstring : OneDocstring date t
  /-- Each role stays inside its literal. -/
  roles : ∀ role ∈ t.roles, (literalValue role).isSome
  /-- The role of each row stays inside its literal. -/
  roleNames : ∀ role ∈ t.rolePermissions, (literalValue role.1).isSome

section tables

variable {tables : Tables}

/-- What makes the tables consistent. -/
theorem consistent_of_unique
    (hunique : ∀ perm scope scope', perm ∈ tables.bucket scope → perm ∈ tables.bucket scope' →
      scope = scope')
    (hgrants : ∀ role ∈ tables.rolePermissions, ∀ perm ∈ role.2,
      perm ∈ tables.bucket .platform ∨ perm ∈ tables.bucket .platformProject) :
    Consistent tables.env tables.bucket := by
  have hscope : ∀ perm scope, perm ∈ tables.bucket scope →
      permScope tables.env perm = some (.str scope.text) := by
    intro perm scope hperm
    exact permScope_of_unique hperm fun other hother => hunique perm other scope hother hperm
  refine ⟨lookup_tuple, ?_, fun _ => permScope_isSome_iff, fun scope perm => hscope perm scope,
    _, lookup_rolePermissions, ?_⟩
  · intro scope scope' hne perm hperm hperm'
    exact hne (hunique perm scope scope' hperm hperm')
  · intro role value hvalue
    obtain ⟨grant, hgrant, heq⟩ := List.mem_map.mp (mem_of_dictGet hvalue)
    cases heq
    refine ⟨grant.2, rfl, fun perm hperm => isPlatformGrantable_iff.mpr ?_⟩
    exact (hgrants grant hgrant perm hperm).imp (hscope perm _) (hscope perm _)

/-- Consistent tables have each perm in one tuple. -/
theorem unique_of_consistent {bucket : PermScope → List String}
    (h : Consistent tables.env bucket) {perm : String} {scope scope' : PermScope}
    (hperm : perm ∈ tables.bucket scope) (hperm' : perm ∈ tables.bucket scope') :
    scope = scope' := by
  have hbucket : ∀ scope, tables.bucket scope = bucket scope := by
    intro scope
    have htuple := h.tuples scope
    rw [lookup_tuple] at htuple
    exact PyValue.strings_injective (Option.some.inj htuple)
  rw [hbucket] at hperm hperm'
  by_contra hne
  exact h.disjoint scope scope' hne hperm hperm'

end tables

section contracts

variable {numberText : NumberText} {date : Date} {contract : Json} {t : Texts} {text : String}

/-- Names that need no escapes are enclosed with the rest. -/
theorem enclosed_of_needsNoEscape (h : Emits numberText contract t)
    (hnames : ∀ perm ∈ listedPerms contract, NeedsNoEscape perm.1) (hrest : RestEnclosed date t) :
    Enclosed date t := by
  refine ⟨hrest.docstring, fun scope name hname => ?_, hrest.roles, hrest.roleNames⟩
  rw [literalValue_of_needsNoEscape (hnames _ (h.mem_bucket.mp hname))]
  rfl

/-- When the emitted tables are consistent. -/
theorem consistentModule_iff (h : Emits numberText contract t) (haccepted : Accepted contract)
    (hnames : ∀ perm ∈ listedPerms contract, NeedsNoEscape perm.1) (hrest : RestEnclosed date t) :
    ConsistentModule (printed (lines date t)) ↔ OneScope contract ∧ Populated contract := by
  have hself : ∀ {name scope}, name ∈ t.bucket scope → literalValue name = some name :=
    fun hname => literalValue_of_needsNoEscape (hnames _ (h.mem_bucket.mp hname))
  have hbucket : ∀ scope, (valuesOf t).bucket scope = t.bucket scope :=
    fun scope => map_valueOf fun name => hself
  have hmem : ∀ {name scope}, name ∈ (valuesOf t).bucket scope ↔
      (name, scope) ∈ listedPerms contract := by
    intro name scope
    rw [hbucket]
    exact h.mem_bucket
  have hread := readModule_emitted h haccepted (enclosed_of_needsNoEscape h hnames hrest)
  rw [← h.occupied_iff]
  constructor
  · rintro ⟨m, bucket, hm, hconsistent⟩
    rw [hread] at hm
    split_ifs at hm with hoccupied
    cases hm
    refine ⟨fun name scope scope' hname hname' => ?_, hoccupied⟩
    exact unique_of_consistent hconsistent (hmem.mpr hname) (hmem.mpr hname')
  · rintro ⟨hone, hoccupied⟩
    refine ⟨_, _, hread.trans (if_pos hoccupied), consistent_of_unique ?_ ?_⟩
    · exact fun perm scope scope' hperm hperm' =>
        hone perm scope scope' (hmem.mp hperm) (hmem.mp hperm')
    · intro role hrole perm hperm
      obtain ⟨texts, htexts, rfl⟩ := List.mem_map.mp hrole
      obtain ⟨name, hname, rfl⟩ := List.mem_map.mp hperm
      rcases h.mem_of_grantable (h.grantable haccepted htexts hname) with hin | hin
      · exact Or.inl (List.mem_map_of_mem hin)
      · exact Or.inr (List.mem_map_of_mem hin)

/-- When the scope model of an accepted contract is consistent: no name is listed with two
scopes, each scope is listed, and there is a role. -/
theorem scope_model_consistent_iff (hvalid : validateContractInMemory contract = .ok ())
    (hemitted : codegenPy numberText date contract = some text)
    (hnames : ∀ perm ∈ listedPerms contract, NeedsNoEscape perm.1)
    (hrest : ∀ t, interpolated numberText contract = some t → RestEnclosed date t) :
    ConsistentModule text ↔ OneScope contract ∧ Populated contract := by
  have haccepted := accepted_of_valid hvalid
  obtain ⟨t, ht, rfl⟩ := Option.map_eq_some_iff.mp hemitted
  exact consistentModule_iff (emits_of_interpolated haccepted ht) haccepted hnames (hrest t ht)

end contracts

/-- Four perms with a scope each. -/
def fourPerms : List (String × PermScope) :=
  [(switchPerm, .self), ("helios:tenant:view", .platform), ("helios:posts:view", .project),
    ("helios:users:view", .platformProject)]

/-- One perm more, which is listed as a perm of tenants and then as one of the platform. -/
def movedPerms : List (String × PermScope) :=
  fourPerms ++ [("helios:media:view", .project), ("helios:media:view", .platform)]

/-- Two roles, and one perm for the first. -/
def ownerMay (perm : String) : List (String × List String) := [("OWNER", [perm]), ("ADMIN", [])]

def fourContract : Json := contractOf ["OWNER", "ADMIN"] fourPerms (ownerMay "helios:tenant:view")

def movedContract : Json := contractOf ["OWNER", "ADMIN"] movedPerms (ownerMay "helios:media:view")

/-- What is interpolated for the first of them. -/
def fourTexts : Texts := textsOf ["OWNER", "ADMIN"] fourPerms (ownerMay "helios:tenant:view")

def movedTexts : Texts := textsOf ["OWNER", "ADMIN"] movedPerms (ownerMay "helios:media:view")

/-- Numbers by their whole digits. -/
def wholeDigits : NumberText := fun n => toString n.whole

def newYear : Date := ⟨2026, 1, 1⟩

theorem interpolated_four : interpolated wholeDigits fourContract = some fourTexts :=
  interpolated_contractOf _ _ wholeDigits (by decide) (by decide)

theorem interpolated_moved : interpolated wholeDigits movedContract = some movedTexts :=
  interpolated_contractOf _ _ wholeDigits (by decide) (by decide)

theorem restEnclosed_four : RestEnclosed newYear fourTexts where
  docstring := oneDocstring_of_avoids (by decide) (by decide)
  roles := by decide
  roleNames := by decide

theorem restEnclosed_moved : RestEnclosed newYear movedTexts where
  docstring := oneDocstring_of_avoids (by decide) (by decide)
  roles := by decide
  roleNames := by decide

theorem needsNoEscape_four : ∀ perm ∈ listedPerms fourContract, NeedsNoEscape perm.1 := by decide

theorem needsNoEscape_moved : ∀ perm ∈ listedPerms movedContract, NeedsNoEscape perm.1 := by
  decide

/-- The four perms have all scopes. -/
theorem populated_of_four {contract : Json} (hlisted : ∀ perm ∈ fourPerms,
    perm ∈ listedPerms contract) (hroles : 0 < (roleList contract).length) :
    Populated contract := by
  refine ⟨fun scope => ?_, List.ne_nil_of_length_pos hroles⟩
  have hperm : ∃ name, (name, scope) ∈ fourPerms := by
    cases scope with
    | self => exact ⟨switchPerm, by decide⟩
    | platform => exact ⟨"helios:tenant:view", by decide⟩
    | project => exact ⟨"helios:posts:view", by decide⟩
    | platformProject => exact ⟨"helios:users:view", by decide⟩
  obtain ⟨name, hname⟩ := hperm
  exact ⟨name, hlisted _ hname⟩

theorem populated_four : Populated fourContract :=
  populated_of_four (by decide) (by decide)

theorem oneScope_four : OneScope fourContract := by
  have hpairs : ∀ perm ∈ listedPerms fourContract, ∀ perm' ∈ listedPerms fourContract,
      perm.1 = perm'.1 → perm.2 = perm'.2 := by decide
  exact fun name scope scope' h h' => hpairs _ h _ h' rfl

/-- Perms with one scope each have consistent tables. -/
theorem scope_model_consistent_four :
    ConsistentModule (printed (lines newYear fourTexts)) := by
  have hemitted := codegenPy_of_interpolated interpolated_four newYear
  exact (scope_model_consistent_iff rfl hemitted needsNoEscape_four
    (forall_interpolated interpolated_four restEnclosed_four)).mpr ⟨oneScope_four, populated_four⟩

/-- A perm that is listed for tenants and then for the platform passes the validator, and the
tables of the module contradict each other. -/
theorem moved_perm_inconsistent : ∃ text m,
    validateContractInMemory movedContract = .ok () ∧
      codegenPy wholeDigits newYear movedContract = some text ∧
      (∀ perm ∈ listedPerms movedContract, NeedsNoEscape perm.1) ∧
      readModule (universalNewlines false text.toList) = some m ∧
      isPlatformGrantable m "helios:media:view" = false ∧ ∀ bucket, ¬Consistent m bucket := by
  have hvalid : validateContractInMemory movedContract = .ok () := rfl
  have haccepted := accepted_of_valid hvalid
  have hemits := emits_of_interpolated haccepted interpolated_moved
  have henclosed := enclosed_of_needsNoEscape hemits needsNoEscape_moved restEnclosed_moved
  refine ⟨printed (lines newYear movedTexts), (valuesOf movedTexts).env, hvalid,
    codegenPy_of_interpolated interpolated_moved newYear, needsNoEscape_moved, ?_, by decide, ?_⟩
  · exact (readModule_emitted hemits haccepted henclosed).trans (if_pos (by decide))
  · intro bucket hconsistent
    have hplatform : "helios:media:view" ∈ (valuesOf movedTexts).bucket .platform := by decide
    have hproject : "helios:media:view" ∈ (valuesOf movedTexts).bucket .project := by decide
    cases unique_of_consistent hconsistent hplatform hproject

end HeliosPermissions.ScopeModel
