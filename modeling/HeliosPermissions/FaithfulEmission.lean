import HeliosPermissions.ScopeModel

/-!
# Reading the contract back

When the emitted module gives the contract back: its names, roles and role
permissions, as the contract has them. Decoding only ever shortens a text, so the
names of a table can only be exchanged among themselves when none of them changes.
The list of roles is written without a trailing comma, and one role alone is a string.
-/

namespace HeliosPermissions.FaithfulEmission

open JsonValues ContractValidation ContractEmitter PythonLiterals PythonModules EmittedModule
  EmittedTables EmittedText EmittedContract GeneratedFunctions ScopeModel

/-- The module gives the contract back. -/
structure Faithful (contract : Json) (m : Env) : Prop where
  /-- Each tuple holds the permissions of its scope. -/
  tuples : ∀ scope, ∃ names, m.lookup (tupleName scope) = some (.strings names) ∧
    names.Perm (scopeNames contract scope)
  /-- `ROLES` holds the roles, in their order. -/
  roles : ∃ names, roleList contract = names.map .str ∧ m.lookup "ROLES" = some (.strings names)
  /-- `ROLE_PERMISSIONS` looks up as the contract does. -/
  rolePermissions : ∃ entries, m.lookup "ROLE_PERMISSIONS" = some (.dict entries) ∧
    ∀ role, dictGet entries role = ((roleGrants contract).lookup role).map .strings
  /-- `is_role` knows the roles of the contract. -/
  isRole : ∀ value, isRole m value = true ↔ ∃ s, value = .str s ∧ .str s ∈ roleList contract
  /-- No role has a perm that the validator has not checked. -/
  checked : ∀ entries, m.lookup "ROLE_PERMISSIONS" = some (.dict entries) →
    ∀ role perms, dictGet entries role = some (.strings perms) →
      ∀ perm ∈ perms, Grantable (flatOf contract) perm

/-- The text is a module that gives the contract back. -/
def FaithfulModule (contract : Json) (text : String) : Prop :=
  ∃ m, readModule (universalNewlines false text.toList) = some m ∧ Faithful contract m

/-- The names are literals for themselves, each scope is listed, and there are two roles. -/
structure RoundTrips (contract : Json) : Prop where
  /-- Each permission is a literal for itself. -/
  perms : ∀ perm ∈ listedPerms contract, literalValue perm.1 = some perm.1
  /-- Each scope has a permission. -/
  scopes : ∀ scope, ∃ name, (name, scope) ∈ listedPerms contract
  /-- Each role is a string and a literal for itself. -/
  roles : ∀ role ∈ roleList contract, ∃ s, role = .str s ∧ literalValue s = some s
  /-- There are two roles, so that `ROLES` is a tuple. -/
  twoRoles : 2 ≤ (roleList contract).length
  /-- Each role with permissions is a literal for itself. -/
  roleNames : ∀ role ∈ roleGrants contract, literalValue role.1 = some role.1

section lists

variable {texts : List String}

/-- Texts whose meanings cover them are literals for themselves. -/
theorem literal_of_covered (hliteral : ∀ text ∈ texts, (literalValue text).isSome)
    (hcover : ∀ text ∈ texts, ∃ source ∈ texts, valueOf source = text) :
    ∀ text ∈ texts, literalValue text = some text := by
  have hshrink : ∀ text ∈ texts, valueOf text ≠ text →
      (valueOf text).length < text.length :=
    fun text htext hne => literalValue_shrinks (literalValue_valueOf (hliteral text htext)) hne
  intro text htext
  have hfixed := fixed_of_covering valueOf String.length hshrink hcover text htext
  rw [literalValue_valueOf (hliteral text htext), hfixed]

/-- Texts that are listed as what they mean are literals for themselves. -/
theorem literal_of_map_valueOf (hliteral : ∀ text ∈ texts, (literalValue text).isSome)
    (h : (texts.map valueOf).Perm texts) : ∀ text ∈ texts, literalValue text = some text := by
  refine literal_of_covered hliteral fun text htext => ?_
  exact List.mem_map.mp (h.mem_iff.mpr htext)

end lists

/-- A contract has each role once. -/
theorem nodup_roleGrants (contract : Json) : ((roleGrants contract).map Prod.fst).Nodup := by
  rw [roleGrants, List.map_map]
  change ((itemsOf (member contract "role_permissions")).map Prod.fst).Nodup
  unfold itemsOf
  split
  next fields _ => exact (dictOf fields).nodup
  next => exact List.nodup_nil

section contracts

variable {numberText : NumberText} {date : Date} {contract : Json} {t : Texts} {text : String}

/-- Roles that are strings are interpolated as they are. -/
theorem roles_of_strings (h : Emits numberText contract t) {names : List String}
    (hnames : roleList contract = names.map .str) : t.roles = names := by
  have hroles := h.roles
  rw [hnames, List.forall₂_map_left_iff] at hroles
  clear hnames
  generalize t.roles = texts at hroles
  induction hroles with
  | nil => rfl
  | cons hrole _ ih =>
    rw [jsText] at hrole
    rw [ih, Option.some.inj hrole]

/-- The roles of a contract that gives itself back are strings. -/
theorem RoundTrips.strings (h : RoundTrips contract) :
    ∃ names : List String, roleList contract = names.map .str ∧
      ∀ name ∈ names, literalValue name = some name := by
  have hroles := h.roles
  generalize roleList contract = roles at hroles
  clear h
  induction roles with
  | nil => exact ⟨[], rfl, by simp⟩
  | cons role rest ih =>
    obtain ⟨s, rfl, hs⟩ := hroles role List.mem_cons_self
    obtain ⟨names, hrest, hnames⟩ := ih fun other hother =>
      hroles other (List.mem_cons_of_mem _ hother)
    refine ⟨s :: names, by rw [hrest, List.map_cons], ?_⟩
    intro name hname
    rcases List.mem_cons.mp hname with rfl | hname
    · exact hs
    · exact hnames name hname

/-- What is interpolated for such a contract is a literal for itself. -/
theorem RoundTrips.literal (h : RoundTrips contract) (hemits : Emits numberText contract t) :
    LiteralTexts t := by
  obtain ⟨names, hnames, hliteral⟩ := h.strings
  refine ⟨fun scope name hname => ?_, fun role hrole => ?_, fun role hrole => ?_⟩
  · exact h.perms _ (hemits.mem_bucket.mp hname)
  · rw [roles_of_strings hemits hnames] at hrole
    exact hliteral role hrole
  · exact h.roleNames role (hemits.rolePermissions.mem_iff.mp hrole)

/-- A contract with literal names and two roles is given back. -/
theorem RoundTrips.faithful (h : RoundTrips contract) (hemits : Emits numberText contract t)
    (haccepted : Accepted contract) : Faithful contract (valuesOf t).env := by
  obtain ⟨names, hnames, -⟩ := h.strings
  obtain ⟨hbucket, hroles, hgrants⟩ := (h.literal hemits).values hemits haccepted
  have hlookup : (valuesOf t).env.lookup "ROLES" = some (.strings names) := by
    have htwo := h.twoRoles
    rw [hnames, List.length_map] at htwo
    rw [lookup_roles, hroles, roles_of_strings hemits hnames, parenthesised_eq htwo]
  have hdict : (valuesOf t).env.lookup "ROLE_PERMISSIONS" =
      some (.dict (grantEntries t.rolePermissions)) := by
    rw [lookup_rolePermissions, hgrants]
  refine ⟨fun scope => ?_, ⟨names, hnames, hlookup⟩, ⟨_, hdict, fun role => ?_⟩,
    fun value => ?_, ?_⟩
  · refine ⟨_, lookup_tuple scope, ?_⟩
    rw [hbucket]
    exact hemits.bucket scope
  · have hperm : (grantEntries t.rolePermissions).reverse.Perm
        (grantEntries (roleGrants contract)) :=
      (List.reverse_perm _).trans (hemits.rolePermissions.map _)
    have hnodup : ((grantEntries (roleGrants contract)).map Prod.fst).Nodup := by
      rw [grantEntries, List.map_map]
      exact nodup_roleGrants contract
    rw [dictGet, OrderedDict.lookup_perm hperm hnodup]
    exact OrderedDict.lookup_map_value PyValue.strings role _
  · rw [isRole_iff hlookup, hnames]
    simp
  · intro entries hentries role perms hperms perm hperm
    rw [hdict] at hentries
    cases hentries
    obtain ⟨grant, hgrant, heq⟩ := List.mem_map.mp (mem_of_dictGet hperms)
    obtain ⟨-, hstrings⟩ := Prod.mk.inj heq
    rw [← PyValue.strings_injective hstrings] at hperm
    exact hemits.grantable haccepted hgrant hperm

/-- Perms that come back are literals for themselves. -/
theorem Faithful.names_literal (h : Faithful contract (valuesOf t).env)
    (hemits : Emits numberText contract t) (henclosed : Enclosed date t) (scope : PermScope) :
    ∀ name ∈ t.bucket scope, literalValue name = some name := by
  obtain ⟨names, hlookup, hnames⟩ := h.tuples scope
  rw [lookup_tuple] at hlookup
  have hsame := PyValue.strings_injective (Option.some.inj hlookup)
  refine literal_of_map_valueOf (henclosed.names scope) ?_
  change ((valuesOf t).bucket scope).Perm _
  rw [hsame]
  exact hnames.trans (hemits.bucket scope).symm

/-- Roles that come back are strings and literals for themselves, and they are two. -/
theorem Faithful.roles_literal (h : Faithful contract (valuesOf t).env)
    (hemits : Emits numberText contract t) (henclosed : Enclosed date t) (hne : t.roles ≠ []) :
    roleList contract = t.roles.map .str ∧ 2 ≤ t.roles.length ∧
      ∀ role ∈ t.roles, literalValue role = some role := by
  obtain ⟨names, hnames, hlookup⟩ := h.roles
  have htexts := roles_of_strings hemits hnames
  have hvaluesNe : (valuesOf t).roles ≠ [] := fun hnil => hne (List.map_eq_nil_iff.mp hnil)
  obtain ⟨hvalues, htwo⟩ := eq_of_parenthesised hvaluesNe
    (Option.some.inj (lookup_roles.symm.trans hlookup))
  have hsame : t.roles.map valueOf = t.roles := hvalues.trans htexts.symm
  refine ⟨by rw [hnames, htexts], ?_, ?_⟩
  · rw [← hsame]
    exact htwo
  · exact literal_of_map_valueOf henclosed.roles (by rw [hsame])

/-- Keys of roles that come back are literals for themselves. -/
theorem Faithful.keys_literal (h : Faithful contract (valuesOf t).env)
    (hemits : Emits numberText contract t) (henclosed : Enclosed date t) :
    ∀ key ∈ t.rolePermissions.map Prod.fst, literalValue key = some key := by
  obtain ⟨entries, hentries, hall⟩ := h.rolePermissions
  rw [lookup_rolePermissions] at hentries
  cases hentries
  refine literal_of_covered (fun key hkey => ?_) fun key hkey => ?_
  · obtain ⟨role, hrole, rfl⟩ := List.mem_map.mp hkey
    exact henclosed.roleNames role hrole
  · obtain ⟨role, hrole, rfl⟩ := List.mem_map.mp hkey
    have hgranted := OrderedDict.lookup_of_mem (nodup_roleGrants contract)
      (hemits.rolePermissions.mem_iff.mp hrole)
    have hbound : (dictGet (grantEntries (valuesOf t).rolePermissions) role.1).isSome := by
      rw [hall, hgranted]
      rfl
    obtain ⟨value, hvalue⟩ := dictGet_isSome_iff.mp hbound
    obtain ⟨grant, hgrant, heq⟩ := List.mem_map.mp hvalue
    obtain ⟨texts, htexts, rfl⟩ := List.mem_map.mp hgrant
    exact ⟨texts.1, List.mem_map_of_mem htexts, (Prod.mk.inj heq).1⟩

/-- A contract that is given back has literal names and two roles. -/
theorem Faithful.roundTrips (h : Faithful contract (valuesOf t).env)
    (hemits : Emits numberText contract t) (henclosed : Enclosed date t)
    (hoccupied : Occupied t) : RoundTrips contract := by
  obtain ⟨hroles, htwo, hliteral⟩ := h.roles_literal hemits henclosed hoccupied.2
  refine ⟨?_, (hemits.occupied_iff.mp hoccupied).1, ?_, ?_, ?_⟩
  · exact fun perm hperm =>
      h.names_literal hemits henclosed perm.2 perm.1 (hemits.mem_bucket.mpr hperm)
  · intro role hrole
    rw [hroles] at hrole
    obtain ⟨s, hs, rfl⟩ := List.mem_map.mp hrole
    exact ⟨s, rfl, hliteral s hs⟩
  · rw [hroles, List.length_map]
    exact htwo
  · intro role hrole
    have hkey := List.mem_map_of_mem (f := Prod.fst) (hemits.rolePermissions.mem_iff.mpr hrole)
    exact h.keys_literal hemits henclosed role.1 hkey

/-- When the emitted text gives the contract back: it does if the names are literals for
themselves, the docstring is one, each scope is listed and there are two roles, and only then
as long as the texts stay where they are written. -/
theorem emission_faithful_iff (hvalid : validateContractInMemory contract = .ok ())
    (hemitted : codegenPy numberText date contract = some text) :
    ((RoundTrips contract ∧ ∀ t, interpolated numberText contract = some t → OneDocstring date t) →
        FaithfulModule contract text) ∧
      ((∀ t, interpolated numberText contract = some t → Enclosed date t) →
        FaithfulModule contract text → RoundTrips contract) := by
  have haccepted := accepted_of_valid hvalid
  obtain ⟨t, ht, rfl⟩ := Option.map_eq_some_iff.mp hemitted
  have hemits := emits_of_interpolated haccepted ht
  constructor
  · rintro ⟨hround, hdoc⟩
    have hread := readModule_emitted hemits haccepted ((hround.literal hemits).enclosed (hdoc t ht))
    have hpopulated : Populated contract :=
      ⟨hround.scopes, List.ne_nil_of_length_pos (by have := hround.twoRoles; omega)⟩
    exact ⟨_, hread.trans (if_pos (hemits.occupied_iff.mpr hpopulated)),
      hround.faithful hemits haccepted⟩
  · rintro henclosed ⟨m, hm, hfaithful⟩
    rw [readModule_emitted hemits haccepted (henclosed t ht)] at hm
    split_ifs at hm with hoccupied
    cases hm
    exact hfaithful.roundTrips hemits (henclosed t ht) hoccupied

end contracts

theorem roundTrips_four : RoundTrips fourContract where
  perms perm hperm := literalValue_of_needsNoEscape (needsNoEscape_four perm hperm)
  scopes := populated_four.1
  roles := by
    have hroles : roleList fourContract = ["OWNER", "ADMIN"].map .str := rfl
    have hplain : ∀ role ∈ ["OWNER", "ADMIN"], NeedsNoEscape role := by decide
    intro role hrole
    rw [hroles] at hrole
    obtain ⟨s, hs, rfl⟩ := List.mem_map.mp hrole
    exact ⟨s, rfl, literalValue_of_needsNoEscape (hplain s hs)⟩
  twoRoles := le_rfl
  roleNames := by
    have hplain : ∀ role ∈ roleGrants fourContract, NeedsNoEscape role.1 := by decide
    exact fun role hrole => literalValue_of_needsNoEscape (hplain role hrole)

/-- Two roles and plain names come back. -/
theorem emission_faithful_four :
    FaithfulModule fourContract (printed (lines newYear fourTexts)) := by
  have hemitted := codegenPy_of_interpolated interpolated_four newYear
  exact (emission_faithful_iff rfl hemitted).1
    ⟨roundTrips_four, forall_interpolated interpolated_four restEnclosed_four.docstring⟩

/-- A contract with one role. -/
def ownerContract : Json := contractOf ["OWNER"] fourPerms [("OWNER", ["helios:tenant:view"])]

def ownerTexts : Texts := textsOf ["OWNER"] fourPerms [("OWNER", ["helios:tenant:view"])]

theorem interpolated_owner : interpolated wholeDigits ownerContract = some ownerTexts :=
  interpolated_contractOf _ _ wholeDigits (by decide) (by decide)

theorem enclosed_owner : Enclosed newYear ownerTexts where
  docstring := oneDocstring_of_avoids (by decide) (by decide)
  names scope := by
    cases scope with
    | self => decide
    | platform => decide
    | project => decide
    | platformProject => decide
  roles := by decide
  roleNames := by decide

/-- One role in parentheses is a string, and its parts pass for roles. -/
theorem single_role_is_a_string : ∃ text m,
    validateContractInMemory ownerContract = .ok () ∧
      codegenPy wholeDigits newYear ownerContract = some text ∧
      readModule (universalNewlines false text.toList) = some m ∧
      m.lookup "ROLES" = some (.str "OWNER") ∧ isRole m (.str "OWN") = true ∧
      ¬Faithful ownerContract m := by
  have hvalid : validateContractInMemory ownerContract = .ok () := rfl
  have haccepted := accepted_of_valid hvalid
  have hemits := emits_of_interpolated haccepted interpolated_owner
  refine ⟨printed (lines newYear ownerTexts), (valuesOf ownerTexts).env, hvalid,
    codegenPy_of_interpolated interpolated_owner newYear, ?_, ?_, by decide, ?_⟩
  · exact (readModule_emitted hemits haccepted enclosed_owner).trans (if_pos (by decide))
  · rfl
  · intro hfaithful
    have htwo := (hfaithful.roundTrips hemits enclosed_owner (by decide)).twoRoles
    exact absurd htwo (by decide)

end HeliosPermissions.FaithfulEmission
