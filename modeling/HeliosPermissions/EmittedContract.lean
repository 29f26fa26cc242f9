import Mathlib.Data.List.ReduceOption
import HeliosPermissions.EmittedText

/-!
# What the emitter interpolates

For a contract that the validator lets through, the emitter writes each perm under the
scope that it is listed with, the roles as JavaScript spells them, and for each role
the perms that the validator has checked. JavaScript enumerates some keys of an object
in another order than Python, so the lists agree up to their order.
-/

namespace HeliosPermissions.EmittedContract

open JsonValues ContractValidation ContractEmitter PythonLiterals PythonModules EmittedModule
  EmittedTables EmittedText

section loops

variable {α β γ : Type}

/-- A loop that succeeds has succeeded in every round. -/
theorem forall₂_of_mapM {f : α → Option β} {l : List α} {out : List β}
    (h : l.mapM f = some out) : List.Forall₂ (fun a b => f a = some b) l out := by
  induction l generalizing out with
  | nil =>
    cases h
    exact .nil
  | cons a rest ih =>
    rw [List.mapM_cons] at h
    obtain ⟨b, hfirst, h⟩ := Option.bind_eq_some_iff.mp h
    obtain ⟨more, hrest, h⟩ := Option.bind_eq_some_iff.mp h
    cases h
    exact .cons hfirst (ih hrest)

/-- A loop whose rounds are known gives their results. -/
theorem eq_map_of_mapM {f : α → Option β} {g : β → γ} {k : α → γ} {l : List α} {out : List β}
    (hround : ∀ a ∈ l, ∀ b, f a = some b → g b = k a) (h : l.mapM f = some out) :
    out.map g = l.map k := by
  have hall := forall₂_of_mapM h
  clear h
  induction hall with
  | nil => rfl
  | @cons a b l out hfirst _ ih =>
    rw [List.map_cons, List.map_cons, hround a List.mem_cons_self b hfirst,
      ih fun a' ha' => hround a' (List.mem_cons_of_mem a ha')]

end loops

/-- JavaScript enumerates the properties in another order. -/
theorem jsEntries_perm (d : OrderedDict String Json) : (jsEntries d).Perm d.entries :=
  ((List.mergeSort_perm _ _).append_right _).trans (List.filter_append_perm _ _)

/-- JavaScript lists the members of an object in an order of its own. -/
theorem objectEntries_perm {value : Option Json} {entries : List (String × Json)}
    (h : objectEntries value = some entries) : entries.Perm (itemsOf value) := by
  unfold objectEntries at h
  split at h
  next fields =>
    cases h
    exact jsEntries_perm (dictOf fields)
  next => cases h

/-- An object without array indices among its keys is enumerated in its own order. -/
theorem objectEntries_eq {value : Option Json} (hobject : isDict value = true)
    (h : ∀ entry ∈ itemsOf value, arrayIndex entry.1 = none) :
    objectEntries value = some (itemsOf value) := by
  obtain ⟨fields, rfl⟩ := isDict_iff.mp hobject
  have hnone : (dictOf fields).entries.filter (fun entry => (arrayIndex entry.1).isSome) = [] :=
    List.filter_eq_nil_iff.mpr fun entry hentry => by simp [h entry hentry]
  have hall : (dictOf fields).entries.filter (fun entry => !(arrayIndex entry.1).isSome) =
      (dictOf fields).entries :=
    List.filter_eq_self.mpr fun entry hentry => by simp [h entry hentry]
  change some (jsEntries (dictOf fields)) = some (dictOf fields).entries
  rw [jsEntries, hnone, hall, List.mergeSort_nil, List.nil_append]

/-- The names that a contract lists with a scope, with repetitions. -/
def scopeNames (contract : Json) (scope : PermScope) : List String :=
  ((listedPerms contract).filter (·.2 = scope)).map Prod.fst

/-- The names of a scope are the permissions listed with it. -/
theorem mem_scopeNames {contract : Json} {scope : PermScope} {name : String} :
    name ∈ scopeNames contract scope ↔ (name, scope) ∈ listedPerms contract := by
  simp [scopeNames]

section rounds

variable {numberText : NumberText}

/-- A well-formed perm goes to the bucket of its scope. -/
theorem bucketOf_of_permOf {p : Json} {name : String} {scope : PermScope}
    (h : permOf p = some (name, scope)) : bucketOf numberText p = some (some (scope, name)) := by
  unfold permOf at h
  split at h
  next name' s hname hscope =>
    obtain ⟨scope', hof, hpair⟩ := Option.map_eq_some_iff.mp h
    cases hpair
    have hproperty : ∀ key value, member p key = some value →
        property p key = some (some value) := by
      intro key value hmember
      cases p with
      | obj fields => exact congrArg some hmember
      | null => cases hmember
      | bool b => cases hmember
      | number n => cases hmember
      | str s => cases hmember
      | arr items => cases hmember
    unfold bucketOf
    rw [hproperty _ _ hscope, hproperty _ _ hname]
    simp [textOf, hof, propertyText, jsText]
  next => cases h

/-- The perms of a well-formed service, with their buckets. -/
theorem serviceBuckets_eq {service : String × Json} (h : WellFormedService service.2)
    {buckets : List (Option (PermScope × String))}
    (hbuckets : serviceBuckets numberText service = some buckets) :
    buckets.reduceOption = (servicePerms service.2).map Prod.swap := by
  obtain ⟨items, hitems, hall⟩ := h
  rw [serviceBuckets, hitems] at hbuckets
  have hround : ∀ p ∈ items, ∀ b, bucketOf numberText p = some b →
      b = (permOf p).map Prod.swap := by
    intro p hp b hb
    obtain ⟨name, scope, hperm, -⟩ := hall p hp
    rw [bucketOf_of_permOf hperm] at hb
    cases hb
    rw [hperm]
    rfl
  have hmap := eq_map_of_mapM (g := id) hround hbuckets
  rw [List.map_id] at hmap
  rw [hmap, hitems, servicePerms]
  simp [List.reduceOption, List.filterMap_map, List.map_filterMap]

/-- Where both languages can iterate over the perms of a role, they find the same. -/
theorem forOf_eq_iterate {defn perms : Json} {items listed : List Json} {permissions : Option Json}
    (hperms : rolePerms defn = .ok perms) (hitems : iterate perms = .ok items)
    (hproperty : property defn "permissions" = some permissions)
    (hlisted : forOf permissions = some listed) : listed = items := by
  cases defn with
  | obj fields =>
    cases hproperty
    cases hperms
    change forOf ((dictOf fields).get? "permissions") = some listed at hlisted
    cases hget : (dictOf fields).get? "permissions" with
    | none =>
      rw [hget] at hlisted
      cases hlisted
    | some value =>
      rw [hget] at hlisted hitems
      cases value with
      | arr _ =>
        cases hlisted
        cases hitems
        rfl
      | str _ =>
        cases hlisted
        cases hitems
        rfl
      | null => cases hlisted
      | bool _ => cases hlisted
      | number _ => cases hlisted
      | obj _ => cases hlisted
  | null => cases hperms
  | bool _ => cases hperms
  | number _ => cases hperms
  | str _ => cases hperms
  | arr _ => cases hperms

/-- The perms of a role, as they are interpolated. -/
theorem roleTexts_eq {flat : Flat} {role : String × Json} (h : WellFormedRole flat role.1 role.2)
    {texts : String × List String} (htexts : roleTexts numberText role = some texts) :
    texts = (role.1, rolePermNames role.2) := by
  obtain ⟨perms, items, hperms, hitems, hall, -⟩ := h
  obtain ⟨permissions, hproperty, htexts⟩ := Option.bind_eq_some_iff.mp htexts
  obtain ⟨listed, hlisted, htexts⟩ := Option.bind_eq_some_iff.mp htexts
  obtain ⟨names, hmapped, htexts⟩ := Option.bind_eq_some_iff.mp htexts
  cases htexts
  obtain rfl := forOf_eq_iterate hperms hitems hproperty hlisted
  have hround : ∀ perm ∈ listed, ∀ text, jsText numberText perm = some text →
      some text = textOf perm := by
    intro perm hperm text htext
    obtain ⟨name, rfl, -⟩ := hall perm hperm
    rw [jsText] at htext
    exact htext.symm
  have hmap := eq_map_of_mapM hround hmapped
  have hnames : names = listed.filterMap textOf := by
    have hreduced := congrArg List.reduceOption hmap
    simpa [List.reduceOption, List.filterMap_map, Function.comp_def] using hreduced
  rw [rolePermNames_eq hperms hitems, hnames]

/-- What is interpolated for a contract. -/
structure Emits (numberText : NumberText) (contract : Json) (t : Texts) : Prop where
  /-- A bucket holds the names of its scope. -/
  bucket : ∀ scope, (t.bucket scope).Perm (scopeNames contract scope)
  /-- The roles are spelled as JavaScript spells them. -/
  roles : List.Forall₂ (fun role text => jsText numberText role = some text) (roleList contract)
    t.roles
  /-- The rows are those of the contract. -/
  rolePermissions : t.rolePermissions.Perm (roleGrants contract)

/-- The names in a bucket are those of the swapped perms with its scope. -/
theorem namesIn_swap (perms : List (String × PermScope)) (scope : PermScope) :
    namesIn (perms.map Prod.swap) scope = (perms.filter (·.2 = scope)).map Prod.fst := by
  induction perms with
  | nil => rfl
  | cons perm rest ih =>
    obtain ⟨name, listed⟩ := perm
    rw [namesIn] at ih
    by_cases hscope : listed = scope
    · simp [namesIn, hscope, ih]
    · simp [namesIn, hscope, ih]

section enumerated

variable {contract : Json} {entries : List (String × Json)}

/-- The buckets of well-formed services hold the names that are listed with their scopes. -/
theorem namesIn_buckets {buckets : List (List (Option (PermScope × String)))}
    (hentries : entries.Perm (itemsOf (member contract "permissions")))
    (h : ∀ service ∈ entries, WellFormedService service.2)
    (hbuckets : entries.mapM (serviceBuckets numberText) = some buckets) (scope : PermScope) :
    (namesIn buckets.flatten.reduceOption scope).Perm (scopeNames contract scope) := by
  have hflat : buckets.flatten.reduceOption =
      (entries.flatMap fun service => servicePerms service.2).map Prod.swap := by
    rw [List.reduceOption, List.filterMap_flatten]
    change (buckets.map List.reduceOption).flatten = _
    rw [eq_map_of_mapM (fun service hservice _ => serviceBuckets_eq (h service hservice)) hbuckets,
      List.map_flatMap]
    rfl
  rw [hflat, namesIn_swap]
  exact ((hentries.flatMap_right _).filter _).map _

/-- Well-formed roles are interpolated with the perms that have been checked. -/
theorem grants_perm {flat : Flat} {grants : List (String × List String)}
    (hentries : entries.Perm (itemsOf (member contract "role_permissions")))
    (h : ∀ role ∈ entries, WellFormedRole flat role.1 role.2)
    (hgrants : entries.mapM (roleTexts numberText) = some grants) :
    grants.Perm (roleGrants contract) := by
  have hmap := eq_map_of_mapM (g := id) (fun role hrole _ => roleTexts_eq (h role hrole)) hgrants
  rw [List.map_id] at hmap
  rw [hmap]
  exact hentries.map _

/-- The emitter interpolates the contract that the validator has accepted. -/
theorem emits_of_interpolated (h : Accepted contract) {t : Texts}
    (ht : interpolated numberText contract = some t) : Emits numberText contract t := by
  obtain ⟨names, hnames⟩ := h.services
  obtain ⟨roles, hroles⟩ := h.roles
  obtain ⟨version, -, ht⟩ := Option.bind_eq_some_iff.mp ht
  obtain ⟨services, hservices, ht⟩ := Option.bind_eq_some_iff.mp ht
  obtain ⟨buckets, hbuckets, ht⟩ := Option.bind_eq_some_iff.mp ht
  obtain ⟨listedServices, hlistedServices, ht⟩ := Option.bind_eq_some_iff.mp ht
  rw [hnames] at hlistedServices
  cases hlistedServices
  obtain ⟨joined, -, ht⟩ := Option.bind_eq_some_iff.mp ht
  obtain ⟨listedRoles, hlistedRoles, ht⟩ := Option.bind_eq_some_iff.mp ht
  rw [hroles] at hlistedRoles
  cases hlistedRoles
  obtain ⟨roleNames, hroleNames, ht⟩ := Option.bind_eq_some_iff.mp ht
  obtain ⟨defns, hdefns, ht⟩ := Option.bind_eq_some_iff.mp ht
  obtain ⟨grants, hgrants, ht⟩ := Option.bind_eq_some_iff.mp ht
  cases ht
  have hsame := objectEntries_perm hservices
  have hsame' := objectEntries_perm hdefns
  refine ⟨?_, ?_, ?_⟩
  · exact namesIn_buckets hsame (fun service hservice =>
      h.perms service (hsame.mem_iff.mp hservice)) hbuckets
  · rw [roleList, hroles]
    exact forall₂_of_mapM hroleNames
  · exact grants_perm hsame' (fun role hrole => h.grants role (hsame'.mem_iff.mp hrole)) hgrants

end enumerated

end rounds

/-- What a text means as a literal. -/
def valueOf (text : String) : String := (literalValue text).getD text

/-- What the texts mean. -/
def valuesOf (t : Texts) : Tables where
  bucket scope := (t.bucket scope).map valueOf
  roles := t.roles.map valueOf
  rolePermissions := t.rolePermissions.map fun role => (valueOf role.1, role.2.map valueOf)

/-- The texts stay where they are written: the version and the services in the docstring, each
other one in its literal. -/
structure Enclosed (date : Date) (t : Texts) : Prop where
  /-- The version and the services stay inside the one docstring. -/
  docstring : OneDocstring date t
  /-- Each permission stays inside its literal. -/
  names : ∀ scope, ∀ name ∈ t.bucket scope, (literalValue name).isSome
  /-- Each role stays inside its literal. -/
  roles : ∀ role ∈ t.roles, (literalValue role).isSome
  /-- The role of each row stays inside its literal. -/
  roleNames : ∀ role ∈ t.rolePermissions, (literalValue role.1).isSome

/-- A text inside its literal has a value there. -/
theorem literalValue_valueOf {text : String} (h : (literalValue text).isSome) :
    literalValue text = some (valueOf text) := by
  obtain ⟨value, hvalue⟩ := Option.isSome_iff_exists.mp h
  rw [valueOf, hvalue, Option.getD_some]

/-- Texts that are literals for themselves mean themselves. -/
theorem map_valueOf {texts : List String} (h : ∀ text ∈ texts, literalValue text = some text) :
    texts.map valueOf = texts := by
  have hfixed : ∀ text ∈ texts, valueOf text = id text := by
    intro text htext
    rw [valueOf, h text htext]
    rfl
  rw [List.map_congr_left hfixed, List.map_id]

/-- Texts that are literals are read as what they mean. -/
theorem readAs_valueOf {texts : List String} (h : ∀ text ∈ texts, (literalValue text).isSome) :
    ReadAs texts (texts.map valueOf) := by
  induction texts with
  | nil => exact .nil
  | cons text rest ih =>
    refine .cons (literalValue_valueOf (h text List.mem_cons_self)) ?_
    exact ih fun other hother => h other (List.mem_cons_of_mem text hother)

section contracts

variable {numberText : NumberText} {contract : Json} {t : Texts} {date : Date}

/-- A grantable perm is listed. -/
theorem Emits.mem_bucket (h : Emits numberText contract t) {name : String} {scope : PermScope} :
    name ∈ t.bucket scope ↔ (name, scope) ∈ listedPerms contract :=
  (h.bucket scope).mem_iff.trans mem_scopeNames

/-- The perms of the roles are checked. -/
theorem Emits.grantable (h : Emits numberText contract t) (haccepted : Accepted contract)
    {role : String × List String} (hrole : role ∈ t.rolePermissions) {perm : String}
    (hperm : perm ∈ role.2) : Grantable (flatOf contract) perm := by
  obtain ⟨⟨name, defn⟩, hdefn, rfl⟩ := List.mem_map.mp (h.rolePermissions.mem_iff.mp hrole)
  obtain ⟨perms, items, hperms, hitems, hall, -⟩ := haccepted.grants _ hdefn
  change perm ∈ rolePermNames defn at hperm
  rw [rolePermNames_eq hperms hitems] at hperm
  obtain ⟨item, hitem, htext⟩ := List.mem_filterMap.mp hperm
  obtain ⟨name, rfl, hgrantable⟩ := hall item hitem
  cases htext
  exact hgrantable

/-- A grantable perm stands in one of the buckets that may be granted. -/
theorem Emits.mem_of_grantable (h : Emits numberText contract t) {perm : String}
    (hperm : Grantable (flatOf contract) perm) :
    perm ∈ t.bucket .platform ∨ perm ∈ t.bucket .platformProject :=
  hperm.imp (fun hscope => h.mem_bucket.mpr (mem_listedPerms_of_flatOf hscope))
    fun hscope => h.mem_bucket.mpr (mem_listedPerms_of_flatOf hscope)

/-- Enclosed texts are read as what they mean. -/
theorem textsReadAs (h : Emits numberText contract t) (haccepted : Accepted contract)
    (henclosed : Enclosed date t) : TextsReadAs t (valuesOf t) := by
  refine ⟨fun scope => readAs_valueOf (henclosed.names scope), readAs_valueOf henclosed.roles, ?_⟩
  refine List.forall₂_map_right_iff.mpr (List.forall₂_same.mpr ?_)
  intro role hrole
  refine ⟨literalValue_valueOf (henclosed.roleNames role hrole), readAs_valueOf ?_⟩
  intro perm hperm
  rcases h.mem_of_grantable (h.grantable haccepted hrole hperm) with hmem | hmem
  · exact henclosed.names _ perm hmem
  · exact henclosed.names _ perm hmem

/-- Every text is a literal for itself. -/
structure LiteralTexts (t : Texts) : Prop where
  /-- The permissions are read back as they are. -/
  names : ∀ scope, ∀ name ∈ t.bucket scope, literalValue name = some name
  /-- The roles are read back as they are. -/
  roles : ∀ role ∈ t.roles, literalValue role = some role
  /-- The roles of the rows are read back as they are. -/
  roleNames : ∀ role ∈ t.rolePermissions, literalValue role.1 = some role.1

/-- Such texts are enclosed. -/
theorem LiteralTexts.enclosed (h : LiteralTexts t) (hdoc : OneDocstring date t) :
    Enclosed date t := by
  have hsome : ∀ {text : String}, literalValue text = some text → (literalValue text).isSome :=
    fun htext => Option.isSome_iff_exists.mpr ⟨_, htext⟩
  exact ⟨hdoc, fun scope name hname => hsome (h.names scope name hname),
    fun role hrole => hsome (h.roles role hrole), fun role hrole => hsome (h.roleNames role hrole)⟩

/-- And they mean themselves. -/
theorem LiteralTexts.values (h : LiteralTexts t) (hemits : Emits numberText contract t)
    (haccepted : Accepted contract) : (∀ scope, (valuesOf t).bucket scope = t.bucket scope) ∧
      (valuesOf t).roles = t.roles ∧ (valuesOf t).rolePermissions = t.rolePermissions := by
  refine ⟨fun scope => map_valueOf (h.names scope), map_valueOf h.roles, ?_⟩
  have hfixed : ∀ role ∈ t.rolePermissions,
      (valueOf role.1, role.2.map valueOf) = id role := by
    intro role hrole
    have hperms : role.2.map valueOf = role.2 := by
      refine map_valueOf fun perm hperm => ?_
      rcases hemits.mem_of_grantable (hemits.grantable haccepted hrole hperm) with hmem | hmem
      · exact h.names _ perm hmem
      · exact h.names _ perm hmem
    rw [hperms, valueOf, h.roleNames role hrole]
    rfl
  change t.rolePermissions.map (fun role => (valueOf role.1, role.2.map valueOf)) = _
  rw [List.map_congr_left hfixed, List.map_id]

/-- The names of a contract need no escapes, its roles as JavaScript spells them. -/
structure PlainNames (numberText : NumberText) (contract : Json) : Prop where
  /-- The permissions need no escapes. -/
  perms : ∀ perm ∈ listedPerms contract, NeedsNoEscape perm.1
  /-- The roles need no escapes. -/
  roles : ∀ role ∈ roleList contract, ∀ text, jsText numberText role = some text →
    NeedsNoEscape text
  /-- The roles of the rows need no escapes. -/
  roleNames : ∀ role ∈ roleGrants contract, NeedsNoEscape role.1

/-- A role that is interpolated is one of the list. -/
theorem Emits.mem_roles (h : Emits numberText contract t) {text : String} :
    text ∈ t.roles ↔ ∃ role ∈ roleList contract, jsText numberText role = some text := by
  have hroles := h.roles
  generalize roleList contract = roles at hroles
  generalize t.roles = texts at hroles
  induction hroles with
  | nil => simp
  | @cons role text' roles texts hrole _ ih =>
    have hfirst : text = text' ↔ jsText numberText role = some text := by
      rw [hrole, Option.some.injEq, eq_comm]
    rw [List.mem_cons, List.exists_mem_cons_iff]
    exact or_congr hfirst ih

/-- Plain names are literals for themselves. -/
theorem PlainNames.literal (h : PlainNames numberText contract)
    (hemits : Emits numberText contract t) : LiteralTexts t := by
  refine ⟨fun scope name hname => ?_, fun role hrole => ?_, fun role hrole => ?_⟩
  · exact literalValue_of_needsNoEscape (h.perms _ (hemits.mem_bucket.mp hname))
  · obtain ⟨value, hvalue, htext⟩ := hemits.mem_roles.mp hrole
    exact literalValue_of_needsNoEscape (h.roles value hvalue role htext)
  · exact literalValue_of_needsNoEscape
      (h.roleNames role (hemits.rolePermissions.mem_iff.mp hrole))

/-- A contract with one service. -/
def contractOf (roles : List String) (perms : List (String × PermScope))
    (grants : List (String × List String)) : Json :=
  .obj [("version", .str "1.4.0"), ("services", .arr [.str "helios"]),
    ("roles", .arr (roles.map .str)),
    ("permissions", .obj [("helios", .arr (perms.map fun perm =>
      .obj [("name", .str perm.1), ("scope", .str perm.2.text)]))]),
    ("role_permissions", .obj (grants.map fun role =>
      (role.1, .obj [("permissions", .arr (role.2.map .str))])))]

/-- What is interpolated for it. -/
def textsOf (roles : List String) (perms : List (String × PermScope))
    (grants : List (String × List String)) : Texts :=
  ⟨"1.4.0", "helios", namesIn (perms.map Prod.swap), roles, grants⟩

/-- A loop whose rounds all succeed. -/
theorem mapM_eq_map {α β : Type} {f : α → Option β} {g : α → β} {l : List α}
    (h : ∀ a ∈ l, f a = some (g a)) : l.mapM f = some (l.map g) := by
  induction l with
  | nil => rfl
  | cons a rest ih =>
    have hrest := ih fun a' ha' => h a' (List.mem_cons_of_mem a ha')
    rw [List.mapM_cons, h a List.mem_cons_self, hrest]
    rfl

/-- The text of a scope is read as the scope. -/
theorem ofText_text (scope : PermScope) : PermScope.ofText scope.text = some scope := by
  cases scope with
  | self => rfl
  | platform => rfl
  | project => rfl
  | platformProject => rfl

/-- A string is its own text. -/
theorem mapM_jsText (numberText : NumberText) (items : List String) :
    (items.map Json.str).mapM (jsText numberText) = some items := by
  rw [List.mapM_map, mapM_eq_map (g := id) fun item _ => by rw [Function.comp_apply, jsText]; rfl,
    List.map_id]

section samples

variable (roles : List String) (perms : List (String × PermScope))

/-- The service is enumerated, and its perms go to their buckets. -/
theorem services_contractOf (grants : List (String × List String)) (numberText : NumberText) :
    ∃ services, objectEntries (member (contractOf roles perms grants) "permissions") =
        some services ∧
      services.mapM (serviceBuckets numberText) = some [perms.map fun perm => some perm.swap] := by
  have hindex : arrayIndex "helios" = none := by decide
  have hbuckets : (perms.map fun perm =>
      Json.obj [("name", .str perm.1), ("scope", .str perm.2.text)]).mapM (bucketOf numberText) =
        some (perms.map fun perm => some perm.swap) := by
    rw [List.mapM_map]
    refine mapM_eq_map fun perm _ => bucketOf_of_permOf ?_
    change (PermScope.ofText perm.2.text).map _ = _
    rw [ofText_text]
    rfl
  refine ⟨_, objectEntries_eq rfl fun entry hentry => ?_, ?_⟩
  · obtain rfl := List.mem_singleton.mp hentry
    exact hindex
  · refine mapM_eq_map (g := fun _ => perms.map fun perm => some perm.swap) ?_
    intro service hservice
    obtain rfl := List.mem_singleton.mp hservice
    exact hbuckets

/-- The roles are enumerated in their order unless one is an array index. -/
theorem grants_contractOf {grants : List (String × List String)} (numberText : NumberText)
    (hnodup : (grants.map Prod.fst).Nodup)
    (hkeys : ∀ role ∈ grants, arrayIndex role.1 = none) :
    ∃ defns, objectEntries (member (contractOf roles perms grants) "role_permissions") =
        some defns ∧ defns.mapM (roleTexts numberText) = some grants := by
  have hitems : itemsOf (member (contractOf roles perms grants) "role_permissions") =
      grants.map fun role => (role.1, .obj [("permissions", .arr (role.2.map .str))]) := by
    refine entries_dictOf ?_
    rw [List.map_map]
    exact hnodup
  refine ⟨_, objectEntries_eq rfl ?_, ?_⟩
  · rw [hitems]
    intro entry hentry
    obtain ⟨role, hrole, rfl⟩ := List.mem_map.mp hentry
    exact hkeys role hrole
  · rw [hitems, List.mapM_map]
    refine (mapM_eq_map (g := id) fun role _ => ?_).trans (by rw [List.map_id])
    change ((role.2.map Json.str).mapM (jsText numberText)).bind _ = _
    rw [mapM_jsText]
    rfl

/-- What is interpolated for a contract made of strings. -/
theorem interpolated_contractOf {grants : List (String × List String)} (numberText : NumberText)
    (hnodup : (grants.map Prod.fst).Nodup)
    (hkeys : ∀ role ∈ grants, arrayIndex role.1 = none) :
    interpolated numberText (contractOf roles perms grants) =
      some (textsOf roles perms grants) := by
  obtain ⟨services, hservices, hbuckets⟩ := services_contractOf roles perms grants numberText
  obtain ⟨defns, hdefns, hgrants⟩ := grants_contractOf roles perms numberText hnodup hkeys
  have hreduced : [perms.map fun perm => some perm.swap].flatten.reduceOption =
      perms.map Prod.swap := by
    simp [List.reduceOption, List.filterMap_map]
  have hversion : propertyText numberText (member (contractOf roles perms grants) "version") =
      some "1.4.0" := rfl
  have hnames : member (contractOf roles perms grants) "services" =
      some (.arr [.str "helios"]) := rfl
  have hroles : member (contractOf roles perms grants) "roles" =
      some (.arr (roles.map .str)) := rfl
  unfold interpolated
  rw [hversion, hservices, hnames, hroles, hdefns]
  simp only [Option.bind_eq_bind, Option.bind_some, hbuckets, mapM_jsText, hgrants, hreduced]
  rfl

end samples

/-- Each scope is listed, and there is a role. -/
def Populated (contract : Json) : Prop :=
  (∀ scope, ∃ name, (name, scope) ∈ listedPerms contract) ∧ roleList contract ≠ []

/-- No table is empty when the contract populates them all. -/
theorem Emits.occupied_iff (h : Emits numberText contract t) :
    Occupied t ↔ Populated contract := by
  have hscope : ∀ scope, t.bucket scope ≠ [] ↔ ∃ name, (name, scope) ∈ listedPerms contract := by
    intro scope
    constructor
    · intro hne
      obtain ⟨name, hname⟩ := List.exists_mem_of_ne_nil _ hne
      exact ⟨name, h.mem_bucket.mp hname⟩
    · rintro ⟨name, hname⟩
      exact List.ne_nil_of_mem (h.mem_bucket.mpr hname)
  have hroles : t.roles = [] ↔ roleList contract = [] := by
    rw [← List.length_eq_zero_iff, ← h.roles.length_eq, List.length_eq_zero_iff]
  refine and_congr ?_ (not_congr hroles)
  constructor
  · intro hall scope
    exact (hscope scope).mp (hall scope (by simp))
  · exact fun hall scope _ => (hscope scope).mpr (hall scope)

/-- The emitted module, read back. -/
theorem readModule_emitted (h : Emits numberText contract t) (haccepted : Accepted contract)
    (henclosed : Enclosed date t) :
    readModule (universalNewlines false (printed (lines date t)).toList) =
      if Occupied t then some (valuesOf t).env else none :=
  readModule_printed henclosed.docstring (textsReadAs h haccepted henclosed)

end contracts

end HeliosPermissions.EmittedContract
