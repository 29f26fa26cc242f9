import HeliosPermissions.ScopeModel
import HeliosPermissions.ValidatorVerdicts

/-!
# The accepted contracts that can be written

The validator looks at names and scopes; the emitter spells the version, the services
and the roles as JavaScript does, and goes through the perms of each role with a loop
that only arrays and strings allow. Where Python takes no perms, or the keys of an
object, for the perms of a role, the emitter throws. It throws too when it has to
spell an object that hides `toString`.
-/

namespace HeliosPermissions.WritableContracts

open JsonValues ContractValidation ContractEmitter EmittedContract ScopeModel

/-- JavaScript can make a text of the value: no object in it hides `toString`. -/
inductive Printable : Json → Prop
  | null : Printable .null
  | bool (b : Bool) : Printable (.bool b)
  | number (n : JsonNumber) : Printable (.number n)
  | str (s : String) : Printable (.str s)
  | arr {items : List Json} (h : ∀ item ∈ items, Printable item) : Printable (.arr items)
  | obj {fields : List (String × Json)} (h : (dictOf fields).get? "toString" = none) :
    Printable (.obj fields)

/-- The perms of a role are written down, as an array or a string. -/
def PermsWritten (defn : Json) : Prop :=
  (∃ items, member defn "permissions" = some (.arr items)) ∨
    ∃ s, member defn "permissions" = some (.str s)

/-- What the emitter needs and the validator does not check. -/
structure Writable (contract : Json) : Prop where
  /-- JavaScript can print the version. -/
  version : ∀ version, member contract "version" = some version → Printable version
  /-- It can print each service. -/
  services : ∀ items, member contract "services" = some (.arr items) →
    ∀ item ∈ items, Printable item
  /-- It can print each role. -/
  roles : ∀ role ∈ roleList contract, Printable role
  /-- It can print what each role is granted. -/
  perms : ∀ role ∈ itemsOf (member contract "role_permissions"), PermsWritten role.2

section loops

variable {α β : Type}

/-- A loop succeeds when each round does. -/
theorem mapM_isSome_iff {f : α → Option β} {l : List α} :
    (l.mapM f).isSome ↔ ∀ a ∈ l, (f a).isSome := by
  induction l with
  | nil => simp
  | cons a rest ih =>
    rw [List.mapM_cons]
    cases hfirst : f a with
    | none => simp [hfirst]
    | some b =>
      rw [List.forall_mem_cons, ← ih]
      cases rest.mapM f <;> simp [hfirst]

/-- A computation in two parts, the first of which succeeds. -/
theorem bind_isSome_iff {x : Option α} {f : α → Option β} {p : Prop}
    (h : ∀ a, x = some a → ((f a).isSome ↔ p)) :
    (x.bind f).isSome ↔ x.isSome ∧ p := by
  cases x with
  | none => simp
  | some a => simpa using h a rfl

end loops

section spellings

variable {numberText : NumberText}

/-- A list can be joined when its items can be printed. -/
theorem jsJoin_isSome_iff {separator : String} {items : List Json} :
    (jsJoin numberText separator items).isSome ↔
      ∀ item ∈ items, (jsItem numberText item).isSome := by
  induction items with
  | nil => simp [jsJoin]
  | cons item rest ih =>
    cases rest with
    | nil => simp [jsJoin]
    | cons next rest =>
      rw [List.forall_mem_cons, ← ih, jsJoin]
      · cases jsItem numberText item with
        | none => simp
        | some text => cases jsJoin numberText separator (next :: rest) <;> simp
      · exact nofun

/-- An object can be printed unless it has a `toString` of its own. -/
theorem printable_obj_iff {fields : List (String × Json)} :
    Printable (.obj fields) ↔ (dictOf fields).get? "toString" = none := by
  constructor
  · intro h
    cases h with
    | obj hnone => exact hnone
  · exact .obj

/-- The items of an array are spelled one by one, at any depth. -/
theorem jsItem_isSome_iff : (value : Json) →
    ((jsItem numberText value).isSome ↔ Printable value)
  | .null => by simp [jsItem, Printable.null]
  | .bool b => by simp [jsItem, Printable.bool]
  | .number n => by simp [jsItem, Printable.number]
  | .str s => by simp [jsItem, Printable.str]
  | .arr items => by
    have hitems : ∀ item ∈ items, ((jsItem numberText item).isSome ↔ Printable item) :=
      fun item _ => jsItem_isSome_iff item
    rw [jsItem, jsJoin_isSome_iff]
    constructor
    · intro h
      exact .arr fun item hitem => (hitems item hitem).mp (h item hitem)
    · intro h item hitem
      cases h with
      | arr hall => exact (hitems item hitem).mpr (hall item hitem)
  | .obj fields => by
    rw [jsItem, printable_obj_iff]
    cases (dictOf fields).get? "toString" <;> simp

/-- What can be printed has a text. -/
theorem jsText_isSome_iff {value : Json} :
    (jsText numberText value).isSome ↔ Printable value := by
  have hitem : (jsText numberText value).isSome = (jsItem numberText value).isSome := by
    cases value <;> simp [jsText, jsItem]
  rw [hitem, jsItem_isSome_iff]

end spellings

section contracts

variable {numberText : NumberText} {contract : Json}

/-- The perms of a service that the validator lets through have their buckets. -/
theorem serviceBuckets_isSome {service : String × Json} (h : WellFormedService service.2) :
    (serviceBuckets numberText service).isSome := by
  obtain ⟨items, hitems, hall⟩ := h
  have hperms : (items.mapM (bucketOf numberText)).isSome := by
    refine mapM_isSome_iff.mpr fun p hp => ?_
    obtain ⟨name, scope, hperm, -⟩ := hall p hp
    rw [bucketOf_of_permOf hperm]
    rfl
  rw [serviceBuckets, hitems]
  exact hperms

/-- A role that the validator lets through is written when its perms are. -/
theorem roleTexts_isSome_iff {flat : Flat} {role : String × Json}
    (h : WellFormedRole flat role.1 role.2) :
    (roleTexts numberText role).isSome ↔ PermsWritten role.2 := by
  obtain ⟨name, defn⟩ := role
  obtain ⟨perms, items, hperms, hitems, hall, -⟩ := h
  have hnames : (items.mapM (jsText numberText)).isSome := by
    refine mapM_isSome_iff.mpr fun perm hperm => ?_
    obtain ⟨text, rfl, -⟩ := hall perm hperm
    exact jsText_isSome_iff.mpr (.str text)
  have hwritten : ∀ listed : List Json, listed = items →
      (do
        let texts ← listed.mapM (jsText numberText)
        some (name, texts) : Option (String × List String)).isSome := by
    intro listed hsame
    obtain ⟨texts, htexts⟩ := Option.isSome_iff_exists.mp hnames
    rw [hsame, htexts]
    rfl
  cases defn with
  | obj fields =>
    change ((forOf ((dictOf fields).get? "permissions")).bind _).isSome ↔
      (∃ items, (dictOf fields).get? "permissions" = some (.arr items)) ∨
        ∃ s, (dictOf fields).get? "permissions" = some (.str s)
    cases hget : (dictOf fields).get? "permissions" with
    | none => simp [forOf]
    | some value =>
      rw [rolePerms, hget] at hperms
      cases hperms
      cases value with
      | arr listed =>
        have hsame : listed = items := Except.ok.inj hitems
        exact iff_of_true (hwritten listed hsame) (Or.inl ⟨listed, rfl⟩)
      | str s =>
        have hsame := Except.ok.inj hitems
        exact iff_of_true (hwritten _ hsame) (Or.inr ⟨s, rfl⟩)
      | _ => simp [forOf]
  | _ => cases hperms

/-- A missing property has a text too. -/
theorem propertyText_isSome_iff {value : Option Json} :
    (propertyText numberText value).isSome ↔ ∀ v, value = some v → Printable v := by
  cases value with
  | none => simp [propertyText]
  | some v => simp [propertyText, jsText_isSome_iff]

/-- What the validator does not check decides whether the emitter gets to the end. -/
theorem interpolated_isSome_iff (h : Accepted contract) :
    (interpolated numberText contract).isSome ↔ Writable contract := by
  obtain ⟨names, hnames⟩ := h.services
  obtain ⟨roles, hroles⟩ := h.roles
  obtain ⟨services, hservices⟩ := h.permissions
  obtain ⟨defns, hdefns⟩ := h.rolePermissions
  have hentries : ∀ fields, objectEntries (some (.obj fields)) = some (jsEntries (dictOf fields)) :=
    fun _ => rfl
  have hbuckets : ((jsEntries (dictOf services)).mapM (serviceBuckets numberText)).isSome := by
    refine mapM_isSome_iff.mpr fun service hservice => serviceBuckets_isSome (h.perms service ?_)
    rw [hservices]
    exact (jsEntries_perm _).mem_iff.mp hservice
  have hgrants : ((jsEntries (dictOf defns)).mapM (roleTexts numberText)).isSome ↔
      ∀ role ∈ itemsOf (member contract "role_permissions"), PermsWritten role.2 := by
    rw [mapM_isSome_iff, hdefns]
    have hmem : ∀ role, role ∈ jsEntries (dictOf defns) ↔ role ∈ itemsOf (some (.obj defns)) :=
      fun role => (jsEntries_perm _).mem_iff
    refine forall_congr' fun role => ?_
    rw [hmem]
    refine imp_congr_right fun hrole => roleTexts_isSome_iff (h.grants role ?_)
    rwa [hdefns]
  have hjoined : (jsJoin numberText ", " names).isSome ↔
      ∀ items, member contract "services" = some (.arr items) → ∀ item ∈ items, Printable item := by
    simp [jsJoin_isSome_iff, jsItem_isSome_iff, hnames]
  have hroleNames : (roles.mapM (jsText numberText)).isSome ↔
      ∀ role ∈ roleList contract, Printable role := by
    simp [mapM_isSome_iff, jsText_isSome_iff, roleList, hroles]
  have hversion : (propertyText numberText (member contract "version")).isSome ↔
      ∀ version, member contract "version" = some version → Printable version :=
    propertyText_isSome_iff
  obtain ⟨buckets, hbuckets⟩ := Option.isSome_iff_exists.mp hbuckets
  have hsplit : (interpolated numberText contract).isSome ↔
      (propertyText numberText (member contract "version")).isSome ∧
        (jsJoin numberText ", " names).isSome ∧ (roles.mapM (jsText numberText)).isSome ∧
          ((jsEntries (dictOf defns)).mapM (roleTexts numberText)).isSome := by
    unfold interpolated
    simp only [hservices, hdefns, hentries, hbuckets, hnames, hroles, Option.bind_eq_bind,
      Option.bind_some]
    refine bind_isSome_iff fun version _ => ?_
    refine bind_isSome_iff fun joined _ => ?_
    refine bind_isSome_iff fun roleNames _ => ?_
    cases (jsEntries (dictOf defns)).mapM (roleTexts numberText) <;> simp
  rw [hsplit, hversion, hjoined, hroleNames, hgrants]
  constructor
  · rintro ⟨hv, hs, hr, hp⟩
    exact ⟨hv, hs, hr, hp⟩
  · rintro ⟨hv, hs, hr, hp⟩
    exact ⟨hv, hs, hr, hp⟩

/-- For every contract that the validator accepts, the emitter prints a module if and only if
JavaScript can spell the version, the services and the roles, and the perms of each role
are written down. -/
theorem emitter_succeeds_iff {date : Date} (hvalid : validateContractInMemory contract = .ok ()) :
    (∃ text, codegenPy numberText date contract = some text) ↔ Writable contract := by
  have hwritable : (interpolated numberText contract).isSome ↔ Writable contract :=
    interpolated_isSome_iff (accepted_of_valid hvalid)
  rw [← hwritable]
  unfold codegenPy
  cases interpolated numberText contract <;> simp

end contracts

/-- A role without its perms, which Python takes for a role with none. -/
def unwrittenContract : Json :=
  .obj [("version", .str "1.4.0"), ("services", .arr []), ("roles", .arr []),
    ("permissions", .obj [("helios", .arr [.obj [("name", .str switchPerm),
      ("scope", .str "self")]])]),
    ("role_permissions", .obj [("OWNER", .obj [])])]

/-- It is accepted, and the emitter throws. -/
theorem emitter_succeeds_unwritten : validateContractInMemory unwrittenContract = .ok () ∧
    codegenPy wholeDigits newYear unwrittenContract = none := by
  have hvalid : validateContractInMemory unwrittenContract = .ok () := rfl
  refine ⟨hvalid, Option.eq_none_iff_forall_ne_some.mpr fun text htext => ?_⟩
  have hwritable := (emitter_succeeds_iff hvalid).mp ⟨text, htext⟩
  have hperms : PermsWritten (.obj []) := hwritable.perms ("OWNER", .obj []) List.mem_cons_self
  rcases hperms with ⟨items, hitems⟩ | ⟨s, hs⟩
  · cases hitems
  · cases hs

end HeliosPermissions.WritableContracts
