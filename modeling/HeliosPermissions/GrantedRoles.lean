import HeliosPermissions.GuardTracks
import HeliosPermissions.ReadProvenance

/-!
# Whose role a grant comes from

The generated module and the clients meet in the lists of perms. Helios and its
write-throughs are to tell what `resolve_permissions` has for a role of the pair, or
nothing. Then every list that a read returns is that of one such role, or empty, however
the clients, the cache and the failures interleave, and what the validator checked of the
roles holds of everything that is granted.
-/

namespace HeliosPermissions.GrantedRoles

open JsonValues CacheKeys CacheStore HeliosResolution ClientWorld PartialRuns InFlightTable
open CallHistory CallShapes SharedFetches ReadProvenance
open ContractValidation ContractEmitter PythonLiterals PythonModules EmittedModule EmittedTables
  EmittedText EmittedContract GeneratedFunctions ScopeModel ProtectedPerms GuardTracks

variable {Raw : Type}

section told

variable (allowed : String → String → List Json → Prop)

/-- The list that an action tells for a pair is allowed for the pair. An answer that Helios
gives in place of the membership has to be allowed for every pair that it resolves for. -/
def Tells : Action → Prop
  | .mutate (.writeThrough u t perms) => allowed u t perms
  | .change u t body => ∀ perms, resolutionToPerms body = .ok perms → allowed u t perms
  | .sample _ (.fault outcome) =>
    ∀ u t perms, fetchEnd u t outcome = .resolved perms → allowed u t perms
  | _ => True

/-- All lists that have been told, or would be, are allowed. -/
structure Told (w : World Raw) : Prop where
  /-- What Helios would answer is allowed. -/
  answers : ∀ u t perms, resolutionToPerms (w.membership u t) = .ok perms → allowed u t perms
  /-- What a read has resolved to is allowed. -/
  resolved : ∀ (i : ReadId) (r : ReadCall Raw) (perms : List Json), w.reads[i]? = some r →
    ReadResolved r perms → allowed r.userId r.tenantId perms
  /-- What is written through is allowed. -/
  written : ∀ (j : MutationId) (m : MutationCall Raw) (u t : String) (perms : List Json),
    w.mutations[j]? = some m → m.request = .writeThrough u t perms → allowed u t perms

variable {allowed} {cfg : Config Raw} {w w' : World Raw} {a : Action}

/-- The membership changes to what is told. -/
theorem answers_step (h : Told allowed w) (ha : Tells allowed a)
    (hs : step cfg w a = some w') {u t : String} {perms : List Json}
    (hperms : resolutionToPerms (w'.membership u t) = .ok perms) :
    allowed u t perms := by
  by_cases hchange : ∃ u' t' body, a = .change u' t' body
  · obtain ⟨u', t', body, rfl⟩ := hchange
    cases hs
    change resolutionToPerms (Function.update w.membership u'
      (Function.update (w.membership u') t' body) u t) = .ok perms at hperms
    by_cases hu : u = u'
    · subst hu
      rw [Function.update_self] at hperms
      by_cases ht : t = t'
      · subst ht
        rw [Function.update_self] at hperms
        exact ha perms hperms
      · rw [Function.update_of_ne ht] at hperms
        exact h.answers u t perms hperms
    · rw [Function.update_of_ne hu] at hperms
      exact h.answers u t perms hperms
  · have hsame := step_membership hs fun u' t' body heq => hchange ⟨u', t', body, heq⟩
    rw [hsame] at hperms
    exact h.answers u t perms hperms

/-- Helios answers with the membership, or with something that is allowed all the same. -/
theorem sampled_allowed (h : Told allowed w) {i : ReadId} {fate : HeliosFate}
    (ha : Tells allowed (.sample i fate)) {u t : String} {perms : List Json}
    (hend : fetchEnd u t (fate.outcome (w.membership u t)) = .resolved perms) :
    allowed u t perms := by
  cases fate with
  | answers =>
    obtain ⟨resolution, hfetch, hperms⟩ := fetchEnd_resolved_iff.mp hend
    cases hfetch
    exact h.answers u t perms hperms
  | fault outcome => exact ha u t perms hend

/-- A read resolves to what has been told. -/
theorem resolved_step (h : Told allowed w) (ha : Tells allowed a) (hs : step cfg w a = some w')
    {i : ReadId} {r' : ReadCall Raw} {perms : List Json} (hr' : w'.reads[i]? = some r')
    (hres : ReadResolved r' perms) : allowed r'.userId r'.tenantId perms := by
  rcases read_before hs hr' with hold | ⟨c, u, t, ask, -, -, rfl⟩ | ⟨r, hr, hmove⟩
  · exact h.resolved i r' perms hold hres
  · obtain ⟨n, outcome, hsam, -⟩ := hres
    cases hsam
  · cases hmove with
    | sampled fate hpc hnone =>
      obtain ⟨n, outcome, hsam, hend⟩ := hres
      cases hsam
      exact sampled_allowed h ha hend
    | _ => exact h.resolved i r perms hr hres

/-- A new write tells an allowed list. -/
theorem written_step (h : Told allowed w) (ha : Tells allowed a) (hs : step cfg w a = some w')
    {j : MutationId} {m' : MutationCall Raw} {u t : String} {perms : List Json}
    (hm' : w'.mutations[j]? = some m') (hq : m'.request = .writeThrough u t perms) :
    allowed u t perms := by
  rcases mutation_before hs hm' with hold | ⟨request, rfl, -, rfl⟩ | ⟨m, hm, hmove⟩
  · exact h.written j m' u t perms hold hq
  · have hreq : request = .writeThrough u t perms := hq
    subst hreq
    exact ha
  · obtain ⟨hq', -⟩ := hmove.same_call
    exact h.written j m u t perms hm (hq'.symm.trans hq)

/-- A step that tells allowed lists keeps them allowed. -/
theorem Told.preserved (h : Told allowed w) (ha : Tells allowed a) (hs : step cfg w a = some w') :
    Told allowed w' where
  answers _ _ _ hperms := answers_step h ha hs hperms
  resolved _ _ _ hr hres := resolved_step h ha hs hr hres
  written _ _ _ _ _ hm hq := written_step h ha hs hm hq

/-- At the start only the memberships tell something. -/
theorem init_told {content : OrderedDict String (Raw × Option ℕ)}
    {membership : String → String → Json}
    (h : ∀ u t perms, resolutionToPerms (membership u t) = .ok perms → allowed u t perms) :
    Told allowed (.init content membership) where
  answers := h
  resolved _ _ _ hr := by cases hr
  written _ _ _ _ _ hm := by cases hm

/-- A list that is known for a pair is allowed for it. -/
theorem Told.known (h : Told allowed w) {u t : String} {perms : List Json}
    (hknown : Known w u t perms) : allowed u t perms := by
  rcases hknown with ⟨i, r, hr, rfl, rfl, hres⟩ | ⟨j, m, hm, hq⟩
  · exact h.resolved i r perms hr hres
  · exact h.written j m u t perms hm hq

/-- So every read returns a list that is allowed for its pair, or denies everything. -/
theorem answer_allowed (hcache : SdkCache Raw cfg.backend) {membership : String → String → Json}
    {as : List Action} (htenants : ∀ a ∈ as, ColonFreeTenant a)
    (hinit : ∀ u t perms, resolutionToPerms (membership u t) = .ok perms → allowed u t perms)
    (htells : ∀ a ∈ as, Tells allowed a)
    (hrun : run (step cfg) (.init .empty membership) as = some w) {i : ReadId} {r : ReadCall Raw}
    {perms : List Json} {via : Via} (hr : w.reads[i]? = some r)
    (hpc : r.pc = .done (.ok perms) via) : perms = [] ∨ allowed r.userId r.tenantId perms := by
  obtain ⟨hcon, hprov⟩ := run_provenance hcache htenants hrun
  have htold : Told allowed w := run_invariant (C := fun _ a _ => Tells allowed a) (Told allowed)
    (fun _ _ _ hv hs ha => hv.preserved ha hs) hrun (along_of_forall htells) (init_told hinit)
  rcases answer_known hcon hprov hr hpc with hknown | ⟨hnil, -⟩
  · exact Or.inr (htold.known hknown)
  · exact Or.inl hnil

end told

/-- The list of one of these roles, or none of them. -/
def OfRole (m : Env) (roles : String → Prop) (perms : List Json) : Prop :=
  perms = [] ∨ ∃ role, roles role ∧
    ∀ perm, roleHasPermission m role perm = .ok (perms.any (Json.isStr perm))

/-- Whoever tells `list(resolve_permissions(role))` tells the list of the role. -/
theorem ofRole_of_resolved {m : Env} {roles : String → Prop} (role : String) (hrole : roles role)
    {names : List String} (h : resolvePermissions m role = .ok (.strings names)) :
    OfRole m roles (names.map .str) := by
  refine Or.inr ⟨role, hrole, fun perm => ?_⟩
  rw [roleHasPermission, h]
  refine congrArg Except.ok (Bool.eq_iff_iff.mpr ?_)
  rw [PyValue.holds_strings]
  simp [Json.isStr]

/-- What a read tells its caller is granted. -/
def Grants (ask : Ask) (perms : List Json) (perm : String) : Prop :=
  ask.answer perms = .inl true ∧ ask = .callerHasPermission perm ∨
    ∃ listed, ask.answer perms = .inr listed ∧ .str perm ∈ listed

/-- A list that grants a perm has it. -/
theorem Grants.holds {ask : Ask} {perms : List Json} {perm : String} (h : Grants ask perms perm) :
    perms.any (Json.isStr perm) = true := by
  rcases h with ⟨hanswer, rfl⟩ | ⟨listed, hanswer, hmem⟩
  · exact Sum.inl.inj hanswer
  · cases ask with
    | callerHasPermission required => cases hanswer
    | getUserPermissions =>
      obtain rfl := Sum.inr.inj hanswer
      exact List.any_eq_true.mpr ⟨_, hmem, Json.isStr_iff.mpr rfl⟩

/-- What stands behind a perm of a role: the contract grants it, the module knows it, it is
not universal, and with the transfer the role is `OWNER`. -/
structure Warrant (contract : Json) (m : Env) (role perm : String) : Prop where
  /-- The contract grants it to the role. -/
  granted : ∃ perms, (role, perms) ∈ roleGrants contract ∧ perm ∈ perms
  /-- The module knows it. -/
  known : isPermission m (.str perm) = true
  /-- It is not universal. -/
  notSelf : isSelfScope m perm = false
  /-- With `helios:tenant:transfer` the role is `OWNER`. -/
  transfer : perm = transferPerm → role = "OWNER"

section contracts

variable {numberText : NumberText} {date : Date} {contract : Json} {text : String} {m : Env}

/-- What the module grants a role has its warrant. -/
theorem warrant_of_granted (hprotected : Protected m) (hdecides : Decides contract m)
    {role perm : String} (h : roleHasPermission m role perm = .ok true) :
    Warrant contract m role perm := by
  cases hresolved : resolvePermissions m role with
  | error e =>
    rw [roleHasPermission, hresolved] at h
    cases h
  | ok value =>
    have hholds : value.holds perm = true := by
      rw [roleHasPermission, hresolved] at h
      exact Except.ok.inj h
    refine ⟨(hdecides.granted role perm).mp h, hprotected.known role value hresolved perm hholds,
      (hprotected.notSelf role value hresolved perm hholds).1, fun htransfer => ?_⟩
    rw [htransfer] at hholds
    exact hprotected.transfer role value hresolved hholds

end contracts

/-- Everyone owns every tenant of the contract with a moved perm. -/
def ownerWorld : World (List Json) :=
  .init .empty fun _ _ => activeBody [.str "helios:media:view"]

/-- Two reads of one pair, where the second is a hit. -/
def ownerRun : List Action :=
  [.read 0 "user-1" "tenant-1" .getUserPermissions, .serveRead 0 .executes, .resumeRead 0,
    .sample 0 .answers, .resumeRead 0, .serveRead 0 .executes, .resumeRead 0,
    .read 1 "user-1" "tenant-1" (.callerHasPermission "helios:media:view"),
    .serveRead 1 .executes, .resumeRead 1]

/-- The list of an owner in that contract. -/
theorem ofRole_moved (perms : List Json)
    (h : resolutionToPerms (activeBody [.str "helios:media:view"]) = .ok perms) :
    OfRole (valuesOf movedTexts).env (· = "OWNER") perms := by
  cases h
  have hresolved : resolvePermissions (valuesOf movedTexts).env "OWNER" =
      .ok (.strings ["helios:media:view"]) := rfl
  refine ofRole_of_resolved "OWNER" ?_ hresolved
  rfl

end HeliosPermissions.GrantedRoles
