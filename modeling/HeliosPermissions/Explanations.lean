import Mathlib.Data.List.Infix
import HeliosPermissions.CorruptedEntries

/-!
# The diagnostic path

`explain` reads the resolution by itself. It rules out two tags and takes every
other status for an active membership, it needs the role, and it looks for the
permission in the field as it is. The hot path takes only `active` for active,
never reads the role, and looks in the list that it makes of the field.
-/

namespace HeliosPermissions.Explanations

open JsonValues CacheKeys CacheStore HeliosResolution ClientWorld PermissionCaches
open SequentialReads CorruptedEntries

/-- `ROLES`. -/
def roles : List String := ["OWNER", "ADMIN", "EDITOR", "VIEWER"]

/-- `Reason`. -/
inductive Reason where
  | grantedByRole
  | notAMember
  | membershipInactive
  | roleLacksPermission
  | cacheHit
  | cacheMissFilledByHelios
  | heliosUnreachableFailClosed
  deriving DecidableEq, Repr

/-- `PermissionExplanation`. -/
structure PermissionExplanation where
  /-- `granted`. -/
  granted : Bool
  /-- `role`, `None` where Helios names no known role. -/
  role : Option String
  /-- `reason`. -/
  reason : Reason
  deriving DecidableEq, Repr

/-- `PermissionClient._parse_role`: the value when it is one of `ROLES`. -/
def parseRole (value : Json) : Option String := roles.find? fun role => value.isStr role

/-- `perm in value`: an item of an array, a part of a string, a key of an object. -/
def isIn (perm : String) : Json → Except PyError Bool
  | .arr items => .ok (holds perm items)
  | .str s => .ok (perm.toList <:+: s.toList)
  | .obj fields => .ok (fields.any fun f => f.1 = perm)
  | _ => .error .typeError

/-- What `explain` makes of a resolution. -/
def explainResolution (perm : String) (resolution : Json) : Except PyError PermissionExplanation :=
  match resolution.getItem "status" with
  | .error err => .error err
  | .ok status =>
    if status.isStr "not_a_member" then .ok ⟨false, none, .notAMember⟩
    else match resolution.getItem "role" with
      | .error err => .error err
      | .ok role =>
        if status.isStr "inactive" then .ok ⟨false, parseRole role, .membershipInactive⟩
        else match resolution.getItem "permissions" with
          | .error err => .error err
          | .ok permissions => (isIn perm permissions).map fun granted =>
            ⟨granted, parseRole role, if granted then .grantedByRole else .roleLacksPermission⟩

/-- `PermissionClient.explain`. -/
def explain (userId tenantId perm : String) (outcome : HttpOutcome) :
    Except PyError PermissionExplanation :=
  match fetchUserPermissions userId tenantId outcome with
  | .error (.heliosUnreachable _) => .ok ⟨false, none, .heliosUnreachableFailClosed⟩
  | .error err => .error err
  | .ok resolution => explainResolution perm resolution

/-- `explain` reports that the permission is granted. -/
def ReportsGranted (u t perm : String) (outcome : HttpOutcome) : Prop :=
  ∃ explanation, explain u t perm outcome = .ok explanation ∧ explanation.granted = true

/-- The permission is in the field of the body, as `explain` looks for it. -/
def Listed (perm : String) (body : Json) : Prop :=
  ∃ permissions, body.getItem "permissions" = .ok permissions ∧ isIn perm permissions = .ok true

/-- The permission is in the list that the hot path makes of the field. -/
def Counted (perm : String) (body : Json) : Prop :=
  ∃ permissions items, body.getItem "permissions" = .ok permissions ∧
    permissions.toList = .ok items ∧ holds perm items = true

/-- The body has a role of some kind. -/
def HasRole (body : Json) : Prop := ∃ role, body.getItem "role" = .ok role

/-- The status of the body is this text. -/
def HasStatus (text : String) (body : Json) : Prop := body.getItem "status" = .ok (.str text)

/-- The bodies that the two paths read differently: a status without a meaning that
comes with a role and the permission; an active membership that counts the
permission and has no role; permissions spelled in one string, in which the
permission is a part and not a character. -/
inductive Misleads (perm : String) (body : Json) : Prop
  | unknownStatus (status : Json) (hs : body.getItem "status" = .ok status)
      (hknown : ∀ text ∈ ["active", "inactive", "not_a_member"], status ≠ .str text)
      (hrole : HasRole body) (hlisted : Listed perm body)
  | noRole (hs : HasStatus "active" body) (hrole : ¬HasRole body) (hcounted : Counted perm body)
  | spelledOut (hs : HasStatus "active" body) (hrole : HasRole body) (hlisted : Listed perm body)
      (hcounted : ¬Counted perm body)

section readings

variable {perm : String} {body : Json}

/-- `explain` grants on a body exactly when its status is none of the two negative
tags, a role is there, and the permission is in the field. -/
theorem explainResolution_grants_iff :
    (∃ explanation, explainResolution perm body = .ok explanation ∧
      explanation.granted = true) ↔
    ∃ status, body.getItem "status" = .ok status ∧ status ≠ .str "not_a_member" ∧
      status ≠ .str "inactive" ∧ HasRole body ∧ Listed perm body := by
  unfold explainResolution HasRole Listed
  cases hs : body.getItem "status" with
  | error err => simp
  | ok status =>
    have hiff : ∀ text, status.isStr text = true ↔ status = .str text := fun _ => Json.isStr_iff
    by_cases hn : status = .str "not_a_member"
    · simp [hn, Json.isStr]
    · cases hr : body.getItem "role" with
      | error err => simp [hiff, hn]
      | ok role =>
        by_cases hi : status = .str "inactive"
        · simp [hi, Json.isStr]
        · cases hp : body.getItem "permissions" with
          | error err => simp [hiff, hn, hi]
          | ok permissions =>
            simp only [hiff, hn, hi, if_false]
            cases hin : isIn perm permissions with
            | error err => simp [hin, Except.map]
            | ok granted => simp [hin, hn, hi, Except.map]

/-- The hot path grants on a body exactly when its status is active and the permission
is counted. -/
theorem resolutionToPerms_grants_iff :
    (∃ perms, resolutionToPerms body = .ok perms ∧ holds perm perms = true) ↔
      HasStatus "active" body ∧ Counted perm body := by
  unfold resolutionToPerms HasStatus Counted
  cases hs : body.getItem "status" with
  | error err => simp
  | ok status =>
    by_cases ha : status = .str "active"
    · cases hp : body.getItem "permissions" with
      | error err => simp [ha, Json.isStr]
      | ok permissions => simp [ha, Json.isStr]
    · have hiff : status.isStr "active" = true ↔ status = .str "active" := Json.isStr_iff
      simp [hiff, ha, holds]

/-- What is counted is listed: a character of a string is a part of it. -/
theorem Counted.listed (h : Counted perm body) : Listed perm body := by
  obtain ⟨permissions, items, hp, hitems, hholds⟩ := h
  refine ⟨permissions, hp, ?_⟩
  cases permissions with
  | arr list =>
    cases hitems
    rw [isIn, hholds]
  | str s =>
    cases hitems
    obtain ⟨v, hv, heq⟩ := List.any_eq_true.mp hholds
    obtain ⟨c, hc, rfl⟩ := List.mem_map.mp hv
    have hperm : String.singleton c = perm := by simpa [Json.isStr] using heq
    obtain ⟨front, back, hsplit⟩ := List.append_of_mem hc
    rw [isIn, ← hperm]
    refine congrArg Except.ok (decide_eq_true ?_)
    exact ⟨front, back, by simp [hsplit]⟩
  | obj fields =>
    cases hitems
    obtain ⟨v, hv, heq⟩ := List.any_eq_true.mp hholds
    obtain ⟨f, hf, rfl⟩ := List.mem_map.mp hv
    rw [isIn]
    refine congrArg Except.ok (List.any_eq_true.mpr ⟨f, hf, ?_⟩)
    simpa [Json.isStr] using heq
  | null => cases hitems
  | bool b => cases hitems
  | number n => cases hitems

/-- The two readings of a body agree exactly when it does not mislead. -/
theorem readings_agree_iff :
    ((∃ explanation, explainResolution perm body = .ok explanation ∧
        explanation.granted = true) ↔
      ∃ perms, resolutionToPerms body = .ok perms ∧ holds perm perms = true) ↔
    ¬Misleads perm body := by
  rw [explainResolution_grants_iff, resolutionToPerms_grants_iff]
  constructor
  · rintro hagree (⟨status, hs, hknown, hrole, hlisted⟩ | ⟨hs, hrole, hcounted⟩ |
      ⟨hs, hrole, hlisted, hcounted⟩)
    · obtain ⟨hactive, -⟩ := hagree.mp ⟨status, hs, hknown _ (by simp), hknown _ (by simp), hrole,
        hlisted⟩
      rw [HasStatus, hs] at hactive
      exact hknown "active" (by simp) (Except.ok.inj hactive)
    · obtain ⟨-, -, -, -, hrole', -⟩ := hagree.mpr ⟨hs, hcounted⟩
      exact hrole hrole'
    · exact hcounted (hagree.mp ⟨_, hs, by simp, by simp, hrole, hlisted⟩).2
  · intro hfair
    constructor
    · rintro ⟨status, hs, hn, hi, hrole, hlisted⟩
      by_cases ha : status = .str "active"
      · subst ha
        refine ⟨hs, ?_⟩
        by_contra hcounted
        exact hfair (.spelledOut hs hrole hlisted hcounted)
      · exact absurd (.unknownStatus status hs (by simp [ha, hn, hi]) hrole hlisted) hfair
    · rintro ⟨hs, hcounted⟩
      refine ⟨_, hs, by simp, by simp, ?_, hcounted.listed⟩
      by_contra hrole
      exact hfair (.noRole hs hrole hcounted)

end readings

section paths

variable {Raw : Type} {backend : Backend Raw} {store : Store Raw} {u t : String}

/-- On a cold key the hot path grants exactly when the fetched resolution does. -/
theorem callerHasPermission_true_iff (now : ℕ) (perm : String) (env : ReadEnv)
    (hcold : store.get? (backend.key u t) = none) :
    (callerHasPermission backend true now store u t perm env).outcome = .ok true ↔
      ∃ body, fetchUserPermissions u t env.outcome = .ok body ∧
        ∃ perms, resolutionToPerms body = .ok perms ∧ holds perm perms = true := by
  simp only [callerHasPermission, resolveAlone, get_absent hcold, fetchAndPopulate]
  cases he : fetchEnd u t env.outcome with
  | unreachable message => simp [Except.map, holds, fetchEnd_unreachable_iff.mp he]
  | escaped err =>
    constructor
    · rintro h
      cases h
    · rintro ⟨body, hf, perms, hp, -⟩
      rw [fetchEnd_resolved_iff.mpr ⟨body, hf, hp⟩] at he
      cases he
  | resolved perms =>
    obtain ⟨body, hf, hp⟩ := fetchEnd_resolved_iff.mp he
    simp [Except.map, hf, hp]

/-- Granted is reported when Helios answers a body that says so. -/
theorem reportsGranted_iff {perm : String} {outcome : HttpOutcome} :
    ReportsGranted u t perm outcome ↔ ∃ body, fetchUserPermissions u t outcome = .ok body ∧
      ∃ explanation, explainResolution perm body = .ok explanation ∧
        explanation.granted = true := by
  unfold ReportsGranted explain
  cases hf : fetchUserPermissions u t outcome with
  | error err => cases err <;> simp
  | ok body => simp

theorem notMemberBody_fair {perm : String} : ¬Misleads perm notMemberBody := by
  rintro (⟨status, hs, hknown, -, -⟩ | ⟨hs, -, -⟩ | ⟨hs, -, -, -⟩)
  · exact hknown "not_a_member" (by simp) (Except.ok.inj hs).symm
  · exact absurd (Json.str.inj (Except.ok.inj hs)) (by decide)
  · exact absurd (Json.str.inj (Except.ok.inj hs)) (by decide)

/-- A response in the 200s is its decoded body. -/
theorem fetch_of_success {statusCode : ℤ} {json : Except PyError Json} (hge : 200 ≤ statusCode)
    (hlt : statusCode < 300) : fetchUserPermissions u t (.response statusCode json) = json := by
  rw [fetchUserPermissions, if_neg (by omega), if_neg (by omega)]

/-- A fetched body is that of a reply with a 2xx status, or stands for a 404. -/
theorem fetch_cases {outcome : HttpOutcome} {body : Json}
    (h : fetchUserPermissions u t outcome = .ok body) :
    (∃ statusCode, outcome = .response statusCode (.ok body) ∧ 200 ≤ statusCode ∧
      statusCode < 300) ∨ (∃ json, outcome = .response 404 json) ∧ body = notMemberBody := by
  cases outcome with
  | raised => cases h
  | response statusCode json =>
    simp only [fetchUserPermissions] at h
    split_ifs at h with h404 hbad
    · cases h
      exact Or.inr ⟨⟨json, by rw [h404]⟩, rfl⟩
    · exact Or.inl ⟨statusCode, by rw [h], by omega, by omega⟩

/-- The two paths decide alike on a cold key, exactly when no body with a 2xx status
misleads about the permission. -/
theorem explain_agrees_iff (now : ℕ) (perm : String) (env : ReadEnv)
    (hcold : store.get? (backend.key u t) = none) :
    (ReportsGranted u t perm env.outcome ↔
      (callerHasPermission backend true now store u t perm env).outcome = .ok true) ↔
    ∀ statusCode body, env.outcome = .response statusCode (.ok body) → 200 ≤ statusCode →
      statusCode < 300 → ¬Misleads perm body := by
  have hbody : ∀ body, fetchUserPermissions u t env.outcome = .ok body →
      ((ReportsGranted u t perm env.outcome ↔
        (callerHasPermission backend true now store u t perm env).outcome = .ok true) ↔
        ¬Misleads perm body) := by
    intro body hf
    rw [reportsGranted_iff, callerHasPermission_true_iff now perm env hcold]
    simp only [hf, Except.ok.injEq, exists_eq_left']
    exact readings_agree_iff
  cases hf : fetchUserPermissions u t env.outcome with
  | error err =>
    refine iff_of_true ?_ ?_
    · rw [reportsGranted_iff, callerHasPermission_true_iff now perm env hcold]
      simp [hf]
    · rintro statusCode body ho hge hlt
      rw [ho, fetch_of_success hge hlt] at hf
      cases hf
  | ok body =>
    rw [hbody body hf]
    rcases fetch_cases hf with ⟨statusCode, ho, hge, hlt⟩ | ⟨⟨json, ho⟩, rfl⟩
    · constructor
      · rintro hfair statusCode' body' ho' - -
        rw [ho] at ho'
        cases ho'
        exact hfair
      · exact fun h => h statusCode body ho hge hlt
    · refine iff_of_true notMemberBody_fair ?_
      rintro statusCode body ho' - hlt
      rw [ho] at ho'
      cases ho'
      omega

end paths

/-- A membership that is suspended, a status that the client does not know. -/
def suspendedBody : Json :=
  .obj [("status", .str "suspended"), ("role", .str "OWNER"),
    ("permissions", .arr [.str "helios:members:view"])]

/-- The audit says granted where access is denied. -/
theorem suspended_explained_as_granted :
    ¬(ReportsGranted "user-1" "tenant-1" "helios:members:view"
        (.response 200 (.ok suspendedBody)) ↔
      (callerHasPermission (redisBackend plainCodec 0) true 1 .empty "user-1" "tenant-1"
        "helios:members:view"
        ⟨.executes, .response 200 (.ok suspendedBody), .executes⟩).outcome = .ok true) := by
  rintro hagree
  have hdenied := hagree.mp ⟨⟨true, some "OWNER", .grantedByRole⟩, rfl, rfl⟩
  cases hdenied

/-- An active membership with its role and a list. -/
theorem explain_agrees_active :
    ReportsGranted "user-1" "tenant-1" "helios:members:view" grantingOutcome ↔
      (callerHasPermission (redisBackend plainCodec 0) true 1 .empty "user-1" "tenant-1"
        "helios:members:view" ⟨.executes, grantingOutcome, .executes⟩).outcome = .ok true := by
  refine (explain_agrees_iff 1 "helios:members:view" ⟨.executes, grantingOutcome, .executes⟩
    rfl).mpr ?_
  rintro statusCode body ho - -
  cases ho
  rintro (⟨status, hs, hknown, -, -⟩ | ⟨-, hrole, -⟩ | ⟨-, -, -, hcounted⟩)
  · exact hknown "active" (by simp) (Except.ok.inj hs).symm
  · exact hrole ⟨_, rfl⟩
  · exact hcounted ⟨_, _, rfl, rfl, rfl⟩

end HeliosPermissions.Explanations
