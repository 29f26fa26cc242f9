import HeliosPermissions.CorruptedEntries

/-!
# Replies of Helios that are no resolution

A body with a 2xx status is handed on unchecked. When it is no JSON, or no
object with the fields of its tag, an exception other than
`HeliosUnreachableError` goes through the client, past the branch that denies.
-/

namespace HeliosPermissions.MalformedReplies

open JsonValues CacheKeys CacheStore HeliosResolution ClientWorld PermissionCaches
open SequentialReads CorruptedEntries

/-- `HeliosMembershipResolution`, the documented union. -/
inductive Resolution where
  /-- `HeliosActiveResolution`. -/
  | active (role : String) (permissions : List String)
  /-- `HeliosInactiveResolution`. -/
  | inactive (role : String)
  /-- `HeliosNotMemberResolution`. -/
  | notMember

/-- A body with the tag and the fields of a resolution. -/
def Resolution.Describes (body : Json) : Resolution → Prop
  | .active role permissions =>
    body.getItem "status" = .ok (.str "active") ∧ body.getItem "role" = .ok (.str role) ∧
      body.getItem "permissions" = .ok (.arr (permissions.map .str))
  | .inactive role =>
    body.getItem "status" = .ok (.str "inactive") ∧ body.getItem "role" = .ok (.str role)
  | .notMember => body.getItem "status" = .ok (.str "not_a_member")

/-- A body of one of the three documented shapes. -/
def Shaped (body : Json) : Prop := ∃ resolution : Resolution, resolution.Describes body

/-- `fetch_user_permissions` returns a documented shape or raises
`HeliosUnreachableError`. -/
def FetchIsChecked (u t : String) (outcome : HttpOutcome) : Prop :=
  (∃ body, fetchUserPermissions u t outcome = .ok body ∧ Shaped body) ∨
    ∃ message, fetchUserPermissions u t outcome = .error (.heliosUnreachable message)

/-- On a cold key `caller_has_permission` returns a bool, with any cache, whatever
happens to its commands. -/
def CallerReturns (u t : String) (outcome : HttpOutcome) : Prop :=
  ∀ (Raw : Type) (backend : Backend Raw) (now : ℕ) (store : Store Raw) (p : String)
    (getFate setFate : CommandFate), store.get? (backend.key u t) = none →
    ∃ granted, (callerHasPermission backend true now store u t p
      ⟨getFate, outcome, setFate⟩).outcome = .ok granted

/-- A reply that is checked before it is used: the call raised, or the status code
says all, or the body is of a documented shape. -/
def Checked : HttpOutcome → Prop
  | .raised => True
  | .response statusCode json =>
    200 ≤ statusCode → statusCode < 300 →
      match json with
      | .ok body => Shaped body
      | .error err => ∃ message, err = .heliosUnreachable message

section shapes

variable {u t : String} {outcome : HttpOutcome}

theorem shaped_notMember : Shaped (.obj [("status", .str "not_a_member")]) :=
  ⟨.notMember, rfl⟩

/-- Every documented shape translates. -/
theorem Shaped.translates {body : Json} (h : Shaped body) :
    ∃ perms, resolutionToPerms body = .ok perms := by
  obtain ⟨resolution, h⟩ := h
  cases resolution with
  | active role permissions =>
    obtain ⟨hs, -, hp⟩ := h
    exact ⟨permissions.map .str, by simp [resolutionToPerms, hs, hp, Json.isStr, Json.toList]⟩
  | inactive role => exact ⟨[], by simp [resolutionToPerms, h.1, Json.isStr]⟩
  | notMember =>
    have hs : body.getItem "status" = .ok (.str "not_a_member") := h
    exact ⟨[], by simp [resolutionToPerms, hs, Json.isStr]⟩

/-- A fetch is checked when what the transport gave is. -/
theorem fetchIsChecked_iff : FetchIsChecked u t outcome ↔ Checked outcome := by
  unfold FetchIsChecked Checked
  cases outcome with
  | raised => exact iff_of_true (Or.inr ⟨_, rfl⟩) trivial
  | response statusCode json =>
    simp only [fetchUserPermissions]
    split_ifs with h404 hbad
    · exact iff_of_true (Or.inl ⟨_, rfl, shaped_notMember⟩) fun _ hlt => by omega
    · exact iff_of_true (Or.inr ⟨_, rfl⟩) fun hge hlt => by omega
    · have hgood : 200 ≤ statusCode ∧ statusCode < 300 := by omega
      cases json with
      | ok body => simp [hgood.1, hgood.2]
      | error err => simp [hgood.1, hgood.2]

/-- The call comes to a bool exactly when no exception escapes from the fetch and
the translation. -/
theorem callerReturns_iff :
    CallerReturns u t outcome ↔ ∀ err, fetchEnd u t outcome ≠ .escaped err := by
  constructor
  · intro h err he
    obtain ⟨granted, hg⟩ := h (List Json) (redisBackend plainCodec 0) 0 .empty "" .executes
      .executes rfl
    have hmiss : RedisPermissionCache.get (redisBackend plainCodec 0) .empty u t .executes =
        .ok none := get_absent rfl _
    simp only [callerHasPermission, resolveAlone, hmiss, fetchAndPopulate, he] at hg
    cases hg
  · intro h Raw backend now store p getFate setFate hcold
    simp only [callerHasPermission, resolveAlone, get_absent hcold, fetchAndPopulate]
    cases he : fetchEnd u t outcome with
    | unreachable message => exact ⟨_, rfl⟩
    | escaped err => exact absurd he (h err)
    | resolved perms => exact ⟨_, rfl⟩

/-- What is checked does not escape. -/
theorem FetchIsChecked.callerReturns (h : FetchIsChecked u t outcome) :
    CallerReturns u t outcome := by
  rw [callerReturns_iff]
  rintro err he
  rcases h with ⟨body, hf, hshaped⟩ | ⟨message, hf⟩
  · obtain ⟨perms, hp⟩ := hshaped.translates
    rw [fetchEnd_resolved_iff.mpr ⟨body, hf, hp⟩] at he
    cases he
  · rw [fetchEnd_unreachable_iff.mpr hf] at he
    cases he

/-- The fetch is checked, and the caller on a cold key gets a bool, exactly when a
2xx reply has a JSON body of a documented shape. -/
theorem replies_fail_closed_iff :
    (FetchIsChecked u t outcome ∧ CallerReturns u t outcome) ↔ Checked outcome :=
  ⟨fun h => fetchIsChecked_iff.mp h.1, fun h =>
    ⟨fetchIsChecked_iff.mpr h, (fetchIsChecked_iff.mpr h).callerReturns⟩⟩

end shapes

/-- A proxy answers 200 with a page of its own. -/
def proxyPage : HttpOutcome := .response 200 (.error .jsonDecodeError)

/-- The page neither counts as unreachable nor gives the caller a bool. -/
theorem proxyPage_escapes :
    ¬(FetchIsChecked "user-1" "tenant-1" proxyPage ∧
      CallerReturns "user-1" "tenant-1" proxyPage) := by
  rintro ⟨-, hcaller⟩
  exact callerReturns_iff.mp hcaller .jsonDecodeError rfl

end HeliosPermissions.MalformedReplies
