import HeliosPermissions.JsonValues

/-!
# Helios responses and their translation

The part of `HeliosClient.fetch_user_permissions` after the request is sent,
and the translation of the membership resolution into a permission list. A 2xx
body is passed through unchecked, so the translation can itself raise.
-/

namespace HeliosPermissions.HeliosResolution

open JsonValues

/-- The outcome of the HTTP call that the client awaits. -/
inductive HttpOutcome where
  /-- The fetch implementation raised. -/
  | raised
  /-- A response with its status code and what `response.json()` does. -/
  | response (statusCode : ℤ) (json : Except PyError Json)

/-- `HeliosClient.fetch_user_permissions` once the HTTP call has ended. -/
def fetchUserPermissions (userId tenantId : String) : HttpOutcome → Except PyError Json
  | .raised =>
    .error (.heliosUnreachable
      s!"HeliosClient.fetch_user_permissions: network error for ({userId}, {tenantId})")
  | .response statusCode json =>
    if statusCode = 404 then .ok (.obj [("status", .str "not_a_member")])
    else if statusCode < 200 ∨ 300 ≤ statusCode then
      .error (.heliosUnreachable
        s!"HeliosClient.fetch_user_permissions: HTTP {statusCode} for ({userId}, {tenantId})")
    else json

/-- `PermissionClient._resolution_to_perms`. -/
def resolutionToPerms (resolution : Json) : Except PyError (List Json) :=
  match resolution.getItem "status" with
  | .error e => .error e
  | .ok status =>
    if status.isStr "active" then
      match resolution.getItem "permissions" with
      | .error e => .error e
      | .ok permissions => permissions.toList
    else .ok []

/-- What the Helios part of a cold read comes to, before the cache is written. -/
inductive FetchEnd where
  /-- A resolution that translates to this list. -/
  | resolved (perms : List Json)
  /-- `HeliosUnreachableError`. -/
  | unreachable (message : String)
  /-- Any other exception, from the body or from the translation. -/
  | escaped (err : PyError)

/-- Fetch and translate: which way the body of `_fetch_and_populate` goes. -/
def fetchEnd (userId tenantId : String) (outcome : HttpOutcome) : FetchEnd :=
  match fetchUserPermissions userId tenantId outcome with
  | .error (.heliosUnreachable message) => .unreachable message
  | .error e => .escaped e
  | .ok resolution =>
    match resolutionToPerms resolution with
    | .ok perms => .resolved perms
    | .error e => .escaped e

/-- A fetch resolves exactly when a resolution came back and translates. -/
theorem fetchEnd_resolved_iff {u t : String} {outcome : HttpOutcome} {perms : List Json} :
    fetchEnd u t outcome = .resolved perms ↔
      ∃ resolution, fetchUserPermissions u t outcome = .ok resolution ∧
        resolutionToPerms resolution = .ok perms := by
  unfold fetchEnd
  cases hf : fetchUserPermissions u t outcome with
  | error e => cases e <;> simp
  | ok resolution =>
    cases hr : resolutionToPerms resolution with
    | error e => simp [hr]
    | ok perms' => simp [hr]

/-- A fetch counts as unreachable exactly when `HeliosUnreachableError` came out
of it. -/
theorem fetchEnd_unreachable_iff {u t : String} {outcome : HttpOutcome} {message : String} :
    fetchEnd u t outcome = .unreachable message ↔
      fetchUserPermissions u t outcome = .error (.heliosUnreachable message) := by
  unfold fetchEnd
  cases hf : fetchUserPermissions u t outcome with
  | error e => cases e <;> simp
  | ok resolution =>
    cases hr : resolutionToPerms resolution with
    | error e => simp [hr]
    | ok perms' => simp [hr]

end HeliosPermissions.HeliosResolution
