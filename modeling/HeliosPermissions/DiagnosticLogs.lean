import HeliosPermissions.RevocationEffects
import HeliosPermissions.Explanations

/-!
# Methods with their log records

The methods of the cache and of the client again, now with the records that they hand
to the logger: what was met, with the ids of the call, at the level that the method
chooses. Logging changes nothing of what they do.
-/

namespace HeliosPermissions.DiagnosticLogs

open JsonValues CacheStore HeliosResolution ClientWorld PermissionCaches RevocationEffects
open SequentialReads Explanations
open RedisPermissionCache (ScanRound invalidateAll)

/-- The methods of a `Logger`. -/
inductive Level where
  | debug
  | info
  | warn
  | error
  deriving DecidableEq, Repr

/-- A call of the logger: its method, `obj` and `msg`. -/
structure LogRecord where
  /-- The method. -/
  level : Level
  /-- The dictionary, in the order in which it is written. -/
  obj : List (String × Json)
  /-- The text that the method is called with. -/
  msg : String

variable {Raw : Type}

/-- `str` of what goes into the records of one call. -/
structure Texts (Raw : Type) where
  /-- `str(err)` of what its GET raises. -/
  getError : String
  /-- `str(err)` of what its SET raises. -/
  setError : String
  /-- `str(err)` of what a SCAN or a DEL of it raises. -/
  deleteError : String
  /-- `str(err)` of the `JSONDecodeError` on a stored value. -/
  decodeError : Raw → String
  /-- `str(raw)`. -/
  raw : Raw → String

/-- The ids of a pair. -/
def idFields (userId tenantId : String) : List (String × Json) :=
  [("user_id", .str userId), ("tenant_id", .str tenantId)]

/-- A count in a record. -/
def countField (deleted : ℕ) : String × Json := ("deleted", .number ⟨false, deleted, [], none⟩)

/-- `write_through` failed. -/
def writeThroughFailed : String :=
  "RedisPermissionCache.write_through failed, continuing without cache"

/-- `invalidate` failed. -/
def invalidateFailed : String :=
  "RedisPermissionCache.invalidate failed — cache will stay " ++
    "stale until the next write_through for this user"

/-- `invalidate_tenant` failed. -/
def invalidateTenantFailed : String :=
  "invalidate_tenant failed — affected entries will be " ++
    "re-written on the next role change for each user"

/-- `PermissionClient: Helios unreachable`. -/
def denying : String := "PermissionClient: Helios unreachable, denying (fail-closed)"

section methods

variable (texts : Texts Raw) (backend : Backend Raw)

/-- `RedisPermissionCache.get` with its records. -/
def get (store : Store Raw) (userId tenantId : String) (fate : CommandFate) :
    Except PyError (Option (List Json)) × List LogRecord :=
  match (send 0 .initial store (.get (backend.key userId tenantId)) fate).1 with
  | .value none => (.ok none, [])
  | .value (some raw) =>
    match backend.loads raw with
    | .ok (.arr perms) => (.ok (some perms), [])
    | .ok _ => (.ok none, [⟨.warn, idFields userId tenantId ++ [("raw", .str (texts.raw raw))],
        "RedisPermissionCache.get: cached value is not an array, treating as miss"⟩])
    | .error .jsonDecodeError =>
      (.ok none, [⟨.warn, ("err", .str (texts.decodeError raw)) :: idFields userId tenantId ++
        [("raw", .str (texts.raw raw))],
        "RedisPermissionCache.get: cached value is not valid JSON, treating as miss"⟩])
    | .error err => (.error err, [])
  | _ => (.ok none, [⟨.warn, ("err", .str texts.getError) :: idFields userId tenantId,
      "RedisPermissionCache.get failed, returning null (caller falls through to Helios)"⟩])

/-- A SET whose failure is logged and swallowed. -/
def setOrWarn (now : ℕ) (origin : Origin) (nx : Bool) (message : String) (store : Store Raw)
    (userId tenantId : String) (perms : List Json) (fate : CommandFate) :
    Store Raw × List LogRecord :=
  match send now origin store
    (.set (backend.key userId tenantId) (backend.dumps perms) backend.ex nx) fate with
  | (.failed, store') =>
    (store', [⟨.warn, ("err", .str texts.setError) :: idFields userId tenantId, message⟩])
  | (_, store') => (store', [])

/-- `RedisPermissionCache.set` with its records. -/
def set (now : ℕ) : Store Raw → String → String → List Json → CommandFate →
    Store Raw × List LogRecord :=
  setOrWarn texts backend now (.populate now) true
    "RedisPermissionCache.set failed, continuing without cache"

/-- `RedisPermissionCache.write_through` with its records. -/
def writeThrough (now : ℕ) : Store Raw → String → String → List Json → CommandFate →
    Store Raw × List LogRecord :=
  setOrWarn texts backend now (.writeThrough now) false writeThroughFailed

/-- `RedisPermissionCache.invalidate` with its records. -/
def invalidate (store : Store Raw) (userId tenantId : String) (fate : CommandFate) :
    (Except PyError ℕ × Store Raw) × List LogRecord :=
  let ended := RedisPermissionCache.invalidate backend store userId tenantId fate
  (ended, match ended.1 with
    | .ok deleted => [⟨.info, idFields userId tenantId ++ [countField deleted],
        "RedisPermissionCache.invalidate: deleted (user_id, tenant_id) entry"⟩]
    | .error _ => [⟨.error, ("err", .str texts.deleteError) :: idFields userId tenantId,
        invalidateFailed⟩])

/-- What `invalidate` without a tenant logs. -/
def invalidateUserRecords (userId : String) : Except PyError ℕ → List LogRecord
  | .ok deleted => [⟨.info, [("user_id", .str userId), countField deleted],
      "RedisPermissionCache.invalidate: dropped all entries for user"⟩]
  | .error _ => [⟨.error, [("err", .str texts.deleteError), ("user_id", .str userId),
      ("tenant_id", .null)], invalidateFailed⟩]

/-- What `invalidate_tenant` logs. -/
def invalidateTenantRecords (tenantId : String) : Except PyError ℕ → List LogRecord
  | .ok deleted => [⟨.info, [("tenant_id", .str tenantId), countField deleted],
      "RedisPermissionCache.invalidate_tenant: deleted all entries for tenant"⟩]
  | .error _ => [⟨.error, [("err", .str texts.deleteError), ("tenant_id", .str tenantId)],
      invalidateTenantFailed⟩]

/-- A call on the cache, with its records. -/
def perform (s : Server Raw) : CacheCall → Option ((CallResult × Store Raw) × List LogRecord)
  | .get u t fate =>
    let read := get texts backend s.store u t fate
    some ((.got read.1, s.store), read.2)
  | .set u t perms fate =>
    let written := set texts backend s.clock s.store u t perms fate
    some ((.returned, written.1), written.2)
  | .writeThrough u t perms fate =>
    let written := writeThrough texts backend s.clock s.store u t perms fate
    some ((.returned, written.1), written.2)
  | .invalidate u t fate =>
    let ended := invalidate texts backend s.store u t fate
    some ((.ofCount ended.1.1, ended.1.2), ended.2)
  | .invalidateUser u rounds =>
    (invalidateAll backend s.clock s.store (.user u) rounds).map fun ended =>
      ((.ofCount ended.1, ended.2), invalidateUserRecords texts u ended.1)
  | .invalidateTenant t rounds =>
    (invalidateAll backend s.clock s.store (.tenant t) rounds).map fun ended =>
      ((.ofCount ended.1, ended.2), invalidateTenantRecords texts t ended.1)

/-- `_fetch_and_populate` after a miss, with its records. -/
def fetchAndPopulate (staleOnError : Bool) (now : ℕ) (store : Store Raw)
    (userId tenantId : String) (env : ReadEnv) : ReadEnd Raw (List Json) × List LogRecord :=
  match fetchEnd userId tenantId env.outcome with
  | .unreachable message =>
    if staleOnError then
      (⟨.ok [], store, true⟩,
        [⟨.error, ("err", .str message) :: idFields userId tenantId, denying⟩])
    else (⟨.error (.heliosUnreachable message), store, true⟩, [])
  | .escaped err => (⟨.error err, store, true⟩, [])
  | .resolved perms =>
    let written := set texts backend now store userId tenantId perms env.setFate
    (⟨.ok perms, written.1, true⟩, written.2)

/-- `_resolve_perms` with nothing in flight, with its records. -/
def resolveAlone (staleOnError : Bool) (now : ℕ) (store : Store Raw) (userId tenantId : String)
    (env : ReadEnv) : ReadEnd Raw (List Json) × List LogRecord :=
  let cached := get texts backend store userId tenantId env.getFate
  match cached.1 with
  | .error err => (⟨.error err, store, false⟩, cached.2)
  | .ok (some perms) => (⟨.ok perms, store, false⟩, cached.2)
  | .ok none =>
    let fetched := fetchAndPopulate texts backend staleOnError now store userId tenantId env
    (fetched.1, cached.2 ++ fetched.2)

/-- `PermissionClient.explain` with its records. -/
def explain (userId tenantId perm : String) (outcome : HttpOutcome) :
    Except PyError PermissionExplanation × List LogRecord :=
  match fetchUserPermissions userId tenantId outcome with
  | .error (.heliosUnreachable message) => (.ok ⟨false, none, .heliosUnreachableFailClosed⟩,
      [⟨.error, ("err", .str message) :: idFields userId tenantId ++ [("perm", .str perm)],
        "PermissionClient.explain: Helios unreachable"⟩])
  | .error err => (.error err, [])
  | .ok resolution => (explainResolution perm resolution, [])

end methods

section faithful

variable {texts : Texts Raw} {backend : Backend Raw} {store : Store Raw} {u t : String}
  {fate : CommandFate} {now : ℕ} {staleOnError : Bool} {env : ReadEnv}

/-- A GET is answered with a value, or the client raises. -/
theorem send_get_cases (store : Store Raw) (k : String) (fate : CommandFate) :
    (send 0 .initial store (.get k) fate).1 = .value ((store.get? k).map Entry.raw) ∨
      (send 0 .initial store (.get k) fate).1 = .failed := by
  cases fate with
  | executes => exact Or.inl rfl
  | fails applied => exact Or.inr rfl

/-- Logging leaves what `get` returns as it is. -/
@[simp] theorem get_fst : (get texts backend store u t fate).1 =
    RedisPermissionCache.get backend store u t fate := by
  unfold get RedisPermissionCache.get
  rcases send_get_cases store (backend.key u t) fate with hvalue | hfailed
  · rw [hvalue]
    cases (store.get? (backend.key u t)).map Entry.raw with
    | none => rfl
    | some raw =>
      unfold decodeGet
      dsimp only
      cases backend.loads raw with
      | ok value => cases value <;> rfl
      | error err => cases err <;> rfl
  · rw [hfailed]
    rfl

/-- Logging leaves what is stored as it is. -/
theorem setOrWarn_fst (origin : Origin) (nx : Bool) (message : String) (perms : List Json) :
    (setOrWarn texts backend now origin nx message store u t perms fate).1 =
      (send now origin store (.set (backend.key u t) (backend.dumps perms) backend.ex nx)
        fate).2 := by
  unfold setOrWarn
  split
  · next store' heq => rw [heq]
  · next reply store' heq => rw [heq]

@[simp] theorem set_fst (perms : List Json) : (set texts backend now store u t perms fate).1 =
    RedisPermissionCache.set backend now store u t perms fate :=
  setOrWarn_fst _ _ _ _

@[simp] theorem writeThrough_fst (perms : List Json) :
    (writeThrough texts backend now store u t perms fate).1 =
      RedisPermissionCache.writeThrough backend now store u t perms fate :=
  setOrWarn_fst _ _ _ _

/-- Logging changes nothing of a call. -/
theorem perform_map_fst (texts : Texts Raw) (s : Server Raw) (call : CacheCall) :
    (perform texts backend s call).map Prod.fst = RevocationEffects.perform backend s call := by
  cases call with
  | get u t fate => simp [perform, RevocationEffects.perform]
  | set u t perms fate => simp [perform, RevocationEffects.perform]
  | writeThrough u t perms fate => simp [perform, RevocationEffects.perform]
  | invalidate u t fate => rfl
  | invalidateUser u rounds => simp [perform, RevocationEffects.perform, Function.comp_def]
  | invalidateTenant t rounds => simp [perform, RevocationEffects.perform, Function.comp_def]

/-- Logging leaves what is fetched and stored as it is. -/
@[simp] theorem fetchAndPopulate_fst :
    (fetchAndPopulate texts backend staleOnError now store u t env).1 =
      SequentialReads.fetchAndPopulate backend staleOnError now store u t env := by
  unfold fetchAndPopulate SequentialReads.fetchAndPopulate
  cases fetchEnd u t env.outcome with
  | unreachable message => cases staleOnError <;> rfl
  | escaped err => rfl
  | resolved perms => simp

/-- Nor of a read. -/
@[simp] theorem resolveAlone_fst : (resolveAlone texts backend staleOnError now store u t env).1 =
    SequentialReads.resolveAlone backend staleOnError now store u t env := by
  unfold resolveAlone SequentialReads.resolveAlone
  dsimp only
  rw [get_fst]
  cases RedisPermissionCache.get backend store u t env.getFate with
  | error err => rfl
  | ok cached =>
    cases cached with
    | some perms => rfl
    | none => exact fetchAndPopulate_fst

/-- Nor of a diagnosis. -/
theorem explain_fst (perm : String) (outcome : HttpOutcome) :
    (explain u t perm outcome).1 = Explanations.explain u t perm outcome := by
  unfold explain Explanations.explain
  cases fetchUserPermissions u t outcome with
  | error err => cases err <;> rfl
  | ok resolution => rfl

end faithful

end HeliosPermissions.DiagnosticLogs
