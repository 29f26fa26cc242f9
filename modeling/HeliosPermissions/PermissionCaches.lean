import HeliosPermissions.ClientWorld

/-!
# The cache protocol and its Redis implementation, one call at a time

`PermissionCache` is the protocol that the client is written against. The
methods of `RedisPermissionCache` run here from their first command to their
return, with the fate of every command given: `get`, `set` and `write_through`
swallow a failure, the invalidations raise it. A bulk invalidation goes through
pages of SCAN until the cursor is zero.
-/

namespace HeliosPermissions.PermissionCaches

open JsonValues CacheKeys CacheStore ClientWorld

/-- The `PermissionCache` protocol, as far as single pairs go. -/
structure PermissionCache where
  /-- What the cache holds. -/
  State : Type
  /-- What a call meets: the time, and the fate of its command. -/
  Env : Type
  /-- `get`. -/
  get : Env → State → String → String → Except PyError (Option (List Json)) × State
  /-- `set`. -/
  set : Env → State → String → String → List Json → State
  /-- `write_through`. -/
  writeThrough : Env → State → String → String → List Json → State
  /-- `invalidate` with a tenant. -/
  invalidate : Env → State → String → String → Except PyError ℕ × State

/-- How one command turns out: it is executed and answered, or the client raises
and it may have been executed all the same. -/
inductive CommandFate where
  | executes
  | fails (applied : Bool)
  deriving DecidableEq

/-- The same as a fate of the server. -/
def CommandFate.toFate : CommandFate → Fate
  | .executes => .executes
  | .fails applied => .fails applied

variable {Raw : Type}

/-- Send a command and await its reply. -/
def send (now : ℕ) (origin : Origin) (store : Store Raw) (cmd : Command Raw) :
    CommandFate → Reply Raw × Store Raw
  | .executes => execute now origin store cmd
  | .fails applied => (.failed, if applied then (execute now origin store cmd).2 else store)

/-- The server deals with every command but SCAN in this way. -/
theorem serve_eq_send (backend : Backend Raw) (now : ℕ) (origin : Origin)
    (progress : ScanProgress) (store : Store Raw) (cmd : Command Raw) (fate : CommandFate)
    (h : ∀ cursor scope, cmd ≠ .scan cursor scope) :
    serve backend now origin progress store cmd fate.toFate =
      some (send now origin store cmd fate) := by
  cases cmd with
  | scan cursor scope => exact absurd rfl (h cursor scope)
  | get k => cases fate <;> rfl
  | set k raw ex nx => cases fate <;> rfl
  | delete ks => cases fate <;> rfl

/-- A command leaves the store alone or is executed on it. -/
theorem send_store (now : ℕ) (origin : Origin) (store : Store Raw) (cmd : Command Raw)
    (fate : CommandFate) : (send now origin store cmd fate).2 = store ∨
      (send now origin store cmd fate).2 = (execute now origin store cmd).2 := by
  cases fate with
  | executes => exact Or.inr rfl
  | fails applied =>
    cases applied with
    | false => exact Or.inl rfl
    | true => exact Or.inr rfl

/-- What may stand under a key after a command: what was there, the value of a SET
of this key, or nothing, after a DEL of it. -/
theorem send_get? (now : ℕ) (origin : Origin) (store : Store Raw) (cmd : Command Raw)
    (fate : CommandFate) (k : String) :
    (send now origin store cmd fate).2.get? k = store.get? k ∨
      (∃ raw ex nx, cmd = .set k raw ex nx ∧ (send now origin store cmd fate).2.get? k =
        some ⟨raw, origin, ((store.get? k).map Entry.since).getD now, now, ex⟩) ∨
      (∃ ks, cmd = .delete ks ∧ k ∈ ks ∧ (send now origin store cmd fate).2.get? k = none) := by
  rcases send_store now origin store cmd fate with hs | hs
  · exact Or.inl (by rw [hs])
  · rw [hs]
    rcases execute_get? now origin store cmd k with hkeep | ⟨raw, ex, nx, hcmd, -, hnew⟩ | hdel
    · exact Or.inl hkeep
    · exact Or.inr (Or.inl ⟨raw, ex, nx, hcmd, hnew⟩)
    · exact Or.inr (Or.inr hdel)

/-- A command that names one key leaves the entries of the others. -/
theorem send_frame (now : ℕ) (origin : Origin) (store : Store Raw) (cmd : Command Raw)
    (fate : CommandFate) {k k' : String} (hk : k ≠ k')
    (hcmd : (∃ raw ex nx, cmd = .set k' raw ex nx) ∨ cmd = .delete [k']) :
    (send now origin store cmd fate).2.get? k = store.get? k := by
  rcases send_get? now origin store cmd fate k with
    hkeep | ⟨raw, ex, nx, hset, -⟩ | ⟨ks, hdel, hmem, -⟩
  · exact hkeep
  · rcases hcmd with ⟨raw', ex', nx', hset'⟩ | hdel'
    · rw [hset] at hset'
      cases hset'
      exact absurd rfl hk
    · rw [hset] at hdel'
      cases hdel'
  · rcases hcmd with ⟨raw', ex', nx', hset'⟩ | hdel'
    · rw [hdel] at hset'
      cases hset'
    · rw [hdel] at hdel'
      cases hdel'
      exact absurd (List.mem_singleton.mp hmem) hk

namespace RedisPermissionCache

variable (backend : Backend Raw)

/-- `RedisPermissionCache.get`. -/
def get (store : Store Raw) (userId tenantId : String) (fate : CommandFate) :
    Except PyError (Option (List Json)) :=
  decodeGet backend (send 0 .initial store (.get (backend.key userId tenantId)) fate).1

/-- `RedisPermissionCache.set`. -/
def set (now : ℕ) (store : Store Raw) (userId tenantId : String) (perms : List Json)
    (fate : CommandFate) : Store Raw :=
  (send now (.populate now) store
    (.set (backend.key userId tenantId) (backend.dumps perms) backend.ex true) fate).2

/-- `RedisPermissionCache.write_through`. -/
def writeThrough (now : ℕ) (store : Store Raw) (userId tenantId : String) (perms : List Json)
    (fate : CommandFate) : Store Raw :=
  (send now (.writeThrough now) store
    (.set (backend.key userId tenantId) (backend.dumps perms) backend.ex false) fate).2

/-- `RedisPermissionCache.invalidate` with a tenant. -/
def invalidate (store : Store Raw) (userId tenantId : String) (fate : CommandFate) :
    Except PyError ℕ × Store Raw :=
  match send 0 .initial store (.delete [backend.key userId tenantId]) fate with
  | (.deleted count, store') => (.ok count, store')
  | (_, store') => (.error .redisError, store')

/-- One round of the loop of `_scan_and_delete`: the page that SCAN returns, unless
it fails, and the fate of the DEL of its keys. -/
structure ScanRound where
  /-- The next cursor and the keys, `none` when SCAN fails. -/
  page : Option (ℕ × List String)
  /-- How the DEL of the keys ends. -/
  delete : CommandFate

/-- `RedisPermissionCache._scan_and_delete`, through the given rounds. There is no
result when the rounds end before the cursor is zero, or when the server would
not return such a page. -/
def scanAndDelete (now : ℕ) (scope : Scope) :
    List ScanRound → ScanProgress → ℕ → Store Raw → Option (Except PyError ℕ × Store Raw)
  | [], _, _, _ => none
  | round :: rest, progress, totalDeleted, store =>
    match round.page with
    | none => some (.error .redisError, store)
    | some (cursor, keys) =>
      if PageAllowed backend now progress store scope cursor keys then
        let progress' : ScanProgress := ⟨some (progress.started.getD now), progress.seen ++ keys⟩
        if keys = [] then
          if cursor = 0 then some (.ok totalDeleted, store)
          else scanAndDelete now scope rest progress' totalDeleted store
        else
          match send now .initial store (.delete keys) round.delete with
          | (.deleted count, store') =>
            if cursor = 0 then some (.ok (totalDeleted + count), store')
            else scanAndDelete now scope rest progress' (totalDeleted + count) store'
          | (_, store') => some (.error .redisError, store')
      else none

/-- `RedisPermissionCache.invalidate` without a tenant, or `invalidate_tenant`. -/
def invalidateAll (now : ℕ) (store : Store Raw) (scope : Scope) (rounds : List ScanRound) :
    Option (Except PyError ℕ × Store Raw) :=
  scanAndDelete backend now scope rounds ⟨none, []⟩ 0 store

/-- A DEL is answered with a count only when it was executed. -/
theorem send_delete (now : ℕ) (store : Store Raw) (ks : List String) (fate : CommandFate) :
    (∃ count, send now .initial store (.delete ks) fate = (.deleted count, store.popAll ks)) ∨
      ∃ store', send now .initial store (.delete ks) fate = (.failed, store') := by
  cases fate with
  | executes => exact Or.inl ⟨_, rfl⟩
  | fails applied => exact Or.inr ⟨_, rfl⟩

/-- A DEL only takes entries away. -/
theorem send_delete_get? (now : ℕ) (store : Store Raw) (ks : List String) (fate : CommandFate)
    (k : String) : (send now .initial store (.delete ks) fate).2.get? k = store.get? k ∨
      (send now .initial store (.delete ks) fate).2.get? k = none := by
  rcases send_get? now .initial store (.delete ks) fate k with
    hkeep | ⟨raw, ex, nx, hcmd, -⟩ | ⟨ks', -, -, hnone⟩
  · exact Or.inl hkeep
  · cases hcmd
  · exact Or.inr hnone

/-- What one round of a bulk invalidation does: it raises, having deleted some of its
page or nothing; or it deletes its page, and ends at cursor zero or goes on. -/
theorem scanAndDelete_cons {now : ℕ} {scope : Scope} {round : ScanRound}
    {rest : List ScanRound} {progress : ScanProgress} {total : ℕ} {store store' : Store Raw}
    {result : Except PyError ℕ}
    (h : scanAndDelete backend now scope (round :: rest) progress total store =
      some (result, store')) :
    (result = .error .redisError ∧
      ∀ k, store'.get? k = store.get? k ∨ store'.get? k = none) ∨
    ∃ cursor keys total' store₁, PageAllowed backend now progress store scope cursor keys ∧
      (∀ k, store₁.get? k = if k ∈ keys then none else store.get? k) ∧
      ((cursor = 0 ∧ result = .ok total' ∧ store' = store₁) ∨
        cursor ≠ 0 ∧ scanAndDelete backend now scope rest
          ⟨some (progress.started.getD now), progress.seen ++ keys⟩ total' store₁ =
            some (result, store')) := by
  rw [scanAndDelete] at h
  cases hpage : round.page with
  | none =>
    rw [hpage] at h
    cases h
    exact Or.inl ⟨rfl, fun _ => Or.inl rfl⟩
  | some page =>
    obtain ⟨cursor, keys⟩ := page
    rw [hpage] at h
    dsimp only at h
    by_cases hallowed : PageAllowed backend now progress store scope cursor keys
    · rw [if_pos hallowed] at h
      by_cases hkeys : keys = []
      · rw [if_pos hkeys] at h
        refine Or.inr ⟨cursor, keys, total, store, hallowed, by simp [hkeys], ?_⟩
        split_ifs at h with hcursor
        · cases h
          exact Or.inl ⟨hcursor, rfl, rfl⟩
        · exact Or.inr ⟨hcursor, h⟩
      · rw [if_neg hkeys] at h
        rcases send_delete now store keys round.delete with ⟨count, hs⟩ | ⟨failed, hs⟩
        · rw [hs] at h
          dsimp only at h
          refine Or.inr ⟨cursor, keys, total + count, store.popAll keys, hallowed, by simp, ?_⟩
          split_ifs at h with hcursor
          · cases h
            exact Or.inl ⟨hcursor, rfl, rfl⟩
          · exact Or.inr ⟨hcursor, h⟩
        · have hkeep := send_delete_get? now store keys round.delete
          rw [hs] at h hkeep
          cases h
          exact Or.inl ⟨rfl, hkeep⟩
    · rw [if_neg hallowed] at h
      cases h

/-- What `invalidate` leaves is what its DEL leaves. -/
theorem invalidate_store (store : Store Raw) (u t : String) (fate : CommandFate) :
    (invalidate backend store u t fate).2 =
      (send 0 .initial store (.delete [backend.key u t]) fate).2 := by
  unfold invalidate
  rcases send_delete 0 store [backend.key u t] fate with ⟨n, hs⟩ | ⟨st, hs⟩
  · rw [hs]
  · rw [hs]

/-- An invalidation that returns normally has dropped its key. -/
theorem invalidate_ok {store : Store Raw} {u t : String} {fate : CommandFate} {count : ℕ}
    (h : (invalidate backend store u t fate).1 = .ok count) :
    (invalidate backend store u t fate).2 = store.popAll [backend.key u t] := by
  unfold invalidate at h ⊢
  rcases send_delete 0 store [backend.key u t] fate with ⟨n, hs⟩ | ⟨st, hs⟩
  · rw [hs]
  · rw [hs] at h
    cases h

section frames

variable {backend} {store : Store Raw} {u t u₂ t₂ : String}

/-- `get` looks at one key. -/
theorem get_congr {store' : Store Raw}
    (h : store'.get? (backend.key u t) = store.get? (backend.key u t)) (fate : CommandFate) :
    get backend store' u t fate = get backend store u t fate := by
  unfold get
  cases fate with
  | executes => simp only [send, execute, h]
  | fails applied => rfl

/-- A `set` leaves the other keys as they are. -/
theorem set_frame (hk : backend.key u t ≠ backend.key u₂ t₂) (now : ℕ) (perms : List Json)
    (fate : CommandFate) :
    (set backend now store u₂ t₂ perms fate).get? (backend.key u t) =
      store.get? (backend.key u t) :=
  send_frame now (.populate now) store _ fate hk (Or.inl ⟨_, _, _, rfl⟩)

/-- A `write_through` leaves the other keys as they are. -/
theorem writeThrough_frame (hk : backend.key u t ≠ backend.key u₂ t₂) (now : ℕ)
    (perms : List Json) (fate : CommandFate) :
    (writeThrough backend now store u₂ t₂ perms fate).get? (backend.key u t) =
      store.get? (backend.key u t) :=
  send_frame now (.writeThrough now) store _ fate hk (Or.inl ⟨_, _, _, rfl⟩)

/-- An `invalidate` with both ids leaves the other keys as they are. -/
theorem invalidate_frame (hk : backend.key u t ≠ backend.key u₂ t₂) (fate : CommandFate) :
    (invalidate backend store u₂ t₂ fate).2.get? (backend.key u t) =
      store.get? (backend.key u t) := by
  rw [invalidate_store]
  exact send_frame 0 .initial store _ fate hk (Or.inr rfl)

end frames

end RedisPermissionCache

/-- What a single-pair call on Redis meets. -/
structure RedisEnv where
  /-- The clock of the server. -/
  now : ℕ
  /-- How the command ends. -/
  fate : CommandFate

/-- `RedisPermissionCache` as a `PermissionCache`. -/
def redisCache (backend : Backend Raw) : PermissionCache where
  State := Store Raw
  Env := RedisEnv
  get env store u t := (RedisPermissionCache.get backend store u t env.fate, store)
  set env store u t perms := RedisPermissionCache.set backend env.now store u t perms env.fate
  writeThrough env store u t perms :=
    RedisPermissionCache.writeThrough backend env.now store u t perms env.fate
  invalidate env store u t := RedisPermissionCache.invalidate backend store u t env.fate

end HeliosPermissions.PermissionCaches
