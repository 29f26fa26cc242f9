import HeliosPermissions.OrderedDict
import HeliosPermissions.JsonValues
import HeliosPermissions.CacheKeys

/-!
# The keyed store behind the permission caches

Commands of the Redis client that the SDK sends, their replies, and how the
server executes each of them. SCAN pages are chosen by the server: a page may
hold any matching keys, in any order and repeated, but the cursor returns to
zero only when every matching key that was there since the iteration started
has been on a page. Entries carry three stamps that no command reads: which
call stored the value, since when the key has existed, and when the value was
written. They are bookkeeping of the model, like the clock they come from.
-/

namespace HeliosPermissions.CacheStore

open JsonValues CacheKeys GlobPattern

/-- What a bulk invalidation is about. -/
inductive Scope where
  /-- Every tenant of a user. -/
  | user (userId : String)
  /-- Every user of a tenant. -/
  | tenant (tenantId : String)
  deriving DecidableEq

/-- What the two cache classes differ in: how the pair becomes a key, which keys
a bulk invalidation drops, and how a list is spelled. -/
structure Backend (Raw : Type) extends JsonCodec Raw where
  /-- `_key`. -/
  key : String → String → String
  /-- The keys that a bulk invalidation drops. -/
  selects : Scope → String → Bool
  /-- `ttl_seconds`; zero writes entries that never expire. -/
  ttlSeconds : ℕ

/-- `RedisPermissionCache`: prefixed keys, glob patterns, JSON text. -/
def redisBackend {Raw : Type} (codec : JsonCodec Raw) (ttlSeconds : ℕ) : Backend Raw where
  toJsonCodec := codec
  key := redisKey
  selects
    | .user u, k => globMatch (userPattern u) k
    | .tenant t, k => globMatch (tenantPattern t) k
  ttlSeconds := ttlSeconds

/-- `InMemoryPermissionCache`: bare keys, prefix and suffix tests, lists kept as
they are. -/
def memoryBackend (ttlSeconds : ℕ) : Backend (List Json) where
  toJsonCodec := plainCodec
  key := memoryKey
  selects
    | .user u, k => startsWith k (userPrefix u)
    | .tenant t, k => endsWith k (tenantSuffix t)
  ttlSeconds := ttlSeconds

/-- Which call stored a value. -/
inductive Origin where
  /-- It was there before the run. -/
  | initial
  /-- The populate at the end of this read's Helios fetch. -/
  | populate (read : ℕ)
  /-- This write-through call. -/
  | writeThrough (mutation : ℕ)
  deriving DecidableEq

/-- A stored value. -/
structure Entry (Raw : Type) where
  /-- What GET returns. -/
  raw : Raw
  /-- The call that stored it. -/
  origin : Origin
  /-- The clock when the key came into being. -/
  since : ℕ
  /-- The clock when this value was written. -/
  written : ℕ
  /-- The `ex` argument of the SET that wrote it. -/
  ex : Option ℕ

/-- The keyspace. -/
abbrev Store (Raw : Type) := OrderedDict String (Entry Raw)

/-- The commands that the SDK sends. -/
inductive Command (Raw : Type) where
  | get (key : String)
  | set (key : String) (raw : Raw) (ex : Option ℕ) (nx : Bool)
  | delete (keys : List String)
  | scan (cursor : ℕ) (scope : Scope)

/-- What comes back for a command. -/
inductive Reply (Raw : Type) where
  | value (raw : Option Raw)
  | stored (written : Bool)
  | deleted (count : ℕ)
  | page (cursor : ℕ) (keys : List String)
  /-- The client raised. -/
  | failed

/-- What the server and the connection do with a command. -/
inductive Fate where
  /-- It is executed and the reply arrives. -/
  | executes
  /-- A SCAN is answered with this page and cursor. -/
  | returns (cursor : ℕ) (keys : List String)
  /-- The client raises; the command may have been executed all the same. -/
  | fails (applied : Bool)
  deriving DecidableEq

/-- How far a scan iteration has come: the clock at its first page and the keys
on its pages. Bookkeeping of the model. -/
structure ScanProgress where
  /-- The clock at the first page, once there is one. -/
  started : Option ℕ
  /-- The keys on the pages so far. -/
  seen : List String
  deriving DecidableEq

variable {Raw : Type}

/-- The `ex` argument of every write: only passed when a TTL is configured. -/
def Backend.ex (backend : Backend Raw) : Option ℕ :=
  if 0 < backend.ttlSeconds then some backend.ttlSeconds else none

/-- Execute a command other than SCAN. -/
def execute (now : ℕ) (origin : Origin) (store : Store Raw) :
    Command Raw → Reply Raw × Store Raw
  | .get k => (.value ((store.get? k).map Entry.raw), store)
  | .set k raw ex nx =>
    match store.get? k with
    | none => (.stored true, store.set k ⟨raw, origin, now, now, ex⟩)
    | some old =>
      if nx then (.stored false, store)
      else (.stored true, store.set k ⟨raw, origin, old.since, now, ex⟩)
  | .delete ks => (.deleted (store.keys.filter (· ∈ ks)).length, store.popAll ks)
  | .scan cursor _ => (.page cursor [], store)

/-- The guarantee of SCAN: pages hold matching keys only, and the iteration ends
only after every matching key that was there from its start has been returned. -/
def PageAllowed (backend : Backend Raw) (now : ℕ) (progress : ScanProgress) (store : Store Raw)
    (scope : Scope) (cursor : ℕ) (keys : List String) : Prop :=
  (∀ k ∈ keys, backend.selects scope k = true) ∧
    (cursor = 0 → ∀ b ∈ store.entries, backend.selects scope b.1 = true →
      b.2.since ≤ progress.started.getD now → b.1 ∈ progress.seen ++ keys)

instance (backend : Backend Raw) (now : ℕ) (progress : ScanProgress) (store : Store Raw)
    (scope : Scope) (cursor : ℕ) (keys : List String) :
    Decidable (PageAllowed backend now progress store scope cursor keys) :=
  inferInstanceAs (Decidable ((∀ k ∈ keys, backend.selects scope k = true) ∧
    (cursor = 0 → ∀ b ∈ store.entries, backend.selects scope b.1 = true →
      b.2.since ≤ progress.started.getD now → b.1 ∈ progress.seen ++ keys)))

/-- Serve a command under a fate, when that fate is possible for it. -/
def serve (backend : Backend Raw) (now : ℕ) (origin : Origin) (progress : ScanProgress)
    (store : Store Raw) : Command Raw → Fate → Option (Reply Raw × Store Raw)
  | .scan _ scope, .returns cursor keys =>
    if PageAllowed backend now progress store scope cursor keys then
      some (.page cursor keys, store)
    else none
  | .scan _ _, .fails _ => some (.failed, store)
  | .scan _ _, .executes => none
  | _, .returns _ _ => none
  | cmd, .executes => some (execute now origin store cmd)
  | cmd, .fails applied =>
    some (.failed, if applied then (execute now origin store cmd).2 else store)

/-- The iteration after a SCAN reply. -/
def ScanProgress.advance (progress : ScanProgress) (now : ℕ) : Reply Raw → ScanProgress
  | .page _ keys => ⟨some (progress.started.getD now), progress.seen ++ keys⟩
  | _ => progress

/-- Serving a command leaves the store alone or executes the command on it. -/
theorem serve_store {backend : Backend Raw} {now : ℕ} {origin : Origin}
    {progress : ScanProgress} {store store' : Store Raw} {cmd : Command Raw} {fate : Fate}
    {reply : Reply Raw}
    (h : serve backend now origin progress store cmd fate = some (reply, store')) :
    store' = store ∨ store' = (execute now origin store cmd).2 := by
  cases cmd <;> cases fate <;> simp only [serve, Option.some.injEq, Prod.mk.injEq, reduceCtorEq,
    Option.ite_none_right_eq_some] at h
  case scan.returns => exact Or.inl h.2.2.symm
  case scan.fails => exact Or.inl h.2.symm
  all_goals first
    | exact Or.inr (congrArg Prod.snd h).symm
    | (rename_i applied
       cases applied
       · exact Or.inl h.2.symm
       · exact Or.inr h.2.symm)

/-- How a GET is served. -/
theorem serve_get {backend : Backend Raw} {now : ℕ} {origin : Origin} {progress : ScanProgress}
    {store store' : Store Raw} {k : String} {fate : Fate} {reply : Reply Raw}
    (h : serve backend now origin progress store (.get k) fate = some (reply, store')) :
    store' = store ∧ (reply = .failed ∨ reply = .value ((store.get? k).map Entry.raw)) := by
  cases fate with
  | executes =>
    cases h
    exact ⟨rfl, Or.inr rfl⟩
  | returns cursor keys => cases h
  | fails applied =>
    cases h
    exact ⟨by cases applied <;> rfl, Or.inl rfl⟩

/-- How a SET is served: it brings no text back. -/
theorem serve_set {backend : Backend Raw} {now : ℕ} {origin : Origin} {progress : ScanProgress}
    {store store' : Store Raw} {k : String} {raw : Raw} {ex : Option ℕ} {nx : Bool} {fate : Fate}
    {reply : Reply Raw}
    (h : serve backend now origin progress store (.set k raw ex nx) fate = some (reply, store')) :
    reply = .failed ∨ ∃ written, reply = .stored written := by
  cases fate with
  | executes =>
    simp only [serve, execute, Option.some.injEq] at h
    split at h
    · cases h
      exact Or.inr ⟨true, rfl⟩
    · split at h
      · cases h
        exact Or.inr ⟨false, rfl⟩
      · cases h
        exact Or.inr ⟨true, rfl⟩
  | returns cursor keys => cases h
  | fails applied =>
    cases h
    exact Or.inl rfl

/-- How a DEL is served: a count comes back only when it was executed. -/
theorem serve_delete {backend : Backend Raw} {now : ℕ} {origin : Origin} {progress : ScanProgress}
    {store store' : Store Raw} {ks : List String} {fate : Fate} {reply : Reply Raw}
    (h : serve backend now origin progress store (.delete ks) fate = some (reply, store')) :
    (reply = .failed ∧ (store' = store ∨ store' = store.popAll ks)) ∨
      ∃ count, reply = .deleted count ∧ store' = store.popAll ks := by
  cases fate with
  | executes =>
    cases h
    exact Or.inr ⟨_, rfl, rfl⟩
  | returns cursor keys => cases h
  | fails applied =>
    cases h
    refine Or.inl ⟨rfl, ?_⟩
    cases applied with
    | false => exact Or.inl rfl
    | true => exact Or.inr rfl

/-- How a SCAN is served. -/
theorem serve_scan {backend : Backend Raw} {now : ℕ} {origin : Origin} {progress : ScanProgress}
    {store store' : Store Raw} {c : ℕ} {scope : Scope} {fate : Fate} {reply : Reply Raw}
    (h : serve backend now origin progress store (.scan c scope) fate = some (reply, store')) :
    store' = store ∧ (reply = .failed ∨ ∃ cursor keys, reply = .page cursor keys ∧
      PageAllowed backend now progress store scope cursor keys) := by
  cases fate with
  | executes => cases h
  | returns cursor keys =>
    simp only [serve, Option.ite_none_right_eq_some] at h
    obtain ⟨hp, h⟩ := h
    cases h
    exact ⟨rfl, Or.inr ⟨cursor, keys, rfl, hp⟩⟩
  | fails applied =>
    cases h
    exact ⟨rfl, Or.inl rfl⟩

/-- A command that replaces or drops the value of a key whatever it is: a SET
without NX, or a DEL that names the key. -/
def Command.touches (k : String) : Command Raw → Prop
  | .set k' _ _ nx => nx = false ∧ k' = k
  | .delete ks => k ∈ ks
  | _ => False

/-- A plain SET leaves its value, its origin and its expiry under the key. -/
theorem execute_overwrite (now : ℕ) (origin : Origin) (store : Store Raw) (k : String) (raw : Raw)
    (ex : Option ℕ) : ∃ since, (execute now origin store (.set k raw ex false)).2.get? k =
      some ⟨raw, origin, since, now, ex⟩ := by
  cases hs : store.get? k with
  | none => exact ⟨now, by simp [execute, hs]⟩
  | some old => exact ⟨old.since, by simp [execute, hs]⟩

/-- What stands under a key after a command: the entry from before; the value of
a SET, on a free key or without NX; or nothing, after a DEL of the key. -/
theorem execute_get? (now : ℕ) (origin : Origin) (store : Store Raw) (cmd : Command Raw)
    (k : String) :
    (execute now origin store cmd).2.get? k = store.get? k ∨
      (∃ raw ex nx, cmd = .set k raw ex nx ∧ (nx = true → store.get? k = none) ∧
        (execute now origin store cmd).2.get? k =
          some ⟨raw, origin, ((store.get? k).map Entry.since).getD now, now, ex⟩) ∨
      (∃ ks, cmd = .delete ks ∧ k ∈ ks ∧ (execute now origin store cmd).2.get? k = none) := by
  cases cmd with
  | get k' => exact Or.inl rfl
  | scan cursor scope => exact Or.inl rfl
  | delete ks =>
    by_cases hk : k ∈ ks
    · exact Or.inr (Or.inr ⟨ks, rfl, hk, by simp [execute, hk]⟩)
    · exact Or.inl (by simp [execute, hk])
  | set k' raw ex nx =>
    by_cases hk : k = k'
    · subst hk
      cases hs : store.get? k with
      | none => exact Or.inr (Or.inl ⟨raw, ex, nx, rfl, fun _ => rfl, by simp [execute, hs]⟩)
      | some old =>
        cases nx with
        | true => exact Or.inl (by simp [execute, hs])
        | false =>
          refine Or.inr (Or.inl ⟨raw, ex, false, rfl, by simp, ?_⟩)
          simp [execute, hs]
    · refine Or.inl ?_
      cases hs : store.get? k' with
      | none => simp [execute, hs, hk]
      | some old => cases nx <;> simp [execute, hs, hk]

end HeliosPermissions.CacheStore
