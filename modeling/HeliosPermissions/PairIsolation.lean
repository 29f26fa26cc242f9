import HeliosPermissions.InMemoryCache
import HeliosPermissions.ReadResolution

/-!
# What one pair can do to another

The cache keys and the lock key of a pair are its two ids with a colon between
them, and the colon is not escaped. Calls for one pair touch what is under that
key and nothing else, so they cannot be seen from a pair with another key; two
pairs that spell the same key share the cache entry and the fetch in flight.
-/

namespace HeliosPermissions.PairIsolation

open JsonValues CacheKeys CacheStore ClientWorld PermissionCaches InMemoryCache ReadResolution

/-- The cache of a client and its in-flight table. -/
structure SdkState (cache : PermissionCache) where
  /-- What the cache holds. -/
  cached : cache.State
  /-- `_in_flight`. -/
  inFlight : OrderedDict String FutureId

/-- What `caller_has_permission` or `get_user_permissions` returns in a state. -/
def readAnswer (cache : PermissionCache) (env : cache.Env) (s : SdkState cache)
    (awaited : FutureId → Outcome) (fetched : Outcome) (userId tenantId : String) (ask : Ask) :
    Except PyError (Bool ⊕ List Json) :=
  (resolvePerms s.inFlight awaited fetched userId tenantId
    (cache.get env s.cached userId tenantId).1).map ask.answer

/-- What is done for a pair: a write or a single-entry invalidation in the cache,
or a Helios fetch that enters the table or leaves it. -/
inductive ActsOn (cache : PermissionCache) (u t : String) (s : SdkState cache) :
    SdkState cache → Prop
  | set (env : cache.Env) (perms : List Json) :
      ActsOn cache u t s { s with cached := cache.set env s.cached u t perms }
  | writeThrough (env : cache.Env) (perms : List Json) :
      ActsOn cache u t s { s with cached := cache.writeThrough env s.cached u t perms }
  | invalidate (env : cache.Env) :
      ActsOn cache u t s { s with cached := (cache.invalidate env s.cached u t).2 }
  | fetchStarts (f : FutureId) :
      ActsOn cache u t s { s with inFlight := s.inFlight.set (lockKey u t) f }
  | fetchEnds : ActsOn cache u t s { s with inFlight := s.inFlight.pop (lockKey u t) }

/-- In no state does anything done for the second pair change what `get` or a read
method returns for the first. -/
def Isolated (cache : PermissionCache) (u t u₂ t₂ : String) : Prop :=
  ∀ s s', ActsOn cache u₂ t₂ s s' → ∀ env : cache.Env,
    (cache.get env s'.cached u t).1 = (cache.get env s.cached u t).1 ∧
    ∀ awaited fetched ask, readAnswer cache env s' awaited fetched u t ask =
      readAnswer cache env s awaited fetched u t ask

/-- A cache that separates two pairs: the methods called for the second do not
change what `get` returns for the first. -/
structure Separates (cache : PermissionCache) (u t u₂ t₂ : String) : Prop where
  /-- `set` for the second pair. -/
  set : ∀ env env' s perms,
    (cache.get env (cache.set env' s u₂ t₂ perms) u t).1 = (cache.get env s u t).1
  /-- `write_through` for the second pair. -/
  writeThrough : ∀ env env' s perms,
    (cache.get env (cache.writeThrough env' s u₂ t₂ perms) u t).1 = (cache.get env s u t).1
  /-- `invalidate` for the second pair. -/
  invalidate : ∀ env env' s,
    (cache.get env (cache.invalidate env' s u₂ t₂).2 u t).1 = (cache.get env s u t).1

/-- The in-flight table alone: whatever the cache gave, a fetch for the second pair
that enters the table or leaves it does not change how the first resolves. -/
def TableIsolated (u t u₂ t₂ : String) : Prop :=
  ∀ (d : OrderedDict String FutureId) (f : FutureId) (awaited : FutureId → Outcome)
    (fetched : Outcome) (cached : Except PyError (Option (List Json))),
    resolvePerms (d.set (lockKey u₂ t₂) f) awaited fetched u t cached =
      resolvePerms d awaited fetched u t cached ∧
    resolvePerms (d.pop (lockKey u₂ t₂)) awaited fetched u t cached =
      resolvePerms d awaited fetched u t cached

/-- Only the entry of the lock key matters. -/
theorem resolvePerms_congr {d d' : OrderedDict String FutureId} {u t : String}
    (h : d'.get? (lockKey u t) = d.get? (lockKey u t)) (awaited : FutureId → Outcome)
    (fetched : Outcome) (cached : Except PyError (Option (List Json))) :
    resolvePerms d' awaited fetched u t cached = resolvePerms d awaited fetched u t cached := by
  cases cached with
  | error err => rfl
  | ok perms =>
    cases perms with
    | some perms => rfl
    | none => simp only [resolvePerms, h]

/-- In the table two pairs are apart when their lock keys are. -/
theorem tableIsolated_iff (u t u₂ t₂ : String) :
    TableIsolated u t u₂ t₂ ↔ lockKey u t ≠ lockKey u₂ t₂ := by
  constructor
  · intro hiso hlock
    have hjoins := (hiso .empty 0 (fun _ => .ok []) (.error .typeError) (.ok none)).1
    have hfound : (OrderedDict.empty.set (lockKey u₂ t₂) (0 : FutureId)).get? (lockKey u t) =
        some 0 := by
      rw [OrderedDict.get?_set, if_pos hlock]
    simp only [resolvePerms, hfound, OrderedDict.get?_empty] at hjoins
    cases hjoins
  · intro hlock d f awaited fetched cached
    refine ⟨resolvePerms_congr ?_ awaited fetched cached,
      resolvePerms_congr ?_ awaited fetched cached⟩
    · rw [OrderedDict.get?_set, if_neg hlock]
    · rw [OrderedDict.get?_pop, if_neg hlock]

/-- A separating cache and different lock keys isolate the pairs. -/
theorem isolated_of_separates {cache : PermissionCache} {u t u₂ t₂ : String}
    (hsep : Separates cache u t u₂ t₂) (hlock : lockKey u t ≠ lockKey u₂ t₂) :
    Isolated cache u t u₂ t₂ := by
  intro s s' hact env
  have hcached : (cache.get env s'.cached u t).1 = (cache.get env s.cached u t).1 := by
    cases hact with
    | set env' perms => exact hsep.set env env' s.cached perms
    | writeThrough env' perms => exact hsep.writeThrough env env' s.cached perms
    | invalidate env' => exact hsep.invalidate env env' s.cached
    | fetchStarts f => rfl
    | fetchEnds => rfl
  have htable : s'.inFlight.get? (lockKey u t) = s.inFlight.get? (lockKey u t) := by
    cases hact with
    | set => rfl
    | writeThrough => rfl
    | invalidate => rfl
    | fetchStarts f => rw [OrderedDict.get?_set, if_neg hlock]
    | fetchEnds => rw [OrderedDict.get?_pop, if_neg hlock]
  refine ⟨hcached, ?_⟩
  intro awaited fetched ask
  rw [readAnswer, readAnswer, hcached, resolvePerms_congr htable]

/-- Redis separates pairs with two lock keys. -/
theorem redis_separates {Raw : Type} (codec : JsonCodec Raw) (ttlSeconds : ℕ)
    {u t u₂ t₂ : String} (hlock : lockKey u t ≠ lockKey u₂ t₂) :
    Separates (redisCache (redisBackend codec ttlSeconds)) u t u₂ t₂ := by
  have hkey : redisKey u t ≠ redisKey u₂ t₂ := fun h => hlock (redisKey_eq_iff.mp h)
  refine ⟨?_, ?_, ?_⟩
  · intro env env' store perms
    exact RedisPermissionCache.get_congr
      (RedisPermissionCache.set_frame hkey env'.now perms env'.fate) env.fate
  · intro env env' store perms
    exact RedisPermissionCache.get_congr
      (RedisPermissionCache.writeThrough_frame hkey env'.now perms env'.fate) env.fate
  · intro env env' store
    exact RedisPermissionCache.get_congr
      (RedisPermissionCache.invalidate_frame hkey env'.fate) env.fate

/-- So does the in-memory cache. -/
theorem memory_separates (ttlMs : Option ℚ) {u t u₂ t₂ : String}
    (hlock : lockKey u t ≠ lockKey u₂ t₂) : Separates (memoryCache ttlMs) u t u₂ t₂ := by
  have hget : ∀ (now : ℚ) (m m' : MemoryStore),
      m'.get? (memoryKey u t) = m.get? (memoryKey u t) →
      ((memoryCache ttlMs).get now m' u t).1 = ((memoryCache ttlMs).get now m u t).1 := by
    intro now m m' h
    have hsame := InMemoryCache.get_congr now h
    simp only [memoryCache, hsame]
  refine ⟨?_, ?_, ?_⟩
  · intro now now' m perms
    exact hget now m _ (InMemoryCache.set_frame hlock perms)
  · intro now now' m perms
    exact hget now m _ (InMemoryCache.writeThrough_frame hlock perms)
  · intro now now' m
    exact hget now m _ (InMemoryCache.invalidate_frame hlock)

/-- With one key for both pairs, a `set` for the second is a hit for the first. -/
theorem redis_not_isolated {Raw : Type} (codec : JsonCodec Raw) (ttlSeconds : ℕ)
    {u t u₂ t₂ : String} (hlock : lockKey u t = lockKey u₂ t₂) :
    ¬Isolated (redisCache (redisBackend codec ttlSeconds)) u t u₂ t₂ := by
  have hkey : redisKey u₂ t₂ = redisKey u t := redisKey_eq_iff.mpr hlock.symm
  have hhit : RedisPermissionCache.get (redisBackend codec ttlSeconds)
      (RedisPermissionCache.set (redisBackend codec ttlSeconds) 0 .empty u₂ t₂ [] .executes) u t
      .executes = .ok (some []) := by
    simp [RedisPermissionCache.get, RedisPermissionCache.set, send, execute, redisBackend, hkey,
      decodeGet, codec.loads_dumps]
  have hmiss : RedisPermissionCache.get (redisBackend codec ttlSeconds) .empty u t .executes =
      .ok none := by
    simp [RedisPermissionCache.get, send, execute, decodeGet]
  intro hiso
  have hsame := (hiso ⟨(.empty : Store Raw), .empty⟩ _
    (.set (⟨0, .executes⟩ : RedisEnv) []) (⟨0, .executes⟩ : RedisEnv)).1
  have hboth : RedisPermissionCache.get (redisBackend codec ttlSeconds)
      (RedisPermissionCache.set (redisBackend codec ttlSeconds) 0 .empty u₂ t₂ [] .executes) u t
      .executes = RedisPermissionCache.get (redisBackend codec ttlSeconds) .empty u t .executes :=
    hsame
  rw [hhit, hmiss] at hboth
  cases hboth

/-- With one key for both pairs, an invalidation of the second drops the entry of
the first. -/
theorem memory_not_isolated (ttlMs : Option ℚ) {u t u₂ t₂ : String}
    (hlock : lockKey u t = lockKey u₂ t₂) : ¬Isolated (memoryCache ttlMs) u t u₂ t₂ := by
  have hkey : memoryKey u t = memoryKey u₂ t₂ := hlock
  let store : MemoryStore := OrderedDict.empty.set (memoryKey u t) ([], none)
  have hhit : (InMemoryCache.get 0 store u t).1 = some [] := by
    simp [InMemoryCache.get, store, isExpired]
  have hmiss : (InMemoryCache.get 0 (InMemoryCache.invalidate store u₂ (some t₂)) u t).1 =
      none := by
    simp [InMemoryCache.get, InMemoryCache.invalidate, hkey]
  intro hiso
  have hsame := (hiso ⟨store, .empty⟩ _ (.invalidate (0 : ℚ)) (0 : ℚ)).1
  simp only [memoryCache, hhit, hmiss] at hsame
  cases hsame

/-- Over the Redis cache, over the in-memory cache and in the in-flight table
alike, nothing done for one pair can be seen from another exactly when the two
pairs spell different keys. -/
theorem pairs_isolated_iff {Raw : Type} (codec : JsonCodec Raw) (ttlSeconds : ℕ)
    (ttlMs : Option ℚ) (u t u₂ t₂ : String) :
    (Isolated (redisCache (redisBackend codec ttlSeconds)) u t u₂ t₂ ↔
      lockKey u t ≠ lockKey u₂ t₂) ∧
    (Isolated (memoryCache ttlMs) u t u₂ t₂ ↔ lockKey u t ≠ lockKey u₂ t₂) ∧
    (TableIsolated u t u₂ t₂ ↔ lockKey u t ≠ lockKey u₂ t₂) := by
  refine ⟨⟨?_, ?_⟩, ⟨?_, ?_⟩, tableIsolated_iff u t u₂ t₂⟩
  · intro hiso hlock
    exact redis_not_isolated codec ttlSeconds hlock hiso
  · intro hlock
    exact isolated_of_separates (redis_separates codec ttlSeconds hlock) hlock
  · intro hiso hlock
    exact memory_not_isolated ttlMs hlock hiso
  · intro hlock
    exact isolated_of_separates (memory_separates ttlMs hlock) hlock

/-- Tenant ids without a colon keep different pairs apart. -/
theorem lockKey_ne_of_colonFree {u t u₂ t₂ : String} (ht : ColonFree t) (ht₂ : ColonFree t₂)
    (hpair : (u, t) ≠ (u₂, t₂)) : lockKey u t ≠ lockKey u₂ t₂ := by
  intro hlock
  obtain ⟨rfl, rfl⟩ := lockKey_injective ht ht₂ hlock
  exact hpair rfl

/-- Two pairs that differ in where the colon falls. -/
theorem colliding_pairs_not_isolated :
    (("a", "b:c") : String × String) ≠ ("a:b", "c") ∧
      ¬Isolated (redisCache (redisBackend plainCodec 0)) "a" "b:c" "a:b" "c" :=
  ⟨by decide, redis_not_isolated plainCodec 0 (by decide)⟩

end HeliosPermissions.PairIsolation
