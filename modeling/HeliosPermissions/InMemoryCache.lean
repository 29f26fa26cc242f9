import Mathlib.Algebra.Order.Ring.Unbundled.Rat
import HeliosPermissions.PermissionCaches

/-!
# The in-memory cache

`InMemoryPermissionCache` keeps lists in a dictionary, with the time at which
each expires, and looks at the time only when an entry is asked for. Times are
exact rationals here, where the source has floats; a missing bound stands for
infinity. Without a TTL the methods do what the commands of a keyed store do,
which is how the client system runs over this cache.
-/

namespace HeliosPermissions.InMemoryCache

open JsonValues CacheKeys CacheStore ClientWorld PermissionCaches

/-- `_store`: lists with their expiry in milliseconds, where nothing means never. -/
abbrev MemoryStore := OrderedDict String (List Json × Option ℚ)

/-- `_is_expired`, at a time in seconds. -/
def isExpired (now : ℚ) : Option ℚ → Bool
  | none => false
  | some expiresAt => expiresAt ≤ now * 1000

/-- `_expires_at_ms`. -/
def expiresAtMs (ttlMs : Option ℚ) (now : ℚ) : Option ℚ :=
  ttlMs.map fun ttl => now * 1000 + ttl

/-- `InMemoryPermissionCache.get`: an expired entry is dropped. -/
def get (now : ℚ) (store : MemoryStore) (userId tenantId : String) :
    Option (List Json) × MemoryStore :=
  match store.get? (memoryKey userId tenantId) with
  | none => (none, store)
  | some (perms, expiresAt) =>
    if isExpired now expiresAt then (none, store.pop (memoryKey userId tenantId))
    else (some perms, store)

/-- `InMemoryPermissionCache.set`: a live entry is kept. -/
def set (ttlMs : Option ℚ) (now : ℚ) (store : MemoryStore) (userId tenantId : String)
    (perms : List Json) : MemoryStore :=
  match store.get? (memoryKey userId tenantId) with
  | none => store.set (memoryKey userId tenantId) (perms, expiresAtMs ttlMs now)
  | some (_, expiresAt) =>
    if isExpired now expiresAt then
      store.set (memoryKey userId tenantId) (perms, expiresAtMs ttlMs now)
    else store

/-- `InMemoryPermissionCache.write_through`. -/
def writeThrough (ttlMs : Option ℚ) (now : ℚ) (store : MemoryStore) (userId tenantId : String)
    (perms : List Json) : MemoryStore :=
  store.set (memoryKey userId tenantId) (perms, expiresAtMs ttlMs now)

/-- The loop over the keys in the bulk invalidations. -/
def popEach (p : String → Bool) (store : MemoryStore) : List String → MemoryStore
  | [] => store
  | k :: rest => popEach p (if p k then store.pop k else store) rest

/-- `InMemoryPermissionCache.invalidate`. -/
def invalidate (store : MemoryStore) (userId : String) (tenantId : Option String) : MemoryStore :=
  match tenantId with
  | none => popEach (fun k => startsWith k (userPrefix userId)) store store.keys
  | some t => store.pop (memoryKey userId t)

/-- `InMemoryPermissionCache.invalidate_tenant`. -/
def invalidateTenant (store : MemoryStore) (tenantId : String) : MemoryStore :=
  popEach (fun k => endsWith k (tenantSuffix tenantId)) store store.keys

/-- `InMemoryPermissionCache` as a `PermissionCache`. -/
def memoryCache (ttlMs : Option ℚ) : PermissionCache where
  State := MemoryStore
  Env := ℚ
  get now store u t := ((get now store u t).1.elim (.ok none) fun perms => .ok (some perms),
    (get now store u t).2)
  set now store u t perms := set ttlMs now store u t perms
  writeThrough now store u t perms := writeThrough ttlMs now store u t perms
  invalidate _ store u t := (.ok 0, invalidate store u (some t))

section frames

variable {ttlMs : Option ℚ} {now : ℚ} {m : MemoryStore} {u t u₂ t₂ : String}

/-- `get` looks at one key. -/
theorem get_congr (now : ℚ) {m' : MemoryStore}
    (h : m'.get? (memoryKey u t) = m.get? (memoryKey u t)) :
    (get now m' u t).1 = (get now m u t).1 := by
  unfold get
  rw [h]
  cases m.get? (memoryKey u t) with
  | none => rfl
  | some entry =>
    dsimp only
    split <;> rfl

/-- A `set` leaves the other keys as they are. -/
theorem set_frame (hk : memoryKey u t ≠ memoryKey u₂ t₂) (perms : List Json) :
    (set ttlMs now m u₂ t₂ perms).get? (memoryKey u t) = m.get? (memoryKey u t) := by
  unfold set
  split
  · rw [OrderedDict.get?_set, if_neg hk]
  · split_ifs
    · rw [OrderedDict.get?_set, if_neg hk]
    · rfl

/-- A `write_through` leaves the other keys as they are. -/
theorem writeThrough_frame (hk : memoryKey u t ≠ memoryKey u₂ t₂) (perms : List Json) :
    (writeThrough ttlMs now m u₂ t₂ perms).get? (memoryKey u t) = m.get? (memoryKey u t) := by
  simp [writeThrough, hk]

/-- An `invalidate` with both ids leaves the other keys as they are. -/
theorem invalidate_frame (hk : memoryKey u t ≠ memoryKey u₂ t₂) :
    (invalidate m u₂ (some t₂)).get? (memoryKey u t) = m.get? (memoryKey u t) := by
  simp [invalidate, hk]

end frames

/-- Popping the selected keys of a list removes those and no others. -/
theorem popEach_get? (p : String → Bool) (store : MemoryStore) (ks : List String) (k : String) :
    (popEach p store ks).get? k = if k ∈ ks ∧ p k = true then none else store.get? k := by
  induction ks generalizing store with
  | nil => simp [popEach]
  | cons k₀ rest ih =>
    rw [popEach, ih]
    by_cases hk : k = k₀
    · subst hk
      by_cases hp : p k = true
      · simp [hp]
      · simp [hp]
    · by_cases hp : p k₀ = true
      · simp [hp, hk]
      · simp [hp, hk]

/-- The bulk invalidations drop every key that passes their test, and no other. -/
theorem popEach_keys_get? (p : String → Bool) (store : MemoryStore) (k : String) :
    (popEach p store store.keys).get? k = if p k = true then none else store.get? k := by
  rw [popEach_get?]
  by_cases hp : p k = true
  · by_cases hk : k ∈ store.keys
    · simp [hk, hp]
    · have hnone : store.get? k = none := by
        rw [OrderedDict.mem_keys] at hk
        simpa using hk
      simp [hk, hnone]
  · simp [hp]

/-- A dictionary and a keyed store that hold the same lists, none of which expires. -/
def HoldsSame (m : MemoryStore) (s : Store (List Json)) : Prop :=
  ∀ k, m.get? k = (s.get? k).map fun entry => (entry.raw, none)

section refinement

variable {m : MemoryStore} {s : Store (List Json)}

/-- `get` is the GET of the key. -/
theorem get_refines (h : HoldsSame m s) (now : ℚ) (u t : String) :
    HoldsSame (get now m u t).2 s ∧
      decodeGet (memoryBackend 0) (send 0 .initial s (.get (memoryKey u t)) .executes).1 =
        .ok (get now m u t).1 := by
  have hk := h (memoryKey u t)
  unfold get
  cases hs : s.get? (memoryKey u t) with
  | none =>
    rw [hs] at hk
    rw [hk]
    exact ⟨h, by simp [send, execute, hs, decodeGet]⟩
  | some entry =>
    rw [hs] at hk
    rw [hk]
    exact ⟨h, by simp [send, execute, hs, decodeGet, memoryBackend, plainCodec, isExpired]⟩

/-- Writing the same list to both. -/
theorem HoldsSame.set (h : HoldsSame m s) (k : String) (perms : List Json)
    {entry : Entry (List Json)} (he : entry.raw = perms) :
    HoldsSame (m.set k (perms, none)) (s.set k entry) := by
  intro k'
  rw [OrderedDict.get?_set, OrderedDict.get?_set]
  by_cases hk : k' = k
  · rw [if_pos hk, if_pos hk, Option.map_some, he]
  · rw [if_neg hk, if_neg hk]
    exact h k'

/-- `set` is the SET NX of the key. -/
theorem set_refines (h : HoldsSame m s) (now : ℚ) (clock : ℕ) (origin : Origin) (u t : String)
    (perms : List Json) : HoldsSame (set none now m u t perms)
      (execute clock origin s (.set (memoryKey u t) perms none true)).2 := by
  have hk := h (memoryKey u t)
  unfold InMemoryCache.set
  cases hs : s.get? (memoryKey u t) with
  | none =>
    rw [hs] at hk
    rw [hk]
    simp only [Option.map_none, execute, hs]
    exact h.set _ _ rfl
  | some entry =>
    rw [hs] at hk
    rw [hk]
    simp only [Option.map_some, isExpired, execute, hs]
    exact h

/-- `write_through` is the SET of the key. -/
theorem writeThrough_refines (h : HoldsSame m s) (now : ℚ) (clock : ℕ) (origin : Origin)
    (u t : String) (perms : List Json) : HoldsSame (writeThrough none now m u t perms)
      (execute clock origin s (.set (memoryKey u t) perms none false)).2 := by
  unfold writeThrough
  cases hs : s.get? (memoryKey u t) with
  | none =>
    simp only [execute, hs]
    exact h.set _ _ rfl
  | some entry =>
    simp only [execute, hs, Bool.false_eq_true, if_false]
    exact h.set _ _ rfl

/-- The single-pair `invalidate` is the DEL of the key. -/
theorem invalidate_refines (h : HoldsSame m s) (clock : ℕ) (origin : Origin) (u t : String) :
    HoldsSame (invalidate m u (some t))
      (execute clock origin s (.delete [memoryKey u t])).2 := by
  intro k
  simp only [invalidate, execute, OrderedDict.get?_pop, OrderedDict.get?_popAll,
    List.mem_singleton]
  by_cases hk : k = memoryKey u t
  · rw [if_pos hk, if_pos hk]
    rfl
  · rw [if_neg hk, if_neg hk]
    exact h k

/-- Popping each key that passes a test is the DEL of the keys that pass it. -/
theorem popEach_refines (h : HoldsSame m s) (clock : ℕ) (origin : Origin) (p : String → Bool) :
    HoldsSame (popEach p m m.keys) (execute clock origin s (.delete (s.keys.filter p))).2 := by
  intro k
  simp only [popEach_keys_get?, execute, OrderedDict.get?_popAll, List.mem_filter]
  by_cases hp : p k = true
  · rw [if_pos hp]
    split_ifs with hmem
    · rfl
    · have hout : k ∉ s.keys := fun hin => hmem ⟨hin, hp⟩
      have hnone : s.get? k = none := by
        rw [OrderedDict.mem_keys] at hout
        simpa using hout
      rw [hnone]
      rfl
  · rw [if_neg hp, if_neg (fun hmem => hp hmem.2)]
    exact h k

/-- `invalidate` without a tenant is the DEL of what a scan for the user selects. -/
theorem invalidate_user_refines (h : HoldsSame m s) (clock : ℕ) (origin : Origin) (u : String) :
    HoldsSame (invalidate m u none) (execute clock origin s
      (.delete (s.keys.filter ((memoryBackend 0).selects (.user u))))).2 :=
  popEach_refines h clock origin fun k => startsWith k (userPrefix u)

/-- `invalidate_tenant` is the DEL of what a scan for the tenant selects. -/
theorem invalidateTenant_refines (h : HoldsSame m s) (clock : ℕ) (origin : Origin) (t : String) :
    HoldsSame (invalidateTenant m t) (execute clock origin s
      (.delete (s.keys.filter ((memoryBackend 0).selects (.tenant t))))).2 :=
  popEach_refines h clock origin fun k => endsWith k (tenantSuffix t)

end refinement

end HeliosPermissions.InMemoryCache
