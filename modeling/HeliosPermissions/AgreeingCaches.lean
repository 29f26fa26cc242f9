import HeliosPermissions.RevocationEffects
import HeliosPermissions.InMemoryCache
import HeliosPermissions.JsonText

/-!
# Both caches against one map of pairs

The reference is a map from pairs of ids to lists, where the invalidations
remove one pair, the pairs of a user, or the pairs of a tenant. For ids without
colons and pattern characters the flattened keys lose nothing: a prefix, a
suffix or a pattern selects exactly the pairs that it is meant for, however the
pages of a scan fall. So the three agree after every sequence of calls.
-/

namespace HeliosPermissions.AgreeingCaches

open JsonValues JsonText CacheKeys GlobPattern CacheStore ClientWorld PartialRuns PermissionCaches
open RevocationEffects
open RedisPermissionCache (ScanRound scanAndDelete)

/-- A call of the protocol. -/
inductive Call where
  | get (userId tenantId : String)
  | set (userId tenantId : String) (perms : List Json)
  | writeThrough (userId tenantId : String) (perms : List Json)
  | invalidate (userId tenantId : String)
  /-- `invalidate` without a tenant. -/
  | invalidateUser (userId : String)
  | invalidateTenant (tenantId : String)

/-- The reference: which list is cached for a pair. -/
abbrev Reference := String → String → Option (List Json)

/-- The reference with another value for one pair. -/
def Reference.put (m : Reference) (u t : String) (v : Option (List Json)) : Reference :=
  fun u' t' => if u' = u ∧ t' = t then v else m u' t'

/-- What a call makes of the reference. -/
def Reference.after (m : Reference) : Call → Reference
  | .get _ _ => m
  | .set u t perms => if (m u t).isSome then m else m.put u t (some perms)
  | .writeThrough u t perms => m.put u t (some perms)
  | .invalidate u t => m.put u t none
  | .invalidateUser u => fun u' t' => if u' = u then none else m u' t'
  | .invalidateTenant t => fun u' t' => if t' = t then none else m u' t'

/-- What a call makes of the in-memory cache. -/
def memoryAfter (now : ℚ) (store : InMemoryCache.MemoryStore) : Call → InMemoryCache.MemoryStore
  | .get u t => (InMemoryCache.get now store u t).2
  | .set u t perms => InMemoryCache.set none now store u t perms
  | .writeThrough u t perms => InMemoryCache.writeThrough none now store u t perms
  | .invalidate u t => InMemoryCache.invalidate store u (some t)
  | .invalidateUser u => InMemoryCache.invalidate store u none
  | .invalidateTenant t => InMemoryCache.invalidateTenant store t

/-- One call made to all three: the time that the in-memory cache reads, and the pages
that Redis returns when the call scans. -/
structure Exchange where
  /-- The method called. -/
  call : Call
  /-- The clock that the in-memory cache reads. -/
  now : ℚ
  /-- The pages of Redis, when the call scans. -/
  rounds : List ScanRound

/-- The call as it goes to Redis, where no single command fails. -/
def Exchange.redisCall (e : Exchange) : CacheCall :=
  match e.call with
  | .get u t => .get u t .executes
  | .set u t perms => .set u t perms .executes
  | .writeThrough u t perms => .writeThrough u t perms .executes
  | .invalidate u t => .invalidate u t .executes
  | .invalidateUser u => .invalidateUser u e.rounds
  | .invalidateTenant t => .invalidateTenant t e.rounds

/-- The three caches. -/
structure Caches (Raw : Type) where
  /-- The Redis server behind `RedisPermissionCache`. -/
  redis : Server Raw
  /-- The dictionary of `InMemoryPermissionCache`. -/
  memory : InMemoryCache.MemoryStore
  /-- The reference map from pairs to lists. -/
  reference : Reference

/-- Three empty caches. -/
def Caches.empty {Raw : Type} : Caches Raw where
  redis := .start .empty
  memory := .empty
  reference _ _ := none

variable {Raw : Type}

/-- The call on all three. There is no step when the pages do not lead to the end of
the scan, or when Redis fails. -/
def Caches.step (codec : JsonCodec Raw) (c : Caches Raw) (e : Exchange) : Option (Caches Raw) :=
  match perform (redisBackend codec 0) c.redis e.redisCall with
  | none => none
  | some (.raised _, _) => none
  | some (_, store) => some {
      redis := ⟨store, c.redis.clock + 1⟩
      memory := memoryAfter e.now c.memory e.call
      reference := c.reference.after e.call }

/-- An id without a colon and without pattern characters. -/
def PlainText (s : String) : Prop := ColonFree s ∧ GlobFree s

/-- A call about such ids. -/
def PlainCall : Call → Prop
  | .get u t => PlainText u ∧ PlainText t
  | .set u t _ => PlainText u ∧ PlainText t
  | .writeThrough u t _ => PlainText u ∧ PlainText t
  | .invalidate u t => PlainText u ∧ PlainText t
  | .invalidateUser u => PlainText u
  | .invalidateTenant t => PlainText t

/-- The keyspace spells the reference. -/
def Spells (codec : JsonCodec Raw) (store : Store Raw) (m : Reference) : Prop :=
  ∀ u t, PlainText u → PlainText t →
    (store.get? (redisKey u t)).map Entry.raw = (m u t).map codec.dumps

/-- The dictionary holds the reference, and nothing in it expires. -/
def HoldsAll (memory : InMemoryCache.MemoryStore) (m : Reference) : Prop :=
  ∀ u t, PlainText u → PlainText t →
    memory.get? (memoryKey u t) = (m u t).map fun perms => (perms, none)

/-- The caches agree with the reference. -/
structure Agree (codec : JsonCodec Raw) (c : Caches Raw) : Prop where
  /-- No key of Redis came into being later than its clock. -/
  past : Past c.redis.clock c.redis.store
  /-- Redis holds the spellings of what the reference holds. -/
  redis : Spells codec c.redis.store c.reference
  /-- The dictionary holds the lists of the reference. -/
  memory : HoldsAll c.memory c.reference

section redis

variable {codec : JsonCodec Raw} {store store' : Store Raw} {m : Reference} {now : ℕ}

/-- Without colons in the tenants, equal keys come from equal pairs. -/
theorem redisKey_eq_pair {u t u' t' : String} (ht : PlainText t) (ht' : PlainText t') :
    redisKey u' t' = redisKey u t ↔ u' = u ∧ t' = t := by
  constructor
  · exact redisKey_injective ht'.1 ht.1
  · rintro ⟨rfl, rfl⟩
    rfl

/-- Writing one plain pair. -/
theorem Spells.put {u t : String} (h : Spells codec store m) (ht : PlainText t)
    {v : Option (List Json)}
    (hsame : (store'.get? (redisKey u t)).map Entry.raw = v.map codec.dumps)
    (hother : ∀ k, k ≠ redisKey u t → store'.get? k = store.get? k) :
    Spells codec store' (m.put u t v) := by
  intro u' t' hu' ht'
  rw [Reference.put]
  split_ifs with hpair
  · obtain ⟨rfl, rfl⟩ := hpair
    exact hsame
  · rw [hother _ fun hk => hpair ((redisKey_eq_pair ht ht').mp hk)]
    exact h u' t' hu' ht'

/-- Removing what a scope selects. -/
theorem Spells.scan {scope : Scope} {rounds : List ScanRound} {count : ℕ}
    (gone : String → String → Prop) [∀ u t, Decidable (gone u t)] (h : Spells codec store m)
    (hpast : Past now store)
    (hscan : RedisPermissionCache.invalidateAll (redisBackend codec 0) now store scope rounds =
      some (.ok count, store'))
    (hsel : ∀ u t, PlainText u → PlainText t →
      ((redisBackend codec 0).selects scope (redisKey u t) = true ↔ gone u t)) :
    Spells codec store' fun u t => if gone u t then none else m u t := by
  intro u t hu ht
  dsimp only
  split_ifs with hgone
  · rw [scanAndDelete_clears hscan hpast (by simp) ((hsel u t hu ht).mpr hgone)]
    rfl
  · rw [scanAndDelete_frame hscan (fun hk => hgone ((hsel u t hu ht).mp hk))]
    exact h u t hu ht

/-- `set` writes the pair when it is free. -/
theorem Spells.set {u t : String} (h : Spells codec store m) (hu : PlainText u)
    (ht : PlainText t) (perms : List Json) :
    Spells codec (RedisPermissionCache.set (redisBackend codec 0) now store u t perms .executes)
      (m.after (.set u t perms)) := by
  have hpair := h u t hu ht
  change Spells codec
    (execute now (.populate now) store (.set (redisKey u t) (codec.dumps perms) none true)).2 _
  rw [Reference.after]
  cases hs : store.get? (redisKey u t) with
  | some old =>
    cases hm : m u t with
    | none =>
      rw [hs, hm] at hpair
      cases hpair
    | some held =>
      simp only [execute, hs, Option.isSome_some, if_true]
      exact h
  | none =>
    cases hm : m u t with
    | some held =>
      rw [hs, hm] at hpair
      cases hpair
    | none =>
      simp only [execute, hs, Option.isSome_none, Bool.false_eq_true, if_false]
      exact h.put ht (by simp) fun k hk => by simp [hk]

/-- `write_through` writes it in any case. -/
theorem Spells.writeThrough {u t : String} (h : Spells codec store m) (ht : PlainText t)
    (perms : List Json) :
    Spells codec
      (RedisPermissionCache.writeThrough (redisBackend codec 0) now store u t perms .executes)
      (m.put u t (some perms)) := by
  change Spells codec
    (execute now (.writeThrough now) store (.set (redisKey u t) (codec.dumps perms) none false)).2 _
  cases hs : store.get? (redisKey u t) with
  | none =>
    simp only [execute, hs]
    exact h.put ht (by simp) fun k hk => by simp [hk]
  | some old =>
    simp only [execute, hs, Bool.false_eq_true, if_false]
    exact h.put ht (by simp) fun k hk => by simp [hk]

/-- `invalidate` removes it. -/
theorem Spells.invalidate {u t : String} (h : Spells codec store m) (ht : PlainText t) :
    Spells codec (RedisPermissionCache.invalidate (redisBackend codec 0) store u t .executes).2
      (m.put u t none) := by
  change Spells codec (store.popAll [redisKey u t]) _
  exact h.put ht (by simp) fun k hk => by simp [hk]

end redis

section memory

variable {memory memory' : InMemoryCache.MemoryStore} {m : Reference} {now : ℚ}

/-- Writing one plain pair. -/
theorem HoldsAll.put {u t : String} (h : HoldsAll memory m) (ht : PlainText t)
    {v : Option (List Json)}
    (hsame : memory'.get? (memoryKey u t) = v.map fun perms => (perms, none))
    (hother : ∀ k, k ≠ memoryKey u t → memory'.get? k = memory.get? k) :
    HoldsAll memory' (m.put u t v) := by
  intro u' t' hu' ht'
  rw [Reference.put]
  split_ifs with hpair
  · obtain ⟨rfl, rfl⟩ := hpair
    exact hsame
  · have hkey : memoryKey u' t' ≠ memoryKey u t :=
      fun heq => hpair (lockKey_injective ht'.1 ht.1 heq)
    rw [hother _ hkey]
    exact h u' t' hu' ht'

/-- Nothing is expired, so `get` leaves the dictionary as it is. -/
theorem HoldsAll.get {u t : String} (h : HoldsAll memory m) (hu : PlainText u)
    (ht : PlainText t) : InMemoryCache.get now memory u t = (m u t, memory) := by
  unfold InMemoryCache.get
  rw [h u t hu ht]
  cases m u t with
  | none => rfl
  | some perms => rfl

/-- A `set` of the dictionary is a `set` of the reference. -/
theorem HoldsAll.set {u t : String} (h : HoldsAll memory m) (hu : PlainText u)
    (ht : PlainText t) (perms : List Json) :
    HoldsAll (InMemoryCache.set none now memory u t perms) (m.after (.set u t perms)) := by
  have hpair := h u t hu ht
  unfold InMemoryCache.set
  rw [Reference.after, hpair]
  cases hm : m u t with
  | none => exact h.put ht (by simp [InMemoryCache.expiresAtMs]) fun k hk => by simp [hk]
  | some held => exact h

/-- A `write_through` of the dictionary overwrites in the reference. -/
theorem HoldsAll.writeThrough {u t : String} (h : HoldsAll memory m) (ht : PlainText t)
    (perms : List Json) :
    HoldsAll (InMemoryCache.writeThrough none now memory u t perms) (m.put u t (some perms)) :=
  h.put ht (by simp [InMemoryCache.writeThrough, InMemoryCache.expiresAtMs]) fun k hk => by
    simp [InMemoryCache.writeThrough, hk]

/-- An `invalidate` of the dictionary with both ids erases the pair. -/
theorem HoldsAll.invalidate {u t : String} (h : HoldsAll memory m) (ht : PlainText t) :
    HoldsAll (InMemoryCache.invalidate memory u (some t)) (m.put u t none) :=
  h.put ht (by simp [InMemoryCache.invalidate]) fun k hk => by simp [InMemoryCache.invalidate, hk]

/-- Popping every key that passes a test which tells the pairs apart. -/
theorem HoldsAll.popEach {p : String → Bool} (gone : String → String → Prop)
    [∀ u t, Decidable (gone u t)] (h : HoldsAll memory m)
    (hsel : ∀ u t, PlainText u → PlainText t → (p (memoryKey u t) = true ↔ gone u t)) :
    HoldsAll (InMemoryCache.popEach p memory memory.keys) fun u t =>
      if gone u t then none else m u t := by
  intro u t hu ht
  dsimp only
  rw [InMemoryCache.popEach_keys_get?]
  split_ifs with hp hgone hgone
  · rfl
  · exact absurd ((hsel u t hu ht).mp hp) hgone
  · exact absurd ((hsel u t hu ht).mpr hgone) hp
  · exact h u t hu ht

end memory

section steps

variable {codec : JsonCodec Raw} {c c' : Caches Raw} {e : Exchange}

/-- A step is a call on Redis that does not raise, and the same call on the others. -/
theorem Caches.step_cases (h : c.step codec e = some c') :
    ∃ result store, perform (redisBackend codec 0) c.redis e.redisCall = some (result, store) ∧
      (∀ err, result ≠ .raised err) ∧
      c' = ⟨⟨store, c.redis.clock + 1⟩, memoryAfter e.now c.memory e.call,
        c.reference.after e.call⟩ := by
  unfold Caches.step at h
  cases hp : perform (redisBackend codec 0) c.redis e.redisCall with
  | none =>
    rw [hp] at h
    cases h
  | some ended =>
    obtain ⟨result, store⟩ := ended
    rw [hp] at h
    cases result with
    | raised err => cases h
    | got cached =>
      cases h
      exact ⟨.got cached, store, rfl, fun err => nofun, rfl⟩
    | returned =>
      cases h
      exact ⟨.returned, store, rfl, fun err => nofun, rfl⟩

/-- A bulk invalidation that does not raise has returned a count. -/
theorem invalidateAll_returned {backend : Backend Raw} {scope : CacheStore.Scope}
    {rounds : List ScanRound} {now : ℕ} {store store' : Store Raw} {result : CallResult}
    (h : (RedisPermissionCache.invalidateAll backend now store scope rounds).map
      (fun ended => (CallResult.ofCount ended.1, ended.2)) = some (result, store'))
    (hres : ∀ err, result ≠ .raised err) :
    ∃ count, RedisPermissionCache.invalidateAll backend now store scope rounds =
      some (.ok count, store') := by
  obtain ⟨⟨ended, last⟩, hscan, heq⟩ := Option.map_eq_some_iff.mp h
  cases ended with
  | error err =>
    cases heq
    exact absurd rfl (hres err)
  | ok count =>
    cases heq
    exact ⟨count, hscan⟩

/-- A call keeps the keyspace a spelling of the reference. -/
theorem spells_step {result : CallResult} {store' : Store Raw}
    (h : Spells codec c.redis.store c.reference) (hpast : Past c.redis.clock c.redis.store)
    (hplain : PlainCall e.call)
    (hp : perform (redisBackend codec 0) c.redis e.redisCall = some (result, store'))
    (hres : ∀ err, result ≠ .raised err) : Spells codec store' (c.reference.after e.call) := by
  obtain ⟨call, now, rounds⟩ := e
  cases call with
  | get u t =>
    cases hp
    exact h
  | set u t perms =>
    cases hp
    exact h.set hplain.1 hplain.2 perms
  | writeThrough u t perms =>
    cases hp
    exact h.writeThrough hplain.2 perms
  | invalidate u t =>
    cases hp
    exact h.invalidate hplain.2
  | invalidateUser u =>
    obtain ⟨count, hscan⟩ := invalidateAll_returned hp hres
    exact h.scan (fun u' _ => u' = u) hpast hscan fun u' t' hu' _ =>
      userPattern_redisKey_iff hplain.2 hplain.1 hu'.1 t'
  | invalidateTenant t =>
    obtain ⟨count, hscan⟩ := invalidateAll_returned hp hres
    exact h.scan (fun _ t' => t' = t) hpast hscan fun u' t' _ ht' =>
      tenantPattern_redisKey_iff hplain.2 hplain.1 ht'.1 u'

/-- A call keeps the dictionary in step with the reference. -/
theorem holdsAll_step (h : HoldsAll c.memory c.reference) (hplain : PlainCall e.call) :
    HoldsAll (memoryAfter e.now c.memory e.call) (c.reference.after e.call) := by
  obtain ⟨call, now, rounds⟩ := e
  cases call with
  | get u t =>
    rw [memoryAfter, h.get hplain.1 hplain.2]
    exact h
  | set u t perms => exact h.set hplain.1 hplain.2 perms
  | writeThrough u t perms => exact h.writeThrough hplain.2 perms
  | invalidate u t => exact h.invalidate hplain.2
  | invalidateUser u =>
    exact h.popEach (fun u' _ => u' = u) fun u' t' hu' _ =>
      startsWith_memoryKey_iff hplain.1 hu'.1 t'
  | invalidateTenant t =>
    exact h.popEach (fun _ t' => t' = t) fun u' t' _ ht' =>
      endsWith_memoryKey_iff hplain.1 ht'.1 u'

/-- Agreement is kept by every call. -/
theorem agree_step (h : Agree codec c) (hs : c.step codec e = some c')
    (hplain : PlainCall e.call) : Agree codec c' := by
  obtain ⟨result, store, hp, hres, rfl⟩ := Caches.step_cases hs
  have hcall : callStep (redisBackend codec 0) c.redis e.redisCall =
      some ⟨store, c.redis.clock + 1⟩ := by
    rw [callStep, hp]
    rfl
  exact ⟨past_step h.past hcall, spells_step h.redis h.past hplain hp hres,
    holdsAll_step h.memory hplain⟩

/-- Empty caches agree. -/
theorem agree_empty : Agree codec Caches.empty where
  past := start_past .empty
  redis u t _ _ := by simp [Caches.empty, Server.start]
  memory u t _ _ := by simp [Caches.empty]

/-- Caches that agree give the answer of the reference. -/
theorem Agree.answers (h : Agree codec c) {u t : String} (hu : PlainText u) (ht : PlainText t)
    (now : ℚ) :
    RedisPermissionCache.get (redisBackend codec 0) c.redis.store u t .executes =
        .ok (c.reference u t) ∧
      (InMemoryCache.get now c.memory u t).1 = c.reference u t := by
  refine ⟨?_, by rw [h.memory.get hu ht]⟩
  have hraw := h.redis u t hu ht
  change decodeGet (redisBackend codec 0)
    (.value ((c.redis.store.get? (redisKey u t)).map Entry.raw)) = _
  rw [hraw]
  cases c.reference u t with
  | none => rfl
  | some perms =>
    have hloads : (redisBackend codec 0).loads (codec.dumps perms) = .ok (.arr perms) :=
      codec.loads_dumps perms
    change decodeGet (redisBackend codec 0) (.value (some (codec.dumps perms))) = _
    rw [decodeGet, hloads]

/-- A scan can always come to its end: with every selected key on its first page. -/
theorem exists_rounds (backend : Backend Raw) (now : ℕ) (store : Store Raw)
    (scope : CacheStore.Scope) : ∃ rounds count store',
      RedisPermissionCache.invalidateAll backend now store scope rounds =
        some (.ok count, store') := by
  have hpage : PageAllowed backend now ⟨none, []⟩ store scope 0
      (store.keys.filter (backend.selects scope)) := by
    refine ⟨fun k hk => (List.mem_filter.mp hk).2, fun _ b hb hsel _ => ?_⟩
    have hkey : b.1 ∈ store.keys := by
      rw [OrderedDict.mem_keys, OrderedDict.mem_entries.mp hb]
      rfl
    exact List.mem_append_right _ (List.mem_filter.mpr ⟨hkey, hsel⟩)
  refine ⟨[⟨some (0, store.keys.filter (backend.selects scope)), .executes⟩], ?_⟩
  simp only [RedisPermissionCache.invalidateAll, scanAndDelete, if_pos hpage]
  split_ifs
  · exact ⟨_, _, rfl⟩
  · exact ⟨_, _, rfl⟩

/-- So every call has a step, with some pages. -/
theorem exists_step (codec : JsonCodec Raw) (c : Caches Raw) (call : Call) (now : ℚ) :
    ∃ rounds c', c.step codec ⟨call, now, rounds⟩ = some c' := by
  have hscan : ∀ scope, ∃ rounds count store',
      RedisPermissionCache.invalidateAll (redisBackend codec 0) c.redis.clock c.redis.store scope
        rounds = some (.ok count, store') := exists_rounds _ _ _
  have hreturned : ∀ (e : Exchange) (store : Store Raw),
      perform (redisBackend codec 0) c.redis e.redisCall = some (.returned, store) →
        ∃ c', c.step codec e = some c' := by
    intro e store hp
    rw [Caches.step, hp]
    exact ⟨_, rfl⟩
  cases call with
  | get u t => exact ⟨[], _, rfl⟩
  | set u t perms => exact ⟨[], _, rfl⟩
  | writeThrough u t perms => exact ⟨[], _, rfl⟩
  | invalidate u t => exact ⟨[], _, rfl⟩
  | invalidateUser u =>
    obtain ⟨rounds, count, store', h⟩ := hscan (.user u)
    exact ⟨rounds, hreturned ⟨.invalidateUser u, now, rounds⟩ store' (by
      simp only [Exchange.redisCall, perform, h, Option.map_some, CallResult.ofCount])⟩
  | invalidateTenant t =>
    obtain ⟨rounds, count, store', h⟩ := hscan (.tenant t)
    exact ⟨rounds, hreturned ⟨.invalidateTenant t, now, rounds⟩ store' (by
      simp only [Exchange.redisCall, perform, h, Option.map_some, CallResult.ofCount])⟩

/-- After every sequence of calls about ids without colons and pattern characters, in
whatever pages the scans come, every `get` gives the answer of the reference map from
`RedisPermissionCache` and from `InMemoryPermissionCache`. -/
theorem caches_agree {es : List Exchange}
    (hrun : run (Caches.step codec) Caches.empty es = some c)
    (hplain : ∀ e ∈ es, PlainCall e.call) {u t : String} (hu : PlainText u) (ht : PlainText t)
    (now : ℚ) :
    RedisPermissionCache.get (redisBackend codec 0) c.redis.store u t .executes =
        .ok (c.reference u t) ∧
      (InMemoryCache.get now c.memory u t).1 = c.reference u t := by
  have hagree : Agree codec c := run_invariant (Agree codec)
    (fun _ _ _ h hs hp => agree_step h hs hp) hrun (along_of_forall hplain) agree_empty
  exact hagree.answers hu ht now

end steps

/-- Lists for three pairs, and an invalidation of one user that needs two pages. -/
def someCalls : List Exchange :=
  [⟨.set "user-1" "tenant-1" [.str "helios:members:view"], 0, []⟩,
    ⟨.set "user-1" "tenant-2" [], 1, []⟩,
    ⟨.writeThrough "user-10" "tenant-1" [.str "helios:members:manage"], 2, []⟩,
    ⟨.set "user-10" "tenant-1" [], 3, []⟩,
    ⟨.invalidateUser "user-1", 4, [⟨some (7, [redisKey "user-1" "tenant-2"]), .executes⟩,
      ⟨some (0, [redisKey "user-1" "tenant-1"]), .executes⟩]⟩]

/-- The other user keeps the list that was written through. -/
theorem caches_agree_twoPages : ∃ c : Caches ByteArray,
    run (Caches.step utf8Json.toCodec) Caches.empty someCalls = some c ∧
      RedisPermissionCache.get (redisBackend utf8Json.toCodec 0) c.redis.store "user-10" "tenant-1"
          .executes = .ok (some [.str "helios:members:manage"]) ∧
      (InMemoryCache.get 5 c.memory "user-10" "tenant-1").1 =
        some [.str "helios:members:manage"] :=
  have hplain : ∀ e ∈ someCalls, PlainCall e.call := by
    simp [someCalls, PlainCall, PlainText, ColonFree, GlobFree, isMetaChar]
  have hu : PlainText "user-10" := by simp [PlainText, ColonFree, GlobFree, isMetaChar]
  have ht : PlainText "tenant-1" := by simp [PlainText, ColonFree, GlobFree, isMetaChar]
  have hrun : run (Caches.step utf8Json.toCodec) Caches.empty someCalls = some _ := rfl
  ⟨_, hrun, caches_agree hrun hplain hu ht 5⟩

end HeliosPermissions.AgreeingCaches
