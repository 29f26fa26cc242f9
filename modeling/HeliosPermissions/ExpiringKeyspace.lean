import HeliosPermissions.AgreeingCaches
import HeliosPermissions.ExpiringMaps

/-!
# The Redis cache with a TTL

With `ttl_seconds` set, `set` and `write_through` pass it as `ex`, and the server drops a
key when its time is up. It promises to do so within a millisecond of the deadline, so
what it does at the deadline itself is open here. Times are milliseconds of the server's
clock, and a call takes none. Whatever fails, no list is read after its time; and when
nothing fails, the cache is the map in which every entry lives for its time.
-/

namespace HeliosPermissions.ExpiringKeyspace

open JsonValues CacheKeys CacheStore ClientWorld ExpiringMaps PartialRuns PermissionCaches
open RevocationEffects
open RedisPermissionCache (ScanRound invalidateAll)

/-- When the server takes a key with a deadline for expired. -/
structure ExpiryRule where
  /-- With this deadline, at this time. -/
  gone : ℕ → ℕ → Bool
  /-- Before its deadline a key is there. -/
  before : ∀ {deadline now}, now < deadline → gone deadline now = false
  /-- After its deadline a key is gone. -/
  after : ∀ {deadline now}, deadline < now → gone deadline now = true

namespace ExpiryRule

variable (rule : ExpiryRule) {deadline now later : ℕ}

/-- A key is gone at its deadline at the earliest. -/
theorem le_of_gone (h : rule.gone deadline now = true) : deadline ≤ now := by
  by_contra hlt
  have hfalse := rule.before (Nat.lt_of_not_le hlt)
  rw [h] at hfalse
  cases hfalse

/-- A key is there until its deadline at the latest. -/
theorem le_of_not_gone (h : rule.gone deadline now = false) : now ≤ deadline := by
  by_contra hlt
  have htrue := rule.after (Nat.lt_of_not_le hlt)
  rw [h] at htrue
  cases htrue

/-- What has expired stays so. -/
theorem gone_later (h : rule.gone deadline now = true) (hle : now ≤ later) :
    rule.gone deadline later = true := by
  have hdeadline := rule.le_of_gone h
  by_cases heq : later = now
  · rwa [heq]
  · exact rule.after (by omega)

end ExpiryRule

variable {Raw : Type}

/-- Whether what was written at one time with this `ex` is there at another. -/
def lives (rule : ExpiryRule) (ex : Option ℕ) (written now : ℕ) : Bool :=
  !ex.any fun seconds => rule.gone (written + 1000 * seconds) now

/-- Whether the server drops an entry. -/
def expired (rule : ExpiryRule) (now : ℕ) (entry : Entry Raw) : Bool :=
  !lives rule entry.ex entry.written now

/-- The keyspace that a command finds. -/
def sweep (rule : ExpiryRule) (now : ℕ) (store : Store Raw) : Store Raw :=
  store.popWhere fun k => (store.get? k).any (expired rule now)

/-- A call on the cache, and when it is made. -/
structure TimedCall where
  /-- When it is made. -/
  time : ℕ
  /-- The method called, with how its commands end. -/
  call : CacheCall

/-- The call on the server, whose clock does not run backwards. -/
def timedStep (rule : ExpiryRule) (backend : Backend Raw) (s : Server Raw) (c : TimedCall) :
    Option (Server Raw) :=
  if s.clock ≤ c.time then
    (perform backend ⟨sweep rule c.time s.store, c.time⟩ c.call).map fun ended =>
      ⟨ended.2, c.time⟩
  else none

/-- `get` at a time. -/
def getAt (rule : ExpiryRule) (backend : Backend Raw) (s : Server Raw) (now : ℕ)
    (userId tenantId : String) (fate : CommandFate) : Except PyError (Option (List Json)) :=
  RedisPermissionCache.get backend (sweep rule now s.store) userId tenantId fate

/-- The call is to store this list under this key. -/
def Stores (backend : Backend Raw) (k : String) (perms : List Json) : CacheCall → Prop
  | .set u t perms' _ => backend.key u t = k ∧ perms' = perms
  | .writeThrough u t perms' _ => backend.key u t = k ∧ perms' = perms
  | _ => False

section sweeping

variable {rule : ExpiryRule} {now later : ℕ} {store : Store Raw} {k : String}

/-- A sweep removes the expired entries. -/
theorem get?_sweep : (sweep rule now store).get? k =
    (store.get? k).bind fun entry => if expired rule now entry then none else some entry := by
  rw [sweep, OrderedDict.get?_popWhere]
  cases store.get? k with
  | none => simp
  | some entry => simp

/-- What is left of the keyspace was there and is not over. -/
theorem get?_sweep_eq_some {entry : Entry Raw} :
    (sweep rule now store).get? k = some entry ↔
      store.get? k = some entry ∧ expired rule now entry = false := by
  rw [get?_sweep]
  cases store.get? k with
  | none => simp
  | some old =>
    by_cases hexpired : expired rule now old = true
    · simp only [Option.bind_some, hexpired, if_true, Option.some.injEq]
      constructor
      · intro h
        cases h
      · rintro ⟨rfl, hlive⟩
        rw [hexpired] at hlive
        cases hlive
    · have hlive : expired rule now old = false := Bool.eq_false_iff.mpr hexpired
      simp only [Option.bind_some, hlive, Bool.false_eq_true, if_false, Option.some.injEq]
      constructor
      · rintro rfl
        exact ⟨rfl, hlive⟩
      · exact And.left

/-- What has expired stays expired. -/
theorem expired_later {entry : Entry Raw} (h : expired rule now entry = true)
    (hle : now ≤ later) : expired rule later entry = true := by
  unfold expired lives at h ⊢
  rw [Bool.not_not] at h ⊢
  cases hex : entry.ex with
  | none =>
    rw [hex] at h
    cases h
  | some seconds =>
    rw [hex] at h
    exact rule.gone_later h hle

/-- An earlier sweep makes no difference to a later one. -/
theorem get?_sweep_sweep (hle : now ≤ later) :
    (sweep rule later (sweep rule now store)).get? k = (sweep rule later store).get? k := by
  rw [get?_sweep, get?_sweep, get?_sweep]
  cases store.get? k with
  | none => rfl
  | some entry =>
    by_cases hexpired : expired rule now entry = true
    · simp [hexpired, expired_later hexpired hle]
    · simp [hexpired]

end sweeping

section records

variable {rule : ExpiryRule} {backend : Backend Raw} {s s' : Server Raw} {c : TimedCall}
  {past : List TimedCall}

/-- What is in the keyspace: lists that earlier calls were to store, with their times. -/
def Recorded (backend : Backend Raw) (past : List TimedCall) (store : Store Raw) : Prop :=
  ∀ k entry, store.get? k = some entry → ∃ c ∈ past, ∃ perms, Stores backend k perms c.call ∧
    entry.raw = backend.dumps perms ∧ entry.written = c.time ∧ entry.ex = backend.ex

/-- Entries that are taken away, and at most one that the last call stores. -/
theorem Recorded.next {store store' : Store Raw} (h : Recorded backend past store)
    (hstore : ∀ k entry, store'.get? k = some entry → store.get? k = some entry ∨
      ∃ perms, Stores backend k perms c.call ∧ entry.raw = backend.dumps perms ∧
        entry.written = c.time ∧ entry.ex = backend.ex) :
    Recorded backend (past ++ [c]) store' := by
  intro k entry hentry
  rcases hstore k entry hentry with hold | ⟨perms, hstores, hrest⟩
  · obtain ⟨earlier, hearlier, hrecord⟩ := h k entry hold
    exact ⟨earlier, List.mem_append_left _ hearlier, hrecord⟩
  · exact ⟨c, List.mem_append_right _ (List.mem_singleton.mpr rfl), perms, hstores, hrest⟩

/-- A sweep keeps the record of what is left. -/
theorem Recorded.sweep {store : Store Raw} (h : Recorded backend past store) (now : ℕ) :
    Recorded backend past (sweep rule now store) :=
  fun k entry hentry => h k entry (get?_sweep_eq_some.mp hentry).1

/-- A SET writes its key, or nothing. -/
theorem send_set_cases {now : ℕ} {origin : Origin} {store : Store Raw} {k k' : String} {raw : Raw}
    {ex : Option ℕ} {nx : Bool} {fate : CommandFate} {entry : Entry Raw}
    (h : (send now origin store (.set k' raw ex nx) fate).2.get? k = some entry) :
    store.get? k = some entry ∨ k' = k ∧ entry.raw = raw ∧ entry.written = now ∧ entry.ex = ex := by
  rcases send_get? now origin store (.set k' raw ex nx) fate k with
    hkeep | ⟨raw', ex', nx', hcmd, hnew⟩ | ⟨ks, hcmd, -⟩
  · exact Or.inl (hkeep.symm.trans h)
  · cases hcmd
    rw [hnew] at h
    cases h
    exact Or.inr ⟨rfl, rfl, rfl, rfl⟩
  · cases hcmd

/-- A step is the call on what the clock leaves of the keyspace. -/
theorem timedStep_cases (h : timedStep rule backend s c = some s') :
    s.clock ≤ c.time ∧ ∃ result, perform backend ⟨sweep rule c.time s.store, c.time⟩ c.call =
      some (result, s'.store) ∧ s'.clock = c.time := by
  unfold timedStep at h
  split_ifs at h with hclock
  obtain ⟨⟨result, store⟩, hp, rfl⟩ := Option.map_eq_some_iff.mp h
  exact ⟨hclock, result, hp, rfl⟩

/-- An entry that is still there was there. -/
theorem kept_of_less {store store' : Store Raw} {k : String} {entry : Entry Raw}
    (h : store'.get? k = store.get? k ∨ store'.get? k = none)
    (hentry : store'.get? k = some entry) : store.get? k = some entry := by
  rcases h with hsame | hnone
  · rw [← hsame, hentry]
  · rw [hnone] at hentry
    cases hentry

/-- However a call ends, it leaves records. -/
theorem recorded_perform {store store' : Store Raw} {result : CallResult}
    (h : Recorded backend past store)
    (hp : perform backend ⟨store, c.time⟩ c.call = some (result, store')) :
    Recorded backend (past ++ [c]) store' := by
  refine h.next fun k entry hentry => ?_
  obtain ⟨time, call⟩ := c
  cases call with
  | get u t fate =>
    cases hp
    exact Or.inl hentry
  | set u t perms fate =>
    cases hp
    rcases send_set_cases hentry with hold | ⟨hkey, hrest⟩
    · exact Or.inl hold
    · exact Or.inr ⟨perms, ⟨hkey, rfl⟩, hrest⟩
  | writeThrough u t perms fate =>
    cases hp
    rcases send_set_cases hentry with hold | ⟨hkey, hrest⟩
    · exact Or.inl hold
    · exact Or.inr ⟨perms, ⟨hkey, rfl⟩, hrest⟩
  | invalidate u t fate =>
    have hstore : store' = (send 0 .initial store (.delete [backend.key u t]) fate).2 := by
      rw [← RedisPermissionCache.invalidate_store]
      cases hp
      rfl
    have hless := RedisPermissionCache.send_delete_get? 0 store [backend.key u t] fate k
    rw [← hstore] at hless
    exact Or.inl (kept_of_less hless hentry)
  | invalidateUser u rounds =>
    obtain ⟨⟨ended, last⟩, hscan, heq⟩ := Option.map_eq_some_iff.mp hp
    cases heq
    exact Or.inl (kept_of_less (scanAndDelete_get? hscan k) hentry)
  | invalidateTenant t rounds =>
    obtain ⟨⟨ended, last⟩, hscan, heq⟩ := Option.map_eq_some_iff.mp hp
    cases heq
    exact Or.inl (kept_of_less (scanAndDelete_get? hscan k) hentry)

/-- The keyspace holds records after every run, whatever fails in it. -/
theorem recorded_run {calls : List TimedCall}
    (hrun : run (timedStep rule backend) (Server.start .empty) calls = some s) :
    Recorded backend calls s.store := by
  have hstep : ∀ past s c s', Recorded backend past s.store → timedStep rule backend s c = some s' →
      Recorded backend (past ++ [c]) s'.store := by
    intro past s c s' hrecorded hs
    obtain ⟨-, result, hp, -⟩ := timedStep_cases hs
    exact recorded_perform (hrecorded.sweep c.time) hp
  have hstart : Recorded backend [] (Server.start .empty : Server Raw).store := by
    intro k entry hentry
    cases hentry
  exact run_history hstep hrun hstart

/-- No list is older than the TTL: in every run of calls on an empty keyspace, at times that do
not run backwards and with any commands failing, executed or not, a list that `get` returns
was to be stored under its key by a call that is at most `ttl_seconds` in the past. -/
theorem ttl_bounds_age {calls : List TimedCall} (httl : 0 < backend.ttlSeconds)
    (hrun : run (timedStep rule backend) (Server.start .empty) calls = some s) {now : ℕ}
    {u t : String} {fate : CommandFate} {perms : List Json}
    (hget : getAt rule backend s now u t fate = .ok (some perms)) :
    ∃ c ∈ calls, Stores backend (backend.key u t) perms c.call ∧
      now ≤ c.time + 1000 * backend.ttlSeconds := by
  obtain ⟨entry, hentry, hloads⟩ := get_returns_entry hget
  obtain ⟨hstored, hlive⟩ := get?_sweep_eq_some.mp hentry
  obtain ⟨c, hc, perms', hstores, hraw, hwritten, hex⟩ := recorded_run hrun _ _ hstored
  have hsame : perms' = perms := by
    have hdecoded := backend.loads_dumps perms'
    rw [← hraw, hloads] at hdecoded
    exact (Json.arr.inj (Except.ok.inj hdecoded)).symm
  rw [expired, lives, hex, hwritten, Backend.ex, if_pos httl, Bool.not_not] at hlive
  refine ⟨c, hc, ?_, rule.le_of_not_gone hlive⟩
  rwa [← hsame]

end records

section exactness

variable {rule : ExpiryRule} {codec : JsonCodec Raw} {ttlSeconds : ℕ} {s s' : Server Raw}
  {store store' : Store Raw} {now later : ℕ} {u t : String}

/-- The reference: lists for pairs of ids, with the times at which they were written. -/
abbrev Reference := Stamped (String × String) ℕ (List Json)

/-- A call where nothing fails, when it is made, and the pages that Redis returns for it. -/
structure Exchange where
  /-- When it is made. -/
  time : ℕ
  /-- The method called. -/
  call : AgreeingCaches.Call
  /-- The pages of Redis, when the call scans. -/
  rounds : List ScanRound

/-- The call as it goes to Redis. -/
def Exchange.redisCall (e : Exchange) : TimedCall :=
  ⟨e.time, (⟨e.call, 0, e.rounds⟩ : AgreeingCaches.Exchange).redisCall⟩

/-- What a call makes of the reference. -/
def referenceAfter (present : ℕ → ℕ → Bool) (m : Reference) (now : ℕ) :
    AgreeingCaches.Call → Reference
  | .get _ _ => m
  | .set u t perms => m.writeNew present now now (u, t) perms
  | .writeThrough u t perms => m.write now (u, t) perms
  | .invalidate u t => m.erase fun pair => pair = (u, t)
  | .invalidateUser u => m.erase fun pair => pair.1 = u
  | .invalidateTenant t => m.erase fun pair => pair.2 = t

/-- The server and the reference. -/
structure Caches (Raw : Type) where
  /-- The Redis server. -/
  redis : Server Raw
  /-- The reference map. -/
  reference : Reference

/-- The call on both. There is no step when Redis fails, or when the clock runs backwards. -/
def Caches.step (rule : ExpiryRule) (backend : Backend Raw) (c : Caches Raw) (e : Exchange) :
    Option (Caches Raw) :=
  if c.redis.clock ≤ e.time then
    match perform backend ⟨sweep rule e.time c.redis.store, e.time⟩ e.redisCall.call with
    | some (.got _, store) | some (.returned, store) => some ⟨⟨store, e.time⟩,
        referenceAfter (lives rule backend.ex) c.reference e.time e.call⟩
    | _ => none
  else none

/-- Both ids are without colons and pattern characters. -/
def PlainPair (pair : String × String) : Prop :=
  AgreeingCaches.PlainText pair.1 ∧ AgreeingCaches.PlainText pair.2

/-- What stands in the keyspace for a pair, at a time. -/
def shown (rule : ExpiryRule) (store : Store Raw) (now : ℕ) (pair : String × String) :
    Option Raw :=
  ((sweep rule now store).get? (redisKey pair.1 pair.2)).map Entry.raw

/-- The keyspace spells the reference from the last call on. -/
def Spells (rule : ExpiryRule) (codec : JsonCodec Raw) (ex : Option ℕ) (c : Caches Raw) : Prop :=
  AgreeFrom PlainPair c.redis.clock (shown rule c.redis.store)
    ((c.reference.map codec.dumps).presentAt (lives rule ex))

/-- What a pair shows depends on its own key only. -/
theorem shown_congr {pair : String × String}
    (h : store'.get? (redisKey pair.1 pair.2) = store.get? (redisKey pair.1 pair.2)) :
    shown rule store' now pair = shown rule store now pair := by
  rw [shown, shown, get?_sweep, get?_sweep, h]

/-- An absent key shows nothing. -/
theorem shown_none {pair : String × String} (h : store.get? (redisKey pair.1 pair.2) = none) :
    shown rule store now pair = none := by
  rw [shown, get?_sweep, h]
  rfl

/-- An entry shows its value while it lives. -/
theorem shown_entry {pair : String × String} {entry : Entry Raw}
    (h : store.get? (redisKey pair.1 pair.2) = some entry) :
    shown rule store now pair =
      if lives rule entry.ex entry.written now then some entry.raw else none := by
  rw [shown, get?_sweep, h, Option.bind_some]
  unfold expired
  cases lives rule entry.ex entry.written now <;> simp

/-- A sweep hides nothing that would be shown later. -/
theorem shown_sweep (hle : now ≤ later) (pair : String × String) :
    shown rule (sweep rule now store) later pair = shown rule store later pair := by
  rw [shown, shown, get?_sweep_sweep hle]

/-- Plain pairs have keys of their own. -/
theorem plainPair_key {pair pair' : String × String} (h : PlainPair pair) (h' : PlainPair pair') :
    redisKey pair.1 pair.2 = redisKey pair'.1 pair'.2 ↔ pair = pair' := by
  rw [AgreeingCaches.redisKey_eq_pair h'.2 h.2]
  exact Prod.ext_iff.symm

variable {ex : Option ℕ} {m : Reference}

/-- The pages of a scan hold the keys that are there from its start. -/
theorem past_sweep (h : Past s.clock s.store) (hle : s.clock ≤ now) :
    Past now (sweep rule now s.store) :=
  fun k entry hentry => (h k entry (get?_sweep_eq_some.mp hentry).1).trans hle

/-- Both sides after a pair is written. -/
theorem spells_write {entry : Entry Raw} {perms : List Json} (hpair : PlainPair (u, t))
    (h : AgreeFrom PlainPair now (shown rule store) ((m.map codec.dumps).presentAt (lives rule ex)))
    (hsame : store'.get? (redisKey u t) = some entry)
    (hentry : entry.raw = codec.dumps perms ∧ entry.written = now ∧ entry.ex = ex)
    (hother : ∀ k, k ≠ redisKey u t → store'.get? k = store.get? k) :
    AgreeFrom PlainPair now (shown rule store')
      (((m.write now (u, t) perms).map codec.dumps).presentAt (lives rule ex)) := by
  obtain ⟨hraw, hwritten, hex⟩ := hentry
  rw [Stamped.map_write]
  refine h.write le_rfl (fun later _ => ?_) fun later pair hplain hne => ?_
  · have hshown : shown rule store' later (u, t) =
        if lives rule entry.ex entry.written later then some entry.raw else none :=
      shown_entry hsame
    rwa [hraw, hwritten, hex] at hshown
  · refine shown_congr (hother _ fun hkey => hne ?_)
    exact (plainPair_key hplain hpair).mp hkey

/-- Both sides after pairs are removed. -/
theorem spells_erase (gone : String × String → Prop) [DecidablePred gone]
    (h : AgreeFrom PlainPair now (shown rule store) ((m.map codec.dumps).presentAt (lives rule ex)))
    (hgone : ∀ pair, PlainPair pair → gone pair →
      store'.get? (redisKey pair.1 pair.2) = none)
    (hkept : ∀ pair, PlainPair pair → ¬gone pair →
      store'.get? (redisKey pair.1 pair.2) = store.get? (redisKey pair.1 pair.2)) :
    AgreeFrom PlainPair now (shown rule store')
      (((m.erase gone).map codec.dumps).presentAt (lives rule ex)) := by
  rw [Stamped.map_erase]
  refine h.erase gone fun later pair hplain => ?_
  split_ifs with hpair
  · exact shown_none (hgone pair hplain hpair)
  · exact shown_congr (hkept pair hplain hpair)

/-- No call makes a key exist since a time to come. -/
theorem past_perform {backend : Backend Raw} {call : CacheCall} {result : CallResult}
    (h : Past s.clock s.store) (hp : perform backend s call = some (result, store')) :
    Past s.clock store' := by
  refine perform_keeps (P := Past s.clock) (fun _ origin cmd fate h => h.send origin cmd fate)
    (fun st st' hst hless k entry hentry => ?_) hp h
  exact hst k entry (kept_of_less (hless k) hentry)

variable {c c' : Caches Raw} {e : Exchange}

/-- A step is a call at its time that does not raise, and the same call on the reference. -/
theorem Caches.step_cases {backend : Backend Raw} (h : c.step rule backend e = some c') :
    c.redis.clock ≤ e.time ∧ ∃ result store,
      perform backend ⟨sweep rule e.time c.redis.store, e.time⟩ e.redisCall.call =
        some (result, store) ∧ (∀ err, result ≠ .raised err) ∧
      c' = ⟨⟨store, e.time⟩, referenceAfter (lives rule backend.ex) c.reference e.time e.call⟩ := by
  unfold Caches.step at h
  split_ifs at h with hclock
  refine ⟨hclock, ?_⟩
  cases hp : perform backend ⟨sweep rule e.time c.redis.store, e.time⟩ e.redisCall.call with
  | none =>
    rw [hp] at h
    cases h
  | some ended =>
    obtain ⟨result, store⟩ := ended
    rw [hp] at h
    cases result with
    | raised err => cases h
    | got cached =>
      cases h
      exact ⟨.got cached, store, rfl, nofun, rfl⟩
    | returned =>
      cases h
      exact ⟨.returned, store, rfl, nofun, rfl⟩

/-- A bulk invalidation on both sides. -/
theorem spells_scan {scope : CacheStore.Scope} {rounds : List ScanRound} {count : ℕ}
    (gone : String × String → Prop) [DecidablePred gone]
    (h : AgreeFrom PlainPair now (shown rule store) ((m.map codec.dumps).presentAt (lives rule ex)))
    (hpast : Past now store)
    (hscan : invalidateAll (redisBackend codec ttlSeconds) now store scope rounds =
      some (.ok count, store'))
    (hselects : ∀ pair, PlainPair pair →
      ((redisBackend codec ttlSeconds).selects scope (redisKey pair.1 pair.2) = true ↔ gone pair)) :
    AgreeFrom PlainPair now (shown rule store')
      (((m.erase gone).map codec.dumps).presentAt (lives rule ex)) := by
  refine spells_erase gone h (fun pair hplain hgone => ?_) fun pair hplain hkept => ?_
  · exact scanAndDelete_clears hscan hpast (by simp) ((hselects pair hplain).mpr hgone)
  · exact scanAndDelete_frame hscan fun hk => hkept ((hselects pair hplain).mp hk)

/-- `set` on both sides: the entry that is there is kept, and else one is written. -/
theorem spells_set {perms : List Json} (hpair : PlainPair (u, t))
    (h : AgreeFrom PlainPair now (shown rule store) ((m.map codec.dumps).presentAt (lives rule ex)))
    (hswept : ∀ k, (sweep rule now store).get? k = store.get? k)
    (hex : (redisBackend codec ttlSeconds).ex = ex) :
    AgreeFrom PlainPair now
      (shown rule (RedisPermissionCache.set (redisBackend codec ttlSeconds) now store u t perms
        .executes))
      (((m.writeNew (lives rule ex) now now (u, t) perms).map codec.dumps).presentAt
        (lives rule ex)) := by
  have hnow := h now le_rfl (u, t) hpair
  rw [Stamped.presentAt_map] at hnow
  change AgreeFrom PlainPair now (shown rule (execute now (.populate now) store
    (.set (redisKey u t) (codec.dumps perms) (redisBackend codec ttlSeconds).ex true)).2) _
  cases hstore : store.get? (redisKey u t) with
  | some old =>
    have hpresent : (m.presentAt (lives rule ex) now (u, t)).isSome := by
      rw [shown, hswept, hstore] at hnow
      rw [← Option.isSome_map, ← hnow]
      rfl
    rw [Stamped.writeNew_of_present hpresent]
    simp only [execute, hstore, if_true]
    exact h
  | none =>
    have habsent : m.presentAt (lives rule ex) now (u, t) = none := by
      rw [shown, hswept, hstore] at hnow
      exact Option.map_eq_none_iff.mp hnow.symm
    rw [Stamped.writeNew_of_absent habsent, hex]
    simp only [execute, hstore]
    exact spells_write hpair h (OrderedDict.get?_set _ _ _ _ |>.trans (if_pos rfl))
      ⟨rfl, rfl, rfl⟩ fun k hk => by simp [hk]

/-- `write_through` on both sides. -/
theorem spells_writeThrough {perms : List Json} (hpair : PlainPair (u, t))
    (h : AgreeFrom PlainPair now (shown rule store) ((m.map codec.dumps).presentAt (lives rule ex)))
    (hex : (redisBackend codec ttlSeconds).ex = ex) :
    AgreeFrom PlainPair now
      (shown rule (RedisPermissionCache.writeThrough (redisBackend codec ttlSeconds) now store u t
        perms .executes))
      (((m.write now (u, t) perms).map codec.dumps).presentAt (lives rule ex)) := by
  change AgreeFrom PlainPair now (shown rule (execute now (.writeThrough now) store
    (.set (redisKey u t) (codec.dumps perms) (redisBackend codec ttlSeconds).ex false)).2) _
  rw [hex]
  obtain ⟨since, hnew⟩ := execute_overwrite now (.writeThrough now) store (redisKey u t)
    (codec.dumps perms) ex
  refine spells_write hpair h hnew ⟨rfl, rfl, rfl⟩ fun k hk => ?_
  exact send_frame now _ store _ .executes hk (Or.inl ⟨_, _, _, rfl⟩)

/-- Every call keeps the keyspace a spelling of the reference. -/
theorem spells_step (h : Spells rule codec (redisBackend codec ttlSeconds).ex c)
    (hpast : Past c.redis.clock c.redis.store) (hplain : AgreeingCaches.PlainCall e.call)
    (hs : c.step rule (redisBackend codec ttlSeconds) e = some c') :
    Spells rule codec (redisBackend codec ttlSeconds).ex c' ∧
      Past c'.redis.clock c'.redis.store := by
  obtain ⟨hclock, result, store, hp, hresult, rfl⟩ := Caches.step_cases hs
  have hfound : Past e.time (sweep rule e.time c.redis.store) := past_sweep hpast hclock
  refine ⟨?_, past_perform (s := ⟨sweep rule e.time c.redis.store, e.time⟩) hfound hp⟩
  -- time has passed since the last call, and the keys that are over have gone
  have hswept : AgreeFrom PlainPair e.time (shown rule (sweep rule e.time c.redis.store))
      ((c.reference.map codec.dumps).presentAt (lives rule (redisBackend codec ttlSeconds).ex)) :=
    (AgreeFrom.later h hclock).congr_left fun later hlater pair _ => shown_sweep hlater pair
  have htwice : ∀ k, (sweep rule e.time (sweep rule e.time c.redis.store)).get? k =
      (sweep rule e.time c.redis.store).get? k := fun k => get?_sweep_sweep le_rfl
  obtain ⟨time, call, rounds⟩ := e
  cases call with
  | get u t =>
    cases hp
    exact hswept
  | set u t perms =>
    cases hp
    exact spells_set hplain hswept htwice rfl
  | writeThrough u t perms =>
    cases hp
    exact spells_writeThrough hplain hswept rfl
  | invalidate u t =>
    have hids : PlainPair (u, t) := hplain
    cases hp
    change AgreeFrom PlainPair time
      (shown rule ((sweep rule time c.redis.store).popAll [redisKey u t])) _
    refine spells_erase _ hswept (fun pair _ hpair => ?_) fun pair hpair' hne => ?_
    · rw [hpair]
      simp
    · have hkey : redisKey pair.1 pair.2 ≠ redisKey u t :=
        fun hkey => hne ((plainPair_key hpair' hids).mp hkey)
      simp [hkey]
  | invalidateUser u =>
    obtain ⟨count, hscan⟩ := AgreeingCaches.invalidateAll_returned hp hresult
    exact spells_scan _ hswept hfound hscan fun pair hpair =>
      userPattern_redisKey_iff hplain.2 hplain.1 hpair.1.1 pair.2
  | invalidateTenant t =>
    obtain ⟨count, hscan⟩ := AgreeingCaches.invalidateAll_returned hp hresult
    exact spells_scan _ hswept hfound hscan fun pair hpair =>
      tenantPattern_redisKey_iff hplain.2 hplain.1 hpair.2.1 pair.1

/-- Both empty. -/
def Caches.empty : Caches Raw := ⟨.start .empty, fun _ => none⟩

/-- So it is one after every run. -/
theorem spells_run {es : List Exchange}
    (hrun : run (Caches.step rule (redisBackend codec ttlSeconds)) Caches.empty es = some c)
    (hplain : ∀ e ∈ es, AgreeingCaches.PlainCall e.call) :
    Spells rule codec (redisBackend codec ttlSeconds).ex c ∧ Past c.redis.clock c.redis.store := by
  refine run_invariant (C := fun _ e _ => AgreeingCaches.PlainCall e.call)
    (fun c => Spells rule codec (redisBackend codec ttlSeconds).ex c ∧
      Past c.redis.clock c.redis.store)
    (fun _ _ _ h hs hp => spells_step h.1 h.2 hp hs) hrun (along_of_forall hplain) ⟨?_, ?_⟩
  · exact fun later _ pair _ => shown_none rfl
  · exact start_past .empty

/-- With a TTL or without, `RedisPermissionCache` is an exact map of pairs: after every run of
calls that do not fail, at times that do not run backwards, on ids without colons and
pattern characters and however the pages of a scan fall, `get` answers what the reference
holds at that time, where an entry lives from its write until its time is up. -/
theorem redisTtl_exact {es : List Exchange}
    (hrun : run (Caches.step rule (redisBackend codec ttlSeconds)) Caches.empty es = some c)
    (hplain : ∀ e ∈ es, AgreeingCaches.PlainCall e.call) (hpair : PlainPair (u, t))
    (hnow : c.redis.clock ≤ now) :
    getAt rule (redisBackend codec ttlSeconds) c.redis now u t .executes =
      .ok (c.reference.presentAt (lives rule (redisBackend codec ttlSeconds).ex) now (u, t)) := by
  have hshown := (spells_run hrun hplain).1 now hnow (u, t) hpair
  rw [Stamped.presentAt_map, shown] at hshown
  change decodeGet (redisBackend codec ttlSeconds)
    (.value (((sweep rule now c.redis.store).get? (redisKey u t)).map Entry.raw)) = _
  rw [hshown]
  cases c.reference.presentAt (lives rule (redisBackend codec ttlSeconds).ex) now (u, t) with
  | none => rfl
  | some perms =>
    have hloads : (redisBackend codec ttlSeconds).loads (codec.dumps perms) = .ok (.arr perms) :=
      codec.loads_dumps perms
    change decodeGet (redisBackend codec ttlSeconds) (.value (some (codec.dumps perms))) = _
    rw [decodeGet, hloads]

end exactness

/-- A server that keeps a key up to its deadline, and not longer. -/
def sharpRule : ExpiryRule where
  gone deadline now := decide (deadline ≤ now)
  before h := decide_eq_false (Nat.not_le_of_lt h)
  after h := decide_eq_true (Nat.le_of_lt h)

/-- A list, a `set` while it is there, and one after its time. -/
def someExchanges : List Exchange :=
  [⟨1000, .set "user-1" "tenant-1" [.str "helios:members:view"], []⟩,
    ⟨2000, .set "user-1" "tenant-1" [], []⟩,
    ⟨4000, .set "user-1" "tenant-1" [.str "helios:members:manage"], []⟩]

theorem plainPair_someIds : PlainPair ("user-1", "tenant-1") := by
  simp [PlainPair, AgreeingCaches.PlainText, ColonFree, GlobPattern.GlobFree,
    GlobPattern.isMetaChar]

/-- With two seconds to live, the second list is not written and the third one is. -/
theorem redisTtl_exact_twice : ∃ c : Caches ByteArray,
    run (Caches.step sharpRule (redisBackend JsonText.utf8Json.toCodec 2)) Caches.empty
        someExchanges = some c ∧
      getAt sharpRule (redisBackend JsonText.utf8Json.toCodec 2) c.redis 5999 "user-1" "tenant-1"
        .executes = .ok (some [.str "helios:members:manage"]) ∧
      getAt sharpRule (redisBackend JsonText.utf8Json.toCodec 2) c.redis 6000 "user-1" "tenant-1"
        .executes = .ok none := by
  have hids := plainPair_someIds
  have hplain : ∀ e ∈ someExchanges, AgreeingCaches.PlainCall e.call := by
    simp [someExchanges, AgreeingCaches.PlainCall, hids.1, hids.2]
  have hrun : run (Caches.step sharpRule (redisBackend JsonText.utf8Json.toCodec 2)) Caches.empty
      someExchanges = some _ := rfl
  refine ⟨_, hrun, (redisTtl_exact hrun hplain hids (by decide)).trans ?_,
    (redisTtl_exact hrun hplain hids (by decide)).trans ?_⟩
  · rfl
  · rfl

/-- Two seconds after it was written through, a list is not read any more. -/
theorem ttl_bounds_age_once : ∃ s : Server ByteArray,
    run (timedStep sharpRule (redisBackend JsonText.utf8Json.toCodec 2)) (Server.start .empty)
        [⟨1000, .writeThrough "user-1" "tenant-1" [] .executes⟩] = some s ∧
      getAt sharpRule (redisBackend JsonText.utf8Json.toCodec 2) s 3001 "user-1" "tenant-1"
        .executes ≠ .ok (some []) := by
  have hrun : run (timedStep sharpRule (redisBackend JsonText.utf8Json.toCodec 2))
      (Server.start .empty) [⟨1000, .writeThrough "user-1" "tenant-1" [] .executes⟩] = some _ := rfl
  refine ⟨_, hrun, fun hget => ?_⟩
  obtain ⟨c, hc, -, hage⟩ := ttl_bounds_age (by decide) hrun hget
  obtain rfl := List.mem_singleton.mp hc
  exact absurd hage (by decide)

end HeliosPermissions.ExpiringKeyspace
