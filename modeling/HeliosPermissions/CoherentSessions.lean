import HeliosPermissions.ExpiringKeyspace
import HeliosPermissions.SequentialReads

/-!
# Sessions that stay coherent with Helios

The cache is only as good as the calls that keep it: memberships change in Helios, and
whoever changes them writes the new list through or invalidates what it concerns.
Here are whole sessions of such changes and of reads, one call after another, with
commands that fail, entries that the server drops, and Helios unreachable at times.
When every change is published, no read answers from an older membership.
-/

namespace HeliosPermissions.CoherentSessions

open JsonValues CacheKeys CacheStore HeliosResolution ClientWorld PartialRuns PermissionCaches
open RevocationEffects SequentialReads
open RedisPermissionCache (ScanRound invalidateAll)

variable {Raw : Type}

/-- The resolution that Helios has for every pair. -/
abbrev Memberships := String → String → Json

/-- The server, and what is true in Helios. -/
structure Site (Raw : Type) where
  /-- The Redis server. -/
  server : Server Raw
  /-- The memberships in Helios. -/
  helios : Memberships

/-- What happens at a site. -/
inductive Event where
  /-- A read by some client, with its `stale_on_error`. -/
  | read (staleOnError : Bool) (userId tenantId : String) (env : ReadEnv)
  /-- Helios changes memberships and calls the cache. -/
  | publish (helios : Memberships) (call : CacheCall)
  /-- The server drops keys by itself. -/
  | drop (keys : List String)

/-- One event. -/
def siteStep (backend : Backend Raw) (s : Site Raw) : Event → Option (Site Raw)
  | .read staleOnError u t env =>
    some ⟨⟨(resolveAlone backend staleOnError s.server.clock s.server.store u t env).store,
      s.server.clock + 1⟩, s.helios⟩
  | .publish helios call => (callStep backend s.server call).map fun server => ⟨server, helios⟩
  | .drop keys => some ⟨⟨s.server.store.popAll keys, s.server.clock + 1⟩, s.helios⟩

/-- When Helios answers, it answers what is true. -/
def Truthful (helios : Memberships) (u t : String) (outcome : HttpOutcome) : Prop :=
  ∀ perms, fetchEnd u t outcome = .resolved perms → resolutionToPerms (helios u t) = .ok perms

/-- The list that a call is to store for a pair. -/
def Tells : CacheCall → String → String → List Json → Prop
  | .set u' t' perms' _, u, t, perms => u' = u ∧ t' = t ∧ perms' = perms
  | .writeThrough u' t' perms' _, u, t, perms => u' = u ∧ t' = t ∧ perms' = perms
  | _, _, _, _ => False

/-- A revocation of a pair that takes effect: a bulk invalidation of a plain id, a SET that is
executed, and no exception. -/
structure Effective (backend : Backend Raw) (server : Server Raw) (call : CacheCall)
    (u t : String) : Prop where
  /-- The call revokes the pair. -/
  revokes : Revokes call u t
  /-- The id of a bulk invalidation has no pattern characters. -/
  plain : PlainId call
  /-- A SET of the call is executed. -/
  set : SetExecuted call
  /-- The call raises nothing. -/
  returned : (perform backend server call).map Prod.fst = some .returned

/-- Both what a call stores and the changes of a pair's list are in order: what is stored for
the pair is true, and when its list changes, the call revokes it, with effect. -/
structure Publishes (backend : Backend Raw) (u t : String) (s : Site Raw) (helios : Memberships)
    (call : CacheCall) : Prop where
  /-- The tenants told of have no colons. -/
  tenants : ∀ u' t' perms, Tells call u' t' perms → ColonFree t'
  /-- The lists told for the pair are true. -/
  told : ∀ perms, Tells call u t perms → resolutionToPerms (helios u t) = .ok perms
  /-- A change of the pair's list comes with a call that revokes it. -/
  revoked : resolutionToPerms (helios u t) ≠ resolutionToPerms (s.helios u t) →
    Effective backend s.server call u t

/-- Helios is truthful to reads of the pair, and the changes of its list are published. What
happens with other pairs is free. -/
def Disciplined (backend : Backend Raw) (u t : String) (s : Site Raw) : Event → Site Raw → Prop
  | .read _ u' t' env, _ =>
    ColonFree t' ∧ (u' = u → t' = t → Truthful s.helios u t env.outcome)
  | .publish helios call, _ => Publishes backend u t s helios call
  | .drop _, _ => True

/-- A list in the keyspace is the one that Helios has. What is not a list there is a miss,
and may be anything. -/
def Coherent (backend : Backend Raw) (u t : String) (helios : Memberships)
    (store : Store Raw) : Prop :=
  ∀ entry perms, store.get? (backend.key u t) = some entry →
    backend.loads entry.raw = .ok (.arr perms) → resolutionToPerms (helios u t) = .ok perms

/-- Removing keys leaves an entry or takes it away. -/
theorem popAll_less (store : Store Raw) (keys : List String) (k : String) :
    (store.popAll keys).get? k = store.get? k ∨ (store.popAll keys).get? k = none := by
  rw [OrderedDict.get?_popAll]
  split_ifs
  · exact Or.inr rfl
  · exact Or.inl rfl

section reads

variable {backend : Backend Raw} {helios : Memberships} {store : Store Raw} {staleOnError : Bool}
  {now : ℕ} {u t : String} {env : ReadEnv}

/-- A list comes from the cache or from Helios, or it is the empty one of a failed fetch. -/
theorem resolveAlone_ok {perms : List Json}
    (h : (resolveAlone backend staleOnError now store u t env).outcome = .ok perms) :
    RedisPermissionCache.get backend store u t env.getFate = .ok (some perms) ∨
      fetchEnd u t env.outcome = .resolved perms ∨
      perms = [] ∧ staleOnError = true ∧ ∃ message,
        fetchUserPermissions u t env.outcome = .error (.heliosUnreachable message) := by
  unfold resolveAlone at h
  split at h
  · cases h
  · next perms' hget =>
    cases h
    exact Or.inl hget
  · unfold fetchAndPopulate at h
    split at h
    · next message hfetch =>
      cases hstale : staleOnError with
      | false =>
        rw [hstale] at h
        cases h
      | true =>
        rw [hstale] at h
        cases h
        exact Or.inr (Or.inr ⟨rfl, rfl, message, fetchEnd_unreachable_iff.mp hfetch⟩)
    · cases h
    · next perms' hfetch =>
      cases h
      exact Or.inr (Or.inl hfetch)

/-- An answer is about a list. -/
theorem callerHasPermission_ok {requiredPerm : String} {answer : Bool}
    (h : (callerHasPermission backend staleOnError now store u t requiredPerm env).outcome =
      .ok answer) :
    ∃ perms, (resolveAlone backend staleOnError now store u t env).outcome = .ok perms ∧
      answer = holds requiredPerm perms := by
  change (resolveAlone backend staleOnError now store u t env).outcome.map _ = _ at h
  cases hresolved : (resolveAlone backend staleOnError now store u t env).outcome with
  | error err =>
    rw [hresolved] at h
    cases h
  | ok perms =>
    rw [hresolved] at h
    cases h
    exact ⟨perms, rfl, rfl⟩

end reads

section coherence

variable {codec : JsonCodec Raw} {ttlSeconds : ℕ} {u t : String} {helios helios' : Memberships}
  {store store' : Store Raw} {s s' : Site Raw} {e : Event}

/-- What spells a list reads as this list. -/
theorem perms_of_spelled {entry : Entry Raw} {perms perms' : List Json}
    (hraw : entry.raw = codec.dumps perms')
    (hloads : (redisBackend codec ttlSeconds).loads entry.raw = .ok (.arr perms)) :
    perms' = perms := by
  have hdecoded : codec.loads (codec.dumps perms') = .ok (.arr perms') := codec.loads_dumps perms'
  have hperms : codec.loads entry.raw = .ok (.arr perms) := hloads
  rw [hraw, hdecoded] at hperms
  exact Json.arr.inj (Except.ok.inj hperms)

/-- Nothing under the key, or a true list. -/
theorem Coherent.of_true
    (hentries : ∀ entry, store.get? (redisKey u t) = some entry → ∃ perms,
      entry.raw = codec.dumps perms ∧ resolutionToPerms (helios u t) = .ok perms) :
    Coherent (redisBackend codec ttlSeconds) u t helios store := by
  intro entry perms hentry hloads
  obtain ⟨perms', hraw, htrue⟩ := hentries entry hentry
  rwa [← perms_of_spelled hraw hloads]

/-- While the list of the pair stays the same, its entry may be kept, go, or be one that
spells the list. -/
theorem Coherent.next (h : Coherent (redisBackend codec ttlSeconds) u t helios store)
    (hsame : resolutionToPerms (helios' u t) = resolutionToPerms (helios u t))
    (hentries : ∀ entry, store'.get? (redisKey u t) = some entry →
      store.get? (redisKey u t) = some entry ∨ ∃ perms, entry.raw = codec.dumps perms ∧
        resolutionToPerms (helios' u t) = .ok perms) :
    Coherent (redisBackend codec ttlSeconds) u t helios' store' := by
  intro entry perms hentry hloads
  rcases hentries entry hentry with hold | ⟨perms', hraw, htrue⟩
  · rw [hsame]
    exact h entry perms hold hloads
  · rwa [← perms_of_spelled hraw hloads]

/-- A SET may leave the entry of a pair, or write what it was given for this pair. -/
theorem entry_after_set {now : ℕ} {origin : Origin} {u' t' : String} {perms : List Json}
    {ex : Option ℕ} {nx : Bool} {fate : CommandFate} {entry : Entry Raw} (ht : ColonFree t)
    (ht' : ColonFree t')
    (hentry : (send now origin store (.set (redisKey u' t') (codec.dumps perms) ex nx)
      fate).2.get? (redisKey u t) = some entry) :
    store.get? (redisKey u t) = some entry ∨
      (u' = u ∧ t' = t) ∧ entry.raw = codec.dumps perms := by
  rcases ExpiringKeyspace.send_set_cases hentry with hold | ⟨hkey, hraw, -⟩
  · exact Or.inl hold
  · exact Or.inr ⟨redisKey_injective ht' ht hkey, hraw⟩

/-- An invalidation only takes the entry away, and any call on the cache keeps the entry or
stores what it tells. -/
theorem entry_after_call {call : CacheCall} {server : Server Raw} {entry : Entry Raw}
    (ht : ColonFree t) (htenants : ∀ u' t' perms, Tells call u' t' perms → ColonFree t')
    (hs : callStep (redisBackend codec ttlSeconds) s.server call = some server)
    (hentry : server.store.get? (redisKey u t) = some entry) :
    s.server.store.get? (redisKey u t) = some entry ∨
      ∃ perms, Tells call u t perms ∧ entry.raw = codec.dumps perms := by
  obtain ⟨result, hp, -⟩ := callStep_eq hs
  cases call with
  | get u' t' fate =>
    obtain ⟨-, hstore⟩ := Prod.mk.inj (Option.some.inj hp)
    rw [← hstore] at hentry
    exact Or.inl hentry
  | set u' t' perms fate =>
    obtain ⟨-, hstore⟩ := Prod.mk.inj (Option.some.inj hp)
    rw [← hstore] at hentry
    rcases entry_after_set ht (htenants u' t' perms ⟨rfl, rfl, rfl⟩) hentry with
      hold | ⟨⟨hu, htt⟩, hraw⟩
    · exact Or.inl hold
    · exact Or.inr ⟨perms, ⟨hu, htt, rfl⟩, hraw⟩
  | writeThrough u' t' perms fate =>
    obtain ⟨-, hstore⟩ := Prod.mk.inj (Option.some.inj hp)
    rw [← hstore] at hentry
    rcases entry_after_set ht (htenants u' t' perms ⟨rfl, rfl, rfl⟩) hentry with
      hold | ⟨⟨hu, htt⟩, hraw⟩
    · exact Or.inl hold
    · exact Or.inr ⟨perms, ⟨hu, htt, rfl⟩, hraw⟩
  | invalidate u' t' fate =>
    obtain ⟨-, hstore⟩ := Prod.mk.inj (Option.some.inj hp)
    rw [← hstore, RedisPermissionCache.invalidate_store] at hentry
    have hless := RedisPermissionCache.send_delete_get? 0 s.server.store [redisKey u' t'] fate
      (redisKey u t)
    exact Or.inl (ExpiringKeyspace.kept_of_less hless hentry)
  | invalidateUser u' rounds =>
    obtain ⟨⟨ended, last⟩, hscan, heq⟩ := Option.map_eq_some_iff.mp hp
    obtain ⟨-, rfl⟩ := Prod.mk.inj heq
    exact Or.inl (ExpiringKeyspace.kept_of_less (scanAndDelete_get? hscan (redisKey u t)) hentry)
  | invalidateTenant t' rounds =>
    obtain ⟨⟨ended, last⟩, hscan, heq⟩ := Option.map_eq_some_iff.mp hp
    obtain ⟨-, rfl⟩ := Prod.mk.inj heq
    exact Or.inl (ExpiringKeyspace.kept_of_less (scanAndDelete_get? hscan (redisKey u t)) hentry)

/-- A revocation with effect leaves nothing under the key but what it tells. -/
theorem entry_after_revocation {call : CacheCall} {server : Server Raw} {entry : Entry Raw}
    (hpast : Past s.server.clock s.server.store)
    (heffective : Effective (redisBackend codec ttlSeconds) s.server call u t)
    (hs : callStep (redisBackend codec ttlSeconds) s.server call = some server)
    (hentry : server.store.get? (redisKey u t) = some entry) :
    ∃ perms, Tells call u t perms ∧ entry.raw = codec.dumps perms := by
  obtain ⟨result, hp, -⟩ := callStep_eq hs
  have hresult : result = .returned := by
    have hreturned := heffective.returned
    rw [hp] at hreturned
    exact Option.some.inj hreturned
  have hraises : ∀ err, result ≠ .raised err := by
    intro err herr
    rw [hresult] at herr
    cases herr
  have hrevokes := heffective.revokes
  cases call with
  | get u' t' fate => exact hrevokes.elim
  | set u' t' perms fate => exact hrevokes.elim
  | writeThrough u' t' perms fate =>
    obtain ⟨rfl, rfl⟩ := hrevokes
    obtain ⟨-, hstore⟩ := Prod.mk.inj (Option.some.inj hp)
    have hexecuted : (send s.server.clock (.writeThrough s.server.clock) s.server.store
        (.set (redisKey u' t') (codec.dumps perms) (redisBackend codec ttlSeconds).ex false)
        fate).2 = server.store := hstore
    have hfate : fate ≠ .fails false := heffective.set
    obtain ⟨since, hnew⟩ := execute_overwrite s.server.clock (.writeThrough s.server.clock)
      s.server.store (redisKey u' t') (codec.dumps perms) (redisBackend codec ttlSeconds).ex
    have hwritten : server.store.get? (redisKey u' t') = some ⟨codec.dumps perms,
        .writeThrough s.server.clock, since, s.server.clock,
        (redisBackend codec ttlSeconds).ex⟩ := by
      rw [← hexecuted, ← hnew]
      cases fate with
      | executes => rfl
      | fails applied =>
        cases applied with
        | false => exact absurd rfl hfate
        | true => rfl
    rw [hwritten] at hentry
    cases hentry
    exact ⟨perms, ⟨rfl, rfl, rfl⟩, rfl⟩
  | invalidate u' t' fate =>
    obtain ⟨rfl, rfl⟩ := hrevokes
    obtain ⟨hcount, hstore⟩ := Prod.mk.inj (Option.some.inj hp)
    rw [hresult] at hcount
    cases hended : (RedisPermissionCache.invalidate (redisBackend codec ttlSeconds) s.server.store
        u' t' fate).1 with
    | error err =>
      rw [hended] at hcount
      cases hcount
    | ok count =>
      have hpopped : server.store = s.server.store.popAll [redisKey u' t'] :=
        hstore.symm.trans (RedisPermissionCache.invalidate_ok _ hended)
      have hnone : server.store.get? (redisKey u' t') = none := by simp [hpopped]
      rw [hnone] at hentry
      cases hentry
  | invalidateUser u' rounds =>
    obtain rfl : u' = u := hrevokes
    obtain ⟨count, hscan⟩ := AgreeingCaches.invalidateAll_returned hp hraises
    have hnone := scanAndDelete_clears hscan hpast (by simp)
      (userPattern_redisKey heffective.plain t)
    rw [hnone] at hentry
    cases hentry
  | invalidateTenant t' rounds =>
    obtain rfl : t' = t := hrevokes
    obtain ⟨count, hscan⟩ := AgreeingCaches.invalidateAll_returned hp hraises
    have hnone := scanAndDelete_clears hscan hpast (by simp)
      (tenantPattern_redisKey heffective.plain u)
    rw [hnone] at hentry
    cases hentry

/-- A revocation that takes effect and tells the truth makes a pair coherent, whatever was in
the keyspace. -/
theorem coherent_of_effective {call : CacheCall} {server : Server Raw}
    (hpast : Past s.server.clock s.server.store)
    (heffective : Effective (redisBackend codec ttlSeconds) s.server call u t)
    (htold : ∀ perms, Tells call u t perms → resolutionToPerms (helios' u t) = .ok perms)
    (hs : callStep (redisBackend codec ttlSeconds) s.server call = some server) :
    Coherent (redisBackend codec ttlSeconds) u t helios' server.store := by
  refine .of_true fun entry hentry => ?_
  obtain ⟨perms, htells, hraw⟩ := entry_after_revocation hpast heffective hs hentry
  exact ⟨perms, hraw, htold perms htells⟩

/-- A call that publishes keeps a pair coherent, with the new memberships. -/
theorem coherent_publish {call : CacheCall} {server : Server Raw} (ht : ColonFree t)
    (h : Coherent (redisBackend codec ttlSeconds) u t s.helios s.server.store)
    (hpast : Past s.server.clock s.server.store)
    (hpub : Publishes (redisBackend codec ttlSeconds) u t s helios' call)
    (hs : callStep (redisBackend codec ttlSeconds) s.server call = some server) :
    Coherent (redisBackend codec ttlSeconds) u t helios' server.store := by
  by_cases hsame : resolutionToPerms (helios' u t) = resolutionToPerms (s.helios u t)
  · refine h.next hsame fun entry hentry => ?_
    rcases entry_after_call ht hpub.tenants hs hentry with hold | ⟨perms, htells, hraw⟩
    · exact Or.inl hold
    · exact Or.inr ⟨perms, hraw, hpub.told perms htells⟩
  · exact coherent_of_effective hpast (hpub.revoked hsame) hpub.told hs

/-- A read of any pair keeps it, when Helios is truthful to reads of this one. -/
theorem coherent_read {now : ℕ} {staleOnError : Bool} {u' t' : String} {env : ReadEnv}
    (h : Coherent (redisBackend codec ttlSeconds) u t helios store) (ht : ColonFree t)
    (ht' : ColonFree t') (htrue : u' = u → t' = t → Truthful helios u t env.outcome) :
    Coherent (redisBackend codec ttlSeconds) u t helios
      (resolveAlone (redisBackend codec ttlSeconds) staleOnError now store u' t' env).store := by
  rcases resolveAlone_populates (redisBackend codec ttlSeconds) staleOnError now store u' t' env
    with hsame | ⟨perms, hfetch, hset⟩
  · rwa [hsame]
  · rw [hset]
    refine h.next rfl fun entry hentry => ?_
    rcases entry_after_set ht ht' hentry with hold | ⟨⟨rfl, rfl⟩, hraw⟩
    · exact Or.inl hold
    · exact Or.inr ⟨perms, hraw, htrue rfl rfl perms hfetch⟩

/-- No event makes a key exist since a time to come. -/
theorem past_siteStep {backend : Backend Raw} (h : Past s.server.clock s.server.store)
    (hs : siteStep backend s e = some s') : Past s'.server.clock s'.server.store := by
  cases e with
  | read staleOnError u t env =>
    cases hs
    have hpast : Past s.server.clock (resolveAlone backend staleOnError s.server.clock
        s.server.store u t env).store := by
      rcases resolveAlone_populates backend staleOnError s.server.clock s.server.store u t env with
        hsame | ⟨perms, -, hset⟩
      · rw [hsame]
        exact h
      · rw [hset]
        exact h.send _ _ _
    exact hpast.later (Nat.le_succ _)
  | publish helios call =>
    obtain ⟨server, hcall, rfl⟩ := Option.map_eq_some_iff.mp hs
    exact past_step h hcall
  | drop keys =>
    cases hs
    intro k entry hentry
    have hold := ExpiringKeyspace.kept_of_less (popAll_less s.server.store keys k) hentry
    exact (h k entry hold).trans (Nat.le_succ _)

/-- What the invariant says of a site, for a pair. -/
structure Kept (codec : JsonCodec Raw) (ttlSeconds : ℕ) (u t : String) (s : Site Raw) : Prop where
  /-- What is stored for the pair is true. -/
  coherent : Coherent (redisBackend codec ttlSeconds) u t s.helios s.server.store
  /-- No key came into being later than the clock. -/
  past : Past s.server.clock s.server.store

/-- Every disciplined event keeps a site. -/
theorem kept_step (ht : ColonFree t) (h : Kept codec ttlSeconds u t s)
    (hs : siteStep (redisBackend codec ttlSeconds) s e = some s')
    (hd : Disciplined (redisBackend codec ttlSeconds) u t s e s') :
    Kept codec ttlSeconds u t s' := by
  refine ⟨?_, past_siteStep h.past hs⟩
  cases e with
  | read staleOnError u' t' env =>
    cases hs
    exact coherent_read h.coherent ht hd.1 hd.2
  | publish helios call =>
    obtain ⟨server, hcall, rfl⟩ := Option.map_eq_some_iff.mp hs
    exact coherent_publish ht h.coherent h.past hd hcall
  | drop keys =>
    cases hs
    exact h.coherent.next rfl fun entry hentry =>
      Or.inl (ExpiringKeyspace.kept_of_less (popAll_less _ _ _) hentry)

/-- So does every disciplined session. -/
theorem kept_run {es : List Event} (ht : ColonFree t)
    (hrun : run (siteStep (redisBackend codec ttlSeconds)) s es = some s')
    (hd : Along (siteStep (redisBackend codec ttlSeconds))
      (Disciplined (redisBackend codec ttlSeconds) u t) s es) (h : Kept codec ttlSeconds u t s) :
    Kept codec ttlSeconds u t s' :=
  run_invariant (Kept codec ttlSeconds u t) (fun _ _ _ h hs hd => kept_step ht h hs hd) hrun hd h

/-- A read gives the list that Helios has, or it denies because Helios was unreachable. -/
structure Current (backend : Backend Raw) (s : Site Raw) (staleOnError : Bool) (u t : String)
    (env : ReadEnv) : Prop where
  /-- `get_user_permissions` gives the true list, or `[]` in an outage. -/
  lists : ∀ perms, (resolveAlone backend staleOnError s.server.clock s.server.store u t
      env).outcome = .ok perms →
    resolutionToPerms (s.helios u t) = .ok perms ∨ perms = [] ∧ staleOnError = true ∧
      ∃ message, fetchUserPermissions u t env.outcome = .error (.heliosUnreachable message)
  /-- `caller_has_permission` gives the true answer, or `False` in an outage. -/
  answers : ∀ requiredPerm answer, (callerHasPermission backend staleOnError s.server.clock
      s.server.store u t requiredPerm env).outcome = .ok answer →
    (∃ perms, resolutionToPerms (s.helios u t) = .ok perms ∧ answer = holds requiredPerm perms) ∨
      answer = false ∧ staleOnError = true ∧
      ∃ message, fetchUserPermissions u t env.outcome = .error (.heliosUnreachable message)

/-- A read of a coherent pair is current. -/
theorem current_of_coherent {staleOnError : Bool} {env : ReadEnv}
    (h : Coherent (redisBackend codec ttlSeconds) u t s.helios s.server.store)
    (htrue : Truthful s.helios u t env.outcome) :
    Current (redisBackend codec ttlSeconds) s staleOnError u t env := by
  have hread : ∀ perms, (resolveAlone (redisBackend codec ttlSeconds) staleOnError s.server.clock
        s.server.store u t env).outcome = .ok perms →
      resolutionToPerms (s.helios u t) = .ok perms ∨ perms = [] ∧ staleOnError = true ∧
        ∃ message, fetchUserPermissions u t env.outcome = .error (.heliosUnreachable message) := by
    intro perms hperms
    rcases resolveAlone_ok hperms with hhit | hfetched | hdenied
    · obtain ⟨entry, hentry, hloads⟩ := get_returns_entry hhit
      exact Or.inl (h entry perms hentry hloads)
    · exact Or.inl (htrue perms hfetched)
    · exact Or.inr hdenied
  refine ⟨hread, fun requiredPerm answer hanswer => ?_⟩
  obtain ⟨perms, hperms, rfl⟩ := callerHasPermission_ok hanswer
  rcases hread perms hperms with hcurrent | ⟨rfl, hrest⟩
  · exact Or.inl ⟨perms, hcurrent, rfl⟩
  · exact Or.inr ⟨rfl, hrest⟩

end coherence

/-- The resolution of an active member. -/
def activeMember (perms : List Json) : Json :=
  .obj [("status", .str "active"), ("role", .str "Member"), ("permissions", .arr perms)]

/-- Helios when `user-1` is a member of `tenant-1` with these perms, and nobody else is. -/
def heliosWith (perms : List Json) : Memberships := fun u t =>
  if u = "user-1" ∧ t = "tenant-1" then activeMember perms
  else .obj [("status", .str "not_a_member")]

/-- Helios answers what is true; commands succeed. -/
def trueAnswer (perms : List Json) : ReadEnv :=
  ⟨.executes, .response 200 (.ok (heliosWith perms "user-1" "tenant-1")), .executes⟩

/-- A read, a perm that is taken away with the user invalidated, an entry that the server
drops, a read whose SET fails unseen, and a perm that is given back and written through. -/
def someEvents : List Event :=
  [.read true "user-1" "tenant-1" (trueAnswer [.str "helios:members:manage"]),
    .publish (heliosWith []) (.invalidateUser "user-1"
      [⟨some (0, [redisKey "user-1" "tenant-1"]), .executes⟩]),
    .drop ["helios:perms:user-2:tenant-1"],
    .read true "user-1" "tenant-1"
      ⟨.executes, .response 200 (.ok (heliosWith [] "user-1" "tenant-1")), .fails true⟩,
    .publish (heliosWith [.str "helios:members:view"])
      (.writeThrough "user-1" "tenant-1" [.str "helios:members:view"] .executes)]

/-- A read, a perm that is taken away while the server is out of reach, and a read of what is
still there. -/
def brokenEvents : List Event :=
  [.read true "user-1" "tenant-1" (trueAnswer [.str "helios:members:manage"]),
    .publish (heliosWith []) (.writeThrough "user-1" "tenant-1" [] (.fails false)),
    .read true "user-1" "tenant-1" (trueAnswer [])]

theorem colonFree_someTenant : ColonFree "tenant-1" := by simp [ColonFree]

theorem trueAnswer_truthful (perms : List Json) :
    Truthful (heliosWith perms) "user-1" "tenant-1" (trueAnswer perms).outcome := by
  intro perms' hfetch
  obtain ⟨resolution, hok, htranslates⟩ := fetchEnd_resolved_iff.mp hfetch
  cases hok
  exact htranslates

/-- The events are disciplined. -/
theorem someEvents_disciplined :
    Along (siteStep (redisBackend JsonText.utf8Json.toCodec 0))
      (Disciplined (redisBackend JsonText.utf8Json.toCodec 0) "user-1" "tenant-1")
      ⟨Server.start .empty, heliosWith [.str "helios:members:manage"]⟩ someEvents := by
  have hplain : GlobPattern.GlobFree "user-1" := by
    simp [GlobPattern.GlobFree, GlobPattern.isMetaChar]
  have hexecuted : CommandFate.executes ≠ .fails false := by simp
  refine (along_cons_iff rfl).mpr ⟨⟨colonFree_someTenant, fun _ _ => trueAnswer_truthful _⟩,
    (along_cons_iff rfl).mpr ⟨⟨?_, ?_, fun _ => ⟨rfl, hplain, trivial, rfl⟩⟩,
    (along_cons_iff rfl).mpr ⟨trivial,
    (along_cons_iff rfl).mpr ⟨⟨colonFree_someTenant, fun _ _ => trueAnswer_truthful _⟩,
    (along_cons_iff rfl).mpr
      ⟨⟨?_, ?_, fun _ => ⟨⟨rfl, rfl⟩, trivial, hexecuted, rfl⟩⟩, trivial⟩⟩⟩⟩⟩
  · intro u t perms htold
    cases htold
  · intro perms htold
    cases htold
  · rintro u t perms ⟨rfl, rfl, rfl⟩
    exact colonFree_someTenant
  · rintro perms ⟨-, -, rfl⟩
    rfl

end HeliosPermissions.CoherentSessions
