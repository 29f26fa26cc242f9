import HeliosPermissions.SequentialReads
import HeliosPermissions.JsonText
import HeliosPermissions.RevocationEffects

/-!
# Entries that the SDK cannot read

The keyspace is shared, so any bytes may stand under a key. Text that is not
JSON, and JSON that is no array, are misses; bytes that cannot be decoded raise
instead, and so does text beyond the limits of the interpreter. A miss of this kind
is never repaired, since the populate writes with NX on a key that is taken.
-/

namespace HeliosPermissions.CorruptedEntries

open JsonValues JsonText CacheKeys CacheStore HeliosResolution ClientWorld PermissionCaches
open SequentialReads RevocationEffects

variable {Raw : Type}

/-- `get` returns, and returns a list only when an array stands under the key. -/
def ReadsWithoutRaising (backend : Backend Raw) (store : Store Raw) (u t : String)
    (fate : CommandFate) : Prop :=
  ∃ cached, RedisPermissionCache.get backend store u t fate = .ok cached ∧
    ∀ perms, cached = some perms → ∃ entry, store.get? (backend.key u t) = some entry ∧
      backend.loads entry.raw = .ok (.arr perms)

section reads

variable {backend : Backend Raw} {store : Store Raw} {u t : String}

/-- Without a value `get` is a miss. -/
theorem get_absent (h : store.get? (backend.key u t) = none) (fate : CommandFate) :
    RedisPermissionCache.get backend store u t fate = .ok none := by
  cases fate with
  | executes => simp [RedisPermissionCache.get, send, execute, h, decodeGet]
  | fails applied => rfl

/-- With a value `get` is what it decodes to. -/
theorem get_present {entry : Entry Raw} (h : store.get? (backend.key u t) = some entry) :
    RedisPermissionCache.get backend store u t .executes =
      decodeGet backend (.value (some entry.raw)) := by
  simp [RedisPermissionCache.get, send, execute, h]

/-- A JSON array is a hit. -/
theorem get_array {entry : Entry Raw} {perms : List Json}
    (h : store.get? (backend.key u t) = some entry)
    (hloads : backend.loads entry.raw = .ok (.arr perms)) :
    RedisPermissionCache.get backend store u t .executes = .ok (some perms) := by
  rw [get_present h, decodeGet, hloads]

end reads

section decoding

variable {Text : Type} (json : BytesJson Text) (ttlSeconds : ℕ)

/-- Of stored bytes those make `get` raise that cannot be decoded or exceed a limit. -/
theorem decodeGet_returns_iff (raw : ByteArray) :
    (∃ cached, decodeGet (redisBackend json.toCodec ttlSeconds) (.value (some raw)) =
      .ok cached) ↔ json.Readable raw := by
  have hloads : (redisBackend json.toCodec ttlSeconds).loads raw = json.loads raw := rfl
  rw [decodeGet, hloads, BytesJson.loads, BytesJson.Readable]
  cases hd : json.decode raw with
  | none => simp
  | some text =>
    cases hl : json.exceeds text with
    | some limit => cases limit <;> simp [hl, Limit.error]
    | none =>
      cases hp : json.parse text with
      | none => simp [hl, hp]
      | some v => cases v <;> simp [hl, hp]

/-- `get` never raises, exactly when the GET fails, or nothing is stored, or what is stored
can be decoded to text within the limits of the interpreter. -/
theorem get_never_raises_iff (store : Store ByteArray) (u t : String) (fate : CommandFate) :
    ReadsWithoutRaising (redisBackend json.toCodec ttlSeconds) store u t fate ↔
      (fate = .executes → ∀ entry, store.get? (redisKey u t) = some entry →
        json.Readable entry.raw) := by
  let backend := redisBackend json.toCodec ttlSeconds
  have hreturns : ReadsWithoutRaising backend store u t fate ↔
      ∃ cached, RedisPermissionCache.get backend store u t fate = .ok cached := by
    constructor
    · rintro ⟨cached, hget, -⟩
      exact ⟨cached, hget⟩
    · rintro ⟨cached, hget⟩
      exact ⟨cached, hget, fun perms hp => get_returns_entry (hget.trans (by rw [hp]))⟩
  refine hreturns.trans ?_
  cases fate with
  | fails applied => exact iff_of_true ⟨none, rfl⟩ fun h => CommandFate.noConfusion h
  | executes =>
    cases hs : store.get? (redisKey u t) with
    | none => exact iff_of_true ⟨none, get_absent hs _⟩ (by simp)
    | some entry =>
      have hget : RedisPermissionCache.get backend store u t .executes =
          decodeGet backend (.value (some entry.raw)) := get_present hs
      rw [hget, decodeGet_returns_iff]
      simp

/-- One byte that starts no UTF-8 sequence, stored for one pair. -/
def undecodableStore : Store ByteArray :=
  OrderedDict.empty.set (redisKey "user-1" "tenant-1") ⟨⟨#[0xff]⟩, .initial, 0, 0, none⟩

/-- The byte is no miss: `get` raises. -/
theorem undecodable_get_raises :
    ¬ReadsWithoutRaising (redisBackend utf8Json.toCodec 0) undecodableStore "user-1" "tenant-1"
      .executes := by
  rintro ⟨cached, hget, -⟩
  have hpresent : undecodableStore.get? (redisKey "user-1" "tenant-1") =
      some ⟨⟨#[0xff]⟩, .initial, 0, 0, none⟩ := by simp [undecodableStore]
  have hdecode : utf8Json.decode ⟨#[0xff]⟩ = none := by
    change String.fromUTF8? ⟨#[0xff]⟩ = none
    decide +kernel
  rw [get_present hpresent] at hget
  obtain ⟨text, htext, -⟩ := (decodeGet_returns_iff utf8Json 0 ⟨#[0xff]⟩).mp ⟨cached, hget⟩
  rw [hdecode] at htext
  cases htext

/-- Every read of the pair raises then, whatever Helios would answer, and none of
them changes the entry. -/
theorem undecodable_entry_fails_reads {backend : Backend Raw} {store : Store Raw} {u t : String}
    {entry : Entry Raw} {err : PyError} (hs : store.get? (backend.key u t) = some entry)
    (hraises : decodeGet backend (.value (some entry.raw)) = .error err) (staleOnError : Bool)
    (now : ℕ) (outcome : HttpOutcome) (setFate : CommandFate) :
    resolveAlone backend staleOnError now store u t ⟨.executes, outcome, setFate⟩ =
      ⟨.error err, store, false⟩ := by
  rw [resolveAlone, get_present hs, hraises]

end decoding

/-- A call that is no invalidation, on a Redis that does not fail: a read of any pair,
with what comes back if it asks Helios, or a write-through. -/
inductive LaterCall where
  | read (userId tenantId requiredPerm : String) (outcome : HttpOutcome)
  | writeThrough (userId tenantId : String) (perms : List Json)

/-- `caller_has_permission`, alone, on a Redis that does not fail. -/
def callerAlone (backend : Backend Raw) (staleOnError : Bool) (now : ℕ) (store : Store Raw)
    (userId tenantId requiredPerm : String) (outcome : HttpOutcome) : ReadEnd Raw Bool :=
  callerHasPermission backend staleOnError now store userId tenantId requiredPerm
    ⟨.executes, outcome, .executes⟩

/-- The keyspace after a later call. -/
def LaterCall.after (backend : Backend Raw) (staleOnError : Bool) (now : ℕ) (store : Store Raw) :
    LaterCall → Store Raw
  | .read u t p outcome => (callerAlone backend staleOnError now store u t p outcome).store
  | .writeThrough u t perms =>
    RedisPermissionCache.writeThrough backend now store u t perms .executes

/-- After one read of the pair, `get` gives these permissions, and no further read of
the pair calls Helios, whatever other calls come before it. -/
def Repaired (backend : Backend Raw) (staleOnError : Bool) (now : ℕ) (store : Store Raw)
    (u t requiredPerm : String) (outcome : HttpOutcome) (perms : List Json) : Prop :=
  let first := callerAlone backend staleOnError now store u t requiredPerm outcome
  RedisPermissionCache.get backend first.store u t .executes = .ok (some perms) ∧
    ∀ (later : List LaterCall) (requiredPerm' : String) (outcome' : HttpOutcome),
      (callerAlone backend staleOnError now
        (later.foldl (LaterCall.after backend staleOnError now) first.store) u t requiredPerm'
        outcome').heliosCalled = false

/-- A list stands under the key. -/
def Holds (backend : Backend Raw) (k : String) (store : Store Raw) : Prop :=
  ∃ entry perms, store.get? k = some entry ∧ backend.loads entry.raw = .ok (.arr perms)

section repairs

variable {backend : Backend Raw} {store : Store Raw} {u t : String}

/-- A SET of a list leaves a list under a key that had one. -/
theorem Holds.send_set {k : String} (h : Holds backend k store) (now : ℕ) (origin : Origin)
    (k' : String) (perms : List Json) (ex : Option ℕ) (nx : Bool) (fate : CommandFate) :
    Holds backend k (send now origin store (.set k' (backend.dumps perms) ex nx) fate).2 := by
  rcases send_get? now origin store (.set k' (backend.dumps perms) ex nx) fate k with
    hkeep | ⟨raw, ex', nx', hcmd, hnew⟩ | ⟨ks, hcmd, -⟩
  · obtain ⟨entry, old, hs, hloads⟩ := h
    exact ⟨entry, old, hkeep.trans hs, hloads⟩
  · cases hcmd
    exact ⟨_, perms, hnew, backend.loads_dumps perms⟩
  · cases hcmd

/-- A later call keeps what is held. -/
theorem Holds.after {k : String} (h : Holds backend k store) (staleOnError : Bool) (now : ℕ)
    (call : LaterCall) : Holds backend k (call.after backend staleOnError now store) := by
  cases call with
  | writeThrough u' t' perms => exact h.send_set _ _ _ perms _ _ _
  | read u' t' p outcome =>
    rcases resolveAlone_store backend staleOnError now store u' t' ⟨.executes, outcome, .executes⟩
      with hs | ⟨perms, hs⟩
    · change Holds backend k (resolveAlone backend staleOnError now store u' t' _).store
      rw [hs]
      exact h
    · change Holds backend k (resolveAlone backend staleOnError now store u' t' _).store
      rw [hs]
      exact h.send_set _ _ _ perms _ _ _

/-- It stays so, whatever is read and written through. -/
theorem Holds.after_all {k : String} (h : Holds backend k store) (staleOnError : Bool) (now : ℕ)
    (later : List LaterCall) :
    Holds backend k (later.foldl (LaterCall.after backend staleOnError now) store) := by
  induction later generalizing store with
  | nil => exact h
  | cons call rest ih => exact ih (h.after staleOnError now call)

/-- Such a key is a hit, so Helios is left alone. -/
theorem Holds.not_called (h : Holds backend (backend.key u t) store) (staleOnError : Bool)
    (now : ℕ) (p : String) (outcome : HttpOutcome) :
    (callerAlone backend staleOnError now store u t p outcome).heliosCalled = false := by
  obtain ⟨entry, perms, hs, hloads⟩ := h
  simp only [callerAlone, callerHasPermission, resolveAlone, get_array hs hloads]

/-- A miss that Helios answers is repaired exactly when nothing stood under the key:
on bytes that are no list, the populate does nothing. -/
theorem miss_repaired_iff {codec : JsonCodec Raw} {store : Store Raw} {u t p : String}
    {outcome : HttpOutcome} {perms : List Json} (staleOnError : Bool) (now : ℕ)
    (hmiss : RedisPermissionCache.get (redisBackend codec 0) store u t .executes = .ok none)
    (hresolved : fetchEnd u t outcome = .resolved perms) :
    Repaired (redisBackend codec 0) staleOnError now store u t p outcome perms ↔
      store.get? (redisKey u t) = none := by
  have hfirst : (callerAlone (redisBackend codec 0) staleOnError now store u t p outcome).store =
      RedisPermissionCache.set (redisBackend codec 0) now store u t perms .executes := by
    simp only [callerAlone, callerHasPermission, resolveAlone, hmiss, fetchAndPopulate, hresolved]
  constructor
  · rintro ⟨hget, -⟩
    rw [hfirst] at hget
    cases hs : store.get? (redisKey u t) with
    | none => rfl
    | some old =>
      have hkept : RedisPermissionCache.set (redisBackend codec 0) now store u t perms .executes =
          store := by
        change (execute now (.populate now) store (.set (redisKey u t) _ _ true)).2 = store
        simp only [execute, hs, if_true]
      rw [hkept, hmiss] at hget
      cases hget
  · intro hs
    have hnew : (RedisPermissionCache.set (redisBackend codec 0) now store u t perms
        .executes).get? (redisKey u t) =
          some ⟨codec.dumps perms, .populate now, now, now, none⟩ := by
      change (execute now (.populate now) store (.set (redisKey u t) _ _ true)).2.get? _ = _
      simp only [execute, hs, OrderedDict.get?_set, if_true]
      rfl
    have hloads : (redisBackend codec 0).loads (codec.dumps perms) = .ok (.arr perms) :=
      codec.loads_dumps perms
    refine ⟨?_, fun later p' outcome' => ?_⟩
    · rw [hfirst]
      exact get_array hnew hloads
    · have hholds : Holds (redisBackend codec 0) (redisKey u t)
          (callerAlone (redisBackend codec 0) staleOnError now store u t p outcome).store := by
        rw [hfirst]
        exact ⟨_, perms, hnew, hloads⟩
      exact (hholds.after_all staleOnError now later).not_called staleOnError now p' outcome'

end repairs

/-- Helios grants one permission. -/
def grantingOutcome : HttpOutcome := .response 200 (.ok (activeBody [.str "helios:members:view"]))

/-- A cold key. -/
theorem miss_repaired_cold :
    Repaired (redisBackend utf8Json.toCodec 0) true 1 .empty "user-1" "tenant-1"
      "helios:members:view" grantingOutcome [.str "helios:members:view"] :=
  (miss_repaired_iff true 1 rfl rfl).mpr rfl

/-- An empty value under the key, as another service may leave it. -/
def blankStore : Store ByteArray :=
  OrderedDict.empty.set (redisKey "user-1" "tenant-1") ⟨⟨#[]⟩, .initial, 0, 0, none⟩

/-- The empty value is a miss, Helios answers, and the entry stays as it was. -/
theorem blank_entry_not_repaired :
    RedisPermissionCache.get (redisBackend utf8Json.toCodec 0) blankStore "user-1" "tenant-1"
        .executes = .ok none ∧
      fetchEnd "user-1" "tenant-1" grantingOutcome = .resolved [.str "helios:members:view"] ∧
      ¬Repaired (redisBackend utf8Json.toCodec 0) true 1 blankStore "user-1" "tenant-1"
        "helios:members:view" grantingOutcome [.str "helios:members:view"] := by
  refine ⟨rfl, rfl, ?_⟩
  rintro ⟨hget, -⟩
  cases hget

end HeliosPermissions.CorruptedEntries
