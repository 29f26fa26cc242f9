import Mathlib.Logic.Function.Basic
import HeliosPermissions.CacheStore
import HeliosPermissions.HeliosResolution
import HeliosPermissions.PartialRuns

/-!
# Permission clients sharing a cache, step by step

Any number of `PermissionClient` instances read, write through and invalidate
over one cache. A coroutine runs without interruption from one await to the
next; at an await it is suspended, and the cache server, Helios and the event
loop move in any order. Each of these moves is an action. A read suspended on
a shared future is cancelled as asyncio does it: the future itself is
cancelled while it is pending, and otherwise the exception is thrown into the
read when it next runs. Only reads are cancelled here: a cancellation of
`write_through` or of an invalidation is left out. So is what a caller does to a
list that others have been given too: lists are values.

The clock, the begin and end stamps, the sample stamp and the log of Helios
calls are bookkeeping; no branch of the code depends on them.
-/

namespace HeliosPermissions.ClientWorld

open JsonValues CacheKeys CacheStore HeliosResolution

/-- One `PermissionClient` instance. -/
abbrev ClientId := ℕ

/-- Index of a read in the table of reads. -/
abbrev ReadId := ℕ

/-- Index of a future in the table of futures. -/
abbrev FutureId := ℕ

/-- Index of a write-through or invalidation in the table of mutations. -/
abbrev MutationId := ℕ

/-- What `_resolve_perms` returns or raises. -/
abbrev Outcome := Except PyError (List Json)

/-- The public method that a read was made through. -/
inductive Ask where
  | callerHasPermission (requiredPerm : String)
  | getUserPermissions
  deriving DecidableEq

/-- What the public method returns for a list: the list itself, or whether the
required permission is in it. -/
def Ask.answer : Ask → List Json → Bool ⊕ List Json
  | .callerHasPermission requiredPerm, perms => .inl (perms.any (Json.isStr requiredPerm))
  | .getUserPermissions, perms => .inr perms

/-- The state of an `asyncio.Future`. -/
inductive FutureState where
  | pending
  | result (perms : List Json)
  | exception (err : PyError)
  | cancelled

/-- What awaiting a future gives once it is done. -/
def FutureState.outcome : FutureState → Option Outcome
  | .pending => none
  | .result perms => some (.ok perms)
  | .exception err => some (.error err)
  | .cancelled => some (.error .cancelledError)

/-- `set_result` or `set_exception`. -/
def FutureState.ofOutcome : Outcome → FutureState
  | .ok perms => .result perms
  | .error err => .exception err

/-- A future settled with an outcome has it. -/
@[simp] theorem FutureState.outcome_ofOutcome (o : Outcome) :
    (FutureState.ofOutcome o).outcome = some o := by
  cases o <;> rfl

/-- Only a pending future has no outcome. -/
theorem FutureState.outcome_eq_none {st : FutureState} : st.outcome = none ↔ st = .pending := by
  cases st <;> simp [FutureState.outcome]

/-- A future and the read that created it. -/
structure Future where
  /-- The read that created it. -/
  creator : ReadId
  /-- What has been set on it. -/
  state : FutureState

/-- Where the answer of a read came from. -/
inductive Via where
  /-- Its own cache GET. -/
  | cache
  /-- The fetch that it led, under this future. -/
  | led (future : FutureId)
  /-- The fetch that it joined, under this future. -/
  | joined (future : FutureId)
  deriving DecidableEq

/-- The future of the fetch that a read led or joined. -/
def Via.future : Via → Option FutureId
  | .cache => none
  | .led f => some f
  | .joined f => some f

/-- Where a read is suspended, with its live local variables. -/
inductive ReadPc where
  /-- `await self._cache.get(..)`. -/
  | cacheGet
  /-- `return await existing`. -/
  | joined (future : FutureId)
  /-- `await self._helios.fetch_user_permissions(..)`. -/
  | heliosFetch (future : FutureId)
  /-- `await self._cache.set(..)`. -/
  | cacheSet (future : FutureId) (perms : List Json)
  /-- It has returned or raised. -/
  | done (outcome : Outcome) (via : Via)

/-- The future that a read has registered and not yet removed. -/
def ReadPc.owned : ReadPc → Option FutureId
  | .heliosFetch f => some f
  | .cacheSet f _ => some f
  | _ => none

/-- Where a read that ends at this point has its answer from. -/
def ReadPc.via : ReadPc → Via
  | .cacheGet => .cache
  | .joined f => .joined f
  | .heliosFetch f => .led f
  | .cacheSet f _ => .led f
  | .done _ via => via

/-- Whether a read has ended. -/
def ReadPc.isDone : ReadPc → Bool
  | .done _ _ => true
  | _ => false

/-- A read that owns a future is running, and its answer comes from its fetch. -/
theorem ReadPc.of_owned {pc : ReadPc} {f : FutureId} (h : pc.owned = some f) :
    pc.isDone = false ∧ pc.via = .led f := by
  cases pc with
  | heliosFetch g => cases h; exact ⟨rfl, rfl⟩
  | cacheSet g perms => cases h; exact ⟨rfl, rfl⟩
  | cacheGet => cases h
  | joined g => cases h
  | done o via => cases h

/-- A leader that has not ended owns its future. -/
theorem ReadPc.owned_of_via {pc : ReadPc} {f : FutureId} (h : pc.via = .led f)
    (hd : pc.isDone = false) : pc.owned = some f := by
  cases pc with
  | heliosFetch g => cases h; rfl
  | cacheSet g perms => cases h; rfl
  | cacheGet => cases h
  | joined g => cases h
  | done o via => cases hd

/-- A joiner that has not ended waits for its future. -/
theorem ReadPc.joined_of_via {pc : ReadPc} {f : FutureId} (h : pc.via = .joined f)
    (hd : pc.isDone = false) : pc = .joined f := by
  cases pc with
  | joined g => cases h; rfl
  | cacheGet => cases h
  | heliosFetch g => cases h
  | cacheSet g perms => cases h
  | done o via => cases hd

/-- A read is done when it has an outcome. -/
theorem ReadPc.isDone_iff {pc : ReadPc} : pc.isDone = true ↔ ∃ o via, pc = .done o via := by
  cases pc <;> simp [isDone]

/-- A cache command on its way to the server, or its reply on the way back. -/
inductive Port (Raw : Type) where
  | sent (cmd : Command Raw)
  | replied (reply : Reply Raw)

/-- A call of `caller_has_permission` or `get_user_permissions`. -/
structure ReadCall (Raw : Type) where
  /-- The client called. -/
  client : ClientId
  /-- `user_id`. -/
  userId : String
  /-- `tenant_id`. -/
  tenantId : String
  /-- Which of the two methods, with its argument. -/
  ask : Ask
  /-- Where the coroutine is suspended, or how it ended. -/
  pc : ReadPc
  /-- The command under way, or its reply. -/
  port : Port Raw
  /-- asyncio will throw `CancelledError` when the task next runs. -/
  mustCancel : Bool
  /-- When Helios sampled the membership, and what came back. -/
  sampled : Option (ℕ × HttpOutcome)
  /-- The task was cancelled from outside before it ended. -/
  cancelCalled : Bool
  /-- When the call was made and its GET issued. -/
  began : ℕ
  /-- When the call ended. -/
  ended : Option ℕ

/-- `lock_key` of a read. -/
def ReadCall.lock {Raw : Type} (r : ReadCall Raw) : String := lockKey r.userId r.tenantId

/-- The mutating calls. -/
inductive MutationRequest where
  | writeThrough (userId tenantId : String) (perms : List Json)
  | invalidate (userId : String) (tenantId : Option String)
  | invalidateTenant (tenantId : String)

/-- Where a mutating call is suspended, with its live local variables. -/
inductive MutationPc where
  /-- `await self._redis.set(..)` without NX. -/
  | writing
  /-- `await self._redis.delete(key)`. -/
  | deleting
  /-- `await self._redis.scan(..)`. -/
  | scanning (scope : Scope) (totalDeleted : ℕ)
  /-- `await self._redis.delete(*keys)` for a page. -/
  | deletingPage (scope : Scope) (totalDeleted cursor : ℕ)
  /-- It has returned, with the count that it logs, or raised. -/
  | done (outcome : Except PyError ℕ)

/-- A call of `write_through`, `invalidate` or `invalidate_tenant`. -/
structure MutationCall (Raw : Type) where
  /-- What is called, with its arguments. -/
  request : MutationRequest
  /-- Where the coroutine is suspended, or how it ended. -/
  pc : MutationPc
  /-- The command under way, or its reply. -/
  port : Port Raw
  /-- How far the scan has come. -/
  progress : ScanProgress
  /-- When the call was made and its first command issued. -/
  began : ℕ
  /-- When the call ended. -/
  ended : Option ℕ

/-- The clients, their calls, and the cache that they share. -/
structure World (Raw : Type) where
  /-- The keys of the cache. -/
  store : Store Raw
  /-- The body that Helios would answer with for each pair. -/
  membership : String → String → Json
  /-- `_in_flight` of each client. -/
  inFlight : ClientId → OrderedDict String FutureId
  /-- Every future created. -/
  futures : List Future
  /-- Every read made. -/
  reads : List (ReadCall Raw)
  /-- Every mutating call made. -/
  mutations : List (MutationCall Raw)
  /-- Every call of `fetch_user_permissions` made by a read. -/
  heliosCalls : List (ClientId × String × String)
  /-- The number of steps so far. -/
  clock : ℕ

/-- How the clients are set up. -/
structure Config (Raw : Type) where
  /-- The cache that the clients share. -/
  backend : Backend Raw
  /-- `stale_on_error` of each client. -/
  staleOnError : ClientId → Bool

/-- How the HTTP call of a fetch turns out: Helios answers with the membership
at that moment, or anything else happens. -/
inductive HeliosFate where
  | answers
  | fault (outcome : HttpOutcome)

/-- The HTTP outcome when the membership body is as given. -/
def HeliosFate.outcome (body : Json) : HeliosFate → HttpOutcome
  | .answers => .response 200 (.ok body)
  | .fault outcome => outcome

/-- The moves of the system. -/
inductive Action where
  /-- A service calls a read method. -/
  | read (client : ClientId) (userId tenantId : String) (ask : Ask)
  /-- A service calls a mutating method. -/
  | mutate (request : MutationRequest)
  /-- The server deals with the command that a read has sent. -/
  | serveRead (i : ReadId) (fate : Fate)
  /-- The server deals with the command that a mutating call has sent. -/
  | serveMutation (j : MutationId) (fate : Fate)
  /-- Helios deals with the request of a read. -/
  | sample (i : ReadId) (fate : HeliosFate)
  /-- The event loop runs a read up to its next await. -/
  | resumeRead (i : ReadId)
  /-- The event loop runs a mutating call up to its next await. -/
  | resumeMutation (j : MutationId)
  /-- `task.cancel()` on a read. -/
  | cancel (i : ReadId)
  /-- The membership of a pair changes at Helios. -/
  | change (userId tenantId : String) (body : Json)
  /-- An entry with a TTL expires. -/
  | expire (key : String)

variable {Raw : Type}

/-- What a GET reply means to `get`: a failed GET, an absent key, text that is
not JSON, and JSON that is no array are all misses. -/
def decodeGet (backend : Backend Raw) : Reply Raw → Except PyError (Option (List Json))
  | .value (some raw) =>
    match backend.loads raw with
    | .ok (.arr perms) => .ok (some perms)
    | .ok _ => .ok none
    | .error .jsonDecodeError => .ok none
    | .error e => .error e
  | _ => .ok none

/-- Only a value that decodes to an array is a hit. -/
theorem decodeGet_some {backend : Backend Raw} {reply : Reply Raw} {perms : List Json}
    (h : decodeGet backend reply = .ok (some perms)) :
    ∃ raw, reply = .value (some raw) ∧ backend.loads raw = .ok (.arr perms) := by
  unfold decodeGet at h
  split at h
  next raw =>
    split at h
    next perms' hl =>
      cases h
      exact ⟨raw, rfl, hl⟩
    next => cases h
    next => cases h
    next => cases h
  next => cases h

/-- A read up to its first await: the GET is issued. -/
def ReadCall.start (cfg : Config Raw) (now : ℕ) (client : ClientId) (userId tenantId : String)
    (ask : Ask) : ReadCall Raw where
  client := client
  userId := userId
  tenantId := tenantId
  ask := ask
  pc := .cacheGet
  port := .sent (.get (cfg.backend.key userId tenantId))
  mustCancel := false
  sampled := none
  cancelCalled := false
  began := now
  ended := none

/-- The SET NX of a populate. -/
def populateCommand (cfg : Config Raw) (userId tenantId : String) (perms : List Json) :
    Command Raw :=
  .set (cfg.backend.key userId tenantId) (cfg.backend.dumps perms) cfg.backend.ex true

/-- A mutating call up to its first await. -/
def MutationCall.start (cfg : Config Raw) (now : ℕ) (request : MutationRequest) :
    MutationCall Raw :=
  let suspended : MutationPc × Command Raw := match request with
    | .writeThrough u t perms =>
      (.writing, .set (cfg.backend.key u t) (cfg.backend.dumps perms) cfg.backend.ex false)
    | .invalidate u (some t) => (.deleting, .delete [cfg.backend.key u t])
    | .invalidate u none => (.scanning (.user u) 0, .scan 0 (.user u))
    | .invalidateTenant t => (.scanning (.tenant t) 0, .scan 0 (.tenant t))
  { request := request, pc := suspended.1, port := .sent suspended.2, progress := ⟨none, []⟩,
    began := now, ended := none }

/-- A mutating call to which a reply has come back. -/
def MutationCall.answered (m : MutationCall Raw) (now : ℕ) (reply : Reply Raw) :
    MutationCall Raw :=
  { m with port := .replied reply, progress := m.progress.advance now reply }

namespace World

/-- The state of a future. -/
def futureState (w : World Raw) (f : FutureId) : Option FutureState :=
  (w.futures[f]?).map Future.state

/-- Advance the clock. -/
def tick (w : World Raw) : World Raw := { w with clock := w.clock + 1 }

/-- Replace a read. -/
def putRead (w : World Raw) (i : ReadId) (r : ReadCall Raw) : World Raw :=
  { w with reads := w.reads.set i r }

/-- Replace a mutating call. -/
def putMutation (w : World Raw) (j : MutationId) (m : MutationCall Raw) : World Raw :=
  { w with mutations := w.mutations.set j m }

/-- End a read. -/
def finishRead (w : World Raw) (i : ReadId) (r : ReadCall Raw) (outcome : Outcome) (via : Via) :
    World Raw :=
  w.putRead i { r with pc := .done outcome via, ended := some w.clock }

/-- Change the state of a future. -/
def settle (w : World Raw) (f : FutureId) (st : FutureState) : World Raw :=
  { w with futures := w.futures.modify f fun fut => { fut with state := st } }

/-- `self._in_flight.pop(lock_key, None)`. -/
def popInFlight (w : World Raw) (c : ClientId) (k : String) : World Raw :=
  { w with inFlight := Function.update w.inFlight c ((w.inFlight c).pop k) }

/-- Create the future, register it, and call Helios. -/
def lead (w : World Raw) (i : ReadId) (r : ReadCall Raw) : World Raw :=
  { w with
    futures := w.futures ++ [⟨i, .pending⟩]
    inFlight := Function.update w.inFlight r.client
      ((w.inFlight r.client).set r.lock w.futures.length)
    reads := w.reads.set i { r with pc := .heliosFetch w.futures.length }
    heliosCalls := w.heliosCalls ++ [(r.client, r.userId, r.tenantId)] }

/-- An exception leaves `_fetch_and_populate`: the finally clause removes the
entry and the exception goes on; the future stays as it is. -/
def abandon (w : World Raw) (i : ReadId) (r : ReadCall Raw) (f : FutureId) (err : PyError) :
    World Raw :=
  (w.popInFlight r.client r.lock).finishRead i r (.error err) (.led f)

/-- `_fetch_and_populate` settles the future and ends, the finally clause removes
the entry, and the future, done by now, is awaited. Settling a future that is
already done raises instead. -/
def conclude (w : World Raw) (i : ReadId) (r : ReadCall Raw) (f : FutureId) (outcome : Outcome) :
    World Raw :=
  match w.futureState f with
  | some .pending =>
    ((w.settle f (.ofOutcome outcome)).popInFlight r.client r.lock).finishRead i r outcome (.led f)
  | _ => w.abandon i r f .invalidStateError

/-- What the leader of an unreachable fetch gives every caller. -/
def unreachableOutcome (cfg : Config Raw) (c : ClientId) (message : String) : Outcome :=
  if cfg.staleOnError c then .ok [] else .error (.heliosUnreachable message)

/-- `_resolve_perms` after a cache miss: join the fetch in flight, or lead one.
Awaiting a future that is already done does not suspend. -/
def afterMiss (w : World Raw) (i : ReadId) (r : ReadCall Raw) : Option (World Raw) :=
  match (w.inFlight r.client).get? r.lock with
  | none => some (w.lead i r)
  | some f =>
    match w.futureState f with
    | none => none
    | some st =>
      match st.outcome with
      | none => some (w.putRead i { r with pc := .joined f })
      | some outcome => some (w.finishRead i r outcome (.joined f))

/-- `_fetch_and_populate` after the Helios fetch. -/
def afterFetch (cfg : Config Raw) (w : World Raw) (i : ReadId) (r : ReadCall Raw) (f : FutureId)
    (outcome : HttpOutcome) : World Raw :=
  match fetchEnd r.userId r.tenantId outcome with
  | .unreachable message => w.conclude i r f (unreachableOutcome cfg r.client message)
  | .escaped err => w.abandon i r f err
  | .resolved perms =>
    w.putRead i { r with
      pc := .cacheSet f perms
      port := .sent (populateCommand cfg r.userId r.tenantId perms) }

/-- `CancelledError` is thrown into a suspended read. -/
def throwCancelled (w : World Raw) (i : ReadId) (r : ReadCall Raw) : Option (World Raw) :=
  if r.pc.isDone then none
  else match r.pc.owned with
    | some f => some (w.abandon i r f .cancelledError)
    | none => some (w.finishRead i r (.error .cancelledError) r.pc.via)

/-- The event loop runs a read that is not about to be cancelled. -/
def continueRead (cfg : Config Raw) (w : World Raw) (i : ReadId) (r : ReadCall Raw) :
    Option (World Raw) :=
  match r.pc with
  | .cacheGet =>
    match r.port with
    | .sent _ => none
    | .replied reply =>
      match decodeGet cfg.backend reply with
      | .error err => some (w.finishRead i r (.error err) .cache)
      | .ok (some perms) => some (w.finishRead i r (.ok perms) .cache)
      | .ok none => w.afterMiss i r
  | .joined f =>
    match (w.futureState f).bind FutureState.outcome with
    | none => none
    | some outcome => some (w.finishRead i r outcome (.joined f))
  | .heliosFetch f =>
    match r.sampled with
    | none => none
    | some (_, outcome) => some (w.afterFetch cfg i r f outcome)
  | .cacheSet f perms =>
    match r.port with
    | .sent _ => none
    | .replied _ => some (w.conclude i r f (.ok perms))
  | .done _ _ => none

/-- `task.cancel()`: a pending future that the task awaits directly is cancelled;
any other suspended task is marked. -/
def cancelRead (w : World Raw) (i : ReadId) (r : ReadCall Raw) : World Raw :=
  match r.pc with
  | .done _ _ => w
  | .joined f =>
    match w.futureState f with
    | some .pending => (w.settle f .cancelled).putRead i { r with cancelCalled := true }
    | _ => w.putRead i { r with mustCancel := true, cancelCalled := true }
  | _ => w.putRead i { r with mustCancel := true, cancelCalled := true }

end World

/-- A mutating call once a reply has arrived: how it goes on. `write_through`
ignores a failure; the invalidations raise it. -/
def MutationCall.advance (now : ℕ) (m : MutationCall Raw) (reply : Reply Raw) :
    Option (MutationCall Raw) :=
  let finish (outcome : Except PyError ℕ) : MutationCall Raw :=
    { m with pc := .done outcome, ended := some now }
  let scan (scope : Scope) (totalDeleted cursor : ℕ) : MutationCall Raw :=
    if cursor = 0 then finish (.ok totalDeleted)
    else { m with pc := .scanning scope totalDeleted, port := .sent (.scan cursor scope) }
  match m.pc, reply with
  | .writing, _ => some (finish (.ok 0))
  | .deleting, .deleted count => some (finish (.ok count))
  | .deleting, .failed => some (finish (.error .redisError))
  | .scanning scope totalDeleted, .page cursor keys =>
    if keys = [] then some (scan scope totalDeleted cursor)
    else some { m with
      pc := .deletingPage scope totalDeleted cursor
      port := .sent (.delete keys) }
  | .scanning _ _, .failed => some (finish (.error .redisError))
  | .deletingPage scope totalDeleted cursor, .deleted count =>
    some (scan scope (totalDeleted + count) cursor)
  | .deletingPage _ _ _, .failed => some (finish (.error .redisError))
  | _, _ => none

/-- What an action makes of the world, before the clock advances. -/
def move (cfg : Config Raw) (w : World Raw) : Action → Option (World Raw)
  | .read c u t ask => some { w with reads := w.reads ++ [.start cfg w.clock c u t ask] }
  | .mutate request =>
    some { w with mutations := w.mutations ++ [.start cfg w.clock request] }
  | .serveRead i fate => do
    let r ← w.reads[i]?
    match r.port with
    | .replied _ => none
    | .sent cmd =>
      let (reply, store) ← serve cfg.backend w.clock (.populate i) ⟨none, []⟩ w.store cmd fate
      some ({ w with store := store }.putRead i { r with port := .replied reply })
  | .serveMutation j fate => do
    let m ← w.mutations[j]?
    match m.port with
    | .replied _ => none
    | .sent cmd =>
      let (reply, store) ← serve cfg.backend w.clock (.writeThrough j) m.progress w.store cmd fate
      some ({ w with store := store }.putMutation j (m.answered w.clock reply))
  | .sample i fate => do
    let r ← w.reads[i]?
    match r.pc, r.sampled with
    | .heliosFetch _, none =>
      let outcome := fate.outcome (w.membership r.userId r.tenantId)
      some (w.putRead i { r with sampled := some (w.clock, outcome) })
    | _, _ => none
  | .resumeRead i => do
    let r ← w.reads[i]?
    if r.mustCancel then w.throwCancelled i r else w.continueRead cfg i r
  | .resumeMutation j => do
    let m ← w.mutations[j]?
    match m.port with
    | .sent _ => none
    | .replied reply => (m.advance w.clock reply).map (w.putMutation j)
  | .cancel i => do
    let r ← w.reads[i]?
    some (w.cancelRead i r)
  | .change u t body =>
    let changed := Function.update w.membership u (Function.update (w.membership u) t body)
    some { w with membership := changed }
  | .expire k => do
    let entry ← w.store.get? k
    if entry.ex.isSome then some { w with store := w.store.pop k } else none

/-- One step of the system. -/
def step (cfg : Config Raw) (w : World Raw) (a : Action) : Option (World Raw) :=
  (move cfg w a).map World.tick

/-- The start: a cache with some content, nothing in flight, no call yet. -/
def World.init (content : OrderedDict String (Raw × Option ℕ))
    (membership : String → String → Json) : World Raw where
  store := content.mapValues fun v => ⟨v.1, .initial, 0, 0, v.2⟩
  membership := membership
  inFlight := fun _ => .empty
  futures := []
  reads := []
  mutations := []
  heliosCalls := []
  clock := 1

/-- Some run from a start world ends here. -/
def Reachable (cfg : Config Raw) (w : World Raw) : Prop :=
  ∃ content membership as, PartialRuns.run (step cfg) (.init content membership) as = some w

/-- The body of an active membership. -/
def activeBody (perms : List Json) : Json :=
  .obj [("status", .str "active"), ("role", .str "OWNER"), ("permissions", .arr perms)]

/-- The body for a user who is no member. -/
def notMemberBody : Json := .obj [("status", .str "not_a_member")]

/-- Clients over a Redis cache without TTL, for the runs on fixed inputs. -/
def fixedConfig (staleOnError : Bool) : Config (List Json) where
  backend := redisBackend plainCodec 0
  staleOnError := fun _ => staleOnError

/-- An empty cache, while Helios answers every pair with one permission. -/
def fixedWorld : World (List Json) :=
  .init .empty fun _ _ => activeBody [.str "helios:members:view"]

/-- Where a run on fixed inputs ends. -/
def endOf (staleOnError : Bool) (as : List Action) : World (List Json) :=
  (PartialRuns.run (step (fixedConfig staleOnError)) fixedWorld as).getD fixedWorld

/-- A run on fixed inputs ends in its end. -/
theorem run_endOf {staleOnError : Bool} {as : List Action}
    (h : (PartialRuns.run (step (fixedConfig staleOnError)) fixedWorld as).isSome = true) :
    PartialRuns.run (step (fixedConfig staleOnError)) fixedWorld as =
      some (endOf staleOnError as) := by
  obtain ⟨w, hw⟩ := Option.isSome_iff_exists.mp h
  rw [endOf, hw]
  rfl

/-- The end of a run on fixed inputs is reachable. -/
theorem reachable_endOf {staleOnError : Bool} {as : List Action}
    (h : (PartialRuns.run (step (fixedConfig staleOnError)) fixedWorld as).isSome = true) :
    Reachable (fixedConfig staleOnError) (endOf staleOnError as) :=
  ⟨.empty, _, as, run_endOf h⟩

end HeliosPermissions.ClientWorld
