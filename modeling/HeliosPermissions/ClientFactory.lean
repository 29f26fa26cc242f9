import Mathlib.Data.List.Nodup
import HeliosPermissions.IndexedTables
import HeliosPermissions.PartialRuns

/-!
# What the factory opens and its closer releases

`create_permission_client` opens a Redis connection unless it is given one, and the
`HeliosClient` in it an HTTP client; the closer releases both. Here services open
connections of their own, make clients with them or without, directly or through the
factory, and close them, as often and in whatever order, while constructors and closings
raise at times.
-/

namespace HeliosPermissions.ClientFactory

open IndexedTables PartialRuns

/-- `redis.asyncio.Redis` or `httpx.AsyncClient`. -/
inductive Kind where
  | redis
  | httpx
  deriving DecidableEq

/-- A connection pool. -/
structure Connection where
  /-- What it connects to. -/
  kind : Kind
  /-- It was opened by the SDK, and not by the service. -/
  ours : Bool
  /-- It has not been released. -/
  isOpen : Bool

/-- Index of a connection in the table of connections. -/
abbrev ConnectionId := ℕ

/-- Why a constructor raises. -/
inductive ConstructError where
  | valueError (message : String)
  /-- What `Redis.from_url` or `httpx.AsyncClient` raises. -/
  | foreign

/-- `HeliosClient`, as far as its HTTP client goes. -/
structure HeliosClient where
  /-- The HTTP client it uses, `_client`. -/
  client : ConnectionId
  /-- Whether it opened that client itself, `_owns_client`. -/
  ownsClient : Bool

/-- The variables that the closer of the factory sees. A `HeliosClient` made directly is closed
by its own `aclose`, which is what a closer without Redis does. -/
structure Closer where
  /-- The Helios client of the permission client. -/
  helios : HeliosClient
  /-- The Redis client that the factory used, if any. -/
  redis : Option ConnectionId
  /-- Whether the factory opened that Redis client itself. -/
  ownsRedis : Bool

/-- `x or y` of two strings that may be `None`. -/
def orElse (x y : Option String) : Option String :=
  match x with
  | some text => if text = "" then y else some text
  | none => y

/-- The arguments of `HeliosClient` that its connections depend on. -/
structure HeliosArgs where
  /-- `signature_shared_secret`. -/
  signatureSharedSecret : Option String
  /-- `hmac_secret`. -/
  hmacSecret : Option String
  /-- Whether a `fetch_impl` is passed. -/
  fetchImpl : Bool
  /-- `client`, an HTTP client of the service. -/
  client : Option ConnectionId

/-- A connection that the SDK opens. -/
def opened (kind : Kind) : Connection := ⟨kind, true, true⟩

/-- `HeliosClient.__init__`. Without a client it opens one, also when it is not going to own it. -/
def HeliosClient.init (args : HeliosArgs) (httpxRaises : Bool) (rows : List Connection) :
    Except ConstructError HeliosClient × List Connection :=
  match orElse args.signatureSharedSecret args.hmacSecret with
  | none =>
    (.error (.valueError ("Either signature_shared_secret (preferred) or hmac_secret " ++
      "(deprecated alias) is required")), rows)
  | some _ =>
    match args.client with
    | some c => (.ok ⟨c, false⟩, rows)
    | none =>
      if httpxRaises then (.error .foreign, rows)
      else (.ok ⟨rows.length, !args.fetchImpl⟩, rows ++ [opened .httpx])

/-- The arguments of `create_permission_client` that its connections depend on. -/
structure FactoryArgs where
  /-- `signature_shared_secret`. -/
  signatureSharedSecret : Option String
  /-- `helios_hmac_secret`. -/
  heliosHmacSecret : Option String
  /-- `redis_url`. -/
  redisUrl : Option String
  /-- `redis`, a Redis client of the service. -/
  redis : Option ConnectionId
  /-- `in_memory`. -/
  inMemory : Bool

/-- Which constructors of others raise. -/
structure BuildEnv where
  /-- `Redis.from_url` raises. -/
  redisRaises : Bool
  /-- `httpx.AsyncClient` raises. -/
  httpxRaises : Bool

/-- The cache part of the factory: the variables `redis` and `owns_redis`. -/
def selectRedis (args : FactoryArgs) (env : BuildEnv) (rows : List Connection) :
    Except ConstructError (Option ConnectionId × Bool) × List Connection :=
  if args.inMemory then (.ok (args.redis, false), rows)
  else match args.redis with
    | some r => (.ok (some r, false), rows)
    | none =>
      match args.redisUrl with
      | none =>
        (.error (.valueError ("redis_url is required when redis is not injected and " ++
          "in_memory is False")), rows)
      | some _ =>
        if env.redisRaises then (.error .foreign, rows)
        else (.ok (some rows.length, true), rows ++ [opened .redis])

/-- `create_permission_client`. -/
def createPermissionClient (args : FactoryArgs) (env : BuildEnv) (rows : List Connection) :
    Except ConstructError Closer × List Connection :=
  if args.signatureSharedSecret.isNone && args.heliosHmacSecret.isNone then
    (.error (.valueError ("Either signature_shared_secret (preferred) or helios_hmac_secret " ++
      "(deprecated alias) is required")), rows)
  else
    match selectRedis args env rows with
    | (.error err, rows) => (.error err, rows)
    | (.ok (redis, ownsRedis), rows) =>
      match HeliosClient.init
        ⟨args.signatureSharedSecret, args.heliosHmacSecret, false, none⟩ env.httpxRaises rows with
      | (.error err, rows) => (.error err, rows)
      | (.ok helios, rows) => (.ok ⟨helios, redis, ownsRedis⟩, rows)

/-- How an `aclose` of a connection ends: it returns, or raises, before or after releasing it. -/
inductive CloseFate where
  | returns
  | raises (released : Bool)
  deriving DecidableEq

def CloseFate.returned : CloseFate → Bool
  | .returns => true
  | .raises _ => false

def CloseFate.released : CloseFate → Bool
  | .returns => true
  | .raises released => released

/-- `aclose` of a connection. -/
def aclose (rows : List Connection) (r : ConnectionId) (fate : CloseFate) : List Connection :=
  if fate.released then rows.modify r fun row => { row with isOpen := false } else rows

/-- How the closings in a call of a closer end. -/
structure CloseEnv where
  /-- How the closing of the HTTP client ends. -/
  httpx : CloseFate
  /-- How the closing of the Redis client ends. -/
  redis : CloseFate

/-- `HeliosClient.aclose`, and whether it returns. -/
def HeliosClient.aclose (helios : HeliosClient) (fate : CloseFate) (rows : List Connection) :
    Bool × List Connection :=
  if helios.ownsClient then (fate.returned, ClientFactory.aclose rows helios.client fate)
  else (true, rows)

/-- `close` of the factory, and whether it returns. -/
def Closer.close (c : Closer) (env : CloseEnv) (rows : List Connection) :
    Bool × List Connection :=
  match c.helios.aclose env.httpx rows with
  | (false, rows) => (false, rows)
  | (true, rows) =>
    match c.ownsRedis, c.redis with
    | true, some r => (env.redis.returned, ClientFactory.aclose rows r env.redis)
    | _, _ => (true, rows)

/-- The connections, and the closers handed out. -/
structure Site where
  /-- The connections opened so far. -/
  rows : List Connection
  /-- The closers handed out so far. -/
  closers : List Closer

/-- What happens at a site. -/
inductive Event where
  /-- The service opens a connection. -/
  | inject (kind : Kind)
  | heliosClient (args : HeliosArgs) (httpxRaises : Bool)
  | create (args : FactoryArgs) (env : BuildEnv)
  /-- A closer is called. -/
  | close (j : ℕ) (env : CloseEnv)

/-- A connection of the service. -/
def injected (rows : List Connection) (kind : Kind) (r : ConnectionId) : Bool :=
  (rows[r]?).any fun row => row.kind = kind && !row.ours

/-- One event. What a service passes in is its own. -/
def siteStep (s : Site) : Event → Option Site
  | .inject kind => some { s with rows := s.rows ++ [⟨kind, false, true⟩] }
  | .heliosClient args httpxRaises =>
    if args.client.all (injected s.rows .httpx) then
      match HeliosClient.init args httpxRaises s.rows with
      | (.ok helios, rows) => some ⟨rows, s.closers ++ [⟨helios, none, false⟩]⟩
      | (.error _, rows) => some ⟨rows, s.closers⟩
    else none
  | .create args env =>
    if args.redis.all (injected s.rows .redis) then
      match createPermissionClient args env s.rows with
      | (.ok c, rows) => some ⟨rows, s.closers ++ [c]⟩
      | (.error _, rows) => some ⟨rows, s.closers⟩
    else none
  | .close j env => (s.closers[j]?).map fun c => { s with rows := (c.close env s.rows).2 }

/-- The connections that a closer is there to release. -/
def Closer.owned (c : Closer) : List ConnectionId :=
  (if c.helios.ownsClient then [c.helios.client] else []) ++
    (if c.ownsRedis then c.redis.toList else [])

/-- Whether a call of the closer releases a connection: its HTTP client when that closing
releases it, and its Redis connection when the HTTP client closed without an exception. -/
def Closer.releases (c : Closer) (env : CloseEnv) (r : ConnectionId) : Bool :=
  (c.helios.ownsClient && c.helios.client = r && env.httpx.released) ||
    (c.ownsRedis && c.redis = some r && (!c.helios.ownsClient || env.httpx.returned) &&
      env.redis.released)

/-- Whether the factory gets to open a Redis connection. -/
def opensRedis (args : FactoryArgs) (env : BuildEnv) : Bool :=
  (args.signatureSharedSecret.isSome || args.heliosHmacSecret.isSome) && !args.inMemory &&
    args.redis.isNone && args.redisUrl.isSome && !env.redisRaises

/-- The calls that leave a connection of the SDK with nobody to close it: a `HeliosClient` with a
`fetch_impl` and no client, and a factory that has opened Redis when the secret turns out
empty or the HTTP client cannot be made. -/
def leavesOpen : Event → Bool
  | .heliosClient args httpxRaises =>
    (orElse args.signatureSharedSecret args.hmacSecret).isSome && args.client.isNone &&
      args.fetchImpl && !httpxRaises
  | .create args env =>
    opensRedis args env &&
      ((orElse args.signatureSharedSecret args.heliosHmacSecret).isNone || env.httpxRaises)
  | _ => false

section closing

/-- Closing a connection changes its own row at most. -/
theorem getElem?_aclose (rows : List Connection) (r x : ConnectionId) (fate : CloseFate) :
    (aclose rows r fate)[x]? = (rows[x]?).map fun row =>
      if r = x ∧ fate.released = true then { row with isOpen := false } else row := by
  unfold aclose
  by_cases hf : fate.released = true
  · rw [if_pos hf, List.getElem?_modify]
    by_cases hx : r = x
    · simp [hx, hf]
    · simp [hx]
  · rw [if_neg hf]
    simp [hf]

/-- What a call of a closer does to each connection. -/
theorem Closer.getElem?_close (c : Closer) (env : CloseEnv) (rows : List Connection)
    (x : ConnectionId) : (c.close env rows).2[x]? = (rows[x]?).map fun row =>
      if c.releases env x = true then { row with isOpen := false } else row := by
  obtain ⟨⟨client, ownsClient⟩, redis, ownsRedis⟩ := c
  obtain ⟨httpx, redisFate⟩ := env
  cases ownsClient with
  | false =>
    cases ownsRedis with
    | false => simp [Closer.close, HeliosClient.aclose, Closer.releases]
    | true =>
      cases redis with
      | none => simp [Closer.close, HeliosClient.aclose, Closer.releases]
      | some r =>
        simp [Closer.close, HeliosClient.aclose, Closer.releases, getElem?_aclose]
  | true =>
    cases hreturned : httpx.returned with
    | false =>
      simp [Closer.close, HeliosClient.aclose, Closer.releases, hreturned, getElem?_aclose]
    | true =>
      have hreleased : httpx.released = true := by
        cases httpx with
        | returns => rfl
        | raises released => cases hreturned
      cases ownsRedis with
      | false =>
        simp [Closer.close, HeliosClient.aclose, Closer.releases, hreturned, getElem?_aclose]
      | true =>
        cases redis with
        | none =>
          simp [Closer.close, HeliosClient.aclose, Closer.releases, hreturned, getElem?_aclose]
        | some r =>
          simp only [Closer.close, HeliosClient.aclose, Closer.releases, hreturned, if_true,
            getElem?_aclose, hreleased, Option.map_map]
          cases rows[x]? with
          | none => rfl
          | some row =>
            by_cases hc : client = x
            · by_cases hr : r = x
              · cases redisFate.released <;> simp [hc, hr]
              · cases redisFate.released <;> simp [hc, hr]
            · by_cases hr : r = x
              · cases redisFate.released <;> simp [hc, hr]
              · cases redisFate.released <;> simp [hc, hr]

/-- A call of a closer that returns has released everything. -/
theorem Closer.releases_of_returned {c : Closer} {env : CloseEnv} {rows : List Connection}
    {r : ConnectionId} (h : (c.close env rows).1 = true) (hr : r ∈ c.owned) :
    c.releases env r = true := by
  have hreleased : ∀ fate : CloseFate, fate.returned = true → fate.released = true := by
    intro fate hfate
    cases fate with
    | returns => rfl
    | raises released => cases hfate
  obtain ⟨⟨client, ownsClient⟩, redis, ownsRedis⟩ := c
  have hhttpx : ownsClient = true → env.httpx.returned = true := by
    rintro rfl
    cases hraised : env.httpx.returned with
    | true => rfl
    | false => simp [Closer.close, HeliosClient.aclose, hraised] at h
  simp only [Closer.owned, List.mem_append] at hr
  rcases hr with hr | hr
  · split_ifs at hr with howns
    · obtain rfl := List.mem_singleton.mp hr
      simp [Closer.releases, howns, hreleased _ (hhttpx howns)]
    · cases hr
  · split_ifs at hr with howns
    · have hredis : redis = some r := Option.mem_toList.mp hr
      subst howns hredis
      have hreturned : env.redis.returned = true := by
        cases ownsClient with
        | false => simpa [Closer.close, HeliosClient.aclose] using h
        | true => simpa [Closer.close, HeliosClient.aclose, hhttpx rfl] using h
      cases ownsClient with
      | false => simp [Closer.releases, hreleased _ hreturned]
      | true => simp [Closer.releases, hreleased _ hreturned, hhttpx rfl]
    · cases hr

/-- A closer releases only what it owns. -/
theorem Closer.mem_owned_of_releases {c : Closer} {env : CloseEnv} {r : ConnectionId}
    (h : c.releases env r = true) : r ∈ c.owned := by
  simp only [Closer.releases, Bool.or_eq_true, Bool.and_eq_true, decide_eq_true_eq] at h
  rcases h with ⟨⟨hown, rfl⟩, -⟩ | ⟨⟨⟨hown, hr⟩, -⟩, -⟩
  · simp [Closer.owned, hown]
  · simp [Closer.owned, hown, hr]

end closing

section building

variable {s s' : Site} {e : Event}

/-- What a constructor adds: connections, and perhaps a closer for some of them. All of the
connections have it for their closer, or there is one more and the call is one that leaves it
open. -/
structure Builds (e : Event) (s : Site) (kinds : List Kind) (added : List Closer) (s' : Site) :
    Prop where
  /-- The event is no call of a closer. -/
  notClose : ∀ j env, e ≠ .close j env
  /-- The new connections come after the old ones. -/
  rows : s'.rows = s.rows ++ kinds.map opened
  /-- The new closers come after the old ones. -/
  closers : s'.closers = s.closers ++ added
  /-- A new closer owns new connections only. -/
  fresh : ∀ r ∈ added.flatMap Closer.owned, s.rows.length ≤ r ∧ r < s.rows.length + kinds.length
  /-- No connection has two closers. -/
  distinct : (added.flatMap Closer.owned).Nodup
  /-- Each new connection has a closer, but for one that the call leaves open. -/
  count : kinds.length = (added.flatMap Closer.owned).length + if leavesOpen e then 1 else 0

/-- What `HeliosClient` adds. -/
theorem heliosClient_builds {args : HeliosArgs} {httpxRaises : Bool}
    (h : siteStep s (.heliosClient args httpxRaises) = some s') :
    ∃ kinds added, Builds (.heliosClient args httpxRaises) s kinds added s' := by
  simp only [siteStep] at h
  split_ifs at h with hgiven
  · unfold HeliosClient.init at h
    cases hsecret : orElse args.signatureSharedSecret args.hmacSecret with
    | none =>
      rw [hsecret] at h
      cases h
      exact ⟨[], [], by simp, by simp, by simp, by simp, by simp, by simp [leavesOpen, hsecret]⟩
    | some secret =>
      rw [hsecret] at h
      cases hclient : args.client with
      | some c =>
        rw [hclient] at h
        cases h
        exact ⟨[], [_], by simp, by simp, rfl, by simp [Closer.owned], by simp [Closer.owned],
          by simp [leavesOpen, hclient, Closer.owned]⟩
      | none =>
        rw [hclient] at h
        cases httpxRaises with
        | true =>
          cases h
          exact ⟨[], [], by simp, by simp, by simp, by simp, by simp, by simp [leavesOpen]⟩
        | false =>
          cases h
          refine ⟨[.httpx], [_], by simp, rfl, rfl, ?_, ?_, ?_⟩
          · cases args.fetchImpl <;> simp [Closer.owned]
          · cases args.fetchImpl <;> simp [Closer.owned]
          · cases hfetch : args.fetchImpl <;>
              simp [Closer.owned, leavesOpen, hsecret, hclient, hfetch]

/-- The ways in which the factory comes by its Redis connection, or by none. -/
theorem selectRedis_cases (args : FactoryArgs) (env : BuildEnv) (rows : List Connection) :
    (∃ err, selectRedis args env rows = (.error err, rows) ∧ opensRedis args env = false) ∨
      (selectRedis args env rows = (.ok (args.redis, false), rows) ∧
        opensRedis args env = false) ∨
      (selectRedis args env rows = (.ok (some rows.length, true), rows ++ [opened .redis]) ∧
        opensRedis args env =
          (args.signatureSharedSecret.isSome || args.heliosHmacSecret.isSome)) := by
  unfold selectRedis opensRedis
  cases hmemory : args.inMemory with
  | true => exact Or.inr (Or.inl ⟨rfl, by simp⟩)
  | false =>
    cases hredis : args.redis with
    | some r => exact Or.inr (Or.inl ⟨rfl, by simp⟩)
    | none =>
      cases hurl : args.redisUrl with
      | none => exact Or.inl ⟨_, rfl, by simp⟩
      | some url =>
        cases hraises : env.redisRaises with
        | true => exact Or.inl ⟨_, rfl, by simp⟩
        | false => exact Or.inr (Or.inr ⟨rfl, by simp⟩)

/-- The `HeliosClient` of the factory has a client of its own, or raises. -/
theorem init_cases (signature hmac : Option String) (httpxRaises : Bool)
    (rows : List Connection) :
    (∃ err, HeliosClient.init ⟨signature, hmac, false, none⟩ httpxRaises rows =
        (.error err, rows) ∧ ((orElse signature hmac).isNone || httpxRaises) = true) ∨
      (HeliosClient.init ⟨signature, hmac, false, none⟩ httpxRaises rows =
        (.ok ⟨rows.length, true⟩, rows ++ [opened .httpx]) ∧
        ((orElse signature hmac).isNone || httpxRaises) = false) := by
  unfold HeliosClient.init
  cases orElse signature hmac with
  | none => exact Or.inl ⟨_, rfl, rfl⟩
  | some secret =>
    cases httpxRaises with
    | true => exact Or.inl ⟨_, rfl, rfl⟩
    | false => exact Or.inr ⟨rfl, rfl⟩

/-- What `create_permission_client` adds. -/
theorem create_builds {args : FactoryArgs} {env : BuildEnv}
    (h : siteStep s (.create args env) = some s') :
    ∃ kinds added, Builds (.create args env) s kinds added s' := by
  have hnone (hsame : s' = s) (hopens : opensRedis args env = false) :
      ∃ kinds added, Builds (.create args env) s kinds added s' := by
    subst hsame
    exact ⟨[], [], by simp, by simp, by simp, by simp, by simp, by simp [leavesOpen, hopens]⟩
  simp only [siteStep] at h
  split_ifs at h with hgiven
  · unfold createPermissionClient at h
    split_ifs at h with hsecrets
    · cases h
      refine hnone rfl ?_
      simp only [Bool.and_eq_true, Option.isNone_iff_eq_none] at hsecrets
      simp [opensRedis, hsecrets.1, hsecrets.2]
    · have hsome : (args.signatureSharedSecret.isSome || args.heliosHmacSecret.isSome) = true := by
        cases hsig : args.signatureSharedSecret with
        | some text => rfl
        | none =>
          cases hhmac : args.heliosHmacSecret with
          | some text => rfl
          | none => simp [hsig, hhmac] at hsecrets
      rcases selectRedis_cases args env s.rows with
        ⟨err, hselect, hopens⟩ | ⟨hselect, hopens⟩ | ⟨hselect, hopens⟩
      · rw [hselect] at h
        cases h
        exact hnone rfl hopens
      · rw [hselect] at h
        dsimp only at h
        rcases init_cases args.signatureSharedSecret args.heliosHmacSecret env.httpxRaises
          s.rows with ⟨err, hinit, -⟩ | ⟨hinit, -⟩
        · rw [hinit] at h
          cases h
          exact hnone rfl hopens
        · rw [hinit] at h
          cases h
          exact ⟨[.httpx], [_], by simp, rfl, rfl, by simp [Closer.owned], by simp [Closer.owned],
            by simp [Closer.owned, leavesOpen, hopens]⟩
      · rw [hselect] at h
        dsimp only at h
        rcases init_cases args.signatureSharedSecret args.heliosHmacSecret env.httpxRaises
          (s.rows ++ [opened .redis]) with ⟨err, hinit, hfails⟩ | ⟨hinit, hfails⟩
        · -- Redis has been opened, and there is nobody to close it
          rw [hinit] at h
          cases h
          exact ⟨[.redis], [], by simp, rfl, by simp, by simp, by simp,
            by simp [leavesOpen, hopens, hsome, hfails]⟩
        · rw [hinit] at h
          cases h
          refine ⟨[.redis, .httpx], [_], by simp, by simp, rfl, ?_, ?_, ?_⟩
          · simp [Closer.owned]
          · simp [Closer.owned]
          · simp [Closer.owned, leavesOpen, hfails]

/-- The three kinds of events. -/
theorem step_cases (h : siteStep s e = some s') :
    (∃ kind, e = .inject kind ∧ s' = { s with rows := s.rows ++ [⟨kind, false, true⟩] }) ∨
      (∃ j c env, e = .close j env ∧ s.closers[j]? = some c ∧
        s' = { s with rows := (c.close env s.rows).2 }) ∨
      ∃ kinds added, Builds e s kinds added s' := by
  cases e with
  | inject kind => exact Or.inl ⟨kind, rfl, (Option.some.inj h).symm⟩
  | heliosClient args httpxRaises => exact Or.inr (Or.inr (heliosClient_builds h))
  | create args env => exact Or.inr (Or.inr (create_builds h))
  | close j env =>
    obtain ⟨c, hc, rfl⟩ := Option.map_eq_some_iff.mp h
    exact Or.inr (Or.inl ⟨j, c, env, rfl, hc, rfl⟩)

end building

section accounts

variable {past : List Event} {s s' : Site} {e : Event}

/-- Every connection of the SDK has one closer, which decides when it is released, or is one
of those that were left open. -/
structure Accounted (past : List Event) (s : Site) : Prop where
  /-- Only closers handed out have been called. -/
  called : ∀ j env, .close j env ∈ past → j < s.closers.length
  /-- An owned connection is closed exactly when its closer has released it. -/
  owned : ∀ (j : ℕ) (c : Closer) (r : ConnectionId), s.closers[j]? = some c → r ∈ c.owned →
    ∃ row, s.rows[r]? = some row ∧ row.ours = true ∧
      (row.isOpen = false ↔ ∃ env, .close j env ∈ past ∧ c.releases env r = true)
  /-- A connection without a closer stays open. -/
  unowned : ∀ (r : ConnectionId) (row : Connection), s.rows[r]? = some row →
    (∀ c ∈ s.closers, r ∉ c.owned) → row.isOpen = true
  /-- No connection has two closers. -/
  distinct : (s.closers.flatMap Closer.owned).Nodup
  /-- Every connection of the SDK has a closer or was left open. -/
  count : s.rows.countP Connection.ours =
    (s.closers.flatMap Closer.owned).length + past.countP leavesOpen

/-- A connection has one closer. -/
theorem owner_unique (h : (s.closers.flatMap Closer.owned).Nodup) {j j' : ℕ} {c c' : Closer}
    {r : ConnectionId} (hc : s.closers[j]? = some c) (hc' : s.closers[j']? = some c')
    (hr : r ∈ c.owned) (hr' : r ∈ c'.owned) : j = j' := by
  have hpairs := (List.nodup_flatMap.mp h).2
  rw [List.pairwise_iff_getElem] at hpairs
  obtain ⟨hj, rfl⟩ := List.getElem?_eq_some_iff.mp hc
  obtain ⟨hj', rfl⟩ := List.getElem?_eq_some_iff.mp hc'
  by_contra hne
  rcases Nat.lt_or_gt_of_ne hne with hlt | hlt
  · exact hpairs j j' hj hj' hlt hr hr'
  · exact hpairs j' j hj' hj hlt hr' hr

/-- An event that calls no closer adds no call of one. -/
theorem mem_past_append {j : ℕ} {env : CloseEnv} (he : ∀ j env, e ≠ .close j env) :
    .close j env ∈ past ++ [e] ↔ .close j env ∈ past := by
  have hne : Event.close j env ≠ e := fun heq => he j env heq.symm
  simp [hne]

/-- The service opens a connection. -/
theorem Accounted.injected (h : Accounted past s) (kind : Kind) :
    Accounted (past ++ [.inject kind]) { s with rows := s.rows ++ [⟨kind, false, true⟩] } where
  called j env hmem := h.called j env ((mem_past_append (by simp)).mp hmem)
  owned j c r hc hr := by
    obtain ⟨row, hrow, hours, hopen⟩ := h.owned j c r hc hr
    refine ⟨row, get_append_of_get hrow, hours, hopen.trans ?_⟩
    refine exists_congr fun env => and_congr_left' ?_
    exact (mem_past_append (by simp)).symm
  unowned r row hrow hfree := by
    rcases get_append_cases hrow with ⟨-, rfl⟩ | hold
    · rfl
    · exact h.unowned r row hold hfree
  distinct := h.distinct
  count := by
    have hcount := h.count
    simp only [List.countP_append, List.countP_singleton, leavesOpen]
    simpa using hcount

/-- A closer is called. -/
theorem Accounted.closed (h : Accounted past s) {j : ℕ} {c : Closer} (env : CloseEnv)
    (hc : s.closers[j]? = some c) :
    Accounted (past ++ [.close j env]) { s with rows := (c.close env s.rows).2 } where
  called j' env' hmem := by
    rcases List.mem_append.mp hmem with hpast | hlast
    · exact h.called j' env' hpast
    · cases List.mem_singleton.mp hlast
      exact lt_length_of_get hc
  owned j' c' r hc' hr := by
    obtain ⟨row, hrow, hours, hopen⟩ := h.owned j' c' r hc' hr
    have hafter := c.getElem?_close env s.rows r
    rw [hrow, Option.map_some] at hafter
    by_cases hreleased : c.releases env r = true
    · -- only the closer of the connection releases it
      obtain rfl := owner_unique h.distinct hc hc' (Closer.mem_owned_of_releases hreleased) hr
      obtain rfl : c = c' := Option.some.inj (hc.symm.trans hc')
      rw [if_pos hreleased] at hafter
      have hcalled : Event.close j env ∈ past ++ [.close j env] := by simp
      exact ⟨_, hafter, hours, iff_of_true rfl ⟨env, hcalled, hreleased⟩⟩
    · rw [if_neg hreleased] at hafter
      refine ⟨row, hafter, hours, hopen.trans ?_⟩
      constructor
      · rintro ⟨env', hmem, hrel⟩
        exact ⟨env', List.mem_append_left _ hmem, hrel⟩
      · rintro ⟨env', hmem, hrel⟩
        rcases List.mem_append.mp hmem with hpast | hlast
        · exact ⟨env', hpast, hrel⟩
        · cases List.mem_singleton.mp hlast
          obtain rfl : c = c' := Option.some.inj (hc.symm.trans hc')
          exact absurd hrel hreleased
  unowned r row hrow hfree := by
    have hafter := c.getElem?_close env s.rows r
    have hnot : ¬c.releases env r = true := fun hreleased =>
      hfree c (List.mem_of_getElem? hc) (Closer.mem_owned_of_releases hreleased)
    simp only [if_neg hnot, Option.map_id'] at hafter
    exact h.unowned r row (hafter.symm.trans hrow) hfree
  distinct := h.distinct
  count := by
    have hours : ((c.close env s.rows).2).map Connection.ours = s.rows.map Connection.ours := by
      refine List.ext_getElem? fun x => ?_
      rw [List.getElem?_map, List.getElem?_map, c.getElem?_close env s.rows x, Option.map_map]
      refine congrArg (fun f => Option.map f s.rows[x]?) (funext fun row => ?_)
      simp only [Function.comp_apply]
      split_ifs <;> rfl
    have hcount : ((c.close env s.rows).2).countP Connection.ours =
        s.rows.countP Connection.ours := by
      have hmapped := congrArg (List.countP id) hours
      rwa [List.countP_map, List.countP_map] at hmapped
    simp only [hcount, h.count, List.countP_append, List.countP_singleton, leavesOpen]
    simp

/-- A constructor runs. -/
theorem Accounted.built (h : Accounted past s) {kinds : List Kind} {added : List Closer}
    (hb : Builds e s kinds added s') : Accounted (past ++ [e]) s' where
  called j env hmem := by
    have hold := h.called j env ((mem_past_append hb.notClose).mp hmem)
    rw [hb.closers, List.length_append]
    omega
  owned j c r hc hr := by
    rw [hb.closers] at hc
    by_cases hold : j < s.closers.length
    · rw [List.getElem?_append_left hold] at hc
      obtain ⟨row, hrow, hours, hopen⟩ := h.owned j c r hc hr
      have hkept : s'.rows[r]? = some row := by
        rw [hb.rows, List.getElem?_append_left (lt_length_of_get hrow)]
        exact hrow
      refine ⟨row, hkept, hours, hopen.trans ?_⟩
      refine exists_congr fun env => and_congr_left' ?_
      exact (mem_past_append hb.notClose).symm
    · -- a new closer, whose connections have just been opened
      rw [List.getElem?_append_right (Nat.le_of_not_lt hold)] at hc
      have hmem : r ∈ added.flatMap Closer.owned :=
        List.mem_flatMap.mpr ⟨c, List.mem_of_getElem? hc, hr⟩
      obtain ⟨hge, hlt⟩ := hb.fresh r hmem
      have hkind : r - s.rows.length < kinds.length := Nat.sub_lt_left_of_lt_add hge hlt
      have hrow : s'.rows[r]? = some (opened (kinds[r - s.rows.length])) := by
        rw [hb.rows, List.getElem?_append_right hge, List.getElem?_map,
          List.getElem?_eq_getElem hkind]
        rfl
      refine ⟨_, hrow, rfl, iff_of_false (by simp [opened]) ?_⟩
      rintro ⟨env, hpast, -⟩
      exact hold (h.called j env ((mem_past_append hb.notClose).mp hpast))
  unowned r row hrow hfree := by
    rw [hb.rows] at hrow
    by_cases hold : r < s.rows.length
    · rw [List.getElem?_append_left hold] at hrow
      refine h.unowned r row hrow fun c hc => hfree c ?_
      rw [hb.closers]
      exact List.mem_append_left _ hc
    · rw [List.getElem?_append_right (Nat.le_of_not_lt hold), List.getElem?_map] at hrow
      obtain ⟨kind, -, rfl⟩ := Option.map_eq_some_iff.mp hrow
      rfl
  distinct := by
    rw [hb.closers, List.flatMap_append]
    refine h.distinct.append hb.distinct ?_
    intro r hold hnew
    obtain ⟨c, hc, hr⟩ := List.mem_flatMap.mp hold
    obtain ⟨j, hj⟩ := List.mem_iff_getElem?.mp hc
    obtain ⟨row, hrow, -⟩ := h.owned j c r hj hr
    have hlt := lt_length_of_get hrow
    have hge := (hb.fresh r hnew).1
    omega
  count := by
    have hcount := h.count
    have hadded := hb.count
    have hours : (kinds.map opened).countP Connection.ours = kinds.length := by
      rw [List.countP_map]
      exact List.countP_eq_length.mpr fun _ _ => rfl
    rw [hb.rows, hb.closers, List.countP_append, List.flatMap_append, List.length_append, hours,
      List.countP_append, List.countP_singleton]
    omega

/-- Every event keeps the account. -/
theorem Accounted.next (h : Accounted past s) (hs : siteStep s e = some s') :
    Accounted (past ++ [e]) s' := by
  rcases step_cases hs with ⟨kind, rfl, rfl⟩ | ⟨j, c, env, rfl, hc, rfl⟩ | ⟨kinds, added, hb⟩
  · exact h.injected kind
  · exact h.closed env hc
  · exact h.built hb

end accounts

/-- No connection, no closer. -/
def Site.start : Site := ⟨[], []⟩

/-- At the start there is nothing to account for. -/
theorem start_accounted : Accounted [] Site.start where
  called _ _ h := by cases h
  owned _ _ _ h := by cases h
  unowned _ _ h := by cases h
  distinct := List.nodup_nil
  count := rfl

/-- The account of the connections. After every sequence of constructions and closings, whatever
raises in them: what a service opened itself is never closed; of the connections that the SDK
opened each has at most one closer, and is closed exactly when a call of it has released it, as
every call that returns does; and those that have none are open, and are as many as the calls
that leave one open. -/
theorem connections_accounted {events : List Event} {s : Site}
    (hrun : run siteStep Site.start events = some s) :
    (∀ (r : ConnectionId) (row : Connection), s.rows[r]? = some row → row.ours = false →
      row.isOpen = true) ∧
    (∀ (j : ℕ) (c : Closer) (r : ConnectionId), s.closers[j]? = some c → r ∈ c.owned →
      ∃ row, s.rows[r]? = some row ∧ row.ours = true ∧
        (row.isOpen = false ↔ ∃ env, .close j env ∈ events ∧ c.releases env r = true)) ∧
    (∀ (c : Closer) (env : CloseEnv) (rows : List Connection), (c.close env rows).1 = true →
      ∀ r ∈ c.owned, c.releases env r = true) ∧
    (∀ (r : ConnectionId) (row : Connection), s.rows[r]? = some row → row.ours = true →
      (∀ c ∈ s.closers, r ∉ c.owned) → row.isOpen = true) ∧
    (s.closers.flatMap Closer.owned).Nodup ∧
    s.rows.countP Connection.ours =
      (s.closers.flatMap Closer.owned).length + events.countP leavesOpen := by
  have hinv : Accounted ([] ++ events) s :=
    run_history (fun _ _ _ _ h hs => h.next hs) hrun start_accounted
  rw [List.nil_append] at hinv
  refine ⟨?_, hinv.owned, fun _ _ _ h _ hr => Closer.releases_of_returned h hr,
    fun r row hrow _ => hinv.unowned r row hrow, hinv.distinct, hinv.count⟩
  intro r row hrow hours
  refine hinv.unowned r row hrow ?_
  intro c hc hr
  obtain ⟨j, hj⟩ := List.mem_iff_getElem?.mp hc
  obtain ⟨row', hrow', hours', -⟩ := hinv.owned j c r hj hr
  obtain rfl : row = row' := Option.some.inj (hrow.symm.trans hrow')
  rw [hours] at hours'
  cases hours'

/-- An empty secret, which passes the check of the factory and not that of `HeliosClient`; then
a client that is closed while its HTTP client raises. -/
def leakingEvents : List Event :=
  [.create ⟨some "", none, some "redis://cache", none, false⟩ ⟨false, false⟩,
    .create ⟨some "secret", none, some "redis://cache", none, false⟩ ⟨false, false⟩,
    .close 0 ⟨.raises true, .returns⟩]

/-- The connection of the failed construction stays open, and so does that of the client. -/
theorem connections_accounted_leaking : ∃ s, run siteStep Site.start leakingEvents = some s ∧
    s.rows.countP Connection.ours = (s.closers.flatMap Closer.owned).length + 1 ∧
    (s.rows.map Connection.isOpen) = [true, true, false] := by
  obtain ⟨s, hrun, hopen⟩ : ∃ s, run siteStep Site.start leakingEvents = some s ∧
      s.rows.map Connection.isOpen = [true, true, false] := ⟨_, rfl, rfl⟩
  have hleaves : leakingEvents.countP leavesOpen = 1 := by decide
  obtain ⟨-, -, -, -, -, hcount⟩ := connections_accounted hrun
  rw [hleaves] at hcount
  exact ⟨s, hrun, hcount, hopen⟩

end HeliosPermissions.ClientFactory
