import HeliosPermissions.SessionTurns

/-!
# Runs without overlap

While calls do not overlap, a world is a session and at most one call that has got
somewhere: what it has met so far is the beginning of a turn. When the call ends the
turn is complete, and what the call did is what the turn does. Changes in Helios may
fall into a call; they come before the turn or after it, as Helios has answered the call
after or before them. So sessions and runs without overlap show the same.
-/

namespace HeliosPermissions.SessionRuns

open JsonValues CacheKeys CacheStore HeliosResolution ClientWorld IndexedTables PartialRuns
open InFlightTable CallHistory CallShapes SharedFetches PermissionCaches ErasedCancels
open RevocationEffects SequentialCalls SequentialReads EqualCaches SettledPairs SessionTurns
open CoherentSessions (Memberships)
open RedisPermissionCache (ScanRound scanAndDelete invalidateAll)

variable {Raw : Type}

/-- The memberships after some changes. -/
def changed (helios : Memberships) (changes : List (String × String × Json)) : Memberships :=
  changes.foldl (fun before c => changeMembership before c.1 c.2.1 c.2.2) helios

/-- Changes as turns. -/
def turnsOf (changes : List (String × String × Json)) : List Turn :=
  changes.map fun c => .change c.1 c.2.1 c.2.2

/-- The GET of a read was a miss, and its fetch is registered and called. -/
structure Missed (cfg : Config Raw) (s : Session Raw) (futures : List Future)
    (calls : List (ClientId × String × String)) (r : ReadCall Raw) (getFate : CommandFate)
    (f : FutureId) : Prop where
  /-- The GET was a miss. -/
  miss : RedisPermissionCache.get cfg.backend s.server.store r.userId r.tenantId getFate = .ok none
  /-- The future waits for its outcome. -/
  pending : (futures[f]?).map Future.state = some .pending
  /-- Helios has been called for the pair. -/
  calls : calls = s.heliosCalls ++ [(r.client, r.userId, r.tenantId)]

/-- How far a read has got, with what it has met of its turn. -/
inductive ReadPhase (cfg : Config Raw) (s : Session Raw) (store : Store Raw)
    (futures : List Future) (calls : List (ClientId × String × String)) (r : ReadCall Raw) : Prop
  | asking (hpc : r.pc = .cacheGet)
      (hport : r.port = .sent (.get (cfg.backend.key r.userId r.tenantId)))
      (hnew : r.sampled = none) (hcalls : calls = s.heliosCalls)
      (hsame : SameValues s.server.store store)
  | asked {reply : Reply Raw} (getFate : CommandFate) (hpc : r.pc = .cacheGet)
      (hport : r.port = .replied reply)
      (hget : RedisPermissionCache.get cfg.backend s.server.store r.userId r.tenantId getFate =
        decodeGet cfg.backend reply)
      (hnew : r.sampled = none) (hcalls : calls = s.heliosCalls)
      (hsame : SameValues s.server.store store)
  | fetching {f : FutureId} {reply : Reply Raw} (getFate : CommandFate)
      (hpc : r.pc = .heliosFetch f) (hport : r.port = .replied reply) (hnew : r.sampled = none)
      (hmissed : Missed cfg s futures calls r getFate f) (hsame : SameValues s.server.store store)
  | fetched {f : FutureId} {reply : Reply Raw} {n : ℕ} (getFate : CommandFate)
      (heliosFate : HeliosFate) (hpc : r.pc = .heliosFetch f) (hport : r.port = .replied reply)
      (hsam : r.sampled = some (n, heliosFate.outcome (s.helios r.userId r.tenantId)))
      (hmissed : Missed cfg s futures calls r getFate f) (hsame : SameValues s.server.store store)
  | populating {f : FutureId} {perms : List Json} (getFate : CommandFate)
      (heliosFate : HeliosFate) (hpc : r.pc = .cacheSet f perms)
      (hport : r.port = .sent (populateCommand cfg r.userId r.tenantId perms))
      (hfetch : fetchEnd r.userId r.tenantId (heliosFate.outcome (s.helios r.userId r.tenantId)) =
        .resolved perms)
      (hmissed : Missed cfg s futures calls r getFate f) (hsame : SameValues s.server.store store)
  | populated {f : FutureId} {perms : List Json} {reply : Reply Raw} (getFate : CommandFate)
      (heliosFate : HeliosFate) (setFate : CommandFate) (hpc : r.pc = .cacheSet f perms)
      (hport : r.port = .replied reply)
      (hfetch : fetchEnd r.userId r.tenantId (heliosFate.outcome (s.helios r.userId r.tenantId)) =
        .resolved perms)
      (hmissed : Missed cfg s futures calls r getFate f)
      (hsame : SameValues (RedisPermissionCache.set cfg.backend s.server.clock s.server.store
        r.userId r.tenantId perms setFate) store)

/-- What the loop of a scan has come to in these rounds. -/
def Looped (cfg : Config Raw) (s : Session Raw) (scope : Scope) (rounds : List ScanRound)
    (progress : ScanProgress) (total : ℕ) (left : Store Raw) : Prop :=
  ∀ rest, invalidateAll cfg.backend s.server.clock s.server.store scope (rounds ++ rest) =
    scanAndDelete cfg.backend s.server.clock scope rest progress total left

/-- The loop of a scan has its next page. -/
structure OnPage (cfg : Config Raw) (s : Session Raw) (store : Store Raw) (m : MutationCall Raw)
    (scope : Scope) (total cursor : ℕ) (keys : List String) (rounds : List ScanRound)
    (progress : ScanProgress) (left : Store Raw) : Prop where
  /-- The call is a bulk invalidation. -/
  bulk : requestScope m.request = some scope
  /-- The rounds so far are those of the loop. -/
  loop : Looped cfg s scope rounds progress total left
  /-- SCAN may return the page. -/
  allowed : PageAllowed cfg.backend s.server.clock progress left scope cursor keys
  /-- The page has been noted. -/
  seen : progress.seen ++ keys = m.progress.seen
  /-- No key came into being since its first page. -/
  past : ∀ time, m.progress.started = some time → Past time store

/-- How far a mutating call has got, with what it has met of its turn. -/
inductive MutationPhase (cfg : Config Raw) (s : Session Raw) (store : Store Raw)
    (m : MutationCall Raw) : Prop
  | writing {u t : String} {perms : List Json} (hrequest : m.request = .writeThrough u t perms)
      (hpc : m.pc = .writing)
      (hport : m.port =
        .sent (.set (cfg.backend.key u t) (cfg.backend.dumps perms) cfg.backend.ex false))
      (hsame : SameValues s.server.store store)
  | written {u t : String} {perms : List Json} {reply : Reply Raw} (fate : CommandFate)
      (hrequest : m.request = .writeThrough u t perms) (hpc : m.pc = .writing)
      (hport : m.port = .replied reply)
      (hsame : SameValues (RedisPermissionCache.writeThrough cfg.backend s.server.clock
        s.server.store u t perms fate) store)
  | deleting {u t : String} (hrequest : m.request = .invalidate u (some t))
      (hpc : m.pc = .deleting) (hport : m.port = .sent (.delete [cfg.backend.key u t]))
      (hsame : SameValues s.server.store store)
  | deleted {u t : String} {reply : Reply Raw} {after : Store Raw} (fate : CommandFate)
      (hrequest : m.request = .invalidate u (some t)) (hpc : m.pc = .deleting)
      (hport : m.port = .replied reply)
      (hsent : send 0 .initial s.server.store (.delete [cfg.backend.key u t]) fate =
        (reply, after))
      (hsame : SameValues after store)
  | scanning {scope : Scope} {total c : ℕ} {rounds : List ScanRound} {progress : ScanProgress}
      {left : Store Raw} (hscope : requestScope m.request = some scope)
      (hpc : m.pc = .scanning scope total) (hport : m.port = .sent (.scan c scope))
      (hloop : Looped cfg s scope rounds progress total left)
      (hseen : progress.seen = m.progress.seen)
      (hpast : ∀ time, m.progress.started = some time → Past time store)
      (hsame : SameValues left store)
  | scanFailed {scope : Scope} {total : ℕ} {rounds : List ScanRound} {progress : ScanProgress}
      {left : Store Raw} (hscope : requestScope m.request = some scope)
      (hpc : m.pc = .scanning scope total) (hport : m.port = .replied .failed)
      (hloop : Looped cfg s scope rounds progress total left) (hsame : SameValues left store)
  | paged {scope : Scope} {total cursor : ℕ} {keys : List String} {rounds : List ScanRound}
      {progress : ScanProgress} {left : Store Raw} (hpc : m.pc = .scanning scope total)
      (hport : m.port = .replied (.page cursor keys))
      (hpage : OnPage cfg s store m scope total cursor keys rounds progress left)
      (hsame : SameValues left store)
  | deletingPage {scope : Scope} {total cursor : ℕ} {keys : List String}
      {rounds : List ScanRound} {progress : ScanProgress} {left : Store Raw}
      (hpc : m.pc = .deletingPage scope total cursor) (hport : m.port = .sent (.delete keys))
      (hkeys : keys ≠ [])
      (hpage : OnPage cfg s store m scope total cursor keys rounds progress left)
      (hsame : SameValues left store)
  | deletedPage {scope : Scope} {total cursor : ℕ} {keys : List String}
      {rounds : List ScanRound} {progress : ScanProgress} {left after : Store Raw}
      {reply : Reply Raw} (fate : CommandFate) (hpc : m.pc = .deletingPage scope total cursor)
      (hport : m.port = .replied reply) (hkeys : keys ≠ [])
      (hpage : OnPage cfg s store m scope total cursor keys rounds progress left)
      (hsent : send s.server.clock .initial left (.delete keys) fate = (reply, after))
      (hsame : SameValues after store)

/-- The calls that have ended are those of the session. -/
structure Ended (s : Session Raw) (rows : List (ReadCall Raw)) (calls : List (MutationCall Raw)) :
    Prop where
  /-- The reads are on record. -/
  reads : rows.map readRecord = s.reads
  /-- The mutating calls are on record. -/
  mutations : calls.map mutationRecord = s.mutations
  /-- No read is under way. -/
  readsOver : ∀ r ∈ rows, ¬UnderWay r
  /-- No mutating call is under way. -/
  mutationsOver : ∀ m ∈ calls, ∃ outcome, m.pc = .done outcome

/-- A world is a session, or a session with one call under way and what has changed in Helios
since the turn of this call. -/
inductive Follows (cfg : Config Raw) (w : World Raw) (s : Session Raw) : Prop
  | quiet (hended : Ended s w.reads w.mutations) (hcalls : w.heliosCalls = s.heliosCalls)
      (hhelios : w.membership = s.helios) (hsame : SameValues s.server.store w.store)
  | reading {rows : List (ReadCall Raw)} {r : ReadCall Raw}
      (changes : List (String × String × Json)) (hreads : w.reads = rows ++ [r])
      (hended : Ended s rows w.mutations) (hhelios : w.membership = changed s.helios changes)
      (hmark : r.mustCancel = false)
      (hphase : ReadPhase cfg s w.store w.futures w.heliosCalls r)
  | mutating {rows : List (MutationCall Raw)} {m : MutationCall Raw}
      (changes : List (String × String × Json)) (hmutations : w.mutations = rows ++ [m])
      (hended : Ended s w.reads rows) (hcalls : w.heliosCalls = s.heliosCalls)
      (hhelios : w.membership = changed s.helios changes)
      (hphase : MutationPhase cfg s w.store m)

/-- Some turns lead from a session to one that this world follows. -/
def Matched (cfg : Config Raw) (s : Session Raw) (w : World Raw) : Prop :=
  ∃ turns s', run (turnStep cfg) s turns = some s' ∧ Follows cfg w s'

section reads

variable {cfg : Config Raw} {s : Session Raw} {w w' : World Raw} {rows : List (ReadCall Raw)}
  {r : ReadCall Raw} {i : ReadId} {changes : List (String × String × Json)}

/-- Changes of memberships as turns of a session. -/
theorem run_changes (cfg : Config Raw) (s : Session Raw)
    (changes : List (String × String × Json)) :
    run (turnStep cfg) s (turnsOf changes) =
      some { s with helios := changed s.helios changes } := by
  induction changes generalizing s with
  | nil => rfl
  | cons c rest ih => exact run_cons_iff.mpr ⟨_, rfl, ih _⟩

/-- A command other than SCAN is served as it is sent. -/
theorem serve_sent {backend : Backend Raw} {now : ℕ} {origin : Origin} {progress : ScanProgress}
    {store store' : Store Raw} {cmd : Command Raw} {fate : Fate} {reply : Reply Raw}
    (hscan : ∀ cursor scope, cmd ≠ .scan cursor scope)
    (h : serve backend now origin progress store cmd fate = some (reply, store')) :
    ∃ sent : CommandFate, send now origin store cmd sent = (reply, store') := by
  cases fate with
  | executes =>
    have hsend := serve_eq_send backend now origin progress store cmd .executes hscan
    exact ⟨.executes, Option.some.inj (hsend.symm.trans h)⟩
  | returns cursor keys =>
    cases cmd with
    | scan c scope => exact absurd rfl (hscan c scope)
    | _ => cases h
  | fails applied =>
    have hsend := serve_eq_send backend now origin progress store cmd (.fails applied) hscan
    exact ⟨.fails applied, Option.some.inj (hsend.symm.trans h)⟩

/-- Only a read under way is acted for. -/
theorem acting_read {a : Action} (hs : step cfg w a = some w') (ha : ActsForRead i a) :
    ∃ r, w.reads[i]? = some r ∧ UnderWay r := by
  cases a with
  | serveRead j fate =>
    obtain rfl : j = i := ha
    obtain ⟨v, hv, rfl⟩ := step_transition hs
    cases hv with
    | readServed hr hport hserve => exact ⟨_, hr, Or.inr ⟨_, hport⟩⟩
  | sample j fate =>
    obtain rfl : j = i := ha
    obtain ⟨v, hv, rfl⟩ := step_transition hs
    cases hv with
    | sampled fate hr hpc hnone => exact ⟨_, hr, Or.inl (by rw [hpc]; rfl)⟩
  | resumeRead j =>
    obtain rfl : j = i := ha
    obtain ⟨r, r', hr, -, hmove⟩ := resume_readMove hs
    exact ⟨r, hr, ReadMove.underWay hmove⟩
  | _ => exact ha.elim

/-- When all reads but the last are over, it is the last that is acted for. -/
theorem acting_last {a : Action} (hreads : w.reads = rows ++ [r]) (hrows : ∀ x ∈ rows, ¬UnderWay x)
    (hs : step cfg w a = some w') (ha : ActsForRead i a) :
    i = rows.length ∧ w.reads[i]? = some r := by
  obtain ⟨x, hx, hunder⟩ := acting_read hs ha
  have hlast := hx
  rw [hreads] at hlast
  rcases get_append_cases hlast with ⟨rfl, rfl⟩ | hold
  · exact ⟨rfl, hx⟩
  · exact absurd hunder (hrows x (List.mem_of_getElem? hold))

/-- A read whose turn is complete: the turn is taken, and after it the changes that came later. -/
theorem read_ends (getFate : CommandFate) (heliosFate : HeliosFate) (setFate : CommandFate)
    (called : Bool) {outcome : Outcome} {via : Via} {ended : Option ℕ} {reply : Reply Raw}
    {after : Store Raw} (hended : Ended s rows w.mutations)
    (hhelios : w.membership = changed s.helios changes)
    (hport : r.port = .replied reply)
    (hresolve : resolveAlone cfg.backend (cfg.staleOnError r.client) s.server.clock
      s.server.store r.userId r.tenantId
      ⟨getFate, heliosFate.outcome (s.helios r.userId r.tenantId), setFate⟩ =
        ⟨outcome, after, called⟩)
    (hreads : w'.reads = rows ++ [{ r with pc := .done outcome via, ended := ended }])
    (hmutations : w'.mutations = w.mutations) (hmembership : w'.membership = w.membership)
    (hcalls : w'.heliosCalls =
      s.heliosCalls ++ if called then [(r.client, r.userId, r.tenantId)] else [])
    (hsame : SameValues after w'.store) : Matched cfg s w' := by
  let turn : Turn :=
    .read r.client r.userId r.tenantId r.ask getFate heliosFate setFate
  let s₁ : Session Raw := { s with
    server := ⟨after, s.server.clock + 1⟩
    reads := s.reads ++ [⟨r.client, r.userId, r.tenantId, r.ask, some (outcome.map r.ask.answer)⟩]
    heliosCalls := s.heliosCalls ++ if called then [(r.client, r.userId, r.tenantId)] else [] }
  have hturn : turnStep cfg s turn = some s₁ := by
    simp only [turn, turnStep, hresolve]
    rfl
  refine ⟨turn :: turnsOf changes, _, run_cons_iff.mpr ⟨s₁, hturn, run_changes cfg s₁ changes⟩,
    .quiet ⟨?_, ?_, ?_, ?_⟩ hcalls (hmembership.trans hhelios) hsame⟩
  · rw [hreads, List.map_append, hended.reads]
    rfl
  · rw [hmutations]
    exact hended.mutations
  · intro x hx
    rw [hreads] at hx
    rcases List.mem_append.mp hx with hold | hnew
    · exact hended.readsOver x hold
    · rw [List.mem_singleton.mp hnew]
      rintro (hrunning | ⟨cmd, hsent⟩)
      · cases hrunning
      · cases hport.symm.trans hsent
  · rw [hmutations]
    exact hended.mutationsOver

/-- The server deals with the command of the read under way. -/
theorem reading_served {fate : Fate} (hreads : w.reads = rows ++ [r])
    (hended : Ended s rows w.mutations) (hhelios : w.membership = changed s.helios changes)
    (hmark : r.mustCancel = false)
    (hphase : ReadPhase cfg s w.store w.futures w.heliosCalls r)
    (hs : step cfg w (.serveRead i fate) = some w') : Matched cfg s w' := by
  obtain ⟨rfl, hrow⟩ := acting_last hreads hended.readsOver hs rfl
  obtain ⟨v, hv, rfl⟩ := step_transition hs
  cases hv with
  | @readServed _ r' cmd _ reply store hr hport hserve =>
    obtain rfl : r' = r := Option.some.inj (hr.symm.trans hrow)
    let w₁ : World Raw := { w with store := store }
    have hafter : (w₁.putRead rows.length { r' with port := .replied reply }).reads =
        rows ++ [{ r' with port := .replied reply }] := by
      change w.reads.set _ _ = _
      rw [hreads, set_append_last]
    have hmatched (h : ReadPhase cfg s store w.futures w.heliosCalls
        { r' with port := .replied reply }) :
        Matched cfg s (w₁.putRead rows.length { r' with port := .replied reply }).tick :=
      ⟨[], s, rfl, .reading changes hafter hended hhelios hmark h⟩
    apply hmatched
    cases hphase with
    | asking hpc hport' hnew hcalls hsame =>
      obtain rfl : cmd = .get (cfg.backend.key r'.userId r'.tenantId) :=
        Port.sent.inj (hport.symm.trans hport')
      obtain ⟨sent, hsent⟩ := serve_sent (by simp) hserve
      obtain ⟨hreply, hstore⟩ := send_same hsame 0 w.clock .initial (.populate rows.length)
        (.get (cfg.backend.key r'.userId r'.tenantId)) sent
      rw [hsent] at hreply
      have hkept : store = w.store := (serve_get hserve).1
      rw [hkept]
      refine .asked sent hpc rfl ?_ hnew hcalls hsame
      change decodeGet cfg.backend (send 0 .initial s.server.store _ sent).1 = _
      rw [← hreply]
    | @populating f perms getFate heliosFate hpc hport' hfetch hmissed hsame =>
      obtain rfl : cmd = populateCommand cfg r'.userId r'.tenantId perms :=
        Port.sent.inj (hport.symm.trans hport')
      obtain ⟨sent, hsent⟩ := serve_sent (by simp [populateCommand]) hserve
      have hstore := (send_same hsame s.server.clock w.clock (.populate s.server.clock)
        (.populate rows.length) (populateCommand cfg r'.userId r'.tenantId perms) sent).2
      rw [hsent] at hstore
      exact .populated getFate heliosFate sent hpc rfl hfetch ⟨hmissed.miss, hmissed.pending,
        hmissed.calls⟩ hstore
    | asked getFate hpc hport' => cases hport.symm.trans hport'
    | fetching getFate hpc hport' => cases hport.symm.trans hport'
    | fetched getFate heliosFate hpc hport' => cases hport.symm.trans hport'
    | populated getFate heliosFate setFate hpc hport' => cases hport.symm.trans hport'

/-- Helios deals with the request of the read under way. What has changed so far has changed
before the turn. -/
theorem reading_sampled {fate : HeliosFate} (hreads : w.reads = rows ++ [r])
    (hended : Ended s rows w.mutations) (hhelios : w.membership = changed s.helios changes)
    (hmark : r.mustCancel = false)
    (hphase : ReadPhase cfg s w.store w.futures w.heliosCalls r)
    (hs : step cfg w (.sample i fate) = some w') : Matched cfg s w' := by
  obtain ⟨rfl, hrow⟩ := acting_last hreads hended.readsOver hs rfl
  obtain ⟨v, hv, rfl⟩ := step_transition hs
  cases hv with
  | @sampled _ r' f _ hr hpc hnone =>
    obtain rfl : r' = r := Option.some.inj (hr.symm.trans hrow)
    let r₁ : ReadCall Raw := { r' with
      sampled := some (w.clock, fate.outcome (w.membership r'.userId r'.tenantId)) }
    have hafter : (w.putRead rows.length r₁).reads = rows ++ [r₁] := by
      change w.reads.set _ _ = _
      rw [hreads, set_append_last]
    have hover : Ended { s with helios := changed s.helios changes } rows w.mutations :=
      ⟨hended.reads, hended.mutations, hended.readsOver, hended.mutationsOver⟩
    refine ⟨turnsOf changes, _, run_changes cfg s changes,
      .reading [] hafter hover hhelios hmark ?_⟩
    cases hphase with
    | fetching getFate hpc' hport hnew hmissed hsame =>
      have hsam : r₁.sampled =
          some (w.clock, fate.outcome (changed s.helios changes r'.userId r'.tenantId)) := by
        simp only [r₁, hhelios]
      exact .fetched getFate fate hpc' hport hsam ⟨hmissed.miss, hmissed.pending, hmissed.calls⟩
        hsame
    | fetched getFate heliosFate hpc' hport hsam => cases hnone.symm.trans hsam
    | asking hpc' => cases hpc.symm.trans hpc'
    | asked getFate hpc' => cases hpc.symm.trans hpc'
    | populating getFate heliosFate hpc' => cases hpc.symm.trans hpc'
    | populated getFate heliosFate setFate hpc' => cases hpc.symm.trans hpc'

/-- The function of a turn whose GET raises. -/
theorem resolveAlone_raises {backend : Backend Raw} {stale : Bool} {now : ℕ} {store : Store Raw}
    {u t : String} {env : ReadEnv} {err : PyError}
    (h : RedisPermissionCache.get backend store u t env.getFate = .error err) :
    resolveAlone backend stale now store u t env = ⟨.error err, store, false⟩ := by
  rw [resolveAlone, h]

/-- The function of a turn whose GET is a hit. -/
theorem resolveAlone_hits {backend : Backend Raw} {stale : Bool} {now : ℕ} {store : Store Raw}
    {u t : String} {env : ReadEnv} {perms : List Json}
    (h : RedisPermissionCache.get backend store u t env.getFate = .ok (some perms)) :
    resolveAlone backend stale now store u t env = ⟨.ok perms, store, false⟩ := by
  rw [resolveAlone, h]

/-- The function of a turn whose GET is a miss. -/
theorem resolveAlone_misses {backend : Backend Raw} {stale : Bool} {now : ℕ} {store : Store Raw}
    {u t : String} {env : ReadEnv}
    (h : RedisPermissionCache.get backend store u t env.getFate = .ok none) :
    resolveAlone backend stale now store u t env =
      fetchAndPopulate backend stale now store u t env := by
  rw [resolveAlone, h]

/-- A read that ends while its future is pending settles it. -/
theorem conclude_reads {f : FutureId} {o : Outcome} (h : w.futureState f = some .pending) :
    (w.conclude i r f o).reads =
      w.reads.set i { r with pc := .done o (.led f), ended := some w.clock } := by
  rw [World.conclude, h]
  rfl

/-- When all other reads are over and this one has not missed yet, nothing is in flight. -/
theorem nothing_inFlight (hreach : Reachable cfg w) (hreads : w.reads = rows ++ [r])
    (hrows : ∀ x ∈ rows, ¬UnderWay x) (hpc : r.pc = .cacheGet) (c : ClientId) (k : String) :
    (w.inFlight c).get? k = none := by
  cases hf : (w.inFlight c).get? k with
  | none => rfl
  | some f =>
    obtain ⟨j, x, hx, -, -, howned⟩ := (reachable_ownership hreach).running c k f hf
    rw [hreads] at hx
    rcases get_append_cases hx with ⟨-, rfl⟩ | hold
    · rw [hpc] at howned
      cases howned
    · exact absurd (Or.inl (ReadPc.of_owned howned).1) (hrows x (List.mem_of_getElem? hold))

/-- The GET of the read under way has been answered, and the read goes on. -/
theorem asked_resumed {getFate : CommandFate} {reply : Reply Raw} (hreach : Reachable cfg w)
    (hreads : w.reads = rows ++ [r]) (hended : Ended s rows w.mutations)
    (hhelios : w.membership = changed s.helios changes) (hmark : r.mustCancel = false)
    (hpc : r.pc = .cacheGet) (hport : r.port = .replied reply)
    (hget : RedisPermissionCache.get cfg.backend s.server.store r.userId r.tenantId getFate =
      decodeGet cfg.backend reply)
    (hnew : r.sampled = none) (hcalls : w.heliosCalls = s.heliosCalls)
    (hsame : SameValues s.server.store w.store)
    (hs : step cfg w (.resumeRead rows.length) = some w') : Matched cfg s w' := by
  have hrow : w.reads[rows.length]? = some r := by
    rw [hreads]
    exact get_append_last
  have hlast (x : ReadCall Raw) : w.reads.set rows.length x = rows ++ [x] := by
    rw [hreads, set_append_last]
  have hcalls' : w.heliosCalls = s.heliosCalls ++ [] := by rw [hcalls, List.append_nil]
  cases hd : decodeGet cfg.backend reply with
  | error err =>
    have hmove : Transition cfg w (.resumeRead rows.length) _ := .getRaises hrow hmark hpc hport hd
    obtain rfl := Option.some.inj (hs.symm.trans hmove.step_eq)
    exact read_ends getFate .answers .executes false hended hhelios hport
      (resolveAlone_raises (hget.trans hd)) (hlast _) rfl rfl hcalls' hsame
  | ok cached =>
    cases cached with
    | some perms =>
      have hmove : Transition cfg w (.resumeRead rows.length) _ := .getHits hrow hmark hpc hport hd
      obtain rfl := Option.some.inj (hs.symm.trans hmove.step_eq)
      exact read_ends getFate .answers .executes false hended hhelios hport
        (resolveAlone_hits (hget.trans hd)) (hlast _) rfl rfl hcalls' hsame
    | none =>
      have hfree := nothing_inFlight hreach hreads hended.readsOver hpc r.client r.lock
      have hmove : Transition cfg w (.resumeRead rows.length) _ :=
        .leads hrow hmark hpc hport hd hfree
      obtain rfl := Option.some.inj (hs.symm.trans hmove.step_eq)
      have hpending : ((w.futures ++ [⟨rows.length, .pending⟩])[w.futures.length]?).map
          Future.state = some .pending := by
        rw [get_append_last]
        rfl
      refine ⟨[], s, rfl, .reading changes (hlast _) hended hhelios hmark ?_⟩
      exact .fetching getFate rfl hport hnew ⟨hget.trans hd, hpending,
        congrArg (· ++ [(r.client, r.userId, r.tenantId)]) hcalls⟩ hsame

/-- Helios has answered the read under way, and the read goes on. -/
theorem fetched_resumed {f : FutureId} {reply : Reply Raw} {n : ℕ} {getFate : CommandFate}
    {heliosFate : HeliosFate} (hreads : w.reads = rows ++ [r]) (hended : Ended s rows w.mutations)
    (hhelios : w.membership = changed s.helios changes) (hmark : r.mustCancel = false)
    (hpc : r.pc = .heliosFetch f) (hport : r.port = .replied reply)
    (hsam : r.sampled = some (n, heliosFate.outcome (s.helios r.userId r.tenantId)))
    (hmissed : Missed cfg s w.futures w.heliosCalls r getFate f)
    (hsame : SameValues s.server.store w.store)
    (hs : step cfg w (.resumeRead rows.length) = some w') : Matched cfg s w' := by
  have hrow : w.reads[rows.length]? = some r := by
    rw [hreads]
    exact get_append_last
  have hlast (x : ReadCall Raw) : w.reads.set rows.length x = rows ++ [x] := by
    rw [hreads, set_append_last]
  cases hfetch : fetchEnd r.userId r.tenantId
      (heliosFate.outcome (s.helios r.userId r.tenantId)) with
  | unreachable message =>
    have hmove : Transition cfg w (.resumeRead rows.length) _ :=
      .unreachable hrow hmark hpc hsam hfetch
    obtain rfl := Option.some.inj (hs.symm.trans hmove.step_eq)
    have houtside := conclude_sameOutside w rows.length r f
      (World.unreachableOutcome cfg r.client message)
    have hleft : SameValues s.server.store (w.conclude rows.length r f
        (World.unreachableOutcome cfg r.client message)).store := by
      rw [houtside.store]
      exact hsame
    refine read_ends getFate heliosFate .executes true hended hhelios hport
      ((resolveAlone_misses hmissed.miss).trans ?_)
      ((conclude_reads hmissed.pending).trans (hlast _)) houtside.mutations
      houtside.membership (houtside.heliosCalls.trans hmissed.calls) hleft
    rw [fetchAndPopulate, hfetch]
    rfl
  | escaped err =>
    have hmove : Transition cfg w (.resumeRead rows.length) _ := .escapes hrow hmark hpc hsam hfetch
    obtain rfl := Option.some.inj (hs.symm.trans hmove.step_eq)
    refine read_ends getFate heliosFate .executes true hended hhelios hport
      ((resolveAlone_misses hmissed.miss).trans ?_) (hlast _) rfl rfl hmissed.calls hsame
    rw [fetchAndPopulate, hfetch]
  | resolved perms =>
    have hmove : Transition cfg w (.resumeRead rows.length) _ :=
      .populates hrow hmark hpc hsam hfetch
    obtain rfl := Option.some.inj (hs.symm.trans hmove.step_eq)
    exact ⟨[], s, rfl, .reading changes (hlast _) hended hhelios hmark (.populating getFate
      heliosFate rfl rfl hfetch ⟨hmissed.miss, hmissed.pending, hmissed.calls⟩ hsame)⟩

/-- The event loop runs the read under way. -/
theorem reading_resumed (hreach : Reachable cfg w) (hreads : w.reads = rows ++ [r])
    (hended : Ended s rows w.mutations) (hhelios : w.membership = changed s.helios changes)
    (hmark : r.mustCancel = false)
    (hphase : ReadPhase cfg s w.store w.futures w.heliosCalls r)
    (hs : step cfg w (.resumeRead i) = some w') : Matched cfg s w' := by
  obtain ⟨rfl, hrow⟩ := acting_last hreads hended.readsOver hs rfl
  cases hphase with
  | asking hpc hport => simp [step, move, hrow, hmark, World.continueRead, hpc, hport] at hs
  | asked getFate hpc hport hget hnew hcalls hsame =>
    exact asked_resumed hreach hreads hended hhelios hmark hpc hport hget hnew hcalls hsame hs
  | fetching getFate hpc hport hnew =>
    simp [step, move, hrow, hmark, World.continueRead, hpc, hnew] at hs
  | fetched getFate heliosFate hpc hport hsam hmissed hsame =>
    exact fetched_resumed hreads hended hhelios hmark hpc hport hsam hmissed hsame hs
  | populating getFate heliosFate hpc hport =>
    simp [step, move, hrow, hmark, World.continueRead, hpc, hport] at hs
  | @populated f perms reply getFate heliosFate setFate hpc hport hfetch hmissed hsame =>
    have hmove : Transition cfg w (.resumeRead rows.length) _ := .populated hrow hmark hpc hport
    obtain rfl := Option.some.inj (hs.symm.trans hmove.step_eq)
    have houtside := conclude_sameOutside w rows.length r f (.ok perms)
    have hlast (x : ReadCall Raw) : w.reads.set rows.length x = rows ++ [x] := by
      rw [hreads, set_append_last]
    have hleft := hsame
    rw [← houtside.store] at hleft
    refine read_ends getFate heliosFate setFate true hended hhelios hport
      ((resolveAlone_misses hmissed.miss).trans ?_)
      ((conclude_reads hmissed.pending).trans (hlast _)) houtside.mutations
      houtside.membership (houtside.heliosCalls.trans hmissed.calls) hleft
    rw [fetchAndPopulate, hfetch]

end reads

section mutations

variable {cfg : Config Raw} {s : Session Raw} {w w' : World Raw} {rows : List (MutationCall Raw)}
  {m : MutationCall Raw} {j : MutationId} {changes : List (String × String × Json)}
  {scope : Scope} {total total' cursor : ℕ} {keys : List String} {rounds : List ScanRound}
  {round : ScanRound} {progress progress' : ScanProgress} {left after : Store Raw}

/-- Only a mutating call that has not ended is acted for. -/
theorem acting_mutation {a : Action} (hreach : Reachable cfg w) (hs : step cfg w a = some w')
    (ha : ActsFor j a) : ∃ m, w.mutations[j]? = some m ∧ ∀ o, m.pc ≠ .done o := by
  have hshaped := (consistent_of_reachable hreach).shaped
  cases a with
  | serveMutation k fate =>
    obtain rfl : k = j := ha
    obtain ⟨v, hv, rfl⟩ := step_transition hs
    cases hv with
    | mutationServed hm hport hserve =>
      exact ⟨_, hm, (hshaped.mutations _ _ hm).not_done hport⟩
  | resumeMutation k =>
    obtain rfl : k = j := ha
    obtain ⟨v, hv, rfl⟩ := step_transition hs
    cases hv with
    | mutationResumes hm hport hadvance =>
      refine ⟨_, hm, ?_⟩
      intro o hpc
      simp [MutationCall.advance, hpc] at hadvance
  | _ => exact ha.elim

/-- When all mutating calls but the last have ended, it is the last that is acted for. -/
theorem acting_last_mutation {a : Action} (hreach : Reachable cfg w)
    (hmutations : w.mutations = rows ++ [m]) (hrows : ∀ x ∈ rows, ∃ o, x.pc = .done o)
    (hs : step cfg w a = some w') (ha : ActsFor j a) :
    j = rows.length ∧ w.mutations[j]? = some m := by
  obtain ⟨x, hx, hrunning⟩ := acting_mutation hreach hs ha
  have hlast := hx
  rw [hmutations] at hlast
  rcases get_append_cases hlast with ⟨rfl, rfl⟩ | hold
  · exact ⟨rfl, hx⟩
  · obtain ⟨o, hpc⟩ := hrows x (List.mem_of_getElem? hold)
    exact absurd hpc (hrunning o)

/-- A mutating call whose turn is complete: the turn is taken, and after it the changes that
came later. -/
theorem mutation_ends {turn : Turn} {result : Except PyError ℕ} {ended : Option ℕ}
    (hmutations : w.mutations = rows ++ [m]) (hended : Ended s w.reads rows)
    (hcalls : w.heliosCalls = s.heliosCalls) (hhelios : w.membership = changed s.helios changes)
    (hturn : turnStep cfg s turn = some (s.mutated m.request (.ofCount result) after))
    (hsame : SameValues after w.store) :
    Matched cfg s
      (w.putMutation rows.length { m with pc := .done result, ended := ended }).tick := by
  have hrows : w.mutations.set rows.length { m with pc := .done result, ended := ended } =
      rows ++ [{ m with pc := .done result, ended := ended }] := by
    rw [hmutations, set_append_last]
  refine ⟨turn :: turnsOf changes, _, run_cons_iff.mpr ⟨_, hturn, run_changes cfg _ changes⟩,
    .quiet ⟨hended.reads, ?_, hended.readsOver, ?_⟩ hcalls hhelios hsame⟩
  · change (w.mutations.set rows.length _).map mutationRecord = _
    rw [hrows, List.map_append, hended.mutations]
    rfl
  · intro x hx
    change x ∈ w.mutations.set rows.length _ at hx
    rw [hrows] at hx
    rcases List.mem_append.mp hx with hold | hnew
    · exact hended.mutationsOver x hold
    · rw [List.mem_singleton.mp hnew]
      exact ⟨result, rfl⟩

/-- The turn of a bulk invalidation. -/
theorem bulk_turn {request : MutationRequest} {result : Except PyError ℕ}
    (hscope : requestScope request = some scope)
    (h : invalidateAll cfg.backend s.server.clock s.server.store scope rounds =
      some (result, after)) :
    ∃ turn, turnStep cfg s turn = some (s.mutated request (.ofCount result) after) := by
  cases request with
  | writeThrough u t perms => cases hscope
  | invalidate u tenant =>
    cases tenant with
    | some t => cases hscope
    | none =>
      cases hscope
      refine ⟨.mutate (.invalidateUser u rounds), ?_⟩
      simp only [turnStep, requestOf, perform, h, Option.map_some]
      rfl
  | invalidateTenant t =>
    cases hscope
    refine ⟨.mutate (.invalidateTenant t rounds), ?_⟩
    simp only [turnStep, requestOf, perform, h, Option.map_some]
    rfl

/-- One more round. -/
theorem Looped.extend (h : Looped cfg s scope rounds progress total left)
    (hround : ∀ rest, scanAndDelete cfg.backend s.server.clock scope (round :: rest) progress
      total left = scanAndDelete cfg.backend s.server.clock scope rest progress' total' after) :
    Looped cfg s scope (rounds ++ [round]) progress' total' after := by
  intro rest
  rw [List.append_assoc, List.singleton_append, h, hround]

/-- The last round. -/
theorem Looped.last {result : Except PyError ℕ} (h : Looped cfg s scope rounds progress total left)
    (hround : scanAndDelete cfg.backend s.server.clock scope [round] progress total left =
      some (result, after)) :
    invalidateAll cfg.backend s.server.clock s.server.store scope (rounds ++ [round]) =
      some (result, after) := by
  rw [h, hround]

/-- The loop has dealt with its page: it ends, or it asks for the next one. -/
theorem page_dealt {fate : CommandFate} {now : ℕ} (hmutations : w.mutations = rows ++ [m])
    (hended : Ended s w.reads rows) (hcalls : w.heliosCalls = s.heliosCalls)
    (hhelios : w.membership = changed s.helios changes)
    (hpage : OnPage cfg s w.store m scope total cursor keys rounds progress left)
    (hround : ∀ rest, scanAndDelete cfg.backend s.server.clock scope
      (⟨some (cursor, keys), fate⟩ :: rest) progress total left =
        if cursor = 0 then some (.ok total', after)
        else scanAndDelete cfg.backend s.server.clock scope rest
          ⟨some (progress.started.getD s.server.clock), progress.seen ++ keys⟩ total' after)
    (hsame : SameValues after w.store) :
    Matched cfg s (w.putMutation rows.length (if cursor = 0 then
      { m with pc := .done (.ok total'), ended := some now }
      else { m with pc := .scanning scope total', port := .sent (.scan cursor scope) })).tick := by
  by_cases hcursor : cursor = 0
  · rw [if_pos hcursor]
    have hlast := hpage.loop.last ((hround []).trans (if_pos hcursor))
    obtain ⟨turn, hturn⟩ := bulk_turn hpage.bulk hlast
    exact mutation_ends hmutations hended hcalls hhelios hturn hsame
  · rw [if_neg hcursor]
    have hnext := hpage.loop.extend fun rest => (hround rest).trans (if_neg hcursor)
    have hrows (x : MutationCall Raw) : w.mutations.set rows.length x = rows ++ [x] := by
      rw [hmutations, set_append_last]
    exact ⟨[], s, rfl, .mutating changes (hrows _) hended hcalls hhelios
      (.scanning hpage.bulk rfl rfl hnext hpage.seen hpage.past hsame)⟩

/-- The server deals with the command of the mutating call under way. -/
theorem mutating_served {fate : Fate} (hreach : Reachable cfg w)
    (hmutations : w.mutations = rows ++ [m]) (hended : Ended s w.reads rows)
    (hcalls : w.heliosCalls = s.heliosCalls) (hhelios : w.membership = changed s.helios changes)
    (hphase : MutationPhase cfg s w.store m)
    (hs : step cfg w (.serveMutation j fate) = some w') : Matched cfg s w' := by
  obtain ⟨rfl, hrow⟩ := acting_last_mutation hreach hmutations hended.mutationsOver hs rfl
  obtain ⟨v, hv, rfl⟩ := step_transition hs
  cases hv with
  | @mutationServed _ m' cmd _ reply store hm hport hserve =>
    obtain rfl : m' = m := Option.some.inj (hm.symm.trans hrow)
    let w₁ : World Raw := { w with store := store }
    have hafter : (w₁.putMutation rows.length (m'.answered w.clock reply)).mutations =
        rows ++ [m'.answered w.clock reply] := by
      change w.mutations.set _ _ = _
      rw [hmutations, set_append_last]
    have hmatched (h : MutationPhase cfg s store (m'.answered w.clock reply)) :
        Matched cfg s (w₁.putMutation rows.length (m'.answered w.clock reply)).tick :=
      ⟨[], s, rfl, .mutating changes hafter hended hcalls hhelios h⟩
    apply hmatched
    cases hphase with
    | @writing u t perms hrequest hpc hport' hsame =>
      obtain rfl := Port.sent.inj (hport.symm.trans hport')
      obtain ⟨sent, hsent⟩ := serve_sent (by simp) hserve
      have hstore := (send_same hsame s.server.clock w.clock (.writeThrough s.server.clock)
        (.writeThrough rows.length)
        (.set (cfg.backend.key u t) (cfg.backend.dumps perms) cfg.backend.ex false) sent).2
      rw [hsent] at hstore
      exact .written sent hrequest hpc rfl hstore
    | @deleting u t hrequest hpc hport' hsame =>
      obtain rfl := Port.sent.inj (hport.symm.trans hport')
      obtain ⟨sent, hsent⟩ := serve_sent (by simp) hserve
      obtain ⟨hreply, hstore⟩ := send_same hsame 0 w.clock .initial (.writeThrough rows.length)
        (.delete [cfg.backend.key u t]) sent
      rw [hsent] at hreply hstore
      have hpair : send 0 .initial s.server.store (.delete [cfg.backend.key u t]) sent =
          (reply, (send 0 .initial s.server.store (.delete [cfg.backend.key u t]) sent).2) :=
        Prod.ext hreply.symm rfl
      exact .deleted sent hrequest hpc rfl hpair hstore
    | @scanning scope total c rounds progress left hscope hpc hport' hloop hseen hpast hsame =>
      obtain rfl := Port.sent.inj (hport.symm.trans hport')
      obtain ⟨rfl, rfl | ⟨cursor, keys, rfl, hallowed⟩⟩ := serve_scan hserve
      · exact .scanFailed hscope hpc rfl hloop hsame
      · have hstarted : Past (m'.progress.started.getD w.clock) w.store := by
          cases hstart : m'.progress.started with
          | none =>
            intro k entry he
            exact Nat.le_of_lt (dated_of_reachable hreach k entry he)
          | some time => exact hpast time hstart
        refine .paged hpc rfl ⟨hscope, hloop, ?_, ?_, ?_⟩ hsame
        · exact pageAllowed_same (sameValues_symm hsame) hstarted hseen hallowed
        · exact congrArg (· ++ keys) hseen
        · intro time htime
          cases htime
          exact hstarted
    | @deletingPage scope total cursor keys rounds progress left hpc hport' hkeys hpage hsame =>
      obtain rfl := Port.sent.inj (hport.symm.trans hport')
      obtain ⟨sent, hsent⟩ := serve_sent (by simp) hserve
      obtain ⟨hreply, hstore⟩ := send_same hsame s.server.clock w.clock .initial
        (.writeThrough rows.length) (.delete keys) sent
      rw [hsent] at hreply hstore
      -- a DEL is no page, and takes entries away at most
      have hprogress : (m'.answered w.clock reply).progress = m'.progress := by
        rcases serve_delete hserve with ⟨rfl, -⟩ | ⟨count, rfl, -⟩
        · rfl
        · rfl
      have hless : ∀ k, store.get? k = w.store.get? k ∨ store.get? k = none := by
        have hall : store = w.store ∨ store = w.store.popAll keys := by
          rcases serve_delete hserve with ⟨-, hone⟩ | ⟨count, -, hgone⟩
          · exact hone
          · exact Or.inr hgone
        intro k
        rcases hall with rfl | rfl
        · exact Or.inl rfl
        · exact CoherentSessions.popAll_less w.store keys k
      have hpair : send s.server.clock .initial left (.delete keys) sent =
          (reply, (send s.server.clock .initial left (.delete keys) sent).2) :=
        Prod.ext hreply.symm rfl
      refine .deletedPage sent hpc rfl hkeys ⟨hpage.bulk, hpage.loop, hpage.allowed, ?_, ?_⟩
        hpair hstore
      · rw [hprogress]
        exact hpage.seen
      · rw [hprogress]
        intro time htime
        exact past_less (hpage.past time htime) hless
    | written fate hrequest hpc hport' => cases hport.symm.trans hport'
    | deleted fate hrequest hpc hport' => cases hport.symm.trans hport'
    | scanFailed hscope hpc hport' => cases hport.symm.trans hport'
    | paged hpc hport' => cases hport.symm.trans hport'
    | deletedPage fate hpc hport' => cases hport.symm.trans hport'

/-- The round of a page without keys. -/
theorem round_empty {store : Store Raw}
    (hallowed : PageAllowed cfg.backend s.server.clock progress store scope cursor [])
    (fate : CommandFate) (rest : List ScanRound) :
    scanAndDelete cfg.backend s.server.clock scope (⟨some (cursor, []), fate⟩ :: rest) progress
      total store = if cursor = 0 then some (.ok total, store)
        else scanAndDelete cfg.backend s.server.clock scope rest
          ⟨some (progress.started.getD s.server.clock), progress.seen ++ []⟩ total store := by
  rw [scanAndDelete]
  simp only [if_pos hallowed, if_true]

/-- The round of a page whose keys are deleted. -/
theorem round_deleted {store : Store Raw} {fate : CommandFate} {count : ℕ}
    (hallowed : PageAllowed cfg.backend s.server.clock progress store scope cursor keys)
    (hkeys : keys ≠ [])
    (hsent : send s.server.clock .initial store (.delete keys) fate = (.deleted count, after))
    (rest : List ScanRound) :
    scanAndDelete cfg.backend s.server.clock scope (⟨some (cursor, keys), fate⟩ :: rest) progress
      total store = if cursor = 0 then some (.ok (total + count), after)
        else scanAndDelete cfg.backend s.server.clock scope rest
          ⟨some (progress.started.getD s.server.clock), progress.seen ++ keys⟩ (total + count)
            after := by
  rw [scanAndDelete]
  simp only [if_pos hallowed, if_neg hkeys, hsent]

/-- The round of a page whose DEL raises. -/
theorem round_raises {store : Store Raw} {fate : CommandFate}
    (hallowed : PageAllowed cfg.backend s.server.clock progress store scope cursor keys)
    (hkeys : keys ≠ [])
    (hsent : send s.server.clock .initial store (.delete keys) fate = (.failed, after)) :
    scanAndDelete cfg.backend s.server.clock scope [⟨some (cursor, keys), fate⟩] progress
      total store = some (.error .redisError, after) := by
  rw [scanAndDelete]
  simp only [if_pos hallowed, if_neg hkeys, hsent]

/-- The event loop runs the mutating call under way. -/
theorem mutating_resumed (hreach : Reachable cfg w)
    (hmutations : w.mutations = rows ++ [m]) (hended : Ended s w.reads rows)
    (hcalls : w.heliosCalls = s.heliosCalls) (hhelios : w.membership = changed s.helios changes)
    (hphase : MutationPhase cfg s w.store m)
    (hs : step cfg w (.resumeMutation j) = some w') : Matched cfg s w' := by
  obtain ⟨rfl, hrow⟩ := acting_last_mutation hreach hmutations hended.mutationsOver hs rfl
  obtain ⟨v, hv, rfl⟩ := step_transition hs
  cases hv with
  | @mutationResumes _ m₀ m' reply hm hport hadvance =>
    obtain rfl : m₀ = m := Option.some.inj (hm.symm.trans hrow)
    cases hphase with
    | @written u t perms reply' fate hrequest hpc hport' hsame =>
      simp only [MutationCall.advance, hpc, Option.some.injEq] at hadvance
      subst hadvance
      have hturn : turnStep cfg s (.mutate (.writeThrough u t perms fate)) =
          some (s.mutated m₀.request (.ofCount (.ok 0)) (RedisPermissionCache.writeThrough
            cfg.backend s.server.clock s.server.store u t perms fate)) := by
        rw [hrequest]
        rfl
      exact mutation_ends hmutations hended hcalls hhelios hturn hsame
    | @deleted u t reply' after fate hrequest hpc hport' hsent hsame =>
      obtain rfl : reply = reply' := Port.replied.inj (hport.symm.trans hport')
      have hturn (result : Except PyError ℕ) (h : RedisPermissionCache.invalidate cfg.backend
          s.server.store u t fate = (result, after)) :
          turnStep cfg s (.mutate (.invalidate u t fate)) =
            some (s.mutated m₀.request (.ofCount result) after) := by
        simp only [turnStep, requestOf, perform, h, hrequest]
        rfl
      rcases RedisPermissionCache.send_delete 0 s.server.store [cfg.backend.key u t] fate
        with ⟨count, hd⟩ | ⟨st, hd⟩
      · obtain ⟨rfl, rfl⟩ := Prod.mk.inj (hsent.symm.trans hd)
        simp only [MutationCall.advance, hpc, Option.some.injEq] at hadvance
        subst hadvance
        refine mutation_ends hmutations hended hcalls hhelios (hturn (.ok count) ?_) hsame
        rw [RedisPermissionCache.invalidate, hd]
      · obtain ⟨rfl, rfl⟩ := Prod.mk.inj (hsent.symm.trans hd)
        simp only [MutationCall.advance, hpc, Option.some.injEq] at hadvance
        subst hadvance
        refine mutation_ends hmutations hended hcalls hhelios (hturn (.error .redisError) ?_) hsame
        rw [RedisPermissionCache.invalidate, hd]
    | @scanFailed scope total rounds progress left hscope hpc hport' hloop hsame =>
      obtain rfl := Port.replied.inj (hport.symm.trans hport')
      simp only [MutationCall.advance, hpc, Option.some.injEq] at hadvance
      subst hadvance
      have hround : scanAndDelete cfg.backend s.server.clock scope [⟨none, .executes⟩] progress
          total left = some (.error .redisError, left) := rfl
      obtain ⟨turn, hturn⟩ := bulk_turn hscope (hloop.last hround)
      exact mutation_ends hmutations hended hcalls hhelios hturn hsame
    | @paged scope total cursor keys rounds progress left hpc hport' hpage hsame =>
      obtain rfl := Port.replied.inj (hport.symm.trans hport')
      simp only [MutationCall.advance, hpc] at hadvance
      by_cases hkeys : keys = []
      · subst hkeys
        rw [if_pos rfl] at hadvance
        obtain rfl := Option.some.inj hadvance
        exact page_dealt hmutations hended hcalls hhelios hpage
          (round_empty hpage.allowed .executes) hsame
      · rw [if_neg hkeys] at hadvance
        obtain rfl := Option.some.inj hadvance
        have hrows (x : MutationCall Raw) : w.mutations.set rows.length x = rows ++ [x] := by
          rw [hmutations, set_append_last]
        exact ⟨[], s, rfl, .mutating changes (hrows _) hended hcalls hhelios
          (.deletingPage rfl rfl hkeys ⟨hpage.bulk, hpage.loop, hpage.allowed, hpage.seen,
            hpage.past⟩ hsame)⟩
    | @deletedPage scope total cursor keys rounds progress left after reply' fate hpc hport' hkeys
        hpage hsent hsame =>
      obtain rfl : reply = reply' := Port.replied.inj (hport.symm.trans hport')
      rcases RedisPermissionCache.send_delete s.server.clock left keys fate with
        ⟨count, hd⟩ | ⟨st, hd⟩
      · obtain ⟨rfl, rfl⟩ := Prod.mk.inj (hsent.symm.trans hd)
        simp only [MutationCall.advance, hpc, Option.some.injEq] at hadvance
        subst hadvance
        exact page_dealt hmutations hended hcalls hhelios hpage
          (round_deleted hpage.allowed hkeys hd) hsame
      · obtain ⟨rfl, rfl⟩ := Prod.mk.inj (hsent.symm.trans hd)
        simp only [MutationCall.advance, hpc, Option.some.injEq] at hadvance
        subst hadvance
        obtain ⟨turn, hturn⟩ := bulk_turn hpage.bulk
          (hpage.loop.last (round_raises hpage.allowed hkeys hd))
        exact mutation_ends hmutations hended hcalls hhelios hturn hsame
    | writing hrequest hpc hport' => cases hport.symm.trans hport'
    | deleting hrequest hpc hport' => cases hport.symm.trans hport'
    | scanning hscope hpc hport' => cases hport.symm.trans hport'
    | deletingPage hpc hport' => cases hport.symm.trans hport'

end mutations

section runs

variable {cfg : Config Raw} {s : Session Raw} {w w' : World Raw} {a : Action}

/-- A read in one of the phases has not ended. -/
theorem ReadPhase.running {store : Store Raw} {futures : List Future}
    {calls : List (ClientId × String × String)} {r : ReadCall Raw}
    (h : ReadPhase cfg s store futures calls r) : r.pc.isDone = false := by
  cases h with
  | asking hpc => rw [hpc]; rfl
  | asked getFate hpc => rw [hpc]; rfl
  | fetching getFate hpc => rw [hpc]; rfl
  | fetched getFate heliosFate hpc => rw [hpc]; rfl
  | populating getFate heliosFate hpc => rw [hpc]; rfl
  | populated getFate heliosFate setFate hpc => rw [hpc]; rfl

/-- A mutating call in one of the phases has not ended. -/
theorem MutationPhase.running {store : Store Raw} {m : MutationCall Raw}
    (h : MutationPhase cfg s store m) (o : Except PyError ℕ) : m.pc ≠ .done o := by
  intro hdone
  cases h with
  | writing hrequest hpc => cases hpc.symm.trans hdone
  | written fate hrequest hpc => cases hpc.symm.trans hdone
  | deleting hrequest hpc => cases hpc.symm.trans hdone
  | deleted fate hrequest hpc => cases hpc.symm.trans hdone
  | scanning hscope hpc => cases hpc.symm.trans hdone
  | scanFailed hscope hpc => cases hpc.symm.trans hdone
  | paged hpc => cases hpc.symm.trans hdone
  | deletingPage hpc => cases hpc.symm.trans hdone
  | deletedPage fate hpc => cases hpc.symm.trans hdone

/-- A world in which no call is under way is the session that it follows. -/
theorem Follows.at_rest (h : Follows cfg w s) (hquiet : Quiet w) :
    Ended s w.reads w.mutations ∧ w.heliosCalls = s.heliosCalls ∧ w.membership = s.helios ∧
      SameValues s.server.store w.store := by
  cases h with
  | quiet hended hcalls hhelios hsame => exact ⟨hended, hcalls, hhelios, hsame⟩
  | reading changes hreads hended hhelios hmark hphase =>
    have hdone := hquiet.reads _ (hreads ▸ List.mem_append_right _ List.mem_cons_self)
    rw [hphase.running] at hdone
    cases hdone
  | mutating changes hmutations hended hcalls hhelios hphase =>
    obtain ⟨o, hdone⟩ :=
      hquiet.mutations _ (hmutations ▸ List.mem_append_right _ List.mem_cons_self)
    exact absurd hdone (hphase.running o)

/-- No read is acted for when all are over. -/
theorem no_read_acts {i : ReadId} (hover : ∀ r ∈ w.reads, ¬UnderWay r)
    (hs : step cfg w a = some w') : ¬ActsForRead i a := by
  intro ha
  obtain ⟨r, hr, hunder⟩ := acting_read hs ha
  exact hover r (List.mem_of_getElem? hr) hunder

/-- No mutating call is acted for when all have ended. -/
theorem no_mutation_acts {j : MutationId} (hreach : Reachable cfg w)
    (hover : ∀ m ∈ w.mutations, ∃ o, m.pc = .done o) (hs : step cfg w a = some w') :
    ¬ActsFor j a := by
  intro ha
  obtain ⟨m, hm, hrunning⟩ := acting_mutation hreach hs ha
  obtain ⟨o, hdone⟩ := hover m (List.mem_of_getElem? hm)
  exact hrunning o hdone

/-- What a read does next is matched. -/
theorem Follows.read_acts {i : ReadId} (hreach : Reachable cfg w) (h : Follows cfg w s)
    (hs : step cfg w a = some w') (ha : ActsForRead i a) : Matched cfg s w' := by
  cases h with
  | quiet hended => exact absurd ha (no_read_acts hended.readsOver hs)
  | mutating changes hmutations hended => exact absurd ha (no_read_acts hended.readsOver hs)
  | reading changes hreads hended hhelios hmark hphase =>
    cases a with
    | serveRead k fate => exact reading_served hreads hended hhelios hmark hphase hs
    | sample k fate => exact reading_sampled hreads hended hhelios hmark hphase hs
    | resumeRead k => exact reading_resumed hreach hreads hended hhelios hmark hphase hs
    | _ => exact ha.elim

/-- What a mutating call does next is matched. -/
theorem Follows.mutation_acts {j : MutationId} (hreach : Reachable cfg w) (h : Follows cfg w s)
    (hs : step cfg w a = some w') (ha : ActsFor j a) : Matched cfg s w' := by
  cases h with
  | quiet hended => exact absurd ha (no_mutation_acts hreach hended.mutationsOver hs)
  | reading changes hreads hended =>
    exact absurd ha (no_mutation_acts hreach hended.mutationsOver hs)
  | mutating changes hmutations hended hcalls hhelios hphase =>
    cases a with
    | serveMutation k fate =>
      exact mutating_served hreach hmutations hended hcalls hhelios hphase hs
    | resumeMutation k =>
      exact mutating_resumed hreach hmutations hended hcalls hhelios hphase hs
    | _ => exact ha.elim

/-- One more change of a membership. -/
theorem changed_append (helios : Memberships) (changes : List (String × String × Json))
    (u t : String) (body : Json) :
    changed helios (changes ++ [(u, t, body)]) =
      changeMembership (changed helios changes) u t body := by
  rw [changed, List.foldl_append]
  rfl

/-- A change in Helios is a turn, now or after the call under way. -/
theorem Follows.changes {u t : String} {body : Json} (h : Follows cfg w s) :
    Matched cfg s
      ({ w with membership := changeMembership w.membership u t body } : World Raw).tick := by
  cases h with
  | quiet hended hcalls hhelios hsame =>
    have hafter : changeMembership w.membership u t body = changeMembership s.helios u t body := by
      rw [hhelios]
    exact ⟨[.change u t body], _, rfl, .quiet ⟨hended.reads, hended.mutations, hended.readsOver,
      hended.mutationsOver⟩ hcalls hafter hsame⟩
  | reading changes hreads hended hhelios hmark hphase =>
    have hafter : changeMembership w.membership u t body =
        changed s.helios (changes ++ [(u, t, body)]) := by
      rw [changed_append, hhelios]
    exact ⟨[], s, rfl, .reading _ hreads hended hafter hmark hphase⟩
  | mutating changes hmutations hended hcalls hhelios hphase =>
    have hafter : changeMembership w.membership u t body =
        changed s.helios (changes ++ [(u, t, body)]) := by
      rw [changed_append, hhelios]
    exact ⟨[], s, rfl, .mutating _ hmutations hended hcalls hafter hphase⟩

/-- A mutating call has sent its first command when it has been made. -/
theorem start_phase (s : Session Raw) (now : ℕ) (request : MutationRequest) {store : Store Raw}
    (hsame : SameValues s.server.store store) :
    MutationPhase cfg s store (.start cfg now request) := by
  have hscanning {scope : Scope} (hscope : requestScope request = some scope)
      (hpc : (MutationCall.start cfg now request).pc = .scanning scope 0)
      (hport : (MutationCall.start cfg now request).port = .sent (.scan 0 scope)) :
      MutationPhase cfg s store (.start cfg now request) := by
    have hloop : Looped cfg s scope [] ⟨none, []⟩ 0 s.server.store := fun rest => rfl
    refine .scanning hscope hpc hport hloop rfl ?_ hsame
    intro time htime
    cases htime
  cases request with
  | writeThrough u t perms => exact .writing rfl rfl rfl hsame
  | invalidate u tenant =>
    cases tenant with
    | some t => exact .deleting rfl rfl rfl hsame
    | none => exact hscanning rfl rfl rfl
  | invalidateTenant t => exact hscanning rfl rfl rfl

/-- Every step of clients whose calls do not overlap is matched. -/
theorem Follows.step (hreach : Reachable cfg w) (h : Follows cfg w s)
    (hs : step cfg w a = some w') (hone : OneAtATime w a) : Matched cfg s w' := by
  cases a with
  | read c u t ask =>
    obtain ⟨hended, hcalls, hhelios, hsame⟩ := h.at_rest hone
    cases hs
    exact ⟨[], s, rfl, .reading [] rfl hended hhelios rfl (.asking rfl rfl rfl hcalls hsame)⟩
  | mutate request =>
    obtain ⟨hended, hcalls, hhelios, hsame⟩ := h.at_rest hone
    cases hs
    exact ⟨[], s, rfl, .mutating [] rfl hended hcalls hhelios (start_phase s w.clock request hsame)⟩
  | serveRead i fate => exact h.read_acts hreach hs rfl
  | sample i fate => exact h.read_acts hreach hs rfl
  | resumeRead i => exact h.read_acts hreach hs rfl
  | serveMutation j fate => exact h.mutation_acts hreach hs rfl
  | resumeMutation j => exact h.mutation_acts hreach hs rfl
  | change u t body =>
    cases hs
    exact h.changes
  | cancel i => exact hone.elim
  | expire k => exact hone.elim

/-- Sessions and runs show the same: from any content of the cache and any memberships, what
can be seen after the turns of some session (which reads were made by which client and what
each returned or raised, the same of the mutating calls, every call of Helios, the memberships
and the value under every key) is what can be seen of the clients after some run in which
no two calls overlap, no read is cancelled and nothing expires, once no call is under way. -/
theorem session_shows_iff_run_shows (cfg : Config Raw)
    (content : OrderedDict String (Raw × Option ℕ)) (helios : Memberships) (seen : Observed Raw) :
    (∃ turns s, run (turnStep cfg) (.start content helios) turns = some s ∧ s.observed = seen) ↔
      ∃ as w, run (ClientWorld.step cfg) (.init content helios) as = some w ∧
        Along (ClientWorld.step cfg) (fun w a _ => OneAtATime w a) (.init content helios) as ∧
        Quiet w ∧ observedOf w = seen := by
  have hinit : Reachable cfg (.init content helios) := ⟨content, helios, [], rfl⟩
  constructor
  · rintro ⟨turns, s, hrun, rfl⟩
    have hstart : Mirrors cfg (.start content helios) (.init content helios) :=
      ⟨rfl, ⟨by simp [World.init], by simp [World.init]⟩, hinit, start_past content⟩
    obtain ⟨as, w, has, halong, hmirrors⟩ := run_simulates (C := fun _ _ _ => True)
      (fun _ _ _ _ hx hsx _ => turn_runs hx hsx) hrun (along_of_forall fun _ _ => trivial) hstart
    exact ⟨as, w, has, halong, hmirrors.quiet, hmirrors.observed⟩
  · rintro ⟨as, w, hrun, halong, hquiet, rfl⟩
    have hstart : Follows cfg (.init content helios) (.start content helios) :=
      .quiet ⟨rfl, rfl, by simp [World.init], by simp [World.init]⟩ rfl rfl fun _ => rfl
    let Both (w : World Raw) (s : Session Raw) : Prop := Reachable cfg w ∧ Follows cfg w s
    have hstep : ∀ x a x' t, Both x t → ClientWorld.step cfg x a = some x' → OneAtATime x a →
        ∃ turns t', run (turnStep cfg) t turns = some t' ∧
          Along (turnStep cfg) (fun _ _ _ => True) t turns ∧ Both x' t' := by
      intro x a x' t hx hsx ha
      have hnext : run (ClientWorld.step cfg) x [a] = some x' :=
        run_cons_iff.mpr ⟨x', hsx, rfl⟩
      obtain ⟨turns, t', ht', hfollows⟩ := hx.2.step hx.1 hsx ha
      exact ⟨turns, t', ht', along_of_forall fun _ _ => trivial, reachable_run hx.1 hnext,
        hfollows⟩
    obtain ⟨turns, s, hturns, -, -, hfollows⟩ := run_simulates hstep hrun halong ⟨hinit, hstart⟩
    obtain ⟨hended, hcalls, hhelios, hsame⟩ := hfollows.at_rest hquiet
    exact ⟨turns, s, hturns, (observed_eq hended.reads hended.mutations hcalls hhelios hsame).symm⟩

end runs

end HeliosPermissions.SessionRuns
