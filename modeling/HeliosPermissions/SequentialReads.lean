import HeliosPermissions.SequentialCalls

/-!
# One read after another

`_resolve_perms` as a function, for a read that finds nothing in flight and is
left alone with the server and with Helios: the cache, then Helios, then the
populate. A read of the client system that runs so has the same outcome, leaves
the same values, and calls Helios exactly when the function does.
-/

namespace HeliosPermissions.SequentialReads

open JsonValues CacheKeys CacheStore HeliosResolution ClientWorld IndexedTables PartialRuns
open PermissionCaches ErasedCancels SequentialCalls

variable {Raw : Type}

/-- What a read meets: the fates of its GET, of its HTTP call and of its SET. -/
structure ReadEnv where
  /-- How its GET ends. -/
  getFate : CommandFate
  /-- How its HTTP call ends. -/
  outcome : HttpOutcome
  /-- How its SET ends. -/
  setFate : CommandFate

/-- How a read ends. -/
structure ReadEnd (Raw α : Type) where
  /-- What it returns or raises. -/
  outcome : Except PyError α
  /-- The keyspace that it leaves. -/
  store : Store Raw
  /-- Whether it called `fetch_user_permissions`. -/
  heliosCalled : Bool

/-- `_fetch_and_populate` and the rest of `_resolve_perms` after a miss. -/
def fetchAndPopulate (backend : Backend Raw) (staleOnError : Bool) (now : ℕ)
    (store : Store Raw) (userId tenantId : String) (env : ReadEnv) : ReadEnd Raw (List Json) :=
  match fetchEnd userId tenantId env.outcome with
  | .unreachable message =>
    ⟨if staleOnError then .ok [] else .error (.heliosUnreachable message), store, true⟩
  | .escaped err => ⟨.error err, store, true⟩
  | .resolved perms =>
    ⟨.ok perms, RedisPermissionCache.set backend now store userId tenantId perms env.setFate, true⟩

/-- `_resolve_perms` with nothing in flight. -/
def resolveAlone (backend : Backend Raw) (staleOnError : Bool) (now : ℕ) (store : Store Raw)
    (userId tenantId : String) (env : ReadEnv) : ReadEnd Raw (List Json) :=
  match RedisPermissionCache.get backend store userId tenantId env.getFate with
  | .error err => ⟨.error err, store, false⟩
  | .ok (some perms) => ⟨.ok perms, store, false⟩
  | .ok none => fetchAndPopulate backend staleOnError now store userId tenantId env

/-- `required_perm in perms`. -/
def holds (requiredPerm : String) (perms : List Json) : Bool := perms.any (Json.isStr requiredPerm)

/-- `caller_has_permission` with nothing in flight. -/
def callerHasPermission (backend : Backend Raw) (staleOnError : Bool) (now : ℕ)
    (store : Store Raw) (userId tenantId requiredPerm : String) (env : ReadEnv) :
    ReadEnd Raw Bool :=
  let resolved := resolveAlone backend staleOnError now store userId tenantId env
  ⟨resolved.outcome.map (holds requiredPerm), resolved.store, resolved.heliosCalled⟩

/-- What a read writes is what it fetched. -/
theorem resolveAlone_populates (backend : Backend Raw) (staleOnError : Bool) (now : ℕ)
    (store : Store Raw) (u t : String) (env : ReadEnv) :
    (resolveAlone backend staleOnError now store u t env).store = store ∨ ∃ perms,
      fetchEnd u t env.outcome = .resolved perms ∧
      (resolveAlone backend staleOnError now store u t env).store =
        RedisPermissionCache.set backend now store u t perms env.setFate := by
  unfold resolveAlone fetchAndPopulate
  split
  · exact Or.inl rfl
  · exact Or.inl rfl
  · split
    · exact Or.inl rfl
    · exact Or.inl rfl
    · next perms hfetch => exact Or.inr ⟨perms, hfetch, rfl⟩

/-- A read writes nothing but its populate. -/
theorem resolveAlone_store (backend : Backend Raw) (staleOnError : Bool) (now : ℕ)
    (store : Store Raw) (u t : String) (env : ReadEnv) :
    (resolveAlone backend staleOnError now store u t env).store = store ∨ ∃ perms,
      (resolveAlone backend staleOnError now store u t env).store =
        RedisPermissionCache.set backend now store u t perms env.setFate :=
  (resolveAlone_populates backend staleOnError now store u t env).imp_right
    fun ⟨perms, _, hset⟩ => ⟨perms, hset⟩

/-- The moves of one read, and of the server and Helios for it. -/
def ActsForRead (i : ReadId) : Action → Prop
  | .serveRead j _ => j = i
  | .sample j _ => j = i
  | .resumeRead j => j = i
  | _ => False

/-- The read has ended so, leaves nothing in flight for its pair, and Helios has been
called this often in all. -/
structure EndsAs (v : World Raw) (i : ReadId) (c : ClientId) (u t : String)
    (outcome : Outcome) (store : Store Raw) (calls : List (ClientId × String × String)) :
    Prop where
  /-- It has ended with the outcome. -/
  ended : ∃ r via, v.reads[i]? = some r ∧ r.pc = .done outcome via
  /-- The cache holds the values of the store. -/
  store : SameValues v.store store
  /-- Helios has been called so. -/
  calls : v.heliosCalls = calls
  /-- Nothing is in flight for its pair. -/
  free : (v.inFlight c).get? (lockKey u t) = none

section phases

variable {cfg : Config Raw} {w : World Raw} {i : ReadId} {r : ReadCall Raw} {f : FutureId}

/-- A transition as a run of one action. -/
theorem runs_of_transition {a : Action} {v : World Raw} (h : Transition cfg w a v) :
    run (step cfg) w [a] = some v.tick := by
  rw [run_cons_iff]
  exact ⟨v.tick, h.step_eq, rfl⟩

/-- What is true of a leader from its Helios fetch on: it is the read of this pair and
client, runs, and its future is pending. -/
structure Leading (w : World Raw) (i : ReadId) (r : ReadCall Raw) (f : FutureId) (c : ClientId)
    (u t : String) : Prop where
  /-- It is the read of this id. -/
  row : w.reads[i]? = some r
  /-- No cancellation waits for it. -/
  marked : r.mustCancel = false
  /-- It is a call of the client. -/
  client : r.client = c
  /-- It asks for the user. -/
  user : r.userId = u
  /-- It asks for the tenant. -/
  tenant : r.tenantId = t
  /-- Its future has no outcome yet. -/
  pending : w.futureState f = some .pending

variable {c : ClientId} {u t : String} {o : Outcome}

/-- Its lock is that of the pair. -/
theorem Leading.lock (h : Leading w i r f c u t) : r.lock = lockKey u t := by
  rw [ReadCall.lock, h.user, h.tenant]

/-- An exception that leaves the fetch ends the leader. -/
theorem abandon_ends (h : Leading w i r f c u t) (err : PyError) :
    EndsAs (w.abandon i r f err).tick i c u t (.error err) w.store w.heliosCalls where
  ended := ⟨_, _, get_set_self h.row, rfl⟩
  store := fun _ => rfl
  calls := rfl
  free := by
    simp [World.abandon, World.finishRead, World.putRead, World.popInFlight, World.tick,
      h.client, h.lock]

/-- A leader whose future is pending ends with the outcome that it settles. -/
theorem conclude_ends (h : Leading w i r f c u t) :
    EndsAs (w.conclude i r f o).tick i c u t o w.store w.heliosCalls := by
  rw [World.conclude, h.pending]
  refine ⟨⟨_, _, get_set_self h.row, rfl⟩, fun _ => rfl, rfl, ?_⟩
  simp [World.finishRead, World.putRead, World.popInFlight, World.settle, World.tick, h.client,
    h.lock]

/-- The end of a leader whose populate has been sent. -/
theorem populate_runs {perms : List Json} (h : Leading w i r f c u t)
    (hpc : r.pc = .cacheSet f perms) (hport : r.port = .sent (populateCommand cfg u t perms))
    (fate : CommandFate) (now : ℕ) :
    ∃ v, run (step cfg) w [.serveRead i fate.toFate, .resumeRead i] = some v ∧
      EndsAs v i c u t (.ok perms)
        (RedisPermissionCache.set cfg.backend now w.store u t perms fate) w.heliosCalls := by
  let sent := send w.clock (.populate i) w.store (populateCommand cfg u t perms) fate
  have hscan : ∀ cursor scope, populateCommand cfg u t perms ≠ .scan cursor scope := by
    simp [populateCommand]
  have hserved := Transition.readServed h.row hport
    (serve_eq_send cfg.backend w.clock (.populate i) ⟨none, []⟩ w.store _ fate hscan)
  let w₁ := ({ w with store := sent.2 }.putRead i { r with port := .replied sent.1 }).tick
  have h₁ : Leading w₁ i { r with port := .replied sent.1 } f c u t :=
    ⟨get_set_self h.row, h.marked, h.client, h.user, h.tenant, h.pending⟩
  have hresumed : Transition cfg w₁ (.resumeRead i) (w₁.conclude i _ f (.ok perms)) :=
    .populated h₁.row h₁.marked hpc rfl
  have hends := conclude_ends (o := .ok perms) h₁
  refine ⟨_, ?_, hends.ended, ?_, hends.calls, hends.free⟩
  · rw [run_cons_iff]
    exact ⟨w₁, hserved.step_eq, runs_of_transition hresumed⟩
  · intro k
    have hset : SameValues w₁.store
        (RedisPermissionCache.set cfg.backend now w.store u t perms fate) :=
      send_set_sameValues w.store (cfg.backend.key u t) true
    exact (hset k).trans (hends.store k)

/-- A leader from its call of Helios on does what the rest of the function does. -/
theorem fetch_runs (cfg : Config Raw) (h : Leading w i r f c u t) (hpc : r.pc = .heliosFetch f)
    (hsam : r.sampled = none) (env : ReadEnv) (now : ℕ) :
    ∃ as v, (∀ a ∈ as, ActsForRead i a) ∧ run (step cfg) w as = some v ∧
      EndsAs v i c u t
        (fetchAndPopulate cfg.backend (cfg.staleOnError c) now w.store u t env).outcome
        (fetchAndPopulate cfg.backend (cfg.staleOnError c) now w.store u t env).store
        w.heliosCalls := by
  let r₁ : ReadCall Raw := { r with sampled := some (w.clock, env.outcome) }
  have hsampled : Transition cfg w (.sample i (.fault env.outcome)) (w.putRead i r₁) :=
    .sampled (.fault env.outcome) h.row hpc hsam
  let w₁ := (w.putRead i r₁).tick
  have h₁ : Leading w₁ i r₁ f c u t :=
    ⟨get_set_self h.row, h.marked, h.client, h.user, h.tenant, h.pending⟩
  have hids : fetchEnd r₁.userId r₁.tenantId env.outcome = fetchEnd u t env.outcome := by
    rw [h₁.user, h₁.tenant]
  -- the leader resumes, and ends at once unless it populates
  have hlast : ∀ v, Transition cfg w₁ (.resumeRead i) v → run (step cfg) w
      [.sample i (.fault env.outcome), .resumeRead i] = some v.tick := by
    intro v hv
    rw [run_cons_iff]
    exact ⟨w₁, hsampled.step_eq, runs_of_transition hv⟩
  unfold fetchAndPopulate
  cases he : fetchEnd u t env.outcome with
  | unreachable message =>
    have hresumed : Transition cfg w₁ (.resumeRead i) _ :=
      .unreachable h₁.row h₁.marked hpc rfl (hids.trans he)
    have houtcome : World.unreachableOutcome cfg r₁.client message =
        if cfg.staleOnError c then .ok [] else .error (.heliosUnreachable message) := by
      rw [h₁.client, World.unreachableOutcome]
    rw [houtcome] at hresumed
    exact ⟨_, _, by simp [ActsForRead], hlast _ hresumed, conclude_ends h₁⟩
  | escaped err =>
    have hresumed : Transition cfg w₁ (.resumeRead i) _ :=
      .escapes h₁.row h₁.marked hpc rfl (hids.trans he)
    exact ⟨_, _, by simp [ActsForRead], hlast _ hresumed, abandon_ends h₁ err⟩
  | resolved perms =>
    have hresumed : Transition cfg w₁ (.resumeRead i) _ :=
      .populates h₁.row h₁.marked hpc rfl (hids.trans he)
    have hcmd : populateCommand cfg r₁.userId r₁.tenantId perms =
        populateCommand cfg u t perms := by
      rw [h₁.user, h₁.tenant]
    let r₂ : ReadCall Raw := { r₁ with
      pc := .cacheSet f perms
      port := .sent (populateCommand cfg r₁.userId r₁.tenantId perms) }
    have h₂ : Leading (w₁.putRead i r₂).tick i r₂ f c u t :=
      ⟨get_set_self h₁.row, h.marked, h.client, h.user, h.tenant, h.pending⟩
    obtain ⟨v, hv, hends⟩ := populate_runs h₂ rfl (congrArg Port.sent hcmd) env.setFate now
    refine ⟨_, v, ?_, run_append_iff.mpr ⟨_, hlast _ hresumed, hv⟩, hends⟩
    simp [ActsForRead]

end phases

/-- A read that is made when its pair is not in flight, and is left alone with the
server and Helios, ends as the function says. -/
theorem read_performs (cfg : Config Raw) (w : World Raw) {c : ClientId} {u t : String} (ask : Ask)
    (hfree : (w.inFlight c).get? (lockKey u t) = none) (env : ReadEnv) (now : ℕ) :
    ∃ as v, (∀ a ∈ as, ActsForRead w.reads.length a) ∧
      run (step cfg) w (.read c u t ask :: as) = some v ∧
      EndsAs v w.reads.length c u t
        (resolveAlone cfg.backend (cfg.staleOnError c) now w.store u t env).outcome
        (resolveAlone cfg.backend (cfg.staleOnError c) now w.store u t env).store
        (w.heliosCalls ++
          if (resolveAlone cfg.backend (cfg.staleOnError c) now w.store u t env).heliosCalled
          then [(c, u, t)] else []) := by
  let i := w.reads.length
  let r : ReadCall Raw := .start cfg w.clock c u t ask
  let reply := (send 0 .initial w.store (.get (cfg.backend.key u t)) env.getFate).1
  let w₁ : World Raw := ({ w with reads := w.reads ++ [r] }).tick
  have hrow₁ : w₁.reads[i]? = some r := get_append_last
  have hserve : serve cfg.backend w₁.clock (.populate i) ⟨none, []⟩ w₁.store
      (.get (cfg.backend.key u t)) env.getFate.toFate = some (reply, w.store) := by
    rw [serve_eq_send _ _ _ _ _ _ _ (by simp)]
    cases hfate : env.getFate with
    | executes => simp [reply, send, execute, hfate, w₁, World.tick]
    | fails applied => cases applied <;> simp [reply, send, execute, hfate, w₁, World.tick]
  have hserved : Transition cfg w₁ (.serveRead i env.getFate.toFate) _ :=
    .readServed hrow₁ rfl hserve
  let r₂ : ReadCall Raw := { r with port := .replied reply }
  let w₂ : World Raw := ({ w₁ with store := w.store }.putRead i r₂).tick
  have hrow₂ : w₂.reads[i]? = some r₂ := get_set_self hrow₁
  have hfirst : run (step cfg) w [.read c u t ask, .serveRead i env.getFate.toFate] = some w₂ := by
    rw [run_cons_iff]
    exact ⟨w₁, (Transition.readStarts c u t ask).step_eq, runs_of_transition hserved⟩
  have hget : RedisPermissionCache.get cfg.backend w.store u t env.getFate =
      decodeGet cfg.backend reply := rfl
  -- a read that ends right after its GET leaves everything as it was
  have hlast : ∀ o, Transition cfg w₂ (.resumeRead i) (w₂.finishRead i r₂ o .cache) →
      ∃ as v, (∀ a ∈ as, ActsForRead i a) ∧ run (step cfg) w (.read c u t ask :: as) = some v ∧
        EndsAs v i c u t o w.store (w.heliosCalls ++ []) := by
    intro o hv
    refine ⟨[.serveRead i env.getFate.toFate, .resumeRead i], _, by simp [ActsForRead],
      run_append_iff.mpr ⟨w₂, hfirst, runs_of_transition hv⟩, ⟨_, _, get_set_self hrow₂, rfl⟩,
      fun _ => rfl, (List.append_nil _).symm, hfree⟩
  unfold resolveAlone
  rw [hget]
  cases hd : decodeGet cfg.backend reply with
  | error err => exact hlast _ (.getRaises hrow₂ rfl rfl rfl hd)
  | ok cached =>
    cases cached with
    | some perms => exact hlast _ (.getHits hrow₂ rfl rfl rfl hd)
    | none =>
      have hleads : Transition cfg w₂ (.resumeRead i) (w₂.lead i r₂) :=
        .leads hrow₂ rfl rfl rfl hd hfree
      have h₃ : Leading (w₂.lead i r₂).tick i { r₂ with pc := .heliosFetch w₂.futures.length }
          w₂.futures.length c u t := by
        refine ⟨get_set_self hrow₂, rfl, rfl, rfl, rfl, ?_⟩
        simp [World.lead, World.tick, World.futureState]
      obtain ⟨as, v, hacts, hv, hends⟩ := fetch_runs cfg h₃ rfl rfl env now
      have hcalled : (fetchAndPopulate cfg.backend (cfg.staleOnError c) now w.store u t
          env).heliosCalled = true := by
        unfold fetchAndPopulate
        split <;> rfl
      refine ⟨[.serveRead i env.getFate.toFate, .resumeRead i] ++ as, v, ?_, ?_, ?_⟩
      · intro a ha
        rcases List.mem_append.mp ha with hfirst | hrest
        · simp only [List.mem_cons, List.not_mem_nil, or_false] at hfirst
          rcases hfirst with rfl | rfl
          · rfl
          · rfl
        · exact hacts a hrest
      · exact run_append_iff.mpr ⟨_, run_append_iff.mpr ⟨w₂, hfirst, runs_of_transition hleads⟩, hv⟩
      · dsimp only
        rw [hcalled]
        exact hends

end HeliosPermissions.SequentialReads
