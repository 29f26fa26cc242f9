import HeliosPermissions.ErasedCancels
import HeliosPermissions.PermissionCaches

/-!
# Methods of the Redis cache inside the client system

A mutating call that the event loop and the server run to its end, with nothing
in between, has the effect of the method that the sequential cache has for it:
the same result, and a keyspace that holds the same values. For the bulk
invalidations the loop of the method is replayed round by round.
-/

namespace HeliosPermissions.SequentialCalls

open JsonValues CacheKeys CacheStore ClientWorld IndexedTables PartialRuns PermissionCaches
open RedisPermissionCache ErasedCancels

variable {Raw : Type} {cfg : Config Raw} {w : World Raw} {j : MutationId} {m : MutationCall Raw}

/-- The moves of one mutating call and of the server for it. -/
def ActsFor (j : MutationId) : Action → Prop
  | .serveMutation i _ => i = j
  | .resumeMutation i => i = j
  | _ => False

/-- A mutating call runs to its end with nothing in between, with this result and
this keyspace. -/
def RunsTo (cfg : Config Raw) (w : World Raw) (j : MutationId) (result : Except PyError ℕ)
    (store : Store Raw) : Prop :=
  ∃ as v m', (∀ a ∈ as, ActsFor j a) ∧ run (step cfg) w as = some v ∧ v.store = store ∧
    v.mutations[j]? = some m' ∧ m'.pc = .done result

/-- A call that is made now and left alone with the server has this result, and
leaves this keyspace. -/
def Performs (cfg : Config Raw) (w : World Raw) (request : MutationRequest)
    (result : Except PyError ℕ) (store : Store Raw) : Prop :=
  ∃ w₁, run (step cfg) w [.mutate request] = some w₁ ∧
    RunsTo cfg w₁ w.mutations.length result store

/-- One command of a mutating call: it is served, and the call goes on. -/
theorem serves_then_resumes {cmd : Command Raw} {fate : Fate} {reply : Reply Raw}
    {store : Store Raw} {m' : MutationCall Raw} (hm : w.mutations[j]? = some m)
    (hport : m.port = .sent cmd)
    (hs : serve cfg.backend w.clock (.writeThrough j) m.progress w.store cmd fate =
      some (reply, store))
    (ha : (m.answered w.clock reply).advance (w.clock + 1) reply = some m') :
    ∃ v, run (step cfg) w [.serveMutation j fate, .resumeMutation j] = some v ∧
      v.store = store ∧ v.mutations[j]? = some m' := by
  have hserved : Transition cfg w (.serveMutation j fate)
      ({ w with store := store }.putMutation j (m.answered w.clock reply)) :=
    .mutationServed hm hport hs
  let w₁ := ({ w with store := store }.putMutation j (m.answered w.clock reply)).tick
  have hrow : w₁.mutations[j]? = some (m.answered w.clock reply) := get_set_self hm
  have hresumed : Transition cfg w₁ (.resumeMutation j) (w₁.putMutation j m') :=
    .mutationResumes hrow rfl ha
  refine ⟨(w₁.putMutation j m').tick, ?_, rfl, get_set_self hrow⟩
  rw [run_cons_iff]
  refine ⟨w₁, hserved.step_eq, ?_⟩
  rw [run_cons_iff]
  exact ⟨_, hresumed.step_eq, rfl⟩

/-- Serving a call and resuming it are its own actions. -/
theorem actsFor_exchange (j : MutationId) (fate : Fate) :
    ∀ a ∈ [Action.serveMutation j fate, .resumeMutation j], ActsFor j a := by
  simp [ActsFor]

/-- The rest of a call after one of its commands. -/
theorem RunsTo.after {w₁ : World Raw} {fate : Fate} {result : Except PyError ℕ}
    {store : Store Raw}
    (hr : run (step cfg) w [.serveMutation j fate, .resumeMutation j] = some w₁)
    (h : RunsTo cfg w₁ j result store) : RunsTo cfg w j result store := by
  obtain ⟨as, v, m', hacts, has, hv⟩ := h
  refine ⟨_ ++ as, v, m', ?_, run_append_iff.mpr ⟨w₁, hr, has⟩, hv⟩
  intro a ha
  rcases List.mem_append.mp ha with hfirst | hrest
  · exact actsFor_exchange j fate a hfirst
  · exact hacts a hrest

/-- The last command of a call. -/
theorem runsTo_last {cmd : Command Raw} {fate : Fate} {reply : Reply Raw} {store : Store Raw}
    {m' : MutationCall Raw} {result : Except PyError ℕ} (hm : w.mutations[j]? = some m)
    (hport : m.port = .sent cmd)
    (hs : serve cfg.backend w.clock (.writeThrough j) m.progress w.store cmd fate =
      some (reply, store))
    (ha : (m.answered w.clock reply).advance (w.clock + 1) reply = some m')
    (hdone : m'.pc = .done result) : RunsTo cfg w j result store := by
  obtain ⟨v, hv, hstore, hrow⟩ := serves_then_resumes hm hport hs ha
  exact ⟨_, v, m', actsFor_exchange j fate, hv, hstore, hrow, hdone⟩

/-- A call that has been made has sent its first command. -/
theorem mutate_runs (cfg : Config Raw) (w : World Raw) (request : MutationRequest) :
    ∃ w₁, run (step cfg) w [.mutate request] = some w₁ ∧ w₁.store = w.store ∧
      w₁.clock = w.clock + 1 ∧
      w₁.mutations[w.mutations.length]? = some (.start cfg w.clock request) := by
  refine ⟨_, rfl, rfl, rfl, ?_⟩
  exact get_append_last

/-- After the first page the time no longer matters to a scan. -/
theorem scanAndDelete_started {backend : Backend Raw} (now now' : ℕ) {scope : Scope}
    (rounds : List ScanRound) (t : ℕ) (seen : List String) (total : ℕ) (store : Store Raw) :
    scanAndDelete backend now scope rounds ⟨some t, seen⟩ total store =
      scanAndDelete backend now' scope rounds ⟨some t, seen⟩ total store := by
  induction rounds generalizing seen total store with
  | nil => rfl
  | cons round rest ih =>
    have hsend : ∀ keys fate, send now .initial store (.delete keys) fate =
        send now' .initial store (.delete keys) fate := by
      intro keys fate
      cases fate <;> rfl
    simp only [scanAndDelete, PageAllowed, Option.getD_some, hsend, ih]

/-- The DEL of a page, as the method sends it. -/
theorem serve_delete_page (backend : Backend Raw) (now now' : ℕ) (origin : Origin)
    (progress : ScanProgress) (store : Store Raw) (keys : List String) (fate : CommandFate) :
    serve backend now origin progress store (.delete keys) fate.toFate =
      some (send now' .initial store (.delete keys) fate) := by
  cases fate <;> rfl

/-- The system runs these rounds whenever a call is about to SCAN. -/
def RunsRounds (cfg : Config Raw) (j : MutationId) (scope : Scope) (rounds : List ScanRound) :
    Prop :=
  ∀ {w : World Raw} {m : MutationCall Raw} {total c : ℕ} {result : Except PyError ℕ}
    {store' : Store Raw}, w.mutations[j]? = some m → m.pc = .scanning scope total →
    m.port = .sent (.scan c scope) →
    scanAndDelete cfg.backend w.clock scope rounds m.progress total w.store =
      some (result, store') →
    RunsTo cfg w j result store'

/-- The DEL of a page, and the rounds that come after it. -/
theorem deletePage_runs {scope : Scope} {rest : List ScanRound} {total cursor started now : ℕ}
    {seen keys : List String} {fate : CommandFate} {result : Except PyError ℕ}
    {store' : Store Raw} (hrest : RunsRounds cfg j scope rest) (hm : w.mutations[j]? = some m)
    (hpc : m.pc = .deletingPage scope total cursor) (hport : m.port = .sent (.delete keys))
    (hprog : m.progress = ⟨some started, seen⟩)
    (h : (match send now .initial w.store (.delete keys) fate with
      | (.deleted count, store') =>
        if cursor = 0 then some (.ok (total + count), store')
        else scanAndDelete cfg.backend now scope rest ⟨some started, seen⟩ (total + count) store'
      | (_, store') => some (.error .redisError, store')) = some (result, store')) :
    RunsTo cfg w j result store' := by
  have hserve := serve_delete_page cfg.backend w.clock now (.writeThrough j) m.progress w.store
    keys fate
  rcases send_delete now w.store keys fate with ⟨count, hs⟩ | ⟨failed, hs⟩
  · rw [hs] at h hserve
    dsimp only at h
    by_cases hcursor : cursor = 0
    · rw [if_pos hcursor] at h
      cases h
      exact runsTo_last hm hport hserve
        (by simp [MutationCall.advance, MutationCall.answered, hpc, hcursor]; rfl) rfl
    · rw [if_neg hcursor] at h
      obtain ⟨v, hv, hstore, hrow⟩ := serves_then_resumes hm hport hserve
        (by simp [MutationCall.advance, MutationCall.answered, hpc, hcursor]; rfl)
      rw [← hstore, scanAndDelete_started now v.clock, ← hprog] at h
      exact .after hv (hrest hrow rfl rfl h)
  · rw [hs] at h hserve
    cases h
    exact runsTo_last hm hport hserve
      (by simp [MutationCall.advance, MutationCall.answered, hpc]; rfl) rfl

/-- The rounds of a bulk invalidation are run by the system. -/
theorem scan_runs (cfg : Config Raw) (j : MutationId) (scope : Scope)
    (rounds : List ScanRound) : RunsRounds cfg j scope rounds := by
  induction rounds with
  | nil =>
    intro w m total c result store' hm hpc hport h
    cases h
  | cons round rest ih =>
    intro w m total c result store' hm hpc hport h
    rw [scanAndDelete] at h
    cases hpage : round.page with
    | none =>
      rw [hpage] at h
      cases h
      have hfails : serve cfg.backend w.clock (.writeThrough j) m.progress w.store (.scan c scope)
          (.fails false) = some (.failed, w.store) := rfl
      exact runsTo_last hm hport hfails
        (by simp [MutationCall.advance, MutationCall.answered, hpc]; rfl) rfl
    | some page =>
      obtain ⟨cursor, keys⟩ := page
      rw [hpage] at h
      dsimp only at h
      by_cases hallowed : PageAllowed cfg.backend w.clock m.progress w.store scope cursor keys
      · rw [if_pos hallowed] at h
        have hscan : serve cfg.backend w.clock (.writeThrough j) m.progress w.store
            (.scan c scope) (.returns cursor keys) = some (.page cursor keys, w.store) := by
          simp only [serve, if_pos hallowed]
        by_cases hkeys : keys = []
        · subst hkeys
          rw [if_pos rfl] at h
          by_cases hcursor : cursor = 0
          · rw [if_pos hcursor] at h
            cases h
            exact runsTo_last hm hport hscan
              (by simp [MutationCall.advance, MutationCall.answered, hpc, hcursor]; rfl) rfl
          · rw [if_neg hcursor] at h
            obtain ⟨v, hv, hstore, hrow⟩ := serves_then_resumes hm hport hscan
              (by simp [MutationCall.advance, MutationCall.answered, hpc, hcursor]; rfl)
            rw [← hstore, scanAndDelete_started w.clock v.clock] at h
            exact .after hv (ih hrow rfl rfl h)
        · rw [if_neg hkeys] at h
          obtain ⟨v, hv, hstore, hrow⟩ := serves_then_resumes hm hport hscan
            (by simp [MutationCall.advance, MutationCall.answered, hpc, hkeys]; rfl)
          rw [← hstore] at h
          exact .after hv (deletePage_runs ih hrow rfl rfl rfl h)
      · rw [if_neg hallowed] at h
        cases h

/-- A call that is made now and scans: it runs as the loop does. -/
theorem scanning_performs {request : MutationRequest} {scope : Scope} {rounds : List ScanRound}
    {store' : Store Raw} {result : Except PyError ℕ}
    (hpc : (MutationCall.start cfg w.clock request).pc = .scanning scope 0)
    (hport : (MutationCall.start cfg w.clock request).port = .sent (.scan 0 scope))
    (h : invalidateAll cfg.backend (w.clock + 1) w.store scope rounds = some (result, store')) :
    Performs cfg w request result store' := by
  obtain ⟨w₁, hr, hstore, hclock, hm⟩ := mutate_runs cfg w request
  rw [← hstore, ← hclock] at h
  exact ⟨w₁, hr, scan_runs cfg _ scope rounds hm hpc hport h⟩

/-- `invalidate` without a tenant, alone in the system, does what the method does. -/
theorem invalidateUser_performs {u : String} {rounds : List ScanRound} {store' : Store Raw}
    {result : Except PyError ℕ}
    (h : invalidateAll cfg.backend (w.clock + 1) w.store (.user u) rounds =
      some (result, store')) :
    Performs cfg w (.invalidate u none) result store' :=
  scanning_performs rfl rfl h

/-- So does `invalidate_tenant`. -/
theorem invalidateTenant_performs {t : String} {rounds : List ScanRound} {store' : Store Raw}
    {result : Except PyError ℕ}
    (h : invalidateAll cfg.backend (w.clock + 1) w.store (.tenant t) rounds =
      some (result, store')) :
    Performs cfg w (.invalidateTenant t) result store' :=
  scanning_performs rfl rfl h

/-- A call whose one command is served and that then ends. -/
theorem single_performs {request : MutationRequest} {cmd : Command Raw} {fate : CommandFate}
    {result : Except PyError ℕ} {reply : Reply Raw} {store' : Store Raw}
    (hport : (MutationCall.start cfg w.clock request).port = .sent cmd)
    (hs : serve cfg.backend (w.clock + 1) (.writeThrough w.mutations.length) ⟨none, []⟩ w.store
      cmd fate.toFate = some (reply, store'))
    (hend : ∀ now, ∃ m', ((MutationCall.start cfg w.clock request).answered (w.clock + 1)
      reply).advance now reply = some m' ∧ m'.pc = .done result) :
    Performs cfg w request result store' := by
  obtain ⟨w₁, hr, hstore, hclock, hm⟩ := mutate_runs cfg w request
  rw [← hstore, ← hclock] at hs
  rw [← hclock] at hend
  obtain ⟨m', hadvance, hdone⟩ := hend (w₁.clock + 1)
  exact ⟨w₁, hr, runsTo_last hm hport hs hadvance hdone⟩

/-- `invalidate` with a tenant, alone in the system, does what the method does. -/
theorem invalidate_performs (cfg : Config Raw) (w : World Raw) (u t : String)
    (fate : CommandFate) :
    Performs cfg w (.invalidate u (some t)) (invalidate cfg.backend w.store u t fate).1
      (invalidate cfg.backend w.store u t fate).2 := by
  have hserve := serve_delete_page cfg.backend (w.clock + 1) 0
    (.writeThrough w.mutations.length) ⟨none, []⟩ w.store [cfg.backend.key u t] fate
  unfold invalidate
  rcases send_delete 0 w.store [cfg.backend.key u t] fate with ⟨count, hs⟩ | ⟨failed, hs⟩
  · rw [hs] at hserve ⊢
    exact single_performs rfl hserve fun now => ⟨_, rfl, rfl⟩
  · rw [hs] at hserve ⊢
    exact single_performs rfl hserve fun now => ⟨_, rfl, rfl⟩

/-- When and by whom a value was written is no part of the value. -/
theorem send_set_sameValues (store : Store Raw) (k : String) (nx : Bool) {raw : Raw}
    {ex : Option ℕ} {now now' : ℕ} {origin origin' : Origin} {fate : CommandFate} :
    SameValues (send now origin store (.set k raw ex nx) fate).2
      (send now' origin' store (.set k raw ex nx) fate).2 := by
  have hsame : SameValues store store := fun _ => rfl
  have hset : SameValues (execute now origin store (.set k raw ex nx)).2
      (execute now' origin' store (.set k raw ex nx)).2 := by
    cases hold : store.get? k with
    | none =>
      simp only [execute, hold]
      exact hsame.set k rfl
    | some old =>
      simp only [execute, hold]
      cases nx with
      | false => exact hsame.set k rfl
      | true => exact hsame
  cases fate with
  | executes => exact hset
  | fails applied =>
    cases applied with
    | false => exact hsame
    | true => exact hset

/-- `write_through` alone in the system leaves the values that the method leaves. -/
theorem writeThrough_performs (cfg : Config Raw) (w : World Raw) (u t : String)
    (perms : List Json) (now : ℕ) (fate : CommandFate) :
    ∃ store', Performs cfg w (.writeThrough u t perms) (.ok 0) store' ∧
      SameValues store' (writeThrough cfg.backend now w.store u t perms fate) := by
  let cmd : Command Raw :=
    .set (cfg.backend.key u t) (cfg.backend.dumps perms) cfg.backend.ex false
  let sent := send (w.clock + 1) (.writeThrough w.mutations.length) w.store cmd fate
  have hscan : ∀ cursor scope, cmd ≠ .scan cursor scope := by simp [cmd]
  have hserve := serve_eq_send cfg.backend (w.clock + 1) (.writeThrough w.mutations.length)
    ⟨none, []⟩ w.store cmd fate hscan
  refine ⟨sent.2, single_performs rfl hserve fun now => ⟨_, rfl, rfl⟩, ?_⟩
  exact send_set_sameValues w.store (cfg.backend.key u t) false

end HeliosPermissions.SequentialCalls
