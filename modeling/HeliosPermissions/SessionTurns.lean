import HeliosPermissions.EqualCaches
import HeliosPermissions.SettledPairs

/-!
# Sessions, turn by turn

A session calls the methods of the client one after another, each as one function
from what it meets to what it leaves. The clients take every call in pieces, between
which the server, Helios and the event loop move. Every turn of a session is a run of
the clients in which no two calls overlap, with the same answers and the same values
in the cache.
-/

namespace HeliosPermissions.SessionTurns

open JsonValues CacheKeys CacheStore HeliosResolution ClientWorld IndexedTables PartialRuns
open InFlightTable CallHistory CallShapes SharedFetches PermissionCaches ErasedCancels
open RevocationEffects SequentialCalls SequentialReads EqualCaches SettledPairs
open CoherentSessions (Memberships)
open RedisPermissionCache (ScanRound scanAndDelete invalidateAll)

variable {Raw : Type}

/-- What a service sees of a read. -/
structure ReadRecord where
  /-- The client called. -/
  client : ClientId
  /-- `user_id`. -/
  userId : String
  /-- `tenant_id`. -/
  tenantId : String
  /-- Which of the two methods, with its argument. -/
  ask : Ask
  /-- What the public method has returned or raised. -/
  ended : Option (Except PyError (Bool ⊕ List Json))

/-- What a service sees of a mutating call. -/
structure MutationRecord where
  /-- What is called, with its arguments. -/
  request : MutationRequest
  /-- What it has returned or raised. -/
  ended : Option CallResult

/-- What can be seen of the calls, of Helios and of the cache. -/
structure Observed (Raw : Type) where
  /-- The reads, in the order of their calls. -/
  reads : List ReadRecord
  /-- The mutating calls, in the order of their calls. -/
  mutations : List MutationRecord
  /-- The calls of Helios. -/
  heliosCalls : List (ClientId × String × String)
  /-- The memberships in Helios. -/
  helios : Memberships
  /-- The value of each key. -/
  values : String → Option Raw

/-- What a read has come to. -/
def endOfRead (ask : Ask) : ReadPc → Option (Except PyError (Bool ⊕ List Json))
  | .done outcome _ => some (outcome.map ask.answer)
  | _ => none

/-- What a mutating call has come to. -/
def endOfMutation : MutationPc → Option CallResult
  | .done outcome => some (.ofCount outcome)
  | _ => none

def readRecord (r : ReadCall Raw) : ReadRecord :=
  ⟨r.client, r.userId, r.tenantId, r.ask, endOfRead r.ask r.pc⟩

def mutationRecord (m : MutationCall Raw) : MutationRecord :=
  ⟨m.request, endOfMutation m.pc⟩

/-- What can be seen of the clients. -/
def observedOf (w : World Raw) : Observed Raw where
  reads := w.reads.map readRecord
  mutations := w.mutations.map mutationRecord
  heliosCalls := w.heliosCalls
  helios := w.membership
  values k := (w.store.get? k).map Entry.raw

/-- A session so far. -/
structure Session (Raw : Type) where
  /-- The Redis server. -/
  server : Server Raw
  /-- The memberships in Helios. -/
  helios : Memberships
  /-- The reads so far. -/
  reads : List ReadRecord
  /-- The mutating calls so far. -/
  mutations : List MutationRecord
  /-- The calls of Helios so far. -/
  heliosCalls : List (ClientId × String × String)

/-- What can be seen of a session. -/
def Session.observed (s : Session Raw) : Observed Raw where
  reads := s.reads
  mutations := s.mutations
  heliosCalls := s.heliosCalls
  helios := s.helios
  values k := (s.server.store.get? k).map Entry.raw

/-- A call from its start to its end, with what it meets, or a change in Helios. -/
inductive Turn where
  | read (client : ClientId) (userId tenantId : String) (ask : Ask) (getFate : CommandFate)
      (heliosFate : HeliosFate) (setFate : CommandFate)
  | mutate (call : CacheCall)
  | change (userId tenantId : String) (body : Json)

/-- The method of the client behind a call on the cache. The client calls `get` and `set`
for its reads only. -/
def requestOf : CacheCall → Option MutationRequest
  | .get _ _ _ => none
  | .set _ _ _ _ => none
  | .writeThrough u t perms _ => some (.writeThrough u t perms)
  | .invalidate u t _ => some (.invalidate u (some t))
  | .invalidateUser u _ => some (.invalidate u none)
  | .invalidateTenant t _ => some (.invalidateTenant t)

/-- The memberships after one of them has changed. -/
def changeMembership (helios : Memberships) (u t : String) (body : Json) : Memberships :=
  Function.update helios u (Function.update (helios u) t body)

/-- One turn. -/
def turnStep (cfg : Config Raw) (s : Session Raw) : Turn → Option (Session Raw)
  | .read c u t ask getFate heliosFate setFate =>
    let ended := resolveAlone cfg.backend (cfg.staleOnError c) s.server.clock s.server.store u t
      ⟨getFate, heliosFate.outcome (s.helios u t), setFate⟩
    some { s with
      server := ⟨ended.store, s.server.clock + 1⟩
      reads := s.reads ++ [⟨c, u, t, ask, some (ended.outcome.map ask.answer)⟩]
      heliosCalls := s.heliosCalls ++ if ended.heliosCalled then [(c, u, t)] else [] }
  | .mutate call => do
    let request ← requestOf call
    let (result, store) ← perform cfg.backend s.server call
    some { s with
      server := ⟨store, s.server.clock + 1⟩
      mutations := s.mutations ++ [⟨request, some result⟩] }
  | .change u t body => some { s with helios := changeMembership s.helios u t body }

/-- A session that starts with some content. -/
def Session.start (content : OrderedDict String (Raw × Option ℕ)) (helios : Memberships) :
    Session Raw :=
  ⟨.start content, helios, [], [], []⟩

/-- No call is under way. -/
structure Quiet (w : World Raw) : Prop where
  /-- Every read has ended. -/
  reads : ∀ r ∈ w.reads, r.pc.isDone = true
  /-- Every mutating call has ended. -/
  mutations : ∀ m ∈ w.mutations, ∃ outcome, m.pc = .done outcome

/-- A call starts when no other is under way, no read is cancelled and nothing expires. -/
def OneAtATime (w : World Raw) : Action → Prop
  | .read _ _ _ _ => Quiet w
  | .mutate _ => Quiet w
  | .cancel _ => False
  | .expire _ => False
  | _ => True

section sessions

variable {cfg : Config Raw} {s s' : Session Raw} {w w' v : World Raw}

/-- A session and the clients, between two calls. -/
structure Mirrors (cfg : Config Raw) (s : Session Raw) (w : World Raw) : Prop where
  /-- Both show the same. -/
  observed : observedOf w = s.observed
  /-- No call of the clients is under way. -/
  quiet : Quiet w
  /-- The clients have come there by a run. -/
  reachable : Reachable cfg w
  /-- No key of the session came into being later than its clock. -/
  past : Past s.server.clock s.server.store

/-- The reads on record. -/
theorem Mirrors.reads (h : Mirrors cfg s w) : w.reads.map readRecord = s.reads :=
  congrArg Observed.reads h.observed

/-- The mutating calls on record. -/
theorem Mirrors.mutations (h : Mirrors cfg s w) : w.mutations.map mutationRecord = s.mutations :=
  congrArg Observed.mutations h.observed

/-- The calls of Helios. -/
theorem Mirrors.heliosCalls (h : Mirrors cfg s w) : w.heliosCalls = s.heliosCalls :=
  congrArg Observed.heliosCalls h.observed

/-- The memberships in Helios. -/
theorem Mirrors.helios (h : Mirrors cfg s w) : w.membership = s.helios :=
  congrArg Observed.helios h.observed

/-- The values of the keys. -/
theorem Mirrors.values (h : Mirrors cfg s w) : SameValues s.server.store w.store :=
  fun k => congrFun (congrArg Observed.values h.observed) k

/-- What is seen is the same when its parts are. -/
theorem observed_eq (hreads : w.reads.map readRecord = s.reads)
    (hmutations : w.mutations.map mutationRecord = s.mutations)
    (hcalls : w.heliosCalls = s.heliosCalls) (hhelios : w.membership = s.helios)
    (hvalues : SameValues s.server.store w.store) : observedOf w = s.observed := by
  unfold observedOf Session.observed
  rw [hreads, hmutations, hcalls, hhelios]
  congr 1
  funext k
  exact hvalues k

/-- A run from a reachable world ends in one. -/
theorem reachable_run {as : List Action} (h : Reachable cfg w)
    (hr : run (step cfg) w as = some v) : Reachable cfg v := by
  obtain ⟨content, membership, before, hbefore⟩ := h
  exact ⟨content, membership, before ++ as, run_append_iff.mpr ⟨w, hbefore, hr⟩⟩

/-- Nothing is in flight when no call is under way. -/
theorem Quiet.free (h : Quiet w) (hreach : Reachable cfg w) (c : ClientId) (k : String) :
    (w.inFlight c).get? k = none := by
  cases hf : (w.inFlight c).get? k with
  | none => rfl
  | some f =>
    obtain ⟨i, r, hr, -, -, howned⟩ := (reachable_ownership hreach).running c k f hf
    have hdone := h.reads r (List.mem_of_getElem? hr)
    rw [(ReadPc.of_owned howned).1] at hdone
    cases hdone

/-- A turn creates its keys by the next clock. -/
theorem past_turn {turn : Turn} (h : Past s.server.clock s.server.store)
    (hs : turnStep cfg s turn = some s') : Past s'.server.clock s'.server.store := by
  cases turn with
  | read c u t ask getFate heliosFate setFate =>
    cases hs
    have hpast : Past s.server.clock (resolveAlone cfg.backend (cfg.staleOnError c)
        s.server.clock s.server.store u t
        ⟨getFate, heliosFate.outcome (s.helios u t), setFate⟩).store := by
      rcases resolveAlone_store cfg.backend (cfg.staleOnError c) s.server.clock s.server.store u t
        ⟨getFate, heliosFate.outcome (s.helios u t), setFate⟩ with hsame | ⟨perms, hset⟩
      · rw [hsame]
        exact h
      · rw [hset]
        exact h.send _ _ _
    exact hpast.later (Nat.le_succ _)
  | mutate call =>
    obtain ⟨request, -, hs⟩ := Option.bind_eq_some_iff.mp hs
    obtain ⟨⟨result, store⟩, hperform, hs⟩ := Option.bind_eq_some_iff.mp hs
    cases hs
    have hcall : callStep cfg.backend s.server call = some ⟨store, s.server.clock + 1⟩ := by
      rw [callStep, hperform]
      rfl
    exact past_step h hcall
  | change u t body =>
    cases hs
    exact h

/-- The moves of the last read change no other call, and nothing in Helios. -/
structure OnlyRead (w : World Raw) (rows : List (ReadCall Raw)) (v : World Raw) : Prop where
  /-- The other reads are as they were. -/
  reads : ∃ r, v.reads = rows ++ [r]
  /-- The mutating calls are the same. -/
  mutations : v.mutations = w.mutations
  /-- The memberships in Helios are the same. -/
  membership : v.membership = w.membership

/-- An action for the last read changes nothing else. -/
theorem OnlyRead.step {rows : List (ReadCall Raw)} {v v' : World Raw} {a : Action}
    (h : OnlyRead w rows v) (hs : step cfg v a = some v') (ha : ActsForRead rows.length a) :
    OnlyRead w rows v' := by
  refine ⟨?_, ?_, ?_⟩
  · obtain ⟨x, hx, rfl⟩ := step_transition hs
    have hchange := transition_readsChange hx
    change ∃ r, x.reads = rows ++ [r]
    generalize x.reads = after at hchange
    cases hchange with
    | keeps => exact h.reads
    | starts => exact ha.elim
    | @moves _ i r r' hr hmove =>
      have hi : i = rows.length := by
        cases hmove <;> first | exact ha | exact ha.elim
      obtain ⟨last, hrows⟩ := h.reads
      rw [hrows, hi, set_append_last]
      exact ⟨r', rfl⟩
  · refine Eq.trans ?_ h.mutations
    obtain ⟨x, hx, rfl⟩ := step_transition hs
    have hchange := transition_mutationsChange hx
    change x.mutations = v.mutations
    generalize x.mutations = after at hchange
    cases hchange with
    | keeps => rfl
    | starts => exact ha.elim
    | moves hm hmove => cases hmove <;> exact ha.elim
  · refine (step_membership hs ?_).trans h.membership
    rintro u t body rfl
    exact ha

/-- The moves of the last mutating call change no other call, and nothing in Helios. -/
structure OnlyMutation (w : World Raw) (rows : List (MutationCall Raw)) (v : World Raw) :
    Prop where
  /-- The other mutating calls are as they were. -/
  mutations : ∃ m, v.mutations = rows ++ [m]
  /-- The reads are the same. -/
  reads : v.reads = w.reads
  /-- The memberships in Helios are the same. -/
  membership : v.membership = w.membership
  /-- The calls of Helios are the same. -/
  heliosCalls : v.heliosCalls = w.heliosCalls

/-- An action for the last mutating call changes nothing else. -/
theorem OnlyMutation.step {rows : List (MutationCall Raw)} {v v' : World Raw} {a : Action}
    (h : OnlyMutation w rows v) (hs : step cfg v a = some v') (ha : ActsFor rows.length a) :
    OnlyMutation w rows v' := by
  refine ⟨?_, ?_, ?_, ?_⟩
  · obtain ⟨x, hx, rfl⟩ := step_transition hs
    have hchange := transition_mutationsChange hx
    change ∃ m, x.mutations = rows ++ [m]
    generalize x.mutations = after at hchange
    cases hchange with
    | keeps => exact h.mutations
    | starts => exact ha.elim
    | @moves _ j m m' hm hmove =>
      have hj : j = rows.length := by
        cases hmove <;> exact ha
      obtain ⟨last, hrows⟩ := h.mutations
      rw [hrows, hj, set_append_last]
      exact ⟨m', rfl⟩
  · refine Eq.trans ?_ h.reads
    obtain ⟨x, hx, rfl⟩ := step_transition hs
    have hchange := transition_readsChange hx
    change x.reads = v.reads
    generalize x.reads = after at hchange
    cases hchange with
    | keeps => rfl
    | starts => exact ha.elim
    | moves hr hmove => cases hmove <;> exact ha.elim
  · refine (step_membership hs ?_).trans h.membership
    rintro u t body rfl
    exact ha
  · rcases step_heliosCalls hs with hsame | ⟨i, r, reply, rfl, -⟩
    · exact hsame.trans h.heliosCalls
    · exact ha.elim

/-- A run of a call that has been made when it was quiet. -/
theorem along_oneAtATime {first : Action} {as : List Action} (hfirst : OneAtATime w first)
    (hrest : ∀ a ∈ as, ∀ x : World Raw, OneAtATime x a) :
    Along (step cfg) (fun w a _ => OneAtATime w a) w (first :: as) := by
  intro w₁ _
  refine ⟨hfirst, ?_⟩
  have hall : Along (step cfg) (fun _ a _ => ∀ x : World Raw, OneAtATime x a) w₁ as :=
    along_of_forall hrest
  exact hall.imp fun x a _ h => h x

/-- A read turn is run by the clients. -/
theorem read_turn_runs {c : ClientId} {u t : String} {ask : Ask} {getFate : CommandFate}
    {heliosFate : HeliosFate} {setFate : CommandFate} (h : Mirrors cfg s w)
    (hs : turnStep cfg s (.read c u t ask getFate heliosFate setFate) = some s') :
    ∃ as v, run (step cfg) w as = some v ∧
      Along (step cfg) (fun w a _ => OneAtATime w a) w as ∧ Mirrors cfg s' v := by
  have hpast' := past_turn h.past hs
  cases hs
  obtain ⟨as, v, hacts, hrun, hends⟩ := read_performs cfg w ask (h.quiet.free h.reachable c _)
    ⟨getFate, heliosFate.outcome (s.helios u t), setFate⟩ s.server.clock
  obtain ⟨houtcome, hcalled, hstore⟩ := resolveAlone_same cfg.backend h.values
    (cfg.staleOnError c) s.server.clock s.server.clock u t
    ⟨getFate, heliosFate.outcome (s.helios u t), setFate⟩
  rw [houtcome, hcalled] at hends
  -- the row of the read, from its start to its end
  obtain ⟨w₁, hstart, hrest⟩ := run_cons_iff.mp hrun
  have honly : OnlyRead w w.reads v := by
    refine run_invariant (C := fun _ a _ => ActsForRead w.reads.length a) (OnlyRead w w.reads)
      (fun x a x' hx hsx ha => hx.step hsx ha) hrest (along_of_forall hacts) ?_
    cases hstart
    exact ⟨⟨_, rfl⟩, rfl, rfl⟩
  obtain ⟨last, hreads⟩ := honly.reads
  obtain ⟨r, via, hrow, hpc⟩ := hends.ended
  obtain rfl : last = r := by
    rw [hreads, get_append_last] at hrow
    exact Option.some.inj hrow
  have hrow₁ : w₁.reads[w.reads.length]? = some (.start cfg w.clock c u t ask) := by
    cases hstart
    exact get_append_last
  obtain ⟨r', hr', hclient, huser, htenant, hask, -⟩ :=
    (run_extends hrest).reads _ _ hrow₁
  obtain rfl : last = r' := Option.some.inj (hrow.symm.trans hr')
  refine ⟨_, v, hrun, along_oneAtATime h.quiet ?_, ?_, ⟨?_, ?_⟩, reachable_run h.reachable hrun,
    hpast'⟩
  · intro a ha x
    have hact := hacts a ha
    cases a <;> first | exact trivial | exact hact.elim
  · refine observed_eq ?_ ?_ ?_ (honly.membership.trans h.helios)
      (sameValues_trans hstore (sameValues_symm hends.store))
    · have hrecord : readRecord last = ⟨c, u, t, ask, some ((resolveAlone cfg.backend
          (cfg.staleOnError c) s.server.clock s.server.store u t
          ⟨getFate, heliosFate.outcome (s.helios u t), setFate⟩).outcome.map ask.answer)⟩ := by
        rw [readRecord, hpc, hclient, huser, htenant, hask]
        rfl
      rw [hreads, List.map_append, h.reads, List.map_singleton, hrecord]
    · rw [honly.mutations, h.mutations]
    · rw [hends.calls, h.heliosCalls]
  · intro x hx
    rw [hreads] at hx
    rcases List.mem_append.mp hx with hold | hnew
    · exact h.quiet.reads x hold
    · rw [List.mem_singleton.mp hnew, hpc]
      rfl
  · rw [honly.mutations]
    exact h.quiet.mutations

/-- The session after a mutating call. -/
def Session.mutated (s : Session Raw) (request : MutationRequest) (result : CallResult)
    (store : Store Raw) : Session Raw :=
  { s with
    server := ⟨store, s.server.clock + 1⟩
    mutations := s.mutations ++ [⟨request, some result⟩] }

/-- A mutating call that the clients can perform alone is run by them. -/
theorem performed_runs {request : MutationRequest} {result : Except PyError ℕ}
    {store store' : Store Raw} (h : Mirrors cfg s w) (hp : Performs cfg w request result store)
    (hsame : SameValues store' store) (hpast : Past (s.server.clock + 1) store') :
    ∃ as v, run (step cfg) w as = some v ∧
      Along (step cfg) (fun w a _ => OneAtATime w a) w as ∧
      Mirrors cfg (s.mutated request (.ofCount result) store') v := by
  obtain ⟨w₁, hstart, as, v, m, hacts, hrest, hstore, hrow, hpc⟩ := hp
  obtain ⟨w₂, hfirst, hnil⟩ := run_cons_iff.mp hstart
  obtain rfl : w₂ = w₁ := Option.some.inj hnil
  have hrun : run (step cfg) w (.mutate request :: as) = some v :=
    run_cons_iff.mpr ⟨w₂, hfirst, hrest⟩
  have honly : OnlyMutation w w.mutations v := by
    refine run_invariant (C := fun _ a _ => ActsFor w.mutations.length a)
      (OnlyMutation w w.mutations) (fun x a x' hx hsx ha => hx.step hsx ha) hrest
      (along_of_forall hacts) ?_
    cases hfirst
    exact ⟨⟨_, rfl⟩, rfl, rfl, rfl⟩
  obtain ⟨last, hmutations⟩ := honly.mutations
  obtain rfl : last = m := by
    rw [hmutations, get_append_last] at hrow
    exact Option.some.inj hrow
  have hrow₁ : w₂.mutations[w.mutations.length]? = some (.start cfg w.clock request) := by
    cases hfirst
    exact get_append_last
  obtain ⟨m', hm', hrequest, -⟩ := (run_extends hrest).mutations _ _ hrow₁
  obtain rfl : last = m' := Option.some.inj (hrow.symm.trans hm')
  refine ⟨_, v, hrun, along_oneAtATime h.quiet ?_, ?_, ⟨?_, ?_⟩, reachable_run h.reachable hrun,
    hpast⟩
  · intro a ha x
    have hact := hacts a ha
    cases a <;> first | exact trivial | exact hact.elim
  · refine observed_eq (honly.reads ▸ h.reads) ?_ (honly.heliosCalls.trans h.heliosCalls)
      (honly.membership.trans h.helios) (hstore ▸ hsame)
    have hrecord : mutationRecord last = ⟨request, some (.ofCount result)⟩ := by
      rw [mutationRecord, hpc, hrequest]
      rfl
    rw [hmutations, List.map_append, h.mutations, List.map_singleton, hrecord]
    rfl
  · rw [honly.reads]
    exact h.quiet.reads
  · intro x hx
    rw [hmutations] at hx
    rcases List.mem_append.mp hx with hold | hnew
    · exact h.quiet.mutations x hold
    · rw [List.mem_singleton.mp hnew]
      exact ⟨result, hpc⟩

/-- A bulk invalidation turn. -/
theorem bulk_runs {request : MutationRequest} {scope : Scope} {rounds : List ScanRound}
    {ended : Except PyError ℕ × Store Raw} (h : Mirrors cfg s w)
    (hscan : invalidateAll cfg.backend s.server.clock s.server.store scope rounds = some ended)
    (hperforms : ∀ {store : Store Raw}, invalidateAll cfg.backend (w.clock + 1) w.store scope
      rounds = some (ended.1, store) → Performs cfg w request ended.1 store)
    (hpast : Past (s.server.clock + 1) ended.2) :
    ∃ as v, run (step cfg) w as = some v ∧
      Along (step cfg) (fun w a _ => OneAtATime w a) w as ∧
      Mirrors cfg (s.mutated request (.ofCount ended.1) ended.2) v := by
  have hstart : Past ((⟨none, []⟩ : ScanProgress).started.getD s.server.clock) s.server.store :=
    h.past
  obtain ⟨store, hrun, hsame⟩ := scanAndDelete_same h.values hstart (w.clock + 1) ⟨none, []⟩
    rfl hscan
  exact performed_runs h (hperforms hrun) hsame hpast

/-- A mutating turn is run by the clients. -/
theorem mutate_turn_runs {call : CacheCall} (h : Mirrors cfg s w)
    (hs : turnStep cfg s (.mutate call) = some s') :
    ∃ as v, run (step cfg) w as = some v ∧
      Along (step cfg) (fun w a _ => OneAtATime w a) w as ∧ Mirrors cfg s' v := by
  have hpast' := past_turn h.past hs
  obtain ⟨request, hrequest, hs⟩ := Option.bind_eq_some_iff.mp hs
  obtain ⟨⟨result, store⟩, hperform, hs⟩ := Option.bind_eq_some_iff.mp hs
  cases hs
  cases call with
  | get u t fate => cases hrequest
  | set u t perms fate => cases hrequest
  | writeThrough u t perms fate =>
    cases hrequest
    cases hperform
    obtain ⟨store, hp, hsame⟩ := writeThrough_performs cfg w u t perms s.server.clock fate
    have hleft := sameValues_trans (writeThrough_same h.values s.server.clock s.server.clock u t
      perms fate) (sameValues_symm hsame)
    exact performed_runs h hp hleft hpast'
  | invalidate u t fate =>
    cases hrequest
    cases hperform
    have hp := invalidate_performs cfg w u t fate
    obtain ⟨hresult, hstore⟩ := invalidate_same cfg.backend h.values u t fate
    rw [hresult] at hp
    exact performed_runs h hp hstore hpast'
  | invalidateUser u rounds =>
    cases hrequest
    obtain ⟨ended, hscan, heq⟩ := Option.map_eq_some_iff.mp hperform
    cases heq
    exact bulk_runs h hscan invalidateUser_performs hpast'
  | invalidateTenant t rounds =>
    cases hrequest
    obtain ⟨ended, hscan, heq⟩ := Option.map_eq_some_iff.mp hperform
    cases heq
    exact bulk_runs h hscan invalidateTenant_performs hpast'

/-- Every turn is run by the clients, with no other call beside it. -/
theorem turn_runs {turn : Turn} (h : Mirrors cfg s w) (hs : turnStep cfg s turn = some s') :
    ∃ as v, run (step cfg) w as = some v ∧
      Along (step cfg) (fun w a _ => OneAtATime w a) w as ∧ Mirrors cfg s' v := by
  cases turn with
  | read c u t ask getFate heliosFate setFate => exact read_turn_runs h hs
  | mutate call => exact mutate_turn_runs h hs
  | change u t body =>
    cases hs
    have hrun : run (step cfg) w [.change u t body] =
        some ({ w with membership := changeMembership w.membership u t body } : World Raw).tick :=
      runs_of_transition (.changes u t body)
    have hnone : ∀ a ∈ ([] : List Action), ∀ x : World Raw, OneAtATime x a := by simp
    refine ⟨_, _, hrun, along_oneAtATime trivial hnone, ?_,
      ⟨h.quiet.reads, h.quiet.mutations⟩, reachable_run h.reachable hrun, h.past⟩
    refine observed_eq h.reads h.mutations h.heliosCalls ?_ h.values
    exact congrArg (fun helios => changeMembership helios u t body) h.helios

end sessions

end HeliosPermissions.SessionTurns
