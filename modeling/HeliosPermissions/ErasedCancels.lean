import HeliosPermissions.CallShapes
import HeliosPermissions.StrandedWaiters

/-!
# A run without its cancellations

Reads whose cancellations all come late, when the shared future is settled, run
beside a second system that does the same moves but no cancellation. The two
agree on the cache, the tables, the futures and on every read but the cancelled
ones, which end on both sides; only stamps differ.
-/

namespace HeliosPermissions.ErasedCancels

open JsonValues CacheKeys CacheStore HeliosResolution ClientWorld IndexedTables PartialRuns
open InFlightTable CallHistory CallShapes StrandedWaiters

variable {Raw : Type}

/-- Whether an action is none of the cancellations. -/
def notCancel : Action → Bool
  | .cancel _ => false
  | _ => true

/-- The moves of reads alone, cancelled only once they have ended or what they
wait for is settled. -/
def LateCancels (w : World Raw) : Action → Prop
  | .read _ _ _ _ => True
  | .serveRead _ _ => True
  | .sample _ _ => True
  | .resumeRead _ => True
  | .change _ _ _ => True
  | .cancel i => ∀ r, w.reads[i]? = some r →
      r.pc.isDone = true ∨ ∃ f, r.pc = .joined f ∧ Settled w f
  | _ => False

/-- Two caches that hold the same values. -/
def SameValues (s t : Store Raw) : Prop :=
  ∀ k, (t.get? k).map Entry.raw = (s.get? k).map Entry.raw

/-- A read and the same read in the run without cancellations. -/
structure Matches (r r' : ReadCall Raw) : Prop where
  /-- The client called is the same. -/
  client : r'.client = r.client
  /-- The user asked for is the same. -/
  userId : r'.userId = r.userId
  /-- The tenant asked for is the same. -/
  tenantId : r'.tenantId = r.tenantId
  /-- The command or the reply is the same. -/
  port : r'.port = r.port
  /-- Helios answered the same, at a time of its own. -/
  sampled : r'.sampled.map Prod.snd = r.sampled.map Prod.snd
  /-- No cancellation waits for the other. -/
  running : r'.mustCancel = false
  /-- Both are at the same place, or both have ended, the first after a cancel. -/
  place : r'.pc = r.pc ∨ r.cancelCalled = true ∧ r.pc.isDone = true ∧ r'.pc.isDone = true

/-- A world and the world of the run without cancellations. -/
structure Beside (w v : World Raw) : Prop where
  /-- The stored lists are the same. -/
  store : SameValues w.store v.store
  /-- The memberships in Helios are the same. -/
  membership : v.membership = w.membership
  /-- The tables are the same. -/
  inFlight : v.inFlight = w.inFlight
  /-- The futures are the same. -/
  futures : v.futures = w.futures
  /-- The reads match one by one. -/
  reads : List.Forall₂ Matches w.reads v.reads

/-- A read that is about to be cancelled was cancelled from outside, and has ended
or waits for a settled future. -/
def MarkedLate (w : World Raw) : Prop :=
  ∀ (i : ReadId) (r : ReadCall Raw), w.reads[i]? = some r → r.mustCancel = true →
    r.cancelCalled = true ∧ (r.pc.isDone = true ∨ ∃ f, r.pc = .joined f ∧ Settled w f)

section values

variable {backend : Backend Raw} {s t : Store Raw}

/-- A key has a value in both or in neither. -/
theorem SameValues.none_iff (h : SameValues s t) (k : String) :
    t.get? k = none ↔ s.get? k = none := by
  have hk := h k
  rw [← Option.map_eq_none_iff (f := Entry.raw), hk, Option.map_eq_none_iff]

/-- Writing the same value to both keeps the values the same. -/
theorem SameValues.set {e e' : Entry Raw} (h : SameValues s t) (k : String)
    (he : e'.raw = e.raw) : SameValues (s.set k e) (t.set k e') := by
  intro k'
  rw [OrderedDict.get?_set, OrderedDict.get?_set]
  by_cases hk : k' = k
  · rw [if_pos hk, if_pos hk, Option.map_some, Option.map_some, he]
  · rw [if_neg hk, if_neg hk]
    exact h k'

/-- Removing the same keys from both keeps the values the same. -/
theorem sameValues_popAll (h : SameValues s t) (ks : List String) :
    SameValues (s.popAll ks) (t.popAll ks) := by
  intro k
  rw [OrderedDict.get?_popAll, OrderedDict.get?_popAll]
  by_cases hk : k ∈ ks
  · rw [if_pos hk, if_pos hk]
  · rw [if_neg hk, if_neg hk]
    exact h k

/-- The same keys, in some order. -/
theorem sameValues_keys (h : SameValues s t) : t.keys.Perm s.keys := by
  refine (List.perm_ext_iff_of_nodup t.nodup s.nodup).mpr ?_
  intro k
  have hmem : k ∈ t.keys ↔ k ∈ s.keys := by
    rw [OrderedDict.mem_keys, OrderedDict.mem_keys, ← Option.isSome_map (f := Entry.raw), h k,
      Option.isSome_map]
  exact hmem

/-- A command has the same reply on both sides. -/
theorem execute_same (h : SameValues s t) (now now' : ℕ) (origin origin' : Origin)
    (cmd : Command Raw) : (execute now' origin' t cmd).1 = (execute now origin s cmd).1 ∧
      SameValues (execute now origin s cmd).2 (execute now' origin' t cmd).2 := by
  cases cmd with
  | get k => exact ⟨congrArg Reply.value (h k), h⟩
  | scan cursor scope => exact ⟨rfl, h⟩
  | delete ks =>
    have hcount : (t.keys.filter (· ∈ ks)).length = (s.keys.filter (· ∈ ks)).length :=
      ((sameValues_keys h).filter _).length_eq
    exact ⟨congrArg Reply.deleted hcount, sameValues_popAll h ks⟩
  | set k raw ex nx =>
    cases hs : s.get? k with
    | none =>
      have ht := (h.none_iff k).mpr hs
      simp only [execute, hs, ht]
      exact ⟨trivial, h.set k rfl⟩
    | some old =>
      have hne : t.get? k ≠ none := fun ht => by
        rw [(h.none_iff k).mp ht] at hs
        cases hs
      obtain ⟨old', ht⟩ := Option.ne_none_iff_exists'.mp hne
      simp only [execute, hs, ht]
      cases nx with
      | false => exact ⟨rfl, h.set k rfl⟩
      | true => exact ⟨rfl, h⟩

/-- The server treats the command of a read alike on equal values. -/
theorem serve_sameValues (now' : ℕ) (h : SameValues s t) {cmd : Command Raw} {now : ℕ}
    {origin : Origin} {progress : ScanProgress} {fate : Fate} {reply : Reply Raw}
    {s' : Store Raw} (hcmd : (∃ k, cmd = .get k) ∨ ∃ k raw ex, cmd = .set k raw ex true)
    (hs : serve backend now origin progress s cmd fate = some (reply, s')) :
    ∃ t', serve backend now' origin progress t cmd fate = some (reply, t') ∧
      SameValues s' t' := by
  have hboth := execute_same h now now' origin origin cmd
  have hscan : ∀ cursor scope, cmd ≠ .scan cursor scope := by
    rcases hcmd with ⟨k, rfl⟩ | ⟨k, raw, ex, rfl⟩ <;> simp
  cases fate with
  | executes =>
    have hserve : ∀ n st, serve backend n origin progress st cmd .executes =
        some (execute n origin st cmd) := by
      intro n st
      cases cmd with
      | scan cursor scope => exact absurd rfl (hscan cursor scope)
      | _ => rfl
    rw [hserve] at hs
    obtain ⟨hreply, hstore⟩ := hboth
    rw [Option.some.inj hs] at hreply hstore
    have hpair : execute now' origin t cmd = (reply, (execute now' origin t cmd).2) :=
      Prod.ext hreply rfl
    exact ⟨_, (hserve now' t).trans (congrArg some hpair), hstore⟩
  | returns cursor keys =>
    cases cmd with
    | scan cursor scope => exact absurd rfl (hscan cursor scope)
    | _ => cases hs
  | fails applied =>
    have hserve : ∀ n st, serve backend n origin progress st cmd (.fails applied) =
        some (.failed, if applied then (execute n origin st cmd).2 else st) := by
      intro n st
      cases cmd with
      | scan cursor scope => exact absurd rfl (hscan cursor scope)
      | _ => rfl
    rw [hserve] at hs
    cases hs
    refine ⟨_, hserve now' t, ?_⟩
    cases applied with
    | false => exact h
    | true => exact hboth.2

end values

section steps

variable {cfg : Config Raw} {w w₁ v : World Raw} {a : Action}

/-- A read that has not ended is at the same place on both sides. -/
theorem Matches.pc_eq {r r' : ReadCall Raw} (h : Matches r r') (hd : r.pc.isDone = false) :
    r'.pc = r.pc := by
  rcases h.place with hpc | ⟨-, hdone, -⟩
  · exact hpc
  · rw [hd] at hdone
    cases hdone

/-- They share a lock. -/
theorem Matches.lock_eq {r r' : ReadCall Raw} (h : Matches r r') : r'.lock = r.lock := by
  rw [ReadCall.lock, ReadCall.lock, h.userId, h.tenantId]

/-- The sampled outcome is the same. -/
theorem Matches.sampled_some {r r' : ReadCall Raw} (h : Matches r r') {n : ℕ}
    {outcome : HttpOutcome} (hs : r.sampled = some (n, outcome)) :
    ∃ n', r'.sampled = some (n', outcome) := by
  have hsam := h.sampled
  rw [hs] at hsam
  obtain ⟨⟨n', outcome'⟩, hs', rfl⟩ := Option.map_eq_some_iff.mp hsam
  exact ⟨n', hs'⟩

/-- Both sides end a read with the same outcome. -/
theorem Matches.ended {r r' : ReadCall Raw} (h : Matches r r') (o : Outcome) (via : Via)
    (e e' : Option ℕ) : Matches { r with pc := .done o via, ended := e }
      { r' with pc := .done o via, ended := e' } :=
  ⟨h.client, h.userId, h.tenantId, h.port, h.sampled, h.running, Or.inl rfl⟩

/-- Both sides move a read on to the same place. -/
theorem Matches.moved {r r' : ReadCall Raw} (h : Matches r r') (pc : ReadPc) :
    Matches { r with pc := pc } { r' with pc := pc } :=
  ⟨h.client, h.userId, h.tenantId, h.port, h.sampled, h.running, Or.inl rfl⟩

/-- Replacing a read by matching reads. -/
theorem Beside.putRead (h : Beside w v) {i : ReadId} {r r' : ReadCall Raw} (hr : Matches r r') :
    Beside (w.putRead i r) (v.putRead i r') :=
  ⟨h.store, h.membership, h.inFlight, h.futures, related_set h.reads hr⟩

/-- A future is in the same state in both. -/
theorem Beside.futureState (h : Beside w v) (f : FutureId) :
    v.futureState f = w.futureState f := by
  rw [World.futureState, World.futureState, h.futures]

/-- Ending a read on both sides. -/
theorem Beside.finishRead (h : Beside w v) {i : ReadId} {r r' : ReadCall Raw}
    (hr : Matches r r') (o : Outcome) (via : Via) :
    Beside (w.finishRead i r o via) (v.finishRead i r' o via) :=
  h.putRead (hr.ended o via _ _)

/-- Removing a future from both tables. -/
theorem Beside.popInFlight (h : Beside w v) (c : ClientId) (k : String) :
    Beside (w.popInFlight c k) (v.popInFlight c k) :=
  ⟨h.store, h.membership, by simp only [World.popInFlight, h.inFlight], h.futures, h.reads⟩

/-- Settling a future in both. -/
theorem Beside.settle (h : Beside w v) (f : FutureId) (st : FutureState) :
    Beside (w.settle f st) (v.settle f st) :=
  ⟨h.store, h.membership, h.inFlight, by simp only [World.settle, h.futures], h.reads⟩

/-- A leader that raises in both. -/
theorem Beside.abandon (h : Beside w v) {i : ReadId} {r r' : ReadCall Raw} (hr : Matches r r')
    (f : FutureId) (err : PyError) : Beside (w.abandon i r f err) (v.abandon i r' f err) := by
  unfold World.abandon
  rw [hr.client, hr.lock_eq]
  exact (h.popInFlight r.client r.lock).finishRead hr _ _

/-- A leader that resolves its future in both. -/
theorem Beside.conclude (h : Beside w v) {i : ReadId} {r r' : ReadCall Raw} (hr : Matches r r')
    (f : FutureId) (o : Outcome) : Beside (w.conclude i r f o) (v.conclude i r' f o) := by
  rcases conclude_cases w i r f o with ⟨hf, hw⟩ | ⟨hf, hw⟩
  · rcases conclude_cases v i r' f o with ⟨-, hv⟩ | ⟨hf', -⟩
    · rw [hw, hv, hr.client, hr.lock_eq]
      exact ((h.settle f _).popInFlight r.client r.lock).finishRead hr o _
    · rw [h.futureState] at hf'
      exact absurd hf hf'
  · rcases conclude_cases v i r' f o with ⟨hf', -⟩ | ⟨-, hv⟩
    · rw [h.futureState] at hf'
      exact absurd hf' hf
    · rw [hw, hv]
      exact h.abandon hr f _

/-- A read that becomes the leader in both. -/
theorem Beside.lead (h : Beside w v) {i : ReadId} {r r' : ReadCall Raw} (hr : Matches r r') :
    Beside (w.lead i r) (v.lead i r') := by
  refine ⟨h.store, h.membership, ?_, ?_, ?_⟩
  · simp only [World.lead, h.inFlight, h.futures, hr.client, hr.lock_eq]
  · simp only [World.lead, h.futures]
  · simp only [World.lead, h.futures]
    exact related_set h.reads (hr.moved _)

/-- A step of the clock in both. -/
theorem Beside.tick (h : Beside w v) : Beside w.tick v.tick :=
  ⟨h.store, h.membership, h.inFlight, h.futures, h.reads⟩

/-- Every move but a cancellation is done beside as well. -/
theorem Beside.simulates (h : Beside w v) (hshape : CallsShaped cfg w) (hlate : MarkedLate w)
    (ht : Transition cfg w a w₁) (ha : LateCancels w a) (hkeep : notCancel a = true) :
    ∃ v₁, Transition cfg v a v₁ ∧ Beside w₁ v₁ := by
  cases ht with
  | readStarts c u t ask =>
    refine ⟨_, .readStarts c u t ask, h.store, h.membership, h.inFlight, h.futures, ?_⟩
    have hnew : Matches (.start cfg w.clock c u t ask) (.start cfg v.clock c u t ask) :=
      ⟨rfl, rfl, rfl, rfl, rfl, rfl, Or.inl rfl⟩
    exact List.rel_append h.reads (.cons hnew .nil)
  | @readServed i r cmd fate reply store hr hport hs =>
    obtain ⟨r', hr', hm⟩ := related_get h.reads hr
    have hcmd : (∃ k, cmd = .get k) ∨ ∃ k raw ex, cmd = .set k raw ex true := by
      rcases (hshape.reads i r hr).command cmd hport with rfl | ⟨perms, rfl, -⟩
      · exact Or.inl ⟨_, rfl⟩
      · exact Or.inr ⟨_, _, _, rfl⟩
    obtain ⟨store', hs', hsame⟩ := serve_sameValues v.clock h.store hcmd hs
    refine ⟨_, .readServed hr' (hm.port.trans hport) hs', ?_⟩
    have hreply : Matches { r with port := .replied reply } { r' with port := .replied reply } :=
      ⟨hm.client, hm.userId, hm.tenantId, rfl, hm.sampled, hm.running, hm.place⟩
    exact ⟨hsame, h.membership, h.inFlight, h.futures, related_set h.reads hreply⟩
  | @sampled i r f fate hr hpc hn =>
    obtain ⟨r', hr', hm⟩ := related_get h.reads hr
    have hpc' := (hm.pc_eq (by rw [hpc]; rfl)).trans hpc
    have hn' : r'.sampled = none := by
      have hsam := hm.sampled
      rw [hn] at hsam
      exact Option.map_eq_none_iff.mp hsam
    have hbody : v.membership r'.userId r'.tenantId = w.membership r.userId r.tenantId := by
      rw [h.membership, hm.userId, hm.tenantId]
    refine ⟨_, .sampled fate hr' hpc' hn', h.putRead ?_⟩
    exact ⟨hm.client, hm.userId, hm.tenantId, hm.port, by simp only [hbody, Option.map_some],
      hm.running, hm.place⟩
  | cancelsFuture => cases hkeep
  | cancelIgnored => cases hkeep
  | cancelMarked => cases hkeep
  | @thrown i r hr hmust hd ho =>
    obtain ⟨r', hr', hm⟩ := related_get h.reads hr
    obtain ⟨hcalled, hdone | ⟨f, hpc, hset⟩⟩ := hlate i r hr hmust
    · rw [hd] at hdone
      cases hdone
    · -- the cancelled waiter takes the result on the other side
      obtain ⟨o, hout⟩ := settled_iff.mp hset
      rw [← h.futureState] at hout
      have hpc' := (hm.pc_eq hd).trans hpc
      refine ⟨_, .wakes hr' hm.running hpc' hout, h.putRead ?_⟩
      exact ⟨hm.client, hm.userId, hm.tenantId, hm.port, hm.sampled, hm.running,
        Or.inr ⟨hcalled, rfl, rfl⟩⟩
  | @thrownLeader i r f hr hmust ho =>
    obtain ⟨-, hdone | ⟨g, hpc, -⟩⟩ := hlate i r hr hmust
    · rw [(ReadPc.of_owned ho).1] at hdone
      cases hdone
    · rw [hpc] at ho
      cases ho
  | @getRaises i r reply err hr hmust hpc hport hd =>
    obtain ⟨r', hr', hm⟩ := related_get h.reads hr
    have hpc' := (hm.pc_eq (by rw [hpc]; rfl)).trans hpc
    exact ⟨_, .getRaises hr' hm.running hpc' (hm.port.trans hport) hd, h.finishRead hm _ _⟩
  | @getHits i r reply perms hr hmust hpc hport hd =>
    obtain ⟨r', hr', hm⟩ := related_get h.reads hr
    have hpc' := (hm.pc_eq (by rw [hpc]; rfl)).trans hpc
    exact ⟨_, .getHits hr' hm.running hpc' (hm.port.trans hport) hd, h.finishRead hm _ _⟩
  | @leads i r reply hr hmust hpc hport hd hf =>
    obtain ⟨r', hr', hm⟩ := related_get h.reads hr
    have hpc' := (hm.pc_eq (by rw [hpc]; rfl)).trans hpc
    rw [← h.inFlight, ← hm.client, ← hm.lock_eq] at hf
    exact ⟨_, .leads hr' hm.running hpc' (hm.port.trans hport) hd hf, h.lead hm⟩
  | @joins i r reply f hr hmust hpc hport hd hf hs =>
    obtain ⟨r', hr', hm⟩ := related_get h.reads hr
    have hpc' := (hm.pc_eq (by rw [hpc]; rfl)).trans hpc
    rw [← h.inFlight, ← hm.client, ← hm.lock_eq] at hf
    rw [← h.futureState] at hs
    exact ⟨_, .joins hr' hm.running hpc' (hm.port.trans hport) hd hf hs,
      h.putRead (hm.moved _)⟩
  | @joinsDone i r reply f st outcome hr hmust hpc hport hd hf hs ho =>
    obtain ⟨r', hr', hm⟩ := related_get h.reads hr
    have hpc' := (hm.pc_eq (by rw [hpc]; rfl)).trans hpc
    rw [← h.inFlight, ← hm.client, ← hm.lock_eq] at hf
    rw [← h.futureState] at hs
    exact ⟨_, .joinsDone hr' hm.running hpc' (hm.port.trans hport) hd hf hs ho,
      h.finishRead hm _ _⟩
  | @populates i r f n outcome perms hr hmust hpc hsam he =>
    obtain ⟨r', hr', hm⟩ := related_get h.reads hr
    have hpc' := (hm.pc_eq (by rw [hpc]; rfl)).trans hpc
    obtain ⟨n', hsam'⟩ := hm.sampled_some hsam
    rw [← hm.userId, ← hm.tenantId] at he
    have hcmd : populateCommand cfg r'.userId r'.tenantId perms =
        populateCommand cfg r.userId r.tenantId perms := by rw [hm.userId, hm.tenantId]
    refine ⟨_, .populates hr' hm.running hpc' hsam' he, h.putRead ?_⟩
    exact ⟨hm.client, hm.userId, hm.tenantId, by rw [hcmd], hm.sampled, hm.running, Or.inl rfl⟩
  | @unreachable i r f n outcome message hr hmust hpc hsam he =>
    obtain ⟨r', hr', hm⟩ := related_get h.reads hr
    have hpc' := (hm.pc_eq (by rw [hpc]; rfl)).trans hpc
    obtain ⟨n', hsam'⟩ := hm.sampled_some hsam
    rw [← hm.userId, ← hm.tenantId] at he
    refine ⟨_, .unreachable hr' hm.running hpc' hsam' he, ?_⟩
    rw [hm.client]
    exact h.conclude hm _ _
  | @escapes i r f n outcome err hr hmust hpc hsam he =>
    obtain ⟨r', hr', hm⟩ := related_get h.reads hr
    have hpc' := (hm.pc_eq (by rw [hpc]; rfl)).trans hpc
    obtain ⟨n', hsam'⟩ := hm.sampled_some hsam
    rw [← hm.userId, ← hm.tenantId] at he
    exact ⟨_, .escapes hr' hm.running hpc' hsam' he, h.abandon hm _ _⟩
  | @populated i r f perms reply hr hmust hpc hport =>
    obtain ⟨r', hr', hm⟩ := related_get h.reads hr
    have hpc' := (hm.pc_eq (by rw [hpc]; rfl)).trans hpc
    exact ⟨_, .populated hr' hm.running hpc' (hm.port.trans hport), h.conclude hm _ _⟩
  | @wakes i r f outcome hr hmust hpc ho =>
    obtain ⟨r', hr', hm⟩ := related_get h.reads hr
    have hpc' := (hm.pc_eq (by rw [hpc]; rfl)).trans hpc
    rw [← h.futureState] at ho
    exact ⟨_, .wakes hr' hm.running hpc' ho, h.finishRead hm _ _⟩
  | mutationStarts => cases ha
  | mutationServed => cases ha
  | mutationResumes => cases ha
  | changes u t body =>
    exact ⟨_, .changes u t body, h.store, by simp only [h.membership], h.inFlight, h.futures,
      h.reads⟩
  | expires => cases ha

/-- A late cancellation leaves the other side where it is. -/
theorem Beside.skips (h : Beside w v) {i : ReadId} (ht : Transition cfg w (.cancel i) w₁)
    (ha : LateCancels w (.cancel i)) : Beside w₁ v := by
  cases ht with
  | @cancelsFuture _ r f hr hpc hf =>
    rcases ha r hr with hdone | ⟨g, hpc', st, hst, hne⟩
    · rw [hpc] at hdone
      cases hdone
    · rw [hpc] at hpc'
      cases hpc'
      rw [hf] at hst
      exact absurd (Option.some.inj hst).symm hne
  | cancelIgnored => exact h
  | @cancelMarked _ r hr hd hj =>
    obtain ⟨r', hr', hm⟩ := related_get h.reads hr
    have hmarked : Matches { r with mustCancel := true, cancelCalled := true } r' :=
      ⟨hm.client, hm.userId, hm.tenantId, hm.port, hm.sampled, hm.running,
        Or.inl (hm.pc_eq hd)⟩
    exact ⟨h.store, h.membership, h.inFlight, h.futures,
      related_set_left h.reads hr' hmarked⟩

/-- Late cancellations mark waiters of settled futures only. -/
theorem markedLate_step (h : MarkedLate w) (hs : step cfg w a = some w₁)
    (ha : LateCancels w a) : MarkedLate w₁ := by
  have hlater : ∀ r : ReadCall Raw, (r.pc.isDone = true ∨ ∃ f, r.pc = .joined f ∧ Settled w f) →
      r.pc.isDone = true ∨ ∃ f, r.pc = .joined f ∧ Settled w₁ f := by
    rintro r (hd | ⟨f, hpc, hset⟩)
    · exact Or.inl hd
    · exact Or.inr ⟨f, hpc, hset.step hs⟩
  intro i r' hr' hmust
  rcases read_before hs hr' with hold | ⟨c, u, t, ask, -, -, rfl⟩ | ⟨r, hr, hmove⟩
  · exact ⟨(h i r' hold hmust).1, hlater r' (h i r' hold hmust).2⟩
  · cases hmust
  · cases hmove with
    | served => exact ⟨(h i r hr hmust).1, hlater r (h i r hr hmust).2⟩
    | sampled => exact ⟨(h i r hr hmust).1, hlater r (h i r hr hmust).2⟩
    | marked b hd => exact ⟨rfl, hlater r (ha r hr)⟩
    | leads hpc hport hd hf hm => rw [hm] at hmust; cases hmust
    | joins hm => rw [hm] at hmust; cases hmust
    | populates hpc hsam he hm => rw [hm] at hmust; cases hmust
    | ends hend => exact ⟨(h i r hr hmust).1, Or.inl rfl⟩

end steps

/-- Reads that are cancelled late, if at all: without the cancellations the same
moves can be made, and every read that was not cancelled ends up the same. -/
theorem run_without_cancels {cfg : Config Raw} {content : OrderedDict String (Raw × Option ℕ)}
    {membership : String → String → Json} {as : List Action} {w : World Raw}
    (hrun : run (step cfg) (.init content membership) as = some w)
    (hmoves : Along (step cfg) (fun v a _ => LateCancels v a) (.init content membership) as) :
    ∃ v, run (step cfg) (.init content membership) (as.filter notCancel) = some v ∧
      ∀ (i : ReadId) (r : ReadCall Raw), w.reads[i]? = some r → r.cancelCalled = false →
        ∃ r', v.reads[i]? = some r' ∧ r'.pc = r.pc := by
  have hsim := run_filter_simulates notCancel
    (R := fun s t : World Raw => (CallsShaped cfg s ∧ MarkedLate s) ∧ Beside s t) ?_ ?_ hrun hmoves
    ⟨⟨init_callsShaped cfg content membership, fun i r hr => by cases hr⟩,
      ⟨fun _ => rfl, rfl, rfl, rfl, .nil⟩⟩
  · obtain ⟨v, hv, -, hbeside⟩ := hsim
    refine ⟨v, hv, ?_⟩
    intro i r hr hcalled
    obtain ⟨r', hr', hm⟩ := related_get hbeside.reads hr
    rcases hm.place with hpc | ⟨hcancelled, -⟩
    · exact ⟨r', hr', hpc⟩
    · rw [hcalled] at hcancelled
      cases hcancelled
  · rintro s t a s' ⟨⟨hshape, hlate⟩, hbeside⟩ hs ha hkeep
    obtain ⟨s₁, htrans, rfl⟩ := step_transition hs
    obtain ⟨t₁, htrans', hbeside'⟩ := hbeside.simulates hshape hlate htrans ha hkeep
    exact ⟨t₁.tick, htrans'.step_eq,
      ⟨hshape.preserved hs, markedLate_step hlate hs ha⟩, hbeside'.tick⟩
  · rintro s t a s' ⟨⟨hshape, hlate⟩, hbeside⟩ hs ha hdrop
    have hinv : CallsShaped cfg s' ∧ MarkedLate s' :=
      ⟨hshape.preserved hs, markedLate_step hlate hs ha⟩
    obtain ⟨s₁, htrans, rfl⟩ := step_transition hs
    cases a with
    | cancel i =>
      have hskip := hbeside.skips htrans ha
      exact ⟨hinv, hskip.store, hskip.membership, hskip.inFlight, hskip.futures, hskip.reads⟩
    | _ => cases hdrop

end HeliosPermissions.ErasedCancels
