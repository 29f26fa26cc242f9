import HeliosPermissions.CallShapes
import HeliosPermissions.StrandedWaiters

/-!
# Reads that run to their end

A read that has not ended can be moved on: its command can be served, its fetch
answered, or itself resumed. Only a waiter depends on another read, and that one
is a running leader unless the future is settled. So where nothing moves any
more and no waiter is stranded, every read has ended.
-/

namespace HeliosPermissions.RunsToCompletion

open JsonValues CacheKeys CacheStore HeliosResolution ClientWorld PartialRuns InFlightTable
open CallHistory CallShapes StrandedWaiters

variable {Raw : Type}

/-- The moves that carry on calls already made. -/
def Advances : Action → Prop
  | .serveRead _ _ => True
  | .serveMutation _ _ => True
  | .sample _ _ => True
  | .resumeRead _ => True
  | .resumeMutation _ => True
  | _ => False

/-- Without a new call, a cancellation or a change from outside nothing moves. -/
def Quiescent (cfg : Config Raw) (w : World Raw) : Prop :=
  ∀ a, Advances a → step cfg w a = none

/-- The moves that carry on reads. -/
def AdvancesRead : Action → Prop
  | .serveRead _ _ => True
  | .sample _ _ => True
  | .resumeRead _ => True
  | _ => False

/-- No read moves on, whatever the mutating calls do. -/
def ReadsQuiescent (cfg : Config Raw) (w : World Raw) : Prop :=
  ∀ a, AdvancesRead a → step cfg w a = none

/-- Where nothing can move, no read can. -/
theorem Quiescent.reads {cfg : Config Raw} {w : World Raw} (h : Quiescent cfg w) :
    ReadsQuiescent cfg w := by
  intro a ha
  refine h a ?_
  cases a with
  | serveRead i fate => trivial
  | sample i fate => trivial
  | resumeRead i => trivial
  | _ => cases ha

/-- No transition moves a read there. -/
theorem ReadsQuiescent.no_transition {cfg : Config Raw} {w v : World Raw} {a : Action}
    (h : ReadsQuiescent cfg w) (ht : Transition cfg w a v) (ha : AdvancesRead a) : False := by
  have hnone := h a ha
  rw [ht.step_eq] at hnone
  cases hnone

section steps

variable {cfg : Config Raw} {w : World Raw}

/-- The server can execute whatever a read has sent. -/
theorem sent_is_served {i : ReadId} {r : ReadCall Raw} {cmd : Command Raw}
    (hshape : ReadShape cfg r) (hr : w.reads[i]? = some r) (hport : r.port = .sent cmd) :
    ∃ v, Transition cfg w (.serveRead i .executes) v := by
  rcases hshape.command cmd hport with rfl | ⟨perms, rfl, -⟩
  · exact ⟨_, .readServed hr hport rfl⟩
  · exact ⟨_, .readServed hr hport rfl⟩

/-- A listed future exists. -/
theorem listed_state (hown : Ownership w) {c : ClientId} {k : String} {f : FutureId}
    (hf : (w.inFlight c).get? k = some f) : ∃ st, w.futureState f = some st := by
  obtain ⟨l, hl⟩ := hown.running c k f hf
  obtain ⟨fut, hfut, -⟩ := Option.map_eq_some_iff.mp (hown.created l c k f hl)
  exact ⟨fut.state, by simp [World.futureState, hfut]⟩

/-- A read whose GET has been answered can go on. -/
theorem replied_advances (hown : Ownership w) {i : ReadId} {r : ReadCall Raw}
    {reply : Reply Raw} (hr : w.reads[i]? = some r) (hm : r.mustCancel = false)
    (hpc : r.pc = .cacheGet) (hport : r.port = .replied reply) :
    ∃ v, Transition cfg w (.resumeRead i) v := by
  cases hd : decodeGet cfg.backend reply with
  | error err => exact ⟨_, .getRaises hr hm hpc hport hd⟩
  | ok cached =>
    cases cached with
    | some perms => exact ⟨_, .getHits hr hm hpc hport hd⟩
    | none =>
      cases hf : (w.inFlight r.client).get? r.lock with
      | none => exact ⟨_, .leads hr hm hpc hport hd hf⟩
      | some f =>
        obtain ⟨st, hst⟩ := listed_state hown hf
        cases ho : st.outcome with
        | none =>
          rw [FutureState.outcome_eq_none.mp ho] at hst
          exact ⟨_, .joins hr hm hpc hport hd hf hst⟩
        | some outcome => exact ⟨_, .joinsDone hr hm hpc hport hd hf hst ho⟩

/-- A leader whose fetch has been answered can go on. -/
theorem fetched_advances {i : ReadId} {r : ReadCall Raw} {f : FutureId} {n : ℕ}
    {outcome : HttpOutcome} (hr : w.reads[i]? = some r) (hm : r.mustCancel = false)
    (hpc : r.pc = .heliosFetch f) (hsam : r.sampled = some (n, outcome)) :
    ∃ v, Transition cfg w (.resumeRead i) v := by
  cases he : fetchEnd r.userId r.tenantId outcome with
  | resolved perms => exact ⟨_, .populates hr hm hpc hsam he⟩
  | unreachable message => exact ⟨_, .unreachable hr hm hpc hsam he⟩
  | escaped err => exact ⟨_, .escapes hr hm hpc hsam he⟩

/-- A read that a cancellation is about to reach can go on. -/
theorem marked_advances {i : ReadId} {r : ReadCall Raw} (hr : w.reads[i]? = some r)
    (hm : r.mustCancel = true) (hd : r.pc.isDone = false) :
    ∃ v, Transition cfg w (.resumeRead i) v := by
  cases ho : r.pc.owned with
  | none => exact ⟨_, .thrown hr hm hd ho⟩
  | some f => exact ⟨_, .thrownLeader hr hm ho⟩

/-- Where no read moves, one that has not ended waits for a pending future. -/
theorem ReadsQuiescent.done_or_waiting (h : ReadsQuiescent cfg w) (hown : Ownership w)
    (hshape : CallsShaped cfg w) {i : ReadId} {r : ReadCall Raw} (hr : w.reads[i]? = some r) :
    r.pc.isDone = true ∨ ∃ f, r.pc = .joined f ∧ ¬Settled w f := by
  have hresume : ¬∃ v, Transition cfg w (.resumeRead i) v := by
    rintro ⟨v, hv⟩
    exact h.no_transition hv trivial
  have hsent : ∀ cmd, r.port ≠ .sent cmd := by
    intro cmd hport
    obtain ⟨v, hv⟩ := sent_is_served (hshape.reads i r hr) hr hport
    exact h.no_transition hv trivial
  obtain ⟨reply, hport⟩ : ∃ reply, r.port = .replied reply := by
    cases hport : r.port with
    | sent cmd => exact absurd hport (hsent cmd)
    | replied reply => exact ⟨reply, rfl⟩
  cases hd : r.pc.isDone with
  | true => exact Or.inl rfl
  | false =>
    cases hm : r.mustCancel with
    | true => exact absurd (marked_advances hr hm hd) hresume
    | false =>
      cases hpc : r.pc with
      | cacheGet => exact absurd (replied_advances hown hr hm hpc hport) hresume
      | joined f =>
        refine Or.inr ⟨f, rfl, ?_⟩
        intro hset
        obtain ⟨o, ho⟩ := settled_iff.mp hset
        exact hresume ⟨_, .wakes hr hm hpc ho⟩
      | heliosFetch f =>
        cases hsam : r.sampled with
        | none => exact (h.no_transition (.sampled .answers hr hpc hsam) trivial).elim
        | some sample => exact absurd (fetched_advances hr hm hpc hsam) hresume
      | cacheSet f perms => exact absurd ⟨_, .populated hr hm hpc hport⟩ hresume
      | done o via =>
        rw [hpc] at hd
        cases hd

/-- Reads that have ended, with no command on its way, move no further. -/
theorem quiescent_of_done (hmu : w.mutations = []) (hd : ∀ (i : ReadId) (r : ReadCall Raw),
    w.reads[i]? = some r → r.pc.isDone = true ∧ ∃ reply, r.port = .replied reply) :
    Quiescent cfg w := by
  intro a ha
  by_contra hmoves
  obtain ⟨w', hs⟩ := Option.ne_none_iff_exists'.mp hmoves
  obtain ⟨v, ht, -⟩ := step_transition hs
  have hnot : ∀ {i : ReadId} {r : ReadCall Raw}, w.reads[i]? = some r →
      r.pc.isDone ≠ false := by
    intro i r hr hrun
    rw [(hd i r hr).1] at hrun
    cases hrun
  cases ht with
  | readServed hr hport =>
    obtain ⟨reply, hreply⟩ := (hd _ _ hr).2
    rw [hport] at hreply
    cases hreply
  | sampled fate hr hpc => exact hnot hr (by rw [hpc]; rfl)
  | thrown hr hm hrun => exact hnot hr hrun
  | thrownLeader hr hm ho => exact hnot hr (ReadPc.of_owned ho).1
  | getRaises hr hm hpc => exact hnot hr (by rw [hpc]; rfl)
  | getHits hr hm hpc => exact hnot hr (by rw [hpc]; rfl)
  | leads hr hm hpc => exact hnot hr (by rw [hpc]; rfl)
  | joins hr hm hpc => exact hnot hr (by rw [hpc]; rfl)
  | joinsDone hr hm hpc => exact hnot hr (by rw [hpc]; rfl)
  | populates hr hm hpc => exact hnot hr (by rw [hpc]; rfl)
  | unreachable hr hm hpc => exact hnot hr (by rw [hpc]; rfl)
  | escapes hr hm hpc => exact hnot hr (by rw [hpc]; rfl)
  | populated hr hm hpc => exact hnot hr (by rw [hpc]; rfl)
  | wakes hr hm hpc => exact hnot hr (by rw [hpc]; rfl)
  | mutationServed hm => rw [hmu] at hm; cases hm
  | mutationResumes hm => rw [hmu] at hm; cases hm
  | _ => exact ha

/-- Where no read moves and no waiter is stranded, every read has ended. -/
theorem ReadsQuiescent.all_done (h : ReadsQuiescent cfg w) (hown : Ownership w)
    (hshape : CallsShaped cfg w) (hwait : NoStrandedWaiter w) {i : ReadId} {r : ReadCall Raw}
    (hr : w.reads[i]? = some r) : r.pc.isDone = true := by
  rcases h.done_or_waiting hown hshape hr with hd | ⟨f, hpc, hpend⟩
  · exact hd
  · rcases hwait i r f hr hpc with hset | ⟨l, c, k, -, ⟨s, hs, -, -, ho⟩, -⟩
    · exact absurd hset hpend
    · -- the leader it waits for has itself ended, and so holds nothing
      rcases h.done_or_waiting hown hshape hs with hd | ⟨g, hjoin, -⟩
      · rw [(ReadPc.of_owned ho).1] at hd
        cases hd
      · rw [hjoin] at ho
        cases ho

/-- Where nothing can move, every read has ended. -/
theorem Quiescent.all_done (h : Quiescent cfg w) (hown : Ownership w)
    (hshape : CallsShaped cfg w) (hwait : NoStrandedWaiter w) {i : ReadId} {r : ReadCall Raw}
    (hr : w.reads[i]? = some r) : r.pc.isDone = true :=
  h.reads.all_done hown hshape hwait hr

end steps

end HeliosPermissions.RunsToCompletion
