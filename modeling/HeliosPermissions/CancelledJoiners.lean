import HeliosPermissions.SharedFetches
import HeliosPermissions.RunsToCompletion
import HeliosPermissions.ErasedCancels

/-!
# Cancelling a caller that has joined

A joiner awaits the shared future itself, so cancelling it while the future is
pending cancels the future: the other joiners are cancelled with it, and the
leader cannot set its result any more. A cancellation that comes after the
future is settled concerns the cancelled caller alone. Everyone else receives
the outcome of the fetch exactly when every cancellation is of the second kind.
-/

namespace HeliosPermissions.CancelledJoiners

open JsonValues CacheKeys CacheStore HeliosResolution ClientWorld PartialRuns InFlightTable
open CallHistory CallShapes StrandedWaiters SharedFetches RunsToCompletion ErasedCancels

variable {Raw : Type}

/-- The moves of reads, of which any but the leaders may be cancelled, while every
fetch ends in a list or in `HeliosUnreachableError`. -/
def CoalescedReads (w : World Raw) : Action → Prop
  | .read _ _ _ _ => True
  | .serveRead _ _ => True
  | .sample i fate => ∀ r err, w.reads[i]? = some r →
      fetchEnd r.userId r.tenantId (fate.outcome (w.membership r.userId r.tenantId)) ≠ .escaped err
  | .resumeRead _ => True
  | .change _ _ _ => True
  | .cancel i => ∀ r, w.reads[i]? = some r → r.pc.owned = none
  | _ => False

/-- Only callers that have joined, or have ended, are cancelled. -/
def CancelsJoiners (w : World Raw) (a : Action) : Prop :=
  ∀ i r, a = .cancel i → w.reads[i]? = some r → r.pc.isDone = true ∨ ∃ f, r.pc = .joined f

/-- A joiner is cancelled while the shared future is pending. -/
def CancelsShared (w : World Raw) (a : Action) : Prop :=
  ∃ i r f, a = .cancel i ∧ w.reads[i]? = some r ∧ r.pc = .joined f ∧
    w.futureState f = some .pending

/-- Every read that was not cancelled has ended, and with the outcome of the fetch
if it led or joined one. -/
def AnsweredByFetch (cfg : Config Raw) (w : World Raw) : Prop :=
  ∀ (i : ReadId) (r : ReadCall Raw), w.reads[i]? = some r → r.cancelCalled = false →
    ∃ o via, r.pc = .done o via ∧ ∀ f, via.future = some f →
      ∃ s, LeaderOf w f r.client r.lock s ∧ fetchOutcome cfg s = some o

/-- The same moves without the cancellations are a run in which every read that
was not cancelled ends up the same. -/
def SameWithoutCancels (cfg : Config Raw) (start w : World Raw) (as : List Action) : Prop :=
  ∃ v, run (step cfg) start (as.filter notCancel) = some v ∧
    ∀ (i : ReadId) (r : ReadCall Raw), w.reads[i]? = some r → r.cancelCalled = false →
      ∃ r', v.reads[i]? = some r' ∧ r'.pc = r.pc

/-- An outcome that a fetch of such a run can have. -/
def Handled (o : Outcome) : Prop :=
  ∀ err, o = .error err → ∃ message, err = .heliosUnreachable message

/-- The invariant of such a run, whatever is cancelled. -/
structure Coalesced (cfg : Config Raw) (w : World Raw) : Prop where
  /-- The tables, futures and leaders fit together. -/
  consistent : Consistent cfg w
  /-- Every joiner's future has a leader or an outcome. -/
  waiters : NoStrandedWaiter w
  /-- No leader has been cancelled. -/
  leaders : ∀ (i : ReadId) (r : ReadCall Raw) (f : FutureId), w.reads[i]? = some r →
    r.pc.via = .led f → r.mustCancel = false ∧ r.cancelCalled = false
  /-- A cancellation still to be thrown has been called for. -/
  marked : ∀ (i : ReadId) (r : ReadCall Raw), w.reads[i]? = some r → r.mustCancel = true →
    r.cancelCalled = true
  /-- A read that waits for its GET and is cancelled is marked so. -/
  getting : ∀ (i : ReadId) (r : ReadCall Raw), w.reads[i]? = some r → r.pc = .cacheGet →
    r.mustCancel = false → r.cancelCalled = false
  /-- No fetch ended with an exception of another kind. -/
  answers : ∀ (i : ReadId) (r : ReadCall Raw) (n : ℕ) (outcome : HttpOutcome) (err : PyError),
    w.reads[i]? = some r → r.sampled = some (n, outcome) →
    fetchEnd r.userId r.tenantId outcome ≠ .escaped err
  /-- The creator of a future is the read that led it. -/
  creators : ∀ (f : FutureId) (i : ReadId), creatorOf w f = some i →
    ∃ r, w.reads[i]? = some r ∧ r.pc.via = .led f
  /-- A leader that has ended left its outcome in its future. -/
  ended : ∀ (i : ReadId) (r : ReadCall Raw) (f : FutureId) (o : Outcome), w.reads[i]? = some r →
    r.pc = .done o (.led f) →
    (w.futureState f).bind FutureState.outcome = some o ∨ o = .error .invalidStateError

/-- What holds besides when no pending future is cancelled. -/
structure Undisturbed (w : World Raw) : Prop where
  /-- No future is cancelled. -/
  intact : ∀ f, w.futureState f ≠ some .cancelled
  /-- The future of a leader still at work is pending. -/
  pending : ∀ (i : ReadId) (r : ReadCall Raw) (f : FutureId), w.reads[i]? = some r →
    r.pc.owned = some f → w.futureState f = some .pending
  /-- A read that is not cancelled ends with a handled outcome. -/
  handled : ∀ (i : ReadId) (r : ReadCall Raw) (o : Outcome) (via : Via) (f : FutureId),
    w.reads[i]? = some r → r.cancelCalled = false → r.pc = .done o via → via.future = some f →
    Handled o

/-- A fetch with an expected end has such an outcome. -/
theorem handled_of_fetch {cfg : Config Raw} {s : ReadCall Raw} {o : Outcome}
    (hans : ∀ n outcome err, s.sampled = some (n, outcome) →
      fetchEnd s.userId s.tenantId outcome ≠ .escaped err)
    (h : fetchOutcome cfg s = some o) : Handled o := by
  obtain ⟨⟨n, outcome⟩, hsam, ho⟩ := Option.map_eq_some_iff.mp h
  intro err herr
  subst herr
  cases he : fetchEnd s.userId s.tenantId outcome with
  | resolved perms =>
    rw [he] at ho
    cases ho
  | unreachable message =>
    rw [he] at ho
    have hdeny : World.unreachableOutcome cfg s.client message = .error err := ho
    unfold World.unreachableOutcome at hdeny
    split_ifs at hdeny
    cases hdeny
    exact ⟨message, rfl⟩
  | escaped err' => exact absurd he (hans n outcome err' hsam)

/-- A handled outcome is no cancellation. -/
theorem Handled.not_cancelled {o : Outcome} (h : Handled o) : o ≠ .error .cancelledError := by
  rintro rfl
  obtain ⟨message, hm⟩ := h _ rfl
  cases hm

/-- A handled outcome is no `InvalidStateError`. -/
theorem Handled.not_invalid {o : Outcome} (h : Handled o) : o ≠ .error .invalidStateError := by
  rintro rfl
  obtain ⟨message, hm⟩ := h _ rfl
  cases hm

section steps

variable {cfg : Config Raw} {w w' : World Raw} {a : Action}

/-- No leader of such a run leaves its future pending. -/
theorem Coalesced.not_leavesPending (h : Coalesced cfg w) : ¬LeavesPending w a := by
  rintro ⟨i, r, f, -, hr, ho, -, hm | ⟨n, outcome, err, hpc, hsam, he⟩⟩
  · rw [(h.leaders i r f hr (ReadPc.of_owned ho).2).1] at hm
    cases hm
  · exact h.answers i r n outcome err hr hsam he

/-- No step of such a run cancels a leader. -/
theorem leaders_step (h : Coalesced cfg w) (hs : step cfg w a = some w')
    (ha : CoalescedReads w a) {i : ReadId} {r' : ReadCall Raw} {f : FutureId}
    (hr' : w'.reads[i]? = some r') (hvia : r'.pc.via = .led f) :
    r'.mustCancel = false ∧ r'.cancelCalled = false := by
  rcases read_before hs hr' with hold | ⟨c, u, t, ask, -, -, rfl⟩ | ⟨r, hr, hmove⟩
  · exact h.leaders i r' f hold hvia
  · cases hvia
  · cases hmove with
    | served => exact h.leaders i r f hr hvia
    | sampled => exact h.leaders i r f hr hvia
    | marked b hd =>
      have hnone : r.pc.owned = none := ha r hr
      rw [ReadPc.owned_of_via hvia hd] at hnone
      cases hnone
    | leads hpc hport hd hf hm => exact ⟨hm, h.getting i r hr hpc hm⟩
    | joins => cases hvia
    | populates hpc => exact h.leaders i r _ hr (by rw [hpc]; rfl)
    | ends hend =>
      have ho := (hend.led_iff f).mp hvia
      exact h.leaders i r f hr (ReadPc.of_owned ho).2

/-- A step keeps the marks of cancelled reads. -/
theorem marked_step (h : Coalesced cfg w) (hs : step cfg w a = some w') {i : ReadId}
    {r' : ReadCall Raw} (hr' : w'.reads[i]? = some r') :
    (r'.mustCancel = true → r'.cancelCalled = true) ∧
      (r'.pc = .cacheGet → r'.mustCancel = false → r'.cancelCalled = false) := by
  rcases read_before hs hr' with hold | ⟨c, u, t, ask, -, -, rfl⟩ | ⟨r, hr, hmove⟩
  · exact ⟨h.marked i r' hold, h.getting i r' hold⟩
  · refine ⟨?_, fun _ _ => rfl⟩
    intro hm
    cases hm
  · refine ⟨?_, ?_⟩
    · exact hmove.marked_called (h.marked i r hr)
    · intro hpc hm
      cases hmove with
      | served => exact h.getting i r hr hpc hm
      | sampled => exact h.getting i r hr hpc hm
      | marked b hd hb =>
        rcases hb with rfl | ⟨f, hjoin⟩
        · cases hm
        · rw [hjoin] at hpc
          cases hpc
      | leads => cases hpc
      | joins => cases hpc
      | populates => cases hpc
      | ends => cases hpc

/-- A step keeps the samples free of other exceptions. -/
theorem answers_step (h : Coalesced cfg w) (hs : step cfg w a = some w')
    (ha : CoalescedReads w a) {i : ReadId} {r' : ReadCall Raw} {n : ℕ} {outcome : HttpOutcome}
    {err : PyError} (hr' : w'.reads[i]? = some r') (hsam : r'.sampled = some (n, outcome)) :
    fetchEnd r'.userId r'.tenantId outcome ≠ .escaped err := by
  rcases read_before hs hr' with hold | ⟨c, u, t, ask, -, -, rfl⟩ | ⟨r, hr, hmove⟩
  · exact h.answers i r' n outcome err hold hsam
  · cases hsam
  · cases hmove with
    | sampled fate hpc hn =>
      cases hsam
      exact ha r err hr
    | _ => exact h.answers i r n outcome err hr hsam

/-- A step keeps the creators of futures. -/
theorem creators_step (h : Coalesced cfg w) (hs : step cfg w a = some w') {f : FutureId}
    {i : ReadId} (hcr : creatorOf w' f = some i) :
    ∃ r, w'.reads[i]? = some r ∧ r.pc.via = .led f := by
  have hold : creatorOf w f = some i → ∃ r, w'.reads[i]? = some r ∧ r.pc.via = .led f := by
    intro hbefore
    obtain ⟨r, hr, hvia⟩ := h.creators f i hbefore
    obtain ⟨r', hr', rfl | hmove⟩ := read_after hs hr
    · exact ⟨r', hr', hvia⟩
    · refine ⟨r', hr', ?_⟩
      cases hmove with
      | served => exact hvia
      | sampled => exact hvia
      | marked => exact hvia
      | leads hpc => rw [hpc] at hvia; cases hvia
      | joins hm hfind => rw [hfind.hpc] at hvia; cases hvia
      | populates hpc => rw [hpc] at hvia; exact hvia
      | ends hend => exact (hend.led_iff f).mpr (ReadPc.owned_of_via hvia hend.not_done)
  cases step_tableChange hs with
  | keeps hh ht hc => exact hold (by rw [← hc]; exact hcr)
  | releases l c k g hl hh ht hc => exact hold (by rw [← hc]; exact hcr)
  | registers l c k hfree hh ht hc =>
    rw [hc] at hcr
    split_ifs at hcr with hf
    · obtain rfl : l = i := Option.some.inj hcr
      obtain ⟨r, hr, -, -, ho⟩ := (hh l c k f).mpr (Or.inr ⟨rfl, rfl, rfl, hf⟩)
      exact ⟨r, hr, (ReadPc.of_owned ho).2⟩
    · exact hold hcr

/-- A leader that ends leaves its outcome in its future. -/
theorem ended_led_step (h : Coalesced cfg w) (hs : step cfg w a = some w') {i : ReadId}
    {r' : ReadCall Raw} {f : FutureId} {o : Outcome} (hr' : w'.reads[i]? = some r')
    (hpc : r'.pc = .done o (.led f)) :
    (w'.futureState f).bind FutureState.outcome = some o ∨ o = .error .invalidStateError := by
  obtain ⟨r, hr, -, -, -, -, hdone | hend⟩ := done_before hs hr' hpc
  · exact (h.ended i r f o hr hdone).imp_left (outcome_kept hs)
  · have hvia := (ReadPc.of_owned ((hend.led_iff f).mp rfl)).2
    generalize hv : Via.led f = via at hend
    cases hend with
    | cancelled hm =>
      rw [(h.leaders i r f hr hvia).1] at hm
      cases hm
    | getRaises => cases hv
    | getHits => cases hv
    | awaited => cases hv
    | settles hm hres hf hafter =>
      cases hv
      refine Or.inl ?_
      rw [hafter]
      exact FutureState.outcome_ofOutcome _
    | settledBefore => exact Or.inr rfl
    | escapes hm hfetch hsam he => exact absurd he (h.answers i r _ _ _ hr hsam)

/-- Such moves keep the invariant. -/
theorem Coalesced.preserved (h : Coalesced cfg w) (hs : step cfg w a = some w')
    (ha : CoalescedReads w a) : Coalesced cfg w' where
  consistent := h.consistent.preserved hs
  waiters := noStrandedWaiter_step h.consistent.ownership hs h.not_leavesPending h.waiters
  leaders _ _ _ hr hvia := leaders_step h hs ha hr hvia
  marked _ _ hr := (marked_step h hs hr).1
  getting _ _ hr := (marked_step h hs hr).2
  answers _ _ _ _ _ hr hsam := answers_step h hs ha hr hsam
  creators _ _ hcr := creators_step h hs hcr
  ended _ _ _ _ hr hpc := ended_led_step h hs hr hpc

/-- A step that cancels no shared future leaves the futures intact. -/
theorem intact_step (h : Undisturbed w) (hs : step cfg w a = some w')
    (hq : ¬CancelsShared w a) (f : FutureId) : w'.futureState f ≠ some .cancelled := by
  intro hf
  rcases futureState_before hs hf with hold | ⟨-, hpend⟩ |
    ⟨-, i, r, outcome, -, -, -, hst⟩ | ⟨hpend, i, r, ha, hr, hpc, -⟩
  · exact h.intact f hold
  · cases hpend
  · cases outcome <;> cases hst
  · exact hq ⟨i, r, f, ha, hr, hpc, hpend⟩

/-- A step that cancels no shared future leaves the futures of leaders pending. -/
theorem pending_step (hco : Coalesced cfg w) (h : Undisturbed w)
    (hs : step cfg w a = some w') (hq : ¬CancelsShared w a) {i : ReadId} {r' : ReadCall Raw}
    {f : FutureId} (hr' : w'.reads[i]? = some r') (ho : r'.pc.owned = some f) :
    w'.futureState f = some .pending := by
  have hown := hco.consistent.ownership
  have hkeep : ∀ r : ReadCall Raw, w.reads[i]? = some r → r.pc.owned = some f →
      w'.futureState f = some .pending := by
    intro r hr howned
    have hcr := hown.created i r.client r.lock f ⟨r, hr, rfl, rfl, howned⟩
    obtain ⟨fut, hfut, -⟩ :=
      Option.map_eq_some_iff.mp ((step_extends hs).creators f i hcr)
    have hst : w'.futureState f = some fut.state := by rw [World.futureState, hfut]; rfl
    rcases futureState_before hs hst with hold | ⟨-, hpend⟩ |
      ⟨-, l, s, outcome, rfl, hsr, hres, -⟩ | ⟨hpend, l, s, ha, hsr, hpc, -⟩
    · rw [hst, ← hold]
      exact h.pending i r f hr howned
    · rw [hst, hpend]
    · -- only the read itself settles its future, and then it has ended
      have hcr' := hown.created l s.client s.lock f ⟨s, hsr, rfl, rfl, hres.owned⟩
      obtain rfl : l = i := Option.some.inj (hcr'.symm.trans hcr)
      obtain rfl : s = r := Option.some.inj (hsr.symm.trans hr)
      have hm := (hco.leaders l s f hr (ReadPc.of_owned howned).2).1
      have hafter := hres.step_eq hs hr hm
      obtain ⟨outcome', hend, hreads⟩ := conclude_readEnd cfg hm hres
      have hrow : w'.reads[l]? = some
          { s with pc := .done outcome' (.led f), ended := some w.clock } := by
        rw [hafter]
        change (w.conclude l s f outcome).reads[l]? = _
        rw [hreads]
        exact IndexedTables.get_set_self hr
      rw [hrow] at hr'
      cases hr'
      cases ho
    · exact absurd ⟨l, s, f, ha, hsr, hpc, hpend⟩ hq
  rcases read_before hs hr' with hold | ⟨c, u, t, ask, -, -, rfl⟩ | ⟨r, hr, hmove⟩
  · exact hkeep r' hold ho
  · cases ho
  · cases hmove with
    | served => exact hkeep r hr ho
    | sampled => exact hkeep r hr ho
    | marked => exact hkeep r hr ho
    | leads hpc hport hd hf hm =>
      cases ho
      rw [leads_step_eq hs hr hm hpc hport hd hf]
      change ((w.futures ++ [⟨i, .pending⟩])[w.futures.length]?).map Future.state = some .pending
      rw [IndexedTables.get_append_last]
      rfl
    | joins => cases ho
    | populates hpc => exact hkeep r hr (by rw [hpc]; exact ho)
    | ends => cases ho

/-- A step that cancels no shared future gives handled outcomes. -/
theorem handled_step (hco : Coalesced cfg w) (h : Undisturbed w)
    (hs : step cfg w a = some w') {i : ReadId} {r' : ReadCall Raw} {f : FutureId} {o : Outcome}
    {via : Via} (hr' : w'.reads[i]? = some r') (hcalled : r'.cancelCalled = false)
    (hpc : r'.pc = .done o via) (hvia : via.future = some f) : Handled o := by
  obtain ⟨r, hr, -, -, -, hsame, hdone | hend⟩ := done_before hs hr' hpc
  · exact h.handled i r o via f hr (hsame ▸ hcalled) hdone hvia
  · have hans := fun n outcome err => hco.answers i r n outcome err hr
    cases hend with
    | cancelled hm =>
      rw [hsame, hco.marked i r hr hm] at hcalled
      cases hcalled
    | getRaises => cases hvia
    | getHits => cases hvia
    | @awaited g _ hm hf ho =>
      obtain ⟨st, hst, hout⟩ := Option.bind_eq_some_iff.mp ho
      have hsettled : st = .ofOutcome o → Handled o := by
        rintro rfl
        obtain ⟨c, k, s, ⟨leader, -, hsr, -⟩, hfetch⟩ :=
          hco.consistent.shared.settled g o hst
        exact handled_of_fetch (fun n outcome err => hco.answers leader s n outcome err hsr)
          hfetch
      cases st with
      | pending => cases hout
      | result perms => cases hout; exact hsettled rfl
      | exception err => cases hout; exact hsettled rfl
      | cancelled => exact absurd hst (h.intact g)
    | settles hm hres =>
      exact handled_of_fetch hans
        (fetchOutcome_of_result (hco.consistent.shaped.reads i r hr) hres)
    | settledBefore hm hres hf => exact absurd (h.pending i r _ hr hres.owned) hf
    | escapes hm hfetch hsam he => exact absurd he (hans _ _ _ hsam)

/-- The three together. -/
theorem Undisturbed.preserved (h : Undisturbed w) (hco : Coalesced cfg w)
    (hs : step cfg w a = some w') (hq : ¬CancelsShared w a) : Undisturbed w' where
  intact := intact_step h hs hq
  pending _ _ _ hr ho := pending_step hco h hs hq hr ho
  handled _ _ _ _ _ hr hcalled hpc hvia := handled_step hco h hs hr hcalled hpc hvia

/-- Undisturbed reads that have all ended were answered by their fetches. -/
theorem Undisturbed.answeredByFetch (h : Undisturbed w) (hco : Coalesced cfg w)
    (hq : Quiescent cfg w) : AnsweredByFetch cfg w := by
  intro i r hr hcalled
  have hd := hq.all_done hco.consistent.ownership hco.consistent.shaped hco.waiters hr
  obtain ⟨o, via, hpc⟩ := ReadPc.isDone_iff.mp hd
  refine ⟨o, via, hpc, ?_⟩
  intro f hvia
  have hhandled := h.handled i r o via f hr hcalled hpc hvia
  obtain ⟨s, hlead, hfetch | hcancel | hinvalid⟩ :=
    hco.consistent.shared.ended i r f o via hr hpc hvia
  · exact ⟨s, hlead, hfetch⟩
  · exact absurd hcancel hhandled.not_cancelled
  · exact absurd hinvalid hhandled.not_invalid

/-- A future is cancelled, as its waiters will find. -/
def FutureCancelled (w : World Raw) : Prop :=
  ∃ f, (w.futureState f).bind FutureState.outcome = some (.error .cancelledError)

/-- A cancelled shared future stays on record. -/
theorem cancelsShared_marks (hs : step cfg w a = some w') (h : CancelsShared w a) :
    FutureCancelled w' := by
  obtain ⟨i, r, f, rfl, hr, hpc, hpend⟩ := h
  have hcancel : Transition cfg w (.cancel i)
      ((w.settle f .cancelled).putRead i { r with cancelCalled := true }) :=
    .cancelsFuture hr hpc hpend
  have hafter := Option.some.inj (hs.symm.trans hcancel.step_eq)
  refine ⟨f, ?_⟩
  rw [hafter]
  change ((w.settle f .cancelled).futureState f).bind FutureState.outcome = _
  rw [futureState_settle, if_pos rfl, hpend]
  rfl

/-- The leader of a cancelled future has not been answered by its fetch. -/
theorem FutureCancelled.not_answered (h : FutureCancelled w) (hco : Coalesced cfg w) :
    ¬AnsweredByFetch cfg w := by
  obtain ⟨f, hf⟩ := h
  obtain ⟨st, hst, -⟩ := Option.bind_eq_some_iff.mp hf
  obtain ⟨fut, hfut, -⟩ := Option.map_eq_some_iff.mp hst
  have hcr : creatorOf w f = some fut.creator := by rw [creatorOf, hfut]; rfl
  obtain ⟨r, hr, hvia⟩ := hco.creators f fut.creator hcr
  intro hanswered
  obtain ⟨o, via, hpc, hfetch⟩ :=
    hanswered fut.creator r hr (hco.leaders fut.creator r f hr hvia).2
  rw [hpc] at hvia
  obtain rfl : via = .led f := hvia
  obtain ⟨s, ⟨leader, -, hsr, -⟩, ho⟩ := hfetch f rfl
  have hhandled := handled_of_fetch
    (fun n outcome err => hco.answers leader s n outcome err hsr) ho
  rcases hco.ended fut.creator r f o hr hpc with hout | hinvalid
  · rw [hf] at hout
    exact hhandled.not_cancelled (Option.some.inj hout).symm
  · exact hhandled.not_invalid hinvalid

/-- Cancellations of joiners that disturb nobody come late. -/
theorem lateCancels_of (hco : Coalesced cfg w) (ha : CoalescedReads w a)
    (hjoin : CancelsJoiners w a) (hq : ¬CancelsShared w a) : LateCancels w a := by
  cases a with
  | cancel i =>
    intro r hr
    rcases hjoin i r rfl hr with hd | ⟨f, hpc⟩
    · exact Or.inl hd
    · refine Or.inr ⟨f, hpc, ?_⟩
      obtain ⟨s, leader, hcr, -⟩ := hco.consistent.shared.waiting i r f hr hpc
      obtain ⟨fut, hfut, -⟩ := Option.map_eq_some_iff.mp hcr
      have hst : w.futureState f = some fut.state := by rw [World.futureState, hfut]; rfl
      refine ⟨fut.state, hst, ?_⟩
      intro hpend
      rw [hpend] at hst
      exact hq ⟨i, r, f, rfl, hr, hpc, hst⟩
  | mutate request => exact ha
  | serveMutation j fate => exact ha
  | resumeMutation j => exact ha
  | expire k => exact ha
  | _ => trivial

end steps

/-- At the start there are no reads. -/
theorem init_coalesced (cfg : Config Raw) (content : OrderedDict String (Raw × Option ℕ))
    (membership : String → String → Json) : Coalesced cfg (.init content membership) where
  consistent := init_consistent cfg content membership
  waiters := init_noStrandedWaiter content membership
  leaders i r f hr := by cases hr
  marked i r hr := by cases hr
  getting i r hr := by cases hr
  answers i r n outcome err hr := by cases hr
  creators f i hcr := by cases hcr
  ended i r f o hr := by cases hr

/-- At the start there are no futures. -/
theorem init_undisturbed (content : OrderedDict String (Raw × Option ℕ))
    (membership : String → String → Json) : Undisturbed (World.init content membership) where
  intact f hf := by cases hf
  pending i r f hr := by cases hr
  handled i r o via f hr := by cases hr

/-- Any interleaving of reads, run to its end, of which any but the leaders were
cancelled at any point: every caller that was not cancelled has the outcome of
its fetch, the same as without the cancellations of joiners, if and only if no
joiner was cancelled while the shared future was pending. -/
theorem answered_despite_cancels_iff {cfg : Config Raw}
    {content : OrderedDict String (Raw × Option ℕ)} {membership : String → String → Json}
    {as : List Action} {w : World Raw}
    (hrun : run (step cfg) (.init content membership) as = some w)
    (hmoves : Along (step cfg) (fun v a _ => CoalescedReads v a) (.init content membership) as)
    (hq : Quiescent cfg w) :
    (AnsweredByFetch cfg w ∧
      (Along (step cfg) (fun v a _ => CancelsJoiners v a) (.init content membership) as →
        SameWithoutCancels cfg (.init content membership) w as)) ↔
    Along (step cfg) (fun v a _ => ¬CancelsShared v a) (.init content membership) as := by
  have hinit := init_coalesced cfg content membership
  have hend : Coalesced cfg w := run_invariant (Coalesced cfg)
    (fun v a v' hv hs ha => hv.preserved hs ha) hrun hmoves hinit
  constructor
  · rintro ⟨hanswered, -⟩
    refine along_of_unmarked (Coalesced cfg) FutureCancelled
      (fun v a v' hv hs ha => hv.preserved hs ha) ?_ ?_ hrun hmoves hinit
      fun hcancelled => hcancelled.not_answered hend hanswered
    · intro v a v' hv hs ha hshared
      exact cancelsShared_marks hs (not_not.mp hshared)
    · rintro v a v' ⟨f, hf⟩ hs
      exact ⟨f, outcome_kept hs hf⟩
  · intro hnone
    have hinv := run_invariant (fun v => Coalesced cfg v ∧ Undisturbed v)
      (fun v a v' hv hs ha => ⟨hv.1.preserved hs ha.1, hv.2.preserved hv.1 hs ha.2⟩) hrun
      (hmoves.and hnone) ⟨hinit, init_undisturbed content membership⟩
    refine ⟨hinv.2.answeredByFetch hend hq, ?_⟩
    intro hjoiners
    refine run_without_cancels hrun ?_
    refine Along.with_invariant (Coalesced cfg) ?_ hinit ((hmoves.and hjoiners).and hnone)
    rintro v a v' hv hs ⟨⟨ha, hjoin⟩, hnot⟩
    exact ⟨hv.preserved hs ha, lateCancels_of hv ha hjoin hnot⟩

/-- The read that an action cancels. -/
def cancelled (w : World Raw) : Action → Option (ReadCall Raw)
  | .cancel i => w.reads[i]?
  | _ => none

theorem cancelled_eq_some_iff {w : World Raw} {a : Action} {r : ReadCall Raw} :
    cancelled w a = some r ↔ ∃ i, a = .cancel i ∧ w.reads[i]? = some r := by
  cases a <;> simp [cancelled]

/-- The future that a suspended read awaits itself. -/
def joinedTo : ReadPc → Option FutureId
  | .joined f => some f
  | _ => none

theorem joinedTo_eq_some_iff {pc : ReadPc} {f : FutureId} :
    joinedTo pc = some f ↔ pc = .joined f := by
  cases pc <;> simp [joinedTo]

instance (fetched : FetchEnd) : Decidable (∃ err, fetched = .escaped err) :=
  match fetched with
  | .resolved _ => isFalse (by simp)
  | .unreachable _ => isFalse (by simp)
  | .escaped err => isTrue ⟨err, rfl⟩

instance (st : FutureState) : Decidable (st = .pending) :=
  decidable_of_iff (st.outcome.isNone = true) (by
    rw [Option.isNone_iff_eq_none, FutureState.outcome_eq_none])

instance (w : World Raw) : DecidablePred (CoalescedReads w)
  | .read _ _ _ _ => isTrue trivial
  | .serveRead _ _ => isTrue trivial
  | .resumeRead _ => isTrue trivial
  | .change _ _ _ => isTrue trivial
  | .mutate _ => isFalse id
  | .serveMutation _ _ => isFalse id
  | .resumeMutation _ => isFalse id
  | .expire _ => isFalse id
  | .cancel i => inferInstanceAs (Decidable (∀ r ∈ w.reads[i]?, r.pc.owned = none))
  | .sample i fate => decidable_of_iff (∀ r ∈ w.reads[i]?, ¬∃ err, fetchEnd r.userId r.tenantId
      (fate.outcome (w.membership r.userId r.tenantId)) = .escaped err) (by
        simp only [CoalescedReads, not_exists]
        exact ⟨fun h r err hr => h r hr err, fun h r hr err => h r err hr⟩)

instance (w : World Raw) (a : Action) : Decidable (CancelsJoiners w a) :=
  decidable_of_iff (∀ r ∈ cancelled w a, r.pc.isDone = true ∨ (joinedTo r.pc).isSome = true) (by
    simp only [Option.mem_def, cancelled_eq_some_iff, Option.isSome_iff_exists,
      joinedTo_eq_some_iff, CancelsJoiners]
    exact ⟨fun h i r ha hr => h r ⟨i, ha, hr⟩, fun h r ⟨i, ha, hr⟩ => h i r ha hr⟩)

instance (w : World Raw) (a : Action) : Decidable (CancelsShared w a) :=
  decidable_of_iff (∃ r ∈ cancelled w a, ∃ f ∈ joinedTo r.pc,
      ∃ st ∈ w.futureState f, st = .pending) (by
    simp only [Option.mem_def, cancelled_eq_some_iff, joinedTo_eq_some_iff, CancelsShared]
    constructor
    · rintro ⟨r, ⟨i, ha, hr⟩, f, hpc, st, hst, rfl⟩
      exact ⟨i, r, f, ha, hr, hpc, hst⟩
    · rintro ⟨i, r, f, ha, hr, hpc, hst⟩
      exact ⟨r, ⟨i, ha, hr⟩, f, hpc, _, hst, rfl⟩)

/-- Two reads of one pair: the second joins the first, and is cancelled when the
first has settled the future. -/
def lateCancelRun : List Action :=
  joinedRun ++ [.sample 0 .answers, .resumeRead 0, .serveRead 0 .executes, .resumeRead 0,
    .cancel 1, .resumeRead 1]

/-- The late cancellation disturbs no one. -/
theorem answered_despite_cancels_lateCancelRun :
    AnsweredByFetch (fixedConfig true) (endOf true lateCancelRun) := by
  have hmoves : Along (step (fixedConfig true)) (fun v a _ => CoalescedReads v a) fixedWorld
      lateCancelRun := by decide
  have hnone : Along (step (fixedConfig true)) (fun v a _ => ¬CancelsShared v a) fixedWorld
      lateCancelRun := by decide
  have hq : Quiescent (fixedConfig true) (endOf true lateCancelRun) := by
    refine quiescent_of_done rfl ?_
    intro i r hr
    match i, hr with
    | 0, hr => cases hr; exact ⟨rfl, _, rfl⟩
    | 1, hr => cases hr; exact ⟨rfl, _, rfl⟩
  exact ((answered_despite_cancels_iff (run_endOf rfl) hmoves hq).mpr hnone).1

/-- The same reads, but the second is cancelled while Helios has yet to answer. -/
def earlyCancelRun : List Action :=
  joinedRun ++ [.cancel 1, .sample 0 .answers, .resumeRead 0, .serveRead 0 .executes,
    .resumeRead 0, .resumeRead 1]

/-- Only the joiner was cancelled, and the leader raises `InvalidStateError`
although Helios has resolved its fetch. -/
theorem leader_fails_earlyCancelRun :
    Along (step (fixedConfig true)) (fun v a _ => CoalescedReads v a ∧ CancelsJoiners v a)
      fixedWorld earlyCancelRun ∧
    run (step (fixedConfig true)) fixedWorld earlyCancelRun = some (endOf true earlyCancelRun) ∧
    Quiescent (fixedConfig true) (endOf true earlyCancelRun) ∧
    ¬AnsweredByFetch (fixedConfig true) (endOf true earlyCancelRun) := by
  refine ⟨by decide, run_endOf rfl, ?_, ?_⟩
  · refine quiescent_of_done rfl ?_
    intro i r hr
    match i, hr with
    | 0, hr => cases hr; exact ⟨rfl, _, rfl⟩
    | 1, hr => cases hr; exact ⟨rfl, _, rfl⟩
  · intro hanswered
    obtain ⟨o, via, hpc, hfetch⟩ := hanswered 0 _ rfl rfl
    cases hpc
    obtain ⟨s, ⟨leader, hcr, hs, -⟩, ho⟩ := hfetch 0 rfl
    have hcreator : creatorOf (endOf true earlyCancelRun) 0 = some 0 := rfl
    obtain rfl : 0 = leader := Option.some.inj (hcreator.symm.trans hcr)
    cases hs
    cases ho

end HeliosPermissions.CancelledJoiners
