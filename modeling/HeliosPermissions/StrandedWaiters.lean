import HeliosPermissions.CallHistory

/-!
# Waiters whose leader has gone

The finally clause of a leader removes its entry from the table on every way out,
while the future is settled on two of them only: an exception that is not
`HeliosUnreachableError`, or a cancellation, leaves it pending. Waiters are
stranded exactly through such a step; without one, every future is settled
before its entry goes, and each waiter has a settled future or a running leader.
-/

namespace HeliosPermissions.StrandedWaiters

open JsonValues CacheKeys CacheStore HeliosResolution ClientWorld PartialRuns InFlightTable
open CallHistory

variable {Raw : Type}

/-- A future has a result, has an exception, or is cancelled. -/
def Settled (w : World Raw) (f : FutureId) : Prop :=
  ∃ st, w.futureState f = some st ∧ st ≠ .pending

/-- Every entry that a step removes from a table is of a settled future. -/
def RemovesSettled (w w' : World Raw) : Prop :=
  ∀ (c : ClientId) (k : String) (f : FutureId), (w.inFlight c).get? k = some f →
    (w'.inFlight c).get? k ≠ some f → Settled w' f

/-- Whoever waits for a future waits for a settled one, or for one whose leader is
still running and registered. -/
def NoStrandedWaiter (w : World Raw) : Prop :=
  ∀ (i : ReadId) (r : ReadCall Raw) (f : FutureId), w.reads[i]? = some r → r.pc = .joined f →
    Settled w f ∨ ∃ leader c k, creatorOf w f = some leader ∧ Holds w leader c k f ∧
      (w.inFlight c).get? k = some f

/-- The event loop is about to run a leader whose future is pending, with a
cancellation or with a fetch that ended in an exception that the client does not
handle. -/
def LeavesPending (w : World Raw) (a : Action) : Prop :=
  ∃ i r f, a = .resumeRead i ∧ w.reads[i]? = some r ∧ r.pc.owned = some f ∧
    w.futureState f = some .pending ∧
    (r.mustCancel = true ∨ ∃ n outcome err, r.pc = .heliosFetch f ∧
      r.sampled = some (n, outcome) ∧ fetchEnd r.userId r.tenantId outcome = .escaped err)

/-- A future is settled when it has an outcome. -/
theorem settled_iff {w : World Raw} {f : FutureId} :
    Settled w f ↔ ∃ o, (w.futureState f).bind FutureState.outcome = some o := by
  constructor
  · rintro ⟨st, hst, hne⟩
    cases ho : st.outcome with
    | none => exact absurd (FutureState.outcome_eq_none.mp ho) hne
    | some o => exact ⟨o, by rw [hst]; exact ho⟩
  · rintro ⟨o, ho⟩
    obtain ⟨st, hst, hout⟩ := Option.bind_eq_some_iff.mp ho
    refine ⟨st, hst, ?_⟩
    rintro rfl
    cases hout

/-- A settled future stays settled. -/
theorem Settled.step {cfg : Config Raw} {w w' : World Raw} {a : Action} {f : FutureId}
    (h : Settled w f) (hs : step cfg w a = some w') : Settled w' f := by
  obtain ⟨o, ho⟩ := settled_iff.mp h
  exact settled_iff.mpr ⟨o, outcome_kept hs ho⟩

/-- A holder that a step ends has settled its future, or leaves it pending. -/
theorem holder_ends {cfg : Config Raw} {w w' : World Raw} {a : Action} {i : ReadId}
    {r : ReadCall Raw} {f : FutureId} {outcome : Outcome} {via : Via}
    (hs : step cfg w a = some w') (ha : a = .resumeRead i) (hr : w.reads[i]? = some r)
    (ho : r.pc.owned = some f) (hex : ∃ st, w.futureState f = some st)
    (hend : ReadEnd cfg w w' r outcome via) : Settled w' f ∨ LeavesPending w a := by
  obtain ⟨st, hst⟩ := hex
  by_cases hpend : st = .pending
  · subst hpend
    rcases hend.at_owned ho with hm | ⟨o, hres, hsettles⟩ | ⟨n, outcome, err, hpc, hsam, he⟩
    · exact Or.inr ⟨i, r, f, ha, hr, ho, hst, Or.inl hm⟩
    · refine Or.inl (settled_iff.mpr ⟨o, ?_⟩)
      rw [hsettles hst]
      exact FutureState.outcome_ofOutcome o
    · exact Or.inr ⟨i, r, f, ha, hr, ho, hst, Or.inr ⟨n, outcome, err, hpc, hsam, he⟩⟩
  · -- a future that is not pending now was settled before this step
    exact Or.inl (Settled.step ⟨st, hst, hpend⟩ hs)

/-- A holder goes on holding, or has settled its future, or leaves it pending. -/
theorem holder_after {cfg : Config Raw} {w w' : World Raw} {a : Action} {i : ReadId}
    {c : ClientId} {k : String} {f : FutureId} (hs : step cfg w a = some w')
    (hown : Ownership w) (hi : Holds w i c k f) :
    Holds w' i c k f ∨ Settled w' f ∨ LeavesPending w a := by
  obtain ⟨fut, hfut, -⟩ := Option.map_eq_some_iff.mp (hown.created i c k f hi)
  have hex : ∃ st, w.futureState f = some st := ⟨fut.state, by simp [World.futureState, hfut]⟩
  obtain ⟨r, hr, hc, hl, ho⟩ := hi
  obtain ⟨r', hr', rfl | hmove⟩ := read_after hs hr
  · exact Or.inl ⟨r', hr', hc, hl, ho⟩
  · rcases hmove.at_owned ho with ho' | ⟨ha, outcome, via, hend⟩
    · exact Or.inl ⟨r', hr', hmove.same_call.1.trans hc, hmove.same_lock.trans hl, ho'⟩
    · exact Or.inr (holder_ends hs ha hr ho hex hend)

/-- Unless a leader leaves its future pending, a step removes settled entries only. -/
theorem removesSettled_of_step {cfg : Config Raw} {w w' : World Raw} {a : Action}
    (hown : Ownership w) (hs : step cfg w a = some w') (hq : ¬LeavesPending w a) :
    RemovesSettled w w' := by
  intro c k f hf hgone
  obtain ⟨i, hi, hended⟩ := hown.removed_by_holder (step_tableChange hs) hf hgone
  rcases holder_after hs hown hi with hhold | hset | hleave
  · exact absurd hhold (hended c k f)
  · exact hset
  · exact absurd hleave hq

/-- Unless a leader leaves its future pending, no waiter becomes stranded. -/
theorem noStrandedWaiter_step {cfg : Config Raw} {w w' : World Raw} {a : Action}
    (hown : Ownership w) (hs : step cfg w a = some w') (hq : ¬LeavesPending w a)
    (h : NoStrandedWaiter w) : NoStrandedWaiter w' := by
  have hown' : Ownership w' := hown.preserved (step_tableChange hs)
  have hheld : ∀ l c k f, Holds w l c k f → Settled w' f ∨ ∃ leader c k,
      creatorOf w' f = some leader ∧ Holds w' leader c k f ∧ (w'.inFlight c).get? k = some f := by
    intro l c k f hl
    rcases holder_after hs hown hl with hhold | hset | hleave
    · exact Or.inr ⟨l, c, k, hown'.created l c k f hhold, hhold, hown'.registered l c k f hhold⟩
    · exact Or.inl hset
    · exact absurd hleave hq
  have hwaits : ∀ (i : ReadId) (r : ReadCall Raw) (f : FutureId), w.reads[i]? = some r →
      r.pc = .joined f → Settled w' f ∨ ∃ leader c k, creatorOf w' f = some leader ∧
        Holds w' leader c k f ∧ (w'.inFlight c).get? k = some f := by
    intro i r f hr hpc
    rcases h i r f hr hpc with hset | ⟨l, c, k, -, hl, -⟩
    · exact Or.inl (hset.step hs)
    · exact hheld l c k f hl
  intro i r' f hr' hpc
  rcases read_before hs hr' with hold | ⟨c, u, t, ask, -, -, rfl⟩ | ⟨r, hr, hmove⟩
  · exact hwaits i r' f hold hpc
  · cases hpc
  · cases hmove with
    | served => exact hwaits i r f hr hpc
    | sampled fate hfetch => rw [hfetch] at hpc; cases hpc
    | marked => exact hwaits i r f hr hpc
    | leads => cases hpc
    | joins hm hfind hpend =>
      cases hpc
      obtain ⟨l, hl⟩ := hown.running _ _ _ hfind.listed
      exact hheld l _ _ _ hl
    | populates => cases hpc
    | ends => cases hpc

/-- A leader that leaves its future pending takes its entry out of the table all
the same. -/
theorem not_removesSettled {cfg : Config Raw} {w w' : World Raw} {a : Action}
    (hown : Ownership w) (hs : step cfg w a = some w') (hleave : LeavesPending w a) :
    ¬RemovesSettled w w' := by
  obtain ⟨i, r, f, rfl, hr, ho, hpend, hcause⟩ := hleave
  have habandon : ∃ err, w' = (w.abandon i r f err).tick := by
    rcases Bool.eq_false_or_eq_true r.mustCancel with hm | hm
    · have hthrown : Transition cfg w (.resumeRead i) (w.abandon i r f .cancelledError) :=
        .thrownLeader hr hm ho
      have hstep := hs.symm.trans hthrown.step_eq
      exact ⟨_, Option.some.inj hstep⟩
    · rcases hcause with hm' | ⟨n, outcome, err, hpc, hsam, he⟩
      · rw [hm] at hm'
        cases hm'
      · have hescaped : Transition cfg w (.resumeRead i) (w.abandon i r f err) :=
          .escapes hr hm hpc hsam he
        have hstep := hs.symm.trans hescaped.step_eq
        exact ⟨err, Option.some.inj hstep⟩
  obtain ⟨err, rfl⟩ := habandon
  have hreg := hown.registered i r.client r.lock f ⟨r, hr, rfl, rfl, ho⟩
  have hgone : ((w.abandon i r f err).tick.inFlight r.client).get? r.lock = none := by
    change ((Function.update w.inFlight r.client ((w.inFlight r.client).pop r.lock)) r.client).get?
      r.lock = none
    simp
  intro hremoves
  obtain ⟨st, hst, hne⟩ := hremoves r.client r.lock f hreg (by rw [hgone]; simp)
  have hsame : (w.abandon i r f err).tick.futureState f = w.futureState f := rfl
  rw [hsame, hpend] at hst
  exact hne (Option.some.inj hst).symm

/-- At the start nothing waits. -/
theorem init_noStrandedWaiter (content : OrderedDict String (Raw × Option ℕ))
    (membership : String → String → Json) :
    NoStrandedWaiter (World.init content membership) := by
  intro i r f hr
  cases hr

/-- Along a run, every removed entry is of a settled future and no waiter is ever
stranded, exactly when no step lets a leader leave a pending future, by a
cancellation or by an exception other than `HeliosUnreachableError`. -/
theorem no_stranded_waiter_iff (cfg : Config Raw) (content : OrderedDict String (Raw × Option ℕ))
    (membership : String → String → Json) (as : List Action) :
    Along (step cfg) (fun w _ w' => RemovesSettled w w' ∧ NoStrandedWaiter w')
      (.init content membership) as ↔
    Along (step cfg) (fun w a _ => ¬LeavesPending w a) (.init content membership) as := by
  have hown := init_ownership content membership
  constructor
  · refine Along.with_invariant Ownership ?_ hown
    intro w a w' ho hs hp
    exact ⟨ho.preserved (step_tableChange hs), fun hleave =>
      not_removesSettled ho hs hleave hp.1⟩
  · refine Along.with_invariant (fun w => Ownership w ∧ NoStrandedWaiter w) ?_
      ⟨hown, init_noStrandedWaiter content membership⟩
    intro w a w' ho hs hq
    have hstranded := noStrandedWaiter_step ho.1 hs hq ho.2
    exact ⟨⟨ho.1.preserved (step_tableChange hs), hstranded⟩,
      removesSettled_of_step ho.1 hs hq, hstranded⟩

/-- Helios answers the leader with a body that is no JSON while another read waits. -/
def undecodableRun : List Action :=
  joinedRun ++ [.sample 0 (.fault (.response 200 (.error .jsonDecodeError))), .resumeRead 0]

/-- The waiter of this run is stranded. -/
theorem waiter_stranded_undecodableRun :
    ¬Along (step (fixedConfig true))
      (fun w _ w' => RemovesSettled w w' ∧ NoStrandedWaiter w') fixedWorld undecodableRun := by
  intro h
  let before := endOf true (joinedRun ++
    [.sample 0 (.fault (.response 200 (.error .jsonDecodeError)))])
  have hrun : run (step (fixedConfig true)) fixedWorld (joinedRun ++
      [.sample 0 (.fault (.response 200 (.error .jsonDecodeError)))]) = some before := rfl
  have hlast := ((along_append_iff hrun).mp
    (show Along _ _ _ (_ ++ [Action.resumeRead 0]) from h)).2
  have hstranded := (hlast (endOf true undecodableRun) rfl).1.2
  have hpending : (endOf true undecodableRun).futureState 0 = some .pending := rfl
  have hcreator : creatorOf (endOf true undecodableRun) 0 = some 0 := rfl
  have hended : ((endOf true undecodableRun).reads[0]?).map (fun r => r.pc.owned) = some none := rfl
  rcases hstranded 1 _ 0 rfl rfl with ⟨st, hst, hne⟩ | ⟨leader, c, k, hcr, hleader, -⟩
  · rw [hpending] at hst
    exact hne (Option.some.inj hst).symm
  · obtain rfl : 0 = leader := Option.some.inj (hcreator.symm.trans hcr)
    obtain ⟨s, hs, -, -, ho⟩ := hleader
    rw [hs] at hended
    have hnone : s.pc.owned = none := Option.some.inj hended
    rw [hnone] at ho
    cases ho

end HeliosPermissions.StrandedWaiters
