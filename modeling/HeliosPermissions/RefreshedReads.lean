import HeliosPermissions.StaleEntries

/-!
# Reads after an invalidation that miss

An invalidation does not touch the in-flight table, so a read that begins after
it and misses may still join a fetch that Helios answered before it. That join
is the only way to an old list: a read that leads its own fetch is sampled after
it began, and a joined fetch that has not been sampled yet will be.
-/

namespace HeliosPermissions.RefreshedReads

open JsonValues CacheKeys CacheStore HeliosResolution ClientWorld PartialRuns InFlightTable
open CallHistory CallShapes SharedFetches StaleEntries

variable {Raw : Type}

/-- A mutating call has returned normally before this time. -/
def ReturnedBefore (time : ℕ) (m : MutationCall Raw) : Prop :=
  ∃ count e, m.pc = .done (.ok count) ∧ m.ended = some e ∧ e < time

/-- A list is what an HTTP outcome of the fetch of a read comes to: what it
resolves to, or the empty list of a denial. -/
def ComputedFrom (s : ReadCall Raw) (outcome : HttpOutcome) (perms : List Json) : Prop :=
  fetchEnd s.userId s.tenantId outcome = .resolved perms ∨
    perms = [] ∧ ∃ message, fetchEnd s.userId s.tenantId outcome = .unreachable message

/-- Every read that began after an invalidation of its pair had returned, and
missed, returned a list computed from a response that Helios sampled no earlier
than the invalidation was called. -/
def AnsweredAfresh (w : World Raw) : Prop :=
  ∀ (i : ReadId) (r : ReadCall Raw) (perms : List Json) (via : Via) (f : FutureId)
    (j : MutationId) (m : MutationCall Raw), w.reads[i]? = some r → r.pc = .done (.ok perms) via →
    via.future = some f → w.mutations[j]? = some m → ReturnedBefore r.began m →
    Covers m.request r.userId r.tenantId →
    ∃ s n outcome, LeaderOf w f r.client r.lock s ∧ s.sampled = some (n, outcome) ∧
      ComputedFrom s outcome perms ∧ m.began ≤ n

/-- A read that began after an invalidation of its pair had returned has missed
and finds a fetch in flight that Helios sampled before the invalidation was called. -/
def JoinsStale (cfg : Config Raw) (w : World Raw) (a : Action) : Prop :=
  ∃ i r f s n outcome, a = .resumeRead i ∧ w.reads[i]? = some r ∧ r.mustCancel = false ∧
    FindsFuture cfg w r f ∧ LeaderOf w f r.client r.lock s ∧ s.sampled = some (n, outcome) ∧
    ∃ (j : MutationId) (m : MutationCall Raw), w.mutations[j]? = some m ∧
      ReturnedBefore r.began m ∧ Covers m.request r.userId r.tenantId ∧ n < m.began

/-- The fetch behind a future is not older than any invalidation that the read had
seen return. -/
def NotOlder (w : World Raw) (r : ReadCall Raw) (f : FutureId) : Prop :=
  ∀ (j : MutationId) (m : MutationCall Raw) (s : ReadCall Raw) (n : ℕ) (outcome : HttpOutcome),
    w.mutations[j]? = some m → ReturnedBefore r.began m → Covers m.request r.userId r.tenantId →
    LeaderOf w f r.client r.lock s → s.sampled = some (n, outcome) → m.began ≤ n

/-- No joiner waits, or has waited, for a fetch that is too old for it. -/
def JoinersFresh (w : World Raw) : Prop :=
  ∀ (i : ReadId) (r : ReadCall Raw) (f : FutureId), w.reads[i]? = some r →
    (r.pc = .joined f ∨ ∃ o, r.pc = .done o (.joined f)) → NotOlder w r f

section steps

variable {cfg : Config Raw} {w w' : World Raw} {a : Action}

/-- A call that returned before some past time had returned by then. -/
theorem returned_before (hs : step cfg w a = some w') {j : MutationId} {m' : MutationCall Raw}
    {time : ℕ} (hm' : w'.mutations[j]? = some m') (hret : ReturnedBefore time m')
    (hpast : time ≤ w.clock) : ∃ m, w.mutations[j]? = some m ∧ m.request = m'.request ∧
      m.began = m'.began ∧ ReturnedBefore time m := by
  obtain ⟨count, e, hpc, hended, hlt⟩ := hret
  rcases mutation_before hs hm' with hm | ⟨request, -, -, rfl⟩ | ⟨m, hm, hmove⟩
  · exact ⟨m', hm, rfl, rfl, count, e, hpc, hended, hlt⟩
  · cases hended
  · have hcall := hmove.same_call
    refine ⟨m, hm, hcall.1.symm, hcall.2.symm, ?_⟩
    cases hmove with
    | served hport hserve => exact ⟨count, e, hpc, hended, hlt⟩
    | resumed hport ha =>
      rcases advance_ended ha with ⟨o, -, -, hnow⟩ | ⟨hrun, -, -⟩
      · -- it ended in this step, which is not in the past
        have htime : w.clock = e := Option.some.inj (hnow.symm.trans hended)
        omega
      · exact absurd hpc (hrun _)

/-- A sample that is there after a step was there before, or was taken in the step. -/
theorem sampled_before (hs : step cfg w a = some w') {l : ReadId} {s' : ReadCall Raw} {n : ℕ}
    {outcome : HttpOutcome} (hs' : w'.reads[l]? = some s')
    (hsam : s'.sampled = some (n, outcome)) :
    (∃ s, w.reads[l]? = some s ∧ s.sampled = some (n, outcome)) ∨ n = w.clock := by
  rcases read_before hs hs' with hold | ⟨c, u, t, ask, -, -, rfl⟩ | ⟨s, hr, hmove⟩
  · exact Or.inl ⟨s', hold, hsam⟩
  · cases hsam
  · cases hmove with
    | sampled fate hpc hn =>
      cases hsam
      exact Or.inr rfl
    | _ => exact Or.inl ⟨s, hr, hsam⟩

/-- A fetch that is fresh for a read stays fresh for it. -/
theorem NotOlder.later (hcon : Consistent cfg w) (hs : step cfg w a = some w') {i : ReadId}
    {r r' : ReadCall Raw} {f : FutureId} (hr : w.reads[i]? = some r)
    (hc : r'.client = r.client) (hu : r'.userId = r.userId) (ht : r'.tenantId = r.tenantId)
    (hb : r'.began = r.began) (hlead : ∃ s, LeaderOf w f r.client r.lock s)
    (h : NotOlder w r f) : NotOlder w' r' f := by
  have hlock : r'.lock = r.lock := by rw [ReadCall.lock, ReadCall.lock, hu, ht]
  have hbegan := (hcon.shaped.readStamps i r hr).began
  intro j m' s' n outcome hm' hret hcov hlead' hsam
  rw [hb] at hret
  rw [hu, ht] at hcov
  rw [hc, hlock] at hlead'
  obtain ⟨m, hm, hq, hmb, hret⟩ := returned_before hs hm' hret hbegan.le
  obtain ⟨leader', hcr', hs', hc', hk'⟩ := hlead'
  obtain ⟨s, leader, hcr, hsr, hsc, hsk⟩ := hlead
  have hsame := (step_extends hs).creators f leader hcr
  obtain rfl : leader = leader' := Option.some.inj (hsame.symm.trans hcr')
  rw [← hq] at hcov
  rw [← hmb]
  rcases sampled_before hs hs' hsam with ⟨s₀, hs₀, hsam₀⟩ | hnow
  · obtain rfl : s = s₀ := Option.some.inj (hsr.symm.trans hs₀)
    exact h j m s n outcome hm hret hcov ⟨leader, hcr, hsr, hsc, hsk⟩ hsam₀
  · have hmbegan := (hcon.shaped.mutationStamps j m hm).began
    omega

/-- Unless a read joins a stale fetch, what the joiners wait for stays fresh. -/
theorem joinersFresh_step (hcon : Consistent cfg w) (h : JoinersFresh w)
    (hs : step cfg w a = some w') (hq : ¬JoinsStale cfg w a) : JoinersFresh w' := by
  have hkeep : ∀ (i : ReadId) (r r' : ReadCall Raw) (f : FutureId), w.reads[i]? = some r →
      r'.client = r.client → r'.userId = r.userId → r'.tenantId = r.tenantId →
      r'.began = r.began → (r.pc = .joined f ∨ ∃ o, r.pc = .done o (.joined f)) →
      NotOlder w' r' f := by
    intro i r r' f hr hc hu ht hb hpc
    have hlead : ∃ s, LeaderOf w f r.client r.lock s := by
      rcases hpc with hpc | ⟨o, hpc⟩
      · exact hcon.shared.waiting i r f hr hpc
      · obtain ⟨s, hlead, -⟩ := hcon.shared.ended i r f o _ hr hpc rfl
        exact ⟨s, hlead⟩
    exact (h i r f hr hpc).later hcon hs hr hc hu ht hb hlead
  have hfinds : ∀ (i : ReadId) (r r' : ReadCall Raw) (f : FutureId), a = .resumeRead i →
      w.reads[i]? = some r → r'.client = r.client → r'.userId = r.userId →
      r'.tenantId = r.tenantId → r'.began = r.began → r.mustCancel = false →
      FindsFuture cfg w r f → NotOlder w' r' f := by
    intro i r r' f ha hr hc hu ht hb hm hfind
    have hfresh : NotOlder w r f := by
      intro j m s n outcome hmu hret hcov hlead hsam
      by_contra hlt
      exact hq ⟨i, r, f, s, n, outcome, ha, hr, hm, hfind, hlead, hsam, j, m, hmu, hret, hcov,
        by omega⟩
    exact hfresh.later hcon hs hr hc hu ht hb (leaderOf_finds hcon.ownership hfind)
  intro i r' f hr' hpc
  rcases read_before hs hr' with hold | ⟨c, u, t, ask, -, -, rfl⟩ | ⟨r, hr, hmove⟩
  · exact hkeep i r' r' f hold rfl rfl rfl rfl hpc
  · rcases hpc with hpc | ⟨o, hpc⟩
    · cases hpc
    · cases hpc
  · obtain ⟨hc, hu, ht, -, hb⟩ := hmove.same_call
    cases hmove with
    | served => exact hkeep i r _ f hr hc hu ht hb hpc
    | sampled => exact hkeep i r _ f hr hc hu ht hb hpc
    | marked => exact hkeep i r _ f hr hc hu ht hb hpc
    | leads =>
      rcases hpc with hpc | ⟨o, hpc⟩
      · cases hpc
      · cases hpc
    | joins hm hfind =>
      rcases hpc with hpc | ⟨o, hpc⟩
      · cases hpc
        exact hfinds i r _ _ rfl hr hc hu ht hb hm hfind
      · cases hpc
    | populates =>
      rcases hpc with hpc | ⟨o, hpc⟩
      · cases hpc
      · cases hpc
    | @ends outcome via hend =>
      have hvia : via = .joined f := by
        rcases hpc with hpc | ⟨o, hpc⟩
        · cases hpc
        · cases hpc
          rfl
      subst hvia
      rcases hend.of_joined with hjoined | ⟨hm, hfind⟩
      · exact hkeep i r _ f hr hc hu ht hb (Or.inl hjoined)
      · exact hfinds i r _ f rfl hr hc hu ht hb hm hfind

end steps

/-- With fresh joins every read that missed is answered afresh. -/
theorem JoinersFresh.answeredAfresh {cfg : Config Raw} {w : World Raw} (hcon : Consistent cfg w)
    (h : JoinersFresh w) : AnsweredAfresh w := by
  intro i r perms via f j m hr hpc hvia hm hret hcov
  obtain ⟨s, hlead, hends⟩ := hcon.shared.ended i r f (.ok perms) via hr hpc hvia
  have hfetch : fetchOutcome cfg s = some (.ok perms) := by
    rcases hends with hfetch | herr | herr
    · exact hfetch
    · cases herr
    · cases herr
  have hcomputed : ∃ n outcome, s.sampled = some (n, outcome) ∧ ComputedFrom s outcome perms := by
    rcases fetchOutcome_ok hfetch with
      ⟨n, outcome, hsam, he⟩ | ⟨hnil, n, outcome, message, hsam, he, -⟩
    · exact ⟨n, outcome, hsam, Or.inl he⟩
    · exact ⟨n, outcome, hsam, Or.inr ⟨hnil, message, he⟩⟩
  obtain ⟨n, outcome, hsam, hcomp⟩ := hcomputed
  refine ⟨s, n, outcome, hlead, hsam, hcomp, ?_⟩
  cases via with
  | cache => cases hvia
  | joined g =>
    cases hvia
    exact h i r f hr (Or.inr ⟨_, hpc⟩) j m s n outcome hm hret hcov hlead hsam
  | led g =>
    cases hvia
    -- its own fetch: sampled after it began, so after the invalidation
    obtain ⟨leader, hcr, hs, -, -⟩ := hlead
    have hown := hcon.shared.own i r f _ hr hpc
    obtain rfl : leader = i := Option.some.inj (hcr.symm.trans hown)
    obtain rfl : s = r := Option.some.inj (hs.symm.trans hr)
    obtain ⟨count, e, -, hended, hlt⟩ := hret
    have hafter := ((hcon.shaped.readStamps leader s hr).sampled n outcome hsam).1
    have hmended := ((hcon.shaped.mutationStamps j m hm).ended e hended).1
    omega

/-- Reads after an invalidation are answered afresh, in every run in which no read
joins a fetch that is older than an invalidation of its pair which had returned
before the read began. -/
theorem answered_afresh_of_fresh_joins {cfg : Config Raw}
    {content : OrderedDict String (Raw × Option ℕ)} {membership : String → String → Json}
    {as : List Action} {w : World Raw}
    (hrun : run (step cfg) (.init content membership) as = some w)
    (hsteps : Along (step cfg) (fun v a _ => ¬JoinsStale cfg v a) (.init content membership) as) :
    AnsweredAfresh w := by
  have hinit : JoinersFresh (World.init content membership) := by
    intro i r f hr
    cases hr
  have hinv := run_invariant (fun v => Consistent cfg v ∧ JoinersFresh v)
    (fun v a v' hv hs hq => ⟨hv.1.preserved hs, joinersFresh_step hv.1 hv.2 hs hq⟩) hrun hsteps
    ⟨init_consistent cfg content membership, hinit⟩
  exact hinv.2.answeredAfresh hinv.1

/-- A fetch without an older sample is joined afresh. -/
theorem not_joinsStale_of_samplesFresh {cfg : Config Raw} {w : World Raw} {a : Action}
    (h : samplesFresh w = true) : ¬JoinsStale cfg w a := by
  rintro ⟨i, r, f, s, n, outcome, -, -, -, -, ⟨leader, -, hs, -⟩, hsam, j, m, hm, -, -, hlt⟩
  exact absurd (began_le_of_samplesFresh h hs hsam hm) (Nat.not_le_of_lt hlt)

/-- A pair is invalidated, then read cold by two calls, and the second joins the fetch of the
first after Helios has answered it. -/
def coldAfterRun : List Action :=
  [.mutate (.invalidate "user-1" (some "tenant-1")), .serveMutation 0 .executes,
    .resumeMutation 0, .read 0 "user-1" "tenant-1" .getUserPermissions,
    .read 0 "user-1" "tenant-1" .getUserPermissions, .serveRead 0 .executes,
    .serveRead 1 .executes, .resumeRead 0, .sample 0 .answers, .resumeRead 1, .resumeRead 0,
    .serveRead 0 .executes, .resumeRead 0, .resumeRead 1]

/-- Both are answered afresh. -/
theorem answered_afresh_coldAfterRun : AnsweredAfresh (endOf true coldAfterRun) := by
  have hfresh : Along (step (fixedConfig true)) (fun v _ _ => samplesFresh v = true) fixedWorld
      coldAfterRun := by decide
  have hsteps : Along (step (fixedConfig true))
      (fun v a _ => ¬JoinsStale (fixedConfig true) v a) fixedWorld coldAfterRun :=
    hfresh.imp fun _ _ _ h => not_joinsStale_of_samplesFresh h
  exact answered_afresh_of_fresh_joins (run_endOf rfl) hsteps

/-- Helios has answered read 0 when the membership ends and the pair is
invalidated; read 1 begins after that, misses and joins read 0. -/
def staleJoinRun : List Action :=
  [.read 0 "user-1" "tenant-1" .getUserPermissions, .serveRead 0 .executes, .resumeRead 0,
    .sample 0 .answers, .change "user-1" "tenant-1" notMemberBody,
    .mutate (.invalidate "user-1" (some "tenant-1")), .serveMutation 0 .executes,
    .resumeMutation 0, .read 0 "user-1" "tenant-1" .getUserPermissions, .serveRead 1 .executes,
    .resumeRead 1, .resumeRead 0, .serveRead 0 .executes, .resumeRead 0, .resumeRead 1]

/-- Read 1 returns the revoked list. -/
theorem stale_answer_staleJoinRun :
    Reachable (fixedConfig true) (endOf true staleJoinRun) ∧
      ¬AnsweredAfresh (endOf true staleJoinRun) := by
  refine ⟨reachable_endOf rfl, ?_⟩
  intro h
  have hcreator : creatorOf (endOf true staleJoinRun) 0 = some 0 := rfl
  have hsample : ((endOf true staleJoinRun).reads[0]?).map (fun r => r.sampled.map Prod.fst) =
      some (some 4) := rfl
  obtain ⟨m, hm, hret, hcov, hbegan⟩ : ∃ m, (endOf true staleJoinRun).mutations[0]? = some m ∧
      ReturnedBefore 9 m ∧ Covers m.request "user-1" "tenant-1" ∧ m.began = 6 :=
    ⟨_, rfl, ⟨_, _, rfl, rfl, by decide⟩, by exact ⟨rfl, rfl⟩, rfl⟩
  obtain ⟨s, n, outcome, ⟨leader, hcr, hs, -⟩, hsam, -, hle⟩ :=
    h 1 _ _ _ 0 0 m rfl rfl rfl hm hret hcov
  obtain rfl : 0 = leader := Option.some.inj (hcreator.symm.trans hcr)
  rw [hs, Option.map_some, hsam] at hsample
  have hn : n = 4 := Option.some.inj (Option.some.inj hsample)
  omega

end HeliosPermissions.RefreshedReads
