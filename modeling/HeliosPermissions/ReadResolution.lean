import HeliosPermissions.SharedFetches

/-!
# How a read resolves, as one function

`_resolve_perms` decides by the reply of its own GET and by the in-flight table
at the moment it resumes; the rest is what the future it joined, or its own
fetch, comes to. A read of the client system that runs undisturbed to its end
returns what this function says.
-/

namespace HeliosPermissions.ReadResolution

open JsonValues CacheKeys CacheStore HeliosResolution ClientWorld PartialRuns InFlightTable
open CallHistory CallShapes SharedFetches

variable {Raw : Type}

/-- `_resolve_perms`: what the cache gave, what the futures in flight come to, and
what a fetch of its own comes to. -/
def resolvePerms (inFlight : OrderedDict String FutureId) (awaited : FutureId → Outcome)
    (fetched : Outcome) (userId tenantId : String) :
    Except PyError (Option (List Json)) → Outcome
  | .error err => .error err
  | .ok (some perms) => .ok perms
  | .ok none =>
    match inFlight.get? (lockKey userId tenantId) with
    | some future => awaited future
    | none => fetched

/-- What awaiting a future gives in a world; a pending one gives nothing yet. -/
def awaitedIn (w : World Raw) (f : FutureId) : Outcome :=
  ((w.futureState f).bind FutureState.outcome).getD (.error .cancelledError)

/-- A read that joined a future waits for it, or has ended with its outcome unless
it was cancelled. -/
def JoinedTo (i : ReadId) (f : FutureId) (w : World Raw) : Prop :=
  ∃ r, w.reads[i]? = some r ∧ (r.mustCancel = true → r.cancelCalled = true) ∧
    (r.pc = .joined f ∨ ∃ o, r.pc = .done o (.joined f) ∧
      (r.cancelCalled = true ∨ (w.futureState f).bind FutureState.outcome = some o))

section steps

variable {cfg : Config Raw} {w w' : World Raw} {a : Action}

/-- A joiner stays with its future. -/
theorem JoinedTo.preserved {i : ReadId} {f : FutureId} (h : JoinedTo i f w)
    (hs : step cfg w a = some w') : JoinedTo i f w' := by
  obtain ⟨r, hr, hmark, hplace⟩ := h
  obtain ⟨r', hr', rfl | hmove⟩ := read_after hs hr
  · refine ⟨r', hr', hmark, ?_⟩
    rcases hplace with hpc | ⟨o, hpc, hend⟩
    · exact Or.inl hpc
    · exact Or.inr ⟨o, hpc, hend.imp_right (outcome_kept hs)⟩
  · refine ⟨r', hr', hmove.marked_called hmark, ?_⟩
    have hcalled : r.cancelCalled = true → r'.cancelCalled = true := hmove.called_kept
    rcases hplace with hpc | ⟨o, hpc, hend⟩
    · rcases hmove.at_joined hpc with hstays | ⟨outcome, hdone, hm | hout⟩
      · exact Or.inl hstays
      · exact Or.inr ⟨outcome, hdone, Or.inl (hcalled (hmark hm))⟩
      · exact Or.inr ⟨outcome, hdone, Or.inr (outcome_kept hs hout)⟩
    · exact Or.inr ⟨o, (hmove.of_done hpc).1, hend.imp hcalled (outcome_kept hs)⟩

/-- A miss with a future in flight joins it. -/
theorem joinedTo_of_miss {i : ReadId} {r : ReadCall Raw} {reply : Reply Raw} {f : FutureId}
    (hr : w.reads[i]? = some r) (hm : r.mustCancel = false) (hpc : r.pc = .cacheGet)
    (hport : r.port = .replied reply) (hd : decodeGet cfg.backend reply = .ok none)
    (hf : (w.inFlight r.client).get? r.lock = some f)
    (hs : step cfg w (.resumeRead i) = some w') : JoinedTo i f w' := by
  have hmark : r.mustCancel = true → r.cancelCalled = true := by
    rw [hm]
    exact Bool.noConfusion
  obtain ⟨v, hv, rfl⟩ := step_transition hs
  have hmove : World.afterMiss w i r = some v := by
    have hmove := hv.move_eq
    simpa [move, hr, hm, World.continueRead, hpc, hport, hd] using hmove
  unfold World.afterMiss at hmove
  rw [hf] at hmove
  dsimp only at hmove
  split at hmove
  next => cases hmove
  next st hst =>
    split at hmove
    next =>
      cases hmove
      exact ⟨_, IndexedTables.get_set_self hr, hmark, Or.inl rfl⟩
    next outcome hout =>
      cases hmove
      refine ⟨_, IndexedTables.get_set_self hr, hmark, Or.inr ⟨outcome, rfl, Or.inr ?_⟩⟩
      change (w.futureState f).bind FutureState.outcome = some outcome
      rw [hst]
      exact hout

end steps

/-- A read resumes after its GET, is not cancelled, and ends: its outcome is what
`_resolve_perms` makes of the reply, of the table as it was when the read resumed,
of the future it joined, and of its own fetch if it led one. -/
theorem read_resolves {cfg : Config Raw} {w v : World Raw} {i : ReadId} {r r' : ReadCall Raw}
    {reply : Reply Raw} {o : Outcome} {via : Via} {as : List Action}
    (hr : w.reads[i]? = some r) (hm : r.mustCancel = false) (hpc : r.pc = .cacheGet)
    (hport : r.port = .replied reply)
    (hrun : run (step cfg) w (.resumeRead i :: as) = some v) (hr' : v.reads[i]? = some r')
    (hdone : r'.pc = .done o via) (hcalled : r'.cancelCalled = false) :
    o = resolvePerms (w.inFlight r.client) (awaitedIn v) o r.userId r.tenantId
      (decodeGet cfg.backend reply) := by
  obtain ⟨w₁, hs, hrest⟩ := run_cons_iff.mp hrun
  -- a read that ends in the first step stays as it ended
  have hended : ∀ o', Transition cfg w (.resumeRead i) (w.finishRead i r o' .cache) → o = o' := by
    intro o' ht
    have hafter := Option.some.inj (hs.symm.trans ht.step_eq)
    have hrow : w₁.reads[i]? = some { r with pc := .done o' .cache, ended := some w.clock } := by
      rw [hafter]
      exact IndexedTables.get_set_self hr
    obtain ⟨r'', hr'', -, -, -, -, -, -, hstays⟩ := (run_extends hrest).reads i _ hrow
    obtain rfl : r'' = r' := Option.some.inj (hr''.symm.trans hr')
    have hlast := (hstays o' .cache rfl).1
    rw [hdone] at hlast
    cases hlast
    rfl
  unfold resolvePerms
  cases hd : decodeGet cfg.backend reply with
  | error err => exact hended _ (.getRaises hr hm hpc hport hd)
  | ok cached =>
    cases cached with
    | some perms => exact hended _ (.getHits hr hm hpc hport hd)
    | none =>
      cases hf : (w.inFlight r.client).get? (lockKey r.userId r.tenantId) with
      | none => rfl
      | some f =>
        have hjoin : JoinedTo i f w₁ := joinedTo_of_miss hr hm hpc hport hd hf hs
        obtain ⟨s, hsr, -, hplace⟩ := run_preserves (JoinedTo i f)
          (fun _ _ _ hx hx' => hx.preserved hx') hrest hjoin
        obtain rfl : s = r' := Option.some.inj (hsr.symm.trans hr')
        rcases hplace with hwait | ⟨o', hpc', hcancelled | hout⟩
        · rw [hdone] at hwait
          cases hwait
        · rw [hcalled] at hcancelled
          cases hcancelled
        · rw [hdone] at hpc'
          cases hpc'
          simp [awaitedIn, hout]

end HeliosPermissions.ReadResolution
