import Mathlib.Tactic.SplitIfs
import HeliosPermissions.ClientWorld

/-!
# What one step of the client system can do

Every step is one of the transitions listed here, each with the facts of the
state before it. The later modules take their case splits from this list and
use the projection lemmas below it, never the step function itself.
-/

namespace HeliosPermissions.ClientWorld

open JsonValues CacheKeys CacheStore HeliosResolution

variable {Raw : Type}

/-- The possible moves, with what each of them finds and leaves. -/
inductive Transition (cfg : Config Raw) (w : World Raw) : Action → World Raw → Prop
  /-- A read is called and its GET issued. -/
  | readStarts (c : ClientId) (u t : String) (ask : Ask) :
    Transition cfg w (.read c u t ask)
      { w with reads := w.reads ++ [.start cfg w.clock c u t ask] }
  /-- The server deals with the command of a read. -/
  | readServed {i : ReadId} {r : ReadCall Raw} {cmd : Command Raw} {fate : Fate}
      {reply : Reply Raw} {store : Store Raw} (hr : w.reads[i]? = some r)
      (hport : r.port = .sent cmd)
      (hs : serve cfg.backend w.clock (.populate i) ⟨none, []⟩ w.store cmd fate =
        some (reply, store)) :
    Transition cfg w (.serveRead i fate)
      ({ w with store := store }.putRead i { r with port := .replied reply })
  /-- Helios deals with the request of a leader. -/
  | sampled {i : ReadId} {r : ReadCall Raw} {f : FutureId} (fate : HeliosFate)
      (hr : w.reads[i]? = some r) (hpc : r.pc = .heliosFetch f) (hn : r.sampled = none) :
    Transition cfg w (.sample i fate)
      (w.putRead i { r with
        sampled := some (w.clock, fate.outcome (w.membership r.userId r.tenantId)) })
  /-- A joiner is cancelled while the shared future is pending. -/
  | cancelsFuture {i : ReadId} {r : ReadCall Raw} {f : FutureId} (hr : w.reads[i]? = some r)
      (hpc : r.pc = .joined f) (hf : w.futureState f = some .pending) :
    Transition cfg w (.cancel i)
      ((w.settle f .cancelled).putRead i { r with cancelCalled := true })
  /-- A read that has ended is cancelled: nothing happens. -/
  | cancelIgnored {i : ReadId} {r : ReadCall Raw} (hr : w.reads[i]? = some r)
      (hpc : r.pc.isDone = true) : Transition cfg w (.cancel i) w
  /-- Any other read is cancelled: it is marked. -/
  | cancelMarked {i : ReadId} {r : ReadCall Raw} (hr : w.reads[i]? = some r)
      (hpc : r.pc.isDone = false)
      (hj : ∀ f, r.pc = .joined f → w.futureState f ≠ some .pending) :
    Transition cfg w (.cancel i)
      (w.putRead i { r with mustCancel := true, cancelCalled := true })
  /-- The cancellation reaches a read that leads no fetch. -/
  | thrown {i : ReadId} {r : ReadCall Raw} (hr : w.reads[i]? = some r)
      (hm : r.mustCancel = true) (hd : r.pc.isDone = false) (ho : r.pc.owned = none) :
    Transition cfg w (.resumeRead i) (w.finishRead i r (.error .cancelledError) r.pc.via)
  /-- The cancellation reaches a leader. -/
  | thrownLeader {i : ReadId} {r : ReadCall Raw} {f : FutureId} (hr : w.reads[i]? = some r)
      (hm : r.mustCancel = true) (ho : r.pc.owned = some f) :
    Transition cfg w (.resumeRead i) (w.abandon i r f .cancelledError)
  /-- The cached value cannot be decoded and `get` raises. -/
  | getRaises {i : ReadId} {r : ReadCall Raw} {reply : Reply Raw} {err : PyError}
      (hr : w.reads[i]? = some r) (hm : r.mustCancel = false) (hpc : r.pc = .cacheGet)
      (hport : r.port = .replied reply) (hd : decodeGet cfg.backend reply = .error err) :
    Transition cfg w (.resumeRead i) (w.finishRead i r (.error err) .cache)
  /-- Cache hit. -/
  | getHits {i : ReadId} {r : ReadCall Raw} {reply : Reply Raw} {perms : List Json}
      (hr : w.reads[i]? = some r) (hm : r.mustCancel = false) (hpc : r.pc = .cacheGet)
      (hport : r.port = .replied reply) (hd : decodeGet cfg.backend reply = .ok (some perms)) :
    Transition cfg w (.resumeRead i) (w.finishRead i r (.ok perms) .cache)
  /-- Cache miss with no fetch in flight: the read leads one. -/
  | leads {i : ReadId} {r : ReadCall Raw} {reply : Reply Raw} (hr : w.reads[i]? = some r)
      (hm : r.mustCancel = false) (hpc : r.pc = .cacheGet) (hport : r.port = .replied reply)
      (hd : decodeGet cfg.backend reply = .ok none)
      (hf : (w.inFlight r.client).get? r.lock = none) :
    Transition cfg w (.resumeRead i) (w.lead i r)
  /-- Cache miss with a pending fetch in flight: the read joins it. -/
  | joins {i : ReadId} {r : ReadCall Raw} {reply : Reply Raw} {f : FutureId}
      (hr : w.reads[i]? = some r) (hm : r.mustCancel = false) (hpc : r.pc = .cacheGet)
      (hport : r.port = .replied reply) (hd : decodeGet cfg.backend reply = .ok none)
      (hf : (w.inFlight r.client).get? r.lock = some f)
      (hs : w.futureState f = some .pending) :
    Transition cfg w (.resumeRead i) (w.putRead i { r with pc := .joined f })
  /-- Cache miss while the future in flight is already done: it is awaited
  without suspending. -/
  | joinsDone {i : ReadId} {r : ReadCall Raw} {reply : Reply Raw} {f : FutureId}
      {st : FutureState} {outcome : Outcome} (hr : w.reads[i]? = some r)
      (hm : r.mustCancel = false) (hpc : r.pc = .cacheGet) (hport : r.port = .replied reply)
      (hd : decodeGet cfg.backend reply = .ok none)
      (hf : (w.inFlight r.client).get? r.lock = some f) (hs : w.futureState f = some st)
      (ho : st.outcome = some outcome) :
    Transition cfg w (.resumeRead i) (w.finishRead i r outcome (.joined f))
  /-- The fetch resolved: the populate is issued. -/
  | populates {i : ReadId} {r : ReadCall Raw} {f : FutureId} {n : ℕ} {outcome : HttpOutcome}
      {perms : List Json} (hr : w.reads[i]? = some r) (hm : r.mustCancel = false)
      (hpc : r.pc = .heliosFetch f) (hsam : r.sampled = some (n, outcome))
      (he : fetchEnd r.userId r.tenantId outcome = .resolved perms) :
    Transition cfg w (.resumeRead i)
      (w.putRead i { r with
        pc := .cacheSet f perms
        port := .sent (populateCommand cfg r.userId r.tenantId perms) })
  /-- The fetch ended in `HeliosUnreachableError`. -/
  | unreachable {i : ReadId} {r : ReadCall Raw} {f : FutureId} {n : ℕ} {outcome : HttpOutcome}
      {message : String} (hr : w.reads[i]? = some r) (hm : r.mustCancel = false)
      (hpc : r.pc = .heliosFetch f) (hsam : r.sampled = some (n, outcome))
      (he : fetchEnd r.userId r.tenantId outcome = .unreachable message) :
    Transition cfg w (.resumeRead i)
      (w.conclude i r f (World.unreachableOutcome cfg r.client message))
  /-- The fetch ended in another exception. -/
  | escapes {i : ReadId} {r : ReadCall Raw} {f : FutureId} {n : ℕ} {outcome : HttpOutcome}
      {err : PyError} (hr : w.reads[i]? = some r) (hm : r.mustCancel = false)
      (hpc : r.pc = .heliosFetch f) (hsam : r.sampled = some (n, outcome))
      (he : fetchEnd r.userId r.tenantId outcome = .escaped err) :
    Transition cfg w (.resumeRead i) (w.abandon i r f err)
  /-- The populate has been answered. -/
  | populated {i : ReadId} {r : ReadCall Raw} {f : FutureId} {perms : List Json}
      {reply : Reply Raw} (hr : w.reads[i]? = some r) (hm : r.mustCancel = false)
      (hpc : r.pc = .cacheSet f perms) (hport : r.port = .replied reply) :
    Transition cfg w (.resumeRead i) (w.conclude i r f (.ok perms))
  /-- The shared future is done and a joiner goes on. -/
  | wakes {i : ReadId} {r : ReadCall Raw} {f : FutureId} {outcome : Outcome}
      (hr : w.reads[i]? = some r) (hm : r.mustCancel = false) (hpc : r.pc = .joined f)
      (ho : (w.futureState f).bind FutureState.outcome = some outcome) :
    Transition cfg w (.resumeRead i) (w.finishRead i r outcome (.joined f))
  /-- A mutating method is called. -/
  | mutationStarts (request : MutationRequest) :
    Transition cfg w (.mutate request)
      { w with mutations := w.mutations ++ [.start cfg w.clock request] }
  /-- The server deals with the command of a mutating call. -/
  | mutationServed {j : MutationId} {m : MutationCall Raw} {cmd : Command Raw} {fate : Fate}
      {reply : Reply Raw} {store : Store Raw} (hmu : w.mutations[j]? = some m)
      (hport : m.port = .sent cmd)
      (hs : serve cfg.backend w.clock (.writeThrough j) m.progress w.store cmd fate =
        some (reply, store)) :
    Transition cfg w (.serveMutation j fate)
      ({ w with store := store }.putMutation j (m.answered w.clock reply))
  /-- A mutating call goes on or ends. -/
  | mutationResumes {j : MutationId} {m m' : MutationCall Raw} {reply : Reply Raw}
      (hmu : w.mutations[j]? = some m) (hport : m.port = .replied reply)
      (ha : m.advance w.clock reply = some m') :
    Transition cfg w (.resumeMutation j) (w.putMutation j m')
  /-- The membership changes at Helios. -/
  | changes (u t : String) (body : Json) :
    Transition cfg w (.change u t body)
      { w with membership :=
          Function.update w.membership u (Function.update (w.membership u) t body) }
  /-- An entry expires. -/
  | expires {k : String} {entry : Entry Raw} (he : w.store.get? k = some entry)
      (hex : entry.ex.isSome = true) :
    Transition cfg w (.expire k) { w with store := w.store.pop k }

/-- A read that goes on makes one of the transitions. -/
theorem continueRead_transition {cfg : Config Raw} {w v : World Raw} {i : ReadId}
    {r : ReadCall Raw} (hr : w.reads[i]? = some r) (hm : r.mustCancel = false)
    (h : w.continueRead cfg i r = some v) : Transition cfg w (.resumeRead i) v := by
  unfold World.continueRead at h
  split at h
  next hpc =>
    split at h
    next => cases h
    next reply hport =>
      split at h
      next err hd => cases h; exact .getRaises hr hm hpc hport hd
      next perms hd => cases h; exact .getHits hr hm hpc hport hd
      next hd =>
        unfold World.afterMiss at h
        split at h
        next hf => cases h; exact .leads hr hm hpc hport hd hf
        next f hf =>
          split at h
          next => cases h
          next st hs =>
            split at h
            next ho =>
              cases h
              rw [FutureState.outcome_eq_none.mp ho] at hs
              exact .joins hr hm hpc hport hd hf hs
            next outcome ho => cases h; exact .joinsDone hr hm hpc hport hd hf hs ho
  next f hpc =>
    split at h
    next => cases h
    next outcome ho => cases h; exact .wakes hr hm hpc ho
  next f hpc =>
    split at h
    next => cases h
    next n outcome hsam =>
      cases h
      unfold World.afterFetch
      split
      next message he => exact .unreachable hr hm hpc hsam he
      next err he => exact .escapes hr hm hpc hsam he
      next perms he => exact .populates hr hm hpc hsam he
  next f perms hpc =>
    split at h
    next => cases h
    next reply hport => cases h; exact .populated hr hm hpc hport
  next => cases h

/-- A cancellation makes one of the transitions. -/
theorem cancelRead_transition {cfg : Config Raw} {w : World Raw} {i : ReadId}
    {r : ReadCall Raw} (hr : w.reads[i]? = some r) :
    Transition cfg w (.cancel i) (w.cancelRead i r) := by
  unfold World.cancelRead
  split
  next o via hpc => exact .cancelIgnored hr (by simp [hpc, ReadPc.isDone])
  next f hpc =>
    split
    next hf => exact .cancelsFuture hr hpc hf
    next hf =>
      refine .cancelMarked hr (by simp [hpc, ReadPc.isDone]) ?_
      intro f' hpc' hf'
      rw [hpc] at hpc'
      cases hpc'
      exact hf hf'
  next hdone hjoined =>
    refine .cancelMarked hr ?_ fun f hpc => absurd hpc (hjoined f)
    cases hpc : r.pc with
    | done o via => exact absurd hpc (hdone o via)
    | cacheGet => rfl
    | joined f => rfl
    | heliosFetch f => rfl
    | cacheSet f perms => rfl

/-- Every move is one of the transitions. -/
theorem move_transition {cfg : Config Raw} {w v : World Raw} {a : Action}
    (h : move cfg w a = some v) : Transition cfg w a v := by
  cases a with
  | read c u t ask => cases h; exact .readStarts c u t ask
  | mutate request => cases h; exact .mutationStarts request
  | serveRead i fate =>
    obtain ⟨r, hr, h⟩ := Option.bind_eq_some_iff.mp h
    split at h
    next => cases h
    next cmd hport =>
      obtain ⟨⟨reply, store⟩, hs, h⟩ := Option.bind_eq_some_iff.mp h
      cases h
      exact .readServed hr hport hs
  | serveMutation j fate =>
    obtain ⟨m, hmu, h⟩ := Option.bind_eq_some_iff.mp h
    split at h
    next => cases h
    next cmd hport =>
      obtain ⟨⟨reply, store⟩, hs, h⟩ := Option.bind_eq_some_iff.mp h
      cases h
      exact .mutationServed hmu hport hs
  | sample i fate =>
    obtain ⟨r, hr, h⟩ := Option.bind_eq_some_iff.mp h
    split at h
    next f hpc hn => cases h; exact .sampled fate hr hpc hn
    next => cases h
  | resumeRead i =>
    obtain ⟨r, hr, h⟩ := Option.bind_eq_some_iff.mp h
    split_ifs at h with hm
    · unfold World.throwCancelled at h
      split_ifs at h with hd
      have hd' : r.pc.isDone = false := Bool.eq_false_of_not_eq_true hd
      split at h
      next f ho => cases h; exact .thrownLeader hr hm ho
      next ho => cases h; exact .thrown hr hm hd' ho
    · exact continueRead_transition hr (Bool.eq_false_of_not_eq_true hm) h
  | resumeMutation j =>
    obtain ⟨m, hmu, h⟩ := Option.bind_eq_some_iff.mp h
    split at h
    next => cases h
    next reply hport =>
      obtain ⟨m', ha, h⟩ := Option.map_eq_some_iff.mp h
      cases h
      exact .mutationResumes hmu hport ha
  | cancel i =>
    obtain ⟨r, hr, h⟩ := Option.bind_eq_some_iff.mp h
    cases h
    exact cancelRead_transition hr
  | change u t body => cases h; exact .changes u t body
  | expire k =>
    obtain ⟨entry, he, h⟩ := Option.bind_eq_some_iff.mp h
    split_ifs at h with hex
    cases h
    exact .expires he hex

/-- The list is exact: every transition is a move. -/
theorem Transition.move_eq {cfg : Config Raw} {w v : World Raw} {a : Action}
    (h : Transition cfg w a v) : move cfg w a = some v := by
  cases h with
  | readStarts c u t ask => rfl
  | readServed hr hport hs => simp [move, hr, hport, hs]
  | sampled fate hr hpc hn => simp [move, hr, hpc, hn]
  | cancelsFuture hr hpc hf => simp [move, hr, World.cancelRead, hpc, hf]
  | cancelIgnored hr hpc =>
    unfold ReadPc.isDone at hpc
    split at hpc
    next o via hdone => simp [move, hr, World.cancelRead, hdone]
    next => cases hpc
  | cancelMarked hr hpc hj =>
    rename_i i r
    have hmarked : w.cancelRead i r =
        w.putRead i { r with mustCancel := true, cancelCalled := true } := by
      unfold World.cancelRead
      split
      next o via hdone => simp [hdone, ReadPc.isDone] at hpc
      next f hjoined =>
        split
        next hf => exact absurd hf (hj f hjoined)
        next => rfl
      next => rfl
    simp [move, hr, hmarked]
  | thrown hr hm hd ho => simp [move, hr, hm, World.throwCancelled, hd, ho]
  | thrownLeader hr hm ho =>
    rename_i i r f
    have hd := (ReadPc.of_owned ho).1
    simp [move, hr, hm, World.throwCancelled, hd, ho]
  | getRaises hr hm hpc hport hd => simp [move, hr, hm, World.continueRead, hpc, hport, hd]
  | getHits hr hm hpc hport hd => simp [move, hr, hm, World.continueRead, hpc, hport, hd]
  | leads hr hm hpc hport hd hf =>
    simp [move, hr, hm, World.continueRead, hpc, hport, hd, World.afterMiss, hf]
  | joins hr hm hpc hport hd hf hs =>
    simp [move, hr, hm, World.continueRead, hpc, hport, hd, World.afterMiss, hf, hs,
      FutureState.outcome]
  | joinsDone hr hm hpc hport hd hf hs ho =>
    simp [move, hr, hm, World.continueRead, hpc, hport, hd, World.afterMiss, hf, hs, ho]
  | populates hr hm hpc hsam he =>
    simp [move, hr, hm, World.continueRead, hpc, hsam, World.afterFetch, he]
  | unreachable hr hm hpc hsam he =>
    simp [move, hr, hm, World.continueRead, hpc, hsam, World.afterFetch, he]
  | escapes hr hm hpc hsam he =>
    simp [move, hr, hm, World.continueRead, hpc, hsam, World.afterFetch, he]
  | populated hr hm hpc hport => simp [move, hr, hm, World.continueRead, hpc, hport]
  | wakes hr hm hpc ho => simp [move, hr, hm, World.continueRead, hpc, ho]
  | mutationStarts request => rfl
  | mutationServed hmu hport hs => simp [move, hmu, hport, hs]
  | mutationResumes hmu hport ha => simp [move, hmu, hport, ha]
  | changes u t body => rfl
  | expires he hex => simp [move, he, hex]

/-- A step is a transition after which the clock advances. -/
theorem step_transition {cfg : Config Raw} {w w' : World Raw} {a : Action}
    (h : step cfg w a = some w') : ∃ v, Transition cfg w a v ∧ w' = v.tick := by
  obtain ⟨v, hv, rfl⟩ := Option.map_eq_some_iff.mp h
  exact ⟨v, move_transition hv, rfl⟩

/-- A transition gives a step. -/
theorem Transition.step_eq {cfg : Config Raw} {w v : World Raw} {a : Action}
    (h : Transition cfg w a v) : step cfg w a = some v.tick := by
  rw [step, h.move_eq]
  rfl

end HeliosPermissions.ClientWorld
