import HeliosPermissions.InFlightTable

/-!
# What one step does to one call

A step starts at most one call and changes at most one. The changes of a single
read and of a single mutating call are listed here, apart from what happens to
the rest of the world, and with them the order in which worlds grow: calls keep
their arguments and stamps, a sample once taken stays, and what has ended stays
as it ended.
-/

namespace HeliosPermissions.CallHistory

open JsonValues CacheKeys CacheStore HeliosResolution ClientWorld IndexedTables PartialRuns
open InFlightTable

variable {Raw : Type}

/-- What the fetch of a leader comes to, at the point where its future is settled. -/
inductive FetchResult (cfg : Config Raw) (r : ReadCall Raw) (f : FutureId) : Outcome → Prop
  /-- Helios was unreachable. -/
  | unreachable {n : ℕ} {outcome : HttpOutcome} {message : String} (hpc : r.pc = .heliosFetch f)
      (hsam : r.sampled = some (n, outcome))
      (he : fetchEnd r.userId r.tenantId outcome = .unreachable message) :
      FetchResult cfg r f (World.unreachableOutcome cfg r.client message)
  /-- The list was fetched and the populate has been answered. -/
  | populated {perms : List Json} {reply : Reply Raw} (hpc : r.pc = .cacheSet f perms)
      (hport : r.port = .replied reply) : FetchResult cfg r f (.ok perms)

/-- A read has missed and finds a future in the table. -/
structure FindsFuture (cfg : Config Raw) (w : World Raw) (r : ReadCall Raw) (f : FutureId) :
    Prop where
  /-- It waits for its GET. -/
  hpc : r.pc = .cacheGet
  /-- The reply is a miss. -/
  missed : ∃ reply, r.port = .replied reply ∧ decodeGet cfg.backend reply = .ok none
  /-- The table of its client lists the future under its lock. -/
  listed : (w.inFlight r.client).get? r.lock = some f

/-- The ways in which a read ends in a step from one world to another. -/
inductive ReadEnd (cfg : Config Raw) (w v : World Raw) (r : ReadCall Raw) :
    Outcome → Via → Prop
  /-- The cancellation reaches it. -/
  | cancelled (hm : r.mustCancel = true) (hd : r.pc.isDone = false) :
      ReadEnd cfg w v r (.error .cancelledError) r.pc.via
  /-- `get` raises. -/
  | getRaises {reply : Reply Raw} {err : PyError} (hpc : r.pc = .cacheGet)
      (hport : r.port = .replied reply) (hd : decodeGet cfg.backend reply = .error err) :
      ReadEnd cfg w v r (.error err) .cache
  /-- Cache hit. -/
  | getHits {reply : Reply Raw} {perms : List Json} (hpc : r.pc = .cacheGet)
      (hport : r.port = .replied reply) (hd : decodeGet cfg.backend reply = .ok (some perms)) :
      ReadEnd cfg w v r (.ok perms) .cache
  /-- The shared future is done. -/
  | awaited {f : FutureId} {outcome : Outcome} (hm : r.mustCancel = false)
      (hf : r.pc = .joined f ∨ FindsFuture cfg w r f)
      (ho : (w.futureState f).bind FutureState.outcome = some outcome) :
      ReadEnd cfg w v r outcome (.joined f)
  /-- It settles its own future. -/
  | settles {f : FutureId} {outcome : Outcome} (hm : r.mustCancel = false)
      (hres : FetchResult cfg r f outcome) (hf : w.futureState f = some .pending)
      (hv : v.futureState f = some (.ofOutcome outcome)) : ReadEnd cfg w v r outcome (.led f)
  /-- Its own future is done already. -/
  | settledBefore {f : FutureId} {outcome : Outcome} (hm : r.mustCancel = false)
      (hres : FetchResult cfg r f outcome) (hf : w.futureState f ≠ some .pending) :
      ReadEnd cfg w v r (.error .invalidStateError) (.led f)
  /-- The fetch raises something else. -/
  | escapes {f : FutureId} {n : ℕ} {outcome : HttpOutcome} {err : PyError}
      (hm : r.mustCancel = false) (hpc : r.pc = .heliosFetch f)
      (hsam : r.sampled = some (n, outcome))
      (he : fetchEnd r.userId r.tenantId outcome = .escaped err) :
      ReadEnd cfg w v r (.error err) (.led f)

/-- What a step can make of a read. -/
inductive ReadMove (cfg : Config Raw) (w v : World Raw) (i : ReadId) (r : ReadCall Raw) :
    Action → ReadCall Raw → Prop
  | served {cmd : Command Raw} {fate : Fate} {reply : Reply Raw} {store : Store Raw}
      (hport : r.port = .sent cmd)
      (hs : serve cfg.backend w.clock (.populate i) ⟨none, []⟩ w.store cmd fate =
        some (reply, store)) :
      ReadMove cfg w v i r (.serveRead i fate) { r with port := .replied reply }
  | sampled {f : FutureId} (fate : HeliosFate) (hpc : r.pc = .heliosFetch f)
      (hn : r.sampled = none) :
      ReadMove cfg w v i r (.sample i fate)
        { r with sampled := some (w.clock, fate.outcome (w.membership r.userId r.tenantId)) }
  | marked (mustCancel : Bool) (hd : r.pc.isDone = false)
      (hb : mustCancel = true ∨ ∃ f, r.pc = .joined f) :
      ReadMove cfg w v i r (.cancel i) { r with mustCancel := mustCancel, cancelCalled := true }
  | leads {reply : Reply Raw} (hpc : r.pc = .cacheGet) (hport : r.port = .replied reply)
      (hd : decodeGet cfg.backend reply = .ok none)
      (hf : (w.inFlight r.client).get? r.lock = none) (hm : r.mustCancel = false) :
      ReadMove cfg w v i r (.resumeRead i) { r with pc := .heliosFetch w.futures.length }
  | joins {f : FutureId} (hm : r.mustCancel = false) (hfind : FindsFuture cfg w r f)
      (hs : w.futureState f = some .pending) :
      ReadMove cfg w v i r (.resumeRead i) { r with pc := .joined f }
  | populates {f : FutureId} {n : ℕ} {outcome : HttpOutcome} {perms : List Json}
      (hpc : r.pc = .heliosFetch f) (hsam : r.sampled = some (n, outcome))
      (he : fetchEnd r.userId r.tenantId outcome = .resolved perms) (hm : r.mustCancel = false) :
      ReadMove cfg w v i r (.resumeRead i) { r with
        pc := .cacheSet f perms
        port := .sent (populateCommand cfg r.userId r.tenantId perms) }
  | ends {outcome : Outcome} {via : Via} (hend : ReadEnd cfg w v r outcome via) :
      ReadMove cfg w v i r (.resumeRead i)
        { r with pc := .done outcome via, ended := some w.clock }

/-- What a step can make of a mutating call. -/
inductive MutationMove (cfg : Config Raw) (w : World Raw) (j : MutationId)
    (m : MutationCall Raw) : Action → MutationCall Raw → Prop
  | served {cmd : Command Raw} {fate : Fate} {reply : Reply Raw} {store : Store Raw}
      (hport : m.port = .sent cmd)
      (hs : serve cfg.backend w.clock (.writeThrough j) m.progress w.store cmd fate =
        some (reply, store)) :
      MutationMove cfg w j m (.serveMutation j fate) (m.answered w.clock reply)
  | resumed {reply : Reply Raw} {m' : MutationCall Raw} (hport : m.port = .replied reply)
      (ha : m.advance w.clock reply = some m') : MutationMove cfg w j m (.resumeMutation j) m'

/-- The state of a future after another one or the same one was settled. -/
theorem futureState_settle (w : World Raw) (f g : FutureId) (st : FutureState) :
    (w.settle f st).futureState g =
      if f = g then (w.futureState g).map fun _ => st else w.futureState g := by
  unfold World.futureState World.settle
  rw [List.getElem?_modify]
  by_cases hf : f = g
  · subst hf
    cases w.futures[f]? <;> simp
  · cases w.futures[g]? <;> simp [hf]

/-- A leader that concludes ends in one of the two ways. -/
theorem conclude_readEnd (cfg : Config Raw) {w : World Raw} {i : ReadId} {r : ReadCall Raw}
    {f : FutureId} {outcome : Outcome} (hm : r.mustCancel = false)
    (hres : FetchResult cfg r f outcome) :
    ∃ outcome', ReadEnd cfg w (w.conclude i r f outcome).tick r outcome' (.led f) ∧
      (w.conclude i r f outcome).reads =
        w.reads.set i { r with pc := .done outcome' (.led f), ended := some w.clock } := by
  rcases conclude_cases w i r f outcome with ⟨hf, h⟩ | ⟨hf, h⟩
  · have hset : (w.settle f (.ofOutcome outcome)).futureState f = some (.ofOutcome outcome) := by
      rw [futureState_settle, if_pos rfl, hf]
      rfl
    have hafter : (w.conclude i r f outcome).tick.futureState f = some (.ofOutcome outcome) := by
      rw [h]
      exact hset
    exact ⟨outcome, .settles hm hres hf hafter, by rw [h]; rfl⟩
  · exact ⟨_, .settledBefore hm hres hf, by rw [h]; rfl⟩

/-- Which reads a transition has in its table: those from before, one of them
perhaps moved on, and perhaps a new one. -/
inductive ReadsChange (cfg : Config Raw) (w v : World Raw) :
    Action → List (ReadCall Raw) → Prop
  | keeps (a : Action) : ReadsChange cfg w v a w.reads
  | starts (c : ClientId) (u t : String) (ask : Ask) :
      ReadsChange cfg w v (.read c u t ask) (w.reads ++ [.start cfg w.clock c u t ask])
  | moves {a : Action} {i : ReadId} {r r' : ReadCall Raw} (hr : w.reads[i]? = some r)
      (hmove : ReadMove cfg w v i r a r') : ReadsChange cfg w v a (w.reads.set i r')

/-- A transition moves, starts or keeps each read. -/
theorem transition_readsChange {cfg : Config Raw} {w v : World Raw} {a : Action}
    (h : Transition cfg w a v) : ReadsChange cfg w v.tick a v.reads := by
  cases h with
  | readStarts c u t ask => exact .starts c u t ask
  | readServed hr hport hs => exact .moves hr (.served hport hs)
  | sampled fate hr hpc hn => exact .moves hr (.sampled fate hpc hn)
  | @cancelsFuture i r f hr hpc hf =>
    exact .moves hr (.marked r.mustCancel (by rw [hpc]; rfl) (Or.inr ⟨f, hpc⟩))
  | cancelIgnored hr hpc => exact .keeps _
  | cancelMarked hr hpc hj => exact .moves hr (.marked true hpc (Or.inl rfl))
  | thrown hr hm hd ho => exact .moves hr (.ends (.cancelled hm hd))
  | @thrownLeader i r f hr hm ho =>
    have hvia := ReadPc.of_owned ho
    have hend : ∀ v, ReadEnd cfg w v r (.error .cancelledError) (.led f) := by
      intro v
      have hthrown : ReadEnd cfg w v r (.error .cancelledError) r.pc.via := .cancelled hm hvia.1
      rwa [hvia.2] at hthrown
    exact .moves hr (.ends (hend _))
  | getRaises hr hm hpc hport hd => exact .moves hr (.ends (.getRaises hpc hport hd))
  | getHits hr hm hpc hport hd => exact .moves hr (.ends (.getHits hpc hport hd))
  | leads hr hm hpc hport hd hf => exact .moves hr (.leads hpc hport hd hf hm)
  | joins hr hm hpc hport hd hf hs =>
    exact .moves hr (.joins hm ⟨hpc, ⟨_, hport, hd⟩, hf⟩ hs)
  | joinsDone hr hm hpc hport hd hf hs ho =>
    have hfind : FindsFuture cfg w _ _ := ⟨hpc, ⟨_, hport, hd⟩, hf⟩
    have hout := congrArg (fun st => st.bind FutureState.outcome) hs
    exact .moves hr (.ends (.awaited hm (Or.inr hfind) (hout.trans ho)))
  | populates hr hm hpc hsam he => exact .moves hr (.populates hpc hsam he hm)
  | unreachable hr hm hpc hsam he =>
    obtain ⟨outcome', hend, hreads⟩ := conclude_readEnd cfg hm (.unreachable hpc hsam he)
    rw [hreads]
    exact .moves hr (.ends hend)
  | escapes hr hm hpc hsam he => exact .moves hr (.ends (.escapes hm hpc hsam he))
  | populated hr hm hpc hport =>
    obtain ⟨outcome', hend, hreads⟩ := conclude_readEnd cfg hm (.populated hpc hport)
    rw [hreads]
    exact .moves hr (.ends hend)
  | wakes hr hm hpc ho => exact .moves hr (.ends (.awaited hm (Or.inl hpc) ho))
  | mutationStarts request => exact .keeps _
  | mutationServed hmu hport hs => exact .keeps _
  | mutationResumes hmu hport ha => exact .keeps _
  | changes u t body => exact .keeps _
  | expires he hex => exact .keeps _

/-- Where a read in the table comes from. -/
theorem read_before {cfg : Config Raw} {w w' : World Raw} {a : Action} (h : step cfg w a = some w')
    {i : ReadId} {r' : ReadCall Raw} (hr' : w'.reads[i]? = some r') :
    w.reads[i]? = some r' ∨
    (∃ c u t ask, a = .read c u t ask ∧ i = w.reads.length ∧ r' = .start cfg w.clock c u t ask) ∨
    ∃ r, w.reads[i]? = some r ∧ ReadMove cfg w w' i r a r' := by
  obtain ⟨v, hv, rfl⟩ := step_transition h
  have hread : v.reads[i]? = some r' := hr'
  have hch := transition_readsChange hv
  generalize v.reads = rows at hch hread
  cases hch with
  | keeps => exact Or.inl hread
  | starts c u t ask =>
    rcases get_append_cases hread with ⟨hi, hnew⟩ | hold
    · exact Or.inr (Or.inl ⟨c, u, t, ask, rfl, hi, hnew⟩)
    · exact Or.inl hold
  | moves hr hmove =>
    rcases get_set_cases hread with ⟨rfl, rfl⟩ | ⟨-, hold⟩
    · exact Or.inr (Or.inr ⟨_, hr, hmove⟩)
    · exact Or.inl hold

/-- A read that has ended had ended before the step, or ends with it. -/
theorem done_before {cfg : Config Raw} {w w' : World Raw} {a : Action} (h : step cfg w a = some w')
    {i : ReadId} {r' : ReadCall Raw} (hr' : w'.reads[i]? = some r') {o : Outcome} {via : Via}
    (hpc : r'.pc = .done o via) :
    ∃ r, w.reads[i]? = some r ∧ r'.client = r.client ∧ r'.userId = r.userId ∧
      r'.tenantId = r.tenantId ∧ r'.cancelCalled = r.cancelCalled ∧
      (r.pc = .done o via ∨ ReadEnd cfg w w' r o via) := by
  rcases read_before h hr' with hold | ⟨c, u, t, ask, -, -, rfl⟩ | ⟨r, hr, hmove⟩
  · exact ⟨r', hold, rfl, rfl, rfl, rfl, Or.inl hpc⟩
  · cases hpc
  · cases hmove with
    | served => exact ⟨r, hr, rfl, rfl, rfl, rfl, Or.inl hpc⟩
    | sampled => exact ⟨r, hr, rfl, rfl, rfl, rfl, Or.inl hpc⟩
    | marked mustCancel hd =>
      have hdone : r.pc = .done o via := hpc
      rw [hdone] at hd
      cases hd
    | leads => cases hpc
    | joins => cases hpc
    | populates => cases hpc
    | ends hend =>
      cases hpc
      exact ⟨r, hr, rfl, rfl, rfl, rfl, Or.inr hend⟩

/-- What becomes of a read. -/
theorem read_after {cfg : Config Raw} {w w' : World Raw} {a : Action} (h : step cfg w a = some w')
    {i : ReadId} {r : ReadCall Raw} (hr : w.reads[i]? = some r) :
    ∃ r', w'.reads[i]? = some r' ∧ (r' = r ∨ ReadMove cfg w w' i r a r') := by
  obtain ⟨v, hv, rfl⟩ := step_transition h
  have hch := transition_readsChange hv
  change ∃ r', v.reads[i]? = some r' ∧ (r' = r ∨ ReadMove cfg w v.tick i r a r')
  generalize v.reads = rows at hch
  cases hch with
  | keeps => exact ⟨r, hr, Or.inl rfl⟩
  | starts c u t ask => exact ⟨r, get_append_of_get hr, Or.inl rfl⟩
  | @moves _ i' s s' hs hmove =>
    by_cases hi : i = i'
    · subst hi
      obtain rfl : s = r := Option.some.inj (hs.symm.trans hr)
      exact ⟨s', get_set_self hs, Or.inr hmove⟩
    · exact ⟨r, by rw [get_set_ne hi]; exact hr, Or.inl rfl⟩

/-- The event loop moves the read that it runs. -/
theorem resume_readMove {cfg : Config Raw} {w w' : World Raw} {i : ReadId}
    (h : step cfg w (.resumeRead i) = some w') :
    ∃ r r', w.reads[i]? = some r ∧ w'.reads[i]? = some r' ∧
      ReadMove cfg w w' i r (.resumeRead i) r' := by
  obtain ⟨v, hv, rfl⟩ := step_transition h
  have hmoved {r r' : ReadCall Raw} (hr : w.reads[i]? = some r)
      (hmove : ReadMove cfg w v.tick i r (.resumeRead i) r')
      (hreads : v.reads = w.reads.set i r') :
      ∃ r r', w.reads[i]? = some r ∧ v.tick.reads[i]? = some r' ∧
        ReadMove cfg w v.tick i r (.resumeRead i) r' :=
    ⟨r, r', hr, (congrArg (·[i]?) hreads).trans (get_set_self hr), hmove⟩
  cases hv with
  | thrown hr hm hd ho => exact hmoved hr (.ends (.cancelled hm hd)) rfl
  | thrownLeader hr hm ho =>
    obtain ⟨hd, hvia⟩ := ReadPc.of_owned ho
    exact hmoved hr (.ends (hvia ▸ .cancelled hm hd)) rfl
  | getRaises hr hm hpc hport hd => exact hmoved hr (.ends (.getRaises hpc hport hd)) rfl
  | getHits hr hm hpc hport hd => exact hmoved hr (.ends (.getHits hpc hport hd)) rfl
  | leads hr hm hpc hport hd hf => exact hmoved hr (.leads hpc hport hd hf hm) rfl
  | joins hr hm hpc hport hd hf hs =>
    exact hmoved hr (.joins hm ⟨hpc, ⟨_, hport, hd⟩, hf⟩ hs) rfl
  | joinsDone hr hm hpc hport hd hf hs ho =>
    have hfind : FindsFuture cfg w _ _ := ⟨hpc, ⟨_, hport, hd⟩, hf⟩
    have hout := congrArg (fun st => st.bind FutureState.outcome) hs
    exact hmoved hr (.ends (.awaited hm (Or.inr hfind) (hout.trans ho))) rfl
  | populates hr hm hpc hsam he => exact hmoved hr (.populates hpc hsam he hm) rfl
  | unreachable hr hm hpc hsam he =>
    obtain ⟨o, hend, hreads⟩ := conclude_readEnd cfg hm (.unreachable hpc hsam he)
    exact hmoved hr (.ends hend) hreads
  | escapes hr hm hpc hsam he => exact hmoved hr (.ends (.escapes hm hpc hsam he)) rfl
  | populated hr hm hpc hport =>
    obtain ⟨o, hend, hreads⟩ := conclude_readEnd cfg hm (.populated hpc hport)
    exact hmoved hr (.ends hend) hreads
  | wakes hr hm hpc ho => exact hmoved hr (.ends (.awaited hm (Or.inl hpc) ho)) rfl

/-- Which mutating calls a transition has in its table. -/
inductive MutationsChange (cfg : Config Raw) (w : World Raw) :
    Action → List (MutationCall Raw) → Prop
  | keeps (a : Action) : MutationsChange cfg w a w.mutations
  | starts (request : MutationRequest) :
      MutationsChange cfg w (.mutate request) (w.mutations ++ [.start cfg w.clock request])
  | moves {a : Action} {j : MutationId} {m m' : MutationCall Raw} (hmu : w.mutations[j]? = some m)
      (hmove : MutationMove cfg w j m a m') : MutationsChange cfg w a (w.mutations.set j m')

/-- Two worlds that differ in their reads, futures and tables at most. -/
structure SameOutside (w v : World Raw) : Prop where
  /-- The keys are the same. -/
  store : v.store = w.store
  /-- The memberships in Helios are the same. -/
  membership : v.membership = w.membership
  /-- The mutating calls are the same. -/
  mutations : v.mutations = w.mutations
  /-- The calls of Helios are the same. -/
  heliosCalls : v.heliosCalls = w.heliosCalls
  /-- The clock is the same. -/
  clock : v.clock = w.clock

/-- How a leader concludes concerns nobody outside. -/
theorem conclude_sameOutside (w : World Raw) (i : ReadId) (r : ReadCall Raw) (f : FutureId)
    (outcome : Outcome) : SameOutside w (w.conclude i r f outcome) := by
  rcases conclude_cases w i r f outcome with ⟨-, h⟩ | ⟨-, h⟩
  · rw [h]
    exact ⟨rfl, rfl, rfl, rfl, rfl⟩
  · rw [h]
    exact ⟨rfl, rfl, rfl, rfl, rfl⟩

/-- A transition moves, starts or keeps each mutating call. -/
theorem transition_mutationsChange {cfg : Config Raw} {w v : World Raw} {a : Action}
    (h : Transition cfg w a v) : MutationsChange cfg w a v.mutations := by
  cases h with
  | mutationStarts request => exact .starts request
  | mutationServed hmu hport hs => exact .moves hmu (.served hport hs)
  | mutationResumes hmu hport ha => exact .moves hmu (.resumed hport ha)
  | unreachable hr hm hpc hsam he =>
    rw [(conclude_sameOutside _ _ _ _ _).mutations]
    exact .keeps _
  | populated hr hm hpc hport =>
    rw [(conclude_sameOutside _ _ _ _ _).mutations]
    exact .keeps _
  | _ => exact .keeps _

/-- Where a mutating call in the table comes from. -/
theorem mutation_before {cfg : Config Raw} {w w' : World Raw} {a : Action}
    (h : step cfg w a = some w') {j : MutationId} {m' : MutationCall Raw}
    (hm' : w'.mutations[j]? = some m') :
    w.mutations[j]? = some m' ∨
    (∃ request, a = .mutate request ∧ j = w.mutations.length ∧
      m' = .start cfg w.clock request) ∨
    ∃ m, w.mutations[j]? = some m ∧ MutationMove cfg w j m a m' := by
  obtain ⟨v, hv, rfl⟩ := step_transition h
  have hmut : v.mutations[j]? = some m' := hm'
  have hch := transition_mutationsChange hv
  generalize v.mutations = rows at hch hmut
  cases hch with
  | keeps => exact Or.inl hmut
  | starts request =>
    rcases get_append_cases hmut with ⟨hj, hnew⟩ | hold
    · exact Or.inr (Or.inl ⟨request, rfl, hj, hnew⟩)
    · exact Or.inl hold
  | moves hmu hmove =>
    rcases get_set_cases hmut with ⟨rfl, rfl⟩ | ⟨-, hold⟩
    · exact Or.inr (Or.inr ⟨_, hmu, hmove⟩)
    · exact Or.inl hold

/-- What becomes of a mutating call. -/
theorem mutation_after {cfg : Config Raw} {w w' : World Raw} {a : Action}
    (h : step cfg w a = some w') {j : MutationId} {m : MutationCall Raw}
    (hm : w.mutations[j]? = some m) :
    ∃ m', w'.mutations[j]? = some m' ∧ (m' = m ∨ MutationMove cfg w j m a m') := by
  obtain ⟨v, hv, rfl⟩ := step_transition h
  have hch := transition_mutationsChange hv
  change ∃ m', v.mutations[j]? = some m' ∧ (m' = m ∨ MutationMove cfg w j m a m')
  generalize v.mutations = rows at hch
  cases hch with
  | keeps => exact ⟨m, hm, Or.inl rfl⟩
  | starts request => exact ⟨m, get_append_of_get hm, Or.inl rfl⟩
  | @moves _ j' n n' hn hmove =>
    by_cases hj : j = j'
    · subst hj
      obtain rfl : n = m := Option.some.inj (hn.symm.trans hm)
      exact ⟨n', get_set_self hn, Or.inr hmove⟩
    · exact ⟨m, by rw [get_set_ne hj]; exact hm, Or.inl rfl⟩

/-- Which futures a transition has in its table. A future is created by a leader,
and changes once: settled by its leader or cancelled through a joiner. -/
inductive FuturesChange (cfg : Config Raw) (w : World Raw) : Action → List Future → Prop
  | keeps (a : Action) : FuturesChange cfg w a w.futures
  | creates {i : ReadId} {r : ReadCall Raw} {reply : Reply Raw} (hr : w.reads[i]? = some r)
      (hpc : r.pc = .cacheGet) (hport : r.port = .replied reply)
      (hd : decodeGet cfg.backend reply = .ok none)
      (hf : (w.inFlight r.client).get? r.lock = none) :
      FuturesChange cfg w (.resumeRead i) (w.futures ++ [⟨i, .pending⟩])
  | settles {i : ReadId} {r : ReadCall Raw} {f : FutureId} {outcome : Outcome}
      (hr : w.reads[i]? = some r) (hm : r.mustCancel = false) (hres : FetchResult cfg r f outcome)
      (hf : w.futureState f = some .pending) :
      FuturesChange cfg w (.resumeRead i) (w.settle f (.ofOutcome outcome)).futures
  | cancels {i : ReadId} {r : ReadCall Raw} {f : FutureId} (hr : w.reads[i]? = some r)
      (hpc : r.pc = .joined f) (hf : w.futureState f = some .pending) :
      FuturesChange cfg w (.cancel i) (w.settle f .cancelled).futures

/-- A leader that concludes settles its own future only. -/
theorem conclude_futuresChange {cfg : Config Raw} {w : World Raw} {i : ReadId}
    {r : ReadCall Raw} {f : FutureId} {outcome : Outcome} (hr : w.reads[i]? = some r)
    (hm : r.mustCancel = false) (hres : FetchResult cfg r f outcome) :
    FuturesChange cfg w (.resumeRead i) (w.conclude i r f outcome).futures := by
  rcases conclude_cases w i r f outcome with ⟨hf, h⟩ | ⟨hf, h⟩
  · rw [h]
    exact .settles hr hm hres hf
  · rw [h]
    exact .keeps _

/-- A transition settles, adds or keeps each future. -/
theorem transition_futuresChange {cfg : Config Raw} {w v : World Raw} {a : Action}
    (h : Transition cfg w a v) : FuturesChange cfg w a v.futures := by
  cases h with
  | cancelsFuture hr hpc hf => exact .cancels hr hpc hf
  | leads hr hm hpc hport hd hf => exact .creates hr hpc hport hd hf
  | unreachable hr hm hpc hsam he => exact conclude_futuresChange hr hm (.unreachable hpc hsam he)
  | populated hr hm hpc hport => exact conclude_futuresChange hr hm (.populated hpc hport)
  | _ => exact .keeps _

/-- Where the state of a future comes from. -/
theorem futureState_before {cfg : Config Raw} {w w' : World Raw} {a : Action}
    (h : step cfg w a = some w') {f : FutureId} {st : FutureState}
    (hst : w'.futureState f = some st) :
    w.futureState f = some st ∨
    (f = w.futures.length ∧ st = .pending) ∨
    (w.futureState f = some .pending ∧ ∃ i r outcome, a = .resumeRead i ∧
      w.reads[i]? = some r ∧ FetchResult cfg r f outcome ∧ st = .ofOutcome outcome) ∨
    (w.futureState f = some .pending ∧ ∃ i r, a = .cancel i ∧ w.reads[i]? = some r ∧
      r.pc = .joined f ∧ st = .cancelled) := by
  obtain ⟨v, hv, rfl⟩ := step_transition h
  have hrow : (v.futures[f]?).map Future.state = some st := hst
  have hch := transition_futuresChange hv
  generalize v.futures = rows at hch hrow
  cases hch with
  | keeps => exact Or.inl hrow
  | creates hr hpc hport hd hf =>
    obtain ⟨fut, hfut, rfl⟩ := Option.map_eq_some_iff.mp hrow
    rcases get_append_cases hfut with ⟨hlast, rfl⟩ | hold
    · exact Or.inr (Or.inl ⟨hlast, rfl⟩)
    · exact Or.inl (Option.map_eq_some_iff.mpr ⟨fut, hold, rfl⟩)
  | @settles i r g outcome hr hm hres hf =>
    have hset : (w.settle g (.ofOutcome outcome)).futureState f = some st := hrow
    rw [futureState_settle] at hset
    split_ifs at hset with hg
    · subst hg
      rw [hf] at hset
      obtain rfl : FutureState.ofOutcome outcome = st := Option.some.inj hset
      exact Or.inr (Or.inr (Or.inl ⟨hf, i, r, outcome, rfl, hr, hres, rfl⟩))
    · exact Or.inl hset
  | @cancels i r g hr hpc hf =>
    have hset : (w.settle g .cancelled).futureState f = some st := hrow
    rw [futureState_settle] at hset
    split_ifs at hset with hg
    · subst hg
      rw [hf] at hset
      obtain rfl : FutureState.cancelled = st := Option.some.inj hset
      exact Or.inr (Or.inr (Or.inr ⟨hf, i, r, rfl, hr, hpc, rfl⟩))
    · exact Or.inl hset

/-- Settling a pending future changes the outcome of no other. -/
theorem settle_outcome_kept {w : World Raw} {f g : FutureId} {st : FutureState} {o : Outcome}
    (hg : w.futureState g = some .pending)
    (ho : (w.futureState f).bind FutureState.outcome = some o) :
    ((w.settle g st).futureState f).bind FutureState.outcome = some o := by
  rw [futureState_settle]
  by_cases hgf : g = f
  · subst hgf
    rw [hg] at ho
    cases ho
  · rw [if_neg hgf]
    exact ho

/-- A future that is done stays as it is. -/
theorem outcome_kept {cfg : Config Raw} {w w' : World Raw} {a : Action}
    (h : step cfg w a = some w') {f : FutureId} {o : Outcome}
    (ho : (w.futureState f).bind FutureState.outcome = some o) :
    (w'.futureState f).bind FutureState.outcome = some o := by
  obtain ⟨v, hv, rfl⟩ := step_transition h
  have hch := transition_futuresChange hv
  change ((v.futures[f]?).map Future.state).bind FutureState.outcome = some o
  generalize v.futures = rows at hch
  cases hch with
  | keeps => exact ho
  | creates =>
    obtain ⟨st, hst, hout⟩ := Option.bind_eq_some_iff.mp ho
    obtain ⟨fut, hfut, rfl⟩ := Option.map_eq_some_iff.mp hst
    rw [get_append_of_get hfut]
    exact hout
  | settles hr hm hres hg => exact settle_outcome_kept hg ho
  | cancels hr hpc hg => exact settle_outcome_kept hg ho

/-- What has been put on record stays on record. -/
structure Extends (w v : World Raw) : Prop where
  /-- The clock has not gone back. -/
  clock : w.clock ≤ v.clock
  /-- A read keeps its ids, its sample and its end. -/
  reads : ∀ (i : ReadId) (r : ReadCall Raw), w.reads[i]? = some r → ∃ r', v.reads[i]? = some r' ∧
    r'.client = r.client ∧ r'.userId = r.userId ∧ r'.tenantId = r.tenantId ∧ r'.ask = r.ask ∧
    r'.began = r.began ∧ (∀ x, r.sampled = some x → r'.sampled = some x) ∧
    (∀ o via, r.pc = .done o via → r'.pc = .done o via ∧ r'.ended = r.ended)
  /-- A mutating call keeps its request and its end. -/
  mutations : ∀ (j : MutationId) (m : MutationCall Raw), w.mutations[j]? = some m →
    ∃ m', v.mutations[j]? = some m' ∧ m'.request = m.request ∧ m'.began = m.began ∧
    (∀ o, m.pc = .done o → m'.pc = .done o ∧ m'.ended = m.ended)
  /-- A future keeps the read that created it. -/
  creators : ∀ (f : FutureId) (i : ReadId), creatorOf w f = some i → creatorOf v f = some i
  /-- A future keeps its outcome. -/
  outcomes : ∀ (f : FutureId) (o : Outcome), (w.futureState f).bind FutureState.outcome = some o →
    (v.futureState f).bind FutureState.outcome = some o

theorem Extends.refl (w : World Raw) : Extends w w where
  clock := Nat.le_refl _
  reads _ r hr := ⟨r, hr, rfl, rfl, rfl, rfl, rfl, fun _ h => h, fun _ _ h => ⟨h, rfl⟩⟩
  mutations _ m hm := ⟨m, hm, rfl, rfl, fun _ h => ⟨h, rfl⟩⟩
  creators _ _ h := h
  outcomes _ _ h := h

theorem Extends.trans {u v w : World Raw} (h : Extends u v) (h' : Extends v w) : Extends u w where
  clock := Nat.le_trans h.clock h'.clock
  reads i r hr := by
    obtain ⟨r₁, hr₁, hc₁, hu₁, ht₁, ha₁, hb₁, hs₁, hd₁⟩ := h.reads i r hr
    obtain ⟨r₂, hr₂, hc₂, hu₂, ht₂, ha₂, hb₂, hs₂, hd₂⟩ := h'.reads i r₁ hr₁
    refine ⟨r₂, hr₂, hc₂.trans hc₁, hu₂.trans hu₁, ht₂.trans ht₁, ha₂.trans ha₁, hb₂.trans hb₁,
      fun x hx => hs₂ x (hs₁ x hx), ?_⟩
    intro o via hd
    have hmid := hd₁ o via hd
    have hlast := hd₂ o via hmid.1
    exact ⟨hlast.1, hlast.2.trans hmid.2⟩
  mutations j m hm := by
    obtain ⟨m₁, hm₁, hq₁, hb₁, hd₁⟩ := h.mutations j m hm
    obtain ⟨m₂, hm₂, hq₂, hb₂, hd₂⟩ := h'.mutations j m₁ hm₁
    refine ⟨m₂, hm₂, hq₂.trans hq₁, hb₂.trans hb₁, ?_⟩
    intro o hd
    have hmid := hd₁ o hd
    have hlast := hd₂ o hmid.1
    exact ⟨hlast.1, hlast.2.trans hmid.2⟩
  creators f i hf := h'.creators f i (h.creators f i hf)
  outcomes f o hf := h'.outcomes f o (h.outcomes f o hf)

/-- Only the owner of a future has a fetch result. -/
theorem FetchResult.owned {cfg : Config Raw} {r : ReadCall Raw} {f : FutureId}
    {outcome : Outcome} (h : FetchResult cfg r f outcome) : r.pc.owned = some f := by
  cases h with
  | unreachable hpc => rw [hpc]; rfl
  | populated hpc => rw [hpc]; rfl

/-- A read with a fetch result has not ended. -/
theorem FetchResult.not_done {cfg : Config Raw} {r : ReadCall Raw} {f : FutureId}
    {outcome : Outcome} (h : FetchResult cfg r f outcome) : r.pc.isDone = false :=
  (ReadPc.of_owned h.owned).1

/-- A leader whose fetch has a result concludes when it runs. -/
theorem FetchResult.step_eq {cfg : Config Raw} {w w' : World Raw} {i : ReadId}
    {r : ReadCall Raw} {f : FutureId} {outcome : Outcome} (h : FetchResult cfg r f outcome)
    (hs : step cfg w (.resumeRead i) = some w') (hr : w.reads[i]? = some r)
    (hm : r.mustCancel = false) : w' = (w.conclude i r f outcome).tick := by
  have hconclude : Transition cfg w (.resumeRead i) (w.conclude i r f outcome) := by
    cases h with
    | unreachable hpc hsam he => exact .unreachable hr hm hpc hsam he
    | populated hpc hport => exact .populated hr hm hpc hport
  have hsame := hs.symm.trans hconclude.step_eq
  exact Option.some.inj hsame

/-- The step of a read that leads, as a whole. -/
theorem leads_step_eq {cfg : Config Raw} {w w' : World Raw} {i : ReadId} {r : ReadCall Raw}
    {reply : Reply Raw} (hs : step cfg w (.resumeRead i) = some w') (hr : w.reads[i]? = some r)
    (hm : r.mustCancel = false) (hpc : r.pc = .cacheGet) (hport : r.port = .replied reply)
    (hd : decodeGet cfg.backend reply = .ok none)
    (hf : (w.inFlight r.client).get? r.lock = none) : w' = (w.lead i r).tick := by
  have hlead : Transition cfg w (.resumeRead i) (w.lead i r) :=
    .leads hr hm hpc hport hd hf
  have hsame := hs.symm.trans hlead.step_eq
  exact Option.some.inj hsame

/-- A read ends through its own fetch exactly when it owns the future. -/
theorem ReadEnd.led_iff {cfg : Config Raw} {w v : World Raw} {r : ReadCall Raw}
    {outcome : Outcome} {via : Via} (h : ReadEnd cfg w v r outcome via) (f : FutureId) :
    via = .led f ↔ r.pc.owned = some f := by
  cases h with
  | cancelled hm hd =>
    constructor
    · exact fun hvia => ReadPc.owned_of_via hvia hd
    · exact fun ho => (ReadPc.of_owned ho).2
  | getRaises hpc => simp [hpc, ReadPc.owned]
  | getHits hpc => simp [hpc, ReadPc.owned]
  | awaited hm hf =>
    rcases hf with hpc | hfind
    · simp [hpc, ReadPc.owned]
    · simp [hfind.hpc, ReadPc.owned]
  | settles hm hres => simp [hres.owned]
  | settledBefore hm hres => simp [hres.owned]
  | escapes hm hpc => simp [hpc, ReadPc.owned]

/-- A read ends once. -/
theorem ReadEnd.not_done {cfg : Config Raw} {w v : World Raw} {r : ReadCall Raw}
    {outcome : Outcome} {via : Via} (h : ReadEnd cfg w v r outcome via) : r.pc.isDone = false := by
  cases h with
  | cancelled hm hd => exact hd
  | getRaises hpc => rw [hpc]; rfl
  | getHits hpc => rw [hpc]; rfl
  | awaited hm hf =>
    rcases hf with hpc | hfind
    · rw [hpc]; rfl
    · rw [hfind.hpc]; rfl
  | settles hm hres => exact hres.not_done
  | settledBefore hm hres => exact hres.not_done
  | escapes hm hpc => rw [hpc]; rfl

/-- A list that ends a read without a fetch was a hit. -/
theorem ReadEnd.hit {cfg : Config Raw} {w v : World Raw} {r : ReadCall Raw} {perms : List Json}
    (h : ReadEnd cfg w v r (.ok perms) .cache) : ∃ reply, r.pc = .cacheGet ∧
      r.port = .replied reply ∧ decodeGet cfg.backend reply = .ok (some perms) := by
  generalize ho : (Except.ok perms : Outcome) = outcome at h
  generalize hv : Via.cache = via at h
  cases h with
  | cancelled => cases ho
  | getRaises => cases ho
  | getHits hpc hport hd =>
    cases ho
    exact ⟨_, hpc, hport, hd⟩
  | awaited => cases hv
  | settles => cases hv
  | settledBefore => cases hv
  | escapes => cases hv

/-- The ways to end while the GET is awaited: a cancellation, the answer of the cache,
or a future in flight that is done. -/
theorem ReadEnd.at_get {cfg : Config Raw} {w v : World Raw} {r : ReadCall Raw}
    {outcome : Outcome} {via : Via} (h : ReadEnd cfg w v r outcome via) (hpc : r.pc = .cacheGet) :
    (r.mustCancel = true ∧ outcome = .error .cancelledError ∧ via = .cache) ∨
      (∃ reply, r.port = .replied reply ∧ decodeGet cfg.backend reply = outcome.map some ∧
        via = .cache) ∨
      ∃ f, FindsFuture cfg w r f ∧ via = .joined f := by
  have hnone : ∀ f, r.pc.owned ≠ some f := by
    intro f
    rw [hpc]
    exact nofun
  cases h with
  | cancelled hm => exact Or.inl ⟨hm, rfl, by rw [hpc]; rfl⟩
  | getRaises _ hport hd => exact Or.inr (Or.inl ⟨_, hport, hd, rfl⟩)
  | getHits _ hport hd => exact Or.inr (Or.inl ⟨_, hport, hd, rfl⟩)
  | awaited hm hf =>
    rcases hf with hjoin | hfind
    · rw [hpc] at hjoin
      cases hjoin
    · exact Or.inr (Or.inr ⟨_, hfind, rfl⟩)
  | settles hm hres => exact absurd hres.owned (hnone _)
  | settledBefore hm hres => exact absurd hres.owned (hnone _)
  | escapes hm hfetch => exact absurd (by rw [hfetch]; rfl) (hnone _)

/-- The ways to end while a shared future is awaited: a cancellation, and its outcome. -/
theorem ReadEnd.at_joined {cfg : Config Raw} {w v : World Raw} {r : ReadCall Raw}
    {outcome : Outcome} {via : Via} {f : FutureId} (h : ReadEnd cfg w v r outcome via)
    (hpc : r.pc = .joined f) : via = .joined f ∧
      (r.mustCancel = true ∨ (w.futureState f).bind FutureState.outcome = some outcome) := by
  have hnone : ∀ g, r.pc.owned ≠ some g := by
    intro g
    rw [hpc]
    exact nofun
  cases h with
  | cancelled hm => exact ⟨by rw [hpc]; rfl, Or.inl hm⟩
  | getRaises hget => rw [hpc] at hget; cases hget
  | getHits hget => rw [hpc] at hget; cases hget
  | awaited hm hf ho =>
    rcases hf with hjoin | hfind
    · rw [hpc] at hjoin
      cases hjoin
      exact ⟨rfl, Or.inr ho⟩
    · have hget := hfind.hpc
      rw [hpc] at hget
      cases hget
  | settles hm hres => exact absurd hres.owned (hnone _)
  | settledBefore hm hres => exact absurd hres.owned (hnone _)
  | escapes hm hfetch => exact absurd (by rw [hfetch]; rfl) (hnone _)

/-- The ways to end for the owner of a future: a cancellation, the result of its fetch,
which settles the future if it is pending, or an exception that is not handled. -/
theorem ReadEnd.at_owned {cfg : Config Raw} {w v : World Raw} {r : ReadCall Raw}
    {outcome : Outcome} {via : Via} {f : FutureId} (h : ReadEnd cfg w v r outcome via)
    (ho : r.pc.owned = some f) : r.mustCancel = true ∨
      (∃ o, FetchResult cfg r f o ∧
        (w.futureState f = some .pending → v.futureState f = some (.ofOutcome o))) ∨
      ∃ n outcome err, r.pc = .heliosFetch f ∧ r.sampled = some (n, outcome) ∧
        fetchEnd r.userId r.tenantId outcome = .escaped err := by
  have hsame : ∀ {g o}, FetchResult cfg r g o → g = f := by
    intro g o hres
    exact Option.some.inj (hres.owned.symm.trans ho)
  cases h with
  | cancelled hm => exact Or.inl hm
  | getRaises hpc => rw [hpc] at ho; cases ho
  | getHits hpc => rw [hpc] at ho; cases ho
  | awaited hm hf =>
    rcases hf with hpc | hfind
    · rw [hpc] at ho
      cases ho
    · rw [hfind.hpc] at ho
      cases ho
  | settles hm hres hf hv =>
    obtain rfl := hsame hres
    exact Or.inr (Or.inl ⟨_, hres, fun _ => hv⟩)
  | settledBefore hm hres hf =>
    obtain rfl := hsame hres
    exact Or.inr (Or.inl ⟨_, hres, fun hpend => absurd hpend hf⟩)
  | escapes hm hpc hsam he =>
    rw [hpc] at ho
    cases ho
    exact Or.inr (Or.inr ⟨_, _, _, hpc, hsam, he⟩)

/-- Whoever ends through the future of another was waiting for it, or finds it done. -/
theorem ReadEnd.of_joined {cfg : Config Raw} {w v : World Raw} {r : ReadCall Raw}
    {outcome : Outcome} {f : FutureId} (h : ReadEnd cfg w v r outcome (.joined f)) :
    r.pc = .joined f ∨ r.mustCancel = false ∧ FindsFuture cfg w r f := by
  generalize hv : Via.joined f = via at h
  cases h with
  | cancelled hm hd => exact Or.inl (ReadPc.joined_of_via hv.symm hd)
  | getRaises => cases hv
  | getHits => cases hv
  | awaited hm hf =>
    cases hv
    exact hf.imp_right fun hfind => ⟨hm, hfind⟩
  | settles => cases hv
  | settledBefore => cases hv
  | escapes => cases hv

/-- A read that has ended ends up no further: only a late reply can still reach it. -/
theorem ReadMove.of_done {cfg : Config Raw} {w v : World Raw} {i : ReadId} {r r' : ReadCall Raw}
    {a : Action} (h : ReadMove cfg w v i r a r') {o : Outcome} {via : Via}
    (hd : r.pc = .done o via) :
    r'.pc = .done o via ∧ r'.ended = r.ended := by
  have hdone : r.pc.isDone = true := by rw [hd]; rfl
  cases h with
  | served => exact ⟨hd, rfl⟩
  | sampled fate hpc => rw [hd] at hpc; cases hpc
  | marked b hn => rw [hn] at hdone; cases hdone
  | leads hpc => rw [hd] at hpc; cases hpc
  | joins hm hfind => have hpc := hfind.hpc; rw [hd] at hpc; cases hpc
  | populates hpc => rw [hd] at hpc; cases hpc
  | ends hend => have hn := hend.not_done; rw [hn] at hdone; cases hdone

/-- A read that waits for a shared future goes on waiting, or ends with it. -/
theorem ReadMove.at_joined {cfg : Config Raw} {w v : World Raw} {i : ReadId}
    {r r' : ReadCall Raw} {a : Action} {f : FutureId} (h : ReadMove cfg w v i r a r')
    (hpc : r.pc = .joined f) : r'.pc = .joined f ∨ ∃ outcome, r'.pc = .done outcome (.joined f) ∧
      (r.mustCancel = true ∨ (w.futureState f).bind FutureState.outcome = some outcome) := by
  cases h with
  | served => exact Or.inl hpc
  | sampled fate hfetch => rw [hpc] at hfetch; cases hfetch
  | marked => exact Or.inl hpc
  | leads hget => rw [hpc] at hget; cases hget
  | joins hm hfind => have hget := hfind.hpc; rw [hpc] at hget; cases hget
  | populates hfetch => rw [hpc] at hfetch; cases hfetch
  | ends hend =>
    obtain ⟨rfl, hout⟩ := hend.at_joined hpc
    exact Or.inr ⟨_, rfl, hout⟩

/-- The owner of a future goes on owning it, or ends. -/
theorem ReadMove.at_owned {cfg : Config Raw} {w v : World Raw} {i : ReadId}
    {r r' : ReadCall Raw} {a : Action} {f : FutureId} (h : ReadMove cfg w v i r a r')
    (ho : r.pc.owned = some f) : r'.pc.owned = some f ∨
      a = .resumeRead i ∧ ∃ outcome via, ReadEnd cfg w v r outcome via := by
  cases h with
  | served => exact Or.inl ho
  | sampled => exact Or.inl ho
  | marked => exact Or.inl ho
  | leads hpc => rw [hpc] at ho; cases ho
  | joins hm hfind => rw [hfind.hpc] at ho; cases ho
  | populates hpc =>
    rw [hpc] at ho
    exact Or.inl ho
  | ends hend => exact Or.inr ⟨rfl, _, _, hend⟩

/-- A cancelled read stays a cancelled read. -/
theorem ReadMove.called_kept {cfg : Config Raw} {w v : World Raw} {i : ReadId}
    {r r' : ReadCall Raw} {a : Action} (h : ReadMove cfg w v i r a r')
    (hcalled : r.cancelCalled = true) : r'.cancelCalled = true := by
  cases h with
  | marked => rfl
  | _ => exact hcalled

/-- Only `task.cancel()` marks a read, and it is remembered. -/
theorem ReadMove.marked_called {cfg : Config Raw} {w v : World Raw} {i : ReadId}
    {r r' : ReadCall Raw} {a : Action} (h : ReadMove cfg w v i r a r')
    (hm : r.mustCancel = true → r.cancelCalled = true) (hm' : r'.mustCancel = true) :
    r'.cancelCalled = true := by
  cases h with
  | marked => rfl
  | _ => exact hm hm'

/-- A read keeps its sample. -/
theorem ReadMove.sampled_kept {cfg : Config Raw} {w v : World Raw} {i : ReadId}
    {r r' : ReadCall Raw}
    {a : Action} (h : ReadMove cfg w v i r a r') {x : ℕ × HttpOutcome}
    (hx : r.sampled = some x) : r'.sampled = some x := by
  cases h with
  | sampled fate hpc hn => rw [hn] at hx; cases hx
  | _ => exact hx

/-- A step keeps the arguments and the start of a read. -/
theorem ReadMove.same_call {cfg : Config Raw} {w v : World Raw} {i : ReadId} {r r' : ReadCall Raw}
    {a : Action} (h : ReadMove cfg w v i r a r') : r'.client = r.client ∧ r'.userId = r.userId ∧
      r'.tenantId = r.tenantId ∧ r'.ask = r.ask ∧ r'.began = r.began := by
  cases h <;> exact ⟨rfl, rfl, rfl, rfl, rfl⟩

/-- A read keeps its lock. -/
theorem ReadMove.same_lock {cfg : Config Raw} {w v : World Raw} {i : ReadId} {r r' : ReadCall Raw}
    {a : Action} (h : ReadMove cfg w v i r a r') : r'.lock = r.lock := by
  obtain ⟨-, hu, ht, -⟩ := h.same_call
  rw [ReadCall.lock, ReadCall.lock, hu, ht]

/-- A mutating call that takes a reply stays the same call. -/
theorem advance_same_call {now : ℕ} {m m' : MutationCall Raw} {reply : Reply Raw}
    (h : m.advance now reply = some m') : m'.request = m.request ∧ m'.began = m.began ∧
      m'.progress = m.progress := by
  unfold MutationCall.advance at h
  split at h
  · cases h; exact ⟨rfl, rfl, rfl⟩
  · cases h; exact ⟨rfl, rfl, rfl⟩
  · cases h; exact ⟨rfl, rfl, rfl⟩
  · dsimp only at h
    split_ifs at h <;> (cases h; exact ⟨rfl, rfl, rfl⟩)
  · cases h; exact ⟨rfl, rfl, rfl⟩
  · dsimp only at h
    split_ifs at h <;> (cases h; exact ⟨rfl, rfl, rfl⟩)
  · cases h; exact ⟨rfl, rfl, rfl⟩
  · cases h

/-- A mutating call that moves stays the same call. -/
theorem MutationMove.same_call {cfg : Config Raw} {w : World Raw} {j : MutationId}
    {m m' : MutationCall Raw} {a : Action} (h : MutationMove cfg w j m a m') :
    m'.request = m.request ∧ m'.began = m.began := by
  cases h with
  | served hport hs => exact ⟨rfl, rfl⟩
  | resumed hport ha =>
    obtain ⟨hq, hb, -⟩ := advance_same_call ha
    exact ⟨hq, hb⟩

/-- A mutating call that has ended stays as it is. -/
theorem MutationMove.of_done {cfg : Config Raw} {w : World Raw} {j : MutationId}
    {m m' : MutationCall Raw} {a : Action} (h : MutationMove cfg w j m a m') {o : Except PyError ℕ}
    (hd : m.pc = .done o) : m'.pc = .done o ∧ m'.ended = m.ended := by
  cases h with
  | served hport hs => exact ⟨hd, rfl⟩
  | resumed hport ha => simp [MutationCall.advance, hd] at ha

/-- Helios is only called by a read that becomes a leader. -/
theorem step_heliosCalls {cfg : Config Raw} {w w' : World Raw} {a : Action}
    (h : step cfg w a = some w') : w'.heliosCalls = w.heliosCalls ∨
      ∃ i r reply, a = .resumeRead i ∧ w.reads[i]? = some r ∧ r.pc = .cacheGet ∧
        r.port = .replied reply ∧ decodeGet cfg.backend reply = .ok none ∧
        (w.inFlight r.client).get? r.lock = none ∧
        w'.heliosCalls = w.heliosCalls ++ [(r.client, r.userId, r.tenantId)] := by
  obtain ⟨v, hv, rfl⟩ := step_transition h
  cases hv with
  | leads hr hm hpc hport hd hf => exact Or.inr ⟨_, _, _, rfl, hr, hpc, hport, hd, hf, rfl⟩
  | unreachable => exact Or.inl (conclude_sameOutside _ _ _ _ _).heliosCalls
  | populated => exact Or.inl (conclude_sameOutside _ _ _ _ _).heliosCalls
  | _ => exact Or.inl rfl

/-- The membership is changed by nothing in the system. -/
theorem step_membership {cfg : Config Raw} {w w' : World Raw} {a : Action}
    (h : step cfg w a = some w') (ha : ∀ u t body, a ≠ .change u t body) :
    w'.membership = w.membership := by
  obtain ⟨v, hv, rfl⟩ := step_transition h
  cases hv with
  | unreachable => exact (conclude_sameOutside _ _ _ _ _).membership
  | populated => exact (conclude_sameOutside _ _ _ _ _).membership
  | changes u t body => exact absurd rfl (ha u t body)
  | _ => rfl

/-- A transition leaves the clock to `tick`. -/
theorem transition_clock {cfg : Config Raw} {w v : World Raw} {a : Action}
    (h : Transition cfg w a v) : v.clock = w.clock := by
  cases h with
  | unreachable => exact (conclude_sameOutside _ _ _ _ _).clock
  | populated => exact (conclude_sameOutside _ _ _ _ _).clock
  | _ => rfl

/-- A step only adds to the record. -/
theorem step_extends {cfg : Config Raw} {w w' : World Raw} {a : Action}
    (h : step cfg w a = some w') : Extends w w' where
  clock := by
    obtain ⟨v, hv, rfl⟩ := step_transition h
    have hclock := transition_clock hv
    change w.clock ≤ v.clock + 1
    omega
  reads i r hr := by
    obtain ⟨r', hr', rfl | hmove⟩ := read_after h hr
    · exact ⟨r', hr', rfl, rfl, rfl, rfl, rfl, fun _ hx => hx, fun _ _ hd => ⟨hd, rfl⟩⟩
    · obtain ⟨hc, hu, ht, ha, hb⟩ := hmove.same_call
      exact ⟨r', hr', hc, hu, ht, ha, hb, fun _ hx => hmove.sampled_kept hx,
        fun _ _ hd => hmove.of_done hd⟩
  mutations j m hm := by
    obtain ⟨m', hm', rfl | hmove⟩ := mutation_after h hm
    · exact ⟨m', hm', rfl, rfl, fun _ hd => ⟨hd, rfl⟩⟩
    · obtain ⟨hq, hb⟩ := hmove.same_call
      exact ⟨m', hm', hq, hb, fun _ hd => hmove.of_done hd⟩
  creators f i hf := by
    cases step_tableChange h with
    | keeps hh ht hc => rw [hc]; exact hf
    | registers i' c k hfree hh ht hc =>
      rw [hc, if_neg (Nat.ne_of_lt (creatorOf_lt hf))]
      exact hf
    | releases i' c k f' hi hh ht hc => rw [hc]; exact hf
  outcomes f o hf := outcome_kept h hf

/-- So does a run. -/
theorem run_extends {cfg : Config Raw} {w w' : World Raw} {as : List Action}
    (h : run (step cfg) w as = some w') : Extends w w' :=
  run_relates Extends.refl Extends.trans (fun _ _ _ hs => step_extends hs) h

end HeliosPermissions.CallHistory
