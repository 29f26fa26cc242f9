import HeliosPermissions.KeyedWrites

/-!
# Helios calls for a cold key

Reads of one pair on one client, while every command and every fetch succeeds.
From the first call of Helios on, the pair is in flight or its list is stored:
the SET is executed before the leader's finally clause. A further call needs a
read whose GET was answered before that SET and which resumes only after the
entry is gone from the table; every such late miss makes one.
-/

namespace HeliosPermissions.ColdKeyCalls

open JsonValues CacheKeys CacheStore HeliosResolution ClientWorld PartialRuns InFlightTable
open CallHistory CallShapes KeyedWrites

variable {Raw : Type}

/-- The moves of a run in which one client reads one pair, every Redis command
and every fetch succeeds, and nothing is written through, invalidated, cancelled
or expired. -/
def ColdReads (c : ClientId) (u t : String) (w : World Raw) : Action → Prop
  | .read c' u' t' _ => c' = c ∧ u' = u ∧ t' = t
  | .serveRead _ fate => fate = .executes
  | .sample _ fate => ∃ perms, fetchEnd u t (fate.outcome (w.membership u t)) = .resolved perms
  | .resumeRead _ => True
  | .change _ _ _ => True
  | .mutate _ => False
  | .serveMutation _ _ => False
  | .resumeMutation _ => False
  | .cancel _ => False
  | .expire _ => False

/-- A list is stored for a pair. -/
def Stored (cfg : Config Raw) (u t : String) (w : World Raw) : Prop :=
  ∃ entry, w.store.get? (cfg.backend.key u t) = some entry

/-- A client has a fetch for a lock key in its table. -/
def InFlight (c : ClientId) (k : String) (w : World Raw) : Prop :=
  ∃ f, (w.inFlight c).get? k = some f

/-- A read resumes with a miss although its pair has been stored meanwhile, and
finds the table without its key. -/
def DeliversLateMiss (cfg : Config Raw) (w : World Raw) (a : Action) : Prop :=
  ∃ i r reply, a = .resumeRead i ∧ w.reads[i]? = some r ∧ r.pc = .cacheGet ∧
    r.port = .replied reply ∧ decodeGet cfg.backend reply = .ok none ∧
    ¬InFlight r.client r.lock w ∧ Stored cfg r.userId r.tenantId w

/-- What the moves keep of every read. -/
structure ColdRead (c : ClientId) (u t : String) (r : ReadCall Raw) : Prop where
  /-- It is a call of the one client. -/
  client : r.client = c
  /-- It asks for the one user. -/
  userId : r.userId = u
  /-- It asks for the one tenant. -/
  tenantId : r.tenantId = t
  /-- No cancellation waits for it. -/
  running : r.mustCancel = false
  /-- What Helios answered it resolves to a list. -/
  resolves : ∀ n outcome, r.sampled = some (n, outcome) →
    ∃ perms, fetchEnd u t outcome = .resolved perms

/-- The invariant of such a run. -/
structure OneFlight (cfg : Config Raw) (c : ClientId) (u t : String) (w : World Raw) : Prop where
  /-- The tables and futures fit together. -/
  ownership : Ownership w
  /-- The calls have their shapes. -/
  shaped : CallsShaped cfg w
  /-- Every read is one of the cold key. -/
  reads : ∀ (i : ReadId) (r : ReadCall Raw), w.reads[i]? = some r → ColdRead c u t r
  /-- Helios has been called for the pair only. -/
  calls : ∀ call ∈ w.heliosCalls, call = (c, u, t)
  /-- Before the first call of Helios every read has missed or is about to. -/
  cold : w.heliosCalls = [] → ¬Stored cfg u t w ∧
    ∀ (i : ReadId) (r : ReadCall Raw), w.reads[i]? = some r → r.pc = .cacheGet ∧
      ∀ reply, r.port = .replied reply → decodeGet cfg.backend reply = .ok none
  /-- After it the pair is in flight or stored. -/
  warm : w.heliosCalls ≠ [] → InFlight c (lockKey u t) w ∨ Stored cfg u t w
  /-- A populate has been executed when its answer is there. -/
  populating : ∀ (i : ReadId) (r : ReadCall Raw) (f : FutureId) (perms : List Json),
    w.reads[i]? = some r → r.pc = .cacheSet f perms →
    r.port = .sent (populateCommand cfg u t perms) ∨ Stored cfg u t w

section steps

variable {cfg : Config Raw} {c : ClientId} {u t : String} {w w' : World Raw} {a : Action}

/-- The reads share one lock. -/
theorem ColdRead.lock {r : ReadCall Raw} (h : ColdRead c u t r) : r.lock = lockKey u t := by
  rw [ReadCall.lock, h.userId, h.tenantId]

/-- A fetch of such a read has no other end than a list. -/
theorem ColdRead.resolved {r : ReadCall Raw} (h : ColdRead c u t r) {n : ℕ}
    {outcome : HttpOutcome} (hs : r.sampled = some (n, outcome)) :
    ∃ perms, fetchEnd r.userId r.tenantId outcome = .resolved perms := by
  rw [h.userId, h.tenantId]
  exact h.resolves n outcome hs

/-- A leader ends only when its populate has been answered. -/
theorem ColdRead.ends_populated {v : World Raw} {r : ReadCall Raw} {f : FutureId}
    {outcome : Outcome} {via : Via} (h : ColdRead c u t r) (ho : r.pc.owned = some f)
    (hend : ReadEnd cfg w v r outcome via) :
    ∃ perms reply, r.pc = .cacheSet f perms ∧ r.port = .replied reply := by
  rcases hend.at_owned ho with hm | ⟨o, hres, -⟩ | ⟨n, response, err, hpc, hsam, he⟩
  · rw [h.running] at hm
    cases hm
  · cases hres with
    | unreachable hpc hsam he =>
      obtain ⟨perms, hok⟩ := h.resolved hsam
      rw [hok] at he
      cases he
    | populated hpc hport => exact ⟨_, _, hpc, hport⟩
  · obtain ⟨perms, hok⟩ := h.resolved hsam
    rw [hok] at he
    cases he

/-- Such a run never takes a list out of the cache. -/
theorem stored_step (hshape : CallsShaped cfg w) (hs : step cfg w a = some w')
    (ha : ColdReads c u t w a) (h : Stored cfg u t w) : Stored cfg u t w' := by
  obtain ⟨entry, he⟩ := h
  cases step_keyChange hshape hs (cfg.backend.key u t) with
  | keeps a hkeep => exact ⟨entry, by rw [hkeep]; exact he⟩
  | populates hfate hr hport hk hres hfree => rw [he] at hfree; cases hfree
  | overwrites => cases ha
  | deletes => cases ha
  | expires => cases ha

/-- The SET NX of a populate leaves something under its key. -/
theorem execute_populate_stored (now : ℕ) (origin : Origin) (store : Store Raw) (k : String)
    (raw : Raw) (ex : Option ℕ) :
    ∃ entry, (execute now origin store (.set k raw ex true)).2.get? k = some entry := by
  cases hs : store.get? k with
  | none => exact ⟨⟨raw, origin, now, now, ex⟩, by simp [execute, hs]⟩
  | some old => exact ⟨old, by simp [execute, hs]⟩

/-- A step keeps the reads those of the cold key. -/
theorem reads_step (h : OneFlight cfg c u t w) (hs : step cfg w a = some w')
    (ha : ColdReads c u t w a) {i : ReadId} {r' : ReadCall Raw} (hr' : w'.reads[i]? = some r') :
    ColdRead c u t r' := by
  rcases read_before hs hr' with hold | ⟨c', u', t', ask, rfl, -, rfl⟩ | ⟨r, hr, hmove⟩
  · exact h.reads i r' hold
  · obtain ⟨rfl, rfl, rfl⟩ := ha
    refine ⟨rfl, rfl, rfl, rfl, ?_⟩
    intro n outcome hsam
    cases hsam
  · have hcold := h.reads i r hr
    cases hmove with
    | sampled fate hpc hn =>
      refine ⟨hcold.client, hcold.userId, hcold.tenantId, hcold.running, ?_⟩
      intro n outcome hsam
      cases hsam
      rw [hcold.userId, hcold.tenantId]
      exact ha
    | marked => cases ha
    | _ => exact ⟨hcold.client, hcold.userId, hcold.tenantId, hcold.running, hcold.resolves⟩

/-- A step calls Helios for the pair only. -/
theorem calls_step (h : OneFlight cfg c u t w) (hs : step cfg w a = some w') :
    ∀ call ∈ w'.heliosCalls, call = (c, u, t) := by
  intro call hmem
  rcases step_heliosCalls hs with hsame | ⟨i, r, reply, -, hr, -, -, -, -, hnew⟩
  · rw [hsame] at hmem
    exact h.calls call hmem
  · rw [hnew] at hmem
    rcases List.mem_append.mp hmem with hold | hlast
    · exact h.calls call hold
    · have hcold := h.reads i r hr
      rw [List.mem_singleton.mp hlast, hcold.client, hcold.userId, hcold.tenantId]

/-- A step that calls Helios no first time fills no cache. -/
theorem cold_stored_step (h : OneFlight cfg c u t w) (hs : step cfg w a = some w')
    (ha : ColdReads c u t w a) (hcalls : w.heliosCalls = []) : ¬Stored cfg u t w' := by
  obtain ⟨hfree, hreads⟩ := h.cold hcalls
  rintro ⟨entry, he⟩
  cases step_keyChange h.shaped hs (cfg.backend.key u t) with
  | keeps a hkeep => exact hfree ⟨entry, by rw [← hkeep]; exact he⟩
  | populates hfate hr hport =>
    have hget := (h.shaped.reads _ _ hr).getting (hreads _ _ hr).1
    cases hget.2 _ hport
  | overwrites => cases ha
  | deletes => cases ha
  | expires => cases ha

/-- Before the first call of Helios no read goes past its GET, except to lead. -/
theorem cold_reads_step (h : OneFlight cfg c u t w) (hs : step cfg w a = some w')
    (ha : ColdReads c u t w a) (hcalls : w'.heliosCalls = []) (hbefore : w.heliosCalls = [])
    {i : ReadId} {r' : ReadCall Raw} (hr' : w'.reads[i]? = some r') :
    r'.pc = .cacheGet ∧ ∀ reply, r'.port = .replied reply →
      decodeGet cfg.backend reply = .ok none := by
  obtain ⟨hfree, hreads⟩ := h.cold hbefore
  have hunlisted : ∀ f r, w.reads[i]? = some r → ¬FindsFuture cfg w r f := by
    intro f r hr hfind
    obtain ⟨l, s, hl, -, -, ho⟩ := h.ownership.running _ _ _ hfind.listed
    rw [(hreads l s hl).1] at ho
    cases ho
  rcases read_before hs hr' with hold | ⟨c', u', t', ask, rfl, -, rfl⟩ | ⟨r, hr, hmove⟩
  · exact hreads i r' hold
  · refine ⟨rfl, ?_⟩
    intro reply hport
    cases hport
  · have hcold := h.reads i r hr
    obtain ⟨hpc, hmiss⟩ := hreads i r hr
    cases hmove with
    | @served cmd fate reply store hport hserve =>
      refine ⟨hpc, ?_⟩
      intro reply' hreply
      cases hreply
      obtain rfl : fate = .executes := ha
      have hget := ((h.shaped.reads i r hr).getting hpc).2 cmd hport
      rw [hget, hcold.userId, hcold.tenantId] at hserve
      have hnone : w.store.get? (cfg.backend.key u t) = none := by
        rw [← Option.not_isSome_iff_eq_none, Option.isSome_iff_exists]
        exact hfree
      rcases (serve_get hserve).2 with rfl | rfl
      · cases hserve
      · rw [hnone]
        rfl
    | sampled fate hfetch => rw [hpc] at hfetch; cases hfetch
    | marked => cases ha
    | leads hget hport hd hf hm =>
      have hlead := leads_step_eq hs hr hm hget hport hd hf
      rw [hlead] at hcalls
      exact absurd hcalls (List.append_ne_nil_of_right_ne_nil _ (by simp))
    | joins hm hfind => exact absurd hfind (hunlisted _ r hr)
    | populates hfetch => rw [hpc] at hfetch; cases hfetch
    | @ends outcome via hend =>
      rcases hend.at_get hpc with ⟨hm, -⟩ | ⟨reply, hport, hd, -⟩ | ⟨f, hfind, -⟩
      · rw [hcold.running] at hm
        cases hm
      · rw [hmiss reply hport] at hd
        cases outcome with
        | ok list => cases hd
        | error err => cases hd
      · exact absurd hfind (hunlisted f r hr)

/-- Once Helios has been called, the pair stays in flight until it is stored. -/
theorem warm_step (h : OneFlight cfg c u t w) (hs : step cfg w a = some w')
    (ha : ColdReads c u t w a) (hcalls : w'.heliosCalls ≠ []) :
    InFlight c (lockKey u t) w' ∨ Stored cfg u t w' := by
  rcases step_heliosCalls hs with hsame | ⟨i, r, reply, hact, hr, hpc, hport, hd, hf, hnew⟩
  · rw [hsame] at hcalls
    rcases h.warm hcalls with ⟨f, hf⟩ | hstored
    · by_cases hkeep : (w'.inFlight c).get? (lockKey u t) = some f
      · exact Or.inl ⟨f, hkeep⟩
      · -- the entry goes with its leader, whose populate has been executed
        obtain ⟨i, hi, hgone⟩ :=
          h.ownership.removed_by_holder (step_tableChange hs) hf hkeep
        obtain ⟨r, hr, hc, hk, ho⟩ := hi
        have hcold := h.reads i r hr
        have hended : ∃ outcome via, ReadEnd cfg w w' r outcome via := by
          obtain ⟨r', hr', rfl | hmove⟩ := read_after hs hr
          · exact absurd ⟨r', hr', hc, hk, ho⟩ (hgone c _ f)
          · rcases hmove.at_owned ho with ho' | ⟨-, hend⟩
            · exact absurd ⟨r', hr', hmove.same_call.1.trans hc, hmove.same_lock.trans hk, ho'⟩
                (hgone c _ f)
            · exact hend
        obtain ⟨outcome, via, hend⟩ := hended
        obtain ⟨perms, reply, hpc, hport⟩ := hcold.ends_populated ho hend
        rcases h.populating i r f perms hr hpc with hsent | hstored
        · rw [hport] at hsent
          cases hsent
        · exact Or.inr (stored_step h.shaped hs ha hstored)
    · exact Or.inr (stored_step h.shaped hs ha hstored)
  · have hcold := h.reads i r hr
    subst hact
    have hlead := leads_step_eq hs hr hcold.running hpc hport hd hf
    refine Or.inl ⟨w.futures.length, ?_⟩
    rw [hlead, ← hcold.client, ← hcold.lock]
    change ((Function.update w.inFlight r.client
      ((w.inFlight r.client).set r.lock w.futures.length)) r.client).get? r.lock = _
    simp

/-- A populate whose reply is there has stored the list. -/
theorem populating_step (h : OneFlight cfg c u t w) (hs : step cfg w a = some w')
    (ha : ColdReads c u t w a) {i : ReadId} {r' : ReadCall Raw} {f : FutureId}
    {perms : List Json} (hr' : w'.reads[i]? = some r') (hpc : r'.pc = .cacheSet f perms) :
    r'.port = .sent (populateCommand cfg u t perms) ∨ Stored cfg u t w' := by
  have hlater : Stored cfg u t w → Stored cfg u t w' := stored_step h.shaped hs ha
  rcases read_before hs hr' with hold | ⟨c', u', t', ask, -, -, rfl⟩ | ⟨r, hr, hmove⟩
  · exact (h.populating i r' f perms hold hpc).imp_right hlater
  · cases hpc
  · have hcold := h.reads i r hr
    cases hmove with
    | @served cmd fate reply store hport hserve =>
      rcases h.populating i r f perms hr hpc with hsent | hstored
      · rw [hport] at hsent
        cases hsent
        obtain rfl : fate = .executes := ha
        have hserved : Transition cfg w (.serveRead i .executes)
            ({ w with store := store }.putRead i { r with port := .replied reply }) :=
          .readServed hr hport hserve
        have hafter := Option.some.inj (hs.symm.trans hserved.step_eq)
        have hexec : execute w.clock (.populate i) w.store (populateCommand cfg u t perms) =
            (reply, store) := Option.some.inj hserve
        obtain ⟨entry, he⟩ := execute_populate_stored w.clock (.populate i) w.store
          (cfg.backend.key u t) (cfg.backend.dumps perms) cfg.backend.ex
        refine Or.inr ⟨entry, ?_⟩
        rw [populateCommand] at hexec
        rw [hexec] at he
        rw [hafter]
        exact he
      · exact Or.inr (hlater hstored)
    | sampled fate hfetch => rw [hfetch] at hpc; cases hpc
    | marked => cases ha
    | leads => cases hpc
    | joins => cases hpc
    | populates hfetch hsam he =>
      cases hpc
      rw [hcold.userId, hcold.tenantId]
      exact Or.inl rfl
    | ends => cases hpc

/-- The invariant is kept by every such move. -/
theorem OneFlight.preserved (h : OneFlight cfg c u t w) (hs : step cfg w a = some w')
    (ha : ColdReads c u t w a) : OneFlight cfg c u t w' where
  ownership := h.ownership.preserved (step_tableChange hs)
  shaped := h.shaped.preserved hs
  reads _ _ hr' := reads_step h hs ha hr'
  calls := calls_step h hs
  cold hcalls := by
    have hbefore : w.heliosCalls = [] := by
      rcases step_heliosCalls hs with hsame | ⟨i, r, reply, -, -, -, -, -, -, hnew⟩
      · rw [← hsame]
        exact hcalls
      · rw [hnew] at hcalls
        exact absurd hcalls (List.append_ne_nil_of_right_ne_nil _ (by simp))
    exact ⟨cold_stored_step h hs ha hbefore,
      fun _ _ hr' => cold_reads_step h hs ha hcalls hbefore hr'⟩
  warm hcalls := warm_step h hs ha hcalls
  populating _ _ _ _ hr' hpc := populating_step h hs ha hr' hpc

/-- Without a late miss Helios is called once at most. -/
theorem one_call_step (h : OneFlight cfg c u t w) (hs : step cfg w a = some w')
    (hlate : ¬DeliversLateMiss cfg w a) (hone : w.heliosCalls.length ≤ 1) :
    w'.heliosCalls.length ≤ 1 := by
  rcases step_heliosCalls hs with hsame | ⟨i, r, reply, ha, hr, hpc, hport, hd, hf, hnew⟩
  · rw [hsame]
    exact hone
  · have hcold := h.reads i r hr
    have hfree : ¬InFlight r.client r.lock w := by
      rintro ⟨f, hlisted⟩
      rw [hf] at hlisted
      cases hlisted
    by_cases hcalls : w.heliosCalls = []
    · rw [hnew, hcalls]
      simp
    · rcases h.warm hcalls with hflight | hstored
      · rw [hcold.client, hcold.lock] at hfree
        exact absurd hflight hfree
      · rw [← hcold.userId, ← hcold.tenantId] at hstored
        exact absurd ⟨i, r, reply, ha, hr, hpc, hport, hd, hfree, hstored⟩ hlate

/-- A late miss makes a further call. -/
theorem late_miss_calls (h : OneFlight cfg c u t w) (hs : step cfg w a = some w')
    (hlate : DeliversLateMiss cfg w a) : 2 ≤ w'.heliosCalls.length := by
  obtain ⟨i, r, reply, ha, hr, hpc, hport, hd, hfree, hstored⟩ := hlate
  have hcold := h.reads i r hr
  have hf : (w.inFlight r.client).get? r.lock = none := by
    rw [← Option.not_isSome_iff_eq_none, Option.isSome_iff_exists]
    exact hfree
  rw [hcold.userId, hcold.tenantId] at hstored
  have hcalls : w.heliosCalls ≠ [] := fun hnil => (h.cold hnil).1 hstored
  have hlength := List.length_pos_iff.mpr hcalls
  subst ha
  rw [leads_step_eq hs hr hcold.running hpc hport hd hf]
  change 2 ≤ (w.heliosCalls ++ [(r.client, r.userId, r.tenantId)]).length
  rw [List.length_append, List.length_singleton]
  omega

end steps

/-- Calls of Helios stay on record. -/
theorem heliosCalls_grow {cfg : Config Raw} {w w' : World Raw} {a : Action}
    (hs : step cfg w a = some w') : w.heliosCalls.length ≤ w'.heliosCalls.length := by
  rcases step_heliosCalls hs with hsame | ⟨i, r, reply, -, -, -, -, -, -, hnew⟩
  · rw [hsame]
  · rw [hnew, List.length_append]
    omega

/-- At the start nothing is in flight or stored. -/
theorem init_oneFlight {cfg : Config Raw} {content : OrderedDict String (Raw × Option ℕ)}
    {membership : String → String → Json} {u t : String} (c : ClientId)
    (hcold : content.get? (cfg.backend.key u t) = none) :
    OneFlight cfg c u t (.init content membership) where
  ownership := init_ownership content membership
  shaped := init_callsShaped cfg content membership
  reads i r hr := by cases hr
  calls call hmem := by cases hmem
  cold _ := by
    refine ⟨?_, ?_⟩
    · rintro ⟨entry, he⟩
      have hfree : (World.init content membership).store.get? (cfg.backend.key u t) = none := by
        simp [World.init, hcold]
      rw [hfree] at he
      cases he
    · intro i r hr
      cases hr
  warm hcalls := absurd rfl hcalls
  populating i r f perms hr := by cases hr

/-- Any number of reads of a cold key, all of them finished, with every command
and every fetch a success: Helios was called exactly once if and only if no read
resumed with a late miss. -/
theorem one_helios_call_iff {cfg : Config Raw} {content : OrderedDict String (Raw × Option ℕ)}
    {membership : String → String → Json} {c : ClientId} {u t : String} {as : List Action}
    {w : World Raw} (hcold : content.get? (cfg.backend.key u t) = none)
    (hrun : run (step cfg) (.init content membership) as = some w)
    (hmoves : Along (step cfg) (fun v a _ => ColdReads c u t v a) (.init content membership) as)
    (hsome : w.reads ≠ [])
    (hdone : ∀ (i : ReadId) (r : ReadCall Raw), w.reads[i]? = some r → r.pc.isDone = true) :
    w.heliosCalls = [(c, u, t)] ↔
      Along (step cfg) (fun v a _ => ¬DeliversLateMiss cfg v a) (.init content membership) as := by
  have hinit : OneFlight cfg c u t (.init content membership) := init_oneFlight c hcold
  constructor
  · intro hcalls
    refine along_of_unmarked (OneFlight cfg c u t) (fun v => 2 ≤ v.heliosCalls.length)
      (fun v a v' hv hs ha => hv.preserved hs ha) ?_ ?_ hrun hmoves hinit ?_
    · intro v a v' hv hs ha hmiss
      exact late_miss_calls hv hs (not_not.mp hmiss)
    · intro v a v' htwo hs
      exact Nat.le_trans htwo (heliosCalls_grow hs)
    · rw [hcalls]
      simp
  · intro hlate
    have hinv := run_invariant
      (fun v => OneFlight cfg c u t v ∧ v.heliosCalls.length ≤ 1)
      (fun v a v' hv hs ha => ⟨hv.1.preserved hs ha.1, one_call_step hv.1 hs ha.2 hv.2⟩) hrun
      (hmoves.and hlate) ⟨hinit, by simp [World.init]⟩
    obtain ⟨hflight, hone⟩ := hinv
    cases hcalls : w.heliosCalls with
    | nil =>
      -- no call of Helios: every read would still be at its GET
      obtain ⟨r, rest, hreads⟩ := List.exists_cons_of_ne_nil hsome
      have hr : w.reads[0]? = some r := by rw [hreads]; rfl
      have hd := hdone 0 r hr
      rw [((hflight.cold hcalls).2 0 r hr).1] at hd
      cases hd
    | cons call rest =>
      have hcall : call = (c, u, t) := hflight.calls call (by simp [hcalls])
      rw [hcalls, List.length_cons] at hone
      have hrest : rest = [] := List.length_eq_zero_iff.mp (by omega)
      rw [hcall, hrest]

/-- The moves of reads that Helios answers while no membership changes. -/
def answeredRead (c : ClientId) (u t : String) : Action → Bool
  | .read c' u' t' _ => c' = c ∧ u' = u ∧ t' = t
  | .serveRead _ fate => fate = .executes
  | .sample _ .answers => true
  | .resumeRead _ => true
  | _ => false

/-- They are the moves that the count is about, when the membership resolves. -/
theorem along_coldReads {cfg : Config Raw} {c : ClientId} {u t : String} {w : World Raw}
    {perms : List Json} {as : List Action}
    (hbody : fetchEnd u t (.response 200 (.ok (w.membership u t))) = .resolved perms)
    (h : as.all (answeredRead c u t) = true) :
    Along (step cfg) (fun v a _ => ColdReads c u t v a) w as := by
  have hactions : Along (step cfg) (fun _ a _ => answeredRead c u t a = true) w as :=
    along_of_forall (List.all_eq_true.mp h)
  refine Along.with_invariant (fun v => v.membership = w.membership) ?_ rfl hactions
  intro v a v' hv hs ha
  cases a with
  | read c' u' t' ask =>
    refine ⟨?_, by simpa [answeredRead, ColdReads] using ha⟩
    cases hs
    exact hv
  | serveRead i fate =>
    refine ⟨?_, by simpa [answeredRead, ColdReads] using ha⟩
    rw [step_membership hs (by simp)]
    exact hv
  | sample i fate =>
    rw [step_membership hs (by simp)]
    cases fate with
    | answers => exact ⟨hv, perms, by rw [hv]; exact hbody⟩
    | fault outcome => cases ha
  | resumeRead i =>
    rw [step_membership hs (by simp)]
    exact ⟨hv, trivial⟩
  | mutate request => cases ha
  | serveMutation j fate => cases ha
  | resumeMutation j => cases ha
  | cancel i => cases ha
  | change u' t' body => cases ha
  | expire k => cases ha

/-- Two reads miss; the first leads, is answered and populates, and the second
joins it. -/
def twoReadsRun : List Action :=
  joinedRun ++ [.sample 0 .answers, .resumeRead 0, .serveRead 0 .executes, .resumeRead 0,
    .resumeRead 1]

/-- No miss of that run is late. -/
theorem one_helios_call_twoReadsRun : Along (step (fixedConfig true))
    (fun v a _ => ¬DeliversLateMiss (fixedConfig true) v a) fixedWorld twoReadsRun := by
  have hdone : ∀ (i : ReadId) (r : ReadCall (List Json)),
      (endOf true twoReadsRun).reads[i]? = some r → r.pc.isDone = true := by
    intro i r hr
    match i, hr with
    | 0, hr => cases hr; rfl
    | 1, hr => cases hr; rfl
  have hsome : (endOf true twoReadsRun).reads ≠ [] :=
    List.ne_nil_of_length_eq_add_one (n := 1) rfl
  exact (one_helios_call_iff (c := 0) (u := "user-1") (t := "tenant-1") rfl (run_endOf rfl)
    (along_coldReads rfl rfl) hsome hdone).mp rfl

/-- The same reads, but the second resumes only after the first has ended. -/
def lateMissRun : List Action :=
  [.read 0 "user-1" "tenant-1" .getUserPermissions, .read 0 "user-1" "tenant-1" .getUserPermissions,
    .serveRead 0 .executes, .serveRead 1 .executes, .resumeRead 0, .sample 0 .answers,
    .resumeRead 0, .serveRead 0 .executes, .resumeRead 0, .resumeRead 1, .sample 1 .answers,
    .resumeRead 1, .serveRead 1 .executes, .resumeRead 1]

/-- Helios is called twice in this run, in which everything succeeds. -/
theorem second_helios_call_lateMissRun :
    Along (step (fixedConfig true)) (fun v a _ => ColdReads 0 "user-1" "tenant-1" v a) fixedWorld
      lateMissRun ∧
    run (step (fixedConfig true)) fixedWorld lateMissRun = some (endOf true lateMissRun) ∧
    (endOf true lateMissRun).reads.map (fun r => r.pc.isDone) = [true, true] ∧
    (endOf true lateMissRun).heliosCalls ≠ [(0, "user-1", "tenant-1")] :=
  ⟨along_coldReads rfl rfl, run_endOf rfl, rfl, by decide⟩

end HeliosPermissions.ColdKeyCalls
