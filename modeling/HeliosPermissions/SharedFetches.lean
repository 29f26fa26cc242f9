import HeliosPermissions.CallShapes

/-!
# What the waiters of a fetch receive

The future of a fetch carries its outcome from the leader to whoever joined it.
A read that waits for a future waits for the fetch of a read with its own client
and lock key, a settled future holds what that fetch came to, and so a read that
ends through a fetch ends with its outcome, unless it was cancelled, or led a
fetch whose future had been cancelled.
-/

namespace HeliosPermissions.SharedFetches

open JsonValues CacheKeys CacheStore HeliosResolution ClientWorld PartialRuns InFlightTable
open CallHistory CallShapes

variable {Raw : Type}

/-- What the Helios fetch of a read comes to, once it has been sampled. -/
def fetchOutcome (cfg : Config Raw) (s : ReadCall Raw) : Option Outcome :=
  s.sampled.map fun sample =>
    match fetchEnd s.userId s.tenantId sample.2 with
    | .resolved perms => .ok perms
    | .unreachable message => World.unreachableOutcome cfg s.client message
    | .escaped err => .error err

/-- The fetch of a leader found Helios unreachable, and its client denies then. -/
def DeniedFetch (cfg : Config Raw) (s : ReadCall Raw) : Prop :=
  ∃ n outcome message, s.sampled = some (n, outcome) ∧
    fetchEnd s.userId s.tenantId outcome = .unreachable message ∧
    cfg.staleOnError s.client = true

/-- A list is what Helios resolved, or the empty list of a denial. -/
theorem fetchOutcome_ok {cfg : Config Raw} {s : ReadCall Raw} {perms : List Json}
    (h : fetchOutcome cfg s = some (.ok perms)) :
    ReadResolved s perms ∨ perms = [] ∧ DeniedFetch cfg s := by
  obtain ⟨⟨n, outcome⟩, hsam, ho⟩ := Option.map_eq_some_iff.mp h
  cases he : fetchEnd s.userId s.tenantId outcome with
  | resolved perms' =>
    rw [he] at ho
    cases ho
    exact Or.inl ⟨n, outcome, hsam, he⟩
  | unreachable message =>
    rw [he] at ho
    have hdeny : World.unreachableOutcome cfg s.client message = .ok perms := ho
    unfold World.unreachableOutcome at hdeny
    split_ifs at hdeny with hstale
    cases hdeny
    exact Or.inr ⟨rfl, n, outcome, message, hsam, he, hstale⟩
  | escaped err =>
    rw [he] at ho
    cases ho

/-- A sample once taken decides the outcome for good. -/
theorem fetchOutcome_later {cfg : Config Raw} {s s' : ReadCall Raw} {o : Outcome}
    (h : fetchOutcome cfg s = some o) (hc : s'.client = s.client) (hu : s'.userId = s.userId)
    (ht : s'.tenantId = s.tenantId) (hs : ∀ x, s.sampled = some x → s'.sampled = some x) :
    fetchOutcome cfg s' = some o := by
  obtain ⟨sample, hsam, ho⟩ := Option.map_eq_some_iff.mp h
  exact Option.map_eq_some_iff.mpr ⟨sample, hs sample hsam, by rw [hc, hu, ht]; exact ho⟩

/-- The result that a leader settles its future with is the outcome of its fetch. -/
theorem fetchOutcome_of_result {cfg : Config Raw} {r : ReadCall Raw} {f : FutureId}
    {o : Outcome} (hshape : ReadShape cfg r) (h : FetchResult cfg r f o) :
    fetchOutcome cfg r = some o := by
  cases h with
  | unreachable hpc hsam he => simp [fetchOutcome, hsam, he]
  | populated hpc hport =>
    obtain ⟨n, outcome, hsam, he⟩ := hshape.populating _ _ hpc
    simp [fetchOutcome, hsam, he]

/-- The read that created a future, when it has this client and lock key. -/
def LeaderOf (w : World Raw) (f : FutureId) (c : ClientId) (k : String) (s : ReadCall Raw) :
    Prop :=
  ∃ leader, creatorOf w f = some leader ∧ w.reads[leader]? = some s ∧ s.client = c ∧ s.lock = k

/-- A future has one leader. -/
theorem LeaderOf.unique {w : World Raw} {f : FutureId} {c c' : ClientId} {k k' : String}
    {s s' : ReadCall Raw} (h : LeaderOf w f c k s) (h' : LeaderOf w f c' k' s') : s = s' := by
  obtain ⟨leader, hcr, hs, -⟩ := h
  obtain ⟨leader', hcr', hs', -⟩ := h'
  obtain rfl : leader = leader' := Option.some.inj (hcr.symm.trans hcr')
  exact Option.some.inj (hs.symm.trans hs')

/-- The leader of a future stays its leader, with what its fetch has come to. -/
theorem LeaderOf.later (cfg : Config Raw) {w v : World Raw} {f : FutureId} {c : ClientId}
    {k : String} {s : ReadCall Raw} (h : LeaderOf w f c k s) (hx : Extends w v) :
    ∃ s', LeaderOf v f c k s' ∧
      ∀ o, fetchOutcome cfg s = some o → fetchOutcome cfg s' = some o := by
  obtain ⟨leader, hcr, hs, hc, hk⟩ := h
  obtain ⟨s', hs', hc', hu', ht', -, -, hsam, -⟩ := hx.reads leader s hs
  have hlock : s'.lock = k := by
    rw [ReadCall.lock, hu', ht']
    exact hk
  exact ⟨s', ⟨leader, hx.creators f leader hcr, hs', hc'.trans hc, hlock⟩,
    fun o ho => fetchOutcome_later ho hc' hu' ht' hsam⟩

/-- How the outcome of a read that went through a fetch relates to the fetch. -/
def EndsWith (cfg : Config Raw) (s : ReadCall Raw) (o : Outcome) : Prop :=
  fetchOutcome cfg s = some o ∨ o = .error .cancelledError ∨ o = .error .invalidStateError

/-- Every waiter and every settled future belongs to the fetch of its leader. -/
structure Shared (cfg : Config Raw) (w : World Raw) : Prop where
  /-- A waiter's future has a leader for its pair and client. -/
  waiting : ∀ (i : ReadId) (r : ReadCall Raw) (f : FutureId), w.reads[i]? = some r →
    r.pc = .joined f → ∃ s, LeaderOf w f r.client r.lock s
  /-- A read ends as the fetch of its leader did. -/
  ended : ∀ (i : ReadId) (r : ReadCall Raw) (f : FutureId) (o : Outcome) (via : Via),
    w.reads[i]? = some r → r.pc = .done o via → via.future = some f →
    ∃ s, LeaderOf w f r.client r.lock s ∧ EndsWith cfg s o
  /-- A leader that has ended led its own future. -/
  own : ∀ (i : ReadId) (r : ReadCall Raw) (f : FutureId) (o : Outcome), w.reads[i]? = some r →
    r.pc = .done o (.led f) → creatorOf w f = some i
  /-- A settled future has the outcome of its leader's fetch. -/
  settled : ∀ (f : FutureId) (o : Outcome), w.futureState f = some (.ofOutcome o) →
    ∃ c k s, LeaderOf w f c k s ∧ fetchOutcome cfg s = some o

section steps

variable {cfg : Config Raw} {w w' : World Raw} {a : Action}

/-- The future that a read finds is that of a fetch under its key. -/
theorem leaderOf_finds (hown : Ownership w) {r : ReadCall Raw} {f : FutureId}
    (hfind : FindsFuture cfg w r f) : ∃ s, LeaderOf w f r.client r.lock s := by
  obtain ⟨leader, hholds⟩ := hown.running _ _ _ hfind.listed
  have hcr := hown.created _ _ _ _ hholds
  obtain ⟨s, hs, hc, hk, -⟩ := hholds
  exact ⟨s, leader, hcr, hs, hc, hk⟩

/-- A holder leads its own future. -/
theorem leaderOf_owned (hown : Ownership w) {i : ReadId} {r : ReadCall Raw} {f : FutureId}
    (hr : w.reads[i]? = some r) (ho : r.pc.owned = some f) :
    creatorOf w f = some i ∧ LeaderOf w f r.client r.lock r := by
  have hcr := hown.created i r.client r.lock f ⟨r, hr, rfl, rfl, ho⟩
  exact ⟨hcr, i, hcr, hr, rfl, rfl⟩

/-- A step keeps the waiters with their leaders. -/
theorem waiting_step (hown : Ownership w) (h : Shared cfg w) (hs : step cfg w a = some w')
    {i : ReadId} {r' : ReadCall Raw} {f : FutureId} (hr' : w'.reads[i]? = some r')
    (hpc : r'.pc = .joined f) : ∃ s, LeaderOf w' f r'.client r'.lock s := by
  have hlater : ∀ c k, (∃ s, LeaderOf w f c k s) → ∃ s, LeaderOf w' f c k s := by
    rintro c k ⟨s, hlead⟩
    obtain ⟨s', hlead', -⟩ := hlead.later cfg (step_extends hs)
    exact ⟨s', hlead'⟩
  rcases read_before hs hr' with hold | ⟨c, u, t, ask, -, -, rfl⟩ | ⟨r, hr, hmove⟩
  · exact hlater _ _ (h.waiting i r' f hold hpc)
  · cases hpc
  · cases hmove with
    | served => exact hlater _ _ (h.waiting i r f hr hpc)
    | sampled fate hfetch => rw [hfetch] at hpc; cases hpc
    | marked => exact hlater _ _ (h.waiting i r f hr hpc)
    | leads => cases hpc
    | joins hm hfind =>
      cases hpc
      exact hlater r.client r.lock (leaderOf_finds hown hfind)
    | populates => cases hpc
    | ends => cases hpc

/-- The future that ends a wait was settled with the outcome of the fetch, or cancelled. -/
theorem awaited_endsWith (h : Shared cfg w) {f : FutureId} {c : ClientId} {k : String}
    {s : ReadCall Raw} {o : Outcome} (hlead : LeaderOf w f c k s)
    (ho : (w.futureState f).bind FutureState.outcome = some o) : EndsWith cfg s o := by
  obtain ⟨st, hst, hout⟩ := Option.bind_eq_some_iff.mp ho
  have hsettled : st = .ofOutcome o → EndsWith cfg s o := by
    rintro rfl
    obtain ⟨c', k', s', hlead', hfetch⟩ := h.settled f o hst
    rw [hlead.unique hlead']
    exact Or.inl hfetch
  cases st with
  | pending => cases hout
  | result perms => cases hout; exact hsettled rfl
  | exception err => cases hout; exact hsettled rfl
  | cancelled => cases hout; exact Or.inr (Or.inl rfl)

/-- A read that ends through a fetch ends with what the fetch came to. -/
theorem readEnd_endsWith (hown : Ownership w) (hshape : CallsShaped cfg w) (h : Shared cfg w)
    {v : World Raw} {i : ReadId} {r : ReadCall Raw} {f : FutureId} {o : Outcome} {via : Via}
    (hr : w.reads[i]? = some r) (hend : ReadEnd cfg w v r o via) (hvia : via.future = some f) :
    (via = .led f → creatorOf w f = some i) ∧
      ∃ s, LeaderOf w f r.client r.lock s ∧ EndsWith cfg s o := by
  have hjoined : ∀ {g s}, via = .joined g → LeaderOf w f r.client r.lock s → EndsWith cfg s o →
      (via = .led f → creatorOf w f = some i) ∧
        ∃ s, LeaderOf w f r.client r.lock s ∧ EndsWith cfg s o := by
    intro g s hj hlead hends
    refine ⟨?_, s, hlead, hends⟩
    intro hled
    rw [hled] at hj
    cases hj
  have hled : r.pc.owned = some f → EndsWith cfg r o →
      (via = .led f → creatorOf w f = some i) ∧
        ∃ s, LeaderOf w f r.client r.lock s ∧ EndsWith cfg s o := by
    intro ho hends
    obtain ⟨hcr, hlead⟩ := leaderOf_owned hown hr ho
    exact ⟨fun _ => hcr, r, hlead, hends⟩
  cases hend with
  | cancelled hm hd =>
    have hcancelled : ∀ s, EndsWith cfg s (.error .cancelledError) := fun s => Or.inr (Or.inl rfl)
    cases hpc : r.pc with
    | cacheGet =>
      rw [hpc] at hvia
      cases hvia
    | joined g =>
      rw [hpc] at hvia
      obtain rfl : g = f := Option.some.inj hvia
      obtain ⟨s, hlead⟩ := h.waiting i r g hr hpc
      rw [hpc] at hjoined
      exact hjoined rfl hlead (hcancelled s)
    | heliosFetch g =>
      rw [hpc] at hvia hled
      obtain rfl : g = f := Option.some.inj hvia
      exact hled rfl (hcancelled r)
    | cacheSet g perms =>
      rw [hpc] at hvia hled
      obtain rfl : g = f := Option.some.inj hvia
      exact hled rfl (hcancelled r)
    | done o' via' =>
      rw [hpc] at hd
      cases hd
  | getRaises => cases hvia
  | getHits => cases hvia
  | @awaited g _ hm hf ho =>
    obtain rfl : g = f := Option.some.inj hvia
    have hlead : ∃ s, LeaderOf w g r.client r.lock s := by
      rcases hf with hpc | hfind
      · exact h.waiting i r g hr hpc
      · exact leaderOf_finds hown hfind
    obtain ⟨s, hlead⟩ := hlead
    exact hjoined rfl hlead (awaited_endsWith h hlead ho)
  | @settles g _ hm hres hpend hv =>
    obtain rfl : g = f := Option.some.inj hvia
    exact hled hres.owned (Or.inl (fetchOutcome_of_result (hshape.reads i r hr) hres))
  | @settledBefore g _ hm hres hpend =>
    obtain rfl : g = f := Option.some.inj hvia
    exact hled hres.owned (Or.inr (Or.inr rfl))
  | @escapes g n outcome err hm hpc hsam he =>
    obtain rfl : g = f := Option.some.inj hvia
    have hfetch : fetchOutcome cfg r = some (.error err) := by simp [fetchOutcome, hsam, he]
    exact hled (by rw [hpc]; rfl) (Or.inl hfetch)

/-- A step ends a read as the fetch of its leader did. -/
theorem ended_step (hown : Ownership w) (hshape : CallsShaped cfg w) (h : Shared cfg w)
    (hs : step cfg w a = some w') {i : ReadId} {r' : ReadCall Raw} {f : FutureId} {o : Outcome}
    {via : Via} (hr' : w'.reads[i]? = some r') (hpc : r'.pc = .done o via)
    (hvia : via.future = some f) :
    (via = .led f → creatorOf w' f = some i) ∧
      ∃ s, LeaderOf w' f r'.client r'.lock s ∧ EndsWith cfg s o := by
  have hx := step_extends hs
  have hlater : ∀ c k, (∃ s, LeaderOf w f c k s ∧ EndsWith cfg s o) →
      ∃ s, LeaderOf w' f c k s ∧ EndsWith cfg s o := by
    rintro c k ⟨s, hlead, hends⟩
    obtain ⟨s', hlead', hkeep⟩ := hlead.later cfg hx
    refine ⟨s', hlead', ?_⟩
    rcases hends with hfetch | hother
    · exact Or.inl (hkeep o hfetch)
    · exact Or.inr hother
  obtain ⟨r, hr, hclient, hu, ht, -, hend⟩ := done_before hs hr' hpc
  rw [hclient, ReadCall.lock, hu, ht, ← ReadCall.lock]
  rcases hend with hdone | hend
  · refine ⟨?_, hlater _ _ (h.ended i r f o via hr hdone hvia)⟩
    rintro rfl
    exact hx.creators f i (h.own i r f o hr hdone)
  · obtain ⟨hled, hlead⟩ := readEnd_endsWith hown hshape h hr hend hvia
    exact ⟨fun hv => hx.creators f i (hled hv), hlater r.client r.lock hlead⟩

/-- A step settles a future with the outcome of its leader's fetch. -/
theorem settled_step (hown : Ownership w) (hshape : CallsShaped cfg w) (h : Shared cfg w)
    (hs : step cfg w a = some w') {f : FutureId} {o : Outcome}
    (hf : w'.futureState f = some (.ofOutcome o)) :
    ∃ c k s, LeaderOf w' f c k s ∧ fetchOutcome cfg s = some o := by
  have hlater : ∀ c k s, LeaderOf w f c k s → fetchOutcome cfg s = some o →
      ∃ c k s, LeaderOf w' f c k s ∧ fetchOutcome cfg s = some o := by
    intro c k s hlead hfetch
    obtain ⟨s', hlead', hkeep⟩ := hlead.later cfg (step_extends hs)
    exact ⟨c, k, s', hlead', hkeep o hfetch⟩
  have hneither : FutureState.ofOutcome o ≠ .pending ∧ FutureState.ofOutcome o ≠ .cancelled := by
    cases o with
    | ok perms => exact ⟨by simp [FutureState.ofOutcome], by simp [FutureState.ofOutcome]⟩
    | error err => exact ⟨by simp [FutureState.ofOutcome], by simp [FutureState.ofOutcome]⟩
  rcases futureState_before hs hf with hold | ⟨-, hpend⟩ |
    ⟨-, i, r, outcome, -, hr, hres, hst⟩ | ⟨-, i, r, -, -, -, hcan⟩
  · obtain ⟨c, k, s, hlead, hfetch⟩ := h.settled f o hold
    exact hlater c k s hlead hfetch
  · exact absurd hpend hneither.1
  · have ho : outcome = o := by
      have hout := congrArg FutureState.outcome hst
      rw [FutureState.outcome_ofOutcome, FutureState.outcome_ofOutcome] at hout
      exact (Option.some.inj hout).symm
    subst ho
    exact hlater _ _ r (leaderOf_owned hown hr hres.owned).2
      (fetchOutcome_of_result (hshape.reads i r hr) hres)
  · exact absurd hcan hneither.2

/-- Every step keeps waiters and futures with their fetches. -/
theorem Shared.preserved (hown : Ownership w) (hshape : CallsShaped cfg w) (h : Shared cfg w)
    (hs : step cfg w a = some w') : Shared cfg w' where
  waiting _ _ _ hr hpc := waiting_step hown h hs hr hpc
  ended _ _ _ _ _ hr hpc hvia := (ended_step hown hshape h hs hr hpc hvia).2
  own _ _ _ _ hr hpc := (ended_step hown hshape h hs hr hpc rfl).1 rfl
  settled _ _ hf := settled_step hown hshape h hs hf

end steps

/-- The facts about calls, tables and futures that every reachable state has. -/
structure Consistent (cfg : Config Raw) (w : World Raw) : Prop where
  /-- The tables list the fetches under way. -/
  ownership : Ownership w
  /-- The calls have their shapes. -/
  shaped : CallsShaped cfg w
  /-- The waiters belong to their leaders. -/
  shared : Shared cfg w

/-- A step keeps a world consistent. -/
theorem Consistent.preserved {cfg : Config Raw} {w w' : World Raw} {a : Action}
    (h : Consistent cfg w) (hs : step cfg w a = some w') : Consistent cfg w' where
  ownership := h.ownership.preserved (step_tableChange hs)
  shaped := h.shaped.preserved hs
  shared := h.shared.preserved h.ownership h.shaped hs

/-- At the start there is nothing in flight. -/
theorem init_consistent (cfg : Config Raw) (content : OrderedDict String (Raw × Option ℕ))
    (membership : String → String → Json) : Consistent cfg (.init content membership) where
  ownership := init_ownership content membership
  shaped := init_callsShaped cfg content membership
  shared := {
    waiting := fun _ _ _ h => by cases h
    ended := fun _ _ _ _ _ h => by cases h
    own := fun _ _ _ _ h => by cases h
    settled := fun _ _ h => by cases h }

theorem Consistent.after {cfg : Config Raw} {w w' : World Raw} {as : List Action}
    (h : Consistent cfg w) (hr : run (step cfg) w as = some w') : Consistent cfg w' :=
  run_preserves (Consistent cfg) (fun _ _ _ hw hs => hw.preserved hs) hr h

end HeliosPermissions.SharedFetches
