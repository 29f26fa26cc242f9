import HeliosPermissions.SharedFetches

/-!
# What the exceptions of a call come from

A failed cache command never ends a read: the GET counts as a miss and the SET as done.
What does end it is listed here, with the event that it can be traced to, over every
interleaving of the calls: a cancellation of the read itself or of a caller that shares
its fetch, stored text that cannot be decoded, a fetch that found Helios unreachable, or
a body that the client does not expect. A mutating call raises only what its own command
raised, and `write_through` not even that.
-/

namespace HeliosPermissions.CallFailures

open JsonValues CacheStore HeliosResolution ClientWorld PartialRuns IndexedTables
open InFlightTable CallHistory CallShapes SharedFetches

variable {Raw : Type}

/-- A caller that joined the fetch behind a future was cancelled. -/
def JoinerCancelled (w : World Raw) (f : FutureId) : Prop :=
  ∃ (j : ReadId) (s : ReadCall Raw), w.reads[j]? = some s ∧ s.cancelCalled = true ∧
    (s.pc = .joined f ∨ ∃ o, s.pc = .done o (.joined f))

/-- The fetch behind a future, of this client and key, found Helios unreachable. -/
def FoundUnreachable (w : World Raw) (f : FutureId) (c : ClientId) (k message : String) : Prop :=
  ∃ s n outcome, LeaderOf w f c k s ∧ s.sampled = some (n, outcome) ∧
    fetchEnd s.userId s.tenantId outcome = .unreachable message

/-- Text that has stood under a key in the course of a run. -/
def Stood (cfg : Config Raw) (start : World Raw) (as : List Action) (k : String) (raw : Raw) :
    Prop :=
  ∃ bs cs v e, bs ++ cs = as ∧ run (step cfg) start bs = some v ∧
    v.store.get? k = some e ∧ e.raw = raw

/-- What an exception that a read raised comes from, when `stood` tells what text has stood
under which key. -/
inductive Cause (cfg : Config Raw) (stood : String → Raw → Prop) (w : World Raw)
    (r : ReadCall Raw) (err : PyError) : Via → Prop
  /-- The read itself was cancelled. -/
  | cancelled {via : Via} (hc : r.cancelCalled = true) (he : err = .cancelledError) :
    Cause cfg stood w r err via
  /-- Its GET replied with text that stood under its key and cannot be decoded, in a way that
  `get` does not catch. -/
  | undecodable {raw : Raw} (hport : r.port = .replied (.value (some raw)))
      (hstood : stood (cfg.backend.key r.userId r.tenantId) raw)
      (hl : cfg.backend.loads raw = .error err) (he : err ≠ .jsonDecodeError) :
      Cause cfg stood w r err .cache
  /-- Its fetch found Helios unreachable, and its client does not deny then. -/
  | unreachable {via : Via} {f : FutureId} {message : String} (hvia : via.future = some f)
      (hfound : FoundUnreachable w f r.client r.lock message)
      (hs : cfg.staleOnError r.client = false) (he : err = .heliosUnreachable message) :
    Cause cfg stood w r err via
  /-- It led a fetch that was answered in a way that the client does not expect. -/
  | escaped {f : FutureId} {n : ℕ} {outcome : HttpOutcome} (hsam : r.sampled = some (n, outcome))
      (he : fetchEnd r.userId r.tenantId outcome = .escaped err) : Cause cfg stood w r err (.led f)
  /-- A caller that joined the same fetch was cancelled: the others are cancelled with it,
  and the leader finds its future done. -/
  | joinerCancelled {via : Via} {f : FutureId} (hvia : via.future = some f)
      (hj : JoinerCancelled w f)
      (he : via = .joined f ∧ err = .cancelledError ∨ via = .led f ∧ err = .invalidStateError) :
    Cause cfg stood w r err via

/-- A future was cancelled by a caller that joined it, or raises what its fetch raised. -/
structure FutureCauses (cfg : Config Raw) (w : World Raw) : Prop where
  /-- Only a cancelled call has its flag set. -/
  marked : ∀ (i : ReadId) (r : ReadCall Raw), w.reads[i]? = some r → r.mustCancel = true →
    r.cancelCalled = true
  /-- A cancelled future was cancelled by one of its callers. -/
  cancelled : ∀ f, w.futureState f = some .cancelled → JoinerCancelled w f
  /-- A raising future has found Helios unreachable. -/
  raised : ∀ f err, w.futureState f = some (.exception err) → ∃ message c k,
    err = .heliosUnreachable message ∧ FoundUnreachable w f c k message ∧
      cfg.staleOnError c = false
  /-- Nobody owns a future that has an outcome. -/
  settled : ∀ (f : FutureId) (o : Outcome), w.futureState f = some (.ofOutcome o) →
    ∀ (i : ReadId) (r : ReadCall Raw), w.reads[i]? = some r → r.pc.owned ≠ some f

/-- Only a fetch that found Helios unreachable ends in an exception that is handed on. -/
theorem FetchResult.error {cfg : Config Raw} {r : ReadCall Raw} {f : FutureId} {err : PyError}
    (h : FetchResult cfg r f (.error err)) : cfg.staleOnError r.client = false ∧
      ∃ message n outcome, err = .heliosUnreachable message ∧ r.sampled = some (n, outcome) ∧
        fetchEnd r.userId r.tenantId outcome = .unreachable message := by
  generalize ho : (Except.error err : Outcome) = o at h
  cases h with
  | populated => cases ho
  | unreachable hpc hsam he =>
    unfold World.unreachableOutcome at ho
    split_ifs at ho with hstale
    cases ho
    exact ⟨Bool.eq_false_of_not_eq_true hstale, _, _, _, rfl, hsam, he⟩

/-- A GET raises on text that it was given. -/
theorem decodeGet_error {backend : Backend Raw} {reply : Reply Raw} {err : PyError}
    (h : decodeGet backend reply = .error err) : ∃ raw, reply = .value (some raw) ∧
      backend.loads raw = .error err ∧ err ≠ .jsonDecodeError := by
  unfold decodeGet at h
  split at h
  next raw =>
    split at h
    next => cases h
    next => cases h
    next => cases h
    next e hne hl =>
      cases h
      exact ⟨raw, rfl, hl, hne⟩
  next => cases h

/-- What was found stays found. -/
theorem FoundUnreachable.later {w v : World Raw} {f : FutureId} {c : ClientId} {k message : String}
    (h : FoundUnreachable w f c k message) (hx : Extends w v) :
    FoundUnreachable v f c k message := by
  obtain ⟨s, n, outcome, ⟨leader, hcr, hs, hc, hk⟩, hsam, he⟩ := h
  obtain ⟨s', hs', hc', hu', ht', -, -, hsam', -⟩ := hx.reads leader s hs
  have hlock : s'.lock = k := by
    rw [ReadCall.lock, hu', ht']
    exact hk
  exact ⟨s', n, outcome, ⟨leader, hx.creators f leader hcr, hs', hc'.trans hc, hlock⟩,
    hsam' _ hsam, by rw [hu', ht']; exact he⟩

/-- What has stood has stood later on too. -/
theorem Stood.later {cfg : Config Raw} {start : World Raw} {as : List Action} {k : String}
    {raw : Raw} (h : Stood cfg start as k raw) (a : Action) :
    Stood cfg start (as ++ [a]) k raw := by
  obtain ⟨bs, cs, v, e, rfl, hr, he, hraw⟩ := h
  exact ⟨bs, cs ++ [a], v, e, (List.append_assoc _ _ _).symm, hr, he, hraw⟩

/-- Text that a GET has brought back to a read has stood under the key of the read. -/
def RepliesStood (cfg : Config Raw) (stood : String → Raw → Prop) (w : World Raw) : Prop :=
  ∀ (i : ReadId) (r : ReadCall Raw) (raw : Raw), w.reads[i]? = some r →
    r.port = .replied (.value (some raw)) → stood (cfg.backend.key r.userId r.tenantId) raw

section steps

variable {cfg : Config Raw} {w w' : World Raw} {a : Action} {stood stood' : String → Raw → Prop}

/-- A cancelled caller stays cancelled. -/
theorem JoinerCancelled.step {f : FutureId} (h : JoinerCancelled w f)
    (hs : step cfg w a = some w') : JoinerCancelled w' f := by
  obtain ⟨j, s, hr, hc, hpc⟩ := h
  obtain ⟨s', hr', rfl | hmove⟩ := read_after hs hr
  · exact ⟨j, _, hr', hc, hpc⟩
  · refine ⟨j, s', hr', hmove.called_kept hc, ?_⟩
    rcases hpc with hpc | ⟨o, hpc⟩
    · rcases hmove.at_joined hpc with hstill | ⟨o, hdone, -⟩
      · exact Or.inl hstill
      · exact Or.inr ⟨o, hdone⟩
    · exact Or.inr ⟨o, (hmove.of_done hpc).1⟩

/-- A caller that cancels a pending future is remembered as cancelled. -/
theorem joinerCancelled_of_cancel {i : ReadId} {r : ReadCall Raw} {f : FutureId}
    (hs : step cfg w (.cancel i) = some w') (hr : w.reads[i]? = some r)
    (hpc : r.pc = .joined f) : JoinerCancelled w' f := by
  obtain ⟨v, hv, rfl⟩ := step_transition hs
  have hsame {s : ReadCall Raw} (hs : w.reads[i]? = some s) : s = r :=
    Option.some.inj (hs.symm.trans hr)
  cases hv with
  | cancelsFuture hr' =>
    obtain rfl := hsame hr'
    exact ⟨i, _, get_set_self hr, rfl, Or.inl hpc⟩
  | cancelIgnored hr' hd =>
    obtain rfl := hsame hr'
    rw [hpc] at hd
    cases hd
  | cancelMarked hr' =>
    obtain rfl := hsame hr'
    exact ⟨i, _, get_set_self hr, rfl, Or.inl hpc⟩

/-- The flag of a call is set by a cancellation. -/
theorem marked_step (h : FutureCauses cfg w) (hs : step cfg w a = some w') {i : ReadId}
    {r' : ReadCall Raw} (hr' : w'.reads[i]? = some r') (hm : r'.mustCancel = true) :
    r'.cancelCalled = true := by
  rcases read_before hs hr' with hold | ⟨c, u, t, ask, -, -, rfl⟩ | ⟨r, hr, hmove⟩
  · exact h.marked i r' hold hm
  · cases hm
  · exact hmove.marked_called (h.marked i r hr) hm

/-- A future is cancelled by a caller that joined it. -/
theorem cancelled_step (h : FutureCauses cfg w) (hs : step cfg w a = some w') {f : FutureId}
    (hf : w'.futureState f = some .cancelled) : JoinerCancelled w' f := by
  rcases futureState_before hs hf with hold | ⟨-, hpend⟩ |
    ⟨-, i, r, outcome, -, -, -, hout⟩ | ⟨-, i, r, rfl, hr, hpc, -⟩
  · exact (h.cancelled f hold).step hs
  · cases hpend
  · cases outcome <;> cases hout
  · exact joinerCancelled_of_cancel hs hr hpc

/-- A future is given an exception by a leader that found Helios unreachable. -/
theorem raised_step (hcon : Consistent cfg w) (h : FutureCauses cfg w)
    (hs : step cfg w a = some w') {f : FutureId} {err : PyError}
    (hf : w'.futureState f = some (.exception err)) : ∃ message c k,
      err = .heliosUnreachable message ∧ FoundUnreachable w' f c k message ∧
        cfg.staleOnError c = false := by
  have hx := step_extends hs
  rcases futureState_before hs hf with hold | ⟨-, hpend⟩ |
    ⟨-, i, r, outcome, -, hr, hres, hout⟩ | ⟨-, i, r, -, -, -, hcan⟩
  · obtain ⟨message, c, k, he, hfound, hstale⟩ := h.raised f err hold
    exact ⟨message, c, k, he, hfound.later hx, hstale⟩
  · cases hpend
  · cases outcome with
    | ok perms => cases hout
    | error e =>
      cases hout
      obtain ⟨hstale, message, n, outcome, he, hsam, hends⟩ := FetchResult.error hres
      have hlead := (leaderOf_owned hcon.ownership hr hres.owned).2
      have hfound : FoundUnreachable w f r.client r.lock message :=
        ⟨r, n, outcome, hlead, hsam, hends⟩
      exact ⟨message, r.client, r.lock, he, hfound.later hx, hstale⟩
  · cases hcan

/-- Whoever settles its future is done with it. -/
theorem settler_ends {i : ReadId} {r r' : ReadCall Raw} {f : FutureId} {o : Outcome}
    (hs : step cfg w (.resumeRead i) = some w') (hr : w.reads[i]? = some r)
    (hres : FetchResult cfg r f o) (hr' : w'.reads[i]? = some r') : r'.pc.owned = none := by
  obtain ⟨s, s', hs₀, hs₁, hmove⟩ := resume_readMove hs
  obtain rfl : s = r := Option.some.inj (hs₀.symm.trans hr)
  obtain rfl : s' = r' := Option.some.inj (hs₁.symm.trans hr')
  cases hmove with
  | leads hpc =>
    have ho := hres.owned
    rw [hpc] at ho
    cases ho
  | joins hm hfind => rfl
  | populates hpc hsam he =>
    -- the fetch resolved, and a result at this point would be that Helios was unreachable
    cases hres with
    | unreachable hpc' hsam' he' =>
      rw [hsam] at hsam'
      cases hsam'
      rw [he] at he'
      cases he'
    | populated hpc' =>
      rw [hpc] at hpc'
      cases hpc'
  | ends hend => rfl

/-- Whoever settles a future gives it up with the same step. -/
theorem settled_not_owned (hcon : Consistent cfg w) (h : FutureCauses cfg w)
    (hs : step cfg w a = some w') {f : FutureId} {o : Outcome}
    (hf : w'.futureState f = some (.ofOutcome o)) {i : ReadId} {r' : ReadCall Raw}
    (hr' : w'.reads[i]? = some r') : r'.pc.owned ≠ some f := by
  intro ho
  have hcon' := hcon.preserved hs
  rcases futureState_before hs hf with hold | ⟨-, hpend⟩ |
    ⟨-, j, r, outcome, rfl, hr, hres, -⟩ | ⟨-, j, r, -, -, -, hcan⟩
  · have hbefore := h.settled f o hold
    rcases read_before hs hr' with hsame | ⟨c, u, t, ask, -, -, rfl⟩ | ⟨r, hr, hmove⟩
    · exact hbefore i r' hsame ho
    · cases ho
    · cases hmove with
      | leads hpc =>
        cases ho
        obtain ⟨fut, hfut, -⟩ := Option.map_eq_some_iff.mp hold
        exact absurd (lt_length_of_get hfut) (Nat.lt_irrefl _)
      | joins => cases ho
      | populates hpc => exact hbefore i r hr (by rw [hpc]; exact ho)
      | ends => cases ho
      | _ => exact hbefore i r hr ho
  · cases o <;> cases hpend
  · -- the creator settled it, and only the creator can own it
    have hcreator := (leaderOf_owned hcon.ownership hr hres.owned).1
    have hcreator' := (step_extends hs).creators f j hcreator
    have hi := (leaderOf_owned hcon'.ownership hr' ho).1
    obtain rfl : j = i := Option.some.inj (hcreator'.symm.trans hi)
    rw [settler_ends hs hr hres hr'] at ho
    cases ho
  · cases o <;> cases hcan

/-- Every step keeps the four. -/
theorem FutureCauses.preserved (hcon : Consistent cfg w) (h : FutureCauses cfg w)
    (hs : step cfg w a = some w') : FutureCauses cfg w' where
  marked _ _ hr hm := marked_step h hs hr hm
  cancelled _ hf := cancelled_step h hs hf
  raised _ _ hf := raised_step hcon h hs hf
  settled _ _ hf _ _ hr := settled_not_owned hcon h hs hf hr

/-- A read is replied to with text from under its key. -/
theorem RepliesStood.preserved (hcon : Consistent cfg w) (h : RepliesStood cfg stood w)
    (hstood : ∀ k raw, stood k raw → stood' k raw)
    (hnow : ∀ k e, w.store.get? k = some e → stood' k e.raw) (hs : step cfg w a = some w') :
    RepliesStood cfg stood' w' := by
  intro i r' raw hr' hport
  rcases read_before hs hr' with hold | ⟨c, u, t, ask, -, -, rfl⟩ | ⟨r, hr, hmove⟩
  · exact hstood _ _ (h i r' raw hold hport)
  · cases hport
  · cases hmove with
    | served hsent hserve =>
      obtain rfl := Port.replied.inj hport
      rcases (hcon.shaped.reads i r hr).command _ hsent with rfl | ⟨perms, rfl, -⟩
      · -- the GET of the read, which finds what stands there now
        rcases (serve_get hserve).2 with hfailed | hvalue
        · cases hfailed
        · obtain ⟨e, he, rfl⟩ := Option.map_eq_some_iff.mp (Reply.value.inj hvalue).symm
          exact hnow _ e he
      · rcases serve_set hserve with hfailed | ⟨written, hstored⟩
        · cases hfailed
        · cases hstored
    | populates => cases hport
    | _ => exact hstood _ _ (h i r raw hr hport)

/-- The cause of an exception stays its cause. -/
theorem Cause.step {r r' : ReadCall Raw} {err : PyError} {via : Via}
    (h : Cause cfg stood w r err via) (hstood : ∀ k raw, stood k raw → stood' k raw)
    (hs : step cfg w a = some w') (hc : r'.client = r.client)
    (hu : r'.userId = r.userId) (ht : r'.tenantId = r.tenantId)
    (hport : ∀ reply, r.port = .replied reply → r'.port = .replied reply)
    (hsam : ∀ x, r.sampled = some x → r'.sampled = some x)
    (hcall : r.cancelCalled = true → r'.cancelCalled = true) : Cause cfg stood' w' r' err via := by
  cases h with
  | cancelled hcan he => exact .cancelled (hcall hcan) he
  | undecodable hreply hthere hl he =>
    exact .undecodable (hport _ hreply) (by rw [hu, ht]; exact hstood _ _ hthere) hl he
  | unreachable hvia hfound hstale he =>
    have hlater := hfound.later (step_extends hs)
    exact .unreachable hvia (by rw [hc, ReadCall.lock, hu, ht]; exact hlater)
      (by rw [hc]; exact hstale) he
  | escaped hsampled he => exact .escaped (hsam _ hsampled) (by rw [hu, ht]; exact he)
  | joinerCancelled hvia hj he => exact .joinerCancelled hvia (hj.step hs) he

/-- The exception of a shared future is that of a fetch that found Helios unreachable, or
the cancellation of a caller. -/
theorem awaited_cause (hcon : Consistent cfg w) (h : FutureCauses cfg w) {i : ReadId}
    {r : ReadCall Raw} {f : FutureId} {err : PyError} (hr : w.reads[i]? = some r)
    (hf : r.pc = .joined f ∨ FindsFuture cfg w r f)
    (ho : (w.futureState f).bind FutureState.outcome = some (.error err)) :
    Cause cfg stood w r err (.joined f) := by
  obtain ⟨st, hst, hout⟩ := Option.bind_eq_some_iff.mp ho
  cases st with
  | pending => cases hout
  | result perms => cases hout
  | cancelled =>
    cases hout
    exact .joinerCancelled rfl (h.cancelled f hst) (Or.inl ⟨rfl, rfl⟩)
  | exception e =>
    cases hout
    obtain ⟨message, c, k, he, hfound, hstale⟩ := h.raised f _ hst
    have hmine : ∃ s, LeaderOf w f r.client r.lock s := by
      rcases hf with hpc | hfind
      · exact hcon.shared.waiting i r f hr hpc
      · exact leaderOf_finds hcon.ownership hfind
    obtain ⟨s', hlead'⟩ := hmine
    obtain ⟨s, n, outcome, hlead, hsam, hends⟩ := hfound
    obtain rfl := hlead.unique hlead'
    have hclient : c = r.client := by
      obtain ⟨-, -, -, hc, -⟩ := hlead
      obtain ⟨-, -, -, hc', -⟩ := hlead'
      exact hc.symm.trans hc'
    exact .unreachable rfl ⟨s, n, outcome, hlead', hsam, hends⟩ (by rw [← hclient]; exact hstale) he

/-- An owner finds its future pending, or cancelled by a caller that joined it. -/
theorem owned_pending_or_cancelled (hcon : Consistent cfg w) (h : FutureCauses cfg w)
    {i : ReadId} {r : ReadCall Raw} {f : FutureId} (hr : w.reads[i]? = some r)
    (ho : r.pc.owned = some f) : w.futureState f = some .pending ∨ JoinerCancelled w f := by
  obtain ⟨fut, hfut, -⟩ :=
    Option.map_eq_some_iff.mp (leaderOf_owned hcon.ownership hr ho).1
  have hst : w.futureState f = some fut.state := by simp [World.futureState, hfut]
  cases hstate : fut.state with
  | pending => exact Or.inl (by rw [hst, hstate])
  | cancelled => exact Or.inr (h.cancelled f (by rw [hst, hstate]))
  | result perms =>
    exact absurd ho (h.settled f (.ok perms) (by rw [hst, hstate]; rfl) i r hr)
  | exception err =>
    exact absurd ho (h.settled f (.error err) (by rw [hst, hstate]; rfl) i r hr)

/-- The exception of a read that ends has its cause. -/
theorem readEnd_cause (hcon : Consistent cfg w) (h : FutureCauses cfg w) {i : ReadId}
    {r : ReadCall Raw} {err : PyError} {via : Via} (hr : w.reads[i]? = some r)
    (hreplies : RepliesStood cfg stood w) (hend : ReadEnd cfg w w' r (.error err) via) :
    Cause cfg stood w r err via := by
  generalize hout : (Except.error err : Outcome) = o at hend
  cases hend with
  | cancelled hm hd =>
    cases hout
    exact .cancelled (h.marked i r hr hm) rfl
  | getRaises hpc hport hd =>
    cases hout
    obtain ⟨raw, rfl, hl, hne⟩ := decodeGet_error hd
    exact .undecodable hport (hreplies i r raw hr hport) hl hne
  | getHits => cases hout
  | awaited hm hf ho =>
    subst hout
    exact awaited_cause hcon h hr hf ho
  | settles hm hres hpend hv =>
    subst hout
    obtain ⟨hstale, message, n, outcome, he, hsam, hends⟩ := FetchResult.error hres
    have hlead := (leaderOf_owned hcon.ownership hr hres.owned).2
    exact .unreachable rfl ⟨r, n, outcome, hlead, hsam, hends⟩ hstale he
  | settledBefore hm hres hf =>
    cases hout
    rcases owned_pending_or_cancelled hcon h hr hres.owned with hpend | hj
    · exact absurd hpend hf
    · exact .joinerCancelled rfl hj (Or.inr ⟨rfl, rfl⟩)
  | escapes hm hpc hsam he =>
    cases hout
    exact .escaped hsam he

/-- Every exception of an ended read has its cause. -/
def ReadsExplained (cfg : Config Raw) (stood : String → Raw → Prop) (w : World Raw) : Prop :=
  ∀ (i : ReadId) (r : ReadCall Raw) (err : PyError) (via : Via), w.reads[i]? = some r →
    r.pc = .done (.error err) via → Cause cfg stood w r err via

/-- Every step keeps the causes, and a read that it ends has one. -/
theorem readsExplained_step (hcon : Consistent cfg w) (h : FutureCauses cfg w)
    (hreplies : RepliesStood cfg stood w) (hex : ReadsExplained cfg stood w)
    (hstood : ∀ k raw, stood k raw → stood' k raw) (hs : step cfg w a = some w') :
    ReadsExplained cfg stood' w' := by
  intro i r' err via hr' hpc
  rcases read_before hs hr' with hold | ⟨c, u, t, ask, -, -, rfl⟩ | ⟨r, hr, hmove⟩
  · exact (hex i r' err via hold hpc).step hstood hs rfl rfl rfl (fun _ hp => hp)
      (fun _ hx => hx) fun hc => hc
  · cases hpc
  · obtain ⟨hc, hu, ht, -, -⟩ := hmove.same_call
    have hkept : (∀ reply, r.port = .replied reply → r'.port = .replied reply) →
        r.pc = .done (.error err) via → Cause cfg stood' w' r' err via := fun hport hdone =>
      (hex i r err via hr hdone).step hstood hs hc hu ht hport
        (fun _ hx => hmove.sampled_kept hx) fun hcalled => hmove.called_kept hcalled
    cases hmove with
    | served hsent =>
      refine hkept ?_ hpc
      intro reply hreplied
      rw [hsent] at hreplied
      cases hreplied
    | sampled => exact hkept (fun _ hp => hp) hpc
    | marked => exact hkept (fun _ hp => hp) hpc
    | leads => cases hpc
    | joins => cases hpc
    | populates => cases hpc
    | ends hend =>
      cases hpc
      exact (readEnd_cause hcon h hr hreplies hend).step hstood hs rfl rfl rfl (fun _ hp => hp)
        (fun _ hx => hx) fun hc => hc

/-- What a mutating call raises is what its last command raised, and `write_through`
raises nothing. -/
def MutationsExplained (w : World Raw) : Prop :=
  ∀ (j : MutationId) (m : MutationCall Raw) (err : PyError), w.mutations[j]? = some m →
    m.pc = .done (.error err) → err = .redisError ∧ m.port = .replied .failed ∧
      ∀ u t perms, m.request ≠ .writeThrough u t perms

/-- A reply on which a mutating call raises is a failure, and is not one of a SET. -/
theorem advance_error {now : ℕ} {m m' : MutationCall Raw} {reply : Reply Raw} {err : PyError}
    (h : m.advance now reply = some m') (hpc : m'.pc = .done (.error err)) :
    err = .redisError ∧ reply = .failed ∧ m'.port = m.port ∧ m.pc ≠ .writing := by
  cases hm : m.pc with
  | writing =>
    simp only [MutationCall.advance, hm, Option.some.injEq] at h
    subst h
    cases hpc
  | deleting =>
    cases reply with
    | failed =>
      simp only [MutationCall.advance, hm, Option.some.injEq] at h
      subst h
      cases hpc
      exact ⟨rfl, rfl, rfl, by simp⟩
    | deleted count =>
      simp only [MutationCall.advance, hm, Option.some.injEq] at h
      subst h
      cases hpc
    | _ => simp [MutationCall.advance, hm] at h
  | scanning scope total =>
    rcases advance_scan hm h with ⟨rfl, rfl⟩ | ⟨cursor, keys, -, hnext⟩
    · cases hpc
      exact ⟨rfl, rfl, rfl, by simp⟩
    · rcases hnext with ⟨-, -, rfl⟩ | ⟨-, -, rfl⟩ | ⟨-, rfl⟩ <;> cases hpc
  | deletingPage scope total cursor =>
    rcases advance_deletingPage hm h with ⟨rfl, rfl⟩ | ⟨count, -, hnext⟩
    · cases hpc
      exact ⟨rfl, rfl, rfl, by simp⟩
    · rcases hnext with ⟨-, rfl⟩ | ⟨-, rfl⟩ <;> cases hpc
  | done o => simp [MutationCall.advance, hm] at h

/-- Every step keeps that, and a mutating call that it ends raises so. -/
theorem mutationsExplained_step (hcon : Consistent cfg w) (h : MutationsExplained w)
    (hs : step cfg w a = some w') : MutationsExplained w' := by
  intro j m' err hm' hpc
  rcases mutation_before hs hm' with hold | ⟨request, -, -, rfl⟩ | ⟨m, hm, hmove⟩
  · exact h j m' err hold hpc
  · cases request with
    | writeThrough u t perms => cases hpc
    | invalidate u t? => cases t? <;> cases hpc
    | invalidateTenant t => cases hpc
  · cases hmove with
    | served hport hserve =>
      exact absurd hpc ((hcon.shaped.mutations j m hm).not_done hport (.error err))
    | resumed hport ha =>
      obtain ⟨he, rfl, hkept, hw⟩ := advance_error ha hpc
      refine ⟨he, hkept.trans hport, ?_⟩
      intro u t perms hq
      rw [(advance_same_call ha).1] at hq
      cases hcon.shaped.mutations j m hm with
      | writing _ hwriting => exact hw hwriting
      | deleting hq' => rw [hq] at hq'; cases hq'
      | scanning hq' => rw [hq] at hq'; cases hq'
      | deletingPage hq' => rw [hq] at hq'; cases hq'
      | done hdone => simp [MutationCall.advance, hdone] at ha

end steps

/-- At the start there is neither a call nor a future. -/
theorem init_futureCauses (cfg : Config Raw) (content : OrderedDict String (Raw × Option ℕ))
    (membership : String → String → Json) : FutureCauses cfg (.init content membership) where
  marked _ _ h := by cases h
  cancelled _ h := by cases h
  raised _ _ h := by cases h
  settled _ _ h := by cases h

/-- What holds between the actions of a run and its end. -/
structure Explained (cfg : Config Raw) (start : World Raw) (as : List Action) (w : World Raw) :
    Prop where
  /-- The actions lead there. -/
  ran : run (step cfg) start as = some w
  /-- The calls, the tables and the futures fit together. -/
  consistent : Consistent cfg w
  /-- Futures have their causes. -/
  futures : FutureCauses cfg w
  /-- Replies have stood in the store. -/
  replies : RepliesStood cfg (Stood cfg start as) w
  /-- Reads have raised for a cause. -/
  reads : ReadsExplained cfg (Stood cfg start as) w
  /-- So have mutating calls. -/
  mutations : MutationsExplained w

/-- Every step keeps it, over the actions with one more. -/
theorem Explained.step {cfg : Config Raw} {start : World Raw} {as : List Action} {w w' : World Raw}
    {a : Action} (h : Explained cfg start as w) (hs : step cfg w a = some w') :
    Explained cfg start (as ++ [a]) w' := by
  have hstood : ∀ k raw, Stood cfg start as k raw → Stood cfg start (as ++ [a]) k raw :=
    fun _ _ hthere => hthere.later a
  have hnow : ∀ k e, w.store.get? k = some e → Stood cfg start (as ++ [a]) k e.raw :=
    fun _ e he => ⟨as, [a], w, e, rfl, h.ran, he, rfl⟩
  exact ⟨run_append_iff.mpr ⟨w, h.ran, run_cons_iff.mpr ⟨w', hs, rfl⟩⟩,
    h.consistent.preserved hs, h.futures.preserved h.consistent hs,
    h.replies.preserved h.consistent hstood hnow hs,
    readsExplained_step h.consistent h.futures h.replies h.reads hstood hs,
    mutationsExplained_step h.consistent h.mutations hs⟩

/-- In every run, whatever fails and is cancelled: an exception that a read raised comes from
its own cancellation, from text that its GET brought back from under its key and that cannot
be decoded, from a fetch of its client and key that found Helios unreachable, for a client
that does not deny then, from a body that the leader does not expect, or from the
cancellation of a caller that joined the same fetch; an exception that a mutating call raised
is the failure of its last command, and `write_through` raises none. -/
theorem failures_explained {cfg : Config Raw} {content : OrderedDict String (Raw × Option ℕ)}
    {membership : String → String → Json} {as : List Action} {w : World Raw}
    (h : run (step cfg) (.init content membership) as = some w) :
    (∀ (i : ReadId) (r : ReadCall Raw) (err : PyError) (via : Via), w.reads[i]? = some r →
      r.pc = .done (.error err) via →
        Cause cfg (Stood cfg (.init content membership) as) w r err via) ∧
    (∀ (j : MutationId) (m : MutationCall Raw) (err : PyError), w.mutations[j]? = some m →
      m.pc = .done (.error err) → err = .redisError ∧ m.port = .replied .failed ∧
        ∀ u t perms, m.request ≠ .writeThrough u t perms) := by
  have hstart : Explained cfg (.init content membership) [] (.init content membership) :=
    ⟨rfl, init_consistent cfg content membership, init_futureCauses cfg content membership,
      fun _ _ _ h => (nomatch h), fun _ _ _ _ h => (nomatch h), fun _ _ _ h => (nomatch h)⟩
  have hend := run_history (Q := Explained cfg (.init content membership))
    (fun _ _ _ _ hex hs => hex.step hs) h hstart
  rw [List.nil_append] at hend
  exact ⟨hend.reads, hend.mutations⟩

/-- A cold read whose fetch fails, for a client that does not deny then. -/
def unreachableRun : List Action :=
  [.read 0 "user-1" "tenant-1" .getUserPermissions, .serveRead 0 (.fails false), .resumeRead 0,
    .sample 0 (.fault .raised), .resumeRead 0]

/-- The exception of this read comes from its own fetch. -/
theorem failures_explained_unreachableRun : ∃ r err via,
    (endOf false unreachableRun).reads[0]? = some r ∧ r.pc = .done (.error err) via ∧
      Cause (fixedConfig false) (Stood (fixedConfig false) fixedWorld unreachableRun)
        (endOf false unreachableRun) r err via :=
  ⟨_, _, _, rfl, rfl, (failures_explained (run_endOf rfl)).1 0 _ _ _ rfl rfl⟩

end HeliosPermissions.CallFailures
