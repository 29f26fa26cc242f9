import HeliosPermissions.CoherentSessions
import HeliosPermissions.ReadProvenance
import HeliosPermissions.StaleEntries

/-!
# Pairs that have settled

Reads of one pair that overlap a change of its list can put the old list back after
every invalidation. This ends with the overlap: once no read of the pair under way
carries an outdated answer of Helios, one more invalidation that returns normally is
enough, and from then on all reads of the pair that begin have the list that Helios
has, however the clients, the server and Helios interleave, until the list changes
again.
-/

namespace HeliosPermissions.SettledPairs

open JsonValues CacheKeys CacheStore HeliosResolution ClientWorld PartialRuns InFlightTable
open CallHistory CallShapes KeyedWrites SharedFetches ReadProvenance StaleEntries
open GlobPattern (GlobFree isMetaChar)
open CoherentSessions (Truthful)

variable {Raw : Type}

/-- Helios has this list for a pair. -/
def Current (w : World Raw) (u t : String) (perms : List Json) : Prop :=
  resolutionToPerms (w.membership u t) = .ok perms

/-- A call that reads the value of a pair. -/
def Reads (u t : String) (r : ReadCall Raw) : Prop := r.userId = u ∧ r.tenantId = t

/-- A read that has not ended, or whose last command is still to be served. -/
def UnderWay (r : ReadCall Raw) : Prop := r.pc.isDone = false ∨ ∃ cmd, r.port = .sent cmd

/-- Nothing outdated of the pair is on its way to the cache: its reads under way have no other
answer of Helios than the list, and its write-throughs that are to be served tell the list. -/
structure Calm (u t : String) (w : World Raw) : Prop where
  /-- The tenants read have no colons. -/
  readTenants : ∀ (i : ReadId) (r : ReadCall Raw), w.reads[i]? = some r → ColonFree r.tenantId
  /-- The tenants written have no colons. -/
  writeTenants : ∀ (j : MutationId) (m : MutationCall Raw) (u' t' : String) (perms : List Json),
    w.mutations[j]? = some m → m.request = .writeThrough u' t' perms → ColonFree t'
  /-- What a read under way has resolved to is the list. -/
  reading : ∀ (i : ReadId) (r : ReadCall Raw) (perms : List Json), w.reads[i]? = some r →
    Reads u t r → UnderWay r → ReadResolved r perms → Current w u t perms
  /-- What is about to be written is the list. -/
  writing : ∀ (j : MutationId) (m : MutationCall Raw) (perms : List Json) (cmd : Command Raw),
    w.mutations[j]? = some m → m.request = .writeThrough u t perms → m.port = .sent cmd →
    Current w u t perms

/-- Nor is there another list in the cache. -/
structure Settled (cfg : Config Raw) (u t : String) (w : World Raw) : Prop extends Calm u t w where
  /-- What is stored is the list. -/
  stored : ∀ e perms, w.store.get? (cfg.backend.key u t) = some e →
    cfg.backend.loads e.raw = .ok (.arr perms) → Current w u t perms

/-- The list of the pair stays what it is, and what its writers and Helios tell of it is true. -/
structure Steady (u t : String) (w : World Raw) (a : Action) (w' : World Raw) : Prop where
  /-- The tenants of the action have no colons. -/
  tenants : ColonFreeTenant a
  /-- The membership resolves to the same list. -/
  same : resolutionToPerms (w'.membership u t) = resolutionToPerms (w.membership u t)
  /-- What is written through is the list. -/
  told : ∀ perms, a = .mutate (.writeThrough u t perms) → Current w u t perms
  /-- A faulty answer that a read of the pair gets tells no other list. -/
  honest : ∀ i outcome r, a = .sample i (.fault outcome) → w.reads[i]? = some r → Reads u t r →
    Truthful w.membership u t outcome

section calm

variable {cfg : Config Raw} {u t : String} {w w' : World Raw} {a : Action}

/-- What is the list stays the list. -/
theorem Steady.current (h : Steady u t w a w') {perms : List Json} (hc : Current w u t perms) :
    Current w' u t perms :=
  h.same.trans hc

/-- A read stays one of its pair. -/
theorem ReadMove.reads {v : World Raw} {i : ReadId} {r r' : ReadCall Raw}
    (hmove : ReadMove cfg w v i r a r') : Reads u t r' ↔ Reads u t r := by
  obtain ⟨-, hu, ht, -⟩ := hmove.same_call
  rw [Reads, Reads, hu, ht]

/-- Only a read under way moves. -/
theorem ReadMove.underWay {v : World Raw} {i : ReadId} {r r' : ReadCall Raw}
    (hmove : ReadMove cfg w v i r a r') : UnderWay r := by
  cases hmove with
  | served hport => exact Or.inr ⟨_, hport⟩
  | sampled fate hpc => exact Or.inl (by rw [hpc]; rfl)
  | marked b hd => exact Or.inl hd
  | leads hpc => exact Or.inl (by rw [hpc]; rfl)
  | joins hm hfind => exact Or.inl (by rw [hfind.hpc]; rfl)
  | populates hpc => exact Or.inl (by rw [hpc]; rfl)
  | ends hend => exact Or.inl hend.not_done

/-- An answer that a read of the pair has from Helios was there before, or is the list. -/
theorem resolved_before (hs : step cfg w a = some w') (hsteady : Steady u t w a w') {i : ReadId}
    {r' : ReadCall Raw} {perms : List Json} (hr' : w'.reads[i]? = some r') (hof : Reads u t r')
    (hres : ReadResolved r' perms) :
    (∃ r, w.reads[i]? = some r ∧ Reads u t r ∧ ReadResolved r perms ∧
      (UnderWay r' → UnderWay r)) ∨ Current w' u t perms := by
  rcases read_before hs hr' with hold | ⟨c, u', t', ask, -, -, rfl⟩ | ⟨r, hr, hmove⟩
  · exact Or.inl ⟨r', hold, hof, hres, id⟩
  · obtain ⟨k, outcome, hsam, -⟩ := hres
    cases hsam
  · have hpair := (ReadMove.reads hmove).mp hof
    have hbefore (hsame : ReadResolved r perms) : ∃ r, w.reads[i]? = some r ∧ Reads u t r ∧
        ReadResolved r perms ∧ (UnderWay r' → UnderWay r) :=
      ⟨r, hr, hpair, hsame, fun _ => ReadMove.underWay hmove⟩
    cases hmove with
    | @sampled f fate hpc hnone =>
      obtain ⟨k, outcome, hsam, hend⟩ := hres
      cases hsam
      obtain ⟨hu, ht⟩ := hpair
      have hend : fetchEnd u t (fate.outcome (w.membership u t)) = .resolved perms := by
        rw [← hu, ← ht]
        exact hend
      refine Or.inr (hsteady.current ?_)
      cases fate with
      | answers =>
        obtain ⟨resolution, hfetch, hperms⟩ := fetchEnd_resolved_iff.mp hend
        cases hfetch
        exact hperms
      | fault outcome => exact hsteady.honest i outcome r rfl hr ⟨hu, ht⟩ perms hend
    | _ => exact Or.inl (hbefore hres)

/-- An entry of the pair after a step was there before, or spells the list. -/
theorem Calm.entry_before (hcache : SdkCache Raw cfg.backend) (ht : ColonFree t)
    (hcon : Consistent cfg w) (h : Calm u t w) (hs : step cfg w a = some w') {e : Entry Raw}
    (he : w'.store.get? (cfg.backend.key u t) = some e) :
    w.store.get? (cfg.backend.key u t) = some e ∨
      ∃ perms, e.raw = cfg.backend.dumps perms ∧ Current w u t perms := by
  cases step_keyChange hcon.shaped hs (cfg.backend.key u t) with
  | keeps _ hkeep =>
    rw [hkeep] at he
    exact Or.inl he
  | populates hfate hr hport hk hres hfree hnew =>
    rw [hnew] at he
    cases he
    have hof := hcache.key_injective (h.readTenants _ _ hr) ht hk
    exact Or.inr ⟨_, rfl, h.reading _ _ _ hr hof (Or.inr ⟨_, hport⟩) hres⟩
  | overwrites hmu hq hport hk hnew =>
    rw [hnew] at he
    cases he
    obtain ⟨rfl, rfl⟩ := hcache.key_injective (h.writeTenants _ _ _ _ _ hmu hq) ht hk
    exact Or.inr ⟨_, rfl, h.writing _ _ _ _ hmu hq hport⟩
  | deletes hmu hport hmem hnew =>
    rw [hnew] at he
    cases he
  | expires hentry hex hnew =>
    rw [hnew] at he
    cases he

/-- A step issues true writes only. -/
theorem writing_step (hcon : Consistent cfg w) (h : Calm u t w) (hs : step cfg w a = some w')
    (hsteady : Steady u t w a w') {j : MutationId} {m' : MutationCall Raw} {perms : List Json}
    {cmd : Command Raw} (hm' : w'.mutations[j]? = some m')
    (hq : m'.request = .writeThrough u t perms) (hport : m'.port = .sent cmd) :
    Current w u t perms := by
  rcases mutation_before hs hm' with hold | ⟨request, rfl, -, rfl⟩ | ⟨m, hm, hmove⟩
  · exact h.writing j m' perms cmd hold hq hport
  · have hreq : request = .writeThrough u t perms := hq
    exact hsteady.told perms (by rw [hreq])
  · have hcall := hmove.same_call
    rw [hcall.1] at hq
    cases hmove with
    | served => cases hport
    | resumed hreplied ha =>
      cases hcon.shaped.mutations j m hm with
      | writing _ hpc =>
        obtain ⟨outcome, rfl, -⟩ := advance_single (Or.inl hpc) ha
        rw [hreplied] at hport
        cases hport
      | deleting hq' => rw [hq] at hq'; cases hq'
      | scanning hq' => rw [hq] at hq'; cases hq'
      | deletingPage hq' => rw [hq] at hq'; cases hq'
      | done hpc => simp [MutationCall.advance, hpc] at ha

/-- Every steady step keeps a pair calm. -/
theorem Calm.preserved (hcon : Consistent cfg w) (h : Calm u t w) (hs : step cfg w a = some w')
    (hsteady : Steady u t w a w') : Calm u t w' where
  readTenants i r' hr' := by
    rcases read_before hs hr' with hold | ⟨c, u', t', ask, rfl, -, rfl⟩ | ⟨r, hr, hmove⟩
    · exact h.readTenants i r' hold
    · exact hsteady.tenants t' rfl
    · obtain ⟨-, -, htenant, -⟩ := hmove.same_call
      rw [htenant]
      exact h.readTenants i r hr
  writeTenants j m' u' t' perms hm' hq := by
    rcases mutation_before hs hm' with hold | ⟨request, rfl, -, rfl⟩ | ⟨m, hm, hmove⟩
    · exact h.writeTenants j m' u' t' perms hold hq
    · have hreq : request = .writeThrough u' t' perms := hq
      subst hreq
      exact hsteady.tenants t' rfl
    · exact h.writeTenants j m u' t' perms hm (hmove.same_call.1.symm.trans hq)
  reading i r' perms hr' hof hway hres := by
    rcases resolved_before hs hsteady hr' hof hres with ⟨r, hr, hpair, hold, hbefore⟩ | hcurrent
    · exact hsteady.current (h.reading i r perms hr hpair (hbefore hway) hold)
    · exact hcurrent
  writing _ _ _ _ hm hq hport := hsteady.current (writing_step hcon h hs hsteady hm hq hport)

/-- A steady step keeps a pair settled. -/
theorem Settled.preserved (hcache : SdkCache Raw cfg.backend) (ht : ColonFree t)
    (hcon : Consistent cfg w) (h : Settled cfg u t w) (hs : step cfg w a = some w')
    (hsteady : Steady u t w a w') : Settled cfg u t w' where
  toCalm := h.toCalm.preserved hcon hs hsteady
  stored e perms he hloads := by
    refine hsteady.current ?_
    rcases h.toCalm.entry_before hcache ht hcon hs he with hold | ⟨perms', hraw, hcurrent⟩
    · exact h.stored e perms hold hloads
    · rw [hraw, cfg.backend.loads_dumps] at hloads
      rwa [← Json.arr.inj (Except.ok.inj hloads)]

end calm

section later

variable {cfg : Config Raw} {u t : String} {n : ℕ} {w w' : World Raw} {a : Action}

/-- What holds of the reads begun since a pair was settled, which are those from `n` on: all
they learn of the pair is the list. -/
structure SettledSince (cfg : Config Raw) (u t : String) (n : ℕ) (w : World Raw) : Prop
    extends Settled cfg u t w where
  /-- What they have resolved to is the list. -/
  sampled : ∀ (i : ReadId) (r : ReadCall Raw) (perms : List Json), n ≤ i →
    w.reads[i]? = some r → Reads u t r → ReadResolved r perms → Current w u t perms
  /-- What their GET has replied is the list. -/
  replied : ∀ (i : ReadId) (r : ReadCall Raw) (raw : Raw) (perms : List Json), n ≤ i →
    w.reads[i]? = some r → Reads u t r → r.pc = .cacheGet →
    r.port = .replied (.value (some raw)) → cfg.backend.loads raw = .ok (.arr perms) →
    Current w u t perms
  /-- What they have returned from the cache is the list. -/
  hits : ∀ (i : ReadId) (r : ReadCall Raw) (perms : List Json), n ≤ i → w.reads[i]? = some r →
    Reads u t r → r.pc = .done (.ok perms) .cache → Current w u t perms
  /-- What the leader they joined has resolved to is the list. -/
  joined : ∀ (i : ReadId) (r : ReadCall Raw) (f : FutureId) (leader : ReadId)
    (s : ReadCall Raw) (perms : List Json), n ≤ i → w.reads[i]? = some r → Reads u t r →
    (r.pc = .joined f ∨ ∃ o, r.pc = .done o (.joined f)) → creatorOf w f = some leader →
    w.reads[leader]? = some s → ReadResolved s perms → Current w u t perms

/-- No read has begun since now. -/
theorem Settled.since (h : Settled cfg u t w) : SettledSince cfg u t w.reads.length w := by
  have hnew : ∀ {i : ReadId} {r : ReadCall Raw}, w.reads.length ≤ i → w.reads[i]? ≠ some r := by
    intro i r hi hr
    have hlt := IndexedTables.lt_length_of_get hr
    omega
  exact {
    toSettled := h
    sampled := fun _ _ _ hi hr => (hnew hi hr).elim
    replied := fun _ _ _ _ hi hr => (hnew hi hr).elim
    hits := fun _ _ _ hi hr => (hnew hi hr).elim
    joined := fun _ _ _ _ _ _ hi hr => (hnew hi hr).elim }

/-- What the cache answers a read of the pair is the list. -/
theorem replied_step (hcon : Consistent cfg w) (h : SettledSince cfg u t n w)
    (hs : step cfg w a = some w') {i : ReadId} {r' : ReadCall Raw} {raw : Raw}
    {perms : List Json} (hi : n ≤ i) (hr' : w'.reads[i]? = some r') (hof : Reads u t r')
    (hpc : r'.pc = .cacheGet) (hport : r'.port = .replied (.value (some raw)))
    (hloads : cfg.backend.loads raw = .ok (.arr perms)) : Current w u t perms := by
  rcases read_before hs hr' with hold | ⟨c, u', t', ask, -, -, rfl⟩ | ⟨r, hr, hmove⟩
  · exact h.replied i r' raw perms hi hold hof hpc hport hloads
  · cases hport
  · have hpair := (ReadMove.reads hmove).mp hof
    cases hmove with
    | served hsent hserve =>
      have hcmd := ((hcon.shaped.reads i r hr).getting hpc).2 _ hsent
      subst hcmd
      rcases (serve_get hserve).2 with rfl | rfl
      · cases hport
      · obtain ⟨rfl, rfl⟩ := hpair
        obtain ⟨e, he, rfl⟩ := Option.map_eq_some_iff.mp (show
          (w.store.get? (cfg.backend.key r.userId r.tenantId)).map Entry.raw = some raw by
            simpa using hport)
        exact h.stored e perms he hloads
    | sampled fate hfetch => exact h.replied i r raw perms hi hr hpair hpc hport hloads
    | marked => exact h.replied i r raw perms hi hr hpair hpc hport hloads
    | leads => cases hpc
    | joins => cases hpc
    | populates => cases hpc
    | ends => cases hpc

/-- A step ends them with true hits only. -/
theorem hits_step (h : SettledSince cfg u t n w) (hs : step cfg w a = some w') {i : ReadId}
    {r' : ReadCall Raw} {perms : List Json} (hi : n ≤ i) (hr' : w'.reads[i]? = some r')
    (hof : Reads u t r') (hpc : r'.pc = .done (.ok perms) .cache) : Current w u t perms := by
  obtain ⟨r, hr, -, hu, ht, -, hend⟩ := done_before hs hr' hpc
  have hpair : Reads u t r := ⟨hu.symm.trans hof.1, ht.symm.trans hof.2⟩
  rcases hend with hdone | hend
  · exact h.hits i r perms hi hr hpair hdone
  · obtain ⟨reply, hget, hport, hd⟩ := hend.hit
    obtain ⟨raw, rfl, hloads⟩ := decodeGet_some hd
    exact h.replied i r raw perms hi hr hpair hget hport hloads

/-- The leader of a future that a read of the pair finds is under way. -/
theorem finds_underWay (ht : ColonFree t) (hcon : Consistent cfg w) (h : Calm u t w)
    {r : ReadCall Raw} {f : FutureId} (hof : Reads u t r) (hfind : FindsFuture cfg w r f) :
    ∃ leader s, creatorOf w f = some leader ∧ w.reads[leader]? = some s ∧ Reads u t s ∧
      UnderWay s := by
  obtain ⟨leader, hholds⟩ := hcon.ownership.running _ _ _ hfind.listed
  have hown := hcon.ownership.created _ _ _ _ hholds
  obtain ⟨s, hs, -, hlock, howned⟩ := hholds
  obtain ⟨rfl, rfl⟩ := hof
  exact ⟨leader, s, hown, hs, lockKey_injective (h.readTenants leader s hs) ht hlock,
    Or.inl (ReadPc.of_owned howned).1⟩

/-- What a fetch comes to that a later read has joined is the list. -/
theorem joined_step (ht : ColonFree t) (hcon : Consistent cfg w) (h : SettledSince cfg u t n w)
    (hs : step cfg w a = some w') (hsteady : Steady u t w a w') {i : ReadId} {r' : ReadCall Raw}
    {f : FutureId} {leader : ReadId} {s' : ReadCall Raw} {perms : List Json} (hi : n ≤ i)
    (hr' : w'.reads[i]? = some r') (hof : Reads u t r')
    (hpc : r'.pc = .joined f ∨ ∃ o, r'.pc = .done o (.joined f))
    (hcr : creatorOf w' f = some leader) (hs' : w'.reads[leader]? = some s')
    (hres : ReadResolved s' perms) : Current w' u t perms := by
  have hx := step_extends hs
  -- the leader was there before, and its answer was, or is the list
  have hleader : ∀ {k : ReadId} {s : ReadCall Raw}, creatorOf w f = some k →
      w.reads[k]? = some s → Reads u t s →
      (ReadResolved s perms → Current w u t perms) → Current w' u t perms := by
    intro k s hk hsr hpair hknown
    obtain rfl : k = leader := Option.some.inj ((hx.creators f k hk).symm.trans hcr)
    obtain ⟨s₁, hs₁, -, hu, ht, -⟩ := hx.reads k s hsr
    obtain rfl : s₁ = s' := Option.some.inj (hs₁.symm.trans hs')
    rcases resolved_before hs hsteady hs' ⟨hu.trans hpair.1, ht.trans hpair.2⟩ hres with
      ⟨s₂, hs₂, -, hold, -⟩ | hcurrent
    · obtain rfl : s = s₂ := Option.some.inj (hsr.symm.trans hs₂)
      exact hsteady.current (hknown hold)
    · exact hcurrent
  have hkept : ∀ {r : ReadCall Raw}, w.reads[i]? = some r → Reads u t r →
      (r.pc = .joined f ∨ ∃ o, r.pc = .done o (.joined f)) → Current w' u t perms := by
    intro r hr hpair hjoined
    have hlead : ∃ s, LeaderOf w f r.client r.lock s := by
      rcases hjoined with hjoined | ⟨o, hjoined⟩
      · exact hcon.shared.waiting i r f hr hjoined
      · obtain ⟨s, hlead, -⟩ := hcon.shared.ended i r f o _ hr hjoined rfl
        exact ⟨s, hlead⟩
    obtain ⟨s, k, hk, hsr, -, hlock⟩ := hlead
    obtain ⟨hu, ht'⟩ := lockKey_injective (h.readTenants k s hsr) (h.readTenants i r hr) hlock
    exact hleader hk hsr ⟨hu.trans hpair.1, ht'.trans hpair.2⟩
      (h.joined i r f k s perms hi hr hpair hjoined hk hsr)
  have hfound : ∀ {r : ReadCall Raw}, Reads u t r → FindsFuture cfg w r f →
      Current w' u t perms := by
    intro r hpair hfind
    obtain ⟨k, s, hk, hsr, hsame, hway⟩ := finds_underWay ht hcon h.toCalm hpair hfind
    exact hleader hk hsr hsame (h.reading k s perms hsr hsame hway)
  rcases read_before hs hr' with hold | ⟨c, u', t', ask, -, -, rfl⟩ | ⟨r, hr, hmove⟩
  · exact hkept hold hof hpc
  · rcases hpc with hpc | ⟨o, hpc⟩
    · cases hpc
    · cases hpc
  · have hpair := (ReadMove.reads hmove).mp hof
    cases hmove with
    | served => exact hkept hr hpair hpc
    | sampled => exact hkept hr hpair hpc
    | marked => exact hkept hr hpair hpc
    | leads =>
      rcases hpc with hpc | ⟨o, hpc⟩
      · cases hpc
      · cases hpc
    | joins hm hfind =>
      rcases hpc with hpc | ⟨o, hpc⟩
      · cases hpc
        exact hfound hpair hfind
      · cases hpc
    | populates =>
      rcases hpc with hpc | ⟨o, hpc⟩
      · cases hpc
      · cases hpc
    | @ends outcome via hend =>
      have hvia : via = .joined f := by
        rcases hpc with hpc | ⟨o, hpc⟩
        · cases hpc
        · cases hpc
          rfl
      subst hvia
      rcases hend.of_joined with hwait | ⟨-, hfind⟩
      · exact hkept hr hpair (Or.inl hwait)
      · exact hfound hpair hfind

/-- Every steady step keeps it so. -/
theorem SettledSince.preserved (hcache : SdkCache Raw cfg.backend) (ht : ColonFree t)
    (hcon : Consistent cfg w) (h : SettledSince cfg u t n w) (hs : step cfg w a = some w')
    (hsteady : Steady u t w a w') : SettledSince cfg u t n w' where
  toSettled := h.toSettled.preserved hcache ht hcon hs hsteady
  sampled i r' perms hi hr' hof hres := by
    rcases resolved_before hs hsteady hr' hof hres with ⟨r, hr, hpair, hold, -⟩ | hcurrent
    · exact hsteady.current (h.sampled i r perms hi hr hpair hold)
    · exact hcurrent
  replied _ _ _ _ hi hr hof hpc hport hloads :=
    hsteady.current (replied_step hcon h hs hi hr hof hpc hport hloads)
  hits _ _ _ hi hr hof hpc := hsteady.current (hits_step h hs hi hr hof hpc)
  joined _ _ _ _ _ _ hi hr hof hpc hcr hs' hres :=
    joined_step ht hcon h hs hsteady hi hr hof hpc hcr hs' hres

/-- A list that a later read of the pair returned is the list, or the denial of the fetch that
the read led or joined. -/
theorem SettledSince.answer (hcon : Consistent cfg w) (h : SettledSince cfg u t n w) {i : ReadId}
    {r : ReadCall Raw} {perms : List Json} {via : Via} (hi : n ≤ i) (hr : w.reads[i]? = some r)
    (hof : Reads u t r) (hpc : r.pc = .done (.ok perms) via) :
    Current w u t perms ∨ FailClosed cfg w r perms via := by
  cases hvia : via.future with
  | none =>
    have hcached : via = .cache := by
      cases via with
      | cache => rfl
      | led f => cases hvia
      | joined f => cases hvia
    subst hcached
    exact Or.inl (h.hits i r perms hi hr hof hpc)
  | some f =>
    obtain ⟨s, hlead, hends⟩ := hcon.shared.ended i r f (.ok perms) via hr hpc hvia
    obtain ⟨leader, hcr, hs, hclient, hlock⟩ := hlead
    obtain ⟨hu, ht⟩ := lockKey_injective (h.readTenants leader s hs) (h.readTenants i r hr) hlock
    have hfetch : fetchOutcome cfg s = some (.ok perms) := by
      rcases hends with hfetch | herr | herr
      · exact hfetch
      · cases herr
      · cases herr
    rcases fetchOutcome_ok hfetch with hres | ⟨hnil, hden⟩
    · left
      cases via with
      | cache => cases hvia
      | led g =>
        cases hvia
        have hown := hcon.shared.own i r f _ hr hpc
        obtain rfl : leader = i := Option.some.inj (hcr.symm.trans hown)
        obtain rfl : s = r := Option.some.inj (hs.symm.trans hr)
        exact h.sampled leader s perms hi hr hof hres
      | joined g =>
        cases hvia
        exact h.joined i r f leader s perms hi hr hof (Or.inr ⟨_, hpc⟩) hcr hs hres
    · exact Or.inr ⟨hnil, f, s, hvia, ⟨leader, hcr, hs, hclient, hlock⟩, hu, ht, hden⟩

end later

/-- A reachable world is consistent. -/
theorem consistent_of_reachable {cfg : Config Raw} {w : World Raw} (h : Reachable cfg w) :
    Consistent cfg w := by
  obtain ⟨content, membership, as, hrun⟩ := h
  exact run_preserves (Consistent cfg) (fun _ _ _ hv hs => hv.preserved hs) hrun
    (init_consistent cfg content membership)

/-- Settled pairs stay current. From any reachable state in which a pair is settled, in every
run during which its list does not change, what is written through for it is true and Helios
does not lie about it, whatever else the clients, the server, Helios and the event loop do:
every list that a read of the pair begun since then returns is the list that Helios has, or
the empty list of the fetch that the read led or joined, which failed for a client that
denies then. -/
theorem settled_pair_current {cfg : Config Raw} (hcache : SdkCache Raw cfg.backend)
    {u t : String} (ht : ColonFree t) {w w' : World Raw} {as : List Action}
    (hreach : Reachable cfg w) (hsettled : Settled cfg u t w)
    (hrun : run (step cfg) w as = some w') (hsteady : Along (step cfg) (Steady u t) w as)
    {i : ReadId} {r : ReadCall Raw} {perms : List Json} {via : Via}
    (hnew : w.reads.length ≤ i) (hr : w'.reads[i]? = some r) (hof : Reads u t r)
    (hpc : r.pc = .done (.ok perms) via) :
    Current w' u t perms ∨ FailClosed cfg w' r perms via := by
  have hinv := run_invariant
    (fun v => Consistent cfg v ∧ SettledSince cfg u t w.reads.length v)
    (fun v a v' hv hs hq => ⟨hv.1.preserved hs, hv.2.preserved hcache ht hv.1 hs hq⟩) hrun hsteady
    ⟨consistent_of_reachable hreach, hsettled.since⟩
  exact hinv.2.answer hinv.1 hnew hr hof hpc

section settling

variable {cfg : Config Raw} {u t : String} {w w' : World Raw} {a : Action}

/-- No key came into being later than now. -/
def Dated (w : World Raw) : Prop := ∀ k e, w.store.get? k = some e → e.since < w.clock

/-- A command dates its entries. -/
theorem Dated.executed (h : Dated w) (origin : Origin) (cmd : Command Raw) {k : String}
    {e : Entry Raw} (he : (execute w.clock origin w.store cmd).2.get? k = some e) :
    e.since < w.clock + 1 := by
  rcases execute_get? w.clock origin w.store cmd k with hkeep | ⟨raw, ex, nx, -, -, hnew⟩ |
    ⟨ks, -, -, hgone⟩
  · rw [hkeep] at he
    exact Nat.lt_succ_of_lt (h k e he)
  · rw [hnew] at he
    cases he
    cases hold : w.store.get? k with
    | none => exact Nat.lt_succ_self _
    | some old => exact Nat.lt_succ_of_lt (h k old hold)
  · rw [hgone] at he
    cases he

/-- A step keeps the entries dated. -/
theorem Dated.preserved (h : Dated w) (hs : step cfg w a = some w') : Dated w' := by
  obtain ⟨v, hv, rfl⟩ := step_transition hs
  have hclock := transition_clock hv
  have hsame (hstore : v.store = w.store) : Dated v.tick := by
    intro k e he
    change v.store.get? k = some e at he
    rw [hstore] at he
    change e.since < v.clock + 1
    rw [hclock]
    exact Nat.lt_succ_of_lt (h k e he)
  have hserved {origin : Origin} {progress : ScanProgress} {cmd : Command Raw} {fate : Fate}
      {reply : Reply Raw} {store : Store Raw} (hstore : v.store = store)
      (hserve : serve cfg.backend w.clock origin progress w.store cmd fate =
        some (reply, store)) : Dated v.tick := by
    rcases serve_store hserve with hkeep | hexec
    · exact hsame (hstore.trans hkeep)
    · intro k e he
      change v.store.get? k = some e at he
      rw [hstore, hexec] at he
      change e.since < v.clock + 1
      rw [hclock]
      exact h.executed origin cmd he
  cases hv with
  | readServed hr hport hserve => exact hserved rfl hserve
  | mutationServed hmu hport hserve => exact hserved rfl hserve
  | expires hentry hex =>
    intro k e he
    change (w.store.pop _).get? k = some e at he
    rw [OrderedDict.get?_pop] at he
    split_ifs at he
    exact Nat.lt_succ_of_lt (h k e he)
  | unreachable => exact hsame (conclude_sameOutside _ _ _ _ _).store
  | populated => exact hsame (conclude_sameOutside _ _ _ _ _).store
  | _ => exact hsame rfl

/-- The entries of a reachable world are dated. -/
theorem dated_of_reachable (h : Reachable cfg w) : Dated w := by
  obtain ⟨content, membership, as, hrun⟩ := h
  refine run_preserves Dated (fun _ _ _ hv hs => hv.preserved hs) hrun ?_
  intro k e he
  rw [World.init, OrderedDict.get?_mapValues] at he
  obtain ⟨v, -, rfl⟩ := Option.map_eq_some_iff.mp he
  exact Nat.zero_lt_one

/-- As long as another list is cached for the pair, a later invalidation of it still has to
drop it. -/
structure Clearing (cfg : Config Raw) (u t : String) (n : ℕ) (w : World Raw) : Prop
    extends Calm u t w where
  /-- The entries came into being before now. -/
  dated : Dated w
  /-- An invalidation from the `n`-th on still has to drop what is outdated. -/
  clears : ∀ (j : MutationId) (m : MutationCall Raw) (e : Entry Raw) (perms : List Json), n ≤ j →
    w.mutations[j]? = some m → Covers m.request u t →
    (∀ scope, requestScope m.request = some scope →
      cfg.backend.selects scope (cfg.backend.key u t) = true) →
    w.store.get? (cfg.backend.key u t) = some e → cfg.backend.loads e.raw = .ok (.arr perms) →
    ¬Current w u t perms → StillClears m (cfg.backend.key u t) e.since

/-- No invalidation has begun since now. -/
theorem Calm.clearing (h : Calm u t w) (hdated : Dated w) :
    Clearing cfg u t w.mutations.length w where
  toCalm := h
  dated := hdated
  clears _ _ _ _ hj hm := by
    have hlt := IndexedTables.lt_length_of_get hm
    omega

/-- An outdated entry was there before the step, and what has to drop it goes on. -/
theorem clears_step (hcache : SdkCache Raw cfg.backend) (ht : ColonFree t)
    (hcon : Consistent cfg w) {n : ℕ} (h : Clearing cfg u t n w) (hs : step cfg w a = some w')
    (hsteady : Steady u t w a w') {j : MutationId} {m' : MutationCall Raw} {e : Entry Raw}
    {perms : List Json} (hj : n ≤ j) (hm' : w'.mutations[j]? = some m')
    (hcov : Covers m'.request u t)
    (hsel : ∀ scope, requestScope m'.request = some scope →
      cfg.backend.selects scope (cfg.backend.key u t) = true)
    (he' : w'.store.get? (cfg.backend.key u t) = some e)
    (hloads : cfg.backend.loads e.raw = .ok (.arr perms)) (hstale : ¬Current w' u t perms) :
    StillClears m' (cfg.backend.key u t) e.since := by
  have hstale : ¬Current w u t perms := fun hcurrent => hstale (hsteady.current hcurrent)
  have he : w.store.get? (cfg.backend.key u t) = some e := by
    rcases h.toCalm.entry_before hcache ht hcon hs he' with hold | ⟨perms', hraw, hcurrent⟩
    · exact hold
    · rw [hraw, cfg.backend.loads_dumps] at hloads
      rw [Json.arr.inj (Except.ok.inj hloads)] at hcurrent
      exact absurd hcurrent hstale
  rcases mutation_before hs hm' with hold | ⟨request, -, -, rfl⟩ | ⟨m, hm, hmove⟩
  · exact h.clears j m' e perms hj hold hcov hsel he hloads hstale
  · exact start_stillClears cfg w.clock hcov _ _
  · have hcall := hmove.same_call
    rw [hcall.1] at hcov hsel
    exact (h.clears j m e perms hj hm hcov hsel he hloads hstale).moves hs
      (hcon.shaped.mutations j m hm) hcov hsel he he' (h.dated _ _ he) hm hmove

/-- A steady step keeps what has to be dropped. -/
theorem Clearing.preserved (hcache : SdkCache Raw cfg.backend) (ht : ColonFree t)
    (hcon : Consistent cfg w) {n : ℕ} (h : Clearing cfg u t n w) (hs : step cfg w a = some w')
    (hsteady : Steady u t w a w') : Clearing cfg u t n w' where
  toCalm := h.toCalm.preserved hcon hs hsteady
  dated := h.dated.preserved hs
  clears _ _ _ _ hj hm hcov hsel he hloads hstale :=
    clears_step hcache ht hcon h hs hsteady hj hm hcov hsel he hloads hstale

end settling

/-- A move that tells nothing: no change in Helios, no write-through, and no answer but what
Helios has. -/
def tellsNothing : Action → Bool
  | .change _ _ _ => false
  | .mutate (.writeThrough _ _ _) => false
  | .sample _ (.fault _) => false
  | _ => true

/-- An action that tells nothing is steady. -/
theorem steady_of_tellsNothing {cfg : Config Raw} {u t : String} {w w' : World Raw} {a : Action}
    (hs : step cfg w a = some w') (htenant : ColonFreeTenant a) (ha : tellsNothing a = true) :
    Steady u t w a w' where
  tenants := htenant
  same := by
    have hmembership : w'.membership = w.membership := by
      refine step_membership hs ?_
      rintro u' t' body rfl
      cases ha
    rw [hmembership]
  told perms h := by
    subst h
    cases ha
  honest i outcome r h := by
    subst h
    cases ha

/-- So is a run of such actions. -/
theorem along_steady {cfg : Config Raw} {u t : String} {w : World Raw} {as : List Action}
    (h : ∀ a ∈ as, ColonFreeTenant a ∧ tellsNothing a = true) :
    Along (step cfg) (Steady u t) w as := by
  refine (along_of_forall h).with_invariant (fun _ => True) ?_ trivial
  intro v a v' _ hs ha
  exact ⟨trivial, steady_of_tellsNothing hs ha.1 ha.2⟩

/-- When no read is under way and nothing was written through, every pair is calm. -/
theorem calm_of_idle {w : World Raw} (u t : String)
    (hreads : ∀ r ∈ w.reads, ColonFree r.tenantId ∧ ¬UnderWay r)
    (hmutations : ∀ m ∈ w.mutations, ∀ u' t' perms, m.request ≠ .writeThrough u' t' perms) :
    Calm u t w where
  readTenants _ r hr := (hreads r (List.mem_of_getElem? hr)).1
  writeTenants _ m u' t' perms hm hq :=
    absurd hq (hmutations m (List.mem_of_getElem? hm) u' t' perms)
  reading _ r _ hr _ hway _ := absurd hway (hreads r (List.mem_of_getElem? hr)).2
  writing _ m perms _ hm hq _ := absurd hq (hmutations m (List.mem_of_getElem? hm) u t perms)

/-- A read that has ended is not under way. -/
theorem not_underWay {r : ReadCall Raw} {reply : Reply Raw} (hdone : r.pc.isDone = true)
    (hport : r.port = .replied reply) : ¬UnderWay r := by
  rintro (hrunning | ⟨cmd, hsent⟩)
  · rw [hdone] at hrunning
    cases hrunning
  · rw [hport] at hsent
    cases hsent

/-- A cold read, then the list of its pair changes. -/
def changedRun : List Action :=
  [.read 0 "user-1" "tenant-1" .getUserPermissions, .serveRead 0 .executes, .resumeRead 0,
    .sample 0 .answers, .resumeRead 0, .serveRead 0 .executes, .resumeRead 0,
    .change "user-1" "tenant-1" (activeBody [.str "helios:members:edit"])]

/-- The tenant is invalidated. -/
def dropRun : List Action :=
  [.mutate (.invalidateTenant "tenant-1"),
    .serveMutation 0 (.returns 0 [redisKey "user-1" "tenant-1"]), .resumeMutation 0,
    .serveMutation 0 .executes, .resumeMutation 0]

/-- Two reads of another client, of which the second joins the first. -/
def sharedRun : List Action :=
  [.read 1 "user-1" "tenant-1" .getUserPermissions, .serveRead 1 .executes, .resumeRead 1,
    .read 1 "user-1" "tenant-1" .getUserPermissions, .serveRead 2 .executes, .resumeRead 2,
    .sample 1 .answers, .resumeRead 1, .serveRead 1 .executes, .resumeRead 1, .resumeRead 2]

/-- The joiner gets the new list. -/
theorem settled_pair_current_sharedRun : ∃ w', run (step (fixedConfig true))
    (endOf true (changedRun ++ dropRun)) sharedRun = some w' ∧
      Current w' "user-1" "tenant-1" [.str "helios:members:edit"] := by
  obtain ⟨r₀, hreads, htenant, hdone, hport⟩ : ∃ r₀,
      (endOf true (changedRun ++ dropRun)).reads = [r₀] ∧ r₀.tenantId = "tenant-1" ∧
      r₀.pc.isDone = true ∧ r₀.port = .replied (.stored true) := ⟨_, rfl, rfl, rfl, rfl⟩
  obtain ⟨m₀, hmutations, hrequest⟩ : ∃ m₀,
      (endOf true (changedRun ++ dropRun)).mutations = [m₀] ∧
      m₀.request = .invalidateTenant "tenant-1" := ⟨_, rfl, rfl⟩
  have hcolon : ColonFree "tenant-1" := by simp [ColonFree]
  have hcalm : Calm "user-1" "tenant-1" (endOf true (changedRun ++ dropRun)) := by
    refine calm_of_idle _ _ ?_ ?_
    · intro r hr
      rw [hreads, List.mem_singleton] at hr
      rw [hr, htenant]
      exact ⟨hcolon, not_underWay hdone hport⟩
    · intro m hm u t perms hq
      rw [hmutations, List.mem_singleton] at hm
      rw [hm, hrequest] at hq
      cases hq
  have hsettled : Settled (fixedConfig true) "user-1" "tenant-1"
      (endOf true (changedRun ++ dropRun)) := by
    refine ⟨hcalm, ?_⟩
    intro e perms he
    have hnone : (endOf true (changedRun ++ dropRun)).store.get?
        ((fixedConfig true).backend.key "user-1" "tenant-1") = none := rfl
    rw [hnone] at he
    cases he
  have hsteady : Along (step (fixedConfig true)) (Steady "user-1" "tenant-1")
      (endOf true (changedRun ++ dropRun)) sharedRun :=
    along_steady (by simp [sharedRun, ColonFreeTenant, valueTenant, ColonFree, tellsNothing])
  obtain ⟨w', hrun, r, hr, hu, ht, hpc⟩ : ∃ w', run (step (fixedConfig true))
      (endOf true (changedRun ++ dropRun)) sharedRun = some w' ∧ ∃ r, w'.reads[2]? = some r ∧
      r.userId = "user-1" ∧ r.tenantId = "tenant-1" ∧
      r.pc = .done (.ok [.str "helios:members:edit"]) (.joined 1) :=
    ⟨_, rfl, _, rfl, rfl, rfl, rfl⟩
  have hlen : (endOf true (changedRun ++ dropRun)).reads.length ≤ 2 := by simp [hreads]
  have hcurrent := settled_pair_current (SdkCache.redis plainCodec 0) hcolon
    (reachable_endOf rfl) hsettled hrun hsteady hlen hr ⟨hu, ht⟩ hpc
  refine ⟨w', hrun, hcurrent.resolve_right ?_⟩
  rintro ⟨hnil, -⟩
  cases hnil

end HeliosPermissions.SettledPairs
