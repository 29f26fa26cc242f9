import HeliosPermissions.KeyedWrites
import HeliosPermissions.SharedFetches

/-!
# Where the lists that reads return come from

A list is known for a pair when Helios resolved a read of that very pair to it,
or when a write-through was called with it for that pair. One invariant carries
this through the cache and the replies on their way: whatever stands under a key
spells a known list of the pair of that key. A read that goes through a fetch has
its list from the sample of the leader, which is of the same pair. Keys determine
pairs as long as tenant ids have no colon.
-/

namespace HeliosPermissions.ReadProvenance

open JsonValues CacheKeys CacheStore HeliosResolution ClientWorld PartialRuns InFlightTable
open CallHistory CallShapes KeyedWrites SharedFetches

variable {Raw : Type}

/-- The two caches of the SDK. The in-memory one is the server that always deals
with a command at once. -/
inductive SdkCache : (Raw : Type) → Backend Raw → Prop
  | redis {Raw : Type} (codec : JsonCodec Raw) (ttlSeconds : ℕ) :
      SdkCache Raw (redisBackend codec ttlSeconds)
  | memory (ttlSeconds : ℕ) : SdkCache (List Json) (memoryBackend ttlSeconds)

/-- Their keys determine the pair when tenant ids have no colon. -/
theorem SdkCache.key_injective {backend : Backend Raw} (h : SdkCache Raw backend)
    {u t u' t' : String} (ht : ColonFree t) (ht' : ColonFree t')
    (hk : backend.key u t = backend.key u' t') : u = u' ∧ t = t' := by
  cases h with
  | redis codec ttl => exact redisKey_injective ht ht' hk
  | memory ttl => exact lockKey_injective ht ht' hk

/-- The tenant id of a call that reads or writes the value of one pair. -/
def valueTenant : Action → Option String
  | .read _ _ t _ => some t
  | .mutate (.writeThrough _ t _) => some t
  | _ => none

/-- That tenant id has no colon. -/
def ColonFreeTenant (a : Action) : Prop := ∀ t, valueTenant a = some t → ColonFree t

/-- A list was resolved by Helios for the pair, or written through for it. -/
def Known (w : World Raw) (u t : String) (perms : List Json) : Prop :=
  (∃ (i : ReadId) (r : ReadCall Raw), w.reads[i]? = some r ∧ r.userId = u ∧ r.tenantId = t ∧
    ReadResolved r perms) ∨
  ∃ (j : MutationId) (m : MutationCall Raw), w.mutations[j]? = some m ∧
    m.request = .writeThrough u t perms

/-- The empty list of a failed fetch, which this very read led or joined. -/
def FailClosed (cfg : Config Raw) (w : World Raw) (r : ReadCall Raw) (perms : List Json)
    (via : Via) : Prop :=
  perms = [] ∧ ∃ f s, via.future = some f ∧ LeaderOf w f r.client r.lock s ∧
    s.userId = r.userId ∧ s.tenantId = r.tenantId ∧ DeniedFetch cfg s

/-- Everything in the cache and on its way from there is known. -/
structure Provenance (cfg : Config Raw) (w : World Raw) : Prop where
  /-- The tenants read have no colons. -/
  readTenants : ∀ (i : ReadId) (r : ReadCall Raw), w.reads[i]? = some r → ColonFree r.tenantId
  /-- The tenants written have no colons. -/
  writeTenants : ∀ (j : MutationId) (m : MutationCall Raw) (u t : String) (perms : List Json),
    w.mutations[j]? = some m → m.request = .writeThrough u t perms → ColonFree t
  /-- What is stored spells a list known for the pair of its key. -/
  stored : ∀ k e, w.store.get? k = some e → ∃ u t perms, ColonFree t ∧ cfg.backend.key u t = k ∧
    e.raw = cfg.backend.dumps perms ∧ Known w u t perms
  /-- What a GET has replied is known for the pair of its read. -/
  replied : ∀ (i : ReadId) (r : ReadCall Raw) (raw : Raw), w.reads[i]? = some r →
    r.pc = .cacheGet → r.port = .replied (.value (some raw)) →
    ∃ perms, raw = cfg.backend.dumps perms ∧ Known w r.userId r.tenantId perms
  /-- A hit has returned a known list. -/
  hits : ∀ (i : ReadId) (r : ReadCall Raw) (perms : List Json), w.reads[i]? = some r →
    r.pc = .done (.ok perms) .cache → Known w r.userId r.tenantId perms

/-- What is known stays known. -/
theorem Known.later {w v : World Raw} {u t : String} {perms : List Json}
    (h : Known w u t perms) (hx : Extends w v) : Known v u t perms := by
  rcases h with ⟨i, r, hr, hu, ht, hres⟩ | ⟨j, m, hm, hq⟩
  · obtain ⟨r', hr', -, hu', ht', -, -, hs, -⟩ := hx.reads i r hr
    exact Or.inl ⟨i, r', hr', hu'.trans hu, ht'.trans ht, hres.later hu' ht' hs⟩
  · obtain ⟨m', hm', hq', -⟩ := hx.mutations j m hm
    exact Or.inr ⟨j, m', hm', hq'.trans hq⟩

section steps

variable {cfg : Config Raw} {w w' : World Raw} {a : Action}

/-- A step reads tenants without colons. -/
theorem readTenants_step (h : Provenance cfg w) (hs : step cfg w a = some w')
    (ha : ColonFreeTenant a) {i : ReadId} {r' : ReadCall Raw} (hr' : w'.reads[i]? = some r') :
    ColonFree r'.tenantId := by
  rcases read_before hs hr' with hold | ⟨c, u, t, ask, rfl, -, rfl⟩ | ⟨r, hr, hmove⟩
  · exact h.readTenants i r' hold
  · exact ha t rfl
  · obtain ⟨-, -, ht, -⟩ := hmove.same_call
    rw [ht]
    exact h.readTenants i r hr

/-- A step writes tenants without colons. -/
theorem writeTenants_step (h : Provenance cfg w) (hs : step cfg w a = some w')
    (ha : ColonFreeTenant a) {j : MutationId} {m' : MutationCall Raw} {u t : String}
    {perms : List Json} (hm' : w'.mutations[j]? = some m')
    (hq : m'.request = .writeThrough u t perms) : ColonFree t := by
  rcases mutation_before hs hm' with hold | ⟨request, rfl, -, rfl⟩ | ⟨m, hm, hmove⟩
  · exact h.writeTenants j m' u t perms hold hq
  · have hreq : request = .writeThrough u t perms := hq
    subst hreq
    exact ha t rfl
  · obtain ⟨hq', -⟩ := hmove.same_call
    exact h.writeTenants j m u t perms hm (hq'.symm.trans hq)

/-- What a step stores is known. -/
theorem stored_step (hcon : Consistent cfg w) (h : Provenance cfg w)
    (hs : step cfg w a = some w') {k : String} {e : Entry Raw} (he : w'.store.get? k = some e) :
    ∃ u t perms, ColonFree t ∧ cfg.backend.key u t = k ∧ e.raw = cfg.backend.dumps perms ∧
      Known w' u t perms := by
  have hx := step_extends hs
  cases step_keyChange hcon.shaped hs k with
  | keeps _ hkeep =>
    rw [hkeep] at he
    obtain ⟨u, t, perms, ht, hk, hraw, hknown⟩ := h.stored k e he
    exact ⟨u, t, perms, ht, hk, hraw, hknown.later hx⟩
  | populates hfate hr hport hk hres hfree hnew =>
    rw [hnew] at he
    cases he
    have hknown : Known w _ _ _ := Or.inl ⟨_, _, hr, rfl, rfl, hres⟩
    exact ⟨_, _, _, h.readTenants _ _ hr, hk, rfl, hknown.later hx⟩
  | overwrites hmu hq hport hk hnew =>
    rw [hnew] at he
    cases he
    have hknown : Known w _ _ _ := Or.inr ⟨_, _, hmu, hq⟩
    exact ⟨_, _, _, h.writeTenants _ _ _ _ _ hmu hq, hk, rfl, hknown.later hx⟩
  | deletes hmu hport hmem hnew =>
    rw [hnew] at he
    cases he
  | expires hentry hex hnew =>
    rw [hnew] at he
    cases he

/-- A value on its way to a read is known for the pair of the read. -/
theorem replied_step (hcache : SdkCache Raw cfg.backend) (hcon : Consistent cfg w)
    (h : Provenance cfg w) (hs : step cfg w a = some w') {i : ReadId} {r' : ReadCall Raw}
    {raw : Raw} (hr' : w'.reads[i]? = some r') (hpc : r'.pc = .cacheGet)
    (hport : r'.port = .replied (.value (some raw))) :
    ∃ perms, raw = cfg.backend.dumps perms ∧ Known w' r'.userId r'.tenantId perms := by
  have hx := step_extends hs
  have hbefore : ∀ r : ReadCall Raw, w.reads[i]? = some r → r.pc = .cacheGet →
      r.port = .replied (.value (some raw)) →
      ∃ perms, raw = cfg.backend.dumps perms ∧ Known w' r.userId r.tenantId perms := by
    intro r hr hpc hport
    obtain ⟨perms, hraw, hknown⟩ := h.replied i r raw hr hpc hport
    exact ⟨perms, hraw, hknown.later hx⟩
  rcases read_before hs hr' with hold | ⟨c, u, t, ask, -, -, rfl⟩ | ⟨r, hr, hmove⟩
  · exact hbefore r' hold hpc hport
  · cases hport
  · cases hmove with
    | served hsent hserve =>
      -- the value is the entry under the key of the read, which is of no other pair
      have hcmd := ((hcon.shaped.reads i r hr).getting hpc).2 _ hsent
      subst hcmd
      have hvalue := (serve_get hserve).2
      rcases hvalue with rfl | rfl
      · cases hport
      · obtain ⟨e, he, hraw⟩ := Option.map_eq_some_iff.mp (show
          (w.store.get? (cfg.backend.key r.userId r.tenantId)).map Entry.raw = some raw by
            simpa using hport)
        obtain ⟨u, t, perms, ht, hk, hspell, hknown⟩ := h.stored _ e he
        obtain ⟨rfl, rfl⟩ := hcache.key_injective ht (h.readTenants i r hr) hk
        exact ⟨perms, hraw.symm.trans hspell, hknown.later hx⟩
    | sampled fate hfetch =>
      rw [hfetch] at hpc
      cases hpc
    | marked => exact hbefore r hr hpc hport
    | leads => cases hpc
    | joins => cases hpc
    | populates => cases hpc
    | ends => cases hpc

/-- A cache hit is known. -/
theorem hits_step (h : Provenance cfg w) (hs : step cfg w a = some w') {i : ReadId}
    {r' : ReadCall Raw} {perms : List Json} (hr' : w'.reads[i]? = some r')
    (hpc : r'.pc = .done (.ok perms) .cache) : Known w' r'.userId r'.tenantId perms := by
  have hx := step_extends hs
  obtain ⟨r, hr, -, hu, ht, -, hend⟩ := done_before hs hr' hpc
  rw [hu, ht]
  rcases hend with hdone | hend
  · exact (h.hits i r perms hr hdone).later hx
  · obtain ⟨reply, hget, hport, hd⟩ := hend.hit
    -- only text that decodes to a list is a hit
    obtain ⟨raw, rfl, hloads⟩ := decodeGet_some hd
    obtain ⟨perms', hraw, hknown⟩ := h.replied i r raw hr hget hport
    rw [hraw, cfg.backend.loads_dumps] at hloads
    cases hloads
    exact hknown.later hx

/-- Every step keeps the provenance of everything. -/
theorem Provenance.preserved (hcache : SdkCache Raw cfg.backend) (hcon : Consistent cfg w)
    (h : Provenance cfg w) (ha : ColonFreeTenant a) (hs : step cfg w a = some w') :
    Provenance cfg w' where
  readTenants _ _ hr := readTenants_step h hs ha hr
  writeTenants _ _ _ _ _ hm hq := writeTenants_step h hs ha hm hq
  stored _ _ he := stored_step hcon h hs he
  replied _ _ _ hr hpc hport := replied_step hcache hcon h hs hr hpc hport
  hits _ _ _ hr hpc := hits_step h hs hr hpc

end steps

/-- At the start nothing is stored. -/
theorem init_provenance (cfg : Config Raw) (membership : String → String → Json) :
    Provenance cfg (.init .empty membership) where
  readTenants _ _ h := by cases h
  writeTenants _ _ _ _ _ h := by cases h
  stored _ _ h := by cases h
  replied _ _ _ h := by cases h
  hits _ _ _ h := by cases h

/-- Provenance holds after every run from an empty cache. -/
theorem run_provenance {cfg : Config Raw} (hcache : SdkCache Raw cfg.backend)
    {membership : String → String → Json} {as : List Action} {w : World Raw}
    (htenants : ∀ a ∈ as, ColonFreeTenant a)
    (hrun : run (step cfg) (.init .empty membership) as = some w) :
    Consistent cfg w ∧ Provenance cfg w :=
  run_invariant (fun v => Consistent cfg v ∧ Provenance cfg v)
    (fun _ _ _ hv hs ha => ⟨hv.1.preserved hs, hv.2.preserved hcache hv.1 ha hs⟩) hrun
    (along_of_forall htenants) ⟨init_consistent cfg _ _, init_provenance cfg membership⟩

/-- Every list that a read returned is known for its pair, or is the denial of the
fetch that the read led or joined. -/
theorem answer_known {cfg : Config Raw} {w : World Raw} (hcon : Consistent cfg w)
    (h : Provenance cfg w) {i : ReadId} {r : ReadCall Raw} {perms : List Json} {via : Via}
    (hr : w.reads[i]? = some r) (hpc : r.pc = .done (.ok perms) via) :
    Known w r.userId r.tenantId perms ∨ FailClosed cfg w r perms via := by
  cases hvia : via.future with
  | none =>
    have hcache : via = .cache := by
      cases via with
      | cache => rfl
      | led f => cases hvia
      | joined f => cases hvia
    subst hcache
    exact Or.inl (h.hits i r perms hr hpc)
  | some f =>
    obtain ⟨s, hlead, hends⟩ := hcon.shared.ended i r f (.ok perms) via hr hpc hvia
    obtain ⟨leader, hcr, hs, hc, hlock⟩ := hlead
    obtain ⟨hu, ht⟩ := lockKey_injective (h.readTenants leader s hs) (h.readTenants i r hr) hlock
    have hfetch : fetchOutcome cfg s = some (.ok perms) := by
      rcases hends with hfetch | herr | herr
      · exact hfetch
      · cases herr
      · cases herr
    rcases fetchOutcome_ok hfetch with hres | ⟨hnil, hden⟩
    · exact Or.inl (Or.inl ⟨leader, s, hs, hu, ht, hres⟩)
    · exact Or.inr ⟨hnil, f, s, hvia, ⟨leader, hcr, hs, hc, hlock⟩, hu, ht, hden⟩

/-- Provenance of every decision. After every run from an empty cache in which the
tenant ids have no colon: a list that a read returned was resolved by Helios for
exactly its pair, or written through for exactly its pair, or is the empty list
of the fetch that this read led or joined, which failed for a client that denies
then; a permission that was granted is in a list of the first two kinds; and
whatever the cache stores is of these two kinds as well. -/
theorem decision_provenance {cfg : Config Raw} (hcache : SdkCache Raw cfg.backend)
    {membership : String → String → Json} {as : List Action} {w : World Raw}
    (htenants : ∀ a ∈ as, ColonFreeTenant a)
    (hrun : run (step cfg) (.init .empty membership) as = some w) :
    (∀ (i : ReadId) (r : ReadCall Raw) (perms : List Json) (via : Via), w.reads[i]? = some r →
      r.pc = .done (.ok perms) via →
      Known w r.userId r.tenantId perms ∨ FailClosed cfg w r perms via) ∧
    (∀ (i : ReadId) (r : ReadCall Raw) (p : String) (perms : List Json) (via : Via),
      w.reads[i]? = some r → r.ask = .callerHasPermission p → r.pc = .done (.ok perms) via →
      r.ask.answer perms = .inl true →
      Json.str p ∈ perms ∧ Known w r.userId r.tenantId perms) ∧
    (∀ k e, w.store.get? k = some e → ∃ u t perms, cfg.backend.key u t = k ∧
      e.raw = cfg.backend.dumps perms ∧ Known w u t perms) := by
  obtain ⟨hcon, hprov⟩ := run_provenance hcache htenants hrun
  refine ⟨fun i r perms via hr hpc => answer_known hcon hprov hr hpc, ?_, ?_⟩
  · intro i r p perms via hr hask hpc hgranted
    have hmem : Json.str p ∈ perms := by
      rw [hask] at hgranted
      simp only [Ask.answer, Sum.inl.injEq, List.any_eq_true] at hgranted
      obtain ⟨x, hx, hstr⟩ := hgranted
      rw [Json.isStr_iff] at hstr
      rwa [hstr] at hx
    rcases answer_known hcon hprov hr hpc with hknown | ⟨hnil, -⟩
    · exact ⟨hmem, hknown⟩
    · rw [hnil] at hmem
      cases hmem
  · intro k e he
    obtain ⟨u, t, perms, -, hk, hraw, hknown⟩ := hprov.stored k e he
    exact ⟨u, t, perms, hk, hraw, hknown⟩

/-- A leader and a joiner answered by Helios, a later hit, and a denial. -/
def mixedRun : List Action :=
  joinedRun ++ [.sample 0 .answers, .resumeRead 0, .serveRead 0 .executes, .resumeRead 0,
    .resumeRead 1, .read 0 "user-1" "tenant-1" (.callerHasPermission "helios:members:view"),
    .serveRead 2 .executes, .resumeRead 2, .read 0 "user-2" "tenant-1" .getUserPermissions,
    .serveRead 3 .executes, .resumeRead 3, .sample 3 (.fault .raised), .resumeRead 3]

/-- Its tenants have no colons. -/
theorem colonFreeTenant_mixedRun : ∀ a ∈ mixedRun, ColonFreeTenant a := by
  simp [mixedRun, joinedRun, ColonFreeTenant, valueTenant, ColonFree]

/-- The granted answer goes back to what Helios told. -/
theorem decision_provenance_mixedRun :
    Json.str "helios:members:view" ∈ [Json.str "helios:members:view"] ∧
      Known (endOf true mixedRun) "user-1" "tenant-1" [.str "helios:members:view"] := by
  have hrun : run (step (fixedConfig true)) fixedWorld mixedRun =
      some (endOf true mixedRun) := run_endOf rfl
  have hall := decision_provenance (SdkCache.redis plainCodec 0) colonFreeTenant_mixedRun hrun
  exact hall.2.1 2 _ "helios:members:view" _ .cache rfl rfl rfl rfl

end HeliosPermissions.ReadProvenance
