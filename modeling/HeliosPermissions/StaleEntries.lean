import HeliosPermissions.KeyedWrites
import HeliosPermissions.SharedFetches

/-!
# Stale entries after an invalidation

SET NX stops a slow populate only while something stands under the key. Right
after the delete of an invalidation nothing does, and a populate with an older
sample goes through. Runs without such a populate keep a simple account: as long
as a stale entry is there, each invalidation that covers it still has its delete
to do. For a bulk invalidation that rests on the SCAN guarantee, and on patterns
that select the keys of the pairs they are meant for.
-/

namespace HeliosPermissions.StaleEntries

open JsonValues CacheKeys CacheStore HeliosResolution ClientWorld PartialRuns InFlightTable
open GlobPattern CallHistory CallShapes KeyedWrites SharedFetches

variable {Raw : Type}

/-- The pairs that an invalidation is about. -/
def Covers : MutationRequest → String → String → Prop
  | .invalidate u (some t), u', t' => u = u' ∧ t = t'
  | .invalidate u none, u', _ => u = u'
  | .invalidateTenant t, _, t' => t = t'
  | .writeThrough _ _ _, _, _ => False

/-- The entry was there from the start, or spells a Helios sample from before this time. -/
def SampledBefore (w : World Raw) (time : ℕ) : Origin → Prop
  | .initial => True
  | .populate i => ∃ (r : ReadCall Raw) (n : ℕ) (outcome : HttpOutcome),
      w.reads[i]? = some r ∧ r.sampled = some (n, outcome) ∧ n < time
  | .writeThrough _ => False

/-- No entry under a pair is older than an invalidation of the pair that has
returned normally. -/
def NoStaleEntry (cfg : Config Raw) (w : World Raw) : Prop :=
  ∀ (j : MutationId) (m : MutationCall Raw) (count : ℕ) (u t : String) (e : Entry Raw),
    w.mutations[j]? = some m → m.pc = .done (.ok count) → Covers m.request u t →
    w.store.get? (cfg.backend.key u t) = some e → ¬SampledBefore w m.began e.origin

/-- The server has dealt with the first command of an invalidation. -/
def HasActed (m : MutationCall Raw) : Prop :=
  match m.pc, m.port with
  | .writing, _ => False
  | .deleting, .sent _ => False
  | .scanning _ _, .sent _ => m.progress.started.isSome = true
  | _, _ => True

/-- The SET NX of a populate finds its key free and stores a list whose sample is
older than an invalidation of the key that has already acted. -/
def StoresStale (cfg : Config Raw) (w : World Raw) (a : Action) : Prop :=
  ∃ i fate r perms n outcome, a = .serveRead i fate ∧ fate ≠ .fails false ∧
    w.reads[i]? = some r ∧ r.port = .sent (populateCommand cfg r.userId r.tenantId perms) ∧
    r.sampled = some (n, outcome) ∧
    w.store.get? (cfg.backend.key r.userId r.tenantId) = none ∧
    ∃ (j : MutationId) (m : MutationCall Raw) (u t : String), w.mutations[j]? = some m ∧
      Covers m.request u t ∧ cfg.backend.key u t = cfg.backend.key r.userId r.tenantId ∧
      HasActed m ∧ n < m.began

/-- A bulk invalidation is called whose pattern does not select the key of a pair
that it covers. -/
def MissesKeys (cfg : Config Raw) (a : Action) : Prop :=
  ∃ request scope u t, a = .mutate request ∧ requestScope request = some scope ∧
    Covers request u t ∧ cfg.backend.selects scope (cfg.backend.key u t) = false

/-- Patterns of ids without pattern characters miss no key. -/
theorem not_missesKeys_of_globFree {codec : JsonCodec Raw} {ttl : ℕ} {stale : ClientId → Bool}
    {a : Action}
    (h : ∀ request, a = .mutate request → match request with
      | .invalidate u none => GlobFree u
      | .invalidateTenant t => GlobFree t
      | _ => True) : ¬MissesKeys ⟨redisBackend codec ttl, stale⟩ a := by
  rintro ⟨request, scope, u, t, ha, hscope, hcov, hmiss⟩
  have hfree := h request ha
  cases request with
  | writeThrough u' t' perms => cases hscope
  | invalidate u' t? =>
    cases t? with
    | some t' => cases hscope
    | none =>
      cases hscope
      obtain rfl : u' = u := hcov
      have hsel := userPattern_redisKey hfree t
      exact Bool.noConfusion (hmiss.symm.trans hsel)
  | invalidateTenant t' =>
    cases hscope
    obtain rfl : t' = t := hcov
    have hsel := tenantPattern_redisKey hfree u
    exact Bool.noConfusion (hmiss.symm.trans hsel)

/-- What an invalidation still has to do about an entry under a key, by where it
is suspended. -/
inductive StillClears (m : MutationCall Raw) (k : String) (since : ℕ) : Prop
  /-- Its DEL has not come back with a count. -/
  | deleting (hpc : m.pc = .deleting) (hport : ∀ count, m.port ≠ .replied (.deleted count))
  /-- Its scan has not begun. -/
  | before {scope : Scope} {total : ℕ} {cmd : Command Raw} (hpc : m.pc = .scanning scope total)
      (hport : m.port = .sent cmd) (hstart : m.progress.started = none)
      (hseen : m.progress.seen = [])
  /-- Its scan has yet to come to the key. -/
  | scanning {scope : Scope} {total s : ℕ} {cmd : Command Raw} (hpc : m.pc = .scanning scope total)
      (hport : m.port = .sent cmd) (hstart : m.progress.started = some s) (hsince : since ≤ s)
      (hseen : k ∉ m.progress.seen)
  /-- The key is on the page that came back, or on a later one. -/
  | page {scope : Scope} {total cursor s : ℕ} {keys : List String}
      (hpc : m.pc = .scanning scope total) (hport : m.port = .replied (.page cursor keys))
      (hstart : m.progress.started = some s) (hsince : since ≤ s)
      (hseen : k ∈ m.progress.seen → k ∈ keys) (hlast : cursor = 0 → k ∈ keys)
  /-- The key is named by the DEL on its way, or is on a later page. -/
  | deletingPage {scope : Scope} {total cursor s : ℕ} {ks : List String}
      (hpc : m.pc = .deletingPage scope total cursor) (hport : m.port = .sent (.delete ks))
      (hstart : m.progress.started = some s) (hsince : since ≤ s)
      (hseen : k ∈ m.progress.seen → k ∈ ks) (hlast : cursor = 0 → k ∈ ks)
  /-- The key is on a later page. -/
  | deletedPage {scope : Scope} {total cursor s count : ℕ}
      (hpc : m.pc = .deletingPage scope total cursor) (hport : m.port = .replied (.deleted count))
      (hstart : m.progress.started = some s) (hsince : since ≤ s)
      (hseen : k ∉ m.progress.seen) (hmore : cursor ≠ 0)
  /-- A command failed and the call is about to raise. -/
  | failed (hpc : ∀ o, m.pc ≠ .done o) (hport : m.port = .replied .failed)
  /-- It raised. -/
  | raised {err : PyError} (hpc : m.pc = .done (.error err))

/-- A call that has returned normally has nothing left to do. -/
theorem StillClears.not_returned {m : MutationCall Raw} {k : String} {since count : ℕ}
    (h : StillClears m k since) (hd : m.pc = .done (.ok count)) : False := by
  cases h with
  | deleting hpc => rw [hd] at hpc; cases hpc
  | before hpc => rw [hd] at hpc; cases hpc
  | scanning hpc => rw [hd] at hpc; cases hpc
  | page hpc => rw [hd] at hpc; cases hpc
  | deletingPage hpc => rw [hd] at hpc; cases hpc
  | deletedPage hpc => rw [hd] at hpc; cases hpc
  | failed hpc => exact hpc _ hd
  | raised hpc => rw [hd] at hpc; cases hpc

/-- A scan that is about to ask for a page has yet to come to the key. -/
theorem StillClears.at_scan {m : MutationCall Raw} {k : String} {since now total : ℕ}
    {scope : Scope} {cmd : Command Raw} (h : StillClears m k since)
    (hpc : m.pc = .scanning scope total) (hport : m.port = .sent cmd) (hnow : since ≤ now) :
    since ≤ m.progress.started.getD now ∧ k ∉ m.progress.seen := by
  cases h with
  | before _ _ hstart hseen =>
    rw [hstart, hseen]
    exact ⟨hnow, by simp⟩
  | scanning _ _ hstart hsince hseen =>
    rw [hstart]
    exact ⟨hsince, hseen⟩
  | deleting hpc' => rw [hpc] at hpc'; cases hpc'
  | page _ hport' => rw [hport] at hport'; cases hport'
  | deletingPage hpc' => rw [hpc] at hpc'; cases hpc'
  | deletedPage hpc' => rw [hpc] at hpc'; cases hpc'
  | failed _ hport' => rw [hport] at hport'; cases hport'
  | raised hpc' => rw [hpc] at hpc'; cases hpc'

/-- A DEL of a page that does not name the key leaves it to a later page. -/
theorem StillClears.page_deleted {m : MutationCall Raw} {k : String}
    {now since total cursor count : ℕ}
    {scope : Scope} {ks : List String} (h : StillClears m k since)
    (hpc : m.pc = .deletingPage scope total cursor) (hport : m.port = .sent (.delete ks))
    (hnot : k ∉ ks) : StillClears (m.answered now (.deleted count)) k since := by
  cases h with
  | deletingPage hpc' hport' hstart hsince hseen hlast =>
    rw [hport] at hport'
    cases hport'
    rw [hpc] at hpc'
    cases hpc'
    exact .deletedPage hpc rfl hstart hsince (fun hmem => hnot (hseen hmem))
      fun hzero => hnot (hlast hzero)
  | deleting hpc' => rw [hpc] at hpc'; cases hpc'
  | before hpc' => rw [hpc] at hpc'; cases hpc'
  | scanning hpc' => rw [hpc] at hpc'; cases hpc'
  | page hpc' => rw [hpc] at hpc'; cases hpc'
  | deletedPage _ hport' => rw [hport] at hport'; cases hport'
  | failed _ hport' => rw [hport] at hport'; cases hport'
  | raised hpc' => rw [hpc] at hpc'; cases hpc'

/-- An invalidation that has not acted has everything left to do. -/
theorem stillClears_of_not_hasActed {cfg : Config Raw} {m : MutationCall Raw} {u t : String}
    (hshape : MutationShape cfg m) (hcov : Covers m.request u t) (hacted : ¬HasActed m)
    (hprogress : m.progress.started = none → m.progress.seen = []) (k : String) (since : ℕ) :
    StillClears m k since := by
  cases hshape with
  | writing hq =>
    rw [hq] at hcov
    cases hcov
  | deleting hq hpc hport =>
    refine .deleting hpc ?_
    intro count hrep
    exact hacted (by simp [HasActed, hpc, hrep])
  | scanning hq hpc hport =>
    cases hm : m.port with
    | sent cmd =>
      have hstart : m.progress.started = none := by
        simpa [HasActed, hpc, hm] using hacted
      exact .before hpc hm hstart (hprogress hstart)
    | replied reply => exact absurd (by simp [HasActed, hpc, hm]) hacted
  | deletingPage hq hpc hport => exact absurd (by simp [HasActed, hpc]) hacted
  | done hpc hport => exact absurd (by simp [HasActed, hpc]) hacted

/-- The account: each covering invalidation still has to clear each stale entry. -/
structure Accounted (cfg : Config Raw) (w : World Raw) : Prop where
  /-- A covering bulk invalidation selects the key of the pair. -/
  selects : ∀ (j : MutationId) (m : MutationCall Raw) (scope : Scope) (u t : String),
    w.mutations[j]? = some m → requestScope m.request = some scope → Covers m.request u t →
    cfg.backend.selects scope (cfg.backend.key u t) = true
  /-- Before its first page a scan has seen nothing. -/
  progress : ∀ (j : MutationId) (m : MutationCall Raw), w.mutations[j]? = some m →
    m.progress.started = none → m.progress.seen = []
  /-- A populate has sampled Helios. -/
  sampled : ∀ (k : String) (e : Entry Raw) (i : ReadId), w.store.get? k = some e →
    e.origin = .populate i → ∃ r x, w.reads[i]? = some r ∧ r.sampled = some x
  /-- A key whose value is not written through came into being before now. -/
  since : ∀ (k : String) (e : Entry Raw), w.store.get? k = some e →
    (∀ j, e.origin ≠ .writeThrough j) → e.since < w.clock
  /-- A covering invalidation still has to clear what was sampled before it. -/
  clears : ∀ (j : MutationId) (m : MutationCall Raw) (u t : String) (e : Entry Raw),
    w.mutations[j]? = some m → Covers m.request u t →
    w.store.get? (cfg.backend.key u t) = some e → SampledBefore w m.began e.origin →
    StillClears m (cfg.backend.key u t) e.since

/-- In an accounted state no entry is stale after a completed invalidation. -/
theorem Accounted.noStaleEntry {cfg : Config Raw} {w : World Raw} (h : Accounted cfg w) :
    NoStaleEntry cfg w := by
  intro j m count u t e hm hd hcov he hstale
  exact (h.clears j m u t e hm hcov he hstale).not_returned hd

section steps

variable {cfg : Config Raw} {w w' : World Raw} {a : Action}

/-- Whether an entry is older than a time does not change once it is stored. -/
theorem SampledBefore.earlier (h : Accounted cfg w) (hx : Extends w w') {k : String}
    {e : Entry Raw} (he : w.store.get? k = some e) {time : ℕ}
    (hb : SampledBefore w' time e.origin) : SampledBefore w time e.origin := by
  cases ho : e.origin with
  | initial => trivial
  | writeThrough j =>
    rw [ho] at hb
    exact hb
  | populate i =>
    rw [ho] at hb
    obtain ⟨r', n, outcome, hr', hsam', hlt⟩ := hb
    obtain ⟨r, ⟨n₀, outcome₀⟩, hr, hsam⟩ := h.sampled k e i he ho
    obtain ⟨r'', hr'', -, -, -, -, -, hkeep, -⟩ := hx.reads i r hr
    obtain rfl : r' = r'' := Option.some.inj (hr'.symm.trans hr'')
    have hsame := (hkeep _ hsam).symm.trans hsam'
    cases hsame
    exact ⟨r, n, outcome, hr, hsam, hlt⟩

/-- A page comes back to a scan that has yet to come to the key of an entry. -/
theorem StillClears.page_served {backend : Backend Raw} {now : ℕ} {store : Store Raw}
    {m : MutationCall Raw} {scope : Scope} {total cursor : ℕ} {keys : List String} {k : String}
    {e : Entry Raw} (hpc : m.pc = .scanning scope total) (hsel : backend.selects scope k = true)
    (he : store.get? k = some e) (hle : e.since ≤ m.progress.started.getD now)
    (hseen : k ∉ m.progress.seen)
    (hallowed : PageAllowed backend now m.progress store scope cursor keys) :
    StillClears (m.answered now (.page cursor keys)) k e.since := by
  refine .page hpc rfl rfl hle ?_ ?_
  · intro hmem
    rcases List.mem_append.mp hmem with hold | hnew
    · exact absurd hold hseen
    · exact hnew
  · intro hzero
    -- the SCAN guarantee: the last page completes the keys that were there from the start
    have hreturned := hallowed.2 hzero (k, e) (OrderedDict.mem_entries.mpr he) hsel hle
    rcases List.mem_append.mp hreturned with hold | hnew
    · exact absurd hold hseen
    · exact hnew

/-- The server deals with a command of an invalidation and the entry is still there. -/
theorem StillClears.served {m : MutationCall Raw} {j : MutationId} {u t : String}
    {e : Entry Raw} {cmd : Command Raw} {fate : Fate} {reply : Reply Raw} {store : Store Raw}
    (hshape : MutationShape cfg m) (hcov : Covers m.request u t)
    (hsel : ∀ scope, requestScope m.request = some scope →
      cfg.backend.selects scope (cfg.backend.key u t) = true)
    (he : w.store.get? (cfg.backend.key u t) = some e)
    (he' : store.get? (cfg.backend.key u t) = some e) (hsince : e.since < w.clock)
    (hport : m.port = .sent cmd)
    (hs : serve cfg.backend w.clock (.writeThrough j) m.progress w.store cmd fate =
      some (reply, store)) (h : StillClears m (cfg.backend.key u t) e.since) :
    StillClears (m.answered w.clock reply) (cfg.backend.key u t) e.since := by
  have hdeleted : ∀ ks, cfg.backend.key u t ∈ ks → store ≠ w.store.popAll ks := by
    intro ks hmem hstore
    rw [hstore, OrderedDict.get?_popAll, if_pos hmem] at he'
    cases he'
  have hfailed : reply = .failed →
      StillClears (m.answered w.clock reply) (cfg.backend.key u t) e.since := by
    rintro rfl
    exact .failed (hshape.not_done hport) rfl
  cases hshape with
  | writing hq =>
    rw [hq] at hcov
    cases hcov
  | deleting hq hpc hcmd =>
    have hdel := hcmd cmd hport
    subst hdel
    rw [hq] at hcov
    obtain ⟨rfl, rfl⟩ := hcov
    rcases serve_delete hs with ⟨hf, -⟩ | ⟨count, -, hstore⟩
    · exact hfailed hf
    · exact absurd hstore (hdeleted _ (by simp))
  | scanning hq hpc hcmd =>
    obtain ⟨cursor₀, hscan⟩ := hcmd cmd hport
    subst hscan
    obtain ⟨-, hf | ⟨cursor, keys, rfl, hallowed⟩⟩ := serve_scan hs
    · exact hfailed hf
    · obtain ⟨hle, hseen⟩ := h.at_scan hpc hport hsince.le
      exact .page_served hpc (hsel _ hq) he hle hseen hallowed
  | deletingPage hq hpc hcmd =>
    obtain ⟨ks, hdel⟩ := hcmd cmd hport
    subst hdel
    rcases serve_delete hs with ⟨hf, -⟩ | ⟨count, rfl, hstore⟩
    · exact hfailed hf
    · exact h.page_deleted hpc hport fun hmem => hdeleted ks hmem hstore
  | done hpc hrep =>
    obtain ⟨last, hrep⟩ := hrep
    rw [hport] at hrep
    cases hrep

/-- An invalidation goes on and the entry is still there. -/
theorem StillClears.resumed {now : ℕ} {m m' : MutationCall Raw} {reply : Reply Raw} {k : String}
    {since : ℕ} (hnotWriting : m.pc ≠ .writing) (hport : m.port = .replied reply)
    (ha : m.advance now reply = some m') (h : StillClears m k since) :
    StillClears m' k since := by
  cases h with
  | deleting hpc hdel =>
    obtain ⟨outcome, rfl, hcount⟩ := advance_single (Or.inr hpc) ha
    cases outcome with
    | ok n =>
      obtain ⟨count, hrep⟩ := hcount hpc rfl
      rw [hrep] at hport
      exact absurd hport (hdel count)
    | error err => exact .raised rfl
  | before hpc hsent => rw [hport] at hsent; cases hsent
  | scanning hpc hsent => rw [hport] at hsent; cases hsent
  | page hpc hrep hstart hle hseen hlast =>
    rw [hport] at hrep
    cases hrep
    rcases advance_scan hpc ha with ⟨hf, -⟩ | ⟨cursor', keys', hrep', hnext⟩
    · cases hf
    · cases hrep'
      rcases hnext with ⟨hnil, hzero, -⟩ | ⟨hnil, -, rfl⟩ | ⟨-, rfl⟩
      · rw [hnil] at hlast
        cases hlast hzero
      · rw [hnil] at hseen
        exact .scanning rfl rfl hstart hle fun hmem => by cases hseen hmem
      · exact .deletingPage rfl rfl hstart hle hseen hlast
  | deletingPage hpc hsent => rw [hport] at hsent; cases hsent
  | deletedPage hpc hrep hstart hle hseen hmore =>
    rw [hport] at hrep
    cases hrep
    rcases advance_deletingPage hpc ha with ⟨hf, -⟩ | ⟨count', hrep', hnext⟩
    · cases hf
    · rcases hnext with ⟨hzero, -⟩ | ⟨-, rfl⟩
      · exact absurd hzero hmore
      · exact .scanning rfl rfl hstart hle hseen
  | failed hpc hrep =>
    rw [hport] at hrep
    cases hrep
    cases hm : m.pc with
    | writing => exact absurd hm hnotWriting
    | deleting =>
      obtain ⟨outcome, rfl, hcount⟩ := advance_single (Or.inr hm) ha
      cases outcome with
      | ok n =>
        obtain ⟨count, hrep⟩ := hcount hm rfl
        cases hrep
      | error err => exact .raised rfl
    | scanning scope total =>
      rcases advance_scan hm ha with ⟨-, rfl⟩ | ⟨cursor, keys, hrep', -⟩
      · exact .raised rfl
      · cases hrep'
    | deletingPage scope total cursor =>
      rcases advance_deletingPage hm ha with ⟨-, rfl⟩ | ⟨count, hrep', -⟩
      · exact .raised rfl
      · cases hrep'
    | done o => exact absurd hm (hpc o)
  | raised hpc => simp [MutationCall.advance, hpc] at ha

/-- The same for a whole move of an invalidation, with the entry as it was. -/
theorem StillClears.moves {m m' : MutationCall Raw} {j : MutationId} {u t : String}
    {e : Entry Raw} (hs : step cfg w a = some w') (hshape : MutationShape cfg m)
    (hcov : Covers m.request u t)
    (hsel : ∀ scope, requestScope m.request = some scope →
      cfg.backend.selects scope (cfg.backend.key u t) = true)
    (he : w.store.get? (cfg.backend.key u t) = some e)
    (he' : w'.store.get? (cfg.backend.key u t) = some e) (hsince : e.since < w.clock)
    (hmu : w.mutations[j]? = some m) (hmove : MutationMove cfg w j m a m')
    (h : StillClears m (cfg.backend.key u t) e.since) :
    StillClears m' (cfg.backend.key u t) e.since := by
  cases hmove with
  | served hport hserve =>
    have hv : Transition cfg w _ _ := .mutationServed hmu hport hserve
    have hstep := Option.some.inj (hs.symm.trans hv.step_eq)
    rw [hstep] at he'
    exact h.served hshape hcov hsel he he' hsince hport hserve
  | resumed hport ha =>
    refine h.resumed ?_ hport ha
    intro hwriting
    obtain ⟨u', t', perms, hq⟩ := hshape.of_writing hwriting
    rw [hq] at hcov
    cases hcov

/-- An invalidation that starts has everything to clear. -/
theorem start_stillClears (cfg : Config Raw) (now : ℕ) {request : MutationRequest} {u t : String}
    (hcov : Covers request u t) (k : String) (since : ℕ) :
    StillClears (.start cfg now request : MutationCall Raw) k since := by
  refine stillClears_of_not_hasActed (start_mutationShape cfg now request) hcov ?_
    (fun _ => rfl) k since
  cases request with
  | writeThrough u' t' perms => cases hcov
  | invalidate u' t? =>
    cases t? with
    | none => simp [HasActed, MutationCall.start]
    | some t' => simp [HasActed, MutationCall.start]
  | invalidateTenant t' => simp [HasActed, MutationCall.start]

/-- The account is kept by every step that stores nothing stale. -/
theorem clears_step (hcon : Consistent cfg w) (h : Accounted cfg w)
    (hs : step cfg w a = some w') (hstale : ¬StoresStale cfg w a) {j : MutationId}
    {m' : MutationCall Raw} {u t : String} {e : Entry Raw} (hm' : w'.mutations[j]? = some m')
    (hcov : Covers m'.request u t) (he' : w'.store.get? (cfg.backend.key u t) = some e)
    (hb : SampledBefore w' m'.began e.origin) :
    StillClears m' (cfg.backend.key u t) e.since := by
  have hx := step_extends hs
  rcases mutation_before hs hm' with hm | ⟨request, -, -, rfl⟩ | ⟨m, hm, hmove⟩
  · cases step_keyChange hcon.shaped hs (cfg.backend.key u t) with
    | keeps _ hkeep =>
      rw [hkeep] at he'
      exact h.clears j m' u t e hm hcov he' (SampledBefore.earlier h hx he' hb)
    | @populates i fate r perms hfate hr hport hk hres hfree hnew =>
      -- the new entry is stale for this call, so the call cannot have acted
      rw [hnew] at he'
      cases he'
      obtain ⟨n, outcome, hsam, -⟩ := hres
      obtain ⟨r', n', outcome', hr', hsam', hlt⟩ := hb
      obtain ⟨r'', hr'', -, -, -, -, -, hkeep, -⟩ := hx.reads i r hr
      obtain rfl : r' = r'' := Option.some.inj (hr'.symm.trans hr'')
      have hsame := (hkeep _ hsam).symm.trans hsam'
      cases hsame
      have hacted : ¬HasActed m' := by
        intro hacted
        exact hstale ⟨i, fate, r, perms, n, outcome, rfl, hfate, hr, hport, hsam,
          by rw [hk]; exact hfree, j, m', u, t, hm, hcov, hk.symm, hacted, hlt⟩
      exact stillClears_of_not_hasActed (hcon.shaped.mutations j m' hm) hcov hacted
        (h.progress j m' hm) _ _
    | overwrites hmu hq hport hk hnew =>
      rw [hnew] at he'
      cases he'
      cases hb
    | deletes hmu hport hmem hnew =>
      rw [hnew] at he'
      cases he'
    | expires hentry hex hnew =>
      rw [hnew] at he'
      cases he'
  · exact start_stillClears cfg w.clock hcov _ _
  · have hcall := hmove.same_call
    rw [hcall.1] at hcov
    rw [hcall.2] at hb
    have hch := step_keyChange hcon.shaped hs (cfg.backend.key u t)
    cases hch with
    | keeps _ hkeep =>
      have he := hkeep.symm.trans he'
      have hbefore := SampledBefore.earlier h hx he hb
      have hsince : e.since < w.clock := by
        refine h.since _ e he ?_
        intro j' horigin
        rw [horigin] at hbefore
        cases hbefore
      exact (h.clears j m u t e hm hcov he hbefore).moves hs (hcon.shaped.mutations j m hm) hcov
        (fun scope hq => h.selects j m scope u t hm hq hcov) he he' hsince hm hmove
    | populates => cases hmove
    | overwrites hmu hq hport hk hnew =>
      rw [hnew] at he'
      cases he'
      cases hb
    | deletes hmu hport hmem hnew =>
      rw [hnew] at he'
      cases he'
    | expires hentry hex hnew =>
      rw [hnew] at he'
      cases he'

/-- A step that meets the condition keeps the account. -/
theorem Accounted.preserved (hcon : Consistent cfg w) (h : Accounted cfg w)
    (hs : step cfg w a = some w') (hstale : ¬StoresStale cfg w a) (hmiss : ¬MissesKeys cfg a) :
    Accounted cfg w' where
  selects j m' scope u t hm' hq hcov := by
    rcases mutation_before hs hm' with hm | ⟨request, ha, -, rfl⟩ | ⟨m, hm, hmove⟩
    · exact h.selects j m' scope u t hm hq hcov
    · by_contra hsel
      exact hmiss ⟨request, scope, u, t, ha, hq, hcov, Bool.eq_false_of_not_eq_true hsel⟩
    · rw [hmove.same_call.1] at hq hcov
      exact h.selects j m scope u t hm hq hcov
  progress j m' hm' hstart := by
    rcases mutation_before hs hm' with hm | ⟨request, -, -, rfl⟩ | ⟨m, hm, hmove⟩
    · exact h.progress j m' hm hstart
    · rfl
    · cases hmove with
      | @served cmd fate reply store hport hserve =>
        cases reply with
        | page cursor keys => cases hstart
        | value raw => exact h.progress j m hm hstart
        | stored b => exact h.progress j m hm hstart
        | deleted n => exact h.progress j m hm hstart
        | failed => exact h.progress j m hm hstart
      | resumed hport ha =>
        have hsame := (advance_same_call ha).2.2
        rw [hsame] at hstart ⊢
        exact h.progress j m hm hstart
  sampled k e i he ho := by
    have hx := step_extends hs
    have hlater : ∀ r : ReadCall Raw, w.reads[i]? = some r → (∃ x, r.sampled = some x) →
        ∃ r x, w'.reads[i]? = some r ∧ r.sampled = some x := by
      rintro r hr ⟨x, hsam⟩
      obtain ⟨r', hr', -, -, -, -, -, hkeep, -⟩ := hx.reads i r hr
      exact ⟨r', x, hr', hkeep x hsam⟩
    cases step_keyChange hcon.shaped hs k with
    | keeps _ hkeep =>
      rw [hkeep] at he
      obtain ⟨r, x, hr, hsam⟩ := h.sampled k e i he ho
      exact hlater r hr ⟨x, hsam⟩
    | populates hfate hr hport hk hres hfree hnew =>
      rw [hnew] at he
      cases he
      cases ho
      obtain ⟨n, outcome, hsam, -⟩ := hres
      exact hlater _ hr ⟨_, hsam⟩
    | overwrites hmu hq hport hk hnew =>
      rw [hnew] at he
      cases he
      cases ho
    | deletes hmu hport hmem hnew =>
      rw [hnew] at he
      cases he
    | expires hentry hex hnew =>
      rw [hnew] at he
      cases he
  since k e he ho := by
    rw [step_clock hs]
    cases step_keyChange hcon.shaped hs k with
    | keeps _ hkeep =>
      rw [hkeep] at he
      exact Nat.lt_succ_of_lt (h.since k e he ho)
    | populates hfate hr hport hk hres hfree hnew =>
      rw [hnew] at he
      cases he
      exact Nat.lt_succ_self _
    | overwrites hmu hq hport hk hnew =>
      rw [hnew] at he
      cases he
      exact absurd rfl (ho _)
    | deletes hmu hport hmem hnew =>
      rw [hnew] at he
      cases he
    | expires hentry hex hnew =>
      rw [hnew] at he
      cases he
  clears _ _ _ _ _ hm' hcov he' hb := clears_step hcon h hs hstale hm' hcov he' hb

end steps

/-- At the start there is no invalidation. -/
theorem init_accounted (cfg : Config Raw) (content : OrderedDict String (Raw × Option ℕ))
    (membership : String → String → Json) : Accounted cfg (.init content membership) where
  selects _ _ _ _ _ h := by cases h
  progress _ _ h := by cases h
  sampled k e i he ho := by
    rw [World.init, OrderedDict.get?_mapValues] at he
    obtain ⟨v, -, rfl⟩ := Option.map_eq_some_iff.mp he
    cases ho
  since k e he _ := by
    rw [World.init, OrderedDict.get?_mapValues] at he
    obtain ⟨v, -, rfl⟩ := Option.map_eq_some_iff.mp he
    exact Nat.zero_lt_one
  clears _ _ _ _ _ h := by cases h

/-- No stale resurrection. In every run in which no populate stores a list that is
older than an invalidation of its key that has already acted, and no bulk
invalidation has a pattern that misses a key it is meant for: once an invalidation
has returned normally, nothing under a pair that it covers was there from the start
or spells a Helios sample from before it was called. -/
theorem no_stale_entry_after_invalidation {cfg : Config Raw}
    {content : OrderedDict String (Raw × Option ℕ)} {membership : String → String → Json}
    {as : List Action} {w : World Raw}
    (hrun : run (step cfg) (.init content membership) as = some w)
    (hsteps : Along (step cfg) (fun v a _ => ¬StoresStale cfg v a ∧ ¬MissesKeys cfg a)
      (.init content membership) as) : NoStaleEntry cfg w := by
  have hinv := run_invariant (fun v => Consistent cfg v ∧ Accounted cfg v)
    (fun v a v' hv hs hq => ⟨hv.1.preserved hs, hv.2.preserved hv.1 hs hq.1 hq.2⟩) hrun hsteps
    ⟨init_consistent cfg content membership, init_accounted cfg content membership⟩
  exact hinv.2.noStaleEntry

/-- A cache with one entry, from before the run. -/
def cachedContent : OrderedDict String (List Json × Option ℕ) :=
  OrderedDict.empty.set (redisKey "user-1" "tenant-1") ([.str "helios:members:view"], none)

/-- No sample of Helios is older than a mutating call. -/
def samplesFresh (w : World Raw) : Bool :=
  w.reads.all fun r => r.sampled.all fun sample => w.mutations.all fun m => m.began ≤ sample.1

/-- Then a sample is no older than any invalidation. -/
theorem began_le_of_samplesFresh {w : World Raw} (h : samplesFresh w = true) {i : ReadId}
    {r : ReadCall Raw} {n : ℕ} {outcome : HttpOutcome} {j : MutationId} {m : MutationCall Raw}
    (hr : w.reads[i]? = some r) (hsam : r.sampled = some (n, outcome))
    (hm : w.mutations[j]? = some m) : m.began ≤ n := by
  have hread := List.all_eq_true.mp h r (List.mem_of_getElem? hr)
  rw [hsam, Option.all_some] at hread
  exact of_decide_eq_true (List.all_eq_true.mp hread m (List.mem_of_getElem? hm))

/-- And no populate stores a list that is. -/
theorem not_storesStale_of_samplesFresh {cfg : Config Raw} {w : World Raw} {a : Action}
    (h : samplesFresh w = true) : ¬StoresStale cfg w a := by
  rintro ⟨i, fate, r, perms, n, outcome, -, -, hr, -, hsam, -, j, m, u, t, hm, -, -, -, hlt⟩
  exact absurd (began_le_of_samplesFresh h hr hsam hm) (Nat.not_le_of_lt hlt)

/-- A tenant is dropped from the cache, and one of its pairs is read and populated afresh. -/
def droppedTenantRun : List Action :=
  [.mutate (.invalidateTenant "tenant-1"),
    .serveMutation 0 (.returns 0 [redisKey "user-1" "tenant-1"]), .resumeMutation 0,
    .serveMutation 0 .executes, .resumeMutation 0,
    .read 0 "user-1" "tenant-1" .getUserPermissions, .serveRead 0 .executes, .resumeRead 0,
    .sample 0 .answers, .resumeRead 0, .serveRead 0 .executes, .resumeRead 0]

/-- The entry of its populate is not stale. -/
theorem no_stale_entry_droppedTenantRun : ∃ w, run (step (fixedConfig true))
      (.init cachedContent fun _ _ => activeBody [.str "helios:tenant:view"])
      droppedTenantRun = some w ∧
    (w.store.get? (redisKey "user-1" "tenant-1")).map Entry.origin = some (.populate 0) ∧
    NoStaleEntry (fixedConfig true) w := by
  have hrun : run (step (fixedConfig true))
      (.init cachedContent fun _ _ => activeBody [.str "helios:tenant:view"])
      droppedTenantRun = some _ := rfl
  have hselected : ∀ a ∈ droppedTenantRun, ¬MissesKeys (fixedConfig true) a := by
    have hfree : GlobFree "tenant-1" := by simp [GlobFree, isMetaChar]
    intro a ha
    refine not_missesKeys_of_globFree ?_
    rintro request rfl
    simp only [droppedTenantRun, List.mem_cons, Action.mutate.injEq, reduceCtorEq,
      List.not_mem_nil, or_false] at ha
    rw [ha]
    exact hfree
  have hfresh : Along (step (fixedConfig true)) (fun v _ _ => samplesFresh v = true)
      (.init cachedContent fun _ _ => activeBody [.str "helios:tenant:view"])
      droppedTenantRun := by decide
  have hsteps := (hfresh.imp (Q := fun v a _ => ¬StoresStale (fixedConfig true) v a)
    fun _ _ _ h => not_storesStale_of_samplesFresh h).and (along_of_forall hselected)
  exact ⟨_, hrun, rfl, no_stale_entry_after_invalidation hrun hsteps⟩

/-- Read 0 has been answered by Helios, the membership ends, and the pair is
invalidated; then the populate of read 0 is executed. -/
def resurrectingRun : List Action :=
  [.read 0 "user-1" "tenant-1" .getUserPermissions, .serveRead 0 .executes, .resumeRead 0,
    .sample 0 .answers, .change "user-1" "tenant-1" notMemberBody,
    .mutate (.invalidate "user-1" (some "tenant-1")), .serveMutation 0 .executes,
    .resumeMutation 0, .resumeRead 0, .serveRead 0 .executes]

/-- The populate of this run brings back the revoked list. -/
theorem stale_entry_resurrectingRun :
    Reachable (fixedConfig true) (endOf true resurrectingRun) ∧
      ¬NoStaleEntry (fixedConfig true) (endOf true resurrectingRun) := by
  refine ⟨reachable_endOf rfl, ?_⟩
  intro h
  exact h 0 _ 0 "user-1" "tenant-1" _ rfl rfl ⟨rfl, rfl⟩ rfl ⟨_, 4, _, rfl, rfl, by decide⟩

end HeliosPermissions.StaleEntries
