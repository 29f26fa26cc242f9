import HeliosPermissions.KeyedWrites

/-!
# Write-through against concurrent populates

A populate can only fill a key that is free, so from the moment a write-through
has been executed its list stays until another unconditional write or a delete
reaches the key. A read whose GET is executed in between has its answer from
then on, whatever happens before it is resumed.
-/

namespace HeliosPermissions.WriteThroughWins

open JsonValues CacheKeys CacheStore HeliosResolution ClientWorld PartialRuns InFlightTable
open CallHistory CallShapes KeyedWrites

variable {Raw : Type}

/-- The server deals with a write-through or invalidation that names this key. -/
def TouchesKey (k : String) (w : World Raw) (a : Action) : Prop :=
  ∃ j fate m cmd, a = .serveMutation j fate ∧ w.mutations[j]? = some m ∧ m.port = .sent cmd ∧
    cmd.touches k

/-- The key holds this list, and no expiry is set for it. -/
def HoldsList (cfg : Config Raw) (k : String) (perms : List Json) (w : World Raw) : Prop :=
  ∃ e, w.store.get? k = some e ∧ e.raw = cfg.backend.dumps perms ∧ e.ex = none

/-- A step that does not touch the key leaves its list. -/
theorem holdsList_step {cfg : Config Raw} {k : String} {perms : List Json} {w w' : World Raw}
    {a : Action} (hshape : CallsShaped cfg w) (h : step cfg w a = some w')
    (hquiet : ¬TouchesKey k w a) (hl : HoldsList cfg k perms w) : HoldsList cfg k perms w' := by
  obtain ⟨e, he, hraw, hex⟩ := hl
  have hch := step_keyChange hshape h k
  cases hch with
  | keeps _ hkeep => exact ⟨e, by rw [hkeep]; exact he, hraw, hex⟩
  | populates hfate hr hport hk hres hfree hnew =>
    -- the guard of SET NX: the key is not free
    rw [he] at hfree
    cases hfree
  | overwrites hmu hq hport hk hnew =>
    exact absurd ⟨_, _, _, _, rfl, hmu, hport, rfl, rfl⟩ hquiet
  | deletes hmu hport hmem hnew => exact absurd ⟨_, _, _, _, rfl, hmu, hport, hmem⟩ hquiet
  | expires hentry hexp hnew =>
    rw [he] at hentry
    cases hentry
    rw [hex] at hexp
    cases hexp

/-- A run that does not touch the key keeps the list. -/
theorem holdsList_run {cfg : Config Raw} {k : String} {perms : List Json} {w w' : World Raw}
    {as : List Action} (hshape : CallsShaped cfg w) (h : run (step cfg) w as = some w')
    (hquiet : Along (step cfg) (fun v a _ => ¬TouchesKey k v a) w as)
    (hl : HoldsList cfg k perms w) : HoldsList cfg k perms w' := by
  have hinv := run_invariant (fun v => CallsShaped cfg v ∧ HoldsList cfg k perms v)
    (fun v a v' hv hs hq => ⟨hv.1.preserved hs, holdsList_step hv.1 hs hq hv.2⟩) h hquiet
    ⟨hshape, hl⟩
  exact hinv.2

/-- The SET of a write-through puts its list under the key. -/
theorem holdsList_writeThrough {cfg : Config Raw} (httl : cfg.backend.ttlSeconds = 0)
    {w w' : World Raw} {j : MutationId} {m : MutationCall Raw} {u t : String} {perms : List Json}
    {cmd : Command Raw} (hshape : CallsShaped cfg w) (hmu : w.mutations[j]? = some m)
    (hq : m.request = .writeThrough u t perms) (hport : m.port = .sent cmd)
    (h : step cfg w (.serveMutation j .executes) = some w') :
    HoldsList cfg (cfg.backend.key u t) perms w' := by
  have hcmd : cmd = .set (cfg.backend.key u t) (cfg.backend.dumps perms) none false := by
    have hex : cfg.backend.ex = none := by simp [Backend.ex, httl]
    cases hshape.mutations j m hmu with
    | writing hq' hpc hset =>
      rw [hq] at hq'
      cases hq'
      rw [hset cmd hport, hex]
    | deleting hq' => rw [hq] at hq'; cases hq'
    | scanning hq' => rw [hq] at hq'; cases hq'
    | deletingPage hq' => rw [hq] at hq'; cases hq'
    | done hpc hrep =>
      obtain ⟨reply, hrep⟩ := hrep
      rw [hport] at hrep
      cases hrep
  obtain ⟨v, hv, rfl⟩ := step_transition h
  cases hv with
  | mutationServed hmu' hport' hs =>
    rw [hmu] at hmu'
    cases hmu'
    rw [hport] at hport'
    cases hport'
    subst hcmd
    have hstore := congrArg (fun p => p.map Prod.snd) hs
    obtain ⟨since, hset⟩ := execute_overwrite w.clock (.writeThrough j) w.store
      (cfg.backend.key u t) (cfg.backend.dumps perms) none
    have hnew := Option.some.inj hstore
    exact ⟨_, by rw [← hset]; exact congrArg (fun s => s.get? (cfg.backend.key u t)) hnew.symm,
      rfl, rfl⟩

/-- The read has this list for its answer: it waits with the reply, or has
returned the list, or was cancelled before it could. -/
def Answered (cfg : Config Raw) (perms : List Json) (r : ReadCall Raw) : Prop :=
  r.port = .replied (.value (some (cfg.backend.dumps perms))) ∧
    (r.pc = .cacheGet ∨ r.pc = .done (.ok perms) .cache ∨
      r.pc = .done (.error .cancelledError) .cache)

/-- A list that is stored is a hit. -/
theorem decodeGet_dumps (backend : Backend Raw) (perms : List Json) :
    decodeGet backend (.value (some (backend.dumps perms))) = .ok (some perms) := by
  simp [decodeGet, backend.loads_dumps]

/-- An answered read stays answered. -/
theorem Answered.moves {cfg : Config Raw} {perms : List Json} {w v : World Raw} {i : ReadId}
    {r r' : ReadCall Raw} (h : Answered cfg perms r) {a : Action}
    (hmove : ReadMove cfg w v i r a r') : Answered cfg perms r' := by
  obtain ⟨hport, hpc⟩ := h
  have hdecode : ∀ reply, r.port = .replied reply →
      decodeGet cfg.backend reply = .ok (some perms) := by
    intro reply hreply
    rw [hport] at hreply
    cases hreply
    exact decodeGet_dumps cfg.backend perms
  have hnoMiss : ∀ reply, r.port = .replied reply → decodeGet cfg.backend reply ≠ .ok none := by
    intro reply hreply
    rw [hdecode reply hreply]
    exact nofun
  have hget : r.pc.isDone = false → r.pc = .cacheGet := by
    intro hd
    rcases hpc with hpc | hpc | hpc
    · exact hpc
    · rw [hpc] at hd
      cases hd
    · rw [hpc] at hd
      cases hd
  have hnoFetch : ∀ f, r.pc ≠ .heliosFetch f := by
    intro f hfetch
    have hcache := hget (by rw [hfetch]; rfl)
    rw [hfetch] at hcache
    cases hcache
  cases hmove with
  | served hsent => rw [hport] at hsent; cases hsent
  | sampled fate hfetch => exact absurd hfetch (hnoFetch _)
  | marked b hd => exact ⟨hport, hpc⟩
  | leads hget' hreply hmiss => exact absurd hmiss (hnoMiss _ hreply)
  | joins hm hfind =>
    obtain ⟨reply, hreply, hmiss⟩ := hfind.missed
    exact absurd hmiss (hnoMiss reply hreply)
  | populates hfetch => exact absurd hfetch (hnoFetch _)
  | @ends outcome via hend =>
    refine ⟨hport, Or.inr ?_⟩
    rcases hend.at_get (hget hend.not_done) with
      ⟨-, rfl, rfl⟩ | ⟨reply, hreply, hd, rfl⟩ | ⟨f, hfind, -⟩
    · exact Or.inr rfl
    · rw [hdecode reply hreply] at hd
      have hout : outcome = .ok perms := by
        cases outcome with
        | ok list => cases hd; rfl
        | error err => cases hd
      rw [hout]
      exact Or.inl rfl
    · obtain ⟨reply, hreply, hmiss⟩ := hfind.missed
      exact absurd hmiss (hnoMiss reply hreply)

/-- A read whose GET is executed while the key holds a list is answered. -/
theorem answered_of_get {cfg : Config Raw} {w w' : World Raw} {i : ReadId} {r : ReadCall Raw}
    {perms : List Json} (hshape : CallsShaped cfg w) (hr : w.reads[i]? = some r)
    (hpc : r.pc = .cacheGet)
    (hl : HoldsList cfg (cfg.backend.key r.userId r.tenantId) perms w)
    (h : step cfg w (.serveRead i .executes) = some w') :
    ∃ r', w'.reads[i]? = some r' ∧ Answered cfg perms r' := by
  obtain ⟨e, he, hraw, -⟩ := hl
  obtain ⟨v, hv, rfl⟩ := step_transition h
  cases hv with
  | readServed hr' hport hs =>
    rw [hr] at hr'
    cases hr'
    have hcmd := ((hshape.reads i r hr).getting hpc).2 _ hport
    subst hcmd
    have hreply := congrArg (fun p => p.map Prod.fst) hs
    simp only [serve, execute, he, Option.map_some, hraw, Option.some.injEq] at hreply
    exact ⟨_, IndexedTables.get_set_self hr, by rw [← hreply], Or.inl hpc⟩

/-- A run keeps what a read has been answered. -/
theorem answered_run {cfg : Config Raw} {w w' : World Raw} {i : ReadId} {perms : List Json}
    {as : List Action} (h : run (step cfg) w as = some w')
    (hr : ∃ r, w.reads[i]? = some r ∧ Answered cfg perms r) :
    ∃ r, w'.reads[i]? = some r ∧ Answered cfg perms r := by
  refine run_preserves (fun v => ∃ r, v.reads[i]? = some r ∧ Answered cfg perms r) ?_ h hr
  rintro v a v' ⟨r, hr, hans⟩ hs
  obtain ⟨r', hr', rfl | hmove⟩ := read_after hs hr
  · exact ⟨r', hr', hans⟩
  · exact ⟨r', hr', hans.moves hmove⟩

/-- An answered read calls Helios no more. -/
theorem answered_heliosCalls {cfg : Config Raw} {w w' : World Raw} {i : ReadId}
    {r : ReadCall Raw} {perms : List Json} (hr : w.reads[i]? = some r)
    (hans : Answered cfg perms r) (h : step cfg w (.resumeRead i) = some w') :
    w'.heliosCalls = w.heliosCalls := by
  rcases step_heliosCalls h with hsame | ⟨i', r', reply, ha, hr', -, hport, hmiss, -⟩
  · exact hsame
  · cases ha
    rw [hr] at hr'
    cases hr'
    rw [hans.1] at hport
    cases hport
    rw [decodeGet_dumps] at hmiss
    cases hmiss

/-- A populate with an older list is on its way when the write-through is made:
read 0 has missed and been answered by Helios. -/
def overtakenRun : List Action :=
  [.read 0 "user-1" "tenant-1" .getUserPermissions, .serveRead 0 .executes, .resumeRead 0,
    .sample 0 .answers, .resumeRead 0, .mutate (.writeThrough "user-1" "tenant-1" [])]

/-- The write-through is executed, then the older populate, then another read begins. -/
def overtakenStays : List Action :=
  [.serveRead 0 .executes, .read 0 "user-1" "tenant-1" .getUserPermissions]

end HeliosPermissions.WriteThroughWins
