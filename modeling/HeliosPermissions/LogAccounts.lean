import HeliosPermissions.CoherentSessions
import HeliosPermissions.DiagnosticLogs

/-!
# What the log says of a session

A cache that may have become stale shows in the log: three messages stand for a
revocation that may have been lost, and while none of them is in the log of a
session, its reads are current. And the errors in a log are exactly the reads that
were denied because Helios was unreachable and the invalidations that raised.
-/

namespace HeliosPermissions.LogAccounts

open JsonValues CacheKeys CacheStore HeliosResolution ClientWorld PartialRuns PermissionCaches
open CoherentSessions DiagnosticLogs
open RevocationEffects hiding perform
open SequentialReads hiding resolveAlone fetchAndPopulate
open RedisPermissionCache (ScanRound)

variable {Raw : Type}

/-- A site, and all that has been logged. -/
structure LoggedSite (Raw : Type) where
  /-- The cache and what Helios knows. -/
  site : Site Raw
  /-- The records, the oldest first. -/
  log : List LogRecord

/-- An event, and the texts of what it meets. -/
structure LoggedEvent (Raw : Type) where
  /-- What happens. -/
  event : Event
  /-- How the exceptions and the values that it meets are spelled. -/
  texts : Texts Raw

/-- One event with its records. -/
def logged (texts : Texts Raw) (backend : Backend Raw) (s : Site Raw) :
    Event → Option (Site Raw × List LogRecord)
  | .read staleOnError u t env =>
    let read := resolveAlone texts backend staleOnError s.server.clock s.server.store u t env
    some (⟨⟨read.1.store, s.server.clock + 1⟩, s.helios⟩, read.2)
  | .publish helios call =>
    (perform texts backend s.server call).map fun ended =>
      (⟨⟨ended.1.2, s.server.clock + 1⟩, helios⟩, ended.2)
  | .drop keys => some (⟨⟨s.server.store.popAll keys, s.server.clock + 1⟩, s.helios⟩, [])

/-- One event, with the log that it leaves. -/
def loggedStep (backend : Backend Raw) (s : LoggedSite Raw) (e : LoggedEvent Raw) :
    Option (LoggedSite Raw) :=
  (logged e.texts backend s.site e.event).map fun ended => ⟨ended.1, s.log ++ ended.2⟩

/-- A message about a revocation that may have been lost. -/
def Lossy (r : LogRecord) : Prop :=
  r.msg = writeThroughFailed ∨ r.msg = invalidateFailed ∨ r.msg = invalidateTenantFailed

/-- A call that is meant to publish: what it stores for the pair is true, and it revokes a list
that has changed. Whether it has any effect is left open. -/
structure Announces (u t : String) (s : Site Raw) (helios : Memberships) (call : CacheCall) :
    Prop where
  /-- Tenant ids have no colons. -/
  tenants : ∀ u' t' perms, Tells call u' t' perms → ColonFree t'
  /-- What it tells of the pair is true. -/
  told : ∀ perms, Tells call u t perms → resolutionToPerms (helios u t) = .ok perms
  /-- It covers the pair when its list changes. -/
  covered : resolutionToPerms (helios u t) ≠ resolutionToPerms (s.helios u t) →
    Revokes call u t ∧ PlainId call

/-- Helios is truthful to reads of the pair, and the changes of its list are announced. -/
def Announced (u t : String) (s : LoggedSite Raw) : Event → LoggedSite Raw → Prop
  | .read _ u' t' env, _ =>
    ColonFree t' ∧ (u' = u → t' = t → Truthful s.site.helios u t env.outcome)
  | .publish helios call, _ => Announces u t s.site helios call
  | .drop _, _ => True

section sessions

variable {texts : Texts Raw} {backend : Backend Raw} {s s' : LoggedSite Raw}
  {e : LoggedEvent Raw}

/-- Logging changes nothing of an event. -/
theorem logged_map_fst (texts : Texts Raw) (site : Site Raw) (e : Event) :
    (logged texts backend site e).map Prod.fst = siteStep backend site e := by
  cases e with
  | read staleOnError u t env => simp [logged, siteStep]
  | publish helios call =>
    have hcall : (perform texts backend site.server call).map Prod.fst =
        RevocationEffects.perform backend site.server call := perform_map_fst texts site.server call
    simp only [logged, siteStep, callStep, ← hcall, Option.map_map]
    rfl
  | drop keys => rfl

/-- A step is an event at the site, and its records at the end of the log. -/
theorem loggedStep_cases (h : loggedStep backend s e = some s') :
    siteStep backend s.site e.event = some s'.site ∧ ∃ records,
      logged e.texts backend s.site e.event = some (s'.site, records) ∧
        s'.log = s.log ++ records := by
  obtain ⟨⟨site, records⟩, hlogged, rfl⟩ := Option.map_eq_some_iff.mp h
  refine ⟨?_, records, hlogged, rfl⟩
  rw [← logged_map_fst e.texts, hlogged]
  rfl

/-- A write-through that logs no failure has been executed. -/
theorem writeThrough_quiet {now : ℕ} {store : Store Raw} {u t : String} {perms : List Json}
    {fate : CommandFate}
    (h : ∀ r ∈ (writeThrough texts backend now store u t perms fate).2, ¬Lossy r) :
    fate = .executes := by
  cases fate with
  | executes => rfl
  | fails applied =>
    have hlossy := h ⟨.warn, ("err", .str texts.setError) :: idFields u t,
      writeThroughFailed⟩ (List.mem_singleton.mpr rfl)
    exact absurd (Or.inl rfl) hlossy

/-- A revocation whose records are not about a loss has taken effect. -/
theorem effective_of_quiet {server : Server Raw} {call : CacheCall} {u t : String}
    {ended : CallResult × Store Raw} {records : List LogRecord} (hrevokes : Revokes call u t)
    (hplain : PlainId call) (hp : perform texts backend server call = some (ended, records))
    (hquiet : ∀ r ∈ records, ¬Lossy r) : Effective backend server call u t := by
  have hresult : (RevocationEffects.perform backend server call).map Prod.fst =
      some ended.1 := by
    rw [← perform_map_fst texts, hp]
    rfl
  cases call with
  | get u' t' fate => exact hrevokes.elim
  | set u' t' perms fate => exact hrevokes.elim
  | writeThrough u' t' perms fate =>
    obtain ⟨-, hrecords⟩ := Prod.mk.inj (Option.some.inj hp)
    have hfate : fate = .executes := writeThrough_quiet (by rwa [hrecords])
    have hset : SetExecuted (.writeThrough u' t' perms fate) := by
      rw [hfate]
      simp [SetExecuted]
    exact ⟨hrevokes, hplain, hset, rfl⟩
  | invalidate u' t' fate =>
    obtain ⟨hended, hrecords⟩ := Prod.mk.inj (Option.some.inj hp)
    refine ⟨hrevokes, hplain, trivial, ?_⟩
    rw [hresult, ← hended]
    cases hcount : (RedisPermissionCache.invalidate backend server.store u' t' fate).1 with
    | ok count => simp [invalidate, hcount, CallResult.ofCount]
    | error err =>
      have hlossy := hquiet ⟨.error, ("err", .str texts.deleteError) :: idFields u' t',
        invalidateFailed⟩ (by simp [← hrecords, invalidate, hcount])
      exact absurd (Or.inr (Or.inl rfl)) hlossy
  | invalidateUser u' rounds =>
    obtain ⟨⟨count, store⟩, -, heq⟩ := Option.map_eq_some_iff.mp hp
    obtain ⟨hended, hrecords⟩ := Prod.mk.inj heq
    refine ⟨hrevokes, hplain, trivial, ?_⟩
    rw [hresult, ← hended]
    cases count with
    | ok count => rfl
    | error err =>
      have hlossy := hquiet ⟨.error, [("err", .str texts.deleteError), ("user_id", .str u'),
        ("tenant_id", .null)], invalidateFailed⟩ (by simp [← hrecords, invalidateUserRecords])
      exact absurd (Or.inr (Or.inl rfl)) hlossy
  | invalidateTenant t' rounds =>
    obtain ⟨⟨count, store⟩, -, heq⟩ := Option.map_eq_some_iff.mp hp
    obtain ⟨hended, hrecords⟩ := Prod.mk.inj heq
    refine ⟨hrevokes, hplain, trivial, ?_⟩
    rw [hresult, ← hended]
    cases count with
    | ok count => rfl
    | error err =>
      have hlossy := hquiet ⟨.error, [("err", .str texts.deleteError), ("tenant_id", .str t')],
        invalidateTenantFailed⟩ (by simp [← hrecords, invalidateTenantRecords])
      exact absurd (Or.inr (Or.inr rfl)) hlossy

/-- What is announced and leaves no such record is disciplined. -/
theorem disciplined_of_quiet {u t : String} (hs : loggedStep backend s e = some s')
    (ha : Announced u t s e.event s') (hquiet : ∀ r ∈ s'.log, ¬Lossy r) :
    Disciplined backend u t s.site e.event s'.site := by
  obtain ⟨-, records, hlogged, hlog⟩ := loggedStep_cases hs
  obtain ⟨event, texts⟩ := e
  cases event with
  | read staleOnError u' t' env => exact ha
  | publish helios call =>
    obtain ⟨⟨ended, written⟩, hp, heq⟩ := Option.map_eq_some_iff.mp hlogged
    obtain ⟨-, rfl⟩ := Prod.mk.inj heq
    have hnew : ∀ r ∈ written, ¬Lossy r := by
      intro r hr
      exact hquiet r (hlog ▸ List.mem_append_right _ hr)
    refine ⟨ha.tenants, ha.told, fun hchanged => ?_⟩
    obtain ⟨hrevokes, hplain⟩ := ha.covered hchanged
    exact effective_of_quiet hrevokes hplain hp hnew
  | drop keys => trivial

/-- The log only grows. -/
theorem lossy_stays (h : ∃ r ∈ s.log, Lossy r) (hs : loggedStep backend s e = some s') :
    ∃ r ∈ s'.log, Lossy r := by
  obtain ⟨-, records, -, hlog⟩ := loggedStep_cases hs
  obtain ⟨r, hr, hlossy⟩ := h
  exact ⟨r, hlog ▸ List.mem_append_left _ hr, hlossy⟩

end sessions

section accounts

variable {codec : JsonCodec Raw} {ttlSeconds : ℕ} {u t : String}
  {helios : Memberships} {s s' : LoggedSite Raw} {es : List (LoggedEvent Raw)}

end accounts

/-- What puts an error into the log: a read that is denied because Helios was unreachable, and
an invalidation that raises. -/
inductive Alarm (texts : Texts Raw) (backend : Backend Raw) (s : Site Raw) :
    Event → LogRecord → Prop
  | denied {u t : String} {env : ReadEnv} {message : String}
    (hmiss : RedisPermissionCache.get backend s.server.store u t env.getFate = .ok none)
    (hunreachable : fetchUserPermissions u t env.outcome =
      .error (.heliosUnreachable message)) :
    Alarm texts backend s (.read true u t env)
      ⟨.error, ("err", .str message) :: idFields u t, denying⟩
  | pairRaised {helios : Memberships} {u t : String} {fate : CommandFate} {err : PyError}
    {store : Store Raw} (hraised : RevocationEffects.perform backend s.server
      (.invalidate u t fate) = some (.raised err, store)) :
    Alarm texts backend s (.publish helios (.invalidate u t fate))
      ⟨.error, ("err", .str texts.deleteError) :: idFields u t, invalidateFailed⟩
  | userRaised {helios : Memberships} {u : String} {rounds : List ScanRound} {err : PyError}
    {store : Store Raw} (hraised : RevocationEffects.perform backend s.server
      (.invalidateUser u rounds) = some (.raised err, store)) :
    Alarm texts backend s (.publish helios (.invalidateUser u rounds))
      ⟨.error, [("err", .str texts.deleteError), ("user_id", .str u), ("tenant_id", .null)],
        invalidateFailed⟩
  | tenantRaised {helios : Memberships} {t : String} {rounds : List ScanRound} {err : PyError}
    {store : Store Raw} (hraised : RevocationEffects.perform backend s.server
      (.invalidateTenant t rounds) = some (.raised err, store)) :
    Alarm texts backend s (.publish helios (.invalidateTenant t rounds))
      ⟨.error, [("err", .str texts.deleteError), ("tenant_id", .str t)], invalidateTenantFailed⟩

/-- An alarm is an error. -/
theorem Alarm.level {texts : Texts Raw} {backend : Backend Raw} {s : Site Raw} {e : Event}
    {r : LogRecord} (h : Alarm texts backend s e r) : r.level = .error := by
  cases h with
  | denied => rfl
  | pairRaised => rfl
  | userRaised => rfl
  | tenantRaised => rfl

section alarms

variable {texts : Texts Raw} {backend : Backend Raw} {store : Store Raw} {u t : String}
  {fate : CommandFate} {now : ℕ} {staleOnError : Bool} {env : ReadEnv} {s s' : LoggedSite Raw}
  {e : Event} {r : LogRecord}

/-- The cache logs warnings on a read, and no error. -/
theorem get_level (hr : r ∈ (get texts backend store u t fate).2) : r.level ≠ .error := by
  unfold DiagnosticLogs.get at hr
  split at hr
  · cases hr
  · split at hr
    · cases hr
    · cases List.mem_singleton.mp hr
      simp
    · cases List.mem_singleton.mp hr
      simp
    · cases hr
  · cases List.mem_singleton.mp hr
    simp

/-- Nor does it on a write. -/
theorem setOrWarn_level {origin : Origin} {nx : Bool} {message : String} {perms : List Json}
    (hr : r ∈ (setOrWarn texts backend now origin nx message store u t perms fate).2) :
    r.level ≠ .error := by
  unfold setOrWarn at hr
  split at hr
  · cases List.mem_singleton.mp hr
    simp
  · cases hr

/-- The errors that a read logs. -/
theorem resolveAlone_error_iff :
    (r ∈ (resolveAlone texts backend staleOnError now store u t env).2 ∧ r.level = .error) ↔
      staleOnError = true ∧ RedisPermissionCache.get backend store u t env.getFate = .ok none ∧
        ∃ message, fetchUserPermissions u t env.outcome = .error (.heliosUnreachable message) ∧
          r = ⟨.error, ("err", .str message) :: idFields u t, denying⟩ := by
  have hcache : r ∈ (get texts backend store u t env.getFate).2 → r.level ≠ .error := get_level
  unfold resolveAlone
  dsimp only
  rw [get_fst]
  cases hget : RedisPermissionCache.get backend store u t env.getFate with
  | error err =>
    constructor
    · rintro ⟨hr, hlevel⟩
      exact absurd hlevel (hcache hr)
    · rintro ⟨-, hmiss, -⟩
      cases hmiss
  | ok cached =>
    cases cached with
    | some perms =>
      constructor
      · rintro ⟨hr, hlevel⟩
        exact absurd hlevel (hcache hr)
      · rintro ⟨-, hmiss, -⟩
        cases hmiss
    | none =>
      have hfetched : (r ∈ (fetchAndPopulate texts backend staleOnError now store u t env).2 ∧
          r.level = .error) ↔ staleOnError = true ∧ ∃ message,
            fetchUserPermissions u t env.outcome = .error (.heliosUnreachable message) ∧
            r = ⟨.error, ("err", .str message) :: idFields u t, denying⟩ := by
        unfold fetchAndPopulate
        cases hfetch : fetchEnd u t env.outcome with
        | unreachable message =>
          rw [fetchEnd_unreachable_iff.mp hfetch]
          cases staleOnError with
          | false => simp
          | true =>
            simp only [if_true, List.mem_singleton, true_and]
            constructor
            · rintro ⟨hr, -⟩
              exact ⟨message, rfl, hr⟩
            · rintro ⟨message', heq, hr⟩
              cases heq
              exact ⟨hr, congrArg LogRecord.level hr⟩
        | escaped err =>
          have hnone : ∀ message, fetchUserPermissions u t env.outcome ≠
              .error (.heliosUnreachable message) := by
            intro message heq
            rw [fetchEnd_unreachable_iff.mpr heq] at hfetch
            cases hfetch
          simp [hnone]
        | resolved perms =>
          have hnone : ∀ message, fetchUserPermissions u t env.outcome ≠
              .error (.heliosUnreachable message) := by
            intro message heq
            rw [fetchEnd_unreachable_iff.mpr heq] at hfetch
            cases hfetch
          have hset : r ∈ (set texts backend now store u t perms env.setFate).2 →
              r.level ≠ .error := setOrWarn_level
          constructor
          · rintro ⟨hr, hlevel⟩
            exact absurd hlevel (hset hr)
          · rintro ⟨-, message, heq, -⟩
            exact absurd heq (hnone message)
      simp only [List.mem_append, true_and]
      constructor
      · rintro ⟨hr | hr, hlevel⟩
        · exact absurd hlevel (hcache hr)
        · exact hfetched.mp ⟨hr, hlevel⟩
      · intro h
        obtain ⟨hr, hlevel⟩ := hfetched.mpr h
        exact ⟨Or.inr hr, hlevel⟩

/-- The errors that a call on the cache logs. -/
theorem perform_error_iff {site : Site Raw} {helios : Memberships} {call : CacheCall}
    {ended : CallResult × Store Raw} {records : List LogRecord}
    (hp : perform texts backend site.server call = some (ended, records)) :
    (r ∈ records ∧ r.level = .error) ↔ Alarm texts backend site (.publish helios call) r := by
  have hplain : RevocationEffects.perform backend site.server call = some ended := by
    rw [← perform_map_fst texts, hp]
    rfl
  cases call with
  | get u t fate =>
    obtain ⟨-, rfl⟩ := Prod.mk.inj (Option.some.inj hp)
    constructor
    · rintro ⟨hr, hlevel⟩
      exact absurd hlevel (get_level hr)
    · intro halarm
      cases halarm
  | set u t perms fate =>
    obtain ⟨-, rfl⟩ := Prod.mk.inj (Option.some.inj hp)
    constructor
    · rintro ⟨hr, hlevel⟩
      exact absurd hlevel (setOrWarn_level hr)
    · intro halarm
      cases halarm
  | writeThrough u t perms fate =>
    obtain ⟨-, rfl⟩ := Prod.mk.inj (Option.some.inj hp)
    constructor
    · rintro ⟨hr, hlevel⟩
      exact absurd hlevel (setOrWarn_level hr)
    · intro halarm
      cases halarm
  | invalidate u t fate =>
    obtain ⟨hended, rfl⟩ := Prod.mk.inj (Option.some.inj hp)
    have hresult : ended.1 =
        .ofCount (RedisPermissionCache.invalidate backend site.server.store u t fate).1 := by
      rw [← hended]
      rfl
    obtain ⟨result, store⟩ := ended
    cases hcount : (RedisPermissionCache.invalidate backend site.server.store u t fate).1 with
    | ok count =>
      rw [hcount] at hresult
      constructor
      · rintro ⟨hr, hlevel⟩
        simp only [invalidate, hcount, List.mem_singleton] at hr
        rw [hr] at hlevel
        cases hlevel
      · rintro (_ | ⟨hraised⟩)
        rw [hplain] at hraised
        cases hraised
        cases hresult
    | error err =>
      rw [hcount] at hresult
      constructor
      · rintro ⟨hr, -⟩
        simp only [invalidate, hcount, List.mem_singleton] at hr
        rw [hr]
        exact .pairRaised (hplain.trans (congrArg some (Prod.ext hresult rfl)))
      · rintro (_ | ⟨hraised⟩)
        rw [hplain] at hraised
        cases hraised
        cases hresult
        simp [invalidate, hcount]
  | invalidateUser u rounds =>
    obtain ⟨⟨count, store⟩, -, heq⟩ := Option.map_eq_some_iff.mp hp
    obtain ⟨rfl, rfl⟩ := Prod.mk.inj heq
    cases count with
    | ok count =>
      constructor
      · rintro ⟨hr, hlevel⟩
        cases List.mem_singleton.mp hr
        cases hlevel
      · rintro (_ | _ | ⟨hraised⟩)
        rw [hplain] at hraised
        cases hraised
    | error err =>
      constructor
      · rintro ⟨hr, -⟩
        cases List.mem_singleton.mp hr
        exact .userRaised hplain
      · rintro (_ | _ | ⟨hraised⟩)
        rw [hplain] at hraised
        cases hraised
        exact ⟨List.mem_singleton.mpr rfl, rfl⟩
  | invalidateTenant t rounds =>
    obtain ⟨⟨count, store⟩, -, heq⟩ := Option.map_eq_some_iff.mp hp
    obtain ⟨rfl, rfl⟩ := Prod.mk.inj heq
    cases count with
    | ok count =>
      constructor
      · rintro ⟨hr, hlevel⟩
        cases List.mem_singleton.mp hr
        cases hlevel
      · rintro (_ | _ | _ | ⟨hraised⟩)
        rw [hplain] at hraised
        cases hraised
    | error err =>
      constructor
      · rintro ⟨hr, -⟩
        cases List.mem_singleton.mp hr
        exact .tenantRaised hplain
      · rintro (_ | _ | _ | ⟨hraised⟩)
        rw [hplain] at hraised
        cases hraised
        exact ⟨List.mem_singleton.mpr rfl, rfl⟩

/-- The errors that an event logs are its alarms. -/
theorem logged_error_iff {site site' : Site Raw} {records : List LogRecord}
    (h : logged texts backend site e = some (site', records)) :
    (r ∈ records ∧ r.level = .error) ↔ Alarm texts backend site e r := by
  cases e with
  | read staleOnError u t env =>
    obtain ⟨-, rfl⟩ := Prod.mk.inj (Option.some.inj h)
    rw [resolveAlone_error_iff]
    constructor
    · rintro ⟨rfl, hmiss, message, hunreachable, rfl⟩
      exact .denied hmiss hunreachable
    · rintro ⟨hmiss, hunreachable⟩
      exact ⟨rfl, hmiss, _, hunreachable, rfl⟩
  | publish helios call =>
    obtain ⟨⟨ended, written⟩, hp, heq⟩ := Option.map_eq_some_iff.mp h
    obtain ⟨-, rfl⟩ := Prod.mk.inj heq
    exact perform_error_iff hp
  | drop keys =>
    obtain ⟨-, rfl⟩ := Prod.mk.inj (Option.some.inj h)
    constructor
    · rintro ⟨hr, -⟩
      cases hr
    · intro halarm
      cases halarm

/-- The account of a session: what its log has gained in errors are its alarms. -/
theorem error_gained_iff {es : List (LoggedEvent Raw)}
    (hrun : run (loggedStep backend) s es = some s') (hlevel : r.level = .error) :
    r ∈ s'.log ↔ r ∈ s.log ∨ ∃ before e after m, es = before ++ e :: after ∧
      run (loggedStep backend) s before = some m ∧ Alarm e.texts backend m.site e.event r := by
  induction es generalizing s with
  | nil =>
    cases hrun
    constructor
    · exact Or.inl
    · rintro (hr | ⟨before, e, after, m, hsplit, -⟩)
      · exact hr
      · simp at hsplit
  | cons e rest ih =>
    obtain ⟨m, hm, hrest⟩ := run_cons_iff.mp hrun
    obtain ⟨-, records, hlogged, hlog⟩ := loggedStep_cases hm
    have halarm := logged_error_iff (r := r) hlogged
    rw [ih hrest, hlog, List.mem_append]
    constructor
    · rintro ((hr | hr) | ⟨before, e', after, m', rfl, hbefore, hraises⟩)
      · exact Or.inl hr
      · exact Or.inr ⟨[], e, rest, s, rfl, rfl, halarm.mp ⟨hr, hlevel⟩⟩
      · exact Or.inr ⟨e :: before, e', after, m', rfl, run_cons_iff.mpr ⟨m, hm, hbefore⟩, hraises⟩
    · rintro (hr | ⟨before, e', after, m', hsplit, hbefore, hraises⟩)
      · exact Or.inl (Or.inl hr)
      · cases before with
        | nil =>
          obtain ⟨rfl, -⟩ := List.cons.inj hsplit
          cases hbefore
          exact Or.inl (Or.inr (halarm.mpr hraises).1)
        | cons first before =>
          obtain ⟨rfl, hrest'⟩ := List.cons.inj hsplit
          obtain ⟨m₁, hm₁, hbefore'⟩ := run_cons_iff.mp hbefore
          rw [hm] at hm₁
          cases hm₁
          exact Or.inr ⟨before, e', after, m', hrest', hbefore', hraises⟩

/-- The log of a session has an error exactly for each read that was denied because Helios was
unreachable and for each invalidation that raised, with the ids of its call; and no error else. -/
theorem error_logged_iff {site : Site Raw} {es : List (LoggedEvent Raw)}
    (hrun : run (loggedStep backend) ⟨site, []⟩ es = some s') (r : LogRecord) :
    (r ∈ s'.log ∧ r.level = .error) ↔ ∃ before e after m, es = before ++ e :: after ∧
      run (loggedStep backend) ⟨site, []⟩ before = some m ∧
      Alarm e.texts backend m.site e.event r := by
  constructor
  · rintro ⟨hr, hlevel⟩
    rcases (error_gained_iff hrun hlevel).mp hr with hstart | halarm
    · cases hstart
    · exact halarm
  · rintro ⟨before, e, after, m, hsplit, hbefore, halarm⟩
    have hlevel : r.level = .error := halarm.level
    exact ⟨(error_gained_iff hrun hlevel).mpr
      (Or.inr ⟨before, e, after, m, hsplit, hbefore, halarm⟩), hlevel⟩

end alarms

/-- A connection that is closed, and no text for raw values. -/
def someTexts : Texts ByteArray where
  getError := "Connection closed by server."
  setError := "Connection closed by server."
  deleteError := "Connection closed by server."
  decodeError _ := "Expecting value: line 1 column 1 (char 0)"
  raw _ := ""

/-- Events on such a connection. -/
def withTexts (es : List Event) : List (LoggedEvent ByteArray) := es.map fun e => ⟨e, someTexts⟩

/-- What changes there is announced. -/
theorem someEvents_announced :
    Along (loggedStep (redisBackend JsonText.utf8Json.toCodec 0))
      (fun s e s' => Announced "user-1" "tenant-1" s e.event s')
      ⟨⟨Server.start .empty, heliosWith [.str "helios:members:manage"]⟩, []⟩
      (withTexts someEvents) := by
  have hplain : GlobPattern.GlobFree "user-1" := by
    simp [GlobPattern.GlobFree, GlobPattern.isMetaChar]
  refine (along_cons_iff rfl).mpr ⟨⟨colonFree_someTenant, fun _ _ => trueAnswer_truthful _⟩,
    (along_cons_iff rfl).mpr ⟨⟨?_, ?_, fun _ => ⟨rfl, hplain⟩⟩,
    (along_cons_iff rfl).mpr ⟨trivial,
    (along_cons_iff rfl).mpr ⟨⟨colonFree_someTenant, fun _ _ => trueAnswer_truthful _⟩,
    (along_cons_iff rfl).mpr ⟨⟨?_, ?_, fun _ => ⟨⟨rfl, rfl⟩, trivial⟩⟩, trivial⟩⟩⟩⟩⟩
  · intro u t perms htold
    cases htold
  · intro perms htold
    cases htold
  · rintro u t perms ⟨rfl, rfl, rfl⟩
    exact colonFree_someTenant
  · rintro perms ⟨-, -, rfl⟩
    rfl

/-- A read that is denied while neither the server nor Helios can be reached, an invalidation
that cannot reach the server either, and one that can, each with its own exceptions. -/
def alarmingEvents : List (LoggedEvent ByteArray) :=
  [⟨.read true "user-1" "tenant-1" ⟨.fails false, .raised, .executes⟩, someTexts⟩,
    ⟨.publish (heliosWith []) (.invalidate "user-1" "tenant-1" (.fails false)),
      { someTexts with deleteError := "Timeout reading from socket" }⟩,
    ⟨.publish (heliosWith []) (.invalidate "user-1" "tenant-1" .executes), someTexts⟩]

/-- The first two of them put an error into the log. -/
theorem error_logged_iff_raised : ∃ s : LoggedSite ByteArray,
    run (loggedStep (redisBackend JsonText.utf8Json.toCodec 0))
        ⟨⟨Server.start .empty, heliosWith []⟩, []⟩ alarmingEvents = some s ∧
      s.log.map LogRecord.level = [.warn, .error, .error, .info] ∧
      (∃ r ∈ s.log, r.level = .error ∧ r.msg = denying) ∧
      ⟨.error, [("err", .str "Timeout reading from socket"), ("user_id", .str "user-1"),
        ("tenant_id", .str "tenant-1")], invalidateFailed⟩ ∈ s.log := by
  have hrun : run (loggedStep (redisBackend JsonText.utf8Json.toCodec 0))
      ⟨⟨Server.start .empty, heliosWith []⟩, []⟩ alarmingEvents = some _ := rfl
  have hdenied : Alarm someTexts (redisBackend JsonText.utf8Json.toCodec 0)
      ⟨Server.start .empty, heliosWith []⟩
      (.read true "user-1" "tenant-1" ⟨.fails false, .raised, .executes⟩) _ := .denied rfl rfl
  have hraised : Alarm { someTexts with deleteError := "Timeout reading from socket" }
      (redisBackend JsonText.utf8Json.toCodec 0)
      ⟨⟨(Server.start .empty).store, (Server.start .empty : Server ByteArray).clock + 1⟩,
        heliosWith []⟩
      (.publish (heliosWith []) (.invalidate "user-1" "tenant-1" (.fails false))) _ :=
    .pairRaised rfl
  have hread := (error_logged_iff hrun _).mpr ⟨[], _, _, _, rfl, rfl, hdenied⟩
  exact ⟨_, hrun, rfl, ⟨_, hread.1, hread.2, rfl⟩,
    ((error_logged_iff hrun _).mpr ⟨[_], _, [_], _, rfl, rfl, hraised⟩).1⟩

end HeliosPermissions.LogAccounts
