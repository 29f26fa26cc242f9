import HeliosPermissions.PermissionCaches

/-!
# Revocations that return

Calls on `RedisPermissionCache` one after another, with any pattern of failing
commands. An invalidation that returns has deleted what it covers, because a
failure is raised: a bulk one scans until every key of its pattern that was
there has been on a page. `write_through` returns in either case, so its effect
is only certain when its SET succeeded.
-/

namespace HeliosPermissions.RevocationEffects

open JsonValues CacheKeys GlobPattern CacheStore ClientWorld PartialRuns PermissionCaches
open RedisPermissionCache

variable {Raw : Type}

/-- A call on the cache, with the fates of its commands. -/
inductive CacheCall where
  | get (userId tenantId : String) (fate : CommandFate)
  | set (userId tenantId : String) (perms : List Json) (fate : CommandFate)
  | writeThrough (userId tenantId : String) (perms : List Json) (fate : CommandFate)
  | invalidate (userId tenantId : String) (fate : CommandFate)
  /-- `invalidate` without a tenant. -/
  | invalidateUser (userId : String) (rounds : List ScanRound)
  | invalidateTenant (tenantId : String) (rounds : List ScanRound)

/-- What a call gives its caller. -/
inductive CallResult where
  | got (cached : Except PyError (Option (List Json)))
  | returned
  | raised (err : PyError)

/-- An invalidation returns nothing, or raises. -/
def CallResult.ofCount : Except PyError ℕ → CallResult
  | .ok _ => .returned
  | .error err => .raised err

/-- The server between two calls. -/
structure Server (Raw : Type) where
  /-- The keys. -/
  store : Store Raw
  /-- The clock, which stamps the entries. -/
  clock : ℕ

/-- Run one call to its end, when its rounds lead there. -/
def perform (backend : Backend Raw) (s : Server Raw) :
    CacheCall → Option (CallResult × Store Raw)
  | .get u t fate => some (.got (get backend s.store u t fate), s.store)
  | .set u t perms fate => some (.returned, set backend s.clock s.store u t perms fate)
  | .writeThrough u t perms fate =>
    some (.returned, writeThrough backend s.clock s.store u t perms fate)
  | .invalidate u t fate =>
    let ended := invalidate backend s.store u t fate
    some (.ofCount ended.1, ended.2)
  | .invalidateUser u rounds =>
    (invalidateAll backend s.clock s.store (.user u) rounds).map fun ended =>
      (.ofCount ended.1, ended.2)
  | .invalidateTenant t rounds =>
    (invalidateAll backend s.clock s.store (.tenant t) rounds).map fun ended =>
      (.ofCount ended.1, ended.2)

/-- The server after a call. -/
def callStep (backend : Backend Raw) (s : Server Raw) (call : CacheCall) : Option (Server Raw) :=
  (perform backend s call).map fun ended => ⟨ended.2, s.clock + 1⟩

/-- A server with some content. -/
def Server.start (content : OrderedDict String (Raw × Option ℕ)) : Server Raw :=
  ⟨content.mapValues fun v => ⟨v.1, .initial, 0, 0, v.2⟩, 1⟩

/-- The calls that are meant to revoke what a pair had. -/
def Revokes : CacheCall → String → String → Prop
  | .writeThrough u' t' _ _, u, t => u' = u ∧ t' = t
  | .invalidate u' t' _, u, t => u' = u ∧ t' = t
  | .invalidateUser u' _, u, _ => u' = u
  | .invalidateTenant t' _, _, t => t' = t
  | _, _, _ => False

/-- The id that a bulk invalidation puts into its pattern has no pattern characters. -/
def PlainId : CacheCall → Prop
  | .invalidateUser u _ => GlobFree u
  | .invalidateTenant t _ => GlobFree t
  | _ => True

/-- The SET of a write-through does not fail without effect. -/
def SetExecuted : CacheCall → Prop
  | .writeThrough _ _ _ fate => fate ≠ .fails false
  | _ => True

/-- After a call, whatever calls follow, a `get` of the pair returns no list that
was stored before the call. -/
def TakesEffect (backend : Backend Raw) (s : Server Raw) (call : CacheCall) (u t : String) :
    Prop :=
  ∀ s₁ after s₂ fate perms, callStep backend s call = some s₁ →
    run (callStep backend) s₁ after = some s₂ →
    get backend s₂.store u t fate = .ok (some perms) →
    ∃ entry, s₂.store.get? (backend.key u t) = some entry ∧
      backend.loads entry.raw = .ok (.arr perms) ∧ s.clock ≤ entry.written

/-- What stands under a key was written at this time or later. -/
def WrittenSince (time : ℕ) (k : String) (store : Store Raw) : Prop :=
  ∀ entry, store.get? k = some entry → time ≤ entry.written

/-- No key is said to exist since a time to come. -/
def Past (now : ℕ) (store : Store Raw) : Prop :=
  ∀ k entry, store.get? k = some entry → entry.since ≤ now

section commands

variable {backend : Backend Raw} {now : ℕ} {store store' : Store Raw}

/-- A command writes after the time too. -/
theorem WrittenSince.send {time : ℕ} {k : String} (h : WrittenSince time k store)
    (hle : time ≤ now) (origin : Origin) (cmd : Command Raw) (fate : CommandFate) :
    WrittenSince time k (send now origin store cmd fate).2 := by
  intro entry he
  rcases send_get? now origin store cmd fate k with
    hkeep | ⟨raw, ex, nx, -, hnew⟩ | ⟨ks, -, -, hnone⟩
  · rw [hkeep] at he
    exact h entry he
  · rw [hnew] at he
    cases he
    exact hle
  · rw [hnone] at he
    cases he

/-- A write-through whose SET is executed has just been written. -/
theorem writeThrough_writtenSince {u t : String} {perms : List Json} {fate : CommandFate}
    (hset : fate ≠ .fails false) :
    WrittenSince now (backend.key u t) (writeThrough backend now store u t perms fate) := by
  have hexec : writeThrough backend now store u t perms fate =
      (execute now (.writeThrough now) store
        (.set (backend.key u t) (backend.dumps perms) backend.ex false)).2 := by
    cases fate with
    | executes => rfl
    | fails applied =>
      cases applied with
      | false => exact absurd rfl hset
      | true => rfl
  intro entry he
  obtain ⟨since, hnew⟩ := execute_overwrite now (.writeThrough now) store (backend.key u t)
    (backend.dumps perms) backend.ex
  rw [hexec, hnew] at he
  cases he
  exact Nat.le_refl _

/-- A command creates its keys by now. -/
theorem Past.send (h : Past now store) (origin : Origin) (cmd : Command Raw)
    (fate : CommandFate) : Past now (send now origin store cmd fate).2 := by
  intro k entry he
  rcases send_get? now origin store cmd fate k with
    hkeep | ⟨raw, ex, nx, -, hnew⟩ | ⟨ks, -, -, hnone⟩
  · rw [hkeep] at he
    exact h k entry he
  · rw [hnew] at he
    cases he
    cases hs : store.get? k with
    | none => exact Nat.le_refl _
    | some old => exact h k old hs
  · rw [hnone] at he
    cases he

/-- What a server starts with has always been there. -/
theorem start_past (content : OrderedDict String (Raw × Option ℕ)) :
    Past (Server.start content).clock (Server.start content).store := by
  intro k entry he
  simp only [Server.start, OrderedDict.get?_mapValues] at he
  obtain ⟨v, -, rfl⟩ := Option.map_eq_some_iff.mp he
  exact Nat.zero_le _

/-- A bulk invalidation only takes entries away, however it ends. -/
theorem scanAndDelete_get? {scope : Scope} {rounds : List ScanRound} {progress : ScanProgress}
    {total : ℕ} {result : Except PyError ℕ}
    (h : scanAndDelete backend now scope rounds progress total store = some (result, store'))
    (k : String) : store'.get? k = store.get? k ∨ store'.get? k = none := by
  induction rounds generalizing progress total store with
  | nil => cases h
  | cons round rest ih =>
    rcases scanAndDelete_cons backend h with ⟨-, hless⟩ |
      ⟨cursor, keys, total', store₁, -, hget, ⟨-, -, rfl⟩ | ⟨-, hrest⟩⟩
    · exact hless k
    · rw [hget]
      split_ifs
      · exact Or.inr rfl
      · exact Or.inl rfl
    · have hpage := hget k
      rcases ih hrest with hsame | hnone
      · rw [hsame, hpage]
        split_ifs
        · exact Or.inr rfl
        · exact Or.inl rfl
      · exact Or.inr hnone

/-- A bulk invalidation that returns has left every key that its scope does not select. -/
theorem scanAndDelete_frame {scope : Scope} {rounds : List ScanRound}
    {progress : ScanProgress} {total count : ℕ}
    (h : scanAndDelete backend now scope rounds progress total store = some (.ok count, store'))
    {k : String} (hk : ¬backend.selects scope k = true) : store'.get? k = store.get? k := by
  induction rounds generalizing progress total store with
  | nil => cases h
  | cons round rest ih =>
    rcases scanAndDelete_cons backend h with ⟨herr, -⟩ |
      ⟨cursor, keys, total', store₁, hallowed, hget, hnext⟩
    · cases herr
    · have hpage : store₁.get? k = store.get? k := by
        rw [hget, if_neg fun hin => hk (hallowed.1 k hin)]
      rcases hnext with ⟨-, -, rfl⟩ | ⟨-, hrest⟩
      · exact hpage
      · exact (ih hrest).trans hpage

/-- A bulk invalidation that returns has deleted every key that its scope selects. -/
theorem scanAndDelete_clears {scope : Scope} {rounds : List ScanRound}
    {progress : ScanProgress} {total count : ℕ}
    (h : scanAndDelete backend now scope rounds progress total store = some (.ok count, store'))
    (hpast : Past (progress.started.getD now) store)
    (hseen : ∀ k ∈ progress.seen, store.get? k = none) {k : String}
    (hk : backend.selects scope k = true) : store'.get? k = none := by
  induction rounds generalizing progress total store with
  | nil => cases h
  | cons round rest ih =>
    rcases scanAndDelete_cons backend h with ⟨herr, -⟩ |
      ⟨cursor, keys, total', store₁, hallowed, hget, hnext⟩
    · cases herr
    · -- what has been on a page is gone after this round
      have hgone : ∀ k' ∈ progress.seen ++ keys, store₁.get? k' = none := by
        intro k' hk'
        rw [hget]
        split_ifs with hin
        · rfl
        · exact hseen k' ((List.mem_append.mp hk').resolve_right hin)
      rcases hnext with ⟨hcursor, -, rfl⟩ | ⟨-, hrest⟩
      · cases hs : store.get? k with
        | none =>
          rw [hget, hs]
          split_ifs <;> rfl
        | some entry =>
          exact hgone k (hallowed.2 hcursor (k, entry) (OrderedDict.mem_entries.mpr hs) hk
            (hpast k entry hs))
      · refine ih hrest ?_ hgone
        intro k' entry he
        rw [hget] at he
        split_ifs at he
        exact hpast k' entry he

end commands

section calls

variable {backend : Backend Raw} {s s' : Server Raw} {call : CacheCall}

/-- A step performs its call and advances the clock. -/
theorem callStep_eq (h : callStep backend s call = some s') :
    ∃ result, perform backend s call = some (result, s'.store) ∧ s'.clock = s.clock + 1 := by
  obtain ⟨⟨result, store'⟩, hp, rfl⟩ := Option.map_eq_some_iff.mp h
  exact ⟨result, hp, rfl⟩

/-- A property of the store that every command keeps, and that only taking entries
away keeps, is kept by every call. -/
theorem perform_keeps {P : Store Raw → Prop}
    (hsend : ∀ store origin cmd fate, P store → P (send s.clock origin store cmd fate).2)
    (hless : ∀ store store' : Store Raw, P store →
      (∀ k, store'.get? k = store.get? k ∨ store'.get? k = none) → P store')
    {result : CallResult} {store' : Store Raw}
    (h : perform backend s call = some (result, store')) (hP : P s.store) : P store' := by
  have hall : ∀ scope rounds, (invalidateAll backend s.clock s.store scope rounds).map
      (fun ended => (CallResult.ofCount ended.1, ended.2)) = some (result, store') → P store' := by
    intro scope rounds hmap
    obtain ⟨⟨count, ended⟩, hscan, heq⟩ := Option.map_eq_some_iff.mp hmap
    cases heq
    exact hless _ _ hP (scanAndDelete_get? hscan)
  cases call with
  | get u t fate =>
    cases h
    exact hP
  | set u t perms fate =>
    cases h
    exact hsend _ _ _ _ hP
  | writeThrough u t perms fate =>
    cases h
    exact hsend _ _ _ _ hP
  | invalidate u t fate =>
    cases h
    refine hless _ _ hP ?_
    intro k
    rw [invalidate_store]
    exact send_delete_get? _ _ _ _ k
  | invalidateUser u rounds => exact hall _ _ h
  | invalidateTenant t rounds => exact hall _ _ h

/-- What is there now came into being before any later time. -/
theorem Past.later {now now' : ℕ} {store : Store Raw} (h : Past now store) (hle : now ≤ now') :
    Past now' store :=
  fun k entry he => Nat.le_trans (h k entry he) hle

/-- A call creates its keys by the next clock. -/
theorem past_step (h : Past s.clock s.store) (hs : callStep backend s call = some s') :
    Past s'.clock s'.store := by
  obtain ⟨result, hp, hclock⟩ := callStep_eq hs
  have hkept : Past s.clock s'.store := by
    refine perform_keeps (P := Past s.clock) (fun _ origin cmd fate h => h.send origin cmd fate)
      ?_ hp h
    intro store store' h hless k entry he
    rcases hless k with hsame | hnone
    · rw [hsame] at he
      exact h k entry he
    · rw [hnone] at he
      cases he
  rw [hclock]
  exact hkept.later (Nat.le_succ _)

/-- A call keeps the writes after the time. -/
theorem writtenSince_step {time : ℕ} {k : String}
    (h : time ≤ s.clock ∧ WrittenSince time k s.store) (hs : callStep backend s call = some s') :
    time ≤ s'.clock ∧ WrittenSince time k s'.store := by
  obtain ⟨result, hp, hclock⟩ := callStep_eq hs
  refine ⟨by omega, ?_⟩
  refine perform_keeps (P := WrittenSince time k)
    (fun _ origin cmd fate hw => hw.send h.1 origin cmd fate) ?_ hp h.2
  intro store store' hw hless entry he
  rcases hless k with hsame | hnone
  · rw [hsame] at he
    exact hw entry he
  · rw [hnone] at he
    cases he

end calls

section revocations

variable {codec : JsonCodec Raw} {s : Server Raw} {call : CacheCall} {u t : String}

/-- Right after a revocation that returned, nothing older stands under the key. -/
theorem revocation_clears {store' : Store Raw}
    (hreturned : perform (redisBackend codec 0) s call = some (.returned, store'))
    (hpast : Past s.clock s.store) (hrevokes : Revokes call u t) (hplain : PlainId call)
    (hset : SetExecuted call) : WrittenSince s.clock (redisKey u t) store' := by
  have hnone : store'.get? (redisKey u t) = none → WrittenSince s.clock (redisKey u t) store' := by
    intro hnone entry he
    rw [hnone] at he
    cases he
  have hall : ∀ scope rounds, (redisBackend codec 0).selects scope (redisKey u t) = true →
      (invalidateAll (redisBackend codec 0) s.clock s.store scope rounds).map
        (fun ended => (CallResult.ofCount ended.1, ended.2)) = some (.returned, store') →
      store'.get? (redisKey u t) = none := by
    intro scope rounds hsel hmap
    obtain ⟨⟨count, ended⟩, hscan, heq⟩ := Option.map_eq_some_iff.mp hmap
    cases count with
    | error err => cases heq
    | ok count =>
      cases heq
      exact scanAndDelete_clears hscan hpast (by simp) hsel
  cases call with
  | get u' t' fate => cases hrevokes
  | set u' t' perms fate => cases hrevokes
  | writeThrough u' t' perms fate =>
    obtain ⟨rfl, rfl⟩ := hrevokes
    cases hreturned
    exact writeThrough_writtenSince hset
  | invalidate u' t' fate =>
    obtain ⟨rfl, rfl⟩ := hrevokes
    obtain ⟨hcount, hstore⟩ := Prod.mk.inj (Option.some.inj hreturned)
    refine hnone ?_
    cases hres : (invalidate (redisBackend codec 0) s.store u' t' fate).1 with
    | error err =>
      rw [hres] at hcount
      cases hcount
    | ok count =>
      have hpop : (invalidate (redisBackend codec 0) s.store u' t' fate).2 =
          s.store.popAll [redisKey u' t'] := invalidate_ok _ hres
      rw [← hstore, hpop]
      simp
  | invalidateUser u' rounds =>
    obtain rfl : u' = u := hrevokes
    exact hnone (hall (.user u') rounds (userPattern_redisKey hplain t) hreturned)
  | invalidateTenant t' rounds =>
    obtain rfl : t' = t := hrevokes
    exact hnone (hall (.tenant t') rounds (tenantPattern_redisKey hplain u) hreturned)

/-- A list that `get` returns is what stands under the key. -/
theorem get_returns_entry {backend : Backend Raw} {store : Store Raw} {fate : CommandFate}
    {perms : List Json} (h : get backend store u t fate = .ok (some perms)) :
    ∃ entry, store.get? (backend.key u t) = some entry ∧
      backend.loads entry.raw = .ok (.arr perms) := by
  obtain ⟨raw, hreply, hloads⟩ := decodeGet_some h
  cases fate with
  | executes =>
    obtain ⟨entry, he, rfl⟩ := Option.map_eq_some_iff.mp (Reply.value.inj hreply)
    exact ⟨entry, he, hloads⟩
  | fails applied => cases hreply

/-- A revocation that returns normally takes effect, after any calls with any
failing commands: an invalidation always, and a write-through whose SET
was executed. -/
theorem revocation_takes_effect {content : OrderedDict String (Raw × Option ℕ)}
    {before : List CacheCall} {store' : Store Raw}
    (hrun : run (callStep (redisBackend codec 0)) (.start content) before = some s)
    (hreturned : perform (redisBackend codec 0) s call = some (.returned, store'))
    (hrevokes : Revokes call u t) (hplain : PlainId call) (hset : SetExecuted call) :
    TakesEffect (redisBackend codec 0) s call u t := by
  have hpast : Past s.clock s.store := run_preserves (fun s : Server Raw => Past s.clock s.store)
    (fun _ _ _ h hs => past_step h hs) hrun (start_past content)
  intro s₁ after s₂ fate perms hstep hafter hget
  obtain ⟨result, hp, hclock⟩ := callStep_eq hstep
  rw [hreturned] at hp
  have hcleared := revocation_clears hreturned hpast hrevokes hplain hset
  rw [(Prod.mk.inj (Option.some.inj hp)).2] at hcleared
  have hlater := run_preserves
    (fun s₂ : Server Raw => s.clock ≤ s₂.clock ∧ WrittenSince s.clock (redisKey u t) s₂.store)
    (fun _ _ _ h hs => writtenSince_step h hs) hafter ⟨by omega, hcleared⟩
  obtain ⟨entry, he, hloads⟩ := get_returns_entry hget
  exact ⟨entry, he, hloads, hlater.2 entry he⟩

end revocations

/-- One permission, cached for one pair. -/
def grantedServer : Server (List Json) :=
  .start (OrderedDict.empty.set (redisKey "user-1" "tenant-1")
    ([.str "helios:members:view"], none))

/-- A bulk invalidation that needs two pages. -/
theorem revocation_takes_effect_twoPages :
    TakesEffect (redisBackend plainCodec 0) grantedServer
      (.invalidateUser "user-1"
        [⟨some (7, []), .executes⟩, ⟨some (0, [redisKey "user-1" "tenant-1"]), .executes⟩])
      "user-1" "tenant-1" :=
  have hrun : run (callStep (redisBackend plainCodec 0)) grantedServer [] = some grantedServer :=
    rfl
  revocation_takes_effect hrun rfl rfl (by simp [PlainId, GlobFree, isMetaChar]) trivial

/-- A write-through that Redis fails to execute returns all the same, and the old
list is still served. -/
theorem lost_write_through_returns :
    perform (redisBackend plainCodec 0) grantedServer
        (.writeThrough "user-1" "tenant-1" [] (.fails false)) =
      some (.returned, grantedServer.store) ∧
    ¬TakesEffect (redisBackend plainCodec 0) grantedServer
      (.writeThrough "user-1" "tenant-1" [] (.fails false)) "user-1" "tenant-1" := by
  refine ⟨rfl, ?_⟩
  intro heffect
  obtain ⟨entry, he, -, hwritten⟩ := heffect _ [] _ .executes _ rfl rfl rfl
  obtain rfl := Option.some.inj he
  exact absurd hwritten (by decide)

end HeliosPermissions.RevocationEffects
