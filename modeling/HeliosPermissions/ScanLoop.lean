import HeliosPermissions.RevocationEffects
import HeliosPermissions.StaleEntries

/-!
# The scan-and-delete loop among other clients

One bulk invalidation, suspended at its SCANs and DELs, and a store that other
clients write and delete in between. The keys that it has removed, and the store
that the other clients alone would have made, are kept beside it. Two accounts
carry the results: how far the count has come at each await, and what the loop
still has to do about a key that stands.
-/

namespace HeliosPermissions.ScanLoop

open JsonValues CacheStore ClientWorld PartialRuns CallHistory CallShapes StaleEntries
open RevocationEffects (Server Past start_past)

variable {Raw : Type}

/-- A bulk invalidation and the store that it works on. -/
structure Loop (Raw : Type) where
  /-- The store as it is. -/
  store : Store Raw
  /-- The call of `_scan_and_delete`. -/
  call : MutationCall Raw
  /-- The number of steps so far. -/
  clock : ℕ
  /-- The keys that its DELs have removed. -/
  removed : List String
  /-- A command that it sent has failed. -/
  failed : Bool
  /-- The store as the other clients alone would have made it. -/
  without : Store Raw

/-- What happens next. -/
inductive Move (Raw : Type) where
  /-- The server deals with the command that the loop has sent. -/
  | serve (fate : Fate)
  /-- The loop runs up to its next await. -/
  | resume
  /-- A command of another client is executed. -/
  | other (origin : Origin) (cmd : Command Raw)

/-- The keys that one store has and another has not. -/
def dropped (store store' : Store Raw) : List String :=
  store.keys.filter fun k => (store'.get? k).isNone

/-- Whether the client raised in place of a reply. -/
def isFailed : Reply Raw → Bool
  | .failed => true
  | _ => false

/-- One move. The call has its number `j` in the log of origins. -/
def Loop.step (cfg : Config Raw) (j : MutationId) (l : Loop Raw) :
    Move Raw → Option (Loop Raw)
  | .serve fate =>
    match l.call.port with
    | .replied _ => none
    | .sent cmd => do
      let (reply, store) ← serve cfg.backend l.clock (.writeThrough j) l.call.progress l.store
        cmd fate
      some { l with
        store := store
        call := l.call.answered l.clock reply
        clock := l.clock + 1
        removed := l.removed ++ dropped l.store store
        failed := l.failed || isFailed reply }
  | .resume =>
    match l.call.port with
    | .sent _ => none
    | .replied reply => (l.call.advance l.clock reply).map fun call =>
      { l with call := call, clock := l.clock + 1 }
  | .other origin cmd => some { l with
      store := (execute l.clock origin l.store cmd).2
      clock := l.clock + 1
      without := (execute l.clock origin l.without cmd).2 }

/-- The call is made. -/
def Loop.start (cfg : Config Raw) (store : Store Raw) (now : ℕ) (request : MutationRequest) :
    Loop Raw where
  store := store
  call := .start cfg now request
  clock := now
  removed := []
  failed := false
  without := store

/-- Another client writes the key: its SET is not stopped by NX. -/
def Writes (k : String) (l : Loop Raw) (move : Move Raw) : Prop :=
  ∃ origin raw ex nx, move = .other origin (.set k raw ex nx) ∧
    (nx = true → l.store.get? k = none)

/-- Where the loop is suspended, and how its count stands there. -/
inductive Phase (cfg : Config Raw) (scope : Scope) (l : Loop Raw) : Prop
  /-- A SCAN is on its way. -/
  | scanning {total cursor : ℕ} (hpc : l.call.pc = .scanning scope total)
      (hport : l.call.port = .sent (.scan cursor scope)) (hfailed : l.failed = false)
      (hcount : l.removed.length = total)
  /-- A page has come back. -/
  | page {total cursor : ℕ} {keys : List String} (hpc : l.call.pc = .scanning scope total)
      (hport : l.call.port = .replied (.page cursor keys)) (hfailed : l.failed = false)
      (hcount : l.removed.length = total)
      (hkeys : ∀ k ∈ keys, cfg.backend.selects scope k = true)
  /-- The DEL of a page is on its way. -/
  | deleting {total cursor : ℕ} {keys : List String}
      (hpc : l.call.pc = .deletingPage scope total cursor)
      (hport : l.call.port = .sent (.delete keys)) (hfailed : l.failed = false)
      (hcount : l.removed.length = total)
      (hkeys : ∀ k ∈ keys, cfg.backend.selects scope k = true)
  /-- The DEL has come back with a count that is not yet added. -/
  | deleted {total cursor count : ℕ} (hpc : l.call.pc = .deletingPage scope total cursor)
      (hport : l.call.port = .replied (.deleted count)) (hfailed : l.failed = false)
      (hcount : l.removed.length = total + count)
  /-- A command has failed, and the loop has not run since. -/
  | raising
      (hpc : (∃ total, l.call.pc = .scanning scope total) ∨
        ∃ total cursor, l.call.pc = .deletingPage scope total cursor)
      (hport : l.call.port = .replied .failed) (hfailed : l.failed = true)
  | returned {total : ℕ} {reply : Reply Raw} (hpc : l.call.pc = .done (.ok total))
      (hport : l.call.port = .replied reply) (hfailed : l.failed = false)
      (hcount : l.removed.length = total)
  | raised {reply : Reply Raw} (hpc : l.call.pc = .done (.error .redisError))
      (hport : l.call.port = .replied reply) (hfailed : l.failed = true)

/-- The account of the loop, and its footprint in the store. -/
structure Accounted (cfg : Config Raw) (scope : Scope) (l : Loop Raw) : Prop where
  /-- Where the loop is, with its count. -/
  phase : Phase cfg scope l
  /-- Its DELs have removed selected keys only. -/
  removed : ∀ k ∈ l.removed, cfg.backend.selects scope k = true
  /-- The other keys are as the other clients made them. -/
  others : ∀ k, cfg.backend.selects scope k = false → l.store.get? k = l.without.get? k

section commands

variable {store store' : Store Raw}

/-- Nothing is dropped where nothing changes. -/
@[simp] theorem dropped_self : dropped store store = [] := by
  rw [dropped, List.filter_eq_nil_iff]
  intro k hk hnone
  rw [OrderedDict.mem_keys] at hk
  rw [Option.isNone_iff_eq_none] at hnone
  rw [hnone] at hk
  cases hk

/-- A DEL drops the keys of the store that it names. -/
theorem dropped_popAll (ks : List String) :
    dropped store (store.popAll ks) = store.keys.filter (· ∈ ks) := by
  unfold dropped
  refine List.filter_congr fun k hk => ?_
  rw [OrderedDict.mem_keys] at hk
  rw [OrderedDict.get?_popAll]
  by_cases hmem : k ∈ ks
  · simp [hmem]
  · rw [if_neg hmem]
    cases hs : store.get? k with
    | none =>
      rw [hs] at hk
      cases hk
    | some entry => simp [hmem]

/-- How another command changes a key depends on what stands there. -/
theorem execute_get?_congr {k : String} (h : store.get? k = store'.get? k) (now : ℕ)
    (origin : Origin) (cmd : Command Raw) :
    (execute now origin store cmd).2.get? k = (execute now origin store' cmd).2.get? k := by
  cases cmd with
  | get k' => exact h
  | scan cursor scope => exact h
  | delete ks =>
    simp only [execute, OrderedDict.get?_popAll, h]
  | set k' raw ex nx =>
    by_cases hk : k = k'
    · subst hk
      cases hs : store'.get? k with
      | none =>
        rw [hs] at h
        simp [execute, hs, h]
      | some old =>
        rw [hs] at h
        cases nx with
        | true => simp [execute, hs, h]
        | false => simp [execute, hs, h]
    · have hkeep : ∀ s : Store Raw,
          (execute now origin s (.set k' raw ex nx)).2.get? k = s.get? k := by
        intro s
        rcases execute_get? now origin s (.set k' raw ex nx) k with
          hsame | ⟨_, _, _, hcmd, -⟩ | ⟨ks, hcmd, -⟩
        · exact hsame
        · cases hcmd
          exact absurd rfl hk
        · cases hcmd
      rw [hkeep, hkeep, h]

/-- The count in a reply to a DEL is the number of keys that it dropped. -/
theorem dropped_length {backend : Backend Raw} {now count : ℕ} {origin : Origin}
    {progress : ScanProgress} {ks : List String} {fate : Fate}
    (h : serve backend now origin progress store (.delete ks) fate =
      some (.deleted count, store')) : (dropped store store').length = count := by
  cases fate with
  | executes =>
    cases h
    rw [dropped_popAll]
  | returns cursor keys => cases h
  | fails applied => cases h

/-- A DEL that is served drops keys that it names. -/
theorem mem_dropped {backend : Backend Raw} {now : ℕ} {origin : Origin}
    {progress : ScanProgress} {ks : List String} {fate : Fate} {reply : Reply Raw} {k : String}
    (h : serve backend now origin progress store (.delete ks) fate = some (reply, store'))
    (hk : k ∈ dropped store store') : k ∈ ks := by
  have hgone : store' = store.popAll ks → k ∈ ks := by
    rintro rfl
    rw [dropped_popAll] at hk
    simpa using (List.mem_filter.mp hk).2
  rcases serve_delete h with ⟨-, hsame | hpop⟩ | ⟨count, -, hpop⟩
  · rw [hsame, dropped_self] at hk
    cases hk
  · exact hgone hpop
  · exact hgone hpop

/-- A DEL that is served leaves the keys that it does not name. -/
theorem serve_delete_frame {backend : Backend Raw} {now : ℕ} {origin : Origin}
    {progress : ScanProgress} {ks : List String} {fate : Fate} {reply : Reply Raw} {k : String}
    (h : serve backend now origin progress store (.delete ks) fate = some (reply, store'))
    (hk : k ∉ ks) : store'.get? k = store.get? k := by
  rcases serve_delete h with ⟨-, rfl | rfl⟩ | ⟨count, -, rfl⟩
  · rfl
  · simp [hk]
  · simp [hk]

end commands

section moves

variable {cfg : Config Raw} {j : MutationId} {l l' : Loop Raw}

/-- Serving the loop serves the command that it sent. -/
theorem Loop.step_serve {fate : Fate} (h : l.step cfg j (.serve fate) = some l') :
    ∃ cmd reply store, l.call.port = .sent cmd ∧
      serve cfg.backend l.clock (.writeThrough j) l.call.progress l.store cmd fate =
        some (reply, store) ∧
      l' = { l with
        store := store
        call := l.call.answered l.clock reply
        clock := l.clock + 1
        removed := l.removed ++ dropped l.store store
        failed := l.failed || isFailed reply } := by
  rw [Loop.step] at h
  cases hport : l.call.port with
  | replied reply =>
    rw [hport] at h
    cases h
  | sent cmd =>
    rw [hport] at h
    obtain ⟨⟨reply, store⟩, hs, heq⟩ := Option.bind_eq_some_iff.mp h
    cases heq
    exact ⟨cmd, reply, store, rfl, hs, rfl⟩

/-- The loop goes on with the reply that it got. -/
theorem Loop.step_resume (h : l.step cfg j .resume = some l') :
    ∃ reply call, l.call.port = .replied reply ∧ l.call.advance l.clock reply = some call ∧
      l' = { l with call := call, clock := l.clock + 1 } := by
  rw [Loop.step] at h
  cases hport : l.call.port with
  | sent cmd =>
    rw [hport] at h
    cases h
  | replied reply =>
    rw [hport] at h
    obtain ⟨call, ha, rfl⟩ := Option.map_eq_some_iff.mp h
    exact ⟨reply, call, rfl, ha, rfl⟩

variable {scope : Scope}

/-- The server answers a SCAN or a DEL of the loop. -/
theorem Accounted.serve {fate : Fate} (h : Accounted cfg scope l)
    (hs : l.step cfg j (.serve fate) = some l') : Accounted cfg scope l' := by
  obtain ⟨cmd, reply, store, hport, hserve, rfl⟩ := Loop.step_serve hs
  cases h.phase with
  | scanning hpc hscan hfailed hcount =>
    rw [hscan] at hport
    cases hport
    obtain ⟨rfl, hreply⟩ := serve_scan hserve
    refine ⟨?_, by simpa using h.removed, h.others⟩
    rcases hreply with rfl | ⟨cursor, keys, rfl, hallowed⟩
    · exact .raising (Or.inl ⟨_, hpc⟩) rfl (by simp [isFailed])
    · exact .page hpc rfl (by simp [isFailed, hfailed]) (by simpa using hcount) hallowed.1
  | deleting hpc hdel hfailed hcount hkeys =>
    rw [hdel] at hport
    cases hport
    refine ⟨?_, ?_, ?_⟩
    · rcases serve_delete hserve with ⟨rfl, -⟩ | ⟨count, rfl, -⟩
      · exact .raising (Or.inr ⟨_, _, hpc⟩) rfl (by simp [isFailed])
      · refine .deleted hpc rfl (by simp [isFailed, hfailed]) ?_
        rw [List.length_append, hcount, dropped_length hserve]
    · intro k hk
      rcases List.mem_append.mp hk with hold | hnew
      · exact h.removed k hold
      · exact hkeys k (mem_dropped hserve hnew)
    · intro k hk
      have hnot : k ∉ _ := fun hmem => Bool.noConfusion (hk.symm.trans (hkeys k hmem))
      exact (serve_delete_frame hserve hnot).trans (h.others k hk)
  | page hpc hrep => rw [hport] at hrep; cases hrep
  | deleted hpc hrep => rw [hport] at hrep; cases hrep
  | raising hpc hrep => rw [hport] at hrep; cases hrep
  | returned hpc hrep => rw [hport] at hrep; cases hrep
  | raised hpc hrep => rw [hport] at hrep; cases hrep

/-- The loop goes on, returns or raises. -/
theorem Accounted.resume (h : Accounted cfg scope l)
    (hs : l.step cfg j .resume = some l') : Accounted cfg scope l' := by
  obtain ⟨reply, call, hport, ha, rfl⟩ := Loop.step_resume hs
  refine ⟨?_, h.removed, h.others⟩
  cases h.phase with
  | page hpc hrep hfailed hcount hkeys =>
    rw [hrep] at hport
    cases hport
    rcases advance_scan hpc ha with ⟨hf, -⟩ | ⟨cursor, keys, hpage, hnext⟩
    · cases hf
    · cases hpage
      rcases hnext with ⟨-, -, rfl⟩ | ⟨-, -, rfl⟩ | ⟨-, rfl⟩
      · exact .returned rfl hrep hfailed hcount
      · exact .scanning rfl rfl hfailed hcount
      · exact .deleting rfl rfl hfailed hcount hkeys
  | deleted hpc hrep hfailed hcount =>
    rw [hrep] at hport
    cases hport
    rcases advance_deletingPage hpc ha with ⟨hf, -⟩ | ⟨count, hdel, hnext⟩
    · cases hf
    · cases hdel
      rcases hnext with ⟨-, rfl⟩ | ⟨-, rfl⟩
      · exact .returned rfl hrep hfailed hcount
      · exact .scanning rfl rfl hfailed hcount
  | raising hpc hrep hfailed =>
    rw [hrep] at hport
    cases hport
    rcases hpc with ⟨total, hpc⟩ | ⟨total, cursor, hpc⟩
    · rcases advance_scan hpc ha with ⟨-, rfl⟩ | ⟨cursor, keys, hpage, -⟩
      · exact .raised rfl hrep hfailed
      · cases hpage
    · rcases advance_deletingPage hpc ha with ⟨-, rfl⟩ | ⟨count, hdel, -⟩
      · exact .raised rfl hrep hfailed
      · cases hdel
  | scanning hpc hsent => rw [hport] at hsent; cases hsent
  | deleting hpc hsent => rw [hport] at hsent; cases hsent
  | returned hpc => simp [MutationCall.advance, hpc] at ha
  | raised hpc => simp [MutationCall.advance, hpc] at ha

/-- A command of another client leaves the loop where it is. -/
theorem Accounted.other {origin : Origin} {cmd : Command Raw} (h : Accounted cfg scope l)
    (hs : l.step cfg j (.other origin cmd) = some l') : Accounted cfg scope l' := by
  cases hs
  refine ⟨?_, h.removed, fun k hk => execute_get?_congr (h.others k hk) _ _ _⟩
  cases h.phase with
  | scanning hpc hport hfailed hcount => exact .scanning hpc hport hfailed hcount
  | page hpc hport hfailed hcount hkeys => exact .page hpc hport hfailed hcount hkeys
  | deleting hpc hport hfailed hcount hkeys => exact .deleting hpc hport hfailed hcount hkeys
  | deleted hpc hport hfailed hcount => exact .deleted hpc hport hfailed hcount
  | raising hpc hport hfailed => exact .raising hpc hport hfailed
  | returned hpc hport hfailed hcount => exact .returned hpc hport hfailed hcount
  | raised hpc hport hfailed => exact .raised hpc hport hfailed

/-- The account is kept by every move. -/
theorem accounted_step {move : Move Raw} (h : Accounted cfg scope l)
    (hs : l.step cfg j move = some l') : Accounted cfg scope l' := by
  cases move with
  | serve fate => exact h.serve hs
  | resume => exact h.resume hs
  | other origin cmd => exact h.other hs

/-- At the start nothing has been removed. -/
theorem accounted_start {store : Store Raw} {now : ℕ} {request : MutationRequest}
    (hscope : requestScope request = some scope) :
    Accounted cfg scope (.start cfg store now request) := by
  refine ⟨?_, by simp [Loop.start], fun k _ => rfl⟩
  cases request with
  | writeThrough u t perms => cases hscope
  | invalidate u t? =>
    cases t? with
    | some t => cases hscope
    | none =>
      cases hscope
      exact .scanning rfl rfl rfl rfl
  | invalidateTenant t =>
    cases hscope
    exact .scanning rfl rfl rfl rfl

end moves

/-- What the loop still has to do about a key: as long as an entry stands there that
came into being before the call, the key is on a page to come. -/
def StillOwed (k : String) (l : Loop Raw) : Prop :=
  ∀ entry, l.store.get? k = some entry → entry.since ≤ l.clock ∧ StillClears l.call k entry.since

section completeness

variable {cfg : Config Raw} {j : MutationId} {l l' : Loop Raw} {scope : Scope} {k : String}

/-- A command of the loop is served and the entry still stands. -/
theorem StillOwed.serve {fate : Fate} (h : StillOwed k l) (hacc : Accounted cfg scope l)
    (hsel : cfg.backend.selects scope k = true) (hs : l.step cfg j (.serve fate) = some l') :
    StillOwed k l' := by
  obtain ⟨cmd, reply, store, hport, hserve, rfl⟩ := Loop.step_serve hs
  intro entry he
  change store.get? k = some entry at he
  have hfailed : (∀ o, l.call.pc ≠ .done o) →
      StillClears (l.call.answered l.clock .failed) k entry.since := fun hpc => .failed hpc rfl
  cases hacc.phase with
  | scanning hpc hscan =>
    rw [hscan] at hport
    cases hport
    obtain ⟨rfl, hreply⟩ := serve_scan hserve
    obtain ⟨hpast, hclears⟩ := h entry he
    refine ⟨Nat.le_succ_of_le hpast, ?_⟩
    rcases hreply with rfl | ⟨cursor, keys, rfl, hallowed⟩
    · exact hfailed fun o ho => by rw [hpc] at ho; cases ho
    · obtain ⟨hle, hseen⟩ := hclears.at_scan hpc hscan hpast
      exact .page_served hpc hsel he hle hseen hallowed
  | deleting hpc hdel =>
    rw [hdel] at hport
    cases hport
    have hstood : l.store.get? k = some entry := by
      rcases serve_delete hserve with ⟨-, hsame | hpop⟩ | ⟨count, -, hpop⟩
      · rwa [hsame] at he
      all_goals
        rw [hpop, OrderedDict.get?_popAll] at he
        split_ifs at he
        exact he
    obtain ⟨hpast, hclears⟩ := h entry hstood
    refine ⟨Nat.le_succ_of_le hpast, ?_⟩
    rcases serve_delete hserve with ⟨rfl, -⟩ | ⟨count, rfl, hpop⟩
    · exact hfailed fun o ho => by rw [hpc] at ho; cases ho
    · refine hclears.page_deleted hpc hdel fun hmem => ?_
      rw [hpop, OrderedDict.get?_popAll, if_pos hmem] at he
      cases he
  | page hpc hrep => rw [hport] at hrep; cases hrep
  | deleted hpc hrep => rw [hport] at hrep; cases hrep
  | raising hpc hrep => rw [hport] at hrep; cases hrep
  | returned hpc hrep => rw [hport] at hrep; cases hrep
  | raised hpc hrep => rw [hport] at hrep; cases hrep

/-- The loop goes on and the entry still stands. -/
theorem StillOwed.resume (h : StillOwed k l) (hacc : Accounted cfg scope l)
    (hs : l.step cfg j .resume = some l') : StillOwed k l' := by
  obtain ⟨reply, call, hport, ha, rfl⟩ := Loop.step_resume hs
  intro entry he
  obtain ⟨hpast, hclears⟩ := h entry he
  have hnotWriting : l.call.pc ≠ .writing := by
    intro hw
    cases hacc.phase with
    | raising hpc =>
      rcases hpc with ⟨total, hpc⟩ | ⟨total, cursor, hpc⟩
      · rw [hw] at hpc
        cases hpc
      · rw [hw] at hpc
        cases hpc
    | scanning hpc => rw [hw] at hpc; cases hpc
    | page hpc => rw [hw] at hpc; cases hpc
    | deleting hpc => rw [hw] at hpc; cases hpc
    | deleted hpc => rw [hw] at hpc; cases hpc
    | returned hpc => rw [hw] at hpc; cases hpc
    | raised hpc => rw [hw] at hpc; cases hpc
  exact ⟨Nat.le_succ_of_le hpast, hclears.resumed hnotWriting hport ha⟩

/-- A command of another client that does not write the key leaves its entry or drops it. -/
theorem StillOwed.other {origin : Origin} {cmd : Command Raw} (h : StillOwed k l)
    (hw : ¬Writes k l (.other origin cmd))
    (hs : l.step cfg j (.other origin cmd) = some l') : StillOwed k l' := by
  cases hs
  intro entry he
  rcases execute_get? l.clock origin l.store cmd k with
    hkeep | ⟨raw, ex, nx, rfl, hnx, -⟩ | ⟨ks, -, -, hnone⟩
  · obtain ⟨hpast, hclears⟩ := h entry (hkeep ▸ he)
    exact ⟨Nat.le_succ_of_le hpast, hclears⟩
  · exact absurd ⟨origin, raw, ex, nx, rfl, hnx⟩ hw
  · exact absurd (hnone.symm.trans he) (by simp)

/-- The two accounts are kept together. -/
theorem stillOwed_step {move : Move Raw} (h : Accounted cfg scope l ∧ StillOwed k l)
    (hsel : cfg.backend.selects scope k = true) (hw : ¬Writes k l move)
    (hs : l.step cfg j move = some l') : Accounted cfg scope l' ∧ StillOwed k l' := by
  refine ⟨accounted_step h.1 hs, ?_⟩
  cases move with
  | serve fate => exact h.2.serve h.1 hsel hs
  | resume => exact h.2.resume h.1 hs
  | other origin cmd => exact h.2.other hw hs

/-- At the start every page is owed. -/
theorem stillOwed_start {store : Store Raw} {now : ℕ} {request : MutationRequest}
    (hscope : requestScope request = some scope) (hpast : Past now store) :
    StillOwed k (.start cfg store now request) := by
  intro entry he
  refine ⟨hpast k entry he, ?_⟩
  cases request with
  | writeThrough u t perms => cases hscope
  | invalidate u t? =>
    cases t? with
    | some t => cases hscope
    | none => exact .before rfl rfl rfl rfl
  | invalidateTenant t => exact .before rfl rfl rfl rfl

end completeness

section runs

variable {cfg : Config Raw} {j : MutationId} {store : Store Raw} {now : ℕ}
  {request : MutationRequest} {scope : Scope} {moves : List (Move Raw)} {l : Loop Raw}

/-- A key that no other client sets in the run is not written. -/
theorem not_writes_of_not_mem {k : String}
    (h : ∀ origin raw ex nx, Move.other origin (.set k raw ex nx) ∉ moves) :
    Along (Loop.step cfg j) (fun l move _ => ¬Writes k l move) l moves := by
  have hmoves : Along (Loop.step cfg j)
      (fun _ move _ => ∀ origin raw ex nx, move ≠ .other origin (.set k raw ex nx)) l moves :=
    along_of_forall fun move hmem origin raw ex nx heq => h origin raw ex nx (heq ▸ hmem)
  refine hmoves.imp ?_
  rintro l move l' hne ⟨origin, raw, ex, nx, heq, -⟩
  exact hne origin raw ex nx heq

/-- The account holds in every run. -/
theorem accounted_run (hscope : requestScope request = some scope)
    (hrun : run (Loop.step cfg j) (.start cfg store now request) moves = some l) :
    Accounted cfg scope l :=
  run_preserves (Accounted cfg scope) (fun _ _ _ h hs => accounted_step h hs) hrun
    (accounted_start hscope)

/-- A selected key that nobody else writes is gone when the loop returns. -/
theorem returned_clears (hscope : requestScope request = some scope) (hpast : Past now store)
    (hrun : run (Loop.step cfg j) (.start cfg store now request) moves = some l) {total : ℕ}
    (hdone : l.call.pc = .done (.ok total)) {k : String}
    (hsel : cfg.backend.selects scope k = true)
    (hw : Along (Loop.step cfg j) (fun l move _ => ¬Writes k l move)
      (.start cfg store now request) moves) : l.store.get? k = none := by
  have howed : Accounted cfg scope l ∧ StillOwed k l :=
    run_invariant (C := fun l move _ => ¬Writes k l move)
      (fun l : Loop Raw => Accounted cfg scope l ∧ StillOwed k l)
      (fun _ _ _ h hs hw => stillOwed_step h hsel hw hs) hrun hw
      ⟨accounted_start hscope, stillOwed_start hscope hpast⟩
  cases he : l.store.get? k with
  | none => rfl
  | some entry => exact ((howed.2 entry he).2.not_returned hdone).elim

/-- Once a command has failed, the next time the loop runs it raises. -/
theorem Accounted.raises (h : Accounted cfg scope l) (hfailed : l.failed = true) :
    l.call.pc = .done (.error .redisError) ∨
      ∃ l', l.step cfg j .resume = some l' ∧ l'.call.pc = .done (.error .redisError) := by
  cases h.phase with
  | raising hpc hport =>
    have hadvance : l.call.advance l.clock .failed =
        some { l.call with pc := .done (.error .redisError), ended := some l.clock } := by
      rcases hpc with ⟨total, hpc⟩ | ⟨total, cursor, hpc⟩
      · simp only [MutationCall.advance, hpc]
      · simp only [MutationCall.advance, hpc]
    have hstep : l.step cfg j .resume = some { l with
        call := { l.call with pc := .done (.error .redisError), ended := some l.clock }
        clock := l.clock + 1 } := by
      rw [Loop.step, hport]
      dsimp only
      rw [hadvance, Option.map_some]
    exact Or.inr ⟨_, hstep, rfl⟩
  | raised hpc => exact Or.inl hpc
  | scanning _ _ hno => rw [hfailed] at hno; cases hno
  | page _ _ hno => rw [hfailed] at hno; cases hno
  | deleting _ _ hno => rw [hfailed] at hno; cases hno
  | deleted _ _ hno => rw [hfailed] at hno; cases hno
  | returned _ _ hno => rw [hfailed] at hno; cases hno

/-- How the loop ends tells whether a command failed. -/
theorem Accounted.ended (h : Accounted cfg scope l) {outcome : Except PyError ℕ}
    (hdone : l.call.pc = .done outcome) :
    (l.failed = false ∧ outcome = .ok l.removed.length) ∨
      (l.failed = true ∧ outcome = .error .redisError) := by
  cases h.phase with
  | returned hpc hport hfailed hcount =>
    rw [hdone] at hpc
    cases hpc
    exact Or.inl ⟨hfailed, by rw [hcount]⟩
  | raised hpc hport hfailed =>
    rw [hdone] at hpc
    cases hpc
    exact Or.inr ⟨hfailed, rfl⟩
  | raising hpc =>
    rcases hpc with ⟨total, hpc⟩ | ⟨total, cursor, hpc⟩
    · rw [hdone] at hpc
      cases hpc
    · rw [hdone] at hpc
      cases hpc
  | scanning hpc => rw [hdone] at hpc; cases hpc
  | page hpc => rw [hdone] at hpc; cases hpc
  | deleting hpc => rw [hdone] at hpc; cases hpc
  | deleted hpc => rw [hdone] at hpc; cases hpc

/-- For whatever the pattern selects, every content, every paging and every interleaving
with other clients: a bulk invalidation that returns has cleared every selected key that
nobody else wrote, and gives the number of keys that it removed. It raises when one of its
commands has failed, and only then. It has removed selected keys only, and every other
key is as the other clients alone would have left it. -/
theorem scan_loop_exact {content : OrderedDict String (Raw × Option ℕ)}
    (hscope : requestScope request = some scope)
    (hrun : run (Loop.step cfg j)
      (.start cfg (Server.start content).store (Server.start content).clock request) moves =
        some l) :
    (∀ total, l.call.pc = .done (.ok total) → total = l.removed.length ∧ l.failed = false ∧
      ∀ k, cfg.backend.selects scope k = true →
        Along (Loop.step cfg j) (fun l move _ => ¬Writes k l move)
          (.start cfg (Server.start content).store (Server.start content).clock request) moves →
        l.store.get? k = none) ∧
    (∀ err, l.call.pc = .done (.error err) → err = .redisError ∧ l.failed = true) ∧
    (l.failed = true → l.call.pc = .done (.error .redisError) ∨
      ∃ l', l.step cfg j .resume = some l' ∧ l'.call.pc = .done (.error .redisError)) ∧
    (∀ k ∈ l.removed, cfg.backend.selects scope k = true) ∧
    ∀ k, cfg.backend.selects scope k = false → l.store.get? k = l.without.get? k := by
  have hacc := accounted_run hscope hrun
  refine ⟨?_, ?_, hacc.raises, hacc.removed, hacc.others⟩
  · intro total hdone
    rcases hacc.ended hdone with ⟨hfailed, htotal⟩ | ⟨-, herr⟩
    · cases htotal
      exact ⟨rfl, hfailed, fun k hsel hw =>
        returned_clears hscope (start_past content) hrun hdone hsel hw⟩
    · cases herr
  · intro err hdone
    rcases hacc.ended hdone with ⟨-, hok⟩ | ⟨hfailed, herr⟩
    · cases hok
    · cases herr
      exact ⟨rfl, hfailed⟩

end runs

/-- Two keys of one user, and a third key. -/
def threeKeys : OrderedDict String (List Json × Option ℕ) :=
  ((OrderedDict.empty.set "helios:perms:user-1:tenant-1" ([.str "helios:members:view"], none)).set
    "helios:perms:user-1:tenant-2" ([], none)).set "helios:perms:user-2:tenant-1" ([], none)

/-- A page that repeats its key, an empty page, and a last page; meanwhile another client
writes a third key of the user and deletes one of the first two. -/
def threePages : List (Move (List Json)) :=
  [.serve (.returns 7 ["helios:perms:user-1:tenant-1", "helios:perms:user-1:tenant-1"]), .resume,
    .other .initial (.set "helios:perms:user-1:tenant-3" [] none false),
    .serve .executes, .resume,
    .other .initial (.delete ["helios:perms:user-1:tenant-2"]),
    .serve (.returns 3 []), .resume,
    .serve (.returns 0 ["helios:perms:user-1:tenant-3"]), .resume, .serve .executes, .resume]

/-- Two keys are removed and counted, and the third stays. -/
theorem scan_loop_exact_threePages : ∃ l,
    run (Loop.step (fixedConfig false) 0)
      (.start (fixedConfig false) (Server.start threeKeys).store (Server.start threeKeys).clock
        (.invalidate "user-1" none)) threePages = some l ∧
    l.call.pc = .done (.ok 2) ∧ l.removed.length = 2 ∧
    l.store.get? "helios:perms:user-1:tenant-1" = none ∧
    l.store.get? "helios:perms:user-2:tenant-1" =
      l.without.get? "helios:perms:user-2:tenant-1" := by
  have hrun : run (Loop.step (fixedConfig false) 0)
      (.start (fixedConfig false) (Server.start threeKeys).store (Server.start threeKeys).clock
        (.invalidate "user-1" none)) threePages = some _ := rfl
  have hscope : requestScope (.invalidate "user-1" none) = some (.user "user-1") := rfl
  obtain ⟨hreturned, -, -, -, hothers⟩ := scan_loop_exact hscope hrun
  obtain ⟨htotal, -, hcleared⟩ := hreturned 2 rfl
  refine ⟨_, hrun, rfl, htotal.symm, hcleared _ (by decide) ?_, hothers _ (by decide)⟩
  exact not_writes_of_not_mem (by simp [threePages])

section worlds

variable {cfg : Config Raw} {w w' : World Raw} {j : MutationId} {l : Loop Raw}

/-- The loop is the one of this call in this world. -/
structure Follows (l : Loop Raw) (w : World Raw) (j : MutationId) : Prop where
  /-- They share the store. -/
  store : w.store = l.store
  /-- The call is the one under its id. -/
  call : w.mutations[j]? = some l.call
  /-- They share the clock. -/
  clock : w.clock = l.clock

/-- Elsewhere a command is executed on the store, or nothing happens to it. -/
theorem Follows.elsewhere (h : Follows l w j) {origin : Origin} {cmd : Command Raw}
    (hstore : w'.store = w.store ∨ w'.store = (execute w.clock origin w.store cmd).2)
    (hcall : w'.mutations[j]? = w.mutations[j]?) (hclock : w'.clock = w.clock + 1) :
    ∃ move l', l.step cfg j move = some l' ∧ Follows l' w' j := by
  have hmoves : ∀ cmd' : Command Raw, w'.store = (execute w.clock origin w.store cmd').2 →
      ∃ move l', l.step cfg j move = some l' ∧ Follows l' w' j := by
    intro cmd' hs
    refine ⟨.other origin cmd', _, rfl, ?_, ?_, ?_⟩
    · rw [hs, h.clock, h.store]
    · rw [hcall, h.call]
    · rw [hclock, h.clock]
  rcases hstore with hsame | hexec
  · exact hmoves (.get "") hsame
  · exact hmoves cmd hexec

/-- Nothing happens to the store, as if another client had read a key. -/
theorem Follows.idle (h : Follows l w j) (hstore : w'.store = w.store)
    (hcall : w'.mutations[j]? = w.mutations[j]?) (hclock : w'.clock = w.clock + 1) :
    ∃ move l', l.step cfg j move = some l' ∧ Follows l' w' j := by
  have hread : w'.store = (execute w.clock .initial w.store (.get "")).2 := hstore
  exact h.elsewhere (Or.inr hread) hcall hclock

/-- A command of the loop is served. -/
theorem Follows.served (h : Follows l w j) {cmd : Command Raw} {fate : Fate}
    {reply : Reply Raw} {store : Store Raw} (hport : l.call.port = .sent cmd)
    (hserve : serve cfg.backend w.clock (.writeThrough j) l.call.progress w.store cmd fate =
      some (reply, store)) (hstore : w'.store = store)
    (hcall : w'.mutations = w.mutations.set j (l.call.answered w.clock reply))
    (hclock : w'.clock = w.clock + 1) :
    ∃ move l', l.step cfg j move = some l' ∧ Follows l' w' j := by
  rw [h.clock, h.store] at hserve
  have hstep : l.step cfg j (.serve fate) = some { l with
      store := store
      call := l.call.answered l.clock reply
      clock := l.clock + 1
      removed := l.removed ++ dropped l.store store
      failed := l.failed || isFailed reply } := by
    rw [Loop.step, hport]
    dsimp only
    rw [hserve]
    rfl
  refine ⟨_, _, hstep, hstore, ?_, ?_⟩
  · rw [hcall, h.clock]
    exact IndexedTables.get_set_self h.call
  · rw [hclock, h.clock]

/-- The loop goes on. -/
theorem Follows.resumed (h : Follows l w j) {reply : Reply Raw} {call : MutationCall Raw}
    (hport : l.call.port = .replied reply) (ha : l.call.advance w.clock reply = some call)
    (hstore : w'.store = w.store) (hcall : w'.mutations = w.mutations.set j call)
    (hclock : w'.clock = w.clock + 1) :
    ∃ move l', l.step cfg j move = some l' ∧ Follows l' w' j := by
  rw [h.clock] at ha
  have hstep : l.step cfg j .resume = some { l with call := call, clock := l.clock + 1 } := by
    rw [Loop.step, hport]
    dsimp only
    rw [ha]
    rfl
  refine ⟨_, _, hstep, hstore.trans h.store, ?_, ?_⟩
  · rw [hcall]
    exact IndexedTables.get_set_self h.call
  · rw [hclock, h.clock]

/-- A step of the world is a move of each mutating call in it. -/
theorem follows_step {a : Action} (h : Follows l w j) (hs : step cfg w a = some w') :
    ∃ move l', l.step cfg j move = some l' ∧ Follows l' w' j := by
  obtain ⟨v, hv, rfl⟩ := step_transition hs
  have hrow : ∀ {j' : MutationId} {m' : MutationCall Raw}, j' ≠ j →
      (w.mutations.set j' m')[j]? = w.mutations[j]? :=
    fun hj => IndexedTables.get_set_ne (Ne.symm hj)
  have hconclude : ∀ i r f outcome, ∃ move l', l.step cfg j move = some l' ∧
      Follows l' (w.conclude i r f outcome).tick j := by
    intro i r f outcome
    have hsame := conclude_sameOutside w i r f outcome
    exact h.idle hsame.store (congrArg (·[j]?) hsame.mutations) (congrArg (· + 1) hsame.clock)
  cases hv with
  | readServed hr hport hserve => exact h.elsewhere (serve_store hserve) rfl rfl
  | @mutationServed j' m cmd fate reply store hmu hport hserve =>
    by_cases hj : j' = j
    · subst hj
      obtain rfl : m = l.call := Option.some.inj (hmu.symm.trans h.call)
      exact h.served hport hserve rfl rfl rfl
    · exact h.elsewhere (serve_store hserve) (hrow hj) rfl
  | @mutationResumes j' m m' reply hmu hport ha =>
    by_cases hj : j' = j
    · subst hj
      obtain rfl : m = l.call := Option.some.inj (hmu.symm.trans h.call)
      exact h.resumed hport ha rfl rfl rfl
    · exact h.idle rfl (hrow hj) rfl
  | mutationStarts request =>
    exact h.idle rfl ((IndexedTables.get_append_of_get h.call).trans h.call.symm) rfl
  | @expires k entry he hex =>
    have hpop : w.store.pop k = (execute w.clock .initial w.store (.delete [k])).2 := by
      simp [execute, OrderedDict.pop, OrderedDict.popAll]
    exact h.elsewhere (Or.inr hpop) rfl rfl
  | unreachable => exact hconclude _ _ _ _
  | populated => exact hconclude _ _ _ _
  | _ => exact h.idle rfl rfl rfl

/-- So a run of the clients is, for each bulk invalidation, a run of its loop. -/
theorem follows_run {as : List Action} (hrun : run (step cfg) w as = some w')
    (h : Follows l w j) :
    ∃ moves l', run (Loop.step cfg j) l moves = some l' ∧ Follows l' w' j := by
  induction as generalizing w l with
  | nil =>
    cases hrun
    exact ⟨[], l, rfl, h⟩
  | cons a rest ih =>
    obtain ⟨v, hstep, hrest⟩ := run_cons_iff.mp hrun
    obtain ⟨move, l₁, hl, hfollows⟩ := follows_step h hstep
    obtain ⟨moves, l', hmoves, hend⟩ := ih hrest hfollows
    exact ⟨move :: moves, l', run_cons_iff.mpr ⟨l₁, hl, hmoves⟩, hend⟩

end worlds

end HeliosPermissions.ScanLoop
