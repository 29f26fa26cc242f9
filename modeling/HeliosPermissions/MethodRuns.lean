import HeliosPermissions.AgreeingCaches
import HeliosPermissions.MemoryRuns

/-!
# Runs over the in-memory cache as calls of its methods

Clients over the keys of `InMemoryPermissionCache` send commands to a keyed store. Each of
them does there what one method of the cache does to its dictionary, as long as it is
executed and a bulk invalidation drops at once what its test selects. So a dictionary that
follows a run by the methods holds what the store holds, and a GET brings back what `get`
returns; and with the image of the run under the Redis keys this is true of clients over
`RedisPermissionCache`.
-/

namespace HeliosPermissions.MethodRuns

open JsonValues JsonText CacheKeys CacheStore ClientWorld CallHistory CallShapes
open PartialRuns IndexedTables InMemoryCache AgreeingCaches BackendMaps MemoryRuns

/-- The method that does to the dictionary what the command does that an action serves. -/
def methodOf (w : World (List Json)) : Action → Option Call
  | .serveRead i _ => (w.reads[i]?).bind fun r =>
    match r.port with
    | .sent (.get _) => some (.get r.userId r.tenantId)
    | .sent (.set _ perms _ _) => some (.set r.userId r.tenantId perms)
    | _ => none
  | .serveMutation j _ => (w.mutations[j]?).bind fun m =>
    match m.port, m.request with
    | .sent (.set _ _ _ _), .writeThrough u t perms => some (.writeThrough u t perms)
    | .sent (.delete _), .invalidate u (some t) => some (.invalidate u t)
    | .sent (.delete _), .invalidate u none => some (.invalidateUser u)
    | .sent (.delete _), .invalidateTenant t => some (.invalidateTenant t)
    | _, _ => none
  | _ => none

/-- The dictionary after an action, when its methods read the clock so. -/
def follow (time : ℕ → ℚ) (w : World (List Json)) (m : MemoryStore) (a : Action) : MemoryStore :=
  (methodOf w a).elim m (memoryAfter (time w.clock) m)

/-- Commands are executed, and the DEL of a bulk invalidation names, of the keys that are
there, those that its pattern or test selects. -/
def Executes {Raw : Type} (backend : Backend Raw) (w : World Raw) : Action → Prop
  | .serveRead _ fate => fate = .executes
  | .serveMutation j fate => (∀ applied, fate ≠ .fails applied) ∧
    ∀ m scope ks, w.mutations[j]? = some m → requestScope m.request = some scope →
      m.port = .sent (.delete ks) → ∀ k ∈ w.store.keys, k ∈ ks ↔ backend.selects scope k = true
  | .expire _ => False
  | _ => True

/-- A GET that is served brings back what `get` returns. -/
def GetsAnswered (time : ℕ → ℚ) (s : World (List Json) × MemoryStore) (a : Action)
    (s' : World (List Json) × MemoryStore) : Prop :=
  ∀ i r k, a = .serveRead i .executes → s.1.reads[i]? = some r → r.port = .sent (.get k) →
    ∃ reply, s'.1.reads[i]? = some { r with port := .replied reply } ∧
      decodeGet (memoryBackend 0) reply =
        .ok (InMemoryCache.get (time s.1.clock) s.2 r.userId r.tenantId).1

section steps

variable {stale : ClientId → Bool} {time : ℕ → ℚ} {w w' : World (List Json)} {m : MemoryStore}
  {s : Store (List Json)} {a : Action}

/-- A DEL drops of the keys that are there those that it names. -/
theorem HoldsSame.delete_congr {now : ℕ} {origin : Origin} {ks ks' : List String}
    (hks : ∀ k ∈ s.keys, k ∈ ks ↔ k ∈ ks')
    (h : HoldsSame m (execute now origin s (.delete ks')).2) :
    HoldsSame m (execute now origin s (.delete ks)).2 := by
  intro k
  rw [h k]
  simp only [execute, OrderedDict.get?_popAll]
  cases hk : s.get? k with
  | none => simp
  | some entry =>
    have hmem : k ∈ s.keys := by
      rw [OrderedDict.mem_keys, hk]
      rfl
    simp only [hks k hmem]

/-- A command that does not fail is executed, unless it is a SCAN. -/
theorem serve_executed {now : ℕ} {origin : Origin} {progress : ScanProgress}
    {cmd : Command (List Json)} {fate : Fate} {reply : Reply (List Json)}
    {s' : Store (List Json)} (hscan : ∀ cursor scope, cmd ≠ .scan cursor scope)
    (hfate : ∀ applied, fate ≠ .fails applied)
    (hs : serve (memoryBackend 0) now origin progress s cmd fate = some (reply, s')) :
    s' = (execute now origin s cmd).2 := by
  cases cmd with
  | scan cursor scope => exact absurd rfl (hscan cursor scope)
  | _ =>
    cases fate with
    | executes => exact (congrArg Prod.snd (Option.some.inj hs)).symm
    | returns cursor keys => cases hs
    | fails applied => exact absurd rfl (hfate applied)

/-- What a read has sent does what `get` or `set` does. -/
theorem readServed_follows {r : ReadCall (List Json)} {cmd : Command (List Json)} {i : ReadId}
    (hshape : ReadShape (memoryConfig 0 stale) r) (hr : w.reads[i]? = some r)
    (hport : r.port = .sent cmd) (h : HoldsSame m w.store) :
    HoldsSame (follow time w m (.serveRead i .executes))
      (execute w.clock (.populate i) w.store cmd).2 := by
  rcases hshape.command cmd hport with rfl | ⟨perms, rfl, -⟩
  · have hmethod : methodOf w (.serveRead i .executes) = some (.get r.userId r.tenantId) := by
      simp only [methodOf, hr, hport, Option.bind_some]
    rw [follow, hmethod]
    exact (get_refines h (time w.clock) r.userId r.tenantId).1
  · have hmethod : methodOf w (.serveRead i .executes) =
        some (.set r.userId r.tenantId perms) := by
      simp only [methodOf, hr, hport, populateCommand, Option.bind_some]
      rfl
    rw [follow, hmethod]
    exact set_refines h (time w.clock) w.clock (.populate i) r.userId r.tenantId perms

/-- What a mutating call has sent does what its method does, except for a SCAN, which
changes nothing. -/
theorem mutationServed_follows {c : MutationCall (List Json)} {cmd : Command (List Json)}
    {j : MutationId} {fate : Fate} {reply : Reply (List Json)} {store : Store (List Json)}
    (hshape : MutationShape (memoryConfig 0 stale) c) (hc : w.mutations[j]? = some c)
    (hport : c.port = .sent cmd) (hexec : Executes (memoryBackend 0) w (.serveMutation j fate))
    (hs : serve (memoryBackend 0) w.clock (.writeThrough j) c.progress w.store cmd fate =
      some (reply, store)) (h : HoldsSame m w.store) :
    HoldsSame (follow time w m (.serveMutation j fate)) store := by
  obtain ⟨hfate, hbulk⟩ := hexec
  cases hshape with
  | @writing u t perms hq hpc hset =>
    have hcmd := hset cmd hport
    subst hcmd
    have hmethod : methodOf w (.serveMutation j fate) = some (.writeThrough u t perms) := by
      simp only [methodOf, hc, hport, hq, Option.bind_some]
    rw [serve_executed (by simp) hfate hs, follow, hmethod]
    exact writeThrough_refines h (time w.clock) w.clock (.writeThrough j) u t perms
  | @deleting u t hq hpc hdel =>
    have hcmd := hdel cmd hport
    subst hcmd
    have hmethod : methodOf w (.serveMutation j fate) = some (.invalidate u t) := by
      simp only [methodOf, hc, hport, hq, Option.bind_some]
    rw [serve_executed (by simp) hfate hs, follow, hmethod]
    exact invalidate_refines h w.clock (.writeThrough j) u t
  | scanning hq hpc hscan =>
    obtain ⟨cursor, rfl⟩ := hscan cmd hport
    have hmethod : methodOf w (.serveMutation j fate) = none := by
      simp only [methodOf, hc, hport, Option.bind_some]
    rw [follow, hmethod, (serve_scan hs).1]
    exact h
  | @deletingPage scope total cursor hq hpc hdel =>
    obtain ⟨ks, rfl⟩ := hdel cmd hport
    have hnamed : ∀ k ∈ w.store.keys,
        k ∈ ks ↔ k ∈ w.store.keys.filter ((memoryBackend 0).selects scope) := by
      intro k hk
      rw [hbulk c scope ks hc hq hport k hk, List.mem_filter, and_iff_right hk]
    rw [serve_executed (by simp) hfate hs]
    refine HoldsSame.delete_congr hnamed ?_
    cases hrequest : c.request with
    | writeThrough u t perms => rw [hrequest] at hq; cases hq
    | invalidate u t? =>
      cases t? with
      | some t => rw [hrequest] at hq; cases hq
      | none =>
        rw [hrequest] at hq
        cases hq
        have hmethod : methodOf w (.serveMutation j fate) = some (.invalidateUser u) := by
          simp only [methodOf, hc, hport, hrequest, Option.bind_some]
        rw [follow, hmethod]
        exact invalidate_user_refines h w.clock (.writeThrough j) u
    | invalidateTenant t =>
      rw [hrequest] at hq
      cases hq
      have hmethod : methodOf w (.serveMutation j fate) = some (.invalidateTenant t) := by
        simp only [methodOf, hc, hport, hrequest, Option.bind_some]
      rw [follow, hmethod]
      exact invalidateTenant_refines h w.clock (.writeThrough j) t
  | done hpc hreplied =>
    obtain ⟨reply', hreplied⟩ := hreplied
    rw [hport] at hreplied
    cases hreplied

/-- Any other action leaves the store as it is. -/
theorem unserved_keeps {v : World (List Json)} (hv : Transition (memoryConfig 0 stale) w a v)
    (hexec : Executes (memoryBackend 0) w a) (hread : ∀ i fate, a ≠ .serveRead i fate)
    (hmutation : ∀ j fate, a ≠ .serveMutation j fate) : v.store = w.store := by
  cases hv with
  | readServed => exact absurd rfl (hread _ _)
  | mutationServed => exact absurd rfl (hmutation _ _)
  | expires => exact hexec.elim
  | unreachable => exact (conclude_sameOutside _ _ _ _ _).store
  | populated => exact (conclude_sameOutside _ _ _ _ _).store
  | _ => rfl

/-- Every action keeps the dictionary in step with the store. -/
theorem follows_step (hshape : CallsShaped (memoryConfig 0 stale) w)
    (hs : step (memoryConfig 0 stale) w a = some w') (hexec : Executes (memoryBackend 0) w a)
    (h : HoldsSame m w.store) : HoldsSame (follow time w m a) w'.store := by
  obtain ⟨v, hv, rfl⟩ := step_transition hs
  by_cases hserved : (∃ i fate, a = .serveRead i fate) ∨ ∃ j fate, a = .serveMutation j fate
  · cases hv with
    | @readServed i r cmd fate reply store hr hport hserve =>
      obtain rfl : fate = .executes := hexec
      have hfollows : HoldsSame (follow time w m (.serveRead i .executes))
          (execute w.clock (.populate i) w.store cmd).2 :=
        readServed_follows (hshape.reads _ _ hr) hr hport h
      have hscan : ∀ cursor scope, cmd ≠ .scan cursor scope := by
        intro cursor scope hcmd
        subst hcmd
        rcases (hshape.reads _ _ hr).command _ hport with hget | ⟨perms, hset, -⟩
        · cases hget
        · cases hset
      rw [← serve_executed hscan (by simp) hserve] at hfollows
      exact hfollows
    | mutationServed hc hport hserve =>
      exact mutationServed_follows (hshape.mutations _ _ hc) hc hport hexec hserve h
    | _ => rcases hserved with ⟨_, _, ha⟩ | ⟨_, _, ha⟩ <;> cases ha
  · have hread : ∀ i fate, a ≠ .serveRead i fate := fun i fate ha =>
      hserved (Or.inl ⟨i, fate, ha⟩)
    have hmutation : ∀ j fate, a ≠ .serveMutation j fate := fun j fate ha =>
      hserved (Or.inr ⟨j, fate, ha⟩)
    have hmethod : methodOf w a = none := by
      cases a with
      | serveRead i fate => exact absurd rfl (hread i fate)
      | serveMutation j fate => exact absurd rfl (hmutation j fate)
      | _ => rfl
    have hsame : v.tick.store = w.store := unserved_keeps (v := v) hv hexec hread hmutation
    rw [follow, hmethod, hsame]
    exact h

/-- A GET that is executed finds in the store what `get` finds in the dictionary. -/
theorem getsAnswered_step (hshape : CallsShaped (memoryConfig 0 stale) w)
    (hs : step (memoryConfig 0 stale) w a = some w') (h : HoldsSame m w.store) :
    GetsAnswered time (w, m) a (w', follow time w m a) := by
  rintro i r k rfl hr hport
  obtain ⟨v, hv, rfl⟩ := step_transition hs
  cases hv with
  | readServed hr' hport' hserve =>
    obtain rfl := Option.some.inj (hr.symm.trans hr')
    obtain rfl := Port.sent.inj (hport.symm.trans hport')
    rcases (hshape.reads i r hr).command _ hport with hget | ⟨perms, hset, -⟩
    · cases hget
      cases hserve
      exact ⟨_, get_set_self hr, (get_refines h (time w.clock) r.userId r.tenantId).2⟩
    · cases hset

end steps

/-- The dictionary for a content of the keyed store. -/
def dictionaryOf (content : OrderedDict String (List Json × Option ℕ)) : MemoryStore :=
  content.mapValues fun v => (v.1, none)

/-- At the start both hold the same. -/
theorem holdsSame_init (content : OrderedDict String (List Json × Option ℕ))
    (membership : String → String → Json) :
    HoldsSame (dictionaryOf content) (World.init content membership).store := by
  intro k
  simp only [dictionaryOf, World.init, OrderedDict.get?_mapValues, Option.map_map]
  rfl

section runs

variable {stale : ClientId → Bool} {time : ℕ → ℚ}
  {content : OrderedDict String (List Json × Option ℕ)} {membership : String → String → Json}

/-- A dictionary that follows a run by the methods of `InMemoryPermissionCache` holds at its end
what the store holds, and every GET of the run has been answered as by its `get`. -/
theorem methods_follow {as : List Action} {s : World (List Json) × MemoryStore}
    (hrun : run (shadowed (step (memoryConfig 0 stale)) (follow time))
      (.init content membership, dictionaryOf content) as = some s)
    (hexec : Along (shadowed (step (memoryConfig 0 stale)) (follow time))
      (fun s a _ => Executes (memoryBackend 0) s.1 a)
      (.init content membership, dictionaryOf content) as) :
    HoldsSame s.2 s.1.store ∧
      Along (shadowed (step (memoryConfig 0 stale)) (follow time)) (GetsAnswered time)
        (.init content membership, dictionaryOf content) as := by
  have hinit : CallsShaped (memoryConfig 0 stale) (.init content membership) ∧
      HoldsSame (dictionaryOf content) (World.init content membership).store :=
    ⟨init_callsShaped _ content membership, holdsSame_init content membership⟩
  have hstep : ∀ (s : World (List Json) × MemoryStore) (a : Action)
      (s' : World (List Json) × MemoryStore),
      CallsShaped (memoryConfig 0 stale) s.1 ∧ HoldsSame s.2 s.1.store →
      shadowed (step (memoryConfig 0 stale)) (follow time) s a = some s' →
      Executes (memoryBackend 0) s.1 a →
      (CallsShaped (memoryConfig 0 stale) s'.1 ∧ HoldsSame s'.2 s'.1.store) ∧
        GetsAnswered time s a s' := by
    rintro ⟨w, m⟩ a ⟨w', m'⟩ ⟨hshape, hsame⟩ hs hexec
    obtain ⟨hw, rfl⟩ := shadowed_eq_some.mp hs
    exact ⟨⟨hshape.preserved hw, follows_step hshape hw hexec hsame⟩,
      getsAnswered_step hshape hw hsame⟩
  have hend := run_invariant (fun s : World (List Json) × MemoryStore =>
      CallsShaped (memoryConfig 0 stale) s.1 ∧ HoldsSame s.2 s.1.store)
    (fun s a s' hinv hs hexec => (hstep s a s' hinv hs hexec).1) hrun hexec hinit
  exact ⟨hend.2, hexec.with_invariant _ hstep hinit⟩

end runs

/-- Commands are executed on the one side when they are on the other. -/
theorem executes_of_image {Raw Raw' : Type} {cfg : Config Raw} {cfg' : Config Raw'}
    (m : BackendMap cfg.backend cfg'.backend) {w : World Raw} {a : Action}
    (haligned : RequestsAligned m w)
    (h : Executes cfg'.backend (m.world w) (m.action a)) : Executes cfg.backend w a := by
  cases a with
  | serveRead i fate =>
    cases fate with
    | executes => rfl
    | returns cursor keys => cases h
    | fails applied => cases h
  | serveMutation j fate =>
    refine ⟨?_, ?_⟩
    · rintro applied rfl
      exact h.1 applied rfl
    · intro c scope ks hc hscope hport k hk
      have hc' : (m.world w).mutations[j]? = some (m.mutation c) := by
        simp [BackendMap.world, hc]
      have hport' : (m.mutation c).port = .sent (.delete (ks.map m.rename)) := by
        simp [BackendMap.mutation, hport, BackendMap.port, BackendMap.command]
      have hk' : m.rename k ∈ (m.world w).store.keys := by
        rw [BackendMap.world, BackendMap.store, OrderedDict.keys_mapEntries]
        exact List.mem_map_of_mem hk
      have hnamed := h.2 (m.mutation c) scope (ks.map m.rename) hc' hscope hport' (m.rename k) hk'
      rw [List.mem_map_of_injective m.rename_injective, haligned j c scope hc hscope] at hnamed
      rw [hnamed]
      constructor
      · rintro ⟨k₀, heq, hselected⟩
        rwa [m.rename_injective heq]
      · exact fun hselected => ⟨k, rfl, hselected⟩
  | expire k => exact h.elim
  | _ => trivial

section runs

variable {Raw : Type} {stale : ClientId → Bool} {time : ℕ → ℚ}
  {content : OrderedDict String (List Json × Option ℕ)} {membership : String → String → Json}

end runs

/-- The commands of this run are executed, and its DEL names the one key that is there. -/
theorem executes_someActions : Along (step (redisConfig utf8Json.toCodec 0 fun _ => true))
    (fun w a _ => Executes (redisBackend utf8Json.toCodec 0) w a)
    (.init (spelled utf8Json.toCodec .empty) fun _ _ => activeBody [.str "a:b"])
    someActions := by
  refine (along_cons_iff rfl).mpr ⟨trivial, (along_cons_iff rfl).mpr ⟨rfl,
    (along_cons_iff rfl).mpr ⟨trivial, (along_cons_iff rfl).mpr ⟨trivial,
    (along_cons_iff rfl).mpr ⟨trivial, (along_cons_iff rfl).mpr ⟨rfl,
    (along_cons_iff rfl).mpr ⟨trivial, (along_cons_iff rfl).mpr ⟨trivial,
    (along_cons_iff rfl).mpr ⟨⟨by simp, ?_⟩, (along_cons_iff rfl).mpr ⟨trivial,
    (along_cons_iff rfl).mpr ⟨⟨by simp, ?_⟩, (along_cons_iff rfl).mpr
      ⟨trivial, trivial⟩⟩⟩⟩⟩⟩⟩⟩⟩⟩⟩⟩
  · intro m scope ks hm _ hport
    cases hm
    cases hport
  · intro m scope ks hm hscope hport k hk
    cases hm
    cases hscope
    cases hport
    obtain rfl : k = "helios:perms:user-1:tenant-1" := List.mem_singleton.mp hk
    decide

end HeliosPermissions.MethodRuns
