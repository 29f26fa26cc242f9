import HeliosPermissions.CallShapes

/-!
# What a step does to the value under one key

A key is filled by the populate of a read, which needs it free, or overwritten
by a write-through; it is emptied by a DEL that names it or by expiry; and no
other step touches it. The stored entry says which call stored it, so an entry
can be traced back to the Helios sample or the write-through it spells.
-/

namespace HeliosPermissions.KeyedWrites

open JsonValues CacheKeys CacheStore HeliosResolution ClientWorld PartialRuns InFlightTable
open CallHistory CallShapes

variable {Raw : Type}

/-- The changes of the value under a key, by the action that makes them. -/
inductive KeyChange (cfg : Config Raw) (w v : World Raw) (k : String) : Action → Prop
  | keeps (a : Action) (h : v.store.get? k = w.store.get? k) : KeyChange cfg w v k a
  /-- The populate of a read fills the key, which was free. -/
  | populates {i : ReadId} {fate : Fate} {r : ReadCall Raw} {perms : List Json}
      (hfate : fate ≠ .fails false) (hr : w.reads[i]? = some r)
      (hport : r.port = .sent (populateCommand cfg r.userId r.tenantId perms))
      (hk : cfg.backend.key r.userId r.tenantId = k) (hres : ReadResolved r perms)
      (hfree : w.store.get? k = none)
      (hnew : v.store.get? k =
        some ⟨cfg.backend.dumps perms, .populate i, w.clock, w.clock, cfg.backend.ex⟩) :
      KeyChange cfg w v k (.serveRead i fate)
  /-- A write-through overwrites whatever is there. -/
  | overwrites {j : MutationId} {fate : Fate} {m : MutationCall Raw} {u t : String}
      {perms : List Json} {since : ℕ} (hmu : w.mutations[j]? = some m)
      (hq : m.request = .writeThrough u t perms)
      (hport : m.port = .sent (.set k (cfg.backend.dumps perms) cfg.backend.ex false))
      (hk : cfg.backend.key u t = k)
      (hnew : v.store.get? k =
        some ⟨cfg.backend.dumps perms, .writeThrough j, since, w.clock, cfg.backend.ex⟩) :
      KeyChange cfg w v k (.serveMutation j fate)
  /-- The DEL of an invalidation names the key. -/
  | deletes {j : MutationId} {fate : Fate} {m : MutationCall Raw} {ks : List String}
      (hmu : w.mutations[j]? = some m) (hport : m.port = .sent (.delete ks)) (hmem : k ∈ ks)
      (hnew : v.store.get? k = none) : KeyChange cfg w v k (.serveMutation j fate)
  /-- An entry with a TTL expires. -/
  | expires {entry : Entry Raw} (he : w.store.get? k = some entry)
      (hex : entry.ex.isSome = true) (hnew : v.store.get? k = none) :
      KeyChange cfg w v k (.expire k)

/-- The server deals with the command of a read. -/
theorem readServed_keyChange {cfg : Config Raw} {w v : World Raw} {i : ReadId}
    {r : ReadCall Raw} {cmd : Command Raw} {fate : Fate} {reply : Reply Raw} {store : Store Raw}
    (hshape : ReadShape cfg r) (hr : w.reads[i]? = some r) (hport : r.port = .sent cmd)
    (hs : serve cfg.backend w.clock (.populate i) ⟨none, []⟩ w.store cmd fate =
      some (reply, store)) (hv : v.store = store) (k : String) :
    KeyChange cfg w v k (.serveRead i fate) := by
  rcases serve_store hs with hsame | hexec
  · exact .keeps _ (by rw [hv, hsame])
  · rcases hshape.command cmd hport with rfl | ⟨perms, rfl, hres⟩
    · exact .keeps _ (by rw [hv, hexec]; rfl)
    · have hcases := execute_get? w.clock (.populate i) w.store
        (populateCommand cfg r.userId r.tenantId perms) k
      rw [← hexec, ← hv] at hcases
      rcases hcases with hkeep | ⟨raw, ex, nx, hcmd, hfree, hnew⟩ | ⟨ks, hcmd, -⟩
      · exact .keeps _ hkeep
      · cases hcmd
        have hnone := hfree rfl
        rw [hnone] at hnew
        have hfate : fate ≠ .fails false := by
          rintro rfl
          cases hs
          rw [hv, if_neg Bool.false_ne_true, hnone] at hnew
          cases hnew
        exact .populates hfate hr hport rfl hres hnone hnew
      · cases hcmd

/-- The server deals with the command of a mutating call. -/
theorem mutationServed_keyChange {cfg : Config Raw} {w v : World Raw} {j : MutationId}
    {m : MutationCall Raw} {cmd : Command Raw} {fate : Fate} {reply : Reply Raw}
    {store : Store Raw} (hshape : MutationShape cfg m) (hmu : w.mutations[j]? = some m)
    (hport : m.port = .sent cmd)
    (hs : serve cfg.backend w.clock (.writeThrough j) m.progress w.store cmd fate =
      some (reply, store)) (hv : v.store = store) (k : String) :
    KeyChange cfg w v k (.serveMutation j fate) := by
  rcases serve_store hs with hsame | hexec
  · exact .keeps _ (by rw [hv, hsame])
  · have hcases := execute_get? w.clock (.writeThrough j) w.store cmd k
    rw [← hexec, ← hv] at hcases
    rcases hcases with hkeep | ⟨raw, ex, nx, rfl, -, hnew⟩ | ⟨ks, rfl, hmem, hnew⟩
    · exact .keeps _ hkeep
    · cases hshape with
      | writing hq hpc hcmd =>
        have hset := hcmd _ hport
        cases hset
        exact .overwrites hmu hq hport rfl hnew
      | deleting hq hpc hcmd => cases hcmd _ hport
      | scanning hq hpc hcmd =>
        obtain ⟨cursor, hscan⟩ := hcmd _ hport
        cases hscan
      | deletingPage hq hpc hcmd =>
        obtain ⟨ks, hdel⟩ := hcmd _ hport
        cases hdel
      | done hpc hrep =>
        obtain ⟨rep, hrep⟩ := hrep
        rw [hport] at hrep
        cases hrep
    · exact .deletes hmu hport hmem hnew

/-- Every step changes the value under a key in one of these ways. -/
theorem step_keyChange {cfg : Config Raw} {w w' : World Raw} {a : Action}
    (hshape : CallsShaped cfg w) (h : step cfg w a = some w') (k : String) :
    KeyChange cfg w w' k a := by
  obtain ⟨v, hv, rfl⟩ := step_transition h
  cases hv with
  | readServed hr hport hs =>
    exact readServed_keyChange (hshape.reads _ _ hr) hr hport hs rfl k
  | mutationServed hmu hport hs =>
    exact mutationServed_keyChange (hshape.mutations _ _ hmu) hmu hport hs rfl k
  | @expires k' entry he hex =>
    have hpop : (w.store.pop k').get? k = if k = k' then none else w.store.get? k :=
      OrderedDict.get?_pop w.store k' k
    by_cases hk : k = k'
    · subst hk
      rw [if_pos rfl] at hpop
      exact .expires he hex hpop
    · rw [if_neg hk] at hpop
      exact .keeps _ hpop
  | unreachable =>
    exact .keeps _ (by rw [World.tick, (conclude_sameOutside _ _ _ _ _).store])
  | populated =>
    exact .keeps _ (by rw [World.tick, (conclude_sameOutside _ _ _ _ _).store])
  | _ => exact .keeps _ rfl

end HeliosPermissions.KeyedWrites
