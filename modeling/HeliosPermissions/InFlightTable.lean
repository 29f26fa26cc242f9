import HeliosPermissions.IndexedTables
import HeliosPermissions.ClientSteps

/-!
# Who owns an entry of the in-flight table

A read holds a key from the step that registers its future to the step whose
finally clause removes it. Every step keeps the holders and the table, lets one
read register a free key, or lets one holder go together with its own entry.
So the table lists exactly the holders at any time, each under the future that
it created, and two reads never hold one key.
-/

namespace HeliosPermissions.InFlightTable

open JsonValues CacheKeys CacheStore HeliosResolution ClientWorld IndexedTables PartialRuns

variable {Raw : Type}

/-- A read is between registering a key and its finally clause, with this future. -/
def Holds (w : World Raw) (i : ReadId) (c : ClientId) (k : String) (f : FutureId) : Prop :=
  ∃ r, w.reads[i]? = some r ∧ r.client = c ∧ r.lock = k ∧ r.pc.owned = some f

/-- The read that created a future. -/
def creatorOf (w : World Raw) (f : FutureId) : Option ReadId :=
  (w.futures[f]?).map Future.creator

/-- What a step does to the holders and the table. -/
inductive TableChange (w v : World Raw) : Prop
  /-- Nothing. -/
  | keeps (hh : ∀ i c k f, Holds v i c k f ↔ Holds w i c k f) (ht : v.inFlight = w.inFlight)
      (hc : ∀ f, creatorOf v f = creatorOf w f)
  /-- A read registers a new future under a key that was free. -/
  | registers (i : ReadId) (c : ClientId) (k : String)
      (hfree : (w.inFlight c).get? k = none)
      (hh : ∀ i' c' k' f', Holds v i' c' k' f' ↔
        Holds w i' c' k' f' ∨ i' = i ∧ c' = c ∧ k' = k ∧ f' = w.futures.length)
      (ht : v.inFlight =
        Function.update w.inFlight c ((w.inFlight c).set k w.futures.length))
      (hc : ∀ f, creatorOf v f = if f = w.futures.length then some i else creatorOf w f)
  /-- A holder ends and removes what is registered under its key. -/
  | releases (i : ReadId) (c : ClientId) (k : String) (f : FutureId) (hi : Holds w i c k f)
      (hh : ∀ i' c' k' f', Holds v i' c' k' f' ↔ Holds w i' c' k' f' ∧ i' ≠ i)
      (ht : v.inFlight = Function.update w.inFlight c ((w.inFlight c).pop k))
      (hc : ∀ f, creatorOf v f = creatorOf w f)

/-- A replaced read that owns the same future under the same key changes no holder. -/
theorem holds_set_iff {w v : World Raw} {i : ReadId} {r r' : ReadCall Raw}
    (hr : w.reads[i]? = some r) (hv : v.reads = w.reads.set i r') (hc : r'.client = r.client)
    (hl : r'.lock = r.lock) (ho : r'.pc.owned = r.pc.owned) (j : ReadId) (c : ClientId)
    (k : String) (f : FutureId) : Holds v j c k f ↔ Holds w j c k f := by
  unfold Holds
  rw [hv]
  by_cases hj : j = i
  · subst hj
    rw [get_set_self hr, hr]
    simp only [Option.some.injEq, exists_eq_left', hc, hl, ho]
  · rw [get_set_ne hj]

/-- A replaced read that owns nothing is no holder; the others stay. -/
theorem holds_release_iff {w v : World Raw} {i : ReadId} {r r' : ReadCall Raw}
    (hr : w.reads[i]? = some r) (hv : v.reads = w.reads.set i r') (ho : r'.pc.owned = none)
    (j : ReadId) (c : ClientId) (k : String) (f : FutureId) :
    Holds v j c k f ↔ Holds w j c k f ∧ j ≠ i := by
  unfold Holds
  rw [hv]
  by_cases hj : j = i
  · subst hj
    rw [get_set_self hr]
    simp [ho]
  · rw [get_set_ne hj]
    simp [hj]

/-- A new read that owns nothing changes no holder. -/
theorem holds_append_iff {w v : World Raw} {r' : ReadCall Raw}
    (hv : v.reads = w.reads ++ [r']) (ho : r'.pc.owned = none) (j : ReadId) (c : ClientId)
    (k : String) (f : FutureId) : Holds v j c k f ↔ Holds w j c k f := by
  unfold Holds
  rw [hv]
  constructor
  · rintro ⟨r, hr, hc, hl, hf⟩
    rcases get_append_cases hr with ⟨-, rfl⟩ | hr
    · rw [ho] at hf
      cases hf
    · exact ⟨r, hr, hc, hl, hf⟩
  · rintro ⟨r, hr, h⟩
    exact ⟨r, get_append_of_get hr, h⟩

/-- Changing the state of a future leaves its creator. -/
theorem creatorOf_settle (w : World Raw) (g : FutureId) (st : FutureState) (f : FutureId) :
    creatorOf (w.settle g st) f = creatorOf w f := by
  unfold creatorOf World.settle
  rw [List.getElem?_modify]
  cases hf : w.futures[f]? with
  | none => simp
  | some fut =>
    by_cases hg : g = f
    · simp [hg]
    · simp [hg]

/-- The exception path of a holder removes its key. -/
theorem abandon_releases {w : World Raw} {i : ReadId} {r : ReadCall Raw} {f : FutureId}
    {err : PyError} (hr : w.reads[i]? = some r) (ho : r.pc.owned = some f) :
    TableChange w (w.abandon i r f err) :=
  .releases i r.client r.lock f ⟨r, hr, rfl, rfl, ho⟩ (holds_release_iff hr rfl rfl) rfl
    fun _ => rfl

/-- The two ways a holder concludes. -/
theorem conclude_cases (w : World Raw) (i : ReadId) (r : ReadCall Raw) (f : FutureId)
    (o : Outcome) :
    (w.futureState f = some .pending ∧ w.conclude i r f o =
      ((w.settle f (.ofOutcome o)).popInFlight r.client r.lock).finishRead i r o (.led f)) ∨
    (w.futureState f ≠ some .pending ∧
      w.conclude i r f o = w.abandon i r f .invalidStateError) := by
  unfold World.conclude
  split
  next h => exact Or.inl ⟨h, rfl⟩
  next h => exact Or.inr ⟨h, rfl⟩

/-- The normal path of a holder removes its key too. -/
theorem conclude_releases {w : World Raw} {i : ReadId} {r : ReadCall Raw} {f : FutureId}
    {o : Outcome} (hr : w.reads[i]? = some r) (ho : r.pc.owned = some f) :
    TableChange w (w.conclude i r f o) := by
  rcases conclude_cases w i r f o with ⟨-, h⟩ | ⟨-, h⟩
  · rw [h]
    exact .releases i r.client r.lock f ⟨r, hr, rfl, rfl, ho⟩ (holds_release_iff hr rfl rfl) rfl
      fun g => creatorOf_settle w f (.ofOutcome o) g
  · rw [h]
    exact abandon_releases hr ho

/-- Becoming the leader registers the key. -/
theorem lead_registers {w : World Raw} {i : ReadId} {r : ReadCall Raw}
    (hr : w.reads[i]? = some r) (ho : r.pc.owned = none)
    (hfree : (w.inFlight r.client).get? r.lock = none) : TableChange w (w.lead i r) := by
  refine .registers i r.client r.lock hfree ?_ rfl ?_
  · intro i' c' k' f'
    by_cases hi : i' = i
    · subst hi
      have hv : (w.lead i' r).reads[i']? =
          some { r with pc := .heliosFetch w.futures.length } := get_set_self hr
      constructor
      · rintro ⟨r', hr', hc, hl, hf⟩
        rw [hv] at hr'
        cases hr'
        exact Or.inr ⟨rfl, hc.symm, hl.symm, (Option.some.inj hf).symm⟩
      · rintro (⟨r', hr', -, -, hf⟩ | ⟨-, rfl, rfl, rfl⟩)
        · rw [hr] at hr'
          cases hr'
          rw [ho] at hf
          cases hf
        · exact ⟨_, hv, rfl, rfl, rfl⟩
    · have hv : (w.lead i r).reads[i']? = w.reads[i']? := get_set_ne hi
      unfold Holds
      rw [hv]
      simp [hi]
  · intro f
    have hfut : (w.lead i r).futures = w.futures ++ [⟨i, .pending⟩] := rfl
    unfold creatorOf
    rw [hfut]
    by_cases hlt : f < w.futures.length
    · rw [List.getElem?_append_left hlt, if_neg (Nat.ne_of_lt hlt)]
    · by_cases hf : f = w.futures.length
      · subst hf
        simp
      · have hgt : w.futures.length < f := lt_of_le_of_ne (Nat.le_of_not_lt hlt) (Ne.symm hf)
        rw [if_neg hf, List.getElem?_eq_none (by simpa [Nat.succ_le_iff] using hgt),
          List.getElem?_eq_none hgt.le]

/-- Every transition changes the table in one of the three ways. -/
theorem transition_tableChange {cfg : Config Raw} {w v : World Raw} {a : Action}
    (h : Transition cfg w a v) : TableChange w v := by
  cases h with
  | readStarts c u t ask => exact .keeps (holds_append_iff rfl rfl) rfl fun _ => rfl
  | readServed hr hport hs => exact .keeps (holds_set_iff hr rfl rfl rfl rfl) rfl fun _ => rfl
  | sampled fate hr hpc hn => exact .keeps (holds_set_iff hr rfl rfl rfl rfl) rfl fun _ => rfl
  | cancelsFuture hr hpc hf =>
    exact .keeps (holds_set_iff hr rfl rfl rfl rfl) rfl (creatorOf_settle w _ _)
  | cancelIgnored hr hpc => exact .keeps (fun _ _ _ _ => Iff.rfl) rfl fun _ => rfl
  | cancelMarked hr hpc hj => exact .keeps (holds_set_iff hr rfl rfl rfl rfl) rfl fun _ => rfl
  | thrown hr hm hd ho =>
    exact .keeps (holds_set_iff hr rfl rfl rfl (by rw [ho]; rfl)) rfl fun _ => rfl
  | thrownLeader hr hm ho => exact abandon_releases hr ho
  | getRaises hr hm hpc hport hd =>
    exact .keeps (holds_set_iff hr rfl rfl rfl (by rw [hpc]; rfl)) rfl fun _ => rfl
  | getHits hr hm hpc hport hd =>
    exact .keeps (holds_set_iff hr rfl rfl rfl (by rw [hpc]; rfl)) rfl fun _ => rfl
  | leads hr hm hpc hport hd hf => exact lead_registers hr (by rw [hpc]; rfl) hf
  | joins hr hm hpc hport hd hf hs =>
    exact .keeps (holds_set_iff hr rfl rfl rfl (by rw [hpc]; rfl)) rfl fun _ => rfl
  | joinsDone hr hm hpc hport hd hf hs ho =>
    exact .keeps (holds_set_iff hr rfl rfl rfl (by rw [hpc]; rfl)) rfl fun _ => rfl
  | populates hr hm hpc hsam he =>
    exact .keeps (holds_set_iff hr rfl rfl rfl (by rw [hpc]; rfl)) rfl fun _ => rfl
  | unreachable hr hm hpc hsam he => exact conclude_releases hr (by rw [hpc]; rfl)
  | escapes hr hm hpc hsam he => exact abandon_releases hr (by rw [hpc]; rfl)
  | populated hr hm hpc hport => exact conclude_releases hr (by rw [hpc]; rfl)
  | wakes hr hm hpc ho =>
    exact .keeps (holds_set_iff hr rfl rfl rfl (by rw [hpc]; rfl)) rfl fun _ => rfl
  | mutationStarts request => exact .keeps (fun _ _ _ _ => Iff.rfl) rfl fun _ => rfl
  | mutationServed hmu hport hs => exact .keeps (fun _ _ _ _ => Iff.rfl) rfl fun _ => rfl
  | mutationResumes hmu hport ha => exact .keeps (fun _ _ _ _ => Iff.rfl) rfl fun _ => rfl
  | changes u t body => exact .keeps (fun _ _ _ _ => Iff.rfl) rfl fun _ => rfl
  | expires he hex => exact .keeps (fun _ _ _ _ => Iff.rfl) rfl fun _ => rfl

/-- The table lists exactly the holders, under the futures that they created. -/
structure Ownership (w : World Raw) : Prop where
  /-- A holder's future is in its table. -/
  registered : ∀ i c k f, Holds w i c k f → (w.inFlight c).get? k = some f
  /-- A holder created its future. -/
  created : ∀ i c k f, Holds w i c k f → creatorOf w f = some i
  /-- A future in a table has a holder. -/
  running : ∀ c k f, (w.inFlight c).get? k = some f → ∃ i, Holds w i c k f

/-- The creator of an existing future is not changed by a later registration. -/
theorem creatorOf_lt {w : World Raw} {f : FutureId} {i : ReadId} (h : creatorOf w f = some i) :
    f < w.futures.length := by
  obtain ⟨fut, hf, -⟩ := Option.map_eq_some_iff.mp h
  exact lt_length_of_get hf

/-- Replacing the table of one client. -/
theorem get?_update {c c' : ClientId} {k' : String} {d : OrderedDict String FutureId}
    {t : ClientId → OrderedDict String FutureId} :
    (Function.update t c d c').get? k' = if c' = c then d.get? k' else (t c').get? k' := by
  by_cases hc : c' = c
  · subst hc
    simp
  · simp [hc]

/-- No two reads hold the same key of the same client. -/
theorem Ownership.unique {w : World Raw} (h : Ownership w) {i j : ReadId} {c : ClientId}
    {k : String} {f g : FutureId} (hi : Holds w i c k f) (hj : Holds w j c k g) : i = j := by
  have hf := (h.registered _ _ _ _ hi).symm.trans (h.registered _ _ _ _ hj)
  cases hf
  exact Option.some.inj ((h.created _ _ _ _ hi).symm.trans (h.created _ _ _ _ hj))

/-- A read holds one key only. -/
theorem Holds.same_key {w : World Raw} {i : ReadId} {c c' : ClientId} {k k' : String}
    {f f' : FutureId} (h : Holds w i c k f) (h' : Holds w i c' k' f') : c' = c ∧ k' = k := by
  obtain ⟨r, hr, hc, hk, -⟩ := h
  obtain ⟨r', hr', hc', hk', -⟩ := h'
  obtain rfl : r = r' := Option.some.inj (hr.symm.trans hr')
  exact ⟨hc'.symm.trans hc, hk'.symm.trans hk⟩

/-- A registration of a free key keeps the ownership. -/
theorem Ownership.registers {w v : World Raw} (h : Ownership w) {i : ReadId} {c : ClientId}
    {k : String} (hfree : (w.inFlight c).get? k = none)
    (hh : ∀ i' c' k' f', Holds v i' c' k' f' ↔
      Holds w i' c' k' f' ∨ i' = i ∧ c' = c ∧ k' = k ∧ f' = w.futures.length)
    (ht : v.inFlight = Function.update w.inFlight c ((w.inFlight c).set k w.futures.length))
    (hc : ∀ f, creatorOf v f = if f = w.futures.length then some i else creatorOf w f) :
    Ownership v where
  registered i' c' k' f' hi := by
    rw [ht, get?_update]
    rcases (hh i' c' k' f').mp hi with hold | ⟨rfl, rfl, rfl, rfl⟩
    · have hreg := h.registered i' c' k' f' hold
      split_ifs with hcc
      · subst hcc
        have hk : k' ≠ k := by
          rintro rfl
          rw [hfree] at hreg
          cases hreg
        simpa [hk] using hreg
      · exact hreg
    · simp
  created i' c' k' f' hi := by
    rw [hc]
    rcases (hh i' c' k' f').mp hi with hold | ⟨rfl, rfl, rfl, rfl⟩
    · have hcr := h.created i' c' k' f' hold
      rw [if_neg (Nat.ne_of_lt (creatorOf_lt hcr))]
      exact hcr
    · simp
  running c' k' f' hf := by
    have hold : (w.inFlight c').get? k' = some f' → ∃ i, Holds v i c' k' f' := by
      intro hf
      obtain ⟨i', hi'⟩ := h.running c' k' f' hf
      exact ⟨i', (hh _ _ _ _).mpr (Or.inl hi')⟩
    rw [ht, get?_update] at hf
    split_ifs at hf with hcc
    · subst hcc
      rw [OrderedDict.get?_set] at hf
      split_ifs at hf with hk
      · cases hf
        exact ⟨i, (hh _ _ _ _).mpr (Or.inr ⟨rfl, rfl, hk, rfl⟩)⟩
      · exact hold hf
    · exact hold hf

/-- So does a holder that ends and removes its key. -/
theorem Ownership.releases {w v : World Raw} (h : Ownership w) {i : ReadId} {c : ClientId}
    {k : String} {f : FutureId} (hi : Holds w i c k f)
    (hh : ∀ i' c' k' f', Holds v i' c' k' f' ↔ Holds w i' c' k' f' ∧ i' ≠ i)
    (ht : v.inFlight = Function.update w.inFlight c ((w.inFlight c).pop k))
    (hc : ∀ f, creatorOf v f = creatorOf w f) : Ownership v where
  registered i' c' k' f' hi' := by
    obtain ⟨hold, hne⟩ := (hh i' c' k' f').mp hi'
    have hreg := h.registered i' c' k' f' hold
    rw [ht, get?_update]
    split_ifs with hcc
    · subst hcc
      have hk : k' ≠ k := by
        rintro rfl
        exact hne (h.unique hold hi)
      simpa [hk] using hreg
    · exact hreg
  created i' c' k' f' hi' := by
    rw [hc]
    exact h.created i' c' k' f' ((hh i' c' k' f').mp hi').1
  running c' k' f' hf := by
    -- the holder that is gone held nothing but the key that is gone
    have hother : (w.inFlight c').get? k' = some f' → ¬(c' = c ∧ k' = k) →
        ∃ i', Holds v i' c' k' f' := by
      intro hf hne
      obtain ⟨i', hi'⟩ := h.running c' k' f' hf
      refine ⟨i', (hh _ _ _ _).mpr ⟨hi', ?_⟩⟩
      rintro rfl
      exact hne (hi.same_key hi')
    rw [ht, get?_update] at hf
    split_ifs at hf with hcc
    · subst hcc
      rw [OrderedDict.get?_pop] at hf
      split_ifs at hf with hk
      exact hother hf fun hsame => hk hsame.2
    · exact hother hf fun hsame => hcc hsame.1

/-- Ownership is an invariant of the table changes. -/
theorem Ownership.preserved {w v : World Raw} (h : Ownership w) (hch : TableChange w v) :
    Ownership v := by
  cases hch with
  | keeps hh ht hc =>
    refine ⟨?_, ?_, ?_⟩
    · intro i c k f hi
      rw [ht]
      exact h.registered i c k f ((hh i c k f).mp hi)
    · intro i c k f hi
      rw [hc]
      exact h.created i c k f ((hh i c k f).mp hi)
    · intro c k f hf
      rw [ht] at hf
      obtain ⟨i, hi⟩ := h.running c k f hf
      exact ⟨i, (hh i c k f).mpr hi⟩
  | registers i c k hfree hh ht hc => exact h.registers hfree hh ht hc
  | releases i c k f hi hh ht hc => exact h.releases hi hh ht hc

/-- A step changes the tables in one of the listed ways. -/
theorem step_tableChange {cfg : Config Raw} {w w' : World Raw} {a : Action}
    (h : step cfg w a = some w') : TableChange w w' := by
  obtain ⟨v, hv, rfl⟩ := step_transition h
  cases transition_tableChange hv with
  | keeps hh ht hc => exact .keeps hh ht hc
  | registers i c k hfree hh ht hc => exact .registers i c k hfree hh ht hc
  | releases i c k f hi hh ht hc => exact .releases i c k f hi hh ht hc

/-- At the start the tables are empty. -/
theorem init_ownership (content : OrderedDict String (Raw × Option ℕ))
    (membership : String → String → Json) : Ownership (World.init content membership) := by
  have hnone : ∀ i c k f, ¬Holds (World.init content membership) i c k f := by
    rintro i c k f ⟨r, hr, -⟩
    cases hr
  refine ⟨fun i c k f h => absurd h (hnone i c k f), fun i c k f h => absurd h (hnone i c k f), ?_⟩
  intro c k f hf
  cases hf

/-- Ownership holds after every run. -/
theorem reachable_ownership {cfg : Config Raw} {w : World Raw} (h : Reachable cfg w) :
    Ownership w := by
  obtain ⟨content, membership, as, hr⟩ := h
  exact run_preserves Ownership (fun _ _ _ ho hs => ho.preserved (step_tableChange hs)) hr
    (init_ownership content membership)

/-- A listed key has one holder, and an unlisted one has none. -/
theorem Ownership.listed_iff {w : World Raw} (h : Ownership w) (c : ClientId) (k : String) :
    (∃ f, (w.inFlight c).get? k = some f) ↔ ∃! i, ∃ f, Holds w i c k f := by
  constructor
  · rintro ⟨f, hf⟩
    obtain ⟨i, hi⟩ := h.running c k f hf
    refine ⟨i, ⟨f, hi⟩, ?_⟩
    rintro j ⟨g, hj⟩
    exact h.unique hj hi
  · rintro ⟨i, ⟨f, hi⟩, -⟩
    exact ⟨f, h.registered i c k f hi⟩

/-- An entry that disappears or changes in a step was held by a read that the
same step ends. -/
theorem Ownership.removed_by_holder {w v : World Raw} (h : Ownership w) (hch : TableChange w v)
    {c : ClientId} {k : String} {f : FutureId} (hf : (w.inFlight c).get? k = some f)
    (hv : (v.inFlight c).get? k ≠ some f) :
    ∃ i, Holds w i c k f ∧ ∀ c' k' f', ¬Holds v i c' k' f' := by
  cases hch with
  | keeps hh ht hc => exact absurd (by rw [ht]; exact hf) hv
  | registers i c' k' hfree hh ht hc =>
    rw [ht, get?_update] at hv
    split_ifs at hv with hcc
    · subst hcc
      rw [OrderedDict.get?_set] at hv
      split_ifs at hv with hk
      · subst hk
        rw [hfree] at hf
        cases hf
      · exact absurd hf hv
    · exact absurd hf hv
  | releases i c' k' f' hi hh ht hc =>
    rw [ht, get?_update] at hv
    have hgone : ∀ c₁ k₁ f₁, ¬Holds v i c₁ k₁ f₁ := fun c₁ k₁ f₁ hv' =>
      ((hh i c₁ k₁ f₁).mp hv').2 rfl
    split_ifs at hv with hcc
    · subst hcc
      rw [OrderedDict.get?_pop] at hv
      split_ifs at hv with hk
      · subst hk
        have hreg := h.registered _ _ _ _ hi
        rw [hf] at hreg
        cases hreg
        exact ⟨i, hi, hgone⟩
      · exact absurd hf hv
    · exact absurd hf hv

/-- In-flight table ownership. In every reachable state: a client lists a lock
key exactly when one running read of that client is between registering it and
its finally clause, and the entry is the future that this read created; at most
one Helios fetch of a pair is outstanding; an entry is only ever removed by the
step that ends the read that holds it; and with no read running the table is
empty. -/
theorem inFlight_owned_by_running_read {cfg : Config Raw} {w : World Raw}
    (h : Reachable cfg w) (c : ClientId) :
    (∀ k, (∃ f, (w.inFlight c).get? k = some f) ↔ ∃! i, ∃ f, Holds w i c k f) ∧
    (∀ k f, (w.inFlight c).get? k = some f → ∃ i, Holds w i c k f ∧ creatorOf w f = some i) ∧
    (∀ (i j : ReadId) (r s : ReadCall Raw) (f g : FutureId), w.reads[i]? = some r →
      w.reads[j]? = some s → r.client = c → s.client = c → r.userId = s.userId →
      r.tenantId = s.tenantId → r.pc = .heliosFetch f → s.pc = .heliosFetch g → i = j) ∧
    (∀ a w' k f, step cfg w a = some w' → (w.inFlight c).get? k = some f →
      (w'.inFlight c).get? k ≠ some f →
      ∃ i, Holds w i c k f ∧ ∀ c' k' f', ¬Holds w' i c' k' f') ∧
    ((∀ (i : ReadId) (r : ReadCall Raw), w.reads[i]? = some r → r.client = c →
      r.pc.isDone = true) → ∀ k, (w.inFlight c).get? k = none) := by
  have ho := reachable_ownership h
  refine ⟨ho.listed_iff c, ?_, ?_, ?_, ?_⟩
  · intro k f hf
    obtain ⟨i, hi⟩ := ho.running c k f hf
    exact ⟨i, hi, ho.created i c k f hi⟩
  · intro i j r s f g hr hs hrc hsc hu ht hpr hps
    have hi : Holds w i c r.lock f := ⟨r, hr, hrc, rfl, by rw [hpr]; rfl⟩
    have hlock : s.lock = r.lock := by rw [ReadCall.lock, ReadCall.lock, hu, ht]
    have hj : Holds w j c r.lock g := ⟨s, hs, hsc, hlock, by rw [hps]; rfl⟩
    exact ho.unique hi hj
  · intro a w' k f hs hf hv
    exact ho.removed_by_holder (step_tableChange hs) hf hv
  · intro hdone k
    cases hk : (w.inFlight c).get? k with
    | none => rfl
    | some f =>
      obtain ⟨i, r, hr, hc, -, hown⟩ := ho.running c k f hk
      have hd := hdone i r hr hc
      rw [(ReadPc.of_owned hown).1] at hd
      cases hd

/-- Two reads of one pair after their GETs have missed: the first leads, and the
second has joined it. -/
def joinedRun : List Action :=
  [.read 0 "user-1" "tenant-1" .getUserPermissions, .read 0 "user-1" "tenant-1" .getUserPermissions,
    .serveRead 0 .executes, .serveRead 1 .executes, .resumeRead 0, .resumeRead 1]

/-- Exactly one of them holds the lock. -/
theorem inFlight_owned_joinedRun :
    ∃! i, ∃ f, Holds (endOf true joinedRun) i 0 "user-1:tenant-1" f :=
  ((inFlight_owned_by_running_read (reachable_endOf rfl) 0).1
    "user-1:tenant-1").mp ⟨0, rfl⟩

end HeliosPermissions.InFlightTable
