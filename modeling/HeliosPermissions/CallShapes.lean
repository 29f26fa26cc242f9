import HeliosPermissions.CallHistory

/-!
# Commands in flight and the calls behind them

What a suspended call has sent follows from where it is suspended and from its
arguments: a read only ever sends the GET of its own key and the SET NX of a
list that its own Helios sample resolved to, and a mutating call only sends
what its request asks for. The stamps of a call are in order. Everything here
is about one call at a time and holds in every reachable state.
-/

namespace HeliosPermissions.CallShapes

open JsonValues CacheKeys CacheStore HeliosResolution ClientWorld PartialRuns InFlightTable
open CallHistory

variable {Raw : Type}

/-- The list that Helios resolved a read to, when it was sampled. -/
def ReadResolved (r : ReadCall Raw) (perms : List Json) : Prop :=
  ∃ n outcome, r.sampled = some (n, outcome) ∧
    fetchEnd r.userId r.tenantId outcome = .resolved perms

/-- What a read has resolved to stays resolved. -/
theorem ReadResolved.later {r r' : ReadCall Raw} {perms : List Json} (h : ReadResolved r perms)
    (hu : r'.userId = r.userId) (ht : r'.tenantId = r.tenantId)
    (hs : ∀ x, r.sampled = some x → r'.sampled = some x) : ReadResolved r' perms := by
  obtain ⟨n, outcome, hsam, he⟩ := h
  exact ⟨n, outcome, hs _ hsam, by rw [hu, ht]; exact he⟩

/-- How the parts of a read fit together. -/
structure ReadShape (cfg : Config Raw) (r : ReadCall Raw) : Prop where
  /-- A command on its way is the GET, or a populate with what Helios said. -/
  command : ∀ cmd, r.port = .sent cmd → cmd = .get (cfg.backend.key r.userId r.tenantId) ∨
    ∃ perms, cmd = populateCommand cfg r.userId r.tenantId perms ∧ ReadResolved r perms
  /-- Before its GET is answered a read has sent nothing else. -/
  getting : r.pc = .cacheGet → r.sampled = none ∧
    ∀ cmd, r.port = .sent cmd → cmd = .get (cfg.backend.key r.userId r.tenantId)
  /-- A joiner never asks Helios and has no command on its way. -/
  joining : ∀ f, r.pc = .joined f → r.sampled = none ∧ ∃ reply, r.port = .replied reply
  /-- Nor has a leader at Helios. -/
  fetching : ∀ f, r.pc = .heliosFetch f → ∃ reply, r.port = .replied reply
  /-- What a leader populates is what Helios said. -/
  populating : ∀ f perms, r.pc = .cacheSet f perms → ReadResolved r perms

/-- A new read has the shape of one that waits for its GET. -/
theorem start_readShape (cfg : Config Raw) (now : ℕ) (c : ClientId) (u t : String) (ask : Ask) :
    ReadShape cfg (.start cfg now c u t ask) where
  command cmd h := by
    cases h
    exact Or.inl rfl
  getting _ := by
    refine ⟨rfl, ?_⟩
    intro cmd h
    cases h
    rfl
  joining f h := by cases h
  fetching f h := by cases h
  populating f perms h := by cases h

/-- A step keeps the shape of a read. -/
theorem ReadShape.moves {cfg : Config Raw} {w v : World Raw} {i : ReadId} {r r' : ReadCall Raw}
    (h : ReadShape cfg r) {a : Action} (hmove : ReadMove cfg w v i r a r') : ReadShape cfg r' := by
  cases hmove with
  | served hport hs =>
    refine ⟨?_, ?_, ?_, ?_, h.populating⟩
    · intro cmd hsent
      cases hsent
    · intro hpc
      refine ⟨(h.getting hpc).1, ?_⟩
      intro cmd hsent
      cases hsent
    · intro f hpc
      exact ⟨(h.joining f hpc).1, _, rfl⟩
    · intro f hpc
      exact ⟨_, rfl⟩
  | sampled fate hpc hn =>
    have hkeep : ∀ perms, ReadResolved r perms → ReadResolved
        { r with sampled := some (w.clock, fate.outcome (w.membership r.userId r.tenantId)) }
        perms := by
      rintro perms ⟨n, outcome, hsam, he⟩
      rw [hn] at hsam
      cases hsam
    refine ⟨?_, ?_, ?_, h.fetching, ?_⟩
    · intro cmd hsent
      rcases h.command cmd hsent with hget | ⟨perms, hcmd, hres⟩
      · exact Or.inl hget
      · exact Or.inr ⟨perms, hcmd, hkeep perms hres⟩
    · intro hget
      rw [hpc] at hget
      cases hget
    · intro f hjoin
      rw [hpc] at hjoin
      cases hjoin
    · intro f perms hset
      rw [hpc] at hset
      cases hset
  | marked b hd => exact ⟨h.command, h.getting, h.joining, h.fetching, h.populating⟩
  | leads hpc hport hd hf =>
    refine ⟨h.command, ?_, ?_, ?_, ?_⟩
    · intro hget
      cases hget
    · intro f hjoin
      cases hjoin
    · intro f hfetch
      exact ⟨_, hport⟩
    · intro f perms hset
      cases hset
  | joins hm hfind hs =>
    obtain ⟨reply, hport, -⟩ := hfind.missed
    refine ⟨h.command, ?_, ?_, ?_, ?_⟩
    · intro hget
      cases hget
    · intro f hjoin
      exact ⟨(h.getting hfind.hpc).1, reply, hport⟩
    · intro f hfetch
      cases hfetch
    · intro f perms hset
      cases hset
  | @populates f n outcome perms hpc hsam he =>
    have hres : ReadResolved r perms := ⟨n, outcome, hsam, he⟩
    refine ⟨?_, ?_, ?_, ?_, ?_⟩
    · intro cmd hsent
      cases hsent
      exact Or.inr ⟨perms, rfl, hres⟩
    · intro hget
      cases hget
    · intro g hjoin
      cases hjoin
    · intro g hfetch
      cases hfetch
    · intro g perms' hset
      cases hset
      exact hres
  | ends hend =>
    refine ⟨h.command, ?_, ?_, ?_, ?_⟩
    · intro hget
      cases hget
    · intro f hjoin
      cases hjoin
    · intro f hfetch
      cases hfetch
    · intro f perms hset
      cases hset

/-- The order of the stamps of a read. -/
structure ReadStamps (now : ℕ) (r : ReadCall Raw) : Prop where
  /-- It began before now. -/
  began : r.began < now
  /-- Its sample lies between its beginning and now. -/
  sampled : ∀ n outcome, r.sampled = some (n, outcome) → r.began < n ∧ n < now
  /-- Its end lies between its beginning and now. -/
  ended : ∀ e, r.ended = some e → r.began < e ∧ e < now

/-- Stamps in order stay in order as the clock goes on. -/
theorem ReadStamps.later {now now' : ℕ} {r : ReadCall Raw} (h : ReadStamps now r)
    (hle : now ≤ now') : ReadStamps now' r where
  began := Nat.lt_of_lt_of_le h.began hle
  sampled n outcome hs :=
    ⟨(h.sampled n outcome hs).1, Nat.lt_of_lt_of_le (h.sampled n outcome hs).2 hle⟩
  ended e he := ⟨(h.ended e he).1, Nat.lt_of_lt_of_le (h.ended e he).2 hle⟩

/-- A move keeps the stamps of a read in order. -/
theorem ReadStamps.moves {cfg : Config Raw} {w v : World Raw} {i : ReadId} {r r' : ReadCall Raw}
    (h : ReadStamps w.clock r) {a : Action} (hmove : ReadMove cfg w v i r a r') :
    ReadStamps (w.clock + 1) r' := by
  have hlater := h.later (Nat.le_succ w.clock)
  cases hmove with
  | sampled fate hpc hn =>
    refine ⟨hlater.began, ?_, hlater.ended⟩
    intro n outcome hs
    cases hs
    exact ⟨h.began, Nat.lt_succ_self _⟩
  | ends hend =>
    refine ⟨hlater.began, hlater.sampled, ?_⟩
    intro e he
    cases he
    exact ⟨h.began, Nat.lt_succ_self _⟩
  | _ => exact ⟨hlater.began, hlater.sampled, hlater.ended⟩

/-- What the bulk invalidations scan for. -/
def requestScope : MutationRequest → Option Scope
  | .invalidate u none => some (.user u)
  | .invalidateTenant t => some (.tenant t)
  | _ => none

/-- How the parts of a mutating call fit together. -/
inductive MutationShape (cfg : Config Raw) (m : MutationCall Raw) : Prop
  | writing {u t : String} {perms : List Json} (hq : m.request = .writeThrough u t perms)
      (hpc : m.pc = .writing) (hport : ∀ cmd, m.port = .sent cmd →
        cmd = .set (cfg.backend.key u t) (cfg.backend.dumps perms) cfg.backend.ex false)
  | deleting {u t : String} (hq : m.request = .invalidate u (some t)) (hpc : m.pc = .deleting)
      (hport : ∀ cmd, m.port = .sent cmd → cmd = .delete [cfg.backend.key u t])
  | scanning {scope : Scope} {total : ℕ} (hq : requestScope m.request = some scope)
      (hpc : m.pc = .scanning scope total)
      (hport : ∀ cmd, m.port = .sent cmd → ∃ cursor, cmd = .scan cursor scope)
  | deletingPage {scope : Scope} {total cursor : ℕ} (hq : requestScope m.request = some scope)
      (hpc : m.pc = .deletingPage scope total cursor)
      (hport : ∀ cmd, m.port = .sent cmd → ∃ ks, cmd = .delete ks)
  | done {outcome : Except PyError ℕ} (hpc : m.pc = .done outcome)
      (hport : ∃ reply, m.port = .replied reply)

/-- A call with a command on its way has not ended. -/
theorem MutationShape.not_done {cfg : Config Raw} {m : MutationCall Raw} {cmd : Command Raw}
    (h : MutationShape cfg m) (hport : m.port = .sent cmd) (o : Except PyError ℕ) :
    m.pc ≠ .done o := by
  intro hd
  cases h with
  | done hpc hrep =>
    obtain ⟨reply, hrep⟩ := hrep
    rw [hport] at hrep
    cases hrep
  | writing _ hpc => rw [hd] at hpc; cases hpc
  | deleting _ hpc => rw [hd] at hpc; cases hpc
  | scanning _ hpc => rw [hd] at hpc; cases hpc
  | deletingPage _ hpc => rw [hd] at hpc; cases hpc

/-- Only a `write_through` awaits a SET. -/
theorem MutationShape.of_writing {cfg : Config Raw} {m : MutationCall Raw}
    (h : MutationShape cfg m) (hw : m.pc = .writing) :
    ∃ u t perms, m.request = .writeThrough u t perms := by
  cases h with
  | writing hq => exact ⟨_, _, _, hq⟩
  | deleting _ hpc => rw [hw] at hpc; cases hpc
  | scanning _ hpc => rw [hw] at hpc; cases hpc
  | deletingPage _ hpc => rw [hw] at hpc; cases hpc
  | done hpc => rw [hw] at hpc; cases hpc

/-- A new mutating call has the shape of its first command. -/
theorem start_mutationShape (cfg : Config Raw) (now : ℕ) (request : MutationRequest) :
    MutationShape cfg (.start cfg now request) := by
  cases request with
  | writeThrough u t perms =>
    refine .writing rfl rfl ?_
    intro cmd h
    cases h
    rfl
  | invalidate u t? =>
    cases t? with
    | none =>
      refine .scanning rfl rfl ?_
      intro cmd h
      cases h
      exact ⟨0, rfl⟩
    | some t =>
      refine .deleting rfl rfl ?_
      intro cmd h
      cases h
      rfl
  | invalidateTenant t =>
    refine .scanning rfl rfl ?_
    intro cmd h
    cases h
    exact ⟨0, rfl⟩

/-- A bulk invalidation after a page is dealt with: it ends at cursor zero and
scans on otherwise. -/
theorem advance_scan {now : ℕ} {m m' : MutationCall Raw} {reply : Reply Raw}
    {scope : Scope} {total : ℕ} (hpc : m.pc = .scanning scope total)
    (h : m.advance now reply = some m') :
    (reply = .failed ∧ m' = { m with pc := .done (.error .redisError), ended := some now }) ∨
    ∃ cursor keys, reply = .page cursor keys ∧
      ((keys = [] ∧ cursor = 0 ∧ m' = { m with pc := .done (.ok total), ended := some now }) ∨
       (keys = [] ∧ cursor ≠ 0 ∧
          m' = { m with pc := .scanning scope total, port := .sent (.scan cursor scope) }) ∨
       (keys ≠ [] ∧ m' = { m with
          pc := .deletingPage scope total cursor, port := .sent (.delete keys) })) := by
  cases reply with
  | failed =>
    simp only [MutationCall.advance, hpc, Option.some.injEq] at h
    exact Or.inl ⟨rfl, h.symm⟩
  | page cursor keys =>
    simp only [MutationCall.advance, hpc] at h
    refine Or.inr ⟨cursor, keys, rfl, ?_⟩
    split_ifs at h with hkeys hcursor
    · exact Or.inl ⟨hkeys, hcursor, (Option.some.inj h).symm⟩
    · exact Or.inr (Or.inl ⟨hkeys, hcursor, (Option.some.inj h).symm⟩)
    · exact Or.inr (Or.inr ⟨hkeys, (Option.some.inj h).symm⟩)
  | value raw => simp [MutationCall.advance, hpc] at h
  | stored b => simp [MutationCall.advance, hpc] at h
  | deleted n => simp [MutationCall.advance, hpc] at h

/-- A bulk invalidation after the DEL of a page. -/
theorem advance_deletingPage {now : ℕ} {m m' : MutationCall Raw} {reply : Reply Raw}
    {scope : Scope} {total cursor : ℕ} (hpc : m.pc = .deletingPage scope total cursor)
    (h : m.advance now reply = some m') :
    (reply = .failed ∧ m' = { m with pc := .done (.error .redisError), ended := some now }) ∨
    ∃ count, reply = .deleted count ∧
      ((cursor = 0 ∧ m' = { m with pc := .done (.ok (total + count)), ended := some now }) ∨
       (cursor ≠ 0 ∧ m' = { m with
          pc := .scanning scope (total + count), port := .sent (.scan cursor scope) })) := by
  cases reply with
  | failed =>
    simp only [MutationCall.advance, hpc, Option.some.injEq] at h
    exact Or.inl ⟨rfl, h.symm⟩
  | deleted count =>
    simp only [MutationCall.advance, hpc] at h
    refine Or.inr ⟨count, rfl, ?_⟩
    split_ifs at h with hcursor
    · exact Or.inl ⟨hcursor, (Option.some.inj h).symm⟩
    · exact Or.inr ⟨hcursor, (Option.some.inj h).symm⟩
  | value raw => simp [MutationCall.advance, hpc] at h
  | stored b => simp [MutationCall.advance, hpc] at h
  | page c keys => simp [MutationCall.advance, hpc] at h

/-- The single-pair calls end with the reply to their one command. -/
theorem advance_single {now : ℕ} {m m' : MutationCall Raw} {reply : Reply Raw}
    (hpc : m.pc = .writing ∨ m.pc = .deleting) (h : m.advance now reply = some m') :
    ∃ outcome, m' = { m with pc := .done outcome, ended := some now } ∧
      (m.pc = .deleting → outcome.isOk = true → ∃ count, reply = .deleted count) := by
  rcases hpc with hpc | hpc
  · simp only [MutationCall.advance, hpc, Option.some.injEq] at h
    refine ⟨_, h.symm, ?_⟩
    intro hdel
    rw [hpc] at hdel
    cases hdel
  · cases reply with
    | failed =>
      simp only [MutationCall.advance, hpc, Option.some.injEq] at h
      refine ⟨_, h.symm, ?_⟩
      intro _ hok
      cases hok
    | deleted count =>
      simp only [MutationCall.advance, hpc, Option.some.injEq] at h
      exact ⟨_, h.symm, fun _ _ => ⟨count, rfl⟩⟩
    | value raw => simp [MutationCall.advance, hpc] at h
    | stored b => simp [MutationCall.advance, hpc] at h
    | page c keys => simp [MutationCall.advance, hpc] at h

/-- A step keeps the shape of a mutating call. -/
theorem MutationShape.moves {cfg : Config Raw} {w : World Raw} {j : MutationId}
    {m m' : MutationCall Raw} (h : MutationShape cfg m) {a : Action}
    (hmove : MutationMove cfg w j m a m') : MutationShape cfg m' := by
  cases hmove with
  | served hport hs =>
    cases h with
    | writing hq hpc _ => exact .writing hq hpc fun cmd hsent => by cases hsent
    | deleting hq hpc _ => exact .deleting hq hpc fun cmd hsent => by cases hsent
    | scanning hq hpc _ => exact .scanning hq hpc fun cmd hsent => by cases hsent
    | deletingPage hq hpc _ => exact .deletingPage hq hpc fun cmd hsent => by cases hsent
    | done hpc _ => exact .done hpc ⟨_, rfl⟩
  | resumed hport ha =>
    cases h with
    | writing hq hpc _ =>
      obtain ⟨outcome, rfl, -⟩ := advance_single (Or.inl hpc) ha
      exact .done rfl ⟨_, hport⟩
    | deleting hq hpc _ =>
      obtain ⟨outcome, rfl, -⟩ := advance_single (Or.inr hpc) ha
      exact .done rfl ⟨_, hport⟩
    | scanning hq hpc _ =>
      rcases advance_scan hpc ha with ⟨-, rfl⟩ | ⟨cursor, keys, -, hnext⟩
      · exact .done rfl ⟨_, hport⟩
      · rcases hnext with ⟨-, -, rfl⟩ | ⟨-, -, rfl⟩ | ⟨-, rfl⟩
        · exact .done rfl ⟨_, hport⟩
        · refine .scanning hq rfl ?_
          intro cmd hsent
          cases hsent
          exact ⟨cursor, rfl⟩
        · refine .deletingPage hq rfl ?_
          intro cmd hsent
          cases hsent
          exact ⟨keys, rfl⟩
    | deletingPage hq hpc _ =>
      rcases advance_deletingPage hpc ha with ⟨-, rfl⟩ | ⟨count, -, hnext⟩
      · exact .done rfl ⟨_, hport⟩
      · rcases hnext with ⟨-, rfl⟩ | ⟨-, rfl⟩
        · exact .done rfl ⟨_, hport⟩
        · refine .scanning hq rfl ?_
          intro cmd hsent
          cases hsent
          exact ⟨_, rfl⟩
    | done hpc _ => simp [MutationCall.advance, hpc] at ha

/-- The order of the stamps of a mutating call. -/
structure MutationStamps (now : ℕ) (m : MutationCall Raw) : Prop where
  /-- It began before now. -/
  began : m.began < now
  /-- Its end lies between its beginning and now. -/
  ended : ∀ e, m.ended = some e → m.began < e ∧ e < now
  /-- A running call has no end yet. -/
  running : (∀ o, m.pc ≠ .done o) → m.ended = none

/-- Stamps in order stay in order as the clock goes on. -/
theorem MutationStamps.later {now now' : ℕ} {m : MutationCall Raw} (h : MutationStamps now m)
    (hle : now ≤ now') : MutationStamps now' m where
  began := Nat.lt_of_lt_of_le h.began hle
  ended e he := ⟨(h.ended e he).1, Nat.lt_of_lt_of_le (h.ended e he).2 hle⟩
  running := h.running

/-- A resumed call ends now or keeps running. -/
theorem advance_ended {now : ℕ} {m m' : MutationCall Raw} {reply : Reply Raw}
    (h : m.advance now reply = some m') :
    (∃ o, m.pc ≠ .done o ∧ m'.pc = .done o ∧ m'.ended = some now) ∨
      ((∀ o, m'.pc ≠ .done o) ∧ (∀ o, m.pc ≠ .done o) ∧ m'.ended = m.ended) := by
  cases hpc : m.pc with
  | writing =>
    obtain ⟨o, rfl, -⟩ := advance_single (Or.inl hpc) h
    exact Or.inl ⟨o, by simp, rfl, rfl⟩
  | deleting =>
    obtain ⟨o, rfl, -⟩ := advance_single (Or.inr hpc) h
    exact Or.inl ⟨o, by simp, rfl, rfl⟩
  | scanning scope total =>
    rcases advance_scan hpc h with ⟨-, rfl⟩ | ⟨cursor, keys, -, hnext⟩
    · exact Or.inl ⟨_, by simp, rfl, rfl⟩
    · rcases hnext with ⟨-, -, rfl⟩ | ⟨-, -, rfl⟩ | ⟨-, rfl⟩
      · exact Or.inl ⟨_, by simp, rfl, rfl⟩
      · exact Or.inr ⟨by simp, by simp, rfl⟩
      · exact Or.inr ⟨by simp, by simp, rfl⟩
  | deletingPage scope total cursor =>
    rcases advance_deletingPage hpc h with ⟨-, rfl⟩ | ⟨count, -, hnext⟩
    · exact Or.inl ⟨_, by simp, rfl, rfl⟩
    · rcases hnext with ⟨-, rfl⟩ | ⟨-, rfl⟩
      · exact Or.inl ⟨_, by simp, rfl, rfl⟩
      · exact Or.inr ⟨by simp, by simp, rfl⟩
  | done o => simp [MutationCall.advance, hpc] at h

/-- A move keeps the stamps of a mutating call in order. -/
theorem MutationStamps.moves {cfg : Config Raw} {w : World Raw} {j : MutationId}
    {m m' : MutationCall Raw} (h : MutationStamps w.clock m) {a : Action}
    (hmove : MutationMove cfg w j m a m') : MutationStamps (w.clock + 1) m' := by
  have hlater := h.later (Nat.le_succ w.clock)
  cases hmove with
  | served hport hs => exact ⟨hlater.began, hlater.ended, hlater.running⟩
  | resumed hport ha =>
    have hbegan : m'.began = m.began := (advance_same_call ha).2.1
    rcases advance_ended ha with ⟨o, -, hdone, hended⟩ | ⟨hrun', hrun, hended⟩
    · refine ⟨by rw [hbegan]; exact hlater.began, ?_, ?_⟩
      · intro e he
        rw [hended] at he
        cases he
        exact ⟨by rw [hbegan]; exact h.began, Nat.lt_succ_self _⟩
      · intro hrun
        exact absurd hdone (hrun o)
    · refine ⟨by rw [hbegan]; exact hlater.began, ?_, ?_⟩
      · intro e he
        rw [hended, h.running hrun] at he
        cases he
      · intro _
        rw [hended]
        exact h.running hrun

/-- Every call of a world has its shape and its stamps in order. -/
structure CallsShaped (cfg : Config Raw) (w : World Raw) : Prop where
  /-- Every read has its shape. -/
  reads : ∀ (i : ReadId) (r : ReadCall Raw), w.reads[i]? = some r → ReadShape cfg r
  /-- The stamps of every read are in order. -/
  readStamps : ∀ (i : ReadId) (r : ReadCall Raw), w.reads[i]? = some r → ReadStamps w.clock r
  /-- Every mutating call has its shape. -/
  mutations : ∀ (j : MutationId) (m : MutationCall Raw), w.mutations[j]? = some m →
    MutationShape cfg m
  /-- The stamps of every mutating call are in order. -/
  mutationStamps : ∀ (j : MutationId) (m : MutationCall Raw), w.mutations[j]? = some m →
    MutationStamps w.clock m

/-- Every step advances the clock by one. -/
theorem step_clock {cfg : Config Raw} {w w' : World Raw} {a : Action}
    (h : step cfg w a = some w') : w'.clock = w.clock + 1 := by
  obtain ⟨v, hv, rfl⟩ := step_transition h
  rw [← transition_clock hv]
  rfl

/-- A step keeps the calls in their shapes. -/
theorem CallsShaped.preserved {cfg : Config Raw} {w w' : World Raw} {a : Action}
    (h : CallsShaped cfg w) (hs : step cfg w a = some w') : CallsShaped cfg w' where
  reads i r' hr' := by
    rcases read_before hs hr' with hold | ⟨c, u, t, ask, -, -, rfl⟩ | ⟨r, hr, hmove⟩
    · exact h.reads i r' hold
    · exact start_readShape cfg w.clock c u t ask
    · exact (h.reads i r hr).moves hmove
  readStamps i r' hr' := by
    rw [step_clock hs]
    rcases read_before hs hr' with hold | ⟨c, u, t, ask, -, -, rfl⟩ | ⟨r, hr, hmove⟩
    · exact (h.readStamps i r' hold).later (Nat.le_succ _)
    · refine ⟨Nat.lt_succ_self _, ?_, ?_⟩
      · intro n outcome hsam
        cases hsam
      · intro e he
        cases he
    · exact (h.readStamps i r hr).moves hmove
  mutations j m' hm' := by
    rcases mutation_before hs hm' with hold | ⟨request, -, -, rfl⟩ | ⟨m, hm, hmove⟩
    · exact h.mutations j m' hold
    · exact start_mutationShape cfg w.clock request
    · exact (h.mutations j m hm).moves hmove
  mutationStamps j m' hm' := by
    rw [step_clock hs]
    rcases mutation_before hs hm' with hold | ⟨request, -, -, rfl⟩ | ⟨m, hm, hmove⟩
    · exact (h.mutationStamps j m' hold).later (Nat.le_succ _)
    · refine ⟨Nat.lt_succ_self _, ?_, ?_⟩
      · intro e he
        cases he
      · intro _
        rfl
    · exact (h.mutationStamps j m hm).moves hmove

/-- At the start there is no call. -/
theorem init_callsShaped (cfg : Config Raw) (content : OrderedDict String (Raw × Option ℕ))
    (membership : String → String → Json) : CallsShaped cfg (.init content membership) where
  reads i r h := by cases h
  readStamps i r h := by cases h
  mutations j m h := by cases h
  mutationStamps j m h := by cases h

/-- A run keeps the calls in their shapes. -/
theorem CallsShaped.along {cfg : Config Raw} {w w' : World Raw} {as : List Action}
    (h : CallsShaped cfg w) (hr : run (step cfg) w as = some w') :
    CallsShaped cfg w' :=
  run_preserves (CallsShaped cfg) (fun _ _ _ hw hs => hw.preserved hs) hr h

/-- The calls of a reachable world have their shapes. -/
theorem reachable_callsShaped {cfg : Config Raw} {w : World Raw} (h : Reachable cfg w) :
    CallsShaped cfg w := by
  obtain ⟨content, membership, as, hr⟩ := h
  exact (init_callsShaped cfg content membership).along hr

end HeliosPermissions.CallShapes
