import HeliosPermissions.RunsToCompletion

/-!
# How much a read does before it ends

A read sends its GET and, when it leads a fetch, one SET; it asks Helios at most once,
and it is resumed once for each of its awaits. So its moves are counted, over every
interleaving with the other calls, and reads whose leaders do not leave their futures
pending all end.
-/

namespace HeliosPermissions.BoundedReads

open JsonValues CacheStore HeliosResolution ClientWorld PartialRuns IndexedTables InFlightTable
open CallHistory CallShapes StrandedWaiters RunsToCompletion

variable {Raw : Type}

/-- The server deals with a command of this read. -/
def servesRead (i : ReadId) : Action → Bool
  | .serveRead j _ => j = i
  | _ => false

/-- Helios deals with a request of this read. -/
def samplesRead (i : ReadId) : Action → Bool
  | .sample j _ => j = i
  | _ => false

/-- The event loop runs this read. -/
def resumesRead (i : ReadId) : Action → Bool
  | .resumeRead j => j = i
  | _ => false

/-- One of the three. -/
def movesRead (i : ReadId) (a : Action) : Bool :=
  servesRead i a || samplesRead i a || resumesRead i a

/-- Whatever carries a read on moves it. -/
theorem readMove_of_moves {cfg : Config Raw} {w w' : World Raw} {a : Action} {i : ReadId}
    (h : step cfg w a = some w') (ha : movesRead i a = true) :
    ∃ r r', w.reads[i]? = some r ∧ w'.reads[i]? = some r' ∧ ReadMove cfg w w' i r a r' := by
  cases a with
  | serveRead j fate =>
    obtain rfl : j = i := by simpa [movesRead, servesRead, samplesRead, resumesRead] using ha
    obtain ⟨v, hv, rfl⟩ := step_transition h
    cases hv with
    | readServed hr hport hs => exact ⟨_, _, hr, get_set_self hr, .served hport hs⟩
  | sample j fate =>
    obtain rfl : j = i := by simpa [movesRead, servesRead, samplesRead, resumesRead] using ha
    obtain ⟨v, hv, rfl⟩ := step_transition h
    cases hv with
    | sampled fate hr hpc hn => exact ⟨_, _, hr, get_set_self hr, .sampled fate hpc hn⟩
  | resumeRead j =>
    obtain rfl : j = i := by simpa [movesRead, servesRead, samplesRead, resumesRead] using ha
    exact resume_readMove h
  | _ => cases ha

section counts

variable {cfg : Config Raw} {i : ReadId} {p : Action → Bool} {B : ℕ → ReadCall Raw → Prop}

/-- Count rule for one read: what relates the number of some of its moves to the read, at
its start and after every move of it, does so at the end of every run. Before its call a
read makes no move. -/
theorem count_of_read (hp : ∀ a, p a = true → movesRead i a = true)
    (hstart : ∀ now c u t ask, B 0 (.start cfg now c u t ask))
    (hmove : ∀ n w w' r a r', B n r → ReadMove cfg w w' i r a r' →
      B (n + if p a then 1 else 0) r')
    {content : OrderedDict String (Raw × Option ℕ)} {membership : String → String → Json}
    {as : List Action} {w : World Raw}
    (hr : run (step cfg) (.init content membership) as = some w) :
    (∀ r, w.reads[i]? = some r → B (as.countP p) r) ∧
      (w.reads[i]? = none → as.countP p = 0) := by
  let Q : ℕ → World Raw → Prop := fun n w =>
    (∀ r, w.reads[i]? = some r → B n r) ∧ (w.reads[i]? = none → n = 0)
  have hstep : ∀ n w a w', Q n w → step cfg w a = some w' → Q (n + if p a then 1 else 0) w' := by
    intro n w a w' hq hs
    cases ha : p a with
    | true =>
      obtain ⟨r, r', hr, hr', hm⟩ := readMove_of_moves hs (hp a ha)
      have hB := hmove n w w' r a r' (hq.1 r hr) hm
      rw [ha] at hB
      refine ⟨fun s hs' => ?_, fun hnone => ?_⟩
      · obtain rfl := Option.some.inj (hr'.symm.trans hs')
        exact hB
      · rw [hr'] at hnone
        cases hnone
    | false =>
      refine ⟨fun r' hr' => ?_, fun hnone => hq.2 ?_⟩
      · rcases read_before hs hr' with hold | ⟨c, u, t, ask, -, hi, rfl⟩ | ⟨r, hr, hm⟩
        · exact hq.1 r' hold
        · have hn : n = 0 := hq.2 (List.getElem?_eq_none_iff.mpr (Nat.le_of_eq hi.symm))
          subst hn
          exact hstart w.clock c u t ask
        · have hB := hmove n w w' r a r' (hq.1 r hr) hm
          rwa [ha] at hB
      · cases hr : w.reads[i]? with
        | none => rfl
        | some r =>
          obtain ⟨r', hr', -⟩ := read_after hs hr
          rw [hr'] at hnone
          cases hnone
  have hq : Q (0 + as.countP p) w := run_count hstep hr ⟨fun r h => (nomatch h), fun _ => rfl⟩
  rwa [Nat.zero_add] at hq

end counts

/-- The cache commands that a read sends, by where its answer comes from. -/
@[simp] def commandsVia : Via → ℕ
  | .cache => 1
  | .led _ => 2
  | .joined _ => 1

/-- The requests to Helios. -/
@[simp] def fetchesVia : Via → ℕ
  | .led _ => 1
  | _ => 0

/-- The times that the event loop runs it. -/
@[simp] def resumptionsVia : Via → ℕ
  | .cache => 1
  | .led _ => 3
  | .joined _ => 2

/-- What a read has sent so far. -/
@[simp] def commandsAt : ReadPc → ℕ
  | .cacheGet => 1
  | .joined _ => 1
  | .heliosFetch _ => 1
  | .cacheSet _ _ => 2
  | .done _ via => commandsVia via

/-- What it has asked of Helios so far. -/
@[simp] def fetchesAt : ReadPc → ℕ
  | .heliosFetch _ => 1
  | .cacheSet _ _ => 1
  | .done _ via => fetchesVia via
  | _ => 0

/-- How often it has run so far. -/
@[simp] def resumptionsAt : ReadPc → ℕ
  | .cacheGet => 0
  | .joined _ => 1
  | .heliosFetch _ => 1
  | .cacheSet _ _ => 2
  | .done _ via => resumptionsVia via

/-- A command on its way. -/
def waiting : Port Raw → ℕ
  | .sent _ => 1
  | .replied _ => 0

/-- A read ends within the budget of the way that it ends. -/
theorem readEnd_budget {cfg : Config Raw} {w v : World Raw} {r : ReadCall Raw} {o : Outcome}
    {via : Via} (h : ReadEnd cfg w v r o via) : commandsAt r.pc ≤ commandsVia via ∧
      fetchesAt r.pc ≤ fetchesVia via ∧ resumptionsAt r.pc + 1 ≤ resumptionsVia via := by
  have howned {f : FutureId} (ho : r.pc.owned = some f) : commandsAt r.pc ≤ 2 ∧
      fetchesAt r.pc ≤ 1 ∧ resumptionsAt r.pc + 1 ≤ 3 := by
    cases hpc : r.pc with
    | heliosFetch g => simp
    | cacheSet g perms => simp
    | cacheGet => rw [hpc] at ho; cases ho
    | joined g => rw [hpc] at ho; cases ho
    | done o' via' => rw [hpc] at ho; cases ho
  cases h with
  | cancelled hm hd =>
    cases hpc : r.pc with
    | done o' via' => rw [hpc] at hd; cases hd
    | _ => simp [ReadPc.via]
  | getRaises hpc => simp [hpc]
  | getHits hpc => simp [hpc]
  | awaited hm hf =>
    rcases hf with hpc | hfind
    · simp [hpc]
    · simp [hfind.hpc]
  | settles hm hres => exact howned hres.owned
  | settledBefore hm hres => exact howned hres.owned
  | escapes hm hpc => exact howned (by rw [hpc]; rfl)

section budgets

variable {cfg : Config Raw} {w w' : World Raw} {i : ReadId} {r r' : ReadCall Raw} {a : Action}
  {n : ℕ}

/-- A move keeps the commands served, with the one sent, within what the place allows. -/
theorem served_budget (hmove : ReadMove cfg w w' i r a r')
    (h : n + waiting r.port ≤ commandsAt r.pc) :
    n + (if servesRead i a then 1 else 0) + waiting r'.port ≤ commandsAt r'.pc := by
  cases hmove with
  | served hport hs => simpa [servesRead, hport, waiting] using h
  | sampled fate hpc hn => simpa [servesRead] using h
  | marked b hd => simpa [servesRead] using h
  | leads hpc hport => simpa [servesRead, hpc, commandsAt] using h
  | joins hm hfind => simpa [servesRead, hfind.hpc, commandsAt] using h
  | populates hpc hsam =>
    simp only [hpc, commandsAt] at h
    simp only [servesRead, waiting, commandsAt, Bool.false_eq_true, if_false]
    omega
  | ends hend =>
    have hbudget := (readEnd_budget hend).1
    simp only [servesRead, commandsAt, Bool.false_eq_true, if_false]
    omega

/-- A move keeps the samples within what the place allows. -/
theorem sampled_budget (hmove : ReadMove cfg w w' i r a r')
    (h : n ≤ fetchesAt r.pc ∧ (r.sampled = none → n = 0)) :
    n + (if samplesRead i a then 1 else 0) ≤ fetchesAt r'.pc ∧
      (r'.sampled = none → n + (if samplesRead i a then 1 else 0) = 0) := by
  cases hmove with
  | served hport hs => simpa [samplesRead] using h
  | sampled fate hpc hn => simp [samplesRead, hpc, fetchesAt, h.2 hn]
  | marked b hd => simpa [samplesRead] using h
  | leads hpc hport =>
    simp only [hpc, fetchesAt] at h
    exact ⟨by simp only [samplesRead, fetchesAt, Bool.false_eq_true, if_false]; omega, h.2⟩
  | joins hm hfind => simpa [samplesRead, hfind.hpc, fetchesAt] using h
  | populates hpc hsam => simpa [samplesRead, hpc, fetchesAt] using h
  | ends hend =>
    have hbudget := (readEnd_budget hend).2.1
    exact ⟨by simp only [samplesRead, fetchesAt, Bool.false_eq_true, if_false]; omega, h.2⟩

/-- A move keeps the resumptions within what the place allows. -/
theorem resumed_budget (hmove : ReadMove cfg w w' i r a r') (h : n ≤ resumptionsAt r.pc) :
    n + (if resumesRead i a then 1 else 0) ≤ resumptionsAt r'.pc := by
  cases hmove with
  | served hport hs => simpa [resumesRead] using h
  | sampled fate hpc hn => simpa [resumesRead] using h
  | marked b hd => simpa [resumesRead] using h
  | leads hpc hport => simpa [resumesRead, hpc, resumptionsAt] using h
  | joins hm hfind => simpa [resumesRead, hfind.hpc, resumptionsAt] using h
  | populates hpc hsam => simpa [resumesRead, hpc, resumptionsAt] using h
  | ends hend =>
    have hbudget := (readEnd_budget hend).2.2
    simp only [resumesRead, resumptionsAt, decide_true, if_true]
    omega

end budgets

section runs

variable {cfg : Config Raw} {content : OrderedDict String (Raw × Option ℕ)}
  {membership : String → String → Json} {as : List Action} {w : World Raw}

/-- In every run a read that has ended sent at most the commands, made at most the calls of
Helios and was run at most as often as the way to its answer needs: one GET for a cached
list or a shared fetch, one SET and one call of Helios more for the leader of a fetch. -/
theorem read_within_budget (hr : run (step cfg) (.init content membership) as = some w)
    {i : ReadId} {r : ReadCall Raw} (hread : w.reads[i]? = some r) {o : Outcome} {via : Via}
    (hpc : r.pc = .done o via) : as.countP (servesRead i) ≤ commandsVia via ∧
      as.countP (samplesRead i) ≤ fetchesVia via ∧
      as.countP (resumesRead i) ≤ resumptionsVia via := by
  have hserved := (count_of_read (p := servesRead i)
    (B := fun n r => n + waiting r.port ≤ commandsAt r.pc)
    (fun a ha => by simp [movesRead, ha]) (fun _ _ _ _ _ => Nat.le_refl 1)
    (fun _ _ _ _ _ _ h hm => served_budget hm h) hr).1 r hread
  have hsampled := (count_of_read (p := samplesRead i)
    (B := fun n r => n ≤ fetchesAt r.pc ∧ (r.sampled = none → n = 0))
    (fun a ha => by simp [movesRead, ha]) (fun _ _ _ _ _ => ⟨Nat.le_refl 0, fun _ => rfl⟩)
    (fun _ _ _ _ _ _ h hm => sampled_budget hm h) hr).1 r hread
  have hresumed := (count_of_read (p := resumesRead i) (B := fun n r => n ≤ resumptionsAt r.pc)
    (fun a ha => by simp [movesRead, ha]) (fun _ _ _ _ _ => Nat.le_refl 0)
    (fun _ _ _ _ _ _ h hm => resumed_budget hm h) hr).1 r hread
  simp only [hpc, commandsAt, fetchesAt, resumptionsAt] at hserved hsampled hresumed
  exact ⟨by omega, hsampled.1, hresumed⟩

/-- A read of a cold key from its call to its end, and another that is still to be served. -/
def coldRead : List Action :=
  [.read 0 "user-1" "tenant-1" .getUserPermissions, .serveRead 0 .executes,
    .read 1 "user-1" "tenant-1" .getUserPermissions, .resumeRead 0, .sample 0 .answers,
    .resumeRead 0, .serveRead 0 .executes, .resumeRead 0]

/-- The first read stays within its budgets. -/
theorem read_within_budget_coldRead : coldRead.countP (servesRead 0) ≤ 2 ∧
    coldRead.countP (samplesRead 0) ≤ 1 ∧ coldRead.countP (resumesRead 0) ≤ 3 :=
  have hrun : run (step (fixedConfig true)) fixedWorld coldRead = some (endOf true coldRead) :=
    run_endOf rfl
  read_within_budget hrun (i := 0) (r := ((endOf true coldRead).reads)[0]) rfl rfl

end runs

/-- The moves that a read may still make. -/
def remaining (r : ReadCall Raw) : ℕ :=
  (if r.sampled = none then 1 else 0) + waiting r.port + match r.pc with
    | .cacheGet => 4
    | .joined _ => 1
    | .heliosFetch _ => 3
    | .cacheSet _ _ => 1
    | .done _ _ => 0

section remaining

variable {cfg : Config Raw}

/-- A new read may make six moves. -/
theorem remaining_start (now : ℕ) (c : ClientId) (u t : String) (ask : Ask) :
    remaining (.start cfg now c u t ask) = 6 := rfl

/-- Every move of a read that carries it on is one of those that it may still make. -/
theorem remaining_move {w w' : World Raw} {i : ReadId} {r r' : ReadCall Raw} {a : Action}
    (h : ReadMove cfg w w' i r a r') :
    remaining r' + (if movesRead i a then 1 else 0) ≤ remaining r := by
  have hserves (fate : Fate) : movesRead i (.serveRead i fate) = true := by
    simp [movesRead, servesRead]
  have hsamples (fate : HeliosFate) : movesRead i (.sample i fate) = true := by
    simp [movesRead, samplesRead]
  have hresumes : movesRead i (.resumeRead i) = true := by simp [movesRead, resumesRead]
  cases h with
  | served hport hs => simp only [remaining, hport, waiting, hserves, if_true]; omega
  | sampled fate hpc hn =>
    simp only [remaining, hpc, hn, hsamples, if_true, reduceCtorEq, if_false]
    omega
  | marked b hd => exact Nat.le_refl _
  | leads hpc hport => simp [remaining, hpc, hresumes]
  | joins hm hfind => simp [remaining, hfind.hpc, hresumes]
  | populates hpc hsam => simp [remaining, hpc, hsam, hresumes, waiting]
  | ends hend =>
    have hrun := hend.not_done
    cases hpc : r.pc with
    | done o via => rw [hpc] at hrun; cases hrun
    | _ => simp [remaining, hpc, hresumes]

/-- In every run each read makes at most six moves. -/
theorem moves_le_six {content : OrderedDict String (Raw × Option ℕ)}
    {membership : String → String → Json} {as : List Action} {w : World Raw}
    (hr : run (step cfg) (.init content membership) as = some w) (i : ReadId) :
    as.countP (movesRead i) ≤ 6 := by
  obtain ⟨hmade, hnone⟩ := count_of_read (B := fun n r => n + remaining r ≤ 6)
    (fun a ha => ha) (fun now c u t ask => Nat.le_of_eq (by rw [remaining_start]))
    (fun n w w' r a r' h hm => by have hless := remaining_move hm; omega) hr
  cases hread : w.reads[i]? with
  | none => exact Nat.le_trans (Nat.le_of_eq (hnone hread)) (Nat.zero_le 6)
  | some r => exact Nat.le_trans (Nat.le_add_right _ _) (hmade r hread)

end remaining

/-- Reads end: in every run each of them makes at most six moves, and where none of them can
move any further they have all ended, as long as no leader left its future pending. -/
theorem reads_end {cfg : Config Raw} {content : OrderedDict String (Raw × Option ℕ)}
    {membership : String → String → Json} {as : List Action} {w : World Raw}
    (hr : run (step cfg) (.init content membership) as = some w) :
    (∀ i, as.countP (movesRead i) ≤ 6) ∧
      (Along (step cfg) (fun w a _ => ¬LeavesPending w a) (.init content membership) as →
        ReadsQuiescent cfg w → ∀ r ∈ w.reads, r.pc.isDone = true) := by
  refine ⟨moves_le_six hr, ?_⟩
  intro hleave hreads r hmem
  obtain ⟨i, hi⟩ := List.mem_iff_getElem?.mp hmem
  have hstill : Ownership w ∧ NoStrandedWaiter w :=
    run_invariant (fun w => Ownership w ∧ NoStrandedWaiter w)
      (fun _ _ _ h hs hq =>
        ⟨h.1.preserved (step_tableChange hs), noStrandedWaiter_step h.1 hs hq h.2⟩)
      hr hleave ⟨init_ownership content membership, init_noStrandedWaiter content membership⟩
  have hshape : CallsShaped cfg w := reachable_callsShaped ⟨content, membership, as, hr⟩
  exact hreads.all_done hstill.1 hshape hstill.2 hi

/-- Two reads of a cold key, one of which leads the fetch and stores its list while the other
awaits it. -/
def sharedRead : List Action :=
  joinedRun ++ [.sample 0 .answers, .resumeRead 0, .serveRead 0 .executes, .resumeRead 0,
    .resumeRead 1]

/-- Its leader settles the future. -/
theorem leaves_none_pending_sharedRead : Along (step (fixedConfig true))
    (fun w a _ => ¬LeavesPending w a) fixedWorld sharedRead := by
  simp only [sharedRead, joinedRun, List.cons_append, List.nil_append]
  iterate 11
    refine (along_cons_iff rfl).mpr ⟨?_, ?_⟩
    · rintro ⟨i, r, f, ha, hr, ho, -, hm | ⟨n, outcome, err, -, hsam, he⟩⟩
      · cases ha <;> cases hr <;> cases ho <;> cases hm
      · cases ha <;> cases hr <;> cases ho <;> cases hsam <;> cases he
  trivial

/-- Both reads of it have ended. -/
theorem reads_end_sharedRead : sharedRead.countP (movesRead 0) ≤ 6 ∧
    ∀ r ∈ (endOf true sharedRead).reads, r.pc.isDone = true := by
  have hrun : run (step (fixedConfig true)) fixedWorld sharedRead = some (endOf true sharedRead) :=
    run_endOf rfl
  obtain ⟨hmoves, hends⟩ := reads_end hrun
  refine ⟨hmoves 0, hends leaves_none_pending_sharedRead ?_⟩
  intro a ha
  cases a with
  | serveRead i fate =>
    match i with
    | 0 => rfl
    | 1 => rfl
    | _ + 2 => rfl
  | sample i fate =>
    match i with
    | 0 => rfl
    | 1 => rfl
    | _ + 2 => rfl
  | resumeRead i =>
    match i with
    | 0 => rfl
    | 1 => rfl
    | _ + 2 => rfl
  | _ => cases ha

end HeliosPermissions.BoundedReads
