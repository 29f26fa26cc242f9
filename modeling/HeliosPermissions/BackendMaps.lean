import Mathlib.Data.Set.List
import HeliosPermissions.CallShapes

/-!
# The same system over another cache

What the client system asks of a cache is how a pair becomes a key, how a list is
spelled, and which keys a bulk invalidation drops. When the keys and spellings of one
cache are images of those of another, a world over the one is the image of a world over
the other, and the images move as the worlds do.
-/

namespace HeliosPermissions.BackendMaps

open JsonValues CacheStore HeliosResolution ClientWorld CallHistory CallShapes PartialRuns

variable {Raw Raw' : Type}

/-- Keys and spellings of one cache as images of those of another. -/
structure BackendMap (B : Backend Raw) (B' : Backend Raw') where
  /-- The image of a key. -/
  rename : String → String
  /-- Two keys keep two images. -/
  rename_injective : Function.Injective rename
  /-- The image of a stored spelling. -/
  spell : Raw → Raw'
  /-- A pair's key is the image of its key. -/
  key : ∀ u t, B'.key u t = rename (B.key u t)
  /-- A list is spelled by the image of its spelling. -/
  dumps : ∀ perms, B'.dumps perms = spell (B.dumps perms)
  /-- The image of a spelling decodes to what the spelling decodes to. -/
  loads : ∀ raw, B'.loads (spell raw) = B.loads raw
  /-- The lifetimes are the same. -/
  ttlSeconds : B'.ttlSeconds = B.ttlSeconds

namespace BackendMap

variable {B : Backend Raw} {B' : Backend Raw'} (m : BackendMap B B')

/-- A bulk invalidation drops the images of the keys that it drops. -/
def Aligned (scope : Scope) : Prop :=
  ∀ k', B'.selects scope k' = true ↔ ∃ k, k' = m.rename k ∧ B.selects scope k = true

def entry (e : Entry Raw) : Entry Raw' := ⟨m.spell e.raw, e.origin, e.since, e.written, e.ex⟩

def store (s : Store Raw) : Store Raw' := s.mapEntries m.rename m.rename_injective m.entry

def command : Command Raw → Command Raw'
  | .get k => .get (m.rename k)
  | .set k raw ex nx => .set (m.rename k) (m.spell raw) ex nx
  | .delete ks => .delete (ks.map m.rename)
  | .scan cursor scope => .scan cursor scope

def reply : Reply Raw → Reply Raw'
  | .value raw => .value (raw.map m.spell)
  | .stored written => .stored written
  | .deleted count => .deleted count
  | .page cursor ks => .page cursor (ks.map m.rename)
  | .failed => .failed

def port : Port Raw → Port Raw'
  | .sent cmd => .sent (m.command cmd)
  | .replied r => .replied (m.reply r)

def fate : Fate → Fate
  | .executes => .executes
  | .returns cursor ks => .returns cursor (ks.map m.rename)
  | .fails applied => .fails applied

def progress (p : ScanProgress) : ScanProgress := ⟨p.started, p.seen.map m.rename⟩

def read (r : ReadCall Raw) : ReadCall Raw' where
  client := r.client
  userId := r.userId
  tenantId := r.tenantId
  ask := r.ask
  pc := r.pc
  port := m.port r.port
  mustCancel := r.mustCancel
  sampled := r.sampled
  cancelCalled := r.cancelCalled
  began := r.began
  ended := r.ended

def mutation (q : MutationCall Raw) : MutationCall Raw' where
  request := q.request
  pc := q.pc
  port := m.port q.port
  progress := m.progress q.progress
  began := q.began
  ended := q.ended

def world (w : World Raw) : World Raw' where
  store := m.store w.store
  membership := w.membership
  inFlight := w.inFlight
  futures := w.futures
  reads := w.reads.map m.read
  mutations := w.mutations.map m.mutation
  heliosCalls := w.heliosCalls
  clock := w.clock

def action : Action → Action
  | .serveRead i ft => .serveRead i (m.fate ft)
  | .serveMutation j ft => .serveMutation j (m.fate ft)
  | .expire k => .expire (m.rename k)
  | a => a

end BackendMap

section server

variable {B : Backend Raw} {B' : Backend Raw'} {m : BackendMap B B'}

/-- Both caches write with the same expiry. -/
theorem ex_eq (m : BackendMap B B') : B'.ex = B.ex := by rw [Backend.ex, Backend.ex, m.ttlSeconds]

/-- An aligned scope selects the image of a key when it selects the key. -/
theorem selects_rename {scope : Scope} (h : m.Aligned scope) (k : String) :
    B'.selects scope (m.rename k) = B.selects scope k := by
  rw [Bool.eq_iff_iff, h]
  constructor
  · rintro ⟨k', hk, hsel⟩
    rwa [m.rename_injective hk]
  · exact fun hsel => ⟨k, rfl, hsel⟩

/-- A key is on a renamed page when it is on the page. -/
theorem mem_map_rename {k : String} {ks : List String} :
    m.rename k ∈ ks.map m.rename ↔ k ∈ ks :=
  List.mem_map_of_injective m.rename_injective

/-- The image of the store holds the image of each entry. -/
theorem store_get? (m : BackendMap B B') (s : Store Raw) (k : String) :
    (m.store s).get? (m.rename k) = (s.get? k).map m.entry :=
  OrderedDict.get?_mapEntries s m.rename_injective m.entry k

/-- A command on the image of the store is the image of the command. -/
theorem execute_map (m : BackendMap B B') (now : ℕ) (origin : Origin) (s : Store Raw)
    (cmd : Command Raw) : execute now origin (m.store s) (m.command cmd) =
      ((execute now origin s cmd).map m.reply m.store) := by
  cases cmd with
  | get k =>
    have hraw : ((s.get? k).map m.entry).map Entry.raw =
        ((s.get? k).map Entry.raw).map m.spell := by
      rw [Option.map_map, Option.map_map]
      rfl
    simp only [execute, BackendMap.command, store_get?, hraw]
    rfl
  | set k raw ex nx =>
    have hput (v : Entry Raw) : (m.store s).set (m.rename k) (m.entry v) = m.store (s.set k v) :=
      OrderedDict.set_mapEntries s m.rename_injective m.entry k v
    simp only [execute, BackendMap.command, store_get?]
    cases hs : s.get? k with
    | none => exact congrArg (Prod.mk _) (hput ⟨raw, origin, now, now, ex⟩)
    | some old =>
      cases nx with
      | true => rfl
      | false => exact congrArg (Prod.mk _) (hput ⟨raw, origin, old.since, now, ex⟩)
  | delete ks =>
    have hcount : ((m.store s).keys.filter (· ∈ ks.map m.rename)).length =
        (s.keys.filter (· ∈ ks)).length := by
      simp [BackendMap.store, List.filter_map, Function.comp_def, m.rename_injective.eq_iff]
    have hdrop : (m.store s).popAll (ks.map m.rename) = m.store (s.popAll ks) :=
      OrderedDict.popAll_mapEntries s m.rename_injective m.entry ks
    simp only [execute, BackendMap.command, hcount, hdrop]
    rfl
  | scan cursor scope => rfl

/-- A page is allowed when the page that it is the image of is. -/
theorem pageAllowed_map {scope : Scope} (h : m.Aligned scope) (now : ℕ) (p : ScanProgress)
    (s : Store Raw) (cursor : ℕ) (ks : List String) :
    PageAllowed B' now (m.progress p) (m.store s) scope cursor (ks.map m.rename) ↔
      PageAllowed B now p s scope cursor ks := by
  have hseen (k : String) : m.rename k ∈ (m.progress p).seen ++ ks.map m.rename ↔
      k ∈ p.seen ++ ks := by
    rw [BackendMap.progress, ← List.map_append, mem_map_rename]
  have hentries : (m.store s).entries = s.entries.map fun b => (m.rename b.1, m.entry b.2) := rfl
  unfold PageAllowed
  rw [hentries]
  simp only [List.forall_mem_map, selects_rename h, hseen]
  rfl

/-- Serving the image of a command is the image of serving it. -/
theorem serve_map (m : BackendMap B B') (now : ℕ) (origin : Origin) (p : ScanProgress)
    (s : Store Raw) (cmd : Command Raw) (ft : Fate)
    (h : ∀ cursor scope, cmd = .scan cursor scope → m.Aligned scope) :
    serve B' now origin (m.progress p) (m.store s) (m.command cmd) (m.fate ft) =
      (serve B now origin p s cmd ft).map (Prod.map m.reply m.store) := by
  have hexec := execute_map m now origin s cmd
  cases cmd with
  | scan cursor scope =>
    cases ft with
    | executes => rfl
    | fails applied => rfl
    | returns cursor' ks =>
      have hpage := pageAllowed_map (h cursor scope rfl) now p s cursor' ks
      simp only [serve, BackendMap.command, BackendMap.fate, hpage]
      split_ifs
      · rfl
      · rfl
  | get k =>
    cases ft with
    | executes => exact congrArg some hexec
    | returns cursor' ks => rfl
    | fails applied => cases applied <;> rfl
  | set k raw ex nx =>
    cases ft with
    | executes => exact congrArg some hexec
    | returns cursor' ks => rfl
    | fails applied =>
      cases applied with
      | false => rfl
      | true => exact congrArg (fun out => some (Reply.failed, out.2)) hexec
  | delete ks =>
    cases ft with
    | executes => exact congrArg some hexec
    | returns cursor' ks' => rfl
    | fails applied =>
      cases applied with
      | false => rfl
      | true => exact congrArg (fun out => some (Reply.failed, out.2)) hexec

/-- A reply decodes as its image does. -/
theorem decodeGet_map (m : BackendMap B B') (reply : Reply Raw) :
    decodeGet B' (m.reply reply) = decodeGet B reply := by
  cases reply with
  | value raw =>
    cases raw with
    | none => rfl
    | some raw =>
      simp only [decodeGet, BackendMap.reply, Option.map_some, m.loads]
  | _ => rfl

end server

section calls

variable {cfg : Config Raw} {cfg' : Config Raw'} (m : BackendMap cfg.backend cfg'.backend)

/-- The reads of the image are the images of the reads. -/
@[simp] theorem read_map (w : World Raw) (i : ReadId) :
    (m.world w).reads[i]? = (w.reads[i]?).map m.read :=
  List.getElem?_map

/-- The mutating calls of the image are the images of the mutating calls. -/
@[simp] theorem mutation_map (w : World Raw) (j : MutationId) :
    (m.world w).mutations[j]? = (w.mutations[j]?).map m.mutation :=
  List.getElem?_map

/-- The futures are the same. -/
@[simp] theorem futureState_map (w : World Raw) (f : FutureId) :
    (m.world w).futureState f = w.futureState f := rfl

/-- Replacing a read commutes with the image. -/
theorem putRead_map (w : World Raw) (i : ReadId) (r : ReadCall Raw) :
    (m.world w).putRead i (m.read r) = m.world (w.putRead i r) := by
  simp [BackendMap.world, World.putRead, List.map_set]

/-- Replacing a mutating call commutes with the image. -/
theorem putMutation_map (w : World Raw) (j : MutationId) (q : MutationCall Raw) :
    (m.world w).putMutation j (m.mutation q) = m.world (w.putMutation j q) := by
  simp [BackendMap.world, World.putMutation, List.map_set]

/-- The end of a read commutes with the image. -/
theorem finishRead_map (w : World Raw) (i : ReadId) (r : ReadCall Raw) (o : Outcome) (via : Via) :
    (m.world w).finishRead i (m.read r) o via = m.world (w.finishRead i r o via) :=
  putRead_map m w i { r with pc := .done o via, ended := some w.clock }

/-- A leader that raises does so in the image too. -/
theorem abandon_map (w : World Raw) (i : ReadId) (r : ReadCall Raw) (f : FutureId)
    (err : PyError) : (m.world w).abandon i (m.read r) f err = m.world (w.abandon i r f err) :=
  finishRead_map m (w.popInFlight r.client r.lock) i r (.error err) (.led f)

/-- A leader that resolves its future does so in the image too. -/
theorem conclude_map (w : World Raw) (i : ReadId) (r : ReadCall Raw) (f : FutureId)
    (o : Outcome) : (m.world w).conclude i (m.read r) f o = m.world (w.conclude i r f o) := by
  have habandon := abandon_map m w i r f .invalidStateError
  unfold World.conclude
  rw [futureState_map]
  split
  · exact finishRead_map m ((w.settle f (.ofOutcome o)).popInFlight r.client r.lock) i r o (.led f)
  · exact habandon

/-- A read that becomes the leader does so in the image too. -/
theorem lead_map (w : World Raw) (i : ReadId) (r : ReadCall Raw) :
    (m.world w).lead i (m.read r) = m.world (w.lead i r) := by
  have hreads : (w.reads.map m.read).set i
      { m.read r with pc := .heliosFetch w.futures.length } =
        (w.reads.set i { r with pc := .heliosFetch w.futures.length }).map m.read := by
    rw [List.map_set]
    rfl
  simp only [World.lead, BackendMap.world]
  rw [← hreads]
  rfl

/-- What follows a miss follows it in the image. -/
theorem afterMiss_map (w : World Raw) (i : ReadId) (r : ReadCall Raw) :
    (m.world w).afterMiss i (m.read r) = (w.afterMiss i r).map m.world := by
  have hfind : ((m.world w).inFlight (m.read r).client).get? (m.read r).lock =
      (w.inFlight r.client).get? r.lock := rfl
  unfold World.afterMiss
  rw [hfind]
  cases (w.inFlight r.client).get? r.lock with
  | none => exact congrArg some (lead_map m w i r)
  | some f =>
    simp only [futureState_map]
    cases w.futureState f with
    | none => rfl
    | some st =>
      cases ho : st.outcome with
      | none =>
        simp only [ho]
        exact congrArg some (putRead_map m w i { r with pc := .joined f })
      | some o =>
        simp only [ho]
        exact congrArg some (finishRead_map m w i r o (.joined f))

/-- The populate command of the image is the image of the command. -/
theorem populateCommand_map (u t : String) (perms : List Json) :
    populateCommand cfg' u t perms = m.command (populateCommand cfg u t perms) := by
  simp [populateCommand, BackendMap.command, m.key, m.dumps, ex_eq m]

/-- What follows the fetch follows it in the image. -/
theorem afterFetch_map (hstale : cfg'.staleOnError = cfg.staleOnError) (w : World Raw)
    (i : ReadId) (r : ReadCall Raw) (f : FutureId) (o : HttpOutcome) :
    (m.world w).afterFetch cfg' i (m.read r) f o = m.world (w.afterFetch cfg i r f o) := by
  unfold World.afterFetch
  rw [show (m.read r).userId = r.userId from rfl, show (m.read r).tenantId = r.tenantId from rfl]
  cases fetchEnd r.userId r.tenantId o with
  | unreachable message =>
    have hout : World.unreachableOutcome cfg' (m.read r).client message =
        World.unreachableOutcome cfg r.client message := by
      rw [World.unreachableOutcome, hstale]
      rfl
    simpa [hout] using conclude_map m w i r f (World.unreachableOutcome cfg r.client message)
  | escaped err => exact abandon_map m w i r f err
  | resolved perms =>
    have hput := putRead_map m w i { r with
      pc := .cacheSet f perms
      port := .sent (populateCommand cfg r.userId r.tenantId perms) }
    simp only [populateCommand_map m]
    exact hput

/-- A cancellation thrown into a read is thrown into its image. -/
theorem throwCancelled_map (w : World Raw) (i : ReadId) (r : ReadCall Raw) :
    (m.world w).throwCancelled i (m.read r) = (w.throwCancelled i r).map m.world := by
  unfold World.throwCancelled
  rw [show (m.read r).pc = r.pc from rfl]
  split_ifs
  · rfl
  · cases r.pc.owned with
    | some f => exact congrArg some (abandon_map m w i r f .cancelledError)
    | none => exact congrArg some (finishRead_map m w i r (.error .cancelledError) r.pc.via)

/-- A read goes on as its image does. -/
theorem continueRead_map (hstale : cfg'.staleOnError = cfg.staleOnError) (w : World Raw)
    (i : ReadId) (r : ReadCall Raw) : (m.world w).continueRead cfg' i (m.read r) =
      (w.continueRead cfg i r).map m.world := by
  unfold World.continueRead
  rw [show (m.read r).pc = r.pc from rfl, show (m.read r).sampled = r.sampled from rfl,
    show (m.read r).port = m.port r.port from rfl]
  cases r.pc with
  | cacheGet =>
    cases r.port with
    | sent cmd => rfl
    | replied reply =>
      simp only [BackendMap.port, decodeGet_map]
      cases decodeGet cfg.backend reply with
      | error err => exact congrArg some (finishRead_map m w i r (.error err) .cache)
      | ok hit =>
        cases hit with
        | some perms => exact congrArg some (finishRead_map m w i r (.ok perms) .cache)
        | none => exact afterMiss_map m w i r
  | joined f =>
    simp only [futureState_map]
    cases (w.futureState f).bind FutureState.outcome with
    | none => rfl
    | some o => exact congrArg some (finishRead_map m w i r o (.joined f))
  | heliosFetch f =>
    cases r.sampled with
    | none => rfl
    | some sam => exact congrArg some (afterFetch_map m hstale w i r f sam.2)
  | cacheSet f perms =>
    cases r.port with
    | sent cmd => rfl
    | replied reply => exact congrArg some (conclude_map m w i r f (.ok perms))
  | done o via => rfl

/-- Cancelling a read cancels its image. -/
theorem cancelRead_map (w : World Raw) (i : ReadId) (r : ReadCall Raw) :
    (m.world w).cancelRead i (m.read r) = m.world (w.cancelRead i r) := by
  have hmark := putRead_map m w i { r with mustCancel := true, cancelCalled := true }
  have hcancel (f : FutureId) :=
    putRead_map m (w.settle f .cancelled) i { r with cancelCalled := true }
  obtain ⟨c, u, t, ask, pc, port, mustCancel, sampled, cancelCalled, began, ended⟩ := r
  cases pc with
  | joined f =>
    simp only [World.cancelRead, BackendMap.read, futureState_map]
    split
    · exact hcancel f
    · exact hmark
  | done o via => rfl
  | cacheGet => exact hmark
  | heliosFetch f => exact hmark
  | cacheSet f perms => exact hmark

/-- A mutating call takes the image of a reply as it takes the reply. -/
theorem advance_map (now : ℕ) (q : MutationCall Raw) (reply : Reply Raw) :
    (m.mutation q).advance now (m.reply reply) = (q.advance now reply).map m.mutation := by
  have hpc : (m.mutation q).pc = q.pc := rfl
  have hscan (scope : Scope) (total cursor : ℕ) : (if cursor = 0
      then { m.mutation q with pc := .done (.ok total), ended := some now }
      else { m.mutation q with
        pc := .scanning scope total, port := .sent (.scan cursor scope) }) =
      m.mutation (if cursor = 0 then { q with pc := .done (.ok total), ended := some now }
        else { q with pc := .scanning scope total, port := .sent (.scan cursor scope) }) := by
    split_ifs <;> rfl
  cases hq : q.pc with
  | writing => simp [MutationCall.advance, hq, BackendMap.mutation]
  | deleting => cases reply <;> simp [MutationCall.advance, hpc, hq, BackendMap.reply] <;> rfl
  | scanning scope total =>
    cases reply with
    | page cursor ks =>
      simp only [MutationCall.advance, hpc, hq, BackendMap.reply, List.map_eq_nil_iff, hscan]
      split_ifs <;> rfl
    | _ => simp [MutationCall.advance, hpc, hq, BackendMap.reply] <;> rfl
  | deletingPage scope total cursor =>
    cases reply with
    | deleted count =>
      simp only [MutationCall.advance, hpc, hq, BackendMap.reply, hscan]
      rfl
    | _ => simp [MutationCall.advance, hpc, hq, BackendMap.reply] <;> rfl
  | done o => cases reply <;> simp [MutationCall.advance, hpc, hq, BackendMap.reply]

/-- A reply recorded in a mutating call is recorded in its image. -/
theorem answered_map (now : ℕ) (q : MutationCall Raw) (reply : Reply Raw) :
    m.mutation (q.answered now reply) = (m.mutation q).answered now (m.reply reply) := by
  cases reply with
  | page cursor ks =>
    simp [MutationCall.answered, BackendMap.mutation, ScanProgress.advance, BackendMap.progress,
      BackendMap.reply, BackendMap.port]
  | _ => rfl

end calls

section runs

variable {cfg : Config Raw} {cfg' : Config Raw'} (m : BackendMap cfg.backend cfg'.backend)

/-- A bulk invalidation that an action starts drops the images of the keys. -/
def AlignedAction (a : Action) : Prop :=
  ∀ request scope, a = .mutate request → requestScope request = some scope → m.Aligned scope

/-- The bulk invalidations that are running do too. -/
def RequestsAligned (w : World Raw) : Prop :=
  ∀ (j : MutationId) (q : MutationCall Raw) (scope : Scope), w.mutations[j]? = some q →
    requestScope q.request = some scope → m.Aligned scope

/-- An aligned action starts aligned requests only. -/
theorem requestsAligned_step {w w' : World Raw} {a : Action} (h : RequestsAligned m w)
    (ha : AlignedAction m a) (hs : step cfg w a = some w') : RequestsAligned m w' := by
  intro j q scope hq hscope
  rcases mutation_before hs hq with hold | ⟨request, rfl, -, rfl⟩ | ⟨q₀, hq₀, hmove⟩
  · exact h j q scope hold hscope
  · exact ha request scope rfl hscope
  · refine h j q₀ scope hq₀ ?_
    rw [← hmove.same_call.1]
    exact hscope

/-- What a mutating call scans for is aligned. -/
theorem scan_aligned {w : World Raw} (h : CallsShaped cfg w) (hreq : RequestsAligned m w)
    {j : MutationId} {q : MutationCall Raw} (hq : w.mutations[j]? = some q) {cursor : ℕ}
    {scope : Scope} (hport : q.port = .sent (.scan cursor scope)) : m.Aligned scope := by
  cases h.mutations j q hq with
  | writing _ _ hcmd => cases hcmd _ hport
  | deleting _ _ hcmd => cases hcmd _ hport
  | scanning hscope _ hcmd =>
    obtain ⟨c, hc⟩ := hcmd _ hport
    cases hc
    exact hreq j q _ hq hscope
  | deletingPage _ _ hcmd =>
    obtain ⟨ks, hks⟩ := hcmd _ hport
    cases hks
  | done _ hrep =>
    obtain ⟨reply, hrep⟩ := hrep
    rw [hport] at hrep
    cases hrep

/-- A read never scans. -/
theorem read_sends_no_scan {w : World Raw} (h : CallsShaped cfg w) {i : ReadId}
    {r : ReadCall Raw} (hr : w.reads[i]? = some r) {cursor : ℕ} {scope : Scope} :
    r.port ≠ .sent (.scan cursor scope) := by
  intro hport
  rcases (h.reads i r hr).command _ hport with hget | ⟨perms, hset, -⟩
  · cases hget
  · cases hset

/-- A new read of the image is the image of the new read. -/
theorem startRead_map (now : ℕ) (c : ClientId) (u t : String) (ask : Ask) :
    ReadCall.start cfg' now c u t ask = m.read (.start cfg now c u t ask) := by
  simp only [ReadCall.start, m.key]
  rfl

/-- A new mutating call of the image is the image of the new call. -/
theorem startMutation_map (now : ℕ) (request : MutationRequest) :
    MutationCall.start cfg' now request = m.mutation (.start cfg now request) := by
  cases request with
  | writeThrough u t perms =>
    simp only [MutationCall.start, m.key, m.dumps, ex_eq m]
    rfl
  | invalidate u t? =>
    cases t? with
    | none => rfl
    | some t =>
      simp only [MutationCall.start, m.key]
      rfl
  | invalidateTenant t => rfl

/-- Serving a read commutes with the image. -/
theorem serveRead_map {w : World Raw} (h : CallsShaped cfg w) (i : ReadId) (ft : Fate) :
    move cfg' (m.world w) (.serveRead i (m.fate ft)) =
      (move cfg w (.serveRead i ft)).map m.world := by
  simp only [move, read_map]
  cases hr : w.reads[i]? with
  | none => rfl
  | some r =>
    simp only [Option.map_some, Option.bind_eq_bind, Option.bind_some, BackendMap.read]
    cases hp : r.port with
    | replied reply => rfl
    | sent cmd =>
      have hserve : serve cfg'.backend (m.world w).clock (.populate i) ⟨none, []⟩
          (m.world w).store (m.command cmd) (m.fate ft) = _ :=
        serve_map m w.clock (.populate i) ⟨none, []⟩ w.store cmd ft (by
          rintro cursor scope rfl
          exact absurd hp (read_sends_no_scan h hr))
      simp only [BackendMap.port, hserve]
      cases serve cfg.backend w.clock (.populate i) ⟨none, []⟩ w.store cmd ft with
      | none => rfl
      | some out =>
        exact congrArg some (putRead_map m { w with store := out.2 } i
          { r with port := .replied out.1 })

/-- Serving a mutating call commutes with the image. -/
theorem serveMutation_map {w : World Raw} (h : CallsShaped cfg w) (hreq : RequestsAligned m w)
    (j : MutationId) (ft : Fate) : move cfg' (m.world w) (.serveMutation j (m.fate ft)) =
      (move cfg w (.serveMutation j ft)).map m.world := by
  simp only [move, mutation_map]
  cases hq : w.mutations[j]? with
  | none => rfl
  | some q =>
    simp only [Option.map_some, Option.bind_eq_bind, Option.bind_some]
    rw [show (m.mutation q).port = m.port q.port from rfl]
    cases hp : q.port with
    | replied reply => rfl
    | sent cmd =>
      have hserve : serve cfg'.backend (m.world w).clock (.writeThrough j)
          (m.mutation q).progress (m.world w).store (m.command cmd) (m.fate ft) = _ :=
        serve_map m w.clock (.writeThrough j) q.progress w.store cmd ft (by
          rintro cursor scope rfl
          exact scan_aligned m h hreq hq hp)
      simp only [BackendMap.port, hserve]
      cases serve cfg.backend w.clock (.writeThrough j) q.progress w.store cmd ft with
      | none => rfl
      | some out =>
        have hput := putMutation_map m { w with store := out.2 } j (q.answered w.clock out.1)
        rw [answered_map] at hput
        exact congrArg some hput

/-- One move over the one cache is the image of the move over the other. -/
theorem move_map (hstale : cfg'.staleOnError = cfg.staleOnError) {w : World Raw}
    (h : CallsShaped cfg w) (hreq : RequestsAligned m w) (a : Action) :
    move cfg' (m.world w) (m.action a) = (move cfg w a).map m.world := by
  cases a with
  | read c u t ask =>
    have hstart := startRead_map m w.clock c u t ask
    simp [move, BackendMap.action, BackendMap.world, hstart]
  | mutate request =>
    have hstart := startMutation_map m w.clock request
    simp [move, BackendMap.action, BackendMap.world, hstart]
  | serveRead i ft => exact serveRead_map m h i ft
  | serveMutation j ft => exact serveMutation_map m h hreq j ft
  | sample i ft =>
    simp only [move, BackendMap.action, read_map]
    cases w.reads[i]? with
    | none => rfl
    | some r =>
      have hput := putRead_map m w i
        { r with sampled := some (w.clock, ft.outcome (w.membership r.userId r.tenantId)) }
      obtain ⟨c, u, t, ask, pc, port, mustCancel, sampled, cancelCalled, began, ended⟩ := r
      cases pc with
      | heliosFetch f =>
        cases sampled with
        | none => exact congrArg some hput
        | some sam => rfl
      | _ => rfl
  | resumeRead i =>
    simp only [move, BackendMap.action, read_map]
    cases w.reads[i]? with
    | none => rfl
    | some r =>
      simp only [Option.map_some, Option.bind_eq_bind, Option.bind_some]
      rw [show (m.read r).mustCancel = r.mustCancel from rfl]
      split_ifs
      · exact throwCancelled_map m w i r
      · exact continueRead_map m hstale w i r
  | resumeMutation j =>
    simp only [move, BackendMap.action, mutation_map]
    cases w.mutations[j]? with
    | none => rfl
    | some q =>
      simp only [Option.map_some, Option.bind_eq_bind, Option.bind_some]
      rw [show (m.mutation q).port = m.port q.port from rfl,
        show (m.world w).clock = w.clock from rfl]
      cases q.port with
      | sent cmd => rfl
      | replied reply =>
        simp only [BackendMap.port, advance_map, Option.map_map]
        congr 1
        funext q'
        exact putMutation_map m w j q'
  | cancel i =>
    simp only [move, BackendMap.action, read_map]
    cases w.reads[i]? with
    | none => rfl
    | some r => exact congrArg some (cancelRead_map m w i r)
  | change u t body => rfl
  | expire k =>
    have hget : (m.world w).store.get? (m.rename k) = (w.store.get? k).map m.entry :=
      store_get? m w.store k
    have hpop : (m.store w.store).pop (m.rename k) = m.store (w.store.pop k) :=
      OrderedDict.pop_mapEntries w.store m.rename_injective m.entry k
    simp only [move, BackendMap.action, hget]
    cases w.store.get? k with
    | none => rfl
    | some e =>
      simp only [Option.map_some, Option.bind_eq_bind, Option.bind_some, BackendMap.entry]
      split_ifs
      · simp only [BackendMap.world, hpop, Option.map_some]
      · rfl

/-- A step of the image is the image of the step. -/
theorem step_map (hstale : cfg'.staleOnError = cfg.staleOnError) {w : World Raw}
    (h : CallsShaped cfg w) (hreq : RequestsAligned m w) (a : Action) :
    step cfg' (m.world w) (m.action a) = (step cfg w a).map m.world := by
  rw [step, step, move_map m hstale h hreq, Option.map_map, Option.map_map]
  rfl

/-- A command that is the image of one is only served in ways that are images. -/
theorem fate_of_serve {now : ℕ} {origin : Origin} {p : ScanProgress} {s : Store Raw'}
    {cmd : Command Raw} {ft : Fate} {out : Reply Raw' × Store Raw'}
    (h : ∀ cursor scope, cmd = .scan cursor scope → m.Aligned scope)
    (hs : serve cfg'.backend now origin p s (m.command cmd) ft = some out) :
    ∃ ft₀, ft = m.fate ft₀ := by
  cases ft with
  | executes => exact ⟨.executes, rfl⟩
  | fails applied => exact ⟨.fails applied, rfl⟩
  | returns cursor ks' =>
    cases cmd with
    | get k => cases hs
    | set k raw ex nx => cases hs
    | delete ks => cases hs
    | scan c scope =>
      obtain ⟨hpage, -⟩ := Option.ite_none_right_eq_some.mp hs
      have himage : ks' ∈ Set.range (List.map m.rename) := by
        rw [Set.range_list_map]
        intro k' hk'
        obtain ⟨k, hk, -⟩ := (h c scope rfl k').mp (hpage.1 k' hk')
        exact ⟨k, hk.symm⟩
      obtain ⟨ks, rfl⟩ := himage
      exact ⟨.returns cursor ks, rfl⟩

/-- Every action that the image world can take is the image of one. -/
theorem action_of_step {w : World Raw} (h : CallsShaped cfg w) (hreq : RequestsAligned m w)
    {b : Action} {v' : World Raw'} (hs : step cfg' (m.world w) b = some v') :
    ∃ a, b = m.action a := by
  obtain ⟨v, hv, -⟩ := Option.map_eq_some_iff.mp hs
  cases b with
  | read c u t ask => exact ⟨.read c u t ask, rfl⟩
  | mutate request => exact ⟨.mutate request, rfl⟩
  | sample i ft => exact ⟨.sample i ft, rfl⟩
  | resumeRead i => exact ⟨.resumeRead i, rfl⟩
  | resumeMutation j => exact ⟨.resumeMutation j, rfl⟩
  | cancel i => exact ⟨.cancel i, rfl⟩
  | change u t body => exact ⟨.change u t body, rfl⟩
  | serveRead i ft =>
    cases move_transition hv with
    | readServed hr' hport hserve =>
      rw [read_map] at hr'
      obtain ⟨r, hr, rfl⟩ := Option.map_eq_some_iff.mp hr'
      cases hp : r.port with
      | replied reply => simp [BackendMap.read, BackendMap.port, hp] at hport
      | sent cmd =>
        obtain rfl : m.command cmd = _ := by
          simpa [BackendMap.read, BackendMap.port, hp] using hport
        obtain ⟨ft₀, rfl⟩ := fate_of_serve m (by
          rintro cursor scope rfl
          exact absurd hp (read_sends_no_scan h hr)) hserve
        exact ⟨.serveRead i ft₀, rfl⟩
  | serveMutation j ft =>
    cases move_transition hv with
    | mutationServed hq' hport hserve =>
      rw [mutation_map] at hq'
      obtain ⟨q, hq, rfl⟩ := Option.map_eq_some_iff.mp hq'
      cases hp : q.port with
      | replied reply => simp [BackendMap.mutation, BackendMap.port, hp] at hport
      | sent cmd =>
        obtain rfl : m.command cmd = _ := by
          simpa [BackendMap.mutation, BackendMap.port, hp] using hport
        obtain ⟨ft₀, rfl⟩ := fate_of_serve m (by
          rintro cursor scope rfl
          exact scan_aligned m h hreq hq hp) hserve
        exact ⟨.serveMutation j ft₀, rfl⟩
  | expire k' =>
    cases move_transition hv with
    | expires he hex =>
      have hmem : k' ∈ (m.store w.store).keys := OrderedDict.mem_keys.mpr (by
        rw [show (m.store w.store).get? k' = _ from he]
        rfl)
      rw [BackendMap.store, OrderedDict.keys_mapEntries] at hmem
      obtain ⟨k, -, rfl⟩ := List.mem_map.mp hmem
      exact ⟨.expire k, rfl⟩

/-- An action and its image are aligned together. -/
theorem alignedAction_map (a : Action) :
    AlignedAction m (m.action a) ↔ AlignedAction m a := by
  cases a <;> simp [AlignedAction, BackendMap.action]

/-- What makes every move of a world a move of its image. -/
structure Mappable (w : World Raw) : Prop where
  /-- Its calls have their shapes. -/
  shaped : CallsShaped cfg w
  /-- Its requests scan for aligned scopes. -/
  aligned : RequestsAligned m w

/-- An aligned step keeps a world mappable. -/
theorem Mappable.preserved {w w' : World Raw} {a : Action} (h : Mappable m w)
    (ha : AlignedAction m a) (hs : step cfg w a = some w') : Mappable m w' :=
  ⟨h.shaped.preserved hs, requestsAligned_step m h.aligned ha hs⟩

/-- A run of the image is the image of the run. -/
theorem run_image (hstale : cfg'.staleOnError = cfg.staleOnError) {w : World Raw}
    (h : Mappable m w) {as : List Action} (has : ∀ a ∈ as, AlignedAction m a) :
    run (step cfg') (m.world w) (as.map m.action) = (run (step cfg) w as).map m.world := by
  have hinv : ∀ (w : World Raw) (a : Action) (w' : World Raw), Mappable m w →
      AlignedAction m a → step cfg w a = some w' → Mappable m w' :=
    fun w a w' hw ha hs => hw.preserved m ha hs
  have hmap : ∀ (w : World Raw) (a : Action), Mappable m w → AlignedAction m a →
      step cfg' (m.world w) (m.action a) = (step cfg w a).map m.world :=
    fun w a hw _ => step_map m hstale hw.shaped hw.aligned a
  exact run_map hinv hmap h has

/-- The runs over the one cache are the images of the runs over the other. -/
theorem run_iff_image (hstale : cfg'.staleOnError = cfg.staleOnError) {w : World Raw}
    (h : Mappable m w) {bs : List Action} (hbs : ∀ b ∈ bs, AlignedAction m b)
    (v' : World Raw') : run (step cfg') (m.world w) bs = some v' ↔
      ∃ as v, bs = as.map m.action ∧ run (step cfg) w as = some v ∧ v' = m.world v := by
  constructor
  · intro hr
    have hlift : ∀ (w : World Raw) (b : Action) (w' : World Raw'), Mappable m w →
        AlignedAction m b → step cfg' (m.world w) b = some w' →
        ∃ a v, AlignedAction m a ∧ b = m.action a ∧ step cfg w a = some v ∧ w' = m.world v ∧
          Mappable m v := by
      intro w b w' hw hb hs
      obtain ⟨a, rfl⟩ := action_of_step m hw.shaped hw.aligned hs
      rw [step_map m hstale hw.shaped hw.aligned] at hs
      obtain ⟨v, hv, rfl⟩ := Option.map_eq_some_iff.mp hs
      have ha := (alignedAction_map m a).mp hb
      exact ⟨a, v, ha, rfl, hv, rfl, hw.preserved m ha hv⟩
    obtain ⟨as, v, -, hmap, hrun, hv⟩ := run_lift hlift h hbs hr
    exact ⟨as, v, hmap, hrun, hv⟩
  · rintro ⟨as, v, rfl, hr, rfl⟩
    have has : ∀ a ∈ as, AlignedAction m a := fun a ha =>
      (alignedAction_map m a).mp (hbs _ (List.mem_map_of_mem ha))
    rw [run_image m hstale h has, hr]
    rfl

end runs

end HeliosPermissions.BackendMaps
