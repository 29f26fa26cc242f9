import Mathlib.Tactic.Linarith
import HeliosPermissions.ExpiringMaps
import HeliosPermissions.InMemoryCache
import HeliosPermissions.PartialRuns

/-!
# Lazy expiry against an exact map

The in-memory cache drops an expired entry when a call comes across it, so its
dictionary holds entries that are over. The reference is a map of pairs whose
entries are there from the reading at which they were written until their time
is up. Before every call, with a clock that does not run backwards, both show
the same from the last reading on; whether an entry that is over is still in
the dictionary cannot be told from the answers.
-/

namespace HeliosPermissions.LazyExpiry

open JsonValues CacheKeys InMemoryCache ExpiringMaps PartialRuns

/-- `InMemoryPermissionCache.set` with its two readings of the clock: one to look at an
entry, when there is one, and one to write its own. -/
def set (ttlMs : Option ℚ) (checked written : ℚ) (store : MemoryStore)
    (userId tenantId : String) (perms : List Json) : MemoryStore :=
  match store.get? (memoryKey userId tenantId) with
  | none => store.set (memoryKey userId tenantId) (perms, expiresAtMs ttlMs written)
  | some (_, expiresAt) =>
    if isExpired checked expiresAt then
      store.set (memoryKey userId tenantId) (perms, expiresAtMs ttlMs written)
    else store

-- between equal readings it is the `set` of one reading
example (ttlMs : Option ℚ) (now : ℚ) (store : MemoryStore) (u t : String) (perms : List Json) :
    set ttlMs now now store u t perms = InMemoryCache.set ttlMs now store u t perms :=
  rfl

/-- Whether an entry written at one reading is there at another. -/
def lives (ttlMs : Option ℚ) (written now : ℚ) : Bool :=
  written * 1000 ≤ now * 1000 && ttlMs.all fun ttl => now * 1000 < written * 1000 + ttl

/-- The reference: lists for pairs of ids. -/
abbrev Reference := Stamped (String × String) ℚ (List Json)

/-- A call with the readings of the clock that it takes. A `set` that finds no entry takes
the second one only, and one that finds a live entry the first. -/
inductive Call where
  | get (now : ℚ) (userId tenantId : String)
  | set (checked written : ℚ) (userId tenantId : String) (perms : List Json)
  | writeThrough (now : ℚ) (userId tenantId : String) (perms : List Json)
  | invalidate (userId tenantId : String)
  /-- `invalidate` without a tenant. -/
  | invalidateUser (userId : String)
  | invalidateTenant (tenantId : String)

/-- The readings, in order. -/
def Call.readings : Call → List ℚ
  | .get now _ _ => [now]
  | .set checked written _ _ _ => [checked, written]
  | .writeThrough now _ _ _ => [now]
  | .invalidate _ _ => []
  | .invalidateUser _ => []
  | .invalidateTenant _ => []

/-- A call about ids without colons. -/
def Call.Plain : Call → Prop
  | .get _ u t => ColonFree u ∧ ColonFree t
  | .set _ _ u t _ => ColonFree u ∧ ColonFree t
  | .writeThrough _ u t _ => ColonFree u ∧ ColonFree t
  | .invalidate u t => ColonFree u ∧ ColonFree t
  | .invalidateUser u => ColonFree u
  | .invalidateTenant t => ColonFree t

/-- What a call makes of the cache. -/
def memoryAfter (ttlMs : Option ℚ) (store : MemoryStore) : Call → MemoryStore
  | .get now u t => (InMemoryCache.get now store u t).2
  | .set checked written u t perms => set ttlMs checked written store u t perms
  | .writeThrough now u t perms => writeThrough ttlMs now store u t perms
  | .invalidate u t => invalidate store u (some t)
  | .invalidateUser u => invalidate store u none
  | .invalidateTenant t => invalidateTenant store t

/-- What it makes of the reference. -/
def referenceAfter (ttlMs : Option ℚ) (m : Reference) : Call → Reference
  | .get _ _ _ => m
  | .set checked written u t perms => m.writeNew (lives ttlMs) checked written (u, t) perms
  | .writeThrough now u t perms => m.write now (u, t) perms
  | .invalidate u t => m.erase fun pair => pair = (u, t)
  | .invalidateUser u => m.erase fun pair => pair.1 = u
  | .invalidateTenant t => m.erase fun pair => pair.2 = t

/-- The cache, the reference, and the last reading of the clock. -/
structure Caches where
  /-- The dictionary of `InMemoryPermissionCache`. -/
  memory : MemoryStore
  /-- The reference map. -/
  reference : Reference
  /-- The last reading of the clock. -/
  last : ℚ

/-- Both empty. -/
def Caches.start (now : ℚ) : Caches := ⟨.empty, fun _ => none, now⟩

/-- The call on both. There is no step when the clock would run backwards. -/
def Caches.step (ttlMs : Option ℚ) (c : Caches) (call : Call) : Option Caches :=
  if (c.last :: call.readings).Pairwise (· ≤ ·) then
    some ⟨memoryAfter ttlMs c.memory call, referenceAfter ttlMs c.reference call,
      call.readings.getLastD c.last⟩
  else none

/-- What the cache answers at a time. -/
def shown (store : MemoryStore) (now : ℚ) (pair : String × String) : Option (List Json) :=
  (InMemoryCache.get now store pair.1 pair.2).1

/-- A pair of ids without colons. -/
def PlainPair (pair : String × String) : Prop := ColonFree pair.1 ∧ ColonFree pair.2

/-- Both show the same from the last reading on. -/
def Agree (ttlMs : Option ℚ) (c : Caches) : Prop :=
  AgreeFrom PlainPair c.last (shown c.memory) (c.reference.presentAt (lives ttlMs))

section cache

variable {ttlMs : Option ℚ} {store store' : MemoryStore} {now checked written later : ℚ}
  {u t : String} {perms : List Json}

/-- The answer of `get`: the entry, unless it has expired. -/
theorem shown_eq (store : MemoryStore) (now : ℚ) (pair : String × String) :
    shown store now pair = (store.get? (memoryKey pair.1 pair.2)).bind fun entry =>
      if isExpired now entry.2 then none else some entry.1 := by
  unfold shown InMemoryCache.get
  cases store.get? (memoryKey pair.1 pair.2) with
  | none => rfl
  | some entry =>
    dsimp only [Option.bind_some]
    split_ifs
    · rfl
    · rfl

/-- What a pair shows depends on its own key only. -/
theorem shown_congr {pair : String × String}
    (h : store'.get? (memoryKey pair.1 pair.2) = store.get? (memoryKey pair.1 pair.2)) :
    shown store' now pair = shown store now pair := by
  rw [shown_eq, shown_eq, h]

/-- What has expired stays expired. -/
theorem isExpired_later {expiresAt : Option ℚ} (h : isExpired now expiresAt = true)
    (hle : now ≤ later) : isExpired later expiresAt = true := by
  cases expiresAt with
  | none => cases h
  | some expiry =>
    have hnow : expiry ≤ now * 1000 := of_decide_eq_true h
    have hlater : expiry ≤ later * 1000 := by linarith
    exact decide_eq_true hlater

/-- An entry is there from its reading on for as long as it has not expired. -/
theorem lives_eq (hle : written ≤ now) :
    lives ttlMs written now = !isExpired now (expiresAtMs ttlMs written) := by
  have hbegun : written * 1000 ≤ now * 1000 := by linarith
  cases ttlMs with
  | none => simp [lives, isExpired, expiresAtMs, hbegun]
  | some ttl => simp [lives, isExpired, expiresAtMs, hbegun, ← not_le]

/-- `get` changes nothing that is shown later. -/
theorem shown_get (hle : now ≤ later) (pair : String × String) :
    shown (InMemoryCache.get now store u t).2 later pair = shown store later pair := by
  unfold InMemoryCache.get
  cases hstore : store.get? (memoryKey u t) with
  | none => rfl
  | some entry =>
    dsimp only
    split_ifs with hexpired
    · by_cases hkey : memoryKey pair.1 pair.2 = memoryKey u t
      · -- the entry that is dropped would not have been shown again
        rw [shown_eq, shown_eq, hkey, hstore]
        simp [isExpired_later hexpired hle]
      · exact shown_congr (by simp [hkey])
    · rfl

/-- `set` keeps the dictionary when something is shown for the pair. -/
theorem set_of_shown (h : (shown store checked (u, t)).isSome) :
    set ttlMs checked written store u t perms = store := by
  rw [shown_eq] at h
  unfold LazyExpiry.set
  cases hstore : store.get? (memoryKey u t) with
  | none =>
    rw [hstore] at h
    cases h
  | some entry =>
    rw [hstore, Option.bind_some] at h
    dsimp only
    split_ifs at h ⊢ with hexpired
    · cases h
    · rfl

/-- When nothing is shown for it, `set` does what `write_through` does. -/
theorem set_of_not_shown (h : shown store checked (u, t) = none) :
    set ttlMs checked written store u t perms = writeThrough ttlMs written store u t perms := by
  rw [shown_eq] at h
  unfold LazyExpiry.set writeThrough
  cases hstore : store.get? (memoryKey u t) with
  | none => rfl
  | some entry =>
    rw [hstore, Option.bind_some] at h
    dsimp only
    split_ifs at h ⊢ with hexpired
    rfl

/-- What is written through is shown while it lives. -/
theorem shown_writeThrough_same (hle : written ≤ now) :
    shown (writeThrough ttlMs written store u t perms) now (u, t) =
      if lives ttlMs written now then some perms else none := by
  rw [shown_eq, lives_eq hle]
  cases hexpired : isExpired now (expiresAtMs ttlMs written) with
  | false => simp [writeThrough, hexpired]
  | true => simp [writeThrough, hexpired]

/-- A write leaves the other pairs as they are. -/
theorem shown_writeThrough_other {pair : String × String} (hpair : PlainPair pair)
    (ht : ColonFree t) (hne : pair ≠ (u, t)) :
    shown (writeThrough ttlMs written store u t perms) now pair = shown store now pair := by
  refine shown_congr (writeThrough_frame (fun hkey => hne ?_) perms)
  obtain ⟨hu, ht⟩ := lockKey_injective hpair.2 ht hkey
  exact Prod.ext hu ht

/-- Popping the keys that pass a test hides their pairs. -/
theorem shown_popEach (p : String → Bool) (pair : String × String) :
    shown (popEach p store store.keys) now pair =
      if p (memoryKey pair.1 pair.2) = true then none else shown store now pair := by
  rw [shown_eq, popEach_keys_get?, shown_eq]
  split_ifs
  · rfl
  · rfl

/-- A pair that is invalidated shows nothing. -/
theorem shown_invalidate_same (store : MemoryStore) (now : ℚ) (u t : String) :
    shown (invalidate store u (some t)) now (u, t) = none := by
  rw [shown_eq]
  simp [invalidate]

/-- An invalidation leaves the other pairs as they are. -/
theorem shown_invalidate {pair : String × String} (hpair : PlainPair pair) (ht : ColonFree t) :
    shown (invalidate store u (some t)) now pair =
      if pair = (u, t) then none else shown store now pair := by
  split_ifs with heq
  · rw [heq]
    exact shown_invalidate_same store now u t
  · refine shown_congr (invalidate_frame fun hkey => heq ?_)
    obtain ⟨hu, ht⟩ := lockKey_injective hpair.2 ht hkey
    exact Prod.ext hu ht

end cache

section runs

variable {ttlMs : Option ℚ} {c c' : Caches} {call : Call} {now written : ℚ} {u t : String}

/-- A step is the call on both, at readings that do not run backwards. -/
theorem Caches.step_cases (h : c.step ttlMs call = some c') :
    (c.last :: call.readings).Pairwise (· ≤ ·) ∧
      c' = ⟨memoryAfter ttlMs c.memory call, referenceAfter ttlMs c.reference call,
        call.readings.getLastD c.last⟩ := by
  unfold Caches.step at h
  split_ifs at h with hclock
  exact ⟨hclock, (Option.some.inj h).symm⟩

/-- `write_through` writes to the reference too. -/
theorem agree_writeThrough (h : Agree ttlMs c) (hle : c.last ≤ written) (ht : ColonFree t)
    (perms : List Json) :
    Agree ttlMs ⟨writeThrough ttlMs written c.memory u t perms,
      c.reference.write written (u, t) perms, written⟩ :=
  AgreeFrom.write h hle (fun _ hlater => shown_writeThrough_same hlater)
    fun _ _ hpair hne => shown_writeThrough_other hpair ht hne

/-- A `set` leaves both as they are, or writes both. -/
theorem agree_set {checked : ℚ} (h : Agree ttlMs c) (hchecked : c.last ≤ checked)
    (hwritten : checked ≤ written) (hu : ColonFree u) (ht : ColonFree t) (perms : List Json) :
    Agree ttlMs ⟨set ttlMs checked written c.memory u t perms,
      c.reference.writeNew (lives ttlMs) checked written (u, t) perms, written⟩ := by
  have hseen : shown c.memory checked (u, t) =
      c.reference.presentAt (lives ttlMs) checked (u, t) := h checked hchecked (u, t) ⟨hu, ht⟩
  cases hpresent : c.reference.presentAt (lives ttlMs) checked (u, t) with
  | some held =>
    rw [hpresent] at hseen
    rw [set_of_shown (by simp [hseen]), Stamped.writeNew_of_present (by simp [hpresent])]
    exact AgreeFrom.later h (hchecked.trans hwritten)
  | none =>
    rw [hpresent] at hseen
    rw [set_of_not_shown hseen, Stamped.writeNew_of_absent hpresent]
    exact agree_writeThrough h (hchecked.trans hwritten) ht perms

/-- Every call keeps the agreement. -/
theorem agree_step (h : Agree ttlMs c) (hs : c.step ttlMs call = some c') (hplain : call.Plain) :
    Agree ttlMs c' := by
  obtain ⟨hclock, rfl⟩ := Caches.step_cases hs
  cases call with
  | get now u t =>
    have hle : c.last ≤ now := by simpa [Call.readings] using hclock
    exact (AgreeFrom.later h hle).congr_left fun later hlater pair _ => shown_get hlater pair
  | set checked written u t perms =>
    have hle : (c.last ≤ checked ∧ c.last ≤ written) ∧ checked ≤ written := by
      simpa [Call.readings] using hclock
    exact agree_set h hle.1.1 hle.2 hplain.1 hplain.2 perms
  | writeThrough now u t perms =>
    have hle : c.last ≤ now := by simpa [Call.readings] using hclock
    exact agree_writeThrough h hle hplain.2 perms
  | invalidate u t =>
    exact AgreeFrom.erase _ h fun later pair hpair => shown_invalidate hpair hplain.2
  | invalidateUser u =>
    refine AgreeFrom.erase _ h fun later pair hpair => ?_
    refine (shown_popEach _ pair).trans (if_congr ?_ rfl rfl)
    exact startsWith_memoryKey_iff hplain hpair.1 pair.2
  | invalidateTenant t =>
    refine AgreeFrom.erase _ h fun later pair hpair => ?_
    refine (shown_popEach _ pair).trans (if_congr ?_ rfl rfl)
    exact endsWith_memoryKey_iff hplain hpair.2 pair.1

/-- An empty cache agrees with an empty reference. -/
theorem agree_start (ttlMs : Option ℚ) (now : ℚ) : Agree ttlMs (Caches.start now) :=
  fun _ _ pair _ => shown_eq .empty _ pair

/-- So every run does. -/
theorem agree_run {calls : List Call} {start : ℚ}
    (hrun : run (Caches.step ttlMs) (Caches.start start) calls = some c)
    (hplain : ∀ call ∈ calls, call.Plain) : Agree ttlMs c :=
  run_invariant (Agree ttlMs) (fun _ _ _ h hs hp => agree_step h hs hp) hrun
    (along_of_forall hplain) (agree_start ttlMs start)

/-- A `set` that finds nothing live is the `set` of a cache without the entry. -/
theorem set_of_invalidated {checked : ℚ} (store : MemoryStore) (perms : List Json)
    (h : shown store checked (u, t) = none) (k : String) :
    (set ttlMs checked written store u t perms).get? k =
      (set ttlMs checked written (invalidate store u (some t)) u t perms).get? k := by
  rw [set_of_not_shown h, set_of_not_shown (shown_invalidate_same store checked u t)]
  by_cases hk : k = memoryKey u t
  · simp [writeThrough, hk]
  · simp [writeThrough, invalidate, hk]

/-- After every run, with a clock that does not run backwards and ids without colons, a
`get` answers what the reference holds at that time. A `set` against an entry that is there
leaves the dictionary as it is, value and expiry; against one that is over, it leaves what
it would leave had the entry never been, and so does the answer of a `get`. -/
theorem lazyExpiry_exact {calls : List Call} {start : ℚ}
    (hrun : run (Caches.step ttlMs) (Caches.start start) calls = some c)
    (hplain : ∀ call ∈ calls, call.Plain) (hu : ColonFree u) (ht : ColonFree t)
    (hnow : c.last ≤ now) (written : ℚ) (perms : List Json) :
    (InMemoryCache.get now c.memory u t).1 = c.reference.presentAt (lives ttlMs) now (u, t) ∧
      ((c.reference.presentAt (lives ttlMs) now (u, t)).isSome →
        set ttlMs now written c.memory u t perms = c.memory) ∧
      (c.reference.presentAt (lives ttlMs) now (u, t) = none →
        (InMemoryCache.get now c.memory u t).1 =
          (InMemoryCache.get now (invalidate c.memory u (some t)) u t).1 ∧
        ∀ k, (set ttlMs now written c.memory u t perms).get? k =
          (set ttlMs now written (invalidate c.memory u (some t)) u t perms).get? k) := by
  have hagree : Agree ttlMs c := agree_run hrun hplain
  have hanswer : shown c.memory now (u, t) = c.reference.presentAt (lives ttlMs) now (u, t) :=
    hagree now hnow (u, t) ⟨hu, ht⟩
  refine ⟨hanswer, fun hpresent => ?_, fun habsent => ⟨?_, ?_⟩⟩
  · rw [← hanswer] at hpresent
    exact set_of_shown hpresent
  · exact (hanswer.trans habsent).trans (shown_invalidate_same c.memory now u t).symm
  · exact set_of_invalidated c.memory perms (hanswer.trans habsent)

end runs

/-- A list, a `set` that comes while it is there, and one that comes at the instant it is
over and writes its own a second later. -/
def someCalls : List Call :=
  [.set 0 0 "user-1" "tenant-1" [.str "helios:members:view"],
    .set 1 1 "user-1" "tenant-1" [],
    .set 2 3 "user-1" "tenant-1" [.str "helios:members:manage"]]

/-- With two seconds to live, the list of the last `set` is there until its fifth second. -/
theorem lazyExpiry_exact_twice : ∃ c : Caches,
    run (Caches.step (some 2000)) (Caches.start 0) someCalls = some c ∧
      (InMemoryCache.get 4 c.memory "user-1" "tenant-1").1 = some [.str "helios:members:manage"] ∧
      (InMemoryCache.get 5 c.memory "user-1" "tenant-1").1 = none := by
  have hplain : ∀ call ∈ someCalls, call.Plain := by
    simp [someCalls, Call.Plain, ColonFree]
  have hrun : run (Caches.step (some 2000)) (Caches.start 0) someCalls =
      some ⟨someCalls.foldl (memoryAfter (some 2000)) .empty,
        someCalls.foldl (referenceAfter (some 2000)) (fun _ => none), 3⟩ := by
    norm_num [someCalls, run, Caches.step, Caches.start, Call.readings]
  have hu : ColonFree "user-1" := by simp [ColonFree]
  have ht : ColonFree "tenant-1" := by simp [ColonFree]
  refine ⟨_, hrun, (lazyExpiry_exact hrun hplain hu ht (by norm_num) 4 []).1.trans ?_,
    (lazyExpiry_exact hrun hplain hu ht (by norm_num) 5 []).1.trans ?_⟩
  · norm_num [someCalls, referenceAfter, Stamped.writeNew, Stamped.write, Stamped.presentAt, lives]
  · norm_num [someCalls, referenceAfter, Stamped.writeNew, Stamped.write, Stamped.presentAt, lives]

end HeliosPermissions.LazyExpiry
