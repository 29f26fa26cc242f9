import HeliosPermissions.BackendMaps
import HeliosPermissions.JsonText

/-!
# Clients over Redis and clients over the in-memory cache

The keys of `RedisPermissionCache` are those of `InMemoryPermissionCache` under a
prefix, its values are the JSON texts of the lists, and its two patterns select, for ids
without pattern characters, what the prefix and suffix tests select. So the system over
the one cache runs exactly as the system over the other.
-/

namespace HeliosPermissions.MemoryRuns

open JsonValues JsonText CacheKeys CacheStore ClientWorld GlobPattern CallShapes PartialRuns
open BackendMaps

variable {Raw : Type}

/-- The Redis key for a key of the in-memory cache. -/
def prefixed (k : String) : String := keyPrefix ++ k

/-- The prefix keeps keys apart. -/
theorem prefixed_injective : Function.Injective prefixed := by
  intro k k' h
  have hl := congrArg String.toList h
  simp only [prefixed, String.toList_append, List.append_cancel_left_eq] at hl
  exact String.toList_inj.mp hl

/-- Clients over `RedisPermissionCache`. -/
def redisConfig (codec : JsonCodec Raw) (ttlSeconds : ℕ) (staleOnError : ClientId → Bool) :
    Config Raw where
  backend := redisBackend codec ttlSeconds
  staleOnError := staleOnError

/-- Clients over the keys and tests of `InMemoryPermissionCache`. -/
def memoryConfig (ttlSeconds : ℕ) (staleOnError : ClientId → Bool) : Config (List Json) where
  backend := memoryBackend ttlSeconds
  staleOnError := staleOnError

/-- The Redis cache as an image of the in-memory cache. -/
def redisImage (codec : JsonCodec Raw) (ttlSeconds : ℕ) (staleOnError : ClientId → Bool) :
    BackendMap (memoryConfig ttlSeconds staleOnError).backend
      (redisConfig codec ttlSeconds staleOnError).backend where
  rename := prefixed
  rename_injective := prefixed_injective
  spell := codec.dumps
  key u t := by
    simp [redisConfig, redisBackend, memoryConfig, memoryBackend, redisKey, memoryKey, prefixed,
      String.append_assoc]
  dumps _ := rfl
  loads raw := codec.loads_dumps raw
  ttlSeconds := rfl

/-- The keys that the pattern of a user selects are those that the prefix test selects,
prefixed. -/
theorem userPattern_prefixed {u : String} (hu : GlobFree u) (k' : String) :
    globMatch (userPattern u) k' = true ↔
      ∃ k, k' = prefixed k ∧ startsWith k (userPrefix u) = true := by
  have hfree : GlobFree (keyPrefix ++ u ++ ":") :=
    globFree_append (globFree_append globFree_keyPrefix hu) globFree_colon
  have hcolon : utf8 ":" = [58] := rfl
  rw [userPattern_eq, globMatch_front_star hfree]
  constructor
  · rintro ⟨rest, hrest⟩
    rw [utf8_append, hcolon, List.append_assoc, List.singleton_append] at hrest
    obtain ⟨s, t, rfl, hs, -⟩ := utf8_split_colon hrest
    obtain rfl := utf8_injective hs
    refine ⟨u ++ ":" ++ t, by simp [prefixed, String.append_assoc], ?_⟩
    rw [startsWith, List.isPrefixOf_iff_prefix]
    exact ⟨t.toList, by simp [userPrefix]⟩
  · rintro ⟨k, rfl, hk⟩
    rw [startsWith, List.isPrefixOf_iff_prefix] at hk
    obtain ⟨rest, hrest⟩ := hk
    have hk : k = u ++ ":" ++ String.ofList rest :=
      String.toList_inj.mp (by simp [← hrest, userPrefix])
    exact ⟨utf8 (String.ofList rest), by rw [hk, prefixed]; simp⟩

/-- The keys that the pattern of a tenant selects are those that the suffix test selects,
prefixed. -/
theorem tenantPattern_prefixed {t : String} (ht : GlobFree t) (k' : String) :
    globMatch (tenantPattern t) k' = true ↔
      ∃ k, k' = prefixed k ∧ endsWith k (tenantSuffix t) = true := by
  have hcolon : utf8 ":" = [58] := rfl
  have hhead : keyPrefix = "helios:perms" ++ ":" := by decide
  rw [tenantPattern_eq,
    globMatch_front_star_back globFree_keyPrefix (globFree_append globFree_colon ht)]
  constructor
  · rintro ⟨mid, hmid⟩
    rw [utf8_append, hcolon, List.singleton_append] at hmid
    obtain ⟨s, t', rfl, hs, ht'⟩ := utf8_split_colon hmid
    obtain rfl := utf8_injective ht'
    rw [hhead, utf8_append, hcolon, List.append_assoc, List.singleton_append] at hs
    obtain ⟨a, b, rfl, ha, -⟩ := utf8_split_colon hs
    obtain rfl := utf8_injective ha
    refine ⟨b ++ ":" ++ t', by simp [prefixed, hhead, String.append_assoc], ?_⟩
    rw [endsWith, List.isSuffixOf_iff_suffix]
    exact ⟨b.toList, by simp [tenantSuffix]⟩
  · rintro ⟨k, rfl, hk⟩
    rw [endsWith, List.isSuffixOf_iff_suffix] at hk
    obtain ⟨front, hfront⟩ := hk
    have hk : k = String.ofList front ++ (":" ++ t) :=
      String.toList_inj.mp (by simp [← hfront, tenantSuffix])
    exact ⟨utf8 (String.ofList front), by rw [hk, prefixed]; simp⟩

/-- The id of a bulk invalidation has no pattern characters. -/
def PlainScope : Scope → Prop
  | .user u => GlobFree u
  | .tenant t => GlobFree t

/-- Plain ids are matched by the pattern as by the prefix or the suffix. -/
theorem aligned_of_plain {codec : JsonCodec Raw} {ttlSeconds : ℕ}
    {staleOnError : ClientId → Bool} {scope : Scope} (h : PlainScope scope) :
    (redisImage codec ttlSeconds staleOnError).Aligned scope := by
  intro k'
  cases scope with
  | user u => exact userPattern_prefixed h k'
  | tenant t => exact tenantPattern_prefixed h k'

/-- The bulk invalidation that an action starts, if any, names an id without pattern
characters. -/
def PlainBulk : Action → Prop
  | .mutate request => ∀ scope ∈ requestScope request, PlainScope scope
  | _ => True

/-- The content of Redis for a content of the in-memory cache. -/
def spelled (codec : JsonCodec Raw) (content : OrderedDict String (List Json × Option ℕ)) :
    OrderedDict String (Raw × Option ℕ) :=
  content.mapEntries prefixed prefixed_injective fun v => (codec.dumps v.1, v.2)

/-- The spelled start is the image of the start. -/
theorem init_spelled (codec : JsonCodec Raw) (ttlSeconds : ℕ) (staleOnError : ClientId → Bool)
    (content : OrderedDict String (List Json × Option ℕ)) (membership : String → String → Json) :
    World.init (spelled codec content) membership =
      (redisImage codec ttlSeconds staleOnError).world (.init content membership) := by
  have hstore : (spelled codec content).mapValues
      (fun v => (⟨v.1, .initial, 0, 0, v.2⟩ : Entry Raw)) =
        (redisImage codec ttlSeconds staleOnError).store
          (content.mapValues fun v => ⟨v.1, .initial, 0, 0, v.2⟩) := by
    refine OrderedDict.ext_entries ?_
    simp only [OrderedDict.mapValues, spelled, OrderedDict.mapEntries, BackendMap.store,
      List.map_map]
    rfl
  simp only [World.init, hstore]
  rfl

/-- For bulk invalidations of ids without pattern characters, the runs over the one cache are
the images of the runs over the other. -/
theorem redis_image (codec : JsonCodec Raw) (ttlSeconds : ℕ) (staleOnError : ClientId → Bool)
    (content : OrderedDict String (List Json × Option ℕ)) (membership : String → String → Json)
    {bs : List Action} (hbs : ∀ b ∈ bs, PlainBulk b) (w' : World Raw) :
    run (step (redisConfig codec ttlSeconds staleOnError))
        (.init (spelled codec content) membership) bs = some w' ↔
      ∃ as w, bs = as.map (redisImage codec ttlSeconds staleOnError).action ∧
        run (step (memoryConfig ttlSeconds staleOnError)) (.init content membership) as =
          some w ∧
        w' = (redisImage codec ttlSeconds staleOnError).world w := by
  have hstart : Mappable (redisImage codec ttlSeconds staleOnError)
      (.init content membership) :=
    ⟨init_callsShaped _ content membership, fun j q scope h _ => nomatch h⟩
  have haligned : ∀ b ∈ bs, AlignedAction (redisImage codec ttlSeconds staleOnError) b := by
    rintro b hb request scope rfl hscope
    exact aligned_of_plain (hbs _ hb scope hscope)
  rw [init_spelled codec ttlSeconds staleOnError]
  exact run_iff_image (redisImage codec ttlSeconds staleOnError) rfl hstart haligned w'

/-- Clients over Redis run exactly as clients over the in-memory cache do, for any ids as
long as bulk invalidations name ids without pattern characters: the runs correspond action
by action, whatever the faults, interleavings and expiries, and end with the same answers,
in-flight tables and calls of Helios. -/
theorem redis_runs_iff (codec : JsonCodec Raw) (ttlSeconds : ℕ) (staleOnError : ClientId → Bool)
    (content : OrderedDict String (List Json × Option ℕ)) (membership : String → String → Json)
    {bs : List Action} (hbs : ∀ b ∈ bs, PlainBulk b) (w' : World Raw) :
    run (step (redisConfig codec ttlSeconds staleOnError))
        (.init (spelled codec content) membership) bs = some w' ↔
      ∃ as w, bs = as.map (redisImage codec ttlSeconds staleOnError).action ∧
        run (step (memoryConfig ttlSeconds staleOnError)) (.init content membership) as =
          some w ∧
        w' = (redisImage codec ttlSeconds staleOnError).world w :=
  redis_image codec ttlSeconds staleOnError content membership hbs w'

/-- A read that populates, and an invalidation of its user that finds the key. -/
def someActions : List Action :=
  [.read 0 "user-1" "tenant-1" .getUserPermissions, .serveRead 0 .executes, .resumeRead 0,
    .sample 0 .answers, .resumeRead 0, .serveRead 0 .executes, .resumeRead 0,
    .mutate (.invalidate "user-1" none),
    .serveMutation 0 (.returns 0 ["helios:perms:user-1:tenant-1"]), .resumeMutation 0,
    .serveMutation 0 .executes, .resumeMutation 0]

/-- They run on Redis as on the in-memory cache. -/
theorem redis_runs_iff_someActions : ∃ (w' : World ByteArray) (as : List Action)
    (w : World (List Json)),
    run (step (redisConfig utf8Json.toCodec 60 fun _ => true))
        (.init (spelled utf8Json.toCodec .empty) fun _ _ => activeBody [.str "a:b"])
        someActions = some w' ∧
      someActions = as.map (redisImage utf8Json.toCodec 60 fun _ => true).action ∧
      run (step (memoryConfig 60 fun _ => true))
        (.init .empty fun _ _ => activeBody [.str "a:b"]) as = some w ∧
      w' = (redisImage utf8Json.toCodec 60 fun _ => true).world w :=
  have hplain : ∀ b ∈ someActions, PlainBulk b := by
    simp [someActions, PlainBulk, requestScope, PlainScope, GlobFree, isMetaChar]
  have hrun : run (step (redisConfig utf8Json.toCodec 60 fun _ => true))
      (.init (spelled utf8Json.toCodec .empty) fun _ _ => activeBody [.str "a:b"])
      someActions = some _ := rfl
  have himage := (redis_runs_iff utf8Json.toCodec 60 (fun _ => true) .empty
    (fun _ _ => activeBody [.str "a:b"]) hplain _).mp hrun
  himage.elim fun as hw => hw.elim fun w h => ⟨_, as, w, hrun, h⟩

end HeliosPermissions.MemoryRuns
