import HeliosPermissions.RevocationEffects

/-!
# Bulk invalidations that miss their own entries

An id is written into a pattern as it is. When it reads as something else there,
the entries of that id are no matches, and a bulk invalidation returns without
having touched them. An opening bracket or a backslash is needed for that; a
star, a question mark or a closing bracket still finds itself.
-/

namespace HeliosPermissions.BulkInvalidations

open JsonValues CacheKeys GlobPattern CacheStore ClientWorld PermissionCaches
open RedisPermissionCache RevocationEffects

variable {Raw : Type} (codec : JsonCodec Raw) (ttlSeconds : ℕ)

/-- Whatever is stored and however the pages fall, when the bulk invalidation of
this scope returns, `get` is a miss for the pair. -/
def Clears (scope : Scope) (u t : String) : Prop :=
  ∀ (content : OrderedDict String (Raw × Option ℕ)) (rounds : List ScanRound) (count : ℕ)
    (store' : Store Raw),
    invalidateAll (redisBackend codec ttlSeconds) (Server.start content).clock
      (Server.start content).store scope rounds = some (.ok count, store') →
    get (redisBackend codec ttlSeconds) store' u t .executes = .ok none

/-- `invalidate(user_id)` never misses. -/
def UserCleared (u : String) : Prop := ∀ t, Clears codec ttlSeconds (.user u) u t

/-- `invalidate_tenant(tenant_id)` never misses. -/
def TenantCleared (t : String) : Prop := ∀ u, Clears codec ttlSeconds (.tenant t) u t

/-- An id without the characters that can make a pattern miss its own text. -/
def Unbracketed (s : String) : Prop := '[' ∉ s.toList ∧ '\\' ∉ s.toList

/-- A bulk invalidation clears a pair exactly when its pattern selects the key. -/
theorem clears_iff (scope : Scope) (u t : String) :
    Clears codec ttlSeconds scope u t ↔
      (redisBackend codec ttlSeconds).selects scope (redisKey u t) = true := by
  constructor
  · intro hclears
    by_contra hmiss
    -- one entry, and a scan that finds nothing
    let content : OrderedDict String (Raw × Option ℕ) :=
      OrderedDict.empty.set (redisKey u t) (codec.dumps [], none)
    have hpresent : (Server.start content).store.get? (redisKey u t) =
        some ⟨codec.dumps [], .initial, 0, 0, none⟩ := by
      simp [Server.start, content]
    have hallowed : PageAllowed (redisBackend codec ttlSeconds)
        (Server.start content).clock ⟨none, []⟩ (Server.start content).store scope 0 [] := by
      refine ⟨by simp, fun _ b hb hsel _ => ?_⟩
      have hget := OrderedDict.mem_entries.mp (show (b.1, b.2) ∈ _ from hb)
      have hkey : b.1 = redisKey u t := by
        by_contra hne
        simp [Server.start, content, hne] at hget
      exact absurd (hkey ▸ hsel) hmiss
    have hscan : invalidateAll (redisBackend codec ttlSeconds) (Server.start content).clock
        (Server.start content).store scope [⟨some (0, []), .executes⟩] =
          some (.ok 0, (Server.start content).store) := by
      rw [invalidateAll, scanAndDelete]
      dsimp only
      rw [if_pos hallowed, if_pos rfl, if_pos rfl]
    have hget := hclears content _ 0 _ hscan
    have hloads : (redisBackend codec ttlSeconds).loads (codec.dumps []) = .ok (.arr []) :=
      codec.loads_dumps []
    have hhit : get (redisBackend codec ttlSeconds) (Server.start content).store u t .executes =
        .ok (some []) := by
      change decodeGet _ (.value (((Server.start content).store.get? (redisKey u t)).map _)) = _
      rw [hpresent, Option.map_some, decodeGet, hloads]
    rw [hhit] at hget
    cases hget
  · intro hsel content rounds count store' hscan
    have hnone : store'.get? (redisKey u t) = none :=
      scanAndDelete_clears hscan (start_past content) (by simp) hsel
    change decodeGet _ (.value ((store'.get? (redisKey u t)).map _)) = _
    rw [hnone]
    rfl

/-- The pattern of a tenant: the prefix, anything, and the id read as a pattern. -/
theorem tokens_tenantPattern (t : String) : tokens (utf8 (tenantPattern t)) =
    (utf8 keyPrefix).map .lit ++ .star :: tokens (utf8 (":" ++ t)) := by
  rw [tenantPattern_eq, String.append_assoc, utf8_append, utf8_append _ (":" ++ t),
    tokens_append_literal fun b hb => not_isMeta_of_globFree globFree_keyPrefix hb]
  exact congrArg _ (tokens_cons_star _)

/-- It selects a key of the tenant when some end of what follows the prefix matches. -/
theorem tenantPattern_selects_iff (t u : String) :
    globMatch (tenantPattern t) (redisKey u t) = true ↔
      anySuffix (matchTokens (tokens (utf8 (":" ++ t)))) (utf8 u ++ utf8 (":" ++ t)) = true := by
  have hkey : utf8 (redisKey u t) = utf8 keyPrefix ++ (utf8 u ++ utf8 (":" ++ t)) := by
    simp [redisKey, String.append_assoc]
  rw [globMatch, tokens_tenantPattern, hkey, matchTokens_literal_iff]
  constructor
  · rintro ⟨rest, hrest, hm⟩
    rw [List.append_cancel_left hrest]
    exact hm
  · exact fun h => ⟨_, rfl, h⟩

/-- The pattern of a tenant selects every key of the tenant, or the one without a user
is already missed. -/
theorem tenantPattern_any_user (t u : String)
    (h : globMatch (tenantPattern t) (redisKey "" t) = true) :
    globMatch (tenantPattern t) (redisKey u t) = true := by
  rw [tenantPattern_selects_iff] at h ⊢
  obtain ⟨front, back, hsplit, hback⟩ := exists_suffix_of_anySuffix h
  have hall : anySuffix _ (utf8 u ++ front ++ back) = true := anySuffix_of_suffix hback
  have hempty : utf8 "" = [] := rfl
  rw [hempty, List.nil_append] at hsplit
  rwa [List.append_assoc, ← hsplit] at hall

/-- The bulk invalidation of a user never misses exactly when the pattern made of the
id, with the id read as a pattern, accepts every key that the id spells; for a
tenant one such key decides. -/
theorem bulk_invalidation_iff (u t : String) :
    (UserCleared codec ttlSeconds u ↔
      ∀ t', globMatch (userPattern u) (redisKey u t') = true) ∧
    (TenantCleared codec ttlSeconds t ↔
      globMatch (tenantPattern t) (redisKey "" t) = true) := by
  refine ⟨forall_congr' fun t' => clears_iff codec ttlSeconds (.user u) u t', ?_⟩
  constructor
  · exact fun h => (clears_iff codec ttlSeconds (.tenant t) "" t).mp (h "")
  · exact fun h u' => (clears_iff codec ttlSeconds (.tenant t) u' t).mpr
      (tenantPattern_any_user t u' h)

/-- No byte of such an id opens a class or escapes. -/
theorem Unbracketed.bytes {s : String} (h : Unbracketed s) :
    ∀ b ∈ utf8 s, b ≠ 91 ∧ b ≠ 92 := by
  rintro b hb
  constructor
  · rintro rfl
    exact byte_ne_of_not_mem (by decide) h.1 hb rfl
  · rintro rfl
    exact byte_ne_of_not_mem (by decide) h.2 hb rfl

/-- A user id without opening brackets and backslashes is never missed. -/
theorem userCleared_of_unbracketed {u : String} (h : Unbracketed u) :
    UserCleared codec ttlSeconds u := by
  refine fun t => (clears_iff codec ttlSeconds (.user u) u t).mpr ?_
  have hfront : Unbracketed (keyPrefix ++ u ++ ":") := by
    simpa [Unbracketed, keyPrefix] using h
  change globMatch (userPattern u) (redisKey u t) = true
  rw [userPattern_eq, globMatch, utf8_append, tokens_append_unbracketed hfront.bytes, redisKey,
    utf8_append _ t]
  refine matchTokens_tokenOf ?_ _
  have hend : anySuffix (matchTokens []) (utf8 t ++ []) = true := anySuffix_of_suffix rfl
  rwa [List.append_nil] at hend

/-- Nor is such a tenant id. -/
theorem tenantCleared_of_unbracketed {t : String} (h : Unbracketed t) :
    TenantCleared codec ttlSeconds t := by
  refine fun u => (clears_iff codec ttlSeconds (.tenant t) u t).mpr (tenantPattern_any_user t u ?_)
  have hback : Unbracketed (":" ++ t) := by simpa [Unbracketed] using h
  have htokens : tokens (utf8 (":" ++ t)) = (utf8 (":" ++ t)).map tokenOf := by
    simpa [tokens] using tokens_append_unbracketed hback.bytes []
  have hnil : matchTokens [] [] = true := rfl
  have hself := matchTokens_tokenOf hnil (utf8 (":" ++ t))
  rw [List.append_nil, List.append_nil] at hself
  rw [tenantPattern_selects_iff, htokens]
  exact anySuffix_of_suffix hself

/-- An id in brackets is read as a class of one byte. -/
theorem bracketed_user_not_cleared : ¬UserCleared plainCodec 0 "[ab]" := by
  rintro h
  exact absurd ((clears_iff plainCodec 0 (.user "[ab]") "[ab]" "tenant-1").mp (h "tenant-1"))
    (by decide)

end HeliosPermissions.BulkInvalidations
