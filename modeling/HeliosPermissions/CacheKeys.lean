import HeliosPermissions.GlobPattern

/-!
# Composite keys of the caches and of the in-flight table

Three keys are built from a user id and a tenant id by writing a colon between
them: the Redis key, the key of the in-memory cache, and the lock key of the
client. None of them escapes the colon. Two pairs share a key exactly when the
two ids joined by a colon spell the same string, which needs a colon inside an
id; it cannot happen between tenant ids without one.
-/

namespace HeliosPermissions.CacheKeys

open GlobPattern

/-- `KEY_PREFIX` of the Redis cache. -/
def keyPrefix : String := "helios:perms:"

/-- `RedisPermissionCache._key`. -/
def redisKey (userId tenantId : String) : String := keyPrefix ++ userId ++ ":" ++ tenantId

/-- `RedisPermissionCache._user_pattern`. -/
def userPattern (userId : String) : String := keyPrefix ++ userId ++ ":*"

/-- `RedisPermissionCache._tenant_pattern`. -/
def tenantPattern (tenantId : String) : String := keyPrefix ++ "*:" ++ tenantId

/-- `InMemoryPermissionCache._key`. -/
def memoryKey (userId tenantId : String) : String := userId ++ ":" ++ tenantId

/-- `InMemoryPermissionCache._user_prefix`. -/
def userPrefix (userId : String) : String := userId ++ ":"

/-- `InMemoryPermissionCache._tenant_suffix`. -/
def tenantSuffix (tenantId : String) : String := ":" ++ tenantId

/-- `lock_key` in `PermissionClient._resolve_perms`. -/
def lockKey (userId tenantId : String) : String := userId ++ ":" ++ tenantId

/-- `key.startswith(front)`. -/
def startsWith (key front : String) : Bool := front.toList.isPrefixOf key.toList

/-- `key.endswith(back)`. -/
def endsWith (key back : String) : Bool := back.toList.isSuffixOf key.toList

/-- An id without a colon, as tenant ids are documented to be (UUIDs). -/
def ColonFree (s : String) : Prop := ':' ∉ s.toList

instance (s : String) : Decidable (ColonFree s) :=
  inferInstanceAs (Decidable (':' ∉ s.toList))

/-- Redis keys collide exactly when the lock keys do. -/
theorem redisKey_eq_iff {u t u' t' : String} :
    redisKey u t = redisKey u' t' ↔ lockKey u t = lockKey u' t' := by
  simp [redisKey, lockKey, String.append_assoc]

section splits

variable {α : Type} {sep : α} {u t u' t' : List α}

/-- A list is split at its last separator in one way only. -/
theorem split_last (ht : sep ∉ t) (ht' : sep ∉ t') (h : u ++ sep :: t = u' ++ sep :: t') :
    u = u' ∧ t = t' := by
  rcases List.append_eq_append_iff.mp h with ⟨mid, rfl, hmid⟩ | ⟨mid, rfl, hmid⟩
  · cases mid with
    | nil => simpa using hmid
    | cons c mid =>
      -- the second separator would lie inside the first tail
      obtain ⟨-, rfl⟩ := List.cons.inj hmid
      exact absurd (by simp) ht
  · cases mid with
    | nil => simpa [eq_comm] using hmid
    | cons c mid =>
      obtain ⟨-, rfl⟩ := List.cons.inj hmid
      exact absurd (by simp) ht'

/-- And at its first separator too. -/
theorem split_first (hu : sep ∉ u) (hu' : sep ∉ u') (h : u ++ sep :: t = u' ++ sep :: t') :
    u = u' ∧ t = t' := by
  have hrev := congrArg List.reverse h
  simp only [List.reverse_append, List.reverse_cons, List.append_assoc,
    List.singleton_append] at hrev
  obtain ⟨ht, hu⟩ := split_last (by simpa using hu) (by simpa using hu') hrev
  exact ⟨List.reverse_injective hu, List.reverse_injective ht⟩

end splits

/-- Between tenant ids without a colon the lock key determines the pair, for
user ids of any characters. -/
theorem lockKey_injective {u t u' t' : String} (ht : ColonFree t) (ht' : ColonFree t')
    (h : lockKey u t = lockKey u' t') : u = u' ∧ t = t' := by
  have hl := congrArg String.toList h
  simp only [lockKey, String.toList_append, List.append_assoc] at hl
  obtain ⟨hu, ht⟩ := split_last ht ht' hl
  exact ⟨String.toList_inj.mp hu, String.toList_inj.mp ht⟩

/-- The same for the Redis key. -/
theorem redisKey_injective {u t u' t' : String} (ht : ColonFree t) (ht' : ColonFree t')
    (h : redisKey u t = redisKey u' t') : u = u' ∧ t = t' :=
  lockKey_injective ht ht' (redisKey_eq_iff.mp h)

theorem globFree_keyPrefix : GlobFree keyPrefix := by simp [GlobFree, keyPrefix, isMetaChar]

theorem globFree_colon : GlobFree ":" := by simp [GlobFree, isMetaChar]

theorem globFree_append {s t : String} (hs : GlobFree s) (ht : GlobFree t) :
    GlobFree (s ++ t) := by
  intro c hc
  rw [String.toList_append] at hc
  rcases List.mem_append.mp hc with hc | hc
  · exact hs c hc
  · exact ht c hc

/-- The pattern of a user is its prefix and a star. -/
theorem userPattern_eq (u : String) : userPattern u = keyPrefix ++ u ++ ":" ++ "*" := by
  simp [userPattern, String.append_assoc]

/-- The pattern of a tenant is a star and its suffix. -/
theorem tenantPattern_eq (t : String) : tenantPattern t = keyPrefix ++ "*" ++ (":" ++ t) := by
  rw [tenantPattern, show "*:" = "*" ++ ":" from rfl]
  simp only [String.append_assoc]

/-- The pattern of a user id without pattern characters finds every key of the
user. -/
theorem userPattern_redisKey {u : String} (hu : GlobFree u) (t : String) :
    globMatch (userPattern u) (redisKey u t) = true := by
  have hfree : GlobFree (keyPrefix ++ u ++ ":") :=
    globFree_append (globFree_append globFree_keyPrefix hu) globFree_colon
  rw [userPattern_eq, globMatch_front_star hfree]
  exact ⟨utf8 t, by rw [redisKey, utf8_append]⟩

/-- The pattern of a tenant id without pattern characters finds every key of the
tenant. -/
theorem tenantPattern_redisKey {t : String} (ht : GlobFree t) (u : String) :
    globMatch (tenantPattern t) (redisKey u t) = true := by
  rw [tenantPattern_eq,
    globMatch_front_star_back globFree_keyPrefix (globFree_append globFree_colon ht)]
  refine ⟨utf8 u, ?_⟩
  rw [redisKey, String.append_assoc, utf8_append, utf8_append]

/-- The bytes of a key after the prefix. -/
theorem utf8_redisKey (u t : String) :
    utf8 (redisKey u t) = utf8 keyPrefix ++ (utf8 u ++ 58 :: utf8 t) := by
  have hcolon : utf8 ":" = [58] := rfl
  simp [redisKey, hcolon]

/-- A colon-free text has no colon byte. -/
theorem colon_not_mem_utf8 {s : String} (h : ColonFree s) : 58 ∉ utf8 s :=
  fun hmem => byte_ne_of_not_mem (by decide : ':'.toNat < 128) h hmem rfl

/-- The pattern of a user selects, of the keys of ids without colons and pattern
characters, those of the user. -/
theorem userPattern_redisKey_iff {u u' : String} (hu : GlobFree u) (hc : ColonFree u)
    (hc' : ColonFree u') (t' : String) :
    globMatch (userPattern u) (redisKey u' t') = true ↔ u' = u := by
  constructor
  · intro h
    have hfree : GlobFree (keyPrefix ++ u ++ ":") :=
      globFree_append (globFree_append globFree_keyPrefix hu) globFree_colon
    rw [userPattern_eq, globMatch_front_star hfree, utf8_redisKey] at h
    obtain ⟨rest, hrest⟩ := h
    have hcolon : utf8 ":" = [58] := rfl
    rw [utf8_append, utf8_append, hcolon, List.append_assoc, List.append_assoc,
      List.append_cancel_left_eq, List.singleton_append] at hrest
    exact utf8_injective (split_first (colon_not_mem_utf8 hc') (colon_not_mem_utf8 hc) hrest).1
  · rintro rfl
    exact userPattern_redisKey hu t'

/-- The pattern of a tenant selects, of the same keys, those of the tenant. -/
theorem tenantPattern_redisKey_iff {t t' : String} (ht : GlobFree t) (hc : ColonFree t)
    (hc' : ColonFree t') (u' : String) :
    globMatch (tenantPattern t) (redisKey u' t') = true ↔ t' = t := by
  constructor
  · intro h
    rw [tenantPattern_eq,
      globMatch_front_star_back globFree_keyPrefix (globFree_append globFree_colon ht),
      utf8_redisKey] at h
    obtain ⟨mid, hmid⟩ := h
    have hcolon : utf8 ":" = [58] := rfl
    rw [utf8_append, hcolon, List.append_assoc, List.append_cancel_left_eq,
      List.singleton_append] at hmid
    exact utf8_injective (split_last (colon_not_mem_utf8 hc') (colon_not_mem_utf8 hc) hmid).2
  · rintro rfl
    exact tenantPattern_redisKey ht u'

/-- The prefix test of the in-memory cache selects the keys of the user. -/
theorem startsWith_memoryKey_iff {u u' : String} (hc : ColonFree u) (hc' : ColonFree u')
    (t' : String) : startsWith (memoryKey u' t') (userPrefix u) = true ↔ u' = u := by
  rw [startsWith, List.isPrefixOf_iff_prefix]
  simp only [memoryKey, userPrefix, String.toList_append, List.append_assoc]
  constructor
  · rintro ⟨rest, hrest⟩
    rw [List.append_assoc] at hrest
    exact String.toList_inj.mp (split_first hc hc' hrest).1.symm
  · rintro rfl
    exact ⟨t'.toList, by simp⟩

/-- The suffix test selects the keys of the tenant. -/
theorem endsWith_memoryKey_iff {t t' : String} (hc : ColonFree t) (hc' : ColonFree t')
    (u' : String) : endsWith (memoryKey u' t') (tenantSuffix t) = true ↔ t' = t := by
  rw [endsWith, List.isSuffixOf_iff_suffix]
  simp only [memoryKey, tenantSuffix, String.toList_append, List.append_assoc]
  constructor
  · rintro ⟨front, hfront⟩
    exact String.toList_inj.mp (split_last hc hc' hfront).2.symm
  · rintro rfl
    exact ⟨u'.toList, by simp⟩

end HeliosPermissions.CacheKeys
