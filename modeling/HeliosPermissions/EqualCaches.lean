import HeliosPermissions.CoherentSessions

/-!
# The methods on caches with the same values

Who stored a value, when, and in what order the keys came is read by no method.
Two caches with the same values under the same keys give every call the same
result, at different times even, and have the same values again after it. For a
bulk invalidation every key has to have been there when the scan starts.
-/

namespace HeliosPermissions.EqualCaches

open JsonValues CacheKeys CacheStore HeliosResolution ClientWorld PermissionCaches ErasedCancels
open RevocationEffects SequentialReads
open RedisPermissionCache (ScanRound scanAndDelete invalidateAll)

variable {Raw : Type} {backend : Backend Raw} {s t : Store Raw}

/-- What holds the same holds the same the other way round. -/
theorem sameValues_symm (h : SameValues s t) : SameValues t s := fun k => (h k).symm

/-- Two stores that hold what a third one holds. -/
theorem sameValues_trans {t' : Store Raw} (h : SameValues s t) (h' : SameValues t t') :
    SameValues s t' :=
  fun k => (h' k).trans (h k)

/-- A command answers the same, and keeps the values the same. -/
theorem send_same (h : SameValues s t) (now now' : ℕ) (origin origin' : Origin)
    (cmd : Command Raw) (fate : CommandFate) :
    (send now' origin' t cmd fate).1 = (send now origin s cmd fate).1 ∧
      SameValues (send now origin s cmd fate).2 (send now' origin' t cmd fate).2 := by
  have hexec := execute_same h now now' origin origin' cmd
  cases fate with
  | executes => exact hexec
  | fails applied =>
    cases applied with
    | false => exact ⟨rfl, h⟩
    | true => exact ⟨rfl, hexec.2⟩

/-- A DEL is answered with the same count on both sides, or fails on both. -/
theorem delete_same (h : SameValues s t) (now now' : ℕ) (ks : List String) (fate : CommandFate) :
    (∃ count, send now .initial s (.delete ks) fate = (.deleted count, s.popAll ks) ∧
        send now' .initial t (.delete ks) fate = (.deleted count, t.popAll ks)) ∨
      ∃ s' t', send now .initial s (.delete ks) fate = (.failed, s') ∧
        send now' .initial t (.delete ks) fate = (.failed, t') ∧ SameValues s' t' := by
  have hsame := send_same h now now' .initial .initial (.delete ks) fate
  cases fate with
  | executes =>
    have hcount : (t.keys.filter (· ∈ ks)).length = (s.keys.filter (· ∈ ks)).length :=
      Reply.deleted.inj hsame.1
    exact Or.inl ⟨_, rfl, by rw [← hcount]; rfl⟩
  | fails applied => exact Or.inr ⟨_, _, rfl, rfl, hsame.2⟩

/-- A page that the server may return on one side may be returned on the other. -/
theorem pageAllowed_same {now now' : ℕ} {progress progress' : ScanProgress} {scope : Scope}
    {cursor : ℕ} {keys : List String} (h : SameValues s t)
    (hpast : Past (progress.started.getD now) s) (hseen : progress'.seen = progress.seen)
    (hp : PageAllowed backend now progress s scope cursor keys) :
    PageAllowed backend now' progress' t scope cursor keys := by
  refine ⟨hp.1, ?_⟩
  intro hcursor b hb hselected _
  rw [hseen]
  have hkey : b.1 ∈ t.keys := List.mem_map_of_mem hb
  have hkey' : b.1 ∈ s.keys := (sameValues_keys h).mem_iff.mp hkey
  obtain ⟨entry, he⟩ := Option.isSome_iff_exists.mp (OrderedDict.mem_keys.mp hkey')
  exact hp.2 hcursor (b.1, entry) (OrderedDict.mem_entries.mpr he) hselected (hpast b.1 entry he)

/-- Taking entries away makes none younger. -/
theorem past_less {now : ℕ} (h : Past now s)
    (hless : ∀ k, t.get? k = s.get? k ∨ t.get? k = none) : Past now t := by
  intro k entry he
  rcases hless k with hsame | hnone
  · rw [hsame] at he
    exact h k entry he
  · rw [hnone] at he
    cases he

/-- The loop of a bulk invalidation goes on alike on both sides. -/
theorem scanAndDelete_same {now : ℕ} {scope : Scope} {rounds : List ScanRound}
    {progress : ScanProgress} {total : ℕ} {result : Except PyError ℕ} {s' : Store Raw}
    (h : SameValues s t) (hpast : Past (progress.started.getD now) s) (now' : ℕ)
    (progress' : ScanProgress) (hseen : progress'.seen = progress.seen)
    (hscan : scanAndDelete backend now scope rounds progress total s = some (result, s')) :
    ∃ t', scanAndDelete backend now' scope rounds progress' total t = some (result, t') ∧
      SameValues s' t' := by
  induction rounds generalizing progress progress' total s t with
  | nil => cases hscan
  | cons round rest ih =>
    rw [scanAndDelete] at hscan ⊢
    cases hpage : round.page with
    | none =>
      rw [hpage] at hscan
      cases hscan
      exact ⟨t, rfl, h⟩
    | some page =>
      obtain ⟨cursor, keys⟩ := page
      rw [hpage] at hscan
      dsimp only at hscan ⊢
      by_cases hallowed : PageAllowed backend now progress s scope cursor keys
      · rw [if_pos hallowed] at hscan
        rw [if_pos (pageAllowed_same h hpast hseen hallowed)]
        let progress₁ : ScanProgress := ⟨some (progress.started.getD now), progress.seen ++ keys⟩
        have hseen₁ : progress'.seen ++ keys = progress₁.seen := by rw [hseen]
        by_cases hkeys : keys = []
        · rw [if_pos hkeys] at hscan ⊢
          by_cases hcursor : cursor = 0
          · rw [if_pos hcursor] at hscan ⊢
            cases hscan
            exact ⟨t, rfl, h⟩
          · rw [if_neg hcursor] at hscan ⊢
            have hpast₁ : Past (progress₁.started.getD now) s := hpast
            exact ih h hpast₁ _ hseen₁ hscan
        · rw [if_neg hkeys] at hscan ⊢
          rcases delete_same h now now' keys round.delete with ⟨count, hs, ht⟩ |
            ⟨failed, failed', hs, ht, hstore⟩
          · rw [hs] at hscan
            rw [ht]
            dsimp only at hscan ⊢
            by_cases hcursor : cursor = 0
            · rw [if_pos hcursor] at hscan ⊢
              cases hscan
              exact ⟨_, rfl, sameValues_popAll h keys⟩
            · rw [if_neg hcursor] at hscan ⊢
              have hless : Past (progress₁.started.getD now) (s.popAll keys) :=
                past_less hpast (CoherentSessions.popAll_less s keys)
              exact ih (sameValues_popAll h keys) hless _ hseen₁ hscan
          · rw [hs] at hscan
            rw [ht]
            cases hscan
            exact ⟨_, rfl, hstore⟩
      · rw [if_neg hallowed] at hscan
        cases hscan

/-- `get` returns the same. -/
theorem get_same (h : SameValues s t) (u tenant : String) (fate : CommandFate) :
    RedisPermissionCache.get backend t u tenant fate =
      RedisPermissionCache.get backend s u tenant fate := by
  unfold RedisPermissionCache.get
  rw [(send_same h 0 0 .initial .initial _ fate).1]

/-- `set` keeps the values the same. -/
theorem set_same (h : SameValues s t) (now now' : ℕ) (u tenant : String) (perms : List Json)
    (fate : CommandFate) :
    SameValues (RedisPermissionCache.set backend now s u tenant perms fate)
      (RedisPermissionCache.set backend now' t u tenant perms fate) :=
  (send_same h now now' _ _ _ fate).2

/-- `write_through` keeps the values the same. -/
theorem writeThrough_same (h : SameValues s t) (now now' : ℕ) (u tenant : String)
    (perms : List Json) (fate : CommandFate) :
    SameValues (RedisPermissionCache.writeThrough backend now s u tenant perms fate)
      (RedisPermissionCache.writeThrough backend now' t u tenant perms fate) :=
  (send_same h now now' _ _ _ fate).2

/-- `invalidate` with both ids returns the same and keeps the values the same. -/
theorem invalidate_same (backend : Backend Raw) (h : SameValues s t) (u tenant : String)
    (fate : CommandFate) :
    (RedisPermissionCache.invalidate backend t u tenant fate).1 =
        (RedisPermissionCache.invalidate backend s u tenant fate).1 ∧
      SameValues (RedisPermissionCache.invalidate backend s u tenant fate).2
        (RedisPermissionCache.invalidate backend t u tenant fate).2 := by
  unfold RedisPermissionCache.invalidate
  rcases delete_same h 0 0 [backend.key u tenant] fate with ⟨count, hs, ht⟩ |
    ⟨failed, failed', hs, ht, hstore⟩
  · rw [hs, ht]
    exact ⟨rfl, sameValues_popAll h _⟩
  · rw [hs, ht]
    exact ⟨rfl, hstore⟩

/-- A read alone has the same outcome on both sides, and calls Helios on both or on none. -/
theorem resolveAlone_same (backend : Backend Raw) (h : SameValues s t) (stale : Bool)
    (now now' : ℕ) (u tenant : String) (env : ReadEnv) :
    (resolveAlone backend stale now' t u tenant env).outcome =
        (resolveAlone backend stale now s u tenant env).outcome ∧
      (resolveAlone backend stale now' t u tenant env).heliosCalled =
        (resolveAlone backend stale now s u tenant env).heliosCalled ∧
      SameValues (resolveAlone backend stale now s u tenant env).store
        (resolveAlone backend stale now' t u tenant env).store := by
  unfold resolveAlone
  rw [get_same h]
  split
  · exact ⟨rfl, rfl, h⟩
  · exact ⟨rfl, rfl, h⟩
  · unfold fetchAndPopulate
    split
    · exact ⟨rfl, rfl, h⟩
    · exact ⟨rfl, rfl, h⟩
    · exact ⟨rfl, rfl, set_same h now now' u tenant _ env.setFate⟩

end HeliosPermissions.EqualCaches
