import Mathlib.Logic.Function.Basic
import Mathlib.Order.Basic

/-!
# Maps whose entries expire

Every value carries the time at which it was written, and a test on that time
and the present one says whether the entry is there. The passing of time writes
nothing: an entry vanishes by failing the test. A component that keeps such
entries in another way is compared with this map by what both show from some
time on.
-/

namespace ExpiringMaps

variable {κ τ α : Type*}

/-- Values with the time at which each was written. -/
abbrev Stamped (κ τ α : Type*) := κ → Option (α × τ)

namespace Stamped

/-- What is there at a time. -/
def presentAt (lives : τ → τ → Bool) (m : Stamped κ τ α) (now : τ) (k : κ) : Option α :=
  (m k).bind fun entry => if lives entry.2 now then some entry.1 else none

/-- Remove the keys that satisfy a condition. -/
def erase (m : Stamped κ τ α) (gone : κ → Prop) [DecidablePred gone] : Stamped κ τ α :=
  fun k => if gone k then none else m k

variable {lives : τ → τ → Bool} {m : Stamped κ τ α} {checked written now : τ} {k k' : κ} {v : α}

/-- Erased keys are absent, the others as before. -/
theorem presentAt_erase (gone : κ → Prop) [DecidablePred gone] :
    (m.erase gone).presentAt lives now k = if gone k then none else m.presentAt lives now k := by
  unfold presentAt erase
  split_ifs
  · rfl
  · rfl

/-- Spell every value in another way. -/
def map {β : Type*} (m : Stamped κ τ α) (f : α → β) : Stamped κ τ β :=
  fun k => (m k).map fun entry => (f entry.1, entry.2)

/-- Mapping the values maps what is present. -/
theorem presentAt_map {β : Type*} (f : α → β) :
    (m.map f).presentAt lives now k = (m.presentAt lives now k).map f := by
  unfold presentAt map
  cases m k with
  | none => rfl
  | some entry =>
    dsimp only [Option.map_some, Option.bind_some]
    split_ifs
    · rfl
    · rfl

/-- Erasing and mapping commute. -/
theorem map_erase {β : Type*} (f : α → β) (gone : κ → Prop) [DecidablePred gone] :
    (m.erase gone).map f = (m.map f).erase gone := by
  funext k
  unfold map erase
  split_ifs
  · rfl
  · rfl

variable [DecidableEq κ]

/-- Write an entry, whatever was there. -/
def write (m : Stamped κ τ α) (written : τ) (k : κ) (v : α) : Stamped κ τ α :=
  Function.update m k (some (v, written))

/-- Look at a key, and write it if nothing is there. -/
def writeNew (lives : τ → τ → Bool) (m : Stamped κ τ α) (checked written : τ) (k : κ) (v : α) :
    Stamped κ τ α :=
  if (m.presentAt lives checked k).isSome then m else m.write written k v

/-- Writing and mapping commute. -/
theorem map_write {β : Type*} (f : α → β) :
    (m.write written k v).map f = (m.map f).write written k (f v) := by
  funext k'
  by_cases hk : k' = k
  · subst hk
    simp [map, write]
  · simp [map, write, hk]

/-- What is written is present while it lives. -/
theorem presentAt_write_same :
    (m.write written k v).presentAt lives now k = if lives written now then some v else none := by
  simp [presentAt, write]

/-- A write leaves the other keys as they are. -/
theorem presentAt_write_other (hk : k' ≠ k) :
    (m.write written k v).presentAt lives now k' = m.presentAt lives now k' := by
  simp [presentAt, write, hk]

/-- An entry that is there keeps its value and its time. -/
theorem writeNew_of_present (h : (m.presentAt lives checked k).isSome) :
    m.writeNew lives checked written k v = m :=
  if_pos h

/-- An entry that is not there any more makes no difference. -/
theorem writeNew_of_absent (h : m.presentAt lives checked k = none) :
    m.writeNew lives checked written k v = m.write written k v := by
  simp [writeNew, h]

end Stamped

section agreement

variable [Preorder τ] {P : κ → Prop} {now : τ} {f f' g : τ → κ → Option α}

/-- Two maps show the same values for the keys in question, from a time on. -/
def AgreeFrom (P : κ → Prop) (now : τ) (f g : τ → κ → Option α) : Prop :=
  ∀ later, now ≤ later → ∀ k, P k → f later k = g later k

/-- Maps that agree from now on agree later. -/
theorem AgreeFrom.later {later : τ} (h : AgreeFrom P now f g) (hle : now ≤ later) :
    AgreeFrom P later f g :=
  fun t ht => h t (hle.trans ht)

/-- Agreement depends on what is shown from then on. -/
theorem AgreeFrom.congr_left (h : AgreeFrom P now f g)
    (hf : ∀ later, now ≤ later → ∀ k, P k → f' later k = f later k) : AgreeFrom P now f' g := by
  intro later hlater k hk
  rw [hf later hlater k hk]
  exact h later hlater k hk

variable {lives : τ → τ → Bool} {m : Stamped κ τ α} {k : κ} {v : α}

/-- Removing the same keys on both sides. -/
theorem AgreeFrom.erase (gone : κ → Prop) [DecidablePred gone]
    (h : AgreeFrom P now f (m.presentAt lives))
    (hf : ∀ later, ∀ k, P k → f' later k = if gone k then none else f later k) :
    AgreeFrom P now f' ((m.erase gone).presentAt lives) := by
  intro later hlater k hk
  rw [Stamped.presentAt_erase, hf later k hk, h later hlater k hk]

variable [DecidableEq κ]

/-- Writing one key on both sides. -/
theorem AgreeFrom.write {written : τ} (h : AgreeFrom P now f (m.presentAt lives))
    (hle : now ≤ written)
    (hsame : ∀ later, written ≤ later → f' later k = if lives written later then some v else none)
    (hother : ∀ later, ∀ k', P k' → k' ≠ k → f' later k' = f later k') :
    AgreeFrom P written f' ((m.write written k v).presentAt lives) := by
  intro later hlater k' hk'
  by_cases hk : k' = k
  · subst hk
    rw [Stamped.presentAt_write_same]
    exact hsame later hlater
  · rw [Stamped.presentAt_write_other hk, hother later k' hk' hk]
    exact h later (hle.trans hlater) k' hk'

end agreement

end ExpiringMaps
