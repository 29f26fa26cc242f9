import Mathlib.Data.List.Forall2

/-!
# Append-only indexed tables

A list used as a table: rows are added at the end, replaced in place and never
removed, so an index keeps naming the same row. These are the two ways to read
such a table after an update, and the same for two tables that are related row
by row.
-/

namespace IndexedTables

variable {α : Type*} {l : List α} {i j : ℕ} {a b x : α}

/-- The row that is set. -/
theorem get_set_self (hi : l[i]? = some a) : (l.set i b)[i]? = some b := by
  have hlt : i < l.length := (List.getElem?_eq_some_iff.mp hi).1
  rw [List.getElem?_set_self hlt]

/-- The other rows. -/
theorem get_set_ne (hj : j ≠ i) : (l.set i b)[j]? = l[j]? :=
  List.getElem?_set_ne (Ne.symm hj)

/-- A row of a table after one row was replaced is the new row or an old one. -/
theorem get_set_cases (hx : (l.set i b)[j]? = some x) :
    (j = i ∧ x = b) ∨ (j ≠ i ∧ l[j]? = some x) := by
  by_cases hj : j = i
  · subst hj
    have hlt : j < (l.set j b).length := (List.getElem?_eq_some_iff.mp hx).1
    rw [List.length_set] at hlt
    rw [List.getElem?_set_self hlt] at hx
    exact Or.inl ⟨rfl, (Option.some.inj hx).symm⟩
  · rw [get_set_ne hj] at hx
    exact Or.inr ⟨hj, hx⟩

/-- The rows before an added one. -/
theorem get_append_of_get (hj : l[j]? = some x) : (l ++ [a])[j]? = some x := by
  have hlt : j < l.length := (List.getElem?_eq_some_iff.mp hj).1
  rwa [List.getElem?_append_left hlt]

/-- The added row. -/
theorem get_append_last : (l ++ [a])[l.length]? = some a := by
  rw [List.getElem?_append_right (Nat.le_refl _)]
  simp

/-- Setting the added row. -/
theorem set_append_last : (l ++ [a]).set l.length b = l ++ [b] := by
  rw [List.set_append_right _ _ (Nat.le_refl _)]
  simp

/-- A row of a table after one row was added is that row or an old one. -/
theorem get_append_cases (hx : (l ++ [a])[j]? = some x) :
    (j = l.length ∧ x = a) ∨ l[j]? = some x := by
  by_cases hlt : j < l.length
  · rw [List.getElem?_append_left hlt] at hx
    exact Or.inr hx
  · have hle : j < (l ++ [a]).length := (List.getElem?_eq_some_iff.mp hx).1
    rw [List.length_append, List.length_singleton] at hle
    have hj : j = l.length := by omega
    subst hj
    rw [get_append_last] at hx
    exact Or.inl ⟨rfl, (Option.some.inj hx).symm⟩

/-- A row lies within the table. -/
theorem lt_length_of_get (hj : l[j]? = some x) : j < l.length :=
  (List.getElem?_eq_some_iff.mp hj).1

section related

variable {β : Type*} {R : α → β → Prop} {m : List β} {y : β}

/-- A row has a related row on the other side. -/
theorem related_get (h : List.Forall₂ R l m) (hx : l[j]? = some x) :
    ∃ y, m[j]? = some y ∧ R x y := by
  induction h generalizing j with
  | nil => cases hx
  | cons hab htail ih =>
    cases j with
    | zero =>
      cases hx
      exact ⟨_, rfl, hab⟩
    | succ j => exact ih hx

/-- Related rows may be replaced by related rows. -/
theorem related_set (h : List.Forall₂ R l m) (hR : R x y) :
    List.Forall₂ R (l.set i x) (m.set i y) := by
  induction h generalizing i with
  | nil => exact .nil
  | cons hab htail ih =>
    cases i with
    | zero => exact .cons hR htail
    | succ i => exact .cons hab ih

/-- One side alone may be changed, to what is still related. -/
theorem related_set_left (h : List.Forall₂ R l m) (hy : m[i]? = some y) (hR : R x y) :
    List.Forall₂ R (l.set i x) m := by
  induction h generalizing i with
  | nil => cases hy
  | cons hab htail ih =>
    cases i with
    | zero =>
      cases hy
      exact .cons hR htail
    | succ i => exact .cons hab (ih hy)

end related

end IndexedTables
