import Mathlib.Data.List.Basic

/-!
# Insertion-ordered dictionaries

A finite map kept as its association list, with the keys distinct. Writing
an existing key keeps its place and a new key goes last, so the entries come
out in the order of first insertion. Deletion is by one key, by a list of
keys, or by a test on the key. Lookups in plain association lists are at the end.
-/

/-- Association list whose keys are distinct, in order of first insertion. -/
structure OrderedDict (κ α : Type*) where
  /-- The bindings, oldest first. -/
  entries : List (κ × α)
  /-- No key is bound twice. -/
  nodup : (entries.map Prod.fst).Nodup

namespace OrderedDict

variable {κ α β : Type*} [DecidableEq κ]

/-- The dictionary without bindings. -/
def empty : OrderedDict κ α := ⟨[], List.nodup_nil⟩

/-- The keys, in order of first insertion. -/
def keys (d : OrderedDict κ α) : List κ := d.entries.map Prod.fst

/-- Look a key up in an association list. -/
def find (k : κ) : List (κ × α) → Option α
  | [] => none
  | (k', v) :: rest => if k' = k then some v else find k rest

/-- The value bound to a key, when there is one. -/
def get? (d : OrderedDict κ α) (k : κ) : Option α := find k d.entries

/-- Overwrite the value of a key in place, or append the new binding. -/
def put (k : κ) (v : α) : List (κ × α) → List (κ × α)
  | [] => [(k, v)]
  | (k', v') :: rest => if k' = k then (k, v) :: rest else (k', v') :: put k v rest

/-- A put adds its key. -/
theorem mem_keys_put {k k' : κ} {v : α} {l : List (κ × α)} :
    k' ∈ (put k v l).map Prod.fst ↔ k' = k ∨ k' ∈ l.map Prod.fst := by
  induction l with
  | nil => simp [put]
  | cons head rest ih =>
    rcases head with ⟨k₀, v₀⟩
    by_cases hk : k₀ = k
    · subst hk
      simp [put]
    · simp only [put, if_neg hk, List.map_cons, List.mem_cons, ih]
      tauto

/-- A new key goes last. -/
theorem put_of_not_mem {k : κ} {v : α} {l : List (κ × α)} (h : k ∉ l.map Prod.fst) :
    put k v l = l ++ [(k, v)] := by
  induction l with
  | nil => rfl
  | cons head rest ih =>
    rw [List.map_cons] at h
    have hhead : head.1 ≠ k := fun heq => h (heq ▸ List.mem_cons_self)
    have hrest := ih fun hmem => h (List.mem_cons_of_mem _ hmem)
    rw [put, if_neg hhead, hrest, List.cons_append]

/-- A put doubles no key. -/
theorem nodup_put {k : κ} {v : α} {l : List (κ × α)} (h : (l.map Prod.fst).Nodup) :
    ((put k v l).map Prod.fst).Nodup := by
  induction l with
  | nil => simp [put]
  | cons head rest ih =>
    rcases head with ⟨k₀, v₀⟩
    obtain ⟨hhead, hrest⟩ := List.nodup_cons.mp h
    by_cases hk : k₀ = k
    · subst hk
      simpa [put] using h
    · rw [put, if_neg hk, List.map_cons]
      refine List.nodup_cons.mpr ⟨?_, ih hrest⟩
      intro hmem
      rcases mem_keys_put.mp hmem with rfl | hmem
      · exact hk rfl
      · exact hhead hmem

/-- Bind a key, replacing what was bound to it. -/
def set (d : OrderedDict κ α) (k : κ) (v : α) : OrderedDict κ α :=
  ⟨put k v d.entries, nodup_put d.nodup⟩

/-- Drop every binding whose key passes the test. -/
def popWhere (d : OrderedDict κ α) (p : κ → Bool) : OrderedDict κ α :=
  ⟨d.entries.filter fun e => !p e.1,
    d.nodup.sublist (List.filter_sublist.map Prod.fst)⟩

/-- Drop the binding of one key, when there is one. -/
def pop (d : OrderedDict κ α) (k : κ) : OrderedDict κ α := d.popWhere (· = k)

/-- Drop the bindings of a list of keys. -/
def popAll (d : OrderedDict κ α) (ks : List κ) : OrderedDict κ α := d.popWhere (· ∈ ks)

/-- The same keys, with every value sent through a function. -/
def mapValues (d : OrderedDict κ α) (f : α → β) : OrderedDict κ β :=
  ⟨d.entries.map fun e => (e.1, f e.2), by simpa [List.map_map, Function.comp_def] using d.nodup⟩

/-- Nothing is found in the empty dictionary. -/
@[simp] theorem get?_empty (k : κ) : (empty : OrderedDict κ α).get? k = none := rfl

/-- A put is found under its key. -/
theorem find_put (k k' : κ) (v : α) (l : List (κ × α)) :
    find k' (put k v l) = if k' = k then some v else find k' l := by
  induction l with
  | nil => simp [put, find, eq_comm]
  | cons head rest ih =>
    rcases head with ⟨k₀, v₀⟩
    by_cases hk : k₀ = k
    · subst hk
      by_cases hk' : k' = k₀
      · simp [put, find, hk']
      · simp [put, find, hk', Ne.symm hk']
    · simp only [put, if_neg hk, find, ih]
      by_cases hk' : k₀ = k'
      · subst hk'
        simp [hk]
      · simp [hk']

/-- Binding a key changes the value of that key alone. -/
@[simp] theorem get?_set (d : OrderedDict κ α) (k k' : κ) (v : α) :
    (d.set k v).get? k' = if k' = k then some v else d.get? k' :=
  find_put k k' v d.entries

/-- What is filtered out is not found. -/
theorem find_filter (p : κ → Bool) (k : κ) (l : List (κ × α)) :
    find k (l.filter fun e => !p e.1) = if p k then none else find k l := by
  induction l with
  | nil => simp [find]
  | cons head rest ih =>
    rcases head with ⟨k₀, v₀⟩
    by_cases hk : k₀ = k
    · subst hk
      by_cases hp : p k₀ = true
      · simpa [hp] using ih
      · simp [hp, find]
    · by_cases hp : p k₀ = true
      · simpa [List.filter_cons, hp, find, hk] using ih
      · simpa [List.filter_cons, hp, find, hk] using ih

/-- Dropping by a test leaves the bindings whose key fails it. -/
@[simp] theorem get?_popWhere (d : OrderedDict κ α) (p : κ → Bool) (k : κ) :
    (d.popWhere p).get? k = if p k then none else d.get? k :=
  find_filter p k d.entries

/-- Dropping one key changes the value of that key alone. -/
@[simp] theorem get?_pop (d : OrderedDict κ α) (k k' : κ) :
    (d.pop k).get? k' = if k' = k then none else d.get? k' := by
  simp [pop]

/-- Dropping a list of keys changes the values of those keys alone. -/
@[simp] theorem get?_popAll (d : OrderedDict κ α) (ks : List κ) (k : κ) :
    (d.popAll ks).get? k = if k ∈ ks then none else d.get? k := by
  simp [popAll]

/-- Mapping the values maps what is found. -/
theorem find_map_value (f : α → β) (k : κ) (l : List (κ × α)) :
    find k (l.map fun e => (e.1, f e.2)) = (find k l).map f := by
  induction l with
  | nil => rfl
  | cons head rest ih =>
    rcases head with ⟨k₀, v₀⟩
    by_cases hk : k₀ = k
    · simp [find, hk]
    · simp [find, hk, ih]

/-- The same for dictionaries. -/
@[simp] theorem get?_mapValues (d : OrderedDict κ α) (f : α → β) (k : κ) :
    (d.mapValues f).get? k = (d.get? k).map f :=
  find_map_value f k d.entries

/-- A key is found when it is listed. -/
theorem find_isSome_iff {k : κ} {l : List (κ × α)} :
    (find k l).isSome ↔ k ∈ l.map Prod.fst := by
  induction l with
  | nil => simp [find]
  | cons head rest ih =>
    rcases head with ⟨k₀, v₀⟩
    by_cases hk : k₀ = k
    · simp [find, hk]
    · simpa [find, hk, Ne.symm hk] using ih

/-- A key is listed exactly when a value is bound to it. -/
theorem mem_keys {d : OrderedDict κ α} {k : κ} : k ∈ d.keys ↔ (d.get? k).isSome :=
  find_isSome_iff.symm

/-- Without doubles an entry is found under its key. -/
theorem find_of_mem {k : κ} {v : α} {l : List (κ × α)} (hn : (l.map Prod.fst).Nodup)
    (hm : (k, v) ∈ l) : find k l = some v := by
  induction l with
  | nil => simp at hm
  | cons head rest ih =>
    rcases head with ⟨k₀, v₀⟩
    obtain ⟨hhead, hrest⟩ := List.nodup_cons.mp hn
    rcases List.mem_cons.mp hm with heq | hm
    · cases heq
      simp [find]
    · have hk : k₀ ≠ k := by
        rintro rfl
        exact hhead (List.mem_map.mpr ⟨(k₀, v), hm, rfl⟩)
      simpa [find, hk] using ih hrest hm

/-- The bindings are exactly the key and value pairs that a lookup finds. -/
theorem mem_entries {d : OrderedDict κ α} {k : κ} {v : α} :
    (k, v) ∈ d.entries ↔ d.get? k = some v := by
  constructor
  · exact find_of_mem d.nodup
  · intro h
    have hmem : k ∈ d.entries.map Prod.fst := find_isSome_iff.mp (by
      rw [show find k d.entries = some v from h]
      rfl)
    obtain ⟨⟨k', v'⟩, hm, rfl⟩ := List.mem_map.mp hmem
    have hv : some v' = some v := (find_of_mem d.nodup hm).symm.trans h
    cases hv
    exact hm

section images

variable {κ' : Type*} [DecidableEq κ'] {φ : κ → κ'}

/-- The image under an injective map of the keys and a map of the values. -/
def mapEntries (d : OrderedDict κ α) (φ : κ → κ') (hφ : Function.Injective φ) (f : α → β) :
    OrderedDict κ' β :=
  ⟨d.entries.map fun e => (φ e.1, f e.2), by
    have hkeys : (d.entries.map fun e => (φ e.1, f e.2)).map Prod.fst =
        (d.entries.map Prod.fst).map φ := by simp
    rw [hkeys]
    exact List.Pairwise.map φ (fun _ _ hne => hφ.ne hne) d.nodup⟩

/-- Renaming the keys renames where it is found. -/
theorem find_map_entry (hφ : Function.Injective φ) (f : α → β) (k : κ) (l : List (κ × α)) :
    find (φ k) (l.map fun e => (φ e.1, f e.2)) = (find k l).map f := by
  induction l with
  | nil => rfl
  | cons head rest ih =>
    rcases head with ⟨k₀, v₀⟩
    by_cases hk : k₀ = k
    · simp [find, hk]
    · simp [find, hk, hφ.eq_iff, ih]

/-- The same for dictionaries. -/
@[simp] theorem get?_mapEntries (d : OrderedDict κ α) (hφ : Function.Injective φ) (f : α → β)
    (k : κ) : (d.mapEntries φ hφ f).get? (φ k) = (d.get? k).map f :=
  find_map_entry hφ f k d.entries

omit [DecidableEq κ] [DecidableEq κ'] in
/-- The keys are renamed in their order. -/
@[simp] theorem keys_mapEntries (d : OrderedDict κ α) (hφ : Function.Injective φ) (f : α → β) :
    (d.mapEntries φ hφ f).keys = d.keys.map φ := by
  simp [keys, mapEntries]

/-- Renaming and putting commute. -/
theorem put_map_entry (hφ : Function.Injective φ) (f : α → β) (k : κ) (v : α)
    (l : List (κ × α)) : put (φ k) (f v) (l.map fun e => (φ e.1, f e.2)) =
      (put k v l).map fun e => (φ e.1, f e.2) := by
  induction l with
  | nil => rfl
  | cons head rest ih =>
    rcases head with ⟨k₀, v₀⟩
    by_cases hk : k₀ = k
    · simp [put, hk]
    · simp [put, hk, hφ.eq_iff, ih]

omit [DecidableEq κ] in
/-- A dictionary is its entries. -/
theorem ext_entries {d d' : OrderedDict κ α} (h : d.entries = d'.entries) : d = d' := by
  cases d
  cases h
  rfl

/-- Renaming and setting commute. -/
theorem set_mapEntries (d : OrderedDict κ α) (hφ : Function.Injective φ) (f : α → β) (k : κ)
    (v : α) : (d.mapEntries φ hφ f).set (φ k) (f v) = (d.set k v).mapEntries φ hφ f :=
  ext_entries (put_map_entry hφ f k v d.entries)

omit [DecidableEq κ] [DecidableEq κ'] in
/-- A test on the images that says what a test on the keys says drops the same bindings. -/
theorem popWhere_mapEntries (d : OrderedDict κ α) (hφ : Function.Injective φ) (f : α → β)
    {p : κ → Bool} {q : κ' → Bool} (h : ∀ k, q (φ k) = p k) :
    (d.mapEntries φ hφ f).popWhere q = (d.popWhere p).mapEntries φ hφ f := by
  refine ext_entries ?_
  simp [mapEntries, popWhere, List.filter_map, Function.comp_def, h]

/-- Renaming and popping commute. -/
theorem pop_mapEntries (d : OrderedDict κ α) (hφ : Function.Injective φ) (f : α → β) (k : κ) :
    (d.mapEntries φ hφ f).pop (φ k) = (d.pop k).mapEntries φ hφ f :=
  popWhere_mapEntries d hφ f fun k' => by simp [hφ.eq_iff]

/-- Renaming and popping several keys commute. -/
theorem popAll_mapEntries (d : OrderedDict κ α) (hφ : Function.Injective φ) (f : α → β)
    (ks : List κ) : (d.mapEntries φ hφ f).popAll (ks.map φ) = (d.popAll ks).mapEntries φ hφ f :=
  popWhere_mapEntries d hφ f fun k' => by simp [hφ.eq_iff]

end images

section lookups

/-- `List.lookup` finds the same. -/
theorem lookup_eq_find (k : κ) (l : List (κ × α)) : l.lookup k = find k l := by
  induction l with
  | nil => rfl
  | cons head rest ih =>
    rw [List.lookup_cons, find, ih]
    by_cases hk : head.1 = k
    · simp [hk]
    · have hne : (k == head.1) = false := beq_eq_false_iff_ne.mpr (Ne.symm hk)
      simp [hk, hne]

/-- Mapping the values maps what is looked up. -/
theorem lookup_map_value (f : α → β) (k : κ) (l : List (κ × α)) :
    (l.map fun entry => (entry.1, f entry.2)).lookup k = (l.lookup k).map f := by
  rw [lookup_eq_find, lookup_eq_find, find_map_value]

/-- What a lookup finds is in the list. -/
theorem mem_of_lookup {l : List (κ × α)} {k : κ} {v : α} (h : l.lookup k = some v) :
    (k, v) ∈ l := by
  obtain ⟨front, back, rfl, -⟩ := List.lookup_eq_some_iff.mp h
  simp

/-- With distinct keys, a lookup finds what is in the list. -/
theorem lookup_of_mem {l : List (κ × α)} (hn : (l.map Prod.fst).Nodup) {k : κ} {v : α}
    (h : (k, v) ∈ l) : l.lookup k = some v :=
  (lookup_eq_find k l).trans (find_of_mem hn h)

/-- With distinct keys, the order does not matter to a lookup. -/
theorem lookup_perm {l l' : List (κ × α)} (h : l.Perm l') (hn : (l'.map Prod.fst).Nodup) (k : κ) :
    l.lookup k = l'.lookup k := by
  have hn' : (l.map Prod.fst).Nodup := (h.map Prod.fst).nodup_iff.mpr hn
  cases hlookup : l'.lookup k with
  | some v => exact lookup_of_mem hn' (h.mem_iff.mpr (mem_of_lookup hlookup))
  | none =>
    cases hlookup' : l.lookup k with
    | none => rfl
    | some v =>
      rw [lookup_of_mem hn (h.mem_iff.mp (mem_of_lookup hlookup'))] at hlookup
      cases hlookup

end lookups

end OrderedDict
