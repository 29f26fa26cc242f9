import Mathlib.Data.List.Basic

/-!
# Runs of a partial step function

A system is a function that takes a state and an action and returns the next
state, or nothing when the action is not possible there. A run executes a list
of actions. The rules below carry an invariant, a condition on every step, or
a second system, along a run of any length.
-/

namespace PartialRuns

variable {σ τ α : Type*}

/-- Execute the actions in order; no result when one of them is not possible. -/
def run (step : σ → α → Option σ) : σ → List α → Option σ
  | s, [] => some s
  | s, a :: rest => (step s a).bind fun s' => run step s' rest

/-- A condition on the step taken, required of every step of a run. -/
def Along (step : σ → α → Option σ) (P : σ → α → σ → Prop) : σ → List α → Prop
  | _, [] => True
  | s, a :: rest => ∀ s', step s a = some s' → P s a s' ∧ Along step P s' rest

variable {step : σ → α → Option σ}

/-- The empty run stays where it is. -/
@[simp] theorem run_nil (s : σ) : run step s [] = some s := rfl

/-- A run begins with a step. -/
theorem run_cons_iff {s s' : σ} {a : α} {rest : List α} :
    run step s (a :: rest) = some s' ↔ ∃ m, step s a = some m ∧ run step m rest = some s' := by
  simp [run, Option.bind_eq_some_iff]

/-- A run of two lists is a run of each. -/
theorem run_append_iff {s s' : σ} {as bs : List α} :
    run step s (as ++ bs) = some s' ↔ ∃ m, run step s as = some m ∧ run step m bs = some s' := by
  induction as generalizing s with
  | nil => simp
  | cons a rest ih =>
    simp only [List.cons_append, run_cons_iff, ih]
    constructor
    · rintro ⟨m, hm, n, hn, hs⟩
      exact ⟨n, ⟨m, hm, hn⟩, hs⟩
    · rintro ⟨n, ⟨m, hm, hn⟩, hs⟩
      exact ⟨m, hm, n, hn, hs⟩

/-- Run rule: a property that every step meeting the condition preserves holds
at the end of a run that starts in it and whose steps all meet the condition. -/
theorem run_invariant {C : σ → α → σ → Prop} (Inv : σ → Prop)
    (hstep : ∀ s a s', Inv s → step s a = some s' → C s a s' → Inv s')
    {s s' : σ} {as : List α} (hr : run step s as = some s') (hc : Along step C s as)
    (h : Inv s) : Inv s' := by
  induction as generalizing s with
  | nil =>
    cases hr
    exact h
  | cons a rest ih =>
    obtain ⟨m, hm, hr⟩ := run_cons_iff.mp hr
    obtain ⟨hca, hrest⟩ := hc m hm
    exact ih hr hrest (hstep s a m h hm hca)

/-- The rule without a condition on the steps. -/
theorem run_preserves (Inv : σ → Prop)
    (hstep : ∀ s a s', Inv s → step s a = some s' → Inv s')
    {s s' : σ} {as : List α} (hr : run step s as = some s') (h : Inv s) : Inv s' := by
  induction as generalizing s with
  | nil =>
    cases hr
    exact h
  | cons a rest ih =>
    obtain ⟨m, hm, hr⟩ := run_cons_iff.mp hr
    exact ih hr (hstep s a m h hm)

/-- A reflexive and transitive relation that every step respects relates the two
ends of a run. -/
theorem run_relates {R : σ → σ → Prop} (hrefl : ∀ s, R s s)
    (htrans : ∀ {a b c}, R a b → R b c → R a c)
    (hstep : ∀ s a s', step s a = some s' → R s s')
    {s s' : σ} {as : List α} (hr : run step s as = some s') : R s s' :=
  run_preserves (R s) (fun _ a _ h hs => htrans h (hstep _ a _ hs)) hr (hrefl s)

/-- Along rule: while a run meets one step condition, an invariant that it keeps
lets every step meet another condition. -/
theorem Along.with_invariant {P Q : σ → α → σ → Prop} (Inv : σ → Prop)
    (hstep : ∀ s a s', Inv s → step s a = some s' → P s a s' → Inv s' ∧ Q s a s')
    {s : σ} {as : List α} (h : Inv s) (hp : Along step P s as) : Along step Q s as := by
  induction as generalizing s with
  | nil => trivial
  | cons a rest ih =>
    intro s' hs
    obtain ⟨hpa, hrest⟩ := hp s' hs
    obtain ⟨hinv, hqa⟩ := hstep s a s' h hs hpa
    exact ⟨hqa, ih hinv hrest⟩

/-- A weaker condition is met along the same run. -/
theorem Along.imp {P Q : σ → α → σ → Prop} (h : ∀ s a s', P s a s' → Q s a s') {s : σ}
    {as : List α} (hp : Along step P s as) : Along step Q s as :=
  hp.with_invariant (fun _ => True) (fun s a s' _ _ hpa => ⟨trivial, h s a s' hpa⟩) trivial

/-- What holds of every step holds of the first and of the rest. -/
theorem along_cons_iff {P : σ → α → σ → Prop} {s s' : σ} {a : α} {rest : List α}
    (hs : step s a = some s') :
    Along step P s (a :: rest) ↔ P s a s' ∧ Along step P s' rest := by
  simp only [Along, hs, Option.some.injEq, forall_eq']

/-- A condition that is decided at each step is decided along a run. -/
instance decidableAlong {P : σ → α → σ → Prop} [∀ s a s', Decidable (P s a s')] :
    (s : σ) → (as : List α) → Decidable (Along step P s as)
  | _, [] => isTrue trivial
  | s, a :: rest =>
    match hs : step s a with
    | none => isTrue fun _ h => nomatch hs.symm.trans h
    | some s' =>
      have := decidableAlong (P := P) s' rest
      decidable_of_iff _ (along_cons_iff hs).symm

/-- A condition on the actions alone. -/
theorem along_of_forall {p : α → Prop} {s : σ} {as : List α} (h : ∀ a ∈ as, p a) :
    Along step (fun _ a _ => p a) s as := by
  induction as generalizing s with
  | nil => trivial
  | cons a rest ih =>
    intro s' _
    exact ⟨h a (by simp), ih fun b hb => h b (List.mem_cons_of_mem a hb)⟩

/-- Two conditions that every step meets are met together. -/
theorem Along.and {P Q : σ → α → σ → Prop} {s : σ} {as : List α} (hp : Along step P s as)
    (hq : Along step Q s as) : Along step (fun s a s' => P s a s' ∧ Q s a s') s as := by
  induction as generalizing s with
  | nil => trivial
  | cons a rest ih =>
    intro s' hs
    exact ⟨⟨(hp s' hs).1, (hq s' hs).1⟩, ih (hp s' hs).2 (hq s' hs).2⟩

/-- Mark rule: when a step that misses a condition leaves a mark, and no later step
removes it, a run that ends unmarked meets the condition at every step. -/
theorem along_of_unmarked {C P : σ → α → σ → Prop} (Inv Marked : σ → Prop)
    (hstep : ∀ s a s', Inv s → step s a = some s' → C s a s' → Inv s')
    (hmark : ∀ s a s', Inv s → step s a = some s' → C s a s' → ¬P s a s' → Marked s')
    (hkeep : ∀ s a s', Marked s → step s a = some s' → Marked s')
    {s s' : σ} {as : List α} (hr : run step s as = some s') (hc : Along step C s as)
    (h : Inv s) (hend : ¬Marked s') : Along step P s as := by
  induction as generalizing s with
  | nil => trivial
  | cons a rest ih =>
    obtain ⟨m, hm, hr⟩ := run_cons_iff.mp hr
    obtain ⟨hca, hrest⟩ := hc m hm
    refine (along_cons_iff hm).mpr ⟨?_, ih hr hrest (hstep s a m h hm hca)⟩
    by_contra hmiss
    exact hend (run_preserves Marked hkeep hr (hmark s a m h hm hca hmiss))

/-- The steps of a run in two parts are the steps of the first part followed by
those of the second. -/
theorem along_append_iff {P : σ → α → σ → Prop} {s m : σ} {as bs : List α}
    (hr : run step s as = some m) :
    Along step P s (as ++ bs) ↔ Along step P s as ∧ Along step P m bs := by
  induction as generalizing s with
  | nil =>
    cases hr
    simp [Along]
  | cons a rest ih =>
    obtain ⟨n, hn, hr⟩ := run_cons_iff.mp hr
    rw [List.cons_append, along_cons_iff hn, along_cons_iff hn, ih hr, and_assoc]

/-- Deleting the actions that fail a test: when every kept step is matched by the
same step on the other side and every deleted step needs no match, the run with
those actions deleted exists and ends in a related state. -/
theorem run_filter_simulates {C : σ → α → σ → Prop} {R : σ → σ → Prop} (keep : α → Bool)
    (hkeep : ∀ s t a s', R s t → step s a = some s' → C s a s' → keep a = true →
      ∃ t', step t a = some t' ∧ R s' t')
    (hdrop : ∀ s t a s', R s t → step s a = some s' → C s a s' → keep a = false → R s' t)
    {s s' t : σ} {as : List α} (hr : run step s as = some s') (hc : Along step C s as)
    (h : R s t) : ∃ t', run step t (as.filter keep) = some t' ∧ R s' t' := by
  induction as generalizing s t with
  | nil =>
    cases hr
    exact ⟨t, rfl, h⟩
  | cons a rest ih =>
    obtain ⟨m, hm, hr⟩ := run_cons_iff.mp hr
    obtain ⟨hca, hrest⟩ := hc m hm
    cases hk : keep a with
    | true =>
      obtain ⟨n, hn, hmn⟩ := hkeep s t a m h hm hca hk
      obtain ⟨t', ht, hst⟩ := ih hr hrest hmn
      refine ⟨t', ?_, hst⟩
      rw [List.filter_cons_of_pos hk]
      exact run_cons_iff.mpr ⟨n, hn, ht⟩
    | false =>
      rw [List.filter_cons_of_neg (by simp [hk])]
      exact ih hr hrest (hdrop s t a m h hm hca hk)

/-- History rule: a relation between the actions so far and the state, kept by every step,
holds of the actions of a whole run and its end. -/
theorem run_history {Q : List α → σ → Prop}
    (hstep : ∀ past s a s', Q past s → step s a = some s' → Q (past ++ [a]) s')
    {past : List α} {s s' : σ} {as : List α} (hr : run step s as = some s') (h : Q past s) :
    Q (past ++ as) s' := by
  induction as generalizing past s with
  | nil =>
    cases hr
    rwa [List.append_nil]
  | cons a rest ih =>
    obtain ⟨m, hm, hr⟩ := run_cons_iff.mp hr
    have hrest := ih hr (hstep past s a m h hm)
    rwa [List.append_assoc, List.singleton_append] at hrest

/-- Count rule: a relation between the number of actions that pass a test and the state,
kept by every step, holds of the number in a whole run and its end. -/
theorem run_count {p : α → Bool} {Q : ℕ → σ → Prop}
    (hstep : ∀ n s a s', Q n s → step s a = some s' → Q (n + if p a then 1 else 0) s')
    {n : ℕ} {s s' : σ} {as : List α} (hr : run step s as = some s') (h : Q n s) :
    Q (n + as.countP p) s' := by
  induction as generalizing n s with
  | nil =>
    cases hr
    exact h
  | cons a rest ih =>
    obtain ⟨m, hm, hr⟩ := run_cons_iff.mp hr
    have hrest := ih hr (hstep n s a m h hm)
    rwa [List.countP_cons, Nat.add_comm (List.countP p rest), ← Nat.add_assoc]

/-- Simulation rule: when every step that meets a condition is matched by some steps of
another system, a run whose steps meet it is matched by a run. -/
theorem run_simulates {β : Type*} {step' : τ → β → Option τ} {C : σ → α → σ → Prop}
    {D : τ → β → τ → Prop} {R : σ → τ → Prop}
    (hstep : ∀ s a s' t, R s t → step s a = some s' → C s a s' →
      ∃ bs t', run step' t bs = some t' ∧ Along step' D t bs ∧ R s' t')
    {s s' : σ} {t : τ} {as : List α} (hr : run step s as = some s') (hc : Along step C s as)
    (h : R s t) : ∃ bs t', run step' t bs = some t' ∧ Along step' D t bs ∧ R s' t' := by
  induction as generalizing s t with
  | nil =>
    cases hr
    exact ⟨[], t, rfl, trivial, h⟩
  | cons a rest ih =>
    obtain ⟨m, hm, hr⟩ := run_cons_iff.mp hr
    obtain ⟨hca, hrest⟩ := hc m hm
    obtain ⟨bs, n, hbs, hd, hmn⟩ := hstep s a m t h hm hca
    obtain ⟨cs, t', hcs, hd', hst⟩ := ih hr hrest hmn
    exact ⟨bs ++ cs, t', run_append_iff.mpr ⟨n, hbs, hcs⟩, (along_append_iff hbs).mpr ⟨hd, hd'⟩,
      hst⟩

/-- A system with a second state that follows the first. -/
def shadowed (step : σ → α → Option σ) (follow : σ → τ → α → τ) (s : σ × τ) (a : α) :
    Option (σ × τ) :=
  (step s.1 a).map fun s' => (s', follow s.1 s.2 a)

/-- A step of it is a step of the system, followed. -/
theorem shadowed_eq_some {follow : σ → τ → α → τ} {s s' : σ × τ} {a : α} :
    shadowed step follow s a = some s' ↔
      step s.1 a = some s'.1 ∧ s'.2 = follow s.1 s.2 a := by
  constructor
  · intro h
    obtain ⟨m, hm, rfl⟩ := Option.map_eq_some_iff.mp h
    exact ⟨hm, rfl⟩
  · rintro ⟨hm, hfollow⟩
    rw [shadowed, hm, Option.map_some, ← hfollow]

/-- Shadow rule: a second state that follows the steps can follow every run. -/
theorem run_shadowed (follow : σ → τ → α → τ) {s s' : σ} {as : List α}
    (hr : run step s as = some s') (t : τ) :
    ∃ t', run (shadowed step follow) (s, t) as = some (s', t') := by
  induction as generalizing s t with
  | nil =>
    cases hr
    exact ⟨t, rfl⟩
  | cons a rest ih =>
    obtain ⟨m, hm, hr⟩ := run_cons_iff.mp hr
    obtain ⟨t', ht⟩ := ih hr (follow s t a)
    exact ⟨t', run_cons_iff.mpr ⟨(m, follow s t a), shadowed_eq_some.mpr ⟨hm, rfl⟩, ht⟩⟩

/-- A condition on the steps is one on the followed steps. -/
theorem along_shadowed {P : σ → α → σ → Prop} {follow : σ → τ → α → τ} {s : σ} {as : List α}
    (hp : Along step P s as) (t : τ) :
    Along (shadowed step follow) (fun x a x' => P x.1 a x'.1) (s, t) as := by
  induction as generalizing s t with
  | nil => trivial
  | cons a rest ih =>
    rintro ⟨s', t'⟩ hs
    obtain ⟨hstep, -⟩ := shadowed_eq_some.mp hs
    exact ⟨(hp s' hstep).1, ih (hp s' hstep).2 t'⟩

section maps

variable {β : Type*} {step' : τ → β → Option τ} {f : σ → τ} {g : α → β} {Inv : σ → Prop}
  {C : α → Prop}

/-- Map rule: a map of states and actions that every step commutes with, where an
invariant holds and the actions meet a condition, sends runs to runs. -/
theorem run_map (hinv : ∀ s a s', Inv s → C a → step s a = some s' → Inv s')
    (hmap : ∀ s a, Inv s → C a → step' (f s) (g a) = (step s a).map f)
    {s : σ} {as : List α} (h : Inv s) (hc : ∀ a ∈ as, C a) :
    run step' (f s) (as.map g) = (run step s as).map f := by
  induction as generalizing s with
  | nil => rfl
  | cons a rest ih =>
    have ha : C a := hc a List.mem_cons_self
    rw [List.map_cons, run, run, hmap s a h ha]
    cases hs : step s a with
    | none => rfl
    | some m =>
      exact ih (hinv s a m h ha hs) fun b hb => hc b (List.mem_cons_of_mem a hb)

/-- A condition that the steps of an image meet is met by the steps themselves, when it can be
brought back. -/
theorem along_of_map {P : σ → α → σ → Prop} {P' : τ → β → τ → Prop}
    (hinv : ∀ s a s', Inv s → C a → step s a = some s' → Inv s')
    (hmap : ∀ s a, Inv s → C a → step' (f s) (g a) = (step s a).map f)
    (hback : ∀ s a s', Inv s → C a → P' (f s) (g a) (f s') → P s a s')
    {s : σ} {as : List α} (h : Inv s) (hc : ∀ a ∈ as, C a)
    (hp : Along step' P' (f s) (as.map g)) : Along step P s as := by
  induction as generalizing s with
  | nil => trivial
  | cons a rest ih =>
    intro s' hs
    have ha : C a := hc a List.mem_cons_self
    have himage : step' (f s) (g a) = some (f s') := by rw [hmap s a h ha, hs, Option.map_some]
    obtain ⟨hpa, hrest⟩ := hp (f s') himage
    exact ⟨hback s a s' h ha hpa,
      ih (hinv s a s' h ha hs) (fun b hb => hc b (List.mem_cons_of_mem a hb)) hrest⟩

/-- Lift rule: when every step from the image of a state is the image of a step, every
run from there is the image of a run. -/
theorem run_lift {D : β → Prop}
    (hlift : ∀ s b t', Inv s → D b → step' (f s) b = some t' →
      ∃ a s', C a ∧ b = g a ∧ step s a = some s' ∧ t' = f s' ∧ Inv s')
    {s : σ} {t' : τ} {bs : List β} (h : Inv s) (hd : ∀ b ∈ bs, D b)
    (hr : run step' (f s) bs = some t') :
    ∃ as s', (∀ a ∈ as, C a) ∧ bs = as.map g ∧ run step s as = some s' ∧ t' = f s' := by
  induction bs generalizing s with
  | nil =>
    cases hr
    exact ⟨[], s, by simp, rfl, rfl, rfl⟩
  | cons b rest ih =>
    obtain ⟨m', hm', hrest⟩ := run_cons_iff.mp hr
    obtain ⟨a, m, ha, rfl, hm, rfl, hinv⟩ := hlift s b m' h (hd b List.mem_cons_self) hm'
    obtain ⟨as, s', has, rfl, hrun, rfl⟩ :=
      ih hinv (fun c hc => hd c (List.mem_cons_of_mem _ hc)) hrest
    refine ⟨a :: as, s', ?_, rfl, run_cons_iff.mpr ⟨m, hm, hrun⟩, rfl⟩
    intro c hc
    rcases List.mem_cons.mp hc with rfl | hc
    · exact ha
    · exact has c hc

end maps

end PartialRuns
