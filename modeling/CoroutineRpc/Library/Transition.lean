import Mathlib.Logic.Basic
import Mathlib.Data.List.Basic
import Mathlib.Data.Finset.Insert

/-! Runs of partial labelled transition systems.
A step may be disabled; guards and invariants are read along the whole run. -/
namespace CoroutineRpc.Transition

variable {σ α : Type*} (step : σ → α → Option σ)

/-- Follow the labels in order; a disabled label ends the run without a state. -/
def run : σ → List α → Option σ
  | s, [] => some s
  | s, a :: as => (step s a).bind (fun t => run t as)

/-- Every enabled label meets the guard in the state from which it is taken. -/
def Guarded (guard : σ → α → Prop) : σ → List α → Prop
  | _, [] => True
  | s, a :: as => ∀ t, step s a = some t → guard s a ∧ Guarded guard t as

/-- The property holds in every state the run passes through, both ends included. -/
def Always (inv : σ → Prop) : σ → List α → Prop
  | s, [] => inv s
  | s, a :: as => inv s ∧ ∀ t, step s a = some t → Always inv t as

/-- A state that some run reaches from an initial one. -/
def Reachable (init : σ → Prop) (s : σ) : Prop :=
  ∃ start labels, init start ∧ run step start labels = some s

@[simp] theorem run_nil (s : σ) : run step s [] = some s := rfl

@[simp] theorem run_cons (s : σ) (a : α) (as : List α) :
    run step s (a :: as) = (step s a).bind (fun t => run step t as) := rfl

theorem run_append (s : σ) (as bs : List α) :
    run step s (as ++ bs) = (run step s as).bind (fun t => run step t bs) := by
  induction as generalizing s with
  | nil => rfl
  | cons a as ih =>
    cases h : step s a with
    | none => simp [h]
    | some t => simp [h, ih]

variable {step}

theorem Always.start {inv : σ → Prop} {s : σ} {as : List α} (h : Always step inv s as) : inv s := by
  cases as with
  | nil => exact h
  | cons a as => exact h.1

/-- The last state of a completed run is one of those it passes through. -/
theorem Always.finish {inv : σ → Prop} {s t : σ} {as : List α} (h : Always step inv s as)
    (hr : run step s as = some t) : inv t := by
  induction as generalizing s with
  | nil =>
    have : s = t := by simpa using hr
    exact this ▸ h
  | cons a as ih =>
    obtain ⟨u, hu, hr⟩ := Option.bind_eq_some_iff.mp hr
    exact ih (h.2 u hu) hr

theorem Always.mono {inv inv' : σ → Prop} (himp : ∀ s, inv s → inv' s) {s : σ} {as : List α}
    (h : Always step inv s as) : Always step inv' s as := by
  induction as generalizing s with
  | nil => exact himp s h
  | cons a as ih => exact ⟨himp s h.1, fun t ht => ih (h.2 t ht)⟩

theorem Guarded.mono {guard guard' : σ → α → Prop} (himp : ∀ s a, guard s a → guard' s a)
    {s : σ} {as : List α} (h : Guarded step guard s as) : Guarded step guard' s as := by
  induction as generalizing s with
  | nil => trivial
  | cons a as ih => exact fun t ht => ⟨himp s a (h t ht).1, ih (h t ht).2⟩

/-- A guard that each label meets in every state holds along the run. -/
theorem guarded_of_forall {guard : σ → α → Prop} {as : List α} (h : ∀ a ∈ as, ∀ s, guard s a)
    (s : σ) : Guarded step guard s as := by
  induction as generalizing s with
  | nil => trivial
  | cons a as ih =>
    intro t _
    exact ⟨h a List.mem_cons_self s, ih (fun b hb => h b (List.mem_cons_of_mem _ hb)) t⟩

/-- A step that is known to be taken. -/
theorem Guarded.cons {guard : σ → α → Prop} {s t : σ} {a : α} {as : List α}
    (hstep : step s a = some t) (hg : guard s a) (h : Guarded step guard t as) :
    Guarded step guard s (a :: as) := by
  intro u hu
  obtain rfl : t = u := Option.some.inj (hstep.symm.trans hu)
  exact ⟨hg, h⟩

/-- What every guarded step preserves holds along every guarded run. -/
theorem always_of_guarded {guard : σ → α → Prop} {inv : σ → Prop}
    (hstep : ∀ s a t, inv s → guard s a → step s a = some t → inv t)
    {s : σ} {as : List α} (hs : inv s) (hg : Guarded step guard s as) : Always step inv s as := by
  induction as generalizing s with
  | nil => exact hs
  | cons a as ih =>
    refine ⟨hs, ?_⟩
    intro t ht
    exact ih (hstep s a t hs (hg t ht).1 ht) (hg t ht).2

/-- The guarded form of the invariant rule, at the end of a completed run. -/
theorem inv_of_guarded_run {guard : σ → α → Prop} {inv : σ → Prop}
    (hstep : ∀ s a t, inv s → guard s a → step s a = some t → inv t)
    {s t : σ} {as : List α} (hs : inv s) (hg : Guarded step guard s as)
    (hr : run step s as = some t) : inv t :=
  (always_of_guarded hstep hs hg).finish hr

/-- What every step preserves holds along every run. -/
theorem always_of_step {inv : σ → Prop} (hstep : ∀ s a t, inv s → step s a = some t → inv t)
    {s : σ} (hs : inv s) (as : List α) : Always step inv s as := by
  induction as generalizing s with
  | nil => exact hs
  | cons a as ih =>
    refine ⟨hs, ?_⟩
    intro t ht
    exact ih (hstep s a t hs ht)

/-- What every step preserves holds at the end of every run. -/
theorem inv_of_run {inv : σ → Prop} (hstep : ∀ s a t, inv s → step s a = some t → inv t)
    {s t : σ} {as : List α} (hs : inv s) (hr : run step s as = some t) : inv t :=
  (always_of_step hstep hs as).finish hr

/-- If a guard decides, step by step, whether a property survives, then it decides it
for whole runs. The auxiliary invariant may use both of them. -/
theorem always_iff_guarded {guard : σ → α → Prop} {aux inv : σ → Prop}
    (haux : ∀ s a t, aux s → inv s → guard s a → step s a = some t → aux t)
    (hstep : ∀ s a t, aux s → inv s → step s a = some t → (inv t ↔ guard s a))
    {s : σ} {as : List α} (ha : aux s) (hs : inv s) :
    Always step inv s as ↔ Guarded step guard s as := by
  induction as generalizing s with
  | nil => exact ⟨fun _ => trivial, fun _ => hs⟩
  | cons a as ih =>
    constructor
    · rintro ⟨_, h⟩ t ht
      have hg := (hstep s a t ha hs ht).mp (h t ht).start
      exact ⟨hg, (ih (haux s a t ha hs hg ht) (h t ht).start).mp (h t ht)⟩
    · intro h
      refine ⟨hs, ?_⟩
      intro t ht
      obtain ⟨hg, hrest⟩ := h t ht
      exact (ih (haux s a t ha hs hg ht) ((hstep s a t ha hs ht).mpr hg)).mpr hrest

/-- The same without an auxiliary invariant. -/
theorem always_iff_of_step {guard : σ → α → Prop} {inv : σ → Prop}
    (hstep : ∀ s a t, inv s → step s a = some t → (inv t ↔ guard s a)) {s : σ} {as : List α}
    (hs : inv s) : Always step inv s as ↔ Guarded step guard s as := by
  have haux : ∀ (s : σ) (a : α) (t : σ), True → inv s → guard s a → step s a = some t → True :=
    fun _ _ _ _ _ _ _ => trivial
  exact always_iff_guarded haux (fun s a t _ => hstep s a t) trivial hs

/-- If each member of a finite set can be brought to its goal while the others keep theirs,
then all of them can be there at once. -/
theorem run_to_all {ι : Type*} (inv : σ → Prop) (goal : ι → σ → Prop) (members : Finset ι)
    (hone : ∀ s, inv s → ∀ i ∈ members, ∃ as t, run step s as = some t ∧ inv t ∧ goal i t ∧
      ∀ j, j ≠ i → goal j s → goal j t) {s : σ} (hs : inv s) :
    ∃ as t, run step s as = some t ∧ inv t ∧ ∀ i ∈ members, goal i t := by
  classical
  induction members using Finset.induction_on with
  | empty => exact ⟨[], s, rfl, hs, fun i hi => absurd hi (Finset.notMem_empty i)⟩
  | insert i rest hout ih =>
    obtain ⟨as, t, hrun, ht, hgoals⟩ :=
      ih (fun s hs j hj => hone s hs j (Finset.mem_insert_of_mem hj))
    obtain ⟨bs, u, hrun', hu, hself, hother⟩ := hone t ht i (Finset.mem_insert_self i rest)
    refine ⟨as ++ bs, u, ?_, hu, ?_⟩
    · rw [run_append, hrun, Option.bind_some, hrun']
    · intro j hj
      rcases Finset.mem_insert.mp hj with rfl | hj
      · exact hself
      · exact hother j (fun he => hout (he ▸ hj)) (hgoals j hj)

end CoroutineRpc.Transition
