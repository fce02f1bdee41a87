import CoroutineRpc.Library.Transition
import Mathlib.Logic.Function.Basic

/-! Families of transition systems: each label is taken by one member, and the others stay.
What a label does to the property of its own member decides about the whole family. -/
namespace CoroutineRpc.Transition

variable {ι σ α : Type*} [DecidableEq ι] (step : σ → α → Option σ)

/-- The step of the member that the label names. -/
def indexed (s : ι → σ) (a : ι × α) : Option (ι → σ) :=
  (step (s a.1) a.2).map (Function.update s a.1)

variable {step}

theorem indexed_some {s t : ι → σ} {a : ι × α} (h : indexed step s a = some t) :
    ∃ d, step (s a.1) a.2 = some d ∧ t = Function.update s a.1 d := by
  obtain ⟨d, hd, rfl⟩ := Option.map_eq_some_iff.mp h
  exact ⟨d, hd, rfl⟩

/-- A property of all members, once one of them has changed. -/
theorem forall_update_iff {inv : σ → Prop} {s : ι → σ} (h : ∀ i, inv (s i)) (i : ι) (d : σ) :
    (∀ j, inv (Function.update s i d j)) ↔ inv d := by
  constructor
  · intro hall
    simpa only [Function.update_self] using hall i
  · intro hd j
    rcases eq_or_ne j i with rfl | hne
    · rwa [Function.update_self]
    · rw [Function.update_of_ne hne]
      exact h j

/-- If a guard decides for one member whether its property survives, it decides it for runs of
the family. The auxiliary invariant may use both of them. -/
theorem indexed_always_iff {guard : σ → α → Prop} {aux inv : σ → Prop}
    (haux : ∀ d a e, aux d → inv d → guard d a → step d a = some e → aux e)
    (hstep : ∀ d a e, aux d → inv d → step d a = some e → (inv e ↔ guard d a))
    {s : ι → σ} {as : List (ι × α)} (ha : ∀ i, aux (s i)) (hs : ∀ i, inv (s i)) :
    Always (indexed step) (fun s => ∀ i, inv (s i)) s as ↔
      Guarded (indexed step) (fun s a => guard (s a.1) a.2) s as := by
  have hkeep : ∀ (s : ι → σ) a t, (∀ i, aux (s i)) → (∀ i, inv (s i)) → guard (s a.1) a.2 →
      indexed step s a = some t → ∀ i, aux (t i) := by
    intro s a t ha hs hg ht
    obtain ⟨d, hd, rfl⟩ := indexed_some ht
    exact (forall_update_iff ha a.1 d).mpr (haux _ _ _ (ha a.1) (hs a.1) hg hd)
  refine always_iff_guarded hkeep ?_ ha hs
  intro s a t ha hs ht
  obtain ⟨d, hd, rfl⟩ := indexed_some ht
  exact (forall_update_iff hs a.1 d).trans (hstep _ _ _ (ha a.1) (hs a.1) hd)

end CoroutineRpc.Transition
