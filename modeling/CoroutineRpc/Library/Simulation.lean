import CoroutineRpc.Library.Transition

/-! Forward simulation with an explicit translation of the labels. Each label of the detailed
system stands for a list of labels of the abstract one, read off the state it is taken in. -/
namespace CoroutineRpc.Transition

variable {σ α τ β : Type*} (step : σ → α → Option σ) (step' : τ → β → Option τ)
  (meaning : σ → α → List β)

/-- The abstract labels of a run; a disabled label ends it. -/
def translate : σ → List α → List β
  | _, [] => []
  | s, a :: as =>
    match step s a with
    | none => []
    | some t => meaning s a ++ translate t as

/-- Each step is matched by the labels that it stands for. -/
def Simulates (R : σ → τ → Prop) : Prop :=
  ∀ s a t u, R s u → step s a = some t → ∃ v, run step' u (meaning s a) = some v ∧ R t v

variable {step step' meaning}

@[simp] theorem translate_nil (s : σ) : translate step meaning s [] = [] := rfl

theorem translate_cons {s t : σ} {a : α} (h : step s a = some t) (as : List α) :
    translate step meaning s (a :: as) = meaning s a ++ translate step meaning t as := by
  rw [translate, h]

/-- A completed run is matched by its translation. -/
theorem Simulates.run {R : σ → τ → Prop} (h : Simulates step step' meaning R) {s t : σ} {u : τ}
    {as : List α} (hs : R s u) (hrun : run step s as = some t) :
    ∃ v, Transition.run step' u (translate step meaning s as) = some v ∧ R t v := by
  induction as generalizing s u with
  | nil =>
    obtain rfl := Option.some.inj hrun
    exact ⟨u, rfl, hs⟩
  | cons a as ih =>
    obtain ⟨mid, hstep, hrest⟩ := Option.bind_eq_some_iff.mp hrun
    obtain ⟨v, hv, hmid⟩ := h s a mid u hs hstep
    obtain ⟨w, hw, ht⟩ := ih hmid hrest
    refine ⟨w, ?_, ht⟩
    rw [translate_cons hstep, run_append, hv, Option.bind_some, hw]

end CoroutineRpc.Transition
