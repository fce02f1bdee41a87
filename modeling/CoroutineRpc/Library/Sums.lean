import Mathlib.Algebra.BigOperators.Group.Finset.Basic
import Mathlib.Algebra.BigOperators.Group.Finset.Piecewise
import Mathlib.Algebra.GroupWithZero.Nat

/-! Sums and counts when one of the summands changes. -/
namespace CoroutineRpc

/-- Two sums that agree except at one index differ by that summand. -/
theorem sum_change {α M : Type*} [DecidableEq α] [AddCommMonoid M] {s : Finset α} {a : α}
    {f g : α → M} (ha : a ∈ s) (h : ∀ b ∈ s, b ≠ a → f b = g b) :
    ∑ b ∈ s, f b + g a = ∑ b ∈ s, g b + f a := by
  have hrest : ∑ b ∈ s.erase a, f b = ∑ b ∈ s.erase a, g b :=
    Finset.sum_congr rfl (fun b hb => h b (Finset.mem_of_mem_erase hb) (Finset.ne_of_mem_erase hb))
  rw [← Finset.add_sum_erase s f ha, ← Finset.add_sum_erase s g ha, hrest, add_right_comm,
    add_comm (f a) (g a), add_right_comm]

/-- Two counts that agree except at one index differ by that index. -/
theorem card_filter_change {α : Type*} [DecidableEq α] {s : Finset α} {a : α} {p q : α → Bool}
    (ha : a ∈ s) (h : ∀ b ∈ s, b ≠ a → p b = q b) :
    (s.filter (fun b => p b)).card + (q a).toNat = (s.filter (fun b => q b)).card + (p a).toNat := by
  have hcard : ∀ r : α → Bool, (s.filter (fun b => r b)).card = ∑ b ∈ s, (r b).toNat := by
    intro r
    rw [Finset.card_filter]
    apply Finset.sum_congr rfl
    intro b _
    cases r b with
    | true => rfl
    | false => rfl
  rw [hcard, hcard]
  exact sum_change (f := fun b => (p b).toNat) (g := fun b => (q b).toNat) ha
    (fun b hb hne => by rw [h b hb hne])

end CoroutineRpc
