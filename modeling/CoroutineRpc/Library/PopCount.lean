import CoroutineRpc.Library.Masks
import Mathlib.Algebra.BigOperators.Group.Finset.Basic
import Mathlib.Algebra.BigOperators.Intervals
import Mathlib.Data.Nat.Bitwise

/-! The number of bits of a word that are one. -/
namespace CoroutineRpc

/-- Of the first `w` bits. -/
def ones (w n : Nat) : Nat := ∑ i ∈ Finset.range w, (n.testBit i).toNat

@[simp] theorem ones_zero (w : Nat) : ones w 0 = 0 := by
  apply Finset.sum_eq_zero
  intro i _
  rw [Nat.zero_testBit]
  rfl

theorem ones_succ (w n : Nat) : ones (w + 1) n = ones w (n / 2) + n % 2 := by
  have hfirst : (n.testBit 0).toNat = n % 2 := by
    rw [Nat.testBit_zero]
    rcases Nat.mod_two_eq_zero_or_one n with h | h <;> rw [h] <;> rfl
  rw [ones, Finset.sum_range_succ', hfirst]
  apply congrArg (· + n % 2)
  apply Finset.sum_congr rfl
  intro i _
  rw [Nat.testBit_succ]

/-- Taking one away and keeping the common bits clears the lowest one. -/
theorem ones_and_pred {w n : Nat} (hpos : 0 < n) (hlt : n < 2 ^ w) :
    ones w (n &&& (n - 1)) + 1 = ones w n := by
  induction w generalizing n with
  | zero => omega
  | succ w ih =>
    have hhalf : (n &&& (n - 1)) / 2 = n / 2 &&& (n - 1) / 2 := Nat.and_div_two
    have hlow : (n &&& (n - 1)) % 2 = 0 := by
      have hnot : ¬ (n &&& (n - 1)) % 2 = 1 := by
        rw [Nat.and_mod_two_eq_one]
        omega
      omega
    rw [ones_succ, ones_succ, hhalf, hlow]
    rcases Nat.mod_two_eq_zero_or_one n with heven | hodd
    · have hpred : (n - 1) / 2 = n / 2 - 1 := by omega
      have hrest := ih (n := n / 2) (by omega) (by omega)
      rw [hpred, heven]
      exact hrest
    · have hpred : (n - 1) / 2 = n / 2 := by omega
      rw [hpred, Nat.and_self, hodd]

private theorem ones_netmask_le {w p : Nat} (h : p ≤ w) : ones w (netmask w p).toNat = p := by
  obtain ⟨k, rfl⟩ := Nat.exists_eq_add_of_le' h
  have hbit : ∀ i < k + p, ((netmask (k + p) p).toNat.testBit i).toNat = if k ≤ i then 1 else 0 := by
    intro i hi
    have hmask := netmask_getLsbD (p := p) hi
    change (netmask (k + p) p).toNat.testBit i = _ at hmask
    rw [hmask]
    by_cases hk : k ≤ i
    · rw [if_pos hk, decide_eq_true (by omega)]
      rfl
    · rw [if_neg hk, decide_eq_false (by omega)]
      rfl
  have hsum : ones (k + p) (netmask (k + p) p).toNat =
      ∑ i ∈ Finset.range (k + p), if k ≤ i then 1 else 0 :=
    Finset.sum_congr rfl (fun i hi => hbit i (Finset.mem_range.mp hi))
  rw [hsum, Finset.sum_range_add]
  have hfront : ∑ i ∈ Finset.range k, (if k ≤ i then 1 else 0) = 0 := by
    apply Finset.sum_eq_zero
    intro i hi
    exact if_neg (Nat.not_le.mpr (Finset.mem_range.mp hi))
  rw [hfront, Nat.zero_add]
  simp

theorem ones_netmask (w p : Nat) : ones w (netmask w p).toNat = min w p := by
  rcases Nat.le_total p w with h | h
  · rw [ones_netmask_le h, Nat.min_eq_right h]
  · have hall : netmask w p = netmask w w := by
      apply BitVec.eq_of_getLsbD_eq
      intro i hi
      rw [netmask_getLsbD hi, netmask_getLsbD hi, decide_eq_true (by omega),
        decide_eq_true (by omega)]
    rw [hall, ones_netmask_le (Nat.le_refl w), Nat.min_eq_left h]

end CoroutineRpc
