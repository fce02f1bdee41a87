import Mathlib.Data.BitVec

/-! Prefix masks of a word, counted from its most significant bit. -/
namespace CoroutineRpc

/-- The first `p` bits are one, the rest are zero. -/
def netmask (w p : Nat) : BitVec w := ~~~(BitVec.allOnes w >>> p)

theorem netmask_getLsbD {w p i : Nat} (h : i < w) :
    (netmask w p).getLsbD i = decide (w ≤ p + i) := by
  rw [netmask, BitVec.getLsbD_not, BitVec.getLsbD_ushiftRight, BitVec.getLsbD_allOnes,
    decide_eq_true h, Bool.true_and, ← decide_not]
  congr 1
  exact propext Nat.not_lt

theorem netmask_getMsbD {w p i : Nat} (h : i < w) :
    (netmask w p).getMsbD i = decide (i < p) := by
  rw [BitVec.getMsbD_eq_getLsbD, decide_eq_true h, Bool.true_and, netmask_getLsbD (by omega)]
  congr 1
  apply propext
  omega

/-- The bits behind a prefix, as a number. -/
theorem ofNat_hostmask {w p : Nat} (h : p ≤ w) :
    BitVec.ofNat w (2 ^ (w - p) - 1) = ~~~netmask w p := by
  apply BitVec.eq_of_getLsbD_eq
  intro i hi
  rw [BitVec.getLsbD_ofNat, Nat.testBit_two_pow_sub_one, BitVec.getLsbD_not, netmask_getLsbD hi,
    decide_eq_true hi, Bool.true_and, Bool.true_and, ← decide_not]
  congr 1
  apply propext
  omega

/-- What lies inside a mask and outside of it is the same for zero only. -/
theorem and_mask_iff {w : Nat} (a m : BitVec w) : a &&& ~~~m = a &&& m ↔ a = 0#w := by
  constructor
  · intro h
    apply BitVec.eq_of_getLsbD_eq
    intro i hi
    have hbit := congrArg (fun x => x.getLsbD i) h
    simp only [BitVec.getLsbD_and, BitVec.getLsbD_not, decide_eq_true hi, Bool.true_and] at hbit
    rw [BitVec.getLsbD_zero]
    cases ha : a.getLsbD i with
    | false => rfl
    | true =>
      rw [ha] at hbit
      cases hm : m.getLsbD i <;> rw [hm] at hbit <;> cases hbit
  · rintro rfl
    rw [BitVec.zero_and, BitVec.zero_and]

end CoroutineRpc
