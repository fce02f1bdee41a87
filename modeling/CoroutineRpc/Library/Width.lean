import Mathlib.Data.Int.Order.Basic
import Mathlib.Tactic.NormNum

/-! Signed machine integers as integers: what is left of a value at 32 and at 64 bits.
Each result is characterised by its range and its residue, which is what arithmetic needs. -/
namespace CoroutineRpc

/-- A value as an `int32_t` holds it. -/
def int32 (x : Int) : Int := x.bmod (2 ^ 32)

/-- A value as an `int64_t` holds it. -/
def int64 (x : Int) : Int := x.bmod (2 ^ 64)

/-- A value as a `uint64_t` holds it. -/
def uint64 (x : Int) : Nat := (x % 2 ^ 64).toNat

theorem int32_spec (x : Int) :
    (∃ k, int32 x = x - 2 ^ 32 * k) ∧ -2 ^ 31 ≤ int32 x ∧ int32 x < 2 ^ 31 := by
  refine ⟨⟨x.bdiv (2 ^ 32), ?_⟩, ?_, ?_⟩
  · rw [int32, Int.bmod_eq_self_sub_mul_bdiv]
    norm_num
  · have hle : -((2 ^ 32 : Nat) / 2 : Int) ≤ x.bmod (2 ^ 32) := Int.le_bmod (by decide)
    exact hle
  · have hlt : x.bmod (2 ^ 32) < ((2 ^ 32 : Nat) + 1) / 2 := Int.bmod_lt (by decide)
    exact hlt

theorem int64_spec (x : Int) :
    (∃ k, int64 x = x - 2 ^ 64 * k) ∧ -2 ^ 63 ≤ int64 x ∧ int64 x < 2 ^ 63 := by
  refine ⟨⟨x.bdiv (2 ^ 64), ?_⟩, ?_, ?_⟩
  · rw [int64, Int.bmod_eq_self_sub_mul_bdiv]
    norm_num
  · have hle : -((2 ^ 64 : Nat) / 2 : Int) ≤ x.bmod (2 ^ 64) := Int.le_bmod (by decide)
    exact hle
  · have hlt : x.bmod (2 ^ 64) < ((2 ^ 64 : Nat) + 1) / 2 := Int.bmod_lt (by decide)
    exact hlt

/-- A value in range is kept. -/
theorem int64_of_fits {x : Int} (hle : -2 ^ 63 ≤ x) (hlt : x < 2 ^ 63) : int64 x = x := by
  obtain ⟨⟨k, hk⟩, hlow, hhigh⟩ := int64_spec x
  omega

/-- A value that is not too small can only become smaller. -/
theorem int64_le {x : Int} (h : -2 ^ 63 ≤ x) : int64 x ≤ x := by
  obtain ⟨⟨k, hk⟩, hlow, hhigh⟩ := int64_spec x
  omega

theorem int32_of_fits {x : Int} (hle : -2 ^ 31 ≤ x) (hlt : x < 2 ^ 31) : int32 x = x := by
  obtain ⟨⟨k, hk⟩, hlow, hhigh⟩ := int32_spec x
  omega

@[simp] theorem int64_int64 (x : Int) : int64 (int64 x) = int64 x := Int.bmod_bmod

/-- Only the last of several wrapped steps matters. -/
theorem int64_add_int64 (x y : Int) : int64 (x + int64 y) = int64 (x + y) := Int.add_bmod_bmod

theorem int64_int64_add (x y : Int) : int64 (int64 x + y) = int64 (x + y) := Int.bmod_add_bmod

theorem int64_int64_mul (x y : Int) : int64 (int64 x * y) = int64 (x * y) := Int.bmod_mul_bmod

/-- A narrowing forgets how the wider value was wrapped. -/
theorem int32_int64 (x : Int) : int32 (int64 x) = int32 x := by
  obtain ⟨⟨k, hk⟩, -, -⟩ := int64_spec x
  obtain ⟨⟨j, hj⟩, hlow, hhigh⟩ := int32_spec (int64 x)
  obtain ⟨⟨i, hi⟩, hlow', hhigh'⟩ := int32_spec x
  omega

/-- A signed value that went through `uint64_t` comes back. -/
theorem int64_uint64 (x : Int) : int64 (uint64 x) = int64 x := by
  have hmod : ((uint64 x : Nat) : Int) = x % 2 ^ 64 := by
    rw [uint64]
    omega
  rw [hmod]
  exact Int.emod_bmod x (2 ^ 64)

end CoroutineRpc
