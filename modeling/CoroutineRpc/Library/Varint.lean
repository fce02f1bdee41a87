import CoroutineRpc.Library.Text

/-! Base-128 varints: seven bits a byte, lowest first, the high bit marks continuation. -/
namespace CoroutineRpc.Varint

/-- Write at most `width` bytes of `n`. -/
def encode : (width : Nat) → Nat → ByteString
  | 0, _ => []
  | k + 1, n => if n < 128 then [UInt8.ofNat n] else UInt8.ofNat (n % 128 + 128) :: encode k (n / 128)

/-- Read a number of at most `width` bytes; `none` when it does not end within them. -/
def decode : (width : Nat) → ByteString → Option (Nat × ByteString)
  | 0, _ => none
  | _ + 1, [] => none
  | k + 1, b :: bs =>
    if b.toNat < 128 then some (b.toNat, bs)
    else (decode k bs).map (fun r => (b.toNat - 128 + 128 * r.1, r.2))

theorem length_encode_le (k n : Nat) : (encode k n).length ≤ k := by
  induction k generalizing n with
  | zero => exact Nat.le_refl 0
  | succ k ih =>
    rw [encode]
    split
    · exact Nat.succ_le_succ (Nat.zero_le k)
    · exact Nat.succ_le_succ (ih _)

/-- A number that fits the width is read back, also by a wider reader, and the bytes
after it are left alone. -/
theorem decode_encode {k w n : Nat} (h : n < 128 ^ (k + 1)) (hw : k < w) (rest : ByteString) :
    decode w (encode (k + 1) n ++ rest) = some (n, rest) := by
  induction k generalizing n w with
  | zero =>
    obtain ⟨w, rfl⟩ := Nat.exists_eq_succ_of_ne_zero (Nat.ne_of_gt hw)
    have hn : n < 128 := by simpa using h
    have hb : (UInt8.ofNat n).toNat = n := by
      rw [UInt8.toNat_ofNat']
      exact Nat.mod_eq_of_lt (by omega)
    simp [encode, decode, hb, hn]
  | succ k ih =>
    obtain ⟨w, rfl⟩ := Nat.exists_eq_succ_of_ne_zero (Nat.ne_of_gt (Nat.zero_lt_of_lt hw))
    rw [encode]
    split
    · rename_i hsmall
      have hb : (UInt8.ofNat n).toNat = n := by
        rw [UInt8.toNat_ofNat']
        exact Nat.mod_eq_of_lt (by omega)
      simp [decode, hb, hsmall]
    · have hb : (UInt8.ofNat (n % 128 + 128)).toNat = n % 128 + 128 := by
        rw [UInt8.toNat_ofNat']
        exact Nat.mod_eq_of_lt (by omega)
      have hdiv : n / 128 < 128 ^ (k + 1) := by
        rw [Nat.pow_succ] at h
        exact Nat.div_lt_of_lt_mul (by omega)
      simp only [List.cons_append, decode, hb, ih hdiv (by omega : k < w)]
      simp only [show ¬ n % 128 + 128 < 128 by omega, if_false, Option.map_some, Option.some.injEq,
        Prod.mk.injEq, and_true]
      omega

/-- The bytes of a positive number: the last one is its leading digit. -/
theorem zero_notMem_encode {k n : Nat} (h : 0 < n) : (0 : UInt8) ∉ encode k n := by
  have hb : ∀ m, 0 < m → m < 256 → (0 : UInt8) ≠ UInt8.ofNat m := by
    intro m hpos hlt he
    have hm := congrArg UInt8.toNat he
    rw [UInt8.toNat_ofNat', Nat.mod_eq_of_lt (by omega)] at hm
    exact absurd hm (by simpa using Nat.ne_of_lt hpos)
  induction k generalizing n with
  | zero => exact List.not_mem_nil
  | succ k ih =>
    rw [encode]
    split
    · exact fun hmem => hb n h (by omega) (List.mem_singleton.mp hmem)
    · intro hmem
      rcases List.mem_cons.mp hmem with he | hmem
      · exact hb _ (by omega) (by omega) he
      · exact ih (by omega) hmem

/-- What has been read stays the same, whatever follows it. -/
theorem decode_split {w n : Nat} {bs rest : ByteString} (h : decode w bs = some (n, rest)) :
    ∃ used, bs = used ++ rest ∧ ∀ tail, decode w (used ++ tail) = some (n, tail) := by
  induction w generalizing n bs with
  | zero => cases h
  | succ w ih =>
    cases bs with
    | nil => cases h
    | cons b bs =>
      rw [decode] at h
      split at h
      · next hlast =>
        cases h
        refine ⟨[b], rfl, fun tail => ?_⟩
        rw [List.cons_append, List.nil_append, decode, if_pos hlast]
      · next hmore =>
        obtain ⟨⟨m, tail⟩, hm, heq⟩ := Option.map_eq_some_iff.mp h
        cases heq
        obtain ⟨used, rfl, hused⟩ := ih hm
        refine ⟨b :: used, rfl, fun tail => ?_⟩
        rw [List.cons_append, decode, if_neg hmore, hused]
        rfl

end CoroutineRpc.Varint
