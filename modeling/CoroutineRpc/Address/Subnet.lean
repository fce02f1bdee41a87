import CoroutineRpc.Address.Endian
import CoroutineRpc.Library.CBuffer
import CoroutineRpc.Library.Masks
import CoroutineRpc.Library.Width
import Mathlib.Tactic.Positivity

/-! Networks, broadcast addresses and netmasks of IPv4 addresses. `CreateMask` gives the bits
behind the prefix, and not every caller turns them around. -/
namespace CoroutineRpc.Address

/-- What a computation must not do. -/
inductive Fault where
  | shiftTooFar
  | signedOverflow
  | outOfBounds (e : OutOfBounds)
  deriving DecidableEq, Repr

/-- `CreateMask<T>` for a type of `w` bits: the amount is a `size_t`, the rest is an `int`. -/
def createMask (w : Nat) (bits : UInt32) : Except Fault (BitVec w) :=
  let amount := (w + 2 ^ 64 - bits.toNat) % 2 ^ 64
  if 32 ≤ amount then .error .shiftTooFar
  else
    let shifted := int32 (2 ^ amount)
    if shifted - 1 < -2 ^ 31 then .error .signedOverflow else .ok (BitVec.ofInt w (shifted - 1))

/-- A `sockaddr_in`: the port and the address are in network order. -/
structure IPv4Address where
  sinFamily : UInt16
  sinPort : BitVec 16
  sAddr : BitVec 32
  deriving DecidableEq, Repr

def afInet : UInt16 := 2

namespace IPv4Address

/-- The address as a number. -/
def address (e : Endian) (x : IPv4Address) : BitVec 32 := byteswapOnLittleEndian e x.sAddr

def broadcastAddress (e : Endian) (x : IPv4Address) (prefixLen : UInt32) :
    Except Fault (Option IPv4Address) :=
  if 32 < prefixLen then pure none
  else do
    let mask ← createMask 32 prefixLen
    pure (some { x with sAddr := x.sAddr ||| byteswapOnLittleEndian e mask })

def networdAddress (e : Endian) (x : IPv4Address) (prefixLen : UInt32) :
    Except Fault (Option IPv4Address) :=
  if 32 < prefixLen then pure none
  else do
    let mask ← createMask 32 prefixLen
    pure (some { x with sAddr := x.sAddr &&& byteswapOnLittleEndian e mask })

/-- The length is not checked here. -/
def subnetMask (e : Endian) (prefixLen : UInt32) : Except Fault (Option IPv4Address) := do
  let mask ← createMask 32 prefixLen
  pure (some { sinFamily := afInet, sinPort := 0, sAddr := ~~~byteswapOnLittleEndian e mask })

/-- The three operations as a subnet of this length means them. -/
structure Consistent (e : Endian) (x : IPv4Address) (p : UInt32) : Prop where
  mask : p.toNat ≤ 32 → ∃ m, subnetMask e p = .ok (some m) ∧ m.address e = netmask 32 p.toNat
  network : p.toNat ≤ 32 → ∃ n, x.networdAddress e p = .ok (some n) ∧
    n.address e = x.address e &&& netmask 32 p.toNat ∧
    n.sinFamily = x.sinFamily ∧ n.sinPort = x.sinPort
  broadcast : p.toNat ≤ 32 → ∃ b, x.broadcastAddress e p = .ok (some b) ∧
    b.address e = x.address e ||| ~~~netmask 32 p.toNat ∧
    b.sinFamily = x.sinFamily ∧ b.sinPort = x.sinPort
  refused : 32 < p.toNat → subnetMask e p = .ok none ∧ x.networdAddress e p = .ok none ∧
    x.broadcastAddress e p = .ok none

end IPv4Address

private theorem int32_two_pow {k : Nat} (h : k ≤ 30) : int32 (2 ^ k) = 2 ^ k := by
  have hle : (2 : Int) ^ k ≤ 2 ^ 30 := pow_le_pow_right₀ (by norm_num) h
  have hpos : (0 : Int) < 2 ^ k := by positivity
  exact int32_of_fits (by omega) (by omega)

/-- The mask has the bits behind the prefix, if it can be computed. -/
theorem createMask_eq {w : Nat} {bits : UInt32} (h : bits.toNat ≤ w) (hw : w ≤ 32) :
    createMask w bits = if w - bits.toNat = 32 then .error .shiftTooFar
      else if w - bits.toNat = 31 then .error .signedOverflow
      else .ok (~~~netmask w bits.toNat) := by
  have hamount : (w + 2 ^ 64 - bits.toNat) % 2 ^ 64 = w - bits.toNat := by omega
  have hk : w - bits.toNat ≤ 32 := by omega
  rw [createMask, hamount, ← ofNat_hostmask h]
  dsimp only
  generalize w - bits.toNat = k at hk ⊢
  by_cases hfar : k = 32
  · rw [if_pos hfar, if_pos (Nat.le_of_eq hfar.symm)]
  · rw [if_neg hfar, if_neg (by omega : ¬ 32 ≤ k)]
    by_cases hsign : k = 31
    · subst hsign
      rfl
    · have hsmall : k ≤ 30 := by omega
      have hpos : (0 : Int) < 2 ^ k := by positivity
      have hcast : (2 : Int) ^ k - 1 = ((2 ^ k - 1 : Nat) : Int) := by
        rw [Nat.cast_sub Nat.one_le_two_pow]
        norm_num
      rw [int32_two_pow hsmall, if_neg hsign, if_neg (by omega), hcast, BitVec.ofInt_natCast]

private theorem createMask32_ok {p : UInt32} (hlow : 2 ≤ p.toNat) (hhigh : p.toNat ≤ 32) :
    createMask 32 p = .ok (~~~netmask 32 p.toNat) := by
  rw [createMask_eq hhigh (Nat.le_refl _), if_neg (by omega), if_neg (by omega)]

/-- For the lengths 0 and 1 the `int` is left, and beyond 32 the amount is huge. -/
theorem createMask32_error {p : UInt32} (h : p.toNat < 2 ∨ 32 < p.toNat) :
    ∃ fault, createMask 32 p = .error fault := by
  by_cases hhigh : p.toNat ≤ 32
  · rw [createMask_eq hhigh (Nat.le_refl _)]
    by_cases hzero : p.toNat = 0
    · exact ⟨_, if_pos (by omega)⟩
    · exact ⟨_, (if_neg (by omega)).trans (if_pos (by omega))⟩
  · have hlt := p.toNat_lt
    exact ⟨.shiftTooFar, if_pos (by omega)⟩

namespace IPv4Address
variable {e : Endian} {x : IPv4Address} {p : UInt32}

private theorem not_tooLong (h : p.toNat ≤ 32) : ¬ 32 < p := Nat.not_lt.mpr h

theorem subnetMask_ok (hlow : 2 ≤ p.toNat) (hhigh : p.toNat ≤ 32) :
    ∃ m, subnetMask e p = .ok (some m) ∧ m.address e = netmask 32 p.toNat := by
  rw [subnetMask, createMask32_ok hlow hhigh]
  refine ⟨_, rfl, ?_⟩
  simp only [address, byteswap_not, byteswap_byteswap, BitVec.not_not]

private theorem broadcastAddress_ok (hlow : 2 ≤ p.toNat) (hhigh : p.toNat ≤ 32) :
    ∃ b, x.broadcastAddress e p = .ok (some b) ∧
      b.address e = x.address e ||| ~~~netmask 32 p.toNat ∧
      b.sinFamily = x.sinFamily ∧ b.sinPort = x.sinPort := by
  rw [broadcastAddress, if_neg (not_tooLong hhigh), createMask32_ok hlow hhigh]
  refine ⟨_, rfl, ?_, rfl, rfl⟩
  simp only [address, byteswap_or, byteswap_byteswap]

/-- The host part is what `networdAddress` keeps. -/
theorem networdAddress_eq (hlow : 2 ≤ p.toNat) (hhigh : p.toNat ≤ 32) :
    ∃ n, x.networdAddress e p = .ok (some n) ∧
      n.address e = x.address e &&& ~~~netmask 32 p.toNat ∧
      n.sinFamily = x.sinFamily ∧ n.sinPort = x.sinPort := by
  rw [networdAddress, if_neg (not_tooLong hhigh), createMask32_ok hlow hhigh]
  refine ⟨_, rfl, ?_, rfl, rfl⟩
  simp only [address, byteswap_and, byteswap_byteswap]

theorem subnetMask_error (h : p.toNat < 2 ∨ 32 < p.toNat) :
    ∃ fault, subnetMask e p = .error fault := by
  obtain ⟨fault, hfault⟩ := createMask32_error h
  rw [subnetMask, hfault]
  exact ⟨fault, rfl⟩

/-- The operations agree on a subnet exactly where every shift is in range and the address
is 0.0.0.0, which has no host part to keep. -/
theorem consistent_iff (e : Endian) (x : IPv4Address) (p : UInt32) :
    Consistent e x p ↔ 2 ≤ p.toNat ∧ p.toNat ≤ 32 ∧ x.address e = 0 := by
  constructor
  · intro h
    have hrange : ¬ (p.toNat < 2 ∨ 32 < p.toNat) := by
      intro hout
      obtain ⟨fault, hfault⟩ := subnetMask_error (e := e) hout
      by_cases hhigh : p.toNat ≤ 32
      · obtain ⟨m, hm, -⟩ := h.mask hhigh
        cases hfault.symm.trans hm
      · cases hfault.symm.trans (h.refused (by omega)).1
    have hlow : 2 ≤ p.toNat := by omega
    have hhigh : p.toNat ≤ 32 := by omega
    obtain ⟨n, hn, haddress, -⟩ := h.network hhigh
    obtain ⟨n', hn', haddress', -⟩ := networdAddress_eq (e := e) (x := x) hlow hhigh
    rw [hn] at hn'
    cases hn'
    exact ⟨hlow, hhigh, (and_mask_iff _ _).mp (haddress'.symm.trans haddress)⟩
  · rintro ⟨hlow, hhigh, hzero⟩
    refine ⟨fun _ => subnetMask_ok hlow hhigh, fun _ => ?_,
      fun _ => broadcastAddress_ok hlow hhigh, fun hlong => absurd hlong (by omega)⟩
    obtain ⟨n, hn, haddress, hrest⟩ := networdAddress_eq (e := e) (x := x) hlow hhigh
    exact ⟨n, hn, haddress.trans ((and_mask_iff _ _).mpr hzero), hrest⟩

/-- 192.168.1.5 as it lies in memory on a little-endian machine. -/
def example5 : IPv4Address := ⟨afInet, 0, 0x0501A8C0⟩

/-- The network of 192.168.1.5/24 comes out as 0.0.0.5, and the masks of the lengths 0, 1 and
33 leave the range of `int`. -/
theorem network_not_consistent :
    (example5.networdAddress .little 24).map (Option.map (address .little)) = .ok (some 5) ∧
      subnetMask .little 0 = .error .shiftTooFar ∧
      subnetMask .little 1 = .error .signedOverflow ∧
      subnetMask .little 33 = .error .shiftTooFar ∧
      ¬ ∀ (x : IPv4Address) (p : UInt32), Consistent .little x p := by
  refine ⟨by decide, by decide, by decide, by decide, ?_⟩
  intro hall
  obtain ⟨n, hn, haddress, -⟩ := (hall example5 24).network (by decide)
  have hfive : (example5.networdAddress .little 24).map (Option.map (address .little)) =
      .ok (some 5) := by decide
  rw [hn] at hfive
  have hkept : n.address .little = 5 := Option.some.inj (Except.ok.inj hfive)
  rw [hkept] at haddress
  exact absurd haddress (by decide)

end IPv4Address
end CoroutineRpc.Address
