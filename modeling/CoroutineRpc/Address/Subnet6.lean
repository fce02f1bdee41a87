import CoroutineRpc.Address.Subnet

/-! Networks, broadcast addresses and netmasks of IPv6 addresses. The prefix ends inside one
byte, which is treated apart from the bytes before and behind it. -/
namespace CoroutineRpc.Address

/-- A `sockaddr_in6`: the port and the address are in network order. -/
structure IPv6Address where
  sin6Family : UInt16
  sin6Port : BitVec 16
  s6Addr : CBuffer 16
  deriving DecidableEq, Repr

def afInet6 : UInt16 := 10

/-- An access to `s6_addr`. -/
def checked {α : Type} : Except OutOfBounds α → Except Fault α := Except.mapError .outOfBounds

namespace IPv6Address

def broadcastAddress (x : IPv6Address) (prefixLen : UInt32) : Except Fault IPv6Address := do
  let i := (prefixLen / 8).toNat
  let mask ← createMask 8 (prefixLen % 8)
  let b ← checked (x.s6Addr.read i)
  let s6Addr ← checked (x.s6Addr.write i (b ||| .ofBitVec mask))
  let s6Addr ← checked (s6Addr.writeFrom (i + 1) 0xff (16 - (i + 1)))
  pure { x with s6Addr := s6Addr }

def networdAddress (x : IPv6Address) (prefixLen : UInt32) : Except Fault IPv6Address := do
  let i := (prefixLen / 8).toNat
  let mask ← createMask 8 (prefixLen % 8)
  let b ← checked (x.s6Addr.read i)
  let s6Addr ← checked (x.s6Addr.write i (b &&& .ofBitVec mask))
  let s6Addr ← checked (s6Addr.writeFrom (i + 1) 0 (16 - (i + 1)))
  pure { x with s6Addr := s6Addr }

def subnetMask (prefixLen : UInt32) : Except Fault IPv6Address := do
  let i := (prefixLen / 8).toNat
  let mask ← createMask 8 (prefixLen % 8)
  let s6Addr ← checked ((CBuffer.zeroed 16).write i (~~~.ofBitVec mask))
  let s6Addr ← checked (s6Addr.writeFrom 0 0xff i)
  pure { sin6Family := afInet6, sin6Port := 0, s6Addr := s6Addr }

def byte (x : IPv6Address) (j : Nat) : BitVec 8 := (x.s6Addr.get j).toBitVec

/-- The bits of the address from the front. -/
def bit (x : IPv6Address) (i : Nat) : Bool := (x.byte (i / 8)).getMsbD (i % 8)

/-- The three operations as a prefix of this length means them. -/
structure Consistent (x : IPv6Address) (p : UInt32) : Prop where
  mask : ∃ m, subnetMask p = .ok m ∧ (∀ i < 128, m.bit i = decide (i < p.toNat)) ∧
    (∃ n, x.networdAddress p = .ok n ∧
      (∀ i < 128, n.bit i = (x.bit i && decide (i < p.toNat))) ∧
      ∀ j < 16, n.byte j = x.byte j &&& m.byte j) ∧
    ∃ b, x.broadcastAddress p = .ok b ∧
      (∀ i < 128, b.bit i = (x.bit i || !decide (i < p.toNat))) ∧
      ∀ j < 16, b.byte j = x.byte j ||| ~~~m.byte j

end IPv6Address

/-- The part of a mask that lies in byte `j`. -/
def maskByte (p j : Nat) : BitVec 8 := netmask 8 (p - 8 * j)

theorem maskByte_bit (p i : Nat) : (maskByte p (i / 8)).getMsbD (i % 8) = decide (i < p) := by
  rw [maskByte, netmask_getMsbD (by omega)]
  congr 1
  apply propext
  omega

private theorem maskByte_before {p j : Nat} (h : j < p / 8) : maskByte p j = BitVec.allOnes 8 := by
  apply BitVec.eq_of_getLsbD_eq
  intro i hi
  rw [maskByte, netmask_getLsbD hi, BitVec.getLsbD_allOnes, decide_eq_true hi]
  exact decide_eq_true (by omega)

private theorem maskByte_behind {p j : Nat} (h : p / 8 < j) : maskByte p j = 0#8 := by
  apply BitVec.eq_of_getLsbD_eq
  intro i hi
  rw [maskByte, netmask_getLsbD hi, BitVec.getLsbD_zero]
  exact decide_eq_false (by omega)

private theorem createMask8 (p : UInt32) :
    createMask 8 (p % 8) = .ok (~~~maskByte p.toNat (p.toNat / 8)) := by
  have hbits : (p % 8).toNat = p.toNat - 8 * (p.toNat / 8) := by
    rw [UInt32.toNat_mod]
    change p.toNat % 8 = _
    omega
  rw [createMask_eq (by omega) (by decide), if_neg (by omega), if_neg (by omega), hbits]
  rfl

private theorem checked_ok {α : Type} (a : α) : checked (.ok a) = .ok a := rfl

/-- The byte in which the prefix ends, and then the ones behind it. -/
theorem fill_ok (buf : CBuffer 16) {k : Nat} (h : k < 16) (b c : UInt8) :
    ∃ buf₁ buf₂, buf.write k b = .ok buf₁ ∧ buf₁.writeFrom (k + 1) c (16 - (k + 1)) = .ok buf₂ ∧
      ∀ j < 16, buf₂.get j = if j < k then buf.get j else if j = k then b else c := by
  obtain ⟨buf₁, hbuf₁, hbyte⟩ := buf.write_ok b h
  obtain ⟨buf₂, hbuf₂, hbytes⟩ := buf₁.writeFrom_ok (k + 1) (16 - (k + 1)) c (by omega)
  refine ⟨buf₁, buf₂, hbuf₁, hbuf₂, fun j hj => ?_⟩
  rw [hbytes, hbyte]
  rcases Nat.lt_trichotomy j k with hlt | rfl | hgt
  · rw [if_neg (by omega), if_neg (by omega), if_pos hlt]
  · rw [if_neg (by omega), if_pos rfl, if_neg (by omega), if_pos rfl]
  · rw [if_pos (by omega), if_neg (by omega), if_neg (by omega)]

namespace IPv6Address
variable (x : IPv6Address) {p : UInt32}

private theorem index_eq : (p / 8).toNat = p.toNat / 8 := UInt32.toNat_div p 8

theorem subnetMask_eq (h : p.toNat < 128) :
    ∃ m, subnetMask p = .ok m ∧ ∀ j < 16, m.byte j = maskByte p.toNat j := by
  have hk : p.toNat / 8 < 16 := by omega
  obtain ⟨buf₁, hbuf₁, hbyte⟩ := (CBuffer.zeroed 16).write_ok
    (~~~.ofBitVec (~~~maskByte p.toNat (p.toNat / 8))) hk
  obtain ⟨buf₂, hbuf₂, hbytes⟩ := buf₁.writeFrom_ok 0 (p.toNat / 8) 0xff (by omega)
  refine ⟨⟨afInet6, 0, buf₂⟩, ?_, fun j hj => ?_⟩
  · simp only [subnetMask, createMask8, index_eq, bind, Except.bind, hbuf₁, hbuf₂, checked_ok]
    rfl
  · rw [byte, hbytes, hbyte]
    rcases Nat.lt_trichotomy j (p.toNat / 8) with hlt | rfl | hgt
    · rw [if_pos (by omega), maskByte_before hlt]
      rfl
    · rw [if_neg (by omega), if_pos rfl, UInt8.toBitVec_not, BitVec.not_not]
    · rw [if_neg (by omega), if_neg (by omega), maskByte_behind hgt, CBuffer.zeroed_get]
      rfl

/-- The bits behind the prefix are set, in its last byte and in the ones behind it. -/
theorem broadcastAddress_eq (h : p.toNat < 128) :
    ∃ b, x.broadcastAddress p = .ok b ∧
      ∀ j < 16, b.byte j = x.byte j ||| ~~~maskByte p.toNat j := by
  have hk : p.toNat / 8 < 16 := by omega
  obtain ⟨buf₁, buf₂, hbuf₁, hbuf₂, hbytes⟩ := fill_ok x.s6Addr hk
    (x.s6Addr.get (p.toNat / 8) ||| .ofBitVec (~~~maskByte p.toNat (p.toNat / 8))) 0xff
  refine ⟨{ x with s6Addr := buf₂ }, ?_, fun j hj => ?_⟩
  · simp only [broadcastAddress, createMask8, index_eq, bind, Except.bind, CBuffer.read_get _ hk,
      checked_ok, hbuf₁, hbuf₂]
    rfl
  · rw [byte, hbytes j hj]
    rcases Nat.lt_trichotomy j (p.toNat / 8) with hlt | rfl | hgt
    · rw [if_pos hlt, maskByte_before hlt, BitVec.not_allOnes, BitVec.or_zero]
      rfl
    · rw [if_neg (Nat.lt_irrefl _), if_pos rfl, UInt8.toBitVec_or]
      rfl
    · rw [if_neg (by omega), if_neg (by omega), maskByte_behind hgt, BitVec.not_zero,
        BitVec.or_allOnes]
      rfl

/-- In its last byte the prefix is what is cleared. -/
theorem networdAddress_eq (h : p.toNat < 128) :
    ∃ n, x.networdAddress p = .ok n ∧ ∀ j < 16, n.byte j =
      if j = p.toNat / 8 then x.byte j &&& ~~~maskByte p.toNat j
      else x.byte j &&& maskByte p.toNat j := by
  have hk : p.toNat / 8 < 16 := by omega
  obtain ⟨buf₁, buf₂, hbuf₁, hbuf₂, hbytes⟩ := fill_ok x.s6Addr hk
    (x.s6Addr.get (p.toNat / 8) &&& .ofBitVec (~~~maskByte p.toNat (p.toNat / 8))) 0
  refine ⟨{ x with s6Addr := buf₂ }, ?_, fun j hj => ?_⟩
  · simp only [networdAddress, createMask8, index_eq, bind, Except.bind, CBuffer.read_get _ hk,
      checked_ok, hbuf₁, hbuf₂]
    rfl
  · rw [byte, hbytes j hj]
    rcases Nat.lt_trichotomy j (p.toNat / 8) with hlt | rfl | hgt
    · rw [if_pos hlt, if_neg (by omega), maskByte_before hlt, BitVec.and_allOnes]
      rfl
    · rw [if_neg (Nat.lt_irrefl _), if_pos rfl, if_pos rfl, UInt8.toBitVec_and]
      rfl
    · rw [if_neg (by omega), if_neg (by omega), if_neg (by omega), maskByte_behind hgt,
        BitVec.and_zero]
      rfl

/-- The last length of all is one byte too far. -/
theorem subnetMask_error (h : 128 ≤ p.toNat) : ∃ fault, subnetMask p = .error fault := by
  have hk : 16 ≤ p.toNat / 8 := by omega
  refine ⟨.outOfBounds ⟨p.toNat / 8⟩, ?_⟩
  simp only [subnetMask, createMask8, index_eq, bind, Except.bind, CBuffer.write_error _ _ hk]
  rfl

theorem bit_mask {m : IPv6Address} (h : ∀ j < 16, m.byte j = maskByte p.toNat j) :
    ∀ i < 128, m.bit i = decide (i < p.toNat) := by
  intro i hi
  rw [bit, h (i / 8) (by omega), maskByte_bit]

/-- The operations agree on a prefix exactly if it ends inside the address, in a byte that is
zero. -/
theorem prefix_consistent_iff (x : IPv6Address) (p : UInt32) :
    Consistent x p ↔ p.toNat < 128 ∧ x.byte (p.toNat / 8) = 0 := by
  constructor
  · rintro ⟨m, hm, -, ⟨n, hn, -, hbytes⟩, -⟩
    have hlt : p.toNat < 128 := by
      by_contra hge
      obtain ⟨fault, hfault⟩ := subnetMask_error (p := p) (by omega)
      cases hfault.symm.trans hm
    have hk : p.toNat / 8 < 16 := by omega
    obtain ⟨m', hm', hmask⟩ := subnetMask_eq hlt
    obtain rfl : m = m' := Except.ok.inj (hm.symm.trans hm')
    obtain ⟨n', hn', hbytes'⟩ := x.networdAddress_eq hlt
    obtain rfl : n = n' := Except.ok.inj (hn.symm.trans hn')
    have hbyte := hbytes (p.toNat / 8) hk
    rw [hbytes' _ hk, if_pos rfl, hmask _ hk] at hbyte
    exact ⟨hlt, (and_mask_iff _ _).mp hbyte⟩
  · rintro ⟨hlt, hzero⟩
    obtain ⟨m, hm, hmask⟩ := subnetMask_eq hlt
    obtain ⟨n, hn, hbytes⟩ := x.networdAddress_eq hlt
    obtain ⟨b, hb, hbytes'⟩ := x.broadcastAddress_eq hlt
    have hnet : ∀ j < 16, n.byte j = x.byte j &&& m.byte j := by
      intro j hj
      rw [hbytes j hj, hmask j hj]
      split
      · next heq => rw [heq, (and_mask_iff _ _).mpr hzero]
      · rfl
    have hcast : ∀ j < 16, b.byte j = x.byte j ||| ~~~m.byte j := by
      intro j hj
      rw [hbytes' j hj, hmask j hj]
    have hbit := bit_mask hmask
    refine ⟨m, hm, hbit, ⟨n, hn, ?_, hnet⟩, b, hb, ?_, hcast⟩
    · intro i hi
      rw [← hbit i hi, bit, hnet _ (by omega), BitVec.getMsbD_and]
      rfl
    · intro i hi
      have hpos : i % 8 < 8 := by omega
      rw [← hbit i hi, bit, hcast _ (by omega), BitVec.getMsbD_or, BitVec.getMsbD_not,
        decide_eq_true hpos, Bool.true_and]
      rfl

/-- 2001:db8:: without a port. -/
def exampleDb8 : IPv6Address :=
  ⟨afInet6, 0, (CBuffer.zeroed 16).fill [0x20, 0x01, 0x0d, 0xb8]⟩

/-- The network of 2001:db8::/26 keeps what lies behind the prefix in byte 3, and the length 128
writes behind the address. -/
theorem prefix_not_consistent :
    (exampleDb8.networdAddress 26).map (fun n => n.byte 3) = .ok 0x38#8 ∧
      exampleDb8.networdAddress 128 = .error (.outOfBounds ⟨16⟩) ∧
      exampleDb8.broadcastAddress 128 = .error (.outOfBounds ⟨16⟩) ∧
      subnetMask 128 = .error (.outOfBounds ⟨16⟩) ∧
      ¬ ∀ (x : IPv6Address) (p : UInt32), p.toNat ≤ 128 → Consistent x p := by
  refine ⟨by decide, by decide, by decide, by decide, ?_⟩
  intro hall
  obtain ⟨m, hm, -⟩ := (hall exampleDb8 128 (by decide)).mask
  obtain ⟨fault, hfault⟩ := subnetMask_error (p := 128) (by decide)
  cases hfault.symm.trans hm

end IPv6Address
end CoroutineRpc.Address
