import CoroutineRpc.Address.Subnet6
import CoroutineRpc.Library.Ipv6Text

/-! The text of an IPv6 address. One pass over the groups leaves out the first run of zeros, which
is closed at the next other group or behind the loop. -/
namespace CoroutineRpc.Address
open Text Ipv6Text Separated

/-- A stream with the default format, in which the base can be changed. -/
structure Ostream where
  text : ByteString
  hex : Bool := false
  deriving DecidableEq, Repr

namespace Ostream

def put (os : Ostream) (s : ByteString) : Ostream := { os with text := os.text ++ s }

def setHex (os : Ostream) : Ostream := { os with hex := true }

def setDec (os : Ostream) : Ostream := { os with hex := false }

def putNat (os : Ostream) (n : Nat) : Ostream := os.put (if os.hex then hexText n else natText n)

end Ostream

/-- The locals of `insert`. -/
structure Insertion where
  os : Ostream
  usedZeros : Bool
  deriving DecidableEq, Repr

namespace IPv6Address

/-- `addr[i]`: two bytes read as a number of this machine. -/
def addr (e : Endian) (x : IPv6Address) (i : Nat) : BitVec 16 :=
  match e with
  | .little => x.byte (2 * i + 1) ++ x.byte (2 * i)
  | .big => x.byte (2 * i) ++ x.byte (2 * i + 1)

def getPort (e : Endian) (x : IPv6Address) : BitVec 16 := byteswapOnLittleEndian16 e x.sin6Port

/-- One turn of the loop. -/
def insertGroup (e : Endian) (x : IPv6Address) (st : Insertion) (i : Nat) : Insertion :=
  if x.addr e i = 0 ∧ st.usedZeros = false then st
  else
    let st : Insertion :=
      if i ≠ 0 ∧ x.addr e (i - 1) = 0 ∧ st.usedZeros = false then
        ⟨st.os.put (ascii ":"), true⟩
      else st
    let os := if i ≠ 0 then st.os.put (ascii ":") else st.os
    ⟨(os.setHex.putNat (byteswapOnLittleEndian16 e (x.addr e i)).toNat).setDec, st.usedZeros⟩

def insert (e : Endian) (x : IPv6Address) (os : Ostream) : Ostream :=
  let st := (List.range 8).foldl (x.insertGroup e) ⟨os.put (ascii "["), false⟩
  let os := if st.usedZeros = false ∧ x.addr e 7 = 0 then st.os.put (ascii "::") else st.os
  (os.put (ascii "]:")).putNat (x.getPort e).toNat

/-- A group as it stands in the address, whatever the machine. -/
def group (x : IPv6Address) (i : Nat) : BitVec 16 := x.byte (2 * i) ++ x.byte (2 * i + 1)

def groups (x : IPv6Address) : List Nat := (List.range 8).map (fun i => (x.group i).toNat)

/-- The sixteen bytes that `inet_pton` writes. -/
def groupBytes (gs : List Nat) : ByteString :=
  gs.flatMap (fun g => [UInt8.ofNat (g / 256), UInt8.ofNat (g % 256)])

/-- `IPv6Address::Create` of a C string. -/
def create (e : Endian) (address : ByteString) (port : BitVec 16) : Option IPv6Address :=
  (parse address).map (fun gs =>
    { sin6Family := afInet6, sin6Port := byteswapOnLittleEndian16 e port,
      s6Addr := (CBuffer.zeroed 16).fill (groupBytes gs) })

variable (e : Endian) (x : IPv6Address)

private theorem byteswap_addr (i : Nat) : byteswapOnLittleEndian16 e (x.addr e i) = x.group i := by
  cases e with
  | little => exact bswap16_append _ _
  | big => rfl

private theorem addr_eq_zero (i : Nat) : x.addr e i = 0 ↔ (x.group i).toNat = 0 := by
  rw [← byteswap_addr e, ← byteswap16_eq_zero e, ← BitVec.toNat_inj]
  rfl

/-- The groups in front of one. -/
def before (x : IPv6Address) (k : Nat) : List Nat :=
  (List.range k).map (fun i => (x.group i).toNat)

private theorem before_succ (k : Nat) : x.before (k + 1) = x.before k ++ [(x.group k).toNat] := by
  rw [before, List.range_succ, List.map_append]
  rfl

private theorem getLast_before {k : Nat} (hk : k ≠ 0) :
    (x.before k).getLast? = some (x.group (k - 1)).toNat := by
  obtain ⟨j, rfl⟩ := Nat.exists_eq_succ_of_ne_zero hk
  rw [Nat.succ_eq_add_one, before_succ, List.getLast?_concat, Nat.add_sub_cancel]

theorem ascii_colon : ascii ":" = [colon] := rfl

private theorem ascii_double : ascii "::" = [colon, colon] := rfl

/-- A group in base 16 leaves the stream in base 10. -/
theorem putHex_setDec (s : ByteString) (n : Nat) :
    ((Ostream.mk s false).setHex.putNat n).setDec = ⟨s ++ hexText n, false⟩ := rfl

/-- What the pass has written behind the first `k` groups of the address. -/
structure Written (x : IPv6Address) (front : ByteString) (k : Nat) (st : Insertion) : Prop where
  printed : ∃ t, st.os = ⟨front ++ t, false⟩ ∧ Printed (x.before k) st.usedZeros t

variable {x}

private theorem insertGroup_written {front : ByteString} {k : Nat} {st : Insertion}
    (h : Written x front k st) : Written x front (k + 1) (x.insertGroup e st k) := by
  obtain ⟨os, used⟩ := st
  obtain ⟨t, hos, hprinted⟩ := h.printed
  dsimp only at hos hprinted
  subst hos
  by_cases hskip : x.addr e k = 0 ∧ used = false
  · obtain ⟨hzero, rfl⟩ := hskip
    rw [insertGroup, if_pos ⟨hzero, rfl⟩]
    refine ⟨t, rfl, ?_⟩
    rw [before_succ, (x.addr_eq_zero e k).mp hzero]
    exact hprinted.skip
  · have hother : used = false → (x.group k).toNat ≠ 0 := fun hopen hzero =>
      hskip ⟨(x.addr_eq_zero e k).mpr hzero, hopen⟩
    rw [insertGroup, if_neg hskip, byteswap_addr]
    by_cases hk : k = 0
    · subst hk
      obtain ⟨rfl, rfl⟩ := hprinted.of_nil rfl
      refine ⟨hexText (x.group 0).toNat, ?_, Printed.first (hother rfl)⟩
      simp [putHex_setDec]
    · have hlast := x.getLast_before hk
      have hne : x.before k ≠ [] := by
        intro hnil
        rw [hnil] at hlast
        cases hlast
      by_cases hclose : x.addr e (k - 1) = 0 ∧ used = false
      · obtain ⟨hzero, rfl⟩ := hclose
        rw [(x.addr_eq_zero e (k - 1)).mp hzero] at hlast
        rw [if_pos ⟨hk, hzero, rfl⟩]
        refine ⟨t ++ colon :: colon :: hexText (x.group k).toNat, ?_, ?_⟩
        · simp [hk, Ostream.put, putHex_setDec, ascii_colon]
        · rw [before_succ]
          exact hprinted.close hlast (x.group k).toNat
      · rw [if_neg (fun hall => hclose hall.2)]
        refine ⟨t ++ colon :: hexText (x.group k).toNat, ?_, ?_⟩
        · simp [hk, Ostream.put, putHex_setDec, ascii_colon]
        · rw [before_succ]
          refine hprinted.next hne (fun hopen => ⟨fun hzero => hclose ⟨?_, hopen⟩, hother hopen⟩)
          exact (x.addr_eq_zero e (k - 1)).mpr (Option.some.inj (hlast.symm.trans hzero))

private theorem loop_written (os : Ostream) (hdec : os.hex = false) (k : Nat) :
    Written x (os.put (ascii "[")).text k
      ((List.range k).foldl (x.insertGroup e) ⟨os.put (ascii "["), false⟩) := by
  induction k with
  | zero =>
    refine ⟨[], ?_, Printed.pending [] 0 List.not_mem_nil⟩
    simp [Ostream.put, hdec]
  | succ k ih =>
    rw [List.range_succ, List.foldl_append]
    exact insertGroup_written e ih

private theorem groups_lt : ∀ g ∈ x.groups, g < 2 ^ 16 := by
  intro g hg
  obtain ⟨i, -, rfl⟩ := List.mem_map.mp hg
  exact (x.group i).isLt

/-- What stands between the brackets reads as the groups of the address. -/
theorem insert_reads (os : Ostream) (hdec : os.hex = false) :
    ∃ text, Reads text x.groups ∧ x.insert e os =
      ⟨os.text ++ ascii "[" ++ text ++ ascii "]:" ++ natText (x.getPort e).toNat, false⟩ := by
  obtain ⟨t, hos, hprinted⟩ := (loop_written e (x := x) os hdec 8).printed
  have hreads := hprinted.reads groups_lt (by rw [before, List.length_map, List.length_range])
  rw [getLast_before (x := x) (k := 8) (by decide)] at hreads
  refine ⟨_, hreads, ?_⟩
  rw [insert]
  generalize (List.range 8).foldl (x.insertGroup e) ⟨os.put (ascii "["), false⟩ = st at hos ⊢
  have hopen : (st.usedZeros = false ∧ x.addr e 7 = 0) ↔
      (st.usedZeros = false ∧ some (x.group (8 - 1)).toNat = some 0) := by
    rw [addr_eq_zero, Option.some_inj]
  rw [if_congr hopen rfl rfl, hos]
  split
  · simp [Ostream.put, Ostream.putNat, ascii_double]
  · simp [Ostream.put, Ostream.putNat]

private theorem flatMap_pairs {α : Type} (d : α) (n : Nat) (l : List α) (h : l.length = 2 * n) :
    (List.range n).flatMap (fun i => [l[2 * i]?.getD d, l[2 * i + 1]?.getD d]) = l := by
  induction n generalizing l with
  | zero => exact (List.eq_nil_of_length_eq_zero h).symm
  | succ n ih =>
    match l, h with
    | a :: b :: rest, h =>
      have hrest : rest.length = 2 * n := by
        simp only [List.length_cons] at h
        omega
      conv_rhs => rw [← ih rest hrest]
      rw [List.range_succ_eq_map, List.flatMap_cons, List.flatMap_map]
      rfl

private theorem group_toNat (x : IPv6Address) (i : Nat) :
    (x.group i).toNat = 256 * (x.s6Addr.get (2 * i)).toNat + (x.s6Addr.get (2 * i + 1)).toNat := by
  have hlow := (x.byte (2 * i + 1)).isLt
  rw [group, BitVec.toNat_append, ← Nat.shiftLeft_add_eq_or_of_lt hlow, Nat.shiftLeft_eq,
    Nat.mul_comm]
  rfl

private theorem group_bytes (i : Nat) :
    UInt8.ofNat ((x.group i).toNat / 256) = x.s6Addr.get (2 * i) ∧
    UInt8.ofNat ((x.group i).toNat % 256) = x.s6Addr.get (2 * i + 1) := by
  have hlow := (x.s6Addr.get (2 * i + 1)).toNat_lt
  have hhigh : (x.group i).toNat / 256 = (x.s6Addr.get (2 * i)).toNat := by
    rw [group_toNat]
    omega
  have hrest : (x.group i).toNat % 256 = (x.s6Addr.get (2 * i + 1)).toNat := by
    rw [group_toNat]
    omega
  rw [hhigh, hrest, UInt8.ofNat_toNat, UInt8.ofNat_toNat]
  exact ⟨rfl, rfl⟩

private theorem groupBytes_groups : groupBytes x.groups = x.s6Addr.bytes := by
  rw [groupBytes, groups, List.flatMap_map]
  conv_rhs => rw [← flatMap_pairs 0 8 x.s6Addr.bytes x.s6Addr.length_eq]
  congr 1
  funext i
  rw [(group_bytes i).1, (group_bytes i).2]
  rfl

theorem create_parsed {text : ByteString} (h : parse text = some x.groups) :
    create e text (x.getPort e) = some { x with sin6Family := afInet6 } := by
  have hlen : x.s6Addr.bytes.length = 16 := x.s6Addr.length_eq
  have hfill : (CBuffer.zeroed 16).fill x.s6Addr.bytes = x.s6Addr := by
    apply CBuffer.eq_of_bytes
    rw [CBuffer.fill_bytes _ (Nat.le_of_eq hlen), hlen]
    exact List.append_nil _
  rw [create, h, Option.map_some, groupBytes_groups, hfill, getPort, byteswap16_byteswap16]

/-- An address is written in such a way that its text alone gives it back. -/
theorem inserted_reads_back (e : Endian) (x : IPv6Address) (front : ByteString) :
    ∃ text, x.insert e { text := front } =
        { text := front ++ ascii "[" ++ text ++ ascii "]:" ++ natText (x.getPort e).toNat } ∧
      (∀ b ∈ text, b ∉ ascii "[]") ∧ doubles colon text ≤ 1 ∧ parse text = some x.groups ∧
      create e text (x.getPort e) = some { x with sin6Family := afInet6 } := by
  obtain ⟨text, hreads, htext⟩ := insert_reads e (x := x) { text := front } rfl
  refine ⟨text, htext, fun b hb hbracket => ?_, hreads.compressed, hreads.parsed,
    create_parsed e hreads.parsed⟩
  have hnone : ∀ b ∈ ascii "[]", b ≠ colon ∧ hexValue b = none := by decide +kernel
  obtain ⟨hcolon, hvalue⟩ := hnone b hbracket
  exact (hreads.digits b hb).elim hcolon (fun hdigit => hdigit hvalue)

example : (exampleDb8.insert .little { text := [] }).text = ascii "[2001:db8::]:0" := by
  decide +kernel

end IPv6Address
end CoroutineRpc.Address
