import CoroutineRpc.Address.Insert
import CoroutineRpc.Address.Lookup
import CoroutineRpc.Library.Decimal

/-! Addresses that are printed and looked up again. `Address::Lookup` splits the text of either kind
of address at its port, and `Create` reads what is left as the address. -/
namespace CoroutineRpc.Address
open Text Ipv6Text Separated

/-- The four numbers that `inet_pton` reads. -/
def readQuad (text : ByteString) : Option (List Nat) :=
  ((text.splitOn dot).mapM readOctet).filter (fun ns => ns.length = 4 ∧ ns.all (· < 256))

namespace IPv4Address

def getPort (e : Endian) (x : IPv4Address) : BitVec 16 := byteswapOnLittleEndian16 e x.sinPort

/-- `(addr >> shift) & 0xff`. -/
def octet (addr : BitVec 32) (shift : Nat) : Nat := ((addr >>> shift) &&& 0xff#32).toNat

def insert (e : Endian) (x : IPv4Address) (os : Ostream) : Ostream :=
  let addr := byteswapOnLittleEndian e x.sAddr
  let os := (os.putNat (octet addr 24)).put (ascii ".")
  let os := (os.putNat (octet addr 16)).put (ascii ".")
  let os := (os.putNat (octet addr 8)).put (ascii ".")
  let os := os.putNat (octet addr 0)
  (os.put (ascii ":")).putNat (x.getPort e).toNat

/-- The number whose bytes are these, the first one on top. -/
def quad (ns : List Nat) : BitVec 32 := BitVec.ofNat 32 (ns.foldl (fun n d => 256 * n + d) 0)

/-- `IPv4Address::Create` of a C string: `inet_pton` writes the bytes in their order. -/
def create (e : Endian) (address : ByteString) (port : BitVec 16) : Option IPv4Address :=
  (readQuad address).map (fun ns =>
    { sinFamily := afInet, sinPort := byteswapOnLittleEndian16 e port,
      sAddr := byteswapOnLittleEndian e (quad ns) })

end IPv4Address

/-- What `Lookup` makes of a text is read as the address by `create`, with the port that it finds. -/
def Recovers {α : Type} (create : ByteString → BitVec 16 → Option α) (text : ByteString) (x : α) :
    Prop :=
  ∃ service port, (lookup text).service = some service ∧ stoi service = some port ∧
    0 ≤ port ∧ port < 2 ^ 16 ∧ create (lookup text).node (BitVec.ofInt 16 port) = some x

private theorem octet_read : ∀ n < 256, readOctet (natText n) = some n := by
  decide +kernel

private theorem octets_read {ns : List Nat} (h : ∀ n ∈ ns, n < 256) :
    (ns.map natText).mapM readOctet = some ns := by
  induction ns with
  | nil => rfl
  | cons n ns ih =>
    rw [List.map_cons, List.mapM_cons, octet_read n (h n List.mem_cons_self),
      ih (fun m hm => h m (List.mem_cons_of_mem n hm))]
    rfl

private theorem dot_not_mem_natText (n : Nat) : dot ∉ natText n := by
  intro h
  obtain ⟨d, hd, he⟩ := natText_digits h
  have hall : ∀ d < 10, dot ≠ digit d := by decide
  exact hall d hd he

private theorem natText_ne_nil (n : Nat) : natText n ≠ [] := by
  obtain ⟨ds, htext, hne, -⟩ := natText_read n
  rw [htext, Ne, List.map_eq_nil_iff]
  exact hne

private theorem proper_natText (ns : List Nat) : Proper dot (ns.map natText) := by
  intro t ht
  obtain ⟨n, -, rfl⟩ := List.mem_map.mp ht
  exact ⟨natText_ne_nil n, dot_not_mem_natText n⟩

private theorem readQuad_joined {ns : List Nat} (h : ∀ n ∈ ns, n < 256) (hlen : ns.length = 4) :
    readQuad (joined dot (ns.map natText)) = some ns := by
  have hne : ns.map natText ≠ [] := by
    intro hnil
    rw [List.map_eq_nil_iff.mp hnil] at hlen
    cases hlen
  have hall : ns.all (· < 256) = true := by
    rw [List.all_eq_true]
    intro n hn
    exact decide_eq_true (h n hn)
  rw [readQuad, splitOn_joined hne (proper_natText ns), octets_read h]
  exact Option.filter_eq_some_iff.mpr ⟨rfl, by simp [hlen, hall]⟩

/-- A text without a NUL is read to its end. -/
theorem cString_eq {text : ByteString} (h : (0 : UInt8) ∉ text) : cString text = text := by
  rw [cString, List.takeWhile_eq_self_iff]
  intro b hb
  refine decide_eq_true ?_
  rintro rfl
  exact h hb

private theorem zero_not_mem_natText (n : Nat) : (0 : UInt8) ∉ natText n := by
  intro h
  obtain ⟨d, hd, he⟩ := natText_digits h
  have hall : ∀ d < 10, (0 : UInt8) ≠ digit d := by decide
  exact hall d hd he

/-- A node without brackets, and a port behind it. -/
theorem lookup_node_port {node : ByteString} (hnode : node ≠ []) (hopen : openBracket ∉ node)
    (hcolon : colon ∉ node) (hzero : (0 : UInt8) ∉ node) (port : Nat) :
    lookup (node ++ colon :: natText port) = ⟨node, some (natText port)⟩ := by
  have hhead : (node ++ colon :: natText port).head? ≠ some openBracket := by
    rw [List.head?_append_of_ne_nil _ hnode]
    exact fun hhead => hopen (List.mem_of_mem_head? hhead)
  rw [lookup_port (unbracketed_of_head hhead) rfl hcolon (colon_not_mem_natText port),
    List.isEmpty_eq_false_iff.mpr hnode, if_neg Bool.false_ne_true, cString_eq hzero,
    cString_eq (zero_not_mem_natText port)]

/-- The service is the text of the port. -/
theorem recovers_of_lookup {α : Type} {create : ByteString → BitVec 16 → Option α}
    {text node : ByteString} {x : α} {port : BitVec 16}
    (hlookup : lookup text = ⟨node, some (natText port.toNat)⟩) (h : create node port = some x) :
    Recovers create text x := by
  have hlt := port.isLt
  have hread : stoi (natText port.toNat) = some (port.toNat : Int) := by
    have htext : intText (port.toNat : Int) = natText port.toNat :=
      (intText_eq_natText_iff _ _).mpr rfl
    rw [← htext]
    exact stoi_intText (by omega) (by omega)
  refine ⟨natText port.toNat, port.toNat, ?_, hread, by omega, by omega, ?_⟩
  · rw [hlookup]
  · rw [hlookup, BitVec.ofInt_natCast, BitVec.ofNat_toNat, BitVec.setWidth_eq]
    exact h

namespace IPv4Address

def octets (addr : BitVec 32) : List Nat :=
  [octet addr 24, octet addr 16, octet addr 8, octet addr 0]

private theorem octet_eq (addr : BitVec 32) (shift : Nat) :
    octet addr shift = addr.toNat / 2 ^ shift % 256 := by
  rw [octet, BitVec.toNat_and, BitVec.toNat_ushiftRight, Nat.shiftRight_eq_div_pow]
  exact Nat.and_two_pow_sub_one_eq_mod _ 8

private theorem octets_lt (addr : BitVec 32) : ∀ n ∈ octets addr, n < 256 := by
  have hlt : ∀ shift, octet addr shift < 256 := by
    intro shift
    rw [octet_eq]
    exact Nat.mod_lt _ (by decide)
  intro n hn
  simp only [octets, List.mem_cons, List.not_mem_nil, or_false] at hn
  rcases hn with rfl | rfl | rfl | rfl
  all_goals exact hlt _

private theorem quad_octets (addr : BitVec 32) : quad (octets addr) = addr := by
  have hlt := addr.isLt
  have hvalue : (octets addr).foldl (fun n d => 256 * n + d) 0 = addr.toNat := by
    simp only [octets, List.foldl_cons, List.foldl_nil, octet_eq]
    omega
  rw [quad, hvalue, BitVec.ofNat_toNat, BitVec.setWidth_eq]

variable {e : Endian} {x : IPv4Address}

private theorem insert_text (os : Ostream) (hdec : os.hex = false) : x.insert e os =
    ⟨os.text ++ joined dot ((octets (x.address e)).map natText) ++ colon :: natText (x.getPort e).toNat,
      false⟩ := by
  obtain ⟨text, used⟩ := os
  obtain rfl : used = false := hdec
  have hdot : ascii "." = [dot] := rfl
  simp [insert, Ostream.put, Ostream.putNat, octets, joined, tails, address, hdot,
    IPv6Address.ascii_colon]

private theorem create_quad :
    create e (joined dot ((octets (x.address e)).map natText)) (x.getPort e) =
      some { x with sinFamily := afInet } := by
  rw [create, readQuad_joined (octets_lt _) rfl, Option.map_some, quad_octets, getPort,
    byteswap16_byteswap16, address, byteswap_byteswap]

private theorem not_mem_quad {b : UInt8} (hdot : b ≠ dot) (hdigit : ∀ n, b ∉ natText n)
    (ns : List Nat) : b ∉ joined dot (ns.map natText) := by
  intro h
  rcases mem_joined h with hb | ⟨t, ht, hmem⟩
  · exact hdot hb
  · obtain ⟨n, -, rfl⟩ := List.mem_map.mp ht
    exact hdigit n hmem

/-- The only colon stands in front of the port. -/
theorem lookup_insert : lookup (x.insert e { text := [] }).text =
    ⟨joined dot ((octets (x.address e)).map natText), some (natText (x.getPort e).toNat)⟩ := by
  have hopen : ∀ n, openBracket ∉ natText n := by
    intro n hn
    obtain ⟨d, hd, he⟩ := natText_digits hn
    have hall : ∀ d < 10, openBracket ≠ digit d := by decide
    exact hall d hd he
  have hnode : joined dot ((octets (x.address e)).map natText) ≠ [] := by
    intro hnil
    exact natText_ne_nil _ (List.append_eq_nil_iff.mp hnil).1
  rw [insert_text _ rfl]
  exact lookup_node_port hnode (not_mem_quad (by decide) hopen _)
    (not_mem_quad (by decide) colon_not_mem_natText _)
    (not_mem_quad (by decide) zero_not_mem_natText _) _

end IPv4Address

namespace IPv6Address
variable {e : Endian} {x : IPv6Address}

/-- The port stands behind the brackets. -/
theorem lookup_insert : ∃ node, parse node = some x.groups ∧ dot ∉ node ∧
    lookup (x.insert e { text := [] }).text = ⟨node, some (natText (x.getPort e).toNat)⟩ := by
  obtain ⟨node, hreads, htext⟩ := insert_reads e (x := x) { text := [] } rfl
  have hparsed := hreads.parsed
  have hnone : ∀ b, b ≠ colon → hexValue b = none → b ∉ node :=
    fun b hcolon hvalue hb => (hreads.digits b hb).elim hcolon (fun hdigit => hdigit hvalue)
  have hnode : node ≠ [] := by
    rintro rfl
    cases hparsed
  have hbracketed : Bracketed (x.insert e { text := [] }).text node
      (colon :: natText (x.getPort e).toNat) := by
    refine ⟨?_, hnode, hnone closeBracket (by decide) (by decide)⟩
    have hopen : ascii "[" = [openBracket] := rfl
    have hclose : ascii "]:" = [closeBracket, colon] := rfl
    simp [htext, hopen, hclose]
  refine ⟨node, hparsed, hnone dot (by decide) (by decide), ?_⟩
  rw [lookup_bracketed hbracketed, cString_eq (hnone 0 (by decide) (by decide)), List.head?_cons,
    if_pos rfl]
  exact congrArg (fun service => Request.mk node (some service))
    (cString_eq (zero_not_mem_natText _))

end IPv6Address

/-- An address of either kind is found again in what is printed of it, and no text stands for an
address of both kinds. -/
theorem printed_recovered (e : Endian) (x : IPv4Address) (y : IPv6Address) :
    Recovers (IPv4Address.create e) (x.insert e { text := [] }).text
        { x with sinFamily := afInet } ∧
      Recovers (IPv6Address.create e) (y.insert e { text := [] }).text
        { y with sin6Family := afInet6 } ∧
      (x.insert e { text := [] }).text ≠ (y.insert e { text := [] }).text := by
  obtain ⟨node, hparsed, hdot, hlookup⟩ := IPv6Address.lookup_insert (e := e) (x := y)
  refine ⟨recovers_of_lookup IPv4Address.lookup_insert IPv4Address.create_quad,
    recovers_of_lookup hlookup (IPv6Address.create_parsed e hparsed), ?_⟩
  intro hsame
  have hnode : joined dot ((IPv4Address.octets (x.address e)).map natText) = node :=
    congrArg Request.node
      (IPv4Address.lookup_insert.symm.trans ((congrArg lookup hsame).trans hlookup))
  rw [← hnode] at hdot
  refine hdot (List.mem_append_right _ (List.mem_append_left _ List.mem_cons_self))

example : (IPv4Address.example5.insert .little { text := [] }).text = ascii "192.168.1.5:0" := by
  decide +kernel

end CoroutineRpc.Address
