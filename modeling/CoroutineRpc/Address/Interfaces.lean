import CoroutineRpc.Address.Subnet6
import CoroutineRpc.Library.Multimap
import CoroutineRpc.Library.PopCount

/-! The addresses of the machine's interfaces. The length of a prefix is the number of ones in
the netmask of its entry. -/
namespace CoroutineRpc.Address
open Text

/-- The pointers of an entry that are read without a check. -/
inductive NullPointer where
  | ifaAddr
  | ifaNetmask
  deriving DecidableEq, Repr

private theorem toNat_pred {w : Nat} {value : BitVec w} (h : value ≠ 0) :
    (value - 1).toNat = value.toNat - 1 := by
  have hpos : 0 < value.toNat := Nat.pos_of_ne_zero (fun hz => h (BitVec.eq_of_toNat_eq hz))
  have hw : w ≠ 0 := by
    rintro rfl
    exact h (BitVec.of_length_zero)
  have hone : (1#w).toNat = 1 := by
    rw [BitVec.toNat_ofNat, Nat.mod_eq_of_lt (Nat.one_lt_two_pow hw)]
  have hsub : (value - 1#w).toNat = value.toNat - (1#w).toNat := by
    apply BitVec.toNat_sub_of_le
    change (1#w).toNat ≤ value.toNat
    omega
  rw [hone] at hsub
  exact hsub

private theorem and_pred_lt {w : Nat} {value : BitVec w} (h : value ≠ 0) :
    (value &&& (value - 1)).toNat < value.toNat := by
  have hpos : 0 < value.toNat := Nat.pos_of_ne_zero (fun hz => h (BitVec.eq_of_toNat_eq hz))
  rw [BitVec.toNat_and, toNat_pred h]
  exact lt_of_le_of_lt Nat.and_le_right (Nat.sub_one_lt_of_lt hpos)

/-- The loop clears the lowest one until there is none. -/
def countBytes {w : Nat} (value : BitVec w) : UInt32 :=
  if value = 0 then 0 else countBytes (value &&& (value - 1)) + 1
termination_by value.toNat
decreasing_by exact and_pred_lt ‹_›

/-- Where `ifa_addr` points, by its `sa_family`; the netmask is of the same family. -/
inductive IfaAddr where
  | null
  | inet (addr : IPv4Address) (netmask : Option IPv4Address)
  | inet6 (addr : IPv6Address) (netmask : Option IPv6Address)
  | other (saFamily : UInt16)
  deriving DecidableEq, Repr

structure Ifaddrs where
  ifaName : ByteString
  ifaAddr : IfaAddr
  deriving DecidableEq, Repr

inductive IPAddress where
  | ipv4 (x : IPv4Address)
  | ipv6 (x : IPv6Address)
  deriving DecidableEq, Repr

def afUnspec : Int := 0

def IfaAddr.saFamily : IfaAddr → Except NullPointer UInt16
  | .null => .error .ifaAddr
  | .inet _ _ => .ok afInet
  | .inet6 _ _ => .ok afInet6
  | .other saFamily => .ok saFamily

def derefNetmask {α : Type} : Option α → Except NullPointer α
  | none => .error .ifaNetmask
  | some netmask => .ok netmask

/-- The bytes of an IPv6 netmask are counted one by one. -/
def countBytes6 (netmask : IPv6Address) : UInt32 :=
  (List.range 16).foldl (fun n i => n + countBytes (netmask.byte i)) 0

/-- The strings of the map are compared byte by byte, as numbers. -/
def key (name : ByteString) : List Nat := name.map (·.toNat)

abbrev Found := IPAddress × UInt32

/-- One turn of the loop over the entries. -/
def insertInterface (family : Int) (result : List (List Nat × Found)) (next : Ifaddrs) :
    Except NullPointer (List (List Nat × Found)) := do
  let saFamily ← next.ifaAddr.saFamily
  if family ≠ afUnspec ∧ family ≠ saFamily.toNat then pure result
  else
    match next.ifaAddr with
    | .inet addr netmask => do
      let netmask ← derefNetmask netmask
      pure (Multimap.insert (key next.ifaName) (.ipv4 addr, countBytes netmask.sAddr) result)
    | .inet6 addr netmask => do
      let netmask ← derefNetmask netmask
      pure (Multimap.insert (key next.ifaName) (.ipv6 addr, countBytes6 netmask) result)
    | _ => pure result

/-- `GetInterfaceAddresses` into a map; `getifaddrs` may fail. -/
def getInterfaceMap (getifaddrs : Option (List Ifaddrs)) (family : Int)
    (result : List (List Nat × Found)) : Except NullPointer (Bool × List (List Nat × Found)) :=
  match getifaddrs with
  | none => pure (false, result)
  | some results => do
    let result ← results.foldlM (insertInterface family) result
    pure (!result.isEmpty, result)

/-- `GetInterfaceAddresses` of one interface. -/
def getInterfaceAddresses (getifaddrs : Option (List Ifaddrs)) (iface : ByteString) (family : Int)
    (result : List Found) : Except NullPointer (Bool × List Found) :=
  if iface = [] ∨ iface = ascii "*" then
    let result := if family = afInet.toNat ∨ family = afUnspec
      then result ++ [(.ipv4 ⟨afInet, 0, 0⟩, 0)] else result
    let result := if family = afInet6.toNat ∨ family = afUnspec
      then result ++ [(.ipv6 ⟨afInet6, 0, .zeroed 16⟩, 0)] else result
    pure (true, result)
  else do
    let (found, results) ← getInterfaceMap getifaddrs family []
    if !found then pure (false, result)
    else
      let result := result ++ (Multimap.equalRange (key iface) results).map (·.2)
      pure (!result.isEmpty, result)

/-- The family asked for may be any. -/
def Asked (family : Int) (saFamily : UInt16) : Prop := family = afUnspec ∨ family = saFamily.toNat

instance (family : Int) (saFamily : UInt16) : Decidable (Asked family saFamily) :=
  inferInstanceAs (Decidable (_ ∨ _))

/-- An entry with a null pointer that is followed. -/
def Ifaddrs.Broken (family : Int) (entry : Ifaddrs) : Prop :=
  match entry.ifaAddr with
  | .null => True
  | .inet _ netmask => Asked family afInet ∧ netmask = none
  | .inet6 _ netmask => Asked family afInet6 ∧ netmask = none
  | .other _ => False

def IPv4Address.maskOnes (netmask : IPv4Address) : Nat := ones 32 netmask.sAddr.toNat

def IPv6Address.maskOnes (netmask : IPv6Address) : Nat :=
  ∑ j ∈ Finset.range 16, ones 8 (netmask.byte j).toNat

/-- An entry of the family is listed with its address and the number of ones in its netmask. -/
def Ifaddrs.listed (family : Int) (entry : Ifaddrs) : Option Found :=
  match entry.ifaAddr with
  | .inet addr (some netmask) =>
    if Asked family afInet then some (.ipv4 addr, .ofNat netmask.maskOnes) else none
  | .inet6 addr (some netmask) =>
    if Asked family afInet6 then some (.ipv6 addr, .ofNat netmask.maskOnes) else none
  | _ => none

/-- The entries of one interface, in the order in which they came. -/
def listing (entries : List Ifaddrs) (iface : ByteString) (family : Int) : List Found :=
  (entries.filter (·.ifaName = iface)).filterMap (Ifaddrs.listed family)

private theorem countBytes_eq {w : Nat} (value : BitVec w) :
    countBytes value = UInt32.ofNat (ones w value.toNat) := by
  induction value using countBytes.induct with
  | case1 =>
    rw [countBytes, if_pos rfl]
    change (0 : UInt32) = UInt32.ofNat (ones w (0#w).toNat)
    rw [BitVec.toNat_zero, ones_zero]
    rfl
  | case2 value hz ih =>
    have hpos : 0 < value.toNat := Nat.pos_of_ne_zero (fun h => hz (BitVec.eq_of_toNat_eq h))
    have hstep : ones w (value &&& (value - 1)).toNat + 1 = ones w value.toNat := by
      rw [BitVec.toNat_and, toNat_pred hz]
      exact ones_and_pred hpos value.isLt
    rw [countBytes, if_neg hz, ih, ← hstep, UInt32.ofNat_add]
    rfl

private theorem countBytes6_eq (netmask : IPv6Address) :
    countBytes6 netmask = UInt32.ofNat netmask.maskOnes := by
  have hloop : ∀ k, (List.range k).foldl (fun n i => n + countBytes (netmask.byte i)) 0 =
      UInt32.ofNat (∑ j ∈ Finset.range k, ones 8 (netmask.byte j).toNat) := by
    intro k
    induction k with
    | zero => rfl
    | succ k ih =>
      rw [List.range_succ, List.foldl_append, ih, Finset.sum_range_succ, UInt32.ofNat_add,
        ← countBytes_eq]
      rfl
  exact hloop 16

private theorem Asked.not_other {family : Int} {saFamily : UInt16} (h : Asked family saFamily) :
    ¬ (family ≠ afUnspec ∧ family ≠ saFamily.toNat) := by
  rintro ⟨hany, hother⟩
  exact h.elim hany hother

/-- An entry of another family is passed over, whatever its netmask. -/
private theorem insertInterface_unasked {family : Int} {entry : Ifaddrs} {saFamily : UInt16}
    (hfamily : entry.ifaAddr.saFamily = .ok saFamily) (h : ¬ Asked family saFamily)
    (result : List (List Nat × Found)) : insertInterface family result entry = .ok result := by
  rw [insertInterface, hfamily]
  exact if_pos (not_or.mp h)

private theorem listed_unasked {family : Int} {entry : Ifaddrs} {saFamily : UInt16}
    (hfamily : entry.ifaAddr.saFamily = .ok saFamily) (h : ¬ Asked family saFamily) :
    entry.listed family = none := by
  obtain ⟨name, addr⟩ := entry
  cases addr with
  | null => rfl
  | inet addr netmask =>
    cases hfamily
    cases netmask with
    | none => rfl
    | some netmask => exact if_neg h
  | inet6 addr netmask =>
    cases hfamily
    cases netmask with
    | none => rfl
    | some netmask => exact if_neg h
  | other _ => rfl

/-- What one turn of the loop does with an entry. -/
theorem insertInterface_ok {family : Int} {entry : Ifaddrs} (h : ¬ entry.Broken family)
    (result : List (List Nat × Found)) : insertInterface family result entry =
      .ok (match entry.listed family with
        | none => result
        | some found => Multimap.insert (key entry.ifaName) found result) := by
  cases hfamily : entry.ifaAddr.saFamily with
  | error fault =>
    obtain ⟨name, addr⟩ := entry
    cases addr with
    | null => exact absurd trivial h
    | inet _ _ => cases hfamily
    | inet6 _ _ => cases hfamily
    | other _ => cases hfamily
  | ok saFamily =>
    by_cases hf : Asked family saFamily
    · obtain ⟨name, addr⟩ := entry
      rw [insertInterface, hfamily]
      apply (if_neg hf.not_other).trans
      cases addr with
      | null => cases hfamily
      | inet addr netmask =>
        cases hfamily
        cases netmask with
        | none => exact absurd ⟨hf, rfl⟩ h
        | some netmask =>
          have hlisted : Ifaddrs.listed family ⟨name, .inet addr (some netmask)⟩ =
              some (.ipv4 addr, .ofNat netmask.maskOnes) := if_pos hf
          rw [hlisted, IPv4Address.maskOnes, ← countBytes_eq]
          rfl
      | inet6 addr netmask =>
        cases hfamily
        cases netmask with
        | none => exact absurd ⟨hf, rfl⟩ h
        | some netmask =>
          have hlisted : Ifaddrs.listed family ⟨name, .inet6 addr (some netmask)⟩ =
              some (.ipv6 addr, .ofNat netmask.maskOnes) := if_pos hf
          rw [hlisted, ← countBytes6_eq]
          rfl
      | other _ => rfl
    · rw [insertInterface_unasked hfamily hf, listed_unasked hfamily hf]

private theorem insertInterface_broken {family : Int} {entry : Ifaddrs} (h : entry.Broken family)
    (result : List (List Nat × Found)) :
    ∃ fault, insertInterface family result entry = .error fault := by
  obtain ⟨name, addr⟩ := entry
  cases addr with
  | null => exact ⟨.ifaAddr, rfl⟩
  | inet addr netmask =>
    obtain ⟨hf, rfl⟩ := h
    exact ⟨.ifaNetmask, if_neg hf.not_other⟩
  | inet6 addr netmask =>
    obtain ⟨hf, rfl⟩ := h
    exact ⟨.ifaNetmask, if_neg hf.not_other⟩
  | other saFamily => exact absurd h id

private theorem key_inj {name name' : ByteString} : key name = key name' ↔ name = name' :=
  (List.map_injective_iff.mpr (fun _ _ h => UInt8.toNat_inj.mp h)).eq_iff

section Loop
variable {family : Int} {entries : List Ifaddrs}

/-- The whole loop: every name gets its entries behind what it had, and no other entry comes in. -/
theorem loop_ok (h : ∀ e ∈ entries, ¬ e.Broken family) {result : List (List Nat × Found)}
    (hordered : Multimap.Ordered result) :
    ∃ result', entries.foldlM (insertInterface family) result = .ok result' ∧
      Multimap.Ordered result' ∧
      (∀ name, Multimap.values (key name) result' =
        Multimap.values (key name) result ++ listing entries name family) ∧
      result'.length = result.length + (entries.filterMap (Ifaddrs.listed family)).length := by
  induction entries generalizing result with
  | nil => exact ⟨result, rfl, hordered, fun _ => (List.append_nil _).symm, rfl⟩
  | cons entry entries ih =>
    have hturn := insertInterface_ok (h entry List.mem_cons_self) result
    have hrest : ∀ e ∈ entries, ¬ e.Broken family := fun e he => h e (List.mem_cons_of_mem _ he)
    rw [List.foldlM_cons, hturn]
    cases hlisted : entry.listed family with
    | none =>
      obtain ⟨result', hloop, hordered', hvalues, hlength⟩ := ih hrest hordered
      refine ⟨result', hloop, hordered', fun name => ?_, ?_⟩
      · rw [hvalues, listing, listing, List.filter_cons]
        split
        · rw [List.filterMap_cons_none hlisted]
        · rfl
      · rw [hlength, List.filterMap_cons_none hlisted]
    | some found =>
      obtain ⟨result', hloop, hordered', hvalues, hlength⟩ :=
        ih hrest (hordered.insert (key entry.ifaName) found)
      refine ⟨result', hloop, hordered', fun name => ?_, ?_⟩
      · rw [hvalues, Multimap.values_insert hordered, List.append_assoc]
        apply congrArg (Multimap.values (key name) result ++ ·)
        by_cases hname : entry.ifaName = name
        · rw [if_pos (key_inj.mpr hname), listing, listing,
            List.filter_cons_of_pos (by simpa using hname), List.filterMap_cons_some hlisted]
          rfl
        · rw [if_neg (fun hkey => hname (key_inj.mp hkey)), listing, listing,
            List.filter_cons_of_neg (by simpa using hname)]
          rfl
      · rw [hlength, Multimap.length_insert, List.filterMap_cons_some hlisted, List.length_cons]
        omega

private theorem loop_broken (h : ∃ e ∈ entries, e.Broken family)
    (result : List (List Nat × Found)) :
    ∃ fault, entries.foldlM (insertInterface family) result = .error fault := by
  induction entries generalizing result with
  | nil =>
    obtain ⟨e, he, -⟩ := h
    cases he
  | cons entry entries ih =>
    rw [List.foldlM_cons]
    by_cases hentry : entry.Broken family
    · obtain ⟨fault, hturn⟩ := insertInterface_broken hentry result
      exact ⟨fault, by rw [hturn]; rfl⟩
    · rw [insertInterface_ok hentry result]
      apply ih
      obtain ⟨e, he, hbroken⟩ := h
      rcases List.mem_cons.mp he with rfl | he
      · exact absurd hbroken hentry
      · exact ⟨e, he, hbroken⟩

/-- The map is empty only when no entry of the family was there. -/
theorem getInterfaceMap_ok (h : ∀ e ∈ entries, ¬ e.Broken family) :
    ∃ found results, getInterfaceMap (some entries) family [] = .ok (found, results) ∧
      (found = true ↔ ∃ e ∈ entries, e.listed family ≠ none) ∧ Multimap.Ordered results ∧
      ∀ name, Multimap.values (key name) results = listing entries name family := by
  obtain ⟨results, hloop, hordered, hvalues, hlength⟩ := loop_ok h Multimap.ordered_nil
  refine ⟨!results.isEmpty, results, ?_, ?_, hordered, hvalues⟩
  · rw [getInterfaceMap, hloop]
    rfl
  · have hempty : results = [] ↔ entries.filterMap (Ifaddrs.listed family) = [] := by
      rw [← List.length_eq_zero_iff, ← List.length_eq_zero_iff, hlength, List.length_nil,
        Nat.zero_add]
    rw [Bool.not_eq_true', ← Bool.not_eq_true, List.isEmpty_iff, hempty,
      List.filterMap_eq_nil_iff, not_forall]
    simp only [not_forall, exists_prop]

private theorem getInterfaceAddresses_eq {iface : ByteString}
    (hname : iface ≠ [] ∧ iface ≠ ascii "*")
    (result : List Found) (h : ∀ e ∈ entries, ¬ e.Broken family) :
    ∃ found, getInterfaceAddresses (some entries) iface family result =
        .ok (found, result ++ listing entries iface family) ∧
      (found = true ↔ (∃ e ∈ entries, e.listed family ≠ none) ∧
        result ++ listing entries iface family ≠ []) := by
  obtain ⟨found, results, hmap, hfound, hordered, hvalues⟩ := getInterfaceMap_ok h
  have hrange := Multimap.equalRange_values hordered (key iface)
  rw [getInterfaceAddresses, if_neg (not_or.mpr hname), hmap]
  cases found with
  | false =>
    have hnone : ∀ e ∈ entries, e.listed family = none := by
      intro e he
      by_contra hsome
      cases hfound.mpr ⟨e, he, hsome⟩
    have hlisting : listing entries iface family = [] :=
      List.filterMap_eq_nil_iff.mpr (fun e he => hnone e (List.mem_of_mem_filter he))
    rw [hlisting, List.append_nil]
    refine ⟨false, rfl, ⟨fun hf => (by cases hf), ?_⟩⟩
    rintro ⟨⟨e, he, hsome⟩, -⟩
    exact absurd (hnone e he) hsome
  | true =>
    refine ⟨!(result ++ listing entries iface family).isEmpty, ?_, ?_⟩
    · rw [← hvalues iface, ← hrange]
      rfl
    · rw [Bool.not_eq_true', ← Bool.not_eq_true, List.isEmpty_iff]
      exact ⟨fun hne => ⟨hfound.mp rfl, hne⟩, fun hne => hne.2⟩

private theorem getInterfaceAddresses_broken {iface : ByteString}
    (hname : iface ≠ [] ∧ iface ≠ ascii "*")
    (result : List Found) (h : ¬ ∀ e ∈ entries, ¬ e.Broken family) :
    ∃ fault, getInterfaceAddresses (some entries) iface family result = .error fault := by
  have hbroken : ∃ e ∈ entries, e.Broken family := by
    by_contra hnone
    exact h (fun e he hb => hnone ⟨e, he, hb⟩)
  obtain ⟨fault, hloop⟩ := loop_broken hbroken []
  refine ⟨fault, ?_⟩
  rw [getInterfaceAddresses, if_neg (not_or.mpr hname), getInterfaceMap, hloop]
  rfl

/-- Of one interface exactly its entries of the family are listed, in their order, and every entry
of the machine must have the pointers that are followed. -/
theorem interfaces_listed {iface : ByteString} (hname : iface ≠ [] ∧ iface ≠ ascii "*")
    (entries : List Ifaddrs) (family : Int) (result : List Found) (answer : Bool × List Found) :
    getInterfaceAddresses (some entries) iface family result = .ok answer ↔
      (∀ e ∈ entries, ¬ e.Broken family) ∧ answer.2 = result ++ listing entries iface family ∧
      (answer.1 = true ↔ (∃ e ∈ entries, e.listed family ≠ none) ∧ answer.2 ≠ []) := by
  by_cases h : ∀ e ∈ entries, ¬ e.Broken family
  · obtain ⟨found, heq, hfound⟩ := getInterfaceAddresses_eq hname result h
    rw [heq]
    constructor
    · intro hok
      cases hok
      exact ⟨h, rfl, hfound⟩
    · rintro ⟨-, hresult, hanswer⟩
      rw [hresult, ← hfound] at hanswer
      exact congrArg Except.ok (Prod.ext (Bool.eq_iff_iff.mpr hanswer.symm) hresult.symm)
  · obtain ⟨fault, herror⟩ := getInterfaceAddresses_broken hname result h
    rw [herror]
    constructor
    · intro hok
      cases hok
    · rintro ⟨hall, -⟩
      exact absurd hall h

end Loop

/-- The loopback interface, and one without an IPv6 netmask. -/
def exampleEntries : List Ifaddrs :=
  [⟨ascii "lo", .inet ⟨afInet, 0, 0x0100007F⟩ (some ⟨afInet, 0, 0x000000FF⟩)⟩,
    ⟨ascii "tun0", .inet6 ⟨afInet6, 0, .zeroed 16⟩ none⟩]

/-- The second entry counts although it is not the one asked for. -/
theorem example_not_listed : ¬ ∃ answer,
    getInterfaceAddresses (some exampleEntries) (ascii "lo") afUnspec [] = .ok answer := by
  rintro ⟨answer, hok⟩
  have hall := ((interfaces_listed (by decide) exampleEntries afUnspec [] answer).mp hok).1
  exact hall _ (List.mem_cons_of_mem _ List.mem_cons_self) ⟨.inl rfl, rfl⟩

section Masks

/-- The bytes change places only. -/
theorem ones_bswap32 (x : BitVec 32) : ones 32 (bswap32 x).toNat = ones 32 x.toNat := by
  let place (i : Nat) : Nat := 24 - i / 8 * 8 + i % 8
  apply Finset.sum_nbij' place place
  · intro i hi
    simp only [place, Finset.mem_range] at hi ⊢
    omega
  · intro i hi
    simp only [place, Finset.mem_range] at hi ⊢
    omega
  · intro i hi
    simp only [place, Finset.mem_range] at hi ⊢
    omega
  · intro i hi
    simp only [place, Finset.mem_range] at hi ⊢
    omega
  · intro i hi
    rw [BitVec.testBit_toNat, BitVec.testBit_toNat, bswap32_getLsbD x (Finset.mem_range.mp hi)]

theorem IPv4Address.maskOnes_eq {e : Endian} {m : IPv4Address} {p : Nat} (hp : p ≤ 32)
    (h : m.address e = netmask 32 p) : m.maskOnes = p := by
  have hones : m.maskOnes = ones 32 (m.address e).toNat := by
    cases e with
    | little => exact (ones_bswap32 m.sAddr).symm
    | big => rfl
  rw [hones, h, ones_netmask, Nat.min_eq_right hp]

private theorem IPv6Address.byte_mask {m : IPv6Address} {p : Nat}
    (h : ∀ i < 128, m.bit i = decide (i < p)) {j : Nat} (hj : j < 16) :
    m.byte j = maskByte p j := by
  apply BitVec.eq_of_getMsbD_eq
  intro k hk
  have hbit := h (8 * j + k) (by omega)
  have hmask := maskByte_bit p (8 * j + k)
  have hdiv : (8 * j + k) / 8 = j := by omega
  have hmod : (8 * j + k) % 8 = k := by omega
  rw [bit, hdiv, hmod] at hbit
  rw [hdiv, hmod] at hmask
  rw [hbit, hmask]

theorem IPv6Address.maskOnes_eq {m : IPv6Address} {p : Nat} (hp : p ≤ 128)
    (h : ∀ i < 128, m.bit i = decide (i < p)) : m.maskOnes = p := by
  have hfront : ∀ k, ∑ j ∈ Finset.range k, ones 8 (maskByte p j).toNat = min p (8 * k) := by
    intro k
    induction k with
    | zero => exact (Nat.min_zero p).symm
    | succ k ih =>
      rw [Finset.sum_range_succ, ih, maskByte, ones_netmask]
      omega
  have hsum : m.maskOnes = ∑ j ∈ Finset.range 16, ones 8 (maskByte p j).toNat := by
    apply Finset.sum_congr rfl
    intro j hj
    rw [byte_mask h (Finset.mem_range.mp hj)]
  rw [hsum, hfront]
  omega

/-- The length that is listed for a mask without holes is the mask's own, and `subnetMask` makes
the mask of it where it can shift that far. -/
def MaskRecovered (e : Endian) (addr : IfaAddr) (found : Found) : Prop :=
  match addr, found with
  | .inet addr (some m), (.ipv4 x, n) => x = addr ∧ ∀ p ≤ 32, m.address e = netmask 32 p →
    n.toNat = p ∧ ((∃ m', IPv4Address.subnetMask e n = .ok (some m') ∧
      m'.address e = m.address e) ↔ 2 ≤ p)
  | .inet6 addr (some m), (.ipv6 x, n) => x = addr ∧ ∀ p ≤ 128,
    (∀ i < 128, m.bit i = decide (i < p)) →
    n.toNat = p ∧ ((∃ m', IPv6Address.subnetMask n = .ok m' ∧ ∀ i < 128, m'.bit i = m.bit i) ↔
      p < 128)
  | _, _ => False

private theorem toNat_ofNat_small {n : Nat} (h : n ≤ 128) : (UInt32.ofNat n).toNat = n :=
  UInt32.toNat_ofNat_of_lt' (Nat.lt_of_le_of_lt h (by decide))

private theorem listed_recovered (e : Endian) {family : Int} {entry : Ifaddrs} {found : Found}
    (h : entry.listed family = some found) : MaskRecovered e entry.ifaAddr found := by
  obtain ⟨name, addr⟩ := entry
  cases addr with
  | null => cases h
  | inet addr netmask =>
    cases netmask with
    | none => cases h
    | some m =>
      obtain ⟨-, hfound⟩ := Option.ite_none_right_eq_some.mp h
      cases hfound
      refine ⟨rfl, fun p hp hmask => ?_⟩
      have hlen : (UInt32.ofNat m.maskOnes).toNat = p := by
        rw [IPv4Address.maskOnes_eq hp hmask, toNat_ofNat_small (by omega)]
      refine ⟨hlen, ?_, fun hlow => ?_⟩
      · rintro ⟨m', hok, -⟩
        by_contra hlow
        obtain ⟨fault, herror⟩ := IPv4Address.subnetMask_error (e := e)
          (p := UInt32.ofNat m.maskOnes) (.inl (by omega))
        rw [herror] at hok
        cases hok
      · obtain ⟨m', hok, hmask'⟩ := IPv4Address.subnetMask_ok (e := e)
          (p := UInt32.ofNat m.maskOnes) (by omega) (by omega)
        rw [hlen] at hmask'
        exact ⟨m', hok, hmask'.trans hmask.symm⟩
  | inet6 addr netmask =>
    cases netmask with
    | none => cases h
    | some m =>
      obtain ⟨-, hfound⟩ := Option.ite_none_right_eq_some.mp h
      cases hfound
      refine ⟨rfl, fun p hp hmask => ?_⟩
      have hlen : (UInt32.ofNat m.maskOnes).toNat = p := by
        rw [IPv6Address.maskOnes_eq hp hmask, toNat_ofNat_small hp]
      refine ⟨hlen, ?_, fun hlow => ?_⟩
      · rintro ⟨m', hok, -⟩
        by_contra hlow
        obtain ⟨fault, herror⟩ := IPv6Address.subnetMask_error
          (p := UInt32.ofNat m.maskOnes) (by omega)
        rw [herror] at hok
        cases hok
      · obtain ⟨m', hok, hbytes⟩ := IPv6Address.subnetMask_eq
          (p := UInt32.ofNat m.maskOnes) (by omega)
        refine ⟨m', hok, fun i hi => ?_⟩
        rw [IPv6Address.bit_mask hbytes i hi, hlen, hmask i hi]
  | other _ => cases h

/-- What is listed of an interface is an address of it, with a length from which its netmask
comes back. -/
theorem interface_masks_recovered {iface : ByteString} (hname : iface ≠ [] ∧ iface ≠ ascii "*")
    {entries : List Ifaddrs} {family : Int} {answer : Bool × List Found}
    (hok : getInterfaceAddresses (some entries) iface family [] = .ok answer) (e : Endian) :
    ∀ found ∈ answer.2, ∃ entry ∈ entries, entry.ifaName = iface ∧
      MaskRecovered e entry.ifaAddr found := by
  by_cases h : ∀ e ∈ entries, ¬ e.Broken family
  · obtain ⟨_, heq, -⟩ := getInterfaceAddresses_eq hname [] h
    rw [heq] at hok
    cases hok
    intro found hfound
    obtain ⟨entry, hentry, hlisted⟩ := List.mem_filterMap.mp hfound
    obtain ⟨hmem, hiface⟩ := List.mem_filter.mp hentry
    exact ⟨entry, hmem, of_decide_eq_true hiface, listed_recovered e hlisted⟩
  · obtain ⟨fault, herror⟩ := getInterfaceAddresses_broken hname [] h
    rw [herror] at hok
    cases hok

theorem example_masks_recovered : ∃ answer,
    getInterfaceAddresses (some exampleEntries) (ascii "lo") afInet.toNat [] = .ok answer ∧
    ∀ found ∈ answer.2, ∃ entry ∈ exampleEntries, entry.ifaName = ascii "lo" ∧
      MaskRecovered .little entry.ifaAddr found := by
  have hsound : ∀ e ∈ exampleEntries, ¬ e.Broken afInet.toNat := by
    intro e he
    rcases List.mem_cons.mp he with rfl | he
    · rintro ⟨-, hnone⟩
      cases hnone
    · rcases List.mem_singleton.mp he with rfl
      rintro ⟨hasked, -⟩
      revert hasked
      decide
  obtain ⟨found, heq, -⟩ := getInterfaceAddresses_eq
    (by decide : ascii "lo" ≠ [] ∧ ascii "lo" ≠ ascii "*") [] hsound
  exact ⟨_, heq, interface_masks_recovered (by decide) heq .little⟩

end Masks

end CoroutineRpc.Address
