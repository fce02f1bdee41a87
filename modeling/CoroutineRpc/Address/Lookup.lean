import CoroutineRpc.Library.Text

/-! How `Address::Lookup` takes a host text apart. A pointer into `host.c_str()` is an index
into the text here, and `getaddrinfo` reads both of its arguments as C strings. -/
namespace CoroutineRpc.Address
open Text

def openBracket : UInt8 := 91
def closeBracket : UInt8 := 93

/-- `memchr(host.c_str() + i, c, host.size() - i)`. -/
def memchr (host : ByteString) (i : Nat) (c : UInt8) : Option Nat :=
  ((host.drop i).idxOf? c).map (fun pos => i + pos)

/-- The variables `node` and `service`, the latter NULL or a place in the text. -/
structure Parts where
  node : ByteString := []
  service : Option Nat := none
  deriving DecidableEq, Repr

/-- The first stage: an address in brackets, maybe with a port behind them. -/
def ipv6Service (host : ByteString) : Parts :=
  if host.head? = some openBracket then
    match memchr host 1 closeBracket with
    | none => {}
    | some endipv6 =>
      -- the text is followed by its NUL
      { node := (host.drop 1).take (endipv6 - 1)
        service := if (host ++ [0])[endipv6 + 1]? = some colon then some (endipv6 + 2) else none }
  else {}

/-- The second stage, with the service that the first one has left. -/
def nodeService (host : ByteString) (parts : Parts) : Parts :=
  if parts.node.isEmpty then
    match memchr host 0 colon with
    | none => { parts with service := none }
    | some service =>
      if (memchr host (service + 1) colon).isNone then
        { node := host.take service, service := some (service + 1) }
      else { parts with service := some service }
  else parts

/-- What `getaddrinfo` is given, as it reads it. -/
structure Request where
  node : ByteString
  service : Option ByteString
  deriving DecidableEq, Repr

/-- The bytes up to the first NUL. -/
def cString (bytes : ByteString) : ByteString := bytes.takeWhile (· ≠ 0)

/-- `Address::Lookup` up to its call of `getaddrinfo`. -/
def lookup (host : ByteString) : Request :=
  let parts := nodeService host (ipv6Service host)
  { node := cString (if parts.node.isEmpty then host else parts.node)
    service := parts.service.map (fun i => cString (host.drop i)) }

/-- The text starts with a part in brackets that is not empty, and this follows. -/
def Bracketed (host h rest : ByteString) : Prop :=
  host = openBracket :: h ++ closeBracket :: rest ∧ h ≠ [] ∧ closeBracket ∉ h

def Unbracketed (host : ByteString) : Prop := ∀ h rest, ¬ Bracketed host h rest

/-- A port stands behind the brackets, or behind a name and the only colon. -/
def HasPort (host : ByteString) : Prop :=
  (∃ h p, Bracketed host h (colon :: p)) ∨
    ∃ h p, host = h ++ colon :: p ∧ h ≠ [] ∧ host.head? ≠ some openBracket ∧ host.count colon = 1

/-- Every shape of a host text is split as it is meant. -/
structure Meant (host : ByteString) (r : Request) : Prop where
  bracketedPort : ∀ h p, Bracketed host h (colon :: p) → r = ⟨cString h, some (cString p)⟩
  bracketed : ∀ h, Bracketed host h [] → r = ⟨cString h, none⟩
  port : ∀ h p, host = h ++ colon :: p → h ≠ [] → host.head? ≠ some openBracket →
    host.count colon = 1 → r = ⟨cString h, some (cString p)⟩
  plain : colon ∉ host → (∀ h, ¬ Bracketed host h []) → r = ⟨cString host, none⟩
  bare : Unbracketed host → 2 ≤ host.count colon → r = ⟨cString host, none⟩
  service : r.service.isSome → HasPort host

/-- A text without brackets has one colon at most, and then it starts with neither a bracket nor the
colon; one without a colon has nothing behind its brackets. -/
def Splittable (host : ByteString) : Prop :=
  (Unbracketed host → host.count colon < 2) ∧
    (Unbracketed host → colon ∈ host →
      host.head? ≠ some openBracket ∧ host.head? ≠ some colon) ∧
    ∀ h rest, Bracketed host h rest → colon ∉ host → rest = []

private theorem memchr_none {host : ByteString} {i : Nat} {c : UInt8} (h : c ∉ host.drop i) :
    memchr host i c = none := by
  rw [memchr, List.idxOf?_eq_none_iff.mpr h]
  rfl

/-- The first place from `i` on, `as` bytes further. -/
theorem memchr_some {host as rest : ByteString} {i : Nat} {c : UInt8}
    (hdrop : host.drop i = as ++ c :: rest) (h : c ∉ as) :
    memchr host i c = some (i + as.length) := by
  rw [memchr, hdrop, idxOf?_separator h]
  rfl

/-- The first stage finds the brackets, and a port only directly behind them. -/
theorem ipv6Service_bracketed {host h rest : ByteString} (hb : Bracketed host h rest) :
    ipv6Service host = ⟨h, if rest.head? = some colon then some (h.length + 3) else none⟩ := by
  obtain ⟨rfl, -, hclose⟩ := hb
  have hend : memchr (openBracket :: h ++ closeBracket :: rest) 1 closeBracket =
      some (1 + h.length) := memchr_some rfl hclose
  have hnext : (openBracket :: h ++ closeBracket :: rest ++ [0])[1 + h.length + 1]? =
      (rest ++ [0]).head? := by
    rw [List.head?_eq_getElem?, List.append_assoc]
    rw [List.getElem?_append_right (by simp only [List.length_cons]; omega)]
    have hidx : 1 + h.length + 1 - (openBracket :: h).length = 1 := by
      simp only [List.length_cons]
      omega
    rw [hidx]
    rfl
  have hcolon : (rest ++ [0]).head? = some colon ↔ rest.head? = some colon := by
    cases rest with
    | nil => decide
    | cons b rest => exact Iff.rfl
  have hhead : (openBracket :: h ++ closeBracket :: rest).head? = some openBracket := rfl
  rw [ipv6Service, if_pos hhead, hend]
  dsimp only
  rw [hnext, if_congr hcolon rfl rfl]
  congr 2
  · rw [Nat.add_sub_cancel_left, List.cons_append, List.drop_succ_cons, List.drop_zero,
      List.take_left' rfl]
  · congr 1
    omega

/-- Without brackets the first stage leaves the node empty. -/
theorem ipv6Service_unbracketed {host : ByteString} (hu : Unbracketed host) :
    (ipv6Service host).node = [] := by
  unfold ipv6Service
  split
  · next hhead =>
    split
    · rfl
    · next endipv6 hend =>
      cases host with
      | nil => cases hhead
      | cons b rest =>
        obtain rfl : b = openBracket := Option.some.inj hhead
        obtain ⟨pos, hpos, rfl⟩ := Option.map_eq_some_iff.mp hend
        obtain ⟨as, more, hsplit, has, rfl⟩ := split_of_idxOf? hpos
        have hempty : as = [] := by
          by_contra hne
          refine hu as more ⟨?_, hne, has⟩
          rw [List.cons_append, ← hsplit]
          rfl
        rw [hempty]
        rfl
  · rfl

theorem lookup_bracketed {host h rest : ByteString} (hb : Bracketed host h rest) :
    lookup host = ⟨cString h,
      if rest.head? = some colon then some (cString (rest.drop 1)) else none⟩ := by
  have hfirst := ipv6Service_bracketed hb
  obtain ⟨rfl, hne, -⟩ := hb
  have hnode : h.isEmpty = false := List.isEmpty_eq_false_iff.mpr hne
  have hdrop : (openBracket :: h ++ closeBracket :: rest).drop (h.length + 3) = rest.drop 1 := by
    rw [show h.length + 3 = (openBracket :: h).length + 2 from rfl, List.drop_length_add_append]
    rfl
  simp only [lookup, nodeService, hfirst, hnode, Bool.false_eq_true, if_false]
  split
  · rw [Option.map_some, hdrop]
  · rfl

private theorem nodeService_empty {host : ByteString} {parts : Parts} (h : parts.node = []) :
    nodeService host parts = match memchr host 0 colon with
      | none => {}
      | some service =>
        if (memchr host (service + 1) colon).isNone then
          { node := host.take service, service := some (service + 1) }
        else { service := some service } := by
  obtain ⟨node, service⟩ := parts
  obtain rfl : node = [] := h
  rfl

private theorem lookup_plain {host : ByteString} (hu : Unbracketed host) (hcolon : colon ∉ host) :
    lookup host = ⟨cString host, none⟩ := by
  rw [lookup, nodeService_empty (ipv6Service_unbracketed hu), memchr_none hcolon]
  rfl

theorem lookup_port {host h p : ByteString} (hu : Unbracketed host) (hhost : host = h ++ colon :: p)
    (hh : colon ∉ h) (hp : colon ∉ p) :
    lookup host = ⟨cString (if h.isEmpty then host else h), some (cString p)⟩ := by
  have hfirst : memchr host 0 colon = some (0 + h.length) := memchr_some hhost hh
  have hdrop : host.drop (h.length + 1) = p := by
    rw [hhost, List.drop_length_add_append]
    rfl
  have hsecond : memchr host (h.length + 1) colon = none := memchr_none (hdrop ▸ hp)
  have htake : host.take h.length = h := by rw [hhost, List.take_left' rfl]
  rw [lookup, nodeService_empty (ipv6Service_unbracketed hu), hfirst, Nat.zero_add]
  simp only [hsecond, Option.isNone_none, if_true, htake, Option.map_some, hdrop]

/-- With a second colon the service stays at the first one. -/
theorem lookup_bare {host h p : ByteString} (hu : Unbracketed host) (hhost : host = h ++ colon :: p)
    (hh : colon ∉ h) (hp : colon ∈ p) :
    lookup host = ⟨cString host, some (cString (colon :: p))⟩ := by
  have hfirst : memchr host 0 colon = some (0 + h.length) := memchr_some hhost hh
  have hdrop : host.drop (h.length + 1) = p := by
    rw [hhost, List.drop_length_add_append]
    rfl
  obtain ⟨as, rest, hsplit, has⟩ := List.eq_append_cons_of_mem hp
  have hsecond : memchr host (h.length + 1) colon = some (h.length + 1 + as.length) :=
    memchr_some (hdrop.trans hsplit) has
  have hservice : host.drop h.length = colon :: p := by rw [hhost, List.drop_left' rfl]
  rw [lookup, nodeService_empty (ipv6Service_unbracketed hu), hfirst, Nat.zero_add]
  simp only [hsecond, Option.isNone_some, Bool.false_eq_true, if_false, List.isEmpty_nil, if_true,
    Option.map_some, hservice]

/-- The part in brackets reads shorter than the whole text. -/
theorem cString_bracketed {host h rest : ByteString} (hb : Bracketed host h rest) :
    cString h ≠ cString host := by
  obtain ⟨rfl, -, -⟩ := hb
  intro heq
  have hcons : cString (openBracket :: h ++ closeBracket :: rest) =
      openBracket :: cString (h ++ closeBracket :: rest) := rfl
  have hle : (cString h).length ≤ (cString (h ++ closeBracket :: rest)).length := by
    rw [cString, cString, List.takeWhile_append]
    split
    · next hall => rw [List.length_append, hall]; exact Nat.le_add_right ..
    · exact Nat.le_refl _
  have hlen := congrArg List.length (heq.trans hcons)
  rw [List.length_cons] at hlen
  omega

private theorem bracketed_unique {host h h' rest rest' : ByteString} (hb : Bracketed host h rest)
    (hb' : Bracketed host h' rest') : h = h' ∧ rest = rest' := by
  obtain ⟨hhost, -, hh⟩ := hb
  obtain ⟨hhost', -, hh'⟩ := hb'
  have heq := hhost.symm.trans hhost'
  exact split_at_first hh hh' (List.cons.inj heq).2

/-- A text with two colons splits at the first one. -/
theorem split_of_count {host : ByteString} (h : 2 ≤ host.count colon) :
    ∃ as p, host = as ++ colon :: p ∧ colon ∉ as ∧ colon ∈ p := by
  have hmem : colon ∈ host := List.count_pos_iff.mp (by omega)
  obtain ⟨as, p, rfl, has⟩ := List.eq_append_cons_of_mem hmem
  rw [List.count_append, List.count_eq_zero.mpr has, List.count_cons_self] at h
  exact ⟨as, p, rfl, has, List.count_pos_iff.mp (by omega)⟩

/-- The only colon stands in neither part. -/
theorem parts_of_count {h p : ByteString} (hcount : (h ++ colon :: p).count colon = 1) :
    colon ∉ h ∧ colon ∉ p := by
  rw [List.count_append, List.count_cons_self] at hcount
  constructor
  · exact List.count_eq_zero.mp (by omega)
  · exact List.count_eq_zero.mp (by omega)

theorem unbracketed_of_head {host : ByteString} (h : host.head? ≠ some openBracket) :
    Unbracketed host := by
  rintro as rest ⟨rfl, -, -⟩
  exact h rfl

/-- A name in front of the colon does not start with it. -/
private theorem head_of_hasPort {host : ByteString} (hu : Unbracketed host) (h : HasPort host) :
    host.head? ≠ some openBracket ∧ host.head? ≠ some colon := by
  rcases h with ⟨as, p, hb⟩ | ⟨as, p, hhost, hne, hhead, hcount⟩
  · exact absurd hb (hu as (colon :: p))
  · refine ⟨hhead, ?_⟩
    rw [hhost] at hcount ⊢
    cases as with
    | nil => exact absurd rfl hne
    | cons b as =>
      rintro hb
      obtain rfl : b = colon := Option.some.inj hb
      exact (parts_of_count hcount).1 List.mem_cons_self

private theorem splittable_of_meant {host : ByteString} (h : Meant host (lookup host)) :
    Splittable host := by
  have hone : Unbracketed host → host.count colon < 2 := by
    intro hu
    by_contra hcount
    have htwo : 2 ≤ host.count colon := Nat.not_lt.mp hcount
    obtain ⟨as, p, hhost, has, hp⟩ := split_of_count htwo
    have hbare := h.bare hu htwo
    rw [lookup_bare hu hhost has hp] at hbare
    cases congrArg Request.service hbare
  refine ⟨hone, ?_, ?_⟩
  · intro hu hcolon
    have hlt := hone hu
    have hpos := List.count_pos_iff.mpr hcolon
    obtain ⟨as, p, hhost, -⟩ := List.eq_append_cons_of_mem hcolon
    have hcount : (as ++ colon :: p).count colon = 1 := by
      rw [← hhost]
      omega
    obtain ⟨has, hp⟩ := parts_of_count hcount
    apply head_of_hasPort hu
    apply h.service
    rw [lookup_port hu hhost has hp]
    rfl
  · intro as rest hb hcolon
    by_contra hrest
    have hplain := h.plain hcolon (fun h' hb' => hrest (bracketed_unique hb hb').2)
    rw [lookup_bracketed hb] at hplain
    exact cString_bracketed hb (congrArg Request.node hplain)

private theorem meant_of_splittable {host : ByteString} (h : Splittable host) :
    Meant host (lookup host) where
  bracketedPort := fun as p hb => lookup_bracketed hb
  bracketed := fun as hb => lookup_bracketed hb
  port := by
    intro as p hhost hne hhead hcount
    have hparts := hcount
    rw [hhost] at hparts
    obtain ⟨has, hp⟩ := parts_of_count hparts
    rw [lookup_port (unbracketed_of_head hhead) hhost has hp, List.isEmpty_eq_false_iff.mpr hne]
    rfl
  plain := by
    intro hcolon hb
    refine lookup_plain ?_ hcolon
    intro as rest hb'
    have hrest := h.2.2 as rest hb' hcolon
    exact hb as (hrest ▸ hb')
  bare := fun hu hcount => absurd (h.1 hu) (by omega)
  service := by
    intro hservice
    by_cases hu : Unbracketed host
    · have hlt := h.1 hu
      have hcolon : colon ∈ host := by
        by_contra hnone
        rw [lookup_plain hu hnone] at hservice
        cases hservice
      obtain ⟨hhead, hfirst⟩ := h.2.1 hu hcolon
      obtain ⟨as, p, hhost, has⟩ := List.eq_append_cons_of_mem hcolon
      have hpos := List.count_pos_iff.mpr hcolon
      refine Or.inr ⟨as, p, hhost, ?_, hhead, by omega⟩
      rintro rfl
      rw [hhost] at hfirst
      exact hfirst rfl
    · obtain ⟨as, rest, hb⟩ : ∃ as rest, Bracketed host as rest := by
        simpa only [Unbracketed, not_forall, not_not] using hu
      rw [lookup_bracketed hb] at hservice
      cases rest with
      | nil => cases hservice
      | cons b p =>
        by_cases hb' : b = colon
        · subst hb'
          exact Or.inl ⟨as, p, hb⟩
        · have hhead : (b :: p).head? ≠ some colon := fun heq => hb' (Option.some.inj heq)
          dsimp only at hservice
          rw [if_neg hhead] at hservice
          cases hservice

/-- A host text is split as it is meant exactly when it is splittable. -/
theorem lookup_meant_iff (host : ByteString) : Meant host (lookup host) ↔ Splittable host :=
  ⟨splittable_of_meant, meant_of_splittable⟩

/-- A bare IPv6 address is looked up with everything from its first colon on as the service, what
stands behind closed brackets is dropped, and a colon without a name in front passes a service. -/
theorem bare_address_not_meant :
    lookup (ascii "fe80::1") = ⟨ascii "fe80::1", some (ascii "::1")⟩ ∧
      lookup (ascii "[abc]x") = ⟨ascii "abc", none⟩ ∧
      lookup (ascii ":80") = ⟨ascii ":80", some (ascii "80")⟩ ∧
      ¬ ∀ host, Meant host (lookup host) := by
  refine ⟨by decide, by decide, by decide, ?_⟩
  intro hall
  have hu : Unbracketed (ascii "fe80::1") := unbracketed_of_head (by decide)
  exact absurd ((splittable_of_meant (hall (ascii "fe80::1"))).1 hu) (by decide)

end CoroutineRpc.Address
