import CoroutineRpc.Library.Separated
import CoroutineRpc.Library.Text
import Mathlib.Data.Nat.Digits.Lemmas

/-! IPv6 addresses as text: what RFC 4291 allows and `inet_pton` reads. An address is a list of
eight groups of 16 bits; `::` stands for one or more groups that are zero. -/
namespace CoroutineRpc.Ipv6Text
open Text Separated

/-- A digit as `std::hex` writes it. -/
def hexDigit (d : Nat) : UInt8 := if d < 10 then UInt8.ofNat (48 + d) else UInt8.ofNat (87 + d)

/-- The value of a digit in either case. -/
def hexValue (b : UInt8) : Option Nat :=
  if 48 ≤ b.toNat ∧ b.toNat ≤ 57 then some (b.toNat - 48)
  else if 97 ≤ b.toNat ∧ b.toNat ≤ 102 then some (b.toNat - 87)
  else if 65 ≤ b.toNat ∧ b.toNat ≤ 70 then some (b.toNat - 55)
  else none

def hexText (n : Nat) : ByteString :=
  if n = 0 then [hexDigit 0] else (Nat.digits 16 n).reverse.map hexDigit

def readHex (text : ByteString) : Option Nat :=
  text.foldlM (fun n b => (hexValue b).map (fun d => 16 * n + d)) 0

/-- One to four hexadecimal digits. -/
def readGroup (text : ByteString) : Option Nat :=
  if 1 ≤ text.length ∧ text.length ≤ 4 then readHex text else none

def dot : UInt8 := 46

/-- A number up to 255 without leading zeros. -/
def readOctet (text : ByteString) : Option Nat :=
  if text ≠ [] ∧ text.length ≤ 3 ∧ (text.head? = some 48 → text.length = 1) ∧
      text.all (fun b => decide (48 ≤ b.toNat ∧ b.toNat ≤ 57)) = true then
    some (text.foldl (fun n b => 10 * n + (b.toNat - 48)) 0)
  else none

/-- An IPv4 address stands for the last two groups. -/
def readDotted (text : ByteString) : Option (List Nat) :=
  match (text.splitOn dot).mapM readOctet with
  | some [a, b, c, d] =>
    if a < 256 ∧ b < 256 ∧ c < 256 ∧ d < 256 then some [256 * a + b, 256 * c + d] else none
  | _ => none

/-- Groups between colons; the last piece may be an IPv4 address where nothing follows. -/
def readPieces (dotted : Bool) : List ByteString → Option (List Nat)
  | [] => some []
  | [piece] =>
    match readGroup piece with
    | some g => some [g]
    | none => if dotted then readDotted piece else none
  | piece :: pieces => do
    let g ← readGroup piece
    let gs ← readPieces dotted pieces
    pure (g :: gs)

/-- One side of `::`, which may be empty. -/
def readSide (dotted : Bool) (text : ByteString) : Option (List Nat) :=
  if text = [] then some [] else readPieces dotted (text.splitOn colon)

/-- The eight groups of an address. -/
def parse (text : ByteString) : Option (List Nat) :=
  match splitDouble colon text with
  | none => (readSide true text).filter (fun gs => gs.length = 8)
  | some (before, behind) => do
    let ls ← readSide false before
    let rs ← readSide true behind
    if ls.length + rs.length ≤ 7 then
      pure (ls ++ List.replicate (8 - (ls.length + rs.length)) 0 ++ rs)
    else none

theorem hexValue_hexDigit : ∀ d < 16, hexValue (hexDigit d) = some d := by decide

theorem foldlM_hexDigits {ds : List Nat} (h : ∀ d ∈ ds, d < 16) (n : Nat) :
    (ds.map hexDigit).foldlM (fun n b => (hexValue b).map (fun d => 16 * n + d)) n =
      some (ds.foldl (fun n d => 16 * n + d) n) := by
  induction ds generalizing n with
  | nil => rfl
  | cons d ds ih =>
    rw [List.map_cons, List.foldlM_cons, hexValue_hexDigit d (h d List.mem_cons_self)]
    exact ih (fun d' hd => h d' (List.mem_cons_of_mem _ hd)) (16 * n + d)

/-- The digits that are written, the first one first. -/
theorem hexText_digits (n : Nat) : ∃ ds : List Nat, hexText n = ds.map hexDigit ∧ ds ≠ [] ∧
    (∀ d ∈ ds, d < 16) ∧ ds.foldl (fun n d => 16 * n + d) 0 = n ∧
    (n < 2 ^ 16 → ds.length ≤ 4) := by
  by_cases hn : n = 0
  · subst hn
    exact ⟨[0], rfl, List.cons_ne_nil _ _, by decide, rfl, fun _ => by decide⟩
  · refine ⟨(Nat.digits 16 n).reverse, if_neg hn, ?_, ?_, ?_, ?_⟩
    · rw [Ne, List.reverse_eq_nil_iff, Nat.digits_eq_nil_iff_eq_zero]
      exact hn
    · exact fun d hd => Nat.digits_lt_base (by omega) (List.mem_reverse.mp hd)
    · rw [List.foldl_reverse]
      conv_rhs => rw [← Nat.ofDigits_digits 16 n, Nat.ofDigits_eq_foldr]
      congr 1
      funext d m
      exact Nat.add_comm _ _
    · intro hlt
      rw [List.length_reverse]
      exact (Nat.digits_length_le_iff (by omega) n).mpr hlt

theorem readGroup_hexText {n : Nat} (h : n < 2 ^ 16) : readGroup (hexText n) = some n := by
  obtain ⟨ds, htext, hne, hdigits, hvalue, hlen⟩ := hexText_digits n
  have hpos := List.length_pos_iff.mpr hne
  rw [readGroup, htext, List.length_map, if_pos ⟨hpos, hlen h⟩, readHex,
    foldlM_hexDigits hdigits, hvalue]

/-- Only digits are written. -/
theorem not_mem_hexText {b : UInt8} (h : hexValue b = none) (n : Nat) : b ∉ hexText n := by
  obtain ⟨ds, htext, -, hdigits, -⟩ := hexText_digits n
  intro hmem
  rw [htext] at hmem
  obtain ⟨d, hd, rfl⟩ := List.mem_map.mp hmem
  cases h.symm.trans (hexValue_hexDigit d (hdigits d hd))

theorem hexText_ne_nil (n : Nat) : hexText n ≠ [] := by
  obtain ⟨ds, htext, hne, -⟩ := hexText_digits n
  rw [htext, Ne, List.map_eq_nil_iff]
  exact hne

theorem proper_hexText (gs : List Nat) : Proper colon (gs.map hexText) := by
  intro t ht
  obtain ⟨g, -, rfl⟩ := List.mem_map.mp ht
  exact ⟨hexText_ne_nil g, not_mem_hexText (by decide) g⟩

theorem readPieces_hexText (dotted : Bool) {gs : List Nat} (h : ∀ g ∈ gs, g < 2 ^ 16) :
    readPieces dotted (gs.map hexText) = some gs := by
  induction gs with
  | nil => rfl
  | cons g gs ih =>
    have hg := readGroup_hexText (h g List.mem_cons_self)
    cases gs with
    | nil => rw [List.map_cons, List.map_nil, readPieces, hg]
    | cons g' gs =>
      have hrest := ih (fun k hk => h k (List.mem_cons_of_mem _ hk))
      rw [List.map_cons] at hrest
      rw [List.map_cons, List.map_cons, readPieces, hg, hrest]
      · rfl
      · exact List.cons_ne_nil _ _

theorem readSide_joined (dotted : Bool) {gs : List Nat} (h : ∀ g ∈ gs, g < 2 ^ 16) :
    readSide dotted (joined colon (gs.map hexText)) = some gs := by
  cases gs with
  | nil => rfl
  | cons g gs =>
    have hmap : (g :: gs).map hexText ≠ [] := List.cons_ne_nil _ _
    have hne : joined colon ((g :: gs).map hexText) ≠ [] :=
      List.append_ne_nil_of_left_ne_nil (hexText_ne_nil g) _
    rw [readSide, if_neg hne, splitOn_joined hmap (proper_hexText _), readPieces_hexText dotted h]

/-- Eight groups between colons. -/
theorem parse_joined {gs : List Nat} (h : ∀ g ∈ gs, g < 2 ^ 16) (hlen : gs.length = 8) :
    parse (joined colon (gs.map hexText)) = some gs := by
  rw [parse, splitDouble_none (doubles_joined (proper_hexText gs))]
  dsimp only
  rw [readSide_joined true h]
  exact if_pos (decide_eq_true hlen)

/-- At most seven groups around `::`. -/
theorem parse_double {ls rs : List Nat} (hl : ∀ g ∈ ls, g < 2 ^ 16) (hr : ∀ g ∈ rs, g < 2 ^ 16)
    (hlen : ls.length + rs.length ≤ 7) :
    parse (joined colon (ls.map hexText) ++ colon :: colon :: joined colon (rs.map hexText)) =
      some (ls ++ List.replicate (8 - (ls.length + rs.length)) 0 ++ rs) := by
  rw [parse, splitDouble_some (doubles_around (proper_hexText ls)).1]
  dsimp only
  rw [readSide_joined false hl, readSide_joined true hr]
  exact if_pos hlen

/-- A text of hexadecimal digits and colons that stands for these groups. -/
structure Reads (text : ByteString) (gs : List Nat) : Prop where
  parsed : parse text = some gs
  compressed : doubles colon text ≤ 1
  digits : ∀ b ∈ text, b = colon ∨ hexValue b ≠ none

theorem mem_joined_hexText {gs : List Nat} {b : UInt8} (h : b ∈ joined colon (gs.map hexText)) :
    b = colon ∨ hexValue b ≠ none := by
  refine (mem_joined h).imp_right ?_
  rintro ⟨t, ht, hb⟩ hnone
  obtain ⟨g, -, rfl⟩ := List.mem_map.mp ht
  exact not_mem_hexText hnone g hb

theorem reads_joined {gs : List Nat} (h : ∀ g ∈ gs, g < 2 ^ 16) (hlen : gs.length = 8) :
    Reads (joined colon (gs.map hexText)) gs where
  parsed := parse_joined h hlen
  compressed := by
    rw [doubles_joined (proper_hexText gs)]
    exact Nat.zero_le 1
  digits := fun _ hb => mem_joined_hexText hb

theorem reads_double {ls rs : List Nat} {m : Nat} (hl : ∀ g ∈ ls, g < 2 ^ 16)
    (hr : ∀ g ∈ rs, g < 2 ^ 16) (hm : 0 < m) (hlen : ls.length + m + rs.length = 8) :
    Reads (joined colon (ls.map hexText) ++ colon :: colon :: joined colon (rs.map hexText))
      (ls ++ List.replicate m 0 ++ rs) where
  parsed := by
    rw [parse_double hl hr (by omega)]
    congr 4
    omega
  compressed := Nat.le_of_eq (doubles_apart (proper_hexText ls) (proper_hexText rs))
  digits := by
    intro b hb
    rcases List.mem_append.mp hb with hleft | hright
    · exact mem_joined_hexText hleft
    · rcases List.mem_cons.mp hright with rfl | hright
      · exact .inl rfl
      · rcases List.mem_cons.mp hright with rfl | hright
        · exact .inl rfl
        · exact mem_joined_hexText hright

/-- What a single pass has written of some groups, and whether it has closed a run of zeros.
A run at the end is not written yet. -/
inductive Printed : List Nat → Bool → ByteString → Prop where
  | pending (ls : List Nat) (m : Nat) (hls : 0 ∉ ls) :
      Printed (ls ++ List.replicate m 0) false (joined colon (ls.map hexText))
  | closed (ls : List Nat) (m : Nat) (rs : List Nat) (hm : 0 < m) (hrs : rs ≠ []) :
      Printed (ls ++ List.replicate m 0 ++ rs) true
        (joined colon (ls.map hexText) ++ colon :: colon :: joined colon (rs.map hexText))

namespace Printed
variable {gs : List Nat} {used : Bool} {t : ByteString}

theorem of_nil (h : Printed gs used t) (hnil : gs = []) : used = false ∧ t = [] := by
  cases h with
  | pending ls m hls =>
    obtain ⟨rfl, -⟩ := List.append_eq_nil_iff.mp hnil
    exact ⟨rfl, rfl⟩
  | closed ls m rs hm hrs => exact absurd (List.append_eq_nil_iff.mp hnil).2 hrs

theorem skip (h : Printed gs false t) : Printed (gs ++ [0]) false t := by
  cases h with
  | pending ls m hls =>
    rw [List.append_assoc, ← List.replicate_succ']
    exact pending ls (m + 1) hls

theorem first {g : Nat} (hg : g ≠ 0) : Printed [g] false (hexText g) := by
  have h := pending [g] 0 (by simpa using Ne.symm hg)
  rwa [List.replicate_zero, List.append_nil, List.map_singleton, joined, tails, List.flatMap_nil,
    List.append_nil] at h

/-- A run of zeros ends. -/
theorem close (h : Printed gs false t) (hlast : gs.getLast? = some 0) (g : Nat) :
    Printed (gs ++ [g]) true (t ++ colon :: colon :: hexText g) := by
  cases h with
  | pending ls m hls =>
    have hm : 0 < m := by
      by_contra hzero
      obtain rfl : m = 0 := by omega
      rw [List.replicate_zero, List.append_nil] at hlast
      exact hls (List.mem_of_getLast? hlast)
    have h := closed ls m [g] hm (List.cons_ne_nil _ _)
    rwa [List.map_singleton, joined, tails, List.flatMap_nil, List.append_nil] at h

theorem getLast_zeros (ls : List Nat) {m : Nat} (hm : 0 < m) :
    (ls ++ List.replicate m 0).getLast? = some 0 := by
  obtain ⟨k, rfl⟩ : ∃ k, m = k + 1 := ⟨m - 1, by omega⟩
  rw [List.replicate_succ', ← List.append_assoc, List.getLast?_concat]

/-- A group is written behind a colon. -/
theorem next (h : Printed gs used t) (hne : gs ≠ []) {g : Nat}
    (hopen : used = false → gs.getLast? ≠ some 0 ∧ g ≠ 0) :
    Printed (gs ++ [g]) used (t ++ colon :: hexText g) := by
  cases h with
  | pending ls m hls =>
    obtain ⟨hlast, hg⟩ := hopen rfl
    obtain rfl : m = 0 := by
      by_contra hm
      exact hlast (getLast_zeros ls (Nat.pos_of_ne_zero hm))
    rw [List.replicate_zero, List.append_nil] at hne ⊢
    have hmap : ls.map hexText ≠ [] := fun hnil => hne (List.map_eq_nil_iff.mp hnil)
    have h := pending (ls ++ [g]) 0 (by simpa using ⟨hls, Ne.symm hg⟩)
    rwa [List.replicate_zero, List.append_nil, List.map_append, List.map_singleton,
      joined_snoc _ hmap] at h
  | closed ls m rs hm hrs =>
    have hmap : rs.map hexText ≠ [] := fun hnil => hrs (List.map_eq_nil_iff.mp hnil)
    have h := closed ls m (rs ++ [g]) hm (List.append_ne_nil_of_left_ne_nil hrs _)
    rw [List.map_append, List.map_singleton, joined_snoc _ hmap] at h
    simpa only [List.append_assoc, List.cons_append] using h

/-- At the end a run that is still open is written, and nothing is lost. -/
theorem reads (h : Printed gs used t) (hlt : ∀ g ∈ gs, g < 2 ^ 16) (hlen : gs.length = 8) :
    Reads (if used = false ∧ gs.getLast? = some 0 then t ++ [colon, colon] else t) gs := by
  cases h with
  | pending ls m hls =>
    have hl : ∀ g ∈ ls, g < 2 ^ 16 := fun g hg => hlt g (List.mem_append_left _ hg)
    rw [List.length_append, List.length_replicate] at hlen
    by_cases hm : 0 < m
    · rw [if_pos ⟨rfl, getLast_zeros ls hm⟩]
      have hr : ∀ g ∈ ([] : List Nat), g < 2 ^ 16 := fun _ hg => absurd hg List.not_mem_nil
      have h := reads_double hl hr hm hlen
      rwa [List.append_nil] at h
    · obtain rfl : m = 0 := by omega
      rw [List.replicate_zero, List.append_nil, if_neg]
      · exact reads_joined hl hlen
      · exact fun hlast => hls (List.mem_of_getLast? hlast.2)
  | closed ls m rs hm hrs =>
    rw [if_neg (fun hopen => Bool.noConfusion hopen.1)]
    rw [List.length_append, List.length_append, List.length_replicate] at hlen
    exact reads_double (fun g hg => hlt g (by simp [hg])) (fun g hg => hlt g (by simp [hg])) hm hlen

end Printed

example : parse (ascii "::FFFF:1.2.3.4") = some [0, 0, 0, 0, 0, 0xffff, 0x0102, 0x0304] := by
  decide +kernel

end CoroutineRpc.Ipv6Text
