import Mathlib.Data.Nat.Digits.Defs

/-! Byte strings and the decimal text of integers.
Decimal text never contains a separator, so the last one can be found again. The first one is
found by a search from the front. -/
namespace CoroutineRpc

/-- A C++ `std::string`: bytes without any encoding. -/
abbrev ByteString := List UInt8

namespace Text

/-- The bytes of an ASCII literal. -/
def ascii (s : String) : ByteString := s.toList.map (fun c => UInt8.ofNat c.toNat)

/-- The byte of a decimal digit. -/
def digit (d : Nat) : UInt8 := UInt8.ofNat (48 + d)

def colon : UInt8 := 58
def minus : UInt8 := 45

/-- Decimal text of a natural number, most significant digit first. -/
def natText (n : Nat) : ByteString :=
  if n = 0 then [digit 0] else (Nat.digits 10 n).reverse.map digit

/-- `std::to_string` of a signed integer. -/
def intText (z : Int) : ByteString :=
  if z < 0 then minus :: natText z.natAbs else natText z.natAbs

private theorem digit_toNat {d : Nat} (h : d < 10) : (digit d).toNat = 48 + d := by
  rw [digit, UInt8.toNat_ofNat']
  exact Nat.mod_eq_of_lt (by omega)

theorem natText_digits {n : Nat} {b : UInt8} (h : b ∈ natText n) : ∃ d < 10, b = digit d := by
  unfold natText at h
  split at h
  · exact ⟨0, by omega, by simpa using h⟩
  · obtain ⟨d, hd, rfl⟩ := List.mem_map.mp h
    exact ⟨d, Nat.digits_lt_base (by omega) (List.mem_reverse.mp hd), rfl⟩

private theorem digit_ne {d : Nat} (h : d < 10) {b : UInt8} (hb : b.toNat < 48 ∨ 57 < b.toNat) :
    digit d ≠ b := by
  intro he
  have := digit_toNat h
  rw [he] at this
  omega

theorem colon_not_mem_natText (n : Nat) : colon ∉ natText n := by
  intro h
  obtain ⟨d, hd, he⟩ := natText_digits h
  exact digit_ne hd (by decide) he.symm

theorem colon_not_mem_intText (z : Int) : colon ∉ intText z := by
  unfold intText
  split
  · rintro (_ | ⟨_, h⟩)
    exact colon_not_mem_natText _ h
  · exact colon_not_mem_natText _

private theorem digit_map_injective {as bs : List Nat} (ha : ∀ d ∈ as, d < 10)
    (hb : ∀ d ∈ bs, d < 10) (h : as.map digit = bs.map digit) : as = bs := by
  have hback (ds : List Nat) (hd : ∀ d ∈ ds, d < 10) :
      (ds.map digit).map (fun b => b.toNat - 48) = ds := by
    rw [List.map_map]
    conv_rhs => rw [← List.map_id ds]
    apply List.map_congr_left
    intro d hmem
    have := digit_toNat (hd d hmem)
    simp [this]
  rw [← hback as ha, h, hback bs hb]

private theorem natText_ne_zero {n : Nat} (h : n ≠ 0) : natText n ≠ natText 0 := by
  intro he
  simp only [natText, if_neg h, if_true] at he
  have hrev : (Nat.digits 10 n).reverse = [0] :=
    digit_map_injective (fun d hd => Nat.digits_lt_base (by omega) (List.mem_reverse.mp hd))
      (by simp) he
  have hdig : Nat.digits 10 n = [0] := by simpa using congrArg List.reverse hrev
  have := Nat.ofDigits_digits 10 n
  simp [hdig] at this
  omega

theorem natText_injective : Function.Injective natText := by
  intro m n h
  by_cases hm : m = 0
  · subst m
    by_contra hn
    exact natText_ne_zero (Ne.symm hn) h.symm
  · by_cases hn : n = 0
    · subst n
      exact absurd h (natText_ne_zero hm)
    · simp only [natText, if_neg hm, if_neg hn] at h
      have hrev := digit_map_injective
        (fun d hd => Nat.digits_lt_base (by omega) (List.mem_reverse.mp hd))
        (fun d hd => Nat.digits_lt_base (by omega) (List.mem_reverse.mp hd)) h
      exact Nat.digits.injective 10 (List.reverse_inj.mp hrev)

/-- Signed and unsigned text agree exactly on the value itself; a sign never reads as a digit. -/
theorem intText_eq_natText_iff (z : Int) (n : Nat) : intText z = natText n ↔ z = n := by
  unfold intText
  split
  · rename_i hz
    constructor
    · intro h
      have hmem : minus ∈ natText n := h ▸ List.mem_cons_self
      obtain ⟨d, hd, he⟩ := natText_digits hmem
      exact absurd he.symm (digit_ne hd (by decide))
    · omega
  · constructor
    · intro h
      have := natText_injective h
      omega
    · intro h
      rw [h, Int.natAbs_natCast]

/-- Two concatenations around a separator that neither tail contains split alike. -/
theorem split_at_last {α : Type*} {c : α} {as bs xs ys : List α} (hx : c ∉ xs) (hy : c ∉ ys) :
    as ++ c :: xs = bs ++ c :: ys ↔ as = bs ∧ xs = ys := by
  constructor
  · intro h
    rcases List.append_eq_append_iff.mp h with ⟨ds, rfl, hd⟩ | ⟨ds, rfl, hd⟩
    · cases ds with
      | nil => simpa using hd
      | cons d ds =>
        simp only [List.cons_append, List.cons.injEq] at hd
        exact absurd (hd.2 ▸ List.mem_append_right _ List.mem_cons_self) hx
    · cases ds with
      | nil => simpa using hd.symm
      | cons d ds =>
        simp only [List.cons_append, List.cons.injEq] at hd
        exact absurd (hd.2 ▸ List.mem_append_right _ List.mem_cons_self) hy
  · rintro ⟨rfl, rfl⟩
    rfl

section Search
variable {α : Type*} [DecidableEq α]

/-- What stands before a separator that it does not contain is passed over. -/
theorem idxOf?_separator {c : α} {as : List α} (h : c ∉ as) (rest : List α) :
    (as ++ c :: rest).idxOf? c = some as.length := by
  induction as with
  | nil => simp [List.idxOf?_cons]
  | cons a as ih =>
    have ha : (a == c) = false := beq_false_of_ne (fun he => h (he ▸ List.mem_cons_self))
    rw [List.cons_append, List.idxOf?_cons, ha, ih (fun hm => h (List.mem_cons_of_mem _ hm))]
    rfl

/-- Two concatenations around a separator that neither front contains split alike. -/
theorem split_at_first {c : α} {as bs xs ys : List α} (ha : c ∉ as) (hb : c ∉ bs)
    (h : as ++ c :: xs = bs ++ c :: ys) : as = bs ∧ xs = ys := by
  have hpos := congrArg (List.idxOf? c) h
  rw [idxOf?_separator ha, idxOf?_separator hb] at hpos
  obtain ⟨hfront, hback⟩ := List.append_inj h (Option.some.inj hpos)
  exact ⟨hfront, (List.cons.inj hback).2⟩

/-- Where a search stops, the text splits. -/
theorem split_of_idxOf? {c : α} {text : List α} {pos : Nat} (h : text.idxOf? c = some pos) :
    ∃ as rest, text = as ++ c :: rest ∧ c ∉ as ∧ as.length = pos := by
  have hmem : c ∈ text := by
    rw [← List.isSome_idxOf?, h]
    rfl
  obtain ⟨as, rest, rfl, has⟩ := List.eq_append_cons_of_mem hmem
  rw [idxOf?_separator has] at h
  exact ⟨as, rest, rfl, has, Option.some.inj h⟩

end Search

end Text
end CoroutineRpc
