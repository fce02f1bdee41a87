import CoroutineRpc.Library.Text
import Mathlib.Data.List.TakeWhile
import Mathlib.Data.Nat.Digits.Lemmas

/-! Reading decimal text the way `strtol` does: blanks, a sign, and as many digits as there are.
What was printed is read back, whatever stands behind its digits. -/
namespace CoroutineRpc.Text

def plus : UInt8 := 43

def isSpace (b : UInt8) : Bool := b = 32 || 9 ≤ b && b ≤ 13

def isDigit (b : UInt8) : Bool := 48 ≤ b && b ≤ 57

/-- The value of a run of digits. -/
def readNat (digits : ByteString) : Nat := digits.foldl (fun n b => 10 * n + (b.toNat - 48)) 0

/-- The sign, and the text behind it. -/
def readSign : ByteString → Bool × ByteString
  | [] => (false, [])
  | b :: bs => if b = minus then (true, bs) else if b = plus then (false, bs) else (false, b :: bs)

/-- `std::stoi`: `none` where it throws, because there is no digit or the value does not fit. -/
def stoi (text : ByteString) : Option Int :=
  let (negative, text) := readSign (text.dropWhile isSpace)
  let digits := text.takeWhile isDigit
  let z : Int := if negative then -(readNat digits : Int) else readNat digits
  if digits ≠ [] ∧ -2 ^ 31 ≤ z ∧ z < 2 ^ 31 then some z else none

theorem digit_facts : ∀ d < 10, isDigit (digit d) = true ∧ (digit d).toNat - 48 = d ∧
    isSpace (digit d) = false ∧ digit d ≠ minus ∧ digit d ≠ plus := by
  decide

theorem foldl_digits {ds : List Nat} (h : ∀ d ∈ ds, d < 10) (n : Nat) :
    (ds.map digit).foldl (fun n b => 10 * n + (b.toNat - 48)) n =
      Nat.ofDigits 10 ds.reverse + 10 ^ ds.length * n := by
  induction ds generalizing n with
  | nil => simp
  | cons d ds ih =>
    have hd := (digit_facts d (h d List.mem_cons_self)).2.1
    have hrest := ih (fun e he => h e (List.mem_cons_of_mem d he)) (10 * n + d)
    rw [List.map_cons, List.foldl_cons, hd, hrest, List.reverse_cons, Nat.ofDigits_append,
      List.length_reverse, Nat.ofDigits_singleton, List.length_cons, Nat.pow_succ, Nat.mul_add]
    have harrange : 10 ^ ds.length * (10 * n) = 10 ^ ds.length * 10 * n :=
      (Nat.mul_assoc _ _ _).symm
    omega

/-- The text of a number consists of digits, and their value is the number. -/
theorem natText_read (n : Nat) : ∃ ds : List Nat, natText n = ds.map digit ∧ ds ≠ [] ∧
    (∀ d ∈ ds, d < 10) ∧ readNat (natText n) = n := by
  by_cases hn : n = 0
  · subst hn
    exact ⟨[0], rfl, List.cons_ne_nil _ _, by simp, by decide⟩
  · have htext : natText n = (Nat.digits 10 n).reverse.map digit := if_neg hn
    have hlt : ∀ d ∈ (Nat.digits 10 n).reverse, d < 10 :=
      fun d hd => Nat.digits_lt_base (by omega) (List.mem_reverse.mp hd)
    refine ⟨_, htext, ?_, hlt, ?_⟩
    · intro hnil
      exact hn (Nat.digits_eq_nil_iff_eq_zero.mp (List.reverse_eq_nil_iff.mp hnil))
    · rw [htext, readNat, foldl_digits hlt, List.reverse_reverse, Nat.ofDigits_digits, Nat.mul_zero,
        Nat.add_zero]

theorem length_natText_le {n k : Nat} (h : n < 10 ^ (k + 1)) : (natText n).length ≤ k + 1 := by
  by_cases hn : n = 0
  · subst hn
    exact Nat.succ_le_succ (Nat.zero_le k)
  · rw [natText, if_neg hn, List.length_map, List.length_reverse]
    exact (Nat.digits_length_le_iff (by omega) n).mpr h

theorem takeWhile_digits {ds : List Nat} (h : ∀ d ∈ ds, d < 10) :
    (ds.map digit).takeWhile isDigit = ds.map digit := by
  rw [List.takeWhile_eq_self_iff]
  intro b hb
  obtain ⟨d, hd, rfl⟩ := List.mem_map.mp hb
  exact (digit_facts d (h d hd)).1

/-- A number that `int` can hold is read as it was printed. -/
theorem stoi_intText {z : Int} (hlow : -2 ^ 31 ≤ z) (hhigh : z < 2 ^ 31) :
    stoi (intText z) = some z := by
  obtain ⟨ds, htext, hne, hlt, hread⟩ := natText_read z.natAbs
  have hdigits : (natText z.natAbs).takeWhile isDigit = natText z.natAbs := by
    rw [htext]
    exact takeWhile_digits hlt
  have hnil : natText z.natAbs ≠ [] := by
    rw [htext]
    exact fun h => hne (List.map_eq_nil_iff.mp h)
  by_cases hz : z < 0
  · have hsign : readSign ((intText z).dropWhile isSpace) = (true, natText z.natAbs) := by
      rw [intText, if_pos hz]
      rfl
    have hvalue : -((z.natAbs : Nat) : Int) = z := by omega
    rw [stoi, hsign]
    dsimp only
    rw [hdigits, hread, if_pos rfl, hvalue, if_pos ⟨hnil, hlow, hhigh⟩]
  · have hsign : readSign ((intText z).dropWhile isSpace) = (false, natText z.natAbs) := by
      rw [intText, if_neg hz, htext]
      cases ds with
      | nil => exact absurd rfl hne
      | cons d ds =>
        obtain ⟨-, -, hspace, hminus, hplus⟩ := digit_facts d (hlt d List.mem_cons_self)
        rw [List.map_cons, List.dropWhile_cons_of_neg (by simp [hspace]), readSign, if_neg hminus,
          if_neg hplus]
    have hvalue : ((z.natAbs : Nat) : Int) = z := by omega
    rw [stoi, hsign]
    dsimp only
    rw [hdigits, hread, if_neg Bool.false_ne_true, hvalue, if_pos ⟨hnil, hlow, hhigh⟩]

end CoroutineRpc.Text
