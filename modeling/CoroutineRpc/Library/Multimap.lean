import Mathlib.Data.List.Pairwise
import Mathlib.Order.Lattice

/-! Maps with several values for a key, as `std::multimap`. Entries with equal keys stand together,
in the order in which they came. -/
namespace CoroutineRpc.Multimap

variable {κ α : Type*} [LinearOrder κ]

/-- The new entry goes behind those with an equal key. -/
def insert (k : κ) (v : α) : List (κ × α) → List (κ × α)
  | [] => [(k, v)]
  | e :: es => if k < e.1 then (k, v) :: e :: es else e :: insert k v es

/-- From the first entry that is not less than the key to the last one that is not greater. -/
def equalRange (k : κ) (m : List (κ × α)) : List (κ × α) :=
  (m.dropWhile (fun e => e.1 < k)).takeWhile (fun e => e.1 ≤ k)

def Ordered (m : List (κ × α)) : Prop := m.Pairwise (fun x y => x.1 ≤ y.1)

/-- The values of a key. -/
def values (k : κ) (m : List (κ × α)) : List α := (m.filter (fun e => e.1 = k)).map (·.2)

theorem ordered_nil : Ordered ([] : List (κ × α)) := List.Pairwise.nil

theorem length_insert (k : κ) (v : α) (m : List (κ × α)) :
    (insert k v m).length = m.length + 1 := by
  induction m with
  | nil => rfl
  | cons x m ih =>
    rw [insert]
    split
    · rfl
    · rw [List.length_cons, ih, List.length_cons]

theorem mem_insert {k : κ} {v : α} {m : List (κ × α)} {e : κ × α} (h : e ∈ insert k v m) :
    e = (k, v) ∨ e ∈ m := by
  induction m with
  | nil => exact .inl (List.mem_singleton.mp h)
  | cons x m ih =>
    rw [insert] at h
    split at h
    · exact List.mem_cons.mp h
    · rcases List.mem_cons.mp h with rfl | h
      · exact .inr List.mem_cons_self
      · exact (ih h).imp_right (List.mem_cons_of_mem x)

theorem Ordered.insert {m : List (κ × α)} (h : Ordered m) (k : κ) (v : α) :
    Ordered (insert k v m) := by
  induction m with
  | nil => exact List.pairwise_singleton _ _
  | cons x m ih =>
    obtain ⟨hx, hm⟩ := List.pairwise_cons.mp h
    rw [Multimap.insert]
    split
    · next hlt =>
      apply List.pairwise_cons.mpr
      refine ⟨?_, h⟩
      intro y hy
      rcases List.mem_cons.mp hy with rfl | hy
      · exact le_of_lt hlt
      · exact le_trans (le_of_lt hlt) (hx y hy)
    · next hle =>
      apply List.pairwise_cons.mpr
      refine ⟨?_, ih hm⟩
      intro y hy
      rcases mem_insert hy with rfl | hy
      · exact not_lt.mp hle
      · exact hx y hy

/-- A key has its old values and the new one behind them. -/
theorem values_insert {m : List (κ × α)} (h : Ordered m) (k k' : κ) (v : α) :
    values k' (insert k v m) = values k' m ++ if k = k' then [v] else [] := by
  induction m with
  | nil =>
    by_cases hk : k = k'
    · simp [values, insert, hk]
    · simp [values, insert, hk]
  | cons x m ih =>
    obtain ⟨hx, hm⟩ := List.pairwise_cons.mp h
    rw [insert]
    split
    · next hlt =>
      by_cases hk : k = k'
      · subst hk
        have hnone : (x :: m).filter (fun e => e.1 = k) = [] := by
          apply List.filter_eq_nil_iff.mpr
          intro e he heq
          have hle : x.1 ≤ e.1 := by
            rcases List.mem_cons.mp he with rfl | he
            · exact le_refl _
            · exact hx e he
          exact absurd (of_decide_eq_true heq) (ne_of_gt (lt_of_lt_of_le hlt hle))
        rw [values, values, List.filter_cons_of_pos (by simp), hnone, if_pos rfl]
        rfl
      · rw [values, List.filter_cons_of_neg (by simpa using hk), if_neg hk, List.append_nil]
        rfl
    · have hrest := ih hm
      by_cases hxk : x.1 = k'
      · rw [values, values, List.filter_cons_of_pos (by simpa using hxk),
          List.filter_cons_of_pos (by simpa using hxk)]
        exact congrArg (x.2 :: ·) hrest
      · rw [values, values, List.filter_cons_of_neg (by simpa using hxk),
          List.filter_cons_of_neg (by simpa using hxk)]
        exact hrest

/-- From a key on, the entries that are not greater are those of the key. -/
theorem takeWhile_eq_filter {m : List (κ × α)} {k : κ} (h : Ordered m) (hge : ∀ e ∈ m, k ≤ e.1) :
    m.takeWhile (fun e => e.1 ≤ k) = m.filter (fun e => e.1 = k) := by
  induction m with
  | nil => rfl
  | cons x m ih =>
    obtain ⟨hx, hm⟩ := List.pairwise_cons.mp h
    have hkx := hge x List.mem_cons_self
    by_cases hxk : x.1 ≤ k
    · have heq : x.1 = k := le_antisymm hxk hkx
      rw [List.takeWhile_cons_of_pos (by simpa using hxk),
        List.filter_cons_of_pos (by simpa using heq),
        ih hm (fun e he => hge e (List.mem_cons_of_mem x he))]
    · rw [List.takeWhile_cons_of_neg (by simpa using hxk)]
      apply Eq.symm
      apply List.filter_eq_nil_iff.mpr
      intro e he heq
      have heq := of_decide_eq_true heq
      rcases List.mem_cons.mp he with rfl | he
      · exact hxk (le_of_eq heq)
      · exact hxk (heq ▸ hx e he)

/-- What `equal_range` walks over is exactly the entries of the key. -/
theorem equalRange_values {m : List (κ × α)} (h : Ordered m) (k : κ) :
    (equalRange k m).map (·.2) = values k m := by
  have hrange : equalRange k m = m.filter (fun e => e.1 = k) := by
    induction m with
    | nil => rfl
    | cons x m ih =>
      obtain ⟨hx, hm⟩ := List.pairwise_cons.mp h
      by_cases hlt : x.1 < k
      · rw [equalRange, List.dropWhile_cons_of_pos (by simpa using hlt),
          List.filter_cons_of_neg (by simpa using ne_of_lt hlt)]
        exact ih hm
      · rw [equalRange, List.dropWhile_cons_of_neg (by simpa using hlt)]
        apply takeWhile_eq_filter h
        intro e he
        rcases List.mem_cons.mp he with rfl | he
        · exact not_lt.mp hlt
        · exact le_trans (not_lt.mp hlt) (hx e he)
  rw [hrange]
  rfl

end CoroutineRpc.Multimap
