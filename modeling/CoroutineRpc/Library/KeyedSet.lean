import Mathlib.Data.List.Pairwise
import Mathlib.Order.Lattice

/-! Sets ordered by a key of their elements, as `std::set` with a comparator on one member.
Elements with equal keys are the same element to every operation. -/
namespace CoroutineRpc.KeyedSet

variable {α κ : Type*} [LinearOrder κ] {key : α → κ}

/-- The elements stand in the strict order of their keys. -/
def Ordered (key : α → κ) (s : List α) : Prop := s.Pairwise (fun x y => key x < key y)

/-- The element that is equivalent to `x`, which need not be `x`. -/
def find (key : α → κ) (x : α) (s : List α) : Option α := s.find? (fun y => key y = key x)

/-- Insertion does nothing when an equivalent element is there. -/
def insert (key : α → κ) (x : α) : List α → List α
  | [] => [x]
  | y :: ys =>
    if key x < key y then x :: y :: ys
    else if key y < key x then y :: insert key x ys
    else y :: ys

/-- No element of the set is equivalent to `x`. -/
def Fresh (key : α → κ) (x : α) (s : List α) : Prop := ∀ y ∈ s, key y ≠ key x

instance (key : α → κ) (x : α) (s : List α) : Decidable (Fresh key x s) :=
  inferInstanceAs (Decidable (∀ y ∈ s, key y ≠ key x))

theorem Ordered.head {x : α} {s : List α} (h : Ordered key (x :: s)) :
    ∀ y ∈ s, key x < key y := (List.pairwise_cons.mp h).1

theorem Ordered.tail {x : α} {s : List α} (h : Ordered key (x :: s)) : Ordered key s :=
  (List.pairwise_cons.mp h).2

theorem Ordered.nodup {s : List α} (h : Ordered key s) : s.Nodup := by
  refine List.Pairwise.imp ?_ h
  rintro x y hlt rfl
  exact lt_irrefl _ hlt

theorem Ordered.erase [DecidableEq α] {s : List α} (h : Ordered key s) (x : α) :
    Ordered key (s.erase x) := List.Pairwise.sublist List.erase_sublist h

theorem Ordered.congr {key' : α → κ} {s : List α} (h : Ordered key s)
    (he : ∀ x ∈ s, key' x = key x) : Ordered key' s := by
  refine List.Pairwise.imp_of_mem ?_ h
  intro x y hx hy hlt
  rw [he x hx, he y hy]
  exact hlt

/-- In an ordered set equivalent elements are equal. -/
theorem Ordered.eq_of_key_eq {s : List α} (h : Ordered key s) {x y : α} (hx : x ∈ s)
    (hy : y ∈ s) (he : key x = key y) : x = y := by
  induction s with
  | nil => cases hx
  | cons z s ih =>
    rcases List.mem_cons.mp hx with rfl | hx' <;> rcases List.mem_cons.mp hy with rfl | hy'
    · rfl
    · exact absurd he (ne_of_lt (h.head y hy'))
    · exact absurd he.symm (ne_of_lt (h.head x hx'))
    · exact ih h.tail hx' hy'

theorem find_some {x y : α} {s : List α} (h : find key x s = some y) :
    y ∈ s ∧ key y = key x :=
  ⟨List.mem_of_find?_eq_some h, by simpa using List.find?_some h⟩

theorem find_none {x : α} {s : List α} (h : find key x s = none) : Fresh key x s := by
  intro y hy
  simpa using List.find?_eq_none.mp h y hy

/-- An element of the set is found as itself. -/
theorem find_of_mem {x : α} {s : List α} (h : Ordered key s) (hx : x ∈ s) :
    find key x s = some x := by
  cases hf : find key x s with
  | none => exact absurd rfl (find_none hf x hx)
  | some y =>
    obtain ⟨hy, he⟩ := find_some hf
    rw [h.eq_of_key_eq hy hx he]

theorem mem_of_mem_insert {x z : α} {s : List α} (h : z ∈ insert key x s) :
    z = x ∨ z ∈ s := by
  induction s with
  | nil => exact Or.inl (List.mem_singleton.mp h)
  | cons y ys ih =>
    rw [insert] at h
    split at h
    · exact List.mem_cons.mp h
    split at h
    · rcases List.mem_cons.mp h with rfl | h
      · exact Or.inr List.mem_cons_self
      · exact (ih h).imp_right (List.mem_cons_of_mem y)
    · exact Or.inr h

theorem mem_insert_of_mem {x z : α} {s : List α} (h : z ∈ s) : z ∈ insert key x s := by
  induction s with
  | nil => cases h
  | cons y ys ih =>
    rw [insert]
    split
    · exact List.mem_cons_of_mem x h
    split
    · rcases List.mem_cons.mp h with rfl | h
      · exact List.mem_cons_self
      · exact List.mem_cons_of_mem y (ih h)
    · exact h

theorem mem_insert_self {x : α} {s : List α} (h : Fresh key x s) : x ∈ insert key x s := by
  induction s with
  | nil => exact List.mem_cons_self
  | cons y ys ih =>
    rw [insert]
    split
    · exact List.mem_cons_self
    split
    · exact List.mem_cons_of_mem y (ih (fun z hz => h z (List.mem_cons_of_mem y hz)))
    · next h1 h2 => exact absurd (le_antisymm (not_lt.mp h1) (not_lt.mp h2)) (h y List.mem_cons_self)

/-- Where an equivalent element is there, the new one is not taken in. -/
theorem insert_of_mem {x y : α} {s : List α} (h : Ordered key s) (hy : y ∈ s)
    (he : key y = key x) : insert key x s = s := by
  induction s with
  | nil => cases hy
  | cons z zs ih =>
    rw [insert]
    rcases List.mem_cons.mp hy with rfl | hy'
    · rw [if_neg (by simp [he]), if_neg (by simp [he])]
    · have hlt : key z < key x := he ▸ h.head y hy'
      rw [if_neg (not_lt_of_gt hlt), if_pos hlt, ih h.tail hy']

/-- What comes first after an insertion: the new element, or what was first before it. -/
theorem head_insert (key : α → κ) (x : α) (s : List α) :
    (insert key x s).head? = some x ∨ (insert key x s).head? = s.head? := by
  cases s with
  | nil => exact Or.inl rfl
  | cons y ys =>
    rw [insert]
    split
    · exact Or.inl rfl
    · apply Or.inr
      split
      · rfl
      · rfl

theorem filter_insert {x : α} {p : α → Bool} (h : p x = false) (s : List α) :
    (insert key x s).filter p = s.filter p := by
  induction s with
  | nil => simp [insert, h]
  | cons y ys ih =>
    rw [insert]
    split
    · simp [List.filter_cons, h]
    split
    · simp [List.filter_cons, ih]
    · rfl

theorem insert_ordered {x : α} {s : List α} (h : Ordered key s) :
    Ordered key (insert key x s) := by
  induction s with
  | nil => exact List.pairwise_singleton _ _
  | cons y ys ih =>
    rw [insert]
    split
    · next hlt =>
      refine List.pairwise_cons.mpr ⟨?_, h⟩
      intro z hz
      rcases List.mem_cons.mp hz with rfl | hz
      · exact hlt
      · exact lt_trans hlt (h.head z hz)
    split
    · next hlt =>
      refine List.pairwise_cons.mpr ⟨?_, ih h.tail⟩
      intro z hz
      rcases mem_of_mem_insert hz with rfl | hz
      · exact hlt
      · exact h.head z hz
    · exact h

/-- An element that was outside is inside after its insertion exactly when it was fresh. -/
theorem mem_insert_self_iff {x : α} {s : List α} (h : Ordered key s) (hx : x ∉ s) :
    x ∈ insert key x s ↔ Fresh key x s := by
  constructor
  · intro hmem y hy he
    rw [insert_of_mem h hy he] at hmem
    exact hx hmem
  · exact mem_insert_self

end CoroutineRpc.KeyedSet
