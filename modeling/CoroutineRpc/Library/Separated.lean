import Mathlib.Data.List.Basic

/-! Texts that are joined by a separator, and the place where the separator stands twice.
Pieces that are not empty and hold no separator can be found again. -/
namespace CoroutineRpc.Separated

variable {α : Type*} [DecidableEq α] (c : α)

/-- Each piece behind a separator. -/
def tails (ts : List (List α)) : List α := ts.flatMap (fun t => c :: t)

def joined : List (List α) → List α
  | [] => []
  | t :: ts => t ++ tails c ts

/-- How often the separator follows itself. -/
def doubles : List α → Nat
  | a :: b :: rest => (if a = c ∧ b = c then 1 else 0) + doubles (b :: rest)
  | _ => 0

/-- What stands before and behind the first double separator. -/
def splitDouble : List α → Option (List α × List α)
  | a :: b :: rest =>
    if a = c ∧ b = c then some ([], rest)
    else (splitDouble (b :: rest)).map (fun parts => (a :: parts.1, parts.2))
  | _ => none

/-- Pieces that a separator keeps apart. -/
def Proper (ts : List (List α)) : Prop := ∀ t ∈ ts, t ≠ [] ∧ c ∉ t

variable {c}

omit [DecidableEq α] in
theorem joined_snoc {ts : List (List α)} (t : List α) (h : ts ≠ []) :
    joined c (ts ++ [t]) = joined c ts ++ c :: t := by
  cases ts with
  | nil => exact absurd rfl h
  | cons u us => simp [joined, tails]

omit [DecidableEq α] in
theorem cons_joined {ts : List (List α)} (h : ts ≠ []) : c :: joined c ts = tails c ts := by
  cases ts with
  | nil => exact absurd rfl h
  | cons t ts => simp [joined, tails]

omit [DecidableEq α] in
theorem joined_cons {ts : List (List α)} (t : List α) (h : ts ≠ []) :
    joined c (t :: ts) = t ++ c :: joined c ts := by
  rw [cons_joined h]
  rfl

omit [DecidableEq α] in
theorem mem_joined {ts : List (List α)} {a : α} (h : a ∈ joined c ts) :
    a = c ∨ ∃ t ∈ ts, a ∈ t := by
  cases ts with
  | nil => cases h
  | cons t ts =>
    rcases List.mem_append.mp h with ht | htails
    · exact .inr ⟨t, List.mem_cons_self, ht⟩
    · obtain ⟨u, hu, hmem⟩ := List.mem_flatMap.mp htails
      rcases List.mem_cons.mp hmem with rfl | ha
      · exact .inl rfl
      · exact .inr ⟨u, List.mem_cons_of_mem _ hu, ha⟩

/-- The pieces come back. -/
theorem splitOn_joined {ts : List (List α)} (hne : ts ≠ []) (h : Proper c ts) :
    (joined c ts).splitOn c = ts := by
  induction ts with
  | nil => exact absurd rfl hne
  | cons t ts ih =>
    have ht : c ∉ t := (h t List.mem_cons_self).2
    cases ts with
    | nil => rw [joined, tails, List.flatMap_nil, List.append_nil, List.splitOn_eq_singleton ht]
    | cons u us =>
      rw [joined_cons t (List.cons_ne_nil u us), List.splitOn_append_cons_self_of_not_mem ht,
        ih (List.cons_ne_nil u us) (fun v hv => h v (List.mem_cons_of_mem _ hv))]

/-- Separators that meet do so before a place, or from it on. -/
theorem doubles_append (as : List α) (b : α) (bs : List α) :
    doubles c (as ++ b :: bs) = doubles c (as ++ [b]) + doubles c (b :: bs) := by
  induction as with
  | nil => simp [doubles]
  | cons a as ih =>
    cases as with
    | nil => simp [doubles]
    | cons a' as =>
      simp only [List.cons_append, doubles] at ih ⊢
      rw [ih, Nat.add_assoc]

theorem doubles_cons_le (a : α) (bs : List α) : doubles c bs ≤ doubles c (a :: bs) := by
  cases bs with
  | nil => exact Nat.le_refl 0
  | cons b bs => exact Nat.le_add_left ..

theorem doubles_prefix_le (as bs : List α) : doubles c as ≤ doubles c (as ++ bs) := by
  induction as with
  | nil => exact Nat.zero_le _
  | cons a as ih =>
    cases as with
    | nil => exact Nat.zero_le _
    | cons a' as => exact Nat.add_le_add_left ih _

theorem doubles_snoc {t : List α} (h : c ∉ t) : doubles c (t ++ [c]) = 0 := by
  induction t with
  | nil => rfl
  | cons a t ih =>
    have ha : a ≠ c := fun heq => h (heq ▸ List.mem_cons_self)
    have ht := ih (fun hm => h (List.mem_cons_of_mem _ hm))
    cases t with
    | nil => exact if_neg (fun hac => ha hac.1)
    | cons b t =>
      change (if a = c ∧ b = c then 1 else 0) + doubles c (b :: t ++ [c]) = 0
      rw [if_neg (fun hac => ha hac.1), ht]

theorem doubles_between {t : List α} (hne : t ≠ []) (h : c ∉ t) :
    doubles c (c :: t ++ [c]) = 0 := by
  cases t with
  | nil => exact absurd rfl hne
  | cons b t =>
    have hb : b ≠ c := fun heq => h (heq ▸ List.mem_cons_self)
    change (if c = c ∧ b = c then 1 else 0) + doubles c (b :: t ++ [c]) = 0
    rw [if_neg (fun hbc => hb hbc.2), doubles_snoc h]

omit [DecidableEq α] in
theorem tails_snoc (ts : List (List α)) : ∃ rest, tails c ts ++ [c] = c :: rest := by
  cases ts with
  | nil => exact ⟨[], rfl⟩
  | cons t ts => exact ⟨t ++ tails c ts ++ [c], by simp [tails]⟩

theorem doubles_tails {ts : List (List α)} (h : Proper c ts) :
    doubles c (tails c ts ++ [c]) = 0 := by
  induction ts with
  | nil => rfl
  | cons t ts ih =>
    obtain ⟨ht, hc⟩ := h t List.mem_cons_self
    obtain ⟨rest, hrest⟩ := tails_snoc (c := c) ts
    have htail := ih (fun u hu => h u (List.mem_cons_of_mem _ hu))
    have hsplit : tails c (t :: ts) ++ [c] = (c :: t) ++ c :: rest := by
      rw [← hrest]
      simp [tails]
    rw [hrest] at htail
    rw [hsplit, doubles_append, doubles_between ht hc, htail]

/-- Around the pieces and between them no separator follows another one. -/
theorem doubles_around {ts : List (List α)} (h : Proper c ts) :
    doubles c (joined c ts ++ [c]) = 0 ∧ doubles c (c :: joined c ts) = 0 := by
  cases ts with
  | nil => exact ⟨rfl, rfl⟩
  | cons t ts =>
    have htails := doubles_tails h
    rw [← cons_joined (List.cons_ne_nil t ts)] at htails
    have hback := doubles_cons_le c (joined c (t :: ts) ++ [c]) (c := c)
    have hfront := doubles_prefix_le (c :: joined c (t :: ts)) [c] (c := c)
    rw [List.cons_append] at htails hfront
    exact ⟨by omega, by omega⟩

theorem doubles_joined {ts : List (List α)} (h : Proper c ts) : doubles c (joined c ts) = 0 := by
  have hle := doubles_cons_le c (joined c ts) (c := c)
  have hzero := (doubles_around h).2
  omega

/-- Two groups of pieces that are kept apart by a double separator have no other one. -/
theorem doubles_apart {ts us : List (List α)} (ht : Proper c ts) (hu : Proper c us) :
    doubles c (joined c ts ++ c :: c :: joined c us) = 1 := by
  rw [doubles_append, (doubles_around ht).1]
  change 0 + ((if c = c ∧ c = c then 1 else 0) + doubles c (c :: joined c us)) = 1
  rw [(doubles_around hu).2, if_pos ⟨rfl, rfl⟩]

theorem splitDouble_none {t : List α} (h : doubles c t = 0) : splitDouble c t = none := by
  induction t with
  | nil => rfl
  | cons a t ih =>
    cases t with
    | nil => rfl
    | cons b t =>
      have hrest : doubles c (b :: t) = 0 := by
        have hle := doubles_cons_le a (b :: t) (c := c)
        omega
      have hab : ¬ (a = c ∧ b = c) := by
        intro hab
        rw [doubles, if_pos hab] at h
        omega
      rw [splitDouble, if_neg hab, ih hrest]
      rfl

/-- The search stops at the first double separator. -/
theorem splitDouble_some {as : List α} (h : doubles c (as ++ [c]) = 0) (bs : List α) :
    splitDouble c (as ++ c :: c :: bs) = some (as, bs) := by
  induction as with
  | nil => exact if_pos ⟨rfl, rfl⟩
  | cons a as ih =>
    have hrest : doubles c (as ++ [c]) = 0 := by
      have hle := doubles_cons_le a (as ++ [c]) (c := c)
      rw [List.cons_append] at h
      omega
    have hnext := ih hrest
    cases as with
    | nil =>
      have ha : ¬ (a = c ∧ c = c) := by
        intro hac
        rw [List.cons_append, List.nil_append, doubles, if_pos hac] at h
        omega
      change (if a = c ∧ c = c then _ else _) = _
      rw [if_neg ha]
      change (splitDouble c ([] ++ c :: c :: bs)).map _ = _
      rw [hnext]
      rfl
    | cons b as =>
      have hab : ¬ (a = c ∧ b = c) := by
        intro hab
        rw [List.cons_append, List.cons_append, doubles, if_pos hab] at h
        omega
      change (if a = c ∧ b = c then _ else _) = _
      rw [if_neg hab]
      change (splitDouble c (b :: as ++ c :: c :: bs)).map _ = _
      rw [hnext]
      rfl

end CoroutineRpc.Separated
