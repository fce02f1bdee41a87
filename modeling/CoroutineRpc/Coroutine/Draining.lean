import CoroutineRpc.Coroutine.TimerSpec
import Mathlib.Data.List.Perm.Subperm

/-! Whether the collecting loop of `listExpiredCb` ends. It takes timers from the set into which
it puts the recurring ones back, so each that is still due would be taken again. -/
namespace CoroutineRpc.Coroutine.TimerManager
variable {β : Type}

/-- A timer for which the loop goes on. -/
def Wanted (m : TimerManager β) (now : Int) (rollover : Bool) (t : TimerId) : Prop :=
  rollover = true ∨ m.next t ≤ now

/-- Every recurring timer that would be due again finds its new deadline taken. -/
def Exhausts (now : Int) (rollover : Bool) (m : TimerManager β) : Prop :=
  ∀ t ∈ m.timers, m.Wanted now rollover t → (m.objects t).recurring = true →
    (rollover = true ∨ deadline now (m.objects t).ms ≤ now) →
      ∃ u ∈ m.timers, m.next t < m.next u ∧ m.next u = deadline now (m.objects t).ms

/-- The timers for which the loop goes on, in their order. -/
def wanted (m : TimerManager β) (now : Int) (rollover : Bool) : List TimerId :=
  m.timers.filter (fun t => rollover || decide (m.next t ≤ now))

section Loop
variable {now : Int} {rollover : Bool} {m : TimerManager β} {t : TimerId}

private theorem wanted_iff : m.Wanted now rollover t ↔
    (rollover || decide (m.next t ≤ now)) = true := by
  rw [Wanted, Bool.or_eq_true, decide_eq_true_iff]

private theorem due_eq_some (h : m.due now rollover = some t) :
    ∃ ts, m.timers = t :: ts ∧ m.Wanted now rollover t := by
  obtain ⟨hhead, hwanted⟩ := Option.filter_eq_some_iff.mp h
  obtain ⟨ts, hts⟩ := List.head?_eq_some_iff.mp hhead
  exact ⟨ts, hts, wanted_iff.mpr hwanted⟩

/-- When the loop stops at the first timer, it would stop at each. -/
theorem due_eq_none (hord : m.Ordered) (h : m.due now rollover = none) :
    ∀ u ∈ m.timers, ¬ m.Wanted now rollover u := by
  cases htimers : m.timers with
  | nil =>
    intro u hu
    cases hu
  | cons t ts =>
    have hhead : ¬ m.Wanted now rollover t := by
      rw [wanted_iff]
      simpa [due, htimers] using h
    rw [Ordered, htimers] at hord
    intro u hu hwanted
    apply hhead
    rcases List.mem_cons.mp hu with rfl | hu
    · exact hwanted
    · exact hwanted.imp_right (fun hle => le_trans (hord.head u hu).le hle)

/-- The timer that is taken comes before all others. -/
theorem first_of_due (hord : m.Ordered) (hdue : m.due now rollover = some t) :
    t ∈ m.timers ∧ m.Wanted now rollover t ∧ ∀ u ∈ m.timers, u ≠ t → m.next t < m.next u := by
  obtain ⟨ts, htimers, hwanted⟩ := due_eq_some hdue
  rw [Ordered, htimers] at hord
  rw [htimers]
  refine ⟨List.mem_cons_self, hwanted, ?_⟩
  intro u hu hne
  exact hord.head u ((List.mem_cons.mp hu).resolve_left hne)

namespace CollectedOne
variable {m₁ : TimerManager β}

/-- A timer that is back in the set has its new deadline. -/
theorem next_back (h : CollectedOne m now t m₁) (hback : t ∈ m₁.timers) :
    m₁.next t = deadline now (m.objects t).ms := h.next_self (h.mem_self.mp hback).1

private theorem wanted_other (h : CollectedOne m now t m₁) {u : TimerId} (hne : u ≠ t) :
    m₁.Wanted now rollover u ↔ m.Wanted now rollover u := by
  rw [Wanted, Wanted, h.next_other hne]

/-- One iteration costs nothing exactly when its timer is not wanted again. -/
theorem exhausts_iff (h : CollectedOne m now t m₁) (hord : m.Ordered)
    (hdue : m.due now rollover = some t) : Exhausts now rollover m ↔
      Exhausts now rollover m₁ ∧ ¬ (t ∈ m₁.timers ∧ m₁.Wanted now rollover t) := by
  obtain ⟨ht, hwanted, hfirst⟩ := first_of_due hord hdue
  have hnext : ∀ u, u ≠ t → m₁.next u = m.next u := fun u hu => h.next_other hu
  constructor
  · intro hall
    have hgone : ¬ (t ∈ m₁.timers ∧ m₁.Wanted now rollover t) := by
      rintro ⟨hback, hagain⟩
      rw [Wanted, h.next_back hback] at hagain
      obtain ⟨hrec, hfresh⟩ := h.mem_self.mp hback
      obtain ⟨u, hu, hlt, he⟩ := hall t ht hwanted hrec hagain
      have hne : u ≠ t := by
        rintro rfl
        exact lt_irrefl _ hlt
      exact hfresh u hu hne he
    refine ⟨?_, hgone⟩
    intro v hv hwantedv hrecv hagain
    have hvt : v ≠ t := by
      rintro rfl
      exact hgone ⟨hv, hwantedv⟩
    have hv' := (h.mem_other v hvt).mp hv
    rw [h.other v hvt] at hrecv hagain ⊢
    obtain ⟨u, hu, hlt, he⟩ := hall v hv' ((h.wanted_other hvt).mp hwantedv) hrecv hagain
    have hut : u ≠ t := by
      rintro rfl
      exact lt_asymm hlt (hfirst v hv' hvt)
    rw [hnext v hvt]
    exact ⟨u, (h.mem_other u hut).mpr hu, by rwa [hnext u hut], by rwa [hnext u hut]⟩
  · rintro ⟨hall, hgone⟩ v hv hwantedv hrecv hagain
    rcases eq_or_ne v t with rfl | hvt
    · -- otherwise the timer would be taken in again
      by_contra hnone
      have hback : v ∈ m₁.timers := by
        apply h.mem_self.mpr
        refine ⟨hrecv, ?_⟩
        intro u hu hne he
        exact hnone ⟨u, hu, hfirst u hu hne, he⟩
      apply hgone
      refine ⟨hback, ?_⟩
      rwa [Wanted, h.next_back hback]
    · have hv' := (h.mem_other v hvt).mpr hv
      have hall' := hall v hv' ((h.wanted_other hvt).mpr hwantedv)
      rw [h.other v hvt] at hall'
      obtain ⟨u, hu, hlt, he⟩ := hall' hrecv hagain
      have hut : u ≠ t := by
        rintro rfl
        apply hgone
        refine ⟨hu, ?_⟩
        rwa [Wanted, he]
      rw [hnext u hut] at hlt he
      rw [hnext v hvt] at hlt
      exact ⟨u, (h.mem_other u hut).mp hu, hlt, he⟩

/-- What is wanted afterwards was wanted before. -/
theorem wanted_of_wanted (h : CollectedOne m now t m₁)
    (hgone : ¬ (t ∈ m₁.timers ∧ m₁.Wanted now rollover t)) {u : TimerId} (hu : u ∈ m₁.timers)
    (hwanted : m₁.Wanted now rollover u) :
    u ≠ t ∧ u ∈ m.timers ∧ m.Wanted now rollover u := by
  have hne : u ≠ t := by
    rintro rfl
    exact hgone ⟨hu, hwanted⟩
  exact ⟨hne, (h.mem_other u hne).mp hu, (h.wanted_other hne).mp hwanted⟩

end CollectedOne

private theorem mem_wanted {u : TimerId} :
    u ∈ m.wanted now rollover ↔ u ∈ m.timers ∧ m.Wanted now rollover u := by
  rw [wanted, List.mem_filter, wanted_iff]

private theorem wanted_nodup (hord : m.Ordered) :
    (m.wanted now rollover).Nodup := hord.nodup.filter _

/-- An iteration that costs nothing leaves fewer timers that are wanted. -/
theorem CollectedOne.fewer {m₁ : TimerManager β} (h : CollectedOne m now t m₁) (hord : m.Ordered)
    (hdue : m.due now rollover = some t)
    (hgone : ¬ (t ∈ m₁.timers ∧ m₁.Wanted now rollover t)) :
    (m₁.wanted now rollover).length < (m.wanted now rollover).length := by
  obtain ⟨ht, hwanted, -⟩ := first_of_due hord hdue
  have hnodup : (t :: m₁.wanted now rollover).Nodup := by
    apply List.nodup_cons.mpr
    exact ⟨fun hin => hgone (mem_wanted.mp hin), wanted_nodup h.ordered⟩
  have hsub : t :: m₁.wanted now rollover ⊆ m.wanted now rollover := by
    intro u hu
    rcases List.mem_cons.mp hu with rfl | hu
    · exact mem_wanted.mpr ⟨ht, hwanted⟩
    · obtain ⟨hmem, hw⟩ := mem_wanted.mp hu
      exact mem_wanted.mpr (h.wanted_of_wanted hgone hmem hw).2
  exact (List.Nodup.subperm hnodup hsub).length_le

/-- Every timer that is wanted is collected before the loop ends. -/
theorem collected_of_wanted {fuel : Nat} {r : List (TimerId × Option β)} {m' : TimerManager β}
    (hord : m.Ordered) (hrun : collectLoop now rollover fuel m = some (r, m')) {u : TimerId}
    (hu : u ∈ m.timers) (hwanted : m.Wanted now rollover u) : u ∈ r.map (·.1) := by
  induction fuel generalizing m r with
  | zero =>
    rw [collectLoop] at hrun
    split at hrun
    · cases hrun
    · next hnone =>
      exact absurd hwanted (due_eq_none hord (Option.not_isSome_iff_eq_none.mp hnone) u hu)
  | succ fuel ih =>
    rw [collectLoop] at hrun
    split at hrun
    · next hnone => exact absurd hwanted (due_eq_none hord hnone u hu)
    · next t hdue =>
      obtain ⟨⟨r', m₁⟩, hrest, heq⟩ := Option.map_eq_some_iff.mp hrun
      cases heq
      rw [List.map_cons, List.mem_cons]
      rcases eq_or_ne u t with rfl | hne
      · exact Or.inl rfl
      · have hone := collectOne_spec hord now t
        exact Or.inr (ih hone.ordered hrest ((hone.mem_other u hne).mpr hu)
          ((hone.wanted_other hne).mpr hwanted))

/-- A timer that is not wanted stays in the set as it is. -/
theorem collectLoop_stays {fuel : Nat} {r : List (TimerId × Option β)} {m' : TimerManager β}
    (hord : m.Ordered) (hrun : collectLoop now rollover fuel m = some (r, m')) {u : TimerId}
    (hu : u ∈ m.timers) (hlate : ¬ m.Wanted now rollover u) :
    u ∈ m'.timers ∧ m'.objects u = m.objects u := by
  induction fuel generalizing m r with
  | zero =>
    rw [collectLoop] at hrun
    split at hrun
    · cases hrun
    · cases hrun
      exact ⟨hu, rfl⟩
  | succ fuel ih =>
    rw [collectLoop] at hrun
    split at hrun
    · cases hrun
      exact ⟨hu, rfl⟩
    · next t hdue =>
      obtain ⟨⟨r', m₁⟩, hrest, heq⟩ := Option.map_eq_some_iff.mp hrun
      cases heq
      have hne : u ≠ t := by
        rintro rfl
        exact hlate (first_of_due hord hdue).2.1
      have hone := collectOne_spec hord now t
      obtain ⟨hin, hobject⟩ := ih hone.ordered hrest ((hone.mem_other u hne).mpr hu)
        (fun hw => hlate ((hone.wanted_other hne).mp hw))
      exact ⟨hin, hobject.trans (hone.other u hne)⟩

/-- Timers that are each taken once are taken in the order of their deadlines, with the callbacks
that they had. -/
theorem collectLoop_order {fuel : Nat} {r : List (TimerId × Option β)} {m' : TimerManager β}
    (hord : m.Ordered) (hrun : collectLoop now rollover fuel m = some (r, m'))
    (hnodup : (r.map (·.1)).Nodup) (hmem : ∀ u ∈ r.map (·.1), u ∈ m.timers) :
    (r.map (·.1)).Pairwise (fun t u => m.next t ≤ m.next u) ∧
      r.map (·.2) = (r.map (·.1)).map (fun t => (m.objects t).cb) := by
  induction fuel generalizing m r with
  | zero =>
    rw [collectLoop] at hrun
    split at hrun
    · cases hrun
    · cases hrun
      exact ⟨List.Pairwise.nil, rfl⟩
  | succ fuel ih =>
    rw [collectLoop] at hrun
    split at hrun
    · cases hrun
      exact ⟨List.Pairwise.nil, rfl⟩
    · next t hdue =>
      obtain ⟨⟨r', m₁⟩, hrest, heq⟩ := Option.map_eq_some_iff.mp hrun
      cases heq
      have hone := collectOne_spec hord now t
      obtain ⟨hout, hnodup'⟩ := List.nodup_cons.mp hnodup
      have hne : ∀ u ∈ r'.map (·.1), u ≠ t := fun u hu he => hout (he ▸ hu)
      have hin : ∀ u ∈ r'.map (·.1), u ∈ m.timers := fun u hu => hmem u (List.mem_cons_of_mem t hu)
      obtain ⟨hsorted, hcallbacks⟩ := ih hone.ordered hrest hnodup'
        (fun u hu => (hone.mem_other u (hne u hu)).mpr (hin u hu))
      constructor
      · refine List.pairwise_cons.mpr ⟨?_, ?_⟩
        · exact fun u hu => ((first_of_due hord hdue).2.2 u (hin u hu) (hne u hu)).le
        · refine hsorted.imp_of_mem (fun {u v} hu hv hle => ?_)
          rwa [hone.next_other (hne u hu), hone.next_other (hne v hv)] at hle
      · rw [List.map_cons, List.map_cons, List.map_cons, hcallbacks]
        congr 1
        apply List.map_congr_left
        intro u hu
        rw [hone.other u (hne u hu)]

/-- A loop that has ended without taking a timer twice. -/
theorem exhausts_of_collectLoop {fuel : Nat} {r : List (TimerId × Option β)} {m' : TimerManager β}
    (hord : m.Ordered) (hrun : collectLoop now rollover fuel m = some (r, m'))
    (hnodup : (r.map (·.1)).Nodup) : Exhausts now rollover m := by
  induction fuel generalizing m r with
  | zero =>
    rw [collectLoop] at hrun
    split at hrun
    · cases hrun
    · next hnone =>
      intro t ht hwanted
      exact absurd hwanted (due_eq_none hord (Option.not_isSome_iff_eq_none.mp hnone) t ht)
  | succ fuel ih =>
    rw [collectLoop] at hrun
    split at hrun
    · next hnone =>
      intro t ht hwanted
      exact absurd hwanted (due_eq_none hord hnone t ht)
    · next t hdue =>
      obtain ⟨⟨r', m₁⟩, hrest, heq⟩ := Option.map_eq_some_iff.mp hrun
      cases heq
      obtain ⟨hout, hnodup'⟩ := List.nodup_cons.mp hnodup
      have hone := collectOne_spec hord now t
      apply (hone.exhausts_iff hord hdue).mpr
      refine ⟨ih hone.ordered hrest hnodup', ?_⟩
      rintro ⟨hback, hagain⟩
      exact hout (collected_of_wanted hone.ordered hrest hback hagain)

/-- As many iterations as there are timers that are wanted are enough. -/
theorem collectLoop_of_exhausts {fuel : Nat} (hord : m.Ordered) (h : Exhausts now rollover m)
    (hfuel : (m.wanted now rollover).length ≤ fuel) :
    ∃ r m', collectLoop now rollover fuel m = some (r, m') ∧ (r.map (·.1)).Nodup ∧
      ∀ u ∈ r.map (·.1), u ∈ m.timers ∧ m.Wanted now rollover u := by
  induction fuel generalizing m with
  | zero =>
    have hdue : m.due now rollover = none := by
      cases hdue : m.due now rollover with
      | none => rfl
      | some t =>
        obtain ⟨ht, hwanted, -⟩ := first_of_due hord hdue
        have hpos := List.length_pos_of_mem (mem_wanted.mpr ⟨ht, hwanted⟩)
        omega
    exact ⟨[], m, by simp [collectLoop, hdue], List.nodup_nil, fun u hu => absurd hu List.not_mem_nil⟩
  | succ fuel ih =>
    cases hdue : m.due now rollover with
    | none =>
      exact ⟨[], m, by simp [collectLoop, hdue], List.nodup_nil, fun u hu => absurd hu List.not_mem_nil⟩
    | some t =>
      have hone := collectOne_spec hord now t
      obtain ⟨ht, hwanted, -⟩ := first_of_due hord hdue
      obtain ⟨hrest, hgone⟩ := (hone.exhausts_iff hord hdue).mp h
      have hless := hone.fewer hord hdue hgone
      obtain ⟨r, m', hrun, hnodup, hcollected⟩ := ih hone.ordered hrest (by omega)
      have hold : ∀ u ∈ r.map (·.1), u ≠ t ∧ u ∈ m.timers ∧ m.Wanted now rollover u := by
        intro u hu
        obtain ⟨hmem, hw⟩ := hcollected u hu
        exact hone.wanted_of_wanted hgone hmem hw
      refine ⟨(t, (m.objects t).cb) :: r, m', by simp [collectLoop, hdue, hrun], ?_, ?_⟩
      · exact List.nodup_cons.mpr ⟨fun hin => (hold t hin).1 rfl, hnodup⟩
      · intro u hu
        rcases List.mem_cons.mp hu with rfl | hu
        · exact ⟨ht, hwanted⟩
        · exact (hold u hu).2

end Loop

/-- The pass ends with each timer collected at most once exactly when every recurring timer
that would be due again, in a rollover or by its period, is dropped for one with its deadline. -/
theorem listExpiredCb_ends_iff {m : TimerManager β} (hord : m.Ordered) (now now' : ClockReading) :
    (∃ fuel r m', m.listExpiredCb now.ns now'.ns fuel = some (r, m') ∧ (r.map (·.1)).Nodup) ↔
      Exhausts now.ns (m.detectClockRollover now'.ns).1 m := by
  let clocked : TimerManager β := { m with previousTime := now'.ns }
  have hord' : clocked.Ordered := hord
  constructor
  · rintro ⟨fuel, r, m', hrun, hnodup⟩
    have hexhausts : Exhausts now.ns (m.detectClockRollover now'.ns).1 clocked :=
      exhausts_of_collectLoop hord' hrun hnodup
    exact hexhausts
  · intro h
    have hexhausts : Exhausts now.ns (m.detectClockRollover now'.ns).1 clocked := h
    obtain ⟨r, m', hrun, hnodup, -⟩ := collectLoop_of_exhausts hord' hexhausts (le_refl _)
    exact ⟨_, r, m', hrun, hnodup⟩

/-- One recurring timer with the period `ms`, due at 0, where the last reading was `previous`. -/
def oneRecurring (ms : Nat) (previous : Int) : TimerManager Unit where
  objects := fun _ => { recurring := true, ms := ms, cb := some () }
  created := 1
  timers := [0]
  previousTime := previous

private theorem oneRecurring_ordered (ms : Nat) (previous : Int) :
    (oneRecurring ms previous).Ordered :=
  List.pairwise_singleton _ _

/-- With a period of a second and no rollover the pass ends. -/
theorem second_timer_ends :
    ∃ fuel r m', (oneRecurring 1000 0).listExpiredCb 5 5 fuel = some (r, m') ∧ (r.map (·.1)).Nodup := by
  apply (listExpiredCb_ends_iff (oneRecurring_ordered 1000 0) ⟨5, by decide, by decide⟩
    ⟨5, by decide, by decide⟩).mpr
  have hnever : ¬ (((oneRecurring 1000 0).detectClockRollover 5).1 = true ∨
      deadline 5 1000 ≤ 5) := by decide
  exact fun _ _ _ _ hagain => absurd hagain hnever

/-- With the period 0, or after the clock was set back by more than an hour, it does not. -/
theorem recurring_timer_never_ends :
    (oneRecurring 0 0).Ordered ∧ (oneRecurring 1000 7200000000000).Ordered ∧
      (¬ ∃ fuel r m', (oneRecurring 0 0).listExpiredCb 5 5 fuel = some (r, m') ∧ (r.map (·.1)).Nodup) ∧
      ¬ ∃ fuel r m', (oneRecurring 1000 7200000000000).listExpiredCb 5 5 fuel = some (r, m') ∧
        (r.map (·.1)).Nodup := by
  refine ⟨oneRecurring_ordered _ _, oneRecurring_ordered _ _, ?_, ?_⟩
  · rintro ⟨fuel, r, m', hrun, hnodup⟩
    have hexhausts := exhausts_of_collectLoop (oneRecurring_ordered 0 5) hrun hnodup
    obtain ⟨u, hu, hlt, -⟩ := hexhausts 0 (by decide) (Or.inr (by decide)) rfl (Or.inr (by decide))
    exact lt_irrefl _ hlt
  · rintro ⟨fuel, r, m', hrun, hnodup⟩
    have hexhausts := exhausts_of_collectLoop (oneRecurring_ordered 1000 5) hrun hnodup
    obtain ⟨u, hu, hlt, -⟩ := hexhausts 0 (by decide) (Or.inr (by decide)) rfl (Or.inl (by decide))
    exact lt_irrefl _ hlt

end CoroutineRpc.Coroutine.TimerManager
