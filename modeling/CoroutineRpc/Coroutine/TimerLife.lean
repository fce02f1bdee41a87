import CoroutineRpc.Coroutine.TimerSpec

/-! Timers that fire at most once. Whatever the clock does and whichever deadlines coincide,
such a timer does not come back into `m_timers`, and its `cancel` leaves none of it there. -/
namespace CoroutineRpc.Coroutine.TimerManager
variable {β : Type}

/-- The set is in order and holds timers that exist. -/
structure Orderly (m : TimerManager β) : Prop where
  ordered : m.Ordered
  known : ∀ t ∈ m.timers, t < m.created

/-- A timer that does not recur and has its callback as long as it is in the set. -/
structure OneShot (m : TimerManager β) (t : TimerId) : Prop where
  known : t < m.created
  once : (m.objects t).recurring = false
  live : t ∈ m.timers → (m.objects t).cb ≠ none

/-- The set stays in order, and no one-shot timer comes back into it. -/
structure Keeps (m m' : TimerManager β) : Prop where
  orderly : m'.Orderly
  oneShot : ∀ t, m.OneShot t → m'.OneShot t
  gone : ∀ t, m.OneShot t → t ∉ m.timers → t ∉ m'.timers

theorem Keeps.refl {m : TimerManager β} (h : m.Orderly) : Keeps m m :=
  ⟨h, fun _ ht => ht, fun _ _ ht => ht⟩

theorem Keeps.trans {m₁ m₂ m₃ : TimerManager β} (h₁ : Keeps m₁ m₂) (h₂ : Keeps m₂ m₃) :
    Keeps m₁ m₃ :=
  ⟨h₂.orderly, fun t ht => h₂.oneShot t (h₁.oneShot t ht),
    fun t ht hout => h₂.gone t (h₁.oneShot t ht) (h₁.gone t ht hout)⟩

/-- Nothing but the timer `t` has changed, and no other timer has come into the set. -/
theorem Keeps.of_other {m m' : TimerManager β} {t : TimerId} (horderly : m'.Orderly)
    (hcreated : m.created ≤ m'.created) (hobjects : ∀ u, u ≠ t → m'.objects u = m.objects u)
    (hmem : ∀ u, u ≠ t → u ∈ m'.timers → u ∈ m.timers)
    (hself : m.OneShot t → m'.OneShot t ∧ t ∉ m'.timers) : Keeps m m' := by
  refine ⟨horderly, ?_, ?_⟩
  · intro u hu
    by_cases hut : u = t
    · subst hut
      exact (hself hu).1
    · refine ⟨Nat.lt_of_lt_of_le hu.known hcreated, ?_, ?_⟩
      · rw [hobjects u hut]
        exact hu.once
      · intro hin
        rw [hobjects u hut]
        exact hu.live (hmem u hut hin)
  · intro u hu hout
    by_cases hut : u = t
    · subst hut
      exact (hself hu).2
    · exact fun hin => hout (hmem u hut hin)

theorem Orderly.erase {m : TimerManager β} (h : m.Orderly) (t : TimerId) : (m.erase t).Orderly :=
  ⟨h.ordered.erase t, fun u hu => h.known u (List.mem_of_mem_erase hu)⟩

/-- The timers that `cancel` leaves, whichever one its search has found. -/
theorem cancel_timers {m : TimerManager β} (h : m.Orderly) {t : TimerId}
    (hcb : (m.objects t).cb ≠ none) :
    (m.cancel t).2.Orderly ∧ t ∉ (m.cancel t).2.timers ∧
      (∀ u ∈ (m.cancel t).2.timers, u ∈ m.timers) := by
  obtain ⟨cb, hcb⟩ := Option.ne_none_iff_exists'.mp hcb
  have hmodify : (m.modify t (fun x => { x with cb := none })).Orderly :=
    ⟨h.ordered.modify_keep rfl, h.known⟩
  unfold cancel
  rw [hcb]
  simp only
  split
  · next hfind =>
    refine ⟨hmodify, ?_, fun u hu => hu⟩
    intro hin
    rw [find_self hmodify.ordered hin] at hfind
    cases hfind
  · next it hfind =>
    refine ⟨hmodify.erase it, ?_, fun u hu => List.mem_of_mem_erase hu⟩
    exact notMem_erase_found hmodify.ordered hfind

theorem cancel_objects (m : TimerManager β) (t u : TimerId) (h : u ≠ t) :
    (m.cancel t).2.objects u = m.objects u := by
  unfold cancel
  split
  · rfl
  · simp only
    split
    · exact Function.update_of_ne h _ _
    · exact Function.update_of_ne h _ _

theorem cancel_self (m : TimerManager β) (t : TimerId) :
    ((m.cancel t).2.objects t).recurring = (m.objects t).recurring ∧
      (m.cancel t).2.created = m.created := by
  unfold cancel
  split
  · exact ⟨rfl, rfl⟩
  · simp only
    split
    · exact ⟨by rw [modify_same], rfl⟩
    · exact ⟨by rw [erase_objects, modify_same], rfl⟩

theorem cancel_keeps {m : TimerManager β} (h : m.Orderly) (t : TimerId) :
    Keeps m (m.cancel t).2 := by
  by_cases hcb : (m.objects t).cb = none
  · have hsame : (m.cancel t).2 = m := by rw [cancel, hcb]
    rw [hsame]
    exact .refl h
  · obtain ⟨horderly, hout, hsub⟩ := cancel_timers h hcb
    obtain ⟨hrecurring, hcreated⟩ := m.cancel_self t
    refine .of_other horderly (Nat.le_of_eq hcreated.symm) (fun u => m.cancel_objects t u)
      (fun u _ => hsub u) ?_
    intro ht
    exact ⟨⟨hcreated ▸ ht.known, hrecurring.trans ht.once, fun hin => absurd hin hout⟩, hout⟩

/-- After its `cancel` a one-shot timer is not in the set. -/
theorem cancel_gone {m : TimerManager β} (h : m.Orderly) {t : TimerId} (ht : m.OneShot t) :
    t ∉ (m.cancel t).2.timers := by
  by_cases hcb : (m.objects t).cb = none
  · have hsame : (m.cancel t).2 = m := by rw [cancel, hcb]
    rw [hsame]
    exact fun hin => ht.live hin hcb
  · exact (cancel_timers h hcb).2.1

/-- The timer that is added, as its constructor makes it. -/
theorem addTimer_spec {m : TimerManager β} (h : m.Orderly) (ms : Nat) (cb : Option β)
    (recurring : Bool) (now : Int) :
    (m.addTimer ms cb recurring now).1 = m.created ∧
      Keeps m (m.addTimer ms cb recurring now).2.2 ∧
      (recurring = false → cb ≠ none →
        (m.addTimer ms cb recurring now).2.2.OneShot m.created) := by
  let x : Timer β := { recurring := recurring, ms := ms, next := deadline now ms, cb := cb }
  let m₁ : TimerManager β := { m with created := m.created + 1 }.modify m.created (fun _ => x)
  have hnew : m.created ∉ m.timers := fun hin => absurd (h.known _ hin) (Nat.lt_irrefl _)
  have hord : m₁.Ordered :=
    Ordered.modify (m := { m with created := m.created + 1 }) h.ordered (fun _ => x) hnew
  have hmem : ∀ u, u ≠ m.created → u ∈ (m.addTimer ms cb recurring now).2.2.timers →
      u ∈ m.timers := by
    intro u hu hin
    exact (KeyedSet.mem_of_mem_insert hin).resolve_left hu
  have hobjects : ∀ u, u ≠ m.created →
      (m.addTimer ms cb recurring now).2.2.objects u = m.objects u :=
    fun u hu => Function.update_of_ne hu _ _
  have hself : (m.addTimer ms cb recurring now).2.2.objects m.created = x :=
    Function.update_self _ _ _
  have horderly : (m.addTimer ms cb recurring now).2.2.Orderly := by
    refine ⟨KeyedSet.insert_ordered hord, ?_⟩
    intro u hu
    by_cases hnew : u = m.created
    · rw [hnew]
      exact Nat.lt_succ_self _
    · exact Nat.lt_succ_of_lt (h.known u (hmem u hnew hu))
  refine ⟨rfl, .of_other horderly (Nat.le_succ _) hobjects hmem ?_, ?_⟩
  · exact fun ht => absurd ht.known (Nat.lt_irrefl _)
  · intro hrecurring hcb
    refine ⟨Nat.lt_succ_self _, ?_, ?_⟩
    · rw [hself]
      exact hrecurring
    · intro _
      rw [hself]
      exact hcb

/-- One pass of the collecting loop. -/
theorem collectOne_keeps {m : TimerManager β} (h : m.Orderly) (now : Int) {t : TimerId}
    (ht : t ∈ m.timers) : Keeps m (m.collectOne now t) := by
  have herase := h.erase t
  have hout := notMem_erase h.ordered t
  have hknown := h.known t ht
  unfold collectOne
  simp only
  split
  · next hrecurring =>
    let m₁ : TimerManager β := (m.erase t).modify t (fun x => { x with next := deadline now x.ms })
    have hord : m₁.Ordered := herase.ordered.modify _ hout
    have hmem : ∀ u, u ∈ (m₁.insert t).timers → u ≠ t → u ∈ m.timers := by
      intro u hu hne
      exact List.mem_of_mem_erase ((KeyedSet.mem_of_mem_insert hu).resolve_left hne)
    show Keeps m (m₁.insert t)
    refine .of_other ⟨KeyedSet.insert_ordered hord, ?_⟩ (Nat.le_refl _)
      (fun u hu => Function.update_of_ne hu _ _) (fun u hu hin => hmem u hin hu) ?_
    · intro u hu
      by_cases hne : u = t
      · exact hne ▸ hknown
      · exact h.known u (hmem u hu hne)
    · intro honce
      exact absurd (honce.once.symm.trans hrecurring) (by decide)
  · refine .of_other ⟨herase.ordered.modify_keep rfl, herase.known⟩ (Nat.le_refl _)
      (fun u hu => Function.update_of_ne hu _ _) (fun u _ hin => List.mem_of_mem_erase hin) ?_
    intro honce
    refine ⟨⟨honce.known, ?_, fun hin => absurd hin hout⟩, hout⟩
    rw [modify_same]
    exact honce.once

/-- By induction on the fuel; each pass takes a timer of the set. -/
theorem collectLoop_keeps {now : Int} {rollover : Bool} {fuel : Nat} {m m' : TimerManager β}
    {r : List (TimerId × Option β)} (h : m.Orderly)
    (hrun : collectLoop now rollover fuel m = some (r, m')) : Keeps m m' := by
  induction fuel generalizing m r with
  | zero =>
    rw [collectLoop] at hrun
    split at hrun
    · cases hrun
    · cases hrun
      exact .refl h
  | succ fuel ih =>
    rw [collectLoop] at hrun
    split at hrun
    · cases hrun
      exact .refl h
    · next t hdue =>
      obtain ⟨⟨r', m₁⟩, hrest, heq⟩ := Option.map_eq_some_iff.mp hrun
      cases heq
      have hmem : t ∈ m.timers := by
        unfold due at hdue
        exact List.mem_of_mem_head? (Option.mem_def.mpr (Option.eq_some_of_filter_eq_some hdue))
      have hone := collectOne_keeps h now hmem
      exact hone.trans (ih hone.orderly hrest)

theorem listExpiredCb_keeps {m m' : TimerManager β} {now now' : Int} {fuel : Nat}
    {r : List (TimerId × Option β)} (h : m.Orderly)
    (hrun : m.listExpiredCb now now' fuel = some (r, m')) : Keeps m m' := by
  have hclock : Keeps m { m with previousTime := now' } :=
    ⟨⟨h.ordered, h.known⟩, fun _ ht => ⟨ht.known, ht.once, ht.live⟩, fun _ _ ht => ht⟩
  exact hclock.trans (collectLoop_keeps hclock.orderly hrun)

end CoroutineRpc.Coroutine.TimerManager
