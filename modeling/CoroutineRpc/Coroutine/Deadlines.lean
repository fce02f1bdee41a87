import CoroutineRpc.Coroutine.TimerLife
import Mathlib.Order.MinMax

/-! How the earliest deadline in `m_timers` moves. Only a timer that is added can bring it forward,
and then comes to the front, and one whose `refresh` wraps around. -/
namespace CoroutineRpc.Coroutine.TimerManager
variable {β : Type}

/-- The set is in order, the clock counts from the epoch and has not gone back, timers with
callbacks exist, and deadlines are those of 64 bits. -/
structure Timely (now : Nat) (m : TimerManager β) : Prop where
  orderly : m.Orderly
  epoch : 0 ≤ m.previousTime
  previous : m.previousTime ≤ now
  live : ∀ t, (m.objects t).cb ≠ none → t < m.created
  range : ∀ t, m.next t < 2 ^ 63

/-- Every deadline that is still to come has one of the first set before it. -/
def NoEarlier (now : Nat) (m m' : TimerManager β) : Prop :=
  ∀ t ∈ m'.timers, ∃ u ∈ m.timers, m.next u ≤ max (m'.next t) now

/-- A wait that ends at `d` ends by the earliest deadline, or by now if that has passed. -/
def EndsBy (now : Nat) (m : TimerManager β) (d : Int) : Prop :=
  ∀ t ∈ m.timers, d ≤ max (m.next t) now

/-- The first timer decides. -/
theorem endsBy_iff_head {m : TimerManager β} (h : m.Ordered) (now : Nat) (d : Int) :
    EndsBy now m d ↔ ∀ t, m.timers.head? = some t → d ≤ max (m.next t) now := by
  constructor
  · intro hall t ht
    exact hall t (List.mem_of_mem_head? ht)
  · intro hhead t ht
    cases htimers : m.timers with
    | nil =>
      rw [htimers] at ht
      cases ht
    | cons u us =>
      rw [Ordered, htimers] at h
      have hfirst := hhead u (by rw [htimers]; rfl)
      rw [htimers] at ht
      rcases List.mem_cons.mp ht with rfl | hin
      · exact hfirst
      · exact hfirst.trans (max_le_max (h.head t hin).le (le_refl _))

private theorem NoEarlier.of_subset {now : Nat} {m m' : TimerManager β}
    (hmem : ∀ t ∈ m'.timers, t ∈ m.timers) (hnext : ∀ t ∈ m'.timers, m'.next t = m.next t) :
    NoEarlier now m m' :=
  fun t ht => ⟨t, hmem t ht, hnext t ht ▸ le_max_left _ _⟩

theorem NoEarlier.trans {now : Nat} {m₁ m₂ m₃ : TimerManager β} (h₁ : NoEarlier now m₁ m₂)
    (h₂ : NoEarlier now m₂ m₃) : NoEarlier now m₁ m₃ := by
  intro t ht
  obtain ⟨u, hu, hle⟩ := h₂ t ht
  obtain ⟨v, hv, hle'⟩ := h₁ u hu
  exact ⟨v, hv, hle'.trans (max_le hle (le_max_right _ _))⟩

theorem Timely.same {now : Nat} {m : TimerManager β} (h : Timely now m) :
    Timely now m ∧ NoEarlier now m m := ⟨h, .of_subset (fun _ ht => ht) (fun _ _ => rfl)⟩

theorem EndsBy.noEarlier {now : Nat} {d : Int} {m m' : TimerManager β} (h : EndsBy now m d)
    (hn : NoEarlier now m m') : EndsBy now m' d := by
  intro t ht
  obtain ⟨u, hu, hle⟩ := hn t ht
  exact (h u hu).trans (max_le hle (le_max_right _ _))

theorem EndsBy.later {now now' : Nat} {d : Int} {m : TimerManager β} (h : EndsBy now m d)
    (hle : now ≤ now') : EndsBy now' m d :=
  fun t ht => (h t ht).trans (max_le_max (le_refl _) (Int.ofNat_le.mpr hle))

theorem Timely.later {now now' : Nat} {m : TimerManager β} (h : Timely now m) (hle : now ≤ now') :
    Timely now' m := by
  exact ⟨h.orderly, h.epoch, h.previous.trans (Int.ofNat_le.mpr hle), h.live, h.range⟩

theorem getNextTimer_timely {now : Nat} {m : TimerManager β} (h : Timely now m) :
    Timely now (m.getNextTimer now).2 ∧ NoEarlier now m (m.getNextTimer now).2 := by
  rw [getNextTimer_manager]
  exact ⟨⟨⟨h.orderly.ordered, h.orderly.known⟩, h.epoch, h.previous, h.live, h.range⟩,
    .of_subset (fun _ ht => ht) (fun _ _ => rfl)⟩

/-- `cancel` takes away the callback of its timer. -/
theorem cancel_object (m : TimerManager β) (t u : TimerId) :
    (m.cancel t).2.next u = m.next u ∧ ((m.cancel t).2.objects u).ms = (m.objects u).ms ∧
      (((m.cancel t).2.objects u).cb ≠ none → (m.objects u).cb ≠ none) := by
  rcases eq_or_ne u t with rfl | hu
  · simp only [cancel]
    split
    · exact ⟨rfl, rfl, id⟩
    split
    · simp [next]
    · simp [next]
  · rw [next, m.cancel_objects t u hu]
    exact ⟨rfl, rfl, id⟩

theorem cancel_previous (m : TimerManager β) (t : TimerId) :
    (m.cancel t).2.previousTime = m.previousTime := by
  simp only [cancel]
  split
  · rfl
  split
  · rfl
  · rfl

theorem cancel_timely {now : Nat} {m : TimerManager β} (h : Timely now m) (t : TimerId) :
    Timely now (m.cancel t).2 ∧ NoEarlier now m (m.cancel t).2 := by
  have hkeeps := cancel_keeps h.orderly t
  have hcreated := (m.cancel_self t).2
  have hprevious := m.cancel_previous t
  refine ⟨⟨hkeeps.orderly, hprevious ▸ h.epoch, hprevious ▸ h.previous, ?_, ?_⟩, ?_⟩
  · intro u hu
    rw [hcreated]
    exact h.live u ((m.cancel_object t u).2.2 hu)
  · intro u
    rw [(m.cancel_object t u).1]
    exact h.range u
  · apply NoEarlier.of_subset _ (fun u _ => (m.cancel_object t u).1)
    intro u hu
    rcases eq_or_ne (m.objects t).cb none with hcb | hcb
    · rwa [cancel, hcb] at hu
    · exact (cancel_timers h.orderly hcb).2.2 u hu

/-- A timer outside the set is given a new deadline and taken in. -/
theorem rekey_timely {now : Nat} {m : TimerManager β} (h : Timely now m) {t : TimerId}
    {f : Timer β → Timer β} (hout : t ∉ m.timers) (hknown : t < m.created)
    (hrange : (f (m.objects t)).next < 2 ^ 63) : Timely now ((m.modify t f).insert t) := by
  have hord := KeyedSet.insert_ordered (x := t) (h.orderly.ordered.modify f hout)
  refine ⟨⟨hord, ?_⟩, h.epoch, h.previous, ?_, ?_⟩
  · intro u hu
    rcases KeyedSet.mem_of_mem_insert hu with rfl | hin
    · exact hknown
    · exact h.orderly.known u hin
  · intro u hu
    rcases eq_or_ne u t with rfl | hne
    · exact hknown
    · rw [insert_objects, modify_other m f hne] at hu
      exact h.live u hu
  · intro u
    rw [next, insert_objects]
    rcases eq_or_ne u t with rfl | hne
    · rw [modify_same]
      exact hrange
    · rw [modify_other m f hne]
      exact h.range u

private theorem erase_timely {now : Nat} {m : TimerManager β} (h : Timely now m) (t : TimerId) :
    Timely now (m.erase t) := ⟨h.orderly.erase t, h.epoch, h.previous, h.live, h.range⟩

/-- Re-keying a timer in place of one that is not due before it. -/
theorem rekey_noEarlier {now : Nat} {m : TimerManager β} {t u : TimerId} {f : Timer β → Timer β}
    (hu : u ∈ m.timers) (hnext : m.next u ≤ max (f (m.objects t)).next now) :
    NoEarlier now m (((m.erase u).modify t f).insert t) := by
  intro v hv
  have hobjects : (((m.erase u).modify t f).insert t).objects =
      Function.update m.objects t (f (m.objects t)) := rfl
  rcases eq_or_ne v t with rfl | hne
  · refine ⟨u, hu, ?_⟩
    show m.next u ≤ max ((((m.erase u).modify v f).insert v).objects v).next now
    rwa [hobjects, Function.update_self]
  · refine ⟨v, List.mem_of_mem_erase ((KeyedSet.mem_of_mem_insert hv).resolve_left hne), ?_⟩
    show m.next v ≤ max ((((m.erase u).modify t f).insert t).objects v).next now
    rw [hobjects, Function.update_of_ne hne]
    exact le_max_left _ _

theorem refresh_timely {now : Nat} {m : TimerManager β} (h : Timely now m) (t : TimerId)
    (hlater : m.next t ≤ deadline now (m.objects t).ms) :
    Timely now (m.refresh t now).2 ∧ NoEarlier now m (m.refresh t now).2 := by
  unfold refresh
  split
  · exact h.same
  · exact h.same
  · next cb it hcb hfind =>
    obtain ⟨hit, hkey⟩ := KeyedSet.find_some hfind
    have hknown := h.live t (by rw [hcb]; exact Option.some_ne_none cb)
    have hout := notMem_erase_found h.orderly.ordered hfind
    have hrange := (deadline_range now (m.objects t).ms).2
    refine ⟨rekey_timely (erase_timely h it) hout hknown (by simpa only [erase_objects] using hrange), ?_⟩
    apply rekey_noEarlier hit
    rw [hkey]
    dsimp only
    exact le_max_of_le_left hlater

/-- The loop takes timers that are due, and gives a recurring one its next deadline. -/
theorem collectOne_timely {now : Nat} {seen : Int} {m : TimerManager β} (h : Timely now m)
    (hseen : seen ≤ now) {t : TimerId} (ht : t ∈ m.timers) (hdue : m.next t ≤ seen) :
    Timely now (m.collectOne seen t) ∧ NoEarlier now m (m.collectOne seen t) := by
  have hout := notMem_erase h.orderly.ordered t
  simp only [collectOne]
  split
  · refine ⟨rekey_timely (erase_timely h t) hout (h.orderly.known t ht)
      (deadline_range seen (m.objects t).ms).2, ?_⟩
    apply rekey_noEarlier ht
    exact le_max_of_le_right (hdue.trans hseen)
  · have herase := erase_timely h t
    have hnext : ∀ u, ((m.erase t).modify t (fun x => { x with cb := none })).next u = m.next u := by
      intro u
      rcases eq_or_ne u t with rfl | hne
      · rw [next, modify_same]
        rfl
      · exact next_modify_other _ _ hne
    refine ⟨⟨⟨herase.orderly.ordered.modify_keep rfl, herase.orderly.known⟩, h.epoch, h.previous, ?_,
      ?_⟩, ?_⟩
    · intro u hu
      rcases eq_or_ne u t with rfl | hne
      · rw [modify_same] at hu
        exact absurd rfl hu
      · rw [modify_other _ _ hne] at hu
        exact h.live u hu
    · intro u
      rw [hnext]
      exact h.range u
    · exact NoEarlier.of_subset (fun u hu => List.mem_of_mem_erase hu) (fun u _ => hnext u)

private theorem collectLoop_timely {now : Nat} {seen : Int} {fuel : Nat} {m m' : TimerManager β}
    {r : List (TimerId × Option β)} (h : Timely now m) (hseen : seen ≤ now)
    (hrun : collectLoop seen false fuel m = some (r, m')) :
    Timely now m' ∧ NoEarlier now m m' := by
  induction fuel generalizing m r with
  | zero =>
    rw [collectLoop] at hrun
    split at hrun
    · cases hrun
    · cases hrun
      exact h.same
  | succ fuel ih =>
    rw [collectLoop] at hrun
    split at hrun
    · cases hrun
      exact h.same
    · next t hdue =>
      obtain ⟨⟨r', m₁⟩, hrest, heq⟩ := Option.map_eq_some_iff.mp hrun
      cases heq
      obtain ⟨hhead, hnext⟩ := Option.filter_eq_some_iff.mp hdue
      have hmem : t ∈ m.timers := List.mem_of_mem_head? (Option.mem_def.mpr hhead)
      have hone := collectOne_timely h hseen hmem (by simpa using hnext)
      have hrest := ih hone.1 hrest
      exact ⟨hrest.1, hone.2.trans hrest.2⟩

/-- The clock has not gone back, so only timers that are due are collected. -/
theorem listExpiredCb_timely {now : Nat} {seen : Int} {fuel : Nat} {m m' : TimerManager β}
    {r : List (TimerId × Option β)} (h : Timely now m) (hseen : seen ≤ now)
    (hrun : m.listExpiredCb seen now fuel = some (r, m')) :
    Timely now m' ∧ NoEarlier now m m' := by
  have hlow : -2 ^ 63 + millis (60 * 60 * 1000) ≤ m.previousTime := le_trans (by decide) h.epoch
  have hrollover := detectClockRollover_false hlow h.previous
  have hloop : collectLoop seen false fuel { m with previousTime := (now : Int) } = some (r, m') := by
    rw [← hrollover]
    exact hrun
  have hclock : Timely now { m with previousTime := (now : Int) } :=
    ⟨⟨h.orderly.ordered, h.orderly.known⟩, Int.natCast_nonneg now, le_refl _, h.live, h.range⟩
  have hloop' := collectLoop_timely hclock hseen hloop
  exact hloop'

/-- The next deadline is not before the end of a wait that begins now. -/
theorem endsBy_getNextTimer {now : Nat} {m : TimerManager β} (h : Timely now m) {timeout : Nat}
    (hle : timeout ≤ (m.getNextTimer now).1) : EndsBy now m (now + millis timeout) := by
  rw [endsBy_iff_head h.orderly.ordered]
  intro t ht
  simp only [getNextTimer, ht] at hle
  change timeout ≤ (if m.next t ≤ now then _ else _ : Nat × TimerManager β).1 at hle
  split at hle
  · obtain rfl : timeout = 0 := Nat.le_zero.mp hle
    refine le_max_of_le_right ?_
    simp [millis]
  · next hlate =>
    have hrange := h.range t
    have hfits : int64 (m.next t - now) = m.next t - now := int64_of_fits (by omega) (by omega)
    have hcount : (m.next t - now).tdiv 1000000 = (m.next t - now) / 1000000 :=
      Int.tdiv_eq_ediv_of_nonneg (by omega)
    change timeout ≤ uint64 ((int64 (m.next t - now)).tdiv 1000000) at hle
    rw [hfits, hcount, uint64] at hle
    refine le_max_of_le_left ?_
    unfold millis
    omega

section AddTimer
variable {now : Nat} {seen : Int} {m : TimerManager β} (ms : Nat) (cb : Option β) (recurring : Bool)

/-- The manager with the new timer made but not yet taken in. -/
def made (m : TimerManager β) (ms : Nat) (cb : Option β) (recurring : Bool) (seen : Int) :
    TimerManager β :=
  { m with created := m.created + 1 }.modify m.created
    (fun _ => { recurring := recurring, ms := ms, next := deadline seen ms, cb := cb })

theorem made_next_self : (m.made ms cb recurring seen).next m.created = deadline seen ms := by
  rw [next, made, modify_same]

private theorem made_next (h : m.Orderly) {t : TimerId} (ht : t ∈ m.timers) :
    (m.made ms cb recurring seen).next t = m.next t :=
  next_modify_other _ _ (Nat.ne_of_lt (h.known t ht))

theorem addTimer_timely (h : Timely now m) :
    Timely now (m.addTimer ms cb recurring seen).2.2 := by
  refine ⟨(addTimer_spec h.orderly ms cb recurring seen).2.1.orderly, h.epoch, h.previous, ?_, ?_⟩
  · intro t ht
    change ((m.made ms cb recurring seen).objects t).cb ≠ none at ht
    show t < m.created + 1
    rcases eq_or_ne t m.created with rfl | hne
    · exact Nat.lt_succ_self _
    · rw [made, modify_other _ _ hne] at ht
      exact Nat.lt_succ_of_lt (h.live t ht)
  · intro t
    show (m.made ms cb recurring seen).next t < 2 ^ 63
    rcases eq_or_ne t m.created with rfl | hne
    · rw [made_next_self]
      exact (deadline_range _ _).2
    · rw [made, next_modify_other _ _ hne]
      exact h.range t

/-- A timer that does not come to the front brings no deadline forward. -/
theorem endsBy_addTimer (h : m.Orderly) {d : Int} (hends : EndsBy now m d)
    (hhead : (m.addTimer ms cb recurring seen).2.2.timers.head? = m.timers.head?) :
    EndsBy now (m.addTimer ms cb recurring seen).2.2 d := by
  have hord := (addTimer_spec h ms cb recurring seen).2.1.orderly.ordered
  rw [endsBy_iff_head hord, hhead]
  intro t ht
  have hin := List.mem_of_mem_head? ht
  have hnext : (m.addTimer ms cb recurring seen).2.2.next t = m.next t := made_next ms cb recurring h hin
  rw [hnext]
  exact hends t hin

/-- A timer whose `tickle` is not due, with the flag down, has not come to the front. -/
theorem addTimer_behind (hflag : m.tickled = false)
    (hfront : (m.addTimer ms cb recurring seen).2.1 = false) :
    (m.addTimer ms cb recurring seen).2.2.timers.head? = m.timers.head? := by
  let m₁ := m.made ms cb recurring seen
  change (((KeyedSet.insert m₁.next m.created m.timers).head?.map m₁.next).any
    (· = m₁.next m.created) && !m.tickled) = false at hfront
  refine (KeyedSet.head_insert m₁.next m.created m.timers).resolve_left ?_
  intro hhead
  rw [hhead, hflag] at hfront
  simp at hfront

/-- Nor has one that is not the first of the set. -/
theorem addTimer_head_or (m : TimerManager β) (seen : Int) :
    (m.addTimer ms cb recurring seen).2.2.timers.head? = some m.created ∨
      (m.addTimer ms cb recurring seen).2.2.timers.head? = m.timers.head? :=
  KeyedSet.head_insert _ _ _

end AddTimer

end CoroutineRpc.Coroutine.TimerManager
