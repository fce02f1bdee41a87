import CoroutineRpc.Coroutine.Deadlines
import CoroutineRpc.Coroutine.Draining
import CoroutineRpc.Library.Transition

/-! What waiting for a timer and collecting the timers that are due make of the same set,
after any sequence of calls on its manager, and when they agree. -/
namespace CoroutineRpc.Coroutine

/-- The calls on a manager and its timers, each with its readings of the clock; the collecting
loop has fuel. -/
inductive TimerCall (β : Type) where
  | addTimer (ms : Nat) (cb : Option β) (recurring : Bool) (now : Int)
  | cancel (t : TimerId)
  | refresh (t : TimerId) (now : Int)
  | reset (t : TimerId) (ms : Nat) (fromNow : Bool) (now : Int)
  | getNextTimer (now : Int)
  | listExpiredCb (now now' : Int) (fuel : Nat)

namespace TimerManager
variable {β : Type}

def call (m : TimerManager β) : TimerCall β → Option (TimerManager β)
  | .addTimer ms cb recurring now => some (m.addTimer ms cb recurring now).2.2
  | .cancel t => some (m.cancel t).2
  | .refresh t now => some (m.refresh t now).2
  | .reset t ms fromNow now => some (m.reset t ms fromNow now).2
  | .getNextTimer now => some (m.getNextTimer now).2
  | .listExpiredCb now now' fuel => (m.listExpiredCb now now' fuel).map (·.2)

/-- A manager that has just been constructed. -/
def Constructed (m : TimerManager β) : Prop := ∃ clock, m = { previousTime := clock }

/-- A timer that is outside the set is given a new deadline and taken in. -/
theorem Orderly.rekey {m : TimerManager β} (h : m.Orderly) {t : TimerId}
    (f : Timer β → Timer β) (hout : t ∉ m.timers) (hknown : t < m.created) :
    ((m.modify t f).insert t).Orderly := by
  refine ⟨(rekeyed_insert h.ordered f hout).ordered, ?_⟩
  intro u hu
  rcases KeyedSet.mem_of_mem_insert hu with rfl | hin
  · exact hknown
  · exact h.known u hin

/-- No timer is made or gets a callback, and each deadline is an old one or one of 64 bits. -/
structure Changed (m m' : TimerManager β) : Prop where
  created : m'.created = m.created
  cb : ∀ t, (m'.objects t).cb ≠ none → (m.objects t).cb ≠ none
  next : ∀ t, m'.next t = m.next t ∨ ∃ since ms, m'.next t = deadline since ms

theorem Changed.refl (m : TimerManager β) : Changed m m := ⟨rfl, fun _ h => h, fun _ => Or.inl rfl⟩

theorem Changed.trans {m₁ m₂ m₃ : TimerManager β} (h₁ : Changed m₁ m₂) (h₂ : Changed m₂ m₃) :
    Changed m₁ m₃ := by
  refine ⟨h₂.created.trans h₁.created, fun t ht => h₁.cb t (h₂.cb t ht), fun t => ?_⟩
  rcases h₂.next t with hold | hnew
  · rcases h₁.next t with hold' | ⟨since, ms, hnew'⟩
    · exact Or.inl (hold.trans hold')
    · exact Or.inr ⟨since, ms, hold.trans hnew'⟩
  · exact Or.inr hnew

theorem Changed.modify (m : TimerManager β) (t : TimerId) {f : Timer β → Timer β}
    (hcb : (f (m.objects t)).cb ≠ none → (m.objects t).cb ≠ none)
    (hnext : (f (m.objects t)).next = m.next t ∨
      ∃ since ms, (f (m.objects t)).next = deadline since ms) : Changed m (m.modify t f) := by
  refine ⟨rfl, fun u hu => ?_, fun u => ?_⟩
  · rcases eq_or_ne u t with rfl | hne
    · rw [modify_same] at hu
      exact hcb hu
    · rwa [modify_other m f hne] at hu
  · rcases eq_or_ne u t with rfl | hne
    · rw [TimerManager.next, modify_same]
      exact hnext
    · exact Or.inl (m.next_modify_other f hne)

private theorem cancel_changed (m : TimerManager β) (t : TimerId) : Changed m (m.cancel t).2 :=
  ⟨(m.cancel_self t).2, fun u => (m.cancel_object t u).2.2, fun u => Or.inl (m.cancel_object t u).1⟩

private theorem refresh_changed (m : TimerManager β) (t : TimerId) (now : Int) :
    Changed m (m.refresh t now).2 := by
  rw [refresh]
  split
  · exact .refl m
  · exact .refl m
  · have hmodify := Changed.modify m t (f := fun x => { x with next := deadline now x.ms }) id
      (Or.inr ⟨now, _, rfl⟩)
    exact ⟨hmodify.created, hmodify.cb, hmodify.next⟩

private theorem reset_changed (m : TimerManager β) (t : TimerId) (ms : Nat) (fromNow : Bool)
    (now : Int) : Changed m (m.reset t ms fromNow now).2 := by
  rw [reset]
  split
  · exact .refl m
  rw [resetErase]
  cases (m.objects t).cb with
  | none => exact .refl m
  | some cb =>
    cases m.find t with
    | none => exact .refl m
    | some it =>
      have hmodify := Changed.modify m t
        (f := fun x => { x with ms := ms, next := deadline (x.start fromNow now) ms }) id
        (Or.inr ⟨_, _, rfl⟩)
      exact ⟨hmodify.created, hmodify.cb, hmodify.next⟩

private theorem collectOne_changed (m : TimerManager β) (now : Int) (t : TimerId) :
    Changed m (m.collectOne now t) := by
  rw [collectOne]
  split
  · have hmodify := Changed.modify m t (f := fun x => { x with next := deadline now x.ms }) id
      (Or.inr ⟨now, _, rfl⟩)
    exact ⟨hmodify.created, hmodify.cb, hmodify.next⟩
  · have hmodify := Changed.modify m t (f := fun x => { x with cb := none })
      (fun hx => absurd rfl hx) (Or.inl rfl)
    exact ⟨hmodify.created, hmodify.cb, hmodify.next⟩

private theorem collectLoop_changed {now : Int} {rollover : Bool} {fuel : Nat}
    {m m' : TimerManager β}
    {r : List (TimerId × Option β)} (hrun : collectLoop now rollover fuel m = some (r, m')) :
    Changed m m' := by
  induction fuel generalizing m r with
  | zero =>
    rw [collectLoop] at hrun
    split at hrun
    · cases hrun
    · cases hrun
      exact .refl _
  | succ fuel ih =>
    rw [collectLoop] at hrun
    split at hrun
    · cases hrun
      exact .refl _
    · obtain ⟨⟨r', m₁⟩, hrest, heq⟩ := Option.map_eq_some_iff.mp hrun
      cases heq
      exact (collectOne_changed m now _).trans (ih hrest)

/-- The set is in order, timers with callbacks exist, and deadlines are those of 64 bits. -/
structure Sane (m : TimerManager β) : Prop where
  orderly : m.Orderly
  live : ∀ t, (m.objects t).cb ≠ none → t < m.created
  range : ∀ t, -2 ^ 63 ≤ m.next t ∧ m.next t < 2 ^ 63

theorem Sane.changed {m m' : TimerManager β} (h : m.Sane) (horderly : m'.Orderly)
    (hchanged : Changed m m') : m'.Sane := by
  refine ⟨horderly, fun t ht => ?_, fun t => ?_⟩
  · rw [hchanged.created]
    exact h.live t (hchanged.cb t ht)
  · rcases hchanged.next t with hold | ⟨since, ms, hnew⟩
    · rw [hold]
      exact h.range t
    · rw [hnew]
      exact deadline_range since ms

private theorem refresh_orderly {m : TimerManager β} (h : m.Sane) (t : TimerId) (now : Int) :
    (m.refresh t now).2.Orderly := by
  rw [refresh]
  split
  · exact h.orderly
  · exact h.orderly
  · next cb it hcb hfind =>
    apply (h.orderly.erase it).rekey _ (notMem_erase_found h.orderly.ordered hfind)
    exact h.live t (by rw [hcb]; exact Option.some_ne_none cb)

private theorem reset_orderly {m : TimerManager β} (h : m.Sane) (t : TimerId) (ms : Nat)
    (fromNow : Bool) (now : Int) : (m.reset t ms fromNow now).2.Orderly := by
  rw [reset]
  split
  · exact h.orderly
  rw [resetErase]
  cases hcb : (m.objects t).cb with
  | none => exact h.orderly
  | some cb =>
    cases hfind : m.find t with
    | none => exact h.orderly
    | some it =>
      have hrekey := (h.orderly.erase it).rekey
        (fun x => { x with ms := ms, next := deadline (x.start fromNow now) ms })
        (notMem_erase_found h.orderly.ordered hfind)
        (h.live t (by rw [hcb]; exact Option.some_ne_none cb))
      exact ⟨hrekey.ordered, hrekey.known⟩

/-- What every call keeps. -/
theorem call_sane {m m' : TimerManager β} {c : TimerCall β} (h : m.Sane)
    (hcall : m.call c = some m') : m'.Sane := by
  cases c with
  | addTimer ms cb recurring now =>
    cases hcall
    refine ⟨(addTimer_spec h.orderly ms cb recurring now).2.1.orderly, fun t ht => ?_, fun t => ?_⟩
    · rcases eq_or_ne t m.created with rfl | hne
      · exact Nat.lt_succ_self _
      · have hold : (m.made ms cb recurring now).objects t = m.objects t := modify_other _ _ hne
        change ((m.made ms cb recurring now).objects t).cb ≠ none at ht
        rw [hold] at ht
        exact Nat.lt_succ_of_lt (h.live t ht)
    · show -2 ^ 63 ≤ (m.made ms cb recurring now).next t ∧
        (m.made ms cb recurring now).next t < 2 ^ 63
      rcases eq_or_ne t m.created with rfl | hne
      · rw [made_next_self]
        exact deadline_range now ms
      · rw [made, next_modify_other _ _ hne]
        exact h.range t
  | cancel t =>
    cases hcall
    exact h.changed (cancel_keeps h.orderly t).orderly (m.cancel_changed t)
  | refresh t now =>
    cases hcall
    exact h.changed (refresh_orderly h t now) (m.refresh_changed t now)
  | reset t ms fromNow now =>
    cases hcall
    exact h.changed (reset_orderly h t ms fromNow now) (m.reset_changed t ms fromNow now)
  | getNextTimer now =>
    cases hcall
    rw [getNextTimer_manager]
    exact ⟨⟨h.orderly.ordered, h.orderly.known⟩, h.live, h.range⟩
  | listExpiredCb now now' fuel =>
    obtain ⟨⟨r, m₁⟩, hrun, heq⟩ := Option.map_eq_some_iff.mp hcall
    cases heq
    have hclock : Changed m { m with previousTime := now' } :=
      ⟨rfl, fun _ ht => ht, fun _ => Or.inl rfl⟩
    exact h.changed (listExpiredCb_keeps h.orderly hrun).orderly
      (hclock.trans (collectLoop_changed hrun))

/-- In every state that a history of calls reaches. -/
theorem reachable_sane {m : TimerManager β} (h : Transition.Reachable call Constructed m) :
    m.Sane := by
  obtain ⟨start, calls, ⟨clock, rfl⟩, hrun⟩ := h
  have hstart : Sane (β := β) { previousTime := clock } :=
    ⟨⟨List.Pairwise.nil, fun _ ht => absurd ht List.not_mem_nil⟩, fun _ ht => absurd rfl ht,
      fun _ => show (-2 ^ 63 : Int) ≤ 0 ∧ (0 : Int) < 2 ^ 63 by decide⟩
  exact Transition.inv_of_run (fun _ _ _ => call_sane) hstart hrun

/-- The earliest deadline. -/
def Earliest (m : TimerManager β) (d : Int) : Prop :=
  ∃ t ∈ m.timers, m.next t = d ∧ ∀ u ∈ m.timers, d ≤ m.next u

/-- The first timer has it. -/
theorem earliest_iff {m : TimerManager β} (hord : m.Ordered) {d : Int} :
    m.Earliest d ↔ ∃ t ts, m.timers = t :: ts ∧ m.next t = d := by
  constructor
  · rintro ⟨u, hu, rfl, hfirst⟩
    cases htimers : m.timers with
    | nil =>
      rw [htimers] at hu
      cases hu
    | cons t ts =>
      rw [Ordered, htimers] at hord
      rw [htimers] at hu hfirst
      refine ⟨t, ts, rfl, ?_⟩
      rcases List.mem_cons.mp hu with rfl | hu
      · rfl
      · exact absurd (hfirst t List.mem_cons_self) (not_le.mpr (hord.head u hu))
  · rintro ⟨t, ts, htimers, rfl⟩
    rw [Ordered, htimers] at hord
    rw [Earliest, htimers]
    refine ⟨t, List.mem_cons_self, rfl, ?_⟩
    intro u hu
    rcases List.mem_cons.mp hu with rfl | hu
    · exact le_refl _
    · exact (hord.head u hu).le

private theorem getNextTimer_nil {m : TimerManager β} (h : m.timers = []) (now : Int) :
    (m.getNextTimer now).1 = noTimer := by simp [getNextTimer, h]

/-- `getNextTimer` looks at the first timer. -/
theorem getNextTimer_cons {m : TimerManager β} {t : TimerId} {ts : List TimerId}
    (h : m.timers = t :: ts) (now : Int) : (m.getNextTimer now).1 =
      if m.next t ≤ now then 0 else uint64 ((int64 (m.next t - now)).tdiv 1000000) := by
  simp only [getNextTimer, h, List.head?_cons]
  show (if m.next t ≤ now then (0, _) else (_, _) : Nat × TimerManager β).1 = _
  split
  · rfl
  · rfl

/-- The time to a deadline, in milliseconds: from 2⁶³ ns on the difference becomes negative, and
less than a millisecond below 2⁶⁴ ns it becomes zero. -/
theorem wait_cases {ns : Int} (hpos : 0 < ns) (hlt : ns < 2 ^ 64) :
    (ns < 2 ^ 63 ∧ uint64 ((int64 ns).tdiv 1000000) = (ns / 1000000).toNat) ∨
    (2 ^ 64 - 1000000 < ns ∧ uint64 ((int64 ns).tdiv 1000000) = 0) ∨
    (2 ^ 63 ≤ ns ∧ ns ≤ 2 ^ 64 - 1000000 ∧ 2 ^ 63 ≤ uint64 ((int64 ns).tdiv 1000000)) := by
  rcases lt_or_ge ns (2 ^ 63) with hsmall | hlarge
  · have hfits : int64 ns = ns := int64_of_fits (by omega) hsmall
    have hcount : ns.tdiv 1000000 = ns / 1000000 := Int.tdiv_eq_ediv_of_nonneg (by omega)
    refine Or.inl ⟨hsmall, ?_⟩
    rw [hfits, hcount, uint64]
    omega
  · have hwrap : int64 ns = -(2 ^ 64 - ns) := by
      obtain ⟨⟨k, hk⟩, hlow, hhigh⟩ := int64_spec ns
      omega
    have hcount : (int64 ns).tdiv 1000000 = -((2 ^ 64 - ns) / 1000000) := by
      rw [hwrap, Int.neg_tdiv, Int.tdiv_eq_ediv_of_nonneg (by omega)]
    rw [hcount, uint64]
    omega

/-- What a pass has appended: the callbacks of the timers that were due, each once and in the
order of their deadlines. -/
structure Appended (m : TimerManager β) (now : Int) (r : List (TimerId × Option β)) : Prop where
  once : (r.map (·.1)).Nodup
  due : ∀ t, t ∈ r.map (·.1) ↔ t ∈ m.timers ∧ m.next t ≤ now
  sorted : (r.map (·.1)).Pairwise (fun t u => m.next t ≤ m.next u)
  callbacks : r.map (·.2) = (r.map (·.1)).map (fun t => (m.objects t).cb)

/-- At that reading of the clock waiting and collecting agree: the set is strictly ordered,
`getNextTimer` waits at most until the earliest deadline, and a pass without rollover ends with
exactly the timers that are due. -/
structure Agrees (m : TimerManager β) (now : Int) : Prop where
  ordered : m.Ordered ∧ m.timers.Nodup
  empty : (m.getNextTimer now).1 = noTimer ↔ m.timers = []
  early : ∀ d, m.Earliest d → now < d → now + millis (m.getNextTimer now).1 ≤ d
  due : ∀ d, m.Earliest d → d ≤ now → (m.getNextTimer now).1 = 0
  collects : ∀ now' : ClockReading, (m.detectClockRollover now'.ns).1 = false →
    ∃ fuel r m', m.listExpiredCb now now'.ns fuel = some (r, m') ∧ Appended m now r ∧
      ∀ t ∈ m.timers, now < m.next t → t ∈ m'.timers ∧ m'.objects t = m.objects t

/-- The time to the earliest deadline fits into 64 bits, or is short of 2⁶⁴ ns by less than a
millisecond; and each recurring timer that is due gets a deadline after now, or is dropped for one
with its deadline. -/
structure Representable (m : TimerManager β) (now : Int) : Prop where
  wait : ∀ d, m.Earliest d → d - now < 2 ^ 63 ∨ 2 ^ 64 - 1000000 < d - now
  again : Exhausts now false m

private theorem wanted_false {m : TimerManager β} {now : Int} {t : TimerId} :
    m.Wanted now false t ↔ m.next t ≤ now := by simp [Wanted]

/-- A pass that ends with each timer collected once has collected those that were due. -/
theorem listExpiredCb_spec {m : TimerManager β} (hord : m.Ordered) {now now' : Int}
    (hclock : (m.detectClockRollover now').1 = false) (h : Exhausts now false m) :
    ∃ fuel r m', m.listExpiredCb now now' fuel = some (r, m') ∧ Appended m now r ∧
      ∀ t ∈ m.timers, now < m.next t → t ∈ m'.timers ∧ m'.objects t = m.objects t := by
  let clocked : TimerManager β := { m with previousTime := now' }
  have hord' : clocked.Ordered := hord
  have hexhausts : Exhausts now false clocked := h
  obtain ⟨r, m', hrun, hnodup, hmem⟩ := collectLoop_of_exhausts hord' hexhausts (le_refl _)
  obtain ⟨hsorted, hcallbacks⟩ := collectLoop_order hord' hrun hnodup (fun u hu => (hmem u hu).1)
  refine ⟨(clocked.wanted now false).length, r, m', ?_,
    ⟨hnodup, fun t => ⟨fun ht => ?_, ?_⟩, hsorted, hcallbacks⟩, ?_⟩
  · rw [listExpiredCb]
    change collectLoop now (m.detectClockRollover now').1 _ clocked = _
    rw [hclock]
    exact hrun
  · exact ⟨(hmem t ht).1, wanted_false.mp (hmem t ht).2⟩
  · rintro ⟨ht, hdue⟩
    exact collected_of_wanted hord' hrun ht (wanted_false.mpr hdue)
  · intro t ht hlate
    exact collectLoop_stays hord' hrun ht (fun hw => absurd (wanted_false.mp hw) (not_le.mpr hlate))

/-- After any calls, waiting and collecting agree exactly where the times fit. -/
theorem agrees_iff {m : TimerManager β} (h : Transition.Reachable call Constructed m)
    (now : ClockReading) : m.Agrees now.ns ↔ m.Representable now.ns := by
  have hsane := reachable_sane h
  have hord := hsane.orderly.ordered
  have hlow := now.low
  have hhigh := now.high
  constructor
  · intro hagrees
    constructor
    · intro d hd
      obtain ⟨t, ts, htimers, rfl⟩ := (earliest_iff hord).mp hd
      have hrange := hsane.range t
      rcases le_or_gt (m.next t) now.ns with hdue | hlate
      · exact Or.inl (by omega)
      have hearly := hagrees.early (m.next t) hd hlate
      rw [getNextTimer_cons htimers, if_neg (not_le.mpr hlate), millis] at hearly
      rcases wait_cases (show 0 < m.next t - now.ns by omega) (by omega) with
        ⟨hfits, -⟩ | ⟨hwraps, -⟩ | ⟨-, -, hlong⟩
      · exact Or.inl hfits
      · exact Or.inr hwraps
      · omega
    · let latest : ClockReading := ⟨2 ^ 63 - 1, by decide, by decide⟩
      have hclock : (m.detectClockRollover latest.ns).1 = false := by
        have hless := (int64_spec (m.previousTime - millis (60 * 60 * 1000))).2.2
        have hlatest : latest.ns = 2 ^ 63 - 1 := rfl
        exact decide_eq_false (by omega)
      obtain ⟨fuel, r, m', hrun, happended, -⟩ := hagrees.collects latest hclock
      have hord' : Ordered ({ m with previousTime := latest.ns } : TimerManager β) := hord
      have hloop : collectLoop now.ns false fuel { m with previousTime := latest.ns } =
          some (r, m') := by
        rw [← hclock]
        exact hrun
      have hexhausts := exhausts_of_collectLoop hord' hloop happended.once
      exact hexhausts
  · intro hfits
    refine ⟨⟨hord, hord.nodup⟩, ?_, ?_, ?_, fun now' hclock => ?_⟩
    · cases htimers : m.timers with
      | nil => exact iff_of_true (getNextTimer_nil htimers _) rfl
      | cons t ts =>
        refine iff_of_false ?_ (List.cons_ne_nil t ts)
        have hrange := hsane.range t
        have hwait := hfits.wait _ ((earliest_iff hord).mpr ⟨t, ts, htimers, rfl⟩)
        rw [getNextTimer_cons htimers, noTimer]
        split
        · decide
        · rcases wait_cases (show 0 < m.next t - now.ns by omega) (by omega) with
            ⟨-, hvalue⟩ | ⟨-, hvalue⟩ | ⟨hge, hle, -⟩
          · omega
          · omega
          · omega
    · intro d hd hlate
      have hwait := hfits.wait d hd
      obtain ⟨t, ts, htimers, rfl⟩ := (earliest_iff hord).mp hd
      have hrange := hsane.range t
      rw [getNextTimer_cons htimers, if_neg (not_le.mpr hlate), millis]
      rcases wait_cases (show 0 < m.next t - now.ns by omega) (by omega) with
        ⟨-, hvalue⟩ | ⟨-, hvalue⟩ | ⟨hge, hle, -⟩
      · omega
      · omega
      · omega
    · intro d hd hdue
      obtain ⟨t, ts, htimers, rfl⟩ := (earliest_iff hord).mp hd
      rw [getNextTimer_cons htimers, if_pos hdue]
    · exact listExpiredCb_spec hord hclock hfits.again

/-- A recurring timer of 1 ms and a timer of 5 ms, added at 0. -/
def twoTimers : TimerManager Nat :=
  let m : TimerManager Nat := { previousTime := 0 }
  ((m.addTimer 1 (some 7) true 0).2.2.addTimer 5 (some 8) false 0).2.2

/-- At 2 ms the first of them is collected and the second stays. -/
theorem two_timers_agree : twoTimers.Agrees 2000000 := by
  have hreach : Transition.Reachable call Constructed twoTimers :=
    ⟨{ previousTime := 0 }, [.addTimer 1 (some 7) true 0, .addTimer 5 (some 8) false 0], ⟨0, rfl⟩,
      rfl⟩
  apply (agrees_iff hreach ⟨2000000, by decide, by decide⟩).mpr
  constructor
  · rintro d ⟨t, ht, rfl, -⟩
    rcases List.mem_pair.mp ht with rfl | rfl
    · exact Or.inl (by decide)
    · exact Or.inl (by decide)
  · intro t ht hwanted hrec hagain
    have hlater : ∀ u ∈ twoTimers.timers, ¬ deadline 2000000 (twoTimers.objects u).ms ≤ 2000000 := by
      decide
    exact absurd hagain (by simpa using hlater t ht)

/-- A recurring timer of 2⁶⁴ - 1000 ms, added at 0. -/
def wrappedPeriod : TimerManager Nat :=
  (({ previousTime := 0 } : TimerManager Nat).addTimer (2 ^ 64 - 1000) (some 7) true 0).2.2

/-- It comes back where it was. -/
private theorem wrapped_collectOne : wrappedPeriod.collectOne 0 0 = wrappedPeriod := by
  have htimers : (wrappedPeriod.collectOne 0 0).timers = wrappedPeriod.timers := by decide
  have hobjects : (wrappedPeriod.collectOne 0 0).objects = wrappedPeriod.objects :=
    Function.update_eq_self 0 wrappedPeriod.objects
  have hrest : wrappedPeriod.collectOne 0 0 = { wrappedPeriod with
      objects := (wrappedPeriod.collectOne 0 0).objects
      timers := (wrappedPeriod.collectOne 0 0).timers } := rfl
  rw [hrest, hobjects, htimers]

/-- Its deadline is a second in the past, and a pass puts it back there without end. -/
theorem wrapped_period_disagrees :
    Transition.Reachable call Constructed wrappedPeriod ∧
      (∀ t ∈ wrappedPeriod.timers, 1 ≤ (wrappedPeriod.objects t).ms) ∧
      (wrappedPeriod.detectClockRollover 0).1 = false ∧
      (∀ fuel, wrappedPeriod.listExpiredCb 0 0 fuel = none) ∧ ¬ wrappedPeriod.Agrees 0 := by
  have hnone : ∀ fuel, collectLoop 0 false fuel wrappedPeriod = none := by
    intro fuel
    induction fuel with
    | zero => rfl
    | succ fuel ih =>
      have hdue : wrappedPeriod.due 0 false = some 0 := by decide
      rw [collectLoop, hdue]
      dsimp only
      rw [wrapped_collectOne, ih]
      rfl
  have hlist : ∀ fuel, wrappedPeriod.listExpiredCb 0 0 fuel = none := hnone
  have hclock : (wrappedPeriod.detectClockRollover 0).1 = false := by decide
  refine ⟨⟨{ previousTime := 0 }, [.addTimer (2 ^ 64 - 1000) (some 7) true 0], ⟨0, rfl⟩, rfl⟩,
    by decide, hclock, hlist, ?_⟩
  intro hagrees
  obtain ⟨fuel, r, m', hrun, -⟩ := hagrees.collects ⟨0, by decide, by decide⟩ hclock
  rw [hlist fuel] at hrun
  cases hrun

end TimerManager
end CoroutineRpc.Coroutine
