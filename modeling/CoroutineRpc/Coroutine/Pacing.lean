import CoroutineRpc.Coroutine.Deadlines
import CoroutineRpc.Coroutine.TimerRace

/-! How often timers fire when many threads use them. However the calls interleave, a timer hands
out its callback at most once in each period, and one that does not recur only once. -/
namespace CoroutineRpc.Coroutine
open TimerManager
variable {ι β : Type}

/-- The times that the clock shows to a step, the last one last. -/
def RaceAction.readings : RaceAction ι β → List Int
  | .addTimer _ _ _ now => [now]
  | .refresh _ now => [now]
  | .update _ now => [now]
  | .getNextTimer now => [now]
  | .listExpiredCb now now' _ => [now, now']
  | _ => []

/-- The periods that a step asks for. -/
def RaceAction.periods : RaceAction ι β → List Nat
  | .addTimer ms _ _ _ => [ms]
  | .reset _ _ ms _ => [ms]
  | _ => []

/-- From there each deadline of at most `longest` milliseconds fits into the 64 bits of the
clock. -/
def Countable (longest : Nat) (since : Int) : Prop := 0 ≤ since ∧ since + millis longest < 2 ^ 63

instance (longest : Nat) (since : Int) : Decidable (Countable longest since) :=
  inferInstanceAs (Decidable (_ ∧ _))

/-- The period asked for is at most `longest`, and the clock has not come so far that such a period
does not fit. -/
def RaceAction.InRange (longest : Nat) (a : RaceAction ι β) : Prop :=
  (∀ now ∈ a.readings, Countable longest now) ∧ ∀ ms ∈ a.periods, ms ≤ longest

instance (longest : Nat) (a : RaceAction ι β) : Decidable (a.InRange longest) :=
  inferInstanceAs (Decidable (_ ∧ _))

/-- The timers whose callbacks a pass hands out. -/
def TimerRace.handedOut (s : TimerRace ι β) : RaceAction ι β → List TimerId
  | .listExpiredCb now now' fuel =>
    match s.manager.listExpiredCb now now' fuel with
    | some r => (r.1.filter (·.2.isSome)).map (·.1)
    | none => []
  | _ => []

/-- A record beside the timers: the latest reading of the clock, when each timer was made, the
shortest period that it has had, and the callbacks that were handed out. -/
structure FiringLog (ι β : Type) where
  race : TimerRace ι β := {}
  clock : Int
  born : TimerId → Int
  shortest : TimerId → Nat := fun _ => 0
  fired : List TimerId := []

namespace FiringLog

def start (clock : Int) : FiringLog ι β where
  race := { manager := { previousTime := clock } }
  clock := clock
  born := fun _ => clock

/-- What is read under the mutex, or when a deadline is about to be written, is not earlier than
what was read before. The other readings may be older. -/
def Steady (s : FiringLog ι β) : RaceAction ι β → Prop
  | .refresh _ now => s.clock ≤ now
  | .update _ now => s.clock ≤ now
  | .getNextTimer now => s.clock ≤ now
  | .listExpiredCb now now' _ => s.clock ≤ now' ∧ now ≤ now'
  | _ => True

instance (s : FiringLog ι β) (a : RaceAction ι β) : Decidable (s.Steady a) := by
  cases a <;> unfold Steady <;> infer_instance

def bornAfter (s : FiringLog ι β) : RaceAction ι β → TimerId → Int
  | .addTimer _ _ _ now => Function.update s.born s.race.manager.created now
  | _ => s.born

def shortestAfter [DecidableEq ι] (s : FiringLog ι β) : RaceAction ι β → TimerId → Nat
  | .addTimer ms _ _ _ => Function.update s.shortest s.race.manager.created ms
  | .update c _ =>
    match s.race.resets c with
    | some r => Function.update s.shortest r.timer (min (s.shortest r.timer) r.ms)
    | none => s.shortest
  | _ => s.shortest

def step [DecidableEq ι] (s : FiringLog ι β) (a : RaceAction ι β) : Option (FiringLog ι β) :=
  if s.Steady a then
    (s.race.step a).map (fun race =>
      { race := race, clock := a.readings.foldl max s.clock, born := s.bornAfter a
        shortest := s.shortestAfter a, fired := s.race.handedOut a ++ s.fired })
  else none

/-- From its making on a timer hands out at most one callback in each period. -/
def Paced (s : FiringLog ι β) : Prop :=
  ∀ t, s.born t + millis (s.shortest t * s.fired.count t) ≤ s.clock ∧
    ((s.race.manager.objects t).recurring = false → s.fired.count t ≤ 1)

end FiringLog

/-- A timer that was made at `born` and has fired `k` times, with periods of at least `p` and at
most `longest`. -/
structure Timer.Pace (x : Timer β) (longest : Nat) (born : Int) (p k : Nat) (clock : Int) :
    Prop where
  bounded : x.ms ≤ longest
  counted : Countable longest (x.next - millis x.ms)
  period : p ≤ x.ms
  armed : x.cb ≠ none → born + millis (p * k) ≤ x.next - millis x.ms
  fired : born + millis (p * k) ≤ clock
  once : x.recurring = false → k ≤ 1 ∧ (x.cb ≠ none → k = 0)

private theorem millis_mono {a b : Nat} (h : a ≤ b) : millis a ≤ millis b := by
  unfold millis
  omega

private theorem millis_mul_succ (p k : Nat) : millis (p * (k + 1)) = millis (p * k) + millis p := by
  unfold millis
  rw [Nat.mul_succ]
  omega

private theorem Countable.millis_lt {longest ms : Nat} {since : Int} (h : Countable longest since)
    (hms : ms ≤ longest) : 0 ≤ since ∧ since + millis ms < 2 ^ 63 := by
  have hle := millis_mono hms
  exact ⟨h.1, by have := h.2; omega⟩

/-- A deadline that is counted from there is the sum. -/
theorem Countable.deadline_eq {longest ms : Nat} {since : Int} (h : Countable longest since)
    (hms : ms ≤ longest) : deadline since ms = since + millis ms := by
  obtain ⟨hpos, hlt⟩ := h.millis_lt hms
  have hmillis := millis_nonneg ms
  exact deadline_of_fits (by omega) hlt

private theorem period_of_fits {ms : Nat} (h : millis ms < 2 ^ 63) : period ms = millis ms := by
  have hmillis := millis_nonneg ms
  rw [period, int64_int64_mul]
  exact int64_of_fits (by rw [millis] at hmillis; omega) h

namespace Timer.Pace
variable {x : Timer β} {longest : Nat} {born clock clock' : Int} {p k : Nat}

theorem later (h : x.Pace longest born p k clock) (hle : clock ≤ clock') :
    x.Pace longest born p k clock' :=
  ⟨h.bounded, h.counted, h.period, h.armed, h.fired.trans hle, h.once⟩

private theorem mute (h : x.Pace longest born p k clock) :
    Pace (β := β) { x with cb := none } longest born p k clock :=
  ⟨h.bounded, h.counted, h.period, fun hcb => absurd rfl hcb, h.fired,
    fun hr => ⟨(h.once hr).1, fun hcb => absurd rfl hcb⟩⟩

/-- The deadline is counted from a time that is not earlier than any before, or from where it was
counted from. -/
theorem rearm (h : x.Pace longest born p k clock) {ms : Nat} (hms : ms ≤ longest) {since : Int}
    (hcount : Countable longest since) (hsince : clock ≤ since ∨ since = x.next - millis x.ms) :
    { x with ms := ms, next := deadline since ms }.Pace longest born (min p ms) k clock := by
  have hp : millis (min p ms * k) ≤ millis (p * k) :=
    millis_mono (Nat.mul_le_mul_right k (Nat.min_le_left p ms))
  have hfired := h.fired
  have hback : deadline since ms - millis ms = since := by
    rw [hcount.deadline_eq hms]
    omega
  refine ⟨hms, ?_, Nat.min_le_right p ms, fun hcb => ?_, by omega, h.once⟩
  · change Countable longest (deadline since ms - millis ms)
    rwa [hback]
  · have harmed := h.armed hcb
    change _ ≤ deadline since ms - millis ms
    omega

/-- A pass that takes the timer with its callback, with a reading that may be older. -/
theorem fire (h : x.Pace longest born p k clock) {now : Int} (hdue : x.next ≤ now)
    (hcb : x.cb ≠ none) : born + millis (p * (k + 1)) ≤ now := by
  have harmed := h.armed hcb
  have hperiod := millis_mono h.period
  rw [millis_mul_succ]
  omega

/-- A recurring timer is put back with a deadline that is counted from the reading. -/
theorem collectedObject_next (h : x.Pace longest born p k clock) {now : Int}
    (hcount : Countable longest now) :
    deadline now x.ms - millis x.ms = now := by
  rw [hcount.deadline_eq h.bounded]
  omega

/-- Where the period that ends with the deadline began. -/
theorem start_eq (h : x.Pace longest born p k clock) :
    int64 (x.next - Coroutine.period x.ms) = x.next - millis x.ms := by
  obtain ⟨hpos, hlt⟩ := h.counted.millis_lt h.bounded
  have hmillis := millis_nonneg x.ms
  rw [period_of_fits (by omega)]
  exact int64_of_fits (by omega) (by omega)

private theorem fire_some (h : x.Pace longest born p k clock) {now : Int}
    (hcount : Countable longest now)
    (hdue : x.next ≤ now) (hnow : now ≤ clock) (hcb : x.cb ≠ none) :
    (TimerManager.collectedObject now x).Pace longest born p (k + 1) clock := by
  have hfired := h.fire hdue hcb
  have hback := h.collectedObject_next hcount
  unfold TimerManager.collectedObject
  split
  · next hr =>
    refine ⟨h.bounded, ?_, h.period, fun _ => ?_, hfired.trans hnow, fun hr' => ?_⟩
    · change Countable longest (deadline now x.ms - millis x.ms)
      rwa [hback]
    · change _ ≤ deadline now x.ms - millis x.ms
      rwa [hback]
    · cases hr.symm.trans hr'
  · next hr =>
    refine ⟨h.bounded, h.counted, h.period, fun hcb => absurd rfl hcb, hfired.trans hnow,
      fun _ => ⟨?_, fun hcb => absurd rfl hcb⟩⟩
    rw [(h.once (Bool.eq_false_of_not_eq_true hr)).2 hcb]

/-- A cancelled timer that was put back hands out nothing. -/
theorem fire_none (h : x.Pace longest born p k clock) {now : Int} (hcount : Countable longest now)
    (hcb : x.cb = none) : (TimerManager.collectedObject now x).Pace longest born p k clock := by
  unfold TimerManager.collectedObject
  split
  · refine ⟨h.bounded, ?_, h.period, fun hne => absurd hcb hne, h.fired, h.once⟩
    change Countable longest (deadline now x.ms - millis x.ms)
    rwa [h.collectedObject_next hcount]
  · exact h.mute

end Timer.Pace

namespace TimerManager
variable {m m' : TimerManager β} {now clock born : Int} {longest p k : Nat}

/-- The callbacks of one timer among those that are handed out. -/
def firings (t : TimerId) (r : List (TimerId × Option β)) : Nat :=
  ((r.filter (·.2.isSome)).map (·.1)).count t

private theorem firings_cons (t u : TimerId) (cb : Option β) (r : List (TimerId × Option β)) :
    firings t ((u, cb) :: r) = firings t r + if u = t ∧ cb ≠ none then 1 else 0 := by
  cases cb with
  | none => simp [firings]
  | some cb =>
    by_cases hu : u = t
    · simp [firings, hu]
    · simp [firings, hu]

/-- One pass of the loop keeps the pace of every timer. -/
theorem collectOne_pace {t u : TimerId} (h : (m.objects t).Pace longest born p k clock)
    (hcount : Countable longest now) (hdue : m.next u ≤ now) (hnow : now ≤ clock) :
    ((m.collectOne now u).objects t).Pace longest born p
      (k + if u = t ∧ (m.objects u).cb ≠ none then 1 else 0) clock := by
  rw [collectOne_objects]
  rcases eq_or_ne t u with rfl | hne
  · rw [if_pos rfl]
    by_cases hcb : (m.objects t).cb = none
    · rw [if_neg (fun hfire => hfire.2 hcb)]
      exact h.fire_none hcount hcb
    · rw [if_pos ⟨rfl, hcb⟩]
      exact h.fire_some hcount hdue hnow hcb
  · rw [if_neg hne, if_neg (fun hfire => hne hfire.1.symm)]
    exact h

/-- By induction on the fuel, the passes one after the other. -/
theorem collectLoop_pace {fuel : Nat} {r : List (TimerId × Option β)} {t : TimerId}
    (h : (m.objects t).Pace longest born p k clock) (hcount : Countable longest now)
    (hnow : now ≤ clock) (hrun : collectLoop now false fuel m = some (r, m')) :
    (m'.objects t).Pace longest born p (k + firings t r) clock := by
  induction fuel generalizing m r k with
  | zero =>
    rw [collectLoop] at hrun
    split at hrun
    · cases hrun
    · cases hrun
      exact h
  | succ fuel ih =>
    rw [collectLoop] at hrun
    split at hrun
    · cases hrun
      exact h
    · next u hdue =>
      obtain ⟨⟨r', m₁⟩, hrest, heq⟩ := Option.map_eq_some_iff.mp hrun
      cases heq
      have hnext : m.next u ≤ now := by
        have hkept := (Option.filter_eq_some_iff.mp hdue).2
        simpa using hkept
      have hlast := ih (collectOne_pace h hcount hnext hnow) hrest
      have hfirings := (firings_cons t u (m.objects u).cb r').trans (Nat.add_comm _ _)
      rw [Nat.add_assoc, ← hfirings] at hlast
      exact hlast

/-- Without a callback nothing is handed out, and none comes back. -/
theorem collectLoop_silent {rollover : Bool} {fuel : Nat} {r : List (TimerId × Option β)}
    {t : TimerId} (h : (m.objects t).cb = none)
    (hrun : collectLoop now rollover fuel m = some (r, m')) :
    (m'.objects t).cb = none ∧ firings t r = 0 := by
  induction fuel generalizing m r with
  | zero =>
    rw [collectLoop] at hrun
    split at hrun
    · cases hrun
    · cases hrun
      exact ⟨h, rfl⟩
  | succ fuel ih =>
    rw [collectLoop] at hrun
    split at hrun
    · cases hrun
      exact ⟨h, rfl⟩
    · next u _ =>
      obtain ⟨⟨r', m₁⟩, hrest, heq⟩ := Option.map_eq_some_iff.mp hrun
      cases heq
      have hone : ((m.collectOne now u).objects t).cb = none := by
        rw [collectOne_objects, collectedObject]
        split
        · split
          · exact h
          · rfl
        · exact h
      obtain ⟨hcb, hnone⟩ := ih hone hrest
      refine ⟨hcb, ?_⟩
      rw [firings_cons, hnone, if_neg]
      rintro ⟨rfl, hne⟩
      exact hne h

/-- `cancel` only takes the callback of its timer. -/
theorem cancel_object_eq (m : TimerManager β) (t u : TimerId) :
    (m.cancel t).2.objects u = m.objects u ∨
      (m.cancel t).2.objects u = { m.objects u with cb := none } := by
  rcases eq_or_ne u t with rfl | hne
  · unfold cancel
    split
    · exact .inl rfl
    · simp only
      split
      · exact .inr (Function.update_self _ _ _)
      · exact .inr (Function.update_self _ _ _)
  · exact .inl (cancel_objects m t u hne)

private theorem refresh_object_eq (m : TimerManager β) (t u : TimerId) (now : Int) :
    (m.refresh t now).2.objects u = m.objects u ∨
      (m.refresh t now).2.objects u =
        { m.objects u with next := deadline now (m.objects u).ms } := by
  rcases eq_or_ne u t with rfl | hne
  · unfold refresh
    split
    · exact .inl rfl
    · exact .inl rfl
    · exact .inr (Function.update_self _ _ _)
  · unfold refresh
    split
    · exact .inl rfl
    · exact .inl rfl
    · exact .inl (Function.update_of_ne hne _ _)

private theorem refresh_fields (m : TimerManager β) (t : TimerId) (now : Int) :
    (m.refresh t now).2.created = m.created ∧
      (m.refresh t now).2.previousTime = m.previousTime := by
  unfold refresh
  split
  · exact ⟨rfl, rfl⟩
  · exact ⟨rfl, rfl⟩
  · exact ⟨rfl, rfl⟩

private theorem resetErase_eq {t : TimerId} (h : m.resetErase t = some m') :
    ∃ it, m' = m.erase it := by
  unfold resetErase at h
  split at h
  · cases h
  · cases h
  · next it _ _ =>
    cases h
    exact ⟨it, rfl⟩

end TimerManager

namespace FiringLog

private theorem le_foldl_max (readings : List Int) (clock : Int) :
    clock ≤ readings.foldl max clock := by
  induction readings generalizing clock with
  | nil => exact le_refl clock
  | cons now readings ih => exact (le_max_left clock now).trans (ih _)

/-- What holds of every timer, also of those that are not made yet. -/
structure Sound (longest : Nat) (s : FiringLog ι β) : Prop where
  epoch : 0 ≤ s.race.manager.previousTime
  previous : s.race.manager.previousTime ≤ s.clock
  pace : ∀ t, (s.race.manager.objects t).Pace longest (s.born t) (s.shortest t) (s.fired.count t)
    s.clock
  fresh : ∀ t, s.race.manager.created ≤ t →
    (s.race.manager.objects t).cb = none ∧ s.fired.count t = 0
  asked : ∀ c r, s.race.resets c = some r → r.ms ≤ longest

private theorem start_sound {longest : Nat} {clock : Int} (h : Countable longest clock) :
    (start clock : FiringLog ι β).Sound longest := by
  have hzero : (0 : Int) + millis longest < 2 ^ 63 := lt_of_le_of_lt (Int.add_le_add_right h.1 _) h.2
  have hcounted : Countable longest ((0 : Int) - millis 0) := by
    rw [millis, Nat.cast_zero, zero_mul, sub_zero]
    exact ⟨le_refl 0, hzero⟩
  refine ⟨h.1, le_refl clock, fun t => ?_, fun _ _ => ⟨rfl, rfl⟩, fun _ _ hr => by cases hr⟩
  refine ⟨Nat.zero_le _, hcounted, Nat.zero_le _, fun hcb => absurd rfl hcb, ?_,
    fun _ => ⟨Nat.zero_le 1, fun _ => rfl⟩⟩
  change clock + millis (0 * 0) ≤ clock
  simp [millis]

private theorem Sound.paced {longest : Nat} {s : FiringLog ι β} (h : s.Sound longest) : s.Paced :=
  fun t => ⟨(h.pace t).fired, fun hr => ((h.pace t).once hr).1⟩

/-- What a timer of the manager becomes keeps its pace, and no callback comes from nowhere. -/
def Slower (longest : Nat) (m m' : TimerManager β) (clock : Int) : Prop :=
  ∀ t, (∀ born p k, (m.objects t).Pace longest born p k clock →
      (m'.objects t).Pace longest born p k clock) ∧
    ((m.objects t).cb = none → (m'.objects t).cb = none)

section Calls
variable {longest : Nat}

theorem Slower.of_objects {m m' : TimerManager β} (h : m'.objects = m.objects) (clock : Int) :
    Slower longest m m' clock := by
  intro t
  rw [h]
  exact ⟨fun _ _ _ hpace => hpace, id⟩

/-- A step that makes no timer, changes no period and hands out nothing. -/
theorem Sound.keep {s : FiringLog ι β} (h : s.Sound longest) {race : TimerRace ι β} {clock : Int}
    (hslower : Slower longest s.race.manager race.manager s.clock) (hclock : s.clock ≤ clock)
    (hprevious : race.manager.previousTime = s.race.manager.previousTime)
    (hcreated : race.manager.created = s.race.manager.created)
    (hasked : ∀ c r, race.resets c = some r → r.ms ≤ longest) :
    Sound longest { s with race := race, clock := clock } := by
  refine ⟨?_, ?_, fun t => ?_, fun t ht => ?_, hasked⟩
  · exact h.epoch.trans (le_of_eq hprevious.symm)
  · exact (le_of_eq hprevious).trans (h.previous.trans hclock)
  · exact ((hslower t).1 _ _ _ (h.pace t)).later hclock
  · obtain ⟨hcb, hcount⟩ := h.fresh t (hcreated ▸ ht)
    exact ⟨(hslower t).2 hcb, hcount⟩

private theorem cancel_slower (m : TimerManager β) (t : TimerId) (clock : Int) :
    Slower longest m (m.cancel t).2 clock := by
  intro u
  rcases m.cancel_object_eq t u with heq | heq
  · rw [heq]
    exact ⟨fun _ _ _ hpace => hpace, id⟩
  · rw [heq]
    exact ⟨fun _ _ _ hpace => hpace.mute, fun _ => rfl⟩

private theorem refresh_slower (m : TimerManager β) (t : TimerId) {now clock : Int}
    (hcount : Countable longest now) (hnow : clock ≤ now) :
    Slower longest m (m.refresh t now).2 clock := by
  intro u
  rcases m.refresh_object_eq t u now with heq | heq
  · rw [heq]
    exact ⟨fun _ _ _ hpace => hpace, id⟩
  · rw [heq]
    refine ⟨fun born p k hpace => ?_, id⟩
    have hrearm := hpace.rearm hpace.bounded hcount (.inl hnow)
    rw [Nat.min_eq_left hpace.period] at hrearm
    exact hrearm

/-- A new timer has fired never. -/
theorem Sound.addTimer {s : FiringLog ι β} (h : s.Sound longest) {ms : Nat} (cb : Option β)
    (recurring : Bool) {now : Int} (hms : ms ≤ longest) (hcountable : Countable longest now) :
    Sound longest
      { s with
        race := s.race.setManager (s.race.manager.addTimer ms cb recurring now).2.2
        clock := max s.clock now
        born := Function.update s.born s.race.manager.created now
        shortest := Function.update s.shortest s.race.manager.created ms } := by
  have hclock := le_max_left s.clock now
  have hback : deadline now ms - millis ms = now := by
    rw [hcountable.deadline_eq hms]
    omega
  refine ⟨h.epoch, h.previous.trans hclock, fun t => ?_, fun t ht => ?_, h.asked⟩
  · rcases eq_or_ne t s.race.manager.created with rfl | hne
    · have hcount := (h.fresh _ (Nat.le_refl _)).2
      simp only [Function.update_self, hcount]
      have hobject : (s.race.manager.addTimer ms cb recurring now).2.2.objects
          s.race.manager.created =
          { recurring := recurring, ms := ms, next := deadline now ms, cb := cb } :=
        Function.update_self _ _ _
      change Timer.Pace ((s.race.manager.addTimer ms cb recurring now).2.2.objects _) _ _ _ _ _
      rw [hobject]
      refine ⟨hms, ?_, Nat.le_refl ms, fun _ => ?_, ?_, fun _ => ⟨Nat.zero_le 1, fun _ => rfl⟩⟩
      · change Countable longest (deadline now ms - millis ms)
        rwa [hback]
      · change now + millis (ms * 0) ≤ deadline now ms - millis ms
        rw [hback]
        simp [millis]
      · simp [millis]
    · have hobject : (s.race.manager.addTimer ms cb recurring now).2.2.objects t =
          s.race.manager.objects t := Function.update_of_ne hne _ _
      change Timer.Pace ((s.race.manager.addTimer ms cb recurring now).2.2.objects t) _ _ _ _ _
      simp only [Function.update_of_ne hne]
      rw [hobject]
      exact (h.pace t).later hclock
  · have ht : s.race.manager.created + 1 ≤ t := ht
    have hne : t ≠ s.race.manager.created := by omega
    obtain ⟨hcb, hcount⟩ := h.fresh t (by omega)
    have hobject : (s.race.manager.addTimer ms cb recurring now).2.2.objects t =
        s.race.manager.objects t := Function.update_of_ne hne _ _
    refine ⟨?_, hcount⟩
    change ((s.race.manager.addTimer ms cb recurring now).2.2.objects t).cb = none
    rw [hobject]
    exact hcb

/-- The unlocked part of `reset` gives the timer another period. -/
theorem Sound.update {s : FiringLog ι β} (h : s.Sound longest) {r : Reset} {now : Int}
    (hms : r.ms ≤ longest) (hcountable : Countable longest now) (hnow : s.clock ≤ now)
    {resets : ι → Option Reset} (hasked : ∀ c r, resets c = some r → r.ms ≤ longest) : Sound longest
      { s with
        race := { s.race with
          manager := s.race.manager.resetUpdate r.timer r.ms r.fromNow now, resets := resets }
        clock := max s.clock now
        shortest := Function.update s.shortest r.timer (min (s.shortest r.timer) r.ms) } := by
  have hclock := le_max_left s.clock now
  have hother : ∀ t, t ≠ r.timer →
      (s.race.manager.resetUpdate r.timer r.ms r.fromNow now).objects t =
        s.race.manager.objects t := fun t hne => Function.update_of_ne hne _ _
  have hself : (s.race.manager.resetUpdate r.timer r.ms r.fromNow now).objects r.timer =
      { s.race.manager.objects r.timer with
        ms := r.ms
        next := deadline ((s.race.manager.objects r.timer).start r.fromNow now) r.ms } :=
    Function.update_self _ _ _
  refine ⟨h.epoch, h.previous.trans hclock, fun t => ?_, fun t ht => ?_, hasked⟩
  · rcases eq_or_ne t r.timer with rfl | hne
    · have hpace := h.pace r.timer
      simp only [Function.update_self]
      rw [hself]
      rcases Bool.eq_false_or_eq_true r.fromNow with hfrom | hfrom
      · have hstart : (s.race.manager.objects r.timer).start r.fromNow now = now := by
          simp only [Timer.start, hfrom, if_true]
        rw [hstart]
        exact (hpace.rearm hms hcountable (.inl hnow)).later hclock
      · have hstart : (s.race.manager.objects r.timer).start r.fromNow now =
            (s.race.manager.objects r.timer).next - millis (s.race.manager.objects r.timer).ms := by
          simp only [Timer.start, hfrom, Bool.false_eq_true, if_false]
          exact hpace.start_eq
        rw [hstart]
        exact (hpace.rearm hms hpace.counted (.inr rfl)).later hclock
    · simp only [Function.update_of_ne hne]
      rw [hother t hne]
      exact (h.pace t).later hclock
  · obtain ⟨hcb, hcount⟩ := h.fresh t ht
    refine ⟨?_, hcount⟩
    rcases eq_or_ne t r.timer with rfl | hne
    · change ((s.race.manager.resetUpdate r.timer r.ms r.fromNow now).objects r.timer).cb = none
      rw [hself]
      exact hcb
    · change ((s.race.manager.resetUpdate r.timer r.ms r.fromNow now).objects t).cb = none
      rw [hother t hne]
      exact hcb

/-- A pass under the mutex, whose first reading may be older than it. -/
theorem Sound.listExpiredCb {s : FiringLog ι β} (h : s.Sound longest) {now now' : Int} {fuel : Nat}
    (hcountable : Countable longest now) (hclock : s.clock ≤ now') (hnow : now ≤ now')
    {r : List (TimerId × Option β)} {m : TimerManager β}
    (hrun : s.race.manager.listExpiredCb now now' fuel = some (r, m)) (revived : List TimerId) :
    Sound longest
      { s with
        race := { s.race with manager := m, revived := revived }
        clock := max (max s.clock now) now'
        fired := (r.filter (·.2.isSome)).map (·.1) ++ s.fired } := by
  have hlatest : max (max s.clock now) now' = now' := max_eq_right (max_le hclock hnow)
  have hepoch := h.epoch
  have hforward : (s.race.manager.detectClockRollover now').1 = false :=
    detectClockRollover_false (le_trans (by decide) hepoch) (h.previous.trans hclock)
  have hloop : collectLoop now false fuel { s.race.manager with previousTime := now' } =
      some (r, m) := by
    rw [← hforward]
    exact hrun
  have hcount : ∀ t, List.count t ((r.filter (·.2.isSome)).map (·.1) ++ s.fired) =
      s.fired.count t + firings t r := fun t => List.count_append.trans (Nat.add_comm _ _)
  obtain ⟨hcreated, hprevious, -⟩ := collectLoop_fields hloop
  refine ⟨?_, ?_, fun t => ?_, fun t ht => ?_, h.asked⟩
  · exact (hepoch.trans (h.previous.trans hclock)).trans (le_of_eq hprevious.symm)
  · simp only [hlatest]
    exact le_of_eq hprevious
  · have hpace := (h.pace t).later hclock
    simp only [hlatest, hcount]
    exact collectLoop_pace (m := { s.race.manager with previousTime := now' }) hpace hcountable hnow
      hloop
  · obtain ⟨hcb, hnone⟩ := h.fresh t (hcreated ▸ ht)
    obtain ⟨hcb', hsilent⟩ :=
      collectLoop_silent (m := { s.race.manager with previousTime := now' }) hcb hloop
    simp only [hcount]
    exact ⟨hcb', by rw [hnone, hsilent]⟩

end Calls

section Step
variable [DecidableEq ι]

private theorem asked_setReset {longest : Nat} {s : FiringLog ι β} (h : s.Sound longest)
    (c : ι) (new : Option Reset) (hnew : ∀ r, new = some r → r.ms ≤ longest) :
    ∀ c' r, Function.update s.race.resets c new c' = some r → r.ms ≤ longest := by
  intro c' r hc'
  rcases eq_or_ne c' c with rfl | hne
  · rw [Function.update_self] at hc'
    exact hnew r hc'
  · rw [Function.update_of_ne hne] at hc'
    exact h.asked c' r hc'

theorem step_sound {longest : Nat} {s t : FiringLog ι β} {a : RaceAction ι β} (h : s.Sound longest)
    (hrange : a.InRange longest) (hstep : s.step a = some t) : t.Sound longest := by
  obtain ⟨hsteady, hstep⟩ := Option.ite_none_right_eq_some.mp hstep
  obtain ⟨race, hrace, rfl⟩ := Option.map_eq_some_iff.mp hstep
  have hnow := le_foldl_max a.readings s.clock
  obtain ⟨hreadings, hperiods⟩ := hrange
  cases a with
  | addTimer ms cb recurring now =>
    cases hrace
    exact h.addTimer cb recurring (hperiods ms List.mem_cons_self) (hreadings now List.mem_cons_self)
  | cancel t =>
    obtain ⟨-, heq⟩ := Option.ite_none_right_eq_some.mp hrace
    cases heq
    exact h.keep (cancel_slower _ t _) (le_refl _) (cancel_previous _ t) (cancel_self _ t).2 h.asked
  | refresh t now =>
    obtain ⟨-, heq⟩ := Option.ite_none_right_eq_some.mp hrace
    cases heq
    refine h.keep (refresh_slower _ t (hreadings now List.mem_cons_self) hsteady) hnow ?_ ?_ h.asked
    · exact (refresh_fields _ t now).2
    · exact (refresh_fields _ t now).1
  | reset c t ms fromNow =>
    obtain ⟨-, heq⟩ := Option.ite_none_right_eq_some.mp hrace
    cases heq
    have hmanager : (s.race.reset c t ms fromNow).manager = s.race.manager := by
      unfold TimerRace.reset
      split
      · rfl
      · rfl
    refine h.keep (.of_objects (congrArg _ hmanager) _) (le_refl _) (congrArg _ hmanager)
      (congrArg _ hmanager) ?_
    unfold TimerRace.reset
    split
    · exact h.asked
    · exact asked_setReset h c (some _) (fun _ hr => by cases hr; exact hperiods ms List.mem_cons_self)
  | erase c =>
    obtain ⟨r, hc, hr⟩ := Option.bind_eq_some_iff.mp hrace
    unfold TimerRace.resetStep at hr
    split at hr
    · split at hr
      · cases hr
        exact h.keep (.of_objects rfl _) (le_refl _) rfl rfl
          (asked_setReset h _ none (fun _ hr => by cases hr))
      · next m herase =>
        cases hr
        obtain ⟨it, rfl⟩ := resetErase_eq herase
        exact h.keep (.of_objects rfl _) (le_refl _) rfl rfl
          (asked_setReset h _ (some { r with stage := .updating })
            (fun _ hr => by cases hr; exact h.asked _ r hc))
    · next hact _ => cases hact
    · next hact _ => cases hact
    · cases hr
  | update c now =>
    obtain ⟨r, hc, hr⟩ := Option.bind_eq_some_iff.mp hrace
    unfold TimerRace.resetStep at hr
    split at hr
    · next hact _ => cases hact
    · next c' now' hact _ =>
      cases hact
      cases hr
      have hshortest : s.shortestAfter (.update c now) =
          Function.update s.shortest r.timer (min (s.shortest r.timer) r.ms) := by
        simp only [shortestAfter, hc]
      rw [hshortest]
      exact h.update (h.asked c r hc) (hreadings now List.mem_cons_self) hsteady
        (asked_setReset h _ (some { r with stage := .inserting })
          (fun _ hr => by cases hr; exact h.asked _ r hc))
    · next hact _ => cases hact
    · cases hr
  | insert c =>
    obtain ⟨r, -, hr⟩ := Option.bind_eq_some_iff.mp hrace
    unfold TimerRace.resetStep at hr
    split at hr
    · next hact _ => cases hact
    · next hact _ => cases hact
    · cases hr
      exact h.keep (.of_objects rfl _) (le_refl _) rfl rfl
        (asked_setReset h _ none (fun _ hr => by cases hr))
    · cases hr
  | getNextTimer now =>
    cases hrace
    have hmanager := getNextTimer_manager s.race.manager now
    have hprevious := congrArg previousTime hmanager
    have hcreated := congrArg created hmanager
    exact h.keep (.of_objects (congrArg objects hmanager) _) hnow hprevious hcreated h.asked
  | listExpiredCb now now' fuel =>
    obtain ⟨⟨r, m⟩, hrun, rfl⟩ := Option.map_eq_some_iff.mp hrace
    have hfired : s.race.handedOut (.listExpiredCb now now' fuel) =
        (r.filter (·.2.isSome)).map (·.1) := by
      simp only [TimerRace.handedOut, hrun]
    rw [hfired]
    exact h.listExpiredCb (hreadings now List.mem_cons_self) hsteady.1 hsteady.2 hrun _

/-- Whatever the threads do with times in range, no timer fires faster than its shortest period,
and one that does not recur fires at most once. -/
theorem always_paced (longest : Nat) {clock : Int} (hclock : Countable longest clock)
    {as : List (RaceAction ι β)} (hrange : ∀ a ∈ as, a.InRange longest) :
    Transition.Always step Paced (start clock : FiringLog ι β) as := by
  have hguarded : Transition.Guarded step (fun _ a => a.InRange longest)
      (start clock : FiringLog ι β) as :=
    Transition.guarded_of_forall (fun a ha _ => hrange a ha) _
  have hsound : Transition.Always step (Sound longest) (start clock : FiringLog ι β) as :=
    Transition.always_of_guarded (fun s a t hs ha hstep => step_sound hs ha hstep)
      (start_sound hclock) hguarded
  exact hsound.mono (fun s hs => hs.paced)

end Step

/-- A timer with a period of two milliseconds, and three passes. -/
def twiceInFive : List (RaceAction Nat Nat) :=
  [.addTimer 2 (some 7) true 0, .listExpiredCb 2000000 2000001 5, .listExpiredCb 3000000 3000000 5,
    .listExpiredCb 5000000 5000000 5]

/-- It has fired twice after five milliseconds. -/
theorem paced_twice_in_five : Transition.Always step Paced (start 0) twiceInFive ∧
    (Transition.run step (start 0) twiceInFive).map (fun s => (s.fired, s.shortest 0)) =
      some ([0, 0], 2) :=
  ⟨always_paced 2 (by decide) (by decide), by decide +kernel⟩

end FiringLog
end CoroutineRpc.Coroutine
