import CoroutineRpc.Coroutine.Timer

/-! The hooked `sleep`, `usleep` and `nanosleep` at the widths of the code: how much of the
requested time is left when it has become the deadline of a timer. -/
namespace CoroutineRpc.Coroutine

/-- A `timespec` that `nanosleep` accepts. -/
structure Timespec where
  tvSec : Int
  tvNsec : Int
  sec_nonneg : 0 ≤ tvSec
  sec_lt : tvSec < 2 ^ 63
  nsec_nonneg : 0 ≤ tvNsec
  nsec_lt : tvNsec < 1000000000

/-- The duration in nanoseconds. -/
def Timespec.ns (req : Timespec) : Int := req.tvSec * 1000000000 + req.tvNsec

/-- The whole milliseconds of the duration. -/
def Timespec.ms (req : Timespec) : Int := req.tvSec * 1000 + req.tvNsec / 1000000

section Sleep
variable {φ : Type}

/-- The hooked `sleep`: the callback of the timer schedules the fiber again. -/
def sleep (m : TimerManager φ) (fiber : φ) (seconds : UInt32) (now : ClockReading) :
    TimerId × Bool × TimerManager φ :=
  m.addTimer (seconds * 1000).toNat (some fiber) false now.ns

def usleep (m : TimerManager φ) (fiber : φ) (usec : UInt32) (now : ClockReading) :
    TimerId × Bool × TimerManager φ :=
  m.addTimer (usec / 1000).toNat (some fiber) false now.ns

/-- The `int` in which `nanosleep` keeps its milliseconds. -/
def timeoutMs (req : Timespec) : Int :=
  int32 (int64 (int64 (req.tvSec * 1000) + req.tvNsec / 1000 / 1000))

def nanosleep (m : TimerManager φ) (fiber : φ) (req : Timespec) (now : ClockReading) :
    TimerId × Bool × TimerManager φ :=
  m.addTimer (uint64 (timeoutMs req)) (some fiber) false now.ns

/-- The timer that a call has made is not due before the clock reading plus the duration. -/
def Lasts (now : ClockReading) (duration : Int) (made : TimerId × Bool × TimerManager φ) : Prop :=
  now.ns + duration ≤ made.2.2.next made.1

instance (now : ClockReading) (duration : Int) (made : TimerId × Bool × TimerManager φ) :
    Decidable (Lasts now duration made) :=
  inferInstanceAs (Decidable (_ ≤ _))

end Sleep

/-- A signed number of milliseconds that was handed over as a `uint64_t`. -/
theorem deadline_uint64 (now ms : Int) :
    deadline now (uint64 ms) = int64 (now + ms * 1000000) := by
  rw [deadline, period, int64_uint64, int64_add_int64, Int.add_comm, ← int64_int64_add,
    int64_int64_mul, int64_int64_add, Int.add_comm]

private theorem TimerManager.addTimer_next {β : Type} (m : TimerManager β) (ms : Nat)
    (cb : Option β) (recurring : Bool) (now : Int) : (m.addTimer ms cb recurring now).2.2.next
      (m.addTimer ms cb recurring now).1 = deadline now ms := by
  show ((Function.update m.objects m.created _) m.created).next = _
  rw [Function.update_self]

/-- A sum that wraps upwards is early; one that wraps downwards is far in the future. -/
theorem ClockReading.add_le_iff (now : ClockReading) {x d : Int} (hlow : -2 ^ 63 ≤ x)
    (hhigh : x < 2 ^ 63) (hd : 0 ≤ d) : now.ns + d ≤ int64 (now.ns + x) ↔
      (d ≤ x ∧ now.ns + x < 2 ^ 63) ∨ (now.ns + x < -2 ^ 63 ∧ d ≤ x + 2 ^ 64) := by
  have hmin := now.low
  have hmax := now.high
  obtain ⟨⟨k, hk⟩, hle, hlt⟩ := int64_spec (now.ns + x)
  rcases lt_or_ge (now.ns + x) (-2 ^ 63) with hdown | hdown
  · have hk' : k = -1 := by omega
    omega
  rcases lt_or_ge (now.ns + x) (2 ^ 63) with hup | hup
  · have hk' : k = 0 := by omega
    omega
  · have hk' : k = 1 := by omega
    omega

section Durations
variable {φ : Type} (m : TimerManager φ) (fiber : φ) (now : ClockReading)

/-- The product of the seconds is one of 32 bits. -/
theorem sleep_lasts_iff (seconds : UInt32) :
    Lasts now (seconds.toNat * 1000000000) (sleep m fiber seconds now) ↔
      seconds.toNat ≤ 4294967 ∧ now.ns + seconds.toNat * 1000000000 < 2 ^ 63 := by
  have hms : (seconds * 1000).toNat = seconds.toNat * 1000 % 2 ^ 32 := UInt32.toNat_mul _ _
  have hseconds : seconds.toNat < 2 ^ 32 := seconds.toNat_lt
  have hlow := now.low
  rw [Lasts, sleep, TimerManager.addTimer_next, deadline_eq, millis, hms,
    now.add_le_iff (by omega) (by omega) (by omega)]
  rcases Nat.lt_or_ge (seconds.toNat * 1000) (2 ^ 32) with hfits | hwraps
  · rw [Nat.mod_eq_of_lt hfits]
    omega
  · have hless : seconds.toNat * 1000 % 2 ^ 32 < seconds.toNat * 1000 :=
      (Nat.mod_lt _ (by decide)).trans_le hwraps
    omega

/-- The division drops what is less than a millisecond. -/
theorem usleep_lasts_iff (usec : UInt32) :
    Lasts now (usec.toNat * 1000) (usleep m fiber usec now) ↔
      1000 ∣ usec.toNat ∧ now.ns + usec.toNat * 1000 < 2 ^ 63 := by
  have hms : (usec / 1000).toNat = usec.toNat / 1000 := UInt32.toNat_div _ _
  have husec : usec.toNat < 2 ^ 32 := usec.toNat_lt
  have hlow := now.low
  rw [Lasts, usleep, TimerManager.addTimer_next, deadline_eq, millis, hms,
    now.add_le_iff (by omega) (by omega) (by omega)]
  omega

private theorem timeoutMs_eq (req : Timespec) : timeoutMs req = int32 req.ms := by
  have hdiv : req.tvNsec / 1000 / 1000 = req.tvNsec / 1000000 := by omega
  rw [timeoutMs, int64_int64_add, int32_int64, hdiv, Timespec.ms]

/-- The narrowing to `int` makes long durations short or negative; a sum with a negative one
that leaves the range wraps around to a time that can be late enough. -/
theorem nanosleep_lasts_iff (req : Timespec) :
    Lasts now req.ns (nanosleep m fiber req now) ↔
      (req.ms < 2 ^ 31 ∧ 1000000 ∣ req.tvNsec ∧ now.ns + req.ns < 2 ^ 63) ∨
        (now.ns + int32 req.ms * 1000000 < -2 ^ 63 ∧
          req.ns ≤ int32 req.ms * 1000000 + 2 ^ 64) := by
  obtain ⟨⟨k, hk⟩, hmin, hmax⟩ := int32_spec req.ms
  have hsec := req.sec_nonneg
  have hnsec := req.nsec_nonneg
  have hnsec' := req.nsec_lt
  have hns : req.ns = req.ms * 1000000 + req.tvNsec % 1000000 := by
    rw [Timespec.ns, Timespec.ms]
    omega
  have hms : 0 ≤ req.ms := by
    rw [Timespec.ms]
    omega
  rw [Lasts, nanosleep, TimerManager.addTimer_next, deadline_uint64, timeoutMs_eq,
    now.add_le_iff (by omega) (by omega) (by omega)]
  apply or_congr_left
  rcases lt_or_ge req.ms (2 ^ 31) with hfits | hnarrow
  · rw [int32_of_fits (by omega) hfits]
    omega
  · omega

end Durations

/-- When the three hooked sleeps last as long as they were asked to. -/
theorem lasts_iff {φ : Type} (m : TimerManager φ) (fiber : φ) (now : ClockReading) :
    (∀ seconds : UInt32, Lasts now (seconds.toNat * 1000000000) (sleep m fiber seconds now) ↔
      seconds.toNat ≤ 4294967 ∧ now.ns + seconds.toNat * 1000000000 < 2 ^ 63) ∧
    (∀ usec : UInt32, Lasts now (usec.toNat * 1000) (usleep m fiber usec now) ↔
      1000 ∣ usec.toNat ∧ now.ns + usec.toNat * 1000 < 2 ^ 63) ∧
    (∀ req : Timespec, Lasts now req.ns (nanosleep m fiber req now) ↔
      (req.ms < 2 ^ 31 ∧ 1000000 ∣ req.tvNsec ∧ now.ns + req.ns < 2 ^ 63) ∨
        (now.ns + int32 req.ms * 1000000 < -2 ^ 63 ∧
          req.ns ≤ int32 req.ms * 1000000 + 2 ^ 64)) :=
  ⟨sleep_lasts_iff m fiber now, usleep_lasts_iff m fiber now, nanosleep_lasts_iff m fiber now⟩

/-- Each of the three can wake early. -/
theorem sleeps_cut_short :
    let m : TimerManager Unit := {}
    let now : ClockReading := ⟨0, by decide, by decide⟩
    ¬ Lasts now (4294968 * 1000000000) (sleep m () 4294968 now) ∧
      ¬ Lasts now (999 * 1000) (usleep m () 999 now) ∧
      ¬ Lasts now (2147484 * 1000000000)
        (nanosleep m () ⟨2147484, 0, by decide, by decide, by decide, by decide⟩ now) := by
  decide

end CoroutineRpc.Coroutine
