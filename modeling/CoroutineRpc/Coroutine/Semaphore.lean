import CoroutineRpc.Library.Simulation
import CoroutineRpc.Library.Sums
import Mathlib.Data.Fintype.Basic

/-! The semaphore that the threads synchronize with: a counter under a mutex, and a condition
variable that may also wake its waiters for no reason. -/
namespace CoroutineRpc.Coroutine
open Transition

/-- Where a thread is in `wait` or `signal`. -/
inductive SemPc where
  | out
  | waitLock
  | waitTest
  | asleep
  | waking
  | waitTake
  | signalLock
  | signalAdd
  | signalNotify
  | unlocking
  deriving DecidableEq, Repr

/-- The last two fields only record how often each thread has decremented and incremented. -/
structure Semaphore (ι : Type) where
  count : Int := 0
  mtx : Option ι := none
  pc : ι → SemPc := fun _ => .out
  taken : ι → Nat := fun _ => 0
  added : ι → Nat := fun _ => 0

/-- The two calls, and the statements inside of them. -/
inductive SemAction (ι : Type) where
  | wait (i : ι)
  | signal (i : ι)
  | lock (i : ι)
  | test (i : ι)
  | take (i : ι)
  | spurious (i : ι)
  | add (i : ι)
  | notify (i : ι) (woken : Option ι)
  | unlock (i : ι)
  deriving DecidableEq, Repr

namespace SemPc

/-- The thread is between the lock and the unlock of `mtx`. -/
def inside : SemPc → Bool
  | .waitTest | .waitTake | .signalAdd | .signalNotify | .unlocking => true
  | _ => false

/-- What a thread does with the mutex that it is waiting for. -/
def locked : SemPc → Option SemPc
  | .waitLock | .waking => some .waitTest
  | .signalLock => some .signalAdd
  | _ => none

/-- A call of `wait` that has not decremented yet. -/
def waits : SemPc → Bool
  | .waitLock | .waitTest | .asleep | .waking | .waitTake => true
  | _ => false

/-- A call of `signal` that has not incremented yet. -/
def owes : SemPc → Bool
  | .signalLock | .signalAdd => true
  | _ => false

/-- A waiter that will look at the counter, or a signal that will wake one up. -/
def alert : SemPc → Bool
  | .waitTest | .waking | .waitTake | .signalNotify => true
  | _ => false

end SemPc

namespace Semaphore
variable {ι : Type} [DecidableEq ι]

def goto (s : Semaphore ι) (i : ι) (pc : SemPc) : Semaphore ι :=
  { s with pc := Function.update s.pc i pc }

/-- `notify_one`: one of the sleeping threads, or nobody if none sleeps. -/
def notifyOne [Fintype ι] (s : Semaphore ι) : Option ι → Option (Semaphore ι)
  | some j => if s.pc j = .asleep then some (s.goto j .waking) else none
  | none => if ∀ j, s.pc j ≠ .asleep then some s else none

def step [Fintype ι] (s : Semaphore ι) : SemAction ι → Option (Semaphore ι)
  | .wait i => if s.pc i = .out then some (s.goto i .waitLock) else none
  | .signal i => if s.pc i = .out then some (s.goto i .signalLock) else none
  | .lock i =>
    if s.mtx = none then (s.pc i).locked.map fun pc => { s.goto i pc with mtx := some i } else none
  | .test i =>
    if s.pc i = .waitTest then
      -- `cv.wait` lets go of the mutex
      if s.count = 0 then some { s.goto i .asleep with mtx := none } else some (s.goto i .waitTake)
    else none
  | .take i =>
    if s.pc i = .waitTake then some { s.goto i .unlocking with
      count := s.count - 1, taken := Function.update s.taken i (s.taken i + 1) } else none
  | .spurious i => if s.pc i = .asleep then some (s.goto i .waking) else none
  | .add i =>
    if s.pc i = .signalAdd then some { s.goto i .signalNotify with
      count := s.count + 1, added := Function.update s.added i (s.added i + 1) } else none
  | .notify i woken =>
    if s.pc i = .signalNotify then (s.goto i .unlocking).notifyOne woken else none
  | .unlock i => if s.pc i = .unlocking then some { s.goto i .out with mtx := none } else none

/-- The threads inside the mutex: its holder and nobody else. -/
def Exclusive (s : Semaphore ι) : Prop := ∀ i, (s.pc i).inside = true ↔ s.mtx = some i

variable [Fintype ι]

/-- The threads that will look at the counter or wake somebody up. -/
def alerts (s : Semaphore ι) : Nat := (Finset.univ.filter (fun i => (s.pc i).alert)).card

/-- The counter is right, a thread that is past its test may decrement it, and nobody sleeps
while more is there than the others are going to take. -/
structure Sound (initial : Int) (s : Semaphore ι) : Prop where
  exclusive : s.Exclusive
  balance : s.count + (∑ i, s.taken i : Nat) = initial + (∑ i, s.added i : Nat)
  nonneg : 0 ≤ s.count
  tested : ∀ i, s.pc i = .waitTake → s.count ≠ 0
  awake : ∀ i, s.pc i = .asleep → s.count ≤ s.alerts

/-- Every way in which a step changes the state. -/
inductive StepTo (s : Semaphore ι) : SemAction ι → Semaphore ι → Prop
  | wait {i : ι} (pc : s.pc i = .out) : StepTo s (.wait i) (s.goto i .waitLock)
  | signal {i : ι} (pc : s.pc i = .out) : StepTo s (.signal i) (s.goto i .signalLock)
  | lock {i : ι} {pc : SemPc} (free : s.mtx = none) (locked : (s.pc i).locked = some pc) :
    StepTo s (.lock i) { s.goto i pc with mtx := some i }
  | sleep {i : ι} (pc : s.pc i = .waitTest) (zero : s.count = 0) :
    StepTo s (.test i) { s.goto i .asleep with mtx := none }
  | pass {i : ι} (pc : s.pc i = .waitTest) (nonzero : s.count ≠ 0) :
    StepTo s (.test i) (s.goto i .waitTake)
  | take {i : ι} (pc : s.pc i = .waitTake) : StepTo s (.take i) { s.goto i .unlocking with
      count := s.count - 1, taken := Function.update s.taken i (s.taken i + 1) }
  | spurious {i : ι} (pc : s.pc i = .asleep) : StepTo s (.spurious i) (s.goto i .waking)
  | add {i : ι} (pc : s.pc i = .signalAdd) : StepTo s (.add i) { s.goto i .signalNotify with
      count := s.count + 1, added := Function.update s.added i (s.added i + 1) }
  | notify {i j : ι} (pc : s.pc i = .signalNotify) (asleep : s.pc j = .asleep) (other : j ≠ i) :
    StepTo s (.notify i (some j)) ((s.goto i .unlocking).goto j .waking)
  | nobody {i : ι} (pc : s.pc i = .signalNotify) (nobody : ∀ j, s.pc j ≠ .asleep) :
    StepTo s (.notify i none) (s.goto i .unlocking)
  | unlock {i : ι} (pc : s.pc i = .unlocking) :
    StepTo s (.unlock i) { s.goto i .out with mtx := none }

omit [Fintype ι] in
@[simp] theorem goto_same (s : Semaphore ι) (i : ι) (pc : SemPc) : (s.goto i pc).pc i = pc :=
  Function.update_self _ _ _

omit [Fintype ι] in
theorem goto_other (s : Semaphore ι) {i j : ι} (h : j ≠ i) (pc : SemPc) :
    (s.goto i pc).pc j = s.pc j := Function.update_of_ne h _ _

theorem step_to {s t : Semaphore ι} {a : SemAction ι} (h : step s a = some t) : StepTo s a t := by
  cases a with
  | wait i =>
    obtain ⟨hpc, h⟩ := Option.ite_none_right_eq_some.mp h
    cases h
    exact .wait hpc
  | signal i =>
    obtain ⟨hpc, h⟩ := Option.ite_none_right_eq_some.mp h
    cases h
    exact .signal hpc
  | lock i =>
    obtain ⟨hfree, h⟩ := Option.ite_none_right_eq_some.mp h
    obtain ⟨pc, hpc, rfl⟩ := Option.map_eq_some_iff.mp h
    exact .lock hfree hpc
  | test i =>
    obtain ⟨hpc, h⟩ := Option.ite_none_right_eq_some.mp h
    split at h
    · next hzero =>
      cases h
      exact .sleep hpc hzero
    · next hnonzero =>
      cases h
      exact .pass hpc hnonzero
  | take i =>
    obtain ⟨hpc, h⟩ := Option.ite_none_right_eq_some.mp h
    cases h
    exact .take hpc
  | spurious i =>
    obtain ⟨hpc, h⟩ := Option.ite_none_right_eq_some.mp h
    cases h
    exact .spurious hpc
  | add i =>
    obtain ⟨hpc, h⟩ := Option.ite_none_right_eq_some.mp h
    cases h
    exact .add hpc
  | notify i woken =>
    obtain ⟨hpc, h⟩ := Option.ite_none_right_eq_some.mp h
    cases woken with
    | some j =>
      obtain ⟨hj, h⟩ := Option.ite_none_right_eq_some.mp h
      cases h
      have hne : j ≠ i := by
        rintro rfl
        rw [goto_same] at hj
        cases hj
      rw [goto_other s hne] at hj
      exact .notify hpc hj hne
    | none =>
      obtain ⟨hnone, h⟩ := Option.ite_none_right_eq_some.mp h
      cases h
      refine .nobody hpc ?_
      intro j hj
      have hne : j ≠ i := by
        rintro rfl
        rw [hpc] at hj
        cases hj
      exact hnone j ((goto_other s hne _).trans hj)
  | unlock i =>
    obtain ⟨hpc, h⟩ := Option.ite_none_right_eq_some.mp h
    cases h
    exact .unlock hpc

variable {s t : Semaphore ι} {i : ι} {initial : Int}

private theorem alerts_goto (s : Semaphore ι) (i : ι) (pc : SemPc) :
    (s.goto i pc).alerts + (s.pc i).alert.toNat = s.alerts + pc.alert.toNat := by
  have h := card_filter_change (s := Finset.univ) (a := i)
    (p := fun j => ((s.goto i pc).pc j).alert) (q := fun j => (s.pc j).alert) (Finset.mem_univ i)
    (fun j _ hne => by rw [goto_other s hne])
  rw [goto_same] at h
  exact h

private theorem sum_bump (f : ι → Nat) (i : ι) :
    ∑ j, Function.update f i (f i + 1) j = ∑ j, f j + 1 := by
  have h := sum_change (f := Function.update f i (f i + 1)) (g := f) (Finset.mem_univ i)
    (fun j _ hne => by rw [Function.update_of_ne hne])
  rw [Function.update_self] at h
  omega

omit [Fintype ι] in
/-- A thread that does not cross the border of the mutex. -/
theorem Exclusive.goto (h : s.Exclusive) {pc : SemPc} (hpc : pc.inside = (s.pc i).inside) :
    (s.goto i pc).Exclusive := by
  intro j
  rcases eq_or_ne j i with rfl | hne
  · rw [goto_same, hpc]
    exact h j
  · rw [goto_other s hne]
    exact h j

omit [Fintype ι] in
theorem Exclusive.enter (h : s.Exclusive) (hfree : s.mtx = none) {pc : SemPc}
    (hpc : pc.inside = true) : ({ s.goto i pc with mtx := some i } : Semaphore ι).Exclusive := by
  intro j
  change ((s.goto i pc).pc j).inside = true ↔ some i = some j
  rcases eq_or_ne j i with rfl | hne
  · rw [goto_same]
    exact ⟨fun _ => rfl, fun _ => hpc⟩
  · rw [goto_other s hne, h j, hfree]
    exact ⟨(fun he => by cases he), fun he => absurd (Option.some.inj he).symm hne⟩

omit [Fintype ι] in
theorem Exclusive.exit (h : s.Exclusive) (hi : (s.pc i).inside = true) {pc : SemPc}
    (hpc : pc.inside = false) : ({ s.goto i pc with mtx := none } : Semaphore ι).Exclusive := by
  intro j
  change ((s.goto i pc).pc j).inside = true ↔ none = some j
  rcases eq_or_ne j i with rfl | hne
  · rw [goto_same, hpc]
    exact ⟨(fun he => by cases he), (fun he => by cases he)⟩
  · rw [goto_other s hne, h j, (h i).mp hi]
    exact ⟨fun he => absurd (Option.some.inj he).symm hne, (fun he => by cases he)⟩

omit [DecidableEq ι] [Fintype ι] in
/-- Two threads inside the mutex are one. -/
theorem Exclusive.eq (h : s.Exclusive) {j : ι} (hi : (s.pc i).inside = true)
    (hj : (s.pc j).inside = true) : i = j :=
  Option.some.inj (((h i).mp hi).symm.trans ((h j).mp hj))

/-- Who gets the mutex looks at the counter first, or increments it. -/
theorem locked_facts {pc new : SemPc} (h : pc.locked = some new) : new.inside = true ∧
    new ≠ .waitTake ∧ new ≠ .asleep ∧ (pc.alert = true → new.alert = true) := by
  cases pc <;> cases h <;> decide

omit [DecidableEq ι] in
theorem sound_default : Sound 0 ({} : Semaphore ι) := by
  refine ⟨?_, rfl, le_rfl, ?_, ?_⟩
  · intro i
    exact ⟨(fun h => by cases h), (fun h => by cases h)⟩
  · intro i hi
    cases hi
  · intro i hi
    cases hi

/-- A step of one thread that leaves the counter alone, and nobody newly asleep. -/
theorem Sound.goto (h : Sound initial s) {m : Option ι} {pc : SemPc}
    (hexclusive : ({ s.goto i pc with mtx := m } : Semaphore ι).Exclusive)
    (htake : pc = .waitTake → s.count ≠ 0) (hsleep : pc ≠ .asleep)
    (halert : (s.pc i).alert = true → pc.alert = true) :
    Sound initial { s.goto i pc with mtx := m } := by
  refine ⟨hexclusive, h.balance, h.nonneg, ?_, ?_⟩
  · intro j hj
    change (s.goto i pc).pc j = .waitTake at hj
    rcases eq_or_ne j i with rfl | hne
    · rw [goto_same] at hj
      exact htake hj
    · rw [goto_other s hne] at hj
      exact h.tested j hj
  · intro j hj
    change (s.goto i pc).pc j = .asleep at hj
    rcases eq_or_ne j i with rfl | hne
    · rw [goto_same] at hj
      exact absurd hj hsleep
    · rw [goto_other s hne] at hj
      have hbefore := h.awake j hj
      have hcount := alerts_goto s i pc
      have hle : (s.pc i).alert.toNat ≤ pc.alert.toNat := by
        cases hi : (s.pc i).alert with
        | false => exact Nat.zero_le _
        | true => rw [halert hi]
      change s.count ≤ ((s.goto i pc).alerts : Int)
      omega

/-- A waiter decrements a counter that nobody else has touched since its test. -/
theorem Sound.take (h : Sound initial s) (hi : s.pc i = .waitTake) :
    Sound initial { s.goto i .unlocking with
      count := s.count - 1, taken := Function.update s.taken i (s.taken i + 1) } := by
  have hinside : (s.pc i).inside = true := by rw [hi]; rfl
  have hpositive := h.tested i hi
  have hnonneg := h.nonneg
  have hexclusive : (s.goto i .unlocking).Exclusive := h.exclusive.goto hinside.symm
  refine ⟨hexclusive, ?_, ?_, ?_, ?_⟩
  · have hbalance := h.balance
    have hsum := sum_bump s.taken i
    change s.count - 1 + (∑ j, Function.update s.taken i (s.taken i + 1) j : Nat) =
      initial + (∑ j, s.added j : Nat)
    omega
  · change 0 ≤ s.count - 1
    omega
  · intro j hj
    have hj' : ((s.goto i .unlocking).pc j).inside = true := by
      change (s.goto i .unlocking).pc j = .waitTake at hj
      rw [hj]
      rfl
    have hsame := hexclusive.eq (i := i) (by rw [goto_same]; rfl) hj'
    subst hsame
    change (s.goto i .unlocking).pc i = .waitTake at hj
    rw [goto_same] at hj
    cases hj
  · intro j hj
    change (s.goto i .unlocking).pc j = .asleep at hj
    have hne : j ≠ i := by
      rintro rfl
      rw [goto_same] at hj
      cases hj
    rw [goto_other s hne] at hj
    have hbefore := h.awake j hj
    have hcount := alerts_goto s i .unlocking
    have halert : (s.pc i).alert = true := by rw [hi]; rfl
    rw [halert] at hcount
    change s.count - 1 ≤ ((s.goto i .unlocking).alerts : Int)
    change _ + 1 = _ + 0 at hcount
    omega

/-- The one that increments is going to wake somebody up. -/
theorem Sound.add (h : Sound initial s) (hi : s.pc i = .signalAdd) :
    Sound initial { s.goto i .signalNotify with
      count := s.count + 1, added := Function.update s.added i (s.added i + 1) } := by
  have hinside : (s.pc i).inside = true := by rw [hi]; rfl
  have hnonneg := h.nonneg
  have hexclusive : (s.goto i .signalNotify).Exclusive := h.exclusive.goto hinside.symm
  refine ⟨hexclusive, ?_, ?_, ?_, ?_⟩
  · have hbalance := h.balance
    have hsum := sum_bump s.added i
    change s.count + 1 + (∑ j, s.taken j : Nat) =
      initial + (∑ j, Function.update s.added i (s.added i + 1) j : Nat)
    omega
  · change 0 ≤ s.count + 1
    omega
  · intro j hj
    change s.count + 1 ≠ 0
    omega
  · intro j hj
    change (s.goto i .signalNotify).pc j = .asleep at hj
    have hne : j ≠ i := by
      rintro rfl
      rw [goto_same] at hj
      cases hj
    rw [goto_other s hne] at hj
    have hbefore := h.awake j hj
    have hcount := alerts_goto s i .signalNotify
    have halert : (s.pc i).alert = false := by rw [hi]; rfl
    rw [halert] at hcount
    change s.count + 1 ≤ ((s.goto i .signalNotify).alerts : Int)
    change _ + 0 = _ + 1 at hcount
    omega

/-- The one that wakes somebody up is as good as the one that is woken. -/
theorem Sound.notify (h : Sound initial s) (hi : s.pc i = .signalNotify) {j : ι}
    (hj : s.pc j = .asleep) (hne : j ≠ i) :
    Sound initial ((s.goto i .unlocking).goto j .waking) := by
  have hinside : (s.pc i).inside = true := by rw [hi]; rfl
  have hmid : (s.goto i .unlocking).Exclusive := h.exclusive.goto hinside.symm
  have hj' : (s.goto i .unlocking).pc j = .asleep := (goto_other s hne _).trans hj
  refine ⟨hmid.goto (by rw [hj']; rfl), h.balance, h.nonneg, ?_, ?_⟩
  · intro k hk
    rcases eq_or_ne k j with rfl | hkj
    · rw [goto_same] at hk
      cases hk
    · rw [goto_other _ hkj] at hk
      rcases eq_or_ne k i with rfl | hki
      · rw [goto_same] at hk
        cases hk
      · rw [goto_other _ hki] at hk
        exact h.tested k hk
  · intro k _
    have hbefore := h.awake j hj
    have hfirst := alerts_goto s i .unlocking
    have hsecond := alerts_goto (s.goto i .unlocking) j .waking
    have halert : (s.pc i).alert = true := by rw [hi]; rfl
    have hasleep : ((s.goto i .unlocking).pc j).alert = false := by rw [hj']; rfl
    rw [halert] at hfirst
    rw [hasleep] at hsecond
    change s.count ≤ (((s.goto i .unlocking).goto j .waking).alerts : Int)
    change _ + 1 = _ + 0 at hfirst
    change _ + 0 = _ + 1 at hsecond
    omega

/-- Nobody sleeps, so nobody has to be woken. -/
theorem Sound.nobody (h : Sound initial s) (hi : s.pc i = .signalNotify)
    (hnone : ∀ j, s.pc j ≠ .asleep) : Sound initial (s.goto i .unlocking) := by
  have hinside : (s.pc i).inside = true := by rw [hi]; rfl
  refine ⟨h.exclusive.goto hinside.symm, h.balance, h.nonneg, ?_, ?_⟩
  · intro j hj
    rcases eq_or_ne j i with rfl | hne
    · rw [goto_same] at hj
      cases hj
    · rw [goto_other s hne] at hj
      exact h.tested j hj
  · intro j hj
    rcases eq_or_ne j i with rfl | hne
    · rw [goto_same] at hj
      cases hj
    · rw [goto_other s hne] at hj
      exact absurd hj (hnone j)

/-- A waiter goes to sleep when there is nothing to take. -/
theorem Sound.sleep (h : Sound initial s) (hi : s.pc i = .waitTest) (hzero : s.count = 0) :
    Sound initial { s.goto i .asleep with mtx := none } := by
  have hinside : (s.pc i).inside = true := by rw [hi]; rfl
  refine ⟨h.exclusive.exit hinside rfl, h.balance, h.nonneg, ?_, ?_⟩
  · intro j hj
    change (s.goto i .asleep).pc j = .waitTake at hj
    rcases eq_or_ne j i with rfl | hne
    · rw [goto_same] at hj
      cases hj
    · rw [goto_other s hne] at hj
      exact h.tested j hj
  · intro j _
    change s.count ≤ _
    rw [hzero]
    exact Int.natCast_nonneg _

theorem step_sound {a : SemAction ι} (h : Sound initial s) (hstep : step s a = some t) :
    Sound initial t := by
  cases step_to hstep with
  | wait pc =>
    exact h.goto (h.exclusive.goto (by rw [pc]; rfl)) (fun he => by cases he)
      (fun he => by cases he) (fun he => by rw [pc] at he; cases he)
  | signal pc =>
    exact h.goto (h.exclusive.goto (by rw [pc]; rfl)) (fun he => by cases he)
      (fun he => by cases he) (fun he => by rw [pc] at he; cases he)
  | @lock i new free locked =>
    obtain ⟨hinside, htake, hsleep, halert⟩ := locked_facts locked
    exact h.goto (h.exclusive.enter free hinside) (fun he => absurd he htake) hsleep halert
  | sleep pc zero => exact h.sleep pc zero
  | pass pc nonzero =>
    exact h.goto (h.exclusive.goto (by rw [pc]; rfl)) (fun _ => nonzero) (fun he => by cases he)
      (fun _ => rfl)
  | take pc => exact h.take pc
  | spurious pc =>
    exact h.goto (h.exclusive.goto (by rw [pc]; rfl)) (fun he => by cases he)
      (fun he => by cases he) (fun _ => rfl)
  | add pc => exact h.add pc
  | notify pc asleep other => exact h.notify pc asleep other
  | nobody pc nobody => exact h.nobody pc nobody
  | unlock pc =>
    exact h.goto (h.exclusive.exit (by rw [pc]; rfl) rfl) (fun he => by cases he)
      (fun he => by cases he) (fun he => by rw [pc] at he; cases he)

end Semaphore
end CoroutineRpc.Coroutine
