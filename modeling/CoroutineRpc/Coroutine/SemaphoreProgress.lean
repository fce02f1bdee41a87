import CoroutineRpc.Coroutine.Semaphore
import CoroutineRpc.Library.Counting
import Mathlib.Algebra.Order.BigOperators.Group.Finset

/-! What comes of the calls of `wait` and `signal`. Their statements always come to an end, and then
as many calls of `wait` have returned as there were signals for them. -/
namespace CoroutineRpc.Coroutine
open Transition

/-- A statement inside of a call, as opposed to a new call or a wake-up for no reason. -/
def SemAction.statement {ι : Type} : SemAction ι → Bool
  | .wait _ | .signal _ | .spurious _ => false
  | _ => true

/-- The statements that a thread has before it; a signal has those of the one that it wakes. -/
def SemPc.work : SemPc → Nat
  | .out | .asleep => 0
  | .unlocking => 1
  | .waitTake => 2
  | .waitTest => 3
  | .waitLock | .waking => 4
  | .signalNotify => 6
  | .signalAdd => 7
  | .signalLock => 8

/-- The calls of `wait` and of `signal` that an action makes. -/
def SemAction.waitCalls {ι : Type} [DecidableEq ι] : SemAction ι → ι → Nat
  | .wait i, j => if j = i then 1 else 0
  | _, _ => 0

def SemAction.signalCalls {ι : Type} [DecidableEq ι] : SemAction ι → ι → Nat
  | .signal i, j => if j = i then 1 else 0
  | _, _ => 0

namespace Semaphore
variable {ι : Type} [DecidableEq ι] [Fintype ι] {s t : Semaphore ι} {i : ι} {initial : Int}

/-- The calls of `wait` that a thread has made, and those of `signal`. -/
def waited (s : Semaphore ι) (i : ι) : Nat := s.taken i + (s.pc i).waits.toNat

def signalled (s : Semaphore ι) (i : ι) : Nat := s.added i + (s.pc i).owes.toNat

def work (s : Semaphore ι) : Nat := ∑ i, (s.pc i).work

/-- No statement can be executed. -/
def Quiet (s : Semaphore ι) : Prop := ∀ a : SemAction ι, a.statement = true → step s a = none

/-- What a label of the semaphore is for a counting semaphore. -/
def meaning (_ : Semaphore ι) : SemAction ι → List Counting.Action
  | .take _ => [.take]
  | .add _ => [.post]
  | _ => []

omit [Fintype ι] in
private theorem kept_goto (f : SemPc → Bool) (new : SemPc) (h : f new = f (s.pc i)) (j : ι) :
    f ((s.goto i new).pc j) = f (s.pc j) := by
  rcases eq_or_ne j i with rfl | hne
  · rw [goto_same, h]
  · rw [goto_other s hne]

omit [Fintype ι] in
private theorem waited_goto (new : SemPc) (h : new.waits = (s.pc i).waits)
    (htaken : t.taken = s.taken)
    (hpc : t.pc = (s.goto i new).pc) (j : ι) : t.waited j = s.waited j + 0 := by
  rw [Nat.add_zero, waited, htaken, hpc, kept_goto SemPc.waits new h, waited]

omit [Fintype ι] in
private theorem signalled_goto (new : SemPc) (h : new.owes = (s.pc i).owes)
    (hadded : t.added = s.added)
    (hpc : t.pc = (s.goto i new).pc) (j : ι) : t.signalled j = s.signalled j + 0 := by
  rw [Nat.add_zero, signalled, hadded, hpc, kept_goto SemPc.owes new h, signalled]

private theorem locked_counts {pc new : SemPc} (h : pc.locked = some new) :
    new.waits = pc.waits ∧ new.owes = pc.owes ∧ new.work + 1 = pc.work := by
  cases pc <;> cases h <;> decide

/-- What is decremented was waited for: only a call adds to the calls of `wait`. -/
theorem step_waited {a : SemAction ι} (h : step s a = some t) (j : ι) :
    t.waited j = s.waited j + a.waitCalls j := by
  cases step_to h with
  | @wait i pc =>
    change s.taken j + ((s.goto i .waitLock).pc j).waits.toNat =
      s.taken j + (s.pc j).waits.toNat + if j = i then 1 else 0
    rcases eq_or_ne j i with rfl | hne
    · rw [goto_same, if_pos rfl, pc]
      rfl
    · rw [goto_other s hne, if_neg hne, Nat.add_zero]
  | signal pc => exact waited_goto .signalLock (by rw [pc]; rfl) (by rfl) (by rfl) j
  | lock _ locked => exact waited_goto _ (locked_counts locked).1 (by rfl) (by rfl) j
  | sleep pc _ => exact waited_goto .asleep (by rw [pc]; rfl) (by rfl) (by rfl) j
  | pass pc _ => exact waited_goto .waitTake (by rw [pc]; rfl) (by rfl) (by rfl) j
  | @take i pc =>
    change Function.update s.taken i (s.taken i + 1) j + ((s.goto i .unlocking).pc j).waits.toNat =
      s.taken j + (s.pc j).waits.toNat
    rcases eq_or_ne j i with rfl | hne
    · rw [goto_same, Function.update_self, pc]
      rfl
    · rw [goto_other s hne, Function.update_of_ne hne]
  | spurious pc => exact waited_goto .waking (by rw [pc]; rfl) (by rfl) (by rfl) j
  | add pc => exact waited_goto .signalNotify (by rw [pc]; rfl) (by rfl) (by rfl) j
  | @notify i k pc asleep other =>
    have hmid := waited_goto (s := s) (t := s.goto i .unlocking) (i := i) .unlocking
      (by rw [pc]; rfl) (by rfl) (by rfl) j
    have hlast := waited_goto (s := s.goto i .unlocking)
      (t := (s.goto i .unlocking).goto k .waking) (i := k) .waking
      (by rw [goto_other s other, asleep]; rfl) (by rfl) (by rfl) j
    exact hlast.trans hmid
  | nobody pc _ => exact waited_goto .unlocking (by rw [pc]; rfl) (by rfl) (by rfl) j
  | unlock pc => exact waited_goto .out (by rw [pc]; rfl) (by rfl) (by rfl) j

theorem step_signalled {a : SemAction ι} (h : step s a = some t) (j : ι) :
    t.signalled j = s.signalled j + a.signalCalls j := by
  cases step_to h with
  | wait pc => exact signalled_goto .waitLock (by rw [pc]; rfl) (by rfl) (by rfl) j
  | @signal i pc =>
    change s.added j + ((s.goto i .signalLock).pc j).owes.toNat =
      s.added j + (s.pc j).owes.toNat + if j = i then 1 else 0
    rcases eq_or_ne j i with rfl | hne
    · rw [goto_same, if_pos rfl, pc]
      rfl
    · rw [goto_other s hne, if_neg hne, Nat.add_zero]
  | lock _ locked => exact signalled_goto _ (locked_counts locked).2.1 (by rfl) (by rfl) j
  | sleep pc _ => exact signalled_goto .asleep (by rw [pc]; rfl) (by rfl) (by rfl) j
  | pass pc _ => exact signalled_goto .waitTake (by rw [pc]; rfl) (by rfl) (by rfl) j
  | take pc => exact signalled_goto .unlocking (by rw [pc]; rfl) (by rfl) (by rfl) j
  | spurious pc => exact signalled_goto .waking (by rw [pc]; rfl) (by rfl) (by rfl) j
  | @add i pc =>
    change Function.update s.added i (s.added i + 1) j + ((s.goto i .signalNotify).pc j).owes.toNat =
      s.added j + (s.pc j).owes.toNat
    rcases eq_or_ne j i with rfl | hne
    · rw [goto_same, Function.update_self, pc]
      rfl
    · rw [goto_other s hne, Function.update_of_ne hne]
  | @notify i k pc asleep other =>
    have hmid := signalled_goto (s := s) (t := s.goto i .unlocking) (i := i) .unlocking
      (by rw [pc]; rfl) (by rfl) (by rfl) j
    have hlast := signalled_goto (s := s.goto i .unlocking)
      (t := (s.goto i .unlocking).goto k .waking) (i := k) .waking
      (by rw [goto_other s other, asleep]; rfl) (by rfl) (by rfl) j
    exact hlast.trans hmid
  | nobody pc _ => exact signalled_goto .unlocking (by rw [pc]; rfl) (by rfl) (by rfl) j
  | unlock pc => exact signalled_goto .out (by rw [pc]; rfl) (by rfl) (by rfl) j

theorem work_goto (s : Semaphore ι) (i : ι) (new : SemPc) :
    (s.goto i new).work + (s.pc i).work = s.work + new.work := by
  have h := sum_change (f := fun j => ((s.goto i new).pc j).work) (g := fun j => (s.pc j).work)
    (Finset.mem_univ i) (fun j _ hne => by rw [goto_other s hne])
  rw [goto_same] at h
  exact h

/-- A statement leaves less work behind. -/
theorem step_work {a : SemAction ι} (h : step s a = some t) (ha : a.statement = true) :
    t.work < s.work := by
  have hone : ∀ (i : ι) (new : SemPc), new.work < (s.pc i).work → (s.goto i new).work < s.work := by
    intro i new hlt
    have hwork := work_goto s i new
    omega
  cases step_to h with
  | wait pc | signal pc | spurious pc => cases ha
  | lock _ locked =>
    exact hone _ _ (by have hwork := (locked_counts locked).2.2; omega)
  | sleep pc _ => exact hone _ .asleep (by rw [pc]; decide)
  | pass pc _ => exact hone _ .waitTake (by rw [pc]; decide)
  | take pc => exact hone _ .unlocking (by rw [pc]; decide)
  | add pc => exact hone _ .signalNotify (by rw [pc]; decide)
  | @notify i j pc asleep other =>
    have hfirst := work_goto s i .unlocking
    have hsecond := work_goto (s.goto i .unlocking) j .waking
    rw [pc] at hfirst
    rw [goto_other s other, asleep] at hsecond
    change _ + 6 = _ + 1 at hfirst
    change _ + 0 = _ + 4 at hsecond
    omega
  | nobody pc _ => exact hone _ .unlocking (by rw [pc]; decide)
  | unlock pc => exact hone _ .out (by rw [pc]; decide)

/-- The semaphore is a counting semaphore. -/
theorem simulates_counting : Simulates (step (ι := ι)) Counting.step meaning
    (fun s n => Sound 0 s ∧ s.count = n) := by
  intro s a t n hs hstep
  have hsound := step_sound hs.1 hstep
  cases step_to hstep with
  | take pc =>
    have hne := hs.1.tested _ pc
    have hcount := hs.2
    have hn : n ≠ 0 := by
      rintro rfl
      exact hne hcount
    refine ⟨n - 1, ?_, hsound, ?_⟩
    · simp only [meaning, run_cons, run_nil, Counting.step, if_neg hn, Option.bind_some]
    · change s.count - 1 = _
      omega
  | add pc =>
    refine ⟨n + 1, rfl, hsound, ?_⟩
    change s.count + 1 = _
    rw [hs.2]
    rfl
  | _ => exact ⟨n, rfl, hsound, hs.2⟩

/-- In every run, spurious wake-ups included, the decrements and increments are a run of a counting
semaphore: nothing is taken that was not there, and the counter is what has not been taken. -/
theorem refines_counting {as : List (SemAction ι)} (h : run step ({} : Semaphore ι) as = some t) :
    ∃ n : Nat, run Counting.step 0 (translate step meaning {} as) = some n ∧ t.count = n ∧
      n + (translate step meaning {} as).count .take =
        (translate step meaning {} as).count .post := by
  obtain ⟨n, hn, -, hcount⟩ := simulates_counting.run ⟨sound_default, rfl⟩ h
  have hbalance := Counting.run_balance hn
  rw [Nat.zero_add] at hbalance
  exact ⟨n, hn, hcount, hbalance⟩

/-- A thread sleeps, is woken for no reason and sleeps again until the other one signals. -/
def wokenTwice : List (SemAction Bool) :=
  [.wait false, .lock false, .test false, .spurious false, .lock false, .test false, .signal true,
    .lock true, .add true]

theorem refines_counting_woken_twice : ∃ t : Semaphore Bool,
    run step {} wokenTwice = some t ∧
      ∃ n : Nat, run Counting.step 0 (translate step meaning {} wokenTwice) = some n ∧
        t.count = n ∧ n + (translate step meaning {} wokenTwice).count .take =
          (translate step meaning {} wokenTwice).count .post :=
  ⟨_, rfl, refines_counting rfl⟩

/-- Somebody has a statement to execute, as long as not all are outside or asleep. -/
theorem Sound.moves (h : Sound initial s) (hout : s.pc i ≠ .out) (hasleep : s.pc i ≠ .asleep) :
    ∃ a : SemAction ι, a.statement = true ∧ step s a ≠ none := by
  cases hmtx : s.mtx with
  | some k =>
    have hinside := (h.exclusive k).mpr hmtx
    cases hpc : s.pc k with
    | waitTest =>
      refine ⟨.test k, rfl, ?_⟩
      simp only [step, hpc, if_true]
      split <;> exact Option.some_ne_none _
    | waitTake => exact ⟨.take k, rfl, by simp [step, hpc]⟩
    | signalAdd => exact ⟨.add k, rfl, by simp [step, hpc]⟩
    | signalNotify =>
      by_cases hsleeper : ∃ j, s.pc j = .asleep
      · obtain ⟨j, hj⟩ := hsleeper
        have hne : j ≠ k := by
          rintro rfl
          rw [hpc] at hj
          cases hj
        have hj' : (s.goto k .unlocking).pc j = .asleep := (goto_other s hne _).trans hj
        exact ⟨.notify k (some j), rfl, by simp [step, hpc, notifyOne, hj']⟩
      · have hnone : ∀ j, (s.goto k .unlocking).pc j ≠ .asleep := by
          intro j hj
          rcases eq_or_ne j k with rfl | hne
          · rw [goto_same] at hj
            cases hj
          · rw [goto_other s hne] at hj
            exact hsleeper ⟨j, hj⟩
        exact ⟨.notify k none, rfl, by simp [step, hpc, notifyOne, hnone]⟩
    | unlocking => exact ⟨.unlock k, rfl, by simp [step, hpc]⟩
    | out | waitLock | asleep | waking | signalLock =>
      rw [hpc] at hinside
      cases hinside
  | none =>
    have hwants : ∃ new, (s.pc i).locked = some new := by
      cases hpc : s.pc i with
      | waitLock | waking => exact ⟨.waitTest, rfl⟩
      | signalLock => exact ⟨.signalAdd, rfl⟩
      | out => exact absurd hpc hout
      | asleep => exact absurd hpc hasleep
      | waitTest | waitTake | signalAdd | signalNotify | unlocking =>
        have hheld := (h.exclusive i).mp (by rw [hpc]; rfl)
        rw [hmtx] at hheld
        cases hheld
    obtain ⟨new, hnew⟩ := hwants
    exact ⟨.lock i, rfl, by simp [step, hmtx, hnew]⟩

/-- When nothing moves, as many calls of `wait` are through as there were signals for them. -/
theorem Sound.settled (h : Sound 0 s) (hquiet : s.Quiet) :
    ∑ i, s.taken i = min (∑ i, s.waited i) (∑ i, s.signalled i) := by
  have hidle : ∀ i, s.pc i = .out ∨ s.pc i = .asleep := by
    intro i
    by_contra hbusy
    obtain ⟨hout, hasleep⟩ := not_or.mp hbusy
    obtain ⟨a, ha, hmoves⟩ := h.moves hout hasleep
    exact hmoves (hquiet a ha)
  have hsignalled : ∑ i, s.signalled i = ∑ i, s.added i := by
    refine Finset.sum_congr rfl ?_
    intro i _
    rcases hidle i with hi | hi
    · rw [signalled, hi]
      rfl
    · rw [signalled, hi]
      rfl
  have hle : ∑ i, s.taken i ≤ ∑ i, s.waited i :=
    Finset.sum_le_sum (fun i _ => Nat.le_add_right _ _)
  have hbalance := h.balance
  have hnonneg := h.nonneg
  by_cases hsleeper : ∃ i, s.pc i = .asleep
  · obtain ⟨i, hi⟩ := hsleeper
    have hawake := h.awake i hi
    have hnobody : s.alerts = 0 := by
      rw [alerts, Finset.card_eq_zero, Finset.filter_eq_empty_iff]
      intro j _ hj
      rcases hidle j with hpc | hpc
      · rw [hpc] at hj
        cases hj
      · rw [hpc] at hj
        cases hj
    rw [hnobody] at hawake
    change s.count ≤ 0 at hawake
    omega
  · have hwaited : ∑ i, s.waited i = ∑ i, s.taken i := by
      refine Finset.sum_congr rfl ?_
      intro i _
      have hi := (hidle i).resolve_right (fun hpc => hsleeper ⟨i, hpc⟩)
      rw [waited, hi]
      rfl
    omega

/-- Whatever calls have been made and however the threads were woken: their statements come to an
end after so many steps, and when no more can be executed, the calls of `wait` that are through are
as many as there were calls of `wait` and of `signal`. -/
theorem calls_settle (as bs : List (SemAction ι)) (hs : run step ({} : Semaphore ι) as = some s)
    (hbs : ∀ a ∈ bs, a.statement = true) (ht : run step s bs = some t) :
    bs.length + t.work ≤ s.work ∧
      (t.Quiet → ∑ i, t.taken i = min (∑ i, t.waited i) (∑ i, t.signalled i)) := by
  have hsound : Sound 0 t := inv_of_run (fun _ _ _ h hstep => step_sound h hstep)
    (inv_of_run (fun _ _ _ h hstep => step_sound h hstep) sound_default hs) ht
  refine ⟨?_, hsound.settled⟩
  clear hs hsound
  induction bs generalizing s with
  | nil =>
    obtain rfl := Option.some.inj ht
    exact Nat.le_of_eq (Nat.zero_add _)
  | cons a bs ih =>
    obtain ⟨mid, hstep, hrest⟩ := Option.bind_eq_some_iff.mp ht
    have hless := step_work hstep (hbs a List.mem_cons_self)
    have hlater := ih (fun b hb => hbs b (List.mem_cons_of_mem a hb)) hrest
    rw [List.length_cons]
    omega

/-- What is left to execute when the counter has been incremented. -/
def handedOver : List (SemAction Bool) :=
  [.notify true (some false), .unlock true, .lock false, .test false, .take false, .unlock false]

theorem sleeper_gets_through : ∃ s t : Semaphore Bool,
    run step {} wokenTwice = some s ∧ run step s handedOver = some t ∧
      handedOver.length + t.work ≤ s.work ∧
        (t.Quiet → ∑ i, t.taken i = min (∑ i, t.waited i) (∑ i, t.signalled i)) :=
  ⟨_, _, rfl, rfl, calls_settle wokenTwice handedOver rfl (by decide) rfl⟩

end Semaphore
end CoroutineRpc.Coroutine
