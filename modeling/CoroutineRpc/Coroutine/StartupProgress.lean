import CoroutineRpc.Coroutine.StartupSafety

/-! `start` comes to its end: so many statements are executed until then and, as long as it is not
there, one of them can be executed. -/
namespace CoroutineRpc.Coroutine
open Transition

/-- The statements that `start` has before it, with so many threads to construct. -/
def StartPc.left (threadCount : Nat) : StartPc → Nat
  | .locking => 3 * threadCount + 4
  | .checking => 3 * threadCount + 3
  | .creating i => 3 * (threadCount - i) + 2
  | .waiting i => 3 * (threadCount - i) + 1
  | .storing i => 3 * (threadCount - i)
  | .leaving => 1
  | .returned | .threw => 0

/-- Those of a thread, without the ones that its semaphore counts already. -/
def RunnerPc.left : RunnerPc → Nat
  | .absent => 16
  | .begun => 12
  | .named => 11
  | .swapped => 10
  | .signalling => 1
  | .wanting | .inSection | .working => 0

/-- A sleeper at a semaphore is woken for no reason. -/
def ThreadAction.spurious : ThreadAction → Bool
  | .semaphore (.spurious _) => true
  | _ => false

def StartAction.spurious : StartAction → Bool
  | .thread _ a => a.spurious
  | _ => false

/-- A statement on the way to the end of `start`. -/
def StartAction.startup : StartAction → Bool
  | .thread _ a => !a.spurious
  | .enter _ | .exit _ | .again _ => false
  | _ => true

namespace Thread
variable {x y : Thread}

def work (x : Thread) : Nat :=
  if x.pc = .absent then x.pc.left else x.pc.left + x.semaphore.work

private theorem work_present (h : x.pc ≠ .absent) :
    x.work = x.pc.left + x.semaphore.work := if_neg h

private theorem work_construct (tid : Int) : (construct tid).work = 16 := by
  rw [work_present (fun h => by cases h)]
  rfl

/-- A thread has less before it after each of its statements, and four more statements after it has
been woken for no reason. -/
theorem step_work {a : ThreadAction} (h : x.step a = some y) :
    y.work + (!a.spurious).toNat ≤ x.work + 4 * a.spurious.toNat := by
  rw [work_present (step_exists h)]
  cases a with
  | setId =>
    obtain ⟨hpc, he⟩ := Option.ite_none_right_eq_some.mp h
    cases he
    rw [work_present (fun he => by cases he), hpc]
    change 11 + x.semaphore.work + 1 ≤ 12 + x.semaphore.work + 0
    omega
  | swap =>
    obtain ⟨hpc, he⟩ := Option.ite_none_right_eq_some.mp h
    cases he
    rw [work_present (fun he => by cases he), hpc]
    change 10 + x.semaphore.work + 1 ≤ 11 + x.semaphore.work + 0
    omega
  | signal =>
    obtain ⟨hpc, he⟩ := Option.ite_none_right_eq_some.mp h
    obtain ⟨s, hs, rfl⟩ := Option.map_eq_some_iff.mp he
    obtain ⟨hout, hs⟩ := Option.ite_none_right_eq_some.mp hs
    cases hs
    have hwork := Semaphore.work_goto x.semaphore true .signalLock
    rw [hout] at hwork
    change _ + 0 = _ + 8 at hwork
    rw [work_present (fun he => by cases he), hpc]
    change 1 + (x.semaphore.goto true .signalLock).work + 1 ≤ 10 + x.semaphore.work + 0
    omega
  | signalled =>
    obtain ⟨⟨hpc, -⟩, he⟩ := Option.ite_none_right_eq_some.mp h
    cases he
    rw [work_present (fun he => by cases he), hpc]
    change 0 + x.semaphore.work + 1 ≤ 1 + x.semaphore.work + 0
    omega
  | semaphore a =>
    obtain ⟨⟨hx, hcall⟩, he⟩ := Option.ite_none_right_eq_some.mp h
    obtain ⟨s, hs, rfl⟩ := Option.map_eq_some_iff.mp he
    have hy : ({ x with semaphore := s } : Thread).work = x.pc.left + s.work := work_present hx
    rw [hy]
    cases hstatement : a.statement with
    | true =>
      have hspurious : (ThreadAction.semaphore a).spurious = false := by
        cases a with
        | spurious => cases hstatement
        | _ => rfl
      have hless := Semaphore.step_work hs hstatement
      rw [hspurious]
      change _ + 1 ≤ _ + 0
      omega
    | false =>
      cases a with
      | spurious i =>
        obtain ⟨hasleep, hs⟩ := Option.ite_none_right_eq_some.mp hs
        cases hs
        have hwork := Semaphore.work_goto x.semaphore i .waking
        rw [hasleep] at hwork
        change _ + 0 = _ + 4 at hwork
        change _ + 0 ≤ _ + 4
        omega
      | wait | signal => cases hcall
      | _ => cases hstatement

end Thread

namespace Startup
variable {s t : Startup}

def work (s : Startup) : Nat :=
  s.main.left s.threadCount + ∑ i ∈ Finset.range s.threadCount, (s.thread i).work

private theorem sum_setThread {i : Nat} (hi : i < s.threadCount) (y : Thread) :
    ∑ j ∈ Finset.range s.threadCount, ((s.setThread i y).thread j).work + (s.thread i).work =
      ∑ j ∈ Finset.range s.threadCount, (s.thread j).work + y.work := by
  have h := sum_change (f := fun j => ((s.setThread i y).thread j).work)
    (g := fun j => (s.thread j).work) (Finset.mem_range.mpr hi)
    (fun j _ hne => by rw [setThread_other s hne])
  rw [setThread_same] at h
  exact h

/-- No more threads than asked for. -/
theorem Inv.created_le (h : s.Inv) : s.created ≤ s.threadCount := by
  have huntouched : s.Untouched → s.created ≤ s.threadCount := by
    rintro ⟨hnone, -⟩
    rw [hnone]
    exact Nat.zero_le _
  have hcomplete : s.Complete → s.created ≤ s.threadCount := by
    unfold Complete
    split
    · exact huntouched
    · exact fun hall => Nat.le_of_eq hall.1
  have hprogress := h.progress
  cases hmain : s.main with
  | locking | checking =>
    rw [hmain] at hprogress
    exact huntouched hprogress
  | creating i =>
    rw [hmain] at hprogress
    obtain ⟨-, hcreated, hle, -⟩ := hprogress
    omega
  | waiting i =>
    rw [hmain] at hprogress
    obtain ⟨-, hcreated, hlt, -⟩ := hprogress
    omega
  | storing i =>
    rw [hmain] at hprogress
    obtain ⟨-, hcreated, hlt, -⟩ := hprogress
    omega
  | leaving | returned =>
    rw [hmain] at hprogress
    exact hcomplete hprogress
  | threw =>
    rw [hmain] at hprogress
    exact Nat.le_of_lt hprogress.1

/-- A worker behind `Thread::run` has nothing to do for `start`. -/
theorem Inv.work_worker (h : s.Inv) {i : Nat} {pc : RunnerPc} (hi : (s.thread i).pc ≠ .absent)
    (hleft : pc.left = (s.thread i).pc.left) (hpc : pc ≠ .absent) :
    (s.setThread i { s.thread i with pc := pc }).work = s.work := by
  have hlt := Nat.lt_of_lt_of_le (h.created_of hi) h.created_le
  have hsum := sum_setThread hlt { s.thread i with pc := pc }
  have hbefore : (s.thread i).work = _ := Thread.work_present hi
  have hafter : ({ s.thread i with pc := pc } : Thread).work = _ := Thread.work_present hpc
  rw [hbefore, hafter, ← hleft] at hsum
  exact congrArg (s.main.left s.threadCount + ·) (Nat.add_right_cancel hsum)

private theorem Inv.workerStep_work (h : s.Inv) {i : Nat} {a : StartAction}
    (hstep : s.workerStep i a (s.thread i).pc = some t) : t.work = s.work := by
  unfold Startup.workerStep at hstep
  split at hstep
  · next hpc =>
    obtain ⟨-, he⟩ := Option.ite_none_right_eq_some.mp hstep
    cases he
    exact h.work_worker (by rw [hpc]; decide) (by rw [hpc]; rfl) (by decide)
  · next hpc =>
    cases hstep
    exact h.work_worker (by rw [hpc]; decide) (by rw [hpc]; rfl) (by decide)
  · next hpc =>
    cases hstep
    exact h.work_worker (by rw [hpc]; decide) (by rw [hpc]; rfl) (by decide)
  · cases hstep

/-- A statement of `start`. -/
theorem Inv.mainStep_work (h : s.Inv) {a : StartAction} (hstep : s.mainStep a s.main = some t) :
    t.work < s.work := by
  have hprogress := h.progress
  have hmain : ∀ pc : StartPc, pc.left s.threadCount < s.main.left s.threadCount →
      pc.left s.threadCount + ∑ i ∈ Finset.range s.threadCount, (s.thread i).work < s.work :=
    fun pc hlt => Nat.add_lt_add_right hlt _
  unfold Startup.mainStep at hstep
  split at hstep
  · next hpc =>
    obtain ⟨-, he⟩ := Option.ite_none_right_eq_some.mp hstep
    cases he
    exact hmain .checking (by rw [hpc]; exact Nat.lt_succ_self _)
  · next hpc =>
    split at hstep
    · cases hstep
      exact hmain .leaving (by rw [hpc]; change 1 < _ + 3; omega)
    · cases hstep
      exact hmain (.creating 0) (by rw [hpc]; exact Nat.lt_succ_self _)
  · next i hpc =>
    obtain ⟨hlt, he⟩ := Option.ite_none_right_eq_some.mp hstep
    split at he
    · next tid _ _ =>
      cases he
      rw [hpc] at hprogress
      have habsent : (s.thread i).pc = .absent :=
        (h.absent i).mpr (Nat.le_of_eq hprogress.2.1)
      have hbefore : (s.thread i).work = 16 := by
        rw [Thread.work, if_pos habsent, habsent]
        rfl
      have hsum := sum_setThread hlt (Thread.construct tid)
      rw [hbefore, Thread.work_construct] at hsum
      have hsame := Nat.add_right_cancel hsum
      change 3 * (s.threadCount - i) + 1 + _ < s.work
      rw [work, hpc]
      change _ + ∑ j ∈ Finset.range s.threadCount,
        ((s.setThread i (Thread.construct tid)).thread j).work < 3 * (s.threadCount - i) + 2 + _
      omega
    · cases he
      exact hmain .threw (by rw [hpc]; change 0 < _ + 2; omega)
  · next i hpc =>
    obtain ⟨-, he⟩ := Option.ite_none_right_eq_some.mp hstep
    cases he
    exact hmain (.storing i) (by rw [hpc]; exact Nat.lt_succ_self _)
  · next i hpc =>
    rw [hpc] at hprogress
    have hlt := hprogress.2.2.1
    cases hstep
    refine hmain (.creating (i + 1)) ?_
    rw [hpc]
    change 3 * (s.threadCount - (i + 1)) + 2 < 3 * (s.threadCount - i)
    omega
  · next i hpc =>
    obtain ⟨-, he⟩ := Option.ite_none_right_eq_some.mp hstep
    cases he
    exact hmain .leaving (by rw [hpc]; change 1 < _ + 2; omega)
  · next hpc =>
    cases hstep
    exact hmain .returned (by rw [hpc]; exact Nat.zero_lt_one)
  · cases hstep

theorem step_work {a : StartAction} (h : s.Inv) (hstep : step s a = some t) :
    t.work + a.startup.toNat ≤ s.work + 4 * a.spurious.toNat := by
  cases a with
  | thread i a =>
    obtain ⟨y, hy, rfl⟩ := Option.map_eq_some_iff.mp hstep
    have hlt := Nat.lt_of_lt_of_le (h.created_of (Thread.step_exists hy)) h.created_le
    have hsum := sum_setThread hlt y
    have hthread := Thread.step_work hy
    change s.main.left s.threadCount + _ + (!a.spurious).toNat ≤
      s.main.left s.threadCount + _ + 4 * a.spurious.toNat
    change _ + ∑ j ∈ Finset.range s.threadCount, ((s.setThread i y).thread j).work + _ ≤ _
    omega
  | enter i | exit i | again i => exact Nat.le_of_eq (h.workerStep_work hstep)
  | _ => exact h.mainStep_work hstep

/-- As long as `start` is not over, one of its statements or one of a thread can be executed. -/
theorem Inv.moves (h : s.Inv) (hover : s.main.over = false) :
    ∃ a : StartAction, a.startup = true ∧ step s a ≠ none := by
  have hprogress := h.progress
  cases hmain : s.main with
  | locking =>
    rw [hmain] at hprogress
    have hfree : s.mutex = none := by
      cases hmutex : s.mutex with
      | none => rfl
      | some holder =>
        cases holder with
        | starter =>
          have hholds := h.starter.mp hmutex
          rw [hmain] at hholds
          cases hholds
        | worker i =>
          have hsection := (h.worker i).mp hmutex
          have hearly := h.early hover i
          rw [hsection] at hearly
          cases hearly
    refine ⟨.lock, rfl, ?_⟩
    simp [step, Startup.mainStep, hmain, hfree]
  | checking =>
    refine ⟨.check, rfl, ?_⟩
    simp only [step, Startup.mainStep, hmain]
    split <;> exact Option.some_ne_none _
  | creating i =>
    by_cases hlt : i < s.threadCount
    · exact ⟨.create 0 true, rfl, by simp [step, Startup.mainStep, hmain, hlt]⟩
    · exact ⟨.loopEnd, rfl, by simp [step, Startup.mainStep, hmain, Nat.not_lt.mp hlt]⟩
  | waiting i =>
    rw [hmain] at hprogress
    by_cases hout : (s.thread i).semaphore.pc false = .out
    · exact ⟨.constructed, rfl, by simp [step, Startup.mainStep, hmain, hout]⟩
    · have hi : i < s.created := by
        have hcreated := hprogress.2.1
        omega
      have hx : (s.thread i).pc ≠ .absent :=
        fun habsent => absurd ((h.absent i).mp habsent) (Nat.not_le.mpr hi)
      obtain ⟨a, y, hspurious, hy⟩ := (h.ok i hi).moves hx hout
      refine ⟨.thread i a, ?_, by simp [step, hy]⟩
      cases a with
      | semaphore a =>
        cases a with
        | spurious j => exact absurd rfl (hspurious j)
        | _ => rfl
      | _ => rfl
  | storing i => exact ⟨.store, rfl, by simp [step, Startup.mainStep, hmain]⟩
  | leaving => exact ⟨.unlock, rfl, by simp [step, Startup.mainStep, hmain]⟩
  | returned | threw =>
    rw [hmain] at hover
    cases hover

/-- However the threads are interleaved, `start` ends after so many statements, four more for each
time that somebody is woken for no reason, and until then it is never stuck. -/
theorem start_ends (threadCount : Nat) (stopping : Bool) (roots : List Int)
    (as : List StartAction)
    (h : run step { threadCount := threadCount, stopping := stopping, roots := roots } as = some s) :
    as.countP StartAction.startup ≤ 19 * threadCount + 4 + 4 * as.countP StartAction.spurious ∧
      (s.main.over = false → ∃ a : StartAction, a.startup = true ∧ step s a ≠ none) := by
  have hinit := (always_inv threadCount stopping roots []).start
  have hwork : ∀ (as : List StartAction) (s t : Startup), s.Inv → run step s as = some t →
      as.countP StartAction.startup + t.work ≤ s.work + 4 * as.countP StartAction.spurious := by
    intro as
    induction as with
    | nil =>
      intro s t _ hrun
      obtain rfl := Option.some.inj hrun
      exact Nat.le_of_eq (Nat.zero_add _)
    | cons a as ih =>
      intro s t hs hrun
      obtain ⟨mid, hstep, hrest⟩ := Option.bind_eq_some_iff.mp hrun
      have hone := step_work hs hstep
      have hlater := ih mid t (step_inv hs hstep) hrest
      rw [List.countP_cons, List.countP_cons]
      cases hstartup : a.startup <;> cases hspurious : a.spurious <;>
        rw [hstartup, hspurious] at hone <;> simp at hone ⊢ <;> omega
  refine ⟨?_, ((always_inv threadCount stopping roots as).finish h).moves⟩
  have hbound := hwork as _ _ hinit h
  have hstart : work { threadCount := threadCount, stopping := stopping, roots := roots } =
      19 * threadCount + 4 := by
    have hsum : ∑ i ∈ Finset.range threadCount, 16 = 16 * threadCount := by
      simp [Finset.sum_const, Nat.mul_comm]
    change 3 * threadCount + 4 + ∑ i ∈ Finset.range threadCount, 16 = _
    omega
  rw [hstart] at hbound
  exact Nat.le_trans (Nat.le_add_right _ _) hbound

/-- One thread, whose constructor goes to sleep before it signals. -/
def startOne : List StartAction :=
  [.lock, .check, .create 7 true, .thread 0 (.semaphore (.lock false)),
    .thread 0 (.semaphore (.test false)), .thread 0 .setId, .thread 0 (.semaphore (.spurious false)),
    .thread 0 .swap, .thread 0 .signal, .thread 0 (.semaphore (.lock true)),
    .thread 0 (.semaphore (.add true)), .thread 0 (.semaphore (.notify true none)),
    .thread 0 (.semaphore (.unlock true)), .thread 0 .signalled,
    .thread 0 (.semaphore (.lock false)), .thread 0 (.semaphore (.test false)),
    .thread 0 (.semaphore (.take false)), .thread 0 (.semaphore (.unlock false)), .constructed,
    .store, .loopEnd, .unlock, .enter 0]

theorem start_ends_startOne : ∃ s : Startup,
    run step { threadCount := 1 } startOne = some s ∧
      startOne.countP StartAction.startup ≤
        19 * 1 + 4 + 4 * startOne.countP StartAction.spurious ∧
      (s.main.over = false → ∃ a : StartAction, a.startup = true ∧ step s a ≠ none) :=
  ⟨_, rfl, start_ends 1 false [] startOne rfl⟩

end Startup
end CoroutineRpc.Coroutine
