import CoroutineRpc.Coroutine.Startup
import Mathlib.Data.Fintype.BigOperators

/-! The threads of a scheduler come up in order. Nobody works before `start` is over, what it has
stored is complete, and it cannot get stuck. -/
namespace CoroutineRpc.Coroutine
open Transition

/-- The worker is in its loop, in `m_mutex` or behind it. -/
def RunnerPc.works : RunnerPc → Bool
  | .inSection | .working => true
  | _ => false

namespace Thread
variable {x y : Thread}

/-- A thread that exists: its constructor has called `wait` once, and it calls `signal` once. -/
structure Ok (x : Thread) : Prop where
  sound : Semaphore.Sound 0 x.semaphore
  constructor : x.semaphore.waited false = 1 ∧ x.semaphore.signalled false = 0
  runner : x.semaphore.waited true = 0 ∧ x.semaphore.signalled true = x.pc.hasSignalled.toNat
  idle : x.pc.hasSignalled = false → x.semaphore.pc true = .out
  named : x.pc.hasId = true → x.id = x.tid

/-- What a thread keeps on its way through `Thread::run`. -/
structure Continues (x y : Thread) : Prop where
  exists_ : x.pc ≠ .absent
  tid : y.tid = x.tid
  signalled : x.pc.hasSignalled = true → y.pc.hasSignalled = true
  pc : y.pc = x.pc ∨ x.pc.works = false ∧ y.pc.works = false ∧ y.pc ≠ .absent

private theorem construct_ok (tid : Int) : (construct tid).Ok := by
  refine ⟨?_, ⟨rfl, rfl⟩, ⟨rfl, rfl⟩, fun _ => rfl, fun h => by cases h⟩
  have hstep : Semaphore.step ({} : Semaphore Bool) (.wait false) =
      some (construct tid).semaphore := rfl
  exact Semaphore.step_sound Semaphore.sound_default hstep

/-- No other thread has a program counter in this semaphore. -/
theorem step_other {s t : Semaphore Bool} {a : SemAction Bool} (h : Semaphore.step s a = some t)
    (hcall : a.isCall = false) (hidle : s.pc true = .out) : t.pc true = .out := by
  have hkeep : ∀ (i : Bool) (new : SemPc), s.pc i ≠ .out → (s.goto i new).pc true = .out := by
    intro i new hi
    have hne : true ≠ i := by
      rintro rfl
      exact hi hidle
    rw [Semaphore.goto_other s hne]
    exact hidle
  cases Semaphore.step_to h with
  | wait pc => cases hcall
  | signal pc => cases hcall
  | lock free locked =>
    refine hkeep _ _ ?_
    intro hout
    rw [hout] at locked
    cases locked
  | sleep pc zero => exact hkeep _ _ (by rw [pc]; decide)
  | pass pc nonzero => exact hkeep _ _ (by rw [pc]; decide)
  | take pc => exact hkeep _ _ (by rw [pc]; decide)
  | spurious pc => exact hkeep _ _ (by rw [pc]; decide)
  | add pc => exact hkeep _ _ (by rw [pc]; decide)
  | @notify i j pc asleep other =>
    have hne : true ≠ j := by
      rintro rfl
      rw [hidle] at asleep
      cases asleep
    exact (Semaphore.goto_other _ hne _).trans (hkeep _ _ (by rw [pc]; decide))
  | nobody pc nobody => exact hkeep _ _ (by rw [pc]; decide)
  | unlock pc => exact hkeep _ _ (by rw [pc]; decide)

private theorem calls_none {a : SemAction Bool} (h : a.isCall = false) (j : Bool) :
    a.waitCalls j = 0 ∧ a.signalCalls j = 0 := by
  cases a <;> cases h <;> exact ⟨rfl, rfl⟩

private theorem step_ok {a : ThreadAction} (h : x.Ok) (hx : x.pc ≠ .absent)
    (hstep : x.step a = some y) : y.Ok ∧ x.Continues y := by
  cases a with
  | setId =>
    obtain ⟨hpc, he⟩ := Option.ite_none_right_eq_some.mp hstep
    cases he
    have hrunner := h.runner
    rw [hpc] at hrunner
    refine ⟨⟨h.sound, h.constructor, hrunner, fun _ => h.idle (by rw [hpc]; rfl), fun _ => rfl⟩,
      hx, rfl, ?_, .inr ⟨by rw [hpc]; rfl, rfl, (fun he => by cases he)⟩⟩
    intro hsignalled
    rw [hpc] at hsignalled
    cases hsignalled
  | swap =>
    obtain ⟨hpc, he⟩ := Option.ite_none_right_eq_some.mp hstep
    cases he
    have hrunner := h.runner
    rw [hpc] at hrunner
    refine ⟨⟨h.sound, h.constructor, hrunner, fun _ => h.idle (by rw [hpc]; rfl),
      fun _ => h.named (by rw [hpc]; rfl)⟩, hx, rfl, ?_,
      .inr ⟨by rw [hpc]; rfl, rfl, (fun he => by cases he)⟩⟩
    intro hsignalled
    rw [hpc] at hsignalled
    cases hsignalled
  | signal =>
    obtain ⟨hpc, he⟩ := Option.ite_none_right_eq_some.mp hstep
    obtain ⟨s, hs, rfl⟩ := Option.map_eq_some_iff.mp he
    have hwaited := Semaphore.step_waited hs
    have hsignalled := Semaphore.step_signalled hs
    have hrunner := h.runner
    rw [hpc] at hrunner
    refine ⟨⟨Semaphore.step_sound h.sound hs, ⟨?_, ?_⟩, ⟨?_, ?_⟩, (fun he => by cases he),
      fun _ => h.named (by rw [hpc]; rfl)⟩, hx, rfl, fun _ => rfl,
      .inr ⟨by rw [hpc]; rfl, rfl, (fun he => by cases he)⟩⟩
    · exact (hwaited false).trans h.constructor.1
    · exact (hsignalled false).trans h.constructor.2
    · exact (hwaited true).trans hrunner.1
    · refine (hsignalled true).trans ?_
      rw [hrunner.2]
      rfl
  | signalled =>
    obtain ⟨⟨hpc, hout⟩, he⟩ := Option.ite_none_right_eq_some.mp hstep
    cases he
    have hrunner := h.runner
    rw [hpc] at hrunner
    exact ⟨⟨h.sound, h.constructor, hrunner, (fun he => by cases he),
      fun _ => h.named (by rw [hpc]; rfl)⟩, hx, rfl, fun _ => rfl,
      .inr ⟨by rw [hpc]; rfl, rfl, (fun he => by cases he)⟩⟩
  | semaphore a =>
    obtain ⟨⟨-, hcall⟩, he⟩ := Option.ite_none_right_eq_some.mp hstep
    obtain ⟨s, hs, rfl⟩ := Option.map_eq_some_iff.mp he
    have hwaited : ∀ j, s.waited j = x.semaphore.waited j := by
      intro j
      rw [Semaphore.step_waited hs, (calls_none hcall j).1, Nat.add_zero]
    have hsignalled : ∀ j, s.signalled j = x.semaphore.signalled j := by
      intro j
      rw [Semaphore.step_signalled hs, (calls_none hcall j).2, Nat.add_zero]
    exact ⟨⟨Semaphore.step_sound h.sound hs,
      ⟨(hwaited false).trans h.constructor.1, (hsignalled false).trans h.constructor.2⟩,
      ⟨(hwaited true).trans h.runner.1, (hsignalled true).trans h.runner.2⟩,
      fun hno => step_other hs hcall (h.idle hno), h.named⟩, hx, rfl, fun hyes => hyes, .inl rfl⟩

/-- In a step of its own a thread was there before. -/
theorem step_exists {a : ThreadAction} (h : x.step a = some y) : x.pc ≠ .absent := by
  intro habsent
  cases a with
  | setId =>
    obtain ⟨hpc, -⟩ := Option.ite_none_right_eq_some.mp h
    cases habsent.symm.trans hpc
  | swap =>
    obtain ⟨hpc, -⟩ := Option.ite_none_right_eq_some.mp h
    cases habsent.symm.trans hpc
  | signal =>
    obtain ⟨hpc, -⟩ := Option.ite_none_right_eq_some.mp h
    cases habsent.symm.trans hpc
  | signalled =>
    obtain ⟨⟨hpc, -⟩, -⟩ := Option.ite_none_right_eq_some.mp h
    cases habsent.symm.trans hpc
  | semaphore a =>
    obtain ⟨⟨hpc, -⟩, -⟩ := Option.ite_none_right_eq_some.mp h
    exact hpc habsent

/-- A constructor that is through with its `wait` has been signalled by its thread. -/
theorem Ok.signalled (h : x.Ok) (hout : x.semaphore.pc false = .out) :
    x.pc.hasSignalled = true := by
  have htaken : x.semaphore.taken false = 1 := by
    have hwaited := h.constructor.1
    rw [Semaphore.waited, hout] at hwaited
    exact hwaited
  have hadded : x.semaphore.added false = 0 := by
    have hnone := h.constructor.2
    rw [Semaphore.signalled] at hnone
    omega
  have hbalance := h.sound.balance
  have hnonneg := h.sound.nonneg
  rw [Fintype.sum_bool, Fintype.sum_bool, htaken, hadded] at hbalance
  have hrunner := h.runner.2
  rw [Semaphore.signalled] at hrunner
  cases hsignalled : x.pc.hasSignalled with
  | true => rfl
  | false =>
    rw [hsignalled] at hrunner
    change _ = 0 at hrunner
    omega

/-- A thread whose constructor waits for it can go on, and not only because it is woken for no
reason. -/
theorem Ok.moves (h : x.Ok) (hx : x.pc ≠ .absent) (hwaits : x.semaphore.pc false ≠ .out) :
    ∃ a y, (∀ i, a ≠ .semaphore (.spurious i)) ∧ x.step a = some y := by
  have hinside : ∀ i, x.semaphore.pc i ≠ .out → x.semaphore.pc i ≠ .asleep →
      ∃ a y, (∀ i, a ≠ .semaphore (.spurious i)) ∧ x.step a = some y := by
    intro i hout hasleep
    obtain ⟨a, ha, hmoves⟩ := h.sound.moves hout hasleep
    obtain ⟨s, hs⟩ := Option.ne_none_iff_exists'.mp hmoves
    refine ⟨.semaphore a, { x with semaphore := s }, ?_, ?_⟩
    · intro j he
      obtain rfl := ThreadAction.semaphore.inj he
      cases ha
    · have hcall : a.isCall = false := by
        cases a with
        | wait | signal => cases ha
        | _ => rfl
      simp only [step, if_pos (And.intro hx hcall), hs, Option.map_some]
  have hrunner : x.semaphore.pc true ≠ .asleep := by
    intro hasleep
    have hnone := h.runner.1
    rw [Semaphore.waited, hasleep] at hnone
    cases hnone
  by_cases htrue : x.semaphore.pc true = .out
  swap
  · exact hinside true htrue hrunner
  by_cases hfalse : x.semaphore.pc false = .asleep
  swap
  · exact hinside false hwaits hfalse
  have hnext : x.pc.hasSignalled = false ∨ x.pc = .signalling := by
    by_contra hlater
    obtain ⟨hsignalled, -⟩ := not_or.mp hlater
    rw [Bool.not_eq_false] at hsignalled
    have hadded := h.runner.2
    rw [Semaphore.signalled, htrue, hsignalled] at hadded
    change x.semaphore.added true = 1 at hadded
    have hnone := h.runner.1
    have htaken := h.constructor.1
    rw [Semaphore.waited, htrue] at hnone
    rw [Semaphore.waited, hfalse] at htaken
    change x.semaphore.taken true = 0 at hnone
    change x.semaphore.taken false + 1 = 1 at htaken
    have hbalance := h.sound.balance
    rw [Fintype.sum_bool, Fintype.sum_bool] at hbalance
    have hawake := h.sound.awake false hfalse
    have halerts : x.semaphore.alerts = 0 := by
      rw [Semaphore.alerts, Finset.card_eq_zero, Finset.filter_eq_empty_iff]
      intro i _ hi
      cases i with
      | false =>
        rw [hfalse] at hi
        cases hi
      | true =>
        rw [htrue] at hi
        cases hi
    omega
  cases hpc : x.pc with
  | absent => exact absurd hpc hx
  | begun => exact ⟨.setId, _, fun _ he => (by cases he), if_pos hpc⟩
  | named => exact ⟨.swap, _, fun _ he => (by cases he), if_pos hpc⟩
  | swapped =>
    have hstep : x.semaphore.step (.signal true) = some (x.semaphore.goto true .signalLock) :=
      if_pos htrue
    refine ⟨.signal, { x with
      pc := .signalling, semaphore := x.semaphore.goto true .signalLock }, ?_, ?_⟩
    · intro _ he
      cases he
    · simp only [step, if_pos hpc, hstep, Option.map_some]
  | signalling => exact ⟨.signalled, _, fun _ he => (by cases he), if_pos ⟨hpc, htrue⟩⟩
  | wanting | inSection | working =>
    rw [hpc] at hnext
    rcases hnext with hno | hno
    · cases hno
    · cases hno

private theorem hasId_of_hasSignalled {pc : RunnerPc} (h : pc.hasSignalled = true) :
    pc.hasId = true := by
  cases pc with
  | signalling | wanting | inSection | working => rfl
  | _ => cases h

/-- A worker that is through with `Thread::run`. -/
theorem Ok.worker (h : x.Ok) (hsignalled : x.pc.hasSignalled = true)
    {pc : RunnerPc} (hpc : pc.hasSignalled = true) : ({ x with pc := pc } : Thread).Ok := by
  have hrunner := h.runner
  rw [hsignalled] at hrunner
  refine ⟨h.sound, h.constructor, ?_, ?_, ?_⟩
  · change _ ∧ _ = pc.hasSignalled.toNat
    rw [hpc]
    exact hrunner
  · intro hno
    change pc.hasSignalled = false at hno
    rw [hpc] at hno
    cases hno
  · intro _
    exact h.named (hasId_of_hasSignalled hsignalled)

end Thread
/-- `start` holds `m_mutex`. -/
def StartPc.holds : StartPc → Bool
  | .locking | .returned | .threw => false
  | _ => true

/-- `start` has come to its end. -/
def StartPc.over : StartPc → Bool
  | .returned | .threw => true
  | _ => false

namespace Startup
variable {s t : Startup}

/-- The first threads are in both vectors, each with the id that the kernel gave it. -/
structure Stored (s : Startup) (k : Nat) : Prop where
  ids : s.threadIds = s.roots ++ (List.range k).map (fun i => (s.thread i).tid)
  threads : s.threads = (List.range k).map some ++ List.replicate (s.threadCount - k) none
  signalled : ∀ i < k, (s.thread i).pc.hasSignalled = true

/-- Nothing has been constructed or stored. -/
def Untouched (s : Startup) : Prop := s.created = 0 ∧ s.threads = [] ∧ s.threadIds = s.roots

def Complete (s : Startup) : Prop :=
  if s.stopping then s.Untouched else s.created = s.threadCount ∧ s.Stored s.threadCount

/-- What `start` has done at each of its statements. -/
def Progress (s : Startup) : StartPc → Prop
  | .locking | .checking => s.Untouched
  | .creating i => s.stopping = false ∧ s.created = i ∧ i ≤ s.threadCount ∧ s.Stored i
  | .waiting i => s.stopping = false ∧ s.created = i + 1 ∧ i < s.threadCount ∧ s.Stored i
  | .storing i => s.stopping = false ∧ s.created = i + 1 ∧ i < s.threadCount ∧ s.Stored i ∧
      (s.thread i).pc.hasSignalled = true
  | .leaving | .returned => s.Complete
  | .threw => s.created < s.threadCount ∧ s.Stored s.created

structure Inv (s : Startup) : Prop where
  starter : s.mutex = some .starter ↔ s.main.holds = true
  worker : ∀ i, s.mutex = some (.worker i) ↔ (s.thread i).pc = .inSection
  absent : ∀ i, (s.thread i).pc = .absent ↔ s.created ≤ i
  ok : ∀ i < s.created, (s.thread i).Ok
  early : s.main.over = false → ∀ i, (s.thread i).pc.works = false
  progress : s.Progress s.main

@[simp] theorem setThread_same (s : Startup) (i : Nat) (x : Thread) :
    (s.setThread i x).thread i = x := Function.update_self _ _ _

theorem setThread_other (s : Startup) {i j : Nat} (h : j ≠ i) (x : Thread) :
    (s.setThread i x).thread j = s.thread j := Function.update_of_ne h _ _

/-- A thread that goes on leaves what is stored. -/
theorem Stored.mono {k : Nat} (h : s.Stored k) (hroots : t.roots = s.roots)
    (hids : t.threadIds = s.threadIds) (hthreads : t.threads = s.threads)
    (hcount : t.threadCount = s.threadCount)
    (htids : ∀ i < k, (t.thread i).tid = (s.thread i).tid ∧
      ((s.thread i).pc.hasSignalled = true → (t.thread i).pc.hasSignalled = true)) :
    t.Stored k := by
  refine ⟨?_, ?_, ?_⟩
  · rw [hids, hroots, h.ids]
    refine congrArg (s.roots ++ ·) (List.map_congr_left ?_)
    intro i hi
    exact (htids i (List.mem_range.mp hi)).1.symm
  · rw [hthreads, hcount, h.threads]
  · intro i hi
    exact (htids i hi).2 (h.signalled i hi)

/-- So it does with all that `start` has done. -/
theorem Progress.mono {pc : StartPc} (h : s.Progress pc) (hroots : t.roots = s.roots)
    (hids : t.threadIds = s.threadIds) (hthreads : t.threads = s.threads)
    (hcount : t.threadCount = s.threadCount) (hstopping : t.stopping = s.stopping)
    (hcreated : t.created = s.created)
    (htids : ∀ i, (t.thread i).tid = (s.thread i).tid ∧
      ((s.thread i).pc.hasSignalled = true → (t.thread i).pc.hasSignalled = true)) :
    t.Progress pc := by
  have hstored : ∀ k, s.Stored k → t.Stored k := fun k hk =>
    hk.mono hroots hids hthreads hcount (fun i _ => htids i)
  have huntouched : s.Untouched → t.Untouched := by
    rintro ⟨hc, hth, hid⟩
    exact ⟨hcreated.trans hc, hthreads.trans hth, hids.trans (hid.trans hroots.symm)⟩
  have hcomplete : s.Complete → t.Complete := by
    unfold Complete
    rw [hstopping, hcreated, hcount]
    split
    · exact huntouched
    · rintro ⟨hc, hst⟩
      exact ⟨hc, hstored _ hst⟩
  cases pc with
  | locking | checking => exact huntouched h
  | creating i =>
    obtain ⟨hst, hc, hle, hs⟩ := h
    exact ⟨hstopping.trans hst, hcreated.trans hc, hcount ▸ hle, hstored i hs⟩
  | waiting i =>
    obtain ⟨hst, hc, hlt, hs⟩ := h
    exact ⟨hstopping.trans hst, hcreated.trans hc, hcount ▸ hlt, hstored i hs⟩
  | storing i =>
    obtain ⟨hst, hc, hlt, hs, hsignalled⟩ := h
    exact ⟨hstopping.trans hst, hcreated.trans hc, hcount ▸ hlt, hstored i hs,
      (htids i).2 hsignalled⟩
  | leaving | returned => exact hcomplete h
  | threw =>
    obtain ⟨hlt, hs⟩ := h
    refine ⟨?_, ?_⟩
    · rw [hcreated, hcount]
      exact hlt
    · rw [hcreated]
      exact hstored _ hs

/-- A step of one thread, which may take `m_mutex` or let go of it. -/
theorem Inv.setThread (h : s.Inv) {i : Nat} {y : Thread} {m : Option Holder} (hi : i < s.created)
    (hok : y.Ok) (htid : y.tid = (s.thread i).tid)
    (hsignalled : (s.thread i).pc.hasSignalled = true → y.pc.hasSignalled = true)
    (hpresent : y.pc ≠ .absent) (hstarter : m = some .starter ↔ s.main.holds = true)
    (hworker : ∀ j, m = some (.worker j) ↔ ((s.setThread i y).thread j).pc = .inSection)
    (hworks : s.main.over = false → y.pc.works = false) :
    ({ s.setThread i y with mutex := m } : Startup).Inv := by
  have hall : ∀ j, ((s.setThread i y).thread j).tid = (s.thread j).tid ∧
      ((s.thread j).pc.hasSignalled = true →
        ((s.setThread i y).thread j).pc.hasSignalled = true) := by
    intro j
    rcases eq_or_ne j i with rfl | hne
    · rw [setThread_same]
      exact ⟨htid, hsignalled⟩
    · rw [setThread_other s hne]
      exact ⟨rfl, id⟩
  refine ⟨hstarter, hworker, ?_, ?_, ?_, h.progress.mono rfl rfl rfl rfl rfl rfl hall⟩
  · intro j
    change ((s.setThread i y).thread j).pc = .absent ↔ s.created ≤ j
    rcases eq_or_ne j i with rfl | hne
    · rw [setThread_same]
      exact ⟨fun he => absurd he hpresent, fun hle => absurd hle (Nat.not_le.mpr hi)⟩
    · rw [setThread_other s hne]
      exact h.absent j
  · intro j hj
    change ((s.setThread i y).thread j).Ok
    rcases eq_or_ne j i with rfl | hne
    · rw [setThread_same]
      exact hok
    · rw [setThread_other s hne]
      exact h.ok j hj
  · intro hover j
    change ((s.setThread i y).thread j).pc.works = false
    rcases eq_or_ne j i with rfl | hne
    · rw [setThread_same]
      exact hworks hover
    · rw [setThread_other s hne]
      exact h.early hover j

/-- Which threads exist. -/
theorem Inv.created_of (h : s.Inv) {i : Nat} (hi : (s.thread i).pc ≠ .absent) : i < s.created :=
  Nat.not_le.mp (fun hle => hi ((h.absent i).mpr hle))

theorem Inv.thread (h : s.Inv) {i : Nat} {a : ThreadAction} {y : Thread}
    (hstep : (s.thread i).step a = some y) : (s.setThread i y).Inv := by
  have hx := Thread.step_exists hstep
  have hi := h.created_of hx
  obtain ⟨hok, hcont⟩ := Thread.step_ok (h.ok i hi) hx hstep
  have hsection : y.pc = .inSection ↔ (s.thread i).pc = .inSection := by
    rcases hcont.pc with hpc | ⟨hbefore, hafter, -⟩
    · rw [hpc]
    · refine ⟨?_, ?_⟩
      · intro he
        rw [he] at hafter
        cases hafter
      · intro he
        rw [he] at hbefore
        cases hbefore
  refine h.setThread (m := s.mutex) hi hok hcont.tid hcont.signalled ?_ h.starter ?_ ?_
  · rcases hcont.pc with hpc | ⟨-, -, hpresent⟩
    · rw [hpc]
      exact hx
    · exact hpresent
  · intro j
    refine (h.worker j).trans ?_
    rcases eq_or_ne j i with rfl | hne
    · rw [setThread_same]
      exact hsection.symm
    · rw [setThread_other s hne]
  · intro hover
    rcases hcont.pc with hpc | ⟨-, hafter, -⟩
    · rw [hpc]
      exact h.early hover i
    · exact hafter

private theorem holds_of_over {pc : StartPc} (h : pc.over = true) : pc.holds = false := by
  cases pc with
  | returned | threw => rfl
  | _ => cases h

/-- A worker in front of `m_mutex`, in it or behind it. -/
theorem Inv.section (h : s.Inv) {i : Nat} {pc : RunnerPc} {m : Option Holder}
    (hover : s.main.over = true) (hi : (s.thread i).pc.hasSignalled = true)
    (hpc : pc.hasSignalled = true) (hstarter : m ≠ some .starter)
    (hworker : ∀ j, m = some (.worker j) ↔
      ((s.setThread i { s.thread i with pc := pc }).thread j).pc = .inSection) :
    ({ s.setThread i { s.thread i with pc := pc } with mutex := m } : Startup).Inv := by
  have hcreated : i < s.created := by
    refine h.created_of ?_
    intro habsent
    rw [habsent] at hi
    cases hi
  refine h.setThread hcreated ((h.ok i hcreated).worker hi hpc) rfl (fun _ => hpc) ?_ ?_ hworker ?_
  · rintro rfl
    cases hpc
  · refine ⟨fun he => absurd he hstarter, ?_⟩
    intro hholds
    rw [holds_of_over hover] at hholds
    cases hholds
  · intro hno
    rw [hover] at hno
    cases hno

/-- While nobody holds `m_mutex` and a thread exists, `start` is over. -/
theorem Inv.over_of_free (h : s.Inv) (hfree : s.mutex = none) {i : Nat}
    (hi : (s.thread i).pc ≠ .absent) : s.main.over = true := by
  have hholds : s.main.holds ≠ true := by
    intro hheld
    have hstarter := h.starter.mpr hheld
    rw [hfree] at hstarter
    cases hstarter
  have hprogress := h.progress
  cases hmain : s.main with
  | locking =>
    rw [hmain] at hprogress
    have hcreated := h.created_of hi
    have hnone := hprogress.1
    omega
  | returned | threw => rfl
  | _ =>
    rw [hmain] at hholds
    exact absurd rfl hholds

theorem Inv.workerStep (h : s.Inv) {i : Nat} {a : StartAction}
    (hstep : s.workerStep i a (s.thread i).pc = some t) : t.Inv := by
  unfold Startup.workerStep at hstep
  split at hstep
  · next hpc =>
    obtain ⟨hfree, he⟩ := Option.ite_none_right_eq_some.mp hstep
    cases he
    refine h.section (h.over_of_free hfree (i := i) ?_) ?_ rfl (fun he => by cases he) ?_
    · rw [hpc]
      decide
    · rw [hpc]
      rfl
    · intro j
      rcases eq_or_ne j i with rfl | hne
      · rw [setThread_same]
        exact ⟨fun _ => rfl, fun _ => rfl⟩
      · rw [setThread_other s hne, ← h.worker j, hfree]
        refine ⟨?_, (fun he => by cases he)⟩
        intro he
        cases he
        exact absurd rfl hne
  · next hpc =>
    cases hstep
    have hheld := (h.worker i).mpr hpc
    have hover : s.main.over = true := by
      by_contra hno
      have hearly := h.early (Bool.not_eq_true _ ▸ hno) i
      rw [hpc] at hearly
      cases hearly
    refine h.section hover ?_ rfl (fun he => by cases he) ?_
    · rw [hpc]
      rfl
    · intro j
      rcases eq_or_ne j i with rfl | hne
      · rw [setThread_same]
        exact ⟨(fun he => by cases he), (fun he => by cases he)⟩
      · rw [setThread_other s hne, ← h.worker j, hheld]
        refine ⟨(fun he => by cases he), ?_⟩
        intro he
        cases he
        exact absurd rfl hne
  · next hpc =>
    cases hstep
    have hover : s.main.over = true := by
      by_contra hno
      have hearly := h.early (Bool.not_eq_true _ ▸ hno) i
      rw [hpc] at hearly
      cases hearly
    refine h.section (m := s.mutex) hover ?_ rfl ?_ ?_
    · rw [hpc]
      rfl
    · intro he
      have hholds := h.starter.mp he
      rw [holds_of_over hover] at hholds
      cases hholds
    · intro j
      rw [h.worker j]
      rcases eq_or_ne j i with rfl | hne
      · rw [setThread_same, hpc]
        exact ⟨(fun he => by cases he), (fun he => by cases he)⟩
      · rw [setThread_other s hne]
  · cases hstep

/-- A statement of `start` that does not construct a thread. -/
theorem Inv.main (h : s.Inv) (hthread : t.thread = s.thread) (hcreated : t.created = s.created)
    (hbefore : s.main.over = false) (hstarter : t.mutex = some .starter ↔ t.main.holds = true)
    (hworker : ∀ i, t.mutex ≠ some (.worker i)) (hprogress : t.Progress t.main) : t.Inv := by
  refine ⟨hstarter, ?_, ?_, ?_, ?_, hprogress⟩
  · intro i
    refine ⟨fun he => absurd he (hworker i), ?_⟩
    intro hi
    have hearly := h.early hbefore i
    rw [hthread] at hi
    rw [hi] at hearly
    cases hearly
  · intro i
    rw [hthread, hcreated]
    exact h.absent i
  · intro i hi
    rw [hthread]
    exact h.ok i (hcreated ▸ hi)
  · intro _ i
    rw [hthread]
    exact h.early hbefore i

/-- The constructor of the next thread. -/
theorem Inv.create (h : s.Inv) {i : Nat} (hmain : s.main = .creating i) (hlt : i < s.threadCount)
    (tid : Int) : ({ s.setThread i (Thread.construct tid) with
      main := .waiting i, created := s.created + 1 } : Startup).Inv := by
  have hprogress := h.progress
  rw [hmain] at hprogress
  obtain ⟨hstopping, hcreated, -, hstored⟩ := hprogress
  have hheld : s.mutex = some .starter := h.starter.mpr (by rw [hmain]; rfl)
  have hother : ∀ j, j ≠ i → (s.setThread i (Thread.construct tid)).thread j = s.thread j :=
    fun j hne => setThread_other s hne _
  refine ⟨⟨fun _ => rfl, fun _ => hheld⟩, ?_, ?_, ?_, ?_, hstopping, ?_, hlt, ?_⟩
  · intro j
    change s.mutex = _ ↔ ((s.setThread i (Thread.construct tid)).thread j).pc = _
    rcases eq_or_ne j i with rfl | hne
    · rw [setThread_same, hheld]
      exact ⟨(fun he => by cases he), (fun he => by cases he)⟩
    · rw [hother j hne]
      exact h.worker j
  · intro j
    change ((s.setThread i (Thread.construct tid)).thread j).pc = _ ↔ s.created + 1 ≤ j
    rcases eq_or_ne j i with rfl | hne
    · rw [setThread_same]
      refine ⟨(fun he => by cases he), ?_⟩
      intro hle
      omega
    · rw [hother j hne, h.absent j]
      omega
  · intro j hj
    change ((s.setThread i (Thread.construct tid)).thread j).Ok
    rcases eq_or_ne j i with rfl | hne
    · rw [setThread_same]
      exact Thread.construct_ok tid
    · rw [hother j hne]
      refine h.ok j ?_
      change j < s.created + 1 at hj
      omega
  · intro _ j
    change ((s.setThread i (Thread.construct tid)).thread j).pc.works = false
    rcases eq_or_ne j i with rfl | hne
    · rw [setThread_same]
      rfl
    · rw [hother j hne]
      exact h.early (by rw [hmain]; rfl) j
  · change s.created + 1 = i + 1
    rw [hcreated]
  · refine hstored.mono rfl rfl rfl rfl ?_
    intro j hj
    change ((s.setThread i (Thread.construct tid)).thread j).tid = _ ∧
      (_ → ((s.setThread i (Thread.construct tid)).thread j).pc.hasSignalled = true)
    rw [hother j (Nat.ne_of_lt hj)]
    exact ⟨rfl, id⟩

/-- The next thread is put into both vectors, with the id that it has set before it signalled. -/
theorem Stored.store {i : Nat} (h : s.Stored i) (hlt : i < s.threadCount)
    (hsignalled : (s.thread i).pc.hasSignalled = true) (hid : (s.thread i).id = (s.thread i).tid) :
    ({ s with
      main := .creating (i + 1), threads := s.threads.set i (some i)
      threadIds := s.threadIds ++ [(s.thread i).id] } : Startup).Stored (i + 1) := by
  refine ⟨?_, ?_, ?_⟩
  · change s.threadIds ++ _ = s.roots ++ _
    rw [h.ids, hid, List.range_succ, List.map_append, List.append_assoc]
    rfl
  · change s.threads.set i (some i) = _ ++ List.replicate (s.threadCount - (i + 1)) none
    obtain ⟨rest, hrest⟩ := Nat.exists_eq_add_of_lt hlt
    have hbefore : s.threadCount - i = rest + 1 := by omega
    have hafter : s.threadCount - (i + 1) = rest := by omega
    rw [h.threads, hbefore, hafter, List.replicate_succ, List.range_succ, List.map_append,
      List.append_assoc, List.set_append_right _ _ (by simp)]
    simp
  · intro j hj
    rcases eq_or_ne j i with rfl | hne
    · exact hsignalled
    · exact h.signalled j (by omega)

theorem Inv.mainStep (h : s.Inv) {a : StartAction} (hstep : s.mainStep a s.main = some t) :
    t.Inv := by
  have hprogress := h.progress
  have hheld : s.main.holds = true → s.mutex = some .starter := h.starter.mpr
  unfold Startup.mainStep at hstep
  split at hstep
  · next hmain =>
    obtain ⟨hfree, he⟩ := Option.ite_none_right_eq_some.mp hstep
    cases he
    rw [hmain] at hprogress
    exact h.main rfl rfl (by rw [hmain]; rfl) ⟨fun _ => rfl, fun _ => rfl⟩
      (fun i he => by cases he) hprogress
  · next hmain =>
    rw [hmain] at hprogress hheld
    have hstarter := hheld rfl
    have hworker : ∀ i, s.mutex ≠ some (.worker i) := by
      intro i he
      rw [hstarter] at he
      cases he
    split at hstep
    · next hstopping =>
      cases hstep
      refine h.main rfl rfl (by rw [hmain]; rfl) ⟨fun _ => rfl, fun _ => hstarter⟩ hworker ?_
      change (if s.stopping then s.Untouched else _)
      rw [if_pos hstopping]
      exact hprogress
    · next hstopping =>
      cases hstep
      obtain ⟨hcreated, hthreads, hids⟩ := hprogress
      refine h.main rfl rfl (by rw [hmain]; rfl) ⟨fun _ => rfl, fun _ => hstarter⟩ hworker ?_
      refine ⟨Bool.not_eq_true _ ▸ hstopping, hcreated, Nat.zero_le _, ?_, rfl, ?_⟩
      · exact hids.trans (List.append_nil _).symm
      · intro i hi
        exact absurd hi (Nat.not_lt_zero i)
  · next i hmain =>
    rw [hmain] at hprogress
    obtain ⟨hlt, he⟩ := Option.ite_none_right_eq_some.mp hstep
    split at he
    · cases he
      exact h.create hmain hlt _
    · cases he
      obtain ⟨-, hcreated, -, hstored⟩ := hprogress
      refine h.main rfl rfl (by rw [hmain]; rfl) ⟨(fun he => by cases he), (fun he => by cases he)⟩
        (fun i he => by cases he) ⟨?_, ?_⟩
      · exact hcreated ▸ hlt
      · change Stored _ s.created
        rw [hcreated]
        exact hstored.mono rfl rfl rfl rfl (fun _ _ => ⟨rfl, id⟩)
  · next i hmain =>
    rw [hmain] at hprogress hheld
    have hstarter := hheld rfl
    obtain ⟨hout, he⟩ := Option.ite_none_right_eq_some.mp hstep
    cases he
    obtain ⟨hstopping, hcreated, hlt, hstored⟩ := hprogress
    refine h.main rfl rfl (by rw [hmain]; rfl) ⟨fun _ => rfl, fun _ => hstarter⟩ ?_
      ⟨hstopping, hcreated, hlt, ?_, ?_⟩
    · intro i he
      rw [hstarter] at he
      cases he
    · exact hstored.mono rfl rfl rfl rfl (fun _ _ => ⟨rfl, id⟩)
    · exact (h.ok i (by omega)).signalled hout
  · next i hmain =>
    rw [hmain] at hprogress hheld
    have hstarter := hheld rfl
    cases hstep
    obtain ⟨hstopping, hcreated, hlt, hstored, hsignalled⟩ := hprogress
    have hid := (h.ok i (by omega)).named (Thread.hasId_of_hasSignalled hsignalled)
    refine h.main rfl rfl (by rw [hmain]; rfl) ⟨fun _ => rfl, fun _ => hstarter⟩ ?_
      ⟨hstopping, hcreated, hlt, hstored.store hlt hsignalled hid⟩
    intro i he
    rw [hstarter] at he
    cases he
  · next i hmain =>
    rw [hmain] at hprogress hheld
    have hstarter := hheld rfl
    obtain ⟨hle, he⟩ := Option.ite_none_right_eq_some.mp hstep
    cases he
    obtain ⟨hstopping, hcreated, hi, hstored⟩ := hprogress
    obtain rfl := Nat.le_antisymm hi hle
    refine h.main rfl rfl (by rw [hmain]; rfl) ⟨fun _ => rfl, fun _ => hstarter⟩ ?_ ?_
    · intro i he
      rw [hstarter] at he
      cases he
    · change (if s.stopping then _ else _ ∧ _)
      rw [hstopping]
      exact ⟨hcreated, hstored.mono rfl rfl rfl rfl (fun _ _ => ⟨rfl, id⟩)⟩
  · next hmain =>
    rw [hmain] at hprogress
    have hcomplete : s.Progress .returned := hprogress
    cases hstep
    exact h.main rfl rfl (by rw [hmain]; rfl) ⟨(fun he => by cases he), (fun he => by cases he)⟩
      (fun i he => by cases he) (hcomplete.mono rfl rfl rfl rfl rfl rfl (fun _ => ⟨rfl, id⟩))
  · cases hstep

theorem step_inv {a : StartAction} (h : s.Inv) (hstep : step s a = some t) : t.Inv := by
  cases a with
  | thread i a =>
    obtain ⟨y, hy, rfl⟩ := Option.map_eq_some_iff.mp hstep
    exact h.thread hy
  | enter i | exit i | again i => exact h.workerStep hstep
  | _ => exact h.mainStep hstep

theorem always_inv (threadCount : Nat) (stopping : Bool) (roots : List Int)
    (as : List StartAction) :
    Always step Inv { threadCount := threadCount, stopping := stopping, roots := roots } as := by
  refine always_of_step (fun _ _ _ hs hstep => step_inv hs hstep) ?_ as
  refine ⟨⟨(fun he => by cases he), (fun he => by cases he)⟩, ?_, ?_, ?_, fun _ _ => rfl,
    rfl, rfl, rfl⟩
  · intro i
    exact ⟨(fun he => by cases he), (fun he => by cases he)⟩
  · intro i
    exact ⟨fun _ => Nat.zero_le i, fun _ => rfl⟩
  · intro i hi
    exact absurd hi (Nat.not_lt_zero i)

/-- What holds of `start` and its threads at every moment. -/
structure Started (s : Startup) : Prop where
  /-- A worker looks for a task only when `start` is over, and two of them never at once. -/
  works : ∀ i, (s.thread i).pc.works = true → s.main.over = true
  exclusive : ∀ i j, (s.thread i).pc = .inSection → (s.thread j).pc = .inSection → i = j
  /-- No id is stored before its thread has set it. -/
  returned : s.main = .returned → s.Complete
  threw : s.main = .threw → s.created < s.threadCount ∧ s.Stored s.created

/-- However the threads of a scheduler are interleaved, and however often they are woken for no
reason. -/
theorem always_started (threadCount : Nat) (stopping : Bool) (roots : List Int)
    (as : List StartAction) :
    Always step Started { threadCount := threadCount, stopping := stopping, roots := roots } as := by
  refine (always_inv threadCount stopping roots as).mono ?_
  intro s h
  refine ⟨?_, ?_, ?_, ?_⟩
  · intro i hi
    by_contra hno
    rw [h.early (Bool.not_eq_true _ ▸ hno) i] at hi
    cases hi
  · intro i j hi hj
    have hheld := ((h.worker i).mpr hi).symm.trans ((h.worker j).mpr hj)
    exact Holder.worker.inj (Option.some.inj hheld)
  · intro hmain
    have hprogress := h.progress
    rw [hmain] at hprogress
    exact hprogress
  · intro hmain
    have hprogress := h.progress
    rw [hmain] at hprogress
    exact hprogress

end Startup
end CoroutineRpc.Coroutine
