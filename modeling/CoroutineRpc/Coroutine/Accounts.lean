import CoroutineRpc.Coroutine.PoolSteps
import CoroutineRpc.Library.Sums
import Mathlib.Algebra.BigOperators.Group.Finset.Piecewise

/-! The accounts of a pool: how often each accepted task is queued, held by a worker or
finished, in which order unpinned tasks are taken, and what the counter counts. -/
namespace CoroutineRpc.Coroutine
variable {ι φ κ : Type}

/-- The task that a worker has taken and not finished. -/
def Phase.held : Phase φ κ → Option (Queued φ κ)
  | .tickling h | .writing h => h
  | .starting q | .executing q _ | .finishing q _ => some q
  | _ => none

@[simp] theorem Phase.held_scanning : (Phase.scanning : Phase φ κ).held = none := rfl

/-- The worker has resumed or discarded the fiber of its task. -/
def Phase.OnFiber : Phase φ κ → Prop
  | .executing _ _ | .finishing _ _ => True
  | _ => False

namespace Pool

/-- How many workers hold the task with this number. -/
def holders (workers : Finset Nat) (s : Pool ι φ κ) (n : Nat) : Nat :=
  ∑ w ∈ workers, if (s.phase w).held.map (·.seq) = some n then 1 else 0

/-- How many workers are between taking a task and finishing it. -/
def busy (workers : Finset Nat) (s : Pool ι φ κ) : Nat :=
  (workers.filter (fun w => (s.phase w).held.isSome)).card

/-- The numbers of the unpinned tasks, first those that were taken, then those queued. -/
def unpinned (s : Pool ι φ κ) : List Nat :=
  s.taken ++ (s.tasks.filter (·.thread.isNone)).map (·.seq)

/-- A task is for the worker that has it. -/
def Fits (q : Queued φ κ) (w : Nat) : Prop := q.thread = none ∨ q.thread = some w

/-- The accounts of the tasks. -/
structure Accounts (workers : Finset Nat) (s : Pool ι φ κ) : Prop where
  once : ∀ n, (s.tasks.map (·.seq)).count n + holders workers s n +
    (s.finished.map (·.q.seq)).count n = if n < s.accepted then 1 else 0
  held_fits : ∀ w ∈ workers, ∀ q, (s.phase w).held = some q → Fits q w
  finished_fits : ∀ r ∈ s.finished, Fits r.q r.worker
  order : s.unpinned.Pairwise (· < ·)
  known : ∀ n ∈ s.unpinned, n < s.accepted
  active : s.active = busy workers s

/-- Steps that leave every task where it is keep the accounts. -/
theorem Accounts.congr {workers : Finset Nat} {s t : Pool ι φ κ} (h : Accounts workers s)
    (htasks : t.tasks = s.tasks) (haccepted : t.accepted = s.accepted) (htaken : t.taken = s.taken)
    (hfinished : t.finished = s.finished) (hactive : t.active = s.active)
    (hheld : ∀ w ∈ workers, (t.phase w).held = (s.phase w).held) : Accounts workers t := by
  have hholders : ∀ n, holders workers t n = holders workers s n := by
    intro n
    apply Finset.sum_congr rfl
    intro w hw
    rw [hheld w hw]
  have hbusy : busy workers t = busy workers s := by
    unfold busy
    congr 1
    apply Finset.filter_congr
    intro w hw
    rw [hheld w hw]
  have hunpinned : t.unpinned = s.unpinned := by rw [unpinned, unpinned, htasks, htaken]
  refine ⟨?_, ?_, ?_, ?_, ?_, ?_⟩
  · intro n
    rw [htasks, hholders, hfinished, haccepted]
    exact h.once n
  · intro w hw q hq
    exact h.held_fits w hw q (hheld w hw ▸ hq)
  · rw [hfinished]
    exact h.finished_fits
  · rw [hunpinned]
    exact h.order
  · rw [hunpinned, haccepted]
    exact h.known
  · rw [hactive, hbusy]
    exact h.active

private theorem held_move (s : Pool ι φ κ) {w : Nat} {p : Phase φ κ} (h : p.held = (s.phase w).held)
    (w' : Nat) : ((s.move w p).phase w').held = (s.phase w').held := by
  by_cases hne : w' = w
  · subst hne
    rw [move_same, h]
  · rw [s.move_other p hne]

/-- One worker's move changes the holders of a task by what that worker holds. -/
theorem holders_move {workers : Finset Nat} {s t : Pool ι φ κ} {w : Nat} (hw : w ∈ workers)
    (hother : ∀ w', w' ≠ w → t.phase w' = s.phase w') (n : Nat) :
    holders workers t n + (if (s.phase w).held.map (·.seq) = some n then 1 else 0) =
      holders workers s n + (if (t.phase w).held.map (·.seq) = some n then 1 else 0) :=
  sum_change (f := fun w' => if (t.phase w').held.map (·.seq) = some n then 1 else 0)
    (g := fun w' => if (s.phase w').held.map (·.seq) = some n then 1 else 0) hw
    (fun w' _ hne => by rw [hother w' hne])

theorem busy_move {workers : Finset Nat} {s t : Pool ι φ κ} {w : Nat} (hw : w ∈ workers)
    (hother : ∀ w', w' ≠ w → t.phase w' = s.phase w') :
    busy workers t + (if (s.phase w).held.isSome then 1 else 0) =
      busy workers s + (if (t.phase w).held.isSome then 1 else 0) := by
  simp only [busy, Finset.card_filter]
  exact sum_change (f := fun w' => if (t.phase w').held.isSome then 1 else 0)
    (g := fun w' => if (s.phase w').held.isSome then 1 else 0) hw
    (fun w' _ hne => by rw [hother w' hne])


/-- A worker that goes on with what it holds, or with nothing as before. -/
theorem Accounts.move {workers : Finset Nat} {s : Pool ι φ κ} (h : Accounts workers s) {w : Nat}
    {p : Phase φ κ} (hheld : p.held = (s.phase w).held) : Accounts workers (s.move w p) :=
  h.congr rfl rfl rfl rfl rfl (fun w' _ => held_move s hheld w')

theorem afterTickle_onFiber (q : Option (Queued φ κ)) : ¬ (afterTickle q).OnFiber := by
  cases q <;> exact id

@[simp] theorem afterTickle_held (q : Option (Queued φ κ)) : (afterTickle q).held = q := by
  cases q <;> rfl

/-- The worker that took `q` out of the middle of the queue holds it. -/
def take (s : Pool ι φ κ) (w : Nat) (p : Phase φ κ) (q : Queued φ κ)
    (left : List (Queued φ κ)) : Pool ι φ κ :=
  { s.move w p with
    tasks := left, active := s.active + 1
    taken := if q.thread.isNone then s.taken ++ [q.seq] else s.taken }

/-- A scan takes the first task that is not pinned elsewhere, or leaves the queue alone. -/
theorem scan_cases (s : Pool ι φ κ) (w : Nat) :
    (∃ p, p.held = none ∧ ¬ p.OnFiber ∧ s.scan w = s.move w p) ∨
    ∃ q before after p, s.tasks = before ++ q :: after ∧ q.skipped w = false ∧
      (∀ b ∈ before, b.skipped w = true) ∧ p.held = some q ∧ ¬ p.OnFiber ∧
      s.scan w = s.take w p q (before ++ after) := by
  have hsome := @scanTasks_some φ κ w s.tasks
  unfold scan
  generalize scanTasks w s.tasks = r at hsome ⊢
  obtain ⟨found, left, tickleMe⟩ := r
  cases found with
  | none =>
    cases tickleMe with
    | true => exact Or.inl ⟨.tickling none, rfl, id, rfl⟩
    | false => exact Or.inl ⟨.noTask, rfl, id, rfl⟩
  | some q =>
    obtain ⟨before, after, htasks, hleft, hq, hbefore⟩ := hsome rfl
    obtain rfl : left = before ++ after := hleft
    cases tickleMe with
    | true => exact Or.inr ⟨q, before, after, .tickling (some q), htasks, hq, hbefore, rfl, id, rfl⟩
    | false => exact Or.inr ⟨q, before, after, .starting q, htasks, hq, hbefore, rfl, id, rfl⟩

private theorem Queued.skipped_eq_false {q : Queued φ κ} {w : Nat} (h : q.skipped w = false) :
    Fits q w := by
  cases hthread : q.thread with
  | none => exact Or.inl hthread
  | some w' =>
    have hw : w' = w := by simpa [Queued.skipped, hthread] using h
    exact Or.inr (hw ▸ hthread)

/-- Skipped tasks are pinned, so an unpinned task is taken in its turn. -/
theorem unpinned_take {s : Pool ι φ κ} {w : Nat} {q : Queued φ κ} {before after : List (Queued φ κ)}
    (htasks : s.tasks = before ++ q :: after) (hbefore : ∀ b ∈ before, b.skipped w = true)
    (p : Phase φ κ) : (s.take w p q (before ++ after)).unpinned = s.unpinned := by
  have hpinned : before.filter (·.thread.isNone) = [] := by
    apply List.filter_eq_nil_iff.mpr
    intro b hb
    have hthread : b.thread.isSome = true := (Bool.and_eq_true_iff.mp (hbefore b hb)).1
    simpa using Option.isSome_iff_ne_none.mp hthread
  unfold unpinned
  rw [htasks]
  cases hthread : q.thread <;> simp [take, hpinned, hthread]

/-- A step that moves a task from the queue to a worker. -/
theorem Accounts.take {workers : Finset Nat} {s : Pool ι φ κ} (h : Accounts workers s) {w : Nat}
    (hw : w ∈ workers) (hfree : (s.phase w).held = none) {q : Queued φ κ}
    {before after : List (Queued φ κ)} {p : Phase φ κ} (htasks : s.tasks = before ++ q :: after)
    (hq : q.skipped w = false) (hbefore : ∀ b ∈ before, b.skipped w = true)
    (hp : p.held = some q) : Accounts workers (s.take w p q (before ++ after)) := by
  have hother : ∀ w', w' ≠ w → (s.take w p q (before ++ after)).phase w' = s.phase w' :=
    fun w' hne => s.move_other p hne
  have hsame : ((s.take w p q (before ++ after)).phase w).held = some q := by
    rw [← hp]
    exact congrArg _ (move_same s w p)
  have hunpinned := unpinned_take htasks hbefore p
  refine ⟨?_, ?_, h.finished_fits, ?_, ?_, ?_⟩
  · intro n
    have honce := h.once n
    have hholders := holders_move hw hother n
    rw [hsame, hfree] at hholders
    rw [htasks] at honce
    change ((before ++ after).map (·.seq)).count n + _ + (s.finished.map (·.q.seq)).count n =
      if n < s.accepted then 1 else 0
    simp only [List.map_append, List.map_cons, List.count_append, List.count_cons,
      Option.map_some, Option.map_none, Option.some.injEq, reduceCtorEq, if_false,
      beq_iff_eq] at honce hholders ⊢
    omega
  · intro w' hw' q' hq'
    by_cases hne : w' = w
    · subst hne
      obtain rfl : q = q' := Option.some.inj (hsame.symm.trans hq')
      exact Queued.skipped_eq_false hq
    · exact h.held_fits w' hw' q' (hother w' hne ▸ hq')
  · rw [hunpinned]
    exact h.order
  · rw [hunpinned]
    exact h.known
  · have hbusy := busy_move hw hother
    rw [hsame, hfree] at hbusy
    have hactive := h.active
    simp only [Option.isSome_some, Option.isSome_none, if_true, Bool.false_eq_true,
      if_false] at hbusy
    change s.active + 1 = _
    omega

/-- A step in which a worker gives its task back as finished. -/
theorem Accounts.finish {workers : Finset Nat} {s : Pool ι φ κ} (h : Accounts workers s) {w : Nat}
    (hw : w ∈ workers) {q : Queued φ κ} {resumed : Bool} (phase : s.phase w = .finishing q resumed) :
    Accounts workers { s.move w .scanning with
      active := s.active - 1, finished := ⟨q, w, resumed⟩ :: s.finished } := by
  have hholds : (s.phase w).held = some q := by rw [phase]; rfl
  have hother : ∀ w', w' ≠ w → (s.move w .scanning).phase w' = s.phase w' :=
    fun w' hne => s.move_other .scanning hne
  have hsame : ((s.move w .scanning).phase w).held = none := by rw [move_same]; rfl
  refine ⟨?_, ?_, ?_, h.order, h.known, ?_⟩
  · intro n
    have honce := h.once n
    have hholders := holders_move hw hother n
    rw [hsame, hholds] at hholders
    change (s.tasks.map (·.seq)).count n + holders workers (s.move w .scanning) n +
      (q.seq :: s.finished.map (·.q.seq)).count n = if n < s.accepted then 1 else 0
    simp only [List.count_cons, Option.map_some, Option.map_none, Option.some.injEq, reduceCtorEq,
      if_false, beq_iff_eq] at honce hholders ⊢
    omega
  · intro w' hw' q' hq'
    by_cases hne : w' = w
    · subst hne
      exact absurd (hsame.symm.trans hq') (by simp)
    · exact h.held_fits w' hw' q' (hother w' hne ▸ hq')
  · exact List.forall_mem_cons.mpr ⟨h.held_fits w hw q hholds, h.finished_fits⟩
  · have hbusy := busy_move hw hother
    rw [hsame, hholds] at hbusy
    have hactive := h.active
    simp only [Option.isSome_some, Option.isSome_none, if_true, Bool.false_eq_true,
      if_false] at hbusy
    change s.active - 1 = (busy workers (s.move w .scanning) : Int)
    omega

/-- A task that is accepted goes to the end of the queue under a new number. -/
theorem Accounts.push {workers : Finset Nat} {s : Pool ι φ κ} (h : Accounts workers s)
    (task : Option (Task φ κ)) (thread : Option Nat) : Accounts workers (s.push task thread) := by
  cases task with
  | none => exact h
  | some task =>
    have hunpinned : (s.push (some task) thread).unpinned =
        s.unpinned ++ if thread.isNone then [s.accepted] else [] := by
      cases thread <;> simp [unpinned, Pool.push]
    refine ⟨?_, h.held_fits, h.finished_fits, ?_, ?_, h.active⟩
    · intro n
      have honce := h.once n
      have hnew : (if n < s.accepted + 1 then 1 else 0) =
          (if n < s.accepted then 1 else 0) + if s.accepted = n then 1 else 0 := by
        split_ifs <;> omega
      change ((s.tasks ++ [Queued.mk s.accepted task thread]).map (·.seq)).count n +
        holders workers s n + (s.finished.map (·.q.seq)).count n = if n < s.accepted + 1 then 1 else 0
      rw [hnew]
      simp only [List.map_append, List.map_cons, List.map_nil, List.count_append,
        List.count_singleton, beq_iff_eq]
      omega
    · rw [hunpinned]
      apply List.pairwise_append.mpr
      refine ⟨h.order, ?_, ?_⟩
      · split <;> simp
      · intro n hn m hm
        have hlt := h.known n hn
        split at hm
        · rwa [List.mem_singleton.mp hm]
        · cases hm
    · rw [hunpinned]
      intro n hn
      change n < s.accepted + 1
      rcases List.mem_append.mp hn with hold | hnew
      · exact Nat.lt_succ_of_lt (h.known n hold)
      · split at hnew
        · rw [List.mem_singleton.mp hnew]
          exact Nat.lt_succ_self _
        · cases hnew

/-- With no task queued and none held, a pool that wants to stop may. -/
theorem Accounts.stopping {workers : Finset Nat} {s : Pool ι φ κ} (h : Accounts workers s)
    (hstop : s.isStopping = true) : s.tasks = [] ∧ ∀ w ∈ workers, (s.phase w).held = none := by
  simp only [isStopping, Bool.and_eq_true, List.isEmpty_iff, beq_iff_eq] at hstop
  obtain ⟨⟨-, htasks⟩, hactive⟩ := hstop
  have hbusy : busy workers s = 0 := by
    have := h.active
    omega
  refine ⟨htasks, fun w hw => ?_⟩
  have hidle := Finset.filter_eq_empty_iff.mp (Finset.card_eq_zero.mp hbusy) hw
  simpa using hidle

section Steps
variable [DecidableEq ι] [DecidableEq φ]

theorem step_accounts {workers : Finset Nat} {s t : Pool ι φ κ} {a : PoolAction ι φ κ}
    (h : Accounts workers s) (hstep : step workers s a = some t) : Accounts workers t := by
  rcases step_to hstep with ⟨w, hw, hto⟩ | hto
  · cases hto with
    | scan phase =>
      rcases scan_cases s w with
        ⟨p, hp, -, heq⟩ | ⟨q, before, after, p, htasks, hq, hbefore, hp, -, heq⟩
      · rw [heq]
        exact h.move (by rw [hp, phase]; rfl)
      · rw [heq]
        exact h.take hw (by rw [phase]; rfl) htasks hq hbefore hp
    | @test held phase =>
      apply h.move
      rw [phase]
      split
      · rfl
      · exact afterTickle_held held
    | @write held phase =>
      have hheld : (afterTickle held).held = (s.phase w).held := by
        rw [phase, afterTickle_held]
        rfl
      exact (h.move hheld).congr rfl rfl rfl rfl rfl (fun _ _ => rfl)
    | @resume q f phase runs free ready =>
      have hheld : (Phase.executing q f).held = (s.phase w).held := by rw [phase]; rfl
      exact (h.move hheld).congr rfl rfl rfl rfl rfl (fun _ _ => rfl)
    | discard phase fiber term => exact h.move (by rw [phase]; rfl)
    | @pause q f done phase =>
      have hheld : (Phase.finishing q true).held = (s.phase w).held := by rw [phase]; rfl
      exact (h.move hheld).congr rfl rfl rfl rfl rfl (fun _ _ => rfl)
    | finish phase => exact h.finish hw phase
    | exit phase => exact h.move (by rw [phase]; rfl)
    | idle phase =>
      have hheld : (Phase.entering : Phase φ κ).held = (s.phase w).held := by rw [phase]; rfl
      exact (h.move hheld).congr rfl rfl rfl rfl rfl (fun _ _ => rfl)
    | stop phase stopping =>
      have hheld : (Phase.leaving : Phase φ κ).held = (s.phase w).held := by rw [phase]; rfl
      exact (h.move hheld).congr rfl rfl rfl rfl rfl (fun _ _ => rfl)
    | wait phase => exact h.move (by rw [phase]; rfl)
    | wake phase => exact h.move (by rw [phase]; rfl)
    | drain phase => exact h.congr rfl rfl rfl rfl rfl (fun _ _ => rfl)
    | yield phase => exact h.move (by rw [phase]; rfl)
    | leave phase =>
      have hheld : (Phase.scanning : Phase φ κ).held = (s.phase w).held := by rw [phase]; rfl
      exact (h.move hheld).congr rfl rfl rfl rfl rfl (fun _ _ => rfl)
  · cases hto with
    | submit task thread free => exact (h.push task thread).congr rfl rfl rfl rfl rfl (fun _ _ => rfl)
    | tickle free => exact h.congr rfl rfl rfl rfl rfl (fun _ _ => rfl)
    | test testing => exact h.congr rfl rfl rfl rfl rfl (fun _ _ => rfl)
    | write writing => exact h.congr rfl rfl rfl rfl rfl (fun _ _ => rfl)
    | stop => exact h.congr rfl rfl rfl rfl rfl (fun _ _ => rfl)

end Steps

end Pool
end CoroutineRpc.Coroutine
