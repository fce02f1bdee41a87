import CoroutineRpc.Coroutine.Dispatcher

/-! What `delEvent`, `cancelEvent` and `cancelAll` tell their caller. All three answer true when
`epoll_ctl` fails, as -1 is true, and have then changed nothing. -/
namespace CoroutineRpc.Coroutine

/-- The operations that remove registrations of a descriptor. -/
inductive Removal where
  | delEvent (e : Event)
  | cancelEvent (e : Event)
  | cancelAll
  deriving DecidableEq, Repr

namespace Removal
variable {σ φ κ : Type}

/-- The registrations that a removal asks for, among those that exist. -/
def requested (events : Events) : Removal → Events
  | .delEvent e | .cancelEvent e => if events.has e then ({} : Events).add e else {}
  | .cancelAll => events

/-- The waiters that a removal hands over; `delEvent` drops its waiter. -/
def scheduled (x : FdContext σ φ κ) : Removal → List (σ × Task φ κ)
  | .delEvent _ => []
  | .cancelEvent e => x.waiters (requested x.events (.cancelEvent e))
  | .cancelAll => x.waiters (requested x.events .cancelAll)

end Removal

namespace IOManager
variable {σ φ κ : Type}

def remove (m : IOManager σ φ κ) (fd : Nat) (ok : Bool) :
    Removal → Option (Bool × IOManager σ φ κ)
  | .delEvent e => some (m.delEvent fd e ok)
  | .cancelEvent e => m.cancelEvent fd e ok
  | .cancelAll => m.cancelAll fd ok

/-- Some registration that the removal asks for exists. -/
def Requested (m : IOManager σ φ κ) (fd : Nat) (op : Removal) : Prop :=
  fd < m.size ∧ op.requested (m.contexts fd).events ≠ {}

/-- The contexts, the counter and the queue are as they were. -/
structure Untouched (m m' : IOManager σ φ κ) : Prop where
  contexts : m'.contexts = m.contexts
  pending : m'.pendingEventCount = m.pendingEventCount
  tasks : m'.tasks = m.tasks

/-- The requested registrations are gone, and each had one waiter to hand over. -/
structure Removed (m : IOManager σ φ κ) (fd : Nat) (op : Removal) (m' : IOManager σ φ κ) :
    Prop where
  contexts : m'.contexts = Function.update m.contexts fd
    ((m.contexts fd).clearMask (op.requested (m.contexts fd).events))
  pending : m'.pendingEventCount + (op.requested (m.contexts fd).events).card =
    m.pendingEventCount
  tasks : m'.tasks = m.tasks ++ op.scheduled (m.contexts fd)
  once : ∀ e, (op.requested (m.contexts fd).events).has e = true → ∃ scheduler task,
    ((m.contexts fd).getEventContext e).scheduler = some scheduler ∧
      ((m.contexts fd).getEventContext e).task = some task ∧
      (m.contexts fd).waiter e = [(scheduler, task)]

/-- A removal answers true exactly when it has removed what was asked for; an answer of false
and a failing `epoll_ctl` mean false and no change. -/
def Truthful (m : IOManager σ φ κ) (fd : Nat) (op : Removal) (ok : Bool) : Prop :=
  ∃ r m', m.remove fd ok op = some (r, m') ∧
    (r = true ↔ m.Requested fd op ∧ Removed m fd op m') ∧
    (r = false → Untouched m m') ∧ (ok = false → r = false ∧ Untouched m m')

private theorem Refused.untouched {m m' : IOManager σ φ κ} {op : CtlOp} (h : Refused m m' op) :
    Untouched m m' := ⟨h.contexts, h.pending, h.tasks⟩

end IOManager

private theorem Removal.requested_subset (events : Events) (op : Removal) :
    (op.requested events).Subset events := by
  intro e he
  cases op with
  | delEvent e' | cancelEvent e' =>
    rw [requested] at he
    split at he
    · next hbit =>
      rw [Events.has_add] at he
      cases e with
      | read => cases e' with
        | read => exact hbit
        | write => cases he
      | write => cases e' with
        | read => cases he
        | write => exact hbit
    · cases e with
      | read => cases he
      | write => cases he
  | cancelAll => exact he

namespace FdContext
variable {σ φ κ : Type}

private theorem clearMask_single (x : FdContext σ φ κ) (e : Event) :
    x.clearMask (({} : Events).add e) = x.clear e := by
  cases e with
  | read => rfl
  | write => rfl

private theorem waiters_single (x : FdContext σ φ κ) (e : Event) :
    x.waiters (({} : Events).add e) = x.waiter e := by
  cases e with
  | read => exact List.append_nil _
  | write => rfl

/-- A registered event has one waiter. -/
theorem WellFormed.waiter_once {x : FdContext σ φ κ} (h : x.WellFormed) {e : Event}
    (he : x.events.has e = true) : ∃ scheduler task,
      (x.getEventContext e).scheduler = some scheduler ∧
        (x.getEventContext e).task = some task ∧ x.waiter e = [(scheduler, task)] := by
  obtain ⟨scheduler, task, hs, ht, -⟩ := triggerEvent_registered h he
  exact ⟨scheduler, task, hs, ht, by rw [waiter, hs, ht]⟩

end FdContext

namespace IOManager
variable {σ φ κ : Type} {m : IOManager σ φ κ} {fd : Nat}

/-- What a rewriting of the requested registrations amounts to. -/
theorem removed_of_rewritten (h : m.Consistent) {op : Removal} {m' : IOManager σ φ κ}
    (hr : Rewritten m fd ((m.contexts fd).clearMask (op.requested (m.contexts fd).events))
      (op.scheduled (m.contexts fd)) m') : Removed m fd op m' := by
  have hsub := op.requested_subset (m.contexts fd).events
  refine ⟨hr.contexts, ?_, hr.tasks, ?_⟩
  · have hcard := Events.card_diff hsub
    have hpending := hr.pending
    rw [FdContext.clearMask_events] at hpending
    simp only [Events.card] at *
    omega
  · exact fun e he => (h.wellFormed fd).waiter_once (hsub e he)

private theorem requested_iff_holds {op : Removal} {e : Event}
    (hop : op.requested (m.contexts fd).events =
      if (m.contexts fd).events.has e then ({} : Events).add e else {}) :
    m.Requested fd op ↔ m.Holds fd e := by
  rw [Requested, Holds, hop]
  apply and_congr_right
  intro _
  split
  · next hbit => exact iff_of_true (Events.add_ne_empty _ e) hbit
  · next hbit => exact iff_of_false (fun hne => hne rfl) hbit

/-- One specification for the three. -/
theorem remove_spec (h : m.Consistent) (fd : Nat) (op : Removal) (ok : Bool) :
    (¬ m.Requested fd op ∧ m.remove fd ok op = some (false, m)) ∨
    (m.Requested fd op ∧ ∃ m', m.remove fd ok op = some (true, m') ∧
      ((ok = false ∧ Untouched m m') ∨ (ok = true ∧ Removed m fd op m'))) := by
  cases op with
  | delEvent e =>
    rw [requested_iff_holds (e := e) rfl]
    rcases delEvent_spec h fd e ok with ⟨hnone, hd⟩ | ⟨hheld, m', hd, hcases⟩
    · exact Or.inl ⟨hnone, congrArg some hd⟩
    · refine Or.inr ⟨hheld, m', congrArg some hd, hcases.imp ?_ ?_⟩
      · rintro ⟨hok, _, hr⟩
        exact ⟨hok, hr.untouched⟩
      · rintro ⟨hok, hr⟩
        refine ⟨hok, removed_of_rewritten h ?_⟩
        rwa [Removal.requested, if_pos hheld.2, FdContext.clearMask_single]
  | cancelEvent e =>
    rw [requested_iff_holds (e := e) rfl]
    rcases cancelEvent_spec h fd e ok with ⟨hnone, hc⟩ | ⟨hheld, m', hc, hcases⟩
    · exact Or.inl ⟨hnone, hc⟩
    · refine Or.inr ⟨hheld, m', hc, hcases.imp ?_ ?_⟩
      · rintro ⟨hok, _, hr⟩
        exact ⟨hok, hr.untouched⟩
      · rintro ⟨hok, hr⟩
        refine ⟨hok, removed_of_rewritten h ?_⟩
        rwa [Removal.scheduled, Removal.requested, if_pos hheld.2, FdContext.clearMask_single,
          FdContext.waiters_single]
  | cancelAll =>
    rcases cancelAll_spec h fd ok with ⟨hnone, hc⟩ | ⟨hheld, m', hc, hcases⟩
    · exact Or.inl ⟨hnone, hc⟩
    · refine Or.inr ⟨hheld, m', hc, hcases.imp ?_ ?_⟩
      · rintro ⟨hok, _, hr⟩
        exact ⟨hok, hr.untouched⟩
      · rintro ⟨hok, hr⟩
        exact ⟨hok, removed_of_rewritten h hr⟩

private theorem not_truthful_of_true {op : Removal} {m' : IOManager σ φ κ}
    (h : m.remove fd false op = some (true, m')) : ¬ m.Truthful fd op false := by
  rintro ⟨r, m'', hr, -, -, hfail⟩
  rw [h] at hr
  cases hr
  exact Bool.false_ne_true (hfail rfl).1.symm

private theorem truthful_iff (h : m.Consistent) (fd : Nat) (op : Removal) (ok : Bool) :
    m.Truthful fd op ok ↔ ¬ (m.Requested fd op ∧ ok = false) := by
  rcases remove_spec h fd op ok with ⟨hnone, hr⟩ | ⟨hrequested, m', hr, hcases⟩
  · refine iff_of_true ?_ (fun hboth => hnone hboth.1)
    refine ⟨false, m, hr, ?_, fun _ => ⟨rfl, rfl, rfl⟩, fun _ => ⟨rfl, rfl, rfl, rfl⟩⟩
    exact iff_of_false Bool.false_ne_true (fun hboth => hnone hboth.1)
  rcases hcases with ⟨rfl, -⟩ | ⟨hok, hremoved⟩
  · exact iff_of_false (not_truthful_of_true hr) (fun hnot => hnot ⟨hrequested, rfl⟩)
  · refine iff_of_true ?_ (fun hboth => Bool.false_ne_true (hboth.2.symm.trans hok))
    refine ⟨true, m', hr, iff_of_true rfl ⟨hrequested, hremoved⟩, ?_, ?_⟩
    · exact fun hf => absurd hf.symm Bool.false_ne_true
    · exact fun hf => absurd (hf.symm.trans hok) Bool.false_ne_true

end IOManager

namespace Dispatcher
variable {ω σ φ κ : Type} [DecidableEq ω]

/-- In every state that no assertion has ended, a removal tells the truth unless it has something
to remove and `epoll_ctl` fails. -/
theorem removal_truthful_iff {s : Dispatcher ω σ φ κ}
    (hreach : Transition.Reachable step (fun s => s = {}) s) (halive : s.aborted = false)
    (fd : Nat) (op : Removal) (ok : Bool) :
    s.manager.Truthful fd op ok ↔ ¬ (s.manager.Requested fd op ∧ ok = false) := by
  obtain ⟨start, as, rfl, hrun⟩ := hreach
  exact IOManager.truthful_iff ((always_consistent as).finish hrun halive) fd op ok

/-- A fiber waits for reading on descriptor 0. -/
def oneReader : Dispatcher Nat Unit Nat Unit :=
  Dispatcher.settle {} ((({} : IOManager Unit Nat Unit).addEvent 0 .read () 1 none true).map (·.2))

private theorem oneReader_reachable :
    Transition.Reachable step (fun s => s = {}) oneReader :=
  ⟨{}, [.addEvent 0 .read () 1 none true], rfl, rfl⟩

theorem reader_removed_truthfully :
    oneReader.manager.Truthful 0 (.cancelEvent .read) true ∧
      oneReader.manager.Truthful 99 .cancelAll false := by
  constructor
  · apply (removal_truthful_iff oneReader_reachable rfl 0 _ true).mpr
    rintro ⟨-, hok⟩
    cases hok
  · apply (removal_truthful_iff oneReader_reachable rfl 99 _ false).mpr
    rintro ⟨⟨hsize, -⟩, -⟩
    exact absurd hsize (by decide)

/-- When `epoll_ctl` fails all three say that they have removed the reader. -/
theorem failed_removals_answer_true :
    Transition.Reachable step (fun s => s = {}) oneReader ∧ oneReader.aborted = false ∧
      ¬ oneReader.manager.Truthful 0 (.delEvent .read) false ∧
      ¬ oneReader.manager.Truthful 0 (.cancelEvent .read) false ∧
      ¬ oneReader.manager.Truthful 0 .cancelAll false :=
  ⟨oneReader_reachable, rfl, IOManager.not_truthful_of_true rfl,
    IOManager.not_truthful_of_true rfl, IOManager.not_truthful_of_true rfl⟩

end Dispatcher
end CoroutineRpc.Coroutine
