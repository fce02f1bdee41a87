import CoroutineRpc.Coroutine.Close
import CoroutineRpc.Coroutine.Operations

/-! When a `close` leaves nobody behind. A registration is removed together with the delivery
of its fiber; what `cancelAll` does not see stays, since `epoll_ctl` fails afterwards. -/
namespace CoroutineRpc.Coroutine

namespace FdContext
variable {σ φ κ : Type}

private theorem clearMask_other (x : FdContext σ φ κ) {mask : Events} {e : Event}
    (h : mask.has e = false) : (x.clearMask mask).getEventContext e = x.getEventContext e := by
  cases e with
  | read =>
    have hread : x.clearIf .read mask = x := if_neg (by rw [h]; decide)
    rw [clearMask, hread, clearIf]
    split
    · exact x.clear_other (by decide)
    · rfl
  | write =>
    have hwrite : (x.clearIf .read mask).clearIf .write mask = x.clearIf .read mask :=
      if_neg (by rw [h]; decide)
    rw [clearMask, hwrite, clearIf]
    split
    · exact x.clear_other (by decide)
    · rfl

private theorem mem_waiters {x : FdContext σ φ κ} {mask : Events} {e : Event}
    (h : mask.has e = true) {q : σ × Task φ κ} (hq : q ∈ x.waiter e) : q ∈ x.waiters mask := by
  cases e with
  | read =>
    apply List.mem_append_left
    rwa [waiterIf, if_pos h]
  | write =>
    apply List.mem_append_right
    rwa [waiterIf, if_pos h]

/-- One event is a mask of its own. -/
theorem clear_eq_clearMask (x : FdContext σ φ κ) (e : Event) :
    x.clear e = x.clearMask (({} : Events).add e) ∧
      x.waiter e = x.waiters (({} : Events).add e) := by
  cases e with
  | read => exact ⟨rfl, (List.append_nil _).symm⟩
  | write => exact ⟨rfl, rfl⟩

end FdContext

namespace Events

private theorem has_diff (m n : Events) (e : Event) : (m.diff n).has e = (m.has e && !n.has e) := by
  cases e <;> rfl

end Events

namespace IOManager
variable {σ φ κ : Type}

/-- The registrations for a descriptor only go together with the delivery of their waiters. -/
structure Shrinks (fd : Nat) (m m' : IOManager σ φ κ) : Prop where
  kept : ∀ e, (m'.contexts fd).events.has e = true → (m.contexts fd).events.has e = true
  context : ∀ e, (m'.contexts fd).events.has e = true →
    (m'.contexts fd).getEventContext e = (m.contexts fd).getEventContext e
  handed : ∀ e, (m.contexts fd).events.has e = true → (m'.contexts fd).events.has e = false →
    ∀ q ∈ (m.contexts fd).waiter e, q ∈ m'.tasks
  tasks : m.tasks ⊆ m'.tasks

theorem Shrinks.of_contexts {fd : Nat} {m m' : IOManager σ φ κ} (hc : m'.contexts = m.contexts)
    (ht : m.tasks ⊆ m'.tasks) : Shrinks fd m m' where
  kept := fun e he => hc ▸ he
  context := fun e _ => by rw [hc]
  handed := by
    intro e he hgone
    rw [hc, he] at hgone
    cases hgone
  tasks := ht

theorem Refused.shrinks {fd : Nat} {m m' : IOManager σ φ κ} {op : CtlOp} (h : Refused m m' op) :
    Shrinks fd m m' :=
  .of_contexts h.contexts (fun _ hq => h.tasks.symm ▸ hq)

theorem Rewritten.shrinks {fd : Nat} {m m' : IOManager σ φ κ} {mask : Events}
    (h : Rewritten m fd ((m.contexts fd).clearMask mask) ((m.contexts fd).waiters mask) m') :
    Shrinks fd m m' := by
  have hself : m'.contexts fd = (m.contexts fd).clearMask mask := by
    rw [h.contexts, Function.update_self]
  have hhas : ∀ e, (m'.contexts fd).events.has e =
      ((m.contexts fd).events.has e && !mask.has e) := by
    intro e
    rw [hself, FdContext.clearMask_events, Events.has_diff]
  refine ⟨?_, ?_, ?_, ?_⟩
  · intro e he
    rw [hhas, Bool.and_eq_true] at he
    exact he.1
  · intro e he
    rw [hhas, Bool.and_eq_true, Bool.not_eq_true'] at he
    rw [hself, FdContext.clearMask_other _ he.2]
  · intro e he hgone q hq
    rw [hhas, he, Bool.true_and, Bool.not_eq_false'] at hgone
    rw [h.tasks]
    exact List.mem_append_right _ (FdContext.mem_waiters hgone hq)
  · intro q hq
    rw [h.tasks]
    exact List.mem_append_left _ hq

end IOManager

namespace Socket
variable {μ φ : Type}

/-- The waiter that `addEvent` notes for a fiber. -/
def fiberContext (f : φ) : EventContext Unit φ Unit := { scheduler := some (), fiber := some f }

/-- A suspended fiber is registered by the call it is in, or it has been delivered. -/
def Listed (fd : Nat) (s : Socket μ φ) (f : φ) (c : SocketCall μ) : Prop :=
  ((s.manager c.home).contexts fd).events.has c.event = true ∧
    ((s.manager c.home).contexts fd).getEventContext c.event = fiberContext f ∧
    s.made c.home c.event = c.early

structure Inv (fd : Nat) (s : Socket μ φ) : Prop where
  consistent : ∀ m, (s.manager m).Consistent
  waiting : ∀ f c, s.call f = some c → c.pc = .waiting →
    s.Listed fd f c ∨ ((), .fiber f) ∈ (s.manager c.home).tasks
  late : s.stage ≠ .opened → ∀ m e, ((s.manager m).contexts fd).events.has e = true →
    s.made m e = false

theorem Inv.released {fd : Nat} {s : Socket μ φ} (h : s.Inv fd) : s.CloseWakes fd := by
  intro hclosed
  have hlate := h.late (by rw [hclosed]; decide)
  refine ⟨hlate, fun m => (h.consistent m).pending, ?_⟩
  intro f c hcall hearly hpc
  rcases h.waiting f c hcall hpc with ⟨hhas, -, hmade⟩ | hqueued
  · rw [hlate c.home c.event hhas, hearly] at hmade
    cases hmade
  · exact hqueued

theorem Inv.fresh {fd : Nat} {s : Socket μ φ} (h : s.Fresh fd) : s.Inv fd where
  consistent := fun m => (h.1 m).1
  waiting := by
    intro f c hcall
    rw [h.2.1 f] at hcall
    cases hcall
  late := fun hstage => absurd h.2.2 hstage

private theorem mem_waiter {x : FdContext Unit φ Unit} {e : Event} {f : φ}
    (h : x.getEventContext e = fiberContext f) : ((), .fiber f) ∈ x.waiter e := by
  rw [FdContext.waiter, h]
  exact List.mem_singleton_self _

section Managers
variable [DecidableEq μ]

/-- A record of two indices, changed at one pair. -/
theorem made_update (made : μ → Event → Bool) (m m' : μ) (e e' : Event) (b : Bool) :
    Function.update made m (Function.update (made m) e b) m' e' =
      if m' = m ∧ e' = e then b else made m' e' := by
  by_cases hm : m' = m
  · subst hm
    rw [Function.update_self]
    by_cases he : e' = e
    · subst he
      rw [Function.update_self, if_pos ⟨rfl, rfl⟩]
    · rw [Function.update_of_ne he, if_neg (fun h => he h.2)]
  · rw [Function.update_of_ne hm, if_neg (fun h => hm h.1)]

theorem setManager_same (s : Socket μ φ) (m : μ) (x : IOManager Unit φ Unit) :
    (s.setManager m x).manager m = x := Function.update_self ..

theorem setManager_other (s : Socket μ φ) {m m' : μ} (x : IOManager Unit φ Unit) (h : m' ≠ m) :
    (s.setManager m x).manager m' = s.manager m' := Function.update_of_ne h ..

/-- Consistent managers stay so when a consistent one takes the place of one of them. -/
theorem Inv.consistent_setManager {fd : Nat} {s : Socket μ φ} (h : s.Inv fd) (m : μ)
    {x : IOManager Unit φ Unit} (hx : x.Consistent) (m' : μ) :
    ((s.setManager m x).manager m').Consistent := by
  rcases eq_or_ne m' m with rfl | hm
  · rwa [setManager_same]
  · rw [setManager_other s x hm]
    exact h.consistent m'

/-- An operation that delivers whom it drops keeps the invariant. -/
theorem Inv.shrinks {fd : Nat} {s : Socket μ φ} (h : s.Inv fd) {m : μ} {x : IOManager Unit φ Unit}
    (hx : x.Consistent) (hs : IOManager.Shrinks fd (s.manager m) x) : (s.setManager m x).Inv fd := by
  refine ⟨h.consistent_setManager m hx, ?_, ?_⟩
  · intro f c hcall hpc
    have hold := h.waiting f c hcall hpc
    by_cases hm : c.home = m
    · subst hm
      rw [Listed, setManager_same]
      rcases hold with ⟨hhas, hcontext, hmade⟩ | hqueued
      · by_cases hleft : (x.contexts fd).events.has c.event = true
        · exact Or.inl ⟨hleft, (hs.context _ hleft).trans hcontext, hmade⟩
        · have hgone : (x.contexts fd).events.has c.event = false := by simpa using hleft
          exact Or.inr (hs.handed _ hhas hgone _ (mem_waiter hcontext))
      · exact Or.inr (hs.tasks hqueued)
    · rw [Listed, setManager_other s x hm]
      exact hold
  · intro hstage m' e hhas
    by_cases hm : m' = m
    · subst hm
      rw [setManager_same] at hhas
      exact h.late hstage m' e (hs.kept e hhas)
    · rw [setManager_other s x hm] at hhas
      exact h.late hstage m' e hhas

/-- A registration changes one event of one manager. -/
theorem register_frame (s : Socket μ φ) {fd : Nat} {home : μ} {e : Event}
    {x : IOManager Unit φ Unit}
    {w : EventContext Unit φ Unit}
    (hcontext : x.contexts fd = ((s.manager home).contexts fd).register e w) {m : μ} {e' : Event}
    (hne : ¬ (m = home ∧ e' = e)) :
    (((s.setManager home x).manager m).contexts fd).events.has e' =
        ((s.manager m).contexts fd).events.has e' ∧
      (((s.setManager home x).manager m).contexts fd).getEventContext e' =
        ((s.manager m).contexts fd).getEventContext e' := by
  rcases eq_or_ne m home with rfl | hm
  · have hevent : e ≠ e' := fun he => hne ⟨rfl, he.symm⟩
    rw [setManager_same, hcontext, FdContext.register_events, Events.has_add,
      beq_false_of_ne hevent, Bool.or_false, FdContext.register_other _ _ hevent]
    exact ⟨rfl, rfl⟩
  · rw [setManager_other s x hm]
    exact ⟨rfl, rfl⟩

private theorem tasks_setManager (s : Socket μ φ) {home : μ} {x : IOManager Unit φ Unit}
    (htasks : x.tasks = (s.manager home).tasks) (m : μ) :
    ((s.setManager home x).manager m).tasks = (s.manager m).tasks := by
  rcases eq_or_ne m home with rfl | hm
  · rw [setManager_same, htasks]
  · rw [setManager_other s x hm]

end Managers

section Steps
variable [DecidableEq φ]

theorem setCall_same (s : Socket μ φ) (f : φ) (x : Option (SocketCall μ)) :
    (s.setCall f x).call f = x := Function.update_self ..

theorem setCall_other (s : Socket μ φ) {f f' : φ} (x : Option (SocketCall μ)) (h : f' ≠ f) :
    (s.setCall f x).call f' = s.call f' := Function.update_of_ne h ..

/-- A fiber that goes on in its call or leaves it. -/
theorem Inv.setCall {fd : Nat} {s : Socket μ φ} (h : s.Inv fd) {f : φ} {x : Option (SocketCall μ)}
    (hx : ∀ c, x = some c → c.pc ≠ .waiting) : (s.setCall f x).Inv fd := by
  refine ⟨h.consistent, ?_, h.late⟩
  intro f' c hcall hpc
  by_cases hf : f' = f
  · subst hf
    exact absurd hpc (hx c ((setCall_same s f' x).symm.trans hcall))
  · exact h.waiting f' c ((setCall_other s x hf).symm.trans hcall) hpc

variable [DecidableEq μ]

/-- A task that is not the one of a suspended fiber leaves a queue. -/
theorem Inv.dequeue {fd : Nat} {s : Socket μ φ} (h : s.Inv fd) (m : μ) {q : Unit × Task φ Unit}
    (hq : ∀ f c, s.call f = some c → c.pc = .waiting → ((), .fiber f) ≠ q) :
    (s.dequeue m q).Inv fd := by
  refine ⟨h.consistent_setManager m ((h.consistent m).requeued _), ?_, ?_⟩
  · intro f c hcall hpc
    have hold := h.waiting f c hcall hpc
    by_cases hm : c.home = m
    · subst hm
      rw [Listed, Socket.dequeue, setManager_same]
      exact hold.imp id (fun hqueued => (List.mem_erase_of_ne (hq f c hcall hpc)).mpr hqueued)
    · rw [Listed, Socket.dequeue, setManager_other s _ hm]
      exact hold
  · intro hstage m' e hhas
    by_cases hm : m' = m
    · subst hm
      rw [Socket.dequeue, setManager_same] at hhas
      exact h.late hstage m' e hhas
    · rw [Socket.dequeue, setManager_other s _ hm] at hhas
      exact h.late hstage m' e hhas

theorem Inv.resume {fd : Nat} {s : Socket μ φ} (h : s.Inv fd) (m : μ) {f : φ}
    {x : Option (SocketCall μ)} (hx : ∀ c, x = some c → c.pc ≠ .waiting) :
    ((s.dequeue m ((), .fiber f)).setCall f x).Inv fd := by
  have hdequeue : ((s.setCall f x).dequeue m ((), .fiber f)).Inv fd := by
    apply (h.setCall hx).dequeue
    intro f' c hcall hpc heq
    obtain rfl : f' = f := by
      cases heq
      rfl
    exact hx c ((setCall_same s f' x).symm.trans hcall) hpc
  exact hdequeue

/-- A fiber registers itself, on a socket that is open. -/
theorem Inv.register {fd : Nat} {s : Socket μ φ} (h : s.Inv fd) {f : φ} {c : SocketCall μ}
    {x : IOManager Unit φ Unit}
    (hfree : ((s.manager c.home).contexts fd).events.has c.event = false)
    (hlate : s.stage ≠ .opened → c.early = false) (hx : x.Consistent)
    (hcontext : x.contexts fd = ((s.manager c.home).contexts fd).register c.event (fiberContext f))
    (htasks : x.tasks = (s.manager c.home).tasks) :
    ({ (s.setManager c.home x).setCall f (some { c with pc := .waiting }) with
      made := Function.update s.made c.home
        (Function.update (s.made c.home) c.event c.early) } : Socket μ φ).Inv fd := by
  refine ⟨h.consistent_setManager c.home hx, ?_, ?_⟩
  · intro f' c' hcall hpc
    rcases eq_or_ne f' f with rfl | hf
    · have hself : ({ c with pc := SocketPc.waiting } : SocketCall μ) = c' :=
        Option.some.inj ((setCall_same (s.setManager c.home x) f' _).symm.trans hcall)
      subst hself
      refine Or.inl ⟨?_, ?_, ?_⟩
      · change (((s.setManager c.home x).manager c.home).contexts fd).events.has c.event = true
        rw [setManager_same, hcontext, FdContext.register_events, Events.has_add,
          beq_self_eq_true, Bool.or_true]
      · change (((s.setManager c.home x).manager c.home).contexts fd).getEventContext c.event = _
        rw [setManager_same, hcontext, FdContext.register_same]
      · exact (made_update ..).trans (if_pos ⟨rfl, rfl⟩)
    · have hcall' : s.call f' = some c' :=
        (setCall_other (s.setManager c.home x) _ hf).symm.trans hcall
      rcases h.waiting f' c' hcall' hpc with ⟨hold, hctx, hmade⟩ | hqueued
      · have hne : ¬ (c'.home = c.home ∧ c'.event = c.event) := by
          rintro ⟨hhome, hevent⟩
          rw [hhome, hevent, hfree] at hold
          cases hold
        obtain ⟨hhas, hsame⟩ := s.register_frame hcontext hne
        have hmade' := made_update s.made c.home c'.home c.event c'.event c.early
        rw [if_neg hne] at hmade'
        exact Or.inl ⟨hhas.trans hold, hsame.trans hctx, hmade'.trans hmade⟩
      · refine Or.inr ?_
        change _ ∈ ((s.setManager c.home x).manager c'.home).tasks
        rwa [s.tasks_setManager htasks]
  · intro hstage m e hnew
    refine (made_update ..).trans ?_
    split
    · exact hlate hstage
    · next hne =>
      have hhas := (s.register_frame hcontext hne).1
      exact h.late hstage m e (hhas.symm.trans hnew)

end Steps
end Socket
end CoroutineRpc.Coroutine
