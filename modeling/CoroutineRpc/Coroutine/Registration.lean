import CoroutineRpc.Coroutine.IOManager
import CoroutineRpc.Library.Sums
import Mathlib.Algebra.Order.BigOperators.Group.Finset

/-! The bookkeeping of `IOManager` and what each operation does to it. Every operation either
leaves the contexts alone or rewrites one of them, together with its mask and the counter. -/
namespace CoroutineRpc.Coroutine

namespace Events

theorem card_add {m : Events} {e : Event} (h : m.has e = false) : (m.add e).card = m.card + 1 := by
  cases e with
  | read =>
    have hm : m.read = false := h
    simp only [card, add, hm, Bool.toNat_false, Bool.toNat_true]
    omega
  | write =>
    have hm : m.write = false := h
    simp only [card, add, hm, Bool.toNat_false, Bool.toNat_true]

theorem card_remove {m : Events} {e : Event} (h : m.has e = true) :
    (m.remove e).card + 1 = m.card := by
  cases e with
  | read =>
    have hm : m.read = true := h
    simp only [card, remove, hm, Bool.toNat_false, Bool.toNat_true]
    omega
  | write =>
    have hm : m.write = true := h
    simp only [card, remove, hm, Bool.toNat_false, Bool.toNat_true]

theorem has_add (m : Events) (e e' : Event) : (m.add e).has e' = (m.has e' || e == e') := by
  cases e <;> cases e' <;> simp [has, add]

theorem has_remove (m : Events) (e e' : Event) :
    (m.remove e).has e' = (m.has e' && e != e') := by
  cases e <;> cases e' <;> simp [has, remove]

theorem add_ne_empty (m : Events) (e : Event) : m.add e ≠ {} := by
  cases e <;> simp [add]

theorem ne_empty_of_has {m : Events} {e : Event} (h : m.has e = true) : m ≠ {} := by
  rintro rfl
  cases e <;> cases h

private theorem card_eq_zero_iff (m : Events) : m.card = 0 ↔ ∀ e, m.has e = false := by
  rw [card, Nat.add_eq_zero_iff, Bool.toNat_eq_zero, Bool.toNat_eq_zero]
  constructor
  · rintro ⟨hread, hwrite⟩ e
    cases e with
    | read => exact hread
    | write => exact hwrite
  · exact fun h => ⟨h .read, h .write⟩

end Events

namespace FdContext
variable {σ φ κ : Type}

/-- Exactly one of the fiber and the callback of an event context is set. -/
def Waiting (c : EventContext σ φ κ) : Prop := c.fiber.isSome ≠ c.cb.isSome

/-- The mask says which of the two event contexts are in use. -/
structure WellFormed (x : FdContext σ φ κ) : Prop where
  waiting_iff : ∀ e, x.events.has e = true ↔ Waiting (x.getEventContext e)
  vacant : ∀ e, x.events.has e = false → x.getEventContext e = {}
  scheduled : ∀ e, x.events.has e = true → (x.getEventContext e).scheduler.isSome

/-- Registered events have a waiter, and the context of any other event is empty. -/
theorem WellFormed.of_registered {x : FdContext σ φ κ}
    (hregistered : ∀ e, x.events.has e = true →
      (x.getEventContext e).scheduler.isSome ∧ Waiting (x.getEventContext e))
    (hvacant : ∀ e, x.events.has e = false → x.getEventContext e = {}) : x.WellFormed := by
  refine ⟨?_, hvacant, fun e he => (hregistered e he).1⟩
  intro e
  constructor
  · exact fun he => (hregistered e he).2
  · intro hw
    by_contra he
    rw [hvacant e (by simpa using he)] at hw
    exact hw rfl

theorem WellFormed.registered {x : FdContext σ φ κ} (h : x.WellFormed) (e : Event)
    (he : x.events.has e = true) :
    (x.getEventContext e).scheduler.isSome ∧ Waiting (x.getEventContext e) :=
  ⟨h.scheduled e he, (h.waiting_iff e).mp he⟩

@[simp] theorem register_events (x : FdContext σ φ κ) (e : Event) (c : EventContext σ φ κ) :
    (x.register e c).events = x.events.add e := by cases e <;> rfl

@[simp] theorem clear_events (x : FdContext σ φ κ) (e : Event) :
    (x.clear e).events = x.events.remove e := by cases e <;> rfl

theorem register_same (x : FdContext σ φ κ) (e : Event) (c : EventContext σ φ κ) :
    (x.register e c).getEventContext e = c := by cases e <;> rfl

theorem register_other (x : FdContext σ φ κ) {e e' : Event} (c : EventContext σ φ κ)
    (h : e ≠ e') : (x.register e c).getEventContext e' = x.getEventContext e' := by
  cases e <;> cases e' <;> first | rfl | exact absurd rfl h

theorem clear_same (x : FdContext σ φ κ) (e : Event) : (x.clear e).getEventContext e = {} := by
  cases e <;> rfl

theorem clear_other (x : FdContext σ φ κ) {e e' : Event} (h : e ≠ e') :
    (x.clear e).getEventContext e' = x.getEventContext e' := by
  cases e <;> cases e' <;> first | rfl | exact absurd rfl h

theorem empty_wellFormed : ({} : FdContext σ φ κ).WellFormed := by
  refine .of_registered ?_ ?_
  · intro e he
    cases e <;> cases he
  · intro e _
    cases e <;> rfl

theorem WellFormed.register {x : FdContext σ φ κ} (h : x.WellFormed) {e : Event}
    {c : EventContext σ φ κ} (hs : c.scheduler.isSome) (hc : Waiting c) :
    (x.register e c).WellFormed := by
  refine .of_registered ?_ ?_
  · intro e' he'
    by_cases heq : e = e'
    · subst heq
      rw [register_same]
      exact ⟨hs, hc⟩
    · rw [register_other x c heq]
      rw [register_events, Events.has_add, beq_false_of_ne heq, Bool.or_false] at he'
      exact h.registered e' he'
  · intro e' he'
    rw [register_events, Events.has_add, Bool.or_eq_false_iff] at he'
    rw [register_other x c (by simpa using he'.2)]
    exact h.vacant e' he'.1

theorem WellFormed.clear {x : FdContext σ φ κ} (h : x.WellFormed) (e : Event) :
    (x.clear e).WellFormed := by
  refine .of_registered ?_ ?_
  · intro e' he'
    rw [clear_events, Events.has_remove, Bool.and_eq_true, bne_iff_ne] at he'
    rw [clear_other x he'.2]
    exact h.registered e' he'.1
  · intro e' he'
    by_cases heq : e = e'
    · exact heq ▸ clear_same x e
    · rw [clear_other x heq]
      rw [clear_events, Events.has_remove, bne_iff_ne.mpr heq, Bool.and_true] at he'
      exact h.vacant e' he'

/-- A set bit can be triggered, and that hands over exactly the waiter. -/
theorem triggerEvent_registered {x : FdContext σ φ κ} (h : x.WellFormed) {e : Event}
    (he : x.events.has e = true) :
    ∃ scheduler task, (x.getEventContext e).scheduler = some scheduler ∧
      (x.getEventContext e).task = some task ∧
      x.triggerEvent e = some (x.clear e, some (scheduler, task)) := by
  obtain ⟨hs, hw⟩ := h.registered e he
  obtain ⟨scheduler, hs⟩ := Option.isSome_iff_exists.mp hs
  have htask : ∃ task, (x.getEventContext e).task = some task := by
    unfold EventContext.task
    cases hcb : (x.getEventContext e).cb with
    | some cb => exact ⟨_, rfl⟩
    | none =>
      obtain ⟨f, hf⟩ : ∃ f, (x.getEventContext e).fiber = some f := by
        apply Option.isSome_iff_exists.mp
        simpa [Waiting, hcb, Option.isSome_iff_ne_none] using hw
      exact ⟨.fiber f, by rw [hf]; rfl⟩
  obtain ⟨task, htask⟩ := htask
  have hsame : ({ x with events := x.events.remove e } : FdContext σ φ κ).getEventContext e =
      x.getEventContext e := by cases e <;> rfl
  refine ⟨scheduler, task, hs, htask, ?_⟩
  simp only [triggerEvent, he, if_true, hsame, hs, htask, Option.map_some]
  rfl

theorem triggerEvent_unregistered {x : FdContext σ φ κ} {e : Event}
    (he : x.events.has e = false) : x.triggerEvent e = none := by
  simp [triggerEvent, he]

end FdContext

namespace IOManager
variable {σ φ κ : Type}

/-- What `epoll` should hold for a descriptor with these registered events. -/
def armed (events : Events) : Option Events := if events = {} then none else some events

/-- All registered events, over the whole table. -/
def registered (m : IOManager σ φ κ) : Int :=
  ∑ fd ∈ Finset.range m.size, ((m.contexts fd).events.card : Int)

structure Consistent (m : IOManager σ φ κ) : Prop where
  wellFormed : ∀ fd, (m.contexts fd).WellFormed
  outside : ∀ fd, m.size ≤ fd → (m.contexts fd).events = {}
  size : 32 ≤ m.size
  armed : ∀ fd, m.epoll fd = armed (m.contexts fd).events
  issued : ∀ r ∈ m.issued, r.2 = true ↔ r.1 ≠ .add
  pending : m.pendingEventCount = m.registered

theorem Consistent.nonneg {m : IOManager σ φ κ} (h : m.Consistent) : 0 ≤ m.pendingEventCount := by
  rw [h.pending, registered]
  exact Finset.sum_nonneg (fun _ _ => Int.natCast_nonneg _)

/-- The counter is at zero when nothing is registered, and only then. -/
theorem Consistent.pending_eq_zero_iff {m : IOManager σ φ κ} (h : m.Consistent) :
    m.pendingEventCount = 0 ↔ ∀ fd e, (m.contexts fd).events.has e = false := by
  have hnonneg : ∀ fd ∈ Finset.range m.size, (0 : Int) ≤ (m.contexts fd).events.card :=
    fun _ _ => Int.natCast_nonneg _
  rw [h.pending, registered, Finset.sum_eq_zero_iff_of_nonneg hnonneg]
  constructor
  · intro hzero fd
    apply (Events.card_eq_zero_iff _).mp
    rcases Nat.lt_or_ge fd m.size with hfd | hfd
    · exact Int.ofNat_eq_zero.mp (hzero fd (Finset.mem_range.mpr hfd))
    · rw [h.outside fd hfd]
      rfl
  · intro hnone fd _
    exact Int.ofNat_eq_zero.mpr ((Events.card_eq_zero_iff _).mpr (hnone fd))

/-- The queue plays no part in the bookkeeping. -/
theorem Consistent.requeued {m : IOManager σ φ κ} (h : m.Consistent) (tasks : List (σ × Task φ κ)) :
    ({ m with tasks := tasks } : IOManager σ φ κ).Consistent :=
  ⟨h.wellFormed, h.outside, h.size, h.armed, h.issued, h.pending⟩

/-- Only the record of `epoll_ctl` calls has grown. -/
structure Refused (m m' : IOManager σ φ κ) (op : CtlOp) : Prop where
  size : m'.size = m.size
  contexts : m'.contexts = m.contexts
  epoll : m'.epoll = m.epoll
  pending : m'.pendingEventCount = m.pendingEventCount
  tasks : m'.tasks = m.tasks
  issued : ∃ held, m'.issued = (op, held) :: m.issued ∧ (held = true ↔ op ≠ .add)

/-- One context, its mask in `epoll` and the counter have changed together. -/
structure Rewritten (m : IOManager σ φ κ) (fd : Nat) (x : FdContext σ φ κ)
    (scheduled : List (σ × Task φ κ)) (m' : IOManager σ φ κ) : Prop where
  size : m'.size = m.size
  contexts : m'.contexts = Function.update m.contexts fd x
  epoll : m'.epoll = Function.update m.epoll fd (IOManager.armed x.events)
  pending : m'.pendingEventCount + (m.contexts fd).events.card =
    m.pendingEventCount + x.events.card
  tasks : m'.tasks = m.tasks ++ scheduled
  issued : ∃ op held, m'.issued = (op, held) :: m.issued ∧ (held = true ↔ op ≠ .add)

theorem Consistent.refused {m m' : IOManager σ φ κ} {op : CtlOp} (h : m.Consistent)
    (hr : Refused m m' op) : m'.Consistent := by
  obtain ⟨held, hissued, hlegal⟩ := hr.issued
  refine ⟨?_, ?_, hr.size ▸ h.size, ?_, ?_, ?_⟩
  · intro fd
    rw [hr.contexts]
    exact h.wellFormed fd
  · intro fd hfd
    rw [hr.contexts]
    exact h.outside fd (hr.size ▸ hfd)
  · intro fd
    rw [hr.epoll, hr.contexts]
    exact h.armed fd
  · rw [hissued]
    exact List.forall_mem_cons.mpr ⟨hlegal, h.issued⟩
  · rw [hr.pending, h.pending, registered, registered, hr.size, hr.contexts]

theorem Consistent.rewritten {m m' : IOManager σ φ κ} {fd : Nat} {x : FdContext σ φ κ}
    {scheduled : List (σ × Task φ κ)} (h : m.Consistent) (hfd : fd < m.size)
    (hx : x.WellFormed) (hr : Rewritten m fd x scheduled m') : m'.Consistent := by
  obtain ⟨op, held, hissued, hlegal⟩ := hr.issued
  refine ⟨?_, ?_, hr.size ▸ h.size, ?_, ?_, ?_⟩
  · intro fd'
    rw [hr.contexts]
    by_cases hd : fd' = fd
    · subst hd
      rwa [Function.update_self]
    · rw [Function.update_of_ne hd]
      exact h.wellFormed fd'
  · intro fd' hout
    rw [hr.size] at hout
    rw [hr.contexts, Function.update_of_ne (by omega)]
    exact h.outside fd' hout
  · intro fd'
    rw [hr.epoll, hr.contexts]
    by_cases hd : fd' = fd
    · subst hd
      rw [Function.update_self, Function.update_self]
    · rw [Function.update_of_ne hd, Function.update_of_ne hd]
      exact h.armed fd'
  · rw [hissued]
    exact List.forall_mem_cons.mpr ⟨hlegal, h.issued⟩
  · have hmem : fd ∈ Finset.range m.size := Finset.mem_range.mpr hfd
    have hsum := sum_change (f := fun fd' => ((m'.contexts fd').events.card : Int))
      (g := fun fd' => ((m.contexts fd').events.card : Int)) hmem (fun fd' _ hne => by
        rw [hr.contexts, Function.update_of_ne hne])
    have hpending := hr.pending
    rw [h.pending] at hpending
    have hself : m'.contexts fd = x := by rw [hr.contexts, Function.update_self]
    simp only [hself] at hsum
    simp only [registered, hr.size] at hpending ⊢
    omega

end IOManager
end CoroutineRpc.Coroutine
