import CoroutineRpc.Coroutine.Registration

/-! One specification for each operation of `IOManager` on a consistent table. Only the
dispatch of a ready entry can fail, when the entry has an event that is not registered. -/
namespace CoroutineRpc.Coroutine

namespace FdContext
variable {σ φ κ : Type}

/-- The entry for a scheduler's queue that triggering an event makes. -/
def waiter (x : FdContext σ φ κ) (e : Event) : List (σ × Task φ κ) :=
  match (x.getEventContext e).scheduler, (x.getEventContext e).task with
  | some scheduler, some task => [(scheduler, task)]
  | _, _ => []

def clearIf (x : FdContext σ φ κ) (e : Event) (mask : Events) : FdContext σ φ κ :=
  if mask.has e then x.clear e else x

def waiterIf (x : FdContext σ φ κ) (e : Event) (mask : Events) : List (σ × Task φ κ) :=
  if mask.has e then x.waiter e else []

/-- Drop the waiters for all events of a mask, first those for reading. -/
def clearMask (x : FdContext σ φ κ) (mask : Events) : FdContext σ φ κ :=
  (x.clearIf .read mask).clearIf .write mask

def waiters (x : FdContext σ φ κ) (mask : Events) : List (σ × Task φ κ) :=
  x.waiterIf .read mask ++ x.waiterIf .write mask

theorem WellFormed.clearIf {x : FdContext σ φ κ} (h : x.WellFormed) (e : Event) (mask : Events) :
    (x.clearIf e mask).WellFormed := by
  unfold FdContext.clearIf
  split
  · exact h.clear e
  · exact h

theorem WellFormed.clearMask {x : FdContext σ φ κ} (h : x.WellFormed) (mask : Events) :
    (x.clearMask mask).WellFormed := (h.clearIf .read mask).clearIf .write mask

@[simp] theorem clearMask_events (x : FdContext σ φ κ) (mask : Events) :
    (x.clearMask mask).events = x.events.diff mask := by
  rcases mask with ⟨r, w⟩
  cases r <;> cases w <;> simp [clearMask, clearIf, Events.has, Events.diff, Events.remove]

private theorem waiterIf_clearIf (x : FdContext σ φ κ) (mask : Events) :
    (x.clearIf .read mask).waiterIf .write mask = x.waiterIf .write mask := by
  unfold clearIf
  split
  · simp only [waiterIf, waiter, x.clear_other (show Event.read ≠ Event.write by decide)]
  · rfl

private theorem has_clearIf (x : FdContext σ φ κ) (mask : Events) :
    (x.clearIf .read mask).events.has .write = x.events.has .write := by
  unfold clearIf
  split
  · simp [Events.has_remove]
  · rfl

end FdContext

namespace Events

/-- Every event of the first mask is in the second. -/
def Subset (m n : Events) : Prop := ∀ e, m.has e = true → n.has e = true

theorem card_diff {m n : Events} (h : n.Subset m) :
    (m.diff n).card + n.read.toNat + n.write.toNat = m.card := by
  have hr := h .read
  have hw := h .write
  rcases m with ⟨r, w⟩
  rcases n with ⟨r', w'⟩
  cases r <;> cases w <;> cases r' <;> cases w' <;> simp_all [has, diff, card]

theorem diff_self (m : Events) : m.diff m = {} := by
  rcases m with ⟨r, w⟩
  cases r <;> cases w <;> rfl

end Events

namespace IOManager
variable {σ φ κ : Type}

private theorem Consistent.held_iff {m : IOManager σ φ κ} (h : m.Consistent) (fd : Nat) :
    (m.epoll fd).isSome = true ↔ (m.contexts fd).events ≠ {} := by
  rw [h.armed fd, IOManager.armed]
  split <;> simp_all

/-- A failing `epoll_ctl` is only recorded. -/
theorem epollCtl_fails {m : IOManager σ φ κ} (h : m.Consistent) {op : CtlOp} {fd : Nat}
    (hop : op = .add ↔ (m.contexts fd).events = {}) (mask : Events) :
    ∃ m', m.epollCtl op fd mask false = (false, m') ∧ Refused m m' op := by
  refine ⟨_, rfl, rfl, rfl, rfl, rfl, rfl, _, rfl, ?_⟩
  rw [h.held_iff, ne_eq, ne_eq, hop]

/-- A legal `epoll_ctl` that the system allows changes one mask. -/
theorem epollCtl_succeeds {m : IOManager σ φ κ} (h : m.Consistent) {op : CtlOp} {fd : Nat}
    (hop : op = .add ↔ (m.contexts fd).events = {}) (mask : Events) :
    m.epollCtl op fd mask true = (true, { m with
      issued := (op, (m.epoll fd).isSome) :: m.issued
      epoll := Function.update m.epoll fd (if op = .del then none else some mask) }) := by
  have hheld := h.held_iff fd
  have hlegal : ((m.epoll fd).isSome != (op == CtlOp.add)) = true := by
    by_cases he : (m.contexts fd).events = {}
    · have hnone : (m.epoll fd).isSome = false := by simpa [he] using hheld
      rw [hnone, hop.mpr he]
      rfl
    · rw [hheld.mpr he, beq_false_of_ne (fun ha => he (hop.mp ha))]
      rfl
  simp [epollCtl, hlegal]

private theorem issued_legal {m : IOManager σ φ κ} (h : m.Consistent) {op : CtlOp} {fd : Nat}
    (hop : op = .add ↔ (m.contexts fd).events = {}) :
    (m.epoll fd).isSome = true ↔ op ≠ .add := by
  rw [h.held_iff, ne_eq, ne_eq, hop]

/-- The mask that a successful `MOD` or `DEL` leaves is the one that should be armed. -/
theorem armed_left (left : Events) :
    (if (if left = {} then CtlOp.del else CtlOp.mod) = .del then none else some left) =
      armed left := by
  by_cases h : left = {} <;> simp [armed, h]

private theorem leave_op (left : Events) {events : Events} (h : events ≠ {}) :
    (if left = {} then CtlOp.del else CtlOp.mod) = .add ↔ events = {} := by
  refine iff_of_false ?_ h
  split <;> decide

theorem reserve_contexts (m : IOManager σ φ κ) (fd : Nat) :
    (m.reserve fd).contexts = m.contexts := by
  unfold reserve
  split <;> rfl

/-- Growing the table keeps it consistent and makes room for the descriptor. -/
theorem Consistent.reserve {m : IOManager σ φ κ} (h : m.Consistent) (fd : Nat) :
    (m.reserve fd).Consistent ∧ fd < (m.reserve fd).size := by
  unfold IOManager.reserve
  split
  · next hfd => exact ⟨h, hfd⟩
  · next hfd =>
    have hsize := h.size
    have hgrow : m.size ≤ fd * 3 / 2 := by omega
    refine ⟨⟨h.wellFormed, fun fd' hout => h.outside fd' (hgrow.trans hout), ?_, h.armed, h.issued,
      ?_⟩, ?_⟩
    · exact hsize.trans hgrow
    · rw [h.pending]
      apply Finset.sum_subset (Finset.range_mono hgrow)
      intro fd' _ hout
      rw [h.outside fd' (by simpa using hout)]
      rfl
    · show fd < fd * 3 / 2
      omega

/-- Triggering the events of a mask that are all registered. -/
theorem triggerIf_registered {m : IOManager σ φ κ} {fd : Nat} {e : Event} {mask : Events}
    (hx : (m.contexts fd).WellFormed)
    (hsub : mask.has e = true → (m.contexts fd).events.has e = true) :
    m.triggerIf fd e mask = some { m with
      contexts := Function.update m.contexts fd ((m.contexts fd).clearIf e mask)
      pendingEventCount := m.pendingEventCount - (mask.has e).toNat
      tasks := m.tasks ++ (m.contexts fd).waiterIf e mask } := by
  by_cases he : mask.has e = true
  · obtain ⟨scheduler, task, hs, ht, htrigger⟩ := FdContext.triggerEvent_registered hx (hsub he)
    simp [triggerIf, trigger, setContext, FdContext.clearIf, FdContext.waiterIf,
      FdContext.waiter, he, htrigger, hs, ht]
  · simp [triggerIf, FdContext.clearIf, FdContext.waiterIf, he, Function.update_eq_self]

private theorem triggerIf_unregistered {m : IOManager σ φ κ} {fd : Nat} {e : Event} {mask : Events}
    (he : mask.has e = true) (hbit : (m.contexts fd).events.has e = false) :
    m.triggerIf fd e mask = none := by
  simp [triggerIf, trigger, he, FdContext.triggerEvent_unregistered hbit]

/-- `triggerIf` looks at one bit of the mask only. -/
theorem triggerIf_congr {m : IOManager σ φ κ} {fd : Nat} {e : Event} {mask mask' : Events}
    (h : mask.has e = mask'.has e) : m.triggerIf fd e mask = m.triggerIf fd e mask' := by
  rw [triggerIf, triggerIf, h]

/-- `addEvent` never fails an assertion on a consistent table. -/
theorem addEvent_spec {m : IOManager σ φ κ} (h : m.Consistent) (fd : Nat) (e : Event)
    (scheduler : σ) (self : φ) (cb : Option κ) (ok : Bool) :
    ∃ rt m', m.addEvent fd e scheduler self cb ok = some (rt, m') ∧
      (((m.contexts fd).events.has e = true ∧ rt = -1 ∧ m' = m.reserve fd) ∨
       ((m.contexts fd).events.has e = false ∧ ok = false ∧ rt = -1 ∧
          ∃ op, Refused (m.reserve fd) m' op) ∨
       ((m.contexts fd).events.has e = false ∧ ok = true ∧ rt = 0 ∧
          Rewritten (m.reserve fd) fd ((m.contexts fd).register e
            { scheduler := some scheduler, fiber := if cb.isNone then some self else none,
              cb := cb }) [] m')) := by
  obtain ⟨hres, hfd⟩ := h.reserve fd
  have hctx : (m.reserve fd).contexts fd = m.contexts fd := by rw [reserve_contexts]
  cases hbit : (m.contexts fd).events.has e with
  | true =>
    refine ⟨-1, m.reserve fd, ?_, Or.inl ⟨rfl, rfl, rfl⟩⟩
    simp only [addEvent, hctx, hbit, if_true]
  | false =>
    have hop : (if (m.contexts fd).events = {} then CtlOp.add else CtlOp.mod) = .add ↔
        ((m.reserve fd).contexts fd).events = {} := by
      rw [hctx]
      split <;> simp_all
    cases ok with
    | false =>
      obtain ⟨m', hctl, hrefused⟩ :=
        epollCtl_fails hres hop ((m.contexts fd).events.add e)
      refine ⟨-1, m', ?_, Or.inr (Or.inl ⟨rfl, rfl, rfl, _, hrefused⟩)⟩
      simp [addEvent, hctx, hbit, hctl]
    | true =>
      have hctl := epollCtl_succeeds hres hop ((m.contexts fd).events.add e)
      have hempty : ((m.contexts fd).getEventContext e).isEmpty = true := by
        rw [(h.wellFormed fd).vacant e hbit]
        rfl
      have hdel : (if (m.contexts fd).events = {} then CtlOp.add else CtlOp.mod) ≠ .del := by
        split <;> decide
      let m' : IOManager σ φ κ := { m.reserve fd with
        issued := (if (m.contexts fd).events = {} then .add else .mod,
          ((m.reserve fd).epoll fd).isSome) :: (m.reserve fd).issued,
        epoll := Function.update (m.reserve fd).epoll fd (some ((m.contexts fd).events.add e)),
        pendingEventCount := (m.reserve fd).pendingEventCount + 1 }
      let waiter : EventContext σ φ κ :=
        { scheduler := some scheduler, fiber := if cb.isNone then some self else none, cb := cb }
      refine ⟨0, m'.setContext fd ((m.contexts fd).register e waiter), ?_,
        Or.inr (Or.inr ⟨rfl, rfl, rfl, rfl, rfl, ?_, ?_, (List.append_nil _).symm, _, _, rfl,
          issued_legal hres hop⟩)⟩
      · simp only [addEvent, hctx, hbit, hctl, hempty, hdel, if_true, if_false]
        rfl
      · simp [m', setContext, armed, Events.add_ne_empty]
      · have hcard := Events.card_add hbit
        simp only [m', setContext, FdContext.register_events, hcard, hctx]
        push_cast
        omega

/-- After a successful `epoll_ctl` a waiter that is dropped leaves a consistent table. -/
theorem rewritten_clear {m : IOManager σ φ κ} (h : m.Consistent) {fd : Nat} {e : Event}
    (hbit : (m.contexts fd).events.has e = true) (scheduled : List (σ × Task φ κ)) :
    (m.forget fd e true).1 = true ∧ Rewritten m fd ((m.contexts fd).clear e) scheduled
      { (m.forget fd e true).2 with
        contexts := Function.update m.contexts fd ((m.contexts fd).clear e)
        pendingEventCount := m.pendingEventCount - 1
        tasks := m.tasks ++ scheduled } := by
  have hop := leave_op ((m.contexts fd).events.remove e) (Events.ne_empty_of_has hbit)
  have hctl := epollCtl_succeeds h hop ((m.contexts fd).events.remove e)
  have hcard := Events.card_remove hbit
  simp only [forget, hctl]
  refine ⟨trivial, rfl, rfl, ?_, ?_, rfl, _, _, rfl, issued_legal h hop⟩
  · simp only [FdContext.clear_events, armed_left]
  · simp only [FdContext.clear_events]
    omega

private theorem forget_fails {m : IOManager σ φ κ} (h : m.Consistent) {fd : Nat} {e : Event}
    (hbit : (m.contexts fd).events.has e = true) :
    ∃ op m', m.forget fd e false = (false, m') ∧ Refused m m' op := by
  have hop := leave_op ((m.contexts fd).events.remove e) (Events.ne_empty_of_has hbit)
  obtain ⟨m', hctl, hrefused⟩ := epollCtl_fails h hop ((m.contexts fd).events.remove e)
  exact ⟨_, m', hctl, hrefused⟩

theorem delEvent_spec {m : IOManager σ φ κ} (h : m.Consistent) (fd : Nat) (e : Event)
    (ok : Bool) :
    (¬ m.Holds fd e ∧ m.delEvent fd e ok = (false, m)) ∨
    (m.Holds fd e ∧ ∃ m', m.delEvent fd e ok = (true, m') ∧
      ((ok = false ∧ ∃ op, Refused m m' op) ∨
       (ok = true ∧ Rewritten m fd ((m.contexts fd).clear e) [] m'))) := by
  by_cases hheld : m.Holds fd e
  · refine Or.inr ⟨hheld, ?_⟩
    cases ok with
    | false =>
      obtain ⟨op, m', hforget, hrefused⟩ := forget_fails h hheld.2
      refine ⟨m', ?_, Or.inl ⟨rfl, op, hrefused⟩⟩
      rw [delEvent, if_pos hheld, hforget]
    | true =>
      obtain ⟨hforget, hrewritten⟩ := rewritten_clear h hheld.2 []
      refine ⟨_, ?_, Or.inr ⟨rfl, hrewritten⟩⟩
      have hctl := epollCtl_succeeds h (leave_op ((m.contexts fd).events.remove e)
        (Events.ne_empty_of_has hheld.2)) ((m.contexts fd).events.remove e)
      rw [delEvent, if_pos hheld, forget, hctl, List.append_nil]
      rfl
  · exact Or.inl ⟨hheld, by rw [delEvent, if_neg hheld]⟩

theorem cancelEvent_spec {m : IOManager σ φ κ} (h : m.Consistent) (fd : Nat) (e : Event)
    (ok : Bool) :
    (¬ m.Holds fd e ∧ m.cancelEvent fd e ok = some (false, m)) ∨
    (m.Holds fd e ∧ ∃ m', m.cancelEvent fd e ok = some (true, m') ∧
      ((ok = false ∧ ∃ op, Refused m m' op) ∨
       (ok = true ∧ Rewritten m fd ((m.contexts fd).clear e) ((m.contexts fd).waiter e) m'))) := by
  by_cases hheld : m.Holds fd e
  · refine Or.inr ⟨hheld, ?_⟩
    cases ok with
    | false =>
      obtain ⟨op, m', hforget, hrefused⟩ := forget_fails h hheld.2
      refine ⟨m', ?_, Or.inl ⟨rfl, op, hrefused⟩⟩
      rw [cancelEvent, if_pos hheld, hforget]
    | true =>
      obtain ⟨scheduler, task, hs, ht, htrigger⟩ :=
        FdContext.triggerEvent_registered (h.wellFormed fd) hheld.2
      obtain ⟨hforget, hrewritten⟩ := rewritten_clear h hheld.2 ((m.contexts fd).waiter e)
      refine ⟨_, ?_, Or.inr ⟨rfl, hrewritten⟩⟩
      have hctl := epollCtl_succeeds h (leave_op ((m.contexts fd).events.remove e)
        (Events.ne_empty_of_has hheld.2)) ((m.contexts fd).events.remove e)
      rw [cancelEvent, if_pos hheld, forget, hctl]
      simp only [trigger, htrigger, FdContext.waiter, hs, ht, setContext]
      rfl
  · exact Or.inl ⟨hheld, by rw [cancelEvent, if_neg hheld]⟩

/-- Triggering all events of a mask after a successful `epoll_ctl`. -/
theorem trigger_mask {m m₁ : IOManager σ φ κ} (h : m.Consistent) {fd : Nat} {mask : Events}
    {op : CtlOp} (hsub : mask.Subset (m.contexts fd).events)
    (hop : op = .add ↔ (m.contexts fd).events = {})
    (hm₁ : m₁ = { m with
      issued := (op, (m.epoll fd).isSome) :: m.issued
      epoll := Function.update m.epoll fd (armed ((m.contexts fd).events.diff mask)) }) :
    ∃ m₂ m', m₁.triggerIf fd .read mask = some m₂ ∧ m₂.triggerIf fd .write mask = some m' ∧
      m₂.contexts fd = (m.contexts fd).clearIf .read mask ∧
      Rewritten m fd ((m.contexts fd).clearMask mask) ((m.contexts fd).waiters mask) m' := by
  subst hm₁
  have hread := triggerIf_registered (m := { m with
    issued := (op, (m.epoll fd).isSome) :: m.issued
    epoll := Function.update m.epoll fd (armed ((m.contexts fd).events.diff mask)) })
    (h.wellFormed fd) (hsub .read)
  refine ⟨_, _, hread, triggerIf_registered ?_ ?_, ?_, ?_⟩
  · simp only [Function.update_self]
    exact (h.wellFormed fd).clearIf .read mask
  · intro hw
    simp only [Function.update_self, FdContext.has_clearIf]
    exact hsub .write hw
  · simp only [Function.update_self]
  · refine ⟨rfl, ?_, ?_, ?_, ?_, op, _, rfl, issued_legal h hop⟩
    · simp only [Function.update_self, Function.update_idem]
      rfl
    · simp only [FdContext.clearMask_events]
    · have hcard := Events.card_diff hsub
      simp only [Events.has, FdContext.clearMask_events]
      omega
    · simp only [Function.update_self, FdContext.waiterIf_clearIf, List.append_assoc]
      rfl

/-- A mask with an event that is not registered fails the assertion of `triggerEvent`. -/
theorem trigger_mask_fails {m : IOManager σ φ κ} {fd : Nat} {mask : Events}
    (hx : (m.contexts fd).WellFormed) (hsub : ¬ mask.Subset (m.contexts fd).events) :
    ((m.triggerIf fd .read mask).bind (fun m => m.triggerIf fd .write mask)) = none := by
  by_cases hread : mask.has .read = true → (m.contexts fd).events.has .read = true
  · rw [triggerIf_registered hx hread, Option.bind_some]
    apply triggerIf_unregistered
    · by_contra hwrite
      refine hsub (fun e he => ?_)
      cases e with
      | read => exact hread he
      | write => exact absurd he hwrite
    · simp only [Function.update_self, FdContext.has_clearIf]
      by_contra hwrite
      refine hsub (fun e he => ?_)
      cases e with
      | read => exact hread he
      | write => simpa using hwrite
  · obtain ⟨hmask, hbit⟩ := Classical.not_imp.mp hread
    rw [triggerIf_unregistered hmask (by simpa using hbit), Option.bind_none]

theorem cancelAll_spec {m : IOManager σ φ κ} (h : m.Consistent) (fd : Nat) (ok : Bool) :
    (¬ (fd < m.size ∧ (m.contexts fd).events ≠ {}) ∧ m.cancelAll fd ok = some (false, m)) ∨
    ((fd < m.size ∧ (m.contexts fd).events ≠ {}) ∧ ∃ m', m.cancelAll fd ok = some (true, m') ∧
      ((ok = false ∧ ∃ op, Refused m m' op) ∨
       (ok = true ∧ Rewritten m fd ((m.contexts fd).clearMask (m.contexts fd).events)
          ((m.contexts fd).waiters (m.contexts fd).events) m'))) := by
  by_cases hheld : fd < m.size ∧ (m.contexts fd).events ≠ {}
  · refine Or.inr ⟨hheld, ?_⟩
    have hop : CtlOp.del = .add ↔ (m.contexts fd).events = {} :=
      iff_of_false (by decide) hheld.2
    cases ok with
    | false =>
      obtain ⟨m', hctl, hrefused⟩ := epollCtl_fails h hop {}
      refine ⟨m', ?_, Or.inl ⟨rfl, _, hrefused⟩⟩
      rw [cancelAll, if_pos hheld, hctl]
    | true =>
      have hctl := epollCtl_succeeds h hop {}
      rw [if_pos rfl] at hctl
      have hleft : armed ((m.contexts fd).events.diff (m.contexts fd).events) = none := by
        rw [Events.diff_self]
        rfl
      obtain ⟨m₂, m', hread, hwrite, hctx, hrewritten⟩ := trigger_mask h
        (fun _ he => he : (m.contexts fd).events.Subset (m.contexts fd).events) hop rfl
      rw [hleft] at hread
      have hmask : (m₂.contexts fd).events.has .write = (m.contexts fd).events.has .write := by
        rw [hctx, FdContext.has_clearIf]
      have hdone : (m'.contexts fd).events = {} := by
        rw [hrewritten.contexts, Function.update_self, FdContext.clearMask_events,
          Events.diff_self]
      refine ⟨m', ?_, Or.inr ⟨rfl, hrewritten⟩⟩
      rw [← triggerIf_congr hmask] at hwrite
      rw [cancelAll, if_pos hheld, hctl]
      simp only [hread, hwrite, hdone, Option.bind_eq_bind, Option.bind_some, if_true]
  · exact Or.inl ⟨hheld, by rw [cancelAll, if_neg hheld]⟩

/-- The registered events cover those of the ready entry, or it has none of them. -/
def Covers (events : Events) (ready : ReadyEvent) : Prop :=
  events.inter (realEvents ready events) = {} ∨ (realEvents ready events).Subset events

/-- The dispatch of a ready entry aborts exactly when it has one registered event and one
that is not, unless `epoll_ctl` fails. -/
theorem dispatch_spec {m : IOManager σ φ κ} (h : m.Consistent) (ready : ReadyEvent)
    (ok : Bool) :
    let x := m.contexts ready.fd
    let real := realEvents ready x.events
    (x.events.inter real = {} ∧ m.dispatch ready ok = some m) ∨
    (x.events.inter real ≠ {} ∧ ok = false ∧
      ∃ op m', m.dispatch ready ok = some m' ∧ Refused m m' op) ∨
    (x.events.inter real ≠ {} ∧ ok = true ∧ real.Subset x.events ∧
      ∃ m', m.dispatch ready ok = some m' ∧
        Rewritten m ready.fd (x.clearMask real) (x.waiters real) m') ∨
    (x.events.inter real ≠ {} ∧ ok = true ∧ ¬ real.Subset x.events ∧
      m.dispatch ready ok = none) := by
  intro x real
  by_cases hnone : x.events.inter real = {}
  · exact Or.inl ⟨hnone, by rw [dispatch, if_pos hnone]⟩
  · have hevents : x.events ≠ {} := by
      intro he
      exact hnone (by rw [he]; rfl)
    have hop := leave_op (x.events.diff real) hevents
    cases ok with
    | false =>
      obtain ⟨m', hctl, hrefused⟩ := epollCtl_fails h hop (x.events.diff real)
      refine Or.inr (Or.inl ⟨hnone, rfl, _, m', ?_, hrefused⟩)
      rw [dispatch, if_neg hnone]
      simp only [real, x] at hctl
      simp only [hctl]
    | true =>
      have hctl := epollCtl_succeeds h hop (x.events.diff real)
      rw [armed_left] at hctl
      by_cases hsub : real.Subset x.events
      · obtain ⟨m₂, m', hread, hwrite, -, hrewritten⟩ := trigger_mask h hsub hop rfl
        refine Or.inr (Or.inr (Or.inl ⟨hnone, rfl, hsub, m', ?_, hrewritten⟩))
        rw [dispatch, if_neg hnone]
        simp only [real, x] at hctl hread hwrite
        simp only [hctl, hread, hwrite, Option.bind_eq_bind, Option.bind_some]
      · refine Or.inr (Or.inr (Or.inr ⟨hnone, rfl, hsub, ?_⟩))
        rw [dispatch, if_neg hnone]
        simp only [real, x] at hctl hsub
        simp only [hctl]
        exact trigger_mask_fails (h.wellFormed ready.fd) hsub

end IOManager
end CoroutineRpc.Coroutine
