import CoroutineRpc.Coroutine.Registration

/-! How often a fiber is registered or queued. Triggering an event moves its fiber from one
place to the other; only `addEvent` and `delEvent` change the number. No assumption is made on
what the kernel holds, so descriptors may be closed at any time. -/
namespace CoroutineRpc.Coroutine

variable {σ φ κ : Type}

/-- The task resumes this fiber. -/
def Task.isFor [DecidableEq φ] (f : φ) : Task φ κ → Bool
  | .fiber g => g = f
  | .call _ => false

/-- Whether the fiber waits in this context, as a number. -/
def EventContext.waits [DecidableEq φ] (c : EventContext σ φ κ) (f : φ) : Nat :=
  if c.fiber = some f then 1 else 0

@[simp] theorem EventContext.waits_empty [DecidableEq φ] (f : φ) :
    ({} : EventContext σ φ κ).waits f = 0 := by simp [EventContext.waits]

namespace FdContext

/-- How many events of the descriptor the fiber waits for. -/
def waits [DecidableEq φ] (x : FdContext σ φ κ) (f : φ) : Nat := x.read.waits f + x.write.waits f

section
variable [DecidableEq φ]

private theorem waits_clear (x : FdContext σ φ κ) (e : Event) (f : φ) :
    (x.clear e).waits f + (x.getEventContext e).waits f = x.waits f := by
  cases e with
  | read =>
    change ({} : EventContext σ φ κ).waits f + x.write.waits f + x.read.waits f = _
    rw [EventContext.waits_empty, waits]
    omega
  | write =>
    change x.read.waits f + ({} : EventContext σ φ κ).waits f + x.write.waits f = _
    rw [EventContext.waits_empty, waits]
    omega

private theorem waits_register (x : FdContext σ φ κ) (e : Event) (c : EventContext σ φ κ) (f : φ)
    (h : x.getEventContext e = {}) : (x.register e c).waits f = x.waits f + c.waits f := by
  cases e with
  | read =>
    have hread : x.read = {} := h
    change c.waits f + x.write.waits f = _
    rw [waits, hread, EventContext.waits_empty]
    omega
  | write =>
    have hwrite : x.write = {} := h
    change x.read.waits f + c.waits f = _
    rw [waits, hwrite, EventContext.waits_empty]
    omega

private theorem waits_vacant {x : FdContext σ φ κ} (h : x.WellFormed) (he : x.events = {}) (f : φ) :
    x.waits f = 0 := by
  have hread : x.read = {} := h.vacant .read (by rw [he]; rfl)
  have hwrite : x.write = {} := h.vacant .write (by rw [he]; rfl)
  rw [waits, hread, hwrite, EventContext.waits_empty]

private theorem waits_pos {x : FdContext σ φ κ} {e : Event} {f : φ}
    (h : (x.getEventContext e).fiber = some f) : 0 < x.waits f := by
  have hone : (x.getEventContext e).waits f = 1 := if_pos h
  have hle : (x.getEventContext e).waits f ≤ x.waits f := by
    rw [← x.waits_clear e f]
    omega
  omega

/-- The task of a registered event resumes the fiber that waits for it. -/
theorem task_isFor {c : EventContext σ φ κ} (hw : Waiting c) {task : Task φ κ}
    (ht : c.task = some task) (f : φ) : (if task.isFor f then 1 else 0) = c.waits f := by
  unfold EventContext.task at ht
  cases hcb : c.cb with
  | some cb =>
    rw [hcb] at ht
    cases ht
    have hfiber : c.fiber = none := by simpa [Waiting, hcb] using hw
    simp [Task.isFor, EventContext.waits, hfiber]
  | none =>
    rw [hcb] at ht
    obtain ⟨g, hg, rfl⟩ := Option.map_eq_some_iff.mp ht
    simp [Task.isFor, EventContext.waits, hg]

end

end FdContext

namespace IOManager

/-- The context table alone is in order. -/
structure Tabled (m : IOManager σ φ κ) : Prop where
  wellFormed : ∀ fd, (m.contexts fd).WellFormed
  outside : ∀ fd, m.size ≤ fd → (m.contexts fd).events = {}
  size : 32 ≤ m.size

@[simp] theorem setContext_same (m : IOManager σ φ κ) (fd : Nat) (x : FdContext σ φ κ) :
    (m.setContext fd x).contexts fd = x := Function.update_self _ _ _

theorem setContext_other (m : IOManager σ φ κ) {fd fd' : Nat} (x : FdContext σ φ κ)
    (h : fd' ≠ fd) : (m.setContext fd x).contexts fd' = m.contexts fd' :=
  Function.update_of_ne h _ _

theorem Tabled.setContext {m : IOManager σ φ κ} (h : m.Tabled) {fd : Nat} (hfd : fd < m.size)
    {x : FdContext σ φ κ} (hx : x.WellFormed) : (m.setContext fd x).Tabled := by
  refine ⟨?_, ?_, h.size⟩
  · intro fd'
    by_cases hd : fd' = fd
    · subst hd
      rwa [setContext_same]
    · rw [setContext_other m x hd]
      exact h.wellFormed fd'
  · intro fd' hout
    have hd : fd' ≠ fd := by
      rintro rfl
      exact absurd hfd (not_lt.mpr hout)
    rw [setContext_other m x hd]
    exact h.outside fd' hout

theorem Tabled.inside {m : IOManager σ φ κ} (h : m.Tabled) {fd : Nat} {e : Event}
    (hbit : (m.contexts fd).events.has e = true) : fd < m.size := by
  by_contra hout
  exact Events.ne_empty_of_has hbit (h.outside fd (not_lt.mp hout))

theorem Tabled.reserve {m : IOManager σ φ κ} (h : m.Tabled) (fd : Nat) :
    (m.reserve fd).Tabled ∧ fd < (m.reserve fd).size ∧ m.size ≤ (m.reserve fd).size := by
  unfold IOManager.reserve
  split
  · next hfd => exact ⟨h, hfd, le_refl _⟩
  · next hfd =>
    have hsize := h.size
    have hgrow : m.size ≤ fd * 3 / 2 := by omega
    refine ⟨⟨h.wellFormed, fun fd' hout => h.outside fd' (hgrow.trans hout), hsize.trans hgrow⟩,
      ?_, hgrow⟩
    show fd < fd * 3 / 2
    omega

/-- The fiber waits for this event of this descriptor. -/
def WaitsAt (m : IOManager σ φ κ) (f : φ) (fd : Nat) (e : Event) : Prop :=
  ((m.contexts fd).getEventContext e).fiber = some f

private theorem waitsAt_clear {m : IOManager σ φ κ} {fd fd' : Nat} {e e' : Event} {f : φ}
    (h : (m.setContext fd ((m.contexts fd).clear e)).WaitsAt f fd' e') : m.WaitsAt f fd' e' := by
  by_cases hd : fd' = fd
  · subst hd
    rw [WaitsAt, setContext_same] at h
    by_cases he : e = e'
    · subst he
      rw [FdContext.clear_same] at h
      cases h
    · rwa [FdContext.clear_other _ he] at h
  · rwa [WaitsAt, setContext_other m _ hd] at h

private theorem waitsAt_register {m : IOManager σ φ κ} {fd fd' : Nat} {e e' : Event} {f : φ}
    {c : EventContext σ φ κ}
    (h : (m.setContext fd ((m.contexts fd).register e c)).WaitsAt f fd' e') :
    m.WaitsAt f fd' e' ∨ (fd' = fd ∧ e' = e ∧ c.fiber = some f) := by
  by_cases hd : fd' = fd
  · subst hd
    rw [WaitsAt, setContext_same] at h
    by_cases he : e = e'
    · subst he
      rw [FdContext.register_same] at h
      exact Or.inr ⟨rfl, rfl, h⟩
    · rw [FdContext.register_other _ _ he] at h
      exact Or.inl h
  · rw [WaitsAt, setContext_other m _ hd] at h
    exact Or.inl h

/-- Size, contexts and tasks are the same. -/
structure Same (m m' : IOManager σ φ κ) : Prop where
  size : m'.size = m.size
  contexts : m'.contexts = m.contexts
  tasks : m'.tasks = m.tasks

theorem Same.refl (m : IOManager σ φ κ) : Same m m := ⟨rfl, rfl, rfl⟩

private theorem Same.waitsAt {m m' : IOManager σ φ κ} (h : Same m m') {f : φ} {fd : Nat} {e : Event}
    (hw : m'.WaitsAt f fd e) : m.WaitsAt f fd e := by
  unfold WaitsAt at hw
  rwa [h.contexts] at hw

theorem Same.tabled {m m' : IOManager σ φ κ} (hs : Same m m') (h : m.Tabled) : m'.Tabled :=
  ⟨fun fd => by rw [hs.contexts]; exact h.wellFormed fd,
    fun fd hout => by rw [hs.contexts]; exact h.outside fd (hs.size ▸ hout), hs.size ▸ h.size⟩

theorem epollCtl_same {m m' : IOManager σ φ κ} {op : CtlOp} {fd : Nat} {mask : Events}
    {ok r : Bool} (h : m.epollCtl op fd mask ok = (r, m')) : Same m m' := by
  simp only [epollCtl] at h
  split at h
  · cases h
    exact ⟨rfl, rfl, rfl⟩
  · cases h
    exact ⟨rfl, rfl, rfl⟩

section
variable [DecidableEq φ]

def registrations (m : IOManager σ φ κ) (f : φ) : Nat :=
  ∑ fd ∈ Finset.range m.size, (m.contexts fd).waits f

def queued (m : IOManager σ φ κ) (f : φ) : Nat := m.tasks.countP (fun q => q.2.isFor f)

/-- How often the fiber is registered or queued. -/
def occurrences (m : IOManager σ φ κ) (f : φ) : Nat := m.registrations f + m.queued f

theorem Same.occurrences {m m' : IOManager σ φ κ} (h : Same m m') (f : φ) :
    m'.occurrences f = m.occurrences f := by
  simp only [IOManager.occurrences, registrations, queued, h.size, h.contexts, h.tasks]

private theorem registrations_setContext {m : IOManager σ φ κ} {fd : Nat} (hfd : fd < m.size)
    (x : FdContext σ φ κ) (f : φ) :
    (m.setContext fd x).registrations f + (m.contexts fd).waits f =
      m.registrations f + x.waits f := by
  have hsum := sum_change (f := fun fd' => ((m.setContext fd x).contexts fd').waits f)
    (g := fun fd' => (m.contexts fd').waits f) (Finset.mem_range.mpr hfd) (fun fd' _ hne => by
      rw [setContext_other m x hne])
  simp only [setContext_same] at hsum
  exact hsum

/-- A fiber that is registered or queued nowhere is in no event context. -/
theorem Tabled.absent {m : IOManager σ φ κ} (h : m.Tabled) {f : φ} (h0 : m.occurrences f = 0)
    (fd : Nat) (e : Event) : ¬ m.WaitsAt f fd e := by
  intro hf
  have hpos := FdContext.waits_pos hf
  by_cases hfd : fd < m.size
  · have hle : (m.contexts fd).waits f ≤ m.registrations f :=
      Finset.single_le_sum (f := fun fd' => (m.contexts fd').waits f)
        (fun _ _ => Nat.zero_le _) (Finset.mem_range.mpr hfd)
    simp only [occurrences] at h0
    omega
  · rw [FdContext.waits_vacant (h.wellFormed fd) (h.outside fd (not_lt.mp hfd))] at hpos
    omega

/-- Fibers move from contexts to the queue, and none comes or goes. -/
structure Carries (m m' : IOManager σ φ κ) : Prop where
  tabled : m'.Tabled
  occurrences : ∀ f, m'.occurrences f = m.occurrences f
  places : ∀ f fd e, m'.WaitsAt f fd e → m.WaitsAt f fd e

theorem Carries.trans {m₁ m₂ m₃ : IOManager σ φ κ} (h₁ : Carries m₁ m₂) (h₂ : Carries m₂ m₃) :
    Carries m₁ m₃ :=
  ⟨h₂.tabled, fun f => (h₂.occurrences f).trans (h₁.occurrences f),
    fun f fd e hw => h₁.places f fd e (h₂.places f fd e hw)⟩

private theorem Same.carries {m m' : IOManager σ φ κ} (hs : Same m m') (h : m.Tabled) :
    Carries m m' :=
  ⟨hs.tabled h, hs.occurrences, fun _ _ _ => hs.waitsAt⟩

private theorem reserve_carries {m : IOManager σ φ κ} (h : m.Tabled) (fd : Nat) :
    Carries m (m.reserve fd) := by
  obtain ⟨htabled, -, hgrow⟩ := h.reserve fd
  have hcontexts : (m.reserve fd).contexts = m.contexts := by
    unfold IOManager.reserve
    split <;> rfl
  refine ⟨htabled, fun f => ?_, fun f fd' e hw => by rwa [WaitsAt, hcontexts] at hw⟩
  have hregistrations : m.registrations f = (m.reserve fd).registrations f := by
    rw [registrations, registrations, hcontexts]
    apply Finset.sum_subset (Finset.range_mono hgrow)
    intro fd' _ hout
    exact FdContext.waits_vacant (h.wellFormed fd') (h.outside fd' (by simpa using hout)) f
  have hqueued : (m.reserve fd).queued f = m.queued f := by
    unfold IOManager.reserve
    split <;> rfl
  rw [IOManager.occurrences, IOManager.occurrences, hregistrations, hqueued]

/-- Triggering an event moves its fiber into the queue. -/
theorem trigger_carries {m m' : IOManager σ φ κ} (h : m.Tabled) {fd : Nat} {e : Event}
    (ht : m.trigger fd e = some m') : Carries m m' := by
  cases hbit : (m.contexts fd).events.has e with
  | false => simp [trigger, FdContext.triggerEvent_unregistered hbit] at ht
  | true =>
    have hfd := h.inside hbit
    have hx := h.wellFormed fd
    obtain ⟨scheduler, task, -, htask, htrigger⟩ := FdContext.triggerEvent_registered hx hbit
    simp only [trigger, htrigger, Option.map_some, Option.toList_some, Option.some.injEq] at ht
    subst ht
    have hset : (m.setContext fd ((m.contexts fd).clear e)).Tabled := h.setContext hfd (hx.clear e)
    refine ⟨⟨hset.wellFormed, hset.outside, hset.size⟩, fun f => ?_, fun _ _ _ => waitsAt_clear⟩
    have hregistrations := registrations_setContext hfd ((m.contexts fd).clear e) f
    have hclear := (m.contexts fd).waits_clear e f
    have hisFor := FdContext.task_isFor (hx.registered e hbit).2 htask f
    change (m.setContext fd ((m.contexts fd).clear e)).registrations f +
      (m.tasks ++ [(scheduler, task)]).countP (fun q => q.2.isFor f) =
        m.registrations f + m.tasks.countP (fun q => q.2.isFor f)
    rw [List.countP_append, List.countP_singleton]
    simp only at hisFor ⊢
    omega

private theorem triggerIf_carries {m m' : IOManager σ φ κ} (h : m.Tabled) {fd : Nat} {e : Event}
    {mask : Events} (ht : m.triggerIf fd e mask = some m') : Carries m m' := by
  unfold triggerIf at ht
  split at ht
  · obtain ⟨m₁, hm₁, rfl⟩ := Option.map_eq_some_iff.mp ht
    have hcarries := trigger_carries h hm₁
    exact hcarries.trans (Same.carries ⟨rfl, rfl, rfl⟩ hcarries.tabled)
  · cases ht
    exact (Same.refl m).carries h

theorem cancelEvent_carries {m m' : IOManager σ φ κ} (h : m.Tabled) {fd : Nat} {e : Event}
    {ok r : Bool} (hc : m.cancelEvent fd e ok = some (r, m')) : Carries m m' := by
  unfold cancelEvent at hc
  split at hc
  · split at hc
    · next hforget =>
      cases hc
      exact (epollCtl_same hforget).carries h
    · next m₁ hforget =>
      have hsame := epollCtl_same hforget
      obtain ⟨m₂, hm₂, heq⟩ := Option.map_eq_some_iff.mp hc
      cases heq
      have hcarries : Carries m { m₁ with pendingEventCount := m₁.pendingEventCount - 1 } :=
        Same.carries ⟨hsame.size, hsame.contexts, hsame.tasks⟩ h
      exact hcarries.trans (trigger_carries hcarries.tabled hm₂)
  · cases hc
    exact (Same.refl m).carries h

theorem cancelAll_carries {m m' : IOManager σ φ κ} (h : m.Tabled) {fd : Nat} {ok r : Bool}
    (hc : m.cancelAll fd ok = some (r, m')) : Carries m m' := by
  unfold cancelAll at hc
  split at hc
  · split at hc
    · next hctl =>
      cases hc
      exact (epollCtl_same hctl).carries h
    · next m₁ hctl =>
      obtain ⟨m₂, hm₂, hc⟩ := Option.bind_eq_some_iff.mp hc
      obtain ⟨m₃, hm₃, hc⟩ := Option.bind_eq_some_iff.mp hc
      have h₁ := (epollCtl_same hctl).carries h
      have h₂ := triggerIf_carries h₁.tabled hm₂
      have h₃ := triggerIf_carries h₂.tabled hm₃
      split at hc
      · cases hc
        exact (h₁.trans h₂).trans h₃
      · cases hc
  · cases hc
    exact (Same.refl m).carries h

theorem dispatch_carries {m m' : IOManager σ φ κ} (h : m.Tabled) {ready : ReadyEvent} {ok : Bool}
    (hd : m.dispatch ready ok = some m') : Carries m m' := by
  unfold dispatch at hd
  simp only at hd
  split at hd
  · cases hd
    exact (Same.refl m).carries h
  · split at hd
    · next hctl =>
      cases hd
      exact (epollCtl_same hctl).carries h
    · next m₁ hctl =>
      obtain ⟨m₂, hm₂, hm₃⟩ := Option.bind_eq_some_iff.mp hd
      have h₁ := (epollCtl_same hctl).carries h
      have h₂ := triggerIf_carries h₁.tabled hm₂
      exact (h₁.trans h₂).trans (triggerIf_carries h₂.tabled hm₃)

/-- Writing another context changes the occurrences by what that descriptor's waiters are. -/
theorem occurrences_setContext {m : IOManager σ φ κ} {fd : Nat} (hfd : fd < m.size)
    (x : FdContext σ φ κ) (f : φ) :
    (m.setContext fd x).occurrences f + (m.contexts fd).waits f = m.occurrences f + x.waits f := by
  have hregistrations := registrations_setContext hfd x f
  have hqueued : (m.setContext fd x).queued f = m.queued f := rfl
  rw [IOManager.occurrences, IOManager.occurrences, hqueued]
  omega

/-- `delEvent` drops the waiter of one event and touches no other fiber. -/
theorem delEvent_drops {m : IOManager σ φ κ} (h : m.Tabled) (fd : Nat) (e : Event) (ok : Bool) :
    (m.delEvent fd e ok).2.Tabled ∧
      (∀ f, ¬ m.WaitsAt f fd e → (m.delEvent fd e ok).2.occurrences f = m.occurrences f) ∧
      ∀ f fd' e', (m.delEvent fd e ok).2.WaitsAt f fd' e' → m.WaitsAt f fd' e' := by
  unfold delEvent
  split
  · next hheld =>
    split
    · next m₁ hforget =>
      have hsame := epollCtl_same hforget
      exact ⟨hsame.tabled h, fun f _ => hsame.occurrences f, fun _ _ _ => hsame.waitsAt⟩
    · next m₁ hforget =>
      have hsame := epollCtl_same hforget
      have hcounted : Same m { m₁ with pendingEventCount := m₁.pendingEventCount - 1 } :=
        ⟨hsame.size, hsame.contexts, hsame.tasks⟩
      have hfd : fd < { m₁ with pendingEventCount := m₁.pendingEventCount - 1 }.size :=
        hcounted.size ▸ hheld.1
      have hcontext : m₁.contexts fd = m.contexts fd := by rw [hsame.contexts]
      refine ⟨(hcounted.tabled h).setContext hfd ?_, ?_,
        fun _ _ _ hw => hcounted.waitsAt (waitsAt_clear hw)⟩
      · rw [hcontext]
        exact (h.wellFormed fd).clear e
      · intro f hf
        have hset := occurrences_setContext hfd ((m₁.contexts fd).clear e) f
        have hclear := (m₁.contexts fd).waits_clear e f
        have hzero : ((m₁.contexts fd).getEventContext e).waits f = 0 := by
          rw [hcontext]
          exact if_neg hf
        rw [hcounted.occurrences f] at hset
        simp only at hset ⊢
        omega
  · exact ⟨h, fun _ _ => rfl, fun _ _ _ hw => hw⟩

/-- `addEvent` registers the running fiber once if it succeeds without a callback. -/
theorem addEvent_registers {m m' : IOManager σ φ κ} (h : m.Tabled) {fd : Nat} {e : Event}
    {scheduler : σ} {self : φ} {cb : Option κ} {ok : Bool} {rt : Int}
    (ha : m.addEvent fd e scheduler self cb ok = some (rt, m')) :
    m'.Tabled ∧
      (∀ f, m'.occurrences f =
        m.occurrences f + if rt = 0 ∧ cb = none ∧ self = f then 1 else 0) ∧
      ∀ f fd' e', m'.WaitsAt f fd' e' → m.WaitsAt f fd' e' ∨
        (fd' = fd ∧ e' = e ∧ cb = none ∧ self = f) := by
  have hreserve := reserve_carries h fd
  obtain ⟨htabled, hfd, -⟩ := h.reserve fd
  unfold addEvent at ha
  simp only at ha
  split at ha
  · cases ha
    exact ⟨htabled, fun f => by simpa using hreserve.occurrences f,
      fun f fd' e' hw => Or.inl (hreserve.places f fd' e' hw)⟩
  next hbit =>
  split at ha
  · next hctl =>
    cases ha
    have hsame := epollCtl_same hctl
    refine ⟨hsame.tabled htabled, fun f => ?_,
      fun f fd' e' hw => Or.inl (hreserve.places f fd' e' (hsame.waitsAt hw))⟩
    simpa using (hsame.occurrences f).trans (hreserve.occurrences f)
  · next m₁ hctl =>
    have hsame := epollCtl_same hctl
    split at ha
    · next hempty =>
      cases ha
      have hx := htabled.wellFormed fd
      have hvacant := hx.vacant e (by simpa using hbit)
      have hcounted : Same (m.reserve fd)
          { m₁ with pendingEventCount := m₁.pendingEventCount + 1 } :=
        ⟨hsame.size, hsame.contexts, hsame.tasks⟩
      have hfd₁ : fd < { m₁ with pendingEventCount := m₁.pendingEventCount + 1 }.size :=
        hcounted.size ▸ hfd
      have hcontext : m₁.contexts fd = (m.reserve fd).contexts fd := by rw [hsame.contexts]
      refine ⟨(hcounted.tabled htabled).setContext hfd₁ (hx.register rfl ?_), ?_, ?_⟩
      · cases cb <;> simp [FdContext.Waiting]
      · intro f
        let waiter : EventContext σ φ κ :=
          { scheduler := some scheduler, fiber := if cb.isNone then some self else none, cb := cb }
        have hset := occurrences_setContext hfd₁
          (((m.reserve fd).contexts fd).register e waiter) f
        have hregister := FdContext.waits_register _ e waiter f hvacant
        have hwaits : waiter.waits f = if (0 : Int) = 0 ∧ cb = none ∧ self = f then 1 else 0 := by
          cases cb <;> simp [waiter, EventContext.waits]
        rw [hcounted.occurrences f, hreserve.occurrences f] at hset
        simp only [hcontext] at hset
        rw [← hwaits]
        change (IOManager.setContext _ fd (((m.reserve fd).contexts fd).register e waiter)).occurrences f
          = _
        omega
      · intro f fd' e' hw
        rw [← hcontext] at hw
        rcases waitsAt_register hw with hold | ⟨hfd', he', hfiber⟩
        · exact Or.inl (hreserve.places f fd' e' (hcounted.waitsAt hold))
        · refine Or.inr ⟨hfd', he', ?_⟩
          cases cb with
          | none => exact ⟨rfl, Option.some.inj hfiber⟩
          | some cb => cases hfiber
    · cases ha

end

end IOManager
end CoroutineRpc.Coroutine
