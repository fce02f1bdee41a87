import CoroutineRpc.Coroutine.Operations
import CoroutineRpc.Library.Transition

/-! All workers of a manager at once. `epoll_wait` returns a list of ready entries in one step,
and each entry is handled in a step of its own, with anything in between. -/
namespace CoroutineRpc.Coroutine

/-- A manager, the entries that each worker has still to handle, and whether an assertion has
failed or a null scheduler was used. -/
structure Dispatcher (ω σ φ κ : Type) where
  manager : IOManager σ φ κ := {}
  ready : ω → List ReadyEvent := fun _ => []
  aborted : Bool := false

/-- The critical sections; `ok` is what the system answers to their `epoll_ctl`. -/
inductive IOAction (ω σ φ κ : Type) where
  | addEvent (fd : Nat) (e : Event) (scheduler : σ) (self : φ) (cb : Option κ) (ok : Bool)
  | delEvent (fd : Nat) (e : Event) (ok : Bool)
  | cancelEvent (fd : Nat) (e : Event) (ok : Bool)
  | cancelAll (fd : Nat) (ok : Bool)
  | epollWait (worker : ω) (events : List ReadyEvent)
  | dispatch (worker : ω) (ok : Bool)

namespace Dispatcher
variable {ω σ φ κ : Type} [DecidableEq ω]

/-- The kernel reports descriptors that it holds, with events that are armed; errors and
hang-ups are always armed. -/
def reports (m : IOManager σ φ κ) (r : ReadyEvent) : Bool :=
  match m.epoll r.fd with
  | none => false
  | some mask => (!r.epollIn || mask.read) && (!r.epollOut || mask.write)

def settle (s : Dispatcher ω σ φ κ) : Option (IOManager σ φ κ) → Dispatcher ω σ φ κ
  | some m => { s with manager := m }
  | none => { s with aborted := true }

def apply (s : Dispatcher ω σ φ κ) : IOAction ω σ φ κ → Option (Dispatcher ω σ φ κ)
  | .addEvent fd e scheduler self cb ok =>
    some (s.settle ((s.manager.addEvent fd e scheduler self cb ok).map (·.2)))
  | .delEvent fd e ok => some (s.settle (some (s.manager.delEvent fd e ok).2))
  | .cancelEvent fd e ok => some (s.settle ((s.manager.cancelEvent fd e ok).map (·.2)))
  | .cancelAll fd ok => some (s.settle ((s.manager.cancelAll fd ok).map (·.2)))
  | .epollWait worker events =>
    if s.ready worker = [] ∧ events.all (reports s.manager) then
      some { s with ready := Function.update s.ready worker events }
    else none
  | .dispatch worker ok =>
    match s.ready worker with
    | [] => none
    | r :: rest =>
      some ({ s with ready := Function.update s.ready worker rest }.settle
        (s.manager.dispatch r ok))

/-- Nothing runs after an abort. -/
def step (s : Dispatcher ω σ φ κ) (a : IOAction ω σ φ κ) : Option (Dispatcher ω σ φ κ) :=
  if s.aborted then none else s.apply a

/-- The entry about to be handled has no registered event, or only registered ones, unless
its `epoll_ctl` fails. -/
def Registered (s : Dispatcher ω σ φ κ) : IOAction ω σ φ κ → Prop
  | .dispatch worker ok => ∀ r rest, s.ready worker = r :: rest → ok = true →
      IOManager.Covers (s.manager.contexts r.fd).events r
  | _ => True

/-- No assertion has failed and the counter is not below zero. -/
def Safe (s : Dispatcher ω σ φ κ) : Prop :=
  s.aborted = false ∧ 0 ≤ s.manager.pendingEventCount

private theorem addEvent_step {m : IOManager σ φ κ} (h : m.Consistent) (fd : Nat) (e : Event)
    (scheduler : σ) (self : φ) (cb : Option κ) (ok : Bool) :
    ∃ r, m.addEvent fd e scheduler self cb ok = some r ∧ r.2.Consistent := by
  obtain ⟨hres, hfd⟩ := h.reserve fd
  obtain ⟨rt, m', hadd, hcases⟩ := IOManager.addEvent_spec h fd e scheduler self cb ok
  refine ⟨_, hadd, ?_⟩
  rcases hcases with ⟨-, -, rfl⟩ | ⟨-, -, -, op, hr⟩ | ⟨-, -, -, hr⟩
  · exact hres
  · exact hres.refused hr
  · refine hres.rewritten hfd ((h.wellFormed fd).register rfl ?_) hr
    cases cb <;> simp [FdContext.Waiting]

private theorem delEvent_step {m : IOManager σ φ κ} (h : m.Consistent) (fd : Nat) (e : Event)
    (ok : Bool) : (m.delEvent fd e ok).2.Consistent := by
  rcases IOManager.delEvent_spec h fd e ok with ⟨-, hd⟩ | ⟨hheld, m', hd, hcases⟩
  · rwa [hd]
  · rw [hd]
    rcases hcases with ⟨-, op, hr⟩ | ⟨-, hr⟩
    · exact h.refused hr
    · exact h.rewritten hheld.1 ((h.wellFormed fd).clear e) hr

private theorem cancelEvent_step {m : IOManager σ φ κ} (h : m.Consistent) (fd : Nat) (e : Event)
    (ok : Bool) : ∃ r, m.cancelEvent fd e ok = some r ∧ r.2.Consistent := by
  rcases IOManager.cancelEvent_spec h fd e ok with ⟨-, hc⟩ | ⟨hheld, m', hc, hcases⟩
  · exact ⟨_, hc, h⟩
  · refine ⟨_, hc, ?_⟩
    rcases hcases with ⟨-, op, hr⟩ | ⟨-, hr⟩
    · exact h.refused hr
    · exact h.rewritten hheld.1 ((h.wellFormed fd).clear e) hr

private theorem cancelAll_step {m : IOManager σ φ κ} (h : m.Consistent) (fd : Nat) (ok : Bool) :
    ∃ r, m.cancelAll fd ok = some r ∧ r.2.Consistent := by
  rcases IOManager.cancelAll_spec h fd ok with ⟨-, hc⟩ | ⟨hheld, m', hc, hcases⟩
  · exact ⟨_, hc, h⟩
  · refine ⟨_, hc, ?_⟩
    rcases hcases with ⟨-, op, hr⟩ | ⟨-, hr⟩
    · exact h.refused hr
    · exact h.rewritten hheld.1 ((h.wellFormed fd).clearMask _) hr

private theorem dispatch_step {m : IOManager σ φ κ} (h : m.Consistent) (r : ReadyEvent)
    (ok : Bool) : ((ok = true → IOManager.Covers (m.contexts r.fd).events r) ∧
      ∃ m', m.dispatch r ok = some m' ∧ m'.Consistent) ∨
    (¬ (ok = true → IOManager.Covers (m.contexts r.fd).events r) ∧ m.dispatch r ok = none) := by
  have hspec := IOManager.dispatch_spec h r ok
  simp only at hspec
  rcases hspec with ⟨hnone, hd⟩ | ⟨-, hok, op, m', hd, hr⟩ | ⟨hsome, -, hsub, m', hd, hr⟩ |
    ⟨hsome, hok, hsub, hd⟩
  · exact Or.inl ⟨fun _ => Or.inl hnone, m, hd, h⟩
  · exact Or.inl ⟨fun ht => absurd (hok.symm.trans ht) (by decide), m', hd, h.refused hr⟩
  · refine Or.inl ⟨fun _ => Or.inr hsub, m', hd, ?_⟩
    refine h.rewritten ?_ ((h.wellFormed _).clearMask _) hr
    by_contra hout
    rw [h.outside r.fd (by omega)] at hsome
    exact hsome rfl
  · refine Or.inr ⟨?_, hd⟩
    intro hcovers
    exact (hcovers hok).elim hsome hsub

/-- One step keeps the bookkeeping, or it is the dispatch of a stale entry and aborts. -/
theorem step_consistent {s t : Dispatcher ω σ φ κ} {a : IOAction ω σ φ κ}
    (h : s.manager.Consistent) (hstep : s.step a = some t) :
    (s.Registered a ∧ t.aborted = false ∧ t.manager.Consistent) ∨
      (¬ s.Registered a ∧ t.aborted = true) := by
  unfold step at hstep
  split at hstep
  · cases hstep
  next halive =>
  have halive : s.aborted = false := by simpa using halive
  cases a with
  | addEvent fd e scheduler self cb ok =>
    obtain ⟨r, hadd, hr⟩ := addEvent_step h fd e scheduler self cb ok
    simp only [apply, hadd, Option.map_some, settle, Option.some.injEq] at hstep
    subst hstep
    exact Or.inl ⟨trivial, halive, hr⟩
  | delEvent fd e ok =>
    cases hstep
    exact Or.inl ⟨trivial, halive, delEvent_step h fd e ok⟩
  | cancelEvent fd e ok =>
    obtain ⟨r, hc, hr⟩ := cancelEvent_step h fd e ok
    simp only [apply, hc, Option.map_some, settle, Option.some.injEq] at hstep
    subst hstep
    exact Or.inl ⟨trivial, halive, hr⟩
  | cancelAll fd ok =>
    obtain ⟨r, hc, hr⟩ := cancelAll_step h fd ok
    simp only [apply, hc, Option.map_some, settle, Option.some.injEq] at hstep
    subst hstep
    exact Or.inl ⟨trivial, halive, hr⟩
  | epollWait worker events =>
    simp only [apply] at hstep
    split at hstep
    · cases hstep
      exact Or.inl ⟨trivial, halive, h⟩
    · cases hstep
  | dispatch worker ok =>
    simp only [apply] at hstep
    split at hstep
    · cases hstep
    next r rest hready =>
    have hguard : s.Registered (.dispatch worker ok) ↔
        (ok = true → IOManager.Covers (s.manager.contexts r.fd).events r) := by
      simp only [Registered, hready, List.cons.injEq]
      exact ⟨fun hg => hg r rest ⟨rfl, rfl⟩, fun hg r' rest' he => he.1 ▸ hg⟩
    rw [hguard]
    rcases dispatch_step h r ok with ⟨hcovers, m', hd, hm'⟩ | ⟨hcovers, hd⟩
    · rw [hd] at hstep
      cases hstep
      exact Or.inl ⟨hcovers, halive, hm'⟩
    · rw [hd] at hstep
      cases hstep
      exact Or.inr ⟨hcovers, rfl⟩

theorem initial_consistent : ({} : IOManager σ φ κ).Consistent where
  wellFormed _ := FdContext.empty_wellFormed
  outside _ _ := rfl
  size := le_refl _
  armed _ := rfl
  issued _ h := absurd h List.not_mem_nil
  pending := by simp [IOManager.registered, Events.card]

/-- In every state of every run that no assertion has aborted, the four pieces of the
bookkeeping agree, and every `epoll_ctl` so far was a legal one. -/
theorem always_consistent (as : List (IOAction ω σ φ κ)) :
    Transition.Always step (fun s => s.aborted = false → s.manager.Consistent)
      ({} : Dispatcher ω σ φ κ) as := by
  have hstep : ∀ (s : Dispatcher ω σ φ κ) a t, (s.aborted = false → s.manager.Consistent) →
      True → s.step a = some t → t.aborted = false → t.manager.Consistent := by
    intro s a t hs _ hst halive
    have hs' : s.aborted = false := by
      by_contra hab
      rw [step, if_pos (by simpa using hab)] at hst
      cases hst
    rcases step_consistent (hs hs') hst with ⟨-, -, hm⟩ | ⟨-, hab⟩
    · exact hm
    · exact absurd (hab.symm.trans halive) (by decide)
  exact Transition.always_of_guarded hstep (fun _ => initial_consistent)
    (Transition.guarded_of_forall (fun _ _ _ => trivial) _)

/-- Exactly the runs without the dispatch of a partly stale entry are free of aborts. -/
theorem safe_iff_registered (as : List (IOAction ω σ φ κ)) :
    Transition.Always step Safe ({} : Dispatcher ω σ φ κ) as ↔
      Transition.Guarded step Registered ({} : Dispatcher ω σ φ κ) as := by
  have haux : ∀ (s : Dispatcher ω σ φ κ) a t, s.manager.Consistent → s.Safe → s.Registered a →
      s.step a = some t → t.manager.Consistent := by
    intro s a t hs _ hg hst
    rcases step_consistent hs hst with ⟨-, -, hm⟩ | ⟨hng, -⟩
    · exact hm
    · exact absurd hg hng
  have hiff : ∀ (s : Dispatcher ω σ φ κ) a t, s.manager.Consistent → s.Safe →
      s.step a = some t → (t.Safe ↔ s.Registered a) := by
    intro s a t hs _ hst
    rcases step_consistent hs hst with ⟨hg, halive, hm⟩ | ⟨hng, hab⟩
    · exact iff_of_true ⟨halive, hm.nonneg⟩ hg
    · refine iff_of_false ?_ hng
      rintro ⟨halive, -⟩
      exact absurd (hab.symm.trans halive) (by decide)
  exact Transition.always_iff_guarded haux hiff initial_consistent ⟨rfl, le_refl _⟩

/-- Two fibers wait for reading and for writing on descriptor 0. Worker 0 gets both events as
ready, another worker cancels the reader, and worker 0 handles its entry. -/
def cancelledBeforeDispatch : List (IOAction Nat Unit Nat Unit) :=
  [.addEvent 0 .read () 1 none true, .addEvent 0 .write () 2 none true,
    .epollWait 0 [{ fd := 0, epollIn := true, epollOut := true }],
    .cancelEvent 0 .read true, .dispatch 0 true]

/-- The dispatch triggers the reader's bit, which is no longer set. -/
theorem stale_bit_triggered :
    (∃ s, Transition.run step {} cancelledBeforeDispatch = some s ∧ s.aborted = true) ∧
      ¬ Transition.Always step Safe ({} : Dispatcher Nat Unit Nat Unit)
        cancelledBeforeDispatch := by
  have hrun : ∃ s : Dispatcher Nat Unit Nat Unit,
      Transition.run step {} cancelledBeforeDispatch = some s ∧ s.aborted = true := ⟨_, rfl, rfl⟩
  refine ⟨hrun, ?_⟩
  intro halways
  obtain ⟨s, hs, hab⟩ := hrun
  exact absurd ((halways.finish hs).1.symm.trans hab) (by decide)

end Dispatcher
end CoroutineRpc.Coroutine
