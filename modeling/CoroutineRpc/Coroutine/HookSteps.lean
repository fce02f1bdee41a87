import CoroutineRpc.Coroutine.Carrying
import CoroutineRpc.Coroutine.Hook
import CoroutineRpc.Coroutine.TimerLife

/-! What the steps of hooked I/O can do. A worker that executes no fiber moves tasks and serves
the manager; a statement of `do_io` falls into one of six kinds. -/
namespace CoroutineRpc.Coroutine
variable {φ κ : Type}

/-- A call of `do_io` waits from the success of `addEvent` until the fiber is resumed. -/
def Pc.waits : Pc → Bool
  | .yielding _ | .waiting _ => true
  | _ => false

/-- The timer of the round that the call is in. -/
def Pc.timer : Pc → Option TimerId
  | .add timer | .giveUp timer | .yielding timer | .waiting timer | .woken timer => timer
  | _ => none

/-- No timer is under way and the fiber does not wait. -/
def Pc.Quiet (pc : Pc) : Prop := pc.timer = none ∧ pc.waits = false

theorem Pc.Quiet.ne_waiting {pc : Pc} (h : pc.Quiet) (timer : Option TimerId) :
    pc ≠ .waiting timer := by
  rintro rfl
  cases h.2

/-- How often the fiber is in the task that a worker has taken. -/
def Duty.takes [DecidableEq φ] (d : Duty φ κ) (f : φ) : Nat :=
  match d with
  | .taken task => if task.isFor f then 1 else 0
  | _ => 0

namespace Hooked

/-- A step of a worker that executes no fiber, before and after. -/
structure Serves [DecidableEq φ] (s t : Hooked φ κ) (w : Nat) : Prop where
  call : t.call = s.call
  fiberState : t.fiberState = s.fiberState
  mutex : t.mutex = s.mutex
  others : ∀ w', w' ≠ w → t.duty w' = s.duty w'
  before : ∀ f, s.duty w ≠ .executing f
  after : ∀ f, t.duty w ≠ .executing f
  tabled : t.manager.Tabled
  places : ∀ f fd e, t.manager.WaitsAt f fd e → s.manager.WaitsAt f fd e
  timers : TimerManager.Keeps s.timers t.timers
  balance : ∀ f, t.manager.occurrences f + (t.duty w).takes f =
    s.manager.occurrences f + (s.duty w).takes f

@[simp] theorem setDuty_same (s : Hooked φ κ) (w : Nat) (d : Duty φ κ) :
    (s.setDuty w d).duty w = d := Function.update_self _ _ _

theorem setDuty_other (s : Hooked φ κ) {w w' : Nat} (d : Duty φ κ) (h : w' ≠ w) :
    (s.setDuty w d).duty w' = s.duty w' := Function.update_of_ne h _ _

section
variable [DecidableEq φ]

/-- A worker's step on the manager, the timers and the conditions of timers. -/
theorem serves_of {s : Hooked φ κ} {w : Nat} {d d' : Duty φ κ}
    {m : IOManager Unit φ (HookCallback κ)} {timers : TimerManager (HookCallback κ)}
    {infos : InfoId → TimerInfo} (hduty : s.duty w = d) (hbefore : ∀ f, d ≠ .executing f)
    (hafter : ∀ f, d' ≠ .executing f) (hm : m.Tabled)
    (hplaces : ∀ f fd e, m.WaitsAt f fd e → s.manager.WaitsAt f fd e)
    (htimers : TimerManager.Keeps s.timers timers)
    (hbalance : ∀ f, m.occurrences f + d'.takes f = s.manager.occurrences f + d.takes f) :
    Serves s ({ s with manager := m, timers := timers, infos := infos }.setDuty w d') w := by
  refine ⟨rfl, rfl, rfl, fun w' hne => setDuty_other _ d' hne, ?_, ?_, hm, hplaces, htimers, ?_⟩
  · rw [hduty]
    exact hbefore
  · rw [setDuty_same]
    exact hafter
  · rw [hduty, setDuty_same]
    exact hbalance

theorem occurrences_schedule (m : IOManager Unit φ (HookCallback κ))
    (task : Task φ (HookCallback κ)) (f : φ) :
    ({ m with tasks := m.tasks ++ [((), task)] } : IOManager Unit φ (HookCallback κ)).occurrences f =
      m.occurrences f + if task.isFor f then 1 else 0 := by
  change m.registrations f + (m.tasks ++ [((), task)]).countP (fun q => q.2.isFor f) =
    m.registrations f + m.tasks.countP (fun q => q.2.isFor f) + _
  rw [List.countP_append, List.countP_singleton, Nat.add_assoc]

/-- Taking a task out of the queue, wherever it stands. -/
theorem occurrences_take (m : IOManager Unit φ (HookCallback κ)) {i : Nat}
    {q : Unit × Task φ (HookCallback κ)} (hi : m.tasks[i]? = some q) (f : φ) :
    ({ m with tasks := m.tasks.eraseIdx i } : IOManager Unit φ (HookCallback κ)).occurrences f +
      (if q.2.isFor f then 1 else 0) = m.occurrences f := by
  obtain ⟨hlt, hq⟩ := List.getElem?_eq_some_iff.mp hi
  have hperm := (List.getElem_cons_eraseIdx_perm hlt).countP_eq (fun q => q.2.isFor f)
  rw [hq, List.countP_cons] at hperm
  change m.registrations f + (m.tasks.eraseIdx i).countP (fun q => q.2.isFor f) + _ =
    m.registrations f + m.tasks.countP (fun q => q.2.isFor f)
  omega

theorem workerStep_serves {s t : Hooked φ κ} {w : Nat} {a : HookAction φ κ} {d : Duty φ κ}
    (hm : s.manager.Tabled) (ht : s.timers.Orderly) (hduty : s.duty w = d)
    (hstep : s.workerStep w a d = some t) : Serves s t w := by
  have htimers := TimerManager.Keeps.refl ht
  have hstay : ∀ f fd e, s.manager.WaitsAt f fd e → s.manager.WaitsAt f fd e := fun _ _ _ hw => hw
  unfold workerStep at hstep
  split at hstep
  case h_1 i =>
    obtain ⟨q, hq, rfl⟩ := Option.map_eq_some_iff.mp hstep
    exact serves_of hduty (by simp) (by simp) ⟨hm.wellFormed, hm.outside, hm.size⟩ hstay
      htimers (fun f => occurrences_take s.manager hq f)
  case h_2 =>
    split at hstep <;> cases hstep
    · exact serves_of hduty (by simp) (by simp) hm hstay htimers (fun f => rfl)
    · exact serves_of hduty (by simp) (by simp) hm hstay htimers (fun f => rfl)
  case h_3 =>
    split at hstep <;> cases hstep
    · exact serves_of hduty (by simp) (by simp) hm hstay htimers (fun f => rfl)
    · exact serves_of hduty (by simp) (by simp) hm hstay htimers (fun f => rfl)
  case h_4 =>
    cases hstep
    exact serves_of hduty (by simp) (by simp) hm hstay htimers (fun f => rfl)
  case h_5 =>
    obtain ⟨r, hr, rfl⟩ := Option.map_eq_some_iff.mp hstep
    have hcarries := IOManager.cancelEvent_carries hm hr
    exact serves_of hduty (by simp) (by simp) hcarries.tabled hcarries.places htimers
      hcarries.occurrences
  case h_6 =>
    split at hstep <;> cases hstep
    exact serves_of hduty (by simp) (by simp) hm hstay htimers (fun f => rfl)
  case h_7 =>
    obtain ⟨r, hr, rfl⟩ := Option.map_eq_some_iff.mp hstep
    exact serves_of hduty (by simp) (by simp) hm hstay (TimerManager.listExpiredCb_keeps ht hr)
      (fun f => rfl)
  case h_8 =>
    split at hstep <;> cases hstep
    · exact serves_of hduty (by simp) (by simp) hm hstay htimers (fun f => rfl)
    · exact serves_of hduty (by simp) (by simp) ⟨hm.wellFormed, hm.outside, hm.size⟩ hstay
        htimers (fun f => occurrences_schedule s.manager _ f)
  case h_9 =>
    obtain ⟨m, hdispatch, rfl⟩ := Option.map_eq_some_iff.mp hstep
    have hcarries := IOManager.dispatch_carries hm hdispatch
    exact serves_of hduty (by simp) (by simp) hcarries.tabled hcarries.places htimers
      hcarries.occurrences
  case h_10 =>
    cases hstep
    exact serves_of hduty (by simp) (by simp) hm hstay htimers (fun f => rfl)
  case h_11 => cases hstep

/-- The kinds of statements of `do_io`, with the states they lead to. -/
inductive IoTo (s : Hooked φ κ) (w : Nat) (f : φ) (c : DoIo) : Hooked φ κ → Prop where
  | jump (pc : Pc) (infos : InfoId → TimerInfo) (now : c.pc.Quiet) (next : pc.Quiet) :
      IoTo s w f c { s.goto f c pc with infos := infos }
  | arm {ms : Nat} {clock : Int} {t : TimerId} {front : Bool}
      {m : TimerManager (HookCallback κ)} (now : c.pc.Quiet)
      (added : s.timers.addConditionTimer ms (.timeout ⟨c.tinfo, c.fd, c.event⟩) c.tinfo false
        clock = (t, front, m)) :
      IoTo s w f c ((s.setTimers m).goto f { c with made := t :: c.made } (.add (some t)))
  | add {timer : Option TimerId} {ok : Bool} {rt : Int} {m : IOManager Unit φ (HookCallback κ)}
      (now : c.pc = .add timer)
      (added : s.manager.addEvent c.fd c.event () f none ok = some (rt, m)) :
      IoTo s w f c ((s.setManager m).goto f c (if rt = 0 then .yielding timer else .giveUp timer))
  | yield {timer : Option TimerId} (now : c.pc = .yielding timer) :
      IoTo s w f c ((s.goto f c (.waiting timer)).park w f .ready)
  | cancel {timer : Option TimerId} (pc : Pc) (infos : InfoId → TimerInfo)
      (now : c.pc = .giveUp timer ∨ c.pc = .woken timer) (next : pc.Quiet) :
      IoTo s w f c { (s.cancelOpt timer).goto f c pc with infos := infos }
  | leave : IoTo s w f c (s.setCall f none)

theorem ioStep_to {s t : Hooked φ κ} {w : Nat} {f : φ} {c : DoIo} {op : IoOp}
    (hc : s.call f = some c) (hstep : s.ioStep w f c op c.pc = some t) : IoTo s w f c t := by
  generalize hpc : c.pc = pc at hstep
  unfold ioStep at hstep
  split at hstep
  case h_1 r =>
    cases hstep
    exact .jump (.returned r) _ (by rw [hpc]; exact ⟨rfl, rfl⟩) ⟨rfl, rfl⟩
  case h_2 r =>
    have hnow : c.pc.Quiet := by rw [hpc]; exact ⟨rfl, rfl⟩
    split at hstep
    · cases hstep
      have hstay : s.goto f c c.pc = s := by
        simp only [goto, setCall]
        rw [Function.update_eq_self_iff.mpr hc.symm]
      have hjump : IoTo s w f c (s.goto f c c.pc) := .jump c.pc s.infos hnow hnow
      rwa [hstay] at hjump
    split at hstep
    · cases hstep
      exact .jump .arm s.infos hnow ⟨rfl, rfl⟩
    · cases hstep
      exact .jump (.returned r) _ hnow ⟨rfl, rfl⟩
  case h_3 now =>
    have hnow : c.pc.Quiet := by rw [hpc]; exact ⟨rfl, rfl⟩
    split at hstep
    · cases hstep
      exact .jump (.add none) s.infos hnow ⟨rfl, rfl⟩
    · next ms _ =>
      cases hstep
      exact .arm hnow rfl
  case h_4 ok timer =>
    obtain ⟨r, hr, rfl⟩ := Option.map_eq_some_iff.mp hstep
    exact .add hpc hr
  case h_5 errno timer =>
    cases hstep
    exact .cancel (.returned ⟨-1, errno⟩) _ (Or.inl hpc) ⟨rfl, rfl⟩
  case h_6 timer =>
    cases hstep
    exact .yield hpc
  case h_7 timer =>
    cases hstep
    exact .cancel .check (s.cancelOpt timer).infos (Or.inr hpc) ⟨rfl, rfl⟩
  case h_8 =>
    have hnow : c.pc.Quiet := by rw [hpc]; exact ⟨rfl, rfl⟩
    split at hstep <;> cases hstep
    · exact .jump (.returned _) _ hnow ⟨rfl, rfl⟩
    · exact .jump .attempt s.infos hnow ⟨rfl, rfl⟩
  case h_9 =>
    cases hstep
    exact .leave
  case h_10 => cases hstep

end
end Hooked
end CoroutineRpc.Coroutine
