import CoroutineRpc.Coroutine.Shutdown
import CoroutineRpc.Library.Sums

/-! What holds while the workers of a pool leave one after the other. Each has its own moment
of decision, and only after the last one does the pool promise anything. -/
namespace CoroutineRpc.Coroutine
variable {φ κ : Type}

/-- The worker runs a task. -/
def Stage.busy : Stage φ κ → Bool
  | .executing _ => true
  | _ => false

/-- Where a worker can be once it has decided to leave. -/
def Stage.Parting : Stage φ κ → Prop
  | .scanning | .executing _ | .noTask | .exited => True
  | _ => False

/-- The worker runs no task and has not left. -/
def Stage.Free : Stage φ κ → Prop
  | .executing _ | .exited => False
  | _ => True

theorem Stage.free_ite {c : Prop} [Decidable c] {p q : Stage φ κ} (hp : p.Free) (hq : q.Free) :
    (if c then p else q).Free := by
  split
  · exact hp
  · exact hq

namespace Shutdown

/-- How many workers run a task. -/
def busy (workers : Finset Nat) (s : Shutdown φ κ) : Nat :=
  (workers.filter (fun w => (s.stage w).busy)).card

def Decided (workers : Finset Nat) (s : Shutdown φ κ) : Prop := ∀ w ∈ workers, s.idleTerm w = true

structure Inv (workers : Finset Nat) (s : Shutdown φ κ) : Prop where
  consistent : s.io.manager.Consistent
  active : s.active = busy workers s
  parting : ∀ w ∈ workers, s.idleTerm w = true → s.stopping = true ∧ (s.stage w).Parting
  exited : ∀ w ∈ workers, s.stage w = .exited → s.idleTerm w = true
  settled : s.Decided workers → s.isStopping = true ∧ s.timers.timers = [] ∧
    s.io.manager.pendingEventCount = 0

/-- Only the timers, the registrations and the queue have changed. -/
structure Frame (s t : Shutdown φ κ) : Prop where
  stage : t.stage = s.stage
  idleTerm : t.idleTerm = s.idleTerm
  stopping : t.stopping = s.stopping
  active : t.active = s.active
  consistent : s.io.manager.Consistent → t.io.manager.Consistent

theorem Frame.trans {s₁ s₂ s₃ : Shutdown φ κ} (h₁ : Frame s₁ s₂) (h₂ : Frame s₂ s₃) :
    Frame s₁ s₃ :=
  ⟨h₂.stage.trans h₁.stage, h₂.idleTerm.trans h₁.idleTerm, h₂.stopping.trans h₁.stopping,
    h₂.active.trans h₁.active, fun h => h₂.consistent (h₁.consistent h)⟩

theorem setTimers_frame (s : Shutdown φ κ) (m : TimerManager κ) : Frame s (s.setTimers m) :=
  ⟨rfl, rfl, rfl, rfl, id⟩

theorem push_frame (s : Shutdown φ κ) (task : Option (Task φ κ)) (thread : Option Nat) :
    Frame s (s.push task thread) := by
  cases task with
  | none => exact ⟨rfl, rfl, rfl, rfl, id⟩
  | some task => exact ⟨rfl, rfl, rfl, rfl, id⟩

private theorem pushAll_frame (s : Shutdown φ κ) (tasks : List (Task φ κ)) :
    Frame s (s.pushAll tasks) := by
  induction tasks generalizing s with
  | nil => exact ⟨rfl, rfl, rfl, rfl, id⟩
  | cons task tasks ih => exact (s.push_frame (some task) none).trans (ih _)

theorem ioStep_frame {s t : Shutdown φ κ} {a : IOAction Nat Unit φ κ}
    (h : s.ioStep a = some t) : Frame s t := by
  unfold ioStep at h
  split at h
  · cases h
  next io hio =>
  split at h
  · cases h
  next halive =>
  cases h
  apply Frame.trans _ (pushAll_frame _ _)
  refine ⟨rfl, rfl, rfl, rfl, fun hs => ?_⟩
  rcases Dispatcher.step_consistent hs hio with ⟨-, -, hm⟩ | ⟨-, hab⟩
  · exact hm.requeued []
  · exact absurd hab halive

theorem request_frame {s t : Shutdown φ κ} {r : Request φ κ} (h : s.request r = some t) :
    Frame s t := by
  cases r with
  | scheduleLock task thread =>
    cases h
    exact s.push_frame task thread
  | addTimer | cancel | refresh | reset =>
    cases h
    exact s.setTimers_frame _
  | addEvent | delEvent | cancelEvent | cancelAll => exact ioStep_frame h

@[simp] theorem move_same (s : Shutdown φ κ) (w : Nat) (p : Stage φ κ) :
    (s.move w p).stage w = p := Function.update_self _ _ _

theorem move_other (s : Shutdown φ κ) {w w' : Nat} (p : Stage φ κ) (h : w' ≠ w) :
    (s.move w p).stage w' = s.stage w' := Function.update_of_ne h _ _

theorem busy_move {workers : Finset Nat} (s : Shutdown φ κ) {w : Nat} (hw : w ∈ workers)
    (p : Stage φ κ) :
    busy workers (s.move w p) + (s.stage w).busy.toNat = busy workers s + p.busy.toNat := by
  have hcount := card_filter_change (p := fun w' => ((s.move w p).stage w').busy)
    (q := fun w' => (s.stage w').busy) hw (fun w' _ hne => by rw [s.move_other p hne])
  rwa [move_same] at hcount

theorem busy_pos {workers : Finset Nat} {s : Shutdown φ κ} {w : Nat} (hw : w ∈ workers)
    (hbusy : (s.stage w).busy = true) : 0 < busy workers s :=
  Finset.card_pos.mpr ⟨w, Finset.mem_filter.mpr ⟨hw, hbusy⟩⟩

/-- As long as one worker has not decided, nothing is promised about what is left. -/
theorem Inv.frame {workers : Finset Nat} {s t : Shutdown φ κ} (h : s.Inv workers) (hf : Frame s t)
    (hopen : ¬ s.Decided workers) : t.Inv workers := by
  refine ⟨hf.consistent h.consistent, ?_, ?_, ?_, ?_⟩
  · rw [hf.active, h.active, busy, busy, hf.stage]
  · rw [hf.idleTerm, hf.stopping, hf.stage]
    exact h.parting
  · rw [hf.stage, hf.idleTerm]
    exact h.exited
  · intro hdecided
    rw [Decided, hf.idleTerm] at hdecided
    exact absurd hdecided hopen

theorem Inv.undecided {workers : Finset Nat} {s : Shutdown φ κ} (h : s.Inv workers) {w : Nat}
    (hw : w ∈ workers) (hstage : ¬ (s.stage w).Parting) : s.idleTerm w = false := by
  by_contra hterm
  exact hstage (h.parting w hw (by simpa using hterm)).2

/-- A running task keeps the counter up. -/
theorem Inv.open_of_busy {workers : Finset Nat} {s : Shutdown φ κ} (h : s.Inv workers) {w : Nat}
    (hw : w ∈ workers) (hbusy : (s.stage w).busy = true) : ¬ s.Decided workers := by
  intro hdecided
  have hpos := busy_pos hw hbusy
  have hactive : s.active = 0 := by
    have hstopping := (h.settled hdecided).1
    simp only [isStopping, Bool.and_eq_true, beq_iff_eq] at hstopping
    exact hstopping.2
  have hcount := h.active
  omega

private theorem Inv.parting_move {workers : Finset Nat} {s : Shutdown φ κ} (h : s.Inv workers)
    {w : Nat} {p : Stage φ κ} (hp : s.idleTerm w = true → p.Parting) :
    ∀ w' ∈ workers, s.idleTerm w' = true →
      s.stopping = true ∧ ((s.move w p).stage w').Parting := by
  intro w' hw' hterm
  refine ⟨(h.parting w' hw' hterm).1, ?_⟩
  rcases eq_or_ne w' w with rfl | hne
  · rw [move_same]
    exact hp hterm
  · rw [s.move_other p hne]
    exact (h.parting w' hw' hterm).2

private theorem Inv.exited_move {workers : Finset Nat} {s : Shutdown φ κ} (h : s.Inv workers)
    {w : Nat} {p : Stage φ κ} (hp : p = .exited → s.idleTerm w = true) :
    ∀ w' ∈ workers, (s.move w p).stage w' = .exited → s.idleTerm w' = true := by
  intro w' hw' hstage
  rcases eq_or_ne w' w with rfl | hne
  · rw [move_same] at hstage
    exact hp hstage
  · rw [s.move_other p hne] at hstage
    exact h.exited w' hw' hstage

/-- A worker goes on without starting or ending a task. -/
theorem Inv.move {workers : Finset Nat} {s : Shutdown φ κ} (h : s.Inv workers) {w : Nat}
    (hw : w ∈ workers) {p : Stage φ κ} (hbusy : p.busy = (s.stage w).busy)
    (hparting : s.idleTerm w = true → p.Parting) (hexited : p = .exited → s.idleTerm w = true) :
    (s.move w p).Inv workers := by
  refine ⟨h.consistent, ?_, h.parting_move hparting, h.exited_move hexited, h.settled⟩
  have hmove := s.busy_move hw p
  rw [hbusy] at hmove
  show s.active = _
  rw [h.active]
  omega

/-- A worker in `idle` does something and goes on there, or leaves it for the queue. -/
theorem Inv.pass {workers : Finset Nat} {s s' : Shutdown φ κ} (h : s.Inv workers) {w : Nat}
    (hw : w ∈ workers) {q p : Stage φ κ} (hstage : s.stage w = q) (hq : ¬ q.Parting)
    (hf : Frame s s') (hp : p.Free) : (s'.move w p).Inv workers := by
  have hterm : s.idleTerm w = false := h.undecided hw (hstage ▸ hq)
  have hs' : s'.Inv workers := by
    apply h.frame hf
    intro hdecided
    exact Bool.false_ne_true (hterm.symm.trans (hdecided w hw))
  have hq_idle : q.busy = false := by
    cases q with
    | executing q => exact absurd trivial hq
    | _ => rfl
  have hp_idle : p.busy = false := by
    cases p with
    | executing q => exact absurd hp id
    | _ => rfl
  apply hs'.move hw
  · rw [hp_idle, hf.stage, hstage, hq_idle]
  · rw [hf.idleTerm, hterm]
    exact fun hfalse => absurd hfalse Bool.false_ne_true
  · rintro rfl
    exact absurd hp id

/-- The worker takes a task, which the last one to decide would have seen. -/
theorem Inv.scan {workers : Finset Nat} {s : Shutdown φ κ} (h : s.Inv workers) {w : Nat}
    (hw : w ∈ workers) (hstage : s.stage w = .scanning) : (s.scan w).Inv workers := by
  unfold Shutdown.scan
  split
  · apply h.move hw
    · rw [hstage]
      rfl
    · exact fun _ => trivial
    · rintro ⟨⟩
  · next q left tickleMe hfound =>
    have hopen : ¬ s.Decided workers := by
      intro hdecided
      have hstopping := (h.settled hdecided).1
      simp only [isStopping, Bool.and_eq_true, List.isEmpty_iff] at hstopping
      rw [hstopping.1.2] at hfound
      cases hfound
    have hmove := s.busy_move hw (.executing q)
    rw [hstage] at hmove
    simp only [Stage.busy, Bool.toNat_true, Bool.toNat_false] at hmove
    refine ⟨h.consistent, ?_, h.parting_move (fun _ => trivial), h.exited_move (by rintro ⟨⟩),
      fun hdecided => absurd hdecided hopen⟩
    show s.active + 1 = (busy workers (s.move w (.executing q)) : Int)
    rw [h.active]
    omega

theorem Inv.finish {workers : Finset Nat} {s : Shutdown φ κ} (h : s.Inv workers) {w : Nat}
    (hw : w ∈ workers) (hbusy : (s.stage w).busy = true) :
    ({ s.move w .scanning with active := s.active - 1 } : Shutdown φ κ).Inv workers := by
  have hopen := h.open_of_busy hw hbusy
  have hmove := s.busy_move hw .scanning
  rw [hbusy] at hmove
  simp only [Stage.busy, Bool.toNat_true, Bool.toNat_false] at hmove
  refine ⟨h.consistent, ?_, h.parting_move (fun _ => trivial), h.exited_move (by rintro ⟨⟩),
    fun hdecided => absurd hdecided hopen⟩
  show s.active - 1 = (busy workers (s.move w .scanning) : Int)
  rw [h.active]
  omega

/-- The third test passes. -/
def leave (s : Shutdown φ κ) (w : Nat) : Shutdown φ κ :=
  { s.move w .scanning with idleTerm := Function.update s.idleTerm w true }

theorem leave_idleTerm_other (s : Shutdown φ κ) {w w' : Nat} (h : w' ≠ w) :
    (s.leave w).idleTerm w' = s.idleTerm w' := Function.update_of_ne h _ _

theorem Inv.leave {workers : Finset Nat} {s : Shutdown φ κ} (h : s.Inv workers) {w : Nat}
    (hw : w ∈ workers) (hstage : s.stage w = .testingTasks) (hstopping : s.isStopping = true)
    (hg : s.StillDone workers (.testTasks w)) : (s.leave w).Inv workers := by
  have hmove := s.busy_move hw .scanning
  rw [hstage] at hmove
  simp only [Stage.busy, Bool.toNat_false] at hmove
  have hstopped : s.stopping = true := by
    simp only [isStopping, Bool.and_eq_true] at hstopping
    exact hstopping.1.1
  have hparting := h.parting_move (w := w) (p := .scanning) (fun _ => trivial)
  have hexited := h.exited_move (w := w) (p := .scanning) (by rintro ⟨⟩)
  refine ⟨h.consistent, ?_, ?_, ?_, ?_⟩
  · show s.active = (busy workers (s.move w .scanning) : Int)
    rw [h.active]
    omega
  · intro w' hw' hterm
    rcases eq_or_ne w' w with rfl | hne
    · refine ⟨hstopped, ?_⟩
      show ((s.move w' .scanning).stage w').Parting
      rw [move_same]
      trivial
    · exact hparting w' hw' ((s.leave_idleTerm_other hne).symm.trans hterm)
  · intro w' hw' hleft
    rcases eq_or_ne w' w with rfl | hne
    · exact Function.update_self _ _ _
    · exact (s.leave_idleTerm_other hne).trans (hexited w' hw' hleft)
  · intro hdecided
    obtain ⟨htimers, hevents⟩ := hg hstopping (fun w' hw' hne =>
      (s.leave_idleTerm_other hne).symm.trans (hdecided w' hw'))
    exact ⟨hstopping, htimers, hevents⟩

end Shutdown
end CoroutineRpc.Coroutine
