import CoroutineRpc.Coroutine.Exclusion

/-! Every statement of a worker and of a fiber keeps the mutex, the state and the log of the
fibers in agreement, so no run resumes a fiber twice, in a wrong state, or after its end. -/
namespace CoroutineRpc.Coroutine.FiberRun
variable {φ κ : Type} [DecidableEq φ]

structure Sound (workers : Finset Nat) (s : FiberRun φ κ) : Prop where
  locks : Locks workers s
  history : History s
  asserted : s.aborted = false

theorem sound_start (workers : Finset Nat) : Sound workers ({} : FiberRun φ κ) := by
  refine ⟨⟨?_, ?_, ?_⟩, ⟨?_, ?_, ?_, List.Pairwise.nil⟩, rfl⟩
  · intro w _ f hf
    cases hf
  · intro f x w hx
    cases hx
  · intro f x hx
    cases hx
  · intro f x hx
    cases hx
  · intro f x hx
    cases hx
  · exact fun f _ => ⟨List.not_mem_nil, List.not_mem_nil⟩

/-- A fiber that is made rests, and no worker knows it. -/
theorem Locks.construct {workers : Finset Nat} {s : FiberRun φ κ} (h : Locks workers s) {f : φ}
    (hf : s.fibers f = none) : Locks workers (s.setFiber f {}) := by
  have hother : ∀ {g y}, s.fibers g = some y → g ≠ f := by
    rintro g y hy rfl
    cases hf.symm.trans hy
  refine ⟨?_, ?_, ?_⟩
  · intro w hw g hheld
    obtain ⟨y, hy, hmine⟩ := h.mine w hw g hheld
    exact ⟨y, (Function.update_of_ne (hother hy) _ _).trans hy, hmine⟩
  · intro g y w hy hmutex
    by_cases hg : g = f
    · subst hg
      cases (Function.update_self _ _ _).symm.trans hy
      cases hmutex
    · exact h.held g y w ((Function.update_of_ne hg _ _).symm.trans hy) hmutex
  · intro g y hy
    by_cases hg : g = f
    · subst hg
      cases (Function.update_self _ _ _).symm.trans hy
      exact Or.inl ⟨rfl, Or.inl rfl⟩
    · exact h.fits g y ((Function.update_of_ne hg _ _).symm.trans hy)

private theorem scan_sound {workers : Finset Nat} {s : FiberRun φ κ} (h : Sound workers s) {w : Nat}
    (hplace : s.place w = .scanning) : Sound workers (s.scan w) := by
  unfold scan
  split
  · exact h
  · have hold : (s.place w).held = none := by rw [hplace]; rfl
    exact ⟨(h.locks.idle hold rfl).congr rfl rfl, h.history.congr rfl rfl, h.asserted⟩

private theorem lock_sound {workers : Finset Nat} {s t : FiberRun φ κ} (h : Sound workers s)
    {w : Nat} {f : φ} {task : Task φ κ} (hplace : s.place w = .taken task)
    (hlock : s.lock w f task = some t) : Sound workers t := by
  have hold : ∀ g, (s.place w).held = some g → g = f := by
    intro g hg
    rw [hplace] at hg
    cases hg
  unfold lock at hlock
  split at hlock
  · next g =>
    split at hlock
    · cases hlock
    · next x hx =>
      split at hlock
      · next hguard =>
        cases hlock
        have hresting : x.Resting := by
          have hfit := h.locks.fits f x hx
          rwa [hguard.2] at hfit
        refine ⟨h.locks.put hold ?_ (Or.inl ⟨rfl, rfl⟩) hresting,
          h.history.put hx rfl id, h.asserted⟩
        intro y w' hy hmutex
        obtain rfl : x = y := Option.some.inj (hx.symm.trans hy)
        cases hguard.2.symm.trans hmutex
      · cases hlock
  · split at hlock
    · next hf =>
      cases hlock
      refine ⟨h.locks.put hold ?_ (Or.inl ⟨rfl, rfl⟩) ⟨rfl, Or.inl rfl⟩,
        (h.history.born hf rfl).congr rfl rfl, h.asserted⟩
      intro y w' hy
      cases hf.symm.trans hy
    · cases hlock

/-- A statement of the fiber on its worker: the fiber stays live until it switches back. -/
theorem fiberStep_sound {workers : Finset Nat} {s t : FiberRun φ κ} (h : Sound workers s)
    {w : Nat} {f : φ} {x : FiberObj} {a : FiberAction φ κ} (hplace : s.place w = .inside f)
    (hx : s.fibers f = some x) (hmine : x.mutex = some w)
    (hstep : s.fiberStep w f x a x.frame = some t) : Sound workers t := by
  have hheld : (s.place w).held = some f := by rw [hplace]; rfl
  have hlive : x.Live := by
    have hfit := h.locks.fits f x hx
    rwa [hmine, Option.map_some, hplace] at hfit
  have keep : ∀ {p : Place φ κ} {y : FiberObj}, p.held = some f → y.mutex = x.mutex →
      y.Fits (some p) → Locks workers (s.put w p f y) :=
    fun hp hy hfits => h.locks.keep hheld hx hmine hp hy hfits
  generalize hframe : x.frame = frame at hstep
  unfold FiberObj.Live at hlive
  rw [hframe] at hlive
  unfold fiberStep at hstep
  split at hstep
  case h_1 =>
    cases hstep
    exact ⟨(keep (p := .inside f) (y := { x with frame := .body }) rfl rfl hlive).congr rfl rfl,
      h.history.start hx hframe, h.asserted⟩
  case h_2 =>
    have hyield : x.yield = some { x with state := .ready, frame := .leaving } := by
      rw [FiberObj.yield, hlive]
    rw [hyield] at hstep
    cases hstep
    refine ⟨keep rfl rfl rfl, h.history.put hx (by rw [hframe]; rfl) ?_, h.asserted⟩
    exact fun hterm => by cases hlive.symm.trans hterm
  case h_3 =>
    have hyield : x.yield = some { x with frame := .closing } := by rw [FiberObj.yield, hlive]
    rw [hyield] at hstep
    cases hstep
    exact ⟨keep rfl rfl hlive, h.history.put hx (by rw [hframe]; rfl) id, h.asserted⟩
  case h_4 =>
    cases hstep
    exact ⟨keep rfl rfl hlive, h.history.put hx (by rw [hframe]; rfl) id, h.asserted⟩
  case h_5 =>
    cases hstep
    exact ⟨(keep (p := .inside f) (y := { x with state := .term, frame := .ended }) rfl rfl rfl).congr
      rfl rfl, h.history.terminate hx hframe, h.asserted⟩
  case h_6 =>
    cases hstep
    exact ⟨keep rfl rfl (Or.inl ⟨hlive, Or.inr rfl⟩),
      h.history.put hx (by rw [hframe]; rfl) id, h.asserted⟩
  case h_7 =>
    cases hstep
    exact ⟨keep rfl rfl (Or.inr ⟨hlive, rfl⟩), h.history.put hx (by rw [hframe]; rfl) id,
      h.asserted⟩
  case h_8 => cases hstep

/-- A statement on a fiber that the worker has locked. -/
theorem heldStep_sound {workers : Finset Nat} {s t : FiberRun φ κ} (h : Sound workers s)
    {w : Nat} (hw : w ∈ workers) {f : φ} {x : FiberObj} {a : FiberAction φ κ}
    (hheld : (s.place w).held = some f) (hx : s.fibers f = some x)
    (hstep : s.heldStep w x a (s.place w) = some t) : Sound workers t := by
  have hmine : x.mutex = some w := by
    obtain ⟨y, hy, hmine⟩ := h.locks.mine w hw f hheld
    obtain rfl : x = y := Option.some.inj (hx.symm.trans hy)
    exact hmine
  have hfit := h.locks.fits f x hx
  rw [hmine, Option.map_some] at hfit
  have keep : ∀ {p : Place φ κ} {y : FiberObj}, p.held = some f → y.mutex = x.mutex →
      y.Fits (some p) → Locks workers (s.put w p f y) :=
    fun hp hy hfits => h.locks.keep hheld hx hmine hp hy hfits
  generalize hplace : s.place w = place at hstep
  rw [hplace] at hheld hfit
  unfold heldStep at hstep
  split at hstep
  case h_1 =>
    cases hheld
    cases hstep
    refine ⟨?_, h.history.put hx rfl id, h.asserted⟩
    -- a fiber that rests and has not ended is ready
    split
    · exact keep rfl rfl hfit
    · next hterm => exact keep rfl rfl (hfit.resolve_right (fun hend => hterm hend.1))
  case h_2 =>
    cases hheld
    cases hstep
    rw [resume, if_pos hfit.1]
    have hlocks : Locks workers (s.put w (.switching f) f { x with state := .running }) :=
      keep rfl rfl ⟨rfl, hfit.2⟩
    exact ⟨hlocks.congr rfl rfl, h.history.resume hx hfit.1, h.asserted⟩
  case h_3 =>
    cases hheld
    cases hstep
    obtain ⟨hrunning, hframe⟩ := hfit
    rcases hframe with hframe | hframe
    · refine ⟨keep rfl rfl ?_, h.history.put hx (by rw [hframe]; rfl) id, h.asserted⟩
      simpa [FiberObj.Fits, FiberObj.Live, hframe, Frame.enter] using hrunning
    · refine ⟨keep rfl rfl ?_, h.history.put hx (by rw [hframe]; rfl) id, h.asserted⟩
      simpa [FiberObj.Fits, FiberObj.Live, hframe, Frame.enter] using hrunning
  case h_4 =>
    cases hheld
    cases hstep
    refine ⟨h.locks.put ?_ ?_ (Or.inr ⟨rfl, rfl⟩) hfit, h.history.put hx rfl id, h.asserted⟩
    · intro g hg
      rw [hplace] at hg
      exact (Option.some.inj hg).symm
    · intro y w' hy hw'
      obtain rfl : x = y := Option.some.inj (hx.symm.trans hy)
      exact Option.some.inj (hw'.symm.trans hmine)
  case h_5 =>
    cases hheld
    exact fiberStep_sound h hplace hx hmine hstep
  case h_6 => cases hstep

private theorem workerStep_sound {workers : Finset Nat} {s t : FiberRun φ κ} (h : Sound workers s)
    {w : Nat} (hw : w ∈ workers) {a : FiberAction φ κ} (hstep : s.workerStep w a = some t) :
    Sound workers t := by
  unfold workerStep at hstep
  split at hstep
  · next hplace =>
    cases hstep
    exact scan_sound h hplace
  · next hplace => exact lock_sound h hplace hstep
  · obtain ⟨x, hbind, hheldStep⟩ := Option.bind_eq_some_iff.mp hstep
    obtain ⟨f, hheld, hx⟩ := Option.bind_eq_some_iff.mp hbind
    exact heldStep_sound h hw hheld hx hheldStep

private theorem otherStep_sound {workers : Finset Nat} {s t : FiberRun φ κ} (h : Sound workers s)
    {a : FiberAction φ κ} (hstep : s.otherStep a = some t) : Sound workers t := by
  unfold otherStep at hstep
  split at hstep
  · next f =>
    split at hstep
    · next hf =>
      cases hstep
      exact ⟨h.locks.construct hf, h.history.born hf rfl, h.asserted⟩
    · cases hstep
  · next task thread =>
    unfold schedule at hstep
    dsimp only at hstep
    split at hstep
    · obtain ⟨_, -, rfl⟩ := Option.map_eq_some_iff.mp hstep
      exact ⟨h.locks.congr rfl rfl, h.history.congr rfl rfl, h.asserted⟩
    · cases hstep
      exact ⟨h.locks.congr rfl rfl, h.history.congr rfl rfl, h.asserted⟩
  · cases hstep

theorem step_sound {workers : Finset Nat} {s t : FiberRun φ κ} {a : FiberAction φ κ}
    (h : Sound workers s) (hstep : step workers s a = some t) : Sound workers t := by
  unfold step at hstep
  split at hstep
  · cases hstep
  split at hstep
  · split at hstep
    · next hw => exact workerStep_sound h hw hstep
    · cases hstep
  · exact otherStep_sound h hstep

theorem Sound.exclusive {workers : Finset Nat} {s : FiberRun φ κ} (h : Sound workers s) :
    Exclusive workers s := by
  refine ⟨?_, h.asserted, h.history.final, ?_⟩
  · intro w hw w' hw' f hplace hplace'
    obtain ⟨x, hx, hmine⟩ := h.locks.mine w hw f (by rw [hplace]; rfl)
    obtain ⟨y, hy, hmine'⟩ := h.locks.mine w' hw' f (by rw [hplace']; rfl)
    obtain rfl : x = y := Option.some.inj (hx.symm.trans hy)
    exact Option.some.inj (hmine.symm.trans hmine')
  · intro f
    cases hf : s.fibers f with
    | none => exact (List.count_eq_zero_of_not_mem (h.history.unborn f hf).1).trans_le (by decide)
    | some x => exact (h.history.starts f x hf).trans_le x.frame.starts_le

/-- In every run of any workers, with any submissions at any time, a fiber runs on one worker
at a time, is resumed only when it is ready, never after its end, and starts once. -/
theorem always_exclusive (workers : Finset Nat) (as : List (FiberAction φ κ)) :
    Transition.Always (step workers) (Exclusive workers) ({} : FiberRun φ κ) as :=
  (Transition.always_of_step (fun _ _ _ h hstep => step_sound h hstep) (sound_start workers) as).mono
    (fun _ h => h.exclusive)

/-- A fiber that submits itself twice before it yields: worker 2 takes a copy while worker 1
still executes it, and gets the mutex only after worker 1 has let go. -/
example : ((Transition.run (step {1, 2}) ({} : FiberRun Nat Unit)
    [.construct 7, .schedule (.fiber 7) none, .scan 1, .lock 1 7, .test 1, .resume 1, .swapIn 1,
      .main 1, .schedule (.fiber 7) none, .schedule (.fiber 7) none, .scan 2, .yield 1, .swapOut 1,
      .unlock 1, .lock 2 7, .test 2, .resume 2, .swapIn 2]).map
        (fun s => (s.place 1, s.place 2, s.tasks.length, s.log))) =
    some (.scanning, .inside 7, 1, [.resumed 7, .started 7, .resumed 7]) := by decide

end CoroutineRpc.Coroutine.FiberRun
