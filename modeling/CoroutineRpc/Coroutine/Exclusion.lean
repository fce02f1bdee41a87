import CoroutineRpc.Coroutine.FiberRun
import CoroutineRpc.Library.Transition

/-! One worker at a time on a fiber. The mutex ties the place of its holder to the state that
both sides write, and the log follows the frame of the fiber. -/
namespace CoroutineRpc.Coroutine
variable {φ κ : Type}

namespace FiberObj

/-- The state of a fiber on which no worker is. -/
def Resting (x : FiberObj) : Prop :=
  (x.state = .ready ∧ (x.frame = .fresh ∨ x.frame = .parked)) ∨ (x.state = .term ∧ x.frame = .gone)

/-- The state of a fiber at each of its own statements. -/
def Live (x : FiberObj) : Prop :=
  match x.frame with
  | .entered | .body | .returned => x.state = .running
  | .leaving => x.state = .ready
  | .ended | .closing => x.state = .term
  | .fresh | .parked | .gone => False

/-- What the place of the mutex's holder says about the fiber. -/
def Fits (x : FiberObj) : Option (Place φ κ) → Prop
  | some (.resuming _) => x.state = .ready ∧ (x.frame = .fresh ∨ x.frame = .parked)
  | some (.switching _) => x.state = .running ∧ (x.frame = .fresh ∨ x.frame = .parked)
  | some (.inside _) => x.Live
  | _ => x.Resting

end FiberObj

/-- How often the callback of a fiber has been started. -/
def Frame.starts : Frame → Nat
  | .fresh | .entered => 0
  | _ => 1

theorem Frame.starts_le (frame : Frame) : frame.starts ≤ 1 := by
  cases frame <;> decide

namespace FiberRun

/-- A worker holds the mutex of its fiber, and whoever holds a mutex is at that fiber. -/
structure Locks (workers : Finset Nat) (s : FiberRun φ κ) : Prop where
  mine : ∀ w ∈ workers, ∀ f, (s.place w).held = some f →
    ∃ x, s.fibers f = some x ∧ x.mutex = some w
  held : ∀ f x w, s.fibers f = some x → x.mutex = some w → (s.place w).held = some f
  fits : ∀ f x, s.fibers f = some x → x.Fits (x.mutex.map s.place)

/-- The log of the fibers: a callback starts once, and the end of a fiber is final. -/
structure History [DecidableEq φ] (s : FiberRun φ κ) : Prop where
  starts : ∀ f x, s.fibers f = some x → s.log.count (.started f) = x.frame.starts
  ended : ∀ f x, s.fibers f = some x → .terminated f ∈ s.log → x.state = .term
  unborn : ∀ f, s.fibers f = none → .started f ∉ s.log ∧ .terminated f ∉ s.log
  final : s.log.Pairwise (fun later earlier => ∀ f, later = .resumed f → earlier ≠ .terminated f)

/-- At most one worker executes a fiber, no assertion fails, a fiber that has ended is not
resumed again, and no callback is started twice. -/
structure Exclusive [DecidableEq φ] (workers : Finset Nat) (s : FiberRun φ κ) : Prop where
  alone : ∀ w ∈ workers, ∀ w' ∈ workers, ∀ f, s.place w = .inside f → s.place w' = .inside f →
    w = w'
  asserted : s.aborted = false
  final : s.log.Pairwise (fun later earlier => ∀ f, later = .resumed f → earlier ≠ .terminated f)
  once : ∀ f, s.log.count (.started f) ≤ 1

private theorem move_place (s : FiberRun φ κ) (w : Nat) (p : Place φ κ) :
    (s.move w p).place w = p :=
  Function.update_self _ _ _

private theorem move_place_other (s : FiberRun φ κ) {w w' : Nat} (p : Place φ κ) (h : w' ≠ w) :
    (s.move w p).place w' = s.place w' := Function.update_of_ne h _ _

theorem Locks.congr {workers : Finset Nat} {s t : FiberRun φ κ} (h : Locks workers s)
    (hplace : t.place = s.place) (hfibers : t.fibers = s.fibers) : Locks workers t := by
  refine ⟨?_, ?_, ?_⟩
  · rw [hplace, hfibers]
    exact h.mine
  · rw [hplace, hfibers]
    exact h.held
  · rw [hplace, hfibers]
    exact h.fits

/-- A worker that goes from one place without a fiber to another. -/
theorem Locks.idle {workers : Finset Nat} {s : FiberRun φ κ} (h : Locks workers s) {w : Nat}
    {p : Place φ κ} (hold : (s.place w).held = none) (hnew : p.held = none) :
    Locks workers (s.move w p) := by
  have hne : ∀ {w' f}, (s.place w').held = some f → w' ≠ w := by
    rintro w' f hf rfl
    cases hold.symm.trans hf
  refine ⟨?_, ?_, ?_⟩
  · intro w' hw' f hheld
    by_cases he : w' = w
    · subst he
      rw [move_place] at hheld
      cases hnew.symm.trans hheld
    · rw [move_place_other s p he] at hheld
      exact h.mine w' hw' f hheld
  · intro f x w' hx hmutex
    have hheld := h.held f x w' hx hmutex
    rw [move_place_other s p (hne hheld)]
    exact hheld
  · intro f x hx
    have hfit := h.fits f x hx
    cases hmutex : x.mutex with
    | none => rwa [hmutex] at hfit
    | some w' =>
      have hheld := h.held f x w' hx hmutex
      rw [hmutex] at hfit
      simpa only [Option.map_some, move_place_other s p (hne hheld)] using hfit

section Fibers
variable [DecidableEq φ]

private theorem put_place (s : FiberRun φ κ) (w : Nat) (p : Place φ κ) (f : φ) (x : FiberObj) :
    (s.put w p f x).place w = p := move_place _ w p

private theorem put_fiber (s : FiberRun φ κ) (w : Nat) (p : Place φ κ) (f : φ) (x : FiberObj) :
    (s.put w p f x).fibers f = some x := Function.update_self _ _ _

private theorem put_place_other (s : FiberRun φ κ) {w w' : Nat} (p : Place φ κ) (f : φ)
    (x : FiberObj) (h : w' ≠ w) : (s.put w p f x).place w' = s.place w' := move_place_other _ p h

private theorem put_fiber_other (s : FiberRun φ κ) (w : Nat) (p : Place φ κ) {f g : φ}
    (x : FiberObj)
    (h : g ≠ f) : (s.put w p f x).fibers g = s.fibers g := Function.update_of_ne h _ _

/-- A step of the worker that has to do with one fiber, or comes to it while its mutex is
free: nobody else notices, and the fiber has to fit to the worker's new place. -/
theorem Locks.put {workers : Finset Nat} {s : FiberRun φ κ} (h : Locks workers s) {w : Nat}
    {p : Place φ κ} {f : φ} {x : FiberObj}
    (hold : ∀ g, (s.place w).held = some g → g = f)
    (hfree : ∀ y w', s.fibers f = some y → y.mutex = some w' → w' = w)
    (hnew : (p.held = some f ∧ x.mutex = some w) ∨ (p.held = none ∧ x.mutex = none))
    (hfits : x.Fits (x.mutex.map (fun _ => p))) : Locks workers (s.put w p f x) := by
  have hother : ∀ g y w', g ≠ f → s.fibers g = some y → y.mutex = some w' → w' ≠ w := by
    rintro g y w' hg hy hw' rfl
    exact hg (hold g (h.held g y w' hy hw'))
  refine ⟨?_, ?_, ?_⟩
  · intro w' hw' g hheld
    by_cases hne : w' = w
    · subst hne
      rw [put_place] at hheld
      rcases hnew with ⟨hp, hx⟩ | ⟨hp, -⟩
      · obtain rfl : f = g := Option.some.inj (hp.symm.trans hheld)
        exact ⟨x, put_fiber s w' p f x, hx⟩
      · cases hp.symm.trans hheld
    · rw [put_place_other s p f x hne] at hheld
      obtain ⟨y, hy, hmine⟩ := h.mine w' hw' g hheld
      have hg : g ≠ f := by
        rintro rfl
        exact hne (hfree y w' hy hmine)
      exact ⟨y, (put_fiber_other s w p x hg).trans hy, hmine⟩
  · intro g y w' hy hmutex
    by_cases hg : g = f
    · subst hg
      rw [put_fiber] at hy
      cases hy
      rcases hnew with ⟨hp, hx⟩ | ⟨-, hx⟩
      · obtain rfl : w = w' := Option.some.inj (hx.symm.trans hmutex)
        rw [put_place]
        exact hp
      · cases hx.symm.trans hmutex
    · rw [put_fiber_other s w p x hg] at hy
      rw [put_place_other s p f x (hother g y w' hg hy hmutex)]
      exact h.held g y w' hy hmutex
  · intro g y hy
    by_cases hg : g = f
    · subst hg
      rw [put_fiber] at hy
      cases hy
      rcases hnew with ⟨-, hx⟩ | ⟨-, hx⟩
      · rw [hx] at hfits ⊢
        simpa only [Option.map_some, put_place] using hfits
      · rw [hx] at hfits ⊢
        exact hfits
    · rw [put_fiber_other s w p x hg] at hy
      have hfit := h.fits g y hy
      cases hmutex : y.mutex with
      | none => rwa [hmutex] at hfit
      | some w' =>
        rw [hmutex] at hfit
        simpa only [Option.map_some, put_place_other s p f x (hother g y w' hg hy hmutex)] using hfit

/-- A step of the worker that holds the fiber and keeps it. -/
theorem Locks.keep {workers : Finset Nat} {s : FiberRun φ κ} (h : Locks workers s) {w : Nat}
    {p : Place φ κ} {f : φ} {x y : FiberObj} (hheld : (s.place w).held = some f)
    (hy : s.fibers f = some y) (hmine : y.mutex = some w) (hp : p.held = some f)
    (hx : x.mutex = y.mutex) (hfits : x.Fits (some p)) : Locks workers (s.put w p f x) := by
  refine h.put ?_ ?_ (Or.inl ⟨hp, hx.trans hmine⟩) ?_
  · intro g hg
    exact Option.some.inj (hg.symm.trans hheld)
  · intro z w' hz hw'
    obtain rfl : y = z := Option.some.inj (hy.symm.trans hz)
    exact Option.some.inj (hw'.symm.trans hmine)
  · rw [hx, hmine]
    exact hfits

theorem History.congr {s t : FiberRun φ κ} (h : History s) (hlog : t.log = s.log)
    (hfibers : t.fibers = s.fibers) : History t := by
  refine ⟨?_, ?_, ?_, ?_⟩
  · rw [hlog, hfibers]
    exact h.starts
  · rw [hlog, hfibers]
    exact h.ended
  · rw [hlog, hfibers]
    exact h.unborn
  · rw [hlog]
    exact h.final

/-- A change of a fiber that starts nothing and does not take its end back. -/
theorem History.put {s : FiberRun φ κ} (h : History s) {w : Nat} {p : Place φ κ} {f : φ}
    {x y : FiberObj} (hy : s.fibers f = some y) (hstarts : x.frame.starts = y.frame.starts)
    (hended : y.state = .term → x.state = .term) : History (s.put w p f x) := by
  refine ⟨?_, ?_, ?_, h.final⟩
  · intro g z hz
    by_cases hg : g = f
    · subst hg
      rw [put_fiber] at hz
      cases hz
      exact (h.starts g y hy).trans hstarts.symm
    · exact h.starts g z ((put_fiber_other s w p x hg).symm.trans hz)
  · intro g z hz hmem
    by_cases hg : g = f
    · subst hg
      rw [put_fiber] at hz
      cases hz
      exact hended (h.ended g y hy hmem)
    · exact h.ended g z ((put_fiber_other s w p x hg).symm.trans hz) hmem
  · intro g hg
    by_cases he : g = f
    · subst he
      cases (put_fiber s w p g x).symm.trans hg
    · exact h.unborn g ((put_fiber_other s w p x he).symm.trans hg)

/-- A fiber that has just been made. -/
theorem History.born {s : FiberRun φ κ} (h : History s) {f : φ} {x : FiberObj}
    (hf : s.fibers f = none) (hx : x.frame.starts = 0) : History (s.setFiber f x) := by
  refine ⟨?_, ?_, ?_, h.final⟩
  · intro g z hz
    by_cases hg : g = f
    · subst hg
      cases (Function.update_self _ _ _).symm.trans hz
      exact (List.count_eq_zero_of_not_mem (h.unborn g hf).1).trans hx.symm
    · exact h.starts g z ((Function.update_of_ne hg _ _).symm.trans hz)
  · intro g z hz hmem
    by_cases hg : g = f
    · subst hg
      exact absurd hmem (h.unborn g hf).2
    · exact h.ended g z ((Function.update_of_ne hg _ _).symm.trans hz) hmem
  · intro g hg
    by_cases he : g = f
    · subst he
      cases (Function.update_self _ _ _).symm.trans hg
    · exact h.unborn g ((Function.update_of_ne he _ _).symm.trans hg)

/-- `resume` finds a fiber that is ready, so it has not ended before. -/
theorem History.resume {s : FiberRun φ κ} (h : History s) {w : Nat} {p : Place φ κ} {f : φ}
    {x : FiberObj} (hx : s.fibers f = some x) (hready : x.state = .ready) :
    History ((s.put w p f { x with state := .running }).note (.resumed f)) := by
  have hput : History (s.put w p f { x with state := .running }) :=
    h.put hx rfl (fun hterm => by cases hready.symm.trans hterm)
  refine ⟨?_, ?_, ?_, List.pairwise_cons.mpr ⟨?_, h.final⟩⟩
  · intro g z hz
    rw [note, List.count_cons_of_ne (by simp)]
    exact hput.starts g z hz
  · intro g z hz hmem
    exact hput.ended g z hz ((List.mem_cons.mp hmem).resolve_left (by simp))
  · intro g hg
    exact ⟨fun hmem => (hput.unborn g hg).1 ((List.mem_cons.mp hmem).resolve_left (by simp)),
      fun hmem => (hput.unborn g hg).2 ((List.mem_cons.mp hmem).resolve_left (by simp))⟩
  · rintro e hmem g hg rfl
    cases hg
    cases hready.symm.trans (h.ended f x hx hmem)

theorem History.start {s : FiberRun φ κ} (h : History s) {w : Nat} {p : Place φ κ} {f : φ}
    {x : FiberObj} (hx : s.fibers f = some x) (hframe : x.frame = .entered) :
    History ((s.put w p f { x with frame := .body }).note (.started f)) := by
  refine ⟨?_, ?_, ?_, List.pairwise_cons.mpr ⟨?_, h.final⟩⟩
  · intro g z hz
    by_cases hg : g = f
    · subst hg
      cases (put_fiber s w p g _).symm.trans hz
      have hzero : s.log.count (.started g) = 0 := by rw [h.starts g x hx, hframe]; rfl
      change (FiberEvent.started g :: s.log).count (.started g) = 1
      rw [List.count_cons_self, hzero]
    · rw [note, List.count_cons_of_ne (by simpa using Ne.symm hg)]
      exact h.starts g z ((put_fiber_other s w p _ hg).symm.trans hz)
  · intro g z hz hmem
    have hmem' := (List.mem_cons.mp hmem).resolve_left (by simp)
    by_cases hg : g = f
    · subst hg
      cases (put_fiber s w p g _).symm.trans hz
      exact h.ended g x hx hmem'
    · exact h.ended g z ((put_fiber_other s w p _ hg).symm.trans hz) hmem'
  · intro g hg
    have hne : g ≠ f := by
      rintro rfl
      cases (put_fiber s w p g _).symm.trans hg
    have hunborn := h.unborn g ((put_fiber_other s w p _ hne).symm.trans hg)
    exact ⟨fun hmem => hunborn.1 ((List.mem_cons.mp hmem).resolve_left (by simpa using hne)),
      fun hmem => hunborn.2 ((List.mem_cons.mp hmem).resolve_left (by simp))⟩
  · rintro e - g hg
    cases hg

theorem History.terminate {s : FiberRun φ κ} (h : History s) {w : Nat} {p : Place φ κ} {f : φ}
    {x : FiberObj} (hx : s.fibers f = some x) (hframe : x.frame = .returned) :
    History ((s.put w p f { x with state := .term, frame := .ended }).note (.terminated f)) := by
  have hput : History (s.put w p f { x with state := .term, frame := .ended }) :=
    h.put hx (by rw [hframe]; rfl) (fun _ => rfl)
  refine ⟨?_, ?_, ?_, List.pairwise_cons.mpr ⟨?_, h.final⟩⟩
  · intro g z hz
    rw [note, List.count_cons_of_ne (by simp)]
    exact hput.starts g z hz
  · intro g z hz hmem
    rcases List.mem_cons.mp hmem with he | hmem
    · cases he
      cases (put_fiber s w p f _).symm.trans hz
      rfl
    · exact hput.ended g z hz hmem
  · intro g hg
    have hne : g ≠ f := by
      rintro rfl
      cases (put_fiber s w p g _).symm.trans hg
    exact ⟨fun hmem => (hput.unborn g hg).1 ((List.mem_cons.mp hmem).resolve_left (by simp)),
      fun hmem => (hput.unborn g hg).2 ((List.mem_cons.mp hmem).resolve_left (by simpa using hne))⟩
  · rintro e - g hg
    cases hg

end Fibers
end FiberRun
end CoroutineRpc.Coroutine
