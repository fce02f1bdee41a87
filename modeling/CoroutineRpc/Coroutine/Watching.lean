import CoroutineRpc.Coroutine.Sleepers
import CoroutineRpc.Library.Sums

/-! Which workers wait in `epoll_wait`, before and after a worker moves, and what the workers that
are on record stand for. -/
namespace CoroutineRpc.Coroutine

/-- The worker is in `idle`, and counts as that. -/
def SleepPhase.idling : SleepPhase → Bool
  | .running | .executing => false
  | _ => true

namespace Sleepers
variable {ι κ : Type}

def idlers (workers : Finset Nat) (s : Sleepers ι κ) : Nat :=
  (workers.filter (fun w => (s.phase w).idling)).card

@[simp] theorem move_same (s : Sleepers ι κ) (w : Nat) (p : SleepPhase) :
    (s.move w p).phase w = p := Function.update_self _ _ _

theorem move_other (s : Sleepers ι κ) {w w' : Nat} (p : SleepPhase) (h : w' ≠ w) :
    (s.move w p).phase w' = s.phase w' := Function.update_of_ne h _ _

private theorem idlers_move {workers : Finset Nat} (s : Sleepers ι κ) {w : Nat} (hw : w ∈ workers)
    (p : SleepPhase) :
    idlers workers (s.move w p) + (s.phase w).idling.toNat = idlers workers s + p.idling.toNat := by
  have hcount := card_filter_change (p := fun w' => ((s.move w p).phase w').idling)
    (q := fun w' => (s.phase w').idling) hw (fun w' _ hne => by rw [s.move_other p hne])
  rwa [move_same] at hcount

/-- The counter moves along with the worker. -/
theorem idle_move {workers : Finset Nat} {s t : Sleepers ι κ} (h : s.idle = idlers workers s)
    {w : Nat} (hw : w ∈ workers) {p q : SleepPhase} (hphase : s.phase w = p)
    (hmoved : t.phase = (s.move w q).phase)
    (hidle : t.idle + p.idling.toNat = s.idle + q.idling.toNat) : t.idle = idlers workers t := by
  have hmove := s.idlers_move hw q
  have hcount : idlers workers t = idlers workers (s.move w q) := by rw [idlers, idlers, hmoved]
  rw [hphase] at hmove
  omega

/-- A worker that waits counts as idle. -/
theorem Waits.idle {workers : Finset Nat} {s : Sleepers ι κ} (hidle : s.idle = idlers workers s)
    {w : Nat} (hw : w ∈ workers) (h : s.Waits w) : 0 < s.idle := by
  obtain ⟨d, hphase⟩ := h
  have hmem : w ∈ workers.filter (fun w => (s.phase w).idling) :=
    Finset.mem_filter.mpr ⟨hw, by rw [hphase]; rfl⟩
  have hpos : 0 < idlers workers s := Finset.card_pos.mpr ⟨w, hmem⟩
  omega

theorem not_waits {s : Sleepers ι κ} {w : Nat} {p : SleepPhase} (hphase : s.phase w = p)
    (hp : p.waits = false) : ¬ s.Waits w := by
  rintro ⟨d, hblocked⟩
  obtain rfl := hphase.symm.trans hblocked
  cases hp

/-- A worker in another phase than waiting is not one of those that wait. -/
theorem waits_move {s t : Sleepers ι κ} {w : Nat} {q : SleepPhase}
    (hmoved : t.phase = (s.move w q).phase) (hq : q.waits = false) (w' : Nat) :
    t.Waits w' ↔ w' ≠ w ∧ s.Waits w' := by
  rw [Waits, Waits, hmoved]
  rcases eq_or_ne w' w with rfl | hne
  · refine iff_of_false (not_waits (s.move_same w' q) hq) (fun h => h.1 rfl)
  · rw [s.move_other q hne]
    exact (and_iff_right hne).symm

end Sleepers

namespace SleepLog
variable {ι κ : Type} {workers : Finset Nat} {x y : SleepLog ι κ}

/-- Those who are on record wait no longer than until the earliest deadline, and unless a wake-up
is on its way, one of those who wait is on record. -/
structure Inv (workers : Finset Nat) (x : SleepLog ι κ) : Prop where
  timely : x.sleepers.timers.Timely x.sleepers.now
  idle : x.sleepers.idle = x.sleepers.idlers workers
  inTime : ∀ w ∈ x.current, ∀ d, x.sleepers.phase w = .blocked d → x.sleepers.InTime d
  relieved : x.sleepers.pipe = 0 → (∀ c, x.sleepers.calls c = none) → x.Relieved workers

theorem Inv.noOversleep (h : x.Inv workers) : x.sleepers.NoOversleep workers := by
  rintro hempty ⟨w, hw, hblocked⟩ hfree
  rcases h.relieved hempty hfree with hnobody | ⟨w', hw', hcurrent, d, hphase⟩
  · exact absurd hblocked (hnobody w hw)
  · exact ⟨w', hw', d, hphase, h.inTime w' hcurrent d hphase⟩

/-- The same workers wait, and the same are on record. -/
theorem Relieved.congr {before after : Finset Nat} (h : x.Relieved before)
    (hcurrent : y.current = x.current)
    (hwaits : ∀ w, w ∈ after ∧ y.sleepers.Waits w ↔ w ∈ before ∧ x.sleepers.Waits w) :
    y.Relieved after := by
  rcases h with hnobody | ⟨w, hw, hin, hblocked⟩
  · refine Or.inl (fun w hw hblocked => ?_)
    obtain ⟨hw', hblocked'⟩ := (hwaits w).mp ⟨hw, hblocked⟩
    exact hnobody w hw' hblocked'
  · obtain ⟨hw', hblocked'⟩ := (hwaits w).mpr ⟨hw, hblocked⟩
    exact Or.inr ⟨w, hw', hcurrent ▸ hin, hblocked'⟩

/-- A step of a worker that does not wait afterwards. The others stay on record, and those who wait
are relieved as before it or by the guard of the step. -/
theorem Inv.move (h : x.Inv workers) {t : Sleepers ι κ} {w : Nat} (hw : w ∈ workers)
    {p q : SleepPhase} (hphase : x.sleepers.phase w = p)
    (hmoved : t.phase = (x.sleepers.move w q).phase) (hq : q.waits = false)
    (hcalls : t.calls = x.sleepers.calls)
    (hnow : t.now = x.sleepers.now)
    (htimers : t.timers.Timely x.sleepers.now ∧
      TimerManager.NoEarlier x.sleepers.now x.sleepers.timers t.timers)
    (hidle : t.idle + p.idling.toNat = x.sleepers.idle + q.idling.toNat)
    (hrelieved : t.pipe = 0 → (∀ c, x.sleepers.calls c = none) → x.Relieved (workers.erase w)) :
    Inv workers ⟨t, x.current⟩ := by
  have hwaits := Sleepers.waits_move hmoved hq
  refine ⟨hnow ▸ htimers.1, Sleepers.idle_move h.idle hw hphase hmoved hidle, ?_, ?_⟩
  · intro w' hw' d hblocked
    obtain ⟨hne, -⟩ := (hwaits w').mp ⟨d, hblocked⟩
    rw [hmoved, x.sleepers.move_other q hne] at hblocked
    rw [Sleepers.InTime, hnow]
    exact (h.inTime w' hw' d hblocked).noEarlier htimers.2
  · intro hempty hfree
    refine (hrelieved hempty (fun c => hcalls ▸ hfree c)).congr rfl (fun w' => ?_)
    rw [Finset.mem_erase, hwaits w']
    exact ⟨fun h => ⟨⟨h.2.1, h.1⟩, h.2.2⟩, fun h => ⟨h.1.2, h.1.1, h.2⟩⟩

/-- A step around the waits: the worker did not wait before it either. -/
theorem Inv.pass (h : x.Inv workers) {t : Sleepers ι κ} {w : Nat} (hw : w ∈ workers)
    {p q : SleepPhase} (hphase : x.sleepers.phase w = p)
    (hmoved : t.phase = (x.sleepers.move w q).phase) (hp : p.waits = false) (hq : q.waits = false)
    (hpipe : t.pipe = x.sleepers.pipe) (hcalls : t.calls = x.sleepers.calls)
    (hnow : t.now = x.sleepers.now)
    (htimers : t.timers.Timely x.sleepers.now ∧
      TimerManager.NoEarlier x.sleepers.now x.sleepers.timers t.timers)
    (hidle : t.idle + p.idling.toNat = x.sleepers.idle + q.idling.toNat) :
    Inv workers ⟨t, x.current⟩ := by
  refine h.move hw hphase hmoved hq hcalls hnow htimers hidle (fun hempty hfree => ?_)
  refine (h.relieved (hpipe.symm.trans hempty) hfree).congr rfl (fun w' => ?_)
  rw [Finset.mem_erase, and_assoc]
  refine ⟨fun h => h.2, fun hin => ⟨?_, hin⟩⟩
  rintro rfl
  exact Sleepers.not_waits hphase hp hin.2

/-- A step that moves no worker and takes none from the record. -/
theorem Inv.stay (h : x.Inv workers) {t : Sleepers ι κ} (hphase : t.phase = x.sleepers.phase)
    (hidle : t.idle = x.sleepers.idle) (htimely : t.timers.Timely t.now)
    (htime : ∀ d, x.sleepers.InTime d → t.InTime d)
    (hrelieved : t.pipe = 0 → (∀ c, t.calls c = none) → x.Relieved workers) :
    Inv workers ⟨t, x.current⟩ := by
  refine ⟨htimely, ?_, ?_, ?_⟩
  · exact hidle.trans (h.idle.trans (by rw [Sleepers.idlers, Sleepers.idlers, hphase]))
  · intro w hw d hblocked
    rw [hphase] at hblocked
    exact htime d (h.inTime w hw d hblocked)
  · intro hempty hfree
    refine (hrelieved hempty hfree).congr rfl (fun w => ?_)
    rw [Sleepers.Waits, Sleepers.Waits, hphase]

end SleepLog
end CoroutineRpc.Coroutine
