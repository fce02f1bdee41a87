import CoroutineRpc.Coroutine.TimerSpec
import CoroutineRpc.Library.Transition

/-! One `TimerManager` used by many threads. Each critical section on `m_mutex` is one step;
`Timer::reset` has two of them and changes the timer between them. -/
namespace CoroutineRpc.Coroutine

/-- How far a call of `reset` has come: before its first critical section, after it, or after
the unlocked update. -/
inductive ResetStage where
  | erasing
  | updating
  | inserting
  deriving DecidableEq, Repr

structure Reset where
  timer : TimerId
  ms : Nat
  fromNow : Bool
  stage : ResetStage := .erasing
  deriving DecidableEq, Repr

/-- The timer has been taken out and is to be put back. -/
def Reset.Between (r : Reset) : Prop := r.stage ≠ .erasing

instance (r : Reset) : Decidable r.Between := inferInstanceAs (Decidable (_ ≠ _))

/-- The last two fields only record: the timers whose `cancel` has returned true, and those of
them that a later pass has collected. -/
structure TimerRace (ι β : Type) where
  manager : TimerManager β := {}
  resets : ι → Option Reset := fun _ => none
  cancelled : List TimerId := []
  revived : List TimerId := []

/-- The steps of any threads, with the clock readings that they make. -/
inductive RaceAction (ι β : Type) where
  | addTimer (ms : Nat) (cb : Option β) (recurring : Bool) (now : Int)
  | cancel (t : TimerId)
  | refresh (t : TimerId) (now : Int)
  | reset (c : ι) (t : TimerId) (ms : Nat) (fromNow : Bool)
  | erase (c : ι)
  | update (c : ι) (now : Int)
  | insert (c : ι)
  | getNextTimer (now : Int)
  | listExpiredCb (now now' : Int) (fuel : Nat)

namespace TimerRace
variable {ι β : Type}

def setManager (s : TimerRace ι β) (m : TimerManager β) : TimerRace ι β := { s with manager := m }

def cancel (s : TimerRace ι β) (t : TimerId) : TimerRace ι β :=
  let (done, m) := s.manager.cancel t
  { s with manager := m, cancelled := if done then t :: s.cancelled else s.cancelled }

def listExpiredCb (s : TimerRace ι β) (now now' : Int) (fuel : Nat) : Option (TimerRace ι β) :=
  (s.manager.listExpiredCb now now' fuel).map (fun r =>
    { s with manager := r.2, revived := (r.1.map (·.1)).filter (· ∈ s.cancelled) ++ s.revived })

section Calls
variable [DecidableEq ι]

def setReset (s : TimerRace ι β) (c : ι) (r : Option Reset) : TimerRace ι β :=
  { s with resets := Function.update s.resets c r }

/-- The test before the first critical section; it may end the call. -/
def reset (s : TimerRace ι β) (c : ι) (t : TimerId) (ms : Nat) (fromNow : Bool) :
    TimerRace ι β :=
  if ms = (s.manager.objects t).ms ∧ fromNow = false then s
  else s.setReset c (some { timer := t, ms := ms, fromNow := fromNow })

/-- The statements of a call of `reset` after its test. -/
def resetStep (s : TimerRace ι β) (r : Reset) : RaceAction ι β → ResetStage → Option (TimerRace ι β)
  | .erase c, .erasing =>
    match s.manager.resetErase r.timer with
    | none => some (s.setReset c none)
    | some m => some ((s.setManager m).setReset c (some { r with stage := .updating }))
  | .update c now, .updating =>
    some ((s.setManager (s.manager.resetUpdate r.timer r.ms r.fromNow now)).setReset c
      (some { r with stage := .inserting }))
  | .insert c, .inserting =>
    some ((s.setManager (s.manager.addShared r.timer).2).setReset c none)
  | _, _ => none

def step (s : TimerRace ι β) : RaceAction ι β → Option (TimerRace ι β)
  | .addTimer ms cb recurring now =>
    some (s.setManager (s.manager.addTimer ms cb recurring now).2.2)
  | .cancel t => if t < s.manager.created then some (s.cancel t) else none
  | .refresh t now =>
    if t < s.manager.created then some (s.setManager (s.manager.refresh t now).2) else none
  | .reset c t ms fromNow =>
    if t < s.manager.created ∧ s.resets c = none then some (s.reset c t ms fromNow) else none
  | .erase c => (s.resets c).bind (fun r => s.resetStep r (.erase c) r.stage)
  | .update c now => (s.resets c).bind (fun r => s.resetStep r (.update c now) r.stage)
  | .insert c => (s.resets c).bind (fun r => s.resetStep r (.insert c) r.stage)
  | .getNextTimer now => some (s.setManager (s.manager.getNextTimer now).2)
  | .listExpiredCb now now' fuel => s.listExpiredCb now now' fuel

end Calls

/-- No timer with a callback has the deadline of another timer of the set. -/
def Distinct (s : TimerRace ι β) : Prop :=
  ∀ t u, (s.manager.objects t).cb ≠ none → u ∈ s.manager.timers → t ≠ u →
    s.manager.next u ≠ s.manager.next t

/-- A timer is not cancelled while a `reset` of it is between its two critical sections. -/
def CancelsOutside (s : TimerRace ι β) : RaceAction ι β → Prop
  | .cancel t => ∀ c r, s.resets c = some r → r.Between → r.timer ≠ t
  | _ => True

/-- A cancelled timer is not in the set and is not collected, and a set of cancelled timers
would let `getNextTimer` report that there is none. -/
structure Final (s : TimerRace ι β) : Prop where
  gone : ∀ t ∈ s.cancelled, t ∉ s.manager.timers
  revived : s.revived = []
  next : ∀ now, (∀ t ∈ s.manager.timers, t ∈ s.cancelled) → (s.manager.getNextTimer now).1 = noTimer

/-- What the steps rely on: a timer that is to be put back has not been cancelled, and only
one call puts it back. -/
structure Sound (s : TimerRace ι β) : Prop where
  ordered : s.manager.Ordered
  known : ∀ t ∈ s.manager.timers, t < s.manager.created
  cancelled : ∀ t ∈ s.cancelled, t < s.manager.created ∧ (s.manager.objects t).cb = none ∧
    t ∉ s.manager.timers
  between : ∀ c r, s.resets c = some r → r.Between →
    r.timer < s.manager.created ∧ r.timer ∉ s.manager.timers ∧ r.timer ∉ s.cancelled
  single : ∀ c c' r r', s.resets c = some r → s.resets c' = some r' → r.Between → r'.Between →
    r.timer = r'.timer → c = c'
  revived : s.revived = []

theorem Sound.final {s : TimerRace ι β} (h : Sound s) : Final s := by
  refine ⟨fun t ht => (h.cancelled t ht).2.2, h.revived, ?_⟩
  intro now hall
  have hempty : s.manager.timers = [] := by
    apply List.eq_nil_iff_forall_not_mem.mpr
    exact fun t ht => (h.cancelled t (hall t ht)).2.2 ht
  simp [TimerManager.getNextTimer, hempty]

theorem sound_start : Sound ({} : TimerRace ι β) where
  ordered := List.Pairwise.nil
  known _ ht := absurd ht List.not_mem_nil
  cancelled _ ht := absurd ht List.not_mem_nil
  between _ _ hr := by cases hr
  single _ _ _ _ hr := by cases hr
  revived := rfl

end TimerRace

namespace TimerManager
variable {β : Type}

/-- An operation that takes nothing into the set but the timers that were there. -/
structure Within (m m' : TimerManager β) : Prop where
  ordered : m'.Ordered
  created : m'.created = m.created
  timers : ∀ t ∈ m'.timers, t ∈ m.timers
  objects : ∀ t ∉ m.timers, m'.objects t = m.objects t

theorem Within.trans {m₁ m₂ m₃ : TimerManager β} (h₁ : Within m₁ m₂) (h₂ : Within m₂ m₃) :
    Within m₁ m₃ :=
  ⟨h₂.ordered, h₂.created.trans h₁.created, fun t ht => h₁.timers t (h₂.timers t ht),
    fun t ht => (h₂.objects t (fun hin => ht (h₁.timers t hin))).trans (h₁.objects t ht)⟩

/-- The pass takes its timer out, and puts the same timer back if it recurs. -/
theorem collectOne_within {m : TimerManager β} (h : m.Ordered) (now : Int) {t : TimerId}
    (ht : t ∈ m.timers) : Within m (m.collectOne now t) := by
  have hne : ∀ u ∉ m.timers, u ≠ t := fun u hu he => hu (he ▸ ht)
  unfold collectOne
  dsimp only
  split
  · have hr := rekeyed_erase_insert h t (fun x => { x with next := deadline now x.ms })
    refine ⟨hr.ordered, hr.created, ?_, fun u hu => hr.other u (hne u hu)⟩
    intro u hu
    by_cases he : u = t
    · exact he ▸ ht
    · exact (hr.mem_other u he).mp hu
  · exact ⟨(h.erase t).modify_keep rfl, rfl, fun u hu => ((mem_erase h t u).mp hu).2,
      fun u hu => modify_other _ _ (hne u hu)⟩

/-- By induction on the fuel: what is collected was in the set. -/
theorem collectLoop_within {now : Int} {rollover : Bool} {fuel : Nat} {m m' : TimerManager β}
    {r : List (TimerId × Option β)} (h : m.Ordered)
    (hrun : collectLoop now rollover fuel m = some (r, m')) :
    Within m m' ∧ ∀ p ∈ r, p.1 ∈ m.timers := by
  have hrefl : Within m m := ⟨h, rfl, fun _ ht => ht, fun _ _ => rfl⟩
  induction fuel generalizing m r with
  | zero =>
    rw [collectLoop] at hrun
    split at hrun
    · cases hrun
    · cases hrun
      exact ⟨hrefl, fun p hp => absurd hp List.not_mem_nil⟩
  | succ fuel ih =>
    rw [collectLoop] at hrun
    split at hrun
    · cases hrun
      exact ⟨hrefl, fun p hp => absurd hp List.not_mem_nil⟩
    · next t hdue =>
      obtain ⟨⟨r', m₁⟩, hrest, heq⟩ := Option.map_eq_some_iff.mp hrun
      cases heq
      have hmem : t ∈ m.timers :=
        List.mem_of_mem_head? (Option.mem_def.mpr (Option.eq_some_of_filter_eq_some hdue))
      have hone := collectOne_within h now hmem
      obtain ⟨hrest, hcollected⟩ := ih hone.ordered hrest
        ⟨hone.ordered, rfl, fun _ ht => ht, fun _ _ => rfl⟩
      refine ⟨hone.trans hrest, List.forall_mem_cons.mpr ⟨hmem, ?_⟩⟩
      exact fun p hp => hone.timers _ (hcollected p hp)

end TimerManager
end CoroutineRpc.Coroutine
