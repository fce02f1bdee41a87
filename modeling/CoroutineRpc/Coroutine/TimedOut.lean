import CoroutineRpc.Coroutine.Callbacks
import CoroutineRpc.Coroutine.Hook

/-! Timeouts of hooked I/O. A call is cancelled by a timer that it has armed itself, maybe in an
earlier round, and not before its timeout has passed since the first one. -/
namespace CoroutineRpc.Coroutine
open TimerManager
variable {φ κ : Type}

/-- For each call, when it has armed its first timer, and its timeout. -/
abbrev ArmedAt := InfoId → Option (Int × Nat)

/-- The timeout of the call had passed at that time. -/
def ArmedAt.Passed (armed : ArmedAt) (time : Int) (i : InfoId) : Prop :=
  ∃ since ms, armed i = some (since, ms) ∧ since + millis ms ≤ time

/-- A callback that may run from that time on. -/
def ArmedAt.Allows (armed : ArmedAt) (cb : HookCallback κ) (time : Int) : Prop :=
  match cb with
  | .onTimer _ (.timeout t) => armed.Passed time t.winfo
  | _ => True

/-- A timer with that callback may be due from its deadline on, and if it recurs, at any time. -/
def ArmedAt.Suits (armed : ArmedAt) (cb : HookCallback κ) (recurring : Bool) (next : Int) : Prop :=
  ∀ time, recurring = true ∨ next ≤ time → armed.Allows cb time

/-- No reading of the clock is earlier than the one before. -/
structure Clocked (φ κ : Type) where
  hooked : Hooked φ κ := {}
  clock : Int := 0
  armed : ArmedAt := fun _ => none

/-- The readings of the clock, the first one first. -/
def HookAction.readings : HookAction φ κ → List Int
  | .io _ (.arm now) => [now]
  | .collect _ now now' _ => [now, now']
  | .addTimer _ _ _ now => [now]
  | _ => []

/-- The fiber that a worker executes. -/
def Duty.fiber : Duty φ κ → Option φ
  | .executing f => some f
  | _ => none

/-- The call that arms a timer, with the time and its timeout. -/
def Hooked.arming (s : Hooked φ κ) : HookAction φ κ → Option (InfoId × Int × Nat)
  | .io w (.arm now) => do
    let f ← (s.duty w).fiber
    let c ← s.call f
    let ms ← c.timeout
    pure (c.tinfo, now, ms)
  | _ => none

/-- The first timer of a call counts. -/
def ArmedAt.record (armed : ArmedAt) : Option (InfoId × Int × Nat) → ArmedAt
  | some (i, at_) => if armed i = none then Function.update armed i (some at_) else armed
  | none => armed

namespace Clocked
variable [DecidableEq φ]

def step (workers : Finset Nat) (x : Clocked φ κ) (a : HookAction φ κ) : Option (Clocked φ κ) :=
  if (x.clock :: a.readings).Pairwise (· ≤ ·) then
    (x.hooked.step workers a).map (fun t =>
      { hooked := t, clock := a.readings.getLastD x.clock
        armed := x.armed.record (x.hooked.arming a) })
  else none

/-- A deadline that a call sets is one of 64 bits. -/
def Fits (x : Clocked φ κ) (a : HookAction φ κ) : Prop :=
  ∀ i now ms, x.hooked.arming a = some (i, now, ms) → now + millis ms < 2 ^ 63

/-- A call that returns -1 with `ETIMEDOUT` when it has been woken has a timeout, which has passed
since it armed its first timer. -/
def NotEarly (x : Clocked φ κ) : Prop :=
  ∀ w f c, x.hooked.call f = some c →
    x.hooked.ioStep w f c .check c.pc = some (x.hooked.finish f c ⟨-1, .etimedout⟩) →
    ∃ since ms, c.timeout = some ms ∧ x.armed c.tinfo = some (since, ms) ∧
      since + millis ms ≤ x.clock

end Clocked

/-- The callbacks that a worker has in hand. -/
def Duty.Allowed (armed : ArmedAt) (time : Int) : Duty φ κ → Prop
  | .handling cbs _ => ∀ cb, some cb ∈ cbs → armed.Allows cb time
  | .taken (.call cb) => armed.Allows cb time
  | .timingOut _ t => armed.Passed time t.winfo
  | _ => True

/-- What holds of the timers and the conditions of calls. -/
structure Timed (armed : ArmedAt) (clock : Int) (s : Hooked φ κ) : Prop where
  known : ∀ f c, s.call f = some c → c.tinfo < s.infoCount
  unique : ∀ f g c d, s.call f = some c → s.call g = some d → c.tinfo = d.tinfo → f = g
  fresh : ∀ i, s.infoCount ≤ i → armed i = none
  own : ∀ f c since ms, s.call f = some c → armed c.tinfo = some (since, ms) → c.timeout = some ms
  past : ∀ i since ms, armed i = some (since, ms) → since ≤ clock
  previous : 0 ≤ s.timers.previousTime ∧ s.timers.previousTime ≤ clock
  deadlines : s.timers.Deadlines armed.Suits
  callbacks : s.manager.Callbacks (fun cb => armed.Allows cb clock)
  duty : ∀ w, (s.duty w).Allowed armed clock
  cancelled : ∀ i, (s.infos i).cancelled ≠ none → armed.Passed clock i

theorem ArmedAt.Passed.mono {armed armed' : ArmedAt} {time time' : Int} {i : InfoId}
    (h : armed.Passed time i) (harmed : ∀ i v, armed i = some v → armed' i = some v)
    (htime : time ≤ time') : armed'.Passed time' i := by
  obtain ⟨since, ms, hi, hle⟩ := h
  exact ⟨since, ms, harmed i _ hi, hle.trans htime⟩

theorem ArmedAt.Allows.mono {armed armed' : ArmedAt} {time time' : Int} {cb : HookCallback κ}
    (h : armed.Allows cb time) (harmed : ∀ i v, armed i = some v → armed' i = some v)
    (htime : time ≤ time') : armed'.Allows cb time' := by
  cases cb with
  | call cb => trivial
  | onTimer weakCond cb =>
    cases cb with
    | timeout t => exact ArmedAt.Passed.mono h harmed htime
    | other code => trivial

theorem ArmedAt.Suits.mono {armed armed' : ArmedAt} {cb : HookCallback κ} {recurring : Bool}
    {next : Int} (h : armed.Suits cb recurring next)
    (harmed : ∀ i v, armed i = some v → armed' i = some v) : armed'.Suits cb recurring next :=
  fun time htime => (h time htime).mono harmed (le_refl _)

theorem Duty.Allowed.mono {armed armed' : ArmedAt} {time time' : Int} {d : Duty φ κ}
    (h : d.Allowed armed time) (harmed : ∀ i v, armed i = some v → armed' i = some v)
    (htime : time ≤ time') : d.Allowed armed' time' := by
  cases d with
  | free | polled | executing => trivial
  | handling cbs ready => exact fun cb hcb => (h cb hcb).mono harmed htime
  | taken task =>
    cases task with
    | fiber f => trivial
    | call cb => exact ArmedAt.Allows.mono h harmed htime
  | timingOut stage t => exact ArmedAt.Passed.mono h harmed htime

namespace Timed
variable {armed : ArmedAt} {clock : Int} {s t : Hooked φ κ}

theorem advance (h : Timed armed clock s) {clock' : Int} (hle : clock ≤ clock') :
    Timed armed clock' s where
  known := h.known
  unique := h.unique
  fresh := h.fresh
  own := h.own
  past := fun i since ms hi => (h.past i since ms hi).trans hle
  previous := ⟨h.previous.1, h.previous.2.trans hle⟩
  deadlines := h.deadlines
  callbacks := h.callbacks.mono (fun _ hcb => hcb.mono (fun _ _ hi => hi) hle)
  duty := fun w => (h.duty w).mono (fun _ _ hi => hi) hle
  cancelled := fun i hi => (h.cancelled i hi).mono (fun _ _ hi => hi) hle

/-- Every call goes on under its condition and with its timeout, or ends. -/
def SameCalls (s t : Hooked φ κ) : Prop :=
  ∀ f c, t.call f = some c → ∃ d, s.call f = some d ∧ c.tinfo = d.tinfo ∧ c.timeout = d.timeout

theorem frame (h : Timed armed clock s) (hcount : t.infoCount = s.infoCount)
    (hcalls : SameCalls s t) (hcallbacks : t.manager.Callbacks (fun cb => armed.Allows cb clock))
    (hdeadlines : t.timers.Deadlines armed.Suits)
    (hprevious : 0 ≤ t.timers.previousTime ∧ t.timers.previousTime ≤ clock)
    (hcancelled : ∀ i, (t.infos i).cancelled ≠ none → armed.Passed clock i)
    (hduty : ∀ w, (t.duty w).Allowed armed clock) : Timed armed clock t := by
  refine ⟨?_, ?_, ?_, ?_, h.past, hprevious, hdeadlines, hcallbacks, hduty, hcancelled⟩
  · intro f c hc
    obtain ⟨c', hc', htinfo, -⟩ := hcalls f c hc
    rw [htinfo, hcount]
    exact h.known f c' hc'
  · intro f g c d hc hd hsame
    obtain ⟨c', hc', hctinfo, -⟩ := hcalls f c hc
    obtain ⟨d', hd', hdtinfo, -⟩ := hcalls g d hd
    exact h.unique f g c' d' hc' hd' (hctinfo.symm.trans (hsame.trans hdtinfo))
  · intro i hi
    exact h.fresh i (hcount ▸ hi)
  · intro f c since ms hc hi
    obtain ⟨c', hc', htinfo, htimeout⟩ := hcalls f c hc
    rw [htimeout]
    exact h.own f c' since ms hc' (htinfo ▸ hi)

/-- A step that leaves the calls alone. -/
theorem serves (h : Timed armed clock s) {m : IOManager Unit φ (HookCallback κ)}
    {timers : TimerManager (HookCallback κ)} {infos : InfoId → TimerInfo} {duty : Nat → Duty φ κ}
    (hcallbacks : m.Callbacks (fun cb => armed.Allows cb clock))
    (hdeadlines : timers.Deadlines armed.Suits)
    (hprevious : 0 ≤ timers.previousTime ∧ timers.previousTime ≤ clock)
    (hcancelled : ∀ i, (infos i).cancelled ≠ none → armed.Passed clock i)
    (hduty : ∀ w, (duty w).Allowed armed clock) :
    Timed armed clock { s with manager := m, timers := timers, infos := infos, duty := duty } :=
  h.frame rfl (fun _ c hc => ⟨c, hc, rfl, rfl⟩) hcallbacks hdeadlines hprevious hcancelled hduty

/-- The next duty of one worker. -/
theorem duty_update (h : Timed armed clock s) {w : Nat} {d : Duty φ κ}
    (hd : d.Allowed armed clock) (w' : Nat) :
    (Function.update s.duty w d w').Allowed armed clock := by
  rcases eq_or_ne w' w with rfl | hne
  · rw [Function.update_self]
    exact hd
  · rw [Function.update_of_ne hne]
    exact h.duty w'

/-- Who owns a condition does not matter. -/
theorem cancelled_update (h : Timed armed clock s) (i : InfoId) (f : TimerInfo → TimerInfo)
    (hf : (f (s.infos i)).cancelled ≠ none → armed.Passed clock i) (j : InfoId) :
    (Function.update s.infos i (f (s.infos i)) j).cancelled ≠ none → armed.Passed clock j := by
  rcases eq_or_ne j i with rfl | hne
  · rw [Function.update_self]
    exact hf
  · rw [Function.update_of_ne hne]
    exact h.cancelled j

private theorem cancelled_disown (h : Timed armed clock s) (i j : InfoId) :
    ((s.disown i).infos j).cancelled ≠ none → armed.Passed clock j :=
  h.cancelled_update i (fun x => { x with owners := x.owners - 1 }) (h.cancelled i) j

theorem workerStep (h : Timed armed clock s) {w : Nat} {a : HookAction φ κ} {d : Duty φ κ}
    {clock' : Int} (hle : clock ≤ clock') (hreads : ∀ r ∈ a.readings, clock ≤ r ∧ r ≤ clock')
    (hduty : s.duty w = d) (hstep : s.workerStep w a d = some t) : Timed armed clock' t := by
  have h' := h.advance hle
  have hd := h'.duty w
  rw [hduty] at hd
  unfold Hooked.workerStep at hstep
  split at hstep
  case h_1 i =>
    obtain ⟨q, hq, rfl⟩ := Option.map_eq_some_iff.mp hstep
    have hmem := List.mem_of_getElem? hq
    refine h'.serves ⟨fun q' hq' => h'.callbacks.queued q' (List.mem_of_mem_eraseIdx hq'),
      h'.callbacks.registered⟩ h'.deadlines h'.previous h'.cancelled (h'.duty_update ?_)
    cases htask : q.2 with
    | fiber f => trivial
    | call cb => exact h'.callbacks.queued q hmem cb htask
  case h_2 weakCond t =>
    split at hstep
    · cases hstep
      exact h'.serves h'.callbacks h'.deadlines h'.previous h'.cancelled (h'.duty_update trivial)
    · cases hstep
      exact h'.serves h'.callbacks h'.deadlines h'.previous
        (h'.cancelled_update weakCond (fun x => { x with owners := x.owners + 1 })
          (h'.cancelled weakCond)) (h'.duty_update hd)
  case h_3 t =>
    split at hstep
    · cases hstep
      exact h'.serves h'.callbacks h'.deadlines h'.previous
        (h'.cancelled_disown t.winfo) (h'.duty_update trivial)
    · cases hstep
      exact h'.serves h'.callbacks h'.deadlines h'.previous h'.cancelled (h'.duty_update hd)
  case h_4 t =>
    cases hstep
    exact h'.serves h'.callbacks h'.deadlines h'.previous
      (h'.cancelled_update t.winfo (fun x => { x with cancelled := some .etimedout })
          (fun _ => hd)) (h'.duty_update hd)
  case h_5 ok t =>
    obtain ⟨⟨r, m⟩, hr, rfl⟩ := Option.map_eq_some_iff.mp hstep
    exact h'.serves (IOManager.cancelEvent_callbacks h'.callbacks hr) h'.deadlines h'.previous
      (h'.cancelled_disown t.winfo) (h'.duty_update trivial)
  case h_6 events =>
    obtain ⟨-, he⟩ := Option.ite_none_right_eq_some.mp hstep
    cases he
    exact h'.serves h'.callbacks h'.deadlines h'.previous h'.cancelled (h'.duty_update trivial)
  case h_7 now now' fuel ready =>
    obtain ⟨⟨r, m⟩, hr, rfl⟩ := Option.map_eq_some_iff.mp hstep
    have hnow := hreads now (List.mem_cons_self ..)
    have hnow' := hreads now' (List.mem_cons_of_mem _ (List.mem_cons_self ..))
    have hlow : -2 ^ 63 + millis (60 * 60 * 1000) ≤ s.timers.previousTime :=
      le_trans (by decide) h.previous.1
    have hrollover := detectClockRollover_false hlow (h.previous.2.trans hnow'.1)
    have hloop : collectLoop now false fuel { s.timers with previousTime := now' } = some (r, m) := by
      rw [← hrollover]
      exact hr
    have hagain : ∀ (cb : HookCallback κ) next time, armed.Suits cb true next →
        armed.Suits cb true time := fun _ _ _ hcb time' _ => hcb time' (Or.inl rfl)
    obtain ⟨hdeadlines, hdue⟩ := Deadlines.collectLoop
      (m := { s.timers with previousTime := now' }) h.deadlines hagain hloop
    have hprevious : m.previousTime = now' := (collectLoop_fields hloop).2.1
    refine h'.serves h'.callbacks hdeadlines ?_ h'.cancelled (h'.duty_update ?_)
    · show 0 ≤ m.previousTime ∧ m.previousTime ≤ clock'
      rw [hprevious]
      exact ⟨(h.previous.1.trans h.previous.2).trans hnow'.1, hnow'.2⟩
    · intro cb hcb
      obtain ⟨x, hx, hx'⟩ := List.mem_map.mp hcb
      obtain ⟨recurring, next, hsuits, hle⟩ := hdue x hx cb hx'
      exact hsuits _ (Or.inr (hle.trans hnow.2))
  case h_8 cb cbs ready =>
    split at hstep
    · cases hstep
      exact h'.serves h'.callbacks h'.deadlines h'.previous h'.cancelled
        (h'.duty_update (fun c hc => hd c (List.mem_cons_of_mem _ hc)))
    · next cb =>
      cases hstep
      refine h'.serves (h'.callbacks.append ?_) h'.deadlines h'.previous h'.cancelled
        (h'.duty_update (fun c hc => hd c (List.mem_cons_of_mem _ hc)))
      intro q hq c hc
      obtain rfl := List.mem_singleton.mp hq
      cases hc
      exact hd cb List.mem_cons_self
  case h_9 r ready ok =>
    obtain ⟨m, hm, rfl⟩ := Option.map_eq_some_iff.mp hstep
    exact h'.serves (IOManager.dispatch_callbacks h'.callbacks hm) h'.deadlines h'.previous
      h'.cancelled (h'.duty_update (fun c hc => hd c hc))
  case h_10 =>
    cases hstep
    exact h'.serves h'.callbacks h'.deadlines h'.previous h'.cancelled (h'.duty_update trivial)
  case h_11 => cases hstep

section Fibers
variable [DecidableEq φ]

/-- A statement of a call that keeps its condition and its timeout. -/
theorem sameCalls_set {f : φ} {c c' : DoIo} (hc : s.call f = some c) (htinfo : c'.tinfo = c.tinfo)
    (htimeout : c'.timeout = c.timeout) : SameCalls s (s.setCall f (some c')) := by
  intro g d hd
  rcases eq_or_ne g f with rfl | hne
  · obtain rfl := Option.some.inj ((Function.update_self g _ s.call).symm.trans hd)
    exact ⟨c, hc, htinfo, htimeout⟩
  · exact ⟨d, (Function.update_of_ne hne _ _).symm.trans hd, rfl, rfl⟩

private theorem sameCalls_leave (s : Hooked φ κ) (f : φ) : SameCalls s (s.setCall f none) := by
  intro g d hd
  rcases eq_or_ne g f with rfl | hne
  · cases (Function.update_self g _ s.call).symm.trans hd
  · exact ⟨d, (Function.update_of_ne hne _ _).symm.trans hd, rfl, rfl⟩

/-- The statements of a call but the one that arms a timer. -/
theorem ioStep (h : Timed armed clock s) {w : Nat} {f : φ} {c : DoIo} {op : IoOp}
    (hop : ∀ now, op ≠ .arm now) (hc : s.call f = some c)
    (hstep : s.ioStep w f c op c.pc = some t) : Timed armed clock t := by
  have hcancel : ∀ timer, (s.cancelOpt timer).timers.Deadlines armed.Suits ∧
      0 ≤ (s.cancelOpt timer).timers.previousTime ∧
        (s.cancelOpt timer).timers.previousTime ≤ clock := by
    intro timer
    cases timer with
    | none => exact ⟨h.deadlines, h.previous⟩
    | some timer =>
      exact ⟨h.deadlines.cancel timer, (s.timers.cancel_previous timer).symm ▸ h.previous⟩
  generalize hpc : c.pc = pc at hstep
  unfold Hooked.ioStep at hstep
  split at hstep
  case h_1 r =>
    cases hstep
    exact h.frame rfl (sameCalls_set hc rfl rfl) h.callbacks h.deadlines h.previous
      (h.cancelled_disown c.tinfo) h.duty
  case h_2 r =>
    split at hstep
    · cases hstep
      exact h
    split at hstep
    · cases hstep
      exact h.frame rfl (sameCalls_set hc rfl rfl) h.callbacks h.deadlines h.previous h.cancelled
        h.duty
    · cases hstep
      exact h.frame rfl (sameCalls_set hc rfl rfl) h.callbacks h.deadlines h.previous
        (h.cancelled_disown c.tinfo) h.duty
  case h_3 now => exact absurd rfl (hop now)
  case h_4 ok timer =>
    obtain ⟨⟨rt, m⟩, hr, rfl⟩ := Option.map_eq_some_iff.mp hstep
    exact h.frame rfl (sameCalls_set hc rfl rfl)
      (IOManager.addEvent_callbacks h.callbacks (fun _ he => by cases he) hr) h.deadlines
      h.previous h.cancelled h.duty
  case h_5 errno timer =>
    cases hstep
    cases timer with
    | none =>
      exact h.frame rfl (sameCalls_set hc rfl rfl) h.callbacks h.deadlines h.previous
        (h.cancelled_disown c.tinfo) h.duty
    | some timer =>
      exact h.frame rfl (sameCalls_set hc rfl rfl) h.callbacks (hcancel (some timer)).1
        (hcancel (some timer)).2 (h.cancelled_disown c.tinfo) h.duty
  case h_6 timer =>
    cases hstep
    exact h.frame rfl (sameCalls_set hc rfl rfl) h.callbacks h.deadlines h.previous h.cancelled
      (h.duty_update trivial)
  case h_7 timer =>
    cases hstep
    cases timer with
    | none =>
      exact h.frame rfl (sameCalls_set hc rfl rfl) h.callbacks h.deadlines h.previous h.cancelled
        h.duty
    | some timer =>
      exact h.frame rfl (sameCalls_set hc rfl rfl) h.callbacks (hcancel (some timer)).1
        (hcancel (some timer)).2 h.cancelled h.duty
  case h_8 =>
    split at hstep
    · cases hstep
      exact h.frame rfl (sameCalls_set hc rfl rfl) h.callbacks h.deadlines h.previous
        (h.cancelled_disown c.tinfo) h.duty
    · cases hstep
      exact h.frame rfl (sameCalls_set hc rfl rfl) h.callbacks h.deadlines h.previous h.cancelled
        h.duty
  case h_9 =>
    cases hstep
    exact h.frame rfl (sameCalls_leave s f) h.callbacks h.deadlines h.previous h.cancelled h.duty
  case h_10 => cases hstep

omit [DecidableEq φ] in
private theorem record_keeps (armed : ArmedAt) (r : Option (InfoId × Int × Nat)) (i : InfoId)
    (v : Int × Nat) (hi : armed i = some v) : armed.record r i = some v := by
  cases r with
  | none => exact hi
  | some r =>
    change (if armed r.1 = none then Function.update armed r.1 (some r.2) else armed) i = some v
    split
    · next hnone =>
      have hne : i ≠ r.1 := by
        rintro rfl
        rw [hnone] at hi
        cases hi
      exact (Function.update_of_ne hne _ _).trans hi
    · exact hi

omit [DecidableEq φ] in
/-- A call notes the time when it arms its first timer, and a later one has a later deadline. -/
theorem record (h : Timed armed clock s) {f : φ} {c : DoIo} {ms : Nat} {now : Int}
    (hc : s.call f = some c) (htimeout : c.timeout = some ms) (hnow : clock ≤ now) :
    Timed (armed.record (some (c.tinfo, now, ms))) now s ∧
      (armed.record (some (c.tinfo, now, ms))).Passed (now + millis ms) c.tinfo := by
  have hkeeps := record_keeps armed (some (c.tinfo, now, ms))
  have hmono : Timed armed now s := h.advance hnow
  by_cases hnone : armed c.tinfo = none
  · have hrecord : armed.record (some (c.tinfo, now, ms)) =
        Function.update armed c.tinfo (some (now, ms)) := if_pos hnone
    rw [hrecord] at hkeeps ⊢
    refine ⟨⟨h.known, h.unique, ?_, ?_, ?_, hmono.previous, ?_, ?_, ?_, ?_⟩, ?_⟩
    · intro i hi
      have hne : i ≠ c.tinfo := by
        rintro rfl
        exact absurd (h.known f c hc) (Nat.not_lt.mpr hi)
      rw [Function.update_of_ne hne]
      exact h.fresh i hi
    · intro g d since ms' hd hi
      rcases eq_or_ne d.tinfo c.tinfo with hsame | hne
      · obtain rfl := h.unique g f d c hd hc hsame
        obtain rfl := Option.some.inj (hd.symm.trans hc)
        rw [Function.update_self] at hi
        cases hi
        exact htimeout
      · rw [Function.update_of_ne hne] at hi
        exact h.own g d since ms' hd hi
    · intro i since ms' hi
      rcases eq_or_ne i c.tinfo with rfl | hne
      · rw [Function.update_self] at hi
        cases hi
        exact le_refl now
      · rw [Function.update_of_ne hne] at hi
        exact hmono.past i since ms' hi
    · exact hmono.deadlines.mono (fun _ _ _ hcb => hcb.mono hkeeps)
    · exact hmono.callbacks.mono (fun _ hcb => hcb.mono hkeeps (le_refl _))
    · exact fun w => (hmono.duty w).mono hkeeps (le_refl _)
    · exact fun i hi => (hmono.cancelled i hi).mono hkeeps (le_refl _)
    · exact ⟨now, ms, Function.update_self _ _ _, le_refl _⟩
  · have hrecord : armed.record (some (c.tinfo, now, ms)) = armed := if_neg hnone
    rw [hrecord]
    refine ⟨hmono, ?_⟩
    obtain ⟨⟨since, ms'⟩, hi⟩ := Option.ne_none_iff_exists'.mp hnone
    have hsame := (h.own f c since ms' hc hi).symm.trans htimeout
    obtain rfl := Option.some.inj hsame
    have hpast := h.past c.tinfo since ms' hi
    exact ⟨since, ms', hi, by omega⟩

theorem arm (h : Timed armed clock s) {w : Nat} {f : φ} {c : DoIo} {now : Int}
    (hnow : clock ≤ now) (hc : s.call f = some c)
    (hfits : ∀ ms, c.timeout = some ms → now + millis ms < 2 ^ 63)
    (hstep : s.ioStep w f c (.arm now) c.pc = some t) :
    Timed (armed.record (c.timeout.map (fun ms => (c.tinfo, now, ms)))) now t := by
  generalize hpc : c.pc = pc at hstep
  cases pc with
  | arm =>
    unfold Hooked.ioStep at hstep
    cases htimeout : c.timeout with
    | none =>
      rw [htimeout] at hstep
      cases hstep
      have h' := h.advance hnow
      exact h'.frame rfl (sameCalls_set hc rfl rfl) h'.callbacks h'.deadlines h'.previous
        h'.cancelled h'.duty
    | some ms =>
      rw [htimeout] at hstep
      cases hstep
      obtain ⟨h', hpassed⟩ := h.record hc htimeout hnow
      refine h'.frame rfl (sameCalls_set hc rfl htimeout.symm) h'.callbacks
        (h'.deadlines.addTimer ?_) h'.previous h'.cancelled h'.duty
      intro cb hcb
      cases hcb
      have hms := millis_nonneg ms
      have hstart := h.previous.1.trans h.previous.2
      have hdeadline : deadline now ms = now + millis ms :=
        deadline_of_fits (by omega) (hfits ms htimeout)
      rintro time (hrec | hlater)
      · cases hrec
      · rw [hdeadline] at hlater
        exact hpassed.mono (fun _ _ hi => hi) hlater
  | _ => cases hstep

private theorem sameCalls_resume (s : Hooked φ κ) (w : Nat) (f : φ) :
    SameCalls s (s.resume w f) := by
  intro g d hd
  rcases eq_or_ne g f with rfl | hne
  · have hmap : Function.update s.call g ((s.call g).map DoIo.resumed) g = some d := hd
    rw [Function.update_self] at hmap
    obtain ⟨c, hc, rfl⟩ := Option.map_eq_some_iff.mp hmap
    refine ⟨c, hc, ?_⟩
    unfold DoIo.resumed
    split
    · exact ⟨rfl, rfl⟩
    · exact ⟨rfl, rfl⟩
  · exact ⟨d, (Function.update_of_ne hne _ _).symm.trans hd, rfl, rfl⟩

theorem start (h : Timed armed clock s) {w : Nat} {f : φ} {task : Task φ (HookCallback κ)}
    (hstep : s.start w f task = some t) : Timed armed clock t := by
  have hresume : Timed armed clock (s.resume w f) :=
    h.frame rfl (sameCalls_resume s w f) h.callbacks h.deadlines h.previous h.cancelled
      (h.duty_update trivial)
  unfold Hooked.start at hstep
  split at hstep
  · split at hstep
    · split at hstep
      · cases hstep
        exact hresume
      · cases hstep
        exact h.serves h.callbacks h.deadlines h.previous h.cancelled (h.duty_update trivial)
      · cases hstep
    · cases hstep
  · split at hstep
    · cases hstep
      exact hresume
    · cases hstep
  · cases hstep

/-- A new call comes with a condition of its own. -/
theorem enterCall (h : Timed armed clock s) {f : φ} (fd : Nat) (e : Event)
    (entry : Pc × Option Nat) : Timed armed clock (s.enterCall f fd e entry) := by
  have hcall : ∀ g d, (s.enterCall f fd e entry).call g = some d →
      g = f ∧ d.tinfo = s.infoCount ∨ g ≠ f ∧ s.call g = some d := by
    intro g d hd
    rcases eq_or_ne g f with rfl | hne
    · obtain rfl := Option.some.inj ((Function.update_self g _ s.call).symm.trans hd)
      exact .inl ⟨rfl, rfl⟩
    · exact .inr ⟨hne, (Function.update_of_ne hne _ _).symm.trans hd⟩
  refine ⟨?_, ?_, ?_, ?_, h.past, h.previous, h.deadlines, h.callbacks, h.duty, ?_⟩
  · intro g d hd
    rcases hcall g d hd with ⟨-, htinfo⟩ | ⟨-, hold⟩
    · rw [htinfo]
      exact Nat.lt_succ_self _
    · exact Nat.lt_succ_of_lt (h.known g d hold)
  · intro g g' d d' hd hd' hsame
    rcases hcall g d hd with ⟨rfl, htinfo⟩ | ⟨-, hold⟩
    · rcases hcall g' d' hd' with ⟨rfl, -⟩ | ⟨-, hold'⟩
      · rfl
      · have hlt := h.known g' d' hold'
        rw [← hsame, htinfo] at hlt
        exact absurd hlt (Nat.lt_irrefl _)
    · have hlt := h.known g d hold
      rcases hcall g' d' hd' with ⟨rfl, htinfo'⟩ | ⟨-, hold'⟩
      · rw [hsame, htinfo'] at hlt
        exact absurd hlt (Nat.lt_irrefl _)
      · exact h.unique g g' d d' hold hold' hsame
  · intro i hi
    exact h.fresh i (Nat.le_of_succ_le hi)
  · intro g d since ms hd hi
    rcases hcall g d hd with ⟨-, htinfo⟩ | ⟨-, hold⟩
    · rw [htinfo, h.fresh _ (Nat.le_refl _)] at hi
      cases hi
    · exact h.own g d since ms hold hi
  · exact h.cancelled_update s.infoCount (fun _ => { owners := 1 }) (fun hi => absurd rfl hi)

/-- What other code does with the manager involves no timeout of a call. -/
theorem otherStep (h : Timed armed clock s) {a : HookAction φ κ} {clock' : Int}
    (hle : clock ≤ clock') (hstep : s.otherStep a = some t) : Timed armed clock' t := by
  have h' := h.advance hle
  unfold Hooked.otherStep at hstep
  split at hstep
  case h_1 task =>
    cases hstep
    refine h'.frame rfl (fun _ c hc => ⟨c, hc, rfl, rfl⟩) (h'.callbacks.append ?_) h'.deadlines
      h'.previous h'.cancelled h'.duty
    intro q hq cb hcb
    obtain rfl := List.mem_singleton.mp hq
    cases task with
    | fiber f => cases hcb
    | call code =>
      cases hcb
      trivial
  case h_2 ms cb recurring now =>
    cases hstep
    refine h'.frame rfl (fun _ c hc => ⟨c, hc, rfl, rfl⟩) h'.callbacks
      (h'.deadlines.addTimer ?_) h'.previous h'.cancelled h'.duty
    intro c hc
    obtain ⟨code, -, rfl⟩ := Option.map_eq_some_iff.mp hc
    exact fun _ _ => trivial
  case h_3 timer =>
    cases hstep
    exact h'.frame rfl (fun _ c hc => ⟨c, hc, rfl, rfl⟩) h'.callbacks (h'.deadlines.cancel timer)
      ((s.timers.cancel_previous timer).symm ▸ h'.previous) h'.cancelled h'.duty
  case h_4 fd e self cb ok =>
    obtain ⟨-, hadd⟩ := Option.ite_none_right_eq_some.mp hstep
    obtain ⟨⟨rt, m⟩, hr, rfl⟩ := Option.map_eq_some_iff.mp hadd
    refine h'.frame rfl (fun _ c hc => ⟨c, hc, rfl, rfl⟩)
      (IOManager.addEvent_callbacks h'.callbacks ?_ hr) h'.deadlines h'.previous h'.cancelled
      h'.duty
    intro c hc
    obtain ⟨code, -, rfl⟩ := Option.map_eq_some_iff.mp hc
    trivial
  case h_5 fd e ok =>
    cases hstep
    exact h'.frame rfl (fun _ c hc => ⟨c, hc, rfl, rfl⟩)
      (IOManager.delEvent_callbacks h'.callbacks fd e ok) h'.deadlines h'.previous h'.cancelled
      h'.duty
  case h_6 fd e ok =>
    obtain ⟨⟨r, m⟩, hr, rfl⟩ := Option.map_eq_some_iff.mp hstep
    exact h'.frame rfl (fun _ c hc => ⟨c, hc, rfl, rfl⟩)
      (IOManager.cancelEvent_callbacks h'.callbacks hr) h'.deadlines h'.previous h'.cancelled
      h'.duty
  case h_7 fd ok =>
    obtain ⟨⟨r, m⟩, hr, rfl⟩ := Option.map_eq_some_iff.mp hstep
    exact h'.frame rfl (fun _ c hc => ⟨c, hc, rfl, rfl⟩)
      (IOManager.cancelAll_callbacks h'.callbacks hr) h'.deadlines h'.previous h'.cancelled
      h'.duty
  case h_8 fd =>
    cases hstep
    exact h'.frame rfl (fun _ c hc => ⟨c, hc, rfl, rfl⟩) (h'.callbacks.same rfl rfl) h'.deadlines
      h'.previous h'.cancelled h'.duty
  case h_9 => cases hstep

omit [DecidableEq φ] in
private theorem arming_none {a : HookAction φ κ} (h : ∀ w now, a ≠ .io w (.arm now)) :
    s.arming a = none := by
  unfold Hooked.arming
  split
  · next w now => exact absurd rfl (h w now)
  · rfl

theorem fiberStep (h : Timed armed clock s) {w : Nat} {a : HookAction φ κ} {clock' : Int}
    (hworker : Hooked.worker a = some w) (hle : clock ≤ clock')
    (hreads : ∀ r ∈ a.readings, clock ≤ r ∧ r ≤ clock')
    (hlast : ∀ now, a = .io w (.arm now) → clock' = now)
    (hfits : ∀ i now ms, s.arming a = some (i, now, ms) → now + millis ms < 2 ^ 63)
    (hstep : s.fiberStep w a (s.duty w) = some t) :
    Timed (armed.record (s.arming a)) clock' t := by
  have h' := h.advance hle
  generalize hduty : s.duty w = d at hstep
  by_cases harm : ∃ now, a = .io w (.arm now)
  · obtain ⟨now, rfl⟩ := harm
    obtain rfl := hlast now rfl
    cases d with
    | executing f =>
      obtain ⟨c, hc, hio⟩ := Option.bind_eq_some_iff.mp hstep
      have harming : s.arming (.io w (.arm clock')) =
          c.timeout.map (fun ms => (c.tinfo, clock', ms)) := by
        simp only [Hooked.arming, hduty, Duty.fiber, Option.bind_eq_bind, Option.bind_some, hc]
        cases c.timeout <;> rfl
      rw [harming] at hfits ⊢
      exact h.arm hle hc (fun ms hms => hfits c.tinfo clock' ms (by rw [hms]; rfl)) hio
    | _ => cases hstep
  · have harming : s.arming a = none := by
      refine arming_none ?_
      rintro w' now rfl
      cases hworker
      exact harm ⟨now, rfl⟩
    rw [harming]
    unfold Hooked.fiberStep at hstep
    split at hstep
    · exact h'.start hstep
    · obtain ⟨-, he⟩ := Option.ite_none_right_eq_some.mp hstep
      cases he
      exact h'.enterCall _ _ _
    · next op f =>
      obtain ⟨c, hc, hio⟩ := Option.bind_eq_some_iff.mp hstep
      refine h'.ioStep ?_ hc hio
      rintro now rfl
      cases hworker
      exact harm ⟨now, rfl⟩
    · obtain ⟨-, he⟩ := Option.ite_none_right_eq_some.mp hstep
      cases he
      exact h'.frame rfl (fun _ c hc => ⟨c, hc, rfl, rfl⟩) h'.callbacks h'.deadlines h'.previous
        h'.cancelled (h'.duty_update trivial)
    · exact h.workerStep hle hreads hduty hstep

end Fibers
end Timed

namespace Clocked
variable [DecidableEq φ] {workers : Finset Nat}

omit [DecidableEq φ] in
/-- The last of ascending readings is the latest one, and none is before the first. -/
theorem ascending {clock : Int} {readings : List Int}
    (h : (clock :: readings).Pairwise (· ≤ ·)) :
    clock ≤ readings.getLastD clock ∧
      ∀ r ∈ readings, clock ≤ r ∧ r ≤ readings.getLastD clock := by
  induction readings generalizing clock with
  | nil => exact ⟨le_refl _, fun r hr => absurd hr List.not_mem_nil⟩
  | cons now rest ih =>
    obtain ⟨hfirst, hrest⟩ := List.pairwise_cons.mp h
    obtain ⟨hlast, hbetween⟩ := ih hrest
    have hnow := hfirst now List.mem_cons_self
    rw [List.getLastD_cons]
    refine ⟨hnow.trans hlast, ?_⟩
    intro r hr
    rcases List.mem_cons.mp hr with rfl | hr
    · exact ⟨hnow, hlast⟩
    · exact ⟨hnow.trans (hbetween r hr).1, (hbetween r hr).2⟩

private theorem step_timed {x y : Clocked φ κ} {a : HookAction φ κ}
    (h : Timed x.armed x.clock x.hooked)
    (hfits : x.Fits a) (hstep : step workers x a = some y) : Timed y.armed y.clock y.hooked := by
  obtain ⟨hclock, hstep⟩ := Option.ite_none_right_eq_some.mp hstep
  obtain ⟨t, ht, rfl⟩ := Option.map_eq_some_iff.mp hstep
  obtain ⟨hle, hreads⟩ := ascending hclock
  unfold Hooked.step at ht
  split at ht
  · next w hworker =>
    obtain ⟨-, hfiber⟩ := Option.ite_none_right_eq_some.mp ht
    refine h.fiberStep hworker hle hreads ?_ hfits hfiber
    rintro now rfl
    rfl
  · next hworker =>
    have harming : x.hooked.arming a = none := by
      refine Timed.arming_none ?_
      rintro w now rfl
      cases hworker
    change Timed (x.armed.record (x.hooked.arming a)) _ t
    rw [harming]
    exact h.otherStep hle ht

/-- The test behind the wait reads the condition of the call. -/
theorem cancelled_of_check {s : Hooked φ κ} {w : Nat} {f : φ} {c : DoIo}
    (h : s.ioStep w f c .check c.pc = some (s.finish f c ⟨-1, .etimedout⟩)) :
    (s.infos c.tinfo).cancelled ≠ none := by
  intro hnone
  cases hpc : c.pc with
  | check =>
    rw [hpc] at h
    have hattempt : s.ioStep w f c .check .check = some (s.goto f c .attempt) :=
      if_neg (by rw [hnone]; decide)
    have hcall := congrArg (fun t => t.call f) (Option.some.inj (hattempt.symm.trans h))
    have hleft : (s.goto f c .attempt).call f = some { c with pc := .attempt } :=
      Function.update_self _ _ _
    have hright : (s.finish f c ⟨-1, .etimedout⟩).call f =
        some { c with pc := .returned ⟨-1, .etimedout⟩ } := Function.update_self _ _ _
    cases hleft.symm.trans (hcall.trans hright)
  | _ =>
    rw [hpc] at h
    cases h

/-- In every run of hooked I/O under a clock that does not go back, whatever is woken, collected,
cancelled or closed in between, if no timeout of a call leads out of the range of the clock. -/
theorem always_notEarly (workers : Finset Nat) (as : List (HookAction φ κ))
    (hfits : Transition.Guarded (step workers) Fits ({} : Clocked φ κ) as) :
    Transition.Always (step workers) NotEarly ({} : Clocked φ κ) as := by
  have hinit : Timed (fun _ => none) 0 ({} : Hooked φ κ) := by
    refine ⟨?_, ?_, fun _ _ => rfl, ?_, ?_, ⟨le_refl _, le_refl _⟩, ?_, ⟨?_, ?_⟩, fun _ => trivial, ?_⟩
    · intro f c hc
      cases hc
    · intro f g c d hc
      cases hc
    · intro f c since ms hc
      cases hc
    · intro i since ms hi
      cases hi
    · intro t cb hcb
      cases hcb
    · intro q hq
      cases hq
    · intro fd e cb hcb
      cases e <;> cases hcb
    · intro i hi
      exact absurd rfl hi
  have hsound := Transition.always_of_guarded (fun _ _ _ h hg hstep => step_timed h hg hstep) hinit
    hfits
  refine hsound.mono ?_
  intro x h w f c hc hcheck
  obtain ⟨since, ms, harmed, hle⟩ := h.cancelled c.tinfo (cancelled_of_check hcheck)
  exact ⟨since, ms, h.own f c since ms hc harmed, harmed, hle⟩

omit [DecidableEq φ] in
/-- Most steps set no deadline. -/
theorem fits_of_arming {x : Clocked φ κ} {a : HookAction φ κ} (h : x.hooked.arming a = none) :
    x.Fits a := fun _ _ _ harming => absurd (h.symm.trans harming) (Option.some_ne_none _).symm

/-- Fiber 7 reads with a timeout of a millisecond, and nothing comes. -/
def readTimesOut : List (HookAction Nat Unit) :=
  [.schedule (.fiber 7), .take 0 0, .start 0 7,
    .call 0 5 .read .rcvTimeo true (some { recvTimeout := some 1 }),
    .io 0 (.attempt ⟨-1, .eagain⟩), .io 0 (.arm 5), .io 0 (.add true), .io 0 .yield,
    .epollWait 0 [], .collect 0 1000005 1000005 1, .submit 0, .dispatch 0 true,
    .take 0 0, .onTimer 0, .testCancelled 0, .setCancelled 0, .cancelTimedOut 0 true,
    .take 0 0, .start 0 7, .io 0 .cancel, .io 0 .check]

theorem readTimesOut_notEarly :
    Transition.Always (step {0}) NotEarly ({} : Clocked Nat Unit) readTimesOut ∧
      ∃ x c, Transition.run (step {0}) ({} : Clocked Nat Unit) readTimesOut = some x ∧
        x.hooked.call 7 = some c ∧ c.pc = .returned ⟨-1, .etimedout⟩ ∧
        x.armed c.tinfo = some (5, 1) ∧ x.clock = 1000005 := by
  refine ⟨always_notEarly {0} readTimesOut ?_, _, _, rfl, rfl, rfl, rfl, rfl⟩
  have hfits : (5 : Int) + millis 1 < 2 ^ 63 := by decide
  refine .cons rfl (fits_of_arming rfl) <| .cons rfl (fits_of_arming rfl) <|
    .cons rfl (fits_of_arming rfl) <| .cons rfl (fits_of_arming rfl) <|
    .cons rfl (fits_of_arming rfl) <| .cons rfl (fun _ _ _ h => by cases h; exact hfits) <|
    .cons rfl (fits_of_arming rfl) <| .cons rfl (fits_of_arming rfl) <|
    .cons rfl (fits_of_arming rfl) <| .cons rfl (fits_of_arming rfl) <|
    .cons rfl (fits_of_arming rfl) <| .cons rfl (fits_of_arming rfl) <|
    .cons rfl (fits_of_arming rfl) <| .cons rfl (fits_of_arming rfl) <|
    .cons rfl (fits_of_arming rfl) <| .cons rfl (fits_of_arming rfl) <|
    .cons rfl (fits_of_arming rfl) <| .cons rfl (fits_of_arming rfl) <|
    .cons rfl (fits_of_arming rfl) <| .cons rfl (fits_of_arming rfl) <|
    .cons rfl (fits_of_arming rfl) trivial

end Clocked
end CoroutineRpc.Coroutine
