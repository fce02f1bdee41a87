import CoroutineRpc.Coroutine.HookSteps

/-! What holds of one fiber while it is in `do_io`: it occurs once while it waits and nowhere
else, and of the timers that its call has made at most the one of this round is left. -/
namespace CoroutineRpc.Coroutine.Hooked
variable {φ κ : Type}

/-- The manager's tables are in order, and who executes a fiber holds its mutex. -/
structure Sound (workers : Finset Nat) (s : Hooked φ κ) : Prop where
  tabled : s.manager.Tabled
  orderly : s.timers.Orderly
  executing : ∀ w ∈ workers, ∀ f, s.duty w = .executing f →
    s.mutex f = some w ∧ s.fiberState f = some .running

/-- Nobody executes a fiber whose mutex is free. -/
theorem Sound.unlocked {workers : Finset Nat} {s : Hooked φ κ} (h : Sound workers s) {g : φ}
    (hfree : s.mutex g = none) : ∀ w ∈ workers, s.duty w ≠ .executing g := by
  intro w hw hexecuting
  exact absurd ((h.executing w hw g hexecuting).1.symm.trans hfree) (by simp)

private theorem cancelOpt_keeps {s : Hooked φ κ} (h : s.timers.Orderly) (timer : Option TimerId) :
    TimerManager.Keeps s.timers (s.cancelOpt timer).timers := by
  cases timer with
  | none => exact .refl h
  | some t => exact TimerManager.cancel_keeps h t

section
variable [DecidableEq φ]

/-- How often the fiber is registered, queued or taken by a worker. -/
def occurrences (workers : Finset Nat) (s : Hooked φ κ) (f : φ) : Nat :=
  s.manager.occurrences f + ∑ w ∈ workers, (s.duty w).takes f

/-- The fiber's call of `do_io` with the frame `c` is in order. -/
structure Framed (workers : Finset Nat) (s : Hooked φ κ) (f : φ) (c : DoIo) : Prop where
  occurs : s.occurrences workers f = if c.pc.waits then 1 else 0
  place : ∀ fd e, s.manager.WaitsAt f fd e → fd = c.fd ∧ e = c.event
  parked : ∀ timer, c.pc = .waiting timer → s.fiberState f = some .ready
  active : (∀ timer, c.pc ≠ .waiting timer) → ∃ w ∈ workers, s.duty w = .executing f
  timers : ∀ t ∈ c.made, s.timers.OneShot t ∧ (c.pc.timer ≠ some t → t ∉ s.timers.timers)

structure Kept (workers : Finset Nat) (f : φ) (s : Hooked φ κ) : Prop where
  sound : Sound workers s
  framed : ∀ c, s.call f = some c → Framed workers s f c

private theorem takes_executing {d : Duty φ κ} {g : φ} (h : d = .executing g) (f : φ) :
    d.takes f = 0 := by
  rw [h]
  rfl

/-- One worker's step changes the occurrences by what it and the manager hold. -/
theorem occurrences_move {workers : Finset Nat} {s t : Hooked φ κ} {w : Nat} (hw : w ∈ workers)
    (hothers : ∀ w', w' ≠ w → t.duty w' = s.duty w') (f : φ) :
    t.occurrences workers f + (s.manager.occurrences f + (s.duty w).takes f) =
      s.occurrences workers f + (t.manager.occurrences f + (t.duty w).takes f) := by
  have hsum := sum_change (f := fun w' => (t.duty w').takes f) (g := fun w' => (s.duty w').takes f)
    hw (fun w' _ hne => by rw [hothers w' hne])
  simp only [occurrences] at hsum ⊢
  omega

theorem occurrences_manager {workers : Finset Nat} {s t : Hooked φ κ} (hduty : t.duty = s.duty)
    {f : φ} {k : Nat} (hmanager : t.manager.occurrences f = s.manager.occurrences f + k) :
    t.occurrences workers f = s.occurrences workers f + k := by
  rw [occurrences, occurrences, hduty, hmanager]
  omega

/-- A step that neither moves the fiber nor stops its execution, and keeps one-shot timers. -/
theorem Framed.frame {workers : Finset Nat} {s t : Hooked φ κ} {f : φ} {c : DoIo}
    (h : Framed workers s f c)
    (hoccurs : t.occurrences workers f = s.occurrences workers f)
    (hplaces : ∀ fd e, t.manager.WaitsAt f fd e → s.manager.WaitsAt f fd e)
    (hstate : t.fiberState f = s.fiberState f)
    (hduty : ∀ w ∈ workers, s.duty w = .executing f → t.duty w = .executing f)
    (htimers : TimerManager.Keeps s.timers t.timers) : Framed workers t f c := by
  refine ⟨hoccurs.trans h.occurs, fun fd e hw => h.place fd e (hplaces fd e hw),
    fun timer hpc => hstate.trans (h.parked timer hpc), ?_, ?_⟩
  · intro hpc
    obtain ⟨w, hw, hexecuting⟩ := h.active hpc
    exact ⟨w, hw, hduty w hw hexecuting⟩
  · intro i hi
    obtain ⟨honce, hgone⟩ := h.timers i hi
    exact ⟨htimers.oneShot i honce, fun hpc => htimers.gone i honce (hgone hpc)⟩

/-- Steps of workers that execute no fiber. -/
theorem Kept.serves {workers : Finset Nat} {f : φ} {s t : Hooked φ κ} {w : Nat}
    (h : Kept workers f s) (hw : w ∈ workers) (hs : Serves s t w) : Kept workers f t := by
  refine ⟨⟨hs.tabled, hs.timers.orderly, ?_⟩, ?_⟩
  · intro w' hw' g hexecuting
    have hne : w' ≠ w := fun he => hs.after g (he ▸ hexecuting)
    rw [hs.mutex, hs.fiberState]
    exact h.sound.executing w' hw' g (hs.others w' hne ▸ hexecuting)
  · intro c hc
    rw [hs.call] at hc
    refine (h.framed c hc).frame ?_ (hs.places f) (congrFun hs.fiberState f) ?_ hs.timers
    · have hmove := occurrences_move hw hs.others f
      have hbalance := hs.balance f
      omega
    · intro w' _ hexecuting
      have hne : w' ≠ w := fun he => hs.before f (he ▸ hexecuting)
      exact (hs.others w' hne).trans hexecuting

/-- A fiber in `do_io` that nobody executes waits there. -/
theorem Framed.waiting {workers : Finset Nat} {s : Hooked φ κ} {f : φ} {c : DoIo}
    (h : Framed workers s f c) (hfree : ∀ w ∈ workers, s.duty w ≠ .executing f) :
    ∃ timer, c.pc = .waiting timer := by
  by_contra hpc
  obtain ⟨w, hw, hexecuting⟩ := h.active (fun timer he => hpc ⟨timer, he⟩)
  exact hfree w hw hexecuting

/-- A worker resumes a fiber that it has taken, or a new one for a callback. -/
theorem Kept.resume {workers : Finset Nat} {f : φ} {s : Hooked φ κ} {w : Nat} {g : φ}
    {task : Task φ (HookCallback κ)} (h : Kept workers f s) (hw : w ∈ workers)
    (hduty : s.duty w = .taken task) (hfree : ∀ w' ∈ workers, s.duty w' ≠ .executing g)
    (hother : ∀ f', f' ≠ g → task.isFor f' = false)
    (hself : s.call g ≠ none → task.isFor g = true) : Kept workers f (s.resume w g) := by
  have hduty' : (s.resume w g).duty w = .executing g := Function.update_self _ _ _
  have hothers : ∀ w', w' ≠ w → (s.resume w g).duty w' = s.duty w' :=
    fun w' hne => Function.update_of_ne hne _ _
  have hmove : (s.resume w g).occurrences workers f + (if task.isFor f then 1 else 0) =
      s.occurrences workers f := by
    have hmove := occurrences_move hw hothers f
    have hmanager : (s.resume w g).manager = s.manager := rfl
    have hbefore : (s.duty w).takes f = if task.isFor f then 1 else 0 := by rw [hduty]; rfl
    rw [takes_executing hduty', hbefore, hmanager] at hmove
    omega
  have hkeeps := TimerManager.Keeps.refl h.sound.orderly
  refine ⟨⟨h.sound.tabled, h.sound.orderly, ?_⟩, ?_⟩
  · intro w' hw' f' hexecuting
    by_cases hne : w' = w
    · subst hne
      obtain rfl : g = f' := by simpa [hduty'] using hexecuting
      exact ⟨Function.update_self _ _ _, Function.update_self _ _ _⟩
    · rw [hothers w' hne] at hexecuting
      have hf' : f' ≠ g := by
        rintro rfl
        exact hfree w' hw' hexecuting
      obtain ⟨hmutex, hrunning⟩ := h.sound.executing w' hw' f' hexecuting
      exact ⟨(Function.update_of_ne hf' _ _).trans hmutex,
        (Function.update_of_ne hf' _ _).trans hrunning⟩
  · intro c hc
    by_cases hfg : f = g
    · subst hfg
      have hcall : (s.resume w f).call f = (s.call f).map DoIo.resumed := Function.update_self _ _ _
      obtain ⟨c₀, hc₀, rfl⟩ := Option.map_eq_some_iff.mp (hcall.symm.trans hc)
      have hframed := h.framed c₀ hc₀
      obtain ⟨timer, hpc⟩ := hframed.waiting hfree
      have hresumed : c₀.resumed = { c₀ with pc := .woken timer } := by rw [DoIo.resumed, hpc]
      rw [hresumed]
      refine ⟨?_, hframed.place, fun timer he => (by cases he), fun _ => ⟨w, hw, hduty'⟩, ?_⟩
      · have hone := hframed.occurs
        rw [hpc] at hone
        rw [hself (by simp [hc₀])] at hmove
        simp only [Pc.waits, if_true] at hone hmove
        simp only [Pc.waits, Bool.false_eq_true, if_false]
        omega
      · intro t ht
        obtain ⟨honce, hgone⟩ := hframed.timers t ht
        rw [hpc] at hgone
        exact ⟨honce, hgone⟩
    · have hcall : (s.resume w g).call f = s.call f := Function.update_of_ne hfg _ _
      refine (h.framed c (hcall.symm.trans hc)).frame ?_ (fun _ _ hw => hw)
        (Function.update_of_ne hfg _ _) ?_ hkeeps
      · rw [hother f hfg] at hmove
        simpa using hmove
      · intro w' _ hexecuting
        have hne : w' ≠ w := by
          rintro rfl
          simp [hduty] at hexecuting
        exact (hothers w' hne).trans hexecuting

/-- A worker discards the task of a fiber that has ended, which is in no call. -/
theorem Kept.discard {workers : Finset Nat} {f : φ} {s : Hooked φ κ} {w : Nat} {g : φ}
    (h : Kept workers f s) (hw : w ∈ workers) (hduty : s.duty w = .taken (.fiber g))
    (hfree : ∀ w' ∈ workers, s.duty w' ≠ .executing g) (hterm : s.fiberState g = some .term) :
    Kept workers f (s.setDuty w .free) := by
  have hothers : ∀ w', w' ≠ w → (s.setDuty w .free).duty w' = s.duty w' :=
    fun w' hne => setDuty_other s .free hne
  refine ⟨⟨h.sound.tabled, h.sound.orderly, ?_⟩, ?_⟩
  · intro w' hw' f' hexecuting
    have hne : w' ≠ w := by
      rintro rfl
      simp at hexecuting
    exact h.sound.executing w' hw' f' (hothers w' hne ▸ hexecuting)
  · intro c hc
    have hframed := h.framed c hc
    have hfg : f ≠ g := by
      rintro rfl
      obtain ⟨timer, hpc⟩ := hframed.waiting hfree
      exact absurd ((hframed.parked timer hpc).symm.trans hterm) (by simp)
    refine hframed.frame ?_ (fun _ _ hw => hw) rfl ?_ (.refl h.sound.orderly)
    · have hmove := occurrences_move hw hothers f
      have hmanager : (s.setDuty w .free).manager = s.manager := rfl
      have hbefore : (s.duty w).takes f = 0 := by
        rw [hduty]
        simp [Duty.takes, Task.isFor, Ne.symm hfg]
      have hafter : ((s.setDuty w .free).duty w).takes f = 0 := by
        rw [setDuty_same]
        rfl
      rw [hbefore, hafter, hmanager] at hmove
      omega
    · intro w' _ hexecuting
      have hne : w' ≠ w := by
        rintro rfl
        simp [hduty] at hexecuting
      exact (hothers w' hne).trans hexecuting

/-- A worker starts or discards what it has taken. -/
theorem Kept.start {workers : Finset Nat} {f : φ} {s t : Hooked φ κ} {w : Nat} {g : φ}
    {task : Task φ (HookCallback κ)} (h : Kept workers f s) (hw : w ∈ workers)
    (hduty : s.duty w = .taken task) (hstep : s.start w g task = some t) : Kept workers f t := by
  unfold Hooked.start at hstep
  split at hstep
  · split at hstep
    · next hguard =>
      obtain ⟨rfl, hmutex⟩ := hguard
      have hfree := h.sound.unlocked hmutex
      split at hstep
      · cases hstep
        exact h.resume hw hduty hfree (fun f' hne => by simp [Task.isFor, Ne.symm hne])
          (fun _ => by simp [Task.isFor])
      · next hterm =>
        cases hstep
        exact h.discard hw hduty hfree hterm
      · cases hstep
    · cases hstep
  · split at hstep
    · next hguard =>
      cases hstep
      refine h.resume hw hduty ?_ (fun f' _ => rfl) (fun hne => absurd hguard.2 hne)
      intro w' hw' hexecuting
      exact absurd ((h.sound.executing w' hw' g hexecuting).2.symm.trans hguard.1) (by simp)
    · cases hstep
  · cases hstep

/-- A statement of `do_io` by the fiber `g` after which it goes on. -/
structure GoesOn (s t : Hooked φ κ) (g : φ) : Prop where
  duty : t.duty = s.duty
  mutex : t.mutex = s.mutex
  fiberState : t.fiberState = s.fiberState
  call : ∀ f, f ≠ g → t.call f = s.call f
  tabled : t.manager.Tabled
  timers : TimerManager.Keeps s.timers t.timers
  others : ∀ f, f ≠ g → t.manager.occurrences f = s.manager.occurrences f
  places : ∀ f, f ≠ g → ∀ fd e, t.manager.WaitsAt f fd e → s.manager.WaitsAt f fd e

private theorem goto_goesOn {s : Hooked φ κ} (hm : s.manager.Tabled) (hord : s.timers.Orderly)
    (g : φ) (c : DoIo) (pc : Pc) : GoesOn s (s.goto g c pc) g :=
  ⟨rfl, rfl, rfl, fun _ hne => Function.update_of_ne hne _ _, hm, .refl hord, fun _ _ => rfl,
    fun _ _ _ _ hw => hw⟩

theorem IoTo.goesOn {s t : Hooked φ κ} {w : Nat} {g : φ} {c : DoIo} (hm : s.manager.Tabled)
    (hord : s.timers.Orderly) (hto : IoTo s w g c t) :
    GoesOn s t g ∨ ∃ timer, c.pc = .yielding timer ∧
      t = (s.goto g c (.waiting timer)).park w g .ready := by
  have hother : ∀ (c' : Option DoIo) f, f ≠ g → Function.update s.call g c' f = s.call f :=
    fun _ f hne => Function.update_of_ne hne _ _
  cases hto with
  | jump pc infos now next =>
    exact Or.inl ⟨rfl, rfl, rfl, hother _, hm, .refl hord, fun _ _ => rfl, fun _ _ _ _ hw => hw⟩
  | @arm ms clock t front m now added =>
    have hkeeps := (TimerManager.addTimer_spec hord ms
      (some (.onTimer c.tinfo (.timeout ⟨c.tinfo, c.fd, c.event⟩))) false clock).2.1
    have hm' : m = (s.timers.addConditionTimer ms (.timeout ⟨c.tinfo, c.fd, c.event⟩) c.tinfo
      false clock).2.2 := by rw [added]
    exact Or.inl ⟨rfl, rfl, rfl, hother _, hm, hm' ▸ hkeeps, fun _ _ => rfl, fun _ _ _ _ hw => hw⟩
  | add now added =>
    obtain ⟨htabled, hoccurs, hplaces⟩ := IOManager.addEvent_registers hm added
    refine Or.inl ⟨rfl, rfl, rfl, hother _, htabled, .refl hord, fun f hf => ?_,
      fun f hf fd e hw => (hplaces f fd e hw).resolve_right (fun hand => hf hand.2.2.2.symm)⟩
    have hoccurs := hoccurs f
    rw [if_neg (fun hand => hf hand.2.2.symm)] at hoccurs
    exact hoccurs
  | yield now => exact Or.inr ⟨_, now, rfl⟩
  | @cancel timer pc infos now next =>
    have hkeeps := cancelOpt_keeps hord timer
    cases timer with
    | none =>
      exact Or.inl ⟨rfl, rfl, rfl, hother _, hm, hkeeps, fun _ _ => rfl, fun _ _ _ _ hw => hw⟩
    | some i =>
      exact Or.inl ⟨rfl, rfl, rfl, hother _, hm, hkeeps, fun _ _ => rfl, fun _ _ _ _ hw => hw⟩
  | leave => exact Or.inl ⟨rfl, rfl, rfl, hother _, hm, .refl hord, fun _ _ => rfl, fun _ _ _ _ hw => hw⟩

theorem GoesOn.sound {workers : Finset Nat} {s t : Hooked φ κ} {g : φ} (h : Sound workers s)
    (hg : GoesOn s t g) : Sound workers t := by
  refine ⟨hg.tabled, hg.timers.orderly, ?_⟩
  rw [hg.duty, hg.mutex, hg.fiberState]
  exact h.executing

/-- A worker lets go of a fiber that yields or ends. -/
theorem Sound.park {workers : Finset Nat} {s : Hooked φ κ} {w : Nat} {g : φ} (h : Sound workers s)
    (hw : w ∈ workers) (hduty : s.duty w = .executing g) (state : FiberState) :
    Sound workers (s.park w g state) := by
  refine ⟨h.tabled, h.orderly, ?_⟩
  intro w' hw' f hexecuting
  have hne : w' ≠ w := by
    rintro rfl
    simp [Hooked.park] at hexecuting
  have hexecuting' : s.duty w' = .executing f := (setDuty_other s .free hne).symm.trans hexecuting
  obtain ⟨hmutex, hrunning⟩ := h.executing w' hw' f hexecuting'
  have hfg : f ≠ g := by
    rintro rfl
    exact hne (Option.some.inj (hmutex.symm.trans (h.executing w hw f hduty).1))
  exact ⟨(Function.update_of_ne hfg _ _).trans hmutex,
    (Function.update_of_ne hfg _ _).trans hrunning⟩

private theorem occurrences_park {workers : Finset Nat} {s : Hooked φ κ} {w : Nat} {g : φ}
    (hw : w ∈ workers) (hduty : s.duty w = .executing g) (state : FiberState) (f : φ) :
    (s.park w g state).occurrences workers f = s.occurrences workers f := by
  have hmove := occurrences_move (t := s.park w g state) hw
    (fun w' hne => setDuty_other s .free hne) f
  have hmanager : (s.park w g state).manager = s.manager := rfl
  have hafter : ((s.park w g state).duty w).takes f = 0 := by
    simp [Hooked.park, Duty.takes]
  rw [takes_executing hduty, hafter, hmanager] at hmove
  omega

/-- Another fiber is parked. -/
theorem Kept.park {workers : Finset Nat} {f g : φ} {s : Hooked φ κ} {w : Nat}
    (h : Kept workers f s) (hw : w ∈ workers) (hduty : s.duty w = .executing g)
    (hother : s.call f ≠ none → f ≠ g) (state : FiberState) :
    Kept workers f (s.park w g state) := by
  refine ⟨h.sound.park hw hduty state, ?_⟩
  intro c hc
  have hc' : s.call f = some c := hc
  have hfg : f ≠ g := hother (by simp [hc'])
  refine (h.framed c hc').frame (occurrences_park hw hduty state f) (fun _ _ hw => hw)
    (Function.update_of_ne hfg _ _) ?_ (.refl h.sound.orderly)
  intro w' _ hexecuting
  have hne : w' ≠ w := by
    rintro rfl
    exact hfg (by simpa [hduty, eq_comm] using hexecuting)
  exact (setDuty_other s .free hne).trans hexecuting

/-- A statement of `do_io` by another fiber. -/
theorem Kept.io_other {workers : Finset Nat} {f g : φ} {s t : Hooked φ κ} {w : Nat} {c : DoIo}
    (h : Kept workers f s) (hw : w ∈ workers) (hduty : s.duty w = .executing g) (hfg : f ≠ g)
    (hto : IoTo s w g c t) : Kept workers f t := by
  have hgoes : ∀ u, GoesOn s u g → Kept workers f u := by
    intro u hg
    refine ⟨hg.sound h.sound, ?_⟩
    intro d hd
    refine (h.framed d ((hg.call f hfg).symm.trans hd)).frame ?_ (hg.places f hfg)
      (congrFun hg.fiberState f) ?_ hg.timers
    · exact occurrences_manager hg.duty (k := 0) (hg.others f hfg)
    · intro w' _ hexecuting
      exact (congrFun hg.duty w').trans hexecuting
  rcases hto.goesOn h.sound.tabled h.sound.orderly with hg | ⟨timer, -, rfl⟩
  · exact hgoes t hg
  · have hgoto := goto_goesOn h.sound.tabled h.sound.orderly g c (.waiting timer)
    exact (hgoes _ hgoto).park hw hduty (fun _ => hfg) .ready

/-- A fiber that goes on is executed, so its frame has to account for its places and timers. -/
theorem GoesOn.kept {workers : Finset Nat} {f : φ} {s t : Hooked φ κ} {w : Nat} {c : DoIo}
    (h : Kept workers f s) (hg : GoesOn s t f) (hw : w ∈ workers) (hduty : s.duty w = .executing f)
    (hc : t.call f = some c)
    (hoccurs : t.occurrences workers f = if c.pc.waits then 1 else 0)
    (hplace : ∀ fd e, t.manager.WaitsAt f fd e → fd = c.fd ∧ e = c.event)
    (hpc : ∀ timer, c.pc ≠ .waiting timer)
    (htimers : ∀ i ∈ c.made, t.timers.OneShot i ∧ (c.pc.timer ≠ some i → i ∉ t.timers.timers)) :
    Kept workers f t := by
  refine ⟨hg.sound h.sound, ?_⟩
  intro d hd
  obtain rfl : c = d := Option.some.inj (hc.symm.trans hd)
  exact ⟨hoccurs, hplace, fun timer he => absurd he (hpc timer),
    fun _ => ⟨w, hw, (congrFun hg.duty w).trans hduty⟩, htimers⟩

/-- Arming adds a fresh timer to the ones that the call has made. -/
theorem made_armed {m m' : TimerManager (HookCallback κ)} {made : List TimerId} {ms : Nat}
    {cb : Handler κ} {cond : InfoId} {clock : Int} {i : TimerId} {front : Bool}
    (hord : m.Orderly) (hmade : ∀ j ∈ made, m.OneShot j ∧ j ∉ m.timers)
    (hkeeps : TimerManager.Keeps m m')
    (added : m.addConditionTimer ms cb cond false clock = (i, front, m')) :
    ∀ j ∈ i :: made, m'.OneShot j ∧ (some i ≠ some j → j ∉ m'.timers) := by
  have hspec := TimerManager.addTimer_spec hord ms (some (.onTimer cond cb)) false clock
  unfold TimerManager.addConditionTimer at added
  rw [added] at hspec
  obtain ⟨rfl, -, hnew⟩ := hspec
  intro j hj
  rcases List.mem_cons.mp hj with rfl | hj
  · exact ⟨hnew rfl (by simp), fun hne => absurd rfl hne⟩
  · obtain ⟨honce, hgone⟩ := hmade j hj
    exact ⟨hkeeps.oneShot j honce, fun _ => hkeeps.gone j honce hgone⟩

/-- The fiber that has registered yields. -/
theorem Kept.wait {workers : Finset Nat} {f : φ} {s : Hooked φ κ} {w : Nat} {c : DoIo}
    {timer : Option TimerId} (h : Kept workers f s) (hw : w ∈ workers)
    (hduty : s.duty w = .executing f) (hc : s.call f = some c) (hpc : c.pc = .yielding timer) :
    Kept workers f ((s.goto f c (.waiting timer)).park w f .ready) := by
  obtain ⟨hoccurs, hplace, -, -, htimers⟩ := h.framed c hc
  have hgoto := goto_goesOn h.sound.tabled h.sound.orderly f c (.waiting timer)
  refine ⟨(hgoto.sound h.sound).park hw hduty .ready, ?_⟩
  intro d hd
  have hd' : some { c with pc := .waiting timer } = some d :=
    (Function.update_self f _ s.call).symm.trans hd
  obtain rfl := Option.some.inj hd'
  refine ⟨?_, hplace, fun _ _ => Function.update_self _ _ _, fun hpc' => absurd rfl (hpc' timer), ?_⟩
  · have hpark := occurrences_park (s := s.goto f c (.waiting timer)) hw hduty .ready f
    rw [hpark, occurrences_manager hgoto.duty (k := 0) rfl, hoccurs, hpc]
    rfl
  · rw [hpc] at htimers
    exact htimers

/-- A statement of `do_io` by the fiber itself. -/
theorem Kept.io_self {workers : Finset Nat} {f : φ} {s t : Hooked φ κ} {w : Nat} {c : DoIo}
    (h : Kept workers f s) (hw : w ∈ workers) (hduty : s.duty w = .executing f)
    (hc : s.call f = some c) (hto : IoTo s w f c t) : Kept workers f t := by
  obtain ⟨hoccurs, hplace, -, -, htimers⟩ := h.framed c hc
  have hgone : c.pc.timer = none → ∀ i ∈ c.made, i ∉ s.timers.timers := by
    intro hnone i hi
    exact (htimers i hi).2 (by simp [hnone])
  rcases hto.goesOn h.sound.tabled h.sound.orderly with hg | ⟨timer, hpc, rfl⟩
  · have hoccurs' : t.manager.occurrences f = s.manager.occurrences f →
        t.occurrences workers f = if c.pc.waits then 1 else 0 :=
      fun hm => (occurrences_manager hg.duty (k := 0) hm).trans hoccurs
    have honce : ∀ i ∈ c.made, t.timers.OneShot i := fun i hi => hg.timers.oneShot i (htimers i hi).1
    cases hto with
    | jump pc infos now next =>
      refine hg.kept h hw hduty (Function.update_self _ _ _) ?_ hplace next.ne_waiting ?_
      · rw [hoccurs' rfl, now.2, next.2]
      · exact fun i hi => ⟨honce i hi, fun _ => hgone now.1 i hi⟩
    | @arm ms clock i front m now added =>
      refine hg.kept h hw hduty (Function.update_self _ _ _) ?_ hplace (fun timer => by simp) ?_
      · rw [hoccurs' rfl, now.2]
        rfl
      · exact made_armed h.sound.orderly (fun j hj => ⟨(htimers j hj).1, hgone now.1 j hj⟩) hg.timers
          added
    | @add timer ok rt m now added =>
      obtain ⟨-, hregisters, hplaces⟩ := IOManager.addEvent_registers h.sound.tabled added
      rw [now] at htimers
      refine hg.kept h hw hduty (Function.update_self _ _ _) ?_ ?_ ?_ ?_
      · have hbefore : s.occurrences workers f = 0 := by rw [hoccurs, now]; rfl
        rw [occurrences_manager hg.duty (hregisters f), hbefore]
        by_cases hrt : rt = 0
        · simp [hrt, Pc.waits]
        · simp [hrt, Pc.waits]
      · intro fd e hw'
        rcases hplaces f fd e hw' with hold | ⟨hfd, he, -⟩
        · exact hplace fd e hold
        · exact ⟨hfd, he⟩
      · intro timer'
        split <;> simp
      · intro i hi
        refine ⟨honce i hi, fun hne => (htimers i hi).2 ?_⟩
        by_cases hrt : rt = 0
        · simpa [hrt, Pc.timer] using hne
        · simpa [hrt, Pc.timer] using hne
    | yield now =>
      have hfree := congrFun hg.duty w
      rw [hduty] at hfree
      simp [Hooked.park] at hfree
    | @cancel timer pc infos now next =>
      have hwaits : c.pc.waits = false := by rcases now with hnow | hnow <;> rw [hnow] <;> rfl
      have htimer : c.pc.timer = timer := by rcases now with hnow | hnow <;> rw [hnow] <;> rfl
      refine hg.kept h hw hduty (Function.update_self _ _ _) ?_ ?_ next.ne_waiting ?_
      · rw [hoccurs' (by cases timer <;> rfl), hwaits, next.2]
      · cases timer <;> exact hplace
      · intro i hi
        refine ⟨honce i hi, fun _ => ?_⟩
        by_cases hi' : timer = some i
        · subst hi'
          exact TimerManager.cancel_gone h.sound.orderly (htimers i hi).1
        · exact hg.timers.gone i (htimers i hi).1 ((htimers i hi).2 (htimer ▸ hi'))
    | leave =>
      refine ⟨hg.sound h.sound, ?_⟩
      intro d hd
      cases (Function.update_self _ _ _).symm.trans hd
  · exact h.wait hw hduty hc hpc

end
end CoroutineRpc.Coroutine.Hooked
