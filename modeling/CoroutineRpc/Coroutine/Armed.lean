import CoroutineRpc.Coroutine.TimerSpec
import CoroutineRpc.Library.Transition

/-! Which histories keep every armed timer in `m_timers`. The set is ordered by deadlines
alone, so an insertion at a deadline that is taken loses the timer. -/
namespace CoroutineRpc.Coroutine

/-- A manager in use, the timers whose `cancel` has returned true and those that a pass has
collected. -/
structure History (γ ω : Type) where
  manager : TimerManager (Callback γ ω)
  cancelled : List TimerId := []
  collected : List TimerId := []

/-- The operations on a manager, each with the clock readings that it makes. -/
inductive TimerOp (γ ω : Type) where
  | addTimer (ms : Nat) (cb : Option γ) (recurring : Bool) (now : Int)
  | addConditionTimer (ms : Nat) (cb : γ) (weakCond : ω) (recurring : Bool) (now : Int)
  | cancel (t : TimerId)
  | refresh (t : TimerId) (now : Int)
  | reset (t : TimerId) (ms : Nat) (fromNow : Bool) (now : Int)
  | getNextTimer (now : Int)
  | listExpiredCb (now now' : Int)

namespace History
variable {γ ω : Type}

/-- Only existing timers are used, and the clock is not found to be set back by more than an
hour. -/
def Legal (h : History γ ω) : TimerOp γ ω → Prop
  | .cancel t | .refresh t _ | .reset t _ _ _ => t < h.manager.created
  | .listExpiredCb _ now' => (h.manager.detectClockRollover now').1 = false
  | _ => True

instance (h : History γ ω) (op : TimerOp γ ω) : Decidable (h.Legal op) := by
  cases op <;> unfold Legal <;> infer_instance

def apply (h : History γ ω) : TimerOp γ ω → Option (History γ ω)
  | .addTimer ms cb recurring now =>
    let (_, _, m) := h.manager.addTimer ms (cb.map .call) recurring now
    some { h with manager := m }
  | .addConditionTimer ms cb weakCond recurring now =>
    let (_, _, m) := h.manager.addConditionTimer ms cb weakCond recurring now
    some { h with manager := m }
  | .cancel t =>
    let (done, m) := h.manager.cancel t
    some { h with manager := m, cancelled := if done then t :: h.cancelled else h.cancelled }
  | .refresh t now => some { h with manager := (h.manager.refresh t now).2 }
  | .reset t ms fromNow now => some { h with manager := (h.manager.reset t ms fromNow now).2 }
  | .getNextTimer now => some { h with manager := (h.manager.getNextTimer now).2 }
  | .listExpiredCb now now' =>
    (h.manager.listExpiredCb now now' h.manager.timers.length).map (fun r =>
      { h with manager := r.2, collected := r.1.map (·.1) ++ h.collected })

def step (h : History γ ω) (op : TimerOp γ ω) : Option (History γ ω) :=
  if h.Legal op then h.apply op else none

/-- A manager that has just been constructed. -/
def initial (clock : Int) : History γ ω where
  manager := { previousTime := clock }

/-- Added, not cancelled and, unless it recurs, not collected. -/
def Armed (h : History γ ω) (t : TimerId) : Prop :=
  t < h.manager.created ∧ t ∉ h.cancelled ∧
    ((h.manager.objects t).recurring = true ∨ t ∉ h.collected)

/-- `m_timers` is the set of armed timers. -/
def Exact (h : History γ ω) : Prop := ∀ t, t ∈ h.manager.timers ↔ h.Armed t

/-- No timer but `t` itself has the deadline that `t` is about to get. -/
def Free (h : History γ ω) (t : TimerId) (deadline : Int) : Prop :=
  ∀ u ∈ h.manager.timers, u ≠ t → h.manager.next u ≠ deadline

/-- The operation gives no two timers of the set the same deadline, and a pass no recurring timer
one that has already passed. -/
def NoCollision (h : History γ ω) : TimerOp γ ω → Prop
  | .addTimer ms _ _ now => h.Free h.manager.created (deadline now ms)
  | .addConditionTimer ms _ _ _ now => h.Free h.manager.created (deadline now ms)
  | .cancel _ => True
  | .refresh t now => (h.manager.objects t).cb ≠ none →
      h.Free t (deadline now (h.manager.objects t).ms)
  | .reset t ms fromNow now => (h.manager.objects t).cb ≠ none →
      (ms = (h.manager.objects t).ms ∧ fromNow = false) ∨
      h.Free t (deadline ((h.manager.objects t).start fromNow now) ms)
  | .getNextTimer _ => True
  | .listExpiredCb now _ => h.manager.Later now ∧ h.manager.Apart now

/-- What every history keeps, whether or not timers get lost. -/
structure Sound (h : History γ ω) : Prop where
  ordered : h.manager.Ordered
  known : ∀ t ∈ h.manager.timers, t < h.manager.created
  live : ∀ t, (h.manager.objects t).cb ≠ none → h.Armed t
  cancelled : ∀ t ∈ h.cancelled, t < h.manager.created
  collected : ∀ t ∈ h.collected, t < h.manager.created

private theorem initial_sound (clock : Int) : (initial clock : History γ ω).Sound where
  ordered := List.Pairwise.nil
  known _ ht := absurd ht List.not_mem_nil
  live _ ht := absurd rfl ht
  cancelled _ ht := absurd ht List.not_mem_nil
  collected _ ht := absurd ht List.not_mem_nil

private theorem initial_exact (clock : Int) : (initial clock : History γ ω).Exact := by
  intro t
  constructor
  · intro ht
    cases ht
  · intro ht
    exact absurd ht.1 (Nat.not_lt_zero t)

/-- Re-keying an armed timer keeps the set exact unless the new deadline is taken. -/
theorem rekey_step {h : History γ ω} (hs : h.Sound) {t : TimerId}
    {x : Timer (Callback γ ω)} {m' : TimerManager (Callback γ ω)}
    (he : ∀ u, u ≠ t → (u ∈ h.manager.timers ↔ h.Armed u)) (ht : h.Armed t)
    (hr : TimerManager.Rekeyed h.manager t x m')
    (hkind : x.recurring = (h.manager.objects t).recurring ∨ t ∉ h.collected) :
    Sound { h with manager := m' } ∧
      (Exact { h with manager := m' } ↔ h.Free t x.next) := by
  have harmed : ∀ u, Armed { h with manager := m' } u ↔ h.Armed u := by
    intro u
    by_cases hu : u = t
    · subst hu
      refine iff_of_true ⟨hr.created ▸ ht.1, ht.2.1, ?_⟩ ht
      rcases hkind with hkind | hout
      · simpa only [hr.same, hkind] using ht.2.2
      · exact Or.inr hout
    · simp only [Armed, hr.created, hr.other u hu]
  constructor
  · refine ⟨hr.ordered, ?_, ?_, ?_, ?_⟩
    · intro u hu
      by_cases hut : u = t
      · subst hut
        exact hr.created ▸ ht.1
      · exact hr.created ▸ hs.known u ((hr.mem_other u hut).mp hu)
    · intro u hcb
      rw [harmed]
      by_cases hut : u = t
      · exact hut ▸ ht
      · exact hs.live u (hr.other u hut ▸ hcb)
    · exact fun u hu => hr.created ▸ hs.cancelled u hu
    · exact fun u hu => hr.created ▸ hs.collected u hu
  · constructor
    · intro hexact
      exact hr.mem_self.mp ((hexact t).mpr ((harmed t).mpr ht))
    · intro hfree u
      rw [harmed]
      by_cases hut : u = t
      · subst hut
        exact iff_of_true (hr.mem_self.mpr hfree) ht
      · exact (hr.mem_other u hut).trans (he u hut)

/-- The flag that suppresses a second `tickle` has no part in the set. -/
theorem addShared_rekeyed {m m₀ : TimerManager (Callback γ ω)} {t : TimerId}
    {x : Timer (Callback γ ω)} (hr : TimerManager.Rekeyed m₀ t x (m.insert t)) :
    TimerManager.Rekeyed m₀ t x (m.addShared t).2 :=
  ⟨hr.ordered, hr.created, hr.same, hr.other, hr.mem_other, hr.mem_self, hr.previousTime⟩

private theorem add_step {h : History γ ω} (hs : h.Sound) (he : h.Exact) {ms : Nat}
    {cb : Option (Callback γ ω)} {recurring : Bool} {now : Int} :
    Sound { h with manager := (h.manager.addTimer ms cb recurring now).2.2 } ∧
      (Exact { h with manager := (h.manager.addTimer ms cb recurring now).2.2 } ↔
        h.Free h.manager.created (deadline now ms)) := by
  -- the manager that has made room for the new timer
  let h₀ : History γ ω := { h with manager := { h.manager with created := h.manager.created + 1 } }
  let x : Timer (Callback γ ω) :=
    { recurring := recurring, ms := ms, next := deadline now ms, cb := cb }
  have hnew : h.manager.created ∉ h.manager.timers :=
    fun hmem => Nat.lt_irrefl _ (hs.known _ hmem)
  have harmed : ∀ u, h.Armed u → h₀.Armed u := fun u hu => ⟨Nat.lt_succ_of_lt hu.1, hu.2⟩
  have hs₀ : h₀.Sound := ⟨hs.ordered, fun u hu => Nat.lt_succ_of_lt (hs.known u hu),
    fun u hu => harmed u (hs.live u hu),
    fun u hu => Nat.lt_succ_of_lt (hs.cancelled u hu),
    fun u hu => Nat.lt_succ_of_lt (hs.collected u hu)⟩
  have he₀ : ∀ u, u ≠ h.manager.created → (u ∈ h₀.manager.timers ↔ h₀.Armed u) := by
    intro u hu
    refine (he u).trans ⟨harmed u, ?_⟩
    rintro ⟨hlt, hrest⟩
    exact ⟨Nat.lt_of_le_of_ne (Nat.lt_succ_iff.mp hlt) hu, hrest⟩
  have hcollected : h.manager.created ∉ h.collected := fun hmem => Nat.lt_irrefl _ (hs.collected _ hmem)
  have ht₀ : h₀.Armed h.manager.created :=
    ⟨Nat.lt_succ_self _, fun hmem => Nat.lt_irrefl _ (hs.cancelled _ hmem), Or.inr hcollected⟩
  have hr := addShared_rekeyed (TimerManager.rekeyed_insert hs₀.ordered (fun _ => x) hnew)
  exact rekey_step hs₀ he₀ ht₀ hr (Or.inr hcollected)

private theorem cancel_step {h : History γ ω} (hs : h.Sound) (he : h.Exact) (t : TimerId) :
    let r := h.manager.cancel t
    let h' : History γ ω :=
      { h with manager := r.2, cancelled := if r.1 then t :: h.cancelled else h.cancelled }
    h'.Sound ∧ h'.Exact := by
  cases hcb : (h.manager.objects t).cb with
  | none =>
    simp only [TimerManager.cancel, hcb]
    exact ⟨hs, he⟩
  | some cb =>
    let m' := h.manager.modify t (fun x => { x with cb := none })
    have ht : h.Armed t := hs.live t (by simp [hcb])
    have hord : m'.Ordered := hs.ordered.modify_keep rfl
    have hfind : m'.find t = some t := TimerManager.find_self hord ((he t).mpr ht)
    have hcancel : h.manager.cancel t = (true, m'.erase t) := by
      simp only [TimerManager.cancel, hcb]
      rw [hfind]
    simp only [hcancel, if_true]
    have hmem := TimerManager.mem_erase hord t
    have hobject : ∀ u, ((m'.erase t).objects u).recurring = (h.manager.objects u).recurring := by
      intro u
      by_cases hu : u = t
      · subst hu
        simp [m']
      · simp [m', hu]
    have harmed : ∀ u, Armed { h with manager := m'.erase t, cancelled := t :: h.cancelled } u ↔
        u ≠ t ∧ h.Armed u := by
      intro u
      simp only [Armed, hobject u, List.mem_cons, not_or]
      exact ⟨fun h => ⟨h.2.1.1, h.1, h.2.1.2, h.2.2⟩, fun h => ⟨h.2.1, ⟨h.1, h.2.2.1⟩, h.2.2.2⟩⟩
    refine ⟨⟨hord.erase t, fun u hu => hs.known u ((hmem u).mp hu).2, ?_, ?_, hs.collected⟩, ?_⟩
    · intro u hu
      have hut : u ≠ t := by
        rintro rfl
        simp [m'] at hu
      simp only [m', TimerManager.erase_objects, TimerManager.modify_other _ _ hut] at hu
      exact (harmed u).mpr ⟨hut, hs.live u hu⟩
    · exact List.forall_mem_cons.mpr ⟨ht.1, hs.cancelled⟩
    · intro u
      rw [harmed, hmem u]
      exact and_congr_right' (he u)

private theorem refresh_step {h : History γ ω} (hs : h.Sound) (he : h.Exact) (t : TimerId)
    (now : Int) : let h' : History γ ω := { h with manager := (h.manager.refresh t now).2 }
    h'.Sound ∧ (h'.Exact ↔ h.NoCollision (.refresh t now)) := by
  cases hcb : (h.manager.objects t).cb with
  | none =>
    simp only [TimerManager.refresh, NoCollision, hcb]
    exact ⟨hs, iff_of_true he (fun hne => absurd rfl hne)⟩
  | some cb =>
    have ht : h.Armed t := hs.live t (by simp [hcb])
    have hfind := TimerManager.find_self hs.ordered ((he t).mpr ht)
    have hr := TimerManager.rekeyed_erase_insert hs.ordered t
      (fun x => { x with next := deadline now x.ms })
    obtain ⟨hsound, hexact⟩ := rekey_step hs (fun u _ => he u) ht hr (Or.inl rfl)
    have hguard : h.NoCollision (.refresh t now) ↔
        h.Free t (deadline now (h.manager.objects t).ms) := by simp [NoCollision, hcb]
    simp only [TimerManager.refresh, hcb, hfind]
    exact ⟨hsound, hexact.trans hguard.symm⟩

private theorem reset_step {h : History γ ω} (hs : h.Sound) (he : h.Exact) (t : TimerId) (ms : Nat)
    (fromNow : Bool) (now : Int) :
    let h' : History γ ω := { h with manager := (h.manager.reset t ms fromNow now).2 }
    h'.Sound ∧ (h'.Exact ↔ h.NoCollision (.reset t ms fromNow now)) := by
  by_cases hsame : ms = (h.manager.objects t).ms ∧ fromNow = false
  · simp only [TimerManager.reset, if_pos hsame]
    exact ⟨hs, iff_of_true he (fun _ => Or.inl hsame)⟩
  cases hcb : (h.manager.objects t).cb with
  | none =>
    simp only [TimerManager.reset, if_neg hsame, TimerManager.resetErase, NoCollision, hcb]
    exact ⟨hs, iff_of_true he (fun hne => absurd rfl hne)⟩
  | some cb =>
    have ht : h.Armed t := hs.live t (by simp [hcb])
    have hfind := TimerManager.find_self hs.ordered ((he t).mpr ht)
    have hr := addShared_rekeyed (TimerManager.rekeyed_erase_insert hs.ordered t (fun x => { x with
      ms := ms, next := deadline (x.start fromNow now) ms }))
    obtain ⟨hsound, hexact⟩ := rekey_step hs (fun u _ => he u) ht hr (Or.inl rfl)
    have hguard : h.NoCollision (.reset t ms fromNow now) ↔
        h.Free t (deadline ((h.manager.objects t).start fromNow now) ms) := by
      simp [NoCollision, hcb, hsame]
    simp only [TimerManager.reset, if_neg hsame, TimerManager.resetErase, hcb, hfind]
    exact ⟨hsound, hexact.trans hguard.symm⟩

/-- A collecting pass keeps the set exact unless it gives two survivors one deadline. -/
theorem collected_step {h : History γ ω} (hs : h.Sound) (he : h.Exact) {now now' : Int}
    {r : List (TimerId × Option (Callback γ ω))}
    {m' : TimerManager (Callback γ ω)}
    (hc : TimerManager.Collected { h.manager with previousTime := now' } now r m') :
    let h' : History γ ω := { h with manager := m', collected := r.map (·.1) ++ h.collected }
    h'.Sound ∧ (h'.Exact ↔ h.manager.Apart now) := by
  intro h'
  have hids : r.map (·.1) = h.manager.expired now := by
    rw [hc.collected, List.map_map]
    exact List.map_id _
  have hexpired : ∀ t ∈ h.manager.expired now, t ∈ h.manager.timers ∧ h.manager.next t ≤ now := by
    intro t ht
    simpa [TimerManager.expired] using ht
  have hobject : ∀ t, (m'.objects t).recurring = (h.manager.objects t).recurring := by
    intro t
    by_cases ht : t ∈ h.manager.expired now
    · rw [hc.object t ht]
      exact (TimerManager.collectedObject_fields now _).1
    · rw [hc.frame t ht]
  have harmed : ∀ t, h'.Armed t ↔ h.Armed t ∧
      ((h.manager.objects t).recurring = true ∨ t ∉ h.manager.expired now) := by
    intro t
    simp only [h', Armed, hc.created, hobject t, hids, List.mem_append, not_or]
    tauto
  have hsurvives : ∀ t ∈ h.manager.timers, h.manager.Survives now t ↔
      ((h.manager.objects t).recurring = true ∨ t ∉ h.manager.expired now) := by
    intro t ht
    simp [TimerManager.Survives, TimerManager.expired, ht]
  constructor
  · refine ⟨hc.ordered, ?_, ?_, ?_, ?_⟩
    · exact fun t ht => hc.created ▸ hs.known t (hc.mem t ht).1
    · intro t hcb
      rw [harmed]
      by_cases ht : t ∈ h.manager.expired now
      · have hrec : (h.manager.objects t).recurring = true := by
          by_contra hrec
          simp [h', hc.object t ht, TimerManager.collectedObject, hrec] at hcb
        exact ⟨(he t).mp (hexpired t ht).1, Or.inl hrec⟩
      · rw [hc.frame t ht] at hcb
        exact ⟨hs.live t hcb, Or.inr ht⟩
    · exact fun t ht => hc.created ▸ hs.cancelled t ht
    · intro t ht
      rw [hc.created]
      rcases List.mem_append.mp ht with ht | ht
      · rw [hids] at ht
        exact hs.known t (hexpired t ht).1
      · exact hs.collected t ht
  · refine Iff.trans ?_ hc.keeps
    constructor
    · intro hexact t ht hsv
      exact (hexact t).mpr ((harmed t).mpr ⟨(he t).mp ht, (hsurvives t ht).mp hsv⟩)
    · intro hkeeps t
      rw [harmed, ← he t]
      constructor
      · intro ht
        obtain ⟨hmem, hsv⟩ := hc.mem t ht
        exact ⟨hmem, (hsurvives t hmem).mp hsv⟩
      · rintro ⟨hmem, hkept⟩
        exact hkeeps t hmem ((hsurvives t hmem).mpr hkept)

/-- A pass that ends keeps the set exact exactly when no timer comes back at a deadline that is
taken or has passed. -/
theorem listExpiredCb_step {h : History γ ω} (hs : h.Sound) (he : h.Exact) {now now' : Int}
    (hrollover : (h.manager.detectClockRollover now').1 = false)
    {r : List (TimerId × Option (Callback γ ω))} {m' : TimerManager (Callback γ ω)}
    (hrun : h.manager.listExpiredCb now now' h.manager.timers.length = some (r, m')) :
    let h' : History γ ω := { h with manager := m', collected := r.map (·.1) ++ h.collected }
    (h.NoCollision (.listExpiredCb now now') → h'.Sound) ∧
      (h'.Exact ↔ h.NoCollision (.listExpiredCb now now')) := by
  intro h'
  let m : TimerManager (Callback γ ω) := { h.manager with previousTime := now' }
  have hord : m.Ordered := hs.ordered
  have hloop : TimerManager.collectLoop now false h.manager.timers.length m = some (r, m') := by
    rw [← hrollover]
    exact hrun
  by_cases hlater : h.manager.Later now
  · have hfuel : (m.expired now).length ≤ h.manager.timers.length := List.length_filter_le _ _
    obtain ⟨r₁, m₁, hrun₁, hc⟩ := TimerManager.collectLoop_spec hord hfuel hlater
    cases hloop.symm.trans hrun₁
    obtain ⟨hsound, hexact⟩ := collected_step hs he hc
    exact ⟨fun _ => hsound, hexact.trans (and_iff_right hlater).symm⟩
  · have hno : ¬ h.NoCollision (.listExpiredCb now now') := fun hg => hlater hg.1
    refine ⟨fun hg => absurd hg hno, iff_of_false ?_ hno⟩
    intro hexact
    apply hlater
    intro t ht hdue hrec
    by_contra hearly
    have hgone := TimerManager.collectLoop_early hord hloop hrec hdue (not_lt.mp hearly)
    obtain ⟨hcreated, -, hfields⟩ := TimerManager.collectLoop_fields hloop
    have harmed := (he t).mp ht
    exact hgone ((hexact t).mpr ⟨hcreated.symm ▸ harmed.1, harmed.2.1,
      Or.inl ((hfields t).1.trans hrec)⟩)

/-- One operation keeps the set exact exactly when it gives no deadline twice. -/
theorem step_exact_iff {h h' : History γ ω} {op : TimerOp γ ω} (hs : h.Sound) (he : h.Exact)
    (hstep : h.step op = some h') :
    (h.NoCollision op → h'.Sound) ∧ (h'.Exact ↔ h.NoCollision op) := by
  obtain ⟨hlegal, hstep⟩ := Option.ite_none_right_eq_some.mp hstep
  cases op with
  | addTimer ms cb recurring now =>
    cases hstep
    obtain ⟨hsound, hexact⟩ := add_step hs he
    exact ⟨fun _ => hsound, hexact⟩
  | addConditionTimer ms cb weakCond recurring now =>
    cases hstep
    obtain ⟨hsound, hexact⟩ := add_step hs he
    exact ⟨fun _ => hsound, hexact⟩
  | cancel t =>
    cases hstep
    obtain ⟨hs', he'⟩ := cancel_step hs he t
    exact ⟨fun _ => hs', iff_of_true he' trivial⟩
  | refresh t now =>
    cases hstep
    obtain ⟨hsound, hexact⟩ := refresh_step hs he t now
    exact ⟨fun _ => hsound, hexact⟩
  | reset t ms fromNow now =>
    cases hstep
    obtain ⟨hsound, hexact⟩ := reset_step hs he t ms fromNow now
    exact ⟨fun _ => hsound, hexact⟩
  | getNextTimer now =>
    simp only [apply, TimerManager.getNextTimer_manager, Option.some.injEq] at hstep
    subst hstep
    exact ⟨fun _ => ⟨hs.ordered, hs.known, hs.live, hs.cancelled, hs.collected⟩,
      iff_of_true he trivial⟩
  | listExpiredCb now now' =>
    obtain ⟨⟨r, m'⟩, hrun, rfl⟩ := Option.map_eq_some_iff.mp hstep
    exact listExpiredCb_step hs he hlegal hrun

/-- Exactly the histories in which no operation gives a deadline to two timers keep every
armed timer, and no other, in `m_timers`. -/
theorem exact_iff_noCollision (clock : Int) (ops : List (TimerOp γ ω)) :
    Transition.Always step Exact (initial clock) ops ↔
      Transition.Guarded step NoCollision (initial clock) ops := by
  have haux : ∀ (h : History γ ω) op h', h.Sound → h.Exact → h.NoCollision op →
      h.step op = some h' → h'.Sound := fun _ _ _ hs he hg hstep => (step_exact_iff hs he hstep).1 hg
  have hiff : ∀ (h : History γ ω) op h', h.Sound → h.Exact → h.step op = some h' →
      (h'.Exact ↔ h.NoCollision op) := fun _ _ _ hs he hstep => (step_exact_iff hs he hstep).2
  exact Transition.always_iff_guarded haux hiff (initial_sound clock) (initial_exact clock)

/-- Two one-shot timers that are added at one clock reading with the same period. -/
def twins : List (TimerOp Unit Unit) :=
  [.addTimer 5 (some ()) false 0, .addTimer 5 (some ()) false 0]

/-- The second of them is armed but not in the set. -/
theorem second_twin_dropped :
    (∃ h, Transition.run step (initial 0) twins = some h ∧ h.manager.timers = [0] ∧ h.Armed 1) ∧
      ¬ Transition.Always step Exact (initial 0) twins := by
  have hrun : ∃ h, Transition.run step (initial 0) twins = some h ∧ h.manager.timers = [0] ∧
      h.Armed 1 := ⟨_, rfl, rfl, by decide, by decide, Or.inr (by decide)⟩
  refine ⟨hrun, ?_⟩
  intro halways
  obtain ⟨h, hfinish, htimers, harmed⟩ := hrun
  have hmem := (halways.finish hfinish 1).mpr harmed
  rw [htimers] at hmem
  exact absurd hmem (by decide)

end History
end CoroutineRpc.Coroutine
