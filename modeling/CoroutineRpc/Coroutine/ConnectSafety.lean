import CoroutineRpc.Coroutine.ConnectResult

/-! When a hooked `connect` can be believed: the fiber must only be woken by the end of the
handshake or of its time. -/
namespace CoroutineRpc.Coroutine.Connecting
variable {φ : Type}

/-- As long as nobody disturbs the call, it is woken by the end of the handshake or of its time. -/
structure Waking (me : φ) (s : Connecting φ) : Prop where
  queued : ((), .fiber me) ∈ s.manager.tasks → s.handshake.ended = true ∨ s.cancelled = true
  woken : s.pc = .woken ∨ s.pc = .test → s.handshake.ended = true ∨ s.cancelled = true
  decided : s.pc = .check → s.handshake.ended = true
  registered : s.pc ≠ .giveUp
  cancelling : s.timer = .cancelling → s.cancelled = true

/-- A call that goes on, with what it has to know there. -/
theorem Waking.goto {me : φ} {s : Connecting φ} (h : s.Waking me) {pc : ConnectPc}
    (hwoken : pc = .woken ∨ pc = .test → s.handshake.ended = true ∨ s.cancelled = true)
    (hdecided : pc = .check → s.handshake.ended = true) (hregistered : pc ≠ .giveUp) :
    (s.goto pc).Waking me := ⟨h.queued, hwoken, hdecided, hregistered, h.cancelling⟩

/-- A call that goes to a place where it knows nothing yet. -/
theorem Waking.early {me : φ} {s : Connecting φ} (h : s.Waking me) {pc : ConnectPc}
    (hpc : pc ∉ [ConnectPc.woken, .test, .check, .giveUp]) : (s.goto pc).Waking me := by
  simp only [List.mem_cons, List.not_mem_nil, or_false, not_or] at hpc
  obtain ⟨hwoken, htest, hcheck, hgiveUp⟩ := hpc
  exact h.goto (fun hp => absurd hp (not_or.mpr ⟨hwoken, htest⟩)) (fun hp => absurd hp hcheck) hgiveUp

theorem Waking.finish {me : φ} {s : Connecting φ} (h : s.Waking me) (r : Int) :
    (s.finish r).Waking me := by
  apply h.early
  simp

/-- The queue of a manager may lose tasks. -/
theorem Waking.setManager {me : φ} {s : Connecting φ} (h : s.Waking me)
    {m : IOManager Unit φ Unit} (hm : ((), .fiber me) ∈ m.tasks →
      ((), .fiber me) ∈ s.manager.tasks ∨ s.handshake.ended = true ∨ s.cancelled = true) :
    (s.setManager m).Waking me := by
  refine ⟨?_, h.woken, h.decided, h.registered, h.cancelling⟩
  intro hin
  rcases hm hin with hold | hend
  · exact h.queued hold
  · exact hend

theorem Waking.cancelTimer {me : φ} {s : Connecting φ} (h : s.Waking me) :
    s.cancelTimer.Waking me := by
  rw [Connecting.cancelTimer]
  split
  · exact ⟨h.queued, h.woken, h.decided, h.registered, fun ht => ConnectTimer.noConfusion ht⟩
  · exact h

private theorem cancelTimer_same (s : Connecting φ) :
    s.cancelTimer.handshake = s.handshake ∧ s.cancelTimer.cancelled = s.cancelled := by
  rw [cancelTimer]
  split
  · exact ⟨rfl, rfl⟩
  · exact ⟨rfl, rfl⟩

theorem Waking.connectF {me : φ} {s t : Connecting φ} (h : s.Waking me)
    {answer : ConnectAnswer} {r : Int} (hr : s.connectF answer = some (r, t)) :
    t.Waking me := by
  have hidle : ∀ handshake, s.handshake = .idle →
      Waking me { s with handshake := handshake } := by
    intro handshake hi
    have hnot : ¬ s.handshake.ended = true := by
      rw [hi]
      exact Bool.false_ne_true
    exact ⟨fun hin => Or.inr ((h.queued hin).resolve_left hnot),
      fun hp => Or.inr ((h.woken hp).resolve_left hnot), fun hp => absurd (h.decided hp) hnot,
      h.registered, h.cancelling⟩
  cases answer with
  | established | inProgress =>
    rw [Connecting.connectF] at hr
    split at hr
    · next hi =>
      cases hr
      exact hidle _ hi
    · cases hr
  | error errno =>
    cases hr
    exact h

private theorem addEvent_tasks {m m' : IOManager Unit φ Unit} {fd : Nat} {e : Event} {self : φ}
    {cb : Option Unit} {ok : Bool} {rt : Int} (h : m.addEvent fd e () self cb ok = some (rt, m')) :
    m'.tasks = m.tasks := by
  have hreserve : (m.reserve fd).tasks = m.tasks := by
    rw [IOManager.reserve]
    split
    · rfl
    · rfl
  have hctl : ∀ op mask r, (m.reserve fd).epollCtl op fd mask ok = r → r.2.tasks = m.tasks := by
    rintro op mask r rfl
    rw [← hreserve, IOManager.epollCtl]
    split
    · rfl
    · rfl
  rw [IOManager.addEvent] at h
  simp only at h
  split at h
  · cases h
    exact hreserve
  split at h
  · next hc =>
    cases h
    exact hctl _ _ _ hc
  · next hc =>
    split at h
    · cases h
      exact hctl _ _ _ hc
    · cases h

theorem Waking.enter {me : φ} {s : Connecting φ} (h : s.Waking me) (hookEnable : Bool)
    (ctx : Option FdCtx) : (s.enter hookEnable ctx).Waking me := by
  rw [Connecting.enter.eq_def]
  split
  · exact h.early (by simp)
  split
  · exact h.finish _
  split
  · exact h.finish _
  split
  · exact h.early (by simp)
  · exact h.early (by simp)

/-- A handshake that is over stays over. -/
theorem ended_of_moves {old new : Handshake} (h : old.moves new = true) (ho : old.ended = true) :
    new.ended = true := by
  cases old with
  | idle | inProgress | failed error => cases ho <;> cases h
  | established =>
    cases new with
    | failed error => rfl
    | idle | inProgress | established => cases h

private theorem otherStep_waking {fd : Nat} {me : φ} {s t : Connecting φ} {a : ConnectAction}
    (h : s.Waking me) (hu : s.Undisturbed fd me a)
    (ht : s.otherStep fd a = some t) : t.Waking me := by
  have hdisturb : ∀ {m : IOManager Unit φ Unit}, (((), .fiber me) ∈ m.tasks →
      ((), .fiber me) ∈ s.manager.tasks ∨ s.handshake.ended = true) → (s.setManager m).Waking me :=
    fun hm => h.setManager (fun hin => (hm hin).imp_right Or.inl)
  cases a with
  | settle handshake =>
    rw [otherStep] at ht
    split at ht
    · next hmoves =>
      cases ht
      have hkeep := ended_of_moves hmoves
      exact ⟨fun hin => (h.queued hin).imp_left hkeep, fun hp => (h.woken hp).imp_left hkeep,
        fun hp => hkeep (h.decided hp), h.registered, h.cancelling⟩
    · cases ht
  | collect =>
    rw [otherStep] at ht
    split at ht
    · cases ht
      exact ⟨h.queued, h.woken, h.decided, h.registered, fun ht => ConnectTimer.noConfusion ht⟩
    · cases ht
  | fire =>
    rw [otherStep] at ht
    split at ht
    · split at ht
      · cases ht
        exact ⟨fun _ => Or.inr rfl, fun _ => Or.inr rfl, h.decided, h.registered, fun _ => rfl⟩
      · cases ht
        exact ⟨h.queued, h.woken, h.decided, h.registered, fun ht => ConnectTimer.noConfusion ht⟩
    · cases ht
  | cancelTimedOut ok =>
    rw [otherStep] at ht
    split at ht
    · next hcancelling =>
      obtain ⟨r, -, rfl⟩ := Option.map_eq_some_iff.mp ht
      have hset := h.setManager (m := r.2) (fun _ => Or.inr (Or.inr (h.cancelling hcancelling)))
      exact ⟨hset.queued, hset.woken, hset.decided, hset.registered,
        fun ht => ConnectTimer.noConfusion ht⟩
    · cases ht
  | cancelEvent e ok | cancelAll ok =>
    obtain ⟨r, hr, rfl⟩ := Option.map_eq_some_iff.mp ht
    exact hdisturb (hu r hr)
  | dispatch ready ok =>
    rw [otherStep] at ht
    split at ht
    · obtain ⟨m, hm, rfl⟩ := Option.map_eq_some_iff.mp ht
      exact hdisturb (hu m hm)
    · cases ht
  | _ => cases ht

private theorem waking_start {me : φ} {m : IOManager Unit φ Unit} (h : ((), .fiber me) ∉ m.tasks) :
    Waking me { manager := m } := by
  refine ⟨fun hin => absurd hin h, ?_, fun hp => ConnectPc.noConfusion hp, ConnectPc.noConfusion,
    fun ht => ConnectTimer.noConfusion ht⟩
  rintro (hp | hp)
  · cases hp
  · cases hp

section Steps
variable [DecidableEq φ] {fd : Nat} {me : φ} {s t : Connecting φ} {a : ConnectAction}

private theorem callStep_waking (h : s.Waking me) (hu : s.Undisturbed fd me a)
    (ht : s.callStep fd me a s.pc = some t) : t.Waking me := by
  rw [callStep.eq_def] at ht
  split at ht
  · cases ht
    exact h.enter _ _
  · obtain ⟨⟨r, u⟩, hr, rfl⟩ := Option.map_eq_some_iff.mp ht
    exact (h.connectF hr).finish r
  · obtain ⟨⟨r, u⟩, hr, rfl⟩ := Option.map_eq_some_iff.mp ht
    split
    · exact (h.connectF hr).early (by simp)
    · exact (h.connectF hr).finish r
  · split at ht
    · cases ht
      exact h.early (by simp)
    · cases ht
      have harmed : Waking me { s with timer := .armed } :=
        ⟨h.queued, h.woken, h.decided, h.registered, fun ht => ConnectTimer.noConfusion ht⟩
      exact harmed.early (by simp)
  · obtain ⟨r, hr, rfl⟩ := Option.map_eq_some_iff.mp ht
    rw [if_pos (hu r hr)]
    have htasks := addEvent_tasks hr
    have hset := h.setManager (m := r.2) (fun hin => Or.inl (htasks ▸ hin))
    exact hset.early (by simp)
  · next hpc => exact absurd hpc h.registered
  · split at ht
    · next hin =>
      cases ht
      exact (h.setManager (fun hleft => Or.inl (List.mem_of_mem_erase hleft))).goto
        (fun _ => h.queued (List.contains_iff_mem.mp hin)) ConnectPc.noConfusion
        ConnectPc.noConfusion
    · cases ht
  · next hpc =>
    cases ht
    obtain ⟨hhandshake, hcancelled⟩ := s.cancelTimer_same
    refine h.cancelTimer.goto ?_ ConnectPc.noConfusion ConnectPc.noConfusion
    rw [hhandshake, hcancelled]
    exact fun _ => h.woken (Or.inl hpc)
  · next hpc =>
    cases ht
    split
    · exact h.finish _
    · next hlive =>
      have hended := (h.woken (Or.inr hpc)).resolve_right hlive
      exact h.goto (fun _ => Or.inl hended) (fun _ => hended) ConnectPc.noConfusion
  · cases ht
    exact h.finish _
  · cases ht

private theorem step_waking (h : s.Waking me) (hu : s.Undisturbed fd me a)
    (ht : s.step fd me a = some t) : t.Waking me := by
  cases a with
  | settle handshake | collect | fire | cancelTimedOut ok | cancelEvent e ok | cancelAll ok
  | dispatch ready ok => exact otherStep_waking h hu ht
  | _ => exact callStep_waking h hu ht

/-- An undisturbed call looks at `SO_ERROR` only when the handshake is over. -/
theorem decided_of_waking (h : s.Waking me) (ht : s.step fd me a = some t) : s.Decided a := by
  cases a with
  | check ok =>
    cases hpc : s.pc with
    | check => exact fun _ => h.decided hpc
    | _ =>
      rw [step, hpc] at ht
      cases ht
  | _ => trivial

private theorem guarded_decided {as : List ConnectAction} (h : s.Waking me)
    (hu : Transition.Guarded (step fd me) (Undisturbed fd me) s as) :
    Transition.Guarded (step fd me) Decided s as := by
  induction as generalizing s with
  | nil => trivial
  | cons a as ih =>
    intro t ht
    obtain ⟨hg, hrest⟩ := hu t ht
    exact ⟨decided_of_waking h ht, ih (step_waking h hg ht) hrest⟩

end Steps

/-- A hooked `connect` can be believed in a run exactly when the handshake is over at each look at
`SO_ERROR` that succeeds. So it is in every run of a fiber that nothing is queued for, if the
registration succeeds and nobody wakes the fiber while the handshake is in progress. -/
theorem always_sound_iff {φ : Type} [DecidableEq φ] (fd : Nat) (self : φ)
    (m : IOManager Unit φ Unit) (as : List ConnectAction) :
    (Transition.Always (step fd self) Sound { manager := m } as ↔
      Transition.Guarded (step fd self) Decided { manager := m } as) ∧
    (((), .fiber self) ∉ m.tasks →
      Transition.Guarded (step fd self) (Undisturbed fd self) { manager := m } as →
      Transition.Guarded (step fd self) Decided { manager := m } as) := by
  constructor
  · exact Transition.always_iff_of_step (fun _ _ _ hs ht => step_sound_iff hs ht)
      (sound_of_running (fun _ _ => ConnectPc.noConfusion))
  · exact fun hqueue hu => guarded_decided (waking_start hqueue) hu

/-- The hooked call on a new socket, up to the handshake that goes on. -/
def attempted : List ConnectAction :=
  [.enter true (some { isSocket := true }),
    .connectF .inProgress]

/-- A call that is woken by the end of the handshake. -/
theorem established_awaited :
    Transition.Always (step 5 ()) Sound { manager := {} } (attempted ++ [.arm none, .add true,
      .settle .established, .dispatch { fd := 5, epollOut := true } true, .resume, .cancelTimer,
      .testCancelled, .check true]) := by
  obtain ⟨hiff, hguarded⟩ := always_sound_iff 5 () {} (attempted ++ [.arm none, .add true,
    .settle .established, .dispatch { fd := 5, epollOut := true } true, .resume, .cancelTimer,
    .testCancelled, .check true])
  apply hiff.mpr
  apply hguarded List.not_mem_nil
  refine .cons rfl trivial (.cons rfl trivial (.cons rfl trivial (.cons rfl ?_ (.cons rfl trivial
    (.cons rfl ?_ (.cons rfl trivial (.cons rfl trivial (.cons rfl trivial (.cons rfl trivial
      trivial)))))))))
  · intro r hr
    cases hr
    rfl
  · exact fun _ _ _ => Or.inr rfl

private theorem not_always_sound {as : List ConnectAction} {s : Connecting Unit}
    (hrun : Transition.run (step 5 ()) { manager := {} } as = some s)
    (hpc : s.pc = .returned 0 .inProgress) :
    ¬ Transition.Always (step 5 ()) Sound { manager := {} } as := by
  intro halways
  rcases halways.finish hrun 0 .inProgress hpc with ⟨-, hestablished⟩ | hfail
  · cases hestablished
  · cases hfail

/-- The call answers 0 in the middle of the handshake: the registration fails, or another fiber
cancels it. -/
theorem success_in_progress :
    ¬ Transition.Always (step 5 ()) Sound { manager := {} }
      (attempted ++ [.arm none, .add false, .giveUp, .check true]) ∧
    ¬ Transition.Always (step 5 ()) Sound { manager := {} }
      (attempted ++ [.arm none, .add true, .cancelEvent .write true, .resume, .cancelTimer,
        .testCancelled, .check true]) :=
  ⟨not_always_sound (s := _) rfl rfl, not_always_sound (s := _) rfl rfl⟩

end CoroutineRpc.Coroutine.Connecting
