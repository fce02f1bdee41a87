import CoroutineRpc.Coroutine.Connect

/-! What a hooked `connect` returns. All its ways to wait end at one look at `SO_ERROR`, which is
0 as well while the handshake is still in progress. -/
namespace CoroutineRpc.Coroutine.Connecting
variable {φ : Type}

theorem sound_of_running {s : Connecting φ} (h : ∀ r handshake, s.pc ≠ .returned r handshake) :
    s.Sound := fun r handshake hpc => absurd hpc (h r handshake)

private theorem sound_goto (s : Connecting φ) {pc : ConnectPc}
    (h : ∀ r handshake, pc ≠ .returned r handshake) : (s.goto pc).Sound := sound_of_running h

private theorem sound_fail (s : Connecting φ) : (s.finish (-1)).Sound := by
  intro r handshake hpc
  cases hpc
  exact Or.inr rfl

/-- A return of 0 is right exactly when the connection is there. -/
theorem sound_finish_zero (s : Connecting φ) :
    (s.finish 0).Sound ↔ s.handshake = .established := by
  constructor
  · intro hs
    rcases hs 0 s.handshake rfl with ⟨-, he⟩ | hr
    · exact he
    · exact absurd hr (by decide)
  · intro he r handshake hpc
    cases hpc
    exact Or.inl ⟨rfl, he⟩

private theorem sound_enter (hookEnable : Bool) (ctx : Option FdCtx) (s : Connecting φ) :
    (s.enter hookEnable ctx).Sound := by
  rw [enter.eq_def]
  split
  · exact s.sound_goto (fun _ _ => ConnectPc.noConfusion)
  split
  · exact s.sound_fail
  split
  · exact s.sound_fail
  split
  · exact s.sound_goto (fun _ _ => ConnectPc.noConfusion)
  · exact s.sound_goto (fun _ _ => ConnectPc.noConfusion)

/-- `connect_f` returns 0 with a connection, and -1 otherwise. -/
theorem connectF_spec {s t : Connecting φ} {answer : ConnectAnswer} {r : Int}
    (h : s.connectF answer = some (r, t)) :
    (r = 0 ∧ t.handshake = .established) ∨ r = -1 := by
  cases answer with
  | established =>
    rw [connectF] at h
    split at h
    · cases h
      exact Or.inl ⟨rfl, rfl⟩
    · cases h
  | inProgress =>
    rw [connectF] at h
    split at h
    · cases h
      exact Or.inr rfl
    · cases h
  | error errno =>
    cases h
    exact Or.inr rfl

private theorem sound_connectF {s t : Connecting φ} {answer : ConnectAnswer} {r : Int}
    (h : s.connectF answer = some (r, t)) : (t.finish r).Sound := by
  rcases connectF_spec h with ⟨rfl, he⟩ | rfl
  · exact t.sound_finish_zero.mpr he
  · exact t.sound_fail

/-- What happens around the call does not move it. -/
theorem otherStep_pc {fd : Nat} {s t : Connecting φ} {a : ConnectAction}
    (h : s.otherStep fd a = some t) : t.pc = s.pc := by
  cases a with
  | settle handshake | collect =>
    rw [otherStep] at h
    split at h
    · cases h
      rfl
    · cases h
  | fire =>
    rw [otherStep] at h
    split at h
    · split at h
      · cases h
        rfl
      · cases h
        rfl
    · cases h
  | cancelTimedOut ok =>
    rw [otherStep] at h
    split at h
    · obtain ⟨r, -, rfl⟩ := Option.map_eq_some_iff.mp h
      rfl
    · cases h
  | cancelEvent e ok | cancelAll ok =>
    obtain ⟨r, -, rfl⟩ := Option.map_eq_some_iff.mp h
    rfl
  | dispatch ready ok =>
    rw [otherStep] at h
    split at h
    · obtain ⟨m, -, rfl⟩ := Option.map_eq_some_iff.mp h
      rfl
    · cases h
  | _ => cases h

section Steps
variable [DecidableEq φ] {fd : Nat} {self : φ} {s t : Connecting φ} {a : ConnectAction}

/-- Only the look at `SO_ERROR` can go wrong. -/
theorem check_sound_iff {ok : Bool} (hpc : s.pc = .check)
    (h : s.step fd self (.check ok) = some t) : t.Sound ↔ s.Decided (.check ok) := by
  rw [step, hpc] at h
  cases h
  cases ok with
  | false =>
    rw [if_neg (fun hboth => Bool.false_ne_true hboth.1)]
    exact iff_of_true s.sound_fail (fun hf => absurd hf Bool.false_ne_true)
  | true =>
    have hdecided : s.Decided (.check true) ↔ s.handshake.ended = true :=
      ⟨fun hd => hd rfl, fun hd _ => hd⟩
    rw [hdecided]
    cases hh : s.handshake with
    | failed error =>
      rw [if_neg (by rintro ⟨-, hnone⟩; cases hnone)]
      exact iff_of_true s.sound_fail rfl
    | idle | inProgress =>
      rw [if_pos ⟨rfl, rfl⟩, sound_finish_zero, hh]
      exact iff_of_false Handshake.noConfusion Bool.false_ne_true
    | established =>
      rw [if_pos ⟨rfl, rfl⟩, sound_finish_zero, hh]
      exact iff_of_true rfl rfl

/-- A call of `callStep` at the point where it belongs. -/
theorem callStep_sound {pc : ConnectPc} (hcheck : ∀ ok, a ≠ .check ok)
    (h : s.callStep fd self a pc = some t) : t.Sound := by
  rw [callStep.eq_def] at h
  split at h
  · cases h
    exact sound_enter _ _ s
  · obtain ⟨⟨r, u⟩, hr, rfl⟩ := Option.map_eq_some_iff.mp h
    exact sound_connectF hr
  · obtain ⟨⟨r, u⟩, hr, rfl⟩ := Option.map_eq_some_iff.mp h
    split
    · exact u.sound_goto (fun _ _ => ConnectPc.noConfusion)
    · exact sound_connectF hr
  · split at h
    · cases h
      exact s.sound_goto (fun _ _ => ConnectPc.noConfusion)
    · cases h
      exact sound_goto _ (fun _ _ => ConnectPc.noConfusion)
  · obtain ⟨r, -, rfl⟩ := Option.map_eq_some_iff.mp h
    apply sound_goto
    intro _ _
    split
    · exact ConnectPc.noConfusion
    · exact ConnectPc.noConfusion
  · cases h
    exact sound_goto _ (fun _ _ => ConnectPc.noConfusion)
  · split at h
    · cases h
      exact sound_goto _ (fun _ _ => ConnectPc.noConfusion)
    · cases h
  · cases h
    exact sound_goto _ (fun _ _ => ConnectPc.noConfusion)
  · cases h
    split
    · exact s.sound_fail
    · exact s.sound_goto (fun _ _ => ConnectPc.noConfusion)
  · exact absurd rfl (hcheck _)
  · cases h

theorem step_sound_iff (hs : s.Sound) (h : s.step fd self a = some t) : t.Sound ↔ s.Decided a := by
  have hother : s.otherStep fd a = some t → t.Sound := by
    intro h' r handshake hpc
    rw [otherStep_pc h'] at hpc
    exact hs r handshake hpc
  cases a with
  | check ok =>
    cases hpc : s.pc with
    | check => exact check_sound_iff hpc h
    | _ =>
      rw [step, hpc] at h
      cases h
  | settle handshake | collect | fire | cancelTimedOut ok | cancelEvent e ok | cancelAll ok
  | dispatch ready ok => exact iff_of_true (hother h) trivial
  | _ => exact iff_of_true (callStep_sound (fun _ => ConnectAction.noConfusion) h) trivial

end Steps

end CoroutineRpc.Coroutine.Connecting
