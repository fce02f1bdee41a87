import CoroutineRpc.Coroutine.TimerLife
import CoroutineRpc.Coroutine.TimerRace

/-! When the cancellation of a timer is final. Between the two critical sections of `reset` a
timer is outside the set with its callback, and nothing tells `insert` of a `cancel` then. -/
namespace CoroutineRpc.Coroutine
variable {ι β : Type}

namespace TimerManager

private theorem cancel_result (m : TimerManager β) (t : TimerId) :
    (m.cancel t).1 = (m.objects t).cb.isSome := by
  unfold cancel
  split
  · next hcb => rw [hcb]; rfl
  · next hcb =>
    rw [hcb]
    dsimp only
    split <;> rfl

private theorem cancel_muted (m : TimerManager β) (t : TimerId) :
    ((m.cancel t).2.objects t).cb = none := by
  unfold cancel
  split
  · next hcb => exact hcb
  · dsimp only
    split
    · rw [modify_same]
    · rw [erase_objects, modify_same]

/-- `addShared` takes in at most its timer. -/
theorem addShared_spec {m : TimerManager β} (h : m.Ordered) (t : TimerId) :
    (m.addShared t).2.Ordered ∧ ∀ u ∈ (m.addShared t).2.timers, u = t ∨ u ∈ m.timers :=
  ⟨KeyedSet.insert_ordered h, fun _ => KeyedSet.mem_of_mem_insert⟩

end TimerManager

namespace TimerRace

/-- A search from a timer with a callback finds no other timer. -/
theorem Distinct.find {s : TimerRace ι β} (h : s.Distinct) {t it : TimerId}
    (hcb : (s.manager.objects t).cb ≠ none) (hfind : s.manager.find t = some it) :
    it = t ∧ t ∈ s.manager.timers := by
  obtain ⟨hmem, hkey⟩ := KeyedSet.find_some hfind
  by_cases he : t = it
  · subst he
    exact ⟨rfl, hmem⟩
  · exact absurd hkey (h t it hcb hmem he)

/-- Where there is one timer only, no two have the same deadline. -/
theorem distinct_single {s : TimerRace ι β} (hcb : ∀ n, (s.manager.objects (n + 1)).cb = none)
    (hone : ∀ u ∈ s.manager.timers, u = 0) : s.Distinct := by
  intro t u ht hu hne
  obtain rfl := hone u hu
  obtain ⟨n, rfl⟩ := Nat.exists_eq_succ_of_ne_zero hne
  exact absurd (hcb n) ht

/-- An operation on the set that brings back neither a cancelled timer nor one that a `reset`
has taken out. -/
theorem Sound.manager {s : TimerRace ι β} (h : Sound s) {m : TimerManager β} (hord : m.Ordered)
    (hcreated : s.manager.created ≤ m.created) (hknown : ∀ t ∈ m.timers, t < m.created)
    (hcancelled : ∀ t ∈ s.cancelled, (m.objects t).cb = none ∧ t ∉ m.timers)
    (hbetween : ∀ c r, s.resets c = some r → r.Between → r.timer ∉ m.timers) :
    Sound (s.setManager m) where
  ordered := hord
  known := hknown
  cancelled t ht := ⟨(h.cancelled t ht).1.trans_le hcreated, hcancelled t ht⟩
  between c r hr hb :=
    ⟨(h.between c r hr hb).1.trans_le hcreated, hbetween c r hr hb, (h.between c r hr hb).2.2⟩
  single := h.single
  revived := h.revived

theorem Sound.within {s : TimerRace ι β} (h : Sound s) {m : TimerManager β}
    (hw : TimerManager.Within s.manager m) : Sound (s.setManager m) := by
  refine h.manager hw.ordered (Nat.le_of_eq hw.created.symm) ?_ ?_ ?_
  · intro t ht
    rw [hw.created]
    exact h.known t (hw.timers t ht)
  · intro t ht
    obtain ⟨-, hcb, hout⟩ := h.cancelled t ht
    exact ⟨(congrArg Timer.cb (hw.objects t hout)).trans hcb, fun hin => hout (hw.timers t hin)⟩
  · exact fun c r hr hb hin => (h.between c r hr hb).2.1 (hw.timers _ hin)

theorem addTimer_sound {s : TimerRace ι β} (h : Sound s) (ms : Nat) (cb : Option β)
    (recurring : Bool) (now : Int) :
    Sound (s.setManager (s.manager.addTimer ms cb recurring now).2.2) := by
  have hmem : ∀ u, u ∈ (s.manager.addTimer ms cb recurring now).2.2.timers →
      u = s.manager.created ∨ u ∈ s.manager.timers := fun u => KeyedSet.mem_of_mem_insert
  have hspec := (TimerManager.addTimer_spec ⟨h.ordered, h.known⟩ ms cb recurring now).2.1.orderly
  refine h.manager hspec.ordered (Nat.le_succ _) hspec.known ?_ ?_
  · intro t ht
    obtain ⟨hlt, hcb, hout⟩ := h.cancelled t ht
    have hne : t ≠ s.manager.created := Nat.ne_of_lt hlt
    exact ⟨(congrArg Timer.cb (Function.update_of_ne hne _ _)).trans hcb,
      fun hin => (hmem t hin).elim hne hout⟩
  · intro c r hr hb hin
    obtain ⟨hlt, hout, -⟩ := h.between c r hr hb
    exact (hmem _ hin).elim (Nat.ne_of_lt hlt) hout

/-- No call of `reset` is about to put the timer back, so its cancellation is final. -/
theorem cancel_sound {s : TimerRace ι β} (h : Sound s) {t : TimerId}
    (hknown : t < s.manager.created)
    (houtside : ∀ c r, s.resets c = some r → r.Between → r.timer ≠ t) : Sound (s.cancel t) := by
  have horderly : s.manager.Orderly := ⟨h.ordered, h.known⟩
  by_cases hcb : (s.manager.objects t).cb = none
  · have hsame : s.cancel t = s := by
      unfold cancel
      rw [TimerManager.cancel, hcb]
      rfl
    rw [hsame]
    exact h
  · obtain ⟨hord, hout, hsub⟩ := TimerManager.cancel_timers horderly hcb
    have hcreated := (s.manager.cancel_self t).2
    have hdone : (s.manager.cancel t).1 = true := by
      rw [TimerManager.cancel_result]
      exact Option.isSome_iff_ne_none.mpr hcb
    have hcancelled : (s.cancel t).cancelled = t :: s.cancelled := by
      unfold cancel
      dsimp only
      rw [hdone, if_pos rfl]
    refine ⟨hord.ordered, hord.known, ?_, ?_, h.single, h.revived⟩
    · rw [hcancelled]
      refine List.forall_mem_cons.mpr ⟨⟨?_, s.manager.cancel_muted t, hout⟩, ?_⟩
      · exact hknown.trans_eq hcreated.symm
      · intro u hu
        obtain ⟨hlt, hmuted, hgone⟩ := h.cancelled u hu
        refine ⟨hlt.trans_eq hcreated.symm, ?_, fun hin => hgone (hsub u hin)⟩
        by_cases he : u = t
        · subst he
          exact s.manager.cancel_muted u
        · exact (congrArg Timer.cb (s.manager.cancel_objects t u he)).trans hmuted
    · intro c r hr hb
      obtain ⟨hlt, hgone, hlive⟩ := h.between c r hr hb
      refine ⟨hlt.trans_eq hcreated.symm, fun hin => hgone (hsub _ hin), ?_⟩
      rw [hcancelled]
      exact List.not_mem_cons_of_ne_of_not_mem (houtside c r hr hb) hlive

theorem refresh_sound {s : TimerRace ι β} (h : Sound s) (hd : s.Distinct) (t : TimerId)
    (now : Int) : Sound (s.setManager (s.manager.refresh t now).2) := by
  unfold TimerManager.refresh
  split
  · exact h
  · exact h
  · next cb it hcb hfind =>
    obtain ⟨rfl, hmem⟩ := hd.find (by simp [hcb]) hfind
    have hr := TimerManager.rekeyed_erase_insert h.ordered it
      (fun x => { x with next := deadline now x.ms })
    have hother : ∀ u, u ≠ it → u ∉ s.manager.timers → u ∉ (((s.manager.erase it).modify it
        (fun x => { x with next := deadline now x.ms })).insert it).timers :=
      fun u hu hout hin => hout ((hr.mem_other u hu).mp hin)
    refine h.manager hr.ordered (Nat.le_of_eq hr.created.symm) ?_ ?_ ?_
    · intro u hu
      rw [hr.created]
      by_cases he : u = it
      · exact he ▸ h.known it hmem
      · exact h.known u ((hr.mem_other u he).mp hu)
    · intro u hu
      obtain ⟨-, hmuted, hgone⟩ := h.cancelled u hu
      have he : u ≠ it := fun he => hgone (he ▸ hmem)
      exact ⟨(congrArg Timer.cb (hr.other u he)).trans hmuted, hother u he hgone⟩
    · intro c r hc hb
      have hgone := (h.between c r hc hb).2.1
      exact hother _ (fun he => hgone (he ▸ hmem)) hgone

theorem listExpiredCb_sound {s t : TimerRace ι β} (h : Sound s) {now now' : Int} {fuel : Nat}
    (hrun : s.listExpiredCb now now' fuel = some t) : Sound t := by
  obtain ⟨⟨r, m⟩, hcollect, rfl⟩ := Option.map_eq_some_iff.mp hrun
  have hord : ({ s.manager with previousTime := now' } : TimerManager β).Ordered := h.ordered
  obtain ⟨hwithin, hcollected⟩ := TimerManager.collectLoop_within hord hcollect
  have hsound := h.within ⟨hwithin.ordered, hwithin.created, hwithin.timers, hwithin.objects⟩
  refine ⟨hsound.ordered, hsound.known, hsound.cancelled, hsound.between, hsound.single, ?_⟩
  have hnone : (r.map (·.1)).filter (· ∈ s.cancelled) = [] := by
    apply List.filter_eq_nil_iff.mpr
    intro u hu
    obtain ⟨p, hp, rfl⟩ := List.mem_map.mp hu
    simpa using fun hc => (h.cancelled p.1 hc).2.2 (hcollected p hp)
  change (r.map (·.1)).filter (· ∈ s.cancelled) ++ s.revived = []
  rw [hnone, h.revived]
  rfl

section Calls
variable [DecidableEq ι]

@[simp] theorem setReset_same (s : TimerRace ι β) (c : ι) (r : Option Reset) :
    (s.setReset c r).resets c = r := Function.update_self _ _ _

theorem setReset_other (s : TimerRace ι β) {c c' : ι} (r : Option Reset) (h : c' ≠ c) :
    (s.setReset c r).resets c' = s.resets c' := Function.update_of_ne h _ _

/-- A call that goes on: either it holds no timer, or one that no other call holds. -/
theorem Sound.setReset {s : TimerRace ι β} (h : Sound s) (c : ι) {r : Option Reset}
    (hr : ∀ x, r = some x → x.Between → x.timer < s.manager.created ∧
      x.timer ∉ s.manager.timers ∧ x.timer ∉ s.cancelled ∧
      ∀ c' y, c' ≠ c → s.resets c' = some y → y.Between → y.timer ≠ x.timer) :
    Sound (s.setReset c r) := by
  refine ⟨h.ordered, h.known, h.cancelled, ?_, ?_, h.revived⟩
  · intro c' x hx hb
    by_cases hc : c' = c
    · subst hc
      rw [setReset_same] at hx
      obtain ⟨hlt, hout, hlive, -⟩ := hr x hx hb
      exact ⟨hlt, hout, hlive⟩
    · rw [setReset_other s r hc] at hx
      exact h.between c' x hx hb
  · intro c₁ c₂ x y hx hy hbx hby he
    by_cases h₁ : c₁ = c <;> by_cases h₂ : c₂ = c
    · exact h₁.trans h₂.symm
    · subst h₁
      rw [setReset_same] at hx
      rw [setReset_other s r h₂] at hy
      exact absurd he.symm ((hr x hx hbx).2.2.2 c₂ y h₂ hy hby)
    · subst h₂
      rw [setReset_same] at hy
      rw [setReset_other s r h₁] at hx
      exact absurd he ((hr y hy hby).2.2.2 c₁ x h₁ hx hbx)
    · rw [setReset_other s r h₁] at hx
      rw [setReset_other s r h₂] at hy
      exact h.single c₁ c₂ x y hx hy hbx hby he

end Calls
end TimerRace
end CoroutineRpc.Coroutine
