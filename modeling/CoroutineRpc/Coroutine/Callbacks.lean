import CoroutineRpc.Coroutine.Carrying
import CoroutineRpc.Coroutine.Deadlines

/-! Where callbacks come from. The contexts and the queue hold only callbacks that were put there,
and a collection hands out only those of timers that are due. -/
namespace CoroutineRpc.Coroutine

namespace IOManager
variable {σ φ κ : Type} {P : κ → Prop} {m m' : IOManager σ φ κ}

/-- Every callback that is registered or queued. -/
structure Callbacks (P : κ → Prop) (m : IOManager σ φ κ) : Prop where
  queued : ∀ q ∈ m.tasks, ∀ cb, q.2 = .call cb → P cb
  registered : ∀ fd e cb, ((m.contexts fd).getEventContext e).cb = some cb → P cb

theorem Callbacks.mono {Q : κ → Prop} (h : m.Callbacks P) (hPQ : ∀ cb, P cb → Q cb) :
    m.Callbacks Q :=
  ⟨fun q hq cb hcb => hPQ cb (h.queued q hq cb hcb),
    fun fd e cb hcb => hPQ cb (h.registered fd e cb hcb)⟩

theorem Callbacks.same (h : m.Callbacks P) (htasks : m'.tasks = m.tasks)
    (hcontexts : m'.contexts = m.contexts) : m'.Callbacks P := by
  refine ⟨?_, ?_⟩
  · intro q hq
    exact h.queued q (htasks ▸ hq)
  · intro fd e cb hcb
    rw [hcontexts] at hcb
    exact h.registered fd e cb hcb

/-- A context that is written with callbacks of the same kind. -/
theorem Callbacks.setContext (h : m.Callbacks P) {fd : Nat} {x : FdContext σ φ κ}
    (hx : ∀ e cb, (x.getEventContext e).cb = some cb → P cb) : (m.setContext fd x).Callbacks P := by
  refine ⟨h.queued, ?_⟩
  intro fd' e cb hcb
  rcases eq_or_ne fd' fd with rfl | hne
  · rw [setContext_same] at hcb
    exact hx e cb hcb
  · rw [setContext_other m x hne] at hcb
    exact h.registered fd' e cb hcb

theorem Callbacks.append (h : m.Callbacks P) {tasks : List (σ × Task φ κ)}
    (hnew : ∀ q ∈ tasks, ∀ cb, q.2 = .call cb → P cb) :
    ({ m with tasks := m.tasks ++ tasks } : IOManager σ φ κ).Callbacks P := by
  refine ⟨?_, h.registered⟩
  intro q hq
  rcases List.mem_append.mp hq with hold | hin
  · exact h.queued q hold
  · exact hnew q hin

/-- What is left of a context whose event is cleared. -/
theorem cb_clear {x : FdContext σ φ κ} {e e' : Event} {cb : κ}
    (h : ((x.clear e).getEventContext e').cb = some cb) : (x.getEventContext e').cb = some cb := by
  cases e <;> cases e' <;> first | exact h | cases h

/-- A triggered callback moves into the queue. -/
theorem trigger_callbacks (h : m.Callbacks P) {fd : Nat} {e : Event}
    (ht : m.trigger fd e = some m') : m'.Callbacks P := by
  obtain ⟨⟨x, task⟩, hx, rfl⟩ := Option.map_eq_some_iff.mp ht
  obtain ⟨-, hx⟩ := Option.ite_none_right_eq_some.mp hx
  simp only at hx
  split at hx
  · cases hx
  · next scheduler hscheduler =>
    cases hx
    have hregistered : ∀ e' cb, ((m.contexts fd).getEventContext e').cb = some cb → P cb :=
      h.registered fd
    have hset : (m.setContext fd ((m.contexts fd).clear e)).Callbacks P :=
      h.setContext (fun e' cb hcb => hregistered e' cb (cb_clear hcb))
    refine hset.append ?_
    intro q hq cb hcb
    obtain ⟨task, htask, rfl⟩ := Option.map_eq_some_iff.mp (Option.mem_toList.mp hq)
    obtain rfl : task = .call cb := hcb
    refine hregistered e cb ?_
    cases hold : (({ m.contexts fd with events := (m.contexts fd).events.remove e } :
        FdContext σ φ κ).getEventContext e).cb with
    | none =>
      rw [EventContext.task, hold] at htask
      obtain ⟨f, -, hf⟩ := Option.map_eq_some_iff.mp htask
      cases hf
    | some old =>
      rw [EventContext.task, hold] at htask
      cases htask
      cases e <;> exact hold

private theorem triggerIf_callbacks (h : m.Callbacks P) {fd : Nat} {e : Event} {mask : Events}
    (ht : m.triggerIf fd e mask = some m') : m'.Callbacks P := by
  unfold triggerIf at ht
  split at ht
  · obtain ⟨m₁, hm₁, rfl⟩ := Option.map_eq_some_iff.mp ht
    exact (trigger_callbacks h hm₁).same rfl rfl
  · cases ht
    exact h

theorem Same.callbacks (hs : Same m m') (h : m.Callbacks P) : m'.Callbacks P :=
  h.same hs.tasks hs.contexts

theorem cancelEvent_callbacks (h : m.Callbacks P) {fd : Nat} {e : Event} {ok r : Bool}
    (hc : m.cancelEvent fd e ok = some (r, m')) : m'.Callbacks P := by
  unfold cancelEvent at hc
  split at hc
  · split at hc
    · next hforget =>
      cases hc
      exact (epollCtl_same hforget).callbacks h
    · next m₁ hforget =>
      obtain ⟨m₂, hm₂, heq⟩ := Option.map_eq_some_iff.mp hc
      cases heq
      have h₁ := (epollCtl_same hforget).callbacks h
      exact trigger_callbacks (h₁.same (by rfl) (by rfl)) hm₂
  · cases hc
    exact h

theorem cancelAll_callbacks (h : m.Callbacks P) {fd : Nat} {ok r : Bool}
    (hc : m.cancelAll fd ok = some (r, m')) : m'.Callbacks P := by
  unfold cancelAll at hc
  split at hc
  · split at hc
    · next hctl =>
      cases hc
      exact (epollCtl_same hctl).callbacks h
    · next m₁ hctl =>
      obtain ⟨m₂, hm₂, hc⟩ := Option.bind_eq_some_iff.mp hc
      obtain ⟨m₃, hm₃, hc⟩ := Option.bind_eq_some_iff.mp hc
      have h₁ := (epollCtl_same hctl).callbacks h
      have h₃ := triggerIf_callbacks (triggerIf_callbacks h₁ hm₂) hm₃
      split at hc
      · cases hc
        exact h₃
      · cases hc
  · cases hc
    exact h

theorem dispatch_callbacks (h : m.Callbacks P) {ready : ReadyEvent} {ok : Bool}
    (hd : m.dispatch ready ok = some m') : m'.Callbacks P := by
  unfold dispatch at hd
  simp only at hd
  split at hd
  · cases hd
    exact h
  · split at hd
    · next hctl =>
      cases hd
      exact (epollCtl_same hctl).callbacks h
    · next m₁ hctl =>
      obtain ⟨m₂, hm₂, hm₃⟩ := Option.bind_eq_some_iff.mp hd
      have h₁ := (epollCtl_same hctl).callbacks h
      exact triggerIf_callbacks (triggerIf_callbacks h₁ hm₂) hm₃

theorem delEvent_callbacks (h : m.Callbacks P) (fd : Nat) (e : Event) (ok : Bool) :
    (m.delEvent fd e ok).2.Callbacks P := by
  unfold delEvent
  split
  · split
    · next hforget => exact (epollCtl_same hforget).callbacks h
    · next m₁ hforget =>
      have h₁ := (epollCtl_same hforget).callbacks h
      have hcounted : ({ m₁ with pendingEventCount := m₁.pendingEventCount - 1 } :
          IOManager σ φ κ).Callbacks P := h₁.same rfl rfl
      exact hcounted.setContext (fun e' cb hcb => h₁.registered fd e' cb (cb_clear hcb))
  · exact h

/-- `addEvent` registers the callback that it is given. -/
theorem addEvent_callbacks (h : m.Callbacks P) {fd : Nat} {e : Event} {scheduler : σ} {self : φ}
    {cb : Option κ} {ok : Bool} {rt : Int} (hcb : ∀ c, cb = some c → P c)
    (ha : m.addEvent fd e scheduler self cb ok = some (rt, m')) : m'.Callbacks P := by
  have hreserve : (m.reserve fd).Callbacks P := by
    unfold reserve
    split
    · exact h
    · exact h.same rfl rfl
  unfold addEvent at ha
  simp only at ha
  split at ha
  · cases ha
    exact hreserve
  · split at ha
    · next hctl =>
      cases ha
      exact (epollCtl_same hctl).callbacks hreserve
    · next m₁ hctl =>
      have h₁ := (epollCtl_same hctl).callbacks hreserve
      split at ha
      · cases ha
        have hcounted : ({ m₁ with pendingEventCount := m₁.pendingEventCount + 1 } :
            IOManager σ φ κ).Callbacks P := h₁.same rfl rfl
        refine hcounted.setContext ?_
        intro e' c hc
        by_cases he : e = e'
        · subst he
          rw [FdContext.register_same] at hc
          exact hcb c hc
        · rw [FdContext.register_other _ _ he] at hc
          exact hreserve.registered fd e' c hc
      · cases ha

end IOManager

namespace TimerManager
variable {β : Type} {R : β → Bool → Int → Prop} {m m' : TimerManager β}

/-- Every timer with a callback recurs or not, and has a deadline, as suits it. -/
def Deadlines (R : β → Bool → Int → Prop) (m : TimerManager β) : Prop :=
  ∀ t cb, (m.objects t).cb = some cb → R cb (m.objects t).recurring (m.objects t).next

theorem Deadlines.mono {R' : β → Bool → Int → Prop} (h : m.Deadlines R)
    (hR : ∀ cb recurring next, R cb recurring next → R' cb recurring next) : m.Deadlines R' :=
  fun t cb hcb => hR cb _ _ (h t cb hcb)

theorem Deadlines.of_objects (h : m.Deadlines R) (hobjects : m'.objects = m.objects) :
    m'.Deadlines R := by
  intro t cb hcb
  rw [hobjects] at hcb ⊢
  exact h t cb hcb

theorem Deadlines.modify (h : m.Deadlines R) (t : TimerId) {f : Timer β → Timer β}
    (hf : ∀ cb, (f (m.objects t)).cb = some cb →
      R cb (f (m.objects t)).recurring (f (m.objects t)).next) : (m.modify t f).Deadlines R := by
  intro u cb hcb
  rcases eq_or_ne u t with rfl | hne
  · rw [modify_same] at hcb ⊢
    exact hf cb hcb
  · rw [modify_other m f hne] at hcb ⊢
    exact h u cb hcb

theorem Deadlines.addTimer (h : m.Deadlines R) {ms : Nat} {cb : Option β} {recurring : Bool}
    {now : Int} (hnew : ∀ c, cb = some c → R c recurring (deadline now ms)) :
    (m.addTimer ms cb recurring now).2.2.Deadlines R := by
  have hcreated : ({ m with created := m.created + 1 } : TimerManager β).Deadlines R := h
  exact (hcreated.modify m.created
    (f := fun _ => { recurring := recurring, ms := ms, next := deadline now ms, cb := cb })
    hnew).of_objects rfl

theorem Deadlines.cancel (h : m.Deadlines R) (t : TimerId) : (m.cancel t).2.Deadlines R := by
  unfold TimerManager.cancel
  split
  · exact h
  · have hmuted : (m.modify t (fun x => { x with cb := none })).Deadlines R :=
      h.modify t (fun cb hcb => by cases hcb)
    simp only
    split
    · exact hmuted
    · exact hmuted.of_objects rfl

/-- A pass takes a timer; if it recurs, it comes back with another deadline. -/
theorem Deadlines.collectOne (h : m.Deadlines R)
    (hagain : ∀ cb next time, R cb true next → R cb true time) (now : Int) (t : TimerId) :
    (m.collectOne now t).Deadlines R := by
  intro u cb hcb
  rw [collectOne_objects] at hcb ⊢
  split at hcb
  · rw [if_pos ‹_›]
    unfold collectedObject at hcb ⊢
    split at hcb
    · next hrec =>
      rw [if_pos hrec]
      have hold := h u cb hcb
      rw [hrec] at hold
      show R cb (m.objects u).recurring _
      rw [hrec]
      exact hagain cb _ _ hold
    · cases hcb
  · rw [if_neg ‹_›]
    exact h u cb hcb

/-- What the collecting loop hands out was due. -/
theorem Deadlines.collectLoop {now : Int} {fuel : Nat} {r : List (TimerId × Option β)}
    (h : m.Deadlines R) (hagain : ∀ cb next time, R cb true next → R cb true time)
    (hrun : collectLoop now false fuel m = some (r, m')) :
    m'.Deadlines R ∧
      ∀ x ∈ r, ∀ cb, x.2 = some cb → ∃ recurring next, R cb recurring next ∧ next ≤ now := by
  induction fuel generalizing m r with
  | zero =>
    rw [TimerManager.collectLoop] at hrun
    split at hrun
    · cases hrun
    · cases hrun
      exact ⟨h, fun x hx => absurd hx List.not_mem_nil⟩
  | succ fuel ih =>
    rw [TimerManager.collectLoop] at hrun
    split at hrun
    · cases hrun
      exact ⟨h, fun x hx => absurd hx List.not_mem_nil⟩
    · next t hdue =>
      obtain ⟨⟨r', m₁⟩, hrest, heq⟩ := Option.map_eq_some_iff.mp hrun
      cases heq
      have hnext : m.next t ≤ now := by
        have hkept := (Option.filter_eq_some_iff.mp hdue).2
        simpa using hkept
      obtain ⟨hafter, hothers⟩ := ih (h.collectOne hagain now t) hrest
      refine ⟨hafter, ?_⟩
      intro x hx cb hcb
      rcases List.mem_cons.mp hx with rfl | hx
      · exact ⟨_, m.next t, h t cb hcb, hnext⟩
      · exact hothers x hx cb hcb

end TimerManager
end CoroutineRpc.Coroutine
