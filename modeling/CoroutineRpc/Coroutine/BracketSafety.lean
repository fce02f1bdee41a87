import CoroutineRpc.Coroutine.Bracketing

/-! What the driver of a thread does keeps its fibers bracketed: the first fibers are made on a free
thread, `run` resumes from the fiber in which it executes, and `stop` only from the main fiber. -/
namespace CoroutineRpc.Coroutine.ThreadRun
variable {φ : Type} [DecidableEq φ] {s : ThreadRun φ} {g : FiberRef φ} {x : FiberCtl φ}

/-- A fiber outside the chain is made or run elsewhere. -/
theorem Inv.park (hs : Inv s) {f : φ} (hout : .task f ∉ s.chain) (hstate : x.state ≠ .running)
    (hflag : x.runInScheduler = true) (hctx : x.ctx.stack = .task f) :
    Inv { s.setFiber (.task f) x with
      suspendedAt := Function.update s.suspendedAt (.task f) x.ctx } := by
  have hother : FiberRef.scheduler ≠ .task f := by simp
  have hscheduler : (s.setFiber (.task f) x).flagOf .scheduler = s.flagOf .scheduler := by
    rw [setFiber_flag, Function.update_of_ne hother]
  have hlayout : Layout (s.setFiber (.task f) x) := by
    refine ⟨fun hnil => ?_, hs.layout.threadFiber, fun hne => ?_, ?_, fun hpool => ?_⟩
    · rw [hscheduler]
      exact hs.layout.unborn hnil
    · rw [runner, hscheduler]
      exact hs.layout.schedulerFiber hne
    · rw [setFiber_flag]
      exact hs.layout.flags_update (fun _ => hflag.trans (decide_eq_true hother.symm).symm)
    · exact hscheduler.trans (hs.layout.pool hpool)
  refine ⟨hs.current, hs.executing, hs.unborn, hs.bottom, hs.nodup, ?_, ?_, ?_,
    hs.owner_update hctx, hs.curr, hs.returned, hlayout.congr rfl rfl rfl rfl Iff.rfl, hs.asserted⟩
  · refine hs.linked.imp_of_mem_imp ?_
    intro a b ha hb hlink
    have hane : a ≠ .task f := fun heq => hout (heq ▸ ha)
    have hbne : b ≠ .task f := fun heq => hout (heq ▸ hb)
    refine hlink.congr rfl (Function.update_of_ne hbne _ _) ?_
    change ((s.setFiber (.task f) x).flagOf a).bind _ = (s.flagOf a).bind _
    rw [setFiber_flag, Function.update_of_ne hane]
    rfl
  · intro k
    change (s.setFiber (.task f) x).stateOf k = _ ↔ _
    rw [setFiber_state]
    exact hs.running_update hout hstate k
  · intro k p hp hk
    change (s.setFiber (.task f) x).ctxOf k = some p at hp
    rw [setFiber_ctx] at hp
    exact hs.saved_update _ hp (fun _ => hk)

theorem Inv.note (hs : Inv s) (g : FiberRef φ) :
    Inv { s with curr := Function.update s.curr g (some g) } := by
  refine ⟨hs.current, hs.executing, hs.unborn, hs.bottom, hs.nodup, hs.linked, hs.running, hs.saved,
    hs.owner, ?_, hs.returned, hs.layout.congr rfl rfl rfl rfl Iff.rfl, hs.asserted⟩
  intro k h hh
  change Function.update s.curr g (some g) k = some h at hh
  by_cases hk : k = g
  · subst hk
    rw [Function.update_self] at hh
    exact (Option.some.inj hh).symm
  · rw [Function.update_of_ne hk] at hh
    exact hs.curr k h hh

theorem Inv.getThis (hs : Inv s) (junk : Bool) : Inv (s.getThis junk) ∧
    (s.getThis junk).chain ≠ [] ∧ (s.getThis junk).flagOf .scheduler = s.flagOf .scheduler ∧
    (s.getThis junk).cpu = s.cpu ∧ (s.getThis junk).poolRun = s.poolRun := by
  unfold ThreadRun.getThis
  split
  · next hcurrent =>
    refine ⟨hs, ?_, rfl, rfl, rfl⟩
    intro hnil
    rw [hs.current, hnil] at hcurrent
    cases hcurrent
  · next hcurrent =>
    have hnil : s.chain = [] := by
      rw [hs.current, Option.not_isSome_iff_eq_none, List.head?_eq_none_iff] at hcurrent
      exact hcurrent
    have hstack := hs.unborn hnil
    have hnone := (hs.layout.unborn hnil).1
    have hother : FiberRef.scheduler ≠ (.main : FiberRef φ) := by simp
    have hscheduler : (s.setFiber .main ⟨.running, junk, .entry .main⟩).flagOf .scheduler =
        s.flagOf .scheduler := by
      rw [setFiber_flag, Function.update_of_ne hother]
    refine ⟨⟨rfl, ?_, ?_, ?_, List.nodup_singleton _, List.IsChain.singleton _, ?_, ?_, hs.owner,
      hs.curr, hs.returned, ⟨?_, fun _ => rfl, ?_, ?_, ?_⟩, hs.asserted⟩, List.cons_ne_nil _ _,
      hscheduler, rfl, rfl⟩
    · intro k hk
      obtain rfl := Option.some.inj hk
      exact hstack
    · intro hcons
      cases hcons
    · intro k hk
      exact (Option.some.inj hk).symm
    · intro k
      change (s.setFiber .main ⟨.running, junk, .entry .main⟩).stateOf k = _ ↔ k ∈ [.main]
      rw [setFiber_state, List.mem_singleton]
      by_cases hk : k = .main
      · subst hk
        rw [Function.update_self]
        exact iff_of_true rfl rfl
      · rw [Function.update_of_ne hk, hs.running k, hnil]
        exact iff_of_false List.not_mem_nil hk
    · intro k p hp hk
      have hmain : k ≠ .main := hstack ▸ hk
      change (s.setFiber .main ⟨.running, junk, .entry .main⟩).ctxOf k = some p at hp
      rw [setFiber_ctx, Function.update_of_ne hmain] at hp
      exact hs.saved k p hp hk
    · intro hcons
      cases hcons
    · intro _
      change some FiberRef.main = some (if
        ((s.setFiber .main ⟨.running, junk, .entry .main⟩).flagOf .scheduler).isSome then _ else _)
      rw [hscheduler, hnone]
      rfl
    · change ∀ k b, (s.setFiber .main ⟨.running, junk, .entry .main⟩).flagOf k = some b → _
      rw [setFiber_flag]
      exact hs.layout.flags_update (fun hne => absurd rfl hne)
    · exact fun _ => hscheduler.trans hnone

/-- The main fiber is alone when it executes. -/
theorem Inv.alone (hs : Inv s) (hstack : s.cpu.stack = .main) (hne : s.chain ≠ []) :
    s.chain = [.main] := by
  obtain ⟨g, rest, hchain⟩ := List.exists_cons_of_ne_nil hne
  obtain rfl : g = .main := (hs.stack_eq hchain).symm.trans hstack
  have hnodup := hs.nodup
  have hbottom := hs.bottom
  rw [hchain] at hnodup hbottom ⊢
  cases rest with
  | nil => rfl
  | cons k rest =>
    have hlast : (k :: rest).getLast? = some ((k :: rest).getLast (List.cons_ne_nil k rest)) :=
      List.getLast?_eq_some_getLast _
    have hmain := hbottom _ (List.getLast?_cons_cons.trans hlast)
    exact absurd (hmain ▸ List.getLast_mem _) (List.nodup_cons.mp hnodup).1

theorem Inv.born (hs : Inv s) (hstack : s.cpu.stack ≠ .main) : s.chain ≠ [] :=
  fun hnil => hstack (hs.unborn hnil)

/-- `GetThis` finds the executing fiber. -/
theorem Inv.tFiber_eq (hs : Inv s) (hne : s.chain ≠ []) : s.tFiber = some s.cpu.stack := by
  obtain ⟨g, rest, hchain⟩ := List.exists_cons_of_ne_nil hne
  rw [hs.stack_eq hchain, hs.current, hchain]
  rfl

private theorem free_iff : s.free = true ↔
    s.cpu.stack = .main ∧ s.poolRun = false ∧ s.flagOf .scheduler = none := by
  simp [free, flagOf, and_assoc]

theorem Inv.construct (hs : Inv s) (junk : Bool) (hfree : s.free = true) :
    Inv (s.construct junk) := by
  obtain ⟨hstack, hpool, -⟩ := free_iff.mp hfree
  obtain ⟨ht, hne, -, hcpu, hpool'⟩ := hs.getThis junk
  unfold ThreadRun.construct
  generalize s.getThis junk = t at ht hne hcpu hpool'
  rw [hpool] at hpool'
  have hchain := ht.alone (hcpu ▸ hstack) hne
  have hself : (t.setFiber .scheduler ⟨.ready, false, .entry .scheduler⟩).flagOf .scheduler =
      some false := by
    rw [setFiber_flag, Function.update_self]
  refine ⟨ht.current, ht.executing, ht.unborn, ht.bottom, ht.nodup, ?_, ?_, ?_,
    ht.owner_update (Point.stack_entry _), ht.curr, ht.returned,
    ⟨fun hnil => absurd hnil hne, ht.layout.threadFiber, ?_, ?_, ?_⟩, ht.asserted⟩
  · change t.chain.IsChain _
    rw [hchain]
    exact List.IsChain.singleton _
  · intro k
    change (t.setFiber .scheduler ⟨.ready, false, .entry .scheduler⟩).stateOf k = _ ↔ k ∈ t.chain
    have hout : .scheduler ∉ t.chain := by simp [hchain]
    have hready : FiberState.ready ≠ .running := by decide
    rw [setFiber_state]
    exact ht.running_update hout hready k
  · intro k p hp hk
    change (t.setFiber .scheduler ⟨.ready, false, .entry .scheduler⟩).ctxOf k = some p at hp
    rw [setFiber_ctx] at hp
    exact ht.saved_update _ hp (fun _ => hk)
  · intro _
    change some FiberRef.scheduler = some (if
      ((t.setFiber .scheduler ⟨.ready, false, .entry .scheduler⟩).flagOf .scheduler).isSome
      then _ else _)
    rw [hself]
    rfl
  · change ∀ k b, (t.setFiber .scheduler ⟨.ready, false, .entry .scheduler⟩).flagOf k = some b → _
    rw [setFiber_flag]
    exact ht.layout.flags_update (fun _ => rfl)
  · intro htrue
    cases hpool'.symm.trans htrue

theorem Inv.run (hs : Inv s) (junk : Bool) (hfree : s.free = true) :
    Inv { s.getThis junk with poolRun := true } := by
  obtain ⟨-, -, hnone⟩ := free_iff.mp hfree
  obtain ⟨ht, hne, hflag, -⟩ := hs.getThis junk
  exact ⟨ht.current, ht.executing, ht.unborn, ht.bottom, ht.nodup, ht.linked, ht.running, ht.saved,
    ht.owner, ht.curr, ht.returned, ⟨fun hnil => absurd hnil hne, ht.layout.threadFiber,
      ht.layout.schedulerFiber, ht.layout.flags, fun _ => hflag.trans hnone⟩, ht.asserted⟩

theorem Inv.elsewhere {t : ThreadRun φ} {f : φ} {switch : Nat} {done : Bool} (hs : Inv s)
    (ht : s.elsewhere f switch done = some t) : Inv t := by
  obtain ⟨x, hx, hrest⟩ := Option.bind_eq_some_iff.mp ht
  split at hrest
  · next hready =>
    cases hrest
    have hflag := hs.layout.task_flag hx
    have hout := hs.not_mem hx (by rw [hready]; decide)
    have hstate : (if done then FiberState.term else .ready) ≠ .running := by
      cases done with
      | false => decide
      | true => decide
    have hparked := hs.park hout hstate hflag (Point.stack_yielded (.task f) switch)
      (x := { x with state := if done then .term else .ready, ctx := .yielded (.task f) switch })
    exact hparked.note (.task f)
  · cases hrest

theorem Inv.stop (hs : Inv s) (hsome : (s.fibers .scheduler).isSome) :
    Inv (s.resume .scheduler) := by
  obtain ⟨x, hx⟩ := Option.isSome_iff_exists.mp hsome
  obtain ⟨hne, hpartner, hrunner⟩ := hs.layout.scheduler_partner hx
  refine hs.resume hx (fun hready => ?_)
  have hout := hs.not_mem hx (by rw [hready]; decide)
  have hstack : s.cpu.stack = .main := by
    by_contra hmain
    obtain ⟨h, rest, y, z, hchain, hy, -, hleave, -⟩ := hs.leaving rfl hmain
    rw [hchain] at hout
    cases hstack : s.cpu.stack with
    | main => exact hmain hstack
    | scheduler =>
      rw [hstack] at hout
      exact hout List.mem_cons_self
    | task f =>
      rw [hstack] at hy hout
      -- a task fiber that executes leaves to the scheduler fiber, which then is in the chain
      rw [hs.layout.task_partner hy hne, hrunner] at hleave
      obtain rfl := Option.some.inj hleave
      exact hout (List.mem_cons_of_mem _ List.mem_cons_self)
  exact ⟨.main, [], hs.alone hstack hne, hpartner⟩

theorem Inv.dispatch {t : ThreadRun φ} {f : φ} (hs : Inv s) (hrun : s.inRun = true)
    (ht : s.dispatch f = some t) : Inv t := by
  obtain ⟨x, hx, rfl⟩ := Option.map_eq_some_iff.mp ht
  split
  · exact hs
  refine hs.resume hx (fun _ => ?_)
  have hrunner : s.chain ≠ [] ∧ s.cpu.stack = s.runner := by
    unfold inRun at hrun
    split at hrun
    · next hstack =>
      rw [hstack, runner, hs.layout.pool hrun]
      refine ⟨fun hnil => ?_, rfl⟩
      cases hrun.symm.trans (hs.layout.unborn hnil).2
    · next hstack =>
      have hne := hs.born (by simp [hstack])
      obtain ⟨g, rest, hchain⟩ := List.exists_cons_of_ne_nil hne
      obtain rfl : g = .scheduler := (hs.stack_eq hchain).symm.trans hstack
      have hmem : .scheduler ∈ s.chain := by
        rw [hchain]
        exact List.mem_cons_self
      obtain ⟨y, hy, -⟩ := Option.map_eq_some_iff.mp ((hs.running _).mpr hmem)
      exact ⟨hne, hstack.trans (hs.layout.scheduler_partner hy).2.2.symm⟩
    · cases hrun
  obtain ⟨g, rest, hchain⟩ := List.exists_cons_of_ne_nil hrunner.1
  refine ⟨g, rest, hchain, ?_⟩
  rw [hs.layout.task_partner hx hrunner.1, ← hrunner.2, hs.stack_eq hchain]

theorem step_inv (s : ThreadRun φ) (a : ControlAction φ) (t : ThreadRun φ) (hs : Inv s)
    (hstep : step s a = some t) : Inv t := by
  unfold step at hstep
  split at hstep
  · cases hstep
  cases a with
  | getThis junk =>
    cases hstep
    exact (hs.getThis junk).1
  | construct junk =>
    dsimp only at hstep
    split at hstep
    · next hfree =>
      cases hstep
      exact hs.construct junk hfree
    · cases hstep
  | run junk =>
    dsimp only at hstep
    split at hstep
    · next hfree =>
      cases hstep
      exact hs.run junk hfree
    · cases hstep
  | create f =>
    dsimp only at hstep
    split at hstep
    · next hnone =>
      cases hstep
      have hout : .task f ∉ s.chain := by
        intro hmem
        have hrun := (hs.running _).mpr hmem
        rw [stateOf, Option.isNone_iff_eq_none.mp hnone] at hrun
        cases hrun
      exact hs.park hout (by simp) rfl rfl
    · cases hstep
  | elsewhere f switch done => exact hs.elsewhere hstep
  | stop =>
    dsimp only at hstep
    split at hstep
    · next hsome =>
      cases hstep
      exact hs.stop hsome
    · cases hstep
  | mainFunc =>
    dsimp only at hstep
    split at hstep
    · next hmain =>
      cases hstep
      have hnoted := hs.note s.cpu.stack
      rw [← hs.tFiber_eq (hs.born hmain.1)] at hnoted
      exact hnoted
    · cases hstep
  | dispatch f =>
    dsimp only at hstep
    split at hstep
    · next hrun => exact hs.dispatch hrun hstep
    · cases hstep
  | yield =>
    dsimp only at hstep
    split at hstep
    · next f hstack =>
      split at hstep
      · obtain ⟨g, hg, rfl⟩ := Option.map_eq_some_iff.mp hstep
        have hmain : s.cpu.stack ≠ .main := by simp [hstack]
        rw [hs.tFiber_eq (hs.born hmain)] at hg
        obtain rfl := Option.some.inj hg
        exact hs.yield rfl hmain
      · cases hstep
    · cases hstep
  | finish =>
    dsimp only at hstep
    split at hstep
    · next hmain =>
      obtain ⟨g, hg, rfl⟩ := Option.map_eq_some_iff.mp hstep
      obtain rfl := hs.curr _ _ hg
      exact hs.finish rfl hmain
    · cases hstep

/-- In every run of a thread, whatever its fibers do. -/
theorem always_bracketed (as : List (ControlAction φ)) :
    Transition.Always step Bracketed ({} : ThreadRun φ) as :=
  (Transition.always_of_step step_inv inv_start as).mono (fun _ hs => hs.bracketed)

end CoroutineRpc.Coroutine.ThreadRun
