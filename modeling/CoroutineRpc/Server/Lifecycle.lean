import CoroutineRpc.Server.Serving

/-! What `bind` and `stop` promise. A `bind` opens a socket for each address or leaves none behind,
and after `stop` each task that accepts ends by itself, with one more client at most. -/
namespace CoroutineRpc.Server.TcpServer
open Coroutine World Transition

variable {κ : Type} [DecidableEq κ] {s t : TcpServer κ} {k : Settable} {hookEnable : Bool}

omit [DecidableEq κ] in
/-- The open descriptors, by who has them. -/
theorem open_iff {w : World Unit κ} (h : Owned w) (fd : Nat) :
    (w.table fd).file.isSome = true ↔ w.foreign fd = true ∨ ∃ c, w.held c = some fd := by
  constructor
  · exact h.accounted fd
  · rintro (hother | ⟨c, hc⟩)
    · exact h.others fd hother
    · exact h.opened c fd hc

/-- A `bind` that succeeds has opened one new descriptor for each address, in order. One that fails
has opened none in the end: what is open afterwards was open before, less the sockets of earlier
calls, which are closed as well unless a task accepts on them. -/
theorem bind_all_or_nothing (as : List (ServerAction κ)) {ssl : Bool} {tries : List (BindTry κ)}
    {before fails : List SockAddr} (hs : run (step k) ({} : TcpServer κ) as = some s)
    (h : s.bind k ssl hookEnable before tries = some (t, fails)) :
    (fails = [] ∧ t.socks = s.socks ++ tries.map BindTry.sock ∧
      ∀ c ∈ tries.map BindTry.sock,
        ∃ fd, t.world.held c = some fd ∧ (s.world.table fd).file = none) ∨
    (fails ≠ [] ∧ t.socks = [] ∧ ∀ fd, (t.world.table fd).file.isSome = true ↔
      (s.world.table fd).file.isSome = true ∧
        ¬ ∃ c ∈ s.socks, s.used c = false ∧ s.world.held c = some fd) := by
  have hserving : Serving [] s :=
    inv_of_run (fun _ _ _ h hstep => step_serving h hstep) serving_default hs
  have hafter : Serving [] t := bind_serving hserving h
  obtain ⟨⟨v, socks, failed⟩, hv, h⟩ := Option.bind_eq_some_iff.mp h
  obtain ⟨hsound, happ, hsocks, -, hlength⟩ := bindAll_some hserving.sound hv
  have hnew : ∀ c ∈ socks, s.world.held c = none := by
    intro c hc
    rw [World.held, happ.fresh c hc]
    rfl
  have hold : ∀ c, c ∉ socks → v.held c = s.world.held c := fun c hc =>
    congrArg (fun x : Option Socket => x.bind Socket.sock) (happ.object c hc)
  dsimp only at h
  split at h
  · next hempty =>
    obtain ⟨rfl, rfl⟩ := List.append_eq_nil_iff.mp (List.isEmpty_iff.mp hempty)
    obtain ⟨rfl, rfl⟩ := Prod.mk.inj (Option.some.inj h)
    have hall : socks = tries.map BindTry.sock := by
      refine hsocks.eq_of_length ?_
      rw [List.length_map, ← hlength]
      rfl
    refine Or.inl ⟨rfl, congrArg (s.socks ++ ·) hall, ?_⟩
    intro c hc
    rw [← hall] at hc
    obtain ⟨fd, hfd⟩ := happ.holds c hc
    refine ⟨fd, hfd, ?_⟩
    rw [← Option.not_isSome_iff_eq_none, open_iff hserving.sound.toOwned]
    rintro (hother | ⟨d, hd⟩)
    · have hapart := hsound.apart c fd hfd
      rw [happ.foreign, hother] at hapart
      cases hapart
    · have hnd : d ∉ socks := by
        intro hmem
        rw [hnew d hmem] at hd
        cases hd
      obtain rfl := hsound.alone d c fd ((hold d hnd).trans hd) hfd
      exact hnd hc
  · next hfailed =>
    rw [List.isEmpty_iff] at hfailed
    obtain ⟨t', ht', heq⟩ := Option.map_eq_some_iff.mp h
    obtain ⟨rfl, rfl⟩ := Prod.mk.inj heq
    obtain ⟨-, hun⟩ := clear_some (bindAll_serving hserving hv) ht'
    have hforeign : t'.world.foreign = s.world.foreign := hun.foreign.trans happ.foreign
    have hheld : ∀ c, t'.world.held c =
        if c ∈ s.socks ∧ s.used c = false then none else s.world.held c := by
      intro c
      have hun' : t'.world.held c =
          if c ∈ s.socks ++ socks ∧ s.used c = false then none else v.held c := hun.held c
      rw [hun']
      by_cases hc : c ∈ socks
      · have hunused : s.used c = false := by
          rw [← Bool.not_eq_true]
          intro hused
          have hsome := hserving.object c (Or.inr hused)
          rw [happ.fresh c hc] at hsome
          cases hsome
        rw [if_pos ⟨List.mem_append_right _ hc, hunused⟩, hnew c hc, ite_self]
      · simp only [List.mem_append, hc, or_false, hold c hc]
    refine Or.inr ⟨hfailed, by rw [hun.same], ?_⟩
    intro fd
    rw [open_iff hafter.sound.toOwned, open_iff hserving.sound.toOwned, hforeign]
    constructor
    · rintro (hother | ⟨c, hc⟩)
      · refine ⟨Or.inl hother, ?_⟩
        rintro ⟨c, -, -, hc⟩
        exact Bool.noConfusion ((hserving.sound.apart c fd hc).symm.trans hother)
      · rw [hheld] at hc
        split at hc
        · cases hc
        · next hkept =>
          refine ⟨Or.inr ⟨c, hc⟩, ?_⟩
          rintro ⟨d, hmem, hunused, hd⟩
          obtain rfl := hserving.sound.alone d c fd hd hc
          exact hkept ⟨hmem, hunused⟩
    · rintro ⟨hother | ⟨c, hc⟩, hkept⟩
      · exact Or.inl hother
      · refine Or.inr ⟨c, ?_⟩
        rw [hheld, if_neg]
        · exact hc
        · rintro ⟨hmem, hunused⟩
          exact hkept ⟨c, hmem, hunused, hc⟩

/-- The second address is in use, so the socket that the first one got is closed again. -/
theorem bind_address_in_use : ∃ t : TcpServer Nat, t.socks = [] ∧
    ∀ fd, (t.world.table fd).file.isSome = false := by
  let tries : List (BindTry Nat) :=
    [⟨⟨2, false, [], by decide⟩, 0, 9, some 3, none, false, true, true, ⟨none, none⟩⟩,
      ⟨⟨2, false, [0], by decide⟩, 1, 9, some 4, none, false, false, true, ⟨none, none⟩⟩]
  have hfailed : (({} : TcpServer Nat).bind Descriptor.linux false true [] tries).map
      (fun r => r.2.isEmpty) = some false := by decide +kernel
  obtain ⟨⟨t, fails⟩, ht, hfails⟩ := Option.map_eq_some_iff.mp hfailed
  rcases bind_all_or_nothing [] rfl ht with ⟨hnone, -⟩ | ⟨-, hsocks, hopen⟩
  · rw [hnone] at hfails
    cases hfails
  · refine ⟨t, hsocks, fun fd => ?_⟩
    rw [← Bool.not_eq_true, hopen fd]
    rintro ⟨hold, -⟩
    cases hold

/-- What a task still does after `stop`. -/
def work : Loop κ → Nat
  | .atHead _ => 1
  | .accepting _ _ => 2
  | .ended => 0

/-- The clients that a task may still hand over after `stop`. -/
def grants : Loop κ → Nat
  | .accepting _ _ => 1
  | _ => 0

/-- What the `n`-th task has left, if there is one. -/
def left (f : Loop κ → Nat) (s : TcpServer κ) (n : Nat) : Nat := (s.loops[n]?.map f).getD 0

/-- The task whose step it is. -/
def task : ServerAction κ → Option Nat
  | .turn n _ | .accepted n _ _ _ _ _ _ => some n
  | _ => none

/-- The task to which `accept` returns. -/
def accepter : ServerAction κ → Option Nat
  | .accepted n _ _ _ _ _ _ => some n
  | _ => none

omit [DecidableEq κ] in
private theorem left_set {n : Nat} {l : Loop κ} (hloop : s.loops[n]? = some l) (f : Loop κ → Nat)
    (l' : Loop κ) (m : Nat) :
    left f { s with loops := s.loops.set n l' } m = if n = m then f l' else left f s m := by
  have hlt : n < s.loops.length := (List.getElem?_eq_some_iff.mp hloop).1
  rw [left, left, List.getElem?_set]
  by_cases hm : n = m
  · rw [if_pos hm, if_pos hm, if_pos hlt]
    rfl
  · rw [if_neg hm, if_neg hm]

omit [DecidableEq κ] in
private theorem left_of_loop {n : Nat} {l : Loop κ} (hloop : s.loops[n]? = some l)
    (f : Loop κ → Nat) : left f s n = f l := by
  rw [left, hloop]
  rfl

/-- Letting go of sockets changes nothing but the objects. -/
theorem unref_same {cs : List κ} (h : unref k hookEnable s cs = some t) :
    ∃ world, t = { s with world := world } := by
  induction cs generalizing s with
  | nil =>
    obtain rfl := Option.some.inj h
    exact ⟨s.world, rfl⟩
  | cons c cs ih =>
    unfold unref at h
    split at h
    · exact ih h
    · obtain ⟨v, -, h⟩ := Option.bind_eq_some_iff.mp h
      exact ih (s := { s with world := v }) h

private theorem closeAll_same {cs : List κ} (h : closeAll k hookEnable s cs = some t) :
    ∃ world, t = { s with world := world } := by
  induction cs generalizing s with
  | nil =>
    obtain rfl := Option.some.inj h
    exact ⟨s.world, rfl⟩
  | cons c cs ih =>
    obtain ⟨v, -, h⟩ := Option.bind_eq_some_iff.mp h
    exact ih (s := { s with world := v }) h

/-- A step after `stop`: each task has as much less left as it has done. -/
structure WindsDown (s : TcpServer κ) (a : ServerAction κ) (t : TcpServer κ) : Prop where
  isStop : t.isStop = true
  work : ∀ n, [a].countP (task · = some n) + left work t n ≤ left work s n
  grants : ∀ n, [a].countP (accepter · = some n) + left grants t n ≤ left grants s n
  handed : t.handed.length ≤ s.handed.length + [a].countP (accepter · |>.isSome)

omit [DecidableEq κ] in
/-- A step of anything but a task. -/
theorem WindsDown.other {a : ServerAction κ} (hstop : t.isStop = true) (htask : task a = none)
    (haccepter : accepter a = none) (hloops : t.loops = s.loops) (hhanded : t.handed = s.handed) :
    WindsDown s a t := by
  have hleft : ∀ f n, left f t n = left f s n := by
    intro f n
    rw [left, left, hloops]
  refine ⟨hstop, fun n => ?_, fun n => ?_, ?_⟩
  · rw [hleft, List.countP_singleton, htask]
    simp
  · rw [hleft, List.countP_singleton, haccepter]
    simp
  · rw [hhanded]
    exact Nat.le_add_right _ _

/-- A stopped server winds down with every step but a `start`. -/
theorem step_windsDown {a : ServerAction κ} (hstop : s.isStop = true) (ha : a ≠ .start)
    (hstep : step k s a = some t) : WindsDown s a t := by
  cases a with
  | start => exact absurd rfl ha
  | bind ssl hookEnable fails tries =>
    obtain ⟨⟨u, fails'⟩, hu, rfl⟩ := Option.map_eq_some_iff.mp hstep
    obtain ⟨⟨v, socks, failed⟩, -, hu⟩ := Option.bind_eq_some_iff.mp hu
    dsimp only at hu
    split at hu
    · obtain ⟨rfl, -⟩ := Prod.mk.inj (Option.some.inj hu)
      exact .other hstop rfl rfl rfl rfl
    · obtain ⟨t', ht', heq⟩ := Option.map_eq_some_iff.mp hu
      obtain ⟨rfl, -⟩ := Prod.mk.inj heq
      obtain ⟨world, rfl⟩ := unref_same ht'
      exact .other hstop rfl rfl rfl rfl
  | stop =>
    obtain rfl := Option.some.inj hstep
    exact .other rfl rfl rfl rfl rfl
  | stopTask hookEnable =>
    dsimp only [step] at hstep
    unfold stopTask at hstep
    split at hstep
    · cases hstep
    · obtain ⟨u, hu, hstep⟩ := Option.bind_eq_some_iff.mp hstep
      obtain ⟨closed, rfl⟩ := closeAll_same hu
      obtain ⟨cleared, rfl⟩ := unref_same hstep
      exact .other hstop rfl rfl rfl rfl
  | turn n hookEnable =>
    dsimp only [step] at hstep
    unfold turn at hstep
    split at hstep
    · next c hloop =>
      rw [if_pos hstop] at hstep
      have hended : ∃ world, t = { s with world := world, loops := s.loops.set n .ended } := by
        dsimp only at hstep
        split at hstep
        · exact ⟨s.world, (Option.some.inj hstep).symm⟩
        · exact unref_same hstep
      obtain ⟨world, rfl⟩ := hended
      have hset := left_set (s := { s with world := world }) hloop
      refine ⟨hstop, fun m => ?_, fun m => ?_, Nat.le_add_right _ _⟩
      · rw [hset work .ended m]
        by_cases hm : n = m
        · subst hm
          rw [if_pos rfl, left_of_loop hloop work]
          simp [task, work]
        · simp [task, hm, left]
      · rw [hset grants .ended m]
        by_cases hm : n = m
        · simp [accepter, hm, grants]
        · simp [accepter, hm, left]
    · cases hstep
  | accepted n client hookEnable newsock names handshake optionOk =>
    dsimp only [step] at hstep
    unfold accepted at hstep
    split at hstep
    · next c o hloop =>
      split at hstep
      · cases hstep
      · obtain ⟨v, -, hstep⟩ := Option.bind_eq_some_iff.mp hstep
        have hback : t.isStop = true ∧ t.loops = s.loops.set n (.atHead c) ∧
            t.handed.length ≤ s.handed.length + 1 := by
          dsimp only at hstep
          split at hstep
          · obtain rfl := Option.some.inj hstep
            exact ⟨hstop, rfl, Nat.le_add_right _ _⟩
          · obtain ⟨v', -, rfl⟩ := Option.map_eq_some_iff.mp hstep
            exact ⟨hstop, rfl, le_rfl⟩
        obtain ⟨hstop', hloops, hhanded⟩ := hback
        have hset : ∀ f m, left f t m = if n = m then f (.atHead c) else left f s m := by
          intro f m
          rw [← left_set hloop f (.atHead c) m, left, hloops]
          rfl
        refine ⟨hstop', fun m => ?_, fun m => ?_, hhanded⟩
        · rw [hset]
          by_cases hm : n = m
          · subst hm
            rw [if_pos rfl, left_of_loop hloop work]
            simp [task, work]
          · simp [task, hm]
        · rw [hset]
          by_cases hm : n = m
          · subst hm
            rw [if_pos rfl, left_of_loop hloop grants]
            simp [accepter, grants]
          · simp [accepter, hm]
    · cases hstep
  | serve c =>
    dsimp only [step] at hstep
    split at hstep
    · obtain rfl := Option.some.inj hstep
      exact .other hstop rfl rfl rfl rfl
    · cases hstep
  | finish c hookEnable =>
    dsimp only [step] at hstep
    split at hstep
    · obtain ⟨v, -, rfl⟩ := Option.map_eq_some_iff.mp hstep
      exact .other hstop rfl rfl rfl rfl
    · cases hstep
  | other fd call =>
    obtain ⟨v, -, rfl⟩ := Option.map_eq_some_iff.mp hstep
    exact .other hstop rfl rfl rfl rfl

/-- From `stop` on, until somebody calls `start` again, each task that accepts has no more than its
pending `accept` and the end of its loop to do, and hands over a client only if it was in
`accept`. -/
theorem stop_ends_tasks (as : List (ServerAction κ)) (hstop : s.isStop = true)
    (has : ∀ a ∈ as, a ≠ .start) (hrun : run (step k) s as = some t) :
    t.isStop = true ∧
      (∀ n, as.countP (task · = some n) + left work t n ≤ left work s n) ∧
      (∀ n, as.countP (accepter · = some n) + left grants t n ≤ left grants s n) ∧
      t.handed.length ≤ s.handed.length + as.countP (accepter · |>.isSome) := by
  induction as generalizing s with
  | nil =>
    obtain rfl := Option.some.inj hrun
    exact ⟨hstop, by simp, by simp, Nat.le_add_right _ _⟩
  | cons a as ih =>
    obtain ⟨mid, hstep, hrest⟩ := Option.bind_eq_some_iff.mp hrun
    have hmid := step_windsDown hstop (has a List.mem_cons_self) hstep
    obtain ⟨hdone, hsteps, hclients, hhanded⟩ :=
      ih hmid.isStop (fun b hb => has b (List.mem_cons_of_mem a hb)) hrest
    have hcount : ∀ p : ServerAction κ → Bool, (a :: as).countP p = [a].countP p + as.countP p := by
      intro p
      rw [← List.countP_append, List.singleton_append]
    refine ⟨hdone, fun n => ?_, fun n => ?_, ?_⟩
    · have hfirst := hmid.work n
      have hlater := hsteps n
      rw [hcount]
      omega
    · have hfirst := hmid.grants n
      have hlater := hclients n
      rw [hcount]
      omega
    · have hfirst := hmid.handed
      rw [hcount]
      omega

/-- A server that listens on one address, whose task waits in `accept` when it is stopped. -/
def listening : List (ServerAction Nat) :=
  [.bind false true [] [⟨⟨2, false, [], by decide⟩, 0, 9, some 3, none, false, true, true,
    ⟨none, none⟩⟩], .start, .turn 0 true, .stop]

/-- The task that is then woken without a client ends at its next test. -/
theorem stop_wakes_task : ∃ s t : TcpServer Nat,
    run (step Descriptor.linux) ({} : TcpServer Nat) listening = some s ∧
      run (step Descriptor.linux) s [.accepted 0 1 true none ⟨none, none⟩ true true, .turn 0 true] =
        some t ∧ left work s 0 = 2 ∧ left work t 0 = 0 := by
  have hreached : (run (step Descriptor.linux) ({} : TcpServer Nat) listening).map
      (fun s => (s.isStop, left work s 0)) = some (true, 2) := by decide +kernel
  obtain ⟨s, hs, hfound⟩ := Option.map_eq_some_iff.mp hreached
  obtain ⟨hstop, hwork⟩ := Prod.mk.inj hfound
  have hended : ((run (step Descriptor.linux) ({} : TcpServer Nat) listening).bind (fun s =>
      run (step Descriptor.linux) s
        [.accepted 0 1 true none ⟨none, none⟩ true true, .turn 0 true])).isSome = true := by
    decide +kernel
  rw [hs] at hended
  obtain ⟨t, ht⟩ := Option.isSome_iff_exists.mp hended
  have hleft := (stop_ends_tasks _ hstop (by simp) ht).2.1 0
  rw [hwork] at hleft
  refine ⟨s, t, hs, ht, hwork, ?_⟩
  simp [task] at hleft
  omega

end CoroutineRpc.Server.TcpServer
