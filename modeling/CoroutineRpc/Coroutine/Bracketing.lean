import CoroutineRpc.Coroutine.Switching

/-! Every switch uses the context of the fiber that is to wait and of the one that is to go on. The
fiber behind another one in the chain is both the one that has resumed it and the partner that its
flag chooses. -/
namespace CoroutineRpc.Coroutine.ThreadRun
variable {φ : Type} [DecidableEq φ]

/-- `h` has resumed `g` and is where `g` leaves to. -/
def Linked (s : ThreadRun φ) (g h : FiberRef φ) : Prop :=
  ∃ n, s.startedAt g = some (.resumed h n) ∧ s.suspendedAt h = .resumed h n ∧
    s.partnerOf g = some h

/-- What the steps of a thread rely on. -/
structure Inv (s : ThreadRun φ) : Prop where
  current : s.tFiber = s.chain.head?
  executing : ∀ g, s.chain.head? = some g → s.cpu.stack = g
  unborn : s.chain = [] → s.cpu.stack = .main
  bottom : ∀ g, s.chain.getLast? = some g → g = .main
  nodup : s.chain.Nodup
  linked : s.chain.IsChain s.Linked
  running : ∀ g, s.stateOf g = some .running ↔ g ∈ s.chain
  saved : ∀ g p, s.ctxOf g = some p → g ≠ s.cpu.stack → p = s.suspendedAt g
  owner : ∀ g, (s.suspendedAt g).stack = g
  curr : ∀ g h, s.curr g = some h → h = g
  returned : ∀ r ∈ s.returns, r.1 = some r.2
  layout : Layout s
  asserted : s.failed = none ∨ s.failed = some .resumeAssertion

private theorem layout_start : Layout ({} : ThreadRun φ) := by
  refine ⟨fun _ => ⟨rfl, rfl⟩, fun h => absurd rfl h, fun h => absurd rfl h, ?_, fun _ => rfl⟩
  intro g b hb
  cases hb

theorem inv_start : Inv ({} : ThreadRun φ) := by
  refine ⟨rfl, ?_, fun _ => rfl, ?_, List.nodup_nil, List.IsChain.nil, ?_, ?_, fun _ => rfl, ?_, ?_,
    layout_start, .inl rfl⟩
  · intro g hg
    cases hg
  · intro g hg
    cases hg
  · intro g
    constructor
    · intro hstate
      cases hstate
    · intro hg
      cases hg
  · intro g p hp
    cases hp
  · intro g h hh
    cases hh
  · intro r hr
    cases hr

section Steps
variable {s : ThreadRun φ} {g h : FiberRef φ} {rest : List (FiberRef φ)} {x : FiberCtl φ}

theorem Inv.stack_eq (hs : Inv s) (hchain : s.chain = g :: rest) : s.cpu.stack = g :=
  hs.executing g (by rw [hchain]; rfl)

omit [DecidableEq φ] in
private theorem chain_ne (hchain : s.chain = g :: rest) : s.chain ≠ [] := by
  rw [hchain]
  exact List.cons_ne_nil g rest

/-- The fibers behind the executing one wait where they were left. -/
theorem Inv.waits (hs : Inv s) (hchain : s.chain = g :: rest) (hh : h ∈ rest) :
    h ≠ g ∧ ∃ y, s.fibers h = some y ∧ y.ctx = s.suspendedAt h := by
  have hnodup := hs.nodup
  rw [hchain, List.nodup_cons] at hnodup
  have hne : h ≠ g := fun heq => hnodup.1 (heq ▸ hh)
  have hrun := (hs.running h).mpr (hchain ▸ List.mem_cons_of_mem g hh)
  obtain ⟨y, hy, -⟩ := Option.map_eq_some_iff.mp hrun
  have hctx : s.ctxOf h = some y.ctx := congrArg (Option.map FiberCtl.ctx) hy
  exact ⟨hne, y, hy, hs.saved h y.ctx hctx (hs.stack_eq hchain ▸ hne)⟩

theorem Inv.bracketed (hs : Inv s) : Bracketed s := by
  refine ⟨⟨hs.current, fun g hg => hs.executing g (hs.current ▸ hg)⟩, hs.bottom, ?_, hs.running,
    hs.returned, hs.saved, hs.asserted⟩
  cases hchain : s.chain with
  | nil => exact List.IsChain.nil
  | cons g rest =>
    have hlinked := hs.linked
    rw [hchain] at hlinked
    refine hlinked.imp_of_mem_tail_imp ?_
    rintro a h - hh ⟨n, hstarted, hsuspended, -⟩
    obtain ⟨-, y, hy, hctx⟩ := hs.waits hchain hh
    refine ⟨n, hstarted, ?_⟩
    rw [ctxOf, hy, Option.map_some, hctx, hsuspended]

/-- A fiber that does not run is not in the chain. -/
theorem Inv.not_mem (hs : Inv s) (hx : s.fibers g = some x) (hstate : x.state ≠ .running) :
    g ∉ s.chain := by
  intro hmem
  have hrun := (hs.running g).mpr hmem
  rw [stateOf, hx] at hrun
  exact hstate (Option.some.inj hrun)

theorem Inv.owner_update (hs : Inv s) {p : Point φ} (hp : p.stack = g) (k : FiberRef φ) :
    (Function.update s.suspendedAt g p k).stack = k := by
  by_cases hk : k = g
  · subst hk
    rw [Function.update_self, hp]
  · rw [Function.update_of_ne hk]
    exact hs.owner k

/-- What is stored for a stack is where that stack is left. -/
theorem Inv.saved_update (hs : Inv s) (p : Point φ) {k : FiberRef φ} {q : Point φ}
    (hq : Function.update s.ctxOf g (some p) k = some q) (hk : k ≠ g → k ≠ s.cpu.stack) :
    q = Function.update s.suspendedAt g p k := by
  by_cases hkg : k = g
  · subst hkg
    rw [Function.update_self] at hq ⊢
    exact (Option.some.inj hq).symm
  · rw [Function.update_of_ne hkg] at hq ⊢
    exact hs.saved k q hq (hk hkg)

/-- A fiber outside the chain that does not run is none of those that do. -/
theorem Inv.running_update (hs : Inv s) (hout : g ∉ s.chain) {state : FiberState}
    (hstate : state ≠ .running) (k : FiberRef φ) :
    Function.update s.stateOf g (some state) k = some .running ↔ k ∈ s.chain := by
  by_cases hk : k = g
  · subst hk
    rw [Function.update_self]
    exact iff_of_false (fun heq => hstate (Option.some.inj heq)) hout
  · rw [Function.update_of_ne hk]
    exact hs.running k

omit [DecidableEq φ] in
/-- Nothing happens to the two fibers that concerns them both. -/
theorem Linked.congr {t : ThreadRun φ} (hlink : s.Linked g h)
    (hstarted : t.startedAt g = s.startedAt g) (hsuspended : t.suspendedAt h = s.suspendedAt h)
    (hpartner : t.partnerOf g = s.partnerOf g) : t.Linked g h := by
  obtain ⟨n, hs, hp, hq⟩ := hlink
  exact ⟨n, hstarted.trans hs, hsuspended.trans hp, hpartner.trans hq⟩

theorem Inv.enter (hs : Inv s) (hchain : s.chain = h :: rest) (hx : s.fibers g = some x)
    (hready : x.state = .ready) (hpartner : s.partner x = some h) : Inv (s.resume g) := by
  have hout : g ∉ s.chain := hs.not_mem hx (by rw [hready]; decide)
  have hmem : h ∈ s.chain := by
    rw [hchain]
    exact List.mem_cons_self
  have hne : h ≠ g := fun heq => hout (heq ▸ hmem)
  have hstack := hs.stack_eq hchain
  obtain ⟨y, hy, -⟩ := Option.map_eq_some_iff.mp ((hs.running h).mpr hmem)
  have hctx : x.ctx = s.suspendedAt g :=
    hs.saved g x.ctx (congrArg (Option.map FiberCtl.ctx) hx) (hstack ▸ hne.symm)
  have hcpu : x.ctx.stack = g := by rw [hctx, hs.owner]
  have hnodup := hs.nodup
  rw [resume_eq hx hready hpartner hy hne hstack]
  have hflag := entered_flag hx hne hy
  have hpartners : (s.entered g h x y).partnerOf = s.partnerOf := by
    funext k
    rw [partnerOf, hflag]
    rfl
  refine ⟨rfl, ?_, ?_, ?_, List.nodup_cons.mpr ⟨hout, hnodup⟩, ?_, ?_, ?_, ?_, hs.curr, hs.returned,
    ?_, hs.asserted⟩
  · intro k hk
    obtain rfl := Option.some.inj hk
    exact hcpu
  · intro hnil
    cases hnil
  · intro k hk
    refine hs.bottom k ?_
    change (g :: s.chain).getLast? = some k at hk
    rw [hchain, List.getLast?_cons_cons] at hk
    rw [hchain]
    exact hk
  · have hlinked := hs.linked
    change (g :: s.chain).IsChain (s.entered g h x y).Linked
    rw [hchain] at hout hlinked hnodup ⊢
    refine List.isChain_cons_cons.mpr ⟨⟨s.switches, ?_, ?_, ?_⟩, hlinked.imp_of_mem_tail_imp ?_⟩
    · exact Function.update_self _ _ _
    · exact Function.update_self _ _ _
    · rw [hpartners, partnerOf_eq hx, hpartner]
    · intro a b ha hb hlink
      have hag : a ≠ g := fun heq => hout (heq ▸ ha)
      have hbh : b ≠ h := fun heq => (List.nodup_cons.mp hnodup).1 (heq ▸ hb)
      exact hlink.congr (Function.update_of_ne hag _ _) (Function.update_of_ne hbh _ _)
        (congrFun hpartners a)
  · intro k
    rw [entered_state hne hy]
    by_cases hk : k = g
    · subst hk
      rw [Function.update_self]
      exact ⟨fun _ => List.mem_cons_self, fun _ => rfl⟩
    · rw [Function.update_of_ne hk, hs.running k]
      exact (List.mem_cons.trans (or_iff_right hk)).symm
  · intro k p hp _
    rw [entered_ctx hx] at hp
    exact hs.saved_update _ hp (fun hk => hstack ▸ hk)
  · exact hs.owner_update (Point.stack_resumed h s.switches)
  · exact hs.layout.congr hflag rfl rfl rfl (iff_of_false (List.cons_ne_nil _ _) (chain_ne hchain))

/-- Leaving `g` for the fiber behind it, to rest or for good. -/
theorem Inv.leave (hs : Inv s) (hchain : s.chain = g :: h :: rest) (hx : s.fibers g = some x)
    {y : FiberCtl φ} (hy : s.fibers h = some y) {state : FiberState} (hstate : state ≠ .running) :
    Inv (s.left g h x y state) := by
  have hstack := hs.stack_eq hchain
  have hnodup := hs.nodup
  have hlinked := hs.linked
  have hhead : (s.left g h x y state).chain = h :: rest := by
    change s.chain.tail = _
    rw [hchain, List.tail_cons]
  rw [hchain] at hnodup hlinked
  obtain ⟨hout, hnodup'⟩ := List.nodup_cons.mp hnodup
  obtain ⟨⟨n, hstarted, hsuspended, -⟩, hlinked'⟩ := List.isChain_cons_cons.mp hlinked
  have hne : h ≠ g := fun heq => hout (heq ▸ List.mem_cons_self)
  have hctx : y.ctx = .resumed h n :=
    (hs.saved h y.ctx (congrArg (Option.map FiberCtl.ctx) hy) (hstack ▸ hne)).trans hsuspended
  have hflag := left_flag (h := h) (y := y) hx state
  refine ⟨?_, ?_, ?_, ?_, hhead ▸ hnodup', ?_, ?_, ?_, ?_, hs.curr, ?_, ?_, hs.asserted⟩
  · rw [hhead]
    rfl
  · intro k hk
    rw [hhead] at hk
    obtain rfl := Option.some.inj hk
    change y.ctx.stack = h
    rw [hctx, Point.stack_resumed]
  · intro hnil
    cases hhead.symm.trans hnil
  · intro k hk
    refine hs.bottom k ?_
    rw [hhead] at hk
    rw [hchain, List.getLast?_cons_cons]
    exact hk
  · rw [hhead]
    refine hlinked'.imp_of_mem_tail_imp ?_
    intro a b _ hb hlink
    have hbg : b ≠ g := fun heq => hout (heq ▸ List.mem_cons_of_mem _ hb)
    refine hlink.congr rfl (Function.update_of_ne hbg _ _) ?_
    rw [partnerOf, hflag]
    rfl
  · intro k
    rw [left_state, hhead]
    by_cases hk : k = g
    · subst hk
      rw [Function.update_self]
      exact ⟨fun heq => absurd (Option.some.inj heq) hstate, fun hmem => absurd hmem hout⟩
    · rw [Function.update_of_ne hk, hs.running k, hchain]
      exact List.mem_cons.trans (or_iff_right hk)
  · intro k p hp _
    rw [left_ctx] at hp
    exact hs.saved_update _ hp (fun hk => hstack ▸ hk)
  · exact hs.owner_update (Point.stack_yielded g s.switches)
  · refine List.forall_mem_cons.mpr ⟨?_, hs.returned⟩
    rw [hstarted, hctx]
  · exact hs.layout.congr hflag rfl rfl rfl (iff_of_false (chain_ne hhead) (chain_ne hchain))

/-- The fiber that leaves, and the one where it leaves to. -/
theorem Inv.leaving (hs : Inv s) (hstack : s.cpu.stack = g) (hg : g ≠ .main) :
    ∃ h rest x y, s.chain = g :: h :: rest ∧ s.fibers g = some x ∧ x.state = .running ∧
      s.partner x = some h ∧ s.fibers h = some y ∧ h ≠ g := by
  have hlinked := hs.linked
  have hbottom := hs.bottom
  match hchain : s.chain with
  | [] => exact absurd (hstack.symm.trans (hs.unborn hchain)) hg
  | [k] =>
    obtain rfl : k = g := (hs.stack_eq hchain).symm.trans hstack
    exact absurd (hbottom k (by rw [hchain]; rfl)) hg
  | k :: h :: rest =>
    obtain rfl : k = g := (hs.stack_eq hchain).symm.trans hstack
    rw [hchain] at hlinked
    obtain ⟨⟨n, -, -, hpartner⟩, -⟩ := List.isChain_cons_cons.mp hlinked
    obtain ⟨hne, y, hy, -⟩ := hs.waits hchain List.mem_cons_self
    have hmem : k ∈ s.chain := by
      rw [hchain]
      exact List.mem_cons_self
    obtain ⟨x, hx, hrun⟩ := Option.map_eq_some_iff.mp ((hs.running k).mpr hmem)
    rw [partnerOf_eq hx] at hpartner
    exact ⟨h, rest, x, y, rfl, hx, hrun, hpartner, hy, hne⟩

theorem Inv.yield (hs : Inv s) (hstack : s.cpu.stack = g) (hg : g ≠ .main) : Inv (s.yield g) := by
  obtain ⟨h, rest, x, y, hchain, hx, hrun, hpartner, hy, hne⟩ := hs.leaving hstack hg
  have hstate : x.state ≠ .ready := by
    rw [hrun]
    decide
  rw [yield_eq hx hstate hpartner hy hne hstack, hrun]
  exact hs.leave hchain hx hy (by decide)

theorem Inv.finish (hs : Inv s) (hstack : s.cpu.stack = g) (hg : g ≠ .main) :
    Inv (s.finish g) := by
  obtain ⟨h, rest, x, y, hchain, hx, -, hpartner, hy, hne⟩ := hs.leaving hstack hg
  rw [finish_eq hx hpartner hy hne hstack]
  exact hs.leave hchain hx hy (by decide)

theorem Inv.fail (hs : Inv s) : Inv (s.fail .resumeAssertion) :=
  ⟨hs.current, hs.executing, hs.unborn, hs.bottom, hs.nodup, hs.linked, hs.running, hs.saved,
    hs.owner, hs.curr, hs.returned, hs.layout.congr rfl rfl rfl rfl Iff.rfl, .inr rfl⟩

/-- A `resume` from the fiber that is the partner, unless its assertion fails. -/
theorem Inv.resume (hs : Inv s) (hx : s.fibers g = some x)
    (hfrom : x.state = .ready → ∃ h rest, s.chain = h :: rest ∧ s.partner x = some h) :
    Inv (s.resume g) := by
  by_cases hready : x.state = .ready
  · obtain ⟨h, rest, hchain, hpartner⟩ := hfrom hready
    exact hs.enter hchain hx hready hpartner
  · have hfail : s.resume g = s.fail .resumeAssertion := by
      unfold ThreadRun.resume
      rw [hx]
      exact if_neg hready
    rw [hfail]
    exact hs.fail

end Steps
end CoroutineRpc.Coroutine.ThreadRun
