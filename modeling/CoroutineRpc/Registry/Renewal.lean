import CoroutineRpc.Registry.Answers

/-! What becomes of a registration that is not renewed. The two maps always have the same keys,
and a sweep that is young enough finds the old timestamp in its copy and erases it from both. -/
namespace CoroutineRpc.Registry
open Rpc Text Transition

variable {κ ι : Type}

def SameKeys (s : System κ ι) : Prop :=
  ∀ key, key ∈ s.server.serviceMap ↔ key ∈ s.server.timeMap

/-- The step is a registration of the key. -/
def Registers (key : ByteString) (s : System κ ι) : Action κ ι → Prop
  | .critical c => ∃ conn, s.session c = .decoded conn ∧ conn.type = 1 ∧ conn.key = key
  | _ => False

/-- No sweep knows a later time than the clock. -/
structure Clocked (s : System κ ι) : Prop where
  timed : ∀ w nowtime, s.sweep w = .timed nowtime → nowtime ≤ s.clock
  sweeping : ∀ w nowtime rest, s.sweep w = .sweeping nowtime rest → nowtime ≤ s.clock

/-- The key has the timestamp of its last registration or none, and a sweep that will find it
stale still has it ahead. -/
structure Ageing (key : ByteString) (r : Int) (s : System κ ι) : Prop where
  time : ∀ t, s.server.timeMap.lookup key = some t → t = r
  ahead : ∀ w nowtime rest, s.sweep w = .sweeping nowtime rest → r + 60 < nowtime →
    ∀ t, s.server.timeMap.lookup key = some t → ⟨key, t⟩ ∈ rest

variable [DecidableEq κ] [DecidableEq ι]

/-- In the run, the last registration of its key is the one that `conn` makes at time `r`. -/
def LastRegistered (start : System κ ι) (labels : List (Action κ ι)) (conn : RpcConn) (r : Int) :
    Prop :=
  ∃ before c after u v, labels = before ++ .critical c :: after ∧ run step start before = some u ∧
    u.session c = .decoded conn ∧ conn.type = 1 ∧ u.clock = r ∧ step u (.critical c) = some v ∧
    Guarded step (fun s a => ¬ Registers conn.key s a) v after

/-- A query for the key is answered this. -/
def Returns (s : System κ ι) (key back : ByteString) : Prop :=
  ∃ c conn t before, s.session c = .decoded conn ∧ conn.type ≠ 1 ∧ conn.key = key ∧
    step s (.critical c) = some t ∧ t.session c = .replying conn back before

omit [DecidableEq κ] [DecidableEq ι] in
private theorem sameKeys_initial {s : System κ ι} (h : Initial s) : SameKeys s := by
  intro key
  rw [h.server]
  exact Iff.rfl

/-- Both maps gain and lose a key together. -/
theorem sameKeys_step {s t : System κ ι} {a : Action κ ι} (hs : SameKeys s)
    (h : step s a = some t) : SameKeys t := by
  intro key
  cases step_effect h with
  | local_ server _ _ => rw [server, hs key]
  | registered conn _ _ server _ _ =>
    rw [server, RpcConn.notifyService, AList.mem_insert, AList.mem_insert, hs key]
  | expired key' nowtime _ server _ _ =>
    rw [server, RpcServer.expire, AList.mem_erase, AList.mem_erase, hs key]

omit [DecidableEq κ] [DecidableEq ι] in
theorem clocked_initial {s : System κ ι} (h : Initial s) : Clocked s := by
  constructor
  · intro w nowtime hw
    rw [h.sweep w] at hw
    cases hw
  · intro w nowtime rest hw
    rw [h.sweep w] at hw
    cases hw

omit [DecidableEq κ] in
theorem visit_sweep (s : System κ ι) (w : ι) (nowtime : Int) (m : Sigma fun _ : ByteString => Int)
    (rest : List (Sigma fun _ : ByteString => Int)) :
    (s.visit w nowtime m rest).sweep = Function.update s.sweep w (.sweeping nowtime rest) ∧
      (s.visit w nowtime m rest).clock = s.clock := by
  unfold System.visit
  dsimp only
  split
  · exact ⟨rfl, rfl⟩
  · exact ⟨rfl, rfl⟩

omit [DecidableEq ι] in
theorem enter_sweep (s : System κ ι) (c : κ) (conn : RpcConn) :
    (s.enter c conn).sweep = s.sweep ∧ (s.enter c conn).clock = s.clock := by
  unfold System.enter
  split
  · exact ⟨rfl, rfl⟩
  · exact ⟨rfl, rfl⟩

omit [DecidableEq κ] in
/-- A sweep that is put in place of another one keeps the times below the clock. -/
theorem clocked_update {s t : System κ ι} (hs : Clocked s) {w : ι} {new : Sweep}
    (hsweep : t.sweep = Function.update s.sweep w new) (hclock : t.clock = s.clock)
    (htimed : ∀ nowtime, new = .timed nowtime → nowtime ≤ s.clock)
    (hsweeping : ∀ nowtime rest, new = .sweeping nowtime rest → nowtime ≤ s.clock) :
    Clocked t := by
  constructor
  · intro v nowtime hv
    rw [hsweep] at hv
    rw [hclock]
    by_cases he : v = w
    · subst he
      rw [Function.update_self] at hv
      exact htimed nowtime hv
    · rw [Function.update_of_ne he] at hv
      exact hs.timed v nowtime hv
  · intro v nowtime rest hv
    rw [hsweep] at hv
    rw [hclock]
    rcases update_eq_cases hv with ⟨-, he⟩ | he
    · exact hsweeping nowtime rest he
    · exact hs.sweeping v nowtime rest he

theorem clocked_step {s t : System κ ι} {a : Action κ ι} (hs : Clocked s)
    (h : step s a = some t) : Clocked t := by
  cases step_to h with
  | tick seconds =>
    have hle : s.clock ≤ s.clock + seconds := Int.le_add_of_nonneg_right (Int.natCast_nonneg _)
    exact ⟨fun w n hw => (hs.timed w n hw).trans hle, fun w n r hw => (hs.sweeping w n r hw).trans hle⟩
  | arrive hdr session | reply session => exact ⟨hs.timed, hs.sweeping⟩
  | @critical c conn session =>
    obtain ⟨hsweep, hclock⟩ := enter_sweep s c conn
    constructor
    · rw [hsweep, hclock]
      exact hs.timed
    · rw [hsweep, hclock]
      exact hs.sweeping
  | wake sweep =>
    refine clocked_update hs rfl rfl ?_ (fun _ _ he => by cases he)
    intro nowtime he
    cases he
    exact Int.le_refl _
  | @copy w nowtime order sweep perm =>
    refine clocked_update hs rfl rfl (fun _ he => by cases he) ?_
    intro n rest he
    cases he
    exact hs.timed w nowtime sweep
  | @visit w nowtime m rest sweep =>
    obtain ⟨hsweep, hclock⟩ := visit_sweep s w nowtime m rest
    refine clocked_update hs hsweep hclock (fun _ he => by cases he) ?_
    intro n rest' he
    cases he
    exact hs.sweeping w nowtime _ sweep
  | finish sweep =>
    exact clocked_update hs rfl rfl (fun _ he => by cases he) (fun _ _ he => by cases he)

omit [DecidableEq ι] in
/-- Right after a registration no sweep that runs is young enough to find it stale. -/
theorem ageing_registered {s : System κ ι} {c : κ} {conn : RpcConn} (hs : Clocked s)
    (htype : conn.type = 1) : Ageing conn.key s.clock (s.enter c conn) := by
  have hserver : (s.enter c conn).server = conn.notifyService s.clock s.server := by
    rw [System.enter, if_pos htype]
  constructor
  · intro t ht
    rw [hserver, RpcConn.notifyService, AList.lookup_insert] at ht
    exact (Option.some.inj ht).symm
  · intro w nowtime rest hw hlate
    rw [(enter_sweep s c conn).1] at hw
    have hle := hs.sweeping w nowtime rest hw
    omega

section Ageing
variable {key : ByteString} {r : Int} {s t : System κ ι}

omit [DecidableEq κ] [DecidableEq ι] in
/-- Nothing changes for the key. -/
theorem Ageing.same (h : Ageing key r s) (hsweep : t.sweep = s.sweep)
    (hlookup : t.server.timeMap.lookup key = s.server.timeMap.lookup key) : Ageing key r t := by
  constructor
  · rw [hlookup]
    exact h.time
  · rw [hsweep, hlookup]
    exact h.ahead

omit [DecidableEq κ] in
/-- One sweep is replaced, and the key keeps its time or loses it. -/
theorem Ageing.update (h : Ageing key r s) {w : ι} {new : Sweep}
    (hsweep : t.sweep = Function.update s.sweep w new)
    (hlookup : ∀ time, t.server.timeMap.lookup key = some time →
      s.server.timeMap.lookup key = some time)
    (hnew : ∀ nowtime rest, new = .sweeping nowtime rest → r + 60 < nowtime →
      ∀ time, t.server.timeMap.lookup key = some time → ⟨key, time⟩ ∈ rest) : Ageing key r t := by
  constructor
  · exact fun time htime => h.time time (hlookup time htime)
  · intro v nowtime rest hv hlate time htime
    rw [hsweep] at hv
    rcases update_eq_cases hv with ⟨-, he⟩ | he
    · exact hnew nowtime rest he hlate time htime
    · exact h.ahead v nowtime rest he hlate time (hlookup time htime)

omit [DecidableEq κ] in
/-- A round of a sweep either erases the key or leaves it ahead. -/
theorem Ageing.visit (h : Ageing key r s) {w : ι} {nowtime : Int}
    {m : Sigma fun _ : ByteString => Int} {rest : List (Sigma fun _ : ByteString => Int)}
    (hw : s.sweep w = .sweeping nowtime (m :: rest)) : Ageing key r (s.visit w nowtime m rest) := by
  have hlookup : ∀ time, (s.visit w nowtime m rest).server.timeMap.lookup key = some time →
      s.server.timeMap.lookup key = some time ∧ (m.2 + 60 < nowtime → key ≠ m.1) := by
    intro time htime
    unfold System.visit at htime
    dsimp only at htime
    split at htime
    · obtain ⟨hne, hold⟩ := expire_time_some htime
      exact ⟨hold, fun _ => hne⟩
    · next hfresh => exact ⟨htime, fun hstale => absurd hstale hfresh⟩
  refine h.update (visit_sweep s w nowtime m rest).1 (fun time htime => (hlookup time htime).1) ?_
  intro n rest' he hlate time htime
  cases he
  obtain ⟨hold, hkept⟩ := hlookup time htime
  rcases List.mem_cons.mp (h.ahead w nowtime (m :: rest) hw hlate time hold) with rfl | hrest
  · rw [h.time time hold] at hkept
    exact absurd rfl (hkept hlate)
  · exact hrest

private theorem ageing_step {a : Action κ ι} (hs : Ageing key r s) (hquiet : ¬ Registers key s a)
    (h : step s a = some t) : Ageing key r t := by
  cases step_to h with
  | tick seconds | arrive hdr session | reply session => exact hs.same rfl rfl
  | @critical c conn session =>
    refine hs.same (enter_sweep s c conn).1 ?_
    unfold System.enter
    split
    · next htype =>
      have hne : key ≠ conn.key := fun he => hquiet ⟨conn, session, htype, he.symm⟩
      exact notify_time_ne conn s.clock s.server hne
    · rfl
  | wake sweep | finish sweep =>
    exact hs.update rfl (fun _ htime => htime) (fun _ _ he => by cases he)
  | copy sweep perm =>
    refine hs.update rfl (fun _ htime => htime) ?_
    intro nowtime rest he _ time htime
    cases he
    exact perm.mem_iff.mpr (AList.mem_lookup_iff.mp htime)
  | visit sweep => exact hs.visit sweep

omit [DecidableEq κ] [DecidableEq ι] in
/-- A young enough sweep that has nothing ahead any more leaves no timestamp. -/
theorem Ageing.gone (h : Ageing key r s) {w : ι} {nowtime : Int}
    (hw : s.sweep w = .sweeping nowtime []) (hlate : r + 60 < nowtime) :
    key ∉ s.server.timeMap := by
  intro hmem
  obtain ⟨time, htime⟩ := Option.isSome_iff_exists.mp (AList.lookup_isSome.mpr hmem)
  exact absurd (h.ahead w nowtime [] hw hlate time htime) List.not_mem_nil

/-- A key that is gone stays away until it is registered. -/
theorem gone_step {a : Action κ ι} (hs : key ∉ s.server.timeMap) (hquiet : ¬ Registers key s a)
    (h : step s a = some t) : key ∉ t.server.timeMap := by
  cases step_effect h with
  | local_ server _ _ => rwa [server]
  | registered conn decoded type server _ _ =>
    rw [server, RpcConn.notifyService, AList.mem_insert]
    rintro (he | hmem)
    · exact hquiet ⟨conn, decoded, type, he.symm⟩
    · exact hs hmem
  | expired key' nowtime _ server _ _ =>
    rw [server, RpcServer.expire, AList.mem_erase]
    exact fun hmem => hs hmem.2

/-- A query for a key that is in neither map gets the error text. -/
theorem returns_gone (hkeys : SameKeys s) (hgone : key ∉ s.server.timeMap) {back : ByteString}
    (h : Returns s key back) : back = ascii "error" := by
  obtain ⟨c, conn, t, before, hdecoded, htype, rfl, hstep, hreply⟩ := h
  have hlookup : s.server.serviceMap.lookup conn.key = none :=
    AList.lookup_eq_none.mpr (fun hmem => hgone ((hkeys conn.key).mp hmem))
  rcases step_replying hstep hreply with hold | ⟨-, rfl, -⟩
  · rw [hdecoded] at hold
    cases hold
  · rw [RpcConn.callingMethods, hlookup]

/-- The last registration of a key is what ages. -/
theorem lastRegistered_ageing {start : System κ ι} (hinit : Initial start)
    {labels : List (Action κ ι)} {conn : RpcConn} (hlast : LastRegistered start labels conn r)
    (hrun : run step start labels = some s) : Ageing conn.key r s := by
  obtain ⟨before, c, after, u, v, rfl, hbefore, hdecoded, htype, rfl, hregister, hquiet⟩ := hlast
  have hclocked : Clocked u :=
    inv_of_run (fun _ _ _ hs h => clocked_step hs h) (clocked_initial hinit) hbefore
  have henter : v = u.enter c conn := by
    simp only [step, hdecoded] at hregister
    exact (Option.some.inj hregister).symm
  subst henter
  rw [run_append, hbefore, Option.bind_some, run_cons, hregister, Option.bind_some] at hrun
  exact inv_of_guarded_run (fun _ _ _ hs hq h => ageing_step hs hq h)
    (ageing_registered hclocked htype) hquiet hrun

private theorem finish_server {w : ι} {nowtime : Int} (hw : s.sweep w = .sweeping nowtime [])
    (h : step s (.visit w) = some t) : t.server = s.server := by
  simp only [step, hw] at h
  cases h
  rfl

end Ageing

/-- The maps have the same keys in every state. When a sweep has finished whose nowtime is more
than a minute after the last registration of a key, no query for the key returns the address of
this registration as long as the key is not registered again. -/
theorem expired_not_served {start : System κ ι} (hinit : Initial start) :
    (∀ labels, Always step SameKeys start labels) ∧
    ∀ labels s conn r w nowtime t later u, run step start labels = some s →
      LastRegistered start labels conn r → s.sweep w = .sweeping nowtime [] → r + 60 < nowtime →
      step s (.visit w) = some t → run step t later = some u →
      Guarded step (fun s a => ¬ Registers conn.key s a) t later →
        ¬ Returns u conn.key conn.endpoint := by
  have hkeys : ∀ labels, Always step SameKeys start labels :=
    always_of_step (fun _ _ _ hs h => sameKeys_step hs h) (sameKeys_initial hinit)
  refine ⟨hkeys, ?_⟩
  intro labels s conn r w nowtime t later u hrun hlast hw hlate hfinish hlater hquiet hreturns
  have hgone : conn.key ∉ t.server.timeMap := by
    rw [finish_server hw hfinish]
    exact (lastRegistered_ageing hinit hlast hrun).gone hw hlate
  have hkept : ∀ (s : System κ ι) a t, conn.key ∉ s.server.timeMap →
      ¬ Registers conn.key s a → step s a = some t → conn.key ∉ t.server.timeMap :=
    fun _ _ _ hs hq h => gone_step hs hq h
  have hgone' : conn.key ∉ u.server.timeMap := inv_of_guarded_run hkept hgone hquiet hlater
  have hsame : SameKeys u :=
    inv_of_run (fun _ _ _ hs h => sameKeys_step hs h)
      (sameKeys_step ((hkeys labels).finish hrun) hfinish) hlater
  exact error_ne (returns_gone hsame hgone' hreturns)

/-- The connection that has announced `s.m` at `1:80`. -/
def announcer : RpcConn := ({} : RpcConn).load ⟨[115], [109], 0, 1, [49], 80⟩

/-- One announcement, and a sweep that comes 61 seconds later. -/
def announced : List (Action Bool Unit) :=
  [.arrive true ⟨[115], [109], 0, 1, [49], 80⟩, .critical true, .tick 61, .wake (),
    .copy () [⟨[115, 109], 0⟩], .visit ()]

/-- Another client asks for it. -/
def asked : List (Action Bool Unit) := [.arrive false ⟨[115], [109], 0, 0, [], 0⟩]

theorem lost_after_a_minute :
    ∃ s t u, run step ({} : System Bool Unit) announced = some s ∧ step s (.visit ()) = some t ∧
      run step t asked = some u ∧
      ¬ Returns u [115, 109] [49, 58, 56, 48] := by
  refine ⟨_, _, _, rfl, rfl, rfl, ?_⟩
  have hlast : LastRegistered ({} : System Bool Unit) announced announcer 0 := by
    refine ⟨[.arrive true ⟨[115], [109], 0, 1, [49], 80⟩], true, _, _, _, rfl, rfl, rfl, rfl, rfl,
      rfl, ?_⟩
    exact guarded_of_forall (by simp [Registers]) _
  exact (expired_not_served initial_default).2 announced _ announcer 0 () 61 _ asked _ rfl hlast
    rfl (by decide) rfl rfl (guarded_of_forall (by simp [asked, Registers]) _)

end CoroutineRpc.Registry
