import CoroutineRpc.Registry.Renewal

/-! A service that keeps its heartbeat. If it is never more than a minute old when a sweep reads the
clock, no sweep condemns it, so the map has it from its first registration on. -/
namespace CoroutineRpc.Registry
open Rpc Text Transition Registration

variable {κ ι : Type} [DecidableEq κ] [DecidableEq ι] {key : ByteString} {s t : System κ ι}

/-- A sweep that starts finds the key young enough, if it is registered. -/
def Kept (key : ByteString) (s : System κ ι) : Action κ ι → Prop
  | .wake _ => ∀ time, s.server.timeMap.lookup key = some time → s.clock ≤ time + 60
  | _ => True

/-- No sweep finds the key stale, neither one that is about to copy the map nor one that runs. -/
structure Fresh (key : ByteString) (s : System κ ι) : Prop where
  clocked : Clocked s
  timed : ∀ w nowtime, s.sweep w = .timed nowtime →
    ∀ time, s.server.timeMap.lookup key = some time → nowtime ≤ time + 60
  sweeping : ∀ w nowtime rest, s.sweep w = .sweeping nowtime rest →
    ∀ time, ⟨key, time⟩ ∈ rest → nowtime ≤ time + 60

/-- The key is answered for as if nothing ever expired. -/
structure Served (key : ByteString) (s : System κ ι) : Prop where
  map : s.server.serviceMap.lookup key = (s.history.find? (sameKey key)).map stored
  chosen : ∀ c conn back before, s.session c = .replying conn back before → conn.key = key →
    back = keyedAnswer before key
  sent : ∀ r ∈ s.sent, r.serviceName ++ r.methodName = key → r.back = keyedAnswer r.before key

omit [DecidableEq κ] [DecidableEq ι] in
private theorem fresh_initial (h : Initial s) : Fresh key s := by
  refine ⟨clocked_initial h, ?_, ?_⟩
  · intro w nowtime hw
    rw [h.sweep w] at hw
    cases hw
  · intro w nowtime rest hw
    rw [h.sweep w] at hw
    cases hw

omit [DecidableEq κ] [DecidableEq ι] in
private theorem served_initial (h : Initial s) : Served key s := by
  refine ⟨?_, ?_, ?_⟩
  · rw [h.server, h.history]
    rfl
  · intro c conn back before hc
    obtain ⟨conn', hr⟩ := h.session c
    rw [hr] at hc
    cases hc
  · intro r hr
    rw [h.sent] at hr
    cases hr

omit [DecidableEq κ] in
/-- One sweep is replaced, and the key keeps its time or loses it. -/
theorem Fresh.update (h : Fresh key s) (hclocked : Clocked t) {w : ι} {new : Sweep}
    (hsweep : t.sweep = Function.update s.sweep w new)
    (hlookup : ∀ time, t.server.timeMap.lookup key = some time →
      s.server.timeMap.lookup key = some time)
    (htimed : ∀ nowtime, new = .timed nowtime →
      ∀ time, s.server.timeMap.lookup key = some time → nowtime ≤ time + 60)
    (hsweeping : ∀ nowtime rest, new = .sweeping nowtime rest →
      ∀ time, ⟨key, time⟩ ∈ rest → nowtime ≤ time + 60) : Fresh key t := by
  refine ⟨hclocked, ?_, ?_⟩
  · intro v nowtime hv time htime
    rw [hsweep] at hv
    rcases eq_or_ne v w with rfl | hne
    · rw [Function.update_self] at hv
      exact htimed nowtime hv time (hlookup time htime)
    · rw [Function.update_of_ne hne] at hv
      exact h.timed v nowtime hv time (hlookup time htime)
  · intro v nowtime rest hv
    rw [hsweep] at hv
    rcases update_eq_cases hv with ⟨-, he⟩ | he
    · exact hsweeping nowtime rest he
    · exact h.sweeping v nowtime rest he

omit [DecidableEq κ] in
/-- A round of a sweep can only take the time away. -/
theorem visit_time {w : ι} {nowtime : Int} {m : Sigma fun _ : ByteString => Int}
    {rest : List (Sigma fun _ : ByteString => Int)} {time : Int}
    (h : (s.visit w nowtime m rest).server.timeMap.lookup key = some time) :
    s.server.timeMap.lookup key = some time := by
  unfold System.visit at h
  dsimp only at h
  split at h
  · exact (expire_time_some h).2
  · exact h

omit [DecidableEq ι] in
/-- A registration is not older than any sweep that has read the clock. -/
theorem Fresh.enter (h : Fresh key s) (c : κ) (conn : RpcConn) : Fresh key (s.enter c conn) := by
  obtain ⟨hsweep, hclock⟩ := enter_sweep s c conn
  have hclocked : Clocked (s.enter c conn) := by
    refine ⟨?_, ?_⟩
    · rw [hsweep, hclock]
      exact h.clocked.timed
    · rw [hsweep, hclock]
      exact h.clocked.sweeping
  refine ⟨hclocked, ?_, ?_⟩
  · intro w nowtime hw time htime
    rw [hsweep] at hw
    have hle := h.clocked.timed w nowtime hw
    unfold System.enter at htime
    split at htime
    · by_cases hk : key = conn.key
      · rw [hk, RpcConn.notifyService, AList.lookup_insert] at htime
        obtain rfl := Option.some.inj htime
        omega
      · exact h.timed w nowtime hw time ((notify_time_ne conn s.clock s.server hk).symm.trans htime)
    · exact h.timed w nowtime hw time htime
  · rw [hsweep]
    exact h.sweeping

private theorem fresh_step {a : Action κ ι} (h : Fresh key s) (hkept : Kept key s a)
    (hstep : step s a = some t) : Fresh key t := by
  have hclocked := clocked_step h.clocked hstep
  cases step_to hstep with
  | tick seconds | arrive hdr session | reply session => exact ⟨hclocked, h.timed, h.sweeping⟩
  | critical session => exact h.enter _ _
  | wake sweep =>
    refine h.update hclocked rfl (fun _ htime => htime) ?_ (fun _ _ he => by cases he)
    intro nowtime he
    cases he
    exact hkept
  | @copy w nowtime order sweep perm =>
    refine h.update hclocked rfl (fun _ htime => htime) (fun _ he => by cases he) ?_
    intro nowtime' rest he time hmem
    cases he
    exact h.timed w nowtime sweep time (AList.mem_lookup_iff.mpr (perm.mem_iff.mp hmem))
  | @visit w nowtime m rest sweep =>
    refine h.update hclocked (visit_sweep s w nowtime m rest).1 (fun _ htime => visit_time htime)
      (fun _ he => by cases he) ?_
    intro nowtime' rest' he time hmem
    cases he
    exact h.sweeping w nowtime (m :: rest) sweep time (List.mem_cons_of_mem m hmem)
  | finish sweep =>
    exact h.update hclocked rfl (fun _ htime => htime) (fun _ he => by cases he)
      (fun _ _ he => by cases he)

omit [DecidableEq κ] [DecidableEq ι] in
/-- What a sweep erases is another key. -/
theorem Fresh.erasing_ne (h : Fresh key s) {w : ι} {key' : ByteString} {nowtime : Int}
    (he : s.erasing w = some (key', nowtime)) : key ≠ key' := by
  unfold System.erasing at he
  split at he
  · next nowtime' m rest hw =>
    split at he
    · next hstale =>
      cases he
      rintro rfl
      have hle := h.sweeping w nowtime (m :: rest) hw m.2 List.mem_cons_self
      omega
    · cases he
  · cases he

private theorem served_step {a : Action κ ι} (hfresh : Fresh key s) (hs : Served key s)
    (h : step s a = some t) : Served key t where
  map := by
    cases step_effect h with
    | local_ server history _ => rw [server, history, hs.map]
    | registered conn _ _ server history _ =>
      rw [server, history]
      by_cases hk : key = conn.key
      · subst hk
        rw [notify_service, List.find?_cons_of_pos (by simp [sameKey, RpcConn.key])]
        rfl
      · have hno : ¬ sameKey key
            ⟨conn.serviceName, conn.methodName, conn.ip, conn.port⟩ = true := by
          simpa [sameKey, RpcConn.key, eq_comm] using hk
        rw [notify_service_ne _ _ _ hk, List.find?_cons_of_neg hno, hs.map]
    | expired key' nowtime erasing server history _ =>
      rw [server, history, RpcServer.expire, AList.lookup_erase_ne (hfresh.erasing_ne erasing),
        hs.map]
  chosen := by
    intro c conn back before hc hkey
    rcases step_replying h hc with hold | ⟨-, rfl, rfl⟩
    · exact hs.chosen c conn back before hold hkey
    · rw [RpcConn.callingMethods, keyedAnswer, hkey, hs.map]
      cases s.history.find? (sameKey key) with
      | none => rfl
      | some r => rfl
  sent := by
    intro r hr hkey
    rcases step_sent h hr with hold | ⟨conn, hc, hservice, hmethod⟩
    · exact hs.sent r hold hkey
    · rw [hservice, hmethod] at hkey
      exact hs.chosen r.conn conn r.back r.before hc hkey

/-- As long as a key is never found more than a minute old when a sweep reads the clock, in every
state the map has the newest registration of the key, and every reply about the key was the newest
registration before it. -/
theorem heartbeat_keeps_service {start : System κ ι} (hinit : Initial start)
    {labels : List (Action κ ι)} (hkept : Guarded step (Kept key) start labels) :
    Always step (Served key) start labels := by
  have hboth : Always step (fun s => Fresh key s ∧ Served key s) start labels := by
    refine always_of_guarded ?_ ⟨fresh_initial hinit, served_initial hinit⟩ hkept
    intro s a t hs hg ht
    exact ⟨fresh_step hs.1 hg ht, served_step hs.1 hs.2 ht⟩
  exact hboth.mono (fun _ h => h.2)

/-- A sweep that comes a minute after the announcement leaves it there. -/
theorem minute_old_service_kept :
    Always step (Served [115, 109]) ({} : System Bool Unit)
      [.arrive true ⟨[115], [109], 0, 1, [49], 80⟩, .critical true, .tick 60, .wake (),
        .copy () [⟨[115, 109], 0⟩], .visit (), .visit ()] := by
  refine heartbeat_keeps_service initial_default ?_
  refine Guarded.cons rfl trivial (Guarded.cons rfl trivial (Guarded.cons rfl trivial ?_))
  refine Guarded.cons rfl ?_ (guarded_of_forall (by simp [Kept]) _)
  intro time htime
  have hzero : some (0 : Int) = some time := htime
  cases hzero
  decide

end CoroutineRpc.Registry
