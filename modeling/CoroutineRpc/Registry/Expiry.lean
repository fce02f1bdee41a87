import CoroutineRpc.Registry.System

/-! What a sweep erases. The copy it decides on may be out of date when it acts:
a registration in between is lost, and nothing else can make an erasure wrong. -/
namespace CoroutineRpc.Registry
open Rpc Transition

variable {κ ι : Type} [DecidableEq κ] [DecidableEq ι]

/-- Whatever the sweep is about to erase is, at this moment, stale for its nowtime. -/
def EraseFindsStale (s : System κ ι) (w : ι) : Prop :=
  ∀ key nowtime, s.erasing w = some (key, nowtime) →
    ∀ t, s.server.timeMap.lookup key = some t → t + 60 < nowtime

/-- A registration happens only while no sweep has its key condemned. -/
def Quiet (s : System κ ι) : Action κ ι → Prop
  | .critical c => ∀ conn, s.session c = .decoded conn → conn.type = 1 →
      ∀ w, conn.key ∉ s.condemned w
  | _ => True

/-- The stale entries of every copy still carry the timestamps of the live map. -/
def CopiesCurrent (s : System κ ι) : Prop :=
  ∀ w nowtime rest, s.sweep w = .sweeping nowtime rest →
    ∀ m ∈ rest, m.2 + 60 < nowtime → ∀ t, s.server.timeMap.lookup m.1 = some t → t = m.2

omit [DecidableEq κ] [DecidableEq ι] in
private theorem mem_condemned {s : System κ ι} {w : ι} {key : ByteString} :
    key ∈ s.condemned w ↔ ∃ nowtime rest, s.sweep w = .sweeping nowtime rest ∧
      ∃ m ∈ rest, m.2 + 60 < nowtime ∧ m.1 = key := by
  unfold System.condemned
  split
  · rename_i nowtime rest hw
    simp only [List.mem_map, List.mem_filter, decide_eq_true_eq, and_assoc]
    constructor
    · intro h
      exact ⟨nowtime, rest, hw, h⟩
    · rintro ⟨n, r, he, h⟩
      obtain ⟨rfl, rfl⟩ := Sweep.sweeping.inj (hw.symm.trans he)
      exact h
  · rename_i hno
    constructor
    · intro h
      cases h
    · rintro ⟨n, r, he, _⟩
      exact absurd he (hno n r)

omit [DecidableEq κ] [DecidableEq ι] in
private theorem erasing_entry {s : System κ ι} {w : ι} {key : ByteString} {nowtime : Int}
    (h : s.erasing w = some (key, nowtime)) :
    ∃ m rest, s.sweep w = .sweeping nowtime (m :: rest) ∧ m.2 + 60 < nowtime ∧ m.1 = key := by
  unfold System.erasing at h
  split at h
  · rename_i n m rest hw
    split at h
    · rename_i hstale
      obtain ⟨rfl, rfl⟩ := Prod.mk.inj (Option.some.inj h)
      exact ⟨m, rest, hw, hstale, rfl⟩
    · cases h
  · cases h

omit [DecidableEq κ] [DecidableEq ι] in
private theorem copiesCurrent_initial {s : System κ ι} (h : Initial s) : CopiesCurrent s := by
  intro w nowtime rest hw
  rw [h.sweep w] at hw
  cases hw

/-- Away from quiet registrations the copies stay current: expiry only removes timestamps,
and a fresh copy agrees with the map it was taken from. -/
theorem copiesCurrent_step {s t : System κ ι} {a : Action κ ι} (hs : CopiesCurrent s)
    (hquiet : Quiet s a) (h : step s a = some t) : CopiesCurrent t := by
  intro w nowtime rest hw m hm hstale time htime
  cases step_effect h with
  | local_ server history sweeps =>
    rw [server] at htime
    rcases sweeps w nowtime rest hw with ⟨rest', hw', hsub⟩ | ⟨_, hperm⟩
    · exact hs w nowtime rest' hw' m (hsub hm) hstale time htime
    · have hentry : m.2 ∈ s.server.timeMap.lookup m.1 :=
        AList.mem_lookup_iff.mpr (hperm.mem_iff.mp hm)
      rw [Option.mem_def.mp hentry] at htime
      exact (Option.some.inj htime).symm
  | registered conn decoded type server history sweeps =>
    rw [sweeps] at hw
    have hne : m.1 ≠ conn.key := by
      intro he
      exact hquiet conn decoded type w
        (mem_condemned.mpr ⟨nowtime, rest, hw, m, hm, hstale, he⟩)
    rw [server, notify_time_ne conn _ _ hne] at htime
    exact hs w nowtime rest hw m hm hstale time htime
  | expired key n erasing server history sweeps =>
    obtain ⟨rest', hw', hsub⟩ := sweeps w nowtime rest hw
    rw [server] at htime
    exact hs w nowtime rest' hw' m (hsub hm) hstale time (expire_time_some htime).2

omit [DecidableEq κ] [DecidableEq ι] in
private theorem erase_stale_of_current {s : System κ ι} (h : CopiesCurrent s) (w : ι) :
    EraseFindsStale s w := by
  intro key nowtime he time htime
  obtain ⟨m, rest, hw, hstale, rfl⟩ := erasing_entry he
  rw [h w nowtime (m :: rest) hw m List.mem_cons_self hstale time htime]
  exact hstale

/-- Along every run whose registrations are quiet, no sweep erases a fresh timestamp. -/
theorem quiet_runs_erase_stale {start : System κ ι} (hinit : Initial start)
    {labels : List (Action κ ι)} (hquiet : Guarded step Quiet start labels) :
    Always step (fun s => ∀ w, EraseFindsStale s w) start labels := by
  have hcur : Always step CopiesCurrent start labels :=
    always_of_guarded (fun s a t hs hg ht => copiesCurrent_step hs hg ht)
      (copiesCurrent_initial hinit) hquiet
  exact hcur.mono (fun s hs => erase_stale_of_current hs)

/-- Left alone, a sweep reaches every key it has condemned and erases whatever timestamp
the live map holds for it by then. Quietness therefore excludes no harmless registration. -/
theorem condemned_reached (s : System κ ι) {w : ι} {key : ByteString} {time : Int}
    (hkey : key ∈ s.condemned w) (htime : s.server.timeMap.lookup key = some time) :
    ∃ i u nowtime, run step s (List.replicate i (.visit w)) = some u ∧
      u.erasing w = some (key, nowtime) ∧ u.server.timeMap.lookup key = some time := by
  obtain ⟨nowtime, rest, hw, m, hm, hstale, rfl⟩ := mem_condemned.mp hkey
  clear hkey
  induction rest generalizing s with
  | nil => cases hm
  | cons head rest ih =>
    have hvisit : step s (.visit w) = some (s.visit w nowtime head rest) := by simp [step, hw]
    have hsweep : (s.visit w nowtime head rest).sweep w = .sweeping nowtime rest := by
      simp only [System.visit]
      split <;> simp
    by_cases hreached : head.2 + 60 < nowtime ∧ head.1 = m.1
    · exact ⟨0, s, nowtime, rfl, by simp [System.erasing, hw, hreached], htime⟩
    · have hm' : m ∈ rest := by
        rcases List.mem_cons.mp hm with rfl | h
        · exact absurd ⟨hstale, rfl⟩ hreached
        · exact h
      have htime' : (s.visit w nowtime head rest).server.timeMap.lookup m.1 = some time := by
        by_cases hhead : head.2 + 60 < nowtime
        · have hne : m.1 ≠ head.1 := fun he => hreached ⟨hhead, he.symm⟩
          simpa [System.visit, hhead, RpcServer.expire, AList.lookup_erase_ne hne] using htime
        · simpa [System.visit, hhead] using htime
      obtain ⟨i, u, n, hrun, he, hu⟩ := ih _ hsweep hm' htime'
      exact ⟨i + 1, u, n, by simp [List.replicate_succ, hvisit, hrun], he, hu⟩

/-- The heartbeat of one service, sent by the only connection. -/
def heartbeat : List (Action Unit Unit) :=
  [.arrive () { serviceName := [115], methodName := [109], messageType := 1 }, .critical ()]

/-- A run that is quiet and ends just before a sweep erases an entry 61 seconds old. -/
theorem quiet_run_reaches_erasure :
    let labels : List (Action Unit Unit) :=
      heartbeat ++ [.tick 61, .wake (), .copy () [⟨[115, 109], 0⟩]]
    Always step (fun s => ∀ w, EraseFindsStale s w) ({} : System Unit Unit) labels ∧
      (run step ({} : System Unit Unit) labels).map (fun s => s.erasing ()) =
        some (some ([115, 109], 61)) := by
  refine ⟨quiet_runs_erase_stale initial_default ?_, by decide⟩
  intro s hs
  obtain rfl := Option.some.inj hs
  refine ⟨trivial, ?_⟩
  intro t ht
  refine ⟨?_, guarded_of_forall (by simp [Quiet]) t⟩
  intro _ _ _ w hmem
  cases hmem

/-- A heartbeat that arrives between the copy and the visit is erased although it is new,
and the service is gone from both maps. -/
theorem fresh_heartbeat_erased :
    ¬ ∀ labels, Always step (fun s => ∀ w, EraseFindsStale s w) ({} : System Unit Unit) labels := by
  intro h
  let labels : List (Action Unit Unit) :=
    heartbeat ++ [.tick 61, .wake (), .copy () [⟨[115, 109], 0⟩]] ++ heartbeat
  have hlost : ∃ s, run step ({} : System Unit Unit) labels = some s ∧
      s.erasing () = some ([115, 109], 61) ∧ s.server.timeMap.lookup [115, 109] = some 61 :=
    ⟨_, rfl, by decide, by decide⟩
  obtain ⟨s, hrun, herase, htime⟩ := hlost
  have := (h labels).finish hrun () _ _ herase _ htime
  omega

end CoroutineRpc.Registry
