import CoroutineRpc.Library.Transition
import CoroutineRpc.Registry.Server
import Mathlib.Logic.Function.Basic

/-! The registry as an interleaving of connection handlers and heartbeat sweeps.
Every critical section on `mtx` is one step; what lies between two of them is local. -/
namespace CoroutineRpc.Registry
open Rpc Text

/-- What a registration announced. -/
structure Registration where
  serviceName : ByteString
  methodName : ByteString
  ip : ByteString
  port : UInt32
  deriving DecidableEq

/-- Where a connection handler stands in `process`. A chosen reply remembers the
registrations made before its critical section, newest first. -/
inductive Session where
  | reading (conn : RpcConn)
  | decoded (conn : RpcConn)
  | replying (conn : RpcConn) (back : ByteString) (before : List Registration)

/-- Where a call of `doHeartbeat` stands; `rest` is what its loop has not visited yet. -/
inductive Sweep where
  | asleep
  | timed (nowtime : Int)
  | sweeping (nowtime : Int) (rest : List (Sigma fun _ : ByteString => Int))

/-- A reply that was sent: on which connection, to which query, after which registrations. -/
structure Reply (κ : Type) where
  conn : κ
  serviceName : ByteString
  methodName : ByteString
  back : ByteString
  before : List Registration
  deriving DecidableEq

/-- The registry with any number of connections and sweeps.
`history` and `sent` only record what happened, newest first. -/
structure System (κ ι : Type) where
  server : RpcServer := {}
  clock : Int := 0
  session : κ → Session := fun _ => .reading {}
  sweep : ι → Sweep := fun _ => .asleep
  history : List Registration := []
  sent : List (Reply κ) := []

inductive Action (κ ι : Type) where
  | tick (seconds : Nat)
  | arrive (c : κ) (h : RpcHeader)
  | critical (c : κ)
  | reply (c : κ)
  | wake (w : ι)
  | copy (w : ι) (order : List (Sigma fun _ : ByteString => Int))
  | visit (w : ι)

variable {κ ι : Type} [DecidableEq κ] [DecidableEq ι]

/-- The branch that `process` takes after decoding: a registration or a query. -/
def System.enter (s : System κ ι) (c : κ) (conn : RpcConn) : System κ ι :=
  if conn.type = 1 then
    { s with
      server := conn.notifyService s.clock s.server
      session := Function.update s.session c (.reading conn.reset)
      history := ⟨conn.serviceName, conn.methodName, conn.ip, conn.port⟩ :: s.history }
  else
    { s with
      session := Function.update s.session c
        (.replying conn (conn.callingMethods s.server) s.history) }

/-- One round of the loop over `temp_map`. -/
def System.visit (s : System κ ι) (w : ι) (nowtime : Int)
    (m : Sigma fun _ : ByteString => Int) (rest : List (Sigma fun _ : ByteString => Int)) :
    System κ ι :=
  let s := { s with sweep := Function.update s.sweep w (.sweeping nowtime rest) }
  if m.2 + 60 < nowtime then { s with server := s.server.expire m.1 } else s

def step (s : System κ ι) : Action κ ι → Option (System κ ι)
  | .tick seconds => some { s with clock := s.clock + seconds }
  | .arrive c h =>
    match s.session c with
    | .reading conn =>
      some { s with session := Function.update s.session c (.decoded (conn.load h)) }
    | _ => none
  | .critical c =>
    match s.session c with
    | .decoded conn => some (s.enter c conn)
    | _ => none
  | .reply c =>
    match s.session c with
    | .replying conn back before =>
      some { s with
        session := Function.update s.session c (.reading conn.reset)
        sent := ⟨c, conn.serviceName, conn.methodName, back, before⟩ :: s.sent }
    | _ => none
  | .wake w =>
    match s.sweep w with
    | .asleep => some { s with sweep := Function.update s.sweep w (.timed s.clock) }
    | _ => none
  | .copy w order =>
    -- the iteration order of an unordered_map is unspecified
    match s.sweep w with
    | .timed nowtime =>
      if order.Perm s.server.timeMap.entries then
        some { s with sweep := Function.update s.sweep w (.sweeping nowtime order) }
      else none
    | _ => none
  | .visit w =>
    match s.sweep w with
    | .sweeping nowtime (m :: rest) => some (s.visit w nowtime m rest)
    | .sweeping _ [] => some { s with sweep := Function.update s.sweep w .asleep }
    | _ => none

/-- Nothing registered, every handler waiting for a message, no sweep awake. -/
structure Initial (s : System κ ι) : Prop where
  server : s.server = {}
  session : ∀ c, ∃ conn, s.session c = .reading conn
  sweep : ∀ w, s.sweep w = .asleep
  history : s.history = []
  sent : s.sent = []

omit [DecidableEq κ] [DecidableEq ι] in
theorem initial_default : Initial ({} : System κ ι) :=
  ⟨rfl, fun _ => ⟨_, rfl⟩, fun _ => rfl, rfl, rfl⟩

/-- The key that the sweep's next step erases, with the sweep's nowtime. -/
def System.erasing (s : System κ ι) (w : ι) : Option (ByteString × Int) :=
  match s.sweep w with
  | .sweeping nowtime (m :: _) => if m.2 + 60 < nowtime then some (m.1, nowtime) else none
  | _ => none

/-- The keys that the sweep has found stale in its copy and not reached yet. -/
def System.condemned (s : System κ ι) (w : ι) : List ByteString :=
  match s.sweep w with
  | .sweeping nowtime rest => (rest.filter (fun m => m.2 + 60 < nowtime)).map (·.1)
  | _ => []

/-- Running sweeps keep their nowtime and only lose entries. -/
def SweepsShrink (s t : System κ ι) : Prop :=
  ∀ w nowtime rest, t.sweep w = .sweeping nowtime rest →
    ∃ rest', s.sweep w = .sweeping nowtime rest' ∧ rest ⊆ rest'

/-- A sweep that has just taken its copy holds the entries of the current map. -/
def FreshCopy (s : System κ ι) (w : ι) (nowtime : Int)
    (rest : List (Sigma fun _ : ByteString => Int)) : Prop :=
  s.sweep w = .timed nowtime ∧ rest.Perm s.server.timeMap.entries

/-- What one step can do to the maps and to the sweeps. -/
inductive Effect (s t : System κ ι) : Action κ ι → Prop where
  | local_ {a} (server : t.server = s.server) (history : t.history = s.history)
      (sweeps : ∀ w nowtime rest, t.sweep w = .sweeping nowtime rest →
        (∃ rest', s.sweep w = .sweeping nowtime rest' ∧ rest ⊆ rest') ∨
          FreshCopy s w nowtime rest) : Effect s t a
  | registered {c} (conn : RpcConn) (decoded : s.session c = .decoded conn) (type : conn.type = 1)
      (server : t.server = conn.notifyService s.clock s.server)
      (history : t.history = ⟨conn.serviceName, conn.methodName, conn.ip, conn.port⟩ :: s.history)
      (sweeps : t.sweep = s.sweep) : Effect s t (.critical c)
  | expired {w} (key : ByteString) (nowtime : Int) (erasing : s.erasing w = some (key, nowtime))
      (server : t.server = s.server.expire key) (history : t.history = s.history)
      (sweeps : SweepsShrink s t) : Effect s t (.visit w)

/-- The enabled actions with the states they lead to. -/
inductive StepTo (s : System κ ι) : Action κ ι → System κ ι → Prop where
  | tick (seconds : Nat) : StepTo s (.tick seconds) { s with clock := s.clock + seconds }
  | arrive {c conn} (h : RpcHeader) (session : s.session c = .reading conn) :
      StepTo s (.arrive c h)
        { s with session := Function.update s.session c (.decoded (conn.load h)) }
  | critical {c conn} (session : s.session c = .decoded conn) :
      StepTo s (.critical c) (s.enter c conn)
  | reply {c conn back before} (session : s.session c = .replying conn back before) :
      StepTo s (.reply c)
        { s with
          session := Function.update s.session c (.reading conn.reset)
          sent := ⟨c, conn.serviceName, conn.methodName, back, before⟩ :: s.sent }
  | wake {w} (sweep : s.sweep w = .asleep) :
      StepTo s (.wake w) { s with sweep := Function.update s.sweep w (.timed s.clock) }
  | copy {w nowtime} {order} (sweep : s.sweep w = .timed nowtime)
      (perm : order.Perm s.server.timeMap.entries) :
      StepTo s (.copy w order)
        { s with sweep := Function.update s.sweep w (.sweeping nowtime order) }
  | visit {w nowtime m rest} (sweep : s.sweep w = .sweeping nowtime (m :: rest)) :
      StepTo s (.visit w) (s.visit w nowtime m rest)
  | finish {w nowtime} (sweep : s.sweep w = .sweeping nowtime []) :
      StepTo s (.visit w) { s with sweep := Function.update s.sweep w .asleep }

theorem step_to {s t : System κ ι} {a : Action κ ι} (h : step s a = some t) : StepTo s a t := by
  cases a with
  | tick seconds =>
    obtain rfl := Option.some.inj h
    exact .tick seconds
  | arrive c hdr =>
    cases hc : s.session c <;> simp only [step, hc] at h <;> cases h
    exact .arrive hdr hc
  | critical c =>
    cases hc : s.session c <;> simp only [step, hc] at h <;> cases h
    exact .critical hc
  | reply c =>
    cases hc : s.session c <;> simp only [step, hc] at h <;> cases h
    exact .reply hc
  | wake w =>
    cases hw : s.sweep w <;> simp only [step, hw] at h <;> cases h
    exact .wake hw
  | copy w order =>
    cases hw : s.sweep w <;> simp only [step, hw] at h
    case timed nowtime =>
      split at h
      · rename_i hperm
        obtain rfl := Option.some.inj h
        exact .copy hw hperm
      · cases h
    all_goals cases h
  | visit w =>
    cases hw : s.sweep w with
    | sweeping nowtime rest =>
      cases rest <;> simp only [step, hw] at h <;> obtain rfl := Option.some.inj h
      · exact .finish hw
      · exact .visit hw
    | _ => simp only [step, hw] at h; cases h

/-- What is found after a change is what was put there, or was there before. -/
theorem update_eq_cases {γ δ : Type} [DecidableEq γ] {f : γ → δ} {c d : γ} {new x : δ}
    (h : Function.update f c new d = x) : (d = c ∧ new = x) ∨ f d = x := by
  by_cases hd : d = c
  · subst d
    exact .inl ⟨rfl, by simpa using h⟩
  · exact .inr (by simpa [Function.update_of_ne hd] using h)

/-- How each step touches the maps, the history and the sweeps. -/
theorem step_effect {s t : System κ ι} {a : Action κ ι} (h : step s a = some t) :
    Effect s t a := by
  have keep (u : System κ ι) (hs : u.sweep = s.sweep) (w : ι) (nowtime : Int)
      (rest : List (Sigma fun _ : ByteString => Int)) (hw : u.sweep w = .sweeping nowtime rest) :
      (∃ rest', s.sweep w = .sweeping nowtime rest' ∧ rest ⊆ rest') ∨
        FreshCopy s w nowtime rest := .inl ⟨rest, by rw [← hs]; exact hw, fun _ h => h⟩
  cases step_to h with
  | tick seconds => exact .local_ rfl rfl (keep _ rfl)
  | arrive hdr session => exact .local_ rfl rfl (keep _ rfl)
  | reply session => exact .local_ rfl rfl (keep _ rfl)
  | @critical c conn session =>
    by_cases htype : conn.type = 1
    · exact .registered conn session htype (by simp [System.enter, htype])
        (by simp [System.enter, htype]) (by simp [System.enter, htype])
    · exact .local_ (by simp [System.enter, htype]) (by simp [System.enter, htype])
        (keep _ (by simp [System.enter, htype]))
  | wake sweep =>
    refine .local_ rfl rfl ?_
    intro v n r hv
    rcases update_eq_cases hv with ⟨_, he⟩ | he
    · cases he
    · exact .inl ⟨r, he, fun _ h => h⟩
  | copy sweep perm =>
    refine .local_ rfl rfl ?_
    intro v n r hv
    rcases update_eq_cases hv with ⟨rfl, he⟩ | he
    · cases he
      exact .inr ⟨sweep, perm⟩
    · exact .inl ⟨r, he, fun _ h => h⟩
  | finish sweep =>
    refine .local_ rfl rfl ?_
    intro v n r hv
    rcases update_eq_cases hv with ⟨_, he⟩ | he
    · cases he
    · exact .inl ⟨r, he, fun _ h => h⟩
  | @visit w nowtime m rest sweep =>
    have hshrink : SweepsShrink s (s.visit w nowtime m rest) := by
      intro v n r hv
      have hv' : Function.update s.sweep w (.sweeping nowtime rest) v = .sweeping n r := by
        simp only [System.visit] at hv
        split at hv <;> exact hv
      rcases update_eq_cases hv' with ⟨rfl, he⟩ | he
      · cases he
        exact ⟨m :: rest, sweep, List.subset_cons_self m rest⟩
      · exact ⟨r, he, fun _ h => h⟩
    by_cases hstale : m.2 + 60 < nowtime
    · exact .expired m.1 nowtime (by simp [System.erasing, sweep, hstale])
        (by simp [System.visit, hstale]) (by simp [System.visit, hstale]) hshrink
    · exact .local_ (by simp [System.visit, hstale]) (by simp [System.visit, hstale])
        (fun v n r hv => .inl (hshrink v n r hv))

/-- A reply is chosen in the critical section of the query, from the map at that moment. -/
theorem step_replying {s t : System κ ι} {a : Action κ ι} (h : step s a = some t) {c : κ}
    {conn : RpcConn} {back : ByteString} {before : List Registration}
    (hc : t.session c = .replying conn back before) :
    s.session c = .replying conn back before ∨
      (s.session c = .decoded conn ∧ back = conn.callingMethods s.server ∧ before = s.history) := by
  cases step_to h with
  | tick | wake | copy | finish => exact .inl hc
  | visit =>
    simp only [System.visit] at hc
    split at hc <;> exact .inl hc
  | arrive hdr session =>
    rcases update_eq_cases hc with ⟨_, he⟩ | he
    · cases he
    · exact .inl he
  | reply session =>
    rcases update_eq_cases hc with ⟨_, he⟩ | he
    · cases he
    · exact .inl he
  | @critical d conn' session =>
    by_cases htype : conn'.type = 1
    · simp only [System.enter, htype, if_true] at hc
      rcases update_eq_cases hc with ⟨_, he⟩ | he
      · cases he
      · exact .inl he
    · simp only [System.enter, htype, if_false] at hc
      rcases update_eq_cases hc with ⟨rfl, he⟩ | he
      · cases he
        exact .inr ⟨session, rfl, rfl⟩
      · exact .inl he

/-- What is sent is the reply that was chosen, to the query it was chosen for. -/
theorem step_sent {s t : System κ ι} {a : Action κ ι} (h : step s a = some t) {r : Reply κ}
    (hr : r ∈ t.sent) :
    r ∈ s.sent ∨ ∃ conn, s.session r.conn = .replying conn r.back r.before ∧
      r.serviceName = conn.serviceName ∧ r.methodName = conn.methodName := by
  cases step_to h with
  | tick | arrive | wake | copy | finish => exact .inl hr
  | visit =>
    simp only [System.visit] at hr
    split at hr <;> exact .inl hr
  | critical =>
    simp only [System.enter] at hr
    split at hr <;> exact .inl hr
  | @reply c conn back before session =>
    rcases List.mem_cons.mp hr with rfl | hr
    · exact .inr ⟨conn, session, rfl, rfl⟩
    · exact .inl hr

end CoroutineRpc.Registry
