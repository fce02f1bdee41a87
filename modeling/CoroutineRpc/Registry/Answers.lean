import CoroutineRpc.Registry.System

/-! What a query is answered. The map is keyed by the two names run together, so the
reply follows the newest registration of that concatenation, not of the pair. -/
namespace CoroutineRpc.Registry
open Rpc Text Transition

variable {κ ι : Type} [DecidableEq κ] [DecidableEq ι]

namespace Registration

def samePair (serviceName methodName : ByteString) (r : Registration) : Bool :=
  r.serviceName = serviceName ∧ r.methodName = methodName

def sameKey (key : ByteString) (r : Registration) : Bool := r.serviceName ++ r.methodName = key

/-- The value that `NotifyService` stores for the registration. -/
def stored (r : Registration) : ByteString := r.ip ++ colon :: intText r.port.toInt32.toInt

/-- The address that was registered, with the port as the unsigned number it is. -/
def address (r : Registration) : ByteString := r.ip ++ colon :: natText r.port.toNat

end Registration

open Registration

/-- The purpose of the registry: a directory of pairs, the newest registration wins. -/
def directoryAnswer (before : List Registration) (serviceName methodName : ByteString) :
    ByteString :=
  match before.find? (samePair serviceName methodName) with
  | some r => r.address
  | none => ascii "error"

/-- What the concatenated key retrieves instead. -/
def keyedAnswer (before : List Registration) (key : ByteString) : ByteString :=
  match before.find? (sameKey key) with
  | some r => r.stored
  | none => ascii "error"

/-- Nothing was registered under the concatenated name, or the newest such registration
gives the pair's own address and a port that survives the cast to `int`. -/
def Undisturbed (before : List Registration) (serviceName methodName : ByteString) : Prop :=
  match before.find? (sameKey (serviceName ++ methodName)),
    before.find? (samePair serviceName methodName) with
  | none, _ => True
  | some r, some own => r.ip = own.ip ∧ r.port = own.port ∧ own.port.toNat < 2 ^ 31
  | some _, none => False

/-- No sweep is about to erase a key when it takes its step. -/
def NoExpiry (s : System κ ι) : Action κ ι → Prop
  | .visit w => s.erasing w = none
  | _ => True

private theorem stored_eq_address_iff (r own : Registration) :
    r.stored = own.address ↔ r.ip = own.ip ∧ r.port = own.port ∧ own.port.toNat < 2 ^ 31 := by
  rw [stored, address, split_at_last (colon_not_mem_intText _) (colon_not_mem_natText _),
    intText_eq_natText_iff, port_cast_eq_iff]

theorem error_ne {ip rest : ByteString} : ip ++ colon :: rest ≠ ascii "error" := by
  intro h
  have hmem : colon ∈ ascii "error" := h ▸ List.mem_append_right _ List.mem_cons_self
  revert hmem
  decide

/-- The error text stands for an absent pair only. -/
theorem directoryAnswer_error_iff (before : List Registration)
    (serviceName methodName : ByteString) :
    directoryAnswer before serviceName methodName = ascii "error" ↔
      ∀ r ∈ before, ¬ (r.serviceName = serviceName ∧ r.methodName = methodName) := by
  have hnone : before.find? (samePair serviceName methodName) = none ↔
      ∀ r ∈ before, ¬ (r.serviceName = serviceName ∧ r.methodName = methodName) := by
    simp [samePair]
  rw [← hnone, directoryAnswer]
  cases before.find? (samePair serviceName methodName) with
  | none => simp
  | some r => exact ⟨fun h => absurd h error_ne, fun h => nomatch h⟩

private theorem keyedAnswer_eq_iff (before : List Registration)
    (serviceName methodName : ByteString) :
    keyedAnswer before (serviceName ++ methodName) = directoryAnswer before serviceName methodName ↔
      Undisturbed before serviceName methodName := by
  unfold keyedAnswer directoryAnswer Undisturbed
  cases hkey : before.find? (sameKey (serviceName ++ methodName)) with
  | none =>
    have hpair : before.find? (samePair serviceName methodName) = none := by
      rw [List.find?_eq_none] at hkey ⊢
      intro r hr hs
      refine hkey r hr ?_
      simp only [samePair, decide_eq_true_eq] at hs
      simp [sameKey, hs]
    simp [hpair]
  | some r =>
    cases before.find? (samePair serviceName methodName) with
    | none => exact ⟨fun h => error_ne h, False.elim⟩
    | some own => exact stored_eq_address_iff r own

/-- The map answers for the history it was built from, as long as nothing expires. -/
def MapIsNewest (s : System κ ι) : Prop :=
  ∀ key, s.server.serviceMap.lookup key = (s.history.find? (sameKey key)).map stored

private theorem mapIsNewest_step {s t : System κ ι} {a : Action κ ι} (hs : MapIsNewest s)
    (hexp : NoExpiry s a) (h : step s a = some t) : MapIsNewest t := by
  intro key
  cases step_effect h with
  | local_ server history _ => rw [server, history, hs key]
  | registered conn _ _ server history _ =>
    rw [server, history]
    by_cases hk : key = conn.key
    · subst hk
      rw [notify_service, List.find?_cons_of_pos (by simp [sameKey, RpcConn.key])]
      rfl
    · have hno : ¬ sameKey key
          ⟨conn.serviceName, conn.methodName, conn.ip, conn.port⟩ = true := by
        simpa [sameKey, RpcConn.key, eq_comm] using hk
      rw [notify_service_ne _ _ _ hk, List.find?_cons_of_neg hno, hs key]
  | expired key' nowtime erasing _ _ _ =>
    rw [NoExpiry] at hexp
    rw [hexp] at erasing
    cases erasing

/-- Chosen and sent replies are what the key retrieved when they were chosen. -/
structure RepliesKeyed (s : System κ ι) : Prop where
  map : MapIsNewest s
  chosen : ∀ c conn back before, s.session c = .replying conn back before →
    back = keyedAnswer before conn.key
  sent : ∀ r ∈ s.sent, r.back = keyedAnswer r.before (r.serviceName ++ r.methodName)

omit [DecidableEq κ] [DecidableEq ι] in
private theorem callingMethods_eq {s : System κ ι} (h : MapIsNewest s) (conn : RpcConn) :
    conn.callingMethods s.server = keyedAnswer s.history conn.key := by
  rw [RpcConn.callingMethods, keyedAnswer, h]
  cases s.history.find? (sameKey conn.key) <;> rfl

omit [DecidableEq κ] [DecidableEq ι] in
private theorem repliesKeyed_initial {s : System κ ι} (h : Initial s) : RepliesKeyed s where
  map := by
    intro key
    rw [h.server, h.history]
    rfl
  chosen := by
    intro c conn back before hc
    obtain ⟨conn', hr⟩ := h.session c
    rw [hr] at hc
    cases hc
  sent := by
    intro r hr
    rw [h.sent] at hr
    cases hr

private theorem repliesKeyed_step {s t : System κ ι} {a : Action κ ι} (hs : RepliesKeyed s)
    (hexp : NoExpiry s a) (h : step s a = some t) : RepliesKeyed t where
  map := mapIsNewest_step hs.map hexp h
  chosen := by
    intro c conn back before hc
    rcases step_replying h hc with hold | ⟨_, rfl, rfl⟩
    · exact hs.chosen c conn back before hold
    · exact callingMethods_eq hs.map conn
  sent := by
    intro r hr
    rcases step_sent h hr with hold | ⟨conn, hc, hservice, hmethod⟩
    · exact hs.sent r hold
    · rw [hservice, hmethod]
      exact hs.chosen r.conn conn r.back r.before hc

/-- Without expiry, a reply names the endpoint of the pair it was asked for exactly when
the registrations before it left the concatenated name undisturbed. -/
theorem reply_names_pair_iff {start : System κ ι} (hinit : Initial start)
    {labels : List (Action κ ι)} (hexp : Guarded step NoExpiry start labels) {s : System κ ι}
    (hrun : run step start labels = some s) :
    ∀ r ∈ s.sent, (r.back = directoryAnswer r.before r.serviceName r.methodName ↔
      Undisturbed r.before r.serviceName r.methodName) := by
  have hkeyed : RepliesKeyed s := inv_of_guarded_run
    (fun s a t hs hg ht => repliesKeyed_step hs hg ht) (repliesKeyed_initial hinit) hexp hrun
  intro r hr
  rw [hkeyed.sent r hr]
  exact keyedAnswer_eq_iff r.before r.serviceName r.methodName

/-- One connection registers `a.b` at `1:80`, the other asks for `a.b`. -/
def ownQuery : List (Action Bool Unit) :=
  [.arrive true ⟨[97], [98], 0, 1, [49], 80⟩, .critical true,
    .arrive false ⟨[97], [98], 0, 0, [], 0⟩, .critical false, .reply false]

theorem own_query_answered :
    ∃ s, run step ({} : System Bool Unit) ownQuery = some s ∧
      s.sent.map (·.back) = [[49, 58, 56, 48]] ∧
      ∀ r ∈ s.sent, (r.back = directoryAnswer r.before r.serviceName r.methodName ↔
        Undisturbed r.before r.serviceName r.methodName) := by
  refine ⟨_, rfl, by decide, ?_⟩
  have hguard : Guarded step NoExpiry ({} : System Bool Unit) ownQuery :=
    guarded_of_forall (by simp [ownQuery, NoExpiry]) _
  exact reply_names_pair_iff initial_default hguard rfl

/-- After a registration of `a.bc` the registry answers a query for `ab.c`, which nobody
registered, with that endpoint. -/
theorem run_together_names_collide :
    ¬ ∀ (labels : List (Action Bool Unit)) (s : System Bool Unit),
      Guarded step NoExpiry {} labels → run step {} labels = some s →
        ∀ r ∈ s.sent, r.back = directoryAnswer r.before r.serviceName r.methodName := by
  intro h
  let labels : List (Action Bool Unit) :=
    [.arrive true ⟨[97], [98, 99], 0, 1, [49], 80⟩, .critical true,
      .arrive false ⟨[97, 98], [99], 0, 0, [], 0⟩, .critical false, .reply false]
  have hsent : ∃ s, run step ({} : System Bool Unit) labels = some s ∧
      s.sent = [⟨false, [97, 98], [99], [49, 58, 56, 48], [⟨[97], [98, 99], [49], 80⟩]⟩] :=
    ⟨_, rfl, by decide⟩
  obtain ⟨s, hrun, hs⟩ := hsent
  have hguard : Guarded step NoExpiry ({} : System Bool Unit) labels :=
    guarded_of_forall (by simp [labels, NoExpiry]) _
  have hreply := h labels s hguard hrun
  rw [hs] at hreply
  exact absurd (hreply _ List.mem_cons_self) (by decide)

end CoroutineRpc.Registry
