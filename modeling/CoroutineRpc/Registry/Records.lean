import CoroutineRpc.Registry.Handlers
import CoroutineRpc.Registry.Programs

/-! The registry as it would be with a record for each connection. What a connection asks for
depends on the bytes that it has received and on what its own buffer held before. -/
namespace CoroutineRpc.Registry
open Rpc Transition

/-- The maps, the sweeps and what the connections have asked for, beside the buffer of each
connection that is being handled. -/
structure Records (κ ι : Type) where
  system : System κ ι := {}
  readBuf : κ → Option (CBuffer readBufferSize) := fun _ => none

/-- `opened` gives a connection its buffer, with whatever is left in it. -/
inductive RecordAction (κ ι : Type) where
  | opened (c : κ) (left : CBuffer readBufferSize)
  | received (c : κ) (r : Recv)
  | replied (c : κ)
  | heartbeat (a : Action κ ι)

namespace Records
variable {κ ι : Type} [DecidableEq κ]

/-- All that `reset` clears of a buffer. -/
def cleared (buf : CBuffer readBufferSize) : CBuffer readBufferSize := buf.clear sizeofString

def setBuf (s : Records κ ι) (c : κ) (buf : Option (CBuffer readBufferSize)) : Records κ ι :=
  { s with readBuf := Function.update s.readBuf c buf }

variable [DecidableEq ι]

/-- A round of the connection with these bytes: it ends, or its message is registered or answered.
A query keeps its bytes until the answer is sent. -/
def received (codec : HeaderCodec) (s : Records κ ι) (c : κ) (buf : CBuffer readBufferSize)
    (r : Recv) : Option (Records κ ι) :=
  match ({ readBuf := buf } : RpcConn).round codec r with
  | .error _ => none
  | .ok (_, none) => some (s.setBuf c none)
  | .ok (_, some conn) =>
    (run Registry.step s.system [.arrive c conn.header, .critical c]).map fun u =>
      { s with system := u }.setBuf c
        (some (if conn.type = 1 then cleared conn.readBuf else conn.readBuf))

def step (codec : HeaderCodec) (s : Records κ ι) : RecordAction κ ι → Option (Records κ ι)
  | .opened c left =>
    match s.readBuf c with
    | none => some (s.setBuf c (some (cleared left)))
    | some _ => none
  | .received c r =>
    match s.readBuf c with
    | none => none
    | some buf => s.received codec c buf r
  | .replied c =>
    match s.readBuf c with
    | none => none
    | some buf => (Registry.step s.system (.reply c)).map fun u =>
        { s with system := u }.setBuf c (some (cleared buf))
  | .heartbeat a =>
    if a.isHeartbeat then (Registry.step s.system a).map fun u => { s with system := u } else none

end Records

/-- Of an earlier message only the buffer matters. -/
theorem round_readBuf (codec : HeaderCodec) (conn : RpcConn) (r : Recv) :
    ({ readBuf := conn.readBuf } : RpcConn).round codec r = (conn.round codec r).map
      (fun p => ({ readBuf := p.1.readBuf }, p.2)) := by
  have hread : ({ readBuf := conn.readBuf } : RpcConn).readOnce r =
      ((conn.readOnce r).1, { readBuf := (conn.readOnce r).2.readBuf }) := by
    cases r with
    | failed wouldBlock => rfl
    | closed => rfl
    | got bytes => rfl
  unfold RpcConn.round
  rw [hread]
  rcases conn.readOnce r with ⟨more, received⟩
  cases more with
  | false => rfl
  | true =>
    dsimp only
    cases received.readBuf.cString with
    | error e => rfl
    | ok shown =>
      -- all other members are assigned from the header
      have hdecode : ({ readBuf := received.readBuf } : RpcConn).decode codec =
          received.decode codec := rfl
      simp only [bind, Except.bind, hdecode]
      cases received.decode codec with
      | error e => rfl
      | ok loaded => rfl

end CoroutineRpc.Registry
