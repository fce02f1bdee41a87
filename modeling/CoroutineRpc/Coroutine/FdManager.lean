import CoroutineRpc.Coroutine.FdLayer
import CoroutineRpc.Coroutine.FdTable

/-! The vector `m_datas` of `FdManager` under calls from many threads. `get` looks under the shared
lock for a context and makes one later, under the exclusive one. -/
namespace CoroutineRpc.Coroutine

/-- `FdCtx::FdCtx`, where `fstat` fails or tells whether it is a socket. -/
def FdRecord.init : Option Bool → FdRecord
  | none => { isInit := false, isSocket := false, sysNonblock := false }
  | some isSocket => { isInit := true, isSocket := isSocket, sysNonblock := isSocket }

/-- The setters of `FdCtx`. -/
inductive Setting where
  | userNonblock (v : Bool)
  | sysNonblock (v : Bool)
  | timeout (type : SockOpt) (v : UInt64)
  deriving DecidableEq, Repr

def FdRecord.set (ctx : FdRecord) : Setting → FdRecord
  | .userNonblock v => { ctx with userNonblock := v }
  | .sysNonblock v => { ctx with sysNonblock := v }
  | .timeout type v => { ctx with toFdCtx := ctx.toFdCtx.setTimeout type v.toNat }

/-- A context is named by its place in the order in which they were made. The last two fields only
record: what `get` has returned since the last `del`, and the largest size so far. -/
structure FdManager (ι : Type) where
  datas : List (Option ObjectId) := List.replicate 64 none
  contexts : List FdRecord := []
  creating : ι → Option Int32 := fun _ => none
  outOfRange : Bool := false
  returned : Int32 → List ObjectId := fun _ => []
  largest : Nat := 64

/-- The two critical sections of `get`, the one of `del`, and a call of a setter. -/
inductive ManagerAction (ι : Type) where
  | get (c : ι) (fd : Int32) (autoCreate : Bool)
  | create (c : ι) (stat : Option Bool)
  | del (c : ι) (fd : Int32)
  | set (o : ObjectId) (setting : Setting)

/-- An `int` that is compared with a `size_t` or used as an index. -/
def index (fd : Int32) : Nat := uint64 fd.toInt

namespace FdManager
variable {ι : Type}

def resize (s : FdManager ι) (size : Nat) : FdManager ι :=
  { s with
    datas := s.datas.take size ++ List.replicate (size - s.datas.length) none
    largest := max s.largest size }

/-- A null pointer is not recorded. -/
def returns (s : FdManager ι) (fd : Int32) (slot : Option ObjectId) : FdManager ι :=
  { s with returned := Function.update s.returned fd (slot.toList ++ s.returned fd) }

section Calls
variable [DecidableEq ι]

def setCreating (s : FdManager ι) (c : ι) (fd : Option Int32) : FdManager ι :=
  { s with creating := Function.update s.creating c fd }

/-- `get` under the shared lock. -/
def get (s : FdManager ι) (c : ι) (fd : Int32) (autoCreate : Bool) : FdManager ι :=
  if fd = -1 then s
  else if s.datas.length ≤ index fd then
    if autoCreate then s.setCreating c (some fd) else s
  else
    match s.datas[index fd]? with
    | none => { s with outOfRange := true }
    | some slot =>
      if slot.isSome || !autoCreate then s.returns fd slot else s.setCreating c (some fd)

/-- `m_datas[fd] = std::make_shared<FdCtx>(fd)`, whatever is in the slot. -/
def place (s : FdManager ι) (c : ι) (fd : Int32) (stat : Option Bool) : FdManager ι :=
  if s.datas.length ≤ index fd then { s.setCreating c none with outOfRange := true }
  else
    ({ s.setCreating c none with
      datas := s.datas.set (index fd) (some s.contexts.length)
      contexts := s.contexts ++ [FdRecord.init stat] }).returns fd (some s.contexts.length)

/-- `get` under the exclusive lock; the target `fd * 1.5` is cut to a `size_t`. -/
def create (s : FdManager ι) (c : ι) (fd : Int32) (stat : Option Bool) : FdManager ι :=
  let s := if s.datas.length ≤ index fd then s.resize (fd.toInt * 3 / 2).toNat else s
  s.place c fd stat

def del (s : FdManager ι) (fd : Int32) : FdManager ι :=
  let s := { s with returned := Function.update s.returned fd [] }
  if s.datas.length ≤ index fd then s else { s with datas := s.datas.set (index fd) none }

/-- A thread is in one call at a time. Contexts are created for what `socket` and `accept` have
returned, and set by who has been given them. -/
def step (s : FdManager ι) : ManagerAction ι → Option (FdManager ι)
  | .get c fd autoCreate =>
    if (s.creating c).isSome ∨ (autoCreate = true ∧ fd.toInt < -1) then none
    else some (s.get c fd autoCreate)
  | .create c stat => (s.creating c).map (fun fd => s.create c fd stat)
  | .del c fd => if (s.creating c).isSome then none else some (s.del fd)
  | .set o setting =>
    if o < s.contexts.length then
      some { s with contexts := s.contexts.modify o (fun ctx => ctx.set setting) }
    else none

end Calls

/-- One context for each descriptor, in a table that keeps its size. -/
structure Shared (s : FdManager ι) : Prop where
  same : ∀ fd o o', o ∈ s.returned fd → o' ∈ s.returned fd → o = o'
  seen : ∀ fd o o', o ∈ s.returned fd → o' ∈ s.returned fd → s.contexts[o]? = s.contexts[o']?
  grown : s.datas.length = s.largest
  inRange : s.outOfRange = false

/-- A call that makes a context finds its slot still empty, or not there. -/
def StillEmpty (s : FdManager ι) : ManagerAction ι → Prop
  | .create c _ => ∀ fd o, s.creating c = some fd → s.datas[index fd]? ≠ some (some o)
  | _ => True

end FdManager

end CoroutineRpc.Coroutine
