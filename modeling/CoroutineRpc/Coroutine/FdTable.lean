import CoroutineRpc.Coroutine.Operations
import CoroutineRpc.Library.Transition
import Mathlib.Data.List.Range
import Mathlib.Data.Int.Init

/-! The vector `m_fdContexts` under calls from many threads. `addEvent` checks its size under
the shared lock and lets it grow later, under the exclusive one. -/
namespace CoroutineRpc.Coroutine

/-- The address of a `FdContext`. -/
abbrev ObjectId := Nat

inductive FdOp (σ φ κ : Type) where
  | add (e : Event) (waiter : EventContext σ φ κ)
  | del (e : Event)
  | cancel (e : Event)
  | cancelAll

/-- A call after its size check: with its context, or still before the growth. -/
structure FdCall (σ φ κ : Type) where
  fd : Nat
  op : FdOp σ φ κ
  fdCtx : Option ObjectId

/-- The last two fields only record: the first context made for each descriptor, and the
largest size so far. -/
structure FdTable (ι σ φ κ : Type) where
  slots : List ObjectId := List.range 32
  created : Nat := 32
  objects : ObjectId → FdContext σ φ κ := fun _ => {}
  calls : ι → Option (FdCall σ φ κ) := fun _ => none
  outOfRange : Bool := false
  born : Nat → Option ObjectId := fun fd => (List.range 32)[fd]?
  largest : Nat := 32

inductive FdAction (ι σ φ κ : Type) where
  | check (c : ι) (fd : Nat) (op : FdOp σ φ κ)
  | grow (c : ι)
  | act (c : ι) (ok : Bool)

/-- What a call does to its context under the mutex of the context, unless `epoll_ctl` fails. -/
def FdOp.apply {σ φ κ : Type} (x : FdContext σ φ κ) (ok : Bool) : FdOp σ φ κ → FdContext σ φ κ
  | .add e waiter => if x.events.has e || !ok then x else x.register e waiter
  | .del e | .cancel e => if ok then x.clearIf e x.events else x
  | .cancelAll => if ok then x.clearMask x.events else x

namespace FdTable
variable {ι σ φ κ : Type}

/-- `(int)m_fdContexts.size()`. -/
def intSize (s : FdTable ι σ φ κ) : Int := Int.bmod s.slots.length (2 ^ 32)

/-- The common first half of `addEvent`, `delEvent`, `cancelEvent` and `cancelAll`. -/
def lookup (s : FdTable ι σ φ κ) (fd : Nat) : Option ObjectId :=
  if (fd : Int) < s.intSize then s.slots[fd]? else none

/-- `contextResize`: the vector is cut, or filled up with new contexts. -/
def contextResize (s : FdTable ι σ φ κ) (size : Nat) : FdTable ι σ φ κ :=
  let slots := s.slots.take size ++ List.range' s.created (size - s.slots.length)
  { s with
    slots := slots
    created := s.created + (size - s.slots.length)
    born := fun fd => (s.born fd).or slots[fd]?
    largest := max s.largest size }

section Calls
variable [DecidableEq ι]

def setCall (s : FdTable ι σ φ κ) (c : ι) (call : Option (FdCall σ φ κ)) : FdTable ι σ φ κ :=
  { s with calls := Function.update s.calls c call }

/-- The critical section on `m_mutex` in which the vector grows. -/
def grow (s : FdTable ι σ φ κ) (c : ι) (call : FdCall σ φ κ) : FdTable ι σ φ κ :=
  let s := s.contextResize (call.fd * 3 / 2)
  match s.slots[call.fd]? with
  | some o => s.setCall c (some { call with fdCtx := some o })
  | none => { s.setCall c none with outOfRange := true }

def step (s : FdTable ι σ φ κ) : FdAction ι σ φ κ → Option (FdTable ι σ φ κ)
  | .check c fd op =>
    match s.calls c, s.lookup fd, op with
    | some _, _, _ => none
    | none, some o, op => some (s.setCall c (some ⟨fd, op, some o⟩))
    | none, none, .add e waiter => some (s.setCall c (some ⟨fd, .add e waiter, none⟩))
    -- the other operations return false
    | none, none, _ => some s
  | .grow c =>
    match s.calls c with
    | some ⟨fd, op, none⟩ => some (s.grow c ⟨fd, op, none⟩)
    | _ => none
  | .act c ok =>
    match s.calls c with
    | some ⟨_, op, some o⟩ =>
      some { s.setCall c none with objects := Function.update s.objects o (op.apply (s.objects o) ok) }
    | _ => none

end Calls

/-- The table has its largest size so far, no access was out of range, the first context of
each descriptor is the one that is found for it, and no registration is out of reach. -/
structure Stable (s : FdTable ι σ φ κ) : Prop where
  grown : s.slots.length = s.largest
  inRange : s.outOfRange = false
  found : ∀ fd o, s.born fd = some o → s.lookup fd = some o
  calls : ∀ c call o, s.calls c = some call → call.fdCtx = some o → s.born call.fd = some o
  reachable : ∀ o e, (s.objects o).events.has e = true → ∃ fd, s.lookup fd = some o

/-- A call that lets the table grow asks for no less than it has, and for a size that an
`int` can hold. -/
def GrowsUp (s : FdTable ι σ φ κ) : FdAction ι σ φ κ → Prop
  | .grow c => ∀ call, s.calls c = some call →
    s.slots.length ≤ call.fd * 3 / 2 ∧ call.fd * 3 / 2 < 2 ^ 31
  | _ => True

end FdTable
end CoroutineRpc.Coroutine
