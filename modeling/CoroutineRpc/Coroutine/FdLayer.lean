import CoroutineRpc.Coroutine.Hook
import CoroutineRpc.Library.Width

/-! The hook layer's view of a descriptor number: the file that the kernel has under it and the
`FdCtx` that `FdManager` has. Either can be there without the other. -/
namespace CoroutineRpc.Coroutine

/-- `O_NONBLOCK`, which is `SOCK_NONBLOCK` too. -/
def oNonblock : BitVec 32 := BitVec.twoPow 32 11

def oRdwr : BitVec 32 := 2#32

def nonblock (flags : BitVec 32) : Bool := flags &&& oNonblock != 0#32

/-- The flags that `F_SETFL` can change. -/
structure Settable where
  mask : BitVec 32
  settable : mask &&& oNonblock = oNonblock

/-- `F_SETFL` in the kernel. -/
def Settable.setfl (k : Settable) (flags arg : BitVec 32) : BitVec 32 :=
  (flags &&& ~~~k.mask) ||| (arg &&& k.mask)

/-- `FIONBIO` in the kernel. -/
def fionbio (flags : BitVec 32) (value : Int) : BitVec 32 :=
  if value = 0 then flags &&& ~~~oNonblock else flags ||| oNonblock

/-- An open file; `managed` records that a hook-enabled call has returned it. -/
structure KernelFile where
  isSocket : Bool
  flags : BitVec 32
  managed : Bool
  deriving DecidableEq, Repr

/-- The fields of `FdCtx` that `init` sets beside `isSocket`. -/
structure FdRecord extends FdCtx where
  isInit : Bool
  sysNonblock : Bool
  deriving DecidableEq, Repr

structure Descriptor where
  file : Option KernelFile := none
  ctx : Option FdRecord := none
  deriving DecidableEq, Repr

structure Timeval where
  tvSec : Int
  tvUsec : Int
  deriving DecidableEq, Repr

/-- What `setsockopt` computes from a `timeval`, as a `uint64_t`. -/
def Timeval.stored (v : Timeval) : Nat :=
  uint64 (int64 (int64 (v.tvSec * 1000) + v.tvUsec.tdiv 1000))

/-- `FdCtx::setTimeout`; the largest `uint64_t` is -1. -/
def FdCtx.setTimeout (c : FdCtx) (timeoutSo : SockOpt) (v : Nat) : FdCtx :=
  let timeout := if v = 2 ^ 64 - 1 then none else some v
  match timeoutSo with
  | .rcvTimeo => { c with recvTimeout := timeout }
  | .sndTimeo => { c with sendTimeout := timeout }

/-- The calls on a descriptor number, with what the kernel answers; the first two return it.
A `socket` or `accept` that fails touches no descriptor. -/
inductive LayerCall where
  | socket (hookEnable : Bool) (type : BitVec 32)
  | accept (hookEnable : Bool)
  | setfl (arg : BitVec 32) (ok : Bool)
  | fionbio (value : Int) (ok : Bool)
  | setsockopt (hookEnable : Bool) (optname : SockOpt) (v : Timeval) (ok : Bool)
  | close (hookEnable : Bool)
  deriving DecidableEq, Repr

namespace Descriptor

/-- `FdCtx::init` on what is open under the number. -/
def init (k : Settable) (d : Descriptor) : Descriptor :=
  match d.file with
  | none => { d with ctx := some { isInit := false, isSocket := false, sysNonblock := false } }
  | some file =>
    if file.isSocket then
      let flags := if nonblock file.flags then file.flags
        else k.setfl file.flags (file.flags ||| oNonblock)
      { file := some { file with flags := flags }
        ctx := some { isInit := true, isSocket := true, sysNonblock := true } }
    else { d with ctx := some { isInit := true, isSocket := false, sysNonblock := false } }

/-- `FdManager::get(fd, true)`: a context that is there is taken as it is. -/
def getCreate (k : Settable) (d : Descriptor) : Descriptor :=
  if d.ctx.isSome then d else d.init k

/-- The context, if it is one of an open socket. -/
def socketCtx (d : Descriptor) : Option FdRecord :=
  d.ctx.filter (fun c => !c.isClosed && c.isSocket)

/-- A call of the kernel that changes the flags, if it succeeds. -/
def reflag (d : Descriptor) (f : BitVec 32 → BitVec 32) (ok : Bool) : Descriptor :=
  if ok then { d with file := d.file.map (fun file => { file with flags := f file.flags }) } else d

def setUserNonblock (d : Descriptor) (v : Bool) : Descriptor :=
  { d with ctx := d.ctx.map (fun c => { c with userNonblock := v }) }

/-- `fcntl(fd, F_SETFL, arg)`, on any thread. -/
def fcntlSetfl (k : Settable) (d : Descriptor) (arg : BitVec 32) (ok : Bool) : Descriptor :=
  match d.socketCtx with
  | none => d.reflag (fun flags => k.setfl flags arg) ok
  | some ctx =>
    let arg' := if ctx.sysNonblock then arg ||| oNonblock else arg &&& ~~~oNonblock
    (d.setUserNonblock (nonblock arg)).reflag (fun flags => k.setfl flags arg') ok

/-- `ioctl(fd, FIONBIO, &value)`, on any thread. -/
def ioctlFionbio (d : Descriptor) (value : Int) (ok : Bool) : Descriptor :=
  match d.socketCtx with
  | none => d.reflag (fun flags => Coroutine.fionbio flags value) ok
  | some _ =>
    (d.setUserNonblock (value != 0)).reflag (fun flags => Coroutine.fionbio flags value) ok

/-- `setsockopt` with a timeout; the kernel's own timeout does not matter here. -/
def setsockopt (d : Descriptor) (hookEnable : Bool) (optname : SockOpt) (v : Timeval) :
    Descriptor :=
  if hookEnable then
    { d with ctx := d.ctx.map (fun c => { c with toFdCtx := c.toFdCtx.setTimeout optname v.stored }) }
  else d

/-- What `fcntl(fd, F_GETFL)` returns for an open file. -/
def fcntlGetfl (d : Descriptor) : Option (BitVec 32) :=
  d.file.map (fun file =>
    match d.socketCtx with
    | none => file.flags
    | some ctx => if ctx.userNonblock then file.flags ||| oNonblock else file.flags &&& ~~~oNonblock)

/-- The kernel gives out numbers under which nothing is open. -/
def opened (d : Descriptor) (flags : BitVec 32) (hookEnable : Bool) : Option Descriptor :=
  if d.file.isSome then none else some { d with file := some ⟨true, flags, hookEnable⟩ }

def step (k : Settable) (d : Descriptor) : LayerCall → Option Descriptor
  | .socket hookEnable type =>
    (d.opened (oRdwr ||| (type &&& oNonblock)) hookEnable).map (fun d =>
      if hookEnable then d.getCreate k else d)
  -- there is no test of the hook flag after `accept_f`
  | .accept hookEnable => (d.opened oRdwr hookEnable).map (fun d => d.getCreate k)
  | .setfl arg ok => some (d.fcntlSetfl k arg ok)
  | .fionbio value ok => some (d.ioctlFionbio value ok)
  | .setsockopt hookEnable optname v _ => some (d.setsockopt hookEnable optname v)
  | .close hookEnable => some (if hookEnable then {} else { d with file := none })

end Descriptor

private theorem nonblock_eq (flags : BitVec 32) : nonblock flags = flags.getLsbD 11 := by
  rw [nonblock, oNonblock, BitVec.and_twoPow]
  cases flags.getLsbD 11 with
  | false => rfl
  | true => rfl

private theorem Settable.mask_bit (k : Settable) : k.mask.getLsbD 11 = true := by
  rw [← nonblock_eq, nonblock, k.settable]
  decide

/-- Two status words differ in `O_NONBLOCK` at most. -/
def SameElse (flags flags' : BitVec 32) : Prop :=
  ∀ i, i ≠ 11 → flags.getLsbD i = flags'.getLsbD i

private theorem oNonblock_bit {i : Nat} (h : i ≠ 11) : oNonblock.getLsbD i = false := by
  rw [oNonblock, BitVec.getLsbD_twoPow, decide_eq_false (Ne.symm h), Bool.and_false]

theorem sameElse_on (flags : BitVec 32) : SameElse (flags ||| oNonblock) flags := by
  intro i hi
  rw [BitVec.getLsbD_or, oNonblock_bit hi, Bool.or_false]

theorem sameElse_off (flags : BitVec 32) : SameElse (flags &&& ~~~oNonblock) flags := by
  intro i hi
  rw [BitVec.getLsbD_and, BitVec.getLsbD_not, oNonblock_bit hi]
  cases hbit : flags.getLsbD i with
  | false => rfl
  | true => simpa using BitVec.lt_of_getLsbD hbit

theorem SameElse.symm {flags flags' : BitVec 32} (h : SameElse flags flags') :
    SameElse flags' flags := fun i hi => (h i hi).symm

theorem SameElse.trans {a b c : BitVec 32} (h : SameElse a b) (h' : SameElse b c) :
    SameElse a c := fun i hi => (h i hi).trans (h' i hi)

theorem SameElse.eq {flags flags' : BitVec 32} (h : SameElse flags flags')
    (hn : nonblock flags = nonblock flags') : flags = flags' := by
  apply BitVec.eq_of_getLsbD_eq
  intro i _
  rcases eq_or_ne i 11 with rfl | hi
  · rwa [nonblock_eq, nonblock_eq] at hn
  · exact h i hi

/-- The kernel takes the other flags from the request and from the file alike. -/
theorem SameElse.setfl (k : Settable) {flags flags' arg arg' : BitVec 32}
    (h : SameElse flags flags') (ha : SameElse arg arg') :
    SameElse (k.setfl flags arg) (k.setfl flags' arg') := by
  intro i hi
  rw [Settable.setfl, Settable.setfl, BitVec.getLsbD_or, BitVec.getLsbD_or, BitVec.getLsbD_and,
    BitVec.getLsbD_and, BitVec.getLsbD_and, BitVec.getLsbD_and, h i hi, ha i hi]

theorem SameElse.fionbio {flags flags' : BitVec 32} (h : SameElse flags flags') (value : Int) :
    SameElse (Coroutine.fionbio flags value) (Coroutine.fionbio flags' value) := by
  rw [Coroutine.fionbio, Coroutine.fionbio]
  split
  · exact ((sameElse_off flags).trans h).trans (sameElse_off flags').symm
  · exact ((sameElse_on flags).trans h).trans (sameElse_on flags').symm

/-- Asking for the flags of the file changes nothing. -/
theorem setfl_self (k : Settable) (flags : BitVec 32) : SameElse (k.setfl flags flags) flags := by
  intro i _
  rw [Settable.setfl, BitVec.getLsbD_or, BitVec.getLsbD_and, BitVec.getLsbD_and,
    BitVec.getLsbD_not]
  cases hbit : flags.getLsbD i with
  | false => simp
  | true => simp [BitVec.lt_of_getLsbD hbit]

/-- `F_SETFL` sets the flag as it is asked to. -/
theorem nonblock_setfl (k : Settable) (flags arg : BitVec 32) :
    nonblock (k.setfl flags arg) = nonblock arg := by
  rw [nonblock_eq, nonblock_eq, Settable.setfl, BitVec.getLsbD_or, BitVec.getLsbD_and,
    BitVec.getLsbD_and, BitVec.getLsbD_not, k.mask_bit]
  simp

theorem nonblock_on (flags : BitVec 32) : nonblock (flags ||| oNonblock) = true := by
  rw [nonblock_eq, BitVec.getLsbD_or, oNonblock, BitVec.getLsbD_twoPow]
  simp

theorem nonblock_off (flags : BitVec 32) : nonblock (flags &&& ~~~oNonblock) = false := by
  rw [nonblock_eq, BitVec.getLsbD_and, BitVec.getLsbD_not, oNonblock, BitVec.getLsbD_twoPow]
  simp

theorem nonblock_fionbio (flags : BitVec 32) (value : Int) :
    nonblock (fionbio flags value) = (value != 0) := by
  rw [fionbio]
  split
  · next hzero => rw [nonblock_off, hzero]; rfl
  · next hnonzero => rw [nonblock_on, bne_iff_ne.mpr hnonzero]

/-- The flag that `socket` takes from its `type`. -/
theorem nonblock_socket (type : BitVec 32) :
    nonblock (oRdwr ||| (type &&& oNonblock)) = nonblock type := by
  rw [nonblock_eq, nonblock_eq, BitVec.getLsbD_or, BitVec.getLsbD_and, oNonblock,
    BitVec.getLsbD_twoPow]
  simp [oRdwr]

end CoroutineRpc.Coroutine
