import CoroutineRpc.Coroutine.FdLayer
import CoroutineRpc.Library.Indexed

/-! Whether the sockets that the hook layer manages stay non-blocking in the kernel. The layer
loses one by `ioctl` and by a context that an unhooked `close` has left behind. -/
namespace CoroutineRpc.Coroutine.Descriptor

/-- There is a context that says that the system has made the socket non-blocking. -/
def Recorded (d : Descriptor) : Prop :=
  ∃ ctx, d.ctx = some ctx ∧ ctx.isSocket = true ∧ ctx.sysNonblock = true

/-- An open socket that a hook-enabled call returned, with such a context. -/
def Managed (d : Descriptor) : Prop :=
  d.Recorded ∧ ∃ file, d.file = some file ∧ file.isSocket = true ∧ file.managed = true

/-- The kernel has the flag of a managed socket. -/
def Unblocking (d : Descriptor) : Prop :=
  d.Managed → ∀ file, d.file = some file → nonblock file.flags = true

/-- A hook-enabled call is not given a number with a context left behind, unless the new socket
has the flag already, and `ioctl` does not clear the flag of a managed socket. -/
def KeepsFlag (d : Descriptor) : LayerCall → Prop
  | .socket true type => d.Recorded → nonblock type = true
  | .accept true => ¬ d.Recorded
  | .fionbio value ok => value = 0 → ok = true → ¬ d.Managed
  | _ => True

/-- `m_isClosed` is never set, and only sockets are opened. -/
structure Plain (d : Descriptor) : Prop where
  open_ctx : ∀ ctx, d.ctx = some ctx → ctx.isClosed = false
  socket : ∀ file, d.file = some file → file.isSocket = true

theorem plain_empty : ({} : Descriptor).Plain := by
  refine ⟨?_, ?_⟩
  · intro ctx h
    cases h
  · intro file h
    cases h

theorem opened_some {d e : Descriptor} {flags : BitVec 32} {hookEnable : Bool}
    (h : d.opened flags hookEnable = some e) :
    d.file = none ∧ e = { d with file := some ⟨true, flags, hookEnable⟩ } := by
  rw [opened] at h
  split at h
  · cases h
  · next hfile =>
    cases h
    exact ⟨Option.not_isSome_iff_eq_none.mp hfile, rfl⟩

theorem Plain.opened {d e : Descriptor} (h : d.Plain) {flags : BitVec 32} {hookEnable : Bool}
    (he : d.opened flags hookEnable = some e) : e.Plain := by
  obtain ⟨-, rfl⟩ := opened_some he
  refine ⟨h.open_ctx, ?_⟩
  intro file hfile
  cases hfile
  rfl

/-- On a socket `getCreate` leaves a context that is there, and otherwise makes one together
with the flag. -/
theorem getCreate_spec (k : Settable) {d : Descriptor} {file : KernelFile}
    (hfile : d.file = some file) (hsocket : file.isSocket = true) :
    (∃ ctx, d.ctx = some ctx ∧ d.getCreate k = d) ∨
    (d.ctx = none ∧ ∃ flags, nonblock flags = true ∧ SameElse flags file.flags ∧
      d.getCreate k = { file := some { file with flags := flags }
                        ctx := some { isInit := true, isSocket := true, sysNonblock := true } }) := by
  rw [getCreate]
  cases hctx : d.ctx with
  | some ctx => exact Or.inl ⟨ctx, rfl, rfl⟩
  | none =>
    refine Or.inr ⟨rfl, ?_⟩
    simp only [Option.isSome_none, Bool.false_eq_true, if_false, init, hfile, hsocket, if_true]
    refine ⟨_, ?_, ?_, rfl⟩
    · split
      · next hset => exact hset
      · rw [nonblock_setfl, nonblock_on]
    · split
      · exact fun _ _ => rfl
      · have hsame : SameElse file.flags file.flags := fun _ _ => rfl
        exact (hsame.setfl k (sameElse_on file.flags)).trans (setfl_self k file.flags)

/-- The context that the layer acts on is the one that is recorded. -/
theorem Plain.socketCtx_eq {d : Descriptor} (h : d.Plain) :
    d.socketCtx = d.ctx.filter (fun c => c.isSocket) := by
  rw [socketCtx]
  cases hctx : d.ctx with
  | none => rfl
  | some ctx =>
    have hopen := h.open_ctx ctx hctx
    simp [Option.filter, hopen]

section Flags
variable {d : Descriptor} {f : BitVec 32 → BitVec 32} {ok : Bool}

@[simp] theorem reflag_ctx : (d.reflag f ok).ctx = d.ctx := by
  rw [reflag]
  split
  · rfl
  · rfl

@[simp] theorem reflag_file : (d.reflag f ok).file =
    d.file.map (fun file => { file with flags := if ok then f file.flags else file.flags }) := by
  cases ok with
  | true => rfl
  | false => exact Option.map_id'.symm

@[simp] theorem setUserNonblock_file (v : Bool) : (d.setUserNonblock v).file = d.file := rfl

/-- Neither the flags nor the user's flag decide what is managed. -/
theorem managed_reflag : (d.reflag f ok).Managed ↔ d.Managed := by
  rw [Managed, Managed, Recorded, Recorded, reflag_ctx, reflag_file]
  apply and_congr_right
  intro _
  constructor
  · rintro ⟨file, hfile, hsocket, hmanaged⟩
    obtain ⟨old, hold, rfl⟩ := Option.map_eq_some_iff.mp hfile
    exact ⟨old, hold, hsocket, hmanaged⟩
  · rintro ⟨file, hfile, hsocket, hmanaged⟩
    exact ⟨{ file with flags := if ok then f file.flags else file.flags }, by rw [hfile]; rfl,
      hsocket, hmanaged⟩

private theorem managed_setUserNonblock (v : Bool) : (d.setUserNonblock v).Managed ↔ d.Managed := by
  rw [Managed, Managed, setUserNonblock_file]
  apply and_congr_left
  intro _
  constructor
  · rintro ⟨ctx, hctx, hsocket, hsys⟩
    obtain ⟨old, hold, rfl⟩ := Option.map_eq_some_iff.mp hctx
    exact ⟨old, hold, hsocket, hsys⟩
  · rintro ⟨ctx, hctx, hsocket, hsys⟩
    exact ⟨{ ctx with userNonblock := v }, by rw [setUserNonblock, hctx]; rfl, hsocket, hsys⟩

/-- A call that changes the flags has to leave the flag of a managed socket set. -/
theorem unblocking_reflag (h : d.Unblocking) : (d.reflag f ok).Unblocking ↔
    (d.Managed → ok = true → ∀ file, d.file = some file → nonblock (f file.flags) = true) := by
  rw [Unblocking, managed_reflag, reflag_file]
  constructor
  · rintro hkept hmanaged rfl file hfile
    exact hkept hmanaged _ (by rw [hfile]; rfl)
  · intro hkept hmanaged file hfile
    obtain ⟨old, hold, rfl⟩ := Option.map_eq_some_iff.mp hfile
    cases ok with
    | true => exact hkept hmanaged rfl old hold
    | false => exact h hmanaged old hold

private theorem unblocking_setUserNonblock (h : d.Unblocking) (v : Bool) :
    (d.setUserNonblock v).Unblocking := by
  intro hmanaged file hfile
  exact h ((managed_setUserNonblock v).mp hmanaged) file hfile

end Flags

/-- Without a context of a socket nothing is managed. -/
theorem Plain.not_managed {d : Descriptor} (h : d.Plain) (hnone : d.socketCtx = none) :
    ¬ d.Managed := by
  rintro ⟨⟨ctx, hctx, hsocket, -⟩, -⟩
  rw [h.socketCtx_eq, hctx, Option.filter_some, if_pos hsocket] at hnone
  cases hnone

private theorem socketCtx_some {d : Descriptor} {ctx : FdRecord} (h : d.socketCtx = some ctx) :
    d.ctx = some ctx := Option.eq_some_of_filter_eq_some h

private theorem unblocking_fcntlSetfl (k : Settable) {d : Descriptor} (hp : d.Plain)
    (h : d.Unblocking) (arg : BitVec 32) (ok : Bool) : (d.fcntlSetfl k arg ok).Unblocking := by
  rw [fcntlSetfl]
  cases hctx : d.socketCtx with
  | none => exact (unblocking_reflag h).mpr (fun hmanaged => absurd hmanaged (hp.not_managed hctx))
  | some ctx =>
    apply (unblocking_reflag (unblocking_setUserNonblock h _)).mpr
    intro hmanaged _ file _
    obtain ⟨⟨ctx', hctx', -, hsys⟩, -⟩ := (managed_setUserNonblock _).mp hmanaged
    rw [socketCtx_some hctx] at hctx'
    cases hctx'
    rw [nonblock_setfl, hsys, if_pos rfl, nonblock_on]

private theorem unblocking_ioctlFionbio {d : Descriptor} (h : d.Unblocking) (value : Int)
    (ok : Bool) : (d.ioctlFionbio value ok).Unblocking ↔ (value = 0 → ok = true → ¬ d.Managed) := by
  have hfile : d.Managed → ∃ file, d.file = some file := fun hm => ⟨hm.2.choose, hm.2.choose_spec.1⟩
  have hguard : (d.Managed → ok = true → ∀ file, d.file = some file →
      nonblock (Coroutine.fionbio file.flags value) = true) ↔
        (value = 0 → ok = true → ¬ d.Managed) := by
    simp only [nonblock_fionbio, bne_iff_ne]
    constructor
    · intro hkept hzero hok hmanaged
      obtain ⟨file, hf⟩ := hfile hmanaged
      exact hkept hmanaged hok file hf hzero
    · exact fun hkept hmanaged hok _ _ hzero => hkept hzero hok hmanaged
  rw [ioctlFionbio]
  cases d.socketCtx with
  | none => exact (unblocking_reflag h).trans hguard
  | some ctx =>
    apply (unblocking_reflag (unblocking_setUserNonblock h _)).trans
    rw [managed_setUserNonblock]
    exact hguard

/-- A new socket: only a context that was left behind keeps it from getting the flag. -/
theorem unblocking_getCreate (k : Settable) {d e : Descriptor} {flags : BitVec 32}
    {hookEnable : Bool} (he : d.opened flags hookEnable = some e) :
    (e.getCreate k).Unblocking ↔ (hookEnable = true → d.Recorded → nonblock flags = true) := by
  obtain ⟨hfile, rfl⟩ := opened_some he
  rcases getCreate_spec k (d := { d with file := some ⟨true, flags, hookEnable⟩ }) rfl rfl with
    ⟨ctx, hctx, heq⟩ | ⟨hctx, flags', hset, -, heq⟩
  · rw [heq]
    constructor
    · intro hkept hook hrecorded
      exact hkept ⟨hrecorded, _, rfl, rfl, hook⟩ _ rfl
    · rintro hkept ⟨hrecorded, file, hf, -, hmanaged⟩ file' hf'
      cases hf
      cases hf'
      exact hkept hmanaged hrecorded
  · rw [heq]
    constructor
    · rintro - - ⟨ctx, hctx', -⟩
      rw [hctx] at hctx'
      cases hctx'
    · rintro - - file hf
      cases hf
      exact hset

/-- `setsockopt` only changes the timeouts of a context. -/
theorem setsockopt_ctx {d : Descriptor} {hookEnable : Bool} {optname : SockOpt} {v : Timeval}
    {ctx : FdRecord} (h : (d.setsockopt hookEnable optname v).ctx = some ctx) :
    ∃ old, d.ctx = some old ∧ ctx.isClosed = old.isClosed ∧ ctx.isSocket = old.isSocket ∧
      ctx.sysNonblock = old.sysNonblock := by
  rw [setsockopt] at h
  split at h
  · obtain ⟨old, hold, rfl⟩ := Option.map_eq_some_iff.mp h
    cases optname with
    | rcvTimeo => exact ⟨old, hold, rfl, rfl, rfl⟩
    | sndTimeo => exact ⟨old, hold, rfl, rfl, rfl⟩
  · exact ⟨ctx, h, rfl, rfl, rfl⟩

theorem setsockopt_file (d : Descriptor) (hookEnable : Bool) (optname : SockOpt) (v : Timeval) :
    (d.setsockopt hookEnable optname v).file = d.file := by
  rw [setsockopt]
  split
  · rfl
  · rfl

/-- One call keeps the flags of managed sockets exactly when it meets the guard. -/
theorem step_unblocking_iff (k : Settable) {d e : Descriptor} {a : LayerCall} (hp : d.Plain)
    (h : d.Unblocking) (hstep : d.step k a = some e) : e.Unblocking ↔ d.KeepsFlag a := by
  cases a with
  | socket hookEnable type =>
    obtain ⟨d', hopen, rfl⟩ := Option.map_eq_some_iff.mp hstep
    cases hookEnable with
    | true =>
      apply (unblocking_getCreate k hopen).trans
      rw [nonblock_socket]
      exact forall_prop_of_true rfl
    | false =>
      obtain ⟨-, rfl⟩ := opened_some hopen
      refine iff_of_true ?_ trivial
      rintro ⟨-, file, hf, -, hmanaged⟩
      cases hf
      cases hmanaged
  | accept hookEnable =>
    obtain ⟨d', hopen, rfl⟩ := Option.map_eq_some_iff.mp hstep
    apply (unblocking_getCreate k hopen).trans
    cases hookEnable with
    | true =>
      have hclear : nonblock oRdwr ≠ true := by decide
      exact ⟨fun hkept hr => hclear (hkept rfl hr), fun hkept _ hr => absurd hr hkept⟩
    | false => exact iff_of_true (fun hf => absurd hf Bool.false_ne_true) trivial
  | setfl arg ok =>
    cases hstep
    exact iff_of_true (unblocking_fcntlSetfl k hp h arg ok) trivial
  | fionbio value ok =>
    cases hstep
    exact unblocking_ioctlFionbio h value ok
  | setsockopt hookEnable optname v ok =>
    cases hstep
    refine iff_of_true ?_ trivial
    rw [Unblocking, Managed, setsockopt_file]
    rintro ⟨⟨ctx, hctx, hsocket, hsys⟩, hfile⟩
    obtain ⟨old, hold, -, hsocket', hsys'⟩ := setsockopt_ctx hctx
    exact h ⟨⟨old, hold, hsocket' ▸ hsocket, hsys' ▸ hsys⟩, hfile⟩
  | close hookEnable =>
    cases hstep
    refine iff_of_true ?_ trivial
    intro _ file hf
    cases hookEnable with
    | true => cases hf
    | false => cases hf

theorem Plain.getCreate (k : Settable) {d : Descriptor} (h : d.Plain)
    (hopen : d.file.isSome = true) : (d.getCreate k).Plain := by
  obtain ⟨file, hfile⟩ := Option.isSome_iff_exists.mp hopen
  have hsocket := h.socket file hfile
  rcases getCreate_spec k hfile hsocket with ⟨ctx, hctx, heq⟩ | ⟨hctx, flags, -, -, heq⟩
  · rwa [heq]
  · rw [heq]
    refine ⟨?_, ?_⟩
    · intro ctx hctx
      cases hctx
      rfl
    · intro file' hf
      cases hf
      exact hsocket

theorem Plain.reflag {d : Descriptor} (h : d.Plain) (f : BitVec 32 → BitVec 32) (ok : Bool) :
    (d.reflag f ok).Plain := by
  refine ⟨?_, ?_⟩
  · rw [reflag_ctx]
    exact h.open_ctx
  · intro file hfile
    rw [reflag_file] at hfile
    obtain ⟨old, hold, rfl⟩ := Option.map_eq_some_iff.mp hfile
    exact h.socket old hold

theorem Plain.setUserNonblock {d : Descriptor} (h : d.Plain) (v : Bool) :
    (d.setUserNonblock v).Plain := by
  refine ⟨?_, h.socket⟩
  intro ctx hctx
  obtain ⟨old, hold, rfl⟩ := Option.map_eq_some_iff.mp hctx
  exact h.open_ctx old hold

/-- No call closes a context or opens anything but a socket. -/
theorem Plain.step (k : Settable) {d e : Descriptor} {a : LayerCall} (h : d.Plain)
    (hstep : d.step k a = some e) : e.Plain := by
  cases a with
  | socket hookEnable type =>
    obtain ⟨d', hopen, rfl⟩ := Option.map_eq_some_iff.mp hstep
    have hd' := h.opened hopen
    obtain ⟨-, rfl⟩ := opened_some hopen
    cases hookEnable with
    | true => exact hd'.getCreate k rfl
    | false => exact hd'
  | accept hookEnable =>
    obtain ⟨d', hopen, rfl⟩ := Option.map_eq_some_iff.mp hstep
    have hd' := h.opened hopen
    obtain ⟨-, rfl⟩ := opened_some hopen
    exact hd'.getCreate k rfl
  | setfl arg ok =>
    cases hstep
    rw [fcntlSetfl]
    split
    · exact h.reflag _ ok
    · exact (h.setUserNonblock _).reflag _ ok
  | fionbio value ok =>
    cases hstep
    rw [ioctlFionbio]
    split
    · exact h.reflag _ ok
    · exact (h.setUserNonblock _).reflag _ ok
  | setsockopt hookEnable optname v ok =>
    cases hstep
    refine ⟨?_, ?_⟩
    · intro ctx hctx
      obtain ⟨old, hold, hclosed, -⟩ := setsockopt_ctx hctx
      exact hclosed.trans (h.open_ctx old hold)
    · rw [setsockopt_file]
      exact h.socket
  | close hookEnable =>
    cases hstep
    cases hookEnable with
    | true => exact plain_empty
    | false => exact ⟨h.open_ctx, fun file hf => by cases hf⟩

private theorem unblocking_empty : ({} : Descriptor).Unblocking := by
  rintro ⟨⟨ctx, hctx, -⟩, -⟩
  cases hctx

/-- In every history all managed sockets stay non-blocking in the kernel exactly when all calls
keep their flags. -/
theorem always_unblocking_iff (k : Settable) (calls : List (Nat × LayerCall)) :
    Transition.Always (Transition.indexed (step k)) (fun s => ∀ fd, (s fd).Unblocking)
      (fun _ => {}) calls ↔
    Transition.Guarded (Transition.indexed (step k)) (fun s a => (s a.1).KeepsFlag a.2)
      (fun _ => {}) calls := by
  have haux : ∀ (d : Descriptor) a e, d.Plain → d.Unblocking → d.KeepsFlag a →
      d.step k a = some e → e.Plain := fun _ _ _ hp _ _ hst => hp.step k hst
  exact Transition.indexed_always_iff haux
    (fun _ _ _ hp hinv hst => step_unblocking_iff k hp hinv hst) (fun _ => plain_empty)
    (fun _ => unblocking_empty)

/-- `O_APPEND`, `O_NONBLOCK`, `O_DIRECT` and `O_NOATIME`. -/
def linux : Settable := ⟨0x44c00#32, by decide⟩

/-- A managed socket without the flag at the end of a history. -/
theorem not_always_unblocking {calls : List (Nat × LayerCall)} {s : Nat → Descriptor} (fd : Nat)
    (hrun : Transition.run (Transition.indexed (step linux)) (fun _ => {}) calls = some s)
    (hfile : (s fd).file = some ⟨true, oRdwr, true⟩)
    (hctx : (s fd).ctx = some { isInit := true, isSocket := true, sysNonblock := true }) :
    ¬ Transition.Always (Transition.indexed (step linux)) (fun s => ∀ fd, (s fd).Unblocking)
      (fun _ => {}) calls := by
  intro halways
  have hkept := halways.finish hrun fd ⟨⟨_, hctx, rfl, rfl⟩, _, hfile, rfl, rfl⟩ _ hfile
  exact absurd hkept (by decide)

/-- `ioctl` clears the flag of a managed socket, and a socket whose number still has the context
of one that was closed behind the layer's back never gets it. -/
theorem managed_sockets_block :
    (¬ Transition.Always (Transition.indexed (step linux)) (fun s => ∀ fd, (s fd).Unblocking)
      (fun _ => {}) [(5, .socket true 1#32), (5, .fionbio 0 true)]) ∧
    ¬ Transition.Always (Transition.indexed (step linux)) (fun s => ∀ fd, (s fd).Unblocking)
      (fun _ => {}) [(5, .socket true 1#32), (5, .close false), (5, .socket true 1#32)] :=
  ⟨not_always_unblocking (s := _) 5 rfl rfl rfl, not_always_unblocking (s := _) 5 rfl rfl rfl⟩

end CoroutineRpc.Coroutine.Descriptor
