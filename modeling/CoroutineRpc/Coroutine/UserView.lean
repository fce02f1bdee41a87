import CoroutineRpc.Coroutine.KernelNonblock

/-! The user's view of `O_NONBLOCK` under the hook layer, beside a kernel without the layer that
executes the same successful calls. -/
namespace CoroutineRpc.Coroutine

/-- The call is made with the hook enabled, as far as the call looks at that. -/
def LayerCall.hooked : LayerCall → Bool
  | .socket hookEnable _ | .accept hookEnable | .setsockopt hookEnable _ _ _
  | .close hookEnable => hookEnable
  | .setfl _ _ | .fionbio _ _ => true

/-- A descriptor number under the layer, and the flags of its file without the layer. -/
structure Compared where
  layer : Descriptor := {}
  plain : Option (BitVec 32) := none

namespace Compared

/-- What a call that succeeds does to the flags in a kernel without the layer. -/
def plainStep (k : Settable) (plain : Option (BitVec 32)) : LayerCall → Option (BitVec 32)
  | .socket _ type => some (oRdwr ||| (type &&& oNonblock))
  | .accept _ => some oRdwr
  | .setfl arg ok => if ok then plain.map (fun flags => k.setfl flags arg) else plain
  | .fionbio value ok => if ok then plain.map (fun flags => fionbio flags value) else plain
  | .setsockopt _ _ _ _ => plain
  | .close _ => none

def step (k : Settable) (c : Compared) (a : LayerCall) : Option Compared :=
  if a.hooked then
    (c.layer.step k a).map (fun d => { layer := d, plain := plainStep k c.plain a })
  else none

/-- What `do_io` decides before its first attempt. -/
def enter (c : Compared) (timeoutSo : SockOpt) : Pc :=
  (DoIo.enter true (c.layer.ctx.map (·.toFdCtx)) timeoutSo).1

/-- `F_GETFL` answers as without the layer, and `do_io` passes straight through exactly when
the flag is set there. -/
structure Transparent (c : Compared) : Prop where
  getfl : c.layer.fcntlGetfl = c.plain
  direct : ∀ flags timeoutSo, c.plain = some flags →
    (c.enter timeoutSo = .direct ↔ nonblock flags = true)

/-- The call does not ask for a non-blocking socket at once, and the kernel does not reject a
change of the flag that has been recorded by then. -/
def Faithful (c : Compared) : LayerCall → Prop
  | .socket _ type => nonblock type = false
  | .setfl arg false => ∀ ctx, c.layer.ctx = some ctx → nonblock arg = ctx.userNonblock
  | .fionbio value false => ∀ ctx, c.layer.ctx = some ctx → (value != 0) = ctx.userNonblock
  | _ => True

/-- A socket that is open on both sides: the layer has a context for it, and the other flags
agree. -/
structure Open (c : Compared) (file : KernelFile) (ctx : FdRecord) (flags : BitVec 32) : Prop where
  layer : c.layer = { file := some file, ctx := some ctx }
  plain : c.plain = some flags
  isClosed : ctx.isClosed = false
  isSocket : ctx.isSocket = true
  sysNonblock : ctx.sysNonblock = true
  same : SameElse file.flags flags

/-- Every number is unused on both sides or has an open socket. -/
def Paired (c : Compared) : Prop := c = {} ∨ ∃ file ctx flags, c.Open file ctx flags

section Open
variable {c : Compared} {file : KernelFile} {ctx : FdRecord} {flags : BitVec 32}

theorem Open.socketCtx (h : c.Open file ctx flags) : c.layer.socketCtx = some ctx := by
  rw [Descriptor.socketCtx, h.layer, Option.filter_some, h.isClosed, h.isSocket]
  rfl

/-- For an open socket all that matters is the user's flag. -/
theorem Open.transparent_iff (h : c.Open file ctx flags) :
    c.Transparent ↔ ctx.userNonblock = nonblock flags := by
  have hview : c.layer.fcntlGetfl = some (if ctx.userNonblock then file.flags ||| oNonblock
      else file.flags &&& ~~~oNonblock) := by
    rw [Descriptor.fcntlGetfl, h.socketCtx, h.layer]
    rfl
  have hset : nonblock (if ctx.userNonblock then file.flags ||| oNonblock
      else file.flags &&& ~~~oNonblock) = ctx.userNonblock := by
    cases ctx.userNonblock with
    | true => exact nonblock_on file.flags
    | false => exact nonblock_off file.flags
  have henter : ∀ timeoutSo, c.enter timeoutSo = .direct ↔ ctx.userNonblock = true := by
    intro timeoutSo
    rw [enter, h.layer]
    simp only [DoIo.enter, Option.map_some, h.isClosed, h.isSocket]
    cases ctx.userNonblock with
    | true => exact iff_of_true rfl rfl
    | false => exact iff_of_false Pc.noConfusion Bool.false_ne_true
  constructor
  · intro ht
    have hgetfl := ht.getfl
    rw [hview, h.plain] at hgetfl
    rw [← Option.some.inj hgetfl, hset]
  · intro hu
    refine ⟨?_, ?_⟩
    · rw [hview, h.plain]
      apply congrArg some
      refine SameElse.eq (SameElse.trans ?_ h.same) (hset.trans hu)
      split
      · exact sameElse_on file.flags
      · exact sameElse_off file.flags
    · intro flags' timeoutSo hflags
      rw [h.plain] at hflags
      cases hflags
      rw [henter, hu]

/-- The layer and the plain kernel after a call that changes the flags. -/
theorem Open.reflag (h : c.Open file ctx flags) {v ok : Bool} {f g : BitVec 32 → BitVec 32}
    (hsame : SameElse (f file.flags) (g flags)) {e : Compared}
    (hlayer : e.layer = (c.layer.setUserNonblock v).reflag f ok)
    (hplain : e.plain = if ok then c.plain.map g else c.plain) :
    e.Open { file with flags := if ok then f file.flags else file.flags }
      { ctx with userNonblock := v } (if ok then g flags else flags) := by
  refine ⟨?_, ?_, h.isClosed, h.isSocket, h.sysNonblock, ?_⟩
  · rw [hlayer, h.layer]
    cases ok with
    | true => rfl
    | false => rfl
  · rw [hplain, h.plain]
    cases ok with
    | true => rfl
    | false => rfl
  · cases ok with
    | true => exact hsame
    | false => exact h.same

/-- The flag that the layer records is right if the kernel has accepted the change, or if nothing
was to change. -/
theorem Open.changed (h : c.Open file ctx flags) (ht : c.Transparent) {v ok : Bool}
    {f g : BitVec 32 → BitVec 32} (hsame : SameElse (f file.flags) (g flags))
    (hset : nonblock (g flags) = v) {e : Compared}
    (hlayer : e.layer = (c.layer.setUserNonblock v).reflag f ok)
    (hplain : e.plain = if ok then c.plain.map g else c.plain) :
    e.Paired ∧ (e.Transparent ↔ (ok = false → ∀ ctx', c.layer.ctx = some ctx' →
      v = ctx'.userNonblock)) := by
  have hopen := h.reflag hsame hlayer hplain
  have huser := h.transparent_iff.mp ht
  refine ⟨Or.inr ⟨_, _, _, hopen⟩, hopen.transparent_iff.trans ?_⟩
  cases ok with
  | true => exact iff_of_true hset.symm (fun hf => absurd hf.symm Bool.false_ne_true)
  | false =>
    have hctx : c.layer.ctx = some ctx := by rw [h.layer]
    rw [hctx]
    constructor
    · rintro hv - ctx' hc
      cases hc
      exact hv.trans huser.symm
    · intro hall
      exact (hall rfl ctx rfl).trans huser

/-- New timeouts change nothing else. -/
theorem Open.retimed (h : c.Open file ctx flags) (optname : SockOpt) (v : Timeval) :
    ∃ ctx', Open { layer := c.layer.setsockopt true optname v, plain := c.plain } file ctx' flags ∧
      ctx'.userNonblock = ctx.userNonblock := by
  let ctx' : FdRecord := { ctx with toFdCtx := ctx.toFdCtx.setTimeout optname v.stored }
  have hlayer : c.layer.setsockopt true optname v = { file := some file, ctx := some ctx' } := by
    rw [h.layer]
    rfl
  cases optname with
  | rcvTimeo => exact ⟨_, ⟨hlayer, h.plain, h.isClosed, h.isSocket, h.sysNonblock, h.same⟩, rfl⟩
  | sndTimeo => exact ⟨_, ⟨hlayer, h.plain, h.isClosed, h.isSocket, h.sysNonblock, h.same⟩, rfl⟩

end Open

/-- A new socket that got a context of its own. -/
theorem open_created (k : Settable) (flags : BitVec 32) :
    ∃ file ctx, Open { layer := Descriptor.getCreate k { file := some ⟨true, flags, true⟩ },
                       plain := some flags } file ctx flags ∧ ctx.userNonblock = false := by
  rcases Descriptor.getCreate_spec k (d := { file := some ⟨true, flags, true⟩ }) rfl rfl with
    ⟨ctx, hctx, -⟩ | ⟨-, flags', -, hsame, heq⟩
  · cases hctx
  · exact ⟨_, _, ⟨heq, rfl, rfl, rfl, rfl, hsame⟩, rfl⟩

private theorem transparent_empty : ({} : Compared).Transparent := by
  refine ⟨rfl, ?_⟩
  intro flags timeoutSo hflags
  cases hflags

/-- A call under a number that is not in use. -/
theorem step_empty (k : Settable) {a : LayerCall} {e : Compared}
    (hstep : step k {} a = some e) : e.Paired ∧ (e.Transparent ↔ Faithful {} a) := by
  rw [step] at hstep
  split at hstep
  · next hhook =>
    obtain ⟨d, hd, rfl⟩ := Option.map_eq_some_iff.mp hstep
    cases a with
    | socket hookEnable type =>
      cases hhook
      cases hd
      obtain ⟨file, ctx, hopen, huser⟩ := open_created k (oRdwr ||| (type &&& oNonblock))
      refine ⟨Or.inr ⟨file, ctx, _, hopen⟩, hopen.transparent_iff.trans ?_⟩
      rw [huser, nonblock_socket]
      exact eq_comm
    | accept hookEnable =>
      cases hhook
      cases hd
      obtain ⟨file, ctx, hopen, huser⟩ := open_created k oRdwr
      refine ⟨Or.inr ⟨file, ctx, _, hopen⟩, hopen.transparent_iff.trans ?_⟩
      rw [huser]
      exact iff_of_true (by decide) trivial
    | setfl arg ok =>
      cases hd
      cases ok with
      | true => exact ⟨Or.inl rfl, iff_of_true transparent_empty trivial⟩
      | false => exact ⟨Or.inl rfl, iff_of_true transparent_empty (fun _ h => by cases h)⟩
    | fionbio value ok =>
      cases hd
      cases ok with
      | true => exact ⟨Or.inl rfl, iff_of_true transparent_empty trivial⟩
      | false => exact ⟨Or.inl rfl, iff_of_true transparent_empty (fun _ h => by cases h)⟩
    | setsockopt hookEnable optname v ok =>
      cases hhook
      cases hd
      exact ⟨Or.inl rfl, iff_of_true transparent_empty trivial⟩
    | close hookEnable =>
      cases hhook
      cases hd
      exact ⟨Or.inl rfl, iff_of_true transparent_empty trivial⟩
  · cases hstep

/-- A call on an open socket. -/
theorem step_open (k : Settable) {c e : Compared} {a : LayerCall} {file : KernelFile}
    {ctx : FdRecord} {flags : BitVec 32} (h : c.Open file ctx flags) (ht : c.Transparent)
    (hstep : step k c a = some e) : e.Paired ∧ (e.Transparent ↔ c.Faithful a) := by
  rw [step] at hstep
  split at hstep
  · next hhook =>
    obtain ⟨d, hd, rfl⟩ := Option.map_eq_some_iff.mp hstep
    cases a with
    | socket hookEnable type =>
      rw [h.layer] at hd
      cases hd
    | accept hookEnable =>
      rw [h.layer] at hd
      cases hd
    | setfl arg ok =>
      cases hd
      have hlayer : c.layer.fcntlSetfl k arg ok = (c.layer.setUserNonblock (nonblock arg)).reflag
          (fun flags => k.setfl flags (arg ||| oNonblock)) ok := by
        rw [Descriptor.fcntlSetfl, h.socketCtx]
        simp only [h.sysNonblock, if_true]
      obtain ⟨hpaired, hiff⟩ := h.changed ht (f := fun flags => k.setfl flags (arg ||| oNonblock))
        (g := fun flags => k.setfl flags arg)
        (e := { layer := c.layer.fcntlSetfl k arg ok, plain := plainStep k c.plain (.setfl arg ok) })
        (h.same.setfl k (sameElse_on arg)) (nonblock_setfl k flags arg) hlayer rfl
      refine ⟨hpaired, hiff.trans ?_⟩
      cases ok with
      | true => exact iff_of_true (fun hf => absurd hf.symm Bool.false_ne_true) trivial
      | false => exact forall_prop_of_true rfl
    | fionbio value ok =>
      cases hd
      have hlayer : c.layer.ioctlFionbio value ok = (c.layer.setUserNonblock (value != 0)).reflag
          (fun flags => Coroutine.fionbio flags value) ok := by
        rw [Descriptor.ioctlFionbio, h.socketCtx]
      obtain ⟨hpaired, hiff⟩ := h.changed ht (g := fun flags => fionbio flags value)
        (e := { layer := c.layer.ioctlFionbio value ok, plain := plainStep k c.plain (.fionbio value ok) })
        (h.same.fionbio value) (nonblock_fionbio flags value) hlayer rfl
      refine ⟨hpaired, hiff.trans ?_⟩
      cases ok with
      | true => exact iff_of_true (fun hf => absurd hf.symm Bool.false_ne_true) trivial
      | false => exact forall_prop_of_true rfl
    | setsockopt hookEnable optname v ok =>
      cases hhook
      cases hd
      obtain ⟨ctx', hopen, hsame⟩ := h.retimed optname v
      refine ⟨Or.inr ⟨_, _, _, hopen⟩, iff_of_true (hopen.transparent_iff.mpr ?_) trivial⟩
      exact hsame.trans (h.transparent_iff.mp ht)
    | close hookEnable =>
      cases hhook
      cases hd
      exact ⟨Or.inl rfl, iff_of_true transparent_empty trivial⟩
  · cases hstep

private theorem step_transparent (k : Settable) {c e : Compared} {a : LayerCall} (hp : c.Paired)
    (ht : c.Transparent) (hstep : step k c a = some e) :
    e.Paired ∧ (e.Transparent ↔ c.Faithful a) := by
  rcases hp with rfl | ⟨file, ctx, flags, hopen⟩
  · exact step_empty k hstep
  · exact step_open k hopen ht hstep

/-- In every history of hook-enabled calls the view of every socket is the one without the layer
exactly when all calls are faithful. -/
theorem always_transparent_iff (k : Settable) (calls : List (Nat × LayerCall)) :
    Transition.Always (Transition.indexed (step k)) (fun s => ∀ fd, (s fd).Transparent)
      (fun _ => {}) calls ↔
    Transition.Guarded (Transition.indexed (step k)) (fun s a => (s a.1).Faithful a.2)
      (fun _ => {}) calls := by
  have haux : ∀ (c : Compared) a e, c.Paired → c.Transparent → c.Faithful a →
      c.step k a = some e → e.Paired :=
    fun _ _ _ hp ht _ hst => (step_transparent k hp ht hst).1
  exact Transition.indexed_always_iff haux
    (fun _ _ _ hp ht hst => (step_transparent k hp ht hst).2) (fun _ => Or.inl rfl)
    (fun _ => transparent_empty)

/-- A socket at the end of a history whose flags the layer reports otherwise. -/
theorem not_always_transparent {calls : List (Nat × LayerCall)} {s : Nat → Compared} (fd : Nat)
    (hrun : Transition.run (Transition.indexed (step Descriptor.linux)) (fun _ => {}) calls = some s)
    (hview : (s fd).layer.fcntlGetfl ≠ (s fd).plain) :
    ¬ Transition.Always (Transition.indexed (step Descriptor.linux))
      (fun s => ∀ fd, (s fd).Transparent) (fun _ => {}) calls :=
  fun halways => hview (halways.finish hrun fd).getfl

/-- A socket that is made non-blocking at its creation is reported as blocking, and one whose
change to non-blocking was rejected as non-blocking. -/
theorem flag_reported_wrong :
    (¬ Transition.Always (Transition.indexed (step Descriptor.linux))
      (fun s => ∀ fd, (s fd).Transparent) (fun _ => {}) [(5, .socket true (1#32 ||| oNonblock))]) ∧
    ¬ Transition.Always (Transition.indexed (step Descriptor.linux))
      (fun s => ∀ fd, (s fd).Transparent) (fun _ => {})
      [(5, .socket true 1#32), (5, .setfl (oNonblock ||| 0x4000#32) false)] :=
  ⟨not_always_transparent 5 rfl (by decide), not_always_transparent 5 rfl (by decide)⟩

end Compared
end CoroutineRpc.Coroutine
