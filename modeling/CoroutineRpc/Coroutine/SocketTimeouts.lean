import CoroutineRpc.Coroutine.FdLayer

/-! The timeouts that `do_io` reads, beside what the options of the socket mean. `setsockopt`
records its value before the kernel has accepted it. -/
namespace CoroutineRpc.Coroutine

/-- The whole milliseconds of an interval. -/
def Timeval.ms (v : Timeval) : Int := v.tvSec * 1000 + v.tvUsec / 1000

/-- The kernel takes no other microseconds. -/
def Timeval.Valid (v : Timeval) : Prop := 0 ≤ v.tvUsec ∧ v.tvUsec < 1000000

instance (v : Timeval) : Decidable v.Valid := inferInstanceAs (Decidable (_ ∧ _))

/-- The context of a socket, if there is one, and what the options accepted so far mean, in
milliseconds; without a value they mean to wait without end. -/
structure SocketTimeouts where
  ctx : Option FdCtx
  meaning : SockOpt → Option Int := fun _ => none

/-- `setsockopt` with the hook enabled, or through `Socket` on any thread; `ok` is what the system
answers to a valid `timeval`. -/
inductive TimeoutCall where
  | setsockopt (optname : SockOpt) (v : Timeval) (ok : Bool)
  | setTimeout (hookEnable : Bool) (optname : SockOpt) (v : Int) (ok : Bool)
  deriving DecidableEq, Repr

/-- The `timeval` of `setSendTimeout` and `setRecvTimeout`. -/
def socketTimeval (v : Int) : Timeval :=
  ⟨int32 (v.tdiv 1000), int32 (v.tmod 1000 * 1000)⟩

namespace SocketTimeouts

/-- A socket of the hook layer has a new context, another one has none. -/
def start (managed : Bool) : SocketTimeouts := { ctx := if managed then some {} else none }

/-- What an accepted value means. -/
def means (v : Timeval) : Option Int := if v = ⟨0, 0⟩ then none else some v.ms

/-- A call of `setsockopt`: the layer's part and, if the kernel accepts the value, its part. -/
def setsockopt (s : SocketTimeouts) (hookEnable : Bool) (optname : SockOpt) (v : Timeval)
    (ok : Bool) : SocketTimeouts where
  ctx := if hookEnable then s.ctx.map (fun c => c.setTimeout optname v.stored) else s.ctx
  meaning := if ok = true ∧ v.Valid then Function.update s.meaning optname (means v)
    else s.meaning

def step (s : SocketTimeouts) : TimeoutCall → Option SocketTimeouts
  | .setsockopt optname v ok => some (s.setsockopt true optname v ok)
  | .setTimeout hookEnable optname v ok =>
    some (s.setsockopt hookEnable optname (socketTimeval v) ok)

/-- `getSendTimeout` and `getRecvTimeout`. -/
def getTimeout (s : SocketTimeouts) (optname : SockOpt) : Int :=
  match s.ctx with
  | none => -1
  | some c =>
    match c.getTimeout optname with
    | none => -1
    | some ms => int64 ms

/-- What `do_io` reads, if there is a context, is what the options mean. -/
def Meant (s : SocketTimeouts) : Prop :=
  ∀ c, s.ctx = some c → ∀ optname, (c.getTimeout optname).map Int.ofNat = s.meaning optname

/-- What a call has recorded, as a timeout. -/
def recorded (v : Timeval) : Option Nat := if v.stored = 2 ^ 64 - 1 then none else some v.stored

/-- An accepted value is not zero and its milliseconds fit; a rejected one was recorded before.
Without the hook nothing is recorded, so that an accepted value has to be there already. -/
def Fits (s : SocketTimeouts) (hookEnable : Bool) (optname : SockOpt) (v : Timeval) (ok : Bool) :
    Prop :=
  ∀ c, s.ctx = some c →
    if ok = true ∧ v.Valid then
      if hookEnable = true then v ≠ ⟨0, 0⟩ ∧ 0 ≤ v.ms ∧ v.ms < 2 ^ 64 - 1
      else (c.getTimeout optname).map Int.ofNat = means v
    else hookEnable = true → recorded v = c.getTimeout optname

def FitsCall (s : SocketTimeouts) : TimeoutCall → Prop
  | .setsockopt optname v ok => s.Fits true optname v ok
  | .setTimeout hookEnable optname v ok => s.Fits hookEnable optname (socketTimeval v) ok

private theorem getTimeout_setTimeout (c : FdCtx) (optname optname' : SockOpt) (v : Timeval) :
    (c.setTimeout optname v.stored).getTimeout optname' =
      if optname' = optname then recorded v else c.getTimeout optname' := by
  cases optname with
  | rcvTimeo => cases optname' with
    | rcvTimeo => rfl
    | sndTimeo => rfl
  | sndTimeo => cases optname' with
    | rcvTimeo => rfl
    | sndTimeo => rfl

/-- What is recorded of a valid interval are its milliseconds in 64 bits. -/
theorem stored_of_valid {v : Timeval} (h : v.Valid) : v.stored = uint64 (int64 v.ms) := by
  have hdiv : v.tvUsec.tdiv 1000 = v.tvUsec / 1000 := Int.tdiv_eq_ediv_of_nonneg h.1
  rw [Timeval.stored, hdiv, int64_int64_add, Timeval.ms]

private theorem int64_stored {v : Timeval} (h : v.Valid) : int64 v.stored = int64 v.ms := by
  rw [stored_of_valid h, int64_uint64, int64_int64]

private theorem stored_eq {v : Timeval} (h : v.Valid) : (v.stored : Int) = v.ms % 2 ^ 64 := by
  obtain ⟨⟨k, hk⟩, -, -⟩ := int64_spec v.ms
  rw [stored_of_valid h, uint64]
  omega

/-- The recorded value is the meaning of the call exactly when it fits. -/
theorem recorded_iff {v : Timeval} (h : v.Valid) :
    (recorded v).map Int.ofNat = means v ↔ v ≠ ⟨0, 0⟩ ∧ 0 ≤ v.ms ∧ v.ms < 2 ^ 64 - 1 := by
  have hstored := stored_eq h
  rw [means]
  by_cases hzero : v = ⟨0, 0⟩
  · subst hzero
    exact iff_of_false (by decide) (fun hne => hne.1 rfl)
  rw [if_neg hzero, recorded]
  by_cases hmax : v.stored = 2 ^ 64 - 1
  · rw [if_pos hmax]
    refine iff_of_false ?_ ?_
    · intro hnone
      cases hnone
    · omega
  · rw [if_neg hmax, Option.map_some, Option.some.injEq, Int.ofNat_eq_natCast]
    constructor
    · intro heq
      refine ⟨hzero, ?_, ?_⟩
      · omega
      · omega
    · rintro ⟨-, hlow, hhigh⟩
      omega

/-- The timeout of an option after a call, in a context that there is. -/
theorem getTimeout_ctx (hookEnable : Bool) (c : FdCtx) (optname optname' : SockOpt) (v : Timeval) :
    (if hookEnable = true then c.setTimeout optname v.stored else c).getTimeout optname' =
      if hookEnable = true ∧ optname' = optname then recorded v else c.getTimeout optname' := by
  cases hookEnable with
  | true =>
    rw [if_pos rfl, getTimeout_setTimeout]
    simp only [true_and]
  | false => rfl

/-- Only the option of the call matters. -/
theorem meant_setsockopt_self {s : SocketTimeouts} {c : FdCtx} (hc : s.ctx = some c) (h : s.Meant)
    (hookEnable : Bool) (optname : SockOpt) (v : Timeval) (ok : Bool) :
    (s.setsockopt hookEnable optname v ok).Meant ↔
      (if hookEnable = true then recorded v else c.getTimeout optname).map Int.ofNat =
        if ok = true ∧ v.Valid then means v else s.meaning optname := by
  have hctx : (s.setsockopt hookEnable optname v ok).ctx =
      some (if hookEnable = true then c.setTimeout optname v.stored else c) := by
    rw [setsockopt, hc]
    cases hookEnable with
    | true => rfl
    | false => rfl
  have hmeaning : ∀ optname', (s.setsockopt hookEnable optname v ok).meaning optname' =
      if optname' = optname ∧ ok = true ∧ v.Valid then means v else s.meaning optname' := by
    intro optname'
    simp only [setsockopt]
    by_cases haccepted : ok = true ∧ v.Valid
    · rw [if_pos haccepted]
      rcases eq_or_ne optname' optname with rfl | hne
      · rw [Function.update_self, if_pos ⟨rfl, haccepted⟩]
      · rw [Function.update_of_ne hne, if_neg (fun hand => hne hand.1)]
    · rw [if_neg haccepted, if_neg (fun hand => haccepted hand.2)]
  constructor
  · intro hmeant
    have hopt := hmeant _ hctx optname
    rw [getTimeout_ctx, hmeaning] at hopt
    simpa only [true_and, and_true] using hopt
  · intro hopt c' hc' optname'
    rw [hctx] at hc'
    cases hc'
    rw [getTimeout_ctx, hmeaning]
    rcases eq_or_ne optname' optname with rfl | hne
    · simpa only [true_and, and_true] using hopt
    · rw [if_neg (fun hand => hne hand.2), if_neg (fun hand => hne hand.1)]
      exact h c hc optname'

/-- One call keeps the two in step exactly when it fits. -/
theorem meant_setsockopt_iff {s : SocketTimeouts} (h : s.Meant) (hookEnable : Bool)
    (optname : SockOpt) (v : Timeval) (ok : Bool) :
    (s.setsockopt hookEnable optname v ok).Meant ↔ s.Fits hookEnable optname v ok := by
  cases hc : s.ctx with
  | none =>
    have hnone : (s.setsockopt hookEnable optname v ok).ctx = none := by
      rw [setsockopt, hc]
      cases hookEnable with
      | true => rfl
      | false => rfl
    refine iff_of_true ?_ ?_
    · intro c hc'
      cases hnone.symm.trans hc'
    · intro c hc'
      cases hc.symm.trans hc'
  | some c =>
    rw [meant_setsockopt_self hc h]
    have hfits : s.Fits hookEnable optname v ok ↔
        if ok = true ∧ v.Valid then
          if hookEnable = true then v ≠ ⟨0, 0⟩ ∧ 0 ≤ v.ms ∧ v.ms < 2 ^ 64 - 1
          else (c.getTimeout optname).map Int.ofNat = means v
        else hookEnable = true → recorded v = c.getTimeout optname := by
      constructor
      · exact fun hall => hall c hc
      · intro hone c' hc'
        cases hc.symm.trans hc'
        exact hone
    rw [hfits]
    by_cases haccepted : ok = true ∧ v.Valid
    · rw [if_pos haccepted, if_pos haccepted]
      cases hookEnable with
      | true => exact recorded_iff haccepted.2
      | false => exact Iff.rfl
    · rw [if_neg haccepted, if_neg haccepted, ← h c hc optname]
      cases hookEnable with
      | true =>
        have hinj := (Option.map_injective (fun _ _ => Int.ofNat.inj)).eq_iff
          (a := recorded v) (b := c.getTimeout optname)
        exact hinj.trans ⟨fun heq _ => heq, fun himp => himp rfl⟩
      | false => exact iff_of_true rfl (fun hf => by cases hf)

private theorem start_meant (managed : Bool) : (start managed).Meant := by
  intro c hc optname
  cases managed with
  | false => cases hc
  | true =>
    cases hc
    cases optname with
    | rcvTimeo => rfl
    | sndTimeo => rfl

private theorem always_meant_iff (managed : Bool) (calls : List TimeoutCall) :
    Transition.Always step Meant (start managed) calls ↔
      Transition.Guarded step FitsCall (start managed) calls := by
  apply Transition.always_iff_of_step _ (start_meant managed)
  intro s a t hs hst
  cases a with
  | setsockopt optname v ok =>
    cases hst
    exact meant_setsockopt_iff hs true optname v ok
  | setTimeout hookEnable optname v ok =>
    cases hst
    exact meant_setsockopt_iff hs hookEnable optname (socketTimeval v) ok

/-- The largest `uint64_t` is -1 again in the `int64_t` that is returned. -/
theorem getTimeout_setsockopt {s : SocketTimeouts} {c : FdCtx} (hc : s.ctx = some c)
    (optname : SockOpt) (v : Timeval) (ok : Bool) :
    (s.setsockopt true optname v ok).getTimeout optname = int64 v.stored := by
  have hctx : (s.setsockopt true optname v ok).ctx = some (c.setTimeout optname v.stored) := by
    rw [setsockopt, hc]
    rfl
  rw [getTimeout, hctx]
  simp only [getTimeout_setTimeout, if_true, recorded]
  by_cases hmax : v.stored = 2 ^ 64 - 1
  · rw [if_pos hmax, hmax]
    rfl
  · rw [if_neg hmax]

/-- The `timeval` of a positive timeout is a valid one, whose seconds have gone through an
`int`. -/
theorem socketTimeval_spec {v : Int} (hpos : 0 < v) :
    (socketTimeval v).Valid ∧ (socketTimeval v).ms = int32 (v / 1000) * 1000 + v % 1000 := by
  have hdiv : v.tdiv 1000 = v / 1000 := Int.tdiv_eq_ediv_of_nonneg hpos.le
  have hmod : v.tmod 1000 = v % 1000 := Int.tmod_eq_emod_of_nonneg hpos.le
  have husec : int32 (v % 1000 * 1000) = v % 1000 * 1000 := int32_of_fits (by omega) (by omega)
  rw [Timeval.Valid, Timeval.ms, socketTimeval, hdiv, hmod, husec]
  simp only
  omega

/-- When a timeout that was set is read back: there is a context, and its seconds are those of an
`int`, or no hook was there and the timeout was recorded before. -/
def ReadBack (s : SocketTimeouts) (hookEnable : Bool) (optname : SockOpt) (v : Int) : Prop :=
  s.ctx.isSome ∧ if hookEnable = true then v < 2147483648000 else s.getTimeout optname = v

private theorem getTimeout_setTimeout_iff (s : SocketTimeouts) (hookEnable : Bool)
    (optname : SockOpt) {v : Int} (hpos : 0 < v) (ok : Bool) :
    (s.setsockopt hookEnable optname (socketTimeval v) ok).getTimeout optname = v ↔
      s.ReadBack hookEnable optname v := by
  cases hc : s.ctx with
  | none =>
    have hnone : (s.setsockopt hookEnable optname (socketTimeval v) ok).ctx = none := by
      rw [setsockopt, hc]
      cases hookEnable with
      | true => rfl
      | false => rfl
    rw [getTimeout, hnone, ReadBack, hc]
    refine iff_of_false ?_ (fun hand => by cases hand.1)
    change ¬ (-1 : Int) = v
    omega
  | some c =>
    have hsome : s.ctx.isSome = true := by rw [hc]; rfl
    cases hookEnable with
    | false =>
      have hsame : (s.setsockopt false optname (socketTimeval v) ok).getTimeout optname =
          s.getTimeout optname := rfl
      rw [hsame, ReadBack]
      exact ⟨fun heq => ⟨hsome, heq⟩, fun hand => hand.2⟩
    | true =>
      obtain ⟨hvalid, hms⟩ := socketTimeval_spec hpos
      obtain ⟨⟨k, hk⟩, hlow, hhigh⟩ := int32_spec (v / 1000)
      have hstored : int64 (socketTimeval v).stored = (socketTimeval v).ms := by
        rw [int64_stored hvalid]
        exact int64_of_fits (by omega) (by omega)
      rw [getTimeout_setsockopt hc, hstored, hms, ReadBack, if_pos rfl]
      constructor
      · intro heq
        exact ⟨hsome, by omega⟩
      · rintro ⟨-, hlt⟩
        omega

/-- A positive `int64_t`. -/
abbrev Positive64 := { v : Int // 0 < v ∧ v < 2 ^ 63 }

/-- In every history the timeouts mean what the options mean exactly when all calls fit, and in
every state a timeout that is set is read back exactly under its condition. -/
theorem timeouts_meant_iff (managed : Bool) (calls : List TimeoutCall) (s : SocketTimeouts)
    (hookEnable : Bool) (optname : SockOpt) (v : Positive64) :
    (Transition.Always step Meant (start managed) calls ↔
      Transition.Guarded step FitsCall (start managed) calls) ∧
    ((s.setsockopt hookEnable optname (socketTimeval v) true).getTimeout optname = v ↔
      s.ReadBack hookEnable optname v) :=
  ⟨always_meant_iff managed calls, getTimeout_setTimeout_iff s hookEnable optname v.2.1 true⟩

/-- A rejected value is recorded, a zero is recorded as no time at all, 25 days too many do not come
back, and neither does any timeout of a socket without a context. -/
theorem timeouts_not_meant :
    (¬ Transition.Always step Meant (start true) [.setsockopt .rcvTimeo ⟨5, 1000000⟩ false]) ∧
    (¬ Transition.Always step Meant (start true) [.setsockopt .rcvTimeo ⟨0, 0⟩ true]) ∧
    ((start true).setsockopt true .rcvTimeo (socketTimeval 2147483648000) true).getTimeout
      .rcvTimeo = -2147483648000 ∧
    ((start false).setsockopt true .rcvTimeo (socketTimeval 1500) true).getTimeout
      .rcvTimeo = -1 := by
  refine ⟨?_, ?_, by decide, by decide⟩
  · intro halways
    have hmeant := halways.finish rfl _ rfl .rcvTimeo
    exact absurd hmeant (by decide)
  · intro halways
    have hmeant := halways.finish rfl _ rfl .rcvTimeo
    exact absurd hmeant (by decide)

end SocketTimeouts
end CoroutineRpc.Coroutine
