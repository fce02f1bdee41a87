import CoroutineRpc.Coroutine.KernelNonblock
import CoroutineRpc.Server.Socket

/-! Who holds the descriptors. The objects hold what they have opened, one holder for each number,
and nothing stays open behind an object that is gone. -/
namespace CoroutineRpc.Coroutine.Descriptor

/-- Plain, and the context is one of a socket. -/
structure Tracked (d : Descriptor) : Prop extends Plain d where
  isSocket : ∀ ctx, d.ctx = some ctx → ctx.isSocket = true

private theorem tracked_empty : ({} : Descriptor).Tracked := by
  refine ⟨plain_empty, ?_⟩
  intro ctx h
  cases h

private theorem tracked_getCreate (k : Settable) {d : Descriptor} (h : d.Tracked)
    (hopen : d.file.isSome = true) :
    (d.getCreate k).Tracked ∧ (d.getCreate k).file.isSome = true ∧
      (d.getCreate k).socketCtx.isSome = true := by
  obtain ⟨file, hfile⟩ := Option.isSome_iff_exists.mp hopen
  rcases getCreate_spec k hfile (h.socket file hfile) with ⟨ctx, hctx, heq⟩ | ⟨-, flags, -, -, heq⟩
  · rw [heq]
    refine ⟨h, hopen, ?_⟩
    simp [socketCtx, hctx, Option.filter, h.open_ctx ctx hctx, h.isSocket ctx hctx]
  · refine ⟨⟨h.toPlain.getCreate k hopen, ?_⟩, ?_, ?_⟩
    · rw [heq]
      intro ctx hctx
      cases hctx
      rfl
    · rw [heq]
      rfl
    · rw [heq]
      rfl

private theorem tracked_opened {d e : Descriptor} (h : d.Tracked) {flags : BitVec 32}
    {hookEnable : Bool}
    (he : d.opened flags hookEnable = some e) : d.file = none ∧ e.Tracked ∧ e.file.isSome = true := by
  have hplain := h.toPlain.opened he
  obtain ⟨hnone, rfl⟩ := opened_some he
  exact ⟨hnone, ⟨hplain, h.isSocket⟩, rfl⟩

/-- A call that opens a number was given a free one. -/
theorem tracked_socket (k : Settable) {d e : Descriptor} (h : d.Tracked) {hookEnable : Bool}
    {type : BitVec 32} (he : d.step k (.socket hookEnable type) = some e) :
    d.file = none ∧ e.Tracked ∧ e.file.isSome = true := by
  obtain ⟨d', hopen, rfl⟩ := Option.map_eq_some_iff.mp he
  obtain ⟨hnone, hd', hfile⟩ := tracked_opened h hopen
  refine ⟨hnone, ?_⟩
  cases hookEnable with
  | true => exact ⟨(tracked_getCreate k hd' hfile).1, (tracked_getCreate k hd' hfile).2.1⟩
  | false => exact ⟨hd', hfile⟩

/-- After `accept` there is always a context that `Socket::init` finds good. -/
theorem tracked_accept (k : Settable) {d e : Descriptor} (h : d.Tracked) {hookEnable : Bool}
    (he : d.step k (.accept hookEnable) = some e) :
    d.file = none ∧ e.Tracked ∧ e.file.isSome = true ∧ e.socketCtx.isSome = true := by
  obtain ⟨d', hopen, rfl⟩ := Option.map_eq_some_iff.mp he
  obtain ⟨hnone, hd', hfile⟩ := tracked_opened h hopen
  exact ⟨hnone, tracked_getCreate k hd' hfile⟩

private theorem tracked_close (k : Settable) {d e : Descriptor} (h : d.Tracked) {hookEnable : Bool}
    (he : d.step k (.close hookEnable) = some e) : e.Tracked ∧ e.file = none := by
  obtain rfl := Option.some.inj he
  cases hookEnable with
  | true => exact ⟨tracked_empty, rfl⟩
  | false => exact ⟨⟨⟨h.open_ctx, by rintro file ⟨⟩⟩, h.isSocket⟩, rfl⟩

/-- No call makes a context of anything but a socket. -/
theorem tracked_step (k : Settable) {d e : Descriptor} (h : d.Tracked) {a : LayerCall}
    (he : d.step k a = some e) : e.Tracked := by
  cases a with
  | socket hookEnable type => exact (tracked_socket k h he).2.1
  | accept hookEnable => exact (tracked_accept k h he).2.1
  | close hookEnable => exact (tracked_close k h he).1
  | setfl arg ok =>
    refine ⟨h.toPlain.step k he, ?_⟩
    obtain rfl := Option.some.inj he
    intro ctx hctx
    rw [fcntlSetfl] at hctx
    split at hctx
    · rw [reflag_ctx] at hctx
      exact h.isSocket ctx hctx
    · rw [reflag_ctx] at hctx
      obtain ⟨old, hold, rfl⟩ := Option.map_eq_some_iff.mp hctx
      exact h.isSocket old hold
  | fionbio value ok =>
    refine ⟨h.toPlain.step k he, ?_⟩
    obtain rfl := Option.some.inj he
    intro ctx hctx
    rw [ioctlFionbio] at hctx
    split at hctx
    · rw [reflag_ctx] at hctx
      exact h.isSocket ctx hctx
    · rw [reflag_ctx] at hctx
      obtain ⟨old, hold, rfl⟩ := Option.map_eq_some_iff.mp hctx
      exact h.isSocket old hold
  | setsockopt hookEnable optname v ok =>
    refine ⟨h.toPlain.step k he, ?_⟩
    obtain rfl := Option.some.inj he
    intro ctx hctx
    obtain ⟨old, hold, -, hsocket, -⟩ := setsockopt_ctx hctx
    exact hsocket.trans (h.isSocket old hold)

/-- The calls that neither open nor close. -/
theorem file_kept (k : Settable) {d e : Descriptor} {a : LayerCall} (he : d.step k a = some e)
    (hclose : ∀ hookEnable, a ≠ .close hookEnable)
    (hsocket : ∀ hookEnable type, a ≠ .socket hookEnable type)
    (haccept : ∀ hookEnable, a ≠ .accept hookEnable) : e.file.isSome = d.file.isSome := by
  cases a with
  | socket hookEnable type => exact absurd rfl (hsocket hookEnable type)
  | accept hookEnable => exact absurd rfl (haccept hookEnable)
  | close hookEnable => exact absurd rfl (hclose hookEnable)
  | setfl arg ok =>
    obtain rfl := Option.some.inj he
    rw [fcntlSetfl]
    split
    · rw [reflag_file, Option.isSome_map]
    · rw [reflag_file, Option.isSome_map, setUserNonblock_file]
  | fionbio value ok =>
    obtain rfl := Option.some.inj he
    rw [ioctlFionbio]
    split
    · rw [reflag_file, Option.isSome_map]
    · rw [reflag_file, Option.isSome_map, setUserNonblock_file]
  | setsockopt hookEnable optname v ok =>
    obtain rfl := Option.some.inj he
    rw [setsockopt_file]

end CoroutineRpc.Coroutine.Descriptor

namespace CoroutineRpc.Server.World
open Coroutine

variable {ι κ : Type}

/-- The open descriptors are those of other code and those that the live objects hold, each one
alone, and nothing that was closed is closed again. -/
structure Owned (w : World ι κ) : Prop where
  opened : ∀ c fd, w.held c = some fd → (w.table fd).file.isSome = true
  alone : ∀ c d fd, w.held c = some fd → w.held d = some fd → c = d
  others : ∀ fd, w.foreign fd = true → (w.table fd).file.isSome = true
  apart : ∀ c fd, w.held c = some fd → w.foreign fd = false
  accounted : ∀ fd, (w.table fd).file.isSome = true →
    w.foreign fd = true ∨ ∃ c, w.held c = some fd
  clean : w.badCloses = []

/-- With what the hook layer knows about each number. -/
structure Sound (w : World ι κ) : Prop extends Owned w where
  tracked : ∀ fd, (w.table fd).Tracked

theorem sound_default : Sound ({} : World ι κ) := by
  refine ⟨⟨?_, ?_, ?_, ?_, ?_, rfl⟩, fun _ => Descriptor.tracked_empty⟩
  · intro c fd hc
    cases hc
  · intro c d fd hc
    cases hc
  · intro fd hfd
    cases hfd
  · intro c fd hc
    cases hc
  · intro fd hfd
    cases hfd

/-- Only what is held, the descriptors and the records matter. -/
theorem Sound.congr {w v : World ι κ} (h : Sound w) (hheld : ∀ c, v.held c = w.held c)
    (htable : v.table = w.table) (hforeign : v.foreign = w.foreign)
    (hclean : v.badCloses = w.badCloses) : Sound v := by
  refine ⟨⟨?_, ?_, ?_, ?_, ?_, hclean.trans h.clean⟩, ?_⟩
  · intro c fd hc
    rw [htable]
    exact h.opened c fd ((hheld c).symm.trans hc)
  · intro c d fd hc hd
    exact h.alone c d fd ((hheld c).symm.trans hc) ((hheld d).symm.trans hd)
  · rw [htable, hforeign]
    exact h.others
  · intro c fd hc
    rw [hforeign]
    exact h.apart c fd ((hheld c).symm.trans hc)
  · intro fd hfd
    rw [htable] at hfd
    rw [hforeign]
    rcases h.accounted fd hfd with hother | ⟨c, hc⟩
    · exact Or.inl hother
    · exact Or.inr ⟨c, (hheld c).trans hc⟩
  · rw [htable]
    exact h.tracked

section Steps
variable [DecidableEq κ] {w v : World ι κ} {c : κ} {k : Settable}

private theorem held_put_same (w : World ι κ) (c : κ) (o : Option Socket) :
    (w.put c o).held c = o.bind Socket.sock :=
  congrArg (fun x : Option Socket => x.bind Socket.sock) (Function.update_self ..)

private theorem held_put_other (w : World ι κ) {c d : κ} (o : Option Socket) (h : d ≠ c) :
    (w.put c o).held d = w.held d :=
  congrArg (fun x : Option Socket => x.bind Socket.sock) (Function.update_of_ne h ..)

/-- An object that holds what it held. -/
theorem Sound.put (h : Sound w) {o : Option Socket} (ho : o.bind Socket.sock = w.held c) :
    Sound (w.put c o) := by
  refine h.congr (fun d => ?_) rfl rfl rfl
  rcases eq_or_ne d c with rfl | hne
  · rw [held_put_same, ho]
  · exact held_put_other w o hne

omit [DecidableEq κ] in
theorem perform_some {fd : Nat} {call : LayerCall} (h : w.perform k fd call = some v) :
    ∃ d, (w.table fd).step k call = some d ∧
      v = { w with table := Function.update w.table fd d } := by
  obtain ⟨table, htable, rfl⟩ := Option.map_eq_some_iff.mp h
  obtain ⟨d, hd, rfl⟩ := Transition.indexed_some htable
  exact ⟨d, hd, rfl⟩

/-- A number that was free is opened for an object that held none. -/
theorem Sound.take (h : Sound w) {fd : Nat} {d : Descriptor} {o : Option Socket}
    (hfree : (w.table fd).file = none) (hd : d.Tracked) (hopen : d.file.isSome = true)
    (hc : w.held c = none) (ho : o.bind Socket.sock = some fd) :
    Sound ({ w with table := Function.update w.table fd d }.put c o) := by
  have hself : ({ w with table := Function.update w.table fd d }.put c o).held c = some fd := by
    rw [held_put_same, ho]
  have hother : ∀ e, e ≠ c →
      ({ w with table := Function.update w.table fd d }.put c o).held e = w.held e :=
    fun e he => held_put_other _ o he
  have hnew : ∀ e, w.held e ≠ some fd := by
    intro e he
    have hsome := h.opened e fd he
    rw [hfree] at hsome
    cases hsome
  have hown : w.foreign fd = false := by
    rcases hf : w.foreign fd with _ | _
    · rfl
    · have hsome := h.others fd hf
      rw [hfree] at hsome
      cases hsome
  refine ⟨⟨?_, ?_, ?_, ?_, ?_, h.clean⟩, ?_⟩
  · intro e fd' he
    rcases eq_or_ne fd' fd with rfl | hne
    · exact (congrArg (fun d : Descriptor => d.file.isSome) (Function.update_self ..)).trans hopen
    · have hne' : e ≠ c := by
        rintro rfl
        exact hne (Option.some.inj (he.symm.trans hself))
      refine (congrArg (fun d : Descriptor => d.file.isSome) (Function.update_of_ne hne ..)).trans ?_
      exact h.opened e fd' ((hother e hne').symm.trans he)
  · intro e e' fd' he he'
    rcases eq_or_ne e c with rfl | hne
    · rcases eq_or_ne e' e with rfl | hne'
      · rfl
      · obtain rfl := Option.some.inj (he.symm.trans hself)
        exact absurd ((hother e' hne').symm.trans he') (hnew e')
    · rcases eq_or_ne e' c with rfl | hne'
      · obtain rfl := Option.some.inj (he'.symm.trans hself)
        exact absurd ((hother e hne).symm.trans he) (hnew e)
      · exact h.alone e e' fd' ((hother e hne).symm.trans he) ((hother e' hne').symm.trans he')
  · intro fd' hfd'
    have hne : fd' ≠ fd := by
      rintro rfl
      exact Bool.noConfusion (hown.symm.trans hfd')
    exact (congrArg (fun d : Descriptor => d.file.isSome) (Function.update_of_ne hne ..)).trans
      (h.others fd' hfd')
  · intro e fd' he
    rcases eq_or_ne e c with rfl | hne
    · obtain rfl := Option.some.inj (he.symm.trans hself)
      exact hown
    · exact h.apart e fd' ((hother e hne).symm.trans he)
  · intro fd' hfd'
    rcases eq_or_ne fd' fd with rfl | hne
    · exact Or.inr ⟨c, hself⟩
    · have hold : (w.table fd').file.isSome = true :=
        (congrArg (fun d : Descriptor => d.file.isSome) (Function.update_of_ne hne ..)).symm.trans
          hfd'
      rcases h.accounted fd' hold with hb | ⟨e, he⟩
      · exact Or.inl hb
      · have hne' : e ≠ c := by
          rintro rfl
          rw [hc] at he
          cases he
        exact Or.inr ⟨e, (hother e hne').trans he⟩
  · exact (Transition.forall_update_iff h.tracked fd d).mpr hd

/-- The holder of a number closes it. -/
theorem Sound.release (h : Sound w) {fd : Nat} {d : Descriptor} {o : Option Socket}
    (hd : d.Tracked) (hclosed : d.file = none) (hc : w.held c = some fd)
    (ho : o.bind Socket.sock = none) :
    Sound ({ w with table := Function.update w.table fd d }.put c o) := by
  have hself : ({ w with table := Function.update w.table fd d }.put c o).held c = none := by
    rw [held_put_same, ho]
  have hother : ∀ e, e ≠ c →
      ({ w with table := Function.update w.table fd d }.put c o).held e = w.held e :=
    fun e he => held_put_other _ o he
  have hback : ∀ e fd',
      ({ w with table := Function.update w.table fd d }.put c o).held e = some fd' →
      e ≠ c ∧ w.held e = some fd' := by
    intro e fd' he
    have hne : e ≠ c := by
      rintro rfl
      rw [hself] at he
      cases he
    exact ⟨hne, (hother e hne).symm.trans he⟩
  have hown : w.foreign fd = false := h.apart c fd hc
  refine ⟨⟨?_, ?_, ?_, ?_, ?_, h.clean⟩, ?_⟩
  · intro e fd' he
    obtain ⟨hne, hold⟩ := hback e fd' he
    have hfd : fd' ≠ fd := by
      rintro rfl
      exact hne (h.alone e c fd' hold hc)
    refine (congrArg (fun d : Descriptor => d.file.isSome) (Function.update_of_ne hfd ..)).trans ?_
    exact h.opened e fd' hold
  · intro e e' fd' he he'
    exact h.alone e e' fd' (hback e fd' he).2 (hback e' fd' he').2
  · intro fd' hfd'
    have hne : fd' ≠ fd := by
      rintro rfl
      exact Bool.noConfusion (hown.symm.trans hfd')
    exact (congrArg (fun d : Descriptor => d.file.isSome) (Function.update_of_ne hne ..)).trans
      (h.others fd' hfd')
  · intro e fd' he
    exact h.apart e fd' (hback e fd' he).2
  · intro fd' hfd'
    have hne : fd' ≠ fd := by
      rintro rfl
      have hsome : d.file.isSome = true :=
        (congrArg (fun d : Descriptor => d.file.isSome) (Function.update_self ..)).symm.trans hfd'
      rw [hclosed] at hsome
      cases hsome
    have hold : (w.table fd').file.isSome = true :=
      (congrArg (fun d : Descriptor => d.file.isSome) (Function.update_of_ne hne ..)).symm.trans hfd'
    rcases h.accounted fd' hold with hb | ⟨e, he⟩
    · exact Or.inl hb
    · have hne' : e ≠ c := by
        rintro rfl
        exact hne (Option.some.inj (he.symm.trans hc))
      exact Or.inr ⟨e, (hother e hne').trans he⟩
  · exact (Transition.forall_update_iff h.tracked fd d).mpr hd

/-- `newSock` of an object that holds nothing. -/
theorem Sound.newSock (h : Sound w) {o : Socket} {hookEnable : Bool} {fresh : Option Nat}
    (hc : w.held c = none) (hv : w.newSock k c o hookEnable fresh = some v) :
    Sound v ∧ v.object c = some { o with sock := fresh } ∧
      ∀ d, d ≠ c → v.object d = w.object d := by
  cases fresh with
  | none =>
    obtain rfl := Option.some.inj hv
    exact ⟨h.put hc.symm, Function.update_self .., fun d hd => Function.update_of_ne hd ..⟩
  | some fd =>
    obtain ⟨u, hu, rfl⟩ := Option.map_eq_some_iff.mp hv
    obtain ⟨d, hd, rfl⟩ := perform_some hu
    obtain ⟨hfree, htracked, hopen⟩ := Descriptor.tracked_socket k (h.tracked fd) hd
    exact ⟨h.take hfree htracked hopen hc rfl, Function.update_self ..,
      fun d hd => Function.update_of_ne hd ..⟩

theorem Sound.validate (h : Sound w) {o : Socket} {hookEnable : Bool} {fresh : Option Nat}
    (hc : w.held c = o.sock) (hv : w.validate k c o hookEnable fresh = some v) :
    Sound v ∧ v.object c = some { o with sock := o.sock.or fresh } ∧
      ∀ d, d ≠ c → v.object d = w.object d := by
  unfold World.validate at hv
  split at hv
  · next hsome =>
    obtain rfl := Option.some.inj hv
    obtain ⟨fd, hfd⟩ := Option.isSome_iff_exists.mp hsome
    refine ⟨h.put hc.symm, ?_, fun d hd => Function.update_of_ne hd ..⟩
    have ho : { o with sock := o.sock.or fresh } = o := by
      rw [hfd, Option.some_or, ← hfd]
    rw [ho]
    exact Function.update_self ..
  · next hnone =>
    have hsock : o.sock = none := Option.not_isSome_iff_eq_none.mp hnone
    rw [hsock, Option.none_or]
    exact h.newSock (hc.trans hsock) hv

theorem Sound.close (h : Sound w) {o : Socket} {hookEnable : Bool}
    (hc : w.held c = o.sock) (hv : w.close k c o hookEnable = some v) :
    Sound v ∧ v.held c = none := by
  unfold World.close at hv
  split at hv
  · next hnone =>
    obtain rfl := Option.some.inj hv
    refine ⟨h.put hc.symm, ?_⟩
    rw [held_put_same]
    exact hnone
  · next fd hfd =>
    obtain ⟨u, hu, rfl⟩ := Option.map_eq_some_iff.mp hv
    obtain ⟨u', hu', rfl⟩ := Option.map_eq_some_iff.mp hu
    rw [if_pos (h.opened c fd (hc.trans hfd))]
    obtain ⟨d, hd, rfl⟩ := perform_some hu'
    obtain ⟨htracked, hclosed⟩ := Descriptor.tracked_close k (h.tracked fd) hd
    refine ⟨h.release htracked hclosed (hc.trans hfd) rfl, ?_⟩
    rw [held_put_same]
    rfl

theorem Sound.destroy (h : Sound w) {o : Socket} {hookEnable : Bool}
    (hc : w.held c = o.sock) (hv : w.destroy k c o hookEnable = some v) : Sound v := by
  obtain ⟨u, hu, rfl⟩ := Option.map_eq_some_iff.mp hv
  obtain ⟨hsound, hnone⟩ := h.close hc hu
  exact hsound.put hnone.symm

theorem Sound.bound (h : Sound w) {ok : Bool} {names : Names} :
    Sound (w.bound c ok names) := by
  unfold World.bound
  split
  · next o ho =>
    split
    · refine h.put ?_
      rw [held, ho]
      rfl
    · exact h
  · exact h

/-- A number that `accept` returned ends up with its object, or is closed after a failed
handshake; `Socket::init` does not refuse it. -/
theorem Sound.accepted (h : Sound w) {o : Socket} {hookEnable handshake : Bool}
    {newsock : Option Nat} {names : Names} (hc : w.held c = none)
    (hv : w.accepted k c o hookEnable newsock names handshake = some v) : Sound v := by
  unfold World.accepted at hv
  split at hv
  · obtain rfl := Option.some.inj hv
    exact h
  · next fd =>
    obtain ⟨u, hu, hv⟩ := Option.bind_eq_some_iff.mp hv
    obtain ⟨d, hd, rfl⟩ := perform_some hu
    obtain ⟨hfree, htracked, hopen, hctx⟩ := Descriptor.tracked_accept k (h.tracked fd) hd
    have hfound : ((Function.update w.table fd d) fd).socketCtx.isSome = true := by
      rw [Function.update_self]
      exact hctx
    unfold World.init at hv
    rw [if_pos hfound] at hv
    dsimp only at hv
    have hsound := h.take (o := some (({ o with sock := some fd, isConnected := true }.getLocalAddress
      names).getRemoteAddress names)) hfree htracked hopen hc rfl
    split at hv
    · obtain ⟨o', ho', hv⟩ := Option.bind_eq_some_iff.mp hv
      refine hsound.destroy ?_ hv
      rw [held, ho']
      rfl
    · obtain rfl := Option.some.inj hv
      exact hsound

omit [DecidableEq κ] in
/-- Other code has changed a number that no object holds. -/
theorem Sound.elsewhere (h : Sound w) {fd : Nat} {d : Descriptor} {mine : Bool}
    (hd : d.Tracked) (hopen : d.file.isSome = mine) (hfree : ∀ c, w.held c ≠ some fd) :
    Sound { w with
      table := Function.update w.table fd d, foreign := Function.update w.foreign fd mine } := by
  refine ⟨⟨?_, h.alone, ?_, ?_, ?_, h.clean⟩, ?_⟩
  · intro c fd' hc
    have hne : fd' ≠ fd := by
      rintro rfl
      exact hfree c hc
    exact (congrArg (fun d : Descriptor => d.file.isSome) (Function.update_of_ne hne ..)).trans
      (h.opened c fd' hc)
  · intro fd' hfd'
    dsimp only at hfd' ⊢
    rcases eq_or_ne fd' fd with rfl | hne
    · rw [Function.update_self] at hfd' ⊢
      exact hopen.trans hfd'
    · rw [Function.update_of_ne hne] at hfd' ⊢
      exact h.others fd' hfd'
  · intro c fd' hc
    have hne : fd' ≠ fd := by
      rintro rfl
      exact hfree c hc
    exact (Function.update_of_ne hne ..).trans (h.apart c fd' hc)
  · intro fd' hfd'
    dsimp only at hfd' ⊢
    rcases eq_or_ne fd' fd with rfl | hne
    · rw [Function.update_self] at hfd' ⊢
      exact Or.inl (hopen.symm.trans hfd')
    · rw [Function.update_of_ne hne] at hfd' ⊢
      exact h.accounted fd' hfd'
  · exact (Transition.forall_update_iff h.tracked fd d).mpr hd

omit [DecidableEq κ] in
/-- Other code has changed what is known about a number, and it is open as before. -/
theorem Sound.touch (h : Sound w) {fd : Nat} {d : Descriptor} (hd : d.Tracked)
    (hopen : d.file.isSome = (w.table fd).file.isSome) :
    Sound { w with table := Function.update w.table fd d } := by
  have hsame : ∀ fd', ((Function.update w.table fd d) fd').file.isSome = (w.table fd').file.isSome := by
    intro fd'
    rcases eq_or_ne fd' fd with rfl | hne
    · rw [Function.update_self]
      exact hopen
    · rw [Function.update_of_ne hne]
  refine ⟨⟨?_, h.alone, ?_, h.apart, ?_, h.clean⟩, ?_⟩
  · exact fun c fd' hc => (hsame fd').trans (h.opened c fd' hc)
  · exact fun fd' hfd' => (hsame fd').trans (h.others fd' hfd')
  · exact fun fd' hfd' => h.accounted fd' ((hsame fd').symm.trans hfd')
  · exact (Transition.forall_update_iff h.tracked fd d).mpr hd

omit [DecidableEq κ] in
theorem Sound.other (h : Sound w) {fd : Nat} {call : LayerCall}
    (hv : w.other k fd call = some v) : Sound v := by
  have hunheld : (w.table fd).file = none → ∀ c, w.held c ≠ some fd := by
    intro hnone c hc
    have hsome := h.opened c fd hc
    rw [hnone] at hsome
    cases hsome
  unfold World.other at hv
  split at hv
  · split at hv
    · next hmine =>
      obtain ⟨u, hu, rfl⟩ := Option.map_eq_some_iff.mp hv
      obtain ⟨d, hd, rfl⟩ := perform_some hu
      obtain ⟨htracked, hclosed⟩ := Descriptor.tracked_close k (h.tracked fd) hd
      refine h.elsewhere htracked (by rw [hclosed]; rfl) (fun c hc => ?_)
      exact Bool.noConfusion ((h.apart c fd hc).symm.trans hmine)
    · cases hv
  · obtain ⟨u, hu, rfl⟩ := Option.map_eq_some_iff.mp hv
    obtain ⟨d, hd, rfl⟩ := perform_some hu
    obtain ⟨hfree, htracked, hopen⟩ := Descriptor.tracked_socket k (h.tracked fd) hd
    exact h.elsewhere htracked hopen (hunheld hfree)
  · obtain ⟨u, hu, rfl⟩ := Option.map_eq_some_iff.mp hv
    obtain ⟨d, hd, rfl⟩ := perform_some hu
    obtain ⟨hfree, htracked, hopen, -⟩ := Descriptor.tracked_accept k (h.tracked fd) hd
    exact h.elsewhere htracked hopen (hunheld hfree)
  · next hclose hsocket haccept =>
    obtain ⟨d, hd, rfl⟩ := perform_some hv
    refine h.touch (Descriptor.tracked_step k (h.tracked fd) hd) ?_
    exact Descriptor.file_kept k hd hclose hsocket haccept

variable [DecidableEq ι]

omit [DecidableEq κ] in
theorem Sound.setWaiting (h : Sound w) (i : ι) (x : Option (Waiting κ)) :
    Sound (w.setWaiting i x) := h.congr (fun _ => rfl) rfl rfl rfl

theorem Sound.connect (h : Sound w) {i : ι} {o : Socket} {addr : SockAddr} {hookEnable : Bool}
    {fresh : Option Nat} (hc : w.held c = o.sock)
    (hv : w.connect k i c o addr hookEnable fresh = some v) : Sound v := by
  obtain ⟨u, hu, rfl⟩ := Option.map_eq_some_iff.mp hv
  have hsound := (h.validate (o := { o with remoteAddress := some addr }) hc hu).1
  split
  · exact hsound.setWaiting i _
  · exact hsound

theorem Sound.bind (h : Sound w) {i : ι} {addr : SockAddr} {hookEnable ok : Bool}
    {fresh tmpFresh : Option Nat} {tmp : κ} {names : Names}
    (hv : w.bind k i c addr hookEnable fresh tmp tmpFresh ok names = some v) : Sound v := by
  obtain ⟨o, ho, hv⟩ := Option.bind_eq_some_iff.mp hv
  obtain ⟨u, hu, hv⟩ := Option.bind_eq_some_iff.mp hv
  have hc : w.held c = o.sock := by
    rw [held, ho]
    rfl
  have hsound := (h.validate hc hu).1
  split at hv
  · obtain rfl := Option.some.inj hv
    exact hsound
  · split at hv
    · split at hv
      · cases hv
      · next htmp =>
        split at hv
        · obtain rfl := Option.some.inj hv
          exact hsound.bound
        · obtain ⟨u', hu', rfl⟩ := Option.map_eq_some_iff.mp hv
          have hnone : u.held tmp = none := by
            rw [held, Option.not_isSome_iff_eq_none.mp htmp]
            rfl
          exact (hsound.newSock hnone hu').1.setWaiting i _
    · obtain rfl := Option.some.inj hv
      exact hsound.bound

omit [DecidableEq κ] [DecidableEq ι] in
private theorem held_of_object {o : Socket} (h : w.object c = some o) :
    w.held c = o.sock := by
  rw [held, h]
  rfl

theorem step_sound {a : SocketAction ι κ} (h : Sound w) (hstep : step k w a = some v) :
    Sound v := by
  cases a with
  | create c family type ssl =>
    dsimp only [step] at hstep
    split at hstep
    · cases hstep
    · next hnone =>
      obtain rfl := Option.some.inj hstep
      refine h.put ?_
      rw [held, Option.not_isSome_iff_eq_none.mp hnone]
      rfl
  | createUDP c family hookEnable fresh =>
    dsimp only [step] at hstep
    split at hstep
    · cases hstep
    · next hnone =>
      have hc : w.held c = none := by
        rw [held, Option.not_isSome_iff_eq_none.mp hnone]
        rfl
      exact (h.newSock hc hstep).1
  | bind i c addr hookEnable fresh tmp tmpFresh ok names =>
    dsimp only [step] at hstep
    split at hstep
    · cases hstep
    · exact h.bind hstep
  | probed i hookEnable answered ok names =>
    dsimp only [step] at hstep
    split at hstep
    · next c tmp _ =>
      obtain ⟨o, ho, hstep⟩ := Option.bind_eq_some_iff.mp hstep
      obtain ⟨u, hu, rfl⟩ := Option.map_eq_some_iff.mp hstep
      have hsound := (h.setWaiting i none).destroy (held_of_object ho) hu
      split
      · exact hsound
      · exact hsound.bound
    · cases hstep
  | connect i c addr hookEnable fresh =>
    dsimp only [step] at hstep
    split at hstep
    · cases hstep
    · obtain ⟨o, ho, hstep⟩ := Option.bind_eq_some_iff.mp hstep
      exact h.connect (held_of_object ho) hstep
  | reconnect i c hookEnable fresh =>
    dsimp only [step] at hstep
    split at hstep
    · cases hstep
    · obtain ⟨o, ho, hstep⟩ := Option.bind_eq_some_iff.mp hstep
      split at hstep
      · obtain rfl := Option.some.inj hstep
        exact h
      · have hheld : w.held c = o.sock := held_of_object ho
        exact h.connect (o := { o with localAddress := none }) hheld hstep
  | connected i hookEnable ok names =>
    dsimp only [step] at hstep
    split at hstep
    · next c _ =>
      obtain ⟨o, ho, hstep⟩ := Option.bind_eq_some_iff.mp hstep
      split at hstep
      · obtain rfl := Option.some.inj hstep
        exact (h.setWaiting i none).put (held_of_object ho).symm
      · exact ((h.setWaiting i none).close (held_of_object ho) hstep).1
    · cases hstep
  | accept i c =>
    dsimp only [step] at hstep
    split at hstep
    · cases hstep
    · obtain ⟨o, -, rfl⟩ := Option.map_eq_some_iff.mp hstep
      exact h.setWaiting i _
  | accepted i client hookEnable newsock names handshake =>
    dsimp only [step] at hstep
    split at hstep
    · split at hstep
      · cases hstep
      · next hnone =>
        refine (h.setWaiting i none).accepted ?_ hstep
        exact congrArg (fun x : Option Socket => x.bind Socket.sock)
          (Option.not_isSome_iff_eq_none.mp hnone)
    · cases hstep
  | close c hookEnable =>
    obtain ⟨o, ho, hstep⟩ := Option.bind_eq_some_iff.mp hstep
    exact (h.close (held_of_object ho) hstep).1
  | destroy c hookEnable =>
    obtain ⟨o, ho, hstep⟩ := Option.bind_eq_some_iff.mp hstep
    exact h.destroy (held_of_object ho) hstep
  | other fd call => exact h.other hstep

/-- However the fibers use the sockets, whatever the kernel answers and whatever other code opens and
closes, every descriptor has its one holder. What a fiber does between two suspensions is one step,
on one thread. -/
theorem always_owned (k : Settable) (as : List (SocketAction ι κ)) :
    Transition.Always (step k) Owned ({} : World ι κ) as :=
  (Transition.always_of_step (fun _ _ _ h hstep => step_sound h hstep) sound_default as).mono
    (fun _ h => h.toOwned)

end Steps
end CoroutineRpc.Server.World
