import CoroutineRpc.Server.Ownership
import CoroutineRpc.Server.TcpServer

/-! What the loop of `bind` does to the objects: the sockets it appends are new and hold a number
each, those of the addresses that failed are gone, and all others are as before. -/
namespace CoroutineRpc.Server.World
open Coroutine

variable {ι κ : Type}

/-- Nothing happened to the objects but to one, and nothing to what other code has open. -/
structure OnlyAt (c : κ) (w v : World ι κ) : Prop where
  object : ∀ d, d ≠ c → v.object d = w.object d
  foreign : v.foreign = w.foreign
  waiting : v.waiting = w.waiting

theorem OnlyAt.refl (c : κ) (w : World ι κ) : OnlyAt c w w := ⟨fun _ _ => rfl, rfl, rfl⟩

theorem OnlyAt.trans {c : κ} {u v w : World ι κ} (h : OnlyAt c u v) (h' : OnlyAt c v w) :
    OnlyAt c u w :=
  ⟨fun d hd => (h'.object d hd).trans (h.object d hd), h'.foreign.trans h.foreign,
    h'.waiting.trans h.waiting⟩

theorem OnlyAt.held {c : κ} {w v : World ι κ} (h : OnlyAt c w v) {d : κ} (hd : d ≠ c) :
    v.held d = w.held d :=
  congrArg (fun x : Option Socket => x.bind Socket.sock) (h.object d hd)

section Frames
variable [DecidableEq κ] {w v : World ι κ} {c : κ} {o : Socket} {k : Settable}
  {hookEnable : Bool} {fresh : Option Nat}

private theorem onlyAt_put (w : World ι κ) (c : κ) (x : Option Socket) : OnlyAt c w (w.put c x) :=
  ⟨fun _ hd => Function.update_of_ne hd .., rfl, rfl⟩

private theorem object_put (w : World ι κ) (c : κ) (x : Socket) :
    ((w.put c (some x)).object c).isSome = true := by
  simp only [put, Function.update_self, Option.isSome_some]

private theorem onlyAt_newSock (h : w.newSock k c o hookEnable fresh = some v) : OnlyAt c w v := by
  cases fresh with
  | none =>
    obtain rfl := Option.some.inj h
    exact onlyAt_put w c _
  | some fd =>
    obtain ⟨u, hu, rfl⟩ := Option.map_eq_some_iff.mp h
    obtain ⟨d, -, rfl⟩ := perform_some hu
    exact ⟨fun _ hd => Function.update_of_ne hd .., rfl, rfl⟩

private theorem onlyAt_validate (h : w.validate k c o hookEnable fresh = some v) :
    OnlyAt c w v := by
  unfold validate at h
  split at h
  · obtain rfl := Option.some.inj h
    exact onlyAt_put w c _
  · exact onlyAt_newSock h

theorem onlyAt_close (h : w.close k c o hookEnable = some v) : OnlyAt c w v := by
  unfold close at h
  split at h
  · obtain rfl := Option.some.inj h
    exact onlyAt_put w c _
  · obtain ⟨u, hu, rfl⟩ := Option.map_eq_some_iff.mp h
    obtain ⟨u', hu', rfl⟩ := Option.map_eq_some_iff.mp hu
    obtain ⟨d, -, rfl⟩ := perform_some hu'
    split
    · exact ⟨fun _ hd => Function.update_of_ne hd .., rfl, rfl⟩
    · exact ⟨fun _ hd => Function.update_of_ne hd .., rfl, rfl⟩

theorem close_object (h : w.close k c o hookEnable = some v) : (v.object c).isSome = true := by
  unfold close at h
  split at h
  · obtain rfl := Option.some.inj h
    exact object_put w c _
  · obtain ⟨u, -, rfl⟩ := Option.map_eq_some_iff.mp h
    exact object_put u c _

private theorem onlyAt_destroy (h : w.destroy k c o hookEnable = some v) :
    OnlyAt c w v ∧ v.object c = none := by
  obtain ⟨u, hu, rfl⟩ := Option.map_eq_some_iff.mp h
  exact ⟨(onlyAt_close hu).trans (onlyAt_put u c none), Function.update_self ..⟩

private theorem onlyAt_bound (w : World ι κ) (c : κ) (ok : Bool) (names : Names) :
    OnlyAt c w (w.bound c ok names) := by
  unfold bound
  split
  · split
    · exact onlyAt_put w c _
    · exact OnlyAt.refl c w
  · exact OnlyAt.refl c w

theorem onlyAt_accepted {newsock : Option Nat} {names : Names} {handshake : Bool}
    (h : w.accepted k c o hookEnable newsock names handshake = some v) : OnlyAt c w v := by
  unfold accepted at h
  split at h
  · obtain rfl := Option.some.inj h
    exact OnlyAt.refl c w
  · obtain ⟨u, hu, h⟩ := Option.bind_eq_some_iff.mp h
    obtain ⟨d, -, rfl⟩ := perform_some hu
    split at h
    · obtain rfl := Option.some.inj h
      exact ⟨fun _ _ => rfl, rfl, rfl⟩
    · next u' hinit =>
      have hat : OnlyAt c w u' := by
        unfold init at hinit
        split at hinit
        · obtain rfl := Option.some.inj hinit
          exact ⟨fun _ hd => Function.update_of_ne hd .., rfl, rfl⟩
        · cases hinit
      split at h
      · obtain ⟨o', -, h⟩ := Option.bind_eq_some_iff.mp h
        exact hat.trans (onlyAt_destroy h).1
      · obtain rfl := Option.some.inj h
        exact hat

private theorem validate_object (h : w.validate k c o hookEnable fresh = some v) :
    (v.object c).isSome = true := by
  unfold validate at h
  split at h
  · obtain rfl := Option.some.inj h
    exact object_put w c _
  · cases fresh with
    | none =>
      obtain rfl := Option.some.inj h
      exact object_put w c _
    | some fd =>
      obtain ⟨u, -, rfl⟩ := Option.map_eq_some_iff.mp h
      exact object_put u c _

omit [DecidableEq κ] in
private theorem setWaiting_same [DecidableEq ι] (w : World ι κ) (i : ι) (x : Option (Waiting κ)) :
    (w.setWaiting i x).waiting i = x := by
  simp only [setWaiting, Function.update_self]

/-- `bind` ends at once, or waits with a temporary object that did not exist before. -/
theorem bind_some [DecidableEq ι] {i : ι} {addr : SockAddr} {tmp : κ} {tmpFresh : Option Nat}
    {ok : Bool} {names : Names}
    (h : w.bind k i c addr hookEnable fresh tmp tmpFresh ok names = some v) :
    OnlyAt c w v ∨ ∃ u u', OnlyAt c w u ∧ tmp ≠ c ∧ u.object tmp = none ∧ OnlyAt tmp u u' ∧
      v = u'.setWaiting i (some (.probing c tmp)) := by
  obtain ⟨o, -, h⟩ := Option.bind_eq_some_iff.mp h
  obtain ⟨u, hu, h⟩ := Option.bind_eq_some_iff.mp h
  have hat := onlyAt_validate hu
  split at h
  · obtain rfl := Option.some.inj h
    exact Or.inl hat
  · split at h
    · split at h
      · cases h
      · next htmp =>
        split at h
        · obtain rfl := Option.some.inj h
          exact Or.inl (hat.trans (onlyAt_bound u c ok names))
        · obtain ⟨u', hu', rfl⟩ := Option.map_eq_some_iff.mp h
          have hne : tmp ≠ c := by
            rintro rfl
            exact htmp (validate_object hu)
          exact Or.inr ⟨u, u', hat, hne, Option.not_isSome_iff_eq_none.mp htmp, onlyAt_newSock hu',
            rfl⟩
    · obtain rfl := Option.some.inj h
      exact Or.inl (hat.trans (onlyAt_bound u c ok names))

omit [DecidableEq κ] in
/-- Other code has no access to the objects. -/
theorem other_object {fd : Nat} {call : LayerCall} (h : w.other k fd call = some v) :
    v.object = w.object := by
  unfold other at h
  split at h
  · split at h
    · obtain ⟨u, hu, rfl⟩ := Option.map_eq_some_iff.mp h
      obtain ⟨d, -, rfl⟩ := perform_some hu
      rfl
    · cases h
  · obtain ⟨u, hu, rfl⟩ := Option.map_eq_some_iff.mp h
    obtain ⟨d, -, rfl⟩ := perform_some hu
    rfl
  · obtain ⟨u, hu, rfl⟩ := Option.map_eq_some_iff.mp h
    obtain ⟨d, -, rfl⟩ := perform_some hu
    rfl
  · obtain ⟨d, -, rfl⟩ := perform_some h
    rfl

end Frames

section Tries
variable [DecidableEq κ] {k : Settable} {w v : World Unit κ} {ssl hookEnable : Bool}

theorem destroy_some {c : κ} (hs : Sound w) (h : w.step k (.destroy c hookEnable) = some v) :
    Sound v ∧ OnlyAt c w v ∧ v.object c = none := by
  refine ⟨step_sound hs h, ?_⟩
  obtain ⟨o, -, h⟩ := Option.bind_eq_some_iff.mp h
  exact onlyAt_destroy h

/-- The temporary object with which `bind` tries a Unix path is gone behind it. -/
theorem tryBind_some {t : BindTry κ} {ok : Bool} (hs : Sound w)
    (h : w.tryBind k ssl hookEnable t = some (v, ok)) :
    Sound v ∧ OnlyAt t.sock w v ∧ w.object t.sock = none ∧
      (ok = true → ∃ fd, v.held t.sock = some fd) := by
  obtain ⟨w₁, h₁, h⟩ := Option.bind_eq_some_iff.mp h
  obtain ⟨w₂, h₂, h⟩ := Option.bind_eq_some_iff.mp h
  obtain ⟨w₃, h₃, h⟩ := Option.map_eq_some_iff.mp h
  obtain ⟨rfl, hok⟩ := Prod.mk.inj h
  have hs₁ := step_sound hs h₁
  have hs₂ := step_sound hs₁ h₂
  dsimp only [step] at h₁
  split at h₁
  · cases h₁
  next hfree =>
  obtain rfl := Option.some.inj h₁
  have hat₁ := onlyAt_put w t.sock (some { family := t.addr.family, type := .tcp, ssl := ssl })
  dsimp only [step] at h₂
  split at h₂
  · cases h₂
  next hidle =>
  have hheld : ok = true → ∃ fd, w₃.held t.sock = some fd := by
    intro htrue
    rw [htrue, Bool.and_eq_true, Bool.and_eq_true] at hok
    exact Option.isSome_iff_exists.mp hok.1.2
  refine ⟨?_, ?_, Option.not_isSome_iff_eq_none.mp hfree, hheld⟩
  · split at h₃
    · exact step_sound hs₂ h₃
    · obtain rfl := Option.some.inj h₃
      exact hs₂
  rcases bind_some h₂ with hat₂ | ⟨u, u', hat₂, hne, hnone, htmp, rfl⟩
  · have hnow : (w₂.waiting ()).isSome ≠ true := by
      rw [hat₂.waiting]
      exact hidle
    rw [if_neg hnow] at h₃
    obtain rfl := Option.some.inj h₃
    exact hat₁.trans hat₂
  · have hwait : (u'.setWaiting () (some (.probing t.sock t.tmp))).waiting () =
        some (.probing t.sock t.tmp) := setWaiting_same u' () _
    rw [if_pos (by rw [hwait]; rfl)] at h₃
    dsimp only [step] at h₃
    rw [hwait] at h₃
    obtain ⟨o, -, h₃⟩ := Option.bind_eq_some_iff.mp h₃
    obtain ⟨u₃, hu₃, rfl⟩ := Option.map_eq_some_iff.mp h₃
    obtain ⟨hat₃, hgone⟩ := onlyAt_destroy hu₃
    have hback : OnlyAt t.sock u u₃ := by
      refine ⟨fun d hd => ?_, hat₃.foreign.trans htmp.foreign, ?_⟩
      · rcases eq_or_ne d t.tmp with rfl | hd'
        · rw [hgone, hnone]
        · exact (hat₃.object d hd').trans (htmp.object d hd')
      · funext i
        rw [hat₃.waiting]
        have hquiet : u.waiting () = none := by
          rw [hat₂.waiting]
          exact Option.not_isSome_iff_eq_none.mp hidle
        cases i
        exact (setWaiting_same _ () none).trans hquiet.symm
    have hat := (hat₁.trans hat₂).trans hback
    split
    · exact hat
    · exact hat.trans (onlyAt_bound u₃ t.sock t.bindOk t.names)

/-- What is appended is new and holds a number; what failed is gone. -/
structure Appended (w v : World Unit κ) (socks : List κ) : Prop where
  fresh : ∀ c ∈ socks, w.object c = none
  holds : ∀ c ∈ socks, ∃ fd, v.held c = some fd
  object : ∀ d, d ∉ socks → v.object d = w.object d
  foreign : v.foreign = w.foreign
  nodup : socks.Nodup

theorem bindAll_some {ts : List (BindTry κ)} {socks : List κ} {fails : List SockAddr} (hs : Sound w)
    (h : w.bindAll k ssl hookEnable ts = some (v, socks, fails)) :
    Sound v ∧ Appended w v socks ∧ socks.Sublist (ts.map BindTry.sock) ∧
      fails.Sublist (ts.map BindTry.addr) ∧ socks.length + fails.length = ts.length := by
  induction ts generalizing w socks fails with
  | nil =>
    obtain ⟨rfl, hrest⟩ := Prod.mk.inj (Option.some.inj h)
    obtain ⟨rfl, rfl⟩ := Prod.mk.inj hrest
    exact ⟨hs, ⟨by simp, by simp, fun _ _ => rfl, rfl, List.nodup_nil⟩, .slnil, .slnil, rfl⟩
  | cons t ts ih =>
    obtain ⟨⟨u, ok⟩, hu, h⟩ := Option.bind_eq_some_iff.mp h
    obtain ⟨hsu, hat, hfree, hheld⟩ := tryBind_some hs hu
    cases ok with
    | true =>
      obtain ⟨⟨v', socks', fails'⟩, hv', heq⟩ := Option.map_eq_some_iff.mp h
      obtain ⟨rfl, hrest⟩ := Prod.mk.inj heq
      obtain ⟨rfl, rfl⟩ := Prod.mk.inj hrest
      obtain ⟨hsv, happ, hsocks, hfails, hlength⟩ := ih hsu hv'
      obtain ⟨fd, hfd⟩ := hheld rfl
      have hnew : t.sock ∉ socks' := by
        intro hmem
        have hnone := happ.fresh t.sock hmem
        rw [held, hnone] at hfd
        cases hfd
      refine ⟨hsv, ⟨?_, ?_, ?_, ?_, ?_⟩, hsocks.cons_cons _, hfails.cons _, ?_⟩
      · intro c hc
        rcases List.mem_cons.mp hc with rfl | hc
        · exact hfree
        · have hne : c ≠ t.sock := by
            rintro rfl
            exact hnew hc
          exact (hat.object c hne).symm.trans (happ.fresh c hc)
      · intro c hc
        rcases List.mem_cons.mp hc with rfl | hc
        · refine ⟨fd, ?_⟩
          rw [held, happ.object _ hnew]
          exact hfd
        · exact happ.holds c hc
      · intro d hd
        rw [List.mem_cons, not_or] at hd
        obtain ⟨hne, hd⟩ := hd
        exact (happ.object d hd).trans (hat.object d hne)
      · exact happ.foreign.trans hat.foreign
      · exact List.nodup_cons.mpr ⟨hnew, happ.nodup⟩
      · simp only [List.length_cons]
        omega
    | false =>
      obtain ⟨u', hu', h⟩ := Option.bind_eq_some_iff.mp h
      obtain ⟨hsu', hat', hgone⟩ := destroy_some hsu hu'
      obtain ⟨⟨v', socks', fails'⟩, hv', heq⟩ := Option.map_eq_some_iff.mp h
      obtain ⟨rfl, hrest⟩ := Prod.mk.inj heq
      obtain ⟨rfl, rfl⟩ := Prod.mk.inj hrest
      obtain ⟨hsv, happ, hsocks, hfails, hlength⟩ := ih hsu' hv'
      have hsame : ∀ d, u'.object d = w.object d := by
        intro d
        rcases eq_or_ne d t.sock with rfl | hne
        · rw [hgone, hfree]
        · exact ((hat.trans hat').object d hne)
      refine ⟨hsv, ⟨?_, happ.holds, ?_, ?_, happ.nodup⟩, hsocks.cons _, hfails.cons_cons _, ?_⟩
      · intro c hc
        exact (hsame c).symm.trans (happ.fresh c hc)
      · intro d hd
        exact (happ.object d hd).trans (hsame d)
      · exact happ.foreign.trans (hat.trans hat').foreign
      · simp only [List.length_cons]
        omega

end Tries
end CoroutineRpc.Server.World
