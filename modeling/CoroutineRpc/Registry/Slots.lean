import CoroutineRpc.Library.Transition
import CoroutineRpc.Registry.Handlers

/-! Who works in a slot. A descriptor stays open as long as its handler runs, so the kernel gives
its number to nobody else, and the slot of the number belongs to one handler at a time. -/
namespace CoroutineRpc.Registry
open Rpc

/-- The slot of a handler that runs, and the socket that it waits for. -/
def Handling.place {κ : Type} : Handling κ → Option (Nat × Option κ)
  | .receiving slot socket => some (slot, socket)
  | .sending slot socket _ => some (slot, socket)
  | _ => none

namespace Handlers
variable {κ ι : Type}

/-- No two handlers work in one slot, and each waits for its own socket, which is the `m_client`
of its slot and open under the slot's number. -/
structure Exclusive (s : Handlers κ ι) : Prop where
  alone : ∀ c d slot x y, (s.handling c).place = some (slot, x) →
    (s.handling d).place = some (slot, y) → c = d
  own : ∀ c slot x, (s.handling c).place = some (slot, x) →
    x = some c ∧ s.client slot = some c ∧ s.sock c = some slot

/-- What the steps rely on: sockets have numbers of their own, and one whose handler has not
started or has ended is in no slot. -/
structure Sound (s : Handlers κ ι) : Prop where
  opened : ∀ c fd, s.sock c = some fd → fd ∈ s.opened
  distinct : ∀ c d fd, s.sock c = some fd → s.sock d = some fd → c = d
  unborn : ∀ c, s.handling c = .unborn → s.sock c = none
  ended : ∀ c, s.handling c = .ended → s.sock c = none
  own : ∀ c slot x, (s.handling c).place = some (slot, x) →
    x = some c ∧ s.client slot = some c ∧ s.sock c = some slot

theorem Sound.exclusive {s : Handlers κ ι} (h : Sound s) : Exclusive s := by
  refine ⟨fun c d slot x y hc hd => ?_, h.own⟩
  exact h.distinct c d slot (h.own c slot x hc).2.2 (h.own d slot y hd).2.2

theorem sound_default : Sound ({} : Handlers κ ι) := by
  refine ⟨?_, ?_, fun _ _ => rfl, fun _ _ => rfl, ?_⟩
  · intro c fd hc
    cases hc
  · intro c d fd hc
    cases hc
  · intro c slot x hc
    cases hc

/-- Only the sockets, the members `m_client` and the handlers matter. -/
theorem Sound.congr {s t : Handlers κ ι} (h : Sound s) (hopened : t.opened = s.opened)
    (hsock : t.sock = s.sock) (hclient : t.client = s.client) (hhandling : t.handling = s.handling) :
    Sound t := by
  constructor
  · rw [hsock, hopened]
    exact h.opened
  · rw [hsock]
    exact h.distinct
  · rw [hsock, hhandling]
    exact h.unborn
  · rw [hsock, hhandling]
    exact h.ended
  · rw [hsock, hclient, hhandling]
    exact h.own

section Steps
variable [DecidableEq κ] {s : Handlers κ ι} {c : κ}

omit [DecidableEq κ] in
theorem Sound.setUser (h : Sound s) (slot : Nat) (conn : RpcConn) : Sound (s.setUser slot conn) :=
  h.congr rfl rfl rfl rfl

private theorem close_same (s : Handlers κ ι) (c : κ) : (s.close c).sock c = none := by
  unfold close
  split
  · assumption
  · exact Function.update_self _ _ _

private theorem close_other (s : Handlers κ ι) {c d : κ} (h : d ≠ c) :
    (s.close c).sock d = s.sock d := by
  unfold close
  split
  · rfl
  · exact Function.update_of_ne h _ _

theorem close_frame (s : Handlers κ ι) (c : κ) :
    (s.close c).client = s.client ∧ (s.close c).handling = s.handling := by
  unfold close
  split
  · exact ⟨rfl, rfl⟩
  · exact ⟨rfl, rfl⟩

private theorem close_opened (h : Sound s) (c : κ) {d : κ} {fd : Nat}
    (hd : (s.close c).sock d = some fd) : fd ∈ (s.close c).opened := by
  have hne : d ≠ c := by
    rintro rfl
    rw [close_same] at hd
    cases hd
  rw [close_other s hne] at hd
  unfold close
  split
  · exact h.opened d fd hd
  · next fd' hc =>
    refine Finset.mem_erase.mpr ⟨?_, h.opened d fd hd⟩
    rintro rfl
    exact hne (h.distinct d c fd hd hc)

/-- A handler that is set to another place. -/
theorem setHandling_same (s : Handlers κ ι) (c : κ) (p : Handling κ) :
    (s.setHandling c p).handling c = p := Function.update_self _ _ _

theorem setHandling_other (s : Handlers κ ι) {c d : κ} (p : Handling κ) (h : d ≠ c) :
    (s.setHandling c p).handling d = s.handling d := Function.update_of_ne h _ _

theorem Sound.finish (h : Sound s) (c : κ) : Sound (s.finish c) := by
  obtain ⟨hclient, hhandling⟩ := close_frame s c
  have hsock : ∀ d, d ≠ c → (s.finish c).sock d = s.sock d := fun d hd => close_other s hd
  have hplace : ∀ d, d ≠ c → (s.finish c).handling d = s.handling d := fun d hd =>
    (setHandling_other _ _ hd).trans (congrFun hhandling d)
  have hself : (s.finish c).handling c = .ended := setHandling_same _ _ _
  constructor
  · exact fun d fd hd => close_opened h c hd
  · intro d e fd hd he
    have hd' : d ≠ c := by
      rintro rfl
      exact Option.some_ne_none fd (hd.symm.trans (close_same s d))
    have he' : e ≠ c := by
      rintro rfl
      exact Option.some_ne_none fd (he.symm.trans (close_same s e))
    exact h.distinct d e fd ((hsock d hd').symm.trans hd) ((hsock e he').symm.trans he)
  · intro d hd
    rcases eq_or_ne d c with rfl | hne
    · exact close_same s d
    · rw [hsock d hne]
      exact h.unborn d ((hplace d hne).symm.trans hd)
  · intro d hd
    rcases eq_or_ne d c with rfl | hne
    · exact close_same s d
    · rw [hsock d hne]
      exact h.ended d ((hplace d hne).symm.trans hd)
  · intro d slot x hd
    have hne : d ≠ c := by
      rintro rfl
      rw [hself] at hd
      cases hd
    rw [hplace d hne] at hd
    obtain ⟨hx, hslot, hfd⟩ := h.own d slot x hd
    exact ⟨hx, (congrFun hclient slot).trans hslot, (hsock d hne).trans hfd⟩

/-- A handler goes on in the slot that is its own. -/
theorem Sound.place (h : Sound s) {p : Handling κ} {slot : Nat}
    (hp : p.place = some (slot, s.client slot)) (hsock : s.sock c = some slot)
    (hclient : s.client slot = some c) : Sound (s.setHandling c p) := by
  constructor
  · exact h.opened
  · exact h.distinct
  · intro d hd
    rcases eq_or_ne d c with rfl | hne
    · rw [setHandling_same] at hd
      rw [hd] at hp
      cases hp
    · exact h.unborn d ((setHandling_other s p hne).symm.trans hd)
  · intro d hd
    rcases eq_or_ne d c with rfl | hne
    · rw [setHandling_same] at hd
      rw [hd] at hp
      cases hp
    · exact h.ended d ((setHandling_other s p hne).symm.trans hd)
  · intro d slot' x hd
    rcases eq_or_ne d c with rfl | hne
    · rw [setHandling_same, hp] at hd
      cases hd
      exact ⟨hclient, hclient, hsock⟩
    · rw [setHandling_other s p hne] at hd
      exact h.own d slot' x hd

theorem Sound.again (h : Sound s) {slot : Nat} (hsock : s.sock c = some slot)
    (hclient : s.client slot = some c) : Sound (s.again c slot) := by
  unfold Handlers.again
  split
  · exact h.place rfl hsock hclient
  · exact h.finish c

/-- The connection that a slot served before has been closed by its handler. -/
theorem release_eq (h : Sound s) (slot : Nat) : s.release slot = s := by
  unfold release
  split
  · rfl
  · next d _ =>
    split
    · next hended =>
      unfold close
      rw [h.ended d hended]
    · rfl

/-- A handler that starts takes the slot of its descriptor. -/
theorem Sound.init (h : Sound s) {slot : Nat} (hsock : s.sock c = some slot)
    (hplace : (s.handling c).place = none) : Sound (s.init slot c) := by
  unfold Handlers.init
  rw [release_eq h]
  constructor
  · exact h.opened
  · exact h.distinct
  · exact h.unborn
  · exact h.ended
  · intro d slot' x hd
    obtain ⟨hx, hclient, hfd⟩ := h.own d slot' x hd
    have hne : slot' ≠ slot := by
      rintro rfl
      obtain rfl := h.distinct d c slot' hfd hsock
      exact Option.some_ne_none _ (hd.symm.trans hplace)
    exact ⟨hx, (Function.update_of_ne hne _ _).trans hclient, hfd⟩

theorem Sound.accept (h : Sound s) {fd : Nat} (hc : s.handling c = .unborn) (hfd : fd ∉ s.opened) :
    Sound { s.setHandling c .scheduled with
      sock := Function.update s.sock c (some fd), opened := insert fd s.opened } := by
  have hnew : ∀ d, s.sock d ≠ some fd := fun d hd => hfd (h.opened d fd hd)
  have hother : ∀ d, d ≠ c → Function.update s.sock c (some fd) d = s.sock d :=
    fun d hne => Function.update_of_ne hne _ _
  have hself : Function.update s.sock c (some fd) c = some fd := Function.update_self _ _ _
  constructor
  · intro d fd' hd
    dsimp only at hd
    rcases eq_or_ne d c with rfl | hne
    · rw [hself] at hd
      cases hd
      exact Finset.mem_insert_self fd s.opened
    · rw [hother d hne] at hd
      exact Finset.mem_insert_of_mem (h.opened d fd' hd)
  · intro d e fd' hd he
    dsimp only at hd he
    rcases eq_or_ne d c with rfl | hd'
    · rcases eq_or_ne e d with rfl | he'
      · rfl
      · rw [hself] at hd
        rw [hother e he'] at he
        exact absurd (he.trans hd.symm) (hnew e)
    · rw [hother d hd'] at hd
      rcases eq_or_ne e c with rfl | he'
      · rw [hself] at he
        exact absurd (hd.trans he.symm) (hnew d)
      · rw [hother e he'] at he
        exact h.distinct d e fd' hd he
  · intro d hd
    dsimp only at hd ⊢
    have hne : d ≠ c := by
      rintro rfl
      rw [setHandling_same] at hd
      cases hd
    rw [hother d hne]
    exact h.unborn d ((setHandling_other s _ hne).symm.trans hd)
  · intro d hd
    dsimp only at hd ⊢
    have hne : d ≠ c := by
      rintro rfl
      rw [setHandling_same] at hd
      cases hd
    rw [hother d hne]
    exact h.ended d ((setHandling_other s _ hne).symm.trans hd)
  · intro d slot x hd
    dsimp only at hd ⊢
    have hne : d ≠ c := by
      rintro rfl
      rw [setHandling_same] at hd
      cases hd
    rw [setHandling_other s _ hne] at hd
    rw [hother d hne]
    exact h.own d slot x hd

theorem Sound.start (h : Sound s) {t : Handlers κ ι} (hc : s.handling c = .scheduled)
    (ht : s.start c = some t) : Sound t := by
  unfold Handlers.start at ht
  split at ht
  · obtain rfl := Option.some.inj ht
    exact h.finish c
  · next fd hfd =>
    split at ht
    · obtain rfl := Option.some.inj ht
      have hnone : (s.handling c).place = none := by
        rw [hc]
        rfl
      refine (h.init hfd hnone).again ?_ ?_
      · unfold Handlers.init
        rw [release_eq h]
        exact hfd
      · exact Function.update_self _ _ _
    · cases ht

theorem Sound.returned (h : Sound s) {t : Handlers κ ι} {codec : HeaderCodec} {slot : Nat}
    {x : Option κ} {r : Recv} (hc : s.handling c = .receiving slot x)
    (ht : s.returned codec c slot r = some t) : Sound t := by
  obtain ⟨-, hclient, hsock⟩ := h.own c slot x (by rw [hc]; rfl)
  unfold Handlers.returned at ht
  split at ht
  · cases ht
  · next conn _ =>
    obtain rfl := Option.some.inj ht
    exact (h.setUser slot conn).finish c
  · next _ conn _ =>
    split at ht
    · obtain rfl := Option.some.inj ht
      refine Sound.again (s := { s.setUser slot conn.reset with
        server := conn.notifyService s.clock s.server }) ?_ hsock hclient
      exact (h.setUser slot conn.reset).congr rfl rfl rfl rfl
    · obtain rfl := Option.some.inj ht
      exact (h.setUser slot conn).place rfl hsock hclient

variable [DecidableEq ι]

theorem step_sound {codec : HeaderCodec} {s t : Handlers κ ι} {a : HandlerAction κ ι}
    (h : Sound s) (hstep : step codec s a = some t) : Sound t := by
  cases a with
  | accept c fd =>
    dsimp only [step] at hstep
    split at hstep
    · next hc =>
      split at hstep
      · cases hstep
      · next hfd =>
        obtain rfl := Option.some.inj hstep
        exact h.accept hc hfd
    · cases hstep
  | start c =>
    dsimp only [step] at hstep
    split at hstep
    · next hc => exact h.start hc hstep
    · cases hstep
  | returned c r =>
    dsimp only [step] at hstep
    split at hstep
    · next hc => exact h.returned hc hstep
    · cases hstep
  | sent c =>
    dsimp only [step] at hstep
    split at hstep
    · next slot x back hc =>
      obtain ⟨-, hclient, hsock⟩ := h.own c slot x (by rw [hc]; rfl)
      obtain rfl := Option.some.inj hstep
      refine Sound.again (s := { s.setUser slot (s.users slot).reset with
        sent := (x, back) :: s.sent }) ?_ hsock hclient
      exact (h.setUser slot (s.users slot).reset).congr rfl rfl rfl rfl
    · cases hstep
  | heartbeat a =>
    dsimp only [step] at hstep
    split at hstep
    · obtain ⟨v, -, rfl⟩ := Option.map_eq_some_iff.mp hstep
      exact h.congr rfl rfl rfl rfl
    · cases hstep

/-- However the handlers take turns, whatever arrives and whatever numbers the kernel gives, no two
of them are ever in one slot, and each works on its own connection. -/
theorem slots_exclusive (codec : HeaderCodec) (as : List (HandlerAction κ ι)) :
    Transition.Always (step codec) Exclusive ({} : Handlers κ ι) as :=
  (Transition.always_of_step (fun _ _ _ h hstep => step_sound h hstep) sound_default as).mono
    (fun _ h => h.exclusive)

end Steps
end Handlers
end CoroutineRpc.Registry
