import CoroutineRpc.Rpc.BinaryFrames
import CoroutineRpc.Rpc.SharedProvider

/-! When the answers of a provider go to the clients that asked. Two fibers that wait at the
same time share `m_client` and the buffer, and the one that starts last is answered for both. -/
namespace CoroutineRpc.Rpc.SharedProvider
variable {κ Q R : Type}

/-- A fiber only waits for bytes of its own client. -/
structure Inv (s : SharedProvider κ Q R) : Prop where
  sized : s.origin.length = readBufferSize
  own : ∀ c socket, s.phase c = .receiving socket → socket = some c
  separate : s.Separate

private theorem inv_fresh
    (services : AList (fun _ : ByteString => AList (fun _ : ByteString => Method Q R))) :
    (fresh services : SharedProvider κ Q R).Inv where
  sized := List.length_replicate
  own := fun _ _ h => by cases h
  separate := fun _ hm => absurd hm List.not_mem_nil

private theorem received_length {s : SharedProvider κ Q R} (h : s.origin.length = readBufferSize)
    (socket : Option κ) (bytes : ByteString) : (s.received socket bytes).length = readBufferSize := by
  simp only [received, List.length_take, List.length_append, List.length_replicate,
    List.length_drop, h]
  omega

/-- The bytes of a message are the received ones and the ones left over behind them. -/
theorem message_origin {s : SharedProvider κ Q R} {c : κ} {r : Recv}
    (hsized : s.origin.length = readBufferSize) (hfits : r.bytes.length ≤ readBufferSize)
    (hleft : ∀ o ∈ s.leftover r, o = some c) :
    ∀ o ∈ (s.received (some c) r.bytes).take (s.message r).length, o = some c := by
  intro o ho
  have hwhole : s.received (some c) r.bytes =
      List.replicate r.bytes.length (some c) ++ s.origin.drop r.bytes.length := by
    apply List.take_of_length_le
    simp only [List.length_append, List.length_replicate, List.length_drop, hsized]
    omega
  rw [hwhole, List.take_append, List.length_replicate] at ho
  rcases List.mem_append.mp ho with hnew | hold
  · exact List.eq_of_mem_replicate (List.mem_of_mem_take hnew)
  · exact hleft o hold

/-- `OnMessage` keeps the message that it has taken. -/
theorem onMessage_recvBuf {codec : HeaderCodec} {p : Provider Q R} {handled : Handled Q R}
    (h : p.onMessage codec = .ok handled) :
    handled.provider.recvBuf = p.readBuf.bytes.takeWhile (· ≠ 0) := by
  obtain ⟨recvBuf, hscan, hdecode⟩ := bind_eq_ok.mp h
  have hcut : recvBuf = p.readBuf.bytes.takeWhile (· ≠ 0) := by
    by_cases hzero : (0 : UInt8) ∈ p.readBuf.bytes
    · exact Except.ok.inj (hscan.symm.trans (p.readBuf.cString_ok hzero))
    · cases hscan.symm.trans (p.readBuf.cString_error hzero)
  cases hdecode
  have hframe := (decodeFrame_header codec p recvBuf).1
  unfold Provider.decode
  rcases hread : p.decodeFrame codec recvBuf with ⟨ok, read⟩
  rw [hread] at hframe
  cases ok with
  | false => exact hframe.trans hcut
  | true =>
    change read.dispatch.provider.recvBuf = _
    rw [Provider.dispatch_provider]
    exact hframe.trans hcut

/-- With a zero byte in the buffer `OnMessage` stays inside it. -/
theorem onMessage_ok (codec : HeaderCodec) {p : Provider Q R}
    (h : (0 : UInt8) ∈ p.readBuf.bytes) : ∃ handled, p.onMessage codec = .ok handled := by
  refine ⟨p.decode codec (p.readBuf.bytes.takeWhile (· ≠ 0)), ?_⟩
  rw [Provider.onMessage, p.readBuf.cString_ok h]
  rfl

section
variable [DecidableEq κ]

/-- Only the fiber that takes the step changes its phase. -/
theorem own_update {phase : κ → FiberPhase κ} {c : κ} {new : FiberPhase κ}
    (h : ∀ c socket, phase c = .receiving socket → socket = some c)
    (hnew : ∀ socket, new = .receiving socket → socket = some c) :
    ∀ c' socket, Function.update phase c new c' = .receiving socket → socket = some c' := by
  intro c' socket hphase
  by_cases hc : c' = c
  · subst hc
    rw [Function.update_self] at hphase
    exact hnew socket hphase
  · rw [Function.update_of_ne hc] at hphase
    exact h c' socket hphase

private theorem inv_again {s : SharedProvider κ Q R} {c : κ} (h : s.Inv)
    (hclient : s.client = some c) : (s.again c).Inv where
  sized := List.length_replicate
  own := own_update h.own (fun socket hsocket => by cases hsocket; exact hclient)
  separate := h.separate

/-- A message of its own in the fiber of a client is served for the client. -/
theorem inv_handle {codec : HeaderCodec} {s : SharedProvider κ Q R} {c : κ}
    {origin : List (Option κ)} {handled : Handled Q R} (h : s.Inv)
    (hsized : origin.length = readBufferSize)
    (hclient : s.client = some c)
    (hmessage : ∀ o ∈ origin.take handled.provider.recvBuf.length, o = some c)
    (hheader : headerSource codec handled.provider.recvBuf = none →
      ∀ o ∈ s.headerOrigin, o = some c) :
    (s.handle codec c origin handled).Inv := by
  let message := origin.take handled.provider.recvBuf.length
  let header := s.headerOrigins codec handled.provider.recvBuf message
  have hown : ∀ o ∈ header, o = some c := by
    intro o ho
    unfold header headerOrigins at ho
    split at ho
    · exact hmessage o (List.mem_of_mem_drop (List.mem_of_mem_take ho))
    · next hnone => exact hheader hnone o ho
  have hseparate : ∀ m ∈ s.served ++ [(⟨c, message ++ header,
      handled.sent.map (fun _ => s.client)⟩ : Served κ)], (∀ o ∈ m.parsed, o = some m.client) ∧
        ∀ socket, m.response = some socket → socket = some m.client := by
    intro m hm
    rcases List.mem_append.mp hm with hm | hm
    · exact h.separate m hm
    · obtain rfl := List.mem_singleton.mp hm
      refine ⟨fun o ho => (List.mem_append.mp ho).elim (hmessage o) (hown o), ?_⟩
      intro socket hsocket
      obtain ⟨_, -, rfl⟩ := Option.map_eq_some_iff.mp hsocket
      exact hclient
  unfold handle
  dsimp only
  split
  · split
    · exact ⟨hsized, own_update h.own (fun socket hsocket => by cases hsocket), hseparate⟩
    · exact inv_again ⟨hsized, h.own, hseparate⟩ hclient
  · exact ⟨hsized, own_update h.own (fun socket hsocket => by cases hsocket), hseparate⟩

theorem inv_step {codec : HeaderCodec} {s t : SharedProvider κ Q R} {a : FiberAction κ}
    (h : s.Inv) (hg : s.Undisturbed codec a) (hstep : s.step codec a = some t) : t.Inv := by
  cases a with
  | start c =>
    simp only [step] at hstep
    split at hstep
    · cases hstep
      exact ⟨h.sized, own_update h.own (fun socket hsocket => by cases hsocket; rfl), h.separate⟩
    · cases hstep
  | sent c =>
    simp only [step] at hstep
    split at hstep
    · cases hstep
      exact inv_again h hg
    · cases hstep
  | returned c r =>
    simp only [step] at hstep
    split at hstep
    · next socket hphase =>
      split at hstep
      · next hfits =>
        split at hstep
        · cases hstep
          exact ⟨h.sized, own_update h.own (fun socket hsocket => by cases hsocket), h.separate⟩
        · next p hread =>
          obtain ⟨hzero, hclient, hleft, hheader⟩ := hg (by rw [hread])
          have hmessage : s.message r = p.readBuf.bytes.takeWhile (· ≠ 0) := by
            rw [message, hread]
          split at hstep
          · next handled hhandled =>
            cases hstep
            have hbuf := (onMessage_recvBuf hhandled).trans hmessage.symm
            obtain rfl := h.own c socket hphase
            refine inv_handle h (received_length h.sized _ _) hclient ?_ ?_
            · rw [hbuf]
              exact message_origin h.sized hfits hleft
            · rw [hbuf]
              exact hheader
          · next e hfailed =>
            rw [hread] at hzero
            cases (onMessage_ok codec hzero).choose_spec.symm.trans hfailed
      · cases hstep
    · cases hstep

/-- In every run in which no fiber uses what another one has left in the members, each client
is served from its own bytes and answered on its own socket. -/
theorem responses_separate (codec : HeaderCodec)
    (services : AList (fun _ : ByteString => AList (fun _ : ByteString => Method Q R)))
    {as : List (FiberAction κ)}
    (hg : Transition.Guarded (step codec) (Undisturbed codec) (fresh services) as) :
    Transition.Always (step codec) Separate (fresh services) as :=
  (Transition.always_of_guarded (fun _ _ _ h hg hstep => inv_step h hg hstep)
    (inv_fresh services) hg).mono (fun _ h => h.separate)

end

/-- The frame of a call of `Echo.say`, with two letters as its argument. -/
def sayHi : Recv :=
  .got [26, 10, 4, 69, 99, 104, 111, 18, 3, 115, 97, 121, 24, 2, 42, 8, 49, 48, 46, 48, 46, 48, 46,
    49, 48, 192, 62, 104, 105]

/-- Two clients, one after the other. -/
def inTurn : List (FiberAction Bool) :=
  [.start true, .returned true sayHi, .sent true, .returned true .closed,
    .start false, .returned false sayHi, .sent false]

def echo : SharedProvider Bool ByteString ByteString := fresh Provider.echoProvider.serviceMap

/-- Nothing is left over where the received bytes are the whole message. -/
theorem undisturbed_whole {codec : HeaderCodec} {s : SharedProvider Bool ByteString ByteString}
    {c : Bool} {r : Recv}
    (hzero : (0 : UInt8) ∈ (s.provider.readOnce r).2.readBuf.bytes) (hclient : s.client = some c)
    (hwhole : (s.message r).length = r.bytes.length)
    (hheader : headerSource codec (s.message r) ≠ none) : s.Undisturbed codec (.returned c r) := by
  intro _
  refine ⟨hzero, hclient, ?_, fun hnone => absurd hnone hheader⟩
  intro o ho
  rw [leftover, hwhole, Nat.sub_self, List.take_zero] at ho
  cases ho

theorem clients_in_turn_separate :
    Transition.Always (step (HeaderWire.codec .protobuf)) Separate echo inTurn ∧
      (Transition.run (step (HeaderWire.codec .protobuf)) echo inTurn).map
        (fun s => s.served.map (fun m => (m.client, m.response))) =
          some [(true, some (some true)), (false, some (some false))] := by
  refine ⟨responses_separate (HeaderWire.codec .protobuf) _ ?_, by decide +kernel⟩
  refine .cons rfl trivial ?_
  refine .cons rfl (undisturbed_whole (by decide +kernel) rfl (by decide +kernel)
    (by decide +kernel)) ?_
  refine .cons rfl rfl ?_
  refine .cons rfl (fun h => by cases h) ?_
  refine .cons rfl trivial ?_
  refine .cons rfl (undisturbed_whole (by decide +kernel) rfl (by decide +kernel)
    (by decide +kernel)) ?_
  exact .cons rfl rfl trivial

/-- The second client connects while the first one's request is on its way. -/
def overtaken : List (FiberAction Bool) := [.start true, .start false, .returned true sayHi]

/-- The request of the first client is answered to the second one. -/
theorem overtaken_answered_to_other :
    (Transition.run (step (HeaderWire.codec .protobuf)) echo overtaken).map
        (fun s => s.served.map (fun m => (m.client, m.response))) =
          some [(true, some (some false))] ∧
      ¬ Transition.Always (step (HeaderWire.codec .protobuf)) Separate echo overtaken := by
  have hrun : (Transition.run (step (HeaderWire.codec .protobuf)) echo overtaken).map
      (fun s => s.served.map (fun m => (m.client, m.response))) =
        some [(true, some (some false))] := by decide +kernel
  refine ⟨hrun, fun halways => ?_⟩
  obtain ⟨s, hs, hserved⟩ := Option.map_eq_some_iff.mp hrun
  have hmem : (true, some (some false)) ∈ s.served.map (fun m => (m.client, m.response)) := by
    rw [hserved]
    exact List.mem_singleton_self _
  obtain ⟨m, hm, heq⟩ := List.mem_map.mp hmem
  obtain ⟨hclient, hresponse⟩ := Prod.mk.inj heq
  have hown := (halways.finish hs m hm).2 (some false) hresponse
  rw [hclient] at hown
  cases hown

end CoroutineRpc.Rpc.SharedProvider
