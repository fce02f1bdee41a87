import CoroutineRpc.Library.CBuffer
import CoroutineRpc.Rpc.HeaderWire

/-! A serialized `RpcHeader` that is cut at a zero byte is not parsed: such a byte lies in the
content of a `bytes` field, which then ends before its announced length. -/
namespace CoroutineRpc.Rpc.HeaderWire
open MessageWire

/-- The bytes before the first zero, as `strlen` counts them. -/
abbrev cut (bs : ByteString) : ByteString := bs.takeWhile (· ≠ 0)

theorem cut_append {bs rest : ByteString} (h : (0 : UInt8) ∉ bs) :
    cut (bs ++ rest) = bs ++ cut rest := by
  apply List.takeWhile_append_of_pos
  intro b hb
  have hne : b ≠ 0 := fun he => h (he ▸ hb)
  simpa using hne

theorem cut_eq {bs : ByteString} (h : (0 : UInt8) ∉ bs) : cut bs = bs := by
  have hcut : cut (bs ++ []) = bs ++ cut [] := cut_append h
  simpa using hcut

/-- A cut leaves less where there is a zero byte, whatever follows it. -/
theorem cut_append_of_mem {bs : ByteString} (h : (0 : UInt8) ∈ bs) (rest : ByteString) :
    cut (bs ++ rest) = cut bs ∧ (cut bs).length < bs.length := by
  induction bs with
  | nil => cases h
  | cons b bs ih =>
    by_cases hb : b = 0
    · subst hb
      exact ⟨by simp [cut], by simp [cut]⟩
    · obtain ⟨heq, hlt⟩ := ih ((List.mem_cons.mp h).resolve_left (Ne.symm hb))
      have hcons : ∀ tail : ByteString, cut (b :: tail) = b :: cut tail := by
        intro tail
        simp [cut, hb]
      rw [List.cons_append, hcons, hcons, heq]
      exact ⟨rfl, by simpa using hlt⟩

section Fields
variable {rt : Runtime} {M : Type} {fields : Fields M} {m : M} {tag : UInt8} {rest : ByteString}

/-- With a zero byte in its content the field ends too early, and the parsing with it. -/
theorem parses_cut_sized {read : ByteString → Option (M × ByteString)} {value : ByteString}
    (hpos : tag ≠ 0) (htag : tag.toNat < 128) (hlen : value.length < 2 ^ 31)
    (hknown : fields m tag.toNat = some read)
    (hread : ∀ bs, rt.readBytes bs = none → read bs = none) (hzero : (0 : UInt8) ∈ value) :
    Parses rt fields m (cut (sizedField rt tag value ++ rest)) none := by
  have hprefix := zero_notMem_tagged rt hpos (List.length_pos_of_mem hzero)
  obtain ⟨hcut, hlt⟩ := cut_append_of_mem hzero rest
  rw [sizedField, List.append_assoc, cut_append hprefix, hcut]
  exact parses_unreadable htag hknown (hread _ (rt.readBytes_short hlen hlt))

private theorem parses_cut_bytes (set : ByteString → M) {value : ByteString} (hpos : tag ≠ 0)
    (htag : tag.toNat < 128) (hlen : value.length < 2 ^ 31) (hdefault : set [] = m)
    (hknown : fields m tag.toNat = some (fun bs => (rt.readBytes bs).map (fun r => (set r.1, r.2))))
    (hrest : (0 : UInt8) ∈ rest → Parses rt fields (set value) (cut rest) none)
    (hzero : (0 : UInt8) ∈ bytesField rt tag value ++ rest) :
    Parses rt fields m (cut (bytesField rt tag value ++ rest)) none := by
  by_cases hvalue : (0 : UInt8) ∈ value
  · have hsized : bytesField rt tag value = sizedField rt tag value :=
      if_neg (List.ne_nil_of_mem hvalue)
    rw [hsized]
    refine parses_cut_sized hpos htag hlen hknown (fun bs hbs => ?_) hvalue
    rw [hbs]
    rfl
  · have hfield := zero_notMem_bytesField rt hpos hvalue
    rw [cut_append hfield]
    exact parses_fresh_bytes set htag hlen hdefault hknown
      (hrest ((List.mem_append.mp hzero).resolve_left hfield))

private theorem parses_cut_uint32 (set : UInt32 → M) {value : UInt32} (hpos : tag ≠ 0)
    (htag : tag.toNat < 128) (hdefault : set 0 = m)
    (hknown : fields m tag.toNat = some (fun bs => (rt.readUInt32 bs).map (fun r => (set r.1, r.2))))
    (hrest : (0 : UInt8) ∈ rest → Parses rt fields (set value) (cut rest) none)
    (hzero : (0 : UInt8) ∈ uint32Field rt tag value ++ rest) :
    Parses rt fields m (cut (uint32Field rt tag value ++ rest)) none := by
  have hfield := zero_notMem_uint32Field rt hpos value
  rw [cut_append hfield]
  exact parses_fresh_uint32 set htag hdefault hknown
    (hrest ((List.mem_append.mp hzero).resolve_left hfield))

end Fields

/-- A serialized header with a zero byte in it does not survive the cut. -/
theorem parse_cut {rt : Runtime} {h : RpcHeader} {s : ByteString}
    (hs : serializeToString rt h = some s) (hzero : (0 : UInt8) ∈ s) :
    parseFromString rt (cut s) = none := by
  unfold serializeToString serializeChecked at hs
  split at hs
  · next hlen =>
    obtain rfl := Option.some.inj hs
    simp only [internalSerialize, List.length_append] at hlen
    have hservice := length_le_bytesField rt 10 h.serviceName
    have hmethod := length_le_bytesField rt 18 h.methodName
    have hip := length_le_bytesField rt 42 h.ip
    have hrefuses : Parses rt (fields rt) {} (cut (internalSerialize rt h)) none := by
      unfold internalSerialize at hzero ⊢
      refine parses_cut_bytes (fun v => { serviceName := v }) (by decide) (by decide) (by omega)
        rfl rfl (fun hzero => ?_) hzero
      refine parses_cut_bytes (fun v => { serviceName := h.serviceName, methodName := v })
        (by decide) (by decide) (by omega) rfl rfl (fun hzero => ?_) hzero
      refine parses_cut_uint32
        (fun v => { serviceName := h.serviceName, methodName := h.methodName, argsSize := v })
        (by decide) (by decide) rfl rfl (fun hzero => ?_) hzero
      refine parses_cut_uint32
        (fun v => ⟨h.serviceName, h.methodName, h.argsSize, v, [], 0⟩) (by decide) (by decide) rfl
        rfl (fun hzero => ?_) hzero
      refine parses_cut_bytes
        (fun v => ⟨h.serviceName, h.methodName, h.argsSize, h.messageType, v, 0⟩) (by decide)
        (by decide) (by omega) rfl rfl (fun hzero => ?_) hzero
      rw [← List.append_nil (uint32Field rt 48 h.port)] at hzero ⊢
      exact parses_cut_uint32
        (fun v => ⟨h.serviceName, h.methodName, h.argsSize, h.messageType, h.ip, v⟩) (by decide)
        (by decide) rfl rfl (fun hzero => absurd hzero List.not_mem_nil) hzero
    exact hrefuses.merges
  · cases hs

end CoroutineRpc.Rpc.HeaderWire
