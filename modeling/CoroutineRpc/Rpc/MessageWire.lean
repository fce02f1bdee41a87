import CoroutineRpc.Rpc.Runtime

/-! The wire code that protobuf generates for every message: fields behind their tags, and the loop
of `_InternalParse` over them. A class differs from the others only in the tags that it knows, so
what one known field is read as settles the whole loop. -/
namespace CoroutineRpc.Rpc.MessageWire

/-- The `switch` of a generated class: how a tag that it knows is read into the message. -/
abbrev Fields (M : Type) := M → Nat → Option (ByteString → Option (M × ByteString))

variable {M : Type}

/-- One tag; the default branch keeps unknown fields out of the message. -/
def parseField (rt : Runtime) (fields : Fields M) (m : M) (tag : Nat) (bs : ByteString) :
    Option (M × ByteString) :=
  match fields m tag with
  | some read => read bs
  | none =>
    -- an end-group tag or a zero tag stops the message early, which its reader refuses
    if tag = 0 ∨ tag % 8 = 4 then none
    else (rt.unknownField tag bs).map (fun rest => (m, rest))

/-- `_InternalParse`; every round reads at least the tag. -/
def internalParse (rt : Runtime) (fields : Fields M) : (fuel : Nat) → M → ByteString → Option M
  | _, m, [] => some m
  | 0, _, _ :: _ => none
  | fuel + 1, m, bs => do
    let (tag, rest) ← rt.readTag bs
    let (m, rest) ← parseField rt fields m tag rest
    internalParse rt fields fuel m rest

/-- Parse into a message that may have fields already. -/
def mergeFromString (rt : Runtime) (fields : Fields M) (m : M) (bs : ByteString) : Option M :=
  internalParse rt fields bs.length m bs

/-- A field with its length in front, present even when it is empty. -/
def sizedField (rt : Runtime) (tag : UInt8) (value : ByteString) : ByteString :=
  tag :: rt.writeVarint32 value.length ++ value

/-- `bytes` fields are absent when empty. -/
def bytesField (rt : Runtime) (tag : UInt8) (value : ByteString) : ByteString :=
  if value = [] then [] else sizedField rt tag value

/-- `uint32` fields are absent when zero. -/
def uint32Field (rt : Runtime) (tag : UInt8) (value : UInt32) : ByteString :=
  if value = 0 then [] else tag :: rt.writeVarint32 value.toNat

/-- `WriteInt32ToArray`: a negative number is written as 64 bits. -/
def int32Field (rt : Runtime) (tag : UInt8) (value : Int32) : ByteString :=
  if value = 0 then [] else tag :: rt.writeVarint64 value.toInt64.toUInt64

/-- `SerializeToString` refuses messages above `INT_MAX` bytes. -/
def serializeChecked (bs : ByteString) : Option ByteString :=
  if bs.length < 2 ^ 31 then some bs else none

/-- Parsing comes to this result for every sufficient amount of fuel. -/
def Parses (rt : Runtime) (fields : Fields M) (m : M) (bs : ByteString) (result : Option M) :
    Prop :=
  ∀ fuel, bs.length ≤ fuel → internalParse rt fields fuel m bs = result

variable {rt : Runtime} {fields : Fields M} {m mid : M} {tag : UInt8} {payload rest : ByteString}
  {result : Option M}

theorem Parses.merges {bs : ByteString} (h : Parses rt fields m bs result) :
    mergeFromString rt fields m bs = result := h bs.length (Nat.le_refl _)

theorem parses_nil (m : M) : Parses rt fields m [] (some m) := by
  intro fuel _
  cases fuel with
  | zero => rfl
  | succ fuel => rfl

/-- One field: what its reader returns is what the rest is parsed into. -/
theorem parses_field {read : ByteString → Option (M × ByteString)} (htag : tag.toNat < 128)
    (hknown : fields m tag.toNat = some read) (hread : read (payload ++ rest) = some (mid, rest))
    (hrest : Parses rt fields mid rest result) :
    Parses rt fields m (tag :: payload ++ rest) result := by
  intro fuel hfuel
  cases fuel with
  | zero => simp at hfuel
  | succ fuel =>
    have hlen : rest.length ≤ fuel := by
      simp only [List.cons_append, List.length_cons, List.length_append] at hfuel
      omega
    have htag' := rt.readTag_byte (payload ++ rest) htag
    have hfield : parseField rt fields m tag.toNat (payload ++ rest) = some (mid, rest) := by
      rw [parseField, hknown]
      exact hread
    simp only [List.cons_append, internalParse, htag', Option.bind_eq_bind, Option.bind_some, hfield]
    exact hrest fuel hlen

/-- A field whose reader fails ends the parsing. -/
theorem parses_unreadable {read : ByteString → Option (M × ByteString)} (htag : tag.toNat < 128)
    (hknown : fields m tag.toNat = some read) (hread : read rest = none) :
    Parses rt fields m (tag :: rest) none := by
  intro fuel hfuel
  cases fuel with
  | zero => simp at hfuel
  | succ fuel =>
    have htag' := rt.readTag_byte rest htag
    have hfield : parseField rt fields m tag.toNat rest = none := by
      rw [parseField, hknown]
      exact hread
    simp only [internalParse, htag', Option.bind_eq_bind, Option.bind_some, hfield, Option.bind_none]

/-- The low half of a number that was extended with its sign. -/
theorem int32_of_extended (value : Int32) : value.toInt64.toUInt64.toUInt32.toInt32 = value := by
  apply Int32.toBitVec_inj.mp
  change (value.toBitVec.signExtend 64).setWidth 32 = value.toBitVec
  apply BitVec.eq_of_getLsbD_eq
  intro i hi
  rw [BitVec.getLsbD_setWidth, BitVec.getLsbD_signExtend]
  simp [hi, show i < 64 by omega]

theorem length_le_sizedField (rt : Runtime) (tag : UInt8) (value : ByteString) :
    value.length < (sizedField rt tag value).length := by
  simp only [sizedField, List.cons_append, List.length_cons, List.length_append]
  omega

theorem length_le_bytesField (rt : Runtime) (tag : UInt8) (value : ByteString) :
    value.length ≤ (bytesField rt tag value).length := by
  unfold bytesField
  split
  · next hempty => simp [hempty]
  · exact (length_le_sizedField rt tag value).le

theorem length_sizedField_le (rt : Runtime) (tag : UInt8) (value : ByteString) :
    (sizedField rt tag value).length ≤ value.length + 6 := by
  have hsize := rt.length_writeVarint32 value.length
  simp only [sizedField, List.cons_append, List.length_cons, List.length_append]
  omega

theorem length_sizedFields_le (rt : Runtime) (tag : UInt8) (values : List ByteString) :
    (values.flatMap (sizedField rt tag)).length ≤ (values.map (fun v => v.length + 6)).sum := by
  induction values with
  | nil => exact le_rfl
  | cons v values ih =>
    rw [List.flatMap_cons, List.length_append, List.map_cons, List.sum_cons]
    exact Nat.add_le_add (length_sizedField_le rt tag v) ih

theorem length_bytesField_le (rt : Runtime) (tag : UInt8) (value : ByteString) :
    (bytesField rt tag value).length ≤ value.length + 6 := by
  unfold bytesField
  split
  · exact Nat.zero_le _
  · exact length_sizedField_le rt tag value

theorem length_uint32Field_le (rt : Runtime) (tag : UInt8) (value : UInt32) :
    (uint32Field rt tag value).length ≤ 6 := by
  have hsize := rt.length_writeVarint32 value.toNat
  unfold uint32Field
  split
  · exact Nat.zero_le _
  · rw [List.length_cons]
    omega

theorem zero_notMem_tagged (rt : Runtime) {tag : UInt8} (htag : tag ≠ 0) {n : Nat} (h : 0 < n) :
    (0 : UInt8) ∉ tag :: rt.writeVarint32 n := by
  intro hmem
  rcases List.mem_cons.mp hmem with he | hmem
  · exact htag he.symm
  · exact rt.zero_notMem_writeVarint32 h hmem

/-- The zero bytes of a field are those of its content. -/
theorem zero_notMem_bytesField (rt : Runtime) {tag : UInt8} (htag : tag ≠ 0) {value : ByteString}
    (h : (0 : UInt8) ∉ value) : (0 : UInt8) ∉ bytesField rt tag value := by
  unfold bytesField
  split
  · exact List.not_mem_nil
  · next hne =>
    have hprefix := zero_notMem_tagged rt htag (List.length_pos_iff.mpr hne)
    exact fun hmem => (List.mem_append.mp hmem).elim hprefix h

theorem zero_notMem_uint32Field (rt : Runtime) {tag : UInt8} (htag : tag ≠ 0) (value : UInt32) :
    (0 : UInt8) ∉ uint32Field rt tag value := by
  unfold uint32Field
  split
  · exact List.not_mem_nil
  · next hne =>
    have hpos : 0 < value.toNat :=
      Nat.pos_of_ne_zero (fun hzero => hne (UInt32.toNat_inj.mp hzero))
    exact zero_notMem_tagged rt htag hpos

/-- A field with a length, by what its reader makes of exactly these bytes. -/
theorem parses_sizedField (mid : M) {read : ByteString → Option (M × ByteString)}
    {value : ByteString} (htag : tag.toNat < 128) (hlen : value.length < 2 ^ 31)
    (hknown : fields m tag.toNat = some read)
    (hread : ∀ bs, rt.readBytes bs = some (value, rest) → read bs = some (mid, rest))
    (hrest : Parses rt fields mid rest result) :
    Parses rt fields m (sizedField rt tag value ++ rest) result :=
  parses_field htag hknown (hread _ (rt.readBytes_written rest hlen)) hrest

/-- An absent field leaves what was there, as a merge does. -/
theorem parses_bytesField (set : ByteString → M) {value : ByteString} (htag : tag.toNat < 128)
    (hlen : value.length < 2 ^ 31)
    (hknown : fields m tag.toNat = some (fun bs => (rt.readBytes bs).map (fun r => (set r.1, r.2))))
    (hrest : Parses rt fields (if value = [] then m else set value) rest result) :
    Parses rt fields m (bytesField rt tag value ++ rest) result := by
  unfold bytesField
  split
  · next hempty =>
    rw [if_pos hempty] at hrest
    exact hrest
  · next hempty =>
    rw [if_neg hempty] at hrest
    refine parses_sizedField (set value) htag hlen hknown (fun bs hbs => ?_) hrest
    rw [hbs]
    rfl

private theorem parses_uint32Field (set : UInt32 → M) {value : UInt32} (htag : tag.toNat < 128)
    (hknown : fields m tag.toNat = some (fun bs => (rt.readUInt32 bs).map (fun r => (set r.1, r.2))))
    (hrest : Parses rt fields (if value = 0 then m else set value) rest result) :
    Parses rt fields m (uint32Field rt tag value ++ rest) result := by
  unfold uint32Field
  split
  · next hzero =>
    rw [if_pos hzero] at hrest
    exact hrest
  · next hzero =>
    rw [if_neg hzero] at hrest
    have hread : (rt.readUInt32 (rt.writeVarint32 value.toNat ++ rest)).map
        (fun r => (set r.1, r.2)) = some (set value, rest) := by
      rw [rt.readUInt32_written]
      rfl
    exact parses_field htag hknown hread hrest

/-- In a message that still has the default of the field. -/
theorem parses_fresh_bytes (set : ByteString → M) {value : ByteString} (htag : tag.toNat < 128)
    (hlen : value.length < 2 ^ 31) (hdefault : set [] = m)
    (hknown : fields m tag.toNat = some (fun bs => (rt.readBytes bs).map (fun r => (set r.1, r.2))))
    (hrest : Parses rt fields (set value) rest result) :
    Parses rt fields m (bytesField rt tag value ++ rest) result := by
  refine parses_bytesField set htag hlen hknown ?_
  split
  · next hempty =>
    rw [hempty, hdefault] at hrest
    exact hrest
  · exact hrest

theorem parses_fresh_uint32 (set : UInt32 → M) {value : UInt32} (htag : tag.toNat < 128)
    (hdefault : set 0 = m)
    (hknown : fields m tag.toNat = some (fun bs => (rt.readUInt32 bs).map (fun r => (set r.1, r.2))))
    (hrest : Parses rt fields (set value) rest result) :
    Parses rt fields m (uint32Field rt tag value ++ rest) result := by
  refine parses_uint32Field set htag hknown ?_
  split
  · next hzero =>
    rw [hzero, hdefault] at hrest
    exact hrest
  · exact hrest

theorem parses_int32Field (set : Int32 → M) {value : Int32} (htag : tag.toNat < 128)
    (hknown : fields m tag.toNat =
      some (fun bs => (rt.readUInt64 bs).map (fun r => (set r.1.toUInt32.toInt32, r.2))))
    (hrest : Parses rt fields (if value = 0 then m else set value) rest result) :
    Parses rt fields m (int32Field rt tag value ++ rest) result := by
  unfold int32Field
  split
  · next hzero =>
    rw [if_pos hzero] at hrest
    exact hrest
  · next hzero =>
    rw [if_neg hzero] at hrest
    have hread : (rt.readUInt64 (rt.writeVarint64 value.toInt64.toUInt64 ++ rest)).map
        (fun r => (set r.1.toUInt32.toInt32, r.2)) = some (set value, rest) := by
      rw [rt.readUInt64_written, Option.map_some, int32_of_extended]
    exact parses_field htag hknown hread hrest

end CoroutineRpc.Rpc.MessageWire
