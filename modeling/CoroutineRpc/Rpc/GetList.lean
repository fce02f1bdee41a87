import CoroutineRpc.Rpc.MessageWire
import CoroutineRpc.Rpc.Protobuf

/-! The messages of the example service: their generated wire code and their `MergeFrom`.
A message inside another one is parsed into the one that is there already. -/
namespace CoroutineRpc.Rpc
open MessageWire

variable (rt : Runtime)

structure ResultCode where
  errcode : Int32 := 0
  errmsg : ByteString := []
  deriving DecidableEq, Repr

structure GetListRequest where
  userid : UInt32 := 0
  deriving DecidableEq, Repr

structure GetListResponse where
  result : Option ResultCode := none
  val : List ByteString := []
  deriving DecidableEq, Repr

namespace ResultCode

def internalSerialize (m : ResultCode) : ByteString :=
  int32Field rt 8 m.errcode ++ bytesField rt 18 m.errmsg

def fields : Fields ResultCode := fun m tag =>
  match tag with
  | 8 => some (fun bs => (rt.readUInt64 bs).map (fun r =>
      ({ m with errcode := r.1.toUInt32.toInt32 }, r.2)))
  | 18 => some (fun bs => (rt.readBytes bs).map (fun r => ({ m with errmsg := r.1 }, r.2)))
  | _ => none

def mergeFrom (m source : ResultCode) : ResultCode :=
  let m := if source.errmsg = [] then m else { m with errmsg := source.errmsg }
  if source.errcode = 0 then m else { m with errcode := source.errcode }

/-- Its bytes are parsed into a message as `MergeFrom` puts it there. -/
theorem parses_serialize (m source : ResultCode)
    (hlen : (source.internalSerialize rt).length < 2 ^ 31) :
    Parses rt (fields rt) m (source.internalSerialize rt) (some (m.mergeFrom source)) := by
  have herrmsg := length_le_bytesField rt 18 source.errmsg
  unfold internalSerialize at hlen ⊢
  rw [List.length_append] at hlen
  refine parses_int32Field (fun v => { m with errcode := v }) (by decide) rfl ?_
  rw [← List.append_nil (bytesField rt 18 source.errmsg)]
  by_cases hcode : source.errcode = 0
  · rw [if_pos hcode]
    refine parses_bytesField (fun v => { m with errmsg := v }) (by decide) (by omega) rfl ?_
    rw [mergeFrom, if_pos hcode]
    exact parses_nil _
  · rw [if_neg hcode]
    refine parses_bytesField (fun v => { m with errcode := source.errcode, errmsg := v })
      (by decide) (by omega) rfl ?_
    rw [mergeFrom, if_neg hcode]
    by_cases hmsg : source.errmsg = []
    · rw [if_pos hmsg, if_pos hmsg]
      exact parses_nil _
    · rw [if_neg hmsg, if_neg hmsg]
      exact parses_nil _

theorem merge_into_default (source : ResultCode) : ({} : ResultCode).mergeFrom source = source := by
  obtain ⟨errcode, errmsg⟩ := source
  unfold mergeFrom
  dsimp only
  by_cases hcode : errcode = 0
  · by_cases hmsg : errmsg = []
    · rw [if_pos hcode, if_pos hmsg, hcode, hmsg]
    · rw [if_pos hcode, if_neg hmsg, hcode]
  · by_cases hmsg : errmsg = []
    · rw [if_neg hcode, if_pos hmsg, hmsg]
    · rw [if_neg hcode, if_neg hmsg]

end ResultCode

namespace GetListRequest

def internalSerialize (m : GetListRequest) : ByteString := uint32Field rt 8 m.userid

def serializeToString (m : GetListRequest) : Option ByteString :=
  serializeChecked (m.internalSerialize rt)

def fields : Fields GetListRequest := fun _ tag =>
  match tag with
  | 8 => some (fun bs => (rt.readUInt32 bs).map (fun r => (⟨r.1⟩, r.2)))
  | _ => none

def parseFromString (bs : ByteString) : Option GetListRequest :=
  mergeFromString rt (fields rt) {} bs

theorem parse_internalSerialize (m : GetListRequest) :
    parseFromString rt (m.internalSerialize rt) = some m := by
  refine Parses.merges ?_
  unfold internalSerialize
  rw [← List.append_nil (uint32Field rt 8 m.userid)]
  exact parses_fresh_uint32 (fun v => ⟨v⟩) (by decide) rfl rfl (parses_nil m)

end GetListRequest

namespace GetListResponse

/-- Every value is written, and the result when it is present. -/
def internalSerialize (m : GetListResponse) : ByteString :=
  (match m.result with
    | none => []
    | some result => sizedField rt 10 (result.internalSerialize rt)) ++
      m.val.flatMap (sizedField rt 18)

def serializeToString (m : GetListResponse) : Option ByteString :=
  serializeChecked (m.internalSerialize rt)

def fields : Fields GetListResponse := fun m tag =>
  match tag with
  | 10 => some (fun bs => (rt.readBytes bs).bind (fun r =>
      (mergeFromString rt (ResultCode.fields rt) (m.result.getD {}) r.1).map (fun result =>
        ({ m with result := some result }, r.2))))
  | 18 => some (fun bs => (rt.readBytes bs).map (fun r => ({ m with val := m.val ++ [r.1] }, r.2)))
  | _ => none

def parseFromString (bs : ByteString) : Option GetListResponse :=
  mergeFromString rt (fields rt) {} bs

def mergeFrom (m source : GetListResponse) : GetListResponse :=
  { val := m.val ++ source.val
    result := match source.result with
      | none => m.result
      | some result => some ((m.result.getD {}).mergeFrom result) }

theorem merge_into_default (source : GetListResponse) :
    ({} : GetListResponse).mergeFrom source = source := by
  obtain ⟨result, vs⟩ := source
  unfold mergeFrom
  cases result with
  | none => rfl
  | some result =>
    dsimp only
    rw [Option.getD_none, ResultCode.merge_into_default]
    rfl

section Parsing
variable {rt} {m source : GetListResponse} {rest : ByteString} {parsed : Option GetListResponse}

/-- The values are appended one after the other. -/
theorem parses_values {vs : List ByteString}
    (hlen : (vs.flatMap (sizedField rt 18)).length < 2 ^ 31)
    (hrest : Parses rt (fields rt) { m with val := m.val ++ vs } rest parsed) :
    Parses rt (fields rt) m (vs.flatMap (sizedField rt 18) ++ rest) parsed := by
  induction vs generalizing m with
  | nil =>
    rw [List.append_nil] at hrest
    exact hrest
  | cons v vs ih =>
    rw [List.flatMap_cons, List.length_append] at hlen
    have hvalue := length_le_sizedField rt 18 v
    rw [List.flatMap_cons, List.append_assoc]
    refine parses_sizedField { m with val := m.val ++ [v] } (by decide) (by omega) rfl ?_ ?_
    · intro bs hbs
      rw [hbs]
      rfl
    · refine ih (by omega) ?_
      rw [List.append_assoc]
      exact hrest

theorem parses_serialize (hlen : (source.internalSerialize rt).length < 2 ^ 31)
    (hrest : Parses rt (fields rt) (m.mergeFrom source) rest parsed) :
    Parses rt (fields rt) m (source.internalSerialize rt ++ rest) parsed := by
  obtain ⟨result, vs⟩ := source
  unfold internalSerialize at hlen ⊢
  unfold mergeFrom at hrest
  dsimp only at hlen hrest ⊢
  rw [List.length_append] at hlen
  rw [List.append_assoc]
  cases result with
  | none => exact parses_values (by omega) hrest
  | some result =>
    have hresult := length_le_sizedField rt 10 (result.internalSerialize rt)
    dsimp only at hlen hrest ⊢
    refine parses_sizedField
      { m with result := some ((m.result.getD {}).mergeFrom result) } (by decide)
      (by omega) rfl ?_ (parses_values (by omega) hrest)
    intro bs hbs
    have hmerge := (ResultCode.parses_serialize rt (m.result.getD {}) result (by omega)).merges
    rw [hbs, Option.bind_some, hmerge]
    rfl

theorem parse_internalSerialize (hlen : (m.internalSerialize rt).length < 2 ^ 31) :
    parseFromString rt (m.internalSerialize rt) = some m := by
  refine Parses.merges ?_
  rw [← List.append_nil (m.internalSerialize rt)]
  refine parses_serialize hlen ?_
  rw [merge_into_default]
  exact parses_nil m

end Parsing

/-- Two responses one behind the other are read as the first one merged with the second, so one
response alone is read as it was written. -/
theorem appended_parse_merged {m n : GetListResponse} {bs cs : ByteString}
    (hm : m.serializeToString rt = some bs) (hs : n.serializeToString rt = some cs) :
    parseFromString rt bs = some m ∧ parseFromString rt (bs ++ cs) = some (m.mergeFrom n) := by
  unfold serializeToString serializeChecked at hm hs
  split at hm
  · next hlen =>
    split at hs
    · next hlen' =>
      cases hm
      cases hs
      refine ⟨parse_internalSerialize hlen, Parses.merges ?_⟩
      refine parses_serialize hlen ?_
      rw [← List.append_nil (n.internalSerialize rt), merge_into_default]
      exact parses_serialize hlen' (parses_nil _)
    · cases hs
  · cases hm

/-- A negative code is kept, a code of zero does not replace it, and the values add up. -/
theorem failure_then_values_merged :
    parseFromString .protobuf
        [10, 14, 8, 255, 255, 255, 255, 255, 255, 255, 255, 255, 1, 18, 1, 120] =
        some ⟨some ⟨-1, [120]⟩, []⟩ ∧
      parseFromString .protobuf
        ([10, 14, 8, 255, 255, 255, 255, 255, 255, 255, 255, 255, 1, 18, 1, 120] ++
        [10, 0, 18, 0, 18, 1, 121]) = some ⟨some ⟨-1, [120]⟩, [[], [121]]⟩ :=
  appended_parse_merged .protobuf (m := ⟨some ⟨-1, [120]⟩, []⟩) (n := ⟨some {}, [[], [121]]⟩)
    (by decide) (by decide)

end GetListResponse
end CoroutineRpc.Rpc
