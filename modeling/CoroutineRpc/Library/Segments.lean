import CoroutineRpc.Library.Text

/-! How a byte stream comes out of a socket: in nonempty pieces that no frame boundary has
anything to do with. -/
namespace CoroutineRpc

/-- The results of successive `recv` calls into a buffer of this size. -/
structure Cuts (size : Nat) (stream : ByteString) (segments : List ByteString) : Prop where
  joined : segments.flatten = stream
  nonempty : ∀ segment ∈ segments, segment ≠ []
  fits : ∀ segment ∈ segments, segment.length ≤ size

theorem Cuts.eq_nil {size : Nat} {segments : List ByteString} (h : Cuts size [] segments) :
    segments = [] := by
  cases segments with
  | nil => rfl
  | cons segment segments =>
    have hjoined := h.joined
    rw [List.flatten_cons] at hjoined
    exact absurd (List.append_eq_nil_iff.mp hjoined).1 (h.nonempty _ List.mem_cons_self)

/-- One byte at a time. -/
def singles (stream : ByteString) : List ByteString := stream.map (fun b => [b])

theorem flatten_singles (stream : ByteString) : (singles stream).flatten = stream := by
  induction stream with
  | nil => rfl
  | cons b bs ih =>
    change [b] ++ (singles bs).flatten = b :: bs
    rw [ih]
    rfl

theorem cuts_singles {size : Nat} (h : 0 < size) (stream : ByteString) :
    Cuts size stream (singles stream) where
  joined := flatten_singles stream
  nonempty := by
    intro segment hmem
    obtain ⟨b, -, rfl⟩ := List.mem_map.mp hmem
    exact List.cons_ne_nil b []
  fits := by
    intro segment hmem
    obtain ⟨b, -, rfl⟩ := List.mem_map.mp hmem
    exact h

/-- A first piece and then one byte at a time. -/
theorem Cuts.cons_singles {size : Nat} {first : ByteString} (hne : first ≠ [])
    (hfits : first.length ≤ size) (rest : ByteString) :
    Cuts size (first ++ rest) (first :: singles rest) := by
  have hpos : 0 < size := Nat.lt_of_lt_of_le (List.length_pos_iff.mpr hne) hfits
  have hrest := cuts_singles hpos rest
  refine ⟨by rw [List.flatten_cons, hrest.joined], ?_, ?_⟩
  · intro segment hmem
    rcases List.mem_cons.mp hmem with rfl | hmem
    · exact hne
    · exact hrest.nonempty segment hmem
  · intro segment hmem
    rcases List.mem_cons.mp hmem with rfl | hmem
    · exact hfits
    · exact hrest.fits segment hmem

end CoroutineRpc
