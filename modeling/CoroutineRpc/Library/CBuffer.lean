import CoroutineRpc.Library.Text

/-! Fixed C arrays of bytes. Every read is checked, so that an access past the end
is an outcome of the model instead of an arbitrary byte. -/
namespace CoroutineRpc

/-- The first index outside the array that was read. -/
structure OutOfBounds where
  index : Nat
  deriving DecidableEq, Repr

/-- A sequence of checked accesses succeeds when each of its two halves does. -/
theorem bind_eq_ok {ε α β : Type} {x : Except ε α} {f : α → Except ε β} {b : β} :
    (x >>= f) = .ok b ↔ ∃ a, x = .ok a ∧ f a = .ok b := by
  cases x with
  | error e =>
    constructor
    · intro h
      cases h
    · rintro ⟨a, ha, -⟩
      cases ha
  | ok a =>
    constructor
    · intro h
      exact ⟨a, rfl, h⟩
    · rintro ⟨a', ha, hb⟩
      cases ha
      exact hb

/-- A `char buf[n]` member; its length never changes. -/
structure CBuffer (n : Nat) where
  bytes : ByteString
  length_eq : bytes.length = n
  deriving DecidableEq, Repr

namespace CBuffer
variable {n : Nat}

def read (buf : CBuffer n) (i : Nat) : Except OutOfBounds UInt8 :=
  match buf.bytes[i]? with
  | some b => .ok b
  | none => .error ⟨i⟩

/-- `std::string(buf + i, len)`: one read after the other. -/
def string (buf : CBuffer n) : Nat → Nat → Except OutOfBounds ByteString
  | _, 0 => .ok []
  | i, len + 1 => do
    let b ← buf.read i
    let bs ← buf.string (i + 1) len
    pure (b :: bs)

private def scan : ByteString → Nat → Except OutOfBounds Nat
  | [], i => .error ⟨i⟩
  | b :: bs, i => if b = 0 then .ok i else scan bs (i + 1)

/-- `strlen(buf)`: read up to and including the first zero byte. -/
def strlen (buf : CBuffer n) : Except OutOfBounds Nat := scan buf.bytes 0

/-- The bytes of the C string that starts the buffer. -/
def cString (buf : CBuffer n) : Except OutOfBounds ByteString := do
  let len ← buf.strlen
  buf.string 0 len

/-- Overwrite the start of the buffer; bytes past its end are not stored. -/
def fill (buf : CBuffer n) (received : ByteString) : CBuffer n where
  bytes := (received ++ buf.bytes.drop received.length).take n
  length_eq := by
    have := buf.length_eq
    simp only [List.length_take, List.length_append, List.length_drop]
    omega

/-- `memset(buf, 0, len)`. -/
def clear (buf : CBuffer n) (len : Nat) : CBuffer n := buf.fill (List.replicate len 0)

def zeroed (n : Nat) : CBuffer n := ⟨List.replicate n 0, List.length_replicate⟩

/-- `buf[i] = b`. -/
def write (buf : CBuffer n) (i : Nat) (b : UInt8) : Except OutOfBounds (CBuffer n) :=
  if i < n then .ok ⟨buf.bytes.set i b, by rw [List.length_set, buf.length_eq]⟩ else .error ⟨i⟩

/-- The same write from `i` on, one byte after the other. -/
def writeFrom (buf : CBuffer n) (i : Nat) (b : UInt8) : Nat → Except OutOfBounds (CBuffer n)
  | 0 => .ok buf
  | count + 1 => do
    let buf ← buf.write i b
    buf.writeFrom (i + 1) b count

/-- The byte at a place inside the array. -/
def get (buf : CBuffer n) (i : Nat) : UInt8 := buf.bytes[i]?.getD 0

theorem eq_of_bytes {buf buf' : CBuffer n} (h : buf.bytes = buf'.bytes) : buf = buf' := by
  cases buf
  cases buf'
  cases h
  rfl

theorem fill_bytes (buf : CBuffer n) {received : ByteString} (h : received.length ≤ n) :
    (buf.fill received).bytes = received ++ buf.bytes.drop received.length := by
  have := buf.length_eq
  apply List.take_of_length_le
  simp only [List.length_append, List.length_drop]
  omega

theorem read_ok (buf : CBuffer n) {i : Nat} (h : i < n) :
    ∃ b, buf.bytes[i]? = some b ∧ buf.read i = .ok b := by
  have hi : i < buf.bytes.length := by rw [buf.length_eq]; exact h
  exact ⟨buf.bytes[i], List.getElem?_eq_getElem hi, by simp [read, List.getElem?_eq_getElem hi]⟩

theorem read_error (buf : CBuffer n) {i : Nat} (h : n ≤ i) : buf.read i = .error ⟨i⟩ := by
  have hi : buf.bytes[i]? = none := List.getElem?_eq_none (by rw [buf.length_eq]; exact h)
  simp [read, hi]

theorem read_get (buf : CBuffer n) {i : Nat} (h : i < n) : buf.read i = .ok (buf.get i) := by
  obtain ⟨b, hb, hread⟩ := buf.read_ok h
  rw [hread, get, hb]
  rfl

/-- A write inside the array changes one byte. -/
theorem write_ok (buf : CBuffer n) {i : Nat} (b : UInt8) (h : i < n) :
    ∃ buf', buf.write i b = .ok buf' ∧ ∀ j, buf'.get j = if j = i then b else buf.get j := by
  refine ⟨_, if_pos h, fun j => ?_⟩
  have hi : i < buf.bytes.length := by rw [buf.length_eq]; exact h
  simp only [get, List.getElem?_set]
  by_cases hj : j = i
  · subst hj
    rw [if_pos rfl, if_pos rfl, if_pos hi]
    rfl
  · rw [if_neg (Ne.symm hj), if_neg hj]

theorem zeroed_get (i : Nat) : (zeroed n).get i = 0 := by
  simp only [get, zeroed, List.getElem?_replicate]
  split
  · rfl
  · rfl

theorem write_error (buf : CBuffer n) {i : Nat} (b : UInt8) (h : n ≤ i) :
    buf.write i b = .error ⟨i⟩ := if_neg (Nat.not_lt.mpr h)

theorem writeFrom_ok (buf : CBuffer n) (i count : Nat) (b : UInt8) (h : i + count ≤ n) :
    ∃ buf', buf.writeFrom i b count = .ok buf' ∧
      ∀ j, buf'.get j = if i ≤ j ∧ j < i + count then b else buf.get j := by
  induction count generalizing buf i with
  | zero => exact ⟨buf, rfl, fun j => (if_neg (by omega)).symm⟩
  | succ count ih =>
    obtain ⟨next, hnext, hbyte⟩ := buf.write_ok b (show i < n by omega)
    obtain ⟨last, hlast, hbytes⟩ := ih next (i + 1) (by omega)
    refine ⟨last, ?_, fun j => ?_⟩
    · rw [writeFrom, hnext]
      exact hlast
    · rw [hbytes, hbyte]
      by_cases hj : j = i
      · rw [if_neg (by omega), if_pos hj, if_pos (by omega)]
      · rw [if_neg hj]
        exact if_congr (by omega) rfl rfl

/-- Reading a range inside the array gives exactly its bytes. -/
theorem string_ok (buf : CBuffer n) (i len : Nat) (h : i + len ≤ n) :
    buf.string i len = .ok ((buf.bytes.drop i).take len) := by
  induction len generalizing i with
  | zero => simp [string]
  | succ len ih =>
    obtain ⟨b, hb, hr⟩ := buf.read_ok (i := i) (by omega)
    have hd : buf.bytes.drop i = b :: buf.bytes.drop (i + 1) := by
      obtain ⟨hlt, he⟩ := List.getElem?_eq_some_iff.mp hb
      rw [List.drop_eq_getElem_cons hlt, he]
    simp only [string, hr, ih (i + 1) (by omega), hd, List.take_succ_cons]
    rfl

/-- Reading a range that leaves the array fails at the array's end. -/
theorem string_error (buf : CBuffer n) (i len : Nat) (hi : i ≤ n) (h : n < i + len) :
    buf.string i len = .error ⟨n⟩ := by
  induction len generalizing i with
  | zero => omega
  | succ len ih =>
    by_cases he : i = n
    · subst he
      simp only [string, buf.read_error (Nat.le_refl i)]
      rfl
    · obtain ⟨b, _, hr⟩ := buf.read_ok (i := i) (by omega)
      simp only [string, hr, ih (i + 1) (by omega) (by omega)]
      rfl

private theorem scan_ok {bs : ByteString} (h : (0 : UInt8) ∈ bs) (i : Nat) :
    ∃ k, k < bs.length ∧ scan bs i = .ok (i + k) ∧ bs.take k = bs.takeWhile (· ≠ 0) := by
  induction bs generalizing i with
  | nil => simp at h
  | cons b bs ih =>
    by_cases hb : b = 0
    · exact ⟨0, by simp, by simp [scan, hb], by simp [hb]⟩
    · obtain ⟨k, hk, hs, ht⟩ := ih (by simpa [Ne.symm hb] using h) (i + 1)
      refine ⟨k + 1, by simpa using hk, ?_, by simp [hb, ht]⟩
      rw [scan, if_neg hb, hs]
      congr 1
      omega

private theorem scan_error {bs : ByteString} (h : (0 : UInt8) ∉ bs) (i : Nat) :
    scan bs i = .error ⟨i + bs.length⟩ := by
  induction bs generalizing i with
  | nil => rfl
  | cons b bs ih =>
    have hb : b ≠ 0 := fun he => h (he ▸ List.mem_cons_self)
    rw [scan, if_neg hb, ih (fun hm => h (List.mem_cons_of_mem _ hm))]
    congr 2
    simp only [List.length_cons]
    omega

/-- A buffer with a zero byte yields the bytes before the first one. -/
theorem cString_ok (buf : CBuffer n) (h : (0 : UInt8) ∈ buf.bytes) :
    buf.cString = .ok (buf.bytes.takeWhile (· ≠ 0)) := by
  obtain ⟨k, hk, hs, ht⟩ := scan_ok h 0
  rw [Nat.zero_add] at hs
  have hk' : 0 + k ≤ n := by have := buf.length_eq; omega
  simp only [cString, strlen, hs]
  rw [← ht]
  exact buf.string_ok 0 k hk'

/-- Without a zero byte the scan runs off the end. -/
theorem cString_error (buf : CBuffer n) (h : (0 : UInt8) ∉ buf.bytes) :
    buf.cString = .error ⟨n⟩ := by
  have hs := scan_error h 0
  rw [Nat.zero_add, buf.length_eq] at hs
  simp only [cString, strlen, hs]
  rfl

end CBuffer
end CoroutineRpc
