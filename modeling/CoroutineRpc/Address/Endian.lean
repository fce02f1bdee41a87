import Mathlib.Data.BitVec

/-! The byte order of the machine. A value in network order is swapped on a little-endian
machine and left alone on a big-endian one, which the bitwise operations do not notice. -/
namespace CoroutineRpc.Address

inductive Endian where
  | little
  | big
  deriving DecidableEq, Repr

def bswap32 (x : BitVec 32) : BitVec 32 :=
  x.extractLsb' 0 8 ++ x.extractLsb' 8 8 ++ x.extractLsb' 16 8 ++ x.extractLsb' 24 8

/-- `byteswapOnLittleEndian` of a 32-bit value. -/
def byteswapOnLittleEndian (e : Endian) (x : BitVec 32) : BitVec 32 :=
  match e with
  | .little => bswap32 x
  | .big => x

def bswap16 (x : BitVec 16) : BitVec 16 := x.extractLsb' 0 8 ++ x.extractLsb' 8 8

/-- The same of a 16-bit value. -/
def byteswapOnLittleEndian16 (e : Endian) (x : BitVec 16) : BitVec 16 :=
  match e with
  | .little => bswap16 x
  | .big => x

theorem bswap16_append (a b : BitVec 8) : bswap16 (a ++ b) = b ++ a := by
  apply BitVec.eq_of_getLsbD_eq
  intro i hi
  unfold bswap16
  simp only [BitVec.getLsbD_append, BitVec.getLsbD_extractLsb']
  grind

private theorem bswap16_bswap16 (x : BitVec 16) : bswap16 (bswap16 x) = x := by
  have htwice : bswap16 (bswap16 x) = x.extractLsb' 8 8 ++ x.extractLsb' 0 8 := bswap16_append _ _
  rw [htwice]
  apply BitVec.eq_of_getLsbD_eq
  intro i hi
  simp only [BitVec.getLsbD_append, BitVec.getLsbD_extractLsb']
  grind

theorem bswap32_getLsbD (x : BitVec 32) {i : Nat} (h : i < 32) :
    (bswap32 x).getLsbD i = x.getLsbD (24 - i / 8 * 8 + i % 8) := by
  unfold bswap32
  simp only [BitVec.getLsbD_append, BitVec.getLsbD_extractLsb']
  split
  · grind
  · grind

private theorem bswap32_bswap32 (x : BitVec 32) : bswap32 (bswap32 x) = x := by
  apply BitVec.eq_of_getLsbD_eq
  intro i hi
  rw [bswap32_getLsbD _ hi, bswap32_getLsbD _ (by omega)]
  congr 1
  omega

private theorem bswap32_and (x y : BitVec 32) : bswap32 (x &&& y) = bswap32 x &&& bswap32 y := by
  apply BitVec.eq_of_getLsbD_eq
  intro i hi
  rw [BitVec.getLsbD_and, bswap32_getLsbD _ hi, bswap32_getLsbD _ hi, bswap32_getLsbD _ hi,
    BitVec.getLsbD_and]

private theorem bswap32_or (x y : BitVec 32) : bswap32 (x ||| y) = bswap32 x ||| bswap32 y := by
  apply BitVec.eq_of_getLsbD_eq
  intro i hi
  rw [BitVec.getLsbD_or, bswap32_getLsbD _ hi, bswap32_getLsbD _ hi, bswap32_getLsbD _ hi,
    BitVec.getLsbD_or]

private theorem bswap32_not (x : BitVec 32) : bswap32 (~~~x) = ~~~bswap32 x := by
  apply BitVec.eq_of_getLsbD_eq
  intro i hi
  have hj : 24 - i / 8 * 8 + i % 8 < 32 := by omega
  rw [BitVec.getLsbD_not, bswap32_getLsbD _ hi, bswap32_getLsbD _ hi, BitVec.getLsbD_not,
    decide_eq_true hi, decide_eq_true hj]

variable (e : Endian)

@[simp] theorem byteswap16_byteswap16 (x : BitVec 16) :
    byteswapOnLittleEndian16 e (byteswapOnLittleEndian16 e x) = x := by
  cases e with
  | little => exact bswap16_bswap16 x
  | big => rfl

theorem byteswap16_eq_zero (x : BitVec 16) : byteswapOnLittleEndian16 e x = 0 ↔ x = 0 := by
  have hzero : byteswapOnLittleEndian16 e 0 = 0 := by
    cases e with
    | little => decide
    | big => rfl
  constructor
  · intro h
    rw [← byteswap16_byteswap16 e x, h, hzero]
  · rintro rfl
    exact hzero

@[simp] theorem byteswap_byteswap (x : BitVec 32) :
    byteswapOnLittleEndian e (byteswapOnLittleEndian e x) = x := by
  cases e with
  | little => exact bswap32_bswap32 x
  | big => rfl

@[simp] theorem byteswap_and (x y : BitVec 32) : byteswapOnLittleEndian e (x &&& y) =
    byteswapOnLittleEndian e x &&& byteswapOnLittleEndian e y := by
  cases e with
  | little => exact bswap32_and x y
  | big => rfl

@[simp] theorem byteswap_or (x y : BitVec 32) : byteswapOnLittleEndian e (x ||| y) =
    byteswapOnLittleEndian e x ||| byteswapOnLittleEndian e y := by
  cases e with
  | little => exact bswap32_or x y
  | big => rfl

@[simp] theorem byteswap_not (x : BitVec 32) : byteswapOnLittleEndian e (~~~x) =
    ~~~byteswapOnLittleEndian e x := by
  cases e with
  | little => exact bswap32_not x
  | big => rfl

end CoroutineRpc.Address
