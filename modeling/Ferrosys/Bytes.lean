import Ferrosys.Library.Splice

/-! Byte accessors: a read or a write names its offset, its width and its byte order. Every
caller has sized its buffer for the offset it names, so a read past the end, which panics in
the source, answers with zero bytes here.
-/

namespace Ferrosys

open Splice

abbrev Bytes := List UInt8

/-- The byte at `off`. -/
def getU8 (buf : Bytes) (off : Nat) : Nat := (buf[off]?.getD 0).toNat

/-- A little-endian word of two bytes. -/
def getU16 (buf : Bytes) (off : Nat) : Nat := getU8 buf off + getU8 buf (off + 1) * 2 ^ 8

/-- A little-endian word of four bytes. -/
def getU32 (buf : Bytes) (off : Nat) : Nat := getU16 buf off + getU16 buf (off + 2) * 2 ^ 16

/-- A little-endian word of eight bytes. -/
def getU64 (buf : Bytes) (off : Nat) : Nat := getU32 buf off + getU32 buf (off + 4) * 2 ^ 32

/-- A big-endian word of four bytes. -/
def getU32Be (buf : Bytes) (off : Nat) : Nat :=
  ((getU8 buf off * 2 ^ 8 + getU8 buf (off + 1)) * 2 ^ 8 + getU8 buf (off + 2)) * 2 ^ 8
    + getU8 buf (off + 3)

/-- A big-endian word of eight bytes. -/
def getU64Be (buf : Bytes) (off : Nat) : Nat :=
  getU32Be buf off * 2 ^ 32 + getU32Be buf (off + 4)

/-- A word of four bytes, most significant first. -/
def toBeBytes32 (v : Nat) : Bytes :=
  [UInt8.ofNat (v / 2 ^ 24), UInt8.ofNat (v / 2 ^ 16), UInt8.ofNat (v / 2 ^ 8), UInt8.ofNat v]

/-- Words of two, four and eight bytes, least significant first. -/
def toLeBytes16 (v : Nat) : Bytes := [UInt8.ofNat v, UInt8.ofNat (v / 2 ^ 8)]
def toLeBytes32 (v : Nat) : Bytes := toLeBytes16 v ++ toLeBytes16 (v / 2 ^ 16)
def toLeBytes64 (v : Nat) : Bytes := toLeBytes32 v ++ toLeBytes32 (v / 2 ^ 32)

/-- Replace the bytes from `off` on. -/
def putU8 (buf : Bytes) (off v : Nat) : Bytes := splice buf off [UInt8.ofNat v]
def putU16 (buf : Bytes) (off v : Nat) : Bytes := splice buf off (toLeBytes16 v)
def putU32 (buf : Bytes) (off v : Nat) : Bytes := splice buf off (toLeBytes32 v)
def putU32Be (buf : Bytes) (off v : Nat) : Bytes := splice buf off (toBeBytes32 v)

/-- The 64-bit value of two halves. -/
def join64 (lo hi : Nat) : Nat := hi * 2 ^ 32 + lo

theorem getU8_lt (buf : Bytes) (off : Nat) : getU8 buf off < 2 ^ 8 := UInt8.toNat_lt _

theorem getU16_lt (buf : Bytes) (off : Nat) : getU16 buf off < 2 ^ 16 := by
  have low := getU8_lt buf off
  have high := getU8_lt buf (off + 1)
  unfold getU16
  omega

theorem getU32_lt (buf : Bytes) (off : Nat) : getU32 buf off < 2 ^ 32 := by
  have low := getU16_lt buf off
  have high := getU16_lt buf (off + 2)
  unfold getU32
  omega

theorem getU64_lt (buf : Bytes) (off : Nat) : getU64 buf off < 2 ^ 64 := by
  have low := getU32_lt buf off
  have high := getU32_lt buf (off + 4)
  unfold getU64
  omega

/-- Reading behind a list reads what follows it. -/
theorem getU8_append_right (first second : Bytes) (i : Nat)
    : getU8 (first ++ second) (first.length + i) = getU8 second i := by
  rw [getU8, List.getElem?_append_right (Nat.le_add_right _ _), Nat.add_sub_cancel_left, getU8]

theorem getU16_append_right (first second : Bytes) (i : Nat)
    : getU16 (first ++ second) (first.length + i) = getU16 second i := by
  rw [getU16, Nat.add_assoc, getU8_append_right, getU8_append_right, getU16]

theorem getU32_append_right (first second : Bytes) (i : Nat)
    : getU32 (first ++ second) (first.length + i) = getU32 second i := by
  rw [getU32, Nat.add_assoc, getU16_append_right, getU16_append_right, getU32]

/-- Reading a byte apart from what was written reads what was there. -/
theorem getU8_splice_of_apart {buf data : Bytes} {off i : Nat}
    (apart : i < off ∨ off + data.length ≤ i) : getU8 (splice buf off data) i = getU8 buf i := by
  rw [getU8, getElem?_splice, if_neg (by omega), getU8]

/-- Reading a byte that was written reads what was written. -/
theorem getU8_splice {buf data : Bytes} {off : Nat} (room : off + data.length ≤ buf.length)
    {i : Nat} (inside : i < data.length) : getU8 (splice buf off data) (off + i) = getU8 data i := by
  rw [getU8, getElem?_splice, if_pos (by omega), Nat.add_sub_cancel_left, getU8]

@[simp] theorem length_toLeBytes16 (v : Nat) : (toLeBytes16 v).length = 2 := rfl
@[simp] theorem length_toLeBytes32 (v : Nat) : (toLeBytes32 v).length = 4 := rfl
@[simp] theorem length_putU8 (buf : Bytes) (off v : Nat) : (putU8 buf off v).length = buf.length :=
  length_splice _ _ _
@[simp] theorem length_putU16 (buf : Bytes) (off v : Nat) : (putU16 buf off v).length = buf.length :=
  length_splice _ _ _
@[simp] theorem length_putU32 (buf : Bytes) (off v : Nat) : (putU32 buf off v).length = buf.length :=
  length_splice _ _ _

theorem getU16_splice_of_apart {buf data : Bytes} {off i : Nat}
    (apart : i + 2 ≤ off ∨ off + data.length ≤ i)
    : getU16 (splice buf off data) i = getU16 buf i := by
  rw [getU16, getU8_splice_of_apart (by omega), getU8_splice_of_apart (by omega), getU16]

theorem getU32_splice_of_apart {buf data : Bytes} {off i : Nat}
    (apart : i + 4 ≤ off ∨ off + data.length ≤ i)
    : getU32 (splice buf off data) i = getU32 buf i := by
  rw [getU32, getU16_splice_of_apart (by omega), getU16_splice_of_apart (by omega), getU32]

theorem getU16_splice {buf data : Bytes} {off : Nat} (room : off + data.length ≤ buf.length)
    {i : Nat} (inside : i + 2 ≤ data.length)
    : getU16 (splice buf off data) (off + i) = getU16 data i := by
  rw [getU16, getU8_splice room (by omega), Nat.add_assoc, getU8_splice room (by omega), getU16]

theorem getU32_splice {buf data : Bytes} {off : Nat} (room : off + data.length ≤ buf.length)
    {i : Nat} (inside : i + 4 ≤ data.length)
    : getU32 (splice buf off data) (off + i) = getU32 data i := by
  rw [getU32, getU16_splice room (by omega), Nat.add_assoc, getU16_splice room (by omega), getU32]

theorem getU16_toLeBytes16 (v : Nat) : getU16 (toLeBytes16 v) 0 = v % 2 ^ 16 := by
  simp only [getU16, getU8, toLeBytes16, List.getElem?_cons_zero, List.getElem?_cons_succ,
    Option.getD_some, UInt8.toNat_ofNat']
  omega

theorem getU32_toLeBytes32 (v : Nat) : getU32 (toLeBytes32 v) 0 = v % 2 ^ 32 := by
  simp only [getU32, getU16, getU8, toLeBytes32, toLeBytes16, List.cons_append, List.nil_append,
    List.getElem?_cons_zero, List.getElem?_cons_succ, Option.getD_some, UInt8.toNat_ofNat']
  omega

theorem getU16_toLeBytes16_append (v : Nat) (rest : Bytes)
    : getU16 (toLeBytes16 v ++ rest) 0 = v % 2 ^ 16 := by
  simp only [getU16, getU8, toLeBytes16, List.cons_append, List.nil_append,
    List.getElem?_cons_zero, List.getElem?_cons_succ, Option.getD_some, UInt8.toNat_ofNat']
  omega

theorem getU32_toLeBytes32_append (v : Nat) (rest : Bytes)
    : getU32 (toLeBytes32 v ++ rest) 0 = v % 2 ^ 32 := by
  simp only [getU32, getU16, getU8, toLeBytes32, toLeBytes16, List.cons_append, List.nil_append,
    List.getElem?_cons_zero, List.getElem?_cons_succ, Option.getD_some, UInt8.toNat_ofNat']
  omega

theorem getU64_toLeBytes64_append (v : Nat) (rest : Bytes)
    : getU64 (toLeBytes64 v ++ rest) 0 = v % 2 ^ 64 := by
  simp only [getU64, getU32, getU16, getU8, toLeBytes64, toLeBytes32, toLeBytes16,
    List.cons_append, List.nil_append, List.getElem?_cons_zero, List.getElem?_cons_succ,
    Option.getD_some, UInt8.toNat_ofNat']
  omega

/-- A word reads back as it was written, cut to its width. -/
theorem getU16_putU16 {buf : Bytes} {off v : Nat} (room : off + 2 ≤ buf.length)
    : getU16 (putU16 buf off v) off = v % 2 ^ 16 :=
  (getU16_splice room (Nat.le_refl 2)).trans (getU16_toLeBytes16 v)

theorem getU32_putU32 {buf : Bytes} {off v : Nat} (room : off + 4 ≤ buf.length)
    : getU32 (putU32 buf off v) off = v % 2 ^ 32 :=
  (getU32_splice room (Nat.le_refl 4)).trans (getU32_toLeBytes32 v)

theorem getU32_putU32_of_apart {buf : Bytes} {off v i : Nat} (apart : i + 4 ≤ off ∨ off + 4 ≤ i)
    : getU32 (putU32 buf off v) i = getU32 buf i :=
  getU32_splice_of_apart apart

/-- A run of zeros. -/
def zeros (n : Nat) : Bytes := List.replicate n 0

@[simp] theorem length_zeros (n : Nat) : (zeros n).length = n := List.length_replicate

theorem zeros_add (m n : Nat) : zeros (m + n) = zeros m ++ zeros n := List.replicate_add _ _ _

/-- A blank buffer reads as zeros. -/
theorem getU32_replicate (len off : Nat) : getU32 (List.replicate len 0) off = 0 := by
  have zero (i : Nat) : getU8 (List.replicate len 0) i = 0 := by
    unfold getU8
    rw [List.getElem?_replicate]
    split <;> rfl
  simp [getU32, getU16, zero]

end Ferrosys
