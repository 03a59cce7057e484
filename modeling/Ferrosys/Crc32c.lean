import Ferrosys.Bytes

/-! crc32c by slicing: eight bytes a step through eight tables, and the tail a byte at a time
through the first of them.
-/

namespace Ferrosys.Crc32c

/-- The reflected Castagnoli polynomial. -/
def poly : Nat := 0x82F63B78

/-- One bit of polynomial division. -/
def divideBit (crc : Nat) : Nat :=
  if crc &&& 1 ≠ 0 then poly ^^^ (crc >>> 1) else crc >>> 1

/-- Entry `n` of table `k`: what byte `n` contributes when `k` further bytes follow it. -/
def table : (k n : Nat) → Nat
  | 0, n => divideBit (divideBit (divideBit (divideBit
      (divideBit (divideBit (divideBit (divideBit n)))))))
  | k + 1, n =>
      let prev := table k n
      (prev >>> 8) ^^^ table 0 (prev &&& 0xff)

/-- Fold one byte into the running checksum. -/
def step (crc byte : Nat) : Nat := (crc >>> 8) ^^^ table 0 ((crc ^^^ byte) &&& 0xff)

/-- Fold eight bytes in: the first four meet the running checksum, the rest are themselves. -/
def stepWord (crc : Nat) (word : Bytes) : Nat :=
  let low := crc ^^^ getU32 word 0
  table 7 (low &&& 0xff) ^^^ table 6 ((low >>> 8) &&& 0xff) ^^^ table 5 ((low >>> 16) &&& 0xff)
    ^^^ table 4 (low >>> 24) ^^^ table 3 (getU8 word 4) ^^^ table 2 (getU8 word 5)
    ^^^ table 1 (getU8 word 6) ^^^ table 0 (getU8 word 7)

/-- The whole words of `data`, `count` of them, and then what is left over. -/
def run : (count : Nat) → (crc : Nat) → (data : Bytes) → Nat
  | 0, crc, data => data.foldl (fun crc byte => step crc byte.toNat) crc
  | count + 1, crc, data => run count (stepWord crc (data.take 8)) (data.drop 8)

theorem divideBit_lt {crc : Nat} (word : crc < 2 ^ 32) : divideBit crc < 2 ^ 32 := by
  have half : crc >>> 1 < 2 ^ 32 := Nat.lt_of_le_of_lt (Nat.shiftRight_le _ _) word
  unfold divideBit
  split
  · exact Nat.xor_lt_two_pow (by decide) half
  · exact half

/-- An entry of the first table is a word. -/
theorem table_zero_lt {n : Nat} (word : n < 2 ^ 32) : table 0 n < 2 ^ 32 := by
  rw [table]
  exact divideBit_lt (divideBit_lt (divideBit_lt (divideBit_lt
    (divideBit_lt (divideBit_lt (divideBit_lt (divideBit_lt word)))))))

theorem low_byte_lt (n : Nat) : n &&& 0xff < 2 ^ 32 :=
  Nat.lt_of_le_of_lt Nat.and_le_right (by decide)

theorem shiftRight_lt {n : Nat} (word : n < 2 ^ 32) (by_ : Nat) : n >>> by_ < 2 ^ 32 :=
  Nat.lt_of_le_of_lt (Nat.shiftRight_le _ _) word

theorem table_lt (k : Nat) {n : Nat} (word : n < 2 ^ 32) : table k n < 2 ^ 32 := by
  induction k with
  | zero => exact table_zero_lt word
  | succ k ih =>
      rw [table]
      exact Nat.xor_lt_two_pow (shiftRight_lt ih 8) (table_zero_lt (low_byte_lt _))

theorem step_lt {crc : Nat} (word : crc < 2 ^ 32) (byte : Nat) : step crc byte < 2 ^ 32 :=
  Nat.xor_lt_two_pow (shiftRight_lt word 8) (table_zero_lt (low_byte_lt _))

theorem stepWord_lt {crc : Nat} (word : crc < 2 ^ 32) (data : Bytes)
    : stepWord crc data < 2 ^ 32 := by
  have low : crc ^^^ getU32 data 0 < 2 ^ 32 := Nat.xor_lt_two_pow word (getU32_lt _ _)
  have byte (off : Nat) : getU8 data off < 2 ^ 32 := Nat.lt_trans (getU8_lt _ _) (by decide)
  refine Nat.xor_lt_two_pow (Nat.xor_lt_two_pow (Nat.xor_lt_two_pow (Nat.xor_lt_two_pow
    (Nat.xor_lt_two_pow (Nat.xor_lt_two_pow (Nat.xor_lt_two_pow ?_ ?_) ?_) ?_) ?_) ?_) ?_) ?_
  · exact table_lt 7 (low_byte_lt _)
  · exact table_lt 6 (low_byte_lt _)
  · exact table_lt 5 (low_byte_lt _)
  · exact table_lt 4 (shiftRight_lt low 24)
  · exact table_lt 3 (byte 4)
  · exact table_lt 2 (byte 5)
  · exact table_lt 1 (byte 6)
  · exact table_lt 0 (byte 7)

/-- The running checksum stays a word, by induction on the whole words and then on the rest. -/
theorem run_lt (count : Nat) {crc : Nat} (word : crc < 2 ^ 32) (data : Bytes)
    : run count crc data < 2 ^ 32 := by
  induction count generalizing crc data with
  | zero =>
      rw [run]
      induction data generalizing crc with
      | nil => exact word
      | cons byte rest ih => exact ih (step_lt word byte.toNat)
  | succ count ih => exact ih (stepWord_lt word _) _

end Ferrosys.Crc32c

namespace Ferrosys

/-- crc32c of `data`, continued from `seed`, with no inversion at either end. -/
def crc32c (seed : Nat) (data : Bytes) : Nat := Crc32c.run (data.length / 8) seed data

theorem crc32c_lt {seed : Nat} (word : seed < 2 ^ 32) (data : Bytes)
    : crc32c seed data < 2 ^ 32 := Crc32c.run_lt _ word data

end Ferrosys
