import Ferrosys.Fat.Read

/-! A file allocation table held whole: which entries a copy has room for, the entry read out of
one, and the entry written into one.
-/

namespace Ferrosys.Fat

open Splice

section
variable {short long : Bytes}

/-- What a buffer begins with is read from it alone. -/
theorem getU8_of_begins (begins : short <+: long) {i : Nat} (room : i + 1 ≤ short.length)
    : getU8 short i = getU8 long i := by
  obtain ⟨rest, rfl⟩ := begins
  rw [getU8, getU8, List.getElem?_append_left room]

theorem getU16_of_begins (begins : short <+: long) {i : Nat} (room : i + 2 ≤ short.length)
    : getU16 short i = getU16 long i := by
  rw [getU16, getU16, getU8_of_begins begins (by omega), getU8_of_begins begins (by omega)]

theorem getU32_of_begins (begins : short <+: long) {i : Nat} (room : i + 4 ≤ short.length)
    : getU32 short i = getU32 long i := by
  rw [getU32, getU32, getU16_of_begins begins (by omega), getU16_of_begins begins (by omega)]

/-- An entry is read from the bytes it touches alone. -/
theorem readEntry_of_begins (begins : short <+: long) {fatType : FatType} (cluster : Nat)
    (room : entrySpan fatType ≤ short.length)
    : readEntry fatType short cluster = readEntry fatType long cluster := by
  have longer := begins.length_le
  unfold readEntry
  rw [if_pos room, if_pos (room.trans longer)]
  cases fatType with
  | fat12 => rw [getU16_of_begins begins room]
  | fat16 => rw [getU16_of_begins begins room]
  | fat32 => rw [getU32_of_begins begins room]

end

/-- Of two writes of one length at one place the last is left. -/
theorem splice_splice {buf first second : Bytes} {at_ : Nat} (same : first.length = second.length)
    : splice (splice buf at_ first) at_ second = splice buf at_ second := by
  apply List.ext_getElem?
  intro i
  simp only [getElem?_splice, length_splice, same]
  by_cases inside : at_ ≤ i ∧ i < at_ + second.length ∧ i < buf.length
  · rw [if_pos inside, if_pos inside]
  · rw [if_neg inside, if_neg inside, if_neg inside]

theorem getU8_drop (buf : Bytes) (at_ i : Nat) : getU8 (buf.drop at_) i = getU8 buf (at_ + i) := by
  rw [getU8, getU8, List.getElem?_drop]

theorem getU16_drop (buf : Bytes) (at_ i : Nat)
    : getU16 (buf.drop at_) i = getU16 buf (at_ + i) := by
  rw [getU16, getU16, getU8_drop, getU8_drop, Nat.add_assoc]

theorem getU32_drop (buf : Bytes) (at_ i : Nat)
    : getU32 (buf.drop at_) i = getU32 buf (at_ + i) := by
  rw [getU32, getU32, getU16_drop, getU16_drop, Nat.add_assoc]

namespace Table

/-- A table of `bytes` bytes holds an entry for `cluster`. The sum is checked, so a number large
enough to wrap it is refused rather than answered for another entry.
-/
def fits (fatType : FatType) (cluster bytes : Nat) : Bool :=
  let stop := entryOffset fatType cluster + entrySpan fatType
  stop < 2 ^ 64 && stop ≤ bytes

/-- The entry for `cluster`, read from a whole table. -/
def readEntry (fatType : FatType) (table : Bytes) (cluster : Nat) : Option Nat :=
  if fits fatType cluster table.length then
    let off := entryOffset fatType cluster
    some
      (match fatType with
      | .fat12 =>
          let pair := getU16 table off
          if cluster % 2 = 0 then pair &&& 0xFFF else pair / 2 ^ 4
      | .fat16 => getU16 table off
      | .fat32 => getU32 table off &&& entryMask .fat32)
  else none

/-- No 32-bit number wraps the offset of its entry. -/
theorem entryOffset_lt {fatType : FatType} {cluster : Nat} (narrow : cluster < 2 ^ 32)
    : entryOffset fatType cluster + entrySpan fatType < 2 ^ 64 := by
  cases fatType <;> simp only [entryOffset, entrySpan] <;> omega

theorem fits_iff {fatType : FatType} {cluster bytes : Nat} (narrow : cluster < 2 ^ 32)
    : fits fatType cluster bytes = true
      ↔ entryOffset fatType cluster + entrySpan fatType ≤ bytes := by
  simp only [fits, Bool.and_eq_true, decide_eq_true_eq, entryOffset_lt narrow, true_and]

/-- A table whose bits count an entry past `cluster` has the whole of its entry: FAT12's two bytes
included, of which an even number's second is shared with the next.
-/
theorem fits_of_bits {fatType : FatType} {cluster bytes : Nat} (narrow : cluster < 2 ^ 32)
    (held : (cluster + 1) * fatType.entryBits ≤ bytes * 8)
    : fits fatType cluster bytes = true := by
  refine (fits_iff narrow).mpr ?_
  cases fatType <;> simp only [entryOffset, entrySpan, FatType.entryBits] at held ⊢ <;> omega

/-- An entry the table has is the one that begins at its offset. -/
theorem readEntry_eq_of_fits {fatType : FatType} {table : Bytes} {cluster : Nat}
    (held : fits fatType cluster table.length = true)
    : readEntry fatType table cluster
      = Fat.readEntry fatType (table.drop (entryOffset fatType cluster)) cluster := by
  have room : entrySpan fatType ≤ (table.drop (entryOffset fatType cluster)).length := by
    simp only [fits, Bool.and_eq_true, decide_eq_true_eq] at held
    rw [List.length_drop]
    omega
  unfold readEntry Fat.readEntry
  rw [if_pos held, if_pos room]
  cases fatType with
  | fat12 =>
      simp only [getU16_drop, Nat.add_zero]
      rcases Nat.mod_two_eq_zero_or_one cluster with even | odd
      · simp [even]
      · simp [odd]
  | fat16 => simp only [getU16_drop, Nat.add_zero]
  | fat32 => simp only [getU32_drop, Nat.add_zero]

/-- Write `value` into the entry for `cluster`: whether the table had room, and the table. FAT12's
neighbour keeps its half of the byte the two share, and FAT32's top four bits stay as they are.
-/
def writeEntry (fatType : FatType) (table : Bytes) (cluster value : Nat) : Bool × Bytes :=
  if fits fatType cluster table.length then
    let off := entryOffset fatType cluster
    (true,
      match fatType with
      | .fat12 =>
          let value := value &&& 0xFFF
          if cluster % 2 = 0 then
            let table := putU8 table off value
            let keep := getU8 table (off + 1) &&& 0xF0
            putU8 table (off + 1) (keep ||| value / 2 ^ 8)
          else
            let keep := getU8 table off &&& 0x0F
            let table := putU8 table off (keep ||| (value * 2 ^ 4 &&& 0xF0))
            putU8 table (off + 1) (value / 2 ^ 4)
      | .fat16 => putU16 table off value
      | .fat32 =>
          -- What lies outside the mask is the reserved bits of a 32-bit word.
          let reserved := getU32 table off &&& 0xF0000000
          putU32 table off (reserved ||| (value &&& entryMask .fat32)))
  else (false, table)

/-- Masking a word's high bits clears its low ones. -/
theorem and_high {word low high : Nat} (narrow : word < 2 ^ (low + high))
    : word &&& (2 ^ high - 1) <<< low = word / 2 ^ low * 2 ^ low := by
  apply Nat.eq_of_testBit_eq
  intro i
  rw [Nat.testBit_and, Nat.testBit_shiftLeft, Nat.testBit_two_pow_sub_one, ← Nat.shiftLeft_eq,
    Nat.testBit_shiftLeft, ← Nat.shiftRight_eq_div_pow, Nat.testBit_shiftRight]
  by_cases upper : low ≤ i
  · rw [Nat.add_sub_cancel' upper]
    by_cases inside : i < low + high
    · simp [upper, (by omega : i - low < high)]
    · have clear : word.testBit i = false :=
        Nat.testBit_lt_two_pow (narrow.trans_le (Nat.pow_le_pow_right (by decide) (by omega)))
      simp [clear]
  · simp [upper]

/-- A kept high half beside a new low half. -/
theorem or_high {word low high field : Nat} (narrow : word < 2 ^ (low + high))
    (fitting : field < 2 ^ low)
    : word &&& (2 ^ high - 1) <<< low ||| field = word / 2 ^ low * 2 ^ low + field := by
  rw [and_high narrow, ← Nat.shiftLeft_eq, Nat.shiftLeft_add_eq_or_of_lt fitting]

/-- A kept low half beside a new high half. -/
theorem or_low (byte value : Nat)
    : byte &&& 0x0F ||| (value * 2 ^ 4 &&& 0xF0) = value % 2 ^ 4 * 2 ^ 4 + byte % 2 ^ 4 := by
  have low : byte &&& 0x0F = byte % 2 ^ 4 := Nat.and_two_pow_sub_one_eq_mod byte 4
  have high : value * 2 ^ 4 &&& 0xF0 = (value % 2 ^ 4) <<< 4 := by
    rw [show 0xF0 = (2 ^ 4 - 1) <<< 4 from rfl, ← Nat.shiftLeft_eq, ← Nat.shiftLeft_and_distrib,
      Nat.and_two_pow_sub_one_eq_mod]
  rw [low, high, Nat.or_comm, ← Nat.shiftLeft_add_eq_or_of_lt (Nat.mod_lt _ (by decide)),
    Nat.shiftLeft_eq]

/-- Writing two bytes one by one is writing the word they spell. -/
theorem putU8_putU8 {table : Bytes} {off first second word : Nat} (room : off + 2 ≤ table.length)
    (low : word % 2 ^ 8 = first % 2 ^ 8) (high : word / 2 ^ 8 % 2 ^ 8 = second % 2 ^ 8)
    : putU8 (putU8 table off first) (off + 1) second = putU16 table off word := by
  have joined : splice (splice table off [UInt8.ofNat first]) (off + 1) [UInt8.ofNat second]
      = splice table off ([UInt8.ofNat first] ++ [UInt8.ofNat second]) :=
    splice_behind rfl (by
      rw [List.length_singleton, List.length_singleton]
      omega)
  have spelt : toLeBytes16 word = [UInt8.ofNat first] ++ [UInt8.ofNat second] := by
    have first_ : UInt8.ofNat word = UInt8.ofNat first := by
      apply UInt8.toNat.inj
      rw [UInt8.toNat_ofNat', UInt8.toNat_ofNat', low]
    have second_ : UInt8.ofNat (word / 2 ^ 8) = UInt8.ofNat second := by
      apply UInt8.toNat.inj
      rw [UInt8.toNat_ofNat', UInt8.toNat_ofNat', high]
    rw [toLeBytes16, first_, second_]
    rfl
  rw [putU8, putU8, joined, putU16, spelt]

/-- The word an entry is written as: the bits that are not the entry's are those found there. -/
def entryWord (fatType : FatType) (cluster word value : Nat) : Nat :=
  match fatType with
  | .fat12 =>
      if cluster % 2 = 0 then word / 2 ^ 12 * 2 ^ 12 + value % 2 ^ 12
      else value % 2 ^ 12 * 2 ^ 4 + word % 2 ^ 4
  | .fat16 => value
  | .fat32 => word / 2 ^ 28 * 2 ^ 28 + value % 2 ^ 28

/-- The word at an offset, as wide as the type's entries are read. -/
def getWord : FatType → Bytes → Nat → Nat
  | .fat12 | .fat16 => getU16
  | .fat32 => getU32

/-- Writing a word as wide as the type's entries are read. -/
def putWord : FatType → Bytes → Nat → Nat → Bytes
  | .fat12 | .fat16 => putU16
  | .fat32 => putU32

/-- An entry that fits has the bytes its read touches. -/
theorem room_of_fits {fatType : FatType} {cluster bytes : Nat}
    (held : fits fatType cluster bytes = true)
    : entryOffset fatType cluster + entrySpan fatType ≤ bytes := by
  simp only [fits, Bool.and_eq_true, decide_eq_true_eq] at held
  exact held.2

/-- Writing an entry is writing one word, for every type. -/
theorem writeEntry_eq {fatType : FatType} {table : Bytes} {cluster : Nat} (value : Nat)
    (held : fits fatType cluster table.length = true)
    : writeEntry fatType table cluster value
      = (true, putWord fatType table (entryOffset fatType cluster)
          (entryWord fatType cluster (getWord fatType table (entryOffset fatType cluster))
            value)) := by
  have room := room_of_fits held
  rw [writeEntry, if_pos held]
  refine congrArg (Prod.mk true) ?_
  cases fatType with
  | fat12 =>
      have cut : value &&& 0xFFF = value % 2 ^ 12 := Nat.and_two_pow_sub_one_eq_mod value 12
      have bound : value % 2 ^ 12 < 2 ^ 12 := Nat.mod_lt _ (by decide)
      have first := getU8_lt table (entryOffset .fat12 cluster)
      have second := getU8_lt table (entryOffset .fat12 cluster + 1)
      dsimp only [putWord, getWord, entryWord]
      rw [cut, getU16]
      generalize value % 2 ^ 12 = value at bound ⊢
      generalize entryOffset .fat12 cluster = off at room first second ⊢
      by_cases even : cluster % 2 = 0
      · have kept : getU8 (putU8 table off value) (off + 1) = getU8 table (off + 1) :=
          getU8_splice_of_apart (.inr (Nat.le_refl _))
        have half : value / 2 ^ 8 < 2 ^ 4 := by omega
        rw [if_pos even, if_pos even, kept, show (0xF0 : Nat) = (2 ^ 4 - 1) <<< 4 from rfl,
          or_high second half]
        exact putU8_putU8 room (by omega) (by omega)
      · rw [if_neg even, if_neg even, or_low]
        exact putU8_putU8 room (by omega) (by omega)
  | fat16 => rfl
  | fat32 =>
      have cut : value &&& entryMask .fat32 = value % 2 ^ 28 :=
        Nat.and_two_pow_sub_one_eq_mod value 28
      have bound : value % 2 ^ 28 < 2 ^ 28 := Nat.mod_lt _ (by decide)
      have narrow := getU32_lt table (entryOffset .fat32 cluster)
      dsimp only [putWord, getWord, entryWord]
      rw [cut, show (0xF0000000 : Nat) = (2 ^ 4 - 1) <<< 28 from rfl, or_high narrow bound]

section
variable {fatType : FatType} {table : Bytes} {cluster : Nat}

@[simp] theorem length_putWord (off word : Nat)
    : (putWord fatType table off word).length = table.length := by
  cases fatType <;> simp [putWord]

/-- No write changes the length of a table. -/
theorem length_writeEntry (value : Nat)
    : (writeEntry fatType table cluster value).2.length = table.length := by
  by_cases held : fits fatType cluster table.length = true
  · rw [writeEntry_eq value held, length_putWord]
  · rw [writeEntry, if_neg held]

/-- The bytes of what was written are the word's. -/
theorem getWord_putWord {off : Nat} (word : Nat) (room : off + entrySpan fatType ≤ table.length)
    : getWord fatType (putWord fatType table off word) off
      = word % 2 ^ (8 * entrySpan fatType) := by
  cases fatType with
  | fat12 => exact getU16_putU16 room
  | fat16 => exact getU16_putU16 room
  | fat32 => exact getU32_putU32 room

/-- The entry a word holds. -/
def entryOf (fatType : FatType) (cluster word : Nat) : Nat :=
  match fatType with
  | .fat12 => if cluster % 2 = 0 then word % 2 ^ 12 else word / 2 ^ 4
  | .fat16 => word
  | .fat32 => word % 2 ^ 28

theorem readEntry_eq (held : fits fatType cluster table.length = true)
    : readEntry fatType table cluster
      = some (entryOf fatType cluster (getWord fatType table (entryOffset fatType cluster))) := by
  rw [readEntry, if_pos held]
  cases fatType with
  | fat12 =>
      simp only [entryOf, getWord]
      rw [show (0xFFF : Nat) = 2 ^ 12 - 1 from rfl, Nat.and_two_pow_sub_one_eq_mod]
  | fat16 => rfl
  | fat32 => exact congrArg some (Nat.and_two_pow_sub_one_eq_mod _ 28)

/-- A word is no wider than the bytes it was read from. -/
theorem getWord_lt (off : Nat) : getWord fatType table off < 2 ^ (8 * entrySpan fatType) := by
  cases fatType with
  | fat12 => exact getU16_lt table off
  | fat16 => exact getU16_lt table off
  | fat32 => exact getU32_lt table off

/-- An entry's word holds the value it was made from, cut to the type's width. -/
theorem entryOf_entryWord (cluster value : Nat) {word : Nat}
    (narrow : word < 2 ^ (8 * entrySpan fatType))
    : entryOf fatType cluster (entryWord fatType cluster word value % 2 ^ (8 * entrySpan fatType))
      = value &&& entryMask fatType := by
  cases fatType with
  | fat12 =>
      have narrow : word < 2 ^ 16 := narrow
      have cut : value &&& entryMask .fat12 = value % 2 ^ 12 :=
        Nat.and_two_pow_sub_one_eq_mod value 12
      dsimp only [entryOf, entryWord, entrySpan]
      split <;> omega
  | fat16 => exact (Nat.and_two_pow_sub_one_eq_mod value 16).symm
  | fat32 =>
      have narrow : word < 2 ^ 32 := narrow
      have cut : value &&& entryMask .fat32 = value % 2 ^ 28 :=
        Nat.and_two_pow_sub_one_eq_mod value 28
      rw [cut]
      change (word / 2 ^ 28 * 2 ^ 28 + value % 2 ^ 28) % 2 ^ 32 % 2 ^ 28 = value % 2 ^ 28
      omega

/-- A word apart from the entry's is the one that was there. -/
theorem getWord_putWord_of_apart {off i : Nat} (word : Nat)
    (apart : i + entrySpan fatType ≤ off ∨ off + entrySpan fatType ≤ i)
    : getWord fatType (putWord fatType table off word) i = getWord fatType table i := by
  cases fatType with
  | fat12 => exact getU16_splice_of_apart apart
  | fat16 => exact getU16_splice_of_apart apart
  | fat32 => exact getU32_splice_of_apart apart

/-- The other entry of a FAT12 pair keeps its half of the byte the two share. -/
theorem entryOf_of_shared {other : Nat} (value : Nat) (different : other ≠ cluster)
    (shared : other / 2 = cluster / 2) (room : entryOffset .fat12 cluster + 2 ≤ table.length)
    : entryOf .fat12 other
        (getU16
          (putU16 table (entryOffset .fat12 cluster)
            (entryWord .fat12 cluster (getU16 table (entryOffset .fat12 cluster)) value))
          (entryOffset .fat12 other))
      = entryOf .fat12 other (getU16 table (entryOffset .fat12 other)) := by
  have bound : value % 2 ^ 12 < 2 ^ 12 := Nat.mod_lt _ (by decide)
  dsimp only [entryOf, entryWord]
  generalize value % 2 ^ 12 = value at bound ⊢
  rcases Nat.mod_two_eq_zero_or_one cluster with even | odd
  · have after : other = cluster + 1 := by omega
    have next : entryOffset .fat12 other = entryOffset .fat12 cluster + 1 := by
      simp only [entryOffset]
      omega
    rw [if_pos even, if_neg (by omega : ¬other % 2 = 0), if_neg (by omega : ¬other % 2 = 0), next]
    generalize entryOffset .fat12 cluster = off at room ⊢
    generalize made : getU16 table off / 2 ^ 12 * 2 ^ 12 + value = word
    have written : getU16 (putU16 table off word) off = word % 2 ^ 16 := getU16_putU16 room
    have behind : getU8 (putU16 table off word) (off + 1 + 1) = getU8 table (off + 1 + 1) :=
      getU8_splice_of_apart (.inr (Nat.le_refl _))
    have low := getU8_lt (putU16 table off word) off
    have first := getU8_lt table off
    have second := getU8_lt table (off + 1)
    have parts : getU16 table off = getU8 table off + getU8 table (off + 1) * 2 ^ 8 := rfl
    rw [getU16] at written
    rw [getU16, getU16, behind]
    omega
  · have before : cluster = other + 1 := by omega
    have next : entryOffset .fat12 cluster = entryOffset .fat12 other + 1 := by
      simp only [entryOffset]
      omega
    rw [next] at room
    rw [if_neg (by omega : ¬cluster % 2 = 0), if_pos (by omega : other % 2 = 0),
      if_pos (by omega : other % 2 = 0), next]
    generalize entryOffset .fat12 other = off at room ⊢
    generalize made : value * 2 ^ 4 + getU16 table (off + 1) % 2 ^ 4 = word
    have written : getU16 (putU16 table (off + 1) word) (off + 1) = word % 2 ^ 16 :=
      getU16_putU16 room
    have ahead : getU8 (putU16 table (off + 1) word) off = getU8 table off :=
      getU8_splice_of_apart (.inl (Nat.lt_succ_self _))
    have low := getU8_lt (putU16 table (off + 1) word) (off + 1)
    have first := getU8_lt table (off + 1)
    have parts : getU16 table (off + 1)
        = getU8 table (off + 1) + getU8 table (off + 1 + 1) * 2 ^ 8 := rfl
    rw [getU16] at written
    rw [getU16, getU16, ahead]
    omega

/-- Writing one entry leaves the word of every other with the entry it held. -/
theorem entryOf_putWord_of_ne {other : Nat} (value : Nat) (different : other ≠ cluster)
    (room : entryOffset fatType cluster + entrySpan fatType ≤ table.length)
    : entryOf fatType other
        (getWord fatType
          (putWord fatType table (entryOffset fatType cluster)
            (entryWord fatType cluster (getWord fatType table (entryOffset fatType cluster)) value))
          (entryOffset fatType other))
      = entryOf fatType other (getWord fatType table (entryOffset fatType other)) := by
  by_cases apart : entryOffset fatType other + entrySpan fatType ≤ entryOffset fatType cluster
      ∨ entryOffset fatType cluster + entrySpan fatType ≤ entryOffset fatType other
  · rw [getWord_putWord_of_apart _ apart]
  · cases fatType with
    | fat12 =>
        simp only [entryOffset, entrySpan] at apart
        exact entryOf_of_shared value different (by omega) room
    | fat16 =>
        simp only [entryOffset, entrySpan] at apart
        omega
    | fat32 =>
        simp only [entryOffset, entrySpan] at apart
        omega

/-- Writing a word over a word is writing the last. -/
theorem putWord_putWord (off first second : Nat)
    : putWord fatType (putWord fatType table off first) off second
      = putWord fatType table off second := by
  cases fatType <;> exact splice_splice rfl

/-- What a word becomes depends on the bits outside the entry alone. -/
theorem entryWord_entryWord (cluster first second : Nat) {word : Nat}
    (narrow : word < 2 ^ (8 * entrySpan fatType))
    : entryWord fatType cluster
        (entryWord fatType cluster word first % 2 ^ (8 * entrySpan fatType)) second
      = entryWord fatType cluster word second := by
  cases fatType with
  | fat12 =>
      have narrow : word < 2 ^ 16 := narrow
      dsimp only [entryWord, entrySpan]
      split <;> omega
  | fat16 => rfl
  | fat32 =>
      have narrow : word < 2 ^ 32 := narrow
      change (word / 2 ^ 28 * 2 ^ 28 + first % 2 ^ 28) % 2 ^ 32 / 2 ^ 28 * 2 ^ 28 + second % 2 ^ 28
        = word / 2 ^ 28 * 2 ^ 28 + second % 2 ^ 28
      omega

/-- What a write leaves of the table's other entries. -/
theorem readEntry_writeEntry_of_ne {other : Nat} (value : Nat) (different : other ≠ cluster)
    : readEntry fatType (writeEntry fatType table cluster value).2 other
      = readEntry fatType table other := by
  by_cases held : fits fatType cluster table.length = true
  · have same := @length_writeEntry fatType table cluster value
    by_cases fitting : fits fatType other table.length = true
    · rw [readEntry_eq (by rw [same]; exact fitting), readEntry_eq fitting,
        writeEntry_eq value held, entryOf_putWord_of_ne value different (room_of_fits held)]
    · rw [readEntry, same, if_neg fitting, readEntry, if_neg fitting]
  · rw [writeEntry, if_neg held]

/-- A FAT32 write keeps the top four bits of its own word, and every other word. -/
theorem reserved_writeEntry (value index : Nat)
    : getU32 (writeEntry .fat32 table cluster value).2 (entryOffset .fat32 index) / 2 ^ 28
      = getU32 table (entryOffset .fat32 index) / 2 ^ 28 := by
  by_cases held : fits .fat32 cluster table.length = true
  · rw [writeEntry_eq value held]
    by_cases own : index = cluster
    · subst own
      have narrow := getU32_lt table (entryOffset .fat32 index)
      refine (congrArg (· / 2 ^ 28) (getU32_putU32 (room_of_fits held))).trans ?_
      change (getU32 table (entryOffset .fat32 index) / 2 ^ 28 * 2 ^ 28 + value % 2 ^ 28) % 2 ^ 32
          / 2 ^ 28 = _
      omega
    · have apart : entryOffset .fat32 index + 4 ≤ entryOffset .fat32 cluster
          ∨ entryOffset .fat32 cluster + 4 ≤ entryOffset .fat32 index := by
        simp only [entryOffset]
        omega
      exact congrArg (· / 2 ^ 28) (getU32_putU32_of_apart apart)
  · rw [writeEntry, if_neg held]

/-- Of two writes of one entry the last is left. -/
theorem writeEntry_writeEntry (value again : Nat)
    : writeEntry fatType (writeEntry fatType table cluster value).2 cluster again
      = writeEntry fatType table cluster again := by
  by_cases held : fits fatType cluster table.length = true
  · have room := room_of_fits held
    have still : fits fatType cluster (writeEntry fatType table cluster value).2.length = true := by
      rw [length_writeEntry]
      exact held
    rw [writeEntry_eq again still, writeEntry_eq again held, writeEntry_eq value held,
      putWord_putWord, getWord_putWord _ room, entryWord_entryWord _ _ _ (getWord_lt _)]
  · have unchanged : (writeEntry fatType table cluster value).2 = table := by
      rw [writeEntry, if_neg held]
    rw [unchanged]

/-- A write sets its own entry, to the value cut to the type's width, and no other: not its pair's
in FAT12, nor FAT32's reserved bits. A second write stands in place of the first, and one the table
has no room for changes nothing.
-/
theorem writeEntry_sets (fatType : FatType) (table : Bytes) (cluster value : Nat)
    : (writeEntry fatType table cluster value).1 = fits fatType cluster table.length
      ∧ (fits fatType cluster table.length = true
        → readEntry fatType (writeEntry fatType table cluster value).2 cluster
          = some (value &&& entryMask fatType))
      ∧ (∀ other, other ≠ cluster
        → readEntry fatType (writeEntry fatType table cluster value).2 other
          = readEntry fatType table other)
      ∧ (∀ index,
        getU32 (writeEntry .fat32 table cluster value).2 (entryOffset .fat32 index) / 2 ^ 28
          = getU32 table (entryOffset .fat32 index) / 2 ^ 28)
      ∧ (∀ again, writeEntry fatType (writeEntry fatType table cluster value).2 cluster again
        = writeEntry fatType table cluster again)
      ∧ (fits fatType cluster table.length = false
        → writeEntry fatType table cluster value = (false, table)) := by
  refine ⟨?_, ?_, fun _ different => readEntry_writeEntry_of_ne value different,
    reserved_writeEntry value, writeEntry_writeEntry value, ?_⟩
  · by_cases held : fits fatType cluster table.length = true
    · rw [writeEntry_eq value held, held]
    · rw [writeEntry, if_neg held, Bool.eq_false_iff.mpr held]
  · intro held
    have still : fits fatType cluster (writeEntry fatType table cluster value).2.length = true := by
      rw [length_writeEntry]
      exact held
    rw [readEntry_eq still, writeEntry_eq value held, getWord_putWord _ (room_of_fits held),
      entryOf_entryWord _ _ (getWord_lt _)]
  · intro refused
    rw [writeEntry, if_neg (by simp [refused])]

end

end Table

/-- The entries one table indexes, before they are counted in 32 bits. -/
def FatLayout.tableEntries (self : FatLayout) : Nat :=
  let bytes := self.fatSectors * self.bytesPerSector
  match self.fatType with
  | .fat12 => bytes * 2 / 3
  | .fat16 => bytes / 2
  | .fat32 => bytes / 4

theorem FatLayout.maxTableEntries_eq (self : FatLayout)
    : self.maxTableEntries = min self.tableEntries u32Max := rfl

/-- A table has the whole of an entry exactly where it indexes the entry, both of FAT12's two bytes
included.
-/
theorem FatLayout.lt_tableEntries_iff (self : FatLayout) {cluster : Nat}
    : cluster < self.tableEntries
      ↔ entryOffset self.fatType cluster + entrySpan self.fatType
        ≤ self.fatSectors * self.bytesPerSector := by
  cases kind : self.fatType <;> simp only [tableEntries, kind, entryOffset, entrySpan] <;> omega

end Ferrosys.Fat
