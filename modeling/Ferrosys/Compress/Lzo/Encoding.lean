import Ferrosys.Compress.Lzo

/-! The LZO1X encoding by its table, and that the decoder reads an instruction where the encoding of
one stands.
-/

namespace Ferrosys.Compress.Lzo

open Checked Machine

/-- The extension worth `count`: zero bytes, and what they leave in the byte that ends it. -/
def extended (count : Nat) : Bytes :=
  List.replicate ((count - 1) / 255) 0 ++ [UInt8.ofNat (count - (count - 1) / 255 * 255)]

/-- A length's field of the first byte: the length where it fits, and zero where it does not. -/
def field (width value : Nat) : Nat := if value < 2 ^ width then value else 0

/-- What a length that does not fit its field has behind the first byte. -/
def extra (width value : Nat) : Bytes :=
  if value < 2 ^ width then [] else extended (value - (2 ^ width - 1))

/-- The rows of the table that copy. -/
inductive Row where
  | afterFew
  | afterMany
  | farthest
  | wide
  | short
  | long
deriving DecidableEq

/-- The distances and lengths of a row, and after how many literals it may stand. -/
def Row.Fits (copied : Copied) (distance length : Nat) : Row → Prop
  | afterFew => copied = .few ∧ length = 2 ∧ 1 ≤ distance ∧ distance ≤ 1024
  | afterMany => copied = .many ∧ length = 3 ∧ 2049 ≤ distance ∧ distance ≤ 3072
  | farthest => 3 ≤ length ∧ 16385 ≤ distance ∧ distance ≤ 49151
  | wide => 3 ≤ length ∧ 1 ≤ distance ∧ distance ≤ 16384
  | short => 3 ≤ length ∧ length ≤ 4 ∧ 1 ≤ distance ∧ distance ≤ 2048
  | long => 5 ≤ length ∧ length ≤ 8 ∧ 1 ≤ distance ∧ distance ≤ 2048

instance (copied : Copied) (distance length : Nat) (row : Row)
    : Decidable (row.Fits copied distance length) := by
  cases row <;> unfold Row.Fits <;> infer_instance

theorem Row.pos {copied : Copied} {distance length : Nat} {row : Row}
    (fits : row.Fits copied distance length) : 0 < distance := by
  cases row <;> simp only [Row.Fits] at fits <;> omega

/-- A row's bytes, with the number of literals behind it in their low two bits. -/
def Row.header (distance length count : Nat) : Row → Bytes
  | afterFew =>
      [UInt8.ofNat ((distance - 1) % 4 * 4 + count), UInt8.ofNat ((distance - 1) / 4)]
  | afterMany =>
      [UInt8.ofNat ((distance - 2049) % 4 * 4 + count), UInt8.ofNat ((distance - 2049) / 4)]
  | farthest =>
      UInt8.ofNat (16 + (distance - 16384) / 2 ^ 14 * 8 + field 3 (length - 2))
        :: (extra 3 (length - 2) ++ toLeBytes16 ((distance - 16384) % 2 ^ 14 * 4 + count))
  | wide =>
      UInt8.ofNat (32 + field 5 (length - 2))
        :: (extra 5 (length - 2) ++ toLeBytes16 ((distance - 1) * 4 + count))
  | short =>
      [UInt8.ofNat (64 + (length - 3) * 32 + (distance - 1) % 8 * 4 + count),
        UInt8.ofNat ((distance - 1) / 8)]
  | long =>
      [UInt8.ofNat (128 + (length - 5) * 32 + (distance - 1) % 8 * 4 + count),
        UInt8.ofNat ((distance - 1) / 8)]

/-- A run of literals, or a copy with the literals behind it. -/
inductive Item where
  | run (bytes : Bytes)
  | copy (row : Row) (distance length : Nat) (bytes : Bytes)
deriving DecidableEq

namespace Item

/-- What an item encodes, after so many literals, is in the table's range. -/
def Fits (copied : Copied) : Item → Prop
  | run bytes => copied = .none ∧ 4 ≤ bytes.length
  | copy row distance length bytes => row.Fits copied distance length ∧ bytes.length ≤ 3

instance (copied : Copied) (item : Item) : Decidable (item.Fits copied) := by
  cases item <;> unfold Fits <;> infer_instance

/-- The bytes of an item before its literals. -/
def header : Item → Bytes
  | run bytes => UInt8.ofNat (field 4 (bytes.length - 3)) :: extra 4 (bytes.length - 3)
  | copy row distance length bytes => row.header distance length bytes.length

def bytes : Item → Bytes
  | run bytes => bytes
  | copy _ _ _ bytes => bytes

def encode (item : Item) : Bytes := item.header ++ item.bytes

theorem encode_pos (item : Item) : 0 < item.encode.length := by
  rw [encode, List.length_append]
  cases item with
  | run bytes => simp [header]
  | copy row distance length bytes => cases row <;> simp [header, Row.header]

/-- The item as the decoder reads it. -/
def instruction : Item → Instruction
  | run bytes => .literals bytes.length
  | copy _ distance length bytes => .copy distance length bytes.length

/-- What an item leaves for the next one to know. -/
def after (item : Item) : Copied := .after item.bytes.length

/-- The copy of an item, where it has one, reaches into what is already there. -/
def Reaches (produced : Bytes) : Item → Prop
  | run _ => True
  | copy _ distance _ _ => distance ≤ produced.length

instance (produced : Bytes) (item : Item) : Decidable (item.Reaches produced) := by
  cases item <;> unfold Reaches <;> infer_instance

/-- How many bytes a copy repeats. -/
def repeated : Item → Nat
  | run _ => 0
  | copy _ _ length _ => length

/-- The copy, and the literals behind it. -/
def expand (produced : Bytes) : Item → Bytes
  | run bytes => produced ++ bytes
  | copy _ distance length bytes => Lz77.repeatFrom produced distance length ++ bytes

end Item

/-- The end: the farthest row at a distance of exactly 16384, whatever length and literals it
names.
-/
def ending (length count : Nat) : Bytes :=
  UInt8.ofNat (16 + field 3 (length - 2)) :: (extra 3 (length - 2) ++ toLeBytes16 count)

theorem field_lt (width value : Nat) : field width value < 2 ^ width := by
  unfold field
  split
  · assumption
  · exact Nat.two_pow_pos _

/-- The extension's turns, by induction on its zero bytes. -/
theorem run_extend {input rest : Bytes} {b : UInt8} (small : input.length < 2 ^ 63)
    (last : b ≠ 0) (zeros : Nat) {read total turns : Nat}
    (left : input.drop read = List.replicate zeros 0 ++ b :: rest) (enough : zeros < turns)
    (fits : total + zeros * 255 + b.toNat < 2 ^ 64)
    : Loop.run (extend input) turns (read, total)
        = some (.ok (total + zeros * 255 + b.toNat, read + zeros + 1))
      ∧ input.drop (read + zeros + 1) = rest := by
  induction zeros generalizing read total turns with
  | zero =>
      obtain ⟨here, behind⟩ := byte_of_drop small left
      cases turns with
      | zero => omega
      | succ turns =>
          have stops : extend input (read, total)
              = .stop (.ok (total + b.toNat, read + 1)) := by
            unfold extend
            dsimp only
            rw [here, ok_bind]
            dsimp only
            have sum : checkedAdd total b.toNat = some (total + b.toNat) := if_pos (by omega)
            rw [if_neg last, sum]
            change Loop.orStop (.ok (if b = 0 then _ else _)) = _
            rw [if_neg last]
            rfl
          rw [Loop.run, stops, Nat.zero_mul, Nat.add_zero, Nat.add_zero]
          exact ⟨rfl, behind⟩
  | succ zeros ih =>
      rw [List.replicate_succ, List.cons_append] at left
      obtain ⟨here, behind⟩ := byte_of_drop small left
      cases turns with
      | zero => omega
      | succ turns =>
          have goes : extend input (read, total) = .go (read + 1, total + 255) := by
            unfold extend
            dsimp only
            rw [here, ok_bind]
            dsimp only
            have sum : checkedAdd total 255 = some (total + 255) := if_pos (by omega)
            rw [if_pos rfl, sum]
            rfl
          obtain ⟨later, behind⟩ : Loop.run (extend input) turns (read + 1, total + 255) = _ ∧ _ :=
            ih behind (by omega) (by omega)
          rw [Loop.run, goes]
          dsimp only
          rw [later, show total + 255 + zeros * 255 = total + (zeros + 1) * 255 by omega,
            show read + 1 + zeros + 1 = read + (zeros + 1) + 1 by omega]
          rw [show read + 1 + zeros + 1 = read + (zeros + 1) + 1 by omega] at behind
          exact ⟨rfl, behind⟩

/-- An extension that stands in the stream is read for what it is worth. -/
theorem extension_of_drop {input rest : Bytes} {read count : Nat} (small : input.length < 2 ^ 63)
    (pos : 0 < count) (fits : count < 2 ^ 64)
    (left : input.drop read = extended count ++ rest)
    : extension input read = .ok (count, read + (extended count).length)
      ∧ input.drop (read + (extended count).length) = rest := by
  have value : (UInt8.ofNat (count - (count - 1) / 255 * 255)).toNat
      = count - (count - 1) / 255 * 255 := toNat_ofNat (by omega)
  have length : (extended count).length = (count - 1) / 255 + 1 := by
    simp [extended]
  have last : UInt8.ofNat (count - (count - 1) / 255 * 255) ≠ 0 := by
    intro zero
    rw [zero] at value
    change 0 = _ at value
    omega
  have inside : (count - 1) / 255 < input.length + 1 := by
    have same := congrArg List.length left
    rw [List.length_drop, List.length_append, length] at same
    omega
  rw [extended, List.append_assoc, List.singleton_append] at left
  have total : 0 + (count - 1) / 255 * 255
      + (UInt8.ofNat (count - (count - 1) / 255 * 255)).toNat < 2 ^ 64 := by
    rw [value]
    omega
  obtain ⟨ran, behind⟩ := run_extend small last ((count - 1) / 255) left inside total
  rw [length, ← Nat.add_assoc, extension, ran, value]
  refine ⟨?_, behind⟩
  rw [show 0 + (count - 1) / 255 * 255 + (count - (count - 1) / 255 * 255) = count by omega]
  rfl

/-- A length is read from its field, and the extension behind it. -/
theorem length_of_drop (width base value : Nat) {input rest : Bytes} {read bits : Nat}
    (small : input.length < 2 ^ 63) (pos : 0 < value) (fits : value + base < 2 ^ 64)
    (packed : bits % 2 ^ width = field width value)
    (left : input.drop read = extra width value ++ rest)
    : length input read bits width base
        = .ok (value + base, read + (extra width value).length)
      ∧ input.drop (read + (extra width value).length) = rest := by
  unfold length
  dsimp only
  have based : checkedAdd value base = some (value + base) := if_pos fits
  unfold field at packed
  unfold extra at left ⊢
  by_cases inside : value < 2 ^ width
  · rw [if_pos inside] at packed left ⊢
    rw [if_neg (by omega), packed]
    change (okOr (checkedAdd value base) _ >>= fun n => _) = _ ∧ _
    rw [based]
    exact ⟨rfl, left⟩
  · rw [if_neg inside] at packed left ⊢
    have two := Nat.two_pow_pos width
    obtain ⟨more, behind⟩ := extension_of_drop small (by omega) (by omega) left
    rw [if_pos packed, more]
    have whole : checkedAdd (2 ^ width - 1) (value - (2 ^ width - 1)) = some value := by
      unfold checkedAdd
      rw [if_pos (by omega), Nat.add_sub_of_le (by omega)]
    refine ⟨?_, behind⟩
    rw [ok_bind]
    dsimp only
    rw [whole]
    change (okOr (checkedAdd value base) _ >>= fun n => _) = _
    rw [based]
    rfl

/-- A word that stands in the stream is read. -/
theorem word_of_value {input rest : Bytes} {read value : Nat} (small : input.length < 2 ^ 63)
    (fits : value < 2 ^ 16) (left : input.drop read = toLeBytes16 value ++ rest)
    : word input read = .ok (value, read + 2) ∧ input.drop (read + 2) = rest := by
  obtain ⟨stored, left⟩ := word_of_drop small left
  have low : (UInt8.ofNat value).toNat = value % 256 := UInt8.toNat_ofNat'
  have high : (UInt8.ofNat (value / 2 ^ 8)).toNat = value / 256 := toNat_ofNat (by omega)
  rw [low, high, show value % 256 + value / 256 * 256 = value by omega] at stored
  exact ⟨stored, left⟩

/-- Where a row stands, the decoder reads its copy. -/
theorem instruction_of_row {input rest : Bytes} {read distance length count : Nat}
    {copied : Copied} {row : Row} (small : input.length < 2 ^ 63) (few : count ≤ 3)
    (fits : row.Fits copied distance length) (bounded : length < 2 ^ 63)
    (left : input.drop read = row.header distance length count ++ rest)
    : instruction input read copied
        = .ok (.copy distance length count,
          read + (row.header distance length count).length)
      ∧ input.drop (read + (row.header distance length count).length) = rest := by
  cases row with
  | afterFew =>
      obtain ⟨rfl, rfl, low, high⟩ := fits
      obtain ⟨one, left⟩ := byte_of_drop small left
      obtain ⟨two, left⟩ := byte_of_drop small left
      have first : (UInt8.ofNat ((distance - 1) % 4 * 4 + count)).toNat
          = (distance - 1) % 4 * 4 + count := toNat_ofNat (by omega)
      have second : (UInt8.ofNat ((distance - 1) / 4)).toNat = (distance - 1) / 4 :=
        toNat_ofNat (by omega)
      have fields : (distance - 1) / 4 * 4 + ((distance - 1) % 4 * 4 + count) / 4 % 4 + 1
          = distance ∧ ((distance - 1) % 4 * 4 + count) % 4 = count := by omega
      refine ⟨?_, left⟩
      unfold instruction
      rw [one, ok_bind]
      dsimp only
      rw [first, if_pos (by omega), if_neg nofun, two, ok_bind]
      dsimp only
      rw [if_pos rfl, second, fields.1, fields.2]
      rfl
  | afterMany =>
      obtain ⟨rfl, rfl, low, high⟩ := fits
      obtain ⟨one, left⟩ := byte_of_drop small left
      obtain ⟨two, left⟩ := byte_of_drop small left
      have first : (UInt8.ofNat ((distance - 2049) % 4 * 4 + count)).toNat
          = (distance - 2049) % 4 * 4 + count := toNat_ofNat (by omega)
      have second : (UInt8.ofNat ((distance - 2049) / 4)).toNat = (distance - 2049) / 4 :=
        toNat_ofNat (by omega)
      have fields : (distance - 2049) / 4 * 4 + ((distance - 2049) % 4 * 4 + count) / 4 % 4 + 2049
          = distance ∧ ((distance - 2049) % 4 * 4 + count) % 4 = count := by omega
      refine ⟨?_, left⟩
      unfold instruction
      rw [one, ok_bind]
      dsimp only
      rw [first, if_pos (by omega), if_neg nofun, two, ok_bind]
      dsimp only
      rw [if_neg nofun, second, fields.1, fields.2]
      rfl
  | farthest =>
      obtain ⟨long, low, high⟩ := fits
      have narrow := field_lt 3 (length - 2)
      rw [Row.header, List.cons_append, List.append_assoc] at left
      obtain ⟨one, left⟩ := byte_of_drop small left
      have first : (UInt8.ofNat (16 + (distance - 16384) / 2 ^ 14 * 8 + field 3 (length - 2))).toNat
          = 16 + (distance - 16384) / 2 ^ 14 * 8 + field 3 (length - 2) := toNat_ofNat (by omega)
      have packed : (16 + (distance - 16384) / 2 ^ 14 * 8 + field 3 (length - 2)) % 2 ^ 3
          = field 3 (length - 2) := by omega
      obtain ⟨sized, left⟩ := length_of_drop 3 2 (length - 2) small (by omega) (by omega) packed left
      obtain ⟨stored, left⟩ := word_of_value small (by omega) left
      have fields : 16384
          + (16 + (distance - 16384) / 2 ^ 14 * 8 + field 3 (length - 2)) / 8 % 2 * 2 ^ 14
          + ((distance - 16384) % 2 ^ 14 * 4 + count) / 4 = distance
          ∧ ((distance - 16384) % 2 ^ 14 * 4 + count) % 4 = count ∧ length - 2 + 2 = length := by
        omega
      have whole : read + (Row.farthest.header distance length count).length
          = read + 1 + (extra 3 (length - 2)).length + 2 := by
        simp [Row.header, toLeBytes16]
        omega
      rw [whole]
      refine ⟨?_, left⟩
      unfold instruction
      rw [one, ok_bind]
      dsimp only
      rw [first, if_neg (by omega), if_pos (by omega), sized, ok_bind]
      dsimp only
      rw [stored, ok_bind]
      dsimp only
      rw [fields.1, fields.2.1, fields.2.2, if_neg (by omega)]
      rfl
  | wide =>
      obtain ⟨long, low, high⟩ := fits
      have narrow := field_lt 5 (length - 2)
      rw [Row.header, List.cons_append, List.append_assoc] at left
      obtain ⟨one, left⟩ := byte_of_drop small left
      have first : (UInt8.ofNat (32 + field 5 (length - 2))).toNat
          = 32 + field 5 (length - 2) := toNat_ofNat (by omega)
      have packed : (32 + field 5 (length - 2)) % 2 ^ 5 = field 5 (length - 2) := by omega
      obtain ⟨sized, left⟩ := length_of_drop 5 2 (length - 2) small (by omega) (by omega) packed left
      obtain ⟨stored, left⟩ := word_of_value small (by omega) left
      have fields : ((distance - 1) * 4 + count) / 4 + 1 = distance
          ∧ ((distance - 1) * 4 + count) % 4 = count ∧ length - 2 + 2 = length := by omega
      have whole : read + (Row.wide.header distance length count).length
          = read + 1 + (extra 5 (length - 2)).length + 2 := by
        simp [Row.header, toLeBytes16]
        omega
      rw [whole]
      refine ⟨?_, left⟩
      unfold instruction
      rw [one, ok_bind]
      dsimp only
      rw [first, if_neg (by omega), if_neg (by omega), if_pos (by omega), sized, ok_bind]
      dsimp only
      rw [stored, ok_bind]
      dsimp only
      rw [fields.1, fields.2.1, fields.2.2]
      rfl
  | short =>
      obtain ⟨least, most, low, high⟩ := fits
      obtain ⟨one, left⟩ := byte_of_drop small left
      obtain ⟨two, left⟩ := byte_of_drop small left
      have first : (UInt8.ofNat (64 + (length - 3) * 32 + (distance - 1) % 8 * 4 + count)).toNat
          = 64 + (length - 3) * 32 + (distance - 1) % 8 * 4 + count := toNat_ofNat (by omega)
      have second : (UInt8.ofNat ((distance - 1) / 8)).toNat = (distance - 1) / 8 :=
        toNat_ofNat (by omega)
      have fields : (distance - 1) / 8 * 8
          + (64 + (length - 3) * 32 + (distance - 1) % 8 * 4 + count) / 4 % 8 + 1 = distance
          ∧ 3 + (64 + (length - 3) * 32 + (distance - 1) % 8 * 4 + count) / 32 % 2 = length
          ∧ (64 + (length - 3) * 32 + (distance - 1) % 8 * 4 + count) % 4 = count := by omega
      refine ⟨?_, left⟩
      unfold instruction far
      rw [one, ok_bind]
      dsimp only
      rw [first, if_neg (by omega), if_neg (by omega), if_neg (by omega), if_pos (by omega), two,
        ok_bind]
      dsimp only
      rw [second, fields.1, fields.2.1, fields.2.2]
      rfl
  | long =>
      obtain ⟨least, most, low, high⟩ := fits
      obtain ⟨one, left⟩ := byte_of_drop small left
      obtain ⟨two, left⟩ := byte_of_drop small left
      have first : (UInt8.ofNat (128 + (length - 5) * 32 + (distance - 1) % 8 * 4 + count)).toNat
          = 128 + (length - 5) * 32 + (distance - 1) % 8 * 4 + count := toNat_ofNat (by omega)
      have second : (UInt8.ofNat ((distance - 1) / 8)).toNat = (distance - 1) / 8 :=
        toNat_ofNat (by omega)
      have fields : (distance - 1) / 8 * 8
          + (128 + (length - 5) * 32 + (distance - 1) % 8 * 4 + count) / 4 % 8 + 1 = distance
          ∧ 5 + (128 + (length - 5) * 32 + (distance - 1) % 8 * 4 + count) / 32 % 4 = length
          ∧ (128 + (length - 5) * 32 + (distance - 1) % 8 * 4 + count) % 4 = count := by omega
      refine ⟨?_, left⟩
      unfold instruction far
      rw [one, ok_bind]
      dsimp only
      rw [first, if_neg (by omega), if_neg (by omega), if_neg (by omega), if_neg (by omega), two,
        ok_bind]
      dsimp only
      rw [second, fields.1, fields.2.1, fields.2.2]
      rfl

/-- Where an item stands, the decoder reads it. -/
theorem instruction_of_item {input rest : Bytes} {read : Nat} {copied : Copied} {item : Item}
    (small : input.length < 2 ^ 63) (fits : item.Fits copied)
    (literal : item.bytes.length < 2 ^ 63) (bounded : item.repeated < 2 ^ 63)
    (left : input.drop read = item.header ++ rest)
    : instruction input read copied = .ok (item.instruction, read + item.header.length)
      ∧ input.drop (read + item.header.length) = rest := by
  cases item with
  | run bytes =>
      obtain ⟨rfl, four⟩ := fits
      change bytes.length < 2 ^ 63 at literal
      have narrow := field_lt 4 (bytes.length - 3)
      rw [Item.header, List.cons_append] at left
      obtain ⟨one, left⟩ := byte_of_drop small left
      have first : (UInt8.ofNat (field 4 (bytes.length - 3))).toNat
          = field 4 (bytes.length - 3) := toNat_ofNat (by omega)
      have packed : field 4 (bytes.length - 3) % 2 ^ 4 = field 4 (bytes.length - 3) := by omega
      obtain ⟨sized, left⟩ := length_of_drop 4 3 (bytes.length - 3) small (by omega) (by omega)
        packed left
      have whole : read + (Item.run bytes).header.length
          = read + 1 + (extra 4 (bytes.length - 3)).length := by
        simp [Item.header]
        omega
      rw [whole]
      refine ⟨?_, left⟩
      unfold instruction
      rw [one, ok_bind]
      dsimp only
      rw [first, if_pos (by omega), if_pos rfl, sized, ok_bind,
        show bytes.length - 3 + 3 = bytes.length by omega]
      rfl
  | copy row distance length bytes => exact instruction_of_row small fits.2 fits.1 bounded left

/-- Where the end stands, the decoder reads it, whatever else it names. -/
theorem instruction_of_ending {input rest : Bytes} {read length count : Nat} {copied : Copied}
    (small : input.length < 2 ^ 63) (least : 3 ≤ length) (most : length < 2 ^ 64)
    (few : count ≤ 3) (left : input.drop read = ending length count ++ rest)
    : instruction input read copied = .ok (.ended, read + (ending length count).length)
      ∧ input.drop (read + (ending length count).length) = rest := by
  have narrow := field_lt 3 (length - 2)
  rw [ending, List.cons_append, List.append_assoc] at left
  obtain ⟨one, left⟩ := byte_of_drop small left
  have first : (UInt8.ofNat (16 + field 3 (length - 2))).toNat = 16 + field 3 (length - 2) :=
    toNat_ofNat (by omega)
  have packed : (16 + field 3 (length - 2)) % 2 ^ 3 = field 3 (length - 2) := by omega
  obtain ⟨sized, left⟩ := length_of_drop 3 2 (length - 2) small (by omega) (by omega) packed left
  obtain ⟨stored, left⟩ := word_of_value small (by omega) left
  have whole : read + (ending length count).length
      = read + 1 + (extra 3 (length - 2)).length + 2 := by
    simp [ending, toLeBytes16]
    omega
  rw [whole]
  refine ⟨?_, left⟩
  unfold instruction
  rw [one, ok_bind]
  dsimp only
  rw [first, if_neg (by omega), if_pos (by omega), sized, ok_bind]
  dsimp only
  rw [stored, ok_bind]
  dsimp only
  rw [if_pos (by omega)]
  rfl

end Ferrosys.Compress.Lzo
