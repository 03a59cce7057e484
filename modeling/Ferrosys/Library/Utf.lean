import Mathlib.Data.List.Basic
import Mathlib.Tactic.Linarith

/-! Text as bytes and as 16-bit units: UTF-8 read strictly or with replacements and written, UTF-16
read and written.
-/

namespace Utf

/-- The bytes that follow the first one of a character, between bounds. -/
def follows (low high : Nat) (byte : UInt8) : Bool := low ≤ byte.toNat && byte.toNat ≤ high

/-- The bounds of the byte behind a first byte, and how many bytes follow that one; none where no
character begins with the byte.
-/
def shape (first : Nat) : Option (Nat × Nat × Nat) :=
  if 0xC2 ≤ first ∧ first ≤ 0xDF then some (0x80, 0xBF, 0)
  else if first = 0xE0 then some (0xA0, 0xBF, 1)
  else if first = 0xED then some (0x80, 0x9F, 1)
  else if 0xE1 ≤ first ∧ first ≤ 0xEF then some (0x80, 0xBF, 1)
  else if first = 0xF0 then some (0x90, 0xBF, 2)
  else if 0xF1 ≤ first ∧ first ≤ 0xF3 then some (0x80, 0xBF, 2)
  else if first = 0xF4 then some (0x80, 0x8F, 2)
  else none

/-- The character the bytes begin with and how many it takes, or how many bytes are the longest
beginning of one.
-/
def decodeOne : List UInt8 → Except Nat (Char × Nat)
  | [] => .error 0
  | a :: rest =>
      if a.toNat < 0x80 then .ok (.ofNat a.toNat, 1)
      else
        match shape a.toNat, rest with
        | none, _ | some _, [] => .error 1
        | some (low, high, more), b :: rest =>
            if !follows low high b then .error 1
            else
              match more, rest with
              | 0, _ => .ok (.ofNat ((a.toNat - 0xC0) * 0x40 + (b.toNat - 0x80)), 2)
              | _, [] => .error 2
              | 1, c :: _ =>
                  if follows 0x80 0xBF c then
                    .ok (.ofNat (((a.toNat - 0xE0) * 0x40 + (b.toNat - 0x80)) * 0x40
                      + (c.toNat - 0x80)), 3)
                  else .error 2
              | _, c :: rest =>
                  if !follows 0x80 0xBF c then .error 2
                  else
                    match rest with
                    | [] => .error 3
                    | d :: _ =>
                        if follows 0x80 0xBF d then
                          .ok (.ofNat ((((a.toNat - 0xF0) * 0x40 + (b.toNat - 0x80)) * 0x40
                            + (c.toNat - 0x80)) * 0x40 + (d.toNat - 0x80)), 4)
                        else .error 3

/-- The text of the bytes, `fuel` characters of it at most. -/
def decodeFrom : (fuel : Nat) → List UInt8 → Option (List Char)
  | _, [] => some []
  | 0, _ => none
  | fuel + 1, bytes =>
      match decodeOne bytes with
      | .ok (ch, width) => (decodeFrom fuel (bytes.drop width)).map (ch :: ·)
      | .error _ => none

/-- The text the bytes are, where they are well formed. -/
def decode (bytes : List UInt8) : Option (List Char) := decodeFrom bytes.length bytes

def lossyFrom : (fuel : Nat) → List UInt8 → List Char
  | _, [] => []
  | 0, _ => []
  | fuel + 1, bytes =>
      match decodeOne bytes with
      | .ok (ch, width) => ch :: lossyFrom fuel (bytes.drop width)
      | .error width => '\uFFFD' :: lossyFrom fuel (bytes.drop width)

/-- The text of the bytes, with a replacement character for what is not well formed. -/
def lossy (bytes : List UInt8) : List Char := lossyFrom bytes.length bytes

/-- The one or two 16-bit units of a character. -/
def units (ch : Char) : List UInt16 :=
  if ch.toNat < 0x10000 then [.ofNat ch.toNat]
  else
    [.ofNat (0xD800 + (ch.toNat - 0x10000) / 0x400),
      .ofNat (0xDC00 + (ch.toNat - 0x10000) % 0x400)]

def encodeUtf16 (text : List Char) : List UInt16 := text.flatMap units

/-- The characters 16-bit units spell, none standing for a unit that is half of no pair. -/
def decodeUtf16 : List UInt16 → List (Option Char)
  | [] => []
  | unit :: rest =>
      if unit.toNat < 0xD800 ∨ 0xE000 ≤ unit.toNat then
        some (.ofNat unit.toNat) :: decodeUtf16 rest
      else if 0xDC00 ≤ unit.toNat then none :: decodeUtf16 rest
      else
        match rest with
        | [] => [none]
        | low :: more =>
            if low.toNat < 0xDC00 ∨ 0xE000 ≤ low.toNat then none :: decodeUtf16 (low :: more)
            else
              some (.ofNat (0x10000 + (unit.toNat - 0xD800) * 0x400 + (low.toNat - 0xDC00)))
                :: decodeUtf16 more

/-- The bytes of a text. -/
def encodeUtf8 (text : List Char) : List UInt8 := text.flatMap String.utf8EncodeChar

/-- A unit no character is split into stands for a character of its own. -/
theorem mem_units {ch : Char} {unit : UInt16} (member : unit ∈ units ch)
    (whole : unit.toNat < 0xD800 ∨ 0xE000 ≤ unit.toNat) : ch.toNat = unit.toNat := by
  have last : ch.toNat < 0x110000 := by
    rcases ch.valid with low | ⟨-, high⟩
    · exact low.trans (by decide)
    · exact high
  unfold units at member
  split at member
  case isTrue short =>
    rw [List.mem_singleton] at member
    rw [member, UInt16.toNat_ofNat_of_lt' (by rw [UInt16.size]; exact short)]
  case isFalse long =>
    rcases List.mem_cons.mp member with rfl | member
    · rw [UInt16.toNat_ofNat_of_lt' (by rw [UInt16.size]; omega)] at whole
      omega
    · rw [List.mem_singleton] at member
      rw [member, UInt16.toNat_ofNat_of_lt' (by rw [UInt16.size]; omega)] at whole
      omega

theorem mem_encodeUtf16 {text : List Char} {unit : UInt16} (member : unit ∈ encodeUtf16 text)
    (whole : unit.toNat < 0xD800 ∨ 0xE000 ≤ unit.toNat)
    : ∃ ch ∈ text, ch.toNat = unit.toNat := by
  obtain ⟨ch, inside, member⟩ := List.mem_flatMap.mp member
  exact ⟨ch, inside, mem_units member whole⟩

end Utf

/-! Text written as UTF-8 is the text read back. -/

namespace Utf

/-- The bytes of the character a number stands for. -/
def encodePoint (v : Nat) : List UInt8 :=
  if v ≤ 0x7F then [.ofNat v]
  else if v ≤ 0x7FF then [.ofNat (v / 64 % 0x20 + 0xC0), .ofNat (v % 0x40 + 0x80)]
  else if v ≤ 0xFFFF then
    [.ofNat (v / 4096 % 0x10 + 0xE0), .ofNat (v / 64 % 0x40 + 0x80), .ofNat (v % 0x40 + 0x80)]
  else
    [.ofNat (v / 262144 % 0x08 + 0xF0), .ofNat (v / 4096 % 0x40 + 0x80),
      .ofNat (v / 64 % 0x40 + 0x80), .ofNat (v % 0x40 + 0x80)]

theorem toNat_ofNat {v : Nat} (valid : v.isValidChar) : (Char.ofNat v).toNat = v := by
  rw [Char.ofNat, dif_pos valid]
  rfl

theorem toNat_byte {n : Nat} (fits : n < 256) : (UInt8.ofNat n).toNat = n :=
  UInt8.toNat_ofNat_of_lt' (by rw [UInt8.size]; exact fits)

theorem follows_eq {n low high : Nat} (fits : n < 256) (above : low ≤ n) (below : n ≤ high)
    : follows low high (.ofNat n) = true := by
  rw [follows, toNat_byte fits, decide_eq_true above, decide_eq_true below]
  rfl

/-- The first of two bytes leaves the second the bounds it is within. -/
theorem shape_two {v : Nat} (long : 0x7F < v) (short : v ≤ 0x7FF)
    : shape (v / 64 + 0xC0) = some (0x80, 0xBF, 0) := if_pos (by omega)

/-- The first of three bytes leaves the second bounds it is within, for a number that is half of no
pair.
-/
theorem shape_three {v : Nat} (long : 0x7FF < v) (short : v ≤ 0xFFFF)
    (whole : v < 0xD800 ∨ 0xDFFF < v)
    : ∃ low high, shape (v / 4096 + 0xE0) = some (low, high, 1)
      ∧ low ≤ v / 64 % 0x40 + 0x80 ∧ v / 64 % 0x40 + 0x80 ≤ high := by
  unfold shape
  rw [if_neg (by omega)]
  by_cases first : v / 4096 + 0xE0 = 0xE0
  · exact ⟨_, _, if_pos first, by omega, by omega⟩
  · rw [if_neg first]
    by_cases pairs : v / 4096 + 0xE0 = 0xED
    · exact ⟨_, _, if_pos pairs, by omega, by omega⟩
    · rw [if_neg pairs, if_pos (by omega)]
      exact ⟨_, _, rfl, by omega, by omega⟩

/-- The first of four bytes leaves the second bounds it is within, up to the last character. -/
theorem shape_four {v : Nat} (long : 0xFFFF < v) (last : v < 0x110000)
    : ∃ low high, shape (v / 262144 + 0xF0) = some (low, high, 2)
      ∧ low ≤ v / 4096 % 0x40 + 0x80 ∧ v / 4096 % 0x40 + 0x80 ≤ high := by
  unfold shape
  rw [if_neg (by omega), if_neg (by omega), if_neg (by omega), if_neg (by omega)]
  by_cases first : v / 262144 + 0xF0 = 0xF0
  · exact ⟨_, _, if_pos first, by omega, by omega⟩
  · rw [if_neg first]
    by_cases middle : 0xF1 ≤ v / 262144 + 0xF0 ∧ v / 262144 + 0xF0 ≤ 0xF3
    · exact ⟨_, _, if_pos middle, by omega, by omega⟩
    · rw [if_neg middle, if_pos (by omega)]
      exact ⟨_, _, rfl, by omega, by omega⟩

theorem decodeOne_one {a : UInt8} (short : a.toNat < 0x80) (rest : List UInt8)
    : decodeOne (a :: rest) = .ok (.ofNat a.toNat, 1) := by
  unfold decodeOne
  exact if_pos short

theorem decodeOne_two {a b : UInt8} {low high : Nat} (long : 0x80 ≤ a.toNat)
    (shaped : shape a.toNat = some (low, high, 0)) (near : follows low high b = true)
    (rest : List UInt8)
    : decodeOne (a :: b :: rest)
      = .ok (.ofNat ((a.toNat - 0xC0) * 0x40 + (b.toNat - 0x80)), 2) := by
  unfold decodeOne
  dsimp only
  rw [if_neg (Nat.not_lt.mpr long), shaped]
  simp only [near, Bool.not_true, Bool.false_eq_true, if_false]

theorem decodeOne_three {a b c : UInt8} {low high : Nat} (long : 0x80 ≤ a.toNat)
    (shaped : shape a.toNat = some (low, high, 1)) (near : follows low high b = true)
    (next : follows 0x80 0xBF c = true) (rest : List UInt8)
    : decodeOne (a :: b :: c :: rest)
      = .ok (.ofNat (((a.toNat - 0xE0) * 0x40 + (b.toNat - 0x80)) * 0x40 + (c.toNat - 0x80)),
        3) := by
  unfold decodeOne
  dsimp only
  rw [if_neg (Nat.not_lt.mpr long), shaped]
  simp only [near, next, Bool.not_true, Bool.false_eq_true, if_false, if_true]

theorem decodeOne_four {a b c d : UInt8} {low high : Nat} (long : 0x80 ≤ a.toNat)
    (shaped : shape a.toNat = some (low, high, 2)) (near : follows low high b = true)
    (next : follows 0x80 0xBF c = true) (last : follows 0x80 0xBF d = true) (rest : List UInt8)
    : decodeOne (a :: b :: c :: d :: rest)
      = .ok (.ofNat ((((a.toNat - 0xF0) * 0x40 + (b.toNat - 0x80)) * 0x40 + (c.toNat - 0x80)) * 0x40
        + (d.toNat - 0x80)), 4) := by
  unfold decodeOne
  dsimp only
  rw [if_neg (Nat.not_lt.mpr long), shaped]
  simp only [near, next, last, Bool.not_true, Bool.false_eq_true, if_false, if_true]

/-- The bytes of a number begin with the character it stands for, whatever is behind them. -/
theorem decodeOne_encodePoint {v : Nat} (valid : v.isValidChar) (rest : List UInt8)
    : decodeOne (encodePoint v ++ rest) = .ok (.ofNat v, (encodePoint v).length) := by
  have bounds : v < 0xD800 ∨ 0xDFFF < v ∧ v < 0x110000 := valid
  have tail (n : Nat) : (UInt8.ofNat (n % 0x40 + 0x80)).toNat = n % 0x40 + 0x80 :=
    toNat_byte (by omega)
  have next (n : Nat) : follows 0x80 0xBF (.ofNat (n % 0x40 + 0x80)) = true :=
    follows_eq (by omega) (by omega) (by omega)
  unfold encodePoint
  split
  next one =>
    have byte := toNat_byte (n := v) (by omega)
    rw [List.singleton_append, decodeOne_one (by omega), byte]
    rfl
  next notOne =>
    split
    next two =>
      have byte : (UInt8.ofNat (v / 64 % 0x20 + 0xC0)).toNat = v / 64 + 0xC0 := by
        rw [toNat_byte (by omega)]
        omega
      rw [List.cons_append, List.singleton_append,
        decodeOne_two (by omega) (byte ▸ shape_two (by omega) two) (next v), byte, tail,
        show (v / 64 + 0xC0 - 0xC0) * 0x40 + (v % 0x40 + 0x80 - 0x80) = v by omega]
      rfl
    next notTwo =>
      split
      next three =>
        have byte : (UInt8.ofNat (v / 4096 % 0x10 + 0xE0)).toNat = v / 4096 + 0xE0 := by
          rw [toNat_byte (by omega)]
          omega
        obtain ⟨low, high, shaped, above, below⟩ :=
          shape_three (Nat.not_le.mp notTwo) three (by omega)
        rw [List.cons_append, List.cons_append, List.singleton_append,
          decodeOne_three (by omega) (byte ▸ shaped) (follows_eq (by omega) above below) (next v),
          byte, tail, tail,
          show ((v / 4096 + 0xE0 - 0xE0) * 0x40 + (v / 64 % 0x40 + 0x80 - 0x80)) * 0x40
            + (v % 0x40 + 0x80 - 0x80) = v by omega]
        rfl
      next four =>
        have byte : (UInt8.ofNat (v / 262144 % 0x08 + 0xF0)).toNat = v / 262144 + 0xF0 := by
          rw [toNat_byte (by omega)]
          omega
        obtain ⟨low, high, shaped, above, below⟩ := shape_four (Nat.not_le.mp four) (by omega)
        rw [List.cons_append, List.cons_append, List.cons_append, List.singleton_append,
          decodeOne_four (by omega) (byte ▸ shaped) (follows_eq (by omega) above below) (next _)
            (next v), byte, tail, tail, tail,
          show (((v / 262144 + 0xF0 - 0xF0) * 0x40 + (v / 4096 % 0x40 + 0x80 - 0x80)) * 0x40
            + (v / 64 % 0x40 + 0x80 - 0x80)) * 0x40 + (v % 0x40 + 0x80 - 0x80) = v by omega]
        rfl

theorem encodeChar_eq (ch : Char) : String.utf8EncodeChar ch = encodePoint ch.toNat := rfl

theorem decodeOne_encode (ch : Char) (rest : List UInt8)
    : decodeOne (String.utf8EncodeChar ch ++ rest)
      = .ok (ch, (String.utf8EncodeChar ch).length) := by
  have read := decodeOne_encodePoint (v := ch.toNat) ch.valid rest
  rw [encodeChar_eq, read, Char.ofNat_toNat]

/-- Fuel for each byte is fuel for each character, by induction on the text. -/
theorem decodeFrom_encode {fuel : Nat} {text : List Char} (enough : (encodeUtf8 text).length ≤ fuel)
    : decodeFrom fuel (encodeUtf8 text) = some text := by
  induction text generalizing fuel with
  | nil => cases fuel <;> rfl
  | cons ch rest ih =>
      have split_ : encodeUtf8 (ch :: rest) = String.utf8EncodeChar ch ++ encodeUtf8 rest := rfl
      have some_ : 0 < (String.utf8EncodeChar ch).length :=
        String.length_utf8EncodeChar ch ▸ ch.utf8Size_pos
      rw [split_] at enough ⊢
      rw [List.length_append] at enough
      cases fuel with
      | zero => omega
      | succ fuel =>
          have more : String.utf8EncodeChar ch ++ encodeUtf8 rest ≠ [] := by
            intro nothing
            rw [(List.append_eq_nil_iff.mp nothing).1] at some_
            exact Nat.lt_irrefl _ some_
          have fits : (encodeUtf8 rest).length ≤ fuel := by omega
          rw [decodeFrom, decodeOne_encode]
          · simp only [List.drop_left, ih fits, Option.map_some]
          · exact more

/-- Text written as bytes is read back. -/
theorem decode_encodeUtf8 (text : List Char) : decode (encodeUtf8 text) = some text :=
  decodeFrom_encode (Nat.le_refl _)

end Utf
