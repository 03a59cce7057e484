import Ferrosys.Compress
import Ferrosys.Library.Loop

/-! LZO1X, decoded: a stream of instructions, each a run of literals or a copy with up to three
literals behind it, up to an end.
-/

namespace Ferrosys.Compress.Lzo

open Checked Machine

/-- What a stream says it is wrong about. -/
def malformed {α : Type} (fault : String) : Decoded α := refuse (.malformed .lzo fault)

/-- A length too long to count. -/
def lengthOverflows : Fault Error :=
  .refused (.malformed .lzo "a length extension overflows")

/-- How far reading and writing have reached, and the output. -/
structure Decoder where
  read : Nat
  out : Bytes
  written : Nat

/-- How many literals an instruction copied. -/
inductive Copied where
  | none
  | few
  | many
deriving DecidableEq

/-- What copying `count` literals leaves. -/
def Copied.after (count : Nat) : Copied :=
  if count = 0 then .none else if count ≤ 3 then .few else .many

/-- One instruction, read and not yet carried out. -/
inductive Instruction where
  | literals (count : Nat)
  | copy (distance length literals : Nat)
  | ended
deriving DecidableEq

/-- One byte of the stream, and where the next one is. -/
def byte (input : Bytes) (read : Nat) : Decoded (UInt8 × Nat) :=
  match input[read]? with
  | some b => do return (b, ← plus read 1)
  | none => malformed "an instruction reads past the end of the stream"

/-- The little-endian word two of the copy rows carry. -/
def word (input : Bytes) (read : Nat) : Decoded (Nat × Nat) := do
  let (low, read) ← byte input read
  let (high, read) ← byte input read
  return (low.toNat + high.toNat * 256, read)

/-- One byte of a length's extension: zero is worth 255, any other byte itself, and ends it. -/
def extend (input : Bytes) (state : Nat × Nat) : Loop.Next (Nat × Nat) (Decoded (Nat × Nat)) :=
  Loop.orStop do
    let (read, total) := state
    let (b, read) ← byte input read
    let step := if b = 0 then 255 else b.toNat
    let total ← okOr (checkedAdd total step) lengthOverflows
    return if b = 0 then .go (read, total) else .stop (.ok (total, read))

/-- A length's extension past the field that could not hold it. Each turn reads a byte. -/
def extension (input : Bytes) (read : Nat) : Decoded (Nat × Nat) :=
  (Loop.run (extend input) (input.length + 1) (read, 0)).getD (.error .panicked)

/-- A length by the variable-length rule, and the row's `base` on top. -/
def length (input : Bytes) (read bits width base : Nat) : Decoded (Nat × Nat) := do
  let largest := 2 ^ width - 1
  let (field, read) ←
    if bits % 2 ^ width = 0 then do
      let (more, read) ← extension input read
      pure (← okOr (checkedAdd largest more) lengthOverflows, read)
    else pure (bits % 2 ^ width, read)
  return (← okOr (checkedAdd field base) lengthOverflows, read)

/-- The distance the two widest rows share. -/
def far (input : Bytes) (read bits : Nat) : Decoded (Nat × Nat) := do
  let (high, read) ← byte input read
  return (high.toNat * 8 + bits / 4 % 8 + 1, read)

/-- One instruction, read by the row of the table its first byte falls in. -/
def instruction (input : Bytes) (read : Nat) (copied : Copied)
    : Decoded (Instruction × Nat) := do
  let (first, read) ← byte input read
  let bits := first.toNat
  if bits ≤ 15 then
    if copied = .none then do
      let (count, read) ← length input read bits 4 3
      return (.literals count, read)
    else do
      let (high, read) ← byte input read
      let near := high.toNat * 4 + bits / 4 % 4
      if copied = .few then return (.copy (near + 1) 2 (bits % 4), read)
      else return (.copy (near + 2049) 3 (bits % 4), read)
  else if bits ≤ 31 then do
    let (length, read) ← length input read bits 3 2
    let (word, read) ← word input read
    let distance := 16384 + bits / 8 % 2 * 2 ^ 14 + word / 4
    if distance = 16384 then return (.ended, read)
    else return (.copy distance length (word % 4), read)
  else if bits ≤ 63 then do
    let (length, read) ← length input read bits 5 2
    let (word, read) ← word input read
    return (.copy (word / 4 + 1) length (word % 4), read)
  else if bits ≤ 127 then do
    let (distance, read) ← far input read bits
    return (.copy distance (3 + bits / 32 % 2) (bits % 4), read)
  else do
    let (distance, read) ← far input read bits
    return (.copy distance (5 + bits / 32 % 4) (bits % 4), read)

/-- Copy `count` bytes from the stream straight into the output. -/
def literals (input : Bytes) (decoder : Decoder) (count : Nat) : Decoded Decoder := do
  let bytes ← okOr ((checkedAdd decoder.read count).bind (getRange input decoder.read))
    (.refused (.malformed .lzo "a literal run reads past the end of the stream"))
  let _ ← okOr ((checkedAdd decoder.written count).bind (getRange decoder.out decoder.written))
    (.refused (.overrun .lzo decoder.out.length))
  let out ← copyFromSlice decoder.out decoder.written (decoder.written + count) bytes
  return ⟨← plus decoder.read count, out, ← plus decoder.written count⟩

/-- Repeat `count` bytes of the output beginning `distance` back. -/
def repeat_ (decoder : Decoder) (distance count : Nat) : Decoded Decoder :=
  if distance = 0 ∨ decoder.written < distance then
    malformed "a copy names bytes before the start of the output"
  else do
    let room ← minus decoder.out.length decoder.written
    if room < count then refuse (.overrun .lzo decoder.out.length)
    else do
      let (out, _) ← copyBack decoder.out decoder.written distance count
      return { decoder with out, written := ← plus decoder.written count }

/-- The first byte's own form: from 18 up, a literal run of that byte less 17. -/
def opening (input : Bytes) (decoder : Decoder) : Decoded (Decoder × Copied) :=
  match input[0]? with
  | some first =>
      if 18 ≤ first.toNat then do
        let decoder := { decoder with read := ← plus decoder.read 1 }
        let count := first.toNat - 17
        return (← literals input decoder count, .after count)
      else .ok (decoder, .none)
  | none => .ok (decoder, .none)

/-- One instruction, carried out, or the end. -/
def turn (input : Bytes) (state : Decoder × Copied)
    : Loop.Next (Decoder × Copied) (Decoded (Nat × Bytes)) :=
  Loop.orStop do
    let (decoder, copied) := state
    let (instruction, read) ← instruction input decoder.read copied
    let decoder := { decoder with read }
    match instruction with
    | .literals count => return .go (← literals input decoder count, .after count)
    | .copy distance length count =>
        let decoder ← repeat_ decoder distance length
        return .go (← literals input decoder count, .after count)
    | .ended =>
        if decoder.read = input.length then return .stop (.ok (decoder.written, decoder.out))
        else malformed "bytes follow the end of the stream"

/-- Every instruction in the stream, until its end. Each turn reads a byte at least. -/
def run (input : Bytes) (decoder : Decoder) : Decoded (Nat × Bytes) := do
  let state ← opening input decoder
  (Loop.run (turn input) (input.length + 1) state).getD (.error .panicked)

/-- Undo one stream into `out`: how many bytes it produced, and the output. -/
def decompress (input out : Bytes) : Decoded (Nat × Bytes) := run input ⟨0, out, 0⟩

/-! What is read where bytes stand, and what the output becomes. -/

/-- A byte that stands in the stream is read. -/
theorem byte_of_drop {input rest : Bytes} {read : Nat} {b : UInt8}
    (small : input.length < 2 ^ 63) (left : input.drop read = b :: rest)
    : byte input read = .ok (b, read + 1) ∧ input.drop (read + 1) = rest := by
  have first : (input.drop read)[0]? = input[read]? := by rw [List.getElem?_drop, Nat.add_zero]
  have here : input[read]? = some b := by rw [← first, left]; rfl
  have inside := (List.getElem?_eq_some_iff.mp here).1
  unfold byte
  rw [here]
  dsimp only
  rw [plus_of_lt (by omega), ← List.drop_drop, left]
  exact ⟨rfl, rfl⟩

theorem word_of_drop {input rest : Bytes} {read : Nat} {low high : UInt8}
    (small : input.length < 2 ^ 63) (left : input.drop read = low :: high :: rest)
    : word input read = .ok (low.toNat + high.toNat * 256, read + 2)
      ∧ input.drop (read + 2) = rest := by
  obtain ⟨one, left⟩ := byte_of_drop small left
  obtain ⟨two, left⟩ := byte_of_drop small left
  unfold word
  rw [one, ok_bind]
  dsimp only
  rw [two, ok_bind]
  exact ⟨rfl, left⟩

/-- What copying literals comes to. -/
theorem literals_eq {input produced room : Bytes} {read count : Nat}
    (small : input.length < 2 ^ 63) (roomy : (produced ++ room).length < 2 ^ 63)
    : literals input ⟨read, produced ++ room, produced.length⟩ count
      = if input.length < read + count then
          malformed "a literal run reads past the end of the stream"
        else if room.length < count then refuse (.overrun .lzo (produced ++ room).length)
        else .ok ⟨read + count, produced ++ Splice.slice input read count ++ room.drop count,
          (produced ++ Splice.slice input read count).length⟩ := by
  have whole : (produced ++ room).length = produced.length + room.length := List.length_append
  unfold literals
  dsimp only
  by_cases cut : input.length < read + count
  · have missing : (checkedAdd read count).bind (getRange input read) = none := by
      unfold checkedAdd getRange
      split_ifs
      · rw [Option.bind_some, if_neg (by omega)]
      · rfl
    rw [if_pos cut, missing]
    rfl
  have found : (checkedAdd read count).bind (getRange input read)
      = some (Splice.slice input read count) := by
    unfold checkedAdd getRange
    rw [if_pos (by omega), Option.bind_some, if_pos (by omega), Nat.add_sub_cancel_left]
  rw [if_neg cut, found]
  by_cases full : room.length < count
  · have missing : (checkedAdd produced.length count).bind
        (getRange (produced ++ room) produced.length) = none := by
      unfold checkedAdd getRange
      rw [if_pos (by omega), Option.bind_some, if_neg (by omega)]
    rw [if_pos full, missing]
    rfl
  have held : (checkedAdd produced.length count).bind
      (getRange (produced ++ room) produced.length)
      = some (Splice.slice (produced ++ room) produced.length count) := by
    unfold checkedAdd getRange
    rw [if_pos (by omega), Option.bind_some, if_pos (by omega), Nat.add_sub_cancel_left]
  have taken : (Splice.slice input read count).length = count :=
    Splice.length_slice (by omega)
  have write := @copyFromSlice_produced produced room (Splice.slice input read count)
    (by omega)
  rw [taken] at write
  rw [if_neg full, held]
  unfold okOr
  rw [Option.elim_some, ok_bind, Option.elim_some, ok_bind, write, ok_bind,
    plus_of_lt (by omega), ok_bind, plus_of_lt (by omega), ok_bind, List.length_append, taken]
  rfl

/-- What repeating output comes to. -/
theorem repeat_eq {produced room : Bytes} {read distance count : Nat}
    (roomy : (produced ++ room).length < 2 ^ 63)
    : repeat_ ⟨read, produced ++ room, produced.length⟩ distance count
      = if distance = 0 ∨ produced.length < distance then
          malformed "a copy names bytes before the start of the output"
        else if room.length < count then refuse (.overrun .lzo (produced ++ room).length)
        else .ok ⟨read, Lz77.repeatFrom produced distance count ++ room.drop count,
          (Lz77.repeatFrom produced distance count).length⟩ := by
  have whole : (produced ++ room).length = produced.length + room.length := List.length_append
  unfold repeat_
  dsimp only
  by_cases bad : distance = 0 ∨ produced.length < distance
  · rw [if_pos bad, if_pos bad]
  rw [if_neg bad, if_neg bad, minus_of_le (by omega), ok_bind, whole, Nat.add_sub_cancel_left]
  by_cases full : room.length < count
  · rw [if_pos full, if_pos full]
  rw [if_neg full, if_neg full, copyBack_produced (by omega) (by omega) (by omega) roomy, ok_bind,
    Lz77.length_repeatFrom (by omega) (by omega)]
  dsimp only
  rw [plus_of_lt (by omega)]
  rfl

end Ferrosys.Compress.Lzo
