import Ferrosys.Compress
import Ferrosys.Library.Loop

/-! LZVN, decoded: a stream of instructions, each a literal, a match, or a literal followed by a
match, up to an end marker.
-/

namespace Ferrosys.Compress.Lzvn

open Checked Machine

/-- What a stream says it is wrong about. -/
def malformed {α : Type} (fault : String) : Decoded α := refuse (.malformed .lzvn fault)

/-- The bytes the end-of-stream instruction takes. -/
def endLen : Nat := 8

/-- Where decoding has reached in the stream and in the output, and the distance the last match
used.
-/
structure State where
  src : Nat
  dst : Nat
  distance : Nat
  out : Bytes

/-- A byte of the instruction at `src`. -/
def byte (input : Bytes) (src index : Nat) : Decoded Nat := do
  match input[← plus src index]? with
  | some b => .ok b.toNat
  | none => malformed "an instruction runs past the end of the stream"

/-- What an instruction's first byte and the bytes behind it say: its header bytes, the lengths of
its literal and its match, and the distance of the match.
-/
def operation (input : Bytes) (src distance op : Nat) : Decoded (Nat × Nat × Nat × Nat) :=
  if op = 0x0E ∨ op = 0x16 then .ok (1, 0, 0, distance)
  else if op = 0x1E ∨ op = 0x26 ∨ op = 0x2E ∨ op = 0x36 ∨ op = 0x3E ∨ (0x70 ≤ op ∧ op ≤ 0x7F)
      ∨ (0xD0 ≤ op ∧ op ≤ 0xDF) then
    malformed "an instruction the encoding does not define"
  else if op = 0xE0 then do return (2, ← plus (← byte input src 1) 16, 0, distance)
  else if 0xE1 ≤ op ∧ op ≤ 0xEF then .ok (1, op % 16, 0, distance)
  else if op = 0xF0 then do return (2, 0, ← plus (← byte input src 1) 16, distance)
  else if 0xF1 ≤ op ∧ op ≤ 0xFF then .ok (1, 0, op % 16, distance)
  else if 0xA0 ≤ op ∧ op ≤ 0xBF then do
    let low ← byte input src 1
    let high ← byte input src 2
    let word := low + high * 256
    return (3, op / 8 % 4, (op % 8 * 4 + word % 4) + 3, word / 4)
  else
    let literal := op / 64
    let matched := op / 8 % 8 + 3
    if op % 8 = 7 then do
      let low ← byte input src 1
      let high ← byte input src 2
      return (3, literal, matched, low + high * 256)
    else if op % 8 = 6 then .ok (1, literal, matched, distance)
    else do return (2, literal, matched, op % 8 * 256 + (← byte input src 1))

/-- Carry out an instruction that was read. -/
def perform (input : Bytes) (state : State) (header literal matched at_ : Nat)
    : Decoded State := do
  -- The instruction, its literal and the next one's first byte must all be in the stream.
  let body ← plus state.src header
  let stop ← plus body literal
  if input.length ≤ stop then malformed "an instruction runs past the end of the stream"
  else do
    let room ← minus state.out.length state.dst
    if room < (← plus literal matched) then refuse (.overrun .lzvn state.out.length)
    else do
      let bytes ← range input body stop
      let dst ← plus state.dst literal
      let out ← copyFromSlice state.out state.dst dst bytes
      if 0 < matched then do
        let (out, copied) ← copyBack out dst at_ matched
        if copied then return ⟨stop, ← plus dst matched, at_, out⟩
        else malformed "a match reaches before the start of the output"
      else .ok ⟨stop, dst, state.distance, out⟩

/-- One instruction, or the end: where the stream and its output end, and the output. -/
def turn (input : Bytes) (state : State) : Loop.Next State (Decoded (Nat × Nat × Bytes)) :=
  Loop.orStop (
    match input[state.src]? with
    | none => malformed "the stream ends without its end marker"
    | some op =>
        if op.toNat = 0x06 then do
          let left ← minus input.length state.src
          if left < endLen then malformed "the end marker is cut short"
          else return .stop (.ok (← plus state.src endLen, state.dst, state.out))
        else do
          let (header, literal, matched, at_) ←
            operation input state.src state.distance op.toNat
          return .go (← perform input state header literal matched at_))

/-- Undo one LZVN stream into `out` from byte `start`, and say where the stream's end marker ends and
where its output does. Each turn reads a byte at least.
-/
def decodeFrom (input out : Bytes) (start : Nat) : Decoded (Nat × Nat × Bytes) :=
  (Loop.run (turn input) (input.length + 1) ⟨0, start, 0, out⟩).getD (.error .panicked)

/-- Undo one LZVN stream into `out`: how many bytes it produced, and the output. -/
def decompress (input out : Bytes) : Decoded (Nat × Bytes) := do
  let (_, stop, out) ← decodeFrom input out 0
  return (stop, out)

end Ferrosys.Compress.Lzvn
