import Ferrosys.Compress
import Ferrosys.Library.Loop

/-! LZBITMAP, decoded: a signature and then blocks, each stored as it is or produced eight bytes at
a time by steps, up to an end block.
-/

namespace Ferrosys.Compress.Lzbitmap

open Checked Machine Splice

/-- What a stream says it is wrong about. -/
def malformed {α : Type} (fault : String) : Decoded α := refuse (.malformed .lzbitmap fault)

/-- The three bytes every stream opens with. -/
def signature : Bytes := [0x5A, 0x42, 0x4D]

/-- The bytes a stream's signature takes. -/
def signatureLen : Nat := 4

/-- The most one block decodes to. -/
def maxDecoded : Nat := 32 * 1024

/-- The bytes one step produces, and so the shortest distance a copy takes. -/
def stepLen : Nat := 8

/-- The most bytes a block's selectors take before its table. -/
def maxSelectorBytes : Nat := maxDecoded / stepLen / 2

/-- The bytes every block's header takes. -/
def blockHeader : Nat := 6

/-- The bytes a compressed block's header takes. -/
def compressedHeader : Nat := 15

/-- The bytes the table at a compressed block's end takes. -/
def tableLen : Nat := 17

/-- The table's entries. -/
def tableEntries : Nat := 12

/-- The selector naming the table's first entry. -/
def firstTableSelector : Nat := 3

/-- The selector that, after a step's own, says the step repeats. -/
def repeatSelector : Nat := 15

/-- The fewest times a counted step runs. -/
def repeatBase : Nat := 4

/-- A little-endian word of three bytes, which panics past the end. -/
def getU24 (bytes : Bytes) (off : Nat) : Decoded Nat := do
  let low ← byteAt bytes off
  let middle ← byteAt bytes (off + 1)
  let high ← byteAt bytes (off + 2)
  return low.toNat + middle.toNat * 2 ^ 8 + high.toNat * 2 ^ 16

/-- A selector, the low half of a byte before its high half. -/
def peek (selectors : Bytes) (index : Nat) : Decoded Nat :=
  match selectors[index / 2]? with
  | some byte => .ok (if index % 2 = 0 then byte.toNat % 16 else byte.toNat / 16)
  | none => malformed "a block's selectors run past its end"

def next (selectors : Bytes) (index : Nat) : Decoded (Nat × Nat) := do
  return (← peek selectors index, ← plus index 1)

/-- One selector of a count: one that is not 15 ends it. -/
def more (selectors : Bytes) (state : Nat × Nat)
    : Loop.Next (Nat × Nat) (Decoded (Nat × Nat)) :=
  Loop.orStop do
    let (index, total) := state
    let (more, index) ← next selectors index
    let total ← plus total more
    return if more = repeatSelector then .go (index, total) else .stop (.ok (total, index))

/-- How many times the step whose selector was just read runs, and where the selectors go on. Each
turn of the count reads a selector, and there are two to a byte.
-/
def count (selectors : Bytes) (index : Nat) : Decoded (Nat × Nat) := do
  if (← peek selectors index) ≠ repeatSelector then return (1, index)
  else do
    let index ← plus index 1
    (Loop.run (more selectors) (2 * selectors.length + 1) (index, repeatBase)).getD
      (.error .panicked)

/-- An entry of the table: a ten-bit field's mask and its count of distance bytes. -/
def entry (bits i : Nat) : Decoded (Nat × Nat) :=
  let field := bits / 2 ^ (10 * i) % 1024
  let width := field / 256
  if 2 < width then malformed "a table entry reads three distance bytes"
  else .ok (field % 256, width)

/-- The table at a compressed block's end: each entry's mask and its count of distance bytes. -/
def table (bytes : Bytes) : Decoded (List (Nat × Nat)) := do
  let bits := fromLeBytes (← range bytes 0 15)
  (List.range tableEntries).mapM (entry bits)

/-- What is left of a block's areas, how far its selectors and the output have been taken, and the
distance in force.
-/
structure State where
  masks : Bytes
  literals : Bytes
  distances : Bytes
  index : Nat
  out : Bytes
  at_ : Nat
  distance : Nat

/-- The bytes of one step: where the mask's bit is set the next literal, and where it is clear the
byte the distance back.
-/
def fill (mask distance : Nat) : (count i : Nat) → (literals out : Bytes) → (at_ : Nat)
    → Decoded (Bytes × Bytes)
  | 0, _, literals, out, _ => .ok (literals, out)
  | count + 1, i, literals, out, at_ =>
      if mask / 2 ^ i % 2 = 1 then
        match literals with
        | [] => malformed "a step's literal lies past the block's literals"
        | byte :: rest => do
            fill mask distance count (i + 1) rest (← setByte out at_ byte) (at_ + 1)
      else do
        let byte ← byteAt out (← minus at_ distance)
        fill mask distance count (i + 1) literals (← setByte out at_ byte) (at_ + 1)

/-- The mask of a step, its count of distance bytes, and the masks left. -/
def maskOf (entries : List (Nat × Nat)) (selector : Nat) (masks : Bytes)
    : Decoded ((Nat × Nat) × Bytes) :=
  if selector < firstTableSelector then
    match masks with
    | [] => malformed "a step's mask lies in the block's table"
    | mask :: rest => .ok ((mask.toNat, selector), rest)
  else if selector = repeatSelector then malformed "a selector of 15 names no step"
  else
    match entries[selector - firstTableSelector]? with
    | some entry => .ok (entry, masks)
    | none => .error .panicked

/-- The distance a step leaves, and the distances left. -/
def distanceOf (width distance : Nat) (distances : Bytes) : Decoded (Nat × Bytes) :=
  if 0 < width then
    if distances.length < width then
      malformed "a step's distance lies past the block's distances"
    else .ok (fromLeBytes (distances.take width), distances.drop width)
  else .ok (distance, distances)

/-- The low bits of a byte from which `by_` were shifted out. -/
def shifted (by_ : Nat) : Decoded Nat := if 8 ≤ by_ then .error .panicked else .ok (255 / 2 ^ by_)

/-- One step, up to the block's end. -/
def step (entries : List (Nat × Nat)) (stop selector : Nat) (state : State) : Decoded State := do
  let ((mask, width), masks) ← maskOf entries selector state.masks
  let (distance, distances) ← distanceOf width state.distance state.distances
  let n := min (← minus stop state.at_) stepLen
  let copies := (255 - mask) &&& (← shifted (stepLen - n))
  if copies ≠ 0 ∧ (distance < stepLen ∨ state.at_ < distance) then
    malformed "a copy reaches into its own step or before the output's start"
  else do
    let (literals, out) ← fill mask distance n 0 state.literals state.out state.at_
    return { state with masks, literals, distances, distance, out, at_ := ← plus state.at_ n }

/-- A step as many times as its count says, or up to the block's end. -/
def steps (entries : List (Nat × Nat)) (stop selector : Nat) : (repeats : Nat) → State
    → Decoded State
  | 0, state => .ok state
  | repeats + 1, state =>
      if state.at_ = stop then .ok state
      else do steps entries stop selector repeats (← step entries stop selector state)

/-- One selector and the steps it names, or the block's end. -/
def turn (entries : List (Nat × Nat)) (selectors : Bytes) (stop : Nat) (state : State)
    : Loop.Next State (Decoded State) :=
  Loop.orStop (
    if stop ≤ state.at_ then .ok (.stop (.ok state))
    else do
      let (selector, index) ← next selectors state.index
      let left ← minus stop state.at_
      let (repeats, index) ←
        if left ≤ stepLen then .ok (1, index) else count selectors index
      return .go (← steps entries stop selector repeats { state with index }))

/-- Undo the compressed block `block` into `out` from byte `start` to its end. Each turn produces a
byte at least.
-/
def compressed (block out : Bytes) (start : Nat) : Decoded Bytes :=
  if block.length < compressedHeader + tableLen then
    malformed "a compressed block is shorter than its header and table"
  else do
    let literalsEnd ← getU24 block 6
    let distancesEnd ← getU24 block 9
    let selectorsAt ← getU24 block 12
    let literals ← okOr (getRange block compressedHeader literalsEnd)
      (.refused (.malformed .lzbitmap "a block's literals are not a run of the block"))
    let distances ← okOr (getRange block literalsEnd distancesEnd)
      (.refused (.malformed .lzbitmap "a block's distances are not a run of the block"))
    let tableAt ← minus block.length tableLen
    if ¬ (distancesEnd ≤ selectorsAt ∧ selectorsAt < tableAt) then
      malformed "a block's selectors do not start between its masks and its table"
    else if maxSelectorBytes < tableAt - selectorsAt then
      malformed "a block's selectors take more bytes than its steps can use"
    else do
      let masks ← range block distancesEnd tableAt
      let selectors ← range block selectorsAt block.length
      let entries ← table (← range block tableAt block.length)
      let stop := out.length
      let state ← (Loop.run (turn entries selectors stop) (stop + 1)
        ⟨masks, literals, distances, 0, out, start, stepLen⟩).getD (.error .panicked)
      if state.literals ≠ [] then malformed "a block's literals are not all used"
      else if state.distances ≠ [] then malformed "a block's distances are not all used"
      else return state.out

/-- One block, or the end: how far the stream has been read, and what has been produced. -/
def block (input : Bytes) (rawOnly : Bool) (state : Nat × Nat × Bytes)
    : Loop.Next (Nat × Nat × Bytes) (Decoded (Nat × Bytes)) :=
  Loop.orStop do
    let (at_, produced, out) := state
    let header ← okOr ((getRange input at_ input.length).bind (getRange · 0 blockHeader))
      (.refused (.malformed .lzbitmap "the stream ends without its end block"))
    let length ← getU24 header 0
    let decoded ← getU24 header 3
    let block ← okOr ((getRange input at_ input.length).bind (getRange · 0 length))
      (.refused (.malformed .lzbitmap "a block runs past the end of the stream"))
    if maxDecoded < decoded then malformed "a block decodes to more than 32 KiB"
    else if decoded + blockHeader < length then
      malformed "a block is longer than the bytes it decodes to stored as they are"
    else do
      let left ← minus out.length produced
      if left < decoded then refuse (.overrun .lzbitmap out.length)
      else do
        let stop ← plus produced decoded
        let out ←
          if length = decoded + blockHeader then do
            copyFromSlice out produced stop (← range block blockHeader block.length)
          else if rawOnly then
            malformed "a compressed block in a stream whose signature admits none"
          else do
            let undone ← compressed block (← range out 0 stop) produced
            pure (undone ++ out.drop stop)
        if decoded = 0 then return .stop (.ok (produced, out))
        else return .go (← plus at_ length, stop, out)

/-- Undo one stream into `out`: how many bytes it produced, and the output. Each turn reads a byte
at least.
-/
def decompress (input out : Bytes) : Decoded (Nat × Bytes) :=
  if input.length < signatureLen ∨ input.take signature.length ≠ signature then
    malformed "the stream does not open with its signature"
  else do
    let fourth ← byteAt input signature.length
    let rawOnly ←
      if fourth = 0x08 ∨ fourth = 0x09 then pure false
      else if fourth = 0x0C ∨ fourth = 0x0D then pure true
      else malformed "the stream's signature ends in a byte it does not take"
    (Loop.run (block input rawOnly) (input.length + 1) (signatureLen, 0, out)).getD
      (.error .panicked)

end Ferrosys.Compress.Lzbitmap
