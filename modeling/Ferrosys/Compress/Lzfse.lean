import Ferrosys.Compress.Lzvn

/-! LZFSE, decoded: a run of blocks, each stored as it is, an LZVN stream, or coded with finite-state
entropy, up to an end block.
-/

namespace Ferrosys.Compress.Lzfse

open Checked Machine Splice

/-- What a stream says it is wrong about. -/
def malformed {α : Type} (fault : String) : Decoded α := refuse (.malformed .lzfse fault)

/-- The output buffer is full and the stream goes on. -/
def overrun (out : Bytes) : Error := .overrun .lzfse out.length

/-- The four bytes each kind of block opens with, as a word. -/
def end_ : Nat := getU32 [0x62, 0x76, 0x78, 0x24] 0
def raw : Nat := getU32 [0x62, 0x76, 0x78, 0x2D] 0
def lzvn : Nat := getU32 [0x62, 0x76, 0x78, 0x6E] 0
def tablesWhole : Nat := getU32 [0x62, 0x76, 0x78, 0x31] 0
def tablesPacked : Nat := getU32 [0x62, 0x76, 0x78, 0x32] 0

/-- Symbols and states of each alphabet: literal lengths, match lengths, distances, literals. -/
def lSymbols : Nat := 20
def mSymbols : Nat := 20
def dSymbols : Nat := 64
def literalSymbols : Nat := 256
def lStates : Nat := 64
def mStates : Nat := 64
def dStates : Nat := 256
def literalStates : Nat := 1024

/-- The most commands, and literal bytes, one block holds. -/
def maxMatches : Nat := 10000
def maxLiterals : Nat := 4 * maxMatches

/-- The bits read after a symbol's state, and the value those bits are added to, for each symbol of
the three command alphabets.
-/
def lExtra : List Nat := [0, 0, 0, 0, 0, 0, 0, 0, 0, 0, 0, 0, 0, 0, 0, 0, 2, 3, 5, 8]
def lBase : List Nat := [0, 1, 2, 3, 4, 5, 6, 7, 8, 9, 10, 11, 12, 13, 14, 15, 16, 20, 28, 60]
def mExtra : List Nat := [0, 0, 0, 0, 0, 0, 0, 0, 0, 0, 0, 0, 0, 0, 0, 0, 3, 5, 8, 11]
def mBase : List Nat := [0, 1, 2, 3, 4, 5, 6, 7, 8, 9, 10, 11, 12, 13, 14, 15, 16, 24, 56, 312]
def dExtra : List Nat :=
  [0, 0, 0, 0, 1, 1, 1, 1, 2, 2, 2, 2, 3, 3, 3, 3, 4, 4, 4, 4, 5, 5, 5, 5, 6, 6, 6, 6, 7, 7, 7, 7,
    8, 8, 8, 8, 9, 9, 9, 9, 10, 10, 10, 10, 11, 11, 11, 11, 12, 12, 12, 12, 13, 13, 13, 13, 14, 14,
    14, 14, 15, 15, 15, 15]
def dBase : List Nat :=
  [0, 1, 2, 3, 4, 6, 8, 10, 12, 16, 20, 24, 28, 36, 44, 52, 60, 76, 92, 108, 124, 156, 188, 220,
    252, 316, 380, 444, 508, 636, 764, 892, 1020, 1276, 1532, 1788, 2044, 2556, 3068, 3580, 4092,
    5116, 6140, 7164, 8188, 10236, 12284, 14332, 16380, 20476, 24572, 28668, 32764, 40956, 49148,
    57340, 65532, 81916, 98300, 114684, 131068, 163836, 196604, 229372]

/-- The bytes of a packed header before its frequency tables. -/
def packedHeader : Nat := 32

/-! Arithmetic on words narrower than an address. -/

/-- A sum of 32-bit words. -/
def plus32 (a b : Nat) : Decoded Nat := if a + b < 2 ^ 32 then .ok (a + b) else .error .panicked

/-- A product of 32-bit words. -/
def times32 (a b : Nat) : Decoded Nat := if a * b < 2 ^ 32 then .ok (a * b) else .error .panicked

/-- An address narrowed to a 32-bit word. -/
def asWord (address : Nat) : Nat := address % 2 ^ 32

/-- A 32-bit word shifted left, losing the bits that do not fit. -/
def shiftLeft32 (word by_ : Nat) : Decoded Nat :=
  if by_ < 32 then .ok (word * 2 ^ by_ % 2 ^ 32) else .error .panicked

def shiftLeft64 (word by_ : Nat) : Decoded Nat :=
  if by_ < 64 then .ok (word * 2 ^ by_ % 2 ^ 64) else .error .panicked

/-- A word of so many bits shifted right. -/
def shiftRight (width word by_ : Nat) : Decoded Nat :=
  if by_ < width then .ok (word / 2 ^ by_) else .error .panicked

/-- The low bits of a 64-bit word, masked by a one shifted left and lessened. -/
def lowBits (word count : Nat) : Decoded Nat :=
  if count < 64 then .ok (word % 2 ^ count) else .error .panicked

/-- How many zero bits a 64-bit word ends in. -/
def trailingZeros (word : Nat) : Nat := ((List.range 64).find? (word.testBit ·)).getD 64

/-- How many zero bits a 32-bit word begins with. -/
def leadingZeros (word : Nat) : Nat := if word = 0 then 32 else 31 - Nat.log2 word

/-- An element of a list, which panics past its end. -/
def item {α : Type} (list : List α) (index : Nat) : Decoded α :=
  list[index]?.elim (.error .panicked) .ok

/-- A little-endian word of four bytes, which panics past the end. -/
def u32At (bytes : Bytes) (off : Nat) : Decoded Nat := do
  return getU32 (← range bytes off (off + 4)) 0

/-- A little-endian word of eight bytes, which panics past the end. -/
def u64At (bytes : Bytes) (off : Nat) : Decoded Nat := do
  return getU64 (← range bytes off (off + 8)) 0

/-- Bits `at_` to `at_ + width` of a word. -/
def field (word at_ width : Nat) : Nat := word / 2 ^ at_ % 2 ^ width

/-! The bit streams, read backwards: bytes are taken from the end of a payload towards its start,
and bits from the top of what has been taken.
-/

/-- A bit stream: its input, the earliest byte it may take, the byte after the next to take, and the
bits it holds.
-/
structure Bits where
  input : Bytes
  floor : Nat
  at_ : Nat
  accum : Nat
  held : Nat

/-- Where a stream's bytes go back to, so many before `at_` and none before its floor. -/
def backed (at_ count floor : Nat) : Option Nat :=
  if count ≤ at_ ∧ floor ≤ at_ - count then some (at_ - count) else none

/-- Open the stream whose payload ends at `stop`, with its last byte holding `last` bits, stored as
the count less one.
-/
def Bits.opened (input : Bytes) (floor stop last : Nat) : Decoded Bits := do
  let missing ← minus 7 last
  let take := if missing = 0 then 7 else 8
  let at_ ← okOr (backed stop take floor)
    (.refused (.malformed .lzfse "a bit stream is shorter than its first read"))
  let accum := fromLeBytes (← range input at_ stop)
  let held ← minus (8 * take) missing
  -- The bits are looked at only where there are so many that a word holds them.
  if ¬ (56 ≤ held ∧ held < 64) ∨ accum / 2 ^ held ≠ 0 then
    malformed "a bit stream's first byte holds bits it says it does not"
  else return ⟨input, floor, at_, accum, held⟩

/-- Take whole bytes until 56 to 63 bits are held. -/
def Bits.refill (bits : Bits) : Decoded Bits := do
  let bytes := (← minus 63 bits.held) / 8
  if bytes = 0 then return bits
  else do
    let at_ ← okOr (backed bits.at_ bytes bits.floor)
      (.refused (.malformed .lzfse "a bit stream runs past the start of its payload"))
    let incoming := fromLeBytes (← range bits.input at_ bits.at_)
    let accum := (← shiftLeft64 bits.accum (8 * bytes)) ||| incoming
    return { bits with accum, held := ← plus32 bits.held (8 * bytes), at_ }

/-- The next `count` bits, the highest held first. -/
def Bits.pull (bits : Bits) (count : Nat) : Decoded (Nat × Bits) :=
  if bits.held < count then malformed "a bit stream runs out mid-symbol"
  else do
    let held ← minus bits.held count
    let value ← shiftRight 64 bits.accum held
    return (value, { bits with held, accum := ← lowBits bits.accum held })

/-! The tables of states: each alphabet's symbols have so many states each, consecutive. -/

/-- What one state of a finite-state table stands for, the bits leaving it reads, and what those
are added to.
-/
structure State where
  symbol : Nat
  bits : Nat
  base : Nat

/-- A symbol's state `j` of `f`, of which the first `j0` read a bit more. -/
def stateOf (states symbol f k j0 j : Nat) : Decoded State :=
  if j < j0 then do
    let base ← minus (← shiftLeft32 (← plus32 f j) k) (asWord states)
    return ⟨symbol, k, base⟩
  else do
    let bits ← minus k 1
    return ⟨symbol, bits, ← shiftLeft32 (← minus j j0) bits⟩

/-- Write `count` of a symbol's states, from state `j` on, into the table from `next` on. -/
def place (states symbol f k j0 : Nat) : (count j next : Nat) → List (Option State)
    → Decoded (List (Option State))
  | 0, _, _, table => .ok table
  | count + 1, j, next, table => do
      let state ← stateOf states symbol f k j0 j
      if next < table.length then
        place states symbol f k j0 count (j + 1) (next + 1) (table.set next (some state))
      else .error .panicked

/-- Write the states of the symbols from `symbol` on, into the table from `next` on. -/
def assign (states : Nat) : (freq : List Nat) → (symbol next : Nat) → List (Option State)
    → Decoded (List (Option State))
  | [], _, _, table => .ok table
  | f :: freq, symbol, next, table =>
      if f = 0 then assign states freq (symbol + 1) next table
      else do
        -- The shift that brings the symbol's count to between the state count and twice it.
        let k ← minus (trailingZeros states) (← minus 31 (leadingZeros f))
        let j0 ← minus (← shiftRight 32 (← times32 2 (asWord states)) k) f
        let table ← place states symbol f k j0 f 0 next table
        assign states freq (symbol + 1) (next + f) table

/-- Each state of a table of `states` states whose symbols hold `freq` of them each, and none where
no symbol was given one.
-/
def transitions (states : Nat) (freq : List Nat) : Decoded (List (Option State)) :=
  if states < freq.sum then malformed "a frequency table gives out more states than it has"
  else assign states freq 0 0 (List.replicate states none)

/-- The symbol a state stands for, and the state after it. -/
def symbolStep (table : List (Option State)) (state : Nat) (bits : Bits)
    : Decoded (UInt8 × Nat × Bits) := do
  let entry ← okOr table[state]?.join (.refused (.malformed .lzfse "a state no symbol was given"))
  let (read, bits) ← bits.pull entry.bits
  let state ← plus32 entry.base (read % 2 ^ 32)
  return (UInt8.ofNat entry.symbol, state % 2 ^ 16, bits)

/-- A command alphabet's table: its states, and each symbol's extra bits and what they add to. -/
structure ValueTable where
  states : List (Option State)
  extra : List Nat
  base : List Nat

/-- The value a state stands for, its extra bits read, and the state after it. The state's bits and
the value's are one read, the state's the higher.
-/
def ValueTable.step (table : ValueTable) (state : Nat) (bits : Bits)
    : Decoded (Nat × Nat × Bits) := do
  let entry ← okOr table.states[state]?.join
    (.refused (.malformed .lzfse "a state no symbol was given"))
  let extra ← item table.extra entry.symbol
  let (read, bits) ← bits.pull (← plus32 entry.bits extra)
  let state ← plus32 entry.base ((← shiftRight 64 read extra) % 2 ^ 32)
  let value ← plus32 (← item table.base entry.symbol) ((← lowBits read extra) % 2 ^ 32)
  return (value, state % 2 ^ 16, bits)

/-! The entropy-coded blocks. -/

/-- An entropy-coded block's header, decoded: the bytes the block produces, its header's length, its
literals and its commands, each with the bytes of their bit stream, the bits of its last byte and
the decoders' first states, and how many states each symbol of each alphabet has.
-/
structure Block where
  raw : Nat
  headerLen : Nat
  literals : Nat
  literalBytes : Nat
  literalBits : Nat
  literalStates : List Nat
  matches_ : Nat
  commandBytes : Nat
  commandBits : Nat
  lState : Nat
  mState : Nat
  dState : Nat
  lFreq : List Nat
  mFreq : List Nat
  dFreq : List Nat
  literalFreq : List Nat

/-- The widths of the frequencies' codes, and the values of the short ones, by their low bits. -/
def widths : List Nat :=
  [2, 3, 2, 5, 2, 3, 2, 8, 2, 3, 2, 5, 2, 3, 2, 14, 2, 3, 2, 5, 2, 3, 2, 8, 2, 3, 2, 5, 2, 3, 2, 14]
def values : List Nat :=
  [0, 2, 1, 4, 0, 3, 1, 0, 0, 2, 1, 5, 0, 3, 1, 0, 0, 2, 1, 6, 0, 3, 1, 0, 0, 2, 1, 7, 0, 3, 1, 0]

/-- A frequency from the low bits of a word, and how many bits its code takes. -/
def frequency (bits : Nat) : Decoded (Nat × Nat) := do
  let low := bits % 32
  let width ← item widths low
  if width = 8 then return (8 + bits / 2 ^ 4 % 2 ^ 4, 8)
  else if width = 14 then return (24 + bits / 2 ^ 4 % 2 ^ 10, 14)
  else return (← item values low, width)

/-- Take bytes of a table while a word holds another: what is left of them, the bits held, and how
many.
-/
def takeBytes : Bytes → (accum held : Nat) → Decoded (Bytes × Nat × Nat)
  | [], accum, held => .ok ([], accum, held)
  | byte :: tables, accum, held =>
      if held + 8 ≤ 32 then do
        takeBytes tables (accum ||| (← shiftLeft32 byte.toNat held)) (held + 8)
      else .ok (byte :: tables, accum, held)

/-- So many frequencies, each in a code read from the low bits up, and what is left of the tables
and of the bits held.
-/
def frequencies : (count : Nat) → Bytes → (accum held : Nat) → Decoded (List Nat × Bytes × Nat)
  | 0, tables, _, held => .ok ([], tables, held)
  | count + 1, tables, accum, held => do
      let (tables, accum, held) ← takeBytes tables accum held
      let (decoded, width) ← frequency accum
      if held < width then malformed "a frequency table ends mid-value"
      else do
        let (rest, tables, held) ← frequencies count tables (← shiftRight 32 accum width)
          (← minus held width)
        return (decoded :: rest, tables, held)

/-- The frequency tables, in the order lengths, match lengths, distances, literals. -/
def Block.readTables (block : Block) (tables : Bytes) : Decoded Block := do
  let (values, left, held) ←
    frequencies (lSymbols + mSymbols + dSymbols + literalSymbols) tables 0 0
  if 8 ≤ held ∨ left ≠ [] then
    malformed "a frequency table is not the length its header records"
  else return { block with
    lFreq := values.take lSymbols
    mFreq := (values.drop lSymbols).take mSymbols
    dFreq := (values.drop (lSymbols + mSymbols)).take dSymbols
    literalFreq := values.drop (lSymbols + mSymbols + dSymbols) }

/-- Read the header at the start of `bytes`, which opens with its word. -/
def Block.read (bytes : Bytes) : Decoded Block := do
  let short := .refused (.malformed .lzfse "a block header runs past the end of the stream")
  let fixed ← okOr (getRange bytes 0 packedHeader) short
  let raw ← u32At fixed 4
  let v0 ← u64At fixed 8
  let v1 ← u64At fixed 16
  let v2 ← u64At fixed 24
  let headerLen := field v2 0 32
  if headerLen < packedHeader then malformed "a block header shorter than its fixed part"
  else do
    let tables ← okOr (getRange bytes packedHeader headerLen) short
    let block : Block := {
      raw
      headerLen
      literals := field v0 0 20
      literalBytes := field v0 20 20
      literalBits := field v0 60 3
      literalStates := [field v1 0 10, field v1 10 10, field v1 20 10, field v1 30 10]
      matches_ := field v0 40 20
      commandBytes := field v1 40 20
      commandBits := field v1 60 3
      lState := field v2 32 10
      mState := field v2 42 10
      dState := field v2 52 10
      lFreq := List.replicate lSymbols 0
      mFreq := List.replicate mSymbols 0
      dFreq := List.replicate dSymbols 0
      literalFreq := List.replicate literalSymbols 0 }
    if maxLiterals < block.literals ∨ maxMatches < block.matches_ ∨ block.literals % 4 ≠ 0 then
      malformed "a block holding more than a block may"
    else if lStates ≤ block.lState ∨ mStates ≤ block.mState ∨ dStates ≤ block.dState then
      malformed "a block whose commands start in a state they do not have"
    else if tables ≠ [] then block.readTables tables
    else return block

/-- A literal of each decoder in turn, and the states after them. -/
def quad (table : List (Option State)) : List Nat → Bits → Decoded (Bytes × List Nat × Bits)
  | [], bits => .ok ([], [], bits)
  | state :: states, bits => do
      let (byte, state, bits) ← symbolStep table state bits
      let (bytes, states, bits) ← quad table states bits
      return (byte :: bytes, state :: states, bits)

/-- The literals of so many quads: a block's literals are a whole number of them. -/
def quads (table : List (Option State)) : (count : Nat) → List Nat → Bits → Decoded Bytes
  | 0, _, _ => .ok []
  | count + 1, states, bits => do
      let (bytes, states, bits) ← quad table states (← bits.refill)
      return bytes ++ (← quads table count states bits)

/-- The tables of the three command alphabets. -/
structure Tables where
  l : ValueTable
  m : ValueTable
  d : ValueTable

/-- Where the commands have reached: the decoders' states, their bit stream, the literals used, the
output, and the distance in force, if there was one.
-/
structure Reached where
  lState : Nat
  mState : Nat
  dState : Nat
  bits : Bits
  lit : Nat
  at_ : Nat
  distance : Option Nat
  out : Bytes

/-- What a command copies: its literals' count, its match's, and the distance, zero where the one
before is repeated; and the states and the stream after it.
-/
def triplet (tables : Tables) (reached : Reached)
    : Decoded (Nat × Nat × Nat × Nat × Nat × Nat × Bits) := do
  let bits ← reached.bits.refill
  let (length, lState, bits) ← tables.l.step reached.lState bits
  let (matched, mState, bits) ← tables.m.step reached.mState bits
  let (new, dState, bits) ← tables.d.step reached.dState bits
  return (length, matched, new, lState, mState, dState, bits)

/-- One command: literals, and then a match. -/
def command (tables : Tables) (literals : Bytes) (stop : Nat) (reached : Reached)
    : Decoded Reached := do
  let (length, matched, new, lState, mState, dState, bits) ← triplet tables reached
  let distance := if new ≠ 0 then some new else reached.distance
  let source ← okOr (getRange literals reached.lit (← plus reached.lit length))
    (.refused (.malformed .lzfse "a command copies more literals than the block holds"))
  let left ← minus stop reached.at_
  if left < (← plus length matched) then malformed "a block produces more than it records"
  else do
    let at_ ← plus reached.at_ length
    let out ← copyFromSlice reached.out reached.at_ at_ source
    let lit ← plus reached.lit length
    let (out, copied) ← copyBack out at_ (distance.getD 0) matched
    if copied then
      return ⟨lState, mState, dState, bits, lit, ← plus at_ matched, distance, out⟩
    else malformed "a match reaches before the start of the output"

/-- So many commands. -/
def commands (tables : Tables) (literals : Bytes) (stop : Nat) : (count : Nat) → Reached
    → Decoded Reached
  | 0, reached => .ok reached
  | count + 1, reached => do
      commands tables literals stop count (← command tables literals stop reached)

/-- Decode a block's literals: four decoders taking turns, in a bit stream that may begin as early as
the start of the input.
-/
def Block.decodeLiterals (block : Block) (input : Bytes) (stop : Nat) : Decoded Bytes := do
  let symbols ← transitions Lzfse.literalStates block.literalFreq
  quads symbols (block.literals / 4) block.literalStates
    (← Bits.opened input 0 stop block.literalBits)

/-- The tables of a block's commands. -/
def Block.tables (block : Block) : Decoded Tables := do
  let l ← transitions lStates block.lFreq
  let m ← transitions mStates block.mFreq
  let d ← transitions dStates block.dFreq
  return ⟨⟨l, lExtra, lBase⟩, ⟨m, mExtra, mBase⟩, ⟨d, dExtra, dBase⟩⟩

/-- Decode a block, which begins at `start` in the input, into `out` from `dst`, and say where its
output ends.
-/
def Block.decode (block : Block) (input : Bytes) (start : Nat) (out : Bytes) (dst : Nat)
    : Decoded (Nat × Bytes) := do
  let literalStart ← plus start block.headerLen
  let literalEnd ← plus literalStart block.literalBytes
  let commandEnd ← plus literalEnd block.commandBytes
  if input.length < commandEnd then malformed "a block's payload runs past the end of the stream"
  else do
    let stop ← okOr ((checkedAdd dst block.raw).filter (· ≤ out.length)) (.refused (overrun out))
    let literals ← block.decodeLiterals input literalEnd
    let tables ← block.tables
    let bits ← Bits.opened input literalEnd commandEnd block.commandBits
    let reached ← commands tables literals stop block.matches_
      ⟨block.lState, block.mState, block.dState, bits, 0, dst, none, out⟩
    if reached.at_ ≠ stop then malformed "a block produces other than it records"
    else return (stop, reached.out)

/-! The stream. -/

/-- A word of the stream. -/
def word (input : Bytes) (at_ : Nat) : Decoded Nat := do
  let bytes ← okOr (getRange input at_ (← plus at_ 4))
    (.refused (.malformed .lzfse "the stream ends without its end block"))
  u32At bytes 0

/-- How an LZVN block's stream not decoding is told: a panic stays one. -/
def undecoded : Fault Error → Fault Error
  | .panicked => .panicked
  | .refused _ => .refused (.malformed .lzfse "an LZVN block does not decode")

/-- A raw block, which begins at `src`. -/
def rawBlock (input : Bytes) (src : Nat) (out : Bytes) (dst : Nat)
    : Decoded (Nat × Nat × Bytes) := do
  let n ← word input (← plus src 4)
  let body ← plus src 8
  let bytes ← okOr ((checkedAdd body n).bind (getRange input body))
    (.refused (.malformed .lzfse "a raw block runs past the end of the stream"))
  let left ← minus out.length dst
  if left < n then refuse (overrun out)
  else do
    let stop ← plus dst n
    let out ← copyFromSlice out dst stop bytes
    return (← plus body n, stop, out)

/-- A block that is an LZVN stream, which may reach back into every block before it. -/
def lzvnBlock (input : Bytes) (src : Nat) (out : Bytes) (dst : Nat)
    : Decoded (Nat × Nat × Bytes) := do
  let raw ← word input (← plus src 4)
  let payload ← word input (← plus src 8)
  let body ← plus src 12
  let stream ← okOr ((checkedAdd body payload).bind (getRange input body))
    (.refused (.malformed .lzfse "an LZVN block runs past the end of the stream"))
  let stop ← okOr ((checkedAdd dst raw).filter (· ≤ out.length)) (.refused (overrun out))
  let window ← range out 0 stop
  let (used, reached, window) ← (Lzvn.decodeFrom stream window dst).mapError undecoded
  if used ≠ payload ∨ reached ≠ stop then
    malformed "an LZVN block's stream is not the length its block records"
  else return (← plus body payload, stop, window ++ out.drop stop)

/-- An entropy-coded block, its tables packed. -/
def packedBlock (input : Bytes) (src : Nat) (out : Bytes) (dst : Nat)
    : Decoded (Nat × Nat × Bytes) := do
  let block ← Block.read (← range input src input.length)
  let (dst, out) ← block.decode input src out dst
  let length ← plus (← plus block.headerLen block.literalBytes) block.commandBytes
  return (← plus src length, dst, out)

/-- One block, or the end: how far the stream has been read, and what has been produced. -/
def turn (input : Bytes) (state : Nat × Nat × Bytes)
    : Loop.Next (Nat × Nat × Bytes) (Decoded (Nat × Bytes)) :=
  Loop.orStop do
    let (src, dst, out) := state
    let kind ← word input src
    if kind = end_ then return .stop (.ok (dst, out))
    else if kind = raw then do return .go (← rawBlock input src out dst)
    else if kind = lzvn then do return .go (← lzvnBlock input src out dst)
    else if kind = tablesPacked then do return .go (← packedBlock input src out dst)
    else if kind = tablesWhole then
      malformed "a block whose tables are stored whole, which no stream observed carries"
    else malformed "a block of a kind the encoding does not define"

/-- Undo one LZFSE stream into `out`: how many bytes it produced, and the output. Each turn reads
eight bytes at least.
-/
def decompress (input out : Bytes) : Decoded (Nat × Bytes) :=
  (Loop.run (turn input) (input.length + 1) (0, 0, out)).getD (.error .panicked)

end Ferrosys.Compress.Lzfse
