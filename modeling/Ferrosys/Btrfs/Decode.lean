import Ferrosys.Compress.Lzo
import Ferrosys.Compress.Lzo.Inversion

/-! How a compressed extent frames its streams: a total length, then each stream behind its own
length, in a header that stays inside one sector.
-/

namespace Ferrosys.Btrfs.Decode

open Checked Machine Splice Compress

/-- Bytes of the length before the total and before each segment. -/
def lzoLen : Nat := 4

def malformed {α : Type} (fault : String) : Decoded α := refuse (.malformed .lzo fault)

/-- The little-endian length at `at_`, where the input holds one. -/
def lengthAt (input : Bytes) (at_ : Nat) : Option Nat :=
  (checkedAdd at_ lzoLen).bind fun stop =>
    if input.length < stop then none else some (getU32 input at_)

/-- How far reading and writing have reached, and the output. -/
structure State where
  read : Nat
  written : Nat
  out : Bytes

/-- The stream behind the header at `read`, undone into a sector's room at most. -/
def segment (input : Bytes) (sector : Nat) (state : State) : Decoded State := do
  let segment ← okOr (lengthAt input state.read)
    (.refused (.malformed .lzo "a segment header runs past the extent"))
  let read ← plus state.read lzoLen
  let stream ← okOr (getRange input read (satAdd read segment))
    (.refused (.malformed .lzo "a segment runs past the extent"))
  let left ← okOr ((if state.written ≤ state.out.length then some (state.out.length - state.written)
      else none).filter (0 < ·))
    (.refused (.overrun .lzo state.out.length))
  let room := min left sector
  let window ← range state.out state.written (← plus state.written room)
  let (produced, window) ← Lzo.decompress stream window
  return ⟨← plus read segment, ← plus state.written produced,
    splice state.out state.written window⟩

/-- One segment, or the end. Where fewer than four bytes are left in a sector the header is in the
next one.
-/
def turn (input : Bytes) (sector total : Nat) (state : State)
    : Loop.Next State (Decoded (Nat × Bytes)) :=
  Loop.orStop (
    if total ≤ state.read then .ok (.stop (.ok (state.written, state.out)))
    else if sector = 0 then .error .panicked
    else do
      let left ← minus sector (state.read % sector)
      if left < lzoLen then do
        let read ← plus state.read left
        if total ≤ read then return .stop (.ok (state.written, state.out))
        else return .go (← segment input sector { state with read })
      else return .go (← segment input sector state))

/-- Undo the segmented form, joining what the segments expand to. Each turn reads a header at
least.
-/
def lzoSegments (input out : Bytes) (sector : Nat) : Decoded (Nat × Bytes) := do
  let total ← okOr (lengthAt input 0)
    (.refused (.malformed .lzo "the extent is shorter than its own length"))
  if input.length < total ∨ total < lzoLen then
    malformed "the extent's length is not the length it has"
  else (Loop.run (turn input sector total) (total + 1) ⟨lzoLen, 0, out⟩).getD (.error .panicked)

end Ferrosys.Btrfs.Decode

/-! The framing of streams, and that undoing it joins what the streams expand to. -/

namespace Ferrosys.Btrfs.Decode

open Checked Machine Splice Compress

/-- The padding before a header: what is left of a sector too full to hold one. -/
def padding (sector at_ : Nat) : Nat :=
  if sector - at_ % sector < lzoLen then sector - at_ % sector else 0

/-- The segments from `at_` on, each padded to where its header may stand, and behind its length. -/
def segments (sector : Nat) : (at_ : Nat) → List Bytes → Bytes
  | _, [] => []
  | at_, stream :: rest =>
      List.replicate (padding sector at_) 0 ++ toLeBytes32 stream.length ++ stream
        ++ segments sector (at_ + padding sector at_ + lzoLen + stream.length) rest

/-- The framing: the total, its own length with it, and the segments. -/
def frame (sector : Nat) (streams : List Bytes) : Bytes :=
  toLeBytes32 (lzoLen + (segments sector lzoLen streams).length) ++ segments sector lzoLen streams

/-- What the streams expand to, one after the other. -/
def joined (streams : List Lzo.Stream) : Bytes := streams.flatMap Lzo.Stream.expansion

/-- The bytes the streams are framed as. -/
def stored (streams : List Lzo.Stream) : List Bytes := streams.map Lzo.Stream.bytes

/-- There is room for every stream's expansion, and some left when its turn comes. -/
def Roomy : List Lzo.Stream → Nat → Prop
  | [], _ => True
  | stream :: rest, left =>
      0 < left ∧ stream.expansion.length ≤ left ∧ Roomy rest (left - stream.expansion.length)

theorem getU32_of_drop {input rest : Bytes} {at_ value : Nat} (fits : value < 2 ^ 32)
    (left : input.drop at_ = toLeBytes32 value ++ rest) : getU32 input at_ = value := by
  have byte : ∀ i < 4, getU8 input (at_ + i) = getU8 (toLeBytes32 value) i := by
    intro i inside
    rw [getU8, ← List.getElem?_drop, left,
      List.getElem?_append_left (by rwa [length_toLeBytes32]), getU8]
  have same : getU32 input at_ = getU32 (toLeBytes32 value) 0 := by
    have zero := byte 0 (by decide)
    rw [Nat.add_zero] at zero
    unfold getU32 getU16
    rw [Nat.add_assoc, Nat.zero_add, Nat.zero_add, zero, byte 1 (by decide), byte 2 (by decide),
      byte 3 (by decide), show 2 + 1 = 3 from rfl]
    omega
  rw [same, getU32_toLeBytes32, Nat.mod_eq_of_lt fits]

/-- A length that stands in the input is read. -/
theorem lengthAt_of_drop {input rest : Bytes} {at_ value : Nat} (small : input.length < 2 ^ 63)
    (fits : value < 2 ^ 32) (left : input.drop at_ = toLeBytes32 value ++ rest)
    : lengthAt input at_ = some value := by
  have same := congrArg List.length left
  rw [List.length_drop, List.length_append, length_toLeBytes32] at same
  unfold lengthAt checkedAdd lzoLen
  rw [if_pos (by omega), Option.bind_some, if_neg (by omega), getU32_of_drop fits left]

/-- A segment whose header stands at `read` is undone behind what was written. -/
theorem segment_of_drop {input rest produced room : Bytes} {sector read : Nat}
    {stream : Lzo.Stream} (small : input.length < 2 ^ 63)
    (roomy : (produced ++ room).length < 2 ^ 63) (narrow : stream.bytes.length < 2 ^ 32)
    (left : input.drop read = toLeBytes32 stream.bytes.length ++ stream.bytes ++ rest)
    (some_ : 0 < room.length) (fits : stream.expansion.length ≤ room.length)
    (most : stream.expansion.length ≤ sector)
    : segment input sector ⟨read, produced.length, produced ++ room⟩
      = .ok ⟨read + lzoLen + stream.bytes.length,
          (produced ++ stream.expansion).length,
          produced ++ stream.expansion ++ room.drop stream.expansion.length⟩
      ∧ input.drop (read + lzoLen + stream.bytes.length) = rest := by
  have whole : (produced ++ room).length = produced.length + room.length := List.length_append
  have same := congrArg List.length left
  rw [List.length_drop, List.length_append, List.length_append, length_toLeBytes32] at same
  rw [List.append_assoc] at left
  have behind : input.drop (read + lzoLen) = stream.bytes ++ rest := by
    rw [← List.drop_drop, left, show lzoLen = (toLeBytes32 stream.bytes.length).length from rfl,
      List.drop_left]
  have held := lengthAt_of_drop small narrow left
  have body : getRange input (read + lzoLen) (satAdd (read + lzoLen) stream.bytes.length)
      = some stream.bytes := by
    have exact_ : satAdd (read + lzoLen) stream.bytes.length
        = read + lzoLen + stream.bytes.length := by
      unfold satAdd wordMax lzoLen
      omega
    unfold getRange
    rw [exact_, if_pos (by unfold lzoLen; omega), Nat.add_sub_cancel_left, slice, behind,
      List.take_left]
  have space : ((if produced.length ≤ (produced ++ room).length then
      some ((produced ++ room).length - produced.length) else none).filter (0 < ·))
      = some room.length := by
    rw [if_pos (by omega), whole, Nat.add_sub_cancel_left]
    simp [Option.filter, some_]
  have window : range (produced ++ room) produced.length (produced.length + min room.length sector)
      = .ok (room.take (min room.length sector)) := by
    rw [range_of_le (by omega) (by omega), Nat.add_sub_cancel_left, slice, List.drop_left]
  have undone := Lzo.decompress_bytes stream (room.take (min room.length sector)) (by omega)
    (by rw [List.length_take]; omega) (by rw [List.length_take]; omega)
  have parts : splice (produced ++ room) produced.length (stream.expansion
      ++ (room.take (min room.length sector)).drop stream.expansion.length)
      = produced ++ stream.expansion ++ room.drop stream.expansion.length := by
    have sized : (stream.expansion
        ++ (room.take (min room.length sector)).drop stream.expansion.length).length
        = min room.length sector := by
      rw [List.length_append, List.length_drop, List.length_take]
      omega
    have rejoined : (room.take (min room.length sector)).drop stream.expansion.length
        ++ room.drop (min room.length sector) = room.drop stream.expansion.length := by
      rw [← List.drop_append_of_le_length (by rw [List.length_take]; omega),
        List.take_append_drop]
    rw [splice, sized, List.take_left, List.take_of_length_le (by omega),
      List.drop_length_add_append, List.append_assoc, List.append_assoc, rejoined,
      List.append_assoc]
  refine ⟨?_, ?_⟩
  · unfold segment
    dsimp only
    rw [held]
    change (plus read lzoLen >>= _) = _
    rw [plus_of_lt (by unfold lzoLen; omega), ok_bind, body]
    change (okOr _ _ >>= _) = _
    rw [space]
    change (plus produced.length (min room.length sector) >>= _) = _
    rw [plus_of_lt (by omega), ok_bind, window, ok_bind, undone, ok_bind]
    dsimp only
    rw [plus_of_lt (by unfold lzoLen; omega), ok_bind, plus_of_lt (by omega), ok_bind, parts,
      List.length_append]
    rfl
  · rw [← List.drop_drop, behind, List.drop_left]

/-- A turn where a segment stands undoes it. -/
theorem turn_of_drop (total : Nat) {input rest produced room : Bytes} {sector read : Nat}
    {stream : Lzo.Stream} (small : input.length < 2 ^ 63)
    (roomy : (produced ++ room).length < 2 ^ 63) (narrow : stream.bytes.length < 2 ^ 32)
    (pos : 0 < sector)
    (left : input.drop read = List.replicate (padding sector read) 0
      ++ toLeBytes32 stream.bytes.length ++ stream.bytes ++ rest)
    (more : read + padding sector read < total)
    (some_ : 0 < room.length) (fits : stream.expansion.length ≤ room.length)
    (most : stream.expansion.length ≤ sector)
    : turn input sector total ⟨read, produced.length, produced ++ room⟩
      = .go ⟨read + padding sector read + lzoLen + stream.bytes.length,
          (produced ++ stream.expansion).length,
          produced ++ stream.expansion ++ room.drop stream.expansion.length⟩
      ∧ input.drop (read + padding sector read + lzoLen + stream.bytes.length) = rest := by
  have inside := Nat.mod_lt read pos
  have same := congrArg List.length left
  rw [List.length_drop, List.length_append, List.length_append, List.length_append,
    length_toLeBytes32, List.length_replicate] at same
  have behind : input.drop (read + padding sector read)
      = toLeBytes32 stream.bytes.length ++ stream.bytes ++ rest := by
    rw [← List.drop_drop, left, List.append_assoc, List.append_assoc]
    have skipped := @List.drop_left _ (List.replicate (padding sector read) (0 : UInt8))
      (toLeBytes32 stream.bytes.length ++ (stream.bytes ++ rest))
    rw [List.length_replicate] at skipped
    rw [skipped, List.append_assoc]
  obtain ⟨undone, later⟩ := segment_of_drop small roomy narrow behind some_ fits most
  refine ⟨?_, later⟩
  unfold turn
  dsimp only
  rw [if_neg (by omega), if_neg (by omega), minus_of_le (by omega), ok_bind]
  by_cases full : sector - read % sector < lzoLen
  · have padded : padding sector read = sector - read % sector := if_pos full
    rw [padded] at more undone same ⊢
    rw [if_pos full, plus_of_lt (by omega), ok_bind, if_neg (by omega), undone]
    rfl
  · have padded : padding sector read = 0 := if_neg full
    rw [padded, Nat.add_zero] at undone ⊢
    rw [if_neg full, undone]
    rfl

/-- The turns over the segments that stand in the input, by induction on the streams. -/
theorem run_of_segments (produced room : Bytes) (turns : Nat) {input behind : Bytes}
    {sector total read : Nat} {streams : List Lzo.Stream} (small : input.length < 2 ^ 63)
    (roomy : (produced ++ room).length < 2 ^ 63) (pos : 0 < sector) (word : total < 2 ^ 32)
    (left : input.drop read = segments sector read (stored streams) ++ behind)
    (ends : read + (segments sector read (stored streams)).length = total)
    (enough : total < turns + read)
    (most : ∀ stream ∈ streams, stream.expansion.length ≤ sector)
    (space : Roomy streams room.length)
    : Loop.run (turn input sector total) turns ⟨read, produced.length, produced ++ room⟩
      = some (.ok ((produced ++ joined streams).length,
        produced ++ joined streams ++ room.drop (joined streams).length)) := by
  induction streams generalizing read produced room turns with
  | nil =>
      cases turns with
      | zero => omega
      | succ turns =>
          change read + 0 = total at ends
          have stops : turn input sector total ⟨read, produced.length, produced ++ room⟩
              = .stop (.ok (produced.length, produced ++ room)) := by
            unfold turn
            dsimp only
            rw [if_pos (by omega)]
            rfl
          rw [Loop.run, stops]
          simp [joined]
  | cons stream rest ih =>
      have parts : segments sector read (stored (stream :: rest))
          = List.replicate (padding sector read) 0 ++ toLeBytes32 stream.bytes.length
            ++ stream.bytes ++ segments sector
              (read + padding sector read + lzoLen + stream.bytes.length) (stored rest) := rfl
      have length : (segments sector read (stored (stream :: rest))).length
          = padding sector read + lzoLen + stream.bytes.length + (segments sector
              (read + padding sector read + lzoLen + stream.bytes.length) (stored rest)).length := by
        rw [parts, List.length_append, List.length_append, List.length_append,
          List.length_replicate, length_toLeBytes32]
        rfl
      rw [parts, List.append_assoc] at left
      have four : lzoLen = 4 := rfl
      obtain ⟨went, later⟩ := turn_of_drop total small roomy (by omega) pos left
        (by omega) space.1 space.2.1 (most stream List.mem_cons_self)
      cases turns with
      | zero => omega
      | succ turns =>
          rw [Loop.run, went]
          dsimp only
          have joined_ : joined (stream :: rest) = stream.expansion ++ joined rest := rfl
          have fits := space.2.1
          rw [List.length_append] at roomy
          rw [ih _ _ turns (by rw [List.length_append, List.length_append, List.length_drop]; omega) later
            (by omega) (by omega) (fun other member => most other (List.mem_cons_of_mem _ member))
            (by rw [List.length_drop]; exact space.2.2), joined_, List.drop_drop,
            List.append_assoc produced, show (stream.expansion ++ joined rest).length
              = stream.expansion.length + (joined rest).length from List.length_append]

/-- Framed streams, whatever follows them, are undone to what they expand to. -/
theorem lzoSegments_of_frame {streams : List Lzo.Stream} {behind out : Bytes} {sector : Nat}
    (small : (frame sector (stored streams) ++ behind).length < 2 ^ 63)
    (roomy : out.length < 2 ^ 63) (pos : 0 < sector)
    (word : (frame sector (stored streams)).length < 2 ^ 32)
    (most : ∀ stream ∈ streams, stream.expansion.length ≤ sector)
    (space : Roomy streams out.length)
    : lzoSegments (frame sector (stored streams) ++ behind) out sector
      = .ok ((joined streams).length, joined streams ++ out.drop (joined streams).length) := by
  have length : (frame sector (stored streams)).length
      = lzoLen + (segments sector lzoLen (stored streams)).length := by
    rw [frame, List.length_append, length_toLeBytes32]
    rfl
  rw [length] at word
  have held := @lengthAt_of_drop (frame sector (stored streams) ++ behind)
    (segments sector lzoLen (stored streams) ++ behind) 0 _ small word
    (by rw [List.drop_zero, frame, List.append_assoc])
  have left : (frame sector (stored streams) ++ behind).drop lzoLen
      = segments sector lzoLen (stored streams) ++ behind := by
    rw [frame, List.append_assoc]
    rfl
  have ran := run_of_segments [] out
    (lzoLen + (segments sector lzoLen (stored streams)).length + 1) small roomy pos word left rfl (by omega) most space
  unfold lzoSegments
  rw [held]
  change (if _ then _ else _) = _
  rw [if_neg (by rw [List.length_append, length]; omega)]
  change (Loop.run _ _ (⟨lzoLen, ([] : Bytes).length, [] ++ out⟩ : State)).getD _ = _
  rw [ran]
  rfl

/-- There is room for each where there is room for all of it, and some left when each one's turn
comes, by induction on the streams.
-/
theorem roomy_of_left {streams : List Lzo.Stream} {left : Nat}
    (whole : (joined streams).length ≤ left)
    (each : ∀ n < streams.length, (joined (streams.take n)).length < left)
    : Roomy streams left := by
  induction streams generalizing left with
  | nil => trivial
  | cons stream rest ih =>
      have parts : joined (stream :: rest) = stream.expansion ++ joined rest := rfl
      rw [parts, List.length_append] at whole
      refine ⟨each 0 (Nat.zero_lt_succ _), by omega, ih (by omega) fun n inside => ?_⟩
      have more := each (n + 1) (Nat.succ_lt_succ inside)
      rw [List.take_succ_cons, show joined (stream :: rest.take n)
        = stream.expansion ++ joined (rest.take n) from rfl, List.length_append] at more
      omega

/-- A stream decodes to its expansion wherever there is room for it, and the framing of streams
that each expand to a sector at most to their expansions joined, wherever there is room for
them and some of it left when each one's turn comes.
-/
theorem streams_decode
    : (∀ (stream : Lzo.Stream) (out : Bytes), stream.bytes.length < 2 ^ 63 →
        out.length < 2 ^ 63 → stream.expansion.length ≤ out.length →
        Lzo.decompress stream.bytes out
          = .ok (stream.expansion.length, stream.expansion ++ out.drop stream.expansion.length))
      ∧ ∀ (streams : List Lzo.Stream) (behind out : Bytes) (sector : Nat), 0 < sector →
        (frame sector (stored streams)).length < 2 ^ 32 →
        (frame sector (stored streams) ++ behind).length < 2 ^ 63 → out.length < 2 ^ 63 →
        (∀ stream ∈ streams, stream.expansion.length ≤ sector) →
        (joined streams).length ≤ out.length →
        (∀ n < streams.length, (joined (streams.take n)).length < out.length) →
        lzoSegments (frame sector (stored streams) ++ behind) out sector
          = .ok ((joined streams).length, joined streams ++ out.drop (joined streams).length) :=
  ⟨Lzo.decompress_bytes, fun _ _ _ _ pos word small roomy most whole each =>
    lzoSegments_of_frame small roomy pos word most (roomy_of_left whole each)⟩

/-- The stream of one literal, and the one of a literal and a copy that repeats it. -/
def literalStream : Lzo.Stream :=
  ⟨[97], [], 3, 0, by decide, trivial, by decide, by decide, by decide, by decide⟩

def repeatedStream : Lzo.Stream :=
  ⟨[97], [.copy .wide 1 3 []], 3, 0, by decide, ⟨by decide, by decide, trivial⟩, by decide,
    by decide, by decide, by decide⟩

/-- The stream of nothing. -/
def emptyStream : Lzo.Stream :=
  ⟨[], [], 3, 0, by decide, trivial, by decide, by decide, by decide, by decide⟩

/-- Both halves on a copy that overlaps itself. -/
theorem streams_decode_repeated
    : Lzo.decompress [18, 97, 33, 0, 0, 17, 0, 0] [0, 0, 0, 0, 0] = .ok (4, [97, 97, 97, 97, 0])
      ∧ lzoSegments (frame 8 (stored [repeatedStream, literalStream]) ++ [1]) [0, 0, 0, 0, 0] 8
        = .ok (5, [97, 97, 97, 97, 97]) :=
  ⟨streams_decode.1 repeatedStream [0, 0, 0, 0, 0] (by decide) (by decide) (by decide),
    streams_decode.2 [repeatedStream, literalStream] [1] [0, 0, 0, 0, 0] 8 (by decide) (by decide)
      (by decide) (by decide) (by decide) (by decide) (by decide)⟩

/-- A buffer the expansions fill is refused at a stream that expands to nothing. -/
theorem lzoSegments_refuses_empty
    : (∀ stream ∈ [literalStream, emptyStream], stream.expansion.length ≤ 4096)
      ∧ (joined [literalStream, emptyStream]).length ≤ ([0] : Bytes).length
      ∧ lzoSegments (frame 4096 (stored [literalStream, emptyStream])) [0] 4096
        = .error (.refused (.overrun .lzo 1)) :=
  ⟨by decide, by decide, by decide +kernel⟩

end Ferrosys.Btrfs.Decode
