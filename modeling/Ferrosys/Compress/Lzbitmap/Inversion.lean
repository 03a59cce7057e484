import Ferrosys.Compress.Lzbitmap.Areas

/-! The blocks of a stream, and the stream. -/

namespace Ferrosys.Compress.Lzbitmap

open Checked Machine Splice

/-- What a stream goes on with from a byte of it on. -/
theorem getRange_getRange {input piece rest : Bytes} {at_ : Nat}
    (left : input.drop at_ = piece ++ rest) (inside : at_ ≤ input.length)
    : (getRange input at_ input.length).bind (getRange · 0 piece.length) = some piece := by
  have tail : getRange input at_ input.length = some (input.drop at_) := by
    unfold getRange
    rw [if_pos ⟨inside, Nat.le_refl _⟩, slice, List.take_of_length_le (by rw [List.length_drop])]
  have held := @getRange_of_drop (piece ++ rest) piece rest 0 rfl (Nat.zero_le _)
  rw [tail, left, Option.bind_some]
  rwa [Nat.zero_add] at held

/-- The header of a block that stands in the stream is read, and the block behind it is there. -/
theorem header_of_drop {input piece body rest : Bytes} {length decoded at_ : Nat}
    (parts : piece = toLeBytes 3 length ++ toLeBytes 3 decoded ++ body)
    (small : length < 2 ^ 24) (few : decoded < 2 ^ 24) (sized : piece.length = length)
    (left : input.drop at_ = piece ++ rest) (inside : at_ ≤ input.length)
    : ∃ header, (getRange input at_ input.length).bind (getRange · 0 blockHeader) = some header
      ∧ getU24 header 0 = .ok length ∧ getU24 header 3 = .ok decoded
      ∧ (getRange input at_ input.length).bind (getRange · 0 length) = some piece
      ∧ range piece blockHeader piece.length = .ok body := by
  refine ⟨toLeBytes 3 length ++ toLeBytes 3 decoded, ?_, ?_, ?_, ?_, ?_⟩
  · rw [parts, List.append_assoc] at left
    exact getRange_getRange left inside
  · exact getU24_of_drop small (List.drop_zero)
  · have here : (toLeBytes 3 length ++ toLeBytes 3 decoded).drop 3 = toLeBytes 3 decoded ++ [] := rfl
    exact getU24_of_drop few here
  · have held := getRange_getRange left inside
    rwa [sized] at held
  · have here : piece.drop blockHeader = body ++ [] := by
      rw [parts, List.append_nil]
      rfl
    have length_ : piece.length = blockHeader + body.length := by
      rw [parts]
      simp only [List.length_append, length_toLeBytes]
      rfl
    rw [length_]
    exact range_of_drop here (by omega)

/-- A turn where a block stands that fits produces what it expands to. -/
theorem block_eq {input rest produced room : Bytes} {at_ : Nat} {rawOnly : Bool} {one : Block}
    (small : input.length < 2 ^ 63) (roomy : (produced ++ room).length < 2 ^ 63)
    (inside : at_ ≤ input.length) (left : input.drop at_ = one.bytes ++ rest)
    (fits : one.Fits rawOnly produced)
    (space : (one.expand produced).length ≤ produced.length + room.length)
    : block input rawOnly (at_, produced.length, produced ++ room)
      = .go (at_ + one.bytes.length, (one.expand produced).length, one.expand produced
        ++ room.drop ((one.expand produced).length - produced.length)) := by
  have whole : (produced ++ room).length = produced.length + room.length := List.length_append
  have bound : one.bytes.length ≤ input.length - at_ := by
    have same := congrArg List.length left
    rw [List.length_drop, List.length_append] at same
    omega
  have sizes : maxDecoded = 32768 ∧ blockHeader = 6 := ⟨rfl, rfl⟩
  cases one with
  | stored bytes =>
      obtain ⟨pos, most⟩ := fits
      change (produced ++ bytes).length ≤ _ at space
      have grown : (produced ++ bytes).length = produced.length + bytes.length :=
        List.length_append
      have sized : (Block.stored bytes).bytes.length = bytes.length + blockHeader := by
        simp only [Block.bytes, List.length_append, length_toLeBytes]
        omega
      obtain ⟨header, opened, length, decoded, whole_, body⟩ :=
        @header_of_drop input (Block.stored bytes).bytes bytes rest (bytes.length + blockHeader)
          bytes.length at_ rfl (by omega) (by omega) sized left inside
      unfold block
      dsimp only
      rw [opened]
      change Loop.orStop (getU24 header 0 >>= _) = _
      rw [length, ok_bind, decoded, ok_bind, whole_]
      change Loop.orStop (if maxDecoded < bytes.length then _ else _) = _
      rw [if_neg (by omega), if_neg (by omega), minus_of_le (by omega), ok_bind,
        if_neg (by omega), plus_of_lt (by omega), ok_bind, if_pos rfl, body, ok_bind,
        copyFromSlice_produced (by omega), ok_bind, if_neg (by omega), plus_of_lt (by omega),
        ok_bind, sized]
      change Loop.Next.go (_, produced.length + bytes.length, _)
        = Loop.Next.go (_, (produced ++ bytes).length, produced ++ bytes
          ++ room.drop ((produced ++ bytes).length - produced.length))
      rw [grown, Nat.add_sub_cancel_left]
  | packed packed =>
      obtain ⟨admits, fits⟩ := fits
      have some_ := fits.pos
      have most := fits.most
      have shorter := fits.shorter
      have sized : (Block.packed packed).bytes.length = packed.length := packed.length_bytes
      have parts : (Block.packed packed).bytes = toLeBytes 3 packed.length
          ++ toLeBytes 3 packed.decoded ++ (toLeBytes 3 packed.literalsEnd
            ++ (toLeBytes 3 packed.distancesEnd ++ (toLeBytes 3 packed.selectorsAt
              ++ packed.areas))) := by
        simp only [Block.bytes, Packed.bytes, List.append_assoc]
      obtain ⟨header, opened, length, decoded, whole_, -⟩ :=
        header_of_drop parts (by omega) (by omega) sized left inside
      change (packed.expand produced).length ≤ _ at space
      have taken : ∀ sized_ : packed.decoded ≤ room.length,
          range (produced ++ room) 0 (produced.length + packed.decoded)
            = .ok (produced ++ room.take packed.decoded) := by
        intro sized_
        rw [range_of_le (Nat.zero_le _) (by omega), slice, List.drop_zero, Nat.sub_zero,
          List.take_length_add_append]
      have grown : (packed.expand produced).length = produced.length + packed.decoded :=
        packed.length_expand fits
      have undone : compressed (Block.packed packed).bytes (produced ++ room.take packed.decoded)
          produced.length = .ok (packed.expand produced) :=
        compressed_eq fits (by rw [List.length_take]; omega)
          (by rw [List.length_append, List.length_take]; omega)
      unfold block
      dsimp only
      rw [opened]
      change Loop.orStop (getU24 header 0 >>= _) = _
      rw [length, ok_bind, decoded, ok_bind, whole_]
      change Loop.orStop (if maxDecoded < packed.decoded then _ else _) = _
      rw [if_neg (by omega), if_neg (by omega), minus_of_le (by omega), ok_bind,
        if_neg (by omega), plus_of_lt (by omega), ok_bind, if_neg (by omega), admits,
        if_neg Bool.false_ne_true, taken (by omega), ok_bind, undone, ok_bind,
        List.drop_length_add_append]
      change Loop.orStop (if packed.decoded = 0 then _ else _) = _
      rw [if_neg (by omega), plus_of_lt (by omega), ok_bind, sized]
      change Loop.Next.go (_, produced.length + packed.decoded, _)
        = Loop.Next.go (_, (packed.expand produced).length, packed.expand produced
          ++ room.drop ((packed.expand produced).length - produced.length))
      rw [grown, Nat.add_sub_cancel_left]

/-- The end block ends the stream. -/
theorem block_of_end {input rest produced room : Bytes} {at_ : Nat} {rawOnly : Bool}
    (roomy : (produced ++ room).length < 2 ^ 63)
    (inside : at_ ≤ input.length) (left : input.drop at_ = endBlock ++ rest)
    : block input rawOnly (at_, produced.length, produced ++ room)
      = .stop (.ok (produced.length, produced ++ room)) := by
  have whole : (produced ++ room).length = produced.length + room.length := List.length_append
  have sizes : maxDecoded = 32768 ∧ blockHeader = 6 := ⟨rfl, rfl⟩
  obtain ⟨header, opened, length, decoded, whole_, body⟩ :=
    @header_of_drop input endBlock [] rest 6 0 at_ rfl (by decide) (by decide) rfl left inside
  unfold block
  dsimp only
  rw [opened]
  change Loop.orStop (getU24 header 0 >>= _) = _
  rw [length, ok_bind, decoded, ok_bind, whole_]
  unfold okOr
  rw [Option.elim_some, ok_bind]
  have written := @copyFromSlice_produced produced room [] (Nat.zero_le _)
  rw [if_neg (by omega), if_neg (by omega), minus_of_le (by omega), ok_bind, if_neg (by omega),
    plus_of_lt (by omega), ok_bind, if_pos (show 6 = 0 + blockHeader from rfl), body, ok_bind]
  rw [show produced.length + 0 = produced.length + ([] : Bytes).length from rfl, written, ok_bind,
    if_pos rfl, List.append_nil]
  rfl

/-- A block that fits only adds to what is there. -/
theorem Block.length_expand {rawOnly : Bool} {one : Block} {out : Bytes}
    (fits : one.Fits rawOnly out) : out.length ≤ (one.expand out).length := by
  cases one with
  | stored bytes => exact (List.prefix_append out bytes).length_le
  | packed packed => exact (Nat.le_add_right _ _).trans (packed.length_expand fits.2).ge

/-- Blocks that fit only add to what is there, by induction on them. -/
theorem length_le_expansion {rawOnly : Bool} {blocks : List Block} {out : Bytes}
    (chain : Chain rawOnly blocks out) : out.length ≤ (expansion blocks out).length := by
  induction blocks generalizing out with
  | nil => exact Nat.le_refl _
  | cons one blocks ih => exact (Block.length_expand chain.1).trans (ih chain.2)

/-- Every block takes a byte of the stream at least. -/
theorem length_le_flatMap (blocks : List Block)
    : blocks.length ≤ (blocks.flatMap Block.bytes).length := by
  induction blocks with
  | nil => exact Nat.le_refl _
  | cons one blocks ih =>
      have pos : 0 < one.bytes.length := by
        cases one <;> simp [Block.bytes, Packed.bytes, toLeBytes]
      rw [List.length_cons, List.flatMap_cons, List.length_append]
      omega

/-- The turns over the blocks that stand in a stream, by induction on them. -/
theorem run_of_blocks {input behind : Bytes} {rawOnly : Bool} {blocks : List Block}
    (turns at_ : Nat) (produced room : Bytes) (small : input.length < 2 ^ 63)
    (roomy : (produced ++ room).length < 2 ^ 63) (inside : at_ ≤ input.length)
    (left : input.drop at_ = blocks.flatMap Block.bytes ++ (endBlock ++ behind))
    (chain : Chain rawOnly blocks produced)
    (space : (expansion blocks produced).length ≤ produced.length + room.length)
    (enough : blocks.length < turns)
    : Loop.run (block input rawOnly) turns (at_, produced.length, produced ++ room)
      = some (.ok ((expansion blocks produced).length, expansion blocks produced
        ++ room.drop ((expansion blocks produced).length - produced.length))) := by
  induction blocks generalizing turns at_ produced room with
  | nil =>
      cases turns with
      | zero => omega
      | succ turns =>
          rw [Loop.run, block_of_end roomy inside left]
          simp [expansion]
  | cons one blocks ih =>
      have whole : (produced ++ room).length = produced.length + room.length := List.length_append
      have rest : expansion (one :: blocks) produced = expansion blocks (one.expand produced) := rfl
      have least := Block.length_expand chain.1
      have more := length_le_expansion chain.2
      rw [rest] at space ⊢
      rw [List.flatMap_cons, List.append_assoc] at left
      have went := block_eq small roomy inside left chain.1 (by omega)
      have bound : one.bytes.length ≤ input.length - at_ := by
        have same := congrArg List.length left
        rw [List.length_drop, List.length_append] at same
        omega
      rw [List.length_cons] at enough
      cases turns with
      | zero => omega
      | succ turns =>
          rw [Loop.run, went]
          dsimp only
          rw [ih turns (at_ + one.bytes.length) (one.expand produced)
            (room.drop ((one.expand produced).length - produced.length))
            (by rw [List.length_append, List.length_drop]; omega) (by omega)
            (by rw [← List.drop_drop, left, List.drop_left]) chain.2
            (by rw [List.length_drop]; omega) (by omega), List.drop_drop,
            show (one.expand produced).length - produced.length
            + ((expansion blocks (one.expand produced)).length - (one.expand produced).length)
            = (expansion blocks (one.expand produced)).length - produced.length by omega]

/-- A stream of blocks that fit decodes, whatever follows it and in whatever buffer holds it, to
what the blocks expand to.
-/
theorem decompress_of_stream (fourth : UInt8) (rawOnly : Bool) (blocks : List Block)
    (behind out : Bytes) (admits : Admits fourth rawOnly)
    (small : (stream fourth blocks ++ behind).length < 2 ^ 63) (roomy : out.length < 2 ^ 63)
    (chain : Chain rawOnly blocks []) (space : (expansion blocks []).length ≤ out.length)
    : decompress (stream fourth blocks ++ behind) out
      = .ok ((expansion blocks []).length,
        expansion blocks [] ++ out.drop (expansion blocks []).length) := by
  have opened : stream fourth blocks ++ behind
      = 0x5A :: 0x42 :: 0x4D :: fourth :: (blocks.flatMap Block.bytes ++ (endBlock ++ behind)) := by
    simp [stream, signature]
  have left : (stream fourth blocks ++ behind).drop signatureLen
      = blocks.flatMap Block.bytes ++ (endBlock ++ behind) := by
    rw [opened]
    rfl
  have long : signatureLen + blocks.length ≤ (stream fourth blocks ++ behind).length := by
    have each := length_le_flatMap blocks
    rw [opened]
    simp only [List.length_cons, List.length_append]
    have four : signatureLen = 4 := rfl
    omega
  have ran := run_of_blocks ((stream fourth blocks ++ behind).length + 1) signatureLen [] out small
    roomy (by omega) left chain (by rw [List.length_nil, Nat.zero_add]; exact space) (by omega)
  have read : byteAt (stream fourth blocks ++ behind) signature.length = .ok fourth := by
    rw [opened]
    rfl
  have signed : (stream fourth blocks ++ behind).take signature.length = signature := by
    rw [opened]
    rfl
  have well : ¬ ((stream fourth blocks ++ behind).length < signatureLen
      ∨ (stream fourth blocks ++ behind).take signature.length ≠ signature) := by
    rintro (short | other)
    · omega
    · exact other signed
  unfold decompress
  rw [if_neg well, read, ok_bind]
  unfold Admits at admits
  cases rawOnly with
  | false =>
      rw [if_neg Bool.false_ne_true] at admits
      rw [if_pos admits]
      change (Loop.run _ _ (signatureLen, ([] : Bytes).length, [] ++ out)).getD _ = _
      rw [ran]
      rfl
  | true =>
      rw [if_pos rfl] at admits
      rw [if_neg (by rcases admits with rfl | rfl <;> decide), if_pos admits]
      change (Loop.run _ _ (signatureLen, ([] : Bytes).length, [] ++ out)).getD _ = _
      rw [ran]
      rfl

/-- A block of five steps that all copy, by a count that runs past its end. -/
def copies : Packed where
  decoded := 40
  runs := [⟨3, some 7, List.replicate 5 ⟨0, [], []⟩⟩]
  entries := List.replicate 12 (0, 0)
  tail := [0, 0]
  masks := []
  selectors := [0xF3, 0x03]

theorem copies_fits : copies.Fits [1, 2, 3, 4, 5, 6, 7, 8] where
  pos := by decide
  most := by decide
  shorter := by decide
  entries_length := by decide
  entries_fit := by decide
  tail_length := rfl
  selectors_pos := by decide
  selectors_le := by decide
  masks_held := by decide +kernel
  selectors_held := by decide +kernel
  lays := by decide +kernel

/-- Eight bytes as they are, and a block that copies them. -/
theorem decompress_copies
    : decompress (stream 9 [.stored [1, 2, 3, 4, 5, 6, 7, 8], .packed copies] ++ [1])
        (List.replicate 49 0)
      = .ok (48, expansion [.stored [1, 2, 3, 4, 5, 6, 7, 8], .packed copies] [] ++ [0])
      ∧ expansion [.stored [1, 2, 3, 4, 5, 6, 7, 8], .packed copies] []
        = (List.replicate 6 [1, 2, 3, 4, 5, 6, 7, 8]).flatten :=
  ⟨decompress_of_stream 9 false [.stored [1, 2, 3, 4, 5, 6, 7, 8], .packed copies] [1]
    (List.replicate 49 0) (by decide) (by decide) (by decide)
    ⟨⟨by decide, by decide⟩, ⟨rfl, copies_fits⟩, trivial⟩ (by decide +kernel), by decide +kernel⟩

end Ferrosys.Compress.Lzbitmap
