import Ferrosys.Compress.Lzo.Encoding

/-! The decoder inverts the encoding: a stream of items that reach decodes to what they expand to. -/

namespace Ferrosys.Compress.Lzo

open Checked Machine

/-- Every item is in the table's range where it stands, and its copy reaches into what is there. -/
def Reach : List Item → Copied → Bytes → Prop
  | [], _, _ => True
  | item :: rest, copied, produced =>
      item.Fits copied ∧ item.Reaches produced ∧ Reach rest item.after (item.expand produced)

/-- What the items make of what was there. -/
def expand (items : List Item) (produced : Bytes) : Bytes :=
  items.foldl (fun produced item => item.expand produced) produced

/-- A stream: the literals of its first byte's own form, which are none where it opens as any
instruction, the items behind them, and the length and the count of literals its end names.
-/
structure Stream where
  opening : Bytes
  items : List Item
  endLength : Nat
  endCount : Nat
  short : opening.length ≤ 238
  reach : Reach items (.after opening.length) opening
  least : 3 ≤ endLength
  most : endLength < 2 ^ 64
  few : endCount ≤ 3
  -- The first byte of a stream reads as literals from 18 up, also where it is the end's.
  plain : opening = [] → items = [] → field 3 (endLength - 2) < 2

namespace Stream

def head (stream : Stream) : Bytes :=
  if stream.opening = [] then [] else UInt8.ofNat (17 + stream.opening.length) :: stream.opening

def bytes (stream : Stream) : Bytes :=
  stream.head ++ stream.items.flatMap Item.encode ++ ending stream.endLength stream.endCount

def expansion (stream : Stream) : Bytes := expand stream.items stream.opening

end Stream

/-- Where the decoder stands with so much read, so much produced and so much room left. -/
def Decoder.of (read : Nat) (produced room : Bytes) : Decoder :=
  ⟨read, produced ++ room, produced.length⟩

/-- An item in range that reaches repeats and copies as many bytes as it says. -/
theorem Item.length_expand {item : Item} {copied : Copied} {produced : Bytes}
    (fits : item.Fits copied) (reaches : item.Reaches produced)
    : (item.expand produced).length = produced.length + item.repeated + item.bytes.length := by
  cases item with
  | run bytes => exact List.length_append
  | copy row distance length bytes =>
      have pos : 0 < distance := Row.pos fits.1
      rw [Item.expand, List.length_append, Lz77.length_repeatFrom pos reaches]
      rfl

/-- Items only add to what was there, by induction on them. -/
theorem length_le_expand {items : List Item} {copied : Copied} {produced : Bytes}
    (reach : Reach items copied produced) : produced.length ≤ (expand items produced).length := by
  induction items generalizing copied produced with
  | nil => exact Nat.le_refl _
  | cons item rest ih =>
      have grown := Item.length_expand reach.1 reach.2.1
      have later : (item.expand produced).length ≤ (expand (item :: rest) produced).length :=
        ih reach.2.2
      omega

/-- Literals that stand in the stream are copied behind what was produced. -/
theorem literals_of_drop {input rest produced room bytes : Bytes} {read : Nat}
    (small : input.length < 2 ^ 63) (roomy : (produced ++ room).length < 2 ^ 63)
    (left : input.drop read = bytes ++ rest) (order : read ≤ input.length)
    (fits : bytes.length ≤ room.length)
    : literals input (.of read produced room) bytes.length
        = .ok (.of (read + bytes.length) (produced ++ bytes) (room.drop bytes.length))
      ∧ input.drop (read + bytes.length) = rest := by
  have inside : bytes.length ≤ input.length - read := by
    have same := congrArg List.length left
    rw [List.length_drop, List.length_append] at same
    omega
  have taken : Splice.slice input read bytes.length = bytes := by
    rw [Splice.slice, left, List.take_left]
  unfold Decoder.of
  rw [literals_eq small roomy, if_neg (by omega), if_neg (by omega), taken]
  refine ⟨rfl, ?_⟩
  rw [← List.drop_drop, left, List.drop_left]

/-- A copy that reaches is repeated behind what was produced. -/
theorem repeat_of_reach {produced room : Bytes} {read distance count : Nat}
    (roomy : (produced ++ room).length < 2 ^ 63) (pos : 0 < distance)
    (reaches : distance ≤ produced.length) (fits : count ≤ room.length)
    : repeat_ (.of read produced room) distance count
      = .ok (.of read (Lz77.repeatFrom produced distance count) (room.drop count)) := by
  unfold Decoder.of
  rw [repeat_eq roomy, if_neg (by omega), if_neg (by omega)]

/-- A turn where an item stands carries it out. -/
theorem turn_of_item {input rest produced room : Bytes} {read : Nat} {copied : Copied}
    {item : Item} (small : input.length < 2 ^ 63) (roomy : (produced ++ room).length < 2 ^ 63)
    (order : read ≤ input.length) (left : input.drop read = item.encode ++ rest)
    (fits : item.Fits copied) (reaches : item.Reaches produced)
    (space : item.repeated + item.bytes.length ≤ room.length)
    : turn input (.of read produced room, copied)
        = .go (.of (read + item.encode.length) (item.expand produced)
          (room.drop (item.repeated + item.bytes.length)), item.after)
      ∧ input.drop (read + item.encode.length) = rest := by
  have whole : (produced ++ room).length = produced.length + room.length := List.length_append
  have split : item.encode.length = item.header.length + item.bytes.length :=
    List.length_append
  rw [Item.encode, List.append_assoc] at left
  have within : read + item.header.length ≤ input.length := by
    have same := congrArg List.length left
    rw [List.length_drop, List.length_append] at same
    have : item.header.length ≤ input.length - read := by omega
    omega
  obtain ⟨readItem, left⟩ := instruction_of_item small fits (by omega) (by omega) left
  rw [split, ← Nat.add_assoc]
  cases item with
  | run bytes =>
      change input.drop (read + (Item.run bytes).header.length) = bytes ++ rest at left
      have room_ : bytes.length ≤ room.length := by
        change 0 + bytes.length ≤ room.length at space
        omega
      obtain ⟨copied_, left⟩ := literals_of_drop small roomy left within room_
      refine ⟨?_, left⟩
      unfold turn
      change Loop.orStop (instruction input read copied >>= _) = _
      rw [readItem, ok_bind]
      change Loop.orStop (literals input (.of _ produced room) bytes.length >>= _) = _
      rw [copied_, show (Item.run bytes).repeated + (Item.run bytes).bytes.length = bytes.length
        from Nat.zero_add _]
      rfl
  | copy row distance length bytes =>
      change input.drop (read + (row.header distance length bytes.length).length)
        = bytes ++ rest at left
      change length + bytes.length ≤ room.length at space
      have pos : 0 < distance := Row.pos fits.1
      change distance ≤ produced.length at reaches
      have grown := @Lz77.length_repeatFrom _ produced distance length pos reaches
      have repeated := @repeat_of_reach produced room
        (read + (row.header distance length bytes.length).length) distance length roomy pos
        reaches (by omega)
      obtain ⟨copied_, left⟩ := @literals_of_drop input rest
        (Lz77.repeatFrom produced distance length) (room.drop length) bytes _ small
        (by rw [List.length_append, List.length_drop]; omega) left within
        (by rw [List.length_drop]; omega)
      refine ⟨?_, left⟩
      unfold turn
      change Loop.orStop (instruction input read copied >>= _) = _
      rw [readItem, ok_bind]
      change Loop.orStop (repeat_ (.of _ produced room) distance length >>= _) = _
      have header : (Item.copy row distance length bytes).header
        = row.header distance length bytes.length := rfl
      rw [header, repeated, ok_bind, copied_, List.drop_drop]
      rfl

/-- A turn where the end stands and nothing is behind it answers. -/
theorem turn_of_ending {input produced room : Bytes} {read length count : Nat} {copied : Copied}
    (small : input.length < 2 ^ 63) (least : 3 ≤ length) (most : length < 2 ^ 64)
    (few : count ≤ 3) (left : input.drop read = ending length count)
    : turn input (.of read produced room, copied)
      = .stop (.ok (produced.length, produced ++ room)) := by
  have stop : read + (ending length count).length = input.length := by
    have same := congrArg List.length left
    rw [List.length_drop] at same
    have : 0 < (ending length count).length := by simp [ending]
    omega
  obtain ⟨readEnd, -⟩ := instruction_of_ending small least most few
    (left.trans (List.append_nil _).symm)
  unfold turn
  change Loop.orStop (instruction input read copied >>= _) = _
  rw [readEnd, ok_bind, stop]
  change Loop.orStop (if input.length = input.length then _ else _) = _
  rw [if_pos rfl]
  rfl

/-- The turns over the items that stand in the stream, by induction on them. -/
theorem run_of_items {input produced room : Bytes} {read turns length count : Nat}
    {copied : Copied} {items : List Item} (small : input.length < 2 ^ 63)
    (roomy : (produced ++ room).length < 2 ^ 63) (order : read ≤ input.length)
    (enough : input.length < turns + read) (reach : Reach items copied produced)
    (least : 3 ≤ length) (most : length < 2 ^ 64) (few : count ≤ 3)
    (left : input.drop read = items.flatMap Item.encode ++ ending length count)
    (space : (expand items produced).length ≤ produced.length + room.length)
    : Loop.run (turn input) turns (.of read produced room, copied)
      = some (.ok ((expand items produced).length, expand items produced
        ++ room.drop ((expand items produced).length - produced.length))) := by
  induction items generalizing produced room read copied turns with
  | nil =>
      cases turns with
      | zero =>
          have same := congrArg List.length left
          rw [List.length_drop] at same
          simp [ending] at same
          omega
      | succ turns =>
          rw [Loop.run, turn_of_ending small least most few left]
          simp [expand]
  | cons item rest ih =>
      have grown := Item.length_expand reach.1 reach.2.1
      have more := length_le_expand reach.2.2
      have whole : (produced ++ room).length = produced.length + room.length :=
        List.length_append
      change (expand rest (item.expand produced)).length ≤ _ at space
      rw [List.flatMap_cons, List.append_assoc] at left
      have inside : item.encode.length ≤ input.length - read := by
        have same := congrArg List.length left
        rw [List.length_drop, List.length_append] at same
        omega
      have pos : 0 < item.encode.length := item.encode_pos
      obtain ⟨went, behind⟩ := turn_of_item small roomy order left reach.1 reach.2.1 (by omega)
      cases turns with
      | zero => omega
      | succ turns =>
          rw [Loop.run, went]
          dsimp only
          rw [ih (by rw [List.length_append, List.length_drop]; omega) (by omega) (by omega)
            reach.2.2 behind (by rw [List.length_drop]; omega), List.drop_drop, grown]
          have same : item.repeated + item.bytes.length
              + ((expand rest (item.expand produced)).length
                - (produced.length + item.repeated + item.bytes.length))
              = (expand rest (item.expand produced)).length - produced.length := by omega
          rw [same]
          rfl

/-- The first byte of a stream that opens as any instruction reads as one. -/
theorem head_lt_of_plain {stream : Stream} {first : UInt8} (plain : stream.opening = [])
    (here : stream.bytes[0]? = some first) : first.toNat < 18 := by
  have head : stream.head = [] := if_pos plain
  rw [Stream.bytes, head, List.nil_append] at here
  have reach := stream.reach
  have small := stream.plain plain
  cases items : stream.items with
  | nil =>
      rw [items] at here
      obtain rfl : UInt8.ofNat (16 + field 3 (stream.endLength - 2)) = first :=
        Option.some.inj here
      have few := small items
      rw [toNat_ofNat (by omega)]
      omega
  | cons item rest =>
      rw [items, plain] at reach
      rw [items] at here
      cases item with
      | run bytes =>
          obtain rfl : UInt8.ofNat (field 4 (bytes.length - 3)) = first := Option.some.inj here
          have narrow := field_lt 4 (bytes.length - 3)
          rw [toNat_ofNat (by omega)]
          omega
      | copy row distance length bytes =>
          have pos := Row.pos reach.1.1
          have none_ : distance ≤ 0 := reach.2.1
          omega

/-- The first byte's own form leaves its literals behind it, and nothing where it is not taken. -/
theorem opening_of_stream {stream : Stream} {out : Bytes} (small : stream.bytes.length < 2 ^ 63)
    (roomy : out.length < 2 ^ 63) (space : stream.opening.length ≤ out.length)
    : opening stream.bytes ⟨0, out, 0⟩
        = .ok (.of stream.head.length stream.opening (out.drop stream.opening.length),
          .after stream.opening.length)
      ∧ stream.bytes.drop stream.head.length
        = stream.items.flatMap Item.encode ++ ending stream.endLength stream.endCount := by
  have behind : stream.bytes.drop stream.head.length
      = stream.items.flatMap Item.encode ++ ending stream.endLength stream.endCount := by
    rw [Stream.bytes, List.append_assoc, List.drop_left]
  refine ⟨?_, behind⟩
  by_cases plain : stream.opening = []
  · have head : stream.head = [] := if_pos plain
    rw [head, plain]
    unfold opening
    cases here : stream.bytes[0]? with
    | none => rfl
    | some first =>
        have below := head_lt_of_plain plain here
        dsimp only
        rw [if_neg (by omega)]
        rfl
  · have head : stream.head = UInt8.ofNat (17 + stream.opening.length) :: stream.opening :=
      if_neg plain
    have pos := List.length_pos_iff.mpr plain
    have short := stream.short
    have first : (UInt8.ofNat (17 + stream.opening.length)).toNat = 17 + stream.opening.length :=
      toNat_ofNat (by omega)
    have here : stream.bytes[0]? = some (UInt8.ofNat (17 + stream.opening.length)) := by
      rw [Stream.bytes, head]
      rfl
    have left : stream.bytes.drop 1 = stream.opening
        ++ (stream.items.flatMap Item.encode ++ ending stream.endLength stream.endCount) := by
      rw [Stream.bytes, head, List.append_assoc]
      rfl
    have inside : 1 ≤ stream.bytes.length := by
      rw [Stream.bytes, head]
      simp
    obtain ⟨copied, -⟩ := @literals_of_drop stream.bytes _ [] out stream.opening 1 small roomy
      left inside space
    unfold opening
    rw [here]
    dsimp only
    rw [first, if_pos (by omega), plus_of_lt (by omega), ok_bind, Nat.add_sub_cancel_left]
    change (literals stream.bytes (.of 1 [] out) stream.opening.length >>= _) = _
    rw [copied, head, List.length_cons, Nat.add_comm 1]
    rfl

/-- A stream decodes, in whatever buffer holds it, to what it expands to. -/
theorem decompress_bytes (stream : Stream) (out : Bytes) (small : stream.bytes.length < 2 ^ 63)
    (roomy : out.length < 2 ^ 63) (space : stream.expansion.length ≤ out.length)
    : decompress stream.bytes out
      = .ok (stream.expansion.length, stream.expansion ++ out.drop stream.expansion.length) := by
  have least := length_le_expand stream.reach
  change stream.opening.length ≤ stream.expansion.length at least
  obtain ⟨opened, left⟩ := opening_of_stream small roomy (by omega)
  have inside : stream.head.length ≤ stream.bytes.length := by
    rw [Stream.bytes, List.append_assoc, List.length_append]
    omega
  unfold decompress run
  rw [opened, ok_bind, run_of_items small (by rw [List.length_append, List.length_drop]; omega)
    inside (by omega) stream.reach stream.least stream.most stream.few left
    (by rw [List.length_drop]; change stream.expansion.length ≤ _; omega), List.drop_drop]
  change Except.ok (stream.expansion.length, stream.expansion ++ _) = _
  congr 4
  change _ + (stream.expansion.length - _) = _
  omega

end Ferrosys.Compress.Lzo
