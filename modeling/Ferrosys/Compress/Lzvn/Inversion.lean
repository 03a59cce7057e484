import Ferrosys.Compress.Lzvn.Encoding

/-! The decoder inverts the encoding: it takes a stream exactly when the stream is the encoding of
instructions whose matches all reach, and leaves what they expand to.
-/

namespace Ferrosys.Compress.Lzvn

open Checked Machine Splice

/-- An instruction: its fields in their row's range, and its literal's bytes. -/
structure Instruction where
  form : Form
  literal : Bytes
  fits : form.Fits
  sized : literal.length = form.literalLen

/-- What has been produced, and the distance of the last match. -/
structure History where
  produced : Bytes
  distance : Nat
deriving DecidableEq

namespace Instruction

def encode (instruction : Instruction) : Bytes := instruction.form.bytes ++ instruction.literal

/-- How many bytes an instruction produces. -/
def size (instruction : Instruction) : Nat :=
  instruction.form.literalLen + instruction.form.matchedLen

/-- The match of an instruction, where it has one, reaches into what is already there. -/
def Reaches (instruction : Instruction) (history : History) : Prop :=
  0 < instruction.form.matchedLen →
    0 < instruction.form.distanceAfter history.distance
      ∧ instruction.form.distanceAfter history.distance
        ≤ history.produced.length + instruction.literal.length

instance (instruction : Instruction) (history : History)
    : Decidable (instruction.Reaches history) :=
  inferInstanceAs (Decidable (_ → _))

/-- The literal, and behind it the match repeated from what is there. -/
def expand (instruction : Instruction) (history : History) : History where
  produced := Lz77.repeatFrom (history.produced ++ instruction.literal)
    (instruction.form.distanceAfter history.distance) instruction.form.matchedLen
  distance :=
    if 0 < instruction.form.matchedLen then instruction.form.distanceAfter history.distance
    else history.distance

end Instruction

/-- Every match of the instructions reaches into what is there when its turn comes. -/
def Reach : List Instruction → History → Prop
  | [], _ => True
  | instruction :: rest, history =>
      instruction.Reaches history ∧ Reach rest (instruction.expand history)

/-- What the instructions make of what was there. -/
def expand (instructions : List Instruction) (history : History) : History :=
  instructions.foldl (fun history instruction => instruction.expand history) history

def encode (instructions : List Instruction) : Bytes :=
  instructions.flatMap Instruction.encode

theorem length_encode (instruction : Instruction)
    : instruction.encode.length
      = instruction.form.header.length + instruction.form.literalLen := by
  rw [Instruction.encode, List.length_append, Form.bytes, List.length_map, instruction.sized]

/-- An instruction that reaches produces as many bytes as it says. -/
theorem Instruction.length_expand {instruction : Instruction} {history : History}
    (reaches : instruction.Reaches history)
    : (instruction.expand history).produced.length
      = history.produced.length + instruction.size := by
  rw [Instruction.expand, Instruction.size]
  rcases Nat.eq_zero_or_pos instruction.form.matchedLen with none_ | some_
  · rw [none_, Lz77.repeatFrom_zero, List.length_append, instruction.sized, Nat.add_zero]
  · obtain ⟨pos, inside⟩ := reaches some_
    rw [Lz77.length_repeatFrom pos (by rwa [List.length_append]), List.length_append,
      instruction.sized, Nat.add_assoc]

/-- Instructions that reach only add to what was there, by induction on them. -/
theorem length_expand {instructions : List Instruction} {history : History}
    (reach : Reach instructions history)
    : (expand instructions history).produced.length
      = history.produced.length + (instructions.map Instruction.size).sum := by
  induction instructions generalizing history with
  | nil => rfl
  | cons instruction rest ih =>
      have later := ih reach.2
      rw [Instruction.length_expand reach.1] at later
      rw [List.map_cons, List.sum_cons, ← Nat.add_assoc, ← later]
      rfl

/-- Instructions leave what was there, by induction on them. -/
theorem prefix_expand (instructions : List Instruction) (history : History)
    : history.produced <+: (expand instructions history).produced := by
  induction instructions generalizing history with
  | nil => exact List.prefix_rfl
  | cons instruction rest ih =>
      exact ((List.prefix_append _ _).trans (Lz77.prefix_repeatFrom _ _ _)).trans
        (ih (instruction.expand history))

/-- Where the decoder stands with so much read, so much produced and so much room left. -/
def State.of (src : Nat) (history : History) (room : Bytes) : State :=
  ⟨src, history.produced.length, history.distance, history.produced ++ room⟩

/-- What carrying out an instruction comes to. -/
theorem perform_eq {input room : Bytes} {history : History}
    {src header literal matched at_ : Nat} (small : input.length < 2 ^ 63)
    (roomy : (history.produced ++ room).length < 2 ^ 63)
    (fits : src + header + literal < 2 ^ 64) (few : literal + matched < 2 ^ 64)
    : perform input (.of src history room) header literal matched at_
      = if input.length ≤ src + header + literal then
          malformed "an instruction runs past the end of the stream"
        else if room.length < literal + matched then
          refuse (.overrun .lzvn (history.produced ++ room).length)
        else if 0 < matched ∧ (at_ = 0 ∨ history.produced.length + literal < at_) then
          malformed "a match reaches before the start of the output"
        else .ok (.of (src + header + literal)
          ⟨Lz77.repeatFrom (history.produced ++ slice input (src + header) literal) at_ matched,
            if 0 < matched then at_ else history.distance⟩
          (room.drop (literal + matched))) := by
  have whole : (history.produced ++ room).length = history.produced.length + room.length :=
    List.length_append
  unfold perform State.of
  dsimp only
  rw [plus_of_lt (by omega), ok_bind, plus_of_lt fits, ok_bind]
  by_cases cut : input.length ≤ src + header + literal
  · rw [if_pos cut, if_pos cut]
  rw [if_neg cut, if_neg cut, minus_of_le (by omega), ok_bind, plus_of_lt few, ok_bind]
  have left : (history.produced ++ room).length - history.produced.length = room.length := by
    omega
  rw [left]
  by_cases full : room.length < literal + matched
  · rw [if_pos full, if_pos full]
  rw [if_neg full, if_neg full, range_of_le (by omega) (by omega), ok_bind,
    plus_of_lt (by omega), ok_bind, Nat.add_sub_cancel_left]
  have taken : (slice input (src + header) literal).length = literal :=
    length_slice (by omega)
  have write := @copyFromSlice_produced history.produced room
    (slice input (src + header) literal) (by omega)
  rw [taken] at write
  rw [write, ok_bind]
  have length : (history.produced ++ slice input (src + header) literal).length
      = history.produced.length + literal := by rw [List.length_append, taken]
  by_cases any : 0 < matched
  · rw [if_pos any]
    by_cases bad : at_ = 0 ∨ history.produced.length + literal < at_
    · rw [if_pos ⟨any, bad⟩]
      unfold copyBack
      rw [if_pos bad]
      rfl
    · have copied := @copyBack_produced at_ matched
        (history.produced ++ slice input (src + header) literal) (room.drop literal)
        (by omega) (by omega) (by rw [List.length_drop]; omega)
        (by rw [List.length_append, length, List.length_drop]; omega)
      rw [length] at copied
      rw [if_neg (fun both => bad both.2), copied, ok_bind]
      dsimp only
      rw [if_pos rfl, plus_of_lt (by omega), ok_bind, if_pos any, Nat.add_assoc _ literal,
        List.drop_drop, Lz77.length_repeatFrom (by omega) (by omega), length]
      rw [Nat.add_assoc _ literal]
      rfl
  · obtain rfl : matched = 0 := Nat.eq_zero_of_not_pos any
    rw [if_neg any, if_neg (fun both => any both.1), if_neg any, Lz77.repeatFrom_zero, length,
      Nat.add_zero]

/-- A turn on an instruction is its reading and its carrying out. -/
theorem turn_of_op {input room : Bytes} {history : History} {src : Nat} {op : UInt8}
    (here : input[src]? = some op) (other : op.toNat ≠ 0x06)
    : turn input (.of src history room) = Loop.orStop (do
        let (header, literal, matched, at_) ← operation input src history.distance op.toNat
        return .go (← perform input (.of src history room) header literal matched at_)) := by
  unfold turn State.of
  dsimp only
  rw [here]
  dsimp only
  rw [if_neg other]

/-- A turn on an instruction that reaches, and whose output there is room for, carries it out. -/
theorem turn_of_instruction {input room behind : Bytes} {history : History} {src : Nat}
    {instruction : Instruction} (small : input.length < 2 ^ 63)
    (roomy : (history.produced ++ room).length < 2 ^ 63)
    (left : input.drop src = instruction.encode ++ behind) (more : behind ≠ [])
    (reaches : instruction.Reaches history) (fits : instruction.size ≤ room.length)
    : turn input (.of src history room)
      = .go (.of (src + instruction.encode.length) (instruction.expand history)
          (room.drop instruction.size)) := by
  have length := length_encode instruction
  have inside : src + instruction.encode.length < input.length := by
    have same := congrArg List.length left
    rw [List.length_drop, List.length_append] at same
    have pos := List.length_pos_iff.mpr more
    omega
  have whole : (history.produced ++ room).length = history.produced.length + room.length :=
    List.length_append
  unfold Instruction.size at fits
  rw [Instruction.encode, List.append_assoc] at left
  obtain ⟨op, here, other, read⟩ := operation_of_form instruction.fits history.distance
    left (by omega)
  have literal : slice input (src + instruction.form.header.length) instruction.form.literalLen
      = instruction.literal := by
    have header : instruction.form.bytes.length = instruction.form.header.length :=
      List.length_map _
    unfold slice
    rw [← List.drop_drop, left, ← header, List.drop_left, ← instruction.sized, List.take_left]
  have inside_ : ¬ (0 < instruction.form.matchedLen
      ∧ (instruction.form.distanceAfter history.distance = 0
        ∨ history.produced.length + instruction.form.literalLen
          < instruction.form.distanceAfter history.distance)) := by
    rintro ⟨pos, bad⟩
    obtain ⟨some_, within⟩ := reaches pos
    rw [instruction.sized] at within
    omega
  rw [turn_of_op here other, read, ok_bind]
  dsimp only
  rw [perform_eq small roomy (by omega) (by omega), if_neg (by omega), if_neg (by omega),
    if_neg inside_, ok_bind, literal, length, ← Nat.add_assoc]
  rfl

/-- A turn that goes on carried out an instruction. -/
theorem instruction_of_turn {input room : Bytes} {history : History} {src : Nat} {next : State}
    (small : input.length < 2 ^ 63) (roomy : (history.produced ++ room).length < 2 ^ 63)
    (went : turn input (.of src history room) = .go next)
    : ∃ (instruction : Instruction) (behind : Bytes),
        input.drop src = instruction.encode ++ behind ∧ behind ≠ []
          ∧ instruction.Reaches history ∧ instruction.size ≤ room.length := by
  have read := Loop.orStop_eq_go went
  cases here : input[src]? with
  | none =>
      rw [show (State.of src history room).src = src from rfl, here] at read
      cases read
  | some op =>
      by_cases end_ : op.toNat = 0x06
      · rw [show (State.of src history room).src = src from rfl, here] at read
        dsimp only at read
        rw [if_pos end_] at read
        obtain ⟨left, -, read⟩ := bind_eq_ok.mp read
        by_cases cut : left < endLen
        · rw [if_pos cut] at read
          cases read
        · rw [if_neg cut] at read
          obtain ⟨stop, -, read⟩ := bind_eq_ok.mp read
          cases read
      · rw [turn_of_op here end_] at went
        obtain ⟨⟨header, literal, matched, at_⟩, opened, read⟩ :=
          bind_eq_ok.mp (Loop.orStop_eq_go went)
        obtain ⟨next, carried, -⟩ := bind_eq_ok.mp read
        have inside := (List.getElem?_eq_some_iff.mp here).1
        obtain ⟨form, fits, ⟨rest, left⟩, rfl, rfl, rfl, rfl⟩ :=
          form_of_operation here end_ (by omega) opened
        have short := form.header_le
        have few := form.lengths_le fits
        rw [perform_eq small roomy (by omega) (by omega)] at carried
        by_cases cut : input.length ≤ src + form.header.length + form.literalLen
        · rw [if_pos cut] at carried
          cases carried
        rw [if_neg cut] at carried
        by_cases full : room.length < form.literalLen + form.matchedLen
        · rw [if_pos full] at carried
          cases carried
        rw [if_neg full] at carried
        by_cases bad : 0 < form.matchedLen ∧ (form.distanceAfter history.distance = 0
            ∨ history.produced.length + form.literalLen < form.distanceAfter history.distance)
        · rw [if_pos bad] at carried
          cases carried
        have length : form.bytes.length = form.header.length := List.length_map _
        have rest_ : rest.length = input.length - src - form.header.length := by
          have same := congrArg List.length left
          rw [List.length_drop, List.length_append] at same
          omega
        have sized : (rest.take form.literalLen).length = form.literalLen := by
          rw [List.length_take]
          omega
        refine ⟨⟨form, rest.take form.literalLen, fits, sized⟩, rest.drop form.literalLen, ?_,
          ?_, ?_, (show form.literalLen + form.matchedLen ≤ room.length by omega)⟩
        · rw [left, Instruction.encode, List.append_assoc, List.take_append_drop]
        · rw [← List.length_pos_iff, List.length_drop]
          omega
        · intro pos
          dsimp only at pos ⊢
          rw [sized]
          omega

/-- A turn that answers met an end marker. -/
theorem turn_eq_stop {input room : Bytes} {history : History} {src : Nat}
    {answer : Nat × Nat × Bytes} (small : input.length < 2 ^ 63)
    : turn input (.of src history room) = .stop (.ok answer)
      ↔ ∃ padding behind : Bytes, padding.length = 7
        ∧ input.drop src = 0x06 :: padding ++ behind
        ∧ answer = (src + endLen, history.produced.length, history.produced ++ room) := by
  have first : (input.drop src)[0]? = input[src]? := by rw [List.getElem?_drop, Nat.add_zero]
  cases here : input[src]? with
  | none =>
      refine iff_of_false (fun stopped => ?_) ?_
      · have read := Loop.orStop_eq_stop stopped
        rw [show (State.of src history room).src = src from rfl, here] at read
        cases read
      · rintro ⟨padding, behind, -, left, -⟩
        rw [here, left] at first
        cases first
  | some op =>
      have inside := (List.getElem?_eq_some_iff.mp here).1
      by_cases end_ : op.toNat = 0x06
      · have six : op = 0x06 := UInt8.toNat_inj.mp end_
        have marked : turn input (.of src history room)
            = Loop.orStop (if input.length - src < endLen then
                malformed "the end marker is cut short"
              else .ok (.stop (.ok (src + endLen, history.produced.length,
                history.produced ++ room)))) := by
          unfold turn State.of
          dsimp only
          rw [here]
          dsimp only
          rw [if_pos end_, minus_of_le inside.le, ok_bind,
            plus_of_lt (by rw [endLen]; omega)]
          rfl
        have left : input.drop src = 0x06 :: input.drop (src + 1) := by
          rw [List.drop_eq_getElem_cons inside, ← six]
          exact congrArg (· :: _) (List.getElem?_eq_some_iff.mp here).2
        rw [marked]
        by_cases cut : input.length - src < endLen
        · rw [if_pos cut]
          refine iff_of_false nofun ?_
          rintro ⟨padding, behind, seven, same, -⟩
          have length := congrArg List.length same
          rw [List.length_drop, List.cons_append, List.length_cons, List.length_append] at length
          unfold endLen at cut
          omega
        · rw [if_neg cut]
          constructor
          · intro stopped
            obtain rfl := Except.ok.inj (Loop.Next.stop.inj stopped)
            unfold endLen at cut
            refine ⟨(input.drop (src + 1)).take 7, (input.drop (src + 1)).drop 7, ?_, ?_, rfl⟩
            · rw [List.length_take, List.length_drop]
              omega
            · rw [left, List.cons_append, List.take_append_drop]
          · rintro ⟨-, -, -, -, rfl⟩
            rfl
      · refine iff_of_false (fun stopped => ?_) ?_
        · rw [turn_of_op here end_] at stopped
          obtain ⟨fields, -, read⟩ := bind_eq_ok.mp (Loop.orStop_eq_stop stopped)
          obtain ⟨next, -, read⟩ := bind_eq_ok.mp read
          cases read
        · rintro ⟨padding, behind, -, left, -⟩
          rw [here, left] at first
          obtain rfl : 0x06 = op := Option.some.inj first
          exact end_ rfl

theorem byte_safe {input : Bytes} {src index : Nat} (fits : src + index < 2 ^ 64)
    : Safe (byte input src index) := by
  rw [byte_eq rfl fits]
  cases (input.drop src)[index]? with
  | none => exact safe_refuse _
  | some b => exact safe_ok _

/-- Reading an instruction does not panic. -/
theorem operation_safe {input : Bytes} {src last op : Nat} (fits : src + 3 < 2 ^ 64)
    : Safe (operation input src last op) := by
  have one : Safe (byte input src 1) := byte_safe (by omega)
  have two : Safe (byte input src 2) := byte_safe (by omega)
  have longer : ∀ n, byte input src 1 = .ok n → Safe (plus n 16) := by
    intro n read
    obtain ⟨b, -, rfl⟩ := (byte_eq_ok rfl (by omega)).mp read
    have small := b.toNat_lt
    rw [plus_of_lt (by omega)]
    exact safe_ok _
  unfold operation
  dsimp only
  split_ifs
  · exact safe_ok _
  · exact safe_refuse _
  · exact one.bind fun n read => (longer n read).bind fun _ _ => safe_ok _
  · exact safe_ok _
  · exact one.bind fun n read => (longer n read).bind fun _ _ => safe_ok _
  · exact safe_ok _
  · exact one.bind fun _ _ => two.bind fun _ _ => safe_ok _
  · exact one.bind fun _ _ => two.bind fun _ _ => safe_ok _
  · exact safe_ok _
  · exact one.bind fun _ _ => safe_ok _

/-- Carrying out an instruction that was read does not panic. -/
theorem perform_safe {input room : Bytes} {history : History}
    {src header literal matched at_ : Nat} (small : input.length < 2 ^ 63)
    (roomy : (history.produced ++ room).length < 2 ^ 63)
    (fits : src + header + literal < 2 ^ 64) (few : literal + matched < 2 ^ 64)
    : Safe (perform input (.of src history room) header literal matched at_) := by
  rw [perform_eq small roomy fits few]
  split_ifs
  · exact safe_refuse _
  · exact safe_refuse _
  · exact safe_refuse _
  · exact safe_ok _
  · exact safe_ok _

/-- No turn panics. -/
theorem turn_safe {input room : Bytes} {history : History} {src : Nat}
    (small : input.length < 2 ^ 63) (roomy : (history.produced ++ room).length < 2 ^ 63)
    : turn input (.of src history room) ≠ .stop (.error .panicked) := by
  cases here : input[src]? with
  | none =>
      unfold turn State.of
      dsimp only
      rw [here]
      nofun
  | some op =>
      have inside := (List.getElem?_eq_some_iff.mp here).1
      by_cases end_ : op.toNat = 0x06
      · unfold turn State.of
        dsimp only
        rw [here]
        dsimp only
        rw [if_pos end_, minus_of_le inside.le, ok_bind, plus_of_lt (by rw [endLen]; omega)]
        split_ifs
        · nofun
        · nofun
      · rw [turn_of_op here end_]
        cases read : operation input src history.distance op.toNat with
        | error fault =>
            rintro ⟨⟩
            exact operation_safe (by omega) read
        | ok fields =>
            obtain ⟨header, literal, matched, at_⟩ := fields
            obtain ⟨form, fits, -, rfl, rfl, rfl, rfl⟩ :=
              form_of_operation here end_ (by omega) read
            have short := form.header_le
            have few := form.lengths_le fits
            rw [ok_bind]
            dsimp only
            cases carried : perform input (.of src history room) form.header.length
              form.literalLen form.matchedLen (form.distanceAfter history.distance) with
            | error fault =>
                rintro ⟨⟩
                exact perform_safe small roomy (by omega) (by omega) carried
            | ok next => nofun

/-- How a stream is closed: the marker, and the seven bytes that fill it up. -/
def endMarker (padding : Bytes) : Bytes := 0x06 :: padding

/-- Where the encoding of instructions that reach and an end marker is what is left of a stream,
the decoder answers with what they expand to, by induction on the instructions.
-/
theorem run_of_encode {input room padding behind : Bytes} {instructions : List Instruction}
    {history : History} {src : Nat} (turns : Nat) (small : input.length < 2 ^ 63)
    (roomy : (history.produced ++ room).length < 2 ^ 63) (enough : input.length < turns + src)
    (seven : padding.length = 7)
    (left : input.drop src = encode instructions ++ endMarker padding ++ behind)
    (reach : Reach instructions history)
    (fits : (instructions.map Instruction.size).sum ≤ room.length)
    : Loop.run (turn input) turns (.of src history room)
      = some (.ok (src + (encode instructions).length + endLen,
        (expand instructions history).produced.length,
        (expand instructions history).produced
          ++ room.drop (instructions.map Instruction.size).sum)) := by
  induction instructions generalizing src history room turns with
  | nil =>
      have stops : turn input (.of src history room)
          = .stop (.ok (src + endLen, history.produced.length, history.produced ++ room)) :=
        (turn_eq_stop small).mpr ⟨padding, behind, seven, left, rfl⟩
      cases turns with
      | zero =>
          have length := congrArg List.length left
          simp [encode, endMarker] at length
          omega
      | succ turns =>
          rw [Loop.run, stops]
          rfl
  | cons instruction rest ih =>
      rw [List.map_cons, List.sum_cons] at fits ⊢
      have more : encode rest ++ endMarker padding ++ behind ≠ [] := by simp [endMarker]
      have parts : encode (instruction :: rest) = instruction.encode ++ encode rest := rfl
      rw [parts, List.append_assoc, List.append_assoc] at left
      rw [List.append_assoc] at more
      have went := turn_of_instruction small roomy left more reach.1 (by omega)
      have grown := Instruction.length_expand reach.1
      have pos := instruction.form.header_pos
      have length := length_encode instruction
      rw [List.length_append] at roomy
      cases turns with
      | zero =>
          have same := congrArg List.length left
          rw [List.length_drop, List.length_append] at same
          omega
      | succ turns =>
          rw [Loop.run, went]
          dsimp only
          rw [ih turns (by rw [List.length_append, List.length_drop]; omega) (by omega)
            (by rw [← List.drop_drop, left, List.drop_left, List.append_assoc]) reach.2
            (by rw [List.length_drop]; omega), List.drop_drop, parts, List.length_append,
            Nat.add_assoc src]
          rfl

/-- What the decoder answers for is the encoding of instructions that reach and an end marker, by
induction on the turns left.
-/
theorem encode_of_run {input room : Bytes} {history : History} {src turns : Nat}
    {answer : Nat × Nat × Bytes} (small : input.length < 2 ^ 63)
    (roomy : (history.produced ++ room).length < 2 ^ 63)
    (answered : Loop.run (turn input) turns (.of src history room) = some (.ok answer))
    : ∃ instructions padding behind, padding.length = 7
        ∧ input.drop src = encode instructions ++ endMarker padding ++ behind
        ∧ Reach instructions history
        ∧ (instructions.map Instruction.size).sum ≤ room.length := by
  induction turns generalizing src history room with
  | zero => cases answered
  | succ turns ih =>
      rw [Loop.run] at answered
      cases turned : turn input (.of src history room) with
      | stop result =>
          rw [turned] at answered
          obtain rfl := Option.some.inj answered
          obtain ⟨padding, behind, seven, left, -⟩ := (turn_eq_stop small).mp turned
          exact ⟨[], padding, behind, seven, left, trivial, Nat.zero_le _⟩
      | go next =>
          rw [turned] at answered
          obtain ⟨instruction, behind, left, more, reaches, fits⟩ :=
            instruction_of_turn small roomy turned
          rw [turn_of_instruction small roomy left more reaches fits] at turned
          obtain rfl := Loop.Next.go.inj turned
          have grown := Instruction.length_expand reaches
          rw [List.length_append] at roomy
          obtain ⟨rest, padding, behind_, seven, later, reach, within⟩ :=
            ih (by rw [List.length_append, List.length_drop]; omega) answered
          rw [List.length_drop] at within
          refine ⟨instruction :: rest, padding, behind_, seven, ?_, ⟨reaches, reach⟩, ?_⟩
          · rw [← List.drop_drop, left, List.drop_left] at later
            rw [left, later]
            simp only [encode, List.flatMap_cons, List.append_assoc]
          · rw [List.map_cons, List.sum_cons]
            omega

/-- The decoder's turns suffice, and none of them panics, by induction on the turns left. -/
theorem run_safe {input room : Bytes} {history : History} {src turns : Nat}
    (small : input.length < 2 ^ 63) (roomy : (history.produced ++ room).length < 2 ^ 63)
    (enough : input.length < turns + src) (order : src ≤ input.length)
    : ∃ answer, Loop.run (turn input) turns (.of src history room) = some answer
      ∧ Safe answer := by
  induction turns generalizing src history room with
  | zero => omega
  | succ turns ih =>
      rw [Loop.run]
      cases turned : turn input (.of src history room) with
      | stop result =>
          refine ⟨result, rfl, ?_⟩
          rintro rfl
          exact turn_safe small roomy turned
      | go next =>
          obtain ⟨instruction, behind, left, more, reaches, fits⟩ :=
            instruction_of_turn small roomy turned
          rw [turn_of_instruction small roomy left more reaches fits] at turned
          obtain rfl := Loop.Next.go.inj turned
          have grown := Instruction.length_expand reaches
          have pos := instruction.form.header_pos
          have length := length_encode instruction
          have same := congrArg List.length left
          rw [List.length_drop, List.length_append] at same
          rw [List.length_append] at roomy
          exact ih (by rw [List.length_append, List.length_drop]; omega) (by omega) (by omega)

/-- The decoder takes a stream exactly when it is the encoding of instructions whose matches all
reach, an end marker and whatever follows, and there is room for what they expand to; it answers
where the marker and the expansion end and leaves the expansion, and refuses every other stream.
-/
theorem decodeFrom_inverts (input out : Bytes) (start : Nat)
    (small : input.length < 2 ^ 63) (roomy : out.length < 2 ^ 63) (order : start ≤ out.length)
    : (∀ used reached after, decodeFrom input out start = .ok (used, reached, after)
        ↔ ∃ instructions padding behind, padding.length = 7
          ∧ input = encode instructions ++ endMarker padding ++ behind
          ∧ Reach instructions ⟨out.take start, 0⟩
          ∧ used = (encode instructions ++ endMarker padding).length
          ∧ reached = (expand instructions ⟨out.take start, 0⟩).produced.length
          ∧ reached ≤ out.length
          ∧ after = (expand instructions ⟨out.take start, 0⟩).produced ++ out.drop reached)
      ∧ ∀ fault, decodeFrom input out start = .error fault → ∃ error, fault = .refused error := by
  have taken : (out.take start).length = start := by
    rw [List.length_take]
    omega
  have begins : (⟨0, start, 0, out⟩ : State) = .of 0 ⟨out.take start, 0⟩ (out.drop start) := by
    simp [State.of, order]
  have whole : (out.take start ++ out.drop start).length < 2 ^ 63 := by
    rwa [List.take_append_drop]
  obtain ⟨answer, answered, safe⟩ : ∃ answer, Loop.run (turn input) (input.length + 1)
      (.of 0 ⟨out.take start, 0⟩ (out.drop start)) = some answer ∧ Safe answer :=
    run_safe small whole (by omega) (Nat.zero_le _)
  have decoded : decodeFrom input out start = answer := by
    rw [decodeFrom, begins, answered]
    rfl
  refine ⟨fun used reached after => ?_, fun fault failed => ?_⟩
  · constructor
    · intro accepted
      rw [decoded] at accepted
      subst accepted
      obtain ⟨instructions, padding, behind, seven, left, reach, fits⟩ :=
        encode_of_run small whole answered
      have grown := length_expand reach
      simp only [taken] at grown
      have same := run_of_encode (input.length + 1) small whole (by omega) seven left reach fits
      rw [answered] at same
      obtain ⟨rfl, ends⟩ := Prod.mk.inj (Except.ok.inj (Option.some.inj same))
      obtain ⟨rfl, rfl⟩ := Prod.mk.inj ends
      rw [List.length_drop] at fits
      refine ⟨instructions, padding, behind, seven, left, reach, ?_, rfl, ?_, ?_⟩
      · rw [List.length_append, endMarker, List.length_cons, seven, endLen, Nat.zero_add]
      · omega
      · rw [List.drop_drop, grown]
    · rintro ⟨instructions, padding, behind, seven, left, reach, rfl, rfl, within, rfl⟩
      have grown := length_expand reach
      simp only [taken] at grown
      have same := run_of_encode (input.length + 1) small whole (by omega) seven
        (by rwa [List.drop_zero]) reach (by rw [List.length_drop]; omega)
      rw [answered] at same
      rw [decoded, Option.some.inj same, List.drop_drop, grown, List.length_append,
        endMarker, List.length_cons, seven, endLen, Nat.zero_add]
  · rw [decoded] at failed
    subst failed
    cases fault with
    | refused error => exact ⟨error, rfl⟩
    | panicked => exact absurd rfl safe

/-- A literal and a match a distance of one back, then the marker, then a byte nobody reads. -/
theorem decodeFrom_repeated
    : decodeFrom [0x48, 1, 97, 0x06, 0, 0, 0, 0, 0, 0, 0, 0xFF] [9, 9, 9, 9, 9, 9] 0
      = .ok (11, 5, [97, 97, 97, 97, 97, 9]) :=
  ((decodeFrom_inverts [0x48, 1, 97, 0x06, 0, 0, 0, 0, 0, 0, 0, 0xFF] [9, 9, 9, 9, 9, 9] 0
    (by decide) (by decide) (by decide)).1 11 5 _).mpr
    ⟨[⟨.short 1 4 1, [97], by decide, rfl⟩], [0, 0, 0, 0, 0, 0, 0], [0xFF], rfl, rfl,
      ⟨by decide, trivial⟩, rfl, rfl, by decide, rfl⟩

end Ferrosys.Compress.Lzvn

/-! What follows for the decoder on its own: it ends without a panic on every stream, and what it
produces does not depend on what its output held.
-/

namespace Ferrosys.Compress.Lzvn

open Checked Machine

/-- What decoding from a byte of one buffer makes of it, it makes of every other that begins with
the same bytes and has room for it: the stream's end, the output's, and what is produced.
-/
theorem decodeFrom_independent {input out : Bytes} {start used reached : Nat} {after : Bytes}
    (small : input.length < 2 ^ 63) (roomy : out.length < 2 ^ 63) (order : start ≤ out.length)
    (done : decodeFrom input out start = .ok (used, reached, after))
    : start ≤ reached ∧ reached ≤ out.length
      ∧ ∃ produced, produced.length = reached ∧ produced.take start = out.take start
        ∧ after = produced ++ out.drop reached
        ∧ ∀ other, other.length < 2 ^ 63 → reached ≤ other.length →
          other.take start = out.take start →
          decodeFrom input other start = .ok (used, reached, produced ++ other.drop reached) := by
  obtain ⟨inverts, -⟩ := decodeFrom_inverts input out start small roomy order
  obtain ⟨instructions, padding, behind, seven, left, reach, rfl, rfl, fits, rfl⟩ :=
    (inverts used reached after).mp done
  have grown := length_expand reach
  have kept := prefix_expand instructions ⟨out.take start, 0⟩
  have taken : (out.take start).length = start := by
    rw [List.length_take]
    omega
  simp only [taken] at grown
  refine ⟨by omega, fits, _, rfl, ?_, rfl, fun other bounded enough same => ?_⟩
  · have begins := List.prefix_iff_eq_take.mp kept
    simp only [taken] at begins
    exact begins.symm
  · refine ((decodeFrom_inverts input other start small bounded (by omega)).1 _ _ _).mpr
      ⟨instructions, padding, behind, seven, left, ?_, rfl, ?_, ?_, ?_⟩
    · rwa [same]
    · rw [same]
    · exact enough
    · rw [same]

theorem decompress_total : Total decompress := by
  intro input out small roomy panicked
  have safe := (decodeFrom_inverts input out 0 small roomy (Nat.zero_le _)).2
  cases done : decodeFrom input out 0 with
  | error fault =>
      obtain ⟨error, rfl⟩ := safe fault done
      rw [decompress, done] at panicked
      cases panicked
  | ok result =>
      rw [decompress, done] at panicked
      cases panicked

theorem decompress_independent : Independent decompress := by
  intro input out n after small roomy done
  obtain ⟨⟨used, reached, written⟩, here, done⟩ := bind_eq_ok.mp done
  obtain ⟨rfl, rfl⟩ := Prod.mk.inj (Except.ok.inj done)
  obtain ⟨-, fits, produced, length, -, rfl, others⟩ :=
    decodeFrom_independent small roomy (Nat.zero_le _) here
  subst length
  rw [List.take_left]
  refine ⟨fits, rfl, fun other bounded enough => ?_⟩
  rw [decompress, others other bounded enough rfl]
  rfl

end Ferrosys.Compress.Lzvn
