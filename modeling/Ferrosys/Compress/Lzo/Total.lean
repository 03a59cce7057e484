import Ferrosys.Compress.Lzo.Inversion

/-! The decoder ends without a panic on every stream, and what it produces does not depend on what
its output held.
-/

namespace Ferrosys.Compress.Lzo

open Checked Machine Buffer

/-! No panic: what is read is in the stream, and every read goes on in it. -/

/-- Reading went on from `read`, and stayed in the stream. -/
def Reads {α : Type} (input : Bytes) (read : Nat) (result : α × Nat) : Prop :=
  read < result.2 ∧ result.2 ≤ input.length

theorem byte_yields {input : Bytes} {read : Nat} (small : input.length < 2 ^ 63)
    : Yields (byte input read) (Reads input read) := by
  unfold byte
  cases here : input[read]? with
  | none => exact yields_refused
  | some b =>
      have inside := (List.getElem?_eq_some_iff.mp here).1
      exact (yields_add (by omega) rfl).bind fun after (same : read + 1 = after) =>
        yields_ok ⟨(show read < after by omega), (show after ≤ input.length by omega)⟩

theorem word_yields {input : Bytes} {read : Nat} (small : input.length < 2 ^ 63)
    : Yields (word input read) (Reads input read) := by
  unfold word
  refine (byte_yields small).bind fun ⟨low, first⟩ here => ?_
  refine (byte_yields small).bind fun ⟨high, second⟩ there => ?_
  exact yields_ok ⟨here.1.trans there.1, there.2⟩

theorem far_yields {input : Bytes} {read bits : Nat} (small : input.length < 2 ^ 63)
    : Yields (far input read bits) (Reads input read) := by
  unfold far
  exact (byte_yields small).bind fun ⟨high, after⟩ here => yields_ok here

/-- One byte of an extension is read, and the loop goes on behind it. -/
theorem extend_turns {input : Bytes} (start : Nat) (small : input.length < 2 ^ 63)
    (state : Nat × Nat) (inside : start ≤ state.1)
    : Turns (extend input state)
      (fun next => start ≤ next.1 ∧ input.length - next.1 < input.length - state.1)
      (fun result => start < result.2 ∧ result.2 ≤ input.length) := by
  obtain ⟨read, total⟩ := state
  refine turns_orStop ((byte_yields small).bind fun ⟨b, after⟩ here => ?_)
  obtain ⟨on, within⟩ := here
  change read < after at on
  change after ≤ input.length at within
  change start ≤ read at inside
  refine (yields_okOr fun _ _ => trivial : Yields _ fun _ => True).bind fun sum _ => ?_
  by_cases zero : b = 0
  · rw [if_pos zero]
    exact yields_ok ⟨(show start ≤ after by omega),
      (show input.length - after < input.length - read by omega)⟩
  · rw [if_neg zero]
    exact yields_ok (yields_ok ⟨(show start < after by omega), within⟩)

theorem extension_yields {input : Bytes} {read : Nat} (small : input.length < 2 ^ 63)
    : Yields (extension input read) (fun result => read < result.2 ∧ result.2 ≤ input.length) :=
  yields_run (fun state => read ≤ state.1) (fun state => input.length - state.1)
    (fun state inside => extend_turns read small state inside) (Nat.le_refl read)
    (show input.length - read < _ by omega)

theorem length_yields {input : Bytes} {read bits width base : Nat}
    (small : input.length < 2 ^ 63) (inside : read ≤ input.length)
    : Yields (length input read bits width base)
      (fun result => read ≤ result.2 ∧ result.2 ≤ input.length) := by
  unfold length
  dsimp only
  have based : ∀ field after, read ≤ after → after ≤ input.length →
      Yields (okOr (checkedAdd field base) lengthOverflows >>= fun n => pure (n, after))
        (fun result => read ≤ result.2 ∧ result.2 ≤ input.length) := fun field after low high =>
    (yields_okOr fun _ _ => trivial : Yields _ fun _ => True).bind fun _ _ => yields_ok ⟨low, high⟩
  refine yields_ite (fun _ => ?_) fun _ => based _ _ (Nat.le_refl _) inside
  refine (extension_yields small).bind fun ⟨more, after⟩ here => ?_
  refine (yields_okOr fun _ _ => trivial : Yields _ fun _ => True).bind fun field _ => ?_
  exact based field after here.1.le here.2

/-- A copy whose length and whose word follow it. -/
theorem copy_yields {input : Bytes} {read after bits width base : Nat} (small : input.length < 2 ^ 63)
    (build : Nat → Nat → Instruction) (on : read < after) (within : after ≤ input.length)
    : Yields (do
        let (length, after) ← length input after bits width base
        let (word, after) ← word input after
        return (build length word, after)) (Reads input read) := by
  refine (length_yields small within).bind fun ⟨length, behind⟩ here => ?_
  refine (word_yields small).bind fun ⟨word, last⟩ there => ?_
  exact yields_ok ⟨on.trans_le (here.1.trans there.1.le), there.2⟩

theorem instruction_yields {input : Bytes} {read : Nat} {copied : Copied}
    (small : input.length < 2 ^ 63) : Yields (instruction input read copied) (Reads input read) := by
  unfold instruction
  refine (byte_yields small).bind fun ⟨first, after⟩ here => ?_
  obtain ⟨on, within⟩ := here
  change read < after at on
  change after ≤ input.length at within
  dsimp only
  refine yields_ite (fun _ => yields_ite (fun _ => ?_) fun _ => ?_) fun _ =>
    yields_ite (fun _ => ?_) fun _ => yields_ite (fun _ => ?_) fun _ =>
      yields_ite (fun _ => ?_) fun _ => ?_
  · refine (length_yields small within).bind fun ⟨count, behind⟩ there => ?_
    exact yields_ok ⟨on.trans_le there.1, there.2⟩
  · refine (byte_yields small).bind fun ⟨high, behind⟩ there => ?_
    exact yields_ite (fun _ => yields_ok ⟨on.trans there.1, there.2⟩) fun _ =>
      yields_ok ⟨on.trans there.1, there.2⟩
  · refine (length_yields small within).bind fun ⟨length, behind⟩ there => ?_
    refine (word_yields small).bind fun ⟨word, last⟩ further => ?_
    have read_ : Reads input read (Instruction.ended, last) :=
      ⟨on.trans_le (there.1.trans further.1.le), further.2⟩
    exact yields_ite (fun _ => yields_ok read_) fun _ => yields_ok read_
  · exact copy_yields small (fun length word => .copy (word / 4 + 1) length (word % 4)) on within
  · refine (far_yields small).bind fun ⟨distance, behind⟩ there => ?_
    exact yields_ok ⟨on.trans there.1, there.2⟩
  · refine (far_yields small).bind fun ⟨distance, behind⟩ there => ?_
    exact yields_ok ⟨on.trans there.1, there.2⟩

/-- Where a decoder stands: in the stream, and in its output behind what it produced. -/
def Stands (input : Bytes) (decoder : Decoder) : Prop :=
  decoder.read ≤ input.length
    ∧ ∃ produced room, decoder = .of decoder.read produced room
      ∧ (produced ++ room).length < 2 ^ 63

theorem literals_yields {input : Bytes} {decoder : Decoder} {count : Nat}
    (small : input.length < 2 ^ 63) (stands : Stands input decoder)
    : Yields (literals input decoder count)
      (fun after => Stands input after ∧ decoder.read ≤ after.read) := by
  obtain ⟨-, produced, room, same, roomy⟩ := stands
  rw [same]
  unfold Decoder.of
  rw [literals_eq small roomy]
  refine yields_ite (fun _ => yields_refused) fun inside => yields_ite (fun _ => yields_refused)
    fun fits => yields_ok ⟨⟨(show decoder.read + count ≤ input.length by omega), _, _, rfl, ?_⟩,
      Nat.le_add_right _ _⟩
  rw [List.length_append] at roomy
  rw [List.length_append, List.length_append, Splice.length_slice (by omega), List.length_drop]
  omega

theorem repeat_yields {input : Bytes} {decoder : Decoder} {distance count : Nat}
    (stands : Stands input decoder)
    : Yields (repeat_ decoder distance count)
      (fun after => Stands input after ∧ decoder.read ≤ after.read) := by
  obtain ⟨inside, produced, room, same, roomy⟩ := stands
  rw [same]
  unfold Decoder.of
  rw [repeat_eq roomy]
  refine yields_ite (fun _ => yields_refused) fun good => yields_ite (fun _ => yields_refused)
    fun fits => yields_ok ⟨⟨inside, _, _, rfl, ?_⟩, Nat.le_refl _⟩
  rw [List.length_append] at roomy
  rw [List.length_append, Lz77.length_repeatFrom (by omega) (by omega), List.length_drop]
  omega

theorem turn_turns {input : Bytes} (small : input.length < 2 ^ 63) (state : Decoder × Copied)
    (stands : Stands input state.1)
    : Turns (turn input state) (fun next => Stands input next.1
        ∧ input.length - next.1.read < input.length - state.1.read) (fun _ => True) := by
  obtain ⟨decoder, copied⟩ := state
  refine turns_orStop ((instruction_yields small).bind fun ⟨instruction, after⟩ here => ?_)
  obtain ⟨on, within⟩ := here
  change decoder.read < after at on
  change after ≤ input.length at within
  have moved : Stands input { decoder with read := after } := by
    obtain ⟨-, produced, room, same, roomy⟩ := stands
    refine ⟨within, produced, room, ?_, roomy⟩
    change decoder = _ at same
    rw [same]
    rfl
  have further : ∀ after' : Decoder, after ≤ after'.read → after'.read ≤ input.length →
      input.length - after'.read < input.length - decoder.read := by
    intro after' low high
    omega
  cases instruction with
  | literals count =>
      refine (literals_yields small moved).bind fun next there => yields_ok ?_
      exact ⟨there.1, further next there.2 there.1.1⟩
  | copy distance length count =>
      refine (repeat_yields moved).bind fun middle there => ?_
      refine (literals_yields small there.1).bind fun next last => yields_ok ?_
      exact ⟨last.1, further next (there.2.trans last.2) last.1.1⟩
  | ended =>
      exact yields_ite (fun _ => yields_ok (yields_ok trivial)) fun _ => yields_refused

/-- The decoder ends without a panic on every stream and every buffer. -/
theorem decompress_total : Total decompress := by
  intro input out small roomy
  have start : Stands input ⟨0, out, 0⟩ := ⟨Nat.zero_le _, [], out, rfl, roomy⟩
  have opened : Yields (opening input ⟨0, out, 0⟩) (fun state => Stands input state.1) := by
    unfold opening
    cases here : input[0]? with
    | none => exact yields_ok start
    | some first =>
        have inside := (List.getElem?_eq_some_iff.mp here).1
        refine yields_ite (fun _ => ?_) fun _ => yields_ok start
        refine (yields_add (show 0 + 1 < 2 ^ 64 by decide) rfl).bind fun after (same : 0 + 1 = after) => ?_
        have moved : Stands input ⟨after, out, 0⟩ :=
          ⟨(show after ≤ input.length by omega), [], out, rfl, roomy⟩
        exact (literals_yields small moved).bind fun next there => yields_ok there.1
  exact (opened.bind fun state stands =>
    yields_run (fun state => Stands input state.1) (fun state => input.length - state.1.read)
      (fun state stands => turn_turns small state stands) stands
      (by have := stands.1; omega)).1

/-! What is produced does not depend on what the output held. -/

theorem literals_blind {input produced : Bytes} {read count : Nat} (small : input.length < 2 ^ 63)
    : Blind (2 ^ 63) Decoder.of produced fun room =>
      literals input (.of read produced room) count := by
  refine Blind.congr ?_ fun room roomy => literals_eq small roomy
  refine blind_ite (fun _ => blind_error _) fun inside => ?_
  exact @blind_take _ _ _ _ _ Decoder.of produced count _ (read + count) _
    (Splice.length_slice (by omega))

theorem repeat_blind {produced : Bytes} {read distance count : Nat}
    : Blind (2 ^ 63) Decoder.of produced fun room =>
      repeat_ (.of read produced room) distance count := by
  refine Blind.congr ?_ fun room roomy => repeat_eq roomy
  refine blind_ite (fun _ => blind_error _) fun good => ?_
  obtain ⟨added, grown⟩ := Lz77.prefix_repeatFrom produced distance count
  have length := @Lz77.length_repeatFrom _ produced distance count (by omega) (by omega)
  rw [← grown, List.length_append] at length
  rw [← grown]
  exact @blind_take _ _ _ _ _ Decoder.of produced count _ read added (by omega)

/-- A turn's state, made of its parts. -/
def stateOf (t : Nat × Copied) (produced room : Bytes) : Decoder × Copied :=
  (.of t.1 produced room, t.2)

/-- What a turn leaves, made of its parts. -/
def nextState : (Nat × Copied) ⊕ Unit → Bytes → Bytes
    → Loop.Next (Decoder × Copied) (Decoded (Nat × Bytes)) := nextOf stateOf answer

theorem turn_blind {input : Bytes} (small : input.length < 2 ^ 63)
    : BlindTurn (2 ^ 63) stateOf answer (turn input) := by
  rintro ⟨read, copied⟩ produced
  refine ⟨_, fun room => rfl, ?_⟩
  cases here : instruction input read copied with
  | error fault =>
      refine Blind.congr (blind_error fun _ => fault) fun room _ => ?_
      change (instruction input read copied >>= _) = _
      rw [here]
      rfl
  | ok pair =>
      obtain ⟨instruction_, after⟩ := pair
      cases instruction_ with
      | literals count =>
          have carried : Blind (2 ^ 63) nextState produced fun room =>
              literals input (.of after produced room) count >>= fun decoder =>
                Except.ok (.go (decoder, .after count)) :=
            (literals_blind small).bind fun read' added =>
              blind_ok nextState (.inl (read', .after count))
          refine carried.congr fun room _ => ?_
          change (instruction input read copied >>= _) = _
          rw [here]
          rfl
      | copy distance length count =>
          have carried : Blind (2 ^ 63) nextState produced fun room =>
              repeat_ (.of after produced room) distance length >>= fun decoder =>
                literals input decoder count >>= fun decoder =>
                  Except.ok (.go (decoder, .after count)) :=
            repeat_blind.bind fun read' added => (literals_blind small).bind fun read'' more =>
              blind_ok nextState (.inl (read'', .after count))
          refine carried.congr fun room _ => ?_
          change (instruction input read copied >>= _) = _
          rw [here]
          rfl
      | ended =>
          have ended : Blind (2 ^ 63) nextState produced fun room =>
              if after = input.length then .ok (.stop (.ok (produced.length, produced ++ room)))
              else malformed "bytes follow the end of the stream" :=
            blind_ite (fun _ => blind_ok nextState (.inr ())) fun _ => blind_error fun _ => _
          refine ended.congr fun room _ => ?_
          change (instruction input read copied >>= _) = _
          rw [here]
          rfl

/-- What a stream decodes to does not depend on the buffer. -/
theorem decompress_independent : Independent decompress := by
  refine independent_of_blind fun input small => ?_
  have opened : Blind (2 ^ 63) stateOf [] fun out => opening input (.of 0 [] out) := by
    unfold opening
    cases here : input[0]? with
    | none => exact blind_ok stateOf (0, .none)
    | some first =>
        refine blind_ite (fun _ => ?_) fun _ => blind_ok stateOf (0, .none)
        have copied : Blind (2 ^ 63) stateOf [] fun out =>
            literals input (.of 1 [] out) (first.toNat - 17) >>= fun decoder =>
              Except.ok (decoder, .after (first.toNat - 17)) :=
          (literals_blind small).bind fun read' added =>
            blind_ok stateOf (read', .after (first.toNat - 17))
        exact copied.congr fun room _ => rfl
  exact opened.bind fun t added => (turn_blind small).run _ _ t ([] ++ added)

end Ferrosys.Compress.Lzo
