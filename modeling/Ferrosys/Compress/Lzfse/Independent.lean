import Ferrosys.Compress.Lzfse.Total

/-! What the decoder produces does not depend on what its output held: each block reads only what the
blocks before it produced.
-/

namespace Ferrosys.Compress.Lzfse

open Checked Machine Splice Buffer

/-! The commands. -/

/-- The parts of the commands' decoding that have nothing to do with the output. -/
structure Parts where
  lState : Nat
  mState : Nat
  dState : Nat
  bits : Bits
  lit : Nat
  distance : Option Nat

/-- The commands' decoding, made of its parts. -/
def reachedOf (t : Parts) (produced room : Bytes) : Reached :=
  ⟨t.lState, t.mState, t.dState, t.bits, t.lit, produced.length, t.distance, produced ++ room⟩

/-- One command, with what it reads of where the decoder stands spelled out. -/
def commandFrom (tables : Tables) (literals : Bytes) (stop : Nat) (t : Parts) (produced room : Bytes)
    : Decoded Reached :=
  triplet tables (reachedOf t [] []) >>= fun (length, matched, new, lState, mState, dState, bits) =>
  plus t.lit length >>= fun ends =>
  okOr (getRange literals t.lit ends)
    (.refused (.malformed .lzfse "a command copies more literals than the block holds"))
  >>= fun source => minus stop produced.length >>= fun left => plus length matched >>= fun both =>
  if left < both then malformed "a block produces more than it records"
  else plus produced.length length >>= fun at_ =>
    copyFromSlice (produced ++ room) produced.length at_ source >>= fun out =>
    plus t.lit length >>= fun lit =>
    copyBack out at_ ((if new ≠ 0 then some new else t.distance).getD 0) matched
    >>= fun result =>
      if result.2 then plus at_ matched >>= fun after =>
        .ok ⟨lState, mState, dState, bits, lit, after,
          if new ≠ 0 then some new else t.distance, result.1⟩
      else malformed "a match reaches before the start of the output"

theorem commandFrom_blind {tables : Tables} {literals : Bytes} {stop : Nat} (t : Parts)
    (produced : Bytes)
    : Blind (2 ^ 63) reachedOf produced (commandFrom tables literals stop t produced) := by
  refine blind_bind fun ⟨length, matched, new, lState, mState, dState, bits⟩ _ => ?_
  refine blind_bind fun ends sum => blind_bind fun source cut => blind_bind fun left _ =>
    blind_bind fun both _ => blind_ite (fun _ => blind_error fun _ => _) fun _ =>
      blind_bind fun at_ moved => ?_
  obtain ⟨_, _, sized⟩ := length_of_getRange (okOr_eq_ok.mp cut)
  have taken := eq_of_plus sum
  have later := eq_of_plus moved
  refine copyFromSlice_blind (by omega) (blind_bind fun lit _ => ?_)
  refine copyBack_blind (by rw [List.length_append]; omega) ?_ fun added count => ?_
  · exact blind_error fun _ => _
  · refine blind_bind fun after ended => ?_
    have last := eq_of_plus ended
    refine (blind_ok reachedOf ⟨lState, mState, dState, bits, lit,
      if new ≠ 0 then some new else t.distance⟩).congr fun room _ => ?_
    rw [show after = (produced ++ source ++ added).length by
      simp only [List.length_append]; omega]
    rfl

theorem command_blind {tables : Tables} {literals : Bytes} {stop : Nat} (t : Parts)
    (produced : Bytes)
    : Blind (2 ^ 63) reachedOf produced fun room =>
      command tables literals stop (reachedOf t produced room) := by
  exact (commandFrom_blind t produced).congr fun room _ => rfl

/-- Commands in a row are blind, by induction on how many there are. -/
theorem commands_blind {tables : Tables} {literals : Bytes} {stop : Nat} (count : Nat) (t : Parts)
    (produced : Bytes)
    : Blind (2 ^ 63) reachedOf produced fun room =>
      commands tables literals stop count (reachedOf t produced room) := by
  induction count generalizing produced t with
  | zero => exact blind_ok reachedOf t
  | succ count ih =>
      exact (command_blind t produced).bind fun t' added => ih t' (produced ++ added)

/-! The blocks. -/

/-- A place in a buffer is in every other that reaches as far. -/
theorem filter_of_le {dst raw stop : Nat} {out other : Bytes}
    (here : (checkedAdd dst raw).filter (· ≤ out.length) = some stop) (enough : stop ≤ other.length)
    : (checkedAdd dst raw).filter (· ≤ other.length) = some stop := by
  obtain ⟨sum, -⟩ := Option.filter_eq_some_iff.mp here
  exact Option.filter_eq_some_iff.mpr ⟨sum, decide_eq_true enough⟩

theorem Block.decode_blind {block : Block} {input : Bytes} {start : Nat} (produced : Bytes)
    : Blind (2 ^ 63) answer produced fun room =>
      block.decode input start (produced ++ room) produced.length := by
  intro room s small done
  unfold Block.decode at done ⊢
  obtain ⟨literalStart, one, done⟩ := bind_eq_ok.mp done
  obtain ⟨literalEnd, two, done⟩ := bind_eq_ok.mp done
  obtain ⟨commandEnd, three, done⟩ := bind_eq_ok.mp done
  by_cases outside : input.length < commandEnd
  · rw [if_pos outside] at done
    cases done
  rw [if_neg outside] at done
  obtain ⟨stop, four, done⟩ := bind_eq_ok.mp done
  obtain ⟨literals, five, done⟩ := bind_eq_ok.mp done
  obtain ⟨tables, six, done⟩ := bind_eq_ok.mp done
  obtain ⟨bits, seven, done⟩ := bind_eq_ok.mp done
  obtain ⟨reached, ran, done⟩ := bind_eq_ok.mp done
  obtain ⟨t, added, fits, rfl, others⟩ := commands_blind block.matches_
    ⟨block.lState, block.mState, block.dState, bits, 0, none⟩ produced room reached small ran
  by_cases differs : (produced ++ added).length ≠ stop
  · change (if (produced ++ added).length ≠ stop then malformed _ else _) = _ at done
    rw [if_pos differs] at done
    cases done
  change (if (produced ++ added).length ≠ stop then malformed _
    else Except.ok (stop, produced ++ added ++ room.drop added.length)) = _ at done
  rw [if_neg differs] at done
  rw [ne_eq, not_not] at differs
  obtain rfl := Except.ok.inj done
  subst differs
  refine ⟨(), added, fits, rfl, fun other bounded enough => ?_⟩
  have within : okOr ((checkedAdd produced.length block.raw).filter
      (· ≤ (produced ++ other).length)) (Fault.refused (overrun (produced ++ other)))
      = .ok (produced ++ added).length :=
    okOr_eq_ok.mpr (filter_of_le (okOr_eq_ok.mp four)
      (by simp only [List.length_append]; omega))
  have last := others other bounded enough
  dsimp only at last ⊢
  rw [one, ok_bind, two, ok_bind, three, ok_bind, if_neg outside, within, ok_bind, five, ok_bind, six,
    ok_bind, seven, ok_bind]
  change (commands tables literals _ block.matches_ (reachedOf
    ⟨block.lState, block.mState, block.dState, bits, 0, none⟩ produced other) >>= _) = _
  rw [last, ok_bind]
  exact if_neg (not_not.mpr rfl)

theorem rawBlock_blind {input : Bytes} {src : Nat} (produced : Bytes)
    : Blind (2 ^ 63) placeOf produced fun room =>
      rawBlock input src (produced ++ room) produced.length := by
  unfold rawBlock
  refine blind_bind fun at_ _ => blind_bind fun n _ => blind_bind fun body _ =>
    blind_bind fun bytes cut => ?_
  obtain ⟨-, rfl⟩ := of_bind_getRange (okOr_eq_ok.mp cut)
  intro room s small done
  dsimp only at done ⊢
  have left : ∀ other : Bytes, minus (produced ++ other).length produced.length
      = .ok other.length := fun other => by
    rw [minus_of_le (by rw [List.length_append]; omega), List.length_append, Nat.add_sub_cancel_left]
  rw [left, ok_bind] at done
  by_cases short : room.length < bytes.length
  · rw [if_pos short] at done
    cases done
  -- Where there is room, the block's bytes are written and nothing else looks at the buffer.
  have written : ∀ other : Bytes, (produced ++ other).length < 2 ^ 63 →
      bytes.length ≤ other.length →
      (plus produced.length bytes.length >>= fun stop =>
        copyFromSlice (produced ++ other) produced.length stop bytes >>= fun out =>
        plus body bytes.length >>= fun further => .ok (further, stop, out))
      = plus body bytes.length >>= fun further =>
          .ok (placeOf further (produced ++ bytes) (other.drop bytes.length)) := by
    intro other bounded enough
    rw [List.length_append] at bounded
    rw [plus_of_lt (by omega), ok_bind, copyFromSlice_produced enough, ok_bind,
      ← List.length_append]
    rfl
  have later : Blind (2 ^ 63) placeOf (produced ++ bytes) fun room =>
      plus body bytes.length >>= fun further => .ok (placeOf further (produced ++ bytes) room) :=
    blind_bind fun further _ => blind_ok placeOf further
  rw [if_neg short] at done
  refine later.after small (by omega) ((written room small (by omega)).symm.trans done)
    fun other bounded enough => ?_
  rw [left, ok_bind, if_neg (by omega)]
  exact written other bounded enough

theorem lzvnBlock_blind {input : Bytes} {src : Nat} (bounded : input.length < 2 ^ 63)
    (produced : Bytes)
    : Blind (2 ^ 63) placeOf produced fun room =>
      lzvnBlock input src (produced ++ room) produced.length := by
  unfold lzvnBlock
  refine blind_bind fun at4 _ => blind_bind fun raw _ => blind_bind fun at8 _ =>
    blind_bind fun payload _ => blind_bind fun body _ => blind_bind fun stream cut => ?_
  obtain ⟨within, sized⟩ := of_bind_getRange (okOr_eq_ok.mp cut)
  intro room s small done
  dsimp only at done ⊢
  obtain ⟨stop, one, done⟩ := bind_eq_ok.mp done
  obtain ⟨sum, ends⟩ := of_filter (okOr_eq_ok.mp one)
  obtain ⟨window, two, done⟩ := bind_eq_ok.mp done
  obtain ⟨⟨used, reached, after⟩, three, done⟩ := bind_eq_ok.mp done
  by_cases differs : used ≠ payload ∨ reached ≠ stop
  · rw [if_pos differs] at done
    cases done
  rw [if_neg differs] at done
  obtain ⟨further, four, done⟩ := bind_eq_ok.mp done
  obtain rfl := Except.ok.inj done
  -- A window is what was produced, and the room up to the block's end.
  have part : ∀ {other : Bytes}, raw ≤ other.length →
      range (produced ++ other) 0 stop = .ok (produced ++ other.take raw) := by
    intro other enough
    rw [range_of_le (Nat.zero_le _) (by rw [List.length_append]; omega)]
    unfold slice
    rw [List.drop_zero, Nat.sub_zero, ← sum, List.take_length_add_append]
  have enough : raw ≤ room.length := by
    rw [List.length_append] at ends
    omega
  rw [part enough] at two
  obtain rfl := Except.ok.inj two
  have length : ∀ {other : Bytes}, raw ≤ other.length →
      (produced ++ other.take raw).length = stop := by
    intro other enough
    rw [List.length_append, List.length_take, Nat.min_eq_left enough, sum]
  rw [not_or, not_not, not_not] at differs
  obtain ⟨rfl, rfl⟩ := differs
  obtain ⟨-, -, whole, wholeLength, begins, rfl, others⟩ := Lzvn.decodeFrom_independent
    (by omega) (by rw [length enough]; omega)
    (by rw [List.length_append]; omega) (mapError_eq_ok.mp three)
  rw [List.take_left] at begins
  obtain ⟨added, rfl⟩ : ∃ added, whole = produced ++ added :=
    ⟨whole.drop produced.length, by rw [← begins, List.length_take, Nat.min_eq_left
      (by omega), List.take_append_drop]⟩
  have grown : added.length = raw := by
    rw [List.length_append] at wholeLength
    omega
  subst grown
  have all : ∀ {other : Bytes}, added.length ≤ other.length →
      produced ++ added ++ (produced ++ other.take added.length).drop reached
        ++ (produced ++ other).drop reached = produced ++ added ++ other.drop added.length := by
    intro other enough
    rw [List.drop_eq_nil_of_le (length enough).le, List.append_nil, ← sum,
      List.drop_length_add_append]
  have place : ∀ {other : Bytes}, (further, reached, produced ++ added ++ other.drop added.length)
      = placeOf further (produced ++ added) (other.drop added.length) := by
    intro other
    rw [← wholeLength]
    rfl
  refine ⟨further, added, enough, by rw [← place, all enough], fun other small' enough' => ?_⟩
  have within' : okOr ((checkedAdd produced.length added.length).filter
      (· ≤ (produced ++ other).length)) (Fault.refused (overrun (produced ++ other)))
      = .ok reached :=
    okOr_eq_ok.mpr (filter_of_le (okOr_eq_ok.mp one)
      (by rw [← wholeLength]; simp only [List.length_append]; omega))
  have last := others (produced ++ other.take added.length)
    (by rw [length enough']; omega)
    (by rw [length enough']) (by rw [List.take_left, List.take_left])
  rw [within', ok_bind, part enough', ok_bind, mapError_eq_ok.mpr last, ok_bind]
  dsimp only
  rw [if_neg (by rw [not_or, not_not, not_not]; exact ⟨rfl, rfl⟩), four, ok_bind, ← place,
    ← all enough']
  rfl

theorem packedBlock_blind {input : Bytes} {src : Nat} (produced : Bytes)
    : Blind (2 ^ 63) placeOf produced fun room =>
      packedBlock input src (produced ++ room) produced.length := by
  have opened : Blind (2 ^ 63) placeOf produced fun room =>
      range input src input.length >>= fun bytes => Block.read bytes >>= fun block =>
      (block.decode input src (produced ++ room) produced.length) >>= fun decoded =>
      plus block.headerLen block.literalBytes >>= fun first =>
      plus first block.commandBytes >>= fun length =>
      plus src length >>= fun further => .ok (further, decoded.1, decoded.2) :=
    blind_bind fun bytes _ => blind_bind fun block _ =>
      (Block.decode_blind produced).bind fun _ added =>
        blind_bind fun first _ => blind_bind fun length _ => blind_bind fun further _ =>
          blind_ok placeOf further
  exact opened.congr fun room _ => rfl

/-! The stream. -/

theorem turn_blind {input : Bytes} (small : input.length < 2 ^ 63)
    : BlindTurn (2 ^ 63) placeOf answer (turn input) := by
  intro src produced
  refine ⟨_, fun room => rfl, ?_⟩
  -- Whatever kind a block is of, the turn goes on with what it left.
  have goes : ∀ {step : Bytes → Decoded (Nat × Nat × Bytes)},
      Blind (2 ^ 63) placeOf produced step →
      Blind (2 ^ 63) nextPlace produced fun room => step room >>= fun result => .ok (.go result) :=
    fun blind => blind.bind fun further _ => blind_ok nextPlace (.inl further)
  have opened : Blind (2 ^ 63) nextPlace produced fun room =>
      word input src >>= fun kind =>
      if kind = end_ then .ok (.stop (.ok (produced.length, produced ++ room)))
      else if kind = raw then
        rawBlock input src (produced ++ room) produced.length >>= fun result => .ok (.go result)
      else if kind = lzvn then
        lzvnBlock input src (produced ++ room) produced.length >>= fun result => .ok (.go result)
      else if kind = tablesPacked then
        packedBlock input src (produced ++ room) produced.length >>= fun result =>
          .ok (.go result)
      else if kind = tablesWhole then
        malformed "a block whose tables are stored whole, which no stream observed carries"
      else malformed "a block of a kind the encoding does not define" :=
    blind_bind fun kind _ => blind_ite (fun _ => blind_ok nextPlace (.inr ())) fun _ =>
      blind_ite (fun _ => goes (rawBlock_blind produced)) fun _ =>
      blind_ite (fun _ => goes (lzvnBlock_blind small produced)) fun _ =>
      blind_ite (fun _ => goes (packedBlock_blind produced)) fun _ =>
      blind_ite (fun _ => blind_error fun _ => _) fun _ => blind_error fun _ => _
  exact opened.congr fun room _ => rfl

/-- What LZFSE decodes to has nothing to do with the buffer it is decoded into. -/
theorem decompress_independent : Independent decompress :=
  independent_of_blind fun input small =>
    (turn_blind small).run .panicked (input.length + 1) 0 []

end Ferrosys.Compress.Lzfse
