import Ferrosys.Compress.Lzfse.Tables
import Ferrosys.Compress.Lzvn.Inversion

/-! The decoder ends without a panic on every stream: each block is inside the stream, takes eight
bytes of it at least, and produces inside the output.
-/

namespace Ferrosys.Compress.Lzfse

open Checked Machine Splice

/-! The headers. -/

theorem u32At_yields {bytes : Bytes} {off : Nat} (inside : off + 4 ≤ bytes.length)
    : Yields (u32At bytes off) fun value => value < 2 ^ 32 :=
  (range_yields (by omega) inside).bind fun _ _ => yields_ok (getU32_lt _ _)

theorem u64At_yields {bytes : Bytes} {off : Nat} (inside : off + 8 ≤ bytes.length)
    : Yields (u64At bytes off) fun _ => True :=
  (range_yields (by omega) inside).bind fun _ _ => yields_ok trivial

theorem field_lt (word at_ width : Nat) : field word at_ width < 2 ^ width :=
  Nat.mod_lt _ (Nat.two_pow_pos width)

theorem frequency_yields (bits : Nat)
    : Yields (frequency bits) fun result => result.2 ≤ 14 := by
  have low : bits % 32 < 32 := Nat.mod_lt _ (by decide)
  have narrow : ∀ width ∈ widths, width ≤ 14 := by decide
  unfold frequency
  refine (item_yields low).bind fun width listed => ?_
  have few := narrow width listed
  refine yields_ite (fun _ => yields_ok (show 8 ≤ 14 by decide)) fun _ => ?_
  refine yields_ite (fun _ => yields_ok (Nat.le_refl 14)) fun _ => ?_
  exact (item_yields low).bind fun value _ => yields_ok few

theorem takeBytes_yields {tables : Bytes} {accum held : Nat} (few : held ≤ 32)
    : Yields (takeBytes tables accum held) fun result => result.2.2 ≤ 32 := by
  induction tables generalizing accum held with
  | nil => exact yields_ok few
  | cons byte tables ih =>
      unfold takeBytes
      refine yields_ite (fun room => ?_) fun _ => yields_ok few
      have small := byte.toNat_lt
      have shifted : Yields (shiftLeft32 byte.toNat held) fun _ => True := by
        unfold shiftLeft32
        rw [if_pos (by omega)]
        exact yields_ok trivial
      exact shifted.bind fun more _ => ih room

/-- So many frequencies are read as were asked for, by induction on how many. -/
theorem frequencies_yields {count : Nat} {tables : Bytes} {accum held : Nat} (few : held ≤ 32)
    : Yields (frequencies count tables accum held) fun result => result.1.length = count := by
  induction count generalizing tables accum held with
  | zero => exact yields_ok rfl
  | succ count ih =>
      unfold frequencies
      refine (takeBytes_yields few).bind fun ⟨tables, accum, held⟩ most => ?_
      change held ≤ 32 at most
      refine (frequency_yields accum).bind fun ⟨decoded, width⟩ narrow => ?_
      change width ≤ 14 at narrow
      refine yields_ite (fun _ => yields_refused) fun enough => ?_
      refine (shiftRight_yields (by omega)).bind fun accum _ => ?_
      refine (yields_sub (by omega) rfl).bind fun left (same : held - width = left) => ?_
      refine (ih (by omega)).bind fun ⟨rest, tables, held⟩ length => ?_
      exact yields_ok (congrArg (· + 1) length)

/-- A block's tables give a count for each symbol of their alphabets. -/
structure Block.Counted (block : Block) : Prop where
  l : block.lFreq.length = lSymbols
  m : block.mFreq.length = mSymbols
  d : block.dFreq.length = dSymbols
  literal : block.literalFreq.length = literalSymbols

/-- A header of `bytes` is inside them, and its fields are as wide as the header has them. -/
structure Block.Sound (bytes : Bytes) (block : Block) : Prop extends Block.Counted block where
  header : packedHeader ≤ block.headerLen
  inside : block.headerLen ≤ bytes.length
  headerLen : block.headerLen < 2 ^ 32
  raw : block.raw < 2 ^ 32
  literals : block.literals < 2 ^ 20
  literalBytes : block.literalBytes < 2 ^ 20
  literalBits : block.literalBits < 8
  literalStates : block.literalStates.length = 4
  commandBytes : block.commandBytes < 2 ^ 20
  commandBits : block.commandBits < 8

theorem Block.readTables_yields {bytes tables : Bytes} {block : Block} (sound : block.Sound bytes)
    : Yields (block.readTables tables) (Block.Sound bytes) := by
  have sizes : lSymbols = 20 ∧ mSymbols = 20 ∧ dSymbols = 64 ∧ literalSymbols = 256 :=
    ⟨rfl, rfl, rfl, rfl⟩
  unfold Block.readTables
  refine (frequencies_yields (Nat.zero_le _)).bind fun ⟨values, left, held⟩ sized => ?_
  change values.length = _ at sized
  refine yields_ite (fun _ => yields_refused) fun _ => yields_ok { sound with
    l := ?_, m := ?_, d := ?_, literal := ?_ }
  all_goals
    simp only [List.length_take, List.length_drop]
    omega

theorem Block.read_yields (bytes : Bytes) : Yields (Block.read bytes) (Block.Sound bytes) := by
  unfold Block.read
  have short : packedHeader = 32 := rfl
  refine (yields_okOr fun _ here => length_of_getRange here).bind fun fixed opened => ?_
  refine (u32At_yields (by omega)).bind fun raw small => ?_
  refine (u64At_yields (by omega)).bind fun v0 _ => ?_
  refine (u64At_yields (by omega)).bind fun v1 _ => ?_
  refine (u64At_yields (by omega)).bind fun v2 _ => ?_
  refine yields_ite (fun _ => yields_refused) fun long => ?_
  refine (yields_okOr fun _ here => length_of_getRange here).bind fun tables inside => ?_
  refine yields_ite (fun _ => yields_refused) fun _ => ?_
  refine yields_ite (fun _ => yields_refused) fun _ => ?_
  have sound : Block.Sound bytes {
      raw
      headerLen := field v2 0 32
      literals := field v0 0 20
      literalBytes := field v0 20 20
      literalBits := field v0 60 3
      literalStates := [field v1 0 10, field v1 10 10, field v1 20 10, field v1 30 10]
      matches_ := field v0 40 20
      commandBytes := field v1 40 20
      commandBits := field v1 60 3
      lState := field v2 32 10
      mState := field v2 42 10
      dState := field v2 52 10
      lFreq := List.replicate lSymbols 0
      mFreq := List.replicate mSymbols 0
      dFreq := List.replicate dSymbols 0
      literalFreq := List.replicate literalSymbols 0 } := {
    l := List.length_replicate
    m := List.length_replicate
    d := List.length_replicate
    literal := List.length_replicate
    header := Nat.le_of_not_lt long
    inside := inside.2.1
    headerLen := field_lt _ _ _
    raw := small
    literals := field_lt _ _ _
    literalBytes := field_lt _ _ _
    literalBits := field_lt _ _ _
    literalStates := rfl
    commandBytes := field_lt _ _ _
    commandBits := field_lt _ _ _ }
  exact yields_ite (fun _ => Block.readTables_yields sound) fun _ => yields_ok sound

/-! The literals. -/

theorem quad_yields {table : List (Option State)} {symbols : Nat} {states : List Nat} {bits : Bits}
    (fit : Fits symbols table) (whole : bits.Whole)
    : Yields (quad table states bits) fun result =>
      result.1.length = states.length ∧ result.2.1.length = states.length ∧ result.2.2.Whole := by
  induction states generalizing bits with
  | nil => exact yields_ok ⟨rfl, rfl, whole⟩
  | cons state states ih =>
      unfold quad
      refine (symbolStep_yields fit whole).bind fun ⟨byte, state, bits⟩ still => ?_
      refine (ih still).bind fun ⟨bytes, states', bits⟩ done => ?_
      exact yields_ok ⟨congrArg (· + 1) done.1, congrArg (· + 1) done.2.1, done.2.2⟩

/-- Each quad adds a literal of each decoder, by induction on the quads. -/
theorem quads_yields {table : List (Option State)} {symbols count : Nat} {states : List Nat}
    {bits : Bits} (fit : Fits symbols table) (whole : bits.Whole)
    : Yields (quads table count states bits) fun bytes =>
      bytes.length = count * states.length := by
  induction count generalizing states bits with
  | zero => exact yields_ok (Nat.zero_mul _).symm
  | succ count ih =>
      unfold quads
      refine (Bits.refill_yields whole).bind fun bits whole => ?_
      refine (quad_yields fit whole).bind fun ⟨bytes, states', bits⟩ done => ?_
      refine (ih done.2.2).bind fun rest length => yields_ok ?_
      rw [List.length_append, length, done.1, done.2.1, Nat.succ_mul, Nat.add_comm]

theorem Block.decodeLiterals_yields {bytes input : Bytes} {stop : Nat} {block : Block}
    (sound : block.Sound bytes) (inside : stop ≤ input.length)
    : Yields (block.decodeLiterals input stop) fun literals => literals.length < 2 ^ 20 := by
  unfold Block.decodeLiterals
  have few : Lzfse.literalStates = 2 ^ 10 := rfl
  rw [few]
  refine (transitions_yields (Nat.le_refl 10)).bind fun symbols fit => ?_
  refine (Bits.opened_yields inside sound.literalBits).bind fun bits whole => ?_
  refine (quads_yields fit whole).mono fun literals length => ?_
  have most := sound.literals
  rw [sound.literalStates] at length
  omega

/-! The commands. -/

/-- The command tables have an entry for each symbol their states stand for. -/
structure Tables.Sound (tables : Tables) : Prop where
  l : tables.l.Sound
  m : tables.m.Sound
  d : tables.d.Sound

/-- The values of a command alphabet's symbols fit a word with all their extra bits. -/
theorem values_small
    : ((∀ extra ∈ lExtra, extra ≤ 15) ∧ ∀ base ∈ lBase, base < 2 ^ 31)
      ∧ ((∀ extra ∈ mExtra, extra ≤ 15) ∧ ∀ base ∈ mBase, base < 2 ^ 31)
      ∧ (∀ extra ∈ dExtra, extra ≤ 15) ∧ ∀ base ∈ dBase, base < 2 ^ 31 := by
  decide

theorem Block.tables_yields {block : Block} (counted : block.Counted)
    : Yields block.tables Tables.Sound := by
  unfold Block.tables
  have powers : lStates = 2 ^ 6 ∧ mStates = 2 ^ 6 ∧ dStates = 2 ^ 8 := ⟨rfl, rfl, rfl⟩
  rw [powers.1, powers.2.1, powers.2.2]
  refine (transitions_yields (by decide)).bind fun l fitL => ?_
  refine (transitions_yields (by decide)).bind fun m fitM => ?_
  refine (transitions_yields (by decide)).bind fun d fitD => ?_
  rw [counted.l] at fitL
  rw [counted.m] at fitM
  rw [counted.d] at fitD
  obtain ⟨l_, m_, d_⟩ := values_small
  exact yields_ok ⟨⟨fitL, rfl, l_.1, l_.2⟩, ⟨fitM, rfl, m_.1, m_.2⟩, ⟨fitD, rfl, d_.1, d_.2⟩⟩

/-- The commands are inside the block's literals and its part of the output. -/
structure Reached.Stands (literals : Bytes) (stop length : Nat) (reached : Reached) : Prop where
  whole : reached.bits.Whole
  lit : reached.lit ≤ literals.length
  order : reached.at_ ≤ stop
  length : reached.out.length = length

theorem triplet_yields {tables : Tables} {reached : Reached} (sound : tables.Sound)
    (whole : reached.bits.Whole)
    : Yields (triplet tables reached) fun result =>
      result.1 < 2 ^ 32 ∧ result.2.1 < 2 ^ 32 ∧ result.2.2.2.2.2.2.Whole := by
  unfold triplet
  refine (Bits.refill_yields whole).bind fun bits whole => ?_
  refine (ValueTable.step_yields sound.l whole).bind fun ⟨length, lState, bits⟩ l => ?_
  refine (ValueTable.step_yields sound.m l.2).bind fun ⟨matched, mState, bits⟩ m => ?_
  refine (ValueTable.step_yields sound.d m.2).bind fun ⟨new, dState, bits⟩ d => ?_
  exact yields_ok ⟨l.1, m.1, d.2⟩

theorem command_yields {tables : Tables} {literals : Bytes} {stop length : Nat} {reached : Reached}
    (sound : tables.Sound) (few : literals.length < 2 ^ 63) (inside : stop ≤ length)
    (roomy : length < 2 ^ 63) (stands : reached.Stands literals stop length)
    : Yields (command tables literals stop reached) (Reached.Stands literals stop length) := by
  have lit := stands.lit
  have order := stands.order
  have sized := stands.length
  unfold command
  refine (triplet_yields sound stands.whole).bind
    fun ⟨count, matched, new, lState, mState, dState, bits⟩ read => ?_
  obtain ⟨first, second, whole⟩ := read
  dsimp only at first second whole ⊢
  refine (yields_add (by omega) rfl).bind fun ends (sum : reached.lit + count = ends) => ?_
  refine (yields_okOr fun _ here => length_of_getRange here).bind fun source cut => ?_
  refine (yields_sub order rfl).bind fun left (room : stop - reached.at_ = left) => ?_
  refine (yields_add (by omega) rfl).bind fun both (whole_ : count + matched = both) => ?_
  refine yields_ite (fun _ => yields_refused) fun enough => ?_
  refine (yields_add (by omega) rfl).bind fun at_ (moved : reached.at_ + count = at_) => ?_
  refine (copyFromSlice_yields (by omega) (by omega) (by omega)).bind fun out kept => ?_
  refine (yields_add (by omega) rfl).bind fun lit' (used : reached.lit + count = lit') => ?_
  refine (copyBack_yields (by omega) (by omega)).bind fun ⟨out, copied⟩ kept' => ?_
  change out.length = _ at kept'
  refine yields_ite (fun _ => ?_) fun _ => yields_refused
  refine (yields_add (by omega) rfl).bind fun after (ended : at_ + matched = after) => ?_
  exact yields_ok ⟨whole, (show lit' ≤ literals.length by omega), (show after ≤ stop by omega),
    (show out.length = length by omega)⟩

/-- Commands in a row stay inside the block's part of the output, by induction on how many. -/
theorem commands_yields {tables : Tables} {literals : Bytes} {stop length count : Nat}
    {reached : Reached} (sound : tables.Sound) (few : literals.length < 2 ^ 63)
    (inside : stop ≤ length) (roomy : length < 2 ^ 63)
    (stands : reached.Stands literals stop length)
    : Yields (commands tables literals stop count reached)
      (Reached.Stands literals stop length) := by
  induction count generalizing reached with
  | zero => exact yields_ok stands
  | succ count ih =>
      exact (command_yields sound few inside roomy stands).bind fun after later => ih later

/-! The blocks. -/

/-- A block, or its output's end, is where its bytes say, if the buffer goes on to there. -/
theorem of_filter {dst raw stop : Nat} {out : Bytes}
    (here : (checkedAdd dst raw).filter (· ≤ out.length) = some stop)
    : dst + raw = stop ∧ stop ≤ out.length := by
  obtain ⟨sum, within⟩ := Option.filter_eq_some_iff.mp here
  exact ⟨(checkedAdd_eq_some.mp sum).2, of_decide_eq_true within⟩

theorem of_bind_getRange {input piece : Bytes} {body n : Nat}
    (here : (checkedAdd body n).bind (getRange input body) = some piece)
    : body + n ≤ input.length ∧ piece.length = n := by
  obtain ⟨last, sum, cut⟩ := Option.bind_eq_some_iff.mp here
  have ends := (checkedAdd_eq_some.mp sum).2
  have inside := length_of_getRange cut
  omega

/-- What a block leaves: it took bytes of the stream, and produced inside the output. -/
def Took (input : Bytes) (src length : Nat) (result : Nat × Nat × Bytes) : Prop :=
  src < result.1 ∧ result.1 ≤ input.length ∧ result.2.1 ≤ length ∧ result.2.2.length = length

theorem Block.decode_yields {bytes input out : Bytes} {start dst : Nat} {block : Block}
    (small : input.length < 2 ^ 63) (roomy : out.length < 2 ^ 63) (inside : start ≤ input.length)
    (sound : block.Sound bytes)
    : Yields (block.decode input start out dst) fun result =>
      start + block.headerLen + block.literalBytes + block.commandBytes ≤ input.length
        ∧ result.1 ≤ out.length ∧ result.2.length = out.length := by
  unfold Block.decode
  have header := sound.literalBytes
  have payload := sound.commandBytes
  have raw := sound.raw
  have wide : start + block.headerLen < 2 ^ 63 + 2 ^ 62 := by
    have narrow := sound.headerLen
    omega
  refine (yields_add (by omega) rfl).bind fun literalStart (one : _ + _ = literalStart) => ?_
  refine (yields_add (by omega) rfl).bind fun literalEnd (two : _ + _ = literalEnd) => ?_
  refine (yields_add (by omega) rfl).bind fun commandEnd (three : _ + _ = commandEnd) => ?_
  refine yields_ite (fun _ => yields_refused) fun within => ?_
  refine (yields_okOr fun _ here => of_filter here).bind fun stop ends => ?_
  refine (Block.decodeLiterals_yields sound (by omega)).bind fun literals few => ?_
  refine (Block.tables_yields sound.toCounted).bind fun tables known => ?_
  refine (Bits.opened_yields (by omega) sound.commandBits).bind fun bits whole => ?_
  have stands : Reached.Stands literals stop out.length
      ⟨block.lState, block.mState, block.dState, bits, 0, dst, none, out⟩ :=
    ⟨whole, Nat.zero_le _, (show dst ≤ stop by omega), rfl⟩
  refine (commands_yields known (by omega) ends.2 roomy stands).bind fun reached done => ?_
  refine yields_ite (fun _ => yields_refused) fun _ => yields_ok ⟨by omega, ends.2, done.length⟩

theorem word_yields {input : Bytes} {at_ : Nat} (small : at_ < 2 ^ 63 + 2 ^ 62)
    : Yields (word input at_) fun value => value < 2 ^ 32 ∧ at_ + 4 ≤ input.length := by
  unfold word
  refine (yields_add (by omega) rfl).bind fun last (sum : at_ + 4 = last) => ?_
  refine (yields_okOr fun _ here => length_of_getRange here).bind fun bytes cut => ?_
  exact (u32At_yields (by omega)).mono fun value fits => ⟨fits, by omega⟩

theorem rawBlock_yields {input out : Bytes} {src dst : Nat} (small : input.length < 2 ^ 63)
    (roomy : out.length < 2 ^ 63) (inside : src ≤ input.length) (order : dst ≤ out.length)
    : Yields (rawBlock input src out dst) (Took input src out.length) := by
  unfold rawBlock
  refine (yields_add (by omega) rfl).bind fun at_ (four : src + 4 = at_) => ?_
  refine (word_yields (by omega)).bind fun n read => ?_
  refine (yields_add (by omega) rfl).bind fun body (eight : src + 8 = body) => ?_
  refine (yields_okOr fun _ here => of_bind_getRange here).bind fun bytes cut => ?_
  refine (yields_sub order rfl).bind fun left (room : out.length - dst = left) => ?_
  refine yields_ite (fun _ => yields_refused) fun enough => ?_
  refine (yields_add (by omega) rfl).bind fun stop (sum : dst + n = stop) => ?_
  refine (copyFromSlice_yields (by omega) (by omega) (by omega)).bind fun after kept => ?_
  refine (yields_add (by omega) rfl).bind fun further (moved : body + n = further) => ?_
  exact yields_ok ⟨(show src < further by omega), (show further ≤ input.length by omega),
    (show stop ≤ out.length by omega), kept⟩

/-- A fault told another way is no panic where it was none. -/
theorem yields_undecoded {α : Type} {step : Decoded α} {post : α → Prop} (yields : Yields step post)
    : Yields (step.mapError undecoded) post := by
  cases here : step with
  | ok a => exact yields_ok (yields.2 a here)
  | error fault =>
      cases fault with
      | panicked => exact absurd here yields.1
      | refused error => exact yields_refused

theorem decodeFrom_yields {input out : Bytes} {start : Nat} (small : input.length < 2 ^ 63)
    (roomy : out.length < 2 ^ 63) (order : start ≤ out.length)
    : Yields (Lzvn.decodeFrom input out start) fun result =>
      result.2.2.length = out.length := by
  refine ⟨fun panicked => ?_, fun ⟨used, reached, after⟩ done => ?_⟩
  · obtain ⟨error, same⟩ := (Lzvn.decodeFrom_inverts input out start small roomy order).2 _ panicked
    cases same
  · obtain ⟨-, fits, produced, length, -, rfl, -⟩ :=
      Lzvn.decodeFrom_independent small roomy order done
    change (produced ++ out.drop reached).length = out.length
    rw [List.length_append, List.length_drop]
    omega

theorem lzvnBlock_yields {input out : Bytes} {src dst : Nat} (small : input.length < 2 ^ 63)
    (roomy : out.length < 2 ^ 63) (inside : src ≤ input.length)
    : Yields (lzvnBlock input src out dst) (Took input src out.length) := by
  unfold lzvnBlock
  refine (yields_add (by omega) rfl).bind fun at4 (four : src + 4 = at4) => ?_
  refine (word_yields (by omega)).bind fun raw read => ?_
  refine (yields_add (by omega) rfl).bind fun at8 (eight : src + 8 = at8) => ?_
  refine (word_yields (by omega)).bind fun payload read' => ?_
  refine (yields_add (by omega) rfl).bind fun body (twelve : src + 12 = body) => ?_
  refine (yields_okOr fun _ here => of_bind_getRange here).bind fun stream cut => ?_
  refine (yields_okOr fun _ here => of_filter here).bind fun stop ends => ?_
  refine (range_yields (Nat.zero_le _) ends.2).bind fun window sized => ?_
  refine (yields_undecoded (decodeFrom_yields (by omega) (by omega) (by omega))).bind
    fun ⟨used, reached, window'⟩ kept => ?_
  change window'.length = _ at kept
  refine yields_ite (fun _ => yields_refused) fun _ => ?_
  refine (yields_add (by omega) rfl).bind fun further (moved : body + payload = further) => ?_
  refine yields_ok ⟨(show src < further by omega), (show further ≤ input.length by omega),
    ends.2, ?_⟩
  change (window' ++ out.drop stop).length = out.length
  rw [List.length_append, List.length_drop]
  omega

theorem packedBlock_yields {input out : Bytes} {src dst : Nat} (small : input.length < 2 ^ 63)
    (roomy : out.length < 2 ^ 63) (inside : src ≤ input.length)
    : Yields (packedBlock input src out dst) (Took input src out.length) := by
  unfold packedBlock
  have pos : packedHeader = 32 := rfl
  refine (range_yields inside (Nat.le_refl _)).bind fun bytes sized => ?_
  refine (Block.read_yields bytes).bind fun block sound => ?_
  have header := sound.header
  refine (Block.decode_yields small roomy inside sound).bind fun ⟨stop, after⟩ done => ?_
  obtain ⟨within, ends, kept⟩ := done
  refine (yields_add (by omega) rfl).bind fun first (one : _ + _ = first) => ?_
  refine (yields_add (by omega) rfl).bind fun length (two : _ + _ = length) => ?_
  refine (yields_add (by omega) rfl).bind fun further (moved : src + length = further) => ?_
  exact yields_ok ⟨(show src < further by omega), (show further ≤ input.length by omega), ends,
    kept⟩

/-! The stream. -/

/-- A stream's decoding is inside its stream and its buffer. -/
def Within (input : Bytes) (length : Nat) (state : Nat × Nat × Bytes) : Prop :=
  state.1 ≤ input.length ∧ state.2.1 ≤ length ∧ state.2.2.length = length

theorem turn_turns {input : Bytes} {length : Nat} (small : input.length < 2 ^ 63)
    (roomy : length < 2 ^ 63) (state : Nat × Nat × Bytes) (within : Within input length state)
    : Turns (turn input state)
      (fun next => Within input length next ∧ input.length - next.1 < input.length - state.1)
      (fun _ => True) := by
  obtain ⟨src, dst, out⟩ := state
  obtain ⟨inside, order, rfl⟩ := within
  -- Whatever kind it is of, a block leaves the stream further on.
  have goes : ∀ {step : Decoded (Nat × Nat × Bytes)}, Yields step (Took input src out.length) →
      Yields (step >>= fun result => .ok (.go (ρ := Decoded (Nat × Bytes)) result))
        (Turns · (fun next => Within input out.length next
          ∧ input.length - next.1 < input.length - src) (fun _ => True)) := fun yields =>
    yields.bind fun result ⟨more, inside, fits, kept⟩ =>
      yields_ok ⟨⟨inside, fits, kept⟩, by omega⟩
  refine turns_orStop ((word_yields (by omega)).bind fun kind read => ?_)
  refine yields_ite (fun _ => yields_ok (yields_ok trivial)) fun _ => ?_
  refine yields_ite (fun _ => goes (rawBlock_yields small roomy inside order)) fun _ => ?_
  refine yields_ite (fun _ => goes (lzvnBlock_yields small roomy inside)) fun _ => ?_
  refine yields_ite (fun _ => goes (packedBlock_yields small roomy inside)) fun _ => ?_
  exact yields_ite (fun _ => yields_refused) fun _ => yields_refused

/-- The decoder ends without a panic on every stream and every buffer. -/
theorem decompress_total : Total decompress := by
  intro input out small roomy
  refine (yields_run (Within input out.length) (fun state => input.length - state.1)
    (turn_turns small roomy) ?_ ?_).1
  · exact ⟨Nat.zero_le _, Nat.zero_le _, rfl⟩
  · exact (show input.length - 0 < input.length + 1 by omega)

end Ferrosys.Compress.Lzfse
