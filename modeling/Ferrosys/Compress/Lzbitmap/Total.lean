import Ferrosys.Compress.Lzbitmap.Inversion

/-! The decoder ends without a panic on every stream, and what it produces does not depend on what
its output held.
-/

namespace Ferrosys.Compress.Lzbitmap

open Checked Machine Splice Buffer

/-! No panic. -/

theorem getU24_yields {bytes : Bytes} {off : Nat} (inside : off + 2 < bytes.length)
    : Yields (getU24 bytes off) fun value => value < 2 ^ 24 := by
  unfold getU24
  refine (byteAt_yields (by omega)).bind fun low _ => ?_
  refine (byteAt_yields (by omega)).bind fun middle _ => ?_
  refine (byteAt_yields (by omega)).bind fun high _ => yields_ok ?_
  have first := low.toNat_lt
  have second := middle.toNat_lt
  have third := high.toNat_lt
  omega

theorem peek_yields (selectors : Bytes) (index : Nat)
    : Yields (peek selectors index) fun n => n < 16 ∧ index < 2 * selectors.length := by
  unfold peek
  cases here : selectors[index / 2]? with
  | none => exact yields_refused
  | some byte =>
      have inside := (List.getElem?_eq_some_iff.mp here).1
      have small := byte.toNat_lt
      refine yields_ok ⟨?_, by omega⟩
      split <;> omega

theorem next_yields {selectors : Bytes} (small : selectors.length < 2 ^ 32) (index : Nat)
    : Yields (next selectors index)
      fun result => result.1 < 16 ∧ result.2 = index + 1 ∧ index < 2 * selectors.length := by
  unfold next
  refine (peek_yields selectors index).bind fun n here => ?_
  refine (yields_add (by omega) rfl).bind fun after (same : index + 1 = after) => ?_
  exact yields_ok ⟨here.1, same.symm, here.2⟩

/-- A count is of one at least, however many selectors of 15 it has. -/
theorem count_yields {selectors : Bytes} (small : selectors.length < 2 ^ 32) (index : Nat)
    : Yields (count selectors index) fun result => 0 < result.1 := by
  unfold count
  refine (peek_yields selectors index).bind fun n here => ?_
  refine yields_ite (fun _ => yields_ok Nat.one_pos) fun _ => ?_
  refine (yields_add (by omega) rfl).bind fun after (same : index + 1 = after) => ?_
  refine yields_run
    (fun state => 0 < state.2 ∧ state.1 ≤ 2 * selectors.length ∧ state.2 ≤ 4 + 15 * state.1)
    (fun state => 2 * selectors.length - state.1) (fun state begun => ?_)
    ⟨(show 0 < 4 by decide), (show after ≤ _ by omega), (show 4 ≤ 4 + 15 * after by omega)⟩
    (show 2 * selectors.length - after < _ by omega)
  obtain ⟨index, total⟩ := state
  obtain ⟨pos, within, bounded⟩ := begun
  change 0 < total at pos
  change total ≤ 4 + 15 * index at bounded
  refine turns_orStop ((next_yields small index).bind fun ⟨n, after⟩ read => ?_)
  obtain ⟨below, step, inside⟩ := read
  change n < 16 at below
  change after = index + 1 at step
  refine (yields_add (by omega) rfl).bind fun sum (same : total + n = sum) => yields_ok ?_
  by_cases fifteen : n = repeatSelector
  · rw [if_pos fifteen]
    refine ⟨⟨(show 0 < sum by omega), (show after ≤ _ by omega), (show sum ≤ 4 + 15 * after by omega)⟩,
      (show 2 * selectors.length - after < 2 * selectors.length - index by omega)⟩
  · rw [if_neg fifteen]
    exact yields_ok (show 0 < sum by omega)

theorem maskOf_yields {entries : List (Nat × Nat)} {selector : Nat} {masks : Bytes}
    (long : entries.length = tableEntries) (fit : EntriesFit entries) (small : selector < 16)
    : Yields (maskOf entries selector masks) fun result => result.1.1 < 256 := by
  have sizes : tableEntries = 12 ∧ firstTableSelector = 3 ∧ repeatSelector = 15 := ⟨rfl, rfl, rfl⟩
  unfold maskOf
  refine yields_ite (fun _ => ?_) fun _ => yields_ite (fun _ => yields_refused) fun _ => ?_
  · cases masks with
    | nil => exact yields_refused
    | cons mask rest => exact yields_ok mask.toNat_lt
  · have inside : selector - firstTableSelector < entries.length := by omega
    rw [List.getElem?_eq_getElem inside]
    exact yields_ok (fit _ (List.getElem_mem inside)).1

theorem distanceOf_yields (width distance : Nat) (distances : Bytes)
    : Yields (distanceOf width distance distances) fun _ => True := by
  unfold distanceOf
  exact yields_ite (fun _ => yields_ite (fun _ => yields_refused) fun _ => yields_ok trivial)
    fun _ => yields_ok trivial

/-- Filling stays in the buffer, where what it copies is in it, by induction on the bytes. -/
theorem fill_yields {mask distance count i at_ : Nat} {literals out : Bytes}
    (fits : at_ + count ≤ out.length)
    (reaches : (∃ j, i ≤ j ∧ j < i + count ∧ isSet mask j = false) → distance ≤ at_)
    : Yields (fill mask distance count i literals out at_)
      fun result => result.2.length = out.length := by
  induction count generalizing i literals out at_ with
  | zero => exact yields_ok rfl
  | succ count ih =>
      have later : (∃ j, i + 1 ≤ j ∧ j < i + 1 + count ∧ isSet mask j = false) → distance ≤ at_ + 1 :=
        fun ⟨j, low, high, clear⟩ => (reaches ⟨j, by omega, by omega, clear⟩).trans (Nat.le_succ _)
      rw [fill.eq_def]
      dsimp only
      refine yields_ite (fun _ => ?_) fun clear => ?_
      · cases literals with
        | nil => exact yields_refused
        | cons byte rest =>
            refine (setByte_yields (by omega)).bind fun after same => ?_
            exact (ih (by omega) later).mono fun _ length => length.trans same
      · have within := reaches ⟨i, Nat.le_refl _, by omega, decide_eq_false clear⟩
        refine (yields_sub within rfl).bind fun back (same : at_ - distance = back) => ?_
        refine (byteAt_yields (by omega)).bind fun byte _ => ?_
        refine (setByte_yields (by omega)).bind fun after same => ?_
        exact (ih (by omega) later).mono fun _ length => length.trans same

/-- A block's decoding is inside its buffer. -/
def Stands (stop : Nat) (state : State) : Prop := state.at_ ≤ stop ∧ state.out.length = stop

theorem step_yields {entries : List (Nat × Nat)} {stop selector : Nat} {state : State}
    (long : entries.length = tableEntries) (fit : EntriesFit entries) (small : selector < 16)
    (roomy : stop < 2 ^ 63) (stands : Stands stop state) (more : state.at_ < stop)
    : Yields (step entries stop selector state)
      fun after => Stands stop after ∧ state.at_ < after.at_ := by
  obtain ⟨-, whole⟩ := stands
  have eight : stepLen = 8 := rfl
  unfold step
  refine (maskOf_yields long fit small).bind fun ⟨⟨mask, width⟩, masks⟩ here => ?_
  change mask < 256 at here
  dsimp only
  refine (distanceOf_yields width _ _).bind fun ⟨distance, distances⟩ _ => ?_
  dsimp only
  refine (yields_sub more.le rfl).bind fun left (same : stop - state.at_ = left) => ?_
  have shift : shifted (stepLen - min left stepLen) = .ok (255 / 2 ^ (8 - min left 8)) := by
    unfold shifted
    rw [if_neg (by omega), eight]
  rw [shift, ok_bind]
  refine yields_ite (fun _ => yields_refused) fun good => ?_
  have reaches : (∃ j, 0 ≤ j ∧ j < 0 + min left 8 ∧ isSet mask j = false) → distance ≤ state.at_ := by
    rintro ⟨j, -, below, clear⟩
    have some_ : (255 - mask) &&& (255 / 2 ^ (8 - min left 8)) ≠ 0 := by
      rw [ne_eq, copies_eq_zero here (by omega) (by omega)]
      intro all
      rw [all j (by omega)] at clear
      cases clear
    omega
  refine (fill_yields (by omega) reaches).bind fun ⟨literals, out⟩ length => ?_
  refine (yields_add (by omega) rfl).bind fun after (end_ : state.at_ + min left stepLen = after) =>
    yields_ok ⟨⟨(show after ≤ stop by omega), length.trans whole⟩, (show state.at_ < after by omega)⟩

/-- Steps stay in the buffer, by induction on how many there are to be. -/
theorem steps_yields {entries : List (Nat × Nat)} {stop selector repeats : Nat} {state : State}
    (long : entries.length = tableEntries) (fit : EntriesFit entries) (small : selector < 16)
    (roomy : stop < 2 ^ 63) (stands : Stands stop state)
    : Yields (steps entries stop selector repeats state) fun after => Stands stop after
      ∧ state.at_ ≤ after.at_ ∧ (0 < repeats → state.at_ < stop → state.at_ < after.at_) := by
  induction repeats generalizing state with
  | zero => exact yields_ok ⟨stands, Nat.le_refl _, fun none_ => absurd none_ (Nat.lt_irrefl 0)⟩
  | succ repeats ih =>
      rw [steps]
      refine yields_ite (fun done => yields_ok ⟨stands, Nat.le_refl _, fun _ more => ?_⟩) fun more => ?_
      · omega
      · have before : state.at_ < stop := Nat.lt_of_le_of_ne stands.1 more
        refine (step_yields long fit small roomy stands before).bind fun middle here => ?_
        exact (ih here.1).mono fun after there => ⟨there.1, here.2.le.trans there.2.1,
          fun _ _ => here.2.trans_le there.2.1⟩

theorem turn_turns {entries : List (Nat × Nat)} {selectors : Bytes} {stop : Nat}
    (few : selectors.length < 2 ^ 32) (long : entries.length = tableEntries)
    (fit : EntriesFit entries) (roomy : stop < 2 ^ 63) (state : State) (stands : Stands stop state)
    : Turns (turn entries selectors stop state)
      (fun next => Stands stop next ∧ stop - next.at_ < stop - state.at_)
      (fun result => stop ≤ result.at_ ∧ Stands stop result) := by
  refine turns_orStop (yields_ite (fun done => yields_ok (yields_ok ⟨done, stands⟩)) fun more => ?_)
  refine (next_yields few state.index).bind fun ⟨selector, index⟩ here => ?_
  refine (yields_sub (by omega) rfl).bind fun left _ => ?_
  have carried : ∀ repeats index, 0 < repeats →
      Yields (steps entries stop selector repeats { state with index } >>= fun after =>
        pure (Loop.Next.go (ρ := Decoded State) after))
      (Turns · (fun next => Stands stop next ∧ stop - next.at_ < stop - state.at_)
        (fun result => stop ≤ result.at_ ∧ Stands stop result)) := by
    intro repeats index pos
    have moved : Stands stop { state with index } := stands
    refine (steps_yields long fit here.1 roomy moved).bind fun after there => yields_ok ?_
    have further := there.2.2 pos (show state.at_ < stop by omega)
    change state.at_ < after.at_ at further
    exact ⟨there.1, by omega⟩
  refine yields_ite (fun _ => carried 1 index Nat.one_pos) fun _ => ?_
  exact (count_yields few index).bind fun ⟨repeats, index⟩ pos => carried repeats index pos

theorem table_yields {bytes : Bytes} (long : bytes.length = tableLen)
    : Yields (table bytes) fun entries => entries.length = tableEntries ∧ EntriesFit entries := by
  have seventeen : tableLen = 17 := rfl
  unfold table
  refine (range_yields (Nat.zero_le _) (by omega)).bind fun packed _ => ?_
  have each : ∀ i, Yields (entry (fromLeBytes packed) i) fun one => one.1 < 256 ∧ one.2 ≤ 2 := by
    intro i
    unfold entry
    exact yields_ite (fun _ => yields_refused) fun few =>
      yields_ok ⟨Nat.mod_lt _ (by decide), by omega⟩
  have all : ∀ list : List Nat, Yields (list.mapM (entry (fromLeBytes packed)))
      fun entries => entries.length = list.length ∧ EntriesFit entries := by
    intro list
    induction list with
    | nil => exact yields_ok ⟨rfl, nofun⟩
    | cons i rest ih =>
        rw [List.mapM_cons]
        refine (each i).bind fun one here => ih.bind fun others there => yields_ok ⟨?_, ?_⟩
        · rw [List.length_cons, List.length_cons, there.1]
        · exact List.forall_mem_cons.mpr ⟨here, there.2⟩
  exact all (List.range tableEntries)

theorem compressed_yields {block out : Bytes} {start : Nat} (small : block.length < 2 ^ 32)
    (roomy : out.length < 2 ^ 63) (order : start ≤ out.length)
    : Yields (compressed block out start) fun after =>
      after.length = out.length ∧ compressedHeader + tableLen ≤ block.length := by
  have sizes : compressedHeader = 15 ∧ tableLen = 17 := ⟨rfl, rfl⟩
  unfold compressed
  refine yields_ite (fun _ => yields_refused) fun long => ?_
  refine (getU24_yields (by omega)).bind fun literalsEnd _ => ?_
  refine (getU24_yields (by omega)).bind fun distancesEnd _ => ?_
  refine (getU24_yields (by omega)).bind fun selectorsAt _ => ?_
  refine (yields_okOr fun _ here => length_of_getRange here).bind fun literals _ => ?_
  refine (yields_okOr fun _ here => length_of_getRange here).bind fun distances _ => ?_
  refine (yields_sub (by omega) rfl).bind fun tableAt (same : block.length - tableLen = tableAt) => ?_
  refine yields_ite (fun _ => yields_refused) fun within => ?_
  refine yields_ite (fun _ => yields_refused) fun _ => ?_
  refine (range_yields (by omega) (by omega)).bind fun masks _ => ?_
  refine (range_yields (by omega) (Nat.le_refl _)).bind fun selectors few => ?_
  refine (range_yields (by omega) (Nat.le_refl _)).bind fun packed tabled => ?_
  refine (table_yields (by omega)).bind fun entries fit => ?_
  refine (yields_run (Stands out.length) (fun state => out.length - state.at_)
    (fun state stands => turn_turns (by omega) fit.1 fit.2 roomy state stands) ⟨order, rfl⟩
    (show out.length - start < _ by omega)).bind fun state done => ?_
  exact yields_ite (fun _ => yields_refused) fun _ => yields_ite (fun _ => yields_refused)
    fun _ => yields_ok ⟨done.2.2, by omega⟩

/-- A run of bytes from a place in a stream on is as long as it is to be. -/
theorem length_of_ahead {input piece : Bytes} {at_ n : Nat}
    (here : (getRange input at_ input.length).bind (getRange · 0 n) = some piece)
    : piece.length = n ∧ at_ + n ≤ input.length := by
  obtain ⟨rest, tail, here⟩ := Option.bind_eq_some_iff.mp here
  have one := length_of_getRange tail
  have two := length_of_getRange here
  omega

/-- A stream's decoding is inside its stream and its buffer. -/
def Within (input : Bytes) (state : Nat × Nat × Bytes) : Prop :=
  state.1 ≤ input.length ∧ state.2.1 ≤ state.2.2.length ∧ state.2.2.length < 2 ^ 63

theorem block_turns {input : Bytes} {rawOnly : Bool} (small : input.length < 2 ^ 63)
    (state : Nat × Nat × Bytes) (within : Within input state)
    : Turns (block input rawOnly state)
      (fun next => Within input next ∧ input.length - next.1 < input.length - state.1)
      (fun _ => True) := by
  obtain ⟨at_, produced, out⟩ := state
  obtain ⟨inside, order, roomy⟩ := within
  change at_ ≤ input.length at inside
  change produced ≤ out.length at order
  change out.length < 2 ^ 63 at roomy
  have sizes : blockHeader = 6 ∧ maxDecoded = 32768 ∧ compressedHeader = 15 ∧ tableLen = 17 :=
    ⟨rfl, rfl, rfl, rfl⟩
  refine turns_orStop ((yields_okOr fun _ here => length_of_ahead here).bind fun header opened => ?_)
  refine (getU24_yields (by omega)).bind fun length few => ?_
  refine (getU24_yields (by omega)).bind fun decoded _ => ?_
  refine (yields_okOr fun _ here => length_of_ahead here).bind fun block whole => ?_
  refine yields_ite (fun _ => yields_refused) fun most => ?_
  refine yields_ite (fun _ => yields_refused) fun least => ?_
  refine (yields_sub order rfl).bind fun left (same : out.length - produced = left) => ?_
  refine yields_ite (fun _ => yields_refused) fun room => ?_
  refine (yields_add (by omega) rfl).bind fun stop (end_ : produced + decoded = stop) => ?_
  -- Whichever way the block is undone, it took a byte and left the buffer as long.
  have rest : ∀ after : Bytes, after.length = out.length → 0 < length →
      Yields (if decoded = 0 then pure (Loop.Next.stop (.ok (produced, after)))
        else plus at_ length >>= fun further =>
          pure (Loop.Next.go (ρ := Decoded (Nat × Bytes)) (further, stop, after)))
      (Turns · (fun next => Within input next ∧ input.length - next.1 < input.length - at_)
        (fun _ => True)) := by
    intro after kept pos
    refine yields_ite (fun _ => yields_ok (yields_ok trivial)) fun _ => ?_
    refine (yields_add (by omega) rfl).bind fun further (moved : at_ + length = further) => ?_
    exact yields_ok ⟨⟨(show further ≤ input.length by omega), (show stop ≤ after.length by omega),
      (show after.length < 2 ^ 63 by omega)⟩,
      (show input.length - further < input.length - at_ by omega)⟩
  refine yields_ite (fun stored => ?_) fun packed => yields_ite (fun _ => yields_refused) fun _ => ?_
  · refine (range_yields (by omega) (Nat.le_refl _)).bind fun bytes sized => ?_
    have written : Yields (copyFromSlice out produced stop bytes) fun after =>
        after.length = out.length := by
      unfold copyFromSlice
      rw [if_pos (by omega)]
      exact yields_ok (length_splice _ _ _)
    exact written.bind fun after kept => rest after kept (by omega)
  · refine (range_yields (Nat.zero_le _) (by omega)).bind fun window sized => ?_
    refine (compressed_yields (by omega) (by omega) (by omega)).bind fun undone done => ?_
    refine rest (undone ++ out.drop stop) ?_ (by omega)
    rw [List.length_append, List.length_drop]
    omega

/-- The decoder ends without a panic on every stream and every buffer. -/
theorem decompress_total : Total decompress := by
  intro input out small roomy
  have four : signatureLen = 4 ∧ signature.length = 3 := ⟨rfl, rfl⟩
  have turns : ∀ rawOnly, 4 ≤ input.length →
      Yields ((Loop.run (block input rawOnly) (input.length + 1) (signatureLen, 0, out)).getD
        (.error .panicked)) fun _ => True := fun rawOnly long =>
    yields_run (Within input) (fun state => input.length - state.1)
      (fun state within => block_turns small state within)
      ⟨(show signatureLen ≤ input.length by omega), Nat.zero_le _, roomy⟩
      (show input.length - signatureLen < _ by omega)
  have yields : Yields (decompress input out) fun _ => True := by
    unfold decompress
    refine yields_ite (fun _ => yields_refused) fun signed => ?_
    refine (byteAt_yields (by omega)).bind fun fourth _ => ?_
    refine yields_ite (fun _ => turns false (by omega)) fun _ =>
      yields_ite (fun _ => turns true (by omega)) fun _ => yields_refused
  exact yields.1

/-! What is produced does not depend on what the output held. -/

/-- Filling a step whose copies reach what was produced takes as many bytes as it is of, and makes
the same of them in any room for them, by induction on the bytes.
-/
theorem fill_steady {mask distance : Nat} (count i : Nat) (literals produced room : Bytes)
    (reaches : (∃ j, i ≤ j ∧ j < i + count ∧ isSet mask j = false) → 0 < distance)
    {left out : Bytes}
    (done : fill mask distance count i literals (produced ++ room) produced.length = .ok (left, out))
    : count ≤ room.length ∧ ∃ added, added.length = count
      ∧ out = produced ++ added ++ room.drop count
      ∧ ∀ other : Bytes, count ≤ other.length →
        fill mask distance count i literals (produced ++ other) produced.length
          = .ok (left, produced ++ added ++ other.drop count) := by
  induction count generalizing i literals produced room with
  | zero =>
      obtain ⟨rfl, rfl⟩ := Prod.mk.inj (Except.ok.inj done)
      exact ⟨Nat.zero_le _, [], rfl, by simp, fun other _ => by simp [fill]⟩
  | succ count ih =>
      have later : (∃ j, i + 1 ≤ j ∧ j < i + 1 + count ∧ isSet mask j = false) → 0 < distance :=
        fun clear => by
          obtain ⟨j, low, high, clear⟩ := clear
          exact reaches ⟨j, by omega, by omega, clear⟩
      have write : ∀ (byte first : UInt8) (room : Bytes),
          setByte (produced ++ first :: room) produced.length byte
            = .ok (produced ++ [byte] ++ room) := by
        intro byte first room
        unfold setByte
        rw [if_pos (by simp)]
        simp
      -- The byte that is set is produced, and the rest of the step goes on behind it.
      have behind : ∀ (byte : UInt8) (rest : Bytes),
          (setByte (produced ++ room) produced.length byte >>= fun after =>
            fill mask distance count (i + 1) rest after (produced.length + 1)) = .ok (left, out) →
          count + 1 ≤ room.length ∧ ∃ added, added.length = count + 1
            ∧ out = produced ++ added ++ room.drop (count + 1)
            ∧ ∀ other : Bytes, count + 1 ≤ other.length →
              (setByte (produced ++ other) produced.length byte >>= fun after =>
                fill mask distance count (i + 1) rest after (produced.length + 1))
                = .ok (left, produced ++ added ++ other.drop (count + 1)) := by
        intro byte rest went
        cases room with
        | nil =>
            obtain ⟨after, set, -⟩ := bind_eq_ok.mp went
            unfold setByte at set
            rw [if_neg (by simp)] at set
            cases set
        | cons first room =>
            rw [write, ok_bind] at went
            have grown : (produced ++ [byte]).length = produced.length + 1 := by simp
            obtain ⟨fits, added, length, same, others⟩ :=
              ih (i + 1) rest (produced ++ [byte]) room later (by rw [grown]; exact went)
            refine ⟨Nat.succ_le_succ fits, byte :: added, congrArg _ length, ?_,
              fun other enough => ?_⟩
            · rw [same, List.append_assoc produced]
              rfl
            · cases other with
              | nil => exact absurd enough (Nat.not_succ_le_zero _)
              | cons first' other =>
                  have last := others other (Nat.le_of_succ_le_succ enough)
                  rw [grown] at last
                  rw [write, ok_bind, last, List.append_assoc produced]
                  rfl
      cases bit : isSet mask i with
      | true =>
          have one : mask / 2 ^ i % 2 = 1 := of_decide_eq_true bit
          cases literals with
          | nil =>
              rw [fill.eq_def] at done
              dsimp only at done
              rw [if_pos one] at done
              cases done
          | cons byte rest =>
              have unfolded : ∀ room, fill mask distance (count + 1) i (byte :: rest)
                  (produced ++ room) produced.length
                  = setByte (produced ++ room) produced.length byte >>= fun after =>
                    fill mask distance count (i + 1) rest after (produced.length + 1) := by
                intro room
                rw [fill.eq_def]
                dsimp only
                rw [if_pos one]
              rw [unfolded] at done
              obtain ⟨fits, added, length, same, others⟩ := behind byte rest done
              exact ⟨fits, added, length, same, fun other enough =>
                (unfolded other).trans (others other enough)⟩
      | false =>
          have zero : ¬ mask / 2 ^ i % 2 = 1 := of_decide_eq_false bit
          have pos := reaches ⟨i, Nat.le_refl _, by omega, bit⟩
          have unfolded : ∀ room, fill mask distance (count + 1) i literals (produced ++ room)
              produced.length = minus produced.length distance >>= fun back =>
                byteAt (produced ++ room) back >>= fun byte =>
                  setByte (produced ++ room) produced.length byte >>= fun after =>
                    fill mask distance count (i + 1) literals after (produced.length + 1) := by
            intro room
            rw [fill.eq_def]
            dsimp only
            rw [if_neg zero]
          by_cases within : distance ≤ produced.length
          · obtain ⟨byte, back⟩ := Lz77.exists_back pos within
            have here : ∀ room, byteAt (produced ++ room) (produced.length - distance) = .ok byte := by
              intro room
              rw [byteAt_eq_ok, List.getElem?_append_left (by omega), back]
            rw [unfolded, minus_of_le within, ok_bind, here, ok_bind] at done
            obtain ⟨fits, added, length, same, others⟩ := behind byte literals done
            refine ⟨fits, added, length, same, fun other enough => ?_⟩
            rw [unfolded, minus_of_le within, ok_bind, here, ok_bind, others other enough]
          · rw [unfolded, minus, sub, if_neg within] at done
            cases done

/-- The parts of a block's decoding that have nothing to do with its output. -/
abbrev Parts := Bytes × Bytes × Bytes × Nat × Nat

/-- A block's decoding, made of its parts. -/
def stateOf (t : Parts) (produced room : Bytes) : State :=
  ⟨t.1, t.2.1, t.2.2.1, t.2.2.2.1, produced ++ room, produced.length, t.2.2.2.2⟩

theorem step_blind {entries : List (Nat × Nat)} {stop selector : Nat} (produced : Bytes)
    (long : entries.length = tableEntries) (fit : EntriesFit entries) (small : selector < 16)
    (t : Parts)
    : Blind (2 ^ 63) stateOf produced fun room =>
      step entries stop selector (stateOf t produced room) := by
  obtain ⟨masks, literals, distances, index, distance⟩ := t
  have eight : stepLen = 8 := rfl
  have opened : ∀ room, step entries stop selector
      (stateOf (masks, literals, distances, index, distance) produced room)
      = maskOf entries selector masks >>= fun a => distanceOf a.1.2 distance distances >>= fun b =>
        minus stop produced.length >>= fun left =>
          shifted (stepLen - min left stepLen) >>= fun keep =>
            if (255 - a.1.1) &&& keep ≠ 0 ∧ (b.1 < stepLen ∨ produced.length < b.1) then
              malformed "a copy reaches into its own step or before the output's start"
            else fill a.1.1 b.1 (min left stepLen) 0 literals (produced ++ room) produced.length
              >>= fun c => plus produced.length (min left stepLen) >>= fun after =>
                .ok ⟨a.2, c.1, b.2, index, c.2, after, b.1⟩ := fun room => rfl
  refine Blind.congr ?_ fun room _ => opened room
  refine blind_bind fun a here => blind_bind fun b _ => blind_bind fun left _ =>
    blind_bind fun keep shifts => blind_ite (fun _ => blind_error fun _ => _) fun good => ?_
  have below : a.1.1 < 256 := (maskOf_yields long fit small).2 a here
  have shift : 0 < min left stepLen ∧ keep = 255 / 2 ^ (8 - min left stepLen) := by
    unfold shifted at shifts
    by_cases wide : 8 ≤ stepLen - min left stepLen
    · rw [if_pos wide] at shifts
      cases shifts
    · rw [if_neg wide] at shifts
      exact ⟨by omega, (Except.ok.inj shifts).symm⟩
  have reaches : (∃ j, 0 ≤ j ∧ j < 0 + min left stepLen ∧ isSet a.1.1 j = false) → 0 < b.1 := by
    rintro ⟨j, -, inside, clear⟩
    have some_ : (255 - a.1.1) &&& keep ≠ 0 := by
      rw [shift.2, ne_eq, copies_eq_zero below shift.1 (by omega)]
      intro all
      rw [all j (by omega)] at clear
      cases clear
    omega
  intro room s roomy done
  obtain ⟨⟨literals', out⟩, filled, done⟩ := bind_eq_ok.mp done
  obtain ⟨fits, added, length, rfl, others⟩ :=
    fill_steady _ _ literals produced room reaches filled
  rw [List.length_append] at roomy
  have sum : ∀ {n : Nat}, n ≤ room.length → plus produced.length n = .ok (produced.length + n) :=
    fun small => plus_of_lt (by omega)
  rw [sum fits] at done
  obtain rfl := Except.ok.inj done
  have whole : (produced ++ added).length = produced.length + min left stepLen := by
    rw [List.length_append, length]
  refine ⟨(a.2, literals', b.2, index, b.1), added, by omega, ?_, fun other _ enough => ?_⟩
  · unfold stateOf
    rw [whole, length]
  · have last := others other (by omega)
    change (fill a.1.1 b.1 (min left stepLen) 0 literals (produced ++ other) produced.length >>= _) = _
    rw [last, ok_bind, sum fits]
    unfold stateOf
    rw [whole, length]
    rfl

/-- Steps in a row are blind, by induction on how many there are to be. -/
theorem steps_blind {entries : List (Nat × Nat)} {stop selector : Nat} (repeats : Nat)
    (produced : Bytes) (long : entries.length = tableEntries) (fit : EntriesFit entries)
    (small : selector < 16) (t : Parts)
    : Blind (2 ^ 63) stateOf produced fun room =>
      steps entries stop selector repeats (stateOf t produced room) := by
  induction repeats generalizing produced t with
  | zero => exact blind_ok stateOf t
  | succ repeats ih =>
      have opened : ∀ room, steps entries stop selector (repeats + 1) (stateOf t produced room)
          = if produced.length = stop then .ok (stateOf t produced room)
            else step entries stop selector (stateOf t produced room)
              >>= steps entries stop selector repeats := fun room => rfl
      refine Blind.congr ?_ fun room _ => opened room
      exact blind_ite (fun _ => blind_ok stateOf t) fun _ =>
        (step_blind produced long fit small t).bind fun t' added => ih (produced ++ added) t'

/-- What a turn in a block leaves, made of its parts. -/
def nextState : Parts ⊕ Parts → Bytes → Bytes → Loop.Next State (Decoded State) :=
  nextOf stateOf stateOf

theorem turn_blind {entries : List (Nat × Nat)} {selectors : Bytes} {stop : Nat}
    (few : selectors.length < 2 ^ 32) (long : entries.length = tableEntries)
    (fit : EntriesFit entries) : BlindTurn (2 ^ 63) stateOf stateOf (turn entries selectors stop) := by
  rintro ⟨masks, literals, distances, index, distance⟩ produced
  refine ⟨_, fun room => rfl, ?_⟩
  -- However many steps there are to be, they are blind.
  have carried : ∀ repeats index' selector, selector < 16 →
      Blind (2 ^ 63) nextState produced fun room =>
        steps entries stop selector repeats
          (stateOf (masks, literals, distances, index', distance) produced room) >>= fun after =>
            .ok (.go after) := fun repeats index' selector small =>
    (steps_blind repeats produced long fit small _).bind fun t' added =>
      blind_ok nextState (.inl t')
  have opened : Blind (2 ^ 63) nextState produced fun room =>
      if stop ≤ produced.length then
        .ok (.stop (.ok (stateOf (masks, literals, distances, index, distance) produced room)))
      else next selectors index >>= fun a => minus stop produced.length >>= fun left =>
        if left ≤ stepLen then steps entries stop a.1 1
            (stateOf (masks, literals, distances, a.2, distance) produced room) >>= fun after =>
              .ok (.go after)
        else count selectors a.2 >>= fun b => steps entries stop a.1 b.1
            (stateOf (masks, literals, distances, b.2, distance) produced room) >>= fun after =>
              .ok (.go after) := by
    refine blind_ite (fun _ => blind_ok nextState (.inr _)) fun _ => blind_bind fun a here =>
      blind_bind fun left _ => ?_
    have small := ((next_yields few index).2 a here).1
    exact blind_ite (fun _ => carried 1 a.2 a.1 small) fun _ =>
      blind_bind fun b _ => carried b.1 b.2 a.1 small
  exact opened.congr fun room _ => rfl

/-- Undoing a compressed block takes the whole window it is given, and makes the same of any other
that is as long.
-/
theorem compressed_steady {block produced room out : Bytes} (small : block.length < 2 ^ 32)
    (roomy : (produced ++ room).length < 2 ^ 63)
    (done : compressed block (produced ++ room) produced.length = .ok out)
    : ∃ added, added.length = room.length ∧ out = produced ++ added
      ∧ ∀ other : Bytes, other.length = room.length →
        compressed block (produced ++ other) produced.length = .ok (produced ++ added) := by
  have whole : (produced ++ room).length = produced.length + room.length := List.length_append
  have sizes : compressedHeader = 15 ∧ tableLen = 17 := ⟨rfl, rfl⟩
  unfold compressed at done ⊢
  by_cases short : block.length < compressedHeader + tableLen
  · rw [if_pos short] at done
    cases done
  rw [if_neg short] at done
  obtain ⟨literalsEnd, one, done⟩ := bind_eq_ok.mp done
  obtain ⟨distancesEnd, two, done⟩ := bind_eq_ok.mp done
  obtain ⟨selectorsAt, three, done⟩ := bind_eq_ok.mp done
  obtain ⟨literals, four, done⟩ := bind_eq_ok.mp done
  obtain ⟨distances, five, done⟩ := bind_eq_ok.mp done
  obtain ⟨tableAt, six, done⟩ := bind_eq_ok.mp done
  by_cases outside : ¬ (distancesEnd ≤ selectorsAt ∧ selectorsAt < tableAt)
  · rw [if_pos outside] at done
    cases done
  rw [if_neg outside] at done
  by_cases many : maxSelectorBytes < tableAt - selectorsAt
  · rw [if_pos many] at done
    cases done
  rw [if_neg many] at done
  obtain ⟨masks, seven, done⟩ := bind_eq_ok.mp done
  obtain ⟨selectors, eight, done⟩ := bind_eq_ok.mp done
  obtain ⟨packed, nine, done⟩ := bind_eq_ok.mp done
  obtain ⟨entries, ten, done⟩ := bind_eq_ok.mp done
  obtain ⟨state, ran, done⟩ := bind_eq_ok.mp done
  have tail : tableAt = block.length - tableLen := by
    rw [minus_of_le (by omega)] at six
    exact (Except.ok.inj six).symm
  have few : selectors.length < 2 ^ 32 := by
    rw [(range_yields (by omega) (Nat.le_refl _)).2 selectors eight]
    omega
  obtain ⟨long, fit⟩ := (table_yields ((range_yields (by omega) (Nat.le_refl _)).2 packed nine
    |>.trans (by omega))).2 entries ten
  -- The steps stop at the window's end, so that they take all of it.
  have yields : Yields ((Loop.run (turn entries selectors (produced ++ room).length)
      ((produced ++ room).length + 1)
      (stateOf (masks, literals, distances, 0, stepLen) produced room)).getD (.error .panicked))
      (fun result => (produced ++ room).length ≤ result.at_ ∧ Stands (produced ++ room).length result) :=
    yields_run (Stands (produced ++ room).length)
      (fun state => (produced ++ room).length - state.at_)
      (fun state stands => turn_turns few long fit roomy state stands)
      ⟨(show produced.length ≤ _ by omega), rfl⟩
      (show (produced ++ room).length - produced.length < (produced ++ room).length + 1 by omega)
  have ends := yields.2 state ran
  obtain ⟨t, added, fits, rfl, others⟩ := (turn_blind few long fit).run .panicked
    ((produced ++ room).length + 1) (masks, literals, distances, 0, stepLen) produced room state
    roomy ran
  have all : added.length = room.length := by
    have reached : (produced ++ room).length ≤ (produced ++ added).length := ends.1
    rw [whole, List.length_append] at reached
    omega
  have none_ : room.drop added.length = [] := by rw [all, List.drop_length]
  change (if t.2.1 ≠ [] then malformed _ else if t.2.2.1 ≠ [] then malformed _
    else Except.ok (produced ++ added ++ room.drop added.length)) = _ at done
  by_cases unusedLiterals : t.2.1 ≠ []
  · rw [if_pos unusedLiterals] at done
    cases done
  rw [if_neg unusedLiterals] at done
  by_cases unusedDistances : t.2.2.1 ≠ []
  · rw [if_pos unusedDistances] at done
    cases done
  rw [if_neg unusedDistances, none_, List.append_nil] at done
  refine ⟨added, all, (Except.ok.inj done).symm, fun other same => ?_⟩
  have length : (produced ++ other).length = (produced ++ room).length := by
    rw [whole, List.length_append, same]
  have last : (Loop.run (turn entries selectors (produced ++ room).length)
      ((produced ++ room).length + 1)
      (stateOf (masks, literals, distances, 0, stepLen) produced other)).getD (.error .panicked)
      = .ok (stateOf t (produced ++ added) (other.drop added.length)) :=
    others other (by rw [length]; exact roomy) (by omega)
  have rest : other.drop added.length = [] := by
    rw [all, ← same, List.drop_length]
  rw [if_neg short, one, ok_bind, two, ok_bind, three, ok_bind, four, ok_bind, five, ok_bind, six,
    ok_bind, if_neg outside, if_neg many, seven, ok_bind, eight, ok_bind, nine, ok_bind, ten,
    ok_bind]
  dsimp only
  rw [length]
  change ((Loop.run (turn entries selectors (produced ++ room).length)
    ((produced ++ room).length + 1)
    (stateOf (masks, literals, distances, 0, stepLen) produced other)).getD (.error .panicked)
      >>= _) = _
  rw [last, ok_bind]
  change (if t.2.1 ≠ [] then malformed _ else if t.2.2.1 ≠ [] then malformed _
    else Except.ok (produced ++ added ++ other.drop added.length)) = _
  rw [if_neg unusedLiterals, if_neg unusedDistances, rest, List.append_nil]

/-- What a turn does once a block is undone: it stops after a block of nothing, and goes on after any
other.
-/
def finish (at_ produced length decoded stop : Nat) (out : Bytes)
    : Decoded (Loop.Next (Nat × Nat × Bytes) (Decoded (Nat × Bytes))) :=
  if decoded = 0 then .ok (.stop (.ok (produced, out)))
  else plus at_ length >>= fun further => .ok (.go (further, stop, out))

/-- Whichever way a block is undone, the rest of the turn is blind. -/
theorem finish_blind {at_ length : Nat} (produced added : Bytes)
    : Blind (2 ^ 63) nextPlace (produced ++ added) fun room =>
      finish at_ produced.length length added.length (produced.length + added.length)
        (produced ++ added ++ room) := by
  unfold finish
  refine blind_ite (fun none_ => ?_) fun _ => blind_bind fun further _ => ?_
  · obtain rfl := List.eq_nil_of_length_eq_zero none_
    refine Blind.congr (blind_ok nextPlace (.inr ())) fun room _ => ?_
    change Except.ok (Loop.Next.stop (Except.ok (produced.length, _)))
      = Except.ok (Loop.Next.stop (Except.ok ((produced ++ []).length, _)))
    rw [List.append_nil]
  · refine Blind.congr (blind_ok nextPlace (.inl further)) fun room _ => ?_
    rw [← List.length_append]
    rfl

/-- A block is undone, stored or not, without a look at what the room held. -/
theorem undo_blind (at_ length decoded : Nat) {piece : Bytes} (rawOnly : Bool) (produced : Bytes)
    (small : piece.length < 2 ^ 32)
    : Blind (2 ^ 63) nextPlace produced fun room =>
      if room.length < decoded then refuse (.overrun .lzbitmap (produced ++ room).length)
      else plus produced.length decoded >>= fun stop =>
        if length = decoded + blockHeader then
          range piece blockHeader piece.length >>= fun bytes =>
            copyFromSlice (produced ++ room) produced.length stop bytes >>=
              finish at_ produced.length length decoded stop
        else if rawOnly then
          malformed "a compressed block in a stream whose signature admits none" >>=
            finish at_ produced.length length decoded stop
        else range (produced ++ room) 0 stop >>= fun window =>
          compressed piece window produced.length >>= fun undone =>
            finish at_ produced.length length decoded stop
              (undone ++ (produced ++ room).drop stop) := by
  intro room s roomy done
  dsimp only at done
  by_cases short : room.length < decoded
  · rw [if_pos short] at done
    cases done
  have sum : ∀ {other : Bytes}, (produced ++ other).length < 2 ^ 63 → decoded ≤ other.length →
      plus produced.length decoded = .ok (produced.length + decoded) := by
    intro other bounded enough
    rw [List.length_append] at bounded
    exact plus_of_lt (by omega)
  rw [if_neg short, sum roomy (by omega), ok_bind] at done
  by_cases stored : length = decoded + blockHeader
  · rw [if_pos stored] at done
    obtain ⟨bytes, here, done⟩ := bind_eq_ok.mp done
    obtain ⟨out, copied, done⟩ := bind_eq_ok.mp done
    have sized : bytes.length = decoded := by
      by_contra other
      unfold copyFromSlice at copied
      rw [if_neg (by omega)] at copied
      cases copied
    subst sized
    have write : ∀ {other : Bytes}, bytes.length ≤ other.length →
        copyFromSlice (produced ++ other) produced.length (produced.length + bytes.length) bytes
          = .ok (produced ++ bytes ++ other.drop bytes.length) := copyFromSlice_produced
    rw [write (by omega)] at copied
    obtain rfl := Except.ok.inj copied
    refine (finish_blind produced bytes).after roomy (by omega) done fun other bounded enough => ?_
    rw [if_neg (by omega), sum bounded enough, ok_bind, if_pos stored, here, ok_bind, write enough,
      ok_bind]
  · rw [if_neg stored] at done
    by_cases only : rawOnly = true
    · rw [if_pos only] at done
      cases done
    rw [if_neg only] at done
    obtain ⟨window, here, done⟩ := bind_eq_ok.mp done
    obtain ⟨undone, made, done⟩ := bind_eq_ok.mp done
    -- The window ends where the block does, so that what it held is all overwritten.
    have part : ∀ {other : Bytes}, decoded ≤ other.length →
        range (produced ++ other) 0 (produced.length + decoded)
          = .ok (produced ++ other.take decoded) := by
      intro other enough
      rw [range_of_le (Nat.zero_le _) (by rw [List.length_append]; omega)]
      unfold slice
      rw [List.drop_zero, Nat.sub_zero, List.take_length_add_append]
    rw [part (by omega)] at here
    obtain rfl := Except.ok.inj here
    have taken : ∀ {other : Bytes}, decoded ≤ other.length →
        (other.take decoded).length = decoded := fun enough => by
      rw [List.length_take, Nat.min_eq_left enough]
    obtain ⟨added, sized, rfl, others⟩ := compressed_steady small (by
      rw [List.length_append] at roomy ⊢
      rw [taken (by omega)]
      omega) made
    rw [taken (by omega)] at sized
    subst sized
    rw [List.drop_length_add_append] at done
    refine (finish_blind produced added).after roomy (by omega) done fun other bounded enough => ?_
    rw [if_neg (by omega), sum bounded enough, ok_bind, if_neg stored, if_neg only, part enough,
      ok_bind, others _ (by rw [taken enough, taken (by omega)]), ok_bind,
      List.drop_length_add_append]

theorem block_blind {input : Bytes} {rawOnly : Bool}
    : BlindTurn (2 ^ 63) placeOf answer (block input rawOnly) := by
  intro at_ produced
  refine ⟨_, fun room => rfl, ?_⟩
  have opened : Blind (2 ^ 63) nextPlace produced fun room =>
      okOr ((getRange input at_ input.length).bind (getRange · 0 blockHeader))
        (.refused (.malformed .lzbitmap "the stream ends without its end block")) >>= fun header =>
      getU24 header 0 >>= fun length => getU24 header 3 >>= fun decoded =>
      okOr ((getRange input at_ input.length).bind (getRange · 0 length))
        (.refused (.malformed .lzbitmap "a block runs past the end of the stream"))
      >>= fun piece =>
      if maxDecoded < decoded then malformed "a block decodes to more than 32 KiB"
      else if decoded + blockHeader < length then
        malformed "a block is longer than the bytes it decodes to stored as they are"
      else minus (produced ++ room).length produced.length >>= fun left =>
        if left < decoded then refuse (.overrun .lzbitmap (produced ++ room).length)
        else plus produced.length decoded >>= fun stop =>
          if length = decoded + blockHeader then
            range piece blockHeader piece.length >>= fun bytes =>
              copyFromSlice (produced ++ room) produced.length stop bytes >>=
                finish at_ produced.length length decoded stop
          else if rawOnly then
            malformed "a compressed block in a stream whose signature admits none" >>=
              finish at_ produced.length length decoded stop
          else range (produced ++ room) 0 stop >>= fun window =>
            compressed piece window produced.length >>= fun undone =>
              finish at_ produced.length length decoded stop
                (undone ++ (produced ++ room).drop stop) := by
    refine blind_bind fun header here => blind_bind fun length read => blind_bind fun decoded _ =>
      blind_bind fun piece cut => blind_ite (fun _ => blind_error fun _ => _) fun _ =>
        blind_ite (fun _ => blind_error fun _ => _) fun _ => ?_
    have six : blockHeader = 6 := rfl
    obtain ⟨whole, _⟩ := length_of_ahead (okOr_eq_ok.mp here)
    obtain ⟨sized, _⟩ := length_of_ahead (okOr_eq_ok.mp cut)
    have few : length < 2 ^ 24 := (getU24_yields (by omega)).2 length read
    have tiny : piece.length < 2 ^ 32 := by omega
    refine Blind.congr (undo_blind at_ length decoded rawOnly produced tiny) fun room _ => ?_
    rw [minus_of_le (by rw [List.length_append]; omega), ok_bind, List.length_append,
      Nat.add_sub_cancel_left]
  exact opened.congr fun room _ => rfl

/-- What LZBITMAP decodes to has nothing to do with the buffer it is decoded into. -/
theorem decompress_independent : Independent decompress := by
  refine independent_of_blind fun input small => ?_
  have opened : Blind (2 ^ 63) answer [] fun out =>
      if input.length < signatureLen ∨ input.take signature.length ≠ signature then
        malformed "the stream does not open with its signature"
      else byteAt input signature.length >>= fun fourth =>
        (if fourth = 0x08 ∨ fourth = 0x09 then pure false
          else if fourth = 0x0C ∨ fourth = 0x0D then pure true
          else malformed "the stream's signature ends in a byte it does not take") >>= fun rawOnly =>
        (Loop.run (block input rawOnly) (input.length + 1) (signatureLen, 0, out)).getD
          (.error .panicked) :=
    blind_ite (fun _ => blind_error fun _ => _) fun _ => blind_bind fun fourth _ =>
      blind_bind fun rawOnly _ => block_blind.run .panicked (input.length + 1) signatureLen []
  refine opened.congr fun out _ => ?_
  unfold decompress
  by_cases unsigned : input.length < signatureLen ∨ input.take signature.length ≠ signature
  · rw [if_pos unsigned, if_pos unsigned]
  · rw [if_neg unsigned, if_neg unsigned]
    congr 1
    funext fourth
    by_cases plain : fourth = 0x08 ∨ fourth = 0x09
    · rw [if_pos plain, if_pos plain]
    · rw [if_neg plain, if_neg plain]
      by_cases raw : fourth = 0x0C ∨ fourth = 0x0D
      · rw [if_pos raw, if_pos raw]
      · rw [if_neg raw, if_neg raw]

end Ferrosys.Compress.Lzbitmap
