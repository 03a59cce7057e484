import Ferrosys.Compress.Lzbitmap.Steps

/-! The decoder inverts the encoding: a stream of blocks that fit decodes to what they expand to. -/

namespace Ferrosys.Compress.Lzbitmap

open Checked Machine Splice

/-! The selectors. -/

/-- A selector of the bytes, by induction on them two selectors at a time. -/
theorem getElem?_nibblesOf (bytes : Bytes) (i : Nat)
    : (nibblesOf bytes)[i]?
      = bytes[i / 2]?.map fun byte => if i % 2 = 0 then byte.toNat % 16 else byte.toNat / 16 := by
  induction bytes generalizing i with
  | nil => rfl
  | cons byte rest ih =>
      change (byte.toNat % 16 :: byte.toNat / 16 :: nibblesOf rest)[i]? = _
      match i with
      | 0 => rfl
      | 1 => rfl
      | i + 2 =>
          rw [List.getElem?_cons_succ, List.getElem?_cons_succ, ih,
            show (i + 2) / 2 = i / 2 + 1 by omega, List.getElem?_cons_succ,
            show (i + 2) % 2 = i % 2 by omega]

theorem length_nibblesOf (bytes : Bytes) : (nibblesOf bytes).length = 2 * bytes.length := by
  induction bytes with
  | nil => rfl
  | cons byte rest ih =>
      change (nibblesOf rest).length + 1 + 1 = _
      rw [ih, List.length_cons]
      omega

/-- A selector that stands in the bytes is read. -/
theorem next_of_drop {selectors : Bytes} {index n : Nat} {rest : List Nat}
    (small : selectors.length < 2 ^ 32) (left : (nibblesOf selectors).drop index = n :: rest)
    : peek selectors index = .ok n ∧ next selectors index = .ok (n, index + 1)
      ∧ (nibblesOf selectors).drop (index + 1) = rest := by
  have here : (nibblesOf selectors)[index]? = some n := by
    have first : ((nibblesOf selectors).drop index)[0]? = (nibblesOf selectors)[index]? := by
      rw [List.getElem?_drop, Nat.add_zero]
    rw [← first, left]
    rfl
  have inside := (List.getElem?_eq_some_iff.mp here).1
  rw [length_nibblesOf] at inside
  rw [getElem?_nibblesOf] at here
  have looked : peek selectors index = .ok n := by
    unfold peek
    cases byte : selectors[index / 2]? with
    | none =>
        rw [byte] at here
        cases here
    | some byte_ =>
        rw [byte] at here
        exact congrArg Except.ok (Option.some.inj here)
  refine ⟨looked, ?_, ?_⟩
  · unfold next
    rw [looked, ok_bind, plus_of_lt (by omega)]
    rfl
  · rw [← List.drop_drop, left]
    rfl

/-- The turns of a count, by induction on the selectors of 15 in it. -/
theorem run_more {selectors : Bytes} {last : Nat} {rest : List Nat}
    (small : selectors.length < 2 ^ 32) (other : last ≠ repeatSelector) (fits : last < 16)
    (fifteens turns : Nat) {index total : Nat}
    (left : (nibblesOf selectors).drop index
      = List.replicate fifteens repeatSelector ++ last :: rest)
    (enough : fifteens < turns) (bounded : total + fifteens * 15 + last < 2 ^ 64)
    : Loop.run (more selectors) turns (index, total)
        = some (.ok (total + fifteens * 15 + last, index + fifteens + 1))
      ∧ (nibblesOf selectors).drop (index + fifteens + 1) = rest := by
  induction fifteens generalizing index total turns with
  | zero =>
      obtain ⟨-, here, behind⟩ := next_of_drop small left
      cases turns with
      | zero => omega
      | succ turns =>
          have stops : more selectors (index, total) = .stop (.ok (total + last, index + 1)) := by
            unfold more
            dsimp only
            rw [here, ok_bind]
            dsimp only
            rw [plus_of_lt (by omega), ok_bind, if_neg other]
            rfl
          rw [Loop.run, stops, Nat.zero_mul, Nat.add_zero, Nat.add_zero]
          exact ⟨rfl, behind⟩
  | succ fifteens ih =>
      rw [List.replicate_succ, List.cons_append] at left
      obtain ⟨-, here, behind⟩ := next_of_drop small left
      cases turns with
      | zero => omega
      | succ turns =>
          have goes : more selectors (index, total) = .go (index + 1, total + 15) := by
            unfold more
            dsimp only
            rw [here, ok_bind]
            dsimp only
            rw [plus_of_lt (by unfold repeatSelector; omega), ok_bind, if_pos rfl]
            rfl
          obtain ⟨later, behind⟩ := @ih turns (index + 1) (total + 15) behind (by omega) (by omega)
          have same : index + 1 + fifteens + 1 = index + (fifteens + 1) + 1 := by omega
          rw [same] at behind
          rw [Loop.run, goes]
          dsimp only
          rw [later, same, show total + 15 + fifteens * 15 = total + (fifteens + 1) * 15 by omega]
          exact ⟨rfl, behind⟩

/-- A selector that is not 15 is no count. -/
theorem count_of_other {selectors : Bytes} {index n : Nat} {rest : List Nat}
    (small : selectors.length < 2 ^ 32) (left : (nibblesOf selectors).drop index = n :: rest)
    (other : n ≠ repeatSelector) : count selectors index = .ok (1, index) := by
  obtain ⟨here, -, -⟩ := next_of_drop small left
  unfold count
  rw [here, ok_bind, if_pos other]
  rfl

/-- A count that stands in the selectors is read. -/
theorem count_of_drop {selectors : Bytes} {index extra : Nat} {rest : List Nat}
    (small : selectors.length < 2 ^ 32)
    (left : (nibblesOf selectors).drop index = repeatSelector :: (countNibbles extra ++ rest))
    : count selectors index
        = .ok (repeatBase + extra, index + 1 + (countNibbles extra).length)
      ∧ (nibblesOf selectors).drop (index + 1 + (countNibbles extra).length) = rest := by
  have fifteen : repeatSelector = 15 := rfl
  have four : repeatBase = 4 := rfl
  obtain ⟨here, step, behind⟩ := next_of_drop small left
  have long := congrArg List.length left
  have length : (countNibbles extra).length = extra / 15 + 1 := by
    rw [countNibbles, List.length_append, List.length_replicate]
    rfl
  rw [List.length_drop, length_nibblesOf, List.length_cons, List.length_append, length] at long
  rw [countNibbles, List.append_assoc, List.singleton_append] at behind
  have ended := Nat.mod_lt extra (show 0 < 15 by decide)
  have split := Nat.div_add_mod' extra 15
  obtain ⟨ran, after⟩ := @run_more selectors (extra % repeatSelector) rest small
    (by rw [fifteen]; omega) (by rw [fifteen]; omega) (extra / repeatSelector)
    (2 * selectors.length + 1) (index + 1) repeatBase behind (by rw [fifteen]; omega)
    (by rw [fifteen, four]; omega)
  have same : index + 1 + extra / repeatSelector + 1 = index + 1 + (countNibbles extra).length := by
    rw [length, fifteen]
    omega
  rw [same] at after
  refine ⟨?_, after⟩
  unfold count
  rw [here, ok_bind, if_neg (by simp), plus_of_lt (by omega), ok_bind, ran, same, fifteen,
    show repeatBase + extra / 15 * 15 + extra % 15 = repeatBase + extra by omega]
  rfl

/-! The runs. -/

/-- A run that fits in what is left is of a step at least, and its selector is none that counts. -/
theorem Run.steps_pos {entries : List (Nat × Nat)} {left : Nat} {run : Run}
    (fits : run.Fits entries left) (some_ : 0 < left) : 0 < run.steps.length := by
  have many := fits.2
  cases counted : run.counted with
  | none =>
      rw [counted] at many
      omega
  | some total =>
      rw [counted] at many
      have four : repeatBase = 4 := rfl
      omega

theorem Run.selector_lt {entries : List (Nat × Nat)} {left : Nat} {run : Run}
    (fits : run.Fits entries left) (some_ : 0 < left) : run.selector < repeatSelector := by
  obtain ⟨one, member⟩ := List.exists_mem_of_length_pos (Run.steps_pos fits some_)
  have fifteen : repeatSelector = 15 := rfl
  have three : firstTableSelector = 3 := rfl
  rcases fits.1 one member with ⟨own, -⟩ | ⟨-, below, -⟩ <;> omega

/-- A turn where a run stands carries out its steps. -/
theorem turn_eq {entries : List (Nat × Nat)} {selectors : Bytes} {stop index : Nat} {run : Run}
    {progress : Progress} {masks literals distances room : Bytes} {rest : List Nat}
    (small : selectors.length < 2 ^ 32) (fit : EntriesFit entries) (some_ : 0 < progress.left)
    (fits : run.Fits entries progress.left) (follow : Follow run.steps progress)
    (left : (nibblesOf selectors).drop index = run.nibbles ++ rest)
    (other : stepLen < progress.left → run.counted = none →
      ∃ n behind, rest = n :: behind ∧ n ≠ repeatSelector)
    (sized : room.length = progress.left) (ends : progress.out.length + progress.left = stop)
    (roomy : stop < 2 ^ 63)
    : turn entries selectors stop (.of (run.masks ++ masks)
        (run.steps.flatMap Step.literals ++ literals) (run.steps.flatMap Step.distance ++ distances)
        index progress room)
        = .go (.of masks literals distances (index + run.nibbles.length)
          (expandSteps run.steps progress)
          (room.drop (progress.left - (expandSteps run.steps progress).left)))
      ∧ (nibblesOf selectors).drop (index + run.nibbles.length) = rest := by
  have behind : (nibblesOf selectors).drop (index + run.nibbles.length) = rest := by
    rw [← List.drop_drop, left, List.drop_left]
  refine ⟨?_, behind⟩
  have many := fits.2
  have eight : stepLen = 8 := rfl
  have four : repeatBase = 4 := rfl
  -- Whatever is read of the selectors, the steps are as many as it says.
  have carried : ∀ repeats after, run.steps.length = min repeats ((progress.left + 7) / 8) →
      (progress.left ≤ stepLen → repeats = 1 ∧ after = index + 1) →
      (¬ progress.left ≤ stepLen → count selectors (index + 1) = .ok (repeats, after)) →
      turn entries selectors stop (.of (run.masks ++ masks)
        (run.steps.flatMap Step.literals ++ literals) (run.steps.flatMap Step.distance ++ distances)
        index progress room)
        = .go (.of masks literals distances after (expandSteps run.steps progress)
          (room.drop (progress.left - (expandSteps run.steps progress).left))) := by
    intro repeats after length once counted
    have opened : (nibblesOf selectors).drop index = run.selector :: ((run.nibbles ++ rest).tail) :=
      left
    obtain ⟨-, here, -⟩ := next_of_drop small opened
    have done := @steps_eq entries stop run.selector after run.steps repeats progress masks literals
      distances room fit fits.1 follow length sized ends roomy
    unfold turn
    rw [State.of_at, if_neg (by omega)]
    change Loop.orStop (next selectors index >>= _) = _
    rw [here, ok_bind]
    dsimp only
    rw [minus_of_le (by omega), ok_bind, show stop - progress.out.length = progress.left by omega]
    by_cases short : progress.left ≤ stepLen
    · obtain ⟨rfl, rfl⟩ := once short
      rw [if_pos short]
      change Loop.orStop (steps entries stop run.selector 1
        (.of (masksOf run.selector run.steps ++ masks)
          (run.steps.flatMap Step.literals ++ literals)
          (run.steps.flatMap Step.distance ++ distances) (index + 1) progress room) >>= _) = _
      rw [done]
      rfl
    · rw [if_neg short, counted short]
      change Loop.orStop (steps entries stop run.selector repeats
        (.of (masksOf run.selector run.steps ++ masks)
          (run.steps.flatMap Step.literals ++ literals)
          (run.steps.flatMap Step.distance ++ distances) after progress room) >>= _) = _
      rw [done]
      rfl
  cases counted : run.counted with
  | none =>
      rw [counted] at many
      have one : run.nibbles.length = 1 := by
        rw [Run.nibbles, counted]
        rfl
      rw [one] at behind ⊢
      refine carried 1 (index + 1) (by omega) (fun _ => ⟨rfl, rfl⟩) fun long => ?_
      obtain ⟨n, later, rfl, differs⟩ := other (by omega) counted
      exact count_of_other small behind differs
  | some total =>
      rw [counted] at many
      have parts : run.nibbles = run.selector :: repeatSelector :: countNibbles (total - repeatBase) := by
        rw [Run.nibbles, counted]
      rw [parts, List.cons_append] at left
      obtain ⟨-, -, later⟩ := next_of_drop small left
      obtain ⟨read, -⟩ := count_of_drop small later
      refine carried total _ many.2.2 (fun short => by omega) fun _ => ?_
      rw [read, parts, Nat.add_sub_of_le many.2.1, List.length_cons, List.length_cons]
      congr 2
      omega

/-- Steps in a row that fit leave less by as many as are produced, and some of them produce. -/
theorem left_expandSteps_lt {list : List Step} {progress : Progress} (some_ : 0 < list.length)
    (follow : Follow list progress) : (expandSteps list progress).left < progress.left := by
  cases list with
  | nil => exact absurd some_ (Nat.lt_irrefl 0)
  | cons one rest =>
      have pos := follow.1.1
      have less := left_expandSteps_le rest (one.expand progress)
      change (expandSteps rest (one.expand progress)).left < progress.left
      have left : (one.expand progress).left = progress.left - min progress.left 8 := rfl
      omega

/-- A lone step leaves what is past its eight bytes. -/
theorem left_expandSteps_one {list : List Step} (progress : Progress) (one : list.length = 1)
    : (expandSteps list progress).left = progress.left - min progress.left 8 := by
  obtain ⟨step, rfl⟩ := List.length_eq_one_iff.mp one
  rfl

/-- The turns over the runs of a block, by induction on them. -/
theorem run_of_runs {entries : List (Nat × Nat)} {selectors : Bytes} {stop : Nat}
    {runs : List Run} (turns index : Nat) {progress : Progress} {masks room : Bytes}
    {rest : List Nat} (small : selectors.length < 2 ^ 32) (fit : EntriesFit entries)
    (lays : Lays entries runs progress)
    (left : (nibblesOf selectors).drop index = runs.flatMap Run.nibbles ++ rest)
    (sized : room.length = progress.left) (ends : progress.out.length + progress.left = stop)
    (roomy : stop < 2 ^ 63) (enough : progress.left < turns)
    : ∃ after, Loop.run (turn entries selectors stop) turns
        (.of (runs.flatMap Run.masks ++ masks)
          (runs.flatMap fun run => run.steps.flatMap Step.literals)
          (runs.flatMap fun run => run.steps.flatMap Step.distance) index progress room)
      = some (.ok (.of masks [] [] after (expandRuns runs progress) [])) := by
  induction runs generalizing progress index turns room with
  | nil =>
      have done : progress.left = 0 := lays
      obtain rfl := List.eq_nil_of_length_eq_zero (sized.trans done)
      cases turns with
      | zero => omega
      | succ turns =>
          refine ⟨index, ?_⟩
          have stops : turn entries selectors stop (.of masks [] [] index progress [])
              = .stop (.ok (.of masks [] [] index progress [])) := by
            unfold turn
            rw [State.of_at, if_pos (by omega)]
            rfl
          rw [Loop.run]
          simp only [List.flatMap_nil, List.nil_append]
          rw [stops]
          rfl
  | cons run runs ih =>
      obtain ⟨fits, follow, later⟩ := lays
      have some_ : 0 < progress.left := by
        cases steps : run.steps with
        | nil =>
            have many := fits.2
            cases counted : run.counted with
            | none =>
                rw [counted, steps] at many
                cases many
            | some total =>
                rw [counted] at many
                exact Nat.zero_lt_of_lt many.1
        | cons one rest =>
            rw [steps] at follow
            exact follow.1.1
      have other : stepLen < progress.left → run.counted = none →
          ∃ n behind, runs.flatMap Run.nibbles ++ rest = n :: behind ∧ n ≠ repeatSelector := by
        intro long alone
        have one := fits.2
        rw [alone] at one
        have remains := left_expandSteps_one progress one
        cases runs with
        | nil =>
            have none_ : (expandSteps run.steps progress).left = 0 := later
            have eight : stepLen = 8 := rfl
            omega
        | cons next runs =>
            have eight : stepLen = 8 := rfl
            have below := Run.selector_lt later.1 (by omega)
            exact ⟨next.selector, _, rfl, Nat.ne_of_lt below⟩
      rw [List.flatMap_cons, List.append_assoc] at left
      have less := left_expandSteps_lt (Run.steps_pos fits some_) follow
      obtain ⟨went, behind⟩ := @turn_eq entries selectors stop index run progress
        (runs.flatMap Run.masks ++ masks)
        (runs.flatMap fun run => run.steps.flatMap Step.literals)
        (runs.flatMap fun run => run.steps.flatMap Step.distance) room _ small fit some_ fits
        follow left other sized ends roomy
      cases turns with
      | zero => omega
      | succ turns =>
          obtain ⟨after, ran⟩ := @ih turns _ (expandSteps run.steps progress)
            (room.drop (progress.left - (expandSteps run.steps progress).left)) later behind
            (by rw [List.length_drop]; omega) (by rw [ends_expandSteps follow]; exact ends)
            (by omega)
          refine ⟨after, ?_⟩
          rw [Loop.run, List.flatMap_cons, List.flatMap_cons, List.flatMap_cons, List.append_assoc,
            went]
          exact ran

/-! A block's bytes. -/

theorem length_toLeBytes (count n : Nat) : (toLeBytes count n).length = count := by
  induction count generalizing n with
  | zero => rfl
  | succ count ih => rw [toLeBytes, List.length_cons, ih]

/-- A number is what its bytes spell, by induction on how many there are. -/
theorem fromLeBytes_toLeBytes {count n : Nat} (fits : n < 256 ^ count)
    : fromLeBytes (toLeBytes count n) = n := by
  induction count generalizing n with
  | zero =>
      rw [Nat.pow_zero] at fits
      simp [toLeBytes, fromLeBytes]
      omega
  | succ count ih =>
      rw [Nat.pow_succ] at fits
      rw [toLeBytes, fromLeBytes, ih (by omega), UInt8.toNat_ofNat']
      omega

/-- What stands in a slice is its range. -/
theorem getRange_of_drop {bytes piece rest : Bytes} {first : Nat}
    (left : bytes.drop first = piece ++ rest) (inside : first ≤ bytes.length)
    : getRange bytes first (first + piece.length) = some piece := by
  have same := congrArg List.length left
  rw [List.length_drop, List.length_append] at same
  unfold getRange
  rw [if_pos (by omega), Nat.add_sub_cancel_left, slice, left, List.take_left]

theorem range_of_drop {bytes piece rest : Bytes} {first : Nat}
    (left : bytes.drop first = piece ++ rest) (inside : first ≤ bytes.length)
    : range bytes first (first + piece.length) = .ok piece := by
  have same := congrArg List.length left
  rw [List.length_drop, List.length_append] at same
  rw [range_of_le (by omega) (by omega), Nat.add_sub_cancel_left, slice, left, List.take_left]

/-- A word of three bytes that stands in a slice is read. -/
theorem getU24_of_drop {bytes rest : Bytes} {off value : Nat} (fits : value < 2 ^ 24)
    (left : bytes.drop off = toLeBytes 3 value ++ rest) : getU24 bytes off = .ok value := by
  have at_ : ∀ i < 3, byteAt bytes (off + i) = byteAt (toLeBytes 3 value) i := by
    intro i inside
    unfold byteAt
    rw [← List.getElem?_drop, left,
      List.getElem?_append_left (by rwa [length_toLeBytes])]
  have zero : byteAt bytes off = .ok (UInt8.ofNat value) := at_ 0 (by decide)
  have one : byteAt bytes (off + 1) = .ok (UInt8.ofNat (value / 256)) := at_ 1 (by decide)
  have two : byteAt bytes (off + 2) = .ok (UInt8.ofNat (value / 256 / 256)) := at_ 2 (by decide)
  unfold getU24
  rw [zero, ok_bind, one, ok_bind, two, ok_bind, UInt8.toNat_ofNat', UInt8.toNat_ofNat',
    UInt8.toNat_ofNat', show value % 2 ^ 8 + value / 256 % 2 ^ 8 * 2 ^ 8
      + value / 256 / 256 % 2 ^ 8 * 2 ^ 16 = value by omega]
  rfl

/-- An entry's field of a packed table is the entry, by induction on the entries before it. -/
theorem packed_field {entries : List (Nat × Nat)} {i : Nat} {one : Nat × Nat}
    (fit : EntriesFit entries) (here : entries[i]? = some one)
    : packed entries / 2 ^ (10 * i) % 1024 = one.1 + one.2 * 256 := by
  induction entries generalizing i with
  | nil => cases here
  | cons first rest ih =>
      have small := fit first List.mem_cons_self
      rw [packed]
      cases i with
      | zero =>
          obtain rfl := Option.some.inj here
          rw [Nat.mul_zero, Nat.pow_zero, Nat.div_one]
          omega
      | succ i =>
          have later := ih (fun other member => fit other (List.mem_cons_of_mem _ member)) here
          rw [show 10 * (i + 1) = 10 + 10 * i by omega, Nat.pow_add, ← Nat.div_div_eq_div_mul,
            show (first.1 + first.2 * 256 + 1024 * packed rest) / 2 ^ 10 = packed rest by omega,
            later]

theorem packed_lt {entries : List (Nat × Nat)} (fit : EntriesFit entries)
    : packed entries < 1024 ^ entries.length := by
  induction entries with
  | nil => exact Nat.one_pos
  | cons first rest ih =>
      have small := fit first List.mem_cons_self
      have later := ih fun other member => fit other (List.mem_cons_of_mem _ member)
      rw [packed, List.length_cons, Nat.pow_succ]
      omega

theorem entry_of_packed {entries : List (Nat × Nat)} {i : Nat} {one : Nat × Nat}
    (fit : EntriesFit entries) (here : entries[i]? = some one)
    : entry (packed entries) i = .ok one := by
  have small := fit one (List.mem_of_getElem? here)
  unfold entry
  rw [packed_field fit here]
  dsimp only
  rw [show (one.1 + one.2 * 256) / 256 = one.2 by omega, if_neg (by omega),
    show (one.1 + one.2 * 256) % 256 = one.1 by omega]

/-- A table that was packed is read back. -/
theorem table_eq {block : Packed} (entries : block.entries.length = tableEntries)
    (fit : EntriesFit block.entries) : table block.table = .ok block.entries := by
  have fits : packed block.entries < 256 ^ 15 := by
    have below := packed_lt fit
    rw [entries] at below
    exact below
  have first : range block.table 0 15 = .ok (toLeBytes 15 (packed block.entries)) := by
    have held := @range_of_drop block.table (toLeBytes 15 (packed block.entries)) block.tail 0 rfl
      (Nat.zero_le _)
    rwa [length_toLeBytes, Nat.zero_add] at held
  unfold table
  have each : ∀ i ∈ List.range tableEntries, entry (packed block.entries) i
      = .ok (block.entries[i]?.getD (0, 0)) := by
    intro i member
    have inside := List.mem_range.mp member
    have here : block.entries[i]? = some block.entries[i] := List.getElem?_eq_getElem (by omega)
    rw [here]
    exact entry_of_packed fit here
  rw [first, ok_bind, fromLeBytes_toLeBytes fits, mapM_eq_ok each]
  congr 1
  refine List.ext_getElem (by rw [List.length_map, List.length_range, entries]) fun i _ inside => ?_
  rw [List.getElem_map, List.getElem_range, List.getElem?_eq_getElem inside, Option.getD_some]

/-- The areas of a block behind its header, each where the header says. -/
theorem Packed.drops (block : Packed)
    : block.bytes.drop compressedHeader = block.literals
        ++ (block.distances ++ (block.masks ++ (block.selectors ++ block.table)))
      ∧ block.bytes.drop block.literalsEnd
        = block.distances ++ (block.masks ++ (block.selectors ++ block.table))
      ∧ block.bytes.drop block.distancesEnd = block.masks ++ (block.selectors ++ block.table)
      ∧ block.bytes.drop block.selectorsAt = block.selectors ++ block.table := by
  have literals : block.bytes.drop compressedHeader = block.areas := by
    have header : (toLeBytes 3 block.length ++ toLeBytes 3 block.decoded
        ++ toLeBytes 3 block.literalsEnd ++ toLeBytes 3 block.distancesEnd
        ++ toLeBytes 3 block.selectorsAt).length = compressedHeader := by
      simp only [List.length_append, length_toLeBytes]
      rfl
    rw [bytes, ← header, List.drop_left]
  have distances : block.bytes.drop block.literalsEnd
      = block.distances ++ (block.masks ++ (block.selectors ++ block.table)) := by
    rw [literalsEnd, ← List.drop_drop, literals, areas, List.drop_left]
  have masks : block.bytes.drop block.distancesEnd
      = block.masks ++ (block.selectors ++ block.table) := by
    rw [distancesEnd, ← List.drop_drop, distances, List.drop_left]
  refine ⟨literals, distances, masks, ?_⟩
  rw [selectorsAt, ← List.drop_drop, masks, List.drop_left]

theorem Packed.length_bytes (block : Packed) : block.bytes.length = block.length := by
  simp only [bytes, List.length_append, length_toLeBytes]
  rfl

theorem Packed.length_table {block : Packed} (tail : block.tail.length = 2)
    : block.table.length = tableLen := by
  rw [table, List.length_append, length_toLeBytes, tail]
  rfl

/-- Runs that fit produce the whole block, by induction on them. -/
theorem length_expandRuns {entries : List (Nat × Nat)} {runs : List Run} {progress : Progress}
    (lays : Lays entries runs progress)
    : (expandRuns runs progress).out.length = progress.out.length + progress.left := by
  induction runs generalizing progress with
  | nil =>
      have done : progress.left = 0 := lays
      change progress.out.length = _
      omega
  | cons run runs ih => exact (ih lays.2.2).trans (ends_expandSteps lays.2.1)

theorem Packed.length_expand {block : Packed} {out : Bytes} (fits : block.Fits out)
    : (block.expand out).length = out.length + block.decoded := length_expandRuns fits.lays

/-- A compressed block that fits is undone to what it expands to. -/
theorem compressed_eq {block : Packed} {produced room : Bytes} (fits : block.Fits produced)
    (sized : room.length = block.decoded) (roomy : (produced ++ room).length < 2 ^ 63)
    : compressed block.bytes (produced ++ room) produced.length = .ok (block.expand produced) := by
  have whole : (produced ++ room).length = produced.length + room.length := List.length_append
  have fit : EntriesFit block.entries := fits.entries_fit
  obtain ⟨literals, distances, masks, selectors⟩ := block.drops
  have long := block.length_bytes
  have tabled := Packed.length_table fits.tail_length
  have parts : block.length = block.selectorsAt + block.selectors.length + tableLen := by
    rw [Packed.length, Packed.areas, Packed.selectorsAt, Packed.distancesEnd, Packed.literalsEnd]
    simp only [List.length_append, tabled]
    omega
  have order : compressedHeader ≤ block.literalsEnd ∧ block.literalsEnd ≤ block.distancesEnd
      ∧ block.distancesEnd ≤ block.selectorsAt := by
    rw [Packed.selectorsAt, Packed.distancesEnd, Packed.literalsEnd]
    omega
  have shorter := fits.shorter
  have most := fits.most
  have some_ := fits.selectors_pos
  have few := fits.selectors_le
  have sizes : maxDecoded = 32768 ∧ blockHeader = 6 ∧ compressedHeader = 15 ∧ tableLen = 17
    ∧ maxSelectorBytes = 2048 := ⟨rfl, rfl, rfl, rfl, rfl⟩
  have literalsEnd : getU24 block.bytes 6 = .ok block.literalsEnd := by
    have here : block.bytes.drop 6 = toLeBytes 3 block.literalsEnd
        ++ (toLeBytes 3 block.distancesEnd ++ (toLeBytes 3 block.selectorsAt ++ block.areas)) := rfl
    exact getU24_of_drop (by omega) here
  have distancesEnd : getU24 block.bytes 9 = .ok block.distancesEnd := by
    have here : block.bytes.drop 9 = toLeBytes 3 block.distancesEnd
        ++ (toLeBytes 3 block.selectorsAt ++ block.areas) := rfl
    exact getU24_of_drop (by omega) here
  have selectorsAt : getU24 block.bytes 12 = .ok block.selectorsAt := by
    have here : block.bytes.drop 12 = toLeBytes 3 block.selectorsAt ++ block.areas := rfl
    exact getU24_of_drop (by omega) here
  have literals_ : getRange block.bytes compressedHeader block.literalsEnd = some block.literals :=
    getRange_of_drop literals (by omega)
  have distances_ : getRange block.bytes block.literalsEnd block.distancesEnd
      = some block.distances := getRange_of_drop distances (by omega)
  have masks_ : range block.bytes block.distancesEnd (block.length - tableLen)
      = .ok (block.masks ++ block.selectors) := by
    have held := range_of_drop (masks.trans (List.append_assoc _ _ _).symm) (by omega)
    rwa [List.length_append, ← Nat.add_assoc, show block.distancesEnd + block.masks.length
      + block.selectors.length = block.length - tableLen by
        rw [Packed.selectorsAt] at parts
        omega] at held
  have selectors_ : range block.bytes block.selectorsAt block.length
      = .ok (block.selectors ++ block.table) := by
    have held := range_of_drop (selectors.trans (List.append_nil _).symm) (by omega)
    rwa [List.length_append, ← Nat.add_assoc, tabled, ← parts] at held
  have table_ : range block.bytes (block.length - tableLen) block.length = .ok block.table := by
    have here : block.bytes.drop (block.length - tableLen) = block.table ++ [] := by
      rw [show block.length - tableLen = block.selectorsAt + block.selectors.length by omega,
        ← List.drop_drop, selectors, List.drop_left, List.append_nil]
    have held := range_of_drop here (by omega)
    rwa [tabled, show block.length - tableLen + tableLen = block.length by omega] at held
  obtain ⟨spare, masksSplit⟩ := fits.masks_held
  obtain ⟨unread, selectorsSplit⟩ := fits.selectors_held
  obtain ⟨after, ran⟩ := @run_of_runs block.entries (block.selectors ++ block.table)
    (produced ++ room).length block.runs ((produced ++ room).length + 1) 0
    ⟨block.decoded, produced, stepLen⟩ spare room unread
    (by rw [List.length_append, tabled]; omega) fit fits.lays selectorsSplit.symm sized
    (by rw [whole, sized]) roomy (show block.decoded < _ by omega)
  rw [masksSplit] at ran
  unfold compressed
  rw [if_neg (by omega), literalsEnd, ok_bind, distancesEnd, ok_bind, selectorsAt, ok_bind,
    literals_]
  change (okOr (getRange block.bytes block.literalsEnd block.distancesEnd) _ >>= _) = _
  rw [distances_]
  change (minus block.bytes.length tableLen >>= _) = _
  rw [long, minus_of_le (by omega), ok_bind, if_neg (by omega), if_neg (by omega), masks_, ok_bind,
    selectors_, ok_bind, table_, ok_bind, table_eq fits.entries_length fit, ok_bind]
  change ((Loop.run (turn block.entries (block.selectors ++ block.table) (produced ++ room).length)
    ((produced ++ room).length + 1) (.of (block.masks ++ block.selectors) block.literals
      block.distances 0 ⟨block.decoded, produced, stepLen⟩ room)).getD _ >>= _) = _
  rw [show block.literals = block.runs.flatMap (fun run => run.steps.flatMap Step.literals) from rfl,
    show block.distances = block.runs.flatMap (fun run => run.steps.flatMap Step.distance) from rfl,
    ran]
  change Except.ok ((expandRuns block.runs _).out ++ []) = _
  rw [List.append_nil]
  rfl

end Ferrosys.Compress.Lzbitmap
