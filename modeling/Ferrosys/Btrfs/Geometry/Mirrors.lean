import Ferrosys.Btrfs.Geometry.Sizing
import Ferrosys.Library.Select
import Ferrosys.Library.Spans

/-! Where the pending chunks go: their logical runs follow one another, the copies on the device
follow one another, and each is a whole number of stripes from the front of the device.
-/

namespace Ferrosys.Btrfs

open Checked Machine Spans

/-- The run of logical space a chunk covers. -/
def PlannedChunk.run (chunk : PlannedChunk) : Span := ⟨chunk.logical, chunk.length⟩

/-- The run of the device each copy of a chunk takes. -/
def PlannedChunk.stripes (chunk : PlannedChunk) : List Span :=
  chunk.copies.map fun copy => ⟨copy, chunk.length⟩

/-- Bytes of a kind that chunks cover. -/
def coveredBytes (chunks : List PlannedChunk) (kind : FlagWord) : Nat :=
  ((chunks.filter (·.flags.contains kind)).map (·.length)).sum

/-- The chunk a pending one becomes at these cursors. -/
def Pending.placed (entry : Pending) (logical physical : Nat) : PlannedChunk where
  logical
  length := entry.length
  flags := entry.kind ||| entry.profile.flag
  copies := (List.range entry.profile.copies).map fun n => physical + n * entry.length

@[simp] theorem Pending.placed_length (entry : Pending) (logical physical : Nat)
    : (entry.placed logical physical).length = entry.length := rfl

/-- The chunks kept of the pending ones, placed from these cursors on. -/
def placed : (pending : List Pending) → (logical physical : Nat) → List PlannedChunk
  | [], _, _ => []
  | entry :: rest, logical, physical =>
      (if entry.keep then [entry.placed logical physical] else [])
        ++ placed rest (logical + entry.length) (physical + entry.span)

variable {build : Build} {pending : List Pending} {logical physical : Nat}

@[simp] theorem spanBytes_cons (entry : Pending) (rest : List Pending)
    : spanBytes (entry :: rest) = entry.span + spanBytes rest := by
  simp [spanBytes]

/-- One chunk that fits the device is placed without overflow. -/
theorem placeEntry_eq {entry : Pending} (fits : physical + entry.span < 2 ^ 64)
    : placeEntry build entry logical physical
      = .ok (if entry.keep then [entry.placed logical physical] else []) := by
  have starts : (List.range entry.profile.copies).mapM
      (fun n => do add build physical (← mul build n entry.length))
      = (.ok (entry.placed logical physical).copies : Planned _) := by
    refine mapM_eq_ok fun n member => ?_
    have below : n * entry.length ≤ entry.span := by
      rw [Pending.span, Nat.mul_comm entry.length]
      exact Nat.mul_le_mul_right _ (List.mem_range.mp member).le
    rw [mul_of_lt (by omega), ok_bind, add_of_lt (by omega)]
  unfold placeEntry
  split
  next => rw [starts, ok_bind]; rfl
  next => rfl

/-- Chunks that fit the device are placed without overflow, by induction on them: the logical
cursor never passes the one of the device.
-/
theorem placeFrom_eq (behind : logical ≤ physical) (fits : physical + spanBytes pending < 2 ^ 64)
    : placeFrom build pending logical physical
      = .ok (placed pending logical physical, physical + spanBytes pending) := by
  induction pending generalizing logical physical with
  | nil => rfl
  | cons entry rest ih =>
      rw [spanBytes_cons] at fits
      have shorter := entry.length_le_span
      have spans : mul build entry.length entry.profile.copies
          = (.ok entry.span : Planned _) := mul_of_lt (show entry.span < _ by omega)
      simp only [placeFrom, placed, spans, ok_bind]
      rw [placeEntry_eq (by omega), ok_bind, add_of_lt (by omega), ok_bind,
        add_of_lt (by omega), ok_bind, ih (by omega) (by omega), ok_bind, spanBytes_cons,
        Nat.add_assoc]
      rfl

/-- The logical runs of placed chunks follow one another, by induction on them. -/
theorem placed_runs
    : ∃ stop, Chain logical ((placed pending logical physical).map PlannedChunk.run) stop
        ∧ stop ≤ logical + spanBytes pending := by
  induction pending generalizing logical physical with
  | nil => exact ⟨logical, le_rfl, le_rfl⟩
  | cons entry rest ih =>
      have shorter := entry.length_le_span
      obtain ⟨stop, later, within⟩ := @ih (logical + entry.length) (physical + entry.span)
      rw [spanBytes_cons]
      refine ⟨stop, ?_, by omega⟩
      unfold placed
      split
      next => exact ⟨le_rfl, later⟩
      next => exact later.widen (Nat.le_add_right _ _) le_rfl

/-- The copies of one chunk follow one another. -/
theorem Pending.placed_stripes (entry : Pending)
    : Chain physical (entry.placed logical physical).stripes (physical + entry.span) := by
  unfold Pending.placed PlannedChunk.stripes Pending.span
  cases entry.profile with
  | single => simp [Profile.copies, List.range_succ]
  | dup =>
      simp only [Profile.copies, List.range_succ, List.range_zero, List.nil_append,
        List.cons_append, List.map_cons, List.map_nil, chain_cons, chain_nil, Span.stop_mk]
      omega

/-- The copies of placed chunks follow one another on the device, by induction on the chunks. -/
theorem placed_stripes
    : Chain physical ((placed pending logical physical).flatMap PlannedChunk.stripes)
        (physical + spanBytes pending) := by
  induction pending generalizing logical physical with
  | nil => exact le_rfl
  | cons entry rest ih =>
      have later := @ih (logical + entry.length) (physical + entry.span)
      rw [Nat.add_assoc, ← spanBytes_cons] at later
      unfold placed
      split
      next =>
        rw [List.singleton_append, List.flatMap_cons]
        exact (entry.placed_stripes).append later
      next => exact later.widen (Nat.le_add_right _ _) le_rfl

/-- A placed chunk is one that was pending, at some cursors a whole number of stripes in. -/
theorem mem_placed (sound : ∀ entry ∈ pending, entry.Sound) (whole : stripeLen ∣ logical)
    (whole' : stripeLen ∣ physical) {chunk : PlannedChunk}
    (member : chunk ∈ placed pending logical physical)
    : ∃ entry ∈ pending, ∃ at_ on, stripeLen ∣ at_ ∧ stripeLen ∣ on
        ∧ chunk = entry.placed at_ on := by
  induction pending generalizing logical physical with
  | nil => cases member
  | cons entry rest ih =>
      have here := (sound entry List.mem_cons_self).whole
      rcases List.mem_append.mp member with first | later
      · split at first
        next => exact ⟨entry, List.mem_cons_self, logical, physical, whole, whole',
          List.mem_singleton.mp first⟩
        next => cases first
      · obtain ⟨other, among, rest⟩ := ih
          (fun other among => sound other (List.mem_cons_of_mem _ among))
          (Nat.dvd_add whole here) (Nat.dvd_add whole' (here.mul_right _)) later
        exact ⟨other, List.mem_cons_of_mem _ among, rest⟩

/-- A chunk holds the kinds its pending one did, whatever its profile. -/
theorem Pending.Sound.contains {entry : Pending} (sound : entry.Sound) {kind : FlagWord}
    (known : kind ∈ [BlockGroupFlags.system, BlockGroupFlags.metadata, BlockGroupFlags.data])
    : (entry.placed logical physical).flags.contains kind = entry.kind.contains kind := by
  have among := sound.kind
  simp only [List.mem_cons, List.not_mem_nil, or_false] at among known
  unfold Pending.placed
  dsimp only
  cases entry.profile <;> rcases among with same | same | same <;> rw [same]
    <;> rcases known with rfl | rfl | rfl <;> decide

/-- Placed chunks cover of a kind what the pending ones keep of it, by induction on them. -/
theorem coveredBytes_placed (sound : ∀ entry ∈ pending, entry.Sound) {kind : FlagWord}
    (known : kind ∈ [BlockGroupFlags.system, BlockGroupFlags.metadata, BlockGroupFlags.data])
    : coveredBytes (placed pending logical physical) kind = keptBytes pending kind := by
  induction pending generalizing logical physical with
  | nil => rfl
  | cons entry rest ih =>
      have later := @ih (logical + entry.length) (physical + entry.span)
        fun other among => sound other (List.mem_cons_of_mem _ among)
      have flags := @Pending.Sound.contains logical physical entry
        (sound entry List.mem_cons_self) kind known
      unfold coveredBytes keptBytes at *
      unfold placed
      cases kept : entry.keep with
      | false => simpa [List.filter_cons, kept] using later
      | true =>
          cases holds : entry.kind.contains kind <;> rw [holds] at flags
            <;> simp [kept, holds, flags, later]

end Ferrosys.Btrfs

/-! What superblock copies take from a chunk: the planner's arithmetic finds the stripes of the
chunk that a superblock copy lies over in one of its copies, and what is left of the chunk holds
whole tree blocks.
-/

namespace Ferrosys.Btrfs

open Arith Checked Machine Spans

/-- The run of the device a superblock copy takes. -/
def mirrorSpan (at_ : Nat) : Span := ⟨at_, superInfoSize⟩

/-- The run of the device one stripe of a chunk's copy takes. -/
def stripeSpan (copy stripe : Nat) : Span := ⟨copy + stripe * mirrorWindow, mirrorWindow⟩

/-- Whether the superblock copy at `at_` lies over this stripe of a chunk's copy. -/
def liesOver (copy at_ stripe : Nat) : Bool :=
  !decide ((stripeSpan copy stripe).Apart (mirrorSpan at_))

theorem liesOver_iff {copy at_ stripe : Nat}
    : liesOver copy at_ stripe ↔ copy + stripe * mirrorWindow < at_ + superInfoSize
        ∧ at_ < copy + stripe * mirrorWindow + mirrorWindow := by
  rw [liesOver, Bool.not_eq_true', decide_eq_false_iff_not]
  simp only [Span.Apart, stripeSpan, mirrorSpan, Span.stop_mk]
  omega

namespace PlannedChunk

/-- Whether a superblock copy lies over this stripe of the chunk, in any of its copies. -/
def covered (chunk : PlannedChunk) (mirrors : List Nat) (stripe : Nat) : Bool :=
  chunk.copies.any fun copy => mirrors.any fun at_ => liesOver copy at_ stripe

/-- The stripes of a chunk. -/
def stripeCount (chunk : PlannedChunk) : Nat := chunk.length / mirrorWindow

/-- The logical address of each stripe that a superblock copy lies over. -/
def windows (chunk : PlannedChunk) (mirrors : List Nat) : List Nat :=
  ((List.range chunk.stripeCount).filter (chunk.covered mirrors)).map
    fun stripe => chunk.logical + stripe * mirrorWindow

/-- A chunk whose runs a word can address, and which is a whole number of stripes. -/
structure Fits (chunk : PlannedChunk) : Prop where
  whole : mirrorWindow ∣ chunk.length
  pos : 0 < chunk.length
  logical : chunk.logical + chunk.length < 2 ^ 64
  copies : ∀ copy ∈ chunk.copies, copy + chunk.length < 2 ^ 64

variable {chunk : PlannedChunk} {mirrors : List Nat} {build : Build}

theorem Fits.stripeCount_mul (fits : chunk.Fits)
    : chunk.stripeCount * mirrorWindow = chunk.length := Nat.div_mul_cancel fits.whole

/-- The stripes between two bounds that come out of a division are those a superblock copy lies
over.
-/
theorem range'_eq_filter_liesOver {copy at_ first last : Nat} (fits : chunk.Fits)
    (starts : first = (max at_ copy - copy) / mirrorWindow)
    (stops : last = (min (at_ + superInfoSize) (copy + chunk.length) - 1 - copy) / mirrorWindow)
    (after : copy < at_ + superInfoSize) (before : at_ < copy + chunk.length)
    : List.range' first (last + 1 - first)
      = (List.range chunk.stripeCount).filter (liesOver copy at_) := by
  have pos : 0 < mirrorWindow := by decide
  have whole := fits.stripeCount_mul
  have more := fits.pos
  have ascending : (List.range chunk.stripeCount).Pairwise (· < ·) := List.pairwise_lt_range
  refine List.Pairwise.eq_of_mem_iff (r := (· < ·)) List.pairwise_lt_range'
    (ascending.sublist List.filter_sublist) fun stripe => ?_
  have low : first ≤ stripe ↔ at_ < copy + stripe * mirrorWindow + mirrorWindow := by
    rw [starts, ← Nat.lt_succ_iff, Nat.div_lt_iff_lt_mul pos, Nat.succ_mul]
    omega
  have high : stripe ≤ last ↔ copy + stripe * mirrorWindow < at_ + superInfoSize
      ∧ stripe * mirrorWindow < chunk.length := by
    rw [stops, Nat.le_div_iff_mul_le pos]
    omega
  have inside : stripe < chunk.stripeCount ↔ stripe * mirrorWindow < chunk.length := by
    rw [← whole]
    exact (Nat.mul_lt_mul_right pos).symm
  rw [List.mem_range'_1, List.mem_filter, List.mem_range, inside, liesOver_iff]
  omega

/-- What one superblock copy takes from one copy of a chunk is found without overflow. -/
theorem windowsOver_eq {copy at_ : Nat} (fits : chunk.Fits) (among : copy ∈ chunk.copies)
    (low : at_ + superInfoSize < 2 ^ 64)
    : windowsOver build chunk copy (copy + chunk.length) at_
      = .ok (((List.range chunk.stripeCount).filter (liesOver copy at_)).map
          fun stripe => chunk.logical + stripe * mirrorWindow) := by
  have whole := fits.stripeCount_mul
  have more := fits.pos
  have inWord := fits.logical
  have end_ := fits.copies copy among
  unfold windowsOver
  rw [add_of_lt low, ok_bind]
  split
  next apart =>
    have none : (List.range chunk.stripeCount).filter (liesOver copy at_) = [] := by
      refine List.filter_eq_nil_iff.mpr fun stripe member => ?_
      have below : (stripe + 1) * mirrorWindow ≤ chunk.stripeCount * mirrorWindow :=
        Nat.mul_le_mul_right _ (List.mem_range.mp member)
      rw [Nat.succ_mul] at below
      rw [liesOver_iff]
      omega
    rw [none]
    rfl
  next meets =>
    obtain ⟨after, before⟩ := not_or.mp meets
    rw [sub_of_le (le_max_right _ _), ok_bind, sub_of_le (by omega), ok_bind,
      sub_of_le (by omega), ok_bind]
    dsimp only
    rw [range'_eq_filter_liesOver fits rfl rfl (not_le.mp after) (not_le.mp before)]
    refine mapM_eq_ok fun stripe member => ?_
    have below : stripe * mirrorWindow ≤ chunk.stripeCount * mirrorWindow :=
      Nat.mul_le_mul_right _ (List.mem_range.mp (List.mem_of_mem_filter member)).le
    rw [mul_of_lt (by omega), ok_bind, add_of_lt (by omega)]

/-- The windows of a chunk are those each superblock copy takes from each copy of it. -/
theorem mem_windows {address : Nat}
    : address ∈ chunk.windows mirrors ↔ ∃ copy ∈ chunk.copies, ∃ at_ ∈ mirrors,
        address ∈ ((List.range chunk.stripeCount).filter (liesOver copy at_)).map
          fun stripe => chunk.logical + stripe * mirrorWindow := by
  simp only [windows, covered, List.mem_map, List.mem_filter, List.any_eq_true]
  constructor
  · rintro ⟨stripe, ⟨inside, copy, among, at_, held, over_⟩, same⟩
    exact ⟨copy, among, at_, held, stripe, ⟨inside, over_⟩, same⟩
  · rintro ⟨copy, among, at_, held, stripe, ⟨inside, over_⟩, same⟩
    exact ⟨stripe, ⟨inside, copy, among, at_, held, over_⟩, same⟩

/-- The windows of a chunk ascend. -/
theorem windows_ascend : (chunk.windows mirrors).Pairwise (· < ·) := by
  refine List.pairwise_map.mpr ((List.pairwise_lt_range.sublist List.filter_sublist).imp ?_)
  intro a b below
  exact Nat.add_lt_add_left (Nat.mul_lt_mul_of_pos_right below (by decide)) _

/-- The planner finds the windows of a chunk, in every build. -/
theorem mirrorWindows_eq (fits : chunk.Fits) (low : ∀ at_ ∈ mirrors, at_ + superInfoSize < 2 ^ 64)
    : mirrorWindows build chunk mirrors = .ok (chunk.windows mirrors) := by
  have found : chunk.copies.mapM (fun copy => do
      let copyEnd ← add build copy chunk.length
      mirrors.mapM (windowsOver build chunk copy copyEnd))
      = (.ok (chunk.copies.map fun copy => mirrors.map fun at_ =>
          ((List.range chunk.stripeCount).filter (liesOver copy at_)).map
            fun stripe => chunk.logical + stripe * mirrorWindow) : Planned _) := by
    refine mapM_eq_ok fun copy among => ?_
    rw [add_of_lt (fits.copies copy among), ok_bind]
    exact mapM_eq_ok fun at_ held => windowsOver_eq fits among (low at_ held)
  unfold mirrorWindows
  rw [found, ok_bind]
  refine congrArg Except.ok (Select.sort_destutter_eq windows_ascend fun address => ?_)
  rw [mem_windows]
  simp [List.mem_flatten]

/-- Bytes of a chunk its windows take. -/
def windowed (chunk : PlannedChunk) (mirrors : List Nat) : Nat :=
  (chunk.windows mirrors).length * mirrorWindow

theorem windowed_le (fits : chunk.Fits) : chunk.windowed mirrors ≤ chunk.length := by
  rw [windowed, windows, List.length_map, ← fits.stripeCount_mul]
  refine Nat.mul_le_mul_right _ ((List.length_filter_le _ _).trans ?_)
  rw [List.length_range]

theorem windowBytes_eq (fits : chunk.Fits)
    (low : ∀ at_ ∈ mirrors, at_ + superInfoSize < 2 ^ 64)
    : windowBytes build chunk mirrors = .ok (chunk.windowed mirrors) := by
  have inWord := fits.logical
  have within : chunk.windowed mirrors ≤ chunk.length := windowed_le fits
  unfold windowBytes
  rw [mirrorWindows_eq fits low, ok_bind]
  exact mul_of_lt (show chunk.windowed mirrors < _ by omega)

/-- The run of logical space the tree block in this place of a chunk takes. -/
def blockSpan (chunk : PlannedChunk) (nodeSize place : Nat) : Span :=
  ⟨chunk.logical + place * nodeSize, nodeSize⟩

/-- Whether the tree block in this place of a chunk keeps clear of its windows. -/
def clear (chunk : PlannedChunk) (mirrors : List Nat) (nodeSize place : Nat) : Bool :=
  (chunk.windows mirrors).all fun address =>
    decide ((chunk.blockSpan nodeSize place).Apart ⟨address, mirrorWindow⟩)

/-- How many whole tree blocks a chunk holds outside its windows. -/
def clearBlocks (chunk : PlannedChunk) (mirrors : List Nat) (nodeSize : Nat) : Nat :=
  (List.range (chunk.length / nodeSize)).countP (chunk.clear mirrors nodeSize)

/-- A tree block lies in the stripe its place divides to. -/
theorem block_within_stripe {nodeSize perStripe : Nat} (place : Nat)
    (divides : perStripe * nodeSize = mirrorWindow)
    : place / perStripe * mirrorWindow ≤ place * nodeSize
      ∧ place * nodeSize + nodeSize ≤ place / perStripe * mirrorWindow + mirrorWindow := by
  have pos : 0 < perStripe := by
    rcases Nat.eq_zero_or_pos perStripe with rfl | pos
    · rw [Nat.zero_mul] at divides
      exact absurd divides (by decide)
    · exact pos
  have low := Nat.mul_le_mul_right nodeSize (Nat.div_mul_le_self place perStripe)
  have high := Nat.mul_le_mul_right nodeSize (Nat.lt_div_mul_add (a := place) pos)
  rw [Nat.mul_assoc, divides] at low
  rw [Nat.succ_mul, Nat.add_mul, Nat.mul_assoc, divides] at high
  exact ⟨low, high⟩

/-- A tree block that divides a stripe keeps clear of a chunk's windows where its stripe is not one
of them.
-/
theorem clear_eq {nodeSize perStripe place : Nat} (pos : 0 < nodeSize)
    (divides : perStripe * nodeSize = mirrorWindow)
    (inside : place / perStripe < chunk.stripeCount)
    : chunk.clear mirrors nodeSize place = !chunk.covered mirrors (place / perStripe) := by
  obtain ⟨low, high⟩ := block_within_stripe place divides
  rw [Bool.eq_iff_iff, clear, List.all_eq_true, Bool.not_eq_true']
  constructor
  · intro apart
    refine Bool.eq_false_iff.mpr fun taken => ?_
    have among : chunk.logical + place / perStripe * mirrorWindow ∈ chunk.windows mirrors :=
      List.mem_map_of_mem (List.mem_filter.mpr ⟨List.mem_range.mpr inside, taken⟩)
    have := of_decide_eq_true (apart _ among)
    simp only [Span.Apart, blockSpan, Span.stop_mk] at this
    omega
  · intro free address among
    obtain ⟨stripe, taken, rfl⟩ := List.mem_map.mp among
    have other : stripe ≠ place / perStripe := by
      rintro rfl
      exact absurd (List.mem_filter.mp taken).2 (by simp [free])
    refine decide_eq_true ?_
    simp only [Span.Apart, blockSpan, Span.stop_mk]
    rcases Nat.lt_or_gt_of_ne other with before | after
    · have := Nat.mul_le_mul_right mirrorWindow (Nat.succ_le_of_lt before)
      rw [Nat.succ_mul] at this
      omega
    · have := Nat.mul_le_mul_right mirrorWindow (Nat.succ_le_of_lt after)
      rw [Nat.succ_mul] at this
      omega

/-- What is left of a chunk outside its windows holds whole tree blocks, where a tree block
divides a stripe.
-/
theorem clearBlocks_mul (fits : chunk.Fits) {nodeSize : Nat} (pos : 0 < nodeSize)
    (divides : nodeSize ∣ mirrorWindow)
    : chunk.clearBlocks mirrors nodeSize * nodeSize = chunk.length - chunk.windowed mirrors := by
  obtain ⟨perStripe, split⟩ := divides
  have same : perStripe * nodeSize = mirrorWindow := by rw [split, Nat.mul_comm]
  have places : chunk.length / nodeSize = chunk.stripeCount * perStripe := by
    rw [← fits.stripeCount_mul, ← same, ← Nat.mul_assoc, Nat.mul_div_cancel _ pos]
  have stripes : (List.range chunk.stripeCount).countP (fun stripe =>
      !chunk.covered mirrors stripe) + (chunk.windows mirrors).length = chunk.stripeCount := by
    rw [windows, List.length_map, ← List.countP_eq_length_filter, Nat.add_comm]
    have both := List.length_eq_countP_add_countP (chunk.covered mirrors)
      (l := List.range chunk.stripeCount)
    rw [List.length_range] at both
    simpa using both.symm
  have counted : chunk.clearBlocks mirrors nodeSize
      = (List.range chunk.stripeCount).countP (fun stripe => !chunk.covered mirrors stripe)
        * perStripe := by
    rw [clearBlocks, places, ← countP_range_mul]
    refine List.countP_congr fun place member => ?_
    rw [clear_eq pos same (Nat.div_lt_of_lt_mul
      (by rw [Nat.mul_comm]; exact List.mem_range.mp member))]
  rw [counted, Nat.mul_assoc, same, windowed, ← fits.stripeCount_mul]
  conv_rhs => rw [← stripes]
  rw [Nat.add_mul, Nat.add_sub_cancel]

end PlannedChunk

end Ferrosys.Btrfs
