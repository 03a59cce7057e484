import Ferrosys.Btrfs.Geometry.Plan
import Mathlib.Algebra.BigOperators.Ring.List
import Mathlib.Data.UInt
import Mathlib.Tactic.IntervalCases

/-! What is reserved for metadata. Every sum of the bound saturates but two: the width of the widest
record, and that width with an item's header. Where neither overflows the builds reserve the same,
and where one does a build with checks stops.
-/

namespace Ferrosys.Btrfs

open Arith Checked Machine

variable {build build' : Build} {request : PlanRequest} {nodeSize sectorSize : Nat}

/-- A size the format accepts is a power of two within its bounds. -/
theorem isBlockSize_iff {bytes : Nat} (accepted : isBlockSize bytes)
    : minBlockSize ≤ bytes ∧ bytes ≤ maxBlockSize ∧ bytes ∣ stripeLen := by
  simp only [isBlockSize, Bool.and_eq_true, beq_iff_eq, decide_eq_true_eq] at accepted
  obtain ⟨⟨power, least⟩, most⟩ := accepted
  refine ⟨least, most, ?_⟩
  have small : bytes.log2 ≤ 16 := by
    refine not_lt.mp fun large => ?_
    have grown := Nat.pow_le_pow_right (show 0 < 2 by decide) (show 17 ≤ bytes.log2 from large)
    unfold maxBlockSize at most
    omega
  rw [power]
  exact Nat.pow_dvd_pow 2 small

/-- The sizes a request resolves to are ones the format accepts. -/
theorem blockSizes_accepted (resolved : blockSizes request = .ok (sectorSize, nodeSize))
    : isBlockSize sectorSize ∧ isBlockSize nodeSize := by
  unfold blockSizes at resolved
  dsimp only at resolved
  obtain ⟨⟨⟩, sector, later⟩ := bind_eq_ok.mp resolved
  obtain ⟨⟨⟩, node, same⟩ := bind_eq_ok.mp later
  have sizes := Prod.mk.inj (Except.ok.inj same)
  rw [Machine.refuseIf, refuseIf_eq_ok] at sector node
  rw [Bool.or_eq_false_iff] at node
  rw [sizes.1] at sector
  rw [sizes.2] at node
  exact ⟨by simpa using sector, by simpa using node.1⟩

/-- Where a record's width fits a word, how many blocks records take does not depend on the build.
-/
theorem blocksFor_build {records recordBytes : Nat} (node : headerSize ≤ nodeSize)
    (fits : itemSize + recordBytes < 2 ^ 64)
    : blocksFor build records recordBytes nodeSize
      = blocksFor build' records recordBytes nodeSize := by
  unfold blocksFor
  simp only [sub_of_le node, add_of_lt fits, ok_bind]

/-- Where it does not, a build with checks stops. -/
theorem blocksFor_checked_of_le {records recordBytes : Nat} (some_ : records ≠ 0)
    (node : headerSize ≤ nodeSize) (large : 2 ^ 64 ≤ itemSize + recordBytes)
    : blocksFor .checked records recordBytes nodeSize = .error .panicked := by
  unfold blocksFor
  rw [if_neg some_, sub_of_le node, ok_bind, add, fit_checked_of_le large]
  rfl

/-- Sixty-four small records take three blocks at most. -/
theorem blocksFor_small (node : minBlockSize ≤ nodeSize)
    : ∃ blocks ≤ 3, blocksFor build 64 64 nodeSize = .ok blocks := by
  have header : headerSize ≤ nodeSize := le_trans (by decide) node
  have perLeaf : 32 ≤ max ((nodeSize - headerSize) / (itemSize + 64)) 1 := by
    refine le_max_of_le_left ((Nat.le_div_iff_mul_le (by decide)).mpr ?_)
    unfold minBlockSize at node
    unfold itemSize headerSize
    omega
  have leaves := (divCeil_le_iff (n := 2) (a := 64) (Nat.lt_of_lt_of_le (by decide) perLeaf)).mpr
    (Nat.mul_le_mul_left 2 perLeaf)
  unfold blocksFor
  rw [if_neg (by decide), sub_of_le header, ok_bind, add_of_lt (by decide), ok_bind,
    div_of_pos (by decide), ok_bind]
  dsimp only
  rw [ceilDiv_of_pos (Nat.lt_of_lt_of_le (by decide) perLeaf), ok_bind]
  generalize divCeil 64 _ = leaves_ at *
  generalize (nodeSize - headerSize) / keyPtrSize = fanOut
  refine ⟨_, ?_, rfl⟩
  have narrow : divCeil 2 (max fanOut 2) ≤ 1 :=
    (divCeil_le_iff (by omega)).mpr (by omega)
  unfold levelsAbove
  interval_cases leaves_
  · rw [Loop.total_of_stop _ (show levelTurn fanOut (0, []) = .stop [] from rfl)]
    decide
  · rw [Loop.total_of_stop _ (show levelTurn fanOut (1, []) = .stop [] from rfl)]
    decide
  · rw [Loop.total_of_go _ (show levelTurn fanOut (2, []) = .go (_, [_]) from rfl),
      Loop.total_of_stop _ (show levelTurn fanOut (divCeil 2 (max fanOut 2), _) = .stop _ from
        if_neg (by dsimp only; omega))]
    simp only [List.foldl_cons, List.foldl_nil]
    exact (Nat.min_le_left _ _).trans (by omega)

/-- The widest record of the filesystem trees fits a word with the header of its item. -/
def RecordFits (content : Content) : Prop :=
  dirItemSize + content.longestName.toNat + content.longestValue.toNat + itemSize < 2 ^ 64

instance (content : Content) : Decidable (RecordFits content) :=
  inferInstanceAs (Decidable (_ < _))

/-- Bytes of the widest record of the filesystem trees, however many they are. -/
def widestRecord (content : Content) : Nat :=
  max (max inodeItemSize (inodeRefSize + content.longestName.toNat))
    (dirItemSize + content.longestName.toNat + content.longestValue.toNat)

/-- The widest record is added up as long as it fits. -/
theorem fsRecordBytes_eq {content : Content}
    (fits : dirItemSize + content.longestName.toNat + content.longestValue.toNat < 2 ^ 64)
    : fsRecordBytes build content = .ok (widestRecord content) := by
  have name := content.longestName.toNat_lt
  unfold fsRecordBytes
  dsimp only
  rw [add_of_lt (by unfold inodeRefSize; omega), ok_bind,
    add_of_lt (by unfold dirItemSize; omega), ok_bind, add_of_lt fits, ok_bind]
  rfl

/-- It fits with its item's header exactly where the entry that carries a value does. -/
theorem widestRecord_lt {content : Content}
    : itemSize + widestRecord content < 2 ^ 64 ↔ RecordFits content := by
  have name := content.longestName.toNat_lt
  simp only [widestRecord, RecordFits, itemSize, inodeItemSize, inodeRefSize, dirItemSize,
    Nat.max_def]
  split_ifs <;> omega

theorem bind_congr_left {α β : Type} {first first' : Planned α} {rest rest' : α → Planned β}
    (same : first = first') (later : ∀ a, rest a = rest' a)
    : (first >>= rest) = (first' >>= rest') := by
  rw [same, funext later]

/-- Where the widest record fits, the builds reserve the same. -/
theorem reserveMetadata_build {compatRo : FlagWord} {mirrors : Nat}
    (node : minBlockSize ≤ nodeSize) (fits : RecordFits request.content)
    : reserveMetadata build request sectorSize nodeSize compatRo mirrors
      = reserveMetadata build' request sectorSize nodeSize compatRo mirrors := by
  have header : headerSize ≤ nodeSize := le_trans (by decide) node
  have width := widestRecord_lt.mpr fits
  have bytes (build : Build) : fsRecordBytes build request.content
      = .ok (widestRecord request.content) := fsRecordBytes_eq (by unfold RecordFits at fits; omega)
  have small (recordBytes : Nat) {records : Nat} (few : itemSize + recordBytes < 2 ^ 64)
      : blocksFor build records recordBytes nodeSize
        = blocksFor build' records recordBytes nodeSize := blocksFor_build header few
  obtain ⟨blocks, few, same⟩ := @blocksFor_small build' nodeSize node
  have trebled (build : Build) : mul build 3 blocks = (.ok (3 * blocks) : Planned Nat) :=
    mul_of_lt (by omega)
  have perLeaf (build : Build) (n : Nat) : sub build (max n 2) 1
      = (.ok (max n 2 - 1) : Planned Nat) := sub_of_le (by omega)
  have pair (build : Build) : add build itemSize extentRecordBytes
      = (.ok (itemSize + extentRecordBytes) : Planned Nat) := add_of_lt (by decide)
  unfold reserveMetadata
  dsimp only
  refine bind_congr_left (small rootItemSize (by decide)) fun rootTree => ?_
  rw [bytes, bytes, ok_bind, ok_bind]
  refine bind_congr_left (small _ width) fun tree => bind_congr_left rfl fun csumBytes => ?_
  refine bind_congr_left rfl fun csumRecords =>
    bind_congr_left (small maxCsumRecord (by decide)) fun csumTree => ?_
  rw [small 64 (by decide), same, ok_bind, ok_bind, trebled, trebled, ok_bind, ok_bind]
  refine bind_congr_left (small 32 (by decide)) fun others => ?_
  rw [sub_of_le header, sub_of_le header, ok_bind, ok_bind, pair, pair, ok_bind, ok_bind]
  refine bind_congr_left rfl fun most => ?_
  rw [perLeaf, perLeaf, ok_bind, ok_bind]
  refine bind_congr_left rfl fun leaves =>
    bind_congr_left (small extentRecordBytes (by decide)) fun extentTree => rfl

theorem satAdd_ne_zero {a b : Nat} (pos : 0 < b) : satAdd a b ≠ 0 :=
  (Nat.lt_min.mpr ⟨by omega, by decide⟩).ne'

/-- Where the widest record does not fit, a build with checks stops. -/
theorem reserveMetadata_checked_ne_ok {compatRo : FlagWord} {mirrors blocks : Nat}
    (node : minBlockSize ≤ nodeSize) (held : 0 < mirrors) (wide : ¬ RecordFits request.content)
    : reserveMetadata .checked request sectorSize nodeSize compatRo mirrors ≠ .ok blocks := by
  intro reserved
  have header : headerSize ≤ nodeSize := le_trans (by decide) node
  unfold reserveMetadata at reserved
  dsimp only at reserved
  obtain ⟨rootTree, -, later⟩ := bind_eq_ok.mp reserved
  obtain ⟨width, widest, rest⟩ := bind_eq_ok.mp later
  obtain ⟨tree, counted, -⟩ := bind_eq_ok.mp rest
  by_cases fits : dirItemSize + request.content.longestName.toNat
      + request.content.longestValue.toNat < 2 ^ 64
  · rw [fsRecordBytes_eq fits] at widest
    obtain rfl := Except.ok.inj widest
    rw [blocksFor_checked_of_le (satAdd_ne_zero (pos_of_ne_zero (satAdd_ne_zero held))) header
      (not_lt.mp fun small => wide (widestRecord_lt.mp small))] at counted
    cases counted
  · unfold fsRecordBytes at widest
    dsimp only at widest
    obtain ⟨ref, -, after⟩ := bind_eq_ok.mp widest
    have name := request.content.longestName.toNat_lt
    rw [add_of_lt (by unfold dirItemSize; omega), ok_bind, add,
      fit_checked_of_le (not_lt.mp fits)] at after
    cases after

end Ferrosys.Btrfs

/-! What a planned layout promises: its chunks keep apart in both address spaces, and what the
superblock copies leave of each kind of block group covers what was asked of it.
-/

namespace Ferrosys.Btrfs

open Checked Machine Spans

variable {build : Build} {request : PlanRequest} {layout : BtrfsLayout}

namespace BtrfsLayout

/-- The chunks that hold this kind of block group. -/
def chunksOf (layout : BtrfsLayout) (kind : FlagWord) : List PlannedChunk :=
  layout.chunks.filter (·.flags.contains kind)

/-- Bytes of a kind outside the windows of the superblock copies. -/
def clearBytes (layout : BtrfsLayout) (kind : FlagWord) : Nat :=
  ((layout.chunksOf kind).map fun chunk =>
    chunk.length - chunk.windowed layout.superblockMirrors).sum

/-- Whole tree blocks of a kind outside the windows of the superblock copies. -/
def clearBlocks (layout : BtrfsLayout) (kind : FlagWord) : Nat :=
  ((layout.chunksOf kind).map (·.clearBlocks layout.superblockMirrors layout.nodeSize)).sum

/-- The runs of the device that copies of chunks take. -/
def stripes (layout : BtrfsLayout) : List Span := layout.chunks.flatMap PlannedChunk.stripes

/-- What is promised of a layout planned for this request. -/
structure Sound (layout : BtrfsLayout) (request : PlanRequest) : Prop where
  /-- The placement loop ends, with these chunks. -/
  ends : ∃ turns, Loop.run (placeTurn .release request
      (satMul layout.reservation.metadataBlocks layout.nodeSize) layout.superblockMirrors) turns
      Lost.none = some (.ok layout.chunks)
  /-- No sum, difference or product overflows: with checks the plan is the same. -/
  exact_ : planLayout .checked request = .ok layout
  /-- The logical runs keep apart. -/
  runs : (layout.chunks.map PlannedChunk.run).Pairwise Span.Apart
  /-- The copies keep apart, behind the reserved head and within the volume. -/
  copies : Packed reservedHead request.volume layout.stripes
  /-- Each copy is a whole number of stripes, a whole number of them in. -/
  whole : ∀ stripe ∈ layout.stripes, stripeLen ∣ stripe.start ∧ stripeLen ∣ stripe.len
  /-- The windows are the ones the planner finds. -/
  windows : ∀ chunk ∈ layout.chunks, mirrorWindows .release chunk layout.superblockMirrors
      = .ok (chunk.windows layout.superblockMirrors)
  system : layout.reservation.systemBlocks ≤ layout.clearBlocks BlockGroupFlags.system
  metadata : layout.reservation.metadataBlocks ≤ layout.clearBlocks BlockGroupFlags.metadata
  data : request.content.dataBytes.toNat ≤ layout.clearBytes BlockGroupFlags.data

end BtrfsLayout

/-- The steps a plan went through. -/
theorem planLayout_eq_ok
    : planLayout build request = .ok layout ↔ ∃ incompat metadataBlocks systemBlocks chunks
        sectorSize nodeSize,
        blockSizes request = .ok (sectorSize, nodeSize)
        ∧ validatedFeatures request nodeSize = .ok incompat
        ∧ minimumVolumeBytes request.metadataProfile request.dataProfile ≤ request.volume
        ∧ reserveMetadata build request sectorSize nodeSize request.compatRoFlags
            (heldMirrors request.volume).length = .ok metadataBlocks
        ∧ placeChunks build request (satMul metadataBlocks nodeSize) = .ok chunks
        ∧ reserveSystem build chunks (heldMirrors request.volume) nodeSize = .ok systemBlocks
        ∧ layout = ⟨request.volume, sectorSize, nodeSize, incompat, request.compatRoFlags, chunks,
            heldMirrors request.volume, ⟨metadataBlocks, systemBlocks, nodeSize⟩⟩ := by
  unfold planLayout
  constructor
  · intro planned
    obtain ⟨⟨sectorSize, nodeSize⟩, sizes, planned⟩ := bind_eq_ok.mp planned
    obtain ⟨incompat, features, planned⟩ := bind_eq_ok.mp planned
    obtain ⟨⟨⟩, large, planned⟩ := bind_eq_ok.mp planned
    obtain ⟨metadataBlocks, metadata, planned⟩ := bind_eq_ok.mp planned
    obtain ⟨chunks, placed_, planned⟩ := bind_eq_ok.mp planned
    obtain ⟨systemBlocks, system, planned⟩ := bind_eq_ok.mp planned
    rw [Machine.refuseIf, refuseIf_eq_ok, decide_eq_false_iff_not, not_lt] at large
    exact ⟨incompat, metadataBlocks, systemBlocks, chunks, sectorSize, nodeSize, sizes, features,
      large, metadata, placed_, system, (Except.ok.inj planned).symm⟩
  · rintro ⟨incompat, metadataBlocks, systemBlocks, chunks, sectorSize, nodeSize, sizes, features,
      large, metadata, placed_, system, rfl⟩
    have room : Machine.refuseIf (decide (request.volume
        < minimumVolumeBytes request.metadataProfile request.dataProfile))
        (GeometryError.volumeTooSmall request.volume
          (minimumVolumeBytes request.metadataProfile request.dataProfile)) = .ok () := by
      rw [Machine.refuseIf, refuseIf_eq_ok, decide_eq_false_iff_not, not_lt]
      exact large
    rw [sizes, ok_bind]
    dsimp only
    rw [features, ok_bind, room, ok_bind, metadata, ok_bind, placed_, ok_bind, system, ok_bind]
    rfl

variable {metadataBytes : Nat} {chunks : List PlannedChunk} {lost : Lost} {pending : List Pending}
  {superblocks : List Nat} {nodeSize : Nat}

/-- The loop answers the same in every build. -/
theorem placeChunks_build (build' : Build)
    : placeChunks build request metadataBytes = placeChunks build' request metadataBytes :=
  Loop.total_congr (funext fun lost => by
    rw [placeTurn_eq (heldMirrors_low _), placeTurn_eq (heldMirrors_low _)]) _ _ _

/-- The chunks the loop answers with were counted with no less than they lose. -/
theorem counted_of_placeChunks (placed_ : placeChunks build request metadataBytes = .ok chunks)
    : ∃ lost pending, Counted request metadataBytes lost pending ∧ chunks = chunksOf pending
        ∧ (lostIn chunks (heldMirrors request.volume)).within lost := by
  obtain ⟨lost, -, stopped⟩ := Loop.leads_total
    (@placeTurn_lowers build request metadataBytes _ (heldMirrors_low request.volume)) Lost.none
  obtain ⟨pending, facts⟩ :=
    placeTurn_eq_stop (heldMirrors_low _) (stopped.trans (congrArg _ placed_))
  exact ⟨lost, pending, facts⟩

/-- What is left of chunks of a kind and what the superblock copies take of them are what the chunks
cover.
-/
theorem sum_clear_add (fits : ∀ chunk ∈ chunks, chunk.Fits)
    : (chunks.map fun chunk => chunk.length - chunk.windowed superblocks).sum
        + (chunks.map (·.windowed superblocks)).sum
      = (chunks.map (·.length)).sum := by
  rw [← List.sum_map_add]
  refine congrArg List.sum (List.map_congr_left fun chunk member => ?_)
  exact Nat.sub_add_cancel (PlannedChunk.windowed_le (fits chunk member))

/-- The tree blocks of chunks are the bytes left of them. -/
theorem sum_clearBlocks_mul (fits : ∀ chunk ∈ chunks, chunk.Fits) (pos : 0 < nodeSize)
    (divides : nodeSize ∣ mirrorWindow)
    : (chunks.map (·.clearBlocks superblocks nodeSize)).sum * nodeSize
      = (chunks.map fun chunk => chunk.length - chunk.windowed superblocks).sum := by
  rw [← List.sum_map_mul_right]
  exact congrArg List.sum (List.map_congr_left fun chunk member =>
    PlannedChunk.clearBlocks_mul (fits chunk member) pos divides)

/-- What is left of a kind covers what was asked of it. -/
theorem le_sum_clear (counted : Counted request metadataBytes lost pending) {kind : FlagWord}
    {asked given : Nat}
    (known : kind ∈ [BlockGroupFlags.system, BlockGroupFlags.metadata, BlockGroupFlags.data])
    (within : windowedBytes (chunksOf pending) superblocks kind ≤ given)
    (covers : asked + given ≤ keptBytes pending kind)
    : asked ≤ (((chunksOf pending).filter (·.flags.contains kind)).map
        fun chunk => chunk.length - chunk.windowed superblocks).sum := by
  have split := @sum_clear_add ((chunksOf pending).filter (·.flags.contains kind)) superblocks
    fun chunk member => counted.fits (List.mem_of_mem_filter member)
  have kept : coveredBytes (chunksOf pending) kind = keptBytes pending kind :=
    coveredBytes_placed counted.sound known
  unfold windowedBytes at within
  unfold coveredBytes at kept
  omega

/-- A chunk has one copy or two. -/
theorem Counted.copies_le (counted : Counted request metadataBytes lost pending)
    {chunk : PlannedChunk} (member : chunk ∈ chunksOf pending) : chunk.copies.length ≤ 2 := by
  obtain ⟨entry, -, logical, physical, -, -, rfl⟩ := counted.mem_chunksOf member
  simpa [Pending.placed] using entry.profile.copies_le

/-- Every copy of a chunk is a whole number of stripes, a whole number of them in. -/
theorem Counted.whole (counted : Counted request metadataBytes lost pending) {stripe : Span}
    (member : stripe ∈ (chunksOf pending).flatMap PlannedChunk.stripes)
    : stripeLen ∣ stripe.start ∧ stripeLen ∣ stripe.len := by
  obtain ⟨chunk, among, held⟩ := List.mem_flatMap.mp member
  obtain ⟨entry, pends, logical, physical, -, whole, rfl⟩ := counted.mem_chunksOf among
  obtain ⟨copy, listed, rfl⟩ := List.mem_map.mp held
  obtain ⟨n, -, rfl⟩ := List.mem_map.mp listed
  have length := (counted.sound entry pends).whole
  exact ⟨Nat.dvd_add whole (length.mul_left n), length⟩

/-- The records of the chunk tree are measured without overflow. -/
theorem Counted.chunkRecordBytes_eq (counted : Counted request metadataBytes lost pending)
    {chunk : PlannedChunk} (member : chunk ∈ chunksOf pending)
    : chunkRecordBytes build chunk = .ok (chunkSize + chunk.copies.length * stripeSize) := by
  have few := counted.copies_le member
  unfold chunkRecordBytes
  rw [mul_of_lt (by unfold stripeSize; omega), ok_bind,
    add_of_lt (by unfold chunkSize stripeSize; omega)]

/-- The widest record of the chunk tree is a small one. -/
theorem Counted.recordBytes_le (counted : Counted request metadataBytes lost pending)
    : max ((((chunksOf pending).map fun chunk =>
        chunkSize + chunk.copies.length * stripeSize).max?).getD chunkSize) devItemSize ≤ 112 := by
  refine max_le ?_ (by decide)
  cases widest : ((chunksOf pending).map fun chunk =>
      chunkSize + chunk.copies.length * stripeSize).max? with
  | none => decide
  | some bytes =>
      obtain ⟨chunk, member, rfl⟩ := List.mem_map.mp (List.max?_mem widest)
      have few := counted.copies_le member
      simp only [Option.getD_some, chunkSize, stripeSize]
      omega

/-- What the system chunk has room for is found without overflow. -/
theorem Counted.systemRoom_eq (counted : Counted request metadataBytes lost pending)
    (low : ∀ at_ ∈ superblocks, at_ + superInfoSize < 2 ^ 64) (pos : 0 < nodeSize)
    : systemRoom build (chunksOf pending) superblocks nodeSize
      = .ok (((chunksOf pending).find? (·.flags.contains BlockGroupFlags.system)).elim 0
          fun chunk => (chunk.length - chunk.windowed superblocks) / nodeSize) := by
  unfold systemRoom
  cases found : (chunksOf pending).find? (·.flags.contains BlockGroupFlags.system) with
  | none => rfl
  | some chunk =>
      have fits := counted.fits (List.mem_of_find?_eq_some found)
      dsimp only
      rw [PlannedChunk.windowBytes_eq fits low, ok_bind,
        sub_of_le (PlannedChunk.windowed_le fits), ok_bind, div_of_pos pos]
      rfl

/-- The system blocks a chunk map is reserved, with none of the sums overflowing. -/
theorem Counted.reserveSystem_build (counted : Counted request metadataBytes lost pending)
    (build' : Build) (low : ∀ at_ ∈ superblocks, at_ + superInfoSize < 2 ^ 64)
    (node : minBlockSize ≤ nodeSize)
    : reserveSystem build (chunksOf pending) superblocks nodeSize
      = reserveSystem build' (chunksOf pending) superblocks nodeSize := by
  have pos : 0 < nodeSize := Nat.lt_of_lt_of_le (by decide) node
  have header : headerSize ≤ nodeSize := le_trans (by decide) node
  have records (build : Build) : (chunksOf pending).mapM (chunkRecordBytes build)
      = (.ok ((chunksOf pending).map fun chunk => chunkSize + chunk.copies.length * stripeSize)
          : Planned _) :=
    mapM_eq_ok fun chunk member => counted.chunkRecordBytes_eq member
  have narrow := counted.recordBytes_le
  unfold reserveSystem
  dsimp only
  rw [records, records, ok_bind, ok_bind,
    @blocksFor_build build build' _ _ _ header (by unfold itemSize; omega)]
  simp only [counted.systemRoom_eq low pos]

/-- What is reserved for the system fits the chunks that hold it. -/
theorem Counted.le_clearBlocks_system (counted : Counted request metadataBytes lost pending)
    (low : ∀ at_ ∈ superblocks, at_ + superInfoSize < 2 ^ 64) (node : isBlockSize nodeSize)
    {blocks : Nat}
    (reserved : reserveSystem build (chunksOf pending) superblocks nodeSize = .ok blocks)
    : blocks ≤ (((chunksOf pending).filter (·.flags.contains BlockGroupFlags.system)).map
        (·.clearBlocks superblocks nodeSize)).sum := by
  obtain ⟨least, -, divides⟩ := isBlockSize_iff node
  have pos : 0 < nodeSize := Nat.lt_of_lt_of_le (by decide) least
  unfold reserveSystem at reserved
  dsimp only at reserved
  obtain ⟨records, -, reserved⟩ := bind_eq_ok.mp reserved
  obtain ⟨needed, -, reserved⟩ := bind_eq_ok.mp reserved
  obtain ⟨available, room, reserved⟩ := bind_eq_ok.mp reserved
  obtain ⟨⟨⟩, enough, same⟩ := bind_eq_ok.mp reserved
  obtain rfl := Except.ok.inj same
  rw [Machine.refuseIf, refuseIf_eq_ok, decide_eq_false_iff_not, not_lt] at enough
  refine enough.trans ?_
  rw [counted.systemRoom_eq low pos] at room
  obtain rfl := Except.ok.inj room
  cases found : (chunksOf pending).find? (·.flags.contains BlockGroupFlags.system) with
  | none => exact Nat.zero_le _
  | some chunk =>
      have member := List.mem_of_find?_eq_some found
      have holds := List.find?_some found
      dsimp only [Option.elim_some]
      rw [← PlannedChunk.clearBlocks_mul (counted.fits member) pos divides,
        Nat.mul_div_cancel _ pos]
      exact List.single_le_sum (fun _ _ => Nat.zero_le _) _
        (List.mem_map_of_mem (List.mem_filter.mpr ⟨member, holds⟩))

/-- A volume large enough for any chunks holds a superblock copy. -/
theorem heldMirrors_length_pos {volume : Nat} {metadata data : Profile}
    (large : minimumVolumeBytes metadata data ≤ volume) : 0 < (heldMirrors volume).length := by
  have least : 2 ^ 20 ≤ minimumVolumeBytes metadata data := by
    cases metadata <;> cases data <;> decide
  refine List.length_pos_of_mem (List.mem_filter.mpr
    ⟨show 64 * 2 ^ 10 ∈ mirrors from List.mem_cons_self, ?_⟩)
  refine (Option.any_eq_true _ _).mpr ⟨64 * 2 ^ 10 + superInfoSize, ?_, ?_⟩
  · exact checkedAdd_eq_some.mpr ⟨by decide, rfl⟩
  · rw [decide_eq_true_eq]
    unfold superInfoSize
    omega

/-- A plan made without overflow checks keeps its promises exactly where the widest record fits a
word: the placement is sound for every request, and the bound on the metadata is the one step that
can overflow.
-/
theorem sound_iff_recordFits (planned : planLayout .release request = .ok layout)
    : layout.Sound request ↔ RecordFits request.content := by
  obtain ⟨incompat, metadataBlocks, systemBlocks, chunks, sectorSize, nodeSize, sizes, features,
    large, metadata, placed_, system, rfl⟩ := planLayout_eq_ok.mp planned
  have low := heldMirrors_low request.volume
  obtain ⟨-, accepted⟩ := blockSizes_accepted sizes
  obtain ⟨least, -, divides⟩ := isBlockSize_iff accepted
  have pos : 0 < nodeSize := Nat.lt_of_lt_of_le (by decide) least
  constructor
  · intro sound
    refine Decidable.not_not.mp fun wide => ?_
    obtain ⟨-, blocks, -, -, sector, node, sizes', -, -, metadata', -, -, -⟩ :=
      planLayout_eq_ok.mp sound.exact_
    rw [sizes] at sizes'
    obtain ⟨rfl, rfl⟩ := Prod.mk.inj (Except.ok.inj sizes')
    exact reserveMetadata_checked_ne_ok least (heldMirrors_length_pos large) wide metadata'
  · intro fits
    obtain ⟨lost, pending, counted, rfl, within⟩ := counted_of_placeChunks placed_
    obtain ⟨lostMetadata, lostData⟩ := Lost.within_iff.mp within
    have volume : request.volume ≤ wordMax := Nat.le_of_lt_succ request.volume_lt
    constructor
    · exact ⟨_, (Loop.run_eq_total (placeTurn_lowers low) Lost.none).trans (congrArg some placed_)⟩
    · refine planLayout_eq_ok.mpr ⟨incompat, metadataBlocks, systemBlocks, _, sectorSize, nodeSize,
        sizes, features, large, ?_, ?_, ?_, rfl⟩
      · rw [← metadata]
        exact reserveMetadata_build least fits
      · rw [← placed_]
        exact placeChunks_build _
      · rw [← system]
        exact counted.reserveSystem_build _ low least
    · exact counted.runs.pairwise_apart
    · exact counted.stripes.packed
    · exact fun stripe member => counted.whole member
    · exact fun chunk member => PlannedChunk.mirrorWindows_eq (counted.fits member) low
    · exact counted.le_clearBlocks_system low accepted system
    · have cleared := le_sum_clear counted (by decide) lostMetadata counted.metadata
      have room := counted.room
      have kept := @keptBytes_le_spanBytes BlockGroupFlags.metadata pending
      have asked := counted.metadata
      have exact_ : metadataBlocks * nodeSize ≤ satMul metadataBlocks nodeSize :=
        mul_le_of_satMul_le le_rfl (by unfold reservedHead at room; omega)
      rw [← sum_clearBlocks_mul (fun chunk member => counted.fits (List.mem_of_mem_filter member))
        pos divides] at cleared
      exact Nat.le_of_mul_le_mul_right (exact_.trans cleared) pos
    · exact le_sum_clear counted (by decide) lostData counted.data

/-- A volume of a gibibyte at every default. -/
def plainRequest : PlanRequest := .new (2 ^ 30)

/-- The same, with a value of the largest length there is. -/
def wideRequest : PlanRequest :=
  { plainRequest with content := { Content.empty with longestValue := 2 ^ 64 - 1 } }

theorem plainRequest_sound
    : ∃ layout, planLayout .release plainRequest = .ok layout ∧ layout.Sound plainRequest := by
  cases planned : planLayout .release plainRequest with
  | error error =>
      have made : (planLayout .release plainRequest).toOption.isSome = true := by decide +kernel
      rw [planned] at made
      cases made
  | ok layout => exact ⟨layout, rfl, (sound_iff_recordFits planned).mpr (by decide)⟩

/-- The bound on the metadata of a wide value wraps around, and the plan goes through. -/
theorem wideRequest_wraps
    : ¬ ∀ request layout, planLayout .release request = .ok layout → layout.Sound request := by
  intro sound
  cases planned : planLayout .release wideRequest with
  | error error =>
      have made : (planLayout .release wideRequest).toOption.isSome = true := by decide +kernel
      rw [planned] at made
      cases made
  | ok layout =>
      have same := (sound _ _ planned).exact_
      have stopped : (planLayout .checked wideRequest).toOption.isSome = false := by
        decide +kernel
      rw [same] at stopped
      cases stopped

end Ferrosys.Btrfs
