import Ferrosys.Btrfs.Geometry.Mirrors

/-! The planner whole. Its loop counts the chunks, places them and counts again with what the
superblock copies took, until a placement takes no more: what is counted as lost grows from turn to
turn and never passes the volume, so the turns end.
-/

namespace Ferrosys.Btrfs

open Checked Machine Spans

variable {build : Build} {request : PlanRequest} {metadataBytes : Nat} {lost : Lost}
  {pending : List Pending} {superblocks : List Nat}

/-- The chunks the pending ones become on an empty device. -/
def chunksOf (pending : List Pending) : List PlannedChunk :=
  placed pending reservedHead reservedHead

/-- The logical runs follow one another, and end before the volume does. -/
theorem Counted.runs (counted : Counted request metadataBytes lost pending)
    : Chain reservedHead ((chunksOf pending).map PlannedChunk.run) request.volume := by
  obtain ⟨stop, runs, within⟩ := @placed_runs pending reservedHead reservedHead
  have room := counted.room
  exact runs.widen le_rfl (by omega)

/-- The copies of the chunks follow one another on the device. -/
theorem Counted.stripes (counted : Counted request metadataBytes lost pending)
    : Chain reservedHead ((chunksOf pending).flatMap PlannedChunk.stripes) request.volume := by
  have room := counted.room
  exact placed_stripes.widen le_rfl (by omega)

/-- Every chunk is a pending one, placed a whole number of stripes in. -/
theorem Counted.mem_chunksOf (counted : Counted request metadataBytes lost pending)
    {chunk : PlannedChunk} (member : chunk ∈ chunksOf pending)
    : ∃ entry ∈ pending, ∃ logical physical, stripeLen ∣ logical ∧ stripeLen ∣ physical
        ∧ chunk = entry.placed logical physical :=
  mem_placed counted.sound (by decide) (by decide) member

theorem PlanRequest.volume_lt (request : PlanRequest) : request.volume < 2 ^ 64 :=
  request.volumeBytes.toNat_lt

/-- A word can address every run of a chunk. -/
theorem Counted.fits (counted : Counted request metadataBytes lost pending)
    {chunk : PlannedChunk} (member : chunk ∈ chunksOf pending) : chunk.Fits := by
  obtain ⟨entry, among, logical, physical, -, -, same⟩ := counted.mem_chunksOf member
  have sound := counted.sound entry among
  have word := request.volume_lt
  have length : chunk.length = entry.length := same ▸ rfl
  constructor
  · exact length ▸ sound.whole
  · exact length ▸ Nat.lt_of_lt_of_le (by decide) sound.least
  · have run := counted.runs.within chunk.run (List.mem_map_of_mem member)
    exact run.2.trans_lt word
  · intro copy held
    have stripe := counted.stripes.within ⟨copy, chunk.length⟩
      (List.mem_flatMap.mpr ⟨chunk, member, List.mem_map_of_mem held⟩)
    exact stripe.2.trans_lt word

/-- The counted chunks are placed without overflow, within the volume. -/
theorem Counted.placePending_eq (counted : Counted request metadataBytes lost pending)
    : placePending build pending request.volume = .ok (chunksOf pending) := by
  have room := counted.room
  have word := request.volume_lt
  unfold placePending
  rw [placeFrom_eq le_rfl (by omega), ok_bind]
  dsimp only
  rw [decide_eq_true (by omega), debugAssert_of_true]
  rfl

/-- Bytes that chunks of a kind give up to superblock copies. -/
def windowedBytes (chunks : List PlannedChunk) (superblocks : List Nat) (kind : FlagWord) : Nat :=
  ((chunks.filter (·.flags.contains kind)).map (·.windowed superblocks)).sum

theorem Lost.within_iff {lost counted : Lost}
    : lost.within counted ↔ lost.metadata ≤ counted.metadata ∧ lost.data ≤ counted.data := by
  rw [Lost.within, Bool.and_eq_true, decide_eq_true_iff, decide_eq_true_iff]

/-- What chunks give up to superblock copies. -/
def lostIn (chunks : List PlannedChunk) (superblocks : List Nat) : Lost :=
  ⟨windowedBytes chunks superblocks BlockGroupFlags.metadata,
    windowedBytes chunks superblocks BlockGroupFlags.data⟩

/-- Chunks give up no more of a kind than they cover of it, chunk by chunk. -/
theorem windowedBytes_le {chunks : List PlannedChunk} (fits : ∀ chunk ∈ chunks, chunk.Fits)
    (kind : FlagWord) : windowedBytes chunks superblocks kind ≤ coveredBytes chunks kind :=
  List.sum_le_sum fun chunk member =>
    PlannedChunk.windowed_le (fits chunk (List.mem_of_mem_filter member))

/-- The counted chunks cover no more of a kind than the volume has. -/
theorem Counted.covered_le (counted : Counted request metadataBytes lost pending)
    {kind : FlagWord}
    (known : kind ∈ [BlockGroupFlags.system, BlockGroupFlags.metadata, BlockGroupFlags.data])
    : coveredBytes (chunksOf pending) kind ≤ request.volume := by
  have room := counted.room
  have kept := @keptBytes_le_spanBytes kind pending
  rw [chunksOf, coveredBytes_placed counted.sound known]
  omega

theorem Counted.lostOf_eq (counted : Counted request metadataBytes lost pending)
    (low : ∀ at_ ∈ superblocks, at_ + superInfoSize < 2 ^ 64) {kind : FlagWord}
    (known : kind ∈ [BlockGroupFlags.system, BlockGroupFlags.metadata, BlockGroupFlags.data])
    : lostOf build (chunksOf pending) superblocks kind
      = .ok (windowedBytes (chunksOf pending) superblocks kind) := by
  have each : ((chunksOf pending).filter (·.flags.contains kind)).mapM
      (windowBytes build · superblocks)
      = (.ok (((chunksOf pending).filter (·.flags.contains kind)).map (·.windowed superblocks))
          : Planned _) :=
    mapM_eq_ok fun chunk member =>
      PlannedChunk.windowBytes_eq (counted.fits (List.mem_of_mem_filter member)) low
  unfold lostOf
  rw [each, ok_bind]
  refine sum_of_lt (Nat.lt_of_le_of_lt ?_ request.volume_lt)
  exact (windowedBytes_le (fun _ => counted.fits) kind).trans (counted.covered_le known)

/-- What the placed chunks lose is added up without overflow. -/
theorem Counted.of_eq (counted : Counted request metadataBytes lost pending)
    (low : ∀ at_ ∈ superblocks, at_ + superInfoSize < 2 ^ 64)
    : Lost.of build (chunksOf pending) superblocks
      = .ok (lostIn (chunksOf pending) superblocks) := by
  unfold Lost.of
  rw [counted.lostOf_eq low (by decide), ok_bind, counted.lostOf_eq low (by decide), ok_bind]
  rfl

/-- What a turn leaves once the chunks are counted. -/
def turned (superblocks : List Nat) (lost : Lost) (pending : List Pending)
    : Loop.Next Lost (Planned (List PlannedChunk)) :=
  if (lostIn (chunksOf pending) superblocks).within lost then .stop (.ok (chunksOf pending))
  else .go (lost.max (lostIn (chunksOf pending) superblocks))

/-- A turn of the loop, with none of its sums overflowing. -/
theorem placeTurn_eq (low : ∀ at_ ∈ superblocks, at_ + superInfoSize < 2 ^ 64)
    : placeTurn build request metadataBytes superblocks lost
      = Loop.orStop ((pendingChunks .checked request metadataBytes lost).map
          (turned superblocks lost)) := by
  unfold placeTurn
  rw [pendingChunks_build]
  cases answered : pendingChunks .checked request metadataBytes lost with
  | error error => rfl
  | ok pending =>
      have counted := Counted.of_pendingChunks answered
      rw [ok_bind, counted.placePending_eq, ok_bind, counted.of_eq low, ok_bind]
      rfl

/-- A turn that goes on does so from the larger of two losses, of which the second is what chunks
that were counted with the first lose.
-/
theorem placeTurn_eq_go (low : ∀ at_ ∈ superblocks, at_ + superInfoSize < 2 ^ 64) {next : Lost}
    (went : placeTurn build request metadataBytes superblocks lost = .go next)
    : ∃ pending, Counted request metadataBytes lost pending
        ∧ ¬ (lostIn (chunksOf pending) superblocks).within lost
        ∧ next = lost.max (lostIn (chunksOf pending) superblocks) := by
  rw [placeTurn_eq low] at went
  cases answered : pendingChunks .checked request metadataBytes lost with
  | error error =>
      rw [answered] at went
      cases went
  | ok pending =>
      rw [answered] at went
      change turned superblocks lost pending = .go next at went
      unfold turned at went
      split at went
      next => cases went
      next more => exact ⟨pending, .of_pendingChunks answered, more, (Loop.Next.go.inj went).symm⟩

/-- A turn that stops with chunks counted them with no less than they lose. -/
theorem placeTurn_eq_stop (low : ∀ at_ ∈ superblocks, at_ + superInfoSize < 2 ^ 64)
    {chunks : List PlannedChunk}
    (stopped : placeTurn build request metadataBytes superblocks lost = .stop (.ok chunks))
    : ∃ pending, Counted request metadataBytes lost pending ∧ chunks = chunksOf pending
        ∧ (lostIn chunks superblocks).within lost := by
  rw [placeTurn_eq low] at stopped
  cases answered : pendingChunks .checked request metadataBytes lost with
  | error error =>
      rw [answered] at stopped
      cases stopped
  | ok pending =>
      rw [answered] at stopped
      change turned superblocks lost pending = .stop (.ok chunks) at stopped
      unfold turned at stopped
      split at stopped
      next less =>
        cases stopped
        exact ⟨pending, .of_pendingChunks answered, rfl, less⟩
      next => cases stopped

/-- How much more could be counted as lost. -/
def Lost.left (volume : Nat) (lost : Lost) : Nat :=
  (volume - lost.metadata) + (volume - lost.data)

/-- No placement loses more of a kind than the volume has, so counting more as lost leaves less to
be lost.
-/
theorem placeTurn_lowers (low : ∀ at_ ∈ superblocks, at_ + superInfoSize < 2 ^ 64)
    : Loop.Lowers (placeTurn build request metadataBytes superblocks)
        (Lost.left request.volume) := by
  intro lost next went
  obtain ⟨pending, counted, more, rfl⟩ := placeTurn_eq_go low went
  have within {kind : FlagWord}
      (known : kind ∈ [BlockGroupFlags.system, BlockGroupFlags.metadata, BlockGroupFlags.data])
      : windowedBytes (chunksOf pending) superblocks kind ≤ request.volume :=
    (windowedBytes_le (fun _ => counted.fits) kind).trans (counted.covered_le known)
  have metadata := @within BlockGroupFlags.metadata (by decide)
  have data := @within BlockGroupFlags.data (by decide)
  rw [Lost.within_iff, not_and_or] at more
  simp only [Lost.left, Lost.max, lostIn, Nat.max_def] at more ⊢
  rcases more with more | more <;> split_ifs <;> omega

/-- A superblock copy the volume holds ends within it. -/
theorem heldMirrors_low (volume : Nat) : ∀ at_ ∈ heldMirrors volume, at_ + superInfoSize < 2 ^ 64 := by
  intro at_ member
  have among := List.mem_of_mem_filter member
  simp only [mirrors, List.mem_cons, List.not_mem_nil, or_false] at among
  rcases among with rfl | rfl | rfl <;> decide

/-- The planner's loop: the chunks of the first placement that loses no more than was counted. -/
def placeChunks (build : Build) (request : PlanRequest) (metadataBytes : Nat)
    : Planned (List PlannedChunk) :=
  Loop.total (placeTurn build request metadataBytes (heldMirrors request.volume))
    (Lost.left request.volume) (placeTurn_lowers (heldMirrors_low _)) Lost.none

/-- Plan a filesystem. -/
def planLayout (build : Build) (request : PlanRequest) : Planned BtrfsLayout := do
  let (sectorSize, nodeSize) ← blockSizes request
  let incompatFlags ← validatedFeatures request nodeSize
  let compatRoFlags := request.compatRoFlags
  let minimum := minimumVolumeBytes request.metadataProfile request.dataProfile
  refuseIf (request.volume < minimum) (.volumeTooSmall request.volume minimum)
  let superblockMirrors := heldMirrors request.volume
  let metadataBlocks ← reserveMetadata build request sectorSize nodeSize compatRoFlags
    superblockMirrors.length
  let metadataBytes := satMul metadataBlocks nodeSize
  let chunks ← placeChunks build request metadataBytes
  let systemBlocks ← reserveSystem build chunks superblockMirrors nodeSize
  return {
    volumeBytes := request.volume
    sectorSize
    nodeSize
    incompatFlags
    compatRoFlags
    chunks
    superblockMirrors
    reservation := ⟨metadataBlocks, systemBlocks, nodeSize⟩
  }

end Ferrosys.Btrfs
