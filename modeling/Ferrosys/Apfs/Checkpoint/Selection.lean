import Ferrosys.Apfs.Checkpoint
import Ferrosys.Library.Select

/-! A container opens at its best checkpoint: of those in the ring that are whole and whose space
manager loads the newest, and of the newest the one in the lowest slot, whatever the other slots
hold.
-/

namespace Ferrosys.Apfs

open Splice Checked Select

namespace Container

/-- Block `index` of the ring holds a container superblock that its checksum covers. -/
structure HoldsSuperblock (container : Container) (index : Nat) (sb : ContainerSuperblock)
    (bytes : Bytes) : Prop where
  inside : index < container.superblock.descAreaBlocks
  stored : container.readBlocks (container.superblock.checkpoint.descBase + index) container.blockSize = .ok bytes
  covered : verify bytes = true
  kind : ∃ header, ObjectHeader.readFrom bytes = .ok header ∧ header.kind = Kind.containerSuperblock
  parsed : ContainerSuperblock.readFrom bytes = .ok sb

/-- Block `index` of the ring is a mapping block of transaction `xid`: its checksum covers it, and it
records the identity of one at its own address.
-/
def MappingBlock (self : Container) (xid index : Nat) : Prop :=
  let address := self.superblock.checkpoint.descBase + index
  ∃ bytes header, self.readBlocks address self.blockSize = .ok bytes ∧ verify bytes = true
    ∧ ObjectHeader.readFrom bytes = .ok header ∧ header.kind = Kind.checkpointMap
    ∧ header.xid = xid ∧ writtenAs header .physical address

/-- A checkpoint that is whole: its superblock is the container's own, in block zero's geometry, and
the last block of the run of the ring it describes, every other of which is one of its mapping
blocks.
-/
structure Whole (container : Container) (index : Nat) (sb : ContainerSuperblock) : Prop where
  identity : writtenAs sb.header .ephemeral oidNxSuperblock
  uuid : sb.uuid = container.superblock.uuid
  blockSize : sb.blockSize = container.superblock.blockSize
  descBase : sb.checkpoint.descBase = container.superblock.checkpoint.descBase
  descBlocks : sb.checkpoint.descBlocks = container.superblock.checkpoint.descBlocks
  data : sb.checkpoint.dataBlocks &&& checkpointAreaIsTree = 0
  some : 0 < sb.checkpoint.descLen
  fits : sb.checkpoint.descLen ≤ container.superblock.descAreaBlocks
  starts : sb.checkpoint.descIndex < container.superblock.descAreaBlocks
  last : (sb.checkpoint.descIndex + sb.checkpoint.descLen - 1) % container.superblock.descAreaBlocks
    = index
  maps : ∀ k < sb.checkpoint.descLen - 1,
    container.MappingBlock sb.header.xid
      ((sb.checkpoint.descIndex + k) % container.superblock.descAreaBlocks)

/-- The mappings of a space manager in block `index` of the ring. -/
def managersAt (self : Container) (index : Nat) : List CheckpointMapping :=
  match self.readRingBlock index with
  | .ok block => block.managers
  | .error _ => []

/-- The first mapping of its space manager in a checkpoint's mapping blocks. -/
def managerOf (self : Container) (sb : ContainerSuperblock) : Option CheckpointMapping :=
  ((List.range (sb.checkpoint.descLen - 1)).flatMap fun k =>
    self.managersAt ((sb.checkpoint.descIndex + k) % self.superblock.descAreaBlocks)).find?
      (·.oid == sb.spaceManagerOid)

/-- A checkpoint whose space manager loads: where it is found, is of the size a container of its size
has, and reads, it gives each free queue the node limit of such a container.
-/
def Loads (self : Container) (sb : ContainerSuperblock) : Prop :=
  ∀ mapping, self.managerOf sb = some mapping → mapping.size = managerSize sb →
    ∀ object sm,
      self.readEphemeral mapping Kind.spaceManager sb.header.xid = .ok object →
      SpaceManager.readFrom object = .ok sm →
      (⟨sm.poolNodeLimit, sm.mainNodeLimit⟩ : QueueNodeLimits)
        = QueueNodeLimits.of sb.blockCount sb.blockSize

/-- A checkpoint a container may be opened at. -/
structure Opens (container : Container) (index : Nat) (sb : ContainerSuperblock) (bytes : Bytes)
    : Prop where
  holds : container.HoldsSuperblock index sb bytes
  whole : container.Whole index sb
  loads : container.Loads sb

/-- Every block of the ring is in the source. -/
def RingReads (self : Container) : Prop :=
  ∀ index < self.superblock.descAreaBlocks, ∃ bytes,
    self.readBlocks (self.superblock.checkpoint.descBase + index) self.blockSize = .ok bytes

section Read

variable {self : Container} {area : { ring : Nat // 0 < ring }} {ring : Ring}

/-- An area that is accepted is as long as block zero says, and its blocks are the container's. -/
theorem descriptorArea_eq_ok (accepted : self.descriptorArea = .ok area)
    : area.1 = self.superblock.descAreaBlocks
      ∧ self.superblock.checkpoint.descBase + area.1 < 2 ^ 64
      ∧ self.superblock.checkpoint.descBase + area.1 ≤ self.superblock.blockCount := by
  unfold descriptorArea at accepted
  dsimp only at accepted
  split at accepted
  next => cases accepted
  next =>
    split at accepted
    next =>
      split at accepted
      next => cases accepted
      next =>
        split at accepted
        next => cases accepted
        next within =>
          obtain rfl := Except.ok.inj accepted
          rw [not_or, Nat.not_le, Nat.not_lt] at within
          exact ⟨rfl, within⟩
    next => cases accepted

/-- A ring that was read holds each of its blocks in its own place. -/
theorem readRing_eq_ok (read : self.readRing area = .ok ring)
    : ring.blocks.length = area.1
      ∧ ∀ index < area.1, ∃ block, ring.blocks[index]? = some block
        ∧ self.readRingBlock index = .ok block := by
  unfold readRing at read
  split at read
  next => cases read
  next blocks all =>
    obtain rfl := Except.ok.inj read
    refine ⟨by rw [length_of_mapM_eq_ok all, List.length_range], fun index inside => ?_⟩
    exact getElem?_of_mapM_eq_ok all (List.getElem?_range inside)

/-- Round and round the ring, each block is the one read there. -/
theorem readRingBlock_block (read : self.readRing area = .ok ring) (at_ : Nat)
    : self.readRingBlock (at_ % area.1) = .ok (ring.block at_) := by
  obtain ⟨length, blocks⟩ := readRing_eq_ok read
  obtain ⟨block, there, held⟩ := blocks (at_ % area.1) (Nat.mod_lt _ area.2)
  have same : ring.block at_ = block := by
    rw [← length, List.getElem?_eq_some_iff] at there
    obtain ⟨_, there⟩ := there
    exact there
  rw [same, held]

/-- A ring whose blocks are all in the source is read. -/
theorem readRing_of_reads (accepted : self.descriptorArea = .ok area) (reads : self.RingReads)
    : ∃ ring, self.readRing area = .ok ring := by
  obtain ⟨blocks, all⟩ : ∃ blocks, (List.range area.1).mapM self.readRingBlock = .ok blocks := by
    apply exists_mapM_eq_ok
    intro index member
    rw [List.mem_range, (descriptorArea_eq_ok accepted).1] at member
    obtain ⟨bytes, stored⟩ := reads index member
    exact ⟨_, by rw [readRingBlock, stored]; rfl⟩
  unfold readRing
  split
  next error failed =>
    rw [failed] at all
    cases all
  next => exact ⟨_, rfl⟩

/-- A header a block has is one its checksum covers. -/
theorem headerOf_eq_some {bytes : Bytes} {header : ObjectHeader}
    : headerOf bytes = some header
      ↔ verify bytes = true ∧ ObjectHeader.readFrom bytes = .ok header := by
  unfold headerOf
  split
  next covered =>
    cases ObjectHeader.readFrom bytes <;> simp [covered, Except.toOption]
  next bare => simp [bare]

/-- What was read of a block of the ring. -/
theorem readRingBlock_eq_ok {index : Nat} {block : RingBlock}
    (read : self.readRingBlock index = .ok block)
    : ∃ bytes,
        self.readBlocks (self.superblock.checkpoint.descBase + index) self.blockSize = .ok bytes
        ∧ block = RingBlock.of (self.superblock.checkpoint.descBase + index) index bytes := by
  obtain ⟨bytes, stored, same⟩ := bind_eq_ok.mp read
  exact ⟨bytes, stored, (Except.ok.inj same).symm⟩

/-- A block of the ring is held to be a mapping block exactly where it is one. -/
theorem checkMappingBlock_eq_ok {index xid : Nat} {block : RingBlock}
    (read : self.readRingBlock index = .ok block)
    : checkMappingBlock xid block.slot = .ok () ↔ self.MappingBlock xid index := by
  obtain ⟨bytes, stored, rfl⟩ := readRingBlock_eq_ok read
  simp only [MappingBlock, RingBlock.of]
  cases headed : headerOf bytes with
  | none =>
      refine ⟨fun checked => ?_, ?_⟩
      · cases checked
      · rintro ⟨other, header, same, covered, parsed, -⟩
        obtain rfl := Except.ok.inj (stored.symm.trans same)
        rw [headerOf_eq_some.mpr ⟨covered, parsed⟩] at headed
        cases headed
  | some header =>
      obtain ⟨covered, parsed⟩ := headerOf_eq_some.mp headed
      simp only [Option.map_some, checkMappingBlock]
      constructor
      · intro checked
        obtain ⟨_, placed, checked⟩ := bind_eq_ok.mp checked
        rw [refuseIf_eq_ok, Bool.or_eq_false_iff, bne_eq_false_iff_eq, bne_eq_false_iff_eq]
          at placed
        refine ⟨bytes, header, stored, covered, parsed, placed.1, placed.2, ?_⟩
        simpa using checked
      · rintro ⟨other, found, same, -, again, kind, at_, written⟩
        obtain rfl := Except.ok.inj (stored.symm.trans same)
        obtain rfl := Except.ok.inj (parsed.symm.trans again)
        simp only [kind, at_, written, bne_self_eq_false, Bool.or_self, Bool.not_true, refuseIf,
          Bool.false_eq_true, if_false]
        rfl

/-- A checkpoint passes as whole exactly where it is. -/
theorem checkpointIsWhole_eq_ok (accepted : self.descriptorArea = .ok area)
    (read : self.readRing area = .ok ring) {index : Nat} {sb : ContainerSuperblock}
    : self.checkpointIsWhole sb index ring = .ok () ↔ self.Whole index sb := by
  have length := (readRing_eq_ok read).1.trans (descriptorArea_eq_ok accepted).1
  have maps : ((List.range (sb.checkpoint.descLen - 1)).forM fun k =>
        checkMappingBlock sb.header.xid (ring.block (sb.checkpoint.descIndex + k)).slot) = .ok ()
      ↔ ∀ k < sb.checkpoint.descLen - 1, self.MappingBlock sb.header.xid
        ((sb.checkpoint.descIndex + k) % self.superblock.descAreaBlocks) := by
    rw [forM_eq_ok]
    refine forall_congr' fun k => ?_
    rw [List.mem_range, ← (descriptorArea_eq_ok accepted).1,
      checkMappingBlock_eq_ok (readRingBlock_block read (sb.checkpoint.descIndex + k))]
  simp only [checkpointIsWhole, bind_eq_ok, refuseIf_eq_ok, exists_and_left, exists_const, maps,
    Bool.or_eq_false_iff, Bool.not_eq_false', bne_eq_false_iff_eq, beq_eq_false_iff_ne,
    decide_eq_false_iff_not, length, Nat.not_lt, Nat.not_le]
  constructor
  · rintro ⟨identity, uuid, ⟨⟨blockSize, descBase⟩, descBlocks⟩, data,
      ⟨⟨⟨some, fits⟩, starts⟩, last⟩, held⟩
    exact ⟨identity, uuid, blockSize, descBase, descBlocks, data, Nat.pos_of_ne_zero some, fits,
      starts, last, held⟩
  · intro whole
    exact ⟨whole.identity, whole.uuid, ⟨⟨whole.blockSize, whole.descBase⟩, whole.descBlocks⟩,
      whole.data, ⟨⟨⟨Nat.pos_iff_ne_zero.mp whole.some, whole.fits⟩, whole.starts⟩, whole.last⟩,
      whole.maps⟩

/-- The mappings of a space manager the pass kept are those of the checkpoint's mapping blocks. -/
theorem managerOf_eq (accepted : self.descriptorArea = .ok area)
    (read : self.readRing area = .ok ring) (sb : ContainerSuperblock)
    : ((List.range (sb.checkpoint.descLen - 1)).flatMap fun k =>
          (ring.block (sb.checkpoint.descIndex + k)).managers).find? (·.oid == sb.spaceManagerOid)
      = self.managerOf sb := by
  have blocks (k : Nat) : self.managersAt
        ((sb.checkpoint.descIndex + k) % self.superblock.descAreaBlocks)
      = (ring.block (sb.checkpoint.descIndex + k)).managers := by
    rw [managersAt, ← (descriptorArea_eq_ok accepted).1, readRingBlock_block read]
  simp only [managerOf, blocks]

/-- A space manager passes exactly where it loads. -/
theorem spaceManagerLoads_eq_ok (accepted : self.descriptorArea = .ok area)
    (read : self.readRing area = .ok ring) {sb : ContainerSuperblock}
    : self.spaceManagerLoads sb ring = .ok () ↔ self.Loads sb := by
  rw [spaceManagerLoads, managerOf_eq accepted read]
  constructor
  · intro loads mapping named size object sm held parsed
    simp only [named, Option.filter_some, size, beq_self_eq_true, if_true, held, Except.toOption,
      Option.bind_some, parsed] at loads
    split at loads
    next given =>
      obtain ⟨pool, main⟩ := Prod.mk.inj given
      exact QueueNodeLimits.mk.injEq _ _ _ _ |>.mpr ⟨pool, main⟩
    next => cases loads
  · intro loads
    cases named : self.managerOf sb with
    | none => rfl
    | some mapping =>
        by_cases size : mapping.size = managerSize sb
        · simp only [Option.filter_some, size, beq_self_eq_true, if_true]
          cases held : self.readEphemeral mapping Kind.spaceManager sb.header.xid with
          | error error => rfl
          | ok object =>
              cases parsed : SpaceManager.readFrom object with
              | error error => simp only [Except.toOption, Option.bind_some, parsed]
              | ok sm =>
                  have given := loads mapping named size object sm held parsed
                  simp only [Except.toOption, Option.bind_some, parsed, ← given, if_true]
        · simp only [Option.filter_some, beq_eq_false_iff_ne.mpr size, Bool.false_eq_true, if_false]

/-- A block is a candidate where it holds a container superblock that its checksum covers. -/
theorem candidateIn_eq_some {index : Nat} {bytes : Bytes} {candidate : Candidate}
    : candidateIn (headerOf bytes) index bytes = some candidate
      ↔ (∃ header, (verify bytes = true ∧ ObjectHeader.readFrom bytes = .ok header)
          ∧ header.kind = Kind.containerSuperblock)
        ∧ ∃ sb, ContainerSuperblock.readFrom bytes = .ok sb
          ∧ candidate = ⟨sb.header.xid, index, sb, bytes⟩ := by
  simp only [← headerOf_eq_some]
  cases headerOf bytes with
  | none => simp [candidateIn]
  | some header =>
      by_cases kind : header.kind = Kind.containerSuperblock
      · cases parsed : ContainerSuperblock.readFrom bytes with
        | error error => simp [candidateIn, kind, parsed, Except.toOption]
        | ok sb => simp [candidateIn, kind, parsed, Except.toOption, eq_comm]
      · simp [candidateIn, kind]

/-- What makes block `index` of a ring that was read a candidate. -/
theorem candidate_eq_some (accepted : self.descriptorArea = .ok area)
    (read : self.readRing area = .ok ring) {index : Nat} {block : RingBlock}
    (at_ : ring.blocks[index]? = some block) {candidate : Candidate}
    : block.candidate = some candidate
      ↔ candidate.index = index ∧ candidate.xid = candidate.superblock.header.xid
        ∧ self.HoldsSuperblock index candidate.superblock candidate.bytes := by
  obtain ⟨length, blocks⟩ := readRing_eq_ok read
  have inside : index < area.1 := length ▸ (List.getElem?_eq_some_iff.mp at_).1
  obtain ⟨other, there, held⟩ := blocks index inside
  obtain rfl := Option.some.inj (at_.symm.trans there)
  obtain ⟨bytes, stored, rfl⟩ := readRingBlock_eq_ok held
  rw [show (RingBlock.of (self.superblock.checkpoint.descBase + index) index bytes).candidate
    = candidateIn (headerOf bytes) index bytes from rfl, candidateIn_eq_some]
  constructor
  · rintro ⟨⟨header, ⟨covered, headed⟩, kind⟩, sb, parsed, rfl⟩
    exact ⟨rfl, rfl, (descriptorArea_eq_ok accepted).1 ▸ inside, stored, covered,
      ⟨header, headed, kind⟩, parsed⟩
  · rintro ⟨rfl, xid, holds⟩
    obtain rfl := Except.ok.inj (stored.symm.trans holds.stored)
    obtain ⟨header, headed, kind⟩ := holds.kind
    exact ⟨⟨header, ⟨holds.covered, headed⟩, kind⟩, candidate.superblock, holds.parsed, xid ▸ rfl⟩

/-- The candidates are the superblocks the ring's blocks hold. -/
theorem mem_candidates (accepted : self.descriptorArea = .ok area)
    (read : self.readRing area = .ok ring) {candidate : Candidate}
    : candidate ∈ ring.blocks.filterMap RingBlock.candidate
      ↔ candidate.xid = candidate.superblock.header.xid
        ∧ self.HoldsSuperblock candidate.index candidate.superblock candidate.bytes := by
  rw [List.mem_filterMap]
  constructor
  · rintro ⟨block, member, found⟩
    obtain ⟨index, at_⟩ := List.mem_iff_getElem?.mp member
    obtain ⟨rfl, holds⟩ := (candidate_eq_some accepted read at_).mp found
    exact holds
  · rintro ⟨xid, holds⟩
    obtain ⟨block, at_, -⟩ := (readRing_eq_ok read).2 candidate.index
      ((descriptorArea_eq_ok accepted).1 ▸ holds.inside)
    exact ⟨block, List.mem_of_getElem? at_,
      (candidate_eq_some accepted read at_).mpr ⟨rfl, xid, holds⟩⟩

/-- The candidates stand in the order of their slots. -/
theorem candidates_ascend (accepted : self.descriptorArea = .ok area)
    (read : self.readRing area = .ok ring)
    : (ring.blocks.filterMap RingBlock.candidate).Pairwise fun a b => a.index < b.index := by
  rw [List.pairwise_filterMap, List.pairwise_iff_getElem]
  intro i j before inside earlier a first b second
  have at_ := (candidate_eq_some accepted read (List.getElem?_eq_getElem before)).mp first
  have later := (candidate_eq_some accepted read (List.getElem?_eq_getElem inside)).mp second
  rw [at_.1, later.1]
  exact earlier

end Read

section Select

variable {judge : Candidate → Except String Unit} {base : Nat}

/-- Once a candidate is taken, it stays the one taken, by induction on those after it. -/
theorem select_taken (candidate : Candidate) (passed : List PassedOver) (rest : List Candidate)
    : (select judge base (some candidate) passed rest).1 = some candidate := by
  induction rest generalizing passed with
  | nil => rfl
  | cons next rest ih =>
      simp only [select, Option.any_some]
      split
      next => rfl
      next => split <;> simp_all

/-- The candidate taken is the first that will do, by induction on the candidates. -/
theorem select_eq (passed : List PassedOver) (candidates : List Candidate)
    : (select judge base none passed candidates).1
      = candidates.find? fun candidate => decide (judge candidate = .ok ()) := by
  induction candidates generalizing passed with
  | nil => rfl
  | cons next rest ih =>
      simp only [select, Option.any_none, Bool.false_eq_true, if_false, List.find?_cons]
      cases judged : judge next with
      | ok will => simp [select_taken]
      | error reason => simp [ih]

end Select

instance : Std.Total Candidate.NotOlder := ⟨fun a b => Nat.le_total b.xid a.xid⟩

instance : IsTrans Candidate Candidate.NotOlder := ⟨fun _ _ _ first second => Nat.le_trans second first⟩

section Find

variable {self : Container} {area : { ring : Nat // 0 < ring }} {ring : Ring}

/-- Opening takes the first of the candidates, newest first, that it may be opened at. -/
theorem findCheckpoint_eq (accepted : self.descriptorArea = .ok area)
    (read : self.readRing area = .ok ring)
    : ∃ passed, self.findCheckpoint
      = (okOr (((ring.blocks.filterMap RingBlock.candidate).insertionSort Candidate.NotOlder).find?
            fun candidate => decide (self.judge ring candidate = .ok ())) .noCheckpoint).map
          fun live => ⟨self.superblock.checkpoint.descBase + live.index, live.superblock,
            live.bytes, passed⟩ := by
  let candidates := (ring.blocks.filterMap RingBlock.candidate).insertionSort Candidate.NotOlder
  let base := self.superblock.checkpoint.descBase
  refine ⟨(select (self.judge ring) base none [] candidates).2, ?_⟩
  rw [findCheckpoint, accepted, ok_bind, read, ok_bind, ← select_eq []]
  rfl

/-- What a candidate is held to is that a container may be opened at it. -/
theorem judge_eq_ok (accepted : self.descriptorArea = .ok area) (read : self.readRing area = .ok ring)
    (candidate : Candidate)
    : self.judge ring candidate = .ok ()
      ↔ self.Whole candidate.index candidate.superblock ∧ self.Loads candidate.superblock := by
  rw [judge, bind_eq_ok, ← checkpointIsWhole_eq_ok accepted read,
    ← spaceManagerLoads_eq_ok accepted read]
  exact ⟨fun ⟨_, both⟩ => both, fun both => ⟨(), both⟩⟩

/-- The checkpoint opened at is one that may be, and of those the newest and in the lowest slot. -/
theorem findCheckpoint_eq_ok {live : Live} (found : self.findCheckpoint = .ok live)
    : ∃ index, live.address = self.superblock.checkpoint.descBase + index
      ∧ self.Opens index live.superblock live.bytes
      ∧ ∀ other sb bytes, self.Opens other sb bytes →
        sb.header.xid < live.superblock.header.xid
        ∨ sb.header.xid = live.superblock.header.xid ∧ index ≤ other := by
  obtain ⟨area, accepted, rest⟩ := bind_eq_ok.mp found
  obtain ⟨ring, read, -⟩ := bind_eq_ok.mp rest
  obtain ⟨passed, answered⟩ := findCheckpoint_eq accepted read
  rw [found] at answered
  cases first : ((ring.blocks.filterMap RingBlock.candidate).insertionSort
      Candidate.NotOlder).find? fun candidate => decide (self.judge ring candidate = .ok ()) with
  | none =>
      rw [first] at answered
      cases answered
  | some best =>
      rw [first] at answered
      obtain rfl := Except.ok.inj answered
      obtain ⟨member, will, noLater⟩ :=
        noLater_of_find? (candidates_ascend accepted read) first
      obtain ⟨xid, holds⟩ := (mem_candidates accepted read).mp member
      obtain ⟨whole, loads⟩ := (judge_eq_ok accepted read best).mp (of_decide_eq_true will)
      refine ⟨best.index, rfl, ⟨holds, whole, loads⟩, fun other sb bytes opens => ?_⟩
      rcases noLater ⟨sb.header.xid, other, sb, bytes⟩
        ((mem_candidates accepted read).mpr ⟨rfl, opens.holds⟩)
        (decide_eq_true ((judge_eq_ok accepted read _).mpr ⟨opens.whole, opens.loads⟩))
        with rfl | ⟨notOlder, lower⟩
      · exact .inr ⟨rfl, Nat.le_refl _⟩
      · rcases Nat.lt_or_eq_of_le notOlder with newer | same
        · exact .inl (xid ▸ newer)
        · exact .inr ⟨same.trans xid, Nat.le_of_lt (lower (Nat.le_of_eq same.symm))⟩

/-- Where a checkpoint in the ring may be opened at, one is. -/
theorem findCheckpoint_of_opens (accepted : self.descriptorArea = .ok area) (reads : self.RingReads)
    {index : Nat} {sb : ContainerSuperblock} {bytes : Bytes} (opens : self.Opens index sb bytes)
    : ∃ live, self.findCheckpoint = .ok live ∧ sb.header.xid ≤ live.superblock.header.xid := by
  obtain ⟨ring, read⟩ := readRing_of_reads accepted reads
  obtain ⟨passed, answered⟩ := findCheckpoint_eq accepted read
  have some := @find?_isSome _ Candidate.NotOlder _ _
    (fun candidate => decide (self.judge ring candidate = .ok ())) _
    ((mem_candidates accepted read).mpr (⟨rfl, opens.holds⟩ :
      (⟨sb.header.xid, index, sb, bytes⟩ : Candidate).xid = _ ∧ _))
    (decide_eq_true ((judge_eq_ok accepted read _).mpr ⟨opens.whole, opens.loads⟩))
  obtain ⟨best, first⟩ := Option.isSome_iff_exists.mp some
  rw [first] at answered
  refine ⟨_, answered, ?_⟩
  obtain ⟨_, -, -, noBetter⟩ := findCheckpoint_eq_ok answered
  rcases noBetter index sb bytes opens with newer | ⟨same, -⟩
  · exact Nat.le_of_lt newer
  · exact Nat.le_of_eq same

/-- Where no checkpoint in the ring may be opened at, there is none. -/
theorem findCheckpoint_of_not_opens (accepted : self.descriptorArea = .ok area)
    (reads : self.RingReads) (none : ∀ index sb bytes, ¬ self.Opens index sb bytes)
    : self.findCheckpoint = .error .noCheckpoint := by
  obtain ⟨ring, read⟩ := readRing_of_reads accepted reads
  obtain ⟨passed, answered⟩ := findCheckpoint_eq accepted read
  rw [answered]
  cases first : ((ring.blocks.filterMap RingBlock.candidate).insertionSort
      Candidate.NotOlder).find? fun candidate => decide (self.judge ring candidate = .ok ()) with
  | none => rfl
  | some best =>
      rw [first] at answered
      obtain ⟨index, -, opens, -⟩ := findCheckpoint_eq_ok answered
      exact absurd opens (none _ _ _)

end Find

/-- How a container is opened: at the best checkpoint of the ring, if there is one it may be opened
at, every index into the ring inside it.
-/
structure Selects (container : Container) : Prop where
  chosen : ∀ live, container.findCheckpoint = .ok live →
    ∃ index, live.address = container.superblock.checkpoint.descBase + index
      ∧ container.Opens index live.superblock live.bytes
      ∧ ∀ other sb bytes, container.Opens other sb bytes →
        sb.header.xid < live.superblock.header.xid
        ∨ sb.header.xid = live.superblock.header.xid ∧ index ≤ other
  opens : ∀ area, container.descriptorArea = .ok area → container.RingReads →
    ∀ index sb bytes, container.Opens index sb bytes →
    ∃ live, container.findCheckpoint = .ok live ∧ sb.header.xid ≤ live.superblock.header.xid
  missing : ∀ area, container.descriptorArea = .ok area → container.RingReads →
    (∀ index sb bytes, ¬ container.Opens index sb bytes) →
    container.findCheckpoint = .error .noCheckpoint
  inside : ∀ area ring, container.descriptorArea = .ok area → container.readRing area = .ok ring →
    ∀ at_, ring.blocks[at_ % area.1]? = some (ring.block at_)
      ∧ container.superblock.checkpoint.descBase + at_ % area.1 < container.superblock.blockCount
  mappings : ∀ live, container.findCheckpoint = .ok live → ∀ k,
    (live.superblock.checkpoint.descIndex + k) % live.superblock.descAreaBlocks
      < container.superblock.descAreaBlocks
    ∧ live.superblock.checkpoint.descBase = container.superblock.checkpoint.descBase
  small : ∀ bytes sb, ContainerSuperblock.readFrom bytes = .ok sb →
    sb.checkpoint.descIndex + sb.checkpoint.descLen < 2 ^ 64

/-- Every container is opened so. -/
theorem selects (self : Container) : self.Selects where
  chosen := fun _ => findCheckpoint_eq_ok
  opens := fun _ accepted reads _ _ _ => findCheckpoint_of_opens accepted reads
  missing := fun _ accepted reads => findCheckpoint_of_not_opens accepted reads
  inside := by
    intro area ring accepted read at_
    obtain ⟨-, -, within⟩ := descriptorArea_eq_ok accepted
    have held := Nat.mod_lt at_ area.2
    refine ⟨?_, by omega⟩
    rw [← (readRing_eq_ok read).1]
    exact List.getElem?_eq_getElem (Nat.mod_lt _ ring.nonempty)
  mappings := by
    intro live found k
    obtain ⟨index, -, opens, -⟩ := findCheckpoint_eq_ok found
    have length : live.superblock.descAreaBlocks = self.superblock.descAreaBlocks := by
      rw [ContainerSuperblock.descAreaBlocks, opens.whole.descBlocks,
        ContainerSuperblock.descAreaBlocks]
    rw [length]
    exact ⟨Nat.mod_lt _ (Nat.zero_lt_of_lt opens.whole.starts), opens.whole.descBase⟩
  small := by
    intro bytes sb parsed
    obtain ⟨_, -, parsed⟩ := bind_eq_ok.mp parsed
    obtain ⟨_, -, parsed⟩ := bind_eq_ok.mp parsed
    obtain ⟨header, -, same⟩ := bind_eq_ok.mp parsed
    obtain rfl := Except.ok.inj same
    have index := getU32_lt bytes 136
    have len := getU32_lt bytes 140
    dsimp only
    omega

section Wide

/-- A container superblock of transaction 2: 5000 blocks of 4096 bytes, with a ring of 4097 of them
from block 1 on, in the first of which its checkpoint is that superblock and no more.
-/
def wideBytes : Bytes :=
  List.replicate 8 0 ++ [1, 0, 0, 0, 0, 0, 0, 0, 2, 0, 0, 0, 0, 0, 0, 0, 1, 0, 0, 0x80, 0, 0, 0, 0]
    ++ [0x4E, 0x58, 0x53, 0x42, 0, 0x10, 0, 0, 0x88, 0x13, 0, 0, 0, 0, 0, 0] ++ List.replicate 56 0
    ++ [1, 0x10, 0, 0, 1, 0, 0, 0, 1, 0, 0, 0, 0, 0, 0, 0] ++ List.replicate 20 0
    ++ [1, 0, 0, 0] ++ List.replicate 8 0 ++ [0, 4, 0, 0, 0, 0, 0, 0] ++ List.replicate 3936 0

/-- That superblock, sealed. -/
def wideBlock : Bytes := seal_ wideBytes

theorem wideBytes_length : wideBytes.length = 4096 := by
  simp [wideBytes, -List.reduceReplicate]

theorem wideBlock_length : wideBlock.length = 4096 := by
  rw [wideBlock, length_seal (by rw [wideBytes_length]; decide), wideBytes_length]

def wideSuperblock : ContainerSuperblock where
  header := ⟨getU64 wideBlock 0, 1, 2, 0x80000001, 0⟩
  blockSize := 4096
  blockCount := 5000
  uuid := List.replicate 16 0
  checkpoint := ⟨4097, 1, 1, 0, 1⟩
  spaceManagerOid := 1024

/-- What the superblock's header says. -/
theorem wideBlock_header : ObjectHeader.readFrom wideBlock = .ok wideSuperblock.header := by
  rw [ObjectHeader.readFrom,
    (ParseError.need_eq_ok (u := ())).mpr (by rw [wideBlock_length]; decide)]
  rfl

theorem wideBlock_parsed : ContainerSuperblock.readFrom wideBlock = .ok wideSuperblock := by
  rw [ContainerSuperblock.readFrom,
    (ParseError.need_eq_ok (u := ())).mpr (by rw [wideBlock_length]; decide), ok_bind,
    wideBlock_header]
  rfl

/-- A container whose block zero is that superblock. -/
def wideContainer : Container where
  src := wideBlock ++ wideBlock ++ List.replicate (4998 * 4096) 0
  base := 0
  superblock := wideSuperblock
  maxWalkEntries := 2 ^ 20

theorem wide_readBlocks {block : Nat} (inside : block < 5000)
    : wideContainer.readBlocks block 4096 = .ok (slice wideContainer.src (block * 4096) 4096) := by
  have length : wideContainer.src.length = 5000 * 4096 := by
    simp [wideContainer, wideBlock_length, -List.reduceReplicate]
  have at_ : offsetOf 0 block 4096 = some (block * 4096) := by
    rw [offsetOf, if_pos (by omega), Nat.zero_add]
  refine Container.readBlocks_of (by decide) inside (by omega) at_ ?_
  rw [readExactAt, if_pos]
  · rfl
  · rw [length]
    change block * 4096 + 4096 ≤ _
    omega

/-- The ring's first block holds a checkpoint the container may be opened at. -/
theorem wide_opens : wideContainer.Opens 0 wideSuperblock wideBlock := by
  have stored : wideContainer.readBlocks 1 4096 = .ok wideBlock := by
    rw [wide_readBlocks (by decide), slice, wideContainer, List.append_assoc,
      List.drop_left' wideBlock_length, List.take_left' wideBlock_length]
  have covered : verify wideBlock = true :=
    @verify_seal wideBytes (by rw [wideBytes_length]; decide)
  refine ⟨⟨by decide, stored, covered, ⟨_, wideBlock_header, rfl⟩, wideBlock_parsed⟩, ?_, ?_⟩
  · exact ⟨by decide, rfl, rfl, rfl, rfl, by decide, by decide, by decide, by decide, by decide,
      fun k below => absurd below (Nat.not_lt_zero k)⟩
  · intro mapping named
    cases named

/-- A ring of more than 16 MiB is not searched, though it holds a whole checkpoint. -/
theorem wide_not_opened
    : wideContainer.RingReads ∧ wideContainer.Opens 0 wideSuperblock wideBlock
      ∧ wideContainer.findCheckpoint
        = .error (.badGeometry "the checkpoint descriptor area, in blocks," 4097
            "more than the 16 MiB of descriptor area this crate reads") := by
  refine ⟨fun index inside => ?_, wide_opens, rfl⟩
  have inside : index < 4097 := inside
  exact ⟨_, wide_readBlocks (show 1 + index < 5000 by omega)⟩

end Wide

end Container

end Ferrosys.Apfs
