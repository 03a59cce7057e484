import Ferrosys.Btrfs.Opening.Copies

/-! Which copy of a tree block a read answers, over every sequence of reads an opened image's cache
goes through.
-/

namespace Ferrosys.Btrfs

open Splice Checked

namespace Volume

variable {self : Volume} {logical : Nat} {generation : Option Nat} {copies : List Nat}
  {block : TreeBlock}

/-- `block` is what the first of `copies` to pass every check holds. -/
def FirstPassing (self : Volume) (logical : Nat) (generation : Option Nat) (copies : List Nat)
    (block : TreeBlock) : Prop :=
  ∃ before physical behind, copies = before ++ physical :: behind
    ∧ self.readCopy logical physical self.nodesize generation = .ok block
    ∧ ∀ copy ∈ before, ∃ fault,
      self.readCopy logical copy self.nodesize generation = .error fault

/-- What a copy holds fails a check of its own, rather than out of reach. -/
def FailsChecks (self : Volume) (logical : Nat) (generation : Option Nat) (copy : Nat) : Prop :=
  ∃ fault, self.readCopy logical copy self.nodesize generation = .error fault
    ∧ fault.isCopyFault = true

/-- What a read of the copies answers is what the first to pass holds, by induction on them. -/
theorem firstPassing_of_readCopies {first : Option ReadError}
    (read : self.readCopies logical generation copies first = .ok block)
    : self.FirstPassing logical generation copies block := by
  induction copies generalizing first with
  | nil => cases read
  | cons physical rest ih =>
      rw [readCopies] at read
      cases answered : self.readCopy logical physical self.nodesize generation with
      | ok other =>
          rw [answered] at read
          obtain rfl := Except.ok.inj read
          exact ⟨[], physical, rest, rfl, answered, fun _ member => absurd member List.not_mem_nil⟩
      | error fault =>
          simp only [answered] at read
          split at read
          next lenient =>
            obtain ⟨before, copy, behind, rfl, passed, failed⟩ := ih read
            refine ⟨physical :: before, copy, behind, rfl, passed, fun earlier member => ?_⟩
            rcases List.mem_cons.mp member with rfl | later
            · exact ⟨fault, answered⟩
            · exact failed earlier later
          next => cases read

/-- A lenient read passes over copies that fail only their checks, by induction on them. -/
theorem readCopies_of_passing (lenient : self.policy = .lenient) {before behind : List Nat}
    {physical : Nat} {first : Option ReadError}
    (passed : self.readCopy logical physical self.nodesize generation = .ok block)
    (failed : ∀ copy ∈ before, self.FailsChecks logical generation copy)
    : self.readCopies logical generation (before ++ physical :: behind) first = .ok block := by
  induction before generalizing first with
  | nil => rw [List.nil_append, readCopies, passed]
  | cons copy rest ih =>
      obtain ⟨fault, answered, isFault⟩ := failed copy List.mem_cons_self
      rw [List.cons_append, readCopies, answered]
      simp only [isFault, lenient, beq_self_eq_true, Bool.and_self, if_true]
      exact ih fun later member => failed later (List.mem_cons_of_mem _ member)

/-- The cache after a sequence of reads, each of an address and of the transaction it is to be from,
if any is asked for.
-/
def fetches (self : Volume) (cache : BlockCache TreeBlock) (requests : List (Nat × Option Nat))
    : BlockCache TreeBlock :=
  requests.foldl (fun cache request => (self.fetch cache request.1 request.2).2) cache

/-- A cache holds what the device does through every sequence of reads, by induction on it. -/
theorem fetches_holds {cache : BlockCache TreeBlock} (holds : self.Holds cache)
    (requests : List (Nat × Option Nat)) : self.Holds (self.fetches cache requests) := by
  induction requests generalizing cache with
  | nil => exact holds
  | cons request rest ih => exact ih (fetch_eq_readTreeBlock holds request.1 request.2).1

/-- Copies read the same whatever else is mapped. -/
theorem readCopies_mapped (self : Volume) (chunks : ChunkMap) (logical : Nat)
    (generation : Option Nat) (copies : List Nat) (first : Option ReadError)
    : { self with chunks }.readCopies logical generation copies first
      = self.readCopies logical generation copies first := by
  induction copies generalizing first with
  | nil => rfl
  | cons physical rest ih =>
      have same : { self with chunks }.readCopy logical physical self.nodesize generation
          = self.readCopy logical physical self.nodesize generation := rfl
      simp only [readCopies, same, ih]

/-- A run mapped by some of the chunks of a map is mapped so by all of them. -/
theorem copiesOf_of_subset {some_ all : ChunkMap} {len : Nat}
    (subset : ∀ chunk ∈ some_.chunks, chunk ∈ all.chunks)
    (mapped : some_.copiesOf logical len = .ok copies) : all.copiesOf logical len = .ok copies := by
  unfold ChunkMap.copiesOf at mapped ⊢
  split at mapped
  next => cases mapped
  next chunk found =>
    obtain ⟨member, covers⟩ := chunkAt_eq_some.mp found
    rw [chunkAt_eq_some.mpr ⟨subset chunk member, covers⟩]
    exact mapped

/-- Blocks read through some of the chunks are what a read through all of them answers. -/
theorem holds_of_subset {chunks : ChunkMap} {cache : BlockCache TreeBlock}
    (subset : ∀ chunk ∈ chunks.chunks, chunk ∈ self.chunks.chunks)
    (holds : { self with chunks }.Holds cache) : self.Holds cache := by
  intro slot member
  obtain ⟨copies, mapped, read⟩ := bind_eq_ok.mp (holds slot member)
  rw [readCopies_mapped] at read
  rw [readTreeBlock, readThrough, copiesOf_of_subset subset mapped, ok_bind]
  exact read

/-- What a read answers from a cache that holds what the device does, whatever transaction it asks
for: a block of that transaction, and the first copy of it that passes.
-/
theorem fetch_eq_ok {cache : BlockCache TreeBlock} (holds : self.Holds cache)
    (mapped : self.chunks.copiesOf logical self.nodesize = .ok copies)
    (read : (self.fetch cache logical generation).1 = .ok block)
    : (∀ expected ∈ generation, block.header.generation = expected)
      ∧ self.FirstPassing logical (some block.header.generation) copies block := by
  have passing (again : self.readTreeBlock logical block.header.generation = .ok block)
      : self.FirstPassing logical (some block.header.generation) copies block := by
    rw [readTreeBlock, readThrough, mapped, ok_bind] at again
    exact firstPassing_of_readCopies again
  have answers := (BlockCache.Holds.get holds logical).2
  simp only [fetch] at read
  split at read
  next held found =>
    obtain ⟨held, same⟩ := Option.filter_eq_some_iff.mp found
    obtain rfl := Except.ok.inj read
    refine ⟨?_, passing (answers _ held)⟩
    rintro expected ⟨⟩
    simpa using same
  next =>
    cases through : self.readThrough logical generation with
    | error error =>
        rw [through] at read
        cases read
    | ok other =>
        rw [through] at read
        obtain rfl := Except.ok.inj read
        obtain ⟨-, -, written, again⟩ := readThrough_eq_ok through
        exact ⟨written, passing again⟩

/-- A lenient read of a transaction passes over the copies that fail only their checks, and fails
where every copy does.
-/
theorem fetch_lenient (lenient : self.policy = .lenient) {cache : BlockCache TreeBlock}
    (holds : self.Holds cache) (expected : Nat)
    (mapped : self.chunks.copiesOf logical self.nodesize = .ok copies)
    : (∀ before physical behind block, copies = before ++ physical :: behind →
        (∀ copy ∈ before, self.FailsChecks logical (some expected) copy) →
          self.readCopy logical physical self.nodesize (some expected) = .ok block →
            (self.fetch cache logical (some expected)).1 = .ok block)
      ∧ ((∀ copy ∈ copies, ∃ fault,
          self.readCopy logical copy self.nodesize (some expected) = .error fault) →
        ∃ error, (self.fetch cache logical (some expected)).1 = .error error) := by
  have answers : (self.fetch cache logical (some expected)).1
      = self.readCopies logical (some expected) copies none := by
    rw [(fetch_eq_readTreeBlock holds logical (some expected)).2 expected rfl, readTreeBlock,
      readThrough, mapped, ok_bind]
  rw [answers]
  refine ⟨?_, fun failed => ?_⟩
  · rintro before physical behind block rfl failed passed
    exact readCopies_of_passing lenient passed failed
  · cases read : self.readCopies logical (some expected) copies none with
    | error error => exact ⟨error, rfl⟩
    | ok block =>
        obtain ⟨before, physical, behind, rfl, passed, -⟩ := firstPassing_of_readCopies read
        obtain ⟨fault, refused⟩ := failed physical (List.mem_append_right _ List.mem_cons_self)
        cases passed.symm.trans refused

end Volume

/-- The blocks a volume of this node size begins with: none. -/
def treeCache (nodesize : Nat) : BlockCache TreeBlock := .within (2 ^ 20) nodesize 64

/-- A cache an opened image can have: what reads through the chunks it began with left, and reads
through all of them since.
-/
def Opened.Reached (self : Opened) (cache : BlockCache TreeBlock) : Prop :=
  ∃ bootstrap : ChunkMap, (∀ chunk ∈ bootstrap.chunks, chunk ∈ self.volume.chunks.chunks)
    ∧ ∃ early late, cache = self.volume.fetches
      ({ self.volume with chunks := bootstrap }.fetches (treeCache self.superblock.nodesize) early)
      late

/-- A cache an opened image can have holds what its device does. -/
theorem Opened.Reached.holds {opened : Opened} {cache : BlockCache TreeBlock}
    (reached : opened.Reached cache) : opened.volume.Holds cache := by
  obtain ⟨bootstrap, subset, early, late, rfl⟩ := reached
  refine Volume.fetches_holds (Volume.holds_of_subset subset ?_) late
  exact Volume.fetches_holds (BlockCache.new_holds _ _) early

/-- Adding a chunk of the chunk tree takes none away. -/
theorem Mapping.add_subset {deviceBytes devid : Nat} {policy : ReadPolicy}
    {before after : Mapping deviceBytes} {announced : Announced}
    (added : before.add devid policy announced = .ok after)
    : ∀ chunk ∈ before.map.chunks, chunk ∈ after.map.chunks := by
  intro chunk member
  unfold Mapping.add at added
  dsimp only at added
  split at added
  · obtain ⟨repeated, -, added⟩ := bind_eq_ok.mp added
    obtain ⟨_, -, added⟩ := bind_eq_ok.mp added
    obtain rfl := Except.ok.inj added
    split <;> exact member
  · obtain ⟨map, inserted, added⟩ := bind_eq_ok.mp added
    obtain rfl := Except.ok.inj added
    unfold DeviceMap.insert at inserted
    split at inserted
    · cases inserted
    next done =>
      obtain rfl := Except.ok.inj inserted
      obtain ⟨mapped, -, perm⟩ := (insertChunk_spec before.map.sound announced).2.2 done
      exact perm.mem_iff.mpr (List.mem_cons_of_mem _ member)

/-- An image is opened with the superblock it was given, and its chunk tree was read through chunks
it has.
-/
theorem mount_eq_ok {src : Bytes} {options : OpenOptions} {sb : SuperBlock} {found : List Mirror}
    {opened : Opened} (mounted : mount src options sb found = .ok opened)
    : opened.superblock = sb ∧ opened.mirrors = found ∧ opened.volume.policy = options.policy
      ∧ ∃ bootstrap : ChunkMap, (∀ chunk ∈ bootstrap.chunks, chunk ∈ opened.volume.chunks.chunks)
        ∧ { opened.volume with chunks := bootstrap } = bootVolume src options sb bootstrap
        ∧ ∃ announced, (bootVolume src options sb bootstrap).chunkItems sb = .ok announced := by
  unfold mount at mounted
  obtain ⟨array, -, mounted⟩ := bind_eq_ok.mp mounted
  obtain ⟨bootstrap, -, mounted⟩ := bind_eq_ok.mp mounted
  obtain ⟨announced, items, mounted⟩ := bind_eq_ok.mp mounted
  obtain ⟨mapping, mapped, mounted⟩ := bind_eq_ok.mp mounted
  obtain rfl := Except.ok.inj mounted
  rw [mapError_eq_ok] at mapped
  refine ⟨rfl, rfl, rfl, bootstrap.map, ?_, rfl, announced, items⟩
  have each (before : Mapping sb.devItem.totalBytes) (announced : Announced)
      (after : Mapping sb.devItem.totalBytes)
      (kept : ∀ chunk ∈ bootstrap.chunks, chunk ∈ before.map.chunks)
      (added : before.add sb.devItem.devid options.policy announced = .ok after)
      : ∀ chunk ∈ bootstrap.chunks, chunk ∈ after.map.chunks :=
    fun chunk member => Mapping.add_subset added chunk (kept chunk member)
  exact foldlM_invariant each (fun _ member => member) mapped

/-- An image is opened through the verified superblock of the highest generation, the earliest of
those. A copy is refused under a strict read alone, where the filesystem can be read and a copy the
device has room for is not the live one's; a strict read that opens an image found them all to be.
Every tree block an opened image answers is from the transaction asked for and the first copy of it
that passes, through a lenient read one that others failing their checks stand before, and none
where every copy fails.
-/
theorem copies_chosen (build : Features) (src : Bytes) (options : OpenOptions)
    : (∀ opened, openWith build src options = .ok opened →
        ∃ live, Newest (bounded src options) options.base live
          ∧ opened.superblock = live.superblock
          ∧ (options.policy = .strict → Agreement (bounded src options) options.base live))
      ∧ (∀ live, Newest (bounded src options) options.base live →
        checkReadable build live.superblock = .ok () →
          ((∃ mirror at_ fault,
              openWith build src options = .error (.mirrorDisagreement mirror at_ fault))
            ↔ options.policy = .strict ∧ ¬Agreement (bounded src options) options.base live)
          ∧ ((options.policy = .strict → Agreement (bounded src options) options.base live) →
            ∃ found, openWith build src options
              = mount (bounded src options) options live.superblock found))
      ∧ ∀ opened, openWith build src options = .ok opened →
        ∀ cache, opened.Reached cache → ∀ logical copies,
          opened.volume.chunks.copiesOf logical opened.volume.nodesize = .ok copies →
            (∀ generation block, (opened.volume.fetch cache logical generation).1 = .ok block →
              (∀ expected ∈ generation, block.header.generation = expected)
                ∧ opened.volume.FirstPassing logical (some block.header.generation) copies block)
            ∧ (options.policy = .lenient → ∀ expected,
              (∀ before physical behind block, copies = before ++ physical :: behind →
                (∀ copy ∈ before, opened.volume.FailsChecks logical (some expected) copy) →
                  opened.volume.readCopy logical physical opened.volume.nodesize (some expected)
                      = .ok block →
                    (opened.volume.fetch cache logical (some expected)).1 = .ok block)
              ∧ ((∀ copy ∈ copies, ∃ fault,
                  opened.volume.readCopy logical copy opened.volume.nodesize (some expected)
                    = .error fault) →
                ∃ error, (opened.volume.fetch cache logical (some expected)).1 = .error error)) := by
  have through (opened : Opened) (done : openWith build src options = .ok opened)
      : ∃ live found, liveSuperblock build (bounded src options) options.base options.policy
          = .ok (live, found)
        ∧ mount (bounded src options) options live.superblock found = .ok opened := by
    obtain ⟨⟨live, found⟩, chosen, mounted⟩ := bind_eq_ok.mp done
    exact ⟨live, found, chosen, mounted⟩
  refine ⟨fun opened done => ?_, fun live newest readable => ?_, fun opened done cache reached
    logical copies mapped => ⟨fun generation block read => ?_, fun lenient expected => ?_⟩⟩
  · obtain ⟨live, found, chosen, mounted⟩ := through opened done
    refine ⟨live, newest_of_live chosen, (mount_eq_ok mounted).1, fun strict => ?_⟩
    have newest : Newest (bounded src options) options.base live := newest_of_live chosen
    have readable : checkReadable build live.superblock = .ok () := by
      rw [liveSuperblock_eq newest] at chosen
      obtain ⟨_, passed, -⟩ := bind_eq_ok.mp chosen
      exact mapError_eq_ok.mp passed
    rcases checkMirrors_cases options.policy newest readable with
      ⟨agreement, -⟩ | ⟨-, _, _, _, refused⟩
    · exact agreement strict
    · cases chosen.symm.trans refused
  · rcases checkMirrors_cases options.policy newest readable with
      ⟨agreement, found, chosen⟩ | ⟨⟨strict, not⟩, mirror, at_, fault, refused⟩
    · have opens : openWith build src options
          = mount (bounded src options) options live.superblock found := by
        rw [openWith, chosen, ok_bind]
      refine ⟨iff_of_false ?_ fun disagrees => disagrees.2 (agreement disagrees.1),
        fun _ => ⟨found, opens⟩⟩
      rintro ⟨mirror, at_, fault, refused⟩
      exact mount_ne_disagreement (opens.symm.trans refused)
    · refine ⟨iff_of_true ⟨mirror, at_, fault, ?_⟩ ⟨strict, not⟩, fun agreement =>
        absurd (agreement strict) not⟩
      rw [openWith, refused]
      rfl
  · exact Volume.fetch_eq_ok reached.holds mapped read
  · obtain ⟨live, found, -, mounted⟩ := through opened done
    have policy := (mount_eq_ok mounted).2.2.1
    exact Volume.fetch_lenient (policy.trans lenient) reached.holds expected mapped

/-- A sealed superblock 64 KiB into a device of 1 MiB, one of the two its filesystem spans. -/
def spanning : Bytes :=
  seal_ (List.replicate 50 0 ++ [1] ++ List.replicate 13 0 ++ magic ++ List.replicate 8 0 ++ [1]
    ++ List.replicate 7 0 ++ [1] ++ List.replicate 47 0 ++ [2] ++ List.replicate 8 0 ++ [16]
    ++ List.replicate 3 0 ++ [16] ++ List.replicate 61 0 ++ [16] ++ List.replicate 3884 0)

theorem length_spanning : spanning.length = superInfoSize := by
  have length : (List.replicate 50 0 ++ [1] ++ List.replicate 13 0 ++ magic ++ List.replicate 8 0
      ++ [1] ++ List.replicate 7 0 ++ [1] ++ List.replicate 47 0 ++ [2] ++ List.replicate 8 0
      ++ [16] ++ List.replicate 3 0 ++ [16] ++ List.replicate 61 0 ++ [16]
      ++ List.replicate 3884 0 : Bytes).length = superInfoSize := by
    simp [-List.reduceReplicate, magic, superInfoSize]
  rw [spanning, length_seal (by rw [length]; decide), length]

/-- A filesystem of several devices is not read. -/
theorem checkReadable_of_devices (build : Features) {sb : SuperBlock}
    (csumType : sb.csumType = ChecksumType.crc32c) (incompat : sb.incompatFlags = 0)
    (devices : sb.numDevices ≠ 1)
    : checkReadable build sb = .error (.multiDevice sb.numDevices) := by
  have supported : sb.incompatFlags.without (supportedIncompat build) = 0 := by
    rw [incompat, FlagWord.without]
    exact BitVec.zero_and
  simp [checkReadable, csumType, supported, devices, refuseIf, FlagWord.isEmpty, bind, Except.bind]

/-- That superblock verifies, and its filesystem spans two devices. -/
theorem spanning_parsed
    : ∃ superblock, SuperBlock.readFrom spanning = .ok superblock ∧ superblock.bytenr = 65536
      ∧ superblock.csumType = ChecksumType.crc32c ∧ superblock.devItem.totalBytes = 2 ^ 20
      ∧ superblock.incompatFlags = 0 ∧ superblock.numDevices = 2 := by
  rw [SuperBlock.readFrom, if_neg (by rw [length_spanning]; decide), if_neg (by decide)]
  exact ⟨_, rfl, by decide, by decide, by decide, by decide, by decide⟩

def spanningSource : Bytes := List.replicate 65536 0 ++ spanning

theorem length_spanningSource : spanningSource.length = 65536 + superInfoSize := by
  rw [spanningSource, List.length_append, List.length_replicate, length_spanning]

/-- The one copy of a superblock that source has is the live one, the device has room for no other,
and it is not read.
-/
theorem spanning_live
    : ∃ live, Newest spanningSource 0 live ∧ Agreement spanningSource 0 live
      ∧ ∀ build, checkReadable build live.superblock = .error (.multiDevice 2) := by
  obtain ⟨superblock, parsed, bytenr, csumType, totalBytes, incompat, devices⟩ := spanning_parsed
  have verified : Verified spanningSource 0 65536 ⟨spanning, superblock, parsed⟩ := by
    refine ⟨by decide, by rw [length_spanningSource], ?_, ?_, bytenr⟩
    · rw [Nat.zero_add, slice, spanningSource, List.drop_left' List.length_replicate,
        List.take_of_length_le (by rw [length_spanning])]
    · exact (congrArg (checksumHolds spanning) csumType).trans (checksumHolds_seal _)
  have only {at_ : Nat} {record : Record} (listed : at_ ∈ mirrors)
      (other : Verified spanningSource 0 at_ record) : at_ = 65536 := by
    have held := other.held
    rw [length_spanningSource] at held
    simp only [mirrors, List.mem_cons, List.not_mem_nil, or_false] at listed
    omega
  refine ⟨_, ⟨0, 65536, rfl, verified, fun place elsewhere record listed other => ?_⟩,
    fun at_ listed room => ?_, fun build => ?_⟩
  · obtain rfl := only (List.mem_of_getElem? listed) other
    rw [other.unique verified]
    exact ⟨Nat.le_refl _, fun before => absurd before (Nat.not_lt_zero _)⟩
  · have first : at_ = 65536 := by
      change holdsMirror superblock.devItem.totalBytes at_ = true at room
      rw [totalBytes] at room
      simp only [mirrors, List.mem_cons, List.not_mem_nil, or_false] at listed
      rcases listed with rfl | rfl | rfl
      · rfl
      · exact absurd room (by decide)
      · exact absurd room (by decide)
    subst first
    exact ⟨_, verified, rfl, rfl, fun _ _ _ => rfl⟩
  · rw [← devices]
    exact checkReadable_of_devices build csumType incompat (by rw [devices]; decide)

/-- A sealed leaf of 4096 bytes at logical address 0, without an item. -/
def emptyLeaf : Bytes := seal_ (List.replicate 4096 0)

theorem length_emptyLeaf : emptyLeaf.length = 4096 := by
  rw [emptyLeaf, length_seal (by rw [List.length_replicate]; decide), List.length_replicate]

/-- A volume whose source ends behind that leaf's second copy, where its first is further out. -/
def shortVolume : Volume where
  src := emptyLeaf
  base := 0
  policy := .lenient
  maxWalkEntries := 2 ^ 20
  nodesize := 4096
  csumType := ChecksumType.crc32c
  metadataId := List.replicate 16 0
  chunks := ⟨[⟨0, 4096, BlockGroupFlags.metadata, [8192, 0], by decide⟩],
    List.pairwise_singleton _ _⟩

/-- The first copy is out of reach, and the second passes. -/
theorem shortVolume_copies
    : shortVolume.readCopy 0 8192 4096 (some 0)
        = .error (.io "UnexpectedEof" "failed to fill whole buffer")
      ∧ ∃ block, shortVolume.readCopy 0 0 4096 (some 0) = .ok block := by
  constructor
  · have short : readExactAt shortVolume.src 8192 4096
        = .error (.io "UnexpectedEof" "failed to fill whole buffer") := by
      rw [readExactAt, if_neg]
      change ¬8192 + 4096 ≤ emptyLeaf.length
      rw [length_emptyLeaf]
      decide
    have reached : offsetOf shortVolume.base 8192 = some 8192 := by decide
    rw [Volume.readCopy, reached, okOr, Option.elim_some, ok_bind, short]
    rfl
  · have parsed : ∃ header, Header.readFrom emptyLeaf = .ok header ∧ header.bytenr = 0
        ∧ header.fsid = List.replicate 16 0 ∧ header.level ≤ maxLevel ∧ header.generation = 0 := by
      rw [Header.readFrom, if_neg (by rw [length_emptyLeaf]; decide)]
      exact ⟨_, rfl, by decide, by decide, by decide, by decide⟩
    obtain ⟨header, parsed, bytenr, fsid, level, generation⟩ := parsed
    have stored : readExactAt shortVolume.src 0 4096 = .ok emptyLeaf := by
      have room : 0 + 4096 ≤ shortVolume.src.length := by
        change 0 + 4096 ≤ emptyLeaf.length
        rw [length_emptyLeaf]
      rw [readExactAt, if_pos room, slice, List.drop_zero]
      exact congrArg _ (List.take_of_length_le (by rw [shortVolume, length_emptyLeaf]))
    refine ⟨⟨header, emptyLeaf, parsed⟩, Volume.readCopy_of (by decide) stored
      (checksumHolds_seal _) (TreeBlock.parse_of_readFrom parsed) bytenr fsid level ?_⟩
    rintro expected ⟨⟩
    exact generation

/-- A strict open refuses an image whose copies all agree, for a filesystem it cannot read, and a
lenient read of a block fails where a copy passes, for one before it that is out of reach.
-/
theorem copies_refused
    : (∃ live, Newest spanningSource 0 live ∧ Agreement spanningSource 0 live
        ∧ openWith ⟨false, false⟩ spanningSource ⟨0, none, .strict, 2 ^ 20⟩
          = .error (.unreadable (.multiDevice 2)))
      ∧ (shortVolume.fetch (.new 64) 0 (some 0)).1
          = .error (.io "UnexpectedEof" "failed to fill whole buffer")
        ∧ shortVolume.chunks.copiesOf 0 4096 = .ok [8192, 0]
        ∧ ∃ block, shortVolume.readCopy 0 0 4096 (some 0) = .ok block := by
  obtain ⟨live, newest, agreement, refused⟩ := spanning_live
  obtain ⟨short, passed⟩ := shortVolume_copies
  refine ⟨⟨live, newest, agreement, ?_⟩, ?_, by decide, passed⟩
  · have opens : liveSuperblock ⟨false, false⟩ spanningSource 0 .strict
        = .error (.unreadable (.multiDevice 2)) := by
      rw [liveSuperblock_eq newest, refused]
      rfl
    rw [openWith, bounded, opens]
    rfl
  · have holds : shortVolume.Holds (.new 64) := BlockCache.new_holds _ _
    rw [(Volume.fetch_eq_readTreeBlock holds 0 (some 0)).2 0 rfl, Volume.readTreeBlock,
      Volume.readThrough,
      show shortVolume.chunks.copiesOf 0 shortVolume.nodesize = .ok [8192, 0] from rfl, ok_bind,
      Volume.readCopies, show shortVolume.nodesize = 4096 from rfl, short]
    rfl

end Ferrosys.Btrfs
