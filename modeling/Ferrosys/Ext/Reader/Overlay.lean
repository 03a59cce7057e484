import Ferrosys.Ext.Reader

/-! Reading through a replayed journal is reading the recovered image: the source with each home
block overwritten by its copy from the log.
-/

namespace Ferrosys.Ext

open Checked Journal SortedMaps Splice

/-- The block recovery puts in a home, taken from an image holding the log. -/
def recoveredBlock (blockSize : Nat) (image : Bytes) (copy : Copy) : Bytes :=
  let block := slice image (copy.at_ * blockSize) blockSize
  if copy.escaped then putU32Be block 0 jbd2Magic else block

/-- A copy lies wholly inside an image of `len` bytes. -/
def Journal.Copy.inside (blockSize len : Nat) (copy : Copy) : Prop :=
  copy.at_ * blockSize + blockSize ≤ len

instance (blockSize len : Nat) (copy : Copy) : Decidable (copy.inside blockSize len) :=
  inferInstanceAs (Decidable (_ ≤ _))

/-- Recover an image in place: overwrite each home block with its copy, read from the image as it
then stands. A copy the image does not hold whole overwrites nothing.
-/
def recoverImage (blockSize : Nat) (image : Bytes) (entries : List (Nat × Copy)) : Bytes :=
  entries.foldl
    (fun image (home, copy) =>
      if copy.inside blockSize image.length then
        putBlock blockSize image home (recoveredBlock blockSize image copy)
      else image)
    image

/-- The copies an image holds, each with its home. -/
def heldCopies (blockSize : Nat) (image : Bytes) (entries : List (Nat × Copy))
    : List (Nat × Bytes) :=
  (entries.filter fun entry => entry.2.inside blockSize image.length).map fun entry =>
    (entry.1, recoveredBlock blockSize image entry.2)

theorem length_recoveredBlock {blockSize : Nat} {image : Bytes} {copy : Copy}
    (held : copy.inside blockSize image.length)
    : (recoveredBlock blockSize image copy).length = blockSize := by
  unfold recoveredBlock putU32Be
  split
  · rw [length_splice, length_slice held]
  · exact length_slice held

/-- Overwriting a block leaves every other block. -/
theorem recoveredBlock_putBlock {blockSize home : Nat} {image block : Bytes} {copy : Copy}
    (sized : block.length = blockSize) (apart : home ≠ copy.at_)
    : recoveredBlock blockSize (putBlock blockSize image home block) copy
      = recoveredBlock blockSize image copy := by
  unfold recoveredBlock
  rw [slice_putBlock_of_ne sized apart]

/-- Where no copy is itself a home, recovering in place reads every copy as the image first held
it, by induction on the homes.
-/
theorem recoverImage_eq {blockSize : Nat} {image : Bytes} {entries : List (Nat × Copy)}
    (apart : ∀ home ∈ entries, ∀ entry ∈ entries, home.1 ≠ entry.2.at_)
    : recoverImage blockSize image entries
      = putBlocks blockSize image (heldCopies blockSize image entries) := by
  induction entries generalizing image with
  | nil => rfl
  | cons entry rest ih =>
      obtain ⟨home, copy⟩ := entry
      have others : ∀ home ∈ rest, ∀ entry ∈ rest, home.1 ≠ entry.2.at_ :=
        fun home isHome entry isEntry =>
          apart home (List.mem_cons_of_mem _ isHome) entry (List.mem_cons_of_mem _ isEntry)
      unfold recoverImage heldCopies
      rw [List.foldl_cons, ← recoverImage]
      by_cases held : copy.inside blockSize image.length
      · have kept : heldCopies blockSize
            (putBlock blockSize image home (recoveredBlock blockSize image copy)) rest
            = heldCopies blockSize image rest := by
          unfold heldCopies
          rw [length_putBlock]
          apply List.map_congr_left
          intro entry member
          have isEntry := List.mem_cons_of_mem (home, copy) (List.mem_of_mem_filter member)
          rw [recoveredBlock_putBlock (length_recoveredBlock held)
            (apart (home, copy) List.mem_cons_self entry isEntry)]
        rw [List.filter_cons_of_pos (by simpa using held), List.map_cons, ih others]
        simp only [if_pos held, kept]
        rfl
      · rw [List.filter_cons_of_neg (by simpa using held), ih others]
        simp only [if_neg held]
        rfl

theorem length_of_mem_heldCopies {blockSize : Nat} {image : Bytes}
    {entries : List (Nat × Copy)} {block : Nat × Bytes}
    (held : block ∈ heldCopies blockSize image entries) : block.2.length = blockSize := by
  obtain ⟨entry, member, rfl⟩ := List.mem_map.mp held
  exact length_recoveredBlock (by simpa using (List.mem_filter.mp member).2)

namespace Reader

variable (self : Reader)

/-- The filesystem's bytes as the source holds them. -/
def homeImage : Bytes := self.src.drop self.base

/-- A copy of the image recovered in place. -/
def recoveredImage : Bytes := recoverImage self.blockSize self.homeImage self.overlay.entries

/-- No log block the overlay reads is itself a home the overlay rewrites. -/
def LogApart : Prop :=
  ∀ home copy, self.overlay.get? home = some copy → self.overlay.get? copy.at_ = none

/-- Every copy a read of `len` bytes at `offset` takes lies wholly inside the source. -/
def CopiesInReach (offset len : Nat) : Prop :=
  ∀ home copy, self.overlay.get? home = some copy → home * self.blockSize < offset + len →
    offset < home * self.blockSize + self.blockSize → copy.inside self.blockSize self.sourceLen

theorem length_homeImage : self.homeImage.length = self.sourceLen := List.length_drop

/-- Reading from the homes inside the source. -/
theorem readHome_eq {offset len : Nat} (inside : offset + len ≤ self.sourceLen)
    : self.readHome offset len = .ok (slice self.homeImage offset len) := by
  have based := self.based
  have bounded := self.bounded
  unfold sourceLen at inside
  unfold readHome offsetOf
  rw [if_pos (by unfold u64Max; omega)]
  have placed : slice self.src (self.base + offset * 1) len = slice self.homeImage offset len := by
    rw [slice, slice, homeImage, List.drop_drop, Nat.mul_one]
  by_cases none_ : len = 0
  · subst none_
    simp [slice]
  · simp only [none_, if_false, placed]
    rw [if_pos (by omega)]

/-- A read from the homes reaches no further than the source. -/
theorem inside_of_readHome {offset len : Nat} {bytes : Bytes} (some_ : 0 < len)
    (read : self.readHome offset len = .ok bytes) : offset + len ≤ self.sourceLen := by
  unfold readHome offsetOf at read
  unfold sourceLen
  grind

/-- The blocks a replayed journal puts in the homes from `first` to `last`, read from the log. -/
def copiesOf (first last : Nat) : Except ReadError (List (Nat × Bytes)) :=
  (self.overlay.range first last).mapM fun entry =>
    (self.copyBlock entry.2).map fun block => (entry.1, block)

/-- A copy inside the source is the block recovery puts in its home. -/
theorem copyBlock_eq {copy : Copy} (held : copy.inside self.blockSize self.sourceLen)
    : self.copyBlock copy = .ok (recoveredBlock self.blockSize self.homeImage copy) := by
  have bounded := self.bounded
  have within := held
  unfold Copy.inside sourceLen at within
  unfold copyBlock offsetOf
  rw [if_pos (by unfold u64Max; omega), Nat.zero_add]
  simp only [self.readHome_eq held]
  rfl

/-- A copy that was read lies inside the source. -/
theorem inside_of_copyBlock {copy : Copy} {block : Bytes}
    (read : self.copyBlock copy = .ok block) : copy.inside self.blockSize self.sourceLen := by
  have sized := self.blockSized
  unfold copyBlock at read
  split at read
  · cases read
  next at_ placed =>
    obtain ⟨bytes, home, -⟩ := bind_eq_ok.mp read
    have inside := self.inside_of_readHome (by omega) home
    unfold offsetOf at placed
    split at placed
    · cases placed
      rw [Nat.zero_add] at inside
      exact inside
    · cases placed

theorem length_copyBlock {copy : Copy} {block : Bytes} (read : self.copyBlock copy = .ok block)
    : block.length = self.blockSize := by
  have held := self.inside_of_copyBlock read
  rw [self.copyBlock_eq held] at read
  cases read
  exact length_recoveredBlock (self.length_homeImage ▸ held)

/-- The blocks put in a range of homes are copies the log holds of homes in that range. -/
theorem mem_copiesOf {first last : Nat} {blocks : List (Nat × Bytes)}
    (copied : self.copiesOf first last = .ok blocks) {block : Nat × Bytes}
    (member : block ∈ blocks)
    : first ≤ block.1 ∧ block.1 ≤ last ∧ ∃ copy, self.overlay.get? block.1 = some copy
      ∧ self.copyBlock copy = .ok block.2 := by
  obtain ⟨⟨home, copy⟩, isEntry, read⟩ := exists_of_mem_mapM copied block member
  obtain ⟨found, low, high⟩ := (self.overlay.mem_range_iff).mp isEntry
  cases answered : self.copyBlock copy with
  | error error =>
      rw [answered] at read
      cases read
  | ok bytes =>
      rw [answered] at read
      cases read
      exact ⟨low, high, copy, found, answered⟩

/-- Reading inside the source reads the image with the copies of the blocks the range meets laid
over it, where the log has them.
-/
theorem readAt_eq {offset len : Nat} (inside : offset + len ≤ self.sourceLen) (some_ : 0 < len)
    : self.readAt offset len
      = (self.copiesOf (offset / self.blockSize) ((offset + len - 1) / self.blockSize)).map
          fun blocks => slice (putBlocks self.blockSize self.homeImage blocks) offset len := by
  have fits : offset + len ≤ self.homeImage.length := self.length_homeImage ▸ inside
  have sized := self.blockSized
  have window := length_slice fits
  have stop : satAdd offset len = offset + len := by
    have bounded := self.bounded
    unfold sourceLen at inside
    unfold satAdd u64Max
    omega
  unfold readAt
  rw [self.readHome_eq inside]
  by_cases none_ : self.overlay.entries = []
  · have noCopies : self.copiesOf (offset / self.blockSize)
        ((offset + len - 1) / self.blockSize) = .ok [] := by
      unfold copiesOf SortedMap.range
      rw [none_]
      rfl
    rw [noCopies]
    simp [none_, bind, Except.bind, pure, Except.pure, Except.map, putBlocks]
  · simp only [bind, Except.bind, gt_iff_lt, some_, ne_eq, none_, not_false_eq_true, and_self,
      if_true]
    have laid : self.layOver offset (slice self.homeImage offset len)
        = (self.copiesOf (offset / self.blockSize)
            ((offset + len - 1) / self.blockSize)).map
            (List.foldl
              (fun window block => putClipped self.blockSize offset (offset + len) window
                block.1 block.2)
              (slice self.homeImage offset len)) := by
      unfold copiesOf
      rw [← foldlM_eq_mapM_foldl]
      unfold layOver
      simp only [window, stop]
      congr 1
      funext bytes entry
      simp only [putClipped]
      cases self.copyBlock entry.2 <;> rfl
    rw [laid]
    cases copied : self.copiesOf (offset / self.blockSize)
        ((offset + len - 1) / self.blockSize) with
    | error error => rfl
    | ok blocks =>
        have met : blocks.filter (Splice.meets self.blockSize offset len) = blocks := by
          apply List.filter_eq_self.mpr
          intro block member
          obtain ⟨low, high, -⟩ := self.mem_copiesOf copied member
          simp [Splice.meets, low, high]
        have lengths : ∀ block ∈ blocks, block.2.length = self.blockSize := by
          intro block member
          obtain ⟨-, -, copy, -, read⟩ := self.mem_copiesOf copied member
          exact self.length_copyBlock read
        have windowed := slice_putBlocks (by omega) some_ lengths fits
        rw [met] at windowed
        exact congrArg Except.ok windowed.symm

/-- A read that answered lies inside the source. -/
theorem inside_of_readAt {offset len : Nat} {bytes : Bytes} (some_ : 0 < len)
    (read : self.readAt offset len = .ok bytes) : offset + len ≤ self.sourceLen := by
  obtain ⟨home, fromHome, -⟩ := bind_eq_ok.mp read
  exact self.inside_of_readHome some_ fromHome

/-- A home a range meets is one of the homes its first and last bytes fall in or between. -/
theorem meets_iff {offset len home : Nat} (some_ : 0 < len)
    : (offset / self.blockSize ≤ home ∧ home ≤ (offset + len - 1) / self.blockSize)
      ↔ (home * self.blockSize < offset + len
        ∧ offset < home * self.blockSize + self.blockSize) := by
  have sized := self.blockSized
  rw [Nat.le_div_iff_mul_le (by omega), Nat.div_le_iff_le_mul_add_pred (by omega),
    Nat.mul_comm self.blockSize home]
  omega

/-- Where every copy a range takes is in reach, they are the copies the recovery in place lays
over it.
-/
theorem copiesOf_eq {offset len : Nat} (some_ : 0 < len) (reach : self.CopiesInReach offset len)
    : self.copiesOf (offset / self.blockSize) ((offset + len - 1) / self.blockSize)
      = .ok ((heldCopies self.blockSize self.homeImage self.overlay.entries).filter
          (Splice.meets self.blockSize offset len)) := by
  have each : ∀ entry ∈ self.overlay.range (offset / self.blockSize)
        ((offset + len - 1) / self.blockSize),
      entry.2.inside self.blockSize self.sourceLen := by
    rintro ⟨home, copy⟩ member
    obtain ⟨found, met⟩ := (self.overlay.mem_range_iff).mp member
    obtain ⟨low, high⟩ := (self.meets_iff some_).mp met
    exact reach home copy found low high
  unfold copiesOf
  rw [mapM_eq_ok fun entry member => by rw [self.copyBlock_eq (each entry member)]; rfl]
  unfold heldCopies
  rw [List.filter_map, List.filter_filter, self.length_homeImage]
  unfold SortedMap.range at each ⊢
  congr 2
  apply List.filter_congr
  intro entry member
  cases met : (decide (offset / self.blockSize ≤ entry.1)
      && decide (entry.1 ≤ (offset + len - 1) / self.blockSize)) with
  | false => simp [Splice.meets, met]
  | true =>
      have held := each entry (List.mem_filter.mpr ⟨member, met⟩)
      simp [Splice.meets, met, held]

/-- A read whose copies are all in reach reads the recovered image. -/
theorem readAt_recovered (apart : self.LogApart) {offset len : Nat}
    (inside : offset + len ≤ self.sourceLen) (reach : self.CopiesInReach offset len)
    : self.readAt offset len = .ok (slice self.recoveredImage offset len) := by
  have sized := self.blockSized
  have fits : offset + len ≤ self.homeImage.length := self.length_homeImage ▸ inside
  by_cases none_ : len = 0
  · subst none_
    unfold readAt
    rw [self.readHome_eq inside]
    simp [slice, bind, Except.bind, pure, Except.pure]
  · have some_ : 0 < len := Nat.pos_of_ne_zero none_
    have entriesApart : ∀ home ∈ self.overlay.entries, ∀ entry ∈ self.overlay.entries,
        home.1 ≠ entry.2.at_ := by
      rintro ⟨home, other⟩ isHome ⟨from_, copy⟩ isEntry same
      have noHome := apart from_ copy ((self.overlay.mem_entries_iff).mp isEntry)
      have isMapped := (self.overlay.mem_entries_iff).mp isHome
      rw [← same, isMapped] at noHome
      cases noHome
    have lengths : ∀ block ∈ heldCopies self.blockSize self.homeImage self.overlay.entries,
        block.2.length = self.blockSize := fun block member => length_of_mem_heldCopies member
    rw [self.readAt_eq inside some_, self.copiesOf_eq some_ reach, recoveredImage,
      recoverImage_eq entriesApart]
    apply congrArg Except.ok
    beta_reduce
    rw [slice_putBlocks (by omega) some_
        (fun block member => lengths block (List.mem_of_mem_filter member)) fits,
      slice_putBlocks (by omega) some_ lengths fits, List.filter_filter]
    simp only [Bool.and_self]

/-- A read that answered reads the recovered image: the copies it took were in reach. -/
theorem slice_of_readAt (apart : self.LogApart) {offset len : Nat} {bytes : Bytes}
    (some_ : 0 < len) (read : self.readAt offset len = .ok bytes)
    : bytes = slice self.recoveredImage offset len := by
  have inside := self.inside_of_readAt some_ read
  have reach : self.CopiesInReach offset len := by
    intro home copy found low high
    rw [self.readAt_eq inside some_] at read
    cases copied : self.copiesOf (offset / self.blockSize)
        ((offset + len - 1) / self.blockSize) with
    | error error =>
        rw [copied] at read
        cases read
    | ok blocks =>
        have member := (self.overlay.mem_range_iff).mpr
          ⟨found, (self.meets_iff some_).mpr ⟨low, high⟩⟩
        obtain ⟨block, answered⟩ := ok_of_mapM_eq_ok copied (home, copy) member
        cases taken : self.copyBlock copy with
        | error error =>
            simp only [taken] at answered
            cases answered
        | ok bytes => exact self.inside_of_copyBlock taken
  rw [self.readAt_recovered apart inside reach] at read
  cases read
  rfl

/-- Every block the table cache holds is the block a read answers. -/
def CacheSound : Prop :=
  self.tableCache.Holds fun block bytes =>
    self.readAt (block * self.blockSize) self.blockSize = .ok bytes

/-- A cache that holds nothing is sound. -/
theorem cacheSound_of_fresh (fresh : self.tableCache = Ext.tableCache self.blockSize)
    : self.CacheSound := by
  unfold CacheSound
  rw [fresh]
  exact BlockCache.new_holds _ _

/-- A block in reach lies inside the source. -/
theorem inside_of_blocksInReach {first count : Nat}
    (reach : self.blocksInReach first count = true)
    : first * self.blockSize + count * self.blockSize ≤ self.sourceLen ∧ 0 < count := by
  unfold blocksInReach offsetOf at reach
  simp only [Bool.and_eq_true, decide_eq_true_eq] at reach
  obtain ⟨⟨⟨-, some_⟩, -⟩, within⟩ := reach
  refine ⟨?_, some_⟩
  split at within
  · rw [← Nat.add_mul]
    simpa using within
  · cases within

/-- Part of a block in reach, read alone, is that part of the block. -/
theorem readAt_within {offset len : Nat} (some_ : 0 < len)
    (fits : offset % self.blockSize + len ≤ self.blockSize)
    (inside : offset / self.blockSize * self.blockSize + self.blockSize ≤ self.sourceLen)
    : self.readAt offset len
      = (self.readAt (offset / self.blockSize * self.blockSize) self.blockSize).map
          fun bytes => slice bytes (offset % self.blockSize) len := by
  have sized := self.blockSized
  have split_ := Nat.div_add_mod' offset self.blockSize
  have last : (offset + len - 1) / self.blockSize = offset / self.blockSize := by
    rw [Nat.div_eq_iff (by omega)]
    omega
  have blockLast : (offset / self.blockSize * self.blockSize + self.blockSize - 1)
      / self.blockSize = offset / self.blockSize := by
    rw [Nat.div_eq_iff (by omega)]
    omega
  rw [self.readAt_eq (by omega) some_, self.readAt_eq inside (by omega), last, blockLast,
    Nat.mul_div_cancel _ (by omega)]
  cases self.copiesOf (offset / self.blockSize) (offset / self.blockSize) with
  | error error => rfl
  | ok blocks =>
      apply congrArg Except.ok
      beta_reduce
      rw [slice_slice fits, split_]

/-- A reader whose table cache has moved on to `cache`. -/
def withCache (cache : TableCache) : Reader := { self with tableCache := cache }

/-- What a table read does: it reads the bytes alone, or it answers from the block the cache holds,
or it reads the block, and holds it where that succeeds.
-/
theorem tableBytes_cases (offset len : Nat)
    : let block := offset / self.blockSize
      let part (bytes : Bytes) := slice bytes (offset % self.blockSize) len
      (self.tableBytes offset len = (self.readAt offset len, self))
      ∨ (offset % self.blockSize + len ≤ self.blockSize
        ∧ self.blocksInReach block 1 = true
        ∧ match self.tableCache.get block with
          | (some bytes, cache) =>
              self.tableBytes offset len = (.ok (part bytes), self.withCache cache)
          | (none, cache) =>
              match self.readAt (block * self.blockSize) self.blockSize with
              | .error error => self.tableBytes offset len = (.error error, self.withCache cache)
              | .ok bytes =>
                  self.tableBytes offset len
                    = (.ok (part bytes), self.withCache (cache.insert block bytes))) := by
  dsimp only
  by_cases outside : satAdd (offset % self.blockSize) len > self.blockSize
      ∨ self.blocksInReach (offset / self.blockSize) 1 = false
  · unfold tableBytes
    dsimp only
    exact .inl (if_pos outside)
  · refine .inr ?_
    have held := outside
    rw [not_or, not_lt, Bool.not_eq_false] at held
    obtain ⟨inside, -⟩ := self.inside_of_blocksInReach held.2
    refine ⟨?_, held.2, ?_⟩
    · have bounded := self.bounded
      have saturated := held.1
      unfold satAdd u64Max at saturated
      unfold sourceLen at inside
      omega
    · unfold tableBytes withCache
      dsimp only
      simp only [if_neg outside]
      cases self.tableCache.get (offset / self.blockSize) with
      | mk found cache =>
          cases found with
          | some bytes => rfl
          | none =>
              cases self.readAt (offset / self.blockSize * self.blockSize) self.blockSize <;> rfl

/-- A table read moves the cache on and changes nothing else of the reader. -/
theorem tableBytes_frame (offset len : Nat)
    : ∃ cache, (self.tableBytes offset len).2 = self.withCache cache := by
  rcases self.tableBytes_cases offset len with alone | ⟨-, -, step⟩
  · exact ⟨self.tableCache, congrArg Prod.snd alone⟩
  · grind

/-- A table read answers as a plain read does, and keeps the cache sound. -/
theorem tableBytes_spec (sound : self.CacheSound) {offset len : Nat} (some_ : 0 < len)
    : (self.tableBytes offset len).1 = self.readAt offset len
      ∧ (self.tableBytes offset len).2.CacheSound := by
  rcases self.tableBytes_cases offset len with alone | ⟨fits, reach, step⟩
  · rw [alone]
    exact ⟨rfl, sound⟩
  · obtain ⟨inside, -⟩ := self.inside_of_blocksInReach reach
    rw [Nat.one_mul] at inside
    have part := self.readAt_within some_ fits inside
    have kept := BlockCache.Holds.get sound (offset / self.blockSize)
    revert step
    cases found : self.tableCache.get (offset / self.blockSize) with
    | mk held cache =>
        rw [found] at kept
        cases held with
        | some bytes =>
            rintro step
            rw [step, part, kept.2 bytes rfl]
            exact ⟨rfl, kept.1⟩
        | none =>
            cases read : self.readAt (offset / self.blockSize * self.blockSize)
              self.blockSize with
            | error error =>
                rintro step
                rw [step, part, read]
                exact ⟨rfl, kept.1⟩
            | ok bytes =>
                rintro step
                rw [step, part, read]
                exact ⟨rfl, BlockCache.Holds.insert kept.1 read⟩

/-- What table reads answer, one after another. -/
def tableReads : Reader → List (Nat × Nat) → List (Except ReadError Bytes)
  | _, [] => []
  | self, (offset, len) :: rest =>
      let (read, after) := self.tableBytes offset len
      read :: tableReads after rest

/-- Table reads answer as plain reads do, however many the cache has served, by induction on them.
-/
theorem tableReads_eq (sound : self.CacheSound) {requests : List (Nat × Nat)}
    (some_ : ∀ request ∈ requests, 0 < request.2)
    : self.tableReads requests = requests.map fun request => self.readAt request.1 request.2 := by
  induction requests generalizing self with
  | nil => rfl
  | cons request rest ih =>
      obtain ⟨offset, len⟩ := request
      obtain ⟨answered, stillSound⟩ :=
        self.tableBytes_spec sound (some_ (offset, len) List.mem_cons_self)
      obtain ⟨cache, moved⟩ := self.tableBytes_frame offset len
      unfold tableReads
      dsimp only
      rw [ih _ stillSound fun other member => some_ other (List.mem_cons_of_mem _ member),
        answered, moved, List.map_cons]
      rfl

/-- Every read answers with the bytes of `image`: plain reads, which are refused only where a copy
they take is out of reach, table reads through the cache, numbered blocks, and runs of blocks.
-/
structure ReadsAs (reader : Reader) (image : Bytes) : Prop where
  reads : ∀ offset len, offset + len ≤ reader.sourceLen → reader.CopiesInReach offset len →
    reader.readAt offset len = .ok (slice image offset len)
  answers : ∀ offset len bytes, reader.readAt offset len = .ok bytes →
    bytes = slice image offset len
  tables : ∀ requests : List (Nat × Nat), (∀ request ∈ requests, 0 < request.2) →
    reader.tableReads requests = requests.map fun request => reader.readAt request.1 request.2
  blocks : ∀ block bytes, reader.block block = .ok bytes →
    bytes = slice image (block * reader.blockSize) reader.blockSize
  runs : ∀ run bytes, reader.readRun run = .ok (some bytes) →
    bytes = slice image (run.phys * reader.blockSize) (run.len * reader.blockSize)

/-- A read of nothing answers nothing. -/
theorem readAt_zero {offset : Nat} {bytes : Bytes} (read : self.readAt offset 0 = .ok bytes)
    : bytes = [] := by
  obtain ⟨home, fromHome, same⟩ := bind_eq_ok.mp read
  rw [if_neg (by simp)] at same
  cases same
  unfold readHome at fromHome
  split at fromHome
  · cases fromHome
  · rw [if_pos rfl] at fromHome
    cases fromHome
    rfl

/-- A block that was read is one plain read of it. -/
theorem block_eq {block : Nat} {bytes : Bytes} (read : self.block block = .ok bytes)
    : self.readAt (block * self.blockSize) self.blockSize = .ok bytes := by
  obtain ⟨-, -, whole⟩ := bind_eq_ok.mp read
  split at whole
  · cases whole
  next start placed =>
    unfold offsetOf at placed
    split at placed <;> cases placed
    rw [Nat.zero_add] at whole
    unfold relabel at whole
    split at whole
    · cases whole
    · exact whole

/-- A run that was read is one plain read of its blocks. -/
theorem readRun_eq {run : Run} {bytes : Bytes} (read : self.readRun run = .ok (some bytes))
    : self.readAt (run.phys * self.blockSize) (run.len * self.blockSize) = .ok bytes := by
  unfold readRun at read
  split at read
  · cases read
  · split at read
    next start len placed sized =>
      unfold offsetOf at placed sized
      split at placed <;> cases placed
      split at sized <;> cases sized
      simp only [Nat.zero_add] at read
      cases whole : self.readAt (run.phys * self.blockSize) (run.len * self.blockSize) with
      | error error =>
          rw [whole] at read
          cases read
      | ok block =>
          rw [whole] at read
          cases read
          rfl
    next => cases read

/-- A reader with a journal laid over its homes reads the recovered image. -/
theorem readsAs_recoveredImage (sound : self.CacheSound) (apart : self.LogApart)
    : self.ReadsAs self.recoveredImage where
  reads _ _ inside reach := self.readAt_recovered apart inside reach
  answers offset len bytes read := by
    by_cases none_ : len = 0
    · subst none_
      rw [self.readAt_zero read]
      simp [slice]
    · exact self.slice_of_readAt apart (Nat.pos_of_ne_zero none_) read
  tables _ some_ := self.tableReads_eq sound some_
  blocks block bytes read := by
    have sized := self.blockSized
    exact self.slice_of_readAt apart (by omega) (self.block_eq read)
  runs run bytes read := by
    have whole := self.readRun_eq read
    have sized := self.blockSized
    unfold readRun at read
    split at read
    · cases read
    next several =>
      have many : 0 < run.len := by
        rw [not_or, not_or] at several
        omega
      exact self.slice_of_readAt apart (Nat.mul_pos many (by omega)) whole

end Reader

end Ferrosys.Ext
