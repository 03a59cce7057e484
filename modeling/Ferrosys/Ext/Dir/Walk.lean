import Ferrosys.Ext.Dir.Packing

/-! A linear walk over a directory's blocks, however they were laid out: it reads every entry, and
what else the blocks hold is hidden from it.
-/

namespace Ferrosys.Ext

open Splice Machine Chunks

/-- The entries a linear walk finds in a directory's blocks, one block after another. -/
def walkBlocks (blocks : List DirBlock) : Except (Fault ParseError) (List DirEntry) := do
  let found ← blocks.mapM fun block => walkBlock block.bytes
  return found.flatten

/-- A block is of its size, and keeps its checksum tail free: a block of entries ends in its bytes,
and an index block's slots end before it, where it has one.
-/
def Reserves (tailLen blockSize : Nat) (block : DirBlock) : Prop :=
  block.bytes.length = blockSize ∧
    match block.kind with
    | .entries => block.bytes.drop (blockSize - tailLen) = tailBytes tailLen
    | .index countOffset limit =>
        tailLen ≠ 0 → dxTailOffset countOffset limit + dxTailLen ≤ blockSize
          ∧ slice block.bytes (dxTailOffset countOffset limit) dxTailLen = zeros dxTailLen

/-- Blocks that keep their tails free and read back as `entries`. -/
structure Reads (tailLen blockSize : Nat) (blocks : List DirBlock) (entries : List DirEntry)
    : Prop where
  reserves : ∀ block ∈ blocks, Reserves tailLen blockSize block
  walks : walkBlocks blocks = .ok entries

section

variable {tailLen blockSize : Nat}

theorem reads_nil : Reads tailLen blockSize [] [] := ⟨nofun, rfl⟩

theorem reads_singleton {block : DirBlock} {entries : List DirEntry}
    (reserves : Reserves tailLen blockSize block) (walks : walkBlock block.bytes = .ok entries)
    : Reads tailLen blockSize [block] entries := by
  refine ⟨fun other member => List.mem_singleton.mp member ▸ reserves, ?_⟩
  simp only [walkBlocks, List.mapM_cons, List.mapM_nil, walks]
  exact congrArg Except.ok (List.append_nil entries)

/-- Blocks read back one after the other. -/
theorem Reads.append {first second : List DirBlock} {one two : List DirEntry}
    (reads : Reads tailLen blockSize first one) (more : Reads tailLen blockSize second two)
    : Reads tailLen blockSize (first ++ second) (one ++ two) := by
  refine ⟨fun block member => (List.mem_append.mp member).elim (reads.reserves block)
    (more.reserves block), ?_⟩
  obtain ⟨found, walked, same⟩ := Checked.bind_eq_ok.mp reads.walks
  obtain ⟨later, walkedLater, sameLater⟩ := Checked.bind_eq_ok.mp more.walks
  obtain rfl : found.flatten = one := Except.ok.inj same
  obtain rfl : later.flatten = two := Except.ok.inj sameLater
  rw [walkBlocks]
  rw [List.mapM_append, walked, walkedLater]
  exact congrArg Except.ok List.flatten_append

/-- The sizes a directory's blocks have. -/
structure BlockSized (tailLen blockSize : Nat) : Prop where
  tailed : HasTail tailLen
  least : 1024 ≤ blockSize
  aligned : blockSize % 4 = 0
  small : blockSize < 2 ^ 16

theorem BlockSized.tail_le (sized : BlockSized tailLen blockSize) : tailLen ≤ 12 := by
  rcases sized.tailed with rfl | rfl
  · exact Nat.zero_le _
  · exact Nat.le_refl _

/-- Every entry fits a block. -/
theorem recordLen_ok (sized : BlockSized tailLen blockSize) {entry : DirEntry}
    (listed : entry.Listed) : recordLen entry blockSize tailLen = .ok entry.need := by
  have tail := sized.tail_le
  have least := sized.least
  have small := listed.need_spec.2.2
  have fits : ¬ blockSize - tailLen < minRecLen entry.name.length := by
    change ¬ blockSize - tailLen < entry.need
    omega
  rw [recordLen, refuseIf, decide_eq_false fits]
  rfl

/-- Entries that fit one block are packed in one that reads back. -/
theorem packOneBlock_reads (sized : BlockSized tailLen blockSize) {entries : List DirEntry}
    (some_ : entries ≠ []) (listed : ∀ entry ∈ entries, entry.Listed)
    (fits : needs entries ≤ blockSize - tailLen)
    : ∃ bytes, packOneBlock entries blockSize tailLen = .ok bytes
        ∧ Reads tailLen blockSize [⟨bytes, .entries⟩] entries := by
  have tail := sized.tail_le
  have least := sized.least
  obtain ⟨bytes, packs, long, closes, walks⟩ := packOneBlock_ok some_ listed sized.tailed
    sized.small sized.aligned (by omega) fits
  exact ⟨bytes, packs, reads_singleton ⟨long, closes⟩ walks⟩

namespace LinearDir

/-- What laying entries has come to: the blocks closed read back, and with the block that is open
they make up the entries laid.
-/
structure Laid (tailLen blockSize : Nat) (done : List DirEntry) (laying : Laying) : Prop where
  entries : ∃ earlier, Reads tailLen blockSize laying.blocks earlier ∧ done = earlier ++ laying.cur
  used : laying.used = needs laying.cur
  fits : laying.used ≤ blockSize - tailLen

/-- Placing one more entry. -/
theorem place_laid (sized : BlockSized tailLen blockSize) {done : List DirEntry} {laying : Laying}
    (laid : Laid tailLen blockSize done laying) {entry : DirEntry} (listed : entry.Listed)
    (earlier : ∀ other ∈ done, other.Listed)
    : ∃ next, place ⟨tailLen⟩ blockSize laying entry = .ok next
        ∧ Laid tailLen blockSize (done ++ [entry]) next := by
  obtain ⟨closed, reads, rfl⟩ := laid.entries
  have used := laid.used
  have fits := laid.fits
  have small := listed.need_spec.2.2
  have tail := sized.tail_le
  have least := sized.least
  by_cases full : blockSize - tailLen < laying.used + entry.need ∧ laying.cur ≠ []
  · obtain ⟨bytes, packs, block⟩ := packOneBlock_reads sized full.2
      (fun other member => earlier other (List.mem_append_right _ member)) (used ▸ fits)
    refine ⟨⟨laying.blocks ++ [⟨bytes, .entries⟩], [entry], entry.need⟩, ?_,
      ⟨_, reads.append block, rfl⟩, (Nat.add_zero _).symm, by change entry.need ≤ _; omega⟩
    simp only [place, recordLen_ok sized listed, Checked.ok_bind, if_pos full, packs]
    rfl
  · refine ⟨⟨laying.blocks, laying.cur ++ [entry], laying.used + entry.need⟩, ?_,
      ⟨closed, reads, List.append_assoc _ _ _⟩, ?_, ?_⟩
    · simp only [place, recordLen_ok sized listed, Checked.ok_bind, if_neg full]
      rfl
    · change laying.used + entry.need = needs (laying.cur ++ [entry])
      rw [used, needs_append, needs_cons, needs_nil]
      rfl
    · change laying.used + entry.need ≤ _
      by_cases open_ : laying.cur = []
      · rw [used, open_, needs_nil]
        omega
      · exact Nat.not_lt.mp fun over_ => full ⟨over_, open_⟩

/-- Laying entries one after another, by induction on them. -/
theorem foldlM_place (sized : BlockSized tailLen blockSize) {entries done : List DirEntry}
    {laying : Laying} (laid : Laid tailLen blockSize done laying)
    (listed : ∀ entry ∈ done ++ entries, entry.Listed)
    : ∃ last, entries.foldlM (place ⟨tailLen⟩ blockSize) laying = .ok last
        ∧ Laid tailLen blockSize (done ++ entries) last := by
  induction entries generalizing done laying with
  | nil => exact ⟨laying, rfl, (List.append_nil done).symm ▸ laid⟩
  | cons entry rest ih =>
      obtain ⟨next, placed, kept⟩ := place_laid sized laid
        (listed entry (List.mem_append_right _ List.mem_cons_self))
        (fun other member => listed other (List.mem_append_left _ member))
      obtain ⟨last, ran, ended⟩ := ih kept (by
        rw [List.append_assoc, List.singleton_append]
        exact listed)
      rw [List.append_assoc, List.singleton_append] at ended
      refine ⟨last, ?_, ended⟩
      rw [List.foldlM_cons, placed]
      exact ran

/-- A linear directory's blocks read back as its entries, in order. -/
theorem buildBlocks_reads (sized : BlockSized tailLen blockSize) {entries : List DirEntry}
    (listed : ∀ entry ∈ entries, entry.Listed)
    : ∃ blocks, buildBlocks ⟨tailLen⟩ blockSize entries = .ok blocks
        ∧ Reads tailLen blockSize blocks entries := by
  have tail := sized.tail_le
  have least := sized.least
  obtain ⟨last, ran, laid⟩ := @foldlM_place tailLen blockSize sized entries [] ⟨[], [], 0⟩
    ⟨⟨[], reads_nil, rfl⟩, rfl, Nat.zero_le _⟩ listed
  obtain ⟨earlier, reads, same⟩ := laid.entries
  rw [List.nil_append] at same
  simp only [buildBlocks]
  rw [refuseIf, decide_eq_false (by omega), ran]
  by_cases open_ : last.cur = []
  · refine ⟨last.blocks, ?_, ?_⟩
    · change (if last.cur = [] then _ else _) = _
      rw [if_pos open_]
      rfl
    · rw [same, open_, List.append_nil]
      exact reads
  · obtain ⟨bytes, packs, block⟩ := packOneBlock_reads sized open_
      (fun other member => listed other (same ▸ List.mem_append_right _ member))
      (laid.used ▸ laid.fits)
    refine ⟨last.blocks ++ [⟨bytes, .entries⟩], ?_, same ▸ reads.append block⟩
    change (if last.cur = [] then _ else packOneBlock last.cur blockSize tailLen >>= _) = _
    rw [if_neg open_, packs]
    rfl

end LinearDir

end

end Ferrosys.Ext

/-! The blocks of a hash-indexed directory under a linear walk: the index is hidden behind the two
dots and behind unused records, and the entry blocks hold the rest.
-/

namespace Ferrosys.Ext

open Arith Splice Machine Chunks

namespace HtreeDir

section

variable {blockSize : Nat} (self : HtreeDir)

/-- What filling entry blocks has come to: no block is empty or over its size, and with the block
being filled they make up the entries placed.
-/
structure Gathered (tailLen blockSize : Nat) (done : List Hashed) (filled : Filled) : Prop where
  entries : done = filled.leaves.flatten ++ filled.cur
  leaves : ∀ leaf ∈ filled.leaves, leaf ≠ [] ∧ needs (leaf.map Prod.snd) ≤ blockSize - tailLen
  used : filled.used = needs (filled.cur.map Prod.snd)
  fits : filled.used ≤ blockSize - tailLen

variable {self}

/-- Placing one more entry. -/
theorem place_gathered (sized : BlockSized self.tailLen blockSize) {done : List Hashed}
    {filled : Filled} (gathered : Gathered self.tailLen blockSize done filled) {hashed : Hashed}
    (listed : hashed.2.Listed)
    : ∃ next, self.place blockSize filled hashed = .ok next
        ∧ Gathered self.tailLen blockSize (done ++ [hashed]) next := by
  have used := gathered.used
  have fits := gathered.fits
  have small := listed.need_spec.2.2
  have tail := sized.tail_le
  have least := sized.least
  by_cases full : blockSize - self.tailLen < filled.used + hashed.2.need ∧ filled.cur ≠ []
  · refine ⟨⟨filled.leaves ++ [filled.cur], [hashed], hashed.2.need⟩, ?_, ⟨?_, ?_,
      (Nat.add_zero _).symm, by change hashed.2.need ≤ _; omega⟩⟩
    · simp only [place, recordLen_ok sized listed, Checked.ok_bind, if_pos full]
      rfl
    · rw [gathered.entries, List.flatten_append, List.flatten_singleton]
    · intro leaf member
      rcases List.mem_append.mp member with earlier | here
      · exact gathered.leaves leaf earlier
      · obtain rfl := List.mem_singleton.mp here
        exact ⟨full.2, used ▸ fits⟩
  · refine ⟨⟨filled.leaves, filled.cur ++ [hashed], filled.used + hashed.2.need⟩, ?_, ⟨?_,
      gathered.leaves, ?_, ?_⟩⟩
    · simp only [place, recordLen_ok sized listed, Checked.ok_bind, if_neg full]
      rfl
    · rw [gathered.entries, List.append_assoc]
    · change filled.used + hashed.2.need = _
      rw [used, List.map_append, needs_append, List.map_singleton, needs_cons, needs_nil,
        Nat.add_zero]
    · change filled.used + hashed.2.need ≤ _
      by_cases open_ : filled.cur = []
      · rw [used, open_, List.map_nil, needs_nil]
        omega
      · exact Nat.not_lt.mp fun over_ => full ⟨over_, open_⟩

/-- Filling entry blocks with one entry after another, by induction on them. -/
theorem foldlM_place (sized : BlockSized self.tailLen blockSize) {hashed done : List Hashed}
    {filled : Filled} (gathered : Gathered self.tailLen blockSize done filled)
    (listed : ∀ entry ∈ hashed, entry.2.Listed)
    : ∃ last, hashed.foldlM (self.place blockSize) filled = .ok last
        ∧ Gathered self.tailLen blockSize (done ++ hashed) last := by
  induction hashed generalizing done filled with
  | nil => exact ⟨filled, rfl, (List.append_nil done).symm ▸ gathered⟩
  | cons entry rest ih =>
      obtain ⟨next, placed, kept⟩ := place_gathered sized gathered
        (listed entry List.mem_cons_self)
      obtain ⟨last, ran, ended⟩ := ih kept fun other member =>
        listed other (List.mem_cons_of_mem _ member)
      rw [List.append_assoc, List.singleton_append] at ended
      refine ⟨last, ?_, ended⟩
      rw [List.foldlM_cons, placed]
      exact ran

/-- The entry blocks are filled with all entries, and each with some that fit it. -/
theorem gather_ok (sized : BlockSized self.tailLen blockSize) {hashed : List Hashed}
    (listed : ∀ entry ∈ hashed, entry.2.Listed)
    : ∃ leaves, self.gather blockSize hashed = .ok leaves ∧ leaves.flatten = hashed
        ∧ ∀ leaf ∈ leaves, leaf ≠ [] ∧ needs (leaf.map Prod.snd) ≤ blockSize - self.tailLen := by
  obtain ⟨last, ran, gathered⟩ := @foldlM_place blockSize self sized hashed [] ⟨[], [], 0⟩
    ⟨rfl, nofun, rfl, Nat.zero_le _⟩ listed
  have entries := gathered.entries
  rw [List.nil_append] at entries
  rw [gather, ran]
  by_cases open_ : last.cur = []
  · refine ⟨last.leaves, ?_, ?_, gathered.leaves⟩
    · change Except.ok (if last.cur = [] then _ else _) = _
      rw [if_pos open_]
    · rw [entries, open_, List.append_nil]
  · refine ⟨last.leaves ++ [last.cur], ?_, ?_, ?_⟩
    · change Except.ok (if last.cur = [] then _ else _) = _
      rw [if_neg open_]
    · rw [entries, List.flatten_append, List.flatten_singleton]
    · intro leaf member
      rcases List.mem_append.mp member with earlier | here
      · exact gathered.leaves leaf earlier
      · obtain rfl := List.mem_singleton.mp here
        exact ⟨open_, gathered.used ▸ gathered.fits⟩

/-- Entry blocks that hold entries have their hashes, the first of which is implied. -/
theorem leafHashes_ok {leaves : List (List Hashed)} (some_ : leaves ≠ [])
    (full : ∀ leaf ∈ leaves, leaf ≠ [])
    : ∃ later, leafHashes leaves = .ok (0 :: later) ∧ (0 :: later).length = leaves.length := by
  have each : ∀ pair ∈ leaves.zip leaves.tail,
      boundary pair.1 pair.2 = .ok ((boundary pair.1 pair.2).toOption.getD 0) := by
    rintro ⟨prev, leaf⟩ member
    obtain ⟨before, behind⟩ := List.of_mem_zip member
    have last := List.getLast?_eq_getLast_of_ne_nil (full prev before)
    have first := List.head?_eq_some_head (full leaf (List.mem_of_mem_tail behind))
    simp only [boundary, last, first]
    rfl
  refine ⟨(leaves.zip leaves.tail).map fun pair => (boundary pair.1 pair.2).toOption.getD 0,
    ?_, ?_⟩
  · rw [leafHashes, Checked.mapM_eq_ok each]
    change Except.ok (if leaves = [] then _ else _) = _
    rw [if_neg some_]
  · cases leaves with
    | nil => exact absurd rfl some_
    | cons leaf rest => simp

end

end HtreeDir

section

variable {tailLen blockSize : Nat}

/-- Blocks made one by one read back one by one, by induction on what they are made of. -/
theorem mapM_reads {α : Type} {make : α → Except (Fault DirError) DirBlock}
    {holds : α → List DirEntry} {list : List α}
    (each : ∀ a ∈ list, ∃ block, make a = .ok block ∧ Reads tailLen blockSize [block] (holds a))
    : ∃ blocks, list.mapM make = .ok blocks
        ∧ Reads tailLen blockSize blocks (list.flatMap holds) := by
  induction list with
  | nil => exact ⟨[], rfl, reads_nil⟩
  | cons a rest ih =>
      obtain ⟨block, made, reads⟩ := each a List.mem_cons_self
      obtain ⟨blocks, later, more⟩ := ih fun b member => each b (List.mem_cons_of_mem _ member)
      refine ⟨block :: blocks, ?_, reads.append more⟩
      rw [List.mapM_cons, made, later]
      rfl

theorem slice_zeros {n at_ len : Nat} (inside : at_ + len ≤ n)
    : slice (zeros n) at_ len = zeros len := by
  rw [slice, zeros, List.drop_replicate, List.take_replicate, Nat.min_eq_left (by omega), zeros]

/-- The slots of an index block end before its checksum tail. -/
theorem dxTailOffset_le (checksums : Bool) {countOffset : Nat} (within : countOffset + 8 ≤ blockSize)
    : dxTailOffset countOffset (dxLimit blockSize countOffset checksums)
        + (if checksums then dxTailLen else 0) ≤ blockSize := by
  unfold dxTailOffset dxLimit dxTailLen dxEntryLen
  cases checksums
  · simp only [Bool.false_eq_true, if_false]
    omega
  · simp only [if_true]
    omega

/-- The entries of an index are written behind its header, and before its tail. -/
theorem writeDxEntries_reserves {header : Bytes} {checksums : Bool} {entries : List DxEntry}
    (within : header.length + 8 ≤ blockSize) (some_ : entries ≠ [])
    (fits : entries.length ≤ dxLimit blockSize header.length checksums)
    (implied : ∀ first ∈ entries.head?, first.hash = 0) (tailed : tailLen ≠ 0 → checksums = true)
    : ∃ more, writeDxEntries (header ++ zeros (blockSize - header.length)) header.length
          (dxLimit blockSize header.length checksums) entries = .ok (header ++ more)
        ∧ Reserves tailLen blockSize ⟨header ++ more,
          .index header.length (dxLimit blockSize header.length checksums)⟩ := by
  have tail := dxTailOffset_le checksums within
  have long : (header ++ zeros (blockSize - header.length)).length = blockSize := by
    rw [List.length_append, length_zeros]
    omega
  obtain ⟨out, wrote, kept, frame⟩ := @writeDxEntries_ok _ header.length _ _ some_ fits
    implied (by rw [long]; omega)
  have front : out.take header.length = header := by
    have same := frame 0 header.length (.inl (by omega))
    rw [slice, slice, List.drop_zero, List.drop_zero, List.take_left] at same
    exact same
  have cut : header ++ out.drop header.length = out := by
    have := List.take_append_drop header.length out
    rwa [front] at this
  refine ⟨out.drop header.length, ?_, ?_, ?_⟩
  · rw [cut]
    exact wrote
  · change (header ++ out.drop header.length).length = blockSize
    rw [cut, kept, long]
  · intro has
    obtain rfl := tailed has
    rw [if_pos rfl] at tail
    refine ⟨tail, ?_⟩
    change slice (header ++ out.drop header.length) _ _ = _
    rw [cut, frame _ _ (.inr (Nat.le_refl _))]
    obtain ⟨past, later⟩ := Nat.exists_eq_add_of_le (show header.length
      ≤ dxTailOffset header.length (dxLimit blockSize header.length true) from
        Nat.le_add_right _ _)
    rw [later] at tail
    rw [later, slice_append_right, slice_zeros (by omega)]

/-- The header of a root, and what follows it, read as the two dots. -/
theorem walkBlock_root (sized : BlockSized tailLen blockSize) {dirIno parentIno : UInt32}
    (dirSome : dirIno ≠ 0) (parentSome : parentIno ≠ 0) (hashVersion indirectLevels : Nat)
    {more : Bytes}
    (long : (rootHeader dirIno parentIno (blockSize - 12) hashVersion indirectLevels
      ++ more).length = blockSize)
    : walkBlock (rootHeader dirIno parentIno (blockSize - 12) hashVersion indirectLevels ++ more)
      = .ok [⟨dirIno, .dir, [46]⟩, ⟨parentIno, .dir, [46, 46]⟩] := by
  have least := sized.least
  have small := sized.small
  have aligned := sized.aligned
  let info := zeros 2 ++ (toLeBytes32 0 ++ ([UInt8.ofNat hashVersion] ++ ([UInt8.ofNat 8]
    ++ ([UInt8.ofNat indirectLevels] ++ [UInt8.ofNat 0]))))
  have cut : rootHeader dirIno parentIno (blockSize - 12) hashVersion indirectLevels ++ more
      = DirEntry.head ⟨dirIno, .dir, [46]⟩ 12 ++ (zeros 3
        ++ (DirEntry.head ⟨parentIno, .dir, [46, 46]⟩ (blockSize - 12) ++ (info ++ more))) := by
    simp only [rootHeader, info, List.append_assoc]
  have second : (DirEntry.head ⟨dirIno, .dir, [46]⟩ 12 ++ (zeros 3
      ++ (DirEntry.head ⟨parentIno, .dir, [46, 46]⟩ (blockSize - 12) ++ (info ++ more)))).drop 12
      = DirEntry.head ⟨parentIno, .dir, [46, 46]⟩ (blockSize - 12) ++ (info ++ more) := by
    rw [← List.append_assoc]
    exact List.drop_left' rfl
  have left : (DirEntry.head ⟨parentIno, .dir, [46, 46]⟩ (blockSize - 12)
      ++ (info ++ more)).length = blockSize - 12 := by
    rw [← second, List.length_drop, ← cut, long]
  have dot (turns : Nat) := @run_head blockSize turns [] ⟨dirIno, .dir, [46]⟩ 12 (zeros 3
    ++ (DirEntry.head ⟨parentIno, .dir, [46, 46]⟩ (blockSize - 12) ++ (info ++ more))) (by simp)
    (by decide) (by simp) (by decide) small (by rw [← cut, long]; omega)
  have dotdot (turns : Nat) := @run_head blockSize turns [⟨dirIno, .dir, [46]⟩]
    ⟨parentIno, .dir, [46, 46]⟩ (blockSize - 12) (info ++ more) (by simp) (by omega)
    (by simp; omega) (by omega) small (by rw [left])
  obtain ⟨turns, enough⟩ := Nat.exists_eq_add_of_le' (show 3 ≤ blockSize + 1 by omega)
  rw [walkBlock, long, enough, cut, dot, second, if_neg dirSome, List.nil_append, dotdot,
    List.drop_of_length_le (by rw [left]), if_neg parentSome]
  rfl

/-- An unused record that spans a block reads as nothing. -/
theorem walkBlock_node (sized : BlockSized tailLen blockSize) {more : Bytes}
    (long : (DirEntry.head ⟨0, .unknown, []⟩ blockSize ++ more).length = blockSize)
    : walkBlock (DirEntry.head ⟨0, .unknown, []⟩ blockSize ++ more) = .ok [] := by
  have least := sized.least
  have unused (turns : Nat) := @run_head blockSize turns [] ⟨0, .unknown, []⟩ blockSize more
    (by decide) sized.aligned (by simp; omega) sized.small sized.small (by rw [long])
  obtain ⟨turns, enough⟩ := Nat.exists_eq_add_of_le' (show 2 ≤ blockSize + 1 by omega)
  rw [walkBlock, long, enough, unused, List.drop_of_length_le (by rw [long])]
  rfl

end

namespace HtreeDir

section

variable {self : HtreeDir} {blockSize : Nat}

/-- A tail is kept exactly where the filesystem has checksums. -/
theorem checksums_of_tailLen (has : self.tailLen ≠ 0) : self.checksums = true := by
  unfold tailLen at has
  split at has
  next on => exact on
  next => exact absurd rfl has

/-- A directory's blocks have the sizes of its tail. -/
theorem hasTail : HasTail self.tailLen := by
  unfold tailLen
  split
  next => exact .inr rfl
  next => exact .inl rfl

/-- A node over some of the entry blocks reads as nothing. -/
theorem nodeBlock_reads (sized : BlockSized self.tailLen blockSize) {children : List DxEntry}
    (some_ : children ≠ [])
    (fits : children.length ≤ dxLimit blockSize dxNodeCountOffset self.checksums)
    : ∃ block, nodeBlock blockSize (dxLimit blockSize dxNodeCountOffset self.checksums) children
          = .ok block
        ∧ Reads self.tailLen blockSize [block] [] := by
  have least := sized.least
  cases children with
  | nil => exact absurd rfl some_
  | cons first rest =>
      obtain ⟨more, wrote, reserves⟩ := @writeDxEntries_reserves self.tailLen blockSize
        (DirEntry.head ⟨0, .unknown, []⟩ blockSize) self.checksums
        ({ first with hash := 0 } :: rest) (by change 16 ≤ _; omega) (List.cons_ne_nil _ _) fits
        (fun other same => Option.some.inj same ▸ rfl) checksums_of_tailLen
      have size : (DirEntry.head ⟨0, .unknown, []⟩ blockSize).length = dxNodeCountOffset := rfl
      rw [size] at wrote reserves
      refine ⟨⟨_, .index dxNodeCountOffset _⟩, ?_,
        reads_singleton reserves (walkBlock_node sized reserves.1)⟩
      have header := @writeDxNodeHeader_zeros blockSize (by unfold dxNodeCountOffset; omega)
      simp only [nodeBlock, header]
      change (encoded (writeDxEntries _ dxNodeCountOffset _ _) >>= _) = _
      rw [wrote]
      rfl

/-- Numbered children open with the hash of the first. -/
theorem childEntries_cons (first : Nat) (hash : UInt32) (later : List UInt32)
    : ∃ rest, childEntries first (hash :: later) = ⟨hash, UInt32.ofNat first⟩ :: rest := by
  rw [childEntries, List.zipIdx_cons, List.map_cons]
  exact ⟨_, rfl⟩

@[simp] theorem length_childEntries (first : Nat) (hashes : List UInt32)
    : (childEntries first hashes).length = hashes.length := by
  rw [childEntries, List.length_map, List.length_zipIdx]

/-- The first of the pieces a list is cut into opens with the list's first element. -/
theorem chunks_cons {α : Type} {n : Nat} (pos : 0 < n) (a : α) (rest : List α)
    : ∃ piece later, chunks n (a :: rest) = (a :: piece) :: later := by
  obtain ⟨n, rfl⟩ := Nat.exists_eq_add_of_le' pos
  exact ⟨_, _, rfl⟩

/-- What a root names is what it has room for: its nodes, or its entry blocks where they are few
enough. The first is implied.
-/
theorem rootEntries_ok {rootLimit nodeLimit : Nat} (pos : 0 < nodeLimit) {first : Nat}
    {later : List UInt32} {deep : Bool}
    (shallow : deep = false → (0 :: later).length ≤ rootLimit)
    (fits : deep = true → divCeil (0 :: later).length nodeLimit ≤ rootLimit)
    {entries : List DxEntry}
    (made : entries = if deep
      then childEntries 1 ((if deep then chunks nodeLimit (childEntries first (0 :: later)) else []).map
        fun group => (group.head?.map DxEntry.hash).getD 0)
      else childEntries first (0 :: later))
    : entries ≠ [] ∧ entries.length ≤ rootLimit ∧ ∀ entry ∈ entries.head?, entry.hash = 0 := by
  obtain ⟨rest, children⟩ := childEntries_cons first 0 later
  have count := length_childEntries first (0 :: later)
  cases deep with
  | false =>
      rw [if_neg (by decide)] at made
      rw [made, count, children]
      exact ⟨List.cons_ne_nil _ _, shallow rfl, fun entry same => Option.some.inj same ▸ rfl⟩
  | true =>
      rw [if_pos rfl, if_pos rfl] at made
      have groups := length_chunks pos (childEntries first (0 :: later))
      obtain ⟨piece, others, cut⟩ := chunks_cons pos ⟨0, UInt32.ofNat first⟩ rest
      rw [count] at groups
      have long : entries.length ≤ rootLimit := by
        rw [made, length_childEntries, List.length_map, groups]
        exact fits rfl
      rw [children, cut, List.map_cons] at made
      obtain ⟨named, opened⟩ := childEntries_cons 1 0 (others.map
        fun group => (group.head?.map DxEntry.hash).getD 0)
      refine ⟨?_, long, ?_⟩
      · rw [made]
        exact opened ▸ List.cons_ne_nil _ _
      · intro entry same
        rw [made] at same
        change entry ∈ (childEntries 1 (0 :: _)).head? at same
        rw [opened] at same
        exact Option.some.inj same ▸ rfl

/-- The index over some entry blocks reads as the two dots, wherever it can name all of them. -/
theorem indexBlocks_reads (sized : BlockSized self.tailLen blockSize) {dot dotdot : DirEntry}
    (dotSome : dot.inode ≠ 0) (dotdotSome : dotdot.inode ≠ 0) (later : List UInt32)
    : (∃ index, self.indexBlocks blockSize dot dotdot (0 :: later) = .ok index
        ∧ Reads self.tailLen blockSize index
          [⟨dot.inode, .dir, [46]⟩, ⟨dotdot.inode, .dir, [46, 46]⟩])
      ∨ dxLimit blockSize dxRootCountOffset self.checksums < (0 :: later).length
        ∧ ∃ capacity, self.indexBlocks blockSize dot dotdot (0 :: later)
            = .error (.refused (.indexTooLarge (0 :: later).length capacity)) := by
  have least := sized.least
  have nodePos : 0 < dxLimit blockSize dxNodeCountOffset self.checksums := by
    simp only [dxLimit, dxNodeCountOffset, dxEntryLen]
    split <;> omega
  simp only [indexBlocks]
  generalize rooted : dxLimit blockSize dxRootCountOffset self.checksums = rootLimit
  generalize nodal : dxLimit blockSize dxNodeCountOffset self.checksums = nodeLimit at nodePos
  generalize deepened : decide (rootLimit < (0 :: later).length) = deep
  generalize counted : (if deep then divCeil (0 :: later).length nodeLimit else 0) = nodeCount
  by_cases large : rootLimit < nodeCount
  · right
    have deep_ : deep = true := by
      by_contra no
      rw [if_neg no] at counted
      omega
    rw [deep_, decide_eq_true_eq] at deepened
    refine ⟨deepened, rootLimit * nodeLimit, ?_⟩
    rw [refuseIf, decide_eq_true large]
    rfl
  · left
    rw [refuseIf, decide_eq_false large]
    generalize grouped : (if deep then chunks nodeLimit (childEntries (1 + nodeCount) (0 :: later))
      else []) = groups
    have each : ∀ group ∈ groups, ∃ block, nodeBlock blockSize nodeLimit group = .ok block
        ∧ Reads self.tailLen blockSize [block] [] := by
      intro group member
      have cut : group ∈ chunks nodeLimit (childEntries (1 + nodeCount) (0 :: later)) := by
        rw [← grouped] at member
        split at member
        next => exact member
        next => cases member
      obtain ⟨some_, fits⟩ := mem_chunks nodePos cut
      rw [← nodal] at fits ⊢
      exact nodeBlock_reads sized some_ fits
    obtain ⟨nodes, made, nodesRead⟩ := mapM_reads each
    generalize listed : (if deep then childEntries 1 (groups.map
      fun group => (group.head?.map DxEntry.hash).getD 0)
      else childEntries (1 + nodeCount) (0 :: later)) = entries
    obtain ⟨some_, fits, implied⟩ := @rootEntries_ok rootLimit nodeLimit nodePos (1 + nodeCount)
      later deep
      (fun shallow => by
        rw [shallow, decide_eq_false_iff_not] at deepened
        exact Nat.not_lt.mp deepened)
      (fun deep_ => by
        rw [if_pos deep_] at counted
        omega)
      entries (by rw [← listed, ← grouped])
    have header := writeDxRootHeader_zeros dot.inode dotdot.inode self.version.toU8
      (if deep then 1 else 0) (show dxRootCountOffset ≤ blockSize by unfold dxRootCountOffset; omega)
    have size : (rootHeader dot.inode dotdot.inode (blockSize - 12) self.version.toU8
        (if deep then 1 else 0)).length = dxRootCountOffset := rfl
    obtain ⟨more, wrote, reserves⟩ := @writeDxEntries_reserves self.tailLen blockSize
      (rootHeader dot.inode dotdot.inode (blockSize - 12) self.version.toU8 (if deep then 1 else 0))
      self.checksums entries (by rw [size]; unfold dxRootCountOffset; omega) some_
      (by rw [size, rooted]; exact fits) implied checksums_of_tailLen
    rw [size, rooted] at wrote reserves
    have root := reads_singleton reserves
      (walkBlock_root sized dotSome dotdotSome _ _ reserves.1)
    refine ⟨_ :: nodes, ?_, root.append ?_⟩
    · rw [header, made]
      change (encoded (writeDxEntries _ _ _ _) >>= _) = _
      rw [wrote]
      rfl
    · rw [List.flatMap_eq_nil_iff.mpr fun _ _ => rfl] at nodesRead
      exact nodesRead

/-- The entries in the order of their hashes are the entries. -/
theorem sortByHash_perm (entries : List DirEntry)
    : ((self.sortByHash entries).map Prod.snd).Perm entries := by
  have perm := (List.mergeSort_perm (entries.map fun entry =>
    (dirHash entry.name self.version self.signedness self.seed, entry))
      fun a b => (order a b).isLE).map Prod.snd
  rw [List.map_map] at perm
  exact perm.trans (.of_eq (List.map_id entries))

/-- Entry blocks are packed with what they were filled with. -/
theorem packed_reads (sized : BlockSized self.tailLen blockSize) {leaves : List (List Hashed)}
    (full : ∀ leaf ∈ leaves, leaf ≠ []
      ∧ needs (leaf.map Prod.snd) ≤ blockSize - self.tailLen)
    (listed : ∀ entry ∈ leaves.flatten.map Prod.snd, entry.Listed)
    : ∃ blocks, leaves.mapM (fun leaf => do
          return (⟨← packOneBlock (leaf.map Prod.snd) blockSize self.tailLen, .entries⟩ : DirBlock))
        = .ok blocks
      ∧ Reads self.tailLen blockSize blocks (leaves.flatten.map Prod.snd) := by
  rw [List.map_flatten, ← List.flatMap_def]
  refine mapM_reads fun leaf member => ?_
  obtain ⟨some_, fits⟩ := full leaf member
  obtain ⟨bytes, packs, reads⟩ := packOneBlock_reads sized
    (fun none_ => some_ (List.map_eq_nil_iff.mp none_))
    (fun entry inside => listed entry (by
      rw [List.map_flatten]
      exact List.mem_flatten.mpr ⟨_, List.mem_map_of_mem member, inside⟩)) fits
  refine ⟨⟨bytes, .entries⟩, ?_, reads⟩
  rw [packs]
  rfl

/-- What entries need is what they take up one after another, by induction on them. -/
theorem fitsInOneBlock_ok (sized : BlockSized self.tailLen blockSize) {entries : List DirEntry}
    (listed : ∀ entry ∈ entries, entry.Listed)
    : fitsInOneBlock entries blockSize self.tailLen
      = .ok (decide (needs entries ≤ blockSize - self.tailLen)) := by
  have summed (total : Nat) : entries.foldlM (fun total entry => do
      return total + (← recordLen entry blockSize self.tailLen)) total
      = (.ok (total + needs entries) : Except (Fault DirError) Nat) := by
    induction entries generalizing total with
    | nil => rfl
    | cons entry rest ih =>
        have later := ih fun other member => listed other (List.mem_cons_of_mem _ member)
        rw [List.foldlM_cons, recordLen_ok sized (listed entry List.mem_cons_self)]
        refine (later (total + entry.need)).trans ?_
        rw [needs_cons, Nat.add_assoc]
  rw [fitsInOneBlock, summed 0, Nat.zero_add]
  rfl

/-- There are no more blocks than entries in them, by induction on the blocks. -/
theorem length_le_flatten {leaves : List (List Hashed)} (full : ∀ leaf ∈ leaves, leaf ≠ [])
    : leaves.length ≤ leaves.flatten.length := by
  induction leaves with
  | nil => exact Nat.le_refl 0
  | cons leaf rest ih =>
      have some_ := List.length_pos_iff.mpr (full leaf List.mem_cons_self)
      have later := ih fun other member => full other (List.mem_cons_of_mem _ member)
      rw [List.flatten_cons, List.length_append, List.length_cons]
      omega

/-- A hash-indexed directory's blocks read back as its entries, the dots as directories where there
is an index; or it has more entry blocks than its index can name.
-/
theorem buildBlocks_reads (sized : BlockSized self.tailLen blockSize) {dot dotdot : DirEntry}
    {rest : List DirEntry} (dotName : dot.name = [46]) (dotdotName : dotdot.name = [46, 46])
    (listed : ∀ entry ∈ dot :: dotdot :: rest, entry.Listed)
    : (∃ blocks found, self.buildBlocks blockSize (dot :: dotdot :: rest) = .ok blocks
          ∧ Reads self.tailLen blockSize blocks found
          ∧ if needs (dot :: dotdot :: rest) ≤ blockSize - self.tailLen
            then found = dot :: dotdot :: rest
            else found.Perm
              ({ dot with fileType := .dir } :: { dotdot with fileType := .dir } :: rest))
      ∨ ∃ blocks capacity, dxLimit blockSize dxRootCountOffset self.checksums < blocks
          ∧ blocks ≤ rest.length ∧ self.buildBlocks blockSize (dot :: dotdot :: rest)
            = .error (.refused (.indexTooLarge blocks capacity)) := by
  have least := sized.least
  have tail := sized.tail_le
  have fitting := fitsInOneBlock_ok sized listed
  simp only [buildBlocks]
  rw [fitting]
  by_cases small : needs (dot :: dotdot :: rest) ≤ blockSize - self.tailLen
  · left
    obtain ⟨blocks, built, reads⟩ := LinearDir.buildBlocks_reads sized listed
    refine ⟨blocks, _, ?_, reads, ?_⟩
    · rw [decide_eq_true small]
      exact built
    · rw [if_pos small]
  · have later : ∀ entry ∈ rest, entry.Listed := fun entry member =>
      listed entry (List.mem_cons_of_mem _ (List.mem_cons_of_mem _ member))
    have perm := @sortByHash_perm self rest
    have hashedListed : ∀ entry ∈ self.sortByHash rest, entry.2.Listed := fun entry member =>
      later entry.2 (perm.mem_iff.mp (List.mem_map_of_mem member))
    obtain ⟨leaves, gathered, flat, full⟩ := gather_ok sized hashedListed
    -- Two dots alone would have fit one block.
    have some_ : leaves ≠ [] := by
      rintro rfl
      rw [← flat] at perm
      have none_ : rest = [] := List.nil_perm.mp perm
      have dotNeed : dot.need = 12 := by rw [DirEntry.need, dotName]; rfl
      have dotdotNeed : dotdot.need = 12 := by rw [DirEntry.need, dotdotName]; rfl
      rw [none_, needs_cons, needs_cons, needs_nil, dotNeed, dotdotNeed] at small
      omega
    obtain ⟨hashes, hashed, count⟩ := leafHashes_ok some_ fun leaf member => (full leaf member).1
    have dots : splitDots (dot :: dotdot :: rest) = .ok (dot, dotdot, rest) := by
      rw [splitDots, if_pos ⟨dotName, dotdotName⟩]
    rw [decide_eq_false small]
    simp only [Checked.ok_bind, Bool.false_eq_true, if_false, dots, gathered, hashed]
    rcases indexBlocks_reads sized (listed dot List.mem_cons_self).inode
      (listed dotdot (List.mem_cons_of_mem _ List.mem_cons_self)).inode hashes with
      ⟨index, indexed, reads⟩ | ⟨large, capacity, refused⟩
    · left
      obtain ⟨packed, packs, packedRead⟩ := packed_reads sized full (by
        rw [flat]
        exact fun entry member => later entry (perm.mem_iff.mp member))
      refine ⟨index ++ packed, _, ?_, reads.append packedRead, ?_⟩
      · rw [indexed, Checked.ok_bind, packs]
        rfl
      · rw [if_neg small, flat, List.cons_append, List.cons_append, List.nil_append, ← dotdotName,
          ← dotName]
        exact (perm.cons _).cons _
    · right
      refine ⟨_, capacity, large, ?_, ?_⟩
      · rw [count, ← perm.length_eq, List.length_map, ← flat]
        exact length_le_flatten fun leaf member => (full leaf member).1
      · rw [refused]
        rfl

end

end HtreeDir

/-- Whichever way a directory is laid out, a linear walk over its blocks consumes each exactly and
finds its entries and nothing else, in order where it is linear, and every block keeps its tail
free. A directory with more entry blocks than its index can name is refused.
-/
theorem buildBlocks_walk {blockSize : Nat}
    (size : blockSize = 1024 ∨ blockSize = 2048 ∨ blockSize = 4096) {dot dotdot : DirEntry}
    {rest : List DirEntry} (dotName : dot.name = [46]) (dotdotName : dotdot.name = [46, 46])
    (dotType : dot.fileType = .dir) (dotdotType : dotdot.fileType = .dir)
    (listed : ∀ entry ∈ dot :: dotdot :: rest, entry.Listed)
    : (∀ tailLen, HasTail tailLen
        → ∃ blocks, LinearDir.buildBlocks ⟨tailLen⟩ blockSize (dot :: dotdot :: rest) = .ok blocks
            ∧ Reads tailLen blockSize blocks (dot :: dotdot :: rest))
      ∧ ∀ self : HtreeDir,
          (∃ blocks found, self.buildBlocks blockSize (dot :: dotdot :: rest) = .ok blocks
            ∧ Reads self.tailLen blockSize blocks found ∧ found.Perm (dot :: dotdot :: rest))
          ∨ ∃ blocks capacity, dxLimit blockSize dxRootCountOffset self.checksums < blocks
            ∧ blocks ≤ rest.length ∧ self.buildBlocks blockSize (dot :: dotdot :: rest)
              = .error (.refused (.indexTooLarge blocks capacity)) := by
  have sized {tailLen : Nat} (tailed : HasTail tailLen) : BlockSized tailLen blockSize := by
    rcases size with rfl | rfl | rfl <;> exact ⟨tailed, by decide, by decide, by decide⟩
  refine ⟨fun tailLen tailed => LinearDir.buildBlocks_reads (sized tailed) listed, fun self => ?_⟩
  refine (HtreeDir.buildBlocks_reads (sized HtreeDir.hasTail) dotName dotdotName listed).imp_left ?_
  rintro ⟨blocks, found, built, reads, same⟩
  refine ⟨blocks, found, built, reads, ?_⟩
  split at same
  next => exact .of_eq same
  next =>
    have dot_ : { dot with fileType := .dir } = dot := by rw [← dotType]
    have dotdot_ : { dotdot with fileType := .dir } = dotdot := by rw [← dotdotType]
    rwa [dot_, dotdot_] at same

/-- A root directory's first entries. -/
def rootEntries : List DirEntry :=
  [⟨2, .dir, [46]⟩, ⟨2, .dir, [46, 46]⟩, ⟨11, .dir, "lost+found".toUTF8.toList⟩]

/-- At them. -/
theorem buildBlocks_walk_root
    : ∃ blocks, LinearDir.buildBlocks ⟨dirTailLen⟩ 1024 rootEntries = .ok blocks
        ∧ Reads dirTailLen 1024 blocks rootEntries :=
  (buildBlocks_walk (.inl rfl) rfl rfl rfl rfl (by
    intro entry member
    simp only [List.mem_cons, List.not_mem_nil, or_false] at member
    rcases member with rfl | rfl | rfl <;> exact ⟨by decide, by decide +kernel⟩)).1
    dirTailLen (.inr rfl)

/-- Two dots, which do not say that they are directories, and four names that fill a block. -/
def untyped : List DirEntry :=
  [⟨2, .unknown, [46]⟩, ⟨2, .unknown, [46, 46]⟩] ++
    (List.range 4).map fun i => ⟨12, .regFile, List.replicate 255 (UInt8.ofNat (97 + i))⟩

def untypedDir : HtreeDir := ⟨zeros 16, .halfMd4, .unsigned, false, rfl⟩

/-- The blocks of two dots under a tail of sixteen bytes. -/
def sixteen : Except (Fault DirError) (List DirBlock) :=
  LinearDir.buildBlocks ⟨16⟩ 1024 (rootEntries.take 2)

theorem sixteen_walked
    : sixteen.toOption.map walkBlocks = some (.error (.refused (.tooShort "DirEntry" 8 4))) := by
  decide +kernel

theorem sixteen_accepted : sixteen.isOk = true := by
  have walked := sixteen_walked
  cases built : sixteen with
  | ok blocks => rfl
  | error fault =>
      rw [built] at walked
      cases walked

theorem untyped_listed : ∀ entry ∈ untyped, entry.Listed := by
  have inodes : ∀ entry ∈ untyped, entry.inode ≠ 0 := by decide
  have names : ∀ entry ∈ untyped, entry.name.length ≤ 255 := by decide +kernel
  exact fun entry member => ⟨inodes entry member, names entry member⟩

/-- An index that can name as many blocks as there are entries gives the dots their type. -/
theorem HtreeDir.buildBlocks_retypes {self : HtreeDir} {blockSize : Nat}
    (sized : BlockSized self.tailLen blockSize) {dot dotdot : DirEntry} {rest : List DirEntry}
    (dotName : dot.name = [46]) (dotdotName : dotdot.name = [46, 46])
    (listed : ∀ entry ∈ dot :: dotdot :: rest, entry.Listed)
    (large : ¬ needs (dot :: dotdot :: rest) ≤ blockSize - self.tailLen)
    (few : rest.length ≤ dxLimit blockSize dxRootCountOffset self.checksums)
    : ∃ blocks found, self.buildBlocks blockSize (dot :: dotdot :: rest) = .ok blocks
        ∧ walkBlocks blocks = .ok found
        ∧ found.Perm ({ dot with fileType := .dir } :: { dotdot with fileType := .dir } :: rest) := by
  rcases buildBlocks_reads sized dotName dotdotName listed with
    ⟨blocks, found, built, reads, same⟩ | ⟨blocks, capacity, over_, within, -⟩
  · rw [if_neg large] at same
    exact ⟨blocks, found, built, reads.walks, same⟩
  · omega

theorem untyped_reads
    : ∃ blocks found, untypedDir.buildBlocks 1024 untyped = .ok blocks
        ∧ walkBlocks blocks = .ok found
        ∧ found.Perm (⟨2, .dir, [46]⟩ :: ⟨2, .dir, [46, 46]⟩ :: untyped.drop 2) :=
  HtreeDir.buildBlocks_retypes ⟨.inl rfl, by decide, by decide, by decide⟩ rfl rfl untyped_listed
    (by decide +kernel) (by decide)

/-- A tail of sixteen bytes is accepted, and its block cannot be walked to its end; and an indexed
directory answers with its dots as directories, whatever they were.
-/
theorem walk_misses
    : (∃ blocks, LinearDir.buildBlocks ⟨16⟩ 1024 (rootEntries.take 2) = .ok blocks
        ∧ walkBlocks blocks = .error (.refused (.tooShort "DirEntry" 8 4)))
      ∧ ∃ blocks found, untypedDir.buildBlocks 1024 untyped = .ok blocks
        ∧ walkBlocks blocks = .ok found ∧ ¬ found.Perm untyped := by
  constructor
  · have accepted := sixteen_accepted
    have walked := sixteen_walked
    change ∃ blocks, sixteen = .ok blocks ∧ _
    cases here : sixteen with
    | error fault =>
        rw [here] at accepted
        cases accepted
    | ok blocks =>
        rw [here] at walked
        exact ⟨blocks, rfl, Option.some.inj walked⟩
  · obtain ⟨blocks, found, built, walks, same⟩ := untyped_reads
    refine ⟨blocks, found, built, walks, fun perm => ?_⟩
    -- The first dot is found with a type no entry of the list has.
    have found_ : (⟨2, .dir, [46]⟩ : DirEntry) ∈ untyped :=
      perm.mem_iff.mp (same.mem_iff.mpr List.mem_cons_self)
    exact absurd found_ (by decide)

end Ferrosys.Ext
