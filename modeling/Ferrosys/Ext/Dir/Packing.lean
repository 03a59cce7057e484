import Ferrosys.Ext.Dir

/-! What a block of packed entries holds, and that a linear walk over it reads them back. -/

namespace Ferrosys.Ext

open Splice Machine

namespace DirEntry

/-- What an entry's record occupies where another follows it. -/
def need (self : DirEntry) : Nat := minRecLen self.name.length

/-- An entry a directory holds: it names an inode, by a name of at most 255 bytes. -/
structure Listed (entry : DirEntry) : Prop where
  inode : entry.inode ≠ 0
  short : entry.name.length ≤ 255

end DirEntry

/-- What entries occupy packed one behind the other. -/
def needs (entries : List DirEntry) : Nat := (entries.map DirEntry.need).sum

/-- The records of entries packed one behind the other. -/
def records (entries : List DirEntry) : Bytes := entries.flatMap fun entry => entry.record entry.need

theorem records_cons (entry : DirEntry) (rest : List DirEntry)
    : records (entry :: rest) = entry.record entry.need ++ records rest := rfl

/-- The bytes of the tail that closes a block of entries. -/
def tailBytes (tailLen : Nat) : Bytes := if tailLen = 0 then [] else dirTail 0

/-- The tails a block of entries has. -/
def HasTail (tailLen : Nat) : Prop := tailLen = 0 ∨ tailLen = dirTailLen

theorem length_tailBytes {tailLen : Nat} (tailed : HasTail tailLen)
    : (tailBytes tailLen).length = tailLen := by
  rcases tailed with rfl | rfl <;> rfl

@[simp] theorem needs_nil : needs [] = 0 := rfl

@[simp] theorem needs_cons (entry : DirEntry) (rest : List DirEntry)
    : needs (entry :: rest) = entry.need + needs rest := rfl

@[simp] theorem needs_append (first second : List DirEntry)
    : needs (first ++ second) = needs first + needs second := by
  rw [needs, List.map_append, List.sum_append, needs, needs]

/-- A packed record covers its entry, in a multiple of four bytes. -/
theorem DirEntry.Listed.need_spec {entry : DirEntry} (listed : entry.Listed)
    : 8 + entry.name.length ≤ entry.need ∧ entry.need % 4 = 0 ∧ entry.need ≤ 264 :=
  minRecLen_spec listed.short

section

variable {entries : List DirEntry} (listed : ∀ entry ∈ entries, entry.Listed)

include listed

/-- Packed records are as long as they need, by induction on the entries. -/
theorem length_records : (records entries).length = needs entries := by
  induction entries with
  | nil => rfl
  | cons entry rest ih =>
      have here := listed entry List.mem_cons_self
      have later := ih fun other member => listed other (List.mem_cons_of_mem _ member)
      rw [records_cons, List.length_append, DirEntry.length_record here.need_spec.1, needs_cons,
        later]

theorem needs_mod : needs entries % 4 = 0 := by
  induction entries with
  | nil => rfl
  | cons entry rest ih =>
      have here := (listed entry List.mem_cons_self).need_spec.2.1
      have later := ih fun other member => listed other (List.mem_cons_of_mem _ member)
      rw [needs_cons]
      omega

theorem length_le_needs : entries.length ≤ needs entries := by
  induction entries with
  | nil => exact Nat.le_refl 0
  | cons entry rest ih =>
      have here := (listed entry List.mem_cons_self).need_spec.1
      have later := ih fun other member => listed other (List.mem_cons_of_mem _ member)
      rw [needs_cons, List.length_cons]
      omega

/-- A walk reads packed records one after another, by induction on them. -/
theorem run_records {blockSize : Nat} (block : blockSize < 2 ^ 16) {more : Bytes}
    {found : List DirEntry} (turns : Nat)
    : Loop.run (walkTurn blockSize) (entries.length + turns) ⟨records entries ++ more, found⟩
      = Loop.run (walkTurn blockSize) turns ⟨more, found ++ entries⟩ := by
  induction entries generalizing found with
  | nil =>
      rw [List.length_nil, Nat.zero_add, List.append_nil]
      rfl
  | cons entry rest ih =>
      have here := listed entry List.mem_cons_self
      obtain ⟨covers, aligned, small⟩ := here.need_spec
      have later := @ih (fun other member => listed other (List.mem_cons_of_mem _ member))
        (found ++ [entry])
      have cut : records (entry :: rest) ++ more
          = entry.head entry.need ++ (zeros (entry.need - (8 + entry.name.length))
            ++ (records rest ++ more)) := by
        simp only [records, List.flatMap_cons, DirEntry.record, List.append_assoc]
      have passed : (entry.head entry.need ++ (zeros (entry.need - (8 + entry.name.length))
          ++ (records rest ++ more))).drop entry.need = records rest ++ more := by
        rw [← List.append_assoc]
        refine List.drop_left' ?_
        rw [List.length_append, DirEntry.length_head, length_zeros]
        omega
      rw [List.length_cons, Nat.add_right_comm, cut,
        run_head here.short aligned covers (by omega) block (by
          rw [List.length_append, List.length_append, DirEntry.length_head, length_zeros]
          omega), passed, if_neg here.inode, later]
      rw [List.append_assoc, List.singleton_append]

omit listed in
/-- Packing an entry takes its record from the zeros of a block. -/
theorem packEntry_eq {entry : DirEntry} (here : entry.Listed) {blockSize : Nat}
    (block : blockSize < 2 ^ 16) {front : Bytes} {n lastOff : Nat} (room : entry.need ≤ n)
    : packEntry blockSize ⟨front ++ zeros n, front.length, lastOff⟩ entry
      = .ok ⟨front ++ entry.record entry.need ++ zeros (n - entry.need),
          front.length + entry.need, front.length⟩ := by
  obtain ⟨covers, aligned, small⟩ := here.need_spec
  have fits : ¬ (front ++ zeros n).length < front.length + entry.need := by
    rw [List.length_append, length_zeros]
    omega
  have blank : slice (front ++ zeros n) front.length entry.need = zeros entry.need := by
    rw [← Nat.add_zero front.length, slice_append_right, slice, List.drop_zero, zeros,
      List.take_replicate, Nat.min_eq_left (by omega), zeros]
  have written := DirEntry.writeTo_zeros here.short aligned (Nat.le_refl entry.need) (by omega)
    block
  have long : (entry.record entry.need).length = entry.need := DirEntry.length_record covers
  simp only [packEntry]
  change (if (front ++ zeros n).length < front.length + entry.need then _ else _) = _
  rw [if_neg fits]
  change (encoded (entry.writeTo (slice (front ++ zeros n) front.length entry.need)
    entry.need blockSize) >>= _) = _
  rw [blank, written]
  change Except.ok (Packing.mk (splice (front ++ zeros n) front.length _) _ _) = _
  rw [splice_zeros rfl (by omega), long, List.append_assoc]
  rfl

/-- Packing entries behind what a block holds, by induction on them. -/
theorem foldlM_packEntry {blockSize : Nat} (block : blockSize < 2 ^ 16) {front : Bytes}
    {n lastOff : Nat} (room : needs entries ≤ n)
    : ∃ lastOff', entries.foldlM (packEntry blockSize) ⟨front ++ zeros n, front.length, lastOff⟩
        = .ok ⟨front ++ records entries ++ zeros (n - needs entries),
            front.length + needs entries, lastOff'⟩ := by
  induction entries generalizing front n lastOff with
  | nil =>
      refine ⟨lastOff, ?_⟩
      rw [records, List.flatMap_nil, List.append_nil]
      rfl
  | cons entry rest ih =>
      have here := listed entry List.mem_cons_self
      rw [needs_cons] at room
      obtain ⟨lastOff', later⟩ := @ih (fun other member =>
        listed other (List.mem_cons_of_mem _ member)) (front ++ entry.record entry.need)
        (n - entry.need) front.length (by omega)
      rw [List.length_append, DirEntry.length_record here.need_spec.1] at later
      refine ⟨lastOff', ?_⟩
      rw [List.foldlM_cons, packEntry_eq here block (by omega)]
      refine later.trans ?_
      rw [records_cons, needs_cons, ← List.append_assoc, Nat.sub_sub, Nat.add_assoc]

end

/-- A walk passes over the tail of a block and ends. -/
theorem run_tail {blockSize tailLen turns : Nat} (tailed : HasTail tailLen)
    (block : blockSize < 2 ^ 16) {found : List DirEntry}
    : Loop.run (walkTurn blockSize) (turns + 2) ⟨tailBytes tailLen, found⟩ = some (.ok found) := by
  rcases tailed with rfl | rfl
  · rfl
  · have len : recLenFromDisk (getU16 (dirTail 0) 4) blockSize = dirTailLen := by
      rw [recLenFromDisk, if_pos (show blockSize < 65536 from block)]
      rfl
    have read : DirEntry.readFrom (dirTail 0) blockSize = .ok (⟨0, .unknown, []⟩, dirTailLen) := by
      rw [DirEntry.readFrom, len]
      rfl
    have turn : walkTurn blockSize ⟨dirTail 0, found⟩ = .go ⟨[], found⟩ := by
      have some_ : (dirTail 0).isEmpty = false := rfl
      simp only [walkTurn, some_, Bool.false_eq_true, if_false, read]
      rfl
    rw [Loop.run, show tailBytes dirTailLen = dirTail 0 from rfl, turn]
    rfl

/-- The records of one block: those before the last as they are packed, and the last stretched to the
end of the usable area.
-/
def packed (before : List DirEntry) (last : DirEntry) (usable : Nat) : Bytes :=
  records before ++ last.record (usable - needs before)

/-- Closing a block stretches its last record and writes the tail behind it. -/
theorem closeBlock_eq {before : List DirEntry} {last : DirEntry} {usable tailLen : Nat}
    (listed : ∀ entry ∈ before ++ [last], entry.Listed) (tailed : HasTail tailLen)
    (block : usable + tailLen < 2 ^ 16) (fits : needs (before ++ [last]) ≤ usable)
    : closeBlock (records (before ++ [last]) ++ zeros (usable + tailLen - needs (before ++ [last])))
        (needs before) usable tailLen
      = .ok (packed before last usable ++ tailBytes tailLen) := by
  have here := listed last (List.mem_append_right _ List.mem_cons_self)
  have earlier := fun entry member => listed entry (List.mem_append_left [last] member)
  obtain ⟨covers, -, -⟩ := here.need_spec
  have front := length_records earlier
  rw [needs_append, needs_cons, needs_nil] at fits ⊢
  let stretched := usable - needs before
  have blank : zeros (last.need - (8 + last.name.length))
      ++ zeros (usable + tailLen - (needs before + (last.need + 0)))
        = zeros (stretched - (8 + last.name.length)) ++ zeros tailLen := by
    rw [← zeros_add, ← zeros_add]
    congr 1
    omega
  let rest := [UInt8.ofNat last.name.length] ++ ([UInt8.ofNat last.fileType.toU8] ++ last.name)
  have cut : records (before ++ [last]) ++ zeros (usable + tailLen - (needs before + (last.need + 0)))
      = (records before ++ toLeBytes32 last.inode.toNat) ++ toLeBytes16 last.need
        ++ (rest ++ (zeros (stretched - (8 + last.name.length)) ++ zeros tailLen)) := by
    rw [← blank]
    simp only [records, List.flatMap_append, List.flatMap_cons, List.flatMap_nil, DirEntry.record,
      DirEntry.head, rest, List.append_assoc, List.append_nil]
  have stretch : putU16 (records (before ++ [last])
        ++ zeros (usable + tailLen - (needs before + (last.need + 0)))) (needs before + 4) stretched
      = packed before last usable ++ zeros tailLen := by
    have at_ : needs before + 4 = (records before ++ toLeBytes32 last.inode.toNat).length := by
      rw [List.length_append, front, length_toLeBytes32]
    rw [cut, at_, putU16, splice_between (by rfl)]
    simp only [packed, DirEntry.record, DirEntry.head, rest, stretched, List.append_assoc]
  have long : (packed before last usable).length = usable := by
    rw [packed, List.length_append, front, DirEntry.length_record (by omega)]
    omega
  have whole : (records (before ++ [last])
      ++ zeros (usable + tailLen - (needs before + (last.need + 0)))).length = usable + tailLen := by
    have := congrArg List.length stretch
    rw [length_putU16] at this
    rw [this, List.length_append, long, length_zeros]
  have said : recLenToDisk (usable - needs before) (usable + tailLen) = stretched := by
    rw [recLenToDisk, if_pos (show usable + tailLen < 65536 from block)]
    exact Nat.min_eq_left (by omega)
  simp only [closeBlock, whole, said, stretch]
  rcases tailed with rfl | rfl
  · rw [if_pos rfl]
    rfl
  · have tail : slice (packed before last usable ++ zeros dirTailLen) usable dirTailLen
        = zeros dirTailLen := by
      have moved := slice_append_right (packed before last usable) (zeros dirTailLen) 0 dirTailLen
      rw [Nat.add_zero, long] at moved
      exact moved
    rw [if_neg (by decide), tail, writeDirTail_zeros]
    refine congrArg Except.ok ?_
    exact @splice_zeros _ (dirTail 0) _ dirTailLen long.symm (Nat.le_refl _)

/-- Entries that fit are packed in a block that a walk reads back, behind which lies the tail. -/
theorem packOneBlock_ok {entries : List DirEntry} {blockSize tailLen : Nat}
    (some_ : entries ≠ []) (listed : ∀ entry ∈ entries, entry.Listed) (tailed : HasTail tailLen)
    (block : blockSize < 2 ^ 16) (aligned : blockSize % 4 = 0) (within : tailLen ≤ blockSize)
    (fits : needs entries ≤ blockSize - tailLen)
    : ∃ bytes, packOneBlock entries blockSize tailLen = .ok bytes ∧ bytes.length = blockSize
        ∧ bytes.drop (blockSize - tailLen) = tailBytes tailLen ∧ walkBlock bytes = .ok entries := by
  obtain ⟨before, last, rfl⟩ : ∃ before last, entries = before ++ [last] :=
    ⟨_, _, (List.dropLast_append_getLast some_).symm⟩
  have here := listed last (List.mem_append_right _ List.mem_cons_self)
  have earlier := fun entry member => listed entry (List.mem_append_left [last] member)
  obtain ⟨usable, rfl⟩ := Nat.exists_eq_add_of_le' within
  rw [Nat.add_sub_cancel] at fits ⊢
  rw [needs_append, needs_cons, needs_nil, Nat.add_zero] at fits
  obtain ⟨covers, -, small⟩ := here.need_spec
  have front := length_records earlier
  obtain ⟨lastOff, begun⟩ := @foldlM_packEntry before earlier (usable + tailLen) block []
    (usable + tailLen) 0 (by omega)
  have ended := @packEntry_eq last here (usable + tailLen) block (records before)
    (usable + tailLen - needs before) lastOff (by omega)
  have closed := closeBlock_eq listed tailed block
    (by rw [needs_append, needs_cons, needs_nil]; omega)
  have packs : packOneBlock (before ++ [last]) (usable + tailLen) tailLen
      = .ok (packed before last usable ++ tailBytes tailLen) := by
    have reached : (before ++ [last]).foldlM (packEntry (usable + tailLen))
        ⟨zeros (usable + tailLen), 0, 0⟩
        = .ok ⟨records (before ++ [last])
            ++ zeros (usable + tailLen - needs (before ++ [last])),
          needs before + last.need, needs before⟩ := by
      simp only [List.nil_append, List.length_nil, Nat.zero_add] at begun
      rw [front] at ended
      rw [List.foldlM_append, begun]
      change [last].foldlM (packEntry (usable + tailLen)) _ = _
      rw [List.foldlM_cons, ended, needs_append, needs_cons, needs_nil, Nat.add_zero, ← Nat.sub_sub,
        records, records, List.flatMap_append, List.flatMap_cons, List.flatMap_nil,
        List.append_nil]
      rfl
    rw [packOneBlock, reached, ← closed, Nat.add_sub_cancel]
    rfl
  have long : (packed before last usable).length = usable := by
    rw [packed, List.length_append, front, DirEntry.length_record (by omega)]
    omega
  refine ⟨_, packs, ?_, ?_, ?_⟩
  · rw [List.length_append, long, length_tailBytes tailed]
  · exact List.drop_left' long
  · have count := length_le_needs earlier
    have mod := needs_mod earlier
    have usableMod : usable % 4 = 0 := by
      rcases tailed with rfl | rfl
      · exact aligned
      · unfold dirTailLen at aligned
        omega
    let stretched := usable - needs before
    have whole : (packed before last usable ++ tailBytes tailLen).length = usable + tailLen := by
      rw [List.length_append, long, length_tailBytes tailed]
    have cut : packed before last usable ++ tailBytes tailLen
        = records before ++ (last.head stretched
            ++ (zeros (stretched - (8 + last.name.length)) ++ tailBytes tailLen)) := by
      simp only [packed, DirEntry.record, stretched, List.append_assoc]
    have passed : (last.head stretched ++ (zeros (stretched - (8 + last.name.length))
        ++ tailBytes tailLen)).drop stretched = tailBytes tailLen := by
      rw [← List.append_assoc]
      refine List.drop_left' ?_
      rw [List.length_append, DirEntry.length_head, length_zeros]
      omega
    have room : stretched ≤ (last.head stretched ++ (zeros (stretched - (8 + last.name.length))
        ++ tailBytes tailLen)).length := by
      rw [List.length_append, List.length_append, DirEntry.length_head, length_zeros]
      omega
    obtain ⟨turns, enough⟩ := Nat.exists_eq_add_of_le
      (show before.length + 3 ≤ usable + tailLen + 1 by omega)
    rw [walkBlock, whole, enough, cut, show before.length + 3 + turns
      = before.length + (turns + 2 + 1) by omega, run_records earlier block,
      run_head here.short (by omega) (by omega) (by omega) block room, passed, if_neg here.inode,
      List.nil_append, run_tail tailed block]
    rfl

end Ferrosys.Ext
