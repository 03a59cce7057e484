import Ferrosys.Library.Checked
import Ferrosys.Library.Drain
import Ferrosys.Library.Splice
import Ferrosys.Tree
import Mathlib.Tactic.Ring

/-! Draining a filesystem into an archive, a member for each name. A member's header states a
length and its body is drained out of the filesystem until the reader answers with nothing, so
the two agree only where the reader yields what the walk reported.
-/

namespace Ferrosys.Archive

open Checked

inductive EntryType where
  | xHeader
  | regular
  | link
  | symlink
  | char
  | block
  | directory
  | fifo
deriving DecidableEq

/-- Why an archive could not be written. -/
inductive ArchiveError (ε : Type) where
  | read (error : ε)
  | limitExceeded (path : Bytes) (size cap : Nat)
  | unrepresentable (path : Bytes)
  | deviceUnrepresentable (path : Bytes) (major minor : Nat)
  | xattrNameUnrepresentable (path name : Bytes)
deriving DecidableEq

/-- The largest device number a header holds: eight octal digits filling its field. -/
def deviceMax : Nat := 0o77777777

/-- One archive member: what the header and its records say, and the node a body comes from. -/
structure Member (ν α : Type) where
  path : Bytes
  kind : NodeKind
  attrs : α
  hardlink : Option Bytes
  symlink : Option Bytes
  node : ν
deriving DecidableEq

/-- What a member's header says. -/
structure Header (α : Type) where
  entryType : EntryType
  size : Fin (2 ^ 64)
  name : Bytes
  target : Option Bytes
  attrs : α
deriving DecidableEq

/-- The records that go before a member, as the extension header's body holds them. -/
abbrev Records := { records : Bytes // records.length < 2 ^ 64 }

/-- One member as it was written: the records before it, its header, and the body copied out of
the filesystem.
-/
structure Written (ν α : Type) where
  member : Member ν α
  records : Records
  header : Header α
  body : Bytes

/-- The name a path takes inside an archive. A directory's ends in a slash. -/
def memberName (path : Bytes) (directory : Bool) : Bytes :=
  0x2E :: path ++ if directory then [0x2F] else []

def DeviceFits (major minor : Nat) : Prop := major ≤ deviceMax ∧ minor ≤ deviceMax

instance (major minor : Nat) : Decidable (DeviceFits major minor) :=
  inferInstanceAs (Decidable (_ ∧ _))

/-- The node is one an archive has a member for. -/
def representable {ε : Type} (path : Bytes) : NodeKind → Except (ArchiveError ε) Unit
  | .socket => .error (.unrepresentable path)
  | .charDevice major minor | .blockDevice major minor =>
      if DeviceFits major minor then .ok () else .error (.deviceUnrepresentable path major minor)
  | _ => .ok ()

section

variable {σ ν α ε : Type} (tree : FsTree σ ν α ε)

/-- A failure of the filesystem, as the sink reports it. -/
def orRead {β : Type} : Except ε β → Except (ArchiveError ε) β
  | .ok answer => .ok answer
  | .error error => .error (.read error)

/-- The first name each shared node was written under. -/
abbrev Named := List (Nat × Bytes)

/-- The member this name is a second name for, and the names met with this one among them. -/
def hardlinkOf (entry : TreeEntry ν) (named : Named) : Option Bytes × Named :=
  match entry.shared with
  | none => (none, named)
  | some id =>
      match named.lookup id with
      | some first => (some (memberName first false), named)
      | none => (none, (id, entry.path) :: named)

/-- The target of a link that is written as one. -/
def symlinkOf (reader : σ) (entry : TreeEntry ν) (hardlink : Option Bytes)
    : Except (ArchiveError ε) (Option Bytes × σ) :=
  if entry.kind = .symlink ∧ hardlink = none then do
    let (target, reader) ← orRead (tree.linkTarget reader entry.node)
    return (some target, reader)
  else .ok (none, reader)

/-- Everything one walk entry contributes to the archive. -/
def Member.of (reader : σ) (entry : TreeEntry ν) (named : Named)
    : Except (ArchiveError ε) (Member ν α × Named × σ) := do
  representable entry.path entry.kind
  let (attrs, reader) ← orRead (tree.stat reader entry.node)
  let (symlink, reader) ← symlinkOf tree reader entry (hardlinkOf entry named).1
  return (⟨entry.path, entry.kind, attrs, (hardlinkOf entry named).1, symlink, entry.node⟩,
    (hardlinkOf entry named).2, reader)

/-- The type a member's header records. A socket has none. -/
def Member.entryType (m : Member ν α) : Except (ArchiveError ε) EntryType :=
  if m.hardlink.isSome then .ok .link
  else
    match m.kind with
    | .directory => .ok .directory
    | .file _ => .ok .regular
    | .symlink => .ok .symlink
    | .charDevice _ _ => .ok .char
    | .blockDevice _ _ => .ok .block
    | .fifo => .ok .fifo
    | .socket => .error (.unrepresentable m.path)

/-- The length a member's header states: what the walk reported, and nothing for a second
name.
-/
def Member.size (m : Member ν α) : Fin (2 ^ 64) :=
  match m.kind, m.hardlink with
  | .file size, none => size
  | _, _ => 0

/-- Append one member. `window` is how much of the body each turn of the copy asks for, and
`records` is what the member's extension header holds, which an attribute's name can refuse.
-/
def append (window : Nat → Nat) (records : Member ν α → Except (ArchiveError ε) Records)
    (reader : σ) (m : Member ν α) : Except (ArchiveError ε) (Written ν α × σ) := do
  let entryType ← m.entryType
  let records ← records m
  let header : Header α :=
    ⟨entryType, m.size, memberName m.path (m.kind == .directory), m.hardlink <|> m.symlink,
      m.attrs⟩
  if tree.checkFileSize m.size = false then
    .error (.limitExceeded m.path m.size tree.maxFileBytes)
  else if m.size = 0 then return (⟨m, records, header, []⟩, reader)
  else do
    let (body, reader) ←
      orRead (Drain.drain m.size (tree.readBytes m.node) window reader)
    return (⟨m, records, header, body⟩, reader)

/-- A sink part of the way through a walk. -/
structure Progress (σ ν α : Type) where
  reader : σ
  named : Named
  written : List (Written ν α)

/-- One entry of the walk: the member it becomes, or nothing where the format makes it. -/
def visit (window : Nat → Nat) (records : Member ν α → Except (ArchiveError ε) Records)
    (progress : Progress σ ν α) (entry : TreeEntry ν)
    : Except (ArchiveError ε) (Progress σ ν α) :=
  if madeByTheFormat entry.path tree.family then .ok progress
  else do
    let (m, named, reader) ← Member.of tree progress.reader entry progress.named
    let (written, reader) ← append tree window records reader m
    return ⟨reader, named, progress.written ++ [written]⟩

/-- One turn of the walk that writes an archive. -/
def turn (window : Nat → Nat) (records : Member ν α → Except (ArchiveError ε) Records)
    (progress : Progress σ ν α)
    : Loop.Next (Progress σ ν α) (Except (ArchiveError ε) (List (Written ν α))) :=
  match tree.next progress.reader with
  | .error error => .stop (.error (.read error))
  | .ok none => .stop (.ok progress.written)
  | .ok (some (entry, reader)) =>
      match visit tree window records { progress with reader } entry with
      | .error error => .stop (.error error)
      | .ok progress => .go progress

/-- Write a filesystem's whole tree, given up after so many entries of the walk. -/
def writeTree (window : Nat → Nat) (records : Member ν α → Except (ArchiveError ε) Records)
    (turns : Nat) (reader : σ) : Option (Except (ArchiveError ε) (List (Written ν α))) :=
  Loop.run (turn tree window records) turns ⟨reader, [], []⟩

end

/-- The member was written under a name of its own, with a body to follow its header. -/
def Member.HasBody {ν α : Type} (m : Member ν α) (size : Fin (2 ^ 64)) : Prop :=
  m.kind = .file size ∧ m.hardlink = none

/-- The body is exactly as long as the header states. -/
def Written.Framed {ν α : Type} (w : Written ν α) : Prop := w.body.length = w.header.size

end Ferrosys.Archive

/-! An archive's bytes: each member as a header block, its body and the padding to the next
block, and a reader that frames them by the lengths the headers state. What a header block looks
like is the archive format's own and is a parameter here.
-/

namespace Ferrosys.Archive

open Splice

def block : Nat := 512

/-- The archive format's header block: it is one block, it is not the end-of-archive marker, and
the length it states is read back from it.
-/
structure TarFormat (α : Type) where
  encode : Header α → Bytes
  entrySize : Bytes → Option Nat
  length_encode : ∀ header, (encode header).length = block
  marked : ∀ header, (encode header).all (· == 0) = false
  entrySize_encode : ∀ header, entrySize (encode header) = some header.size.val

/-- The bytes that carry a body up to the next block. -/
def padding (len : Nat) : Nat := (block - len % block) % block

/-- A header block and the body that follows it. -/
abbrev Frame := Bytes × Bytes

def Frame.bytes (frame : Frame) : Bytes :=
  frame.1 ++ frame.2 ++ List.replicate (padding frame.2.length) 0

/-- What an archive of these frames holds, with the marker that ends it. -/
def archiveBytes (frames : List Frame) : Bytes :=
  frames.flatMap Frame.bytes ++ List.replicate (2 * block) 0

/-- What a member that was written puts in the archive: its records under a header of their own,
then its own header and body.
-/
def Written.frames {ν α : Type} (format : TarFormat α) (w : Written ν α) : List Frame :=
  [(format.encode ⟨.xHeader, ⟨w.records.1.length, w.records.2⟩, [], none, w.header.attrs⟩,
      w.records.1),
    (format.encode w.header, w.body)]

inductive FrameError where
  | insideBlock
  | unreadableSize
  | insideBody
deriving DecidableEq

/-- Frame an archive's bytes by the lengths its headers state, up to the marker that ends it or a
clean end. `blocks` is more than the blocks there are.
-/
def readFrames (entrySize : Bytes → Option Nat)
    : (blocks : Nat) → Bytes → Except FrameError (List Frame)
  | 0, _ => .ok []
  | blocks + 1, bytes =>
      if bytes.length = 0 then .ok []
      else if bytes.length < block then .error .insideBlock
      else if (bytes.take block).all (· == 0) then .ok []
      else
        match entrySize (bytes.take block) with
        | none => .error .unreadableSize
        | some size =>
            let rest := bytes.drop block
            if size + padding size > rest.length then .error .insideBody
            else do
              let more ← readFrames entrySize blocks (rest.drop (size + padding size))
              return (bytes.take block, rest.take size) :: more

/-- Framing the archive's bytes gives back the frames that were written. -/
def TarFormat.Rereads {ν α : Type} (format : TarFormat α) (archive : List (Written ν α)) : Prop :=
  let frames := archive.flatMap (Written.frames format)
  readFrames format.entrySize ((archiveBytes frames).length + 1) (archiveBytes frames) = .ok frames

/-- A frame whose body is as long as its header states. -/
def Frame.Sound (entrySize : Bytes → Option Nat) (frame : Frame) : Prop :=
  entrySize frame.1 = some frame.2.length

/-- A frame that was read is sound, by induction on the blocks. -/
theorem sound_of_readFrames {entrySize : Bytes → Option Nat} {blocks : Nat} {bytes : Bytes}
    {frames : List Frame} (read : readFrames entrySize blocks bytes = .ok frames)
    : ∀ frame ∈ frames, frame.Sound entrySize := by
  induction blocks generalizing bytes frames with
  | zero =>
      cases read
      simp
  | succ blocks ih =>
      rw [readFrames] at read
      split at read
      · cases read
        simp
      · split at read
        · cases read
        · split at read
          · cases read
            simp
          · split at read
            · cases read
            · next size stated =>
                dsimp only at read
                split at read
                · cases read
                · next inside =>
                    obtain ⟨more, rest, read⟩ := Checked.bind_eq_ok.mp read
                    cases read
                    intro frame member
                    rcases List.mem_cons.mp member with rfl | later
                    · have long : ((bytes.drop block).take size).length = size := by
                        rw [List.length_take]
                        omega
                      exact stated.trans (congrArg some long.symm)
                    · exact ih rest frame later

/-- Sound frames are read back as they were written, by induction on the frames. -/
theorem readFrames_archiveBytes {entrySize : Bytes → Option Nat} {frames : List Frame}
    (headers : ∀ frame ∈ frames, frame.1.length = block ∧ frame.1.all (· == 0) = false)
    (sound : ∀ frame ∈ frames, frame.Sound entrySize) {blocks : Nat}
    (enough : frames.length < blocks)
    : readFrames entrySize blocks (archiveBytes frames) = .ok frames := by
  induction frames generalizing blocks with
  | nil =>
      obtain ⟨blocks, rfl⟩ := Nat.exists_eq_add_of_lt enough
      simp only [readFrames, archiveBytes, List.flatMap_nil, List.nil_append,
        List.length_replicate, List.take_replicate, List.all_replicate, block]
      rfl
  | cons frame rest ih =>
      obtain ⟨blocks, rfl⟩ := Nat.exists_eq_add_of_lt (Nat.zero_lt_of_lt enough)
      have ⟨oneBlock, marked⟩ := headers frame List.mem_cons_self
      have stated := sound frame List.mem_cons_self
      have whole : archiveBytes (frame :: rest)
          = frame.1 ++ (frame.2 ++ (List.replicate (padding frame.2.length) 0
            ++ archiveBytes rest)) := by
        simp only [archiveBytes, List.flatMap_cons, Frame.bytes, List.append_assoc]
      have after := @ih (fun f member => headers f (List.mem_cons_of_mem _ member))
        (fun f member => sound f (List.mem_cons_of_mem _ member)) blocks
        (by simp only [List.length_cons] at enough; omega)
      have first : (archiveBytes (frame :: rest)).take block = frame.1 := by
        rw [whole, List.take_left' oneBlock]
      have second : (archiveBytes (frame :: rest)).drop block
          = frame.2 ++ (List.replicate (padding frame.2.length) 0 ++ archiveBytes rest) := by
        rw [whole, List.drop_left' oneBlock]
      have long : (archiveBytes (frame :: rest)).length
          = block + (frame.2.length + (padding frame.2.length + (archiveBytes rest).length)) := by
        simp only [whole, List.length_append, List.length_replicate, oneBlock]
      have past : (frame.2 ++ (List.replicate (padding frame.2.length) 0 ++ archiveBytes rest)).drop
          (frame.2.length + padding frame.2.length) = archiveBytes rest := by
        rw [← List.append_assoc]
        exact List.drop_left' (by simp only [List.length_append, List.length_replicate])
      have positive : 0 < block := by decide
      have inside : ¬ frame.2.length + padding frame.2.length
          > (frame.2 ++ (List.replicate (padding frame.2.length) 0 ++ archiveBytes rest)).length := by
        simp only [List.length_append, List.length_replicate]
        omega
      rw [Nat.zero_add, readFrames, if_neg (by omega), if_neg (by omega), first, marked,
        if_neg Bool.false_ne_true, stated]
      dsimp only
      rw [second, if_neg inside, past, after, List.take_left' rfl]
      rfl

/-- An archive is at least as long as it has frames. -/
theorem length_le_archiveBytes {frames : List Frame}
    (headers : ∀ frame ∈ frames, frame.1.length = block)
    : frames.length ≤ (archiveBytes frames).length := by
  induction frames with
  | nil => exact Nat.zero_le _
  | cons frame rest ih =>
      have more := ih fun f member => headers f (List.mem_cons_of_mem _ member)
      have oneBlock := headers frame List.mem_cons_self
      have positive : 0 < block := by decide
      simp only [archiveBytes, List.flatMap_cons, Frame.bytes, List.length_append,
        List.length_cons] at more ⊢
      omega

/-- Every frame of a member begins with one header block, which is no end marker. -/
theorem headers_of_frames {ν α : Type} (format : TarFormat α) {archive : List (Written ν α)}
    : ∀ frame ∈ archive.flatMap (Written.frames format),
      frame.1.length = block ∧ frame.1.all (· == 0) = false := by
  intro frame member
  obtain ⟨w, -, among⟩ := List.mem_flatMap.mp member
  rcases List.mem_cons.mp among with rfl | among
  · exact ⟨format.length_encode _, format.marked _⟩
  · rcases List.mem_singleton.mp among with rfl
    exact ⟨format.length_encode _, format.marked _⟩

/-- The frames of an archive are sound exactly when its bodies are as long as their headers
state.
-/
theorem sound_frames_iff {ν α : Type} (format : TarFormat α) {archive : List (Written ν α)}
    : (∀ frame ∈ archive.flatMap (Written.frames format), frame.Sound format.entrySize)
      ↔ ∀ w ∈ archive, w.Framed := by
  constructor
  · intro sound w member
    have stated := sound (format.encode w.header, w.body)
      (List.mem_flatMap.mpr ⟨w, member, List.mem_cons_of_mem _ (List.mem_singleton.mpr rfl)⟩)
    rw [Frame.Sound, format.entrySize_encode, Option.some.injEq] at stated
    exact stated.symm
  · intro framed frame member
    obtain ⟨w, isWritten, among⟩ := List.mem_flatMap.mp member
    rcases List.mem_cons.mp among with rfl | among
    · exact format.entrySize_encode _
    · rcases List.mem_singleton.mp among with rfl
      rw [Frame.Sound, format.entrySize_encode, framed w isWritten]

/-- An archive is read back as it was written exactly when every body is as long as its header
states.
-/
theorem rereads_iff {ν α : Type} (format : TarFormat α) {archive : List (Written ν α)}
    : format.Rereads archive ↔ ∀ w ∈ archive, w.Framed := by
  rw [← sound_frames_iff format]
  constructor
  · exact fun read => sound_of_readFrames read
  · intro sound
    have headers := @headers_of_frames ν α format archive
    exact readFrames_archiveBytes headers sound
      (Nat.lt_succ_of_le (length_le_archiveBytes fun frame member => (headers frame member).1))

/-- The lowest `count` digits of a number, the most significant first. -/
def digits (base : Nat) : (count : Nat) → Nat → List Nat
  | 0, _ => []
  | count + 1, n => n / base ^ count % base :: digits base count n

/-- The number digits write. -/
def number (base : Nat) (written : List Nat) : Nat :=
  written.foldl (fun value digit => value * base + digit) 0

/-- The lowest digits of a number read on from any value before them, by induction on how many. -/
theorem foldl_digits (base count value n : Nat)
    : (digits base count n).foldl (fun value digit => value * base + digit) value
      = value * base ^ count + n % base ^ count := by
  induction count generalizing value with
  | zero => simp [digits, Nat.mod_one]
  | succ count ih =>
      rw [digits, List.foldl_cons, ih, Nat.mod_pow_succ, Nat.pow_succ]
      ring

@[simp] theorem number_digits (base count n : Nat)
    : number base (digits base count n) = n % base ^ count := by
  rw [number, foldl_digits, Nat.zero_mul, Nat.zero_add]

@[simp] theorem length_digits (base count n : Nat) : (digits base count n).length = count := by
  induction count with
  | zero => rfl
  | succ count ih => rw [digits, List.length_cons, ih]

theorem lt_of_mem_digits {base count n digit : Nat} (pos : 0 < base)
    (member : digit ∈ digits base count n) : digit < base := by
  induction count with
  | zero => cases member
  | succ count ih =>
      rcases List.mem_cons.mp member with rfl | later
      · exact Nat.mod_lt _ pos
      · exact ih later

/-- Digits written as characters read back as they were, where each fits the character's range. -/
theorem map_digits (base count n : Nat) (pos : 0 < base) (shift : Nat) (fits : shift + base ≤ 256)
    : ((digits base count n).map fun digit => UInt8.ofNat (shift + digit)).map
        (fun byte => byte.toNat - shift) = digits base count n := by
  rw [List.map_map]
  refine (List.map_congr_left ?_).trans (List.map_id _)
  intro digit member
  have below := lt_of_mem_digits pos member
  simp only [Function.comp_apply, UInt8.toNat_ofNat', id_eq]
  omega

/-- A header's length field: eleven octal digits and a terminator, or past them a mark and eleven
bytes.
-/
def sizeField (size : Nat) : Bytes :=
  if size < 8 ^ 11 then (digits 8 11 size).map (fun digit => UInt8.ofNat (0x30 + digit)) ++ [0]
  else 0x80 :: (digits 256 11 size).map fun digit => UInt8.ofNat (0 + digit)

/-- The length a header's field states. -/
def readSize (field : Bytes) : Nat :=
  if field.head? = some 0x80 then number 256 (field.tail.map fun byte => byte.toNat - 0)
  else number 8 ((field.take 11).map fun byte => byte.toNat - 0x30)

/-- A 64-bit length is read back from its field. -/
theorem readSize_sizeField (size : Fin (2 ^ 64)) : readSize (sizeField size) = size := by
  simp only [sizeField]
  split
  · next octal =>
      have first : ((digits 8 11 size.val).map (fun digit => UInt8.ofNat (0x30 + digit)) ++ [0]).head?
          ≠ some 0x80 := by
        have below := Nat.mod_lt (size.val / 8 ^ 10) (by decide : 0 < 8)
        simp only [digits, List.map_cons, List.cons_append, List.head?_cons, ne_eq,
          Option.some.injEq]
        intro same
        have value := congrArg UInt8.toNat same
        simp only [UInt8.toNat_ofNat', UInt8.reduceToNat] at value
        omega
      rw [readSize, if_neg first, List.take_left' (by simp), map_digits 8 11 _ (by decide) _
        (by decide), number_digits, Nat.mod_eq_of_lt octal]
  · have narrow := size.isLt
    rw [readSize, if_pos List.head?_cons, List.tail_cons, map_digits 256 11 _ (by decide) _ (by decide),
      number_digits, Nat.mod_eq_of_lt (by omega)]

@[simp] theorem length_sizeField (size : Nat) : (sizeField size).length = 12 := by
  simp only [sizeField]
  split <;> simp

/-- The character an entry's type is recorded as. -/
def EntryType.flag : EntryType → UInt8
  | xHeader => 0x78
  | regular => 0x30
  | link => 0x31
  | symlink => 0x32
  | char => 0x33
  | block => 0x34
  | directory => 0x35
  | fifo => 0x36

/-- What stands before the length field: a name that fits, and fields framing does not read. -/
def headerStart (name : Bytes) : Bytes :=
  (if name.length ≤ 100 then name ++ List.replicate (100 - name.length) 0
    else List.replicate 100 0) ++ List.replicate 24 0

@[simp] theorem length_headerStart (name : Bytes) : (headerStart name).length = 124 := by
  simp only [headerStart]
  split
  · simp only [List.length_append, List.length_replicate]
    omega
  · simp only [List.length_append, List.length_replicate]

/-- The format's mark and its version. -/
def ustarMark : Bytes := [0x75, 0x73, 0x74, 0x61, 0x72, 0, 0x30, 0x30]

/-- The format's own header block, as far as framing reads one: the length where the format puts
it, the type, and the format's mark.
-/
def ustar (α : Type) : TarFormat α where
  encode header :=
    headerStart header.name ++ (sizeField header.size ++ (List.replicate 20 0
      ++ header.entryType.flag :: (List.replicate 100 0 ++ (ustarMark ++ List.replicate 247 0))))
  entrySize bytes := some (readSize (slice bytes 124 12))
  length_encode header := by
    simp only [List.length_append, List.length_cons, List.length_replicate, length_headerStart,
      length_sizeField, ustarMark, List.length_nil, block]
  marked header := by
    refine List.all_eq_false.mpr ⟨0x75, ?_, by decide⟩
    simp only [ustarMark, List.mem_append, List.mem_cons, true_or, or_true]
  entrySize_encode header := by
    rw [slice, List.drop_left' (length_headerStart _), List.take_left' (length_sizeField _),
      readSize_sizeField]

end Ferrosys.Archive
