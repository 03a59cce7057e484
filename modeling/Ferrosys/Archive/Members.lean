import Ferrosys.Archive.Blocks
import Ferrosys.Archive.Records
import Ferrosys.Library.Machine
import Ferrosys.Library.Relate
import Mathlib.Data.List.Forall2

/-! An archive framed into the members that describe files, front to back, in one of two modes: each
body is read as it is met, or it is recorded where the body lies and the reader moves past it. What
a header block says is the archive format's own and is a parameter here.
-/

namespace Ferrosys.Archive.Blocks

open Splice Checked Loop Relate
open Machine (checkedAdd checkedAdd_eq_some)

/-- The types of a header that a reader tells apart. -/
inductive EntryType where
  | xHeader
  | gnuLongName
  | gnuLongLink
  | xGlobalHeader
  | gnuSparse
  | other (byte : UInt8)
deriving DecidableEq

/-- What the archive format answers about a header block. -/
structure HeaderFormat where
  cksum : Bytes → Option Nat
  entrySize : Bytes → Option (Fin (2 ^ 64))
  entryType : Bytes → EntryType
  pathBytes : Bytes → Bytes
  linkNameBytes : Bytes → Option Bytes

/-- A member's body, either read or located. -/
inductive MemberBody where
  | bytes (data : Bytes)
  | range (offset len : Nat)
deriving DecidableEq

/-- A member that describes a file, with everything that decorates it. -/
structure Member where
  header : Bytes
  path : Bytes
  link : Option Bytes
  records : List PaxRecord
  body : MemberBody
deriving DecidableEq

/-- A text's bytes, where all its characters are ASCII. -/
def ascii (text : String) : Bytes := text.toList.map fun c => UInt8.ofNat c.toNat

/-- The value of the last record with `key`. -/
def record (records : List PaxRecord) (key : Bytes) : Option Bytes :=
  (records.reverse.find? (·.key == key)).map PaxRecord.value

def insideBody : ArchiveError := .malformed "archive ends inside a member body"

/-- The first bytes that announce each format a stream is compressed in. -/
def magic : List (Bytes × String) :=
  [([0x1F, 0x8B], "gzip"), ([0x28, 0xB5, 0x2F, 0xFD], "zstd"),
    ([0xFD, 0x37, 0x7A, 0x58, 0x5A, 0x00], "xz"), (ascii "BZh", "bzip2"),
    ([0x04, 0x22, 0x4D, 0x18], "lz4"), ([0x5D, 0x00, 0x00], "lzma"), (0x89 :: ascii "LZO", "lzop"),
    ([0x1F, 0x9D], "compress")]

/-- The format the bytes at the head of a stream are compressed in. -/
def compression (head : Bytes) : Option String :=
  (magic.find? fun format => format.1.isPrefixOf head).map Prod.snd

/-- The next whole block at `pos` and where it ends, or nothing at a clean end. -/
def readBlock (archive : Bytes) (pos : Nat) : Except ArchiveError (Option (Bytes × Nat)) :=
  let filled := slice archive pos block
  if filled.length = 0 then .ok none
  else if filled.length = block then .ok (some (filled, pos + block))
  else
    match compression filled with
    | some format => .error (.compressed format)
    | none => .error (.malformed "archive ends inside a block")

/-- A body of `size` bytes at `pos`, and where the padding behind it ends. -/
def readBody (archive : Bytes) (pos size : Nat) : Except ArchiveError (Bytes × Nat) := do
  let data := slice archive pos size
  refuseIf (data.length != size) insideBody
  let sink := slice archive (pos + size) (padding data.length)
  refuseIf (sink.length != padding data.length) insideBody
  return (data, pos + size + padding data.length)

/-- The next multiple of `n`, where it is a number of 64 bits. -/
def checkedNextMultipleOf (size n : Nat) : Option Nat :=
  if size % n = 0 then some size else checkedAdd size (n - size % n)

/-- A body read where it is met. -/
def takeBytes (archive : Bytes) (pos size : Nat) : Except ArchiveError (MemberBody × Nat) := do
  let read ← readBody archive pos size
  return (.bytes read.1, read.2)

/-- A body passed over: the archive must hold it whole, with its padding. -/
def takeRange (archive : Bytes) (pos size : Nat) : Except ArchiveError (MemberBody × Nat) := do
  let next ← okOr (((checkedNextMultipleOf size block).bind (checkedAdd pos)).filter
    (· ≤ archive.length)) insideBody
  return (.range pos size, next)

/-- What a header's bytes add up to, its checksum counted as eight spaces: of one block, far less
than 32 bits hold.
-/
def headerSum (header : Bytes) : Nat :=
  ((header.take 148 ++ header.drop 156).map UInt8.toNat).sum + 8 * space.toNat

/-- Whether a record under `key` is read off a member. -/
def appliesPerMember (key : Bytes) : Bool :=
  ["path", "linkpath", "size", "uid", "gid", "atime", "ctime", "mtime"].any (ascii · == key)
    || ["SCHILY.", "LIBARCHIVE.xattr.", "GNU.sparse."].any fun start => (ascii start).isPrefixOf key

/-- A body without the terminator it carries. -/
def trimNul (body : Bytes) : Bytes := if body.getLast? = some 0 then body.dropLast else body

/-- A member's length: a record's, which octal digits might not hold, or else the header's. -/
def memberSize (records : List PaxRecord) (stored : Nat) : Except ArchiveError Nat :=
  match record records (ascii "size") with
  | some value => okOr (parseDecimal value) (.malformed "invalid PAX size record")
  | none => .ok stored

/-- A walk over an archive: where it stands, the members it has framed, and what it holds for the
member that comes next.
-/
structure Framing where
  pos : Nat
  members : List Member
  records : List PaxRecord
  longPath : Option Bytes
  longLink : Option Bytes
  firstBlock : Bool

/-- The head of an archive. -/
def Framing.begin : Framing := ⟨0, [], [], none, none, true⟩

section

variable (format : HeaderFormat) (archive : Bytes)

def verifyCksum (header : Bytes) : Except ArchiveError Unit := do
  let declared ← okOr (format.cksum header) (.malformed "unreadable header checksum")
  refuseIf (headerSum header != declared) (.malformed "header checksum mismatch")

/-- A header's checksum must hold, and at the head of a stream that is compressed this is where it
shows.
-/
def checkHeader (firstBlock : Bool) (header : Bytes) : Except ArchiveError Unit :=
  match verifyCksum format header with
  | .ok () => .ok ()
  | .error error =>
      match if firstBlock then compression header else none with
      | some compressed => .error (.compressed compressed)
      | none => .error error

/-- The member a header describes, decorated by what came before it. Nothing is framed past an
old-GNU sparse member.
-/
def takeMember (takeBody : (pos size : Nat) → Except ArchiveError (MemberBody × Nat))
    (self : Framing) (header : Bytes) (stored : Nat) : Except ArchiveError Framing := do
  let path := (self.longPath.or (record self.records (ascii "path"))).getD
    (format.pathBytes header)
  let link := (self.longLink.or (record self.records (ascii "linkpath"))).or
    (format.linkNameBytes header)
  refuseIf (format.entryType header == .gnuSparse)
    (.bad path "old-GNU sparse files are not supported")
  let size ← memberSize self.records stored
  let taken ← takeBody self.pos size
  return {
    self with
    pos := taken.2
    records := []
    longPath := none
    longLink := none
    members := self.members ++ [⟨header, path, link, self.records, taken.1⟩]
  }

/-- What a header and its body add to the walk. -/
def readHeader (takeBody : (pos size : Nat) → Except ArchiveError (MemberBody × Nat))
    (self : Framing) (header : Bytes) (stored : Nat) : Except ArchiveError Framing :=
  match format.entryType header with
  | .xHeader => do
      let read ← readBody archive self.pos stored
      let records ← parseRecords read.1
      return { self with pos := read.2, records }
  | .gnuLongName => do
      let read ← readBody archive self.pos stored
      return { self with pos := read.2, longPath := some (trimNul read.1) }
  | .gnuLongLink => do
      let read ← readBody archive self.pos stored
      return { self with pos := read.2, longLink := some (trimNul read.1) }
  | .xGlobalHeader => do
      let read ← readBody archive self.pos stored
      let records ← parseRecords read.1
      refuseIf (records.any fun record => appliesPerMember record.key)
        (.malformed ("a PAX global header sets a default this parser would otherwise read per "
          ++ "member, and archive-wide defaults are not applied"))
      return { self with pos := read.2 }
  -- a volume label names the archive itself
  | .other 0x56 => do
      let read ← readBody archive self.pos stored
      return { self with pos := read.2 }
  | _ => takeMember format takeBody self header stored

/-- One turn of the walk: a header block and what it stands for. -/
def turn (takeBody : (pos size : Nat) → Except ArchiveError (MemberBody × Nat)) (self : Framing)
    : Next Framing (Except ArchiveError (List Member)) :=
  orStop do
    match ← readBlock archive self.pos with
    | none => return .stop (.ok self.members)
    | some (header, pos) =>
        if header.all (· == 0) then return .stop (.ok self.members)
        else
          checkHeader format self.firstBlock header
          let stored ← okOr (format.entrySize header) (.malformed "unreadable member size")
          let next ← readHeader format archive takeBody { self with pos, firstBlock := false }
            header stored
          return .go next

end

theorem insideBlock {archive : Bytes} {pos next : Nat} {header : Bytes}
    (read : readBlock archive pos = .ok (some (header, next)))
    : next = pos + block ∧ next ≤ archive.length := by
  unfold readBlock at read
  dsimp only at read
  split at read
  next => cases read
  next some_ =>
    split at read
    next whole =>
      cases read
      rw [slice, List.length_take, List.length_drop] at whole
      have pos : 0 < block := by decide
      exact ⟨rfl, by omega⟩
    next => split at read <;> cases read

/-- A body is read where the archive holds it whole, with its padding. -/
theorem readBody_eq {archive : Bytes} {pos : Nat} (inside : pos ≤ archive.length) (size : Nat)
    : readBody archive pos size = if pos + size + padding size ≤ archive.length
        then .ok (slice archive pos size, pos + size + padding size) else .error insideBody := by
  have held : (slice archive pos size).length = min size (archive.length - pos) := by
    rw [slice, List.length_take, List.length_drop]
  have sunk : (slice archive (pos + size) (padding size)).length
      = min (padding size) (archive.length - (pos + size)) := by
    rw [slice, List.length_take, List.length_drop]
  simp only [readBody, refuseIf]
  by_cases enough : pos + size ≤ archive.length
  · have whole : (slice archive pos size).length = size := by omega
    rw [whole, bne_self_eq_false, if_neg Bool.false_ne_true]
    by_cases padded : pos + size + padding size ≤ archive.length
    · have all : (slice archive (pos + size) (padding size)).length = padding size := by omega
      rw [if_pos padded, all, bne_self_eq_false, if_neg Bool.false_ne_true]
      rfl
    · have short : (slice archive (pos + size) (padding size)).length ≠ padding size := by omega
      rw [if_neg padded, bne_iff_ne.mpr short, if_pos rfl]
      rfl
  · have short : (slice archive pos size).length ≠ size := by omega
    rw [if_neg (fun holds : pos + size + padding size ≤ archive.length => enough (by omega)),
      bne_iff_ne.mpr short]
    rfl

/-- A body is passed over where it would be read, in an archive whose positions are numbers of 64
bits.
-/
theorem takeRange_eq {archive : Bytes} {pos : Nat} (fits : archive.length < 2 ^ 64)
    (inside : pos ≤ archive.length) (size : Nat)
    : takeRange archive pos size = if pos + size + padding size ≤ archive.length
        then .ok (.range pos size, pos + size + padding size) else .error insideBody := by
  have padded : (checkedNextMultipleOf size block).bind (checkedAdd pos)
      = if pos + size + padding size < 2 ^ 64 then some (pos + size + padding size) else none := by
    have below := Nat.mod_lt size (by decide : 0 < block)
    unfold checkedNextMultipleOf
    split
    next whole =>
      have bare : padding size = 0 := by rw [padding, whole]; rfl
      rw [bare, Option.bind_some, checkedAdd, Nat.add_zero]
    next part =>
      have more : padding size = block - size % block := Nat.mod_eq_of_lt (by omega)
      rw [more, checkedAdd]
      split
      next => rw [Option.bind_some, checkedAdd, Nat.add_assoc]
      next over_ => rw [Option.bind_none, if_neg (by omega)]
  unfold takeRange
  rw [padded]
  by_cases held : pos + size + padding size ≤ archive.length
  · rw [if_pos (by omega), if_pos held, Option.filter_some, decide_eq_true held]
    rfl
  · rw [if_neg held]
    split
    next => rw [Option.filter_some, decide_eq_false held]; rfl
    next => rfl

/-- A way to take a body that moves the reader on. -/
def Forward (takeBody : (pos size : Nat) → Except ArchiveError (MemberBody × Nat)) : Prop :=
  ∀ pos size taken, takeBody pos size = .ok taken → pos ≤ taken.2

theorem readBody_forward {archive : Bytes} {pos size : Nat} {read : Bytes × Nat}
    (taken : readBody archive pos size = .ok read) : pos ≤ read.2 := by
  obtain ⟨-, -, taken⟩ := bind_eq_ok.mp taken
  obtain ⟨-, -, taken⟩ := bind_eq_ok.mp taken
  cases taken
  exact Nat.le_trans (Nat.le_add_right _ _) (Nat.le_add_right _ _)

theorem takeBytes_forward (archive : Bytes) : Forward (takeBytes archive) := by
  intro pos size taken took
  obtain ⟨read, reads, took⟩ := bind_eq_ok.mp took
  cases took
  exact readBody_forward reads

theorem takeRange_forward (archive : Bytes) : Forward (takeRange archive) := by
  intro pos size taken took
  obtain ⟨next, stepped, took⟩ := bind_eq_ok.mp took
  cases took
  obtain ⟨added, -⟩ := Option.filter_eq_some_iff.mp (okOr_eq_ok.mp stepped)
  obtain ⟨padded, -, sum⟩ := Option.bind_eq_some_iff.mp added
  have total := (checkedAdd_eq_some.mp sum).2
  exact Nat.le_trans (Nat.le_add_right _ _) (Nat.le_of_eq total)

section

variable {format : HeaderFormat} {archive : Bytes}
  {takeBody : (pos size : Nat) → Except ArchiveError (MemberBody × Nat)}

/-- A header and its body move the reader on, whichever they are. -/
theorem readHeader_forward (forward : Forward takeBody) {self next : Framing} {header : Bytes}
    {stored : Nat} (read : readHeader format archive takeBody self header stored = .ok next)
    : self.pos ≤ next.pos := by
  unfold readHeader at read
  split at read
  next =>
    obtain ⟨body, reads, read⟩ := bind_eq_ok.mp read
    obtain ⟨records, -, read⟩ := bind_eq_ok.mp read
    cases read
    exact readBody_forward reads
  next =>
    obtain ⟨body, reads, read⟩ := bind_eq_ok.mp read
    cases read
    exact readBody_forward reads
  next =>
    obtain ⟨body, reads, read⟩ := bind_eq_ok.mp read
    cases read
    exact readBody_forward reads
  next =>
    obtain ⟨body, reads, read⟩ := bind_eq_ok.mp read
    obtain ⟨records, -, read⟩ := bind_eq_ok.mp read
    obtain ⟨-, -, read⟩ := bind_eq_ok.mp read
    cases read
    exact readBody_forward reads
  next =>
    obtain ⟨body, reads, read⟩ := bind_eq_ok.mp read
    cases read
    exact readBody_forward reads
  next =>
    obtain ⟨-, -, read⟩ := bind_eq_ok.mp read
    obtain ⟨size, -, read⟩ := bind_eq_ok.mp read
    obtain ⟨taken, took, read⟩ := bind_eq_ok.mp read
    cases read
    exact forward _ _ _ took

/-- What a turn that goes on has read: a whole block of the archive, and what it stands for. -/
theorem turn_eq_go {self next : Framing} (went : turn format archive takeBody self = .go next)
    : ∃ header stored, self.pos + block ≤ archive.length
      ∧ readHeader format archive takeBody
        { self with pos := self.pos + block, firstBlock := false } header stored = .ok next := by
  obtain ⟨read, blocks, went⟩ := bind_eq_ok.mp (orStop_eq_go went)
  cases read with
  | none => cases went
  | some found =>
      obtain ⟨header, pos⟩ := found
      obtain ⟨rfl, inside⟩ := insideBlock blocks
      dsimp only at went
      split at went
      next => cases went
      next =>
        obtain ⟨-, -, went⟩ := bind_eq_ok.mp went
        obtain ⟨stored, -, went⟩ := bind_eq_ok.mp went
        obtain ⟨next, reads, went⟩ := bind_eq_ok.mp went
        cases went
        exact ⟨header, stored, inside, reads⟩

/-- Every turn takes a block at least. -/
theorem turn_lowers (forward : Forward takeBody)
    : Lowers (turn format archive takeBody) fun self => archive.length - self.pos := by
  intro self next went
  obtain ⟨header, stored, inside, reads⟩ := turn_eq_go went
  have further : self.pos + block ≤ next.pos := readHeader_forward forward reads
  have pos : 0 < block := by decide
  show archive.length - next.pos < archive.length - self.pos
  omega

end

/-- The members an archive frames, each with its body. -/
def readMembers (format : HeaderFormat) (archive : Bytes) : Except ArchiveError (List Member) :=
  total (turn format archive (takeBytes archive)) _ (turn_lowers (takeBytes_forward archive)) .begin

/-- The members an archive frames, each with where its body lies. -/
def readMembersSeeking (format : HeaderFormat) (archive : Bytes)
    : Except ArchiveError (List Member) :=
  total (turn format archive (takeRange archive)) _ (turn_lowers (takeRange_forward archive)) .begin

/-- A body as it is read and as it is located: the range lies in the archive with the padding behind
it, and names the bytes.
-/
inductive Located (archive : Bytes) : MemberBody → MemberBody → Prop
  | intro {offset len : Nat} (inside : offset + len + padding len ≤ archive.length)
      : Located archive (.bytes (slice archive offset len)) (.range offset len)

/-- The same member, its body read and located. -/
inductive Member.Beside (archive : Bytes) : Member → Member → Prop
  | intro {m : Member} {body : MemberBody} (located : Located archive m.body body)
      : Member.Beside archive m { m with body }

/-- Two walks that stand at the same place and have framed the same members. -/
inductive Framing.Beside (archive : Bytes) : Framing → Framing → Prop
  | intro {walk : Framing} {members : List Member} (inside : walk.pos ≤ archive.length)
      (beside : List.Forall₂ (Member.Beside archive) walk.members members)
      : Framing.Beside archive walk { walk with members }

section

variable {format : HeaderFormat} {archive : Bytes}

/-- A body is read and located alike, and its padding ends in the archive. -/
theorem takes_beside (fits : archive.length < 2 ^ 64) {pos : Nat} (inside : pos ≤ archive.length)
    (size : Nat)
    : Same (fun taken taken' => Located archive taken.1 taken'.1 ∧ taken.2 = taken'.2
        ∧ taken.2 ≤ archive.length) (takeBytes archive pos size) (takeRange archive pos size) := by
  rw [takeBytes, readBody_eq inside, takeRange_eq fits inside]
  split
  next held => exact .ok ⟨.intro held, rfl, held⟩
  next => exact .error _

/-- A body that was read ends in the archive. -/
theorem readBody_inside {pos size : Nat} (inside : pos ≤ archive.length) {read : Bytes × Nat}
    (taken : readBody archive pos size = .ok read) : read.2 ≤ archive.length := by
  rw [readBody_eq inside] at taken
  split at taken
  next held => cases taken; exact held
  next => cases taken

/-- Two walks frame the same member. -/
theorem takeMember_beside (fits : archive.length < 2 ^ 64) {walk walk' : Framing}
    (beside : walk.Beside archive walk') (header : Bytes) (stored : Nat)
    : Same (Framing.Beside archive) (takeMember format (takeBytes archive) walk header stored)
        (takeMember format (takeRange archive) walk' header stored) := by
  obtain ⟨inside, members⟩ := beside
  refine .after fun _ _ => .after fun size _ => ?_
  refine (takes_beside fits inside size).bind fun taken taken' agree => ?_
  obtain ⟨body, next⟩ := taken'
  obtain ⟨located, rfl, ends⟩ := agree
  exact .ok (.intro ends (List.rel_append members (.cons (.intro located) .nil)))

/-- Two walks read a header alike. -/
theorem readHeader_beside (fits : archive.length < 2 ^ 64) {walk walk' : Framing}
    (beside : walk.Beside archive walk') (header : Bytes) (stored : Nat)
    : Same (Framing.Beside archive)
        (readHeader format archive (takeBytes archive) walk header stored)
        (readHeader format archive (takeRange archive) walk' header stored) := by
  have taken := @takeMember_beside format archive fits walk walk' beside header stored
  obtain ⟨inside, members⟩ := beside
  have ends := fun {read} => @readBody_inside archive _ stored inside read
  unfold readHeader
  split
  next => exact .after fun _ reads => .after fun _ _ => .ok (.intro (ends reads) members)
  next => exact .after fun _ reads => .ok (.intro (ends reads) members)
  next => exact .after fun _ reads => .ok (.intro (ends reads) members)
  next =>
    exact .after fun _ reads => .after fun _ _ => .after fun _ _ =>
      .ok (.intro (ends reads) members)
  next => exact .after fun _ reads => .ok (.intro (ends reads) members)
  next => exact taken

/-- Two walks take a turn alike. -/
theorem turn_beside (fits : archive.length < 2 ^ 64) {walk walk' : Framing}
    (beside : walk.Beside archive walk')
    : Turns (Framing.Beside archive) (Same (List.Forall₂ (Member.Beside archive)))
        (turn format archive (takeBytes archive) walk)
        (turn format archive (takeRange archive) walk') := by
  obtain ⟨inside, members⟩ := beside
  refine turns_orStop (.after fun read blocks => ?_)
  cases read with
  | none => exact .ok (.stop (.ok members))
  | some found =>
      obtain ⟨header, pos⟩ := found
      obtain ⟨-, within⟩ := insideBlock blocks
      dsimp only
      split
      next => exact .ok (.stop (.ok members))
      next =>
        refine .after fun _ _ => .after fun stored _ => ?_
        have begun := @Framing.Beside.intro archive { walk with pos, firstBlock := false } _ within
          members
        refine (readHeader_beside fits begun header stored).bind fun next next' agree => ?_
        exact .ok (.go agree)

/-- Two walks at the head of an archive. -/
theorem begin_beside (archive : Bytes) : Framing.begin.Beside archive .begin :=
  .intro (Nat.zero_le _) .nil

end

/-- The two readers fail with the same error or frame the same members in the same order, each range
naming the bytes of the body that was read. Both are over within as many turns as the archive has
bytes, and neither ever stands behind the archive's end.
-/
structure Agreement (format : HeaderFormat) (archive : Bytes) : Prop where
  same : Same (List.Forall₂ (Member.Beside archive)) (readMembers format archive)
    (readMembersSeeking format archive)
  ends : run (turn format archive (takeBytes archive)) (archive.length + 1) .begin
    = some (readMembers format archive)
  ends_seeking : run (turn format archive (takeRange archive)) (archive.length + 1) .begin
    = some (readMembersSeeking format archive)
  inside : ∀ walk,
    Relation.ReflTransGen (Turn (turn format archive (takeBytes archive))) .begin walk
    → walk.pos ≤ archive.length
  inside_seeking : ∀ walk,
    Relation.ReflTransGen (Turn (turn format archive (takeRange archive))) .begin walk
    → walk.pos ≤ archive.length

/-- The two readers agree on every archive whose positions are numbers of 64 bits. -/
theorem members_agree (format : HeaderFormat) {archive : Bytes} (fits : archive.length < 2 ^ 64)
    : Agreement format archive := by
  have begun := begin_beside archive
  have each := fun walk walk' => @turn_beside format archive fits walk walk'
  refine {
    same := total_related each _ _ begun
    ends := run_eq_total (turn_lowers (takeBytes_forward archive)) .begin
    ends_seeking := run_eq_total (turn_lowers (takeRange_forward archive)) .begin
    inside := fun walk reached => ?_
    inside_seeking := fun walk reached => ?_
  }
  · obtain ⟨_, -, inside, -⟩ := reached_related each begun reached
    exact inside
  · have swapped := fun walk' walk beside => (each walk walk' beside).swap
    obtain ⟨_, -, beside⟩ := reached_related swapped begun reached
    cases beside with
    | intro inside _ => exact inside

/-- The number a field's octal digits write. -/
def octal (field : Bytes) : Nat :=
  number 8 ((field.takeWhile isAsciiDigit).map fun digit => digit.toNat - 0x30)

/-- A header whose numbers are octal and whose name is as long as its field has room for. -/
def plainFormat : HeaderFormat where
  cksum header := some (octal (slice header 148 8))
  entrySize header := some (Fin.ofNat _ (octal (slice header 124 12)))
  entryType header := .other (header[156]?.getD 0)
  pathBytes header := (header.take 100).takeWhile (· != 0)
  linkNameBytes header :=
    some ((slice header 157 100).takeWhile (· != 0)) |>.filter fun name => !name.isEmpty

/-- An archive of one file, which is named by one letter and holds one. -/
def oneFile : Bytes :=
  splice (splice (splice (splice (zeros 2048) 0 (ascii "a")) 124 (ascii "00000000001")) 148
    (ascii "001562" ++ [0, space])) 512 (ascii "x")

/-- Its two readers agree. -/
theorem members_agree_of_oneFile : Agreement plainFormat oneFile :=
  members_agree plainFormat (by
    simp only [oneFile, length_splice, zeros, List.length_replicate]
    decide)

end Ferrosys.Archive.Blocks
