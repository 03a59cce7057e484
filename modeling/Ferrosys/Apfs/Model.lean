import Ferrosys.Apfs.Names.Duplicates
import Ferrosys.Library.Bisect
import Ferrosys.Library.Loop

/-! What a source's tree holds on a volume: its inodes, with the names that reach each, and the
streams their bytes go in, numbered from one counter as a walk of the tree meets them.
-/

namespace Ferrosys.Apfs.Model

open SortedMaps

variable {γ μ : Type}

/-- The parent the root and the private directory record, the two of them, and the first number an
ordinary file takes.
-/
def rootParent : Nat := 1
def rootNumber : Nat := 2
def privateNumber : Nat := 3
def firstUser : Nat := 16

/-- Where numbering begins, past the root and the private directory. -/
abbrev FirstId := { first : Nat // privateNumber < first }

def maxEmbeddedXattr : Nat := 3800
def maxEmbeddedHeader : Nat := 128
def decmpfsXattr : Bytes := "com.apple.decmpfs".toUTF8.toList
def resourceForkXattr : Bytes := "com.apple.ResourceFork".toUTF8.toList

def streamFlag : Nat := 0x1
def embeddedFlag : Nat := 0x2
def setThroughSetxattr : Nat := 0x10

/-- A compressed file's content as it is stored. -/
structure CompressedFile where
  header : Bytes
  fork : Option Bytes
deriving DecidableEq

structure Darwin where
  bsdFlags : UInt32
  compressed : Option CompressedFile
deriving DecidableEq

def compressedFlag : UInt32 := 0x20

/-- The flags an entry states of itself. -/
def Darwin.statedFlags (self : Darwin) : UInt32 := self.bsdFlags &&& ~~~compressedFlag

abbrev Entry (γ μ : Type) := SourceEntry γ μ Darwin

/-- One entry of a directory. -/
structure Child where
  name : Bytes
  hash : Nat
  inode : Nat
  entryType : Nat
  sibling : Option Nat
deriving DecidableEq

/-- One name of an inode that has several. -/
structure Sibling where
  id : Nat
  parent : Nat
  name : Bytes
deriving DecidableEq

inductive InodeKind where
  | directory (children : List Child)
  | file (size : Nat) (stream : Option Nat)
  | symlink (target : Bytes)
  | device (block : Bool) (number : Nat)
  | fifo
  | socket
deriving DecidableEq

namespace InodeKind

/-- The type a directory entry records of what it names. -/
def entryType : InodeKind → Nat
  | .fifo => 1
  | .device false _ => 2
  | .directory _ => 4
  | .device true _ => 6
  | .file _ _ => 8
  | .symlink _ => 10
  | .socket => 12

def isDirectory : InodeKind → Bool
  | .directory _ => true
  | _ => false

def children : InodeKind → List Child
  | .directory children => children
  | _ => []

/-- The stream a file's bytes go in. -/
def stream : InodeKind → Option Nat
  | .file _ stream => stream
  | _ => none

/-- Change a directory's entries. -/
def mapChildren (change : List Child → List Child) : InodeKind → InodeKind
  | .directory children => .directory (change children)
  | kind => kind

end InodeKind

inductive ModelXattr where
  | embedded (name value : Bytes) (flags : Nat)
  | stream (name : Bytes) (stream flags : Nat)
deriving DecidableEq

structure Inode (μ : Type) where
  id : Nat
  parent : Nat
  name : Bytes
  kind : InodeKind
  metadata : μ
  xattrs : List ModelXattr
  links : Nat
  siblings : List Sibling
  bsdFlags : UInt32
  compressed : Bool
deriving DecidableEq

namespace Inode

def children (self : Inode μ) : List Child := self.kind.children

/-- What an inode's record counts: a directory's entries, and anything else's names. -/
def linksOrChildren (self : Inode μ) : Nat :=
  match self.kind with
  | .directory children => children.length
  | _ => self.links

def mapChildren (change : List Child → List Child) (self : Inode μ) : Inode μ :=
  { self with kind := self.kind.mapChildren change }

def addSibling (sibling : Sibling) (self : Inode μ) : Inode μ :=
  { self with siblings := self.siblings ++ [sibling] }

end Inode

inductive StreamBytes (γ : Type) where
  | file (content : γ)
  | held (bytes : Bytes)
deriving DecidableEq

/-- Bytes kept apart from the record they belong to, and the inode whose they are. -/
structure Stream (γ : Type) where
  id : Nat
  owner : Nat
  len : Nat
  bytes : StreamBytes γ
  written : Nat
deriving DecidableEq

/-- A file's own bytes, an attribute's otherwise. -/
def Stream.isData (self : Stream γ) : Bool :=
  match self.bytes with
  | .file _ => true
  | .held _ => false

structure Counts where
  files : Nat
  directories : Nat
  symlinks : Nat
  other : Nat
deriving DecidableEq

/-- One more inode of a kind. -/
def Counts.count (self : Counts) : InodeKind → Counts
  | .directory _ => { self with directories := self.directories + 1 }
  | .file _ _ => { self with files := self.files + 1 }
  | .symlink _ => { self with symlinks := self.symlinks + 1 }
  | _ => { self with other := self.other + 1 }

/-- What has been numbered so far. The counters are bounded in the code, which stops rather than
pass a bound.
-/
structure Builder (γ μ : Type) where
  next : Nat
  inodes : List (Inode μ)
  streams : List (Stream γ)
  attributeStreams : List (Stream γ)
  counts : Counts
deriving DecidableEq

namespace Builder

/-- The next identifier. -/
def take (self : Builder γ μ) : Nat × Builder γ μ :=
  (self.next, { self with next := self.next + 1 })

/-- One attribute of inode `id`, held in its record or given a stream and the next identifier. A
resource fork is always in a stream, and a compressed file's header where it is long.
-/
def xattr (id : Nat) (compressed : Bool) (self : Builder γ μ) (xattr : Xattr)
    : Builder γ μ × ModelXattr :=
  let header := compressed && xattr.name == decmpfsXattr
  let fork := xattr.name == resourceForkXattr || header
  let limit := if header then maxEmbeddedHeader else maxEmbeddedXattr
  if (header || !fork) && xattr.value.length ≤ limit then
    (self, .embedded xattr.name xattr.value embeddedFlag)
  else
    let stream : Stream γ :=
      ⟨self.take.1, id, xattr.value.length, .held xattr.value,
        if fork then xattr.value.length else 0⟩
    ({ self.take.2 with attributeStreams := self.attributeStreams ++ [stream] },
      .stream xattr.name stream.id
        (if fork then streamFlag else streamFlag ||| setThroughSetxattr))

/-- The attributes of inode `id` in record order. -/
def xattrs (self : Builder γ μ) (id : Nat) (given : List Xattr) (compressed : Bool)
    : Builder γ μ × List ModelXattr :=
  (given.insertionSort fun a b => Key.mk a.name ≤ Key.mk b.name).foldl
    (fun held given =>
      let placed := held.1.xattr id compressed given
      (placed.1, held.2 ++ [placed.2]))
    (self, [])

end Builder

/-- A device's number as Darwin has it. -/
def deviceNumber (major minor : Nat) : Nat := (major <<< 24 ||| minor) % 2 ^ 32

/-- What the inode of an entry is, and the stream its bytes go in: nothing for a link, which is a
name of something else. A compressed file's bytes are its stored form, which is among its
attributes.
-/
def kindOf (len : γ → Nat) (id : Nat) (compressed : Bool)
    : EntryKind γ → Option (InodeKind × Option (Stream γ))
  | .directory => some (.directory [], none)
  | .file content =>
      if compressed || len content == 0 then some (.file (len content) none, none)
      else
        some (.file (len content) (some id),
          some ⟨id, id, len content, .file content, len content⟩)
  | .symlink target => some (.symlink target, none)
  | .charDevice major minor => some (.device false (deviceNumber major minor), none)
  | .blockDevice major minor => some (.device true (deviceNumber major minor), none)
  | .fifo => some (.fifo, none)
  | .socket => some (.socket, none)
  | .hardLink _ => none

/-- The attributes of an entry, its stored form among them. -/
def givenXattrs (entry : Entry γ μ) : List Xattr :=
  match entry.darwin.bind Darwin.compressed with
  | none => entry.xattrs
  | some form =>
      entry.xattrs ++ [⟨decmpfsXattr, form.header⟩]
        ++ form.fork.toList.map fun fork => ⟨resourceForkXattr, fork⟩

/-- Number the inode of an entry by the first of its names the walk meets. -/
def Builder.create (len : γ → Nat) (self : Builder γ μ) (entry : Entry γ μ) (parent : Nat)
    (name : Bytes) : Option (Builder γ μ × Inode μ) :=
  let id := self.take.1
  let compressed := (entry.darwin.bind Darwin.compressed).isSome
  (kindOf len id compressed entry.kind).map fun kind =>
    let placed : Builder γ μ :=
      { self.take.2 with
        streams := self.streams ++ kind.2.toList
        counts := self.counts.count kind.1 }
    let given := placed.xattrs id (givenXattrs entry) compressed
    let inode : Inode μ :=
      { id, parent, name, kind := kind.1, metadata := entry.metadata, xattrs := given.2
        links := 1, siblings := []
        bsdFlags := (entry.darwin.map Darwin.statedFlags).getD 0
          ||| if compressed then compressedFlag else 0
        compressed }
    ({ given.1 with inodes := given.1.inodes ++ [inode] }, inode)

/-- Where an inode is: the root, or one of the others. -/
inductive Slot where
  | root
  | inode (place : Nat)
deriving DecidableEq

section

variable (unicode : Names.Unicode) (fold : Bool)

/-- A directory the walk has entered: where its inode is, its entries in record order, and how many
of them it has reached.
-/
structure Frame where
  slot : Slot
  entries : List (Names.Planned unicode fold)
  next : Nat

/-- The walk: what is numbered, where each object is and which of its directory's entries is its
first name, the directories entered, the innermost first, and those yet to be.
-/
structure Walk (γ μ : Type) where
  builder : Builder γ μ
  root : Inode μ
  placed : SortedMap Key Nat
  firstEntry : List Nat
  stack : List (Frame unicode fold)
  children : Names.Children unicode fold

end

variable {unicode : Names.Unicode} {fold : Bool}

/-- Where the inode of a number is, found by halves as they are in the order of their numbers. -/
def findInode (inodes : List (Inode μ)) (id : Nat) : Option Nat :=
  let below (i : Nat) : Except Unit Bool := .ok ((inodes[i]?).any (·.id < id))
  (Bisect.bisect below inodes.length 0 inodes.length).toOption.filter fun place =>
    (inodes[place]?).any (·.id == id)

/-- `usize::MAX`. -/
def noEntry : Nat := 2 ^ 64 - 1

/-- Record which of its directory's entries an inode's first name is. -/
def setFirst (firstEntry : List Nat) (place entry : Nat) : List Nat :=
  (firstEntry ++ List.replicate (place + 1 - firstEntry.length) noEntry).set place entry

namespace Walk

def inode (self : Walk unicode fold γ μ) : Slot → Option (Inode μ)
  | .root => some self.root
  | .inode place => self.builder.inodes[place]?

def modify (self : Walk unicode fold γ μ) (slot : Slot) (change : Inode μ → Inode μ)
    : Walk unicode fold γ μ :=
  match slot with
  | .root => { self with root := change self.root }
  | .inode place =>
      { self with builder :=
          { self.builder with inodes := self.builder.inodes.modify place change } }

/-- The next identifier. -/
def take (self : Walk unicode fold γ μ) : Nat × Walk unicode fold γ μ :=
  (self.builder.take.1, { self with builder := self.builder.take.2 })

/-- Where directory `id` is. -/
def slotOf (self : Walk unicode fold γ μ) (id : Nat) : Option Slot :=
  if id = rootNumber then some .root else (findInode self.builder.inodes id).map .inode

/-- Entry `index` of directory `parent`. -/
def childAt (self : Walk unicode fold γ μ) (parent index : Nat) : Option (Slot × Child) := do
  let slot ← self.slotOf parent
  let directory ← self.inode slot
  let child ← directory.children[index]?
  some (slot, child)

/-- The first name of an inode about to have a second is given its sibling. -/
def linkFirst (self : Walk unicode fold γ μ) (place : Nat) (inode : Inode μ)
    : Option (Walk unicode fold γ μ) := do
  let first := self.take.1
  let linked := self.take.2.modify (.inode place) (.addSibling ⟨first, inode.parent, inode.name⟩)
  let index ← self.firstEntry[place]?
  let (slot, child) ← linked.childAt inode.parent index
  if child.name = inode.name then
    some (linked.modify slot
      (.mapChildren fun children => children.modify index ({ · with sibling := some first })))
  else none

/-- A sibling for the first name of an inode if it is to have its second. -/
def linkAlone (self : Walk unicode fold γ μ) (place : Nat) (inode : Inode μ)
    : Option (Walk unicode fold γ μ) :=
  if inode.siblings = [] then self.linkFirst place inode else some self

/-- Another name for an inode the walk has met: a sibling for its first name if this is its second,
then one for this name.
-/
def nameAgain (self : Walk unicode fold γ μ) (place parent : Nat)
    (planned : Names.Planned unicode fold) : Option (Walk unicode fold γ μ × Child) := do
  let inode ← self.builder.inodes[place]?
  let linked ← self.linkAlone place inode
  let id := linked.take.1
  some (linked.take.2.modify (.inode place) fun inode =>
      { inode.addSibling ⟨id, parent, planned.name⟩ with links := inode.links + 1 },
    ⟨planned.name, planned.hash, inode.id, inode.kind.entryType, some id⟩)

/-- The first name the walk meets of an object, which is numbered, and entered if it is a directory.
-/
def nameFirst (len : γ → Nat) (byKey : Bytes → Option (Entry γ μ)) (self : Walk unicode fold γ μ)
    (object : Bytes) (parent : Nat) (planned : Names.Planned unicode fold)
    : Option (Walk unicode fold γ μ × Child) := do
  let entry ← byKey object
  let (builder, inode) ← self.builder.create len entry parent planned.name
  let place := builder.inodes.length - 1
  let placed := { self with builder, placed := self.placed.insert ⟨object⟩ place }
  let entered :=
    if inode.kind.isDirectory then
      { placed with
        stack := ⟨.inode place, self.children.of planned.key, 0⟩ :: self.stack
        children := self.children.keep (· ≠ ⟨planned.key⟩) }
    else placed
  some (entered, ⟨planned.name, planned.hash, inode.id, inode.kind.entryType, none⟩)

/-- A directory is given one more entry. -/
def record (self : Walk unicode fold γ μ) (slot : Slot) (child : Child)
    : Option (Walk unicode fold γ μ) := do
  let directory ← self.inode slot
  if directory.kind.isDirectory then some (self.modify slot (.mapChildren (· ++ [child]))) else none

/-- The entry just recorded is the first name of the inode just numbered. -/
def recordFirst (self : Walk unicode fold γ μ) (slot : Slot) (child : Child)
    : Option (Walk unicode fold γ μ) := do
  let directory ← self.inode slot
  { self with firstEntry :=
      setFirst self.firstEntry (self.builder.inodes.length - 1) directory.children.length }.record
    slot child

/-- One entry of the directory at `slot`: a name of what its object is. -/
def enter (len : γ → Nat) (objectOf : Bytes → Option Bytes) (byKey : Bytes → Option (Entry γ μ))
    (self : Walk unicode fold γ μ) (slot : Slot) (planned : Names.Planned unicode fold)
    : Option (Walk unicode fold γ μ) := do
  let directory ← self.inode slot
  let object := (objectOf planned.key).getD planned.key
  match self.placed.get? ⟨object⟩ with
  | some place => do
      let (named, child) ← self.nameAgain place directory.id planned
      named.record slot child
  | none => do
      let (named, child) ← self.nameFirst len byKey object directory.id planned
      named.recordFirst slot child

/-- One turn of the walk: the innermost directory's next entry, or, where it has no more, the
directory is left. Nothing is answered where an assertion of the walk fails.
-/
def turn (len : γ → Nat) (objectOf : Bytes → Option Bytes) (byKey : Bytes → Option (Entry γ μ))
    (self : Walk unicode fold γ μ)
    : Loop.Next (Walk unicode fold γ μ) (Option (Walk unicode fold γ μ)) :=
  match self.stack with
  | [] => .stop (some self)
  | frame :: rest =>
      match frame.entries[frame.next]? with
      | none => .go { self with stack := rest }
      | some planned =>
          let reached := { self with stack := { frame with next := frame.next + 1 } :: rest }
          match reached.enter len objectOf byKey frame.slot planned with
          | some next => .go next
          | none => .stop none

end Walk

end Ferrosys.Apfs.Model
