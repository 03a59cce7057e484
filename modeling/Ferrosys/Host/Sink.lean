import Ferrosys.Library.Effects
import Ferrosys.Source
import Ferrosys.Time
import Ferrosys.Tree

/-! Writing a filesystem's contents out as a directory tree: every directory is created and then
opened, and everything beneath it is created through that handle by a single name. What the host
answers each call with is a parameter, and the calls made of it are kept with their answers.
-/

namespace Ferrosys.Host

/-- Why the host refuses a call, as far as the sink tells refusals apart. -/
inductive Errno where
  | perm
  | access
  | inval
  | nameTooLong
  | opNotSupp
  | tooBig
  | noSpc
  | range
  | other (code : Nat)
deriving DecidableEq

/-- Whether a failure is the host declining for want of a privilege. -/
def forbidden (e : Errno) : Bool := e == .perm || e == .access

/-- An open handle, by how many calls were made before the one that opened it. -/
abbrev Handle := Nat

inductive Property where
  | ownership
  | permissions
  | specialBits
  | kind
  | extendedAttributes
  | accessTime
  | changeTime
  | modificationTime
  | timePrecision
  | name
  | bsdFlags
deriving DecidableEq

inductive Direction where
  | dropped
  | synthesized
deriving DecidableEq

structure FidelityRecord where
  direction : Direction
  path : Bytes
  property : Property
deriving DecidableEq

structure FidelityReport where
  records : List FidelityRecord
  counts : List ((Direction × Property) × Nat)
  truncated : Bool
deriving DecidableEq

namespace FidelityReport

def maxRecords : Nat := 10000

def counted (counts : List ((Direction × Property) × Nat)) (key : Direction × Property)
    : List ((Direction × Property) × Nat) :=
  match counts with
  | [] => [(key, 1)]
  | (k, n) :: rest => if k = key then (k, n + 1) :: rest else (k, n) :: counted rest key

/-- Record that a property of the entry at a path ran in a direction. -/
def record (self : FidelityReport) (direction : Direction) (path : Bytes) (property : Property)
    : FidelityReport :=
  let self := { self with counts := counted self.counts (direction, property) }
  if self.records.length < maxRecords then
    { self with records := self.records ++ [⟨direction, path, property⟩] }
  else { self with truncated := true }

end FidelityReport

/-- What a sink sets of a node: its owner, its mode and the two times a host lets a caller set. -/
structure Metadata where
  mode : Nat
  uid : Nat
  gid : Nat
  atime : Timestamp
  mtime : Timestamp
deriving DecidableEq

/-- Everything a sink records about a node beyond what the walk carried. -/
structure Attributes where
  metadata : Metadata
  xattrs : List Xattr
  synthesized : List Property
deriving DecidableEq

/-- A family's reader as a host sink drains it: what a stat answers with is what the host takes,
and a Darwin filesystem's flags beside it are those an extraction does not carry.
-/
structure HostTree (σ ν ε : Type) extends FsTree σ ν Attributes ε where
  statedFlags : σ → ν → Except ε (Nat × σ)

inductive HostError (ε : Type) where
  | io (path : List Bytes) (source : Errno)
  | read (source : ε)
  | limitExceeded (family : Family) (path : Bytes) (size cap : Nat)
  | shortRead (path : Bytes) (size got : Nat)
  | hostileName (path : Bytes)
  | outOfOrder (path : Bytes)
  | tooManyDeferredDirectories (limit : Nat)
  | unprivileged (path : Bytes) (what : String)
  | nameTooLong (path : Bytes) (what : String)
  | unsupportedAttribute (path name : Bytes) (why : String)
  | unrepresentableOwner (path : Bytes) (uid gid : Nat)
  | unrepresentableDevice (path : Bytes) (major minor : Nat)
  | timeNotHeld (path : Bytes) (which : String) (recorded : Timestamp) (held : Int × Nat)
  | flagsNotHeld (path : Bytes) (flags : Nat)
deriving DecidableEq

inductive FileType where
  | charDevice
  | blockDevice
  | fifo
  | socket
deriving DecidableEq

namespace FileType

def isDevice : FileType → Bool
  | charDevice | blockDevice => true
  | fifo | socket => false

end FileType

/-- One thing set of a node. -/
inductive Setting where
  | owner (uid gid : Nat)
  | mode (mode : Nat)
  | xattr (name value : Bytes)
  | times (access modification : Int × Nat)
deriving DecidableEq

/-- What is set or looked at: something already open, or a name in an open directory, which is
followed or is not.
-/
inductive Target where
  | handle (fd : Handle)
  | name (dir : Handle) (name : Bytes) (nofollow : Bool)
deriving DecidableEq

/-- A call made of the host. A directory is opened to be filled, or only to traverse from. -/
inductive Call where
  | openRoot (traverse : Bool)
  | openat (dir : Handle) (name : Bytes) (traverse : Bool)
  | mkdirat (dir : Handle) (name : Bytes)
  | createat (dir : Handle) (name : Bytes)
  | writeAll (file : Handle) (bytes : Bytes)
  | symlinkat (target : Bytes) (dir : Handle) (name : Bytes)
  | mknodat (dir : Handle) (name : Bytes) (fileType : FileType) (mode major minor : Nat)
  | unlinkat (dir : Handle) (name : Bytes)
  | linkat (source : Handle) (first : Bytes) (dir : Handle) (name : Bytes)
  | set (target : Target) (setting : Setting)
  | stat (target : Target)
deriving DecidableEq

/-- What a call that succeeded reports, of which only one that looks at a node has anything. -/
structure Answer where
  rdev : Nat × Nat
  access : Int × Nat
  modification : Int × Nat
deriving DecidableEq

/-- A call, the path it was made for, and what came of it. -/
structure Event where
  path : Bytes
  call : Call
  answer : Except Errno Answer

/-- The host: what a call is answered with, after all the calls that were made before it. -/
abbrev Destination := List Event → Call → Except Errno Answer

structure DirectorySink where
  destination : Destination
  skipPrivileged : Bool
  skipUnsupported : Bool

/-- A directory that has been created and is still being filled. -/
structure OpenDir where
  path : Bytes
  fd : Handle
  metadata : Metadata
  xattrs : List Xattr
deriving DecidableEq

structure ExtractReport where
  written : Nat
  skipped : List Bytes
  moreSkipped : Bool
  ownershipDropped : Bool
  droppedXattrs : List Bytes
  moreDroppedXattrs : Bool
  timesNotHeld : List Bytes
  moreTimesNotHeld : Bool
  fidelity : FidelityReport
deriving DecidableEq

namespace ExtractReport

def maxSkipped : Nat := 1024
def maxDroppedXattrs : Nat := 256

/-- The report of a run that has not begun. -/
def empty : ExtractReport := ⟨0, [], false, false, [], false, [], false, ⟨[], [], false⟩⟩

end ExtractReport

/-- One run of the sink. The directories on the path being written stand innermost first. -/
structure Extraction (σ : Type) where
  reader : σ
  report : ExtractReport
  named : List (Nat × Bytes)
  openDirs : List OpenDir
  held : List OpenDir
  leftOut : Option Bytes
  log : List Event

namespace Extraction

variable {σ : Type}

def begin (reader : σ) : Extraction σ := ⟨reader, .empty, [], [], [], none, []⟩

/-- The handle the entry being written goes into: the destination itself is never popped. -/
def dir (self : Extraction σ) : Handle := (self.openDirs.head?.map OpenDir.fd).getD 0

@[simp]
theorem dir_called (self : Extraction σ) (log : List Event)
    : { self with log }.dir = self.dir := rfl

/-- Whether a path is beneath the directory most recently left out. -/
def leavesOut (self : Extraction σ) (path : Bytes) : Bool :=
  match self.leftOut with
  | some dir => dir.isPrefixOf path && path[dir.length]? == some slash
  | none => false

/-- The first name to reach the node a name is for, where it has more than one. -/
def firstName (self : Extraction σ) (shared : Option Nat) : Option Bytes :=
  shared.bind fun id => self.named.lookup id

end Extraction

/-- A step of a run, whose state stays as it is where the run stops. -/
abbrev Run (σ ε α : Type) := EStateM (HostError ε) (Extraction σ) α

def nanosPerSec : Nat := 1000000000
def bodyWindow : Nat := 2 ^ 20
def maxDeferredDirectories : Nat := 256

/-- What is named as refused, for every entry but a symbolic link. -/
def tooLong : String := "a name this long"

/-- The same for a symbolic link, whose target is held to a limit of its own. -/
def targetTooLong : String := "a name or a link target this long"

/-- The permission and set-user, set-group and sticky bits of a recorded mode. -/
def modeOf (metadata : Metadata) : Nat := metadata.mode % 2 ^ 12

/-- A recorded time as the instant it names: whole seconds, and a fraction below one. -/
def instant (t : Timestamp) : Int × Nat :=
  (min (2 ^ 63 - 1) (t.secs + (t.nanos / nanosPerSec : Nat)), t.nanos % nanosPerSec)

section

variable {σ ν ε : Type}

/-- Refuse a name a directory could not hold. -/
def checkName (name path : Bytes) : Except (HostError ε) Unit :=
  if isHostileComponent name then .error (.hostileName path) else .ok ()

/-- A path's parent and its final component, checked to be one a directory can hold. -/
def split (path : Bytes) : Except (HostError ε) (Bytes × Bytes) := do
  match path.reverse.dropWhile (· != slash) with
  | [] => throw (.hostileName path)
  | _ :: parent =>
      let name := (path.reverse.takeWhile (· != slash)).reverse
      checkName name path
      return (parent.reverse, name)

/-- The owner a recorded node names, but for an id no call sets. -/
def ownerOf (metadata : Metadata) (path : Bytes) : Except (HostError ε) (Nat × Nat) :=
  if metadata.uid = 2 ^ 32 - 1 ∨ metadata.gid = 2 ^ 32 - 1 then
    .error (.unrepresentableOwner path metadata.uid metadata.gid)
  else .ok (metadata.uid, metadata.gid)

/-- An I/O failure against the destination, named by the components under it. -/
def io (path : Bytes) (e : Errno) : HostError ε := .io (canonicalParts path) e

/-- Record a path this run left out, up to the ceiling the report holds itself to. -/
def noteSkipped (path : Bytes) : Run σ ε Unit :=
  modify fun self =>
    if self.report.skipped.length < ExtractReport.maxSkipped then
      { self with report.skipped := self.report.skipped ++ [path] }
    else { self with report.moreSkipped := true }

def noteTimeNotHeld (path : Bytes) : Run σ ε Unit :=
  modify fun self =>
    if self.report.timesNotHeld.length < ExtractReport.maxSkipped then
      { self with report.timesNotHeld := self.report.timesNotHeld ++ [path] }
    else { self with report.moreTimesNotHeld := true }

/-- Record an attribute name this run left out, once. -/
def noteDroppedXattr (name : Bytes) : Run σ ε Unit :=
  modify fun self =>
    if self.report.droppedXattrs.contains name then self
    else if self.report.droppedXattrs.length < ExtractReport.maxDroppedXattrs then
      { self with report.droppedXattrs := self.report.droppedXattrs ++ [name] }
    else { self with report.moreDroppedXattrs := true }

/-- Record every property the family invented rather than read. -/
def noteSynthesis (attrs : Attributes) (path : Bytes) : Run σ ε Unit :=
  modify fun self =>
    { self with
      report.fidelity := attrs.synthesized.foldl (fun report property =>
        report.record .synthesized path property) self.report.fidelity
    }

/-- One name more is written. -/
def countWritten : Run σ ε Unit :=
  modify fun self => { self with report.written := self.report.written + 1 }

/-- A read of the filesystem. -/
def readTree {α : Type} (read : σ → Except ε (α × σ)) : Run σ ε α := do
  let self ← get
  match read self.reader with
  | .ok (a, reader) =>
      set { self with reader := reader }
      return a
  | .error e => throw (.read e)

section

variable (sink : DirectorySink)

def call (path : Bytes) (c : Call) : Run σ ε (Except Errno Answer) := do
  let self ← get
  let answer := sink.destination self.log c
  set { self with log := self.log ++ [Event.mk path c answer] }
  return answer

/-- A call whose every refusal is an error naming the entry. -/
def perform (path : Bytes) (c : Call) : Run σ ε Answer := do
  match ← call sink path c with
  | .ok answer => return answer
  | .error e => throw (io path e)

/-- A call that opens a handle, every refusal an error. -/
def openHandle (path : Bytes) (c : Call) : Run σ ε Handle := do
  let fd := (← get).log.length
  let _ ← perform sink path c
  return fd

/-- Judge a create call the destination refused: an error, or the entry recorded as skipped. -/
def refusedName (e : Errno) (path : Bytes) (what : String) : Run σ ε Unit :=
  if e ≠ .nameTooLong then throw (io path e)
  else if sink.skipUnsupported = false then throw (.nameTooLong path what)
  else noteSkipped path

/-- Judge one ownership call. -/
def tookOwnership (result : Except Errno Answer) (path : Bytes) : Run σ ε Unit :=
  let refused (what : String) : Run σ ε Unit :=
    if sink.skipPrivileged = false then throw (.unprivileged path what)
    else modify fun self => { self with report.ownershipDropped := true }
  match result with
  | .ok _ => return ()
  | .error e =>
      if forbidden e then refused "an owner other than this process's needs CAP_CHOWN to set"
      else if e = .inval then refused "an owner this user namespace maps to no id cannot be set"
      else throw (io path e)

/-- The name of an attribute begins as one the `user` namespace holds, or is a default ACL's. -/
def heldByKind (name : Bytes) : Bool :=
  "user.".toUTF8.toList.isPrefixOf name || name == "system.posix_acl_default".toUTF8.toList

/-- Judge one extended-attribute call. A refusal by the kind of node is the destination's rule and
not the process's.
-/
def tookXattr (result : Except Errno Answer) (path name : Bytes) (opened : Bool) : Run σ ε Unit :=
  let unheld (why : String) : Run σ ε Unit :=
    if sink.skipUnsupported = false then throw (.unsupportedAttribute path name why)
    else noteDroppedXattr name
  match result with
  | .ok _ => return ()
  | .error e =>
      if forbidden e then
        if opened = false ∧ heldByKind name = true then
          unheld "it holds this attribute only on other kinds of node"
        else if sink.skipPrivileged = false then
          throw (.unprivileged path
            "an extended attribute in the security or trusted namespace needs privilege to set")
        else noteDroppedXattr name
      else if e = .opNotSupp then unheld "the destination holds no attribute in this namespace"
      else if e = .tooBig ∨ e = .noSpc ∨ e = .range then
        unheld "the destination holds no attribute this large"
      else throw (io path e)

/-- Judge the times a node holds once set against the ones recorded, the access time first. -/
def tookTimes (metadata : Metadata) (held : Answer) (path : Bytes) : Run σ ε Unit :=
  let unheld (which : String) (recorded : Timestamp) (held : Int × Nat) : Run σ ε Unit :=
    if sink.skipUnsupported = false then throw (.timeNotHeld path which recorded held)
    else noteTimeNotHeld path
  if instant metadata.atime ≠ held.access then unheld "access" metadata.atime held.access
  else if instant metadata.mtime ≠ held.modification then
    unheld "modification" metadata.mtime held.modification
  else return ()

/-- Set a recorded owner, honouring the skip policy. -/
def chown (target : Target) (metadata : Metadata) (path : Bytes) : Run σ ε Unit := do
  let (uid, gid) ← MonadExcept.ofExcept (ownerOf metadata path)
  let result ← call sink path (.set target (.owner uid gid))
  tookOwnership sink result path

/-- Set extended attributes in order, on something opened or by name. -/
def setXattrs (target : Target) (opened : Bool) (path : Bytes) : List Xattr → Run σ ε Unit
  | [] => return ()
  | xattr :: rest => do
      let result ← call sink path (.set target (.xattr xattr.name xattr.value))
      tookXattr sink result path xattr.name opened
      setXattrs target opened path rest

/-- Apply ownership, mode, extended attributes and times to something already open. -/
def finishFd (fd : Handle) (metadata : Metadata) (xattrs : List Xattr) (path : Bytes)
    : Run σ ε Unit := do
  chown sink (.handle fd) metadata path
  let _ ← perform sink path (.set (.handle fd) (.mode (modeOf metadata)))
  setXattrs sink (.handle fd) true path xattrs
  let _ ← perform sink path
    (.set (.handle fd) (.times (instant metadata.atime) (instant metadata.mtime)))
  let held ← perform sink path (.stat (.handle fd))
  tookTimes sink metadata held path

/-- The same for a name in the current directory, a symbolic link having no mode of its own. -/
def finishName (name : Bytes) (metadata : Metadata) (xattrs : List Xattr) (path : Bytes)
    (symlink : Bool) : Run σ ε Unit := do
  let dir := (← get).dir
  chown sink (.name dir name symlink) metadata path
  if symlink = false then
    let _ ← perform sink path (.set (.name dir name false) (.mode (modeOf metadata)))
  setXattrs sink (.name dir name true) false path xattrs
  let _ ← perform sink path
    (.set (.name dir name symlink) (.times (instant metadata.atime) (instant metadata.mtime)))
  let held ← perform sink path (.stat (.name dir name symlink))
  tookTimes sink metadata held path

/-- Set a directory's metadata, now that everything inside it is written. -/
def applyDirectory (dir : OpenDir) : Run σ ε Unit :=
  finishFd sink dir.fd dir.metadata dir.xattrs (if dir.path.isEmpty then [slash] else dir.path)

/-- A directory whose children are all written: finish it, or hold it back until the walk is over
where its mode would deny its owner search permission.
-/
def finishDirectory (dir : OpenDir) : Run σ ε Unit := do
  if (modeOf dir.metadata).testBit 6 then applyDirectory sink dir
  else if (← get).held.length ≥ maxDeferredDirectories then
    throw (.tooManyDeferredDirectories maxDeferredDirectories)
  else modify fun self => { self with held := self.held ++ [dir] }

/-- Finish every directory deeper than an entry's parent, but never the destination itself. -/
def unwind (parent : Bytes) : (openDirs : List OpenDir) → Run σ ε Unit
  | dir :: below :: rest =>
      if dir.path ≠ parent then do
        modify fun self => { self with openDirs := below :: rest }
        finishDirectory sink dir
        unwind parent (below :: rest)
      else return ()
  | _ => return ()

/-- Finish every directory still open. -/
def closeAll : (openDirs : List OpenDir) → Run σ ε Unit
  | [] => return ()
  | dir :: rest => do
      modify fun self => { self with openDirs := rest }
      finishDirectory sink dir
      closeAll rest

/-- Open the directory at a path inside the destination to traverse from, one component at a time.
-/
def openDir (path blame : Bytes) : Run σ ε Handle := do
  let root ← openHandle sink blame (.openRoot true)
  descend root ((path.splitOn slash).filter fun component => !component.isEmpty)
where
  descend (fd : Handle) : List Bytes → Run σ ε Handle
    | [] => return fd
    | component :: rest => do
        MonadExcept.ofExcept (checkName component blame)
        let next ← openHandle sink blame (.openat fd component true)
        descend next rest

/-- Create another name for a file already written, from the path that first named it. Whether it
was created.
-/
def link (first name path : Bytes) : Run σ ε Bool := do
  let (firstParent, firstName) ← MonadExcept.ofExcept (split first)
  let parent ← openDir sink firstParent path
  match ← call sink path (.linkat parent firstName (← get).dir name) with
  | .ok _ => return true
  | .error e =>
      if forbidden e then
        if sink.skipPrivileged = false then
          throw (.unprivileged path
            "a second name for a node needs a host that permits a hard link to it")
        noteSkipped path
        return false
      else
        refusedName sink e path tooLong
        return false

/-- Create a directory and open it. Whether it was created. -/
def makeDirectory (name path : Bytes) (attrs : Attributes) : Run σ ε Bool := do
  match ← call sink path (.mkdirat (← get).dir name) with
  | .error e =>
      refusedName sink e path tooLong
      return false
  | .ok _ =>
      let fd ← openHandle sink path (.openat (← get).dir name false)
      modify fun self =>
        { self with openDirs := ⟨path, fd, attrs.metadata, attrs.xattrs⟩ :: self.openDirs }
      return true

/-- Create a symbolic link holding exactly the target recorded. Whether it was created. -/
def makeSymlink (target name path : Bytes) : Run σ ε Bool := do
  match ← call sink path (.symlinkat target (← get).dir name) with
  | .ok _ => return true
  | .error e =>
      refusedName sink e path targetTooLong
      return false

/-- Read back the number a device node was made with, and take the node out again where the host
made it as another device. Whether it stays.
-/
def heldDevice (name path : Bytes) (major minor : Nat) : Run σ ε Bool := do
  let made ← perform sink path (.stat (.name (← get).dir name true))
  if made.rdev = (major, minor) then return true
  else
    let _ ← perform sink path (.unlinkat (← get).dir name)
    if sink.skipUnsupported = false then throw (.unrepresentableDevice path major minor)
    noteSkipped path
    return false

/-- Create a device node, FIFO or socket. Whether it was created. -/
def makeNode (fileType : FileType) (major minor : Nat) (name path : Bytes) (attrs : Attributes)
    : Run σ ε Bool := do
  match ← call sink path
    (.mknodat (← get).dir name fileType (modeOf attrs.metadata) major minor) with
  | .ok _ => if fileType.isDevice then heldDevice sink name path major minor else return true
  | .error e =>
      if forbidden e then
        if sink.skipPrivileged = false then
          throw (.unprivileged path
            (if fileType.isDevice then "a device node needs CAP_MKNOD to create"
              else "this host refuses to create a node of this kind"))
        noteSkipped path
        return false
      else
        refusedName sink e path tooLong
        return false

variable (tree : HostTree σ ν ε)

/-- Hold the flags a node records to the destination, which holds none. -/
def noteFlags (node : ν) (path : Bytes) : Run σ ε Unit := do
  let flags ← readTree (tree.statedFlags · node)
  if flags = 0 then return ()
  else if sink.skipUnsupported = false then throw (.flagsNotHeld path flags)
  else
    modify fun self =>
      { self with report.fidelity := self.report.fidelity.record .dropped path .bsdFlags }

/-- Stream a file's bytes into the destination, a window at a time. -/
def copy (entry : TreeEntry ν) (fd : Handle) (size window offset : Nat) : Run σ ε Unit :=
  if _within : offset < size then do
    let want := min (size - offset) window
    let read ← readTree (tree.readBytes entry.node · offset want)
    let filled := read.take want
    if _more : filled = [] then throw (.shortRead entry.path size offset)
    else
      let _ ← perform sink entry.path (.writeAll fd filled)
      copy entry fd size window (offset + filled.length)
  else return ()
termination_by size - offset
decreasing_by
  have some_ : 0 < (read.take want).length := List.length_pos_of_ne_nil _more
  exact Nat.sub_lt_sub_left _within (Nat.lt_add_of_pos_right some_)

/-- Create a regular file and stream its contents into it: the handle its metadata is set through,
or nothing for a name the destination refuses.
-/
def writeFile (name : Bytes) (entry : TreeEntry ν) (size : Nat) : Run σ ε (Option Handle) := do
  if tree.checkFileSize size = false then
    throw (.limitExceeded tree.family entry.path size tree.maxFileBytes)
  let fd := (← get).log.length
  match ← call sink entry.path (.createat (← get).dir name) with
  | .error e =>
      refusedName sink e entry.path tooLong
      return none
  | .ok _ =>
      copy sink tree entry fd size (min size bodyWindow) 0
      return some fd

/-- Create what an entry is. Whether it was created, and the handle a regular file leaves behind. -/
def create (name : Bytes) (entry : TreeEntry ν) (attrs : Attributes)
    : Run σ ε (Bool × Option Handle) := do
  match entry.kind with
  | .directory =>
      if ← makeDirectory sink name entry.path attrs then return (true, none)
      modify fun self => { self with leftOut := some entry.path }
      return (false, none)
  | .file size =>
      let handle ← writeFile sink tree name entry size
      return (handle.isSome, handle)
  | .symlink =>
      let target ← readTree (tree.linkTarget · entry.node)
      return (← makeSymlink sink target name entry.path, none)
  | .charDevice major minor =>
      return (← makeNode sink .charDevice major minor name entry.path attrs, none)
  | .blockDevice major minor =>
      return (← makeNode sink .blockDevice major minor name entry.path attrs, none)
  | .fifo => return (← makeNode sink .fifo 0 0 name entry.path attrs, none)
  | .socket => return (← makeNode sink .socket 0 0 name entry.path attrs, none)

/-- Finish what is not a directory the moment it exists. -/
def finishEntry (name : Bytes) (entry : TreeEntry ν) (attrs : Attributes)
    (handle : Option Handle) : Run σ ε Unit :=
  match entry.kind, handle with
  | .directory, _ => return ()
  | _, some fd => finishFd sink fd attrs.metadata attrs.xattrs entry.path
  | kind, none =>
      finishName sink name attrs.metadata attrs.xattrs entry.path (kind = .symlink)

/-- Write an entry that is the first name for its node. -/
def writeFirst (name : Bytes) (entry : TreeEntry ν) : Run σ ε Unit := do
  let attrs ← readTree (tree.stat · entry.node)
  noteSynthesis attrs entry.path
  noteFlags sink tree entry.node entry.path
  let (made, handle) ← create sink tree name entry attrs
  if made = false then return ()
  else
    -- Named only now that it exists: what the host refused is nothing to link from.
    if let some id := entry.shared then
      modify fun self => { self with named := (id, entry.path) :: self.named }
    finishEntry sink name entry attrs handle
    countWritten

/-- Write one name. -/
def writeEntry (entry : TreeEntry ν) : Run σ ε Unit := do
  if (← get).leavesOut entry.path then return ()
  else
    modify fun self => { self with leftOut := none }
    let (parent, name) ← MonadExcept.ofExcept (split entry.path)
    unwind sink parent (← get).openDirs
    if (← get).openDirs.head?.map OpenDir.path ≠ some parent then throw (.outOfOrder entry.path)
    match (← get).firstName entry.shared with
    | some first => if ← link sink first name entry.path then countWritten
    | none => writeFirst sink tree name entry

/-- The root has no name of its own: the destination directory carries its metadata across. -/
def writeRoot (entry : TreeEntry ν) : Run σ ε Unit := do
  let attrs ← readTree (tree.stat · entry.node)
  noteSynthesis attrs [slash]
  noteFlags sink tree entry.node [slash]
  let fd ← openHandle sink [slash] (.openRoot false)
  modify fun self =>
    { self with openDirs := ⟨[], fd, attrs.metadata, attrs.xattrs⟩ :: self.openDirs }

/-- What is done with an entry the walk hands out. -/
def visit (entry : TreeEntry ν) : Run σ ε Unit :=
  if madeByTheFormat entry.path tree.family then return ()
  else if entry.path.isEmpty then writeRoot sink tree entry
  else writeEntry sink tree entry

/-- Set the metadata of every directory held back, the first held first. -/
def drainHeld : (held : List OpenDir) → Run σ ε Unit
  | [] => return ()
  | dir :: rest => do
      applyDirectory sink dir
      drainHeld rest

/-- Write the whole tree into the destination: the entries a walk hands out, the failure it then
ends in if it does, and the metadata of every directory that is still to be finished.
-/
def writeTree (entries : List (TreeEntry ν)) (failure : Option ε) : Run σ ε ExtractReport := do
  entries.forM (visit sink tree)
  if let some e := failure then throw (.read e)
  closeAll sink (← get).openDirs
  let held := (← get).held
  modify fun self => { self with held := [] }
  drainHeld sink held
  return (← get).report

end

end

end Ferrosys.Host
