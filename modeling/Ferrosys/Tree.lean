import Ferrosys.Bytes

/-! The extraction surface: what a sink needs of any family's reader. A walk hands out entries,
and a node's attributes, bytes and link target are read by the handle its entry carries.
-/

namespace Ferrosys

inductive Family where
  | ext
  | fat
  | exFat
  | btrfs
  | apfs
deriving DecidableEq

/-- A 64-bit length has a zero: the one instance every module's lengths use. -/
instance neZero_length : NeZero (2 ^ 64) := ⟨by decide⟩

/-- What a node in a filesystem tree is. A file's length is how much a read of it yields. -/
inductive NodeKind where
  | directory
  | file (size : Fin (2 ^ 64))
  | symlink
  | charDevice (major minor : Nat)
  | blockDevice (major minor : Nat)
  | fifo
  | socket
deriving DecidableEq

/-- One name a walk reached. Two entries of one shared identity are two names for one node. -/
structure TreeEntry (ν : Type) where
  path : Bytes
  kind : NodeKind
  shared : Option Nat
  node : ν
deriving DecidableEq

/-- A failure reading a filesystem through the extraction surface: the family's own, or a node
whose recorded type names no kind of node.
-/
inductive TreeError (ε : Type) where
  | read (error : ε)
  | noFileType (number type_ : Nat)
deriving DecidableEq

/-- A family's reader as a sink drains it. The names a walk has still to hand out are part of the
reader, and every operation leaves the reader as it then stands.
-/
structure FsTree (σ ν α ε : Type) where
  family : Family
  maxFileBytes : Nat
  next : σ → Except ε (Option (TreeEntry ν × σ))
  stat : σ → ν → Except ε (α × σ)
  readBytes : ν → σ → (offset len : Nat) → Except ε (Bytes × σ)
  linkTarget : σ → ν → Except ε (Bytes × σ)

namespace FsTree

variable {σ ν α ε : Type}

/-- The file is no longer than the cap a read through the reader is held to. -/
def checkFileSize (self : FsTree σ ν α ε) (size : Nat) : Bool := size ≤ self.maxFileBytes

end FsTree

def lostFound : Bytes := "/lost+found".toUTF8.toList

/-- The path is one the family's format makes for itself, which a sink leaves out. -/
def madeByTheFormat (path : Bytes) (family : Family) : Bool :=
  match family with
  | .ext => path == lostFound || (lostFound ++ "/".toUTF8.toList).isPrefixOf path
  | _ => false

end Ferrosys
