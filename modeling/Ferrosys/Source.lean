import Ferrosys.Library.Chase
import Ferrosys.Resolve
import Mathlib.Data.List.Lex
import Mathlib.Order.Lattice

/-! Paths in the one spelling they are compared and ordered in. -/

namespace Ferrosys

/-- The canonical spelling of a path: its components with a separator between. -/
def canonicalKey (path : Bytes) : Bytes := [slash].intercalate (canonicalParts path)

/-- A canonical spelling, as a key in byte order. -/
structure Key where
  bytes : Bytes

namespace Key

def order (key : Key) : List Nat := key.bytes.map UInt8.toNat

theorem order_injective : Function.Injective order := by
  intro first second same
  have bytes := List.map_injective_iff.mpr (fun _ _ => UInt8.toNat_inj.mp) same
  exact congrArg Key.mk bytes

instance : LinearOrder Key := LinearOrder.lift' order order_injective

theorem le_iff {first second : Key} : first ≤ second ↔ first.order ≤ second.order := Iff.rfl

/-- The key a path is compared as. -/
def of (path : Bytes) : Key := ⟨canonicalKey path⟩

/-- What every key beneath this one begins with: the key and a separator, nothing for the root. -/
def above (key : Key) : Key := if key.bytes = [] then key else ⟨key.bytes ++ [slash]⟩

/-- One key begins with another. -/
def StartsWith (key first : Key) : Prop := first.bytes <+: key.bytes

instance (key first : Key) : Decidable (key.StartsWith first) :=
  inferInstanceAs (Decidable (_ <+: _))

theorem startsWith_iff {key first : Key} : key.StartsWith first ↔ first.order <+: key.order := by
  refine ⟨fun begins => begins.map _, fun begins => ?_⟩
  obtain ⟨bytes, short, same⟩ := List.prefix_map_iff.mp begins
  obtain rfl : first = ⟨bytes⟩ := order_injective same
  exact short

/-- A list that begins with another is no less than it, by induction on that one. -/
theorem le_of_begins {first list : List Nat} (begins : first <+: list) : first ≤ list := by
  obtain ⟨rest, rfl⟩ := begins
  induction first with
  | nil => exact not_lt.mp (List.not_lt_nil _)
  | cons n first ih => exact List.cons_le_cons n ih

/-- What is between a list and one that begins with it begins with it too, by induction on it. -/
theorem prefix_of_between {first middle last : List Nat} (begins : first <+: last)
    (low : first ≤ middle) (high : middle ≤ last) : first <+: middle := by
  induction first generalizing middle last with
  | nil => exact List.nil_prefix
  | cons n first ih =>
      obtain ⟨rest, rfl⟩ := begins
      cases middle with
      | nil => exact absurd (List.nil_lt_cons n first) (not_lt.mpr low)
      | cons m middle =>
          rw [List.cons_append] at high
          have low := not_lt.mpr low
          have high := not_lt.mpr high
          rw [List.cons_lt_cons_iff, not_or, not_and] at low high
          obtain rfl : m = n := Nat.le_antisymm (Nat.not_lt.mp high.1) (Nat.not_lt.mp low.1)
          exact List.cons_prefix_cons.mpr ⟨rfl, ih (List.prefix_append first rest)
            (not_lt.mp (low.2 rfl)) (not_lt.mp (high.2 rfl))⟩

/-- A key begins with itself or comes after what it begins with. -/
theorem StartsWith.le {key first : Key} (begins : key.StartsWith first) : first ≤ key :=
  le_iff.mpr (le_of_begins (startsWith_iff.mp begins))

/-- The keys that begin with one are neighbours from it on. -/
theorem StartsWith.of_between {first middle last : Key} (begins : last.StartsWith first)
    (low : first ≤ middle) (high : middle ≤ last) : middle.StartsWith first :=
  startsWith_iff.mpr
    (prefix_of_between (startsWith_iff.mp begins) (le_iff.mp low) (le_iff.mp high))

end Key

end Ferrosys

/-! What a filesystem is made from: entries at paths, a hard link among them naming another by its
path, and the walk that follows a chain of links to whatever is at its end.
-/

namespace Ferrosys

variable {γ μ δ : Type}

/-- What to place at a path, a file's content being whatever the source holds it in. -/
inductive EntryKind (γ : Type) where
  | directory
  | file (content : γ)
  | symlink (target : Bytes)
  | hardLink (target : Bytes)
  | charDevice (major minor : Nat)
  | blockDevice (major minor : Nat)
  | fifo
  | socket
deriving DecidableEq

structure Xattr where
  name : Bytes
  value : Bytes
deriving DecidableEq

/-- One thing to place in a filesystem: where it goes, what it is, its metadata, its extended
attributes and what a Darwin filesystem records of it.
-/
structure SourceEntry (γ μ δ : Type) where
  path : Bytes
  kind : EntryKind γ
  metadata : μ
  xattrs : List Xattr
  darwin : Option δ
deriving DecidableEq

/-- What a source declares at one path, as far as following a hard link is concerned. -/
inductive LinkStep (τ : Type) where
  | file (found : τ)
  | directory
  | unrepresentable
  | link (next : Key)
  | missing

/-- Where a chain of hard links ends. -/
inductive LinkEnd (τ : Type) where
  | file (found : τ)
  | unrepresentable
  | directory
  | missing
  | cycle
deriving DecidableEq

/-- A link goes on, and all else ends a chain. -/
def LinkStep.turn {τ : Type} : LinkStep τ → Chase.Step Key (LinkEnd τ)
  | .file found => .stop (.file found)
  | .directory => .stop .directory
  | .unrepresentable => .stop .unrepresentable
  | .missing => .stop .missing
  | .link next => .link next

/-- Follow the chain of hard links beginning at `target` to whatever is at its end: more links than
paths are declared come back to somewhere they have been.
-/
def followHardLink {τ : Type} (target : Bytes) (declared : Nat) (step : Key → LinkStep τ)
    : LinkEnd τ :=
  (Chase.follow (fun at_ => (step at_).turn) declared (.of target)).getD .cycle

end Ferrosys
