import Ferrosys.Bytes
import Ferrosys.Library.Checked
import Ferrosys.Library.Chunks
import Ferrosys.Library.Utf
import Mathlib.Data.Nat.Digits.Defs

/-! Names: the short name every entry of a directory has, and the long-name entries that carry the
name a caller wrote.
-/

namespace Ferrosys.Fat.Name

open Chunks

def shortNameLen : Nat := 11
def baseLen : Nat := 8
def extLen : Nat := 3
def maxNameUnits : Nat := 255
def maxTail : Nat := 999999
def lfnCharsPerEntry : Nat := 13
def lfnMaxEntries : Nat := 20
def lfnLastEntry : UInt8 := 0x40
def lfnPadding : UInt16 := 0xFFFF
def nameDeleted : UInt8 := 0xE5
def nameLeadingE5 : UInt8 := 0x05

/-- The byte an unrepresentable character becomes in a short name. -/
def substitute : UInt8 := 0x5F

/-- What a long name excludes: the nine characters `"*/:<>?\|`. -/
def reservedNameChars : Bytes := [0x22, 0x2A, 0x2F, 0x3A, 0x3C, 0x3E, 0x3F, 0x5C, 0x7C]

/-- What a short name excludes besides: the characters `+,.;=[]`. -/
def shortNameAlsoForbidden : Bytes := [0x2B, 0x2C, 0x2E, 0x3B, 0x3D, 0x5B, 0x5D]

/-- Whether no name on a volume may contain the character. -/
def isReservedNameChar (ch : Char) : Bool :=
  ch.toNat < 0x80
    && (reservedNameChars.contains (UInt8.ofNat ch.toNat) || decide (ch.toNat < 0x20))

/-- Whether a short name may not hold the byte, wherever it sits. -/
def isReservedShortByte (byte : UInt8) : Bool :=
  byte == 0x7F || shortNameAlsoForbidden.contains byte
    || isReservedNameChar (Char.ofNat byte.toNat)

inductive NameError where
  | notUtf8
  | empty
  | tooLong (units limit : Nat)
  | forbiddenCharacter (ch : Char)
  | trailingDotOrSpace
  | tailsExhausted (stem : Bytes) (limit : Nat)
deriving DecidableEq

/-- One long-name entry: thirteen units of a name, its place in the sequence, and the checksum of
the short entry it belongs to.
-/
structure LfnEntry where
  order : UInt8
  name : List UInt16
  checksum : UInt8
  sized : name.length = lfnCharsPerEntry
deriving DecidableEq

/-- The rotate-and-add checksum over a short name. -/
def lfnChecksum (name : Bytes) : UInt8 :=
  name.foldl (fun sum byte => ((sum >>> 1) ||| (sum <<< 7)) + byte) 0

/-- A name as a directory stores it: the short name, and the units of the long name where the short
one is not the name that was asked for.
-/
structure PlacedName where
  short : Bytes
  long : Option (List UInt16)
deriving DecidableEq

/-- The units of an entry: those of a chunk, and behind them a zero and the padding. -/
def entryName (chunk : List UInt16) : List UInt16 :=
  (List.range lfnCharsPerEntry).map fun k =>
    if k < chunk.length then chunk[k]?.getD 0 else if k = chunk.length then 0 else lfnPadding

@[simp] theorem length_entryName (chunk : List UInt16)
    : (entryName chunk).length = lfnCharsPerEntry := by
  rw [entryName, List.length_map, List.length_range]

/-- The long-name entries in the order they are written, which is the name's reversed. -/
def PlacedName.lfnEntries (self : PlacedName) : List LfnEntry :=
  match self.long with
  | none => []
  | some units =>
      let checksum := lfnChecksum self.short
      let pieces := chunks lfnCharsPerEntry units
      let last := pieces.length - 1
      pieces.zipIdx.reverse.map fun (chunk, i) => {
        order := (UInt8.ofNat i + 1) ||| (if i = last then lfnLastEntry else 0)
        name := entryName chunk
        checksum
        sized := length_entryName chunk
      }

/-! The derivation of a short name. -/

/-- The byte of a short name that a character folds to. -/
def shortByte (ch : Char) : UInt8 :=
  if ch.toNat < 0x80 then
    let byte := UInt8.ofNat ch.toNat
    let upper := if 0x61 ≤ byte ∧ byte ≤ 0x7A then byte - 0x20 else byte
    if isReservedShortByte upper then substitute else upper
  else substitute

/-- A part folded up, without its dots and spaces, as far as the field goes. -/
def shorten : (limit : Nat) → List Char → Bytes
  | 0, _ => []
  | _, [] => []
  | limit + 1, ch :: rest =>
      if ch = '.' ∨ ch = ' ' then shorten (limit + 1) rest else shortByte ch :: shorten limit rest

/-- What stands before the last dot and behind it. -/
def splitLast (text : List Char) : List Char × List Char :=
  match text.reverse.idxOf? '.' with
  | some behind => (text.take (text.length - behind - 1), text.drop (text.length - behind))
  | none => (text, [])

/-- The base and the extension a name shortens to, before any tail. -/
def stem (name : List Char) : Bytes × Bytes :=
  let trimmed := name.dropWhile fun ch => ch = '.' ∨ ch = ' '
  let (baseSrc, extSrc) := splitLast trimmed
  let base := shorten baseLen baseSrc
  let ext := shorten extLen extSrc
  -- The source asserts in a debugging build that the base is not empty.
  (if base.isEmpty then base ++ [substitute] else base, ext)

/-- `part` with spaces behind it up to a field's length. -/
def padded (part : Bytes) (length : Nat) : Bytes :=
  part ++ List.replicate (length - part.length) 0x20

/-- The name field of a base and an extension. -/
def assemble (base ext : Bytes) : Bytes :=
  match padded base baseLen ++ padded ext extLen with
  | [] => []
  | first :: rest => (if first = nameDeleted then nameLeadingE5 else first) :: rest

/-- A field without the spaces at its end. -/
def unpadded (field : Bytes) : Bytes := (field.reverse.dropWhile (· == 0x20)).reverse

def hexDigit (n : Nat) : Char := Char.ofNat (if n < 10 then 0x30 + n else 0x57 + n)

/-- A number in hexadecimal, with `width` digits. -/
def hex : (width : Nat) → Nat → List Char
  | 0, _ => []
  | width + 1, n => hex width (n / 16) ++ [hexDigit (n % 16)]

def isDirectionControl (ch : Char) : Bool :=
  let code := ch.toNat
  code == 0x200E || code == 0x200F || code == 0x061C || (0x202A ≤ code && code ≤ 0x202E)
    || (0x2066 ≤ code && code ≤ 0x2069)

def isControl (ch : Char) : Bool :=
  ch.toNat < 0x20 || (0x7F ≤ ch.toNat && ch.toNat ≤ 0x9F)

/-- Bytes as text, with what a terminal acts on escaped. -/
def printable (bytes : Bytes) : List Char :=
  (Utf.lossy bytes).flatMap fun ch =>
    if ch = '\\' then ['\\', '\\']
    else if isControl ch then ['\\', 'x'] ++ hex 2 ch.toNat
    else if isDirectionControl ch then ['\\', 'u', '\x7b'] ++ hex 4 ch.toNat ++ ['\x7d']
    else [ch]

/-- The name a short-name field renders back to. -/
def render (short : Bytes) : List Char :=
  let base := printable (unpadded (short.take baseLen))
  let ext := unpadded (short.drop baseLen)
  if ext.isEmpty then base else base ++ '.' :: printable ext

/-- The units of a name, or the reason the format cannot hold it. -/
def longNameUnits (name : Bytes) : Except NameError (List UInt16) := do
  let text ← Checked.okOr (Utf.decode name) .notUtf8
  Checked.refuseIf text.isEmpty .empty
  match text.find? fun ch => isReservedNameChar ch || ch.toNat == lfnPadding.toNat with
  | some ch => .error (.forbiddenCharacter ch)
  | none =>
      Checked.refuseIf (text.getLast? == some '.' || text.getLast? == some ' ') .trailingDotOrSpace
      let units := Utf.encodeUtf16 text
      Checked.refuseIf (decide (units.length > maxNameUnits)) (.tooLong units.length maxNameUnits)
      return units

/-- The short names a directory has handed out. -/
structure DirNames where
  used : List Bytes
deriving DecidableEq

namespace DirNames

def empty : DirNames := ⟨[]⟩

/-- A number in decimal. -/
def decimal (n : Nat) : Bytes :=
  (Nat.digits 10 n).reverse.map fun digit => UInt8.ofNat (0x30 + digit)

/-- The base cut down so that the tail of `n` fits behind it. -/
def tailed (base : Bytes) (n : Nat) : Bytes :=
  let tail := 0x7E :: decimal n
  base.take (min base.length (baseLen - tail.length)) ++ tail

/-- The first tail from `n` on that no entry has, `turns` of them at most. -/
def tailFrom (used : List Bytes) (base ext : Bytes) : (turns n : Nat) → Option Bytes
  | 0, _ => none
  | turns + 1, n =>
      let candidate := assemble (tailed base n) ext
      if used.contains candidate then tailFrom used base ext turns (n + 1) else some candidate

/-- The first form with a tail of this stem that no entry holds. -/
def withTail (self : DirNames) (base ext : Bytes) : Except NameError (Bytes × DirNames) :=
  match tailFrom self.used base ext maxTail 1 with
  | some candidate => .ok (candidate, ⟨candidate :: self.used⟩)
  | none => .error (.tailsExhausted base maxTail)

/-- Place a name in the directory, with a short name no other entry has. -/
def place (self : DirNames) (name : Bytes) : Except NameError (PlacedName × DirNames) := do
  let units ← longNameUnits name
  let text ← Checked.okOr (Utf.decode name) .notUtf8
  let (base, ext) := stem text
  let plain := assemble base ext
  let (short, self) ←
    if self.used.contains plain then self.withTail base ext else .ok (plain, ⟨plain :: self.used⟩)
  return (⟨short, if render short ≠ text then some units else none⟩, self)

end DirNames

end Ferrosys.Fat.Name
