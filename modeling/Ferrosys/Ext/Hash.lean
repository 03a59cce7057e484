import Ferrosys.Bytes
import Ferrosys.Library.Chunks

/-! The hashes a hash-indexed directory is ordered by: a major one the index is keyed by, whose low
bit is clear, and a minor one that orders names sharing it.
-/

namespace Ferrosys.Ext

open Chunks

inductive HashVersion where
  | legacy
  | halfMd4
  | tea
deriving DecidableEq

def HashVersion.toU8 : HashVersion → Nat
  | legacy => 0
  | halfMd4 => 1
  | tea => 2

def HashVersion.fromU8 : Nat → Option HashVersion
  | 0 => some .legacy
  | 1 => some .halfMd4
  | 2 => some .tea
  | _ => none

/-- How a name's bytes are interpreted when hashed. -/
inductive HashSignedness where
  | unsigned
  | signed
deriving DecidableEq

namespace HashSignedness

def signedFlag : Nat := 1

def fromFlags (flags : Nat) : HashSignedness :=
  if flags &&& signedFlag ≠ 0 then .signed else .unsigned

/-- A name's byte as a hash reads it, sign-extended where names hash as signed. -/
def widen (self : HashSignedness) (byte : UInt8) : UInt32 :=
  match self with
  | .unsigned => byte.toUInt32
  | .signed => if byte < 0x80 then byte.toUInt32 else byte.toUInt32 ||| 0xffffff00

end HashSignedness

/-- A name's place in a directory index. -/
structure DirHash where
  major : UInt32
  minor : UInt32
deriving DecidableEq

/-- Four registers of a hash. -/
structure Registers where
  a : UInt32
  b : UInt32
  c : UInt32
  d : UInt32
deriving DecidableEq

def md4Initial : Registers := ⟨0x67452301, 0xefcdab89, 0x98badcfe, 0x10325476⟩

/-- The end of a directory's hash space, which no major hash is. -/
def endOfSpace : UInt32 := (0x7fffffff : UInt32) <<< 1

/-- The state a hash starts from: the seed's four words, or built in where they are all zero. -/
def initialState (seed : Bytes) : Registers :=
  let word (i : Nat) : UInt32 := UInt32.ofNat (getU32 seed (4 * i))
  let state : Registers := ⟨word 0, word 1, word 2, word 3⟩
  if state = ⟨0, 0, 0, 0⟩ then md4Initial else state

/-- Move a major hash off the end of the space. -/
def offTheEnd (major : UInt32) : UInt32 :=
  if major = endOfSpace then (0x7fffffff - 1 : UInt32) <<< 1 else major

/-- The major hash a name has where a writer leaves one at the end of the space. -/
def unmovedMajor (major : UInt32) : Option UInt32 :=
  if major = offTheEnd endOfSpace then some endOfSpace else none

/-- The legacy hash, a byte at a time. -/
def legacy (name : Bytes) (signedness : HashSignedness) : UInt32 :=
  let (newer, _) := name.foldl
    (fun (newer, older) byte =>
      let next := older + (newer ^^^ (signedness.widen byte * 0x006d22f5))
      let next := if next &&& 0x80000000 ≠ 0 then next - 0x7fffffff else next
      (next, newer))
    ((0x12a3fe2d : UInt32), (0x37abe8f9 : UInt32))
  newer <<< 1

/-- One chunk of a name as `n` words, each starting from a pad of the chunk's length. -/
def pack (n : Nat) (chunk : Bytes) (signedness : HashSignedness) : List UInt32 :=
  let pad := UInt32.ofNat (chunk.length % 2 ^ 8) * 0x01010101
  (List.range n).map fun i =>
    match (chunks 4 chunk)[i]? with
    | none => pad
    | some bytes => bytes.foldl (fun word byte => (word <<< 8) + signedness.widen byte) pad

/-- MD4's three boolean functions. -/
inductive Mix where
  | conditional
  | majority
  | parity

def Mix.of (self : Mix) (x y z : UInt32) : UInt32 :=
  match self with
  | conditional => (x &&& y) ||| (~~~x &&& z)
  | majority => (x &&& y) ||| (x &&& z) ||| (y &&& z)
  | parity => x ^^^ y ^^^ z

/-- One of half-MD4's three rounds. -/
structure Round where
  mix : Mix
  constant : UInt32
  shifts : List UInt32
  order : List Nat

def halfMd4Rounds : List Round :=
  [⟨.conditional, 0, [3, 7, 11, 19], [0, 1, 2, 3, 4, 5, 6, 7]⟩,
    ⟨.majority, 0x5a827999, [3, 5, 9, 13], [1, 3, 5, 7, 0, 2, 4, 6]⟩,
    ⟨.parity, 0x6ed9eba1, [3, 9, 11, 15], [3, 7, 2, 6, 1, 5, 0, 4]⟩]

def rotateLeft (word shift : UInt32) : UInt32 := (word <<< shift) ||| (word >>> (32 - shift))

/-- Fold eight words into `state`. -/
def halfMd4 (state : Registers) (words : List UInt32) : Registers :=
  let turned := halfMd4Rounds.foldl
    (fun registers round =>
      round.order.zipIdx.foldl
        (fun (r : Registers) (word, step) =>
          let replaced := rotateLeft
            (r.a + round.mix.of r.b r.c r.d + words.getD word 0 + round.constant)
            (round.shifts.getD (step % 4) 0)
          ⟨r.d, replaced, r.b, r.c⟩)
        registers)
    state
  ⟨state.a + turned.a, state.b + turned.b, state.c + turned.c, state.d + turned.d⟩

def teaDelta : UInt32 := 0x9e3779b9

/-- Sixteen cycles over the first two words of `state`, keyed by four words. -/
def tea (state : Registers) (key : List UInt32) : Registers :=
  let (v0, v1, _) := (List.range 16).foldl
    (fun (v0, v1, sum) _ =>
      let sum := sum + teaDelta
      let v0 := v0 + (((v1 <<< 4) + key.getD 0 0) ^^^ (v1 + sum) ^^^ ((v1 >>> 5) + key.getD 1 0))
      let v1 := v1 + (((v0 <<< 4) + key.getD 2 0) ^^^ (v0 + sum) ^^^ ((v0 >>> 5) + key.getD 3 0))
      (v0, v1, sum))
    (state.a, state.b, (0 : UInt32))
  { state with a := state.a + v0, b := state.b + v1 }

/-- Hash a name for a directory index. -/
def dirHash (name : Bytes) (version : HashVersion) (signedness : HashSignedness) (seed : Bytes)
    : DirHash :=
  let (major, minor) :=
    match version with
    | .legacy => (legacy name signedness, 0)
    | .halfMd4 =>
        let state := (chunks 32 name).foldl
          (fun state chunk => halfMd4 state (pack 8 chunk signedness)) (initialState seed)
        (state.b, state.c)
    | .tea =>
        let state := (chunks 16 name).foldl
          (fun state chunk => tea state (pack 4 chunk signedness)) (initialState seed)
        (state.a, state.b)
  ⟨offTheEnd (major &&& ~~~1), minor⟩

/-- Off the end, a hash whose low bit is clear keeps it so. -/
theorem offTheEnd_spec {major : UInt32} (clear : major &&& 1 = 0)
    : offTheEnd major &&& 1 = 0 ∧ offTheEnd major ≠ endOfSpace := by
  unfold offTheEnd
  split
  next => exact ⟨by decide, by decide⟩
  next here => exact ⟨clear, here⟩

/-- A major hash has its low bit clear and is not the end of the space. -/
theorem dirHash_major (name : Bytes) (version : HashVersion) (signedness : HashSignedness)
    (seed : Bytes)
    : (dirHash name version signedness seed).major &&& 1 = 0
      ∧ (dirHash name version signedness seed).major ≠ endOfSpace := by
  have cleared (word : UInt32) : (word &&& ~~~1) &&& 1 = 0 := by
    rw [UInt32.and_assoc, show (~~~1 &&& 1 : UInt32) = 0 by decide, UInt32.and_zero]
  exact offTheEnd_spec (cleared _)

end Ferrosys.Ext
