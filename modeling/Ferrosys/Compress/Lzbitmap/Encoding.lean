import Ferrosys.Compress.Lzbitmap

/-! The LZBITMAP encoding: blocks of steps laid out in their areas, and the stream of them. -/

namespace Ferrosys.Compress.Lzbitmap

open Checked Machine Splice

/-- One step: its mask, the distance bytes it reads, and the literals of the bits set in it. -/
structure Step where
  mask : Nat
  distance : Bytes
  literals : Bytes
deriving DecidableEq

/-- Consecutive steps of one selector, and the count that says how many, where there is one. -/
structure Run where
  selector : Nat
  counted : Option Nat
  steps : List Step
deriving DecidableEq

/-- What is left of a block to produce, the output so far, and the distance in force. -/
structure Progress where
  left : Nat
  out : Bytes
  distance : Nat
deriving DecidableEq

/-- Whether a bit of a mask is set. -/
def isSet (mask i : Nat) : Bool := mask / 2 ^ i % 2 = 1

/-- How many of `count` bits of a mask from the `i`th on are set. -/
def setBits (mask count i : Nat) : Nat := (List.range' i count).countP (isSet mask)

/-- The bytes of a step behind the output: literals where the mask's bits are set, and the bytes
the distance back where they are clear.
-/
def produce (mask distance : Nat) : (count i : Nat) → (literals out : Bytes) → Bytes
  | 0, _, _, out => out
  | count + 1, i, literals, out =>
      if isSet mask i then
        match literals with
        | [] => out
        | byte :: rest => produce mask distance count (i + 1) rest (out ++ [byte])
      else
        match out[out.length - distance]? with
        | some byte => produce mask distance count (i + 1) literals (out ++ [byte])
        | none => out

namespace Step

/-- The distance in force once a step has read its own, where it has one. -/
def distanceAfter (step : Step) (last : Nat) : Nat :=
  if step.distance = [] then last else fromLeBytes step.distance

/-- A step stops at the block's end, holds a literal for each of its set bits, and where it copies
reaches past its own bytes and not before the output's start.
-/
def Fits (step : Step) (progress : Progress) : Prop :=
  0 < progress.left
    ∧ step.literals.length = setBits step.mask (min progress.left stepLen) 0
    ∧ ((∃ i < min progress.left stepLen, isSet step.mask i = false) →
      stepLen ≤ step.distanceAfter progress.distance
        ∧ step.distanceAfter progress.distance ≤ progress.out.length)

instance (step : Step) (progress : Progress) : Decidable (step.Fits progress) :=
  inferInstanceAs (Decidable (_ ∧ _ ∧ (_ → _)))

def expand (step : Step) (progress : Progress) : Progress where
  left := progress.left - min progress.left stepLen
  out := produce step.mask (step.distanceAfter progress.distance) (min progress.left stepLen) 0
    step.literals progress.out
  distance := step.distanceAfter progress.distance

/-- The selector names the step's mask and its count of distance bytes. -/
def Named (entries : List (Nat × Nat)) (selector : Nat) (step : Step) : Prop :=
  (selector < firstTableSelector ∧ step.mask < 256 ∧ step.distance.length = selector)
    ∨ (firstTableSelector ≤ selector ∧ selector < repeatSelector
      ∧ entries[selector - firstTableSelector]? = some (step.mask, step.distance.length))

instance (entries : List (Nat × Nat)) (selector : Nat) (step : Step)
    : Decidable (step.Named entries selector) :=
  inferInstanceAs (Decidable (_ ∨ _))

end Step

/-- Every step fits where its turn comes. -/
def Follow : List Step → Progress → Prop
  | [], _ => True
  | step :: rest, progress => step.Fits progress ∧ Follow rest (step.expand progress)

instance instDecidableFollow : (list : List Step) → (progress : Progress)
    → Decidable (Follow list progress)
  | [], _ => isTrue trivial
  | step :: rest, progress =>
      have := instDecidableFollow rest (step.expand progress)
      inferInstanceAs (Decidable (_ ∧ _))

def expandSteps (steps : List Step) (progress : Progress) : Progress :=
  steps.foldl (fun progress step => step.expand progress) progress

/-- The selectors of a count past the one that announces it. -/
def countNibbles (extra : Nat) : List Nat :=
  List.replicate (extra / repeatSelector) repeatSelector ++ [extra % repeatSelector]

namespace Run

/-- A run is of one step or of as many as its count says, which is not read where eight bytes or
fewer are left and may run past the block's end.
-/
def Fits (entries : List (Nat × Nat)) (left : Nat) (run : Run) : Prop :=
  (∀ step ∈ run.steps, step.Named entries run.selector)
    ∧ match run.counted with
      | none => run.steps.length = 1
      | some total => stepLen < left ∧ repeatBase ≤ total
        ∧ run.steps.length = min total ((left + 7) / 8)

instance (entries : List (Nat × Nat)) (left : Nat) (run : Run)
    : Decidable (run.Fits entries left) := by
  obtain ⟨selector, counted, steps⟩ := run
  cases counted <;> unfold Fits <;> infer_instance

/-- The run's selectors. -/
def nibbles (run : Run) : List Nat :=
  run.selector :: match run.counted with
    | none => []
    | some total => repeatSelector :: countNibbles (total - repeatBase)

/-- The masks the run takes from the masks. -/
def masks (run : Run) : Bytes :=
  if run.selector < firstTableSelector then run.steps.map fun step => UInt8.ofNat step.mask
  else []

end Run

/-- The runs fit where their turns come, and produce the whole block. -/
def Lays (entries : List (Nat × Nat)) : List Run → Progress → Prop
  | [], progress => progress.left = 0
  | run :: rest, progress =>
      run.Fits entries progress.left ∧ Follow run.steps progress
        ∧ Lays entries rest (expandSteps run.steps progress)

instance instDecidableLays (entries : List (Nat × Nat)) : (runs : List Run) → (progress : Progress)
    → Decidable (Lays entries runs progress)
  | [], _ => inferInstanceAs (Decidable (_ = _))
  | run :: rest, progress =>
      have := instDecidableLays entries rest (expandSteps run.steps progress)
      inferInstanceAs (Decidable (_ ∧ _ ∧ _))

def expandRuns (runs : List Run) (progress : Progress) : Progress :=
  runs.foldl (fun progress run => expandSteps run.steps progress) progress

/-- So many little-endian bytes of a number. -/
def toLeBytes : (count n : Nat) → Bytes
  | 0, _ => []
  | count + 1, n => UInt8.ofNat n :: toLeBytes count (n / 256)

/-- The selectors bytes hold, each byte's low half first. -/
def nibblesOf (bytes : Bytes) : List Nat :=
  bytes.flatMap fun byte => [byte.toNat % 16, byte.toNat / 16]

/-- The entries packed from the lowest bit up, each a mask and then its count of bytes. -/
def packed : List (Nat × Nat) → Nat
  | [] => 0
  | entry :: rest => entry.1 + entry.2 * 256 + 1024 * packed rest

/-- A compressed block: what it decodes to, its runs, its table and the table's last two bytes, and
its masks and selectors, either of which may hold bytes no step takes.
-/
structure Packed where
  decoded : Nat
  runs : List Run
  entries : List (Nat × Nat)
  tail : Bytes
  masks : Bytes
  selectors : Bytes
deriving DecidableEq

namespace Packed

def literals (block : Packed) : Bytes :=
  block.runs.flatMap fun run => run.steps.flatMap Step.literals

def distances (block : Packed) : Bytes :=
  block.runs.flatMap fun run => run.steps.flatMap Step.distance

def table (block : Packed) : Bytes := toLeBytes 15 (packed block.entries) ++ block.tail

/-- The areas behind the block's header. -/
def areas (block : Packed) : Bytes :=
  block.literals ++ (block.distances ++ (block.masks ++ (block.selectors ++ block.table)))

def literalsEnd (block : Packed) : Nat := compressedHeader + block.literals.length
def distancesEnd (block : Packed) : Nat := block.literalsEnd + block.distances.length
def selectorsAt (block : Packed) : Nat := block.distancesEnd + block.masks.length

def length (block : Packed) : Nat := compressedHeader + block.areas.length

def bytes (block : Packed) : Bytes :=
  toLeBytes 3 block.length ++ toLeBytes 3 block.decoded ++ toLeBytes 3 block.literalsEnd
    ++ toLeBytes 3 block.distancesEnd ++ toLeBytes 3 block.selectorsAt ++ block.areas

/-- The block is laid out within the rules, and its runs produce it from what is there. -/
structure Fits (block : Packed) (out : Bytes) : Prop where
  pos : 0 < block.decoded
  most : block.decoded ≤ maxDecoded
  shorter : block.length < block.decoded + blockHeader
  entries_length : block.entries.length = tableEntries
  entries_fit : ∀ entry ∈ block.entries, entry.1 < 256 ∧ entry.2 ≤ 2
  tail_length : block.tail.length = 2
  selectors_pos : 0 < block.selectors.length
  selectors_le : block.selectors.length ≤ maxSelectorBytes
  masks_held : block.runs.flatMap Run.masks <+: block.masks ++ block.selectors
  selectors_held : block.runs.flatMap Run.nibbles <+: nibblesOf (block.selectors ++ block.table)
  lays : Lays block.entries block.runs ⟨block.decoded, out, stepLen⟩

def expand (block : Packed) (out : Bytes) : Bytes :=
  (expandRuns block.runs ⟨block.decoded, out, stepLen⟩).out

end Packed

/-- A block: bytes as they are, or compressed. -/
inductive Block where
  | stored (bytes : Bytes)
  | packed (block : Packed)
deriving DecidableEq

namespace Block

def bytes : Block → Bytes
  | stored bytes => toLeBytes 3 (bytes.length + blockHeader) ++ toLeBytes 3 bytes.length ++ bytes
  | packed block => block.bytes

/-- A block is of one byte to 32 KiB, and compressed only where the signature admits it. -/
def Fits (rawOnly : Bool) (out : Bytes) : Block → Prop
  | stored bytes => 0 < bytes.length ∧ bytes.length ≤ maxDecoded
  | packed block => rawOnly = false ∧ block.Fits out

def expand (out : Bytes) : Block → Bytes
  | stored bytes => out ++ bytes
  | packed block => block.expand out

end Block

/-- Every block fits where its turn comes. -/
def Chain (rawOnly : Bool) : List Block → Bytes → Prop
  | [], _ => True
  | block :: rest, out => block.Fits rawOnly out ∧ Chain rawOnly rest (block.expand out)

def expansion (blocks : List Block) (out : Bytes) : Bytes :=
  blocks.foldl (fun out block => block.expand out) out

/-- What the fourth byte of a signature admits. -/
def Admits (fourth : UInt8) (rawOnly : Bool) : Prop :=
  if rawOnly then fourth = 0x0C ∨ fourth = 0x0D else fourth = 0x08 ∨ fourth = 0x09

instance (fourth : UInt8) (rawOnly : Bool) : Decidable (Admits fourth rawOnly) := by
  unfold Admits
  infer_instance

/-- The block that ends a stream. -/
def endBlock : Bytes := [6, 0, 0, 0, 0, 0]

def stream (fourth : UInt8) (blocks : List Block) : Bytes :=
  signature ++ [fourth] ++ blocks.flatMap Block.bytes ++ endBlock

end Ferrosys.Compress.Lzbitmap
