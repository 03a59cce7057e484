import Ferrosys.Ext.ReadError
import Ferrosys.Library.Sweep

/-! The runs of blocks a container's structures reach and its free queues hold, and the blocks two
of them claim.
-/

namespace Ferrosys.Apfs.Space

open Sweep

/-- The part of a volume a run belongs to. -/
inductive Part where
  | map
  | mapped
  | extentReferences
  | snapshots
  | snapshotCopy
  | data
deriving DecidableEq

/-- What reaches a run of blocks. -/
inductive By where
  | blockZero
  | descriptorArea
  | dataArea
  | poolBitmaps
  | internalPool
  | containerMap
  | containerMapped
  | keybag
  | mediaKeybag
  | jumpstart
  | mainQueue
  | volume (slot : Nat) (part : Part)
deriving DecidableEq

def Part.text : Part → String
  | map => "object map"
  | mapped => "object map's objects"
  | extentReferences => "extent-reference trees"
  | snapshots => "snapshot tree"
  | snapshotCopy => "snapshots' superblock copies"
  | data => "data"

def By.text : By → String
  | blockZero => "block zero"
  | descriptorArea => "the checkpoint descriptor area"
  | dataArea => "the checkpoint data area"
  | poolBitmaps => "the internal pool's bitmaps"
  | internalPool => "the internal pool"
  | containerMap => "the container's object map"
  | containerMapped => "an object the container's object map maps"
  | keybag => "the container's keybag"
  | mediaKeybag => "the container's media keybag"
  | jumpstart => "the embedded boot driver's description"
  | mainQueue => "the main free queue"
  | volume slot part => s!"volume {slot}'s {part.text}"

/-- What a scan of a container's space reports. -/
structure Finding where
  severity : Severity
  block : Option Nat
  detail : String
deriving DecidableEq

/-- One call that notes what reaches a run of blocks. -/
structure Reach where
  start : Nat
  count : Nat
  by_ : By
deriving DecidableEq

def saturatingAdd (a b : Nat) : Nat := min (a + b) (2 ^ 64 - 1)

namespace Reach

/-- The part of a run that is inside the container, unless none is. -/
def run (self : Reach) (blockCount : Nat) : Option (Run By) :=
  if self.count = 0 then none
  else
    let stop := min (saturatingAdd self.start self.count) blockCount
    if self.start < stop then some ⟨self.start, stop, self.by_⟩ else none

/-- What is reported of the part that is not. -/
def past (self : Reach) (blockCount : Nat) : Option Finding :=
  if self.count ≠ 0 ∧ blockCount < saturatingAdd self.start self.count then
    some ⟨.structural, some self.start,
      s!"{self.by_.text} reaches {self.count} blocks from block {self.start}, past the container's "
        ++ s!"{blockCount} blocks"⟩
  else none

/-- A block of the container a call reaches. -/
def Has (self : Reach) (n : Nat) : Prop := self.start ≤ n ∧ n < self.start + self.count

end Reach

/-- Every run the calls reach, in the order they were made. -/
def reached (blockCount : Nat) (calls : List Reach) : List (Run By) :=
  calls.filterMap (·.run blockCount)

/-- A block two things reach, and what they are. -/
structure Overlap where
  block : Nat
  first : By
  second : By
deriving DecidableEq

def Overlap.finding (self : Overlap) : Finding :=
  ⟨.integrity, some self.block,
    s!"block {self.block} is reached as {self.first.text} and as {self.second.text}"⟩

/-- How many overlaps are reported at most. -/
def overlapCap : Nat := 16

/-- Runs being merged, the last of them first, and the overlaps met. -/
structure Merging where
  merged : List (Run By)
  overlaps : List Overlap

def Merging.add (self : Merging) (run : Run By) : Merging :=
  match self.merged with
  | [] => { self with merged := [run] }
  | last :: before =>
      if run.start < last.stop then
        { merged := { last with stop := max last.stop run.stop } :: before
          overlaps := if self.overlaps.length < overlapCap then
              self.overlaps ++ [⟨run.start, last.by_, run.by_⟩]
            else self.overlaps }
      else if run.start = last.stop ∧ run.by_ = last.by_ then
        { self with merged := { last with stop := run.stop } :: before }
      else { self with merged := run :: self.merged }

/-- The runs in the order they begin, merged where they overlap or one thing goes on, with the
overlaps.
-/
def merge (runs : List (Run By)) : List (Run By) × List Overlap :=
  let merging := (runs.insertionSort Run.Before).foldl Merging.add ⟨[], []⟩
  (merging.merged.reverse, merging.overlaps)

/-- What of `runs`, sorted and apart, reaches a block from `start` up to `stop`, if anything does.
-/
def covered (runs : List (Run By)) (start stop : Nat) : Option By :=
  (runs[(runs.takeWhile (·.stop ≤ start)).length]?.filter (·.start < stop)).map (·.by_)

/-- The furthest end of the runs up to each. -/
def reaches (far : Nat) : List (Run By) → List Nat
  | [] => []
  | run :: rest => max far run.stop :: reaches (max far run.stop) rest

/-- The runs, sorted by first block, that meet blocks `start` up to `stop`. -/
def meeting (runs : List (Run By)) (reach : List Nat) (start stop : Nat) : List (Run By) :=
  ((runs.drop (reach.takeWhile (· ≤ start)).length).takeWhile (·.start < stop)).filter
    (start < ·.stop)

section

variable {β : Type}

/-- Each run that begins before an earlier one ends, after the earlier one reaching furthest. -/
def overlapsFrom (far : Option (Run β)) : List (Run β) → List (Run β × Run β)
  | [] => []
  | run :: rest =>
      ((far.filter (run.start < ·.stop)).map (·, run)).toList
        ++ overlapsFrom (if far.all (·.stop < run.stop) then some run else far) rest

def overlaps (runs : List (Run β)) : List (Run β × Run β) := overlapsFrom none runs

end

/-- A free queue as the space manager records it. -/
structure FreeQueue where
  count : Nat
  treeOid : Nat
  oldestXid : Nat
deriving DecidableEq

/-- A record of a free queue's tree: a run of one block is kept as its key alone. -/
structure Freed where
  xid : Nat
  address : Nat
  value : Option Nat
deriving DecidableEq

namespace Freed

def count (self : Freed) : Nat := self.value.getD 1

def run (self : Freed) : Run Nat :=
  ⟨self.address, saturatingAdd self.address self.count, self.xid⟩

/-- The run is one of blocks `low` up to `high`. -/
def inside (low high : Nat) (self : Freed) : Bool :=
  decide (low ≤ self.address) && decide (self.run.stop ≤ high)

/-- What is reported of one record. -/
def findings (name : String) (low high live : Nat) (self : Freed) : List Finding :=
  (if live < self.xid then
    [⟨.structural, some self.address,
      s!"the {name} free queue holds a run freed at transaction {self.xid}, after the live one"⟩]
  else [])
  ++ if self.inside low high then []
    else
      [⟨.structural, some self.address,
        s!"the {name} free queue holds {self.count} blocks from block {self.address}, outside "
          ++ s!"blocks {low} to {high - 1}"⟩]

end Freed

/-- The order of a queue's runs: by first block, by end and by transaction. -/
def Run.QueueBefore (a b : Run Nat) : Prop :=
  a.start < b.start ∨ a.start = b.start ∧ (a.stop < b.stop ∨ a.stop = b.stop ∧ a.by_ ≤ b.by_)

instance : DecidableRel Run.QueueBefore := fun _ _ =>
  inferInstanceAs (Decidable (_ ∨ _ ∧ (_ ∨ _ ∧ _)))

instance : Std.Total Run.QueueBefore := ⟨fun a b => by unfold Run.QueueBefore; omega⟩

instance : IsTrans (Run Nat) Run.QueueBefore := ⟨fun a b c => by unfold Run.QueueBefore; omega⟩

/-- The runs a queue holds inside its bounds, in order. -/
def queueRuns (low high : Nat) (records : List Freed) : List (Run Nat) :=
  ((records.filter (Freed.inside low high)).map Freed.run).insertionSort Run.QueueBefore

def queueOverlap (name : String) (pair : Run Nat × Run Nat) : Finding :=
  ⟨.integrity, some pair.2.start,
    s!"the {name} free queue holds block {pair.2.start} twice, in a run freed at transaction "
      ++ s!"{pair.1.by_} and in one freed at {pair.2.by_}"⟩

/-- A queue's tree as it was walked: its records, and what the walk reports of the tree or failed
with.
-/
structure QueueWalk where
  records : List Freed
  outcome : Except Finding (List Finding)

/-- What is reported of a queue whose tree was read whole. -/
def queueFindings (name : String) (low high : Nat) (queue : FreeQueue) (block : Option Nat)
    (records : List Freed) : List Finding :=
  let total := records.foldl (fun total record => saturatingAdd total record.count) 0
  let oldest := records.foldl (fun oldest record => min oldest record.xid) (2 ^ 64 - 1)
  (if total ≠ queue.count then
    [⟨.conformance, block,
      s!"the {name} free queue records {queue.count} blocks and holds {total}"⟩]
  else [])
    ++ (if total ≠ 0 ∧ oldest ≠ queue.oldestXid then
        [⟨.conformance, block,
          s!"the {name} free queue records transaction {queue.oldestXid} as the oldest that freed "
            ++ s!"a run, and the oldest it holds is {oldest}"⟩]
      else [])
    ++ (overlaps (queueRuns low high records)).map (queueOverlap name)

/-- The runs a queue holds inside its bounds, where it could be read whole. -/
def readQueue (name : String) (low high live : Nat) (queue : FreeQueue) (block : Option Nat)
    (walk : QueueWalk) : List Finding × Option (List (Run Nat)) :=
  if queue.treeOid = 0 then
    (if queue.count ≠ 0 then
      [⟨.structural, block,
        s!"the {name} free queue records {queue.count} blocks and has no tree"⟩]
    else [], some [])
  else
    let each := walk.records.flatMap (Freed.findings name low high live)
    match walk.outcome with
    | .error failure => (each ++ [failure], none)
    | .ok census =>
        (each ++ census ++ queueFindings name low high queue block walk.records,
          some (queueRuns low high walk.records))

/-- The runs a queue holds that something reaches, and what. -/
def stillReached (merged : List (Run By)) (queue : List (Run Nat)) : List (Run Nat × By) :=
  queue.filterMap fun run => (covered merged run.start run.stop).map (run, ·)

def stillReachedFinding (run : Run Nat × By) : Finding :=
  ⟨.integrity, some run.1.start,
    s!"the main free queue holds blocks {run.1.start} to {run.1.stop - 1} as freed, and "
      ++ s!"{run.2.text} still reaches them"⟩

/-- Every run reached or queued, in the order they begin. -/
def account (merged : List (Run By)) (queue : List (Run Nat)) : List (Run By) :=
  (merged ++ queue.map fun run => Run.mk run.start run.stop By.mainQueue).insertionSort
    fun a b => a.start ≤ b.start

end Ferrosys.Apfs.Space
