import Mathlib.Logic.Function.Iterate
import Ferrosys.Ext.Replay

/-! A sequential reference recovery of a jbd2 log, and that planning a replay computes it. The
reference parses the log as a sequence of transactions, each closed by a sound commit record,
and then says of each home block which of the committed copies it takes.
-/

namespace Ferrosys.Ext.Journal

open SortedMaps

/-- What a block of the log is to a walk that expects a given sequence. -/
inductive Record where
  | descriptor (copies : List Named)
  | revoke (homes : List Nat)
  | commit
  | ended
  | fault (error : ReadError)
deriving DecidableEq

/-- A record that lets the walk of a transaction go on. -/
def Record.Continues : Record → Prop
  | descriptor _ | revoke _ => True
  | _ => False

/-- What a block holds that carries the magic and the expected sequence. -/
def recordOf (layout : Layout) (block : Bytes) (at_ : Nat) : Record :=
  let decoded : Except ReadError Record :=
    if getU32Be block 4 = blocktypeDescriptor then do
      checkTail layout block "journal descriptor" at_
      return .descriptor (← tags layout block at_)
    else if getU32Be block 4 = blocktypeRevoke then do
      checkTail layout block "journal revoke block" at_
      return .revoke (← revokes layout block at_)
    else if getU32Be block 4 = blocktypeCommit ∧ commitHolds layout block then return .commit
    else return .ended
  match decoded with
  | .ok record => record
  | .error error => .fault error

section
variable (layout : Layout) (blockSize : Nat) (log : Log) (start : Nat)

/-- The `i`th block of the log, counted around the ring from where the log begins. -/
def Layout.nth (i : Nat) : Nat := layout.next^[i] start

/-- What the `i`th block of the log is to a walk that expects `sequence`. -/
def recordAt (sequence i : Nat) : Record :=
  match log.read (layout.nth start i) with
  | .error error => .fault error
  | .ok block =>
      if block.length ≠ blockSize ∨ getU32Be block 0 ≠ jbd2Magic
          ∨ getU32Be block 8 ≠ sequence then
        .ended
      else
        recordOf layout block (layout.nth start i)

/-- The copies a descriptor names, in the blocks of the log from the `i`th on. -/
def placed : (i : Nat) → List Named → List Tag
  | _, [] => []
  | i, (home, escaped, stored) :: rest =>
      ⟨home, layout.nth start i, escaped, stored⟩ :: placed (i + 1) rest

/-- The records from `i` to `j` are those of one transaction, its commit record aside: the tags
and the revoked blocks they name, in order.
-/
inductive Body (sequence : Nat) : (i : Nat) → List Tag → List Nat → (j : Nat) → Prop where
  | nil (i : Nat) : Body sequence i [] [] i
  | descriptor {i copies tags revokes j}
      (here : recordAt layout blockSize log start sequence i = .descriptor copies)
      (later : Body sequence (i + 1 + copies.length) tags revokes j)
      : Body sequence i (placed layout start (i + 1) copies ++ tags) revokes j
  | revoke {i homes tags revokes j}
      (here : recordAt layout blockSize log start sequence i = .revoke homes)
      (later : Body sequence (i + 1) tags revokes j)
      : Body sequence i tags (homes ++ revokes) j

/-- From `i` to `j` stand transactions of consecutive sequence numbers, each closed by a sound
commit record.
-/
inductive Committed : (sequence i : Nat) → List Transaction → (sequence' j : Nat) → Prop where
  | nil (sequence i : Nat) : Committed sequence i [] sequence i
  | cons {sequence i tags revokes c transactions sequence' j}
      (body : Body layout blockSize log start sequence i tags revokes c)
      (closed : recordAt layout blockSize log start sequence c = .commit)
      (later : Committed ((sequence + 1) % 2 ^ 32) (c + 1) transactions sequence' j)
      : Committed sequence i (⟨sequence, tags, revokes⟩ :: transactions) sequence' j

/-- The committed transactions a log begins with, none left out. -/
def MaximalPrefix (sequence : Nat) (committed : List Transaction) : Prop :=
  (∃ sequence' j, Committed layout blockSize log start sequence 0 committed sequence' j)
    ∧ ∀ transactions sequence' j,
        Committed layout blockSize log start sequence 0 transactions sequence' j
        → transactions <+: committed

/-- A walk from the `i`th block ends at the `halt`th: at a block that ends the log, or at one
whose fault stops recovery.
-/
inductive WalkEnds : (sequence i halt : Nat) → Option ReadError → Prop where
  | ended {sequence i} (here : recordAt layout blockSize log start sequence i = .ended)
      : WalkEnds sequence i i none
  | fault {sequence i error}
      (here : recordAt layout blockSize log start sequence i = .fault error)
      : WalkEnds sequence i i (some error)
  | descriptor {sequence i copies halt fault}
      (here : recordAt layout blockSize log start sequence i = .descriptor copies)
      (later : WalkEnds sequence (i + 1 + copies.length) halt fault)
      : WalkEnds sequence i halt fault
  | revoke {sequence i homes halt fault}
      (here : recordAt layout blockSize log start sequence i = .revoke homes)
      (later : WalkEnds sequence (i + 1) halt fault)
      : WalkEnds sequence i halt fault
  | commit {sequence i halt fault}
      (here : recordAt layout blockSize log start sequence i = .commit)
      (later : WalkEnds ((sequence + 1) % 2 ^ 32) (i + 1) halt fault)
      : WalkEnds sequence i halt fault

end

/-- A value, unless a fault stops recovery. -/
def unlessFault {α : Type} (fault : Option ReadError) (value : α) : Except ReadError α :=
  match fault with
  | none => .ok value
  | some error => .error error

/-- A copy as it was logged, with the transaction it was logged in. -/
structure LoggedCopy where
  index : Nat
  sequence : Nat
  tag : Tag
deriving DecidableEq

/-- The copies of the committed transactions, in log order. -/
def loggedCopies (committed : List Transaction) : List LoggedCopy :=
  committed.zipIdx.flatMap fun (transaction, index) =>
    transaction.tags.map fun tag => ⟨index, transaction.sequence, tag⟩

/-- A revoke record of its own or a later committed transaction names the copy's block. -/
def LoggedCopy.Revoked (committed : List Transaction) (copy : LoggedCopy) : Prop :=
  ∃ transaction ∈ committed.drop copy.index, copy.tag.home ∈ transaction.revokes

instance (committed : List Transaction) (copy : LoggedCopy)
    : Decidable (copy.Revoked committed) :=
  inferInstanceAs (Decidable (∃ _ ∈ _, _))

/-- What becomes of a copy that no record revokes. -/
inductive Verdict where
  | kept (home : Nat) (copy : Copy)
  | skipped (copy : Skipped)
deriving DecidableEq

def Verdict.kept? : Verdict → Option (Nat × Copy)
  | kept home copy => some (home, copy)
  | skipped _ => none

def Verdict.skipped? : Verdict → Option Skipped
  | kept _ _ => none
  | skipped copy => some copy

/-- A copy is kept where its checksum holds or the log carries none, and skipped otherwise. -/
def judge (layout : Layout) (fsBlocks : Nat) (log : Log) (copy : LoggedCopy)
    : Except ReadError Verdict := do
  malformedIf (copy.tag.home ≥ fsBlocks) copy.tag.at_ "a copy of a block past the filesystem"
  let computed ←
    if layout.checksums = .none then Except.ok copy.tag.stored
    else (log.read copy.tag.at_).map (tagChecksum layout copy.sequence)
  if computed = copy.tag.stored then
    return .kept copy.tag.home ⟨← log.locate copy.tag.at_, copy.tag.escaped⟩
  else
    return .skipped ⟨copy.tag.home, copy.sequence, copy.tag.stored, computed⟩

/-- What becomes of the copies no record revokes, in log order, or the first fault on the way
through them.
-/
def judgeAll (layout : Layout) (fsBlocks : Nat) (log : Log) (committed : List Transaction)
    : Except ReadError (List Verdict) :=
  ((loggedCopies committed).filter fun copy => ¬ copy.Revoked committed).mapM
    (judge layout fsBlocks log)

/-- A replay gives each home block the last copy kept of it, and lists the copies skipped. -/
structure Replay.Keeps (replay : Replay) (committed : List Transaction)
    (verdicts : List Verdict)
    : Prop where
  transactions : replay.transactions = committed.length
  copies
    : ∀ home, replay.copies.get? home
        = SortedMap.lastOf (verdicts.filterMap Verdict.kept?) home
  skipped : replay.skipped = verdicts.filterMap Verdict.skipped?

/-- What the reference recovery answers from the committed transactions. -/
def Recovers (layout : Layout) (fsBlocks : Nat) (log : Log) (committed : List Transaction)
    (outcome : Except ReadError Replay)
    : Prop :=
  match judgeAll layout fsBlocks log committed with
  | .error error => outcome = .error error
  | .ok verdicts => ∃ replay, outcome = .ok replay ∧ replay.Keeps committed verdicts

section
variable (superblock : Bytes) (layout : Layout) (blockSize : Nat) (log : Log)

/-- The log the superblock names begins inside the journal. -/
def StartsInLog : Prop :=
  layout.first ≤ getU32Be superblock Offset.start
    ∧ getU32Be superblock Offset.start < layout.maxLen

/-- The walk of the log the superblock names ends at its `halt`th block. -/
def LogEnds (halt : Nat) (fault : Option ReadError) : Prop :=
  WalkEnds layout blockSize log (getU32Be superblock Offset.start)
    (getU32Be superblock Offset.sequence) 0 halt fault

/-- What the reference recovery answers for a journal. An empty log recovers nothing, and one
that begins outside the journal is refused. Otherwise the log's end decides: a fault there
stops recovery before anything is applied, and without one the maximal committed prefix is
applied.
-/
def ReferencePlan (fsBlocks : Nat) (outcome : Except ReadError Replay) : Prop :=
  (getU32Be superblock Offset.start = 0 ∧ outcome = .ok Replay.default)
    ∨ (getU32Be superblock Offset.start ≠ 0 ∧ ¬ StartsInLog superblock layout
      ∧ outcome = malformed 0 "a log start outside the journal")
    ∨ (StartsInLog superblock layout
      ∧ ∃ committed halt fault,
          MaximalPrefix layout blockSize log (getU32Be superblock Offset.start)
            (getU32Be superblock Offset.sequence) committed
          ∧ LogEnds superblock layout blockSize log halt fault
          ∧ match fault with
            | none => Recovers layout fsBlocks log committed outcome
            | some error => outcome = .error error)

end

end Ferrosys.Ext.Journal
