import Ferrosys.Fat.Table

/-! What a reader does from one call to the next. A call that fails leaves what it has read of the
table where it is, so an operation here answers with a state whether or not it fails.
-/

namespace Ferrosys.Fat

open Checked Drain Splice

/-- An operation on a reader, with what the reader holds before it and after. -/
abbrev Session := EStateM ReadError Held

namespace Session

variable {α : Type}

/-- An operation that nothing held bears on. -/
def lift (answer : Except ReadError α) : Session α :=
  match answer with
  | .ok a => pure a
  | .error error => throw error

/-- An operation that leaves what is held alone where it fails. -/
def of (op : Held → Except ReadError (α × Held)) : Session α := fun held =>
  match op held with
  | .ok (a, held) => .ok a held
  | .error error => .error error held

/-- What an operation answers. -/
def answer (op : Session α) (held : Held) : Except ReadError α :=
  match op held with
  | .ok a _ => .ok a
  | .error error _ => .error error

/-- What an operation leaves held. -/
def after (op : Session α) (held : Held) : Held :=
  match op held with
  | .ok _ held => held
  | .error _ held => held

/-- An operation as one that hands what is held on with its answer and its error alike. -/
def both (op : Session α) (held : Held) : Except (ReadError × Held) (α × Held) :=
  match op held with
  | .ok a held => .ok (a, held)
  | .error error held => .error (error, held)

/-- An operation from one that hands on what is held with its answer and its error alike. -/
def fromBoth (op : Held → Except (ReadError × Held) (α × Held)) : Session α := fun held =>
  match op held with
  | .ok (a, held) => .ok a held
  | .error (error, held) => .error error held

end Session

namespace Reader

variable (self : Reader)

/-- The table's entry for `cluster`, through the window. -/
def entryOp (cluster : Nat) : Session Nat := do
  .lift (Checked.refuseIf (cluster ≥ self.layout.maxTableEntries) (.clusterOutOfRange cluster))
  let offset := entryOffset self.layout.fatType cluster
  let sectorInTable := offset / self.layout.bytesPerSector
  let within := offset % self.layout.bytesPerSector
  .lift (Checked.refuseIf (sectorInTable > u32Max) (.clusterOutOfRange cluster))
  let start ←
    .lift (okOr (self.layout.fatStartSector self.activeFat) (.clusterOutOfRange cluster))
  .lift (Checked.refuseIf (start + sectorInTable > u32Max) (.clusterOutOfRange cluster))
  let buf ←
    .of (self.tableWindow · (start + sectorInTable) (self.tableWindowSectors sectorInTable))
  .lift
    (okOr (readEntry self.layout.fatType (buf.drop within) cluster) (.clusterOutOfRange cluster))

/-- What an entry says of the cluster it follows: where the chain goes on, if it does. -/
def follows (cluster entry : Nat) : Except ReadError (Option Nat) :=
  if isEndOfChain self.layout.fatType entry then .ok none
  else if isCluster self.layout.fatType entry = false then .error (.badChainEntry cluster entry)
  else if entry - 2 ≥ self.layout.clusters then .error (.clusterOutOfRange entry)
  else .ok (some entry)

/-- The cluster that follows `cluster` in its chain. -/
def nextOp (cluster : Nat) : Session (Option Nat) := do
  let entry ← self.entryOp cluster
  .lift (self.follows cluster entry)

/-- The cluster `left` places on, the cursor moved only where one is reached. -/
def followOp (start : Nat) : (left at_ current : Nat) → Session (Option Nat)
  | 0, at_, current => do
      modify fun held => { held with chainCursor := some (start, at_, current) }
      return some current
  | left + 1, at_, current => do
      match ← self.nextOp current with
      | none => return none
      | some next =>
          .lift (Checked.refuseIf (at_ + 1 > self.layout.clusters)
            (.chainTooLong start self.layout.clusters))
          followOp start left (at_ + 1) next

/-- No chain begins at `start`. -/
def noChain (start : Nat) : Bool := start < 2 || start - 2 ≥ self.layout.clusters

/-- The cluster at `index` in the chain beginning at `start`. -/
def clusterAtOp (start index : Nat) : Session (Option Nat) := do
  let (at_, current) := cursorFor (← get) start index
  .lift (Checked.refuseIf (self.noChain start) (.clusterOutOfRange start))
  self.followOp start (index - at_) at_ current

/-- The rest of a chain that has come to `current`, with `out` of its clusters collected and room
for `left` more before one repeats.
-/
def chainFrom (start cap : Nat)
    : (left : Nat) → (out : List Nat) → (current : Nat) → Session (List Nat)
  | left, out, current => do
      match ← self.nextOp current with
      | none => return out
      | some next =>
          match left with
          | 0 => throw (.chainTooLong start self.layout.clusters)
          | left + 1 =>
              .lift (Checked.refuseIf (out.length ≥ cap) (.walkTooLarge cap))
              chainFrom start cap left (out ++ [next]) next

/-- The whole chain beginning at `start`, in order. -/
def chainOp (start cap : Nat) : Session (List Nat) := do
  .lift (Checked.refuseIf (self.noChain start) (.clusterOutOfRange start))
  self.chainFrom start cap self.layout.clusters [start] start

/-- The part of a window that one cluster holds. -/
def pieceOf (start size offset want done : Nat) (cluster : Option Nat) : Except ReadError Bytes :=
  let at_ := offset + done
  let within := at_ % self.layout.bytesPerCluster
  match cluster with
  | none => .error (.chainTooShort start size at_)
  | some cluster => do
      let bytes ← self.readCluster cluster
      return slice bytes within (min (bytes.length - within) (want - done))

/-- The part that comes next of a window, through the cursor. -/
def pieceOp (start size offset want done : Nat) : Session Bytes := do
  let cluster ← self.clusterAtOp start ((offset + done) / self.layout.bytesPerCluster)
  .lift (self.pieceOf start size offset want done cluster)

/-- Cut out of a whole cluster, what a window wants of it is something, and no more than that. -/
theorem pieceOf_bounds {start size offset want done : Nat} {cluster : Option Nat} {bytes : Bytes}
    (short : done < want)
    (cut : self.pieceOf start size offset want done cluster = .ok bytes)
    : 0 < bytes.length ∧ bytes.length ≤ want - done := by
  cases cluster with
  | none => cases cut
  | some cluster =>
      obtain ⟨whole, read, cut⟩ := bind_eq_ok.mp cut
      have inCluster := Nat.mod_lt (offset + done) self.clustered
      have long := self.length_readCluster read
      cases cut
      rw [length_slice (by omega)]
      omega

/-- A part that was placed was cut out of a cluster. -/
theorem pieceOp_eq_ok {start size offset want done : Nat} {bytes : Bytes} {held held' : Held}
    (placed : self.pieceOp start size offset want done held = .ok bytes held')
    : ∃ cluster, self.pieceOf start size offset want done cluster = .ok bytes := by
  simp only [pieceOp, bind, EStateM.bind] at placed
  split at placed
  · next cluster held _ =>
      refine ⟨cluster, ?_⟩
      cases cut : self.pieceOf start size offset want done cluster with
      | error error =>
          rw [cut] at placed
          cases placed
      | ok bytes =>
          rw [cut] at placed
          cases placed
          rfl
  · cases placed

theorem pieceOp_pieces (start size offset want : Nat)
    : Pieces (fun held done => (self.pieceOp start size offset want done).both held) want := by
  intro held done bytes held' short placed
  simp only [Session.both] at placed
  split at placed
  · next placed' =>
      cases placed
      obtain ⟨cluster, cut⟩ := self.pieceOp_eq_ok placed'
      exact self.pieceOf_bounds short cut
  · cases placed

/-- Fill a window of `len` bytes from `offset` in a regular file. -/
def readOp (node : Node) (offset len : Nat) : Session Bytes :=
  if node.isDir || node.isVolumeLabel then pure []
  else
    match node.storage with
    | .chain start =>
        if offset ≥ node.size ∨ len = 0 then pure []
        else
          let want := min len (node.size - offset)
          .fromBoth
            (fill (fun held done => (self.pieceOp start node.size offset want done).both held)
              want (self.pieceOp_pieces start node.size offset want))
    | _ => pure []

/-- What a path's resolution asks of what is held, the directories' clusters read past it: the
cluster that follows one, as often as it likes, and whatever it makes of each answer.
-/
inductive Search where
  | found
  | next (cluster : Nat) (rest : Except ReadError (Option Nat) → Search)

def Search.run : Search → Session Unit
  | .found => pure ()
  | .next cluster rest => fun held =>
      let next := self.nextOp cluster
      (rest (next.answer held)).run (next.after held)

/-- A call on an open reader. -/
inductive Call where
  | readInto (node : Node) (offset len : Nat)
  | chain (start cap : Nat)
  | lookup (search : Search)

/-- What is held after a call, whether or not it failed. -/
def Call.after (call : Call) (held : Held) : Held :=
  match call with
  | .readInto node offset len => (self.readOp node offset len).after held
  | .chain start cap => (self.chainOp start cap).after held
  | .lookup search => (search.run self).after held

/-- What is held after some calls in turn. -/
def held (calls : List Call) (before : Held) : Held :=
  calls.foldl (fun held call => call.after self held) before

/-- What a reader that was just opened holds: the table's first sectors, of which opening it read
the volume's state.
-/
def freshlyHeld : Held := (self.entryOp 1).after ⟨none, none⟩

end Reader

end Ferrosys.Fat
