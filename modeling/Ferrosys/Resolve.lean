import Ferrosys.Bytes
import Ferrosys.Library.Checked
import Ferrosys.Library.Loop

/-! The path resolution every family's reader answers a lookup with: take the components in order,
find each in the directory reached so far, expand a symbolic link into the components still to
come, and ascend on `..` through what was descended. Held against a resolution that keeps the
directories themselves and resolves a link's target before it goes on with the rest.
-/

namespace Ferrosys

open Checked

/-- The most symbolic links one resolution expands. -/
def maxSymlinkHops : Nat := 40

def slash : UInt8 := 0x2f

/-- The components that name the directory reached so far and the one holding it. -/
def dot : Bytes := [0x2e]
def dotDot : Bytes := [0x2e, 0x2e]

/-- The meaningful components of a path, in order. -/
def canonicalParts (path : Bytes) : List Bytes :=
  (path.splitOn slash).filter fun part => !part.isEmpty && part != dot

/-- A name that could not be a component of a path. -/
def isHostileComponent (name : Bytes) : Bool :=
  name.isEmpty || name.contains 0x2F || name.contains 0 || name == [0x2E] || name == [0x2E, 0x2E]

/-- What a path resolution needs of a filesystem's reader. -/
structure Resolve (α ν ε : Type) where
  rootNode : Except ε ν
  ancestorOf : ν → α
  nodeAt : α → Except ε ν
  isDirectory : ν → Bool
  findName : ν → Bytes → Except ε (Option ν)
  readLink : ν → Bytes → Except ε (Option Bytes)
  notFound : Bytes → ε
  notADirectory : ν → Bytes → ε
  tooManyLinks : Bytes → ε

namespace Resolve

/-- Where a resolution has got to: the components still to come, the node reached, what has been
descended through with the latest first, and the links expanded.
-/
structure State (α ν : Type) where
  pending : List Bytes
  node : ν
  descended : List α
  hops : Nat
deriving DecidableEq

/-- A node, and the directories it was reached through with the latest first. -/
structure Place (ν : Type) where
  here : ν
  above : List ν
deriving DecidableEq

/-- How a resolution ends: somewhere, or refused. -/
inductive Outcome (ν ε : Type) where
  | reached (place : Place ν)
  | refused (error : ε)
deriving DecidableEq

/-- What a lookup is told of it. -/
def Outcome.answer {ν ε : Type} : Outcome ν ε → Except ε ν
  | reached place => .ok place.here
  | refused error => .error error

section

variable {α ν ε : Type} (reader : Resolve α ν ε) (path : Bytes) (followFinal : Bool)

/-- The target of a link to be followed: nothing where `next` is not a link, and not read at all
where the resolution stops at it.
-/
def linkTarget (next : ν) (follows : Bool) : Except ε (Option Bytes) :=
  if follows then reader.readLink next path else .ok none

/-- Expand a link into the components still to come. An absolute target restarts at the root. -/
def expand (state : State α ν) (pending : List Bytes) (target : Bytes)
    : Except ε (State α ν) := do
  let hops := state.hops + 1
  refuseIf (maxSymlinkHops < hops) (reader.tooManyLinks path)
  refuseIf target.isEmpty (reader.notFound path)
  let pending := canonicalParts target ++ pending
  if target.head? = some slash then
    let node ← reader.rootNode
    return ⟨pending, node, [], hops⟩
  else return ⟨pending, state.node, state.descended, hops⟩

/-- One turn: take the next component. -/
def turn (state : State α ν) : Loop.Next (State α ν) (Except ε ν) :=
  match state.pending with
  | [] => .stop (.ok state.node)
  | part :: pending => Loop.orStop do
      refuseIf (!reader.isDirectory state.node) (reader.notADirectory state.node path)
      if part = dotDot then
        match state.descended with
        | [] => return .go { state with pending }
        | ancestor :: descended =>
            let node ← reader.nodeAt ancestor
            return .go { state with pending, node, descended }
      else
        match ← reader.findName state.node part with
        | none => .error (reader.notFound path)
        | some next =>
            match ← reader.linkTarget path next (followFinal || !pending.isEmpty) with
            | some target => return .go (← reader.expand path state pending target)
            | none =>
                let descended := reader.ancestorOf state.node :: state.descended
                return .go { state with pending, node := next, descended }

/-- Resolve `path` against the filesystem's own root: what it answers within so many turns. -/
def drive (turns : Nat) : Option (Except ε ν) :=
  match reader.rootNode with
  | .error error => some (.error error)
  | .ok node =>
      Loop.run (reader.turn path followFinal) turns ⟨canonicalParts path, node, [], 0⟩

-----------------------------------------------------------------------------------------
-- The resolution it is held against
-----------------------------------------------------------------------------------------

/-- Where one component leads from a place: to another place, or to a link with this target. -/
def consider (follows : Bool) (place : Place ν) (part : Bytes) : Except ε (Place ν ⊕ Bytes) := do
  refuseIf (!reader.isDirectory place.here) (reader.notADirectory place.here path)
  if part = dotDot then
    match place.above with
    | [] => return .inl place
    | directory :: above =>
        let here ← reader.nodeAt (reader.ancestorOf directory)
        return .inl ⟨here, above⟩
  else
    match ← reader.findName place.here part with
    | none => .error (reader.notFound path)
    | some next =>
        match ← reader.linkTarget path next follows with
        | some target => return .inr target
        | none => return .inl ⟨next, place.here :: place.above⟩

/-- Where the target of a link held by a directory is resolved from. -/
def beginning (place : Place ν) (target : Bytes) : Except ε (Place ν) := do
  refuseIf target.isEmpty (reader.notFound path)
  if target.head? = some slash then
    let here ← reader.rootNode
    return ⟨here, []⟩
  else return place

/-- A resolution of components from a place, with no limit on links: it takes the components left
to right and resolves the whole target of a link, in which every link is followed, before it goes
on. It says how many links were expanded and how it ended. A link in the last component is followed
where `last` says so, and in every other component always.
-/
inductive Resolves : (last : Bool) → List Bytes → Place ν → (links : Nat) → Outcome ν ε → Prop
  | done {last place} : Resolves last [] place 0 (.reached place)
  | refused {last part rest place error}
    (met : reader.consider path (last || !rest.isEmpty) place part = .error error)
    : Resolves last (part :: rest) place 0 (.refused error)
  | step {last part rest place next links outcome}
    (met : reader.consider path (last || !rest.isEmpty) place part = .ok (.inl next))
    (later : Resolves last rest next links outcome)
    : Resolves last (part :: rest) place links outcome
  | unfollowed {last part rest place target error}
    (met : reader.consider path (last || !rest.isEmpty) place part = .ok (.inr target))
    (begun : reader.beginning path place target = .error error)
    : Resolves last (part :: rest) place 1 (.refused error)
  | astray {last part rest place target start links error}
    (met : reader.consider path (last || !rest.isEmpty) place part = .ok (.inr target))
    (begun : reader.beginning path place target = .ok start)
    (inside : Resolves true (canonicalParts target) start links (.refused error))
    : Resolves last (part :: rest) place (links + 1) (.refused error)
  | follow {last part rest place target start links middle more outcome}
    (met : reader.consider path (last || !rest.isEmpty) place part = .ok (.inr target))
    (begun : reader.beginning path place target = .ok start)
    (inside : Resolves true (canonicalParts target) start links (.reached middle))
    (later : Resolves last rest middle more outcome)
    : Resolves last (part :: rest) place (links + 1 + more) outcome

/-- The places a resolution confined to the filesystem can be in: the root, what a place's
directory holds under a name, and what a place was reached from, read again.
-/
inductive Reaches : Place ν → Prop
  | root {node} (read : reader.rootNode = .ok node) : Reaches ⟨node, []⟩
  | down {place part next} (reached : Reaches place)
    (found : reader.findName place.here part = .ok (some next))
    : Reaches ⟨next, place.here :: place.above⟩
  | up {place directory above node} (reached : Reaches place)
    (through : place.above = directory :: above)
    (read : reader.nodeAt (reader.ancestorOf directory) = .ok node)
    : Reaches ⟨node, above⟩

end

end Resolve

end Ferrosys
