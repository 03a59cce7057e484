import Ferrosys.Apfs.Model.Siblings
import Mathlib.Algebra.Order.BigOperators.Group.List

/-! The walk from the root to its end: every turn keeps what the walk keeps and leaves less to do.
-/

namespace Ferrosys.Apfs.Model

variable {γ μ : Type} {unicode : Names.Unicode} {fold : Bool}

open Counter SortedMaps

namespace Walk

variable {walk walk' : Walk unicode fold γ μ}

/-- Where the walk is: the directories it has entered, and those it has yet to. -/
def ahead (self : Walk unicode fold γ μ)
    : List (Frame unicode fold) × Names.Children unicode fold :=
  (self.stack, self.children)

theorem ahead_modify (slot : Slot) (change : Inode μ → Inode μ)
    : (walk.modify slot change).ahead = walk.ahead := by
  cases slot <;> rfl

theorem ahead_record {slot : Slot} {child : Child} (recorded : walk.record slot child = some walk')
    : walk'.ahead = walk.ahead := by
  obtain ⟨directory, -, recorded⟩ := Option.bind_eq_some_iff.mp recorded
  split at recorded
  next =>
    obtain rfl := Option.some.inj recorded
    exact ahead_modify _ _
  next => cases recorded

theorem ahead_linkAlone {place : Nat} {inode : Inode μ}
    (linked : walk.linkAlone place inode = some walk') : walk'.ahead = walk.ahead := by
  rw [linkAlone] at linked
  split at linked
  next =>
    obtain ⟨index, -, linked⟩ := Option.bind_eq_some_iff.mp linked
    obtain ⟨⟨slot, child⟩, -, linked⟩ := Option.bind_eq_some_iff.mp linked
    dsimp only at linked
    split at linked
    next =>
      obtain rfl := Option.some.inj linked
      rw [ahead_modify, ahead_modify]
      rfl
    next => cases linked
  next => rw [Option.some.inj linked]

theorem ahead_nameAgain {place parent : Nat} {planned : Names.Planned unicode fold} {child : Child}
    (named : walk.nameAgain place parent planned = some (walk', child))
    : walk'.ahead = walk.ahead := by
  obtain ⟨inode, -, named⟩ := Option.bind_eq_some_iff.mp named
  obtain ⟨linked, linking, named⟩ := Option.bind_eq_some_iff.mp named
  obtain ⟨rfl, -⟩ := Prod.mk.inj (Option.some.inj named)
  have same : linked.ahead = walk.ahead := ahead_linkAlone linking
  rw [ahead_modify]
  exact same

/-- An object named first is entered where it is a directory, with the entries planned for it. -/
theorem ahead_nameFirst {len : γ → Nat} {byKey : Bytes → Option (Entry γ μ)} {object : Bytes}
    {parent : Nat} {planned : Names.Planned unicode fold} {child : Child}
    (named : walk.nameFirst len byKey object parent planned = some (walk', child))
    : walk'.ahead = walk.ahead ∨ ∃ slot key, walk'.ahead
      = (⟨slot, walk.children.of key, 0⟩ :: walk.stack, walk.children.keep (· ≠ ⟨key⟩)) := by
  obtain ⟨entry, -, named⟩ := Option.bind_eq_some_iff.mp named
  obtain ⟨⟨builder, inode⟩, -, named⟩ := Option.bind_eq_some_iff.mp named
  obtain ⟨rfl, -⟩ := Prod.mk.inj (Option.some.inj named)
  dsimp only
  split
  next => exact .inr ⟨_, _, rfl⟩
  next => exact .inl rfl

/-- One entry of a directory is recorded, and may be a directory to enter. -/
theorem ahead_enter {len : γ → Nat} {objectOf : Bytes → Option Bytes}
    {byKey : Bytes → Option (Entry γ μ)} {slot : Slot} {planned : Names.Planned unicode fold}
    (entered : walk.enter len objectOf byKey slot planned = some walk')
    : walk'.ahead = walk.ahead ∨ ∃ slot key, walk'.ahead
      = (⟨slot, walk.children.of key, 0⟩ :: walk.stack, walk.children.keep (· ≠ ⟨key⟩)) := by
  obtain ⟨directory, -, entered⟩ := Option.bind_eq_some_iff.mp entered
  dsimp only at entered
  split at entered
  next place _ =>
    obtain ⟨⟨named, child⟩, took, recorded⟩ := Option.bind_eq_some_iff.mp entered
    exact .inl ((ahead_record recorded).trans (ahead_nameAgain took))
  next =>
    obtain ⟨⟨named, child⟩, took, recorded⟩ := Option.bind_eq_some_iff.mp entered
    obtain ⟨directory', -, recorded⟩ := Option.bind_eq_some_iff.mp recorded
    have same : walk'.ahead = named.ahead := (ahead_record recorded).trans rfl
    rw [same]
    exact ahead_nameFirst took

/-- The turns the walk may yet take: two for each entry it has not reached, and one for each
directory it is in.
-/
def left (self : Walk unicode fold γ μ) : Nat :=
  (self.children.entries.map fun directory => 2 * directory.2.length).sum
    + (self.stack.map fun frame => 2 * (frame.entries.length - frame.next) + 1).sum

theorem left_congr (same : walk'.ahead = walk.ahead) : walk'.left = walk.left := by
  obtain ⟨stack, children⟩ := Prod.mk.inj same
  rw [left, stack, children, left]

/-- What a directory holds is no longer among what is yet to be entered. -/
theorem sum_keep_le (children : Names.Children unicode fold) (key : Bytes)
    : ((children.keep (· ≠ ⟨key⟩)).entries.map fun directory => 2 * directory.2.length).sum
        + 2 * (children.of key).length
      ≤ (children.entries.map fun directory => 2 * directory.2.length).sum := by
  let weight (directory : Key × List (Names.Planned unicode fold)) := 2 * directory.2.length
  let other (directory : Key × List (Names.Planned unicode fold)) := decide (directory.1 ≠ ⟨key⟩)
  have split := ((List.filter_append_perm other children.entries).map weight).sum_eq
  rw [List.map_append, List.sum_append] at split
  change ((children.entries.filter other).map weight).sum + _ ≤ (children.entries.map weight).sum
  rw [← split]
  refine Nat.add_le_add_left ?_ _
  rw [Names.Children.of]
  cases found : children.get? ⟨key⟩ with
  | none => exact Nat.zero_le _
  | some list =>
      have member : ((⟨key⟩ : Key), list) ∈ children.entries.filter fun directory =>
          !other directory := by
        refine List.mem_filter.mpr ⟨children.mem_entries_iff.mpr found, ?_⟩
        simp only [other, ne_eq, not_true_eq_false, decide_false, Bool.not_false]
      exact List.le_sum_of_mem (List.mem_map_of_mem (f := weight) member)

/-- Every turn of the walk leaves fewer. -/
theorem turn_lowers (len : γ → Nat) (objectOf : Bytes → Option Bytes)
    (byKey : Bytes → Option (Entry γ μ))
    : Loop.Lowers (fun walk : Walk unicode fold γ μ => walk.turn len objectOf byKey) left := by
  intro walk next taken
  change walk.turn len objectOf byKey = .go next at taken
  rw [turn] at taken
  split at taken
  next => cases taken
  next frame rest stack =>
    have now : walk.left = (walk.children.entries.map fun directory =>
        2 * directory.2.length).sum + (2 * (frame.entries.length - frame.next) + 1
          + (rest.map fun frame => 2 * (frame.entries.length - frame.next) + 1).sum) := by
      rw [left, stack, List.map_cons, List.sum_cons]
    split at taken
    next =>
      obtain rfl := Loop.Next.go.inj taken
      rw [now, left]
      dsimp only
      omega
    next planned reached =>
      have within := (List.getElem?_eq_some_iff.mp reached).1
      dsimp only at taken
      split at taken
      next entered =>
        obtain rfl := Loop.Next.go.inj taken
        rcases ahead_enter entered with same | ⟨slot, key, same⟩
        · rw [left_congr same, now, left]
          simp only [List.map_cons, List.sum_cons]
          omega
        · obtain ⟨stack', children'⟩ := Prod.mk.inj same
          have fewer := sum_keep_le walk.children key
          rw [now, left, stack', children']
          simp only [List.map_cons, List.sum_cons]
          omega
      next => cases taken

/-- The walk to its end, where no assertion of it fails. -/
def walked (len : γ → Nat) (objectOf : Bytes → Option Bytes) (byKey : Bytes → Option (Entry γ μ))
    (self : Walk unicode fold γ μ) : Option (Walk unicode fold γ μ) :=
  Loop.total (turn len objectOf byKey) left (turn_lowers len objectOf byKey) self

end Walk

section

variable {first : Nat} {walk walk' : Walk unicode fold γ μ} {len : γ → Nat}
  {objectOf : Bytes → Option Bytes} {byKey : Bytes → Option (Entry γ μ)}

/-- One entry of a directory is kept: a first name, or another. -/
theorem Kept.enter (kept : Kept first walk) (above : rootNumber < first) {slot : Slot}
    {planned : Names.Planned unicode fold}
    (entered : walk.enter len objectOf byKey slot planned = some walk')
    : Kept first walk' := by
  obtain ⟨directory, there, entered⟩ := Option.bind_eq_some_iff.mp entered
  dsimp only at entered
  split at entered
  next =>
    obtain ⟨⟨named, child⟩, took, recorded⟩ := Option.bind_eq_some_iff.mp entered
    exact kept.nameAgain above there took recorded
  next =>
    obtain ⟨⟨named, child⟩, took, recorded⟩ := Option.bind_eq_some_iff.mp entered
    exact kept.nameFirst above there took recorded

/-- One turn keeps what the walk keeps. -/
theorem Kept.turn (kept : Kept first walk) (above : rootNumber < first)
    (taken : walk.turn len objectOf byKey = .go walk') : Kept first walk' := by
  rw [Walk.turn] at taken
  split at taken
  next => cases taken
  next frame rest _ =>
    split at taken
    next =>
      obtain rfl := Loop.Next.go.inj taken
      exact kept.of_eq rfl rfl rfl
    next planned _ =>
      dsimp only at taken
      split at taken
      next entered =>
        obtain rfl := Loop.Next.go.inj taken
        have reached : Kept first
            { walk with stack := { frame with next := frame.next + 1 } :: rest } :=
          kept.of_eq rfl rfl rfl
        exact reached.enter above entered
      next => cases taken

/-- The whole walk keeps what it kept at first. -/
theorem Kept.walked (kept : Kept first walk) (above : rootNumber < first)
    (ended : walk.walked len objectOf byKey = some walk') : Kept first walk' := by
  have ran := Loop.run_eq_total (Walk.turn_lowers len objectOf byKey) walk
  obtain ⟨last, kept, stopped⟩ := Loop.stop_of_run
    (fun _ _ taken kept => Kept.turn kept above taken) kept ran
  have stopped : last.turn len objectOf byKey = .stop (some walk') := stopped.trans
    (congrArg Loop.Next.stop ended)
  rw [Walk.turn] at stopped
  split at stopped
  next =>
    obtain rfl := Option.some.inj (Loop.Next.stop.inj stopped)
    exact kept
  next =>
    split at stopped
    next => cases stopped
    next =>
      dsimp only at stopped
      split at stopped <;> cases stopped

end

end Ferrosys.Apfs.Model
