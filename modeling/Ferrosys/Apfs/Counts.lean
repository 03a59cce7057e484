import Ferrosys.Apfs.Contents
import Ferrosys.Apfs.Space.Runs
import Mathlib.Algebra.BigOperators.Group.List.Basic
import Mathlib.Data.List.Pairwise
import Mathlib.Data.List.TakeWhile

/-! How often blocks are counted: a block two runs use, the runs that cover others, and where two
counts of the same blocks disagree.
-/

namespace Ferrosys.Apfs.Counts

open Sweep Contents Space

/-- The first in order whose blocks begin short of where those before it reach. -/
def firstReused (reach : Nat) : List (Run Nat) → Option Nat
  | [] => none
  | run :: rest => if run.start < reach then some run.by_ else firstReused (max reach run.stop) rest

/-- The blocks a run uses, as far as a block is numbered. -/
def runOf (blockSize : Nat) (extent : FileExtent) : Run Nat :=
  ⟨extent.physicalBlock, saturatingAdd extent.physicalBlock (extent.length / blockSize),
    extent.logical⟩

/-- The logical offset of the first of `runs`, by block, whose blocks another of them also uses. -/
def reusedBlock (runs : List FileExtent) (blockSize : Nat) : Option Nat :=
  firstReused 0 ((runs.map (runOf blockSize)).insertionSort Run.QueueBefore)

/-- Runs being merged, the last of them first. -/
def addRun (merged : List (Run Unit)) (run : Run Unit) : List (Run Unit) :=
  match merged with
  | last :: before =>
      if run.start ≤ last.stop then { last with stop := max last.stop run.stop } :: before
      else run :: last :: before
  | [] => [run]

/-- The runs in order, those that touch or overlap made one. -/
def mergeRuns (runs : List (Run Unit)) : List (Run Unit) :=
  ((runs.insertionSort Run.Before).foldl addRun []).reverse

/-- Whether one of `runs`, as merged, holds every block from `start` to `stop`. -/
def covers (runs : List (Run Unit)) (start stop : Nat) : Bool :=
  let at_ := (runs.takeWhile (·.start ≤ start)).length
  at_ > 0 && runs[at_ - 1]?.any (stop ≤ ·.stop)

/-- A block where one or both counts change, and by how much. -/
structure Event where
  block : Nat
  first : Int
  second : Int
deriving DecidableEq

/-- Blocks two counts disagree on, and the counts. -/
structure Disagreement where
  start : Nat
  stop : Nat
  first : Int
  second : Int
deriving DecidableEq

/-- A sum kept within 64 bits. -/
def addCount (a b : Int) : Int := max (-2 ^ 63) (min (2 ^ 63 - 1) (a + b))

/-- The counts past the events of one block. -/
def addEvents (counts : Int × Int) (events : List Event) : Int × Int :=
  events.foldl
    (fun counts event => (addCount counts.1 event.first, addCount counts.2 event.second)) counts

/-- One run of blocks more with the counts it has, the last run longer where it goes on. -/
def addDisagreement (out : List Disagreement) (start stop : Nat) (counts : Int × Int)
    : List Disagreement :=
  match out with
  | last :: before =>
      if last.stop = start ∧ last.first = counts.1 ∧ last.second = counts.2 then
        { last with stop } :: before
      else ⟨start, stop, counts.1, counts.2⟩ :: last :: before
  | [] => [⟨start, stop, counts.1, counts.2⟩]

/-- The disagreements from a block on, where `turns` is as many as the events left: those found are
in `out`, the last first.
-/
def sweep : (turns : Nat) → List Event → Int × Int → List Disagreement → List Disagreement
  | 0, _, _, out => out
  | _, [], _, out => out
  | turns + 1, event :: rest, counts, out =>
      let at_ := event.block
      let counts := addEvents counts ((event :: rest).takeWhile (·.block = at_))
      match (event :: rest).dropWhile (·.block = at_) with
      | [] => out
      | next :: later =>
          sweep turns (next :: later) counts
            (if counts.1 ≠ counts.2 then addDisagreement out at_ next.block counts else out)

/-- Where two counts disagree, from their events in the order of blocks. -/
def sweepSorted (events : List Event) : List Disagreement :=
  (sweep events.length events (0, 0) []).reverse

/-- A sort by block, which puts the events of one block in whatever order. -/
structure BlockSort where
  sort : List Event → List Event
  perm : ∀ events, (sort events).Perm events
  ordered : ∀ events, (sort events).Pairwise fun a b => a.block ≤ b.block

/-- Where two counts of the same blocks disagree. -/
def disagreements (by_ : BlockSort) (events : List Event) : List Disagreement :=
  sweepSorted (by_.sort events)

/-! A block two runs use. -/

/-- What is found of runs in order begins short of one met before it; nothing is found exactly
where no run does, by induction on the runs left.
-/
theorem firstReused_spec {before rest : List (Run Nat)}
    (sorted : (before ++ rest).Pairwise Run.QueueBefore)
    (solid : ∀ run ∈ rest, run.start < run.stop)
    : match firstReused (furthest before) rest with
      | none => clashes before rest = []
      | some logical => ∃ front run back earlier, rest = front ++ run :: back
          ∧ earlier ∈ before ++ front ∧ earlier.Meets run ∧ run.by_ = logical := by
  induction rest generalizing before with
  | nil => rfl
  | cons run rest ih =>
      have ordered : ∀ earlier ∈ before, earlier.start ≤ run.start := by
        intro earlier member
        have before_ := (List.pairwise_append.mp sorted).2.2 earlier member run List.mem_cons_self
        unfold Run.QueueBefore at before_
        omega
      have meets := exists_meets_iff ordered (solid run List.mem_cons_self)
      rw [firstReused]
      by_cases short : run.start < furthest before
      · rw [if_pos short]
        obtain ⟨earlier, member, meets⟩ := meets.mpr short
        exact ⟨[], run, rest, earlier, rfl, List.mem_append_left _ member, meets, rfl⟩
      · rw [if_neg short, ← furthest_append]
        have later := @ih (before ++ [run])
          (by rw [List.append_assoc]; exact sorted)
          (fun other member => solid other (List.mem_cons_of_mem _ member))
        cases found : firstReused (furthest (before ++ [run])) rest with
        | none =>
            rw [found] at later
            rw [clashes, if_neg (fun some_ => short (meets.mp some_)), List.nil_append]
            exact later
        | some logical =>
            rw [found] at later
            obtain ⟨front, other, back, earlier, rfl, member, meets, named⟩ := later
            refine ⟨run :: front, other, back, earlier, rfl, ?_, meets, named⟩
            rw [List.append_assoc] at member
            exact member

section

variable {α β : Type} [DecidableEq α]

/-- Two of a list, wherever they stand. -/
def TwoOf (list : List α) (holds : α → α → Prop) : Prop :=
  ∃ a b rest, list.Perm (a :: b :: rest) ∧ holds a b

/-- Two of a list are related where not every two are unrelated, by induction on the list. -/
theorem twoOf_iff {holds : α → α → Prop} (symmetric : ∀ a b, holds a b → holds b a)
    {list : List α} : TwoOf list holds ↔ ¬list.Pairwise fun a b => ¬holds a b := by
  constructor
  · rintro ⟨a, b, rest, perm, related⟩ apart
    have apart := (perm.pairwise_iff fun none_ back => none_ (symmetric _ _ back)).mp apart
    exact (List.pairwise_cons.mp apart).1 b List.mem_cons_self related
  · intro clash
    induction list with
    | nil => exact absurd List.Pairwise.nil clash
    | cons head rest ih =>
        rw [List.pairwise_cons, not_and_or] at clash
        rcases clash with here | later
        · push Not at here
          obtain ⟨other, member, related⟩ := here
          exact ⟨head, other, rest.erase other, (List.perm_cons_erase member).cons head, related⟩
        · obtain ⟨a, b, more, perm, related⟩ := ih later
          refine ⟨a, b, head :: more, ?_, related⟩
          exact (perm.cons head).trans ((List.Perm.swap a head _).trans
            ((List.Perm.swap b head more).cons a))

/-- One element at the front of what a list maps to comes from one of the list. -/
theorem perm_cons_of_map {f : α → β} {list : List α} {head : β} {rest : List β}
    (perm : (list.map f).Perm (head :: rest))
    : ∃ a more, list.Perm (a :: more) ∧ f a = head ∧ (more.map f).Perm rest := by
  obtain ⟨a, member, same⟩ := List.mem_map.mp (perm.mem_iff.mpr List.mem_cons_self)
  have split := List.perm_cons_erase member
  refine ⟨a, list.erase a, split, same, ?_⟩
  have mapped := (split.map f).symm.trans perm
  rw [List.map_cons, same] at mapped
  exact mapped.cons_inv

end

/-- Two runs use one block. -/
def Shares (blockSize : Nat) (a b : FileExtent) : Prop :=
  ∃ n, (a.physicalBlock ≤ n ∧ n < a.physicalBlock + a.length / blockSize)
    ∧ b.physicalBlock ≤ n ∧ n < b.physicalBlock + b.length / blockSize

/-- Runs of blocks: at least one each, and none past the last block there is. -/
def Solid (blockSize : Nat) (run : FileExtent) : Prop :=
  1 ≤ run.length / blockSize ∧ run.physicalBlock + run.length / blockSize < 2 ^ 64

theorem shares_iff {blockSize : Nat} {a b : FileExtent} (solidA : Solid blockSize a)
    (solidB : Solid blockSize b)
    : Shares blockSize a b ↔ (runOf blockSize a).Meets (runOf blockSize b) := by
  have same (run : FileExtent) (solid : Solid blockSize run)
      : saturatingAdd run.physicalBlock (run.length / blockSize)
        = run.physicalBlock + run.length / blockSize := by
    have small := solid.2
    unfold saturatingAdd
    omega
  unfold Shares Run.Meets Run.Has runOf
  rw [same a solidA, same b solidB]

theorem shares_symm {blockSize : Nat} (a b : FileExtent) (shares : Shares blockSize a b)
    : Shares blockSize b a := by
  obtain ⟨n, first, second⟩ := shares
  exact ⟨n, second, first⟩

theorem meets_symm {a b : Run Nat} (meets : a.Meets b) : b.Meets a := by
  obtain ⟨n, first, second⟩ := meets
  exact ⟨n, second, first⟩

/-- A block two runs use is found exactly where there is one, and the run named uses one. -/
theorem reusedBlock_spec {runs : List FileExtent} {blockSize : Nat}
    (solid : ∀ run ∈ runs, Solid blockSize run)
    : ((reusedBlock runs blockSize).isSome = true ↔ TwoOf runs (Shares blockSize))
      ∧ ∀ logical, reusedBlock runs blockSize = some logical
        → TwoOf runs fun run other => Shares blockSize run other ∧ run.logical = logical := by
  have perm := List.perm_insertionSort Run.QueueBefore (runs.map (runOf blockSize))
  have sorted := List.pairwise_insertionSort Run.QueueBefore (runs.map (runOf blockSize))
  have filled : ∀ run ∈ (runs.map (runOf blockSize)).insertionSort Run.QueueBefore,
      run.start < run.stop := by
    intro run member
    obtain ⟨extent, inside, rfl⟩ := List.mem_map.mp (perm.mem_iff.mp member)
    have one := solid extent inside
    unfold Solid at one
    dsimp only [runOf, saturatingAdd]
    omega
  have searched : reusedBlock runs blockSize = firstReused (furthest ([] : List (Run Nat)))
    ((runs.map (runOf blockSize)).insertionSort Run.QueueBefore) := rfl
  rw [searched]
  generalize (runs.map (runOf blockSize)).insertionSort Run.QueueBefore = ordered at *
  have found := @firstReused_spec [] ordered sorted filled
  cases here : firstReused (furthest ([] : List (Run Nat))) ordered with
  | none =>
      rw [here] at found
      have apart := (perm.pairwise_iff fun none_ meets => none_ (meets_symm meets)).mp
        (clashes_eq_nil.mp found).2
      have unshared : runs.Pairwise fun a b => ¬Shares blockSize a b :=
        (List.pairwise_map.mp apart).imp_of_mem fun first second none_ shares =>
          none_ ((shares_iff (solid _ first) (solid _ second)).mp shares)
      exact ⟨iff_of_false Bool.false_ne_true fun two => (twoOf_iff shares_symm).mp two unshared,
        fun logical same => absurd same.symm (Option.some_ne_none logical)⟩
  | some logical =>
      rw [here] at found
      obtain ⟨front, run, back, earlier, split, member, meets, named⟩ := found
      obtain ⟨first, between, rfl⟩ := List.append_of_mem member
      have two : (runs.map (runOf blockSize)).Perm
          (run :: earlier :: (first ++ between ++ back)) := by
        refine perm.symm.trans ?_
        rw [split]
        refine List.perm_middle.trans (List.Perm.cons run ?_)
        rw [List.append_assoc, List.append_assoc]
        exact List.perm_middle
      obtain ⟨extent, more, perm_, rfl, rest⟩ := perm_cons_of_map two
      obtain ⟨other, others, perm', rfl, -⟩ := perm_cons_of_map rest
      have whole := perm_.trans (perm'.cons extent)
      have shares := (shares_iff (solid extent (whole.mem_iff.mpr List.mem_cons_self))
        (solid other (whole.mem_iff.mpr (List.mem_cons_of_mem _ List.mem_cons_self)))).mpr
          (meets_symm meets)
      refine ⟨iff_of_true rfl ⟨extent, other, others, whole, shares⟩, fun found same => ?_⟩
      exact ⟨extent, other, others, whole, shares, named.trans (Option.some.inj same)⟩

/-! Runs that cover others. -/

/-- Runs in order, with a block between one and the next that none of them holds. -/
def Parted (runs : List (Run Unit)) : Prop :=
  runs.Pairwise fun a b => a.start ≤ b.start ∧ a.stop < b.start

/-- What merging has come to over the runs `done`: parted runs that hold the same blocks, and begin
no later than what is still to come.
-/
structure Merged (done merged : List (Run Unit)) (from_ : Nat) : Prop where
  parted : Parted merged.reverse
  same : ∀ n, (∃ run ∈ merged, run.Has n) ↔ ∃ run ∈ done, run.Has n
  begun : ∀ run ∈ merged, run.start ≤ from_

/-- One run more, which begins no earlier than those before it. -/
theorem Merged.add {done merged : List (Run Unit)} {from_ : Nat}
    (merged_ : Merged done merged from_) {run : Run Unit} (ordered : from_ ≤ run.start)
    : Merged (done ++ [run]) (addRun merged run) run.start := by
  obtain ⟨parted, same, begun⟩ := merged_
  have holds (n : Nat) : (∃ other ∈ done ++ [run], other.Has n)
      ↔ (∃ other ∈ merged, other.Has n) ∨ run.Has n := by
    rw [same]
    simp only [List.mem_append, List.mem_singleton, or_and_right, exists_or, exists_eq_left]
  cases merged with
  | nil =>
      refine ⟨List.pairwise_singleton _ _, fun n => ?_, fun other member => ?_⟩
      · rw [holds]
        simp [addRun]
      · rw [List.mem_singleton.mp member]
  | cons last before =>
      have early := begun last List.mem_cons_self
      rw [Parted, List.reverse_cons, List.pairwise_append] at parted
      unfold addRun
      dsimp only
      by_cases touches : run.start ≤ last.stop
      · rw [if_pos touches]
        refine ⟨?_, fun n => ?_, fun other member => ?_⟩
        · rw [Parted, List.reverse_cons, List.pairwise_append]
          refine ⟨parted.1, List.pairwise_singleton _ _, fun other inside one member => ?_⟩
          rw [List.mem_singleton.mp member]
          exact parted.2.2 other inside last List.mem_cons_self
        · rw [holds]
          have joined : (⟨last.start, max last.stop run.stop, last.by_⟩ : Run Unit).Has n
              ↔ last.Has n ∨ run.Has n := by
            unfold Run.Has
            dsimp only
            omega
          simp only [List.mem_cons, or_and_right, exists_or, exists_eq_left, joined]
          exact or_right_comm
        · rcases List.mem_cons.mp member with rfl | inside
          · exact early.trans ordered
          · exact (begun other (List.mem_cons_of_mem _ inside)).trans ordered
      · rw [if_neg touches]
        refine ⟨?_, fun n => ?_, fun other member => ?_⟩
        · rw [Parted, List.reverse_cons, List.pairwise_append, List.reverse_cons,
            List.pairwise_append]
          refine ⟨parted, List.pairwise_singleton _ _, fun other inside one member => ?_⟩
          rw [List.mem_singleton.mp member]
          rcases List.mem_append.mp inside with earlier | here
          · have apart := parted.2.2 other earlier last List.mem_cons_self
            omega
          · rw [List.mem_singleton.mp here]
            omega
        · rw [holds]
          simp only [List.mem_cons, or_and_right, exists_or, exists_eq_left]
          exact or_comm
        · rcases List.mem_cons.mp member with rfl | inside
          · exact Nat.le_refl _
          · exact (begun other inside).trans ordered

/-- Merging goes over the runs in order, by induction on those left. -/
theorem Merged.fold {done merged rest : List (Run Unit)} {from_ : Nat}
    (merged_ : Merged done merged from_) (sorted : rest.Pairwise Run.Before)
    (later : ∀ run ∈ rest, from_ ≤ run.start)
    : ∃ stop, Merged (done ++ rest) (rest.foldl addRun merged) stop := by
  induction rest generalizing done merged from_ with
  | nil =>
      rw [List.append_nil]
      exact ⟨from_, merged_⟩
  | cons run rest ih =>
      have order := List.pairwise_cons.mp sorted
      have next := ih (merged_.add (later run List.mem_cons_self)) order.2
        fun other member => (order.1 other member).start_le
      rw [List.append_assoc] at next
      exact next

/-- The merged runs are parted, and hold the blocks the runs did. -/
theorem mergeRuns_spec (runs : List (Run Unit))
    : Parted (mergeRuns runs)
      ∧ ∀ n, (∃ run ∈ mergeRuns runs, run.Has n) ↔ ∃ run ∈ runs, run.Has n := by
  have start : Merged [] [] 0 :=
    ⟨List.Pairwise.nil, fun _ => Iff.rfl, fun _ member => absurd member List.not_mem_nil⟩
  obtain ⟨stop, merged⟩ := start.fold (List.pairwise_insertionSort Run.Before runs)
    fun _ _ => Nat.zero_le _
  refine ⟨merged.parted, fun n => ?_⟩
  have same := merged.same n
  simp only [List.nil_append, (List.perm_insertionSort Run.Before runs).mem_iff] at same
  rw [← same, mergeRuns]
  simp only [List.mem_reverse]

/-- Of runs in order, those a search goes past are those that begin no later. -/
theorem parted_split {runs : List (Run Unit)} (parted : Parted runs) (start : Nat)
    {run : Run Unit} (member : run ∈ runs.dropWhile (·.start ≤ start)) : start < run.start := by
  cases behind : runs.dropWhile (·.start ≤ start) with
  | nil =>
      rw [behind] at member
      exact absurd member List.not_mem_nil
  | cons first rest =>
      have stopped : ¬first.start ≤ start := by
        have head := List.head?_dropWhile_not (·.start ≤ start) runs
        rw [behind] at head
        simpa using head
      have order : Parted (first :: rest) := by
        rw [← behind]
        exact parted.sublist (List.dropWhile_sublist _)
      rw [behind] at member
      rcases List.mem_cons.mp member with rfl | later
      · omega
      · have after := (List.pairwise_cons.mp order).1 run later
        omega

/-- One run holds every block of a range exactly where each block is in one of the runs. -/
theorem covers_iff {runs : List (Run Unit)} (parted : Parted runs) {start stop : Nat}
    (some_ : start < stop)
    : covers runs start stop = true ↔ ∀ n, start ≤ n → n < stop → ∃ run ∈ runs, run.Has n := by
  have split : runs.takeWhile (·.start ≤ start) ++ runs.dropWhile (·.start ≤ start) = runs :=
    List.takeWhile_append_dropWhile
  have begun : ∀ run ∈ runs.takeWhile (·.start ≤ start), run.start ≤ start := fun _ member => by
    simpa using List.mem_takeWhile_imp member
  have behind : ∀ run ∈ runs.dropWhile (·.start ≤ start), start < run.start := fun _ member =>
    parted_split parted start member
  unfold covers
  generalize runs.takeWhile (·.start ≤ start) = before at split begun ⊢
  generalize runs.dropWhile (·.start ≤ start) = after at split behind
  subst split
  rcases List.eq_nil_or_concat before with rfl | ⟨front, last, rfl⟩
  · refine iff_of_false Bool.false_ne_true fun all => ?_
    obtain ⟨run, member, held⟩ := all start (Nat.le_refl _) some_
    have past := behind run member
    have here := held.1
    omega
  · have found : ((front.concat last) ++ after)[(front.concat last).length - 1]? = some last := by
      simp
    dsimp only
    rw [found, List.length_concat, decide_eq_true (Nat.succ_pos _), Bool.true_and, Option.any_some,
      decide_eq_true_eq]
    rw [List.concat_eq_append] at begun parted ⊢
    have early := begun last (List.mem_append_right _ List.mem_cons_self)
    have member : last ∈ front ++ [last] ++ after :=
      List.mem_append_left _ (List.mem_append_right _ List.mem_cons_self)
    rw [Parted, List.pairwise_append, List.pairwise_append] at parted
    obtain ⟨⟨-, -, ahead⟩, -, apart⟩ := parted
    -- A block from `start` up to the end of the last run that begins there is in no other run.
    have only {n : Nat} (first : start ≤ n) (short : n ≤ last.stop) {run : Run Unit}
        (inside : run ∈ front ++ [last] ++ after) (held : run.Has n) : run = last := by
      unfold Run.Has at held
      rcases List.mem_append.mp inside with here | later
      · rcases List.mem_append.mp here with earlier | same
        · have gap := ahead run earlier last List.mem_cons_self
          omega
        · exact List.mem_singleton.mp same
      · have gap := apart last (List.mem_append_right _ List.mem_cons_self) run later
        omega
    constructor
    · intro far n first short
      exact ⟨last, member, early.trans first, short.trans_le far⟩
    · intro all
      obtain ⟨run, inside, held⟩ := all start (Nat.le_refl _) some_
      have reached : start < last.stop := by
        by_contra beyond
        rcases List.mem_append.mp inside with here | later
        · rcases List.mem_append.mp here with earlier | same
          · have gap := ahead run earlier last List.mem_cons_self
            have ended := held.2
            omega
          · rw [List.mem_singleton.mp same] at held
            exact beyond held.2
        · have gap := behind run later
          have started := held.1
          omega
      by_contra short
      obtain ⟨other, inside, held⟩ := all last.stop reached.le (by omega)
      have same := only reached.le (Nat.le_refl _) inside held
      rw [same] at held
      exact Nat.lt_irrefl _ held.2

/-! Where two counts disagree. -/

section
variable {f g : Nat → Int}

/-- One disagreement is before another, and has other counts where it ends as the other begins. -/
def Ahead (a b : Disagreement) : Prop :=
  a.stop ≤ b.start ∧ (a.stop = b.start → ¬(a.first = b.first ∧ a.second = b.second))

/-- Disagreements, the last first, that are those of the blocks below `at_`. -/
structure Sofar (f g : Nat → Int) (out : List Disagreement) (at_ : Nat) : Prop where
  solid : ∀ d ∈ out, d.start < d.stop ∧ d.stop ≤ at_
  counts : ∀ d ∈ out, d.first ≠ d.second
    ∧ ∀ n, d.start ≤ n → n < d.stop → f n = d.first ∧ g n = d.second
  apart : out.Pairwise fun later earlier => Ahead earlier later
  all : ∀ n < at_, f n ≠ g n → ∃ d ∈ out, d.start ≤ n ∧ n < d.stop

/-- The disagreements of two counts: in order, each with the counts of its blocks, one at every
block where they differ, and none that goes on at either end.
-/
structure Disagreements (f g : Nat → Int) (out : List Disagreement) : Prop where
  solid : ∀ d ∈ out, d.start < d.stop
  ordered : out.Pairwise fun earlier later => earlier.stop ≤ later.start
  counts : ∀ d ∈ out, d.first ≠ d.second
    ∧ ∀ n, d.start ≤ n → n < d.stop → f n = d.first ∧ g n = d.second
  all : ∀ n, f n ≠ g n → ∃ d ∈ out, d.start ≤ n ∧ n < d.stop
  maximal : ∀ d ∈ out, ¬(f d.stop = d.first ∧ g d.stop = d.second)
    ∧ ∀ n, n + 1 = d.start → ¬(f n = d.first ∧ g n = d.second)

/-- Blocks more on which the counts agree. -/
theorem Sofar.skip {out : List Disagreement} {at_ next : Nat} (sofar : Sofar f g out at_)
    (more : at_ ≤ next) (level : ∀ n, at_ ≤ n → n < next → f n = g n) : Sofar f g out next := by
  refine ⟨fun d member => ?_, sofar.counts, sofar.apart, fun n below differ => ?_⟩
  · have solid := sofar.solid d member
    omega
  · by_cases before : n < at_
    · exact sofar.all n before differ
    · exact absurd (level n (by omega) below) differ

/-- Blocks more on which the counts differ and are the same throughout. -/
theorem Sofar.add {out : List Disagreement} {at_ next : Nat} {counts : Int × Int}
    (sofar : Sofar f g out at_) (more : at_ < next) (differ : counts.1 ≠ counts.2)
    (held : ∀ n, at_ ≤ n → n < next → f n = counts.1 ∧ g n = counts.2)
    : Sofar f g (addDisagreement out at_ next counts) next := by
  have fresh (apart : ∀ d ∈ out, d.stop = at_ → ¬(d.first = counts.1 ∧ d.second = counts.2))
      : Sofar f g (⟨at_, next, counts.1, counts.2⟩ :: out) next := by
    refine ⟨fun d member => ?_, fun d member => ?_, ?_, fun n below differ_ => ?_⟩
    · rcases List.mem_cons.mp member with rfl | earlier
      · exact ⟨more, Nat.le_refl _⟩
      · have solid := sofar.solid d earlier
        omega
    · rcases List.mem_cons.mp member with rfl | earlier
      · exact ⟨differ, held⟩
      · exact sofar.counts d earlier
    · refine List.pairwise_cons.mpr ⟨fun d earlier => ⟨(sofar.solid d earlier).2, ?_⟩, sofar.apart⟩
      exact apart d earlier
    · by_cases before : n < at_
      · obtain ⟨d, member, inside⟩ := sofar.all n before differ_
        exact ⟨d, List.mem_cons_of_mem _ member, inside⟩
      · exact ⟨_, List.mem_cons_self, by dsimp only; omega, below⟩
  cases out with
  | nil => exact fresh fun d member => absurd member List.not_mem_nil
  | cons last before =>
      have order := List.pairwise_cons.mp sofar.apart
      unfold addDisagreement
      dsimp only
      by_cases goesOn : last.stop = at_ ∧ last.first = counts.1 ∧ last.second = counts.2
      · rw [if_pos goesOn]
        obtain ⟨ends, first, second⟩ := goesOn
        have solid := sofar.solid last List.mem_cons_self
        refine ⟨fun d member => ?_, fun d member => ?_, ?_, fun n below differ_ => ?_⟩
        · rcases List.mem_cons.mp member with rfl | earlier
          · exact ⟨by dsimp only; omega, Nat.le_refl _⟩
          · have solid := sofar.solid d (List.mem_cons_of_mem _ earlier)
            omega
        · rcases List.mem_cons.mp member with rfl | earlier
          · refine ⟨(sofar.counts last List.mem_cons_self).1, fun n begun below => ?_⟩
            by_cases old : n < last.stop
            · exact (sofar.counts last List.mem_cons_self).2 n begun old
            · dsimp only
              rw [first, second]
              exact held n (by omega) below
          · exact sofar.counts d (List.mem_cons_of_mem _ earlier)
        · exact List.pairwise_cons.mpr ⟨fun d earlier => order.1 d earlier, order.2⟩
        · by_cases old : n < at_
          · obtain ⟨d, member, inside⟩ := sofar.all n old differ_
            rcases List.mem_cons.mp member with rfl | earlier
            · exact ⟨_, List.mem_cons_self, inside.1, below⟩
            · exact ⟨d, List.mem_cons_of_mem _ earlier, inside⟩
          · exact ⟨_, List.mem_cons_self, by dsimp only; omega, below⟩
      · rw [if_neg goesOn]
        refine fresh fun d member ends same => ?_
        rcases List.mem_cons.mp member with rfl | earlier
        · exact goesOn ⟨ends, same⟩
        · -- One before the last ends where the last begins at the latest, which is below `at_`.
          have gap := (order.1 d earlier).1
          have solid := sofar.solid last List.mem_cons_self
          omega

/-- What was found up to a block from which the counts agree is all of it. -/
theorem Sofar.done {out : List Disagreement} {at_ : Nat} (sofar : Sofar f g out at_)
    (level : ∀ n, at_ ≤ n → f n = g n) : Disagreements f g out.reverse := by
  have all (n : Nat) (differ : f n ≠ g n) : ∃ d ∈ out, d.start ≤ n ∧ n < d.stop :=
    sofar.all n (by by_contra beyond; exact differ (level n (by omega))) differ
  have placed {a b : Disagreement} (memberA : a ∈ out) (memberB : b ∈ out) (other : a ≠ b)
      : Ahead a b ∨ Ahead b a := by
    have symm : Std.Symm fun a b => Ahead a b ∨ Ahead b a := ⟨fun _ _ => Or.symm⟩
    have either : out.Pairwise fun a b => Ahead a b ∨ Ahead b a := sofar.apart.imp Or.inr
    exact either.forall memberA memberB other
  refine ⟨fun d member => (sofar.solid d (List.mem_reverse.mp member)).1, ?_,
    fun d member => sofar.counts d (List.mem_reverse.mp member), fun n differ => ?_,
    fun d member => ⟨fun goesOn => ?_, fun n before goesOn => ?_⟩⟩
  · exact List.pairwise_reverse.mpr (sofar.apart.imp fun gap => gap.1)
  · obtain ⟨d, member, inside⟩ := all n differ
    exact ⟨d, List.mem_reverse.mpr member, inside⟩
  · have inside := List.mem_reverse.mp member
    have differ := (sofar.counts d inside).1
    obtain ⟨next, other, begun, below⟩ := all d.stop (by rw [goesOn.1, goesOn.2]; exact differ)
    have counts := (sofar.counts next other).2 d.stop begun below
    have solid := sofar.solid d inside
    have apart := placed inside other (by rintro rfl; omega)
    rw [goesOn.1, goesOn.2] at counts
    rcases apart with ⟨gap, touch⟩ | ⟨gap, -⟩
    · exact touch (by omega) counts
    · omega
  · have inside := List.mem_reverse.mp member
    have differ := (sofar.counts d inside).1
    obtain ⟨prior, other, begun, below⟩ := all n (by rw [goesOn.1, goesOn.2]; exact differ)
    have counts := (sofar.counts prior other).2 n begun below
    have solid := sofar.solid prior other
    have apart := placed inside other (by rintro rfl; omega)
    rw [goesOn.1, goesOn.2] at counts
    have solid_ := sofar.solid d inside
    rcases apart with ⟨gap, -⟩ | ⟨gap, touch⟩
    · omega
    · exact touch (by omega) ⟨counts.1.symm, counts.2.symm⟩

end

/-- The changes of a count up to a block, added up. -/
def countAt (change : Event → Int) (events : List Event) (n : Nat) : Int :=
  ((events.filter (·.block ≤ n)).map change).sum

/-- A number of 64 bits. -/
def FitsI64 (n : Int) : Prop := -2 ^ 63 ≤ n ∧ n < 2 ^ 63

/-- No sum of the changes so far leaves 64 bits. -/
def SumsFit (events : List Event) : Prop :=
  ∀ front, front <+: events →
    FitsI64 (front.map (·.first)).sum ∧ FitsI64 (front.map (·.second)).sum

theorem sum_snoc (change : Event → Int) (done : List Event) (event : Event)
    : ((done ++ [event]).map change).sum = (done.map change).sum + change event := by
  simp

/-- Sums that fit are added exactly, by induction on the events. -/
theorem addEvents_eq {done here later : List Event} (fits : SumsFit (done ++ here ++ later))
    : addEvents ((done.map (·.first)).sum, (done.map (·.second)).sum) here
      = (((done ++ here).map (·.first)).sum, ((done ++ here).map (·.second)).sum) := by
  induction here generalizing done with
  | nil => rw [List.append_nil]; rfl
  | cons event rest ih =>
      have begins : done ++ [event] <+: done ++ event :: rest ++ later :=
        ⟨rest ++ later, by simp⟩
      have bounds := fits _ begins
      have exact_ (n : Int) (fits_ : FitsI64 n) : max (-2 ^ 63) (min (2 ^ 63 - 1) n) = n := by
        unfold FitsI64 at fits_
        omega
      rw [addEvents, List.foldl_cons]
      rw [sum_snoc, sum_snoc] at bounds
      dsimp only [addCount]
      rw [exact_ _ bounds.1, exact_ _ bounds.2, ← sum_snoc, ← sum_snoc]
      have next := @ih (done ++ [event]) (by simpa using fits)
      rw [List.append_assoc, List.singleton_append] at next
      exact next

/-- Between the events of one block and the next the count is that of the events so far. -/
theorem countAt_between (change : Event → Int) {front later : List Event} {n : Nat}
    (past : ∀ event ∈ front, event.block ≤ n) (ahead : ∀ event ∈ later, n < event.block)
    : countAt change (front ++ later) n = (front.map change).sum := by
  have all : front.filter (·.block ≤ n) = front :=
    List.filter_eq_self.mpr fun event member => decide_eq_true (past event member)
  have none_ : later.filter (·.block ≤ n) = [] :=
    List.filter_eq_nil_iff.mpr fun event member => by
      have gap := ahead event member
      simpa using gap
  rw [countAt, List.filter_append, all, none_, List.append_nil]

/-- The sweep finds what is left of the disagreements, by induction on the turns it is given. -/
theorem sweep_finds {all : List Event} (sorted : all.Pairwise fun a b => a.block ≤ b.block)
    (fits : SumsFit all) (level : (all.map (·.first)).sum = (all.map (·.second)).sum) {turns : Nat}
    {done rest : List Event} {event : Event} {out : List Disagreement}
    (split : all = done ++ event :: rest) (enough : (event :: rest).length ≤ turns)
    (past : ∀ other ∈ done, other.block < event.block)
    (sofar : Sofar (countAt (·.first) all) (countAt (·.second) all) out event.block)
    : Disagreements (countAt (·.first) all) (countAt (·.second) all)
        (sweep turns (event :: rest) ((done.map (·.first)).sum, (done.map (·.second)).sum)
          out).reverse := by
  induction turns generalizing done event rest out with
  | zero => exact absurd enough (Nat.not_succ_le_zero _)
  | succ turns ih =>
      have halves : (event :: rest).takeWhile (·.block = event.block)
          ++ (event :: rest).dropWhile (·.block = event.block) = event :: rest :=
        List.takeWhile_append_dropWhile
      have same : ∀ other ∈ (event :: rest).takeWhile (·.block = event.block),
          other.block = event.block := fun _ member => by
        simpa using List.mem_takeWhile_imp member
      have shorter : ((event :: rest).dropWhile (·.block = event.block)).length ≤ rest.length := by
        rw [List.dropWhile_cons, if_pos (decide_eq_true rfl)]
        exact (List.dropWhile_sublist _).length_le
      have first : event ∈ (event :: rest).takeWhile (·.block = event.block) := by
        rw [List.takeWhile_cons, if_pos (decide_eq_true rfl)]
        exact List.mem_cons_self
      have stops := List.head?_dropWhile_not (·.block = event.block) (event :: rest)
      rw [sweep]
      generalize (event :: rest).takeWhile (·.block = event.block) = here
        at halves same first ⊢
      generalize (event :: rest).dropWhile (·.block = event.block) = later
        at halves shorter stops ⊢
      have parts : all = (done ++ here) ++ later := by rw [split, ← halves, List.append_assoc]
      have added := addEvents_eq (parts ▸ fits)
      have reached : ∀ other ∈ done ++ here, other.block ≤ event.block := fun other member =>
        (List.mem_append.mp member).elim (fun before => (past other before).le)
          fun inside => (same other inside).le
      rw [added]
      cases later with
      | nil =>
          refine sofar.done fun n begun => ?_
          rw [parts, countAt_between _ (fun other member => (reached other member).trans begun)
            fun other member => absurd member List.not_mem_nil,
            countAt_between _ (fun other member => (reached other member).trans begun)
            fun other member => absurd member List.not_mem_nil]
          rw [parts, List.append_nil] at level
          exact level
      | cons next more =>
          rw [parts] at sorted
          obtain ⟨-, order, behind⟩ := List.pairwise_append.mp sorted
          have other_ : next.block ≠ event.block := by simpa using stops
          have later_ : event.block < next.block := by
            have le := behind event (List.mem_append_right _ first) next List.mem_cons_self
            omega
          have ahead : ∀ other ∈ next :: more, next.block ≤ other.block := fun other member =>
            (List.mem_cons.mp member).elim (fun same => same ▸ Nat.le_refl _)
              fun rest => (List.pairwise_cons.mp order).1 other rest
          have between (change : Event → Int) (n : Nat) (begun : event.block ≤ n)
              (below : n < next.block)
              : countAt change all n = ((done ++ here).map change).sum := by
            rw [parts]
            exact countAt_between change (fun other member => (reached other member).trans begun)
              fun other member => below.trans_le (ahead other member)
          refine ih parts (by simpa using shorter.trans (Nat.le_of_succ_le_succ enough))
            (fun other member => (reached other member).trans_lt later_) ?_
          dsimp only
          split
          next differ =>
            exact sofar.add later_ differ fun n begun below =>
              ⟨between _ n begun below, between _ n begun below⟩
          next same_ =>
            refine sofar.skip later_.le fun n begun below => ?_
            rw [between _ n begun below, between _ n begun below]
            exact not_not.mp same_

/-- The sweep of events in order finds the disagreements of the two counts. -/
theorem sweepSorted_finds {events : List Event}
    (sorted : events.Pairwise fun a b => a.block ≤ b.block) (fits : SumsFit events)
    (level : (events.map (·.first)).sum = (events.map (·.second)).sum)
    : Disagreements (countAt (·.first) events) (countAt (·.second) events)
        (sweepSorted events) := by
  cases events with
  | nil =>
      have nothing : Sofar (countAt (·.first) []) (countAt (·.second) []) [] 0 :=
        ⟨fun d member => absurd member List.not_mem_nil,
          fun d member => absurd member List.not_mem_nil, List.Pairwise.nil,
          fun n below => absurd below (Nat.not_lt_zero n)⟩
      exact nothing.done fun _ _ => rfl
  | cons event rest =>
      have nothing : ∀ other ∈ ([] : List Event), other.block < event.block :=
        fun other member => absurd member List.not_mem_nil
      refine sweep_finds sorted fits level (List.nil_append _).symm (Nat.le_refl _) nothing ?_
      refine ⟨fun d member => absurd member List.not_mem_nil,
        fun d member => absurd member List.not_mem_nil, List.Pairwise.nil, fun n below differ => ?_⟩
      -- Below the first event both counts are zero.
      have none_ (change : Event → Int) : countAt change (event :: rest) n = 0 := by
        refine @countAt_between change [] (event :: rest) n
          (fun other member => absurd member List.not_mem_nil) fun other member => ?_
        rcases List.mem_cons.mp member with rfl | later
        · exact below
        · exact below.trans_le ((List.pairwise_cons.mp sorted).1 other later)
      rw [none_, none_] at differ
      exact absurd rfl differ

/-! The counts of two families of intervals. -/

/-- The events of counted intervals of the two families. -/
def eventsOf (firsts seconds : List (Run Int)) : List Event :=
  firsts.flatMap (fun run => [⟨run.start, run.by_, 0⟩, ⟨run.stop, -run.by_, 0⟩])
    ++ seconds.flatMap (fun run => [⟨run.start, 0, run.by_⟩, ⟨run.stop, 0, -run.by_⟩])

/-- How often a block is counted: the counts of the intervals that hold it, added up. -/
def countOf (runs : List (Run Int)) (n : Nat) : Int :=
  ((runs.filter fun run => run.Has n).map (·.by_)).sum

theorem countAt_append (change : Event → Int) (first second : List Event) (n : Nat)
    : countAt change (first ++ second) n = countAt change first n + countAt change second n := by
  rw [countAt, List.filter_append, List.map_append, List.sum_append]
  rfl

/-- The events of intervals count a block as those of each do, added up. -/
theorem countAt_flatMap (change : Event → Int) (events : Run Int → List Event)
    (runs : List (Run Int)) (n : Nat)
    : countAt change (runs.flatMap events) n
      = (runs.map fun run => countAt change (events run) n).sum := by
  induction runs with
  | nil => rfl
  | cons run rest ih => rw [List.flatMap_cons, countAt_append, ih, List.map_cons, List.sum_cons]

theorem countOf_eq (runs : List (Run Int)) (n : Nat)
    : countOf runs n = (runs.map fun run => if run.Has n then run.by_ else 0).sum := by
  induction runs with
  | nil => rfl
  | cons run rest ih =>
      rw [List.map_cons, List.sum_cons, ← ih, countOf, countOf, List.filter_cons]
      split
      next held => rw [List.map_cons, List.sum_cons, if_pos (of_decide_eq_true held)]
      next apart => rw [if_neg (fun held => apart (decide_eq_true held)), Int.zero_add]

/-- An interval's own events count the blocks it holds. -/
theorem countAt_pair {run : Run Int} (forward : run.start ≤ run.stop) (change : Event → Int)
    {one other : Event} (starts : one.block = run.start) (stops : other.block = run.stop) (n : Nat)
    : countAt change [one, other] n
      = if run.start ≤ n then if run.stop ≤ n then change one + change other else change one
        else 0 := by
  unfold countAt
  rw [List.filter_cons, List.filter_cons, starts, stops]
  by_cases begun : run.start ≤ n
  · by_cases ended : run.stop ≤ n
    · simp [begun, ended]
    · simp [begun, ended]
  · have ahead : ¬run.stop ≤ n := by omega
    simp [begun, ahead]

/-- The events count a block as the intervals do. -/
theorem countAt_eventsOf {firsts seconds : List (Run Int)}
    (forward : ∀ run ∈ firsts ++ seconds, run.start ≤ run.stop) (n : Nat)
    : countAt (·.first) (eventsOf firsts seconds) n = countOf firsts n
      ∧ countAt (·.second) (eventsOf firsts seconds) n = countOf seconds n := by
  have own {run : Run Int} (forward : run.start ≤ run.stop)
      : (if run.start ≤ n then if run.stop ≤ n then run.by_ + -run.by_ else run.by_ else 0)
        = if run.Has n then run.by_ else 0 := by
    by_cases held : run.Has n
    · rw [if_pos held, if_pos held.1, if_neg (Nat.not_le.mpr held.2)]
    · rw [if_neg held]
      unfold Run.Has at held
      split
      · rw [if_pos (by omega), Int.add_right_neg]
      · rfl
  have zero {run : Run Int}
      : (if run.start ≤ n then if run.stop ≤ n then (0 : Int) + 0 else 0 else 0) = 0 := by
    split
    · split <;> rfl
    · rfl
  have ofFirsts : firsts.map (fun run => countAt (·.first)
        [⟨run.start, run.by_, 0⟩, ⟨run.stop, -run.by_, 0⟩] n)
      = firsts.map fun run => if run.Has n then run.by_ else 0 :=
    List.map_congr_left fun run member => by
      have order := forward run (List.mem_append_left _ member)
      exact (countAt_pair order (·.first) rfl rfl n).trans (own order)
  have ofSeconds : seconds.map (fun run => countAt (·.second)
        [⟨run.start, 0, run.by_⟩, ⟨run.stop, 0, -run.by_⟩] n)
      = seconds.map fun run => if run.Has n then run.by_ else 0 :=
    List.map_congr_left fun run member => by
      have order := forward run (List.mem_append_right _ member)
      exact (countAt_pair order (·.second) rfl rfl n).trans (own order)
  have noFirst : seconds.map (fun run => countAt (·.first)
        [⟨run.start, 0, run.by_⟩, ⟨run.stop, 0, -run.by_⟩] n) = seconds.map fun _ => 0 :=
    List.map_congr_left fun run member =>
      (countAt_pair (forward run (List.mem_append_right _ member)) (·.first) rfl rfl n).trans zero
  have noSecond : firsts.map (fun run => countAt (·.second)
        [⟨run.start, run.by_, 0⟩, ⟨run.stop, -run.by_, 0⟩] n) = firsts.map fun _ => 0 :=
    List.map_congr_left fun run member =>
      (countAt_pair (forward run (List.mem_append_left _ member)) (·.second) rfl rfl n).trans zero
  unfold eventsOf
  rw [countAt_append, countAt_append, countAt_flatMap, countAt_flatMap, countAt_flatMap,
    countAt_flatMap, countOf_eq, countOf_eq, ofFirsts, ofSeconds, noFirst, noSecond]
  simp

/-- What begins ends: the changes of either count add up to nothing. -/
theorem sum_eventsOf (firsts seconds : List (Run Int))
    : ((eventsOf firsts seconds).map (·.first)).sum = 0
      ∧ ((eventsOf firsts seconds).map (·.second)).sum = 0 := by
  have cancel (runs : List (Run Int)) (events : Run Int → List Event) (change : Event → Int)
      (each : ∀ run, ((events run).map change).sum = 0)
      : ((runs.flatMap events).map change).sum = 0 := by
    induction runs with
    | nil => rfl
    | cons run rest ih => rw [List.flatMap_cons, List.map_append, List.sum_append, each, ih]; rfl
  unfold eventsOf
  rw [List.map_append, List.map_append, List.sum_append, List.sum_append]
  rw [cancel firsts _ (·.first) fun run => by simp, cancel seconds _ (·.first) fun run => by simp,
    cancel firsts _ (·.second) fun run => by simp, cancel seconds _ (·.second) fun run => by simp]
  exact ⟨rfl, rfl⟩

/-- A count is of the events whatever their order. -/
theorem countAt_perm {change : Event → Int} {first second : List Event} (perm : first.Perm second)
    (n : Nat) : countAt change first n = countAt change second n :=
  ((perm.filter _).map change).sum_eq

/-- Events of two families of counted intervals, swept in the order of their blocks and of one block
in any order, give the disagreements of the two counts.
-/
theorem sweepSorted_spec {firsts seconds : List (Run Int)} {events : List Event}
    (forward : ∀ run ∈ firsts ++ seconds, run.start ≤ run.stop)
    (perm : events.Perm (eventsOf firsts seconds))
    (sorted : events.Pairwise fun a b => a.block ≤ b.block) (fits : SumsFit events)
    : Disagreements (countOf firsts) (countOf seconds) (sweepSorted events) := by
  have sums := sum_eventsOf firsts seconds
  have level : (events.map (·.first)).sum = (events.map (·.second)).sum := by
    rw [(perm.map _).sum_eq, (perm.map _).sum_eq, sums.1, sums.2]
  have found := sweepSorted_finds sorted fits level
  have first : countAt (·.first) events = countOf firsts := funext fun n =>
    (countAt_perm perm n).trans (countAt_eventsOf forward n).1
  have second : countAt (·.second) events = countOf seconds := funext fun n =>
    (countAt_perm perm n).trans (countAt_eventsOf forward n).2
  rwa [first, second] at found

/-- Two families of counted intervals, their events in any order, come to the disagreements of their
counts wherever no sum leaves 64 bits; two runs of at least one block that use one block are found
exactly where there are such, by the name of one; and merged runs cover a range exactly where each
block of it was in a run.
-/
theorem counts_compared
    : (∀ (by_ : BlockSort) (firsts seconds : List (Run Int)) (events : List Event),
        (∀ run ∈ firsts ++ seconds, run.start ≤ run.stop) → events.Perm (eventsOf firsts seconds)
        → SumsFit (by_.sort events)
        → Disagreements (countOf firsts) (countOf seconds) (disagreements by_ events))
      ∧ (∀ (runs : List FileExtent) (blockSize : Nat), (∀ run ∈ runs, Solid blockSize run)
        → ((reusedBlock runs blockSize).isSome = true ↔ TwoOf runs (Shares blockSize))
          ∧ ∀ logical, reusedBlock runs blockSize = some logical
            → TwoOf runs fun run other => Shares blockSize run other ∧ run.logical = logical)
      ∧ ∀ (runs : List (Run Unit)) (start stop : Nat), start < stop
        → (covers (mergeRuns runs) start stop = true
          ↔ ∀ n, start ≤ n → n < stop → ∃ run ∈ runs, run.Has n) := by
  refine ⟨fun by_ firsts seconds events forward perm fits => ?_,
    fun runs blockSize solid => reusedBlock_spec solid, fun runs start stop some_ => ?_⟩
  · exact sweepSorted_spec forward ((by_.perm events).trans perm) (by_.ordered events) fits
  · obtain ⟨parted, same⟩ := mergeRuns_spec runs
    rw [covers_iff parted some_]
    simp only [same]

/-- A sort by block that leaves the events of one block as they came. -/
def BlockSort.stable : BlockSort where
  sort := List.insertionSort fun a b => a.block ≤ b.block
  perm := List.perm_insertionSort _
  ordered := List.pairwise_insertionSort _

-- Blocks 2 to 4 counted twice by one family and once by the other, whose count goes on to block 5.
example : disagreements .stable (eventsOf [⟨2, 5, 1⟩, ⟨2, 5, 1⟩] [⟨2, 6, 1⟩])
    = [⟨2, 5, 2, 1⟩, ⟨5, 6, 0, 1⟩] := by
  decide +kernel

end Ferrosys.Apfs.Counts
