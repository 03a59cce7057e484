import Ferrosys.Apfs.Space.Runs
import Mathlib.Data.List.TakeWhile

/-! What is reported as claimed twice is: the merged runs hold the blocks reached and no others, and
a search of them or of a queue's runs finds exactly the runs that share a block with another.
-/

namespace Ferrosys.Apfs.Space

open Sweep

/-- What merging has come to over the runs `done`: runs that are apart, hold what those do and go as
far, and the overlaps among those as far as they are reported.
-/
structure Merged (done : List (Run By)) (state : Merging) : Prop where
  apart : state.merged.Pairwise fun a b => b.stop ≤ a.start
  solid : ∀ run ∈ state.merged, run.start < run.stop
  has : ∀ n, (∃ run ∈ state.merged, run.Has n) ↔ ∃ run ∈ done, run.Has n
  last : ∀ last ∈ state.merged.head?,
    last.stop = furthest done ∧ ∃ run ∈ done, run.start = last.start
  overlaps : state.overlaps.map (·.block) = ((clashes [] done).map (·.start)).take overlapCap
  done_nil : state.merged = [] → done = []

/-- One list of reports goes on to the next, up to the cap. -/
theorem take_append_of_lt {α : Type} {list : List α} {cap : Nat} {a : α}
    (room : (list.take cap).length < cap) : (list ++ [a]).take cap = list.take cap ++ [a] := by
  rw [List.length_take] at room
  rw [List.take_of_length_le (by simp; omega), List.take_of_length_le (by omega)]

theorem take_append_of_full {α : Type} {list : List α} {cap : Nat} {a : α}
    (full : ¬(list.take cap).length < cap) : (list ++ [a]).take cap = list.take cap := by
  rw [List.length_take] at full
  rw [List.take_append_of_le_length (by omega)]

/-- One run more, which begins no earlier than those before it and is not empty. -/
theorem Merged.add {done : List (Run By)} {state : Merging} (merged : Merged done state)
    {run : Run By} (sorted : ∀ earlier ∈ done, earlier.start ≤ run.start)
    (some_ : run.start < run.stop) : Merged (done ++ [run]) (state.add run) := by
  have clash : clashes [] (done ++ [run]) = clashes [] done
      ++ if run.start < furthest done then [run] else [] := by
    rw [clashes_append, clashes, clashes, List.append_nil, List.nil_append]
    congr 1
    exact if_congr (exists_meets_iff sorted some_) rfl rfl
  have member (n : Nat) : (∃ other ∈ done ++ [run], other.Has n)
      ↔ (∃ other ∈ done, other.Has n) ∨ run.Has n := by
    simp only [List.mem_append, List.mem_singleton, or_and_right, exists_or, exists_eq_left]
  obtain ⟨merged_, reports⟩ := state
  cases merged_ with
  | nil =>
      obtain rfl := merged.done_nil rfl
      refine ⟨List.pairwise_singleton _ _, ?_, fun n => Iff.rfl, ?_, ?_,
        fun none_ => absurd none_ (List.cons_ne_nil _ _)⟩
      · intro other here
        obtain rfl := List.mem_singleton.mp here
        exact some_
      · intro last isLast
        obtain rfl := Option.some.inj isLast
        exact ⟨by simp [furthest], run, List.mem_cons_self, rfl⟩
      · have none_ := merged.overlaps
        simpa [clash, furthest, clashes, Merging.add] using none_
  | cons last before =>
      obtain ⟨far, first, isFirst, begins⟩ := merged.last last rfl
      have early : last.start ≤ run.start := begins ▸ sorted first isFirst
      obtain ⟨below, apart⟩ := List.pairwise_cons.mp merged.apart
      have solid := merged.solid last List.mem_cons_self
      -- the last run grown to take this one in, where this one begins no later than it ends
      have grown (stop : Nat) (reaches_ : stop = max last.stop run.stop)
          (touches : run.start ≤ last.stop) (found : List Overlap)
          (reported : found.map (·.block)
            = ((clashes [] (done ++ [run])).map (·.start)).take overlapCap)
          : Merged (done ++ [run]) ⟨{ last with stop } :: before, found⟩ := by
        refine ⟨List.pairwise_cons.mpr ⟨below, apart⟩, ?_, fun n => ?_, ?_, reported,
          fun none_ => absurd none_ (List.cons_ne_nil _ _)⟩
        · intro other listed
          rcases List.mem_cons.mp listed with rfl | later
          · change last.start < stop
            omega
          · exact merged.solid other (List.mem_cons_of_mem _ later)
        · have held := merged.has n
          rw [member, ← held]
          simp only [List.mem_cons, exists_eq_or_imp, Run.Has]
          constructor
          · rintro (⟨low, high⟩ | rest)
            · rcases Nat.lt_or_ge n last.stop with inside | past
              · exact .inl (.inl ⟨low, inside⟩)
              · exact .inr ⟨by omega, by omega⟩
            · exact .inl (.inr rest)
          · rintro ((⟨low, high⟩ | rest) | ⟨low, high⟩)
            · exact .inl ⟨low, by omega⟩
            · exact .inr rest
            · exact .inl ⟨by omega, by omega⟩
        · intro _ isLast
          obtain rfl := Option.some.inj isLast
          refine ⟨?_, first, List.mem_append_left _ isFirst, begins⟩
          rw [furthest_append, ← far]
          exact reaches_
      unfold Merging.add
      dsimp only
      split
      next overlapping =>
        refine grown _ rfl (Nat.le_of_lt overlapping) _ ?_
        have length := congrArg List.length merged.overlaps
        rw [List.length_map] at length
        rw [clash, ← far, if_pos overlapping, List.map_append, List.map_singleton]
        split
        next room =>
          rw [take_append_of_lt (by rw [← length]; exact room), ← merged.overlaps, List.map_append]
          rfl
        next full =>
          rw [take_append_of_full (by rw [← length]; exact full)]
          exact merged.overlaps
      next clear =>
        have reported : reports.map (·.block)
            = ((clashes [] (done ++ [run])).map (·.start)).take overlapCap := by
          rw [clash, ← far, if_neg clear, List.append_nil]
          exact merged.overlaps
        split
        next joined => exact grown _ (by omega) (by omega) _ reported
        next apart_ =>
          refine ⟨List.pairwise_cons.mpr ⟨?_, merged.apart⟩, ?_, fun n => ?_, ?_, reported,
            fun none_ => absurd none_ (List.cons_ne_nil _ _)⟩
          · intro other listed
            rcases List.mem_cons.mp listed with rfl | later
            · omega
            · have := below other later
              omega
          · intro other listed
            rcases List.mem_cons.mp listed with rfl | later
            · exact some_
            · exact merged.solid other later
          · have held := merged.has n
            rw [member, ← held]
            simp only [List.mem_cons, exists_eq_or_imp]
            exact or_comm
          · intro _ isLast
            obtain rfl := Option.some.inj isLast
            refine ⟨?_, run, List.mem_append_right _ List.mem_cons_self, rfl⟩
            rw [furthest_append, ← far]
            omega

/-- Merging goes over the runs in order, by induction on those left. -/
theorem Merged.fold {done rest : List (Run By)} {state : Merging} (merged : Merged done state)
    (sorted : (done ++ rest).Pairwise Run.Before) (solid : ∀ run ∈ rest, run.start < run.stop)
    : Merged (done ++ rest) (rest.foldl Merging.add state) := by
  induction rest generalizing done state with
  | nil => rwa [List.append_nil]
  | cons run rest ih =>
      rw [List.append_cons] at sorted ⊢
      refine ih (merged.add (fun earlier member => ?_) (solid run List.mem_cons_self)) sorted
        fun later member => solid later (List.mem_cons_of_mem _ member)
      have before := (List.pairwise_append.mp (List.pairwise_append.mp sorted).1).2.2
      exact (before earlier member run List.mem_cons_self).start_le

/-- The runs merged are apart and in order, hold the blocks the runs do and no others, and the
overlaps reported are the runs that share a block with one that begins no later, up to the cap.
-/
theorem merge_spec {runs : List (Run By)} (solid : ∀ run ∈ runs, run.start < run.stop)
    : (merge runs).1.Pairwise (fun a b => a.stop ≤ b.start)
      ∧ (∀ run ∈ (merge runs).1, run.start < run.stop)
      ∧ (∀ n, (∃ run ∈ (merge runs).1, run.Has n) ↔ ∃ run ∈ runs, run.Has n)
      ∧ (merge runs).2.map (·.block)
        = ((clashes [] (runs.insertionSort Run.Before)).map (·.start)).take overlapCap := by
  have empty : Merged [] ⟨[], []⟩ :=
    ⟨List.Pairwise.nil, nofun, fun _ => Iff.rfl, nofun, rfl, fun _ => rfl⟩
  have merged : Merged (runs.insertionSort Run.Before) _ :=
    empty.fold (List.pairwise_insertionSort Run.Before runs)
      fun run member => solid run ((List.mem_insertionSort Run.Before).mp member)
  refine ⟨List.pairwise_reverse.mpr merged.apart, fun run member =>
    merged.solid run (List.mem_reverse.mp member), fun n => ?_, merged.overlaps⟩
  have same : (∃ run ∈ runs.insertionSort Run.Before, run.Has n) ↔ ∃ run ∈ runs, run.Has n :=
    exists_congr fun run => and_congr_left' (List.mem_insertionSort _)
  rw [← same, ← merged.has n]
  simp only [merge, List.mem_reverse]
  exact Iff.rfl

/-- The element past those that hold a property is the first that does not. -/
theorem getElem?_length_takeWhile {α : Type} (p : α → Bool) (list : List α)
    : list[(list.takeWhile p).length]? = list.find? (!p ·) := by
  induction list with
  | nil => rfl
  | cons a rest ih =>
      rw [List.takeWhile_cons, List.find?_cons]
      cases p a with
      | true => exact ih
      | false => rfl

/-- A search of runs that are apart and in order finds one exactly where one ends past `start` and
begins before `stop`.
-/
theorem covered_isSome {runs : List (Run By)} (apart : runs.Pairwise fun a b => a.stop ≤ b.start)
    (solid : ∀ run ∈ runs, run.start < run.stop) (start stop : Nat)
    : (covered runs start stop).isSome = true
      ↔ ∃ run ∈ runs, start < run.stop ∧ run.start < stop := by
  rw [covered, Option.isSome_map, getElem?_length_takeWhile]
  constructor
  · intro found
    obtain ⟨run, held⟩ := Option.isSome_iff_exists.mp found
    obtain ⟨met, begins⟩ := Option.filter_eq_some_iff.mp held
    have ends := List.find?_some met
    refine ⟨run, List.mem_of_find?_eq_some met, ?_, of_decide_eq_true begins⟩
    simpa using ends
  · rintro ⟨other, member, ends, begins⟩
    cases met : runs.find? fun run => !decide (run.stop ≤ start) with
    | none =>
        have none_ := List.find?_eq_none.mp met other member
        simp only [Bool.not_eq_true', decide_eq_false_iff_not, Nat.not_le] at none_
        exact absurd ends none_
    | some run =>
        obtain ⟨-, before, behind, split, passed⟩ := List.find?_eq_some_iff_append.mp met
        have early : run.start < stop := by
          rw [split] at member apart
          rcases List.mem_append.mp member with earlier | later
          · have over_ := passed other earlier
            simp only [Bool.not_not, decide_eq_true_eq] at over_
            omega
          · rcases List.mem_cons.mp later with rfl | later
            · exact begins
            · have ordered := List.pairwise_cons.mp (List.pairwise_append.mp apart).2.1
              have next := ordered.1 other later
              have some_ := solid run (List.mem_of_find?_eq_some met)
              omega
        rw [Option.filter_some, if_pos (decide_eq_true early)]
        rfl

/-- Of a sorted list, what is before an end is what was taken up to it, by induction on the list. -/
theorem mem_takeWhile_start {runs : List (Run By)}
    (sorted : runs.Pairwise fun a b => a.start ≤ b.start) {stop : Nat} {run : Run By}
    : run ∈ runs.takeWhile (·.start < stop) ↔ run ∈ runs ∧ run.start < stop := by
  induction runs with
  | nil => simp
  | cons first rest ih =>
      obtain ⟨least, sorted⟩ := List.pairwise_cons.mp sorted
      rw [List.takeWhile_cons]
      split
      next begins =>
        rw [List.mem_cons, List.mem_cons, ih sorted, or_and_right]
        refine or_congr_left ⟨fun here => ⟨here, ?_⟩, And.left⟩
        rw [here]
        exact of_decide_eq_true begins
      next past =>
        refine iff_of_false List.not_mem_nil ?_
        rw [decide_eq_true_eq, Nat.not_lt] at past
        rintro ⟨member, begins⟩
        rcases List.mem_cons.mp member with rfl | later
        · omega
        · have := least run later
          omega

/-- The runs met are those that begin before `stop` and end past `start`: those passed over end no
later than the furthest of them does, by induction on the runs.
-/
theorem mem_meeting {runs : List (Run By)} (sorted : runs.Pairwise fun a b => a.start ≤ b.start)
    (far start stop : Nat) {run : Run By}
    : run ∈ meeting runs (reaches far runs) start stop
      ↔ run ∈ runs ∧ run.start < stop ∧ start < run.stop := by
  induction runs generalizing far with
  | nil => simp [meeting]
  | cons first rest ih =>
      obtain ⟨least, later⟩ := List.pairwise_cons.mp sorted
      by_cases passed : max far first.stop ≤ start
      · have dropped : meeting (first :: rest) (reaches far (first :: rest)) start stop
            = meeting rest (reaches (max far first.stop) rest) start stop := by
          rw [meeting, reaches, List.takeWhile_cons, if_pos (decide_eq_true passed)]
          rfl
        rw [dropped, ih later, List.mem_cons]
        constructor
        · rintro ⟨member, meets⟩
          exact ⟨.inr member, meets⟩
        · rintro ⟨rfl | member, meets⟩
          · omega
          · exact ⟨member, meets⟩
      · rw [meeting, reaches, List.takeWhile_cons, if_neg (by simpa using passed)]
        rw [List.length_nil, List.drop_zero, List.mem_filter, mem_takeWhile_start sorted,
          decide_eq_true_eq, and_assoc]

/-- Runs none of which is empty strictly inside another. -/
def Unpierced {β : Type} (runs : List (Run β)) : Prop :=
  ∀ point ∈ runs, point.stop ≤ point.start → ∀ run ∈ runs,
    ¬(run.start < point.start ∧ point.start < run.stop)

section

variable {β : Type} {before rest : List (Run β)} {far : Option (Run β)}

/-- The earlier run that reaches furthest, where there is one. -/
def IsFurthest (before : List (Run β)) (far : Option (Run β)) : Prop :=
  (∀ run ∈ far, run ∈ before ∧ run.stop = furthest before) ∧ (far = none → before = [])

/-- The run that reaches furthest after one run more. -/
theorem IsFurthest.next (isFar : IsFurthest before far) (run : Run β)
    : IsFurthest (before ++ [run]) (if far.all (·.stop < run.stop) then some run else far) := by
  unfold IsFurthest
  rw [furthest_append]
  cases far with
  | none =>
      obtain rfl := isFar.2 rfl
      refine ⟨?_, fun none_ => absurd none_ (Option.some_ne_none _)⟩
      intro _ isRun
      obtain rfl := Option.some.inj isRun
      exact ⟨List.mem_cons_self, by simp [furthest]⟩
  | some last =>
      obtain ⟨member, reached⟩ := isFar.1 last rfl
      rw [Option.all_some]
      split
      next longer =>
        refine ⟨?_, fun none_ => absurd none_ (Option.some_ne_none _)⟩
        intro _ isRun
        obtain rfl := Option.some.inj isRun
        refine ⟨List.mem_append_right _ List.mem_cons_self, ?_⟩
        have := of_decide_eq_true longer
        omega
      next shorter =>
        refine ⟨?_, fun none_ => absurd none_ (Option.some_ne_none _)⟩
        intro _ isRun
        obtain rfl := Option.some.inj isRun
        refine ⟨List.mem_append_left _ member, ?_⟩
        rw [decide_eq_true_eq] at shorter
        omega

/-- A run shares a block with an earlier one exactly where it begins before the one that reaches
furthest ends, and then shares one with that.
-/
theorem IsFurthest.meets (isFar : IsFurthest before far) {run : Run β}
    (sorted : ∀ earlier ∈ before, earlier.Before run)
    (unpierced : run.stop ≤ run.start → ∀ earlier ∈ before,
      ¬(earlier.start < run.start ∧ run.start < earlier.stop))
    : (∀ last ∈ far, run.start < last.stop → last.Meets run)
      ∧ ((∃ earlier ∈ before, earlier.Meets run) ↔ ∃ last ∈ far, run.start < last.stop) := by
  have meets : ∀ last ∈ far, run.start < last.stop → last.Meets run := by
    intro last isLast short
    have member := (isFar.1 last isLast).1
    have ordered := sorted last member
    rcases Nat.lt_or_ge run.start run.stop with some_ | empty
    · exact ⟨run.start, ⟨ordered.start_le, short⟩, Nat.le_refl _, some_⟩
    · have clear := unpierced empty last member
      unfold Run.Before at ordered
      omega
  refine ⟨meets, fun found => ?_, fun found => ?_⟩
  · obtain ⟨earlier, member, n, has, hasRun⟩ := found
    cases held : far with
    | none =>
        rw [isFar.2 held] at member
        cases member
    | some last =>
        obtain ⟨-, reached⟩ := isFar.1 last held
        have short := lt_furthest_iff.mpr ⟨earlier, member, has.2⟩
        have begins := hasRun.1
        exact ⟨last, rfl, by omega⟩
  · obtain ⟨last, isLast, short⟩ := found
    exact ⟨last, (isFar.1 last isLast).1, meets last isLast short⟩

/-- What is found of runs in order is each that shares a block with an earlier one, and one it
shares a block with, by induction on the runs left.
-/
theorem overlapsFrom_spec (sorted : (before ++ rest).Pairwise Run.Before)
    (unpierced : Unpierced (before ++ rest)) (isFar : IsFurthest before far)
    : (overlapsFrom far rest).map (·.2) = clashes before rest
      ∧ ∀ pair ∈ overlapsFrom far rest, pair.1 ∈ before ++ rest ∧ pair.1.Meets pair.2 := by
  induction rest generalizing before far with
  | nil => exact ⟨rfl, nofun⟩
  | cons run rest ih =>
      have runIn : run ∈ before ++ run :: rest := List.mem_append_right _ List.mem_cons_self
      obtain ⟨meets, clash⟩ := isFar.meets
        (fun earlier member =>
          (List.pairwise_append.mp sorted).2.2 earlier member run List.mem_cons_self)
        (fun empty earlier member =>
          unpierced run runIn empty earlier (List.mem_append_left _ member))
      have member : ∀ last ∈ far, last ∈ before ++ run :: rest := fun last isLast =>
        List.mem_append_left _ (isFar.1 last isLast).1
      rw [List.append_cons] at sorted unpierced member ⊢
      obtain ⟨same, pairs⟩ := ih sorted unpierced (isFar.next run)
      rw [overlapsFrom, clashes, List.map_append, same]
      cases held : far.filter (run.start < ·.stop) with
      | none =>
          have clear : ¬∃ earlier ∈ before, earlier.Meets run := by
            rw [clash]
            rintro ⟨last, isLast, short⟩
            have := Option.filter_eq_none_iff.mp held last isLast
            exact this (decide_eq_true short)
          rw [if_neg clear]
          exact ⟨rfl, pairs⟩
      | some last =>
          obtain ⟨isLast, short⟩ := Option.filter_eq_some_iff.mp held
          have short := of_decide_eq_true short
          rw [if_pos (clash.mpr ⟨last, isLast, short⟩)]
          refine ⟨rfl, fun pair listed => ?_⟩
          rcases List.mem_cons.mp listed with rfl | later
          · exact ⟨member last isLast, meets last isLast short⟩
          · exact pairs pair later

end

/-- What is found of runs in order, where no empty one is strictly inside another. -/
theorem overlaps_spec {β : Type} {runs : List (Run β)} (sorted : runs.Pairwise Run.Before)
    (unpierced : Unpierced runs)
    : (overlaps runs).map (·.2) = clashes [] runs
      ∧ ∀ pair ∈ overlaps runs, pair.1 ∈ runs ∧ pair.1.Meets pair.2 :=
  overlapsFrom_spec sorted unpierced ⟨nofun, fun _ => rfl⟩

end Ferrosys.Apfs.Space
