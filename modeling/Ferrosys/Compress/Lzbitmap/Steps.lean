import Ferrosys.Compress.Lzbitmap.Encoding
import Mathlib.Data.Nat.Bitwise

/-! What a step does where its areas stand, and what the steps and the selectors of a run do. -/

namespace Ferrosys.Compress.Lzbitmap

open Checked Machine Splice

theorem setBits_succ (mask count i : Nat)
    : setBits mask (count + 1) i
      = setBits mask count (i + 1) + if isSet mask i then 1 else 0 := by
  rw [setBits, List.range'_succ, List.countP_cons, setBits]

/-- The copies of a step are none exactly where every bit it produces is set. -/
theorem copies_eq_zero {mask n : Nat} (small : mask < 256) (pos : 0 < n) (few : n ≤ 8)
    : (255 - mask) &&& (255 / 2 ^ (8 - n)) = 0 ↔ ∀ i < n, isSet mask i = true := by
  have low : 255 / 2 ^ (8 - n) = 2 ^ n - 1 := by
    have cases_ : n = 1 ∨ n = 2 ∨ n = 3 ∨ n = 4 ∨ n = 5 ∨ n = 6 ∨ n = 7 ∨ n = 8 := by omega
    rcases cases_ with rfl | rfl | rfl | rfl | rfl | rfl | rfl | rfl <;> rfl
  have bit : ∀ i, ((255 - mask) &&& (2 ^ n - 1)).testBit i
      = (decide (i < n) && !isSet mask i) := by
    intro i
    have flipped : (255 - mask).testBit i = (decide (i < 8) && !mask.testBit i) := by
      have := Nat.testBit_two_pow_sub_succ (x := mask) (n := 8) small i
      rwa [show 2 ^ 8 - (mask + 1) = 255 - mask by omega] at this
    rw [Nat.testBit_and, flipped, Nat.testBit_two_pow_sub_one, isSet, Nat.testBit_eq_decide_div_mod_eq]
    by_cases inside : i < n
    · simp [inside, show i < 8 by omega]
    · simp [inside]
  rw [low]
  constructor
  · intro zero i inside
    have here := bit i
    rw [zero, Nat.zero_testBit] at here
    simpa [inside] using here.symm
  · intro all
    refine Nat.eq_of_testBit_eq fun i => ?_
    rw [bit, Nat.zero_testBit]
    by_cases inside : i < n
    · simp [all i inside]
    · simp [inside]

theorem produce_of_set {mask distance count i : Nat} {byte : UInt8} {literals out : Bytes}
    (bit : isSet mask i = true)
    : produce mask distance (count + 1) i (byte :: literals) out
      = produce mask distance count (i + 1) literals (out ++ [byte]) := by
  rw [produce.eq_def]
  dsimp only
  rw [if_pos bit]

theorem produce_of_clear {mask distance count i : Nat} {byte : UInt8} {literals out : Bytes}
    (bit : isSet mask i = false) (back : out[out.length - distance]? = some byte)
    : produce mask distance (count + 1) i literals out
      = produce mask distance count (i + 1) literals (out ++ [byte]) := by
  rw [produce.eq_def]
  dsimp only
  rw [if_neg (by rw [bit]; nofun), back]

theorem fill_of_set {mask distance count i at_ : Nat} {byte : UInt8} {literals out after : Bytes}
    (bit : isSet mask i = true) (write : setByte out at_ byte = .ok after)
    : fill mask distance (count + 1) i (byte :: literals) out at_
      = fill mask distance count (i + 1) literals after (at_ + 1) := by
  rw [fill.eq_def]
  dsimp only
  rw [if_pos (of_decide_eq_true bit), write, ok_bind]

theorem fill_of_clear {mask distance count i at_ : Nat} {byte : UInt8}
    {literals out after : Bytes} (bit : isSet mask i = false) (within : distance ≤ at_)
    (back : byteAt out (at_ - distance) = .ok byte) (write : setByte out at_ byte = .ok after)
    : fill mask distance (count + 1) i literals out at_
      = fill mask distance count (i + 1) literals after (at_ + 1) := by
  rw [fill.eq_def]
  dsimp only
  rw [if_neg (of_decide_eq_false bit), minus_of_le within, ok_bind, back, ok_bind, write, ok_bind]

/-- A step that has its literals produces as many bytes as it says, by induction on them. -/
theorem length_produce {mask distance count i : Nat} {literals out : Bytes}
    (exact_ : literals.length = setBits mask count i)
    (reaches : (∃ j, i ≤ j ∧ j < i + count ∧ isSet mask j = false) →
      0 < distance ∧ distance ≤ out.length)
    : (produce mask distance count i literals out).length = out.length + count := by
  induction count generalizing i literals out with
  | zero => rfl
  | succ count ih =>
      rw [setBits_succ] at exact_
      have later : (∃ j, i + 1 ≤ j ∧ j < i + 1 + count ∧ isSet mask j = false) →
          0 < distance ∧ distance ≤ out.length := fun ⟨j, low, high, clear⟩ =>
        reaches ⟨j, by omega, by omega, clear⟩
      cases bit : isSet mask i with
      | true =>
          rw [bit, if_pos rfl] at exact_
          cases literals with
          | nil => simp at exact_
          | cons byte rest =>
              rw [produce_of_set bit, ih (by simpa using exact_) fun some_ => by
                rw [List.length_append]
                exact ⟨(later some_).1, by have := (later some_).2; omega⟩]
              simp
              omega
      | false =>
          rw [bit, if_neg nofun, Nat.add_zero] at exact_
          obtain ⟨pos, within⟩ := reaches ⟨i, Nat.le_refl _, by omega, bit⟩
          obtain ⟨byte, back⟩ := Lz77.exists_back pos within
          rw [produce_of_clear bit back, ih exact_ fun some_ => by
            rw [List.length_append]
            exact ⟨pos, by omega⟩]
          simp
          omega

/-- Filling a step whose literals stand before those of the next ones, by induction on its bytes. -/
theorem fill_eq {mask distance count i : Nat} {literals rest produced room : Bytes}
    (exact_ : literals.length = setBits mask count i)
    (reaches : (∃ j, i ≤ j ∧ j < i + count ∧ isSet mask j = false) →
      0 < distance ∧ distance ≤ produced.length)
    (fits : count ≤ room.length)
    : fill mask distance count i (literals ++ rest) (produced ++ room) produced.length
      = .ok (rest, produce mask distance count i literals produced ++ room.drop count) := by
  induction count generalizing i literals produced room with
  | zero =>
      obtain rfl := List.eq_nil_of_length_eq_zero exact_
      rfl
  | succ count ih =>
      rw [setBits_succ] at exact_
      have later : (∃ j, i + 1 ≤ j ∧ j < i + 1 + count ∧ isSet mask j = false) →
          0 < distance ∧ distance ≤ produced.length := fun ⟨j, low, high, clear⟩ =>
        reaches ⟨j, by omega, by omega, clear⟩
      cases room with
      | nil => exact absurd fits (Nat.not_succ_le_zero _)
      | cons first room =>
          have write : ∀ byte, setByte (produced ++ first :: room) produced.length byte
              = .ok (produced ++ [byte] ++ room) := by
            intro byte
            unfold setByte
            rw [if_pos (by simp)]
            simp
          cases bit : isSet mask i with
          | true =>
              rw [bit, if_pos rfl] at exact_
              cases literals with
              | nil => simp at exact_
              | cons byte literals =>
                  have next := @ih (i + 1) literals (produced ++ [byte]) room
                    (by simpa using exact_) (fun some_ => by
                      rw [List.length_append]
                      exact ⟨(later some_).1, by have := (later some_).2; omega⟩)
                    (by simpa using fits)
                  rw [List.length_append, List.length_singleton] at next
                  rw [List.cons_append, fill_of_set bit (write byte), next, produce_of_set bit,
                    List.drop_succ_cons]
          | false =>
              rw [bit, if_neg nofun, Nat.add_zero] at exact_
              obtain ⟨pos, within⟩ := reaches ⟨i, Nat.le_refl _, by omega, bit⟩
              obtain ⟨byte, back⟩ := Lz77.exists_back pos within
              have here : byteAt (produced ++ first :: room) (produced.length - distance)
                  = .ok byte := by
                rw [byteAt_eq_ok, List.getElem?_append_left (by omega), back]
              have next := @ih (i + 1) literals (produced ++ [byte]) room exact_ (fun _ => by
                  rw [List.length_append]
                  exact ⟨pos, by omega⟩) (by simpa using fits)
              rw [List.length_append, List.length_singleton] at next
              rw [fill_of_clear bit within here (write byte), next, produce_of_clear bit back,
                List.drop_succ_cons]

/-- Where a block's decoding stands: what is left of its areas, how far its progress has come, and
the room for the rest of it.
-/
def State.of (masks literals distances : Bytes) (index : Nat) (progress : Progress) (room : Bytes)
    : State :=
  ⟨masks, literals, distances, index, progress.out ++ room, progress.out.length,
    progress.distance⟩

@[simp] theorem State.of_at (masks literals distances : Bytes) (index : Nat) (progress : Progress)
    (room : Bytes)
    : (State.of masks literals distances index progress room).at_ = progress.out.length := rfl

/-- The masks steps of a selector take from the masks. -/
def masksOf (selector : Nat) (list : List Step) : Bytes :=
  if selector < firstTableSelector then list.map fun one => UInt8.ofNat one.mask else []

/-- Every entry of a table is of a byte and a count it may have. -/
def EntriesFit (entries : List (Nat × Nat)) : Prop := ∀ entry ∈ entries, entry.1 < 256 ∧ entry.2 ≤ 2

theorem Step.Named.mask_lt {entries : List (Nat × Nat)} {selector : Nat} {one : Step}
    (named : one.Named entries selector) (fit : EntriesFit entries) : one.mask < 256 := by
  rcases named with ⟨-, small, -⟩ | ⟨-, -, here⟩
  · exact small
  · exact (fit _ (List.mem_of_getElem? here)).1

theorem Step.length_expand {one : Step} {progress : Progress} (fits : one.Fits progress)
    : (one.expand progress).out.length = progress.out.length + min progress.left stepLen := by
  obtain ⟨-, exact_, reaches⟩ := fits
  refine length_produce exact_ ?_
  rintro ⟨j, -, below, clear⟩
  rw [Nat.zero_add] at below
  obtain ⟨far, within⟩ := reaches ⟨j, below, clear⟩
  unfold stepLen at far
  exact ⟨by omega, within⟩

theorem maskOf_eq {entries : List (Nat × Nat)} {selector : Nat} {one : Step} {masks : Bytes}
    (named : one.Named entries selector) (fit : EntriesFit entries)
    : maskOf entries selector (masksOf selector [one] ++ masks)
      = .ok ((one.mask, one.distance.length), masks) := by
  have small := named.mask_lt fit
  unfold maskOf masksOf
  rcases named with ⟨own, -, width⟩ | ⟨past, below, here⟩
  · rw [if_pos own, if_pos own, List.map_singleton, List.singleton_append]
    dsimp only
    rw [toNat_ofNat small, width]
  · rw [if_neg (by omega), if_neg (by omega), if_neg (by omega), List.nil_append, here]

theorem distanceOf_eq (one : Step) (last : Nat) (distances : Bytes)
    : distanceOf one.distance.length last (one.distance ++ distances)
      = .ok (one.distanceAfter last, distances) := by
  unfold distanceOf Step.distanceAfter
  by_cases none_ : one.distance = []
  · rw [none_]
    rfl
  · have pos := List.length_pos_iff.mpr none_
    rw [if_pos pos, if_neg (by rw [List.length_append]; omega), if_neg none_, List.take_left,
      List.drop_left]

/-- A step that fits, where what it takes stands in its areas, comes to what it expands to. -/
theorem step_eq {entries : List (Nat × Nat)} {stop selector index : Nat} {one : Step}
    {progress : Progress} {masks literals distances room : Bytes} (fit : EntriesFit entries)
    (named : one.Named entries selector) (fits : one.Fits progress)
    (sized : room.length = progress.left) (ends : progress.out.length + progress.left = stop)
    (roomy : stop < 2 ^ 63)
    : step entries stop selector (.of (masksOf selector [one] ++ masks) (one.literals ++ literals)
        (one.distance ++ distances) index progress room)
      = .ok (.of masks literals distances index (one.expand progress)
          (room.drop (min progress.left stepLen))) := by
  have grown := Step.length_expand fits
  obtain ⟨pos, exact_, reaches⟩ := fits
  have eight : stepLen = 8 := rfl
  have copies : ¬ ((255 - one.mask) &&& (255 / 2 ^ (8 - min progress.left 8)) ≠ 0
      ∧ (one.distanceAfter progress.distance < 8
        ∨ progress.out.length < one.distanceAfter progress.distance)) := by
    rintro ⟨some_, bad⟩
    rw [ne_eq, copies_eq_zero (named.mask_lt fit) (by omega) (by omega)] at some_
    push Not at some_
    obtain ⟨i, below, clear⟩ := some_
    have within := reaches ⟨i, below, by simpa using clear⟩
    omega
  have filled := @fill_eq one.mask (one.distanceAfter progress.distance) (min progress.left 8) 0
    one.literals literals progress.out room exact_ (by
      rintro ⟨j, -, below, clear⟩
      rw [Nat.zero_add] at below
      have within := reaches ⟨j, below, clear⟩
      omega) (by omega)
  unfold step State.of
  dsimp only
  rw [maskOf_eq named fit, ok_bind]
  dsimp only
  rw [distanceOf_eq, ok_bind]
  dsimp only
  rw [← ends, minus_of_le (Nat.le_add_right _ _), ok_bind, Nat.add_sub_cancel_left, eight]
  unfold shifted
  rw [if_neg (by omega), ok_bind, if_neg copies, filled, ok_bind]
  dsimp only
  rw [plus_of_lt (by omega), ok_bind, grown]
  rfl

/-- Steps that fit never leave more than there was, by induction on them. -/
theorem left_expandSteps_le (list : List Step) (progress : Progress)
    : (expandSteps list progress).left ≤ progress.left := by
  induction list generalizing progress with
  | nil => exact Nat.le_refl _
  | cons one rest ih => exact (ih (one.expand progress)).trans (Nat.sub_le _ _)

/-- Steps that fit keep the end where it was, by induction on them. -/
theorem ends_expandSteps {list : List Step} {progress : Progress} (follow : Follow list progress)
    : (expandSteps list progress).out.length + (expandSteps list progress).left
      = progress.out.length + progress.left := by
  induction list generalizing progress with
  | nil => rfl
  | cons one rest ih =>
      have grown := Step.length_expand follow.1
      refine (ih follow.2).trans ?_
      rw [grown]
      change _ + (progress.left - min progress.left stepLen) = _
      omega

/-- As many steps of a selector as its repeats make in what is left, by induction on them. -/
theorem steps_eq {entries : List (Nat × Nat)} {stop selector index : Nat} (list : List Step)
    (repeats : Nat) {progress : Progress} {masks literals distances room : Bytes}
    (fit : EntriesFit entries) (named : ∀ one ∈ list, one.Named entries selector)
    (follow : Follow list progress) (many : list.length = min repeats ((progress.left + 7) / 8))
    (sized : room.length = progress.left) (ends : progress.out.length + progress.left = stop)
    (roomy : stop < 2 ^ 63)
    : steps entries stop selector repeats (.of (masksOf selector list ++ masks)
        (list.flatMap Step.literals ++ literals) (list.flatMap Step.distance ++ distances) index
        progress room)
      = .ok (.of masks literals distances index (expandSteps list progress)
          (room.drop (progress.left - (expandSteps list progress).left))) := by
  induction list generalizing repeats progress room with
  | nil =>
      have none_ : masksOf selector [] = [] := by
        unfold masksOf
        split <;> rfl
      rw [none_, show (expandSteps [] progress) = progress from rfl, Nat.sub_self]
      cases repeats with
      | zero => rfl
      | succ repeats =>
          change 0 = _ at many
          rw [steps, State.of_at, if_pos (by omega)]
          rfl
  | cons one rest ih =>
      have some_ := follow.1.1
      have eight : stepLen = 8 := rfl
      have split : masksOf selector (one :: rest) = masksOf selector [one] ++ masksOf selector rest := by
        unfold masksOf
        split <;> rfl
      rw [List.length_cons] at many
      cases repeats with
      | zero => omega
      | succ repeats =>
          have left : (one.expand progress).left = progress.left - min progress.left 8 := rfl
          have grown := Step.length_expand follow.1
          have whole : expandSteps (one :: rest) progress = expandSteps rest (one.expand progress) :=
            rfl
          have less := left_expandSteps_le rest (one.expand progress)
          rw [steps, State.of_at, if_neg (by omega), split, List.append_assoc,
            List.flatMap_cons, List.append_assoc, List.flatMap_cons, List.append_assoc,
            step_eq fit (named one List.mem_cons_self) follow.1 sized ends roomy, ok_bind,
            ih repeats (fun other member => named other (List.mem_cons_of_mem _ member)) follow.2
              (by rw [left]; omega) (by rw [List.length_drop, left]; omega) (by rw [left]; omega),
            List.drop_drop, whole]
          congr 3
          omega

end Ferrosys.Compress.Lzbitmap
