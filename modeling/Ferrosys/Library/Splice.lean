import Mathlib.Data.List.Basic
import Mathlib.Tactic.Linarith

/-! Writing over part of a list and reading part of one, and laying numbered blocks of one
size over an image: a window of the image with blocks laid over it is the window with the
parts of the blocks that meet it laid over it.
-/

namespace Splice

variable {α : Type}

/-- `buf` with the elements from `at_` on replaced by `data`, as far as `buf` reaches. -/
def splice (buf : List α) (at_ : Nat) (data : List α) : List α :=
  buf.take at_ ++ data.take (buf.length - at_) ++ buf.drop (at_ + data.length)

/-- The `len` elements of `buf` from `at_` on. -/
def slice (buf : List α) (at_ len : Nat) : List α := (buf.drop at_).take len

@[simp] theorem length_splice (buf : List α) (at_ : Nat) (data : List α)
    : (splice buf at_ data).length = buf.length := by
  simp only [splice, List.length_append, List.length_take, List.length_drop]
  omega

/-- Splicing changes the positions the data reaches, and no other. -/
theorem getElem?_splice (buf : List α) (at_ : Nat) (data : List α) (i : Nat)
    : (splice buf at_ data)[i]?
      = if at_ ≤ i ∧ i < at_ + data.length ∧ i < buf.length then data[i - at_]?
        else buf[i]? := by
  unfold splice
  by_cases before : i < min at_ buf.length
  · rw [List.append_assoc, List.getElem?_append_left (by simp; omega),
      List.getElem?_take_of_lt (by omega), if_neg (by omega)]
  · rw [List.append_assoc, List.getElem?_append_right (by simp; omega),
      List.length_take]
    by_cases beyond : buf.length ≤ at_
    · rw [if_neg (by omega), List.getElem?_eq_none (by omega : buf.length ≤ i)]
      simp [Nat.sub_eq_zero_of_le beyond, List.drop_eq_nil_of_le (show buf.length
        ≤ at_ + data.length by omega)]
    · rw [Nat.min_eq_left (by omega)]
      by_cases inside : i < at_ + data.length ∧ i < buf.length
      · rw [if_pos ⟨by omega, inside⟩, List.getElem?_append_left (by simp; omega),
          List.getElem?_take_of_lt (by omega)]
      · rw [if_neg (by omega), List.getElem?_append_right (by simp; omega),
          List.getElem?_drop, List.length_take]
        by_cases reached : buf.length ≤ i
        · rw [List.getElem?_eq_none (by omega), List.getElem?_eq_none (by omega)]
        · congr 1
          omega

theorem getElem?_slice (buf : List α) (at_ len i : Nat)
    : (slice buf at_ len)[i]? = if i < len then buf[at_ + i]? else none := by
  rw [slice, List.getElem?_take, List.getElem?_drop]

theorem length_slice {buf : List α} {at_ len : Nat} (inside : at_ + len ≤ buf.length)
    : (slice buf at_ len).length = len := by
  simp only [slice, List.length_take, List.length_drop]
  omega

/-- A slice of a slice is a slice. -/
theorem slice_slice {buf : List α} {at_ len inner n : Nat} (inside : inner + n ≤ len)
    : slice (slice buf at_ len) inner n = slice buf (at_ + inner) n := by
  apply List.ext_getElem?
  intro i
  simp only [getElem?_slice]
  split
  next => rw [if_pos (by omega), Nat.add_assoc]
  next => rfl

/-- Reading apart from what was written reads what was there. -/
theorem slice_splice_of_apart {buf data : List α} {at_ from_ len : Nat}
    (apart : at_ + data.length ≤ from_ ∨ from_ + len ≤ at_)
    : slice (splice buf at_ data) from_ len = slice buf from_ len := by
  apply List.ext_getElem?
  intro i
  simp only [getElem?_slice, getElem?_splice]
  split
  next => rw [if_neg (by omega)]
  next => rfl

/-- Reading inside what was written reads it. -/
theorem slice_splice_of_inside {buf data : List α} {at_ from_ len : Nat}
    (room : at_ + data.length ≤ buf.length) (inside : from_ + len ≤ data.length)
    : slice (splice buf at_ data) (at_ + from_) len = slice data from_ len := by
  apply List.ext_getElem?
  intro i
  simp only [getElem?_slice, getElem?_splice]
  split
  next =>
    rw [if_pos (by omega)]
    congr 1
    omega
  next => rfl

/-- Writing over the middle of three lists replaces it. -/
theorem splice_between {front middle back data : List α} (same : data.length = middle.length)
    : splice (front ++ middle ++ back) front.length data = front ++ data ++ back := by
  have before : (front ++ middle ++ back).take front.length = front := by
    rw [List.append_assoc, List.take_left]
  have after : (front ++ middle ++ back).drop (front.length + data.length) = back := by
    rw [same, ← List.length_append, List.drop_left]
  rw [splice, before, after, List.take_of_length_le (by simp; omega)]

/-- Writing one list and then another behind it is writing both. -/
theorem splice_append {buf first second : List α} {at_ : Nat}
    (room : at_ + first.length + second.length ≤ buf.length)
    : splice (splice buf at_ first) (at_ + first.length) second
      = splice buf at_ (first ++ second) := by
  apply List.ext_getElem?
  intro i
  simp only [getElem?_splice, length_splice, List.length_append]
  by_cases later : at_ + first.length ≤ i ∧ i < at_ + first.length + second.length
  · rw [if_pos (by omega), if_pos (by omega), List.getElem?_append_right (by omega)]
    congr 1
    omega
  · rw [if_neg (by omega)]
    by_cases sooner : at_ ≤ i ∧ i < at_ + first.length
    · rw [if_pos (by omega), if_pos (by omega), List.getElem?_append_left (by omega)]
    · rw [if_neg (by omega), if_neg (by omega)]

/-- Writing behind what was just written. -/
theorem splice_behind {buf first second : List α} {at_ next : Nat}
    (behind : next = at_ + first.length)
    (room : at_ + first.length + second.length ≤ buf.length)
    : splice (splice buf at_ first) next second = splice buf at_ (first ++ second) := by
  rw [behind, splice_append room]

/-- Writing inside the first of two lists leaves the second. -/
theorem splice_append_left {first data : List α} (second : List α) {at_ : Nat}
    (inside : at_ + data.length ≤ first.length)
    : splice (first ++ second) at_ data = splice first at_ data ++ second := by
  apply List.ext_getElem?
  intro i
  rw [getElem?_splice]
  by_cases early : i < first.length
  · rw [List.getElem?_append_left early,
      List.getElem?_append_left (show i < (splice first at_ data).length by
        rw [length_splice]; exact early), getElem?_splice, List.length_append]
    simp only [early, and_true, Nat.lt_add_right second.length early]
  · rw [if_neg (by omega), List.getElem?_append_right (by omega),
      List.getElem?_append_right (by rw [length_splice]; omega), length_splice]

/-- Reading past the first of two lists reads the second. -/
theorem slice_append_right (first second : List α) (at_ len : Nat)
    : slice (first ++ second) (first.length + at_) len = slice second at_ len := by
  rw [slice, slice, List.drop_length_add_append]

/-- Reading inside the first of two lists reads it. -/
theorem slice_append_left {first : List α} (second : List α) {at_ len : Nat}
    (inside : at_ + len ≤ first.length)
    : slice (first ++ second) at_ len = slice first at_ len := by
  apply List.ext_getElem?
  intro i
  simp only [getElem?_slice]
  split
  next => rw [List.getElem?_append_left (by omega)]
  next => rfl

/-- Pieces of one length laid one after the other read back each in its place, by induction on
the pieces.
-/
theorem slice_flatten {pieces : List (List α)} {n i : Nat} {piece : List α}
    (sized : ∀ piece ∈ pieces, piece.length = n) (at_ : pieces[i]? = some piece)
    : slice pieces.flatten (i * n) n = piece := by
  induction pieces generalizing i with
  | nil => cases at_
  | cons first rest ih =>
      have here := sized first List.mem_cons_self
      cases i with
      | zero =>
          obtain rfl := Option.some.inj at_
          rw [Nat.zero_mul, List.flatten_cons, slice_append_left _ (by omega), slice, ← here,
            List.drop_zero, List.take_length]
      | succ i =>
          have later := ih (fun other member => sized other (List.mem_cons_of_mem _ member)) at_
          have moved : (i + 1) * n = first.length + i * n := by
            rw [Nat.succ_mul, here, Nat.add_comm]
          rw [← later, moved, List.flatten_cons, slice_append_right]

/-- Reading no further than a list reaches. -/
theorem slice_min (buf : List α) (at_ len : Nat)
    : slice buf at_ (min (buf.length - at_) len) = slice buf at_ len := by
  rw [slice, slice, Nat.min_comm, ← List.length_drop, ← List.take_eq_take_min]

/-- Reading from inside the first of two lists goes on with the second. -/
theorem slice_append {first : List α} (second : List α) {at_ : Nat} (inside : at_ ≤ first.length)
    (len : Nat)
    : slice (first ++ second) at_ len
      = slice first at_ len ++ slice second 0 (len - (first.length - at_)) := by
  rw [slice, slice, slice, List.drop_append_of_le_length inside, List.take_append,
    List.length_drop, List.drop_zero]

/-- Pieces of one length are as long together as their count says. -/
theorem length_flatten_of_sized {pieces : List (List α)} {n : Nat}
    (sized : ∀ piece ∈ pieces, piece.length = n) : pieces.flatten.length = pieces.length * n := by
  rw [List.length_flatten, List.map_congr_left sized, List.map_const', List.sum_replicate_nat]

/-- Some of the pieces of one length, in a row, are a slice of them all: passing over the first
ones and taking the next, by induction on how many are passed over.
-/
theorem slice_flatten_run {pieces : List (List α)} {n : Nat}
    (sized : ∀ piece ∈ pieces, piece.length = n) (i k : Nat)
    : slice pieces.flatten (i * n) (k * n) = (slice pieces i k).flatten := by
  induction i generalizing pieces with
  | zero =>
      rw [Nat.zero_mul, slice, slice, List.drop_zero, List.drop_zero]
      induction k generalizing pieces with
      | zero => rw [Nat.zero_mul, List.take_zero, List.take_zero, List.flatten_nil]
      | succ k ih =>
          cases pieces with
          | nil => rw [List.flatten_nil, List.take_nil, List.take_nil, List.flatten_nil]
          | cons first rest =>
              have here := sized first List.mem_cons_self
              have later := ih fun piece member => sized piece (List.mem_cons_of_mem _ member)
              rw [List.flatten_cons, List.take_append, Nat.succ_mul, here, Nat.add_sub_cancel,
                later, List.take_of_length_le (by omega), List.take_succ_cons, List.flatten_cons]
  | succ i ih =>
      cases pieces with
      | nil => rw [List.flatten_nil, slice, slice, List.drop_nil, List.drop_nil, List.take_nil,
          List.take_nil, List.flatten_nil]
      | cons first rest =>
          have here := sized first List.mem_cons_self
          have later := ih fun piece member => sized piece (List.mem_cons_of_mem _ member)
          have moved : (i + 1) * n = first.length + i * n := by
            rw [Nat.succ_mul, here, Nat.add_comm]
          rw [List.flatten_cons, moved, slice_append_right, later]
          rfl

/-- A list cut into pieces of one length is those pieces, by induction on how many. -/
theorem flatten_slices {buf : List α} {n count : Nat} (whole : buf.length = count * n)
    : ((List.range count).map fun j => slice buf (j * n) n).flatten = buf := by
  induction count generalizing buf with
  | zero =>
      rw [Nat.zero_mul] at whole
      rw [List.eq_nil_of_length_eq_zero whole]
      rfl
  | succ count ih =>
      rw [Nat.succ_mul] at whole
      have rest := @ih (buf.drop n) (by rw [List.length_drop]; omega)
      rw [List.range_succ_eq_map, List.map_cons, List.map_map, List.flatten_cons]
      have shifted : ((fun j => slice buf (j * n) n) ∘ Nat.succ)
          = fun j => slice (buf.drop n) (j * n) n := by
        funext j
        simp only [Function.comp_apply, slice, List.drop_drop, Nat.succ_mul, Nat.add_comm]
      rw [shifted, rest, Nat.zero_mul, slice, List.drop_zero, List.take_append_drop]

/-- Lay block `n` of size `size` over an image. -/
def putBlock (size : Nat) (image : List α) (n : Nat) (block : List α) : List α :=
  splice image (n * size) block

@[simp] theorem length_putBlock (size : Nat) (image : List α) (n : Nat) (block : List α)
    : (putBlock size image n block).length = image.length :=
  length_splice _ _ _

/-- Lay the part of block `n` that meets the window over it, where the window begins at
`offset` and ends at `stop`.
-/
def putClipped (size offset stop : Nat) (window : List α) (n : Nat) (block : List α)
    : List α :=
  let lo := max (n * size) offset
  let hi := min (n * size + size) stop
  splice window (lo - offset) (slice block (lo - n * size) (hi - lo))

/-- The window of an image with a block laid over it is the window with the part of the block
that meets it laid over it.
-/
theorem slice_putBlock {size offset len n : Nat} {image block : List α}
    (sized : block.length = size) (inside : offset + len ≤ image.length)
    : slice (putBlock size image n block) offset len
      = putClipped size offset (offset + len) (slice image offset len) n block := by
  apply List.ext_getElem?
  intro i
  simp only [putBlock, putClipped]
  rw [getElem?_slice, getElem?_splice, getElem?_splice, getElem?_slice, getElem?_slice,
    length_slice inside, sized]
  by_cases within : i < len
  · rw [if_pos within]
    by_cases covered : n * size ≤ offset + i ∧ offset + i < n * size + size
    · have clipped : max (n * size) offset - n * size
          + (min (n * size + size) (offset + len) - max (n * size) offset) ≤ block.length := by
        omega
      rw [if_pos (by omega), length_slice clipped, if_pos (by omega), if_pos (by omega)]
      congr 1
      omega
    · rw [if_neg (by omega), if_pos within, if_neg]
      rintro ⟨low, high, -⟩
      have clipped : (slice block (max (n * size) offset - n * size)
          (min (n * size + size) (offset + len) - max (n * size) offset)).length
          ≤ min (n * size + size) (offset + len) - max (n * size) offset := by
        simp [slice]
      omega
  · rw [if_neg within, if_neg (by omega), if_neg within]

/-- A block that does not meet the window leaves it as it was. -/
theorem slice_putBlock_of_apart {size offset len n : Nat} {image block : List α}
    (sized : block.length = size) (apart : n * size + size ≤ offset ∨ offset + len ≤ n * size)
    : slice (putBlock size image n block) offset len = slice image offset len :=
  slice_splice_of_apart (by omega)

/-- Laying a block leaves every other block as it was. -/
theorem slice_putBlock_of_ne {size n m : Nat} {image block : List α}
    (sized : block.length = size) (apart : n ≠ m)
    : slice (putBlock size image n block) (m * size) size = slice image (m * size) size := by
  apply slice_putBlock_of_apart sized
  rcases Nat.lt_or_gt_of_ne apart with before | after
  · exact .inl (Nat.succ_mul n _ ▸ Nat.mul_le_mul_right _ before)
  · exact .inr (Nat.succ_mul m _ ▸ Nat.mul_le_mul_right _ after)

/-- A block that was laid reads back. -/
theorem slice_putBlock_self {size n : Nat} {image block : List α} (sized : block.length = size)
    (inside : n * size + size ≤ image.length)
    : slice (putBlock size image n block) (n * size) size = block := by
  apply List.ext_getElem?
  intro i
  rw [getElem?_slice, putBlock, getElem?_splice, sized]
  split
  · rw [if_pos (by omega), Nat.add_sub_cancel_left]
  · rw [List.getElem?_eq_none (by omega)]

/-- Lay numbered blocks over an image in turn. -/
def putBlocks (size : Nat) (image : List α) (blocks : List (Nat × List α)) : List α :=
  blocks.foldl (fun image block => putBlock size image block.1 block.2) image

/-- Blocks laid over an image leave it as long as it was, by induction on the blocks. -/
@[simp] theorem length_putBlocks (size : Nat) (image : List α) (blocks : List (Nat × List α))
    : (putBlocks size image blocks).length = image.length := by
  induction blocks generalizing image with
  | nil => rfl
  | cons block rest ih => exact (ih _).trans (length_putBlock size image block.1 block.2)

/-- The blocks a window of `len` elements from `offset` on meets. -/
def meets (size offset len : Nat) (block : Nat × List α) : Bool :=
  offset / size ≤ block.1 && block.1 ≤ (offset + len - 1) / size

theorem apart_of_not_meets {size offset len : Nat} {block : Nat × List α} (pos : 0 < size)
    (some_ : 0 < len) (outside : meets size offset len block = false)
    : block.1 * size + size ≤ offset ∨ offset + len ≤ block.1 * size := by
  simp only [meets, Bool.and_eq_false_iff, decide_eq_false_iff_not, not_le] at outside
  rcases outside with before | after
  · have := Nat.mul_le_of_le_div _ _ _ (Nat.succ_le_of_lt before)
    rw [Nat.succ_mul] at this
    exact .inl this
  · have := (Nat.div_lt_iff_lt_mul pos).mp after
    exact .inr (by omega)

/-- A window of an image with blocks laid over it, by induction on the blocks: those the window
does not meet leave it as it was.
-/
theorem slice_putBlocks {size offset len : Nat} {image : List α}
    {blocks : List (Nat × List α)} (pos : 0 < size) (some_ : 0 < len)
    (sized : ∀ block ∈ blocks, block.2.length = size) (inside : offset + len ≤ image.length)
    : slice (putBlocks size image blocks) offset len
      = (blocks.filter (meets size offset len)).foldl
          (fun window block => putClipped size offset (offset + len) window block.1 block.2)
          (slice image offset len) := by
  induction blocks generalizing image with
  | nil => rfl
  | cons block rest ih =>
      have here := sized block List.mem_cons_self
      have later := @ih (putBlock size image block.1 block.2)
        (fun other member => sized other (List.mem_cons_of_mem _ member)) (by simpa using inside)
      rw [putBlocks, List.foldl_cons, ← putBlocks, later, List.filter_cons]
      cases met : meets size offset len block with
      | false =>
          rw [slice_putBlock_of_apart here (apart_of_not_meets pos some_ met)]
          rfl
      | true =>
          rw [slice_putBlock here inside]
          rfl

end Splice
