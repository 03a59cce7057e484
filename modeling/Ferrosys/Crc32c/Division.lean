import Ferrosys.Crc32c
import Ferrosys.Library.Division

/-! What the slices compute is the division of the message, a bit at a time. -/

namespace Ferrosys.Crc32c

open Division

/-- The polynomial division itself, a bit at a time. -/
def bitwise (seed : Nat) (data : Bytes) : Nat :=
  data.foldl (fun crc byte => divideBit^[8] (crc ^^^ byte.toNat)) seed

/-- A message is the number whose lowest byte comes first. -/
def number (data : Bytes) : Nat := Nat.ofDigits (2 ^ 8) (data.map (·.toNat))

theorem number_cons (byte : UInt8) (rest : Bytes)
    : number (byte :: rest) = byte.toNat + 2 ^ 8 * number rest := Nat.ofDigits_cons ..

theorem bytes_small (data : Bytes) : ∀ symbol ∈ data.map (·.toNat), symbol < 2 ^ 8 := by
  intro symbol member
  obtain ⟨byte, -, rfl⟩ := List.mem_map.mp member
  exact byte.toNat_lt

theorem divideBit_eq : divideBit = divide poly := rfl

theorem bitwise_eq (seed : Nat) (data : Bytes)
    : bitwise seed data = (divide poly)^[8 * data.length] (seed ^^^ number data) := by
  rw [bitwise, ← List.length_map (·.toNat), number,
    ← foldl_divide _ (bytes_small data), List.foldl_map, divideBit_eq]

/-- Entry `n` of table `k` is byte `n`, divided with `k` further bytes behind it. -/
theorem table_eq (k n : Nat) : table k n = (divide poly)^[8 * k + 8] n := by
  induction k with
  | zero =>
      rw [table]
      rfl
  | succ k ih =>
      rw [table, ih, Nat.mul_succ, Nat.add_comm (8 * k + 8) 8, Function.iterate_add_apply _ 8]
      generalize (divide poly)^[8 * k + 8] n = prev
      rw [Nat.xor_comm, show (0xff : Nat) = 2 ^ 8 - 1 from rfl, Nat.and_two_pow_sub_one_eq_mod,
        table]
      exact (iterate_low 8 0 prev).symm

theorem step_eq (crc : Nat) (byte : UInt8)
    : step crc byte.toNat = (divide poly)^[8] (crc ^^^ byte.toNat) := by
  have low : byte.toNat >>> 8 = 0 := by
    rw [Nat.shiftRight_eq_div_pow, Nat.div_eq_of_lt byte.toNat_lt]
  rw [step, table_eq, show (0xff : Nat) = 2 ^ 8 - 1 from rfl, Nat.and_two_pow_sub_one_eq_mod]
  refine Eq.trans ?_ (iterate_low 8 0 (crc ^^^ byte.toNat)).symm
  rw [Nat.shiftRight_xor_distrib, low, Nat.xor_zero, Nat.xor_comm]
  rfl

theorem getU32_number (b0 b1 b2 b3 : UInt8) (rest : Bytes)
    : getU32 (b0 :: b1 :: b2 :: b3 :: rest) 0 = number [b0, b1, b2, b3] := by
  simp only [number_cons, getU32, getU16, getU8]
  simp [number]
  omega

/-- Four bytes are divided from the lowest, each with the ones above it still to come. -/
theorem iterate_word (rest n : Nat)
    : (divide poly)^[rest + 32] n
      = (divide poly)^[rest + 32] (n &&& 0xff) ^^^ ((divide poly)^[rest + 24] ((n >>> 8) &&& 0xff)
        ^^^ ((divide poly)^[rest + 16] ((n >>> 16) &&& 0xff)
          ^^^ (divide poly)^[rest + 8] (n >>> 24))) := by
  simp only [show (0xff : Nat) = 2 ^ 8 - 1 from rfl, Nat.and_two_pow_sub_one_eq_mod]
  refine (iterate_low 8 (rest + 24) n).trans (congrArg _ ?_)
  refine (iterate_low 8 (rest + 16) (n >>> 8)).trans (congrArg _ ?_)
  rw [← Nat.shiftRight_add]
  refine (iterate_low 8 (rest + 8) (n >>> 16)).trans (congrArg _ ?_)
  rw [← Nat.shiftRight_add]

theorem number_lt (data : Bytes) : number data < 2 ^ (8 * data.length) := by
  rw [pow_mul, ← List.length_map (·.toNat)]
  exact Nat.ofDigits_lt_base_pow_length (by decide) (bytes_small data)

theorem number_append (data more : Bytes)
    : number (data ++ more) = number data + 2 ^ (8 * data.length) * number more := by
  rw [number, List.map_append, Nat.ofDigits_append, List.length_map, ← pow_mul]
  rfl

theorem bytes_of_word (b0 b1 b2 b3 : UInt8)
    : number [b0, b1, b2, b3] &&& 0xff = b0.toNat
      ∧ number [b0, b1, b2, b3] >>> 8 &&& 0xff = b1.toNat
      ∧ number [b0, b1, b2, b3] >>> 16 &&& 0xff = b2.toNat
      ∧ number [b0, b1, b2, b3] >>> 24 = b3.toNat := by
  have h0 := b0.toNat_lt
  have h1 := b1.toNat_lt
  have h2 := b2.toNat_lt
  have h3 := b3.toNat_lt
  simp only [show (0xff : Nat) = 2 ^ 8 - 1 from rfl, Nat.and_two_pow_sub_one_eq_mod,
    Nat.shiftRight_eq_div_pow, number_cons, show number [] = 0 from rfl]
  omega

theorem stepWord_eq (crc : Nat) {word : Bytes} (eight : word.length = 8)
    : stepWord crc word = bitwise crc word := by
  match word, eight with
  | [b0, b1, b2, b3, b4, b5, b6, b7], _ =>
      have high : number [b0, b1, b2, b3, b4, b5, b6, b7]
          = number [b0, b1, b2, b3] + 2 ^ 32 * number [b4, b5, b6, b7] :=
        number_append [b0, b1, b2, b3] [b4, b5, b6, b7]
      obtain ⟨h4, h5, h6, h7⟩ := bytes_of_word b4 b5 b6 b7
      have parts := iterate_word 0 (number [b4, b5, b6, b7])
      rw [h4, h5, h6, h7] at parts
      have whole : bitwise crc [b0, b1, b2, b3, b4, b5, b6, b7]
          = (divide poly)^[32 + 32] (crc ^^^ number [b0, b1, b2, b3])
            ^^^ (divide poly)^[0 + 32] (number [b4, b5, b6, b7]) := by
        rw [bitwise_eq, high]
        refine (iterate_xor 64 _ _).trans ?_
        refine (congrArg _ (iterate_add (number_lt [b0, b1, b2, b3]) 32 _)).trans ?_
        rw [← Nat.xor_assoc]
        exact congrArg (· ^^^ _) (iterate_xor 64 _ _).symm
      rw [whole, parts, iterate_word, stepWord, getU32_number]
      simp only [table_eq, Nat.xor_assoc]
      rfl

/-- The words and the rest are folded as the bytes they are. -/
theorem run_eq (count crc : Nat) {data : Bytes} (whole : 8 * count ≤ data.length)
    : run count crc data = bitwise crc data := by
  induction count generalizing crc data with
  | zero =>
      rw [run, bitwise]
      congr 1
      funext crc byte
      exact step_eq crc byte
  | succ count ih =>
      rw [run, stepWord_eq crc (by rw [List.length_take]; omega),
        ih _ (by rw [List.length_drop]; omega), bitwise, bitwise, bitwise, ← List.foldl_append,
        List.take_append_drop]

theorem crc32c_eq (seed : Nat) (data : Bytes) : crc32c seed data = bitwise seed data :=
  run_eq _ _ (Nat.mul_div_le _ _)

theorem bitwise_append (seed : Nat) (data more : Bytes)
    : bitwise seed (data ++ more) = bitwise (bitwise seed data) more := List.foldl_append ..

/-- The checksum by slices is polynomial division a bit at a time, so that it is the same however
what it is taken of is cut up.
-/
theorem crc32c_divides (seed : Nat) (data more : Bytes)
    : crc32c seed data = bitwise seed data
      ∧ crc32c seed (data ++ more) = crc32c (crc32c seed data) more := by
  refine ⟨crc32c_eq seed data, ?_⟩
  rw [crc32c_eq, crc32c_eq, crc32c_eq, bitwise_append]

theorem number_inj {data data' : Bytes} (alike : data.length = data'.length)
    (same : number data = number data') : data = data' := by
  have digits := Nat.ofDigits_inj_of_len_eq (by decide) (by simpa using alike) (bytes_small data)
    (bytes_small data') same
  exact List.map_injective_iff.mpr (fun _ _ => UInt8.toNat_inj.mp) digits

/-- Two messages that differ in four bytes next to one another have different checksums. -/
theorem crc32c_detects (seed : Nat) (front back : Bytes) {part part' : Bytes}
    (alike : part.length = part'.length) (short : part.length ≤ 4) (differ : part ≠ part')
    : crc32c seed (front ++ part ++ back) ≠ crc32c seed (front ++ part' ++ back) := by
  intro same
  rw [crc32c_eq, crc32c_eq, List.append_assoc, List.append_assoc, bitwise_append _ front,
    bitwise_append _ front, bitwise_eq _ (part ++ back), bitwise_eq _ (part' ++ back),
    List.length_append, alike, ← List.length_append] at same
  have inside (bytes : Bytes) (few : bytes.length ≤ 4) : number bytes < 2 ^ 32 :=
    Nat.lt_of_lt_of_le (number_lt bytes) (Nat.pow_le_pow_right (by decide) (by omega))
  -- what follows the parts is the same, so that the messages differ where the parts do
  have parts : number (part ++ back) ^^^ number (part' ++ back) = number part ^^^ number part' := by
    rw [number_append, number_append, add_eq_xor (number_lt part), add_eq_xor (number_lt part'),
      alike, xor_xor_xor]
  have apart : (bitwise seed front ^^^ number (part ++ back))
      ^^^ (bitwise seed front ^^^ number (part' ++ back)) < 2 ^ 32 := by
    rw [Nat.xor_comm _ (number (part ++ back)), Nat.xor_comm _ (number (part' ++ back)),
      xor_xor_xor, parts]
    exact Nat.xor_lt_two_pow (inside part short) (inside part' (alike ▸ short))
  have registers := @eq_of_iterate_eq poly 31 (by decide) (by decide) _ _ _ apart same
  have messages := number_inj (by simp [alike]) (Nat.xor_right_injective registers)
  exact differ (List.append_cancel_right messages)

/-- A byte changed on its way is noticed. -/
theorem crc32c_detects_one : crc32c 0 [1, 2, 3] ≠ crc32c 0 [1, 7, 3] :=
  @crc32c_detects 0 [1] [3] [2] [7] rfl (by decide) (by decide)

end Ferrosys.Crc32c
