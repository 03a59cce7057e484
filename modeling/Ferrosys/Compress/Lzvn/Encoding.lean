import Ferrosys.Compress.Lzvn

/-! The LZVN encoding by its table, and that the decoder reads an instruction exactly where the
encoding of one stands.
-/

namespace Ferrosys.Compress.Lzvn

open Checked Machine

/-- An instruction by the row of the table it is encoded in, its literal's bytes aside: the
lengths of its literal and its match, and its own distance.
-/
inductive Form where
  | short (literal matched distance : Nat)
  | long (literal matched distance : Nat)
  | previous (literal matched : Nat)
  | medium (literal matched distance : Nat)
  | literalOnly (count : Nat)
  | longLiteral (count : Nat)
  | matchOnly (count : Nat)
  | longMatch (count : Nat)
  | nothing
  | nothingToo
deriving DecidableEq

/-- The first byte of the rows `LLMMMDDD`. -/
def pattern (literal matched low : Nat) : Nat := literal * 64 + (matched - 3) * 8 + low

namespace Form

/-- The bytes of an instruction before its literal. -/
def header : Form → List Nat
  | short literal matched distance => [pattern literal matched (distance / 256), distance % 256]
  | long literal matched distance => [pattern literal matched 7, distance % 256, distance / 256]
  | previous literal matched => [pattern literal matched 6]
  | medium literal matched distance =>
      [0xA0 + literal * 8 + (matched - 3) / 4, (distance * 4 + (matched - 3) % 4) % 256,
        (distance * 4 + (matched - 3) % 4) / 256]
  | literalOnly count => [0xE0 + count]
  | longLiteral count => [0xE0, count - 16]
  | matchOnly count => [0xF0 + count]
  | longMatch count => [0xF0, count - 16]
  | nothing => [0x0E]
  | nothingToo => [0x16]

/-- The first bytes the rows `LLMMMDDD` have to themselves. -/
def Free (op : Nat) : Prop :=
  ¬ (0x70 ≤ op ∧ op ≤ 0x7F) ∧ ¬ (0xA0 ≤ op ∧ op ≤ 0xBF) ∧ op < 0xD0

instance (op : Nat) : Decidable (Free op) := inferInstanceAs (Decidable (_ ∧ _))

/-- The fields of an instruction are in its row's range. -/
def Fits : Form → Prop
  | short literal matched distance =>
      literal ≤ 3 ∧ 3 ≤ matched ∧ matched ≤ 10 ∧ distance < 6 * 256
      ∧ Free (pattern literal matched (distance / 256))
  | long literal matched distance =>
      literal ≤ 3 ∧ 3 ≤ matched ∧ matched ≤ 10 ∧ distance < 65536
      ∧ Free (pattern literal matched 7)
  | previous literal matched =>
      1 ≤ literal ∧ literal ≤ 3 ∧ 3 ≤ matched ∧ matched ≤ 10
      ∧ Free (pattern literal matched 6)
  | medium literal matched distance =>
      literal ≤ 3 ∧ 3 ≤ matched ∧ matched ≤ 34 ∧ distance < 2 ^ 14
  | literalOnly count => 1 ≤ count ∧ count ≤ 15
  | longLiteral count => 16 ≤ count ∧ count ≤ 271
  | matchOnly count => 1 ≤ count ∧ count ≤ 15
  | longMatch count => 16 ≤ count ∧ count ≤ 271
  | nothing => True
  | nothingToo => True

instance (form : Form) : Decidable form.Fits := by
  cases form <;> unfold Fits <;> infer_instance

/-- The length of the literal. -/
def literalLen : Form → Nat
  | short literal _ _ => literal
  | long literal _ _ => literal
  | previous literal _ => literal
  | medium literal _ _ => literal
  | literalOnly count => count
  | longLiteral count => count
  | _ => 0

/-- The length of the match. -/
def matchedLen : Form → Nat
  | short _ matched _ => matched
  | long _ matched _ => matched
  | previous _ matched => matched
  | medium _ matched _ => matched
  | matchOnly count => count
  | longMatch count => count
  | _ => 0

/-- The distance of the match, given the one before it. -/
def distanceAfter (last : Nat) : Form → Nat
  | short _ _ distance => distance
  | long _ _ distance => distance
  | medium _ _ distance => distance
  | _ => last

theorem header_pos (form : Form) : 0 < form.header.length := by
  cases form <;> simp [header]

theorem header_le (form : Form) : form.header.length ≤ 3 := by
  cases form <;> simp [header]

/-- An instruction that fits is of few bytes. -/
theorem lengths_le {form : Form} (fits : form.Fits)
    : form.literalLen ≤ 271 ∧ form.matchedLen ≤ 271 := by
  cases form <;> simp only [Fits, literalLen, matchedLen] at fits ⊢ <;> omega

/-- A header that fits is of bytes, and does not open as the end marker does. -/
theorem header_bytes {form : Form} (fits : form.Fits)
    : (∀ n ∈ form.header, n < 256) ∧ form.header.head? ≠ some 6 := by
  cases form <;> simp only [Fits, Free, header, pattern] at fits ⊢ <;>
    refine ⟨?_, ?_⟩ <;> simp <;> omega

end Form

/-- The header of a form, as bytes. -/
def Form.bytes (form : Form) : Bytes := form.header.map UInt8.ofNat

/-- A byte of the instruction is a byte of what is left of the stream. -/
theorem byte_eq {input rest : Bytes} {src index : Nat} (left : input.drop src = rest)
    (fits : src + index < 2 ^ 64)
    : byte input src index = (match rest[index]? with
      | some b => .ok b.toNat
      | none => malformed "an instruction runs past the end of the stream") := by
  have there : input[src + index]? = rest[index]? := by rw [← left, List.getElem?_drop]
  cases here : rest[index]? with
  | none => rw [byte, plus_of_lt fits, ok_bind, there, here]
  | some b => rw [byte, plus_of_lt fits, ok_bind, there, here]

/-- A first byte of the rows `LLMMMDDD` is read as one. -/
theorem operation_of_free {input : Bytes} {src last op : Nat} (free : Form.Free op)
    (other : op % 8 = 6 → 64 ≤ op)
    : operation input src last op
      = if op % 8 = 7 then do
          let low ← byte input src 1
          let high ← byte input src 2
          return (3, op / 64, op / 8 % 8 + 3, low + high * 256)
        else if op % 8 = 6 then .ok (1, op / 64, op / 8 % 8 + 3, last)
        else do return (2, op / 64, op / 8 % 8 + 3, op % 8 * 256 + (← byte input src 1)) := by
  obtain ⟨one, two, three⟩ := free
  rw [operation, if_neg (by omega), if_neg (by omega), if_neg (by omega), if_neg (by omega),
    if_neg (by omega), if_neg (by omega), if_neg (by omega)]

/-- Where the encoding of an instruction stands, the decoder reads it. -/
theorem operation_of_form {form : Form} (fits : form.Fits) (last : Nat) {input rest : Bytes}
    {src : Nat} (left : input.drop src = form.bytes ++ rest) (small : src + 3 < 2 ^ 64)
    : ∃ op, input[src]? = some op ∧ op.toNat ≠ 0x06
      ∧ operation input src last op.toNat
        = .ok (form.header.length, form.literalLen, form.matchedLen,
            form.distanceAfter last) := by
  obtain ⟨bytes, end_⟩ := Form.header_bytes fits
  have first : input[src]? = (form.bytes ++ rest)[0]? := by
    rw [← left, List.getElem?_drop, Nat.add_zero]
  have read : ∀ (index n : Nat), form.header[index]? = some n →
      (form.bytes ++ rest)[index]? = some (UInt8.ofNat n) := by
    intro index n at_
    have inside := (List.getElem?_eq_some_iff.mp at_).1
    rw [List.getElem?_append_left (by rwa [Form.bytes, List.length_map]), Form.bytes,
      List.getElem?_map, at_]
    rfl
  have value : ∀ (index n : Nat), form.header[index]? = some n → (UInt8.ofNat n).toNat = n :=
    fun index n at_ => toNat_ofNat (bytes n (List.mem_of_getElem? at_))
  have byte_ : ∀ (index n : Nat), form.header[index]? = some n →
      byte input src index = .ok n := by
    intro index n at_
    have inside := (List.getElem?_eq_some_iff.mp at_).1
    have short := form.header_le
    rw [byte_eq left (by omega), read index n at_]
    exact congrArg Except.ok (value index n at_)
  obtain ⟨n, header⟩ : ∃ n, form.header[0]? = some n :=
    ⟨_, List.getElem?_eq_getElem form.header_pos⟩
  refine ⟨UInt8.ofNat n, first.trans (read 0 n header), ?_, ?_⟩
  · rw [value 0 n header]
    rintro rfl
    exact end_ (by rw [List.head?_eq_getElem?, header])
  rw [value 0 n header]
  cases form with
  | short literal matched distance =>
      have low := byte_ 1 _ rfl
      have op : literal * 64 + (matched - 3) * 8 + distance / 256 = n := Option.some.inj header
      simp only [Form.Fits, Form.Free, pattern] at fits
      have fields : n / 64 = literal ∧ n / 8 % 8 + 3 = matched
          ∧ n % 8 * 256 + distance % 256 = distance := by omega
      have free : Form.Free n := by
        unfold Form.Free
        omega
      rw [operation_of_free free (by omega), if_neg (by omega), if_neg (by omega), low,
        ok_bind, fields.1, fields.2.1, fields.2.2]
      rfl
  | long literal matched distance =>
      have low := byte_ 1 _ rfl
      have high := byte_ 2 _ rfl
      have op : literal * 64 + (matched - 3) * 8 + 7 = n := Option.some.inj header
      simp only [Form.Fits, Form.Free, pattern] at fits
      have fields : n / 64 = literal ∧ n / 8 % 8 + 3 = matched
          ∧ distance % 256 + distance / 256 * 256 = distance := by omega
      have free : Form.Free n := by
        unfold Form.Free
        omega
      rw [operation_of_free free (by omega), if_pos (by omega), low, ok_bind, high, ok_bind,
        fields.1, fields.2.1, fields.2.2]
      rfl
  | previous literal matched =>
      have op : literal * 64 + (matched - 3) * 8 + 6 = n := Option.some.inj header
      simp only [Form.Fits, Form.Free, pattern] at fits
      have fields : n / 64 = literal ∧ n / 8 % 8 + 3 = matched := by omega
      have free : Form.Free n := by
        unfold Form.Free
        omega
      rw [operation_of_free free (by omega), if_neg (by omega), if_pos (by omega), fields.1,
        fields.2]
      rfl
  | medium literal matched distance =>
      have low := byte_ 1 _ rfl
      have high := byte_ 2 _ rfl
      have op : 0xA0 + literal * 8 + (matched - 3) / 4 = n := Option.some.inj header
      simp only [Form.Fits] at fits
      have word : (distance * 4 + (matched - 3) % 4) % 256
          + (distance * 4 + (matched - 3) % 4) / 256 * 256
          = distance * 4 + (matched - 3) % 4 := by omega
      have fields : n / 8 % 4 = literal
          ∧ n % 8 * 4 + (distance * 4 + (matched - 3) % 4) % 4 + 3 = matched
          ∧ (distance * 4 + (matched - 3) % 4) / 4 = distance := by omega
      rw [operation, if_neg (by omega), if_neg (by omega), if_neg (by omega), if_neg (by omega),
        if_neg (by omega), if_neg (by omega), if_pos (by omega), low, ok_bind, high,
        ok_bind, word]
      dsimp only
      rw [fields.1, fields.2.1, fields.2.2]
      rfl
  | literalOnly count =>
      have op : 0xE0 + count = n := Option.some.inj header
      simp only [Form.Fits] at fits
      have field : n % 16 = count := by omega
      rw [operation, if_neg (by omega), if_neg (by omega), if_neg (by omega), if_pos (by omega),
        field]
      rfl
  | longLiteral count =>
      have more := byte_ 1 _ rfl
      obtain rfl : 0xE0 = n := Option.some.inj header
      simp only [Form.Fits] at fits
      have field : count - 16 + 16 = count := by omega
      unfold operation
      rw [if_neg (by decide), if_neg (by decide), if_pos rfl, more, ok_bind,
        plus_of_lt (by omega), ok_bind, field]
      rfl
  | matchOnly count =>
      have op : 0xF0 + count = n := Option.some.inj header
      simp only [Form.Fits] at fits
      have field : n % 16 = count := by omega
      rw [operation, if_neg (by omega), if_neg (by omega), if_neg (by omega), if_neg (by omega),
        if_neg (by omega), if_pos (by omega), field]
      rfl
  | longMatch count =>
      have more := byte_ 1 _ rfl
      obtain rfl : 0xF0 = n := Option.some.inj header
      simp only [Form.Fits] at fits
      have field : count - 16 + 16 = count := by omega
      unfold operation
      rw [if_neg (by decide), if_neg (by decide), if_neg (by decide), if_neg (by decide),
        if_pos rfl, more, ok_bind, plus_of_lt (by omega), ok_bind, field]
      rfl
  | nothing =>
      obtain rfl : 0x0E = n := Option.some.inj header
      rfl
  | nothingToo =>
      obtain rfl : 0x16 = n := Option.some.inj header
      rfl

/-- A byte the decoder read is one that is left of the stream. -/
theorem byte_eq_ok {input rest : Bytes} {src index n : Nat} (left : input.drop src = rest)
    (fits : src + index < 2 ^ 64)
    : byte input src index = .ok n ↔ ∃ b, rest[index]? = some b ∧ b.toNat = n := by
  rw [byte_eq left fits]
  cases rest[index]? with
  | none => simp [malformed, refuse]
  | some b => simp

/-- Bytes that are there begin what is left. -/
theorem eq_header_append {rest : Bytes} {header : List Nat}
    (at_ : ∀ index, (small : index < header.length) →
      ∃ b : UInt8, rest[index]? = some b ∧ b.toNat = header[index])
    : ∃ behind, rest = header.map UInt8.ofNat ++ behind := by
  refine ⟨rest.drop header.length, ?_⟩
  refine List.ext_getElem? fun i => ?_
  rcases Nat.lt_or_ge i header.length with inside | outside
  · obtain ⟨b, here, same⟩ := at_ i inside
    rw [List.getElem?_append_left (by simpa using inside), here, List.getElem?_map,
      List.getElem?_eq_getElem inside, Option.map_some, ← same, UInt8.ofNat_toNat]
  · rw [List.getElem?_append_right (by simpa using outside), List.length_map,
      List.getElem?_drop]
    congr 1
    omega

/-- What the decoder reads an instruction from is the encoding of one. -/
theorem form_of_operation {input : Bytes} {src last : Nat} {op : UInt8}
    (here : input[src]? = some op) (other : op.toNat ≠ 0x06) (small : src + 3 < 2 ^ 64)
    {header literal matched at_ : Nat}
    (read : operation input src last op.toNat = .ok (header, literal, matched, at_))
    : ∃ form : Form, form.Fits ∧ (∃ rest, input.drop src = form.bytes ++ rest)
      ∧ header = form.header.length ∧ literal = form.literalLen ∧ matched = form.matchedLen
      ∧ at_ = form.distanceAfter last := by
  have first : (input.drop src)[0]? = some op := by rw [List.getElem?_drop, Nat.add_zero, here]
  have one : ∀ n, byte input src 1 = .ok n ↔ _ := fun n => byte_eq_ok rfl (by omega)
  have two : ∀ n, byte input src 2 = .ok n ↔ _ := fun n => byte_eq_ok rfl (by omega)
  have alone : ∀ form : Form, form.header = [op.toNat] →
      ∃ rest, input.drop src = form.bytes ++ rest := by
    intro form same
    rw [Form.bytes, same]
    refine eq_header_append fun index inside => ?_
    obtain rfl : index = 0 := by simpa using inside
    exact ⟨op, first, rfl⟩
  have withOne : ∀ (form : Form) (n : Nat), byte input src 1 = .ok n →
      form.header = [op.toNat, n] → ∃ rest, input.drop src = form.bytes ++ rest := by
    intro form n low same
    rw [Form.bytes, same]
    refine eq_header_append fun index inside => ?_
    rcases index with _ | _ | index
    · exact ⟨op, first, rfl⟩
    · exact (one n).mp low
    · simp only [List.length_cons, List.length_nil] at inside
      omega
  have withTwo : ∀ (form : Form) (n m : Nat), byte input src 1 = .ok n →
      byte input src 2 = .ok m → form.header = [op.toNat, n, m] →
      ∃ rest, input.drop src = form.bytes ++ rest := by
    intro form n m low high same
    rw [Form.bytes, same]
    refine eq_header_append fun index inside => ?_
    rcases index with _ | _ | _ | index
    · exact ⟨op, first, rfl⟩
    · exact (one n).mp low
    · exact (two m).mp high
    · simp only [List.length_cons, List.length_nil] at inside
      omega
  have small_ : ∀ index n, byte input src index = .ok n → index ≤ 2 → n < 256 := by
    intro index n low le
    obtain ⟨b, -, rfl⟩ := (byte_eq_ok rfl (by omega)).mp low
    exact b.toNat_lt
  have lt : op.toNat < 256 := op.toNat_lt
  generalize op.toNat = n at *
  -- The branches in the order the decoder tries them.
  by_cases idle : n = 0x0E ∨ n = 0x16
  · rw [operation, if_pos idle] at read
    cases read
    rcases idle with rfl | rfl
    · exact ⟨.nothing, trivial, alone .nothing rfl, rfl, rfl, rfl, rfl⟩
    · exact ⟨.nothingToo, trivial, alone .nothingToo rfl, rfl, rfl, rfl, rfl⟩
  by_cases undefined_ : n = 0x1E ∨ n = 0x26 ∨ n = 0x2E ∨ n = 0x36 ∨ n = 0x3E
      ∨ (0x70 ≤ n ∧ n ≤ 0x7F) ∨ (0xD0 ≤ n ∧ n ≤ 0xDF)
  · rw [operation, if_neg idle, if_pos undefined_] at read
    cases read
  by_cases longLiteral : n = 0xE0
  · rw [operation, if_neg idle, if_neg undefined_, if_pos longLiteral] at read
    obtain ⟨low, more, read⟩ := bind_eq_ok.mp read
    have small__ := small_ 1 low more (by decide)
    rw [plus_of_lt (by omega), ok_bind] at read
    cases read
    refine ⟨.longLiteral (low + 16), ?_, withOne _ low more ?_, rfl, rfl, rfl, rfl⟩
    · simp only [Form.Fits]
      omega
    · simp [Form.header, longLiteral]
  by_cases literal_ : 0xE1 ≤ n ∧ n ≤ 0xEF
  · rw [operation, if_neg idle, if_neg undefined_, if_neg longLiteral, if_pos literal_] at read
    cases read
    refine ⟨.literalOnly (n % 16), ?_, alone _ ?_, rfl, rfl, rfl, rfl⟩
    · simp only [Form.Fits]
      omega
    · simp only [Form.header, List.cons.injEq, and_true]
      omega
  by_cases longMatch : n = 0xF0
  · rw [operation, if_neg idle, if_neg undefined_, if_neg longLiteral, if_neg literal_,
      if_pos longMatch] at read
    obtain ⟨low, more, read⟩ := bind_eq_ok.mp read
    have small__ := small_ 1 low more (by decide)
    rw [plus_of_lt (by omega), ok_bind] at read
    cases read
    refine ⟨.longMatch (low + 16), ?_, withOne _ low more ?_, rfl, rfl, rfl, rfl⟩
    · simp only [Form.Fits]
      omega
    · simp [Form.header, longMatch]
  by_cases match_ : 0xF1 ≤ n ∧ n ≤ 0xFF
  · rw [operation, if_neg idle, if_neg undefined_, if_neg longLiteral, if_neg literal_,
      if_neg longMatch, if_pos match_] at read
    cases read
    refine ⟨.matchOnly (n % 16), ?_, alone _ ?_, rfl, rfl, rfl, rfl⟩
    · simp only [Form.Fits]
      omega
    · simp only [Form.header, List.cons.injEq, and_true]
      omega
  by_cases medium : 0xA0 ≤ n ∧ n ≤ 0xBF
  · rw [operation, if_neg idle, if_neg undefined_, if_neg longLiteral, if_neg literal_,
      if_neg longMatch, if_neg match_, if_pos medium] at read
    obtain ⟨low, one_, read⟩ := bind_eq_ok.mp read
    obtain ⟨high, two_, read⟩ := bind_eq_ok.mp read
    have small__ := small_ 1 low one_ (by decide)
    have small___ := small_ 2 high two_ (by decide)
    cases read
    refine ⟨.medium (n / 8 % 4) (n % 8 * 4 + (low + high * 256) % 4 + 3)
      ((low + high * 256) / 4), ?_, withTwo _ low high one_ two_ ?_, rfl, rfl, rfl, rfl⟩
    · simp only [Form.Fits]
      omega
    · simp only [Form.header, List.cons.injEq, and_true]
      omega
  have free : Form.Free n := by
    unfold Form.Free
    omega
  rw [operation_of_free free (by omega)] at read
  by_cases long : n % 8 = 7
  · rw [if_pos long] at read
    obtain ⟨low, one_, read⟩ := bind_eq_ok.mp read
    obtain ⟨high, two_, read⟩ := bind_eq_ok.mp read
    have small__ := small_ 1 low one_ (by decide)
    have small___ := small_ 2 high two_ (by decide)
    cases read
    have packed : pattern (n / 64) (n / 8 % 8 + 3) 7 = n := by
      unfold pattern
      omega
    refine ⟨.long (n / 64) (n / 8 % 8 + 3) (low + high * 256), ?_,
      withTwo _ low high one_ two_ ?_, rfl, rfl, rfl, rfl⟩
    · simp only [Form.Fits, packed]
      exact ⟨by omega, by omega, by omega, by omega, free⟩
    · simp only [Form.header, packed, List.cons.injEq, and_true, true_and]
      omega
  rw [if_neg long] at read
  by_cases previous : n % 8 = 6
  · rw [if_pos previous] at read
    cases read
    have packed : pattern (n / 64) (n / 8 % 8 + 3) 6 = n := by
      unfold pattern
      omega
    refine ⟨.previous (n / 64) (n / 8 % 8 + 3), ?_, alone _ ?_, rfl, rfl, rfl, rfl⟩
    · simp only [Form.Fits, packed]
      exact ⟨by omega, by omega, by omega, by omega, free⟩
    · simp only [Form.header, packed]
  · rw [if_neg previous] at read
    obtain ⟨low, one_, read⟩ := bind_eq_ok.mp read
    have small__ := small_ 1 low one_ (by decide)
    cases read
    have packed : pattern (n / 64) (n / 8 % 8 + 3) ((n % 8 * 256 + low) / 256) = n := by
      unfold pattern
      omega
    refine ⟨.short (n / 64) (n / 8 % 8 + 3) (n % 8 * 256 + low), ?_,
      withOne _ low one_ ?_, rfl, rfl, rfl, rfl⟩
    · simp only [Form.Fits, packed]
      exact ⟨by omega, by omega, by omega, by omega, free⟩
    · simp only [Form.header, packed, List.cons.injEq, and_true, true_and]
      omega

end Ferrosys.Compress.Lzvn
