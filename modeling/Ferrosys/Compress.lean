import Ferrosys.Bytes
import Ferrosys.Library.Lz77
import Ferrosys.Library.Buffer
import Ferrosys.Library.Outcome

/-! What the decompressors share: their errors, the slices they read and write, which panic out of
range, and the copy back into what was produced. An arithmetic result that does not fit panics, as
with the overflow checks on.
-/

namespace Ferrosys.Compress

open Checked Machine Splice

/-- The algorithms decoded here. -/
inductive Algorithm where
  | lzo
  | lzvn
  | lzfse
  | lzbitmap
deriving DecidableEq

/-- Why a stream is not decoded. -/
inductive Error where
  | malformed (algorithm : Algorithm) (fault : String)
  | overrun (algorithm : Algorithm) (expected : Nat)
deriving DecidableEq

/-- A step of decoding: refused, or ended by a panic, or done. -/
abbrev Decoded (α : Type) := Except (Fault Error) α

/-- A stream refused with an error of its own. -/
def refuse {α : Type} (error : Error) : Decoded α := .error (.refused error)

def plus (a b : Nat) : Decoded Nat := add .checked a b

def minus (a b : Nat) : Decoded Nat := sub .checked a b

/-- A byte of a slice. -/
def byteAt (bytes : Bytes) (index : Nat) : Decoded UInt8 :=
  bytes[index]?.elim (.error .panicked) .ok

/-- A range of a slice. -/
def range (bytes : Bytes) (first last : Nat) : Decoded Bytes :=
  if first ≤ last ∧ last ≤ bytes.length then .ok (slice bytes first (last - first))
  else .error .panicked

/-- A range of a slice, where there is one. -/
def getRange (bytes : Bytes) (first last : Nat) : Option Bytes :=
  if first ≤ last ∧ last ≤ bytes.length then some (slice bytes first (last - first)) else none

/-- The number little-endian bytes spell. -/
def fromLeBytes : Bytes → Nat
  | [] => 0
  | byte :: rest => byte.toNat + 256 * fromLeBytes rest

/-- A buffer with another byte at an index. -/
def setByte (out : Bytes) (index : Nat) (byte : UInt8) : Decoded Bytes :=
  if index < out.length then .ok (out.set index byte) else .error .panicked

/-- A buffer with a range of it overwritten by bytes of the same length. -/
def copyFromSlice (out : Bytes) (first last : Nat) (bytes : Bytes) : Decoded Bytes :=
  if first ≤ last ∧ last ≤ out.length ∧ bytes.length = last - first then
    .ok (splice out first bytes)
  else .error .panicked

/-- So many bytes from an index on, each the one `distance` back. -/
def copyBytes (distance : Nat) : (count index : Nat) → Bytes → Decoded Bytes
  | 0, _, out => .ok out
  | count + 1, index, out => do
      let byte ← byteAt out (← minus index distance)
      copyBytes distance count (index + 1) (← setByte out index byte)

/-- Write `count` bytes from `distance` back at an index, and whether the distance names any. -/
def copyBack (out : Bytes) (index distance count : Nat) : Decoded (Bytes × Bool) :=
  if distance = 0 ∨ index < distance then .ok (out, false)
  else do
    let _ ← plus index count
    return (← copyBytes distance count index out, true)

/-- A step of decoding that does not panic. -/
def Safe {α : Type} (step : Decoded α) : Prop := step ≠ .error .panicked

theorem safe_ok {α : Type} (a : α) : Safe (.ok a) := nofun

theorem safe_refuse {α : Type} (error : Error) : Safe (refuse (α := α) error) := nofun

/-- Steps in a row do not panic where each does not on what the ones before it answered. -/
theorem Safe.bind {α β : Type} {first : Decoded α} {rest : α → Decoded β} (safe : Safe first)
    (later : ∀ a, first = .ok a → Safe (rest a)) : Safe (first >>= rest) := by
  cases first with
  | ok a => exact later a rfl
  | error fault =>
      rintro ⟨⟩
      exact safe rfl

/-- What a decompressor answers with: how much it produced, and the output. -/
def answer (_ : Unit) (produced room : Bytes) : Nat × Bytes :=
  (produced.length, produced ++ room)

/-- The parts of a stream's decoding: how far it has been read, what is produced, and the room. -/
def placeOf (at_ : Nat) (produced room : Bytes) : Nat × Nat × Bytes :=
  (at_, produced.length, produced ++ room)

/-- What a block leaves, made of its parts. -/
def nextPlace : Nat ⊕ Unit → Bytes → Bytes
    → Loop.Next (Nat × Nat × Bytes) (Decoded (Nat × Bytes)) := Buffer.nextOf placeOf answer

/-- A decompressor ends without a panic on every stream and every buffer. -/
def Total (decompress : Bytes → Bytes → Decoded (Nat × Bytes)) : Prop :=
  ∀ input out, input.length < 2 ^ 63 → out.length < 2 ^ 63 →
    decompress input out ≠ .error .panicked

/-- What a decompressor makes of one buffer it makes of every other with room for it, whatever
either held.
-/
def Independent (decompress : Bytes → Bytes → Decoded (Nat × Bytes)) : Prop :=
  ∀ input out n after, input.length < 2 ^ 63 → out.length < 2 ^ 63 →
    decompress input out = .ok (n, after) →
    n ≤ out.length ∧ after = after.take n ++ out.drop n
      ∧ ∀ other, other.length < 2 ^ 63 → n ≤ other.length →
        decompress input other = .ok (n, after.take n ++ other.drop n)

/-- A decompressor that is blind from the start of its output on is independent of it. -/
theorem independent_of_blind {decompress : Bytes → Bytes → Decoded (Nat × Bytes)}
    (blind : ∀ input, input.length < 2 ^ 63 →
      Buffer.Blind (2 ^ 63) answer [] fun out => decompress input out)
    : Independent decompress := by
  intro input out n after small roomy done
  obtain ⟨_, added, fits, same, others⟩ := blind input small out (n, after) roomy done
  rw [List.nil_append] at same
  obtain ⟨rfl, rfl⟩ := Prod.mk.inj same
  rw [List.take_left]
  exact ⟨fits, rfl, fun other bounded enough => others other bounded enough⟩

theorem toNat_ofNat {n : Nat} (small : n < 256) : (UInt8.ofNat n).toNat = n := by
  simp [Nat.mod_eq_of_lt small]

/-! What these do to a buffer that is what was produced followed by the room left. -/

theorem plus_of_lt {a b : Nat} (fits : a + b < 2 ^ 64) : plus a b = .ok (a + b) := add_of_lt fits

theorem eq_of_plus {a b c : Nat} (done : plus a b = .ok c) : a + b = c := by
  by_cases fits : a + b < 2 ^ 64
  · rw [plus_of_lt fits] at done
    exact Except.ok.inj done
  · have panicked : plus a b = .error .panicked := fit_checked_of_le (by omega)
    rw [panicked] at done
    cases done

theorem minus_of_le {a b : Nat} (le : b ≤ a) : minus a b = .ok (a - b) := sub_of_le le

theorem byteAt_eq_ok {bytes : Bytes} {index : Nat} {byte : UInt8}
    : byteAt bytes index = .ok byte ↔ bytes[index]? = some byte := by
  unfold byteAt
  cases bytes[index]? <;> simp

theorem range_of_le {bytes : Bytes} {first last : Nat} (order : first ≤ last)
    (inside : last ≤ bytes.length)
    : range bytes first last = .ok (slice bytes first (last - first)) := if_pos ⟨order, inside⟩

/-- Bytes written behind what was produced take the room's first places. -/
theorem copyFromSlice_produced {produced room bytes : Bytes} (fits : bytes.length ≤ room.length)
    : copyFromSlice (produced ++ room) produced.length (produced.length + bytes.length) bytes
      = .ok (produced ++ bytes ++ room.drop bytes.length) := by
  unfold copyFromSlice
  rw [if_pos ⟨Nat.le_add_right _ _, by simpa using fits, by omega⟩]
  unfold splice
  rw [List.take_left, List.take_of_length_le (by simpa using fits)]
  simp

/-- A copy back takes the room's first places with what it repeats, by induction on its count. -/
theorem copyBytes_produced {distance count : Nat} {produced room : Bytes} (pos : 0 < distance)
    (reaches : distance ≤ produced.length) (fits : count ≤ room.length)
    : copyBytes distance count produced.length (produced ++ room)
      = .ok (Lz77.repeatFrom produced distance count ++ room.drop count) := by
  induction count generalizing produced room with
  | zero => rfl
  | succ count ih =>
      cases room with
      | nil => exact absurd fits (Nat.not_succ_le_zero _)
      | cons first room =>
          obtain ⟨a, back⟩ := Lz77.exists_back pos reaches
          have here : byteAt (produced ++ first :: room) (produced.length - distance) = .ok a := by
            rw [byteAt_eq_ok, List.getElem?_append_left (by omega), back]
          have write : setByte (produced ++ first :: room) produced.length a
              = .ok (produced ++ [a] ++ room) := by
            unfold setByte
            rw [if_pos (by simp)]
            simp
          have later := @ih (produced ++ [a]) room (by simp; omega) (by simpa using fits)
          rw [copyBytes, minus_of_le reaches, ok_bind, here, ok_bind, write, ok_bind,
            Lz77.repeatFrom_succ back]
          rw [List.length_append, List.length_singleton] at later
          rw [later, List.drop_succ_cons]

theorem copyBack_produced {distance count : Nat} {produced room : Bytes} (pos : 0 < distance)
    (reaches : distance ≤ produced.length) (fits : count ≤ room.length)
    (small : (produced ++ room).length < 2 ^ 63)
    : copyBack (produced ++ room) produced.length distance count
      = .ok (Lz77.repeatFrom produced distance count ++ room.drop count, true) := by
  rw [List.length_append] at small
  unfold copyBack
  rw [if_neg (by omega), plus_of_lt (by omega), ok_bind, copyBytes_produced pos reaches fits,
    ok_bind]
  rfl

/-! What the steps shared here yield. -/

theorem byteAt_yields {bytes : Bytes} {index : Nat} (inside : index < bytes.length)
    : Yields (byteAt bytes index) fun _ => True := by
  rw [byteAt_eq_ok.mpr (List.getElem?_eq_getElem inside)]
  exact yields_ok trivial

theorem range_yields {bytes : Bytes} {first last : Nat} (order : first ≤ last)
    (inside : last ≤ bytes.length)
    : Yields (range bytes first last) fun piece => piece.length = last - first := by
  rw [range_of_le order inside]
  exact yields_ok (length_slice (by omega))

theorem setByte_yields {out : Bytes} {index : Nat} {byte : UInt8} (inside : index < out.length)
    : Yields (setByte out index byte) fun after => after.length = out.length := by
  unfold setByte
  rw [if_pos inside]
  exact yields_ok List.length_set

theorem length_of_getRange {bytes piece : Bytes} {first last : Nat}
    (here : getRange bytes first last = some piece)
    : first ≤ last ∧ last ≤ bytes.length ∧ piece.length = last - first := by
  unfold getRange at here
  by_cases inside : first ≤ last ∧ last ≤ bytes.length
  · rw [if_pos inside] at here
    obtain rfl := Option.some.inj here
    exact ⟨inside.1, inside.2, length_slice (by omega)⟩
  · rw [if_neg inside] at here
    cases here

theorem copyFromSlice_yields {out bytes : Bytes} {first last : Nat} (order : first ≤ last)
    (inside : last ≤ out.length) (sized : bytes.length = last - first)
    : Yields (copyFromSlice out first last bytes) fun after => after.length = out.length := by
  unfold copyFromSlice
  rw [if_pos ⟨order, inside, sized⟩]
  exact yields_ok (length_splice _ _ _)

/-- A copy back inside the buffer leaves it as long, by induction on its count. -/
theorem copyBytes_yields {distance count index : Nat} {out : Bytes} (pos : 0 < distance)
    (reaches : distance ≤ index) (fits : index + count ≤ out.length)
    : Yields (copyBytes distance count index out) fun after => after.length = out.length := by
  induction count generalizing index out with
  | zero => exact yields_ok rfl
  | succ count ih =>
      unfold copyBytes
      refine (yields_sub reaches rfl).bind fun back (same : index - distance = back) => ?_
      refine (byteAt_yields (by omega)).bind fun byte _ => ?_
      refine (setByte_yields (by omega)).bind fun after kept => ?_
      exact (ih (by omega) (by omega)).mono fun _ later => later.trans kept

theorem copyBack_yields {distance count index : Nat} {out : Bytes}
    (fits : index + count ≤ out.length) (small : out.length < 2 ^ 63)
    : Yields (copyBack out index distance count) fun result => result.1.length = out.length := by
  unfold copyBack
  refine yields_ite (fun _ => yields_ok rfl) fun names => ?_
  refine (yields_add (by omega) trivial).bind fun _ (_ : True) => ?_
  exact (copyBytes_yields (by omega) (by omega) fits).bind fun after kept => yields_ok kept

/-! What these make of a buffer does not depend on what its room held. -/

section

variable {τ σ : Type} {mk : τ → Bytes → Bytes → σ} {produced : Bytes}

/-- Bytes are written behind what was produced without a look at what was there. -/
theorem copyFromSlice_blind {bytes : Bytes} {last : Nat} {rest : Bytes → Decoded σ}
    (ends : produced.length + bytes.length = last)
    (later : Buffer.Blind (2 ^ 63) mk (produced ++ bytes) fun room =>
      rest (produced ++ bytes ++ room))
    : Buffer.Blind (2 ^ 63) mk produced fun room =>
      copyFromSlice (produced ++ room) produced.length last bytes >>= rest := by
  subst ends
  intro room s small done
  obtain ⟨out, copied, done⟩ := bind_eq_ok.mp done
  have fits : bytes.length ≤ room.length := by
    by_contra past
    unfold copyFromSlice at copied
    rw [List.length_append, if_neg (by omega)] at copied
    cases copied
  rw [copyFromSlice_produced fits] at copied
  obtain rfl := Except.ok.inj copied
  refine later.after small fits done fun other _ enough => ?_
  rw [copyFromSlice_produced enough, ok_bind]

/-- A copy that came to its end was inside the buffer, by induction on its count. -/
theorem fits_of_copyBytes {distance count index : Nat} {out after : Bytes}
    (order : index ≤ out.length) (done : copyBytes distance count index out = .ok after)
    : index + count ≤ out.length := by
  induction count generalizing index out with
  | zero => exact order
  | succ count ih =>
      unfold copyBytes at done
      obtain ⟨back, _, done⟩ := bind_eq_ok.mp done
      obtain ⟨byte, _, done⟩ := bind_eq_ok.mp done
      obtain ⟨next, set_, done⟩ := bind_eq_ok.mp done
      unfold setByte at set_
      by_cases inside : index < out.length
      · rw [if_pos inside] at set_
        obtain rfl := Except.ok.inj set_
        have later := ih (by rw [List.length_set]; omega) done
        rw [List.length_set] at later
        omega
      · rw [if_neg inside] at set_
        cases set_

/-- A copy back repeats what was produced, whatever was behind it. -/
theorem copyBack_blind {index distance count : Nat} {rest : Bytes × Bool → Decoded σ}
    (ends : produced.length = index)
    (none_ : Buffer.Blind (2 ^ 63) mk produced fun room => rest (produced ++ room, false))
    (some_ : ∀ added, added.length = count →
      Buffer.Blind (2 ^ 63) mk (produced ++ added) fun room => rest (produced ++ added ++ room, true))
    : Buffer.Blind (2 ^ 63) mk produced fun room =>
      copyBack (produced ++ room) index distance count >>= rest := by
  subst ends
  by_cases names : distance = 0 ∨ produced.length < distance
  · refine none_.congr fun room _ => ?_
    unfold copyBack
    rw [if_pos names, ok_bind]
  · obtain ⟨added, same⟩ := Lz77.prefix_repeatFrom produced distance count
    have sized : added.length = count := by
      have length := @Lz77.length_repeatFrom _ produced distance count (by omega) (by omega)
      rw [← same, List.length_append] at length
      omega
    have copy : ∀ {other : Bytes}, (produced ++ other).length < 2 ^ 63 → count ≤ other.length →
        copyBack (produced ++ other) produced.length distance count
          = .ok (produced ++ added ++ other.drop count, true) := by
      intro other bounded enough
      rw [copyBack_produced (by omega) (by omega) enough bounded, same]
    intro room s small done
    obtain ⟨result, copied, done⟩ := bind_eq_ok.mp done
    have fits : count ≤ room.length := by
      unfold copyBack at copied
      rw [if_neg names] at copied
      obtain ⟨_, _, copied⟩ := bind_eq_ok.mp copied
      obtain ⟨after, ran, _⟩ := bind_eq_ok.mp copied
      have inside := fits_of_copyBytes (by rw [List.length_append]; omega) ran
      rw [List.length_append] at inside
      omega
    rw [copy small fits] at copied
    obtain rfl := Except.ok.inj copied
    subst sized
    refine (some_ added rfl).after small fits done fun other bounded enough => ?_
    rw [copy bounded enough, ok_bind]

end

end Ferrosys.Compress
