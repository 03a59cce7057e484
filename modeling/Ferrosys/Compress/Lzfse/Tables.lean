import Ferrosys.Compress.Lzfse

/-! The decoders' tables and bit streams do not panic: a bit stream never holds bits that a word of
64 does not, and a table's states read few bits and lead to states it has.
-/

namespace Ferrosys.Compress.Lzfse

open Checked Machine

theorem fromLeBytes_lt (bytes : Bytes) : fromLeBytes bytes < 2 ^ (8 * bytes.length) := by
  induction bytes with
  | nil => exact Nat.one_pos
  | cons byte rest ih =>
      have first := byte.toNat_lt
      have more : 2 ^ (8 * (byte :: rest).length) = 256 * 2 ^ (8 * rest.length) := by
        rw [List.length_cons, Nat.mul_add, Nat.pow_add, Nat.mul_comm]
      rw [fromLeBytes, more]
      omega

/-! Arithmetic. -/

theorem plus32_yields {a b : Nat} {post : Nat → Prop} (fits : a + b < 2 ^ 32) (holds : post (a + b))
    : Yields (plus32 a b) post := by
  unfold plus32
  rw [if_pos fits]
  exact yields_ok holds

theorem times32_yields {a b : Nat} {post : Nat → Prop} (fits : a * b < 2 ^ 32) (holds : post (a * b))
    : Yields (times32 a b) post := by
  unfold times32
  rw [if_pos fits]
  exact yields_ok holds

theorem asWord_of_lt {address : Nat} (narrow : address < 2 ^ 32) : asWord address = address :=
  Nat.mod_eq_of_lt narrow

theorem shiftRight_yields {width word by_ : Nat} (narrow : by_ < width)
    : Yields (shiftRight width word by_) fun value => value = word / 2 ^ by_ := by
  unfold shiftRight
  rw [if_pos narrow]
  exact yields_ok rfl

theorem shiftLeft32_yields {word by_ : Nat} (narrow : by_ < 32) (fits : word * 2 ^ by_ < 2 ^ 32)
    : Yields (shiftLeft32 word by_) fun value => value = word * 2 ^ by_ := by
  unfold shiftLeft32
  rw [if_pos narrow, Nat.mod_eq_of_lt fits]
  exact yields_ok rfl

theorem lowBits_yields {word count : Nat} (narrow : count < 64)
    : Yields (lowBits word count) fun value => value < 2 ^ count := by
  unfold lowBits
  rw [if_pos narrow]
  exact yields_ok (Nat.mod_lt _ (Nat.two_pow_pos count))

theorem item_yields {α : Type} {list : List α} {index : Nat} (inside : index < list.length)
    : Yields (item list index) fun value => value ∈ list := by
  unfold item
  rw [List.getElem?_eq_getElem inside]
  exact yields_ok (List.getElem_mem inside)

/-! The bit streams. -/

/-- A bit stream is inside its input, and its word holds the bits it says. -/
structure Bits.Whole (bits : Bits) : Prop where
  inside : bits.at_ ≤ bits.input.length
  most : bits.held ≤ 63
  fits : bits.accum < 2 ^ bits.held

theorem le_of_backed {at_ count floor back : Nat} (here : backed at_ count floor = some back)
    : count ≤ at_ ∧ back = at_ - count := by
  unfold backed at here
  by_cases enough : count ≤ at_ ∧ floor ≤ at_ - count
  · rw [if_pos enough] at here
    exact ⟨enough.1, (Option.some.inj here).symm⟩
  · rw [if_neg enough] at here
    cases here

theorem Bits.opened_yields {input : Bytes} {floor stop last : Nat} (inside : stop ≤ input.length)
    (few : last < 8) : Yields (Bits.opened input floor stop last) Bits.Whole := by
  unfold Bits.opened
  refine (yields_sub (by omega) rfl).bind fun missing (gone : 7 - last = missing) => ?_
  refine (yields_okOr fun _ here => le_of_backed here).bind fun at_ back => ?_
  refine (range_yields (by omega) inside).bind fun bytes _ => ?_
  have most : missing ≤ 8 * if missing = 0 then 7 else 8 := by
    split <;> omega
  refine (yields_sub most rfl).bind fun held (same : _ - missing = held) => ?_
  refine yields_ite (fun _ => yields_refused) fun good => ?_
  rw [not_or, not_not, not_not] at good
  refine yields_ok ⟨(show at_ ≤ input.length by omega), (show held ≤ 63 by omega), ?_⟩
  exact (Nat.div_eq_zero_iff.mp good.2).resolve_left (Nat.two_pow_pos held).ne'

theorem Bits.refill_yields {bits : Bits} (whole : bits.Whole)
    : Yields bits.refill Bits.Whole := by
  have most := whole.most
  have inside := whole.inside
  unfold Bits.refill
  refine (yields_sub most rfl).bind fun room (same : 63 - bits.held = room) => ?_
  refine yields_ite (fun _ => yields_ok whole) fun some_ => ?_
  refine (yields_okOr fun _ here => le_of_backed here).bind fun at_ back => ?_
  refine (range_yields (by omega) inside).bind fun bytes sized => ?_
  have shifted : Yields (shiftLeft64 bits.accum (8 * (room / 8)))
      fun accum => accum < 2 ^ (bits.held + 8 * (room / 8)) := by
    unfold shiftLeft64
    rw [if_pos (by omega), Nat.pow_add]
    exact yields_ok ((Nat.mod_le _ _).trans_lt
      (Nat.mul_lt_mul_of_pos_right whole.fits (Nat.two_pow_pos _)))
  refine shifted.bind fun accum high => ?_
  have low : fromLeBytes bytes < 2 ^ (bits.held + 8 * (room / 8)) := by
    refine (fromLeBytes_lt bytes).trans_le (Nat.pow_le_pow_right (by decide) ?_)
    omega
  refine (plus32_yields (by omega) rfl).bind fun held (sum : bits.held + 8 * (room / 8) = held) => ?_
  subst sum
  exact yields_ok ⟨(show at_ ≤ bits.input.length by omega),
    (show bits.held + 8 * (room / 8) ≤ 63 by omega), Nat.or_lt_two_pow high low⟩

theorem Bits.pull_yields {bits : Bits} {count : Nat} (whole : bits.Whole)
    : Yields (bits.pull count) fun result => result.1 < 2 ^ count ∧ result.2.Whole := by
  have most := whole.most
  unfold Bits.pull
  refine yields_ite (fun _ => yields_refused) fun enough => ?_
  refine (yields_sub (by omega) rfl).bind fun held (left : bits.held - count = held) => ?_
  refine (shiftRight_yields (by omega)).bind fun value (high : value = bits.accum / 2 ^ held) => ?_
  refine (lowBits_yields (by omega)).bind fun accum low => ?_
  refine yields_ok ⟨?_, whole.inside, (show held ≤ 63 by omega), low⟩
  change value < 2 ^ count
  rw [high]
  refine Nat.div_lt_of_lt_mul ?_
  rw [← Nat.pow_add]
  exact whole.fits.trans_eq (congrArg _ (by omega))

/-! The tables. -/

/-- The states of a table are its symbols', read at most ten bits, and lead to one of 1,024. -/
def Fits (symbols : Nat) (table : List (Option State)) : Prop :=
  ∀ entry : State, some entry ∈ table →
    entry.symbol < symbols ∧ entry.bits ≤ 10 ∧ entry.base < 2 ^ 10

theorem stateOf_yields {n k symbol f j : Nat} (few : n ≤ 10) (pos : f ≠ 0) (most : f ≤ 2 ^ n)
    (shift : Nat.log2 f + k = n) (below : j < f)
    : Yields (stateOf (2 ^ n) symbol f k (2 ^ (Nat.log2 f + 1) - f) j) fun entry =>
      entry.symbol = symbol ∧ entry.bits ≤ 10 ∧ entry.base < 2 ^ 10 := by
  have least : 2 ^ Nat.log2 f ≤ f := Nat.log2_self_le pos
  have less : f < 2 ^ (Nat.log2 f + 1) := Nat.lt_log2_self
  have bound : 2 ^ n ≤ 2 ^ 10 := Nat.pow_le_pow_right (by decide) few
  unfold stateOf
  refine yields_ite (fun before => ?_) fun behind => ?_
  · have low : 2 ^ n ≤ (f + j) * 2 ^ k := by
      rw [← shift, Nat.pow_add]
      exact Nat.mul_le_mul_right _ (by omega)
    have high : (f + j) * 2 ^ k < 2 ^ n + 2 ^ n := by
      have sum : (f + j) * 2 ^ k < 2 ^ (Nat.log2 f + 1) * 2 ^ k :=
        Nat.mul_lt_mul_of_pos_right (by omega) (Nat.two_pow_pos k)
      rw [← Nat.pow_add, show Nat.log2 f + 1 + k = n + 1 by omega] at sum
      omega
    refine (plus32_yields (by omega) rfl).bind fun sum (same : f + j = sum) => ?_
    subst same
    refine (shiftLeft32_yields (by omega) (by omega)).bind fun shifted same => ?_
    subst same
    rw [asWord_of_lt (by omega)]
    refine (yields_sub low rfl).bind fun base (left : _ - 2 ^ n = base) => ?_
    exact yields_ok ⟨rfl, (show k ≤ 10 by omega), (show base < 2 ^ 10 by omega)⟩
  · -- A symbol of all the states has none that read a bit less.
    have some_ : 1 ≤ k := by
      by_contra none_
      rw [show Nat.log2 f = n by omega] at behind least
      omega
    refine (yields_sub some_ rfl).bind fun bits (one : k - 1 = bits) => ?_
    refine (yields_sub (by omega) rfl).bind fun first (left : j - _ = first) => ?_
    have high : first * 2 ^ bits < 2 ^ n := by
      have sum : first * 2 ^ bits < 2 ^ (Nat.log2 f + 1) * 2 ^ bits :=
        Nat.mul_lt_mul_of_pos_right (by omega) (Nat.two_pow_pos bits)
      rwa [← Nat.pow_add, show Nat.log2 f + 1 + bits = n by omega] at sum
    refine (shiftLeft32_yields (by omega) (by omega)).bind fun base same => ?_
    exact yields_ok ⟨rfl, (show bits ≤ 10 by omega), (show base < 2 ^ 10 by omega)⟩

/-- Writing a symbol's states keeps a table as it is to be, by induction on how many there are. -/
theorem place_yields {n k symbol symbols f count j next : Nat} {table : List (Option State)}
    (few : n ≤ 10) (pos : f ≠ 0) (most : f ≤ 2 ^ n) (shift : Nat.log2 f + k = n)
    (known : symbol < symbols) (last : j + count = f) (room : next + count ≤ table.length)
    (fit : Fits symbols table)
    : Yields (place (2 ^ n) symbol f k (2 ^ (Nat.log2 f + 1) - f) count j next table)
      fun after => after.length = table.length ∧ Fits symbols after := by
  induction count generalizing j next table with
  | zero => exact yields_ok ⟨rfl, fit⟩
  | succ count ih =>
      unfold place
      refine (stateOf_yields few pos most shift (by omega)).bind fun entry of => ?_
      rw [if_pos (by omega)]
      have wrote : Fits symbols (table.set next (some entry)) := by
        intro other member
        rcases List.mem_or_eq_of_mem_set member with old | new
        · exact fit other old
        · obtain rfl := Option.some.inj new
          exact ⟨of.1 ▸ known, of.2⟩
      refine (ih (by omega) (by rw [List.length_set]; omega) wrote).mono fun after done => ?_
      rwa [List.length_set] at done

/-- Each symbol's states fit behind the ones before, by induction on the symbols. -/
theorem assign_yields {n symbol symbols next : Nat} {freq : List Nat} {table : List (Option State)}
    (few : n ≤ 10) (power : trailingZeros (2 ^ n) = n) (known : symbol + freq.length = symbols)
    (room : next + freq.sum ≤ table.length) (sized : table.length = 2 ^ n)
    (fit : Fits symbols table)
    : Yields (assign (2 ^ n) freq symbol next table) (Fits symbols) := by
  induction freq generalizing symbol next table with
  | nil => exact yields_ok fit
  | cons f freq ih =>
      rw [List.length_cons] at known
      rw [List.sum_cons] at room
      have bound : 2 ^ n ≤ 2 ^ 10 := Nat.pow_le_pow_right (by decide) few
      unfold assign
      refine yields_ite (fun none_ => ih (by omega) (by omega) sized fit) fun pos => ?_
      have log : Nat.log2 f ≤ n := by
        by_contra past
        have least : 2 ^ Nat.log2 f ≤ f := Nat.log2_self_le pos
        have larger : 2 ^ n < 2 ^ Nat.log2 f := Nat.pow_lt_pow_right (by decide) (by omega)
        omega
      have zeros : leadingZeros f = 31 - Nat.log2 f := if_neg pos
      rw [zeros, power]
      refine (yields_sub (by omega) rfl).bind fun width (same : 31 - _ = width) => ?_
      refine (yields_sub (by omega) rfl).bind fun k (shift : n - width = k) => ?_
      rw [asWord_of_lt (by omega)]
      refine (times32_yields (by omega) rfl).bind fun double (twofold : 2 * 2 ^ n = double) => ?_
      refine (shiftRight_yields (by omega)).bind fun twice doubled => ?_
      have ends : twice = 2 ^ (Nat.log2 f + 1) := by
        rw [doubled, ← twofold, ← Nat.pow_succ', show n.succ = Nat.log2 f + 1 + k by omega, Nat.pow_add,
          Nat.mul_div_cancel _ (Nat.two_pow_pos k)]
      have less : f < 2 ^ (Nat.log2 f + 1) := Nat.lt_log2_self
      subst ends
      refine (yields_sub less.le rfl).bind fun j0 (left : _ - f = j0) => ?_
      subst left
      refine (place_yields few pos (by omega) (by omega) (by omega) (Nat.zero_add f) (by omega)
        fit).bind fun after done => ?_
      exact ih (by omega) (by omega) (by omega) done.2

/-- A table of a power of two of states, at most 1,024 of them, is made without a panic. -/
theorem transitions_yields {n : Nat} {freq : List Nat} (few : n ≤ 10)
    : Yields (transitions (2 ^ n) freq) (Fits freq.length) := by
  unfold transitions
  refine yields_ite (fun _ => yields_refused) fun most => ?_
  have powers : ∀ m ≤ 10, trailingZeros (2 ^ m) = m := by decide
  have power := powers n few
  refine assign_yields few power (Nat.zero_add _) (by rw [List.length_replicate]; omega)
    List.length_replicate fun entry member => ?_
  cases List.eq_of_mem_replicate member

theorem mem_of_join {table : List (Option State)} {state : Nat} {entry : State}
    (here : table[state]?.join = some entry) : some entry ∈ table :=
  List.mem_of_getElem? (Option.join_eq_some_iff.mp here)

theorem symbolStep_yields {table : List (Option State)} {state symbols : Nat} {bits : Bits}
    (fit : Fits symbols table) (whole : bits.Whole)
    : Yields (symbolStep table state bits) fun result => result.2.2.Whole := by
  unfold symbolStep
  refine (yields_okOr fun entry here => fit entry (mem_of_join here)).bind fun entry known => ?_
  refine (Bits.pull_yields whole).bind fun ⟨read, bits⟩ pulled => ?_
  have small : read < 2 ^ 10 :=
    Nat.lt_of_lt_of_le pulled.1 (Nat.pow_le_pow_right (by decide) known.2.1)
  exact (plus32_yields (by omega) trivial).bind fun _ (_ : True) => yields_ok pulled.2

/-- A command alphabet's table has an entry for each symbol its states stand for. -/
structure ValueTable.Sound (table : ValueTable) : Prop where
  fit : Fits table.extra.length table.states
  same : table.base.length = table.extra.length
  narrow : ∀ extra ∈ table.extra, extra ≤ 15
  small : ∀ base ∈ table.base, base < 2 ^ 31

theorem ValueTable.step_yields {table : ValueTable} {state : Nat} {bits : Bits}
    (sound : table.Sound) (whole : bits.Whole)
    : Yields (table.step state bits) fun result => result.1 < 2 ^ 32 ∧ result.2.2.Whole := by
  unfold ValueTable.step
  refine (yields_okOr fun entry here => sound.fit entry (mem_of_join here)).bind
    fun entry known => ?_
  refine (item_yields known.1).bind fun extra listed => ?_
  have narrow := sound.narrow extra listed
  refine (plus32_yields (by omega) rfl).bind fun count (sum : entry.bits + extra = count) => ?_
  refine (Bits.pull_yields whole).bind fun ⟨read, bits⟩ pulled => ?_
  refine (shiftRight_yields (by omega)).bind fun high shifted => ?_
  have above : high < 2 ^ 10 := by
    have part : read < 2 ^ extra * 2 ^ entry.bits := by
      rw [← Nat.pow_add, Nat.add_comm, sum]
      exact pulled.1
    rw [shifted]
    exact (Nat.div_lt_of_lt_mul part).trans_le (Nat.pow_le_pow_right (by decide) known.2.1)
  refine (plus32_yields (by omega) trivial).bind fun state (_ : True) => ?_
  refine (item_yields (by rw [sound.same]; exact known.1)).bind fun base first => ?_
  have based := sound.small base first
  refine (lowBits_yields (by omega)).bind fun low under => ?_
  have below : low < 2 ^ 15 := under.trans_le (Nat.pow_le_pow_right (by decide) narrow)
  have kept := Nat.mod_le low (2 ^ 32)
  have fits : base + low % 2 ^ 32 < 2 ^ 32 := by omega
  have last : Yields (plus32 base (low % 2 ^ 32)) (· < 2 ^ 32) := plus32_yields fits fits
  exact last.bind fun value sized => yields_ok ⟨sized, pulled.2⟩

end Ferrosys.Compress.Lzfse
