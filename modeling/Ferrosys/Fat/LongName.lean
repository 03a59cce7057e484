import Ferrosys.Fat.Name
import Mathlib.Data.List.Perm.Subperm
import Mathlib.Data.List.Range

/-! Long-name runs: the assembler a reader feeds the long-name entries of a directory to, what it
makes of any sequence of them, and that it makes a name of what a name was written as.
-/

namespace Ferrosys.Fat.Name

open Chunks

/-- What a run of long-name entries came to. -/
inductive LongRun where
  | none
  | incomplete
  | complete (units : List UInt16) (checksum : UInt8) (padded : Bool)
deriving DecidableEq

/-- A run of long-name entries being assembled. -/
structure LongName where
  chunks : List (Option (List UInt16))
  checksum : Option UInt8
  broken : Bool
deriving DecidableEq

namespace LfnEntry

variable (self : LfnEntry)

/-- The entry's place in the sequence, without the flag. -/
def ordinal : Nat := (self.order &&& ~~~lfnLastEntry).toNat

/-- Whether the entry is flagged as the last in its sequence. -/
def isLast : Bool := self.order &&& lfnLastEntry != 0

end LfnEntry

namespace LongName

def clear : LongName := ⟨[], none, false⟩

/-- Whether a run is being assembled. -/
def isLive (self : LongName) : Bool := !self.chunks.isEmpty || self.broken

/-- Put an entry's units where its ordinal says, or mark the run broken. -/
def put (self : LongName) (entry : LfnEntry) : LongName :=
  let ordinal := entry.ordinal
  if ordinal = 0 ∨ ordinal > self.chunks.length ∨ self.checksum ≠ some entry.checksum then
    { self with broken := true }
  else
    match self.chunks[ordinal - 1]?.join with
    | some _ => { self with broken := true }
    | none => { self with chunks := self.chunks.set (ordinal - 1) (some entry.name) }

/-- Fold one entry into the run, answering whether a run was discarded to start over. -/
def accept (self : LongName) (entry : LfnEntry) : Bool × LongName :=
  let ordinal := entry.ordinal
  if entry.isLast then
    let discarded := self.isLive
    if ordinal = 0 ∨ ordinal > lfnMaxEntries then (discarded, { clear with broken := true })
    else (discarded, put ⟨List.replicate ordinal none, some entry.checksum, false⟩ entry)
  else (false, self.put entry)

/-- The units of a name that may end before its last entry does, and whether what is behind its end
is as the format has it.
-/
def trim (units : List UInt16) : List UInt16 × Bool :=
  match units.findIdx? fun unit => unit == 0 || unit == lfnPadding with
  | none => (units, true)
  | some stop =>
      let terminated := units[stop]?.getD 0 == 0
      let after := if terminated then stop + 1 else stop
      (units.take stop, terminated && (units.drop after).all (· == lfnPadding))

/-- What the run comes to. -/
def take (self : LongName) : LongRun :=
  if self.chunks.isEmpty && !self.broken then .none
  else if self.broken || self.chunks.any Option.isNone then .incomplete
  else
    let (units, padded) := trim (self.chunks.reduceOption.flatten)
    match self.checksum with
    | some checksum => .complete units checksum padded
    | none => .incomplete

/-- The assembler after a sequence of entries. -/
def feed (self : LongName) (slots : List LfnEntry) : LongName :=
  slots.foldl (fun state entry => (state.accept entry).2) self

end LongName

/-! What a sequence of entries says by itself. -/

/-- The last entry flagged as the last of a sequence, and those behind it. -/
def lastRun (slots : List LfnEntry) : Option (LfnEntry × List LfnEntry) :=
  slots.foldl (fun run entry =>
    if entry.isLast then some (entry, [])
    else run.map fun (head, rest) => (head, rest ++ [entry])) none

/-- A run whose first entry has an ordinal the format allows and whose entries have one checksum. -/
structure Alike (head : LfnEntry) (rest : List LfnEntry) : Prop where
  pos : 1 ≤ head.ordinal
  few : head.ordinal ≤ lfnMaxEntries
  checksums : ∀ entry ∈ rest, entry.checksum = head.checksum

/-- The entries since the last one flagged count down from its ordinal to one. -/
def InOrder (slots : List LfnEntry) : Prop :=
  ∃ head rest, lastRun slots = some (head, rest) ∧ Alike head rest
    ∧ (head :: rest).map LfnEntry.ordinal = (List.range' 1 head.ordinal).reverse

/-- The entries since the last one flagged have the ordinals from one to its own, each once, but
not counting down.
-/
def Shuffled (slots : List LfnEntry) : Prop :=
  ∃ head rest, lastRun slots = some (head, rest) ∧ Alike head rest
    ∧ ((head :: rest).map LfnEntry.ordinal).Perm (List.range' 1 head.ordinal)
    ∧ (head :: rest).map LfnEntry.ordinal ≠ (List.range' 1 head.ordinal).reverse

/-! What the assembler holds of a run. -/

/-- The entries of a run have one checksum and ordinals up to its own, no two of them the same. -/
structure Sound (head : LfnEntry) (rest : List LfnEntry) : Prop where
  checksums : ∀ entry ∈ rest, entry.checksum = head.checksum
  within : ∀ entry ∈ head :: rest, 1 ≤ entry.ordinal ∧ entry.ordinal ≤ head.ordinal
  nodup : ((head :: rest).map LfnEntry.ordinal).Nodup

/-- The assembler holds a run: it is broken where the run is not sound, and otherwise each entry's
units stand where its ordinal says.
-/
structure Assembled (head : LfnEntry) (rest : List LfnEntry) (state : LongName) : Prop where
  width : state.chunks.length = head.ordinal
  checksum : state.checksum = some head.checksum
  sound : state.broken = false ↔ Sound head rest
  placed : state.broken = false → ∀ k < head.ordinal, state.chunks[k]?
    = some (((head :: rest).find? fun entry => entry.ordinal == k + 1).map LfnEntry.name)

theorem Sound.of_append {head entry : LfnEntry} {rest : List LfnEntry}
    (sound : Sound head (rest ++ [entry])) : Sound head rest := by
  refine ⟨fun other member => sound.checksums other (List.mem_append_left _ member),
    fun other member => ?_, ?_⟩
  · refine sound.within other ?_
    rw [← List.cons_append]
    exact List.mem_append_left _ member
  · have nodup := sound.nodup
    rw [← List.cons_append, List.map_append] at nodup
    exact (List.nodup_append.mp nodup).1

namespace LongName

theorem put_broken {state : LongName} (entry : LfnEntry) (broken : state.broken = true)
    : (state.put entry).broken = true := by
  unfold put
  dsimp only
  split
  · rfl
  · split
    · rfl
    · exact broken

theorem put_width (state : LongName) (entry : LfnEntry)
    : (state.put entry).chunks.length = state.chunks.length
      ∧ (state.put entry).checksum = state.checksum := by
  unfold put
  dsimp only
  split
  · exact ⟨rfl, rfl⟩
  · split
    · exact ⟨rfl, rfl⟩
    · exact ⟨List.length_set, rfl⟩

/-- One more entry of a run. -/
theorem put_assembled {state : LongName} {head entry : LfnEntry} {rest : List LfnEntry}
    (assembled : Assembled head rest state)
    : Assembled head (rest ++ [entry]) (state.put entry) := by
  obtain ⟨width, checksum, sound, placed⟩ := assembled
  have kept := put_width state entry
  suffices both : ((state.put entry).broken = false ↔ Sound head (rest ++ [entry]))
      ∧ ((state.put entry).broken = false → ∀ k < head.ordinal, (state.put entry).chunks[k]?
        = some (((head :: (rest ++ [entry])).find? fun other => other.ordinal == k + 1).map
          LfnEntry.name)) from
    ⟨kept.1.trans width, kept.2.trans checksum, both.1, both.2⟩
  cases here : state.broken with
  | true =>
      rw [put_broken entry here]
      rw [here] at sound
      exact ⟨⟨nofun, fun more => absurd (sound.mpr more.of_append) (by decide)⟩, nofun⟩
  | false =>
      have before := sound.mp here
      have stands := placed here
      by_cases stray : entry.ordinal = 0 ∨ entry.ordinal > state.chunks.length
          ∨ state.checksum ≠ some entry.checksum
      · have after : state.put entry = { state with broken := true } := if_pos stray
        rw [after]
        refine ⟨⟨nofun, fun more => ?_⟩, nofun⟩
        have own := more.within entry (by simp)
        have same := more.checksums entry (by simp)
        rw [width, checksum, same] at stray
        rcases stray with zero | past | differs
        · omega
        · omega
        · exact (differs rfl).elim
      · rw [width, checksum] at stray
        push Not at stray
        obtain ⟨pos, within, same⟩ := stray
        have stands_ : ¬ (entry.ordinal = 0 ∨ entry.ordinal > state.chunks.length
            ∨ state.checksum ≠ some entry.checksum) := by
          rw [width, checksum]
          push Not
          exact ⟨pos, within, same⟩
        have room := stands (entry.ordinal - 1) (by omega)
        rw [show entry.ordinal - 1 + 1 = entry.ordinal by omega] at room
        cases found : (head :: rest).find? fun other => other.ordinal == entry.ordinal with
        | some other =>
            -- The place is taken: the ordinal is there already.
            have after : state.put entry = { state with broken := true } := by
              unfold put
              dsimp only
              rw [if_neg stands_, room, found]
              rfl
            rw [after]
            refine ⟨⟨nofun, fun more => ?_⟩, nofun⟩
            have twice := more.nodup
            have alike := List.find?_some found
            rw [← List.cons_append, List.map_append] at twice
            refine absurd ?_ ((List.nodup_append.mp twice).2.2 other.ordinal ?_ entry.ordinal ?_)
            · exact beq_iff_eq.mp alike
            · exact List.mem_map_of_mem (List.mem_of_find?_eq_some found)
            · simp
        | none =>
            have after : state.put entry = { state with
                chunks := state.chunks.set (entry.ordinal - 1) (some entry.name) } := by
              unfold put
              dsimp only
              rw [if_neg stands_, room, found]
              rfl
            rw [after]
            have fresh : ∀ other ∈ head :: rest, other.ordinal ≠ entry.ordinal := by
              intro other member alike
              exact List.find?_eq_none.mp found other member (beq_iff_eq.mpr alike)
            refine ⟨⟨fun _ => ?_, fun _ => here⟩, fun _ k below => ?_⟩
            · refine ⟨fun other member => ?_, fun other member => ?_, ?_⟩
              · rcases List.mem_append.mp member with member | member
                · exact before.checksums other member
                · rw [List.mem_singleton.mp member]
                  exact (Option.some.inj same).symm
              · rw [← List.cons_append] at member
                rcases List.mem_append.mp member with member | member
                · exact before.within other member
                · rw [List.mem_singleton.mp member]
                  omega
              · rw [← List.cons_append, List.map_append]
                refine List.nodup_append.mpr ⟨before.nodup, List.pairwise_singleton _ _, ?_⟩
                intro a inside b last
                obtain ⟨other, member, rfl⟩ := List.mem_map.mp inside
                rw [List.map_singleton, List.mem_singleton] at last
                rw [last]
                exact fresh other member
            · dsimp only
              rw [← List.cons_append, List.find?_append, List.getElem?_set]
              split
              case isTrue here =>
                have own : k + 1 = entry.ordinal := by omega
                rw [own, found, if_pos (by omega)]
                simp
              case isFalse other =>
                have differs : (entry.ordinal == k + 1) = false :=
                  beq_eq_false_iff_ne.mpr (by omega)
                rw [stands k below]
                simp [differs]

/-- A flagged entry opens a run whatever is held. -/
theorem accept_isLast {state : LongName} {entry : LfnEntry} (last : entry.isLast = true)
    (pos : 1 ≤ entry.ordinal) (few : entry.ordinal ≤ lfnMaxEntries)
    : Assembled entry [] (state.accept entry).2 := by
  have opened : (state.accept entry).2
      = put ⟨List.replicate entry.ordinal none, some entry.checksum, false⟩ entry := by
    unfold accept
    rw [if_pos last, if_neg (by omega)]
  have placed : put ⟨List.replicate entry.ordinal none, some entry.checksum, false⟩ entry
      = ⟨(List.replicate entry.ordinal none).set (entry.ordinal - 1) (some entry.name),
        some entry.checksum, false⟩ := by
    unfold put
    dsimp only
    rw [List.length_replicate, if_neg (by simp; omega), List.getElem?_replicate, if_pos (by omega)]
    rfl
  rw [opened, placed]
  refine ⟨by simp, rfl, ⟨fun _ => ⟨nofun, ?_, ?_⟩, fun _ => rfl⟩, fun _ k below => ?_⟩
  · intro other member
    rw [List.mem_singleton.mp member]
    omega
  · exact List.pairwise_singleton _ _
  · dsimp only
    rw [List.getElem?_set, List.length_replicate, List.getElem?_replicate]
    by_cases own : entry.ordinal - 1 = k
    · rw [if_pos own, if_pos (by omega), List.find?_cons_of_pos (by simp; omega)]
      rfl
    · rw [if_neg own, if_pos below, List.find?_cons_of_neg (by simp; omega)]
      rfl

end LongName

/-- What the assembler holds of a sequence of entries. -/
inductive Fed (slots : List LfnEntry) (state : LongName) : Prop where
  | fresh (none_ : slots = []) (clear : state = .clear)
  | ruined (some_ : slots ≠ []) (unplaced : state.chunks = []) (broken : state.broken = true)
    (bad : ∀ head rest, lastRun slots = some (head, rest) →
      ¬ (1 ≤ head.ordinal ∧ head.ordinal ≤ lfnMaxEntries))
  | running (head : LfnEntry) (rest : List LfnEntry) (run : lastRun slots = some (head, rest))
    (pos : 1 ≤ head.ordinal) (few : head.ordinal ≤ lfnMaxEntries)
    (assembled : Assembled head rest state)

theorem lastRun_append (slots : List LfnEntry) (entry : LfnEntry)
    : lastRun (slots ++ [entry]) = if entry.isLast then some (entry, [])
      else (lastRun slots).map fun (head, rest) => (head, rest ++ [entry]) := by
  rw [lastRun, List.foldl_append]
  rfl

/-- What the assembler holds of any sequence, by induction on its last entry. -/
theorem fed_feed (slots : List LfnEntry) : Fed slots (LongName.clear.feed slots) := by
  induction slots using List.reverseRecOn with
  | nil => exact .fresh rfl rfl
  | append_singleton slots entry ih =>
      have step : LongName.clear.feed (slots ++ [entry])
          = ((LongName.clear.feed slots).accept entry).2 := by
        rw [LongName.feed, List.foldl_append]
        rfl
      have run := lastRun_append slots entry
      rw [step]
      cases last : entry.isLast with
      | true =>
          rw [last, if_pos rfl] at run
          by_cases good : 1 ≤ entry.ordinal ∧ entry.ordinal ≤ lfnMaxEntries
          · exact .running entry [] run good.1 good.2 (LongName.accept_isLast last good.1 good.2)
          · have opened : ((LongName.clear.feed slots).accept entry).2
                = { LongName.clear with broken := true } := by
              unfold LongName.accept
              rw [if_pos last, if_pos (by omega)]
            rw [opened]
            refine .ruined (by simp) rfl rfl fun head rest same => ?_
            rw [run] at same
            obtain ⟨rfl, -⟩ := Prod.mk.inj (Option.some.inj same)
            exact good
      | false =>
          rw [last, if_neg Bool.false_ne_true] at run
          have moved : ((LongName.clear.feed slots).accept entry).2
              = (LongName.clear.feed slots).put entry := by
            unfold LongName.accept
            rw [last, if_neg Bool.false_ne_true]
          rw [moved]
          -- With no place for it, an entry breaks the run.
          have stray : ∀ state : LongName, state.chunks = [] →
              state.put entry = { state with broken := true } := by
            intro state unplaced
            refine if_pos ?_
            rw [unplaced, List.length_nil]
            omega
          cases ih with
          | fresh none_ clear =>
              rw [clear, stray _ rfl]
              refine .ruined (by simp) rfl rfl fun head rest same => ?_
              rw [run, none_] at same
              cases same
          | ruined some_ unplaced broken bad =>
              rw [stray _ unplaced]
              refine .ruined (by simp) unplaced rfl fun head rest same => ?_
              rw [run] at same
              obtain ⟨⟨first, others⟩, before, pair⟩ := Option.map_eq_some_iff.mp same
              obtain ⟨rfl, -⟩ := Prod.mk.inj pair
              exact bad _ _ before
          | running head rest before pos few assembled =>
              rw [before] at run
              exact .running head (rest ++ [entry]) run pos few (LongName.put_assembled assembled)

/-! What a sequence comes to. -/

/-- A sound run that has every ordinal has them all once. -/
theorem Sound.perm_iff {head : LfnEntry} {rest : List LfnEntry} (sound : Sound head rest)
    : ((head :: rest).map LfnEntry.ordinal).Perm (List.range' 1 head.ordinal)
      ↔ ∀ k < head.ordinal, ∃ entry ∈ head :: rest, entry.ordinal = k + 1 := by
  rw [List.perm_ext_iff_of_nodup sound.nodup List.nodup_range']
  constructor
  · intro same k below
    have inside := (same (k + 1)).mpr (List.mem_range'_1.mpr ⟨by omega, by omega⟩)
    exact List.mem_map.mp inside
  · intro each ordinal
    rw [List.mem_range'_1]
    constructor
    · intro inside
      obtain ⟨entry, member, rfl⟩ := List.mem_map.mp inside
      have bounds := sound.within entry member
      omega
    · rintro ⟨low, high⟩
      obtain ⟨entry, member, same⟩ := each (ordinal - 1) (by omega)
      refine List.mem_map.mpr ⟨entry, member, ?_⟩
      omega

/-- Ordinals that are those of a whole run are each there once. -/
theorem Sound.of_perm {head : LfnEntry} {rest : List LfnEntry} (alike : Alike head rest)
    (whole : ((head :: rest).map LfnEntry.ordinal).Perm (List.range' 1 head.ordinal))
    : Sound head rest := by
  refine ⟨alike.checksums, fun entry member => ?_, whole.nodup_iff.mpr List.nodup_range'⟩
  have inside := whole.subset (List.mem_map_of_mem member)
  rw [List.mem_range'_1] at inside
  omega

/-- The places of a sound run that has every ordinal are all filled. -/
theorem Assembled.filled {head : LfnEntry} {rest : List LfnEntry} {state : LongName}
    (assembled : Assembled head rest state) (whole : state.broken = false)
    : state.chunks.any Option.isNone = false
      ↔ ∀ k < head.ordinal, ∃ entry ∈ head :: rest, entry.ordinal = k + 1 := by
  rw [List.any_eq_false]
  constructor
  · intro full k below
    have placed := assembled.placed whole k below
    have some_ := full _ (List.mem_of_getElem? placed)
    cases found : (head :: rest).find? fun entry => entry.ordinal == k + 1 with
    | none =>
        rw [found] at some_
        exact absurd rfl some_
    | some entry =>
        have same := List.find?_some found
        exact ⟨entry, List.mem_of_find?_eq_some found, beq_iff_eq.mp same⟩
  · intro each piece member
    obtain ⟨k, below, here⟩ := List.mem_iff_getElem.mp member
    rw [assembled.width] at below
    have placed := assembled.placed whole k below
    obtain ⟨entry, inside, same⟩ := each k below
    cases found : (head :: rest).find? fun entry => entry.ordinal == k + 1 with
    | none => exact absurd (beq_iff_eq.mpr same) (List.find?_eq_none.mp found entry inside)
    | some entry =>
        rw [found, List.getElem?_eq_getElem (by rw [assembled.width]; exact below), here] at placed
        rw [Option.some.inj placed]
        exact Bool.false_ne_true

/-- A run comes to a name exactly where its entries have one checksum and every ordinal once, in
whatever order, and to no whole name otherwise.
-/
theorem Assembled.take_eq {head : LfnEntry} {rest : List LfnEntry} {state : LongName}
    (pos : 1 ≤ head.ordinal) (few : head.ordinal ≤ lfnMaxEntries)
    (assembled : Assembled head rest state)
    : (Alike head rest ∧ ((head :: rest).map LfnEntry.ordinal).Perm (List.range' 1 head.ordinal)
        ∧ state.take = .complete (LongName.trim state.chunks.reduceOption.flatten).1 head.checksum
          (LongName.trim state.chunks.reduceOption.flatten).2)
      ∨ ¬ (Alike head rest
          ∧ ((head :: rest).map LfnEntry.ordinal).Perm (List.range' 1 head.ordinal))
        ∧ state.take = .incomplete := by
  have some_ : state.chunks.isEmpty = false := by
    have width := assembled.width
    cases chunks : state.chunks with
    | nil =>
        rw [chunks, List.length_nil] at width
        omega
    | cons => rfl
  cases broken : state.broken with
  | true =>
      refine .inr ⟨fun ⟨alike, whole⟩ => ?_, by simp [LongName.take, broken]⟩
      rw [assembled.sound.mpr (Sound.of_perm alike whole)] at broken
      cases broken
  | false =>
      have sound := assembled.sound.mp broken
      have alike : Alike head rest := ⟨pos, few, sound.checksums⟩
      have filled := assembled.filled broken
      rw [← sound.perm_iff] at filled
      cases gaps : state.chunks.any Option.isNone with
      | true =>
          refine .inr ⟨fun ⟨_, whole⟩ => ?_, ?_⟩
          · rw [filled.mpr whole] at gaps
            cases gaps
          · simp only [LongName.take, some_, broken, gaps]
            rfl
      | false =>
          refine .inl ⟨alike, filled.mp gaps, ?_⟩
          simp only [LongName.take, some_, broken, gaps, assembled.checksum]
          rfl

/-- What the assembler is to make of a sequence of entries: a whole name exactly where those since
the last one flagged count down to one, and no whole name of every other that is not empty.
-/
def CountsDown (slots : List LfnEntry) : Prop :=
  ((∃ units checksum padded,
      (LongName.clear.feed slots).take = .complete units checksum padded) ↔ InOrder slots)
    ∧ (slots ≠ [] → ¬ InOrder slots → (LongName.clear.feed slots).take = .incomplete)

theorem countsDown_iff (slots : List LfnEntry) : CountsDown slots ↔ ¬ Shuffled slots := by
  cases fed_feed slots with
  | fresh none_ clear =>
      subst none_
      refine ⟨fun _ => ?_, fun _ => ⟨⟨?_, ?_⟩, fun some_ => absurd rfl some_⟩⟩
      · rintro ⟨head, rest, run, -⟩
        cases run
      · rintro ⟨units, checksum, padded, same⟩
        cases same
      · rintro ⟨head, rest, run, -⟩
        cases run
  | ruined some_ unplaced broken bad =>
      have taken : (LongName.clear.feed slots).take = .incomplete := by
        simp [LongName.take, broken]
      refine ⟨fun _ => ?_, fun _ => ⟨⟨?_, ?_⟩, fun _ _ => taken⟩⟩
      · rintro ⟨head, rest, run, alike, -⟩
        exact bad head rest run ⟨alike.pos, alike.few⟩
      · rintro ⟨units, checksum, padded, same⟩
        rw [taken] at same
        cases same
      · rintro ⟨head, rest, run, alike, -⟩
        exact absurd ⟨alike.pos, alike.few⟩ (bad head rest run)
  | running head rest run pos few assembled =>
      have ordered : InOrder slots ↔ Alike head rest
          ∧ (head :: rest).map LfnEntry.ordinal = (List.range' 1 head.ordinal).reverse := by
        constructor
        · rintro ⟨head', rest', run', holds⟩
          obtain ⟨rfl, rfl⟩ := Prod.mk.inj (Option.some.inj (run.symm.trans run'))
          exact holds
        · exact fun holds => ⟨head, rest, run, holds⟩
      have shuffled : Shuffled slots ↔ Alike head rest
          ∧ ((head :: rest).map LfnEntry.ordinal).Perm (List.range' 1 head.ordinal)
          ∧ (head :: rest).map LfnEntry.ordinal ≠ (List.range' 1 head.ordinal).reverse := by
        constructor
        · rintro ⟨head', rest', run', holds⟩
          obtain ⟨rfl, rfl⟩ := Prod.mk.inj (Option.some.inj (run.symm.trans run'))
          exact holds
        · exact fun holds => ⟨head, rest, run, holds⟩
      rw [CountsDown, ordered, shuffled]
      rcases assembled.take_eq pos few with ⟨alike, whole, taken⟩ | ⟨not_, taken⟩
      · -- A whole name: the entries are in order, or the assembler has put them in order.
        rw [taken]
        constructor
        · rintro ⟨holds, -⟩ ⟨-, -, differs⟩
          exact differs (holds.mp ⟨_, _, _, rfl⟩).2
        · intro kept
          have order := not_not.mp fun differs => kept ⟨alike, whole, differs⟩
          exact ⟨⟨fun _ => ⟨alike, order⟩, fun _ => ⟨_, _, _, rfl⟩⟩,
            fun _ wrong => absurd ⟨alike, order⟩ wrong⟩
      · rw [taken]
        have wrong : ¬ (Alike head rest
            ∧ (head :: rest).map LfnEntry.ordinal = (List.range' 1 head.ordinal).reverse) := by
          rintro ⟨alike, order⟩
          refine not_ ⟨alike, ?_⟩
          rw [order]
          exact List.reverse_perm _
        exact ⟨fun _ ⟨alike, whole, _⟩ => not_ ⟨alike, whole⟩,
          fun _ => ⟨⟨nofun, fun holds => absurd holds wrong⟩, fun _ _ => rfl⟩⟩

/-! What a name was written as comes back. -/

/-- The units an entry carries: its chunk's, then a zero and padding where there is room. -/
theorem entryName_eq {chunk : List UInt16} (fits : chunk.length ≤ lfnCharsPerEntry)
    : entryName chunk = chunk ++ if chunk.length < lfnCharsPerEntry
      then 0 :: List.replicate (lfnCharsPerEntry - chunk.length - 1) lfnPadding else [] := by
  refine List.ext_getElem? fun k => ?_
  rw [entryName, List.getElem?_map]
  by_cases inside : k < lfnCharsPerEntry
  · rw [List.getElem?_range inside, Option.map_some]
    by_cases early : k < chunk.length
    · rw [if_pos early, List.getElem?_append_left early, List.getElem?_eq_getElem early]
      rfl
    · rw [if_neg early, List.getElem?_append_right (by omega),
        if_pos (show chunk.length < lfnCharsPerEntry by omega)]
      by_cases last : k = chunk.length
      · rw [if_pos last, last, Nat.sub_self]
        rfl
      · obtain ⟨more, same⟩ : ∃ more, k - chunk.length = more + 1 :=
          ⟨k - chunk.length - 1, by omega⟩
        rw [if_neg last, same, List.getElem?_cons_succ, List.getElem?_replicate, if_pos (by omega)]
  · rw [List.getElem?_eq_none (by rw [List.length_range]; omega), Option.map_none,
      List.getElem?_eq_none]
    rw [List.length_append]
    split
    · rw [List.length_cons, List.length_replicate]
      omega
    · rw [List.length_nil]
      omega

/-- What stands behind the units of a name in its last entry. -/
def filler (length : Nat) : List UInt16 :=
  if length % lfnCharsPerEntry = 0 then []
  else 0 :: List.replicate (lfnCharsPerEntry - length % lfnCharsPerEntry - 1) lfnPadding

/-- The entries of a name carry its units and then the filler, by induction on the pieces. -/
theorem flatten_entryName (fuel : Nat) (units : List UInt16) (enough : units.length ≤ fuel)
    : ((chunksFrom lfnCharsPerEntry fuel units).map entryName).flatten
      = units ++ filler units.length := by
  induction fuel generalizing units with
  | zero =>
      obtain rfl := List.eq_nil_of_length_eq_zero (Nat.le_zero.mp enough)
      rfl
  | succ fuel ih =>
      cases units with
      | nil => rfl
      | cons first rest =>
          have size : lfnCharsPerEntry = 13 := rfl
          rw [chunksFrom, List.map_cons, List.flatten_cons,
            ih _ (by rw [List.length_drop]; simp only [List.length_cons] at enough ⊢; omega),
            entryName_eq (by rw [List.length_take]; exact Nat.min_le_left _ _)]
          by_cases full : lfnCharsPerEntry ≤ (first :: rest).length
          · have whole : ((first :: rest).take lfnCharsPerEntry).length = lfnCharsPerEntry := by
              rw [List.length_take, Nat.min_eq_left full]
            have same : filler ((first :: rest).drop lfnCharsPerEntry).length
                = filler (first :: rest).length := by
              rw [filler, filler, List.length_drop, ← Nat.mod_eq_sub_mod full]
            rw [whole, if_neg (Nat.lt_irrefl _), List.append_nil, same, ← List.append_assoc,
              List.take_append_drop]
          · have short : (first :: rest).length < lfnCharsPerEntry := not_le.mp full
            rw [List.take_of_length_le short.le, List.drop_eq_nil_of_le short.le, if_pos short,
              List.length_nil, filler, if_pos (Nat.zero_mod _), filler, Nat.mod_eq_of_lt short,
              if_neg (by simp)]
            simp

/-- A name is told from what fills its last entry: none of its units ends it. -/
theorem trim_filler {units : List UInt16} (plain : ∀ unit ∈ units, unit ≠ 0 ∧ unit ≠ lfnPadding)
    : LongName.trim (units ++ filler units.length) = (units, true) := by
  have ends : ∀ unit ∈ units, (unit == 0 || unit == lfnPadding) = false := by
    intro unit member
    rw [Bool.or_eq_false_iff]
    have other := plain unit member
    exact ⟨beq_eq_false_iff_ne.mpr other.1, beq_eq_false_iff_ne.mpr other.2⟩
  unfold LongName.trim filler
  by_cases whole : units.length % lfnCharsPerEntry = 0
  · rw [if_pos whole, List.append_nil, List.findIdx?_eq_none_iff.mpr ends]
  · rw [if_neg whole]
    have stop : (units ++ 0 :: List.replicate
        (lfnCharsPerEntry - units.length % lfnCharsPerEntry - 1) lfnPadding).findIdx?
          (fun unit => unit == 0 || unit == lfnPadding) = some units.length := by
      rw [List.findIdx?_append, List.findIdx?_eq_none_iff.mpr ends, List.findIdx?_cons]
      simp
    have past : units.drop (units.length + 1) = [] := List.drop_eq_nil_of_le (by omega)
    rw [stop]
    simp [List.drop_append, past]

/-- The entry written for a chunk. -/
def entryOf (checksum : UInt8) (last i : Nat) (chunk : List UInt16) : LfnEntry where
  order := (UInt8.ofNat i + 1) ||| (if i = last then lfnLastEntry else 0)
  name := entryName chunk
  checksum
  sized := length_entryName chunk

/-- An entry's ordinal is its chunk's place, and the flag is on the last chunk's. -/
theorem entryOf_spec (checksum : UInt8) (chunk : List UInt16) {last i : Nat}
    (few : i < lfnMaxEntries)
    : (entryOf checksum last i chunk).ordinal = i + 1
      ∧ (entryOf checksum last i chunk).isLast = decide (i = last) := by
  have flagged : ∀ i < 20,
      (((UInt8.ofNat i + 1) ||| lfnLastEntry) &&& ~~~lfnLastEntry).toNat = i + 1
        ∧ (((UInt8.ofNat i + 1) ||| lfnLastEntry) &&& lfnLastEntry != 0) = true := by decide
  have plain : ∀ i < 20, (((UInt8.ofNat i + 1) ||| 0) &&& ~~~lfnLastEntry).toNat = i + 1
      ∧ (((UInt8.ofNat i + 1) ||| 0) &&& lfnLastEntry != 0) = false := by decide
  unfold LfnEntry.ordinal LfnEntry.isLast entryOf
  by_cases own : i = last
  · rw [if_pos own, decide_eq_true own]
    exact flagged i few
  · rw [if_neg own, decide_eq_false own]
    exact plain i few

/-- A flagged entry begins the last run where none behind it is flagged. -/
theorem lastRun_cons {head : LfnEntry} {rest : List LfnEntry} (last : head.isLast = true)
    (plain : ∀ entry ∈ rest, entry.isLast = false)
    : lastRun (head :: rest) = some (head, rest) := by
  have onward : ∀ before : List LfnEntry, rest.foldl (fun run entry =>
      if entry.isLast then some (entry, [])
      else run.map fun (head, rest) => (head, rest ++ [entry])) (some (head, before))
        = some (head, before ++ rest) := by
    induction rest with
    | nil => exact fun before => by rw [List.append_nil]; rfl
    | cons entry rest ih =>
        intro before
        rw [List.foldl_cons, plain entry List.mem_cons_self, if_neg Bool.false_ne_true,
          Option.map_some, ih (fun other member => plain other (List.mem_cons_of_mem _ member)),
          List.append_assoc]
        rfl
  rw [lastRun, List.foldl_cons, if_pos last]
  exact onward []

/-- A sequence that begins with a flagged entry is taken alike whatever was held before it. -/
theorem LongName.feed_eq_clear (state : LongName) {head : LfnEntry} {rest : List LfnEntry}
    (last : head.isLast = true) : state.feed (head :: rest) = clear.feed (head :: rest) := by
  have opened : (state.accept head).2 = (clear.accept head).2 := by
    unfold accept
    rw [if_pos last, if_pos last]
    dsimp only
    split <;> rfl
  rw [feed, feed, List.foldl_cons, List.foldl_cons, opened]

/-- The entries written for pieces, the last of which is flagged. -/
def entriesOf (checksum : UInt8) (pieces : List (List UInt16)) : List LfnEntry :=
  pieces.zipIdx.reverse.map fun piece => entryOf checksum (pieces.length - 1) piece.2 piece.1

/-- Written entries are the pieces, counted down. -/
theorem mem_entriesOf {checksum : UInt8} {pieces : List (List UInt16)}
    (few : pieces.length ≤ lfnMaxEntries) {entry : LfnEntry}
    (member : entry ∈ entriesOf checksum pieces)
    : ∃ i piece, pieces[i]? = some piece ∧ i < pieces.length
      ∧ entry = entryOf checksum (pieces.length - 1) i piece ∧ entry.ordinal = i + 1
      ∧ entry.isLast = decide (i = pieces.length - 1) := by
  obtain ⟨⟨piece, i⟩, inside, rfl⟩ := List.mem_map.mp member
  have here := List.mk_mem_zipIdx_iff_getElem?.mp (List.mem_reverse.mp inside)
  have below := (List.getElem?_eq_some_iff.mp here).1
  exact ⟨i, piece, here, below, rfl, entryOf_spec checksum piece (by omega)⟩

theorem ordinals_entriesOf (checksum : UInt8) {pieces : List (List UInt16)}
    (few : pieces.length ≤ lfnMaxEntries)
    : (entriesOf checksum pieces).map LfnEntry.ordinal = (List.range' 1 pieces.length).reverse := by
  have each : ∀ piece ∈ pieces.zipIdx.reverse,
      (entryOf checksum (pieces.length - 1) piece.2 piece.1).ordinal = piece.2 + 1 := by
    intro piece member
    have below := List.snd_lt_of_mem_zipIdx (List.mem_reverse.mp member)
    exact (entryOf_spec checksum piece.1 (by omega)).1
  have counted : pieces.zipIdx.map (fun piece => piece.2 + 1) = List.range' 1 pieces.length := by
    have places := congrArg (List.map (· + 1)) (List.zipIdx_map_snd 0 pieces)
    rw [List.map_map] at places
    rw [List.range'_succ_left]
    exact places
  rw [entriesOf, List.map_map]
  refine (List.map_congr_left each).trans ?_
  rw [List.map_reverse, counted]

/-- What is all there is kept whole, by induction on it. -/
theorem reduceOption_map_some {α β : Type} (f : α → β) (items : List α)
    : (items.map (some ∘ f)).reduceOption = items.map f := by
  induction items with
  | nil => rfl
  | cons item rest ih => exact congrArg (f item :: ·) ih

/-- The assembler makes of written entries the pieces' entries in their order, with their checksum,
whatever it held before.
-/
theorem take_entriesOf {checksum : UInt8} {pieces : List (List UInt16)} (some_ : pieces ≠ [])
    (few : pieces.length ≤ lfnMaxEntries) (state : LongName)
    : (state.feed (entriesOf checksum pieces)).take
      = .complete (LongName.trim (pieces.map entryName).flatten).1 checksum
        (LongName.trim (pieces.map entryName).flatten).2 := by
  have pos : 1 ≤ pieces.length := List.length_pos_iff.mpr some_
  have ordinals := ordinals_entriesOf checksum few
  cases written : entriesOf checksum pieces with
  | nil =>
      rw [written] at ordinals
      have sizes := congrArg List.length ordinals
      simp at sizes
      omega
  | cons head rest =>
      have count : head.ordinal = pieces.length := by
        have first := congrArg List.head? ordinals
        rw [written, List.head?_reverse, List.getLast?_range'] at first
        have same := Option.some.inj (first.trans (if_neg (by omega)))
        omega
      have inside : ∀ entry ∈ head :: rest, entry ∈ entriesOf checksum pieces := fun _ member =>
        written ▸ member
      have last : head.isLast = true := by
        obtain ⟨i, piece, -, -, -, ordinal, flag⟩ :=
          mem_entriesOf few (inside head List.mem_cons_self)
        rw [flag]
        exact decide_eq_true (by omega)
      have nodup : ((head :: rest).map LfnEntry.ordinal).Nodup := by
        rw [← written, ordinals]
        exact (List.reverse_perm _).nodup_iff.mpr List.nodup_range'
      have plain : ∀ entry ∈ rest, entry.isLast = false := by
        intro entry member
        obtain ⟨i, piece, -, -, -, ordinal, flag⟩ :=
          mem_entriesOf few (inside entry (List.mem_cons_of_mem _ member))
        rw [flag]
        refine decide_eq_false fun own => ?_
        refine (List.nodup_cons.mp nodup).1 (List.mem_map.mpr ⟨entry, member, ?_⟩)
        omega
      have sums : ∀ entry ∈ head :: rest, entry.checksum = checksum := by
        intro entry member
        obtain ⟨i, piece, -, -, rfl, -⟩ := mem_entriesOf few (inside entry member)
        rfl
      have run := lastRun_cons last plain
      rw [LongName.feed_eq_clear state last]
      have alike : Alike head rest := ⟨by omega, by omega, fun entry member =>
        (sums entry (List.mem_cons_of_mem _ member)).trans (sums head List.mem_cons_self).symm⟩
      cases fed_feed (head :: rest) with
      | fresh none_ => cases none_
      | ruined _ _ _ bad => exact absurd ⟨alike.pos, alike.few⟩ (bad head rest run)
      | running head' rest' run' pos' few' assembled =>
          obtain ⟨rfl, rfl⟩ := Prod.mk.inj (Option.some.inj (run.symm.trans run'))
          have whole : ((head :: rest).map LfnEntry.ordinal).Perm (List.range' 1 head.ordinal) := by
            rw [← written, ordinals, count]
            exact List.reverse_perm _
          have unbroken := assembled.sound.mpr (Sound.of_perm alike whole)
          have held : (LongName.clear.feed (head :: rest)).chunks
              = pieces.map (some ∘ entryName) := by
            refine List.ext_getElem? fun k => ?_
            rw [List.getElem?_map]
            by_cases below : k < pieces.length
            · have filled := (assembled.filled unbroken).mpr
                ((Sound.of_perm alike whole).perm_iff.mp whole)
              have placed := assembled.placed unbroken k (by omega)
              obtain ⟨entry, member, same⟩ := (assembled.filled unbroken).mp filled k (by omega)
              cases found : (head :: rest).find? fun entry => entry.ordinal == k + 1 with
              | none =>
                  exact absurd (beq_iff_eq.mpr same) (List.find?_eq_none.mp found entry member)
              | some entry =>
                  have ordinal := List.find?_some found
                  obtain ⟨i, piece, here, -, made, place, -⟩ :=
                    mem_entriesOf few (inside entry (List.mem_of_find?_eq_some found))
                  have at_ : i = k := by
                    have := beq_iff_eq.mp ordinal
                    omega
                  rw [placed, found, ← at_, here, made]
                  rfl
            · rw [List.getElem?_eq_none (by rw [assembled.width]; omega),
                List.getElem?_eq_none (by omega)]
              rfl
          have gathered : (pieces.map (some ∘ entryName)).reduceOption = pieces.map entryName :=
            reduceOption_map_some entryName pieces
          rcases assembled.take_eq pos' few' with ⟨-, -, taken⟩ | ⟨not_, -⟩
          · rw [taken, held, gathered, sums head List.mem_cons_self]
          · exact absurd ⟨alike, whole⟩ not_

/-! A name's units. -/

/-- The units of a name the format holds: some, not too many, and none that ends a name. -/
theorem longNameUnits_eq_ok {name : Bytes} {units : List UInt16}
    (held : longNameUnits name = .ok units)
    : ∃ text, Utf.decode name = some text ∧ units = Utf.encodeUtf16 text ∧ text ≠ []
      ∧ units.length ≤ maxNameUnits
      ∧ (∀ ch ∈ text, isReservedNameChar ch = false ∧ ch.toNat ≠ lfnPadding.toNat)
      ∧ text.getLast? ≠ some '.' ∧ text.getLast? ≠ some ' ' := by
  simp only [longNameUnits, Checked.bind_eq_ok, Checked.okOr_eq_ok, Checked.refuseIf_eq_ok] at held
  obtain ⟨text, decoded, -, some_, held⟩ := held
  cases found : text.find? fun ch => isReservedNameChar ch || ch.toNat == lfnPadding.toNat with
  | some ch =>
      rw [found] at held
      cases held
  | none =>
      rw [found] at held
      simp only [Checked.bind_eq_ok, Checked.refuseIf_eq_ok, Bool.or_eq_false_iff,
        beq_eq_false_iff_ne, decide_eq_false_iff_not, not_lt, gt_iff_lt] at held
      obtain ⟨-, ends, -, few, made⟩ := held
      obtain rfl := Except.ok.inj made
      refine ⟨text, decoded, rfl, ?_, few, fun ch member => ?_, ends⟩
      · rintro rfl
        cases some_
      · have good := List.find?_eq_none.mp found ch member
        rw [Bool.not_eq_true, Bool.or_eq_false_iff] at good
        exact ⟨good.1, beq_eq_false_iff_ne.mp good.2⟩

theorem place_eq_ok {self after : DirNames} {name : Bytes} {placed : PlacedName}
    (done : self.place name = .ok (placed, after))
    : ∃ text units, longNameUnits name = .ok units ∧ Utf.decode name = some text
      ∧ placed.long = if render placed.short ≠ text then some units else none := by
  simp only [DirNames.place, Checked.bind_eq_ok, Checked.okOr_eq_ok] at done
  obtain ⟨units, held, text, decoded, made⟩ := done
  refine ⟨text, units, held, decoded, ?_⟩
  split at made <;> obtain ⟨short, -, made⟩ := Checked.bind_eq_ok.mp made <;>
    obtain ⟨rfl, -⟩ := Prod.mk.inj (Except.ok.inj made) <;> rfl

/-- A name's entries are taken to be its units, with its short name's checksum and the padding the
format has.
-/
theorem take_lfnEntries {self after : DirNames} {name : Bytes} {placed : PlacedName}
    {units : List UInt16} (done : self.place name = .ok (placed, after))
    (long : placed.long = some units) (state : LongName)
    : (∃ text, Utf.decode name = some text ∧ units = Utf.encodeUtf16 text)
      ∧ (state.feed placed.lfnEntries).take
        = .complete units (lfnChecksum placed.short) true := by
  obtain ⟨text, units', held, decoded, stored⟩ := place_eq_ok done
  obtain rfl : units' = units := by
    rw [stored] at long
    split at long
    · exact Option.some.inj long
    · cases long
  obtain ⟨text', decoded', rfl, some_, few, plain, -⟩ := longNameUnits_eq_ok held
  have written : placed.lfnEntries = entriesOf (lfnChecksum placed.short)
      (chunks lfnCharsPerEntry (Utf.encodeUtf16 text')) := by
    rw [PlacedName.lfnEntries, long]
    rfl
  have ends : ∀ unit ∈ Utf.encodeUtf16 text', unit ≠ 0 ∧ unit ≠ lfnPadding := by
    intro unit member
    constructor
    · rintro rfl
      obtain ⟨ch, inside, zero⟩ := Utf.mem_encodeUtf16 member (.inl (by decide))
      have reserved := (plain ch inside).1
      rw [isReservedNameChar, zero] at reserved
      revert reserved
      decide
    · rintro rfl
      obtain ⟨ch, inside, same⟩ := Utf.mem_encodeUtf16 member (.inr (by decide))
      exact (plain ch inside).2 same
  have count : (chunks lfnCharsPerEntry (Utf.encodeUtf16 text')).length ≤ lfnMaxEntries := by
    rw [length_chunks (by decide)]
    refine (Arith.divCeil_le_iff (by decide)).mpr (few.trans (by decide))
  have cut : chunks lfnCharsPerEntry (Utf.encodeUtf16 text') ≠ [] := by
    intro none_
    have whole := flatten_chunks (n := lfnCharsPerEntry) (by decide) (Utf.encodeUtf16 text')
    rw [none_] at whole
    cases text' with
    | nil => exact some_ rfl
    | cons ch rest =>
        rw [Utf.encodeUtf16, List.flatMap_cons] at whole
        have empty := (List.append_eq_nil_iff.mp whole.symm).1
        unfold Utf.units at empty
        split at empty <;> cases empty
  refine ⟨⟨text', decoded', rfl⟩, ?_⟩
  rw [written, take_entriesOf cut count]
  have filled := flatten_entryName _ (Utf.encodeUtf16 text') le_rfl
  rw [chunks, filled, trim_filler ends]

/-- Every name placed with a long form is taken back from the entries written for it; and the
assembler makes of a sequence what it is to make of it exactly where the entries since the last one
flagged do not have every ordinal in another order.
-/
theorem longNames_iff (slots : List LfnEntry)
    : (∀ (self after : DirNames) (name : Bytes) (placed : PlacedName) (units : List UInt16)
        (state : LongName), self.place name = .ok (placed, after) → placed.long = some units →
        (∃ text, Utf.decode name = some text ∧ units = Utf.encodeUtf16 text)
        ∧ (state.feed placed.lfnEntries).take = .complete units (lfnChecksum placed.short) true)
      ∧ (CountsDown slots ↔ ¬ Shuffled slots) :=
  ⟨fun _ _ _ _ _ state done long => take_lfnEntries done long state, countsDown_iff slots⟩

/-- An entry of one letter thirteen times. -/
def lettered (order : UInt8) : LfnEntry := ⟨order, List.replicate 13 0x41, 7, rfl⟩

/-- The name field `AB`. -/
def abField : Bytes := [0x41, 0x42, 0x20, 0x20, 0x20, 0x20, 0x20, 0x20, 0x20, 0x20, 0x20]

/-- The name `a b` is taken back from its entry, and two entries counting down are a whole name. -/
theorem longNames_of_spaced
    : (LongName.clear.feed (PlacedName.lfnEntries ⟨abField, some [0x61, 0x20, 0x62]⟩)).take
        = .complete [0x61, 0x20, 0x62] (lfnChecksum abField) true
      ∧ CountsDown [lettered 0x42, lettered 1] := by
  refine ⟨((longNames_iff []).1 .empty ⟨[abField]⟩ [0x61, 0x20, 0x62] _ _ .clear
    (by decide +kernel) rfl).2, (longNames_iff _).2.mpr ?_⟩
  rintro ⟨head, rest, run, -, -, differs⟩
  obtain ⟨rfl, rfl⟩ := Prod.mk.inj (Option.some.inj run)
  exact differs (by decide)

/-- A run flagged at three that goes on with one and then two is taken for a whole name. -/
theorem shuffled_not_countsDown : ¬ CountsDown [lettered 0x43, lettered 1, lettered 2] := by
  rintro ⟨whole, -⟩
  obtain ⟨head, rest, run, -, order⟩ := whole.mp ⟨_, _, _, rfl⟩
  obtain ⟨rfl, rfl⟩ := Prod.mk.inj (Option.some.inj run)
  exact absurd order (by decide)

end Ferrosys.Fat.Name
