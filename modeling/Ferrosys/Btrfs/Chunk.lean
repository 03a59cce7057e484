import Ferrosys.Btrfs.Feature
import Ferrosys.Btrfs.Volume
import Ferrosys.Library.Loop
import Mathlib.Data.List.ReduceOption
import Mathlib.Data.List.TakeWhile

/-! The map from logical addresses to the device as it is built, chunk by chunk: the superblock's
bootstrap array first, and then what the chunk tree says.
-/

namespace Ferrosys.Btrfs

open Splice Checked Loop

/-- Why a chunk is not mapped. -/
inductive ChunkError where
  | parse (error : ParseError)
  | badChunk (logical : Nat) (fault : String)
  | unsupportedProfile (logical : Nat) (flags : FlagWord)
  | chunkOverlap (logical : Nat)
  | badBootstrap (at_ : Nat) (fault : String)
deriving DecidableEq

def ItemType.chunkItem : Nat := 228
def firstChunkTree : Nat := 256

namespace BlockGroupFlags

def raid0 : FlagWord := 1 <<< 3
def raid1 : FlagWord := 1 <<< 4
def raid10 : FlagWord := 1 <<< 6
def raid5 : FlagWord := 1 <<< 7
def raid6 : FlagWord := 1 <<< 8
def raid1c3 : FlagWord := 1 <<< 9
def raid1c4 : FlagWord := 1 <<< 10

def profileMask : FlagWord :=
  raid0 ||| raid1 ||| dup ||| raid10 ||| raid5 ||| raid6 ||| raid1c3 ||| raid1c4

/-- Every stripe of a chunk holds the same bytes. -/
def isMirrored (flags : FlagWord) : Bool :=
  let profile := flags &&& profileMask
  profile == 0 || profile == dup || profile == raid1 || profile == raid1c3 || profile == raid1c4

end BlockGroupFlags

/-- One copy of a chunk, and where it sits. -/
structure Stripe where
  devid : Nat
  offset : Nat
deriving DecidableEq

namespace Stripe

def size : Nat := 32

def readFrom (buf : Bytes) : Except ParseError Stripe :=
  if buf.length < size then .error (.tooShort "btrfs_stripe" size buf.length)
  else .ok ⟨getU64 buf 0, getU64 buf 8⟩

end Stripe

/-- The fixed head of a chunk record: a run of logical space, and how many copies of it follow. -/
structure Chunk where
  length : Nat
  ty : FlagWord
  numStripes : Nat
deriving DecidableEq

namespace Chunk

def size : Nat := 48

def readFrom (buf : Bytes) : Except ParseError Chunk :=
  if buf.length < size then .error (.tooShort "btrfs_chunk" size buf.length)
  else .ok ⟨getU64 buf 0, .ofNat 64 (getU64 buf 24), getU16 buf 44⟩

/-- How many bytes the whole record occupies. -/
def encodedLen (self : Chunk) : Nat := size + self.numStripes * Stripe.size

/-- The stripe at `index` of a record. -/
def stripeAt (self : Chunk) (buf : Bytes) (index : Nat) : Except ParseError Stripe :=
  if self.numStripes ≤ index then .error (.tooShort "btrfs_stripe" self.encodedLen buf.length)
  else
    let at_ := size + index * Stripe.size
    let end_ := at_ + Stripe.size
    if buf.length < end_ then .error (.tooShort "btrfs_stripe" end_ buf.length)
    else Stripe.readFrom (slice buf at_ (end_ - at_))

end Chunk

/-- One call that adds a chunk: the key it was found under, its head, and the record its stripes are
read from.
-/
structure Announced where
  key : DiskKey
  chunk : Chunk
  record : Bytes
deriving DecidableEq

namespace Announced

/-- The copy one stripe places on the device in hand, if it is on that device. -/
def copyAt (self : Announced) (devid deviceBytes index : Nat)
    : Except ChunkError (Option Nat) := do
  let stripe ← (self.chunk.stripeAt self.record index).mapError .parse
  if stripe.devid ≠ devid then return none
  refuseIf (2 ^ 64 ≤ stripe.offset + self.chunk.length
      || deviceBytes < stripe.offset + self.chunk.length)
    (.badChunk self.key.offset "a copy of a chunk is placed past the end of the device")
  return some stripe.offset

/-- The mapping a chunk item describes. -/
def mapped (self : Announced) (devid deviceBytes : Nat) : Except ChunkError MappedChunk := do
  let logical := self.key.offset
  refuseIf (self.key.kind != ItemType.chunkItem || self.key.objectid != firstChunkTree)
    (.badChunk logical
      "a chunk item is keyed by the first-chunk-tree objectid and the chunk type")
  refuseIf (self.chunk.length == 0) (.badChunk logical "a chunk covers no logical space")
  refuseIf (2 ^ 64 ≤ logical + self.chunk.length)
    (.badChunk logical "a chunk's logical run leaves the address space")
  refuseIf (self.chunk.numStripes == 0) (.badChunk logical "a chunk records no copy of itself")
  refuseIf (!BlockGroupFlags.isMirrored self.chunk.ty) (.unsupportedProfile logical self.chunk.ty)
  let copies := (← (List.range self.chunk.numStripes).mapM (self.copyAt devid deviceBytes)).reduceOption
  if some_ : copies ≠ [] then return ⟨logical, self.chunk.length, self.chunk.ty, copies, some_⟩
  else .error (.badChunk logical "no copy of a chunk is on the device this image holds")

end Announced

/-- Add a chunk to a map: the outcome, and the map from then on. A chunk is held apart from its two
neighbours at the place it is inserted.
-/
def insertChunk (devid deviceBytes : Nat) (map : List MappedChunk) (announced : Announced)
    : Except ChunkError Unit × List MappedChunk :=
  match announced.mapped devid deviceBytes with
  | .error error => (.error error, map)
  | .ok mapped =>
      let at_ := (map.takeWhile (·.logical < mapped.logical)).length
      let overlapsBefore := at_ ≠ 0 && map[at_ - 1]?.any (mapped.logical < ·.logicalEnd)
      let overlapsAfter := map[at_]?.any (·.logical < mapped.logical + mapped.length)
      if overlapsBefore || overlapsAfter then (.error (.chunkOverlap mapped.logical), map)
      else (.ok (), map.insertIdx at_ mapped)

/-- The map after a sequence of calls, refused ones among them. -/
def insertAll (devid deviceBytes : Nat) (map : List MappedChunk) (calls : List Announced)
    : List MappedChunk :=
  calls.foldl (fun map announced => (insertChunk devid deviceBytes map announced).2) map

/-- A bootstrap array being loaded: where in it, and the map so far. -/
structure Loading where
  at_ : Nat
  map : List MappedChunk

/-- The pair of a key and a chunk record that a bootstrap array goes on with. -/
def readPair (at_ : Nat) (rest : Bytes) : Except ChunkError Announced := do
  refuseIf (rest.length < DiskKey.size)
    (.badBootstrap at_ "a key runs past the end of the bootstrap array")
  let key ← (DiskKey.readFrom rest).mapError .parse
  let head := rest.drop DiskKey.size
  refuseIf (head.length < Chunk.size)
    (.badBootstrap at_ "a chunk runs past the end of the bootstrap array")
  let chunk ← (Chunk.readFrom head).mapError .parse
  refuseIf (head.length < chunk.encodedLen)
    (.badBootstrap at_ "a chunk's stripes run past the end of the bootstrap array")
  return ⟨key, chunk, head.take chunk.encodedLen⟩

/-- One turn: the end of the array, or one pair added to the map. -/
def loadTurn (devid deviceBytes : Nat) (array : Bytes) (loading : Loading)
    : Next Loading (Except ChunkError (List MappedChunk)) :=
  if loading.at_ < array.length then
    match readPair loading.at_ (array.drop loading.at_) with
    | .error error => .stop (.error error)
    | .ok announced =>
        match insertChunk devid deviceBytes loading.map announced with
        | (.error error, _) => .stop (.error error)
        | (.ok _, map) =>
            .go ⟨loading.at_ + (DiskKey.size + announced.chunk.encodedLen), map⟩
  else if loading.map.isEmpty then
    .stop (.error (.badBootstrap 0
      "the bootstrap array carries no chunk, so no address can be translated"))
  else .stop (.ok loading.map)

/-- A turn that goes on is nearer the array's end. -/
theorem loadTurn_lowers (devid deviceBytes : Nat) (array : Bytes)
    : Lowers (loadTurn devid deviceBytes array) fun loading => array.length - loading.at_ := by
  intro loading next went
  unfold loadTurn at went
  split at went
  next inside =>
    split at went
    · cases went
    · split at went
      · cases went
      · cases went
        change array.length - (loading.at_ + (17 + _)) < array.length - loading.at_
        omega
  next =>
    split at went
    · cases went
    · cases went

/-- Load the chunks a bootstrap array carries. -/
def fromBootstrap (devid deviceBytes : Nat) (array : Bytes)
    : Except ChunkError (List MappedChunk) :=
  total (loadTurn devid deviceBytes array) (fun loading => array.length - loading.at_)
    (loadTurn_lowers devid deviceBytes array) ⟨0, []⟩

/-- What is true of every map: its runs are apart and in order, none is empty or leaves the address
space, and every copy of each is on its device.
-/
structure Sound (deviceBytes : Nat) (map : List MappedChunk) : Prop where
  apart : map.Pairwise fun a b => a.logicalEnd ≤ b.logical
  covers : ∀ chunk ∈ map, 0 < chunk.length
  addressed : ∀ chunk ∈ map, chunk.logicalEnd < 2 ^ 64
  placed : ∀ chunk ∈ map, ∀ copy ∈ chunk.copies, copy + chunk.length ≤ deviceBytes

section

variable {devid deviceBytes : Nat} {map : List MappedChunk}

theorem sound_nil : Sound deviceBytes [] := ⟨List.Pairwise.nil, nofun, nofun, nofun⟩

/-- A chunk that is mapped is the run its key and its head describe, with copies on the device. -/
theorem mapped_eq_ok {announced : Announced} {chunk : MappedChunk}
    (described : announced.mapped devid deviceBytes = .ok chunk)
    : chunk.logical = announced.key.offset ∧ chunk.length = announced.chunk.length
      ∧ Sound deviceBytes [chunk] := by
  simp only [Announced.mapped] at described
  obtain ⟨-, -, described⟩ := bind_eq_ok.mp described
  obtain ⟨_, covers, described⟩ := bind_eq_ok.mp described
  obtain ⟨_, addressed, described⟩ := bind_eq_ok.mp described
  obtain ⟨-, -, described⟩ := bind_eq_ok.mp described
  obtain ⟨-, -, described⟩ := bind_eq_ok.mp described
  obtain ⟨copies, each, described⟩ := bind_eq_ok.mp described
  rw [refuseIf_eq_ok] at covers addressed
  split at described
  next some_ =>
    obtain rfl := Except.ok.inj described
    refine ⟨rfl, rfl, List.pairwise_singleton _ _, ?_, ?_, ?_⟩
    · rintro chunk member
      obtain rfl := List.mem_singleton.mp member
      exact Nat.pos_of_ne_zero (by simpa using covers)
    · rintro chunk member
      obtain rfl := List.mem_singleton.mp member
      exact Nat.not_le.mp (of_decide_eq_false addressed)
    · rintro chunk member copy placed
      obtain rfl := List.mem_singleton.mp member
      obtain ⟨index, -, there⟩ :=
        exists_of_mem_mapM each _ (List.reduceOption_mem_iff.mp placed)
      unfold Announced.copyAt at there
      obtain ⟨stripe, -, there⟩ := bind_eq_ok.mp there
      split at there
      · cases there
      · obtain ⟨_, within, there⟩ := bind_eq_ok.mp there
        rw [refuseIf_eq_ok] at within
        obtain rfl : stripe.offset = copy := Option.some.inj (Except.ok.inj there)
        simp only [Bool.or_eq_false_iff, decide_eq_false_iff_not, Nat.not_lt] at within
        exact within.2
  next => cases described

/-- Inserting at the end of a first part puts an element between the parts, by induction on it. -/
theorem insertIdx_length {α : Type} (front back : List α) (a : α)
    : (front ++ back).insertIdx front.length a = front ++ a :: back := by
  induction front with
  | nil => rfl
  | cons first rest ih =>
      rw [List.cons_append, List.length_cons, List.insertIdx_succ_cons, ih, List.cons_append]

/-- A sound chunk between two parts of a sound map: apart from the last chunk before it and from the
first behind it, it is apart from all.
-/
theorem sound_between {front back : List MappedChunk} {chunk : MappedChunk}
    (sound : Sound deviceBytes (front ++ back)) (own : Sound deviceBytes [chunk])
    (below : ∀ last ∈ front.getLast?, last.logicalEnd ≤ chunk.logical)
    (above : ∀ first ∈ back.head?, chunk.logicalEnd ≤ first.logical)
    : Sound deviceBytes (front ++ chunk :: back) := by
  have split (p : MappedChunk → Prop) (own : p chunk) (rest : ∀ a ∈ front ++ back, p a)
      : ∀ a ∈ front ++ chunk :: back, p a := by
    intro a member
    rcases List.mem_append.mp member with before | member
    · exact rest a (List.mem_append_left _ before)
    · rcases List.mem_cons.mp member with rfl | behind
      · exact own
      · exact rest a (List.mem_append_right _ behind)
  refine ⟨?_, split _ (own.covers chunk List.mem_cons_self) sound.covers,
    split _ (own.addressed chunk List.mem_cons_self) sound.addressed,
    split _ (own.placed chunk List.mem_cons_self) sound.placed⟩
  obtain ⟨frontApart, backApart, across⟩ := List.pairwise_append.mp sound.apart
  have frontBelow : ∀ a ∈ front, a.logicalEnd ≤ chunk.logical := by
    intro a member
    rcases List.eq_nil_or_concat front with rfl | ⟨init, last, rfl⟩
    · cases member
    · rw [List.concat_eq_append] at member frontApart below
      have lastBelow := below last (by simp)
      rcases List.mem_append.mp member with before | here
      · have apart := (List.pairwise_append.mp frontApart).2.2 a before last List.mem_cons_self
        have : last.logical ≤ last.logicalEnd := Nat.le_add_right _ _
        omega
      · obtain rfl := List.mem_singleton.mp here
        exact lastBelow
  have backAbove : ∀ b ∈ back, chunk.logicalEnd ≤ b.logical := by
    intro b member
    cases back with
    | nil => cases member
    | cons first rest =>
        have firstAbove := above first rfl
        rcases List.mem_cons.mp member with rfl | behind
        · exact firstAbove
        · have apart := (List.pairwise_cons.mp backApart).1 b behind
          have : first.logical ≤ first.logicalEnd := Nat.le_add_right _ _
          omega
  refine List.pairwise_append.mpr ⟨frontApart, List.pairwise_cons.mpr ⟨backAbove, backApart⟩, ?_⟩
  intro a before b behind
  rcases List.mem_cons.mp behind with rfl | behind
  · exact frontBelow a before
  · exact across a before b behind

/-- Adding a chunk keeps a map sound. A refused one leaves the map as it was, and one that is added
is all that is new in it.
-/
theorem insertChunk_spec (sound : Sound deviceBytes map) (announced : Announced)
    : Sound deviceBytes (insertChunk devid deviceBytes map announced).2
      ∧ (∀ error, (insertChunk devid deviceBytes map announced).1 = .error error →
        (insertChunk devid deviceBytes map announced).2 = map)
      ∧ ((insertChunk devid deviceBytes map announced).1 = .ok () →
        ∃ chunk, announced.mapped devid deviceBytes = .ok chunk
          ∧ (insertChunk devid deviceBytes map announced).2.Perm (chunk :: map)) := by
  unfold insertChunk
  cases described : announced.mapped devid deviceBytes with
  | error error => exact ⟨sound, fun _ _ => rfl, nofun⟩
  | ok chunk =>
      obtain ⟨-, -, own⟩ := mapped_eq_ok described
      dsimp only
      split
      next => exact ⟨sound, fun _ _ => rfl, nofun⟩
      next free =>
        rw [Bool.or_eq_true, not_or, Bool.not_eq_true, Bool.not_eq_true] at free
        obtain ⟨before, behind⟩ := free
        have parts : map = map.takeWhile (·.logical < chunk.logical)
            ++ map.dropWhile (·.logical < chunk.logical) := List.takeWhile_append_dropWhile.symm
        generalize map.takeWhile (·.logical < chunk.logical) = front at *
        generalize map.dropWhile (·.logical < chunk.logical) = back at *
        subst parts
        rw [insertIdx_length]
        refine ⟨sound_between sound own ?_ ?_, nofun, fun _ => ⟨chunk, rfl, List.perm_middle⟩⟩
        · intro last isLast
          obtain ⟨init, rfl⟩ := List.getLast?_eq_some_iff.mp isLast
          simpa using before
        · intro first isFirst
          obtain ⟨rest, rfl⟩ := List.head?_eq_some_iff.mp isFirst
          simpa [MappedChunk.logicalEnd] using behind

/-- A map stays sound over a sequence of calls, and every chunk it then has is one it had or one a
call described: by induction on the calls.
-/
theorem insertAll_spec (sound : Sound deviceBytes map) (calls : List Announced)
    : Sound deviceBytes (insertAll devid deviceBytes map calls)
      ∧ ∀ chunk ∈ insertAll devid deviceBytes map calls, chunk ∈ map
        ∨ ∃ announced ∈ calls, announced.mapped devid deviceBytes = .ok chunk := by
  induction calls generalizing map with
  | nil => exact ⟨sound, fun chunk member => .inl member⟩
  | cons announced rest ih =>
      obtain ⟨next, refused, added⟩ := @insertChunk_spec devid deviceBytes map sound announced
      obtain ⟨last, all⟩ := ih next
      refine ⟨last, fun chunk member => ?_⟩
      rcases all chunk member with held | ⟨call, listed, described⟩
      · cases outcome : (insertChunk devid deviceBytes map announced).1 with
        | error error => exact .inl (refused error outcome ▸ held)
        | ok =>
            obtain ⟨mapped, described, perm⟩ := added outcome
            rcases List.mem_cons.mp (perm.mem_iff.mp held) with rfl | before
            · exact .inr ⟨announced, List.mem_cons_self, described⟩
            · exact .inl before
      · exact .inr ⟨call, List.mem_cons_of_mem _ listed, described⟩

/-- A chunk covers a run: the address it begins at, and all of it. -/
def Covers (chunk : MappedChunk) (logical len : Nat) : Prop :=
  chunk.logical ≤ logical ∧ logical < chunk.logicalEnd ∧ logical + len ≤ chunk.logicalEnd

/-- Of the chunks of a map the last to begin at or below an address covers it, where one does: those
before it begin below it, and those behind it past the address.
-/
theorem chunkAt_eq_some {map : ChunkMap} {logical : Nat} {chunk : MappedChunk}
    : map.chunkAt logical = some chunk
      ↔ chunk ∈ map.chunks ∧ chunk.logical ≤ logical ∧ logical < chunk.logicalEnd := by
  rw [ChunkMap.chunkAt]
  constructor
  · intro found
    have begin_ (c : MappedChunk) (taken : c ∈ map.chunks.takeWhile (·.logical ≤ logical))
        : c.logical ≤ logical := by
      have holds := List.mem_takeWhile_imp taken
      exact of_decide_eq_true holds
    obtain ⟨behind, parts⟩ := map.chunks.takeWhile_prefix (·.logical ≤ logical)
    generalize map.chunks.takeWhile (·.logical ≤ logical) = front at found begin_ parts
    split at found
    next => cases found
    next some_ =>
      obtain ⟨there, inside⟩ := Option.filter_eq_some_iff.mp found
      refine ⟨List.mem_of_getElem? there, begin_ chunk ?_, of_decide_eq_true inside⟩
      rw [← parts, List.getElem?_append_left (by omega)] at there
      exact List.mem_of_getElem? there
  · rintro ⟨member, begins, inside⟩
    obtain ⟨front, back, split⟩ := List.append_of_mem member
    have apart := map.apart
    rw [split] at apart
    obtain ⟨-, behind, across⟩ := List.pairwise_append.mp apart
    have taken : map.chunks.takeWhile (·.logical ≤ logical) = front ++ [chunk] := by
      rw [split, List.takeWhile_append_of_pos, List.takeWhile_cons, if_pos (decide_eq_true begins)]
      · cases back with
        | nil => rfl
        | cons next rest =>
            have past := (List.pairwise_cons.mp behind).1 next List.mem_cons_self
            rw [List.takeWhile_cons, if_neg]
            simp only [decide_eq_true_eq]
            omega
      · intro earlier before
        have ends := across earlier before chunk List.mem_cons_self
        have : earlier.logical ≤ earlier.logicalEnd := Nat.le_add_right _ _
        simp only [decide_eq_true_eq]
        omega
    rw [taken, List.length_append, List.length_singleton, if_neg (Nat.succ_ne_zero _),
      Nat.add_sub_cancel, split, List.getElem?_append_right (Nat.le_refl _), Nat.sub_self]
    exact Option.filter_eq_some_iff.mpr ⟨rfl, decide_eq_true inside⟩

/-- A run is translated exactly where one chunk covers it, to where each of its copies has it. -/
theorem copiesOf_eq_ok (sound : Sound deviceBytes map) {logical len : Nat} {copies : List Nat}
    : ChunkMap.copiesOf ⟨map, sound.apart⟩ logical len = .ok copies
      ↔ ∃ chunk ∈ map, Covers chunk logical len
        ∧ copies = chunk.copies.map (· + (logical - chunk.logical)) := by
  unfold ChunkMap.copiesOf
  constructor
  · intro mapped
    split at mapped
    next => cases mapped
    next chunk found =>
      obtain ⟨member, begins, inside⟩ := chunkAt_eq_some.mp found
      split at mapped
      next within =>
        refine ⟨chunk, member, ⟨begins, inside, ?_⟩, (Except.ok.inj mapped).symm⟩
        rw [MappedChunk.logicalEnd]
        omega
      next => cases mapped
  · rintro ⟨chunk, member, ⟨begins, inside, within⟩, rfl⟩
    have addressed := sound.addressed chunk member
    rw [chunkAt_eq_some.mpr ⟨member, begins, inside⟩]
    unfold MappedChunk.logicalEnd at within addressed
    exact if_pos ⟨by omega, by omega⟩

/-- A translated run is within its device at each of its copies. -/
theorem Covers.placed (sound : Sound deviceBytes map) {chunk : MappedChunk}
    (member : chunk ∈ map) {logical len : Nat} (covers : Covers chunk logical len)
    : ∀ copy ∈ chunk.copies, copy + (logical - chunk.logical) + len ≤ deviceBytes := by
  intro copy listed
  have placed := sound.placed chunk member copy listed
  obtain ⟨begins, inside, within⟩ := covers
  unfold MappedChunk.logicalEnd at within
  omega

/-- A bootstrap array's bytes are these pairs one after the other, and nothing behind them. -/
inductive Framed : Bytes → List Announced → Prop where
  | nil : Framed [] []
  | cons {array : Bytes} {announced : Announced} {rest : List Announced}
      (key : DiskKey.readFrom array = .ok announced.key)
      (chunk : Chunk.readFrom (array.drop DiskKey.size) = .ok announced.chunk)
      (record : announced.record
        = (array.drop DiskKey.size).take announced.chunk.encodedLen)
      (whole : DiskKey.size + announced.chunk.encodedLen ≤ array.length)
      (behind : Framed (array.drop (DiskKey.size + announced.chunk.encodedLen)) rest)
      : Framed array (announced :: rest)

/-- A pair that is read is the key and the record its bytes begin with, all of it. -/
theorem readPair_eq_ok {at_ : Nat} {array : Bytes} {announced : Announced}
    (read : readPair at_ array = .ok announced)
    : DiskKey.size + announced.chunk.encodedLen ≤ array.length
      ∧ ∀ rest, Framed (array.drop (DiskKey.size + announced.chunk.encodedLen)) rest
        → Framed array (announced :: rest) := by
  unfold readPair at read
  obtain ⟨_, keyed, read⟩ := bind_eq_ok.mp read
  obtain ⟨key, isKey, read⟩ := bind_eq_ok.mp read
  obtain ⟨_, headed, read⟩ := bind_eq_ok.mp read
  obtain ⟨chunk, isChunk, read⟩ := bind_eq_ok.mp read
  obtain ⟨_, held, read⟩ := bind_eq_ok.mp read
  obtain rfl := Except.ok.inj read
  rw [refuseIf_eq_ok, decide_eq_false_iff_not] at keyed held
  rw [List.length_drop] at held
  have whole : DiskKey.size + chunk.encodedLen ≤ array.length := by omega
  exact ⟨whole, fun rest behind =>
    .cons (mapError_eq_ok.mp isKey) (mapError_eq_ok.mp isChunk) rfl whole behind⟩

/-- Loading an array is over within its length, by induction on what is left of it: where it
succeeds, what was left is whole pairs, each added to the map.
-/
theorem loadTurn_total {array : Bytes} {loading : Loading} {last : List MappedChunk}
    (within : loading.at_ ≤ array.length)
    (loaded : total (loadTurn devid deviceBytes array) (fun loading => array.length - loading.at_)
      (loadTurn_lowers devid deviceBytes array) loading = .ok last)
    : last ≠ [] ∧ ∃ calls, Framed (array.drop loading.at_) calls
        ∧ last = insertAll devid deviceBytes loading.map calls := by
  induction left : array.length - loading.at_ using Nat.strongRecOn generalizing loading with
  | _ left_ ih =>
      cases turn : loadTurn devid deviceBytes array loading with
      | stop result =>
          rw [total_of_stop _ turn] at loaded
          subst loaded
          unfold loadTurn at turn
          split at turn
          next inside =>
            split at turn
            · cases turn
            · split at turn <;> cases turn
          next full =>
            split at turn
            next => cases turn
            next some_ =>
              cases turn
              refine ⟨by simpa using some_, [], ?_, rfl⟩
              rw [List.drop_eq_nil_of_le (by omega)]
              exact .nil
      | go next =>
          have lower := loadTurn_lowers devid deviceBytes array loading next turn
          rw [total_of_go _ turn] at loaded
          unfold loadTurn at turn
          split at turn
          next inside =>
            split at turn
            next => cases turn
            next announced read =>
              split at turn
              next => cases turn
              next map added =>
                cases turn
                obtain ⟨whole, frame⟩ := readPair_eq_ok read
                rw [List.length_drop] at whole
                obtain ⟨some_, calls, framed, same⟩ :=
                  ih _ (left ▸ lower) (by dsimp only; omega) loaded rfl
                refine ⟨some_, announced :: calls, frame calls ?_, ?_⟩
                · rw [List.drop_drop]
                  exact framed
                · rw [same, insertAll, insertAll, List.foldl_cons, added]
          next => split at turn <;> cases turn

end

end Ferrosys.Btrfs
