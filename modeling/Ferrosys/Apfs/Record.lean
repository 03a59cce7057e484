import Ferrosys.Apfs.Ondisk
import Mathlib.Order.Compare

/-! The keys of a tree's records, and the order each kind of tree keeps them in. -/

namespace Ferrosys.Apfs

open Splice Checked

namespace RecordKind

-- A record's kind: the top four bits of its key's first word.
def snapshotMeta : Nat := 1
def physicalExtent : Nat := 2
def inode : Nat := 3
def xattr : Nat := 4
def siblingLink : Nat := 5
def dataStreamId : Nat := 6
def cryptoState : Nat := 7
def fileExtent : Nat := 8
def dirEntry : Nat := 9
def dirStats : Nat := 10
def siblingMap : Nat := 12

end RecordKind

/-- Where a key's kind begins in its first word. -/
def kindShift : Nat := 60

/-- The first word of a file-system key. -/
structure KeyHeader where
  id : Nat
  kind : Nat
deriving DecidableEq

namespace KeyHeader

def size : Nat := 8

def readFrom (key : Bytes) : Except ParseError KeyHeader := do
  ParseError.need "record key" size key
  let word := getU64 key 0
  return ⟨word % 2 ^ kindShift, word / 2 ^ kindShift⟩

/-- By identifier and then by kind. -/
def cmp (self other : KeyHeader) : Ordering :=
  (compare self.id other.id).then (compare self.kind other.kind)

end KeyHeader

/-- The number in a key at `off`. -/
def keyU64 (key : Bytes) (off : Nat) : Except ParseError Nat := do
  ParseError.need "record key" (off + 8) key
  return getU64 key off

/-- A name stored with its terminating NUL. -/
def stored (structure_ : String) (name : Bytes) : Except ParseError Bytes :=
  if name.getLast? = some 0 then .ok name.dropLast else .error (.unterminated structure_)

/-- The name in an attribute's key. -/
def xattrName (key : Bytes) : Except ParseError Bytes := do
  ParseError.need "attribute key" 10 key
  let len := getU16 key 8
  ParseError.need "attribute name" (10 + len) key
  stored "attribute name" (slice key 10 len)

/-- A directory entry's key: the hash of the name, as stored, and the name. -/
structure EntryKey where
  hash : Nat
  name : Bytes
deriving DecidableEq

def EntryKey.readFrom (key : Bytes) : Except ParseError EntryKey := do
  ParseError.need "directory entry key" 12 key
  let word := getU32 key 8
  let len := word % 2 ^ 10
  ParseError.need "directory entry name" (12 + len) key
  let name ← stored "directory entry name" (slice key 12 len)
  return ⟨word / 2 ^ 10, name⟩

/-- A free queue's key: the transaction that freed a run, and the run's first block. -/
structure FreeQueueKey where
  xid : Nat
  address : Nat
deriving DecidableEq

namespace FreeQueueKey

def size : Nat := 16

def readFrom (buf : Bytes) : Except ParseError FreeQueueKey := do
  ParseError.need "free queue key" size buf
  return ⟨getU64 buf 0, getU64 buf 8⟩

/-- By transaction and then by address. -/
def cmp (self other : FreeQueueKey) : Ordering :=
  (compare self.xid other.xid).then (compare self.address other.address)

end FreeQueueKey

/-- Two keys of one identifier and this kind, compared by the kind's own third part. -/
def compareThird (kind : Nat) (a b : Bytes) : Except ParseError (Option Ordering) :=
  if kind = RecordKind.fileExtent ∨ kind = RecordKind.siblingLink then do
    return some (compare (← keyU64 a 8) (← keyU64 b 8))
  else if kind = RecordKind.xattr then do
    return some (compare (← xattrName a) (← xattrName b))
  else if kind = RecordKind.dirEntry then do
    let ea ← EntryKey.readFrom a
    let eb ← EntryKey.readFrom b
    return some ((compare ea.hash eb.hash).then (compare ea.name eb.name))
  else if kind ∈ [RecordKind.inode, RecordKind.dataStreamId, RecordKind.cryptoState,
      RecordKind.dirStats, RecordKind.siblingMap, RecordKind.snapshotMeta,
      RecordKind.physicalExtent] then
    .ok (some .eq)
  -- no order is held for the other kinds: two of their keys are the same or differ
  else .ok (if a.drop 8 = b.drop 8 then some .eq else none)

/-- Two file-system keys compared, or none for two that differ in a part no order is held for. -/
def compareRecords (a b : Bytes) : Except ParseError (Option Ordering) := do
  let ha ← KeyHeader.readFrom a
  let hb ← KeyHeader.readFrom b
  let first := ha.cmp hb
  if first ≠ .eq then return some first
  compareThird ha.kind a b

/-- The transaction a snapshot of an object map is kept under. -/
def transactionOf (key : Bytes) : Except ParseError Nat := keyU64 key 0

/-- How a tree's keys are ordered, which is a property of what it holds. -/
inductive Order where
  | objectMap
  | fileSystem
  | freeQueue
  | transaction
deriving DecidableEq

/-- Two keys compared by what they are read as. -/
def compareBy {α : Type} (readFrom : Bytes → Except ParseError α) (cmp : α → α → Ordering)
    (a b : Bytes) : Except ParseError (Option Ordering) := do
  return some (cmp (← readFrom a) (← readFrom b))

/-- Two keys of a tree of this order compared, or none where no order is held for them. -/
def Order.compare (self : Order) (a b : Bytes) : Except ParseError (Option Ordering) :=
  match self with
  | .objectMap => compareBy MapKey.readFrom MapKey.cmp a b
  | .fileSystem => compareRecords a b
  | .freeQueue => compareBy FreeQueueKey.readFrom FreeQueueKey.cmp a b
  | .transaction => compareBy transactionOf Ord.compare a b

/-- Whether two keys compared so may stand one before the other: before it, or only apart. -/
def mayPrecede (compared : Option Ordering) : Bool := compared = some .lt || compared = none

/-- A key of a tree of this order reads. -/
def Order.Reads (self : Order) (key : Bytes) : Prop :=
  match self with
  | .objectMap => ∃ read, MapKey.readFrom key = .ok read
  | .fileSystem => ∃ header, KeyHeader.readFrom key = .ok header
  | .freeQueue => ∃ read, FreeQueueKey.readFrom key = .ok read
  | .transaction => ∃ xid, transactionOf key = .ok xid

/-- Two keys of a file-system tree are of one identifier and one kind: their third parts order
them.
-/
def Order.Shares (self : Order) (a b : Bytes) : Prop :=
  self = .fileSystem
  ∧ ∃ header, KeyHeader.readFrom a = .ok header ∧ KeyHeader.readFrom b = .ok header

/-- Whether `a` may come before `b` in a tree of this order. -/
def Order.Before (self : Order) (a b : Bytes) : Prop :=
  ∃ compared, self.compare a b = .ok compared ∧ mayPrecede compared

/-- Whether an order is held for two keys of one identifier and this kind. -/
def holdsOrder (kind : Nat) : Bool :=
  kind ∈ [RecordKind.fileExtent, RecordKind.siblingLink, RecordKind.xattr, RecordKind.dirEntry,
    RecordKind.inode, RecordKind.dataStreamId, RecordKind.cryptoState, RecordKind.dirStats,
    RecordKind.siblingMap, RecordKind.snapshotMeta, RecordKind.physicalExtent]

section Third

/-- The third part of a key of this kind, as a number and a name of which a kind has one, both or
neither.
-/
def third (kind : Nat) (key : Bytes) : Except ParseError (Nat × Bytes) :=
  if kind = RecordKind.fileExtent ∨ kind = RecordKind.siblingLink then do
    return (← keyU64 key 8, [])
  else if kind = RecordKind.xattr then do return (0, ← xattrName key)
  else if kind = RecordKind.dirEntry then do
    let entry ← EntryKey.readFrom key
    return (entry.hash, entry.name)
  else .ok (0, [])

/-- By the number and then by the name. -/
def cmpThird : Nat × Bytes → Nat × Bytes → Ordering :=
  compareLex (compareOn Prod.fst) (compareOn Prod.snd)

instance : Std.TransCmp cmpThird := inferInstanceAs (Std.TransCmp (compareLex _ _))

instance : Std.TransCmp KeyHeader.cmp :=
  inferInstanceAs (Std.TransCmp (compareLex (compareOn KeyHeader.id) (compareOn KeyHeader.kind)))

instance : Std.TransCmp MapKey.cmp :=
  inferInstanceAs (Std.TransCmp (compareLex (compareOn MapKey.oid) (compareOn MapKey.xid)))

instance : Std.TransCmp FreeQueueKey.cmp :=
  inferInstanceAs
    (Std.TransCmp (compareLex (compareOn FreeQueueKey.xid) (compareOn FreeQueueKey.address)))

/-- A kind an order is held for is compared by its third part. -/
theorem compareThird_held {kind : Nat} (held : holdsOrder kind) (a b : Bytes)
    : compareThird kind a b = compareBy (third kind) cmpThird a b := by
  by_cases number : kind = RecordKind.fileExtent ∨ kind = RecordKind.siblingLink
  · simp only [compareThird, compareBy, third, if_pos number]
    cases keyU64 a 8 with
    | error error => rfl
    | ok x =>
        cases keyU64 b 8 with
        | error error => rfl
        | ok y => simp [cmpThird, compareLex, compareOn, ok_bind, pure, Except.pure]
  · simp only [compareThird, compareBy, third, if_neg number]
    by_cases name : kind = RecordKind.xattr
    · simp only [if_pos name]
      cases xattrName a with
      | error error => rfl
      | ok x => cases xattrName b <;> rfl
    · simp only [if_neg name]
      by_cases entry : kind = RecordKind.dirEntry
      · simp only [if_pos entry]
        cases EntryKey.readFrom a with
        | error error => rfl
        | ok x => cases EntryKey.readFrom b <;> rfl
      · simp only [if_neg entry]
        rw [if_pos]
        · rfl
        · rw [not_or] at number
          simpa [holdsOrder, number, name, entry] using held

/-- A kind no order is held for has its keys told apart and no more. -/
theorem compareThird_unheld {kind : Nat} (unheld : holdsOrder kind = false) (a b : Bytes)
    : compareThird kind a b = .ok (if a.drop 8 = b.drop 8 then some .eq else none) := by
  simp only [holdsOrder, List.mem_cons, List.not_mem_nil, or_false, decide_eq_false_iff_not,
    not_or] at unheld
  obtain ⟨extent, link, name, entry, rest⟩ := unheld
  simp only [compareThird, List.mem_cons, List.not_mem_nil, or_false]
  rw [if_neg (not_or.mpr ⟨extent, link⟩), if_neg name, if_neg entry, if_neg]
  simpa only [not_or] using rest

end Third

section Keyed

variable {α : Type} {readFrom : Bytes → Except ParseError α} {cmp : α → α → Ordering}
  {a b c k : Bytes} {compared : Option Ordering}

theorem compareBy_eq_ok (read : compareBy readFrom cmp a b = .ok compared)
    : ∃ x y, readFrom a = .ok x ∧ readFrom b = .ok y ∧ compared = some (cmp x y) := by
  obtain ⟨x, readX, read⟩ := bind_eq_ok.mp read
  obtain ⟨y, readY, read⟩ := bind_eq_ok.mp read
  exact ⟨x, y, readX, readY, (Except.ok.inj read).symm⟩

theorem compareBy_may (read : compareBy readFrom cmp a b = .ok compared)
    (may : mayPrecede compared) : compareBy readFrom cmp a b = .ok (some .lt) := by
  obtain ⟨x, y, -, -, rfl⟩ := compareBy_eq_ok read
  have before : cmp x y = .lt := by simpa [mayPrecede] using may
  rw [read, before]

theorem compareBy_trans [Std.TransCmp cmp] (first : compareBy readFrom cmp a b = .ok (some .lt))
    (second : compareBy readFrom cmp b c = .ok (some .lt))
    : compareBy readFrom cmp a c = .ok (some .lt) := by
  obtain ⟨x, y, readX, readY, before⟩ := compareBy_eq_ok first
  obtain ⟨y', z, readY', readZ, later⟩ := compareBy_eq_ok second
  obtain rfl := Except.ok.inj (readY.symm.trans readY')
  have passed := Std.TransCmp.lt_trans (Option.some.inj before).symm (Option.some.inj later).symm
  rw [compareBy, readX, readZ, ok_bind, ok_bind, passed]
  rfl

/-- Where a key is compared with two of which one is before the other, it is after the first if it
is not before the second.
-/
theorem compareBy_cut [Std.TransCmp cmp] {above below : Ordering}
    (ab : compareBy readFrom cmp a b = .ok compared) (may : mayPrecede compared)
    (bk : compareBy readFrom cmp b k = .ok (some above))
    (ak : compareBy readFrom cmp a k = .ok (some below)) (upper : above ≠ .gt) : below = .lt := by
  obtain ⟨x, y, readX, readY, rfl⟩ := compareBy_eq_ok ab
  obtain ⟨y', z, readY', readZ, second⟩ := compareBy_eq_ok bk
  obtain ⟨x', z', readX', readZ', first⟩ := compareBy_eq_ok ak
  obtain rfl := Except.ok.inj (readY.symm.trans readY')
  obtain rfl := Except.ok.inj (readX.symm.trans readX')
  obtain rfl := Except.ok.inj (readZ.symm.trans readZ')
  obtain rfl := Option.some.inj second
  obtain rfl := Option.some.inj first
  have before : cmp x y = .lt := by simpa [mayPrecede] using may
  exact Std.TransCmp.lt_of_lt_of_isLE before (by simpa [Ordering.isLE_iff_ne_gt] using upper)

end Keyed

section Precedence

/-- Two headers that compare equal are one. -/
theorem KeyHeader.eq_of_cmp {a b : KeyHeader} (same : a.cmp b = .eq) : a = b := by
  obtain ⟨id, kind⟩ := Ordering.then_eq_eq.mp same
  obtain ⟨i, k⟩ := a
  obtain ⟨j, l⟩ := b
  have := Std.LawfulEqCmp.eq_of_compare id
  have := Std.LawfulEqCmp.eq_of_compare kind
  simp_all

theorem KeyHeader.cmp_self (a : KeyHeader) : a.cmp a = .eq := Std.ReflCmp.compare_self

/-- What two compared file-system keys are to each other. -/
theorem compareRecords_eq {a b : Bytes} {ha hb : KeyHeader} (left : KeyHeader.readFrom a = .ok ha)
    (right : KeyHeader.readFrom b = .ok hb)
    : compareRecords a b
      = if ha.cmp hb = .eq then compareThird ha.kind a b else .ok (some (ha.cmp hb)) := by
  simp only [compareRecords, left, right, ok_bind]
  split <;> simp_all [pure, Except.pure]

/-- Both keys of a comparison have headers. -/
theorem headers_of_compareRecords {a b : Bytes} {compared : Option Ordering}
    (read : compareRecords a b = .ok compared)
    : ∃ ha hb, KeyHeader.readFrom a = .ok ha ∧ KeyHeader.readFrom b = .ok hb := by
  obtain ⟨ha, left, read⟩ := bind_eq_ok.mp read
  obtain ⟨hb, right, -⟩ := bind_eq_ok.mp read
  exact ⟨ha, hb, left, right⟩

/-- Keys that compare read. -/
theorem Order.reads_of_compare {order : Order} {a b : Bytes} {compared : Option Ordering}
    (read : order.compare a b = .ok compared) : order.Reads a ∧ order.Reads b := by
  cases order with
  | fileSystem =>
      obtain ⟨ha, hb, left, right⟩ := headers_of_compareRecords read
      exact ⟨⟨ha, left⟩, ⟨hb, right⟩⟩
  | objectMap =>
      obtain ⟨x, y, left, right, -⟩ := @compareBy_eq_ok _ MapKey.readFrom _ _ _ _ read
      exact ⟨⟨x, left⟩, ⟨y, right⟩⟩
  | freeQueue =>
      obtain ⟨x, y, left, right, -⟩ := @compareBy_eq_ok _ FreeQueueKey.readFrom _ _ _ _ read
      exact ⟨⟨x, left⟩, ⟨y, right⟩⟩
  | transaction =>
      obtain ⟨x, y, left, right, -⟩ := @compareBy_eq_ok _ transactionOf _ _ _ _ read
      exact ⟨⟨x, left⟩, ⟨y, right⟩⟩

/-- Keys that read compare, in a tree where their third parts do not come into it. -/
theorem Order.compare_of_reads {order : Order} {a b : Bytes} (left : order.Reads a)
    (right : order.Reads b) (apart : ¬ order.Shares a b)
    : ∃ found, order.compare a b = .ok (some found) := by
  cases order
  all_goals
    obtain ⟨x, left⟩ := left
    obtain ⟨y, right⟩ := right
  case fileSystem =>
      refine ⟨x.cmp y, (compareRecords_eq left right).trans (if_neg fun same => ?_)⟩
      obtain rfl := KeyHeader.eq_of_cmp same
      exact apart ⟨rfl, x, left, right⟩
  case objectMap => exact ⟨x.cmp y, by rw [compare, compareBy, left, right]; rfl⟩
  case freeQueue => exact ⟨x.cmp y, by rw [compare, compareBy, left, right]; rfl⟩
  case transaction => exact ⟨Ord.compare x y, by rw [compare, compareBy, left, right]; rfl⟩

/-- One file-system key is before another: by its header, or under one header by its third part,
where an order is held for the kind.
-/
def RecordPrecedes (a b : Bytes) : Prop :=
  ∃ ha hb, KeyHeader.readFrom a = .ok ha ∧ KeyHeader.readFrom b = .ok hb
    ∧ (ha.cmp hb = .lt
      ∨ ha = hb
        ∧ (holdsOrder ha.kind →
          ∃ x y, third ha.kind a = .ok x ∧ third ha.kind b = .ok y ∧ cmpThird x y = .lt))

/-- A key that may come before another is before it. -/
theorem RecordPrecedes.of_compareRecords {a b : Bytes} {compared : Option Ordering}
    (read : compareRecords a b = .ok compared) (may : mayPrecede compared) : RecordPrecedes a b := by
  obtain ⟨ha, hb, left, right⟩ := headers_of_compareRecords read
  refine ⟨ha, hb, left, right, ?_⟩
  rw [compareRecords_eq left right] at read
  split at read
  next same =>
    obtain rfl := KeyHeader.eq_of_cmp same
    refine .inr ⟨rfl, fun held => ?_⟩
    rw [compareThird_held held] at read
    obtain ⟨x, y, readX, readY, rfl⟩ := compareBy_eq_ok read
    exact ⟨x, y, readX, readY, by simpa [mayPrecede] using may⟩
  next =>
    obtain rfl := Except.ok.inj read
    exact .inl (by simpa [mayPrecede] using may)

theorem RecordPrecedes.trans {a b c : Bytes} (first : RecordPrecedes a b)
    (second : RecordPrecedes b c) : RecordPrecedes a c := by
  obtain ⟨ha, hb, readA, readB, first⟩ := first
  obtain ⟨hb', hc, readB', readC, second⟩ := second
  obtain rfl := Except.ok.inj (readB.symm.trans readB')
  refine ⟨ha, hc, readA, readC, ?_⟩
  rcases first with before | ⟨rfl, first⟩
  · rcases second with later | ⟨rfl, -⟩
    · exact .inl (Std.TransCmp.lt_trans before later)
    · exact .inl before
  · rcases second with later | ⟨rfl, second⟩
    · exact .inl later
    · refine .inr ⟨rfl, fun held => ?_⟩
      obtain ⟨x, y, readX, readY, before⟩ := first held
      obtain ⟨y', z, readY', readZ, later⟩ := second held
      obtain rfl := Except.ok.inj (readY.symm.trans readY')
      exact ⟨x, z, readX, readZ, Std.TransCmp.lt_trans before later⟩

/-- A key before another compares below it, but under one header of a kind no order is held for. -/
theorem RecordPrecedes.compareRecords {a b : Bytes} (precedes : RecordPrecedes a b)
    : compareRecords a b = .ok (some .lt)
      ∨ ∃ header, KeyHeader.readFrom a = .ok header ∧ KeyHeader.readFrom b = .ok header
        ∧ holdsOrder header.kind = false := by
  obtain ⟨ha, hb, left, right, before | ⟨rfl, third⟩⟩ := precedes
  · refine .inl ?_
    rw [compareRecords_eq left right, before]
    rfl
  · cases held : holdsOrder ha.kind with
    | false => exact .inr ⟨ha, left, right, held⟩
    | true =>
        obtain ⟨x, y, readX, readY, before⟩ := third held
        refine .inl ?_
        rw [compareRecords_eq left right, if_pos (KeyHeader.cmp_self ha), compareThird_held held,
          compareBy, readX, readY, ok_bind, ok_bind, before]
        rfl

/-- Where a key is compared with two of which one may come before the other, it is after the first
if it is not before the second.
-/
theorem compareRecords_cut {a b k : Bytes} {compared : Option Ordering} {above : Ordering}
    {below : Ordering} (ab : compareRecords a b = .ok compared) (may : mayPrecede compared)
    (bk : compareRecords b k = .ok (some above)) (ak : compareRecords a k = .ok (some below))
    (upper : above ≠ .gt) : below = .lt := by
  obtain ⟨ha, hb, readA, readB⟩ := headers_of_compareRecords ab
  obtain ⟨-, hk, -, readK⟩ := headers_of_compareRecords bk
  rw [compareRecords_eq readA readB] at ab
  rw [compareRecords_eq readB readK] at bk
  rw [compareRecords_eq readA readK] at ak
  by_cases apart : hb.cmp hk = .eq
  · obtain rfl := KeyHeader.eq_of_cmp apart
    by_cases same : ha.cmp hb = .eq
    · obtain rfl := KeyHeader.eq_of_cmp same
      simp only [KeyHeader.cmp_self, if_true] at ab bk ak
      cases held : holdsOrder ha.kind with
      | true =>
          rw [compareThird_held held] at ab bk ak
          exact compareBy_cut ab may bk ak upper
      | false =>
          -- both keys are the one compared with, so they do not differ
          rw [compareThird_unheld held, Except.ok.injEq] at ab bk ak
          split at bk
          next second =>
            split at ak
            next first =>
              rw [if_pos (first.trans second.symm)] at ab
              subst ab
              cases may
            next => cases ak
          next => cases bk
    · rw [if_neg same] at ab ak
      obtain rfl := Except.ok.inj ab
      obtain rfl := Option.some.inj (Except.ok.inj ak)
      simpa [mayPrecede] using may
  · rw [if_neg apart] at bk
    obtain rfl := Option.some.inj (Except.ok.inj bk)
    have later : hb.cmp hk = .lt := by
      cases found : hb.cmp hk <;> simp_all
    have before : ha.cmp hk = .lt := by
      by_cases same : ha.cmp hb = .eq
      · obtain rfl := KeyHeader.eq_of_cmp same
        exact later
      · rw [if_neg same] at ab
        obtain rfl := Except.ok.inj ab
        exact Std.TransCmp.lt_trans (by simpa [mayPrecede] using may) later
    rw [before, if_neg (by decide)] at ak
    exact (Option.some.inj (Except.ok.inj ak)).symm

/-- One key of a tree of this order is before another, as far as an order is held for the two. -/
def Order.Precedes (self : Order) (a b : Bytes) : Prop :=
  match self with
  | .fileSystem => RecordPrecedes a b
  | order => order.compare a b = .ok (some .lt)

/-- A key that may come before another is before it. -/
theorem Order.Before.precedes {order : Order} {a b : Bytes} (before : order.Before a b)
    : order.Precedes a b := by
  obtain ⟨compared, read, may⟩ := before
  cases order with
  | fileSystem => exact .of_compareRecords read may
  | objectMap => exact @compareBy_may _ MapKey.readFrom _ _ _ _ read may
  | freeQueue => exact @compareBy_may _ FreeQueueKey.readFrom _ _ _ _ read may
  | transaction => exact @compareBy_may _ transactionOf _ _ _ _ read may

theorem Order.Precedes.trans {order : Order} {a b c : Bytes} (first : order.Precedes a b)
    (second : order.Precedes b c) : order.Precedes a c := by
  cases order with
  | fileSystem => exact RecordPrecedes.trans first second
  | objectMap => exact @compareBy_trans _ MapKey.readFrom MapKey.cmp _ _ _ _ first second
  | freeQueue => exact @compareBy_trans _ FreeQueueKey.readFrom FreeQueueKey.cmp _ _ _ _ first second
  | transaction => exact @compareBy_trans _ transactionOf Ord.compare _ _ _ _ first second

/-- Where a key is compared with two of which one may come before the other, it is after the first
if it is not before the second.
-/
theorem Order.cut {order : Order} {a b k : Bytes} {above below : Ordering}
    (ab : order.Before a b) (bk : order.compare b k = .ok (some above))
    (ak : order.compare a k = .ok (some below)) (upper : above ≠ .gt) : below = .lt := by
  obtain ⟨compared, read, may⟩ := ab
  cases order with
  | fileSystem => exact compareRecords_cut read may bk ak upper
  | objectMap => exact @compareBy_cut _ MapKey.readFrom _ _ _ _ _ _ _ _ read may bk ak upper
  | freeQueue => exact @compareBy_cut _ FreeQueueKey.readFrom _ _ _ _ _ _ _ _ read may bk ak upper
  | transaction => exact @compareBy_cut _ transactionOf _ _ _ _ _ _ _ _ read may bk ak upper

end Precedence

end Ferrosys.Apfs
