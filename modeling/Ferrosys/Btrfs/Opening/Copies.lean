import Ferrosys.Btrfs.Opening

/-! Which copy of a superblock an image is opened through and what the others have to be, and which
copy of a tree block a read answers.
-/

namespace Ferrosys.Btrfs

open Splice Checked OrderDual

/-- A copy of the superblock stands at `at_`: the source reaches past it, its checksum covers it,
and it records that place as its own.
-/
structure Verified (src : Bytes) (base at_ : Nat) (record : Record) : Prop where
  addressed : base + at_ < 2 ^ 64
  held : base + at_ + superInfoSize ≤ src.length
  bytes : record.bytes = slice src (base + at_) superInfoSize
  covered : checksumHolds record.bytes record.superblock.csumType = true
  own : record.superblock.bytenr = at_

/-- The verified copy of the highest generation, and of those the one at the earliest place. -/
def Newest (src : Bytes) (base : Nat) (live : Record) : Prop :=
  ∃ place at_ : Nat, mirrors[place]? = some at_ ∧ Verified src base at_ live
    ∧ ∀ (other elsewhere : Nat) (record : Record), mirrors[other]? = some elsewhere →
      Verified src base elsewhere record →
        record.superblock.generation ≤ live.superblock.generation
        ∧ (other < place → record.superblock.generation < live.superblock.generation)

/-- The copy at `at_` is the live one's: of its generation, and the same record. -/
def Agrees (src : Bytes) (base : Nat) (live : Record) (at_ : Nat) : Prop :=
  ∃ record, Verified src base at_ record
    ∧ record.superblock.generation = live.superblock.generation
    ∧ CopyOf record.bytes live.bytes

/-- Every copy the device has room for agrees with the live one. -/
def Agreement (src : Bytes) (base : Nat) (live : Record) : Prop :=
  ∀ at_ ∈ mirrors, holdsMirror live.superblock.devItem.totalBytes at_ = true →
    Agrees src base live at_

theorem readMirror_eq_ok {src : Bytes} {base at_ : Nat} {record : Record}
    : readMirror src base at_ = .ok record ↔ Verified src base at_ record := by
  unfold readMirror
  constructor
  · intro read
    obtain ⟨offset, reached, read⟩ := bind_eq_ok.mp read
    obtain ⟨bytes, held, read⟩ := bind_eq_ok.mp read
    obtain ⟨other, parsed, read⟩ := bind_eq_ok.mp read
    obtain ⟨_, covered, read⟩ := bind_eq_ok.mp read
    obtain ⟨_, own, read⟩ := bind_eq_ok.mp read
    obtain rfl := Except.ok.inj read
    rw [mapError_eq_ok] at held parsed
    rw [Record.parse_eq_ok] at parsed
    unfold offsetOf at reached
    split at reached
    next addressed =>
      obtain rfl := Except.ok.inj reached
      unfold readExactAt at held
      split at held
      next inside =>
        obtain rfl := Except.ok.inj held
        exact ⟨addressed, inside, parsed, by simpa [parsed] using covered, by simpa using own⟩
      next => cases held
    next => cases reached
  · rintro ⟨addressed, held, bytes, covered, own⟩
    have reached : offsetOf base at_ = some (base + at_) := if_pos addressed
    have read : readExactAt src (base + at_) superInfoSize = .ok record.bytes := by
      rw [readExactAt, if_pos held, bytes]
    have parsed : Record.parse record.bytes = .ok record := Record.parse_eq_ok.mpr rfl
    simp [reached, read, parsed, covered, own, okOr, Except.mapError, refuseIf, bind, Except.bind,
      pure, Except.pure]

/-- One place holds one copy. -/
theorem Verified.unique {src : Bytes} {base at_ : Nat} {a b : Record}
    (first : Verified src base at_ a) (second : Verified src base at_ b) : a = b :=
  Except.ok.inj ((readMirror_eq_ok.mpr first).symm.trans (readMirror_eq_ok.mpr second))

/-- The live copy is one. -/
theorem Newest.unique {src : Bytes} {base : Nat} {a b : Record} (first : Newest src base a)
    (second : Newest src base b) : a = b := by
  obtain ⟨i, atI, listedI, verifiedI, aboveI⟩ := first
  obtain ⟨j, atJ, listedJ, verifiedJ, aboveJ⟩ := second
  have forth := aboveI j atJ b listedJ verifiedJ
  have back := aboveJ i atI a listedI verifiedI
  obtain rfl : i = j := by
    rcases Nat.lt_trichotomy i j with before | same | behind
    · have := back.2 before
      omega
    · exact same
    · have := forth.2 behind
      omega
  obtain rfl := Option.some.inj (listedI.symm.trans listedJ)
  exact verifiedI.unique verifiedJ

/-- A candidate is a copy that verified, with its place. -/
theorem mem_candidates {src : Bytes} {base : Nat} {candidate : Nat × Record}
    : candidate ∈ candidates (mirrors.map (readMirror src base))
      ↔ ∃ at_, mirrors[candidate.1]? = some at_ ∧ Verified src base at_ candidate.2 := by
  simp only [candidates, List.mem_filterMap, Prod.exists, List.mk_mem_zipIdx_iff_getElem?,
    List.getElem?_map, Option.map_eq_some_iff]
  constructor
  · rintro ⟨found, place, ⟨at_, listed, read⟩, record, held, rfl⟩
    refine ⟨at_, listed, readMirror_eq_ok.mp ?_⟩
    subst read
    cases read : readMirror src base at_ with
    | error mirror =>
        rw [read] at held
        cases held
    | ok other =>
        rw [read] at held
        rw [Option.some.inj held]
  · rintro ⟨at_, listed, verified⟩
    exact ⟨.ok candidate.2, candidate.1, ⟨at_, listed, readMirror_eq_ok.mpr verified⟩, candidate.2,
      rfl, rfl⟩

/-- A candidate ranks no higher than another where its generation is lower, or the same at a place
no earlier.
-/
theorem rank_le {a b : Nat × Record}
    : rank a ≤ rank b ↔ a.2.superblock.generation < b.2.superblock.generation
      ∨ a.2.superblock.generation = b.2.superblock.generation ∧ b.1 ≤ a.1 := by
  rw [rank, rank, Prod.Lex.le_iff]
  rfl

/-- The live copy is the newest. -/
theorem newest_of_choose {src : Bytes} {base : Nat} {live : Record}
    (chosen : choose (mirrors.map (readMirror src base)) = some live) : Newest src base live := by
  obtain ⟨best, first, rfl⟩ := Option.map_eq_some_iff.mp chosen
  obtain ⟨at_, listed, verified⟩ := mem_candidates.mp (List.argmax_mem first)
  refine ⟨best.1, at_, listed, verified, fun other elsewhere record there reads => ?_⟩
  have member : (other, record) ∈ candidates (mirrors.map (readMirror src base)) :=
    mem_candidates.mpr ⟨elsewhere, there, reads⟩
  have ranked := rank_le.mp (List.le_of_mem_argmax member first)
  dsimp only at ranked
  omega

/-- A copy is chosen where one verifies, and it is the newest. -/
theorem choose_eq_some {src : Bytes} {base : Nat} {live : Record}
    : choose (mirrors.map (readMirror src base)) = some live ↔ Newest src base live := by
  refine ⟨newest_of_choose, fun newest => ?_⟩
  obtain ⟨place, at_, listed, verified, -⟩ := id newest
  have member : (place, live) ∈ candidates (mirrors.map (readMirror src base)) :=
    mem_candidates.mpr ⟨at_, listed, verified⟩
  cases chosen : choose (mirrors.map (readMirror src base)) with
  | none =>
      have none_ := List.argmax_eq_none.mp (Option.map_eq_none_iff.mp chosen)
      rw [none_] at member
      cases member
  | some other => rw [(newest_of_choose chosen).unique newest]

/-- What stands at a place without a copy of the superblock is at fault, whichever it is. -/
theorem fault_of_error {src : Bytes} {base at_ generation : Nat} {mirror : Mirror}
    (read : readMirror src base at_ = .error mirror) : mirror.fault generation ≠ none := by
  unfold readMirror at read
  rcases bind_eq_error.mp read with failed | ⟨offset, -, read⟩
  · cases reached : offsetOf base at_ with
    | none =>
        rw [reached] at failed
        cases failed
        nofun
    | some offset =>
        rw [reached] at failed
        cases failed
  rcases bind_eq_error.mp read with failed | ⟨bytes, -, read⟩
  · obtain ⟨-, -, rfl⟩ := mapError_eq_error.mp failed
    nofun
  rcases bind_eq_error.mp read with failed | ⟨record, -, read⟩
  · obtain ⟨-, -, rfl⟩ := mapError_eq_error.mp failed
    nofun
  rcases bind_eq_error.mp read with failed | ⟨_, -, read⟩
  · obtain ⟨-, rfl⟩ := refuseIf_eq_error.mp failed
    nofun
  rcases bind_eq_error.mp read with failed | ⟨_, -, read⟩
  · obtain ⟨-, rfl⟩ := refuseIf_eq_error.mp failed
    nofun
  · cases read

/-- A strict open has nothing against a copy exactly where the device has no room for it or it
agrees with the live one.
-/
theorem fault_judge {src : Bytes} {base at_ : Nat} {live : Record}
    : (judge live at_ (readMirror src base at_)).fault live.superblock.generation = none
      ↔ (holdsMirror live.superblock.devItem.totalBytes at_ = true → Agrees src base live at_) := by
  unfold judge
  cases holdsMirror live.superblock.devItem.totalBytes at_ with
  | false => simp [Mirror.fault]
  | true =>
      cases read : readMirror src base at_ with
      | error mirror =>
          refine iff_of_false (fault_of_error read) fun agrees => ?_
          obtain ⟨record, verified, -⟩ := agrees rfl
          cases read.symm.trans (readMirror_eq_ok.mpr verified)
      | ok record =>
          have verified := readMirror_eq_ok.mp read
          have agrees : Agrees src base live at_
              ↔ record.superblock.generation = live.superblock.generation
                ∧ CopyOf record.bytes live.bytes := by
            refine ⟨fun agrees => ?_, fun same => ⟨record, verified, same⟩⟩
            obtain ⟨other, there, same⟩ := agrees
            rwa [verified.unique there]
          rw [agrees, ← sameRecord_iff]
          by_cases written : record.superblock.generation = live.superblock.generation
          · cases same : sameRecord record.bytes live.bytes <;> simp [written, same, Mirror.fault]
          · simp [written, Mirror.fault]

/-- Nothing is refused exactly where no copy is at fault; what is refused is a copy that is. -/
theorem refuseFaulty_cases (generation index : Nat) (judged : List (Nat × Mirror))
    : ((∀ entry ∈ judged, entry.2.fault generation = none)
        ∧ refuseFaulty generation index judged = .ok ())
      ∨ ((∃ entry ∈ judged, entry.2.fault generation ≠ none)
        ∧ ∃ mirror at_ fault,
          refuseFaulty generation index judged = .error (.mirrorDisagreement mirror at_ fault)) := by
  induction judged generalizing index with
  | nil => exact .inl ⟨nofun, rfl⟩
  | cons entry rest ih =>
      obtain ⟨at_, state⟩ := entry
      rw [refuseFaulty]
      cases found : state.fault generation with
      | some fault =>
          exact .inr ⟨⟨(at_, state), List.mem_cons_self, by simp [found]⟩, index, at_, fault, rfl⟩
      | none =>
          rcases ih (index + 1) with ⟨clear, passed⟩ | ⟨⟨entry, member, faulty⟩, refused⟩
          · refine .inl ⟨fun entry member => ?_, passed⟩
            rcases List.mem_cons.mp member with rfl | later
            · exact found
            · exact clear entry later
          · exact .inr ⟨⟨entry, List.mem_cons_of_mem _ member, faulty⟩, refused⟩

/-- Every copy is judged, and none is at fault exactly where all agree. -/
theorem agreement_iff {src : Bytes} {base : Nat} {live : Record}
    : Agreement src base live
      ↔ ∀ entry ∈ (mirrors.zip (mirrors.map (readMirror src base))).map
          (fun entry => (entry.1, judge live entry.1 entry.2)),
        entry.2.fault live.superblock.generation = none := by
  rw [← List.map_prod_left_eq_zip, List.map_map]
  simp only [List.forall_mem_map, Function.comp_apply, fault_judge]
  rfl

section

variable {build : Features} {src : Bytes} {base : Nat} {policy : ReadPolicy}

/-- What follows once the live copy is known: whether its filesystem can be read, and what the other
copies have to be.
-/
theorem liveSuperblock_eq {live : Record} (newest : Newest src base live)
    : liveSuperblock build src base policy = do
        (checkReadable build live.superblock).mapError OpenError.unreadable
        let judged := (mirrors.zip (mirrors.map (readMirror src base))).map
          fun entry => (entry.1, judge live entry.1 entry.2)
        checkMirrors policy live.superblock.generation judged
        return (live, judged.map (·.2)) := by
  rw [liveSuperblock, choose_eq_some.mpr newest]
  rfl

/-- What is opened is opened through the newest copy. -/
theorem newest_of_live {opened : Record × List Mirror}
    (found : liveSuperblock build src base policy = .ok opened) : Newest src base opened.1 := by
  unfold liveSuperblock at found
  obtain ⟨live, chosen, found⟩ := bind_eq_ok.mp found
  obtain ⟨_, -, found⟩ := bind_eq_ok.mp found
  obtain ⟨_, -, found⟩ := bind_eq_ok.mp found
  obtain rfl := Except.ok.inj found
  refine choose_eq_some.mp ?_
  cases first : choose (mirrors.map (readMirror src base)) with
  | none =>
      rw [first] at chosen
      cases chosen
  | some other =>
      rw [first] at chosen
      rw [Except.ok.inj chosen]

/-- A copy that is live and readable is refused for the others exactly under a strict read of which
one does not agree.
-/
theorem checkMirrors_cases (policy : ReadPolicy) {live : Record} (newest : Newest src base live)
    (readable : checkReadable build live.superblock = .ok ())
    : ((policy = .strict → Agreement src base live)
        ∧ ∃ found, liveSuperblock build src base policy = .ok (live, found))
      ∨ ((policy = .strict ∧ ¬Agreement src base live)
        ∧ ∃ mirror at_ fault, liveSuperblock build src base policy
          = .error (.mirrorDisagreement mirror at_ fault)) := by
  rw [liveSuperblock_eq newest, readable, agreement_iff]
  generalize (mirrors.zip (mirrors.map (readMirror src base))).map
    (fun entry => (entry.1, judge live entry.1 entry.2)) = judged
  cases policy with
  | lenient => exact .inl ⟨nofun, _, rfl⟩
  | strict =>
      rcases refuseFaulty_cases live.superblock.generation 0 judged with
        ⟨clear, passed⟩ | ⟨⟨entry, member, faulty⟩, mirror, at_, fault, refused⟩
      · exact .inl ⟨fun _ => clear, judged.map (·.2), by
          simp only [checkMirrors, passed]
          rfl⟩
      · exact .inr ⟨⟨rfl, fun clear => faulty (clear entry member)⟩, mirror, at_, fault, by
          simp only [checkMirrors, refused]
          rfl⟩

end

section

variable {src : Bytes} {options : OpenOptions} {sb : SuperBlock} {found : List Mirror}

/-- Reading the address space refuses no copy of the superblock. -/
theorem mount_ne_disagreement {mirror at_ : Nat} {fault : String}
    : mount src options sb found ≠ .error (.mirrorDisagreement mirror at_ fault) := by
  intro refused
  unfold mount at refused
  rcases bind_eq_error.mp refused with failed | ⟨array, -, refused⟩
  · cases bytes : sb.sysChunkBytes <;> rw [bytes] at failed <;> cases failed
  rcases bind_eq_error.mp refused with failed | ⟨bootstrap, -, refused⟩
  · obtain ⟨_, -, same⟩ := mapError_eq_error.mp failed
    cases same
  rcases bind_eq_error.mp refused with failed | ⟨announced, -, refused⟩
  · unfold Volume.chunkItems at failed
    rcases bind_eq_error.mp failed with failed | ⟨gathered, -, failed⟩
    · obtain ⟨_, -, same⟩ := mapError_eq_error.mp failed
      cases same
    · cases refusal : gathered.failure <;> rw [refusal] at failed <;> cases failed
  rcases bind_eq_error.mp refused with failed | ⟨mapping, -, refused⟩
  · obtain ⟨_, -, same⟩ := mapError_eq_error.mp failed
    cases same
  · cases refused

end

end Ferrosys.Btrfs
