import Ferrosys.Ext.Replay.Reference

/-! Planning a replay computes the reference recovery: the walk collects the maximal committed
prefix, and applying it keeps of each home block the last copy that is neither revoked nor
unsound.
-/

namespace Ferrosys.Ext.Journal

open Checked SortedMaps

-----------------------------------------------------------------------------------------
-- Applying the committed transactions
-----------------------------------------------------------------------------------------

/-- The index of the last transaction revoking a block, as the entries of a map. -/
def revocations (committed : List Transaction) : List (Nat × Nat) :=
  committed.zipIdx.flatMap fun (transaction, index) =>
    transaction.revokes.map fun home => (home, index)

theorem revokedBy_eq (committed : List Transaction)
    : revokedBy committed = SortedMap.empty.insertAll (revocations committed) := by
  simp only [revokedBy, revocations, SortedMap.insertAll, List.foldl_flatMap, List.foldl_map]

theorem revocations_concat (committed : List Transaction) (transaction : Transaction)
    : revocations (committed ++ [transaction])
      = revocations committed
        ++ transaction.revokes.map fun home => (home, committed.length) := by
  simp [revocations, List.zipIdx_append]

/-- The last revocation of a block is at or after `index` exactly where a transaction from
there on revokes it, by induction on the transactions from the last.
-/
theorem lastOf_revocations (committed : List Transaction) (index home : Nat)
    : (SortedMap.lastOf (revocations committed) home).any (· ≥ index) = true
      ↔ ∃ transaction ∈ committed.drop index, home ∈ transaction.revokes := by
  induction committed using List.reverseRecOn with
  | nil => simp [revocations]
  | append_singleton committed transaction ih =>
      rw [revocations_concat, SortedMap.lastOf_append, SortedMap.lastOf_map_const,
        List.drop_append]
      by_cases revoking : home ∈ transaction.revokes
      · rw [if_pos revoking, Option.some_or, Option.any_some]
        simp only [ge_iff_le, decide_eq_true_eq]
        constructor
        · intro reached
          refine ⟨transaction, ?_, revoking⟩
          rw [Nat.sub_eq_zero_of_le reached]
          simp
        · rintro ⟨found, member, _⟩
          by_contra past
          rw [List.drop_eq_nil_of_le (by omega), List.nil_append] at member
          rw [List.drop_eq_nil_of_le (by simp; omega)] at member
          cases member
      · rw [if_neg revoking, Option.none_or, ih]
        constructor
        · rintro ⟨found, member, names⟩
          exact ⟨found, List.mem_append_left _ member, names⟩
        · rintro ⟨found, member, names⟩
          rcases List.mem_append.mp member with earlier | last
          · exact ⟨found, earlier, names⟩
          · obtain rfl := List.mem_singleton.mp (List.mem_of_mem_drop last)
            exact absurd names revoking

/-- The planner's test for a revoked copy is the reference's. -/
theorem revokedBy_any (committed : List Transaction) (copy : LoggedCopy)
    : ((revokedBy committed).get? copy.tag.home).any (· ≥ copy.index) = true
      ↔ copy.Revoked committed := by
  rw [revokedBy_eq, SortedMap.get?_insertAll_empty]
  exact lastOf_revocations committed copy.index copy.tag.home

/-- What a verdict adds to a replay. -/
def Replay.record (replay : Replay) : Verdict → Replay
  | .kept home copy => { replay with copies := replay.copies.insert home copy }
  | .skipped copy => { replay with skipped := replay.skipped ++ [copy] }

/-- A tag no record revokes adds its verdict to the replay. -/
theorem applyTag_eq (layout : Layout) (fsBlocks : Nat) (log : Log)
    (committed : List Transaction) (replay : Replay) (copy : LoggedCopy)
    : applyTag layout fsBlocks log (revokedBy committed) copy.index copy.sequence replay copy.tag
      = if copy.Revoked committed then .ok replay
        else (judge layout fsBlocks log copy).map replay.record := by
  unfold applyTag
  by_cases revoked : copy.Revoked committed
  · rw [if_pos ((revokedBy_any committed copy).mpr revoked), if_pos revoked]
  · rw [if_neg (mt (revokedBy_any committed copy).mp revoked), if_neg revoked]
    unfold judge
    cases malformedIf (decide (copy.tag.home ≥ fsBlocks)) copy.tag.at_
        "a copy of a block past the filesystem" with
    | error error => rfl
    | ok _ =>
        simp only [bind, Except.bind]
        by_cases unchecked : layout.checksums = .none
        · simp only [unchecked, ne_eq, not_true_eq_false, if_false, if_true]
          cases log.locate copy.tag.at_ <;> rfl
        · simp only [unchecked, ne_eq, not_false_eq_true, if_true, if_false]
          cases log.read copy.tag.at_ with
          | error error => rfl
          | ok bytes =>
              simp only [Except.map]
              split_ifs
              · cases log.locate copy.tag.at_ <;> rfl
              · rfl

/-- Applying the copies of a list adds the verdicts of those no record revokes, by induction on
the list.
-/
theorem foldlM_applyTag (layout : Layout) (fsBlocks : Nat) (log : Log)
    (committed : List Transaction) (copies : List LoggedCopy) (replay : Replay)
    : copies.foldlM
        (fun replay copy =>
          applyTag layout fsBlocks log (revokedBy committed) copy.index copy.sequence replay
            copy.tag)
        replay
      = ((copies.filter fun copy => ¬ copy.Revoked committed).mapM
          (judge layout fsBlocks log)).map (·.foldl Replay.record replay) := by
  induction copies generalizing replay with
  | nil => rfl
  | cons copy rest ih =>
      rw [List.foldlM_cons, applyTag_eq, List.filter_cons]
      by_cases revoked : copy.Revoked committed
      · simp only [revoked, if_true, not_true_eq_false, decide_false]
        exact ih replay
      · simp only [revoked, if_false, not_false_eq_true, decide_true, if_true, List.mapM_cons]
        cases judge layout fsBlocks log copy with
        | error error => rfl
        | ok verdict =>
            refine (ih (replay.record verdict)).trans ?_
            cases List.mapM (judge layout fsBlocks log)
              (List.filter (fun copy => decide ¬ copy.Revoked committed) rest) <;> rfl

/-- Recorded verdicts insert the copies kept in order, and list those skipped. -/
theorem foldl_record (verdicts : List Verdict) (replay : Replay)
    : verdicts.foldl Replay.record replay
      = {
          copies := replay.copies.insertAll (verdicts.filterMap Verdict.kept?)
          transactions := replay.transactions
          skipped := replay.skipped ++ verdicts.filterMap Verdict.skipped?
        } := by
  induction verdicts generalizing replay with
  | nil => simp [SortedMap.insertAll]
  | cons verdict rest ih =>
      rw [List.foldl_cons, ih]
      cases verdict with
      | kept home copy => rfl
      | skipped copy =>
          simp [Replay.record, Verdict.kept?, Verdict.skipped?, List.filterMap_cons]

theorem foldlM_zipIdx_eq {ε σ : Type} (step : σ → LoggedCopy → Except ε σ)
    (committed : List (Transaction × Nat)) (init : σ)
    : committed.foldlM
        (fun state (transaction, index) =>
          transaction.tags.foldlM
            (fun state tag => step state ⟨index, transaction.sequence, tag⟩) state)
        init
      = (committed.flatMap fun (transaction, index) =>
          transaction.tags.map fun tag => ⟨index, transaction.sequence, tag⟩).foldlM step
          init := by
  induction committed generalizing init with
  | nil => rfl
  | cons first rest ih =>
      rw [List.foldlM_cons, List.flatMap_cons, List.foldlM_append, List.foldlM_map]
      congr 1
      funext state
      exact ih state

/-- Applying the committed transactions recovers what the reference does. -/
theorem recovers_apply (layout : Layout) (fsBlocks : Nat) (log : Log)
    {committed : List Transaction} (few : committed.length ≤ u32Max)
    : Recovers layout fsBlocks log committed (apply layout committed fsBlocks log) := by
  have applied : apply layout committed fsBlocks log
      = (judgeAll layout fsBlocks log committed).map
          (·.foldl Replay.record { Replay.default with transactions := committed.length }) := by
    rw [judgeAll, ← foldlM_applyTag, loggedCopies, ← foldlM_zipIdx_eq, apply,
      Nat.min_eq_left few]
  unfold Recovers
  rw [applied]
  cases judgeAll layout fsBlocks log committed with
  | error error => rfl
  | ok verdicts =>
      refine ⟨_, rfl, ?_⟩
      simp only [foldl_record]
      exact {
        transactions := rfl
        copies := SortedMap.get?_insertAll_empty _
        skipped := List.nil_append _
      }

-----------------------------------------------------------------------------------------
-- The walk
-----------------------------------------------------------------------------------------

section
variable {layout : Layout} {blockSize : Nat} {log : Log} {start : Nat}

theorem Layout.nth_succ (layout : Layout) (start i : Nat)
    : layout.nth start (i + 1) = layout.next (layout.nth start i) :=
  Function.iterate_succ_apply' _ _ _

/-- The walk visits the copies a descriptor named one block each. -/
theorem scanFrom_pending {left i : Nat} {copies : List Named} (current : Transaction)
    (committed : List Transaction)
    : scanFrom layout blockSize log (left + copies.length)
        ⟨layout.nth start i, copies, current, committed⟩
      = scanFrom layout blockSize log left
        ⟨layout.nth start (i + copies.length), [],
          { current with tags := current.tags ++ placed layout start i copies }, committed⟩ := by
  induction copies generalizing i current with
  | nil => simp [placed]
  | cons copy rest ih =>
      obtain ⟨home, escaped, stored⟩ := copy
      rw [List.length_cons, ← Nat.add_assoc, scanFrom]
      simp only
      rw [← layout.nth_succ, ih]
      simp [placed, Nat.add_assoc, Nat.add_comm 1]

/-- One record of the walk, by what the block is to it. -/
theorem scanFrom_record {left i : Nat} (current : Transaction)
    (committed : List Transaction)
    : scanFrom layout blockSize log (left + 1)
        ⟨layout.nth start i, [], current, committed⟩
      = match recordAt layout blockSize log start current.sequence i with
        | .descriptor copies =>
            scanFrom layout blockSize log left
              ⟨layout.nth start (i + 1), copies, current, committed⟩
        | .revoke homes =>
            scanFrom layout blockSize log left
              ⟨layout.nth start (i + 1), [],
                { current with revokes := current.revokes ++ homes }, committed⟩
        | .commit =>
            scanFrom layout blockSize log left
              ⟨layout.nth start (i + 1), [], ⟨(current.sequence + 1) % 2 ^ 32, [], []⟩,
                committed ++ [current]⟩
        | .ended => .ok committed
        | .fault error => .error error := by
  rw [scanFrom, recordAt, layout.nth_succ]
  cases log.read (layout.nth start i) with
  | error error => rfl
  | ok block =>
      simp only [bind, Except.bind]
      split_ifs with unheaded descriptor revoke commit sound
      · rfl
      · simp only [recordOf, if_pos descriptor, bind, Except.bind]
        cases checkTail layout block "journal descriptor" (layout.nth start i) with
        | error error => rfl
        | ok _ => cases tags layout block (layout.nth start i) <;> rfl
      · simp only [recordOf, if_neg descriptor, if_pos revoke, bind, Except.bind]
        cases checkTail layout block "journal revoke block" (layout.nth start i) with
        | error error => rfl
        | ok _ => cases revokes layout block (layout.nth start i) <;> rfl
      · simp only [recordOf, if_neg descriptor, if_neg revoke, if_pos (And.intro commit sound)]
        rfl
      · simp only [recordOf, if_neg descriptor, if_neg revoke,
          if_neg fun both : _ ∧ _ => sound both.2]
        rfl
      · simp only [recordOf, if_neg descriptor, if_neg revoke,
          if_neg fun both : _ ∧ _ => commit both.1]
        rfl

theorem Record.not_continues_of_commit {record : Record} (closed : record = .commit)
    : ¬ record.Continues := by
  rw [closed]
  exact id

theorem Body.le {sequence i j : Nat} {tags : List Tag} {revokes : List Nat}
    (h : Body layout blockSize log start sequence i tags revokes j)
    : i ≤ j := by
  induction h with
  | nil i => exact le_rfl
  | descriptor here later ih => omega
  | revoke here later ih => omega

/-- The records of one transaction may be parsed in two parts. -/
theorem Body.trans {sequence i j k : Nat} {tags tags' : List Tag} {revokes revokes' : List Nat}
    (first : Body layout blockSize log start sequence i tags revokes j)
    (second : Body layout blockSize log start sequence j tags' revokes' k)
    : Body layout blockSize log start sequence i (tags ++ tags') (revokes ++ revokes') k := by
  induction first with
  | nil i => exact second
  | descriptor here later ih =>
      rw [List.append_assoc]
      exact .descriptor here (ih second)
  | revoke here later ih =>
      rw [List.append_assoc]
      exact .revoke here (ih second)

/-- The records of a transaction are parsed one way, up to where no record of it continues. -/
theorem Body.unique {sequence i j j' : Nat} {tags tags' : List Tag}
    {revokes revokes' : List Nat}
    (first : Body layout blockSize log start sequence i tags revokes j)
    (second : Body layout blockSize log start sequence i tags' revokes' j')
    (halts : ¬ (recordAt layout blockSize log start sequence j).Continues)
    (halts' : ¬ (recordAt layout blockSize log start sequence j').Continues)
    : tags = tags' ∧ revokes = revokes' ∧ j = j' := by
  induction first generalizing tags' revokes' with
  | nil i =>
      cases second with
      | nil => exact ⟨rfl, rfl, rfl⟩
      | descriptor here later => exact absurd (here ▸ trivial) halts
      | revoke here later => exact absurd (here ▸ trivial) halts
  | descriptor here later ih =>
      cases second with
      | nil => exact absurd (here ▸ trivial) halts'
      | descriptor here' later' =>
          obtain rfl := Record.descriptor.inj (here.symm.trans here')
          obtain ⟨rfl, rfl, rfl⟩ := ih later' halts
          exact ⟨rfl, rfl, rfl⟩
      | revoke here' later' => cases here.symm.trans here'
  | revoke here later ih =>
      cases second with
      | nil => exact absurd (here ▸ trivial) halts'
      | descriptor here' later' => cases here.symm.trans here'
      | revoke here' later' =>
          obtain rfl := Record.revoke.inj (here.symm.trans here')
          obtain ⟨rfl, rfl, rfl⟩ := ih later' halts
          exact ⟨rfl, rfl, rfl⟩

/-- A further transaction extends a run of committed ones. -/
theorem Committed.concat {sequence i sequence' b c : Nat} {transactions : List Transaction}
    {tags : List Tag} {revokes : List Nat}
    (first : Committed layout blockSize log start sequence i transactions sequence' b)
    (body : Body layout blockSize log start sequence' b tags revokes c)
    (closed : recordAt layout blockSize log start sequence' c = .commit)
    : Committed layout blockSize log start sequence i
        (transactions ++ [⟨sequence', tags, revokes⟩]) ((sequence' + 1) % 2 ^ 32) (c + 1) := by
  induction first with
  | nil sequence i => exact .cons body closed (.nil _ _)
  | cons body' closed' later ih => exact .cons body' closed' (ih body closed)

/-- Each committed transaction takes at least its commit record. -/
theorem Committed.length_le {sequence i sequence' j : Nat} {transactions : List Transaction}
    (h : Committed layout blockSize log start sequence i transactions sequence' j)
    : i + transactions.length ≤ j := by
  induction h with
  | nil sequence i => exact le_rfl
  | cons body closed later ih =>
      have := body.le
      simp only [List.length_cons]
      omega

/-- Where the records after the last committed transaction stop short of a commit, every run
of committed transactions is a prefix of it, by parsing both in step.
-/
theorem Committed.isPrefix {sequence i sequence' j sequence'' b halt : Nat}
    {transactions committed : List Transaction} {tags : List Tag} {revokes : List Nat}
    (h : Committed layout blockSize log start sequence i transactions sequence' j)
    (whole : Committed layout blockSize log start sequence i committed sequence'' b)
    (rest : Body layout blockSize log start sequence'' b tags revokes halt)
    (halts : ¬ (recordAt layout blockSize log start sequence'' halt).Continues)
    (uncommitted : recordAt layout blockSize log start sequence'' halt ≠ .commit)
    : transactions <+: committed := by
  induction h generalizing committed with
  | nil sequence i => exact List.nil_prefix
  | cons body closed later ih =>
      have stops := Record.not_continues_of_commit closed
      cases whole with
      | nil =>
          obtain ⟨-, -, rfl⟩ := body.unique rest stops halts
          exact absurd closed uncommitted
      | cons body' closed' later' =>
          have stops' := Record.not_continues_of_commit closed'
          obtain ⟨rfl, rfl, rfl⟩ := body.unique body' stops stops'
          exact (List.prefix_cons_inj _).mpr (ih later')

theorem WalkEnds.le {sequence i halt : Nat} {fault : Option ReadError}
    (h : WalkEnds layout blockSize log start sequence i halt fault)
    : i ≤ halt := by
  induction h with
  | ended here => exact le_rfl
  | fault here => exact le_rfl
  | descriptor here later ih => omega
  | revoke here later ih => omega
  | commit here later ih => omega

/-- Such a run is the maximal one. -/
theorem Committed.maximal {sequence sequence' b halt : Nat} {committed : List Transaction}
    {tags : List Tag} {revokes : List Nat}
    (whole : Committed layout blockSize log start sequence 0 committed sequence' b)
    (rest : Body layout blockSize log start sequence' b tags revokes halt)
    (halts : ¬ (recordAt layout blockSize log start sequence' halt).Continues)
    (uncommitted : recordAt layout blockSize log start sequence' halt ≠ .commit)
    : MaximalPrefix layout blockSize log start sequence committed :=
  ⟨⟨_, _, whole⟩, fun _ _ _ other => other.isPrefix whole rest halts uncommitted⟩

/-- What the walk has collected where it ends, by induction on its records: the maximal
committed prefix, with the records of a transaction that is not closed behind it.
-/
theorem WalkEnds.scanFrom_eq {origin sequence b i left halt : Nat} {fault : Option ReadError}
    {tags : List Tag} {revokes : List Nat} {committed : List Transaction}
    (ends : WalkEnds layout blockSize log start sequence i halt fault)
    (within : halt < i + left)
    (before : Committed layout blockSize log start origin 0 committed sequence b)
    (body : Body layout blockSize log start sequence b tags revokes i)
    : ∃ committed', MaximalPrefix layout blockSize log start origin committed'
      ∧ committed'.length ≤ halt
      ∧ scanFrom layout blockSize log left
          ⟨layout.nth start i, [], ⟨sequence, tags, revokes⟩, committed⟩
        = unlessFault fault committed' := by
  induction ends generalizing b left tags revokes committed with
  | ended here =>
      obtain ⟨left, rfl⟩ : ∃ left', left = left' + 1 := ⟨left - 1, by omega⟩
      refine ⟨committed, before.maximal body (here ▸ id) (here ▸ nofun), ?_, ?_⟩
      · have := before.length_le.trans body.le
        omega
      · rw [scanFrom_record, here]
        rfl
  | fault here =>
      obtain ⟨left, rfl⟩ : ∃ left', left = left' + 1 := ⟨left - 1, by omega⟩
      refine ⟨committed, before.maximal body (here ▸ id) (here ▸ nofun), ?_, ?_⟩
      · have := before.length_le.trans body.le
        omega
      · rw [scanFrom_record, here]
        rfl
  | @descriptor sequence i copies halt fault here later ih =>
      have reaches := later.le
      obtain ⟨left, rfl⟩ : ∃ left', left = left' + copies.length + 1 :=
        ⟨left - copies.length - 1, by omega⟩
      have extended := body.trans (.descriptor here (.nil _))
      rw [List.append_nil, List.append_nil] at extended
      obtain ⟨committed', maximal, few, collected⟩ :=
        @ih _ left _ _ _ (by omega) before extended
      refine ⟨committed', maximal, few, ?_⟩
      rw [scanFrom_record, here]
      simp only
      rw [scanFrom_pending]
      exact collected
  | @revoke sequence i homes halt fault here later ih =>
      have reaches := later.le
      obtain ⟨left, rfl⟩ : ∃ left', left = left' + 1 := ⟨left - 1, by omega⟩
      have extended := body.trans (.revoke here (.nil _))
      rw [List.append_nil, List.append_nil] at extended
      obtain ⟨committed', maximal, few, collected⟩ := @ih _ left _ _ _ (by omega) before extended
      refine ⟨committed', maximal, few, ?_⟩
      rw [scanFrom_record, here]
      exact collected
  | @commit sequence i halt fault here later ih =>
      have reaches := later.le
      obtain ⟨left, rfl⟩ : ∃ left', left = left' + 1 := ⟨left - 1, by omega⟩
      obtain ⟨committed', maximal, few, collected⟩ :=
        @ih _ left _ _ _ (by omega) (before.concat body here) (.nil _)
      refine ⟨committed', maximal, few, ?_⟩
      rw [scanFrom_record, here]
      exact collected

end

/-- A layout that was read spans a journal of a bounded size. -/
theorem layout_bounds {superblock : Bytes} {blockSize journalBlocks : Nat} {layout : Layout}
    (accepted : Journal.layout superblock blockSize journalBlocks = .ok layout)
    : 0 < layout.first ∧ layout.first < layout.maxLen ∧ layout.maxLen ≤ maxJournalBlocks := by
  unfold Journal.layout malformedIf unsupportedIf at accepted
  simp only [bind_eq_ok, refuseIf_eq_ok] at accepted
  obtain ⟨-, -, -, -, -, -, -, -, -, -, -, -, -, -, -, -, checksums, -, -, -, -, -, -, size, -,
    first, read⟩ := accepted
  simp only [Bool.or_eq_false_iff, decide_eq_false_iff_not, beq_eq_false_iff_ne] at size first
  cases read
  exact ⟨by simp only; omega, by simp only; omega, by simp only; omega⟩

/-- A block of `size` bytes that begins with the given big-endian words. -/
def blockOf (size : Nat) (words : List Nat) : Bytes :=
  words.flatMap toBeBytes32 ++ List.replicate (size - 4 * words.length) 0

/-- A journal of 64 blocks with no checksums, expecting transaction 7 in its first block. -/
def sampleSuperblock : Bytes :=
  blockOf 1024 [jbd2Magic, jbd2SuperblockV2, 0, 1024, 64, 1, 7, 1]

/-- A transaction of two copies, and one that takes the second of them again. -/
def sampleLog : Log where
  locate n := .ok (1000 + n)
  read n :=
    .ok <|
      match n with
      | 1 =>
          blockOf 1024
            [jbd2Magic, blocktypeDescriptor, 7, 500, 0, 0, 0, 0, 0, 501,
              tagSameUuid ||| tagLast]
      | 4 => blockOf 1024 [jbd2Magic, blocktypeCommit, 7]
      | 5 => blockOf 1024 [jbd2Magic, blocktypeDescriptor, 8, 501, tagLast]
      | 7 => blockOf 1024 [jbd2Magic, blocktypeCommit, 8]
      | _ => blockOf 1024 []

/-- The second transaction's copy of block 501 is the one that stays. -/
example
    : (plan sampleSuperblock 1024 (2 ^ 20) 64 sampleLog).toOption.map (·.copies.entries)
      = some [(500, ⟨1002, false⟩), (501, ⟨1006, false⟩)] := by
  decide +kernel

end Ferrosys.Ext.Journal
