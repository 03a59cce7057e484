import Ferrosys.Ext.Reader.Overlay
import Ferrosys.Ext.Reader.Recover

/-! A recovery installs the replay it planned and the superblock it leaves, or leaves the homes and
the superblock as they were.
-/

namespace Ferrosys.Ext

open Checked Journal Splice

/-- A step that moves a reader's table cache on and changes nothing else of it. -/
def ReadM.MovesCache {α : Type} (step : ReadM α) : Prop :=
  ∀ self : Reader, ∃ cache, (step self).2 = self.withCache cache

namespace ReadM

variable {α β : Type}

theorem movesCache_answer (result : Except ReadError α) : (answer result).MovesCache :=
  fun self => ⟨self.tableCache, rfl⟩

theorem movesCache_throw (error : ReadError) : (throw error : ReadM α).MovesCache :=
  fun self => ⟨self.tableCache, rfl⟩

theorem movesCache_get : (get : ReadM Reader).MovesCache :=
  fun self => ⟨self.tableCache, rfl⟩

theorem movesCache_tableBytes (offset len : Nat)
    : MovesCache (ExceptT.mk fun self => self.tableBytes offset len) :=
  fun self => self.tableBytes_frame offset len

theorem movesCache_relabel {what : String} {index : Nat} {step : ReadM α}
    (moves : step.MovesCache) : (relabel what index step).MovesCache :=
  moves

/-- What two steps one after the other do. -/
theorem bind_run (first : ReadM α) (rest : α → ReadM β) (self : Reader)
    : (first >>= rest) self
      = match first self with
        | (.ok a, after) => rest a after
        | (.error error, after) => (.error error, after) := by
  change ExceptT.bindCont rest (first self).1 (first self).2 = _
  cases first self with
  | mk result after => cases result <;> rfl

theorem get_bind_run (rest : Reader → ReadM β) (self : Reader)
    : ((get : ReadM Reader) >>= rest) self = rest self self := rfl

theorem set_bind_run (next self : Reader) (rest : PUnit → ReadM β)
    : ((set next : ReadM PUnit) >>= rest) self = rest ⟨⟩ next := rfl

theorem answer_bind_run (result : Except ReadError α) (rest : α → ReadM β) (self : Reader)
    : (answer result >>= rest) self
      = match result with
        | .ok a => rest a self
        | .error error => (.error error, self) := by
  cases result <;> rfl

theorem movesCache_bind {first : ReadM α} {rest : α → ReadM β} (moves : first.MovesCache)
    (others : ∀ a, (rest a).MovesCache) : (first >>= rest).MovesCache := by
  intro self
  obtain ⟨cache, moved⟩ := moves self
  rw [bind_run]
  cases ran : first self with
  | mk result after =>
      rw [ran] at moved
      subst moved
      cases result with
      | error error => exact ⟨cache, rfl⟩
      | ok a => exact others a (self.withCache cache)

end ReadM

namespace Reader

open ReadM

theorem groupDescriptorRaw_movesCache (group : Nat) : (groupDescriptorRaw group).MovesCache := by
  refine movesCache_bind movesCache_get fun self => ?_
  dsimp only
  split
  · exact movesCache_throw _
  · split
    · exact movesCache_throw _
    · exact movesCache_relabel (movesCache_tableBytes _ _)

theorem groupDescriptor_movesCache (group : Nat) : (groupDescriptor group).MovesCache :=
  movesCache_bind (groupDescriptorRaw_movesCache group) fun _ =>
    movesCache_bind movesCache_get fun _ => movesCache_answer _

theorem inodeRaw_movesCache (number : Nat) : (inodeRaw number).MovesCache := by
  refine movesCache_bind movesCache_get fun self => ?_
  dsimp only
  split
  · exact movesCache_throw _
  · split
    · exact movesCache_throw _
    · refine movesCache_bind (groupDescriptor_movesCache _) fun desc => ?_
      split
      · exact movesCache_throw _
      · split
        · exact movesCache_throw _
        · exact movesCache_relabel (movesCache_tableBytes _ _)

theorem inode_movesCache (number : Nat) : (inode number).MovesCache :=
  movesCache_bind (inodeRaw_movesCache number) fun _ =>
    movesCache_bind movesCache_get fun _ =>
      movesCache_bind (movesCache_answer _) fun _ => movesCache_answer (.ok _)

/-- Planning reads tables, and does nothing else to the reader. -/
theorem planReplay_movesCache : planReplay.MovesCache := by
  refine movesCache_bind movesCache_get fun self => ?_
  dsimp only
  split
  · exact movesCache_throw _
  · exact movesCache_bind (inode_movesCache _) fun _ =>
      movesCache_bind movesCache_get fun _ =>
        movesCache_bind (movesCache_answer _) fun _ => movesCache_answer _

/-- A reader that has taken the superblock a replay leaves. -/
def withSuperblock (self : Reader) (checked : CheckedSuperblock) (sbBytes : Bytes) : Reader :=
  { self with sb := checked.sb, sbRaw := sbBytes, feature := checked.feature }

/-- What a replay does: it fails with nothing but the cache and the journal changed, or it installs
what it planned and takes the superblock that leaves.
-/
theorem replayJournal_cases (self : Reader)
    : (∃ fault cache journal,
        replayJournal self
          = (.error fault, { self with tableCache := cache, journal := journal }))
      ∨ ∃ copies report skipped checked sbBytes,
        (self.install ⟨copies, .replayed report skipped⟩).replayedSuperblock
          = .ok (checked, sbBytes)
        ∧ replayJournal self
          = (.ok (),
            (self.install ⟨copies, .replayed report skipped⟩).withSuperblock checked sbBytes) := by
  obtain ⟨cache, moved⟩ := planReplay_movesCache self
  unfold replayJournal
  rw [bind_run]
  cases planned : planReplay self with
  | mk result after =>
      rw [planned] at moved
      subst moved
      cases result with
      | error fault => exact .inl ⟨fault, cache, self.journal, rfl⟩
      | ok replay =>
          simp only [get_bind_run, answer_bind_run, set_bind_run]
          generalize List.map _ replay.skipped = skipped
          cases fatalSkip (self.withCache cache).policy skipped with
          | error fault => exact .inl ⟨fault, cache, self.journal, rfl⟩
          | ok allowed =>
              dsimp only
              cases taken : Reader.replayedSuperblock _ with
              | error fault => exact .inl ⟨fault, Ext.tableCache self.blockSize, _, rfl⟩
              | ok superblock => exact .inr ⟨_, _, _, superblock.1, superblock.2, taken, rfl⟩

/-- A failed recovery leaves a reader its source, its superblock and its features, and no block to
lay over the homes.
-/
structure KeepsHomes (before after : Reader) (fault : ReadError) : Prop where
  superblock : after.sb = before.sb ∧ after.sbRaw = before.sbRaw ∧ after.feature = before.feature
  journal : after.journal = some ⟨.empty, .notReplayed fault⟩
  homes : ∀ offset len, after.readAt offset len = before.readHome offset len
  reads : after.ReadsAs before.homeImage

/-- A reader with nothing to lay over its homes reads the homes. -/
theorem keepsHomes_install (self : Reader) (fault : ReadError)
    : self.KeepsHomes (self.install ⟨.empty, .notReplayed fault⟩) fault where
  superblock := ⟨rfl, rfl, rfl⟩
  journal := rfl
  homes offset len := by
    have bare : (self.install ⟨.empty, .notReplayed fault⟩).overlay.entries = [] := rfl
    unfold readAt
    simp only [bare, ne_eq, not_true_eq_false, and_false, if_false]
    exact bind_pure _
  reads :=
    readsAs_recoveredImage _ (cacheSound_of_fresh _ rfl) (by
      intro home copy found
      cases found)

/-- A recovery whose replay failed, whatever it had installed by then. -/
theorem recover_run_of_error {self : Reader} {fault : ReadError} {cache : TableCache}
    {journal : Option Recovery}
    (ran : replayJournal self
      = (.error fault, { self with tableCache := cache, journal := journal }))
    : recover self
      = if self.policy.isFatal fault.severity then
          (.error fault, { self with tableCache := Ext.tableCache self.blockSize, journal := none })
        else (.ok (), self.install ⟨.empty, .notReplayed fault⟩) := by
  unfold recover ExceptT.mk
  dsimp only
  rw [ran]
  rfl

/-- A recovery whose replay went through keeps what it left. -/
theorem recover_run_of_ok {self after : Reader} (ran : replayJournal self = (.ok (), after))
    : recover self = (.ok (), after) := by
  unfold recover ExceptT.mk
  dsimp only
  rw [ran]

/-- A recovery whose replay failed answers the failure where the policy is fatal at it, and leaves
the homes where it is not.
-/
theorem recover_of_error {self : Reader} {fault : ReadError}
    (failed : (replayJournal self).1 = .error fault)
    : if self.policy.isFatal fault.severity then (recover self).1 = .error fault
      else (recover self).1 = .ok () ∧ self.KeepsHomes (recover self).2 fault := by
  rcases self.replayJournal_cases with ⟨same, cache, journal, ran⟩ | ⟨_, _, _, _, _, -, ran⟩
  · rw [ran] at failed
    cases failed
    rw [recover_run_of_error ran]
    split
    · rfl
    · exact ⟨rfl, self.keepsHomes_install fault⟩
  · rw [ran] at failed
    cases failed

/-- A recovery that answers leaves a table cache holding nothing. -/
theorem recover_fresh {self after : Reader} (ran : recover self = (.ok (), after))
    : after.tableCache = Ext.tableCache after.blockSize := by
  rcases self.replayJournal_cases with ⟨fault, cache, journal, failed⟩ | ⟨_, _, _, _, _, -, done⟩
  · rw [recover_run_of_error failed] at ran
    split at ran <;> cases ran
    rfl
  · rw [recover_run_of_ok done] at ran
    cases ran
    rfl

end Reader

/-- An open filesystem's table cache holds nothing yet. -/
theorem openWith_fresh {src : { src : Bytes // src.length < 2 ^ 63 }} {options : OpenOptions}
    {reader : Reader} (opened : openWith src options = .ok reader)
    : reader.tableCache = tableCache reader.blockSize := by
  unfold openWith at opened
  split at opened
  · cases opened
  · split at opened
    · obtain ⟨checked, -, rest⟩ := bind_eq_ok.mp opened
      obtain ⟨-, -, settled⟩ := bind_eq_ok.mp rest
      dsimp only at settled
      split at settled
      · split at settled <;> cases settled
        next recovered => exact Reader.recover_fresh recovered
      · cases settled
        rfl
    · cases opened

/-- Reading through a replayed journal is reading the recovered image, through an opened reader's
table cache as well, and a recovery that fails leaves every read to the homes and the superblock
as it was.
-/
theorem recovery_reads_recovered_image
    : (∀ self : Reader, self.CacheSound → self.LogApart → self.ReadsAs self.recoveredImage)
      ∧ (∀ src options reader, openWith src options = .ok reader → reader.CacheSound)
      ∧ ∀ (self : Reader) (fault : ReadError), (Reader.replayJournal self).1 = .error fault →
        if self.policy.isFatal fault.severity then (Reader.recover self).1 = .error fault
        else
          (Reader.recover self).1 = .ok ()
          ∧ self.KeepsHomes (Reader.recover self).2 fault := by
  refine ⟨?_, ?_, ?_⟩
  · intro self sound apart
    exact self.readsAs_recoveredImage sound apart
  · intro src options reader opened
    exact reader.cacheSound_of_fresh (openWith_fresh opened)
  · intro self fault failed
    exact Reader.recover_of_error failed

/-- A filesystem of four blocks whose journal holds an escaped copy of its second block in its
third.
-/
def replayedReader : Reader where
  src :=
    List.replicate 1024 1 ++ List.replicate 1024 2 ++ (List.replicate 4 0 ++ List.replicate 1020 3)
      ++ List.replicate 1024 4
  base := 0
  sb := ⟨16, 4, 1, 0, 8192, 16, 1, 1, 11, 128, 0, 0, 0, 0, 0, 0, (0, 0)⟩
  sbRaw := []
  feature := ⟨0, 0, 0, 1024, 128⟩
  blockSize := 1024
  policy := .lenient
  maxFileBytes := 0
  tableCache := tableCache 1024
  needsRecovery := true
  stateOnDisk := 1
  journal := some ⟨SortedMaps.SortedMap.empty.insert 1 ⟨2, true⟩, .replayed ⟨1, 1, 0⟩ []⟩
  bounded := by simp only [List.length_append, List.length_replicate]; omega
  based := Nat.zero_le _
  blockSized := le_rfl

theorem replayedReader_overlay {home : Nat} {copy : Journal.Copy}
    (found : replayedReader.overlay.get? home = some copy) : home = 1 ∧ copy = ⟨2, true⟩ := by
  have member := (SortedMaps.SortedMap.mem_entries_iff _).mpr found
  simpa using List.mem_singleton.mp member

/-- A read across the second block's start meets the magic the log had zeroed, and a reader with no
journal of its own reads on from the homes.
-/
theorem recovery_reads_recovered_image_of_four_blocks
    : replayedReader.readAt 1020 8 = .ok [1, 1, 1, 1, 0xc0, 0x3b, 0x39, 0x98]
      ∧ (Reader.recover replayedReader).2.readAt 1020 8 = .ok [1, 1, 1, 1, 2, 2, 2, 2] := by
  have apart : replayedReader.LogApart := by
    intro home copy found
    obtain ⟨rfl, rfl⟩ := replayedReader_overlay found
    rfl
  have inReach : replayedReader.CopiesInReach 1020 8 := by
    intro home copy found _ _
    obtain ⟨rfl, rfl⟩ := replayedReader_overlay found
    decide +kernel
  have sound := replayedReader.cacheSound_of_fresh rfl
  constructor
  · rw [(recovery_reads_recovered_image.1 replayedReader sound apart).reads 1020 8
      (by decide +kernel) inReach]
    decide +kernel
  · have failed : (Reader.replayJournal replayedReader).1
        = .error (.journalUnsupported "a journal on another device") := rfl
    have kept := recovery_reads_recovered_image.2.2 replayedReader _ failed
    have read := kept.2.homes 1020 8
    rw [read]
    decide +kernel

end Ferrosys.Ext
