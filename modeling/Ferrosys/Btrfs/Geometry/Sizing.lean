import Ferrosys.Btrfs.Geometry
import Mathlib.Algebra.Order.BigOperators.Group.List

/-! How long the planned chunks are and how many of them there are: each is a whole number of
stripes, all of them fit the device with the reserved head, and what is kept of a kind covers what
was asked of it.
-/

namespace Ferrosys.Btrfs

open Arith Checked Machine

variable {kind : FlagWord} {profile : Profile} {volume : Nat}

theorem roundDown_le (value unit : Nat) : roundDown value unit ≤ value := Nat.sub_le _ _

theorem dvd_roundDown (value unit : Nat) : unit ∣ roundDown value unit :=
  Nat.dvd_sub_mod value

/-- Rounding down stays above every whole number of units below. -/
theorem le_roundDown {least value unit : Nat} (whole : unit ∣ least) (le : least ≤ value)
    : least ≤ roundDown value unit := by
  obtain ⟨count, rfl⟩ := whole
  have floor : unit * count ≤ unit * (value / unit) := by
    rcases Nat.eq_zero_or_pos unit with rfl | pos
    · simp
    · exact Nat.mul_le_mul_left _ ((Nat.le_div_iff_mul_le pos).mpr (by rwa [Nat.mul_comm]))
  have split := Nat.div_add_mod value unit
  unfold roundDown
  omega

/-- What bounds the length of a chunk, whatever it holds. -/
structure LengthRule.Bounded (rule : LengthRule) : Prop where
  preferred : rule.preferred ≤ 2 ^ 30
  most : rule.minLength ≤ 2 ^ 30
  least : 2 ^ 20 ≤ rule.minLength
  whole : stripeLen ∣ rule.minLength

instance (rule : LengthRule) : Decidable rule.Bounded :=
  decidable_of_iff (rule.preferred ≤ 2 ^ 30 ∧ rule.minLength ≤ 2 ^ 30 ∧ 2 ^ 20 ≤ rule.minLength
      ∧ stripeLen ∣ rule.minLength)
    ⟨fun h => ⟨h.1, h.2.1, h.2.2.1, h.2.2.2⟩, fun h => ⟨h.1, h.2, h.3, h.4⟩⟩

/-- Every rule is bounded, by its branches. -/
theorem lengthRule_bounded : (lengthRule kind profile volume).Bounded := by
  cases profile with
  | single => exact (by decide : LengthRule.generic.Bounded)
  | dup =>
      unfold lengthRule
      split_ifs <;> decide

/-- Capping a preferred length does not raise it. -/
theorem capped_le (most preferred : Nat)
    : (if most < preferred then roundDown (most / profile.copies) stripeLen else preferred)
      ≤ preferred := by
  split
  next above =>
    exact ((roundDown_le _ _).trans (Nat.div_le_self _ _)).trans (Nat.le_of_lt above)
  next => exact le_rfl

/-- A chunk is a whole number of stripes, a mebibyte at least and a gibibyte at most. -/
theorem chunkLength_bounds
    : 2 ^ 20 ≤ chunkLength kind profile volume ∧ chunkLength kind profile volume ≤ 2 ^ 30
      ∧ stripeLen ∣ chunkLength kind profile volume := by
  obtain ⟨preferred, most, least, whole⟩ := @lengthRule_bounded kind profile volume
  unfold chunkLength
  generalize lengthRule kind profile volume = rule at *
  dsimp only
  generalize (if volume / volumeShare < rule.maxLength then volume / volumeShare
    else rule.maxLength) = cap
  have capped := (@capped_le profile cap rule.preferred).trans preferred
  generalize (if cap < rule.preferred then roundDown (cap / profile.copies) stripeLen
    else rule.preferred) = length at *
  refine ⟨le_trans least (le_roundDown whole ?_), (roundDown_le _ _).trans ?_,
    dvd_roundDown _ _⟩
  · split
    next => exact le_rfl
    next enough => exact not_lt.mp enough
  · split
    next => exact most
    next => exact capped

/-- What every pending chunk is: of one of the three kinds, a whole number of stripes, and no
longer than a gibibyte.
-/
structure Pending.Sound (entry : Pending) : Prop where
  kind : entry.kind ∈ [BlockGroupFlags.system, BlockGroupFlags.metadata, BlockGroupFlags.data]
  least : 2 ^ 20 ≤ entry.length
  most : entry.length ≤ 2 ^ 30
  whole : stripeLen ∣ entry.length

/-- A chunk of the length its rule gives it is sound. -/
theorem Pending.sound_of_chunkLength {keep : Bool}
    (known : kind ∈ [BlockGroupFlags.system, BlockGroupFlags.metadata, BlockGroupFlags.data])
    : Pending.Sound ⟨kind, profile, chunkLength kind profile volume, keep⟩ :=
  ⟨known, chunkLength_bounds.1, chunkLength_bounds.2.1, chunkLength_bounds.2.2⟩

theorem Profile.copies_pos (profile : Profile) : 0 < profile.copies := by
  cases profile <;> decide

theorem Profile.copies_le (profile : Profile) : profile.copies ≤ 2 := by
  cases profile <;> decide

/-- Bytes of the device a pending chunk takes. -/
def Pending.span (entry : Pending) : Nat := entry.length * entry.profile.copies

theorem Pending.length_le_span (entry : Pending) : entry.length ≤ entry.span :=
  Nat.le_mul_of_pos_right _ entry.profile.copies_pos

theorem Pending.Sound.span_le {entry : Pending} (sound : entry.Sound) : entry.span ≤ 2 ^ 31 :=
  Nat.mul_le_mul sound.most entry.profile.copies_le

/-- Bytes of the device pending chunks take. -/
def spanBytes (pending : List Pending) : Nat := (pending.map Pending.span).sum

/-- Bytes of a kind that pending chunks keep. -/
def keptBytes (pending : List Pending) (kind : FlagWord) : Nat :=
  ((pending.filter fun entry => entry.keep && entry.kind.contains kind).map (·.length)).sum

@[simp] theorem spanBytes_append (first second : List Pending)
    : spanBytes (first ++ second) = spanBytes first + spanBytes second := by
  simp [spanBytes]

@[simp] theorem spanBytes_replicate (count : Nat) (entry : Pending)
    : spanBytes (List.replicate count entry) = count * entry.span := by
  simp [spanBytes]

@[simp] theorem keptBytes_append (first second : List Pending)
    : keptBytes (first ++ second) kind = keptBytes first kind + keptBytes second kind := by
  simp [keptBytes]

/-- What is kept of a kind takes no more than the device space of all, by induction on the
chunks.
-/
theorem keptBytes_le_spanBytes (pending : List Pending)
    : keptBytes pending kind ≤ spanBytes pending := by
  induction pending with
  | nil => exact le_rfl
  | cons entry rest ih =>
      have here := entry.length_le_span
      simp only [keptBytes, spanBytes, List.filter_cons, List.map_cons, List.sum_cons] at ih ⊢
      split
      · simp only [List.map_cons, List.sum_cons]
        omega
      · omega

/-- The chunks a filesystem begins with are sound. -/
theorem firstChunks_sound (request : PlanRequest) : ∀ entry ∈ firstChunks request, entry.Sound := by
  have bootstrap (keep : Bool)
      : Pending.Sound ⟨BlockGroupFlags.system, .single, bootstrapSystemChunk, keep⟩ :=
    ⟨List.mem_cons_self, by dsimp only; decide, by dsimp only; decide, by dsimp only; decide⟩
  intro entry member
  unfold firstChunks at member
  simp only [List.mem_append, List.mem_cons, List.not_mem_nil, or_false] at member
  rcases member with (first | replaced) | replaced
  · rcases first with rfl | rfl | rfl
    · exact bootstrap _
    all_goals exact Pending.sound_of_chunkLength (by decide)
  · split at replaced
    · cases replaced
    · simp only [List.mem_cons, List.not_mem_nil, or_false] at replaced
      rcases replaced with rfl | rfl
      all_goals exact Pending.sound_of_chunkLength (by decide)
  · split at replaced
    · cases replaced
    · obtain rfl := List.mem_singleton.mp replaced
      exact Pending.sound_of_chunkLength (by decide)

theorem firstChunks_length_le (request : PlanRequest) : (firstChunks request).length ≤ 6 := by
  unfold firstChunks
  cases request.metadataProfile <;> cases request.dataProfile <;> simp

/-- They take little of the device. -/
theorem spanBytes_firstChunks_le (request : PlanRequest)
    : spanBytes (firstChunks request) ≤ 6 * 2 ^ 31 := by
  have each : ∀ bytes ∈ (firstChunks request).map Pending.span, bytes ≤ 2 ^ 31 := by
    intro bytes member
    obtain ⟨entry, among, rfl⟩ := List.mem_map.mp member
    exact (firstChunks_sound request entry among).span_le
  refine (List.sum_le_card_nsmul _ _ each).trans ?_
  rw [List.length_map, Nat.nsmul_eq_mul]
  exact Nat.mul_le_mul_right _ (firstChunks_length_le request)

variable {build : Build} {request : PlanRequest} {metadataBytes : Nat} {lost : Lost}

theorem held_firstChunks
    : held build (firstChunks request) kind = .ok (keptBytes (firstChunks request) kind) :=
  sum_of_lt (((keptBytes_le_spanBytes _).trans (spanBytes_firstChunks_le request)).trans_lt
    (by decide))

theorem mapM_span_firstChunks
    : ((firstChunks request).mapM fun entry => mul build entry.length entry.profile.copies)
      = (.ok ((firstChunks request).map Pending.span) : Planned _) :=
  mapM_eq_ok fun entry among =>
    mul_of_lt ((firstChunks_sound request entry among).span_le.trans_lt (by decide))

theorem sum_span_firstChunks
    : sum build ((firstChunks request).map Pending.span)
      = (.ok (spanBytes (firstChunks request)) : Planned _) :=
  sum_of_lt ((spanBytes_firstChunks_le request).trans_lt (by decide))

theorem mul_chunkLength
    : mul build (chunkLength kind profile volume) profile.copies
      = (.ok (chunkLength kind profile volume * profile.copies) : Planned _) :=
  mul_of_lt ((Nat.mul_le_mul chunkLength_bounds.2.1 profile.copies_le).trans_lt (by decide))

theorem shortfall_chunkLength {needed held : Nat}
    : shortfall needed held (chunkLength kind profile volume)
      = .ok (divCeil (needed - held) (chunkLength kind profile volume)) := by
  have pos : 0 < chunkLength kind profile volume :=
    Nat.lt_of_lt_of_le (by decide) chunkLength_bounds.1
  unfold shortfall
  split
  next => exact ceilDiv_of_pos pos
  next covered =>
    rw [Nat.sub_eq_zero_of_le (not_lt.mp covered), divCeil,
      Nat.div_eq_of_lt (by omega)]

theorem add_span_firstChunks
    : add build (spanBytes (firstChunks request)) reservedHead
      = (.ok (spanBytes (firstChunks request) + reservedHead) : Planned _) :=
  add_of_lt (by
    have := spanBytes_firstChunks_le request
    unfold reservedHead
    omega)

/-- How many chunks are counted does not depend on the build: none of the sums can overflow
unnoticed.
-/
theorem pendingChunks_build
    : pendingChunks build request metadataBytes lost
      = pendingChunks .checked request metadataBytes lost := by
  simp only [pendingChunks, neededBytes, held_firstChunks, mapM_span_firstChunks,
    sum_span_firstChunks, mul_chunkLength, shortfall_chunkLength, add_span_firstChunks, ok_bind]

/-- What the counted chunks come to. -/
structure Counted (request : PlanRequest) (metadataBytes : Nat) (lost : Lost)
    (pending : List Pending) : Prop where
  sound : ∀ entry ∈ pending, entry.Sound
  room : spanBytes pending + reservedHead ≤ request.volume
  metadata : metadataBytes + lost.metadata ≤ keptBytes pending BlockGroupFlags.metadata
  data : request.content.dataBytes.toNat + lost.data ≤ keptBytes pending BlockGroupFlags.data

/-- What is kept of a kind, with enough further chunks of it to cover what was asked. -/
theorem le_keptBytes_of_divCeil {needed : Nat} {pending : List Pending}
    (known : kind.contains kind)
    : needed ≤ keptBytes pending kind + keptBytes
        (List.replicate (divCeil (needed - keptBytes pending kind) (chunkLength kind profile volume))
          ⟨kind, profile, chunkLength kind profile volume, true⟩) kind := by
  have pos : 0 < chunkLength kind profile volume :=
    Nat.lt_of_lt_of_le (by decide) chunkLength_bounds.1
  have covered := @le_divCeil_mul (needed - keptBytes pending kind) _ pos
  generalize divCeil _ _ = count at *
  have all : keptBytes
      (List.replicate count ⟨kind, profile, chunkLength kind profile volume, true⟩) kind
      = count * chunkLength kind profile volume := by
    simp [keptBytes, known]
  omega

/-- The device space that is compared with the volume is that of all the chunks. -/
theorem le_volume_of_neededBytes {extraMetadata extraData placed : Nat} {needed : Option Nat}
    {meta_ dat : FlagWord}
    (small : placed ≤ 6 * 2 ^ 31)
    (answered : neededBytes build request extraMetadata
        (chunkLength meta_ request.metadataProfile volume) extraData
        (chunkLength dat request.dataProfile volume) placed = .ok needed)
    (fits : needed.any (· ≤ request.volume))
    : extraMetadata * (chunkLength meta_ request.metadataProfile volume
        * request.metadataProfile.copies)
      + extraData * (chunkLength dat request.dataProfile volume * request.dataProfile.copies)
      + (placed + reservedHead) ≤ request.volume := by
  have headed : add build placed reservedHead = (.ok (placed + reservedHead) : Planned _) :=
    add_of_lt (by unfold reservedHead; omega)
  simp only [neededBytes, mul_chunkLength, headed, ok_bind] at answered
  obtain ⟨total, some_, within⟩ := (Option.any_eq_true _ _).mp fits
  obtain rfl := some_
  split at answered
  next bytes first =>
    split at answered
    next more second =>
      split at answered
      next both third =>
        obtain ⟨-, rfl⟩ := checkedMul_eq_some.mp first
        obtain ⟨-, rfl⟩ := checkedMul_eq_some.mp second
        obtain ⟨-, rfl⟩ := checkedAdd_eq_some.mp third
        obtain ⟨-, rfl⟩ := checkedAdd_eq_some.mp (Except.ok.inj answered)
        exact of_decide_eq_true within
      next => cases Except.ok.inj answered
    next => cases Except.ok.inj answered
  next => cases Except.ok.inj answered

/-- The counted chunks fit the device, and cover what was asked of each kind with what it gives
up.
-/
theorem Counted.of_pendingChunks {pending : List Pending}
    (counted : pendingChunks build request metadataBytes lost = .ok pending)
    : Counted request metadataBytes lost pending := by
  simp only [pendingChunks, held_firstChunks, mapM_span_firstChunks, sum_span_firstChunks,
    shortfall_chunkLength, ok_bind] at counted
  obtain ⟨needed, answered, later⟩ := bind_eq_ok.mp counted
  obtain ⟨⟨⟩, fits, same⟩ := bind_eq_ok.mp later
  obtain rfl := Except.ok.inj same
  clear counted later same
  have room := le_volume_of_neededBytes (spanBytes_firstChunks_le request) answered
    (by simpa [Machine.refuseIf] using fits)
  have small : request.volume ≤ wordMax := Nat.le_of_lt_succ request.volumeBytes.toNat_lt
  have metadata := @le_keptBytes_of_divCeil BlockGroupFlags.metadata request.metadataProfile
    request.volume (satAdd metadataBytes lost.metadata) (firstChunks request) (by decide)
  have data := @le_keptBytes_of_divCeil BlockGroupFlags.data request.dataProfile
    request.volume (satAdd request.content.dataBytes.toNat lost.data) (firstChunks request)
    (by decide)
  generalize divCeil (satAdd metadataBytes lost.metadata - _) _ = extraMetadata at *
  generalize divCeil (satAdd _ lost.data - _) _ = extraData at *
  generalize extended : firstChunks request
      ++ List.replicate extraMetadata ⟨BlockGroupFlags.metadata, request.metadataProfile,
          chunkLength BlockGroupFlags.metadata request.metadataProfile request.volume, true⟩
      ++ List.replicate extraData ⟨BlockGroupFlags.data, request.dataProfile,
          chunkLength BlockGroupFlags.data request.dataProfile request.volume, true⟩ = pending
  have within : spanBytes pending + reservedHead ≤ request.volume := by
    rw [← extended]
    simp only [spanBytes_append, spanBytes_replicate, Pending.span]
    omega
  have kept (kind : FlagWord) : keptBytes pending kind < wordMax := by
    have := @keptBytes_le_spanBytes kind pending
    unfold reservedHead at within
    omega
  have covers (kind : FlagWord) : keptBytes pending kind
      = keptBytes (firstChunks request) kind
        + keptBytes (List.replicate extraMetadata ⟨BlockGroupFlags.metadata,
            request.metadataProfile,
            chunkLength BlockGroupFlags.metadata request.metadataProfile request.volume, true⟩) kind
        + keptBytes (List.replicate extraData ⟨BlockGroupFlags.data, request.dataProfile,
            chunkLength BlockGroupFlags.data request.dataProfile request.volume, true⟩) kind := by
    rw [← extended]
    simp only [keptBytes_append]
  constructor
  · intro entry member
    rw [← extended] at member
    simp only [List.mem_append, List.mem_replicate] at member
    rcases member with (first | ⟨-, rfl⟩) | ⟨-, rfl⟩
    · exact firstChunks_sound request entry first
    all_goals exact Pending.sound_of_chunkLength (by decide)
  · exact within
  · refine add_le_of_satAdd_le ?_ (kept _)
    have := covers BlockGroupFlags.metadata
    omega
  · refine add_le_of_satAdd_le ?_ (kept _)
    have := covers BlockGroupFlags.data
    omega

end Ferrosys.Btrfs
