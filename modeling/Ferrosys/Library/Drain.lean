import Ferrosys.Library.Loop

/-! Reading what is stored window after window, from its start until a window comes back
empty. A reader that answers every window below a length with as much of it as the window holds
delivers that length and no other; one held to a length cannot run past it, whatever it answers.
-/

namespace Drain

open Loop

variable {σ ε α : Type}

/-- What a reader answers: at most so many elements from an offset on, and itself as the read
left it.
-/
abbrev Read (σ ε α : Type) := σ → (offset len : Nat) → Except ε (List α × σ)

/-- A reader being drained: the turn, the reader, and what it has delivered. -/
structure Position (σ α : Type) where
  turn : Nat
  reader : σ
  got : List α

/-- One turn of a drain, which asks for as much as the turn's window holds. -/
def step (read : Read σ ε α) (window : Nat → Nat) (at_ : Position σ α)
    : Next (Position σ α) (Except ε (List α × σ)) :=
  match read at_.reader at_.got.length (window at_.turn) with
  | .error error => .stop (.error error)
  | .ok ([], reader) => .stop (.ok (at_.got, reader))
  | .ok (bytes, reader) => .go ⟨at_.turn + 1, reader, at_.got ++ bytes⟩

/-- Where a drain begins. -/
def start (reader : σ) : Position σ α := ⟨0, reader, []⟩

/-- Draining ends, in a failure or with exactly `n` elements delivered. -/
def Delivers (read : Read σ ε α) (window : Nat → Nat) (n : Nat) (reader : σ) : Prop :=
  ∃ turns result, run (step read window) turns (start reader) = some result
    ∧ ∀ got reader', result = .ok (got, reader') → got.length = n

/-- Every read that succeeds answers with as much of the `n` elements stored as its window
holds.
-/
def Exact (read : Read σ ε α) (n : Nat) : Prop :=
  ∀ reader offset len bytes reader', read reader offset len = .ok (bytes, reader')
    → bytes.length = min len (n - offset)

/-- Every read that succeeds answers with nothing. -/
def Empty (read : Read σ ε α) : Prop :=
  ∀ reader offset len, ∃ reader', read reader offset len = .ok ([], reader')

variable {read : Read σ ε α} {window : Nat → Nat} {n : Nat}

/-- A turn that goes on has delivered something more. -/
theorem step_eq_go {at_ next : Position σ α} (went : step read window at_ = .go next)
    : ∃ bytes, read at_.reader at_.got.length (window at_.turn) = .ok (bytes, next.reader)
      ∧ bytes ≠ [] ∧ next.turn = at_.turn + 1 ∧ next.got = at_.got ++ bytes := by
  simp only [step] at went
  split at went
  · cases went
  · cases went
  · next bytes reader nonempty answered =>
      cases went
      exact ⟨bytes, answered, nonempty, rfl, rfl⟩

/-- A turn that ends without failing was answered with nothing. -/
theorem step_eq_stop {at_ : Position σ α} {got : List α} {reader : σ}
    (ended : step read window at_ = .stop (.ok (got, reader)))
    : read at_.reader at_.got.length (window at_.turn) = .ok ([], reader) ∧ got = at_.got := by
  simp only [step] at ended
  split at ended
  · cases ended
  · next answered =>
      cases ended
      exact ⟨answered, rfl⟩
  · cases ended

/-- An exact reader's drain goes on only below the length, so the rest shrinks. -/
theorem Exact.lowers (exact : Exact read n)
    : Lowers (step read window) fun at_ => n - at_.got.length := by
  intro at_ next went
  obtain ⟨bytes, answered, nonempty, -, got⟩ := step_eq_go went
  have long := exact _ _ _ _ _ answered
  have some_ : 0 < bytes.length := List.length_pos_iff.mpr nonempty
  simp only [got, List.length_append]
  omega

/-- A drain of an exact reader has never delivered more than is stored. -/
theorem Exact.got_le (exact : Exact read n) {at_ next : Position σ α}
    (went : step read window at_ = .go next) (within : at_.got.length ≤ n)
    : next.got.length ≤ n := by
  obtain ⟨bytes, answered, -, -, got⟩ := step_eq_go went
  have long := exact _ _ _ _ _ answered
  simp only [got, List.length_append]
  omega

/-- A drain of an exact reader that ends has delivered all that is stored. -/
theorem Exact.got_eq (exact : Exact read n) (open_ : ∀ turn, 0 < window turn)
    {at_ : Position σ α} (within : at_.got.length ≤ n) {got : List α} {reader : σ}
    (ended : step read window at_ = .stop (.ok (got, reader))) : got.length = n := by
  obtain ⟨answered, rfl⟩ := step_eq_stop ended
  have long := exact _ _ _ _ _ answered
  have wide := open_ at_.turn
  simp only [List.length_nil] at long
  omega

/-- An exact reader delivers what is stored, whatever windows it is read through. -/
theorem Exact.delivers (exact : Exact read n) (open_ : ∀ turn, 0 < window turn) (reader : σ)
    : Delivers read window n reader := by
  have ends := run_isSome (@Exact.lowers _ _ _ read window n exact) (n + 1) (start reader)
    (by simp [start])
  obtain ⟨result, ran⟩ := Option.isSome_iff_exists.mp ends
  refine ⟨n + 1, result, ran, ?_⟩
  intro got reader' delivered
  obtain ⟨last, within, ended⟩ :=
    stop_of_run (fun _ _ went => exact.got_le went) (Nat.zero_le _) ran
  exact exact.got_eq open_ within (delivered ▸ ended)

/-- A reader that answers with nothing delivers nothing. -/
theorem Empty.run_eq (empty : Empty read) (reader : σ) {turns : Nat}
    {result : Except ε (List α × σ)} (ran : run (step read window) turns (start reader) = some result)
    : ∃ reader', result = .ok ([], reader') := by
  obtain ⟨reader', answered⟩ := empty reader 0 (window 0)
  have ended : step read window (start reader) = .stop (.ok ([], reader')) := by
    simp [step, start, answered]
  cases turns with
  | zero => cases ran
  | succ turns =>
      simp only [run, ended, Option.some.injEq] at ran
      exact ⟨reader', ran.symm⟩

/-- A reader that answers with nothing does not deliver a positive length. -/
theorem Empty.not_delivers (empty : Empty read) (pos : 0 < n) (reader : σ)
    : ¬ Delivers read window n reader := by
  rintro ⟨turns, result, ran, delivered⟩
  obtain ⟨reader', rfl⟩ := empty.run_eq reader ran
  have none_ := delivered _ _ rfl
  simp only [List.length_nil] at none_
  omega

/-- A reader held to `n` elements: past them it answers nothing, and no window reaches past
them.
-/
def heldTo (n : Nat) (read : Read σ ε α) : Read σ ε α := fun reader offset len =>
  if n - offset = 0 ∨ len = 0 then .ok ([], reader) else read reader offset (min (n - offset) len)

/-- Draining a held reader goes on only below the length it is held to. -/
theorem heldTo_lowers (read : Read σ ε α) (window : Nat → Nat) (n : Nat)
    : Lowers (step (heldTo n read) window) fun at_ => n - at_.got.length := by
  intro at_ next went
  obtain ⟨bytes, answered, nonempty, -, got⟩ := step_eq_go went
  have some_ : 0 < bytes.length := List.length_pos_iff.mpr nonempty
  simp only [heldTo] at answered
  split at answered
  · simp only [Except.ok.injEq, Prod.mk.injEq] at answered
    exact absurd answered.1.symm nonempty
  · simp only [got, List.length_append]
    omega

/-- What an exact reader holds is what it holds when held to it. -/
theorem Exact.heldTo (exact : Exact read n) : Exact (heldTo n read) n := by
  intro reader offset len bytes reader' answered
  simp only [Drain.heldTo] at answered
  split at answered
  · cases answered
    simp only [List.length_nil]
    omega
  · have long := exact _ _ _ _ _ answered
    omega

/-- A reader that answers with nothing does so when held. -/
theorem Empty.heldTo (empty : Empty read) (n : Nat) : Empty (heldTo n read) := by
  intro reader offset len
  simp only [Drain.heldTo]
  split
  · exact ⟨reader, rfl⟩
  · exact empty _ _ _

/-- A reader beside something its reads leave alone. -/
def beside (τ : Type) (read : Read σ ε α) : Read (σ × τ) ε α := fun reader offset len =>
  (read reader.1 offset len).map fun answer => (answer.1, (answer.2, reader.2))

theorem Exact.beside {τ : Type} (exact : Exact read n) : Exact (beside τ read) n := by
  intro reader offset len bytes reader' answered
  cases first : read reader.1 offset len with
  | error error =>
      simp only [Drain.beside, first] at answered
      cases answered
  | ok answer =>
      simp only [Drain.beside, first] at answered
      cases answered
      exact exact _ _ _ _ _ first

theorem Empty.beside {τ : Type} (empty : Empty read) : Empty (beside τ read) := by
  intro reader offset len
  obtain ⟨reader', answered⟩ := empty reader.1 offset len
  exact ⟨(reader', reader.2), by simp only [Drain.beside, answered, Except.map]⟩

/-- All a held reader delivers, or the failure that ends it. -/
def drain (n : Nat) (read : Read σ ε α) (window : Nat → Nat) (reader : σ)
    : Except ε (List α × σ) :=
  total (step (heldTo n read) window) _ (heldTo_lowers read window n) (start reader)

/-- A drain that succeeds is a run that does. -/
theorem run_of_drain {reader : σ} {result : Except ε (List α × σ)}
    (drained : drain n read window reader = result)
    : ∃ turns, run (step (Drain.heldTo n read) window) turns (start reader) = some result :=
  ⟨_, (run_eq_total (heldTo_lowers read window n) _).trans (congrArg _ drained)⟩

/-- An exact reader's drain delivers what is stored. -/
theorem Exact.length_drain (exact : Exact read n) (open_ : ∀ turn, 0 < window turn)
    {reader reader' : σ} {got : List α} (drained : drain n read window reader = .ok (got, reader'))
    : got.length = n := by
  obtain ⟨turns, ran⟩ := run_of_drain drained
  obtain ⟨last, within, ended⟩ :=
    stop_of_run (fun _ _ went => exact.heldTo.got_le went) (Nat.zero_le _) ran
  exact exact.heldTo.got_eq open_ within ended

/-- The drain of a reader that answers with nothing delivers nothing. -/
theorem Empty.drain_eq (empty : Empty read) (n : Nat) (window : Nat → Nat) (reader : σ)
    : ∃ reader', drain n read window reader = .ok ([], reader') := by
  obtain ⟨turns, ran⟩ := run_of_drain (rfl : drain n read window reader = _)
  exact (empty.heldTo n).run_eq reader ran

/-- A window being filled: the reader, and what it has placed. -/
structure Filling (σ α : Type) where
  reader : σ
  done : List α

/-- One turn of filling a window of `want` elements with the piece that comes next. -/
def fillStep (piece : σ → (done : Nat) → Except ε (List α × σ)) (want : Nat)
    (filling : Filling σ α) : Next (Filling σ α) (Except ε (List α × σ)) :=
  if filling.done.length < want then
    match piece filling.reader filling.done.length with
    | .error error => .stop (.error error)
    | .ok (bytes, reader) => .go ⟨reader, filling.done ++ bytes⟩
  else .stop (.ok (filling.done, filling.reader))

/-- Every piece has something in it, and none reaches past the window. -/
def Pieces (piece : σ → (done : Nat) → Except ε (List α × σ)) (want : Nat) : Prop :=
  ∀ reader done bytes reader', done < want → piece reader done = .ok (bytes, reader')
    → 0 < bytes.length ∧ bytes.length ≤ want - done

variable {piece : σ → (done : Nat) → Except ε (List α × σ)} {want : Nat}

/-- Filling goes on only with a piece placed. -/
theorem fillStep_eq_go {filling next : Filling σ α} (pieces : Pieces piece want)
    (went : fillStep piece want filling = .go next)
    : filling.done.length < next.done.length ∧ next.done.length ≤ want := by
  simp only [fillStep] at went
  split at went
  · next short =>
      split at went
      · cases went
      · next bytes reader placed =>
          cases went
          have ⟨some_, fits⟩ := pieces _ _ _ _ short placed
          simp only [List.length_append]
          omega
  · cases went

/-- Filling lowers what is left to fill. -/
theorem fillStep_lowers (pieces : Pieces piece want)
    : Lowers (fillStep piece want) fun filling => want - filling.done.length := by
  intro filling next went
  have ⟨more, fits⟩ := fillStep_eq_go pieces went
  exact Nat.sub_lt_sub_left (Nat.lt_of_lt_of_le more fits) more

/-- Fill a window of `want` elements piece by piece. -/
def fill (piece : σ → (done : Nat) → Except ε (List α × σ)) (want : Nat)
    (pieces : Pieces piece want) (reader : σ) : Except ε (List α × σ) :=
  total (fillStep piece want) _ (fillStep_lowers pieces) ⟨reader, []⟩

/-- A window that was filled is full. -/
theorem length_fill (pieces : Pieces piece want) {reader reader' : σ} {bytes : List α}
    (filled : fill piece want pieces reader = .ok (bytes, reader'))
    : bytes.length = want := by
  have ran := (run_eq_total (fillStep_lowers pieces) ⟨reader, []⟩).trans (congrArg _ filled)
  have kept : ∀ filling next, fillStep piece want filling = .go next
      → filling.done.length ≤ want → next.done.length ≤ want :=
    fun _ _ went _ => (fillStep_eq_go pieces went).2
  obtain ⟨last, within, ended⟩ := stop_of_run kept (Nat.zero_le _) ran
  simp only [fillStep] at ended
  split at ended
  · split at ended
    · cases ended
    · cases ended
  · next full =>
      cases ended
      exact Nat.le_antisymm within (Nat.le_of_not_lt full)

/-- Two answers of a piece or of a window are the same bytes or both errors, and leave alike what
they leave.
-/
def Alike {τ ε' : Type} (same : σ → τ → Prop) (failed : ε → ε' → Prop)
    : Except ε (List α × σ) → Except ε' (List α × τ) → Prop
  | .ok (bytes, reader), .ok (bytes', reader') => bytes = bytes' ∧ same reader reader'
  | .error error, .error error' => failed error error'
  | _, _ => False

/-- Windows filled with pieces that are alike are alike, by induction on what is left to fill. -/
theorem fill_alike {τ ε' : Type} {same : σ → τ → Prop} {failed : ε → ε' → Prop}
    {piece' : τ → (done : Nat) → Except ε' (List α × τ)}
    (each : ∀ reader reader' done, same reader reader'
      → Alike same failed (piece reader done) (piece' reader' done))
    (pieces : Pieces piece want) (pieces' : Pieces piece' want) {reader : σ} {reader' : τ}
    (begun : same reader reader')
    : Alike same failed (fill piece want pieces reader) (fill piece' want pieces' reader') := by
  suffices steps : ∀ left done reader reader', want - done.length = left → same reader reader'
      → Alike same failed (total (fillStep piece want) _ (fillStep_lowers pieces) ⟨reader, done⟩)
        (total (fillStep piece' want) _ (fillStep_lowers pieces') ⟨reader', done⟩) by
    exact steps _ [] reader reader' rfl begun
  intro left
  induction left using Nat.strongRecOn with
  | _ left ih =>
      intro done reader reader' short begun
      have next := each reader reader' done.length begun
      by_cases more : done.length < want
      · cases placed : piece reader done.length with
        | error error =>
            cases placed' : piece' reader' done.length with
            | error error' =>
                rw [placed, placed'] at next
                rw [total_of_stop _ (by simp only [fillStep, if_pos more, placed]; rfl),
                  total_of_stop _ (by simp only [fillStep, if_pos more, placed']; rfl)]
                exact next
            | ok got' =>
                rw [placed, placed'] at next
                exact next.elim
        | ok got =>
            cases placed' : piece' reader' done.length with
            | error error' =>
                rw [placed, placed'] at next
                exact next.elim
            | ok got' =>
                rw [placed, placed'] at next
                obtain ⟨bytes, later⟩ := got
                obtain ⟨bytes', later'⟩ := got'
                obtain ⟨rfl, kept⟩ := next
                have some_ := (pieces _ _ _ _ more placed).1
                have turn : fillStep piece want ⟨reader, done⟩ = .go ⟨later, done ++ bytes⟩ := by
                  simp only [fillStep, if_pos more, placed]
                have turn' : fillStep piece' want ⟨reader', done⟩
                    = .go ⟨later', done ++ bytes⟩ := by
                  simp only [fillStep, if_pos more, placed']
                rw [total_of_go _ turn, total_of_go _ turn']
                exact ih _ (by rw [List.length_append]; omega) (done ++ bytes) later later' rfl kept
      · rw [total_of_stop _ (by simp only [fillStep, if_neg more]; rfl),
          total_of_stop _ (by simp only [fillStep, if_neg more]; rfl)]
        exact ⟨rfl, begun⟩

end Drain
