import Ferrosys.Library.Loop
import Ferrosys.Library.Checked

/-! Computations that produce into a buffer: what was produced, and the room behind it. A computation
is blind where what it makes of the buffer does not depend on what the room held, nor on how much
more of it there is than it takes.
-/

namespace Buffer

open Checked

variable {α β ε σ σ' τ τ' ρ υ : Type}

/-- What succeeds in some room does in any other that is long enough, and makes the same of it:
`mk` is the result made of a part that has nothing to do with the buffer, of what is produced by
then, and of the room left. Buffers of `limit` elements are longer than any.
-/
def Blind (limit : Nat) (mk : τ → List α → List α → σ) (produced : List α)
    (step : List α → Except ε σ) : Prop :=
  ∀ room s, (produced ++ room).length < limit → step room = .ok s →
    ∃ t added, added.length ≤ room.length
      ∧ s = mk t (produced ++ added) (room.drop added.length)
      ∧ ∀ other, (produced ++ other).length < limit → added.length ≤ other.length →
        step other = .ok (mk t (produced ++ added) (other.drop added.length))

section

variable {limit : Nat} {mk : τ → List α → List α → σ} {mk' : τ' → List α → List α → σ'}
  {produced : List α}

/-- What does the same in every buffer there can be is as blind. -/
theorem Blind.congr {step step' : List α → Except ε σ} (blind : Blind limit mk produced step')
    (same : ∀ room, (produced ++ room).length < limit → step room = step' room)
    : Blind limit mk produced step := by
  intro room s small done
  rw [same room small] at done
  obtain ⟨t, added, fits, made, others⟩ := blind room s small done
  refine ⟨t, added, fits, made, fun other bounded enough => ?_⟩
  rw [same other bounded, others other bounded enough]

/-- What produces nothing is blind. -/
theorem blind_ok (mk : τ → List α → List α → σ) (t : τ)
    : Blind (ε := ε) limit mk produced fun room => .ok (mk t produced room) := by
  intro room s _ done
  obtain rfl := Except.ok.inj done
  exact ⟨t, [], Nat.zero_le _, by simp, fun other _ _ => by simp⟩

theorem blind_error (error : List α → ε)
    : Blind limit mk produced fun room => .error (error room) := by
  intro room s _ done
  cases done

/-- What does not look at the buffer may be done first. -/
theorem blind_bind {first : Except ε β} {rest : β → List α → Except ε σ}
    (later : ∀ b, first = .ok b → Blind limit mk produced (rest b))
    : Blind limit mk produced fun room => first >>= fun b => rest b room := by
  intro room s small done
  obtain ⟨b, here, done⟩ := bind_eq_ok.mp done
  obtain ⟨t, added, fits, same, others⟩ := later b here room s small done
  refine ⟨t, added, fits, same, fun other bounded fits => ?_⟩
  change (first >>= fun b => rest b other) = _
  rw [here, ok_bind, others other bounded fits]

/-- Where what is produced first is the same in every room, it is enough that the rest is blind from
there on.
-/
theorem Blind.after {added room : List α} {step rest : List α → Except ε σ} {s : σ}
    (blind : Blind limit mk (produced ++ added) rest)
    (small : (produced ++ room).length < limit) (fits : added.length ≤ room.length)
    (done : rest (room.drop added.length) = .ok s)
    (others : ∀ other, (produced ++ other).length < limit → added.length ≤ other.length →
      step other = rest (other.drop added.length))
    : ∃ t whole, whole.length ≤ room.length
      ∧ s = mk t (produced ++ whole) (room.drop whole.length)
      ∧ ∀ other, (produced ++ other).length < limit → whole.length ≤ other.length →
        step other = .ok (mk t (produced ++ whole) (other.drop whole.length)) := by
  rw [List.length_append] at small
  obtain ⟨t, more, fits', rfl, others'⟩ := blind _ s
    (by simp only [List.length_append, List.length_drop]; omega) done
  rw [List.length_drop] at fits'
  refine ⟨t, added ++ more, by rw [List.length_append]; omega, ?_, fun other bounded enough => ?_⟩
  · rw [List.append_assoc, List.drop_drop, List.length_append]
  · rw [List.length_append] at bounded enough
    rw [others other (by rw [List.length_append]; omega) (by omega), others' _
      (by simp only [List.length_append, List.length_drop]; omega)
      (by rw [List.length_drop]; omega), List.append_assoc, List.drop_drop, List.length_append]

/-- Blind computations in a row are blind. -/
theorem Blind.bind {first : List α → Except ε σ} {rest : σ → Except ε σ'}
    (blind : Blind limit mk produced first)
    (later : ∀ t added, Blind limit mk' (produced ++ added) fun room =>
      rest (mk t (produced ++ added) room))
    : Blind limit mk' produced fun room => first room >>= rest := by
  intro room s small done
  obtain ⟨middle, here, done⟩ := bind_eq_ok.mp done
  obtain ⟨t, added, fits, rfl, others⟩ := blind room middle small here
  refine (later t added).after small fits done fun other bounded enough => ?_
  rw [others other bounded enough, ok_bind]

/-- A choice that does not look at the buffer leaves both sides blind. -/
theorem blind_ite {c : Prop} [Decidable c] {yes no : List α → Except ε σ}
    (first : c → Blind limit mk produced yes) (second : ¬ c → Blind limit mk produced no)
    : Blind limit mk produced fun room => if c then yes room else no room := by
  by_cases holds : c
  · simpa only [if_pos holds] using first holds
  · simpa only [if_neg holds] using second holds

/-- What takes a number of elements and refuses where there is no room for them is blind. -/
theorem blind_take {count : Nat} {error : List α → ε} {t : τ} {added : List α}
    (taken : added.length = count)
    : Blind limit mk produced fun room => if room.length < count then .error (error room)
      else .ok (mk t (produced ++ added) (room.drop count)) := by
  subst taken
  intro room s _ done
  dsimp only at done
  by_cases short : room.length < added.length
  · rw [if_pos short] at done
    cases done
  · rw [if_neg short] at done
    obtain rfl := Except.ok.inj done
    exact ⟨t, added, by omega, rfl, fun other _ enough => if_neg (by omega)⟩

/-- What a turn leaves, made of its parts: the state to go on from, or the answer. -/
def nextOf (mk : τ → List α → List α → σ) (answer : υ → List α → List α → ρ)
    : τ ⊕ υ → List α → List α → Loop.Next σ (Except ε ρ)
  | .inl t, produced, room => .go (mk t produced room)
  | .inr u, produced, room => .stop (.ok (answer u produced room))

/-- A turn is blind where it is a blind computation's next turn. -/
def BlindTurn (limit : Nat) (mk : τ → List α → List α → σ) (answer : υ → List α → List α → ρ)
    (turn : σ → Loop.Next σ (Except ε ρ)) : Prop :=
  ∀ t produced, ∃ body : List α → Except ε (Loop.Next σ (Except ε ρ)),
    (∀ room, turn (mk t produced room) = Loop.orStop (body room))
      ∧ Blind limit (nextOf mk answer) produced body

/-- A loop of blind turns is blind, by induction on its turns. -/
theorem BlindTurn.run {answer : υ → List α → List α → ρ} {turn : σ → Loop.Next σ (Except ε ρ)}
    (blind : BlindTurn limit mk answer turn) (given_up : ε) (turns : Nat) (t : τ)
    (produced : List α)
    : Blind limit answer produced fun room =>
      (Loop.run turn turns (mk t produced room)).getD (.error given_up) := by
  induction turns generalizing t produced with
  | zero => exact blind_error fun _ => given_up
  | succ turns ih =>
      obtain ⟨body, same, steady⟩ := blind t produced
      intro room s small done
      change (Loop.run turn (turns + 1) (mk t produced room)).getD _ = _ at done
      rw [Loop.run, same] at done
      cases taken : body room with
      | error error =>
          rw [taken] at done
          cases done
      | ok next =>
          obtain ⟨part, added, fits, rfl, others⟩ := steady room next small taken
          rw [taken] at done
          cases part with
          | inr u =>
              obtain rfl := Except.ok.inj done
              refine ⟨u, added, fits, rfl, fun other bounded enough => ?_⟩
              change (Loop.run turn (turns + 1) (mk t produced other)).getD _ = _
              rw [Loop.run, same, others other bounded enough]
              rfl
          | inl t' =>
              refine (ih t' (produced ++ added)).after small fits done fun other bounded enough => ?_
              change (Loop.run turn (turns + 1) (mk t produced other)).getD _ = _
              rw [Loop.run, same, others other bounded enough]
              rfl

end

end Buffer
