import HotaruMqtt.Library.Runs

/-!
# Ranks of a party in a system

A party takes some of the actions of a system. A rank that the party's own steps lower and that no
other step raises bounds how many steps the party takes in any run. If moreover the party can go on
by itself wherever it is not done, then it gets done by itself, within the steps that are left.
-/

namespace HotaruMqtt.Library

variable {σ α : Type} {step : σ → α → Option σ} {own : α → Bool} {cost : ℕ} {rank : σ → ℕ}

/-- No step raises the rank, and a step of the party's own lowers it by `cost` at least. -/
structure Ranked (step : σ → α → Option σ) (own : α → Bool) (cost : ℕ) (rank : σ → ℕ) : Prop where
  own_le : ∀ state action next, step state action = some next → own action = true →
    rank next + cost ≤ rank state
  other_le : ∀ state action next, step state action = some next → own action = false →
    rank next ≤ rank state

namespace Ranked

variable {Allowed : σ → α → Prop} {start last : σ} {actions : List α}

/-- The steps that the party has taken count against its rank. -/
theorem count_add_rank_le (h : Ranked step own cost rank)
    (run : Run step Allowed start actions last) :
    cost * actions.countP own + rank last ≤ rank start := by
  induction run with
  | refl => simp
  | @tail actions state last action _ _ enabled ih =>
    rw [List.countP_append, List.countP_singleton]
    cases hown : own action with
    | true =>
      have hle := h.own_le state action last enabled hown
      rw [if_pos rfl, Nat.mul_add, Nat.mul_one]
      omega
    | false =>
      have hle := h.other_le state action last enabled hown
      rw [if_neg Bool.false_ne_true, Nat.add_zero]
      omega

/-- A party that can go on by itself until it is done gets done by itself. -/
theorem exists_completion (h : Ranked step own cost rank) (hcost : 0 < cost) {Inv Done : σ → Prop}
    {Proceeds : α → Prop} (hproceeds : ∀ action, Proceeds action → own action = true)
    (hgoesOn : ∀ state, Inv state → ¬ Done state →
      ∃ action next, Proceeds action ∧ step state action = some next ∧ Inv next)
    (hstart : Inv start) :
    ∃ rest last, Run step (fun _ ↦ Proceeds) start rest last ∧ Done last ∧
      cost * rest.length ≤ rank start := by
  induction hrank : rank start using Nat.strongRecOn generalizing start with
  | _ bound ih =>
    by_cases hdone : Done start
    · exact ⟨[], start, .refl, hdone, Nat.zero_le _⟩
    · obtain ⟨action, next, hproceed, hstep, hnext⟩ := hgoesOn start hstart hdone
      have hle := h.own_le start action next hstep (hproceeds action hproceed)
      obtain ⟨rest, last, hrest, hlast, hlength⟩ := ih (rank next) (by omega) hnext rfl
      refine ⟨action :: rest, last, hrest.head hproceed hstep, hlast, ?_⟩
      rw [List.length_cons, Nat.mul_add, Nat.mul_one]
      omega

end Ranked

end HotaruMqtt.Library
