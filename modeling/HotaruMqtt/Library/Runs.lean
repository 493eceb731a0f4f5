import Mathlib.Data.List.Induction

/-!
# Runs of labelled transition systems

A system is a partial step function: an action is enabled in a state if the step is defined. A
run takes enabled actions one after the other, each of which the state it is taken in must allow.
What every allowed step preserves holds at the end of every run.
-/

namespace HotaruMqtt.Library

variable {σ α : Type}

/-- The state `last` is reached from `start` by allowed and enabled actions. -/
inductive Run (step : σ → α → Option σ) (Allowed : σ → α → Prop) (start : σ) :
    List α → σ → Prop where
  | refl : Run step Allowed start [] start
  | tail {actions : List α} {state last : σ} {action : α}
      (run : Run step Allowed start actions state) (allowed : Allowed state action)
      (enabled : step state action = some last) :
      Run step Allowed start (actions ++ [action]) last

/-- Nothing restricts which enabled actions are taken. -/
def Unrestricted (_ : σ) (_ : α) : Prop := True

/-- The steps that pass a check. -/
def guarded (check : σ → α → Bool) (step : σ → α → Option σ) (state : σ) (action : α) : Option σ :=
  if check state action then step state action else none

namespace Run

variable {step : σ → α → Option σ} {Allowed : σ → α → Prop} {start last : σ} {actions : List α}

/-- What holds at the start and is kept by every allowed step holds at the end. -/
theorem invariant {Inv : σ → Prop} (hstart : Inv start)
    (hstep : ∀ state action next, Inv state → Allowed state action →
      step state action = some next → Inv next)
    (run : Run step Allowed start actions last) : Inv last := by
  induction run with
  | refl => exact hstart
  | tail _ allowed enabled ih => exact hstep _ _ _ ih allowed enabled

/-- A run is also one under a weaker restriction. -/
theorem mono {Allowed' : σ → α → Prop} (run : Run step Allowed start actions last)
    (hallowed : ∀ state action, Allowed state action → Allowed' state action) :
    Run step Allowed' start actions last := by
  induction run with
  | refl => exact .refl
  | tail _ allowed enabled ih => exact ih.tail (hallowed _ _ allowed) enabled

/-- A step before a run. -/
theorem head {middle : σ} {action : α} (allowed : Allowed start action)
    (enabled : step start action = some middle) (run : Run step Allowed middle actions last) :
    Run step Allowed start (action :: actions) last := by
  induction run with
  | refl => exact Run.refl.tail allowed enabled
  | tail _ allowed' enabled' ih => exact ih.tail allowed' enabled'

/-- Evaluating the actions in order, each after a check that it is allowed, gives a run. -/
theorem of_guarded {check : σ → α → Bool}
    (hcheck : ∀ state action, check state action = true → Allowed state action)
    (h : actions.foldlM (guarded check step) start = some last) :
    Run step Allowed start actions last := by
  induction actions using List.reverseRecOn generalizing last with
  | nil =>
    obtain rfl : start = last := Option.some.inj h
    exact .refl
  | append_singleton actions action ih =>
    rw [List.foldlM_append, Option.bind_eq_bind, Option.bind_eq_some_iff] at h
    obtain ⟨state, hstate, hlast⟩ := h
    rw [List.foldlM_cons, Option.bind_eq_bind, Option.bind_eq_some_iff] at hlast
    obtain ⟨next, hnext, hnil⟩ := hlast
    obtain rfl : next = last := Option.some.inj hnil
    rw [guarded, Option.ite_none_right_eq_some] at hnext
    exact (ih hstate).tail (hcheck _ _ hnext.1) hnext.2

theorem of_foldlM (h : actions.foldlM step start = some last) :
    Run step Unrestricted start actions last := by
  have hguarded : guarded (fun _ _ ↦ true) step = step := by
    funext state action
    exact if_pos rfl
  rw [← hguarded] at h
  exact of_guarded (fun _ _ _ ↦ trivial) h

end Run

/-- A state with what was observed on the way to it. -/
structure Observed (σ ω : Type) where
  state : σ
  seen : List ω

section Observations

variable {ω : Type}

/-- The steps of a system together with what an observer sees of them. -/
def observed (observe : σ → α → List ω) (step : σ → α → Option σ) (current : Observed σ ω)
    (action : α) : Option (Observed σ ω) :=
  (step current.state action).map fun next ↦
    { state := next, seen := current.seen ++ observe current.state action }

variable {observe : σ → α → List ω} {step : σ → α → Option σ} {current next : Observed σ ω}
  {action : α}

theorem of_observed (h : observed observe step current action = some next) :
    step current.state action = some next.state ∧
      next.seen = current.seen ++ observe current.state action := by
  obtain ⟨state, hstate, rfl⟩ := Option.map_eq_some_iff.mp h
  exact ⟨hstate, rfl⟩

end Observations

end HotaruMqtt.Library
