import Mathlib

/-! Systems that take one step after another. A run keeps its steps, each with the
state it was made in, so that one may ask something of every state and of every step. -/
namespace NodeRustPty
namespace Transitions

variable {State Action : Type} {step : State → Action → State → Prop}

/-- A run from one state to another: what was done, and in which state. -/
inductive Run (step : State → Action → State → Prop) : State → List (State × Action) → State → Prop
  | nil (s : State) : Run step s [] s
  | snoc {s s₁ s₂ : State} {trace : List (State × Action)} {action : Action}
      (hrun : Run step s trace s₁) (hstep : step s₁ action s₂) : Run step s (trace ++ [(s₁,action)]) s₂

/-- Every state of the run, the last one included. -/
def Throughout (holds : State → Prop) (trace : List (State × Action)) (s : State) : Prop :=
  (∀ visit ∈ trace, holds visit.1) ∧ holds s

/-- Every step of the run, in the state it is made in. -/
def Each (meets : State → Action → Prop) (trace : List (State × Action)) : Prop :=
  ∀ visit ∈ trace, meets visit.1 visit.2

variable {holds invariant : State → Prop} {meets : State → Action → Prop} {s s' : State}
  {action : Action} {trace : List (State × Action)}

theorem throughout_nil : Throughout holds ([] : List (State × Action)) s ↔ holds s := by simp [Throughout]

theorem throughout_snoc :
    Throughout holds (trace ++ [(s,action)]) s' ↔ Throughout holds trace s ∧ holds s' := by
  simp only [Throughout,List.forall_mem_append,List.forall_mem_singleton]

theorem each_nil : Each meets ([] : List (State × Action)) := fun _ h => absurd h List.not_mem_nil

theorem each_snoc : Each meets (trace ++ [(s,action)]) ↔ Each meets trace ∧ meets s action := by
  simp only [Each,List.forall_mem_append,List.forall_mem_singleton]

/-- What every step keeps holds throughout. -/
theorem Run.throughout (h : Run step s trace s') (hstart : holds s)
    (hstep : ∀ s action s', holds s → step s action s' → holds s') : Throughout holds trace s' := by
  induction h with
  | nil => exact throughout_nil.mpr hstart
  | snoc _ hlast ih => exact throughout_snoc.mpr ⟨ih,hstep _ _ _ ih.2 hlast⟩

/-- What every step keeps that meets a condition holds throughout a run of such steps. -/
theorem Run.throughout_of_each (h : Run step s trace s') (hmeets : Each meets trace) (hstart : holds s)
    (hstep : ∀ s action s', holds s → meets s action → step s action s' → holds s') :
    Throughout holds trace s' := by
  induction h with
  | nil => exact throughout_nil.mpr hstart
  | snoc _ hlast ih =>
    obtain ⟨hbefore,hlastMeets⟩ := each_snoc.mp hmeets
    have hall := ih hbefore
    exact throughout_snoc.mpr ⟨hall,hstep _ _ _ hall.2 hlastMeets hlast⟩

theorem Throughout.and {first second : State → Prop} (h : Throughout first trace s)
    (h' : Throughout second trace s) : Throughout (fun s => first s ∧ second s) trace s :=
  ⟨fun visit hvisit => ⟨h.1 visit hvisit,h'.1 visit hvisit⟩,h.2,h'.2⟩

/-- What every step keeps where the run has another property, too. -/
theorem Run.throughout_of_invariant (h : Run step s trace s') (hinvariant : Throughout invariant trace s')
    (hstart : holds s) (hstep : ∀ s action s', invariant s → holds s → step s action s' → holds s') :
    Throughout holds trace s' := by
  induction h with
  | nil => exact throughout_nil.mpr hstart
  | snoc _ hlast ih =>
    have hbefore := (throughout_snoc.mp hinvariant).1
    have hall := ih hbefore
    exact throughout_snoc.mpr ⟨hall,hstep _ _ _ hbefore.2 hall.2 hlast⟩

/-- Where one step keeps a property exactly under a condition, a run does so, too. What else
the steps rely on may be an invariant or something asked of the run. -/
theorem Run.throughout_iff (h : Run step s trace s') (hinvariant : Throughout invariant trace s')
    (hstart : holds s)
    (hstep : ∀ s action s', invariant s → holds s → step s action s' → (holds s' ↔ meets s action)) :
    Throughout holds trace s' ↔ Each meets trace := by
  induction h with
  | nil => exact ⟨fun _ => each_nil,fun _ => throughout_nil.mpr hstart⟩
  | snoc hrun hlast ih =>
    have hbefore := (throughout_snoc.mp hinvariant).1
    rw [throughout_snoc,each_snoc,ih hbefore,and_congr_right_iff]
    intro heach
    exact hstep _ _ _ hbefore.2 ((ih hbefore).mpr heach).2 hlast

end Transitions
end NodeRustPty
