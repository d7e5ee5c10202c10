import VibeRtos.Lib.Runs

/-!
# Sections taken as one step

A machine is refined by another one that takes some of its steps as no step at all: the two run in
step on the labels that both have, and what the other one does in between is its own. `run_refines`
lifts that from one step to a run.

A section is what a partial step function does from a state outside to the next state outside.
`advance` counts the steps made within it, and `block` takes it as a whole.
-/

namespace CriticalSections

open Runs

section Refinement

variable {σ τ α β ε : Type} {step : σ → α → Option σ} {step' : τ → β → Option τ}
  {R : σ → τ → Prop} {ev : α → Option ε} {ev' : β → Option ε}

/-- What one step of the one machine is for the other, a run is; the labels that both have (`ev`,
`ev'`) are the same, in the same order. -/
theorem run_refines
    (hstep : ∀ s a s' t, R s t → step s a = some s' →
      ∃ bs t', run step' t bs = some t' ∧ R s' t' ∧ bs.filterMap ev' = [a].filterMap ev) :
    ∀ {as : List α} {s s' : σ} {t : τ}, R s t → run step s as = some s' →
      ∃ bs t', run step' t bs = some t' ∧ R s' t' ∧ bs.filterMap ev' = as.filterMap ev := by
  intro as
  induction as with
  | nil =>
      intro s s' t hR h
      obtain rfl := Option.some.inj h
      exact ⟨[], t, rfl, hR, rfl⟩
  | cons a as ih =>
      intro s s' t hR h
      obtain ⟨u, hu, hrun⟩ := run_cons.mp h
      obtain ⟨bs, v, hbs, hv, hev⟩ := hstep s a u t hR hu
      obtain ⟨cs, t', hcs, ht', hev'⟩ := ih hv hrun
      refine ⟨bs ++ cs, t', run_append.mpr ⟨v, hbs, hcs⟩, ht', ?_⟩
      rw [List.filterMap_append, hev, hev', ← List.filterMap_append, List.singleton_append]

end Refinement

variable {S : Type} (step : S → Option S) (inside : S → Bool)

/-- `n` steps, each of which ends inside. -/
def advance : Nat → S → Option S
  | 0, s => some s
  | n + 1, s => (advance n s).bind fun t => (step t).filter inside

/-- `n` steps that end inside, and one that ends outside. -/
def block (n : Nat) (s : S) : Option S :=
  (advance step inside n s).bind fun t => (step t).filter fun u => !inside u

variable {step inside} {n : Nat} {s t u : S}

@[simp] theorem advance_zero : advance step inside 0 s = some s := rfl

theorem advance_snoc (h : advance step inside n s = some t) (hu : step t = some u)
    (hin : inside u = true) : advance step inside (n + 1) s = some u := by
  rw [advance, h, Option.bind_some, hu, Option.filter_some, if_pos hin]

theorem block_of_advance (h : advance step inside n s = some t) (hu : step t = some u)
    (hin : inside u = false) : block step inside n s = some u := by
  rw [block, h, Option.bind_some, hu, Option.filter_some, if_pos (by simp [hin])]

end CriticalSections
