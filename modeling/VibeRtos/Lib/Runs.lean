import Mathlib

/-!
# Runs of a labelled machine

A machine is a partial step function `step : σ → α → Option σ`: a label carries
every choice the environment makes, and `none` means that the label is not
enabled. A run is a list of labels.

Two rules are used throughout. `run_invariant` lifts what one step preserves to
a whole run. `always_iff_along` lifts an exact one-step criterion: if, from a
good state, the next state is good precisely when the label meets a guard, then a
run is good throughout precisely when each of its labels meets the guard.
-/

namespace Runs

variable {σ α : Type}

/-- Fire the labels in order. -/
def run (step : σ → α → Option σ) : σ → List α → Option σ
  | s, [] => some s
  | s, a :: as => (step s a).bind fun s' => run step s' as

/-- `P` holds before the run and after each of its steps. -/
def Always (step : σ → α → Option σ) (P : σ → Prop) : σ → List α → Prop
  | s, [] => P s
  | s, a :: as => P s ∧ ∀ s', step s a = some s' → Always step P s' as

/-- Each label meets the guard `G` in the state it is fired in. -/
def Along (step : σ → α → Option σ) (G : σ → α → Prop) : σ → List α → Prop
  | _, [] => True
  | s, a :: as => G s a ∧ ∀ s', step s a = some s' → Along step G s' as

variable {step : σ → α → Option σ} {P Q : σ → Prop} {G : σ → α → Prop}

@[simp] theorem run_nil (s : σ) : run step s [] = some s := rfl

theorem run_cons {s s' : σ} {a : α} {as : List α} :
    run step s (a :: as) = some s' ↔ ∃ t, step s a = some t ∧ run step t as = some s' := by
  simp [run, Option.bind_eq_some_iff]

theorem run_append {s s' : σ} {as bs : List α} :
    run step s (as ++ bs) = some s' ↔ ∃ t, run step s as = some t ∧ run step t bs = some s' := by
  induction as generalizing s with
  | nil => simp
  | cons a as ih =>
    rw [List.cons_append, run_cons]
    constructor
    · rintro ⟨t, ht, hr⟩
      obtain ⟨u, hu, hb⟩ := ih.mp hr
      exact ⟨u, run_cons.mpr ⟨t, ht, hu⟩, hb⟩
    · rintro ⟨u, hu, hb⟩
      obtain ⟨t, ht, hr⟩ := run_cons.mp hu
      exact ⟨t, ht, ih.mpr ⟨u, hr, hb⟩⟩

theorem along_cons_none {s : σ} {a : α} {as : List α} (h : step s a = none) :
    Along step G s (a :: as) ↔ G s a := by
  simp [Along, h]

theorem along_cons_some {s t : σ} {a : α} {as : List α} (h : step s a = some t) :
    Along step G s (a :: as) ↔ G s a ∧ Along step G t as := by
  simp [Along, h]

/-- A decidable guard can be evaluated along a run. -/
instance decidableAlong [∀ s a, Decidable (G s a)] :
    ∀ (s : σ) (as : List α), Decidable (Along step G s as)
  | _, [] => isTrue trivial
  | s, a :: as =>
      match h : step s a with
      | none => decidable_of_iff (G s a) (along_cons_none h).symm
      | some t =>
          have := decidableAlong t as
          decidable_of_iff (G s a ∧ Along step G t as) (along_cons_some h).symm

/-- So can a decidable property of the states. -/
instance decidableAlways [DecidablePred P] :
    ∀ (s : σ) (as : List α), Decidable (Always step P s as)
  | s, [] => inferInstanceAs (Decidable (P s))
  | s, a :: as =>
      match h : step s a with
      | none => decidable_of_iff (P s) (by simp [Always, h])
      | some t =>
          have := decidableAlways t as
          decidable_of_iff (P s ∧ Always step P t as) (by simp [Always, h])

/-- Guards that agree wherever `Q` holds and a label is allowed agree along an allowed run. -/
theorem along_iff_along_of {A G' : σ → α → Prop}
    (hQ : ∀ s a s', Q s → A s a → step s a = some s' → Q s')
    (hG : ∀ s a, Q s → A s a → (G s a ↔ G' s a)) : ∀ {as : List α} {s : σ}, Q s →
    Along step A s as → (Along step G s as ↔ Along step G' s as)
  | [], s, _, _ => Iff.rfl
  | a :: as, s, h, ha => by
      refine and_congr (hG s a h ha.1) (forall_congr' fun t => forall_congr' fun ht => ?_)
      exact along_iff_along_of hQ hG (hQ s a t h ha.1 ht) (ha.2 t ht)

theorem along_true : ∀ (as : List α) (s : σ), Along step (fun _ _ => True) s as
  | [], _ => trivial
  | _ :: as, _ => ⟨trivial, fun t _ => along_true as t⟩

/-- Guards that agree wherever `Q` holds agree along a run. -/
theorem along_iff_along {G' : σ → α → Prop} (hQ : ∀ s a s', Q s → step s a = some s' → Q s')
    (hG : ∀ s a, Q s → (G s a ↔ G' s a)) {as : List α} {s : σ} (h : Q s) :
    Along step G s as ↔ Along step G' s as :=
  along_iff_along_of (fun s a s' hq _ => hQ s a s' hq) (fun s a hq _ => hG s a hq) h
    (along_true as s)

/-- What one step preserves, a run preserves. -/
theorem run_invariant (hstep : ∀ s a s', P s → step s a = some s' → P s') :
    ∀ {as : List α} {s s' : σ}, P s → run step s as = some s' → P s'
  | [], s, s', h, hr => by
      rw [run_nil] at hr
      exact Option.some.inj hr ▸ h
  | a :: as, s, s', h, hr => by
      obtain ⟨t, ht, hr'⟩ := run_cons.mp hr
      exact run_invariant hstep (hstep s a t h ht) hr'

/-- What a guarded step preserves, a run whose labels meet the guard preserves. -/
theorem run_guarded (hstep : ∀ s a s', P s → G s a → step s a = some s' → P s') :
    ∀ {as : List α} {s s' : σ}, P s → Along step G s as → run step s as = some s' → P s'
  | [], s, s', h, _, hr => by
      rw [run_nil] at hr
      exact Option.some.inj hr ▸ h
  | a :: as, s, s', h, hg, hr => by
      obtain ⟨t, ht, hr'⟩ := run_cons.mp hr
      exact run_guarded hstep (hstep s a t h hg.1 ht) (hg.2 t ht) hr'

/-- A run whose labels meet a guard has whatever the invariant of the guarded steps implies. -/
theorem along_of_guarded {P : σ → α → Prop}
    (hstep : ∀ s a s', Q s → G s a → step s a = some s' → Q s')
    (hP : ∀ s a, Q s → P s a) : ∀ {as : List α} {s : σ}, Q s → Along step G s as → Along step P s as
  | [], _, _, _ => trivial
  | a :: _, s, hq, hg =>
      ⟨hP s a hq, fun t ht => along_of_guarded hstep hP (hstep s a t hq hg.1 ht) (hg.2 t ht)⟩

/-- A guard on the labels alone. -/
theorem along_of_forall : ∀ {as : List α} (s : σ), (∀ t, ∀ a ∈ as, G t a) → Along step G s as
  | [], _, _ => trivial
  | _ :: _, s, h => ⟨h s _ (List.mem_cons_self ..), fun t _ =>
      along_of_forall t fun u a ha => h u a (List.mem_cons_of_mem _ ha)⟩

/--
**An exact guard on the labels.** `Q` holds as long as the labels meet `G`. If from a state
with `Q` an enabled label has the property `P` exactly when it meets `G`, then all labels
of a run have the property exactly when all of them meet `G`.
-/
theorem along_iff_guarded {P : σ → α → Prop}
    (hQ : ∀ s a s', Q s → G s a → step s a = some s' → Q s')
    (hP : ∀ s a s', Q s → step s a = some s' → (P s a ↔ G s a)) :
    ∀ {as : List α} {s s' : σ}, Q s → run step s as = some s' →
      (Along step P s as ↔ Along step G s as)
  | [], _, _, _, _ => Iff.rfl
  | a :: as, s, s', hq, hr => by
      obtain ⟨t, ht, hr'⟩ := run_cons.mp hr
      rw [along_cons_some ht, along_cons_some ht, hP s a t hq ht]
      exact and_congr_right fun hg => along_iff_guarded hQ hP (hQ s a t hq hg ht) hr'

theorem Always.head {s : σ} : ∀ {as : List α}, Always step P s as → P s
  | [], h => h
  | _ :: _, h => h.1

/-- What holds throughout a run holds behind it. -/
theorem Always.last : ∀ {as : List α} {s s' : σ}, Always step P s as → run step s as = some s' →
    P s'
  | [], s, s', h, hr => by
      obtain rfl := Option.some.inj hr
      exact h
  | a :: as, s, s', h, hr => by
      obtain ⟨t, ht, hr'⟩ := run_cons.mp hr
      exact (h.2 t ht).last hr'

/--
**An exact guard.** `Q` is an auxiliary invariant of every step. If from a state
with `Q` and `P` a step reaches a `P` state exactly when its label meets `G`,
then `P` holds throughout a run exactly when all its labels meet `G`.
-/
theorem always_iff_along (hQ : ∀ s a s', Q s → step s a = some s' → Q s')
    (hstep : ∀ s a s', Q s → P s → step s a = some s' → (P s' ↔ G s a)) :
    ∀ {as : List α} {s s' : σ}, Q s → P s → run step s as = some s' →
      (Always step P s as ↔ Along step G s as)
  | [], s, s', _, hp, _ => by simp [Always, Along, hp]
  | a :: as, s, s', hq, hp, hr => by
      obtain ⟨t, ht, hr'⟩ := run_cons.mp hr
      have hone := hstep s a t hq hp ht
      have hq' := hQ s a t hq ht
      constructor
      · intro h
        have hall : Always step P t as := h.2 t ht
        have hpt : P t := hall.head
        refine ⟨hone.mp hpt, fun u hu => ?_⟩
        obtain rfl : t = u := Option.some.inj (ht.symm.trans hu)
        exact (always_iff_along hQ hstep hq' hpt hr').mp hall
      · intro h
        have hpt : P t := hone.mpr h.1
        refine ⟨hp, fun u hu => ?_⟩
        obtain rfl : t = u := Option.some.inj (ht.symm.trans hu)
        exact (always_iff_along hQ hstep hq' hpt hr').mpr (h.2 t ht)

end Runs
