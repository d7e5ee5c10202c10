import Mathlib.Data.List.Basic
import Mathlib.Logic.Function.Iterate

/-!
# Sweeps over a table

Entries that evaluate against a table of named values and store their result back into it, one
after the other, so that an entry sees what the entries before it have just stored and what the
others stored in the sweep before. An entry whose evaluation fails stores nothing, and several
entries may have one name.

What a sweep stores is determined by the values it computes (`sweep_eq_overlay`). A sweep that
computes what was there already therefore leaves the table as it is, so that stopping at the
first such sweep (`settle`) is the same as going on (`settle_eq`).
-/

namespace Sweeps

variable {ν β : Type} [DecidableEq ν]

/-- The value of each name that has one. -/
abbrev Table (ν β : Type) := ν → Option β

structure Entry (ν β : Type) where
  name : ν
  eval : Table ν β → Option β

/-- Store a value under a name, if there is one. -/
def put (n : ν) (v : Option β) (σ : Table ν β) : Table ν β :=
  match v with
  | some v => Function.update σ n (some v)
  | none => σ

/-- Evaluate one entry and store its value. -/
def Entry.store (e : Entry ν β) (σ : Table ν β) : Table ν β := put e.name (e.eval σ) σ

/-- Evaluate and store the entries in order. -/
def sweep (es : List (Entry ν β)) (σ : Table ν β) : Table ν β := es.foldl (fun σ e => e.store σ) σ

/-- What the entries evaluate to in a sweep. -/
def values : List (Entry ν β) → Table ν β → List (Option β)
  | [], _ => []
  | e :: es, σ => e.eval σ :: values es (e.store σ)

/-- Store a list of values under a list of names. -/
def overlay : List ν → List (Option β) → Table ν β → Table ν β
  | n :: ns, v :: vs, σ => overlay ns vs (put n v σ)
  | _, _, σ => σ

/-- Sweep until nothing changes, at most `n` times. -/
def settle [DecidableEq β] (es : List (Entry ν β)) :
    Nat → Table ν β → List (Option β) → Table ν β × List (Option β)
  | 0, σ, vs => (σ, vs)
  | n + 1, σ, vs =>
      if values es σ = vs then (sweep es σ, values es σ)
      else settle es n (sweep es σ) (values es σ)

variable {e : Entry ν β} {es p q : List (Entry ν β)} {σ : Table ν β} {n y : ν} {v : β}

@[simp] theorem sweep_nil (σ : Table ν β) : sweep [] σ = σ := rfl

theorem sweep_cons (e : Entry ν β) (es : List (Entry ν β)) (σ : Table ν β) :
    sweep (e :: es) σ = sweep es (e.store σ) := rfl

theorem sweep_append (p q : List (Entry ν β)) (σ : Table ν β) :
    sweep (p ++ q) σ = sweep q (sweep p σ) := List.foldl_append

theorem values_append (p q : List (Entry ν β)) (σ : Table ν β) :
    values (p ++ q) σ = values p σ ++ values q (sweep p σ) := by
  induction p generalizing σ with
  | nil => rfl
  | cons e p ih =>
      rw [List.cons_append, values, values, ih, List.cons_append, sweep_cons]

theorem length_values (es : List (Entry ν β)) (σ : Table ν β) :
    (values es σ).length = es.length := by
  induction es generalizing σ with
  | nil => rfl
  | cons e es ih => rw [values, List.length_cons, ih, List.length_cons]

/-! ## The end of the sweeps -/

theorem put_apply (n : ν) (o : Option β) (σ : Table ν β) (y : ν) :
    put n o σ y = (if n = y then o else none).or (σ y) := by
  cases o with
  | none => simp [put]
  | some v =>
      by_cases hy : n = y
      · subst hy
        simp [put]
      · simp [put, hy, Function.update_of_ne (Ne.symm hy)]

/-- The last value that the lists have for a name. -/
def pick : List ν → List (Option β) → ν → Option β
  | n :: ns, v :: vs, y => (pick ns vs y).or (if n = y then v else none)
  | _, _, _ => none

theorem overlay_apply : ∀ (ns : List ν) (vs : List (Option β)) (σ : Table ν β) (y : ν),
    overlay ns vs σ y = (pick ns vs y).or (σ y)
  | n :: ns, v :: vs, σ, y => by
      rw [overlay, overlay_apply ns vs, put_apply, pick, Option.or_assoc]
  | [], _, σ, y => by simp [overlay, pick]
  | _ :: _, [], σ, y => by simp [overlay, pick]

theorem overlay_idem (ns : List ν) (vs : List (Option β)) (σ : Table ν β) :
    overlay ns vs (overlay ns vs σ) = overlay ns vs σ := by
  funext y
  rw [overlay_apply, overlay_apply, ← Option.or_assoc, Option.or_self]

theorem overlay_none (ns : List ν) (vs : List (Option β)) (h : ∀ v ∈ vs, v = none)
    (σ : Table ν β) : overlay ns vs σ = σ := by
  induction ns generalizing vs σ with
  | nil => rfl
  | cons n ns ih =>
      cases vs with
      | nil => rfl
      | cons v vs =>
          obtain rfl := h v List.mem_cons_self
          exact ih vs (fun w hw => h w (List.mem_cons_of_mem _ hw)) σ

theorem sweep_eq_overlay (es : List (Entry ν β)) (σ : Table ν β) :
    sweep es σ = overlay (es.map Entry.name) (values es σ) σ := by
  induction es generalizing σ with
  | nil => rfl
  | cons e es ih => rw [sweep_cons, ih, List.map_cons, values, overlay, Entry.store]

/-- **Stopping early changes nothing.** The values `vs` have been stored already. -/
theorem settle_eq [DecidableEq β] (es : List (Entry ν β)) (n : Nat) (σ : Table ν β)
    (vs : List (Option β)) (h : overlay (es.map Entry.name) vs σ = σ) :
    settle es (n + 1) σ vs = ((sweep es)^[n + 1] σ, values es ((sweep es)^[n] σ)) := by
  induction n generalizing σ vs with
  | zero =>
      rw [settle]
      split <;> rfl
  | succ n ih =>
      rw [settle]
      split
      · rename_i hsame
        have hfix : sweep es σ = σ := by rw [sweep_eq_overlay, hsame, h]
        rw [Function.iterate_fixed hfix, Function.iterate_fixed hfix, hfix]
      · have hstored : overlay (es.map Entry.name) (values es σ) (sweep es σ) = sweep es σ := by
          rw [sweep_eq_overlay, overlay_idem]
        rw [ih _ _ hstored]
        rfl

/-! ## What an entry sees -/

theorem store_self (h : e.eval σ = some v) : e.store σ e.name = some v := by
  rw [Entry.store, put_apply, h, if_pos rfl, Option.some_or]

theorem store_of_ne (h : e.name ≠ y) : e.store σ y = σ y := by
  rw [Entry.store, put_apply, if_neg h, Option.none_or]

theorem store_none (h : e.eval σ = none) : e.store σ = σ := by
  rw [Entry.store, h, put]

/-- The entries of the name never have a value. -/
def Silent (es : List (Entry ν β)) (y : ν) : Prop :=
  ∀ e ∈ es, e.name = y → ∀ σ, e.eval σ = none

theorem sweep_silent (h : Silent es y) : sweep es σ y = σ y := by
  induction es generalizing σ with
  | nil => rfl
  | cons e es ih =>
      rw [sweep_cons, ih fun f hf => h f (List.mem_cons_of_mem _ hf)]
      by_cases hy : e.name = y
      · rw [store_none (h e List.mem_cons_self hy σ)]
      · exact store_of_ne hy

theorem iterate_silent (h : Silent es y) (n : Nat) : (sweep es)^[n] σ y = σ y := by
  induction n with
  | zero => rfl
  | succ n ih => rw [Function.iterate_succ_apply', sweep_silent h, ih]

/-- The value of an entry is what is seen of its name while no later one is stored. -/
theorem sweep_at (h : e.eval (sweep p σ) = some v) (hq : Silent q e.name) :
    sweep (p ++ e :: q) σ e.name = some v := by
  rw [sweep_append, sweep_cons, sweep_silent hq, store_self h]

/-- What every evaluation keeps of the table, a sweep keeps. -/
theorem sweep_invariant {I : Table ν β → Prop} (hstep : ∀ e ∈ es, ∀ σ, I σ → I (e.store σ))
    (h : I σ) : I (sweep es σ) := by
  induction es generalizing σ with
  | nil => exact h
  | cons e es ih =>
      exact ih (fun f hf => hstep f (List.mem_cons_of_mem _ hf))
        (hstep e List.mem_cons_self σ h)

theorem iterate_invariant {I : Table ν β → Prop} (hstep : ∀ e ∈ es, ∀ σ, I σ → I (e.store σ))
    (h : I σ) (n : Nat) : I ((sweep es)^[n] σ) := by
  induction n with
  | zero => exact h
  | succ n ih =>
      rw [Function.iterate_succ_apply']
      exact sweep_invariant hstep ih

/-- One property of everything that is in the table. -/
def Holds (P : ν → β → Prop) (σ : Table ν β) : Prop := ∀ y v, σ y = some v → P y v

theorem Holds.store {P : ν → β → Prop} (h : Holds P σ) (he : ∀ v, e.eval σ = some v → P e.name v) :
    Holds P (e.store σ) := by
  intro y v hv
  by_cases hy : e.name = y
  · subst hy
    cases hev : e.eval σ with
    | none =>
        rw [store_none hev] at hv
        exact h _ v hv
    | some w =>
        rw [store_self hev] at hv
        exact he v (hev.trans hv)
  · rw [store_of_ne hy] at hv
    exact h y v hv

/-- One property of everything that is stored under a name. -/
theorem sweep_forall {P : β → Prop}
    (hP : ∀ e ∈ es, e.name = y → ∀ σ v, e.eval σ = some v → P v)
    (h : ∀ v, σ y = some v → P v) : ∀ v, sweep es σ y = some v → P v :=
  sweep_invariant (I := fun σ => ∀ v, σ y = some v → P v) (fun e he σ hσ v hv => by
    by_cases hy : e.name = y
    · subst hy
      cases hev : e.eval σ with
      | none =>
          rw [store_none hev] at hv
          exact hσ v hv
      | some w =>
          rw [store_self hev] at hv
          exact hP e he rfl σ v (hev.trans hv)
    · rw [store_of_ne hy] at hv
      exact hσ v hv) h

/-- A value with a property that all values under the name have stays there, and an entry that
always has a value puts one there. -/
theorem sweep_exists {I : Table ν β → Prop} {P : β → Prop}
    (hstep : ∀ e ∈ es, ∀ σ, I σ → I (e.store σ))
    (hP : ∀ e ∈ es, e.name = y → ∀ σ, I σ → ∀ v, e.eval σ = some v → P v) (hI : I σ)
    (h : (∃ v, σ y = some v ∧ P v)
      ∨ ∃ e ∈ es, e.name = y ∧ ∀ σ, I σ → ∃ v, e.eval σ = some v) :
    ∃ v, sweep es σ y = some v ∧ P v := by
  induction es generalizing σ with
  | nil =>
      rcases h with h | ⟨e, he, -⟩
      · exact h
      · simp at he
  | cons e es ih =>
      have he : e ∈ e :: es := List.mem_cons_self
      rw [sweep_cons]
      refine ih (fun f hf => hstep f (List.mem_cons_of_mem _ hf))
        (fun f hf => hP f (List.mem_cons_of_mem _ hf)) (hstep e he σ hI) ?_
      by_cases hy : e.name = y
      · subst hy
        cases hev : e.eval σ with
        | some v => exact Or.inl ⟨v, store_self hev, hP e he rfl σ hI v hev⟩
        | none =>
            rw [store_none hev]
            refine h.imp_right fun ⟨f, hf, hfy, hsome⟩ => ?_
            rcases List.mem_cons.mp hf with rfl | hf
            · obtain ⟨v, hv⟩ := hsome σ hI
              rw [hev] at hv
              exact absurd hv (by simp)
            · exact ⟨f, hf, hfy, hsome⟩
      · rw [store_of_ne hy]
        refine h.imp_right fun ⟨f, hf, hfy, hsome⟩ => ?_
        rcases List.mem_cons.mp hf with rfl | hf
        · exact absurd hfy hy
        · exact ⟨f, hf, hfy, hsome⟩

end Sweeps
