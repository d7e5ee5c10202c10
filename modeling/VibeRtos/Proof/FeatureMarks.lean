import Mathlib.Algebra.Order.BigOperators.Group.List
import VibeRtos.Proof.FeatureSweeps

/-!
# Constants that tell definitions apart

Where the shapes are not settled, the property fails for some constants, as is shown here for
definitions that take what is unknown to be 0. The constants 0 and 1 are chosen by whether a
definition is the last one of its name and whether it can be evaluated: so that a stale
definition shows (`stale_value`), one that cannot be evaluated (`broken_value`), or a chain of
references with more delays than there were sweeps (`delay_bound`).
-/

namespace VibeRtos.Features

open Sweeps

section Items

variable {ms pre before post after : List Item} {m e : Item} {y : Text} {k : Nat} {v : ℤ}
  {R : Text → ℤ}

/-- The evaluation fails for good, or takes what is unknown to be 0. -/
structure Item.Plain (m : Item) : Prop where
  broken : m.shape.works = false → ∀ σ, m.eval σ = none
  plain : m.shape.works = true → ∀ σ, m.eval σ = some (m.const + refSum m.shape.refs σ)
  raw : m.shape.late = false → m.shape.refs = []

theorem Item.Plain.lawful (h : m.Plain) : m.Lawful := ⟨h.broken, fun hw σ _ => h.plain hw σ, h.raw⟩

/-- A plain definition with a value can be evaluated. -/
theorem Item.Plain.eval_some (h : m.Plain) {σ : Table Text ℤ} (hv : m.eval σ = some v) :
    m.shape.works = true ∧ v = m.const + refSum m.shape.refs σ := by
  cases hw : m.shape.works with
  | false =>
      rw [h.broken hw σ] at hv
      exact absurd hv (by simp)
  | true =>
      rw [h.plain hw σ] at hv
      exact ⟨rfl, (Option.some.inj hv).symm⟩

variable {rank : Text → Nat}

/-- With constants that are not negative the expansions are not negative. -/
theorem Solves.nonneg (hR : Solves ms R) (hrank : Ranked ms rank) (hconst : ∀ m ∈ ms, 0 ≤ m.const)
    (hy : ∃ m ∈ ms, m.shape.name = y) : 0 ≤ R y := by
  refine hrank.induction (P := fun y => 0 ≤ R y) (fun pre m post hm ih => ?_) (rank y) y rfl hy
  rw [hR pre m post hm]
  have hsum : 0 ≤ (m.shape.refs.map R).sum := by
    refine List.sum_nonneg fun v hv => ?_
    obtain ⟨z, hz, rfl⟩ := List.mem_map.mp hv
    exact ih z hz
  exact add_nonneg (hconst m (by simp [hm.1])) hsum

theorem Solves.refs_nonneg (hR : Solves ms R) (hrank : Ranked ms rank)
    (hconst : ∀ m ∈ ms, 0 ≤ m.const) (hm : m ∈ ms) : 0 ≤ (m.shape.refs.map R).sum := by
  refine List.sum_nonneg fun v hv => ?_
  obtain ⟨z, hz, rfl⟩ := List.mem_map.mp hv
  exact hR.nonneg hrank hconst (hrank.defined m hm z hz)

/-- One reference is at most the sum, if none is negative. -/
theorem le_refSum {ys : List Text} {σ : Table Text ℤ} (h : ∀ z v, σ z = some v → 0 ≤ v)
    (hy : y ∈ ys) (hv : σ y = some v) : v ≤ refSum ys σ := by
  refine List.single_le_sum (fun u hu => ?_) v (List.mem_map.mpr ⟨y, hy, by rw [hv]; rfl⟩)
  obtain ⟨z, -, rfl⟩ := List.mem_map.mp hu
  cases hz : σ z with
  | none => exact le_rfl
  | some w => exact h z w hz

theorem refSum_nonneg {ys : List Text} {σ : Table Text ℤ} (h : ∀ z v, σ z = some v → 0 ≤ v) :
    0 ≤ refSum ys σ := by
  refine List.sum_nonneg fun u hu => ?_
  obtain ⟨z, -, rfl⟩ := List.mem_map.mp hu
  cases hz : σ z with
  | none => exact le_rfl
  | some w => exact h z w hz

theorem refSum_zero {ys : List Text} {σ : Table Text ℤ} (h : ∀ z v, σ z = some v → v = 0) :
    refSum ys σ = 0 := by
  refine List.sum_eq_zero fun u hu => ?_
  obtain ⟨z, -, rfl⟩ := List.mem_map.mp hu
  cases hz : σ z with
  | none => rfl
  | some w => exact h z w hz

/-- No value in the table is negative. -/
abbrev Nonneg (σ : Table Text ℤ) : Prop := ∀ z v, σ z = some v → 0 ≤ v

theorem rawEntry_some (hplain : m.Plain) {σ : Table Text ℤ} (hv : m.rawEntry.eval σ = some v) :
    m.shape.late = false ∧ m.shape.works = true ∧ v = m.const + refSum m.shape.refs σ := by
  cases hlate : m.shape.late with
  | true => simp [Item.rawEntry, hlate] at hv
  | false =>
      rw [Item.rawEntry] at hv
      simp only [hlate, Bool.false_eq_true, if_false] at hv
      exact ⟨rfl, hplain.eval_some hv⟩

theorem lateEntry_some (hplain : m.Plain) {σ : Table Text ℤ} (hv : m.lateEntry.eval σ = some v) :
    m.shape.Writes m.shape.name ∧ v = m.const + refSum m.shape.refs σ := by
  cases hlate : m.shape.late with
  | false => simp [Item.lateEntry, hlate] at hv
  | true =>
      rw [Item.lateEntry] at hv
      simp only [hlate, if_true] at hv
      obtain ⟨hworks, heq⟩ := hplain.eval_some hv
      exact ⟨⟨hlate, hworks, rfl⟩, heq⟩

section Constants

variable {P : ℤ → Prop}

/-- A property that the evaluations keep holds of everything that is seen. -/
theorem seenAt_holds (hplain : ∀ m ∈ ms, m.Plain) (hpre : ∀ u ∈ pre, u ∈ ms)
    (hstep : ∀ m ∈ ms, m.shape.works = true → ∀ σ : Table Text ℤ, (∀ z v, σ z = some v → P v) →
      P (m.const + refSum m.shape.refs σ)) (k : Nat) :
    ∀ z v, seenAt ms pre k z = some v → P v := by
  have hraw : ∀ e ∈ ms.map Item.rawEntry, ∀ σ, Holds (fun _ v => P v) σ →
      Holds (fun _ v => P v) (e.store σ) := by
    intro e he σ hσ
    obtain ⟨m, hm, rfl⟩ := List.mem_map.mp he
    refine hσ.store fun v hv => ?_
    obtain ⟨-, hworks, rfl⟩ := rawEntry_some (hplain m hm) hv
    exact hstep m hm hworks σ hσ
  have hlate : ∀ us : List Item, (∀ u ∈ us, u ∈ ms) → ∀ e ∈ us.map Item.lateEntry, ∀ σ,
      Holds (fun _ v => P v) σ → Holds (fun _ v => P v) (e.store σ) := by
    intro us hus e he σ hσ
    obtain ⟨m, hm, rfl⟩ := List.mem_map.mp he
    refine hσ.store fun v hv => ?_
    obtain ⟨hw, rfl⟩ := lateEntry_some (hplain m (hus m hm)) hv
    exact hstep m (hus m hm) hw.2.1 σ hσ
  have hinit : Holds (fun _ v => P v) (tableAfter ms 0) :=
    sweep_invariant hraw fun z v hv => by simp at hv
  exact sweep_invariant (hlate pre hpre) (iterate_invariant (hlate ms fun _ h => h) hinit k)

theorem seenAt_nonneg (hplain : ∀ m ∈ ms, m.Plain) (hpre : ∀ u ∈ pre, u ∈ ms)
    (hconst : ∀ m ∈ ms, 0 ≤ m.const) (k : Nat) : Nonneg (seenAt ms pre k) :=
  seenAt_holds hplain hpre (fun m hm _ _ hσ => add_nonneg (hconst m hm) (refSum_nonneg hσ)) k

theorem tableAfter_nonneg (hplain : ∀ m ∈ ms, m.Plain) (hconst : ∀ m ∈ ms, 0 ≤ m.const)
    (k : Nat) : Nonneg (tableAfter ms k) := by
  have hseen : Nonneg (seenAt ms [] k) := seenAt_nonneg hplain (by simp) hconst k
  exact hseen

/-- Storing a value that is not negative. -/
theorem lateEntry_nonneg (hplain : ∀ m ∈ ms, m.Plain) (hconst : ∀ m ∈ ms, 0 ≤ m.const) :
    ∀ e ∈ ms.map Item.lateEntry, ∀ σ, Nonneg σ → Nonneg (e.store σ) := by
  intro e he σ hσ
  obtain ⟨m, hm, rfl⟩ := List.mem_map.mp he
  refine Holds.store (P := fun _ v => 0 ≤ v) hσ fun v hv => ?_
  obtain ⟨-, rfl⟩ := lateEntry_some (hplain m hm) hv
  exact add_nonneg (hconst m hm) (refSum_nonneg hσ)

/-- If a sweep stores under `y`, and only definitions with a positive constant do, then `y` has
a positive value behind it. -/
theorem sweep_positive {us : List Item} {σ : Table Text ℤ} (hplain : ∀ m ∈ us, m.Plain)
    (hconst : ∀ m ∈ us, 0 ≤ m.const) (hpos : ∀ m ∈ us, m.shape.Writes y → 0 < m.const)
    (hσ : Nonneg σ) (h : (∃ v, σ y = some v ∧ 0 < v) ∨ ∃ m ∈ us, m.shape.Writes y) :
    ∃ v, sweep (us.map Item.lateEntry) σ y = some v ∧ 0 < v := by
  refine sweep_exists (I := Nonneg) (lateEntry_nonneg hplain hconst) ?_ hσ (h.imp_right ?_)
  · intro e he hy τ hτ v hv
    obtain ⟨m, hm, rfl⟩ := List.mem_map.mp he
    obtain ⟨hw, rfl⟩ := lateEntry_some (hplain m hm) hv
    exact add_pos_of_pos_of_nonneg (hpos m hm ⟨hw.1, hw.2.1, hy⟩) (refSum_nonneg hτ)
  · rintro ⟨m, hm, hlate, hworks, hy⟩
    refine ⟨m.lateEntry, List.mem_map_of_mem hm, hy, fun τ _ => ?_⟩
    exact ⟨m.const + refSum m.shape.refs τ, by
      simp only [Item.lateEntry, hlate, if_true, (hplain m hm).plain hworks τ]⟩

/-- The same of the literals of the second pass. -/
theorem rawTable_positive (hplain : ∀ m ∈ ms, m.Plain) (hconst : ∀ m ∈ ms, 0 ≤ m.const)
    (hpos : ∀ m ∈ ms, m.shape.works = true → m.shape.name = y → 0 < m.const)
    (h : ∃ m ∈ ms, m.shape.late = false ∧ m.shape.works = true ∧ m.shape.name = y) :
    ∃ v, tableAfter ms 0 y = some v ∧ 0 < v := by
  refine sweep_exists (I := Nonneg) ?_ ?_ (fun z v hv => by simp at hv) (Or.inr ?_)
  · intro e he σ hσ
    obtain ⟨m, hm, rfl⟩ := List.mem_map.mp he
    refine Holds.store (P := fun _ v => 0 ≤ v) hσ fun v hv => ?_
    obtain ⟨-, -, rfl⟩ := rawEntry_some (hplain m hm) hv
    exact add_nonneg (hconst m hm) (refSum_nonneg hσ)
  · intro e he hy τ hτ v hv
    obtain ⟨m, hm, rfl⟩ := List.mem_map.mp he
    obtain ⟨-, hworks, rfl⟩ := rawEntry_some (hplain m hm) hv
    exact add_pos_of_pos_of_nonneg (hpos m hm hworks hy) (refSum_nonneg hτ)
  · obtain ⟨m, hm, hlate, hworks, hy⟩ := h
    refine ⟨m.rawEntry, List.mem_map_of_mem hm, hy, fun τ _ => ?_⟩
    exact ⟨m.const + refSum m.shape.refs τ, by
      simp only [Item.rawEntry, hlate, Bool.false_eq_true, if_false,
        (hplain m hm).plain hworks τ]⟩

end Constants

/-- The constant of a definition depends on whether it is the last one of its name, and on
whether it can be evaluated. -/
def Marked (c : Bool → Bool → ℤ) (ms : List Item) : Prop :=
  ∀ pre m post, ms = pre ++ m :: post →
    m.const = c (decide (∀ f ∈ post, f.shape.name ≠ m.shape.name)) m.shape.works

/-- 0 for the last definitions and 1 for the others. -/
def markStale (last _works : Bool) : ℤ := if last then 0 else 1

/-- 1 for the last definitions that cannot be evaluated, and 0 for all others. -/
def markBroken (last works : Bool) : ℤ := if last && !works then 1 else 0

/-- 1 for the last definitions and 0 for the others. -/
def markLast (last _works : Bool) : ℤ := if last then 1 else 0

/-- The constants are 0 and 1. -/
def IsBit (c : Bool → Bool → ℤ) : Prop := ∀ last works, c last works = 0 ∨ c last works = 1

theorem markStale_bit : IsBit markStale := by
  intro last works
  cases last <;> simp [markStale]

theorem markBroken_bit : IsBit markBroken := by
  intro last works
  unfold markBroken
  split <;> simp

theorem markLast_bit : IsBit markLast := by
  intro last works
  cases last <;> simp [markLast]

section Marked

variable {c : Bool → Bool → ℤ}

theorem Marked.last (h : Marked c ms) (hm : LastItem ms pre m post) :
    m.const = c true m.shape.works := by rw [h pre m post hm.1, decide_eq_true hm.2]

/-- A definition with another one of its name behind it. -/
theorem Marked.other (h : Marked c ms) (hm : ms = pre ++ m :: post) (he : e ∈ post)
    (hname : e.shape.name = m.shape.name) : m.const = c false m.shape.works := by
  rw [h pre m post hm, decide_eq_false fun hlast => hlast e he hname]

/-- A definition with the name of the last definition `e`, but another shape. -/
theorem Marked.other_shape (h : Marked c ms) (hm : m ∈ ms) (he : LastItem ms before e after)
    (hname : m.shape.name = e.shape.name) (hne : m.shape ≠ e.shape) :
    m.const = c false m.shape.works := by
  obtain ⟨pre, post, hsplit⟩ := List.append_of_mem hm
  rw [h pre m post hsplit, decide_eq_false fun hlast => ?_]
  exact hne (by rw [(he.unique ⟨hsplit, hlast⟩ hname).2.1])

theorem Marked.nonneg (h : Marked c ms) (hc : IsBit c) : ∀ m ∈ ms, 0 ≤ m.const := by
  intro m hm
  obtain ⟨pre, post, hsplit⟩ := List.append_of_mem hm
  rw [h pre m post hsplit]
  rcases hc (decide (∀ f ∈ post, f.shape.name ≠ m.shape.name)) m.shape.works with hbit | hbit
  · exact hbit.ge
  · rw [hbit]
    exact Int.zero_le_ofNat 1

end Marked

/-! ### A stale definition is seen -/

/-- Behind the definitions `pre`, an older definition of `y` is seen than the last one. -/
inductive SeesStale (ss pre : List Shape) (y : Text) : Prop where
  /-- one in front is stored, and the last one is not in front -/
  | front {before : List Shape} {e u : Shape} : Last ss before e → e.name = y →
      pre.length ≤ before.length → u ∈ pre → u.Writes y → SeesStale ss pre y
  /-- one is stored, and the last one never is -/
  | stored {before : List Shape} {e u : Shape} : Last ss before e → e.name = y →
      ¬ e.Writes y → u ∈ ss → u.Writes y → SeesStale ss pre y
  /-- an older literal is stored by the second pass -/
  | literal {before : List Shape} {e u : Shape} : Last ss before e → e.name = y →
      e.works = false → (∀ t ∈ ss, ¬ t.Writes y) → u ∈ ss → u.late = false → u.works = true →
      u.name = y → SeesStale ss pre y

/-- Where the last definition is not seen, an older one is or none can be evaluated. -/
theorem stale_or_broken {ss ps : List Shape} (hy : ∃ before e, Last ss before e ∧ e.name = y)
    (h : ¬ SeesLast ss ps y) :
    SeesStale ss ps y ∨ ∀ u ∈ ss, u.name = y → u.works = false := by
  obtain ⟨before, e, he, hname⟩ := hy
  by_cases hworks : e.works = true
  · refine Or.inl ?_
    cases hlate : e.late with
    | true =>
        have hcond : ¬ (before.length < ps.length ∨ ∀ u ∈ ps, ¬ u.Writes y) := by
          intro hplace
          exact h ⟨before, e, he, hname, hworks, by rw [hlate, if_pos rfl]; exact hplace⟩
        rw [not_or, not_lt, not_forall] at hcond
        obtain ⟨hle, u, hu⟩ := hcond
        rw [Classical.not_imp, not_not] at hu
        exact .front he hname hle hu.1 hu.2
    | false =>
        have hcond : ¬ ∀ u ∈ ss, ¬ u.Writes y := by
          intro hall
          exact h ⟨before, e, he, hname, hworks, by rw [hlate, if_neg (by simp)]; exact hall⟩
        rw [not_forall] at hcond
        obtain ⟨u, hu⟩ := hcond
        rw [Classical.not_imp, not_not] at hu
        exact .stored he hname (fun hw => by simp [Shape.Writes, hlate] at hw) hu.1 hu.2
  · have hbroken : e.works = false := by simpa using hworks
    by_cases hwrites : ∃ u ∈ ss, u.Writes y
    · obtain ⟨u, hu, hw⟩ := hwrites
      exact Or.inl (.stored he hname (fun hw' => hworks hw'.2.1) hu hw)
    · by_cases hlit : ∃ u ∈ ss, u.works = true ∧ u.name = y
      · obtain ⟨u, hu, huw, hun⟩ := hlit
        have hnone : ∀ t ∈ ss, ¬ t.Writes y := fun t ht hw => hwrites ⟨t, ht, hw⟩
        have hlate : u.late = false := by
          by_contra hl
          exact hnone u hu ⟨by simpa using hl, huw, hun⟩
        exact Or.inl (.literal he hname hbroken hnone hu hlate huw hun)
      · refine Or.inr fun u hu hun => ?_
        by_contra huw
        exact hlit ⟨u, hu, by simpa using huw, hun⟩

/-- What is seen of a stale definition under `markStale`. -/
theorem SeesStale.positive (hplain : ∀ m ∈ ms, m.Plain) (hmark : Marked markStale ms)
    (hm : LastItem ms pre m post) (h : SeesStale (ms.map Item.shape) (pre.map Item.shape) y) :
    ∃ v, seenAt ms pre (k + 1) y = some v ∧ 0 < v := by
  have hpre : ∀ u ∈ pre, u ∈ ms := fun u hu => by simp [hm.1, hu]
  have hconst : ∀ m ∈ ms, 0 ≤ m.const := hmark.nonneg markStale_bit
  have hplain' : ∀ u ∈ pre, u.Plain := fun u hu => hplain u (hpre u hu)
  have hconst' : ∀ u ∈ pre, 0 ≤ u.const := fun u hu => hconst u (hpre u hu)
  have hinit := tableAfter_nonneg hplain hconst (k + 1)
  cases h with
  | @front _ _ _ hlast hname hle hmem hw =>
      obtain ⟨before, e, after, he, rfl, rfl⟩ := exists_item hlast
      obtain ⟨w, hw_mem, rfl⟩ := List.mem_map.mp hmem
      refine sweep_positive hplain' hconst' (fun u hu hw' => ?_) hinit (Or.inr ⟨w, hw_mem, hw⟩)
      -- the last definition is behind `pre`, so that the one in front is another
      have hbehind : e ∈ m :: post := by
        rw [List.length_map, List.length_map] at hle
        rcases List.append_eq_append_iff.mp (hm.1.symm.trans he.1) with ⟨ws, -, ht⟩ | ⟨ws, hp, ht⟩
        · rw [ht]
          simp
        · rw [hp, List.length_append] at hle
          obtain rfl : ws = [] := List.eq_nil_of_length_eq_zero (by omega)
          rw [← List.nil_append (m :: post), ← ht]
          simp
      obtain ⟨us, vs, hus⟩ := List.append_of_mem hu
      have hsplit : ms = us ++ u :: (vs ++ m :: post) := by simp [hm.1, hus]
      rw [hmark.other hsplit (List.mem_append_right vs hbehind) (hname.trans hw'.2.2.symm)]
      exact Int.zero_lt_one
  | @stored _ _ _ hlast hname hne hmem hw =>
      obtain ⟨before, e, after, he, rfl, rfl⟩ := exists_item hlast
      obtain ⟨w, hw_mem, rfl⟩ := List.mem_map.mp hmem
      have hpos : ∀ u ∈ ms, u.shape.Writes y → 0 < u.const := by
        intro u hu hw'
        rw [hmark.other_shape hu he (hw'.2.2.trans hname.symm) fun heq => hne (heq ▸ hw')]
        exact Int.zero_lt_one
      refine sweep_positive hplain' hconst' (fun u hu => hpos u (hpre u hu)) hinit (Or.inl ?_)
      rw [tableAfter_succ]
      have hinit' := tableAfter_nonneg hplain hconst k
      exact sweep_positive hplain hconst hpos hinit' (Or.inr ⟨w, hw_mem, hw⟩)
  | @literal _ _ _ hlast hname hbroken hnone hmem hlate hworks huy =>
      obtain ⟨before, e, after, he, rfl, rfl⟩ := exists_item hlast
      obtain ⟨w, hw_mem, rfl⟩ := List.mem_map.mp hmem
      have hnone' : ∀ u ∈ ms, ¬ u.shape.Writes y := fun u hu =>
        hnone u.shape (List.mem_map_of_mem hu)
      have hlaw : ∀ m ∈ ms, m.Lawful := fun m hm => (hplain m hm).lawful
      rw [seenAt_silent (fun u hu => hlaw u (hpre u hu)) fun u hu => hnone' u (hpre u hu),
        tableAfter, iterate_silent (silent_late hlaw hnone')]
      refine rawTable_positive hplain hconst (fun u hu hw hun => ?_) ⟨w, hw_mem, hlate, hworks, huy⟩
      rw [hmark.other_shape hu he (hun.trans hname.symm) fun heq => ?_]
      · exact Int.zero_lt_one
      · rw [heq, hbroken] at hw
        exact absurd hw (by simp)

/-- If the last definitions are 0 and the others 1, a stale reference makes a difference. -/
theorem stale_value (hplain : ∀ m ∈ ms, m.Plain) (hrank : Ranked ms rank) (hR : Solves ms R)
    (hmark : Marked markStale ms) (hm : LastItem ms pre m post) (hworks : m.shape.works = true)
    (hy : y ∈ m.shape.refs) (hstale : SeesStale (ms.map Item.shape) (pre.map Item.shape) y) :
    m.eval (seenAt ms pre (k + 1)) ≠ some (R m.shape.name) := by
  have hmem : m ∈ ms := by simp [hm.1]
  have hpre : ∀ u ∈ pre, u ∈ ms := fun u hu => by simp [hm.1, hu]
  have hconst : ∀ m ∈ ms, 0 ≤ m.const := hmark.nonneg markStale_bit
  have hzero : R m.shape.name = 0 := by
    refine hrank.induction (P := fun y => R y = 0) (fun pre' m' post' hm' ih => ?_) _ _ rfl
      ⟨m, hmem, rfl⟩
    rw [hR pre' m' post' hm', hmark.last hm', markStale, if_pos rfl, Int.zero_add]
    refine List.sum_eq_zero fun v hv => ?_
    obtain ⟨z, hz, rfl⟩ := List.mem_map.mp hv
    exact ih z hz
  obtain ⟨v, hv, hpos⟩ := hstale.positive (k := k) hplain hmark hm
  have hle := le_refSum (seenAt_nonneg hplain hpre hconst (k + 1)) hy hv
  rw [(hplain m hmem).plain hworks, hzero, hmark.last hm, markStale, if_pos rfl, Int.zero_add]
  intro heq
  have hsum := Option.some.inj heq
  omega

/-! ### No definition can be evaluated -/

/-- If only the last definitions that cannot be evaluated are 1, a reference to one of them
makes a difference. -/
theorem broken_value (hplain : ∀ m ∈ ms, m.Plain) (hrank : Ranked ms rank) (hR : Solves ms R)
    (hmark : Marked markBroken ms) (hm : LastItem ms pre m post) (hworks : m.shape.works = true)
    (hy : y ∈ m.shape.refs) (hbroken : ∀ u ∈ ms, u.shape.name = y → u.shape.works = false) :
    m.eval (seenAt ms pre k) ≠ some (R m.shape.name) := by
  have hmem : m ∈ ms := by simp [hm.1]
  have hpre : ∀ u ∈ pre, u ∈ ms := fun u hu => by simp [hm.1, hu]
  have hconst : ∀ m ∈ ms, 0 ≤ m.const := hmark.nonneg markBroken_bit
  have hworking : ∀ u ∈ ms, u.shape.works = true → u.const = 0 := by
    intro u hu huw
    obtain ⟨us, vs, hsplit⟩ := List.append_of_mem hu
    rw [hmark us u vs hsplit, markBroken, huw]
    simp
  -- everything that is stored is 0
  have hzero : ∀ z v, seenAt ms pre k z = some v → v = 0 := by
    refine seenAt_holds (P := fun v => v = 0) hplain hpre (fun u hu huw σ hσ => ?_) k
    rw [hworking u hu huw, Int.zero_add]
    exact refSum_zero hσ
  have hsum : refSum m.shape.refs (seenAt ms pre k) = 0 := refSum_zero hzero
  -- while the expansion counts the broken definition
  have hdef := hrank.defined m hmem
  have hnonneg : ∀ z ∈ m.shape.refs, 0 ≤ R z := fun z hz =>
    hR.nonneg hrank hconst (hdef z hz)
  have hone : 1 ≤ R y := by
    obtain ⟨before, e, after, he, rfl⟩ := exists_last (hdef y hy)
    have hrefs := hR.refs_nonneg hrank hconst (m := e) (by simp [he.1])
    have hbrokenE := hbroken e (by simp [he.1]) rfl
    rw [hR before e after he, hmark.last he, hbrokenE]
    simp only [markBroken]
    simpa using hrefs
  have hle : R y ≤ (m.shape.refs.map R).sum := by
    refine List.single_le_sum (fun v hv => ?_) _ (List.mem_map_of_mem hy)
    obtain ⟨z, hz, rfl⟩ := List.mem_map.mp hv
    exact hnonneg z hz
  rw [(hplain m hmem).plain hworks, hworking m hmem hworks, hsum, hR pre m post hm,
    hworking m hmem hworks]
  intro heq
  have heq' := Option.some.inj heq
  omega

/-! ### A chain has too many delays -/

theorem Delay.inv {ss : List Shape} {x : Text} {n : Nat} (h : Delay ss x n) :
    n = 0 ∨ ∃ ps bs s t n', s.name = x ∧ Last ss ps s ∧ Last ss bs t ∧ t.late = true
      ∧ t.name ∈ s.refs ∧ Delay ss t.name n' ∧ n = n' + if ps.length < bs.length then 1 else 0 := by
  cases h with
  | zero => exact Or.inl rfl
  | step hs _ _ ht htl hmem hn => exact Or.inr ⟨_, _, _, _, _, rfl, hs, ht, htl, hmem, hn, rfl⟩

/-- Before the first sweep a definition of the sweeps is not known. -/
theorem unknown_before (hplain : ∀ m ∈ ms, m.Plain) (hmark : Marked markLast ms)
    (he : LastItem ms before e after) (hlate : e.shape.late = true) :
    (tableAfter ms 0 e.shape.name).getD 0 = 0 := by
  have hzero : ∀ v, tableAfter ms 0 e.shape.name = some v → v = 0 := by
    refine sweep_forall (fun f hf hname σ v hv => ?_) (by simp)
    obtain ⟨u, hu, rfl⟩ := List.mem_map.mp hf
    obtain ⟨hraw, hworks, rfl⟩ := rawEntry_some (hplain u hu) hv
    have hother := hmark.other_shape hu he hname fun heq => by
      rw [heq, hlate] at hraw
      exact absurd hraw (by simp)
    rw [hother, (hplain u hu).raw hraw]
    rfl
  cases hv : tableAfter ms 0 e.shape.name with
  | none => rfl
  | some v => exact hzero v hv

/-- If the last definitions are 1, every expansion is positive. -/
theorem expansion_pos (hrank : Ranked ms rank) (hR : Solves ms R) (hmark : Marked markLast ms)
    (he : LastItem ms before e after) : 0 < R e.shape.name := by
  have hconst : ∀ m ∈ ms, 0 ≤ m.const := hmark.nonneg markLast_bit
  have hrefs := hR.refs_nonneg hrank hconst (m := e) (by simp [he.1])
  rw [hR before e after he, hmark.last he, markLast, if_pos rfl]
  omega

/-- If the last definitions are 1 and the others 0, no value is above the expansion, and a value
is below it while a chain has more delays than there were sweeps. -/
theorem delay_bound (hplain : ∀ m ∈ ms, m.Plain) (hrank : Ranked ms rank) (hR : Solves ms R)
    (hmark : Marked markLast ms) (hsees : SeesLasts ms) :
    ∀ (r : Nat) {pre m post}, rank m.shape.name = r → LastItem ms pre m post →
      m.shape.late = true → m.shape.works = true → ∀ k,
      ∃ v, m.eval (seenAt ms pre k) = some v ∧ v ≤ R m.shape.name ∧
        ((∃ n, Delay (ms.map Item.shape) m.shape.name n ∧ k < n) → v < R m.shape.name) := by
  have hlaw : ∀ m ∈ ms, m.Lawful := fun m hm => (hplain m hm).lawful
  intro r
  induction r using Nat.strongRecOn with
  | ind r ih =>
    intro pre m post hr hm hlate hworks k
    have hmem : m ∈ ms := by simp [hm.1]
    -- what is read under a reference, with the delay that the reference costs
    have hread : ∀ y ∈ m.shape.refs, (seenAt ms pre k y).getD 0 ≤ R y ∧
        ∀ before e after, LastItem ms before e after → e.shape.name = y → e.shape.late = true →
          ∀ n, Delay (ms.map Item.shape) y n →
          k < n + (if pre.length < before.length then 1 else 0) →
          (seenAt ms pre k y).getD 0 < R y := by
      intro y hy
      have hlt := hrank.descends pre m post hm y hy
      have hne : y ≠ m.shape.name := fun heq => by rw [heq] at hlt; omega
      obtain ⟨before, e, after, he, rfl, hew, hcase⟩ :=
        (hsees pre m post hm hlate hworks y hy).read hlaw hm hne
      have hposR := expansion_pos hrank hR hmark he
      rcases hcase with ⟨helate, hbefore, hsame⟩ | ⟨helate, hlater, htable, hnext⟩ | ⟨heraw, hconst⟩
      · obtain ⟨v, hv, hle, hstrict⟩ := ih _ (by omega) rfl he helate hew k
        rw [hsame k v hv, Option.getD_some]
        refine ⟨hle, fun before' e' after' he' hname' _ n hn hk => ?_⟩
        rw [(he.unique he' hname').1, if_neg (by omega)] at hk
        exact hstrict ⟨n, hn, hk⟩
      · cases k with
        | zero =>
            rw [htable, unknown_before hplain hmark he helate]
            exact ⟨hposR.le, fun _ _ _ _ _ _ _ _ _ => hposR⟩
        | succ k =>
            obtain ⟨v, hv, hle, hstrict⟩ := ih _ (by omega) rfl he helate hew k
            rw [hnext k v hv, Option.getD_some]
            refine ⟨hle, fun before' e' after' he' hname' _ n hn hk => ?_⟩
            rw [(he.unique he' hname').1, if_pos hlater] at hk
            exact hstrict ⟨n, hn, by omega⟩
      · have heq := hR before e after he
        rw [(hlaw e (by simp [he.1])).raw heraw, List.map_nil, List.sum_nil, Int.add_zero] at heq
        rw [hconst k, Option.getD_some, heq]
        refine ⟨le_rfl, fun before' e' after' he' hname' hlate' _ _ _ => ?_⟩
        rw [(he.unique he' hname').2.1, heraw] at hlate'
        exact absurd hlate' (by simp)
    refine ⟨_, (hplain m hmem).plain hworks _, ?_, ?_⟩
    · rw [hR pre m post hm]
      have hsum : refSum m.shape.refs (seenAt ms pre k) ≤ (m.shape.refs.map R).sum :=
        List.sum_le_sum fun y hy => (hread y hy).1
      omega
    · rintro ⟨n, hn, hk⟩
      rcases hn.inv with rfl | ⟨ps, bs, s, t, n', hname, hs, ht, htlate, href, hn', rfl⟩
      · omega
      · obtain ⟨pre', m', post', hm', rfl, rfl⟩ := exists_item hs
        obtain ⟨before, e, after, he, rfl, rfl⟩ := exists_item ht
        obtain ⟨rfl, rfl, -⟩ := hm.unique hm' hname
        rw [List.length_map, List.length_map] at hk
        rw [hR pre' m' post hm]
        have hsum : refSum m'.shape.refs (seenAt ms pre' k) < (m'.shape.refs.map R).sum :=
          List.sum_lt_sum _ _ (fun y hy => (hread y hy).1)
            ⟨e.shape.name, href, (hread _ href).2 before e after he rfl htlate n' hn' hk⟩
        omega

end Items

end VibeRtos.Features
