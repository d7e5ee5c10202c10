import Mathlib
import VibeRtos.Features.Expansion
import VibeRtos.Lib.Sweeps

/-!
# The sweeps and the last definitions

A definition is taken here as its shape, the sum of its constants and a function that evaluates
it against a table, which is exact once all of its references are known. `R` is the expansion
under the last definitions.

If the shapes are settled, then after sweep `k` the value of every last definition is `R` as
long as no chain from it has more than `k` delays: by induction on the rank of the name, as a
reference costs a sweep only if it goes to a definition further down (`value_of_delay`).
-/

namespace VibeRtos.Features

open Sweeps

/-- A definition as the sweeps see it. -/
structure Item where
  shape : Shape
  const : ℤ
  eval : Table Text ℤ → Option ℤ

/-- The sum over the references, with 0 for what is unknown. -/
def refSum (ys : List Text) (σ : Table Text ℤ) : ℤ := (ys.map fun y => (σ y).getD 0).sum

/-- The evaluation fails for good, or it is exact once all references are known. -/
structure Item.Lawful (m : Item) : Prop where
  broken : m.shape.works = false → ∀ σ, m.eval σ = none
  exact : m.shape.works = true → ∀ σ, (∀ y ∈ m.shape.refs, (σ y).isSome) →
    m.eval σ = some (m.const + refSum m.shape.refs σ)
  raw : m.shape.late = false → m.shape.refs = []

def Item.rawEntry (m : Item) : Entry Text ℤ :=
  ⟨m.shape.name, fun σ => if m.shape.late then none else m.eval σ⟩

def Item.lateEntry (m : Item) : Entry Text ℤ :=
  ⟨m.shape.name, fun σ => if m.shape.late then m.eval σ else none⟩

/-- The table behind the second pass and `k` sweeps of the third. -/
def tableAfter (ms : List Item) (k : Nat) : Table Text ℤ :=
  (sweep (ms.map Item.lateEntry))^[k] (sweep (ms.map Item.rawEntry) fun _ => none)

/-- What a definition behind `pre` sees in the sweep after `k` sweeps. -/
def seenAt (ms pre : List Item) (k : Nat) : Table Text ℤ :=
  sweep (pre.map Item.lateEntry) (tableAfter ms k)

/-- `m` is the last definition of its name. -/
def LastItem (ms pre : List Item) (m : Item) (post : List Item) : Prop :=
  ms = pre ++ m :: post ∧ ∀ f ∈ post, f.shape.name ≠ m.shape.name

/-- `R` is the expansion under the last definitions. -/
def Solves (ms : List Item) (R : Text → ℤ) : Prop :=
  ∀ pre m post, LastItem ms pre m post →
    R m.shape.name = m.const + (m.shape.refs.map R).sum

section Items

variable {ms pre before post after : List Item} {m e : Item} {y : Text} {k : Nat} {v : ℤ}
  {R : Text → ℤ}

theorem tableAfter_succ (ms : List Item) (k : Nat) :
    tableAfter ms (k + 1) = sweep (ms.map Item.lateEntry) (tableAfter ms k) :=
  Function.iterate_succ_apply' ..

theorem LastItem.last (h : LastItem ms pre m post) :
    Last (ms.map Item.shape) (pre.map Item.shape) m.shape := by
  obtain ⟨rfl, hpost⟩ := h
  refine ⟨post.map Item.shape, by simp, fun t ht => ?_⟩
  obtain ⟨f, hf, rfl⟩ := List.mem_map.mp ht
  exact hpost f hf

theorem exists_item {ps : List Shape} {s : Shape} (h : Last (ms.map Item.shape) ps s) :
    ∃ pre m post, LastItem ms pre m post ∧ pre.map Item.shape = ps ∧ m.shape = s := by
  obtain ⟨ts, hsplit, hpost⟩ := h
  obtain ⟨pre, rest, rfl, rfl, hrest⟩ := List.map_eq_append_iff.mp hsplit
  obtain ⟨m, post, rfl, rfl, rfl⟩ := List.map_eq_cons_iff.mp hrest
  exact ⟨pre, m, post, ⟨rfl, fun f hf => hpost _ (List.mem_map_of_mem hf)⟩, rfl, rfl⟩

/-- Of one name there is one last definition. -/
theorem LastItem.unique {m' : Item} {pre' post' : List Item} (h : LastItem ms pre m post)
    (h' : LastItem ms pre' m' post') (hname : m'.shape.name = m.shape.name) :
    pre' = pre ∧ m' = m ∧ post' = post := by
  obtain ⟨rfl, hpost⟩ := h
  obtain ⟨heq, hpost'⟩ := h'
  rcases List.append_eq_append_iff.mp heq with ⟨us, hpre, htail⟩ | ⟨us, hpre, htail⟩
  · cases us with
    | nil =>
        obtain ⟨rfl, rfl⟩ := List.cons.inj htail
        exact ⟨by simpa using hpre, rfl, rfl⟩
    | cons u us =>
        obtain ⟨rfl, rfl⟩ := List.cons.inj htail
        exact absurd hname (hpost m' (by simp))
  · cases us with
    | nil =>
        obtain ⟨rfl, rfl⟩ := List.cons.inj htail
        exact ⟨by simpa using hpre.symm, rfl, rfl⟩
    | cons u us =>
        obtain ⟨rfl, rfl⟩ := List.cons.inj htail
        exact absurd hname.symm (hpost' m (by simp))

/-- Every name that is defined has a last definition. -/
theorem exists_last (h : ∃ m ∈ ms, m.shape.name = y) :
    ∃ pre m post, LastItem ms pre m post ∧ m.shape.name = y := by
  induction ms with
  | nil => simp at h
  | cons a ms ih =>
      by_cases hin : ∃ m ∈ ms, m.shape.name = y
      · obtain ⟨pre, m, post, ⟨rfl, hpost⟩, hy⟩ := ih hin
        exact ⟨a :: pre, m, post, ⟨rfl, hpost⟩, hy⟩
      · obtain ⟨m, hm, hy⟩ := h
        rcases List.mem_cons.mp hm with rfl | hm
        · refine ⟨[], m, ms, ⟨rfl, fun f hf hfm => hin ⟨f, hf, hfm.trans hy⟩⟩, hy⟩
        · exact absurd ⟨m, hm, hy⟩ hin

/-- The references of the definitions are defined, and have smaller ranks. -/
structure Ranked (ms : List Item) (rank : Text → Nat) : Prop where
  defined : ∀ m ∈ ms, ∀ y ∈ m.shape.refs, ∃ e ∈ ms, e.shape.name = y
  descends : ∀ pre m post, LastItem ms pre m post →
    ∀ y ∈ m.shape.refs, rank y < rank m.shape.name

/-- What a definition and what it refers to make of `R`. -/
theorem Ranked.induction {rank : Text → Nat} {P : Text → Prop} (h : Ranked ms rank)
    (hstep : ∀ pre m post, LastItem ms pre m post → (∀ y ∈ m.shape.refs, P y) → P m.shape.name) :
    ∀ (r : Nat) (y : Text), rank y = r → (∃ m ∈ ms, m.shape.name = y) → P y := by
  intro r
  induction r using Nat.strongRecOn with
  | ind r ih =>
    intro y hr hy
    obtain ⟨pre, m, post, hm, rfl⟩ := exists_last hy
    refine hstep pre m post hm fun z hz => ?_
    have hlt := h.descends pre m post hm z hz
    exact ih (rank z) (by omega) z rfl (h.defined m (by simp [hm.1]) z hz)

/-! ## What a definition sees -/

/-- The items that store nothing under `y` in a sweep are silent about it. -/
theorem silent_late (hlaw : ∀ m ∈ ms, m.Lawful) (h : ∀ m ∈ ms, ¬ m.shape.Writes y) :
    Silent (ms.map Item.lateEntry) y := by
  intro e he hname σ
  obtain ⟨m, hm, rfl⟩ := List.mem_map.mp he
  cases hlate : m.shape.late with
  | false => simp [Item.lateEntry, hlate]
  | true =>
      have hworks : m.shape.works = false := by
        by_contra hw
        exact h m hm ⟨hlate, by simpa using hw, hname⟩
      simp [Item.lateEntry, hlate, (hlaw m hm).broken hworks σ]

theorem silent_names {f : Item → Entry Text ℤ} (hf : ∀ m, (f m).name = m.shape.name)
    (h : ∀ m ∈ post, m.shape.name ≠ y) : Silent (post.map f) y := by
  intro e he hname
  obtain ⟨m, hm, rfl⟩ := List.mem_map.mp he
  exact absurd ((hf m).symm.trans hname) (h m hm)

/-- A literal that is the last definition is in the table from the second pass on. -/
theorem rawTable_last (hlaw : ∀ m ∈ ms, m.Lawful) (h : LastItem ms pre m post)
    (hraw : m.shape.late = false) (hworks : m.shape.works = true) :
    tableAfter ms 0 m.shape.name = some m.const := by
  obtain ⟨rfl, hpost⟩ := h
  have hm : m.Lawful := hlaw m (by simp)
  have hval : m.rawEntry.eval (sweep (pre.map Item.rawEntry) fun _ => none) = some m.const := by
    have hrefs := hm.raw hraw
    have hexact := hm.exact hworks (sweep (pre.map Item.rawEntry) fun _ => none) (by simp [hrefs])
    simpa [Item.rawEntry, hraw, hrefs, refSum] using hexact
  rw [tableAfter, Function.iterate_zero, id, List.map_append, List.map_cons]
  exact sweep_at (e := m.rawEntry) hval (silent_names (fun _ => rfl) hpost)

/-- It is seen by everyone if no sweep stores another one. -/
theorem seenAt_raw (hlaw : ∀ m ∈ ms, m.Lawful) (h : LastItem ms before e after)
    (hraw : e.shape.late = false) (hworks : e.shape.works = true)
    (hnone : ∀ u ∈ ms, ¬ u.shape.Writes e.shape.name) (hpre : ∀ u ∈ pre, u ∈ ms) (k : Nat) :
    seenAt ms pre k e.shape.name = some e.const := by
  have hsilent := silent_late hlaw hnone
  have hsilent' : Silent (pre.map Item.lateEntry) e.shape.name :=
    silent_late (fun u hu => hlaw u (hpre u hu)) fun u hu => hnone u (hpre u hu)
  rw [seenAt, sweep_silent hsilent', tableAfter, iterate_silent hsilent]
  exact rawTable_last hlaw h hraw hworks

/-- Behind a last definition its value of this sweep is seen. -/
theorem seenAt_before (h : LastItem ms before e after) (hlate : e.shape.late = true)
    (hsplit : ms = pre ++ m :: post) (hlt : before.length < pre.length)
    (hv : e.eval (seenAt ms before k) = some v) : seenAt ms pre k e.shape.name = some v := by
  obtain ⟨hms, hafter⟩ := h
  obtain ⟨us, rfl, htail⟩ : ∃ us, pre = before ++ e :: us ∧ after = us ++ m :: post := by
    rcases List.append_eq_append_iff.mp (hsplit.symm.trans hms) with ⟨us, hb, -⟩ | ⟨us, hp, htail⟩
    · rw [hb, List.length_append] at hlt
      omega
    · cases us with
      | nil =>
          rw [hp, List.append_nil] at hlt
          omega
      | cons u us =>
          obtain ⟨rfl, hus⟩ := List.cons.inj htail
          exact ⟨us, hp, hus⟩
  have hval : e.lateEntry.eval (seenAt ms before k) = some v := by
    simpa [Item.lateEntry, hlate] using hv
  rw [seenAt, List.map_append, List.map_cons]
  refine sweep_at (e := e.lateEntry) hval (silent_names (fun _ => rfl) fun u hu => ?_)
  exact hafter u (htail ▸ List.mem_append_left _ hu)

/-- The value of the sweep before is in the table. -/
theorem tableAfter_last (h : LastItem ms before e after) (hlate : e.shape.late = true)
    (hv : e.eval (seenAt ms before k) = some v) :
    tableAfter ms (k + 1) e.shape.name = some v := by
  have hval : e.lateEntry.eval (seenAt ms before k) = some v := by
    simpa [Item.lateEntry, hlate] using hv
  rw [tableAfter_succ]
  conv_lhs => rw [h.1]
  rw [List.map_append, List.map_cons, ← h.1]
  exact sweep_at (e := e.lateEntry) hval (silent_names (fun _ => rfl) h.2)

/-- Where nothing in front stores under `y`, the table of the sweep before is seen. -/
theorem seenAt_silent (hlaw : ∀ m ∈ pre, m.Lawful) (h : ∀ u ∈ pre, ¬ u.shape.Writes y) :
    seenAt ms pre k y = tableAfter ms k y := sweep_silent (silent_late hlaw h)

/-- The position of a last definition other than that of `x`. -/
theorem LastItem.length_ne (h : LastItem ms pre m post) (h' : LastItem ms before e after)
    (hne : e.shape.name ≠ m.shape.name) : before.length ≠ pre.length := by
  intro hlen
  obtain ⟨rfl, -⟩ := h
  obtain ⟨hms, -⟩ := h'
  obtain ⟨-, htail⟩ := List.append_inj hms hlen.symm
  exact hne (congrArg (fun i : Item => i.shape.name) (List.cons.inj htail).1).symm

theorem refSum_eq {ys : List Text} {σ : Table Text ℤ} (h : ∀ y ∈ ys, σ y = some (R y)) :
    refSum ys σ = (ys.map R).sum := by
  unfold refSum
  rw [List.map_congr_left fun y hy => by rw [h y hy, Option.getD_some]]

/-! ## Settled shapes are evaluated right -/

/-- The first half of `Settled`. -/
def SeesLasts (ms : List Item) : Prop :=
  ∀ pre m post, LastItem ms pre m post → m.shape.late = true → m.shape.works = true →
    ∀ y ∈ m.shape.refs, SeesLast (ms.map Item.shape) (pre.map Item.shape) y

theorem Settled.seesLasts (h : Settled (ms.map Item.shape)) : SeesLasts ms :=
  fun pre _ _ hm hlate hworks y hy => h.1 (pre.map Item.shape) _ hm.last hlate hworks y hy

/-- What `SeesLast` says about items. -/
theorem SeesLast.item (h : SeesLast (ms.map Item.shape) (pre.map Item.shape) y) :
    ∃ before e after, LastItem ms before e after ∧ e.shape.name = y ∧ e.shape.works = true ∧
      (e.shape.late = true ∧ (before.length < pre.length ∨ ∀ u ∈ pre, ¬ u.shape.Writes y)
        ∨ e.shape.late = false ∧ ∀ u ∈ ms, ¬ u.shape.Writes y) := by
  obtain ⟨ps, t, hlast, hname, hworks, hcond⟩ := h
  obtain ⟨before, e, after, he, rfl, rfl⟩ := exists_item hlast
  refine ⟨before, e, after, he, hname, hworks, ?_⟩
  cases hlate : e.shape.late with
  | true =>
      rw [hlate, if_pos rfl, List.length_map, List.length_map] at hcond
      refine Or.inl ⟨rfl, hcond.imp_right fun hall u hu => ?_⟩
      exact hall u.shape (List.mem_map_of_mem hu)
  | false =>
      rw [hlate, if_neg (by simp)] at hcond
      exact Or.inr ⟨rfl, fun u hu => hcond u.shape (List.mem_map_of_mem hu)⟩

/-- What is read under a name whose last definition is seen: the value of this sweep if it comes
earlier, that of the sweep before if it comes further down, and the constant of a literal. -/
theorem SeesLast.read (hlaw : ∀ m ∈ ms, m.Lawful) (hm : LastItem ms pre m post)
    (hne : y ≠ m.shape.name) (h : SeesLast (ms.map Item.shape) (pre.map Item.shape) y) :
    ∃ before e after, LastItem ms before e after ∧ e.shape.name = y ∧ e.shape.works = true ∧
      (e.shape.late = true ∧ before.length < pre.length
          ∧ (∀ k v, e.eval (seenAt ms before k) = some v → seenAt ms pre k y = some v)
        ∨ e.shape.late = true ∧ pre.length < before.length
          ∧ (∀ k, seenAt ms pre k y = tableAfter ms k y)
          ∧ (∀ k v, e.eval (seenAt ms before k) = some v → seenAt ms pre (k + 1) y = some v)
        ∨ e.shape.late = false ∧ ∀ k, seenAt ms pre k y = some e.const) := by
  have hpre : ∀ u ∈ pre, u ∈ ms := fun u hu => by simp [hm.1, hu]
  obtain ⟨before, e, after, he, rfl, hew, hcase⟩ := h.item
  refine ⟨before, e, after, he, rfl, hew, ?_⟩
  rcases hcase with ⟨helate, hplace⟩ | ⟨heraw, hnone⟩
  · have hapart := hm.length_ne he hne
    by_cases hbefore : before.length < pre.length
    · exact Or.inl ⟨helate, hbefore, fun k v hv => seenAt_before he helate hm.1 hbefore hv⟩
    · have hsame : ∀ k, seenAt ms pre k e.shape.name = tableAfter ms k e.shape.name := fun k =>
        seenAt_silent (fun u hu => hlaw u (hpre u hu)) (hplace.resolve_left hbefore)
      refine Or.inr (Or.inl ⟨helate, by omega, hsame, fun k v hv => ?_⟩)
      rw [hsame]
      exact tableAfter_last he helate hv
  · exact Or.inr (Or.inr ⟨heraw, fun k => seenAt_raw hlaw he heraw hew hnone hpre k⟩)

/-- **The value of a last definition** is its expansion as soon as the sweeps outnumber the
delays of every chain from it. -/
theorem value_of_delay (hlaw : ∀ m ∈ ms, m.Lawful) (hR : Solves ms R) (hsees : SeesLasts ms)
    {rank : Text → Nat} (hrank : ∀ pre m post, LastItem ms pre m post →
      ∀ y ∈ m.shape.refs, rank y < rank m.shape.name) :
    ∀ (r : Nat) {pre m post}, rank m.shape.name = r → LastItem ms pre m post →
      m.shape.late = true → m.shape.works = true → ∀ k,
      (∀ n, Delay (ms.map Item.shape) m.shape.name n → n ≤ k) →
      m.eval (seenAt ms pre k) = some (R m.shape.name) := by
  intro r
  induction r using Nat.strongRecOn with
  | ind r ih =>
    intro pre m post hr hm hlate hworks k hk
    have hread : ∀ y ∈ m.shape.refs, seenAt ms pre k y = some (R y) := by
      intro y hy
      have hlt := hrank pre m post hm y hy
      have hne : y ≠ m.shape.name := fun heq => by rw [heq] at hlt; omega
      obtain ⟨before, e, after, he, rfl, hew, hcase⟩ :=
        (hsees pre m post hm hlate hworks y hy).read hlaw hm hne
      -- a chain from `e` is a chain from `m`, with a delay more if `e` is further down
      have hchain : e.shape.late = true → ∀ n, Delay (ms.map Item.shape) e.shape.name n →
          n + (if pre.length < before.length then 1 else 0) ≤ k := by
        intro helate n hn
        have hstep := Delay.step hm.last hlate hworks he.last helate hy hn
        rw [List.length_map, List.length_map] at hstep
        exact hk _ hstep
      rcases hcase with ⟨helate, -, hsame⟩ | ⟨helate, hlater, -, hnext⟩ | ⟨heraw, hconst⟩
      · refine hsame k _ (ih _ (by omega) rfl he helate hew k fun n hn => ?_)
        exact le_trans (Nat.le_add_right ..) (hchain helate n hn)
      · rw [if_pos hlater] at hchain
        obtain ⟨k, rfl⟩ : ∃ j, k = j + 1 := by
          have hone := hchain helate 0 (.zero _)
          exact ⟨k - 1, by omega⟩
        refine hnext k _ (ih _ (by omega) rfl he helate hew k fun n hn => ?_)
        exact Nat.le_of_succ_le_succ (hchain helate n hn)
      · have heq := hR before e after he
        rw [(hlaw e (by simp [he.1])).raw heraw, List.map_nil, List.sum_nil, Int.add_zero] at heq
        rw [heq]
        exact hconst k
    have hexact := (hlaw m (by simp [hm.1])).exact hworks (seenAt ms pre k) fun y hy => by
      rw [hread y hy]
      rfl
    rw [hexact, refSum_eq hread, hR pre m post hm]

end Items

end VibeRtos.Features
