import Mathlib

/-!
# Blocks that tile an interval

A pool is cut into blocks that lie one behind the other, each with `h` bytes of header
in front of its payload. `Tiles h a bs z` says that `bs` fill the interval from `a` to
`z` exactly. The edits of an allocator are local: a block is cut in two, or two
neighbours become one, and the blocks before and behind stay where they are.
-/

namespace Tiling

/-- A block: the address of its header, the bytes of its payload and what is known about it. -/
structure Block (τ : Type) where
  addr : Nat
  size : Nat
  tag : τ
  deriving DecidableEq, Repr

/-- `bs` lie one behind the other from `a` up to `z`. -/
def Tiles {τ : Type} (h : Nat) : Nat → List (Block τ) → Nat → Prop
  | a, [], z => a = z
  | a, b :: bs, z => b.addr = a ∧ Tiles h (a + h + b.size) bs z

variable {τ : Type} {h a z n : Nat} {b c : Block τ} {xs ys bs : List (Block τ)}

theorem tiles_append : Tiles h a (xs ++ ys) z ↔ ∃ m, Tiles h a xs m ∧ Tiles h m ys z := by
  induction xs generalizing a with
  | nil => simp [Tiles]
  | cons x xs ih =>
      rw [List.cons_append, Tiles, ih]
      constructor
      · intro ⟨hx, m, hxs, hys⟩
        exact ⟨m, ⟨hx, hxs⟩, hys⟩
      · intro ⟨m, ⟨hx, hxs⟩, hys⟩
        exact ⟨hx, m, hxs, hys⟩

theorem Tiles.le (ht : Tiles h a bs z) : a ≤ z := by
  induction bs generalizing a with
  | nil => exact Nat.le_of_eq ht
  | cons x bs ih =>
      have hrest := ih ht.2
      omega

/-- Every block lies inside the interval. -/
theorem Tiles.bounds (ht : Tiles h a bs z) (hb : b ∈ bs) :
    a ≤ b.addr ∧ b.addr + h + b.size ≤ z := by
  induction bs generalizing a with
  | nil => simp at hb
  | cons x bs ih =>
      have hrest := ht.2.le
      have hx := ht.1
      rcases List.mem_cons.mp hb with rfl | hb
      · omega
      · have hin := ih ht.2 hb
        omega

/-- Blocks in front end before the header. -/
theorem Tiles.before (ht : Tiles h a (xs ++ b :: ys) z) {x : Block τ} (hx : x ∈ xs) :
    x.addr + h + x.size ≤ b.addr := by
  obtain ⟨m, hxs, hys⟩ := tiles_append.mp ht
  have hb := hys.1
  have hin := hxs.bounds hx
  omega

/-- Blocks behind begin after the payload. -/
theorem Tiles.after (ht : Tiles h a (xs ++ b :: ys) z) {y : Block τ} (hy : y ∈ ys) :
    b.addr + h + b.size ≤ y.addr := by
  obtain ⟨m, -, hys⟩ := tiles_append.mp ht
  have hb := hys.1
  have hin := hys.2.bounds hy
  omega

/-- The next block begins where this one ends. -/
theorem Tiles.next (ht : Tiles h a (xs ++ b :: c :: ys) z) :
    c.addr = b.addr + h + b.size := by
  obtain ⟨m, -, hys⟩ := tiles_append.mp ht
  have hb := hys.1
  have hc := hys.2.1
  omega

/-- Any other block is wholly in front of `b` or wholly behind it. -/
theorem Tiles.apart (ht : Tiles h a (xs ++ b :: ys) z) {x : Block τ} (hx : x ∈ xs ++ ys) :
    x.addr + h + x.size ≤ b.addr ∨ b.addr + h + b.size ≤ x.addr := by
  rcases List.mem_append.mp hx with hx | hx
  · exact Or.inl (ht.before hx)
  · exact Or.inr (ht.after hx)

/-- Two blocks of a tiling do not overlap. -/
theorem Tiles.pairwise (ht : Tiles h a bs z) :
    bs.Pairwise fun x y => x.addr + h + x.size ≤ y.addr := by
  induction bs generalizing a with
  | nil => exact List.Pairwise.nil
  | cons x bs ih =>
      refine List.pairwise_cons.mpr ⟨fun y hy => ?_, ih ht.2⟩
      have hx := ht.1
      have hin := ht.2.bounds hy
      omega

theorem Tiles.nodup_addr (hh : 0 < h) (ht : Tiles h a bs z) : (bs.map Block.addr).Nodup := by
  refine List.pairwise_map.mpr (ht.pairwise.imp ?_)
  intro x y hxy
  omega

/-- A block is known by its address. -/
theorem Tiles.addr_inj (hh : 0 < h) (ht : Tiles h a bs z) (hb : b ∈ bs) (hc : c ∈ bs)
    (he : b.addr = c.addr) : b = c :=
  List.inj_on_of_nodup_map (ht.nodup_addr hh) hb hc he

theorem Tiles.apart_of_ne (ht : Tiles h a bs z) (hb : b ∈ bs) (hc : c ∈ bs)
    (hne : b.addr ≠ c.addr) :
    b.addr + h + b.size ≤ c.addr ∨ c.addr + h + c.size ≤ b.addr := by
  obtain ⟨xs, ys, rfl⟩ := List.append_of_mem hc
  have hb' : b ∈ xs ++ ys := by
    rcases List.mem_append.mp hb with hx | hx
    · exact List.mem_append_left _ hx
    · rcases List.mem_cons.mp hx with rfl | hx
      · exact absurd rfl hne
      · exact List.mem_append_right _ hx
  exact ht.apart hb'

/-! ## Edits -/

/-- What is known about a block does not matter to where it lies. -/
theorem Tiles.retag (ht : Tiles h a (xs ++ b :: ys) z) (t : τ) :
    Tiles h a (xs ++ { b with tag := t } :: ys) z := by
  obtain ⟨m, hxs, hys⟩ := tiles_append.mp ht
  exact tiles_append.mpr ⟨m, hxs, hys⟩

/-- **Cutting.** The payload is cut at `n`; the rest pays for its own header. -/
theorem Tiles.split (ht : Tiles h a (xs ++ b :: ys) z) (hn : n + h ≤ b.size) (t u : τ) :
    Tiles h a (xs ++ ⟨b.addr, n, t⟩ :: ⟨b.addr + h + n, b.size - n - h, u⟩ :: ys) z := by
  obtain ⟨m, hxs, hb, hys⟩ := tiles_append.mp ht
  refine tiles_append.mpr ⟨m, hxs, hb, ?_, ?_⟩
  · simp [hb]
  · have hend : m + h + n + h + (b.size - n - h) = m + h + b.size := by omega
    simp only
    rw [hend]
    exact hys

/-- **Joining.** The header of the second block becomes payload of the first. -/
theorem Tiles.merge (ht : Tiles h a (xs ++ b :: c :: ys) z) (t : τ) :
    Tiles h a (xs ++ ⟨b.addr, b.size + (h + c.size), t⟩ :: ys) z := by
  obtain ⟨m, hxs, hb, hc, hys⟩ := tiles_append.mp ht
  refine tiles_append.mpr ⟨m, hxs, hb, ?_⟩
  have hend : m + h + (b.size + (h + c.size)) = m + h + b.size + h + c.size := by omega
  simp only
  rw [hend]
  exact hys

/-- The blocks use up the interval, headers included. -/
theorem Tiles.sum (ht : Tiles h a bs z) : a + bs.length * h + (bs.map Block.size).sum = z := by
  induction bs generalizing a with
  | nil => simpa [Tiles] using ht
  | cons x bs ih =>
      have hrest := ih ht.2
      have hmul : (bs.length + 1) * h = bs.length * h + h := Nat.succ_mul _ _
      simp only [List.map_cons, List.sum_cons, List.length_cons, hmul]
      omega

/-! ## Merged tilings -/

/-- No two neighbours both satisfy `p`: what is free is merged as far as it goes. -/
def Merged (p : Block τ → Prop) (bs : List (Block τ)) : Prop :=
  bs.IsChain fun x y => ¬ (p x ∧ p y)

variable {p : Block τ → Prop}

/-- Seen from one block: both sides are merged, and if it is free its neighbours are not. -/
theorem merged_middle : Merged p (xs ++ b :: ys) ↔ Merged p xs ∧ Merged p ys ∧
    (p b → (∀ x ∈ xs.getLast?, ¬ p x) ∧ ∀ y ∈ ys.head?, ¬ p y) := by
  unfold Merged
  rw [List.isChain_append, List.isChain_cons]
  simp only [List.head?_cons, Option.mem_some_iff, forall_eq']
  constructor
  · intro ⟨hxs, ⟨hhead, hys⟩, hlast⟩
    refine ⟨hxs, hys, fun hb => ⟨fun x hx hp => hlast x hx ⟨hp, hb⟩, fun y hy hp => ?_⟩⟩
    exact hhead y hy ⟨hb, hp⟩
  · intro ⟨hxs, hys, hb⟩
    refine ⟨hxs, ⟨fun y hy hp => (hb hp.1).2 y hy hp.2, hys⟩, fun x hx hp => ?_⟩
    exact (hb hp.2).1 x hx hp.1

/-- A merged tiling with nothing in use is one block. -/
theorem Merged.single (hm : Merged p bs) (hp : ∀ b ∈ bs, p b) : bs.length ≤ 1 := by
  match bs, hm with
  | [], _ => simp
  | [_], _ => simp
  | x :: y :: zs, hm =>
      have hxy := (List.isChain_cons.mp hm).1 y (by simp)
      exact absurd ⟨hp x (by simp), hp y (by simp)⟩ hxy

end Tiling
