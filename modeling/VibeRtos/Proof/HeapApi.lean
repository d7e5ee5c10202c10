import VibeRtos.Heap.Api
import VibeRtos.Lib.Tiling

/-!
# Programs over a correct heap backend

A backend is correct when its single operations respect an invariant that ties its
state to the live grants. From that, once for the three backends: every run of a
program keeps the invariant, and no call touches a byte of a grant it is not given.
-/

namespace VibeRtos

open ByteMem Runs Tiling

/-! ## Counting blocks -/

/-- A block in use is counted. -/
def HeapStats.addUsed (out : HeapStats) (n : Nat) : HeapStats :=
  { out with used := add32 out.used n, allocCount := add32 out.allocCount 1 }

/-- A free block is counted. -/
def HeapStats.addFree (out : HeapStats) (n : Nat) : HeapStats :=
  { out with
    free := add32 out.free n
    freeCount := add32 out.freeCount 1
    largestFree := if n > out.largestFree then n else out.largestFree }

/-- The loops over the blocks add up what they pass, as long as the sums fit in a word. -/
theorem foldl_tally {τ : Type} {bs : List (Block τ)} {g : HeapStats → Nat → HeapStats}
    (used : Block τ → Bool) (hg : ∀ b ∈ bs, ∀ out : HeapStats,
      g out b.addr = if used b then out.addUsed b.size else out.addFree b.size) :
    ∀ out : HeapStats, out.used + out.free + (bs.map Block.size).sum < 2 ^ 32 →
    out.allocCount + out.freeCount + bs.length < 2 ^ 32 →
    (bs.map Block.addr).foldl g out = { out with
      used := out.used + ((bs.filter used).map Block.size).sum
      free := out.free + ((bs.filter fun b => !used b).map Block.size).sum
      allocCount := out.allocCount + (bs.filter used).length
      freeCount := out.freeCount + (bs.filter fun b => !used b).length
      largestFree := ((bs.filter fun b => !used b).map Block.size).foldl max out.largestFree } := by
  induction bs with
  | nil => exact fun _ _ _ => rfl
  | cons b bs ih =>
      intro out hsum hcount
      simp only [List.map_cons, List.sum_cons, List.length_cons] at hsum hcount
      have hrest := ih fun x hx => hg x (List.mem_cons_of_mem _ hx)
      have hmax : (if b.size > out.largestFree then b.size else out.largestFree)
          = max out.largestFree b.size := by
        split <;> omega
      rw [List.map_cons, List.foldl_cons, hg b List.mem_cons_self]
      by_cases hb : used b = true
      · rw [if_pos hb, HeapStats.addUsed, add32_eq (by omega), add32_eq (by omega),
          hrest _ (by simp only; omega) (by simp only; omega)]
        simp [hb]
        omega
      · rw [if_neg hb, HeapStats.addFree, add32_eq (by omega), add32_eq (by omega), hmax,
          hrest _ (by simp only; omega) (by simp only; omega)]
        simp [hb]
        omega

/--
What makes a backend correct, in terms of an invariant that ties its state to the grants
that are live. The fields about single operations are what a backend has to prove; the
rest of the file draws the consequences for a program.
-/
structure Backend.Correct {σ : Type} (B : Backend σ) (limit : Nat)
    (Inv : σ → List Grant → Prop) : Prop where
  limit_lt : limit + 7 < 2 ^ 32
  mem_setMem : ∀ s m, B.mem (B.setMem s m) = m
  /-- no two grants share a pointer, none is `NULL` -/
  nodup : ∀ {s live}, Inv s live → (live.map Grant.ptr).Nodup
  ptr_ne : ∀ {s live l}, Inv s live → l ∈ live → l.ptr ≠ 0
  /-- every grant has the room it asked for -/
  room : ∀ {s live l}, Inv s live → l ∈ live → l.req ≤ B.sizeOf s l.ptr
  disjoint : ∀ {s live l k}, Inv s live → l ∈ live → k ∈ live → l.ptr ≠ k.ptr →
    l.ptr + B.sizeOf s l.ptr ≤ k.ptr ∨ k.ptr + B.sizeOf s k.ptr ≤ l.ptr
  alloc : ∀ {s live size}, Inv s live → size ≤ limit →
    Inv (B.alloc s size).1 (grant live (B.alloc s size).2 size)
  alloc_keeps : ∀ {s live size l}, Inv s live → size ≤ limit → l ∈ live →
    B.sizeOf (B.alloc s size).1 l.ptr = B.sizeOf s l.ptr
      ∧ ∀ i < B.sizeOf s l.ptr, B.mem (B.alloc s size).1 (l.ptr + i) = B.mem s (l.ptr + i)
  alloc_zero : ∀ s, (B.alloc s 0).2 = 0
  free : ∀ {s live l}, Inv s live → l ∈ live → Inv (B.free s l.ptr) (release live l.ptr)
  free_keeps : ∀ {s live l k}, Inv s live → l ∈ live → k ∈ live → k.ptr ≠ l.ptr →
    ∀ i < B.sizeOf s k.ptr, B.mem (B.free s l.ptr) (k.ptr + i) = B.mem s (k.ptr + i)
  free_null : ∀ s, B.free s 0 = s
  /-- a grant may change size within its block -/
  resize : ∀ {s live l size}, Inv s live → l ∈ live → size ≤ B.sizeOf s l.ptr →
    Inv s (⟨l.ptr, size⟩ :: release live l.ptr)
  /-- stores into the block of a grant do no harm -/
  store : ∀ {s live l m}, Inv s live → l ∈ live →
    (∀ a, a < l.ptr ∨ l.ptr + B.sizeOf s l.ptr ≤ a → m a = B.mem s a) →
    Inv (B.setMem s m) live ∧ ∀ p, Held live p → B.sizeOf (B.setMem s m) p = B.sizeOf s p

variable {σ : Type} {B : Backend σ} {limit : Nat} {Inv : σ → List Grant → Prop}
  {s s' : HeapSys σ} {live : List Grant}

theorem le_heapAlignUp {x : Nat} (h : x + 7 < 2 ^ 32) : x ≤ heapAlignUp x := by
  rw [heapAlignUp_eq h]
  omega

theorem mem_release {l : Grant} {p : Nat} : l ∈ release live p ↔ l ∈ live ∧ l.ptr ≠ p := by
  simp [release]

theorem release_of_not_held {p : Nat} (h : ∀ l ∈ live, l.ptr ≠ p) : release live p = live := by
  refine List.filter_eq_self.mpr fun l hl => ?_
  simpa using h l hl

theorem grant_of_ne {p n : Nat} (h : p ≠ 0) : grant live p n = ⟨p, n⟩ :: live := if_neg h

@[simp] theorem grant_null (n : Nat) : grant live 0 n = live := rfl

/-- What `vibe_heap_realloc` does with a pointer: it frees the block, leaves it where it is, fails,
or moves it. -/
inductive Backend.Realloc (B : Backend σ) (h : σ) (ptr size : Nat) : σ × Nat → Prop where
  | freed : size = 0 → Realloc B h ptr size (B.free h ptr, 0)
  | stays : size ≠ 0 → heapAlignUp size ≤ B.sizeOf h ptr → Realloc B h ptr size (h, ptr)
  | fails : size ≠ 0 → B.sizeOf h ptr < heapAlignUp size → (B.alloc h size).2 = 0 →
      Realloc B h ptr size ((B.alloc h size).1, 0)
  | moves : size ≠ 0 → B.sizeOf h ptr < heapAlignUp size → (B.alloc h size).2 ≠ 0 →
      Realloc B h ptr size (B.free (B.setMem (B.alloc h size).1
        (copy (B.mem (B.alloc h size).1) (B.alloc h size).2 ptr (min (B.sizeOf h ptr) size))) ptr,
        (B.alloc h size).2)

theorem Backend.realloc_cases (B : Backend σ) (h : σ) {ptr : Nat} (size : Nat) (hnull : ptr ≠ 0) :
    Realloc B h ptr size (B.realloc h ptr size) := by
  unfold Backend.realloc
  rw [if_neg hnull]
  dsimp only
  split
  · rename_i hzero
    exact .freed hzero
  · rename_i hzero
    split
    · rename_i hfit
      exact .stays hzero hfit
    · rename_i hfit
      split
      · rename_i hp
        exact .fails hzero (by omega) hp
      · rename_i hp
        have hlen : (if B.sizeOf h ptr < size then B.sizeOf h ptr else size)
            = min (B.sizeOf h ptr) size := by
          split <;> omega
        rw [hlen]
        exact .moves hzero (by omega) hp

namespace Backend.Correct

/-- A backend that serves larger requests serves smaller ones. -/
theorem mono (hB : B.Correct limit Inv) {limit' : Nat} (hle : limit' ≤ limit) :
    B.Correct limit' Inv :=
  { hB with
    limit_lt := by
      have hlim := hB.limit_lt
      omega
    alloc := fun hi hs => hB.alloc hi (hs.trans hle)
    alloc_keeps := fun hi hs => hB.alloc_keeps hi (hs.trans hle) }

/-- `NULL` is not held. -/
theorem release_null (hB : B.Correct limit Inv) {h : σ} (hi : Inv h live) :
    release live 0 = live :=
  release_of_not_held fun _ hl => hB.ptr_ne hi hl

/-- A grant just made does not share its pointer with an older one. -/
theorem ne_of_fresh (hB : B.Correct limit Inv) {h : σ} {p n : Nat}
    (hi : Inv h (⟨p, n⟩ :: live)) {l : Grant} (hl : l ∈ live) : l.ptr ≠ p := by
  have hnd := hB.nodup hi
  rw [List.map_cons, List.nodup_cons] at hnd
  intro he
  exact hnd.1 (List.mem_map.mpr ⟨l, hl, he⟩)

/-! ## `calloc` -/

/-- Clearing the new block touches nothing else. -/
theorem calloc (hB : B.Correct limit Inv) {h : σ} (hi : Inv h live) {nmemb size : Nat}
    (hle : nmemb * size ≤ limit) :
    Inv (B.calloc h nmemb size).1 (grant live (B.calloc h nmemb size).2 (nmemb * size))
      ∧ ∀ l ∈ live, ∀ i < B.sizeOf h l.ptr,
        B.mem (B.calloc h nmemb size).1 (l.ptr + i) = B.mem h (l.ptr + i) := by
  unfold Backend.calloc
  split
  · exact ⟨hi, fun _ _ _ _ => rfl⟩
  · split
    · exact ⟨hi, fun _ _ _ _ => rfl⟩
    · have halloc := hB.alloc hi hle
      dsimp only
      by_cases hp : (B.alloc h (nmemb * size)).2 = 0
      · rw [if_neg (by simpa using hp)]
        exact ⟨halloc, fun l hl => (hB.alloc_keeps hi hle hl).2⟩
      · rw [if_pos hp]
        rw [grant_of_ne hp] at halloc ⊢
        have hnew := hB.room halloc List.mem_cons_self
        have hfill := hB.store halloc List.mem_cons_self
          (m := fill (B.mem (B.alloc h (nmemb * size)).1) (B.alloc h (nmemb * size)).2
            (nmemb * size) 0) (by
          intro a ha
          refine fill_frame ?_
          simp only at ha hnew
          omega)
        refine ⟨hfill.1, fun l hl i hlt => ?_⟩
        obtain ⟨hsize, hbytes⟩ := hB.alloc_keeps hi hle hl
        rw [hB.mem_setMem, ← hbytes i hlt]
        have hapart := hB.disjoint halloc (List.mem_cons_of_mem _ hl) List.mem_cons_self
          (hB.ne_of_fresh halloc hl)
        refine fill_frame ?_
        simp only at hapart hnew
        rw [hsize] at hapart
        omega

/-! ## `realloc` -/

/-- The call that moves a block: allocate, copy, free. The first `n` bytes move along. -/
theorem move (hB : B.Correct limit Inv) {h : σ} (hi : Inv h live) {l : Grant} (hl : l ∈ live)
    {size n : Nat} (hle : size ≤ limit) (hn : n ≤ size) (hold : n ≤ B.sizeOf h l.ptr)
    (hp : (B.alloc h size).2 ≠ 0) :
    let np := (B.alloc h size).2
    let h' := B.free (B.setMem (B.alloc h size).1
      (copy (B.mem (B.alloc h size).1) np l.ptr n)) l.ptr
    Inv h' (⟨np, size⟩ :: release live l.ptr)
      ∧ (∀ k ∈ live, k.ptr ≠ l.ptr → ∀ i < B.sizeOf h k.ptr,
        B.mem h' (k.ptr + i) = B.mem h (k.ptr + i))
      ∧ ∀ i < n, B.mem h' (np + i) = B.mem h (l.ptr + i) := by
  intro np h'
  have halloc := hB.alloc hi hle
  rw [grant_of_ne hp] at halloc
  have hnew : size ≤ B.sizeOf (B.alloc h size).1 np := hB.room halloc List.mem_cons_self
  obtain ⟨hcopy, hsizes⟩ := hB.store halloc List.mem_cons_self
    (m := copy (B.mem (B.alloc h size).1) np l.ptr n) (by
      intro a ha
      refine copy_frame ?_
      change a < np ∨ np + B.sizeOf (B.alloc h size).1 np ≤ a at ha
      omega)
  have hl' : l ∈ ⟨np, size⟩ :: live := List.mem_cons_of_mem _ hl
  have hne : np ≠ l.ptr := (hB.ne_of_fresh halloc hl).symm
  refine ⟨?_, fun k hk hkl i hlt => ?_, fun i hlt => ?_⟩
  · have hfree := hB.free hcopy hl'
    have hlist : release (⟨np, size⟩ :: live) l.ptr = ⟨np, size⟩ :: release live l.ptr := by
      simp [release, hne]
    rw [← hlist]
    exact hfree
  · have hk' : k ∈ ⟨np, size⟩ :: live := List.mem_cons_of_mem _ hk
    obtain ⟨hsize, hbytes⟩ := hB.alloc_keeps hi hle hk
    have hsize' := (hsizes k.ptr ⟨k, hk', rfl⟩).trans hsize
    rw [hB.free_keeps hcopy hl' hk' hkl i (by omega), hB.mem_setMem, ← hbytes i hlt]
    have hapart : k.ptr + B.sizeOf (B.alloc h size).1 k.ptr ≤ np
        ∨ np + B.sizeOf (B.alloc h size).1 np ≤ k.ptr :=
      hB.disjoint halloc hk' List.mem_cons_self (hB.ne_of_fresh halloc hk)
    refine copy_frame ?_
    omega
  · have hself : (⟨np, size⟩ : Grant) ∈ ⟨np, size⟩ :: live := List.mem_cons_self
    have hsize' := hsizes np ⟨_, hself, rfl⟩
    have hkept := hB.free_keeps hcopy hl' hself hne i (by simp only; omega)
    have hbytes := (hB.alloc_keeps hi hle hl).2 i (by omega)
    rw [hB.mem_setMem] at hkept
    refine hkept.trans (Eq.trans ?_ hbytes)
    unfold copy
    rw [if_pos (by simp only; omega), Nat.add_sub_cancel_left]

/-- Resizing a grant keeps the others. -/
theorem realloc (hB : B.Correct limit Inv) {h : σ} (hi : Inv h live) {ptr size : Nat}
    (hle : size ≤ limit) (hptr : ptr = 0 ∨ Held live ptr) :
    Inv (B.realloc h ptr size).1 (if (B.realloc h ptr size).2 = 0 ∧ size ≠ 0 then live
        else grant (release live ptr) (B.realloc h ptr size).2 size)
      ∧ ∀ k ∈ live, k.ptr ≠ ptr → ∀ i < B.sizeOf h k.ptr,
        B.mem (B.realloc h ptr size).1 (k.ptr + i) = B.mem h (k.ptr + i) := by
  have hlimit := hB.limit_lt
  by_cases hnull : ptr = 0
  · -- `NULL` makes it an allocation
    subst hnull
    have hreq : B.realloc h 0 size = B.alloc h size := rfl
    rw [hreq, hB.release_null hi]
    refine ⟨?_, fun k hk _ => (hB.alloc_keeps hi hle hk).2⟩
    have halloc := hB.alloc hi hle
    split
    · rename_i hfail
      rwa [hfail.1] at halloc
    · exact halloc
  · obtain ⟨l, hl, rfl⟩ := hptr.resolve_left hnull
    have hcases := B.realloc_cases h size hnull
    generalize B.realloc h l.ptr size = r at hcases ⊢
    cases hcases with
    | freed hzero =>
        rw [if_neg (fun he => he.2 hzero)]
        exact ⟨hB.free hi hl, fun k hk hkl => hB.free_keeps hi hl hk hkl⟩
    | stays hzero hfit =>
        refine ⟨?_, fun _ _ _ _ _ => rfl⟩
        rw [if_neg (fun he => hnull he.1), grant_of_ne hnull]
        exact hB.resize hi hl ((le_heapAlignUp (by omega)).trans hfit)
    | fails hzero hfit hp =>
        have halloc := hB.alloc hi hle
        rw [hp, grant_null] at halloc
        rw [if_pos ⟨rfl, hzero⟩]
        exact ⟨halloc, fun k hk _ => (hB.alloc_keeps hi hle hk).2⟩
    | moves hzero hfit hp =>
        obtain ⟨hinv, hothers, -⟩ := hB.move hi hl hle (Nat.min_le_right _ _)
          (Nat.min_le_left _ _) hp
        dsimp only
        rw [if_neg (c := (B.alloc h size).2 = 0 ∧ size ≠ 0) (fun he => hp he.1), grant_of_ne hp]
        exact ⟨hinv, hothers⟩

/-! ## Programs -/

/-- **One step keeps the invariant.** -/
theorem step (hB : B.Correct limit Inv) (hi : Inv s.heap s.live) {l : HeapLabel}
    (hs : s.step B limit l = some s') : Inv s'.heap s'.live := by
  cases l with
  | alloc size =>
      obtain ⟨hle, heq⟩ := Option.ite_none_right_eq_some.mp hs
      obtain rfl := Option.some.inj heq
      exact hB.alloc hi hle
  | calloc nmemb size =>
      obtain ⟨hle, heq⟩ := Option.ite_none_right_eq_some.mp hs
      obtain rfl := Option.some.inj heq
      exact (hB.calloc hi hle).1
  | realloc ptr size =>
      obtain ⟨⟨hle, hptr⟩, heq⟩ := Option.ite_none_right_eq_some.mp hs
      obtain rfl := Option.some.inj heq
      exact (hB.realloc hi hle hptr).1
  | free ptr =>
      obtain ⟨hptr, heq⟩ := Option.ite_none_right_eq_some.mp hs
      obtain rfl := Option.some.inj heq
      rcases hptr with rfl | ⟨l, hl, rfl⟩
      · rw [hB.free_null, hB.release_null hi]
        exact hi
      · exact hB.free hi hl
  | store a v =>
      obtain ⟨⟨l, hl, ha⟩, heq⟩ := Option.ite_none_right_eq_some.mp hs
      obtain rfl := Option.some.inj heq
      have hroom := hB.room hi hl
      refine (hB.store hi hl fun x hx => ?_).1
      exact Function.update_of_ne (by omega) _ _

/-- **No call touches a grant it is not given.** -/
theorem step_keeps (hB : B.Correct limit Inv) (hi : Inv s.heap s.live) {l : HeapLabel}
    (hs : s.step B limit l = some s') (hcall : l.IsCall) {k : Grant} (hk : k ∈ s.live)
    (hne : k.ptr ≠ l.target) {i : Nat} (hlt : i < B.sizeOf s.heap k.ptr) :
    B.mem s'.heap (k.ptr + i) = B.mem s.heap (k.ptr + i) := by
  cases l with
  | alloc size =>
      obtain ⟨hle, heq⟩ := Option.ite_none_right_eq_some.mp hs
      obtain rfl := Option.some.inj heq
      exact (hB.alloc_keeps hi hle hk).2 i hlt
  | calloc nmemb size =>
      obtain ⟨hle, heq⟩ := Option.ite_none_right_eq_some.mp hs
      obtain rfl := Option.some.inj heq
      exact (hB.calloc hi hle).2 k hk i hlt
  | realloc ptr size =>
      obtain ⟨⟨hle, hptr⟩, heq⟩ := Option.ite_none_right_eq_some.mp hs
      obtain rfl := Option.some.inj heq
      exact (hB.realloc hi hle hptr).2 k hk hne i hlt
  | free ptr =>
      obtain ⟨hptr, heq⟩ := Option.ite_none_right_eq_some.mp hs
      obtain rfl := Option.some.inj heq
      rcases hptr with rfl | ⟨l, hl, rfl⟩
      · rw [hB.free_null]
      · exact hB.free_keeps hi hl hk hne i hlt
  | store a v => exact absurd hcall id

/-- **Every run keeps the invariant.** -/
theorem run (hB : B.Correct limit Inv) {labels : List HeapLabel} (hi : Inv s.heap s.live)
    (hs : run (HeapSys.step B limit) s labels = some s') : Inv s'.heap s'.live :=
  run_invariant (P := fun s => Inv s.heap s.live) (fun _ _ _ hi hs => hB.step hi hs) hi hs

end Backend.Correct

end VibeRtos
