import VibeRtos.Proof.TlsfRuns

/-!
# What `locate_free` finds

For any control structure in order, whatever the physical blocks around it: the block
found is large enough, it is the head of the first list that can serve the request, and
nothing is found only if no free block has the rounded size.
-/

namespace VibeRtos

open ByteMem Bits Links Tiling Runs

namespace Tlsf

/-- The control structure is in order: the lists are linked, every block is in the list of its
class, and the bitmaps tell which lists hold a block. -/
def ControlOk (mem : Mem) (ctl : Nat) : Prop :=
  ∃ f, Family ctl f ∧ Lists mem ctl f ∧ ∀ k, ∀ a ∈ f k, mapping (blockSize mem a) = k

/-- `b` is the head of the lowest list that is not empty, from the class `r` on. -/
def LowestHead (mem : Mem) (ctl : Nat) (r : Nat × Nat) (b : Nat) : Prop :=
  ∃ k, InRange k ∧ (freeList mem ctl k).head? = some b ∧ ClassLe r k
    ∧ ∀ k', InRange k' → ClassLe r k' → freeList mem ctl k' ≠ [] → ClassLe k k'

variable {c : TlsfConfig} {mem : Mem} {ctl n b : Nat} {live : List Grant} {bs : List TBlock}
  {f : Nat × Nat → List Nat}

theorem FirstFrom.lowestHead {r k : Nat × Nat} (h : FirstFrom f r k b) (hf : Family ctl f)
    (hl : Lists mem ctl f) : LowestHead mem ctl r b := by
  obtain ⟨hhead, hle, hfirst⟩ := h
  have hk : InRange k := by
    refine hf.inRange k ?_
    rintro hnil
    rw [hnil] at hhead
    exact absurd hhead (by simp)
  refine ⟨k, hk, ?_, hle, fun k' hk' hle' hne => hfirst k' hle' ?_⟩
  · rw [hl.freeList_eq hf hk]
    exact hhead
  · rwa [hl.freeList_eq hf hk'] at hne

/-- A pool in order has its control structure in order. -/
theorem PoolInv.control (h : PoolInv c mem live bs) : ControlOk mem c.pool := by
  obtain ⟨f, hrep⟩ := h.rep
  refine ⟨f, hrep.family hrep.headers, hrep.lists, fun k a ha => ?_⟩
  obtain ⟨b, hb, -, rfl, rfl⟩ := (hrep.listed k a).mp ha
  rw [hrep.headers.size_of_mem (List.mem_append_left _ hb)]

/--
**Good fit.**

For every control structure in order and every aligned size from 8 bytes to 4 MiB,
`locate_free` finds a block whenever a free block has the rounded size, it finds none only
if there is no such block, and what it finds is as large as the request and the head of
the lowest list that is not empty from the class of the rounded size on.
-/
theorem locate_free_good_fit {mem : Mem} {ctl n : Nat} (h : ControlOk mem ctl) (h8 : 8 ∣ n)
    (hpos : 8 ≤ n) (hlt : n < 2 ^ 22) :
    ((∃ a, OnFreeList mem ctl a ∧ roundUpSize n ≤ blockSize mem a) →
        ∃ b, locateFree mem ctl n = some b)
      ∧ (locateFree mem ctl n = none →
        ∀ a, OnFreeList mem ctl a → blockSize mem a < roundUpSize n)
      ∧ ∀ b, locateFree mem ctl n = some b → OnFreeList mem ctl b ∧ n ≤ blockSize mem b
        ∧ LowestHead mem ctl (mapping (roundUpSize n)) b := by
  obtain ⟨f, hf, hl, hclass⟩ := h
  have hmax : n ≤ maxRequest := by
    unfold maxRequest
    omega
  -- the rounded size is what the class search compares with
  have hround := (roundUpSize_spec h8 hmax).1
  rcases hl.good_fit hf hclass h8 (by omega) hmax with
    ⟨a, k, hfound, hfirst, hfit⟩ | ⟨hnone, hsmall⟩
  · refine ⟨fun _ => ⟨a, hfound⟩, fun hno => absurd (hfound.symm.trans hno) (by simp),
      fun b hb => ?_⟩
    obtain rfl : a = b := Option.some.inj (hfound.symm.trans hb)
    have hlow := hfirst.lowestHead hf hl
    have ⟨k', hk', hhead, _⟩ := hlow
    exact ⟨⟨k', hk', List.mem_of_mem_head? hhead⟩, hround.trans hfit, hlow⟩
  · have hsizes : ∀ a, OnFreeList mem ctl a → blockSize mem a < roundUpSize n := by
      rintro a ⟨k, hk, ha⟩
      rw [hl.freeList_eq hf hk] at ha
      exact hsmall k a ha
    refine ⟨?_, fun _ => hsizes, fun b hb => absurd (hnone.symm.trans hb) (by simp)⟩
    rintro ⟨a, ha, hbig⟩
    exact absurd (hsizes a ha) (by omega)

/-- Blocks of 24 and of 136 bytes are freed between blocks in use; a rest of 56 is behind them. -/
def scatter : List HeapLabel :=
  [.alloc 24, .alloc 8, .alloc 136, .alloc 8, .free 8944, .free 8992]

/-- **Free blocks in three classes**, of 24, 56 and 136 bytes. A request for 32 bytes gets the one
of 56, a request for 64 the one of 136, and 136 bytes, rounded to 144, are not found. -/
theorem locate_free_good_fit_scattered :
    ∃ s, run (HeapSys.step (backend kilobyte.toHeapConfig) kilobyte.size)
        ⟨tlsfState fun _ => 0, []⟩ scatter = some s
      ∧ OnFreeList s.heap.mem kilobyte.pool 8936 ∧ blockSize s.heap.mem 8936 = 24
      ∧ locateFree s.heap.mem kilobyte.pool 32 = some 9144 ∧ blockSize s.heap.mem 9144 = 56
      ∧ LowestHead s.heap.mem kilobyte.pool (mapping (roundUpSize 32)) 9144
      ∧ locateFree s.heap.mem kilobyte.pool 64 = some 8984 ∧ blockSize s.heap.mem 8984 = 136
      ∧ LowestHead s.heap.mem kilobyte.pool (mapping (roundUpSize 64)) 8984
      ∧ locateFree s.heap.mem kilobyte.pool 136 = none
      ∧ ∀ a, OnFreeList s.heap.mem kilobyte.pool a → blockSize s.heap.mem a < 144 := by
  obtain ⟨s, hrun, hfacts⟩ : ∃ s,
      run (HeapSys.step (backend kilobyte.toHeapConfig) kilobyte.size)
        ⟨tlsfState fun _ => 0, []⟩ scatter = some s
      ∧ decide (s.heap.ctl ≠ 0
        ∧ (freeHead s.heap.mem kilobyte.pool 0 3 = 8936 ∧ blockSize s.heap.mem 8936 = 24)
        ∧ (locateFree s.heap.mem kilobyte.pool 32 = some 9144 ∧ blockSize s.heap.mem 9144 = 56)
        ∧ (locateFree s.heap.mem kilobyte.pool 64 = some 8984 ∧ blockSize s.heap.mem 8984 = 136)
        ∧ locateFree s.heap.mem kilobyte.pool 136 = none) = true :=
    Option.map_eq_some_iff.mp (by decide +kernel)
  obtain ⟨hready, ⟨hhead, h24⟩, ⟨hfound, h56⟩, ⟨hfound', h136⟩, hnone⟩ := of_decide_eq_true hfacts
  obtain ⟨-, bs, hp⟩ := poolInv_of_run hrun hready
  have hok := hp.control
  have hsmall := locate_free_good_fit (n := 32) hok (by decide) (by decide) (by decide)
  have hmiddle := locate_free_good_fit (n := 64) hok (by decide) (by decide) (by decide)
  have hlarge := locate_free_good_fit (n := 136) hok (by decide) (by decide) (by decide)
  exact ⟨s, hrun, head_onFreeList (by decide) hhead (by decide), h24, hfound, h56,
    (hsmall.2.2 9144 hfound).2.2, hfound', h136, (hmiddle.2.2 8984 hfound').2.2, hnone,
    hlarge.2.1 hnone⟩

end Tlsf

end VibeRtos
