import VibeRtos.Proof.PoolSafety

/-!
# A pool and the buffer it was given

`vibe_mem_pool_init` makes a block as large as a link, whatever size it was asked for, and goes on
with the same number of blocks. The caller has given it room for blocks of the size it asked for.
-/

namespace VibeRtos

open ByteMem SList Kernel Runs

namespace PoolSys

/-- The address is in the buffer of `numBlocks` blocks of `blockSize` bytes. -/
def InBuffer (buffer : Nat) (blockSize numBlocks : UInt32) (a : Nat) : Prop :=
  buffer ≤ a ∧ a < buffer + blockSize.toNat * numBlocks.toNat

instance (buffer : Nat) (bs n : UInt32) (a : Nat) : Decidable (InBuffer buffer bs n a) :=
  inferInstanceAs (Decidable (_ ∧ _))

/-- `vibe_mem_pool_init` has returned `VIBE_OK`, and nobody has used the pool. -/
structure Started (buffer : Nat) (blockSize numBlocks : UInt32) (s : PoolSys) : Prop where
  pool : ∃ mem, memPoolInit mem buffer blockSize numBlocks = some (s.obj.mem, s.obj.pool)
  woken : s.obj.woken = []
  flight : s.obj.flight = []
  inUse : s.obj.inUse = []
  nulls : s.obj.nulls = 0
  pc : ∀ t, s.pc t = .idle
  sleep : s.k.sleepList.head = none

/-- Between `s` and `s'` the pool has kept to its buffer: the blocks it hands out and clears lie in
it, `vibe_mem_pool_free` takes the addresses in it, and nothing else has been written. -/
structure Inside (buffer : Nat) (blockSize numBlocks : UInt32) (s s' : PoolSys) : Prop where
  blocks : ∀ b ∈ s'.obj.allocated, ∀ a, s'.obj.pool.InBlock b a →
    InBuffer buffer blockSize numBlocks a
  free : ∀ k ptr, (memPoolFree k s'.obj.mem s'.obj.pool ptr).2.2.2 ≠ .done .einval
    ↔ InBuffer buffer blockSize numBlocks ptr
  outside : ∀ a, ¬ InBuffer buffer blockSize numBlocks a → s'.obj.mem a = s.obj.mem a

/-- The initialisation writes its links into the buffer, and every run keeps to it. -/
structure KeepsToBuffer (buffer : Nat) (blockSize numBlocks : UInt32) : Prop where
  init : ∀ mem mem' p, memPoolInit mem buffer blockSize numBlocks = some (mem', p) →
    ∀ a, ¬ InBuffer buffer blockSize numBlocks a → mem' a = mem a
  run : ∀ cfg s s' labels, s.Started buffer blockSize numBlocks →
    run (PoolSys.step cfg) s labels = some s' → s.Inside buffer blockSize numBlocks s'

variable {cfg : Config} {buffer : Nat} {bs n : UInt32} {s s' : PoolSys} {l : PoolLabel}
  {self : Tid} {r : Kernel × PoolObj × PoolPc}

/-! ## The links of the initialisation -/

/-- The loop writes the blocks it has passed. -/
theorem memPoolChain_outside (hsize : 4 ≤ bs.toNat) (buffer : Nat) (mem : Mem) (k : Nat) :
    let c := (List.range k).foldl (memPoolChain bs) ⟨mem, 0, 0, buffer⟩
    c.p = buffer + k * bs.toNat ∧ (c.prevBlk ≠ 0 → buffer ≤ c.prevBlk ∧ c.prevBlk + 4 ≤ c.p)
      ∧ ∀ a, a < buffer ∨ c.p ≤ a → c.mem a = mem a := by
  induction k with
  | zero => exact ⟨by simp, fun h => absurd rfl h, fun _ _ => rfl⟩
  | succ k ih =>
      obtain ⟨hp, hprev, hmem⟩ := ih
      rw [List.range_succ, List.foldl_append, List.foldl_cons, List.foldl_nil]
      generalize (List.range k).foldl (memPoolChain bs) ⟨mem, 0, 0, buffer⟩ = c at *
      have hnext : (memPoolChain bs c k).p = c.p + bs.toNat := rfl
      have hmul : (k + 1) * bs.toNat = k * bs.toNat + bs.toNat := Nat.succ_mul _ _
      refine ⟨by omega, fun _ => ?_, fun a ha => ?_⟩
      · show buffer ≤ c.p ∧ c.p + 4 ≤ (memPoolChain bs c k).p
        omega
      · rw [hnext] at ha
        show write32 (if c.prevBlk ≠ 0 then write32 c.mem c.prevBlk c.p else c.mem) c.p 0 a = mem a
        -- the new link, and the one that is completed by it
        rw [write32_frame (by omega)]
        split
        · rename_i hne
          obtain ⟨hlow, hhigh⟩ := hprev hne
          rw [write32_frame (by omega), hmem a (by omega)]
        · exact hmem a (by omega)

theorem not_lt_four (hsize : 4 ≤ bs.toNat) : ¬ bs < 4 := fun hlt => by
  have hlt' := UInt32.lt_iff_toNat_lt.mp hlt
  have hfour : (4 : UInt32).toNat = 4 := rfl
  omega

theorem memPoolInit_outside (hsize : 4 ≤ bs.toNat) {mem mem' : Mem} {p : MemPool}
    (hinit : memPoolInit mem buffer bs n = some (mem', p)) {a : Nat}
    (ha : ¬ InBuffer buffer bs n a) : mem' a = mem a := by
  unfold memPoolInit at hinit
  split at hinit
  · exact absurd hinit (by simp)
  · rw [if_neg (not_lt_four hsize)] at hinit
    obtain ⟨rfl, -⟩ := Prod.mk.inj (Option.some.inj hinit)
    obtain ⟨hp, -, hmem⟩ := memPoolChain_outside hsize buffer mem n.toNat
    refine hmem a ?_
    rw [hp, Nat.mul_comm]
    unfold InBuffer at ha
    omega

/-- What a write covers does not depend on what was there. -/
theorem write32_covers {m₁ m₂ : Mem} {a v x : Nat} (h : m₁ x = m₂ x ∨ a ≤ x ∧ x < a + 4) :
    write32 m₁ a v x = write32 m₂ a v x := by
  unfold write32
  rcases h with h | h
  · rw [h]
  · by_cases h0 : x = a
    · simp [h0]
    · by_cases h1 : x = a + 1
      · simp [h1]
      · by_cases h2 : x = a + 2
        · simp [h2]
        · rw [if_pos (show x = a + 3 by omega), if_pos (show x = a + 3 by omega)]

/-- Blocks of four bytes are links and nothing else, so the loop writes all of them. -/
theorem memPoolChain_covers (buffer : Nat) (m₁ m₂ : Mem) (k : Nat) :
    let c₁ := (List.range k).foldl (memPoolChain 4) ⟨m₁, 0, 0, buffer⟩
    let c₂ := (List.range k).foldl (memPoolChain 4) ⟨m₂, 0, 0, buffer⟩
    c₁.p = buffer + 4 * k ∧ c₂.p = c₁.p ∧ c₂.prevBlk = c₁.prevBlk
      ∧ ∀ x, buffer ≤ x → x < buffer + 4 * k → c₁.mem x = c₂.mem x := by
  induction k with
  | zero => exact ⟨rfl, rfl, rfl, fun x hlow hhigh => absurd hhigh (by omega)⟩
  | succ k ih =>
      obtain ⟨hp, hp₂, hprev, hmem⟩ := ih
      rw [List.range_succ, List.foldl_append, List.foldl_append, List.foldl_cons, List.foldl_cons,
        List.foldl_nil, List.foldl_nil]
      generalize (List.range k).foldl (memPoolChain 4) ⟨m₁, 0, 0, buffer⟩ = c₁ at *
      generalize (List.range k).foldl (memPoolChain 4) ⟨m₂, 0, 0, buffer⟩ = c₂ at *
      have hfour : (4 : UInt32).toNat = 4 := rfl
      refine ⟨?_, ?_, hp₂, fun x hlow hhigh => ?_⟩
      · show c₁.p + (4 : UInt32).toNat = _
        omega
      · show c₂.p + (4 : UInt32).toNat = c₁.p + (4 : UInt32).toNat
        omega
      · show write32 (if c₁.prevBlk ≠ 0 then write32 c₁.mem c₁.prevBlk c₁.p else c₁.mem) c₁.p 0 x
          = write32 (if c₂.prevBlk ≠ 0 then write32 c₂.mem c₂.prevBlk c₂.p else c₂.mem) c₂.p 0 x
        rw [hp₂, hprev]
        -- below the new block the two memories agree already
        refine write32_covers ?_
        by_cases hx : x < c₁.p
        · refine Or.inl ?_
          have hsame := hmem x hlow (by omega)
          split
          · exact write32_covers (Or.inl hsame)
          · exact hsame
        · exact Or.inr (by omega)

/-- With smaller blocks there is a link on the first byte behind the buffer. -/
theorem memPoolInit_overruns (hbuffer : buffer ≠ 0) (hbs : bs ≠ 0) (hn : n ≠ 0)
    (hsmall : bs.toNat < 4) : ∃ mem mem' p, memPoolInit mem buffer bs n = some (mem', p)
      ∧ mem' (buffer + bs.toNat * n.toNat) ≠ mem (buffer + bs.toNat * n.toNat) := by
  have hlt : bs < 4 := UInt32.lt_iff_toNat_lt.mpr hsmall
  have hok : ¬ (buffer = 0 ∨ bs = 0 ∨ n = 0) := by
    rintro (h | h | h)
    · exact hbuffer h
    · exact hbs h
    · exact hn h
  have hpos : 0 < n.toNat := Nat.pos_of_ne_zero fun h0 => hn (UInt32.toNat_inj.mp h0)
  have hmul : bs.toNat * n.toNat < 4 * n.toNat := Nat.mul_lt_mul_of_pos_right hsmall hpos
  let last := buffer + bs.toNat * n.toNat
  let v := ((List.range n.toNat).foldl (memPoolChain 4) ⟨fun _ => 0, 0, 0, buffer⟩).mem last
  -- a byte that is overwritten with `v` has not been `v + 1` before
  refine ⟨fun _ => v + 1, _, _, by rw [memPoolInit, if_neg hok, if_pos hlt], ?_⟩
  obtain ⟨-, -, -, hcover⟩ :=
    memPoolChain_covers buffer (fun _ => 0) (fun _ => v + 1) n.toNat
  show PoolChain.mem _ last ≠ v + 1
  rw [← hcover last (Nat.le_add_right _ _) (Nat.add_lt_add_left hmul _)]
  exact fun h => absurd (left_eq_add.mp h) (by decide)

/-! ## The runs -/

/-- Blocks lie in the buffer. -/
theorem Partition.in_buffer (h : s.Partition buffer bs n) {b a : Nat} (hb : b ∈ s.obj.allocated)
    (ha : b ≤ a ∧ a < b + bs.toNat) : InBuffer buffer bs n a := by
  obtain ⟨free, hblocks⟩ := h.blocks
  obtain ⟨hlow, hhigh⟩ := hblocks.bounds (List.mem_append_right _ hb)
  rw [h.buffer] at hlow
  rw [h.buffer, h.blockSize, h.numBlocks, Nat.mul_comm] at hhigh
  unfold InBuffer
  omega

/-- A section writes into the buffer only. -/
theorem Partition.section_outside (h : s.Partition buffer bs n) {x : Nat} {act : PoolAct}
    (hr : poolThread s.k s.obj self (s.pc self) act = some r) (hx : ¬ InBuffer buffer bs n x) :
    r.2.1.mem x = s.obj.mem x := by
  have hsize : 4 ≤ bs.toNat := by
    obtain ⟨free, hblocks⟩ := h.blocks
    rw [← h.blockSize]
    exact hblocks.size
  -- an address outside is in front of the block or behind it
  have hout : ∀ b ∈ s.obj.allocated, x < b ∨ b + bs.toNat ≤ x := by
    intro b hb
    by_contra hin
    exact hx (h.in_buffer hb (by omega))
  have htake : ∀ (o : PoolObj) p blk, (o.take p blk).1.mem = o.mem := by
    intro o p blk
    unfold PoolObj.take
    split <;> rfl
  cases hpc : s.pc self with
  | idle =>
      rw [hpc] at hr
      cases act with
      | alloc timeout =>
          obtain rfl := Option.some.inj hr
          dsimp only
          split
          · rw [htake]
          · rfl
          · rfl
      | free ptr =>
          rcases poolThread_free hr with ⟨-, rfl⟩ | ⟨-, hin, rfl⟩
          · rfl
          · -- the link goes into the block that is given back
            have hptr := hout ptr (List.mem_append_right _ hin)
            exact write32_frame (by omega)
      | store a v =>
          obtain ⟨⟨b, hbin, hlow, hhigh⟩, hr⟩ := Option.ite_none_right_eq_some.mp hr
          obtain rfl := Option.some.inj hr
          rw [h.blockSize] at hhigh
          have hb := hout b (List.mem_append_right _ hbin)
          exact Function.update_of_ne (by omega) _ _
      | _ => exact absurd hr (by simp [poolThread])
  | waiting timeout =>
      rw [hpc] at hr
      cases act with
      | retry =>
          obtain rfl := Option.some.inj hr
          dsimp only
          rw [htake]
      | _ => exact absurd hr (by simp [poolThread])
  | clearing blk =>
      have hblk := hout blk (List.mem_append_left _ (h.flight self blk hpc))
      rw [hpc] at hr
      cases act with
      | clear =>
          obtain rfl := Option.some.inj hr
          -- the whole block is cleared, and nothing else
          refine fill_frame ?_
          rw [h.blockSize]
          exact hblk
      | _ => exact absurd hr (by simp [poolThread])

theorem Partition.step_outside (h : s.Partition buffer bs n) (hs : s.step cfg l = some s') {x : Nat}
    (hx : ¬ InBuffer buffer bs n x) : s'.obj.mem x = s.obj.mem x := by
  cases l with
  | dispatch t =>
      obtain ⟨-, rfl⟩ := ObjectSys.dispatch_eq_some hs
      rfl
  | tick =>
      obtain rfl := Option.some.inj hs
      rfl
  | isr i => exact i.elim
  | act a =>
      obtain ⟨self, r, -, -, hr, rfl⟩ := ObjectSys.act_eq_some hs
      exact h.section_outside hr hx

/-- `vibe_mem_pool_free` takes the addresses in the buffer. -/
theorem Partition.free_iff (h : s.Partition buffer bs n) (hbuffer : buffer ≠ 0)
    (hfits : buffer + bs.toNat * n.toNat < 2 ^ 32) (k : Kernel) (ptr : Nat) :
    (memPoolFree k s.obj.mem s.obj.pool ptr).2.2.2 ≠ .done .einval ↔ InBuffer buffer bs n ptr := by
  have hstop : (s.obj.pool.numBlocks * s.obj.pool.blockSize).toNat = bs.toNat * n.toNat := by
    rw [h.numBlocks, h.blockSize, UInt32.toNat_mul, Nat.mul_comm]
    exact Nat.mod_eq_of_lt (by omega)
  unfold memPoolFree InBuffer
  rw [hstop, h.buffer]
  dsimp only
  split
  · rename_i hbad
    refine iff_of_false (fun hgood => hgood rfl) ?_
    omega
  · rename_i hgood
    refine iff_of_true (by simp) ?_
    omega

/--
**When a pool keeps to its buffer.**

For every buffer of `block_size * num_blocks` bytes: the initialisation writes its links into it,
and under any interleaving of allocs, frees and stores the blocks that are handed out and cleared
lie in it, `vibe_mem_pool_free` takes exactly its addresses, and nothing outside is written,
exactly when a block has room for a link.
-/
theorem pool_keeps_to_buffer_iff (hbuffer : buffer ≠ 0) (hbs : bs ≠ 0) (hn : n ≠ 0)
    (hfits : buffer + bs.toNat * n.toNat < 2 ^ 32) :
    KeepsToBuffer buffer bs n ↔ 4 ≤ bs.toNat := by
  constructor
  · intro h
    by_contra hsmall
    obtain ⟨mem, mem', p, hinit, hne⟩ :=
      memPoolInit_overruns hbuffer hbs hn (Nat.lt_of_not_le hsmall)
    refine hne (h.init mem mem' p hinit _ fun hin => ?_)
    exact absurd hin.2 (Nat.lt_irrefl _)
  · intro hsize
    refine ⟨fun mem mem' p hinit a ha => memPoolInit_outside hsize hinit ha,
      fun cfg s s' labels hs hrun => ?_⟩
    have hroom : buffer + n.toNat * max 4 bs.toNat ≤ 2 ^ 32 := by
      rw [Nat.max_eq_right hsize, Nat.mul_comm]
      omega
    have hinit : s.Initial buffer bs n :=
      ⟨hs.pool, hroom, hs.woken, hs.flight, hs.inUse, hs.nulls, hs.pc, hs.sleep⟩
    obtain ⟨hp, hout⟩ : s'.Partition buffer bs n
        ∧ ∀ a, ¬ InBuffer buffer bs n a → s'.obj.mem a = s.obj.mem a := by
      refine run_invariant (P := fun s' => s'.Partition buffer bs n
        ∧ ∀ a, ¬ InBuffer buffer bs n a → s'.obj.mem a = s.obj.mem a) ?_
        ⟨hinit.partition hsize, fun _ _ => rfl⟩ hrun
      intro s₁ l s₂ ⟨hp, hout⟩ hstep
      exact ⟨(hp.step hstep).1, fun a ha => (hp.step_outside hstep ha).trans (hout a ha)⟩
    refine ⟨fun b hb a ha => ?_, hp.free_iff hbuffer hfits, hout⟩
    unfold MemPool.InBlock at ha
    rw [hp.blockSize] at ha
    exact hp.in_buffer hb ha

/-- Two blocks of eight bytes. -/
theorem pool_keeps_to_buffer_iff_eight : KeepsToBuffer 0x2000 8 2 :=
  (pool_keeps_to_buffer_iff (by decide) (by decide) (by decide) (by decide)).mpr (by decide)

/-- **Links behind the buffer.** For four blocks of two bytes the third link is already behind the
eight bytes of the caller. -/
theorem pool_init_overruns : (∃ mem', ∃ p, memPoolInit (fun _ => 7) 0x2000 2 4 = some (mem', p)
      ∧ ¬ InBuffer 0x2000 2 4 0x2008 ∧ mem' 0x2008 = 0x0C) ∧ ¬ KeepsToBuffer 0x2000 2 4 := by
  obtain ⟨r, hinit, hbyte⟩ : ∃ r, memPoolInit (fun _ => 7) 0x2000 2 4 = some r
      ∧ r.1 0x2008 = 0x0C := Option.map_eq_some_iff.mp (by decide +kernel)
  have hout : ¬ InBuffer 0x2000 2 4 0x2008 := by decide
  refine ⟨⟨r.1, r.2, hinit, hout, hbyte⟩, fun h => ?_⟩
  have hkept := h.init _ r.1 r.2 hinit 0x2008 hout
  rw [hbyte] at hkept
  exact absurd hkept (by decide)

end PoolSys

end VibeRtos
