import VibeRtos.Arch.SwitchSystem

/-!
# What the handler does

Saving stores R4-R11 below the stack pointer and the stack pointer through `r1`;
restoring loads them from where the other thread's stack pointer points. The two blocks
of registers are stored and loaded in the same places.
-/

namespace VibeRtos

open ByteMem

variable {m m' : Mem} {a c v : Word} {b : Board} {x : Nat}

/-! ## Words -/

theorem ldr_congr (h : ∀ i, i < 4 → m' (a.toNat + i) = m (a.toNat + i)) : ldr m' a = ldr m a := by
  rw [ldr, ldr, read32_congr h]

theorem str_frame (h : x < a.toNat ∨ a.toNat + 4 ≤ x) : str m a v x = m x := write32_frame h

theorem ldr_str_same (m : Mem) (a v : Word) : ldr (str m a v) a = v := by
  have hv : v.toNat < 2 ^ 32 := v.toNat_lt
  rw [ldr, str, read32_write32_same, Nat.mod_eq_of_lt hv, UInt32.ofNat_toNat]

theorem ldr_str_ne (h : c.toNat + 4 ≤ a.toNat ∨ a.toNat + 4 ≤ c.toNat) :
    ldr (str m a v) c = ldr m c := by
  rw [ldr, ldr, str, read32_write32_ne h]

/-- Counting up inside the address space. -/
theorem toNat_up {k : Word} (h : a.toNat + k.toNat < 2 ^ 32) :
    (a + k).toNat = a.toNat + k.toNat := by
  rw [UInt32.toNat_add, Nat.mod_eq_of_lt h]

/-- The words of a block of four. -/
theorem words_toNat (ha : a.toNat + 16 ≤ 2 ^ 32) : (a + 4).toNat = a.toNat + 4
    ∧ (a + 8).toNat = a.toNat + 8 ∧ (a + 12).toNat = a.toNat + 12 :=
  ⟨toNat_up (by simp; omega), toNat_up (by simp; omega), toNat_up (by simp; omega)⟩

/-- Those of the next block. -/
theorem words_toNat_high (ha : a.toNat + 32 ≤ 2 ^ 32) : (a + 16).toNat = a.toNat + 16
    ∧ (a + 20).toNat = a.toNat + 20 ∧ (a + 24).toNat = a.toNat + 24
    ∧ (a + 28).toNat = a.toNat + 28 :=
  ⟨toNat_up (by simp; omega), toNat_up (by simp; omega), toNat_up (by simp; omega),
    toNat_up (by simp; omega)⟩

/-! ## The hardware's frame -/

theorem Frame.store_frame (f : Frame) (ha : a.toNat + 32 ≤ 2 ^ 32)
    (hx : x < a.toNat ∨ a.toNat + 32 ≤ x) : f.store m a x = m x := by
  obtain ⟨h4, h8, h12⟩ := words_toNat (a := a) (by omega)
  obtain ⟨h16, h20, h24, h28⟩ := words_toNat_high ha
  simp (disch := omega) only [Frame.store, str_frame]

theorem Frame.load_store (f : Frame) (ha : a.toNat + 32 ≤ 2 ^ 32) :
    Frame.load (f.store m a) a = f := by
  obtain ⟨h4, h8, h12⟩ := words_toNat (a := a) (by omega)
  obtain ⟨h16, h20, h24, h28⟩ := words_toNat_high ha
  simp (disch := omega) only [Frame.load, Frame.store, ldr_str_same, ldr_str_ne]

theorem Frame.load_congr (ha : a.toNat + 32 ≤ 2 ^ 32)
    (h : ∀ x, a.toNat ≤ x → x < a.toNat + 32 → m' x = m x) : Frame.load m' a = Frame.load m a := by
  have hword : ∀ k : Word, k.toNat + 4 ≤ 32 → ldr m' (a + k) = ldr m (a + k) := by
    intro k hk
    have hak : (a + k).toNat = a.toNat + k.toNat := toNat_up (by omega)
    exact ldr_congr fun i hi => h _ (by omega) (by omega)
  have hzero : ldr m' a = ldr m a := ldr_congr fun i hi => h _ (by omega) (by omega)
  simp only [Frame.load, hzero, hword 4 (by decide), hword 8 (by decide), hword 12 (by decide),
    hword 16 (by decide), hword 20 (by decide), hword 24 (by decide), hword 28 (by decide)]

/-! ## The software's block -/

/-- R4-R11, as the handler loads them from `a`: R8-R11 first. -/
def Callee.load (m : Mem) (a : Word) : Callee :=
  ⟨ldr m (a + 16), ldr m (a + 16 + 4), ldr m (a + 16 + 8), ldr m (a + 16 + 12),
    ldr m a, ldr m (a + 4), ldr m (a + 8), ldr m (a + 12)⟩

theorem Callee.load_congr (ha : a.toNat + 32 ≤ 2 ^ 32)
    (h : ∀ x, a.toNat ≤ x → x < a.toNat + 32 → m' x = m x) :
    Callee.load m' a = Callee.load m a := by
  have hword : ∀ k : Word, k.toNat + 4 ≤ 32 → ldr m' (a + k) = ldr m (a + k) := by
    intro k hk
    have hak : (a + k).toNat = a.toNat + k.toNat := toNat_up (by omega)
    exact ldr_congr fun i hi => h _ (by omega) (by omega)
  have hzero : ldr m' a = ldr m a := ldr_congr fun i hi => h _ (by omega) (by omega)
  simp only [Callee.load, hzero, UInt32.add_assoc]
  simp only [hword 4 (by decide), hword 8 (by decide), hword 12 (by decide),
    hword 16 (by decide), hword (16 + 4) (by decide), hword (16 + 8) (by decide),
    hword (16 + 12) (by decide)]

/-- What saving does to the memory. -/
structure Saves (c : Cpu) (m' : Mem) : Prop where
  callee : Callee.load m' (c.psp - 32) = c.callee
  stackPtr : ldr m' c.r1 = c.psp - 32
  frame : ∀ x, x < c.psp.toNat - 32 ∨ c.psp.toNat ≤ x →
    x < c.r1.toNat ∨ c.r1.toNat + 4 ≤ x → m' x = c.mem x

/-- The memory after saving, with the addresses worked out. -/
theorem pendSvSave_mem (c : Cpu) : c.pendSvSave.mem =
    str (str (str (str (str (str (str (str (str c.mem
      (c.psp - 16) c.r4) (c.psp - 16 + 4) c.r5) (c.psp - 16 + 8) c.r6) (c.psp - 16 + 12) c.r7)
      (c.psp - 32) c.r8) (c.psp - 32 + 4) c.r9) (c.psp - 32 + 8) c.r10) (c.psp - 32 + 12) c.r11)
      c.r1 (c.psp - 32) := by
  have hlow : c.psp - 16 - 16 = c.psp - 32 := by rw [sub_sub]; rfl
  simp only [Cpu.pendSvSave, Cpu.stmia, UInt32.add_sub_cancel, hlow]

theorem pendSvSave_spec (c : Cpu) (hpsp : 32 ≤ c.psp.toNat)
    (hr1 : c.r1.toNat + 4 ≤ c.psp.toNat - 32 ∨ c.psp.toNat ≤ c.r1.toNat) :
    Saves c c.pendSvSave.mem := by
  have hlt : c.psp.toNat < 2 ^ 32 := c.psp.toNat_lt
  have hlo : (c.psp - 32).toNat = c.psp.toNat - 32 :=
    UInt32.toNat_sub_of_le _ _ (UInt32.le_iff_toNat_le.mpr hpsp)
  have hhi : (c.psp - 16).toNat = c.psp.toNat - 16 :=
    UInt32.toNat_sub_of_le _ _ (UInt32.le_iff_toNat_le.mpr (by simp; omega))
  have hblock : c.psp - 32 + 16 = c.psp - 16 := UInt32.toNat_inj.mp (by
    rw [toNat_up (by simp; omega), hlo, hhi]
    simp
    omega)
  obtain ⟨hlo4, hlo8, hlo12⟩ := words_toNat (a := c.psp - 32) (by omega)
  obtain ⟨hhi4, hhi8, hhi12⟩ := words_toNat (a := c.psp - 16) (by omega)
  rw [hlo] at hlo4 hlo8 hlo12
  rw [hhi] at hhi4 hhi8 hhi12
  rw [pendSvSave_mem]
  constructor
  case callee =>
      rw [Callee.load, hblock]
      simp (disch := omega) only [ldr_str_same, ldr_str_ne, Cpu.callee]
  case stackPtr => rw [ldr_str_same]
  case frame =>
      intro x hx hx1
      simp (disch := omega) only [str_frame]

/-! ## Restoring -/

/-- The thread whose stack pointer is at `p` comes on the CPU. -/
structure Restores (b : Board) (c c' : Cpu) (p : Word) : Prop where
  callee : c'.callee = Callee.load c.mem (ldr c.mem p)
  psp : c'.psp = ldr c.mem p + 32
  mem : c'.mem = str c.mem b.runningSpLoc p

theorem pendSvRestore_spec (b : Board) (c : Cpu) :
    Restores b c (c.pendSvRestore b) (ldr c.mem b.nextSpLoc) := by
  constructor
  case callee => rfl
  case psp =>
      show ldr c.mem (ldr c.mem b.nextSpLoc) + 16 + 16 = _
      rw [UInt32.add_assoc]
      rfl
  case mem => rfl

end VibeRtos
