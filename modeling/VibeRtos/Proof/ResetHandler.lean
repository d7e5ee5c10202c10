import VibeRtos.Arch.Reset

/-!
# What the reset handler leaves in RAM

Each loop goes through its area word by word. After `j` words the first one has copied `4 * j`
bytes of the load image, and the second one has zeroed `4 * j` bytes; the rest of the memory is
as it was found (`copyLoop_run`, `zeroLoop_run`).
-/

namespace VibeRtos.Reset

open ByteMem StateTransition

/-! ## Words and bytes -/

theorem ofNat_read32 (m : Mem) (b : Nat) :
    UInt8.ofNat (read32 m b) = m b ∧ UInt8.ofNat (read32 m b / 256) = m (b + 1)
      ∧ UInt8.ofNat (read32 m b / 65536) = m (b + 2)
      ∧ UInt8.ofNat (read32 m b / 16777216) = m (b + 3) := by
  have h0 := (m b).toNat_lt
  have h1 := (m (b + 1)).toNat_lt
  have h2 := (m (b + 2)).toNat_lt
  have h3 := (m (b + 3)).toNat_lt
  refine ⟨?_, ?_, ?_, ?_⟩ <;> refine UInt8.toNat_inj.mp ?_ <;>
    simp only [read32, UInt8.toNat_ofNat'] <;> omega

/-- A word that is loaded and stored again is four bytes copied. -/
theorem write32_read32 (m m' : Mem) (a b : Nat) :
    write32 m a (read32 m' b) = fun x => if a ≤ x ∧ x < a + 4 then m' (b + (x - a)) else m x := by
  obtain ⟨h0, h1, h2, h3⟩ := ofNat_read32 m' b
  funext x
  unfold write32
  by_cases hx : a ≤ x ∧ x < a + 4
  · rw [if_pos hx]
    obtain rfl | rfl | rfl | rfl : x = a ∨ x = a + 1 ∨ x = a + 2 ∨ x = a + 3 := by omega
    · simp [h0]
    · simp [h1]
    · simp [h2]
    · simp [h3]
  · rw [if_neg hx, if_neg (by omega), if_neg (by omega), if_neg (by omega), if_neg (by omega)]

/-- A word of zeros. -/
theorem write32_zero (m : Mem) (a : Nat) : write32 m a 0 = fill m a 4 0 := by
  funext x
  unfold write32 fill
  by_cases hx : a ≤ x ∧ x < a + 4
  · rw [if_pos hx]
    obtain rfl | rfl | rfl | rfl : x = a ∨ x = a + 1 ∨ x = a + 2 ∨ x = a + 3 := by omega
    all_goals simp
  · rw [if_neg hx, if_neg (by omega), if_neg (by omega), if_neg (by omega), if_neg (by omega)]

theorem ldr_toNat (m : Mem) (a : Word) : (ldr m a).toNat = read32 m a.toNat :=
  Nat.mod_eq_of_lt (read32_lt m a.toNat)

/-- Copying one more word. -/
theorem copy_succ {m : Mem} {dst src n : Nat} (hapart : src + n + 4 ≤ dst ∨ dst + n + 4 ≤ src) :
    write32 (copy m dst src n) (dst + n) (read32 (copy m dst src n) (src + n))
      = copy m dst src (n + 4) := by
  rw [write32_read32]
  funext x
  unfold copy
  by_cases hx : dst + n ≤ x ∧ x < dst + n + 4
  · rw [if_pos hx, if_neg (by omega), if_pos (by omega)]
    congr 1
    omega
  · rw [if_neg hx]
    exact if_congr (by omega) rfl rfl

/-- Zeroing one more word. -/
theorem fill_succ {m : Mem} {a n : Nat} :
    write32 (fill m a n 0) (a + n) 0 = fill m a (n + 4) 0 := by
  rw [write32_zero]
  funext x
  unfold fill
  by_cases hx : a + n ≤ x ∧ x < a + n + 4
  · rw [if_pos hx, if_pos (by omega)]
  · rw [if_neg hx]
    exact if_congr (by omega) rfl rfl

/-! ## The loops -/

variable {l : Layout}

/-- One round of `_data_copy_loop`. -/
theorem copyLoop_round {s : State} (hpc : s.pc = dataCopyLoop) (h : s.r 1 < s.r 2) :
    ∃ s', Reaches (State.step l) s s' ∧ s'.pc = dataCopyLoop ∧ s'.r 0 = s.r 0 + 4
      ∧ s'.r 1 = s.r 1 + 4 ∧ s'.r 2 = s.r 2
      ∧ s'.mem = str s.mem (s.r 1) (ldr s.mem (s.r 0)) := by
  obtain ⟨r, carry, pc, mem⟩ := s
  obtain rfl : pc = 3 := hpc
  have hle : ¬ r 2 ≤ r 1 := UInt32.not_le.mpr h
  have hcmp : State.step l ⟨r, carry, 3, mem⟩ = some ⟨r, false, 4, mem⟩ := by
    simp [State.step, code, State.exec, hle]
  exact ⟨_, .head hcmp (.head rfl (.head rfl (.head rfl (.head rfl (.head rfl
    (.head rfl .refl)))))), rfl, rfl, rfl, rfl, rfl⟩

theorem add_four {w : Word} (h : w.toNat + 4 < 2 ^ 32) : (w + 4).toNat = w.toNat + 4 := by
  rw [UInt32.toNat_add]
  exact Nat.mod_eq_of_lt h

/-- `_data_copy_loop`, with `k` words left. -/
theorem copyLoop_run (m : Mem) (dst src : Nat) (edata : Word) : ∀ (k n : Nat) {s : State},
    s.pc = dataCopyLoop → (s.r 1).toNat = dst + n → (s.r 0).toNat = src + n → s.r 2 = edata →
    edata.toNat = dst + n + 4 * k → src + n + 4 * k < 2 ^ 32 →
    (src + n + 4 * k ≤ dst ∨ dst + n + 4 * k ≤ src) → s.mem = copy m dst src n →
    ∃ s', Reaches (State.step l) s s' ∧ s'.pc = dataCopyDone
      ∧ s'.mem = copy m dst src (n + 4 * k)
  | 0, n, s, hpc, h1, h0, h2, hend, _, _, hm => by
      have hle : s.r 2 ≤ s.r 1 := by
        rw [UInt32.le_iff_toNat_le, h1, h2, hend]
        omega
      obtain ⟨r, carry, pc, mem⟩ := s
      obtain rfl : pc = 3 := hpc
      have hcmp : State.step l ⟨r, carry, 3, mem⟩ = some ⟨r, true, 4, mem⟩ := by
        simp [State.step, code, State.exec, hle]
      exact ⟨_, .head hcmp (.head rfl .refl), rfl, hm⟩
  | k + 1, n, s, hpc, h1, h0, h2, hend, himg, hapart, hm => by
      have hedata := edata.toNat_lt
      have hlt : s.r 1 < s.r 2 := by
        rw [UInt32.lt_iff_toNat_lt, h1, h2, hend]
        omega
      obtain ⟨t, hreach, hpc', h0', h1', h2', hm'⟩ := copyLoop_round (l := l) hpc hlt
      have hcopy : t.mem = copy m dst src (n + 4) := by
        rw [hm', hm, str, ldr_toNat, h0, h1]
        exact copy_succ (by omega)
      have hnext1 : (t.r 1).toNat = dst + (n + 4) := by
        rw [h1', add_four (by omega), h1]
        omega
      have hnext0 : (t.r 0).toNat = src + (n + 4) := by
        rw [h0', add_four (by omega), h0]
        omega
      obtain ⟨s', hrest, hdone, hmem⟩ := copyLoop_run m dst src edata k (n + 4) hpc' hnext1 hnext0
        (h2'.trans h2) (by omega) (by omega) (by omega) hcopy
      refine ⟨s', hreach.trans hrest, hdone, ?_⟩
      rw [hmem]
      congr 1
      omega

/-- One round of `_bss_zero_loop`. -/
theorem zeroLoop_round {s : State} (hpc : s.pc = bssZeroLoop) (h : s.r 0 < s.r 1) :
    ∃ s', Reaches (State.step l) s s' ∧ s'.pc = bssZeroLoop ∧ s'.r 0 = s.r 0 + 4
      ∧ s'.r 1 = s.r 1 ∧ s'.r 2 = s.r 2 ∧ s'.mem = str s.mem (s.r 0) (s.r 2) := by
  obtain ⟨r, carry, pc, mem⟩ := s
  obtain rfl : pc = 13 := hpc
  have hle : ¬ r 1 ≤ r 0 := UInt32.not_le.mpr h
  have hcmp : State.step l ⟨r, carry, 13, mem⟩ = some ⟨r, false, 14, mem⟩ := by
    simp [State.step, code, State.exec, hle]
  exact ⟨_, .head hcmp (.head rfl (.head rfl (.head rfl (.head rfl .refl)))), rfl, rfl, rfl, rfl,
    rfl⟩

/-- `_bss_zero_loop`, with `k` words left. -/
theorem zeroLoop_run (m : Mem) (a : Nat) (ebss : Word) : ∀ (k n : Nat) {s : State},
    s.pc = bssZeroLoop → (s.r 0).toNat = a + n → s.r 1 = ebss → s.r 2 = 0 →
    ebss.toNat = a + n + 4 * k → s.mem = fill m a n 0 →
    ∃ s', Reaches (State.step l) s s' ∧ s'.pc = bssZeroDone ∧ s'.mem = fill m a (n + 4 * k) 0
  | 0, n, s, hpc, h0, h1, _, hend, hm => by
      have hle : s.r 1 ≤ s.r 0 := by
        rw [UInt32.le_iff_toNat_le, h0, h1, hend]
        omega
      obtain ⟨r, carry, pc, mem⟩ := s
      obtain rfl : pc = 13 := hpc
      have hcmp : State.step l ⟨r, carry, 13, mem⟩ = some ⟨r, true, 14, mem⟩ := by
        simp [State.step, code, State.exec, hle]
      exact ⟨_, .head hcmp (.head rfl .refl), rfl, hm⟩
  | k + 1, n, s, hpc, h0, h1, h2, hend, hm => by
      have hebss := ebss.toNat_lt
      have hlt : s.r 0 < s.r 1 := by
        rw [UInt32.lt_iff_toNat_lt, h0, h1, hend]
        omega
      obtain ⟨t, hreach, hpc', h0', h1', h2', hm'⟩ := zeroLoop_round (l := l) hpc hlt
      have hfill : t.mem = fill m a (n + 4) 0 := by
        rw [hm', hm, str, h0, h2]
        exact fill_succ
      have hnext : (t.r 0).toNat = a + (n + 4) := by
        rw [h0', add_four (by omega), h0]
        omega
      obtain ⟨s', hrest, hdone, hmem⟩ := zeroLoop_run m a ebss k (n + 4) hpc' hnext
        (h1'.trans h1) (h2'.trans h2) (by omega) hfill
      refine ⟨s', hreach.trans hrest, hdone, ?_⟩
      rw [hmem]
      congr 1
      omega

/-! ## The handler -/

/-- The memory that the handler hands to `SystemInit`. -/
def ready (l : Layout) (m : Mem) : Mem :=
  fill (copy m l.sdata.toNat l.sidata.toNat (l.edata.toNat - l.sdata.toNat)) l.sbss.toNat
    (l.ebss.toNat - l.sbss.toNat) 0

theorem reaches_ready (hl : l.Linked) (s : State) (hpc : s.pc = 0) :
    ∃ s', s' ∈ eval (State.step l) s ∧ s'.pc = bssZeroDone ∧ s'.mem = ready l s.mem := by
  obtain ⟨r, carry, pc, mem⟩ := s
  obtain rfl : pc = 0 := hpc
  obtain ⟨hdata, kd, hkd⟩ := hl.data
  obtain ⟨hbss, kb, hkb⟩ := hl.bss
  have himage := hl.image
  have hapart := hl.imageApart
  let s₃ : State := ⟨Function.update (Function.update (Function.update r 0 l.sidata) 1 l.sdata) 2
    l.edata, carry, 3, mem⟩
  have h₃ : Reaches (State.step l) ⟨r, carry, 0, mem⟩ s₃ :=
    .head rfl (.head rfl (.head rfl .refl))
  have hcopy₀ : s₃.mem = copy mem l.sdata.toNat l.sidata.toNat 0 := by
    funext x
    unfold copy
    rw [if_neg (by omega)]
  obtain ⟨s₁₀, h₁₀, hpc₁₀, hm₁₀⟩ := copyLoop_run mem l.sdata.toNat l.sidata.toNat l.edata
    (l := l) (s := s₃) kd 0 rfl rfl rfl rfl (by omega) (by omega) (by omega) hcopy₀
  obtain ⟨r', carry', pc', mem'⟩ := s₁₀
  obtain rfl : pc' = 10 := hpc₁₀
  let s₁₃ : State := ⟨Function.update (Function.update (Function.update r' 0 l.sbss) 1 l.ebss) 2 0,
    carry', 13, mem'⟩
  have h₁₃ : Reaches (State.step l) ⟨r', carry', 10, mem'⟩ s₁₃ :=
    .head rfl (.head rfl (.head rfl .refl))
  have hfill₀ : s₁₃.mem = fill mem' l.sbss.toNat 0 0 := by
    funext x
    unfold fill
    rw [if_neg (by omega)]
  obtain ⟨s', hs', hpc', hm'⟩ := zeroLoop_run mem' l.sbss.toNat l.ebss (l := l) (s := s₁₃) kb 0 rfl
    rfl rfl rfl (by omega) hfill₀
  refine ⟨s', mem_eval.mpr ⟨h₃.trans (h₁₀.trans (h₁₃.trans hs')), ?_⟩, hpc', ?_⟩
  · obtain ⟨r'', carry'', pc'', mem''⟩ := s'
    obtain rfl : pc'' = 18 := hpc'
    rfl
  · have hm₁₀' : mem' = copy mem l.sdata.toNat l.sidata.toNat (0 + 4 * kd) := hm₁₀
    rw [hm', hm₁₀', ready, hkd, hkb, Nat.zero_add, Nat.zero_add]

/--
**The reset handler initialises RAM.** From any registers and any contents of RAM the handler
reaches the call of `SystemInit`. Then `.data` holds its load image, `.bss` is zero, and every
other byte, as those of `.noinit`, is as it was before the reset.
-/
theorem reset_handler (l : Layout) (hl : l.Linked) (s : State) (hpc : s.pc = 0) :
    ∃ s', s' ∈ eval (State.step l) s ∧ s'.pc = bssZeroDone ∧
      (∀ i < l.edata.toNat - l.sdata.toNat,
        s'.mem (l.sdata.toNat + i) = s.mem (l.sidata.toNat + i)) ∧
      (∀ x, l.sbss.toNat ≤ x → x < l.ebss.toNat → s'.mem x = 0) ∧
      ∀ x, (x < l.sdata.toNat ∨ l.edata.toNat ≤ x) → (x < l.sbss.toNat ∨ l.ebss.toNat ≤ x) →
        s'.mem x = s.mem x := by
  obtain ⟨s', hs', hpc', hm⟩ := reaches_ready hl s hpc
  have hd := hl.data.1
  have hb := hl.bss.1
  have hapart := hl.apart
  refine ⟨s', hs', hpc', fun i hi => ?_, fun x h₁ h₂ => ?_, fun x h₁ h₂ => ?_⟩
  · rw [hm, ready, fill_frame (by omega), copy, if_pos (by omega), Nat.add_sub_cancel_left]
  · rw [hm, ready, fill, if_pos (by omega)]
  · rw [hm, ready, fill_frame (by omega), copy_frame (by omega)]

/-- An image with eight bytes of `.data` and sixteen of `.bss`. -/
def smallImage : Layout where
  sidata := 0x10004000
  sdata := 0x20000000
  edata := 0x20000008
  sbss := 0x20000008
  ebss := 0x20000018

theorem smallImage_linked : smallImage.Linked where
  data := by decide
  bss := by decide
  image := by decide
  apart := by decide
  imageApart := by decide

theorem reset_handler_small : ∃ s',
    s' ∈ eval (State.step smallImage) ⟨fun _ => 7, false, 0, fun _ => 9⟩ ∧ s'.pc = bssZeroDone ∧
      (∀ i < 8, s'.mem (0x20000000 + i) = 9) ∧
      (∀ x, 0x20000008 ≤ x → x < 0x20000018 → s'.mem x = 0) ∧
      ∀ x, (x < 0x20000000 ∨ 0x20000008 ≤ x) → (x < 0x20000008 ∨ 0x20000018 ≤ x) → s'.mem x = 9 :=
  reset_handler smallImage smallImage_linked _ rfl

end VibeRtos.Reset
