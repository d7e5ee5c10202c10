import Mathlib

/-!
# 32-bit words as naturals

The bit operations of C on `uint32_t`, on naturals below `2 ^ 32`. A word is used in two
ways: as a set of bits, where the rules say which bits a result has, and as a number with
a few flags in its low bits, where they say which number and which flags are left.
-/

namespace Bits

/-- `~x`. -/
def not32 (x : Nat) : Nat := 2 ^ 32 - (x + 1)

/-- `x << k`. -/
def shl32 (x k : Nat) : Nat := (x <<< k) % 2 ^ 32

/-- `__builtin_clz`: the leading zeros of a word that is not zero. -/
def clz32 (x : Nat) : Nat := 31 - Nat.log2 x

/-- `__builtin_ctz`: the trailing zeros of a word that is not zero. -/
def ctz32 (x : Nat) : Nat := ((List.range 32).find? x.testBit).getD 0

variable {x k q r i : Nat}

theorem testBit_lt_32 (hx : x < 2 ^ 32) (h : x.testBit i = true) : i < 32 := by
  by_contra hi
  rw [Nat.testBit_lt_two_pow (lt_of_lt_of_le hx (Nat.pow_le_pow_right (by decide) (by omega)))] at h
  exact absurd h (by decide)

theorem testBit_not32 (hx : x < 2 ^ 32) : (not32 x).testBit i = (decide (i < 32) && !x.testBit i) :=
  Nat.testBit_two_pow_sub_succ hx i

/-! ## Sets of bits -/

theorem shl32_one (hk : k < 32) : shl32 1 k = 2 ^ k := by
  rw [shl32, Nat.shiftLeft_eq, Nat.one_mul, Nat.mod_eq_of_lt]
  exact Nat.pow_lt_pow_right (by decide) hk

/-- Adding the bit `k`. -/
theorem testBit_set (hk : k < 32) :
    (x ||| shl32 1 k).testBit i = true ↔ x.testBit i = true ∨ i = k := by
  rw [shl32_one hk, Nat.testBit_or, Nat.testBit_two_pow, Bool.or_eq_true, decide_eq_true_iff,
    eq_comm (a := k)]

/-- Taking the bit `k` out. -/
theorem testBit_clear (hx : x < 2 ^ 32) (hk : k < 32) :
    (x &&& not32 (shl32 1 k)).testBit i = true ↔ x.testBit i = true ∧ i ≠ k := by
  have hlt : 2 ^ k < 2 ^ 32 := Nat.pow_lt_pow_right (by decide) hk
  rw [shl32_one hk, Nat.testBit_and, testBit_not32 hlt, Nat.testBit_two_pow]
  constructor
  · intro h
    simp only [Bool.and_eq_true, Bool.not_eq_true', decide_eq_true_eq, decide_eq_false_iff_not] at h
    exact ⟨h.1, fun he => h.2.2 he.symm⟩
  · intro ⟨hbit, hne⟩
    simp [hbit, testBit_lt_32 hx hbit, hne.symm]

/-- The bits from `k` on. -/
theorem testBit_from (hx : x < 2 ^ 32) :
    (x &&& shl32 (not32 0) k).testBit i = true ↔ x.testBit i = true ∧ k ≤ i := by
  have hones : not32 0 = 2 ^ 32 - 1 := rfl
  rw [Nat.testBit_and, shl32, hones, Nat.testBit_mod_two_pow, Nat.testBit_shiftLeft,
    Nat.testBit_two_pow_sub_one]
  constructor
  · intro h
    simp only [Bool.and_eq_true, decide_eq_true_eq] at h
    exact ⟨h.1, h.2.2.1⟩
  · intro ⟨hbit, hle⟩
    have hi := testBit_lt_32 hx hbit
    simp only [hbit, hi, hle, decide_true, Bool.true_and, decide_eq_true_eq]
    omega

theorem set_lt (hx : x < 2 ^ 32) (hk : k < 32) : x ||| shl32 1 k < 2 ^ 32 := by
  refine Nat.or_lt_two_pow hx ?_
  rw [shl32_one hk]
  exact Nat.pow_lt_pow_right (by decide) hk

theorem and_lt {y : Nat} (hx : x < 2 ^ 32) : x &&& y < 2 ^ 32 :=
  lt_of_le_of_lt Nat.and_le_left hx

theorem eq_zero_iff : x = 0 ↔ ∀ i, ¬ x.testBit i = true := by
  constructor
  · rintro rfl i
    simp
  · intro h
    exact Nat.eq_of_testBit_eq fun i => by simpa using h i

/-- The lowest bit. -/
theorem ctz32_spec (hx : x < 2 ^ 32) (h0 : x ≠ 0) :
    x.testBit (ctz32 x) = true ∧ ∀ i, x.testBit i = true → ctz32 x ≤ i := by
  obtain ⟨k, hk⟩ : ∃ k, x.testBit k = true := by
    by_contra hno
    exact h0 (eq_zero_iff.mpr fun i hi => hno ⟨i, hi⟩)
  have hmem : k ∈ List.range 32 := List.mem_range.mpr (testBit_lt_32 hx hk)
  obtain ⟨a, ha⟩ : ∃ a, (List.range 32).find? x.testBit = some a :=
    Option.isSome_iff_exists.mp (List.find?_isSome.mpr ⟨k, hmem, hk⟩)
  have hctz : ctz32 x = a := by rw [ctz32, ha]; rfl
  obtain ⟨hbit, as, bs, happ, hbefore⟩ := List.find?_eq_some_iff_append.mp ha
  rw [hctz]
  refine ⟨hbit, fun i hi => ?_⟩
  by_contra hlt
  -- the bits below `a` are passed over in the search
  have hi' : i ∈ as := by
    have hin : i ∈ List.range 32 := List.mem_range.mpr (testBit_lt_32 hx hi)
    have hsorted : (List.range 32).Pairwise (· < ·) := List.pairwise_lt_range
    rw [happ] at hin hsorted
    rcases List.mem_append.mp hin with hin | hin
    · exact hin
    · have hafter := List.pairwise_cons.mp (List.pairwise_append.mp hsorted).2.1
      rcases List.mem_cons.mp hin with rfl | hin
      · omega
      · have hle := hafter.1 i hin
        omega
  simpa [hi] using hbefore i hi'

/-! ## Numbers with flags -/

/-- A flag is set in the low bits. -/
theorem or_low {n : Nat} (hr : r < 2 ^ n) (hk : k < 2 ^ n) :
    (2 ^ n * q + r) ||| k = 2 ^ n * q + (r ||| k) := by
  rw [Nat.two_pow_add_eq_or_of_lt hr, Nat.or_assoc,
    Nat.two_pow_add_eq_or_of_lt (Nat.or_lt_two_pow hr hk)]

theorem testBit_mul_add {n : Nat} (hr : r < 2 ^ n) :
    (2 ^ n * q + r).testBit i = if i < n then r.testBit i else q.testBit (i - n) :=
  Nat.testBit_two_pow_mul_add q hr i

/-- A flag is cleared in the low bits. -/
theorem and_not32_low {n : Nat} (hr : r < 2 ^ n) (hk : k < 2 ^ n) (hn : n ≤ 32)
    (hx : 2 ^ n * q + r < 2 ^ 32) :
    (2 ^ n * q + r) &&& not32 k = 2 ^ n * q + (r &&& not32 k) := by
  have hk' : k < 2 ^ 32 := lt_of_lt_of_le hk (Nat.pow_le_pow_right (by decide) hn)
  refine Nat.eq_of_testBit_eq fun i => ?_
  have hlow : r &&& not32 k < 2 ^ n := lt_of_le_of_lt Nat.and_le_left hr
  rw [Nat.testBit_and, testBit_mul_add hr, testBit_mul_add hlow, Nat.testBit_and,
    testBit_not32 hk']
  split
  · rfl
  · rename_i hi
    have hki : k.testBit i = false :=
      Nat.testBit_lt_two_pow (lt_of_lt_of_le hk (Nat.pow_le_pow_right (by decide) (by omega)))
    by_cases hq : q.testBit (i - n) = true
    · have hbit : (2 ^ n * q + r).testBit i = true := by rw [testBit_mul_add hr, if_neg hi, hq]
      simp [hq, hki, testBit_lt_32 hx hbit]
    · simp [hq]

/-- The number without its flags. -/
theorem and_not32_mask {n : Nat} (hr : r < 2 ^ n) (hn : n ≤ 32) (hx : 2 ^ n * q + r < 2 ^ 32) :
    (2 ^ n * q + r) &&& not32 (2 ^ n - 1) = 2 ^ n * q := by
  have hpos : 0 < 2 ^ n := Nat.two_pow_pos n
  rw [and_not32_low hr (by omega) hn hx]
  have hzero : r &&& not32 (2 ^ n - 1) = 0 := by
    refine eq_zero_iff.mpr fun i hi => ?_
    have hmask : 2 ^ n - 1 < 2 ^ 32 := by
      have hle : 2 ^ n ≤ 2 ^ 32 := Nat.pow_le_pow_right (by decide) hn
      omega
    rw [Nat.testBit_and, testBit_not32 hmask, Nat.testBit_two_pow_sub_one] at hi
    simp only [Bool.and_eq_true, decide_eq_true_eq, Bool.not_eq_true',
      decide_eq_false_iff_not] at hi
    have hlow := Nat.testBit_lt_two_pow
      (lt_of_lt_of_le hr (Nat.pow_le_pow_right (by decide) (by omega : n ≤ i)))
    rw [hlow] at hi
    exact absurd hi.1 (by decide)
  rw [hzero, Nat.add_zero]

/-- The flags without the number. -/
theorem and_low {n : Nat} (hr : r < 2 ^ n) (hk : k < 2 ^ n) : (2 ^ n * q + r) &&& k = r &&& k := by
  refine Nat.eq_of_testBit_eq fun i => ?_
  rw [Nat.testBit_and, Nat.testBit_and, testBit_mul_add hr]
  split
  · rfl
  · have hki : k.testBit i = false :=
      Nat.testBit_lt_two_pow (lt_of_lt_of_le hk (Nat.pow_le_pow_right (by decide) (by omega)))
    simp [hki]

end Bits
