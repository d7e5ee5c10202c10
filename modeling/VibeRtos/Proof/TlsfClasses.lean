import VibeRtos.Heap.Tlsf

/-!
# Size classes

The two indices of a size: below 64 the classes are 8 bytes apart, and from 64 on each
power of two is cut into eight classes. A block whose class is not in front of the class
of a rounded size is at least that large, which is why `locate_free` need not look at
the sizes of the blocks it finds.
-/

namespace VibeRtos

open Bits

namespace Tlsf

variable {n r b k : Nat}

/-- `k` does not come before `k'` in the order the lists are searched in. -/
def ClassLe (k k' : Nat × Nat) : Prop := k.1 < k'.1 ∨ k.1 = k'.1 ∧ k.2 ≤ k'.2

/-- Both indices are inside the tables. -/
def InRange (k : Nat × Nat) : Prop := k.1 < flIndexCount ∧ k.2 < slIndexCount

instance (k : Nat × Nat) : Decidable (InRange k) := inferInstanceAs (Decidable (_ ∧ _))

/-- The classes of the two-level table. -/
def classes : List (Nat × Nat) :=
  (List.range flIndexCount).flatMap fun i => (List.range slIndexCount).map fun j => (i, j)

theorem mem_classes {k : Nat × Nat} : k ∈ classes ↔ InRange k := by
  obtain ⟨i, j⟩ := k
  simp [classes, InRange, List.mem_flatMap]

theorem classes_nodup : classes.Nodup := by
  change (List.range flIndexCount ×ˢ List.range slIndexCount).Nodup
  exact List.nodup_range.product List.nodup_range

theorem ClassLe.trans {k k' k'' : Nat × Nat} (h : ClassLe k k') (h' : ClassLe k' k'') :
    ClassLe k k'' := by
  unfold ClassLe at *
  omega

/-- The smallest size that is mapped through its logarithm. -/
theorem small_bound : shl32 1 (flIndexShift + slIndexCountLog2) = 64 := by decide

theorem log2_clz (hn : n < 2 ^ 32) : 31 - clz32 n = Nat.log2 n := by
  have hlog : Nat.log2 n < 32 := by
    rcases Nat.eq_zero_or_pos n with rfl | hpos
    · decide
    · exact (Nat.log2_lt (by omega)).mpr hn
  unfold clz32
  omega

/-- The exponent of a size from 64 on. -/
theorem log2_bounds (hn : 64 ≤ n) :
    ∃ e, Nat.log2 n = e + 3 ∧ 3 ≤ e ∧ 2 ^ e * 8 ≤ n ∧ n < 2 ^ e * 16 := by
  have hlow := Nat.log2_self_le (n := n) (by omega)
  have hhigh := Nat.lt_log2_self (n := n)
  have hsix : 6 ≤ Nat.log2 n := (Nat.le_log2 (by omega)).mpr hn
  obtain ⟨e, he⟩ : ∃ e, Nat.log2 n = e + 3 := ⟨Nat.log2 n - 3, by omega⟩
  rw [he] at hlow hhigh
  refine ⟨e, he, by omega, ?_, ?_⟩
  · simpa [Nat.pow_add] using hlow
  · rwa [Nat.add_assoc, Nat.pow_add] at hhigh

theorem mapping_small (hn : n < 64) : mapping n = (0, n / 8) := by
  unfold mapping
  rw [small_bound, if_pos hn, Nat.shiftRight_eq_div_pow]
  rfl

/-- From 64 on, the first index counts powers of two and the second cuts them into eight. -/
theorem mapping_large {e : Nat} (hn : n < 2 ^ 32) (hlog : Nat.log2 n = e + 3) (h64 : 64 ≤ n) :
    mapping n = (e, n / 2 ^ e - 8) := by
  unfold mapping
  rw [small_bound, if_neg (by omega)]
  dsimp only
  rw [log2_clz hn, hlog, Nat.shiftRight_eq_div_pow]
  rfl

/-- The second index of a large size. -/
theorem second_bounds {e : Nat} (hlow : 2 ^ e * 8 ≤ n) (hhigh : n < 2 ^ e * 16) :
    8 ≤ n / 2 ^ e ∧ n / 2 ^ e < 16 := by
  have hpos := Nat.two_pow_pos e
  exact ⟨(Nat.le_div_iff_mul_le hpos).mpr (by rwa [Nat.mul_comm]),
    (Nat.div_lt_iff_lt_mul hpos).mpr (by rwa [Nat.mul_comm])⟩

/-- The second index never leaves its table. -/
theorem mapping_second_lt (hn : n < 2 ^ 32) : (mapping n).2 < slIndexCount := by
  unfold slIndexCount
  by_cases h64 : n < 64
  · rw [mapping_small h64]
    omega
  · obtain ⟨e, hlog, -, hlow, hhigh⟩ := log2_bounds (n := n) (by omega)
    obtain ⟨-, hsl⟩ := second_bounds hlow hhigh
    rw [mapping_large hn hlog (by omega)]
    omega

/-- **The tables are large enough** for every size below `2 ^ 23`, and for no other: the first index
leaves its table, the second never does. -/
theorem mapping_inRange (hn : n < 2 ^ 32) : InRange (mapping n) ↔ n < 2 ^ 23 := by
  unfold InRange
  rw [and_iff_left (mapping_second_lt hn)]
  unfold flIndexCount flIndexShift
  by_cases h64 : n < 64
  · rw [mapping_small h64]
    omega
  · obtain ⟨e, hlog, he, -, -⟩ := log2_bounds (n := n) (by omega)
    rw [mapping_large hn hlog (by omega)]
    have hiff : e < 20 ↔ n < 2 ^ 23 := by
      rw [← Nat.log2_lt (by omega), hlog]
      omega
    omega

/-- **Larger sizes have later classes.** -/
theorem mapping_mono (hle : r ≤ b) (hb : b < 2 ^ 32) : ClassLe (mapping r) (mapping b) := by
  by_cases hr64 : r < 64
  · rw [mapping_small hr64]
    by_cases hb64 : b < 64
    · rw [mapping_small hb64]
      exact Or.inr ⟨rfl, Nat.div_le_div_right hle⟩
    · obtain ⟨e, hlog, he, -, -⟩ := log2_bounds (n := b) (by omega)
      rw [mapping_large hb hlog (by omega)]
      exact Or.inl (by simp only; omega)
  · obtain ⟨e, hlog, -, hlow, hhigh⟩ := log2_bounds (n := r) (by omega)
    obtain ⟨e', hlog', -, hlow', hhigh'⟩ := log2_bounds (n := b) (by omega)
    rw [mapping_large (by omega) hlog (by omega), mapping_large hb hlog' (by omega)]
    have he : e ≤ e' := by
      have hmono : Nat.log2 r ≤ Nat.log2 b :=
        (Nat.le_log2 (by omega)).mpr ((Nat.log2_self_le (by omega)).trans hle)
      omega
    rcases Nat.lt_or_eq_of_le he with hlt | rfl
    · exact Or.inl hlt
    · exact Or.inr ⟨rfl, Nat.sub_le_sub_right (Nat.div_le_div_right hle) 8⟩

/-! ## Rounded sizes -/

/-- `r` is the smallest size of its class. -/
def Boundary (r : Nat) : Prop := r < 64 ∧ 8 ∣ r ∨ 64 ≤ r ∧ 2 ^ (Nat.log2 r - 3) ∣ r

/-- **A block in the class of a boundary, or behind it, is as large as the boundary.** -/
theorem Boundary.le (hr : Boundary r) (hr32 : r < 2 ^ 32) (hb : b < 2 ^ 32)
    (hk : ClassLe (mapping r) (mapping b)) : r ≤ b := by
  rcases hr with ⟨hsmall, hdvd⟩ | ⟨hlarge, hdvd⟩
  · by_cases h64 : b < 64
    · rw [mapping_small hsmall, mapping_small h64] at hk
      unfold ClassLe at hk
      omega
    · omega
  · obtain ⟨e, hlog, he, hlow, hhigh⟩ := log2_bounds hlarge
    rw [mapping_large hr32 hlog hlarge] at hk
    rw [hlog, Nat.add_sub_cancel] at hdvd
    by_cases h64 : b < 64
    · rw [mapping_small h64] at hk
      unfold ClassLe at hk
      omega
    · obtain ⟨e', hlog', -, hlow', hhigh'⟩ := log2_bounds (n := b) (by omega)
      rw [mapping_large hb hlog' (by omega)] at hk
      rcases hk with hlt | ⟨heq, hle⟩
      · -- the block belongs to a larger power of two
        have hpow : 2 ^ (e + 1) ≤ 2 ^ e' := Nat.pow_le_pow_right (by decide) hlt
        rw [Nat.pow_succ] at hpow
        omega
      · simp only at heq hle
        subst heq
        have hdiv := (second_bounds hlow' hhigh').1
        have hquot : r / 2 ^ e ≤ b / 2 ^ e := by
          have hdiv' := (second_bounds hlow hhigh).1
          omega
        calc r = r / 2 ^ e * 2 ^ e := (Nat.div_mul_cancel hdvd).symm
          _ ≤ b / 2 ^ e * 2 ^ e := Nat.mul_le_mul_right _ hquot
          _ ≤ b := Nat.div_mul_le_self _ _

theorem roundUpSize_small (hn : n < 64) : roundUpSize n = n := by
  unfold roundUpSize
  rw [small_bound, if_pos hn]

/-- `round_up_size` rounds up to a multiple of an eighth of a power of two. -/
theorem roundUpSize_large {e : Nat} (hn : n < 2 ^ 32) (hlog : Nat.log2 n = e + 3) (h64 : 64 ≤ n) :
    roundUpSize n = 2 ^ e * ((n + (2 ^ e - 1)) % 2 ^ 32 / 2 ^ e) := by
  have he : e < 32 := by
    have hlt := (Nat.log2_lt (by omega)).mpr hn
    omega
  have hpos := Nat.two_pow_pos e
  unfold roundUpSize
  rw [small_bound, if_neg (by omega)]
  dsimp only
  rw [log2_clz hn, hlog, show e + 3 - slIndexCountLog2 = e from rfl, shl32_one he, add32]
  have hsum : (n + (2 ^ e - 1)) % 2 ^ 32 < 2 ^ 32 := Nat.mod_lt _ (by decide)
  generalize (n + (2 ^ e - 1)) % 2 ^ 32 = x at hsum ⊢
  have hsplit : x = 2 ^ e * (x / 2 ^ e) + x % 2 ^ e := (Nat.div_add_mod x _).symm
  have hmask :=
    and_not32_mask (q := x / 2 ^ e) (Nat.mod_lt x hpos) he.le (by rw [← hsplit]; exact hsum)
  rw [← hsplit] at hmask
  exact hmask

theorem roundUpSize_lt (hn : n < 2 ^ 32) : roundUpSize n < 2 ^ 32 := by
  by_cases h64 : n < 64
  · rw [roundUpSize_small h64]
    exact hn
  · obtain ⟨e, hlog, -, -, -⟩ := log2_bounds (n := n) (by omega)
    rw [roundUpSize_large hn hlog (by omega)]
    exact lt_of_le_of_lt (Nat.mul_div_le _ _) (Nat.mod_lt _ (by decide))

/-- The sizes whose rounded size has a class. -/
def maxRequest : Nat := 2 ^ 23 - 2 ^ 19

/-- **Rounding** a size the tables cover gives a boundary that is not smaller. -/
theorem roundUpSize_spec (h8 : 8 ∣ n) (hn : n ≤ maxRequest) :
    n ≤ roundUpSize n ∧ roundUpSize n < 2 ^ 23 ∧ Boundary (roundUpSize n) := by
  unfold maxRequest at hn
  by_cases h64 : n < 64
  · rw [roundUpSize_small h64]
    exact ⟨le_rfl, by omega, Or.inl ⟨h64, h8⟩⟩
  · obtain ⟨e, hlog, he, hlow, hhigh⟩ := log2_bounds (n := n) (by omega)
    have hpos := Nat.two_pow_pos e
    have he19 : e < 20 := by
      have hlt := (Nat.log2_lt (n := n) (k := 23) (by omega)).mpr (by omega)
      omega
    have hpow : 2 ^ e ≤ 2 ^ 19 := Nat.pow_le_pow_right (by decide) (by omega)
    rw [roundUpSize_large (by omega) hlog (by omega), Nat.mod_eq_of_lt (by omega)]
    obtain ⟨q, hq⟩ : ∃ q, (n + (2 ^ e - 1)) / 2 ^ e = q := ⟨_, rfl⟩
    rw [hq]
    have hle : 2 ^ e * q ≤ n + (2 ^ e - 1) := by
      rw [← hq]
      exact Nat.mul_div_le _ _
    have hge : n ≤ 2 ^ e * q := by
      have hmod := Nat.div_add_mod (n + (2 ^ e - 1)) (2 ^ e)
      have hlt := Nat.mod_lt (n + (2 ^ e - 1)) hpos
      rw [hq] at hmod
      omega
    have hlow' : 2 ^ e * 8 ≤ 2 ^ e * q := hlow.trans hge
    refine ⟨hge, by omega, Or.inr ⟨by omega, ?_⟩⟩
    -- rounding may carry into the next power of two
    have hq8 : 8 ≤ q := Nat.le_of_mul_le_mul_left hlow' hpos
    have hq16 : q ≤ 16 := by
      by_contra hgt
      have hmul : 2 ^ e * 17 ≤ 2 ^ e * q := Nat.mul_le_mul_left _ (by omega)
      omega
    rcases Nat.lt_or_eq_of_le hq16 with hlt | rfl
    · have hlog' : Nat.log2 (2 ^ e * q) = e + 3 := by
        refine (Nat.log2_eq_iff (by omega)).mpr ⟨?_, ?_⟩
        · simpa [Nat.pow_add] using hlow'
        · rw [Nat.add_assoc, Nat.pow_add]
          exact Nat.mul_lt_mul_of_pos_left hlt hpos
      rw [hlog', Nat.add_sub_cancel]
      exact Dvd.intro _ rfl
    · have hsame : 2 ^ e * 16 = 2 ^ (e + 4) := by rw [Nat.pow_add]
      rw [hsame, Nat.log2_two_pow]
      exact Nat.pow_dvd_pow 2 (by omega)

/-- Above that the rounded size has no class, until the sum wraps. -/
theorem roundUpSize_big (hn : maxRequest < n) (hn' : n ≤ 2 ^ 32 - 2 ^ 28) :
    2 ^ 23 ≤ roundUpSize n := by
  unfold maxRequest at hn
  obtain ⟨e, hlog, he, hlow, hhigh⟩ := log2_bounds (n := n) (by omega)
  have hpos := Nat.two_pow_pos e
  have he19 : 19 ≤ e := by
    have hle := (Nat.le_log2 (n := n) (k := 22) (by omega)).mpr (by omega)
    omega
  have he29 : e < 29 := by
    have hlt := (Nat.log2_lt (n := n) (k := 32) (by omega)).mpr (by omega)
    omega
  have hpow : 2 ^ e ≤ 2 ^ 28 := Nat.pow_le_pow_right (by decide) (by omega)
  rw [roundUpSize_large (by omega) hlog (by omega), Nat.mod_eq_of_lt (by omega)]
  -- the rounded size is a multiple of `2 ^ 19` above the last one below `2 ^ 23`
  have hge : n ≤ 2 ^ e * ((n + (2 ^ e - 1)) / 2 ^ e) := by
    have hmod := Nat.div_add_mod (n + (2 ^ e - 1)) (2 ^ e)
    have hlt := Nat.mod_lt (n + (2 ^ e - 1)) hpos
    omega
  have hdvd : 2 ^ 19 ∣ 2 ^ e * ((n + (2 ^ e - 1)) / 2 ^ e) :=
    (Nat.pow_dvd_pow 2 he19).mul_right _
  obtain ⟨d, hd⟩ := hdvd
  rw [hd] at hge ⊢
  omega

/-- Near the end of the word the sum wraps, and the rounded size is zero. -/
theorem roundUpSize_wraps (hn : 2 ^ 32 - 2 ^ 28 < n) (hn' : n < 2 ^ 32) : roundUpSize n = 0 := by
  have hlog : Nat.log2 n = 28 + 3 := (Nat.log2_eq_iff (by omega)).mpr ⟨by omega, by omega⟩
  rw [roundUpSize_large hn' hlog (by omega)]
  have hsum : (n + (2 ^ 28 - 1)) % 2 ^ 32 / 2 ^ 28 = 0 := by omega
  rw [hsum, Nat.mul_zero]

end Tlsf

end VibeRtos
