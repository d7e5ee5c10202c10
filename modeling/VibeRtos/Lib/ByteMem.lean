import Mathlib

/-!
# A byte memory with 32-bit little-endian words

A memory is a function from addresses to bytes. Words are naturals below `2 ^ 32`,
stored least significant byte first. The rules are the usual ones: reading back a
word gives it, a write leaves disjoint words and bytes alone, and a read depends on
its four bytes only.
-/

namespace ByteMem

/-- The contents of the address space. -/
abbrev Mem := Nat → UInt8

/-- The word at `a`. -/
def read32 (m : Mem) (a : Nat) : Nat :=
  (m a).toNat + 256 * (m (a + 1)).toNat + 65536 * (m (a + 2)).toNat
    + 16777216 * (m (a + 3)).toNat

/-- Store the word `v` at `a`. -/
def write32 (m : Mem) (a v : Nat) : Mem := fun x =>
  if x = a then UInt8.ofNat v
  else if x = a + 1 then UInt8.ofNat (v / 256)
  else if x = a + 2 then UInt8.ofNat (v / 65536)
  else if x = a + 3 then UInt8.ofNat (v / 16777216)
  else m x

/-- `memset`. -/
def fill (m : Mem) (a n : Nat) (b : UInt8) : Mem := fun x =>
  if a ≤ x ∧ x < a + n then b else m x

/-- `memcpy`, for areas that do not overlap. -/
def copy (m : Mem) (dst src n : Nat) : Mem := fun x =>
  if dst ≤ x ∧ x < dst + n then m (src + (x - dst)) else m x

/-- Store the bytes `data 0, .., data (n - 1)` from `a` on. -/
def blit (m : Mem) (a : Nat) (data : Nat → UInt8) (n : Nat) : Mem := fun x =>
  if a ≤ x ∧ x < a + n then data (x - a) else m x

/-- The `n` bytes from `a` on. -/
def slice (m : Mem) (a n : Nat) : List UInt8 := (List.range n).map fun i => m (a + i)

variable {m m' : Mem} {a b n v x : Nat}

theorem read32_lt (m : Mem) (a : Nat) : read32 m a < 2 ^ 32 := by
  have h0 := (m a).toNat_lt
  have h1 := (m (a + 1)).toNat_lt
  have h2 := (m (a + 2)).toNat_lt
  have h3 := (m (a + 3)).toNat_lt
  unfold read32
  omega

theorem read32_congr (h : ∀ i, i < 4 → m' (a + i) = m (a + i)) : read32 m' a = read32 m a := by
  have h0 := h 0 (by omega)
  have h1 := h 1 (by omega)
  have h2 := h 2 (by omega)
  have h3 := h 3 (by omega)
  simp only [Nat.add_zero] at h0
  simp only [read32, h0, h1, h2, h3]

@[simp] theorem read32_write32_same (m : Mem) (a v : Nat) :
    read32 (write32 m a v) a = v % 2 ^ 32 := by
  have h1 : ¬ a + 1 = a := by omega
  have h2 : ¬ a + 2 = a := by omega
  have h3 : ¬ a + 3 = a := by omega
  simp only [read32, write32, if_true, h1, h2, h3, if_false, Nat.add_left_cancel_iff,
    show ¬ (2 : Nat) = 1 by decide, show ¬ (3 : Nat) = 1 by decide, show ¬ (3 : Nat) = 2 by decide,
    UInt8.toNat_ofNat']
  omega

theorem read32_write32_eq (h : v < 2 ^ 32) : read32 (write32 m a v) a = v := by
  rw [read32_write32_same, Nat.mod_eq_of_lt h]

theorem write32_frame (h : x < a ∨ a + 4 ≤ x) : write32 m a v x = m x := by
  unfold write32
  rw [if_neg (by omega), if_neg (by omega), if_neg (by omega), if_neg (by omega)]

theorem read32_write32_ne (h : b + 4 ≤ a ∨ a + 4 ≤ b) :
    read32 (write32 m a v) b = read32 m b :=
  read32_congr fun i hi => write32_frame (by omega)

theorem fill_frame {c : UInt8} (h : x < a ∨ a + n ≤ x) : fill m a n c x = m x := by
  unfold fill; rw [if_neg (by omega)]

theorem copy_frame {s : Nat} (h : x < a ∨ a + n ≤ x) : copy m a s n x = m x := by
  unfold copy; rw [if_neg (by omega)]

theorem blit_frame {d : Nat → UInt8} (h : x < a ∨ a + n ≤ x) : blit m a d n x = m x := by
  unfold blit; rw [if_neg (by omega)]

theorem slice_congr (h : ∀ i, i < n → m' (a + i) = m (a + i)) : slice m' a n = slice m a n :=
  List.map_congr_left fun i hi => h i (List.mem_range.mp hi)

/-- A stored block reads back. -/
theorem slice_blit (m : Mem) (a : Nat) (d : Nat → UInt8) (n : Nat) :
    slice (blit m a d n) a n = (List.range n).map d := by
  refine List.map_congr_left fun i hi => ?_
  have hi' := List.mem_range.mp hi
  unfold blit
  rw [if_pos (by omega), Nat.add_sub_cancel_left]

/-- A stored block leaves disjoint blocks alone. -/
theorem slice_blit_ne {d : Nat → UInt8} {k : Nat} (h : b + k ≤ a ∨ a + n ≤ b) :
    slice (blit m a d n) b k = slice m b k :=
  slice_congr fun i hi => blit_frame (by omega)

end ByteMem
