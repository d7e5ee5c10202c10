import Mathlib.Data.Nat.Bitwise
import Mathlib.Data.List.Basic

/-!
# Cyclic checksums

A reflected cyclic checksum is a shift register of `w` bits that is fed one bit after the other.
A step of the register is linear in exclusive or, and it can be undone, because the polynomial
has its highest bit set. So two messages that differ within `w` consecutive bits leave different
registers: the difference enters bit by bit, and no step shifts it out again.
-/

namespace Crc

variable {w : Nat} {poly c c' : BitVec w}

/-- One step of the register: a shift, and the polynomial if a bit falls out. -/
def step (poly c : BitVec w) : BitVec w := (c >>> 1) ^^^ (if c.getLsbD 0 then poly else 0#w)

/-- A bit in the lowest place. -/
def bit (w : Nat) (b : Bool) : BitVec w := if b then 1#w else 0#w

/-- Feed bits to the register, the first one first. -/
def feed (poly : BitVec w) : BitVec w → List Bool → BitVec w
  | c, [] => c
  | c, b :: bs => feed poly (step poly (c ^^^ bit w b)) bs

theorem feed_append : ∀ (bs bs' : List Bool) (c : BitVec w),
    feed poly c (bs ++ bs') = feed poly (feed poly c bs) bs' := by
  intro bs bs'
  induction bs with
  | nil => intro c; rfl
  | cons b bs ih => intro c; exact ih _

theorem xor_pairs (a b c d : BitVec w) : a ^^^ b ^^^ (c ^^^ d) = a ^^^ c ^^^ (b ^^^ d) := by
  ac_rfl

theorem xor_xor_cancel (a b d : BitVec w) : a ^^^ d ^^^ (b ^^^ d) = a ^^^ b := by
  rw [xor_pairs, BitVec.xor_self, BitVec.xor_zero]

theorem step_xor (poly a b : BitVec w) : step poly (a ^^^ b) = step poly a ^^^ step poly b := by
  unfold step
  rw [BitVec.getLsbD_xor, BitVec.ushiftRight_xor_distrib]
  cases a.getLsbD 0 <;> cases b.getLsbD 0
  · simp
  · simp [BitVec.xor_assoc]
  · simp [BitVec.xor_assoc, BitVec.xor_comm poly]
  · simp [xor_xor_cancel]

theorem getLsbD_bit (hw : 0 < w) (b : Bool) : (bit w b).getLsbD 0 = b := by
  cases b <;> simp [bit, hw]

theorem toNat_bit_lt (b : Bool) : (bit w b).toNat < 2 := by
  cases b
  · simp [bit]
  · have hmod := Nat.mod_le 1 (2 ^ w)
    simp only [bit, if_true, BitVec.toNat_ofNat]
    omega

/-- A step that leaves the highest bit clear has not let a bit fall out. -/
theorem lsb_of_step_lt (hmsb : poly.msb = true) (h : (step poly c).toNat < 2 ^ (w - 1)) :
    c.getLsbD 0 = false := by
  have hclear : (step poly c).msb = false := by
    rw [BitVec.msb_eq_false_iff_two_mul_lt]
    cases w with
    | zero =>
        rw [BitVec.eq_nil poly] at hmsb
        exact absurd hmsb (by decide)
    | succ w =>
        rw [Nat.add_sub_cancel] at h
        omega
  by_contra hset
  rw [Bool.not_eq_false] at hset
  rw [step, hset, if_pos rfl, BitVec.msb_xor, hmsb] at hclear
  have hshift : (c >>> 1).msb = false := by
    rw [BitVec.msb_ushiftRight]
    rfl
  rw [hshift] at hclear
  exact absurd hclear (by decide)

/-- Backwards, a step lengthens a small register by one bit. -/
theorem lt_of_step_lt (hmsb : poly.msb = true) {k : Nat} (hk : k + 1 ≤ w)
    (h : (step poly c).toNat < 2 ^ k) : c.toNat < 2 ^ (k + 1) := by
  have hle : 2 ^ k ≤ 2 ^ (w - 1) := Nat.pow_le_pow_right (by omega) (by omega)
  have hlsb := lsb_of_step_lt hmsb (Nat.lt_of_lt_of_le h hle)
  rw [step, hlsb] at h
  simp only [Bool.false_eq_true, if_false, BitVec.xor_zero, BitVec.toNat_ushiftRight,
    Nat.shiftRight_eq_div_pow] at h
  omega

theorem step_eq_zero (hmsb : poly.msb = true) (h : step poly c = 0#w) : c = 0#w := by
  have hlsb : c.getLsbD 0 = false := by
    refine lsb_of_step_lt hmsb ?_
    rw [h, BitVec.toNat_zero]
    exact Nat.two_pow_pos _
  have hshift : c >>> 1 = 0#w := by simpa [step, hlsb] using h
  have hdiv : c.toNat / 2 = 0 := by
    have := congrArg BitVec.toNat hshift
    simpa [Nat.shiftRight_eq_div_pow] using this
  rw [BitVec.getLsbD, Nat.testBit_zero] at hlsb
  refine BitVec.eq_of_toNat_eq ?_
  simp only [BitVec.toNat_ofNat, Nat.zero_mod]
  have hmod : ¬ c.toNat % 2 = 1 := by simpa using hlsb
  omega

theorem xor_eq_zero_iff : c ^^^ c' = 0#w ↔ c = c' := by
  constructor
  · intro h
    have hx : c ^^^ c' ^^^ c' = 0#w ^^^ c' := by rw [h]
    rw [BitVec.xor_assoc, BitVec.xor_self, BitVec.xor_zero, BitVec.zero_xor] at hx
    exact hx
  · intro h
    rw [h, BitVec.xor_self]

/-- A step can be undone. -/
theorem step_injective (hmsb : poly.msb = true) (h : step poly c = step poly c') : c = c' := by
  rw [← xor_eq_zero_iff, ← step_xor] at h
  exact xor_eq_zero_iff.mp (step_eq_zero hmsb h)

theorem xor_right_cancel (c c' d : BitVec w) : c ^^^ d = c' ^^^ d ↔ c = c' := by
  rw [← xor_eq_zero_iff, ← xor_eq_zero_iff (c := c)]
  rw [xor_xor_cancel]

/-- Different registers stay different. -/
theorem feed_injective (hmsb : poly.msb = true) : ∀ (bs : List Bool) {c c' : BitVec w},
    feed poly c bs = feed poly c' bs → c = c' := by
  intro bs
  induction bs with
  | nil => intro c c' h; exact h
  | cons b bs ih =>
      intro c c' h
      exact (xor_right_cancel c c' _).mp (step_injective hmsb (ih h))

/-! ## Bursts -/

/-- What is fed and where it ends bound where it began. -/
theorem xor_lt_of_feed (hmsb : poly.msb = true) : ∀ (bs bs' : List Bool) {c c' : BitVec w},
    bs.length = bs'.length → bs.length ≤ w → feed poly c bs = feed poly c' bs' →
    (c ^^^ c').toNat < 2 ^ bs.length := by
  intro bs
  induction bs with
  | nil =>
      intro bs' c c' hlen _ h
      obtain rfl := List.length_eq_zero_iff.mp hlen.symm
      have hc : c = c' := h
      rw [hc, BitVec.xor_self]
      simp
  | cons b bs ih =>
      intro bs' c c' hlen hw h
      cases bs' with
      | nil => simp at hlen
      | cons b' bs' =>
          rw [List.length_cons] at hw
          have hstep := ih bs' (by simpa using hlen) (by omega) h
          rw [← step_xor] at hstep
          have hlt := lt_of_step_lt hmsb hw hstep
          have hbits : (bit w b ^^^ bit w b').toNat < 2 ^ (bs.length + 1) := by
            have hb := toNat_bit_lt (w := w) b
            have hb' := toNat_bit_lt (w := w) b'
            have hpow : 2 ^ 1 ≤ 2 ^ (bs.length + 1) := Nat.pow_le_pow_right (by omega) (by omega)
            rw [BitVec.toNat_xor]
            exact Nat.xor_lt_two_pow (by omega) (by omega)
          have hsplit : c ^^^ c'
              = c ^^^ bit w b ^^^ (c' ^^^ bit w b') ^^^ (bit w b ^^^ bit w b') := by
            rw [xor_pairs c (bit w b), BitVec.xor_assoc (c ^^^ c'), BitVec.xor_self,
              BitVec.xor_zero]
          rw [hsplit, BitVec.toNat_xor, List.length_cons]
          exact Nat.xor_lt_two_pow hlt hbits

/-- Within `w` bits no difference is lost. -/
theorem feed_window (hmsb : poly.msb = true) : ∀ (bs bs' : List Bool) {c : BitVec w},
    bs.length = bs'.length → bs.length ≤ w → feed poly c bs = feed poly c bs' → bs = bs' := by
  intro bs
  induction bs with
  | nil =>
      intro bs' c hlen _ _
      exact (List.length_eq_zero_iff.mp hlen.symm).symm
  | cons b bs ih =>
      intro bs' c hlen hw h
      cases bs' with
      | nil => simp at hlen
      | cons b' bs' =>
          rw [List.length_cons] at hw
          have hlen' : bs.length = bs'.length := by simpa using hlen
          have hlt := xor_lt_of_feed hmsb bs bs' hlen' (by omega) h
          rw [← step_xor] at hlt
          have hle : 2 ^ bs.length ≤ 2 ^ (w - 1) := Nat.pow_le_pow_right (by omega) (by omega)
          have hlsb := lsb_of_step_lt hmsb (Nat.lt_of_lt_of_le hlt hle)
          have hb : b = b' := by
            rw [BitVec.getLsbD_xor, BitVec.getLsbD_xor, BitVec.getLsbD_xor,
              getLsbD_bit (by omega), getLsbD_bit (by omega)] at hlsb
            cases b <;> cases b' <;> cases hc : c.getLsbD 0 <;> simp_all
          subst hb
          rw [ih bs' hlen' (by omega) h]

/-- **A burst is detected.** Messages that differ within `w` consecutive bits differ in their
checksums. -/
theorem feed_burst (hmsb : poly.msb = true) {front win win' back : List Bool}
    (hlen : win.length = win'.length) (hw : win.length ≤ w)
    (h : feed poly c (front ++ (win ++ back)) = feed poly c (front ++ (win' ++ back))) :
    win = win' := by
  rw [feed_append, feed_append, feed_append, feed_append] at h
  exact feed_window hmsb win win' hlen hw (feed_injective hmsb back h)

/-! ## Words -/

/-- The `n` lowest bits, the lowest first. -/
def bits : Nat → BitVec w → List Bool
  | 0, _ => []
  | n + 1, x => x.getLsbD 0 :: bits n (x >>> 1)

theorem bits_eq : ∀ (n : Nat) (x : BitVec w), bits n x = (List.range n).map x.getLsbD := by
  intro n
  induction n with
  | zero => intro x; rfl
  | succ n ih =>
      intro x
      rw [bits, ih, List.range_succ_eq_map, List.map_cons, List.map_map]
      congr 1
      refine List.map_congr_left fun i _ => ?_
      rw [BitVec.getLsbD_ushiftRight, Nat.add_comm, Function.comp_apply]

/-- Without its lowest bit a word is only shifted. -/
theorem step_even (poly x : BitVec w) : step poly (x ^^^ bit w (x.getLsbD 0)) = x >>> 1 := by
  have hshift : bit w (x.getLsbD 0) >>> 1 = 0#w := by
    refine BitVec.eq_of_toNat_eq ?_
    have hlt := toNat_bit_lt (w := w) (x.getLsbD 0)
    simp only [BitVec.toNat_ushiftRight, Nat.shiftRight_eq_div_pow, BitVec.toNat_ofNat,
      Nat.zero_mod]
    omega
  have hlsb : (x ^^^ bit w (x.getLsbD 0)).getLsbD 0 = false := by
    rcases Nat.eq_zero_or_pos w with rfl | hw
    · rw [BitVec.getLsbD_of_ge _ _ (Nat.le_refl _)]
    · rw [BitVec.getLsbD_xor, getLsbD_bit hw, Bool.xor_self]
  rw [step, hlsb, BitVec.ushiftRight_xor_distrib, hshift]
  simp

/-- A word that is added to the register at once is fed bit by bit. -/
theorem iterate_step (poly : BitVec w) : ∀ (n : Nat) (c x : BitVec w), x.toNat < 2 ^ n →
    (step poly)^[n] (c ^^^ x) = feed poly c (bits n x) := by
  intro n
  induction n with
  | zero =>
      intro c x hx
      have hzero : x = 0#w := BitVec.eq_of_toNat_eq (by simp; omega)
      rw [hzero, BitVec.xor_zero]
      rfl
  | succ n ih =>
      intro c x hx
      have hstep : step poly (c ^^^ x) = step poly (c ^^^ bit w (x.getLsbD 0)) ^^^ (x >>> 1) := by
        have hsplit : c ^^^ x = c ^^^ bit w (x.getLsbD 0) ^^^ (x ^^^ bit w (x.getLsbD 0)) :=
          (xor_xor_cancel c x _).symm
        rw [hsplit, step_xor, step_even]
      rw [Function.iterate_succ_apply, hstep]
      refine ih _ _ ?_
      rw [BitVec.toNat_ushiftRight, Nat.shiftRight_eq_div_pow]
      omega

end Crc
