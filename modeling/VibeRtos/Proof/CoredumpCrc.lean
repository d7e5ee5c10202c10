import VibeRtos.Lib.Records
import VibeRtos.Lib.Crc
import VibeRtos.Sys.Coredump

/-!
# The checksum of a coredump

`crc32_update` runs the shift register over the bits of the record, the lowest bit of a byte
first. A burst before the checksum changes the register, and a change of the stored checksum is
seen at once.
-/

namespace VibeRtos

open ByteMem Stores

namespace Coredump

variable {cfg : CoredumpConfig} {cd cd' : Mem} {x : Nat}

/-! ## The register -/

/-- `0xEDB88320U` -/
def poly : BitVec 32 := 0xEDB88320#32

theorem poly_msb : poly.msb = true := by decide

theorem crc32Bit_toBitVec (crc : UInt32) :
    (crc32Bit crc).toBitVec = Crc.step poly crc.toBitVec := by
  have hbit : (crc &&& 1).toBitVec = (BitVec.ofBool (crc.toBitVec.getLsbD 0)).setWidth 32 := by
    rw [UInt32.toBitVec_and]
    exact BitVec.and_one_eq_setWidth_ofBool_getLsbD
  have hmask : (0xEDB88320 &&& -(crc &&& 1)).toBitVec
      = if crc.toBitVec.getLsbD 0 then poly else 0#32 := by
    rw [UInt32.toBitVec_and, UInt32.toBitVec_neg, hbit]
    cases crc.toBitVec.getLsbD 0 <;> rfl
  rw [crc32Bit, UInt32.toBitVec_xor, hmask, Crc.step]
  rfl

theorem crc32Bits_toBitVec : ∀ (n : Nat) (crc : UInt32),
    (crc32Bit^[n] crc).toBitVec = (Crc.step poly)^[n] crc.toBitVec := by
  intro n
  induction n with
  | zero => intro crc; rfl
  | succ n ih =>
      intro crc
      rw [Function.iterate_succ_apply, Function.iterate_succ_apply, ih, crc32Bit_toBitVec]

/-- The bits of a byte in the order in which the register takes them. -/
def byteBits (b : UInt8) : List Bool := (List.range 8).map b.toNat.testBit

theorem crc32Byte_toBitVec (crc : UInt32) (b : UInt8) :
    (crc32Byte crc b).toBitVec = Crc.feed poly crc.toBitVec (byteBits b) := by
  have hlt : b.toUInt32.toBitVec.toNat < 2 ^ 8 := by
    rw [UInt32.toNat_toBitVec, UInt8.toNat_toUInt32]
    exact b.toNat_lt
  rw [crc32Byte, crc32Bits_toBitVec, UInt32.toBitVec_xor, Crc.iterate_step poly 8 _ _ hlt,
    Crc.bits_eq]
  rfl

theorem foldl_toBitVec : ∀ (data : List UInt8) (crc : UInt32),
    (data.foldl crc32Byte crc).toBitVec = Crc.feed poly crc.toBitVec (data.flatMap byteBits) := by
  intro data
  induction data with
  | nil => intro crc; rfl
  | cons b data ih =>
      intro crc
      rw [List.foldl_cons, ih, crc32Byte_toBitVec, List.flatMap_cons, Crc.feed_append]

/-- A checksum may be computed piece by piece. -/
theorem crc32Update_append (crc : UInt32) (a b : List UInt8) :
    crc32Update (crc32Update crc a) b = crc32Update crc (a ++ b) := by
  rw [crc32Update, crc32Update, crc32Update, UInt32.not_not, List.foldl_append]

/-! ## Changes of a record -/

/-- A bit of the record, counted from the lowest bit of the first byte. -/
def bitOf (cd : Mem) (j : Nat) : Bool := (cd (j / 8)).toNat.testBit (j % 8)

/-- At least one bit before the checksum is changed, and all changed bits lie within 32 of them. -/
structure Burst (cfg : CoredumpConfig) (cd cd' : Mem) : Prop where
  changed : ∃ j < 8 * size cfg, bitOf cd' j ≠ bitOf cd j
  within : ∃ p, ∀ j < 8 * size cfg, bitOf cd' j ≠ bitOf cd j →
    p ≤ j ∧ j < p + 32 ∧ j < 8 * crc32 cfg

/-- At least one bit of the checksum is changed, and no other. -/
structure CrcOnly (cfg : CoredumpConfig) (cd cd' : Mem) : Prop where
  changed : ∃ j < 8 * size cfg, bitOf cd' j ≠ bitOf cd j
  within : ∀ j < 8 * size cfg, bitOf cd' j ≠ bitOf cd j → 8 * crc32 cfg ≤ j

/-- A record with magic, version and checksum as a capture writes them. -/
structure Sealed (cfg : CoredumpConfig) (cd : Mem) : Prop where
  magic : read32 cd magic = MAGIC.toNat
  version : read32 cd version = VERSION.toNat
  crc32 : read32 cd (crc32 cfg) = (coredumpCrc cfg cd).toNat

theorem isValid_iff : isValid cfg cd = true ↔ Sealed cfg cd := by
  unfold isValid
  split_ifs with hm hv
  · exact ⟨nofun, fun h => absurd h.magic hm⟩
  · exact ⟨nofun, fun h => absurd h.version hv⟩
  · rw [beq_iff_eq]
    exact ⟨fun h => ⟨not_not.mp hm, not_not.mp hv, h⟩, fun h => h.crc32⟩

theorem byte_eq (h : ∀ k < 8, bitOf cd' (8 * x + k) = bitOf cd (8 * x + k)) : cd' x = cd x := by
  refine UInt8.toNat_inj.mp (Nat.eq_of_testBit_eq fun k => ?_)
  by_cases hk : k < 8
  · have hbit := h k hk
    rwa [bitOf, bitOf, show (8 * x + k) / 8 = x by omega, show (8 * x + k) % 8 = k by omega] at hbit
  · have hpow : 2 ^ 8 ≤ 2 ^ k := Nat.pow_le_pow_right (by omega) (by omega)
    rw [Nat.testBit_lt_two_pow (Nat.lt_of_lt_of_le (cd' x).toNat_lt hpow),
      Nat.testBit_lt_two_pow (Nat.lt_of_lt_of_le (cd x).toNat_lt hpow)]

theorem bitOf_congr {j : Nat} (h : cd' (j / 8) = cd (j / 8)) : bitOf cd' j = bitOf cd j := by
  rw [bitOf, bitOf, h]

/-- The bits that the checksum is about. -/
theorem flatMap_byteBits (cd : Mem) (n : Nat) :
    (slice cd 0 n).flatMap byteBits = (List.range (8 * n)).map (bitOf cd) := by
  rw [← Records.flatMap_range, slice, List.flatMap_map]
  refine List.flatMap_congr fun i _ => List.map_congr_left fun j hj => ?_
  have hj' := List.mem_range.mp hj
  rw [bitOf, show (8 * i + j) / 8 = i by omega, show (8 * i + j) % 8 = j by omega, Nat.zero_add]

theorem coredumpCrc_toBitVec (cfg : CoredumpConfig) (cd : Mem) : (coredumpCrc cfg cd).toBitVec
    = ~~~ Crc.feed poly (~~~ 0#32) ((List.range (8 * crc32 cfg)).map (bitOf cd)) := by
  rw [coredumpCrc, crc32Update, UInt32.toBitVec_not, foldl_toBitVec, flatMap_byteBits]
  rfl

/-- Cut out a window of 32. -/
theorem window_split {α : Type} (xs : List α) (p : Nat) :
    xs = xs.take p ++ ((xs.drop p).take 32 ++ xs.drop (p + 32)) := by
  rw [← List.drop_drop, List.take_append_drop, List.take_append_drop]

/-- **The checksum sees a burst.** -/
theorem Burst.coredumpCrc_ne (h : Burst cfg cd cd') : coredumpCrc cfg cd' ≠ coredumpCrc cfg cd := by
  intro heq
  obtain ⟨p, hp⟩ := h.within
  have hkeep : ∀ j, j < 8 * crc32 cfg → j < p ∨ p + 32 ≤ j → bitOf cd' j = bitOf cd j := by
    intro j hj hout
    by_contra hne
    obtain ⟨hge, hlt, -⟩ := hp j (by rw [size]; omega) hne
    omega
  have hfeed := congrArg UInt32.toBitVec heq
  rw [coredumpCrc_toBitVec, coredumpCrc_toBitVec, BitVec.not_inj,
    window_split ((List.range _).map (bitOf cd')) p,
    window_split ((List.range _).map (bitOf cd)) p] at hfeed
  have hfront : ((List.range (8 * crc32 cfg)).map (bitOf cd')).take p
      = ((List.range (8 * crc32 cfg)).map (bitOf cd)).take p := by
    refine List.ext_getElem (by simp) fun j hj _ => ?_
    simp only [List.length_take, List.length_map, List.length_range] at hj
    simp only [List.getElem_take, List.getElem_map, List.getElem_range]
    exact hkeep j (by omega) (by omega)
  have hback : ((List.range (8 * crc32 cfg)).map (bitOf cd')).drop (p + 32)
      = ((List.range (8 * crc32 cfg)).map (bitOf cd)).drop (p + 32) := by
    refine List.ext_getElem (by simp) fun j hj _ => ?_
    simp only [List.length_drop, List.length_map, List.length_range] at hj
    simp only [List.getElem_drop, List.getElem_map, List.getElem_range]
    exact hkeep _ (by omega) (by omega)
  rw [hfront, hback] at hfeed
  have hwin := Crc.feed_burst poly_msb (by simp) (List.length_take_le ..) hfeed
  have hall : (List.range (8 * crc32 cfg)).map (bitOf cd')
      = (List.range (8 * crc32 cfg)).map (bitOf cd) := by
    rw [window_split ((List.range _).map (bitOf cd')) p,
      window_split ((List.range _).map (bitOf cd)) p, hfront, hback, hwin]
  obtain ⟨j, hj, hne⟩ := h.changed
  obtain ⟨-, -, hlt⟩ := hp j hj hne
  exact hne (List.map_inj_left.mp hall j (List.mem_range.mpr hlt))

/-! ## What is rejected -/

theorem read32_inj {a : Nat} (h : read32 cd' a = read32 cd a) :
    ∀ i < 4, cd' (a + i) = cd (a + i) := by
  intro i hi
  have hbound : ∀ (m : Mem) (y : Nat), (m y).toNat < 256 := fun m y => (m y).toNat_lt
  have h0 := hbound cd a
  have h1 := hbound cd (a + 1)
  have h2 := hbound cd (a + 2)
  have h3 := hbound cd (a + 3)
  have h0' := hbound cd' a
  have h1' := hbound cd' (a + 1)
  have h2' := hbound cd' (a + 2)
  have h3' := hbound cd' (a + 3)
  rw [read32, read32] at h
  refine UInt8.toNat_inj.mp ?_
  interval_cases i
  · rw [Nat.add_zero]
    omega
  all_goals omega

theorem coredumpCrc_congr (h : ∀ x < crc32 cfg, cd' x = cd x) :
    coredumpCrc cfg cd' = coredumpCrc cfg cd := by
  have hslice : slice cd' 0 (crc32 cfg) = slice cd 0 (crc32 cfg) :=
    slice_congr fun i hi => h _ (by omega)
  rw [coredumpCrc, coredumpCrc, hslice]

theorem Burst.isValid_eq_false (h : Burst cfg cd cd') (hs : Sealed cfg cd) :
    isValid cfg cd' = false := by
  rw [← Bool.not_eq_true, isValid_iff]
  intro hs'
  have hcrc : read32 cd' (crc32 cfg) = read32 cd (crc32 cfg) := by
    refine read32_congr fun i hi => byte_eq fun k hk => ?_
    by_contra hne
    obtain ⟨p, hp⟩ := h.within
    obtain ⟨-, -, hlt⟩ := hp _ (by rw [size]; omega) hne
    omega
  rw [hs'.crc32, hs.crc32] at hcrc
  exact h.coredumpCrc_ne (UInt32.toNat_inj.mp hcrc)

theorem CrcOnly.isValid_eq_false (h : CrcOnly cfg cd cd') (hs : Sealed cfg cd) :
    isValid cfg cd' = false := by
  rw [← Bool.not_eq_true, isValid_iff]
  intro hs'
  have harea : ∀ x < crc32 cfg, cd' x = cd x := by
    intro x hx
    refine byte_eq fun k hk => ?_
    by_contra hne
    have hge := h.within _ (by rw [size]; omega) hne
    omega
  have hcrc := coredumpCrc_congr harea
  have hread : read32 cd' (crc32 cfg) = read32 cd (crc32 cfg) := by
    rw [hs'.crc32, hs.crc32, hcrc]
  obtain ⟨j, hj, hne⟩ := h.changed
  have hge := h.within j hj hne
  rw [size] at hj
  have hbyte := read32_inj hread (j / 8 - crc32 cfg) (by omega)
  rw [show crc32 cfg + (j / 8 - crc32 cfg) = j / 8 by omega] at hbyte
  exact hne (bitOf_congr hbyte)

end Coredump

end VibeRtos
