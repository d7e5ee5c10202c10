import Mathlib.Data.Nat.Digits.Lemmas
import VibeRtos.Kernel.Putuint

/-!
# Numbers round-trip

The loop of `_fmt_putuint` produces the digits of the value from the last to the first, which is
the order `Nat.digits` has them in. Ten of them are enough for 32 bits in either base, so that
the loop ends because the value is used up, and never because the buffer is.
-/

namespace VibeRtos

/-- The numeral of `n`, from its digits. -/
def numeral (base n : Nat) : List Char :=
  if n = 0 then ['0'] else ((Nat.digits base n).map Nat.digitChar).reverse

/-! ## Reading a numeral -/

section Numeral

variable {base n : Nat} {text : List Char}

theorem digitValue_digitChar : ∀ base ≤ 16, ∀ d < base,
    digitValue base (Nat.digitChar d) = some d := by
  decide

theorem digitChar_ne_zero : ∀ d < 16, d ≠ 0 → Nat.digitChar d ≠ '0' := by
  decide

/-- Reading the digits in their order in the text is Horner's scheme from the last one. -/
theorem foldlM_digits (hb : base ≤ 16) (ds : List Nat) (hds : ∀ d ∈ ds, d < base) :
    ((ds.map Nat.digitChar).reverse).foldlM
      (fun n c => (digitValue base c).map fun d => n * base + d) 0
        = some (Nat.ofDigits base ds) := by
  induction ds with
  | nil => rfl
  | cons d ds ih =>
      have hd := digitValue_digitChar base hb d (hds d (List.mem_cons_self ..))
      rw [List.map_cons, List.reverse_cons, List.foldlM_append,
        ih fun e he => hds e (List.mem_cons_of_mem _ he)]
      simp only [Option.bind_eq_bind, Option.bind_some, List.foldlM_cons, List.foldlM_nil, hd,
        Option.map_some]
      rw [Nat.ofDigits_cons, Nat.add_comm, Nat.mul_comm]
      rfl

theorem parseNat_numeral (h1 : 1 < base) (hb : base ≤ 16) (n : Nat) :
    parseNat base (numeral base n) = some n := by
  unfold numeral
  split
  · rename_i hn
    have hzero := digitValue_digitChar base hb 0 (by omega)
    rw [hn, parseNat, if_neg (by simp)]
    simp only [List.foldlM_cons, List.foldlM_nil, show '0' = Nat.digitChar 0 from rfl, hzero]
    simp
  · rename_i hn
    have hne : ((Nat.digits base n).map Nat.digitChar).reverse ≠ [] := by
      simpa using Nat.digits_ne_nil_iff_ne_zero.mpr hn
    rw [parseNat, if_neg hne, foldlM_digits hb _ fun d hd => Nat.digits_lt_base h1 hd,
      Nat.ofDigits_digits]

theorem numeral_canonical (h1 : 1 < base) (hb : base ≤ 16) (n : Nat) :
    CanonicalNumeral base (numeral base n) := by
  unfold numeral
  split
  · exact ⟨by simp, fun c hc => ⟨0, by omega, List.mem_singleton.mp hc⟩, fun _ => rfl⟩
  · rename_i hn
    have hne := Nat.digits_ne_nil_iff_ne_zero (b := base).mpr hn
    refine ⟨by simpa using hne, fun c hc => ?_, fun hhead => ?_⟩
    · obtain ⟨d, hd, rfl⟩ := List.mem_map.mp (List.mem_reverse.mp hc)
      exact ⟨d, Nat.digits_lt_base h1 hd, rfl⟩
    · -- the first character is the last digit, which is not zero
      have hlast := Nat.getLast_digit_ne_zero base hn
      have hlt := Nat.digits_lt_base h1 (List.getLast_mem hne)
      rw [List.head?_reverse, List.getLast?_map, List.getLast?_eq_some_getLast hne,
        Option.map_some, Option.some_inj] at hhead
      exact absurd hhead (digitChar_ne_zero _ (by omega) hlast)

end Numeral

/-! ## The digits of `_fmt_putuint` -/

theorem fmtDigit_ofNat : ∀ d < 16, fmtDigit (UInt32.ofNat d) = Nat.digitChar d := by
  decide

theorem fmtDigit_ne_nul : ∀ d < 16, fmtDigit (UInt32.ofNat d) ≠ '\x00' := by
  decide

/-- The bases that `_fmt_core` asks for. -/
def IsBase (base : UInt32) : Prop := base = 10 ∨ base = 16

section Digits

variable {base v : UInt32}

theorem IsBase.bounds (h : IsBase base) : 1 < base.toNat ∧ base.toNat ≤ 16 := by
  rcases h with rfl | rfl <;> decide

theorem fmtDigit_eq (h : IsBase base) (v : UInt32) :
    fmtDigit (v % base) = Nat.digitChar (v.toNat % base.toNat) := by
  have hlt := Nat.mod_lt v.toNat (show 0 < base.toNat by have := h.bounds; omega)
  have hd : v % base = UInt32.ofNat (v.toNat % base.toNat) := by
    rw [← UInt32.toNat_mod, UInt32.ofNat_toNat]
  rw [hd, fmtDigit_ofNat _ (by have := h.bounds; omega)]

theorem fmtDigits_eq (h : IsBase base) : ∀ (i : Nat) (v : UInt32) (text : List Char),
    (Nat.digits base.toNat v.toNat).length ≤ i →
    fmtDigits base i v text
      = ((Nat.digits base.toNat v.toNat).map Nat.digitChar).reverse ++ text := by
  have h1 := h.bounds.1
  intro i
  induction i with
  | zero =>
      intro v text hlen
      rw [List.eq_nil_of_length_eq_zero (Nat.le_zero.mp hlen)]
      rfl
  | succ i ih =>
      intro v text hlen
      by_cases hv : v = 0
      · subst hv
        simp [fmtDigits]
      · have hv' : v.toNat ≠ 0 := fun hz => hv (UInt32.toNat_inj.mp hz)
        have hdigits := Nat.digits_eq_cons_digits_div h1 hv'
        rw [hdigits, List.length_cons] at hlen
        rw [fmtDigits, if_neg hv, ih _ _ (by rw [UInt32.toNat_div]; omega), fmtDigit_eq h,
          UInt32.toNat_div, hdigits, List.map_cons, List.reverse_cons, List.append_assoc]
        rfl

theorem digits_length_le (h : IsBase base) (v : UInt32) :
    (Nat.digits base.toNat v.toNat).length ≤ 10 := by
  have hv := v.toNat_lt
  rw [Nat.digits_length_le_iff h.bounds.1]
  rcases h with rfl | rfl
  · exact lt_of_lt_of_le hv (by decide)
  · exact lt_of_lt_of_le hv (by decide)

/-- `_fmt_putuint` prints the numeral of the value. -/
theorem fmtPutuint_eq (h : IsBase base) (v : UInt32) :
    fmtPutuint v base = numeral base.toNat v.toNat := by
  unfold fmtPutuint numeral
  by_cases hv : v = 0
  · rw [if_pos hv, if_pos (by rw [hv]; rfl)]
  · have hv' : v.toNat ≠ 0 := fun hz => hv (UInt32.toNat_inj.mp hz)
    rw [if_neg hv, if_neg hv', fmtDigits_eq h 10 v [] (digits_length_le h v), List.append_nil]

end Digits

/-! ## The buffer -/

namespace DigitBuf

variable {buf : DigitBuf} {base v : UInt32} {i j : Nat} {c : Char} {text : List Char}

theorem load_of_lt (buf : DigitBuf) (hi : i < 11) : buf.load i = some (buf ⟨i, hi⟩) := by
  rw [load, dif_pos ⟨Int.natCast_nonneg i, by omega⟩]
  rfl

/-- A store in the buffer, and what it leaves. -/
theorem store_spec (buf : DigitBuf) (hi : i < 11) (c : Char) : ∃ buf', buf.store i c = some buf'
    ∧ buf'.load i = some c ∧ ∀ j < 11, j ≠ i → buf'.load j = buf.load j := by
  refine ⟨Function.update buf ⟨i, hi⟩ c, ?_, ?_, fun j hj hne => ?_⟩
  · rw [store, dif_pos ⟨Int.natCast_nonneg i, by omega⟩]
    rfl
  · rw [load_of_lt _ hi, Function.update_self]
  · rw [load_of_lt _ hj, load_of_lt _ hj,
      Function.update_of_ne (by simpa [Fin.ext_iff] using hne)]

/-- The buffer holds `text` from `i` to its end, and the NUL behind it. -/
structure Holds (buf : DigitBuf) (i : Nat) (text : List Char) : Prop where
  length : i + text.length = 10
  chars : ∀ (k : Nat) (hk : k < text.length), buf.load (i + k : Nat) = some text[k]
  ne_nul : ∀ c ∈ text, c ≠ '\x00'
  nul : buf.load (10 : Nat) = some '\x00'

/-- One more character in front. -/
theorem Holds.cons (h : buf.Holds (i + 1) text) (hc : c ≠ '\x00') :
    ∃ buf', buf.store i c = some buf' ∧ buf'.Holds i (c :: text) := by
  have hlen := h.length
  obtain ⟨buf', hstore, hself, hkeep⟩ := store_spec buf (show i < 11 by omega) c
  refine ⟨buf', hstore, ⟨by rw [List.length_cons]; omega, fun k hk => ?_, fun d hd => ?_, ?_⟩⟩
  · cases k with
    | zero => exact hself
    | succ k =>
        rw [List.length_cons] at hk
        rw [hkeep (i + (k + 1)) (by omega) (by omega), show i + (k + 1) = i + 1 + k by omega]
        exact h.chars k (by omega)
  · rcases List.mem_cons.mp hd with rfl | hd
    · exact hc
    · exact h.ne_nul d hd
  · rw [hkeep 10 (by omega) (by omega)]
    exact h.nul

/-- **The loop stays in the buffer and ends.** It leaves in the buffer what `fmtDigits` collects. -/
theorem Holds.fill (hb : IsBase base) : ∀ (fuel i : Nat) (buf : DigitBuf) (v : UInt32)
    (text : List Char), i < fuel → buf.Holds i text →
    ∃ buf' j, buf.fill base fuel i v = some (buf', ((j : Nat) : Int))
      ∧ buf'.Holds j (fmtDigits base i v text) := by
  intro fuel
  induction fuel with
  | zero =>
      intro i buf v text hfuel
      omega
  | succ fuel ih =>
      intro i buf v text hfuel h
      cases i with
      | zero =>
          refine ⟨buf, 0, ?_, h⟩
          rw [DigitBuf.fill, if_neg (by simp)]
      | succ i =>
          by_cases hv : v = 0
          · refine ⟨buf, i + 1, by rw [DigitBuf.fill, if_neg (by simp [hv])], ?_⟩
            rw [fmtDigits, if_pos hv]
            exact h
          · have hd : fmtDigit (v % base) ≠ '\x00' := by
              have hlt := Nat.mod_lt v.toNat (show 0 < base.toNat by have := hb.bounds; omega)
              have hmod : v % base = UInt32.ofNat (v.toNat % base.toNat) := by
                rw [← UInt32.toNat_mod, UInt32.ofNat_toNat]
              rw [hmod]
              exact fmtDigit_ne_nul _ (by have := hb.bounds; omega)
            obtain ⟨buf₁, hstore, hholds⟩ := h.cons hd
            obtain ⟨buf', j, hfill, hend⟩ := ih i buf₁ (v / base) _ (by omega) hholds
            refine ⟨buf', j, ?_, by rw [fmtDigits, if_neg hv]; exact hend⟩
            have hpos : v ≠ 0 ∧ ((i + 1 : Nat) : Int) > 0 := ⟨hv, by omega⟩
            have hi : ((i + 1 : Nat) : Int) - 1 = (i : Int) := by omega
            rw [DigitBuf.fill, if_pos hpos]
            simp only [hi, hstore, Option.bind_eq_bind, Option.bind_some]
            exact hfill

/-- The string in the buffer. -/
theorem Holds.puts : ∀ (fuel i : Nat) (text : List Char), text.length < fuel →
    buf.Holds i text → buf.puts fuel i = some text := by
  intro fuel
  induction fuel with
  | zero =>
      intro i text hfuel
      omega
  | succ fuel ih =>
      intro i text hfuel h
      cases text with
      | nil =>
          have hi : i = 10 := by simpa using h.length
          rw [DigitBuf.puts, hi, h.nul]
          rfl
      | cons c text =>
          have hlen := h.length
          rw [List.length_cons] at hlen hfuel
          have hrest : buf.Holds (i + 1) text := by
            refine ⟨by omega, fun k hk => ?_, fun d hd => h.ne_nul d (List.mem_cons_of_mem _ hd),
              h.nul⟩
            have hchar := h.chars (k + 1) (by rw [List.length_cons]; omega)
            rwa [show i + (k + 1) = i + 1 + k by omega] at hchar
          have hc : buf.load (i : Nat) = some c := h.chars 0 (by simp)
          have hnext := ih (i + 1) text (by omega) hrest
          rw [Nat.cast_succ] at hnext
          rw [DigitBuf.puts, hc, Option.bind_some, if_neg (h.ne_nul c (List.mem_cons_self ..)),
            hnext]
          rfl

end DigitBuf

/-- **`_fmt_putuint` returns**, having kept to its buffer, whatever was on the stack. -/
theorem putuint_eq {base : UInt32} (hb : IsBase base) (buf : DigitBuf) (v : UInt32) :
    putuint buf v base = some (fmtPutuint v base) := by
  obtain ⟨buf₀, hstore, hnul, -⟩ := DigitBuf.store_spec buf (show 10 < 11 by omega) '\x00'
  have hstore' : buf.store 10 '\x00' = some buf₀ := hstore
  have hstart : buf₀.Holds 10 [] := ⟨rfl, by simp, by simp, hnul⟩
  simp only [putuint, hstore', Option.bind_eq_bind, Option.bind_some]
  by_cases hv : v = 0
  · rw [if_pos hv, fmtPutuint, if_pos hv]
    rfl
  · obtain ⟨buf', j, hfill, hend⟩ := hstart.fill hb 11 10 buf₀ v [] (by omega)
    have hlen := hend.length
    have hfill' : DigitBuf.fill base 11 buf₀ 10 v = some (buf', (j : Int)) := hfill
    rw [if_neg hv, hfill', Option.bind_some, fmtPutuint, if_neg hv]
    exact hend.puts 12 j _ (by omega)

/-! ## The conversions -/

/-- A conversion with a `va_arg`, wherever it stands. -/
theorem emits_of_fmtArg {c : Char} {w : UInt32} {text : List Char}
    {render : UInt32 → List Char} (hl : c ≠ 'l') (h : ∀ strAt, fmtArg strAt c = some render)
    (htext : render w = text) : Emits c w text := by
  intro strAt isLong p kind args o
  have hconv : ∀ isLong, fmtConv strAt isLong c (⟨kind, w⟩ :: args) o
      = some (args, ⟨o.out ++ text, o.takes ++ [(c, ⟨kind, w⟩)]⟩) := by
    intro isLong
    simp only [fmtConv, h, htext]
  cases isLong with
  | false =>
      show fmtCore strAt ('%' :: c :: p) (⟨kind, w⟩ :: args) o = _
      rw [fmtCore, if_neg (by simp), fmtPercent, if_neg hl, hconv, Option.bind_some]
  | true =>
      show fmtCore strAt ('%' :: 'l' :: c :: p) (⟨kind, w⟩ :: args) o = _
      rw [fmtCore, if_neg (by simp), fmtPercent, if_pos rfl, fmtLong, hconv, Option.bind_some]

/-- The signed value of a word. -/
def signed (w : UInt32) : Int := w.toBitVec.toInt

/-- What `%d` prints. -/
def signedText (w : UInt32) : List Char :=
  if w ≥ 0x80000000 then '-' :: fmtPutuint (0 - w) 10 else fmtPutuint w 10

theorem signed_of_neg {w : UInt32} (hw : w ≥ 0x80000000) :
    signed w = -((0 - w).toNat : Int) ∧ signed w < 0 := by
  have hle : 0x80000000 ≤ w.toNat := UInt32.le_iff_toNat_le.mp hw
  have hlt := w.toNat_lt
  have hsub : (0 - w).toNat = 2 ^ 32 - w.toNat := by
    rw [UInt32.toNat_sub]
    simp only [UInt32.toNat_ofNat]
    omega
  rw [signed, BitVec.toInt_eq_toNat_cond, UInt32.toNat_toBitVec, if_neg (by omega), hsub]
  omega

theorem signed_of_nonneg {w : UInt32} (hw : ¬ w ≥ 0x80000000) : signed w = (w.toNat : Int) := by
  have hlt : w.toNat < 0x80000000 := by
    rw [ge_iff_le, UInt32.not_le, UInt32.lt_iff_toNat_lt] at hw
    exact hw
  rw [signed, BitVec.toInt_eq_toNat_cond, UInt32.toNat_toBitVec, if_pos (by omega)]

theorem digitChar_ne_minus : ∀ d < 10, Nat.digitChar d ≠ '-' := by
  decide

/-- A numeral without a sign is read without one. -/
theorem parseInt_numeral (n : Nat) : parseInt (numeral 10 n) = some (n : Int) := by
  have hcanon : CanonicalNumeral 10 (numeral 10 n) := numeral_canonical (by decide) (by decide) n
  have hparse : parseNat 10 (numeral 10 n) = some n :=
    parseNat_numeral (by decide) (by decide) n
  cases htext : numeral 10 n with
  | nil => exact absurd htext hcanon.ne_nil
  | cons c text =>
      obtain ⟨d, hd, hc⟩ := hcanon.digits c (by rw [htext]; exact List.mem_cons_self ..)
      have hne : c ≠ '-' := by
        rw [hc]
        exact digitChar_ne_minus d hd
      rw [htext] at hparse
      unfold parseInt
      split
      · rename_i heq
        exact absurd (List.cons.inj heq).1 hne
      · rw [hparse]
        rfl

theorem signedText_spec (w : UInt32) :
    SignedNumeral (signed w) (signedText w) ∧ parseInt (signedText w) = some (signed w) := by
  have hten : ∀ v, fmtPutuint v 10 = numeral 10 v.toNat := fmtPutuint_eq (Or.inl rfl)
  have hcanon : ∀ n, CanonicalNumeral 10 (numeral 10 n) :=
    numeral_canonical (by decide) (by decide)
  by_cases hw : w ≥ 0x80000000
  · obtain ⟨hsigned, hneg⟩ := signed_of_neg hw
    have htext : signedText w = '-' :: numeral 10 (0 - w).toNat := by
      rw [signedText, if_pos hw, hten]
    rw [htext]
    constructor
    · rw [SignedNumeral, if_pos hneg]
      exact ⟨_, rfl, hcanon _⟩
    · rw [hsigned, parseInt, parseNat_numeral (by decide) (by decide)]
      rfl
  · have hsigned := signed_of_nonneg hw
    have htext : signedText w = numeral 10 w.toNat := by rw [signedText, if_neg hw, hten]
    rw [htext, hsigned]
    constructor
    · rw [SignedNumeral, if_neg (by omega)]
      exact hcanon _
    · exact parseInt_numeral _

/--
**Numbers round-trip.**

For every word, `%u`, `%x` and `%d` print a canonical numeral with or without the `l` modifier
and wherever they stand, and reading it gives back the word, as an unsigned or a signed number;
and `_fmt_putuint` returns in both bases, having kept to its buffer.
-/
theorem numbers_round_trip (w : UInt32) :
    (∃ text, Emits 'u' w text ∧ CanonicalNumeral 10 text ∧ parseNat 10 text = some w.toNat)
    ∧ (∀ c, c = 'x' ∨ c = 'X' → ∃ text, Emits c w text ∧ CanonicalNumeral 16 text
      ∧ parseNat 16 text = some w.toNat)
    ∧ (∀ c, c = 'd' ∨ c = 'i' → ∃ text, Emits c w text ∧ SignedNumeral (signed w) text
      ∧ parseInt text = some (signed w))
    ∧ ∀ base, base = 10 ∨ base = 16 → ∀ buf, putuint buf w base = some (fmtPutuint w base) := by
  refine ⟨⟨numeral 10 w.toNat, ?_, ?_⟩, fun c hc => ⟨numeral 16 w.toNat, ?_, ?_⟩,
    fun c hc => ⟨signedText w, ?_, signedText_spec w⟩, fun base hb buf => putuint_eq hb buf w⟩
  · exact emits_of_fmtArg (by decide) (fun _ => rfl) (fmtPutuint_eq (Or.inl rfl) w)
  · exact ⟨numeral_canonical (by decide) (by decide) _, parseNat_numeral (by decide) (by decide) _⟩
  · rcases hc with rfl | rfl
    · exact emits_of_fmtArg (by decide) (fun _ => rfl) (fmtPutuint_eq (Or.inr rfl) w)
    · exact emits_of_fmtArg (by decide) (fun _ => rfl) (fmtPutuint_eq (Or.inr rfl) w)
  · exact ⟨numeral_canonical (by decide) (by decide) _, parseNat_numeral (by decide) (by decide) _⟩
  · rcases hc with rfl | rfl
    · exact emits_of_fmtArg (by decide) (fun _ => rfl) rfl
    · exact emits_of_fmtArg (by decide) (fun _ => rfl) rfl

end VibeRtos
