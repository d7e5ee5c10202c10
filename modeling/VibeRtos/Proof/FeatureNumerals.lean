import Mathlib.Tactic.IntervalCases
import VibeRtos.Features.Expansion

/-!
# Numerals in three readings

`_parse_literal`, Python and C read integer literals by different rules. Where two of them read
a numeral that C knows, they agree on its value, apart from a minus in front of an octal one;
and the numeral that `str` writes is read back by all of them.
-/

namespace VibeRtos.Features

open Words

variable {c : Char} {w ds value : Text} {n m base : Nat} {v : Int}

/-- The digits of base 16. -/
def hexDigits : Text := "0123456789abcdefABCDEF".toList

theorem mem_of_toNat {cs : Text} (hn : c.toNat = n) (h : Char.ofNat n ∈ cs) : c ∈ cs := by
  rwa [← hn, Char.ofNat_toNat] at h

theorem mem_hexDigits (h : digitOf c < 16) : c ∈ hexDigits := by
  unfold digitOf at h
  split at h
  · rename_i hc
    obtain ⟨hlo, hhi⟩ : 48 ≤ c.toNat ∧ c.toNat ≤ 57 := hc
    interval_cases hn : c.toNat <;> exact mem_of_toNat hn (by decide)
  · split at h
    · rename_i hc
      obtain ⟨hlo, hhi⟩ : 97 ≤ c.toNat ∧ c.toNat ≤ 102 := hc
      interval_cases hn : c.toNat <;> exact mem_of_toNat hn (by decide)
    · split at h
      · rename_i hc
        obtain ⟨hlo, hhi⟩ : 65 ≤ c.toNat ∧ c.toNat ≤ 70 := hc
        interval_cases hn : c.toNat <;> exact mem_of_toNat hn (by decide)
      · omega

/-- Check a property of the characters of a list one by one. -/
theorem forall_of_all {P : Char → Prop} [DecidablePred P] {cs : Text}
    (h : cs.all (fun c => decide (P c)) = true) : ∀ c ∈ cs, P c := by
  simpa using h

theorem hexDigit_facts : ∀ c ∈ hexDigits, isWordChar c = true ∧ isSuffix c = false
    ∧ (digitOf c < 10 → c.isAlpha = false ∧ c ≠ '_' ∧ c ≠ 'x' ∧ c ≠ 'X' ∧ c ≠ 'b' ∧ c ≠ 'B') :=
  forall_of_all (by decide)

theorem readBase_eq_some (h : readBase base ds = some n) : ds ≠ []
    ∧ (∀ c ∈ ds, digitOf c < base) ∧ n = ds.foldl (fun n c => base * n + digitOf c) 0 := by
  unfold readBase at h
  split at h
  · rename_i hds
    exact ⟨hds.1, by simpa using hds.2, (Option.some.inj h).symm⟩
  · exact absurd h (by simp)

theorem readBase_of (hne : ds ≠ []) (hds : ∀ c ∈ ds, digitOf c < base) :
    readBase base ds = some (ds.foldl (fun n c => base * n + digitOf c) 0) := by
  unfold readBase
  rw [if_pos ⟨hne, by simpa using hds⟩]

/-- What every accepted run of digits is made of. -/
theorem readBase_chars (h : readBase base ds = some n) (hb : base ≤ 16) :
    ∀ c ∈ ds, isWordChar c = true ∧ isSuffix c = false := by
  intro c hc
  have hlt := (readBase_eq_some h).2.1 c hc
  have hfacts := hexDigit_facts c (mem_hexDigits (by omega))
  exact ⟨hfacts.1, hfacts.2.1⟩

/-- A leading zero does not count. -/
theorem readBase_zero_cons (h : readBase base ds = some n) (hb : 0 < base) :
    readBase base ('0' :: ds) = some n := by
  obtain ⟨hne, hlt, rfl⟩ := readBase_eq_some h
  have hzero : digitOf '0' = 0 := by decide
  rw [readBase_of (by simp) fun c hc => ?_, List.foldl_cons, hzero, Nat.mul_zero]
  rcases List.mem_cons.mp hc with rfl | hc
  · omega
  · exact hlt c hc

theorem radixLiteral_eq_some {lower upper : Char} (h : radixLiteral lower upper base w = some n) :
    ∃ x ds, w = '0' :: x :: ds ∧ (x = lower ∨ x = upper) ∧ readBase base ds = some n := by
  unfold radixLiteral at h
  split at h
  · rename_i x ds
    split at h
    · rename_i hx
      exact ⟨x, ds, rfl, hx, h⟩
    · exact absurd h (by simp)
  · exact absurd h (by simp)

/-- A run of decimal digits has no letter behind a zero. -/
theorem radixLiteral_digits {lower upper : Char} (hds : ∀ c ∈ w, digitOf c < 10)
    (hl : 10 ≤ digitOf lower) (hu : 10 ≤ digitOf upper) :
    radixLiteral lower upper base w = none := by
  cases h : radixLiteral lower upper base w with
  | none => rfl
  | some n =>
      obtain ⟨x, ds, rfl, hx, -⟩ := radixLiteral_eq_some h
      have hlt := hds x (by simp)
      rcases hx with rfl | rfl <;> omega

/-- Without a suffix, C's reading goes by the prefix. -/
theorem cLiteral_plain (h : ∀ c ∈ w, isSuffix c = false) : cLiteral w =
    match radixLiteral 'x' 'X' 16 w with
    | some n => some n
    | none =>
        match radixLiteral 'b' 'B' 2 w with
        | some n => some n
        | none => if w.head? = some '0' then readBase 8 w else readBase 10 w := by
  have htake : w.takeWhile (fun c => !isSuffix c) = w :=
    List.takeWhile_eq_self_iff.mpr fun c hc => by simp [h c hc]
  have hdrop : w.dropWhile (fun c => !isSuffix c) = [] :=
    List.dropWhile_eq_nil_iff.mpr fun c hc => by simp [h c hc]
  unfold cLiteral
  simp only [htake, hdrop]
  exact if_pos rfl

theorem radixLiteral_chars {lower upper : Char} (h : radixLiteral lower upper base w = some n)
    (hb : base ≤ 16) (hl : isWordChar lower = true ∧ isSuffix lower = false)
    (hu : isWordChar upper = true ∧ isSuffix upper = false) :
    ∀ c ∈ w, isWordChar c = true ∧ isSuffix c = false := by
  obtain ⟨x, ds, rfl, hx, hds⟩ := radixLiteral_eq_some h
  intro c hc
  rcases List.mem_cons.mp hc with rfl | hc
  · decide
  · rcases List.mem_cons.mp hc with rfl | hc
    · rcases hx with rfl | rfl
      · exact hl
      · exact hu
    · exact readBase_chars hds hb c hc

theorem cLiteral_hex (h : radixLiteral 'x' 'X' 16 w = some n) : cLiteral w = some n := by
  have hchars := radixLiteral_chars h (by omega) (by decide) (by decide)
  rw [cLiteral_plain fun c hc => (hchars c hc).2, h]

theorem cLiteral_bin (h : radixLiteral 'b' 'B' 2 w = some n) : cLiteral w = some n := by
  have hnone : radixLiteral 'x' 'X' 16 w = none := by
    obtain ⟨x, ds, rfl, hx, -⟩ := radixLiteral_eq_some h
    rcases hx with rfl | rfl <;> rfl
  rw [cLiteral_plain fun c hc => (radixLiteral_chars h (by omega) (by decide) (by decide) c hc).2,
    hnone, h]

/-- C's reading of a run of decimal digits. -/
theorem cLiteral_digits (h : ∀ c ∈ w, digitOf c < 10) :
    cLiteral w = if w.head? = some '0' then readBase 8 w else readBase 10 w := by
  rw [cLiteral_plain fun c hc => ?_, radixLiteral_digits h (by decide) (by decide),
    radixLiteral_digits h (by decide) (by decide)]
  exact (hexDigit_facts c (mem_hexDigits (by have hlt := h c hc; omega))).2.1

/-- Zeros are 0 in every base. -/
theorem foldl_zeros (base : Nat) (h : ∀ c ∈ w, c = '0') :
    w.foldl (fun n c => base * n + digitOf c) 0 = 0 := by
  induction w with
  | nil => rfl
  | cons d w ih =>
      rw [List.foldl_cons, h d List.mem_cons_self]
      exact ih fun c hc => h c (List.mem_cons_of_mem _ hc)

/-- Where C and Python both read a numeral, they agree. -/
theorem pyNumeral_cLiteral (hp : pyNumeral w = some n) (hc : cLiteral w = some m) : n = m := by
  unfold pyNumeral at hp
  cases hx : radixLiteral 'x' 'X' 16 w with
  | some k =>
      simp only [hx] at hp
      exact Option.some.inj (hp.symm.trans ((cLiteral_hex hx).symm.trans hc))
  | none =>
      cases hb : radixLiteral 'b' 'B' 2 w with
      | some k =>
          simp only [hx, hb] at hp
          exact Option.some.inj (hp.symm.trans ((cLiteral_bin hb).symm.trans hc))
      | none =>
          cases ho : radixLiteral 'o' 'O' 8 w with
          | some k =>
              -- C has no `0o`
              have hchars := radixLiteral_chars ho (by omega) (by decide) (by decide)
              rw [cLiteral_plain fun c hc => (hchars c hc).2] at hc
              obtain ⟨x, ds, rfl, hxo, -⟩ := radixLiteral_eq_some ho
              simp only [hx, hb, List.head?_cons, if_true] at hc
              have hbad := (readBase_eq_some hc).2.1 x (by simp)
              rcases hxo with rfl | rfl <;> exact absurd hbad (by decide)
          | none =>
              simp only [hx, hb, ho] at hp
              split at hp
              · exact absurd hp (by simp)
              · rename_i hlead
                obtain ⟨-, hlt, rfl⟩ := readBase_eq_some hp
                rw [cLiteral_digits hlt] at hc
                split at hc
                · rename_i hhead
                  have hzeros : ∀ c ∈ w, c = '0' := by
                    by_contra hz
                    exact hlead ⟨hhead, by simpa using hz⟩
                  rw [foldl_zeros 10 hzeros, (readBase_eq_some hc).2.2, foldl_zeros 8 hzeros]
                · rw [(readBase_eq_some hc).2.2]

/-! ## Written numerals -/

theorem digits_toDigits (n : Nat) : ∀ c ∈ Nat.toDigits 10 n, digitOf c < 10
    ∧ digitOf c = c.toNat - '0'.toNat := by
  intro c hc
  have hdigit := Nat.isDigit_of_mem_toDigits (by omega) (by omega) hc
  have hrange : '0' ≤ c ∧ c ≤ '9' := by
    simpa [Char.isDigit, Char.le_def, UInt32.le_iff_toNat_le] using hdigit
  have hval : digitOf c = c.toNat - '0'.toNat := if_pos hrange
  have hbounds : 48 ≤ c.toNat ∧ c.toNat ≤ 57 := hrange
  have hzero : '0'.toNat = 48 := rfl
  exact ⟨by omega, hval⟩

theorem readBase_toDigits (n : Nat) : readBase 10 (Nat.toDigits 10 n) = some n := by
  rw [readBase_of Nat.toDigits_ne_nil fun c hc => (digits_toDigits n c hc).1]
  have hfold : (Nat.toDigits 10 n).foldl (fun n c => 10 * n + digitOf c) 0
      = Nat.ofDigitChars 10 (Nat.toDigits 10 n) 0 := by
    rw [Nat.ofDigitChars_eq_foldl]
    refine List.foldl_ext _ _ _ fun a c hc => ?_
    rw [(digits_toDigits n c hc).2]
  rw [hfold, Nat.ofDigitChars_ten_toDigits]

/-- Only the numeral of 0 begins with a zero. -/
theorem toDigits_head (n : Nat) : (Nat.toDigits 10 n).head? = some '0' → n = 0 := by
  induction n using Nat.strongRecOn with
  | ind n ih =>
    intro h
    by_cases hn : n < 10
    · rw [Nat.toDigits_of_lt_base hn, List.head?_cons] at h
      have hdigit := Option.some.inj h
      interval_cases n <;> first | rfl | exact absurd hdigit (by decide)
    · rw [Nat.toDigits_of_base_le (by omega) (by omega),
        List.head?_append_of_ne_nil _ Nat.toDigits_ne_nil] at h
      have hsmall := ih (n / 10) (by omega) h
      omega

theorem pyNumeral_toDigits (n : Nat) : pyNumeral (Nat.toDigits 10 n) = some n := by
  have hdigits := fun c hc => (digits_toDigits n c hc).1
  unfold pyNumeral
  rw [radixLiteral_digits hdigits (by decide) (by decide),
    radixLiteral_digits hdigits (by decide) (by decide),
    radixLiteral_digits hdigits (by decide) (by decide)]
  simp only
  rw [if_neg, readBase_toDigits]
  rintro ⟨hhead, hzeros⟩
  rw [toDigits_head n hhead] at hzeros
  exact hzeros (by decide)

theorem cLiteral_toDigits (n : Nat) : cLiteral (Nat.toDigits 10 n) = some n := by
  rw [cLiteral_digits fun c hc => (digits_toDigits n c hc).1]
  split
  · rename_i hhead
    rw [toDigits_head n hhead]
    rfl
  · exact readBase_toDigits n

theorem toDigits_word (n : Nat) : ∀ c ∈ Nat.toDigits 10 n, isWordChar c = true := by
  intro c hc
  have hlt := (digits_toDigits n c hc).1
  exact (hexDigit_facts c (mem_hexDigits (by omega))).1

/-- A word that begins with a decimal digit is no identifier. -/
theorem isIdent_digit (h : digitOf c < 10) : isIdent (c :: w) = false := by
  have hfacts := (hexDigit_facts c (mem_hexDigits (by omega))).2.2 h
  simp [isIdent, hfacts.1, hfacts.2.1]

theorem isIdent_toDigits (n : Nat) : isIdent (Nat.toDigits 10 n) = false := by
  cases hds : Nat.toDigits 10 n with
  | nil => exact absurd hds Nat.toDigits_ne_nil
  | cons c ds => exact isIdent_digit (digits_toDigits n c (by simp [hds])).1

/-- The pieces of a written number. -/
theorem lex_str (v : Int) : lex isWordChar (str v) =
    if v < 0 then [.other '-', .word (Nat.toDigits 10 v.natAbs)]
    else [.word (Nat.toDigits 10 v.natAbs)] := by
  have hword := lex_word (p := isWordChar) Nat.toDigits_ne_nil (toDigits_word v.natAbs)
  unfold str
  split
  · rw [lex_other (by decide), hword]
  · exact hword

/-- What any of the readings accepts begins with a digit. -/
theorem isIdent_readBase (h : readBase base w = some n) (hb : base ≤ 10) : isIdent w = false := by
  obtain ⟨hne, hlt, -⟩ := readBase_eq_some h
  cases w with
  | nil => exact absurd rfl hne
  | cons c w => exact isIdent_digit (Nat.lt_of_lt_of_le (hlt c List.mem_cons_self) hb)

theorem isIdent_radix {lower upper : Char} (h : radixLiteral lower upper base w = some n) :
    isIdent w = false := by
  obtain ⟨x, ds, rfl, -, -⟩ := radixLiteral_eq_some h
  exact isIdent_digit (by decide)

theorem pyNumeral_ident (h : isIdent w = true) : pyNumeral w = none := by
  have hnot : ¬ isIdent w = false := by simp [h]
  have hradix : ∀ lower upper base, radixLiteral lower upper base w = none := by
    intro lower upper base
    cases hr : radixLiteral lower upper base w with
    | none => rfl
    | some n => exact absurd (isIdent_radix hr) hnot
  have hbase : readBase 10 w = none := by
    cases hr : readBase 10 w with
    | none => rfl
    | some n => exact absurd (isIdent_readBase hr le_rfl) hnot
  unfold pyNumeral
  rw [hradix, hradix, hradix]
  simp only [hbase, ite_self]

theorem cLiteral_not_ident (h : (cLiteral w).isSome) : isIdent w = false := by
  have hhead : ∀ ds, w.takeWhile (fun c => !isSuffix c) = ds → isIdent ds = false → ds ≠ [] →
      isIdent w = false := by
    rintro ds rfl hds hne
    cases w with
    | nil => exact absurd rfl hne
    | cons c w =>
        rw [List.takeWhile_cons] at hds hne
        split at hne
        · rename_i hc
          rw [if_pos hc] at hds
          exact hds
        · exact absurd rfl hne
  obtain ⟨n, hn⟩ := Option.isSome_iff_exists.mp h
  unfold cLiteral at hn
  obtain ⟨ds, hds⟩ : ∃ ds, w.takeWhile (fun c => !isSuffix c) = ds := ⟨_, rfl⟩
  simp only [hds] at hn
  split at hn
  · cases hx : radixLiteral 'x' 'X' 16 ds with
    | some k =>
        obtain ⟨x, es, rfl, -⟩ := radixLiteral_eq_some hx
        exact hhead _ hds (isIdent_radix hx) (by simp)
    | none =>
        cases hb : radixLiteral 'b' 'B' 2 ds with
        | some k =>
            obtain ⟨x, es, rfl, -⟩ := radixLiteral_eq_some hb
            exact hhead _ hds (isIdent_radix hb) (by simp)
        | none =>
            simp only [hx, hb] at hn
            split at hn
            · exact hhead ds hds (isIdent_readBase hn (by omega)) (readBase_eq_some hn).1
            · exact hhead ds hds (isIdent_readBase hn (by omega)) (readBase_eq_some hn).1
  · exact absurd hn (by simp)

/-! ## Single literals -/

/-- A decimal numeral that is not an octal one for `_parse_literal` is none for C either. -/
theorem cLiteral_decimal (h : readBase 10 w = some n) (hoct : octalLiteral w = none)
    (hc : (cLiteral w).isSome) : cLiteral w = some n := by
  rw [cLiteral_digits (readBase_eq_some h).2.1] at hc ⊢
  split at hc
  · rename_i hhead
    rw [if_pos hhead]
    obtain ⟨m, hm⟩ := Option.isSome_iff_exists.mp hc
    cases w with
    | nil => exact absurd hhead (by simp)
    | cons c w =>
        obtain rfl := Option.some.inj hhead
        cases w with
        | nil => exact h
        | cons d w =>
            have hlt := (readBase_eq_some hm).2.1
            have hsome := readBase_of (List.cons_ne_nil d w) fun e he =>
              hlt e (List.mem_cons_of_mem _ he)
            exact absurd (hsome.symm.trans hoct) (by simp)
  · rename_i hhead
    rw [if_neg hhead]
    exact h

theorem operands_word (hne : w ≠ []) (hw : ∀ c ∈ w, isWordChar c = true) :
    operands (some 1) (lex isWordChar w) = some [(1, w)] := by
  rw [lex_word hne hw]
  rfl

theorem operands_minus_word (hne : w ≠ []) (hw : ∀ c ∈ w, isWordChar c = true) :
    operands (some 1) (lex isWordChar ('-' :: w)) = some [(-1, w)] := by
  rw [lex_other (by decide), lex_word hne hw]
  rfl

/-- The four ways to be accepted by `_parse_literal`. -/
theorem parseLiteral_cases (hstrip : strip value = value) (h : parseLiteral value = some v) :
    (∃ n : Nat, radixLiteral 'x' 'X' 16 value = some n ∧ v = n)
      ∨ (∃ n : Nat, radixLiteral 'b' 'B' 2 value = some n ∧ v = n)
      ∨ (∃ n : Nat, octalLiteral value = some n ∧ v = n)
      ∨ octalLiteral value = none ∧ decimalLiteral value = some v := by
  simp only [parseLiteral, hstrip] at h
  cases hx : radixLiteral 'x' 'X' 16 value with
  | some n =>
      rw [hx] at h
      exact Or.inl ⟨n, rfl, (Option.some.inj h).symm⟩
  | none =>
      cases hb : radixLiteral 'b' 'B' 2 value with
      | some n =>
          rw [hx, hb] at h
          exact Or.inr (Or.inl ⟨n, rfl, (Option.some.inj h).symm⟩)
      | none =>
          cases ho : octalLiteral value with
          | some n =>
              rw [hx, hb, ho] at h
              exact Or.inr (Or.inr (Or.inl ⟨n, rfl, (Option.some.inj h).symm⟩))
          | none =>
              rw [hx, hb, ho] at h
              exact Or.inr (Or.inr (Or.inr ⟨rfl, h⟩))

/-- An octal literal is one of C. -/
theorem octalLiteral_spec (h : octalLiteral value = some n) :
    (∀ c ∈ value, isWordChar c = true) ∧ cLiteral value = some n := by
  unfold octalLiteral at h
  split at h
  · have hzero := readBase_zero_cons h (by omega)
    refine ⟨fun c hc => (readBase_chars hzero (by omega) c hc).1, ?_⟩
    rw [cLiteral_digits fun c hc => ?_, List.head?_cons, if_pos rfl]
    · exact hzero
    · have hlt := (readBase_eq_some hzero).2.1 c hc
      omega
  · exact absurd h (by simp)

/-- What `_parse_literal` accepts is a body of one literal, and it has the value that C gives
the literal. -/
theorem parseLiteral_spec {names : List Text} {l : List (Int × Text)} (hstrip : strip value = value)
    (hops : operands (some 1) (lex isWordChar value) = some l) (hok : ∀ p ∈ l, IsOperand names p)
    (h : parseLiteral value = some v) :
    ∃ s w m, l = [(s, w)] ∧ cLiteral w = some m ∧ v = s * m := by
  have hne : value ≠ [] := by
    rintro rfl
    exact absurd hops (by simp [lex, operands])
  have hword : ∀ {m : Nat}, (∀ c ∈ value, isWordChar c = true) → cLiteral value = some m →
      ∃ s w m', l = [(s, w)] ∧ cLiteral w = some m' ∧ (m : Int) = s * m' := by
    intro m hw hc
    rw [operands_word hne hw] at hops
    exact ⟨1, value, m, (Option.some.inj hops).symm, hc, by omega⟩
  rcases parseLiteral_cases hstrip h with ⟨n, hx, rfl⟩ | ⟨n, hb, rfl⟩ | ⟨n, ho, rfl⟩ | ⟨ho, hdec⟩
  · have hchars := radixLiteral_chars hx (by omega) (by decide) (by decide)
    exact hword (fun c hc => (hchars c hc).1) (cLiteral_hex hx)
  · have hchars := radixLiteral_chars hb (by omega) (by decide) (by decide)
    exact hword (fun c hc => (hchars c hc).1) (cLiteral_bin hb)
  · exact hword (octalLiteral_spec ho).1 (octalLiteral_spec ho).2
  · unfold decimalLiteral at hdec
    split at hdec
    · -- the minus stands in front of a constant that is not octal
      rename_i ds
      obtain ⟨n, hn, rfl⟩ := Option.map_eq_some_iff.mp hdec
      have hchars := fun c hc => (readBase_chars hn (by omega) c hc).1
      rw [operands_minus_word (readBase_eq_some hn).1 hchars] at hops
      obtain rfl := Option.some.inj hops
      rcases hok (-1, ds) (by simp) with ⟨-, hs, -⟩ | ⟨hc, hs⟩
      · exact absurd hs (by simp)
      · have hoct : octalLiteral ds = none := by
          rcases hs with hs | hs
          · exact absurd hs (by simp)
          · exact hs.2
        exact ⟨-1, ds, n, rfl, cLiteral_decimal hn hoct hc, by omega⟩
    · obtain ⟨n, hn, rfl⟩ := Option.map_eq_some_iff.mp hdec
      have hw := fun c hc => (readBase_chars hn (by omega) c hc).1
      have hone := operands_word hne hw
      rw [hops] at hone
      rcases hok (1, value) (by rw [Option.some.inj hone]; simp) with ⟨hid, -⟩ | ⟨hc, -⟩
      · exact absurd (isIdent_readBase hn le_rfl) (by simp [hid])
      · exact hword hw (cLiteral_decimal hn ho hc)

end VibeRtos.Features
