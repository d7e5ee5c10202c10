import VibeRtos.Proof.FeatureNumerals
import VibeRtos.Proof.FeatureSweeps

/-!
# Evaluating a body

The rounds of the substitution put the value of every known identifier in its place, whatever
their order, as nothing that they put in is an identifier (`substStable_eq`). What is evaluated
then is a sum of numerals: `evalBody` is the evaluation of a body against a table, and the last
results of this module say when it fails and what it is otherwise.
-/

namespace VibeRtos.Features

open Words Sweeps

variable {text w value : Text} {v : Int} {σ : Table Text ℤ} {s : Int} {l : List (Int × Text)}
  {toks : List (Tok Char)} {names : List Text}

/-! ## The substitution -/

/-- The values of a table in place of the names. -/
def fillIn (σ : Table Text ℤ) (text : Text) : Text :=
  subst isWordChar (fun w => (σ w).map str) text

/-- Only identifiers are in the table. -/
def Named (σ : Table Text ℤ) : Prop := ∀ w v, σ w = some v → isIdent w = true

theorem mem_words : w ∈ words text ↔ Tok.word w ∈ lex isWordChar text := by
  unfold words
  rw [List.mem_filterMap]
  constructor
  · rintro ⟨t, ht, heq⟩
    cases t with
    | word u =>
        obtain rfl := Option.some.inj heq
        exact ht
    | other c => exact absurd heq (by simp)
  · intro h
    exact ⟨_, h, rfl⟩

/-- The words of a written number. -/
theorem words_str (v : Int) : words (str v) = [Nat.toDigits 10 v.natAbs] := by
  unfold words
  rw [lex_str]
  split <;> rfl

/-- There is no identifier in a written number. -/
theorem subst_str {g : Text → Option Text} (hg : ∀ w, isIdent w = false → g w = none) :
    subst isWordChar g (str v) = str v := by
  refine subst_id fun w hw => hg w ?_
  have hmem := mem_words.mpr hw
  rw [words_str] at hmem
  rw [List.mem_singleton.mp hmem]
  exact isIdent_toDigits _

theorem Named.none_of (h : Named σ) (hw : isIdent w = false) : σ w = none := by
  cases hv : σ w with
  | none => rfl
  | some v => exact absurd (h w v hv) (by simp [hw])

theorem fillIn_fillIn (h : Named σ) (text : Text) : fillIn σ (fillIn σ text) = fillIn σ text := by
  unfold fillIn
  rw [subst_subst_fixed fun w t ht => ?_]
  · simp only [Option.or_self]
  · obtain ⟨v, -, rfl⟩ := Option.map_eq_some_iff.mp ht
    exact subst_str fun u hu => by rw [h.none_of hu, Option.map_none]

/-- Replacing one name after the other. -/
theorem foldl_replace (σ : Table Text ℤ) (text : Text) (ns : List Text)
    (hns : ∀ n ∈ ns, isIdent n = true) {f : Text → Option Text}
    (hf : ∀ w t, f w = some t → ∃ v, t = str v) :
    ns.foldl (fun text name => match σ name with
      | some val => replaceWord name (str val) text
      | none => text) (subst isWordChar f text)
      = subst isWordChar (fun w => (f w).or (if w ∈ ns then (σ w).map str else none)) text := by
  induction ns generalizing f with
  | nil => simp
  | cons n ns ih =>
      have hns' : ∀ m ∈ ns, isIdent m = true := fun m hm => hns m (List.mem_cons_of_mem _ hm)
      rw [List.foldl_cons]
      cases hv : σ n with
      | none =>
          simp only
          rw [ih hns' hf]
          refine subst_congr fun w _ => ?_
          by_cases hwn : w = n
          · subst hwn
            simp [hv]
          · simp [hwn]
      | some val =>
          -- no text that is in place already holds the name `n`
          have hone : replaceWord n (str val) (subst isWordChar f text)
              = subst isWordChar
                (fun w => (f w).or (if w = n then some (str val) else none)) text := by
            unfold replaceWord
            refine subst_subst_fixed fun w t ht => ?_
            obtain ⟨u, rfl⟩ := hf w t ht
            refine subst_str fun x hx => if_neg ?_
            rintro rfl
            rw [hns x List.mem_cons_self] at hx
            exact absurd hx (by simp)
          simp only
          rw [hone, ih hns' fun w t ht => ?_]
          · refine subst_congr fun w _ => ?_
            by_cases hwn : w = n
            · subst hwn
              cases hfw : f w <;> simp [hv]
            · simp [hwn]
          · rcases Option.or_eq_some_iff.mp ht with ht | ⟨-, ht⟩
            · exact hf w t ht
            · split at ht
              · exact ⟨val, (Option.some.inj ht).symm⟩
              · exact absurd ht (by simp)

theorem get_isSome_iff {sy : SymbolTable} : (sy.get w).isSome ↔ w ∈ sy.map Prod.fst := by
  induction sy with
  | nil => simp [SymbolTable.get]
  | cons p sy ih =>
      obtain ⟨k, u⟩ := p
      rw [SymbolTable.get, List.map_cons, List.mem_cons]
      by_cases hk : k = w
      · simp [hk]
      · rw [if_neg hk, ih]
        simp [Ne.symm hk]

theorem mem_sortedKeys {sy : SymbolTable} : w ∈ sy.sortedKeys ↔ (sy.get w).isSome := by
  rw [get_isSome_iff, SymbolTable.sortedKeys]
  exact (List.perm_insertionSort ..).mem_iff

/-- One round substitutes all that is known. -/
theorem substRound_eq {sy : SymbolTable} (h : Named sy.get) (text : Text) :
    substRound sy text = fillIn sy.get text := by
  have hkeys : ∀ n ∈ sy.sortedKeys, isIdent n = true := by
    intro n hn
    obtain ⟨v, hv⟩ := Option.isSome_iff_exists.mp (mem_sortedKeys.mp hn)
    exact h n v hv
  have hfold := foldl_replace sy.get text sy.sortedKeys hkeys (f := fun _ => none) (by simp)
  rw [subst_none] at hfold
  refine hfold.trans (subst_congr fun w _ => ?_)
  rw [Option.none_or]
  split
  · rfl
  · rename_i hw
    rw [mem_sortedKeys, Option.not_isSome_iff_eq_none] at hw
    rw [hw]
    rfl

/-- And a second one changes nothing. -/
theorem substStable_eq {sy : SymbolTable} (h : Named sy.get) (text : Text) (n : Nat) :
    substStable sy (n + 1) text = fillIn sy.get text := by
  have hstable : ∀ n, substStable sy n (fillIn sy.get text) = fillIn sy.get text := by
    intro n
    cases n with
    | zero => rfl
    | succ n => rw [substStable, substRound_eq h, fillIn_fillIn h, if_pos rfl]
  rw [substStable, substRound_eq h]
  split
  · rename_i hsame
    exact hsame.symm
  · exact hstable n

/-! ## Sums -/

/-- An operand with the value of its name in place, whose sign joins that of the operand. -/
def fillOperand (σ : Table Text ℤ) (p : Int × Text) : Int × Text :=
  match σ p.2 with
  | some v => (if v < 0 then -p.1 else p.1, Nat.toDigits 10 v.natAbs)
  | none => p

/-- The pieces of a text with the values in place. -/
def fillToks (σ : Table Text ℤ) : List (Tok Char) → List (Tok Char)
  | [] => []
  | .word w :: ts => lex isWordChar (((σ w).map str).getD w) ++ fillToks σ ts
  | .other c :: ts => .other c :: fillToks σ ts

theorem lex_fillIn (σ : Table Text ℤ) (text : Text) :
    lex isWordChar (fillIn σ text) = fillToks σ (lex isWordChar text) := by
  unfold fillIn
  rw [lex_subst]
  induction lex isWordChar text with
  | nil => rfl
  | cons t ts ih =>
      rw [List.flatMap_cons, ih]
      cases t <;> rfl

/-- The operands of the filled text are the operands with their values. -/
theorem operands_fill (σ : Table Text ℤ) {sign : Option Int} (hp : Proper isWordChar toks)
    (h : operands sign toks = some l) :
    operands sign (fillToks σ toks) = some (l.map (fillOperand σ)) := by
  induction toks generalizing sign l with
  | nil =>
      cases sign with
      | none => rw [← Option.some.inj h]; rfl
      | some s => exact absurd h (by simp [operands])
  | cons t toks ih =>
      cases t with
      | other c =>
          simp only [operands, fillToks] at h ⊢
          split
          · rename_i hblank
            rw [if_pos hblank] at h
            exact ih hp.2 h
          · rename_i hblank
            rw [if_neg hblank] at h
            split
            · rename_i hplus
              rw [if_pos hplus] at h
              exact ih hp.2 h
            · rename_i hplus
              rw [if_neg hplus] at h
              split
              · rename_i hminus
                rw [if_pos hminus] at h
                exact ih hp.2 h
              · rename_i hminus
                rw [if_neg hminus] at h
                exact absurd h (by simp)
      | word w =>
          obtain ⟨hne, hw, -, hrest⟩ := hp
          cases sign with
          | none => exact absurd h (by simp [operands])
          | some s =>
              rw [operands] at h
              obtain ⟨l, hl, rfl⟩ := Option.map_eq_some_iff.mp h
              rw [fillToks, List.map_cons, fillOperand]
              cases hv : σ w with
              | none =>
                  rw [Option.map_none, Option.getD_none, lex_word hne hw, List.singleton_append,
                    operands, ih hrest hl]
                  rfl
              | some v =>
                  rw [Option.map_some, Option.getD_some, lex_str]
                  -- a negative value brings a minus of its own
                  by_cases hneg : v < 0
                  · rw [if_pos hneg, List.cons_append, List.singleton_append, operands,
                      if_neg (by decide), if_neg (by decide), if_pos rfl, operands, ih hrest hl]
                    simp [hneg]
                  · rw [if_neg hneg, List.singleton_append, operands, ih hrest hl]
                    simp [hneg]

/-- The words of a sum are its operands. -/
theorem operands_words {sign : Option Int} (h : operands sign toks = some l) :
    (toks.filterMap fun | .word w => some w | .other _ => none) = l.map Prod.snd := by
  induction toks generalizing sign l with
  | nil =>
      cases sign with
      | none => rw [← Option.some.inj h]; rfl
      | some s => exact absurd h (by simp [operands])
  | cons t toks ih =>
      cases t with
      | other c =>
          rw [List.filterMap_cons_none rfl]
          simp only [operands] at h
          split at h
          · exact ih h
          · split at h
            · exact ih h
            · split at h
              · exact ih h
              · exact absurd h (by simp)
      | word w =>
          cases sign with
          | none => exact absurd h (by simp [operands])
          | some s =>
              rw [operands] at h
              obtain ⟨l, hl, rfl⟩ := Option.map_eq_some_iff.mp h
              exact congrArg (w :: ·) (ih hl)

theorem words_of_operands (h : operands (some 1) (lex isWordChar text) = some l) :
    words text = l.map Prod.snd := operands_words h

/-- The sum of the filled text takes the values from the table. -/
theorem sumOf_fill {val : Text → Option Int} (hval : ∀ n, val (Nat.toDigits 10 n) = some (n : Int))
    (l : List (Int × Text)) :
    sumOf val (l.map (fillOperand σ)) = sumOf (fun w => (σ w).or (val w)) l := by
  induction l with
  | nil => rfl
  | cons p l ih =>
      obtain ⟨s, w⟩ := p
      rw [List.map_cons, fillOperand]
      cases hv : σ w with
      | none => simp only [sumOf, ih, hv, Option.none_or]
      | some v =>
          have habs : (if v < 0 then -s else s) * (v.natAbs : Int) = s * v := by
            split
            · rw [Int.ofNat_natAbs_of_nonpos (by omega), Int.neg_mul_neg]
            · rw [Int.natAbs_of_nonneg (by omega)]
          simp only [sumOf, ih, hv, Option.some_or, hval, Option.bind_some, habs]

/-- What the integer constants of a sum add up to. -/
def constSum (l : List (Int × Text)) : ℤ :=
  (l.map fun p => if isIdent p.2 then 0 else p.1 * (((cLiteral p.2).getD 0 : Nat) : ℤ)).sum

@[simp] theorem constSum_cons (s : Int) (w : Text) (l : List (Int × Text)) :
    constSum ((s, w) :: l)
      = (if isIdent w then 0 else s * (((cLiteral w).getD 0 : Nat) : ℤ)) + constSum l := by
  simp only [constSum, List.map_cons, List.sum_cons]

/-- What the integer constants of a body add up to. -/
def constOf (value : Text) : ℤ := constSum ((operands (some 1) (lex isWordChar value)).getD [])

/-- A sum whose operands all have their values. -/
theorem sumOf_operands {val : Text → Option Int} {R : Text → ℤ} (hok : ∀ p ∈ l, IsOperand names p)
    (hid : ∀ w ∈ l.map Prod.snd, isIdent w = true → val w = some (R w))
    (hlit : ∀ w ∈ l.map Prod.snd, ∀ n, cLiteral w = some n → val w = some (n : Int)) :
    sumOf val l = some (constSum l + (((l.map Prod.snd).filter isIdent).map R).sum) := by
  induction l with
  | nil => rfl
  | cons p l ih =>
      obtain ⟨s, w⟩ := p
      have ih := ih (fun p hp => hok p (List.mem_cons_of_mem _ hp))
        (fun w hw => hid w (List.mem_cons_of_mem _ hw))
        (fun w hw => hlit w (List.mem_cons_of_mem _ hw))
      rw [sumOf, ih, constSum_cons, List.map_cons]
      rcases hok (s, w) List.mem_cons_self with ⟨hident, rfl, -⟩ | ⟨hlitw, -⟩
      · rw [hid w List.mem_cons_self hident, if_pos hident, List.filter_cons_of_pos hident,
          List.map_cons, List.sum_cons, Option.bind_some, Option.map_some]
        refine congrArg some ?_
        change 1 * R w + _ = 0 + _ + (R w + _)
        omega
      · obtain ⟨n, hn⟩ := Option.isSome_iff_exists.mp hlitw
        have hnot : ¬ isIdent w = true := by simp [cLiteral_not_ident hlitw]
        rw [hlit w List.mem_cons_self n hn, if_neg hnot, List.filter_cons_of_neg hnot, hn,
          Option.bind_some, Option.map_some, Option.getD_some, Int.add_assoc]

/-- Without a value of one operand there is no sum. -/
theorem sumOf_none {val : Text → Option Int} (hw : w ∈ l.map Prod.snd) (h : val w = none) :
    sumOf val l = none := by
  induction l with
  | nil => simp at hw
  | cons p l ih =>
      obtain ⟨s, u⟩ := p
      rw [sumOf]
      rcases List.mem_cons.mp hw with rfl | hw
      · rw [h, Option.bind_none]
      · rw [ih hw]
        cases val u <;> rfl

/-! ## The evaluation of a body -/

/-- `_eval_expr` against a table. -/
def evalBody (other : Text → Option (Option Int)) (σ : Table Text ℤ) (value : Text) : Option ℤ :=
  (parseLiteral value).or
    ((pyEval other (fillIn σ value)).or (pyEval other (zeroIdents (fillIn σ value)))).join

theorem evalExpr_eq (other : Text → Option (Option Int)) {sy : SymbolTable} (h : Named sy.get)
    (hne : value ≠ []) : (evalExpr other sy value).1 = evalBody other sy.get value := by
  unfold evalExpr evalBody
  rw [if_neg hne]
  cases parseLiteral value with
  | some v => rfl
  | none =>
      simp only [substStable_eq h, Option.none_or]
      cases pyEval other (fillIn sy.get value) with
      | some r => rfl
      | none =>
          cases pyEval other (zeroIdents (fillIn sy.get value)) with
          | some r => rfl
          | none => rfl

/-- A literal that is malformed for Python. -/
def Malformed (value : Text) : Prop :=
  ∃ w ∈ words value, isIdent w = false ∧ pyNumeral w = none

theorem pyReserved_ident : ∀ w ∈ pyReserved, isIdent w = true := by decide

/-- The words of the filled text. -/
theorem mem_words_fillIn (hops : operands (some 1) (lex isWordChar value) = some l) :
    w ∈ words (fillIn σ value) ↔ (w ∈ words value ∧ σ w = none)
      ∨ ∃ u ∈ words value, ∃ v, σ u = some v ∧ w = Nat.toDigits 10 v.natAbs := by
  have hfill := operands_fill σ (lex_proper ..) hops
  rw [← lex_fillIn] at hfill
  rw [words_of_operands hfill, words_of_operands hops]
  simp only [List.mem_map, exists_exists_and_eq_and, fillOperand]
  constructor
  · rintro ⟨p, hp, rfl⟩
    cases hv : σ p.2 with
    | none => exact Or.inl ⟨⟨p, hp, rfl⟩, hv⟩
    | some v => exact Or.inr ⟨p, hp, v, hv, rfl⟩
  · rintro (⟨⟨p, hp, rfl⟩, hv⟩ | ⟨p, hp, v, hv, rfl⟩)
    · exact ⟨p, hp, by rw [hv]⟩
    · exact ⟨p, hp, by rw [hv]⟩

theorem pyEval_malformed (other : Text → Option (Option Int)) (hσ : Named σ)
    (hops : operands (some 1) (lex isWordChar value) = some l) (h : Malformed value) :
    pyEval other (fillIn σ value) = none := by
  obtain ⟨w, hw, hid, hnum⟩ := h
  have hnone := hσ.none_of hid
  unfold pyEval
  rw [if_pos]
  refine List.any_eq_true.mpr ⟨w, (mem_words_fillIn hops).mpr (Or.inl ⟨hw, hnone⟩), ?_⟩
  simp [hid, hnum]

/-- What Python makes of a filled text is the sum. -/
theorem pyEval_fillIn (other : Text → Option (Option Int))
    (hops : operands (some 1) (lex isWordChar value) = some l) (h : ¬ Malformed value)
    (hres : ∀ w ∈ words value, w ∈ pyReserved → (σ w).isSome) :
    pyEval other (fillIn σ value)
      = (sumOf (fun w => (σ w).or ((pyNumeral w).map fun n : Nat => (n : Int))) l).map some := by
  have hnot : ∀ w ∈ words (fillIn σ value),
      (isIdent w = true ∨ (pyNumeral w).isSome) ∧ w ∉ pyReserved := by
    intro w hw
    rcases (mem_words_fillIn hops).mp hw with ⟨hw, hnone⟩ | ⟨u, -, v, -, rfl⟩
    · refine ⟨?_, fun hmem => ?_⟩
      · by_contra hbad
        rw [not_or] at hbad
        exact h ⟨w, hw, by simpa using hbad.1, by simpa using hbad.2⟩
      · have hsome := hres w hw hmem
        rw [hnone] at hsome
        exact absurd hsome (by simp)
    · refine ⟨Or.inr (by rw [pyNumeral_toDigits]; rfl), fun hmem => ?_⟩
      exact absurd (pyReserved_ident _ hmem) (by simp [isIdent_toDigits])
  unfold pyEval
  rw [if_neg, if_neg]
  · rw [sumText, lex_fillIn, operands_fill σ (lex_proper ..) hops, Option.bind_some, sumOf_fill]
    intro n
    rw [pyNumeral_toDigits, Option.map_some]
  · rw [List.any_eq_true]
    rintro ⟨w, hw, hmem⟩
    exact (hnot w hw).2 (by simpa using hmem)
  · rw [List.any_eq_true]
    rintro ⟨w, hw, hbad⟩
    rcases (hnot w hw).1 with hid | hnum
    · simp [hid] at hbad
    · simp [Option.isNone_iff_eq_none, Option.isSome_iff_ne_none.mp hnum] at hbad

/-- Every identifier with a value, which is 0 if it is unknown. -/
def zeroed (σ : Table Text ℤ) : Table Text ℤ :=
  fun w => if isIdent w then some ((σ w).getD 0) else none

theorem zeroed_named (σ : Table Text ℤ) : Named (zeroed σ) := by
  intro w v hv
  unfold zeroed at hv
  split at hv
  · assumption
  · exact absurd hv (by simp)

theorem zeroIdents_fillIn (hσ : Named σ) (text : Text) :
    zeroIdents (fillIn σ text) = fillIn (zeroed σ) text := by
  unfold zeroIdents fillIn
  rw [subst_subst_fixed fun w t ht => ?_]
  · refine subst_congr fun w _ => ?_
    unfold zeroed
    by_cases hid : isIdent w = true
    · rw [if_pos hid, if_pos hid]
      cases σ w <;> rfl
    · rw [if_neg hid, if_neg hid, hσ.none_of (by simpa using hid)]
      rfl
  · obtain ⟨v, -, rfl⟩ := Option.map_eq_some_iff.mp ht
    exact subst_str fun u hu => if_neg (by simp [hu])

theorem mem_refs : w ∈ refs value ↔ w ∈ words value ∧ isIdent w = true := List.mem_filter

theorem readable_iff : readable value = true ↔ (parseLiteral value).isSome ∨ ¬ Malformed value := by
  unfold readable Malformed
  rw [Bool.or_eq_true, List.all_eq_true]
  refine or_congr_right ⟨?_, fun h w hw => ?_⟩
  · rintro h ⟨w, hw, hid, hnum⟩
    have hok := h w hw
    simp [hid, hnum] at hok
  · by_contra hbad
    rw [Bool.or_eq_true, not_or] at hbad
    exact h ⟨w, hw, by simpa using hbad.1, by simpa using hbad.2⟩

/-- A body with a literal that cannot be read has no value. -/
theorem evalBody_unreadable (other : Text → Option (Option Int)) (hsum : IsSum names value)
    (hσ : Named σ) (h : readable value = false) : evalBody other σ value = none := by
  obtain ⟨⟨l, hops, -⟩, -⟩ := hsum
  have hnot : ¬ ((parseLiteral value).isSome ∨ ¬ Malformed value) := by
    rw [← readable_iff, h]
    simp
  rw [not_or, not_not] at hnot
  have hlit : parseLiteral value = none := by simpa using hnot.1
  unfold evalBody
  rw [hlit, zeroIdents_fillIn hσ, pyEval_malformed other hσ hops hnot.2,
    pyEval_malformed other (zeroed_named σ) hops hnot.2]
  rfl

theorem mem_words_of (hops : operands (some 1) (lex isWordChar value) = some l)
    (hw : w ∈ l.map Prod.snd) : w ∈ words value := by
  rwa [words_of_operands hops]

/-- With the values of all identifiers, the evaluation gives the sum. -/
theorem pyEval_known (other : Text → Option (Option Int)) {R : Text → ℤ}
    (hops : operands (some 1) (lex isWordChar value) = some l) (hok : ∀ p ∈ l, IsOperand names p)
    (hmal : ¬ Malformed value) (hσ : Named σ) (hid : ∀ w ∈ refs value, σ w = some (R w)) :
    pyEval other (fillIn σ value) = some (some (constSum l + ((refs value).map R).sum)) := by
  have hknown : ∀ w ∈ l.map Prod.snd, isIdent w = true → σ w = some (R w) := fun w hw hwid =>
    hid w (mem_refs.mpr ⟨mem_words_of hops hw, hwid⟩)
  have hlit : ∀ w ∈ l.map Prod.snd, ∀ n, cLiteral w = some n →
      (σ w).or ((pyNumeral w).map fun n : Nat => (n : Int)) = some (n : Int) := by
    intro w hw n hn
    have hnot := cLiteral_not_ident (w := w) (by rw [hn]; rfl)
    obtain ⟨m, hm⟩ : ∃ m, pyNumeral w = some m := by
      rw [← Option.isSome_iff_exists]
      by_contra hbad
      exact hmal ⟨w, mem_words_of hops hw, hnot, by simpa using hbad⟩
    rw [hσ.none_of hnot, Option.none_or, hm, Option.map_some, pyNumeral_cLiteral hm hn]
  have hres : ∀ w ∈ words value, w ∈ pyReserved → (σ w).isSome := by
    intro w hw hmem
    rw [hid w (mem_refs.mpr ⟨hw, pyReserved_ident w hmem⟩)]
    rfl
  rw [pyEval_fillIn other hops hmal hres, sumOf_operands hok
    (fun w hw hwid => by rw [hknown w hw hwid, Option.some_or]) hlit, Option.map_some, refs,
    words_of_operands hops]

/-- **The value of a body** that can be read: what is unknown counts as 0. -/
theorem evalBody_readable (other : Text → Option (Option Int)) (hsum : IsSum names value)
    (hstrip : strip value = value) (hσ : Named σ) (h : readable value = true)
    (hres : ∀ w ∈ refs value, w ∈ pyReserved → (σ w).isSome) :
    evalBody other σ value = some (constOf value + refSum (refs value) σ) := by
  obtain ⟨⟨l, hops, hok⟩, -⟩ := hsum
  have hconst : constOf value = constSum l := by rw [constOf, hops, Option.getD_some]
  rw [hconst, refSum]
  cases hlit : parseLiteral value with
  | some v =>
      obtain ⟨s, w, n, rfl, hn, rfl⟩ := parseLiteral_spec hstrip hops hok hlit
      have hnot : ¬ isIdent w = true := by simp [cLiteral_not_ident (w := w) (by rw [hn]; rfl)]
      rw [evalBody, hlit, Option.some_or, constSum_cons, if_neg hnot, hn, refs,
        words_of_operands hops, List.map_cons, List.filter_cons_of_neg hnot]
      simp [constSum]
  | none =>
      have hmal : ¬ Malformed value := by
        rcases readable_iff.mp h with hsome | hmal
        · rw [hlit] at hsome
          exact absurd hsome (by simp)
        · exact hmal
      by_cases hknown : ∀ w ∈ refs value, (σ w).isSome
      · have hfirst := pyEval_known other (R := fun y => (σ y).getD 0) hops hok hmal hσ
          fun w hw => by
            obtain ⟨v, hv⟩ := Option.isSome_iff_exists.mp (hknown w hw)
            rw [hv, Option.getD_some]
        rw [evalBody, hlit, hfirst]
        rfl
      · -- the first attempt fails, and the second one has 0 for what is unknown
        rw [not_forall] at hknown
        obtain ⟨w, hw⟩ := hknown
        rw [Classical.not_imp, Option.not_isSome_iff_eq_none] at hw
        obtain ⟨hw, hnone⟩ := hw
        obtain ⟨hword, hid⟩ := mem_refs.mp hw
        have hfirst : pyEval other (fillIn σ value) = none := by
          rw [words_of_operands hops] at hword
          rw [pyEval_fillIn other hops hmal fun u hu hmem =>
            hres u (mem_refs.mpr ⟨hu, pyReserved_ident u hmem⟩) hmem, sumOf_none hword,
            Option.map_none]
          rw [hnone, pyNumeral_ident hid]
          rfl
        have hsecond := pyEval_known other hops hok hmal (zeroed_named σ) (R := fun y =>
          (σ y).getD 0) fun w hw => if_pos (mem_refs.mp hw).2
        rw [evalBody, hlit, hfirst, zeroIdents_fillIn hσ, hsecond]
        rfl

end VibeRtos.Features
