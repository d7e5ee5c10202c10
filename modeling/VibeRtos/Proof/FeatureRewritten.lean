import VibeRtos.Proof.FeatureConsistency
import VibeRtos.Proof.FeatureMarks

/-!
# Other constants under the same shapes

Every body can be written anew with a chosen constant, 0 or 1, and the same references, so that
the shape of the definition stays the same (`shape_rewriteBody`). Where the shapes are not
settled, a choice that depends on which definitions are the last ones, and on which can be
evaluated, makes a header that is not consistent (`inconsistent_of_unsettled`).
-/

namespace VibeRtos.Features

open Words Sweeps

variable {other : Text → Option (Option Int)} {ds pre post : List Define} {d : Define}
  {names ws : List Text} {lit w : Text} {v : ℤ} {works : Bool} {s : Shape}

/-! ## Sums of words -/

/-- Words with a plus in between. -/
def plusText : List Text → Text → Text
  | [], lit => lit
  | w :: ws, lit => w ++ '+' :: plusText ws lit

/-- A run of word characters. -/
def IsWord (w : Text) : Prop := w ≠ [] ∧ ∀ c ∈ w, isWordChar c = true

theorem isWord_of_all (h : w ≠ [] ∧ w.all isWordChar = true) : IsWord w :=
  ⟨h.1, List.all_eq_true.mp h.2⟩

theorem lex_plusText_cons (hw : IsWord w) (ws : List Text) (lit : Text) :
    lex isWordChar (plusText (w :: ws) lit)
      = .word w :: .other '+' :: lex isWordChar (plusText ws lit) := by
  rw [plusText, lex_append_other (by decide), lex_word hw.1 hw.2]
  rfl

theorem operands_plusText (hws : ∀ w ∈ ws, IsWord w) (hlit : IsWord lit) :
    operands (some 1) (lex isWordChar (plusText ws lit))
      = some ((ws ++ [lit]).map fun w => (1, w)) := by
  induction ws with
  | nil =>
      rw [plusText, lex_word hlit.1 hlit.2]
      rfl
  | cons w ws ih =>
      rw [lex_plusText_cons (hws w List.mem_cons_self), operands, operands, if_neg (by decide),
        if_pos rfl, Option.getD_none, ih fun u hu => hws u (List.mem_cons_of_mem _ hu)]
      rfl

theorem words_plusText (hws : ∀ w ∈ ws, IsWord w) (hlit : IsWord lit) :
    words (plusText ws lit) = ws ++ [lit] := by
  rw [words_of_operands (operands_plusText hws hlit), List.map_map]
  exact List.map_id _

theorem startsWord_plusText (hws : ∀ w ∈ ws, IsWord w) (hlit : IsWord lit) :
    StartsWord (lex isWordChar (plusText ws lit)) := by
  cases ws with
  | nil =>
      rw [plusText, lex_word hlit.1 hlit.2]
      trivial
  | cons w ws =>
      rw [lex_plusText_cons (hws w List.mem_cons_self)]
      trivial

/-- No two operators touch. -/
theorem apart_plusText (hws : ∀ w ∈ ws, IsWord w) (hlit : IsWord lit) :
    ∀ (a b : List (Tok Char)) (c e : Char),
      lex isWordChar (plusText ws lit) ≠ a ++ .other c :: .other e :: b := by
  induction ws with
  | nil =>
      intro a b c e heq
      rw [plusText, lex_word hlit.1 hlit.2] at heq
      have hlen := congrArg List.length heq
      rw [List.length_append] at hlen
      simp only [List.length_cons, List.length_nil] at hlen
      omega
  | cons w ws ih =>
      intro a b c e heq
      have hws' : ∀ u ∈ ws, IsWord u := fun u hu => hws u (List.mem_cons_of_mem _ hu)
      rw [lex_plusText_cons (hws w List.mem_cons_self)] at heq
      cases a with
      | nil => exact absurd (List.cons.inj heq).1 (by simp)
      | cons t a =>
          have htail := (List.cons.inj heq).2
          cases a with
          | nil =>
              have hstart := startsWord_plusText hws' hlit
              rw [(List.cons.inj htail).2] at hstart
              exact hstart
          | cons t a => exact ih hws' a b c e (List.cons.inj htail).2

theorem not_infix_plusText (hws : ∀ w ∈ ws, IsWord w) (hlit : IsWord lit) {c : Char}
    (hc : isWordChar c = false) : ¬ [c, c] <:+: plusText ws lit := by
  rintro ⟨a, b, heq⟩
  have hlex := congrArg (lex isWordChar) heq
  rw [List.append_assoc] at hlex
  change lex isWordChar (a ++ c :: c :: b) = _ at hlex
  rw [lex_append_other hc, lex_other hc] at hlex
  exact apart_plusText hws hlit _ _ _ _ hlex.symm

theorem mem_plusText {c : Char} (hc : c ∈ plusText ws lit) :
    c = '+' ∨ c ∈ lit ∨ ∃ w ∈ ws, c ∈ w := by
  induction ws with
  | nil => exact Or.inr (Or.inl hc)
  | cons w ws ih =>
      rw [plusText, List.mem_append, List.mem_cons] at hc
      rcases hc with hc | hc | hc
      · exact Or.inr (Or.inr ⟨w, List.mem_cons_self, hc⟩)
      · exact Or.inl hc
      · rcases ih hc with hc | hc | ⟨u, hu, hc⟩
        · exact Or.inl hc
        · exact Or.inr (Or.inl hc)
        · exact Or.inr (Or.inr ⟨u, List.mem_cons_of_mem _ hu, hc⟩)

theorem not_whitespace {c : Char} (hc : isWordChar c = true) : c.isWhitespace = false := by
  by_contra hws
  rw [Bool.not_eq_false] at hws
  simp only [Char.isWhitespace, Bool.or_eq_true, decide_eq_true_eq] at hws
  rcases hws with ((rfl | rfl) | rfl) | rfl <;> exact absurd hc (by decide)

/-- There is nothing to strip from a text without white space. -/
theorem strip_eq {text : Text} (h : ∀ c ∈ text, c.isWhitespace = false) : strip text = text := by
  have hdrop : text.dropWhile Char.isWhitespace = text := by
    cases text with
    | nil => rfl
    | cons c cs => rw [List.dropWhile_cons_of_neg (by simp [h c List.mem_cons_self])]
  rw [strip, hdrop, List.rdropWhile_eq_self_iff]
  intro hne
  simp [h _ (List.getLast_mem hne)]

theorem strip_plusText (hws : ∀ w ∈ ws, IsWord w) (hlit : IsWord lit) :
    strip (plusText ws lit) = plusText ws lit := by
  refine strip_eq fun c hc => ?_
  rcases mem_plusText hc with rfl | hc | ⟨w, hw, hc⟩
  · decide
  · exact not_whitespace (hlit.2 c hc)
  · exact not_whitespace ((hws w hw).2 c hc)

/-! ## Rewritten bodies -/

/-- A numeral for 0 or 1; one that cannot be evaluated has a suffix. -/
def bitLiteral (works : Bool) (v : ℤ) : Text :=
  (if v = 0 then '0' else '1') :: if works then [] else ['U']

/-- What is the case for all four numerals. -/
theorem bitLiteral_cases {P : Bool → ℤ → Text → Prop} (h00 : P false 0 ['0', 'U'])
    (h01 : P false 1 ['1', 'U']) (h10 : P true 0 ['0']) (h11 : P true 1 ['1']) (works : Bool)
    (hv : v = 0 ∨ v = 1) : P works v (bitLiteral works v) := by
  cases works <;> rcases hv with rfl | rfl <;> assumption

theorem bitLiteral_word (works : Bool) (hv : v = 0 ∨ v = 1) : IsWord (bitLiteral works v) :=
  bitLiteral_cases (P := fun _ _ w => IsWord w) (isWord_of_all (by decide))
    (isWord_of_all (by decide)) (isWord_of_all (by decide)) (isWord_of_all (by decide)) works hv

theorem bitLiteral_cLiteral (works : Bool) (hv : v = 0 ∨ v = 1) :
    cLiteral (bitLiteral works v) = some v.toNat :=
  bitLiteral_cases (P := fun _ v w => cLiteral w = some v.toNat) (by decide) (by decide) (by decide)
    (by decide) works hv

theorem bitLiteral_reads (works : Bool) (hv : v = 0 ∨ v = 1) :
    (pyNumeral (bitLiteral works v)).isSome = works
      ∧ (parseLiteral (bitLiteral works v)).isSome = works
      ∧ classifyType (bitLiteral works v) none = .raw :=
  bitLiteral_cases (P := fun works _ w => (pyNumeral w).isSome = works
    ∧ (parseLiteral w).isSome = works ∧ classifyType w none = .raw) (by decide) (by decide)
    (by decide) (by decide) works hv

/-- The words of the new body in front of the numeral; there is one at least if the definition
is not a literal. -/
def leadingWords (s : Shape) : List Text := s.refs ++ if s.late then [['0']] else []

/-- A body of the given shape with the constant `v`. -/
def rewriteBody (s : Shape) (v : ℤ) : Text := plusText (leadingWords s) (bitLiteral s.works v)

/-- A definition in which only the constants changed. -/
def Define.rewrite (d : Define) (v : ℤ) : Define := { d with value := rewriteBody d.shape v }

section Rewrite

variable {value : Text}

theorem ref_word {y : Text} (hy : y ∈ refs value) : IsWord y := by
  obtain ⟨hw, -⟩ := mem_refs.mp hy
  exact (lex_proper isWordChar value).word_of_mem (mem_words.mp hw)

theorem leadingWords_word (d : Define) : ∀ w ∈ leadingWords d.shape, IsWord w := by
  intro w hw
  rcases List.mem_append.mp hw with hw | hw
  · exact ref_word hw
  · split at hw
    · rw [List.mem_singleton.mp hw]
      exact isWord_of_all (by decide)
    · exact absurd hw (by simp)

theorem words_rewrite (d : Define) (hv : v = 0 ∨ v = 1) : words (rewriteBody d.shape v)
    = leadingWords d.shape ++ [bitLiteral d.shape.works v] :=
  words_plusText (leadingWords_word d) (bitLiteral_word _ hv)

theorem bitLiteral_not_ident (works : Bool) (hv : v = 0 ∨ v = 1) :
    isIdent (bitLiteral works v) = false :=
  cLiteral_not_ident (by rw [bitLiteral_cLiteral works hv]; rfl)

theorem refs_rewrite (d : Define) (hv : v = 0 ∨ v = 1) :
    refs (rewriteBody d.shape v) = refs d.value := by
  have hrefs : (refs d.value).filter isIdent = refs d.value :=
    List.filter_eq_self.mpr fun y hy => (mem_refs.mp hy).2
  have hnil : (if d.shape.late then [['0']] else []).filter isIdent = [] := by
    split <;> rfl
  rw [refs, words_rewrite d hv, leadingWords, List.filter_append, List.filter_append, hnil,
    List.filter_cons_of_neg (by simp [bitLiteral_not_ident _ hv]), List.filter_nil, List.append_nil,
    List.append_nil]
  exact hrefs

theorem isSum_rewrite (hsum : IsSum names d.value) (hv : v = 0 ∨ v = 1) :
    IsSum names (rewriteBody d.shape v) := by
  have hws := leadingWords_word d
  have hlit := bitLiteral_word d.shape.works hv
  refine ⟨⟨_, operands_plusText hws hlit, fun p hp => ?_⟩, not_infix_plusText hws hlit (by decide),
    not_infix_plusText hws hlit (by decide)⟩
  obtain ⟨w, hw, rfl⟩ := List.mem_map.mp hp
  rcases List.mem_append.mp hw with hw | hw
  · rcases List.mem_append.mp hw with hw | hw
    · exact Or.inl ⟨(mem_refs.mp hw).2, rfl, hsum.refs w hw⟩
    · split at hw
      · rw [List.mem_singleton.mp hw]
        exact Or.inr ⟨by decide, Or.inl rfl⟩
      · exact absurd hw (by simp)
  · rw [List.mem_singleton.mp hw]
    exact Or.inr ⟨by rw [bitLiteral_cLiteral _ hv]; rfl, Or.inl rfl⟩

theorem constSum_append (l l' : List (Int × Text)) :
    constSum (l ++ l') = constSum l + constSum l' := by
  simp [constSum]

/-- The constant of the new body is the one that was chosen. -/
theorem constOf_rewrite (d : Define) (hv : v = 0 ∨ v = 1) :
    constOf (rewriteBody d.shape v) = v := by
  have hws := leadingWords_word d
  have hlit := bitLiteral_word d.shape.works hv
  have hrefs : constSum ((refs d.value).map fun w => (1, w)) = 0 := by
    refine List.sum_eq_zero fun u hu => ?_
    rw [List.map_map] at hu
    obtain ⟨y, hy, rfl⟩ := List.mem_map.mp hu
    exact if_pos (mem_refs.mp hy).2
  have hzero : constSum ((if d.shape.late then [['0']] else []).map fun w => (1, w)) = 0 := by
    split <;> rfl
  have hbit : constSum ([bitLiteral d.shape.works v].map fun w => (1, w)) = v := by
    rw [List.map_cons, List.map_nil, constSum_cons,
      if_neg (by simp [bitLiteral_not_ident _ hv]), bitLiteral_cLiteral _ hv, Option.getD_some]
    rcases hv with rfl | rfl <;> rfl
  rw [constOf, rewriteBody, operands_plusText hws hlit, Option.getD_some, leadingWords,
    List.map_append, List.map_append, constSum_append, constSum_append, hbit, hzero]
  change constSum ((refs d.value).map fun w => (1, w)) + 0 + v = v
  rw [hrefs]
  omega

theorem strip_rewrite (d : Define) (hv : v = 0 ∨ v = 1) :
    strip (rewriteBody d.shape v) = rewriteBody d.shape v :=
  strip_plusText (leadingWords_word d) (bitLiteral_word _ hv)

/-- A sum of more than one word is no single literal. -/
theorem parseLiteral_rewrite (hsum : IsSum names d.value) (hv : v = 0 ∨ v = 1)
    (hne : leadingWords d.shape ≠ []) : parseLiteral (rewriteBody d.shape v) = none := by
  cases h : parseLiteral (rewriteBody d.shape v) with
  | none => rfl
  | some u =>
      obtain ⟨⟨l, hops, hok⟩, -⟩ := isSum_rewrite hsum hv
      obtain ⟨s, w, n, rfl, -, -⟩ := parseLiteral_spec (strip_rewrite d hv) hops hok h
      have hwords := words_of_operands hops
      rw [words_rewrite d hv] at hwords
      have hlen := congrArg List.length hwords
      have hpos := List.length_pos_of_ne_nil hne
      simp only [List.length_map, List.length_append, List.length_cons, List.length_nil] at hlen
      omega

/-- The new body can be evaluated where the old one can. -/
theorem readable_rewrite (hsum : IsSum names d.value) (hv : v = 0 ∨ v = 1) :
    readable (rewriteBody d.shape v) = d.shape.works := by
  obtain ⟨hnum, hparse, -⟩ := bitLiteral_reads d.shape.works hv
  have hleading :
      (leadingWords d.shape).all (fun w => isIdent w || (pyNumeral w).isSome) = true := by
    rw [List.all_eq_true]
    intro w hw
    rcases List.mem_append.mp hw with hw | hw
    · rw [(mem_refs.mp hw).2, Bool.true_or]
    · split at hw
      · rw [List.mem_singleton.mp hw]
        decide
      · exact absurd hw (by simp)
  rw [readable, words_rewrite d hv, List.all_append, hleading, Bool.true_and, List.all_cons,
    bitLiteral_not_ident _ hv, hnum, List.all_nil, Bool.and_true, Bool.false_or]
  by_cases hne : leadingWords d.shape = []
  · rw [rewriteBody, hne, plusText, hparse, Bool.or_self]
  · rw [parseLiteral_rewrite hsum hv hne]
    rfl

/-- The new body is evaluated in the same pass. -/
theorem late_rewrite (hsum : IsSum names d.value) (hstrip : strip d.value = d.value)
    (hv : v = 0 ∨ v = 1) : isLate (recordDefine (d.rewrite v)) = d.shape.late := by
  cases hguard : d.guard with
  | some g =>
      have htype : ∀ e : Define, e.guard = some g → isLate (recordDefine e) = true := by
        intro e he
        rw [isLate, recordDefine, he]
        rfl
      rw [htype (d.rewrite v) hguard]
      exact (htype d hguard).symm
  | none =>
      have hrec :
          (recordDefine (d.rewrite v)).type = classifyType (rewriteBody d.shape v) none := by
        rw [← hguard]
        rfl
      cases hlate : d.shape.late with
      | false =>
          have hnil : leadingWords d.shape = [] := by
            rw [leadingWords, itemOf_raw hsum hstrip hlate, hlate]
            rfl
          rw [rewriteBody, hnil, plusText, (bitLiteral_reads _ hv).2.2] at hrec
          rw [isLate, hrec]
          rfl
      | true =>
          have hne : leadingWords d.shape ≠ [] := by simp [leadingWords, hlate]
          have hpat : ¬ literalPat (rewriteBody d.shape v) = true := by
            intro hpat
            have hsome := parseLiteral_of_pat (strip_rewrite d hv) hpat
            rw [parseLiteral_rewrite hsum hv hne] at hsome
            exact absurd hsome (by simp)
          -- the plus behind the first word makes it an expression
          have hplus : (exprOps.any fun op => op <:+: rewriteBody d.shape v) = true := by
            obtain ⟨w, ws, hws⟩ := List.exists_cons_of_ne_nil hne
            refine List.any_eq_true.mpr ⟨['+'], by decide, decide_eq_true ⟨w,
              plusText ws (bitLiteral d.shape.works v), ?_⟩⟩
            rw [rewriteBody, hws, plusText, List.append_assoc]
            rfl
          have htype : classifyType (rewriteBody d.shape v) none = .expression := by
            rw [classifyType, if_neg (by simp), if_neg (isSum_rewrite hsum hv).ne_nil]
            simp only [strip_rewrite d hv]
            rw [if_neg hpat, if_pos hplus]
          rw [isLate, hrec, htype]
          rfl

theorem shape_rewrite (hsum : IsSum names d.value) (hstrip : strip d.value = d.value)
    (hv : v = 0 ∨ v = 1) : (d.rewrite v).shape = d.shape := by
  change Shape.mk d.name (isLate (recordDefine (d.rewrite v))) (readable (rewriteBody d.shape v))
    (refs (rewriteBody d.shape v)) = _
  rw [late_rewrite hsum hstrip hv, readable_rewrite hsum hv, refs_rewrite d hv]
  rfl

end Rewrite

/-! ## Rewritten lists -/

/-- All definitions with new constants. -/
def rewriteAll (c : Bool → Bool → ℤ) : List Define → List Define
  | [] => []
  | d :: ds => d.rewrite (c (decide (∀ e ∈ ds, e.name ≠ d.name)) d.shape.works) :: rewriteAll c ds

/-- What can be said of a single definition. -/
def Fits (names : List Text) (ds : List Define) : Prop :=
  ∀ d ∈ ds, IsSum names d.value ∧ strip d.value = d.value

section RewriteAll

variable {c : Bool → Bool → ℤ}

theorem mem_rewriteAll {e : Define} (he : e ∈ rewriteAll c ds) :
    ∃ d ∈ ds, ∃ last, e = d.rewrite (c last d.shape.works) := by
  induction ds with
  | nil => exact absurd he (by simp [rewriteAll])
  | cons d ds ih =>
      rcases List.mem_cons.mp he with rfl | he
      · exact ⟨d, List.mem_cons_self, _, rfl⟩
      · obtain ⟨f, hf, last, rfl⟩ := ih he
        exact ⟨f, List.mem_cons_of_mem _ hf, last, rfl⟩

theorem shape_rewriteAll (hc : IsBit c) (h : Fits names ds) :
    (rewriteAll c ds).map Define.shape = ds.map Define.shape := by
  induction ds with
  | nil => rfl
  | cons d ds ih =>
      have hd := h d List.mem_cons_self
      rw [rewriteAll, List.map_cons, List.map_cons, shape_rewrite hd.1 hd.2 (hc _ _),
        ih fun e he => h e (List.mem_cons_of_mem _ he)]

theorem name_rewriteAll (c : Bool → Bool → ℤ) (ds : List Define) :
    (rewriteAll c ds).map Define.name = ds.map Define.name := by
  induction ds with
  | nil => rfl
  | cons d ds ih => rw [rewriteAll, List.map_cons, List.map_cons, ih]; rfl

theorem names_rewriteAll (c : Bool → Bool → ℤ) (ds : List Define) (x : Text) :
    (∀ f ∈ (rewriteAll c ds).map (itemOf other), f.shape.name ≠ x) ↔ ∀ e ∈ ds, e.name ≠ x := by
  have hitems : (∀ f ∈ (rewriteAll c ds).map (itemOf other), f.shape.name ≠ x)
      ↔ ∀ y ∈ (rewriteAll c ds).map Define.name, y ≠ x := by
    rw [List.forall_mem_map, List.forall_mem_map]
    rfl
  rw [hitems, name_rewriteAll, List.forall_mem_map]

/-- The new constants are as they were chosen. -/
theorem marked_rewriteAll (hc : IsBit c) (h : Fits names ds) :
    Marked c ((rewriteAll c ds).map (itemOf other)) := by
  induction ds with
  | nil =>
      intro pre m post heq
      exact absurd heq (by simp [rewriteAll])
  | cons d ds ih =>
      have hd := h d List.mem_cons_self
      intro pre m post heq
      rw [rewriteAll, List.map_cons] at heq
      cases pre with
      | nil =>
          obtain ⟨rfl, rfl⟩ := List.cons.inj heq
          have hbit := hc (decide (∀ e ∈ ds, e.name ≠ d.name)) d.shape.works
          have hconst := constOf_rewrite d hbit
          have hworks := congrArg Shape.works (shape_rewrite hd.1 hd.2 hbit)
          refine hconst.trans ?_
          rw [decide_eq_decide.mpr (names_rewriteAll c ds _)]
          exact congrArg (c _) hworks.symm
      | cons p pre =>
          exact ih (fun e he => h e (List.mem_cons_of_mem _ he)) pre m post (List.cons.inj heq).2

theorem InDomain.fits (hdom : InDomain ds) : Fits (ds.map Define.name) ds :=
  fun d hd => ⟨hdom.bodies d hd, hdom.stripped d hd⟩

/-- The domain is kept. -/
theorem InDomain.rewriteAll (hdom : InDomain ds) (hc : IsBit c) : InDomain (rewriteAll c ds) where
  names e he := by
    obtain ⟨d, hd, last, rfl⟩ := mem_rewriteAll he
    exact hdom.names d hd
  stripped e he := by
    obtain ⟨d, hd, last, rfl⟩ := mem_rewriteAll he
    exact strip_rewrite d (hc _ _)
  bodies e he := by
    obtain ⟨d, hd, last, rfl⟩ := mem_rewriteAll he
    rw [name_rewriteAll]
    exact isSum_rewrite (hdom.bodies d hd) (hc _ _)
  acyclic := by
    obtain ⟨rank, hrank⟩ := hdom.acyclic
    refine ⟨rank, fun pre e post he y hy => ?_⟩
    -- the same place in the old list, which has the same shapes
    have hlast := he.last
    rw [shape_rewriteAll hc hdom.fits] at hlast
    obtain ⟨pre', d, post', hd, -, hshape⟩ := exists_define hlast
    have hname : d.name = e.name := congrArg Shape.name hshape
    have hrefs : refs d.value = refs e.value := congrArg Shape.refs hshape
    rw [← hname]
    exact hrank pre' d post' hd y (hrefs ▸ hy)

end RewriteAll

/-! ## Where the shapes are not settled -/

theorem itemOf_plain (hsum : IsSum names d.value) (hstrip : strip d.value = d.value)
    (hnames : ∀ n ∈ names, n ∉ pyReserved) : (itemOf other d).Plain where
  broken hw σ := evalBody_unreadable other hsum (idents_named σ) hw
  plain hw σ := by
    refine (evalBody_readable other hsum hstrip (idents_named σ) hw fun w hw hmem => ?_).trans ?_
    · exact absurd hmem (hnames w (hsum.refs w hw))
    · rw [refSum_idents]
      rfl
  raw := itemOf_raw hsum hstrip

theorem InDomain.plain (other : Text → Option (Option Int)) (hdom : InDomain ds)
    (hnames : ∀ d ∈ ds, d.name ∉ pyReserved) :
    ∀ m ∈ ds.map (itemOf other), m.Plain := by
  intro m hm
  obtain ⟨d, hd, rfl⟩ := List.mem_map.mp hm
  refine itemOf_plain (hdom.bodies d hd) (hdom.stripped d hd) fun n hn => ?_
  obtain ⟨e, he, rfl⟩ := List.mem_map.mp hn
  exact hnames e he

/-- In a consistent header without a name of Python's own, every last definition of the sweeps
has its expansion as its value. -/
theorem Consistent.late_value (h : Consistent other ds) (hdom : InDomain ds)
    (hnames : ∀ d ∈ ds, d.name ∉ pyReserved) {R : Text → ℤ}
    (hR : ∀ y ∈ ds.map Define.name, Expands (source ds) y (R y)) (hd : LastDefine ds pre d post)
    (hlate : d.shape.late = true) (hworks : d.shape.works = true) : (itemOf other d).eval
      (seenAt (ds.map (itemOf other)) (pre.map (itemOf other)) (maxIters - 1))
      = some (R d.name) := by
  have hval := (hdom.plain other hnames _ (List.mem_map_of_mem hd.mem)).plain hworks
    (seenAt (ds.map (itemOf other)) (pre.map (itemOf other)) (maxIters - 1))
  rw [hval, h.emitted hR hd.mem (emitted_late hdom hd hlate hval)]

section Unsettled

variable {c : Bool → Bool → ℤ}

theorem reserved_rewriteAll (hnames : ∀ d ∈ ds, d.name ∉ pyReserved) :
    ∀ d ∈ rewriteAll c ds, d.name ∉ pyReserved := by
  intro e he
  obtain ⟨d, hd, last, rfl⟩ := mem_rewriteAll he
  exact hnames d hd

/-- A choice of constants under which a last definition has not its expansion as its value. -/
theorem inconsistent_of_choice (hdom : InDomain ds) (hnames : ∀ d ∈ ds, d.name ∉ pyReserved)
    (hc : IsBit c) {ps : List Shape} (hs : Last (ds.map Define.shape) ps s)
    (hlate : s.late = true) (hworks : s.works = true)
    (hwrong : ∀ (ms : List Item) (rank : Text → Nat) (R : Text → ℤ), (∀ m ∈ ms, m.Plain) →
      Ranked ms rank → Solves ms R → Marked c ms → ms.map Item.shape = ds.map Define.shape →
      ∀ pre m post, LastItem ms pre m post → pre.map Item.shape = ps → m.shape = s →
      m.eval (seenAt ms pre (maxIters - 1)) ≠ some (R m.shape.name)) :
    ∃ ds', InDomain ds' ∧ ds'.map Define.shape = ds.map Define.shape ∧ ¬ Consistent other ds' := by
  have hdom' := hdom.rewriteAll hc
  have hshape := shape_rewriteAll hc hdom.fits
  have hnames' := reserved_rewriteAll (c := c) hnames
  refine ⟨rewriteAll c ds, hdom', hshape, fun hcons => ?_⟩
  -- the last definition at the place of `s` in the rewritten list
  obtain ⟨R, hR⟩ := hdom'.expansions
  obtain ⟨rank, hrank⟩ := hdom'.ranked other
  rw [← hshape] at hs
  obtain ⟨pre, d, post, hd, rfl, rfl⟩ := exists_define hs
  refine hwrong _ rank R (hdom'.plain other hnames') hrank (hdom'.solves other hR)
    (marked_rewriteAll hc hdom.fits) ((shape_items other _).trans hshape) _ _ _ (hd.item other)
    (shape_items other pre) rfl ?_
  exact hcons.late_value hdom' hnames' hR hd hlate hworks

/-- A reference that does not see the last definition. -/
theorem inconsistent_of_unseen (hdom : InDomain ds) (hnames : ∀ d ∈ ds, d.name ∉ pyReserved)
    {ps : List Shape} (hs : Last (ds.map Define.shape) ps s) (hlate : s.late = true)
    (hworks : s.works = true) (hy : w ∈ s.refs) (h : ¬ SeesLast (ds.map Define.shape) ps w) :
    ∃ ds', InDomain ds' ∧ ds'.map Define.shape = ds.map Define.shape ∧ ¬ Consistent other ds' := by
  have hdef : ∃ before e, Last (ds.map Define.shape) before e ∧ e.name = w := by
    obtain ⟨pre, d, post, hd, rfl, rfl⟩ := exists_define hs
    have hmem := (hdom.bodies d hd.mem).refs w hy
    obtain ⟨before, e, after, he, rfl⟩ := exists_lastDefine hmem
    exact ⟨_, _, he.last, rfl⟩
  rcases stale_or_broken hdef h with hstale | hbroken
  · refine inconsistent_of_choice hdom hnames markStale_bit hs hlate hworks ?_
    intro ms rank R hplain hrank hR hmark hshape pre m post hm hpre hms
    refine stale_value (y := w) hplain hrank hR hmark hm (hms ▸ hworks) (hms ▸ hy) ?_
    rw [hshape, hpre]
    exact hstale
  · refine inconsistent_of_choice hdom hnames markBroken_bit hs hlate hworks ?_
    intro ms rank R hplain hrank hR hmark hshape pre m post hm hpre hms
    refine broken_value (y := w) hplain hrank hR hmark hm (hms ▸ hworks) (hms ▸ hy) ?_
    intro u hu
    exact hbroken u.shape (hshape ▸ List.mem_map_of_mem hu)

/-- A chain of references with as many delays as there are sweeps. -/
theorem inconsistent_of_delay (hdom : InDomain ds) (hnames : ∀ d ∈ ds, d.name ∉ pyReserved)
    (hsees : ∀ ps s, Last (ds.map Define.shape) ps s → s.late = true → s.works = true →
      ∀ y ∈ s.refs, SeesLast (ds.map Define.shape) ps y) {x : Text} {n : Nat}
    (hn : Delay (ds.map Define.shape) x n) (hle : maxIters ≤ n) :
    ∃ ds', InDomain ds' ∧ ds'.map Define.shape = ds.map Define.shape ∧ ¬ Consistent other ds' := by
  have hpos : 0 < maxIters := by decide
  cases hn with
  | zero => omega
  | @step ps bs s t n hs hlate hworks ht htlate href hn =>
      refine inconsistent_of_choice hdom hnames markLast_bit hs hlate hworks ?_
      intro ms rank R hplain hrank hR hmark hshape pre m post hm hpre hms heq
      have hsees' : SeesLasts ms := by
        intro pre m post hm hl hw y hy
        rw [hshape]
        exact hsees _ _ (hshape ▸ hm.last) hl hw y hy
      obtain ⟨v, hv, -, hlt⟩ := delay_bound hplain hrank hR hmark hsees' _ rfl hm
        (hms ▸ hlate) (hms ▸ hworks) (maxIters - 1)
      rw [heq] at hv
      have hchain := Delay.step hs hlate hworks ht htlate href hn
      have hless := hlt ⟨_, by rw [hshape, hms]; exact hchain, by omega⟩
      have hsame := Option.some.inj hv
      omega

/-- **Where the condition fails**, so does the property for some choice of the constants. -/
theorem inconsistent_of_unsettled (hdom : InDomain ds) (hnames : ∀ d ∈ ds, d.name ∉ pyReserved)
    (h : ¬ Settled (ds.map Define.shape)) :
    ∃ ds', InDomain ds' ∧ ds'.map Define.shape = ds.map Define.shape ∧ ¬ Consistent other ds' := by
  by_contra hall
  refine h ⟨fun ps s hs hlate hworks y hy => ?_, fun x n hn => ?_⟩
  · by_contra hnot
    exact hall (inconsistent_of_unseen hdom hnames hs hlate hworks hy hnot)
  · by_contra hle
    refine hall (inconsistent_of_delay hdom hnames (fun ps s hs hlate hworks y hy => ?_) hn
      (by omega))
    by_contra hnot
    exact hall (inconsistent_of_unseen hdom hnames hs hlate hworks hy hnot)

end Unsettled

/-! ## The result -/

/-- **Last definition wins, where the shapes are settled.** Then the emitted values are the
expansions under the last definitions, and elsewhere they are not, for some constants in bodies of
the same shapes. -/
theorem consistent_iff_settled (other : Text → Option (Option Int)) (ds : List Define)
    (hdom : InDomain ds) : (Settled (ds.map Define.shape) → Consistent other ds)
      ∧ ((∀ d ∈ ds, d.name ∉ pyReserved) → (Settled (ds.map Define.shape)
        ↔ ∀ ds', InDomain ds' → ds'.map Define.shape = ds.map Define.shape →
          Consistent other ds')) := by
  refine ⟨consistent_of_settled hdom, fun hnames => ⟨fun h ds' hdom' hshape => ?_, fun h => ?_⟩⟩
  · exact consistent_of_settled hdom' (hshape ▸ h)
  · by_contra hnot
    obtain ⟨ds', hdom', hshape, hcons⟩ := inconsistent_of_unsettled hdom hnames hnot
    exact hcons (h ds' hdom' hshape)

theorem names_of_all (h : ∀ d ∈ ds, isIdent d.name = true ∧ d.name.all isWordChar = true) :
    ∀ d ∈ ds, isIdent d.name = true ∧ ∀ c ∈ d.name, isWordChar c = true :=
  fun d hd => ⟨(h d hd).1, List.all_eq_true.mp (h d hd).2⟩

/-- A rank for all definitions is one for the last. -/
theorem acyclic_of_all (rank : Text → Nat)
    (h : ∀ d ∈ ds, ∀ y ∈ refs d.value, rank y < rank d.name) : ∃ rank : Text → Nat,
      ∀ pre d post, LastDefine ds pre d post → ∀ y ∈ refs d.value, rank y < rank d.name :=
  ⟨rank, fun _ d _ hd => h d hd.mem⟩

/-- A chain has no more delays than its rank. -/
theorem Delay.le_rank {ss : List Shape} {x : Text} {n : Nat} (rank : Text → Nat)
    (h : ∀ s ∈ ss, ∀ y ∈ s.refs, rank y < rank s.name) (hd : Delay ss x n) : n ≤ rank x := by
  induction hd with
  | zero => exact Nat.zero_le _
  | @step pre before s t n hs _ _ _ _ href _ ih =>
      obtain ⟨post, rfl, -⟩ := hs
      have hlt := h s (by simp) t.name href
      split <;> omega

/-- `B` refers to a definition further down, and `A` to a literal that is redefined. -/
def settledDefines : List Define :=
  [⟨['B'], ['A', '+', '1'], some "guard"⟩, ⟨['N'], ['3'], none⟩, ⟨['A'], ['N', '+', 'N'], none⟩,
    ⟨['N'], ['0', 'x', 'F'], none⟩]

theorem settled_settledDefines : Settled (settledDefines.map Define.shape) := by
  have hshape : settledDefines.map Define.shape
      = [⟨['B'], true, true, [['A']]⟩, ⟨['N'], false, true, []⟩,
        ⟨['A'], true, true, [['N'], ['N']]⟩, ⟨['N'], false, true, []⟩] := by decide
  rw [hshape]
  refine ⟨fun pre s hs hlate hworks y hy => ?_, fun x n hn => ?_⟩
  · obtain ⟨post, hsplit, -⟩ := hs
    rcases pre with _ | ⟨p, _ | ⟨q, _ | ⟨r, _ | ⟨t, pre⟩⟩⟩⟩
    · -- `B` comes before `A`, and nothing in front of it stores another `A`
      obtain ⟨rfl, -⟩ := List.cons.inj hsplit
      obtain rfl := List.mem_singleton.mp hy
      exact ⟨[⟨['B'], true, true, [['A']]⟩, ⟨['N'], false, true, []⟩],
        ⟨['A'], true, true, [['N'], ['N']]⟩, ⟨[⟨['N'], false, true, []⟩], rfl, by decide⟩, rfl, rfl,
        Or.inr (by simp)⟩
    · obtain ⟨-, hsplit⟩ := List.cons.inj hsplit
      obtain ⟨rfl, -⟩ := List.cons.inj hsplit
      exact absurd hlate (by simp)
    · -- the last `N` is a literal, and no sweep stores an `N`
      obtain ⟨-, hsplit⟩ := List.cons.inj hsplit
      obtain ⟨-, hsplit⟩ := List.cons.inj hsplit
      obtain ⟨rfl, -⟩ := List.cons.inj hsplit
      have hy' : y = ['N'] := by simpa using hy
      exact ⟨[⟨['B'], true, true, [['A']]⟩, ⟨['N'], false, true, []⟩,
        ⟨['A'], true, true, [['N'], ['N']]⟩], ⟨['N'], false, true, []⟩, ⟨[], rfl, by simp⟩,
        hy'.symm, rfl, by rw [hy', if_neg (by decide)]; decide⟩
    · obtain ⟨-, hsplit⟩ := List.cons.inj hsplit
      obtain ⟨-, hsplit⟩ := List.cons.inj hsplit
      obtain ⟨-, hsplit⟩ := List.cons.inj hsplit
      obtain ⟨rfl, -⟩ := List.cons.inj hsplit
      exact absurd hlate (by simp)
    · simp at hsplit
  · have hle := hn.le_rank (fun y => if y = ['N'] then 0 else if y = ['A'] then 1 else 2)
      (by decide)
    have htwo : (if x = ['N'] then 0 else if x = ['A'] then 1 else 2) ≤ 2 := by
      split_ifs <;> omega
    have hmax : maxIters = 12 := rfl
    omega

theorem consistent_iff_settled_chain : Consistent (fun _ => none) settledDefines
    ∧ ∀ ds', InDomain ds' → ds'.map Define.shape = settledDefines.map Define.shape →
      Consistent (fun _ => none) ds' := by
  have hdom : InDomain settledDefines := ⟨names_of_all (by decide), by decide, by decide,
    acyclic_of_all (fun y => if y = ['N'] then 0 else if y = ['A'] then 1 else 2) (by decide)⟩
  have hnames : ∀ d ∈ settledDefines, d.name ∉ pyReserved := by decide
  obtain ⟨hcons, hiff⟩ := consistent_iff_settled (fun _ => none) settledDefines hdom
  exact ⟨hcons settled_settledDefines, (hiff hnames).mp settled_settledDefines⟩

/-- `FOO` is an expression first and a literal last, and `X` refers to it. -/
def redefined : List Define :=
  [⟨['F', 'O', 'O'], ['B', 'A', 'R', '+', '1'], none⟩, ⟨['F', 'O', 'O'], ['5'], none⟩,
    ⟨['B', 'A', 'R'], ['1'], none⟩, ⟨['X'], ['F', 'O', 'O'], none⟩]

/-- The sweeps store the first `FOO` over the last one, and `X` gets the value of the first. -/
theorem redefined_inconsistent : InDomain redefined
    ∧ generated (fun _ => none) redefined
      = [(['F', 'O', 'O'], ['5']), (['B', 'A', 'R'], ['1']), (['X'], ['2'])]
    ∧ ¬ Consistent (fun _ => none) redefined := by
  have hdom : InDomain redefined := ⟨names_of_all (by decide), by decide, by decide,
    acyclic_of_all (fun y => if y = ['X'] then 2 else if y = ['F', 'O', 'O'] then 1 else 0)
      (by decide)⟩
  have hheader : generated (fun _ => none) redefined
      = [(['F', 'O', 'O'], ['5']), (['B', 'A', 'R'], ['1']), (['X'], ['2'])] := by decide +kernel
  refine ⟨hdom, hheader, fun h => ?_⟩
  obtain ⟨v, hsource, hgen⟩ := h ⟨['X'], ['F', 'O', 'O'], none⟩ (by decide)
  have hfive : Expands (source redefined) ['X'] 5 := ⟨2, by decide⟩
  have htwo : Expands (generated (fun _ => none) redefined) ['X'] 2 := by
    rw [hheader]
    exact ⟨1, by decide⟩
  have heq := (hfive.unique hsource).trans (hgen.unique htwo)
  exact absurd heq (by decide)

end VibeRtos.Features
