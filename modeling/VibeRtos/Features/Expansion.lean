import VibeRtos.Features.Evaluator

/-!
# What the generated header should say

The generated header is compared with the parsed definitions as a C compiler reads both: the
last definition of a name counts, identifiers expand, and integer constants are C's. `InDomain`
describes the lists of definitions this is about, and `Settled` those among them on which the
evaluator is in step with the last definitions, from the names, the types, the references and
the readability of the bodies alone.
-/

namespace VibeRtos.Features

open Words

/-! ## Full expansion -/

/-- The letters of an integer suffix. -/
def isSuffix (c : Char) : Bool := c == 'u' || c == 'U' || c == 'l' || c == 'L'

/-- An integer constant of C, with binary constants as compilers have them. -/
def cLiteral (w : Text) : Option Nat :=
  let ds := w.takeWhile fun c => !isSuffix c
  if (w.dropWhile fun c => !isSuffix c).all isSuffix then
    match radixLiteral 'x' 'X' 16 ds with
    | some n => some n
    | none =>
        match radixLiteral 'b' 'B' 2 ds with
        | some n => some n
        | none => if ds.head? = some '0' then readBase 8 ds else readBase 10 ds
  else none

/-- The body that counts: that of the last definition. -/
def Header.body (h : Header) (x : Text) : Option Text :=
  (h.reverse.find? fun p => p.1 = x).map Prod.snd

/-- The value of a macro, `n` expansions deep. In sums it does not matter that C expands the
text and not the value. -/
def expand (h : Header) : Nat → Text → Option Int
  | 0, _ => none
  | n + 1, x => (h.body x).bind (sumText fun w =>
      if isIdent w then expand h n w else (cLiteral w).map fun m : Nat => (m : Int))

/-- The full expansion of `x` has the value `v`. -/
def Expands (h : Header) (x : Text) (v : Int) : Prop := ∃ n, expand h n x = some v

/-- The definitions as they were parsed. -/
def source (ds : List Define) : Header := ds.map fun d => (d.name, d.value)

/-- Every macro has the value in the generated header that its last definition gives it. -/
def Consistent (other : Text → Option (Option Int)) (ds : List Define) : Prop :=
  ∀ d ∈ ds, ∃ v, Expands (source ds) d.name v ∧ Expands (generated other ds) d.name v

/-! ## The definitions this is about -/

/-- The identifiers of a body. -/
def refs (value : Text) : List Text := (words value).filter isIdent

/-- An operand of a body: an identifier that is added, or an integer constant with a sign. A
minus in front of an octal constant is left out. -/
def IsOperand (names : List Text) (p : Int × Text) : Prop :=
  isIdent p.2 = true ∧ p.1 = 1 ∧ p.2 ∈ names
    ∨ (cLiteral p.2).isSome ∧ (p.1 = 1 ∨ p.1 = -1 ∧ octalLiteral p.2 = none)

/-- A sum of integer constants and of identifiers with a definition. -/
def IsSum (names : List Text) (value : Text) : Prop :=
  (∃ l, operands (some 1) (lex isWordChar value) = some l ∧ ∀ p ∈ l, IsOperand names p)
    ∧ ¬ ['+', '+'] <:+: value ∧ ¬ ['-', '-'] <:+: value

instance (names : List Text) (p : Int × Text) : Decidable (IsOperand names p) :=
  inferInstanceAs (Decidable (_ ∨ _))

instance (names : List Text) (value : Text) : Decidable (IsSum names value) :=
  decidable_of_iff ((operands (some 1) (lex isWordChar value)).any
      (fun l => l.all fun p => IsOperand names p) = true
      ∧ ¬ ['+', '+'] <:+: value ∧ ¬ ['-', '-'] <:+: value) <| by
    unfold IsSum
    refine and_congr_left fun _ => ?_
    cases operands (some 1) (lex isWordChar value) <;> simp

/-- `d` is the last definition of its name. -/
def LastDefine (ds pre : List Define) (d : Define) (post : List Define) : Prop :=
  ds = pre ++ d :: post ∧ ∀ e ∈ post, e.name ≠ d.name

structure InDomain (ds : List Define) : Prop where
  names : ∀ d ∈ ds, isIdent d.name = true ∧ ∀ c ∈ d.name, isWordChar c = true
  /-- `parse_file` strips what it records -/
  stripped : ∀ d ∈ ds, strip d.value = d.value
  bodies : ∀ d ∈ ds, IsSum (ds.map Define.name) d.value
  /-- no cycle among the definitions that count -/
  acyclic : ∃ rank : Text → Nat, ∀ pre d post, LastDefine ds pre d post →
    ∀ y ∈ refs d.value, rank y < rank d.name

/-! ## The condition -/

/-- What the evaluation order depends on. -/
structure Shape where
  name : Text
  /-- evaluated in the sweeps of the third pass -/
  late : Bool
  /-- all of its literals can be evaluated -/
  works : Bool
  refs : List Text
  deriving DecidableEq, Repr

/-- A single literal that `_parse_literal` knows, or a body with literals that Python knows. -/
def readable (value : Text) : Bool :=
  (parseLiteral value).isSome || (words value).all fun w => isIdent w || (pyNumeral w).isSome

def Define.shape (d : Define) : Shape :=
  ⟨d.name, isLate (recordDefine d), readable d.value, refs d.value⟩

/-- The sweeps store under the name `y`. -/
def Shape.Writes (s : Shape) (y : Text) : Prop :=
  s.late = true ∧ s.works = true ∧ s.name = y

instance (s : Shape) (y : Text) : Decidable (s.Writes y) := inferInstanceAs (Decidable (_ ∧ _))

/-- `s` is the last definition of its name, and `pre` are those in front of it. -/
def Last (ss pre : List Shape) (s : Shape) : Prop :=
  ∃ post, ss = pre ++ s :: post ∧ ∀ t ∈ post, t.name ≠ s.name

/-- Behind the definitions `pre`, the evaluator sees under `y` the last definition of `y`, which
can be evaluated: if that is a literal, no sweep stores another one; and if it is evaluated in
the sweeps, it comes earlier in the sweep, or nothing that comes earlier stores another one. -/
def SeesLast (ss pre : List Shape) (y : Text) : Prop :=
  ∃ before t, Last ss before t ∧ t.name = y ∧ t.works = true ∧
    if t.late then before.length < pre.length ∨ ∀ u ∈ pre, ¬ u.Writes y
    else ∀ u ∈ ss, ¬ u.Writes y

/-- A chain of references from `x` on between last definitions, `n` of which go to a
definition further down that only the sweeps evaluate. -/
inductive Delay (ss : List Shape) : Text → Nat → Prop where
  | zero (x : Text) : Delay ss x 0
  | step {pre before : List Shape} {s t : Shape} {n : Nat} : Last ss pre s → s.late = true →
      s.works = true → Last ss before t → t.late = true → t.name ∈ s.refs → Delay ss t.name n →
      Delay ss s.name (n + if pre.length < before.length then 1 else 0)

/-- Every last definition that the sweeps evaluate sees last definitions only, and no chain is
longer than the sweeps. -/
def Settled (ss : List Shape) : Prop :=
  (∀ pre s, Last ss pre s → s.late = true → s.works = true → ∀ y ∈ s.refs, SeesLast ss pre y)
    ∧ ∀ x n, Delay ss x n → n < maxIters

end VibeRtos.Features
