import Mathlib
import VibeRtos.Lib.Words

/-!
# The evaluator of the feature generator

`features_gen.py` from the parsed macros to the definitions it writes: `_classify_type`,
`_parse_literal`, `Evaluator` and the deduplication in `main`. Texts are lists of ASCII
characters, and the values are integers without bound: bodies with a decimal point or quotes
are left out. So are `_eval_ternaries` and `_c_expr_to_py`, which change nothing in a body
without a parenthesis, `&`, `|` and `!`.
-/

namespace VibeRtos.Features

open Words

abbrev Text := List Char

/-- `\w` -/
def isWordChar (c : Char) : Bool := c.isAlphanum || c == '_'

/-- A word that begins as an identifier does: `[A-Za-z_]\w*` -/
def isIdent : Text → Bool
  | c :: _ => c.isAlpha || c == '_'
  | [] => false

/-- `str.strip` -/
def strip (text : Text) : Text := (text.dropWhile Char.isWhitespace).rdropWhile Char.isWhitespace

/-- `re.sub(rf"\bname\b", val, text)` -/
def replaceWord (name val text : Text) : Text :=
  subst isWordChar (fun w => if w = name then some val else none) text

/-- `re.sub(r"\b[A-Za-z_]\w*\b", "0", text)` -/
def zeroIdents (text : Text) : Text :=
  subst isWordChar (fun w => if isIdent w then some ['0'] else none) text

/-- The words of a text. -/
def words (text : Text) : List Text :=
  (lex isWordChar text).filterMap fun
    | .word w => some w
    | .other _ => none

/-! ## Numerals -/

/-- The value of a digit; 16 for every other character. -/
def digitOf (c : Char) : Nat :=
  if '0' ≤ c ∧ c ≤ '9' then c.toNat - '0'.toNat
  else if 'a' ≤ c ∧ c ≤ 'f' then c.toNat - 'a'.toNat + 10
  else if 'A' ≤ c ∧ c ≤ 'F' then c.toNat - 'A'.toNat + 10
  else 16

/-- One or more digits of a base. -/
def readBase (base : Nat) (ds : Text) : Option Nat :=
  if ds ≠ [] ∧ ds.all (fun c => digitOf c < base) then
    some (ds.foldl (fun n c => base * n + digitOf c) 0)
  else none

/-- A `0`, one of two letters, and digits of the base. -/
def radixLiteral (lower upper : Char) (base : Nat) : Text → Option Nat
  | '0' :: x :: ds => if x = lower ∨ x = upper then readBase base ds else none
  | _ => none

/-- `0[0-7]+` -/
def octalLiteral : Text → Option Nat
  | '0' :: ds => readBase 8 ds
  | _ => none

/-- `-?\d+` -/
def decimalLiteral : Text → Option Int
  | '-' :: ds => (readBase 10 ds).map fun n : Nat => -(n : Int)
  | ds => (readBase 10 ds).map fun n : Nat => (n : Int)

/-- `Evaluator._parse_literal` -/
def parseLiteral (text : Text) : Option Int :=
  let s := strip text
  match radixLiteral 'x' 'X' 16 s with
  | some n => some n
  | none =>
      match radixLiteral 'b' 'B' 2 s with
      | some n => some n
      | none =>
          match octalLiteral s with
          | some n => some n
          | none => decimalLiteral s

/-- `str` of an integer -/
def str (v : Int) : Text :=
  if v < 0 then '-' :: Nat.toDigits 10 v.natAbs else Nat.toDigits 10 v.natAbs

/-! ## Classification -/

inductive MacroType where
  | env
  | raw
  | expression
  | guarded
  deriving DecidableEq, Repr

/-- `_LITERAL_PAT` -/
def literalPat (s : Text) : Bool :=
  (decimalLiteral s).isSome || (radixLiteral 'x' 'x' 16 s).isSome
    || (radixLiteral 'b' 'b' 2 s).isSome || (octalLiteral s).isSome

/-- `_EXPR_OPS` -/
def exprOps : List Text :=
  [['&', '&'], ['|', '|'], ['!'], ['>', '='], ['<', '='], ['=', '='], ['!', '='], ['>'], ['<'],
    ['+'], ['-'], ['*'], ['/'], ['?'], [':'], ['<', '<'], ['>', '>'], ['~'], ['^']]

/-- `_classify_type` -/
def classifyType (value : Text) (guard : Option String) : MacroType :=
  if guard.isSome then .guarded
  else if value = [] then .raw
  else
    let stripped := strip value
    if literalPat stripped then .raw
    else if exprOps.any fun op => op <:+: stripped then .expression
    else if (words stripped).any isIdent then .expression
    else .raw

/-- The fields of a `MacroEntry` that the evaluation reads or sets. -/
structure MacroEntry where
  name : Text
  rawValue : Text
  type : MacroType
  guardCondition : Option String
  evaluatedValue : Option Int := none
  comment : Text := []
  deriving DecidableEq, Repr

/-- A definition as the parser comes past it. -/
structure Define where
  name : Text
  value : Text
  guard : Option String
  deriving DecidableEq, Repr

/-- The entry that `_record_define` appends. -/
def recordDefine (d : Define) : MacroEntry :=
  { name := d.name
    rawValue := d.value
    type := classifyType d.value d.guard
    guardCondition := d.guard }

/-! ## Python's evaluation -/

/-- The operands of a sum, each with its sign. The first argument is the sign that stands in
front of the operand to come, and is `none` behind an operand. -/
def operands : Option Int → List (Tok Char) → Option (List (Int × Text))
  | none, [] => some []
  | some _, [] => none
  | s, .other c :: ts =>
      if c = ' ' ∨ c = '\t' then operands s ts
      else if c = '+' then operands (some (s.getD 1)) ts
      else if c = '-' then operands (some (-s.getD 1)) ts
      else none
  | some s, .word w :: ts => (operands none ts).map fun l => (s, w) :: l
  | none, .word _ :: _ => none

/-- The sum, if every operand has a value. -/
def sumOf (val : Text → Option Int) : List (Int × Text) → Option Int
  | [] => some 0
  | (s, w) :: l => (val w).bind fun v => (sumOf val l).map fun r => s * v + r

/-- The value of a text that is a sum. -/
def sumText (val : Text → Option Int) (text : Text) : Option Int :=
  (operands (some 1) (lex isWordChar text)).bind (sumOf val)

/-- Python's integer literals: no leading zero in front of another digit. -/
def pyNumeral (w : Text) : Option Nat :=
  match radixLiteral 'x' 'X' 16 w with
  | some n => some n
  | none =>
      match radixLiteral 'b' 'B' 2 w with
      | some n => some n
      | none =>
          match radixLiteral 'o' 'O' 8 w with
          | some n => some n
          | none => if w.head? = some '0' ∧ ¬ w.all (· == '0') then none else readBase 10 w

/-- The identifiers that Python does not look up. -/
def pyReserved : List Text :=
  ["False", "None", "True", "and", "as", "assert", "async", "await", "break", "class", "continue",
    "def", "del", "elif", "else", "except", "finally", "for", "from", "global", "if", "import",
    "in", "is", "lambda", "nonlocal", "not", "or", "pass", "raise", "return", "try", "while",
    "with", "yield", "__debug__"].map String.toList

/-- `eval` without builtins of a sum: `none` is an exception, and `some none` the value `None`.
A malformed literal is an exception, and so is an unknown name. What becomes of reserved words
is up to `other`. -/
def pyEval (other : Text → Option (Option Int)) (text : Text) : Option (Option Int) :=
  if (words text).any fun w => !isIdent w && (pyNumeral w).isNone then none
  else if (words text).any fun w => w ∈ pyReserved then other text
  else (sumText (fun w => (pyNumeral w).map fun n : Nat => (n : Int)) text).map some

/-! ## The evaluator -/

/-- `self.symbols` -/
abbrev SymbolTable := List (Text × Int)

namespace SymbolTable

/-- `self.symbols.get` -/
def get : SymbolTable → Text → Option Int
  | [], _ => none
  | (k, v) :: sy, name => if k = name then some v else get sy name

/-- `self.symbols[name] = val` -/
def set : SymbolTable → Text → Int → SymbolTable
  | [], name, val => [(name, val)]
  | (k, v) :: sy, name, val => if k = name then (k, val) :: sy else (k, v) :: set sy name val

/-- `self.symbols.setdefault` -/
def setDefault (sy : SymbolTable) (name : Text) (val : Int) : SymbolTable :=
  if (sy.get name).isSome then sy else sy.set name val

/-- `sorted(self.symbols.keys(), key=len, reverse=True)` -/
def sortedKeys (sy : SymbolTable) : List Text :=
  (sy.map Prod.fst).insertionSort fun a b => b.length ≤ a.length

end SymbolTable

/-- One round of the substitution. -/
def substRound (sy : SymbolTable) (text : Text) : Text :=
  sy.sortedKeys.foldl (fun text name =>
    match sy.get name with
    | some val => replaceWord name (str val) text
    | none => text) text

/-- The substitution, until stable and at most as many rounds as there is fuel. -/
def substStable (sy : SymbolTable) : Nat → Text → Text
  | 0, text => text
  | fuel + 1, text =>
      if substRound sy text = text then text else substStable sy fuel (substRound sy text)

/-- A value in an f-string. -/
def display : Option Int → Text
  | some v => str v
  | none => "None".toList

section Evaluate

variable (other : Text → Option (Option Int))

/-- `Evaluator._eval_expr` -/
def evalExpr (sy : SymbolTable) (expr : Text) : Option Int × Text :=
  if expr = [] then (some 1, "(flag)".toList)
  else
    match parseLiteral expr with
    | some lit => (some lit, str lit)
    | none =>
        let resolved := substStable sy 15 expr
        match pyEval other resolved with
        | some result => (result, expr ++ " → ".toList ++ display result)
        | none =>
            match pyEval other (zeroIdents resolved) with
            | some result =>
                (result, expr ++ " ~→ ".toList ++ display result ++ " (partial)".toList)
            | none => (none, expr ++ " (unresolved)".toList)

/-- `Evaluator._eval_entry` -/
def evalEntry (sy : SymbolTable) (m : MacroEntry) : SymbolTable × MacroEntry :=
  if m.rawValue = [] then
    (sy.setDefault m.name 1,
      { m with evaluatedValue := some 1, comment := "(flag — defined)".toList })
  else
    let (val, comment) := evalExpr other sy m.rawValue
    let m := { m with evaluatedValue := val, comment := comment }
    match val with
    | some v => (sy.set m.name v, m)
    | none => (sy, m)

/-- Evaluate the selected entries in order. -/
def evalPass (sel : MacroEntry → Bool) :
    SymbolTable → List MacroEntry → SymbolTable × List MacroEntry
  | sy, [] => (sy, [])
  | sy, m :: ms =>
      let (sy, m) := if sel m then evalEntry other sy m else (sy, m)
      let (sy, ms) := evalPass sel sy ms
      (sy, m :: ms)

/-- The entries of the third pass. -/
def isLate (m : MacroEntry) : Bool := m.type = .expression || m.type = .guarded

/-- The third pass: until no value changes. -/
def evalSweeps : Nat → SymbolTable → List MacroEntry → SymbolTable × List MacroEntry
  | 0, sy, ms => (sy, ms)
  | n + 1, sy, ms =>
      let (sy, ms') := evalPass other isLate sy ms
      if ms'.map (·.evaluatedValue) ≠ ms.map (·.evaluatedValue) then evalSweeps n sy ms'
      else (sy, ms')

/-- `max_iters` -/
def maxIters : Nat := 12

/-- The first pass; a value that is not an integer is not modelled. -/
def evalEnv : SymbolTable → List MacroEntry → SymbolTable × List MacroEntry
  | sy, [] => (sy, [])
  | sy, m :: ms =>
      let (sy, m) :=
        if m.type = .env then
          let val := match sy.get m.name with
            | some v => some v
            | none => parseLiteral m.rawValue
          (match val with | some v => sy.set m.name v | none => sy,
            { m with evaluatedValue := val, comment := "-D".toList ++ m.name })
        else (sy, m)
      let (sy, ms) := evalEnv sy ms
      (sy, m :: ms)

/-- `Evaluator.evaluate_all` -/
def evaluateAll (sy : SymbolTable) (macros : List MacroEntry) : SymbolTable × List MacroEntry :=
  let (sy, macros) := evalEnv sy macros
  let (sy, macros) := evalPass other (fun m => m.type = .raw) sy macros
  let (sy, macros) := evalSweeps other maxIters sy macros
  evalPass other (fun m => m.evaluatedValue.isNone) sy macros

end Evaluate

/-! ## The output -/

/-- `last_idx` -/
def lastIdx (macros : List MacroEntry) : Text → Option Nat :=
  macros.zipIdx.foldl (fun idx p => Function.update idx p.1.name (some p.2)) fun _ => none

/-- `output_macros` -/
def outputMacros (macros : List MacroEntry) : List MacroEntry :=
  (macros.zipIdx.filter fun p => lastIdx macros p.1.name = some p.2).map Prod.fst

/-- `_val_to_str` -/
def valToStr (val : Option Int) (raw : Text) : Text :=
  match val with
  | some v => str v
  | none => if raw = [] then "/* undefined */".toList else raw

/-- A header: names with their bodies, in order. -/
abbrev Header := List (Text × Text)

/-- The definitions of `write_header`, for parsed macros and without `-D` options. -/
def generated (other : Text → Option (Option Int)) (ds : List Define) : Header :=
  (outputMacros (evaluateAll other [] (ds.map recordDefine)).2).map fun m =>
    (m.name, valToStr m.evaluatedValue m.rawValue)

end VibeRtos.Features
