import VibeRtos.Kernel.Printk

/-!
# Numbers in the formatter

`_fmt_putuint` with its buffer: 11 characters on the stack, filled from the end. An access of
the buffer out of bounds is `none`. Next to it stand the numerals it is to print, and how they
are read.
-/

namespace VibeRtos

/-- `char buf[11]` -/
abbrev DigitBuf := Fin 11 → Char

namespace DigitBuf

/-- `buf[i]` -/
def load (buf : DigitBuf) (i : Int) : Option Char :=
  if h : 0 ≤ i ∧ i < 11 then some (buf ⟨i.toNat, by omega⟩) else none

/-- `buf[i] = c` -/
def store (buf : DigitBuf) (i : Int) (c : Char) : Option DigitBuf :=
  if h : 0 ≤ i ∧ i < 11 then some (Function.update buf ⟨i.toNat, by omega⟩ c) else none

/-- `while (v && i > 0)` -/
def fill (base : UInt32) : Nat → DigitBuf → Int → UInt32 → Option (DigitBuf × Int)
  | 0, _, _, _ => none
  | fuel + 1, buf, i, v =>
      if v ≠ 0 ∧ i > 0 then do
        let d := v % base
        let i := i - 1
        let buf ← buf.store i (fmtDigit d)
        fill base fuel buf i (v / base)
      else
        some (buf, i)

/-- `_fmt_puts` of `&buf[i]`: the characters before the NUL. -/
def puts (buf : DigitBuf) : Nat → Int → Option (List Char)
  | 0, _ => none
  | fuel + 1, i => (buf.load i).bind fun c =>
      if c = '\x00' then some [] else (puts buf fuel (i + 1)).map fun cs => c :: cs

end DigitBuf

/-- `_fmt_putuint`, with whatever is on the stack in `buf`: the characters it emits. -/
def putuint (buf : DigitBuf) (v base : UInt32) : Option (List Char) := do
  let i : Int := 10
  let buf ← buf.store i '\x00'
  if v = 0 then
    return ['0']
  let (buf, i) ← DigitBuf.fill base 11 buf i v
  buf.puts 12 i

/-! ## Numerals -/

/-- A numeral with lower-case digits and without leading zeros. -/
structure CanonicalNumeral (base : Nat) (text : List Char) : Prop where
  ne_nil : text ≠ []
  digits : ∀ c ∈ text, ∃ d < base, c = Nat.digitChar d
  leading : text.head? = some '0' → text = ['0']

/-- A minus sign stands in front of negative numbers, and nowhere else. -/
def SignedNumeral (z : Int) (text : List Char) : Prop :=
  if z < 0 then ∃ digits, text = '-' :: digits ∧ CanonicalNumeral 10 digits
  else CanonicalNumeral 10 text

/-- The value of a digit. -/
def digitValue (base : Nat) (c : Char) : Option Nat :=
  (List.range base).find? fun d => Nat.digitChar d = c

/-- Read a numeral without a sign. -/
def parseNat (base : Nat) (text : List Char) : Option Nat :=
  if text = [] then none
  else text.foldlM (fun n c => (digitValue base c).map fun d => n * base + d) 0

/-- Read a decimal numeral with a sign. -/
def parseInt : List Char → Option Int
  | '-' :: text => (parseNat 10 text).map fun n => -(n : Int)
  | text => (parseNat 10 text).map fun n => (n : Int)

/-- A conversion specification. -/
def convSpec (isLong : Bool) (c : Char) : List Char :=
  '%' :: (if isLong then ['l'] else []) ++ [c]

/-- Wherever it stands in a format, with or without the `l` modifier, the conversion takes one
argument, and for the word `w` it emits `text`. -/
def Emits (c : Char) (w : UInt32) (text : List Char) : Prop :=
  ∀ strAt isLong p kind args o,
    fmtCore strAt (convSpec isLong c ++ p) (⟨kind, w⟩ :: args) o
      = fmtCore strAt p args ⟨o.out ++ text, o.takes ++ [(c, ⟨kind, w⟩)]⟩

end VibeRtos
