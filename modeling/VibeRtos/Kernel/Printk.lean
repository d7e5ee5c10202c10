import Mathlib.Data.List.Basic

/-!
# The kernel's formatter

`_fmt_core` of `init.c`, which `vibe_printk` and the logging subsystem share. The arguments
are the 32-bit words of the `va_list`; each carries what the caller meant it to be.
-/

namespace VibeRtos

/-- What a caller passed. -/
inductive ArgKind where
  | int | str | ptr
  deriving DecidableEq

/-- A word of a `va_list`. -/
structure Arg where
  kind : ArgKind
  word : UInt32
  deriving DecidableEq

/-- What a call has done so far. -/
structure Printed where
  /-- the characters emitted -/
  out : List Char
  /-- each `va_arg`: the conversion character that took it, and the argument -/
  takes : List (Char × Arg)
  deriving DecidableEq

/-- `emit` for each of some characters, and `_fmt_puts`. -/
def Printed.emit (o : Printed) (cs : List Char) : Printed := { o with out := o.out ++ cs }

/-- `(char)(d < 10 ? '0' + d : 'a' + d - 10)` -/
def fmtDigit (d : UInt32) : Char :=
  Char.ofNat (if d < 10 then 0x30 + d.toNat else 0x61 + d.toNat - 10)

/-- The loop of `_fmt_putuint`, which fills `buf` from its end; `i` is the room that is left. -/
def fmtDigits (base : UInt32) : Nat → UInt32 → List Char → List Char
  | 0, _, buf => buf
  | i + 1, v, buf => if v = 0 then buf else fmtDigits base i (v / base) (fmtDigit (v % base) :: buf)

/-- `_fmt_putuint`; `buf` has room for 10 digits and the NUL. -/
def fmtPutuint (v base : UInt32) : List Char :=
  if v = 0 then ['0'] else fmtDigits base 10 v []

/-- How the `switch` of `_fmt_core` renders the word that `va_arg` gives it, for the
conversion characters with a `va_arg`. The `l` modifier makes no difference: `long` is as wide
as `int`. `strAt` is the string at an address. -/
def fmtArg (strAt : UInt32 → List Char) (c : Char) : Option (UInt32 → List Char) :=
  if c = 'd' ∨ c = 'i' then
    some fun w => if w ≥ 0x80000000 then '-' :: fmtPutuint (0 - w) 10 else fmtPutuint w 10
  else if c = 'u' then some fun w => fmtPutuint w 10
  else if c = 'x' ∨ c = 'X' then some fun w => fmtPutuint w 16
  else if c = 's' then some fun w => if w = 0 then "(null)".toList else strAt w
  else if c = 'c' then some fun w => [Char.ofNat (w.toNat % 256)]
  else if c = 'p' then some fun w => '0' :: 'x' :: fmtPutuint w 16
  else none

/-- The `switch` of `_fmt_core`; a `va_arg` behind the last argument is `none`. -/
def fmtConv (strAt : UInt32 → List Char) (isLong : Bool) (c : Char) (args : List Arg)
    (o : Printed) :
    Option (List Arg × Printed) :=
  match fmtArg strAt c with
  | some text =>
      match args with
      | [] => none
      | a :: args => some (args, ⟨o.out ++ text a.word, o.takes ++ [(c, a)]⟩)
  | none =>
      if c = '%' then some (args, o.emit ['%'])
      else some (args, o.emit ('%' :: (if isLong then ['l'] else []) ++ [c]))

mutual

/-- `_fmt_core` from a place in the format on. -/
def fmtCore (strAt : UInt32 → List Char) : List Char → List Arg → Printed → Option Printed
  | [], _, o => some o
  | c :: p, args, o =>
      if c ≠ '%' then fmtCore strAt p args (o.emit [c]) else fmtPercent strAt p args o

/-- The round for a `%`, behind it. -/
def fmtPercent (strAt : UInt32 → List Char) : List Char → List Arg → Printed → Option Printed
  | [], _, o => some o
  | c :: p, args, o =>
      if c = 'l' then fmtLong strAt p args o
      else (fmtConv strAt false c args o).bind fun r => fmtCore strAt p r.1 r.2

/-- The round for a `%`, behind the `l` modifier. -/
def fmtLong (strAt : UInt32 → List Char) : List Char → List Arg → Printed → Option Printed
  | [], _, o => some o
  | c :: p, args, o => (fmtConv strAt true c args o).bind fun r => fmtCore strAt p r.1 r.2

end

/-- `vibe_vprintk` -/
def vprintk (strAt : UInt32 → List Char) (fmt : List Char) (args : List Arg) : Option Printed :=
  fmtCore strAt fmt args ⟨[], []⟩

end VibeRtos
