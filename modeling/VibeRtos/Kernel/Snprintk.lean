import VibeRtos.Kernel.Printk

/-!
# The formatter and its two outputs

`_fmt_core` hands every character to a callback with a context: `_console_emit` sends it
to the console, `_buffer_emit` stores it if the buffer of `vibe_vsnprintk` has room. A `size_t`
has 32 bits.
-/

namespace VibeRtos

/-- `_fmt_emit_fn`, with the context as the state. -/
abbrev EmitFn (σ : Type) := Char → σ → σ

section Core

variable {σ : Type} (emit : EmitFn σ)

/-- `_fmt_puts` -/
def emitPuts (s : List Char) (ctx : σ) : σ :=
  match s with
  | [] => ctx
  | c :: s => emitPuts s (emit c ctx)

/-- `_fmt_putuint` -/
def emitPutuint (v base : UInt32) (ctx : σ) : σ :=
  if v = 0 then emit '0' ctx else emitPuts emit (fmtDigits base 10 v []) ctx

/-- The cases of the `switch` with a `va_arg`. -/
def emitArg (strAt : UInt32 → List Char) (c : Char) : Option (UInt32 → σ → σ) :=
  if c = 'd' ∨ c = 'i' then
    some fun w ctx =>
      if w ≥ 0x80000000 then emitPutuint emit (0 - w) 10 (emit '-' ctx)
      else emitPutuint emit w 10 ctx
  else if c = 'u' then some fun w ctx => emitPutuint emit w 10 ctx
  else if c = 'x' ∨ c = 'X' then some fun w ctx => emitPutuint emit w 16 ctx
  else if c = 's' then
    some fun w ctx => emitPuts emit (if w = 0 then "(null)".toList else strAt w) ctx
  else if c = 'c' then some fun w ctx => emit (Char.ofNat (w.toNat % 256)) ctx
  else if c = 'p' then
    some fun w ctx => emitPutuint emit w 16 (emitPuts emit ['0', 'x'] ctx)
  else none

/-- The `switch`; a `va_arg` behind the last argument is `none`. -/
def emitConv (strAt : UInt32 → List Char) (isLong : Bool) (c : Char) (args : List Arg) (ctx : σ) :
    Option (List Arg × σ) :=
  match emitArg emit strAt c with
  | some text =>
      match args with
      | [] => none
      | a :: args => some (args, text a.word ctx)
  | none =>
      if c = '%' then some (args, emit '%' ctx)
      else
        let ctx := emit '%' ctx
        let ctx := if isLong then emit 'l' ctx else ctx
        some (args, emit c ctx)

mutual

/-- `_fmt_core` from a place in the format on. -/
def emitCore (strAt : UInt32 → List Char) : List Char → List Arg → σ → Option σ
  | [], _, ctx => some ctx
  | c :: p, args, ctx =>
      if c ≠ '%' then emitCore strAt p args (emit c ctx) else emitPercent strAt p args ctx

/-- The round for a `%`, behind it. -/
def emitPercent (strAt : UInt32 → List Char) : List Char → List Arg → σ → Option σ
  | [], _, ctx => some ctx
  | c :: p, args, ctx =>
      if c = 'l' then emitLong strAt p args ctx
      else (emitConv emit strAt false c args ctx).bind fun r => emitCore strAt p r.1 r.2

/-- The round for a `%`, behind the `l` modifier. -/
def emitLong (strAt : UInt32 → List Char) : List Char → List Arg → σ → Option σ
  | [], _, ctx => some ctx
  | c :: p, args, ctx =>
      (emitConv emit strAt true c args ctx).bind fun r => emitCore strAt p r.1 r.2

end

end Core

/-- `_console_emit`; the context is what `vibe_console_putc` has been given. -/
def consoleEmit : EmitFn (List Char) := fun c sent => sent ++ [c]

/-- `vibe_vprintk`: the characters that the console gets. -/
def vprintkConsole (strAt : UInt32 → List Char) (fmt : List Char) (args : List Arg) :
    Option (List Char) :=
  emitCore consoleEmit strAt fmt args []

/-- `_snprintk_ctx_t`; `buf` is the memory from the buffer on. -/
structure SnprintkCtx where
  buf : Nat → Char
  size : UInt32
  /-- the characters written so far, whether stored or not -/
  pos : UInt32

/-- `_buffer_emit` -/
def bufferEmit : EmitFn SnprintkCtx := fun c ctx =>
  let buf := if ctx.pos + 1 < ctx.size then Function.update ctx.buf ctx.pos.toNat c else ctx.buf
  { ctx with buf := buf, pos := ctx.pos + 1 }

/-- `vibe_vsnprintk`: the value it returns, and the memory. -/
def vsnprintk (strAt : UInt32 → List Char) (buf : Nat → Char) (size : UInt32) (fmt : List Char)
    (args : List Arg) : Option (UInt32 × (Nat → Char)) :=
  (emitCore bufferEmit strAt fmt args ⟨buf, size, 0⟩).map fun ctx =>
    (ctx.pos, if size > 0 then
      Function.update ctx.buf (if ctx.pos < size - 1 then ctx.pos else size - 1).toNat '\x00'
    else ctx.buf)

end VibeRtos
