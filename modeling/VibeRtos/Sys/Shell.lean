import Mathlib.Logic.Function.Basic

/-!
# The serial shell

`shell.c`: the line editor that `vibe_shell_process` runs over the received bytes, and the
dispatch of a finished line. An access of `g_line_buf` out of bounds is `none`.
-/

namespace VibeRtos

/-- The options of `Kconfig`, in their ranges. -/
structure ShellConfig where
  /-- `CONFIG_SHELL_BUF_SIZE` -/
  bufSize : Nat
  /-- `CONFIG_SHELL_MAX_ARGS` -/
  maxArgs : Nat
  bufSize_range : 32 ≤ bufSize ∧ bufSize ≤ 512
  maxArgs_range : 2 ≤ maxArgs ∧ maxArgs ≤ 32
  /-- `CONFIG_SHELL_PROMPT_STR` -/
  prompt : String

/-- `VIBE_RTOS_VERSION_STRING` -/
def versionString : String := "0.1.0"

/-- A `char` buffer of `n` bytes. -/
abbrev LineBuf (n : Nat) := Fin n → UInt8

namespace LineBuf

variable {n : Nat}

/-- `buf[i]` -/
def load (buf : LineBuf n) (i : Int) : Option UInt8 :=
  if h : 0 ≤ i ∧ i < n then some (buf ⟨i.toNat, by omega⟩) else none

/-- `buf[i] = c` -/
def store (buf : LineBuf n) (i : Int) (c : UInt8) : Option (LineBuf n) :=
  if h : 0 ≤ i ∧ i < n then some (Function.update buf ⟨i.toNat, by omega⟩ c) else none

/-- `while (cond(*p)) { p++; }`; the fuel is never what ends it, as `p` leaves the buffer
first. -/
def scan (buf : LineBuf n) (cond : UInt8 → Bool) : Nat → Nat → Option Nat
  | 0, _ => none
  | fuel + 1, p => (buf.load p).bind fun c =>
      if cond c then scan buf cond fuel (p + 1) else some p

/-- The string at `p`. -/
def cString (buf : LineBuf n) : Nat → Nat → Option (List UInt8)
  | 0, _ => none
  | fuel + 1, p => (buf.load p).bind fun c =>
      if c = 0 then some [] else (cString buf fuel (p + 1)).map fun cs => c :: cs

end LineBuf

/-- What a handler leaves behind. It may rewrite the line, and the pointers to it, of which
`argv[0]` is read again; `W` is whatever else it works on. -/
structure Handled (W : Type) (n : Nat) where
  lineBuf : LineBuf n
  /-- `argv[0]`, an offset into the line; `none` is `NULL` -/
  arg0 : Option Nat
  world : W
  /-- what it prints -/
  bytes : List UInt8
  /-- what it returns -/
  ret : Int32

/-- `vibe_shell_cmd_t`. A handler gets `argv` as offsets into the line buffer. -/
structure ShellCmd (W : Type) (n : Nat) where
  name : List UInt8
  handler : List Nat → LineBuf n → W → Handled W n

/-- `"command '%s' returned %d\r\n"`, a call of `vibe_printk`. -/
structure CommandReturned where
  /-- the string for `%s`; `none` if the handler has left none at `argv[0]` -/
  name : Option (List UInt8)
  ret : Int32
  deriving DecidableEq

/-- The state of the shell. -/
structure Shell (W : Type) (n : Nat) where
  /-- `g_shell_uart` is not `NULL` -/
  attached : Bool
  /-- `g_line_buf` -/
  lineBuf : LineBuf n
  /-- `g_line_len` -/
  lineLen : Int
  world : W
  /-- what was written to the UART -/
  out : List UInt8
  /-- what the shell printed with `vibe_printk`, which goes to the console -/
  console : List CommandReturned
  /-- the lines that were handed to `_shell_dispatch` -/
  lines : List (List UInt8)

section

variable {W : Type} {n : Nat}

/-- `uart_write` to `g_shell_uart`, and `vibe_shell_print`. -/
def Shell.write (s : Shell W n) (bytes : List UInt8) : Shell W n :=
  if s.attached then { s with out := s.out ++ bytes } else s

/-- `vibe_shell_print` -/
def shellPrint (str : String) (s : Shell W n) : Shell W n := s.write str.toUTF8.toList

/-- `vibe_printk("command '%s' returned %d\r\n", argv[0], ret)`, which prints `NULL` as
`(null)`. -/
def Shell.printkReturned (s : Shell W n) (arg0 : Option Nat) (ret : Int32) : Shell W n :=
  let name := match arg0 with
    | some p => s.lineBuf.cString (n + 1) p
    | none => some "(null)".toUTF8.toList
  { s with console := s.console ++ [⟨name, ret⟩] }

/-- The return of a handler to `_shell_dispatch`. -/
def Shell.returned (s : Shell W n) (r : Handled W n) : Shell W n :=
  let s := { s with lineBuf := r.lineBuf, world := r.world }.write r.bytes
  if r.ret ≠ 0 then s.printkReturned r.arg0 r.ret else s

/-- A blank or a tab. -/
def isBlank (c : UInt8) : Bool := c = 0x20 || c = 0x09

/-- The loop of `_shell_dispatch` that splits the line at `p` into `argv`; `room` is by how
much `argc` may still grow. -/
def shellArgv : Nat → LineBuf n → Nat → List Nat → Option (LineBuf n × List Nat)
  | 0, buf, p, argv => (buf.load p).map fun _ => (buf, argv)
  | room + 1, buf, p, argv => do
      if (← buf.load p) = 0 then
        return (buf, argv)
      let p ← buf.scan isBlank (n + 1) p
      if (← buf.load p) = 0 then
        return (buf, argv)
      let argv := argv ++ [p]
      let p ← buf.scan (fun c => c ≠ 0 && ! isBlank c) (n + 1) p
      if (← buf.load p) = 0 then
        shellArgv room buf p argv
      else
        let buf ← buf.store p 0
        shellArgv room buf (p + 1) argv

/-- `_shell_dispatch` of the line in `g_line_buf`. -/
def shellDispatch (cfg : ShellConfig) (cmds : List (ShellCmd W n)) (s : Shell W n) :
    Option (Shell W n) := do
  let (buf, argv) ← shellArgv (cfg.maxArgs - 1) s.lineBuf 0 []
  let s := { s with lineBuf := buf }
  match argv with
  | [] => return s
  | arg0 :: _ =>
      let name ← buf.cString (n + 1) arg0
      match cmds.find? fun cmd => cmd.name = name with
      | some cmd => return s.returned (cmd.handler argv buf s.world)
      | none =>
          return shellPrint "'. Type 'help' for available commands.\r\n"
            ((shellPrint "Unknown command: '" s).write name)

/-- One round of the loop of `vibe_shell_process`, for the byte `c` from `uart_getc`. -/
def shellByte (cfg : ShellConfig) (cmds : List (ShellCmd W n)) (s : Shell W n) (c : UInt8) :
    Option (Shell W n) :=
  if c = 0x0D ∨ c = 0x0A then do
    let s := shellPrint "\r\n" s
    if s.lineLen > 0 then
      let buf ← s.lineBuf.store s.lineLen 0
      let line ← buf.cString (n + 1) 0
      let s ← shellDispatch cfg cmds { s with lineBuf := buf, lines := s.lines ++ [line] }
      return shellPrint cfg.prompt { s with lineLen := 0 }
    else
      return shellPrint cfg.prompt s
  else if c = 0x08 ∨ c = 0x7F then
    if s.lineLen > 0 then
      some ({ s with lineLen := s.lineLen - 1 }.write [0x08, 0x20, 0x08])
    else
      some s
  else if c ≥ 0x20 ∧ s.lineLen < (n : Int) - 1 then do
    let buf ← s.lineBuf.store s.lineLen c
    return { s with lineBuf := buf, lineLen := s.lineLen + 1 }.write [c]
  else
    some s

/-- `vibe_shell_process` while `uart_getc` delivers `bytes`; without a UART it asks for
none. -/
def shellProcess (cfg : ShellConfig) (cmds : List (ShellCmd W n)) (s : Shell W n)
    (bytes : List UInt8) : Option (Shell W n) :=
  if s.attached then bytes.foldlM (shellByte cfg cmds) s else some s

/-- `vibe_shell_init` -/
def shellInit (cfg : ShellConfig) (attached : Bool) (s : Shell W n) : Shell W n :=
  let s := { s with attached := attached, lineLen := 0, lineBuf := fun _ => 0 }
  shellPrint cfg.prompt (shellPrint ("VibeRTOS v" ++ versionString ++ "\r\n") (shellPrint "\r\n" s))

end

end VibeRtos
