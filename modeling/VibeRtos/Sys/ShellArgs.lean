import VibeRtos.Sys.Shell

/-!
# The argument array of the shell

`_shell_dispatch` with the array it builds on its stack. Its handlers get `argc` and the
array, as in C; `shellDispatch` hands them the arguments as a list.
-/

namespace VibeRtos

/-- `char *argv[CONFIG_SHELL_MAX_ARGS]`. A slot is `none` until it is written, `some none` is
`NULL`, and a pointer is an offset into the line. -/
abbrev ArgvArray (m : Nat) := Fin m → Option (Option Nat)

namespace ArgvArray

variable {m : Nat}

/-- The array as the stack frame has it. -/
def uninit (m : Nat) : ArgvArray m := fun _ => none

/-- `argv[i] = v` -/
def store (argv : ArgvArray m) (i : Nat) (v : Option Nat) : Option (ArgvArray m) :=
  if h : i < m then some (Function.update argv ⟨i, h⟩ (some v)) else none

/-- `argv[i]` -/
def load (argv : ArgvArray m) (i : Nat) : Option (Option Nat) :=
  if h : i < m then argv ⟨i, h⟩ else none

end ArgvArray

/-- `vibe_shell_cmd_t`, with the handler as it is declared. -/
structure ShellMain (W : Type) (n m : Nat) where
  name : List UInt8
  /-- `handler(argc, argv)` -/
  handler : Nat → ArgvArray m → LineBuf n → W → Handled W n

section

variable {W : Type} {n m : Nat}

/-- `while (*p && argc < CONFIG_SHELL_MAX_ARGS - 1)`; `argc` grows in each round but the last,
so that `CONFIG_SHELL_MAX_ARGS` rounds are enough. -/
def splitLoop : Nat → LineBuf n → ArgvArray m → Nat → Nat → Option (LineBuf n × ArgvArray m × Nat)
  | 0, _, _, _, _ => none
  | fuel + 1, buf, argv, argc, p => do
      if (← buf.load p) = 0 ∨ ¬ argc < m - 1 then
        return (buf, argv, argc)
      let p ← buf.scan isBlank (n + 1) p
      if (← buf.load p) = 0 then
        return (buf, argv, argc)
      let argv ← argv.store argc (some p)
      let argc := argc + 1
      let p ← buf.scan (fun c => c ≠ 0 && ! isBlank c) (n + 1) p
      if (← buf.load p) = 0 then
        splitLoop fuel buf argv argc p
      else
        let buf ← buf.store p 0
        splitLoop fuel buf argv argc (p + 1)

/-- `argv[0]`, …, `argv[argc - 1]`. -/
def ArgvArray.args (argv : ArgvArray m) (argc : Nat) : List Nat :=
  (List.range argc).filterMap fun i => (argv.load i).join

/-- A command whose handler gets its arguments as a list. -/
def ShellCmd.main (m : Nat) (cmd : ShellCmd W n) : ShellMain W n m where
  name := cmd.name
  handler := fun argc argv => cmd.handler (argv.args argc)

/-- The call of a handler, and the message if it does not return 0. -/
def ShellMain.call (cmd : ShellMain W n m) (argc : Nat) (argv : ArgvArray m) (buf : LineBuf n)
    (s : Shell W n) : Shell W n :=
  s.returned (cmd.handler argc argv buf s.world)

/-- What is printed when no command has the name. -/
def unknownCommand (name : List UInt8) (s : Shell W n) : Shell W n :=
  shellPrint "'. Type 'help' for available commands.\r\n"
    ((shellPrint "Unknown command: '" s).write name)

/-- `_shell_dispatch` of the line in `g_line_buf`. -/
def dispatchLine (cfg : ShellConfig) (cmds : List (ShellMain W n cfg.maxArgs)) (s : Shell W n) :
    Option (Shell W n) := do
  let (buf, argv, argc) ←
    splitLoop cfg.maxArgs s.lineBuf (ArgvArray.uninit cfg.maxArgs) 0 0
  let argv ← argv.store argc none
  let s := { s with lineBuf := buf }
  if argc = 0 then
    return s
  -- `argv[0]`, which `strcmp` and the messages read
  let name ← (← argv.load 0).bind fun arg0 => buf.cString (n + 1) arg0
  match cmds.find? fun cmd => cmd.name = name with
  | some cmd => return cmd.call argc argv buf s
  | none => return unknownCommand name s

end

end VibeRtos
